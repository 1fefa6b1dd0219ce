import BpfElfTools.OldExtractor.Load

/-!
# The maps of the old extractor

The maps are the symbols of the section `maps`, ordered by their offsets. Their
definitions are all taken to have the size of the section divided by their
number.

* `foldlM_collectSym_ok_iff`: when the assertion on their number holds;
* `loadElfMapsSection_ok_iff`: when the maps are loaded, and what they are then;
* `loadElfMapsSection_bounds`: what happens when there are none, or too many;
* `loadElfMapsSection_perm`: the order of the symbols does not matter;
* `getMaps_rank`: the descriptor of a map is the rank of its offset.
-/

namespace BpfElfTools.OldExtractor

open Extractor (toInt)

/-! ## Symbols -/

/-- The symbols of the section `maps`. -/
def mapsSyms (symbols : ElfData) (mapsShndx : ℕ) : List GElfSym :=
  (symbols.syms.take (symbols.size / sizeofGElfSym)).filter fun s => s.shndx = mapsShndx

/-- The symbols of the section `maps` among those of the given numbers. -/
def symsAt (symbols : ElfData) (mapsShndx : ℕ) (is : List ℕ) : List GElfSym :=
  (is.filterMap (symbols.syms[·]?)).filter fun s => s.shndx = mapsShndx

theorem symsAt_range (symbols : ElfData) (mapsShndx : ℕ) :
    symsAt symbols mapsShndx (List.range (symbols.size / sizeofGElfSym)) =
      mapsSyms symbols mapsShndx := by
  rw [symsAt, Fold.filterMap_range_getElem?, mapsSyms]

section

variable {symbols : ElfData} {mapsShndx : ℕ}

theorem symsAt_append (is js : List ℕ) :
    symsAt symbols mapsShndx (is ++ js) =
      symsAt symbols mapsShndx is ++ symsAt symbols mapsShndx js := by
  rw [symsAt, List.filterMap_append, List.filter_append]
  rfl

/-- An iteration adds the symbol of its number, if there is room for another one. -/
theorem collectSym_eq (sym : List GElfSym) (i : ℕ) :
    collectSym symbols mapsShndx sym i =
      if sym.length ≤ maxMaps then .ok (sym ++ symsAt symbols mapsShndx [i])
      else .error .assertFailed := by
  rw [collectSym, symsAt]
  by_cases hlen : sym.length ≤ maxMaps
  · rw [if_pos (by omega), if_pos hlen]
    rcases hs : symbols.syms[i]? with _ | s
    · simp [hs]
    · by_cases hmaps : s.shndx = mapsShndx <;> simp [hs, hmaps]
  · rw [if_neg (by omega), if_neg hlen]

/-- The loop collects the symbols of the section. It gets past the assertion in the iteration
    after some others exactly if these have not filled the table. -/
theorem foldlM_collectSym (is : List ℕ) (i : ℕ) (sym : List GElfSym) :
    (is ++ [i]).foldlM (collectSym symbols mapsShndx) sym =
      if (sym ++ symsAt symbols mapsShndx is).length ≤ maxMaps then
        .ok (sym ++ symsAt symbols mapsShndx (is ++ [i]))
      else .error .assertFailed := by
  induction is generalizing sym with
  | nil =>
    rw [List.nil_append, List.foldlM_cons, collectSym_eq]
    have hnil : symsAt symbols mapsShndx [] = [] := rfl
    rw [hnil, List.append_nil]
    split <;> rfl
  | cons j is ih =>
    have hcons (js : List ℕ) : symsAt symbols mapsShndx (j :: js) =
        symsAt symbols mapsShndx [j] ++ symsAt symbols mapsShndx js := symsAt_append [j] js
    rw [List.cons_append, List.foldlM_cons, collectSym_eq]
    by_cases hlen : sym.length ≤ maxMaps
    · rw [if_pos hlen, Fold.ok_bind, ih, hcons is, hcons (is ++ [i]), List.append_assoc,
        List.append_assoc]
    · rw [if_neg hlen, if_neg (by rw [List.length_append]; omega)]
      rfl

/-- The assertion fails if more than `MAX_MAPS` of the symbols before the last one are maps. -/
theorem foldlM_collectSym_range :
    (List.range (symbols.size / sizeofGElfSym)).foldlM (collectSym symbols mapsShndx) [] =
      if (symsAt symbols mapsShndx
          (List.range (symbols.size / sizeofGElfSym - 1))).length ≤ maxMaps then
        .ok (mapsSyms symbols mapsShndx)
      else .error .assertFailed := by
  rw [← symsAt_range]
  cases symbols.size / sizeofGElfSym with
  | zero =>
    have hnil : symsAt symbols mapsShndx [] = [] := rfl
    rw [List.range_zero, hnil]
    rfl
  | succ n =>
    rw [List.range_succ, foldlM_collectSym, List.nil_append, Nat.add_sub_cancel, List.nil_append]

theorem foldlM_collectSym_ok_iff {sym : List GElfSym} :
    (List.range (symbols.size / sizeofGElfSym)).foldlM (collectSym symbols mapsShndx) [] =
        .ok sym ↔
      (symsAt symbols mapsShndx (List.range (symbols.size / sizeofGElfSym - 1))).length ≤ maxMaps ∧
        sym = mapsSyms symbols mapsShndx := by
  rw [foldlM_collectSym_range]
  split
  · exact ⟨fun h => ⟨‹_›, (Except.ok.inj h).symm⟩, fun h => by rw [h.2]⟩
  · exact ⟨fun h => (by cases h), fun h => absurd h.1 ‹_›⟩

/-- The maps before the last symbol are among all of them. -/
theorem length_symsAt_le : (symsAt symbols mapsShndx
    (List.range (symbols.size / sizeofGElfSym - 1))).length ≤
      (mapsSyms symbols mapsShndx).length := by
  rw [← symsAt_range]
  cases symbols.size / sizeofGElfSym with
  | zero => exact le_rfl
  | succ n =>
    rw [Nat.add_sub_cancel, List.range_succ, symsAt_append, List.length_append]
    exact Nat.le_add_right _ _

end

/-! ## A small object -/

/-- The symbols of a program and of two maps, the first of which has the larger offset. -/
def twoMapSyms : List GElfSym :=
  [⟨some [], 0, 0, 0, 0, 0⟩, ⟨some (cstr "load"), stbGlobal, sttFunc, 1, 8, 16⟩,
    ⟨some (cstr "counts"), stbGlobal, sttObject, 4, 28, 28⟩,
    ⟨some (cstr "totals"), stbGlobal, sttObject, 4, 0, 28⟩]

/-- An object whose program refers to the symbol of a given number. -/
def twoMapElf (sym : ℕ) : Elf :=
  smallElf "xdp" [⟨lddwCode, 1, 0, 0, 0⟩, .zero, ⟨0x95, 0, 0, 0, 0⟩] [⟨0, sym⟩] twoMapSyms
    ([2, 4, 8, 1, 0, 0, 0, 1, 4, 8, 16, 0, 0, 0].flatMap (leBytes 4))

/-- A symbol table. -/
def symtabOf (syms : List GElfSym) : ElfData :=
  .ofBytes (syms.flatMap fun sym => sym.bytes 0) syms []

/-! ## Definitions -/

/-- The record of a map whose definition has `sz` bytes. -/
def mapOf (data : ElfData) (sz : ℕ) (sym : GElfSym) : BpfMapData where
  fd := -1
  name := sym.name.getD []
  elfOffset := sym.value
  defn := .ofBytes ((data.bytes.drop sym.value).take (min sz sizeofBpfLoadMapDef))

/-- The definition of a map is in the section, and what is not known of it is zero. -/
structure DefinitionFits (data : ElfData) (sz : ℕ) (sym : GElfSym) : Prop where
  name : sym.name.isSome
  buf : data.buf.isSome
  bounds : sym.value + sz ≤ data.size
  zeros : ∀ b ∈ (data.bytes.drop (sym.value + sizeofBpfLoadMapDef)).take (sz - sizeofBpfLoadMapDef),
    b = 0

instance (data : ElfData) (sz : ℕ) : DecidablePred (DefinitionFits data sz) := fun sym =>
  decidable_of_iff (sym.name.isSome ∧ data.buf.isSome ∧ sym.value + sz ≤ data.size ∧
    ((data.bytes.drop (sym.value + sizeofBpfLoadMapDef)).take (sz - sizeofBpfLoadMapDef)).all
      (· = 0))
    ⟨fun ⟨h₁, h₂, h₃, h₄⟩ => ⟨h₁, h₂, h₃, fun b hb =>
        of_decide_eq_true (List.all_eq_true.1 h₄ b hb)⟩,
      fun ⟨h₁, h₂, h₃, h₄⟩ => ⟨h₁, h₂, h₃, List.all_eq_true.2 fun b hb =>
        decide_eq_true (h₄ b hb)⟩⟩

theorem validateZero_eq_true {b : Bytes} {offset : ℕ} {mapSzElf : ℤ} :
    validateZero b offset mapSzElf = .ok true ↔
      (∀ c ∈ (b.drop (offset + sizeofBpfLoadMapDef)).take (mapSzElf - sizeofBpfLoadMapDef).toNat,
        c = 0) ∧ offset + mapSzElf ≤ b.length := by
  rw [validateZero]
  split
  · rename_i hany
    obtain ⟨c, hc, hne⟩ := List.any_eq_true.1 hany
    exact ⟨fun h => (by cases h), fun h => absurd (h.1 c hc) (of_decide_eq_true hne)⟩
  · rename_i hany
    have hzero : ∀ c ∈ (b.drop (offset + sizeofBpfLoadMapDef)).take
        (mapSzElf - sizeofBpfLoadMapDef).toNat, c = 0 := by
      intro c hc
      by_contra hne
      exact hany (List.any_eq_true.2 ⟨c, hc, decide_eq_true hne⟩)
    split
    · exact ⟨fun h => (by cases h), fun h => absurd h.2 (not_le.2 ‹_›)⟩
    · exact ⟨fun _ => ⟨hzero, not_lt.1 ‹_›⟩, fun _ => rfl⟩

/-- The body of the loop makes the record of a map if its definition fits. -/
theorem copyMap_eq_some {data : ElfData} {mapSzElf : ℤ} {i : ℕ} {sym : GElfSym}
    {map : BpfMapData} : copyMap data mapSzElf i sym = .ok (some map) ↔
      0 ≤ mapSzElf ∧ i < maxMaps ∧ DefinitionFits data mapSzElf.toNat sym ∧
        map = mapOf data mapSzElf.toNat sym := by
  rw [copyMap]
  rcases hname : sym.name with _ | mapName
  · exact ⟨fun h => (by cases h), fun h => absurd h.2.2.1.name (by simp [hname])⟩
  dsimp only
  split
  · exact ⟨fun h => (by cases h), fun h => absurd h.2.1 (not_lt.2 ‹_›)⟩
  rename_i hi
  rcases hbuf : data.buf with _ | b
  · exact ⟨fun h => (by cases h), fun h => absurd h.2.2.1.buf (by simp [hbuf])⟩
  dsimp only
  have hsize : data.size = b.length := (data.length_buf b (by simp [hbuf])).symm
  have hbytes : data.bytes = b := by rw [ElfData.bytes, hbuf]; rfl
  have hrecord (hsz : 0 ≤ mapSzElf) : mapOf data mapSzElf.toNat sym =
      { fd := -1, name := mapName, elfOffset := sym.value,
        defn := .ofBytes ((b.drop sym.value).take (mapSzCopy mapSzElf).toNat) } := by
    rw [mapOf, hname, hbytes, show min mapSzElf.toNat sizeofBpfLoadMapDef =
      (mapSzCopy mapSzElf).toNat by rw [mapSzCopy]; omega]
    rfl
  split
  · rename_i hout
    refine ⟨fun h => (by cases h), fun h => ?_⟩
    have hbounds := h.2.2.1.bounds
    rw [mapSzCopy] at hout
    omega
  rename_i hin
  rw [not_or, not_lt, not_lt, mapSzCopy] at hin
  rw [← hrecord hin.1]
  split
  · rename_i hlarge
    have hmap : (validateZero b sym.value mapSzElf).map (fun valid =>
        if valid then some (mapOf data mapSzElf.toNat sym) else none) = .ok (some map) ↔
        validateZero b sym.value mapSzElf = .ok true ∧ map = mapOf data mapSzElf.toNat sym := by
      rcases validateZero b sym.value mapSzElf with f | _ | _ <;> simp [Except.map, eq_comm]
    rw [hmap, validateZero_eq_true]
    constructor
    · rintro ⟨⟨hzeros, hbounds⟩, rfl⟩
      refine ⟨hin.1, not_le.1 hi, ⟨by simp [hname], by simp [hbuf], by omega, ?_⟩, rfl⟩
      rwa [hbytes, show mapSzElf.toNat - sizeofBpfLoadMapDef =
        (mapSzElf - sizeofBpfLoadMapDef).toNat by omega]
    · rintro ⟨-, -, hfits, rfl⟩
      have hzeros := hfits.zeros
      have hbounds := hfits.bounds
      rw [hbytes, show mapSzElf.toNat - sizeofBpfLoadMapDef =
        (mapSzElf - sizeofBpfLoadMapDef).toNat by omega] at hzeros
      exact ⟨⟨hzeros, by omega⟩, rfl⟩
  · rename_i hsmall
    constructor
    · intro h
      cases h
      refine ⟨hin.1, not_le.1 hi, ⟨by simp [hname], by simp [hbuf], by omega, ?_⟩, rfl⟩
      rw [show mapSzElf.toNat - sizeofBpfLoadMapDef = 0 by omega, List.take_zero]
      exact fun c hc => absurd hc List.not_mem_nil
    · rintro ⟨-, -, -, rfl⟩
      rfl

/-- The loop makes the records of the maps, in order, if there are not too many of them and
    their definitions fit. -/
theorem copyMaps_eq_some {data : ElfData} {mapSzElf : ℤ} {i : ℕ} {syms : List GElfSym}
    {maps : List BpfMapData} : copyMaps data mapSzElf i syms = .ok (some maps) ↔
      (syms ≠ [] → 0 ≤ mapSzElf ∧ i + syms.length ≤ maxMaps) ∧
        (∀ sym ∈ syms, DefinitionFits data mapSzElf.toNat sym) ∧
        maps = syms.map (mapOf data mapSzElf.toNat) := by
  induction syms generalizing i maps with
  | nil =>
    constructor
    · intro h
      cases h
      exact ⟨fun h => absurd rfl h, fun sym hsym => absurd hsym List.not_mem_nil, rfl⟩
    · rintro ⟨-, -, rfl⟩
      rfl
  | cons sym syms ih =>
    rw [copyMaps, Fold.bind_eq_ok]
    constructor
    · rintro ⟨map?, hmap, h⟩
      rcases map? with _ | map
      · cases h
      obtain ⟨hsz, hi, hfits, rfl⟩ := copyMap_eq_some.1 hmap
      rcases hrest : copyMaps data mapSzElf (i + 1) syms with f | _ | maps'
      · rw [hrest] at h
        cases h
      · rw [hrest] at h
        cases h
      · rw [hrest] at h
        cases h
        obtain ⟨hlen, hall, rfl⟩ := ih.1 hrest
        refine ⟨fun _ => ⟨hsz, ?_⟩, ?_, rfl⟩
        · rw [List.length_cons]
          by_cases hnil : syms = []
          · rw [hnil, List.length_nil]
            omega
          · have := (hlen hnil).2
            omega
        · rintro s (_ | ⟨_, hs⟩)
          · exact hfits
          · exact hall s hs
    · rintro ⟨hlen, hall, rfl⟩
      obtain ⟨hsz, hi⟩ := hlen (List.cons_ne_nil _ _)
      rw [List.length_cons] at hi
      refine ⟨some (mapOf data mapSzElf.toNat sym), copyMap_eq_some.2
        ⟨hsz, by omega, hall sym List.mem_cons_self, rfl⟩, ?_⟩
      have hrest := (ih (i := i + 1)).2 ⟨fun _ => ⟨hsz, by omega⟩,
        fun s hs => hall s (List.mem_cons_of_mem _ hs), rfl⟩
      dsimp only
      rw [hrest]
      rfl

/-! ## The section -/

/-- The maps are loaded exactly if there are some, not more than `MAX_MAPS`, whose definitions
    fit, each having its share of the section; they are in the order of their offsets then. -/
theorem loadElfMapsSection_ok_iff {elf : Elf} {mapsShndx : ℕ} {symbols : ElfData}
    {maps : List BpfMapData} : loadElfMapsSection elf mapsShndx symbols = .ok (some maps) ↔
      ∃ data sz, elf.secData mapsShndx = some data ∧
        toInt (data.size / (mapsSyms symbols mapsShndx).length) = (sz : ℕ) ∧
        0 < (mapsSyms symbols mapsShndx).length ∧
        (mapsSyms symbols mapsShndx).length ≤ maxMaps ∧
        (∀ sym ∈ mapsSyms symbols mapsShndx, DefinitionFits data sz sym) ∧
        maps = (Sorting.sort cmpSymbols (mapsSyms symbols mapsShndx)).map (mapOf data sz) := by
  rw [loadElfMapsSection]
  rcases hdata : elf.secData mapsShndx with _ | data
  · exact ⟨fun h => (by cases h), fun ⟨_, _, h, _⟩ => (by cases h)⟩
  have hlen := Sorting.length_sort cmpSymbols (mapsSyms symbols mapsShndx)
  constructor
  · intro h
    obtain ⟨sym, hsym, h⟩ := Fold.bind_eq_ok.1 h
    obtain ⟨-, rfl⟩ := foldlM_collectSym_ok_iff.1 hsym
    split at h
    · cases h
    rename_i hne
    have hpos := Nat.pos_of_ne_zero hne
    obtain ⟨hcount, hfits, rfl⟩ := copyMaps_eq_some.1 h
    have hsort : Sorting.sort cmpSymbols (mapsSyms symbols mapsShndx) ≠ [] := by
      rw [← List.length_pos_iff, hlen]
      exact hpos
    obtain ⟨hsz, hmax⟩ := hcount hsort
    exact ⟨data, _, rfl, (Int.toNat_of_nonneg hsz).symm, hpos, by omega,
      fun sym hsym => hfits sym (Sorting.mem_sort.2 hsym), rfl⟩
  · rintro ⟨_, sz, ⟨⟩, hsz, hpos, hmax, hfits, rfl⟩
    refine Fold.bind_eq_ok.2 ⟨_, foldlM_collectSym_ok_iff.2 ⟨length_symsAt_le.trans hmax, rfl⟩, ?_⟩
    rw [if_neg hpos.ne', hsz, copyMaps_eq_some]
    exact ⟨fun _ => ⟨by omega, by omega⟩, fun sym hsym => hfits sym (Sorting.mem_sort.1 hsym), rfl⟩

theorem cmpSymbols_le_zero {a b : GElfSym} : cmpSymbols a b ≤ 0 ↔ a.value ≤ b.value := by
  rw [cmpSymbols]
  split
  · exact iff_of_true (by omega) (by omega)
  · split
    · exact iff_of_false (by omega) (by omega)
    · exact iff_of_true le_rfl (by omega)

theorem isCmp_cmpSymbols : Sorting.IsCmp cmpSymbols := by
  constructor
  · intro a b
    rw [cmpSymbols_le_zero, cmpSymbols_le_zero]
    exact Nat.le_total _ _
  · intro a b c
    rw [cmpSymbols_le_zero, cmpSymbols_le_zero, cmpSymbols_le_zero]
    exact Nat.le_trans

/-- The offsets of the maps differ. -/
def DistinctOffsets (syms : List GElfSym) : Prop := (syms.map GElfSym.value).Nodup

instance : DecidablePred DistinctOffsets := fun _ => inferInstanceAs (Decidable (List.Nodup _))

/-- The order of the symbols does not matter to the maps, if their offsets differ. -/
theorem loadElfMapsSection_perm {elf : Elf} {mapsShndx : ℕ} {symbols symbols' : ElfData}
    (hperm : (mapsSyms symbols mapsShndx).Perm (mapsSyms symbols' mapsShndx))
    (hoff : DistinctOffsets (mapsSyms symbols mapsShndx)) (maps : List BpfMapData) :
    loadElfMapsSection elf mapsShndx symbols = .ok (some maps) ↔
      loadElfMapsSection elf mapsShndx symbols' = .ok (some maps) := by
  have hsort : Sorting.sort cmpSymbols (mapsSyms symbols mapsShndx) =
      Sorting.sort cmpSymbols (mapsSyms symbols' mapsShndx) := by
    refine Sorting.sort_eq_of_perm isCmp_cmpSymbols hperm fun a ha b hb hab hba => ?_
    rw [cmpSymbols_le_zero] at hab hba
    exact List.inj_on_of_nodup_map hoff ha hb (Nat.le_antisymm hab hba)
  rw [loadElfMapsSection_ok_iff, loadElfMapsSection_ok_iff, hsort, hperm.length_eq]
  simp only [hperm.mem_iff]

theorem loadElfMapsSection_perm_reverse : ∃ maps,
    loadElfMapsSection (twoMapElf 2) 4 (symtabOf twoMapSyms) = .ok (some maps) ∧
      loadElfMapsSection (twoMapElf 2) 4 (symtabOf twoMapSyms.reverse) = .ok (some maps) := by
  have hload : ∃ maps, loadElfMapsSection (twoMapElf 2) 4 (symtabOf twoMapSyms) =
      .ok (some maps) := ⟨_, rfl⟩
  obtain ⟨maps, hmaps⟩ := hload
  exact ⟨maps, hmaps, (loadElfMapsSection_perm (by decide) (by decide) maps).1 hmaps⟩

/-- If there are too many maps, the records run out of their table. -/
theorem copyMaps_full {data : ElfData} {sz : ℕ} {i : ℕ} {syms : List GElfSym}
    (hlen : maxMaps < i + syms.length) (hi : i ≤ maxMaps)
    (hfits : ∀ sym ∈ syms, DefinitionFits data sz sym) :
    copyMaps data sz i syms = .error .outOfBounds := by
  induction syms generalizing i with
  | nil => exact absurd hi (not_le.2 hlen)
  | cons sym syms ih =>
    have hsym := hfits sym List.mem_cons_self
    rw [copyMaps]
    rcases Nat.eq_or_lt_of_le hi with rfl | hlt
    · obtain ⟨mapName, hname⟩ := Option.isSome_iff_exists.1 hsym.name
      have hfull : copyMap data sz maxMaps sym = .error .outOfBounds := by
        rw [copyMap, hname]
        exact if_pos le_rfl
      rw [hfull]
      rfl
    · have hmap : copyMap data sz i sym = .ok (some (mapOf data sz sym)) := by
        rw [copyMap_eq_some]
        exact ⟨by omega, hlt, hsym, rfl⟩
      rw [List.length_cons] at hlen
      rw [hmap, Fold.ok_bind, ih (by omega) hlt fun s hs => hfits s (List.mem_cons_of_mem _ hs)]
      rfl

/-- What becomes of the numbers of maps at the limits, if all the definitions fit. Without maps
    there is a division by zero. With more than `MAX_MAPS` of them the assertion fails, unless
    the last symbol of all is the only one too many: then there is a write out of bounds. -/
theorem loadElfMapsSection_bounds {elf : Elf} {mapsShndx : ℕ} {symbols data : ElfData} {sz : ℕ}
    (hdata : elf.secData mapsShndx = some data)
    (hsz : toInt (data.size / (mapsSyms symbols mapsShndx).length) = sz)
    (hfits : ∀ sym ∈ mapsSyms symbols mapsShndx, DefinitionFits data sz sym) :
    (loadElfMapsSection elf mapsShndx symbols = .error .divByZero ↔
      (mapsSyms symbols mapsShndx).length = 0) ∧
    (loadElfMapsSection elf mapsShndx symbols = .error .assertFailed ↔
      maxMaps < (symsAt symbols mapsShndx
        (List.range (symbols.size / sizeofGElfSym - 1))).length) ∧
    (loadElfMapsSection elf mapsShndx symbols = .error .outOfBounds ↔
      maxMaps < (mapsSyms symbols mapsShndx).length ∧
      (symsAt symbols mapsShndx
        (List.range (symbols.size / sizeofGElfSym - 1))).length ≤ maxMaps) ∧
    ((∃ maps, loadElfMapsSection elf mapsShndx symbols = .ok (some maps)) ↔
      0 < (mapsSyms symbols mapsShndx).length ∧
        (mapsSyms symbols mapsShndx).length ≤ maxMaps) := by
  have hle := @length_symsAt_le symbols mapsShndx
  have hload : loadElfMapsSection elf mapsShndx symbols =
      (if (symsAt symbols mapsShndx
          (List.range (symbols.size / sizeofGElfSym - 1))).length ≤ maxMaps then
        .ok (mapsSyms symbols mapsShndx)
      else .error .assertFailed) >>= fun sym =>
        if sym.length = 0 then .error .divByZero
        else copyMaps data (toInt (data.size / sym.length)) 0 (Sorting.sort cmpSymbols sym) := by
    rw [loadElfMapsSection, hdata, ← foldlM_collectSym_range]
  rw [hload]
  by_cases hassert : (symsAt symbols mapsShndx
      (List.range (symbols.size / sizeofGElfSym - 1))).length ≤ maxMaps
  · rw [if_pos hassert, Fold.ok_bind, hsz]
    by_cases hzero : (mapsSyms symbols mapsShndx).length = 0
    · rw [if_pos hzero]
      exact ⟨iff_of_true rfl hzero, iff_of_false (by simp) (by omega),
        iff_of_false (by simp) (by omega), iff_of_false (by simp) (by omega)⟩
    have hfits' : ∀ sym ∈ Sorting.sort cmpSymbols (mapsSyms symbols mapsShndx),
        DefinitionFits data sz sym := fun sym hsym => hfits sym (Sorting.mem_sort.1 hsym)
    have hsort := Sorting.length_sort cmpSymbols (mapsSyms symbols mapsShndx)
    rw [if_neg hzero]
    by_cases hmax : (mapsSyms symbols mapsShndx).length ≤ maxMaps
    · rw [copyMaps_eq_some.2 ⟨fun _ => ⟨by omega, by omega⟩, hfits', rfl⟩]
      exact ⟨iff_of_false (by simp) hzero, iff_of_false (by simp) (by omega),
        iff_of_false (by simp) (by omega), iff_of_true ⟨_, rfl⟩ ⟨by omega, hmax⟩⟩
    · rw [copyMaps_full (by omega) (Nat.zero_le _) hfits']
      exact ⟨iff_of_false (by simp) hzero, iff_of_false (by simp) (by omega),
        iff_of_true rfl ⟨by omega, hassert⟩, iff_of_false (by simp) (by omega)⟩
  · rw [if_neg hassert]
    exact ⟨iff_of_false (fun h => by cases h) (by omega), iff_of_true rfl (by omega),
      iff_of_false (fun h => by cases h) (by omega),
      iff_of_false (fun ⟨_, h⟩ => by cases h) (by omega)⟩

/-- As many maps as the table of symbols has room for, which is one more than that of the maps. -/
def fullSymtab : ElfData :=
  symtabOf (List.replicate (maxMaps + 1) ⟨some (cstr "counts"), stbGlobal, sttObject, 4, 0, 1⟩)

theorem loadElfMapsSection_bounds_full :
    loadElfMapsSection (twoMapElf 2) 4 fullSymtab = .error .outOfBounds := by
  have hdata : ∃ data, (twoMapElf 2).secData 4 = some data ∧
      toInt (data.size / (mapsSyms fullSymtab 4).length) = (1 : ℕ) ∧
      ∀ sym ∈ mapsSyms fullSymtab 4, DefinitionFits data 1 sym := by
    refine ⟨_, rfl, ?_, ?_⟩ <;> decide +kernel
  obtain ⟨data, hdata, hsz, hfits⟩ := hdata
  obtain ⟨-, -, hout, -⟩ := loadElfMapsSection_bounds hdata hsz hfits
  exact hout.2 (by decide +kernel)

/-! ## Descriptors -/

/-- The maps get the descriptors from the counter on. -/
theorem loadMaps_eq {mapFd : ℤ} (h : 0 ≤ mapFd) (maps : List BpfMapData) :
    loadMaps mapFd maps = some (maps.mapIdx fun i map => { map with fd := mapFd + i }) := by
  induction maps generalizing mapFd with
  | nil => rfl
  | cons map maps ih =>
    have hshift : (fun (i : ℕ) (map : BpfMapData) => { map with fd := mapFd + 1 + i }) =
        fun i map => { map with fd := mapFd + ((i + 1 : ℕ) : ℤ) } := by
      funext i map
      rw [Nat.cast_succ, add_assoc, add_comm 1]
    rw [loadMaps, if_neg (not_lt.2 h), ih (by omega), hshift, List.mapIdx_cons, Option.map_some,
      Nat.cast_zero, add_zero]

/-- The loaded maps, with their descriptors. -/
def loadedMaps (mapFd : ℤ) (data : ElfData) (sz : ℕ) (syms : List GElfSym) : List BpfMapData :=
  (Sorting.sort cmpSymbols syms).mapIdx fun i sym => { mapOf data sz sym with fd := mapFd + i }

/-- What the maps are when they have been loaded. -/
theorem getMaps_ok_iff {elf : Elf} {mapFd : ℤ} {scan : Scan} {symbols : ElfData}
    {maps : List BpfMapData} (hfd : 0 ≤ mapFd) :
    getMaps elf mapFd scan symbols = .ok (some (some maps)) ↔
      ∃ mapsShndx data sz, scan.mapsShndx = some mapsShndx ∧ mapsShndx < maxSecs ∧
        elf.secData mapsShndx = some data ∧
        toInt (data.size / (mapsSyms symbols mapsShndx).length) = (sz : ℕ) ∧
        0 < (mapsSyms symbols mapsShndx).length ∧
        (mapsSyms symbols mapsShndx).length ≤ maxMaps ∧
        (∀ sym ∈ mapsSyms symbols mapsShndx, DefinitionFits data sz sym) ∧
        maps = loadedMaps mapFd data sz (mapsSyms symbols mapsShndx) := by
  have hloaded (data : ElfData) (sz : ℕ) (syms : List GElfSym) :
      loadMaps mapFd ((Sorting.sort cmpSymbols syms).map (mapOf data sz)) =
        some (loadedMaps mapFd data sz syms) := by
    rw [loadMaps_eq hfd, loadedMaps]
    refine congrArg some (List.ext_getElem? fun i => ?_)
    rw [List.getElem?_mapIdx, List.getElem?_mapIdx, List.getElem?_map, Option.map_map]
    rfl
  rw [getMaps]
  rcases scan.mapsShndx with _ | mapsShndx
  · exact ⟨fun h => (by cases h), fun ⟨_, _, _, h, _⟩ => (by cases h)⟩
  constructor
  · intro h
    obtain ⟨maps?, hmaps, h⟩ := Fold.bind_eq_ok.1 h
    rcases maps? with _ | maps'
    · cases h
    obtain ⟨data, sz, hdata, hsz, hpos, hmax, hfits, rfl⟩ := loadElfMapsSection_ok_iff.1 hmaps
    rw [Option.bind_some, hloaded] at h
    dsimp only at h
    split at h
    · cases h
      exact ⟨mapsShndx, data, sz, rfl, ‹_›, hdata, hsz, hpos, hmax, hfits, rfl⟩
    · cases h
  · rintro ⟨_, data, sz, ⟨⟩, hsec, hdata, hsz, hpos, hmax, hfits, rfl⟩
    refine Fold.bind_eq_ok.2 ⟨_, loadElfMapsSection_ok_iff.2
      ⟨data, sz, hdata, hsz, hpos, hmax, hfits, rfl⟩, ?_⟩
    rw [Option.bind_some, hloaded]
    exact if_pos hsec

/-- Without maps there is no section of them. -/
theorem mapsShndx_eq_none {elf : Elf} {mapFd : ℤ} {scan : Scan} {symbols : ElfData}
    (h : getMaps elf mapFd scan symbols = .ok (some none)) : scan.mapsShndx = none := by
  rw [getMaps] at h
  rcases hshndx : scan.mapsShndx with _ | mapsShndx
  · rfl
  · rw [hshndx] at h
    obtain ⟨maps?, -, h⟩ := Fold.bind_eq_ok.1 h
    split at h
    · cases h
    · split at h
      · cases h
      · cases h

/-- The offsets are in strictly increasing order once sorted. -/
theorem pairwise_sort_lt {syms : List GElfSym} (hoff : DistinctOffsets syms) :
    (Sorting.sort cmpSymbols syms).Pairwise fun a b => a.value < b.value := by
  have hne : (Sorting.sort cmpSymbols syms).Pairwise fun a b => a.value ≠ b.value := by
    have hnodup := ((Sorting.perm_sort cmpSymbols syms).map GElfSym.value).nodup_iff.2 hoff
    exact List.pairwise_map.1 hnodup
  refine ((Sorting.pairwise_sort isCmp_cmpSymbols syms).and hne).imp fun h => ?_
  exact lt_of_le_of_ne (cmpSymbols_le_zero.1 h.1) h.2

/-- The maps of smaller offsets are fewer. -/
theorem countP_lt_countP {syms : List GElfSym} {s : GElfSym} (hs : s ∈ syms) {v : ℕ}
    (h : s.value < v) :
    (syms.countP fun t => t.value < s.value) < syms.countP fun t => t.value < v := by
  induction syms with
  | nil => cases hs
  | cons t syms ih =>
    have hle : (syms.countP fun t => t.value < s.value) ≤ syms.countP fun t => t.value < v :=
      List.countP_mono_left fun t _ ht => by
        rw [decide_eq_true_iff] at ht ⊢
        omega
    rw [List.countP_cons, List.countP_cons]
    rcases List.mem_cons.1 hs with rfl | hs
    · simp only [lt_self_iff_false, decide_false, Bool.false_eq_true, if_false, h, decide_true,
        if_true]
      omega
    · have := ih hs
      by_cases ht : t.value < s.value
      · simp only [ht, ht.trans h, decide_true, if_true]
        omega
      · simp only [ht, decide_false, Bool.false_eq_true, if_false]
        omega

/-- Maps of different offsets have different descriptors. -/
theorem value_eq_of_countP_eq {syms : List GElfSym} {s t : GElfSym} (hs : s ∈ syms) (ht : t ∈ syms)
    (h : (syms.countP fun u => u.value < s.value) = syms.countP fun u => u.value < t.value) :
    s.value = t.value := by
  rcases lt_trichotomy s.value t.value with hlt | heq | hlt
  · exact absurd h (countP_lt_countP hs hlt).ne
  · exact heq
  · exact absurd h (countP_lt_countP ht hlt).ne'

/-- The map that an offset stands for: its descriptor is the rank of the offset. -/
theorem find?_loadedMaps {mapFd : ℤ} {data : ElfData} {sz : ℕ} {syms : List GElfSym}
    (hoff : DistinctOffsets syms) {sym : GElfSym} (hsym : sym ∈ syms) :
    (loadedMaps mapFd data sz syms).find? (fun map => map.elfOffset = sym.value) =
      some { mapOf data sz sym with
        fd := mapFd + syms.countP fun s => s.value < sym.value } := by
  obtain ⟨i, hi⟩ := List.mem_iff_getElem?.1 (Sorting.mem_sort.2 hsym)
  have hcount := Sorting.countP_lt_of_getElem? (pairwise_sort_lt hoff) hi
  rw [(Sorting.perm_sort cmpSymbols syms).countP_eq] at hcount
  have hget : (loadedMaps mapFd data sz syms)[i]? = some { mapOf data sz sym with
      fd := mapFd + i } := by
    rw [loadedMaps, List.getElem?_mapIdx, hi]
    rfl
  rw [hcount]
  cases hfind : (loadedMaps mapFd data sz syms).find? fun map => map.elfOffset = sym.value with
  | none =>
    exact absurd (List.find?_eq_none.1 hfind _ (List.mem_of_getElem? hget)) (by simp [mapOf])
  | some map =>
    -- Two maps of one offset are the same.
    obtain ⟨j, hj⟩ := List.mem_iff_getElem?.1 (List.mem_of_find?_eq_some hfind)
    have hoffset : map.elfOffset = sym.value := by simpa using List.find?_some hfind
    rw [loadedMaps, List.getElem?_mapIdx] at hj
    obtain ⟨sym', hsym', rfl⟩ := Option.map_eq_some_iff.1 hj
    have heq : sym' = sym := List.inj_on_of_nodup_map hoff
      (Sorting.mem_sort.1 (List.mem_of_getElem? hsym')) hsym hoffset
    have hcount' := Sorting.countP_lt_of_getElem? (pairwise_sort_lt hoff) hsym'
    rw [(Sorting.perm_sort cmpSymbols syms).countP_eq, heq, hcount] at hcount'
    rw [heq, hcount']

/-- The descriptor of a loaded map is the number of the maps of smaller offsets. -/
theorem fd_of_mem_loadedMaps {mapFd : ℤ} {data : ElfData} {sz : ℕ} {syms : List GElfSym}
    (hoff : DistinctOffsets syms) {map : BpfMapData} (h : map ∈ loadedMaps mapFd data sz syms) :
    map.fd = mapFd + syms.countP fun s => s.value < map.elfOffset := by
  obtain ⟨j, hj⟩ := List.mem_iff_getElem?.1 h
  rw [loadedMaps, List.getElem?_mapIdx] at hj
  obtain ⟨sym, hsym, rfl⟩ := Option.map_eq_some_iff.1 hj
  have hcount := Sorting.countP_lt_of_getElem? (pairwise_sort_lt hoff) hsym
  rw [(Sorting.perm_sort cmpSymbols syms).countP_eq] at hcount
  rw [mapOf, hcount]

/-- The offsets of the loaded maps are those of the symbols. -/
theorem exists_of_mem_loadedMaps {mapFd : ℤ} {data : ElfData} {sz : ℕ} {syms : List GElfSym}
    {map : BpfMapData} (h : map ∈ loadedMaps mapFd data sz syms) :
    ∃ sym ∈ syms, map.elfOffset = sym.value ∧ map.name = sym.name.getD [] ∧
      map.defn = (mapOf data sz sym).defn := by
  obtain ⟨j, hj⟩ := List.mem_iff_getElem?.1 h
  rw [loadedMaps, List.getElem?_mapIdx] at hj
  obtain ⟨sym, hsym, rfl⟩ := Option.map_eq_some_iff.1 hj
  exact ⟨sym, Sorting.mem_sort.1 (List.mem_of_getElem? hsym), rfl, rfl, rfl⟩

/-- A map symbol stands for the map of its offset, whose descriptor is the number of the maps of
    smaller offsets, whatever the order of the symbols. -/
theorem getMaps_rank {elf : Elf} {mapFd : ℤ} {scan : Scan} {symbols : ElfData} {mapsShndx : ℕ}
    {maps : List BpfMapData} (hfd : 0 ≤ mapFd) (hshndx : scan.mapsShndx = some mapsShndx)
    (hmaps : getMaps elf mapFd scan symbols = .ok (some (some maps)))
    (hoff : DistinctOffsets (mapsSyms symbols mapsShndx)) :
    maps.length = (mapsSyms symbols mapsShndx).length ∧
      ∀ sym ∈ mapsSyms symbols mapsShndx, ∃ map,
        maps.find? (fun map => map.elfOffset = sym.value) = some map ∧
        sym.name = some map.name ∧
        map.fd = mapFd + (mapsSyms symbols mapsShndx).countP fun s => s.value < sym.value := by
  obtain ⟨mapsShndx', data, sz, hshndx', -, -, -, -, -, hfits, rfl⟩ :=
    (getMaps_ok_iff hfd).1 hmaps
  obtain rfl := Option.some.inj (hshndx.symm.trans hshndx')
  refine ⟨?_, fun sym hsym => ⟨_, find?_loadedMaps hoff hsym, ?_, rfl⟩⟩
  · rw [loadedMaps, List.length_mapIdx, Sorting.length_sort]
  · obtain ⟨name, hname⟩ := Option.isSome_iff_exists.1 (hfits sym hsym).name
    rw [mapOf, hname]
    rfl

/-- The map that comes second in its section has the descriptor 1, although its symbol comes
    first. -/
theorem getMaps_rank_counts : ∃ scan symbols maps map, scanSecs (twoMapElf 2) = .ok scan ∧
    getMaps (twoMapElf 2) 0 scan symbols = .ok (some (some maps)) ∧
      maps.find? (fun map => map.elfOffset = 28) = some map ∧ map.fd = 1 := by
  have hrun : ∃ scan symbols maps, scanSecs (twoMapElf 2) = .ok scan ∧ scan.mapsShndx = some 4 ∧
      getMaps (twoMapElf 2) 0 scan symbols = .ok (some (some maps)) ∧
      DistinctOffsets (mapsSyms symbols 4) ∧
      ⟨some (cstr "counts"), stbGlobal, sttObject, 4, 28, 28⟩ ∈ mapsSyms symbols 4 ∧
      (mapsSyms symbols 4).countP (fun s => s.value < 28) = 1 := by
    refine ⟨_, symtabOf twoMapSyms, _, rfl, rfl, rfl, by decide, by decide, by decide⟩
  obtain ⟨scan, symbols, maps, hscan, hshndx, hmaps, hoff, hsym, hcount⟩ := hrun
  obtain ⟨-, hall⟩ := getMaps_rank le_rfl hshndx hmaps hoff
  obtain ⟨map, hfind, -, hfd⟩ := hall _ hsym
  exact ⟨scan, symbols, maps, map, hscan, hmaps, hfind, by rw [hfd, hcount]; rfl⟩

end BpfElfTools.OldExtractor
