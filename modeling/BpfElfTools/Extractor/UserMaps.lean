import BpfElfTools.Extractor.Attribution

/-!
# Legacy map definitions

Which bytes `bpf_object__init_user_maps` reads of the section `maps`. Its only check of a
symbol is on a sum of 64-bit integers.

* `readsUserMaps_iff`: the definitions are read exactly if and only if nothing wraps
  around (`NoWrap`);
* `not_readsUserMaps`: a definition that starts before the section.
-/

namespace BpfElfTools.Extractor

/-! ## What is read -/

/-- The symbols of a section. -/
def symsOf (symbols : ElfData) (shndx : ℤ) : List GElfSym :=
  symbols.syms.filter fun sym => sym.shndx = shndx

/-- `map_def_sz`, for a section of the given data. -/
def mapDefSz (symbols data : ElfData) (mapsShndx : ℤ) : ℤ :=
  toInt (data.size / (mapSyms symbols mapsShndx).length)

/-- The positions, relative to the data of the section, of the bytes that are read for a map:
    those that are copied, and those of a larger definition that are compared with zero. -/
def readPositions (mapDefSz : ℤ) (value : ℕ) : List ℕ :=
  (List.range (copiedDefSz mapDefSz) ++
    List.range' sizeofBpfMapDef (mapDefSz.toNat - sizeofBpfMapDef)).map fun k =>
      (value + k) % 2 ^ 64

/-- The definition of `defSz` bytes at an offset, extended with zeros to the size of a
    `struct bpf_map_def`, or cut to it. -/
def defnAt (data : ElfData) (defSz value : ℕ) : BpfMapDef :=
  .ofBytes ((data.bytes.drop value).take (min defSz sizeofBpfMapDef))

/-- The maps added to `obj` are the symbols of the section `maps`, with the definitions at
    their offsets, and no byte outside of the section is read. -/
structure ReadsUserMaps (obj obj' : BpfObject) (symbols data : ElfData) : Prop where
  defSz : mapDefSz symbols data obj.efile.mapsShndx =
    ((data.size / (symsOf symbols obj.efile.mapsShndx).length : ℕ) : ℤ)
  maps : obj'.maps = obj.maps ++ (symsOf symbols obj.efile.mapsShndx).map fun sym =>
    { BpfMap.fresh with
      name := sym.name.getD []
      secIdx := sym.shndx
      secOffset := sym.value
      defn := defnAt data (data.size / (symsOf symbols obj.efile.mapsShndx).length) sym.value }
  reads : ∀ sym ∈ symsOf symbols obj.efile.mapsShndx,
    ∀ pos ∈ readPositions (mapDefSz symbols data obj.efile.mapsShndx) sym.value, pos < data.size

/-- The number of the symbols and the size of a definition fit an `int`, as far as the section
    `maps` is concerned, and the ends of the definitions fit a 64-bit integer. -/
structure NoWrap (symbols data : ElfData) (mapsShndx : ℤ) : Prop where
  syms : ∀ (i : ℕ) (sym : GElfSym), symbols.syms[i]? = some sym → sym.shndx = mapsShndx →
    i < toInt (symbols.size / sizeofGElfSym)
  defSz : data.size / (symsOf symbols mapsShndx).length < 2 ^ 31
  value : ∀ sym ∈ symsOf symbols mapsShndx,
    sym.value + data.size / (symsOf symbols mapsShndx).length < 2 ^ 64

/-! ## When it is read exactly -/

theorem toInt_of_lt {n : ℕ} (h : n < 2 ^ 31) : toInt n = n := by
  rw [toInt, BitVec.toInt_eq_toNat_of_lt]
  all_goals
    rw [BitVec.toNat_ofNat]
    omega

theorem toInt_lt (n : ℕ) : toInt n < 2 ^ 31 := BitVec.toInt_lt

/-- All the symbols of the section are counted if and only if those that are not counted
    belong to other sections. -/
theorem mapSyms_eq_iff {symbols : ElfData} {shndx : ℤ} :
    (mapSyms symbols shndx).length = (symsOf symbols shndx).length ↔
      ∀ (i : ℕ) (sym : GElfSym), symbols.syms[i]? = some sym → sym.shndx = shndx →
        i < toInt (symbols.size / sizeofGElfSym) := by
  set k := toInt (symbols.size / sizeofGElfSym) with hk
  have hsplit : symsOf symbols shndx = mapSyms symbols shndx ++
      (symbols.syms.drop k.toNat).filter fun sym => sym.shndx = shndx := by
    rw [symsOf, mapSyms, intSyms, ← hk, ← List.filter_append, List.take_append_drop]
  rw [hsplit, List.length_append, left_eq_add, List.length_eq_zero_iff, List.filter_eq_nil_iff]
  constructor
  · intro hnone i sym hi hsec
    by_contra hge
    have hmem : sym ∈ symbols.syms.drop k.toNat := by
      refine List.mem_of_getElem? (i := i - k.toNat) ?_
      rw [List.getElem?_drop, Nat.add_sub_cancel' (by omega), hi]
    exact hnone sym hmem (by simpa using hsec)
  · intro hall sym hmem hsec
    obtain ⟨j, hj⟩ := List.mem_iff_getElem?.1 hmem
    rw [List.getElem?_drop] at hj
    have := hall _ sym hj (by simpa using hsec)
    omega

theorem mapSyms_eq {symbols : ElfData} {shndx : ℤ}
    (h : (mapSyms symbols shndx).length = (symsOf symbols shndx).length) :
    mapSyms symbols shndx = symsOf symbols shndx :=
  ((List.take_sublist _ _).filter _).eq_of_length h

/-- A definition that lies in the section is what is copied. -/
theorem ofBytes_peek {heap : Heap} {data : ElfData} {value defSz : ℕ} (hsz : defSz < 2 ^ 31)
    (hbuf : data.bytes.length = data.size) (hin : value + defSz ≤ data.size) :
    BpfMapDef.ofBytes (peek heap data value (copiedDefSz defSz)) = defnAt data defSz value := by
  have hcopied : copiedDefSz defSz = min defSz sizeofBpfMapDef := by
    rw [copiedDefSz]
    split <;> simp only [sizeofBpfMapDef] at * <;> omega
  have hsize := data.size_lt
  rw [defnAt, hcopied, peek]
  congr 1
  refine List.ext_getElem (by simp; omega) fun k hk hk' => ?_
  have hlt : k < min defSz sizeofBpfMapDef := by simpa using hk
  have hpos : value + k < data.bytes.length := by omega
  rw [List.getElem_map, List.getElem_range, Nat.mod_eq_of_lt (by omega),
    List.getElem?_eq_getElem hpos, Option.getD_some, List.getElem_take, List.getElem_drop]

section

variable {heap : Heap} {obj obj' : BpfObject} {symbols data : ElfData}

/-- The first byte that is read for a map is the one at its offset. -/
theorem mem_readPositions {defSz value : ℕ} (hsz : 0 < defSz) (hvalue : value < 2 ^ 64) :
    value ∈ readPositions defSz value := by
  have hcopied : 0 < copiedDefSz defSz := by
    rw [copiedDefSz]
    split <;> simp only [sizeofBpfMapDef] at * <;> omega
  refine List.mem_map.2 ⟨0, List.mem_append_left _ (List.mem_range.2 hcopied), ?_⟩
  rw [Nat.add_zero, Nat.mod_eq_of_lt hvalue]

/-- The bytes that are read for a map are those of its definition. -/
theorem lt_of_mem_readPositions {defSz value pos : ℕ} (h : pos ∈ readPositions defSz value)
    (hvalue : value + defSz < 2 ^ 64) : pos < value + defSz := by
  obtain ⟨k, hk, rfl⟩ := List.mem_map.1 h
  have hlt : k < defSz := by
    rcases List.mem_append.1 hk with hk | hk
    · rw [List.mem_range, copiedDefSz] at hk
      split at hk <;> simp only [sizeofBpfMapDef] at * <;> omega
    · rw [List.mem_range'_1] at hk
      simp only [sizeofBpfMapDef] at hk
      omega
  rw [Nat.mod_eq_of_lt (by omega)]
  omega

/-- The definitions of the maps are read exactly if and only if nothing wraps around. -/
theorem readsUserMaps_iff (h : initUserMaps heap obj = .ok obj') (hmaps : 0 ≤ obj.efile.mapsShndx)
    (hsymbols : obj.efile.symbols = some symbols)
    (hdata : obj.elf.secData obj.efile.mapsShndx.toNat = some data)
    (hvalue : ∀ sym ∈ symbols.syms, sym.value < 2 ^ 64) :
    ReadsUserMaps obj obj' symbols data ↔ NoWrap symbols data obj.efile.mapsShndx := by
  obtain ⟨symbols', data', hsymbols', hdata', hsize, hne, hdvd, hchecked, heq⟩ :=
    initUserMaps_ok h hmaps
  cases hsymbols.symm.trans hsymbols'
  cases hdata.symm.trans hdata'
  have hbuf : data.bytes.length = data.size := by
    obtain ⟨sym, hsym⟩ := List.exists_mem_of_ne_nil _ hne
    obtain ⟨b, hb⟩ := Option.isSome_iff_exists.1 (hchecked sym hsym).2.1
    rw [ElfData.bytes, hb]
    exact data.length_buf b hb
  have hpos : 0 < data.size / (mapSyms symbols obj.efile.mapsShndx).length :=
    Nat.div_pos (Nat.le_of_dvd (Nat.pos_of_ne_zero hsize) hdvd) (List.length_pos_iff.2 hne)
  have hlt := data.size_lt
  constructor
  · intro hreads
    have hlen : (mapSyms symbols obj.efile.mapsShndx).length =
        (symsOf symbols obj.efile.mapsShndx).length := by
      have := congrArg List.length hreads.maps
      rw [heq] at this
      simpa using this
    have hsz := hreads.defSz
    rw [mapDefSz, hlen] at hsz
    rw [hlen] at hpos hchecked
    rw [mapSyms_eq hlen] at hchecked
    have hsz31 : data.size / (symsOf symbols obj.efile.mapsShndx).length < 2 ^ 31 := by
      have := toInt_lt (data.size / (symsOf symbols obj.efile.mapsShndx).length)
      omega
    refine ⟨mapSyms_eq_iff.1 hlen, hsz31, fun sym hsym => ?_⟩
    have hin := hreads.reads sym hsym sym.value (by
      rw [hreads.defSz]
      exact mem_readPositions hpos (hvalue sym (List.mem_filter.1 hsym).1))
    have := Nat.div_le_self data.size (symsOf symbols obj.efile.mapsShndx).length
    omega
  · rintro ⟨hsyms, hsz, hval⟩
    have hlen := mapSyms_eq_iff.2 hsyms
    have hmapsyms := mapSyms_eq hlen
    have hdefSz : mapDefSz symbols data obj.efile.mapsShndx =
        ((data.size / (symsOf symbols obj.efile.mapsShndx).length : ℕ) : ℤ) := by
      rw [mapDefSz, hlen, toInt_of_lt hsz]
    have hin : ∀ sym ∈ symsOf symbols obj.efile.mapsShndx,
        sym.value + data.size / (symsOf symbols obj.efile.mapsShndx).length ≤ data.size := by
      intro sym hsym
      have hcheck := (hchecked sym (hmapsyms ▸ hsym)).2.2
      rwa [hlen, toInt_of_lt hsz, Int.emod_eq_of_lt (Int.natCast_nonneg _)
        (by exact_mod_cast hsz.trans (by norm_num)), Int.toNat_natCast,
        Nat.mod_eq_of_lt (hval sym hsym)] at hcheck
    refine ⟨hdefSz, ?_, fun sym hsym pos hmem => ?_⟩
    · rw [heq]
      refine congrArg (obj.maps ++ ·) ?_
      rw [hmapsyms]
      refine List.map_congr_left fun sym hsym => ?_
      rw [symMap, toInt_of_lt hsz, ofBytes_peek hsz hbuf (hin sym hsym)]
      rfl
    · rw [hdefSz] at hmem
      exact (lt_of_mem_readPositions hmem (hval sym hsym)).trans_le (hin sym hsym)

end

/-! ## A definition before the section -/

/-- The symbol of a map whose value is `value`. -/
def userMapElf (value : ℕ) : Elf :=
  smallElf "xdp" [⟨0x95, 0, 0, 0, 0⟩] []
    [⟨some [], 0, 0, 0, 0, 0⟩, ⟨some (cstr "load"), stbGlobal, sttFunc, 1, 0, 8⟩,
      ⟨some (cstr "counts"), stbGlobal, sttObject, 4, value, 20⟩]
    (leBytes 4 2 ++ leBytes 4 4 ++ leBytes 4 8 ++ leBytes 4 1 ++ leBytes 4 0)

/-- The object once the sections of the file have been collected. -/
def userMapObj (value : ℕ) : BpfObject where
  name := cstr "prog"
  elf := userMapElf value
  efile := { symbols := (userMapElf value).symtab, mapsShndx := 4 }

/-- The object of two maps once the sections of the file have been collected. -/
def twoProgsObj : BpfObject where
  name := cstr "prog"
  elf := twoProgsElf
  efile := { symbols := twoProgsElf.symtab, mapsShndx := 4 }

set_option maxRecDepth 2000 in
/-- Both definitions are read. -/
theorem readsUserMaps_twoProgsObj : ∃ obj' symbols data,
    initUserMaps zeroHeap twoProgsObj = .ok obj' ∧ obj'.maps.length = 2 ∧
      twoProgsObj.efile.symbols = some symbols ∧ twoProgsObj.elf.secData 4 = some data ∧
      ReadsUserMaps twoProgsObj obj' symbols data := by
  have hrun : ∃ obj' symbols data, initUserMaps zeroHeap twoProgsObj = .ok obj' ∧
      twoProgsObj.efile.symbols = some symbols ∧ twoProgsObj.elf.secData 4 = some data ∧
      obj'.maps.length = 2 ∧ (∀ sym ∈ symbols.syms, sym.value < 2 ^ 64) ∧
      (∀ sym ∈ symsOf symbols 4, sym.value + data.size / (symsOf symbols 4).length < 2 ^ 64) ∧
      data.size / (symsOf symbols 4).length < 2 ^ 31 ∧
      symbols.syms.length = 5 ∧ toInt (symbols.size / sizeofGElfSym) = 5 :=
    ⟨_, _, _, rfl, rfl, rfl, rfl, by decide, by decide, by decide, by decide, by decide⟩
  obtain ⟨obj', symbols, data, hrun, hsymbols, hdata, hmaps, hvalue, hval, hsz, hlen, hnr⟩ := hrun
  refine ⟨obj', symbols, data, hrun, hmaps, hsymbols, hdata,
    (readsUserMaps_iff hrun (by decide) hsymbols hdata hvalue).2 ⟨fun i sym hi _ => ?_, hsz, hval⟩⟩
  have := (List.getElem?_eq_some_iff.1 hi).1
  omega

/-- The value -20 is accepted. -/
theorem not_readsUserMaps : ¬∀ (heap : Heap) (obj obj' : BpfObject) (symbols data : ElfData),
    initUserMaps heap obj = .ok obj' → 0 ≤ obj.efile.mapsShndx →
      obj.efile.symbols = some symbols →
      obj.elf.secData obj.efile.mapsShndx.toNat = some data →
      (∀ sym ∈ symbols.syms, sym.value < 2 ^ 64) → ReadsUserMaps obj obj' symbols data := by
  intro h
  have hrun : ∃ obj' symbols data, initUserMaps zeroHeap (userMapObj (2 ^ 64 - 20)) = .ok obj' ∧
      (userMapObj (2 ^ 64 - 20)).efile.symbols = some symbols ∧
      (userMapObj (2 ^ 64 - 20)).elf.secData 4 = some data ∧
      (∀ sym ∈ symbols.syms, sym.value < 2 ^ 64) ∧
      ∃ sym ∈ symsOf symbols 4, ∃ pos ∈ readPositions (mapDefSz symbols data 4) sym.value,
        ¬pos < data.size :=
    ⟨_, _, _, rfl, rfl, rfl, by decide, _, List.mem_cons_self, 2 ^ 64 - 20, by decide, by decide⟩
  obtain ⟨obj', symbols, data, hrun, hsymbols, hdata, hvalue, sym, hsym, pos, hpos, hout⟩ := hrun
  exact hout ((h _ _ _ _ _ hrun (by decide) hsymbols hdata hvalue).reads sym hsym pos hpos)

end BpfElfTools.Extractor
