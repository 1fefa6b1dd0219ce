import BpfElfTools.Extractor.Relocated
import BpfElfTools.PatchBack

/-!
# The two extractors

The extractors read the section `maps` of an object each in its own way. The new
one keeps the maps in the order of the symbol table, and numbers them in it; the
old one sorts them by their offsets, and numbers them by a counter. They copy the
definitions to different structures, and look for the map of a symbol by different
keys.

* `bijOn_renumber`: the numbers of the one are those of the other, in another order;
* `maps_agree`: up to this order, the maps are the same;
* `programs_agree`: so are the programs.
-/

namespace BpfElfTools

open Extractor (BpfObject BpfMap MapRecord le32)
open OldExtractor (mapsSyms mapOf cmpSymbols DistinctOffsets BpfMapData)
open Patcher (IsMapFd)

/-! ## Numbers -/

/-- The number that the old extractor gives to the map that the new one gives the number `k`. -/
def renumber (syms : List GElfSym) (k : ℕ) : ℕ :=
  OldExtractor.rank syms (syms[k]?.map GElfSym.value)

section

variable {syms : List GElfSym} (hoff : DistinctOffsets syms)

include hoff

/-- A place among the sorted symbols is the number of the symbol there. -/
theorem renumber_of_sort {j k : ℕ} {sym : GElfSym} (hk : syms[k]? = some sym)
    (hj : (Sorting.sort cmpSymbols syms)[j]? = some sym) : renumber syms k = j := by
  have hcount := Sorting.countP_lt_of_getElem? (OldExtractor.pairwise_sort_lt hoff) hj
  rw [(Sorting.perm_sort cmpSymbols syms).countP_eq] at hcount
  rw [renumber, hk]
  exact hcount

theorem getElem?_sort_renumber {k : ℕ} {sym : GElfSym} (hk : syms[k]? = some sym) :
    (Sorting.sort cmpSymbols syms)[renumber syms k]? = some sym := by
  obtain ⟨j, hj⟩ := List.mem_iff_getElem?.1 (Sorting.mem_sort.2 (List.mem_of_getElem? hk))
  rw [renumber_of_sort hoff hk hj, hj]

/-- The numbers of the one extractor are those of the other, in another order. -/
theorem bijOn_renumber :
    Set.BijOn (renumber syms) (Set.Iio syms.length) (Set.Iio syms.length) := by
  have hget {k : ℕ} (hk : k < syms.length) :
      (Sorting.sort cmpSymbols syms)[renumber syms k]? = some syms[k] :=
    getElem?_sort_renumber hoff (List.getElem?_eq_getElem hk)
  refine ⟨fun k hk => ?_, fun k hk l hl heq => ?_, fun j hj => ?_⟩
  · have hlt := (List.getElem?_eq_some_iff.1 (hget hk)).1
    rwa [Sorting.length_sort] at hlt
  · have hsym : syms[k] = syms[l] := by
      have hk' := hget hk
      rw [heq, hget hl] at hk'
      exact (Option.some.inj hk').symm
    exact (List.Nodup.getElem_inj_iff (List.Nodup.of_map _ hoff)).1 hsym
  · have hlt : j < (Sorting.sort cmpSymbols syms).length := by
      rw [Sorting.length_sort]
      exact hj
    have hsort := List.getElem?_eq_getElem hlt
    obtain ⟨k, hk⟩ := List.mem_iff_getElem?.1 (Sorting.mem_sort.1 (List.mem_of_getElem? hsort))
    exact ⟨k, (List.getElem?_eq_some_iff.1 hk).1, renumber_of_sort hoff hk hsort⟩

end

/-! ## Definitions -/

/-- A field is read alike from all that a definition is cut to, if that holds the field. -/
theorem le32_take {b : Bytes} {n i : ℕ} (h : i + 3 < n) : le32 (b.take n) i = le32 b i := by
  have hget {j : ℕ} (hj : j ≤ 3) : (b.take n)[i + j]? = b[i + j]? :=
    List.getElem?_take_of_lt (by omega)
  have hzero := hget (Nat.zero_le 3)
  rw [Nat.add_zero] at hzero
  rw [le32, le32, hget le_rfl, hget (by omega : 2 ≤ 3), hget (by omega : 1 ≤ 3), hzero]

/-- The records of a map are the same, but for its number. -/
theorem record_eq {heap : Extractor.Heap} {data : ElfData} {sz : ℕ} {sym : GElfSym}
    (hsz : sz < 2 ^ 31) (hfits : OldExtractor.DefinitionFits data sz sym) (fd : ℤ) :
    { mapOf data sz sym with fd := fd }.record =
      { Extractor.symMap heap data sz sym with fd := fd }.record := by
  have hbuf : data.bytes.length = data.size := by
    obtain ⟨b, hb⟩ := Option.isSome_iff_exists.1 hfits.buf
    rw [ElfData.bytes, hb]
    exact data.length_buf b hb
  -- The four fields lie in the structures of both, so that where a copy is cut does not matter.
  have hfield {i : ℕ} (hi : i ≤ 12) :
      le32 ((data.bytes.drop sym.value).take (min sz OldExtractor.sizeofBpfLoadMapDef)) i =
        le32 ((data.bytes.drop sym.value).take (min sz Extractor.sizeofBpfMapDef)) i := by
    have hold : i + 3 < OldExtractor.sizeofBpfLoadMapDef := Nat.lt_of_le_of_lt
      (Nat.add_le_add_right hi 3) (by decide)
    have hnew : i + 3 < Extractor.sizeofBpfMapDef := Nat.lt_of_le_of_lt
      (Nat.add_le_add_right hi 3) (by decide)
    rw [Nat.min_comm, ← List.take_take, le32_take hold, Nat.min_comm, ← List.take_take,
      le32_take hnew]
  rw [Extractor.symMap, Extractor.ofBytes_peek hsz hbuf hfits.bounds, mapOf,
    OldExtractor.BpfMapData.record, BpfMap.record, Extractor.defnAt]
  dsimp only [OldExtractor.BpfLoadMapDef.ofBytes, Extractor.BpfMapDef.ofBytes]
  rw [hfield (Nat.zero_le 12), hfield (by decide : 4 ≤ 12), hfield (by decide : 8 ≤ 12),
    hfield (by decide : 12 ≤ 12)]

/-! ## What both have read -/

/-- Both extractors have found maps in the section `m`, at distinct offsets, as many symbols being
    counted as an `int` can count. -/
structure BothRead (elf : Elf) (obj : BpfObject) (scan : OldExtractor.Scan) (symbols : ElfData)
    (maps : List BpfMapData) (m : ℕ) : Prop where
  scanned : OldExtractor.scanSecs elf = .ok scan
  symtab : scan.symbols = some symbols
  loaded : OldExtractor.getMaps elf 0 scan symbols = .ok (some (some maps))
  oldShndx : scan.mapsShndx = some m
  newShndx : obj.efile.mapsShndx = m
  count : symbols.size / sizeofGElfSym < 2 ^ 31
  distinct : DistinctOffsets (mapsSyms symbols m)

/-- A map is referred to by itself only if its symbol is not in a section of data. -/
theorem unspec_of_referent {elf : Elf} {obj : BpfObject} {p : Extractor.BpfProgram}
    {e : Extractor.Entry} {k : ℕ} {sym : GElfSym}
    (href : Extractor.referent elf obj p e = some (.map k))
    (hsym : Extractor.entrySym elf e = some sym) :
    obj.sectionToLibbpfMapType sym.shndx = .unspec := by
  rw [Extractor.referent] at href
  obtain ⟨sym', hsym', href⟩ := Option.bind_eq_some_iff.1 href
  obtain rfl := Option.some.inj (hsym.symm.trans hsym')
  obtain ⟨insn, -, href⟩ := Option.bind_eq_some_iff.1 href
  split at href
  · cases href
  split at href
  · obtain ⟨ext, -, href⟩ := Option.bind_eq_some_iff.1 href
    cases href
  obtain ⟨k', -, href⟩ := Option.bind_eq_some_iff.1 href
  by_contra hne
  rw [if_neg hne] at href
  cases href

section

variable {btfNew : Bytes → Except Extractor.Err Extractor.Btf} {heap : Extractor.Heap}
  {path : Bytes} {elf : Elf} {obj : BpfObject}
  (hopen : BpfObject.openFile btfNew heap path elf = .ok obj)

include hopen

/-- The maps of an opened object start with those of the section `maps`. -/
theorem maps_of_openFile : ∃ obj₀ obj₁ : BpfObject, obj₀.elf = elf ∧
    obj₀.efile.mapsShndx = obj.efile.mapsShndx ∧ obj₀.efile.symbols = elf.symtab ∧
    obj₀.maps = [] ∧ Extractor.initUserMaps heap obj₀ = .ok obj₁ ∧
    ∃ rest, obj.maps = obj₁.maps ++ rest := by
  obtain ⟨obj₂, ps, hread, -, -, rfl⟩ := BpfObject.openFile_ok hopen
  obtain ⟨obj₀, helf, hefile, -, hnil, hinit⟩ := hread.maps
  obtain ⟨obj₁, husers, hinit⟩ := Fold.bind_eq_ok.1 hinit
  obtain ⟨obj₃, hbtf, hinit⟩ := Fold.bind_eq_ok.1 hinit
  obtain ⟨obj₄, hdata, hinit⟩ := Fold.bind_eq_ok.1 hinit
  obtain ⟨obj₅, hkconfig, hinit⟩ := Fold.bind_eq_ok.1 hinit
  obtain ⟨l, _, _, hobj₅, -⟩ := ((Extractor.addsMaps_initUserBtfMaps hbtf).trans
    (Extractor.addsMaps_initGlobalDataMaps hdata)).trans (Extractor.initKconfigMap_ok hkconfig).1
  obtain ⟨l', hobj₂, -⟩ := Extractor.addsMaps_initStructOpsMaps hinit
  refine ⟨obj₀, obj₁, helf, by rw [hefile]; rfl, by rw [hefile, hread.symbols], hnil, husers,
    l ++ l', ?_⟩
  change obj₂.maps = _
  rw [hobj₂, hobj₅, List.append_assoc]

/-- The old extractor has taken the same section for the symbol table. -/
theorem symtab_of_scanSecs {scan : OldExtractor.Scan} {symbols : ElfData}
    (hscan : OldExtractor.scanSecs elf = .ok scan) (hsymbols : scan.symbols = some symbols) :
    elf.symtab = some symbols := by
  obtain ⟨obj₁, ps, hread, -⟩ := BpfObject.openFile_ok hopen
  rw [(OldExtractor.scanSecs_ok hscan).2.2] at hsymbols
  obtain ⟨i, hi, hsymtab⟩ := List.mem_filterMap.1 (List.mem_of_getLast? hsymbols)
  obtain ⟨sec, hget, hdata⟩ := Option.bind_eq_some_iff.1 hsymtab
  split at hdata
  · cases hdata
  rename_i hkind
  simp only [not_or, not_not] at hkind
  obtain rfl := Option.some.inj hdata
  obtain ⟨scn, hscn, hget⟩ := Option.bind_eq_some_iff.1 hget
  obtain ⟨name, -, hget⟩ := Option.bind_eq_some_iff.1 hget
  split at hget
  · cases hget
  obtain ⟨data, hscnData, rfl⟩ := Option.map_eq_some_iff.1 hget
  have hmem : (scn, i) ∈ elf.numbered :=
    Elf.mem_numbered.2 ⟨hscn, Nat.ne_of_gt (List.mem_range'_1.1 hi).1⟩
  -- The old extractor keeps the last symbol table; the new one has refused an object with two.
  obtain ⟨efile₀, hefile₀, -⟩ := hread.efile
  rcases (Extractor.collectSymtab_ok hefile₀).2 with ⟨-, -, hno⟩ | ⟨s, -, -, -, -, -, huniq⟩
  · exact absurd hkind.2.2 (hno _ hmem)
  obtain rfl := huniq _ hmem hkind.2.2
  rw [Elf.symtab]
  cases hfind : elf.numbered.find? fun s => s.1.shdr.type = shtSymtab with
  | none => exact absurd hkind.2.2 (by simpa using List.find?_eq_none.1 hfind _ hmem)
  | some t =>
    rw [huniq t (List.mem_of_find?_eq_some hfind) (by simpa using List.find?_some hfind)]
    exact hscnData

variable {scan : OldExtractor.Scan} {symbols : ElfData} {maps : List BpfMapData} {m : ℕ}
  (hboth : BothRead elf obj scan symbols maps m)

include hboth

/-- The maps of both come from the same symbols and the same data. -/
theorem BothRead.exists_syms : ∃ data sz rest, sz < 2 ^ 31 ∧
    maps = OldExtractor.loadedMaps 0 data sz (mapsSyms symbols m) ∧
    obj.maps = (mapsSyms symbols m).map (Extractor.symMap heap data sz) ++ rest ∧
    (mapsSyms symbols m).length ≤ OldExtractor.maxMaps ∧
    ∀ sym ∈ mapsSyms symbols m, OldExtractor.DefinitionFits data sz sym := by
  obtain ⟨m', data, sz, hm', -, hdata, hsz, -, hmax, hfits, hmaps⟩ :=
    (OldExtractor.getMaps_ok_iff le_rfl).1 hboth.loaded
  obtain rfl := Option.some.inj (hboth.oldShndx.symm.trans hm')
  obtain ⟨obj₀, obj₁, helf, hshndx, hsymbols₀, hnil, husers, rest, hobj⟩ := maps_of_openFile hopen
  rw [symtab_of_scanSecs hopen hboth.scanned hboth.symtab] at hsymbols₀
  rw [hboth.newShndx] at hshndx
  obtain ⟨symbols', data', hsymbols', hdata', -, -, -, -, heq⟩ :=
    Extractor.initUserMaps_ok husers (by rw [hshndx]; exact Int.natCast_nonneg m)
  obtain rfl := Option.some.inj (hsymbols₀.symm.trans hsymbols')
  rw [helf, hshndx, Int.toNat_natCast] at hdata'
  obtain rfl := Option.some.inj (hdata.symm.trans hdata')
  have hsyms : Extractor.mapSyms symbols obj₀.efile.mapsShndx = mapsSyms symbols m := by
    rw [hshndx, Extractor.mapSyms, Extractor.intSyms, Extractor.toInt_of_lt hboth.count,
      Int.toNat_natCast, mapsSyms]
    simp only [Nat.cast_inj]
  have hsz31 : sz < 2 ^ 31 := by
    have := Extractor.toInt_lt (data.size / (mapsSyms symbols m).length)
    omega
  refine ⟨data, sz, rest, hsz31, hmaps, ?_, hmax, hfits⟩
  rw [hobj, heq, hsyms, hsz]
  change (obj₀.maps ++ _) ++ rest = _
  rw [hnil, List.nil_append]

/-- The maps that the two extractors have found in the section `maps` are the same, but for their
    numbers: those of the one are those of the other in the order of the offsets. -/
theorem maps_agree :
    Set.BijOn (renumber (mapsSyms symbols m)) (Set.Iio maps.length) (Set.Iio maps.length) ∧
    ∀ k < maps.length, ∃ new old, obj.setFds.maps[k]? = some new ∧ new.fd = k ∧
      maps[renumber (mapsSyms symbols m) k]? = some old ∧
      old.fd = renumber (mapsSyms symbols m) k ∧ old.elfOffset = new.secOffset ∧
      { old with fd := k }.record = new.record := by
  obtain ⟨data, sz, rest, hsz, rfl, hobj, -, hfits⟩ := hboth.exists_syms hopen
  have hlen : (OldExtractor.loadedMaps 0 data sz (mapsSyms symbols m)).length =
      (mapsSyms symbols m).length := by
    rw [OldExtractor.loadedMaps, List.length_mapIdx, Sorting.length_sort]
  rw [hlen]
  refine ⟨bijOn_renumber hboth.distinct, fun k hk => ?_⟩
  have hsym := List.getElem?_eq_getElem hk
  refine ⟨{ Extractor.symMap heap data sz (mapsSyms symbols m)[k] with fd := k },
    { mapOf data sz (mapsSyms symbols m)[k] with
      fd := 0 + renumber (mapsSyms symbols m) k }, ?_, rfl, ?_, Int.zero_add _, rfl,
    record_eq hsz (hfits _ (List.getElem_mem hk)) k⟩
  · have hget : obj.maps[k]? = some (Extractor.symMap heap data sz (mapsSyms symbols m)[k]) := by
      rw [hobj, List.getElem?_append_left (by rw [List.length_map]; exact hk),
        List.getElem?_map, hsym]
      rfl
    rw [BpfObject.setFds, List.getElem?_mapIdx, hget]
    rfl
  · rw [OldExtractor.loadedMaps, List.getElem?_mapIdx, getElem?_sort_renumber hboth.distinct hsym]
    rfl

end

/-- An object with two maps, the first symbol of which has the larger offset. -/
def twoMapsElf : Elf :=
  smallElf "xdp" [⟨lddwCode, 1, 0, 0, 0⟩, .zero, ⟨0x95, 0, 0, 0, 0⟩] [⟨0, 2⟩]
    [⟨some [], 0, 0, 0, 0, 0⟩, ⟨some (cstr "load"), stbGlobal, sttFunc, 1, 0, 24⟩,
      ⟨some (cstr "counts"), stbGlobal, sttObject, 4, 20, 20⟩,
      ⟨some (cstr "totals"), stbGlobal, sttObject, 4, 0, 20⟩]
    ([2, 4, 8, 1, 0, 1, 4, 8, 16, 0].flatMap (leBytes 4))

theorem bothRead_twoMapsElf : ∃ obj scan symbols maps,
    BpfObject.openFile Extractor.noBtf Extractor.zeroHeap (cstr "prog.o") twoMapsElf = .ok obj ∧
      BothRead twoMapsElf obj scan symbols maps 4 ∧ maps.length = 2 ∧
      renumber (mapsSyms symbols 4) 0 = 1 :=
  ⟨_, _, _, _, rfl, ⟨rfl, rfl, rfl, rfl, rfl, by decide, by decide⟩, rfl, by decide⟩

theorem maps_agree_twoMapsElf : ∃ obj scan symbols maps,
    BpfObject.openFile Extractor.noBtf Extractor.zeroHeap (cstr "prog.o") twoMapsElf = .ok obj ∧
      BothRead twoMapsElf obj scan symbols maps 4 ∧
      ∃ new old, obj.setFds.maps[0]? = some new ∧ new.fd = 0 ∧ maps[1]? = some old ∧ old.fd = 1 ∧
        { old with fd := 0 }.record = new.record := by
  obtain ⟨obj, scan, symbols, maps, hopen, hboth, hlen, hnumber⟩ := bothRead_twoMapsElf
  obtain ⟨-, hall⟩ := maps_agree hopen hboth
  obtain ⟨new, old, hnew, hnewfd, hold, holdfd, -, hrec⟩ := hall 0 (by rw [hlen]; decide)
  rw [hnumber] at hold holdfd
  exact ⟨obj, scan, symbols, maps, hopen, hboth, new, old, hnew, hnewfd, hold, holdfd, hrec⟩

/-! ## Programs -/

section

variable {btfNew : Bytes → Except Extractor.Err Extractor.Btf} {heap : Extractor.Heap}
  {path : Bytes} {elf : Elf} {obj : BpfObject}
  (hopen : BpfObject.openFile btfNew heap path elf = .ok obj)

include hopen

variable {scan : OldExtractor.Scan} {symbols : ElfData} {maps : List BpfMapData} {m : ℕ}
  (hboth : BothRead elf obj scan symbols maps m)

include hboth

/-- An entry for the symbol of a map asks in both for the same map. -/
theorem refFd_of_recorded {p : Extractor.BpfProgram} {e : Extractor.Entry}
    {d : Extractor.RelocDesc} {insn : BpfInsn} {t : Extractor.Referent}
    (hrec : Extractor.IsRecorded elf obj.setFds p e d insn t) (htype : d.type = Extractor.reloLd64)
    (hsym : ∃ sym ∈ mapsSyms symbols m, symbols.syms[e.2.sym]? = some sym) :
    ∃ k < 2 ^ 31, Extractor.refOf obj.setFds d = .mapFd (BitVec.ofNat 32 k) ∧
      OldExtractor.refFd symbols maps e.2 = renumber (mapsSyms symbols m) k := by
  obtain ⟨data, sz, rest, -, rfl, hobj, hmax, hfits⟩ := hboth.exists_syms hopen
  obtain ⟨sym, hmem, hget⟩ := hsym
  have hopened : Extractor.IsOpened elf obj.setFds :=
    Extractor.isOpened_of_openFile hopen (BpfObject.collectRelos_setFds hopen heap)
  have hentry : Extractor.entrySym elf e = some sym := by
    rw [Extractor.entrySym, symtab_of_scanSecs hopen hboth.scanned hboth.symtab, Option.bind_some,
      hget]
  obtain ⟨k, rfl⟩ : ∃ k, t = .map k := by
    cases hrec.describes with
    | map k => exact ⟨k, rfl⟩
    | func _ h => exact absurd (htype.symm.trans h) (by decide)
    | ext _ _ _ h => exact absurd (htype.symm.trans h) (by decide)
    | data _ _ _ h => exact absurd (htype.symm.trans h) (by decide)
  have hfind : obj.setFds.maps.findIdx? (obj.setFds.isMapOf sym) = some k := by
    obtain ⟨sym', hsym', hfind⟩ := Extractor.referent_map hrec.referent rfl
    rwa [Option.some.inj (hentry.symm.trans hsym')]
  have hunspec := unspec_of_referent hrec.referent hentry
  obtain ⟨hlt, hisMap, hfirst⟩ := List.findIdx?_eq_some_iff_getElem.1 hfind
  have hmap {j : ℕ} (hj : j < (mapsSyms symbols m).length) : obj.setFds.maps[j]? =
      some { Extractor.symMap heap data sz (mapsSyms symbols m)[j] with fd := j } := by
    rw [BpfObject.setFds, List.getElem?_mapIdx, hobj,
      List.getElem?_append_left (by rw [List.length_map]; exact hj), List.getElem?_map,
      List.getElem?_eq_getElem hj]
    rfl
  -- The search ends at the map of the symbol, if not before.
  have hk : k < (mapsSyms symbols m).length := by
    obtain ⟨j, hj, rfl⟩ := List.getElem_of_mem hmem
    by_contra hle
    have hjk : j < k := hj.trans_le (not_lt.1 hle)
    refine hfirst j hjk ?_
    rw [Option.some.inj ((List.getElem?_eq_getElem _).symm.trans (hmap hj)), BpfObject.isMapOf,
      if_pos hunspec]
    exact decide_eq_true ⟨rfl, rfl, rfl⟩
  have hvalue : (mapsSyms symbols m)[k].value = sym.value := by
    rw [Option.some.inj ((List.getElem?_eq_getElem _).symm.trans (hmap hk)), BpfObject.isMapOf,
      if_pos hunspec, decide_eq_true_iff] at hisMap
    exact hisMap.2.2
  have hlt31 : k < 2 ^ 31 := (hk.trans_le hmax).trans (by decide)
  refine ⟨k, hlt31, hrec.refOf_eq hopened fun _ h => Option.some.inj h ▸ hlt31, ?_⟩
  rw [OldExtractor.refFd_loadedMaps hboth.distinct ⟨sym, hmem, by
    rw [OldExtractor.symValue, hget]; rfl⟩, Int.zero_add, renumber, OldExtractor.symValue, hget,
    List.getElem?_eq_getElem hk, Option.map_some, Option.map_some, hvalue]

omit hboth in
/-- A program of an opened object has instructions, which the old extractor reads too. -/
theorem fileInsns_of_compiled {p : Extractor.BpfProgram} (hp : p ∈ obj.programs)
    (hc : Extractor.Compiled elf obj p) : OldExtractor.fileInsns elf p.secIdx = some p.insns := by
  have hpos : 0 < p.secInsnCnt := by
    obtain ⟨obj₁, ps, hread, hps, -, rfl⟩ := BpfObject.openFile_ok hopen
    obtain ⟨q, hq, rfl⟩ := List.mem_map.1 hp
    obtain ⟨scn, data, hin⟩ := hread.inSection q.bare (hps.bare ▸ List.mem_map_of_mem hq)
    exact hin.cnt_pos
  obtain ⟨data, hdata, -, -, hinsns⟩ := Extractor.section_of_openFile hopen hp
  have hfills := hc.fills data hdata
  have hall : p.insns = readInsns data.bytes := by
    rw [hinsns, hc.start, Nat.zero_add, List.extract_eq_take_drop, List.drop_zero, Nat.sub_zero,
      List.take_of_length_le]
    rw [length_readInsns, ← hfills, Nat.mul_div_cancel_left _ (by decide)]
  rw [OldExtractor.fileInsns, hdata, Option.bind_some, hall]
  cases hbuf : data.buf with
  | none =>
    rw [ElfData.bytes, hbuf] at hfills
    exact absurd hfills (Nat.mul_pos (by decide) hpos).ne'
  | some b =>
    rw [ElfData.bytes, hbuf]
    rfl

/-- The program is code as it was compiled, all the references of which are to maps. They are those
    of the section `i` of entries, which both extractors process. -/
structure LoadsOnlyMaps (elf : Elf) (obj : BpfObject) (symbols : ElfData) (m : ℕ)
    (p : Extractor.BpfProgram) (i : ℕ) : Prop where
  compiled : Extractor.Compiled elf obj p
  type : ∀ d ∈ p.relocDesc, d.type = Extractor.reloLd64
  entries : ∀ rel, (p.secIdx, rel) ∈ Extractor.entriesOf elf obj.programs p ↔
    rel ∈ OldExtractor.entries elf i
  syms : ∀ rel ∈ OldExtractor.entries elf i, ∃ sym ∈ mapsSyms symbols m,
    symbols.syms[rel.sym]? = some sym

/-- The instruction, which refers to a map by the number that the old extractor gives it. -/
def renumberInsn (syms : List GElfSym) (insn : BpfInsn) : BpfInsn :=
  if IsMapFd insn then { insn with imm := BitVec.ofNat 32 (renumber syms insn.imm.toNat) } else insn

section

variable {p : Extractor.BpfProgram} (hp : p ∈ obj.programs) {i : ℕ}
  (hloads : LoadsOnlyMaps elf obj symbols m p i)

include hp hloads

/-- An entry for the old extractor has a descriptor in the new one, which asks for the same map. -/
theorem exists_desc_of_entry {rel : GElfRel} (hrel : rel ∈ OldExtractor.entries elf i) :
    ∃ d ∈ p.relocDesc, d.insnIdx.toNat = OldExtractor.relIdx rel ∧ ∃ k < 2 ^ 31,
      Extractor.refOf obj.setFds d = .mapFd (BitVec.ofNat 32 k) ∧
      OldExtractor.refFd symbols maps rel = renumber (mapsSyms symbols m) k := by
  have hopened : Extractor.IsOpened elf obj.setFds :=
    Extractor.isOpened_of_openFile hopen (BpfObject.collectRelos_setFds hopen heap)
  obtain ⟨d, hd, insn, t, hrec⟩ := hopened.exists_desc (p := p) hp ((hloads.entries rel).2 hrel)
  obtain ⟨k, hk, href, hfd⟩ :=
    refFd_of_recorded hopen hboth hrec (hloads.type d hd) (hloads.syms rel hrel)
  refine ⟨d, hd, hrec.idx.trans ?_, k, hk, href, hfd⟩
  rw [Extractor.BpfProgram.entryIdx, hloads.compiled.start, Nat.sub_zero, Extractor.relInsnIdx,
    BitVec.toNat_ofNat, OldExtractor.relIdx]

omit hboth in
/-- A descriptor in the new extractor is that of an entry for the old one. -/
theorem exists_entry_of_desc {d : Extractor.RelocDesc} (hd : d ∈ p.relocDesc) :
    ∃ rel ∈ OldExtractor.entries elf i, OldExtractor.relIdx rel = d.insnIdx.toNat := by
  have hopened : Extractor.IsOpened elf obj.setFds :=
    Extractor.isOpened_of_openFile hopen (BpfObject.collectRelos_setFds hopen heap)
  obtain ⟨⟨sec, rel⟩, he, insn, t, hrec⟩ := hopened.exists_entry (p := p) hp hd
  obtain rfl : p.secIdx = sec :=
    (Extractor.BpfProgram.holds_iff.1 (List.mem_filter.1 he).2).1
  refine ⟨rel, (hloads.entries rel).1 he, Eq.trans ?_ hrec.idx.symm⟩
  rw [Extractor.BpfProgram.entryIdx, hloads.compiled.start, Nat.sub_zero, Extractor.relInsnIdx,
    BitVec.toNat_ofNat, OldExtractor.relIdx]

/-- The descriptor for the instruction of an entry asks for the map that the entry asks for. -/
theorem ref_of_desc {rel : GElfRel} (hrel : rel ∈ OldExtractor.entries elf i)
    {d : Extractor.RelocDesc} (hd : d ∈ p.relocDesc)
    (hidx : OldExtractor.relIdx rel = d.insnIdx.toNat) : ∃ k < 2 ^ 31,
      Extractor.refOf obj.setFds d = .mapFd (BitVec.ofNat 32 k) ∧
      OldExtractor.refFd symbols maps rel = renumber (mapsSyms symbols m) k := by
  obtain ⟨d', hd', hidx', h⟩ := exists_desc_of_entry hopen hboth hp hloads hrel
  obtain rfl : d' = d := List.inj_on_of_nodup_map hloads.compiled.nodup hd' hd
    (BitVec.eq_of_toNat_eq (hidx'.trans hidx))
  exact h

variable {insns : List BpfInsn} (hrelocated : RelocatedInsns obj.setFds p insns)

include hrelocated

/-- The instruction of a reference loads the same map in both. -/
theorem applied_of_desc {d : Extractor.RelocDesc} (hd : d ∈ p.relocDesc) :
    (OldExtractor.applied symbols maps (OldExtractor.entries elf i) p.insns)[d.insnIdx.toNat]? =
      insns[d.insnIdx.toNat]?.map (renumberInsn (mapsSyms symbols m)) := by
  obtain ⟨rel₀, hrel₀, hidx₀⟩ := exists_entry_of_desc hopen hp hloads hd
  -- Of several entries for the instruction the last one counts, which asks for the same map.
  have hmem : rel₀ ∈ (OldExtractor.entries elf i).filter
      (OldExtractor.relIdx · = d.insnIdx.toNat) := List.mem_filter.2 ⟨hrel₀, decide_eq_true hidx₀⟩
  obtain ⟨rel, hlast⟩ := Option.isSome_iff_exists.1
    (List.getLast?_isSome.2 (List.ne_nil_of_mem hmem))
  obtain ⟨hrel, hidx⟩ := List.mem_filter.1 (List.mem_of_getLast? hlast)
  obtain ⟨k, hk, href, hfd⟩ :=
    ref_of_desc hopen hboth hp hloads hrel hd (of_decide_eq_true hidx)
  obtain ⟨insn, hinsn, hlddw, -⟩ := hloads.compiled.orig d hd
  have hfirst := congrArg Prod.fst (hrelocated.pair d hd)
  rw [href] at hfirst
  change insns[d.insnIdx.toNat]? = p.insns[d.insnIdx.toNat]?.map
    (Extractor.Ref.mapFd (BitVec.ofNat 32 k)).toWrite.first at hfirst
  have hmapFd : IsMapFd ((Extractor.Ref.mapFd (BitVec.ofNat 32 k)).toWrite.first insn) :=
    ⟨hlddw, rfl⟩
  have himm : ((Extractor.Ref.mapFd (BitVec.ofNat 32 k)).toWrite.first insn).imm.toNat = k := by
    change (BitVec.ofNat 32 k).toNat = k
    rw [BitVec.toNat_ofNat]
    omega
  rw [OldExtractor.getElem?_applied, hfirst, hinsn, hlast, Option.map_some, Option.map_some,
    Option.map_some, Option.elim_some, OldExtractor.loadFd, hfd, BitVec.ofInt_natCast, renumberInsn,
    if_pos hmapFd, himm]
  rfl

/-- The other instructions are as they were compiled in both. -/
theorem applied_of_forall_ne {n : ℕ} (hn : ∀ d ∈ p.relocDesc, d.insnIdx.toNat ≠ n) :
    (OldExtractor.applied symbols maps (OldExtractor.entries elf i) p.insns)[n]? =
      insns[n]?.map (renumberInsn (mapsSyms symbols m)) := by
  have hnil : (OldExtractor.entries elf i).filter (OldExtractor.relIdx · = n) = [] := by
    refine List.filter_eq_nil_iff.2 fun rel hrel heq => ?_
    obtain ⟨d, hd, hidx, -⟩ := exists_desc_of_entry hopen hboth hp hloads hrel
    exact hn d hd (hidx.trans (of_decide_eq_true heq))
  -- The second half of a reference to a map stays.
  have hsame : insns[n]? = p.insns[n]? := by
    by_cases hnext : ∃ d ∈ p.relocDesc, n = d.insnIdx.toNat + 1
    · obtain ⟨d, hd, rfl⟩ := hnext
      obtain ⟨rel, hrel, hidx⟩ := exists_entry_of_desc hopen hp hloads hd
      obtain ⟨k, -, href, -⟩ := ref_of_desc hopen hboth hp hloads hrel hd hidx
      obtain ⟨insn, hinsn, -⟩ := hloads.compiled.orig d hd
      have hsecond := congrArg Prod.snd (hrelocated.pair d hd)
      rw [href] at hsecond
      refine hsecond.trans ?_
      change p.insns[d.insnIdx.toNat]?.bind _ = _
      rw [hinsn, Option.bind_some]
      exact Option.map_id'
    · exact hrelocated.other n fun d hd => ⟨(hn d hd).symm, fun heq => hnext ⟨d, hd, heq⟩⟩
  rw [OldExtractor.getElem?_applied, hsame, hnil]
  cases hinsn : p.insns[n]? with
  | none => rfl
  | some insn =>
    have hnot : ¬IsMapFd insn := fun hmap =>
      hloads.compiled.asCompiled.src insn (List.mem_of_getElem? hinsn) hmap.1 hmap.2
    rw [Option.map_some, Option.map_some, renumberInsn, if_neg hnot]
    rfl

/-- Relocating the program in the old extractor gives what it gives in the new one, but for the
    numbers of the maps. -/
theorem applied_eq_map : OldExtractor.applied symbols maps (OldExtractor.entries elf i) p.insns =
    insns.map (renumberInsn (mapsSyms symbols m)) := by
  apply List.ext_getElem?
  intro n
  rw [List.getElem?_map]
  by_cases hn : ∃ d ∈ p.relocDesc, d.insnIdx.toNat = n
  · obtain ⟨d, hd, rfl⟩ := hn
    exact applied_of_desc hopen hboth hp hloads hrelocated hd
  · push Not at hn
    exact applied_of_forall_ne hopen hboth hp hloads hrelocated hn

omit hrelocated in
/-- The entries of the program can all be applied by the old extractor. -/
theorem applies_of_loadsOnlyMaps (hwf : OldExtractor.WellFormed elf symbols)
    (hi : i ∈ OldExtractor.secIdxs elf) {sec prog : OldExtractor.Sec}
    (hrelocates : OldExtractor.relocates elf i = some (sec, prog))
    (hinfo : sec.shdr.info = p.secIdx) : OldExtractor.Applies elf symbols maps sec := by
  have hread := hwf.entries i hi (sec, prog) hrelocates
  refine ⟨hread.entsize, hread.entries, fun rel hrel => ?_⟩
  have hentry : rel ∈ OldExtractor.entries elf i := by
    rw [OldExtractor.entries, hrelocates]
    exact hrel
  rw [hinfo, fileInsns_of_compiled hopen hp hloads.compiled, Option.getD_some]
  constructor
  · obtain ⟨d, hd, hidx, -⟩ := exists_desc_of_entry hopen hboth hp hloads hentry
    obtain ⟨insn, hinsn, hlddw, -⟩ := hloads.compiled.orig d hd
    rw [List.getElem?_map, ← hidx, hinsn, Option.map_some, hlddw]
  · obtain ⟨data, sz, rest, -, rfl, -⟩ := hboth.exists_syms hopen
    obtain ⟨sym, hmem, hget⟩ := hloads.syms rel hentry
    refine OldExtractor.refMap_loadedMaps.2 ⟨sym, hmem, ?_⟩
    rw [OldExtractor.symValue, hget]
    rfl

omit hrelocated in
/-- What the two extractors write for the program is the same, but for the numbers of the maps,
    which are renumbered in the one as they are in the other. -/
theorem programs_agree {dir dir' : Extractor.Dir}
    (hextract : Extractor.extract btfNew heap path elf dir = .ok (0, dir'))
    (hnames : Extractor.NamesDiffer obj.programs) (hwf : OldExtractor.WellFormed elf symbols)
    {progname outputName : Bytes} (hroom : OldExtractor.NamesComparable elf progname)
    {prog : OldExtractor.Sec} (ht : OldExtractor.Unambiguous elf progname p.secIdx prog)
    (hi : i ∈ OldExtractor.secIdxs elf)
    (htarget : OldExtractor.target elf i = some p.secIdx) (hproc : scan.mapsProcessed i = false)
    (hsize : prog.data.size < 2 ^ 31) (hname : outputName.length < 44) (dirOld : Extractor.Dir) :
    ∃ insns' dirOld', dir' (Extractor.filePath p.secName .insns) = some (insnBytes insns') ∧
      OldExtractor.mainElf elf progname outputName dirOld = .ok (0, dirOld') ∧
      dirOld' (OldExtractor.outputPath outputName ".insns") =
        some (insnBytes (insns'.map (renumberInsn (mapsSyms symbols m)))) ∧
      dirOld' (OldExtractor.outputPath outputName ".maps") = some (OldExtractor.mapsText maps) := by
  obtain ⟨p', hreloc, hfile, -⟩ :=
    Extractor.written_of_compiled hopen hextract hnames hp hloads.compiled
  obtain ⟨scan', maps', insns', dirOld', hscan, hmaps, hmain, hwritten, happ, -⟩ :=
    OldExtractor.mainElf_unambiguous hwf hname hroom ht
      (fileInsns_of_compiled hopen hp hloads.compiled) hsize dirOld
  obtain rfl := Except.ok.inj (hboth.scanned.symm.trans hscan)
  obtain rfl := Option.some.inj (Except.ok.inj (hboth.loaded.symm.trans hmaps))
  obtain ⟨⟨sec, prog'⟩, hrelocates, hinfo⟩ := Option.map_eq_some_iff.1 htarget
  have hprog : prog' = prog := by
    have hsec := (OldExtractor.relocates_eq_some.1 hrelocates).2.2.1
    rw [show sec.shdr.info = p.secIdx from hinfo, ht.sec] at hsec
    exact (Option.some.inj hsec).symm
  have hinsns := happ i hi htarget ⟨hproc, sec, prog', hrelocates,
    applies_of_loadsOnlyMaps hopen hboth hp hloads hwf hi hrelocates hinfo, hprog ▸ ht.name⟩
  have hrelocated := relocatedInsns_of_relocateData hloads.compiled.asCompiled
    (Extractor.recordedAtLddw_of_compiled hopen hp hloads.compiled) hloads.compiled.nodup hreloc
  rw [Option.getD_some, applied_eq_map hopen hboth hp hloads hrelocated] at hinsns
  exact ⟨p'.insns, dirOld', hfile, hmain, hinsns ▸ hwritten.bytecode, hwritten.maps⟩

end

end

theorem loadsOnlyMaps_twoMapsElf : ∃ obj scan symbols maps p,
    BpfObject.openFile Extractor.noBtf Extractor.zeroHeap (cstr "prog.o") twoMapsElf = .ok obj ∧
      BothRead twoMapsElf obj scan symbols maps 4 ∧ renumber (mapsSyms symbols 4) 0 = 1 ∧
      OldExtractor.WellFormed twoMapsElf symbols ∧ Extractor.NamesDiffer obj.programs ∧
      scan.mapsProcessed 2 = false ∧ p ∈ obj.programs ∧ p.secIdx = 1 ∧ p.secName = cstr "xdp" ∧
      LoadsOnlyMaps twoMapsElf obj symbols 4 p 2 := by
  have hopen : ∃ obj scan symbols maps,
      BpfObject.openFile Extractor.noBtf Extractor.zeroHeap (cstr "prog.o") twoMapsElf = .ok obj ∧
        BothRead twoMapsElf obj scan symbols maps 4 ∧ renumber (mapsSyms symbols 4) 0 = 1 ∧
        OldExtractor.WellFormed twoMapsElf symbols ∧
        Extractor.NamesDiffer obj.programs ∧ scan.mapsProcessed 2 = false ∧
        (∀ rel ∈ OldExtractor.entries twoMapsElf 2, ∃ sym ∈ mapsSyms symbols 4,
          symbols.syms[rel.sym]? = some sym) ∧
        ∃ p, obj.programs = [p] ∧ p.secIdx = 1 ∧ p.secName = cstr "xdp" ∧
          Extractor.Compiled twoMapsElf obj p ∧ (∀ d ∈ p.relocDesc, d.type = Extractor.reloLd64) ∧
          Extractor.entriesOf twoMapsElf obj.programs p = [(1, ⟨0, 2⟩)] := by
    refine ⟨_, _, _, _, rfl, ⟨rfl, rfl, rfl, rfl, rfl, by decide, by decide⟩, by decide, ?_,
      ⟨by decide, by decide⟩, rfl, by decide +kernel, _, rfl, rfl, rfl,
      Extractor.compiled_of_forall rfl (by decide +kernel) (by decide)
        (unrelocated_of_forall (by decide)) (by decide) (by decide) ⟨_, rfl⟩, by decide, rfl⟩
    refine ⟨by decide +kernel, by decide +kernel, by decide +kernel, rfl, ?_, by decide +kernel⟩
    intro m hm
    obtain rfl : 4 = m := Option.some.inj hm
    exact ⟨_, 20, rfl, by decide +kernel, by decide +kernel, by decide +kernel, by decide +kernel⟩
  obtain ⟨obj, scan, symbols, maps, hopen, hboth, hnumber, hwf, hnames, hproc, hsyms, p, hprogs,
    hidx, hname, hcompiled, htype, hentries⟩ := hopen
  refine ⟨obj, scan, symbols, maps, p, hopen, hboth, hnumber, hwf, hnames, hproc,
    hprogs ▸ List.mem_singleton_self p, hidx, hname, hcompiled, htype, fun rel => ?_, hsyms⟩
  have hold : OldExtractor.entries twoMapsElf 2 = [⟨0, 2⟩] := by decide +kernel
  rw [hentries, hidx, hold, List.mem_singleton, List.mem_singleton, Prod.mk.injEq]
  exact and_iff_right rfl

theorem programs_agree_twoMapsElf : ∃ insns' dir' dirOld',
    Extractor.extract Extractor.noBtf Extractor.zeroHeap (cstr "prog.o") twoMapsElf
        (fun _ => none) = .ok (0, dir') ∧
      dir' (Extractor.filePath (cstr "xdp") .insns) = some (insnBytes insns') ∧
      OldExtractor.mainElf twoMapsElf (cstr "xdp") (cstr "out") (fun _ => none) =
        .ok (0, dirOld') ∧
      ∃ syms, dirOld' (OldExtractor.outputPath (cstr "out") ".insns") =
        some (insnBytes (insns'.map (renumberInsn syms))) ∧ renumber syms 0 = 1 := by
  obtain ⟨obj, scan, symbols, maps, p, hopen, hboth, hnumber, hwf, hnames, hproc, hp, hidx, hname,
    hloads⟩ := loadsOnlyMaps_twoMapsElf
  have ht : ∃ prog, OldExtractor.Unambiguous twoMapsElf (cstr "xdp") 1 prog ∧
      prog.data.size < 2 ^ 31 := by
    refine ⟨_, ⟨by decide, rfl, by decide, by decide, ?_, by decide, by decide, ?_⟩, ?_⟩
    all_goals decide +kernel
  obtain ⟨prog, ht, hsize⟩ := ht
  have hextract : ∃ dir', Extractor.extract Extractor.noBtf Extractor.zeroHeap (cstr "prog.o")
      twoMapsElf (fun _ => none) = .ok (0, dir') := ⟨_, rfl⟩
  obtain ⟨dir', hextract⟩ := hextract
  obtain ⟨insns', dirOld', hnew, hmain, hold, -⟩ := programs_agree hopen hboth hp hloads hextract
    hnames hwf (by decide +kernel) (hidx ▸ ht) (by decide) (hidx ▸ by decide) hproc hsize
    (by decide : (cstr "out").length < 44) fun _ => none
  exact ⟨insns', dir', dirOld', hextract, hname ▸ hnew, hmain, _, hold, hnumber⟩

end BpfElfTools
