import BpfElfTools.Extractor.Object
import BpfElfTools.Lib.Fold

/-!
# Maps

The maps of an object (`BpfObject.initMaps`), in the order in which they are
numbered: the legacy definitions of the section `maps` (`initUserMaps`), those
described by BTF, the data sections, the kconfig variables and struct_ops.

* `initUserMaps_ok`: the legacy maps are the symbols of their section, in order;
* `initMaps_ok`: nothing but maps is added, and the kconfig map has its index.
-/

namespace BpfElfTools.Extractor

/-! ## Adding a map -/

/-- The map of `bpf_object__add_map`: zeros, but for the file descriptor. -/
def BpfMap.fresh : BpfMap where
  name := []
  fd := -1
  secIdx := 0
  secOffset := 0
  defn := ⟨0, 0, 0, 0, 0⟩
  libbpfType := .unspec
  innerMap := none

/-- `bpf_object__add_map`, for a map that is then filled in. -/
def BpfObject.addMap (obj : BpfObject) (map : BpfMap) : BpfObject :=
  { obj with maps := obj.maps ++ [map] }

/-! ## Legacy maps -/

/-- The little-endian 32-bit field at the position `i` of a record, the bytes beyond
    the end of the record being zeros. -/
def le32 (b : Bytes) (i : ℕ) : BitVec 32 :=
  b[i + 3]?.getD 0 ++ b[i + 2]?.getD 0 ++ b[i + 1]?.getD 0 ++ b[i]?.getD 0

/-- `struct bpf_map_def` with the bytes `b` copied over its start. -/
def BpfMapDef.ofBytes (b : Bytes) : BpfMapDef where
  type := le32 b 0
  keySize := le32 b 4
  valueSize := le32 b 8
  maxEntries := le32 b 12
  mapFlags := le32 b 16

/-- The symbols that a loop with an `int` bound of `d_size / sizeof(GElf_Sym)` meets. -/
def intSyms (symbols : ElfData) : List GElfSym :=
  symbols.syms.take (toInt (symbols.size / sizeofGElfSym)).toNat

/-- The symbols of the section `maps`, each of which is a map. -/
def mapSyms (symbols : ElfData) (mapsShndx : ℤ) : List GElfSym :=
  (intSyms symbols).filter fun sym => sym.shndx = mapsShndx

/-- How many bytes of a definition of `mapDefSz` bytes are copied: a negative size is
    a large one when it is compared with `sizeof(struct bpf_map_def)`. -/
def copiedDefSz (mapDefSz : ℤ) : ℕ :=
  if 0 ≤ mapDefSz ∧ mapDefSz ≤ sizeofBpfMapDef then mapDefSz.toNat else sizeofBpfMapDef

/-- The body of the second loop of `bpf_object__init_user_maps`. -/
def initUserMap (heap : Heap) (data : ElfData) (mapDefSz : ℤ) (obj : BpfObject)
    (sym : GElfSym) : Except Err BpfObject :=
  match sym.name with
  | none => .error .format
  | some mapName =>
    -- The sum is one of 64-bit integers, and may wrap around.
    if data.size < (sym.value + (mapDefSz % 2 ^ 64).toNat) % 2 ^ 64 then .error .einval
    else if data.buf = none then .error .fault
    else .ok (obj.addMap { BpfMap.fresh with
      name := mapName
      libbpfType := .unspec
      secIdx := sym.shndx
      secOffset := sym.value
      defn := .ofBytes (peek heap data sym.value (copiedDefSz mapDefSz)) })

/-- `bpf_object__init_user_maps`. -/
def initUserMaps (heap : Heap) (obj : BpfObject) : Except Err BpfObject :=
  if obj.efile.mapsShndx < 0 then .ok obj
  else
    match obj.efile.symbols with
    | none => .error .einval
    | some symbols =>
      match obj.elf.secData obj.efile.mapsShndx.toNat with
      | none => .error .einval
      | some data =>
        let nrMaps := (mapSyms symbols obj.efile.mapsShndx).length
        if data.size = 0 ∨ nrMaps = 0 ∨ data.size % nrMaps ≠ 0 then .error .einval
        else
          (mapSyms symbols obj.efile.mapsShndx).foldlM
            (initUserMap heap data (toInt (data.size / nrMaps))) obj

/-! ## Maps described by BTF -/

/-- `bpf_object__init_user_btf_map`. -/
def initUserBtfMap (data : ElfData) (obj : BpfObject) (var : BtfMapVar) : Except Err BpfObject :=
  match var.name with
  | none => .error .einval
  | some mapName =>
    if mapName = [] ∨ data.size < var.offset + var.size then .error .einval
    else
      match var.parse with
      | .error err => .error err
      | .ok defn => .ok (obj.addMap { BpfMap.fresh with
          name := mapName
          libbpfType := .unspec
          secIdx := obj.efile.btfMapsShndx
          secOffset := var.offset
          defn := defn
          -- The inner map is allocated with zeros, its file descriptor among them.
          innerMap := if var.hasInner then some 0 else none })

/-- `bpf_object__init_user_btf_maps`. -/
def initUserBtfMaps (obj : BpfObject) : Except Err BpfObject :=
  if obj.efile.btfMapsShndx < 0 then .ok obj
  else
    match obj.elf.secData obj.efile.btfMapsShndx.toNat with
    | none => .error .einval
    | some data =>
      match obj.btf.bind (·.mapsVars) with
      | none => .error .enoent
      | some vars => vars.foldlM (initUserBtfMap data) obj

/-! ## Data sections -/

/-- `libbpf_type_to_btf_name`. -/
def LibbpfMapType.btfName : LibbpfMapType → Bytes
  | .unspec => []
  | .data => cstr ".data"
  | .bss => cstr ".bss"
  | .rodata => cstr ".rodata"
  | .kconfig => cstr ".kconfig"

/-- `isalnum`, in the C locale. -/
def isalnum (b : Byte) : Bool :=
  (0x30 ≤ b ∧ b ≤ 0x39) ∨ (0x41 ≤ b ∧ b ≤ 0x5a) ∨ (0x61 ≤ b ∧ b ≤ 0x7a)

/-- `BPF_OBJ_NAME_LEN`. -/
def bpfObjNameLen : ℕ := 16

/-- `internal_map_name`. -/
def internalMapName (objName : Bytes) (type : LibbpfMapType) : Bytes :=
  let sfx := type.btfName
  let sfxLen := max 7 sfx.length
  let pfxLen := min (bpfObjNameLen - sfxLen - 1) objName.length
  ((objName.take pfxLen ++ sfx.take sfxLen).take (bpfObjNameLen - 1)).map fun b =>
    if isalnum b ∨ b = 0x5f ∨ b = 0x2e then b else 0x5f

/-- `roundup`, of 32-bit integers. -/
def roundup32 (x y : ℕ) : ℕ := (x + (y - 1)) % 2 ^ 32 / y * y

/-- `bpf_map_mmap_sz`, with pages of 4096 bytes. -/
def bpfMapMmapSz (defn : BpfMapDef) : ℕ :=
  (roundup32 defn.valueSize.toNat 8 * defn.maxEntries.toNat + 4095) / 4096 * 4096

def bpfMapTypeArray : BitVec 32 := 2
def bpfFRdonlyProg : BitVec 32 := 0x80
def bpfFMmapable : BitVec 32 := 0x400

/-- The definition of the map of a section of `dataSz` bytes. -/
def internalMapDef (type : LibbpfMapType) (dataSz : ℕ) : BpfMapDef where
  type := bpfMapTypeArray
  keySize := 4
  valueSize := BitVec.ofNat 32 dataSz
  maxEntries := 1
  mapFlags := (if type = .rodata ∨ type = .kconfig then bpfFRdonlyProg else 0) ||| bpfFMmapable

/-- `bpf_object__init_internal_map`, for a section of `dataSz` bytes, whose contents are
    copied to the map if there are any. An empty map cannot be mapped to memory. -/
def initInternalMap (obj : BpfObject) (type : LibbpfMapType) (secIdx : ℤ) (data : Option Bytes)
    (dataSz : ℕ) : Except Err BpfObject :=
  let mmapSz := bpfMapMmapSz (internalMapDef type dataSz)
  if mmapSz = 0 then .error .einval
  else if data.isSome ∧ mmapSz < dataSz then .error .fault
  else .ok (obj.addMap { BpfMap.fresh with
    name := internalMapName obj.name type
    libbpfType := type
    secIdx := secIdx
    secOffset := 0
    defn := internalMapDef type dataSz })

/-- The part of `bpf_object__init_global_data_maps` for one section. -/
def initGlobalDataMap (obj : BpfObject) (type : LibbpfMapType) (secIdx : ℤ)
    (secData : Option ElfData) : Except Err BpfObject :=
  if 0 ≤ secIdx then
    match secData with
    | none => .error .fault
    | some d => initInternalMap obj type secIdx (if type = .bss then none else d.buf) d.size
  else .ok obj

/-- `bpf_object__init_global_data_maps`. -/
def initGlobalDataMaps (obj : BpfObject) : Except Err BpfObject := do
  let obj ← initGlobalDataMap obj .data obj.efile.dataShndx obj.efile.data
  let obj ← initGlobalDataMap obj .rodata obj.efile.rodataShndx obj.efile.rodata
  let obj := if 0 ≤ obj.efile.rodataShndx then { obj with rodataMapIdx := obj.maps.length - 1 }
    else obj
  initGlobalDataMap obj .bss obj.efile.bssShndx obj.efile.bss

/-- `bpf_object__init_kconfig_map`. -/
def initKconfigMap (obj : BpfObject) : Except Err BpfObject :=
  match (obj.externs.filter (·.isKcfg)).getLast? with
  | some ⟨_, _, _, _, _, .kcfg _ sz _ dataOff _⟩ => do
    -- The sum, an `int`, is converted to a `size_t`.
    let obj ← initInternalMap obj .kconfig obj.efile.symbolsShndx none
      ((dataOff + sz) % 2 ^ 64).toNat
    return { obj with kconfigMapIdx := obj.maps.length - 1 }
  | _ => .ok obj

/-- `bpf_object__init_struct_ops_maps`. -/
def initStructOpsMaps (obj : BpfObject) : Except Err BpfObject :=
  if obj.efile.stOpsShndx = -1 then .ok obj
  else
    match obj.btf with
    | none => .error .einval
    | some btf => do
      let maps ← btf.structOpsMaps
      return { obj with maps := obj.maps ++ maps.map fun m => { BpfMap.fresh with
        name := m.1
        secIdx := obj.efile.stOpsShndx
        secOffset := m.2.1
        defn := m.2.2 } }

/-- `bpf_object__init_maps`. -/
def BpfObject.initMaps (heap : Heap) (obj : BpfObject) : Except Err BpfObject := do
  let obj ← initUserMaps heap obj
  let obj ← initUserBtfMaps obj
  let obj ← initGlobalDataMaps obj
  let obj ← initKconfigMap obj
  initStructOpsMaps obj

/-! ## What is added -/

/-- No file descriptor has been given to the map, but its inner map, if there is one, has
    that of its memory. -/
def BpfMap.NoFd (map : BpfMap) : Prop := map.fd = -1 ∧ ∀ fd ∈ map.innerMap, fd = 0

/-- The object `obj'` is `obj` with more maps, of which two may have their index recorded. -/
def AddsMaps (obj obj' : BpfObject) : Prop :=
  ∃ l k r, obj' = { obj with maps := obj.maps ++ l, kconfigMapIdx := k, rodataMapIdx := r } ∧
    ∀ map ∈ l, map.NoFd

theorem AddsMaps.refl (obj : BpfObject) : AddsMaps obj obj :=
  ⟨[], obj.kconfigMapIdx, obj.rodataMapIdx, by rw [List.append_nil], by simp⟩

theorem AddsMaps.trans {obj obj' obj'' : BpfObject} (h : AddsMaps obj obj')
    (h' : AddsMaps obj' obj'') : AddsMaps obj obj'' := by
  obtain ⟨l, k, r, rfl, hl⟩ := h
  obtain ⟨l', k', r', rfl, hl'⟩ := h'
  refine ⟨l ++ l', k', r', by rw [List.append_assoc], fun map hmap => ?_⟩
  exact (List.mem_append.1 hmap).elim (hl map) (hl' map)

theorem addsMaps_addMap (obj : BpfObject) {map : BpfMap} (hmap : map.NoFd) :
    AddsMaps obj (obj.addMap map) :=
  ⟨[map], obj.kconfigMapIdx, obj.rodataMapIdx, rfl, by simpa using hmap⟩

/-- A loop whose every step adds maps adds maps. -/
theorem addsMaps_foldlM {α : Type*} {f : BpfObject → α → Except Err BpfObject}
    (hf : ∀ t a t', f t a = .ok t' → AddsMaps t t') {l : List α} {obj obj' : BpfObject}
    (h : l.foldlM f obj = .ok obj') : AddsMaps obj obj' :=
  Fold.foldlM_induction (fun _ t => AddsMaps obj t) (.refl obj)
    (fun _ a t t' _ hP ht => hP.trans (hf t a t' ht)) h

/-- The map of the legacy definition that the symbol `sym` stands for. -/
def symMap (heap : Heap) (data : ElfData) (mapDefSz : ℤ) (sym : GElfSym) : BpfMap :=
  { BpfMap.fresh with
    name := sym.name.getD []
    libbpfType := .unspec
    secIdx := sym.shndx
    secOffset := sym.value
    defn := .ofBytes (peek heap data sym.value (copiedDefSz mapDefSz)) }

theorem initUserMap_ok {heap : Heap} {data : ElfData} {mapDefSz : ℤ} {obj obj' : BpfObject}
    {sym : GElfSym} (h : initUserMap heap data mapDefSz obj sym = .ok obj') :
    sym.name.isSome ∧ data.buf.isSome ∧
      (sym.value + (mapDefSz % 2 ^ 64).toNat) % 2 ^ 64 ≤ data.size ∧
      obj' = obj.addMap (symMap heap data mapDefSz sym) := by
  rw [initUserMap] at h
  split at h
  · cases h
  split at h
  · cases h
  split at h
  · cases h
  rename_i mapName hname hsz hbuf
  cases h
  exact ⟨by rw [hname]; rfl, Option.isSome_iff_ne_none.2 hbuf, not_lt.1 hsz,
    by rw [symMap, hname]; rfl⟩

/-- The legacy maps are the symbols of the section `maps`, in the order of the symbol table. -/
theorem initUserMaps_ok {heap : Heap} {obj obj' : BpfObject}
    (h : initUserMaps heap obj = .ok obj') (hmaps : 0 ≤ obj.efile.mapsShndx) :
    ∃ symbols data, obj.efile.symbols = some symbols ∧
      obj.elf.secData obj.efile.mapsShndx.toNat = some data ∧
      let syms := mapSyms symbols obj.efile.mapsShndx
      let mapDefSz := toInt (data.size / syms.length)
      data.size ≠ 0 ∧ syms ≠ [] ∧ syms.length ∣ data.size ∧
      (∀ sym ∈ syms, sym.name.isSome ∧ data.buf.isSome ∧
        (sym.value + (mapDefSz % 2 ^ 64).toNat) % 2 ^ 64 ≤ data.size) ∧
      obj' = { obj with maps := obj.maps ++ syms.map (symMap heap data mapDefSz) } := by
  rw [initUserMaps, if_neg (not_lt.2 hmaps)] at h
  split at h
  · cases h
  rename_i symbols hsymbols
  split at h
  · cases h
  rename_i data hdata
  dsimp only at h
  split at h
  · cases h
  rename_i hbad
  simp only [not_or, not_not] at hbad
  obtain ⟨hsize, hne, hdvd⟩ := hbad
  refine ⟨symbols, data, hsymbols, hdata, hsize, List.ne_nil_of_length_pos (Nat.pos_of_ne_zero hne),
    Nat.dvd_of_mod_eq_zero hdvd, ?_⟩
  set mapDefSz := toInt (data.size / (mapSyms symbols obj.efile.mapsShndx).length)
  have hloop := Fold.foldlM_induction (fun done t =>
    (∀ sym ∈ done, sym.name.isSome ∧ data.buf.isSome ∧
      (sym.value + (mapDefSz % 2 ^ 64).toNat) % 2 ^ 64 ≤ data.size) ∧
    t = { obj with maps := obj.maps ++ done.map (symMap heap data mapDefSz) })
    ⟨by simp, by simp⟩ ?_ h
  · exact hloop
  · rintro done sym t t' - ⟨hall, rfl⟩ hstep
    obtain ⟨hname, hbuf, hsz, rfl⟩ := initUserMap_ok hstep
    refine ⟨fun s hs => ?_, ?_⟩
    · rcases List.mem_append.1 hs with hs | hs
      · exact hall s hs
      · obtain rfl := List.mem_singleton.1 hs
        exact ⟨hname, hbuf, hsz⟩
    · simp [BpfObject.addMap]

theorem addsMaps_initUserMaps {heap : Heap} {obj obj' : BpfObject}
    (h : initUserMaps heap obj = .ok obj') : AddsMaps obj obj' := by
  by_cases hmaps : 0 ≤ obj.efile.mapsShndx
  · obtain ⟨_, _, _, _, _, _, _, _, rfl⟩ := initUserMaps_ok h hmaps
    refine ⟨_, obj.kconfigMapIdx, obj.rodataMapIdx, rfl, fun map hmap => ?_⟩
    obtain ⟨sym, -, rfl⟩ := List.mem_map.1 hmap
    exact ⟨rfl, by simp [symMap, BpfMap.fresh]⟩
  · rw [initUserMaps, if_pos (not_le.1 hmaps)] at h
    cases h
    exact .refl obj

theorem addsMaps_initUserBtfMap {data : ElfData} {obj obj' : BpfObject} {var : BtfMapVar}
    (h : initUserBtfMap data obj var = .ok obj') : AddsMaps obj obj' := by
  rw [initUserBtfMap] at h
  split at h
  · cases h
  split at h
  · cases h
  split at h
  · cases h
  cases h
  refine addsMaps_addMap _ ⟨rfl, fun fd hfd => ?_⟩
  dsimp only at hfd
  split at hfd
  · exact (Option.some.inj hfd).symm
  · cases hfd

theorem addsMaps_initUserBtfMaps {obj obj' : BpfObject} (h : initUserBtfMaps obj = .ok obj') :
    AddsMaps obj obj' := by
  rw [initUserBtfMaps] at h
  split at h
  · cases h
    exact .refl obj
  split at h
  · cases h
  split at h
  · cases h
  exact addsMaps_foldlM (fun _ _ _ => addsMaps_initUserBtfMap) h

/-- An internal map is added at the end. -/
theorem initInternalMap_ok {obj obj' : BpfObject} {type : LibbpfMapType} {secIdx : ℤ}
    {data : Option Bytes} {dataSz : ℕ}
    (h : initInternalMap obj type secIdx data dataSz = .ok obj') :
    ∃ map, map.libbpfType = type ∧ map.NoFd ∧ obj' = obj.addMap map := by
  rw [initInternalMap] at h
  dsimp only at h
  split at h
  · cases h
  split at h
  · cases h
  cases h
  exact ⟨_, rfl, ⟨rfl, by simp [BpfMap.fresh]⟩, rfl⟩

theorem addsMaps_initGlobalDataMap {obj obj' : BpfObject} {type : LibbpfMapType} {secIdx : ℤ}
    {secData : Option ElfData} (h : initGlobalDataMap obj type secIdx secData = .ok obj') :
    AddsMaps obj obj' := by
  unfold initGlobalDataMap at h
  split at h
  · split at h
    · cases h
    · obtain ⟨map, -, hmap, rfl⟩ := initInternalMap_ok h
      exact addsMaps_addMap _ hmap
  · cases h
    exact .refl obj

theorem addsMaps_initGlobalDataMaps {obj obj' : BpfObject}
    (h : initGlobalDataMaps obj = .ok obj') : AddsMaps obj obj' := by
  simp only [initGlobalDataMaps, bind, Except.bind] at h
  split at h
  · cases h
  rename_i obj₁ h₁
  split at h
  · cases h
  rename_i obj₂ h₂
  refine (addsMaps_initGlobalDataMap h₁).trans ((addsMaps_initGlobalDataMap h₂).trans
    (.trans ?_ (addsMaps_initGlobalDataMap h)))
  split
  · exact ⟨[], obj₂.kconfigMapIdx, obj₂.maps.length - 1, by rw [List.append_nil], by simp⟩
  · exact .refl obj₂

/-- The index of the kconfig map is recorded. -/
def BpfObject.HasKconfigMap (obj : BpfObject) : Prop :=
  ∃ (m : ℕ) (map : BpfMap), obj.kconfigMapIdx = m ∧ obj.maps[m]? = some map ∧
    map.libbpfType = .kconfig

/-- The kconfig map, if there are kconfig variables, is the last one. -/
theorem initKconfigMap_ok {obj obj' : BpfObject} (h : initKconfigMap obj = .ok obj') :
    AddsMaps obj obj' ∧ ((∃ ext ∈ obj.externs, ext.isKcfg = true) → obj'.HasKconfigMap) := by
  rw [initKconfigMap] at h
  split at h
  · simp only [bind, Except.bind] at h
    split at h
    · cases h
    rename_i obj₁ h₁
    obtain ⟨map, htype, hmap, rfl⟩ := initInternalMap_ok h₁
    cases h
    refine ⟨⟨[map], _, obj.rodataMapIdx, rfl, by simpa using hmap⟩,
      fun _ => ⟨obj.maps.length, map, ?_, ?_, htype⟩⟩
    · simp [BpfObject.addMap]
    · simp [BpfObject.addMap]
  · rename_i hnone
    cases h
    refine ⟨.refl obj, fun ⟨ext, hext, hkcfg⟩ => ?_⟩
    -- The last of the kconfig variables is one.
    have hmem : ext ∈ obj.externs.filter (·.isKcfg) := List.mem_filter.2 ⟨hext, hkcfg⟩
    obtain ⟨last, hlast⟩ := Option.isSome_iff_exists.1
      (List.getLast?_isSome.2 (List.ne_nil_of_mem hmem))
    have hk := (List.mem_filter.1 (List.mem_of_getLast? hlast)).2
    obtain ⟨i, b, sb, n, w, val⟩ := last
    cases val with
    | kcfg => exact absurd hlast (hnone _ _ _ _ _ _ _ _ _ _)
    | ksym => cases hk

theorem addsMaps_initStructOpsMaps {obj obj' : BpfObject}
    (h : initStructOpsMaps obj = .ok obj') :
    ∃ l, obj' = { obj with maps := obj.maps ++ l } ∧ ∀ map ∈ l, map.NoFd := by
  rw [initStructOpsMaps] at h
  split at h
  · cases h
    exact ⟨[], by rw [List.append_nil], by simp⟩
  split at h
  · cases h
  simp only [bind, Except.bind] at h
  split at h
  · cases h
  cases h
  refine ⟨_, rfl, fun map hmap => ?_⟩
  obtain ⟨m, -, rfl⟩ := List.mem_map.1 hmap
  exact ⟨rfl, by simp [BpfMap.fresh]⟩

/-- Nothing but maps is added to an object, and the kconfig map has its index recorded. -/
theorem BpfObject.initMaps_ok {heap : Heap} {obj obj' : BpfObject}
    (h : obj.initMaps heap = .ok obj') :
    AddsMaps obj obj' ∧ ((∃ ext ∈ obj.externs, ext.isKcfg = true) → obj'.HasKconfigMap) := by
  simp only [BpfObject.initMaps, bind, Except.bind] at h
  split at h
  · cases h
  rename_i obj₁ h₁
  split at h
  · cases h
  rename_i obj₂ h₂
  split at h
  · cases h
  rename_i obj₃ h₃
  split at h
  · cases h
  rename_i obj₄ h₄
  have hadds := (addsMaps_initUserMaps h₁).trans
    ((addsMaps_initUserBtfMaps h₂).trans (addsMaps_initGlobalDataMaps h₃))
  obtain ⟨hk, hidx⟩ := initKconfigMap_ok h₄
  obtain ⟨l, rfl, hl⟩ := addsMaps_initStructOpsMaps h
  refine ⟨hadds.trans (hk.trans ⟨l, obj₄.kconfigMapIdx, obj₄.rodataMapIdx, rfl, hl⟩),
    fun hext => ?_⟩
  obtain ⟨_, _, _, rfl, -⟩ := hadds
  obtain ⟨m, map, hm, hget, htype⟩ := hidx hext
  have hlt := (List.getElem?_eq_some_iff.1 hget).1
  exact ⟨m, map, hm, by rw [List.getElem?_append_left hlt, hget], htype⟩

end BpfElfTools.Extractor
