import BpfElfTools.Extractor.Maps
import BpfElfTools.Extractor.Relos

/-!
# Opening an object

`BpfObject.openFile` reads an object file: its header is checked, its sections
are collected (`BpfObject.elfCollect`), and the externs, the maps and the
relocation descriptors are found.

* `elfCollect_ok`: what the sections leave in the object (`IsCollected`);
* `openFile_ok`: what an opened object is: what was read (`IsRead`), with the
  descriptors of its programs.
-/

namespace BpfElfTools.Extractor

/-! ## The header -/

/-- `bpf_object__elf_init`. -/
def elfInit (elf : Elf) : Except Err Unit :=
  if !elf.shstrtab then .error .format
  else if elf.type ≠ etRel ∨ (elf.machine ≠ 0 ∧ elf.machine ≠ emBpf) then .error .format
  else .ok ()

/-- `bpf_object__check_endianness`, on a little-endian host. -/
def checkEndianness (elf : Elf) : Except Err Unit :=
  if elf.lsb then .ok () else .error .endian

/-! ## The sections -/

/-- `is_sec_name_dwarf`. -/
def isSecNameDwarf (name : Bytes) : Bool := (cstr ".debug_").isPrefixOf name

def shtLlvmAddrsig : ℕ := 0x6FFF4C03

/-- `ignore_elf_section`. -/
def ignoreElfSection (hdr : GElfShdr) (name : Bytes) : Bool :=
  hdr.type = shtStrtab ∨ hdr.type = shtLlvmAddrsig ∨
  (hdr.type = shtProgbits ∧ hdr.size = 0 ∧ name = cstr ".text") ∨
  isSecNameDwarf name ∨
  ((cstr ".rel").isPrefixOf name ∧
    (isSecNameDwarf (name.drop 4) ∨ name.drop 4 = cstr ".BTF" ∨ name.drop 4 = cstr ".BTF.ext"))

/-- `section_have_execinstr`. -/
def sectionHaveExecinstr (elf : Elf) (idx : ℤ) : Bool :=
  0 ≤ idx ∧ elf.scns[idx.toNat]?.any (·.shdr.execinstr)

/-- The branches of the second loop of `bpf_object__elf_collect`. -/
inductive SectionKind
  | license
  | version
  | maps
  | btfMaps
  | btf
  | btfExt
  | symtab
  | progs
  | data
  | rodata
  | structOps
  | rel
  | bss
  | skipped
  deriving DecidableEq, Repr

/-- The branch taken for a section that is not ignored. -/
def sectionKind (elf : Elf) (sh : GElfShdr) (name : Bytes) (data : ElfData) : SectionKind :=
  if name = cstr "license" then .license
  else if name = cstr "version" then .version
  else if name = cstr "maps" then .maps
  else if name = cstr ".maps" then .btfMaps
  else if name = cstr ".BTF" then .btf
  else if name = cstr ".BTF.ext" then .btfExt
  else if sh.type = shtSymtab then .symtab
  else if sh.type = shtProgbits ∧ 0 < data.size then
    if sh.execinstr then .progs
    else if name = cstr ".data" then .data
    else if name = cstr ".rodata" then .rodata
    else if name = cstr ".struct_ops" then .structOps
    else .skipped
  else if sh.type = shtRel then
    -- Only sections with instructions are relocated, but for two kinds of data.
    if !sectionHaveExecinstr elf (toInt sh.info) ∧ name ≠ cstr ".rel.struct_ops" ∧
        name ≠ cstr ".rel.maps" then .skipped
    else .rel
  else if sh.type = shtNobits ∧ name = cstr ".bss" then .bss
  else .skipped

/-- `bpf_object__init_license`: the data are copied to the object. -/
def initLicense (data : ElfData) : Except Err Unit :=
  if data.buf = none ∧ data.size ≠ 0 then .error .fault else .ok ()

/-- `bpf_object__init_kversion`. -/
def initKversion (data : ElfData) : Except Err Unit :=
  if data.size ≠ 4 then .error .format
  else if data.buf = none then .error .fault
  else .ok ()

/-- What the section number `idx` sets in the state of the file. -/
def Efile.collectSection (efile : Efile) (kind : SectionKind) (sh : GElfShdr) (name : Bytes)
    (data : ElfData) (idx : ℕ) : Efile :=
  match kind with
  | .maps => { efile with mapsShndx := idx }
  | .btfMaps => { efile with btfMapsShndx := idx }
  | .progs => { efile with textShndx := if name = cstr ".text" then idx else efile.textShndx }
  | .data => { efile with data := some data, dataShndx := idx }
  | .rodata => { efile with rodata := some data, rodataShndx := idx }
  | .structOps => { efile with stOpsData := some data, stOpsShndx := idx }
  | .rel => { efile with relocSects := efile.relocSects ++ [(sh, data)] }
  | .bss => { efile with bss := some data, bssShndx := idx }
  | _ => efile

/-- The body of the first loop of `bpf_object__elf_collect`. -/
def collectSymtab (efile : Efile) (s : ElfScn × ℕ) : Except Err Efile :=
  if s.1.shdr.type = shtSymtab then
    if efile.symbols.isSome then .error .format
    else
      match s.1.data with
      | none => .error .format
      | some data => .ok { efile with
          symbols := some data
          symbolsShndx := s.2
          strtabidx := s.1.shdr.link }
  else .ok efile

/-- The body of the second loop of `bpf_object__elf_collect`, for the object and the data of
    the section `.BTF`. -/
def collectSection (st : BpfObject × Option ElfData) (s : ElfScn × ℕ) :
    Except Err (BpfObject × Option ElfData) :=
  match s.1.shdr.name with
  | none => .error .format
  | some name =>
    if ignoreElfSection s.1.shdr name then .ok st
    else
      match s.1.data with
      | none => .error .format
      | some data =>
        let kind := sectionKind st.1.elf s.1.shdr name data
        let obj := { st.1 with efile := st.1.efile.collectSection kind s.1.shdr name data s.2 }
        match kind with
        | .license => do
          initLicense data
          return (obj, st.2)
        | .version => do
          initKversion data
          return (obj, st.2)
        | .btf => .ok (obj, some data)
        | .progs => do
          let obj ← obj.addPrograms data name s.2
          return (obj, st.2)
        | _ => .ok (obj, st.2)

/-- `libbpf_needs_btf`. -/
def libbpfNeedsBtf (obj : BpfObject) : Bool :=
  0 ≤ obj.efile.btfMapsShndx ∨ 0 ≤ obj.efile.stOpsShndx ∨ 0 < obj.externs.length

/-- `bpf_object__init_btf`, by the function `btf__new`. -/
def initBtf (btfNew : Bytes → Except Err Btf) (obj : BpfObject) (btfData : Option ElfData) :
    Except Err BpfObject :=
  match btfData with
  | none => if libbpfNeedsBtf obj then .error .enoent else .ok obj
  | some data =>
    match btfNew data.bytes with
    | .ok btf => .ok { obj with btf := some btf }
    | .error err => if libbpfNeedsBtf obj then .error err else .ok obj

/-- `bpf_object__elf_collect`, up to `bpf_object__init_btf`: the object, and the data of the
    section `.BTF`. -/
def BpfObject.collectSections (obj : BpfObject) : Except Err (BpfObject × Option ElfData) := do
  let efile ← obj.elf.numbered.foldlM collectSymtab obj.efile
  let (obj, btfData) ← obj.elf.numbered.foldlM collectSection ({ obj with efile := efile }, none)
  if obj.efile.strtabidx = 0 ∨ obj.elf.numbered.length < obj.efile.strtabidx then
    .error .format
  else .ok ({ obj with programs := qsort cmpProgs obj.programs }, btfData)

/-- `bpf_object__elf_collect`. -/
def BpfObject.elfCollect (btfNew : Bytes → Except Err Btf) (obj : BpfObject) :
    Except Err BpfObject := do
  let (obj, btfData) ← obj.collectSections
  initBtf btfNew obj btfData

/-! ## Opening -/

/-- `bpf_object__finalize_btf`. -/
def finalizeBtf (obj : BpfObject) : Except Err Unit :=
  match obj.btf with
  | none => .ok ()
  | some btf => btf.finalize

/-- `bpf_object__elf_finish`. -/
def BpfObject.elfFinish (obj : BpfObject) : BpfObject :=
  { obj with efile := { obj.efile with
      symbols := none
      data := none
      rodata := none
      bss := none
      stOpsData := none
      relocSects := [] } }

/-- The name of an object (`bpf_object__new`): the last component of the path, up to a dot. -/
def objName (path : Bytes) : Bytes :=
  ((path.reverse.takeWhile (· ≠ 0x2f)).reverse.take (bpfObjNameLen - 1)).takeWhile (· ≠ 0x2e)

/-- `bpf_object__open_file`, for a file that libelf can open. -/
def BpfObject.openFile (btfNew : Bytes → Except Err Btf) (heap : Heap) (path : Bytes)
    (elf : Elf) : Except Err BpfObject := do
  elfInit elf
  checkEndianness elf
  let obj ← BpfObject.elfCollect btfNew { name := objName path, elf := elf }
  let obj ← obj.collectExterns
  finalizeBtf obj
  let obj ← obj.initMaps heap
  let obj ← obj.collectRelos heap
  return obj.elfFinish

/-! ## What is collected -/

/-- The branch taken for a numbered section, unless it is ignored. -/
def kindOf (elf : Elf) (s : ElfScn × ℕ) : Option SectionKind :=
  match s.1.shdr.name, s.1.data with
  | some name, some data =>
    if ignoreElfSection s.1.shdr name then none else some (sectionKind elf s.1.shdr name data)
  | _, _ => none

/-- What a numbered section sets in the state of the file. -/
def Efile.collect (elf : Elf) (efile : Efile) (s : ElfScn × ℕ) : Efile :=
  match s.1.shdr.name, s.1.data with
  | some name, some data =>
    if ignoreElfSection s.1.shdr name then efile
    else efile.collectSection (sectionKind elf s.1.shdr name data) s.1.shdr name data s.2
  | _, _ => efile

theorem Efile.collect_of_kindOf_none {elf : Elf} {s : ElfScn × ℕ} (h : kindOf elf s = none)
    (efile : Efile) : efile.collect elf s = efile := by
  rw [kindOf] at h
  rw [Efile.collect]
  split
  · rename_i hname hdata
    simp only [hname, hdata] at h
    split at h
    · rename_i hignore
      rw [if_pos hignore]
    · cases h
  · rfl

theorem Efile.collect_of_kindOf {elf : Elf} {s : ElfScn × ℕ} {kind : SectionKind}
    (h : kindOf elf s = some kind) (efile : Efile) :
    ∃ name data, s.1.shdr.name = some name ∧ s.1.data = some data ∧
      efile.collect elf s = efile.collectSection kind s.1.shdr name data s.2 := by
  rw [kindOf] at h
  split at h
  · rename_i name data hname hdata
    split at h
    · cases h
    · rename_i hignore
      refine ⟨name, data, hname, hdata, ?_⟩
      rw [Efile.collect, hname, hdata, ← Option.some.inj h]
      exact if_neg hignore
  · cases h

/-- The index that is remembered for the sections of a kind. -/
def Efile.shndx (efile : Efile) : SectionKind → ℤ
  | .maps => efile.mapsShndx
  | .btfMaps => efile.btfMapsShndx
  | .data => efile.dataShndx
  | .rodata => efile.rodataShndx
  | .structOps => efile.stOpsShndx
  | .bss => efile.bssShndx
  | _ => -1

/-- The section of relocation entries that a numbered section is, if it is collected. -/
def relSect (elf : Elf) (s : ElfScn × ℕ) : Option (GElfShdr × ElfData) :=
  if kindOf elf s = some .rel then s.1.data.map fun data => (s.1.shdr, data) else none

/-- The collected sections of relocation entries. -/
def relSects (elf : Elf) : List (GElfShdr × ElfData) := elf.numbered.filterMap (relSect elf)

/-- What one section changes. -/
theorem Efile.collect_spec (elf : Elf) (efile : Efile) (s : ElfScn × ℕ) :
    (efile.collect elf s).symbols = efile.symbols ∧
    (efile.collect elf s).symbolsShndx = efile.symbolsShndx ∧
    (efile.collect elf s).relocSects = efile.relocSects ++ (relSect elf s).toList ∧
    ∀ kind, (efile.collect elf s).shndx kind = efile.shndx kind ∨
      (kindOf elf s = some kind ∧ (efile.collect elf s).shndx kind = s.2) := by
  cases hkind : kindOf elf s with
  | none => simp [Efile.collect_of_kindOf_none hkind, relSect, hkind]
  | some k =>
    obtain ⟨name, data, -, hdata, heq⟩ := Efile.collect_of_kindOf hkind efile
    rw [heq, relSect, hkind, hdata]
    refine ⟨by cases k <;> rfl, by cases k <;> rfl, by cases k <;> simp [collectSection],
      fun kind => ?_⟩
    by_cases hk : k = kind
    · subst hk
      cases k <;> first | exact .inr ⟨rfl, rfl⟩ | exact .inl rfl
    · cases k <;> cases kind <;> first | exact .inl rfl | exact absurd rfl hk

/-- What the sections change. -/
theorem Efile.foldl_collect (elf : Elf) (efile : Efile) (l : List (ElfScn × ℕ)) :
    (l.foldl (Efile.collect elf) efile).symbols = efile.symbols ∧
    (l.foldl (Efile.collect elf) efile).symbolsShndx = efile.symbolsShndx ∧
    (l.foldl (Efile.collect elf) efile).relocSects =
      efile.relocSects ++ l.filterMap (relSect elf) ∧
    ∀ kind, (l.foldl (Efile.collect elf) efile).shndx kind = efile.shndx kind ∨
      ∃ s ∈ l, kindOf elf s = some kind ∧
        (l.foldl (Efile.collect elf) efile).shndx kind = s.2 := by
  induction l generalizing efile with
  | nil => simp
  | cons s l ih =>
    obtain ⟨hsyms, hsidx, hrels, hshndx⟩ := efile.collect_spec elf s
    obtain ⟨hsyms', hsidx', hrels', hshndx'⟩ := ih (efile.collect elf s)
    rw [List.foldl_cons]
    refine ⟨hsyms'.trans hsyms, hsidx'.trans hsidx, ?_, fun kind => ?_⟩
    · rw [hrels', hrels, List.append_assoc, List.filterMap_cons]
      cases relSect elf s <;> rfl
    · rcases hshndx' kind with heq | ⟨t, ht, hkind, heq⟩
      · rcases hshndx kind with heq' | ⟨hkind, heq'⟩
        · exact .inl (heq.trans heq')
        · exact .inr ⟨s, List.mem_cons_self, hkind, heq.trans heq'⟩
      · exact .inr ⟨t, List.mem_cons_of_mem _ ht, hkind, heq⟩

/-- The program `p` is a stretch of the section `scn` of instructions, with its contents. -/
structure InSection (elf : Elf) (p : BpfProgram) (scn : ElfScn) (data : ElfData) : Prop where
  mem : (scn, p.secIdx) ∈ elf.numbered
  kind : kindOf elf (scn, p.secIdx) = some .progs
  secName : scn.shdr.name = some p.secName
  secData : scn.data = some data
  cnt_pos : 0 < p.secInsnCnt
  bound : p.secInsnOff + p.secInsnCnt ≤ data.bytes.length / bpfInsnSz
  insns : p.insns = (readInsns data.bytes).extract p.secInsnOff (p.secInsnOff + p.secInsnCnt)

theorem InSection.length_insns {elf : Elf} {p : BpfProgram} {scn : ElfScn} {data : ElfData}
    (h : InSection elf p scn data) : p.insns.length = p.secInsnCnt := by
  have := h.bound
  rw [h.insns, List.extract_eq_take_drop, List.length_take, List.length_drop, length_readInsns]
  omega

/-- The object `obj` is `obj₀` once the sections `done` are collected. -/
structure IsCollected (elf : Elf) (done : List (ElfScn × ℕ)) (obj₀ obj : BpfObject) : Prop where
  frame : obj = { obj₀ with
    efile := done.foldl (Efile.collect elf) obj₀.efile
    programs := obj.programs }
  ordered : Ordered obj.programs
  of_mem : ∀ p ∈ obj.programs, p.relocDesc = [] ∧
    ∃ scn data, (scn, p.secIdx) ∈ done ∧ InSection elf p scn data
  covers : ∀ s ∈ done, ∀ data, kindOf elf s = some .progs → s.1.data = some data →
    bpfInsnSz ∣ data.bytes.length ∧ ∀ n < data.bytes.length / bpfInsnSz,
      ∃ p ∈ obj.programs, p.secIdx = s.2 ∧ p.containsInsn n = true

/-- What one section leaves in the object. -/
theorem collectSection_ok {st st' : BpfObject × Option ElfData} {s : ElfScn × ℕ}
    (h : collectSection st s = .ok st') :
    ∃ l, st'.1 = { st.1 with
        efile := st.1.efile.collect st.1.elf s
        programs := st.1.programs ++ l } ∧
      ((kindOf st.1.elf s = some .progs ∧ ∃ name data, s.1.shdr.name = some name ∧
          s.1.data = some data ∧ IsProgsOf s.2 name data.bytes l 0) ∨
        (kindOf st.1.elf s ≠ some .progs ∧ l = [])) := by
  rw [collectSection] at h
  split at h
  · cases h
  rename_i name hname
  split at h
  · rename_i hignore
    cases h
    refine ⟨[], ?_, .inr ⟨?_, rfl⟩⟩
    · cases hdata : s.1.data <;> simp [Efile.collect, hname, hdata, hignore]
    · cases hdata : s.1.data <;> simp [kindOf, hname, hdata, hignore]
  rename_i hignore
  split at h
  · cases h
  rename_i data hdata
  dsimp only at h
  have hkind : kindOf st.1.elf s = some (sectionKind st.1.elf s.1.shdr name data) := by
    simp [kindOf, hname, hdata, hignore]
  have hefile : st.1.efile.collect st.1.elf s = st.1.efile.collectSection
      (sectionKind st.1.elf s.1.shdr name data) s.1.shdr name data s.2 := by
    simp [Efile.collect, hname, hdata, hignore]
  rw [hkind, hefile]
  split at h
  · obtain ⟨-, -, h⟩ := Fold.bind_eq_ok.1 h
    cases h
    rename_i hk
    exact ⟨[], by rw [List.append_nil], .inr ⟨by rw [hk]; decide, rfl⟩⟩
  · obtain ⟨-, -, h⟩ := Fold.bind_eq_ok.1 h
    cases h
    rename_i hk
    exact ⟨[], by rw [List.append_nil], .inr ⟨by rw [hk]; decide, rfl⟩⟩
  · cases h
    rename_i hk
    exact ⟨[], by rw [List.append_nil], .inr ⟨by rw [hk]; decide, rfl⟩⟩
  · obtain ⟨obj, hadd, h⟩ := Fold.bind_eq_ok.1 h
    cases h
    rename_i hk
    obtain ⟨l, rfl, hl⟩ := BpfObject.addPrograms_ok hadd
    exact ⟨l, rfl, .inl ⟨by rw [hk], name, data, hname, hdata, hl⟩⟩
  · cases h
    rename_i hk
    exact ⟨[], by rw [List.append_nil], .inr ⟨by simpa using hk, rfl⟩⟩

/-- One more section is collected. -/
theorem IsCollected.step {elf : Elf} {done : List (ElfScn × ℕ)} {obj₀ : BpfObject}
    {st st' : BpfObject × Option ElfData} {s : ElfScn × ℕ} (helf : obj₀.elf = elf)
    (hdone : done ++ [s] <+: elf.numbered) (h : IsCollected elf done obj₀ st.1)
    (hstep : collectSection st s = .ok st') : IsCollected elf (done ++ [s]) obj₀ st'.1 := by
  obtain ⟨l, hst', hl⟩ := collectSection_ok hstep
  have hstelf : st.1.elf = elf := by rw [h.frame, ← helf]
  rw [hstelf] at hst' hl
  have hprogs : st'.1.programs = st.1.programs ++ l := by rw [hst']
  have hframe : st'.1 = { obj₀ with
      efile := (done ++ [s]).foldl (Efile.collect elf) obj₀.efile
      programs := st'.1.programs } := by
    rw [hst', h.frame, List.foldl_append]
    rfl
  have hlt : ∀ t ∈ done, t.2 < s.2 := by
    have := (elf.pairwise_numbered).sublist hdone.sublist
    rw [List.pairwise_append] at this
    exact fun t ht => this.2.2 t ht s (List.mem_singleton_self s)
  have hmem : s ∈ elf.numbered := hdone.subset (by simp)
  rcases hl with ⟨hkind, name, data, hname, hdata, hl⟩ | ⟨hkind, rfl⟩
  · refine ⟨hframe, ?_, fun p hp => ?_, fun t ht d hk hd => ?_⟩
    · rw [hprogs]
      refine List.pairwise_append.2 ⟨h.ordered, ?_, fun p hp q hq => .inl ?_⟩
      · refine List.Pairwise.imp_of_mem (fun {p q} hp hq hpq => .inr ⟨?_, hpq⟩) hl.tiles.pairwise
        rw [(hl.of_mem p hp).1, (hl.of_mem q hq).1]
      · obtain ⟨-, scn, -, hscn, -⟩ := h.of_mem p hp
        rw [(hl.of_mem q hq).1]
        exact hlt _ hscn
    · rw [hprogs] at hp
      rcases List.mem_append.1 hp with hp | hp
      · obtain ⟨hd, scn, data, hscn, hin⟩ := h.of_mem p hp
        exact ⟨hd, scn, data, List.mem_append_left _ hscn, hin⟩
      · obtain ⟨hidx, hnm, hd, hin⟩ := hl.of_mem p hp
        obtain ⟨-, hpos, hle⟩ := hl.tiles.bounds hp
        obtain ⟨scn, i⟩ := s
        subst hidx
        exact ⟨hd, scn, data, List.mem_append_right _ (List.mem_singleton_self _),
          hmem, hkind, by rw [hname, hnm], hdata, hpos, hle, hin⟩
    · rw [hprogs]
      rcases List.mem_append.1 ht with ht | ht
      · obtain ⟨hdvd, hcov⟩ := h.covers t ht d hk hd
        refine ⟨hdvd, fun n hn => ?_⟩
        obtain ⟨p, hp, hpn⟩ := hcov n hn
        exact ⟨p, List.mem_append_left _ hp, hpn⟩
      · rw [List.mem_singleton.1 ht] at hd ⊢
        cases hdata.symm.trans hd
        refine ⟨hl.dvd, fun n hn => ?_⟩
        obtain ⟨p, hp, hcov⟩ := hl.tiles.exists_mem (Nat.zero_le n) hn
        exact ⟨p, List.mem_append_right _ hp, (hl.of_mem p hp).1,
          BpfProgram.containsInsn_iff.2 hcov⟩
  · rw [List.append_nil] at hprogs
    refine ⟨hframe, hprogs ▸ h.ordered, fun p hp => ?_, fun t ht d hk hd => ?_⟩
    · obtain ⟨hd, scn, data, hscn, hin⟩ := h.of_mem p (hprogs ▸ hp)
      exact ⟨hd, scn, data, List.mem_append_left _ hscn, hin⟩
    · rcases List.mem_append.1 ht with ht | ht
      · rw [hprogs]
        exact h.covers t ht d hk hd
      · rw [List.mem_singleton.1 ht] at hk
        exact absurd hk hkind

/-- All the sections are collected. -/
theorem foldlM_collectSection_ok {obj₀ : BpfObject} {b : Option ElfData}
    {st : BpfObject × Option ElfData} (hprogs : obj₀.programs = [])
    (h : obj₀.elf.numbered.foldlM collectSection (obj₀, b) = .ok st) :
    IsCollected obj₀.elf obj₀.elf.numbered obj₀ st.1 := by
  refine Fold.foldlM_induction (fun done st => IsCollected obj₀.elf done obj₀ st.1) ?_
    (fun done s st st' hpre hP hstep => ?_) h
  · refine ⟨rfl, ?_, ?_, by simp⟩
    · rw [hprogs]
      exact List.Pairwise.nil
    · simp [hprogs]
  · exact IsCollected.step rfl hpre hP hstep

/-- What the symbol table sets in the state of the file. -/
theorem collectSymtab_ok {elf : Elf} {efile : Efile}
    (h : elf.numbered.foldlM collectSymtab ({} : Efile) = .ok efile) :
    efile = { ({} : Efile) with
        symbols := efile.symbols
        symbolsShndx := efile.symbolsShndx
        strtabidx := efile.strtabidx } ∧
      ((efile.symbols = none ∧ efile.symbolsShndx = 0 ∧
          ∀ s ∈ elf.numbered, s.1.shdr.type ≠ shtSymtab) ∨
        ∃ s ∈ elf.numbered, s.1.shdr.type = shtSymtab ∧ efile.symbols = s.1.data ∧
          efile.symbols.isSome ∧ efile.symbolsShndx = s.2 ∧
          ∀ t ∈ elf.numbered, t.1.shdr.type = shtSymtab → t = s) := by
  refine Fold.foldlM_induction (fun done efile =>
    efile = { ({} : Efile) with
        symbols := efile.symbols
        symbolsShndx := efile.symbolsShndx
        strtabidx := efile.strtabidx } ∧
      ((efile.symbols = none ∧ efile.symbolsShndx = 0 ∧
          ∀ s ∈ done, s.1.shdr.type ≠ shtSymtab) ∨
        ∃ s ∈ done, s.1.shdr.type = shtSymtab ∧ efile.symbols = s.1.data ∧
          efile.symbols.isSome ∧ efile.symbolsShndx = s.2 ∧
          ∀ t ∈ done, t.1.shdr.type = shtSymtab → t = s))
    ⟨rfl, .inl ⟨rfl, rfl, by simp⟩⟩ ?_ h
  rintro done s t t' - ⟨hframe, hsym⟩ hstep
  have hsplit : ∀ u ∈ done ++ [s], u ∈ done ∨ u = s := fun u hu => by simpa using hu
  rw [collectSymtab] at hstep
  split at hstep
  · rename_i htype
    split at hstep
    · cases hstep
    rename_i hnone
    split at hstep
    · cases hstep
    rename_i data hdata
    cases hstep
    refine ⟨by rw [hframe], .inr ⟨s, by simp, htype, hdata.symm, rfl, rfl, fun u hu hut => ?_⟩⟩
    rcases hsplit u hu with hu | rfl
    · rcases hsym with ⟨-, -, hno⟩ | ⟨-, -, -, -, hsome, -⟩
      · exact absurd hut (hno u hu)
      · exact absurd hsome hnone
    · rfl
  · rename_i htype
    cases hstep
    refine ⟨hframe, ?_⟩
    rcases hsym with ⟨hn, h0, hno⟩ | ⟨u, hu, hut, hdata, hsome, hidx, huniq⟩
    · refine .inl ⟨hn, h0, fun v hv hvt => ?_⟩
      rcases hsplit v hv with hv | rfl
      · exact hno v hv hvt
      · exact htype hvt
    · refine .inr ⟨u, List.mem_append_left _ hu, hut, hdata, hsome, hidx, fun v hv hvt => ?_⟩
      rcases hsplit v hv with hv | rfl
      · exact huniq v hv hvt
      · exact absurd hvt htype

/-- Every section is collected, in an object without externs, maps and type information. -/
theorem BpfObject.elfCollect_ok {btfNew : Bytes → Except Err Btf} {name : Bytes} {elf : Elf}
    {obj : BpfObject}
    (h : BpfObject.elfCollect btfNew { name := name, elf := elf } = .ok obj) :
    ∃ efile btf, elf.numbered.foldlM collectSymtab ({} : Efile) = .ok efile ∧
      IsCollected elf elf.numbered { name := name, elf := elf, efile := efile, btf := btf }
        obj := by
  obtain ⟨⟨obj₂, btfData⟩, hsecs, h⟩ := Fold.bind_eq_ok.1 h
  obtain ⟨efile, hefile, hsecs⟩ := Fold.bind_eq_ok.1 hsecs
  obtain ⟨⟨obj₁, btfData'⟩, hloop, hsecs⟩ := Fold.bind_eq_ok.1 hsecs
  dsimp only at hsecs
  split at hsecs
  · cases hsecs
  obtain ⟨rfl, rfl⟩ := Prod.mk.inj (Except.ok.inj hsecs)
  dsimp only at h
  have hcoll := foldlM_collectSection_ok rfl hloop
  dsimp only at hcoll
  have hsort : qsort cmpProgs obj₁.programs = obj₁.programs :=
    hcoll.ordered.qsort_eq fun p hp => (hcoll.of_mem p hp).2.elim fun _ ⟨_, _, hin⟩ => hin.cnt_pos
  rw [hsort] at h
  have hbtf : ∃ btf, obj = { obj₁ with btf := btf } := by
    unfold initBtf at h
    split at h
    · split at h
      · cases h
      · cases h
        exact ⟨obj₁.btf, rfl⟩
    · split at h
      · cases h
        exact ⟨_, rfl⟩
      · split at h
        · cases h
        · cases h
          exact ⟨obj₁.btf, rfl⟩
  obtain ⟨btf, rfl⟩ := hbtf
  refine ⟨efile, btf, hefile, ?_, hcoll.ordered, hcoll.of_mem, hcoll.covers⟩
  rw [hcoll.frame]

/-! ## What is opened -/

/-- The object `obj` is what the file `elf` contains, without the descriptors of its
    relocation entries. -/
structure IsRead (heap : Heap) (elf : Elf) (obj : BpfObject) : Prop where
  elf_eq : obj.elf = elf
  efile : ∃ efile₀, elf.numbered.foldlM collectSymtab ({} : Efile) = .ok efile₀ ∧
    obj.efile = elf.numbered.foldl (Efile.collect elf) efile₀
  ordered : Ordered obj.programs
  bare : ∀ p ∈ obj.programs, p.relocDesc = []
  inSection : ∀ p ∈ obj.programs, ∃ scn data, InSection elf p scn data
  covers : ∀ s ∈ elf.numbered, ∀ data, kindOf elf s = some .progs → s.1.data = some data →
    bpfInsnSz ∣ data.bytes.length ∧ ∀ n < data.bytes.length / bpfInsnSz,
      ∃ p ∈ obj.programs, p.secIdx = s.2 ∧ p.containsInsn n = true
  maps : ∃ obj₀ : BpfObject, obj₀.elf = elf ∧ obj₀.efile = obj.efile ∧
    obj₀.externs = obj.externs ∧ obj₀.maps = [] ∧ obj₀.initMaps heap = .ok obj
  length_externs : obj.externs.length < 2 ^ 31

theorem IsRead.relocSects {heap : Heap} {elf : Elf} {obj : BpfObject} (h : IsRead heap elf obj) :
    obj.efile.relocSects = relSects elf := by
  obtain ⟨efile₀, hefile₀, hefile⟩ := h.efile
  rw [hefile, (Efile.foldl_collect elf efile₀ _).2.2.1, (collectSymtab_ok hefile₀).1]
  rfl

theorem IsRead.symbols {heap : Heap} {elf : Elf} {obj : BpfObject} (h : IsRead heap elf obj) :
    obj.efile.symbols = elf.symtab := by
  obtain ⟨efile₀, hefile₀, hefile⟩ := h.efile
  rw [hefile, (Efile.foldl_collect elf efile₀ _).1, Elf.symtab]
  rcases (collectSymtab_ok hefile₀).2 with ⟨hnone, -, hno⟩ | ⟨s, hs, htype, hsyms, -, -, huniq⟩
  · rw [hnone, List.find?_eq_none.2 fun s hs => by simpa using hno s hs]
    rfl
  · cases hfind : elf.numbered.find? fun s => s.1.shdr.type = shtSymtab with
    | none => exact absurd htype (by simpa using List.find?_eq_none.1 hfind s hs)
    | some t =>
      rw [huniq t (List.mem_of_find?_eq_some hfind) (by simpa using List.find?_some hfind), hsyms]
      rfl

/-- The index remembered for a kind of sections is that of one of them. -/
theorem IsRead.shndx {heap : Heap} {elf : Elf} {obj : BpfObject} (h : IsRead heap elf obj)
    (kind : SectionKind) :
    obj.efile.shndx kind = -1 ∨
      ∃ s ∈ elf.numbered, kindOf elf s = some kind ∧ obj.efile.shndx kind = s.2 := by
  obtain ⟨efile₀, hefile₀, hefile⟩ := h.efile
  rw [hefile]
  refine ((Efile.foldl_collect elf efile₀ _).2.2.2 kind).imp_left fun heq => ?_
  rw [heq, (collectSymtab_ok hefile₀).1]
  cases kind <;> rfl

/-- The index remembered for another kind of sections is not that of a program. -/
theorem IsRead.shndx_ne {heap : Heap} {elf : Elf} {obj : BpfObject} (h : IsRead heap elf obj)
    {kind : SectionKind} (hkind : kind ≠ .progs) {p : BpfProgram} (hp : p ∈ obj.programs) :
    obj.efile.shndx kind ≠ p.secIdx := by
  obtain ⟨scn, data, hin⟩ := h.inSection p hp
  rcases h.shndx kind with heq | ⟨⟨scn', i⟩, hs, hk, heq⟩
  · omega
  · rintro hidx
    obtain rfl : p.secIdx = i := by
      rw [heq] at hidx
      exact_mod_cast hidx.symm
    rw [Elf.eq_of_mem_numbered hs hin.mem, hin.kind] at hk
    exact hkind (Option.some.inj hk).symm

/-- An object with kconfig variables has a kconfig map. -/
theorem IsRead.kconfigMapIdx {heap : Heap} {elf : Elf} {obj : BpfObject}
    (h : IsRead heap elf obj) (hext : ∃ ext ∈ obj.externs, ext.isKcfg = true) :
    obj.HasKconfigMap := by
  obtain ⟨obj₀, -, -, hexts, -, hinit⟩ := h.maps
  exact (BpfObject.initMaps_ok hinit).2 (hexts ▸ hext)

/-- Opening a file, up to its relocation entries. -/
def BpfObject.readFile (btfNew : Bytes → Except Err Btf) (heap : Heap) (path : Bytes)
    (elf : Elf) : Except Err BpfObject := do
  elfInit elf
  checkEndianness elf
  let obj ← BpfObject.elfCollect btfNew { name := objName path, elf := elf }
  let obj ← obj.collectExterns
  finalizeBtf obj
  obj.initMaps heap

theorem BpfObject.openFile_eq (btfNew : Bytes → Except Err Btf) (heap : Heap) (path : Bytes)
    (elf : Elf) : BpfObject.openFile btfNew heap path elf =
      BpfObject.readFile btfNew heap path elf >>= fun obj => do
        let obj ← obj.collectRelos heap
        return obj.elfFinish := by
  simp only [BpfObject.openFile, BpfObject.readFile, bind_assoc]

theorem isRead_of_readFile {btfNew : Bytes → Except Err Btf} {heap : Heap} {path : Bytes}
    {elf : Elf} {obj : BpfObject} (h : BpfObject.readFile btfNew heap path elf = .ok obj) :
    IsRead heap elf obj := by
  rw [BpfObject.readFile] at h
  obtain ⟨-, -, h⟩ := Fold.bind_eq_ok.1 h
  obtain ⟨-, -, h⟩ := Fold.bind_eq_ok.1 h
  obtain ⟨obj₂, hcollect, h⟩ := Fold.bind_eq_ok.1 h
  obtain ⟨obj₃, hexterns, h⟩ := Fold.bind_eq_ok.1 h
  obtain ⟨-, -, hmaps⟩ := Fold.bind_eq_ok.1 h
  obtain ⟨efile, btf, hefile, hcoll⟩ := BpfObject.elfCollect_ok hcollect
  obtain ⟨externs, hobj₃, hlen⟩ := BpfObject.collectExterns_ok hexterns
  obtain ⟨l, k, r, hobj, -⟩ := (BpfObject.initMaps_ok hmaps).1
  have hframe := hcoll.frame
  have hprogs : obj.programs = obj₂.programs := by rw [hobj, hobj₃]
  exact {
    elf_eq := by rw [hobj, hobj₃, hframe]
    efile := ⟨efile, hefile, by rw [hobj, hobj₃, hframe]⟩
    ordered := hprogs ▸ hcoll.ordered
    bare := fun p hp => (hcoll.of_mem p (hprogs ▸ hp)).1
    inSection := fun p hp =>
      have ⟨scn, data, _, hin⟩ := (hcoll.of_mem p (hprogs ▸ hp)).2
      ⟨scn, data, hin⟩
    covers := hprogs ▸ hcoll.covers
    maps := ⟨obj₃, by rw [hobj₃, hframe], by rw [hobj], by rw [hobj],
      by rw [hobj₃, hframe], hmaps⟩
    length_externs := by
      rw [hobj, hobj₃]
      refine hlen.elim (fun hnil => ?_) id
      rw [hnil, hframe]
      exact Nat.two_pow_pos 31 }

/-- What an opened object is: what was read, with the descriptors of the relocation entries
    in their programs. -/
theorem BpfObject.openFile_ok {btfNew : Bytes → Except Err Btf} {heap : Heap} {path : Bytes}
    {elf : Elf} {obj : BpfObject} (h : BpfObject.openFile btfNew heap path elf = .ok obj) :
    ∃ obj₁ ps, IsRead heap elf obj₁ ∧ IsRecords heap obj₁ obj₁.progEntries ps ∧
      (∀ sect ∈ obj₁.efile.relocSects, obj₁.relocatesProgs sect = true →
        (nrels sect.1).toNat ≤ sect.2.rels.length) ∧
      obj = { obj₁ with programs := ps.map BpfProgram.sortRelos }.elfFinish := by
  rw [BpfObject.openFile_eq] at h
  obtain ⟨obj₁, hobj₁, h⟩ := Fold.bind_eq_ok.1 h
  obtain ⟨obj₂, hrelos, h⟩ := Fold.bind_eq_ok.1 h
  have hread := isRead_of_readFile hobj₁
  obtain ⟨ps, hps, hobj₂, hnrels⟩ := BpfObject.collectRelos_ok hread.bare hrelos
  refine ⟨obj₁, ps, hread, hps, hnrels, ?_⟩
  rw [← hobj₂]
  exact (Except.ok.inj h).symm

end BpfElfTools.Extractor
