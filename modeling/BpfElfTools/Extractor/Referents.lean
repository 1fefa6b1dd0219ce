import BpfElfTools.Extractor.Attribution

/-!
# What relocation entries refer to

A relocation entry refers to a function, an extern, a legacy or BTF map, or a
place in a data section, by its symbol and by the instruction it is for
(`referent`). The descriptors of an opened object are those of the entries of its
programs (`isOpened_of_openFile`), and say what these refer to (`IsRecorded`).
-/

namespace BpfElfTools.Extractor

/-! ## Referents -/

/-- What a relocation entry refers to, the maps by their numbers. -/
inductive Referent
  | func
  | ext (ext : ExternDesc)
  | map (m : ℕ)
  | data (m : ℕ) (off : BitVec 32)
  deriving DecidableEq, Repr

/-- The number of the map of a referent. -/
def Referent.mapIdx : Referent → Option ℕ
  | map m | data m _ => some m
  | _ => none

/-- The map is the one that the symbol refers to: it has the place of the symbol, or holds the
    data of its section. -/
def BpfObject.isMapOf (obj : BpfObject) (sym : GElfSym) (map : BpfMap) : Bool :=
  if obj.sectionToLibbpfMapType sym.shndx = .unspec then
    map.libbpfType = .unspec ∧ map.secIdx = (sym.shndx : ℤ) ∧ map.secOffset = sym.value
  else map.libbpfType = obj.sectionToLibbpfMapType sym.shndx

/-- The symbol of an entry. -/
def entrySym (elf : Elf) (e : Entry) : Option GElfSym := elf.symtab.bind (·.syms[e.2.sym]?)

/-- The index of the instruction of an entry in its program. -/
def BpfProgram.entryIdx (prog : BpfProgram) (e : Entry) : ℕ :=
  (relInsnIdx e.2).toNat - prog.secInsnOff

/-- What an entry of the program refers to. -/
def referent (elf : Elf) (obj : BpfObject) (prog : BpfProgram) (e : Entry) : Option Referent := do
  let sym ← entrySym elf e
  let insn ← prog.insns[prog.entryIdx e]?
  if insn.code = callCode then return .func
  else if symIsExtern sym then return .ext (← obj.externs.find? (·.symIdx = e.2.sym))
  else
    let m ← obj.maps.findIdx? (obj.isMapOf sym)
    return if obj.sectionToLibbpfMapType sym.shndx = .unspec then .map m
      else .data m (BitVec.ofNat 32 sym.value)

/-- The descriptor `d` says that the instruction `insn` refers to `t`. -/
inductive Describes (obj : BpfObject) (insn : BpfInsn) (d : RelocDesc) : Referent → Prop
  | func (hcode : insn.code = callCode) (htype : d.type = reloCall) : Describes obj insn d .func
  | ext (i : ℕ) (ext : ExternDesc) (hcode : insn.code = lddwCode) (htype : d.type = reloExtern)
      (hget : obj.externs[i]? = some ext) (hoff : d.symOff = BitVec.ofNat 32 i) :
      Describes obj insn d (.ext ext)
  | map (m : ℕ) (hcode : insn.code = lddwCode) (htype : d.type = reloLd64)
      (hlt : m < obj.maps.length) (hmap : d.mapIdx = BitVec.ofNat 32 m) :
      Describes obj insn d (.map m)
  | data (m : ℕ) (off : BitVec 32) (hcode : insn.code = lddwCode) (htype : d.type = reloData)
      (hlt : m < obj.maps.length) (hmap : d.mapIdx = BitVec.ofNat 32 m) (hoff : d.symOff = off) :
      Describes obj insn d (.data m off)

/-- The descriptor `d` is recorded for the entry `e` of the program. -/
def Records (elf : Elf) (obj : BpfObject) (prog : BpfProgram) (e : Entry) (d : RelocDesc) : Prop :=
  ∃ sym d₀, entrySym elf e = some sym ∧
    recordReloc obj prog d₀ (relInsnIdx e.2 - BitVec.ofNat 32 prog.secInsnOff) sym e.2 = .ok d

/-- The descriptor `d` is recorded for the entry `e` of the program, whose instruction `insn`
    refers to `t`, and says so. -/
structure IsRecorded (elf : Elf) (obj : BpfObject) (prog : BpfProgram) (e : Entry) (d : RelocDesc)
    (insn : BpfInsn) (t : Referent) : Prop where
  records : Records elf obj prog e d
  getInsn : prog.insns[prog.entryIdx e]? = some insn
  referent : referent elf obj prog e = some t
  idx : d.insnIdx.toNat = prog.entryIdx e
  processed : d.processed = false
  describes : Describes obj insn d t

/-- What a recorded descriptor says is what its entry refers to. -/
theorem Records.isRecorded {elf : Elf} {obj : BpfObject} {prog : BpfProgram} {e : Entry}
    {d : RelocDesc} (hoff : prog.secInsnOff ≤ (relInsnIdx e.2).toNat)
    (h : Records elf obj prog e d) : ∃ insn t, IsRecorded elf obj prog e d insn t := by
  have hrecords := h
  obtain ⟨sym, d₀, hsym, h⟩ := h
  rw [recordReloc, toNat_sub_ofNat hoff] at h
  have hidx := toNat_sub_ofNat hoff
  split at h
  · cases h
  rename_i insn hinsn
  have hget : prog.insns[prog.entryIdx e]? = some insn := hinsn
  suffices hsuff : ∃ t, referent elf obj prog e = some t ∧ d.insnIdx.toNat = prog.entryIdx e ∧
      d.processed = false ∧ Describes obj insn d t by
    obtain ⟨t, ht, hidx, hprocessed, hdesc⟩ := hsuff
    exact ⟨insn, t, hrecords, hget, ht, hidx, hprocessed, hdesc⟩
  rw [referent, hsym, hget]
  dsimp only [bind, Option.bind]
  split at h
  · rename_i hcode
    rw [if_pos hcode]
    split at h
    · cases h
    split at h
    · cases h
    split at h
    · cases h
    cases h
    exact ⟨.func, rfl, hidx, rfl, .func hcode rfl⟩
  rename_i hcall
  rw [if_neg hcall]
  split at h
  · cases h
  rename_i hcode
  have hcode := not_not.1 hcode
  split at h
  · rename_i hext
    rw [if_pos hext]
    split at h
    · cases h
    rename_i i hi
    obtain ⟨hlt, hsymIdx, hbefore⟩ := List.findIdx?_eq_some_iff_getElem.1 hi
    have hfind : obj.externs.find? (·.symIdx = e.2.sym) = some obj.externs[i] :=
      List.find?_eq_some_iff_getElem.2
        ⟨hsymIdx, i, hlt, rfl, fun j hj => by simpa using hbefore j hj⟩
    cases h
    rw [hfind]
    exact ⟨.ext _, rfl, hidx, rfl, .ext i _ hcode rfl (List.getElem?_eq_getElem hlt) rfl⟩
  rename_i hext
  rw [if_neg hext]
  split at h
  · cases h
  split at h
  · rename_i hunspec
    have hq : obj.isMapOf sym = fun map =>
        decide (map.libbpfType = .unspec ∧ map.secIdx = (sym.shndx : ℤ) ∧
          map.secOffset = sym.value) := by
      funext map
      rw [BpfObject.isMapOf, if_pos hunspec]
    split at h
    · cases h
    split at h
    · cases h
    rename_i m hm
    obtain ⟨hlt, -, -⟩ := List.findIdx?_eq_some_iff_getElem.1 hm
    cases h
    rw [hq, hm]
    dsimp only
    rw [if_pos hunspec]
    exact ⟨.map m, rfl, hidx, rfl, .map m hcode rfl hlt rfl⟩
  rename_i hspec
  have hq : obj.isMapOf sym = fun map =>
      decide (map.libbpfType = obj.sectionToLibbpfMapType sym.shndx) := by
    funext map
    rw [BpfObject.isMapOf, if_neg hspec]
  split at h
  · cases h
  split at h
  · cases h
  rename_i m hm
  obtain ⟨hlt, -, -⟩ := List.findIdx?_eq_some_iff_getElem.1 hm
  cases h
  rw [hq, hm]
  dsimp only
  rw [if_neg hspec]
  exact ⟨.data m _, rfl, hidx, rfl, .data m _ hcode rfl hlt rfl rfl⟩

/-! ## The descriptors of an opened object -/

/-- The entries that are processed for the program. -/
def entriesOf (elf : Elf) (programs : List BpfProgram) (prog : BpfProgram) : List Entry :=
  (((relSects elf).filter (targets programs)).flatMap sectEntries).filter fun e =>
    prog.holds e.1 (relInsnIdx e.2).toNat

/-- The instructions of the program in the file. -/
def elfInsns (elf : Elf) (prog : BpfProgram) : List BpfInsn :=
  match elf.secData prog.secIdx with
  | none => []
  | some data => (readInsns data.bytes).extract prog.secInsnOff (prog.secInsnOff + prog.secInsnCnt)

/-- What is known of an object once its maps are numbered and its relocations collected
    again. -/
structure IsOpened (elf : Elf) (obj : BpfObject) : Prop where
  insns : ∀ p ∈ obj.programs, p.insns = elfInsns elf p ∧ p.insns.length = p.secInsnCnt
  descs : ∀ p ∈ obj.programs, ∃ ds, p.relocDesc = qsort cmpRelocs ds ∧
    List.Forall₂ (Records elf obj p) (entriesOf elf obj.programs p) ds
  fd : ∀ (m : ℕ) (map : BpfMap), obj.maps[m]? = some map → map.fd = m
  length_externs : obj.externs.length < 2 ^ 31
  kconfigMap : (∃ ext ∈ obj.externs, ext.isKcfg = true) → obj.HasKconfigMap

theorem InSection.elfInsns {elf : Elf} {p : BpfProgram} {scn : ElfScn} {data : ElfData}
    (h : InSection elf p scn data) : p.insns = elfInsns elf p := by
  have hdata : elf.secData p.secIdx = some data := by
    rw [Elf.secData, (Elf.mem_numbered.1 h.mem).1]
    exact h.secData
  rw [Extractor.elfInsns, hdata]
  exact h.insns

/-- The object that `extract` relocates. -/
theorem isOpened_of_openFile {btfNew : Bytes → Except Err Btf} {heap heap' : Heap} {path : Bytes}
    {elf : Elf} {obj obj' : BpfObject}
    (hopen : BpfObject.openFile btfNew heap path elf = .ok obj)
    (hagain : obj.setFds.collectRelos heap' = .ok obj') : IsOpened elf obj' := by
  rw [BpfObject.collectRelos_setFds hopen] at hagain
  cases hagain
  obtain ⟨obj₁, ps, hread, hps, hlen, rfl⟩ := BpfObject.openFile_ok hopen
  have hbare : ∀ q ∈ ps, q.bare ∈ obj₁.programs := fun q hq =>
    hps.bare ▸ List.mem_map_of_mem hq
  refine ⟨fun p hp => ?_, fun p hp => ?_, fun m map hm => ?_, hread.length_externs, fun hext => ?_⟩
  · obtain ⟨q, hq, rfl⟩ := List.mem_map.1 hp
    obtain ⟨scn, data, hin⟩ := hread.inSection q.bare (hbare q hq)
    exact ⟨hin.elfInsns, hin.length_insns⟩
  · obtain ⟨q, hq, rfl⟩ := List.mem_map.1 hp
    refine ⟨q.relocDesc, rfl, ?_⟩
    have htgts : targets (obj₁.again ps).programs = targets obj₁.programs := by
      rw [← hps.bare]
      exact (targets_map BpfProgram.sortRelos (fun _ => rfl) ps).trans
        (targets_map BpfProgram.bare (fun _ => rfl) ps).symm
    have hes : entriesOf elf (obj₁.again ps).programs q.sortRelos =
        obj₁.progEntries.filter fun e => q.holds e.1 (relInsnIdx e.2).toNat := by
      rw [progEntries_eq hread hps, entriesOf, htgts]
      rfl
    refine hes ▸ (descs_of_mem hread hps hq).imp fun e d ⟨d₀, hd⟩ => ?_
    obtain ⟨hidx, symbols, sym, hsymbols, hsym, hrec⟩ := relocDescOf_ok hd
    refine ⟨sym, d₀, ?_, ?_⟩
    · rw [entrySym, ← hread.symbols, hsymbols]
      exact hsym
    · rw [hidx] at hrec
      exact (BpfObject.recordReloc_again obj₁ ps q d₀ _ sym e.2).trans hrec
  · rw [BpfObject.setFds, List.getElem?_mapIdx] at hm
    obtain ⟨map₀, -, rfl⟩ := Option.map_eq_some_iff.1 hm
    rfl
  · obtain ⟨m, map, hidx, hget, htype⟩ := hread.kconfigMapIdx hext
    refine ⟨m, { map with fd := m }, hidx, ?_, htype⟩
    rw [BpfObject.setFds, List.getElem?_mapIdx]
    exact congrArg (Option.map _) hget

section

variable {elf : Elf} {obj : BpfObject} {p : BpfProgram} {e : Entry} {d : RelocDesc}

/-- An entry of a program, with a descriptor recorded for it. -/
theorem IsOpened.isRecorded (he : e ∈ entriesOf elf obj.programs p)
    (h : Records elf obj p e d) : ∃ insn t, IsRecorded elf obj p e d insn t :=
  h.isRecorded (BpfProgram.holds_iff.1 (List.mem_filter.1 he).2).2.1

/-- Every entry of a program has a descriptor. -/
theorem IsOpened.exists_desc (hobj : IsOpened elf obj) (hp : p ∈ obj.programs)
    (he : e ∈ entriesOf elf obj.programs p) :
    ∃ d ∈ p.relocDesc, ∃ insn t, IsRecorded elf obj p e d insn t := by
  obtain ⟨ds, hds, hrec⟩ := hobj.descs p hp
  obtain ⟨d, hd, h⟩ := Owners.exists_of_forall₂ hrec he
  exact ⟨d, hds ▸ Sorting.mem_sort.2 hd, isRecorded he h⟩

/-- Every descriptor of a program is that of an entry. -/
theorem IsOpened.exists_entry (hobj : IsOpened elf obj) (hp : p ∈ obj.programs)
    (hd : d ∈ p.relocDesc) :
    ∃ e ∈ entriesOf elf obj.programs p, ∃ insn t, IsRecorded elf obj p e d insn t := by
  obtain ⟨ds, hds, hrec⟩ := hobj.descs p hp
  obtain ⟨e, he, h⟩ := Owners.exists_of_forall₂_right hrec (Sorting.mem_sort.1 (hds ▸ hd))
  exact ⟨e, he, isRecorded he h⟩

end

end BpfElfTools.Extractor
