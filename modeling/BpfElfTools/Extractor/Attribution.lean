import BpfElfTools.Extractor.Dump

/-!
# The attribution of relocation entries

Once the relocations are collected twice, each entry of a section that applies to
programs should have one descriptor, in the program that holds its instruction
(`Attributed`). It has, exactly when the indices of the instructions and the
numbers of the entries fit in the variables for them (`Numbered`).

* `attributed_iff`: the entries of an opened object are attributed if and only if
  they are numbered so;
* `not_attributed`: an entry whose index does not fit is attributed to another
  instruction.
-/

namespace BpfElfTools.Extractor

/-! ## Attributed entries -/

/-- The instruction, in its section, that an entry is for. -/
def Entry.insnIdx (e : Entry) : ℕ := e.2.offset / bpfInsnSz

/-- The program holds the instruction of the entry. -/
def BpfProgram.holdsEntry (prog : BpfProgram) (e : Entry) : Bool := prog.holds e.1 e.insnIdx

/-- The section of entries applies to a section of programs. -/
def targets (programs : List BpfProgram) (sect : GElfShdr × ElfData) : Bool :=
  programs.any (·.secIdx = sect.1.info)

/-- The entries of the collected sections that apply to programs. -/
def entriesTo (elf : Elf) (programs : List BpfProgram) : List Entry :=
  ((relSects elf).filter (targets programs)).flatMap fun sect =>
    sect.2.rels.map fun rel => (sect.1.info, rel)

/-- The descriptor `d` of the program `prog` is that of the entry `e`: it has the index of
    the instruction in the program, and is recorded for the symbol of the entry. -/
structure IsDescOf (obj : BpfObject) (prog : BpfProgram) (e : Entry) (d : RelocDesc) : Prop where
  insnIdx : d.insnIdx.toInt = (e.insnIdx : ℤ) - prog.secInsnOff
  recorded : ∃ symbols sym d₀, obj.elf.symtab = some symbols ∧ symbols.syms[e.2.sym]? = some sym ∧
    recordReloc obj prog d₀ d.insnIdx sym e.2 = .ok d

/-- Each entry has one descriptor, in the one program that holds its instruction; there are
    no other descriptors, and those of a program are in the order of the instructions. -/
structure Attributed (obj : BpfObject) : Prop where
  unique : ∀ e ∈ entriesTo obj.elf obj.programs, obj.programs.countP (·.holdsEntry e) = 1
  descs : ∀ p ∈ obj.programs, ∃ ds,
    List.Forall₂ (IsDescOf obj p) ((entriesTo obj.elf obj.programs).filter p.holdsEntry) ds ∧
      p.relocDesc.Perm ds
  sorted : ∀ p ∈ obj.programs,
    p.relocDesc.Pairwise fun a b => a.insnIdx.toInt ≤ b.insnIdx.toInt

/-- The header of a section says how many entries it has, the index of an instruction in a
    section fits in a `__u32`, and in a program in an `int`. -/
structure Numbered (elf : Elf) (programs : List BpfProgram) : Prop where
  nrels : ∀ sect ∈ relSects elf, targets programs sect = true →
    (nrels sect.1).toNat = sect.2.rels.length
  inSection : ∀ e ∈ entriesTo elf programs, e.insnIdx < 2 ^ 32
  inProgram : ∀ e ∈ entriesTo elf programs, ∀ p ∈ programs, p.holdsEntry e = true →
    e.insnIdx - p.secInsnOff < 2 ^ 31

/-! ## What does not matter -/

/-- Which sections apply to programs depends on the sections of the programs only. -/
theorem targets_map (f : BpfProgram → BpfProgram) (hf : ∀ p, (f p).secIdx = p.secIdx)
    (programs : List BpfProgram) : targets (programs.map f) = targets programs := by
  funext sect
  simp only [targets, List.any_map, Function.comp_def, hf]

theorem entriesTo_map (elf : Elf) (f : BpfProgram → BpfProgram) (hf : ∀ p, (f p).secIdx = p.secIdx)
    (programs : List BpfProgram) : entriesTo elf (programs.map f) = entriesTo elf programs := by
  rw [entriesTo, entriesTo, targets_map f hf]

/-- The descriptors of the programs do not matter for the numbers of the entries. -/
theorem numbered_map (elf : Elf) (f : BpfProgram → BpfProgram) (hsec : ∀ p, (f p).secIdx = p.secIdx)
    (hoff : ∀ p, (f p).secInsnOff = p.secInsnOff) (hholds : ∀ p, (f p).holds = p.holds)
    (programs : List BpfProgram) : Numbered elf (programs.map f) ↔ Numbered elf programs := by
  have htgts := congrFun (targets_map f hsec programs)
  have hes := entriesTo_map elf f hsec programs
  refine ⟨fun h => ⟨fun sect hsect htgt => h.nrels sect hsect (htgts sect ▸ htgt),
      fun e he => h.inSection e (hes ▸ he), fun e he p hp hpe => ?_⟩,
    fun h => ⟨fun sect hsect htgt => h.nrels sect hsect (htgts sect ▸ htgt),
      fun e he => h.inSection e (hes ▸ he), fun e he p hp hpe => ?_⟩⟩
  · rw [← hoff p]
    refine h.inProgram e (hes ▸ he) (f p) (List.mem_map_of_mem hp) ?_
    rwa [BpfProgram.holdsEntry, hholds]
  · obtain ⟨q, hq, rfl⟩ := List.mem_map.1 hp
    rw [hoff q]
    refine h.inProgram e (hes ▸ he) q hq ?_
    rwa [BpfProgram.holdsEntry, hholds] at hpe

@[simp] theorem holds_bare (p : BpfProgram) : p.bare.holds = p.holds := rfl

@[simp] theorem holds_sortRelos (p : BpfProgram) : p.sortRelos.holds = p.holds := rfl

@[simp] theorem holdsEntry_sortRelos (p : BpfProgram) : p.sortRelos.holdsEntry = p.holdsEntry := rfl

/-- The descriptors do not depend on the numbers of the maps. -/
theorem recordReloc_setFds (obj : BpfObject) (prog : BpfProgram) (d : RelocDesc) (idx : BitVec 32)
    (sym : GElfSym) (rel : GElfRel) :
    recordReloc obj.setFds prog d idx sym rel = recordReloc obj prog d idx sym rel := by
  have hfind (q : BpfMap → Bool) (hq : ∀ (map : BpfMap) (fd : ℤ), q { map with fd := fd } = q map) :
      obj.setFds.maps.findIdx? q = obj.maps.findIdx? q := by
    rw [BpfObject.setFds, List.mapIdx_eq_zipIdx_map, List.findIdx?_map]
    nth_rewrite 2 [← List.zipIdx_map_fst 0 obj.maps]
    rw [List.findIdx?_map]
    congr 1
    funext map
    exact hq map.1 map.2
  unfold recordReloc
  rw [hfind _ fun _ _ => rfl, hfind _ fun _ _ => rfl]
  rfl

/-! ## The target of an entry -/

theorem Entry.target_eq_some_iff {programs : List BpfProgram} (hord : Ordered programs) {e : Entry}
    {i : ℕ} : e.target programs = some i ↔
      ∃ prog, programs[i]? = some prog ∧ prog.holds e.1 (relInsnIdx e.2).toNat = true := by
  rw [← findProgBySecInsn_iff hord, Entry.target]
  split
  · rename_i hfind
    rw [hfind, Except.ok.injEq]
  · rename_i hfind
    rw [hfind]
    simp

/-- The entries attributed to a program are those whose instruction it holds, as far as the
    index of the instruction is kept. -/
theorem attributed_eq {programs : List BpfProgram} (hord : Ordered programs) {i : ℕ}
    {prog : BpfProgram} (hi : programs[i]? = some prog) (es : List Entry) :
    attributed programs i es = es.filter fun e => prog.holds e.1 (relInsnIdx e.2).toNat := by
  refine List.filter_congr fun e _ => ?_
  rw [Bool.eq_iff_iff, decide_eq_true_iff, Entry.target_eq_some_iff hord]
  constructor
  · rintro ⟨prog', hi', hholds⟩
    cases hi.symm.trans hi'
    exact hholds
  · exact fun hholds => ⟨prog, hi, hholds⟩

section

variable {heap : Heap} {elf : Elf} {obj : BpfObject} {ps : List BpfProgram}
  (hread : IsRead heap elf obj) (hps : IsRecords heap obj obj.progEntries ps)

include hread

/-- Sections that apply to programs are processed for them. -/
theorem relocatesProgs_of_targets {sect : GElfShdr × ElfData}
    (h : targets obj.programs sect = true) : obj.relocatesProgs sect = true := by
  obtain ⟨p, hp, hidx⟩ := List.any_eq_true.1 h
  obtain ⟨scn, data, hin⟩ := hread.inSection p hp
  have hlt := Elf.lt_of_mem_numbered hin.mem
  have hidx' : sect.1.info = p.secIdx := (of_decide_eq_true hidx).symm
  have hint : toInt sect.1.info = p.secIdx := by
    rw [toInt, hidx', BitVec.toInt_eq_toNat_of_lt (by simp; omega), BitVec.toNat_ofNat,
      Nat.mod_eq_of_lt (by omega)]
  have hops := hread.shndx_ne (show SectionKind.structOps ≠ .progs by decide) hp
  have hmaps := hread.shndx_ne (show SectionKind.btfMaps ≠ .progs by decide) hp
  rw [BpfObject.relocatesProgs, decide_eq_true_iff, hint]
  exact ⟨hops.symm, hmaps.symm⟩

include hps

/-- The sections processed for programs that apply to none have no entries to process. -/
theorem progEntries_eq :
    obj.progEntries = ((relSects elf).filter (targets obj.programs)).flatMap sectEntries := by
  have hfilter : (relSects elf).filter (targets obj.programs) =
      ((relSects elf).filter obj.relocatesProgs).filter (targets obj.programs) := by
    rw [List.filter_filter]
    refine List.filter_congr fun sect _ => ?_
    cases htgt : targets obj.programs sect with
    | false => rfl
    | true => rw [relocatesProgs_of_targets hread htgt]; rfl
  rw [hfilter, Owners.flatMap_filter, BpfObject.progEntries, hread.relocSects]
  intro sect hsect htgt
  refine List.eq_nil_iff_forall_not_mem.2 fun e he => htgt ?_
  have hmem : e ∈ obj.progEntries := by
    rw [BpfObject.progEntries, hread.relocSects]
    exact List.mem_flatMap.2 ⟨sect, hsect, he⟩
  obtain ⟨i, hi⟩ := Option.isSome_iff_exists.1 (hps.found e hmem)
  obtain ⟨p, hp, hholds⟩ := (Entry.target_eq_some_iff hread.ordered).1 hi
  obtain ⟨rel, -, rfl⟩ := List.mem_map.1 he
  exact List.any_eq_true.2 ⟨p, List.mem_of_getElem? hp,
    decide_eq_true (BpfProgram.holds_iff.1 hholds).1⟩

/-- The descriptors of a program are those of the entries processed for it, as far as the
    index of the instruction is kept. -/
theorem descs_of_mem {q : BpfProgram} (hq : q ∈ ps) :
    List.Forall₂ (fun e d => ∃ d₀, relocDescOf obj q d₀ e.2 = .ok d)
      (obj.progEntries.filter fun e => q.holds e.1 (relInsnIdx e.2).toNat) q.relocDesc := by
  obtain ⟨i, hi⟩ := List.mem_iff_getElem?.1 hq
  have hbare : obj.programs[i]? = some q.bare := by
    rw [← hps.bare, List.getElem?_map, hi]
    rfl
  rw [← holds_bare, ← attributed_eq hread.ordered hbare,
    ← List.zipIdx_map_fst 0 (attributed obj.programs i obj.progEntries)]
  exact List.forall₂_map_left_iff.2 ((hps.descs i q hi).imp fun ek d h => ⟨_, h⟩)

/-- Each entry processed is in exactly one program. -/
theorem countP_holds_eq_one {e : Entry} (he : e ∈ obj.progEntries) :
    ps.countP (·.holds e.1 (relInsnIdx e.2).toNat) = 1 := by
  obtain ⟨i, hi⟩ := Option.isSome_iff_exists.1 (hps.found e he)
  obtain ⟨p, hp, hholds⟩ := (Entry.target_eq_some_iff hread.ordered).1 hi
  have hone := hread.ordered.countP_holds (List.mem_of_getElem? hp) hholds
  rwa [← hps.bare, List.countP_map] at hone

/-- There are as many descriptors as entries processed. -/
theorem sum_length_relocDesc :
    (ps.map fun q => q.relocDesc.length).sum = obj.progEntries.length := by
  rw [← Owners.sum_length_filter_of_unique fun e he => countP_holds_eq_one hread hps he]
  exact congrArg List.sum (List.map_congr_left fun q hq =>
    (descs_of_mem hread hps hq).length_eq.symm)

/-- The entries are numbered by the headers if as many are processed as there are. -/
theorem nrels_eq_of_length_eq
    (hlen : ∀ sect ∈ obj.efile.relocSects, obj.relocatesProgs sect = true →
      (nrels sect.1).toNat ≤ sect.2.rels.length)
    (heq : obj.progEntries.length = (entriesTo elf obj.programs).length)
    {sect : GElfShdr × ElfData} (hsect : sect ∈ relSects elf)
    (htgt : targets obj.programs sect = true) : (nrels sect.1).toNat = sect.2.rels.length := by
  have hle : ∀ sect ∈ relSects elf, targets obj.programs sect = true →
      (nrels sect.1).toNat ≤ sect.2.rels.length := fun s hs ht =>
    hlen s (hread.relocSects ▸ hs) (relocatesProgs_of_targets hread ht)
  rw [progEntries_eq hread hps, entriesTo, List.length_flatMap, List.length_flatMap] at heq
  have hsects := Owners.eq_of_sum_eq (fun s hs => ?_) heq sect (List.mem_filter.2 ⟨hsect, htgt⟩)
  · rwa [sectEntries, List.length_map, List.length_map, List.length_take,
      Nat.min_eq_left (hle sect hsect htgt)] at hsects
  · rw [sectEntries, List.length_map, List.length_map, List.length_take]
    exact Nat.min_le_right _ _

/-- All the entries are processed if the headers number them. -/
theorem progEntries_eq_entriesTo
    (hnrels : ∀ sect ∈ relSects elf, targets obj.programs sect = true →
      (nrels sect.1).toNat = sect.2.rels.length) :
    obj.progEntries = entriesTo elf obj.programs := by
  rw [progEntries_eq hread hps, entriesTo]
  refine List.flatMap_congr fun sect hsect => ?_
  obtain ⟨hmem, htgt⟩ := List.mem_filter.1 hsect
  rw [sectEntries, hnrels sect hmem htgt, List.take_length]

end

/-! ## Attribution -/

/-- The index of an instruction in a section is kept, if it fits. -/
theorem toNat_relInsnIdx {e : Entry} (h : e.insnIdx < 2 ^ 32) :
    (relInsnIdx e.2).toNat = e.insnIdx := by
  rw [relInsnIdx, BitVec.toNat_ofNat]
  exact Nat.mod_eq_of_lt h

/-- The descriptor of an entry, with the symbol that it is recorded for. -/
theorem relocDescOf_ok {obj : BpfObject} {prog : BpfProgram} {d₀ d : RelocDesc} {rel : GElfRel}
    (h : relocDescOf obj prog d₀ rel = .ok d) :
    d.insnIdx = relInsnIdx rel - BitVec.ofNat 32 prog.secInsnOff ∧
      ∃ symbols sym, obj.efile.symbols = some symbols ∧ symbols.syms[rel.sym]? = some sym ∧
        recordReloc obj prog d₀ d.insnIdx sym rel = .ok d := by
  rw [relocDescOf] at h
  split at h
  · cases h
  rename_i sym hsym
  split at h
  · cases h
  obtain ⟨-, -, hidx, -, -⟩ := Recorded.of_recordReloc h
  obtain ⟨symbols, hsymbols, hget⟩ := Option.bind_eq_some_iff.1 hsym
  refine ⟨hidx, symbols, sym, hsymbols, hget, ?_⟩
  rw [hidx]
  exact h

/-- The index of an instruction in its program, as far as it is kept. -/
theorem toNat_sub_ofNat {idx : BitVec 32} {off : ℕ} (h : off ≤ idx.toNat) :
    (idx - BitVec.ofNat 32 off).toNat = idx.toNat - off := by
  have := idx.isLt
  rw [BitVec.toNat_sub, BitVec.toNat_ofNat]
  omega

section

variable {heap heap' : Heap} {elf : Elf} {obj : BpfObject} {ps : List BpfProgram}

/-- The object once its relocations are collected a second time. -/
def BpfObject.again (obj : BpfObject) (ps : List BpfProgram) : BpfObject :=
  ({ obj with programs := ps.map BpfProgram.sortRelos } : BpfObject).elfFinish.setFds

theorem BpfObject.again_programs (obj : BpfObject) (ps : List BpfProgram) :
    (obj.again ps).programs = ps.map BpfProgram.sortRelos := rfl

theorem BpfObject.recordReloc_again (obj : BpfObject) (ps : List BpfProgram) (q : BpfProgram)
    (d : RelocDesc) (idx : BitVec 32) (sym : GElfSym) (rel : GElfRel) :
    recordReloc (obj.again ps) q.sortRelos d idx sym rel = recordReloc obj q d idx sym rel :=
  recordReloc_setFds ({ obj with programs := ps.map BpfProgram.sortRelos } : BpfObject).elfFinish
    q d idx sym rel

theorem BpfObject.entriesTo_again (hps : IsRecords heap obj obj.progEntries ps) :
    entriesTo (obj.again ps).elf (obj.again ps).programs = entriesTo obj.elf obj.programs := by
  rw [← hps.bare, entriesTo_map _ BpfProgram.bare fun _ => rfl]
  exact entriesTo_map _ BpfProgram.sortRelos (fun _ => rfl) ps

theorem le_of_cmpRelocs {a b : RelocDesc} (h : cmpRelocs a b ≤ 0) :
    a.insnIdx.toInt ≤ b.insnIdx.toInt := by
  rw [cmpRelocs] at h
  split_ifs at h <;> first | omega | simp_all

/-- Numbered entries are attributed. -/
theorem attributed_of_numbered (hread : IsRead heap elf obj)
    (hps : IsRecords heap obj obj.progEntries ps) (hnum : Numbered elf obj.programs) :
    Attributed (obj.again ps) := by
  have hes := progEntries_eq_entriesTo hread hps hnum.nrels
  have helf : (obj.again ps).elf = elf := hread.elf_eq
  have hentries : entriesTo (obj.again ps).elf (obj.again ps).programs =
      entriesTo elf obj.programs := by
    rw [BpfObject.entriesTo_again hps, hread.elf_eq]
  have hholds (q : BpfProgram) : (entriesTo elf obj.programs).filter q.holdsEntry =
      obj.progEntries.filter fun e => q.holds e.1 (relInsnIdx e.2).toNat := by
    rw [hes]
    refine List.filter_congr fun e he => ?_
    rw [toNat_relInsnIdx (hnum.inSection e he)]
    rfl
  refine ⟨fun e he => ?_, fun p hp => ?_, fun p hp => ?_⟩
  · rw [hentries] at he
    have hone := countP_holds_eq_one hread hps (hes.symm ▸ he)
    rw [toNat_relInsnIdx (hnum.inSection e he)] at hone
    rw [BpfObject.again_programs, List.countP_map]
    exact hone
  · obtain ⟨q, hq, rfl⟩ := List.mem_map.1 hp
    refine ⟨q.relocDesc, ?_, Sorting.perm_sort _ _⟩
    rw [hentries, holdsEntry_sortRelos, hholds]
    refine Owners.forall₂_imp_mem (descs_of_mem hread hps hq) fun e he d ⟨d₀, hd⟩ => ?_
    obtain ⟨hidx, symbols, sym, hsymbols, hsym, hrec⟩ := relocDescOf_ok hd
    refine ⟨?_, symbols, sym, d₀, ?_, hsym, ?_⟩
    · have hmem : e ∈ entriesTo elf obj.programs := hes ▸ (List.mem_filter.1 he).1
      have hq' := BpfProgram.holds_iff.1 (List.mem_filter.1 he).2
      rw [toNat_relInsnIdx (hnum.inSection e hmem)] at hq'
      have hlt : e.insnIdx - q.secInsnOff < 2 ^ 31 :=
        hnum.inProgram e hmem q.bare (hps.bare ▸ List.mem_map_of_mem hq)
          (BpfProgram.holds_iff.2 hq')
      have hnat : d.insnIdx.toNat = e.insnIdx - q.secInsnOff := by
        rw [hidx, toNat_sub_ofNat] <;> rw [toNat_relInsnIdx (hnum.inSection e hmem)]
        exact hq'.2.1
      rw [BitVec.toInt_eq_toNat_of_lt (by omega), hnat, Nat.cast_sub hq'.2.1]
      rfl
    · rw [helf, ← hread.symbols, hsymbols]
    · rw [BpfObject.recordReloc_again, hrec]
  · obtain ⟨q, hq, rfl⟩ := List.mem_map.1 hp
    exact (Sorting.pairwise_sort isCmp_cmpRelocs q.relocDesc).imp le_of_cmpRelocs

/-- Attributed entries are numbered. -/
theorem numbered_of_attributed (hread : IsRead heap elf obj)
    (hps : IsRecords heap obj obj.progEntries ps)
    (hlen : ∀ sect ∈ obj.efile.relocSects, obj.relocatesProgs sect = true →
      (nrels sect.1).toNat ≤ sect.2.rels.length)
    (hatt : Attributed (obj.again ps)) : Numbered elf obj.programs := by
  have hes : entriesTo (obj.again ps).elf (obj.again ps).programs = entriesTo elf obj.programs := by
    rw [BpfObject.entriesTo_again hps, hread.elf_eq]
  have hdesc : ∀ e ∈ entriesTo elf obj.programs, ∀ q ∈ ps, q.holdsEntry e = true →
      ∃ d ∈ q.relocDesc, d.insnIdx.toInt = (e.insnIdx : ℤ) - q.secInsnOff := by
    intro e he q hq hholds
    obtain ⟨ds, hds, hperm⟩ := hatt.descs q.sortRelos (List.mem_map_of_mem hq)
    rw [hes] at hds
    obtain ⟨d, hd, hisdesc⟩ := Owners.exists_of_forall₂ hds (List.mem_filter.2 ⟨he, hholds⟩)
    exact ⟨d, Sorting.mem_sort.1 (hperm.mem_iff.2 hd), hisdesc.insnIdx⟩
  refine ⟨fun sect hsect htgt => nrels_eq_of_length_eq hread hps hlen ?_ hsect htgt,
    fun e he => ?_, fun e he p hp hholds => ?_⟩
  · -- Both numbers are that of all the descriptors.
    rw [← sum_length_relocDesc hread hps, ← hes,
      ← Owners.sum_length_filter_of_unique hatt.unique, BpfObject.again_programs, List.map_map]
    refine congrArg List.sum (List.map_congr_left fun q hq => ?_)
    obtain ⟨ds, hds, hperm⟩ := hatt.descs q.sortRelos (List.mem_map_of_mem hq)
    exact (Sorting.length_sort cmpRelocs q.relocDesc).symm.trans
      (hperm.length_eq.trans hds.length_eq.symm)
  · -- The descriptor of the entry is that of an instruction whose index is kept.
    have hone := hatt.unique e (hes ▸ he)
    obtain ⟨p, hp, hholds⟩ := List.countP_pos_iff.1 (hone ▸ Nat.one_pos)
    obtain ⟨q, hq, rfl⟩ := List.mem_map.1 hp
    obtain ⟨d, hd, hint⟩ := hdesc e he q hq hholds
    obtain ⟨e', he', d₀, hd₀⟩ := Owners.exists_of_forall₂_right (descs_of_mem hread hps hq) hd
    have hq' := BpfProgram.holds_iff.1 (List.mem_filter.1 he').2
    have hnat := toNat_sub_ofNat hq'.2.1
    rw [← (relocDescOf_ok hd₀).1] at hnat
    have hle : d.insnIdx.toInt ≤ d.insnIdx.toNat := by
      rw [BitVec.toInt_eq_toNat_cond]
      split <;> omega
    have hlt := (relInsnIdx e'.2).isLt
    omega
  · obtain ⟨q, hq, rfl⟩ := List.mem_map.1 (hps.bare ▸ hp)
    obtain ⟨d, -, hint⟩ := hdesc e he q hq hholds
    have hlt := @BitVec.toInt_lt 32 d.insnIdx
    change e.insnIdx - q.secInsnOff < 2 ^ 31
    omega

end

/-- After the second collection, the entries are attributed if and only if they are numbered
    by their section headers and the indices of their instructions fit. -/
theorem attributed_iff {btfNew : Bytes → Except Err Btf} {heap heap' : Heap} {path : Bytes}
    {elf : Elf} {obj obj' : BpfObject}
    (hopen : BpfObject.openFile btfNew heap path elf = .ok obj)
    (hagain : obj.setFds.collectRelos heap' = .ok obj') :
    Attributed obj' ↔ Numbered elf obj.programs := by
  rw [BpfObject.collectRelos_setFds hopen] at hagain
  cases hagain
  obtain ⟨obj₁, ps, hread, hps, hlen, rfl⟩ := BpfObject.openFile_ok hopen
  have hprogs : Numbered elf (ps.map BpfProgram.sortRelos) ↔ Numbered elf obj₁.programs := by
    rw [← hps.bare,
      numbered_map elf BpfProgram.sortRelos (fun _ => rfl) (fun _ => rfl) fun _ => rfl,
      numbered_map elf BpfProgram.bare (fun _ => rfl) (fun _ => rfl) fun _ => rfl]
  exact ⟨fun h => hprogs.2 (numbered_of_attributed hread hps hlen h),
    fun h => attributed_of_numbered hread hps (hprogs.1 h)⟩

/-! ## References to maps -/

set_option maxRecDepth 2000 in
/-- The entries of two programs are attributed. -/
theorem attributed_twoProgsElf : ∃ obj obj',
    BpfObject.openFile noBtf zeroHeap (cstr "prog.o") twoProgsElf = .ok obj ∧
      (entriesTo twoProgsElf obj.programs).length = 3 ∧
      obj.setFds.collectRelos zeroHeap = .ok obj' ∧ Attributed obj' := by
  have hopen : ∃ obj, BpfObject.openFile noBtf zeroHeap (cstr "prog.o") twoProgsElf = .ok obj ∧
      Numbered twoProgsElf obj.programs ∧ (entriesTo twoProgsElf obj.programs).length = 3 :=
    ⟨_, rfl, ⟨by decide, by decide, by decide⟩, rfl⟩
  obtain ⟨obj, hopen, hnum, hlen⟩ := hopen
  have hagain := BpfObject.collectRelos_setFds hopen zeroHeap
  exact ⟨obj, _, hopen, hlen, hagain, (attributed_iff hopen hagain).2 hnum⟩

/-- A program that loads the address of a map and returns, with one relocation entry. -/
def loadMapElf (offset : ℕ) : Elf :=
  smallElf "xdp" [⟨lddwCode, 1, 0, 0, 0⟩, .zero, ⟨0x95, 0, 0, 0, 0⟩] [⟨offset, 2⟩]
    [⟨some [], 0, 0, 0, 0, 0⟩, ⟨some (cstr "load"), stbGlobal, sttFunc, 1, 0, 24⟩,
      ⟨some (cstr "counts"), stbGlobal, sttObject, 4, 0, 20⟩]
    (leBytes 4 2 ++ leBytes 4 4 ++ leBytes 4 8 ++ leBytes 4 1 ++ leBytes 4 0)

/-- An entry for the instruction number 2^32 of its section is accepted. -/
theorem not_attributed : ¬∀ (btfNew : Bytes → Except Err Btf) (heap heap' : Heap) (path : Bytes)
    (elf : Elf) (obj obj' : BpfObject), BpfObject.openFile btfNew heap path elf = .ok obj →
      obj.setFds.collectRelos heap' = .ok obj' → Attributed obj' := fun h =>
  have hatt := h noBtf zeroHeap zeroHeap (cstr "prog.o") (loadMapElf (bpfInsnSz * 2 ^ 32)) _ _
    rfl rfl
  absurd (hatt.unique (1, ⟨bpfInsnSz * 2 ^ 32, 2⟩) (by decide)) (by decide)

end BpfElfTools.Extractor
