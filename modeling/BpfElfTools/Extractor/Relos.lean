import BpfElfTools.Extractor.Programs
import BpfElfTools.Extractor.Externs
import BpfElfTools.Lib.Fold
import BpfElfTools.Lib.Pairs

/-!
# Relocation descriptors

The relocation entries of the collected sections become descriptors of the
programs they belong to (`BpfObject.collectRelos`).

* `Recorded.of_recordReloc`: what a descriptor recorded for an entry is;
* `collectRelos_ok`: the descriptors of every program are those of the entries
  attributed to it (`IsRecords`), sorted.
-/

namespace BpfElfTools.Extractor

/-! ## Recording an entry -/

/-- `bpf_object__shndx_is_data`. -/
def BpfObject.shndxIsData (obj : BpfObject) (shndx : ℤ) : Bool :=
  shndx = obj.efile.dataShndx ∨ shndx = obj.efile.bssShndx ∨ shndx = obj.efile.rodataShndx

/-- `bpf_object__shndx_is_maps`. -/
def BpfObject.shndxIsMaps (obj : BpfObject) (shndx : ℤ) : Bool :=
  shndx = obj.efile.mapsShndx ∨ shndx = obj.efile.btfMapsShndx

/-- `bpf_object__section_to_libbpf_map_type`. -/
def BpfObject.sectionToLibbpfMapType (obj : BpfObject) (shndx : ℤ) : LibbpfMapType :=
  if shndx = obj.efile.dataShndx then .data
  else if shndx = obj.efile.bssShndx then .bss
  else if shndx = obj.efile.rodataShndx then .rodata
  else if shndx = obj.efile.symbolsShndx then .kconfig
  else .unspec

/-- `bpf_program__record_reloc`, for the instruction `insnIdx` of the program and the symbol
    `sym` that the entry `rel` refers to, in memory that holds `relocDesc`. -/
def recordReloc (obj : BpfObject) (prog : BpfProgram) (relocDesc : RelocDesc)
    (insnIdx : BitVec 32) (sym : GElfSym) (rel : GElfRel) : Except Err RelocDesc :=
  match prog.insns[insnIdx.toNat]? with
  | none => .error .fault
  | some insn =>
    if insn.code = callCode then
      if insn.srcReg ≠ bpfPseudoCall then .error .reloc
      else if sym.shndx = 0 ∨ sym.shndx ≠ obj.efile.textShndx then .error .reloc
      else if sym.value % bpfInsnSz ≠ 0 then .error .reloc
      else .ok { relocDesc with
        processed := false
        type := reloCall
        insnIdx := insnIdx
        symOff := BitVec.ofNat 32 sym.value }
    else if insn.code ≠ lddwCode then .error .reloc
    else if symIsExtern sym then
      match obj.externs.findIdx? (·.symIdx = rel.sym) with
      | none => .error .reloc
      | some i => .ok { relocDesc with
          processed := false
          type := reloExtern
          insnIdx := insnIdx
          symOff := BitVec.ofNat 32 i }
    else if sym.shndx = 0 ∨ shnLoreserve ≤ sym.shndx then .error .reloc
    else if obj.sectionToLibbpfMapType sym.shndx = .unspec then
      if !obj.shndxIsMaps sym.shndx then .error .reloc
      else
        match obj.maps.findIdx? fun map =>
          map.libbpfType = .unspec ∧ map.secIdx = (sym.shndx : ℤ) ∧ map.secOffset = sym.value with
        | none => .error .reloc
        | some mapIdx => .ok { relocDesc with
            processed := false
            type := reloLd64
            insnIdx := insnIdx
            mapIdx := BitVec.ofNat 32 mapIdx
            symOff := 0 }
    else if !obj.shndxIsData sym.shndx then .error .reloc
    else
      match obj.maps.findIdx? fun map =>
        map.libbpfType = obj.sectionToLibbpfMapType sym.shndx with
      | none => .error .reloc
      | some mapIdx => .ok { relocDesc with
          processed := false
          type := reloData
          insnIdx := insnIdx
          mapIdx := BitVec.ofNat 32 mapIdx
          symOff := BitVec.ofNat 32 sym.value }

/-! ## The entries of a section -/

/-- The index, in its section, of the instruction an entry is for, as a `__u32`. -/
def relInsnIdx (rel : GElfRel) : BitVec 32 := BitVec.ofNat 32 (rel.offset / bpfInsnSz)

/-- The body of the loop of `bpf_object__collect_prog_relos`, for the section `secIdx`. -/
def collectProgRelo (heap : Heap) (secIdx : ℕ) (data : ElfData) (obj : BpfObject) (i : ℕ) :
    Except Err BpfObject :=
  match data.rels[i]? with
  | none => .error .format
  | some rel =>
    match obj.efile.symbols.bind (·.syms[rel.sym]?) with
    | none => .error .format
    | some sym =>
      if rel.offset % bpfInsnSz ≠ 0 then .error .format
      else
        match findProgBySecInsn obj.programs secIdx (relInsnIdx rel).toNat with
        | .error err => .error err
        | .ok none => .error .reloc
        | .ok (some p) =>
          match obj.programs[p]? with
          | none => .error .fault
          | some prog => do
            let desc ← recordReloc obj prog (heap.reloc p prog.relocDesc.length)
              (relInsnIdx rel - BitVec.ofNat 32 prog.secInsnOff) sym rel
            return { obj with
              programs := obj.programs.set p { prog with relocDesc := prog.relocDesc ++ [desc] } }

/-- The number of entries that `bpf_object__collect_prog_relos` processes, an `int`. -/
def nrels (shdr : GElfShdr) : ℤ := toInt (shdr.size / shdr.entsize)

/-- `bpf_object__collect_prog_relos`. -/
def collectProgRelos (heap : Heap) (obj : BpfObject) (shdr : GElfShdr) (data : ElfData) :
    Except Err BpfObject :=
  if shdr.name = none ∨ obj.elf.scns[shdr.info]?.bind (·.shdr.name) = none then .error .einval
  else if shdr.entsize = 0 then .error .fault
  else (List.range (nrels shdr).toNat).foldlM (collectProgRelo heap shdr.info data) obj

/-! ## Collecting -/

/-- `cmp_relocs`. -/
def cmpRelocs (a b : RelocDesc) : ℤ :=
  if a.insnIdx ≠ b.insnIdx then if a.insnIdx.toInt < b.insnIdx.toInt then -1 else 1
  else if a.type ≠ b.type then if a.type < b.type then -1 else 1
  else 0

/-- The body of the first loop of `bpf_object__collect_relos`. -/
def collectRelo (heap : Heap) (obj : BpfObject) (sect : GElfShdr × ElfData) :
    Except Err BpfObject :=
  if sect.1.type ≠ shtRel then .error .internal
  else if toInt sect.1.info = obj.efile.stOpsShndx then
    match obj.btf with
    | none => .error .fault
    | some btf => do
      btf.collectStOpsRelos sect.1 sect.2
      return obj
  else if toInt sect.1.info = obj.efile.btfMapsShndx then
    match obj.btf with
    | none => .error .fault
    | some btf => do
      btf.collectMapRelos sect.1 sect.2
      return obj
  else collectProgRelos heap obj sect.1 sect.2

/-- The body of the last loop of `bpf_object__collect_relos`. -/
def BpfProgram.sortRelos (prog : BpfProgram) : BpfProgram :=
  { prog with relocDesc := qsort cmpRelocs prog.relocDesc }

/-- `bpf_object__collect_relos`. -/
def BpfObject.collectRelos (heap : Heap) (obj : BpfObject) : Except Err BpfObject := do
  let obj ← obj.efile.relocSects.foldlM (collectRelo heap) obj
  return { obj with programs := obj.programs.map BpfProgram.sortRelos }

/-! ## What is recorded -/

/-- The descriptor `d` is recorded, in memory that holds `d₀`, for an entry `rel` with the
    symbol `sym` and the instruction `insn`. -/
inductive Recorded (obj : BpfObject) (insn : BpfInsn) (sym : GElfSym) (rel : GElfRel)
    (d₀ d : RelocDesc) : Prop
  | call (hcode : insn.code = callCode) (hsrc : insn.srcReg = bpfPseudoCall)
      (htype : d.type = reloCall) (hmap : d.mapIdx = d₀.mapIdx)
      (hoff : d.symOff = BitVec.ofNat 32 sym.value)
  | ext (i : ℕ) (ext : ExternDesc) (hcode : insn.code = lddwCode)
      (hsym : symIsExtern sym = true) (hext : obj.externs[i]? = some ext)
      (hidx : ext.symIdx = rel.sym) (htype : d.type = reloExtern)
      (hmap : d.mapIdx = d₀.mapIdx) (hoff : d.symOff = BitVec.ofNat 32 i)
  | ld64 (m : ℕ) (map : BpfMap) (hcode : insn.code = lddwCode)
      (hsym : symIsExtern sym = false) (hget : obj.maps[m]? = some map)
      (hunspec : map.libbpfType = .unspec) (hsec : map.secIdx = sym.shndx)
      (hval : map.secOffset = sym.value) (hmaps : obj.shndxIsMaps sym.shndx = true)
      (htype : d.type = reloLd64) (hmap : d.mapIdx = BitVec.ofNat 32 m) (hoff : d.symOff = 0)
  | data (m : ℕ) (map : BpfMap) (hcode : insn.code = lddwCode)
      (hsym : symIsExtern sym = false) (hget : obj.maps[m]? = some map)
      (hkind : map.libbpfType = obj.sectionToLibbpfMapType sym.shndx)
      (hdata : obj.shndxIsData sym.shndx = true)
      (htype : d.type = reloData) (hmap : d.mapIdx = BitVec.ofNat 32 m)
      (hoff : d.symOff = BitVec.ofNat 32 sym.value)

/-- What `bpf_program__record_reloc` records. -/
theorem Recorded.of_recordReloc {obj : BpfObject} {prog : BpfProgram} {d₀ d : RelocDesc}
    {idx : BitVec 32} {sym : GElfSym} {rel : GElfRel}
    (h : recordReloc obj prog d₀ idx sym rel = .ok d) :
    ∃ insn, prog.insns[idx.toNat]? = some insn ∧ d.insnIdx = idx ∧ d.processed = false ∧
      Recorded obj insn sym rel d₀ d := by
  rw [recordReloc] at h
  split at h
  · cases h
  rename_i insn hinsn
  refine ⟨insn, hinsn, ?_⟩
  split at h
  · rename_i hcode
    split at h
    · cases h
    rename_i hsrc
    split at h
    · cases h
    split at h
    · cases h
    cases h
    exact ⟨rfl, rfl, .call hcode (not_not.1 hsrc) rfl rfl rfl⟩
  split at h
  · cases h
  rename_i _ hcode
  split at h
  · rename_i hext
    split at h
    · cases h
    rename_i i hi
    obtain ⟨hlt, hidx, -⟩ := List.findIdx?_eq_some_iff_getElem.1 hi
    cases h
    exact ⟨rfl, rfl, .ext i _ (not_not.1 hcode) hext (List.getElem?_eq_getElem hlt)
      (of_decide_eq_true hidx) rfl rfl rfl⟩
  rename_i hext
  have hext' : symIsExtern sym = false := by simpa using hext
  split at h
  · cases h
  split at h
  · split at h
    · cases h
    rename_i hmaps
    split at h
    · cases h
    rename_i m hm
    obtain ⟨hlt, hmap, -⟩ := List.findIdx?_eq_some_iff_getElem.1 hm
    obtain ⟨hunspec, hsec, hval⟩ := of_decide_eq_true hmap
    cases h
    exact ⟨rfl, rfl, .ld64 m _ (not_not.1 hcode) hext' (List.getElem?_eq_getElem hlt) hunspec hsec
      hval (by simpa using hmaps) rfl rfl rfl⟩
  split at h
  · cases h
  rename_i hdata
  split at h
  · cases h
  rename_i m hm
  obtain ⟨hlt, hmap, -⟩ := List.findIdx?_eq_some_iff_getElem.1 hm
  cases h
  exact ⟨rfl, rfl, .data m _ (not_not.1 hcode) hext' (List.getElem?_eq_getElem hlt)
    (of_decide_eq_true hmap) (by simpa using hdata) rfl rfl rfl⟩

/-- The descriptor of the entry `rel` in the program `prog`, in memory that holds `d₀`. -/
def relocDescOf (obj : BpfObject) (prog : BpfProgram) (d₀ : RelocDesc) (rel : GElfRel) :
    Except Err RelocDesc :=
  match obj.efile.symbols.bind (·.syms[rel.sym]?) with
  | none => .error .format
  | some sym =>
    if rel.offset % bpfInsnSz ≠ 0 then .error .format
    else recordReloc obj prog d₀ (relInsnIdx rel - BitVec.ofNat 32 prog.secInsnOff) sym rel

/-- A relocation entry, with the section it applies to. -/
abbrev Entry := ℕ × GElfRel

/-- The index of the program that an entry is attributed to. -/
def Entry.target (programs : List BpfProgram) (e : Entry) : Option ℕ :=
  match findProgBySecInsn programs e.1 (relInsnIdx e.2).toNat with
  | .ok p => p
  | .error _ => none

/-- The entries attributed to the program `p`. -/
def attributed (programs : List BpfProgram) (p : ℕ) (es : List Entry) : List Entry :=
  es.filter fun e => e.target programs = some p

/-- A program without its descriptors. -/
def BpfProgram.bare (prog : BpfProgram) : BpfProgram := { prog with relocDesc := [] }

/-- The programs `ps` are those of the object with the descriptors of the entries `es`, each
    recorded in its program, in order. -/
structure IsRecords (heap : Heap) (obj : BpfObject) (es : List Entry) (ps : List BpfProgram) :
    Prop where
  bare : ps.map BpfProgram.bare = obj.programs
  found : ∀ e ∈ es, (e.target obj.programs).isSome
  descs : ∀ p prog, ps[p]? = some prog →
    List.Forall₂ (fun ek d => relocDescOf obj prog (heap.reloc p ek.2) ek.1.2 = .ok d)
      (attributed obj.programs p es).zipIdx prog.relocDesc

theorem isRecords_nil {heap : Heap} {obj : BpfObject} (h : ∀ p ∈ obj.programs, p.relocDesc = []) :
    IsRecords heap obj [] obj.programs where
  bare := by
    refine (List.map_congr_left fun p hp => ?_).trans (List.map_id _)
    rw [BpfProgram.bare, ← h p hp]
    rfl
  found e he := absurd he List.not_mem_nil
  descs p prog hp := by
    rw [h prog (List.mem_of_getElem? hp)]
    exact .nil

theorem findProgBySecInsn_bare (programs : List BpfProgram) (secIdx n : ℕ) :
    findProgBySecInsn (programs.map BpfProgram.bare) secIdx n =
      findProgBySecInsn programs secIdx n :=
  findProgBySecInsn_map BpfProgram.bare (fun _ => ⟨rfl, rfl, rfl⟩) programs secIdx n

/-- One more entry is recorded in its program. -/
theorem collectProgRelo_ok {heap : Heap} {obj : BpfObject} {es : List Entry}
    {ps : List BpfProgram} {secIdx i : ℕ} {data : ElfData} {obj' : BpfObject}
    (hps : IsRecords heap obj es ps)
    (h : collectProgRelo heap secIdx data { obj with programs := ps } i = .ok obj') :
    ∃ rel ps', data.rels[i]? = some rel ∧ obj' = { obj with programs := ps' } ∧
      IsRecords heap obj (es ++ [(secIdx, rel)]) ps' := by
  rw [collectProgRelo] at h
  split at h
  · cases h
  rename_i rel hrel
  split at h
  · cases h
  rename_i sym hsym
  split at h
  · cases h
  rename_i hdvd
  split at h
  · cases h
  · cases h
  rename_i p hfind
  split at h
  · cases h
  rename_i prog hprog
  obtain ⟨desc, hdesc, hobj'⟩ := Fold.bind_eq_ok.1 h
  cases hobj'
  have htarget : Entry.target obj.programs (secIdx, rel) = some p := by
    rw [Entry.target, ← hps.bare, findProgBySecInsn_bare]
    dsimp only at hfind ⊢
    rw [hfind]
  refine ⟨rel, _, hrel, rfl, ?_, ?_, ?_⟩
  · -- The program keeps all but its descriptors.
    have hself : (ps.map BpfProgram.bare)[p]? = some prog.bare := by
      rw [List.getElem?_map, hprog]
      rfl
    rw [List.map_set, ← hps.bare]
    exact Pairs.set_self hself
  · intro e he
    rcases List.mem_append.1 he with he | he
    · exact hps.found e he
    · rw [List.mem_singleton.1 he, htarget]
      rfl
  · intro q prog' hq
    rw [List.getElem?_set] at hq
    rw [attributed, List.filter_append]
    split at hq
    · rename_i hpq
      subst hpq
      split at hq
      on_goal 2 => cases hq
      cases hq
      have hold := hps.descs p prog hprog
      have hk := hold.length_eq
      rw [List.length_zipIdx, attributed] at hk
      rw [List.filter_cons_of_pos (by simpa using htarget), List.filter_nil, List.zipIdx_append]
      refine List.rel_append hold (.cons ?_ .nil)
      rw [relocDescOf, hsym]
      dsimp only
      rw [if_neg hdvd, Nat.zero_add, hk]
      exact hdesc
    · rename_i hpq
      have hne : ¬Entry.target obj.programs (secIdx, rel) = some q := by
        rw [htarget]
        exact fun h => hpq (Option.some.inj h)
      rw [List.filter_cons_of_neg (by simpa using hne), List.filter_nil, List.append_nil]
      exact hps.descs q prog' hq

/-- The entries of a section, as far as they are processed. -/
def sectEntries (sect : GElfShdr × ElfData) : List Entry :=
  (sect.2.rels.take (nrels sect.1).toNat).map fun rel => (sect.1.info, rel)

/-- The section of relocation entries applies to programs. -/
def BpfObject.relocatesProgs (obj : BpfObject) (sect : GElfShdr × ElfData) : Bool :=
  toInt sect.1.info ≠ obj.efile.stOpsShndx ∧ toInt sect.1.info ≠ obj.efile.btfMapsShndx

/-- All the entries processed for programs. -/
def BpfObject.progEntries (obj : BpfObject) : List Entry :=
  (obj.efile.relocSects.filter obj.relocatesProgs).flatMap sectEntries

/-- The entries of a section are recorded in their programs; it has as many as are processed. -/
theorem collectProgRelos_ok {heap : Heap} {obj : BpfObject} {es : List Entry}
    {ps : List BpfProgram} {sect : GElfShdr × ElfData} {obj' : BpfObject}
    (hps : IsRecords heap obj es ps)
    (h : collectProgRelos heap { obj with programs := ps } sect.1 sect.2 = .ok obj') :
    ∃ ps', obj' = { obj with programs := ps' } ∧ (nrels sect.1).toNat ≤ sect.2.rels.length ∧
      IsRecords heap obj (es ++ sectEntries sect) ps' := by
  rw [collectProgRelos] at h
  split at h
  · cases h
  split at h
  · cases h
  -- The loop has processed the first `done.length` entries.
  have hloop := Fold.foldlM_induction (fun done t => ∃ ps',
      (∀ i ∈ done, i < sect.2.rels.length) ∧ t = { obj with programs := ps' } ∧
      IsRecords heap obj
        (es ++ (done.filterMap (sect.2.rels[·]?)).map fun rel => (sect.1.info, rel)) ps')
    ⟨ps, by simp, rfl, by simpa using hps⟩ ?_ h
  · obtain ⟨ps', hlen, hobj', hps'⟩ := hloop
    refine ⟨ps', hobj', ?_, ?_⟩
    · by_contra hlt
      have := hlen sect.2.rels.length (List.mem_range.2 (not_le.1 hlt))
      omega
    · rwa [Fold.filterMap_range_getElem?] at hps'
  · rintro done i t t' - ⟨ps₁, hdone, rfl, hps₁⟩ hstep
    obtain ⟨rel, ps₂, hrel, rfl, hps₂⟩ := collectProgRelo_ok hps₁ hstep
    refine ⟨ps₂, fun j hj => ?_, rfl, ?_⟩
    · rcases List.mem_append.1 hj with hj | hj
      · exact hdone j hj
      · rw [List.mem_singleton.1 hj]
        exact (List.getElem?_eq_some_iff.1 hrel).1
    · rw [List.filterMap_append, List.map_append, ← List.append_assoc]
      simpa [hrel] using hps₂

/-- The entries of the collected sections that apply to programs are recorded. -/
theorem foldlM_collectRelo_ok {heap : Heap} {obj obj' : BpfObject}
    (hbare : ∀ p ∈ obj.programs, p.relocDesc = [])
    (h : obj.efile.relocSects.foldlM (collectRelo heap) obj = .ok obj') :
    ∃ ps, obj' = { obj with programs := ps } ∧ IsRecords heap obj obj.progEntries ps ∧
      ∀ sect ∈ obj.efile.relocSects, obj.relocatesProgs sect = true →
        (nrels sect.1).toNat ≤ sect.2.rels.length := by
  refine Fold.foldlM_induction (fun done t => ∃ ps, t = { obj with programs := ps } ∧
      IsRecords heap obj ((done.filter obj.relocatesProgs).flatMap sectEntries) ps ∧
      ∀ sect ∈ done, obj.relocatesProgs sect = true →
        (nrels sect.1).toNat ≤ sect.2.rels.length)
    ⟨obj.programs, rfl, isRecords_nil hbare, by simp⟩ ?_ h
  rintro done sect t t' - ⟨ps, rfl, hps, hdone⟩ hstep
  have hsplit : ∀ s ∈ done ++ [sect], s ∈ done ∨ s = sect := fun s hs => by simpa using hs
  rw [List.filter_append, List.flatMap_append]
  rw [collectRelo] at hstep
  split at hstep
  · cases hstep
  by_cases hprog : obj.relocatesProgs sect = true
  · simp only [BpfObject.relocatesProgs, ne_eq, decide_eq_true_eq] at hprog
    rw [if_neg hprog.1, if_neg hprog.2] at hstep
    obtain ⟨ps', rfl, hlen, hps'⟩ := collectProgRelos_ok hps hstep
    refine ⟨ps', rfl, ?_, fun s hs hrel => ?_⟩
    · rw [List.filter_cons_of_pos (by simpa [BpfObject.relocatesProgs] using hprog)]
      simpa using hps'
    · rcases hsplit s hs with hs | rfl
      · exact hdone s hs hrel
      · exact hlen
  · -- The other sections leave the object as it is.
    have hsame : t' = { obj with programs := ps } := by
      simp only [BpfObject.relocatesProgs, ne_eq, decide_eq_true_eq, not_and_or, not_not] at hprog
      split at hstep
      · split at hstep
        · cases hstep
        · obtain ⟨-, -, ht⟩ := Fold.bind_eq_ok.1 hstep
          exact (Except.ok.inj ht).symm
      · rename_i hne
        rw [if_pos (hprog.resolve_left hne)] at hstep
        split at hstep
        · cases hstep
        · obtain ⟨-, -, ht⟩ := Fold.bind_eq_ok.1 hstep
          exact (Except.ok.inj ht).symm
    refine ⟨ps, hsame, ?_, fun s hs hrel => ?_⟩
    · rw [List.filter_cons_of_neg hprog]
      simpa using hps
    · rcases hsplit s hs with hs | rfl
      · exact hdone s hs hrel
      · exact absurd hrel hprog

/-- The descriptors of every program are those of the entries attributed to it, sorted. -/
theorem BpfObject.collectRelos_ok {heap : Heap} {obj obj' : BpfObject}
    (hbare : ∀ p ∈ obj.programs, p.relocDesc = []) (h : obj.collectRelos heap = .ok obj') :
    ∃ ps, IsRecords heap obj obj.progEntries ps ∧
      obj' = { obj with programs := ps.map BpfProgram.sortRelos } ∧
      ∀ sect ∈ obj.efile.relocSects, obj.relocatesProgs sect = true →
        (nrels sect.1).toNat ≤ sect.2.rels.length := by
  obtain ⟨obj₁, h₁, hobj'⟩ := Fold.bind_eq_ok.1 h
  obtain ⟨ps, rfl, hps, hlen⟩ := foldlM_collectRelo_ok hbare h₁
  exact ⟨ps, hps, (Except.ok.inj hobj').symm, hlen⟩

/-! ## Sorting -/

theorem isCmp_cmpRelocs : Sorting.IsCmp cmpRelocs where
  total a b := by
    have hidx := @BitVec.toInt_inj 32 a.insnIdx b.insnIdx
    have htype := @BitVec.toNat_inj 32 a.type b.type
    simp only [cmpRelocs, BitVec.lt_def]
    split_ifs <;> grind
  trans a b c hab hbc := by
    have hidx := @BitVec.toInt_inj 32 a.insnIdx c.insnIdx
    have htype := @BitVec.toNat_inj 32 a.type c.type
    simp only [cmpRelocs, BitVec.lt_def] at *
    split_ifs at * <;> grind

theorem BpfProgram.sortRelos_sortRelos (prog : BpfProgram) :
    prog.sortRelos.sortRelos = prog.sortRelos := by
  simp only [BpfProgram.sortRelos, qsort, Sorting.sort_sort isCmp_cmpRelocs]

/-- Collecting again, without sections of entries, only sorts again. -/
theorem BpfObject.collectRelos_again {heap : Heap} {obj : BpfObject}
    (h : obj.efile.relocSects = []) :
    obj.collectRelos heap =
      .ok { obj with programs := obj.programs.map BpfProgram.sortRelos } := by
  rw [BpfObject.collectRelos, h]
  rfl

end BpfElfTools.Extractor
