import BpfElfTools.Extractor.Readback
import BpfElfTools.Extractor.Referents

/-!
# The memory of the descriptors

The array of the descriptors of a program grows by `realloc`, and a descriptor is recorded
over what its slot holds. All its fields are set, but for the map index of a call or of a
reference to an extern: that is what is left of the memory (`openFile_fill`).

* `sameRelTexts_iff`: the dumps of the descriptors do not depend on the memory if and only if
  every entry sets the map index (`SetsMapIdx`);
* `not_sameRelTexts`: the dump of a call does.
-/

namespace BpfElfTools.Extractor

open Text

/-! ## What is left of the memory -/

/-- The descriptor, recorded in memory whose map index is `m`. -/
def RelocDesc.fill (m : BitVec 32) (d : RelocDesc) : RelocDesc :=
  if d.type = reloCall ∨ d.type = reloExtern then { d with mapIdx := m } else d

def BpfProgram.fill (m : BitVec 32) (prog : BpfProgram) : BpfProgram :=
  { prog with relocDesc := prog.relocDesc.map (RelocDesc.fill m) }

/-- The object, its descriptors recorded in memory whose map index is `m`. -/
def BpfObject.fill (m : BitVec 32) (obj : BpfObject) : BpfObject :=
  { obj with programs := obj.programs.map (BpfProgram.fill m) }

theorem recordReloc_fill (obj : BpfObject) (prog : BpfProgram) (d₀ d₁ : RelocDesc)
    (idx : BitVec 32) (sym : GElfSym) (rel : GElfRel) :
    recordReloc (obj.fill d₁.mapIdx) (prog.fill d₁.mapIdx) d₁ idx sym rel =
      (recordReloc obj prog d₀ idx sym rel).map (RelocDesc.fill d₁.mapIdx) := by
  change recordReloc obj prog d₁ idx sym rel = _
  unfold recordReloc
  cases prog.insns[idx.toNat]? with
  | none => rfl
  | some insn =>
    dsimp only
    by_cases hcall : insn.code = callCode
    · rw [if_pos hcall, if_pos hcall]
      split
      · rfl
      split
      · rfl
      split <;> rfl
    rw [if_neg hcall, if_neg hcall]
    by_cases hcode : insn.code ≠ lddwCode
    · rw [if_pos hcode, if_pos hcode]
      rfl
    rw [if_neg hcode, if_neg hcode]
    by_cases hext : symIsExtern sym = true
    · rw [if_pos hext, if_pos hext]
      cases obj.externs.findIdx? (·.symIdx = rel.sym) <;> rfl
    rw [if_neg hext, if_neg hext]
    split
    · rfl
    split
    · split
      · rfl
      split <;> rfl
    · split
      · rfl
      split <;> rfl

/-- Memory in which every descriptor holds `d`. -/
def Heap.withReloc (heap : Heap) (d : RelocDesc) : Heap := ⟨fun _ _ => d, heap.beyond⟩

section

variable (heap heap' : Heap) (d : RelocDesc)

theorem collectProgRelo_fill (secIdx : ℕ) (data : ElfData) (obj : BpfObject) (i : ℕ) :
    collectProgRelo (heap'.withReloc d) secIdx data (obj.fill d.mapIdx) i =
      (collectProgRelo heap secIdx data obj i).map (BpfObject.fill d.mapIdx) := by
  have hfind (n : ℕ) : findProgBySecInsn (obj.fill d.mapIdx).programs secIdx n =
      findProgBySecInsn obj.programs secIdx n :=
    findProgBySecInsn_map (BpfProgram.fill d.mapIdx) (fun _ => ⟨rfl, rfl, rfl⟩) obj.programs
      secIdx n
  have hget (p : ℕ) : (obj.fill d.mapIdx).programs[p]? =
      obj.programs[p]?.map (BpfProgram.fill d.mapIdx) := List.getElem?_map
  have hefile : (obj.fill d.mapIdx).efile = obj.efile := rfl
  unfold collectProgRelo
  simp only [hfind, hget, hefile]
  cases data.rels[i]? with
  | none => rfl
  | some rel =>
    dsimp only
    cases obj.efile.symbols.bind (·.syms[rel.sym]?) with
    | none => rfl
    | some sym =>
      dsimp only
      split
      · rfl
      rcases findProgBySecInsn obj.programs secIdx (relInsnIdx rel).toNat with err | (_ | p)
      · rfl
      · rfl
      dsimp only
      rcases obj.programs[p]? with _ | prog
      · rfl
      · have hrec := recordReloc_fill obj prog (heap.reloc p prog.relocDesc.length) d
          (relInsnIdx rel - BitVec.ofNat 32 prog.secInsnOff) sym rel
        change (recordReloc (obj.fill d.mapIdx) (prog.fill d.mapIdx) d
            (relInsnIdx rel - BitVec.ofNat 32 prog.secInsnOff) sym rel) >>= _ =
          ((recordReloc obj prog (heap.reloc p prog.relocDesc.length)
            (relInsnIdx rel - BitVec.ofNat 32 prog.secInsnOff) sym rel) >>= _).map _
        rw [hrec]
        cases recordReloc obj prog (heap.reloc p prog.relocDesc.length)
            (relInsnIdx rel - BitVec.ofNat 32 prog.secInsnOff) sym rel with
        | error err => rfl
        | ok desc =>
          refine congrArg Except.ok ?_
          simp only [BpfObject.fill, BpfProgram.fill, List.map_set, List.map_append, List.map_cons,
            List.map_nil]

theorem collectRelo_fill (obj : BpfObject) (sect : GElfShdr × ElfData) :
    collectRelo (heap'.withReloc d) (obj.fill d.mapIdx) sect =
      (collectRelo heap obj sect).map (BpfObject.fill d.mapIdx) := by
  have hloop : collectProgRelos (heap'.withReloc d) (obj.fill d.mapIdx) sect.1 sect.2 =
      (collectProgRelos heap obj sect.1 sect.2).map (BpfObject.fill d.mapIdx) := by
    have helf : (obj.fill d.mapIdx).elf = obj.elf := rfl
    unfold collectProgRelos
    rw [helf]
    split
    · rfl
    split
    · rfl
    · exact Fold.foldlM_map _ (fun obj i => collectProgRelo_fill heap heap' d _ _ obj i) _ _
  have hefile : (obj.fill d.mapIdx).efile = obj.efile := rfl
  have hbtf : (obj.fill d.mapIdx).btf = obj.btf := rfl
  unfold collectRelo
  rw [hloop, hefile, hbtf]
  split
  · rfl
  split
  · cases obj.btf with
    | none => rfl
    | some btf => cases h : btf.collectStOpsRelos sect.1 sect.2 <;> simp only [h] <;> rfl
  split
  · cases obj.btf with
    | none => rfl
    | some btf => cases h : btf.collectMapRelos sect.1 sect.2 <;> simp only [h] <;> rfl
  · rfl

@[simp] theorem RelocDesc.type_fill (m : BitVec 32) (d : RelocDesc) : (d.fill m).type = d.type := by
  rw [RelocDesc.fill]
  split <;> rfl

@[simp] theorem RelocDesc.insnIdx_fill (m : BitVec 32) (d : RelocDesc) :
    (d.fill m).insnIdx = d.insnIdx := by
  rw [RelocDesc.fill]
  split <;> rfl

theorem cmpRelocs_fill (m : BitVec 32) (a b : RelocDesc) :
    cmpRelocs (a.fill m) (b.fill m) = cmpRelocs a b := by
  simp only [cmpRelocs, RelocDesc.insnIdx_fill, RelocDesc.type_fill]

/-- Collecting the relocations in other memory. -/
theorem collectRelos_fill (obj : BpfObject) :
    (obj.fill d.mapIdx).collectRelos (heap'.withReloc d) =
      (obj.collectRelos heap).map (BpfObject.fill d.mapIdx) := by
  have hsort (prog : BpfProgram) :
      (prog.fill d.mapIdx).sortRelos = prog.sortRelos.fill d.mapIdx := by
    rw [BpfProgram.sortRelos, BpfProgram.fill, BpfProgram.fill, BpfProgram.sortRelos, qsort,
      Sorting.sort_map (cmpRelocs_fill d.mapIdx)]
  rw [BpfObject.collectRelos, BpfObject.collectRelos]
  change (obj.efile.relocSects.foldlM (collectRelo (heap'.withReloc d))
    (obj.fill d.mapIdx)) >>= _ = _
  rw [Fold.foldlM_map _ (fun obj sect => collectRelo_fill heap heap' d obj sect)]
  cases obj.efile.relocSects.foldlM (collectRelo heap) obj with
  | error err => rfl
  | ok obj' =>
    refine congrArg Except.ok ?_
    simp only [BpfObject.fill, List.map_map]
    congr 1
    exact List.map_congr_left fun prog _ => hsort prog

end

theorem BpfObject.fill_eq_self {obj : BpfObject} (m : BitVec 32)
    (h : ∀ prog ∈ obj.programs, ∀ d ∈ prog.relocDesc, d.fill m = d) : obj.fill m = obj := by
  have hprogs : obj.programs.map (BpfProgram.fill m) = obj.programs := by
    refine (List.map_congr_left fun prog hprog => ?_).trans (List.map_id _)
    rw [BpfProgram.fill, List.map_congr_left (h prog hprog), List.map_id']
    rfl
  rw [BpfObject.fill, hprogs]

/-- Opening a file in other memory. -/
theorem openFile_fill {btfNew : Bytes → Except Err Btf} {heap : Heap} {path : Bytes} {elf : Elf}
    {obj : BpfObject} (hopen : BpfObject.openFile btfNew heap path elf = .ok obj) (d : RelocDesc) :
    BpfObject.openFile btfNew (heap.withReloc d) path elf = .ok (obj.fill d.mapIdx) := by
  rw [BpfObject.openFile_eq] at hopen ⊢
  obtain ⟨obj₁, hread, hopen⟩ := Fold.bind_eq_ok.1 hopen
  obtain ⟨obj₂, hrelos, hfinish⟩ := Fold.bind_eq_ok.1 hopen
  have hbare : obj₁.fill d.mapIdx = obj₁ := by
    refine BpfObject.fill_eq_self _ fun prog hprog e he => ?_
    rw [(isRead_of_readFile hread).bare prog hprog] at he
    exact absurd he List.not_mem_nil
  have hrelos' := collectRelos_fill heap heap d obj₁
  rw [hbare, hrelos] at hrelos'
  -- Only the descriptors are read from other memory.
  have hread' : BpfObject.readFile btfNew (heap.withReloc d) path elf = .ok obj₁ := hread
  cases hfinish
  rw [hread', Fold.ok_bind, hrelos']
  rfl

/-! ## The dumps -/

/-- The dumps of the descriptors, for the programs of the object. -/
def relTexts (obj : BpfObject) : List Bytes :=
  obj.programs.map fun prog => relocsText prog.relocDesc

/-- Relocating a program does not change the dump of its descriptors. -/
theorem relocsText_relocateData {obj : BpfObject} {prog prog' : BpfProgram} {err : Option Err}
    (h : relocateData obj prog = .ok (prog', err)) :
    relocsText prog'.relocDesc = relocsText prog.relocDesc := by
  have hloop (insns : List BpfInsn) (relos : List RelocDesc) : ∀ insns' relos' err,
      relocateLoop obj insns relos = .ok (insns', relos', err) →
        relos'.map (fun d => { d with processed := false }) =
          relos.map fun d => { d with processed := false } := by
    induction relos generalizing insns with
    | nil =>
      intro insns' relos' err h
      cases h
      rfl
    | cons relo relos ih =>
      intro insns' relos' err h
      rw [relocateLoop] at h
      split at h
      · cases h
      · cases h
        rfl
      · rename_i insns₁ _
        obtain ⟨⟨insns₂, relos₂, err₂⟩, hrest, h⟩ := Fold.bind_eq_ok.1 h
        cases h
        rw [List.map_cons, List.map_cons, ih insns₁ _ _ _ hrest, RelocDesc.done]
        split <;> rfl
  -- A line does not show whether the descriptor has been processed.
  have htext (relos : List RelocDesc) :
      relocsText (relos.map fun d => { d with processed := false }) = relocsText relos := by
    rw [relocsText, relocsText, List.zipIdx_map, List.map_map]
    rfl
  obtain ⟨⟨insns', relos', err'⟩, hdone, h⟩ := Fold.bind_eq_ok.1 h
  cases h
  rw [← htext, hloop _ _ _ _ _ hdone, htext]

/-- No entry is for a call or refers to an extern. -/
def SetsMapIdx (elf : Elf) (obj : BpfObject) : Prop :=
  ∀ prog ∈ obj.programs, ∀ e ∈ entriesOf elf obj.programs prog, ∀ sym insn,
    entrySym elf e = some sym → prog.insns[prog.entryIdx e]? = some insn →
      insn.code ≠ callCode ∧ symIsExtern sym = false

section

variable {btfNew : Bytes → Except Err Btf} {heap : Heap} {path : Bytes} {elf : Elf}
  {obj : BpfObject}

theorem setsMapIdx_iff (hopen : BpfObject.openFile btfNew heap path elf = .ok obj) :
    SetsMapIdx elf obj ↔
      ∀ prog ∈ obj.programs, ∀ d ∈ prog.relocDesc, ¬(d.type = reloCall ∨ d.type = reloExtern) := by
  have hobj := isOpened_of_openFile hopen (BpfObject.collectRelos_setFds hopen heap)
  -- What is recorded for an entry of a program.
  have hrec {prog e d insn t} (h : IsRecorded elf obj.setFds prog e d insn t)
      (he : e ∈ entriesOf elf obj.programs prog) : ∃ sym d₀, entrySym elf e = some sym ∧
        Recorded obj.setFds insn sym e.2 d₀ d := by
    obtain ⟨sym, d₀, hsym, hrecords⟩ := h.records
    obtain ⟨insn', hget, -, -, hrecorded⟩ := Recorded.of_recordReloc hrecords
    have hoff := (BpfProgram.holds_iff.1 (List.mem_filter.1 he).2).2.1
    rw [toNat_sub_ofNat hoff] at hget
    cases hget.symm.trans h.getInsn
    exact ⟨sym, d₀, hsym, hrecorded⟩
  constructor
  · rintro hsets prog hprog d hd htype
    obtain ⟨e, he, insn, t, h⟩ := hobj.exists_entry hprog hd
    obtain ⟨sym, d₀, hsym, hrecorded⟩ := hrec h he
    obtain ⟨hcall, hext⟩ := hsets prog hprog e he sym insn hsym h.getInsn
    cases hrecorded with
    | call hcode => exact hcall hcode
    | ext _ _ _ hext' => exact absurd (hext.symm.trans hext') (by decide)
    | ld64 _ _ _ _ _ _ _ _ _ htype' =>
      exact htype.elim (fun h => absurd (htype'.symm.trans h) (by decide))
        fun h => absurd (htype'.symm.trans h) (by decide)
    | data _ _ _ _ _ _ _ htype' =>
      exact htype.elim (fun h => absurd (htype'.symm.trans h) (by decide))
        fun h => absurd (htype'.symm.trans h) (by decide)
  · intro htypes prog hprog e he sym insn hsym hget
    obtain ⟨d, hd, insn', t, h⟩ := hobj.exists_desc hprog he
    obtain ⟨sym', d₀, hsym', hrecorded⟩ := hrec h he
    cases hsym.symm.trans hsym'
    cases hget.symm.trans h.getInsn
    cases hrecorded with
    | call _ _ htype => exact absurd (.inl htype) (htypes prog hprog d hd)
    | ext _ _ _ _ _ _ htype => exact absurd (.inr htype) (htypes prog hprog d hd)
    | ld64 _ _ hcode hext =>
      exact ⟨fun hcall => absurd (hcode.symm.trans hcall) (by decide), hext⟩
    | data _ _ hcode hext =>
      exact ⟨fun hcall => absurd (hcode.symm.trans hcall) (by decide), hext⟩

end

/-- The length of a line, which is not cut. -/
theorem length_relocLine (i : ℕ) (d : RelocDesc) : (relocLine i d).length =
    (snprintf 32 (relocName i)).length + (decimalInt d.type.toInt).length +
      (decimal d.insnIdx.toNat).length + (decimal d.mapIdx.toNat).length +
        (decimal d.symOff.toNat).length + 50 := by
  have hname : (snprintf 32 (relocName i)).length ≤ 31 := List.length_take_le _ _
  have htype := length_decimalInt_toInt_le d.type
  have hinsn := length_decimal_toNat_le d.insnIdx
  have hmap := length_decimal_toNat_le d.mapIdx
  have hsym := length_decimal_toNat_le d.symOff
  have hlits : (cstr " \x7b type = ").length = 10 ∧ (cstr ", insn_idx = ").length = 13 ∧
      (cstr ", map_idx = ").length = 12 ∧ (cstr ", sym_off = ").length = 12 ∧
      (cstr " \x7d\n").length = 3 := ⟨rfl, rfl, rfl, rfl, rfl⟩
  change (snprintf 128 (snprintf 32 (relocName i) ++ _ ++ _ ++ _ ++ _ ++ _ ++ _ ++ _ ++ _ ++
    _)).length = _
  rw [snprintf_of_lt]
  all_goals
    simp only [List.length_append]
    omega

/-- A call or a reference to an extern is dumped with what is left of the memory. -/
theorem length_relocsText_fill_lt {relocs : List RelocDesc}
    (h : ∃ d ∈ relocs, d.type = reloCall ∨ d.type = reloExtern) :
    (relocsText (relocs.map (RelocDesc.fill 0))).length <
      (relocsText (relocs.map (RelocDesc.fill 10))).length := by
  have hlen (m : BitVec 32) : (relocsText (relocs.map (RelocDesc.fill m))).length =
      (relocs.zipIdx.map fun r => (relocLine r.2 (r.1.fill m)).length).sum := by
    rw [relocsText, List.length_flatten, List.zipIdx_map, List.map_map, List.map_map]
    rfl
  have hdigits : (decimal (0 : BitVec 32).toNat).length = 1 ∧
      (decimal (10 : BitVec 32).toNat).length = 2 := by decide
  rw [hlen, hlen]
  obtain ⟨d, hd, htype⟩ := h
  obtain ⟨i, hi⟩ := List.mem_iff_getElem?.1 hd
  refine List.sum_lt_sum _ _ (fun r _ => ?_) ⟨(d, i), List.mk_mem_zipIdx_iff_getElem?.2 hi, ?_⟩
  · simp only [length_relocLine, RelocDesc.fill]
    split
    · simp only
      omega
    · rfl
  · simp only [length_relocLine, RelocDesc.fill, if_pos htype]
    omega

section

variable {btfNew : Bytes → Except Err Btf} {heap : Heap} {path : Bytes} {elf : Elf}
  {obj : BpfObject}

/-- The dumps of the descriptors are the same whatever the memory of the descriptors holds. -/
def SameRelTexts (btfNew : Bytes → Except Err Btf) (heap : Heap) (path : Bytes) (elf : Elf) :
    Prop :=
  ∀ heap₁ heap₂ obj₁ obj₂, heap₁.beyond = heap.beyond → heap₂.beyond = heap.beyond →
    BpfObject.openFile btfNew heap₁ path elf = .ok obj₁ →
    BpfObject.openFile btfNew heap₂ path elf = .ok obj₂ → relTexts obj₁ = relTexts obj₂

/-- A call or a reference to an extern shows what its memory holds: here two memories whose map
    indices have different numbers of digits. -/
theorem not_sameRelTexts_of_type (hopen : BpfObject.openFile btfNew heap path elf = .ok obj)
    {prog : BpfProgram} (hprog : prog ∈ obj.programs)
    (hd : ∃ d ∈ prog.relocDesc, d.type = reloCall ∨ d.type = reloExtern) :
    ¬SameRelTexts btfNew heap path elf := by
  intro hsame
  have hopen₀ := openFile_fill hopen ⟨0, 0, 0, 0, false⟩
  have hopen₁ := openFile_fill hopen ⟨0, 0, 10, 0, false⟩
  have h := hsame (heap.withReloc _) (heap.withReloc _) _ _ rfl rfl hopen₀ hopen₁
  simp only [relTexts, BpfObject.fill, List.map_map] at h
  have htexts := List.map_inj_left.1 h prog hprog
  exact absurd (congrArg List.length htexts) (length_relocsText_fill_lt hd).ne

/-- The object does not depend on the memory of the descriptors if every entry sets the map
    index. -/
theorem eq_of_setsMapIdx (hopen : BpfObject.openFile btfNew heap path elf = .ok obj)
    (hsets : SetsMapIdx elf obj) {heap' : Heap} {obj' : BpfObject}
    (hbeyond : heap'.beyond = heap.beyond)
    (hopen' : BpfObject.openFile btfNew heap' path elf = .ok obj') : obj' = obj := by
  have htypes := (setsMapIdx_iff hopen).1 hsets
  have hheap (d : RelocDesc) : heap'.withReloc d = heap.withReloc d := by
    rw [Heap.withReloc, hbeyond]
    rfl
  have hopen₀ := openFile_fill hopen' ⟨0, 0, 0, 0, false⟩
  rw [hheap, openFile_fill hopen] at hopen₀
  have heq : obj.fill 0 = obj'.fill 0 := Except.ok.inj hopen₀
  have hself : obj.fill 0 = obj := BpfObject.fill_eq_self 0 fun prog hprog d hd => by
    rw [RelocDesc.fill, if_neg (htypes prog hprog d hd)]
  have hself' : obj'.fill 0 = obj' := BpfObject.fill_eq_self 0 fun prog hprog d hd => by
    have hprog' : prog.fill 0 ∈ obj.programs := by
      rw [← hself, heq]
      exact List.mem_map_of_mem hprog
    have htype := htypes _ hprog' _ (List.mem_map_of_mem hd)
    rw [RelocDesc.type_fill] at htype
    rw [RelocDesc.fill, if_neg htype]
  rw [← hself', ← heq, hself]

/-- The dumps of the descriptors do not depend on the memory if and only if every entry sets
    the map index. -/
theorem sameRelTexts_iff (hopen : BpfObject.openFile btfNew heap path elf = .ok obj) :
    SameRelTexts btfNew heap path elf ↔ SetsMapIdx elf obj := by
  constructor
  · intro hsame
    rw [setsMapIdx_iff hopen]
    intro prog hprog d hd htype
    exact not_sameRelTexts_of_type hopen hprog ⟨d, hd, htype⟩ hsame
  · intro hsets heap₁ heap₂ obj₁ obj₂ hbeyond₁ hbeyond₂ hopen₁ hopen₂
    rw [eq_of_setsMapIdx hopen hsets hbeyond₁ hopen₁, eq_of_setsMapIdx hopen hsets hbeyond₂ hopen₂]

end

/-! ## Maps and a call -/

set_option maxRecDepth 2000 in
/-- The dumps of two programs with references to maps do not depend on the memory. -/
theorem sameRelTexts_twoProgsElf : SameRelTexts noBtf zeroHeap (cstr "prog.o") twoProgsElf := by
  have hopen : ∃ obj, BpfObject.openFile noBtf zeroHeap (cstr "prog.o") twoProgsElf = .ok obj ∧
      ∀ prog ∈ obj.programs, ∀ e ∈ entriesOf twoProgsElf obj.programs prog,
        ∀ sym ∈ entrySym twoProgsElf e, ∀ insn ∈ prog.insns[prog.entryIdx e]?,
          insn.code ≠ callCode ∧ symIsExtern sym = false := ⟨_, rfl, by decide⟩
  obtain ⟨obj, hopen, hsets⟩ := hopen
  exact (sameRelTexts_iff hopen).2 fun prog hprog e he sym insn hsym hinsn =>
    hsets prog hprog e he sym hsym insn hinsn

/-- A program that calls itself, by a relocation entry. -/
def callElf : Elf :=
  smallElf ".text" [⟨callCode, 0, bpfPseudoCall, 0, 0⟩, ⟨0x95, 0, 0, 0, 0⟩] [⟨0, 1⟩]
    [⟨some [], 0, 0, 0, 0, 0⟩, ⟨some (cstr "again"), stbGlobal, sttFunc, 1, 0, 16⟩,
      ⟨some (cstr "counts"), stbGlobal, sttObject, 4, 0, 20⟩]
    (leBytes 4 2 ++ leBytes 4 4 ++ leBytes 4 8 ++ leBytes 4 1 ++ leBytes 4 0)

/-- The dump of a call shows what is left of the memory. -/
theorem not_sameRelTexts : ¬∀ (btfNew : Bytes → Except Err Btf) (heap : Heap) (path : Bytes)
    (elf : Elf), SameRelTexts btfNew heap path elf := by
  intro h
  have hopen : ∃ obj, BpfObject.openFile noBtf zeroHeap (cstr "prog.o") callElf = .ok obj ∧
      ∃ prog ∈ obj.programs, ∃ d ∈ prog.relocDesc, d.type = reloCall ∨ d.type = reloExtern :=
    ⟨_, rfl, _, List.mem_cons_self, _, List.mem_cons_self, by decide⟩
  obtain ⟨obj, hopen, prog, hprog, hd⟩ := hopen
  exact not_sameRelTexts_of_type hopen hprog hd (h _ _ _ _)

end BpfElfTools.Extractor
