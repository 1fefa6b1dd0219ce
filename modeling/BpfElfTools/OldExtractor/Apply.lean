import BpfElfTools.Lib.Writes
import BpfElfTools.OldExtractor.Maps

/-!
# The relocations of the old extractor

The entries of a section are applied one after the other, in place, until one
is found to be invalid. What an entry asks for can be told beforehand, as
the entries only change the register and the immediate of the instructions.

* `parseReloAndApply_eq_true`: when all the entries are applied (`applied`);
* `getElem?_applied`: an instruction is up to the last entry for it;
* `parseReloAndApply_eq_false`: what is left of a section with an invalid entry;
* `parseReloAndApply_rank`: the descriptors are the ranks of the offsets, the section of a symbol
  being of no account;
* `parseReloAndApply_resolved_iff`: when each entry is resolved to the map that it names.
-/

namespace BpfElfTools.OldExtractor

/-! ## Entries -/

/-- The instruction that an entry is for (`insn_idx`). -/
def relIdx (rel : GElfRel) : ℕ := rel.offset / bpfInsnSz % 2 ^ 32

/-- The map that an entry refers to: the first one whose offset is the value of the symbol. -/
def refMap (symbols : ElfData) (maps : List BpfMapData) (rel : GElfRel) : Option BpfMapData :=
  symbols.syms[rel.sym]?.bind fun sym => maps.find? fun map => map.elfOffset = sym.value

/-- The descriptor that an entry asks for. -/
def refFd (symbols : ElfData) (maps : List BpfMapData) (rel : GElfRel) : ℤ :=
  (refMap symbols maps rel).elim (-1) BpfMapData.fd

/-- The instruction, which loads the map of a descriptor now. -/
def loadFd (fd : ℤ) (insn : BpfInsn) : BpfInsn :=
  { insn with srcReg := bpfPseudoMapFd, imm := BitVec.ofInt 32 fd }

/-- What is left of the instruction of an entry that turns out to be invalid. -/
def spoil (insn : BpfInsn) : BpfInsn :=
  if insn.IsLddw then { insn with srcReg := bpfPseudoMapFd } else insn

/-- The entry is for a `lddw`, and refers to a map. -/
structure Applicable (symbols : ElfData) (maps : List BpfMapData) (insns : List BpfInsn)
    (rel : GElfRel) : Prop where
  code : (insns.map BpfInsn.code)[relIdx rel]? = some lddwCode
  map : (refMap symbols maps rel).isSome

instance (symbols : ElfData) (maps : List BpfMapData) (insns : List BpfInsn) :
    DecidablePred (Applicable symbols maps insns) := fun rel =>
  decidable_of_iff ((insns.map BpfInsn.code)[relIdx rel]? = some lddwCode ∧
    (refMap symbols maps rel).isSome) ⟨fun ⟨h₁, h₂⟩ => ⟨h₁, h₂⟩, fun ⟨h₁, h₂⟩ => ⟨h₁, h₂⟩⟩

/-- The entry is found to be invalid: it is for another instruction, or its symbol is at the offset
    of none of the maps. -/
def Rejected (symbols : ElfData) (maps : List BpfMapData) (insns : List BpfInsn) (rel : GElfRel) :
    Prop :=
  ∃ code, (insns.map BpfInsn.code)[relIdx rel]? = some code ∧
    (code ≠ lddwCode ∨ maps = [] ∨
      ∃ sym, symbols.syms[rel.sym]? = some sym ∧ ∀ map ∈ maps, map.elfOffset ≠ sym.value)

/-- The instructions, once the entries `rels` have been applied to them. -/
def applied (symbols : ElfData) (maps : List BpfMapData) (rels : List GElfRel)
    (insns : List BpfInsn) : List BpfInsn :=
  Writes.run relIdx (fun rel => loadFd (refFd symbols maps rel)) rels insns

section

variable {symbols data : ElfData} {maps : List BpfMapData} {insns insns' : List BpfInsn}

/-- What an entry asks for depends on the codes of the instructions only. -/
theorem Applicable.congr (h : insns.map BpfInsn.code = insns'.map BpfInsn.code) {rel : GElfRel} :
    Applicable symbols maps insns rel ↔ Applicable symbols maps insns' rel :=
  ⟨fun ⟨hcode, hmap⟩ => ⟨h ▸ hcode, hmap⟩, fun ⟨hcode, hmap⟩ => ⟨h ▸ hcode, hmap⟩⟩

theorem Rejected.congr (h : insns.map BpfInsn.code = insns'.map BpfInsn.code) {rel : GElfRel} :
    Rejected symbols maps insns rel ↔ Rejected symbols maps insns' rel := by
  rw [Rejected, Rejected, h]

theorem map_code_applied (rels : List GElfRel) :
    (applied symbols maps rels insns).map BpfInsn.code = insns.map BpfInsn.code :=
  Writes.map_run (f := fun rel => loadFd (refFd symbols maps rel)) (fun _ _ => rfl) rels insns

theorem length_applied (rels : List GElfRel) :
    (applied symbols maps rels insns).length = insns.length := Writes.length_run rels insns

/-- Writing an instruction that has been read. -/
theorem set_eq_modify {α : Type*} {l : List α} {k : ℕ} {a : α} (h : l[k]? = some a) (f : α → α) :
    l.set k (f a) = l.modify k f := by
  apply List.ext_getElem?
  intro j
  rw [List.getElem?_set', List.getElem?_modify]
  by_cases hj : k = j
  · rw [if_pos hj, ← hj, h]
    simp
  · rw [if_neg hj]
    simp [hj]

/-- The outcome of an entry for an instruction, if there is one. -/
theorem applyEntry_of_insn {i : ℕ} {rel : GElfRel} {insn : BpfInsn}
    (hrel : data.rels[i]? = some rel) (hinsn : insns[relIdx rel]? = some insn) :
    applyEntry data symbols maps insns i =
      if insn.code ≠ lddwCode then .ok (false, insns)
      else if maps = [] then .ok (false, insns.modify (relIdx rel) spoil)
      else
        match symbols.syms[rel.sym]? with
        | none => .error .uninit
        | some sym =>
          match maps.find? fun map => map.elfOffset = sym.value with
          | some map => .ok (true, insns.modify (relIdx rel) (loadFd map.fd))
          | none => .ok (false, insns.modify (relIdx rel) spoil) := by
  rw [applyEntry, hrel]
  dsimp only
  rw [show rel.offset / bpfInsnSz % 2 ^ 32 = relIdx rel from rfl, hinsn]
  dsimp only
  split
  · rfl
  · rename_i hcode
    have hspoil : spoil insn = { insn with srcReg := bpfPseudoMapFd } :=
      if_pos (not_not.1 hcode)
    rw [← set_eq_modify hinsn spoil, hspoil]
    split
    · rfl
    · rcases symbols.syms[rel.sym]? with _ | sym
      · rfl
      · dsimp only
        rcases hmap : maps.find? fun map => map.elfOffset = sym.value with _ | map
        · rw [hmap]
        · rw [hmap]
          dsimp only
          rw [← set_eq_modify hinsn (loadFd map.fd)]
          rfl

/-- An entry is applied exactly if it can be, and it changes one instruction then. -/
theorem applyEntry_eq_true {i : ℕ} : applyEntry data symbols maps insns i = .ok (true, insns') ↔
    ∃ rel, data.rels[i]? = some rel ∧ Applicable symbols maps insns rel ∧
      insns' = insns.modify (relIdx rel) (loadFd (refFd symbols maps rel)) := by
  rcases hrel : data.rels[i]? with _ | rel
  · rw [applyEntry, hrel]
    exact ⟨fun h => (by cases h), fun ⟨_, h, _⟩ => (by cases h)⟩
  rcases hinsn : insns[relIdx rel]? with _ | insn
  · have hcode : (insns.map BpfInsn.code)[relIdx rel]? = none := by
      rw [List.getElem?_map, hinsn]
      rfl
    rw [applyEntry, hrel]
    dsimp only
    rw [show rel.offset / bpfInsnSz % 2 ^ 32 = relIdx rel from rfl, hinsn]
    refine ⟨fun h => (by cases h), fun ⟨_, h, happ, _⟩ => ?_⟩
    obtain rfl := Option.some.inj h
    exact absurd (hcode.symm.trans happ.code) (by simp)
  have hcode : (insns.map BpfInsn.code)[relIdx rel]? = some insn.code := by
    rw [List.getElem?_map, hinsn]
    rfl
  rw [applyEntry_of_insn hrel hinsn]
  constructor
  · intro h
    split at h
    · cases h
    rename_i hlddw
    split at h
    · cases h
    rcases hsym : symbols.syms[rel.sym]? with _ | sym
    · rw [hsym] at h
      cases h
    rw [hsym] at h
    dsimp only at h
    rcases hmap : maps.find? fun map => map.elfOffset = sym.value with _ | map
    · rw [hmap] at h
      cases h
    rw [hmap] at h
    cases h
    have href : refMap symbols maps rel = some map := by rw [refMap, hsym, Option.bind_some, hmap]
    refine ⟨rel, rfl, ⟨by rw [hcode, not_not.1 hlddw], by rw [href]; rfl⟩, ?_⟩
    rw [refFd, href]
    rfl
  · rintro ⟨_, ⟨⟩, happ, rfl⟩
    have hlddw : insn.code = lddwCode := Option.some.inj (hcode.symm.trans happ.code)
    obtain ⟨map, href⟩ := Option.isSome_iff_exists.1 happ.map
    obtain ⟨sym, hsym, hmap⟩ := Option.bind_eq_some_iff.1 (refMap.eq_1 _ _ _ ▸ href)
    rw [if_neg (not_not.2 hlddw), if_neg (List.ne_nil_of_mem (List.mem_of_find?_eq_some hmap)),
      hsym]
    dsimp only
    rw [hmap, refFd, href]
    rfl

/-- An entry is found to be invalid exactly if it is rejected, which may spoil its
    instruction. -/
theorem applyEntry_eq_false {i : ℕ} : applyEntry data symbols maps insns i = .ok (false, insns') ↔
    ∃ rel, data.rels[i]? = some rel ∧ Rejected symbols maps insns rel ∧
      insns' = insns.modify (relIdx rel) spoil := by
  rcases hrel : data.rels[i]? with _ | rel
  · rw [applyEntry, hrel]
    exact ⟨fun h => (by cases h), fun ⟨_, h, _⟩ => (by cases h)⟩
  rcases hinsn : insns[relIdx rel]? with _ | insn
  · have hcode : (insns.map BpfInsn.code)[relIdx rel]? = none := by
      rw [List.getElem?_map, hinsn]
      rfl
    rw [applyEntry, hrel]
    dsimp only
    rw [show rel.offset / bpfInsnSz % 2 ^ 32 = relIdx rel from rfl, hinsn]
    refine ⟨fun h => (by cases h), fun ⟨_, h, ⟨_, hcode', _⟩, _⟩ => ?_⟩
    obtain rfl := Option.some.inj h
    exact absurd (hcode.symm.trans hcode') (by simp)
  have hcode : (insns.map BpfInsn.code)[relIdx rel]? = some insn.code := by
    rw [List.getElem?_map, hinsn]
    rfl
  rw [applyEntry_of_insn hrel hinsn]
  -- Only a `lddw` has been changed by the time it is rejected.
  have hkeep (hne : insn.code ≠ lddwCode) : insns.modify (relIdx rel) spoil = insns := by
    have hspoil : spoil insn = insn := if_neg hne
    have hset := set_eq_modify hinsn spoil
    rw [← hset, hspoil]
    obtain ⟨hlt, rfl⟩ := List.getElem?_eq_some_iff.1 hinsn
    exact List.set_getElem_self hlt
  constructor
  · intro h
    split at h
    · rename_i hne
      cases h
      exact ⟨rel, rfl, ⟨_, hcode, .inl hne⟩, (hkeep hne).symm⟩
    rename_i hlddw
    split at h
    · cases h
      exact ⟨rel, rfl, ⟨_, hcode, .inr (.inl ‹_›)⟩, rfl⟩
    rcases hsym : symbols.syms[rel.sym]? with _ | sym
    · rw [hsym] at h
      cases h
    rw [hsym] at h
    dsimp only at h
    rcases hmap : maps.find? fun map => map.elfOffset = sym.value with _ | map
    · rw [hmap] at h
      cases h
      refine ⟨rel, rfl, ⟨_, hcode, .inr (.inr ⟨sym, hsym, fun map hmem => ?_⟩)⟩, rfl⟩
      simpa using List.find?_eq_none.1 hmap map hmem
    · rw [hmap] at h
      cases h
  · rintro ⟨_, ⟨⟩, ⟨code, hcode', hrej⟩, rfl⟩
    obtain rfl := Option.some.inj (hcode.symm.trans hcode')
    by_cases hlddw : insn.code = lddwCode
    · rw [if_neg (not_not.2 hlddw)]
      by_cases hmaps : maps = []
      · rw [if_pos hmaps]
      · obtain ⟨sym, hsym, hall⟩ := (hrej.resolve_left (not_not.2 hlddw)).resolve_left hmaps
        have hnone : (maps.find? fun map => map.elfOffset = sym.value) = none :=
          List.find?_eq_none.2 fun map hmem => by simpa using hall map hmem
        rw [if_neg hmaps, hsym]
        dsimp only
        rw [hnone]
    · rw [if_pos hlddw, hkeep hlddw]

/-! ## Sections of entries -/

/-- The loop applies its entries exactly if all of them can be. -/
theorem applyEntries_eq_true {is : List ℕ} :
    applyEntries data symbols maps is insns = .ok (true, insns') ↔
      ∃ rels, is.map (data.rels[·]?) = rels.map some ∧
        (∀ rel ∈ rels, Applicable symbols maps insns rel) ∧
        insns' = applied symbols maps rels insns := by
  induction is generalizing insns with
  | nil =>
    constructor
    · intro h
      cases h
      exact ⟨[], rfl, fun rel hrel => absurd hrel List.not_mem_nil, rfl⟩
    · rintro ⟨rels, hrels, -, rfl⟩
      obtain rfl := List.map_eq_nil_iff.1 hrels.symm
      rfl
  | cons i is ih =>
    rw [applyEntries, Fold.bind_eq_ok]
    constructor
    · rintro ⟨⟨b, insns₁⟩, hentry, h⟩
      cases b with
      | false => cases h
      | true =>
        -- Opcodes are kept, on which depends whether the later entries can be applied.
        obtain ⟨rel, hrel, happ, rfl⟩ := applyEntry_eq_true.1 hentry
        obtain ⟨rels, hrels, hall, rfl⟩ := ih.1 h
        have hcode := @map_code_applied symbols maps insns [rel]
        refine ⟨rel :: rels, by rw [List.map_cons, List.map_cons, hrel, hrels], ?_, rfl⟩
        rintro r (_ | ⟨_, hr⟩)
        · exact happ
        · exact (Applicable.congr hcode).1 (hall r hr)
    · rintro ⟨rels, hrels, hall, rfl⟩
      cases rels with
      | nil => cases hrels
      | cons rel rels =>
        rw [List.map_cons, List.map_cons] at hrels
        obtain ⟨hrel, hrest⟩ := List.cons.inj hrels
        have hcode := @map_code_applied symbols maps insns [rel]
        refine ⟨_, applyEntry_eq_true.2 ⟨rel, hrel, hall rel List.mem_cons_self, rfl⟩, ?_⟩
        exact ih.2 ⟨rels, hrest, fun r hr =>
          (Applicable.congr hcode).2 (hall r (List.mem_cons_of_mem _ hr)), rfl⟩

/-- The loop ends at an entry that is rejected, those before it having been applied. -/
theorem applyEntries_eq_false {is : List ℕ} :
    applyEntries data symbols maps is insns = .ok (false, insns') ↔
      ∃ rels rel rest, is.map (data.rels[·]?) = rels.map some ++ some rel :: rest ∧
        (∀ r ∈ rels, Applicable symbols maps insns r) ∧ Rejected symbols maps insns rel ∧
        insns' = (applied symbols maps rels insns).modify (relIdx rel) spoil := by
  induction is generalizing insns with
  | nil => exact ⟨fun h => (by cases h), fun ⟨rels, rel, rest, h, _⟩ => absurd h (by simp)⟩
  | cons i is ih =>
    rw [applyEntries, Fold.bind_eq_ok]
    constructor
    · rintro ⟨⟨b, insns₁⟩, hentry, h⟩
      cases b with
      | false =>
        cases h
        obtain ⟨rel, hrel, hrej, rfl⟩ := applyEntry_eq_false.1 hentry
        refine ⟨[], rel, is.map (data.rels[·]?), ?_, fun r hr => absurd hr List.not_mem_nil, hrej,
          rfl⟩
        rw [List.map_cons, hrel]
        rfl
      | true =>
        obtain ⟨rel, hrel, happ, rfl⟩ := applyEntry_eq_true.1 hentry
        obtain ⟨rels, rel', rest, hrels, hall, hrej, rfl⟩ := ih.1 h
        have hcode := @map_code_applied symbols maps insns [rel]
        refine ⟨rel :: rels, rel', rest, by rw [List.map_cons, hrel, hrels]; rfl, ?_,
          (Rejected.congr hcode).1 hrej, rfl⟩
        rintro r (_ | ⟨_, hr⟩)
        · exact happ
        · exact (Applicable.congr hcode).1 (hall r hr)
    · rintro ⟨rels, rel, rest, hrels, hall, hrej, rfl⟩
      cases rels with
      | nil =>
        obtain ⟨hrel, -⟩ := List.cons.inj hrels
        exact ⟨_, applyEntry_eq_false.2 ⟨rel, hrel, hrej, rfl⟩, rfl⟩
      | cons r rels =>
        obtain ⟨hrel, hrest⟩ := List.cons.inj hrels
        have hcode := @map_code_applied symbols maps insns [r]
        refine ⟨_, applyEntry_eq_true.2 ⟨r, hrel, hall r List.mem_cons_self, rfl⟩, ?_⟩
        exact ih.2 ⟨rels, rel, rest, hrest, fun r hr =>
          (Applicable.congr hcode).2 (hall r (List.mem_cons_of_mem _ hr)),
          (Rejected.congr hcode).2 hrej, rfl⟩

/-- What is at the first positions of a list, if they all are in it. -/
theorem map_getElem?_range_eq {α : Type*} {l l' : List α} {n : ℕ} :
    (List.range n).map (l[·]?) = l'.map some ↔ n ≤ l.length ∧ l' = l.take n := by
  have htake (h : n ≤ l.length) : (List.range n).map (l[·]?) = (l.take n).map some := by
    apply List.ext_getElem
    · simpa using h
    · intro i hi hi'
      have hlt : i < l.length := by
        rw [List.length_map, List.length_range] at hi
        omega
      rw [List.getElem_map, List.getElem_map, List.getElem_range, List.getElem_take,
        List.getElem?_eq_getElem hlt]
  constructor
  · intro h
    have hle : n ≤ l.length := by
      by_contra hgt
      have hmem : (none : Option α) ∈ (List.range n).map (l[·]?) :=
        List.mem_map.2 ⟨l.length, List.mem_range.2 (not_le.1 hgt), List.getElem?_eq_none le_rfl⟩
      rw [h] at hmem
      simp at hmem
    exact ⟨hle, List.map_injective_iff.2 (Option.some_injective _) (h.symm.trans (htake hle))⟩
  · rintro ⟨hle, rfl⟩
    exact htake hle

variable {shdr : GElfShdr}

/-- `parse_relo_and_apply` returns zero exactly if every entry of the section is for a `lddw` and
    refers to a map, and it has applied them all then, in order. -/
theorem parseReloAndApply_eq_true :
    parseReloAndApply data symbols shdr insns maps = .ok (true, insns') ↔
      shdr.entsize ≠ 0 ∧ nrels shdr ≤ data.rels.length ∧
        (∀ rel ∈ data.rels.take (nrels shdr), Applicable symbols maps insns rel) ∧
        insns' = applied symbols maps (data.rels.take (nrels shdr)) insns := by
  rw [parseReloAndApply]
  split
  · exact ⟨fun h => (by cases h), fun h => absurd ‹_› h.1⟩
  rw [applyEntries_eq_true]
  constructor
  · rintro ⟨rels, hrels, hall, rfl⟩
    obtain ⟨hle, rfl⟩ := map_getElem?_range_eq.1 hrels
    exact ⟨‹_›, hle, hall, rfl⟩
  · rintro ⟨-, hle, hall, rfl⟩
    exact ⟨_, map_getElem?_range_eq.2 ⟨hle, rfl⟩, hall, rfl⟩

/-- `parse_relo_and_apply` returns 1 exactly if there is an entry that is rejected, after entries
    that have all been applied: these changes stay. -/
theorem parseReloAndApply_eq_false :
    parseReloAndApply data symbols shdr insns maps = .ok (false, insns') ↔
      shdr.entsize ≠ 0 ∧ ∃ j rel, j < nrels shdr ∧ data.rels[j]? = some rel ∧
        (∀ r ∈ data.rels.take j, Applicable symbols maps insns r) ∧
        Rejected symbols maps insns rel ∧
        insns' = (applied symbols maps (data.rels.take j) insns).modify (relIdx rel) spoil := by
  rw [parseReloAndApply]
  split
  · exact ⟨fun h => (by cases h), fun h => absurd ‹_› h.1⟩
  rw [applyEntries_eq_false]
  constructor
  · rintro ⟨rels, rel, rest, hrels, hall, hrej, rfl⟩
    -- The entries gone over are the first of the section, up to the one that is rejected.
    have hlt : rels.length < nrels shdr := by
      have hlen := congrArg List.length hrels
      rw [List.length_map, List.length_range, List.length_append, List.length_map,
        List.length_cons] at hlen
      omega
    have hfirst :
        (List.range (rels.length + 1)).map (data.rels[·]?) = (rels ++ [rel]).map some := by
      have htake := congrArg (List.take (rels.length + 1)) hrels
      rwa [← List.map_take, List.take_range, Nat.min_eq_left hlt,
        show rels.map some ++ some rel :: rest = (rels ++ [rel]).map some ++ rest by simp,
        List.take_left' (by simp)] at htake
    obtain ⟨hle, heq⟩ := map_getElem?_range_eq.1 hfirst
    rw [List.take_add_one, List.getElem?_eq_getElem hle] at heq
    obtain ⟨hrels', hrel⟩ := List.append_inj' heq rfl
    rw [hrels'] at hall
    refine ⟨‹_›, rels.length, rel, hlt, ?_, hall, hrej, by rw [← hrels']⟩
    rw [List.getElem?_eq_getElem hle]
    exact congrArg some (List.singleton_inj.1 hrel).symm
  · rintro ⟨-, j, rel, hj, hrel, hall, hrej, rfl⟩
    have hle : j + 1 ≤ data.rels.length := (List.getElem?_eq_some_iff.1 hrel).1
    have hfirst := map_getElem?_range_eq.2 ⟨hle, rfl⟩
    refine ⟨_, rel, ((List.range (nrels shdr)).drop (j + 1)).map (data.rels[·]?), ?_, hall,
      hrej, rfl⟩
    rw [List.take_add_one, hrel] at hfirst
    rw [← List.take_append_drop (j + 1) (List.range (nrels shdr)), List.map_append, List.take_range,
      Nat.min_eq_left hj, hfirst]
    simp

/-- An instruction is up to the last entry for it: without one it is unchanged. -/
theorem getElem?_applied (rels : List GElfRel) (k : ℕ) :
    (applied symbols maps rels insns)[k]? = insns[k]?.map fun insn =>
      (rels.filter (relIdx · = k)).getLast?.elim insn fun rel =>
        loadFd (refFd symbols maps rel) insn :=
  Writes.getElem?_run_of_overrides (f := fun rel => loadFd (refFd symbols maps rel))
    (fun _ _ _ => rfl) rels insns k

end

/-! ## Descriptors -/

/-- The value of the symbol of an entry. -/
def symValue (symbols : ElfData) (rel : GElfRel) : Option ℕ :=
  symbols.syms[rel.sym]?.map GElfSym.value

/-- The descriptor of the map at an offset: how many of the maps are before it. -/
def rank (syms : List GElfSym) (offset : Option ℕ) : ℕ :=
  offset.elim 0 fun value => syms.countP fun s => s.value < value

/-- An entry refers to a loaded map exactly if the value of its symbol is the offset of one,
    whatever the section of the symbol. -/
theorem refMap_loadedMaps {mapFd : ℤ} {symbols data : ElfData} {sz : ℕ} {syms : List GElfSym}
    {rel : GElfRel} : (refMap symbols (loadedMaps mapFd data sz syms) rel).isSome ↔
      ∃ s ∈ syms, symValue symbols rel = some s.value := by
  rw [refMap, symValue]
  rcases symbols.syms[rel.sym]? with _ | sym
  · simp
  rw [Option.bind_some, Option.map_some, List.find?_isSome]
  constructor
  · rintro ⟨map, hmem, hoff⟩
    obtain ⟨s, hs, hs', -⟩ := exists_of_mem_loadedMaps hmem
    exact ⟨s, hs, congrArg some ((of_decide_eq_true hoff).symm.trans hs')⟩
  · rintro ⟨s, hs, hval⟩
    obtain ⟨i, hi⟩ := List.mem_iff_getElem?.1 ((Sorting.perm_sort cmpSymbols _).mem_iff.2 hs)
    refine ⟨{ mapOf data sz s with fd := mapFd + i }, List.mem_iff_getElem?.2 ⟨i, ?_⟩,
      decide_eq_true (Option.some.inj hval).symm⟩
    rw [loadedMaps, List.getElem?_mapIdx, hi]
    rfl

/-- The descriptor that an entry asks for is the rank of the value of its symbol. -/
theorem refFd_loadedMaps {mapFd : ℤ} {symbols data : ElfData} {sz : ℕ} {syms : List GElfSym}
    (hoff : DistinctOffsets syms) {rel : GElfRel}
    (href : ∃ s ∈ syms, symValue symbols rel = some s.value) :
    refFd symbols (loadedMaps mapFd data sz syms) rel =
      mapFd + rank syms (symValue symbols rel) := by
  obtain ⟨s, hs, hval⟩ := href
  obtain ⟨sym, hsym, hsym'⟩ := Option.map_eq_some_iff.1 (symValue.eq_1 _ _ ▸ hval)
  rw [hval, refFd, refMap, hsym, Option.bind_some, hsym', find?_loadedMaps hoff hs]
  rfl

/-- With maps at distinct offsets, the entries of a section are applied exactly if each of them is
    for a `lddw` and its symbol has the value of a symbol of a map, in whatever section that
    is. The last entry for an instruction makes it load the descriptor that is the rank of
    this value, whatever the order of the symbols, and the other instructions are unchanged. -/
theorem parseReloAndApply_rank {elf : Elf} {mapFd : ℤ} {scan : Scan} {symbols : ElfData}
    {mapsShndx : ℕ} {maps : List BpfMapData} (hfd : 0 ≤ mapFd)
    (hshndx : scan.mapsShndx = some mapsShndx)
    (hmaps : getMaps elf mapFd scan symbols = .ok (some (some maps)))
    (hoff : DistinctOffsets (mapsSyms symbols mapsShndx)) (data : ElfData) (shdr : GElfShdr)
    (insns insns' : List BpfInsn) :
    parseReloAndApply data symbols shdr insns maps = .ok (true, insns') ↔
      shdr.entsize ≠ 0 ∧ nrels shdr ≤ data.rels.length ∧
        (∀ rel ∈ data.rels.take (nrels shdr),
          (insns.map BpfInsn.code)[relIdx rel]? = some lddwCode ∧
          ∃ s ∈ mapsSyms symbols mapsShndx, symValue symbols rel = some s.value) ∧
        ∀ k, insns'[k]? = insns[k]?.map fun insn =>
          ((data.rels.take (nrels shdr)).filter (relIdx · = k)).getLast?.elim insn fun rel =>
            loadFd (mapFd + rank (mapsSyms symbols mapsShndx) (symValue symbols rel)) insn := by
  obtain ⟨mapsShndx', dataMaps, sz, hshndx', -, -, -, -, -, -, rfl⟩ := (getMaps_ok_iff hfd).1 hmaps
  obtain rfl := Option.some.inj (hshndx.symm.trans hshndx')
  have happ (rel : GElfRel) :
      Applicable symbols (loadedMaps mapFd dataMaps sz (mapsSyms symbols mapsShndx)) insns rel ↔
        (insns.map BpfInsn.code)[relIdx rel]? = some lddwCode ∧
          ∃ s ∈ mapsSyms symbols mapsShndx, symValue symbols rel = some s.value :=
    ⟨fun h => ⟨h.code, refMap_loadedMaps.1 h.map⟩, fun h => ⟨h.1, refMap_loadedMaps.2 h.2⟩⟩
  rw [parseReloAndApply_eq_true]
  simp only [happ]
  refine and_congr_right fun _ => and_congr_right fun _ => and_congr_right fun hall => ?_
  have hget (k : ℕ) : (applied symbols (loadedMaps mapFd dataMaps sz (mapsSyms symbols mapsShndx))
      (data.rels.take (nrels shdr)) insns)[k]? = insns[k]?.map fun insn =>
        ((data.rels.take (nrels shdr)).filter (relIdx · = k)).getLast?.elim insn fun rel =>
          loadFd (mapFd + rank (mapsSyms symbols mapsShndx) (symValue symbols rel)) insn := by
    rw [getElem?_applied]
    refine congrArg (Option.map · _) ?_
    funext insn
    cases hlast : ((data.rels.take (nrels shdr)).filter (relIdx · = k)).getLast? with
    | none => rfl
    | some rel =>
      have hmem := List.mem_of_mem_filter (List.mem_of_getLast? hlast)
      rw [Option.elim_some, Option.elim_some, refFd_loadedMaps hoff (hall rel hmem).2]
  constructor
  · rintro rfl
    exact hget
  · intro h
    exact List.ext_getElem? fun k => (h k).trans (hget k).symm

/-- The map that comes first in the symbol table has the descriptor 1. -/
theorem parseReloAndApply_rank_counts : ∃ scan symbols maps sec insns insns',
    scanSecs (twoMapElf 2) = .ok scan ∧ scan.symbols = some symbols ∧
      getMaps (twoMapElf 2) 0 scan symbols = .ok (some (some maps)) ∧
      getSec (twoMapElf 2) 2 = some sec ∧ fileInsns (twoMapElf 2) 1 = some insns ∧
      parseReloAndApply sec.data symbols sec.shdr insns maps = .ok (true, insns') ∧
      insns'[0]? = some ⟨lddwCode, 1, bpfPseudoMapFd, 0, 1⟩ := by
  have hrun : ∃ scan symbols maps sec insns insns', scanSecs (twoMapElf 2) = .ok scan ∧
      scan.symbols = some symbols ∧ scan.mapsShndx = some 4 ∧
      getMaps (twoMapElf 2) 0 scan symbols = .ok (some (some maps)) ∧
      getSec (twoMapElf 2) 2 = some sec ∧ fileInsns (twoMapElf 2) 1 = some insns ∧
      parseReloAndApply sec.data symbols sec.shdr insns maps = .ok (true, insns') ∧
      DistinctOffsets (mapsSyms symbols 4) ∧
      (insns[0]?.map fun insn => ((sec.data.rels.take (nrels sec.shdr)).filter
          (relIdx · = 0)).getLast?.elim insn fun rel =>
            loadFd (0 + rank (mapsSyms symbols 4) (symValue symbols rel)) insn) =
        some ⟨lddwCode, 1, bpfPseudoMapFd, 0, 1⟩ :=
    ⟨_, _, _, _, _, _, rfl, rfl, rfl, rfl, rfl, rfl, rfl, by decide, by decide +kernel⟩
  obtain ⟨scan, symbols, maps, sec, insns, insns', hscan, hsymbols, hshndx, hmaps, hsec, hinsns,
    hparse, hoff, hfirst⟩ := hrun
  obtain ⟨-, -, -, hget⟩ := (parseReloAndApply_rank le_rfl hshndx hmaps hoff _ _ _ _).1 hparse
  exact ⟨scan, symbols, maps, sec, insns, insns', hscan, hsymbols, hmaps, hsec, hinsns, hparse,
    (hget 0).trans hfirst⟩

/-! ## The maps that entries name -/

/-- The symbols of the maps of the object, of which there are none without a section of maps. -/
def Scan.mapSyms (scan : Scan) (symbols : ElfData) : List GElfSym :=
  scan.mapsShndx.elim [] (mapsSyms symbols)

/-- Each of the entries has been resolved to the map that its symbol names, the descriptors being
    the ranks of the maps, and nothing else has been changed. The instruction of an entry is the one
    at its offset. -/
structure Resolved (symbols : ElfData) (syms : List GElfSym) (maps : List BpfMapData)
    (rels : List GElfRel) (insns insns' : List BpfInsn) : Prop where
  loads : ∀ rel ∈ rels, ∃ sym ∈ syms, symbols.syms[rel.sym]? = some sym ∧
    ∃ map ∈ maps, map.elfOffset = sym.value ∧ sym.name = some map.name ∧
      ∃ insn, insns[rel.offset / bpfInsnSz]? = some insn ∧ insn.IsLddw ∧
        insns'[rel.offset / bpfInsnSz]? = some (loadFd map.fd insn)
  ranks : ∀ map ∈ maps, map.fd = syms.countP fun s => s.value < map.elfOffset
  unchanged : ∀ k, (∀ rel ∈ rels, rel.offset / bpfInsnSz ≠ k) → insns'[k]? = insns[k]?

/-- The entries are for symbols of the maps, for instructions that an `unsigned int` can count, and
    those for one instruction agree. -/
structure NamesMaps (symbols : ElfData) (syms : List GElfSym) (rels : List GElfRel) : Prop where
  sym : ∀ rel ∈ rels, ∃ sym ∈ syms, symbols.syms[rel.sym]? = some sym
  idx : ∀ rel ∈ rels, rel.offset / bpfInsnSz < 2 ^ 32
  agree : ∀ rel ∈ rels, ∀ rel' ∈ rels, rel.offset / bpfInsnSz = rel'.offset / bpfInsnSz →
    symValue symbols rel = symValue symbols rel'

/-- Instructions that load two maps are the same only if the maps are: the descriptors fit the
    immediates. -/
theorem value_eq_of_loadFd_eq {syms : List GElfSym} (hlen : syms.length ≤ maxMaps)
    {s t : GElfSym} (hs : s ∈ syms) (ht : t ∈ syms) {insn : BpfInsn}
    (h : loadFd (syms.countP fun u => u.value < s.value : ℕ) insn =
      loadFd (syms.countP fun u => u.value < t.value : ℕ) insn) : s.value = t.value := by
  have himm : (BitVec.ofInt 32 (syms.countP fun u => u.value < s.value : ℕ)) =
      BitVec.ofInt 32 (syms.countP fun u => u.value < t.value : ℕ) := congrArg BpfInsn.imm h
  rw [BitVec.ofInt_natCast, BitVec.ofInt_natCast] at himm
  have hlt (p : GElfSym → Bool) : syms.countP p < 2 ^ 32 :=
    (List.countP_le_length.trans hlen).trans_lt (by decide)
  have hnat := congrArg BitVec.toNat himm
  rw [BitVec.toNat_ofNat, BitVec.toNat_ofNat, Nat.mod_eq_of_lt (hlt _),
    Nat.mod_eq_of_lt (hlt _)] at hnat
  exact value_eq_of_countP_eq hs ht hnat

/-- An entry is for a `lddw`, if it can be applied. -/
theorem Applicable.isLddw {symbols : ElfData} {maps : List BpfMapData} {insns : List BpfInsn}
    {rel : GElfRel} (h : Applicable symbols maps insns rel) :
    ∃ insn, insns[relIdx rel]? = some insn ∧ insn.IsLddw := by
  have hcode := h.code
  rw [List.getElem?_map] at hcode
  exact Option.map_eq_some_iff.1 hcode

section

variable {symbols : ElfData} {syms : List GElfSym} {maps : List BpfMapData} {rels : List GElfRel}
  {insns insns' : List BpfInsn}

/-- Entries that name maps are resolved to them by being applied. -/
theorem NamesMaps.resolved
    (hmaps : ∀ sym ∈ syms, ∃ map, maps.find? (fun map => map.elfOffset = sym.value) = some map ∧
      sym.name = some map.name)
    (hranks : ∀ map ∈ maps, map.fd = syms.countP fun s => s.value < map.elfOffset)
    (hall : ∀ rel ∈ rels, Applicable symbols maps insns rel) (h : NamesMaps symbols syms rels) :
    Resolved symbols syms maps rels insns (applied symbols maps rels insns) := by
  have hidx (rel : GElfRel) (hrel : rel ∈ rels) : relIdx rel = rel.offset / bpfInsnSz :=
    Nat.mod_eq_of_lt (h.idx rel hrel)
  -- The map that an entry refers to is the one of its symbol.
  have href (rel : GElfRel) (hrel : rel ∈ rels) : ∃ sym ∈ syms, symbols.syms[rel.sym]? = some sym ∧
      ∃ map ∈ maps, map.elfOffset = sym.value ∧ sym.name = some map.name ∧
        refFd symbols maps rel = map.fd := by
    obtain ⟨sym, hmem, hsym⟩ := h.sym rel hrel
    obtain ⟨map, hfind, hname⟩ := hmaps sym hmem
    refine ⟨sym, hmem, hsym, map, List.mem_of_find?_eq_some hfind,
      by simpa using List.find?_some hfind, hname, ?_⟩
    rw [refFd, refMap, hsym, Option.bind_some, hfind]
    rfl
  refine ⟨fun rel hrel => ?_, hranks, fun k hk => ?_⟩
  · obtain ⟨sym, hmem, hsym, map, hmap, hoff, hname, hfd⟩ := href rel hrel
    obtain ⟨insn, hinsn, hlddw⟩ := (hall rel hrel).isLddw
    have hin : rel ∈ rels.filter (relIdx · = relIdx rel) :=
      List.mem_filter.2 ⟨hrel, decide_eq_true rfl⟩
    obtain ⟨last, hlast⟩ := Option.isSome_iff_exists.1
      (List.getLast?_isSome.2 (List.ne_nil_of_mem hin))
    obtain ⟨hlmem, hlidx⟩ := List.mem_filter.1 (List.mem_of_getLast? hlast)
    -- The last entry for the instruction is for the same map.
    have hlfd : refFd symbols maps last = map.fd := by
      obtain ⟨sym', -, hsym', map', hmap', hoff', -, hfd'⟩ := href last hlmem
      have hvalue := h.agree last hlmem rel hrel (by
        rw [← hidx last hlmem, ← hidx rel hrel]
        exact of_decide_eq_true hlidx)
      rw [symValue, symValue, hsym, hsym', Option.map_some, Option.map_some] at hvalue
      rw [hfd', hranks map' hmap', hranks map hmap, hoff, hoff', Option.some.inj hvalue]
    rw [hidx rel hrel] at hinsn hlast
    refine ⟨sym, hmem, hsym, map, hmap, hoff, hname, insn, hinsn, hlddw, ?_⟩
    rw [getElem?_applied, hinsn, Option.map_some, hlast, Option.elim_some, hlfd]
  · have hnil : rels.filter (relIdx · = k) = [] :=
      List.filter_eq_nil_iff.2 fun rel hrel hk' =>
        hk rel hrel ((hidx rel hrel).symm.trans (of_decide_eq_true hk'))
    rw [getElem?_applied, hnil]
    exact Option.map_id'

/-- Entries are resolved only if they name maps. -/
theorem Resolved.namesMaps (hlen : syms.length ≤ maxMaps) (hinsns : insns.length ≤ 2 ^ 32)
    (h : Resolved symbols syms maps rels insns insns') : NamesMaps symbols syms rels := by
  refine ⟨fun rel hrel => ?_, fun rel hrel => ?_, fun rel hrel rel' hrel' heq => ?_⟩
  · obtain ⟨sym, hmem, hsym, -⟩ := h.loads rel hrel
    exact ⟨sym, hmem, hsym⟩
  · obtain ⟨-, -, -, -, -, -, -, insn, hinsn, -⟩ := h.loads rel hrel
    exact (List.getElem?_eq_some_iff.1 hinsn).1.trans_le hinsns
  · obtain ⟨sym, hmem, hsym, map, hmap, hoff, -, insn, hinsn, -, hload⟩ := h.loads rel hrel
    obtain ⟨sym', hmem', hsym', map', hmap', hoff', -, insn', hinsn', -, hload'⟩ :=
      h.loads rel' hrel'
    rw [heq] at hinsn hload
    obtain rfl := Option.some.inj (hinsn.symm.trans hinsn')
    have hfds := Option.some.inj (hload.symm.trans hload')
    rw [h.ranks map hmap, h.ranks map' hmap', hoff, hoff'] at hfds
    rw [symValue, symValue, hsym, hsym', Option.map_some, Option.map_some,
      value_eq_of_loadFd_eq hlen hmem hmem' hfds]

end

/-- When `parse_relo_and_apply` returns zero, each entry has been resolved to the map that it names
    if (and, for a section of at most `2 ^ 32` instructions, only if) the entries are for symbols of
    the section of maps, the ones for an instruction being for the same map. An entry for a symbol
    of another section is resolved to the map of the same offset, if there is one. -/
theorem parseReloAndApply_resolved_iff {elf : Elf} {scan : Scan} {symbols data : ElfData}
    {maps? : Option (List BpfMapData)} {shdr : GElfShdr} {insns insns' : List BpfInsn}
    (hmaps : getMaps elf 0 scan symbols = .ok (some maps?))
    (hoff : DistinctOffsets (scan.mapSyms symbols))
    (happly : parseReloAndApply data symbols shdr insns (maps?.getD []) = .ok (true, insns')) :
    (NamesMaps symbols (scan.mapSyms symbols) (data.rels.take (nrels shdr)) →
      Resolved symbols (scan.mapSyms symbols) (maps?.getD []) (data.rels.take (nrels shdr))
        insns insns') ∧
    (insns.length ≤ 2 ^ 32 →
      Resolved symbols (scan.mapSyms symbols) (maps?.getD []) (data.rels.take (nrels shdr))
        insns insns' →
      NamesMaps symbols (scan.mapSyms symbols) (data.rels.take (nrels shdr))) := by
  obtain ⟨-, -, hall, rfl⟩ := parseReloAndApply_eq_true.1 happly
  cases maps? with
  | none =>
    have hsyms : scan.mapSyms symbols = [] := by
      rw [Scan.mapSyms, mapsShndx_eq_none hmaps]
      rfl
    rw [hsyms]
    exact ⟨NamesMaps.resolved (fun sym hsym => absurd hsym List.not_mem_nil)
      (fun map hmap => absurd hmap List.not_mem_nil) hall,
      fun hinsns h => h.namesMaps (Nat.zero_le _) hinsns⟩
  | some maps =>
    obtain ⟨mapsShndx, dataMaps, sz, hshndx, -, -, -, -, hlen, hfits, rfl⟩ :=
      (getMaps_ok_iff le_rfl).1 hmaps
    have hsyms : scan.mapSyms symbols = mapsSyms symbols mapsShndx := by
      rw [Scan.mapSyms, hshndx]
      rfl
    rw [hsyms] at hoff ⊢
    refine ⟨NamesMaps.resolved (fun sym hsym => ?_) (fun map hmap => ?_) hall,
      fun hinsns h => h.namesMaps hlen hinsns⟩
    · refine ⟨_, find?_loadedMaps hoff hsym, ?_⟩
      obtain ⟨name, hname⟩ := Option.isSome_iff_exists.1 (hfits sym hsym).name
      rw [mapOf, hname]
      rfl
    · exact (fd_of_mem_loadedMaps hoff hmap).trans (zero_add _)

/-- An object whose program refers to both of its maps. -/
def bothMapsElf : Elf :=
  smallElf "xdp" [⟨lddwCode, 1, 0, 0, 0⟩, .zero, ⟨lddwCode, 2, 0, 0, 0⟩, .zero, ⟨0x95, 0, 0, 0, 0⟩]
    [⟨0, 2⟩, ⟨16, 3⟩] twoMapSyms ([2, 4, 8, 1, 0, 0, 0, 1, 4, 8, 16, 0, 0, 0].flatMap (leBytes 4))

theorem parseReloAndApply_resolved_bothMaps : ∃ scan symbols maps sec insns insns',
    scanSecs bothMapsElf = .ok scan ∧ scan.symbols = some symbols ∧
      getMaps bothMapsElf 0 scan symbols = .ok (some (some maps)) ∧
      getSec bothMapsElf 2 = some sec ∧ fileInsns bothMapsElf 1 = some insns ∧
      parseReloAndApply sec.data symbols sec.shdr insns maps = .ok (true, insns') ∧
      sec.data.rels.take (nrels sec.shdr) = [⟨0, 2⟩, ⟨16, 3⟩] ∧
      Resolved symbols (scan.mapSyms symbols) maps [⟨0, 2⟩, ⟨16, 3⟩] insns insns' := by
  have hrun : ∃ scan symbols maps sec insns insns', scanSecs bothMapsElf = .ok scan ∧
      scan.symbols = some symbols ∧ getMaps bothMapsElf 0 scan symbols = .ok (some (some maps)) ∧
      getSec bothMapsElf 2 = some sec ∧ fileInsns bothMapsElf 1 = some insns ∧
      parseReloAndApply sec.data symbols sec.shdr insns maps = .ok (true, insns') ∧
      sec.data.rels.take (nrels sec.shdr) = [⟨0, 2⟩, ⟨16, 3⟩] ∧
      DistinctOffsets (scan.mapSyms symbols) ∧
      ∀ rel ∈ [(⟨0, 2⟩ : GElfRel), ⟨16, 3⟩],
        ∃ sym ∈ scan.mapSyms symbols, symbols.syms[rel.sym]? = some sym :=
    ⟨_, _, _, _, _, _, rfl, rfl, rfl, rfl, rfl, rfl, rfl, by decide, by decide +kernel⟩
  obtain ⟨scan, symbols, maps, sec, insns, insns', hscan, hsymbols, hmaps, hsec, hinsns, happly,
    hrels, hoff, hsyms⟩ := hrun
  have hsame : ∀ rel ∈ [(⟨0, 2⟩ : GElfRel), ⟨16, 3⟩], ∀ rel' ∈ [(⟨0, 2⟩ : GElfRel), ⟨16, 3⟩],
      rel.offset / bpfInsnSz = rel'.offset / bpfInsnSz → rel = rel' := by decide
  obtain ⟨hresolved, -⟩ := parseReloAndApply_resolved_iff hmaps hoff happly
  rw [hrels] at hresolved
  refine ⟨scan, symbols, maps, sec, insns, insns', hscan, hsymbols, hmaps, hsec, hinsns, happly,
    hrels, hresolved ⟨hsyms, by decide, fun rel hrel rel' hrel' heq => ?_⟩⟩
  rw [hsame rel hrel rel' hrel' heq]

/-- An object whose program refers to a variable that is at the offset of a map, but in another
    section. -/
def dataRefElf : Elf :=
  .ofScns
    (smallScns "xdp" [⟨lddwCode, 1, 0, 0, 0⟩, .zero, ⟨0x95, 0, 0, 0, 0⟩] [⟨0, 3⟩]
      [⟨some [], 0, 0, 0, 0, 0⟩, ⟨some (cstr "load"), stbGlobal, sttFunc, 1, 0, 24⟩,
        ⟨some (cstr "counts"), stbGlobal, sttObject, 4, 0, 28⟩,
        ⟨some (cstr "limit"), stbGlobal, sttObject, 6, 0, 4⟩]
      ([2, 4, 8, 1, 0, 0, 0].flatMap (leBytes 4)) ++
    [.ofData (cstr ".data") shtProgbits 3 0 0 0 (.ofBytes (leBytes 4 7) [] [])])
    (by simp [smallScns])

/-- The reference to the variable is taken for one to the map. -/
theorem parseReloAndApply_not_resolved : ∃ scan symbols maps sec insns insns',
    scanSecs dataRefElf = .ok scan ∧ scan.symbols = some symbols ∧
      getMaps dataRefElf 0 scan symbols = .ok (some (some maps)) ∧
      (scan.mapSyms symbols).length ≤ maxMaps ∧ DistinctOffsets (scan.mapSyms symbols) ∧
      getSec dataRefElf 2 = some sec ∧ fileInsns dataRefElf 1 = some insns ∧
      parseReloAndApply sec.data symbols sec.shdr insns maps = .ok (true, insns') ∧
      insns' = [⟨lddwCode, 1, bpfPseudoMapFd, 0, 0⟩, .zero, ⟨0x95, 0, 0, 0, 0⟩] ∧
      ¬Resolved symbols (scan.mapSyms symbols) maps (sec.data.rels.take (nrels sec.shdr)) insns
        insns' := by
  have hrun : ∃ scan symbols maps sec insns insns', scanSecs dataRefElf = .ok scan ∧
      scan.symbols = some symbols ∧ getMaps dataRefElf 0 scan symbols = .ok (some (some maps)) ∧
      (scan.mapSyms symbols).length ≤ maxMaps ∧ DistinctOffsets (scan.mapSyms symbols) ∧
      getSec dataRefElf 2 = some sec ∧ fileInsns dataRefElf 1 = some insns ∧
      parseReloAndApply sec.data symbols sec.shdr insns maps = .ok (true, insns') ∧
      insns' = [⟨lddwCode, 1, bpfPseudoMapFd, 0, 0⟩, .zero, ⟨0x95, 0, 0, 0, 0⟩] ∧
      ∃ rel ∈ sec.data.rels.take (nrels sec.shdr), ∀ sym ∈ scan.mapSyms symbols,
        symbols.syms[rel.sym]? ≠ some sym :=
    ⟨_, _, _, _, _, _, rfl, rfl, rfl, by decide, by decide, rfl, rfl, rfl, by decide +kernel,
      by decide +kernel⟩
  obtain ⟨scan, symbols, maps, sec, insns, insns', hscan, hsymbols, hmaps, hlen, hoff, hsec,
    hinsns, happly, hout, rel, hrel, hnot⟩ := hrun
  refine ⟨scan, symbols, maps, sec, insns, insns', hscan, hsymbols, hmaps, hlen, hoff, hsec,
    hinsns, happly, hout, fun h => ?_⟩
  obtain ⟨sym, hmem, hsym, -⟩ := h.loads rel hrel
  exact hnot sym hmem hsym

end BpfElfTools.OldExtractor
