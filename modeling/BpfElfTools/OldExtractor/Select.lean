import BpfElfTools.OldExtractor.Apply

/-!
# The program that the old extractor selects

`get_prog` goes over the sections of relocation entries in order, and ends at the
first one whose entries all apply and whose target has a name that starts with the
one asked for. On the way it changes the instructions of the targets that it
passes over, but nothing of them that matters to the entries.

* `relocateSec_ok`: what a section of entries does;
* `relocateSecs_none`, `relocateSecs_some`: how the search ends;
* `getProg_none`, `getProg_some`: which program is found, and its instructions;
* `findWithoutMaps_ok`: which one the search without maps finds.
-/

namespace BpfElfTools.OldExtractor

/-! ## Sections of entries -/

/-- The section `i` holds relocation entries for a section of instructions: both of them. -/
def relocates (elf : Elf) (i : ℕ) : Option (Sec × Sec) :=
  (getSec elf i).bind fun sec =>
    if sec.shdr.type = shtRel then
      (getSec elf sec.shdr.info).bind fun prog =>
        if IsProgSec prog.shdr then some (sec, prog) else none
    else none

theorem relocates_eq_some {elf : Elf} {i : ℕ} {sec prog : Sec} :
    relocates elf i = some (sec, prog) ↔ getSec elf i = some sec ∧ sec.shdr.type = shtRel ∧
      getSec elf sec.shdr.info = some prog ∧ IsProgSec prog.shdr := by
  rw [relocates]
  rcases hsec : getSec elf i with _ | sec'
  · exact ⟨fun h => (by cases h), fun h => (by cases h.1)⟩
  rw [Option.bind_some]
  constructor
  · intro h
    split at h
    · rename_i htype
      obtain ⟨prog', hprog, h⟩ := Option.bind_eq_some_iff.1 h
      split at h
      · cases h
        exact ⟨rfl, htype, hprog, ‹_›⟩
      · cases h
    · cases h
  · rintro ⟨hsec', htype, hprog, hexec⟩
    obtain rfl := Option.some.inj hsec'
    rw [if_pos htype, hprog, Option.bind_some, if_pos hexec]

/-- The entries of the section `i`, if they are for instructions. -/
def entries (elf : Elf) (i : ℕ) : List GElfRel :=
  (relocates elf i).elim [] fun p => p.1.data.rels.take (nrels p.1.shdr)

/-- The section of instructions that the entries of the section `i` are for. -/
def target (elf : Elf) (i : ℕ) : Option ℕ := (relocates elf i).map fun p => p.1.shdr.info

/-- The entries of the section `i` can all be applied to the instructions in the file. -/
structure Applies (elf : Elf) (symbols : ElfData) (maps : List BpfMapData) (sec : Sec) : Prop where
  entsize : sec.shdr.entsize ≠ 0
  entries : nrels sec.shdr ≤ sec.data.rels.length
  all : ∀ rel ∈ sec.data.rels.take (nrels sec.shdr),
    Applicable symbols maps ((fileInsns elf sec.shdr.info).getD []) rel

/-- The section `i` makes `get_prog` end: its entries can be applied, and its target has a name
    that starts with the one asked for. -/
def Selects (elf : Elf) (symbols : ElfData) (maps : List BpfMapData) (progname : Bytes)
    (processedSec : ℕ → Bool) (i : ℕ) : Prop :=
  processedSec i = false ∧ ∃ sec prog, relocates elf i = some (sec, prog) ∧
    Applies elf symbols maps sec ∧ progname <+: prog.shname

/-- What no entry changes of an instruction: all of it, unless it is a `lddw`. -/
def frame (insn : BpfInsn) : BpfInsn := if insn.IsLddw then loadFd 0 insn else insn

theorem frame_loadFd (fd : ℤ) {insn : BpfInsn} (h : insn.IsLddw) :
    frame (loadFd fd insn) = frame insn := by
  have h' : (loadFd fd insn).IsLddw := h
  rw [frame, frame, if_pos h, if_pos h']
  rfl

theorem frame_spoil (insn : BpfInsn) : frame (spoil insn) = frame insn := by
  by_cases h : insn.IsLddw
  · have h' : (spoil insn).IsLddw := by
      rw [spoil, if_pos h]
      exact h
    rw [frame, frame, if_pos h, if_pos h', spoil, if_pos h]
    rfl
  · rw [spoil, if_neg h]

theorem loadFd_congr {fd : ℤ} {insn insn' : BpfInsn} (h : frame insn = frame insn') :
    loadFd fd insn = loadFd fd insn' := by
  have hfd (insn : BpfInsn) : loadFd fd insn = loadFd fd (frame insn) := by
    rw [frame]
    split <;> rfl
  rw [hfd, h, ← hfd]

/-- Instructions of the same frames have the same codes. -/
theorem map_code_congr {insns insns' : List BpfInsn} (h : insns.map frame = insns'.map frame) :
    insns.map BpfInsn.code = insns'.map BpfInsn.code := by
  have hcode (insns : List BpfInsn) :
      insns.map BpfInsn.code = (insns.map frame).map BpfInsn.code := by
    rw [List.map_map]
    refine List.map_congr_left fun insn _ => ?_
    rw [Function.comp_apply, frame]
    split <;> rfl
  rw [hcode, h, ← hcode]

section

variable {elf : Elf} {symbols : ElfData} {maps : List BpfMapData} {progname : Bytes}

/-- What the instructions of a section have become: those of the file, up to what entries for the
    instructions `ks` have changed. -/
structure ChangedAt (ks : ℕ → Prop) (insns insns' : List BpfInsn) : Prop where
  frame : insns'.map frame = insns.map frame
  unchanged : ∀ k, ¬ks k → insns'[k]? = insns[k]?

theorem ChangedAt.refl (ks : ℕ → Prop) (insns : List BpfInsn) : ChangedAt ks insns insns :=
  ⟨rfl, fun _ _ => rfl⟩

theorem ChangedAt.trans {ks : ℕ → Prop} {insns insns' insns'' : List BpfInsn}
    (h : ChangedAt ks insns insns') (h' : ChangedAt ks insns' insns'') :
    ChangedAt ks insns insns'' :=
  ⟨h'.frame.trans h.frame, fun k hk => (h'.unchanged k hk).trans (h.unchanged k hk)⟩

theorem ChangedAt.mono {ks ks' : ℕ → Prop} (hks : ∀ k, ks k → ks' k) {insns insns' : List BpfInsn}
    (h : ChangedAt ks insns insns') : ChangedAt ks' insns insns' :=
  ⟨h.frame, fun k hk => h.unchanged k fun hk' => hk (hks k hk')⟩

/-- Applying entries changes the instructions they are for. -/
theorem changedAt_applied {rels : List GElfRel} {insns : List BpfInsn}
    (hall : ∀ rel ∈ rels, Applicable symbols maps insns rel) :
    ChangedAt (fun k => ∃ rel ∈ rels, relIdx rel = k) insns (applied symbols maps rels insns) where
  frame := by
    apply List.ext_getElem?
    intro k
    rw [List.getElem?_map, List.getElem?_map, getElem?_applied, Option.map_map]
    rcases hlast : (rels.filter (relIdx · = k)).getLast? with _ | rel
    · rfl
    · -- The instruction of an entry is a `lddw`.
      obtain ⟨hmem, hidx⟩ := List.mem_filter.1 (List.mem_of_getLast? hlast)
      obtain ⟨insn, hinsn, hlddw⟩ := (hall rel hmem).isLddw
      rw [of_decide_eq_true hidx] at hinsn
      rw [hinsn]
      exact congrArg some (frame_loadFd _ hlddw)
  unchanged _ hk := Writes.getElem?_run_of_forall_ne (fun rel hrel hidx => hk ⟨rel, hrel, hidx⟩) _

theorem changedAt_spoil (idx : ℕ) (insns : List BpfInsn) :
    ChangedAt (· = idx) insns (insns.modify idx spoil) where
  frame := by
    apply List.ext_getElem?
    intro k
    rw [List.getElem?_map, List.getElem?_map, List.getElem?_modify, Option.map_eq_map,
      Option.map_map]
    refine congrArg (Option.map · _) ?_
    funext insn
    rw [Function.comp_apply]
    split
    · exact frame_spoil insn
    · rfl
  unchanged k hk := by
    rw [List.getElem?_modify]
    simp [Ne.symm hk]

/-- An entry that is rejected cannot be applied. -/
theorem Rejected.not_applicable {insns : List BpfInsn} {rel : GElfRel}
    (h : Rejected symbols maps insns rel) : ¬Applicable symbols maps insns rel := by
  intro happ
  obtain ⟨code, hcode, hrej⟩ := h
  rw [happ.code] at hcode
  obtain rfl := Option.some.inj hcode
  obtain ⟨map, href⟩ := Option.isSome_iff_exists.1 happ.map
  obtain ⟨sym, hsym, hfind⟩ := Option.bind_eq_some_iff.1 (refMap.eq_1 _ _ _ ▸ href)
  have hmap := List.mem_of_find?_eq_some hfind
  rcases hrej with hne | hnil | ⟨sym', hsym', hall⟩
  · exact hne rfl
  · exact List.ne_nil_of_mem hmap hnil
  · obtain rfl := Option.some.inj (hsym.symm.trans hsym')
    exact hall map hmap (by simpa using List.find?_some hfind)

/-- Whether the entries of a section are all applied can be told from the file, and when they are
    not, nothing else than the instructions they are for is changed either. -/
theorem parseReloAndApply_ok {sec : Sec} {insns insns' : List BpfInsn} {b : Bool}
    (hframe : insns.map frame = ((fileInsns elf sec.shdr.info).getD []).map frame)
    (h : parseReloAndApply sec.data symbols sec.shdr insns maps = .ok (b, insns')) :
    (b = true ↔ Applies elf symbols maps sec) ∧
      (b = true → insns' = applied symbols maps (sec.data.rels.take (nrels sec.shdr)) insns) ∧
      ChangedAt (fun k => ∃ rel ∈ sec.data.rels.take (nrels sec.shdr), relIdx rel = k)
        insns insns' := by
  have hcode := map_code_congr hframe
  cases b with
  | true =>
    obtain ⟨hent, hle, hall, rfl⟩ := parseReloAndApply_eq_true.1 h
    exact ⟨iff_of_true rfl ⟨hent, hle, fun rel hrel => (Applicable.congr hcode).1 (hall rel hrel)⟩,
      fun _ => rfl, changedAt_applied hall⟩
  | false =>
    obtain ⟨-, j, rel, hj, hrel, hbefore, hrej, rfl⟩ := parseReloAndApply_eq_false.1 h
    have hmem : rel ∈ sec.data.rels.take (nrels sec.shdr) :=
      List.mem_iff_getElem?.2 ⟨j, by rw [List.getElem?_take, if_pos hj, hrel]⟩
    have hsub : ∀ r ∈ sec.data.rels.take j, r ∈ sec.data.rels.take (nrels sec.shdr) :=
      fun r hr => (List.take_subset_take_left _ hj.le) hr
    refine ⟨iff_of_false Bool.false_ne_true fun happ => ?_, fun hb => (by cases hb), ?_⟩
    · exact hrej.not_applicable ((Applicable.congr hcode).2 (happ.all rel hmem))
    · refine ((changedAt_applied hbefore).mono fun k hk => ?_).trans
        ((changedAt_spoil _ _).mono fun k hk => ⟨rel, hmem, hk.symm⟩)
      obtain ⟨r, hr, hk⟩ := hk
      exact ⟨r, hsub r hr, hk⟩

/-! ## A step -/

/-- A comparison gives a result if it stays within the table of the names: whether the name starts
    with the word. -/
theorem memcmpName_eq_ok {sec : Sec} {s : Bytes} {eq : Bool} :
    memcmpName sec s = .ok eq ↔ s.length ≤ sec.shdr.nameRoom ∧ eq = decide (s <+: sec.shname) := by
  rw [memcmpName]
  split
  · exact ⟨fun h => (by cases h), fun h => absurd h.1 (not_le.2 ‹_›)⟩
  · exact ⟨fun h => ⟨not_lt.1 ‹_›, (Except.ok.inj h).symm⟩, fun h => by rw [h.2]⟩

/-- What the body of the loop does with a section of entries for instructions. -/
theorem relocateSec_of_relocates {r : Relocation} {i : ℕ} {sec prog : Sec} (hi : i < maxSecs)
    (hproc : r.processedSec i = false) (hrel : relocates elf i = some (sec, prog)) :
    relocateSec elf symbols maps progname r i =
      parseReloAndApply sec.data symbols sec.shdr ((r.insns sec.shdr.info).getD []) maps >>=
        fun res =>
          let r' := r.apply i sec.shdr.info res.2
          if res.1 then
            (memcmpName prog progname).map fun eq => (r', if eq then
              some { insns := r'.insns sec.shdr.info, len := prog.data.size } else none)
          else .ok (r', none) := by
  obtain ⟨hsec, htype, hprog, hexec⟩ := relocates_eq_some.1 hrel
  rw [relocateSec, if_neg (not_le.2 hi), if_neg (by rw [hproc]; exact Bool.false_ne_true), hsec]
  dsimp only
  rw [if_neg (not_not.2 htype), hprog]
  dsimp only
  rw [if_neg (not_not.2 hexec)]

/-- A section of entries for instructions is processed: it is one that does not end the search, or
    it gives the program. -/
theorem relocateSec_processed {r r' : Relocation} {i : ℕ} {sec prog : Sec} {p? : Option Prog}
    (hi : i < maxSecs) (hproc : r.processedSec i = false)
    (hrel : relocates elf i = some (sec, prog))
    (h : relocateSec elf symbols maps progname r i = .ok (r', p?)) :
    ∃ b insns', parseReloAndApply sec.data symbols sec.shdr ((r.insns sec.shdr.info).getD []) maps =
        .ok (b, insns') ∧ r' = r.apply i sec.shdr.info insns' ∧
      p? = if b ∧ progname <+: prog.shname then
        some { insns := r'.insns sec.shdr.info, len := prog.data.size } else none := by
  rw [relocateSec_of_relocates hi hproc hrel] at h
  obtain ⟨⟨b, insns'⟩, hparse, h⟩ := Fold.bind_eq_ok.1 h
  refine ⟨b, insns', hparse, ?_⟩
  cases b with
  | false =>
    obtain ⟨rfl, rfl⟩ := Prod.mk.inj (Except.ok.inj h)
    exact ⟨rfl, rfl⟩
  | true =>
    obtain ⟨eq, hname, h⟩ := Fold.map_eq_ok.1 h
    obtain ⟨-, rfl⟩ := memcmpName_eq_ok.1 hname
    obtain ⟨rfl, rfl⟩ := Prod.mk.inj h
    simp

/-- Any other section is passed over. -/
theorem relocateSec_of_none {r : Relocation} {i : ℕ} (hi : i < maxSecs)
    (h : r.processedSec i = true ∨ relocates elf i = none) :
    relocateSec elf symbols maps progname r i = .ok (r, none) := by
  rw [relocateSec, if_neg (not_le.2 hi)]
  by_cases hproc : r.processedSec i = true
  · rw [if_pos hproc]
  · have hnone := h.resolve_left hproc
    rw [if_neg hproc]
    rw [relocates] at hnone
    rcases hsec : getSec elf i with _ | sec
    · rfl
    rw [hsec, Option.bind_some] at hnone
    dsimp only
    split
    · rfl
    · rename_i htype
      rw [if_pos (not_not.1 htype)] at hnone
      rcases hprog : getSec elf sec.shdr.info with _ | prog
      · rfl
      rw [hprog, Option.bind_some] at hnone
      dsimp only
      split
      · rfl
      · rename_i hexec
        rw [if_pos (not_not.1 hexec)] at hnone
        cases hnone

/-- What is known of the instructions while the sections `done` have been gone over. -/
def Changed (elf : Elf) (done : List ℕ) (r : Relocation) : Prop :=
  ∀ t, (r.insns t).isSome = (fileInsns elf t).isSome ∧
    ChangedAt (fun k => ∃ i ∈ done, target elf i = some t ∧ ∃ rel ∈ entries elf i, relIdx rel = k)
      ((fileInsns elf t).getD []) ((r.insns t).getD [])

theorem Changed.start (processedSec : ℕ → Bool) : Changed elf [] ⟨processedSec, fileInsns elf⟩ :=
  fun _ => ⟨rfl, .refl _ _⟩

/-- The instructions of the program that the section of entries `sec` selects. -/
structure Selected (elf : Elf) (symbols : ElfData) (maps : List BpfMapData) (done : List ℕ)
    (sec prog : Sec) (p : Prog) : Prop where
  len : p.len = prog.data.size
  isSome : p.insns.isSome = (fileInsns elf sec.shdr.info).isSome
  frame : (p.insns.getD []).map frame = ((fileInsns elf sec.shdr.info).getD []).map frame
  /-- The last entry for an instruction makes it load its map. -/
  applied : ∀ k rel, ((sec.data.rels.take (nrels sec.shdr)).filter (relIdx · = k)).getLast? =
      some rel → (p.insns.getD [])[k]? =
        ((fileInsns elf sec.shdr.info).getD [])[k]?.map (loadFd (refFd symbols maps rel))
  /-- An instruction without an entry is that of the file, up to the sections gone over. -/
  unchanged : ∀ k, (∀ rel ∈ sec.data.rels.take (nrels sec.shdr), relIdx rel ≠ k) →
    (∀ i ∈ done, target elf i = some sec.shdr.info → ∀ rel ∈ entries elf i, relIdx rel ≠ k) →
    (p.insns.getD [])[k]? = ((fileInsns elf sec.shdr.info).getD [])[k]?

theorem insns_apply_self (r : Relocation) (i t : ℕ) (insns : List BpfInsn) :
    (r.apply i t insns).insns t = (r.insns t).map fun _ => insns :=
  Function.update_self _ _ _

theorem insns_apply_of_ne {t t' : ℕ} (h : t' ≠ t) (r : Relocation) (i : ℕ) (insns : List BpfInsn) :
    (r.apply i t insns).insns t' = r.insns t' :=
  Function.update_of_ne h _ _

/-- Going over other sections as well leaves open what they change. -/
theorem Changed.mono {done done' : List ℕ} (hdone : done ⊆ done') {r : Relocation}
    (hr : Changed elf done r) : Changed elf done' r := by
  refine fun t => ⟨(hr t).1, (hr t).2.mono fun k hk => ?_⟩
  obtain ⟨j, hj, hk⟩ := hk
  exact ⟨j, hdone hj, hk⟩

section

variable {r : Relocation} {i : ℕ} {sec prog : Sec} {insns' : List BpfInsn}
  (hch : ChangedAt (fun k => ∃ rel ∈ sec.data.rels.take (nrels sec.shdr), relIdx rel = k)
    ((r.insns sec.shdr.info).getD []) insns')

include hch

/-- The instructions once the entries of a section have been applied to them. If the section has
    no data in the file, there are none before and after. -/
theorem getD_insns_apply :
    ((r.apply i sec.shdr.info insns').insns sec.shdr.info).getD [] = insns' := by
  rw [insns_apply_self]
  cases hr : r.insns sec.shdr.info with
  | some insns => rfl
  | none =>
    rw [hr, Option.getD_none] at hch
    exact (List.map_eq_nil_iff.1 hch.frame).symm

variable {done : List ℕ} (hr : Changed elf done r)

include hr

/-- Processing a section of entries changes the instructions they are for. -/
theorem Changed.apply (hrel : relocates elf i = some (sec, prog)) :
    Changed elf (done ++ [i]) (r.apply i sec.shdr.info insns') := by
  intro t
  by_cases ht : t = sec.shdr.info
  · rw [ht]
    refine ⟨?_, ?_⟩
    · rw [insns_apply_self, Option.isSome_map]
      exact (hr _).1
    · have htarget : target elf i = some sec.shdr.info := by rw [target, hrel]; rfl
      have hentries : entries elf i = sec.data.rels.take (nrels sec.shdr) := by
        rw [entries, hrel]
        rfl
      rw [getD_insns_apply hch]
      refine ((hr.mono (List.subset_append_left _ _)) _).2.trans (hch.mono fun k hk => ?_)
      exact ⟨i, by simp, htarget, hentries ▸ hk⟩
  · rw [insns_apply_of_ne ht]
    exact hr.mono (List.subset_append_left _ _) t

/-- What is known of the program that a section selects, all of its entries having been applied. -/
theorem Changed.selected (happ : insns' = applied symbols maps
      (sec.data.rels.take (nrels sec.shdr)) ((r.insns sec.shdr.info).getD [])) :
    Selected elf symbols maps done sec prog
      ⟨(r.apply i sec.shdr.info insns').insns sec.shdr.info, prog.data.size⟩ := by
  obtain ⟨hisSome, hchanged⟩ := hr sec.shdr.info
  refine ⟨rfl, ?_, ?_, fun k rel hlast => ?_, fun k hk hdone => ?_⟩
  · rw [insns_apply_self, Option.isSome_map]
    exact hisSome
  · rw [getD_insns_apply hch, hch.frame, hchanged.frame]
  · rw [getD_insns_apply hch, happ, getElem?_applied, hlast]
    -- What it loads does not depend on what earlier sections have made of the instruction.
    have hat := congrArg (·[k]?) hchanged.frame
    rw [List.getElem?_map, List.getElem?_map] at hat
    rcases hk : ((r.insns sec.shdr.info).getD [])[k]? with _ | insn
    · rw [hk] at hat
      rw [Option.map_eq_none_iff.1 hat.symm]
      rfl
    · rw [hk] at hat
      obtain ⟨insn', hinsn', hfr⟩ := Option.map_eq_some_iff.1 hat.symm
      rw [hinsn']
      exact congrArg some (loadFd_congr hfr.symm)
  · rw [getD_insns_apply hch, hch.unchanged k fun ⟨rel, hrel, hidx⟩ => hk rel hrel hidx]
    exact hchanged.unchanged k fun ⟨j, hj, htar, rel, hrel, hidx⟩ => hdone j hj htar rel hrel hidx

end

/-- What the body of the loop does: a section that does not select its target keeps what is known
    of the instructions. -/
theorem relocateSec_ok {done : List ℕ} {r r' : Relocation} {i : ℕ} {p? : Option Prog}
    (hr : Changed elf done r) (h : relocateSec elf symbols maps progname r i = .ok (r', p?)) :
    i < maxSecs ∧ Changed elf (done ++ [i].filter (!r.processedSec ·)) r' ∧
      (∀ j, j ≠ i → r'.processedSec j = r.processedSec j) ∧
      (r'.processedSec i = true ↔ r.processedSec i = true ∨ (relocates elf i).isSome) ∧
      (p?.isSome ↔ Selects elf symbols maps progname r.processedSec i) ∧
      ∀ p, p? = some p → ∃ sec prog, relocates elf i = some (sec, prog) ∧
        Selected elf symbols maps done sec prog p := by
  have hi : i < maxSecs := by
    by_contra hle
    rw [relocateSec, if_pos (not_lt.1 hle)] at h
    cases h
  refine ⟨hi, ?_⟩
  by_cases hskip : r.processedSec i = true ∨ relocates elf i = none
  · rw [relocateSec_of_none hi hskip] at h
    cases h
    refine ⟨hr.mono (List.subset_append_left _ _), fun _ _ => rfl, ?_,
      iff_of_false Bool.false_ne_true ?_, fun p hp => (by cases hp)⟩
    · exact ⟨fun h => .inl h, fun h => h.elim id fun hsome =>
        hskip.resolve_right fun hnone => by simp [hnone] at hsome⟩
    · rintro ⟨hproc, sec, prog, hrel, -⟩
      rcases hskip with hproc' | hnone
      · exact Bool.false_ne_true (hproc.symm.trans hproc')
      · cases hrel.symm.trans hnone
  push Not at hskip
  obtain ⟨hproc, hsome⟩ := hskip
  replace hproc : r.processedSec i = false := Bool.eq_false_of_not_eq_true hproc
  obtain ⟨⟨sec, prog⟩, hrel⟩ := Option.ne_none_iff_exists'.1 hsome
  obtain ⟨b, insns', hparse, rfl, rfl⟩ := relocateSec_processed hi hproc hrel h
  obtain ⟨happ, hinsns, hch⟩ := parseReloAndApply_ok (hr sec.shdr.info).2.frame hparse
  have hfilter : [i].filter (!r.processedSec ·) = [i] := by rw [List.filter_singleton, hproc]; rfl
  rw [hfilter]
  refine ⟨Changed.apply hch hr hrel, fun j hj => Function.update_of_ne hj _ _, ?_, ?_, ?_⟩
  · exact iff_of_true (Function.update_self _ _ _) (.inr (by rw [hrel]; rfl))
  · constructor
    · intro hp
      split at hp
      · rename_i hcond
        exact ⟨hproc, sec, prog, hrel, happ.1 hcond.1, hcond.2⟩
      · cases hp
    · rintro ⟨-, sec', prog', hrel', happ', hname⟩
      obtain ⟨rfl, rfl⟩ := Prod.mk.inj (Option.some.inj (hrel.symm.trans hrel'))
      rw [if_pos ⟨happ.2 happ', hname⟩]
      rfl
  · intro p hp
    split at hp
    · rename_i hcond
      cases hp
      exact ⟨sec, prog, hrel, Changed.selected hch hr (hinsns hcond.1)⟩
    · cases hp

/-- A section that the loop goes over has entries that can be read: they are applied if each of
    them can be. -/
theorem relocateSec_applies {done : List ℕ} {r r' : Relocation} {i : ℕ} {p? : Option Prog}
    (hr : Changed elf done r) (h : relocateSec elf symbols maps progname r i = .ok (r', p?))
    (hproc : r.processedSec i = false) {sec prog : Sec} (hrel : relocates elf i = some (sec, prog))
    (hall : ∀ rel ∈ sec.data.rels.take (nrels sec.shdr),
      Applicable symbols maps ((fileInsns elf sec.shdr.info).getD []) rel) :
    Applies elf symbols maps sec := by
  obtain ⟨b, insns', hparse, -⟩ := relocateSec_processed (relocateSec_ok hr h).1 hproc hrel h
  have hframe := (hr sec.shdr.info).2.frame
  cases b with
  | true => exact (parseReloAndApply_ok hframe hparse).1.1 rfl
  | false =>
    obtain ⟨-, j, rel, hj, hrel', -, hrej, -⟩ := parseReloAndApply_eq_false.1 hparse
    have hmem : rel ∈ sec.data.rels.take (nrels sec.shdr) :=
      List.mem_iff_getElem?.2 ⟨j, by rw [List.getElem?_take, if_pos hj, hrel']⟩
    exact absurd ((Applicable.congr (map_code_congr hframe)).2 (hall rel hmem))
      hrej.not_applicable

/-! ## The search -/

/-- Whether a section selects its target does not depend on what becomes of the others. -/
theorem Selects.congr {processedSec processedSec' : ℕ → Bool} {i : ℕ}
    (h : processedSec i = processedSec' i) :
    Selects elf symbols maps progname processedSec i ↔
      Selects elf symbols maps progname processedSec' i := by
  rw [Selects, Selects, h]

/-- The search fails exactly if no section selects its target. The sections of entries for
    instructions have all been processed then. -/
theorem relocateSecs_none {is done : List ℕ} {r r' : Relocation} (hnodup : is.Nodup)
    (hr : Changed elf done r)
    (h : relocateSecs elf symbols maps progname is r = .ok (r', none)) :
    (∀ i ∈ is, i < maxSecs ∧ ¬Selects elf symbols maps progname r.processedSec i) ∧
      ∀ j, r'.processedSec j = true ↔
        r.processedSec j = true ∨ j ∈ is ∧ (relocates elf j).isSome := by
  induction is generalizing done r with
  | nil =>
    cases h
    exact ⟨fun i hi => absurd hi List.not_mem_nil, fun j => by simp⟩
  | cons i is ih =>
    obtain ⟨hnotin, hnodup'⟩ := List.nodup_cons.1 hnodup
    rw [relocateSecs] at h
    obtain ⟨⟨r₁, p?⟩, hstep, h⟩ := Fold.bind_eq_ok.1 h
    obtain ⟨hi, hr₁, hothers, hself, hsel, -⟩ := relocateSec_ok hr hstep
    split at h
    · rename_i hsome
      cases h
      exact absurd hsome Bool.false_ne_true
    rename_i hnone
    -- The step has only marked this section, which does not come again.
    obtain ⟨hall, hproc⟩ := ih hnodup' hr₁ h
    constructor
    · rintro j (_ | ⟨_, hj⟩)
      · exact ⟨hi, fun h => hnone (hsel.2 h)⟩
      · have hne : j ≠ i := fun heq => hnotin (heq ▸ hj)
        exact ⟨(hall j hj).1, fun h => (hall j hj).2 ((Selects.congr (hothers j hne)).2 h)⟩
    · intro j
      rw [hproc, List.mem_cons]
      by_cases hne : j = i
      · rw [hne, hself]
        simp [hnotin]
      · rw [hothers j hne]
        simp [hne]

/-- The search ends at the first section that selects its target, with the target as the entries
    for it have left it, other than those of sections that had been processed before. -/
theorem relocateSecs_some {is done : List ℕ} {r r' : Relocation} {p : Prog} (hnodup : is.Nodup)
    (hr : Changed elf done r)
    (h : relocateSecs elf symbols maps progname is r = .ok (r', some p)) :
    ∃ pre i post sec prog, is = pre ++ i :: post ∧
      (∀ j ∈ pre, ¬Selects elf symbols maps progname r.processedSec j) ∧
      Selects elf symbols maps progname r.processedSec i ∧
      relocates elf i = some (sec, prog) ∧
      Selected elf symbols maps (done ++ pre.filter (!r.processedSec ·)) sec prog p := by
  induction is generalizing done r with
  | nil => cases h
  | cons i is ih =>
    obtain ⟨hnotin, hnodup'⟩ := List.nodup_cons.1 hnodup
    rw [relocateSecs] at h
    obtain ⟨⟨r₁, p?⟩, hstep, h⟩ := Fold.bind_eq_ok.1 h
    obtain ⟨-, hr₁, hothers, -, hsel, hprog⟩ := relocateSec_ok hr hstep
    split at h
    · rename_i hsome
      obtain ⟨rfl, rfl⟩ := Prod.mk.inj (Except.ok.inj h)
      obtain ⟨sec, prog, hrel, hselected⟩ := hprog p rfl
      refine ⟨[], i, is, sec, prog, rfl, fun j hj => absurd hj List.not_mem_nil, hsel.1 hsome, hrel,
        ?_⟩
      rwa [List.filter_nil, List.append_nil]
    · rename_i hnone
      obtain ⟨pre, j, post, sec, prog, hsplit, hpre, hj, hrel, hselected⟩ := ih hnodup' hr₁ h
      -- The later sections select their targets as they would have before this one.
      have hcongr {k : ℕ} (hk : k ∈ is) : Selects elf symbols maps progname r₁.processedSec k ↔
          Selects elf symbols maps progname r.processedSec k :=
        Selects.congr (hothers k fun heq => hnotin (heq ▸ hk))
      refine ⟨i :: pre, j, post, sec, prog, by rw [hsplit]; rfl, ?_, ?_, hrel, ?_⟩
      · rintro k (_ | ⟨_, hk⟩)
        · exact fun h => hnone (hsel.2 h)
        · exact fun h => hpre k hk ((hcongr (hsplit ▸ List.mem_append_left _ hk)).2 h)
      · exact (hcongr (hsplit ▸ by simp)).1 hj
      · have hfilter : pre.filter (!r₁.processedSec ·) = pre.filter (!r.processedSec ·) :=
          List.filter_congr fun k hk => by
            rw [hothers k fun heq => hnotin (heq ▸ hsplit ▸ List.mem_append_left _ hk)]
        rwa [hfilter, List.append_assoc, ← List.filter_append, List.singleton_append] at hselected

/-- So does each section that the search gets to. -/
theorem relocateSecs_applies {pre post done : List ℕ} {r r' : Relocation} {i : ℕ}
    {p? : Option Prog} (hnodup : (pre ++ i :: post).Nodup) (hr : Changed elf done r)
    (h : relocateSecs elf symbols maps progname (pre ++ i :: post) r = .ok (r', p?))
    (hpre : ∀ j ∈ pre, ¬Selects elf symbols maps progname r.processedSec j)
    (hproc : r.processedSec i = false) {sec prog : Sec} (hrel : relocates elf i = some (sec, prog))
    (hall : ∀ rel ∈ sec.data.rels.take (nrels sec.shdr),
      Applicable symbols maps ((fileInsns elf sec.shdr.info).getD []) rel) :
    Applies elf symbols maps sec := by
  induction pre generalizing done r with
  | nil =>
    rw [List.nil_append, relocateSecs] at h
    obtain ⟨⟨r₁, p?₁⟩, hstep, -⟩ := Fold.bind_eq_ok.1 h
    exact relocateSec_applies hr hstep hproc hrel hall
  | cons j pre ih =>
    rw [List.cons_append, relocateSecs] at h
    obtain ⟨hnotin, hnodup'⟩ := List.nodup_cons.1 hnodup
    obtain ⟨⟨r₁, p?₁⟩, hstep, h⟩ := Fold.bind_eq_ok.1 h
    obtain ⟨-, hr₁, hothers, -, hsel, -⟩ := relocateSec_ok hr hstep
    split at h
    · rename_i hsome
      exact absurd (hsel.1 hsome) (hpre j List.mem_cons_self)
    · have hne {k : ℕ} (hk : k ∈ pre ++ i :: post) : k ≠ j := fun heq => hnotin (heq ▸ hk)
      refine ih hnodup' hr₁ h (fun k hk hsel' => ?_) ?_
      · exact hpre k (List.mem_cons_of_mem _ hk)
          ((Selects.congr (hothers k (hne (List.mem_append_left _ hk)))).1 hsel')
      · rw [hothers i (hne (by simp)), hproc]

end

/-! ## The first pass -/

/-- The section `i` holds the license or the version. -/
def isInfo (elf : Elf) (i : ℕ) : Bool :=
  (getSec elf i).any fun sec => sec.shname = cstr "license" ∨ sec.shname = cstr "version"

/-- The section `i` holds the maps. -/
def isMaps (elf : Elf) (i : ℕ) : Bool := (getSec elf i).any fun sec => sec.shname = cstr "maps"

/-- The data of the section `i`, if it is taken for the symbol table. -/
def symtabData (elf : Elf) (i : ℕ) : Option ElfData :=
  (getSec elf i).bind fun sec =>
    if isInfo elf i ∨ isMaps elf i ∨ sec.shdr.type ≠ shtSymtab then none else some sec.data

/-- `processed_sec` after the section `i`. -/
def processInfo (elf : Elf) (processedSec : ℕ → Bool) (i : ℕ) : ℕ → Bool :=
  if isInfo elf i then Function.update processedSec i true else processedSec

theorem setProcessed_eq_ok {processedSec processedSec' : ℕ → Bool} {i : ℕ} :
    setProcessed processedSec i = .ok processedSec' ↔
      i < maxSecs ∧ processedSec' = Function.update processedSec i true := by
  rw [setProcessed]
  split
  · exact ⟨fun h => ⟨‹_›, (Except.ok.inj h).symm⟩, fun h => by rw [h.2]⟩
  · exact ⟨fun h => (by cases h), fun h => absurd h.1 ‹_›⟩

/-- What a section adds to what has been found. -/
theorem scanSec_ok {elf : Elf} {scan scan' : Scan} {i : ℕ} (h : scanSec elf scan i = .ok scan') :
    scan' = ⟨processInfo elf scan.processedSec i, if isMaps elf i then some i else scan.mapsShndx,
      (symtabData elf i).or scan.symbols⟩ := by
  have hnames : cstr "license" ≠ cstr "maps" ∧ cstr "version" ≠ cstr "maps" := by decide
  rw [scanSec] at h
  rcases hsec : getSec elf i with _ | sec
  · rw [hsec] at h
    cases h
    simp [processInfo, symtabData, isInfo, isMaps, hsec]
  rw [hsec] at h
  dsimp only at h
  split at h
  · rename_i hlicense
    obtain ⟨processedSec, hproc, h⟩ := Fold.bind_eq_ok.1 h
    obtain ⟨-, rfl⟩ := setProcessed_eq_ok.1 hproc
    split at h
    · cases h
    split at h
    · cases h
    cases h
    simp [processInfo, symtabData, isInfo, isMaps, hsec, hlicense, hnames.1]
  rename_i hlicense
  split at h
  · rename_i hversion
    obtain ⟨processedSec, hproc, h⟩ := Fold.bind_eq_ok.1 h
    obtain ⟨-, rfl⟩ := setProcessed_eq_ok.1 hproc
    split at h
    · cases h
    split at h
    · cases h
    cases h
    simp [processInfo, symtabData, isInfo, isMaps, hsec, hversion, hnames.2]
  rename_i hversion
  split at h
  · rename_i hmaps
    cases h
    simp [processInfo, symtabData, isInfo, isMaps, hsec, hmaps, hnames.1.symm, hnames.2.symm]
  rename_i hmaps
  split at h
  · rename_i htype
    cases h
    simp [processInfo, symtabData, isInfo, isMaps, hsec, hlicense, hversion, hmaps, htype]
  · rename_i htype
    cases h
    simp [processInfo, symtabData, isInfo, isMaps, hsec, hlicense, hversion, hmaps, htype]

/-- A section ends the first pass if it is a version of another size than that of an `int`. -/
theorem scanSec_fail {elf : Elf} {scan : Scan} {i : ℕ} {processedSec : ℕ → Bool}
    (h : scanSec elf scan i = .error (.fail processedSec)) :
    isInfo elf i = true ∧ processedSec = processInfo elf scan.processedSec i := by
  rw [scanSec] at h
  rcases hsec : getSec elf i with _ | sec
  · rw [hsec] at h
    cases h
  rw [hsec] at h
  dsimp only at h
  -- A section out of the table does not make the pass fail: it is undefined.
  have hset {p : ℕ → Bool} {stop : Stop} (hp : setProcessed p i = .error stop) :
      stop = .fault .outOfBounds := by
    rw [setProcessed] at hp
    split at hp
    · cases hp
    · exact (Except.error.inj hp).symm
  split at h
  · rcases hproc : setProcessed scan.processedSec i with stop | p
    · rw [hproc, hset hproc] at h
      cases h
    rw [hproc, Fold.ok_bind] at h
    split at h
    · cases h
    split at h
    · cases h
    · cases h
  split at h
  · rename_i hversion
    rcases hproc : setProcessed scan.processedSec i with stop | p
    · rw [hproc, hset hproc] at h
      cases h
    rw [hproc, Fold.ok_bind] at h
    have hinfo : isInfo elf i = true := by simp [isInfo, hsec, hversion]
    split at h
    · cases h
      rw [processInfo, if_pos hinfo]
      exact ⟨hinfo, (setProcessed_eq_ok.1 hproc).2⟩
    split at h
    · cases h
    · cases h
  split at h
  · cases h
  split at h
  · cases h
  · cases h

/-- The sections that are processed in the first pass hold the license and the version. -/
theorem processInfo_eq_true {elf : Elf} {processedSec : ℕ → Bool} {i j : ℕ} :
    processInfo elf processedSec i j = true ↔
      processedSec j = true ∨ j = i ∧ isInfo elf i = true := by
  rw [processInfo]
  by_cases hinfo : isInfo elf i = true
  · rw [if_pos hinfo, Function.update_apply]
    by_cases hj : j = i <;> simp [hj, hinfo]
  · simp [hinfo]

/-- What the first pass finds: the last section of maps, and the last symbol table. -/
theorem scanSecs_ok {elf : Elf} {scan : Scan} (h : scanSecs elf = .ok scan) :
    (∀ i, scan.processedSec i = true ↔ i ∈ secIdxs elf ∧ isInfo elf i = true) ∧
      scan.mapsShndx = ((secIdxs elf).filter (isMaps elf)).getLast? ∧
      scan.symbols = ((secIdxs elf).filterMap (symtabData elf)).getLast? := by
  refine Fold.foldlM_induction (fun done (scan : Scan) =>
    (∀ i, scan.processedSec i = true ↔ i ∈ done ∧ isInfo elf i = true) ∧
      scan.mapsShndx = (done.filter (isMaps elf)).getLast? ∧
      scan.symbols = (done.filterMap (symtabData elf)).getLast?) ?_ ?_ h
  · exact ⟨fun i => by simp, rfl, rfl⟩
  · rintro done i scan scan' - ⟨hproc, hmaps, hsymbols⟩ hstep
    rw [scanSec_ok hstep]
    refine ⟨fun j => ?_, ?_, ?_⟩
    · rw [processInfo_eq_true, hproc, List.mem_append, List.mem_singleton, or_and_right]
      refine or_congr_right (and_congr_right fun hj => ?_)
      rw [hj]
    · rw [List.filter_append, List.getLast?_append, hmaps]
      by_cases hmaps' : isMaps elf i = true <;> simp [hmaps']
    · rw [List.filterMap_append, List.getLast?_append, hsymbols]
      rcases hsym : symtabData elf i with _ | data <;> simp [hsym]

/-- When the first pass ends early, only the license and the version have been processed. -/
theorem scanSecs_fail {elf : Elf} {processedSec : ℕ → Bool}
    (h : scanSecs elf = .error (.fail processedSec)) (j : ℕ) (hj : processedSec j = true) :
    isInfo elf j = true := by
  suffices hrun : ∀ (is : List ℕ) (scan : Scan),
      (∀ j, scan.processedSec j = true → isInfo elf j = true) →
      is.foldlM (scanSec elf) scan = .error (.fail processedSec) → isInfo elf j = true from
    hrun _ _ (fun j hj => (by cases hj)) h
  intro is
  induction is with
  | nil => exact fun scan _ hrun => (by cases hrun)
  | cons i is ih =>
    intro scan hscan hrun
    have hstep {k : ℕ} (hk : processInfo elf scan.processedSec i k = true) :
        isInfo elf k = true := by
      rcases processInfo_eq_true.1 hk with hk' | ⟨rfl, hinfo⟩
      · exact hscan k hk'
      · exact hinfo
    rw [List.foldlM_cons] at hrun
    rcases hsec : scanSec elf scan i with stop | scan'
    · rw [hsec] at hrun
      obtain rfl := Except.error.inj hrun
      obtain ⟨-, rfl⟩ := scanSec_fail hsec
      exact hstep hj
    · rw [hsec] at hrun
      exact ih scan' (fun k hk => hstep (by rw [scanSec_ok hsec] at hk; exact hk)) hrun

/-! ## The program found -/

section

variable {elf : Elf} {mapFd : ℤ} {progname : Bytes} {g : GetProg}

theorem nodup_secIdxs (elf : Elf) : (secIdxs elf).Nodup := List.nodup_range'

/-- What `get_prog` returns when the maps have been loaded. -/
theorem getProgFrom_of_maps {scan : Scan} {symbols : ElfData} {maps : Option (List BpfMapData)}
    (hsymbols : scan.symbols = some symbols)
    (hmaps : getMaps elf mapFd scan symbols = .ok (some maps)) :
    getProgFrom elf mapFd progname scan = relocateProg elf progname scan symbols maps := by
  rw [getProgFrom, hsymbols]
  dsimp only
  rw [hmaps]
  rfl

/-- `processed_sec` once `get_prog` has not found the program, whatever that is. -/
def processedSecs (elf : Elf) (mapFd : ℤ) : ℕ → Bool :=
  match scanSecs elf with
  | .error (.fault _) => fun _ => false
  | .error (.fail processedSec) => processedSec
  | .ok scan =>
    match scan.symbols.map (getMaps elf mapFd scan) with
    | some (.ok (some _)) => fun j =>
      scan.mapsProcessed j || (j ∈ secIdxs elf && (relocates elf j).isSome)
    | _ => scan.processedSec

/-- How `get_prog` returns: before the search, having processed at most the license and the version,
    or having gone over the sections of entries with the maps loaded. -/
theorem getProg_cases (h : getProg elf mapFd progname = .ok g) :
    (g.prog = none ∧ g.processedSec = processedSecs elf mapFd ∧
      (∀ j, g.processedSec j = true → isInfo elf j = true) ∧
      ∀ scan symbols maps, scanSecs elf = .ok scan → scan.symbols = some symbols →
        getMaps elf mapFd scan symbols ≠ .ok (some maps)) ∨
    ∃ scan symbols r, scanSecs elf = .ok scan ∧ scan.symbols = some symbols ∧
      getMaps elf mapFd scan symbols = .ok (some g.maps) ∧ g.processedSec = r.processedSec ∧
      relocateSecs elf symbols (g.maps.getD []) progname (secIdxs elf)
        ⟨scan.mapsProcessed, fileInsns elf⟩ = .ok (r, g.prog) := by
  rw [getProg] at h
  split at h
  · cases h
  · rename_i processedSec hfail
    cases h
    exact .inl ⟨rfl, by rw [processedSecs, hfail], scanSecs_fail hfail,
      fun scan _ _ hscan => by cases hfail.symm.trans hscan⟩
  rename_i scan hscan
  have hinfo (j : ℕ) (hj : scan.processedSec j = true) : isInfo elf j = true :=
    (((scanSecs_ok hscan).1 j).1 hj).2
  rcases hsymbols : scan.symbols with _ | symbols
  · rw [getProgFrom, hsymbols] at h
    cases h
    refine .inl ⟨rfl, by rw [processedSecs, hscan]; dsimp only; rw [hsymbols]; rfl, hinfo,
      fun scan' symbols maps hscan' hsymbols' => ?_⟩
    obtain rfl := Except.ok.inj (hscan.symm.trans hscan')
    cases hsymbols.symm.trans hsymbols'
  -- The maps may be found to be invalid, before any entry has been applied.
  rcases hmaps : getMaps elf mapFd scan symbols with f | _ | maps
  · rw [getProgFrom, hsymbols] at h
    dsimp only at h
    rw [hmaps] at h
    cases h
  · rw [getProgFrom, hsymbols] at h
    dsimp only at h
    rw [hmaps] at h
    cases h
    refine .inl ⟨rfl, by rw [processedSecs, hscan]; dsimp only; rw [hsymbols, Option.map_some, hmaps],
      hinfo, fun scan' symbols' maps hscan' hsymbols' hmaps' => ?_⟩
    obtain rfl := Except.ok.inj (hscan.symm.trans hscan')
    obtain rfl := Option.some.inj (hsymbols.symm.trans hsymbols')
    cases hmaps.symm.trans hmaps'
  rw [getProgFrom_of_maps hsymbols hmaps, relocateProg] at h
  obtain ⟨⟨r, p?⟩, hrun, h⟩ := Fold.bind_eq_ok.1 h
  split at h
  · cases h
    exact .inr ⟨scan, symbols, r, hscan, hsymbols, hmaps, rfl, hrun⟩
  · rename_i hnone
    obtain rfl : p? = none := Option.not_isSome_iff_eq_none.1 hnone
    obtain ⟨_, -, h⟩ := Fold.map_eq_ok.1 h
    cases h
    exact .inr ⟨scan, symbols, r, hscan, hsymbols, hmaps, rfl, hrun⟩

/-- How a program is found by `get_prog`. -/
theorem getProg_some {p : Prog} (h : getProg elf mapFd progname = .ok g) (hp : g.prog = some p) :
    ∃ scan symbols, scanSecs elf = .ok scan ∧ scan.symbols = some symbols ∧
      getMaps elf mapFd scan symbols = .ok (some g.maps) ∧
      ∃ pre i post sec prog, secIdxs elf = pre ++ i :: post ∧
        (∀ j ∈ pre, ¬Selects elf symbols (g.maps.getD []) progname scan.mapsProcessed j) ∧
        Selects elf symbols (g.maps.getD []) progname scan.mapsProcessed i ∧
        relocates elf i = some (sec, prog) ∧
        Selected elf symbols (g.maps.getD []) (pre.filter (!scan.mapsProcessed ·)) sec prog p := by
  rcases getProg_cases h with ⟨hnone, -⟩ | ⟨scan, symbols, r, hscan, hsymbols, hmaps, -, hrun⟩
  · cases hp.symm.trans hnone
  · rw [hp] at hrun
    obtain ⟨pre, i, post, sec, prog, hsplit, hpre, hi, hrel, hsel⟩ :=
      relocateSecs_some (nodup_secIdxs elf) (Changed.start _) hrun
    exact ⟨scan, symbols, hscan, hsymbols, hmaps, pre, i, post, sec, prog, hsplit, hpre, hi, hrel,
      hsel⟩

/-- What is processed before the search. -/
theorem isInfo_or_isMaps {scan : Scan} (hscan : scanSecs elf = .ok scan) {j : ℕ}
    (hj : scan.mapsProcessed j = true) : isInfo elf j = true ∨ isMaps elf j = true := by
  obtain ⟨hproc, hmapsShndx, -⟩ := scanSecs_ok hscan
  rw [Scan.mapsProcessed] at hj
  rcases hshndx : scan.mapsShndx with _ | m
  · rw [hshndx] at hj
    exact .inl ((hproc j).1 hj).2
  · rw [hshndx, Option.elim_some] at hj
    by_cases hne : j = m
    · have hmem := List.mem_of_getLast? (hmapsShndx.symm.trans hshndx)
      exact .inr (hne ▸ (List.mem_filter.1 hmem).2)
    · rw [Function.update_of_ne hne] at hj
      exact .inl ((hproc j).1 hj).2

/-- When `get_prog` does not find the program, it has processed, at most, what is not a program,
    and none of the sections of entries has selected its target. -/
theorem getProg_none (h : getProg elf mapFd progname = .ok g) (hp : g.prog = none) :
    (∀ j, g.processedSec j = true →
      isInfo elf j = true ∨ isMaps elf j = true ∨ (relocates elf j).isSome) ∧
    ∀ scan symbols maps, scanSecs elf = .ok scan → scan.symbols = some symbols →
      getMaps elf mapFd scan symbols = .ok (some maps) → g.maps = maps ∧
        ∀ i ∈ secIdxs elf, i < maxSecs ∧
          ¬Selects elf symbols (maps.getD []) progname scan.mapsProcessed i := by
  rcases getProg_cases h with
    ⟨-, -, hinfo, hnot⟩ | ⟨scan, symbols, r, hscan, hsymbols, hmaps, hproc, hrun⟩
  · exact ⟨fun j hj => .inl (hinfo j hj), fun scan symbols maps hscan hsymbols hmaps =>
      absurd hmaps (hnot scan symbols maps hscan hsymbols)⟩
  rw [hp] at hrun
  obtain ⟨hall, hrproc⟩ := relocateSecs_none (nodup_secIdxs elf) (Changed.start _) hrun
  refine ⟨fun j hj => ?_, fun scan' symbols' maps' hscan' hsymbols' hmaps' => ?_⟩
  · rcases (hrproc j).1 (hproc ▸ hj) with hj' | ⟨-, hrel⟩
    · exact (isInfo_or_isMaps hscan hj').imp_right .inl
    · exact .inr (.inr hrel)
  · obtain rfl := Except.ok.inj (hscan.symm.trans hscan')
    obtain rfl := Option.some.inj (hsymbols.symm.trans hsymbols')
    obtain rfl := Option.some.inj (Except.ok.inj (hmaps.symm.trans hmaps'))
    exact ⟨rfl, hall⟩

end

/-! ## The search without maps -/

/-- The section `i` is taken for the program in the second search. -/
def Candidate (elf : Elf) (processedSec : ℕ → Bool) (progname : Bytes) (i : ℕ) : Prop :=
  processedSec i = false ∧ ∃ sec, getSec elf i = some sec ∧ progname <+: sec.shname

theorem lt_of_getSec {elf : Elf} {i : ℕ} {sec : Sec} (h : getSec elf i = some sec) :
    i < elf.scns.length := by
  obtain ⟨scn, hscn, -⟩ := Option.bind_eq_some_iff.1 h
  exact (List.getElem?_eq_some_iff.1 hscn).1

theorem secData_of_getSec {elf : Elf} {i : ℕ} {sec : Sec} (h : getSec elf i = some sec) :
    elf.secData i = some sec.data := by
  obtain ⟨scn, hscn, h⟩ := Option.bind_eq_some_iff.1 h
  obtain ⟨shname, -, h⟩ := Option.bind_eq_some_iff.1 h
  split at h
  · cases h
  · obtain ⟨data, hdata, rfl⟩ := Option.map_eq_some_iff.1 h
    rw [Elf.secData, hscn]
    exact hdata

/-- The second search ends at the first candidate, whose instructions are those of the file. -/
theorem findWithoutMaps_ok {elf : Elf} {processedSec : ℕ → Bool} {progname : Bytes} {is : List ℕ}
    {p? : Option Prog} (h : findWithoutMaps elf processedSec progname is = .ok p?) :
    (p? = none ∧ ∀ j ∈ is, ¬Candidate elf processedSec progname j) ∨
      ∃ pre i post sec, is = pre ++ i :: post ∧
        (∀ j ∈ pre, ¬Candidate elf processedSec progname j) ∧ processedSec i = false ∧
        getSec elf i = some sec ∧ progname <+: sec.shname ∧
        p? = some ⟨fileInsns elf i, sec.data.size⟩ := by
  induction is with
  | nil =>
    cases h
    exact .inl ⟨rfl, fun j hj => absurd hj List.not_mem_nil⟩
  | cons i is ih =>
    rw [findWithoutMaps] at h
    split at h
    · cases h
    have hskip (hi : ¬Candidate elf processedSec progname i)
        (h : findWithoutMaps elf processedSec progname is = .ok p?) :
        (p? = none ∧ ∀ j ∈ i :: is, ¬Candidate elf processedSec progname j) ∨
          ∃ pre k post sec, i :: is = pre ++ k :: post ∧
            (∀ j ∈ pre, ¬Candidate elf processedSec progname j) ∧ processedSec k = false ∧
            getSec elf k = some sec ∧ progname <+: sec.shname ∧
            p? = some ⟨fileInsns elf k, sec.data.size⟩ := by
      rcases ih h with ⟨hp, hall⟩ | ⟨pre, k, post, sec, hsplit, hpre, hfound⟩
      · refine .inl ⟨hp, ?_⟩
        rintro j (_ | ⟨_, hj⟩)
        · exact hi
        · exact hall j hj
      · refine .inr ⟨i :: pre, k, post, sec, by rw [hsplit]; rfl, ?_, hfound⟩
        rintro j (_ | ⟨_, hj⟩)
        · exact hi
        · exact hpre j hj
    split at h
    · rename_i hproc
      exact hskip (fun hc => Bool.false_ne_true (hc.1.symm.trans hproc)) h
    rename_i hproc
    rcases hsec : getSec elf i with _ | sec
    · rw [hsec] at h
      exact hskip (fun ⟨_, sec, hsec', _⟩ => (by cases hsec.symm.trans hsec')) h
    rw [hsec] at h
    dsimp only at h
    obtain ⟨eq, hname, h⟩ := Fold.bind_eq_ok.1 h
    obtain ⟨-, rfl⟩ := memcmpName_eq_ok.1 hname
    split at h
    · rename_i hname
      cases h
      refine .inr ⟨[], i, is, sec, rfl, fun j hj => absurd hj List.not_mem_nil,
        Bool.eq_false_of_not_eq_true hproc, hsec, of_decide_eq_true hname, ?_⟩
      rw [fileInsns, secData_of_getSec hsec]
      rfl
    · rename_i hname
      refine hskip ?_ h
      rintro ⟨-, sec', hsec', hname'⟩
      obtain rfl := Option.some.inj (hsec.symm.trans hsec')
      exact hname (decide_eq_true hname')

end BpfElfTools.OldExtractor
