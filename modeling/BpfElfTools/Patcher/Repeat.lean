import BpfElfTools.Patcher.Sequence

/-!
# Patching again and again

Sections are patched more than once, by one program after another that is tried
in them, and runs that fail lie between those that do not. A file that a run has
written may be the input of a later run, and may be overwritten by one.

* `main_after_history`: a run depends on nothing but its two inputs, whatever runs
  before it have done or left undone;
* `exec_editAll`: a sequence of edits splices its sections one after the other;
* `editAll_last`: of the edits of a section the last one counts, and the file is
  otherwise unchanged;
* `editAll_shows`: what pyelftools shows of the file after the edits;
* `editAll_restores_iff`: when the edits have undone each other.
-/

namespace BpfElfTools.Patcher

open Elf64 Splice

variable {κ : Type} [DecidableEq κ]

/-! ## What a run depends on -/

/-- The files of two runs agree on the inputs of the patcher and on its output. -/
def AgreeOnFiles (args : Args κ) (st st' : Store κ Byte) : Prop :=
  ∀ path, path = args.elfFile ∨ path = args.newInsns ∨ path = args.output → st path = st' path

section

variable {tools : PyElfTools} {host : Host κ} {args : Args κ} {st st' : Store κ Byte}

theorem agreeOnFiles_update (h : AgreeOnFiles args st st') (f : Option Bytes → Option Bytes) :
    AgreeOnFiles args (Function.update st args.output (f (st args.output)))
      (Function.update st' args.output (f (st' args.output))) := by
  intro path hpath
  by_cases hout : path = args.output
  · rw [hout, Function.update_self, Function.update_self, h _ (.inr (.inr rfl))]
  · rw [Function.update_of_ne hout, Function.update_of_ne hout, h path hpath]

omit [DecidableEq κ] in
theorem respects_openRead {path : κ} (hpath : path = args.elfFile ∨ path = args.newInsns) :
    Script.Respects (AgreeOnFiles args) (host.openRead path) :=
  Script.Respects.ask fun st st' hst => by rw [hst path (hpath.imp_right .inl)]

theorem respects_openWrite : Script.Respects (AgreeOnFiles args) (host.openWrite args.output) := by
  rw [Host.openWrite]
  split
  · exact Script.Respects.modifyFiles fun st st' hst => agreeOnFiles_update hst fun _ => some []
  · exact Script.Respects.fail _

theorem respects_writeTo (b : Bytes) :
    Script.Respects (AgreeOnFiles args) (writeTo args.output b) :=
  Script.Respects.modifyFiles fun _ _ hst => agreeOnFiles_update hst fun d => some (d.getD [] ++ b)

theorem respects_openAppend :
    Script.Respects (AgreeOnFiles args) (host.openAppend args.output) := by
  rw [Host.openAppend]
  split
  · exact respects_writeTo []
  · exact Script.Respects.fail _

theorem respects_copySection (elf : PyElf) (offset : ℕ) (name : Str) :
    Script.Respects (AgreeOnFiles args) (copySection elf args.output offset name) := by
  refine Script.Respects.bind (Script.Respects.ask fun _ _ _ => rfl) fun sec? => ?_
  cases sec? with
  | none => exact Script.Respects.fail _
  | some sec =>
    refine Script.Respects.bind (Script.Respects.ask fun _ _ _ => rfl) fun rawBytes => ?_
    exact Script.Respects.bind (respects_writeTo rawBytes) fun _ => Script.Respects.pure _

theorem respects_patchInsns : Script.Respects (AgreeOnFiles args)
    (patchInsns host args.output args.newInsns args.removeReloc) :=
  Script.Respects.bind (respects_openRead (.inr rfl)) fun _ => respects_writeTo _

/-- Every command of the patcher looks at its inputs and its output only. -/
theorem respects_main : Script.Respects (AgreeOnFiles args) (main tools host args) := by
  refine Script.Respects.bind ?_ fun _ => ?_
  · refine Script.Respects.bind respects_openWrite fun _ => ?_
    refine Script.Respects.bind respects_openWrite fun _ => ?_
    exact Script.Respects.bind (respects_openRead (.inl rfl)) fun _ => respects_writeTo _
  · refine Script.Respects.bind (respects_openRead (.inl rfl)) fun elfFile => ?_
    refine Script.Respects.bind respects_openAppend fun _ => ?_
    refine Script.Respects.bind (Script.Respects.ask fun _ _ _ => rfl) fun elf => ?_
    refine Script.Respects.bind (Script.Respects.ask fun _ _ _ => rfl) fun sec? => ?_
    cases sec? with
    | none => exact Script.Respects.fail _
    | some sec =>
      refine Script.Respects.bind ?_ fun offset => ?_
      · exact Script.Respects.foldlM (respects_copySection elf) _ _
      · exact Script.Respects.bind respects_patchInsns fun _ => respects_writeTo _

/-- What the output held before a run does not matter: it is emptied first. -/
theorem exec_main_create (hw : host.writable args.output = true) (st : Store κ Byte) :
    (main tools host args).exec (Store.create args.output st) = (main tools host args).exec st := by
  have hheader (st : Store κ Byte) : (readElfFileHeader host args.elfFile args.output).exec st =
      (do writeTo args.output (headerLoop 0 (← host.openRead args.elfFile)) : Py κ Unit).exec
        (Store.create args.output st) := by
    rw [readElfFileHeader, Script.run_bind_ok (Host.exec_openWrite hw),
      Script.run_bind_ok (Host.exec_openWrite hw), Function.update_idem]
    rfl
  refine Script.exec_bind_congr ?_
  rw [hheader, hheader, Store.create_eq_update, Store.create_eq_update, Function.update_idem]

/-- A run depends on its inputs only, and on those only as far as they are not the output. -/
theorem main_congr (h : ∀ path, path = args.elfFile ∨ path = args.newInsns → path ≠ args.output →
    st path = st' path) :
    ((main tools host args).exec st).1 = ((main tools host args).exec st').1 ∧
      (host.writable args.output = true → ((main tools host args).exec st).2 args.output =
        ((main tools host args).exec st').2 args.output) := by
  rcases hw : host.writable args.output with _ | _
  · rw [exec_main_denied hw, exec_main_denied hw]
    exact ⟨rfl, fun hw' => absurd hw' (by simp)⟩
  · have hagree : AgreeOnFiles args (Store.create args.output st)
        (Store.create args.output st') := by
      intro path hpath
      by_cases hout : path = args.output
      · rw [hout, Store.create_self, Store.create_self]
      · rw [Store.create_of_ne hout, Store.create_of_ne hout]
        exact h path (hpath.imp_right fun hpath => hpath.resolve_right hout) hout
    obtain ⟨hresult, hfiles⟩ := @respects_main κ _ tools host args _ _ hagree
    rw [exec_main_create hw, exec_main_create hw] at hresult hfiles
    exact ⟨hresult, fun _ => hfiles _ (.inr (.inr rfl))⟩

end

/-! ## What a run writes to -/

section

variable {tools : PyElfTools} {host : Host κ}

theorem onlyWrites_writeTo (path : κ) (b : Bytes) : Script.OnlyWrites path (writeTo path b) :=
  Script.OnlyWrites.modifyFiles fun st _ hpath => Store.append_of_ne hpath b st

theorem onlyWrites_openWrite (path : κ) : Script.OnlyWrites path (host.openWrite path) := by
  rw [Host.openWrite]
  split
  · exact Script.OnlyWrites.modifyFiles fun st _ hpath => Store.create_of_ne hpath st
  · exact Script.OnlyWrites.fail _

theorem onlyWrites_openAppend (path : κ) : Script.OnlyWrites path (host.openAppend path) := by
  rw [Host.openAppend]
  split
  · exact onlyWrites_writeTo path []
  · exact Script.OnlyWrites.fail _

theorem onlyWrites_copySection (elf : PyElf) (path : κ) (offset : ℕ) (name : Str) :
    Script.OnlyWrites path (copySection elf path offset name) := by
  refine Script.OnlyWrites.bind (Script.OnlyWrites.ask _) fun sec? => ?_
  cases sec? with
  | none => exact Script.OnlyWrites.fail _
  | some sec =>
    refine Script.OnlyWrites.bind (Script.OnlyWrites.ask _) fun rawBytes => ?_
    exact Script.OnlyWrites.bind (onlyWrites_writeTo path _) fun _ => Script.OnlyWrites.pure _

/-- A run writes to its output only, however it ends. -/
theorem onlyWrites_main (args : Args κ) : Script.OnlyWrites args.output (main tools host args) := by
  refine Script.OnlyWrites.bind ?_ fun _ => ?_
  · refine Script.OnlyWrites.bind (onlyWrites_openWrite _) fun _ => ?_
    refine Script.OnlyWrites.bind (onlyWrites_openWrite _) fun _ => ?_
    exact Script.OnlyWrites.bind (Script.OnlyWrites.ask _) fun _ => onlyWrites_writeTo _ _
  · refine Script.OnlyWrites.bind (Script.OnlyWrites.ask _) fun elfFile => ?_
    refine Script.OnlyWrites.bind (onlyWrites_openAppend _) fun _ => ?_
    refine Script.OnlyWrites.bind (Script.OnlyWrites.ask _) fun elf => ?_
    refine Script.OnlyWrites.bind (Script.OnlyWrites.ask _) fun sec? => ?_
    cases sec? with
    | none => exact Script.OnlyWrites.fail _
    | some sec =>
      refine Script.OnlyWrites.bind ?_ fun offset => ?_
      · exact Script.OnlyWrites.foldlM (onlyWrites_copySection elf _) _ _
      · refine Script.OnlyWrites.bind ?_ fun _ => onlyWrites_writeTo _ _
        exact Script.OnlyWrites.bind (Script.OnlyWrites.ask _) fun _ => onlyWrites_writeTo _ _

end

/-- The files after some runs, whether they have completed or not. -/
def runAll (tools : PyElfTools) (host : Host κ) (history : List (Args κ)) (st : Store κ Byte) :
    Store κ Byte :=
  history.foldl (fun st args => ((main tools host args).exec st).2) st

section

variable {tools : PyElfTools} {host : Host κ} {args : Args κ}

theorem runAll_frame {history : List (Args κ)} {path : κ}
    (h : ∀ earlier ∈ history, path ≠ earlier.output) (st : Store κ Byte) :
    runAll tools host history st path = st path := by
  induction history generalizing st with
  | nil => rfl
  | cons earlier history ih =>
    rw [runAll, List.foldl_cons, ← runAll, ih fun e he => h e (List.mem_cons_of_mem _ he)]
    exact onlyWrites_main earlier st path (h earlier List.mem_cons_self)

/-- A file that may not be written to is left as it is. -/
theorem runAll_denied {history : List (Args κ)} {path : κ} (hw : host.writable path = false)
    (st : Store κ Byte) : runAll tools host history st path = st path := by
  induction history generalizing st with
  | nil => rfl
  | cons earlier history ih =>
    rw [runAll, List.foldl_cons, ← runAll, ih]
    by_cases hout : path = earlier.output
    · rw [exec_main_denied (hout ▸ hw)]
    · exact onlyWrites_main earlier st path hout

/-- Runs that do not write to the inputs of a later run do not matter to it, whatever they have
    written and wherever they have failed: it ends like a run on the files as they were, and leaves
    the same output. -/
theorem main_after_history {history : List (Args κ)}
    (h : ∀ earlier ∈ history, ∀ path, path = args.elfFile ∨ path = args.newInsns →
      earlier.output = path → args.output = path) (st : Store κ Byte) :
    ((main tools host args).exec (runAll tools host history st)).1 =
        ((main tools host args).exec st).1 ∧
      ((main tools host args).exec (runAll tools host history st)).2 args.output =
        ((main tools host args).exec st).2 args.output := by
  have hcongr := @main_congr κ _ tools host args (runAll tools host history st) st
    fun path hpath hout => runAll_frame (fun earlier he heq =>
      hout (h earlier he path hpath heq.symm).symm) st
  refine ⟨hcongr.1, ?_⟩
  rcases hw : host.writable args.output with _ | _
  · rw [exec_main_denied hw, exec_main_denied hw]
    exact runAll_denied hw st
  · exact hcongr.2 hw

/-- Runs on the object of two sections: one that fails for a missing section, leaving an
    unfinished output, and one that replaces the first section, to another output. -/
def failedRuns : List (Args ℕ) :=
  [progArgs "a,c", { elfFile := 0, newInsns := 1, sectionName := "a".toList, output := 3 }]

theorem main_after_history_failedRuns : ∃ st',
    (main sampleTools openHost (progArgs "a")).exec (progFiles twoFile) = (.ok (), st') ∧
      ((main sampleTools openHost (progArgs "a")).exec
        (runAll sampleTools openHost failedRuns (progFiles twoFile))).1 = .ok () ∧
      ((main sampleTools openHost (progArgs "a")).exec
        (runAll sampleTools openHost failedRuns (progFiles twoFile))).2 2 = st' 2 := by
  have hruns : ∀ earlier ∈ failedRuns, earlier.output = 2 ∨ earlier.output = 3 := by decide
  have hc : Completes sampleTools openHost (progArgs "a") (progFiles twoFile) := by decide +kernel
  obtain ⟨st', hst'⟩ : ∃ st', (main sampleTools openHost (progArgs "a")).exec
      (progFiles twoFile) = (.ok (), st') := main_ok_iff.2 ⟨rfl, hc⟩
  have hkeep : ∀ earlier ∈ failedRuns, ∀ path, path = (progArgs "a").elfFile ∨
      path = (progArgs "a").newInsns → earlier.output = path → (progArgs "a").output = path := by
    intro earlier he path hpath heq
    have hpath' : path = 0 ∨ path = 1 := hpath
    have := hruns earlier he
    omega
  obtain ⟨hresult, hout⟩ := @main_after_history ℕ _ sampleTools openHost (progArgs "a")
    failedRuns hkeep (progFiles twoFile)
  rw [hst', show (progArgs "a").output = 2 from rfl] at hout
  exact ⟨st', hst', hresult.trans (congrArg Prod.fst hst'), hout⟩

end

/-! ## Edits -/

/-- A run to make: the section to patch, the file of its new instructions, whether relocations are
    removed from them, and the output. -/
structure Edit (κ : Type) where
  target : ℕ
  newInsns : κ
  removeReloc : Bool
  output : κ

namespace Edit

/-- The arguments of the run on the file `input`, whose sections are named as in `f`. -/
def args (decode : Bytes → Str) (f : Bytes) (row : List ℕ) (edit : Edit κ) (input : κ) :
    Args κ where
  elfFile := input
  newInsns := edit.newInsns
  sectionName := sectionName decode f edit.target
  sections := sectionString ((before row edit.target).map (sectionName decode f))
  output := edit.output
  removeReloc := edit.removeReloc

/-- The instructions that the run puts into its section. -/
def written (content : κ → Bytes) (edit : Edit κ) : Bytes :=
  patchedInsns (content edit.newInsns) edit.removeReloc

/-- The stretch that the run replaces, with what it replaces it by. -/
def splice (f : Bytes) (content : κ → Bytes) (edit : Edit κ) : ℕ × Bytes :=
  (shOffset f edit.target, edit.written content)

end Edit

/-- The runs `edits`, each on what the run before it has written. -/
def editAll (tools : PyElfTools) (host : Host κ) (decode : Bytes → Str) (f : Bytes)
    (row : List ℕ) (edits : List (Edit κ)) (input : κ) : Py κ κ :=
  edits.foldlM (fun path edit => do
    main tools host (edit.args decode f row path)
    return edit.output) input

/-- The files for the runs `edits`: those of the new instructions, which none of the outputs is.
    An output may be any file but the input of its run, also the first input or the output of an
    earlier run. -/
structure Ready (host : Host κ) (content : κ → Bytes) (edits : List (Edit κ)) (input : κ)
    (st : Store κ Byte) : Prop where
  newInsns : ∀ edit ∈ edits, st edit.newInsns = some (content edit.newInsns)
  outputs : (input :: edits.map Edit.output).IsChain (· ≠ ·)
  ne_newInsns : ∀ edit ∈ edits, ∀ edit' ∈ edits, edit.output ≠ edit'.newInsns
  readable : host.readable input = true
  access : ∀ edit ∈ edits, host.readable edit.newInsns = true ∧
    host.writable edit.output = true ∧ host.readable edit.output = true

/-- The last of the edits of a section. -/
def lastEdit (edits : List (Edit κ)) (t : ℕ) : Option (Edit κ) :=
  (edits.filter fun edit => edit.target = t).getLast?

/-- The edits are for sections of the row, and of their sizes. -/
def EditsFit (f : Bytes) (row : List ℕ) (content : κ → Bytes) (edits : List (Edit κ)) : Prop :=
  ∀ edit ∈ edits, edit.target ∈ row ∧ (edit.written content).length = shSize f edit.target

/-- The second section is patched twice, and the first in between, back and forth between two
    files, the input being overwritten. -/
def backAndForth : List (Edit ℕ) := [⟨2, 1, true, 10⟩, ⟨1, 1, false, 0⟩, ⟨2, 2, false, 10⟩]

/-- The contents of the files of new instructions. -/
def numberedContent (path : ℕ) : Bytes := (numberedFiles path).getD []

theorem fit_backAndForth : EditsFit twoFile [1, 2] numberedContent backAndForth := by
  simp only [EditsFit, backAndForth]
  decide +kernel

theorem ready_backAndForth : Ready openHost numberedContent backAndForth 0 numberedFiles := by
  refine ⟨?_, ?_, ?_, rfl, fun _ _ => ⟨rfl, rfl, rfl⟩⟩
  · decide +kernel
  · decide
  · decide

section

variable {tools : PyElfTools} {host : Host κ} {decode : Bytes → Str} {f g : Bytes} {row : List ℕ}
  {content : κ → Bytes} {edits : List (Edit κ)}

omit [DecidableEq κ] in
theorem mem_lastEdit {t : ℕ} {edit : Edit κ} (h : lastEdit edits t = some edit) :
    edit ∈ edits ∧ edit.target = t := by
  have hmem := List.mem_of_getLast? h
  rw [List.mem_filter, decide_eq_true_iff] at hmem
  exact hmem

omit [DecidableEq κ] in
theorem exists_lastEdit {edit : Edit κ} (h : edit ∈ edits) :
    ∃ last, lastEdit edits edit.target = some last := by
  cases hlast : lastEdit edits edit.target with
  | none =>
    rw [lastEdit, List.getLast?_eq_none_iff, List.filter_eq_nil_iff] at hlast
    exact absurd (decide_eq_true rfl) (hlast edit h)
  | some last => exact ⟨last, rfl⟩

/-- After a run the files are ready for the others. -/
theorem Ready.tail {edit : Edit κ} {input : κ} {st : Store κ Byte}
    (h : Ready host content (edit :: edits) input st) (b : Option Bytes) :
    Ready host content edits edit.output (Function.update st edit.output b) := by
  have hmem {e : Edit κ} (he : e ∈ edits) : e ∈ edit :: edits := List.mem_cons_of_mem _ he
  constructor
  · intro e he
    rw [Function.update_of_ne (h.ne_newInsns edit List.mem_cons_self e (hmem he)).symm]
    exact h.newInsns e (hmem he)
  · exact h.outputs.tail
  · exact fun e he e' he' => h.ne_newInsns e (hmem he) e' (hmem he')
  · exact (h.access edit List.mem_cons_self).2.2
  · exact fun e he => h.access e (hmem he)

omit [DecidableEq κ] in
/-- The edits keep the layout. -/
theorem Row.spliceAll (h : Row decode f row) (hfit : EditsFit f row content edits)
    (hg : SameLayout f g) :
    SameLayout f (Splice.spliceAll (edits.map (Edit.splice f content)) g) := by
  induction edits generalizing g with
  | nil => exact hg
  | cons edit edits ih =>
    obtain ⟨ht, hlen⟩ := hfit edit List.mem_cons_self
    exact ih (fun e he => hfit e (List.mem_cons_of_mem _ he)) (h.splice ht hlen hg)

/-- A sequence of edits splices its sections one after the other, and leaves the files alone that
    are not outputs. -/
theorem exec_editAll (h : Row decode f row) (hf : WellFormed f)
    (hreads : ∀ g, SameLayout f g → tools.Reads decode g) (hfit : EditsFit f row content edits)
    {input : κ} {st : Store κ Byte} (hg : SameLayout f g) (hinput : st input = some g)
    (hready : Ready host content edits input st) :
    ∃ st' path, (editAll tools host decode f row edits input).exec st = (.ok path, st') ∧
      st' path = some (spliceAll (edits.map (Edit.splice f content)) g) ∧
      ∀ path', (∀ edit ∈ edits, path' ≠ edit.output) → st' path' = st path' := by
  induction edits generalizing input st g with
  | nil => exact ⟨st, input, rfl, hinput, fun _ _ => rfl⟩
  | cons edit edits ih =>
    have hedit := List.mem_cons_self (a := edit) (l := edits)
    obtain ⟨ht, hlen⟩ := hfit edit hedit
    have hne : input ≠ edit.output := (List.isChain_cons_cons.1 hready.outputs).1
    -- The first run leaves a file of the same layout, on which the others go on.
    have hmain : (main tools host (edit.args decode f row input)).exec st =
        (.ok (), Function.update st edit.output (some (Splice.splice (shOffset f edit.target)
          (edit.written content) g))) :=
      exec_main_row h hf hg (hreads g hg) ht rfl rfl hlen hinput
        (hready.newInsns edit hedit) hne.symm (hready.ne_newInsns edit hedit edit hedit)
        hready.readable (hready.access edit hedit).1 (hready.access edit hedit).2.1
    obtain ⟨st', path, hexec, hout, hframe⟩ := ih (fun e he => hfit e (List.mem_cons_of_mem _ he))
      (h.splice ht hlen hg) (Function.update_self _ _ _) (hready.tail _)
    refine ⟨st', path, ?_, hout, fun path' hpath => ?_⟩
    · rw [editAll, List.foldlM_cons]
      exact (Script.run_bind_ok ((Script.run_bind_ok hmain).trans
        (Script.exec_pure edit.output _))).trans hexec
    · rw [hframe path' fun e he => hpath e (List.mem_cons_of_mem _ he)]
      exact Function.update_of_ne (hpath edit hedit) _ _

omit [DecidableEq κ] in
/-- The splices of the edits fit the file. -/
theorem Row.splices_fit (h : Row decode f row) (hfit : EditsFit f row content edits) :
    ∀ p ∈ edits.map (Edit.splice f content), p.1 + p.2.length ≤ f.length := by
  intro p hp
  obtain ⟨edit, hedit, rfl⟩ := List.mem_map.1 hp
  obtain ⟨ht, hlen⟩ := hfit edit hedit
  rw [Edit.splice, hlen]
  exact h.bounds _ ht

omit [DecidableEq κ] in
/-- A byte of a section is one that the edits of this section replace, and no others. -/
theorem Row.filter_covers (h : Row decode f row) (hfit : EditsFit f row content edits) {t i : ℕ}
    (ht : t ∈ row) (hi : i < shSize f t) :
    (edits.map (Edit.splice f content)).filter (fun p => Covers (shOffset f t + i) p) =
      (edits.filter fun edit => edit.target = t).map (Edit.splice f content) := by
  rw [List.filter_map]
  refine congrArg (List.map _) (List.filter_congr fun edit hedit => ?_)
  obtain ⟨ht', hlen⟩ := hfit edit hedit
  rw [Function.comp_apply, decide_eq_decide, Covers, Edit.splice, hlen]
  constructor
  · intro hcovers
    by_contra hne
    -- Sections of a row do not overlap.
    have happart := h.apart ht' ht hne hlen (List.length_replicate (a := (0 : Byte)))
    rw [Apart, hlen, List.length_replicate] at happart
    omega
  · rintro rfl
    omega

omit [DecidableEq κ] in
/-- After some edits, every section of the row holds what the last edit of it has put there, or
    what it held if there is none. -/
theorem Row.extract_edits (h : Row decode f row) (hfit : EditsFit f row content edits) {t : ℕ}
    (ht : t ∈ row) :
    Elf64.contents (Splice.spliceAll (edits.map (Edit.splice f content)) f) t =
      (lastEdit edits t).elim (Elf64.contents f t) (Edit.written content) := by
  have hlayout := h.spliceAll hfit (SameLayout.refl f)
  rw [Elf64.contents, ← hlayout.shOffset (h.lt t ht), ← hlayout.shSize (h.lt t ht)]
  apply List.ext_getElem?
  intro i
  simp only [List.extract_eq_take_drop, List.getElem?_take, List.getElem?_drop]
  rw [Nat.add_sub_cancel_left]
  split
  · rw [getElem?_spliceAll (h.splices_fit hfit), h.filter_covers hfit ht ‹_›, List.getLast?_map,
      ← lastEdit]
    cases hlast : lastEdit edits t with
    | none =>
      rw [Option.map_none, Option.elim_none, Option.elim_none, Elf64.contents,
        List.extract_eq_take_drop, List.getElem?_take, Nat.add_sub_cancel_left, if_pos ‹_›,
        List.getElem?_drop]
    | some edit =>
      obtain ⟨-, rfl⟩ := mem_lastEdit hlast
      rw [Option.map_some, Option.elim_some, Option.elim_some, Edit.splice,
        Nat.add_sub_cancel_left]
  · -- Both are as long as the section.
    cases hlast : lastEdit edits t with
    | none =>
      rw [Option.elim_none, Elf64.contents, List.extract_eq_take_drop, List.getElem?_take,
        Nat.add_sub_cancel_left, if_neg ‹_›]
    | some edit =>
      obtain ⟨hmem, rfl⟩ := mem_lastEdit hlast
      rw [Option.elim_some, List.getElem?_eq_none (by rw [(hfit edit hmem).2]; omega)]

omit [DecidableEq κ] in
/-- Outside the sections that are edited, nothing is changed. -/
theorem Row.getElem?_edits (h : Row decode f row) (hfit : EditsFit f row content edits) {i : ℕ}
    (hi : ∀ edit ∈ edits, i < shOffset f edit.target ∨
      shOffset f edit.target + shSize f edit.target ≤ i) :
    (Splice.spliceAll (edits.map (Edit.splice f content)) f)[i]? = f[i]? := by
  refine getElem?_spliceAll_of_notMem (h.splices_fit hfit) fun p hp => ?_
  obtain ⟨edit, hedit, rfl⟩ := List.mem_map.1 hp
  rw [Edit.splice, (hfit edit hedit).2]
  exact hi edit hedit

omit [DecidableEq κ] in
/-- The bytes that share none with the sections that are edited are kept. -/
theorem Row.agreeOn_edits (h : Row decode f row) (hfit : EditsFit f row content edits) {a b : ℕ}
    (hab : ∀ edit ∈ edits, ApartFrom f edit.target a b) :
    AgreeOn (Splice.spliceAll (edits.map (Edit.splice f content)) f) f a b := by
  intro i hi hi'
  refine h.getElem?_edits hfit fun edit hedit => ?_
  by_contra hin
  push Not at hin
  exact Finset.disjoint_left.1 (hab edit hedit) (Finset.mem_Ico.2 hin) (Finset.mem_Ico.2 ⟨hi, hi'⟩)

omit [DecidableEq κ] in
/-- The edits have no effect exactly if the last one of every section has put its original contents
    there. -/
theorem Row.edits_eq_self_iff (h : Row decode f row) (hfit : EditsFit f row content edits) :
    Splice.spliceAll (edits.map (Edit.splice f content)) f = f ↔
      ∀ t, ∀ edit ∈ lastEdit edits t, edit.written content = Elf64.contents f t := by
  constructor
  · intro heq t edit hlast
    obtain ⟨hmem, rfl⟩ := mem_lastEdit hlast
    have hsec := h.extract_edits hfit (hfit edit hmem).1
    rw [heq, Option.mem_def.1 hlast] at hsec
    exact hsec.symm
  · intro hlast
    apply List.ext_getElem?
    intro i
    by_cases hi : ∀ edit ∈ edits, i < shOffset f edit.target ∨
        shOffset f edit.target + shSize f edit.target ≤ i
    · exact h.getElem?_edits hfit hi
    · push Not at hi
      -- The byte is in a section that is edited, which holds what its last edit has put there.
      obtain ⟨edit, hedit, hle, hlt⟩ := hi
      obtain ⟨last, hlast'⟩ := exists_lastEdit hedit
      have hlayout := h.spliceAll hfit (SameLayout.refl f)
      have ht := (hfit edit hedit).1
      have hsec := h.extract_edits hfit ht
      rw [hlast', Option.elim_some, hlast _ last hlast', Elf64.contents,
        ← hlayout.shOffset (h.lt _ ht), ← hlayout.shSize (h.lt _ ht)] at hsec
      exact agreeOn_of_extract hsec i hle hlt

/-- Of the edits of a section the last one counts: any sequence of runs on the sections of a row
    succeeds, with or without removing relocations, each section finally holds what the last run
    for it has put there, and all the rest of the file is as it was. So are the other files. -/
theorem editAll_last (h : Row decode f row) (hf : WellFormed f)
    (hreads : ∀ g, SameLayout f g → tools.Reads decode g) (hfit : EditsFit f row content edits)
    {input : κ} {st : Store κ Byte} (hinput : st input = some f)
    (hready : Ready host content edits input st) :
    ∃ st' path output, (editAll tools host decode f row edits input).exec st = (.ok path, st') ∧
      st' path = some output ∧ output.length = f.length ∧
      (∀ t ∈ row, output.extract (shOffset f t) (shOffset f t + shSize f t) =
        (lastEdit edits t).elim (contents f t) (Edit.written content)) ∧
      (∀ i, (∀ edit ∈ edits, i < shOffset f edit.target ∨
        shOffset f edit.target + shSize f edit.target ≤ i) → output[i]? = f[i]?) ∧
      ∀ path', (∀ edit ∈ edits, path' ≠ edit.output) → st' path' = st path' := by
  obtain ⟨st', path, hexec, hout, hframe⟩ :=
    exec_editAll h hf hreads hfit (SameLayout.refl f) hinput hready
  have hlayout := h.spliceAll hfit (SameLayout.refl f)
  refine ⟨st', path, _, hexec, hout, hlayout.length.symm, fun t ht => ?_,
    fun i hi => h.getElem?_edits hfit hi, hframe⟩
  rw [← h.extract_edits hfit ht, contents, ← hlayout.shOffset (h.lt t ht),
    ← hlayout.shSize (h.lt t ht)]

theorem editAll_last_backAndForth : ∃ st' path output,
    (editAll sampleTools openHost ascii twoFile [1, 2] backAndForth 0).exec numberedFiles =
        (.ok path, st') ∧
      st' path = some output ∧
      output.extract (shOffset twoFile 1) (shOffset twoFile 1 + shSize twoFile 1) = numbered 1 ∧
      output.extract (shOffset twoFile 2) (shOffset twoFile 2 + shSize twoFile 2) = numbered 2 := by
  obtain ⟨st', path, output, hexec, hout, -, hrow, -⟩ := editAll_last row_twoFile
    wellFormed_twoFile reads_twoFile fit_backAndForth rfl
    ready_backAndForth
  exact ⟨st', path, output, hexec, hout, hrow 1 (by decide), hrow 2 (by decide)⟩

/-- The edits have undone each other, so that the file is as it was, exactly if the last edit of
    every section has put its original contents there. -/
theorem editAll_restores_iff (h : Row decode f row) (hf : WellFormed f)
    (hreads : ∀ g, SameLayout f g → tools.Reads decode g) (hfit : EditsFit f row content edits)
    {input : κ} {st : Store κ Byte} (hinput : st input = some f)
    (hready : Ready host content edits input st) :
    ∃ st' path output, (editAll tools host decode f row edits input).exec st = (.ok path, st') ∧
      st' path = some output ∧
      (output = f ↔ ∀ t, ∀ edit ∈ lastEdit edits t, edit.written content = contents f t) := by
  obtain ⟨st', path, hexec, hout, -⟩ :=
    exec_editAll h hf hreads hfit (SameLayout.refl f) hinput hready
  exact ⟨st', path, _, hexec, hout, h.edits_eq_self_iff hfit⟩

/-- The first section is replaced, and then by what it held before. -/
def undone : List (Edit ℕ) := [⟨1, 1, false, 10⟩, ⟨1, 3, false, 11⟩]

/-- The files: the object, new instructions, and the original ones. -/
def undoneFiles : Store ℕ Byte := fun path =>
  [twoFile, numbered 1, numbered 2, contents twoFile 1][path]?

theorem editAll_restores_iff_undone : ∃ st' path,
    (editAll sampleTools openHost ascii twoFile [1, 2] undone 0).exec undoneFiles =
        (.ok path, st') ∧ st' path = some twoFile := by
  have hfit : EditsFit twoFile [1, 2] (fun path => (undoneFiles path).getD []) undone := by
    simp only [EditsFit, undone]
    decide +kernel
  have hready : Ready openHost (fun path => (undoneFiles path).getD []) undone 0 undoneFiles := by
    refine ⟨?_, ?_, ?_, rfl, fun _ _ => ⟨rfl, rfl, rfl⟩⟩
    · decide +kernel
    · decide
    · decide
  obtain ⟨st', path, output, hexec, hout, hiff⟩ := editAll_restores_iff row_twoFile
    wellFormed_twoFile reads_twoFile hfit rfl hready
  refine ⟨st', path, hexec, hout.trans (congrArg some (hiff.2 fun t edit hlast => ?_))⟩
  obtain ⟨hmem, rfl⟩ := mem_lastEdit hlast
  have htarget : edit.target = 1 := by
    have hall : ∀ e ∈ undone, e.target = 1 := by decide
    exact hall edit hmem
  rw [htarget] at hlast ⊢
  obtain rfl : edit = ⟨1, 3, false, 11⟩ := Option.some.inj (hlast.symm.trans rfl)
  rfl

/-- What pyelftools shows of a section after some edits: the header that it had, what the last edit
    of it has put there, and what it held if it shares no bytes with a section that is edited. -/
structure ShownAfter (f : Bytes) (content : κ → Bytes) (edits : List (Edit κ)) (i : ℕ)
    (sec : PySection) : Prop where
  shOffset : sec.shOffset = Elf64.shOffset f i
  shSize : sec.shSize = Elf64.shSize f i
  compressed : sec.compressed = Elf64.compressed f i
  edited : ∀ edit ∈ lastEdit edits i, sec.data = .ok (edit.written content)
  other : Elf64.compressed f i = false →
    (∀ edit ∈ edits, ApartFrom f edit.target (Elf64.shOffset f i)
      (Elf64.shOffset f i + Elf64.shSize f i)) → sec.data =
    .ok (if shType f i = shtNobits then List.replicate (Elf64.shSize f i) 0 else contents f i)

/-- pyelftools reads the file after any sequence of edits. It finds the same sections under the same
    names, with the instructions of the last edits, and the data of the other sections. -/
theorem editAll_shows (h : Row decode f row) (hf : WellFormed f)
    (hreads : ∀ g, SameLayout f g → tools.Reads decode g) (hfit : EditsFit f row content edits)
    {input : κ} {st : Store κ Byte} (hinput : st input = some f)
    (hready : Ready host content edits input st) :
    ∃ st' path output elf, (editAll tools host decode f row edits input).exec st =
        (.ok path, st') ∧ st' path = some output ∧ tools.elfFile output = .ok elf ∧
      ∀ name, ∃ sec?, elf.getSectionByName name = .ok sec? ∧
        Option.Rel (ShownAfter f content edits) (lookup decode f name) sec? := by
  obtain ⟨st', path, hexec, hout, -⟩ :=
    exec_editAll h hf hreads hfit (SameLayout.refl f) hinput hready
  -- The names and headers of the sections are outside of what the edits replace.
  have hlayout := h.spliceAll hfit (SameLayout.refl f)
  obtain ⟨elf, helf, -, hget⟩ := hreads _ hlayout
  refine ⟨st', path, _, elf, hexec, hout, helf, fun name => ?_⟩
  obtain ⟨sec?, hsec, hrel⟩ := hget name
  rw [← hlayout.lookup hf] at hrel
  refine ⟨sec?, hsec, ?_⟩
  cases hlook : lookup decode f name with
  | none =>
    rw [hlook] at hrel
    cases hrel
    exact .none
  | some i =>
    rw [hlook] at hrel
    cases hrel with
    | @some _ sec hshows =>
      have hi : i < shnum f := lookup_lt hlook
      refine .some ⟨?_, ?_, ?_, fun edit hlast => ?_, fun hcomp hapart => ?_⟩
      · rw [hshows.shOffset, hlayout.shOffset hi]
      · rw [hshows.shSize, hlayout.shSize hi]
      · rw [hshows.compressed, hlayout.compressed hi]
      · obtain ⟨hmem, rfl⟩ := mem_lastEdit hlast
        have ht := (hfit edit hmem).1
        rw [hshows.data ((hlayout.compressed hi).symm.trans (h.compressed _ ht)),
          ← hlayout.shType hi, if_neg (h.hasBits _ ht), h.extract_edits hfit ht,
          Option.mem_def.1 hlast]
        rfl
      · rw [hshows.data ((hlayout.compressed hi).symm.trans hcomp), ← hlayout.shType hi,
          ← hlayout.shSize hi, contents, ← hlayout.shOffset hi, ← hlayout.shSize hi, contents,
          extract_congr (h.agreeOn_edits hfit hapart)]

theorem editAll_shows_backAndForth : ∃ st' path output elf sec,
    (editAll sampleTools openHost ascii twoFile [1, 2] backAndForth 0).exec numberedFiles =
        (.ok path, st') ∧
      st' path = some output ∧ sampleTools.elfFile output = .ok elf ∧
      elf.getSectionByName "prog".toList = .ok (some sec) ∧ sec.data = .ok (numbered 2) := by
  obtain ⟨st', path, output, elf, hexec, hout, helf, hget⟩ := editAll_shows row_twoFile
    wellFormed_twoFile reads_twoFile fit_backAndForth rfl
    ready_backAndForth
  obtain ⟨sec?, hsec, hrel⟩ := hget "prog".toList
  have hlook : lookup ascii twoFile "prog".toList = some 2 := by decide +kernel
  rw [hlook] at hrel
  cases hrel with
  | @some _ sec hshown =>
    exact ⟨st', path, output, elf, sec, hexec, hout, helf, hsec, hshown.edited _ rfl⟩

end

end BpfElfTools.Patcher
