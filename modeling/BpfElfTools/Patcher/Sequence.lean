import BpfElfTools.Lib.Tiling
import BpfElfTools.Patcher.InPlace

/-!
# Patching several sections

Several sections of a file are patched by running the patcher once for each,
every run reading what the run before it has written. The sections that may be
patched follow one another from the end of the header on (`Row`), so that a run
can be given those before its own, and none of them is part of what pyelftools
finds the sections by: the runs keep the layout of the file (`SameLayout`).

* `exec_main_job`: a run replaces its section in place;
* `exec_patchAll`: a sequence of runs replaces its sections, one after the other;
* `patchAll_any_order`: in any order, the sections are all replaced, and nothing
  else is changed.
-/

namespace BpfElfTools.Patcher

open Elf64 Splice

/-! ## Names on the command line -/

/-- The argument of `-s` for some sections. -/
def sectionString (names : List Str) : Str := [','].intercalate names

/-- A name that `-s` can carry: neither empty, nor with commas or surrounding blanks. -/
def PlainName (name : Str) : Prop := name ≠ [] ∧ ',' ∉ name ∧ strip name = name

instance : DecidablePred PlainName := fun _ => inferInstanceAs (Decidable (_ ∧ _))

/-- The names are read back. -/
theorem parseSectionString_sectionString {names : List Str} (h : ∀ name ∈ names, PlainName name) :
    parseSectionString (sectionString names) = names := by
  rw [parseSectionString]
  cases names with
  | nil => rfl
  | cons name names =>
    have hne : sectionString (name :: names) ≠ [] := by
      intro hnil
      have hsplit := List.splitOn_intercalate ',' (fun l hl => (h l hl).2.1)
        (List.cons_ne_nil name names)
      rw [sectionString] at hnil
      rw [hnil, List.splitOn_nil] at hsplit
      exact (h name List.mem_cons_self).1 (List.cons.inj hsplit).1.symm
    rw [if_neg hne, sectionString, List.splitOn_intercalate ',' (fun l hl => (h l hl).2.1)
      (List.cons_ne_nil name names)]
    exact (List.map_congr_left fun l hl => (h l hl).2.2).trans (List.map_id _)

/-! ## The sections that may be patched -/

/-- A section overlaps none of the bytes from `a` up to `b`. -/
def ApartFrom (f : Bytes) (t a b : ℕ) : Prop :=
  Disjoint (Finset.Ico (shOffset f t) (shOffset f t + shSize f t)) (Finset.Ico a b)

instance (f : Bytes) (t a b : ℕ) : Decidable (ApartFrom f t a b) :=
  decidable_of_iff (min (shOffset f t + shSize f t) b ≤ max (shOffset f t) a) (by
    rw [ApartFrom, ← Finset.disjoint_coe, Finset.coe_Ico, Finset.coe_Ico, Set.Ico_disjoint_Ico])

/-- Sections `row` that follow one another from the end of the header on, apart from the section
    header table and the section names, and found by their names. -/
structure Row (decode : Bytes → Str) (f : Bytes) (row : List ℕ) : Prop where
  contiguous : Tiling.Contiguous (shOffset f) (shSize f) row 64
  lt : ∀ t ∈ row, t < shnum f
  hasBits : ∀ t ∈ row, shType f t ≠ shtNobits
  compressed : ∀ t ∈ row, compressed f t = false
  bounds : ∀ t ∈ row, shOffset f t + shSize f t ≤ f.length
  table : ∀ t ∈ row, ApartFrom f t (shoff f) (shoff f + shnum f * 64)
  strings : ∀ t ∈ row, ApartFrom f t (shOffset f (shstrndx f))
    (shOffset f (shstrndx f) + shSize f (shstrndx f))
  unique : ∀ t ∈ row, ∀ i < shnum f, sectionName decode f i = sectionName decode f t → i = t
  plain : ∀ t ∈ row, PlainName (sectionName decode f t)

/-- The sections of the row before a section. -/
def before (row : List ℕ) (t : ℕ) : List ℕ := row.takeWhile (· ≠ t)

theorem exists_before {row : List ℕ} {t : ℕ} (ht : t ∈ row) :
    ∃ rest, row = before row t ++ t :: rest := by
  obtain ⟨pre, rest, hrow, hpre⟩ := List.eq_append_cons_of_mem ht
  refine ⟨rest, ?_⟩
  have htake : before row t = pre := by
    have hne : ∀ u ∈ pre, decide (u ≠ t) = true := by
      intro u hu
      rw [decide_eq_true_iff]
      rintro rfl
      exact hpre hu
    rw [before, hrow, List.takeWhile_append_of_pos hne]
    simp
  rw [htake, hrow]

/-- A section that is the only one of its name is found by it. -/
theorem lookup_sectionName {decode : Bytes → Str} {f : Bytes} {t : ℕ} (ht : t < shnum f)
    (hu : ∀ i < shnum f, sectionName decode f i = sectionName decode f t → i = t) :
    lookup decode f (sectionName decode f t) = some t := by
  rw [lookup]
  have hmem : t ∈ (List.range (shnum f)).filter fun i =>
      sectionName decode f i = sectionName decode f t := by
    simp [ht]
  cases hlast : ((List.range (shnum f)).filter fun i =>
      sectionName decode f i = sectionName decode f t).getLast? with
  | none =>
    rw [List.getLast?_eq_none_iff.1 hlast] at hmem
    exact absurd hmem List.not_mem_nil
  | some i =>
    have hi := List.mem_of_getLast? hlast
    simp only [List.mem_filter, List.mem_range, decide_eq_true_eq] at hi
    rw [hu i hi.1 hi.2]

theorem lookup_lt {decode : Bytes → Str} {f : Bytes} {name : Str} {i : ℕ}
    (h : lookup decode f name = some i) : i < shnum f := by
  have hmem := List.mem_of_getLast? h
  exact List.mem_range.1 (List.mem_filter.1 hmem).1

namespace Row

variable {decode : Bytes → Str} {f g : Bytes} {row : List ℕ} (h : Row decode f row)

include h

/-- Two sections of the row share no byte. -/
theorem apart {t u : ℕ} (ht : t ∈ row) (hu : u ∈ row) (hne : t ≠ u) {r r' : Bytes}
    (hr : r.length = shSize f t) (hr' : r'.length = shSize f u) :
    Apart (shOffset f t, r) (shOffset f u, r') := by
  have hpw : row.Pairwise fun t u => shOffset f t + shSize f t ≤ shOffset f u ∨
      shOffset f u + shSize f u ≤ shOffset f t := h.contiguous.pairwise.imp .inl
  have : Std.Symm fun t u => shOffset f t + shSize f t ≤ shOffset f u ∨
      shOffset f u + shSize f u ≤ shOffset f t := ⟨fun _ _ => Or.symm⟩
  simpa only [Apart, hr, hr'] using hpw.forall ht hu hne

/-- Replacing a section of the row keeps the layout. -/
theorem splice {t : ℕ} (ht : t ∈ row) {r : Bytes} (hr : r.length = shSize f t)
    (hg : SameLayout f g) : SameLayout f (Splice.splice (shOffset f t) r g) := by
  have hfits : shOffset f t + r.length ≤ g.length := by
    rw [hr, ← hg.length]
    exact h.bounds t ht
  have keeps {a b : ℕ} (hag : AgreeOn f g a b) (hab : ApartFrom f t a b) :
      AgreeOn f (Splice.splice (shOffset f t) r g) a b := by
    intro i hi hi'
    rw [hag i hi hi', getElem?_splice_of_notMem hfits]
    by_contra hin
    push Not at hin
    refine Finset.disjoint_left.1 hab (Finset.mem_Ico.2 ⟨hin.1, ?_⟩) (Finset.mem_Ico.2 ⟨hi, hi'⟩)
    rw [← hr]
    exact hin.2
  refine ⟨hg.length.trans (length_splice hfits).symm, keeps hg.header ?_,
    keeps hg.table (h.table t ht), keeps hg.strings (h.strings t ht)⟩
  refine Finset.disjoint_left.2 fun i hi hi' => ?_
  have hle := h.contiguous.le ht
  rw [Finset.mem_Ico] at hi hi'
  omega

end Row

/-! ## A run -/

variable {κ : Type} [DecidableEq κ]

/-- A run to make: the section to patch, the file of its new instructions, and the output. -/
structure Job (κ : Type) where
  target : ℕ
  newInsns : κ
  output : κ

/-- The arguments of a run: the sections are named as in the file `f`, those of the row before
    the target being given by `-s`. -/
def Job.args (decode : Bytes → Str) (f : Bytes) (row : List ℕ) (job : Job κ) (input : κ) :
    Args κ where
  elfFile := input
  newInsns := job.newInsns
  sectionName := sectionName decode f job.target
  sections := sectionString ((before row job.target).map (sectionName decode f))
  output := job.output

/-- The sections of the row can be copied from a file of the same layout. -/
theorem Row.sectionBytes {decode : Bytes → Str} {f g : Bytes} {row : List ℕ}
    (h : Row decode f row) (hf : WellFormed f) (hg : SameLayout f g) {elf : PyElf}
    (helf : ∀ name, ∃ sec?, elf.getSectionByName name = .ok sec? ∧
      Option.Rel (PySection.Shows g) (lookup decode g name) sec?) {t : ℕ} (ht : t ∈ row) :
    ∃ sec, elf.getSectionByName (sectionName decode f t) = .ok (some sec) ∧
      sec.shSize = shSize f t ∧ sec.data = .ok (g.extract (shOffset f t)
        (shOffset f t + shSize f t)) := by
  obtain ⟨sec?, hget, hrel⟩ := helf (sectionName decode f t)
  have hlt := h.lt t ht
  rw [← hg.lookup hf, lookup_sectionName hlt (h.unique t ht)] at hrel
  cases hrel with
  | @some _ sec hshows =>
    refine ⟨sec, hget, hshows.shSize.trans (hg.shSize hlt).symm, ?_⟩
    rw [hshows.data ((hg.compressed hlt).symm.trans (h.compressed t ht)), ← hg.shType hlt,
      if_neg (h.hasBits t ht), contents, ← hg.shOffset hlt, ← hg.shSize hlt]

/-- Sections whose data are known are copied one after the other. -/
theorem PyElf.copied_map {elf : PyElf} {l : List ℕ} {name : ℕ → Str} {d : ℕ → Bytes}
    (h : ∀ t ∈ l, elf.sectionBytes (name t) = some (d t)) :
    elf.copied (l.map name) = (l.map d).flatten := by
  induction l with
  | nil => rfl
  | cons t l ih =>
    rw [List.map_cons, PyElf.copied_cons_some (h t List.mem_cons_self),
      ih fun u hu => h u (List.mem_cons_of_mem _ hu)]
    rfl

/-- The sections before one of the row are found in a file of the same layout, and fill it from the
    header on up to that section. -/
theorem Row.copied_before {decode : Bytes → Str} {f g : Bytes} {row : List ℕ}
    (h : Row decode f row) (hf : WellFormed f) (hg : SameLayout f g) {elf : PyElf}
    (helf : ∀ name, ∃ sec?, elf.getSectionByName name = .ok sec? ∧
      Option.Rel (PySection.Shows g) (lookup decode g name) sec?) {t : ℕ} (ht : t ∈ row) :
    elf.HasAll ((before row t).map (sectionName decode f)) ∧
      elf.copied ((before row t).map (sectionName decode f)) = g.extract 64 (shOffset f t) ∧
      64 + elf.sizes ((before row t).map (sectionName decode f)) = shOffset f t := by
  obtain ⟨rest, hrow⟩ := exists_before ht
  have hsecs : ∀ u ∈ before row t, ∃ sec,
      elf.getSectionByName (sectionName decode f u) = .ok (some sec) ∧
      sec.shSize = shSize f u ∧ sec.data = .ok (g.extract (shOffset f u)
        (shOffset f u + shSize f u)) :=
    fun u hu => h.sectionBytes hf hg helf (List.takeWhile_subset _ hu)
  have hbytes : ∀ u ∈ before row t, elf.sectionBytes (sectionName decode f u) =
      some (g.extract (shOffset f u) (shOffset f u + shSize f u)) := by
    intro u hu
    obtain ⟨sec, hsec, -, hdata⟩ := hsecs u hu
    exact PyElf.sectionBytes_eq_some.2 ⟨sec, hsec, hdata⟩
  -- The row starts at the header and has no gaps.
  have hstart : shOffset f t = 64 + ((before row t).map (shSize f)).sum :=
    Tiling.Contiguous.start_eq (hrow ▸ h.contiguous)
  refine ⟨fun name hname => ?_, ?_, ?_⟩
  · obtain ⟨u, hu, rfl⟩ := List.mem_map.1 hname
    rw [hbytes u hu]
    rfl
  · rw [PyElf.copied_map hbytes, hstart]
    exact Tiling.Contiguous.flatten_extract g (hrow ▸ h.contiguous)
  · rw [hstart, PyElf.sizes, List.map_map]
    refine congrArg (64 + List.sum ·) (List.map_congr_left fun u hu => ?_)
    obtain ⟨sec, hsec, hsize, -⟩ := hsecs u hu
    rw [Function.comp_apply, PyElf.sectionSize, hsec, ← hsize]

/-- A run for a section of the row, on a file of the same layout, replaces the section in place. -/
theorem exec_main_row {tools : PyElfTools} {host : Host κ} {decode : Bytes → Str} {f g : Bytes}
    {row : List ℕ} (h : Row decode f row) (hf : WellFormed f) (hg : SameLayout f g)
    (hreads : tools.Reads decode g) {args : Args κ} {t : ℕ} (ht : t ∈ row)
    (hname : args.sectionName = sectionName decode f t)
    (hnames : args.sections = sectionString ((before row t).map (sectionName decode f)))
    {st : Store κ Byte} {newInsns : Bytes}
    (hlen : (patchedInsns newInsns args.removeReloc).length = shSize f t)
    (hinput : st args.elfFile = some g) (hinsns : st args.newInsns = some newInsns)
    (hne : args.output ≠ args.elfFile) (hne' : args.output ≠ args.newInsns)
    (hread : host.readable args.elfFile = true) (hread' : host.readable args.newInsns = true)
    (hwrite : host.writable args.output = true) :
    (main tools host args).exec st = (.ok (), Function.update st args.output
      (some (splice (shOffset f t) (patchedInsns newInsns args.removeReloc) g))) := by
  obtain ⟨elf, helf, hend, hget⟩ := hreads
  have hpreceding : args.preceding = (before row t).map (sectionName decode f) := by
    rw [Args.preceding, hnames]
    refine parseSectionString_sectionString fun name hname => ?_
    obtain ⟨u, hu, rfl⟩ := List.mem_map.1 hname
    exact h.plain u (List.takeWhile_subset _ hu)
  obtain ⟨sec, hsec, hsize, -⟩ := h.sectionBytes hf hg hget ht
  obtain ⟨hall, hcopied, hsizes⟩ := h.copied_before hf hg hget ht
  rw [← hpreceding] at hall hcopied hsizes
  have hfits := h.bounds _ ht
  have hg64 : 64 ≤ g.length := hg.length ▸ hf.isElf64.1
  have hstart : g.take 64 ++ g.extract 64 (shOffset f t) = g.take (shOffset f t) := by
    refine (take_append_eq_take_iff hg64 (by rw [← hg.length]; omega)).2 ⟨?_, rfl⟩
    rw [List.extract_eq_take_drop, List.length_take, List.length_drop, ← hg.length]
    omega
  rw [exec_main_ok hwrite (opened_of_ne hne hread hinput)
    (PyElfTools.target_eq_some.2 ⟨helf, hname ▸ hsec⟩) hall
    (Option.isSome_of_eq_some (opened_of_ne hne' hread' hinsns)), insnsSeen_of_ne hne' hinsns,
    patched, hcopied, hstart, hend, hsize, splice, List.drop_drop, ← Nat.add_assoc, hsizes, hlen]

/-- A run on a file of the same layout replaces its section in place. -/
theorem exec_main_job {tools : PyElfTools} {host : Host κ} {decode : Bytes → Str} {f g : Bytes}
    {row : List ℕ} (h : Row decode f row) (hf : WellFormed f) (hg : SameLayout f g)
    (hreads : tools.Reads decode g) {job : Job κ} (ht : job.target ∈ row) {input : κ}
    {st : Store κ Byte} {newInsns : Bytes} (hlen : newInsns.length = shSize f job.target)
    (hinput : st input = some g) (hinsns : st job.newInsns = some newInsns)
    (hne : job.output ≠ input) (hne' : job.output ≠ job.newInsns)
    (hread : host.readable input = true) (hread' : host.readable job.newInsns = true)
    (hwrite : host.writable job.output = true) :
    (main tools host (job.args decode f row input)).exec st = (.ok (),
      Function.update st job.output (some (splice (shOffset f job.target) newInsns g))) :=
  exec_main_row h hf hg hreads ht rfl rfl hlen hinput hinsns hne hne' hread hread' hwrite

/-! ## A sequence of runs -/

/-- The runs `jobs`, each on what the run before it has written. -/
def patchAll (tools : PyElfTools) (host : Host κ) (decode : Bytes → Str) (f : Bytes)
    (row : List ℕ) (jobs : List (Job κ)) (input : κ) : Py κ κ :=
  jobs.foldlM (fun path job => do
    main tools host (job.args decode f row path)
    return job.output) input

/-- The files for the runs `jobs`: those of the new instructions, and fresh outputs. -/
structure Runnable (host : Host κ) (newInsns : ℕ → Bytes) (jobs : List (Job κ)) (input : κ)
    (st : Store κ Byte) : Prop where
  newInsns : ∀ job ∈ jobs, st job.newInsns = some (newInsns job.target)
  outputs : (jobs.map Job.output).Nodup
  ne_input : ∀ job ∈ jobs, job.output ≠ input
  ne_newInsns : ∀ job ∈ jobs, ∀ job' ∈ jobs, job.output ≠ job'.newInsns
  readable : host.readable input = true
  access : ∀ job ∈ jobs, host.readable job.newInsns = true ∧ host.writable job.output = true ∧
    host.readable job.output = true

/-- The stretches that some runs replace, with what they replace them by. -/
def splices (f : Bytes) (newInsns : ℕ → Bytes) (targets : List ℕ) : List (ℕ × Bytes) :=
  targets.map fun t => (shOffset f t, newInsns t)

section

variable {tools : PyElfTools} {host : Host κ} {decode : Bytes → Str} {f : Bytes} {row : List ℕ}
  {newInsns : ℕ → Bytes}

/-- After a run the files are ready for the others. -/
theorem Runnable.tail {job : Job κ} {jobs : List (Job κ)} {input : κ} {st : Store κ Byte}
    (h : Runnable host newInsns (job :: jobs) input st) (b : Option Bytes) :
    Runnable host newInsns jobs job.output (Function.update st job.output b) := by
  have hmem {job' : Job κ} (hj : job' ∈ jobs) : job' ∈ job :: jobs := List.mem_cons_of_mem _ hj
  have hnodup := List.nodup_cons.1 (List.map_cons ▸ h.outputs)
  constructor
  · intro job' hj
    rw [Function.update_of_ne (h.ne_newInsns job List.mem_cons_self job' (hmem hj)).symm]
    exact h.newInsns job' (hmem hj)
  · exact hnodup.2
  · intro job' hj heq
    exact hnodup.1 (heq ▸ List.mem_map_of_mem hj)
  · exact fun job₁ h₁ job₂ h₂ => h.ne_newInsns job₁ (hmem h₁) job₂ (hmem h₂)
  · exact (h.access job List.mem_cons_self).2.2
  · exact fun job' hj => h.access job' (hmem hj)

/-- A sequence of runs replaces its sections, one after the other. -/
theorem exec_patchAll (h : Row decode f row) (hf : WellFormed f)
    (hreads : ∀ g, SameLayout f g → tools.Reads decode g) {jobs : List (Job κ)}
    (hrow : ∀ job ∈ jobs, job.target ∈ row)
    (hlen : ∀ job ∈ jobs, (newInsns job.target).length = shSize f job.target) {input : κ}
    {st : Store κ Byte} {g : Bytes} (hg : SameLayout f g) (hinput : st input = some g)
    (hrun : Runnable host newInsns jobs input st) :
    ∃ st' path, (patchAll tools host decode f row jobs input).exec st = (.ok path, st') ∧
      st' path = some (spliceAll (splices f newInsns (jobs.map Job.target)) g) := by
  induction jobs generalizing input st g with
  | nil => exact ⟨st, input, rfl, hinput⟩
  | cons job jobs ih =>
    have hjob := List.mem_cons_self (a := job) (l := jobs)
    -- The output of the run has the layout of its input, so that the next run can read it.
    have hmain := exec_main_job h hf hg (hreads g hg) (hrow job hjob)
      (hlen job hjob) hinput (hrun.newInsns job hjob) (hrun.ne_input job hjob)
      (hrun.ne_newInsns job hjob job hjob) hrun.readable (hrun.access job hjob).1
      (hrun.access job hjob).2.1
    obtain ⟨st', path, hexec, hout⟩ := ih (fun j hj => hrow j (List.mem_cons_of_mem _ hj))
      (fun j hj => hlen j (List.mem_cons_of_mem _ hj))
      (h.splice (hrow job hjob) (hlen job hjob) hg) (Function.update_self _ _ _) (hrun.tail _)
    refine ⟨st', path, ?_, hout⟩
    rw [patchAll, List.foldlM_cons]
    exact (Script.run_bind_ok ((Script.run_bind_ok hmain).trans
      (Script.exec_pure job.output _))).trans hexec

/-- Patching several sections of a row, each by new instructions of its size, does not depend on
    the order of the runs: every run succeeds, and the last output is the file with all the
    sections replaced, and every other byte unchanged. -/
theorem patchAll_any_order (h : Row decode f row) (hf : WellFormed f)
    (hreads : ∀ g, SameLayout f g → tools.Reads decode g) {chosen : List ℕ} (hnodup : chosen.Nodup)
    (hrow : ∀ t ∈ chosen, t ∈ row) (hlen : ∀ t ∈ chosen, (newInsns t).length = shSize f t) :
    ∃ output : Bytes, output.length = f.length ∧
      (∀ t ∈ chosen, output.extract (shOffset f t) (shOffset f t + shSize f t) = newInsns t) ∧
      (∀ i, (∀ t ∈ chosen, i < shOffset f t ∨ shOffset f t + shSize f t ≤ i) →
        output[i]? = f[i]?) ∧
      ∀ (host : Host κ) (input : κ) (st : Store κ Byte) (jobs : List (Job κ)),
        st input = some f → (jobs.map Job.target).Perm chosen →
        Runnable host newInsns jobs input st →
        ∃ st' path, (patchAll tools host decode f row jobs input).exec st = (.ok path, st') ∧
          st' path = some output := by
  have hfits : ∀ p ∈ splices f newInsns chosen, p.1 + p.2.length ≤ f.length := by
    intro p hp
    obtain ⟨t, ht, rfl⟩ := List.mem_map.1 hp
    rw [hlen t ht]
    exact h.bounds t (hrow t ht)
  have hapart : (splices f newInsns chosen).Pairwise Apart := by
    refine List.pairwise_map.2 (hnodup.imp_of_mem fun ht hu hne => ?_)
    exact h.apart (hrow _ ht) (hrow _ hu) hne (hlen _ ht) (hlen _ hu)
  refine ⟨spliceAll (splices f newInsns chosen) f, length_spliceAll hfits, ?_, ?_, ?_⟩
  · intro t ht
    rw [← hlen t ht]
    exact extract_spliceAll hfits hapart (List.mem_map_of_mem ht)
  · intro i hi
    refine getElem?_spliceAll_of_notMem hfits fun p hp => ?_
    obtain ⟨t, ht, rfl⟩ := List.mem_map.1 hp
    rw [hlen t ht]
    exact hi t ht
  · intro host input st jobs hinput hperm hrun
    have hmem {job : Job κ} (hj : job ∈ jobs) : job.target ∈ chosen :=
      hperm.mem_iff.1 (List.mem_map_of_mem hj)
    obtain ⟨st', path, hexec, hout⟩ := exec_patchAll h hf hreads
      (fun job hj => hrow _ (hmem hj)) (fun job hj => hlen _ (hmem hj))
      ⟨rfl, fun _ _ _ => rfl, fun _ _ _ => rfl, fun _ _ _ => rfl⟩ hinput hrun
    have hperm' : (splices f newInsns chosen).Perm (splices f newInsns (jobs.map Job.target)) :=
      hperm.symm.map _
    exact ⟨st', path, hexec, hout.trans (congrArg some (spliceAll_perm hperm' hfits hapart).symm)⟩

end

/-- The row of the two sections of a small file. -/
theorem row_twoFile : Row ascii twoFile [1, 2] := by
  constructor
  · exact ⟨by decide +kernel, by decide +kernel, trivial⟩
  all_goals decide +kernel

theorem wellFormed_twoFile : WellFormed twoFile := by decide +kernel

/-- The files of its layout can be read. -/
theorem reads_twoFile (g : Bytes) (hg : SameLayout twoFile g) : sampleTools.Reads ascii g :=
  reads_elf64Tools ascii inflateStored (hg.wellFormed wellFormed_twoFile)

/-- New instructions for the sections of a small file: eight copies of the section number. -/
def numbered (t : ℕ) : Bytes := List.replicate 8 (BitVec.ofNat 8 t)

/-- Runs that patch the second section before the first. -/
def backwards : List (Job ℕ) := [⟨2, 2, 11⟩, ⟨1, 1, 10⟩]

/-- The files: the object, and the new instructions of each section. -/
def numberedFiles : Store ℕ Byte := fun path => [twoFile, numbered 1, numbered 2][path]?

theorem patchAll_any_order_backwards : ∃ st' path output,
    (patchAll sampleTools openHost ascii twoFile [1, 2] backwards 0).exec numberedFiles =
        (.ok path, st') ∧
      st' path = some output ∧
      output.extract (shOffset twoFile 1) (shOffset twoFile 1 + shSize twoFile 1) = numbered 1 ∧
      output.extract (shOffset twoFile 2) (shOffset twoFile 2 + shSize twoFile 2) = numbered 2 := by
  obtain ⟨output, -, htargets, -, hruns⟩ := @patchAll_any_order ℕ _ sampleTools ascii
    twoFile [1, 2] numbered row_twoFile wellFormed_twoFile reads_twoFile [1, 2] (by decide)
    (fun t ht => ht) (by decide +kernel)
  obtain ⟨st', path, hexec, hout⟩ := hruns openHost 0 numberedFiles backwards rfl
    (List.Perm.swap 1 2 []) ⟨by decide +kernel, by decide, by decide, by decide, rfl,
      fun _ _ => ⟨rfl, rfl, rfl⟩⟩
  exact ⟨st', path, output, hexec, hout, htargets 1 (by decide), htargets 2 (by decide)⟩

end BpfElfTools.Patcher
