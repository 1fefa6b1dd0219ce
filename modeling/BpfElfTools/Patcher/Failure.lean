import BpfElfTools.Patcher.Elf64

/-!
# Failing runs of the patcher

The output is emptied before the input is looked at, and then grows piece by
piece, so that a run that fails leaves behind whatever was written by then.

* `exec_main_failed`: what a failing run leaves in the files;
* `keepsOnFailure_iff`: when it leaves them alone;
* `not_keepsOnFailure`: a missing section leaves a header and a section behind,
  and empties an input that is also the output.
-/

namespace BpfElfTools.Patcher

open Elf64

variable {κ : Type} [DecidableEq κ]

/-- A run that fails leaves its output and its input as they were. -/
def KeepsOnFailure (tools : PyElfTools) (host : Host κ) (args : Args κ) (st : Store κ Byte) :
    Prop :=
  ∀ e st', (main tools host args).exec st = (.error e, st') →
    st' args.output = st args.output ∧ st' args.elfFile = st args.elfFile

variable {tools : PyElfTools} {host : Host κ} {args : Args κ} {st : Store κ Byte}

/-- A failing run has done nothing, or left its output unfinished. -/
theorem main_failed_cases {e : Failure} {st' : Store κ Byte}
    (h : (main tools host args).exec st = (.error e, st')) :
    (host.writable args.output = false ∧ st' = st) ∨
    (host.writable args.output = true ∧ ¬Completes tools host args st ∧
      st' = Function.update st args.output (some (leftover tools host args st))) := by
  rcases hw : host.writable args.output with _ | _
  · rw [exec_main_denied hw] at h
    exact .inl ⟨rfl, (Prod.mk.inj h).2.symm⟩
  · have hc : ¬Completes tools host args st := fun hc => by
      obtain ⟨st₁, h₁⟩ := main_ok_iff.2 ⟨hw, hc⟩
      rw [h₁] at h
      cases h
    obtain ⟨e', he⟩ := exec_main_error hw hc
    rw [he] at h
    exact .inr ⟨rfl, hc, (Prod.mk.inj h).2.symm⟩

/-- A failing run leaves every file but its output alone. The output is left alone if it cannot
    be opened; otherwise it holds the header of the input and the preceding sections before the
    first that is missing, as far as the run came. -/
theorem exec_main_failed {e : Failure} {st' : Store κ Byte}
    (h : (main tools host args).exec st = (.error e, st')) :
    (∀ path ≠ args.output, st' path = st path) ∧
    (host.writable args.output = false → st' args.output = st args.output) ∧
    (host.writable args.output = true →
      st' args.output = some (leftover tools host args st)) := by
  rcases main_failed_cases h with ⟨hw, rfl⟩ | ⟨hw, -, rfl⟩
  · exact ⟨fun _ _ => rfl, fun _ => rfl, fun hw' => absurd (hw.symm.trans hw') (by simp)⟩
  · refine ⟨fun path hpath => Function.update_of_ne hpath _ _, fun hw' => ?_, fun _ => ?_⟩
    · exact absurd (hw.symm.trans hw') (by simp)
    · exact Function.update_self _ _ _

/-- The files are left alone exactly if the run completes, or cannot open its output, or its
    output already held what it leaves there. -/
theorem keepsOnFailure_iff : KeepsOnFailure tools host args st ↔
    host.writable args.output = false ∨ Completes tools host args st ∨
      st args.output = some (leftover tools host args st) := by
  constructor
  · intro h
    by_contra hne
    simp only [not_or, Bool.not_eq_false] at hne
    obtain ⟨hw, hc, hout⟩ := hne
    obtain ⟨e, he⟩ := exec_main_error hw hc
    exact hout ((h e _ he).1.symm.trans (Function.update_self _ _ _))
  · intro h e st' he
    rcases main_failed_cases he with ⟨-, rfl⟩ | ⟨hw, hc, rfl⟩
    · exact ⟨rfl, rfl⟩
    · have hout := (h.resolve_left (by simp [hw])).resolve_left hc
      rw [← hout, Function.update_eq_self]
      exact ⟨rfl, rfl⟩

/-! ## A missing section -/

/-- A host on which every file can be opened. -/
def openHost : Host ℕ := ⟨fun _ => true, fun _ => true, 0⟩

/-- The section `b` is to be patched, after `a` and a section `c` that is missing. -/
def missingArgs (output : ℕ) : Args ℕ :=
  { elfFile := 0, newInsns := 1, sectionName := "b".toList, sections := "a,c".toList,
    output := output }

/-- The files: an object with the sections `a` and `b`, instructions, and an older output. -/
def missingFiles : Store ℕ Byte := fun path =>
  [file [(cstr "a", 6, List.replicate 8 1), (cstr "b", 6, List.replicate 8 2)],
    List.replicate 8 3, [4]][path]?

/-- The tools that read ASCII names and stored data. -/
def sampleTools : PyElfTools := elf64Tools ascii inflateStored

/-- With `c` missing, the output is overwritten; if it is the input, the object is lost. -/
theorem not_keepsOnFailure :
    ¬KeepsOnFailure sampleTools openHost (missingArgs 2) missingFiles ∧
      ¬KeepsOnFailure sampleTools openHost (missingArgs 0) missingFiles := by
  constructor <;> rw [keepsOnFailure_iff] <;> decide +kernel

theorem exec_main_failed_missing : ∃ e st',
    (main sampleTools openHost (missingArgs 2)).exec missingFiles = (.error e, st') ∧
      st' 0 = missingFiles 0 ∧
      st' 2 = some (leftover sampleTools openHost (missingArgs 2) missingFiles) := by
  have hc : ¬Completes sampleTools openHost (missingArgs 2) missingFiles := by decide +kernel
  obtain ⟨e, he⟩ := exec_main_error rfl hc
  obtain ⟨hother, -, hout⟩ := exec_main_failed he
  exact ⟨e, _, he, hother 0 (by decide), hout rfl⟩

end BpfElfTools.Patcher
