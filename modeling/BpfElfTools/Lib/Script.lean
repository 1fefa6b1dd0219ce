import BpfElfTools.Lib.Store

/-!
# Scripts over files

A script is a program over a store of files that ends with a value or fails, its
effects up to there staying: what a script wrote before it failed is on disk.

* `run_bind_ok`, `run_bind_error`: how a script runs on after a command;
* `OnlyWrites`: the frame of a script, from the frames of its commands;
* `Respects`: what a script depends on, as a relation between the files of two runs.
-/

/-- A script over the files `κ`, with contents in `β`, that may fail with `ε`. -/
abbrev Script (κ β ε α : Type) := ExceptT ε (StateM (Store κ β)) α

namespace Script

variable {κ β ε α γ : Type}

/-- The result of a script from given files, and the files it leaves. -/
def exec (x : Script κ β ε α) (st : Store κ β) : Except ε α × Store κ β := x st

/-- The script fails, leaving the files as they are. -/
def fail (e : ε) : Script κ β ε α := fun st => (.error e, st)

/-- The files are changed. -/
def modifyFiles (f : Store κ β → Store κ β) : Script κ β ε Unit := fun st => (.ok (), f st)

/-- A value that depends on the files, which are not changed. -/
def ask (f : Store κ β → Except ε α) : Script κ β ε α := fun st => (f st, st)

/-- The value of a computation without effects. -/
def ofExcept (r : Except ε α) : Script κ β ε α := ask fun _ => r

@[simp] theorem exec_pure (a : α) (st : Store κ β) :
    (pure a : Script κ β ε α).exec st = (.ok a, st) := rfl

@[simp] theorem exec_fail (e : ε) (st : Store κ β) :
    (fail e : Script κ β ε α).exec st = (.error e, st) := rfl

@[simp] theorem exec_modifyFiles (f : Store κ β → Store κ β) (st : Store κ β) :
    (modifyFiles f : Script κ β ε Unit).exec st = (.ok (), f st) := rfl

@[simp] theorem exec_ask (f : Store κ β → Except ε α) (st : Store κ β) :
    (ask f).exec st = (f st, st) := rfl

@[simp] theorem exec_ofExcept (r : Except ε α) (st : Store κ β) :
    (ofExcept r).exec st = (r, st) := rfl

/-- A script runs on from where its first command has ended. -/
theorem run_bind_ok {x : Script κ β ε α} {f : α → Script κ β ε γ} {st st' : Store κ β} {a : α}
    (h : x.exec st = (.ok a, st')) : (x >>= f).exec st = (f a).exec st' := by
  simp only [exec] at h ⊢
  simp only [bind, ExceptT.bind, ExceptT.mk, StateT.bind, h, ExceptT.bindCont]

/-- A script ends with its first command if that fails. -/
theorem run_bind_error {x : Script κ β ε α} {f : α → Script κ β ε γ} {st st' : Store κ β} {e : ε}
    (h : x.exec st = (.error e, st')) : (x >>= f).exec st = (.error e, st') := by
  simp only [exec] at h ⊢
  simp only [bind, ExceptT.bind, ExceptT.mk, StateT.bind, h, ExceptT.bindCont]
  rfl

/-- How a script runs on depends on what its first command has done. -/
theorem exec_bind_congr {x : Script κ β ε α} {f : α → Script κ β ε γ} {st st' : Store κ β}
    (h : x.exec st = x.exec st') : (x >>= f).exec st = (x >>= f).exec st' := by
  rcases hx : x.exec st with ⟨_ | a, st₁⟩
  · rw [run_bind_error hx, run_bind_error (h.symm.trans hx)]
  · rw [run_bind_ok hx, run_bind_ok (h.symm.trans hx)]

/-! ## Frames -/

/-- The script leaves every file but `k` alone, however it ends. -/
def OnlyWrites (k : κ) (x : Script κ β ε α) : Prop :=
  ∀ st, ∀ k' ≠ k, (x.exec st).2 k' = st k'

namespace OnlyWrites

variable {k : κ}

theorem pure (a : α) : OnlyWrites k (Pure.pure a : Script κ β ε α) := fun _ _ _ => rfl

theorem fail (e : ε) : OnlyWrites k (Script.fail e : Script κ β ε α) := fun _ _ _ => rfl

theorem ask (f : Store κ β → Except ε α) : OnlyWrites k (Script.ask f) := fun _ _ _ => rfl

theorem modifyFiles {f : Store κ β → Store κ β} (h : ∀ st, ∀ k' ≠ k, f st k' = st k') :
    OnlyWrites k (Script.modifyFiles f : Script κ β ε Unit) := h

theorem bind {x : Script κ β ε α} {f : α → Script κ β ε γ} (hx : OnlyWrites k x)
    (hf : ∀ a, OnlyWrites k (f a)) : OnlyWrites k (x >>= f) := by
  intro st k' hk'
  have hx' := hx st k' hk'
  rcases h : x.exec st with ⟨r, st₁⟩
  rw [h] at hx'
  cases r with
  | error e => rw [run_bind_error h, hx']
  | ok a =>
    rw [run_bind_ok h, hf a st₁ k' hk']
    exact hx'

/-- A loop writes what its body writes. -/
theorem foldlM {σ ι : Type} {f : σ → ι → Script κ β ε σ} (hf : ∀ s i, OnlyWrites k (f s i))
    (l : List ι) (s : σ) : OnlyWrites k (l.foldlM f s) := by
  induction l generalizing s with
  | nil => exact pure s
  | cons i l ih => exact bind (hf s i) fun s' => ih s'

end OnlyWrites

/-! ## What a script depends on -/

/-- Two runs of the script from related files have the same result, and leave related files. -/
def Respects (R : Store κ β → Store κ β → Prop) (x : Script κ β ε α) : Prop :=
  ∀ st st', R st st' → (x.exec st).1 = (x.exec st').1 ∧ R (x.exec st).2 (x.exec st').2

namespace Respects

variable {R : Store κ β → Store κ β → Prop}

theorem pure (a : α) : Respects R (Pure.pure a : Script κ β ε α) := fun _ _ h => ⟨rfl, h⟩

theorem fail (e : ε) : Respects R (Script.fail e : Script κ β ε α) := fun _ _ h => ⟨rfl, h⟩

theorem ask {f : Store κ β → Except ε α} (h : ∀ st st', R st st' → f st = f st') :
    Respects R (Script.ask f) := fun st st' hst => ⟨h st st' hst, hst⟩

theorem modifyFiles {f : Store κ β → Store κ β} (h : ∀ st st', R st st' → R (f st) (f st')) :
    Respects R (Script.modifyFiles f : Script κ β ε Unit) := fun st st' hst => ⟨rfl, h st st' hst⟩

theorem bind {x : Script κ β ε α} {f : α → Script κ β ε γ} (hx : Respects R x)
    (hf : ∀ a, Respects R (f a)) : Respects R (x >>= f) := by
  intro st st' hst
  obtain ⟨hresult, hfiles⟩ := hx st st' hst
  rcases h : x.exec st with ⟨r, st₁⟩
  rcases h' : x.exec st' with ⟨r', st₁'⟩
  rw [h, h'] at hresult hfiles
  dsimp only at hresult hfiles
  cases r with
  | error e =>
    rw [← hresult] at h'
    rw [run_bind_error h, run_bind_error h']
    exact ⟨rfl, hfiles⟩
  | ok a =>
    rw [← hresult] at h'
    rw [run_bind_ok h, run_bind_ok h']
    exact hf a st₁ st₁' hfiles

/-- A loop depends on what its body depends on. -/
theorem foldlM {σ ι : Type} {f : σ → ι → Script κ β ε σ} (hf : ∀ s i, Respects R (f s i))
    (l : List ι) (s : σ) : Respects R (l.foldlM f s) := by
  induction l generalizing s with
  | nil => exact pure s
  | cons i l ih => exact bind (hf s i) fun s' => ih s'

end Respects

end Script
