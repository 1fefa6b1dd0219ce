import Mathlib

/-!
# Folds that may fail

Loops over a list whose body may fail, as folds in `Except`: what a step of the
loop preserves holds after the whole loop (`foldlM_induction`).
-/

namespace Fold

universe u

variable {ε α σ τ : Type*}

theorem bind_eq_ok {β γ : Type u} {x : Except ε β} {f : β → Except ε γ} {c : γ} :
    x >>= f = .ok c ↔ ∃ b, x = .ok b ∧ f b = .ok c := by
  cases x with
  | error e => simp [bind, Except.bind]
  | ok b => simp [bind, Except.bind]

theorem map_eq_ok {β γ : Type u} {x : Except ε β} {f : β → γ} {c : γ} :
    x.map f = .ok c ↔ ∃ b, x = .ok b ∧ f b = c := by
  cases x with
  | error e => simp [Except.map]
  | ok b => simp [Except.map]

theorem ok_bind {β γ : Type u} (b : β) (f : β → Except ε γ) :
    (.ok b : Except ε β) >>= f = f b := rfl

theorem error_bind {β γ : Type u} (e : ε) (f : β → Except ε γ) :
    (.error e : Except ε β) >>= f = .error e := rfl

theorem foldlM_cons_ok {f : σ → α → Except ε σ} {a : α} {l : List α} {s s' : σ} :
    (a :: l).foldlM f s = .ok s' ↔ ∃ t, f s a = .ok t ∧ l.foldlM f t = .ok s' := by
  rw [List.foldlM_cons, bind_eq_ok]

/-- A property of the state and of the elements done so far, which every step
    preserves, holds at the end of the loop. -/
theorem foldlM_induction {f : σ → α → Except ε σ} {l : List α} {s s' : σ}
    (P : List α → σ → Prop) (hs : P [] s)
    (hstep : ∀ done a t t', done ++ [a] <+: l → P done t → f t a = .ok t' → P (done ++ [a]) t')
    (h : l.foldlM f s = .ok s') : P l s' := by
  suffices hgen : ∀ todo done t, done ++ todo = l → P done t →
      todo.foldlM f t = .ok s' → P (done ++ todo) s' from hgen l [] s rfl hs h
  intro todo
  induction todo with
  | nil =>
    rintro done t - hP ht
    cases ht
    rwa [List.append_nil]
  | cons a todo ih =>
    intro done t hl hP ht
    obtain ⟨t', hf, hrest⟩ := foldlM_cons_ok.1 ht
    have hl' : done ++ [a] ++ todo = l := by rw [List.append_assoc, List.singleton_append, hl]
    have := ih (done ++ [a]) t' hl' (hstep done a t t' ⟨todo, hl'⟩ hP hf) hrest
    rwa [List.append_assoc, List.singleton_append] at this

/-- Every step of a loop that keeps a part of the state keeps it in the end. -/
theorem foldlM_frame {f : σ → α → Except ε σ} {l : List α} {s s' : σ} (g : σ → τ)
    (hstep : ∀ a ∈ l, ∀ t t', f t a = .ok t' → g t' = g t) (h : l.foldlM f s = .ok s') :
    g s' = g s :=
  foldlM_induction (fun _ t => g t = g s) rfl
    (fun done a t t' hpre hP hf =>
      (hstep a (hpre.subset (by simp)) t t' hf).trans hP) h

/-- A loop none of whose steps fails, as long as the states have a property that the steps
    preserve. -/
theorem foldlM_total {f : σ → α → Except ε σ} {l : List α} (P : σ → Prop)
    (hstep : ∀ a ∈ l, ∀ s, P s → ∃ s', f s a = .ok s' ∧ P s') {s : σ} (hs : P s) :
    ∃ s', l.foldlM f s = .ok s' ∧ P s' := by
  induction l generalizing s with
  | nil => exact ⟨s, rfl, hs⟩
  | cons a l ih =>
    obtain ⟨t, ht, hP⟩ := hstep a List.mem_cons_self s hs
    obtain ⟨s', hs', hP'⟩ := ih (fun b hb => hstep b (List.mem_cons_of_mem _ hb)) hP
    exact ⟨s', foldlM_cons_ok.2 ⟨t, ht, hs'⟩, hP'⟩

/-- A loop on translated states, if every step translates. -/
theorem foldlM_map {f f' : σ → α → Except ε σ} (g : σ → σ)
    (hstep : ∀ s a, f' (g s) a = (f s a).map g) (l : List α) (s : σ) :
    l.foldlM f' (g s) = (l.foldlM f s).map g := by
  induction l generalizing s with
  | nil => rfl
  | cons a l ih =>
    rw [List.foldlM_cons, List.foldlM_cons, hstep]
    cases f s a with
    | error e => rfl
    | ok t => exact ih t

/-- The elements at the first `n` positions of a list. -/
theorem filterMap_range_getElem? (l : List α) (n : ℕ) :
    (List.range n).filterMap (l[·]?) = l.take n := by
  induction n with
  | zero => rfl
  | succ n ih =>
    rw [List.range_succ, List.filterMap_append, ih, List.take_add_one]
    cases h : l[n]? <;> simp [h]

end Fold
