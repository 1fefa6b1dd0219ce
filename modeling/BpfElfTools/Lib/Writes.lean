import Mathlib

/-!
# Writes to places of a list

A sequence of writes, each of which changes what is at its place of a list
(`run`). Writes to other places do not matter to a place (`getElem?_run`), and if
a write leaves nothing of the earlier ones there, only the last one does
(`getElem?_run_of_overrides`).
-/

namespace Writes

variable {α β ω : Type*}

/-- The writes `ws`, one after the other: `w` changes what is at `place w` by `f w`. -/
def run (place : ω → ℕ) (f : ω → α → α) (ws : List ω) (l : List α) : List α :=
  ws.foldl (fun l w => l.modify (place w) (f w)) l

variable {place : ω → ℕ} {f : ω → α → α}

theorem run_cons (w : ω) (ws : List ω) (l : List α) :
    run place f (w :: ws) l = run place f ws (l.modify (place w) (f w)) := rfl

theorem length_run (ws : List ω) (l : List α) : (run place f ws l).length = l.length := by
  induction ws generalizing l with
  | nil => rfl
  | cons w ws ih => rw [run_cons, ih, List.length_modify]

/-- What is at a place is what the writes to it make of what was there. -/
theorem getElem?_run (ws : List ω) (l : List α) (k : ℕ) :
    (run place f ws l)[k]? =
      l[k]?.map fun a => (ws.filter (place · = k)).foldl (fun a w => f w a) a := by
  induction ws generalizing l with
  | nil => exact Option.map_id'.symm
  | cons w ws ih =>
    rw [run_cons, ih, List.getElem?_modify, Option.map_eq_map, Option.map_map]
    refine congrArg (Option.map · _) ?_
    funext a
    by_cases hk : place w = k
    · rw [List.filter_cons_of_pos (by simpa using hk), List.foldl_cons, Function.comp_apply,
        if_pos hk]
    · rw [List.filter_cons_of_neg (by simpa using hk), Function.comp_apply, if_neg hk]

/-- What is at a place that is not written to. -/
theorem getElem?_run_of_forall_ne {ws : List ω} {k : ℕ} (h : ∀ w ∈ ws, place w ≠ k) (l : List α) :
    (run place f ws l)[k]? = l[k]? := by
  have hnil : ws.filter (place · = k) = [] :=
    List.filter_eq_nil_iff.2 fun w hw => by simpa using h w hw
  rw [getElem?_run, hnil]
  exact Option.map_id'

/-- A write leaves nothing of the earlier ones at its place. -/
def Overrides (f : ω → α → α) : Prop := ∀ v w a, f w (f v a) = f w a

theorem foldl_of_overrides (h : Overrides f) (ws : List ω) (a : α) :
    ws.foldl (fun a w => f w a) a = ws.getLast?.elim a fun w => f w a := by
  induction ws using List.reverseRecOn with
  | nil => rfl
  | append_singleton ws w ih =>
    rw [List.foldl_append, List.foldl_cons, List.foldl_nil, ih, List.getLast?_concat]
    cases ws.getLast? with
    | none => rfl
    | some v => exact h v w a

/-- What is at a place is up to the last write to it. -/
theorem getElem?_run_of_overrides (h : Overrides f) (ws : List ω) (l : List α) (k : ℕ) :
    (run place f ws l)[k]? =
      l[k]?.map fun a => (ws.filter (place · = k)).getLast?.elim a fun w => f w a := by
  rw [getElem?_run]
  refine congrArg (Option.map · _) ?_
  funext a
  exact foldl_of_overrides h _ a

/-- Writes that keep a part of what they change keep it in the whole list. -/
theorem map_run {g : α → β} (hg : ∀ w a, g (f w a) = g a) (ws : List ω) (l : List α) :
    (run place f ws l).map g = l.map g := by
  apply List.ext_getElem?
  intro k
  rw [List.getElem?_map, List.getElem?_map, getElem?_run, Option.map_map]
  refine congrArg (Option.map · _) ?_
  funext a
  rw [Function.comp_apply]
  induction ws.filter (place · = k) generalizing a with
  | nil => rfl
  | cons w ws ih => rw [List.foldl_cons, ih, hg]

end Writes
