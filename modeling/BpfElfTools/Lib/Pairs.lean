import Mathlib

/-!
# Writes to pairs of elements

Writes to a list, each of which rewrites an element and the next one, the latter
as a function of both (`PairWrite`).

* `getElem?_write`: what a write leaves where;
* `pairAt_writeAll`: after a sequence of writes that do not straddle a pair, the
  pair is what the writes to it make of it, in their order;
* `getElem?_writeAll_of_notMem`: the elements no write is for are kept.
-/

namespace Pairs

variable {α : Type*}

/-- Replacing an element by that element. -/
theorem set_self {l : List α} {n : ℕ} {a : α} (h : l[n]? = some a) : l.set n a = l := by
  obtain ⟨hlt, hget⟩ := List.getElem?_eq_some_iff.1 h
  exact (congrArg _ hget.symm).trans (List.set_getElem_self hlt)

/-- A write to a pair: the first element becomes `first i`, the second `second i j`. -/
structure PairWrite (α : Type*) where
  first : α → α
  second : α → α → α

namespace PairWrite

/-- Writing to the pair at `k`, as far as there is one. -/
def write (w : PairWrite α) (k : ℕ) (l : List α) : List α :=
  match l[k]?, l[k + 1]? with
  | some i, some j => (l.set k (w.first i)).set (k + 1) (w.second i j)
  | some i, none => l.set k (w.first i)
  | none, _ => l

@[simp] theorem length_write (w : PairWrite α) (k : ℕ) (l : List α) :
    (w.write k l).length = l.length := by
  rw [write]
  split <;> simp

/-- What is where, once a pair is written. -/
theorem getElem?_write (w : PairWrite α) (k : ℕ) (l : List α) (n : ℕ) :
    (w.write k l)[n]? =
      if n = k then l[k]?.map w.first
      else if n = k + 1 then l[k]?.bind fun i => l[k + 1]?.map (w.second i)
      else l[n]? := by
  have len_of_some {m : ℕ} {a : α} (h : l[m]? = some a) : m < l.length :=
    (List.getElem?_eq_some_iff.1 h).1
  rw [write]
  split
  · rename_i i j hi hj
    have := len_of_some hi
    have := len_of_some hj
    rw [List.getElem?_set, List.getElem?_set, List.length_set, hi, hj]
    grind
  · rename_i i hi hj
    have := len_of_some hi
    have := List.getElem?_eq_none_iff.1 hj
    rw [List.getElem?_set, hi, hj]
    grind
  · rename_i hi
    have := List.getElem?_eq_none_iff.1 hi
    rw [hi]
    grind

/-- A write that changes nothing. -/
theorem write_of_id {w : PairWrite α} (h₁ : ∀ i, w.first i = i) (h₂ : ∀ i j, w.second i j = j)
    (k : ℕ) (l : List α) : w.write k l = l := by
  rw [write]
  split
  · rename_i i j hi hj
    rw [h₁, h₂, set_self hi, set_self hj]
  · rename_i i hi _
    rw [h₁, set_self hi]
  · rfl

/-- The effect of a write on the pair it is for. -/
def onPair (w : PairWrite α) (x : Option α × Option α) : Option α × Option α :=
  (x.1.map w.first, x.1.bind fun i => x.2.map (w.second i))

end PairWrite

/-- The pair at `k`. -/
def pairAt (l : List α) (k : ℕ) : Option α × Option α := (l[k]?, l[k + 1]?)

theorem pairAt_write_self (w : PairWrite α) (k : ℕ) (l : List α) :
    pairAt (w.write k l) k = w.onPair (pairAt l k) := by
  simp [pairAt, PairWrite.onPair, PairWrite.getElem?_write]

theorem pairAt_write_of_ne (w : PairWrite α) {k n : ℕ} (hne : k ≠ n) (hnext : k ≠ n + 1)
    (hprev : n ≠ k + 1) (l : List α) : pairAt (w.write k l) n = pairAt l n := by
  rw [pairAt, PairWrite.getElem?_write, PairWrite.getElem?_write, if_neg hne.symm, if_neg hprev,
    if_neg hnext.symm, if_neg (by omega)]
  rfl

/-! ## Sequences of writes -/

/-- A sequence of writes, each at its index. -/
def writeAll (ws : List (ℕ × PairWrite α)) (l : List α) : List α :=
  ws.foldl (fun l w => w.2.write w.1 l) l

@[simp] theorem length_writeAll (ws : List (ℕ × PairWrite α)) (l : List α) :
    (writeAll ws l).length = l.length := by
  induction ws generalizing l with
  | nil => rfl
  | cons w ws ih => exact (ih _).trans (w.2.length_write w.1 l)

/-- The writes at `k`, one after the other. -/
def atIndex (ws : List (ℕ × PairWrite α)) (k : ℕ) : List (PairWrite α) :=
  (ws.filter (·.1 = k)).map Prod.snd

theorem atIndex_of_notMem {ws : List (ℕ × PairWrite α)} {k : ℕ} (h : k ∉ ws.map Prod.fst) :
    atIndex ws k = [] := by
  have hfilter : ws.filter (·.1 = k) = [] := by
    refine List.filter_eq_nil_iff.2 fun w hw hk => h ?_
    rw [← of_decide_eq_true hk]
    exact List.mem_map_of_mem hw
  rw [atIndex, hfilter, List.map_nil]

/-- If the indices are distinct, there is one write at each. -/
theorem atIndex_of_mem {ws : List (ℕ × PairWrite α)} (h : (ws.map Prod.fst).Nodup)
    {w : ℕ × PairWrite α} (hw : w ∈ ws) : atIndex ws w.1 = [w.2] := by
  induction ws with
  | nil => exact absurd hw List.not_mem_nil
  | cons v ws ih =>
    rw [List.map_cons, List.nodup_cons] at h
    rcases List.mem_cons.1 hw with rfl | hw'
    · rw [atIndex, List.filter_cons_of_pos (by simp), List.map_cons, ← atIndex,
        atIndex_of_notMem h.1]
    · have hne : v.1 ≠ w.1 := fun heq => h.1 (heq ▸ List.mem_map_of_mem hw')
      rw [atIndex, List.filter_cons_of_neg (by simpa using hne), ← atIndex, ih h.2 hw']

/-- After writes none of which straddles the pair at `k`, it is what those at `k` make of it. -/
theorem pairAt_writeAll {ws : List (ℕ × PairWrite α)} {k : ℕ}
    (h : ∀ w ∈ ws, w.1 ≠ k + 1 ∧ k ≠ w.1 + 1) (l : List α) :
    pairAt (writeAll ws l) k = (atIndex ws k).foldl (fun x w => w.onPair x) (pairAt l k) := by
  induction ws generalizing l with
  | nil => rfl
  | cons w ws ih =>
    have hw := h w List.mem_cons_self
    rw [writeAll, List.foldl_cons, ← writeAll, ih fun v hv => h v (List.mem_cons_of_mem _ hv)]
    by_cases hk : w.1 = k
    · rw [atIndex, atIndex, List.filter_cons_of_pos (by simpa using hk), List.map_cons,
        List.foldl_cons, hk, pairAt_write_self]
    · rw [atIndex, atIndex, List.filter_cons_of_neg (by simpa using hk),
        pairAt_write_of_ne w.2 hk hw.1 hw.2]

/-- The elements no write is for are kept. -/
theorem getElem?_writeAll_of_notMem {ws : List (ℕ × PairWrite α)} {n : ℕ}
    (h : ∀ w ∈ ws, n ≠ w.1 ∧ n ≠ w.1 + 1) (l : List α) : (writeAll ws l)[n]? = l[n]? := by
  induction ws generalizing l with
  | nil => rfl
  | cons w ws ih =>
    have hw := h w List.mem_cons_self
    rw [writeAll, List.foldl_cons, ← writeAll, ih fun v hv => h v (List.mem_cons_of_mem _ hv),
      PairWrite.getElem?_write, if_neg hw.1, if_neg hw.2]

end Pairs
