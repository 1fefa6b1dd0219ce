import Mathlib

/-!
# Sorting by a comparison function

`List.insertionSort` by a comparison function in the style of C, which gives a
negative, null or positive number: its result is sorted when the comparison is a
preorder, and then does not depend on the order of elements that it tells apart.
-/

namespace Sorting

variable {α : Type*}

/-- A comparison function that orders its arguments. -/
structure IsCmp (cmp : α → α → ℤ) : Prop where
  total : ∀ a b, cmp a b ≤ 0 ∨ cmp b a ≤ 0
  trans : ∀ a b c, cmp a b ≤ 0 → cmp b c ≤ 0 → cmp a c ≤ 0

/-- Sorting by a comparison function. -/
def sort (cmp : α → α → ℤ) (l : List α) : List α := l.insertionSort fun a b => cmp a b ≤ 0

theorem perm_sort (cmp : α → α → ℤ) (l : List α) : (sort cmp l).Perm l :=
  List.perm_insertionSort _ l

theorem mem_sort {cmp : α → α → ℤ} {l : List α} {a : α} : a ∈ sort cmp l ↔ a ∈ l :=
  (perm_sort cmp l).mem_iff

theorem length_sort (cmp : α → α → ℤ) (l : List α) : (sort cmp l).length = l.length :=
  (perm_sort cmp l).length_eq

theorem pairwise_sort {cmp : α → α → ℤ} (h : IsCmp cmp) (l : List α) :
    (sort cmp l).Pairwise fun a b => cmp a b ≤ 0 := by
  have : Std.Total fun a b => cmp a b ≤ 0 := ⟨h.total⟩
  have : IsTrans α fun a b => cmp a b ≤ 0 := ⟨h.trans⟩
  exact List.pairwise_insertionSort _ l

/-- Sorting a sorted list changes nothing. -/
theorem sort_eq_self {cmp : α → α → ℤ} {l : List α} (h : l.Pairwise fun a b => cmp a b ≤ 0) :
    sort cmp l = l := List.Pairwise.insertionSort_eq h

theorem sort_sort {cmp : α → α → ℤ} (h : IsCmp cmp) (l : List α) :
    sort cmp (sort cmp l) = sort cmp l := sort_eq_self (pairwise_sort h l)

/-- Sorting what has been changed without changing how it compares. -/
theorem sort_map {cmp : α → α → ℤ} {f : α → α} (hf : ∀ a b, cmp (f a) (f b) = cmp a b)
    (l : List α) : sort cmp (l.map f) = (sort cmp l).map f := by
  have insert_map (a : α) (l : List α) :
      (l.map f).orderedInsert (fun a b => cmp a b ≤ 0) (f a) =
        (l.orderedInsert (fun a b => cmp a b ≤ 0) a).map f := by
    induction l with
    | nil => rfl
    | cons b l ih =>
      rw [List.map_cons, List.orderedInsert_cons, List.orderedInsert_cons, hf, ih]
      split <;> rfl
  induction l with
  | nil => rfl
  | cons a l ih =>
    rw [sort] at ih
    rw [List.map_cons, sort, List.insertionSort_cons, ih, insert_map]
    rfl

/-- What is sorted does not matter up to its order, if only equal elements compare equal. -/
theorem sort_eq_of_perm {cmp : α → α → ℤ} (h : IsCmp cmp) {l l' : List α} (hperm : l.Perm l')
    (hinj : ∀ a ∈ l, ∀ b ∈ l, cmp a b ≤ 0 → cmp b a ≤ 0 → a = b) :
    sort cmp l = sort cmp l' := by
  refine List.Perm.eq_of_pairwise (fun a b ha hb => ?_) (pairwise_sort h l) (pairwise_sort h l')
    ((perm_sort cmp l).trans (hperm.trans (perm_sort cmp l').symm))
  exact hinj a (mem_sort.1 ha) b (hperm.mem_iff.2 (mem_sort.1 hb))

/-- In a list that is strictly increasing by a key, an element is where as many elements as have
    a smaller key put it. -/
theorem countP_lt_of_getElem? {key : α → ℕ} {l : List α}
    (h : l.Pairwise fun a b => key a < key b) {i : ℕ} {a : α} (hi : l[i]? = some a) :
    l.countP (fun b => key b < key a) = i := by
  induction l generalizing i with
  | nil => simp at hi
  | cons x l ih =>
    obtain ⟨hx, hl⟩ := List.pairwise_cons.1 h
    cases i with
    | zero =>
      obtain rfl : x = a := by simpa using hi
      rw [List.countP_eq_zero]
      intro b hb
      rcases List.mem_cons.1 hb with rfl | hb
      · simp
      · simpa using (hx b hb).le
    | succ i =>
      rw [List.getElem?_cons_succ] at hi
      have hlt := hx a (List.mem_of_getElem? hi)
      rw [List.countP_cons_of_pos (by simpa using hlt), ih hl hi]

end Sorting
