import Mathlib

/-!
# Descriptor tables

The table of the file descriptors of a process: opening a file takes the lowest
descriptor that is free, closing one frees it.

* `file_session`: opening files and closing them again leaves the table as it was;
* `file_closeAll`: what is left after closing some descriptors.
-/

/-- The files open under the descriptors 0, 1, and so on. -/
abbrev Descriptors (φ : Type*) := List (Option φ)

namespace Descriptors

variable {φ : Type*}

/-- The file open under a descriptor. -/
def file (t : Descriptors φ) (i : ℕ) : Option φ := t[i]?.join

/-- The lowest free descriptor. -/
def lowest (t : Descriptors φ) : ℕ := t.findIdx Option.isNone

/-- Opening a file. -/
def openFile (f : φ) (t : Descriptors φ) : Descriptors φ :=
  if lowest t < t.length then t.set (lowest t) (some f) else t ++ [some f]

/-- Closing a descriptor, with no effect if it is not open. -/
def close (t : Descriptors φ) (i : ℕ) : Descriptors φ := t.set i none

/-- Closing descriptors one after the other. -/
def closeAll (is : List ℕ) (t : Descriptors φ) : Descriptors φ := is.foldl close t

/-- Every descriptor that is open in `t` is open in `t'`, for the same file. -/
def Keeps (t t' : Descriptors φ) : Prop := ∀ i f, file t i = some f → file t' i = some f

theorem file_lowest (t : Descriptors φ) : file t (lowest t) = none := by
  rcases Nat.lt_or_ge (lowest t) t.length with hlt | hge
  · have hnone : t[lowest t].isNone := List.findIdx_getElem (w := hlt)
    rw [file, List.getElem?_eq_getElem hlt, Option.isNone_iff_eq_none.1 hnone]
    rfl
  · rw [file, List.getElem?_eq_none hge]
    rfl

theorem lowest_le (t : Descriptors φ) : lowest t ≤ t.length := List.findIdx_le_length

theorem file_openFile (f : φ) (t : Descriptors φ) (i : ℕ) :
    file (openFile f t) i = if i = lowest t then some f else file t i := by
  rw [file, openFile]
  rcases Nat.lt_or_ge (lowest t) t.length with hlt | hge
  · rw [if_pos hlt, List.getElem?_set]
    by_cases hi : i = lowest t
    · rw [if_pos hi.symm, if_pos hlt, if_pos hi]
      rfl
    · rw [if_neg (Ne.symm hi), if_neg hi, file]
  · have hend : lowest t = t.length := (lowest_le t).antisymm hge
    rw [if_neg (not_lt.2 hge), hend]
    split
    · rename_i hi
      rw [hi, List.getElem?_concat_length]
      rfl
    · rename_i hi
      rcases Nat.lt_or_gt_of_ne hi with hlt | hgt
      · rw [List.getElem?_append_left hlt, file]
      · rw [file, List.getElem?_eq_none (by simp; omega), List.getElem?_eq_none hgt.le]

theorem file_close (t : Descriptors φ) (i j : ℕ) :
    file (close t i) j = if j = i then none else file t j := by
  rw [file, close, List.getElem?_set]
  split
  · rename_i hij
    rw [if_pos hij.symm]
    split <;> rfl
  · rename_i hij
    rw [if_neg (Ne.symm hij), file]

/-- What is left after closing some descriptors. -/
theorem file_closeAll (is : List ℕ) (t : Descriptors φ) (j : ℕ) :
    file (closeAll is t) j = if j ∈ is then none else file t j := by
  induction is generalizing t with
  | nil => simp [closeAll]
  | cons i is ih =>
    rw [closeAll, List.foldl_cons, ← closeAll, ih, file_close]
    by_cases hj : j ∈ is
    · rw [if_pos hj, if_pos (List.mem_cons_of_mem _ hj)]
    · rw [if_neg hj]
      simp only [List.mem_cons, hj, or_false]

theorem closeAll_append (is js : List ℕ) (t : Descriptors φ) :
    closeAll (is ++ js) t = closeAll js (closeAll is t) := List.foldl_append

/-- Closing descriptors keeps those that were open if none of them was. -/
theorem keeps_closeAll_iff (is : List ℕ) (t : Descriptors φ) :
    Keeps t (closeAll is t) ↔ ∀ i ∈ is, file t i = none := by
  constructor
  · intro h i hi
    rcases ht : file t i with _ | f
    · rfl
    · have hclosed := h i f ht
      rw [file_closeAll, if_pos hi] at hclosed
      cases hclosed
  · intro h i f hf
    rw [file_closeAll, if_neg fun hi => by rw [h i hi] at hf; cases hf]
    exact hf

/-! ## Sessions -/

/-- Opening files one after the other: the descriptors that they get, and the table then. -/
def openAll : List φ → Descriptors φ → List ℕ × Descriptors φ
  | [], t => ([], t)
  | f :: fs, t =>
    let r := openAll fs (openFile f t)
    (lowest t :: r.1, r.2)

/-- Opening files one after the other, then closing them. -/
def session (fs : List φ) (t : Descriptors φ) : Descriptors φ :=
  closeAll (openAll fs t).1 (openAll fs t).2

/-- Files are opened under descriptors that were free. -/
theorem file_openAll (fs : List φ) (t : Descriptors φ) :
    (∀ i ∈ (openAll fs t).1, file t i = none) ∧
      ∀ i ∉ (openAll fs t).1, file (openAll fs t).2 i = file t i := by
  induction fs generalizing t with
  | nil => exact ⟨fun i hi => absurd hi List.not_mem_nil, fun i _ => rfl⟩
  | cons f fs ih =>
    obtain ⟨hfree, hkept⟩ := ih (openFile f t)
    refine ⟨fun i hi => ?_, fun i hi => ?_⟩
    · by_cases hlow : i = lowest t
      · rw [hlow, file_lowest]
      · have := hfree i ((List.mem_cons.1 hi).resolve_left hlow)
        rwa [file_openFile, if_neg hlow] at this
    · obtain ⟨hlow, hi'⟩ := not_or.1 fun h => hi (List.mem_cons.2 h)
      exact (hkept i hi').trans (by rw [file_openFile, if_neg hlow])

/-- Opening files and closing them again leaves the table as it was. -/
theorem file_session (fs : List φ) (t : Descriptors φ) (i : ℕ) :
    file (session fs t) i = file t i := by
  obtain ⟨hfree, hkept⟩ := file_openAll fs t
  rw [session, file_closeAll]
  split
  · rename_i hi
    exact (hfree i hi).symm
  · rename_i hi
    exact hkept i hi

end Descriptors
