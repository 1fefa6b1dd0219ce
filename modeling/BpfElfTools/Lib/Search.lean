import Mathlib

/-!
# Binary search

The search for the last index of an interval satisfying a predicate that holds
up to some index and fails from there on (`lastSat`, `lastSat_eq`).
-/

namespace Search

/-- The loop of the search between `l` and `r`, for at most `fuel` iterations:
    the middle index, rounded up, becomes the new left end if it satisfies `p`,
    and otherwise the new right end is before it. -/
def lastSat (p : ℕ → Bool) : (fuel l r : ℕ) → ℕ
  | 0, l, _ => l
  | fuel + 1, l, r =>
    if l < r then
      if p (l + (r - l + 1) / 2) then lastSat p fuel (l + (r - l + 1) / 2) r
      else lastSat p fuel l (l + (r - l + 1) / 2 - 1)
    else l

/-- With enough iterations, the search finds the index up to which `p` holds. -/
theorem lastSat_eq {p : ℕ → Bool} {fuel l r i : ℕ} (hl : l ≤ i) (hr : i ≤ r)
    (hfuel : r - l ≤ fuel) (hp : ∀ m, l < m → m ≤ r → (p m = true ↔ m ≤ i)) :
    lastSat p fuel l r = i := by
  induction fuel generalizing l r with
  | zero => rw [lastSat]; omega
  | succ fuel ih =>
    rw [lastSat]
    split
    · have hm := hp (l + (r - l + 1) / 2) (by omega) (by omega)
      split
      · exact ih (hm.1 ‹_›) hr (by omega) fun m hm₁ hm₂ => hp m (by omega) hm₂
      · have hlt : i < l + (r - l + 1) / 2 := not_le.1 fun hle => ‹¬_› (hm.2 hle)
        exact ih hl (by omega) (by omega) fun m hm₁ hm₂ => hp m hm₁ (by omega)
    · omega

end Search
