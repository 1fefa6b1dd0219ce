import Mathlib

/-!
# Printing numbers

The bytes that `printf` writes for an integer: `decimal` for `%u` and
`decimalInt` for `%d`.

* `mem_decimal`: the bytes are digits;
* `length_decimal_le`: how long a number can get.
-/

namespace Text

/-- The characters of a string, as bytes. -/
def chars (l : List Char) : List (BitVec 8) := l.map fun c => BitVec.ofNat 8 c.toNat

/-- The decimal digits of a number. -/
def decimal (n : ℕ) : List (BitVec 8) := chars (Nat.toDigits 10 n)

/-- The decimal digits of an integer, after its sign if it is negative. -/
def decimalInt : ℤ → List (BitVec 8)
  | .ofNat n => decimal n
  | .negSucc n => 0x2d :: decimal (n + 1)

/-- The digit comes off the end. -/
theorem decimal_eq (n : ℕ) :
    decimal n = (if n < 10 then [] else decimal (n / 10)) ++ [BitVec.ofNat 8 (48 + n % 10)] := by
  have digit (d : ℕ) (hd : d < 10) :
      BitVec.ofNat 8 (Nat.digitChar d).toNat = BitVec.ofNat 8 (48 + d) := by
    interval_cases d <;> rfl
  rw [decimal, Nat.toDigits_eq_if (by omega)]
  split
  · rename_i h
    rw [Nat.mod_eq_of_lt h]
    simp [chars, digit n h]
  · simp [chars, decimal, digit (n % 10) (Nat.mod_lt _ (by omega))]

theorem decimal_ne_nil (n : ℕ) : decimal n ≠ [] := by
  rw [decimal_eq]
  simp

/-- All the bytes of a number are digits. -/
theorem mem_decimal {n : ℕ} {b : BitVec 8} (h : b ∈ decimal n) :
    48 ≤ b.toNat ∧ b.toNat ≤ 57 := by
  induction n using Nat.strongRecOn with
  | ind n ih =>
    rw [decimal_eq] at h
    rcases List.mem_append.1 h with h | h
    · split at h
      · exact absurd h List.not_mem_nil
      · exact ih (n / 10) (by omega) h
    · have := Nat.mod_lt n (show 0 < 10 by omega)
      rw [List.mem_singleton.1 h, BitVec.toNat_ofNat]
      omega

/-- A number below `10 ^ k` has at most `k` digits. -/
theorem length_decimal_le {n k : ℕ} (hk : 1 ≤ k) (h : n < 10 ^ k) : (decimal n).length ≤ k := by
  induction k generalizing n with
  | zero => omega
  | succ k ih =>
    rw [decimal_eq, List.length_append, List.length_singleton]
    split
    · simp
    · have hk' : 1 ≤ k := by
        rcases k with _ | k
        · simp at h
          omega
        · omega
      have hdiv : n / 10 < 10 ^ k := by
        rw [Nat.pow_succ] at h
        omega
      have := ih hk' hdiv
      omega

/-- An `int` has at most eleven characters. -/
theorem length_decimalInt_le {x : ℤ} (hlo : -2 ^ 31 ≤ x) (hhi : x < 2 ^ 31) :
    (decimalInt x).length ≤ 11 := by
  cases x with
  | ofNat n =>
    have : (decimal n).length ≤ 10 := length_decimal_le (by omega) (by simp at hhi; omega)
    exact this.trans (by omega)
  | negSucc n =>
    have : (decimal (n + 1)).length ≤ 10 := length_decimal_le (by omega) (by omega)
    simp only [decimalInt, List.length_cons]
    omega

/-! ## Separators -/

/-- A list is cut in one way at the last of its separators. -/
theorem append_sep_inj {α : Type*} {sep : α} {x y r s : List α} (hr : sep ∉ r) (hs : sep ∉ s)
    (h : x ++ sep :: r = y ++ sep :: s) : x = y ∧ r = s := by
  rcases List.append_eq_append_iff.1 h with ⟨c, hy, hcons⟩ | ⟨c, hx, hcons⟩
  · cases c with
    | nil => simp_all
    | cons b c =>
      obtain ⟨-, hr'⟩ := List.cons.inj hcons
      exact absurd (by simp [hr']) hr
  · cases c with
    | nil => simp_all
    | cons b c =>
      obtain ⟨-, hs'⟩ := List.cons.inj hcons
      exact absurd (by simp [hs']) hs

end Text
