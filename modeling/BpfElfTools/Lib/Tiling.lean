import Mathlib

/-!
# Tilings

Segments laid out one after the other from `a` to `b`, without gaps or empty
segments (`Tiles`), each point being in exactly one of them (`Tiles.exists_mem`,
`Tiles.pairwise`). Segments that may be empty (`Contiguous`) cut a list into pieces that
make it up again (`Contiguous.flatten_extract`).
-/

namespace Tiling

variable {α : Type*} (start len : α → ℕ)

/-- The segments of `l` follow one another from `a` to `b`. -/
def Tiles : List α → ℕ → ℕ → Prop
  | [], a, b => a = b
  | x :: l, a, b => start x = a ∧ 0 < len x ∧ Tiles l (a + len x) b

/-- The point `n` is in the segment `x`. -/
def Covers (x : α) (n : ℕ) : Prop := start x ≤ n ∧ n < start x + len x

instance (x : α) (n : ℕ) : Decidable (Covers start len x n) :=
  inferInstanceAs (Decidable (_ ∧ _))

variable {start len}

theorem Tiles.le {l : List α} {a b : ℕ} (h : Tiles start len l a b) : a ≤ b := by
  induction l generalizing a with
  | nil => exact Nat.le_of_eq h
  | cons x l ih =>
    have := ih h.2.2
    omega

theorem Tiles.append {l l' : List α} {a b c : ℕ} (h : Tiles start len l a b)
    (h' : Tiles start len l' b c) : Tiles start len (l ++ l') a c := by
  induction l generalizing a with
  | nil => exact h ▸ h'
  | cons x l ih => exact ⟨h.1, h.2.1, ih h.2.2⟩

/-- The segments lie between the ends. -/
theorem Tiles.bounds {l : List α} {a b : ℕ} (h : Tiles start len l a b) {x : α} (hx : x ∈ l) :
    a ≤ start x ∧ 0 < len x ∧ start x + len x ≤ b := by
  induction l generalizing a with
  | nil => exact absurd hx List.not_mem_nil
  | cons y l ih =>
    obtain ⟨hy, hpos, hl⟩ := h
    rcases List.mem_cons.1 hx with rfl | hx'
    · exact ⟨Nat.le_of_eq hy.symm, hpos, hy ▸ hl.le⟩
    · have := ih hl hx'
      omega

/-- The segments are in order, each ending before the next ones. -/
theorem Tiles.pairwise {l : List α} {a b : ℕ} (h : Tiles start len l a b) :
    l.Pairwise fun x y => start x + len x ≤ start y := by
  induction l generalizing a with
  | nil => exact .nil
  | cons x l ih =>
    obtain ⟨hx, _, hl⟩ := h
    exact .cons (fun y hy => hx ▸ (hl.bounds hy).1) (ih hl)

/-- Every point between the ends is in a segment. -/
theorem Tiles.exists_mem {l : List α} {a b : ℕ} (h : Tiles start len l a b) {n : ℕ}
    (ha : a ≤ n) (hb : n < b) : ∃ x ∈ l, Covers start len x n := by
  induction l generalizing a with
  | nil => exact absurd (h ▸ ha) (not_le.2 hb)
  | cons x l ih =>
    obtain ⟨hx, _, hl⟩ := h
    rcases Nat.lt_or_ge n (a + len x) with hlt | hge
    · exact ⟨x, List.mem_cons_self, by rw [Covers, hx]; exact ⟨ha, hlt⟩⟩
    · obtain ⟨y, hy, hcov⟩ := ih hl hge
      exact ⟨y, List.mem_cons_of_mem _ hy, hcov⟩

/-! ## Segments that may be empty -/

/-- The segments of `l`, which may be empty, follow one another from `a` on. -/
def Contiguous (start len : α → ℕ) : List α → ℕ → Prop
  | [], _ => True
  | x :: l, a => start x = a ∧ Contiguous start len l (a + len x)

/-- The segments start at `a` or later. -/
theorem Contiguous.le {l : List α} {a : ℕ} (h : Contiguous start len l a) {x : α} (hx : x ∈ l) :
    a ≤ start x := by
  induction l generalizing a with
  | nil => exact absurd hx List.not_mem_nil
  | cons y l ih =>
    rcases List.mem_cons.1 hx with rfl | hx'
    · exact Nat.le_of_eq h.1.symm
    · exact (Nat.le_add_right _ _).trans (ih h.2 hx')

/-- The segments are in order, each ending before the next ones. -/
theorem Contiguous.pairwise {l : List α} {a : ℕ} (h : Contiguous start len l a) :
    l.Pairwise fun x y => start x + len x ≤ start y := by
  induction l generalizing a with
  | nil => exact .nil
  | cons x l ih => exact .cons (fun y hy => h.1 ▸ h.2.le hy) (ih h.2)

/-- The segments before one of them end where it starts. -/
theorem Contiguous.start_eq {l l' : List α} {x : α} {a : ℕ}
    (h : Contiguous start len (l ++ x :: l') a) : start x = a + (l.map len).sum := by
  induction l generalizing a with
  | nil => exact h.1
  | cons y l ih =>
    rw [ih h.2, List.map_cons, List.sum_cons, Nat.add_assoc]

/-- The pieces of a list make up the stretch that they cover. -/
theorem Contiguous.flatten_extract {β : Type*} (v : List β) {l l' : List α} {a : ℕ}
    (h : Contiguous start len (l ++ l') a) :
    (l.map fun x => v.extract (start x) (start x + len x)).flatten =
      v.extract a (a + (l.map len).sum) := by
  induction l generalizing a with
  | nil => simp
  | cons x l ih =>
    rw [List.map_cons, List.flatten_cons, ih h.2, h.1, List.map_cons, List.sum_cons]
    simp only [List.extract_eq_take_drop, Nat.add_sub_cancel_left, Nat.add_assoc]
    rw [List.take_add, List.drop_drop, ← Nat.add_assoc, Nat.add_sub_cancel_left]

end Tiling
