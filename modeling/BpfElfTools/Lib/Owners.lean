import Mathlib

/-!
# Items and their owners

Items counted by owner: if each item has exactly one owner, the counts of all the
owners add up to the number of items (`sum_length_filter_of_unique`).
-/

namespace Owners

variable {α β : Type*}

/-- Counting the items of every owner is counting the owners of every item. -/
theorem sum_length_filter (owners : List α) (items : List β) (owns : α → β → Bool) :
    (owners.map fun a => (items.filter (owns a)).length).sum =
      (items.map fun b => owners.countP (owns · b)).sum := by
  induction items with
  | nil => simp
  | cons b items ih =>
    have hcount : ∀ owners : List α,
        (owners.map fun a => ((b :: items).filter (owns a)).length).sum =
          owners.countP (owns · b) +
            (owners.map fun a => (items.filter (owns a)).length).sum := by
      intro owners
      induction owners with
      | nil => rfl
      | cons a owners ih =>
        rw [List.map_cons, List.sum_cons, ih, List.map_cons, List.sum_cons, List.countP_cons,
          List.filter_cons]
        split
        · rw [List.length_cons]
          omega
        · omega
    rw [hcount, ih, List.map_cons, List.sum_cons]

/-- If each item has exactly one owner, the owners have as many as there are. -/
theorem sum_length_filter_of_unique {owners : List α} {items : List β} {owns : α → β → Bool}
    (h : ∀ b ∈ items, owners.countP (owns · b) = 1) :
    (owners.map fun a => (items.filter (owns a)).length).sum = items.length := by
  rw [sum_length_filter, List.map_congr_left h, List.map_const', List.sum_replicate, smul_eq_mul,
    mul_one]

/-- A property that no two elements share is that of at most one. -/
theorem countP_le_one {p : α → Bool} {l : List α}
    (h : l.Pairwise fun a b => ¬(p a = true ∧ p b = true)) : l.countP p ≤ 1 := by
  induction l with
  | nil => exact Nat.zero_le 1
  | cons a l ih =>
    obtain ⟨hhead, htail⟩ := List.pairwise_cons.1 h
    by_cases ha : p a = true
    · have hnone : l.countP p = 0 := List.countP_eq_zero.2 fun b hb hpb => hhead b hb ⟨ha, hpb⟩
      rw [List.countP_cons_of_pos ha, hnone]
    · rw [List.countP_cons_of_neg ha]
      exact ih htail

/-- Numbers that are at most others, with the same sum, are equal to them. -/
theorem eq_of_sum_eq {f g : α → ℕ} {l : List α} (hle : ∀ a ∈ l, f a ≤ g a)
    (hsum : (l.map f).sum = (l.map g).sum) : ∀ a ∈ l, f a = g a := by
  intro a ha
  by_contra hne
  have hlt := List.sum_lt_sum f g hle ⟨a, ha, lt_of_le_of_ne (hle a ha) hne⟩
  omega

/-- The elements without items can be left out. -/
theorem flatMap_filter {f : α → List β} {p : α → Bool} {l : List α}
    (h : ∀ a ∈ l, ¬p a = true → f a = []) : (l.filter p).flatMap f = l.flatMap f := by
  induction l with
  | nil => rfl
  | cons a l ih =>
    have htail := ih fun b hb => h b (List.mem_cons_of_mem a hb)
    by_cases ha : p a = true
    · rw [List.filter_cons_of_pos ha, List.flatMap_cons, List.flatMap_cons, htail]
    · rw [List.filter_cons_of_neg ha, List.flatMap_cons, h a List.mem_cons_self ha, htail]
      rfl

/-- Two related lists are related by what the relation implies for the members of the
    first. -/
theorem forall₂_imp_mem {R S : α → β → Prop} {l : List α} {bs : List β} (h : List.Forall₂ R l bs)
    (hRS : ∀ a ∈ l, ∀ b, R a b → S a b) : List.Forall₂ S l bs := by
  induction h with
  | nil => exact .nil
  | cons hab _ ih =>
    exact .cons (hRS _ List.mem_cons_self _ hab) (ih fun a ha => hRS a (List.mem_cons_of_mem _ ha))

/-- Every member of the first of two related lists has a partner in the second. -/
theorem exists_of_forall₂ {R : α → β → Prop} {l : List α} {bs : List β} (h : List.Forall₂ R l bs)
    {a : α} (ha : a ∈ l) : ∃ b ∈ bs, R a b := by
  induction h with
  | nil => exact absurd ha List.not_mem_nil
  | cons hab _ ih =>
    rcases List.mem_cons.1 ha with rfl | ha'
    · exact ⟨_, List.mem_cons_self, hab⟩
    · obtain ⟨b, hb, hR⟩ := ih ha'
      exact ⟨b, List.mem_cons_of_mem _ hb, hR⟩

/-- Every member of the second of two related lists has a partner in the first. -/
theorem exists_of_forall₂_right {R : α → β → Prop} {l : List α} {bs : List β}
    (h : List.Forall₂ R l bs) {b : β} (hb : b ∈ bs) : ∃ a ∈ l, R a b :=
  exists_of_forall₂ h.flip hb

end Owners
