import Mathlib

/-!
# Splices

Overwriting a stretch of a list in place, as patching a file does: `splice o r l`
is `l` with the elements from position `o` on replaced by those of `r`.

* `getElem?_splice`: what a splice holds at every position;
* `extract_splice`: a stretch disjoint from the splice is kept;
* `append_hole_eq_splice_iff`: a copy assembled from a prefix, a filling and a rest
  is a splice of `l`, for every filling of the hole, exactly when the prefix and
  the rest are those of `l`;
* `spliceAll`: splices, one after the other, of which the last one over a position
  counts (`getElem?_spliceAll`); disjoint ones do not depend on their order
  (`spliceAll_perm`).
-/

namespace Splice

variable {α : Type*}

/-- The list `l` with the elements from position `o` on replaced by those of `r`. -/
def splice (o : ℕ) (r l : List α) : List α := l.take o ++ r ++ l.drop (o + r.length)

theorem length_splice {o : ℕ} {r l : List α} (h : o + r.length ≤ l.length) :
    (splice o r l).length = l.length := by
  simp only [splice, List.length_append, List.length_take, List.length_drop]
  omega

/-- A splice holds the elements of `r` from position `o` on, and is unchanged elsewhere. -/
theorem getElem?_splice {o : ℕ} {r l : List α} (h : o + r.length ≤ l.length) (i : ℕ) :
    (splice o r l)[i]? = if o ≤ i ∧ i < o + r.length then r[i - o]? else l[i]? := by
  have htake : (l.take o).length = o := by simp; omega
  rcases Nat.lt_or_ge i o with hi | hi
  · rw [splice, List.append_assoc, List.getElem?_append_left (by omega), List.getElem?_take,
      if_pos hi, if_neg (by omega)]
  · rw [splice, List.append_assoc, List.getElem?_append_right (by omega), htake]
    rcases Nat.lt_or_ge i (o + r.length) with hr | hr
    · rw [List.getElem?_append_left (by omega), if_pos ⟨hi, hr⟩]
    · rw [List.getElem?_append_right (by omega), List.getElem?_drop, if_neg (by omega)]
      congr 1
      omega

theorem getElem?_splice_of_notMem {o : ℕ} {r l : List α} (h : o + r.length ≤ l.length) {i : ℕ}
    (hi : i < o ∨ o + r.length ≤ i) : (splice o r l)[i]? = l[i]? := by
  rw [getElem?_splice h, if_neg (by omega)]

/-- A stretch disjoint from the splice is kept. -/
theorem extract_splice {o a b : ℕ} {r l : List α} (h : o + r.length ≤ l.length)
    (hab : b ≤ o ∨ o + r.length ≤ a) : (splice o r l).extract a b = l.extract a b := by
  apply List.ext_getElem?
  intro i
  simp only [List.extract_eq_take_drop, List.getElem?_take, List.getElem?_drop]
  split
  · exact getElem?_splice_of_notMem h (by omega)
  · rfl

/-- Putting back what is there changes nothing. -/
theorem splice_extract {o n : ℕ} {l : List α} (h : o + n ≤ l.length) :
    splice o (l.extract o (o + n)) l = l := by
  have hlen : (l.extract o (o + n)).length = n := by
    rw [List.extract_eq_take_drop, List.length_take, List.length_drop]
    omega
  rw [splice, hlen, List.extract_eq_take_drop, Nat.add_sub_cancel_left, List.append_assoc,
    ← List.drop_drop, List.take_append_drop, List.take_append_drop]

/-! ## Copies with a hole -/

/-- A copy assembled from a prefix `p`, a filling of `s` elements and a rest `r` is the splice
    of `l` at `o` by the filling, for every filling, exactly when the prefix and the rest are
    those of `l`. -/
theorem append_hole_eq_splice_iff [Nontrivial α] {o s : ℕ} {p r l : List α} (hs : 0 < s)
    (h : o + s ≤ l.length) :
    (∀ n : List α, n.length = s → p ++ n ++ r = splice o n l) ↔
      p = l.take o ∧ r = l.drop (o + s) := by
  constructor
  · intro hcopy
    obtain ⟨x, y, hxy⟩ := exists_pair_ne α
    have hx := hcopy (List.replicate s x) List.length_replicate
    have hy := hcopy (List.replicate s y) List.length_replicate
    -- The hole of the copy must be at `o`: a filling shows at the first position
    -- of the hole on one side, where the other side does not depend on it.
    have hlen : p.length = o := by
      rcases Nat.lt_trichotomy p.length o with hlt | heq | hgt
      · have at_hole (z : α) (hz : p ++ List.replicate s z ++ r =
            splice o (List.replicate s z) l) : l[p.length]? = some z := by
          have hget := congrArg (·[p.length]?) hz
          rw [getElem?_splice_of_notMem (by simpa using h) (.inl hlt)] at hget
          rw [← hget, List.append_assoc, List.getElem?_append_right le_rfl, Nat.sub_self,
            List.getElem?_append_left (by simpa using hs)]
          simp [hs]
        exact absurd (Option.some.inj ((at_hole x hx).symm.trans (at_hole y hy))) hxy
      · exact heq
      · have at_hole (z : α) (hz : p ++ List.replicate s z ++ r =
            splice o (List.replicate s z) l) : p[o]? = some z := by
          have hget := congrArg (·[o]?) hz
          rw [getElem?_splice (by simpa using h), if_pos (by simpa using hs), Nat.sub_self,
            List.append_assoc, List.getElem?_append_left hgt] at hget
          rw [hget]
          simp [hs]
        exact absurd (Option.some.inj ((at_hole x hx).symm.trans (at_hole y hy))) hxy
    have htake : (l.take o).length = p.length := by
      rw [hlen, List.length_take]
      omega
    rw [splice, List.append_assoc, List.append_assoc, List.length_replicate] at hx
    obtain ⟨hinit, hrest⟩ := List.append_inj hx htake.symm
    exact ⟨hinit, List.append_cancel_left hrest⟩
  · rintro ⟨rfl, rfl⟩ n hn
    rw [splice, hn]

/-! ## Several splices -/

/-- The splices `ps` (positions and replacements), one after the other. -/
def spliceAll (ps : List (ℕ × List α)) (l : List α) : List α :=
  ps.foldl (fun l p => splice p.1 p.2 l) l

/-- Two splices that touch no common position. -/
def Apart (p q : ℕ × List α) : Prop :=
  p.1 + p.2.length ≤ q.1 ∨ q.1 + q.2.length ≤ p.1

theorem Apart.symm {p q : ℕ × List α} (h : Apart p q) : Apart q p := Or.symm h

theorem spliceAll_cons (p : ℕ × List α) (ps : List (ℕ × List α)) (l : List α) :
    spliceAll (p :: ps) l = spliceAll ps (splice p.1 p.2 l) := rfl

theorem spliceAll_append (ps qs : List (ℕ × List α)) (l : List α) :
    spliceAll (ps ++ qs) l = spliceAll qs (spliceAll ps l) := List.foldl_append

theorem length_spliceAll {ps : List (ℕ × List α)} {l : List α}
    (h : ∀ p ∈ ps, p.1 + p.2.length ≤ l.length) : (spliceAll ps l).length = l.length := by
  induction ps generalizing l with
  | nil => rfl
  | cons p ps ih =>
    have hp := length_splice (h p List.mem_cons_self)
    rw [spliceAll_cons, ih fun q hq => hp.symm ▸ h q (List.mem_cons_of_mem _ hq), hp]

/-- Outside every splice, the list is unchanged. -/
theorem getElem?_spliceAll_of_notMem {ps : List (ℕ × List α)} {l : List α}
    (h : ∀ p ∈ ps, p.1 + p.2.length ≤ l.length) {i : ℕ}
    (hi : ∀ p ∈ ps, i < p.1 ∨ p.1 + p.2.length ≤ i) : (spliceAll ps l)[i]? = l[i]? := by
  induction ps generalizing l with
  | nil => rfl
  | cons p ps ih =>
    have hp := h p List.mem_cons_self
    rw [spliceAll_cons, ih (fun q hq => (length_splice hp).symm ▸ h q (List.mem_cons_of_mem _ hq))
      fun q hq => hi q (List.mem_cons_of_mem _ hq),
      getElem?_splice_of_notMem hp (hi p List.mem_cons_self)]

/-- Within one of the splices, which are apart, the list holds its replacement. -/
theorem getElem?_spliceAll_of_mem {ps : List (ℕ × List α)} {l : List α}
    (h : ∀ p ∈ ps, p.1 + p.2.length ≤ l.length) (hap : ps.Pairwise Apart) {p : ℕ × List α}
    (hp : p ∈ ps) {i : ℕ} (hi : p.1 ≤ i ∧ i < p.1 + p.2.length) :
    (spliceAll ps l)[i]? = p.2[i - p.1]? := by
  induction ps generalizing l with
  | nil => exact absurd hp List.not_mem_nil
  | cons q ps ih =>
    have hq := h q List.mem_cons_self
    have hps : ∀ r ∈ ps, r.1 + r.2.length ≤ (splice q.1 q.2 l).length :=
      fun r hr => (length_splice hq).symm ▸ h r (List.mem_cons_of_mem _ hr)
    rw [List.pairwise_cons] at hap
    rw [spliceAll_cons]
    rcases List.mem_cons.1 hp with rfl | hp'
    · -- The later splices are apart from this one: what it wrote survives.
      rw [getElem?_spliceAll_of_notMem hps fun r hr => by
        rcases hap.1 r hr with hr' | hr' <;> omega, getElem?_splice hq, if_pos hi]
    · exact ih hps hap.2 hp'

/-- The stretch of one of the splices, which are apart. -/
theorem extract_spliceAll {ps : List (ℕ × List α)} {l : List α}
    (h : ∀ p ∈ ps, p.1 + p.2.length ≤ l.length) (hap : ps.Pairwise Apart) {p : ℕ × List α}
    (hp : p ∈ ps) : (spliceAll ps l).extract p.1 (p.1 + p.2.length) = p.2 := by
  apply List.ext_getElem?
  intro i
  simp only [List.extract_eq_take_drop, List.getElem?_take, List.getElem?_drop]
  split
  · rw [getElem?_spliceAll_of_mem h hap hp (by omega), Nat.add_sub_cancel_left]
  · rw [List.getElem?_eq_none (by omega)]

/-- The position `i` is one of those that the splice replaces. -/
def Covers (i : ℕ) (p : ℕ × List α) : Prop := p.1 ≤ i ∧ i < p.1 + p.2.length

instance (i : ℕ) (p : ℕ × List α) : Decidable (Covers i p) := inferInstanceAs (Decidable (_ ∧ _))

/-- At every position, the list holds what the last splice over it has put there. -/
theorem getElem?_spliceAll {ps : List (ℕ × List α)} {l : List α}
    (h : ∀ p ∈ ps, p.1 + p.2.length ≤ l.length) (i : ℕ) :
    (spliceAll ps l)[i]? =
      (ps.filter fun p => Covers i p).getLast?.elim l[i]? fun p => p.2[i - p.1]? := by
  induction ps using List.reverseRecOn with
  | nil => rfl
  | append_singleton ps p ih =>
    have hps : ∀ q ∈ ps, q.1 + q.2.length ≤ l.length := fun q hq => h q (List.mem_append_left _ hq)
    have hp : p.1 + p.2.length ≤ (spliceAll ps l).length := by
      rw [length_spliceAll hps]
      exact h p (by simp)
    rw [spliceAll_append, List.filter_append]
    change (splice p.1 p.2 (spliceAll ps l))[i]? = _
    rw [getElem?_splice hp]
    by_cases hi : Covers i p
    · rw [if_pos (show p.1 ≤ i ∧ i < p.1 + p.2.length from hi),
        List.filter_cons_of_pos (by simpa using hi), List.filter_nil, List.getLast?_concat]
      rfl
    · rw [if_neg (show ¬(p.1 ≤ i ∧ i < p.1 + p.2.length) from hi),
        List.filter_cons_of_neg (by simpa using hi), List.filter_nil, List.append_nil]
      exact ih hps

/-- Splices that are apart may be done in any order. -/
theorem spliceAll_perm {ps qs : List (ℕ × List α)} {l : List α} (hperm : ps.Perm qs)
    (h : ∀ p ∈ ps, p.1 + p.2.length ≤ l.length) (hap : ps.Pairwise Apart) :
    spliceAll ps l = spliceAll qs l := by
  have h' : ∀ p ∈ qs, p.1 + p.2.length ≤ l.length := fun p hp => h p (hperm.mem_iff.2 hp)
  have hap' : qs.Pairwise Apart := (hperm.pairwise_iff Apart.symm).1 hap
  apply List.ext_getElem?
  intro i
  by_cases hi : ∃ p ∈ ps, p.1 ≤ i ∧ i < p.1 + p.2.length
  · obtain ⟨p, hp, hip⟩ := hi
    rw [getElem?_spliceAll_of_mem h hap hp hip,
      getElem?_spliceAll_of_mem h' hap' (hperm.mem_iff.1 hp) hip]
  · push Not at hi
    have hout : ∀ p ∈ ps, i < p.1 ∨ p.1 + p.2.length ≤ i := fun p hp => by
      have := hi p hp
      omega
    rw [getElem?_spliceAll_of_notMem h hout,
      getElem?_spliceAll_of_notMem h' fun p hp => hout p (hperm.mem_iff.2 hp)]

end Splice
