import BpfElfTools.Insn

/-!
# Removing relocations from raw instructions

The patcher's `clear_reloc_insns` undoes, in the bytes of the instructions, what
the extractor's relocation of a map reference has set. It is one loop over the
bytes, clearing them in place, which carries the index of the source register to
check and the range of bytes to clear from one byte to the next.

* `clearRelocInsns`: the loop, as the patcher runs it;
* `clearFrom`: the same loop as a transducer, every iteration reading and writing
  the byte it is at only (`foldl_clearStep`);
* `clearSlots`: its meaning, a walk over slots of eight bytes from the left
  (`clearRelocInsns_eq_clearSlots`), with what it changes (`clearRelocInsns_walk`);
* `clearInsns`: its meaning on instructions (`clearRelocInsns_insnBytes`).
-/

namespace BpfElfTools.Patcher

/-! ## The loop -/

/-- What the loop carries along: the index of the register byte to check, and the
    range of the bytes to clear (`src_clear_idx` and `insn_clear_idxs`). -/
structure Pending where
  srcClearIdx : ℤ
  insnClearIdxs : ℤ × ℤ

/-- Nothing to check, nothing to clear. -/
def Pending.none : Pending := ⟨-1, (-1, -1)⟩

/-- `lddw_opcode`. -/
def lddwOpcode : Byte := 24
/-- `hide_src_bitmask`. -/
def hideSrcBitmask : Byte := 15
/-- `hide_dst_bitmask`. -/
def hideDstBitmask : Byte := 240
/-- `ldmapfd_src_reg`. -/
def ldmapfdSrcReg : Byte := 16

/-- The last test of the loop body, on the byte read at `i`: a slot starting with
    the opcode of `lddw` has its registers checked and the rest of the pair cleared. -/
def checkOpcode (i : ℕ) (byte : Byte) (p : Pending) : Pending :=
  if i % 8 = 0 then
    if byte = lddwOpcode then ⟨i + 1, (i + 4, i + 16)⟩ else p
  else p

/-- The loop body at the byte `i`: the byte written back, and what is pending then. -/
def clearByte (i : ℕ) (byte : Byte) (p : Pending) : Byte × Pending :=
  if i = p.srcClearIdx then
    -- A source register other than 1 is not a map fd: nothing is undone.
    if byte &&& hideDstBitmask ≠ ldmapfdSrcReg then (byte, .none)
    else (byte &&& hideSrcBitmask, checkOpcode i byte p)
  else if i ≥ p.insnClearIdxs.1 ∧ i < p.insnClearIdxs.2 then (0, p)
  else (byte, checkOpcode i byte p)

/-- An iteration of the loop, on the array it enumerates. -/
def clearStep (s : Bytes × Pending) (i : ℕ) : Bytes × Pending :=
  let r := clearByte i (s.1.getD i 0) s.2
  (s.1.set i r.1, r.2)

/-- `clear_reloc_insns`. -/
def clearRelocInsns (byteArray : Bytes) : Bytes :=
  ((List.range byteArray.length).foldl clearStep (byteArray, .none)).1

/-! ## The loop as a transducer -/

/-- The loop over the bytes from position `i` on, writing each as it goes. -/
def clearFrom (i : ℕ) (p : Pending) : Bytes → Bytes
  | [] => []
  | b :: bs => (clearByte i b p).1 :: clearFrom (i + 1) (clearByte i b p).2 bs

theorem clearFrom_cons (i : ℕ) (p : Pending) (b : Byte) (bs : Bytes) :
    clearFrom i p (b :: bs) = (clearByte i b p).1 :: clearFrom (i + 1) (clearByte i b p).2 bs :=
  rfl

/-- The iterations from position `i` on rewrite the bytes from there on only. -/
theorem foldl_clearStep (pre bs : Bytes) (p : Pending) :
    ((List.range' pre.length bs.length).foldl clearStep (pre ++ bs, p)).1 =
      pre ++ clearFrom pre.length p bs := by
  induction bs generalizing pre p with
  | nil => rfl
  | cons b bs ih =>
    have hget : (pre ++ b :: bs).getD pre.length 0 = b := by simp
    have hset (c : Byte) : (pre ++ b :: bs).set pre.length c = (pre ++ [c]) ++ bs := by simp
    rw [List.length_cons, List.range'_succ, List.foldl_cons, clearStep, hget, hset, clearFrom_cons]
    simpa using ih (pre ++ [(clearByte pre.length b p).1]) (clearByte pre.length b p).2

theorem clearRelocInsns_eq_clearFrom (b : Bytes) : clearRelocInsns b = clearFrom 0 .none b := by
  rw [clearRelocInsns, List.range_eq_range']
  exact foldl_clearStep [] b .none

/-! ## The walk over the slots -/

/-- A slot starting with the opcode of `lddw` whose source register is that of a map fd. -/
def IsMapFdSlot : Bytes → Prop
  | b₀ :: b₁ :: _ => b₀ = lddwOpcode ∧ b₁ &&& hideDstBitmask = ldmapfdSrcReg
  | _ => False

instance : DecidablePred IsMapFdSlot
  | _ :: _ :: _ => inferInstanceAs (Decidable (_ ∧ _))
  | [_] => .isFalse id
  | [] => .isFalse id

theorem not_isMapFdSlot {b₀ : Byte} (h₀ : b₀ ≠ lddwOpcode) (bs : Bytes) :
    ¬IsMapFdSlot (b₀ :: bs) := by
  cases bs with
  | nil => exact id
  | cons b₁ bs => exact fun h => h₀ h.1

/-- The byte `j` of a pair of slots that is cleared: the source register, then
    everything from the `imm` of the first slot on. -/
def clearedByte (j : ℕ) (b : Byte) : Byte :=
  if j = 1 then b &&& hideSrcBitmask else if 4 ≤ j then 0 else b

/-- The walk over the slots from the left: a `lddw` of a map fd is cleared
    together with its second slot, the other slots are kept. -/
def clearSlots (b : Bytes) : Bytes :=
  if b = [] then []
  else if IsMapFdSlot b then (b.take 16).mapIdx clearedByte ++ clearSlots (b.drop 16)
  else b.take 8 ++ clearSlots (b.drop 8)
  termination_by b.length
  decreasing_by
    all_goals
      have := List.length_pos_iff.2 ‹b ≠ []›
      simp only [List.length_drop]
      omega

/-- Nothing is pending from the byte `i` on. -/
def Pending.Idle (p : Pending) (i : ℕ) : Prop := p.srcClearIdx < i ∧ p.insnClearIdxs.2 ≤ i

theorem Pending.idle_none (i : ℕ) : Pending.none.Idle i := by
  constructor <;> simp only [Pending.none] <;> omega

theorem Pending.Idle.mono {p : Pending} {i j : ℕ} (h : p.Idle i) (hij : i ≤ j) : p.Idle j := by
  obtain ⟨h₁, h₂⟩ := h
  constructor <;> omega

theorem clearByte_of_idle {p : Pending} {i : ℕ} (h : p.Idle i) (b : Byte) :
    clearByte i b p = (b, checkOpcode i b p) := by
  obtain ⟨h₁, h₂⟩ := h
  rw [clearByte, if_neg (by omega), if_neg (by omega)]

/-- Within a slot, when nothing is pending, the bytes are kept up to the next slot. -/
theorem clearFrom_of_idle {p : Pending} {i : ℕ} (h : p.Idle i) {n : ℕ} (hn : n ≤ (8 - i % 8) % 8)
    (b : Bytes) : clearFrom i p b = b.take n ++ clearFrom (i + n) p (b.drop n) := by
  induction n generalizing i b with
  | zero => rfl
  | succ n ih =>
    cases b with
    | nil => rfl
    | cons b bs =>
      have hi : i % 8 ≠ 0 := by omega
      rw [clearFrom_cons, clearByte_of_idle h, checkOpcode, if_neg hi,
        ih (h.mono (by omega : i ≤ i + 1)) (by omega) bs, List.take_succ_cons, List.drop_succ_cons,
        Nat.add_assoc, Nat.add_comm 1 n]
      rfl

/-- What is pending after a `lddw` at `i`. -/
def Pending.lddw (i : ℕ) : Pending := ⟨i + 1, (i + 4, i + 16)⟩

/-- Once the source register has been checked, the loop clears the byte `j` of the pair. -/
theorem clearByte_lddw {i j : ℕ} (hi : i % 8 = 0) (hj : 2 ≤ j) (hj' : j < 16) (b : Byte) :
    clearByte (i + j) b (.lddw i) = (clearedByte j b, .lddw i) := by
  have hsrc : ¬((i + j : ℕ) : ℤ) = (Pending.lddw i).srcClearIdx := by
    simp only [Pending.lddw]
    omega
  rw [clearByte, if_neg hsrc, clearedByte, if_neg (by omega : j ≠ 1)]
  by_cases h4 : 4 ≤ j
  · rw [if_pos (by simp only [Pending.lddw]; omega), if_pos h4]
  · rw [if_neg (by simp only [Pending.lddw]; omega), if_neg h4, checkOpcode, if_neg (by omega)]

/-- Once the source register has been checked, the rest of the pair is cleared. -/
theorem clearFrom_lddw {i j : ℕ} (hi : i % 8 = 0) (hj : 2 ≤ j) (hj' : j ≤ 16) (b : Bytes) :
    clearFrom (i + j) (.lddw i) b =
      (b.take (16 - j)).mapIdx (fun k c => clearedByte (j + k) c) ++
        clearFrom (i + 16) (.lddw i) (b.drop (16 - j)) := by
  induction b generalizing j with
  | nil => simp [clearFrom]
  | cons c bs ih =>
    rcases Nat.eq_or_lt_of_le hj' with rfl | hlt
    · simp
    · obtain ⟨m, hm⟩ : ∃ m, 16 - j = m + 1 := ⟨15 - j, by omega⟩
      rw [clearFrom_cons, clearByte_lddw hi hj hlt, Nat.add_assoc, ih (by omega) (by omega), hm,
        show 16 - (j + 1) = m by omega, List.take_succ_cons, List.drop_succ_cons,
        List.mapIdx_cons]
      simp [Nat.add_assoc, Nat.add_comm 1]

/-- From the start of a slot, when nothing is pending, the loop is the walk over the slots. -/
theorem clearFrom_eq_clearSlots {p : Pending} {i : ℕ} (h : p.Idle i) (hi : i % 8 = 0)
    (b : Bytes) : clearFrom i p b = clearSlots b := by
  induction hn : b.length using Nat.strongRecOn generalizing b i p with
  | ind n ih =>
    rw [clearSlots]
    rcases b with _ | ⟨b₀, bs⟩
    · rfl
    rw [if_neg (List.cons_ne_nil _ _), clearFrom_cons, clearByte_of_idle h, checkOpcode,
      if_pos hi]
    simp only [List.length_cons] at hn
    -- A slot that is kept, whatever is pending being idle again by its end.
    have keep (q : Pending) (j : ℕ) (hq : q.Idle (i + j)) (hj : 1 ≤ j) (hj' : j ≤ 2)
        (cs : Bytes) (hcs : cs.length < n) : clearFrom (i + j) q cs =
          cs.take (8 - j) ++ clearSlots (cs.drop (8 - j)) := by
      rw [clearFrom_of_idle hq (n := 8 - j) (by omega),
        ih _ (by rw [List.length_drop]; omega) (hq.mono (by omega)) (by omega) _ rfl]
    by_cases h₀ : b₀ = lddwOpcode
    · rw [if_pos h₀]
      rcases bs with _ | ⟨b₁, bs⟩
      · -- The file ends with the opcode.
        simp [IsMapFdSlot, clearFrom, clearSlots]
      simp only [List.length_cons] at hn
      by_cases h₁ : b₁ &&& hideDstBitmask = ldmapfdSrcReg
      · rw [if_pos ⟨h₀, h₁⟩, clearFrom_cons]
        have hbyte : clearByte (i + 1) b₁ (.lddw i) = (b₁ &&& hideSrcBitmask, .lddw i) := by
          rw [clearByte, if_pos (by simp [Pending.lddw]), if_neg (not_not.2 h₁), checkOpcode,
            if_neg (by omega)]
        rw [show (⟨i + 1, (i + 4, i + 16)⟩ : Pending) = .lddw i from rfl, hbyte, Nat.add_assoc,
          clearFrom_lddw hi le_rfl (by omega), ih _ (by rw [List.length_drop]; omega)
            (by constructor <;> simp only [Pending.lddw] <;> omega) (by omega) _ rfl]
        have h₀' : clearedByte 0 b₀ = b₀ := rfl
        have h₁' : clearedByte 1 b₁ = b₁ &&& hideSrcBitmask := rfl
        simp [h₀', h₁', List.mapIdx_cons, Nat.add_assoc, Nat.add_comm 2]
      · have hbyte : clearByte (i + 1) b₁ (.lddw i) = (b₁, .none) := by
          rw [clearByte, if_pos (by simp [Pending.lddw]), if_pos h₁]
        rw [if_neg fun hm => h₁ hm.2, clearFrom_cons,
          show (⟨i + 1, (i + 4, i + 16)⟩ : Pending) = .lddw i from rfl, hbyte, Nat.add_assoc,
          keep _ 2 (Pending.idle_none _) (by omega) le_rfl bs (by omega)]
        rfl
    · rw [if_neg h₀, if_neg (not_isMapFdSlot h₀ bs),
        keep _ 1 (h.mono (Nat.le_succ i)) le_rfl (by omega) bs (by omega)]
      rfl

/-- The patcher's loop is the walk over the slots, on the bytes of any file. -/
theorem clearRelocInsns_eq_clearSlots (b : Bytes) : clearRelocInsns b = clearSlots b := by
  rw [clearRelocInsns_eq_clearFrom, clearFrom_eq_clearSlots (Pending.idle_none 0) rfl]

/-! ## What the walk changes -/

/-- The walk over the slots of `b` comes to the position `s`. -/
inductive Visited (b : Bytes) : ℕ → Prop
  | start : Visited b 0
  | pair {s : ℕ} : Visited b s → IsMapFdSlot (b.drop s) → Visited b (s + 16)
  | slot {s : ℕ} : Visited b s → ¬IsMapFdSlot (b.drop s) → Visited b (s + 8)

/-- The walk clears the pair at the position `s`. -/
def PairAt (b : Bytes) (s : ℕ) : Prop := Visited b s ∧ IsMapFdSlot (b.drop s)

theorem clearSlots_of_isMapFdSlot {b : Bytes} (h : IsMapFdSlot b) :
    clearSlots b = (b.take 16).mapIdx clearedByte ++ clearSlots (b.drop 16) := by
  have hne : b ≠ [] := by
    rintro rfl
    exact h
  rw [clearSlots, if_neg hne, if_pos h]

theorem clearSlots_of_not {b : Bytes} (h : ¬IsMapFdSlot b) :
    clearSlots b = b.take 8 ++ clearSlots (b.drop 8) := by
  by_cases hnil : b = []
  · subst hnil
    simp [clearSlots]
  · rw [clearSlots, if_neg hnil, if_neg h]

theorem length_clearSlots (b : Bytes) : (clearSlots b).length = b.length := by
  fun_induction clearSlots b with
  | case1 => rfl
  | case2 b _ _ ih =>
    rw [List.length_append, ih, List.length_mapIdx, ← List.length_append, List.take_append_drop]
  | case3 b _ _ ih => rw [List.length_append, ih, ← List.length_append, List.take_append_drop]

/-- From a position that the walk comes to, the result is that of the walk over the rest. -/
theorem Visited.drop_clearSlots {b : Bytes} {s : ℕ} (h : Visited b s) :
    (clearSlots b).drop s = clearSlots (b.drop s) := by
  -- The bytes that an iteration writes come off the front.
  have skip (n k : ℕ) (x rest : Bytes) (hx : x.length = min n (b.length - k))
      (hrest : clearSlots (b.drop k) = x ++ rest) (hnil : b.length - k < n → rest = []) :
      (clearSlots (b.drop k)).drop n = rest := by
    rcases Nat.lt_or_ge (b.length - k) n with hlt | hle
    · rw [hrest, hnil hlt, List.append_nil, List.drop_eq_nil_of_le (by omega)]
    · rw [hrest, List.drop_left' (by omega)]
  have nil (n k : ℕ) (hlt : b.length - k < n) : clearSlots ((b.drop k).drop n) = [] := by
    rw [List.drop_eq_nil_of_le (by rw [List.length_drop]; omega), clearSlots, if_pos rfl]
  induction h with
  | start => rfl
  | @pair s _ hs ih =>
    rw [← List.drop_drop, ih, ← List.drop_drop]
    exact skip 16 s _ _ (by simp) (clearSlots_of_isMapFdSlot hs) (nil 16 s)
  | @slot s _ hs ih =>
    rw [← List.drop_drop, ih, ← List.drop_drop]
    exact skip 8 s _ _ (by simp) (clearSlots_of_not hs) (nil 8 s)

/-- What becomes of a pair that is cleared. -/
theorem PairAt.getElem? {b : Bytes} {s j : ℕ} (h : PairAt b s) (hj : j < 16) :
    (clearSlots b)[s + j]? = b[s + j]?.map (clearedByte j) := by
  rw [← List.getElem?_drop, h.1.drop_clearSlots, clearSlots_of_isMapFdSlot h.2]
  rcases Nat.lt_or_ge j (b.drop s).length with hlt | hle
  · rw [List.getElem?_append_left (by simpa using ⟨hj, by simpa using hlt⟩), List.getElem?_mapIdx,
      List.getElem?_take_of_lt hj, List.getElem?_drop]
  · have hend : b.length ≤ s + j := by
      rw [List.length_drop] at hle
      omega
    rw [← clearSlots_of_isMapFdSlot h.2, List.getElem?_eq_none (by rwa [length_clearSlots]),
      List.getElem?_eq_none hend, Option.map_none]

/-- Every byte is in a slot that the walk comes to. -/
theorem exists_visited (b : Bytes) (n : ℕ) :
    (∃ s, PairAt b s ∧ s ≤ n ∧ n < s + 16) ∨
      ∃ s, Visited b s ∧ ¬IsMapFdSlot (b.drop s) ∧ s ≤ n ∧ n < s + 8 := by
  -- The last position up to `n` that the walk comes to.
  have hstep : ∀ k s, Visited b s → s ≤ n → n - s < k →
      (∃ s, PairAt b s ∧ s ≤ n ∧ n < s + 16) ∨
        ∃ s, Visited b s ∧ ¬IsMapFdSlot (b.drop s) ∧ s ≤ n ∧ n < s + 8 := by
    intro k
    induction k with
    | zero => exact fun s _ _ hk => absurd hk (Nat.not_lt_zero _)
    | succ k ih =>
      intro s hs hle hk
      by_cases hmap : IsMapFdSlot (b.drop s)
      · rcases Nat.lt_or_ge n (s + 16) with hlt | hge
        · exact .inl ⟨s, ⟨hs, hmap⟩, hle, hlt⟩
        · exact ih _ (hs.pair hmap) hge (by omega)
      · rcases Nat.lt_or_ge n (s + 8) with hlt | hge
        · exact .inr ⟨s, hs, hmap, hle, hlt⟩
        · exact ih _ (hs.slot hmap) hge (by omega)
  exact hstep (n + 1) 0 .start (Nat.zero_le n) (by omega)

/-- The bytes outside the pairs are kept. -/
theorem getElem?_clearSlots_of_not {b : Bytes} {n : ℕ}
    (h : ∀ s, PairAt b s → ¬(s ≤ n ∧ n < s + 16)) : (clearSlots b)[n]? = b[n]? := by
  rcases exists_visited b n with ⟨s, hs, hn⟩ | ⟨s, hs, hmap, hle, hlt⟩
  · exact absurd hn (h s hs)
  · obtain ⟨j, rfl⟩ := Nat.exists_eq_add_of_le hle
    rw [← List.getElem?_drop, hs.drop_clearSlots, clearSlots_of_not hmap, ← List.getElem?_drop]
    rcases Nat.lt_or_ge j (b.drop s).length with hlt' | hge
    · rw [List.getElem?_append_left (by simp only [List.length_take]; omega),
        List.getElem?_take_of_lt (by omega)]
    · rw [← clearSlots_of_not hmap, List.getElem?_eq_none (by rwa [length_clearSlots]),
        List.getElem?_eq_none hge]

/-- The position that the walk goes to from `s`. -/
def nextSlot (b : Bytes) (s : ℕ) : ℕ := if IsMapFdSlot (b.drop s) then s + 16 else s + 8

theorem lt_nextSlot (b : Bytes) (s : ℕ) : s < nextSlot b s := by
  rw [nextSlot]
  split <;> omega

theorem strictMono_iterate_nextSlot (b : Bytes) : StrictMono fun k => (nextSlot b)^[k] 0 := by
  refine strictMono_nat_of_lt_succ fun k => ?_
  rw [Function.iterate_succ_apply']
  exact lt_nextSlot b _

theorem Visited.exists_iterate {b : Bytes} {s : ℕ} (h : Visited b s) :
    ∃ k, (nextSlot b)^[k] 0 = s := by
  induction h with
  | start => exact ⟨0, rfl⟩
  | pair _ hs ih =>
    obtain ⟨k, hk⟩ := ih
    exact ⟨k + 1, by rw [Function.iterate_succ_apply', hk, nextSlot, if_pos hs]⟩
  | slot _ hs ih =>
    obtain ⟨k, hk⟩ := ih
    exact ⟨k + 1, by rw [Function.iterate_succ_apply', hk, nextSlot, if_neg hs]⟩

/-- The walk comes to no position between one and the next. -/
theorem Visited.nextSlot_le {b : Bytes} {s t : ℕ} (hs : Visited b s) (ht : Visited b t)
    (hlt : s < t) : nextSlot b s ≤ t := by
  obtain ⟨i, rfl⟩ := hs.exists_iterate
  obtain ⟨j, rfl⟩ := ht.exists_iterate
  have hij : i < j := (strictMono_iterate_nextSlot b).lt_iff_lt.1 hlt
  rw [← Function.iterate_succ_apply' (nextSlot b)]
  exact (strictMono_iterate_nextSlot b).monotone hij

/-- The second slot of a pair that is cleared is not taken for an instruction. -/
theorem PairAt.not_visited {b : Bytes} {s : ℕ} (h : PairAt b s) : ¬Visited b (s + 8) := by
  intro hnext
  have hle := h.1.nextSlot_le hnext (by omega)
  rw [nextSlot, if_pos h.2] at hle
  omega

/-- The walk comes to slots only. -/
theorem Visited.dvd {b : Bytes} {s : ℕ} (h : Visited b s) : 8 ∣ s := by
  induction h with
  | start => exact Nat.dvd_zero 8
  | pair _ _ ih => omega
  | slot _ _ ih => omega

theorem isMapFdSlot_drop_iff {b : Bytes} {s : ℕ} : IsMapFdSlot (b.drop s) ↔
    b[s]? = some lddwOpcode ∧
      ∃ b₁, b[s + 1]? = some b₁ ∧ b₁ &&& hideDstBitmask = ldmapfdSrcReg := by
  have h₀ : b[s]? = (b.drop s)[0]? := by rw [List.getElem?_drop, Nat.add_zero]
  have h₁ : b[s + 1]? = (b.drop s)[1]? := by rw [List.getElem?_drop]
  rw [h₀, h₁]
  rcases b.drop s with _ | ⟨b₀, _ | ⟨b₁, bs⟩⟩ <;> simp [IsMapFdSlot]

theorem clearedByte_one_and (c : Byte) : clearedByte 1 c &&& hideDstBitmask ≠ ldmapfdSrcReg := by
  revert c
  decide

/-- No slot of the result is a `lddw` of a map fd. -/
theorem not_isMapFdSlot_clearSlots (b : Bytes) {s : ℕ} (hs : 8 ∣ s) :
    ¬IsMapFdSlot ((clearSlots b).drop s) := by
  rcases exists_visited b s with ⟨t, ht, hle, hlt⟩ | ⟨t, ht, hmap, hle, hlt⟩
  · intro h
    obtain ⟨hcode, c, hget, hc⟩ := isMapFdSlot_drop_iff.1 h
    have hdvd := ht.1.dvd
    obtain rfl | rfl : s = t ∨ s = t + 8 := by omega
    · rw [ht.getElem? (by omega)] at hget
      obtain ⟨c, -, rfl⟩ := Option.map_eq_some_iff.1 hget
      exact clearedByte_one_and c hc
    · rw [ht.getElem? (by omega)] at hcode
      obtain ⟨c, -, hcode⟩ := Option.map_eq_some_iff.1 hcode
      exact absurd hcode (by simp [clearedByte, lddwOpcode])
  · have hdvd := ht.dvd
    obtain rfl : s = t := by omega
    rw [ht.drop_clearSlots, clearSlots_of_not hmap]
    generalize b.drop s = c at hmap
    rcases c with _ | ⟨b₀, _ | ⟨b₁, bs⟩⟩
    · simp [clearSlots, IsMapFdSlot]
    · simp [clearSlots, IsMapFdSlot]
    · exact hmap

/-- The walk keeps what has no `lddw` of a map fd. -/
theorem clearSlots_eq_self {b : Bytes} (h : ∀ s, 8 ∣ s → ¬IsMapFdSlot (b.drop s)) :
    clearSlots b = b := by
  fun_induction clearSlots b with
  | case1 => rfl
  | case2 b _ hmap _ => exact absurd hmap (h 0 (Nat.dvd_zero 8))
  | case3 b _ _ ih =>
    have hrest : ∀ s, 8 ∣ s → ¬IsMapFdSlot ((b.drop 8).drop s) := by
      intro s hs
      rw [List.drop_drop]
      exact h _ (Nat.dvd_add (Nat.dvd_refl 8) hs)
    rw [ih hrest, List.take_append_drop]

/-- The patcher's loop is the walk over the slots, which changes nothing but the pairs it
    clears, and nothing when it is repeated. -/
theorem clearRelocInsns_walk (b : Bytes) :
    clearRelocInsns b = clearSlots b ∧ (clearRelocInsns b).length = b.length ∧
      (∀ s j, PairAt b s → j < 16 → (clearRelocInsns b)[s + j]? = b[s + j]?.map (clearedByte j)) ∧
      (∀ n, (∀ s, PairAt b s → ¬(s ≤ n ∧ n < s + 16)) → (clearRelocInsns b)[n]? = b[n]?) ∧
      (∀ s, PairAt b s → ¬Visited b (s + 8)) ∧
      clearRelocInsns (clearRelocInsns b) = clearRelocInsns b := by
  simp only [clearRelocInsns_eq_clearSlots, true_and]
  refine ⟨length_clearSlots b, fun s j hs hj => hs.getElem? hj, fun n => getElem?_clearSlots_of_not,
    fun s hs => hs.not_visited, ?_⟩
  exact clearSlots_eq_self fun s hs => not_isMapFdSlot_clearSlots b hs

/-! ## The walk over instructions -/

/-- The instruction is a `lddw` of a map fd. -/
def IsMapFd (i : BpfInsn) : Prop := i.IsLddw ∧ i.srcReg = bpfPseudoMapFd

instance (i : BpfInsn) : Decidable (IsMapFd i) := inferInstanceAs (Decidable (_ ∧ _))

/-- The instruction with the source register and the immediate of a map fd cleared. -/
def clearedInsn (i : BpfInsn) : BpfInsn := { i with srcReg := 0, imm := 0 }

/-- The walk over the instructions: a `lddw` of a map fd is cleared, and its
    second slot (if there is one) is set to zero. -/
def clearInsns : List BpfInsn → List BpfInsn
  | [] => []
  | [i] => [if IsMapFd i then clearedInsn i else i]
  | i :: j :: insns =>
    if IsMapFd i then clearedInsn i :: .zero :: clearInsns insns
    else i :: clearInsns (j :: insns)

theorem regs_and_hideDstBitmask (src dst : BitVec 4) :
    (src ++ dst) &&& hideDstBitmask = ldmapfdSrcReg ↔ src = bpfPseudoMapFd := by
  revert src dst
  decide

theorem regs_and_hideSrcBitmask (src dst : BitVec 4) :
    (src ++ dst) &&& hideSrcBitmask = 0#4 ++ dst := by
  revert src dst
  decide

theorem isMapFdSlot_bytes (i : BpfInsn) (b : Bytes) :
    IsMapFdSlot (i.bytes ++ b) ↔ IsMapFd i :=
  and_congr Iff.rfl (regs_and_hideDstBitmask i.srcReg i.dstReg)

theorem mapIdx_clearedByte_bytes (i j : BpfInsn) :
    (i.bytes ++ j.bytes).mapIdx clearedByte = (clearedInsn i).bytes ++ BpfInsn.zero.bytes := by
  simp [BpfInsn.bytes, clearedByte, clearedInsn, regs_and_hideSrcBitmask, BpfInsn.zero,
    List.mapIdx_cons]

/-- On the bytes of instructions, the patcher's loop is the walk over the instructions. -/
theorem clearRelocInsns_insnBytes (insns : List BpfInsn) :
    clearRelocInsns (insnBytes insns) = insnBytes (clearInsns insns) := by
  rw [clearRelocInsns_eq_clearSlots]
  fun_induction clearInsns insns with
  | case1 => simp [clearSlots]
  | case2 i =>
    rw [insnBytes_cons, insnBytes_nil, clearSlots, if_neg (by simp [BpfInsn.bytes])]
    by_cases hi : IsMapFd i
    · rw [if_pos ((isMapFdSlot_bytes i []).2 hi), if_pos hi]
      simp [BpfInsn.bytes, clearedByte, clearedInsn, regs_and_hideSrcBitmask, clearSlots,
        List.mapIdx_cons]
    · rw [if_neg (mt (isMapFdSlot_bytes i []).1 hi), if_neg hi]
      simp [BpfInsn.bytes, clearSlots]
  | case3 i j insns hi ih =>
    rw [insnBytes_cons, insnBytes_cons, clearSlots, if_neg (by simp [BpfInsn.bytes]),
      if_pos ((isMapFdSlot_bytes i _).2 hi), ← List.append_assoc,
      List.take_left' (by simp), List.drop_left' (by simp), ih, mapIdx_clearedByte_bytes,
      List.append_assoc, insnBytes_cons, insnBytes_cons]
  | case4 i j insns hi ih =>
    rw [insnBytes_cons, clearSlots, if_neg (by simp [BpfInsn.bytes]),
      if_neg (mt (isMapFdSlot_bytes i _).1 hi), List.take_left' (by simp),
      List.drop_left' (by simp), ih, insnBytes_cons]

/-- The instruction before the position `n`. -/
def prevInsn (insns : List BpfInsn) : ℕ → Option BpfInsn
  | 0 => none
  | n + 1 => insns[n]?

/-- What is where after the walk, if no map fd follows another one directly. -/
theorem getElem?_clearInsns {insns : List BpfInsn}
    (h : ∀ k i j, insns[k]? = some i → insns[k + 1]? = some j → IsMapFd i → ¬IsMapFd j) (n : ℕ) :
    (clearInsns insns)[n]? = insns[n]?.map fun j =>
      if (prevInsn insns n).any (decide <| IsMapFd ·) then .zero
      else if IsMapFd j then clearedInsn j else j := by
  fun_induction clearInsns insns generalizing n with
  | case1 => simp
  | case2 i =>
    cases n with
    | zero => simp [prevInsn]
    | succ n => simp
  | case3 i j insns hi ih =>
    have hj : ¬IsMapFd j := h 0 i j rfl rfl hi
    rcases n with _ | _ | n
    · simp [prevInsn, hi]
    · simp [prevInsn, hi]
    · rw [List.getElem?_cons_succ, List.getElem?_cons_succ,
        ih fun k i j hki hkj => h (k + 2) i j hki hkj]
      cases n with
      | zero => simp [prevInsn, hj]
      | succ n => rfl
  | case4 i j insns hi ih =>
    cases n with
    | zero => simp [prevInsn, hi]
    | succ n =>
      rw [List.getElem?_cons_succ, ih fun k i j hki hkj => h (k + 1) i j hki hkj]
      cases n with
      | zero => simp [prevInsn, hi]
      | succ n => rfl

end BpfElfTools.Patcher
