import BpfElfTools.Lib.Text

/-!
# Reading texts

Scanners read off the front of a text what `printf` has written there: literals,
words, and numbers as `%u` and `%d` print them. A file is read line by line.

* `run_bind`: a scanner after another one;
* `nat_decimal`, `int_decimalInt`: reading a number that has been printed;
* `Costs`: how much of a text a value takes at least, whatever the text;
* `lines_flatten`: reading the lines that have been written.
-/

namespace Text

/-- A scanner reads a value off the front of a text, and leaves the rest. -/
abbrev Scanner := StateT (List (BitVec 8)) Option

/-! ## Scanners -/

/-- The text `s`. -/
def lit (s : List (BitVec 8)) : Scanner Unit := fun t =>
  if s <+: t then some ((), t.drop s.length) else none

/-- The text up to the byte `stop`. -/
def word (stop : BitVec 8) : Scanner (List (BitVec 8)) := fun t =>
  some (t.takeWhile (· ≠ stop), t.dropWhile (· ≠ stop))

def IsDigit (b : BitVec 8) : Prop := 48 ≤ b.toNat ∧ b.toNat ≤ 57

instance : DecidablePred IsDigit := fun _ => inferInstanceAs (Decidable (_ ∧ _))

/-- The number whose digits are given. -/
def value (ds : List (BitVec 8)) : ℕ := ds.foldl (fun n b => 10 * n + (b.toNat - 48)) 0

/-- A number without a sign. -/
def nat : Scanner ℕ := fun t =>
  let ds := t.takeWhile (IsDigit ·)
  if ds = [] then none else some (value ds, t.dropWhile (IsDigit ·))

/-- A number, after its sign if it is negative. -/
def int : Scanner ℤ
  | [] => none
  | b :: t =>
    if b = 0x2d then (nat t).map fun r => (-(r.1 : ℤ), r.2)
    else (nat (b :: t)).map fun r => ((r.1 : ℤ), r.2)

/-- The value that the scanner reads off the whole text. -/
def Scanner.whole {α : Type} (p : Scanner α) (t : List (BitVec 8)) : Option α :=
  match p t with
  | some (a, []) => some a
  | _ => none

section

variable {α β : Type} {p : Scanner α} {f : α → Scanner β} {a : α} {t t' : List (BitVec 8)}

/-- A scanner after another one, where that one has read `a`. -/
theorem run_bind (h : p t = some (a, t')) : (p >>= f) t = f a t' := by
  change (p t).bind _ = _
  rw [h]
  rfl

theorem Scanner.whole_eq_some (h : ∀ t', p (t ++ t') = some (a, t')) : p.whole t = some a := by
  have hnil := h []
  rw [List.append_nil] at hnil
  rw [Scanner.whole, hnil]

/-! ## Reading what has been printed -/

theorem lit_append (s t : List (BitVec 8)) : lit s (s ++ t) = some ((), t) := by
  rw [lit, if_pos (List.prefix_append s t), List.drop_left]

theorem word_append {stop : BitVec 8} {s : List (BitVec 8)} (hs : stop ∉ s)
    (t : List (BitVec 8)) : word stop (s ++ stop :: t) = some (s, stop :: t) := by
  have hne : ∀ b ∈ s, b ≠ stop := by
    rintro b hb rfl
    exact hs hb
  rw [word, List.takeWhile_append_of_pos (by simpa using hne),
    List.dropWhile_append_of_pos (by simpa using hne)]
  simp

theorem value_append_singleton (ds : List (BitVec 8)) (b : BitVec 8) :
    value (ds ++ [b]) = 10 * value ds + (b.toNat - 48) := by
  rw [value, List.foldl_append]
  rfl

theorem value_decimal (n : ℕ) : value (decimal n) = n := by
  induction n using Nat.strongRecOn with
  | ind n ih =>
    have hlt : n % 10 < 10 := Nat.mod_lt n (by omega)
    have hdigit : (BitVec.ofNat 8 (48 + n % 10)).toNat - 48 = n % 10 := by
      rw [BitVec.toNat_ofNat]
      omega
    rw [decimal_eq, value_append_singleton, hdigit]
    split
    · simp only [value, List.foldl_nil]
      omega
    · rw [ih (n / 10) (by omega)]
      omega

/-- The text does not go on with a digit. -/
def NoDigit (t : List (BitVec 8)) : Prop := ∀ b ∈ t.head?, ¬IsDigit b

/-- A number that has been printed is read up to what is not a digit. -/
theorem nat_decimal (n : ℕ) (ht : NoDigit t) : nat (decimal n ++ t) = some (n, t) := by
  have hdigits : ∀ c ∈ decimal n, IsDigit c := fun c hc => mem_decimal hc
  have hrest : t.takeWhile (IsDigit ·) = [] ∧ t.dropWhile (IsDigit ·) = t := by
    rcases t with _ | ⟨b, t⟩
    · exact ⟨rfl, rfl⟩
    · have hb : ¬IsDigit b := ht b rfl
      exact ⟨List.takeWhile_cons_of_neg (by simpa using hb),
        List.dropWhile_cons_of_neg (by simpa using hb)⟩
  rw [nat, List.takeWhile_append_of_pos (by simpa using hdigits),
    List.dropWhile_append_of_pos (by simpa using hdigits), hrest.1, hrest.2, List.append_nil,
    if_neg (decimal_ne_nil n), value_decimal]

theorem int_decimalInt (x : ℤ) (ht : NoDigit t) : int (decimalInt x ++ t) = some (x, t) := by
  cases x with
  | ofNat n =>
    have hread := nat_decimal n ht
    rw [decimalInt]
    rcases hd : decimal n with _ | ⟨c, ds⟩
    · exact absurd hd (decimal_ne_nil n)
    · have hc : c ≠ 0x2d := by
        rintro rfl
        have := mem_decimal (hd ▸ List.mem_cons_self : (0x2d : BitVec 8) ∈ decimal n)
        simp at this
      rw [hd] at hread
      rw [List.cons_append, int, if_neg hc, ← List.cons_append, hread]
      rfl
  | negSucc n =>
    rw [decimalInt, List.cons_append, int, if_pos rfl, nat_decimal (n + 1) ht]
    rfl

/-- What follows a number in a format. -/
theorem noDigit_append {s : List (BitVec 8)} (hs : s.head?.any fun b => ¬IsDigit b)
    (t : List (BitVec 8)) : NoDigit (s ++ t) := by
  rcases s with _ | ⟨b, s⟩
  · simp at hs
  · rintro c ⟨⟩
    simpa using hs

/-- A number and the text `s` after it. -/
theorem run_nat_lit {f : ℕ → Scanner β} {s : List (BitVec 8)} (n : ℕ)
    (hs : s.head?.any fun b => ¬IsDigit b) (t : List (BitVec 8)) :
    (do let n ← nat; lit s; f n) (decimal n ++ (s ++ t)) = f n t := by
  rw [run_bind (nat_decimal n (noDigit_append hs t)), run_bind (lit_append s t)]

theorem run_int_lit {f : ℤ → Scanner β} {s : List (BitVec 8)} (x : ℤ)
    (hs : s.head?.any fun b => ¬IsDigit b) (t : List (BitVec 8)) :
    (do let x ← int; lit s; f x) (decimalInt x ++ (s ++ t)) = f x t := by
  rw [run_bind (int_decimalInt x (noDigit_append hs t)), run_bind (lit_append s t)]

/-! ## What a value takes -/

/-- Reading `a` takes at least `len a` bytes. -/
def Costs (p : Scanner α) (len : α → ℕ) : Prop :=
  ∀ t a t', p t = some (a, t') → len a + t'.length ≤ t.length

theorem Costs.whole {len : α → ℕ} (hp : Costs p len) (h : p.whole t = some a) :
    len a ≤ t.length := by
  rw [Scanner.whole] at h
  split at h
  · rename_i a' hread
    rw [← Option.some.inj h]
    exact hp t a' [] hread
  · cases h

theorem costs_pure (a : α) {len : α → ℕ} (hlen : len a = 0) :
    Costs (pure a : Scanner α) len := by
  intro t a' t' h
  obtain ⟨rfl, rfl⟩ := Prod.mk.inj (Option.some.inj h)
  rw [hlen, Nat.zero_add]

/-- The parts of a value are read one after the other. -/
theorem Costs.bind {len : α → ℕ} {total : β → ℕ} (hp : Costs p len)
    (hf : ∀ a, Costs (f a) fun b => total b - len a) : Costs (p >>= f) total := by
  intro t b t' h
  obtain ⟨⟨a, t₁⟩, hread, hrest⟩ := Option.bind_eq_some_iff.1 h
  have h₁ := hp t a t₁ hread
  have h₂ : total b - len a + t'.length ≤ t₁.length := hf a t₁ b t' hrest
  omega

theorem costs_lit (s : List (BitVec 8)) : Costs (lit s) fun _ => s.length := by
  intro t a t' h
  rw [lit] at h
  split at h
  · rename_i hs
    obtain ⟨-, rfl⟩ := Prod.mk.inj (Option.some.inj h)
    rw [List.length_drop]
    exact (Nat.add_sub_cancel' hs.length_le).le
  · cases h

theorem costs_word (stop : BitVec 8) : Costs (word stop) List.length := by
  intro t a t' h
  obtain ⟨rfl, rfl⟩ := Prod.mk.inj (Option.some.inj h)
  rw [← List.length_append, List.takeWhile_append_dropWhile]

theorem value_lt {ds : List (BitVec 8)} (h : ∀ b ∈ ds, IsDigit b) : value ds < 10 ^ ds.length := by
  induction ds using List.reverseRecOn with
  | nil => simp [value]
  | append_singleton ds b ih =>
    have hb := (h b (by simp)).2
    have hds := ih fun c hc => h c (List.mem_append_left _ hc)
    rw [value_append_singleton, List.length_append, List.length_singleton, Nat.pow_succ]
    omega

theorem costs_nat : Costs nat fun n => (decimal n).length := by
  intro t n t' h
  rw [nat] at h
  split at h
  · cases h
  · rename_i hne
    obtain ⟨rfl, rfl⟩ := Prod.mk.inj (Option.some.inj h)
    have hdigits : ∀ b ∈ t.takeWhile (IsDigit ·), IsDigit b := fun b hb => by
      simpa using List.mem_takeWhile_imp hb
    have hle := length_decimal_le (List.length_pos_iff.2 hne) (value_lt hdigits)
    have hlen := congrArg List.length (List.takeWhile_append_dropWhile (p := (IsDigit ·)) (l := t))
    rw [List.length_append] at hlen
    exact hlen ▸ Nat.add_le_add_right hle _

theorem costs_int : Costs int fun x => (decimalInt x).length := by
  intro t x t' h
  rcases t with _ | ⟨b, t⟩
  · cases h
  rw [int] at h
  split at h
  · obtain ⟨⟨n, t₁⟩, hread, hx⟩ := Option.map_eq_some_iff.1 h
    obtain ⟨rfl, rfl⟩ := Prod.mk.inj hx
    have hle : (decimal n).length + t₁.length ≤ t.length := costs_nat t n t₁ hread
    rcases n with _ | n
    · exact hle.trans (Nat.le_succ _)
    · change (0x2d :: decimal (n + 1)).length + t₁.length ≤ (b :: t).length
      simp only [List.length_cons]
      omega
  · obtain ⟨⟨n, t₁⟩, hread, hx⟩ := Option.map_eq_some_iff.1 h
    obtain ⟨rfl, rfl⟩ := Prod.mk.inj hx
    exact costs_nat _ n t₁ hread

end

/-! ## Lines -/

/-- The lines of a text, each with its newline, if there is one. -/
def lines : List (BitVec 8) → List (List (BitVec 8))
  | [] => []
  | b :: t =>
    if b = 0x0a then [b] :: lines t
    else match lines t with
      | [] => [[b]]
      | l :: ls => (b :: l) :: ls

theorem flatten_lines (t : List (BitVec 8)) : (lines t).flatten = t := by
  induction t with
  | nil => rfl
  | cons b t ih =>
    rw [lines]
    split
    · rw [List.flatten_cons, ih]
      rfl
    · split
      · rename_i hnil
        rw [hnil] at ih
        rw [← ih]
        rfl
      · rename_i l ls hcons
        rw [hcons, List.flatten_cons] at ih
        rw [List.flatten_cons, List.cons_append, ih]

/-- A text that ends with its only newline. -/
def IsLine (l : List (BitVec 8)) : Prop := ∃ s, (0x0a : BitVec 8) ∉ s ∧ l = s ++ [0x0a]

theorem lines_append {l : List (BitVec 8)} (hl : IsLine l) (t : List (BitVec 8)) :
    lines (l ++ t) = l :: lines t := by
  obtain ⟨s, hs, rfl⟩ := hl
  induction s with
  | nil => rfl
  | cons b s ih =>
    have hb : b ≠ 0x0a := fun h => hs (h ▸ List.mem_cons_self)
    rw [List.cons_append, List.cons_append, lines, if_neg hb,
      ih fun h => hs (List.mem_cons_of_mem _ h)]

/-- The lines that have been written one after the other. -/
theorem lines_flatten {ls : List (List (BitVec 8))} (h : ∀ l ∈ ls, IsLine l) :
    lines ls.flatten = ls := by
  induction ls with
  | nil => rfl
  | cons l ls ih =>
    rw [List.flatten_cons, lines_append (h l List.mem_cons_self),
      ih fun l' hl' => h l' (List.mem_cons_of_mem _ hl')]

theorem IsLine.append {s l : List (BitVec 8)} (hs : (0x0a : BitVec 8) ∉ s) (hl : IsLine l) :
    IsLine (s ++ l) := by
  obtain ⟨s', hs', rfl⟩ := hl
  exact ⟨s ++ s', fun h => (List.mem_append.1 h).elim hs hs', (List.append_assoc _ _ _).symm⟩

/-- The lines of a file with a line for each value. -/
theorem lines_flatMap {α : Type} {l : List α} {f : α → List (BitVec 8)}
    (hline : ∀ a ∈ l, IsLine (f a)) : lines (l.flatMap f) = l.map f := by
  rw [List.flatMap_def]
  refine lines_flatten fun x hx => ?_
  obtain ⟨a, ha, rfl⟩ := List.mem_map.1 hx
  exact hline a ha

/-! ## Bytes of numbers -/

theorem not_mem_decimal {b : BitVec 8} (hb : ¬IsDigit b) (n : ℕ) : b ∉ decimal n :=
  fun h => hb (mem_decimal h)

theorem not_mem_decimalInt {b : BitVec 8} (hb : ¬IsDigit b) (hsign : b ≠ 0x2d) (x : ℤ) :
    b ∉ decimalInt x := by
  cases x with
  | ofNat n => exact not_mem_decimal hb n
  | negSucc n => exact List.not_mem_cons_of_ne_of_not_mem hsign (not_mem_decimal hb (n + 1))

end Text
