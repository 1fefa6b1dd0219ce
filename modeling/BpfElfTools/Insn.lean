import Mathlib

/-!
# BPF instructions

The instruction record shared by the three tools (`struct bpf_insn`), and its
eight bytes in memory on a little-endian host, as the extractors read them from
a section and write them to a file, and as the patcher finds them in that file.

* `BpfInsn.bytes`, `BpfInsn.ofBytes`: the record and its bytes, inverse to each
  other (`ofBytes_bytes`, `bytes_ofBytes`);
* `readInsns`: the instructions of a buffer, `insnBytes` their bytes.
-/

namespace BpfElfTools

abbrev Byte := BitVec 8
abbrev Bytes := List Byte

/-- The bytes of a C string literal (without its NUL). -/
def cstr (s : String) : Bytes := s.toList.map fun c => BitVec.ofNat 8 c.toNat

/-- `struct bpf_insn`. -/
structure BpfInsn where
  code : BitVec 8
  dstReg : BitVec 4
  srcReg : BitVec 4
  off : BitVec 16
  imm : BitVec 32
  deriving DecidableEq, Repr

/-- `BPF_LD | BPF_IMM | BPF_DW`, the opcode of `lddw`. -/
def lddwCode : BitVec 8 := 0x18

/-- `BPF_JMP | BPF_CALL`. -/
def callCode : BitVec 8 := 0x85

def bpfPseudoMapFd : BitVec 4 := 1
def bpfPseudoMapValue : BitVec 4 := 2
def bpfPseudoBtfId : BitVec 4 := 3
def bpfPseudoCall : BitVec 4 := 1

/-- `BPF_INSN_SZ`. -/
def bpfInsnSz : ℕ := 8

namespace BpfInsn

/-- The instruction is the first slot of a `lddw`. -/
def IsLddw (i : BpfInsn) : Prop := i.code = lddwCode

instance (i : BpfInsn) : Decidable i.IsLddw := inferInstanceAs (Decidable (_ = _))

/-- The all-zero slot, the second one of a `lddw` before relocation. -/
def zero : BpfInsn := ⟨0, 0, 0, 0, 0⟩

/-- The bytes of an instruction in memory: `dst_reg` is in the low nibble of
    its byte, and the host is little-endian. -/
def bytes (i : BpfInsn) : Bytes :=
  [i.code, i.srcReg ++ i.dstReg, i.off.extractLsb' 0 8, i.off.extractLsb' 8 8,
    i.imm.extractLsb' 0 8, i.imm.extractLsb' 8 8, i.imm.extractLsb' 16 8, i.imm.extractLsb' 24 8]

/-- The instruction held by eight bytes. -/
def ofBytes (b₀ b₁ b₂ b₃ b₄ b₅ b₆ b₇ : Byte) : BpfInsn where
  code := b₀
  dstReg := b₁.extractLsb' 0 4
  srcReg := b₁.extractLsb' 4 4
  off := b₃ ++ b₂
  imm := b₇ ++ b₆ ++ b₅ ++ b₄

@[simp] theorem length_bytes (i : BpfInsn) : i.bytes.length = 8 := rfl

/-- Reading back the bytes of an instruction. -/
theorem ofBytes_bytes (i : BpfInsn) :
    ofBytes i.code (i.srcReg ++ i.dstReg) (i.off.extractLsb' 0 8) (i.off.extractLsb' 8 8)
      (i.imm.extractLsb' 0 8) (i.imm.extractLsb' 8 8) (i.imm.extractLsb' 16 8)
      (i.imm.extractLsb' 24 8) = i := by
  obtain ⟨code, dst, src, off, imm⟩ := i
  simp only [ofBytes, mk.injEq, true_and]
  refine ⟨?_, ?_, ?_, ?_⟩ <;> ext j hj <;> simp
  all_goals grind

/-- The bytes of the instruction held by eight bytes. -/
theorem bytes_ofBytes (b₀ b₁ b₂ b₃ b₄ b₅ b₆ b₇ : Byte) :
    (ofBytes b₀ b₁ b₂ b₃ b₄ b₅ b₆ b₇).bytes = [b₀, b₁, b₂, b₃, b₄, b₅, b₆, b₇] := by
  simp only [bytes, ofBytes, List.cons.injEq, true_and, and_true]
  refine ⟨?_, ?_, ?_, ?_, ?_, ?_, ?_⟩ <;> ext j hj <;> simp
  all_goals grind

end BpfInsn

/-! ## Buffers of instructions -/

/-- The instructions of a buffer, as an array of `struct bpf_insn`: an
    incomplete record at its end is left out. -/
def readInsns : Bytes → List BpfInsn
  | b₀ :: b₁ :: b₂ :: b₃ :: b₄ :: b₅ :: b₆ :: b₇ :: bs =>
    .ofBytes b₀ b₁ b₂ b₃ b₄ b₅ b₆ b₇ :: readInsns bs
  | _ => []

/-- The bytes of an array of instructions. -/
def insnBytes (insns : List BpfInsn) : Bytes := insns.flatMap BpfInsn.bytes

@[simp] theorem insnBytes_nil : insnBytes [] = [] := rfl

@[simp] theorem insnBytes_cons (i : BpfInsn) (insns : List BpfInsn) :
    insnBytes (i :: insns) = i.bytes ++ insnBytes insns := List.flatMap_cons

@[simp] theorem insnBytes_append (is js : List BpfInsn) :
    insnBytes (is ++ js) = insnBytes is ++ insnBytes js := List.flatMap_append

@[simp] theorem length_insnBytes (insns : List BpfInsn) :
    (insnBytes insns).length = bpfInsnSz * insns.length := by
  induction insns with
  | nil => rfl
  | cons i insns ih => simp [ih, bpfInsnSz]; omega

theorem readInsns_bytes_append (i : BpfInsn) (b : Bytes) :
    readInsns (i.bytes ++ b) = i :: readInsns b := by
  simp only [BpfInsn.bytes, List.cons_append, List.nil_append, readInsns, BpfInsn.ofBytes_bytes]

/-- The instructions of a buffer of instructions. -/
theorem readInsns_insnBytes (insns : List BpfInsn) : readInsns (insnBytes insns) = insns := by
  induction insns with
  | nil => rfl
  | cons i insns ih => rw [insnBytes_cons, readInsns_bytes_append, ih]

/-- A buffer either is too short for an instruction, or starts with one. -/
theorem readInsns_cases (b : Bytes) :
    (b.length < bpfInsnSz ∧ readInsns b = []) ∨ ∃ i b', b = BpfInsn.bytes i ++ b' := by
  rcases b with _ | ⟨b₀, _ | ⟨b₁, _ | ⟨b₂, _ | ⟨b₃, _ | ⟨b₄, _ | ⟨b₅, _ | ⟨b₆, _ | ⟨b₇, bs⟩⟩⟩⟩⟩⟩⟩⟩
  case cons.cons.cons.cons.cons.cons.cons.cons =>
    exact .inr ⟨.ofBytes b₀ b₁ b₂ b₃ b₄ b₅ b₆ b₇, bs, by rw [BpfInsn.bytes_ofBytes]; rfl⟩
  all_goals exact .inl ⟨by simp [bpfInsnSz], rfl⟩

theorem length_readInsns (b : Bytes) : (readInsns b).length = b.length / bpfInsnSz := by
  induction hn : b.length using Nat.strongRecOn generalizing b with
  | ind n ih =>
    rcases readInsns_cases b with ⟨hlt, hnil⟩ | ⟨i, b', rfl⟩
    · rw [hnil, ← hn, Nat.div_eq_of_lt hlt, List.length_nil]
    · rw [List.length_append, BpfInsn.length_bytes] at hn
      rw [readInsns_bytes_append, List.length_cons, ih b'.length (by omega) b' rfl]
      simp only [bpfInsnSz]
      omega

/-- Skipping the first `n` instructions of a buffer. -/
theorem readInsns_drop (n : ℕ) (b : Bytes) :
    readInsns (b.drop (bpfInsnSz * n)) = (readInsns b).drop n := by
  induction n generalizing b with
  | zero => rfl
  | succ n ih =>
    rcases readInsns_cases b with ⟨hlt, hnil⟩ | ⟨i, b', rfl⟩
    · rw [hnil, List.drop_nil, List.drop_eq_nil_of_le (by simp only [bpfInsnSz] at *; omega)]
      rfl
    · rw [readInsns_bytes_append, List.drop_succ_cons, ← ih, Nat.mul_succ, Nat.add_comm,
        ← List.drop_drop, show bpfInsnSz = i.bytes.length from rfl, List.drop_left]

/-- The first `n` instructions of a buffer. -/
theorem readInsns_take (n : ℕ) (b : Bytes) :
    readInsns (b.take (bpfInsnSz * n)) = (readInsns b).take n := by
  induction n generalizing b with
  | zero => rfl
  | succ n ih =>
    rcases readInsns_cases b with ⟨hlt, hnil⟩ | ⟨i, b', rfl⟩
    · rw [hnil, List.take_nil, List.take_of_length_le (by simp only [bpfInsnSz] at *; omega), hnil]
    · rw [readInsns_bytes_append, List.take_succ_cons, ← ih, Nat.mul_succ, Nat.add_comm,
        show bpfInsnSz = i.bytes.length from rfl, List.take_length_add_append,
        readInsns_bytes_append]

/-- The instructions of the stretch of a buffer that holds the instructions `o` to `e`. -/
theorem readInsns_extract (o e : ℕ) (b : Bytes) :
    readInsns (b.extract (bpfInsnSz * o) (bpfInsnSz * e)) = (readInsns b).extract o e := by
  rw [List.extract_eq_take_drop, List.extract_eq_take_drop, ← Nat.mul_sub, readInsns_take,
    readInsns_drop]

end BpfElfTools
