import BpfElfTools.Elf
import BpfElfTools.Patcher.Patch

/-!
# ELF64 files, byte by byte

The section headers of an ELF64 file, and the names and data of its sections, as
functions of the bytes of the file, in the byte order that the file declares.
This is what `pyelftools` is taken to show of a file (`PyElfTools.Reads`).

* `WellFormed`: the file tells its byte order, and the section header table and the section names
  are in it;
* `SameLayout`: two files that agree on the header, the section header table and
  the section names have the same sections (`SameLayout.lookup`);
* `elf64Tools`: a reading of the files by these functions (`reads_elf64Tools`).
-/

namespace BpfElfTools.Patcher

namespace Elf64

/-! ## The format -/

/-- The file starts like an ELF64 file. -/
def IsElf64 (f : Bytes) : Prop :=
  64 ≤ f.length ∧ f.take 5 = [0x7f, 0x45, 0x4c, 0x46, 2]

instance : DecidablePred IsElf64 := fun _ => inferInstanceAs (Decidable (_ ∧ _))

/-- The number in the `n` bytes of the file from `o` on, in the byte order of the file. -/
def field (f : Bytes) (o n : ℕ) : ℕ :=
  let digits := (f.extract o (o + n)).map BitVec.toNat
  (if f.getD 5 0 = 2 then digits.reverse else digits).foldr (fun b v => b + 256 * v) 0

/-- `e_shoff`. -/
def shoff (f : Bytes) : ℕ := field f 40 8

/-- The position of a section header. -/
def shdr (f : Bytes) (i : ℕ) : ℕ := shoff f + i * 64

def shName (f : Bytes) (i : ℕ) : ℕ := field f (shdr f i) 4
def shType (f : Bytes) (i : ℕ) : ℕ := field f (shdr f i + 4) 4
def shFlags (f : Bytes) (i : ℕ) : ℕ := field f (shdr f i + 8) 8
def shOffset (f : Bytes) (i : ℕ) : ℕ := field f (shdr f i + 24) 8
def shSize (f : Bytes) (i : ℕ) : ℕ := field f (shdr f i + 32) 8
def shLink (f : Bytes) (i : ℕ) : ℕ := field f (shdr f i + 40) 4

/-- The number of sections: `e_shnum`, or the size of the first section if that is zero. -/
def shnum (f : Bytes) : ℕ :=
  if shoff f = 0 then 0 else if field f 60 2 = 0 then shSize f 0 else field f 60 2

/-- The section of the names: `e_shstrndx`, or the link of the first section if that is
    `SHN_XINDEX`. -/
def shstrndx (f : Bytes) : ℕ := if field f 62 2 = 0xffff then shLink f 0 else field f 62 2

/-- The position of the name of a section. -/
def nameOff (f : Bytes) (i : ℕ) : ℕ := shOffset f (shstrndx f) + shName f i

/-- The C string at a position. -/
def cstringAt (f : Bytes) (o : ℕ) : Bytes := (f.drop o).takeWhile (· ≠ 0)

/-- `SHF_COMPRESSED` is set. -/
def compressed (f : Bytes) (i : ℕ) : Bool := shFlags f i &&& 0x800 != 0

/-- The bytes of a section in the file. -/
def contents (f : Bytes) (i : ℕ) : Bytes := f.extract (shOffset f i) (shOffset f i + shSize f i)

section

variable (decode : Bytes → Str)

/-- The name of a section. -/
def sectionName (f : Bytes) (i : ℕ) : Str := decode (cstringAt f (nameOff f i))

/-- The last section of the given name. -/
def lookup (f : Bytes) (name : Str) : Option ℕ :=
  ((List.range (shnum f)).filter fun i => sectionName decode f i = name).getLast?

end

/-- The file says in which byte order it is (`EI_DATA`), the section header table and the section
    names are in the file, and the names are terminated. -/
structure WellFormed (f : Bytes) : Prop where
  isElf64 : IsElf64 f
  byteOrder : f[5]? = some 1 ∨ f[5]? = some 2
  shentsize : field f 58 2 = 64
  table : shoff f + shnum f * 64 ≤ f.length
  shstrndx_lt : shstrndx f < shnum f
  strings : shOffset f (shstrndx f) + shSize f (shstrndx f) ≤ f.length
  name : ∀ i < shnum f,
    0 ∈ f.extract (nameOff f i) (shOffset f (shstrndx f) + shSize f (shstrndx f))

instance : DecidablePred WellFormed := fun f =>
  decidable_of_iff (IsElf64 f ∧ (f[5]? = some 1 ∨ f[5]? = some 2) ∧ field f 58 2 = 64 ∧
    shoff f + shnum f * 64 ≤ f.length ∧ shstrndx f < shnum f ∧
    shOffset f (shstrndx f) + shSize f (shstrndx f) ≤ f.length ∧
    ∀ i < shnum f, 0 ∈ f.extract (nameOff f i) (shOffset f (shstrndx f) + shSize f (shstrndx f)))
    ⟨fun ⟨h₁, h₂, h₃, h₄, h₅, h₆, h₇⟩ => ⟨h₁, h₂, h₃, h₄, h₅, h₆, h₇⟩,
      fun ⟨h₁, h₂, h₃, h₄, h₅, h₆, h₇⟩ => ⟨h₁, h₂, h₃, h₄, h₅, h₆, h₇⟩⟩

/-! ## Files of the same layout -/

/-- Two files agree on the bytes from `a` up to `b`. -/
def AgreeOn (f g : Bytes) (a b : ℕ) : Prop := ∀ i, a ≤ i → i < b → f[i]? = g[i]?

theorem AgreeOn.mono {f g : Bytes} {a b a' b' : ℕ} (h : AgreeOn f g a b) (ha : a ≤ a')
    (hb : b' ≤ b) : AgreeOn f g a' b' := fun i hi hi' => h i (ha.trans hi) (hi'.trans_le hb)

/-- Two files agree on the header, the section header table and the section names of the first. -/
structure SameLayout (f g : Bytes) : Prop where
  length : f.length = g.length
  header : AgreeOn f g 0 64
  table : AgreeOn f g (shoff f) (shoff f + shnum f * 64)
  strings : AgreeOn f g (shOffset f (shstrndx f))
    (shOffset f (shstrndx f) + shSize f (shstrndx f))

theorem SameLayout.refl (f : Bytes) : SameLayout f f :=
  ⟨rfl, fun _ _ _ => rfl, fun _ _ _ => rfl, fun _ _ _ => rfl⟩

theorem extract_congr {f g : Bytes} {a b : ℕ} (h : AgreeOn f g a b) :
    f.extract a b = g.extract a b := by
  apply List.ext_getElem?
  intro i
  simp only [List.extract_eq_take_drop, List.getElem?_take, List.getElem?_drop]
  split
  · exact h (a + i) (by omega) (by omega)
  · rfl

theorem field_congr {f g : Bytes} {o n : ℕ} (hdata : f[5]? = g[5]?) (h : AgreeOn f g o (o + n)) :
    field f o n = field g o n := by
  rw [field, field, extract_congr h, List.getD_eq_getElem?_getD, List.getD_eq_getElem?_getD, hdata]

theorem agreeOn_of_extract {f g : Bytes} {a b : ℕ} (h : f.extract a b = g.extract a b) :
    AgreeOn f g a b := by
  intro i ha hb
  have hget := congrArg (·[i - a]?) h
  simp only [List.extract_eq_take_drop, List.getElem?_take, List.getElem?_drop] at hget
  rwa [if_pos (by omega), if_pos (by omega), Nat.add_sub_cancel' ha] at hget

/-- A C string with its zero before `b` is read from the bytes before `b`. -/
theorem takeWhile_extract {f : Bytes} {o b : ℕ} (h : 0 ∈ f.extract o b) :
    cstringAt f o = (f.extract o b).takeWhile (· ≠ 0) := by
  have happ (l r : Bytes) (hl : 0 ∈ l) :
      (l ++ r).takeWhile (· ≠ 0) = l.takeWhile (· ≠ 0) := by
    induction l with
    | nil => exact absurd hl List.not_mem_nil
    | cons c l ih =>
      rw [List.cons_append, List.takeWhile_cons, List.takeWhile_cons]
      split
      · rename_i hc
        rw [ih ((List.mem_cons.1 hl).resolve_left (Ne.symm (of_decide_eq_true hc)))]
      · rfl
  rw [List.extract_eq_take_drop] at h ⊢
  rw [cstringAt, ← happ _ ((f.drop o).drop (b - o)) h, List.take_append_drop]

theorem cstringAt_congr {f g : Bytes} {o b : ℕ} (h : AgreeOn f g o b) (hzero : 0 ∈ f.extract o b) :
    cstringAt f o = cstringAt g o := by
  have hext := extract_congr h
  rw [takeWhile_extract hzero, hext, ← takeWhile_extract (hext ▸ hzero)]

namespace SameLayout

variable {f g : Bytes} (h : SameLayout f g)

include h

theorem field_header {o n : ℕ} (hn : o + n ≤ 64) : field f o n = field g o n :=
  field_congr (h.header 5 (by omega) (by omega)) (h.header.mono (Nat.zero_le o) hn)

theorem shoff : Elf64.shoff f = Elf64.shoff g := h.field_header (by omega)

theorem shdr (i : ℕ) : Elf64.shdr f i = Elf64.shdr g i := by
  rw [Elf64.shdr, Elf64.shdr, h.shoff]

/-- A field of a section header. -/
theorem field_shdr {i o n : ℕ} (hi : i < Elf64.shnum f) (hn : o + n ≤ 64) :
    field f (Elf64.shdr f i + o) n = field g (Elf64.shdr g i + o) n := by
  rw [← h.shdr]
  have hle : (i + 1) * 64 ≤ Elf64.shnum f * 64 := Nat.mul_le_mul_right 64 hi
  refine field_congr (h.header 5 (by omega) (by omega)) (h.table.mono ?_ ?_) <;>
    rw [Elf64.shdr] <;> omega

theorem shName {i : ℕ} (hi : i < Elf64.shnum f) : Elf64.shName f i = Elf64.shName g i := by
  have hfield := h.field_shdr (o := 0) (n := 4) hi (by omega)
  rwa [Nat.add_zero, Nat.add_zero] at hfield

theorem shType {i : ℕ} (hi : i < Elf64.shnum f) : Elf64.shType f i = Elf64.shType g i :=
  h.field_shdr hi (by omega)

theorem shFlags {i : ℕ} (hi : i < Elf64.shnum f) : Elf64.shFlags f i = Elf64.shFlags g i :=
  h.field_shdr hi (by omega)

theorem shOffset {i : ℕ} (hi : i < Elf64.shnum f) : Elf64.shOffset f i = Elf64.shOffset g i :=
  h.field_shdr hi (by omega)

theorem shSize {i : ℕ} (hi : i < Elf64.shnum f) : Elf64.shSize f i = Elf64.shSize g i :=
  h.field_shdr hi (by omega)

theorem shLink {i : ℕ} (hi : i < Elf64.shnum f) : Elf64.shLink f i = Elf64.shLink g i :=
  h.field_shdr hi (by omega)

theorem compressed {i : ℕ} (hi : i < Elf64.shnum f) :
    Elf64.compressed f i = Elf64.compressed g i := by
  rw [Elf64.compressed, Elf64.compressed, h.shFlags hi]

theorem shnum (hpos : 0 < Elf64.shnum f) : Elf64.shnum f = Elf64.shnum g := by
  rw [Elf64.shnum, Elf64.shnum, ← h.shoff, ← h.field_header (by omega : 60 + 2 ≤ 64),
    ← h.shSize hpos]

theorem shstrndx (hpos : 0 < Elf64.shnum f) : Elf64.shstrndx f = Elf64.shstrndx g := by
  rw [Elf64.shstrndx, Elf64.shstrndx, ← h.field_header (by omega : 62 + 2 ≤ 64), ← h.shLink hpos]

variable (hf : WellFormed f)

include hf

theorem nameOff {i : ℕ} (hi : i < Elf64.shnum f) : Elf64.nameOff f i = Elf64.nameOff g i := by
  rw [Elf64.nameOff, Elf64.nameOff, ← h.shstrndx (by omega), ← h.shOffset hf.shstrndx_lt,
    ← h.shName hi]

theorem sectionName (decode : Bytes → Str) {i : ℕ} (hi : i < Elf64.shnum f) :
    Elf64.sectionName decode f i = Elf64.sectionName decode g i := by
  rw [Elf64.sectionName, Elf64.sectionName, ← h.nameOff hf hi]
  exact congrArg decode (cstringAt_congr (h.strings.mono (Nat.le_add_right _ _) le_rfl)
    (hf.name i hi))

/-- The sections of a name are the same. -/
theorem lookup (decode : Bytes → Str) (name : Str) :
    Elf64.lookup decode f name = Elf64.lookup decode g name := by
  have hpos : 0 < Elf64.shnum f := (Nat.zero_le _).trans_lt hf.shstrndx_lt
  rw [Elf64.lookup, Elf64.lookup, ← h.shnum hpos]
  refine congrArg List.getLast? (List.filter_congr fun i hi => ?_)
  rw [h.sectionName hf decode (List.mem_range.1 hi)]

theorem wellFormed : WellFormed g := by
  have hpos : 0 < Elf64.shnum f := (Nat.zero_le _).trans_lt hf.shstrndx_lt
  have htake : f.take 5 = g.take 5 := by
    have hext := extract_congr (h.header.mono le_rfl (by omega : 5 ≤ 64))
    simpa only [List.extract_eq_take_drop, Nat.sub_zero, List.drop_zero] using hext
  have hstrndx := h.shstrndx hpos
  have hoff := h.shOffset hf.shstrndx_lt
  have hsize := h.shSize hf.shstrndx_lt
  constructor
  · exact ⟨h.length ▸ hf.isElf64.1, htake ▸ hf.isElf64.2⟩
  · exact h.header 5 (by omega) (by omega) ▸ hf.byteOrder
  · rw [← h.field_header (by omega : 58 + 2 ≤ 64), hf.shentsize]
  · rw [← h.shoff, ← h.shnum hpos, ← h.length]
    exact hf.table
  · rw [← hstrndx, ← h.shnum hpos]
    exact hf.shstrndx_lt
  · rw [← hstrndx, ← hoff, ← hsize, ← h.length]
    exact hf.strings
  · intro i hi
    rw [← h.shnum hpos] at hi
    have hname := hf.name i hi
    rw [← hstrndx, ← hoff, ← hsize, ← h.nameOff hf hi, ← extract_congr (h.strings.mono (by
      rw [Elf64.nameOff]; exact Nat.le_add_right _ _) le_rfl)]
    exact hname

end SameLayout

end Elf64

/-! ## Readings -/

open Elf64

/-- What pyelftools shows of a section: its header, and its bytes (zeros for `SHT_NOBITS`)
    unless it is compressed. -/
structure PySection.Shows (f : Bytes) (i : ℕ) (sec : PySection) : Prop where
  shOffset : sec.shOffset = Elf64.shOffset f i
  shSize : sec.shSize = Elf64.shSize f i
  compressed : sec.compressed = Elf64.compressed f i
  data : Elf64.compressed f i = false → sec.data =
    .ok (if shType f i = shtNobits then List.replicate (Elf64.shSize f i) 0 else contents f i)

/-- pyelftools shows the sections of the file as its bytes have them, and leaves the stream
    after the header. -/
def PyElfTools.Reads (tools : PyElfTools) (decode : Bytes → Str) (f : Bytes) : Prop :=
  ∃ elf, tools.elfFile f = .ok elf ∧ elf.headerEnd = 64 ∧ ∀ name, ∃ sec?,
    elf.getSectionByName name = .ok sec? ∧
      Option.Rel (PySection.Shows f) (lookup decode f name) sec?

/-- A reading of the well-formed files, given a decoder of their section names and of
    their compressed sections. -/
def elf64Tools (decode : Bytes → Str) (inflate : Bytes → Except Failure Bytes) : PyElfTools where
  elfFile f :=
    if WellFormed f then
      .ok {
        getSectionByName := fun name => .ok ((lookup decode f name).map fun i => {
          shOffset := shOffset f i
          shSize := shSize f i
          compressed := compressed f i
          data :=
            if compressed f i then inflate (contents f i)
            else .ok (if shType f i = shtNobits then List.replicate (shSize f i) 0
              else contents f i) })
        headerEnd := 64 }
    else .error .raised
  elfFile_nil := ⟨.raised, if_neg fun h => absurd h.isElf64.1 (by decide)⟩

theorem reads_elf64Tools (decode : Bytes → Str) (inflate : Bytes → Except Failure Bytes) {f : Bytes}
    (hf : WellFormed f) : (elf64Tools decode inflate).Reads decode f := by
  refine ⟨_, if_pos hf, rfl, fun name => ⟨_, rfl, ?_⟩⟩
  cases lookup decode f name with
  | none => exact .none
  | some i => exact .some ⟨rfl, rfl, rfl, fun hc => if_neg (by simp [hc])⟩

/-! ## Small files -/

namespace Elf64

/-- The header of a little-endian BPF object. -/
def header (shoff shnum shstrndx : ℕ) : Bytes :=
  [0x7f, 0x45, 0x4c, 0x46, 2, 1, 1] ++ List.replicate 9 0 ++ leBytes 2 etRel ++ leBytes 2 emBpf ++
    leBytes 4 1 ++ leBytes 8 0 ++ leBytes 8 0 ++ leBytes 8 shoff ++ leBytes 4 0 ++ leBytes 2 64 ++
    leBytes 2 0 ++ leBytes 2 0 ++ leBytes 2 64 ++ leBytes 2 shnum ++ leBytes 2 shstrndx

/-- A section header. -/
def shdrBytes (name type flags offset size : ℕ) : Bytes :=
  leBytes 4 name ++ leBytes 4 type ++ leBytes 8 flags ++ leBytes 8 0 ++ leBytes 8 offset ++
    leBytes 8 size ++ leBytes 4 0 ++ leBytes 4 0 ++ leBytes 8 1 ++ leBytes 8 0

/-- The section headers of some sections, laid out one after the other from `offset` on. -/
def shdrsBytes (name offset : ℕ) : List (Bytes × ℕ × Bytes) → Bytes
  | [] => []
  | (n, flags, data) :: secs =>
    shdrBytes name shtProgbits flags offset data.length ++
      shdrsBytes (name + n.length + 1) (offset + data.length) secs

/-- A file of some sections, given by their names, flags and data: the header, the data, the
    section names, and the section header table. -/
def file (secs : List (Bytes × ℕ × Bytes)) : Bytes :=
  let data := secs.flatMap fun s => s.2.2
  let names := 0 :: secs.flatMap fun s => s.1 ++ [0]
  let strings := names ++ cstr ".shstrtab" ++ [0]
  header (64 + data.length + strings.length) (secs.length + 2) (secs.length + 1) ++ data ++
    strings ++ shdrBytes 0 0 0 0 0 ++ shdrsBytes 1 64 secs ++
    shdrBytes names.length shtStrtab 0 (64 + data.length) strings.length

/-- Names in ASCII. -/
def ascii (name : Bytes) : Str := name.map fun c => Char.ofNat c.toNat

/-- A `zlib` stream of one stored block, after the header of a compressed section. -/
def inflateStored (b : Bytes) : Except Failure Bytes :=
  if b.take 4 = leBytes 4 1 ∧ (b.drop 24).take 3 = [0x78, 0x01, 0x01] then
    .ok ((b.drop 31).take (b.length - 35))
  else .error .raised

end Elf64

end BpfElfTools.Patcher
