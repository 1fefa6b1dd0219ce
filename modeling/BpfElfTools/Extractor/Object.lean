import BpfElfTools.Elf
import BpfElfTools.Lib.Sort

/-!
# The object of the extractor

The records of libbpf, as far as the extractor uses them: `struct bpf_object`
with its programs, maps and externs, and the state of the ELF file while it is
open (`Efile`).

An `int` field is a `BitVec 32` where the source stores a wider value in it; the
lengths of the arrays are those of the lists.
-/

namespace BpfElfTools.Extractor

/-- The errors of libbpf, and the undefined behaviour of the C code (an access out
    of bounds or through a null pointer, a division by zero). -/
inductive Err
  | einval
  | enomem
  | enoent
  | esrch
  | enotsup
  | libelf
  | format
  | endian
  | internal
  | reloc
  | fault
  deriving DecidableEq, Repr

/-! ## Relocations -/

/-- `enum reloc_type`, a field of which may hold any value before it is assigned. -/
abbrev RelocType := BitVec 32

def reloLd64 : RelocType := 0
def reloCall : RelocType := 1
def reloData : RelocType := 2
def reloExtern : RelocType := 3

/-- `struct reloc_desc`. -/
structure RelocDesc where
  type : RelocType
  insnIdx : BitVec 32
  mapIdx : BitVec 32
  symOff : BitVec 32
  processed : Bool
  deriving DecidableEq, Repr

/-! ## Programs -/

/-- `struct bpf_program`, its `nr_reloc` being the length of `relocDesc`. -/
structure BpfProgram where
  secName : Bytes
  secIdx : ℕ
  /-- The offset of the first instruction in the section, in instructions. -/
  secInsnOff : ℕ
  secInsnCnt : ℕ
  name : Bytes
  insns : List BpfInsn
  relocDesc : List RelocDesc
  deriving DecidableEq, Repr

/-! ## Maps -/

/-- `struct bpf_map_def`. -/
structure BpfMapDef where
  type : BitVec 32
  keySize : BitVec 32
  valueSize : BitVec 32
  maxEntries : BitVec 32
  mapFlags : BitVec 32
  deriving DecidableEq, Repr

/-- `sizeof(struct bpf_map_def)`. -/
def sizeofBpfMapDef : ℕ := 20

/-- `enum libbpf_map_type`. -/
inductive LibbpfMapType
  | unspec
  | data
  | bss
  | rodata
  | kconfig
  deriving DecidableEq, Repr

/-- `struct bpf_map`. -/
structure BpfMap where
  name : Bytes
  fd : ℤ
  secIdx : ℤ
  secOffset : ℕ
  defn : BpfMapDef
  libbpfType : LibbpfMapType
  /-- The `fd` of the inner map, if there is one. -/
  innerMap : Option ℤ
  deriving DecidableEq, Repr

/-! ## Externs -/

/-- `enum kcfg_type`. -/
inductive KcfgType
  | unknown
  | char
  | bool
  | int
  | tristate
  | charArr
  deriving DecidableEq, Repr

/-- The type of an extern and the union of its description: `EXT_KCFG` with the
    `kcfg` fields, or `EXT_KSYM` with the `ksym` ones. (An extern is `EXT_UNKNOWN`
    only while it is being described.) -/
inductive ExternVal
  | kcfg (type : KcfgType) (sz align dataOff : ℤ) (isSigned : Bool)
  | ksym (addr : BitVec 64) (vmlinuxBtfId : BitVec 32) (typeId : BitVec 32)
  deriving DecidableEq, Repr

/-- `struct extern_desc`. -/
structure ExternDesc where
  symIdx : ℕ
  btfId : ℤ
  secBtfId : ℤ
  name : Bytes
  isWeak : Bool
  val : ExternVal
  deriving DecidableEq, Repr

/-- The extern is a `kcfg` one. -/
def ExternDesc.isKcfg (ext : ExternDesc) : Bool :=
  match ext.val with
  | .kcfg .. => true
  | .ksym .. => false

/-! ## BTF -/

/-- A variable of the BTF section `.maps`: its name, its place in the section,
    what its definition says, and whether an inner map has been allocated for it
    (even if there is an error in the definition). -/
structure BtfMapVar where
  name : Option Bytes
  offset : ℕ
  size : ℕ
  parse : Except Err BpfMapDef
  hasInner : Bool

/-- The type information of an object, by what libbpf asks it. -/
structure Btf where
  /-- `find_extern_btf_id`. -/
  findExternBtfId : Bytes → Except Err ℤ
  /-- `find_extern_sec_btf_id`. -/
  findExternSecBtfId : ℤ → Except Err ℤ
  /-- The name of a type. -/
  nameOf : ℤ → Bytes
  /-- The size of the type of an extern, as an `int`. -/
  resolveSize : ℤ → ℤ
  /-- The alignment of the type of an extern, as an `int`. -/
  alignOf : ℤ → ℤ
  /-- The kconfig type of an extern, and whether it is signed. -/
  findKcfgType : ℤ → KcfgType × Bool
  /-- The type of an extern without modifiers and typedefs. -/
  ksymTypeId : ℤ → BitVec 32
  /-- The names of the variables of a section. -/
  datasecVars : ℤ → List Bytes
  /-- `btf__finalize_data`. -/
  finalize : Except Err Unit
  /-- The variables of the section `.maps`, if it is described. -/
  mapsVars : Option (List BtfMapVar)
  /-- The struct_ops maps: names, offsets and definitions. -/
  structOpsMaps : Except Err (List (Bytes × ℕ × BpfMapDef))
  /-- The outcome of `bpf_object__collect_map_relos`. -/
  collectMapRelos : GElfShdr → ElfData → Except Err Unit
  /-- The outcome of `bpf_object__collect_st_ops_relos`. -/
  collectStOpsRelos : GElfShdr → ElfData → Except Err Unit

/-- No type information can be read. -/
def noBtf : Bytes → Except Err Btf := fun _ => .error .einval

/-! ## The object -/

/-- The state of the ELF file of an object. A section index is `-1` when there is
    no such section, but for `textShndx` and `symbolsShndx`, which are then `0`. -/
structure Efile where
  symbols : Option ElfData := none
  symbolsShndx : ℤ := 0
  strtabidx : ℕ := 0
  mapsShndx : ℤ := -1
  btfMapsShndx : ℤ := -1
  textShndx : ℤ := 0
  data : Option ElfData := none
  dataShndx : ℤ := -1
  rodata : Option ElfData := none
  rodataShndx : ℤ := -1
  bss : Option ElfData := none
  bssShndx : ℤ := -1
  stOpsData : Option ElfData := none
  stOpsShndx : ℤ := -1
  relocSects : List (GElfShdr × ElfData) := []

/-- `struct bpf_object`. -/
structure BpfObject where
  name : Bytes
  elf : Elf
  efile : Efile := {}
  btf : Option Btf := none
  programs : List BpfProgram := []
  maps : List BpfMap := []
  externs : List ExternDesc := []
  kconfigMapIdx : ℤ := -1
  rodataMapIdx : ℤ := -1

/-- The contents of the memory the code may read without having written it. -/
structure Heap where
  /-- What the slot `k` of the array of descriptors of the program `i` holds when
      the array is reallocated for it. -/
  reloc : (i k : ℕ) → RelocDesc
  /-- What is at the address `pos` relative to the data of the maps section, when
      `pos` lies outside of it. -/
  beyond : (pos : ℕ) → Byte

/-- Memory in which every descriptor holds `d`, and the other bytes are zero. -/
def Heap.filled (d : RelocDesc) : Heap := ⟨fun _ _ => d, fun _ => 0⟩

/-- Memory that holds zeroes. -/
def zeroHeap : Heap := .filled ⟨0, 0, 0, 0, false⟩

/-- Reading `n` bytes at the address `pos` relative to the start of the data (a
    64-bit address, which may wrap around). -/
def peek (heap : Heap) (d : ElfData) (pos n : ℕ) : Bytes :=
  (List.range n).map fun k =>
    (d.bytes[(pos + k) % 2 ^ 64]?).getD (heap.beyond ((pos + k) % 2 ^ 64))

/-! ## The C library -/

/-- `qsort`, which glibc does by merging, keeping the order of the elements that
    compare equal. -/
abbrev qsort {α : Type*} (cmp : α → α → ℤ) (l : List α) : List α := Sorting.sort cmp l

/-- `strcmp`, of which only the sign is used. -/
def strcmp : Bytes → Bytes → ℤ
  | [], [] => 0
  | [], _ :: _ => -1
  | _ :: _, [] => 1
  | a :: as, b :: bs => if a = b then strcmp as bs else if a < b then -1 else 1

/-- A C integer value stored in an `int`. -/
def toInt (n : ℕ) : ℤ := (BitVec.ofNat 32 n).toInt

end BpfElfTools.Extractor
