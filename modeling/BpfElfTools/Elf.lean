import BpfElfTools.Insn

/-!
# Object files, as libelf shows them

Both extractors read their object file through libelf. Here an object file is
what libelf answers about it: its sections, with their headers, names and data,
and the symbols and relocation entries that `gelf_getsym` and `gelf_getrel` find
in the data. Nothing is assumed of these answers beyond what makes them data in
memory (`ElfData`), so that they cover malformed files too.
-/

namespace BpfElfTools

/-! ## Constants of the format -/

def etRel : ℕ := 1
def emBpf : ℕ := 247
def shtProgbits : ℕ := 1
def shtSymtab : ℕ := 2
def shtStrtab : ℕ := 3
def shtNobits : ℕ := 8
def shtRel : ℕ := 9
def shfExecinstr : ℕ := 4
def shnUndef : ℕ := 0
def shnLoreserve : ℕ := 0xff00
def stbGlobal : ℕ := 1
def stbWeak : ℕ := 2
def sttNotype : ℕ := 0
def sttObject : ℕ := 1
def sttFunc : ℕ := 2

/-! ## Sections -/

/-- `GElf_Sym`, its name being the string found in the string table of the symbols. -/
structure GElfSym where
  name : Option Bytes
  bind : ℕ
  type : ℕ
  shndx : ℕ
  value : ℕ
  size : ℕ
  deriving DecidableEq, Repr

/-- `GElf_Rel`, with the two fields of interest: the offset and the symbol index
    (`GELF_R_SYM (r_info)`). -/
structure GElfRel where
  offset : ℕ
  sym : ℕ
  deriving DecidableEq, Repr

/-- `GElf_Shdr`, the name being the string found in the section name table. -/
structure GElfShdr where
  name : Option Bytes
  /-- How many bytes of the table there are from the name on. -/
  nameRoom : ℕ
  type : ℕ
  flags : ℕ
  size : ℕ
  link : ℕ
  info : ℕ
  entsize : ℕ
  deriving DecidableEq, Repr

/-- The section holds instructions. -/
def GElfShdr.execinstr (sh : GElfShdr) : Bool := sh.flags &&& shfExecinstr != 0

/-- `Elf_Data`: a buffer in memory (`NULL` for a section without bits in the
    file), and the records libelf reads from it. -/
structure ElfData where
  buf : Option Bytes
  size : ℕ
  /-- What `gelf_getsym` finds, in order. -/
  syms : List GElfSym
  /-- What `gelf_getrel` finds, in order. -/
  rels : List GElfRel
  length_buf : ∀ b ∈ buf, b.length = size
  /-- No object in memory is larger than `PTRDIFF_MAX`. -/
  size_lt : size < 2 ^ 63
  deriving DecidableEq, Repr

/-- The bytes of the data, if there are any. -/
def ElfData.bytes (d : ElfData) : Bytes := d.buf.getD []

/-- A section: its header, and its data if libelf can read them. -/
structure ElfScn where
  shdr : GElfShdr
  data : Option ElfData
  deriving DecidableEq, Repr

/-- An object file: what the tools check in its header, and its sections (with
    the null section first). -/
structure Elf where
  type : ℕ
  machine : ℕ
  /-- `EI_DATA` is `ELFDATA2LSB`, the order of the host. -/
  lsb : Bool
  /-- The section name table can be read. -/
  shstrtab : Bool
  scns : List ElfScn
  /-- The tools number the sections by an `int`. -/
  length_scns : scns.length < 2 ^ 31
  deriving DecidableEq, Repr

/-- `sizeof(GElf_Sym)`. -/
def sizeofGElfSym : ℕ := 24

/-- The data of a section (`elf_sec_by_idx`, `elf_sec_data`). -/
def Elf.secData (elf : Elf) (idx : ℕ) : Option ElfData := elf.scns[idx]?.bind (·.data)

/-- The numbered sections from the first one on, as `elf_nextscn` walks them. -/
def Elf.numbered (elf : Elf) : List (ElfScn × ℕ) := elf.scns.zipIdx.tail

theorem Elf.mem_numbered {elf : Elf} {s : ElfScn} {i : ℕ} :
    (s, i) ∈ elf.numbered ↔ elf.scns[i]? = some s ∧ i ≠ 0 := by
  rw [Elf.numbered]
  cases elf.scns with
  | nil => simp
  | cons t ts =>
    rw [List.zipIdx_cons, List.tail_cons, List.mk_mem_zipIdx_iff_le_and_getElem?_sub]
    cases i with
    | zero => simp
    | succ i => simp

theorem Elf.lt_of_mem_numbered {elf : Elf} {s : ElfScn} {i : ℕ} (h : (s, i) ∈ elf.numbered) :
    i < 2 ^ 31 :=
  (List.getElem?_eq_some_iff.1 (Elf.mem_numbered.1 h).1).1.trans elf.length_scns

/-- A section has one number. -/
theorem Elf.eq_of_mem_numbered {elf : Elf} {s t : ElfScn} {i : ℕ} (hs : (s, i) ∈ elf.numbered)
    (ht : (t, i) ∈ elf.numbered) : s = t :=
  Option.some.inj ((Elf.mem_numbered.1 hs).1.symm.trans (Elf.mem_numbered.1 ht).1)

/-- The data of the symbol table. -/
def Elf.symtab (elf : Elf) : Option ElfData :=
  (elf.numbered.find? fun s => s.1.shdr.type = shtSymtab).bind (·.1.data)

/-- The numbers of the sections are in order. -/
theorem Elf.pairwise_numbered (elf : Elf) :
    elf.numbered.Pairwise fun s t => s.2 < t.2 := by
  have h : (elf.scns.zipIdx.map Prod.snd).Pairwise (· < ·) := by
    rw [List.zipIdx_map_snd]
    exact List.pairwise_lt_range'
  exact (List.pairwise_map.1 h).sublist (List.tail_sublist _)

/-! ## A small object -/

/-- The `n` bytes of an unsigned number. -/
def leBytes (n v : ℕ) : Bytes := (List.range n).map fun i => BitVec.ofNat 8 (v / 256 ^ i)

/-- An `Elf64_Rel`, of the type `R_BPF_64_64`. -/
def GElfRel.bytes (rel : GElfRel) : Bytes :=
  leBytes 8 rel.offset ++ leBytes 8 (rel.sym * 2 ^ 32 + 1)

/-- An `Elf64_Sym`, with its name at `nameOff` in the string table. -/
def GElfSym.bytes (sym : GElfSym) (nameOff : ℕ) : Bytes :=
  leBytes 4 nameOff ++ leBytes 2 (sym.bind * 16 + sym.type) ++ leBytes 2 sym.shndx ++
    leBytes 8 sym.value ++ leBytes 8 sym.size

/-- The strings of a string table, with their NULs. -/
def strtabBytes (names : List (Option Bytes)) : Bytes :=
  names.flatMap fun name => name.getD [] ++ [0]

/-- The contents of a section, as far as they fit in memory. -/
def ElfData.ofBytes (b : Bytes) (syms : List GElfSym) (rels : List GElfRel) : ElfData :=
  if h : b.length < 2 ^ 63 then ⟨some b, b.length, syms, rels, by simp, h⟩
  else ⟨none, 0, [], [], by simp, by simp⟩

/-- The section of some contents. -/
def ElfScn.ofData (name : Bytes) (type flags link info entsize : ℕ) (data : ElfData) : ElfScn :=
  ⟨⟨some name, name.length + 1, type, flags, data.size, link, info, entsize⟩, some data⟩

/-- The sections, with their names in a table one after the other, and that of the table last. -/
def ElfScn.named : List ElfScn → List ElfScn
  | [] => []
  | scn :: scns =>
    let names := (scn :: scns).map (·.shdr.name) ++ [some (cstr ".shstrtab")]
    { scn with shdr := { scn.shdr with nameRoom := (strtabBytes names).length } } ::
      ElfScn.named scns

theorem ElfScn.length_named (scns : List ElfScn) : (ElfScn.named scns).length = scns.length := by
  induction scns with
  | nil => rfl
  | cons scn scns ih => rw [ElfScn.named, List.length_cons, ih, List.length_cons]

/-- An object file of some sections, after the null section. -/
def Elf.ofScns (scns : List ElfScn) (h : scns.length < 2 ^ 31 - 1) : Elf where
  type := etRel
  machine := emBpf
  lsb := true
  shstrtab := true
  scns := ElfScn.named (.ofData [] 0 0 0 0 0 (.ofBytes [] [] []) :: scns)
  length_scns := by
    rw [ElfScn.length_named, List.length_cons]
    omega

/-- The sections of a small object: one of instructions, its relocation entries, a symbol table,
    and legacy maps. -/
def smallScns (secName : String) (text : List BpfInsn) (rels : List GElfRel) (syms : List GElfSym)
    (maps : Bytes) : List ElfScn := [
  .ofData (cstr secName) shtProgbits 6 0 0 0 (.ofBytes (insnBytes text) [] []),
  .ofData (cstr (".rel" ++ secName)) shtRel 0 3 1 16
    (.ofBytes (rels.flatMap GElfRel.bytes) [] rels),
  .ofData (cstr ".symtab") shtSymtab 0 5 1 24
    (.ofBytes (syms.zipIdx.flatMap fun s =>
      s.1.bytes (strtabBytes ((syms.take s.2).map GElfSym.name)).length) syms []),
  .ofData (cstr "maps") shtProgbits 3 0 0 0 (.ofBytes maps [] []),
  .ofData (cstr ".strtab") shtStrtab 0 0 0 0
    (.ofBytes (strtabBytes (syms.map GElfSym.name)) [] [])]

/-- A small object. -/
def smallElf (secName : String) (text : List BpfInsn) (rels : List GElfRel) (syms : List GElfSym)
    (maps : Bytes) : Elf :=
  .ofScns (smallScns secName text rels syms maps) (by simp [smallScns])

/-- An object of two programs, which load the addresses of two maps: the first one that of each,
    the second one that of the second map. -/
def twoProgsElf : Elf :=
  .ofScns
    (smallScns "xdp" [⟨lddwCode, 1, 0, 0, 0⟩, .zero, ⟨lddwCode, 2, 0, 0, 0⟩, .zero,
        ⟨0x95, 0, 0, 0, 0⟩] [⟨0, 2⟩, ⟨16, 3⟩]
      [⟨some [], 0, 0, 0, 0, 0⟩, ⟨some (cstr "pass"), stbGlobal, sttFunc, 1, 0, 40⟩,
        ⟨some (cstr "counts"), stbGlobal, sttObject, 4, 0, 20⟩,
        ⟨some (cstr "totals"), stbGlobal, sttObject, 4, 20, 20⟩,
        ⟨some (cstr "drop"), stbGlobal, sttFunc, 6, 0, 24⟩]
      ([2, 4, 8, 1, 0, 1, 4, 8, 16, 0].flatMap (leBytes 4)) ++
    [.ofData (cstr "tc/drop") shtProgbits 6 0 0 0
        (.ofBytes (insnBytes [⟨lddwCode, 1, 0, 0, 0⟩, .zero, ⟨0x95, 0, 0, 0, 0⟩]) [] []),
      .ofData (cstr ".reltc/drop") shtRel 0 3 6 16
        (.ofBytes (GElfRel.bytes ⟨0, 3⟩) [] [⟨0, 3⟩])])
    (by simp [smallScns])

end BpfElfTools
