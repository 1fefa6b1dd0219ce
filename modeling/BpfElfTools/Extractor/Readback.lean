import BpfElfTools.Extractor.Dump
import BpfElfTools.Lib.Scan

/-!
# Reading the dumps back

The dumps are read back by the formats that they are written with: the instructions
from their bytes and from the readable lines, the descriptors and the maps line by line.

* `insns_relocs_readback`: nothing is lost of the instructions and the descriptors;
* `mapsReadback_iff`: nothing is lost of the maps as long as their lines fit the buffer;
* `not_mapsReadback`: the line of a map with a long name loses its end.
-/

namespace BpfElfTools.Extractor

open Text

/-! ## Instructions -/

/-- The format of a readable line: the opcode, the source and the destination register,
    the offset and the immediate. -/
def scanInsn : Scanner BpfInsn := do
  lit (cstr "\x7b")
  let code ← nat
  lit (cstr " ")
  let srcReg ← nat
  lit (cstr " ")
  let dstReg ← nat
  lit (cstr " ")
  let off ← int
  lit (cstr " ")
  let imm ← int
  lit (cstr "\x7d\n")
  return ⟨.ofNat 8 code, .ofNat 4 dstReg, .ofNat 4 srcReg, .ofInt 16 off, .ofInt 32 imm⟩

theorem scanInsn_append (insn : BpfInsn) (t : Bytes) :
    scanInsn (insnLine insn ++ t) = some (insn, t) := by
  rw [insnLine]
  simp only [List.append_assoc]
  rw [scanInsn, run_bind (lit_append _ _), run_nat_lit _ (by decide), run_nat_lit _ (by decide),
    run_nat_lit _ (by decide), run_int_lit _ (by decide), run_int_lit _ (by decide)]
  simp only [BitVec.ofNat_toNat, BitVec.ofInt_toInt]
  rfl

theorem newline_not_mem_decimal (n : ℕ) : (0x0a : Byte) ∉ decimal n :=
  not_mem_decimal (by decide) n

theorem newline_not_mem_decimalInt (x : ℤ) : (0x0a : Byte) ∉ decimalInt x :=
  not_mem_decimalInt (by decide) (by decide) x

theorem isLine_insnLine (insn : BpfInsn) : IsLine (insnLine insn) := by
  refine .append ?_ ⟨cstr "\x7d", by decide, rfl⟩
  have hblank : (0x0a : Byte) ∉ cstr " " := by decide
  have hopen : (0x0a : Byte) ∉ cstr "\x7b" := by decide
  simp only [List.mem_append, newline_not_mem_decimal, newline_not_mem_decimalInt, hblank, hopen,
    or_self, not_false_iff]

theorem lines_insnsText (insns : List BpfInsn) :
    lines (insnsText insns) = insns.map insnLine :=
  lines_flatMap fun insn _ => isLine_insnLine insn

/-! ## Descriptors -/

/-- A line of the dump of the descriptors: the number that it is named by, and the fields. -/
structure RelocRecord where
  num : ℕ
  type : RelocType
  insnIdx : BitVec 32
  mapIdx : BitVec 32
  symOff : BitVec 32
  deriving DecidableEq, Repr

/-- What is dumped of the descriptor number `i`. -/
def RelocDesc.record (reloc : RelocDesc) (i : ℕ) : RelocRecord :=
  ⟨i, reloc.type, reloc.insnIdx, reloc.mapIdx, reloc.symOff⟩

/-- The name of an entry, before it is cut to its buffer. -/
def relocName (i : ℕ) : Bytes := cstr "reloc_" ++ decimal i

/-- A line, before it is cut to its buffer. -/
def relocString (i : ℕ) (reloc : RelocDesc) : Bytes :=
  relocName i ++
    cstr " \x7b type = " ++ decimalInt reloc.type.toInt ++
    cstr ", insn_idx = " ++ decimal reloc.insnIdx.toNat ++
    cstr ", map_idx = " ++ decimal reloc.mapIdx.toNat ++
    cstr ", sym_off = " ++ decimal reloc.symOff.toNat ++ cstr " \x7d\n"

/-- The format of a line, the integers modulo 2^32. -/
def scanReloc : Scanner RelocRecord := do
  lit (cstr "reloc_")
  let num ← nat
  lit (cstr " \x7b type = ")
  let type ← int
  lit (cstr ", insn_idx = ")
  let insnIdx ← nat
  lit (cstr ", map_idx = ")
  let mapIdx ← nat
  lit (cstr ", sym_off = ")
  let symOff ← nat
  lit (cstr " \x7d\n")
  return ⟨num, .ofInt 32 type, .ofNat 32 insnIdx, .ofNat 32 mapIdx, .ofNat 32 symOff⟩

theorem scanReloc_append (i : ℕ) (reloc : RelocDesc) (t : Bytes) :
    scanReloc (relocString i reloc ++ t) = some (reloc.record i, t) := by
  rw [relocString, relocName]
  simp only [List.append_assoc]
  rw [scanReloc, run_bind (lit_append _ _), run_nat_lit _ (by decide), run_int_lit _ (by decide),
    run_nat_lit _ (by decide), run_nat_lit _ (by decide), run_nat_lit _ (by decide)]
  simp only [BitVec.ofNat_toNat, BitVec.ofInt_toInt]
  rfl

theorem length_decimal_toNat_le (x : BitVec 32) : (decimal x.toNat).length ≤ 10 :=
  length_decimal_le (by omega) (by have := x.isLt; omega)

theorem length_decimalInt_toInt_le (x : BitVec 32) : (decimalInt x.toInt).length ≤ 11 :=
  length_decimalInt_le x.le_toInt (by have := x.toInt_lt (w := 32); omega)

theorem length_relocName_lt {i : ℕ} (hi : i < 2 ^ 31) : (relocName i).length < 17 := by
  have : (decimal i).length ≤ 10 := length_decimal_le (by omega) (by omega)
  have hlit : (cstr "reloc_").length = 6 := rfl
  rw [relocName, List.length_append]
  omega

/-- The lines fit their buffer. -/
theorem length_relocString_lt {i : ℕ} (hi : i < 2 ^ 31) (reloc : RelocDesc) :
    (relocString i reloc).length < 128 := by
  have hname := length_relocName_lt hi
  have htype := length_decimalInt_toInt_le reloc.type
  have hinsn := length_decimal_toNat_le reloc.insnIdx
  have hmap := length_decimal_toNat_le reloc.mapIdx
  have hsym := length_decimal_toNat_le reloc.symOff
  have hlits : (cstr " \x7b type = ").length = 10 ∧ (cstr ", insn_idx = ").length = 13 ∧
      (cstr ", map_idx = ").length = 12 ∧ (cstr ", sym_off = ").length = 12 ∧
      (cstr " \x7d\n").length = 3 := ⟨rfl, rfl, rfl, rfl, rfl⟩
  simp only [relocString, List.length_append]
  omega

theorem snprintf_of_lt {n : ℕ} {s : Bytes} (h : s.length < n) : snprintf n s = s :=
  List.take_of_length_le (by omega)

theorem relocLine_eq {i : ℕ} (hi : i < 2 ^ 31) (reloc : RelocDesc) :
    relocLine i reloc = relocString i reloc := by
  have hname : snprintf 32 (relocName i) = relocName i :=
    snprintf_of_lt ((length_relocName_lt hi).trans (by omega))
  change snprintf 128 (snprintf 32 (relocName i) ++ _ ++ _ ++ _ ++ _ ++ _ ++ _ ++ _ ++ _ ++ _) = _
  rw [hname]
  exact snprintf_of_lt (length_relocString_lt hi reloc)

theorem isLine_relocString (i : ℕ) (reloc : RelocDesc) : IsLine (relocString i reloc) := by
  refine .append ?_ ⟨cstr " \x7d", by decide, rfl⟩
  have hname : (0x0a : Byte) ∉ cstr "reloc_" := by decide
  have htype : (0x0a : Byte) ∉ cstr " \x7b type = " := by decide
  have hinsn : (0x0a : Byte) ∉ cstr ", insn_idx = " := by decide
  have hmap : (0x0a : Byte) ∉ cstr ", map_idx = " := by decide
  have hsym : (0x0a : Byte) ∉ cstr ", sym_off = " := by decide
  simp only [relocName, List.mem_append, newline_not_mem_decimal, newline_not_mem_decimalInt,
    hname, htype, hinsn, hmap, hsym, or_self, not_false_iff]

theorem lines_relocsText {relocs : List RelocDesc} (hlen : relocs.length < 2 ^ 31) :
    lines (relocsText relocs) = relocs.zipIdx.map fun r => relocString r.2 r.1 := by
  have heq : ∀ r ∈ relocs.zipIdx, relocLine r.2 r.1 = relocString r.2 r.1 := by
    intro r hr
    have := (List.mem_zipIdx hr).2.1
    exact relocLine_eq (by omega) r.1
  rw [relocsText, List.map_congr_left heq, ← List.flatMap_def]
  exact lines_flatMap fun r _ => isLine_relocString r.2 r.1

/-! ## Instructions and descriptors together -/

/-- The readable lines are read back as the instructions. -/
theorem insnsText_readback (insns : List BpfInsn) :
    (lines (insnsText insns)).map scanInsn.whole = insns.map some := by
  rw [lines_insnsText, List.map_map]
  exact List.map_congr_left fun insn _ => Scanner.whole_eq_some (scanInsn_append insn)

/-- So are the lines of the descriptors. -/
theorem relocsText_readback {relocs : List RelocDesc} (hlen : relocs.length < 2 ^ 31) :
    (lines (relocsText relocs)).map scanReloc.whole =
      relocs.zipIdx.map fun r => some (r.1.record r.2) := by
  rw [lines_relocsText hlen, List.map_map]
  exact List.map_congr_left fun r _ => Scanner.whole_eq_some (scanReloc_append r.2 r.1)

/-- Nothing is lost of the instructions, neither in their bytes nor in the readable lines,
    nor of the descriptors, whose lines fit their buffers. -/
theorem insns_relocs_readback (insns : List BpfInsn) (relocs : List RelocDesc)
    (hlen : relocs.length < 2 ^ 31) :
    (insnBytes insns).length = bpfInsnSz * insns.length ∧ readInsns (insnBytes insns) = insns ∧
      (∀ line ∈ lines (insnsText insns), IsLine line) ∧
      (lines (insnsText insns)).map scanInsn.whole = insns.map some ∧
      (∀ i reloc, relocs[i]? = some reloc →
        (relocName i).length < 32 ∧ (relocString i reloc).length < 128) ∧
      (∀ line ∈ lines (relocsText relocs), IsLine line) ∧
      (lines (relocsText relocs)).map scanReloc.whole =
        relocs.zipIdx.map fun r => some (r.1.record r.2) := by
  refine ⟨length_insnBytes insns, readInsns_insnBytes insns, ?_, insnsText_readback insns,
    fun i reloc hi => ?_, ?_, relocsText_readback hlen⟩
  · intro line hline
    rw [lines_insnsText] at hline
    obtain ⟨insn, -, rfl⟩ := List.mem_map.1 hline
    exact isLine_insnLine insn
  · obtain ⟨hlt, -⟩ := List.getElem?_eq_some_iff.1 hi
    have hi' : i < 2 ^ 31 := hlt.trans hlen
    exact ⟨(length_relocName_lt hi').trans (by omega), length_relocString_lt hi' reloc⟩
  · intro line hline
    rw [lines_relocsText hlen] at hline
    obtain ⟨r, -, rfl⟩ := List.mem_map.1 hline
    exact isLine_relocString r.2 r.1

/-- A negative offset and immediate, and a descriptor whose map index is negative. -/
theorem insns_relocs_readback_negative :
    (lines (insnsText [⟨lddwCode, 1, 2, -1, -5⟩])).map scanInsn.whole =
        [some ⟨lddwCode, 1, 2, -1, -5⟩] ∧
      (lines (relocsText [⟨reloCall, 3, -1, 8, false⟩])).map scanReloc.whole =
        [some ⟨0, reloCall, 3, -1, 8⟩] := by
  obtain ⟨-, -, -, hinsns, -, -, hrelocs⟩ := insns_relocs_readback [⟨lddwCode, 1, 2, -1, -5⟩]
    [⟨reloCall, 3, -1, 8, false⟩] (by simp)
  exact ⟨hinsns, hrelocs⟩

/-! ## Maps -/

/-- A line of the dump of the maps. -/
structure MapRecord where
  name : Bytes
  type : ℤ
  keySize : ℕ
  valueSize : ℕ
  maxEntries : ℕ
  fd : ℤ
  deriving DecidableEq, Repr

/-- What is dumped of a map. -/
def BpfMap.record (map : BpfMap) : MapRecord :=
  ⟨map.name, map.defn.type.toInt, map.defn.keySize.toNat, map.defn.valueSize.toNat,
    map.defn.maxEntries.toNat, map.fd⟩

/-- A line, before it is cut to its buffer. -/
def MapRecord.text (r : MapRecord) : Bytes :=
  r.name ++
    cstr " \x7b type = " ++ decimalInt r.type ++
    cstr ", key_size = " ++ decimal r.keySize ++
    cstr ", value_size = " ++ decimal r.valueSize ++
    cstr ", max_entries = " ++ decimal r.maxEntries ++
    cstr ", fd = " ++ decimalInt r.fd ++ cstr " \x7d\n"

/-- A line is the text of the map, cut to its buffer. -/
theorem mapLine_eq (map : BpfMap) : mapLine map = snprintf 128 map.record.text := rfl

/-- The format of a line, after a name without blanks. -/
def scanMap : Scanner MapRecord := do
  let name ← word 0x20
  lit (cstr " \x7b type = ")
  let type ← int
  lit (cstr ", key_size = ")
  let keySize ← nat
  lit (cstr ", value_size = ")
  let valueSize ← nat
  lit (cstr ", max_entries = ")
  let maxEntries ← nat
  lit (cstr ", fd = ")
  let fd ← int
  lit (cstr " \x7d\n")
  return ⟨name, type, keySize, valueSize, maxEntries, fd⟩

theorem scanMap_append {r : MapRecord} (hname : (0x20 : Byte) ∉ r.name) (t : Bytes) :
    scanMap (r.text ++ t) = some (r, t) := by
  obtain ⟨name, type, keySize, valueSize, maxEntries, fd⟩ := r
  rw [MapRecord.text]
  simp only [List.append_assoc]
  have hopen (t : Bytes) : cstr " \x7b type = " ++ t = 0x20 :: (cstr "\x7b type = " ++ t) := rfl
  rw [scanMap, hopen, run_bind (word_append hname _), ← hopen, run_bind (lit_append _ _),
    run_int_lit _ (by decide), run_nat_lit _ (by decide), run_nat_lit _ (by decide),
    run_nat_lit _ (by decide), run_int_lit _ (by decide)]
  rfl

/-- A record is read off a text that is at least as long as its own. -/
theorem costs_scanMap : Costs scanMap fun r => r.text.length := by
  refine (costs_word _).bind fun name => (costs_lit _).bind fun _ => costs_int.bind fun type => ?_
  refine (costs_lit _).bind fun _ => costs_nat.bind fun keySize => (costs_lit _).bind fun _ => ?_
  refine costs_nat.bind fun valueSize => (costs_lit _).bind fun _ => costs_nat.bind fun maxes => ?_
  refine (costs_lit _).bind fun _ => costs_int.bind fun fd => (costs_lit _).bind fun _ => ?_
  refine costs_pure _ ?_
  simp only [MapRecord.text, List.length_append]
  omega

theorem isLine_text {r : MapRecord} (hname : (0x0a : Byte) ∉ r.name) : IsLine r.text := by
  refine .append ?_ ⟨cstr " \x7d", by decide, rfl⟩
  have htype : (0x0a : Byte) ∉ cstr " \x7b type = " := by decide
  have hkey : (0x0a : Byte) ∉ cstr ", key_size = " := by decide
  have hvalue : (0x0a : Byte) ∉ cstr ", value_size = " := by decide
  have hmax : (0x0a : Byte) ∉ cstr ", max_entries = " := by decide
  have hfd : (0x0a : Byte) ∉ cstr ", fd = " := by decide
  simp only [List.mem_append, newline_not_mem_decimal, newline_not_mem_decimalInt, hname, htype,
    hkey, hvalue, hmax, hfd, or_self, not_false_iff]

/-- White space. -/
def IsSpace (b : Byte) : Prop := b = 0x20 ∨ 0x09 ≤ b ∧ b ≤ 0x0d

instance : DecidablePred IsSpace := fun _ => inferInstanceAs (Decidable (_ ∨ _))

/-- The name has no white space and no braces. -/
def IsPlainName (name : Bytes) : Prop := ∀ b ∈ name, ¬IsSpace b ∧ b ≠ 0x7b ∧ b ≠ 0x7d

instance : DecidablePred IsPlainName := fun name =>
  inferInstanceAs (Decidable (∀ b ∈ name, _))

/-- The dump has one line for each map, which reads as what is dumped of it. -/
structure MapsReadback (maps : List BpfMap) : Prop where
  isLine : ∀ line ∈ lines (mapsText maps), IsLine line
  read : (lines (mapsText maps)).map scanMap.whole = maps.map fun map => some map.record

/-- If each line reads as the record of its map, none has been cut. -/
theorem length_text_lt_of_read {maps : List BpfMap}
    (h : (lines (mapsText maps)).map scanMap.whole = maps.map fun map => some map.record) :
    ∀ map ∈ maps, map.record.text.length < 128 := by
  intro map hmap
  by_contra hlen
  -- The lines are as long together as the texts that they read as, and so are the texts cut.
  have hlines : (maps.map fun map => map.record.text.length).sum ≤
      ((lines (mapsText maps)).map List.length).sum := by
    have hread : List.Forall₂ (· = ·) ((lines (mapsText maps)).map scanMap.whole)
        (maps.map fun map => some map.record) := List.forall₂_eq_eq_eq ▸ h
    rw [List.forall₂_map_left_iff, List.forall₂_map_right_iff] at hread
    refine List.Forall₂.sum_le_sum ?_
    rw [List.forall₂_map_left_iff, List.forall₂_map_right_iff]
    exact hread.flip.imp fun map line hline => costs_scanMap.whole hline
  have hcut : ((lines (mapsText maps)).map List.length).sum =
      (maps.map fun map => (mapLine map).length).sum := by
    rw [← List.length_flatten, flatten_lines, mapsText, List.length_flatMap]
  have hlt : (maps.map fun map => (mapLine map).length).sum <
      (maps.map fun map => map.record.text.length).sum := by
    refine List.sum_lt_sum _ _ (fun m _ => ?_) ⟨map, hmap, ?_⟩
    · rw [mapLine_eq]
      exact List.length_take_le' _ _
    · rw [mapLine_eq, snprintf, List.length_take]
      omega
  omega

/-- Lines that fit the buffer are read back. -/
theorem mapsReadback_of_lt {maps : List BpfMap} (hnames : ∀ map ∈ maps, IsPlainName map.name)
    (hlen : ∀ map ∈ maps, map.record.text.length < 128) : MapsReadback maps := by
  have hname {b : Byte} (hb : IsSpace b) : ∀ map ∈ maps, b ∉ map.record.name := fun map hmap h =>
    (hnames map hmap b h).1 hb
  have hline : ∀ map ∈ maps, mapLine map = map.record.text := fun map hmap =>
    snprintf_of_lt (hlen map hmap)
  have hlines : lines (mapsText maps) = maps.map fun map => map.record.text := by
    rw [mapsText, List.flatMap_def, List.map_congr_left hline, ← List.flatMap_def]
    exact lines_flatMap fun map hmap => isLine_text (hname (.inr (by decide)) map hmap)
  constructor
  · intro line h
    rw [hlines] at h
    obtain ⟨map, hmap, rfl⟩ := List.mem_map.1 h
    exact isLine_text (hname (.inr (by decide)) map hmap)
  · rw [hlines, List.map_map]
    exact List.map_congr_left fun map hmap =>
      Scanner.whole_eq_some (scanMap_append (hname (.inl rfl) map hmap))

/-- Nothing is lost of the maps if and only if their lines fit the buffer. -/
theorem mapsReadback_iff {maps : List BpfMap} (hnames : ∀ map ∈ maps, IsPlainName map.name) :
    MapsReadback maps ↔ ∀ map ∈ maps, map.record.text.length < 128 :=
  ⟨fun h => length_text_lt_of_read h.read, mapsReadback_of_lt hnames⟩

/-- A map with the given name. -/
def arrayMap (name : Bytes) : BpfMap := ⟨name, 0, 4, 0, ⟨2, 4, 8, 1, 0⟩, .unspec, none⟩

theorem mapsReadback_counts : MapsReadback [arrayMap (cstr "counts"), arrayMap (cstr "totals")] :=
  (mapsReadback_iff (by decide)).2 (by decide)

/-- The line of a map whose name has 64 characters loses its end. -/
theorem not_mapsReadback :
    ¬∀ maps : List BpfMap, (∀ map ∈ maps, IsPlainName map.name) → MapsReadback maps := by
  intro h
  have hname : ∀ map ∈ [arrayMap (List.replicate 64 0x61)], IsPlainName map.name := by
    intro map hmap b hb
    rw [List.mem_singleton.1 hmap] at hb
    obtain ⟨-, rfl⟩ := List.mem_replicate.1 hb
    decide
  exact absurd (length_text_lt_of_read (h _ hname).read _ List.mem_cons_self)
    (by decide +kernel)

end BpfElfTools.Extractor
