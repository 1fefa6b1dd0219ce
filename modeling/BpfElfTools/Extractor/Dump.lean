import BpfElfTools.Extractor.Open
import BpfElfTools.Extractor.Relocate
import BpfElfTools.Lib.Store
import BpfElfTools.Lib.Text

/-!
# Dumping an object

`extract` opens an object, numbers its maps, relocates its programs and writes,
for each, the instructions (in binary and as text), the descriptors and the maps,
to files named after the section of the program.
-/

namespace BpfElfTools.Extractor

open Text

/-! ## Names -/

/-- The slashes of a name become dashes. -/
def dashes (name : Bytes) : Bytes := name.map fun b => if b = 0x2f then 0x2d else b

/-- `fix_progname`. The buffers have 128 bytes. -/
def fixProgname (progname : Bytes) : Except Err Bytes :=
  if 128 ≤ progname.length then .error .fault else .ok (dashes progname)

/-- `snprintf` to a buffer of `n` bytes, the last of which is for the NUL. -/
def snprintf (n : ℕ) (s : Bytes) : Bytes := s.take (n - 1)

/-- The name of the file of a program with the extension `ext`. -/
def outputFile (fixedName : Bytes) (ext : String) : Bytes := snprintf 128 (fixedName ++ cstr ext)

/-! ## Texts -/

/-- The line of an instruction in the readable dump. -/
def insnLine (insn : BpfInsn) : Bytes :=
  cstr "\x7b" ++ decimal insn.code.toNat ++ cstr " " ++ decimal insn.srcReg.toNat ++ cstr " " ++
    decimal insn.dstReg.toNat ++ cstr " " ++ decimalInt insn.off.toInt ++ cstr " " ++
    decimalInt insn.imm.toInt ++ cstr "\x7d\n"

/-- The line of the descriptor number `i`. -/
def relocLine (i : ℕ) (reloc : RelocDesc) : Bytes :=
  snprintf 128 (snprintf 32 (cstr "reloc_" ++ decimal i) ++
    cstr " \x7b type = " ++ decimalInt reloc.type.toInt ++
    cstr ", insn_idx = " ++ decimal reloc.insnIdx.toNat ++
    cstr ", map_idx = " ++ decimal reloc.mapIdx.toNat ++
    cstr ", sym_off = " ++ decimal reloc.symOff.toNat ++ cstr " \x7d\n")

/-- The line of a map. -/
def mapLine (map : BpfMap) : Bytes :=
  snprintf 128 (map.name ++
    cstr " \x7b type = " ++ decimalInt map.defn.type.toInt ++
    cstr ", key_size = " ++ decimal map.defn.keySize.toNat ++
    cstr ", value_size = " ++ decimal map.defn.valueSize.toNat ++
    cstr ", max_entries = " ++ decimal map.defn.maxEntries.toNat ++
    cstr ", fd = " ++ decimalInt map.fd ++ cstr " \x7d\n")

/-- The readable dump of the instructions. -/
def insnsText (insns : List BpfInsn) : Bytes := insns.flatMap insnLine

/-- The dump of the descriptors. -/
def relocsText (relocs : List RelocDesc) : Bytes :=
  (relocs.zipIdx.map fun r => relocLine r.2 r.1).flatten

/-- The dump of the maps. -/
def mapsText (maps : List BpfMap) : Bytes := maps.flatMap mapLine

/-! ## Files -/

/-- The files of a directory. -/
abbrev Dir := Store Bytes Byte

/-- `write_insns`, for the first `numInsns` instructions (an `int`). -/
def writeInsns (outputName : Bytes) (numInsns : ℤ) (insns : List BpfInsn) (dir : Dir) :
    Except Err Dir := do
  let fixedName ← fixProgname outputName
  let insns := insns.take numInsns.toNat
  return Store.dump [(outputFile fixedName ".insns", insnBytes insns),
    (outputFile fixedName ".txt", insnsText insns)] dir

/-- `write_maps`. -/
def writeMaps (outputName : Bytes) (maps : List BpfMap) (dir : Dir) : Except Err Dir := do
  let fixedName ← fixProgname outputName
  return Store.dump [(outputFile fixedName ".maps", mapsText maps)] dir

/-- `write_relocs`. -/
def writeRelocs (outputName : Bytes) (relocs : List RelocDesc) (dir : Dir) : Except Err Dir := do
  let fixedName ← fixProgname outputName
  return Store.dump [(outputFile fixedName ".rel", relocsText relocs)] dir

/-! ## Extracting -/

/-- The loop of `extract` that numbers the maps. -/
def BpfObject.setFds (obj : BpfObject) : BpfObject :=
  { obj with maps := obj.maps.mapIdx fun i map => { map with fd := i } }

/-- The body of the last loop of `extract`. The error that relocating a program returns is
    ignored. -/
def extractProg (obj : BpfObject) (dir : Dir) (prog : BpfProgram) : Except Err Dir := do
  let (prog, _) ← relocateData obj prog
  let dir ← writeInsns prog.secName (toInt prog.secInsnCnt) prog.insns dir
  let dir ← writeRelocs prog.secName prog.relocDesc dir
  writeMaps prog.secName obj.maps dir

/-- `extract`, from the opened object on. The error that collecting the relocations again
    returns is ignored, but there is none (`BpfObject.collectRelos_again`). -/
def extractObject (heap : Heap) (obj : BpfObject) (dir : Dir) : Except Err Dir := do
  let obj ← obj.setFds.collectRelos heap
  obj.programs.foldlM (extractProg obj) dir

/-- `extract`: what it returns, and the files then. -/
def extract (btfNew : Bytes → Except Err Btf) (heap : Heap) (path : Bytes) (elf : Elf)
    (dir : Dir) : Except Err (ℕ × Dir) :=
  match BpfObject.openFile btfNew heap path elf with
  | .error .fault => .error .fault
  | .error _ => .ok (1, dir)
  | .ok obj => do
    let dir ← extractObject heap obj dir
    return (0, dir)

/-- Numbering the maps and collecting the relocations of an opened object again changes
    nothing but the numbers. -/
theorem BpfObject.collectRelos_setFds {btfNew : Bytes → Except Err Btf} {heap : Heap} {path : Bytes}
    {elf : Elf} {obj : BpfObject} (hopen : BpfObject.openFile btfNew heap path elf = .ok obj)
    (heap' : Heap) : obj.setFds.collectRelos heap' = .ok obj.setFds := by
  obtain ⟨obj₁, ps, -, -, -, rfl⟩ := BpfObject.openFile_ok hopen
  have hsort : (ps.map BpfProgram.sortRelos).map BpfProgram.sortRelos =
      ps.map BpfProgram.sortRelos := by
    rw [List.map_map]
    exact List.map_congr_left fun q _ => q.sortRelos_sortRelos
  rw [BpfObject.collectRelos_again rfl]
  exact congrArg (fun programs => Except.ok
    { ({ obj₁ with programs := ps.map BpfProgram.sortRelos } : BpfObject).elfFinish.setFds with
      programs := programs }) hsort

/-- What `extract` does when it returns 0. -/
theorem extract_eq_ok {btfNew : Bytes → Except Err Btf} {heap : Heap} {path : Bytes} {elf : Elf}
    {dir dir' : Dir} (h : extract btfNew heap path elf dir = .ok (0, dir')) :
    ∃ obj, BpfObject.openFile btfNew heap path elf = .ok obj ∧
      obj.setFds.programs.foldlM (extractProg obj.setFds) dir = .ok dir' := by
  rw [extract] at h
  split at h
  · cases h
  · cases h
  rename_i obj hopen
  obtain ⟨dir₁, hextract, h⟩ := Fold.bind_eq_ok.1 h
  cases h
  refine ⟨obj, hopen, ?_⟩
  rw [extractObject, BpfObject.collectRelos_setFds hopen heap] at hextract
  exact hextract

end BpfElfTools.Extractor
