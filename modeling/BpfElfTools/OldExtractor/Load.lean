import BpfElfTools.Extractor.Maps

/-!
# The old extractor

The tool that the extractor replaced reads the object in passes over its
sections: one that finds the maps and the symbols, one over the relocation
entries, rewriting the instructions they are for, until the program asked for
has been relocated, and, if there is none, one over the sections of a second
reading of the file, in which a program without maps is looked for.

* `loadElfMapsSection`, `loadMaps`: the maps of the object;
* `parseReloAndApply`: the entries of a section, applied;
* `getProg`, `loadProgWithoutMaps`: the two searches for the program.

The passes share tables of a fixed size (`processedSec`, the maps). What C does
not define (an access out of bounds, a division by zero, a value never assigned)
is a `Fault`.
-/

namespace BpfElfTools.OldExtractor

open Extractor (toInt le32)

/-- What ends the tool other than returning: a failed assertion, or behaviour that C leaves
    undefined. -/
inductive Fault
  | assertFailed
  | outOfBounds
  | nullPointer
  | divByZero
  | uninit
  deriving DecidableEq, Repr

/-! ## Sections -/

/-- A section as `get_sec` shows it. -/
structure Sec where
  shname : Bytes
  shdr : GElfShdr
  data : ElfData

/-- `get_sec`, which gives nothing for a section without a name, contents or data. -/
def getSec (elf : Elf) (i : ℕ) : Option Sec :=
  elf.scns[i]?.bind fun scn =>
    scn.shdr.name.bind fun shname =>
      if scn.shdr.size = 0 then none else scn.data.map fun data => ⟨shname, scn.shdr, data⟩

/-- `ehdr.e_shnum`, which is zero when there are too many sections for it. -/
def shnum (elf : Elf) : ℕ := if elf.scns.length < shnLoreserve then elf.scns.length else 0

/-- The indices of the loops over the sections. -/
def secIdxs (elf : Elf) : List ℕ := List.range' 1 (shnum elf - 1)

/-- Whether the name of a section starts with the word `s` (`memcmp` over the length of `s`). All
    of these bytes may be read, so that the table of the names must have them. -/
def memcmpName (sec : Sec) (s : Bytes) : Except Fault Bool :=
  if sec.shdr.nameRoom < s.length then .error .outOfBounds else .ok (s <+: sec.shname)

/-- Whether it starts with one of the words, which are compared in order. -/
def memcmpNames (sec : Sec) : List Bytes → Except Fault Bool
  | [] => .ok false
  | s :: ss => memcmpName sec s >>= fun eq => if eq then .ok true else memcmpNames sec ss

/-- The length of `processed_sec`. -/
def maxSecs : ℕ := 128

/-- The length of `license`. -/
def maxLicense : ℕ := 128

/-- `MAX_MAPS`. -/
def maxMaps : ℕ := 32

/-! ## Maps -/

/-- `struct bpf_load_map_def`. -/
structure BpfLoadMapDef where
  type : BitVec 32
  keySize : BitVec 32
  valueSize : BitVec 32
  maxEntries : BitVec 32
  mapFlags : BitVec 32
  innerMapIdx : BitVec 32
  numaNode : BitVec 32
  deriving DecidableEq, Repr

/-- `sizeof(struct bpf_load_map_def)`. -/
def sizeofBpfLoadMapDef : ℕ := 28

/-- `struct bpf_load_map_def` with the bytes `b` copied over the start of zeros. -/
def BpfLoadMapDef.ofBytes (b : Bytes) : BpfLoadMapDef where
  type := le32 b 0
  keySize := le32 b 4
  valueSize := le32 b 8
  maxEntries := le32 b 12
  mapFlags := le32 b 16
  innerMapIdx := le32 b 20
  numaNode := le32 b 24

/-- `struct bpf_map_data`. -/
structure BpfMapData where
  fd : ℤ
  name : Bytes
  elfOffset : ℕ
  defn : BpfLoadMapDef
  deriving DecidableEq, Repr

/-- `cmp_symbols`. -/
def cmpSymbols (l r : GElfSym) : ℤ :=
  if l.value < r.value then -1 else if l.value > r.value then 1 else 0

/-- The body of the loop that collects the symbols of the section `maps`. -/
def collectSym (symbols : ElfData) (mapsShndx : ℕ) (sym : List GElfSym) (i : ℕ) :
    Except Fault (List GElfSym) :=
  if sym.length < maxMaps + 1 then
    match symbols.syms[i]? with
    | none => .ok sym
    | some s => .ok (if s.shndx = mapsShndx then sym ++ [s] else sym)
  else .error .assertFailed

/-- How many bytes of the definitions are copied (`map_sz_copy`), for definitions of
    `mapSzElf` bytes. -/
def mapSzCopy (mapSzElf : ℤ) : ℤ := min mapSzElf sizeofBpfLoadMapDef

/-- A definition that goes on beyond what is known of it must be zero there: the outcome of
    the loop over these bytes. -/
def validateZero (b : Bytes) (offset : ℕ) (mapSzElf : ℤ) : Except Fault Bool :=
  let rest := (b.drop (offset + sizeofBpfLoadMapDef)).take (mapSzElf - sizeofBpfLoadMapDef).toNat
  if rest.any (· ≠ 0) then .ok false
  -- All the bytes before the end of the data are zero.
  else if (b.length : ℤ) < offset + mapSzElf then .error .outOfBounds
  else .ok true

/-- The body of the loop that copies the definitions, for the map `i`: the record of the
    map, unless it asks for features that are not known. -/
def copyMap (data : ElfData) (mapSzElf : ℤ) (i : ℕ) (sym : GElfSym) :
    Except Fault (Option BpfMapData) :=
  match sym.name with
  | none => .error .nullPointer
  | some mapName =>
    if maxMaps ≤ i then .error .outOfBounds
    else
      match data.buf with
      | none => .error .nullPointer
      | some b =>
        -- A negative size is a large one when it is that of a copy.
        if mapSzElf < 0 ∨ (b.length : ℤ) < sym.value + mapSzCopy mapSzElf then
          .error .outOfBounds
        else
          let map : BpfMapData :=
            { fd := -1
              name := mapName
              elfOffset := sym.value
              defn := .ofBytes ((b.drop sym.value).take (mapSzCopy mapSzElf).toNat) }
          if mapSzElf > sizeofBpfLoadMapDef then
            (validateZero b sym.value mapSzElf).map fun valid => if valid then some map else none
          else .ok (some map)

/-- The loop that copies the definitions, from the map `i` on. -/
def copyMaps (data : ElfData) (mapSzElf : ℤ) (i : ℕ) :
    List GElfSym → Except Fault (Option (List BpfMapData))
  | [] => .ok (some [])
  | sym :: syms =>
    copyMap data mapSzElf i sym >>= fun map? =>
      match map? with
      | none => .ok none
      | some map => (copyMaps data mapSzElf (i + 1) syms).map fun maps? => maps?.map (map :: ·)

/-- `load_elf_maps_section`: the records of the maps, or nothing if it fails. -/
def loadElfMapsSection (elf : Elf) (mapsShndx : ℕ) (symbols : ElfData) :
    Except Fault (Option (List BpfMapData)) :=
  match elf.secData mapsShndx with
  | none => .ok none
  | some dataMaps =>
    (List.range (symbols.size / sizeofGElfSym)).foldlM (collectSym symbols mapsShndx) [] >>=
      fun sym =>
        if sym.length = 0 then .error .divByZero
        else copyMaps dataMaps (toInt (dataMaps.size / sym.length)) 0 (Sorting.sort cmpSymbols sym)

/-- `load_maps`, without a callback: the maps get descriptors from the counter `MAP_FD` on,
    unless it is negative. -/
def loadMaps (mapFd : ℤ) : List BpfMapData → Option (List BpfMapData)
  | [] => some []
  | map :: maps =>
    if mapFd < 0 then none else (loadMaps (mapFd + 1) maps).map ({ map with fd := mapFd } :: ·)

/-! ## Relocations -/

/-- The body of the loop of `parse_relo_and_apply`, for the entry `i`: whether it has been
    applied, and the instructions then. -/
def applyEntry (data symbols : ElfData) (maps : List BpfMapData) (insns : List BpfInsn) (i : ℕ) :
    Except Fault (Bool × List BpfInsn) :=
  match data.rels[i]? with
  | none => .error .uninit
  | some rel =>
    let insnIdx := rel.offset / bpfInsnSz % 2 ^ 32
    match insns[insnIdx]? with
    | none => .error .outOfBounds
    | some insn =>
      if insn.code ≠ lddwCode then .ok (false, insns)
      else
        let insn' := { insn with srcReg := bpfPseudoMapFd }
        -- Without maps the symbol is not looked at.
        if maps = [] then .ok (false, insns.set insnIdx insn')
        else
          match symbols.syms[rel.sym]? with
          | none => .error .uninit
          | some sym =>
            match maps.find? fun map => map.elfOffset = sym.value with
            | some map =>
              .ok (true, insns.set insnIdx { insn' with imm := BitVec.ofInt 32 map.fd })
            | none => .ok (false, insns.set insnIdx insn')

/-- The loop of `parse_relo_and_apply`, over the entries `is`. -/
def applyEntries (data symbols : ElfData) (maps : List BpfMapData) :
    List ℕ → List BpfInsn → Except Fault (Bool × List BpfInsn)
  | [], insns => .ok (true, insns)
  | i :: is, insns =>
    applyEntry data symbols maps insns i >>= fun res =>
      if res.1 then applyEntries data symbols maps is res.2 else .ok res

/-- The number of entries of a section (`nrels`), as a bound of an `int`. -/
def nrels (shdr : GElfShdr) : ℕ := (toInt (shdr.size / shdr.entsize)).toNat

/-- `parse_relo_and_apply`: whether it returns zero, and the instructions then. -/
def parseReloAndApply (data symbols : ElfData) (shdr : GElfShdr) (insns : List BpfInsn)
    (maps : List BpfMapData) : Except Fault (Bool × List BpfInsn) :=
  if shdr.entsize = 0 then .error .divByZero
  else applyEntries data symbols maps (List.range (nrels shdr)) insns

/-! ## The search for a program with relocations -/

/-- What the first pass finds: the table `processed_sec`, the section `maps` and the symbols. -/
structure Scan where
  processedSec : ℕ → Bool
  mapsShndx : Option ℕ
  symbols : Option ElfData

/-- Why a pass ends early: a fault, or `get_prog` returning 1 with the table `processed_sec`
    as it is. -/
inductive Stop
  | fault (f : Fault)
  | fail (processedSec : ℕ → Bool)

/-- `processed_sec[i] = true`. -/
def setProcessed (processedSec : ℕ → Bool) (i : ℕ) : Except Stop (ℕ → Bool) :=
  if i < maxSecs then .ok (Function.update processedSec i true) else .error (.fault .outOfBounds)

/-- The body of the first loop of `get_prog`. -/
def scanSec (elf : Elf) (scan : Scan) (i : ℕ) : Except Stop Scan :=
  match getSec elf i with
  | none => .ok scan
  | some sec =>
    if sec.shname = cstr "license" then
      setProcessed scan.processedSec i >>= fun processedSec =>
        if sec.data.buf = none then .error (.fault .nullPointer)
        else if maxLicense < sec.data.size then .error (.fault .outOfBounds)
        else .ok { scan with processedSec := processedSec }
    else if sec.shname = cstr "version" then
      setProcessed scan.processedSec i >>= fun processedSec =>
        if sec.data.size ≠ 4 then .error (.fail processedSec)
        else if sec.data.buf = none then .error (.fault .nullPointer)
        else .ok { scan with processedSec := processedSec }
    else if sec.shname = cstr "maps" then .ok { scan with mapsShndx := some i }
    else if sec.shdr.type = shtSymtab then .ok { scan with symbols := some sec.data }
    else .ok scan

/-- The first loop of `get_prog`. -/
def scanSecs (elf : Elf) : Except Stop Scan :=
  (secIdxs elf).foldlM (scanSec elf) ⟨fun _ => false, none, none⟩

/-- The section is one of instructions. -/
def IsProgSec (shdr : GElfShdr) : Prop := shdr.type = shtProgbits ∧ shdr.execinstr = true

instance (shdr : GElfShdr) : Decidable (IsProgSec shdr) := inferInstanceAs (Decidable (_ ∧ _))

/-- What the second pass changes: the table `processed_sec`, and the instructions in the
    data of the sections. -/
structure Relocation where
  processedSec : ℕ → Bool
  insns : ℕ → Option (List BpfInsn)

/-- The section `i` has been processed, which has left the given instructions in the data of the
    section `target`. -/
def Relocation.apply (r : Relocation) (i target : ℕ) (insns : List BpfInsn) : Relocation where
  processedSec := Function.update r.processedSec i true
  insns := Function.update r.insns target ((r.insns target).map fun _ => insns)

/-- The instructions of the sections, as read from the file. -/
def fileInsns (elf : Elf) (i : ℕ) : Option (List BpfInsn) :=
  ((elf.secData i).bind (·.buf)).map readInsns

/-- `*prog_insns` (which is `NULL` for a section without data in the file) and `*prog_len`. -/
structure Prog where
  insns : Option (List BpfInsn)
  len : ℕ
  deriving DecidableEq, Repr

/-- The body of the second loop of `get_prog`, giving the program if it is found. -/
def relocateSec (elf : Elf) (symbols : ElfData) (maps : List BpfMapData) (progname : Bytes)
    (r : Relocation) (i : ℕ) : Except Fault (Relocation × Option Prog) :=
  if maxSecs ≤ i then .error .outOfBounds
  else if r.processedSec i then .ok (r, none)
  else
    match getSec elf i with
    | none => .ok (r, none)
    | some sec =>
      if sec.shdr.type ≠ shtRel then .ok (r, none)
      else
        match getSec elf sec.shdr.info with
        | none => .ok (r, none)
        | some prog =>
          if ¬IsProgSec prog.shdr then .ok (r, none)
          else
            parseReloAndApply sec.data symbols sec.shdr ((r.insns sec.shdr.info).getD []) maps >>=
              fun res =>
                let r' := r.apply i sec.shdr.info res.2
                if res.1 then
                  (memcmpName prog progname).map fun eq => (r', if eq then
                    some { insns := r'.insns sec.shdr.info, len := prog.data.size } else none)
                else .ok (r', none)

/-- The second loop of `get_prog`. -/
def relocateSecs (elf : Elf) (symbols : ElfData) (maps : List BpfMapData) (progname : Bytes) :
    List ℕ → Relocation → Except Fault (Relocation × Option Prog)
  | [], r => .ok (r, none)
  | i :: is, r =>
    relocateSec elf symbols maps progname r i >>= fun res =>
      if res.2.isSome then .ok res else relocateSecs elf symbols maps progname is res.1

/-- The names of programs that the third loop of `get_prog` looks for. -/
def progPrefixes : List Bytes :=
  [cstr "kprobe/", cstr "kretprobe/", cstr "tracepoint/", cstr "raw_tracepoint/", cstr "xdp",
    cstr "perf_event", cstr "socket", cstr "cgroup/", cstr "sockops", cstr "sk_skb", cstr "sk_msg"]

/-- The third loop of `get_prog`, which ends at the first program and does nothing else. -/
def findPrograms (elf : Elf) (processedSec : ℕ → Bool) : List ℕ → Except Fault Unit
  | [] => .ok ()
  | i :: is =>
    if maxSecs ≤ i then .error .outOfBounds
    else if processedSec i then findPrograms elf processedSec is
    else
      match getSec elf i with
      | none => findPrograms elf processedSec is
      | some sec =>
        memcmpNames sec progPrefixes >>= fun eq =>
          if eq then .ok () else findPrograms elf processedSec is

/-- What `get_prog` leaves: the program (if it returns zero), the maps (`*t_map_data` and
    `*t_nr_maps`, if they have been set), and the table `processed_sec`. -/
structure GetProg where
  prog : Option Prog
  maps : Option (List BpfMapData)
  processedSec : ℕ → Bool

/-- The maps of the object, for the descriptors from `mapFd` on: none if there is no section
    of maps, nothing at all if they cannot be loaded. -/
def getMaps (elf : Elf) (mapFd : ℤ) (scan : Scan) (symbols : ElfData) :
    Except Fault (Option (Option (List BpfMapData))) :=
  match scan.mapsShndx with
  | none => .ok (some none)
  | some mapsShndx =>
    loadElfMapsSection elf mapsShndx symbols >>= fun maps? =>
      match maps?.bind (loadMaps mapFd) with
      | none => .ok none
      | some maps => if mapsShndx < maxSecs then .ok (some (some maps)) else .error .outOfBounds

/-- The table `processed_sec` once the maps have been loaded. -/
def Scan.mapsProcessed (scan : Scan) : ℕ → Bool :=
  scan.mapsShndx.elim scan.processedSec fun i => Function.update scan.processedSec i true

/-- `get_prog`, from the point on where the maps have been loaded. -/
def relocateProg (elf : Elf) (progname : Bytes) (scan : Scan) (symbols : ElfData)
    (maps : Option (List BpfMapData)) : Except Fault GetProg :=
  relocateSecs elf symbols (maps.getD []) progname (secIdxs elf)
      ⟨scan.mapsProcessed, fileInsns elf⟩ >>= fun res =>
    if res.2.isSome then .ok ⟨res.2, maps, res.1.processedSec⟩
    else (findPrograms elf res.1.processedSec (secIdxs elf)).map fun _ =>
      ⟨none, maps, res.1.processedSec⟩

/-- `get_prog`, from the point on where the first pass is over. -/
def getProgFrom (elf : Elf) (mapFd : ℤ) (progname : Bytes) (scan : Scan) :
    Except Fault GetProg :=
  match scan.symbols with
  | none => .ok ⟨none, none, scan.processedSec⟩
  | some symbols =>
    getMaps elf mapFd scan symbols >>= fun maps? =>
      match maps? with
      | none => .ok ⟨none, none, scan.processedSec⟩
      | some maps => relocateProg elf progname scan symbols maps

/-- `get_prog`, on a file that can be opened and has a header, for the program `progname`, but for
    the call of `write_kprobe_events`. -/
def getProg (elf : Elf) (mapFd : ℤ) (progname : Bytes) : Except Fault GetProg :=
  match scanSecs elf with
  | .error (.fault f) => .error f
  | .error (.fail processedSec) => .ok ⟨none, none, processedSec⟩
  | .ok scan => getProgFrom elf mapFd progname scan

/-! ## The search for a program without maps -/

/-- The loop of `load_prog_without_maps`. -/
def findWithoutMaps (elf : Elf) (processedSec : ℕ → Bool) (progname : Bytes) :
    List ℕ → Except Fault (Option Prog)
  | [] => .ok none
  | i :: is =>
    if maxSecs ≤ i then .error .outOfBounds
    else if processedSec i then findWithoutMaps elf processedSec progname is
    else
      match getSec elf i with
      | none => findWithoutMaps elf processedSec progname is
      | some sec =>
        memcmpName sec progname >>= fun eq =>
          if eq then .ok (some { insns := sec.data.buf.map readInsns, len := sec.data.size })
          else findWithoutMaps elf processedSec progname is

/-- `load_prog_without_maps`, on a file that can be opened. -/
def loadProgWithoutMaps (elf : Elf) (processedSec : ℕ → Bool) (progname : Bytes) :
    Except Fault (Option Prog) :=
  findWithoutMaps elf processedSec progname (secIdxs elf)

end BpfElfTools.OldExtractor
