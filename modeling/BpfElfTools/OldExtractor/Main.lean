import BpfElfTools.Extractor.Readback
import BpfElfTools.Extractor.UserMaps
import BpfElfTools.OldExtractor.WellFormed

/-!
# The program of the old extractor

`main` looks for the program it is asked for, in the two ways there are, and
writes its instructions (in binary and as text) and the maps of the object to
files named after its last argument, whose slashes become dashes. For a program
of an object without maps it writes an empty file of maps, and returns 1.

* `mainElf`: `main` on an object, and the files then;
* `mainElf_origin`, `mainElf_section`: where the program that is written comes from;
* `mainElf_total`: `main` returns on a well-formed object;
* `mainElf_relocated_iff`: when the program that is written has been relocated;
* `mainElf_readback`: nothing is lost in the files.
-/

namespace BpfElfTools.OldExtractor

open Text
open Extractor (toInt dashes Dir MapRecord scanMap)

/-! ## Names -/

/-- `fix_progname`. The buffers have 50 bytes. -/
def fixProgname (progname : Bytes) : Except Fault Bytes :=
  if 50 ≤ progname.length then .error .outOfBounds else .ok (dashes progname)

/-- `prepend_ins_path` and `prepend_map_path`, which add an extension to a name. The buffer
    written to has 50 bytes. -/
def prependPath (ext : String) (progname : Bytes) : Except Fault Bytes :=
  let fullProgname := Extractor.snprintf 60 (progname ++ cstr ext)
  if 50 ≤ fullProgname.length then .error .outOfBounds else .ok fullProgname

/-! ## Texts -/

/-- The line of an instruction. -/
def insnLine (insn : BpfInsn) : Bytes :=
  cstr "\x7b" ++ decimal insn.code.toNat ++ cstr ", " ++ decimal insn.dstReg.toNat ++ cstr ", " ++
    decimal insn.srcReg.toNat ++ cstr ", " ++ decimalInt insn.off.toInt ++ cstr ", " ++
    decimalInt insn.imm.toInt ++ cstr "\x7d, \n"

/-- The text of the instructions. -/
def insnsText (insns : List BpfInsn) : Bytes := insns.flatMap insnLine

/-- What is written of a map. -/
def BpfMapData.record (map : BpfMapData) : MapRecord :=
  ⟨map.name, map.defn.type.toInt, map.defn.keySize.toNat, map.defn.valueSize.toNat,
    map.defn.maxEntries.toNat, map.fd⟩

/-- The text of the maps. -/
def mapsText (maps : List BpfMapData) : Bytes := maps.flatMap fun map => map.record.text

/-! ## Files -/

/-- The instructions that the loops over `prog_len` bytes meet. The length is an `int`, which
    is a large one when it is divided if it is negative. -/
def progInsns (insns : List BpfInsn) (len : ℕ) : Except Fault (List BpfInsn) :=
  if toInt len < 0 then .error .outOfBounds
  else .ok (insns.take ((toInt len).toNat / bpfInsnSz))

/-- `write_insns`. -/
def writeInsns (insns : List BpfInsn) (progname fullProgname : Bytes) (dir : Dir) : Dir :=
  Store.dump [(fullProgname, insnBytes insns),
    (Extractor.snprintf 60 (progname ++ cstr ".txt"), insnsText insns)] dir

/-- `write_maps`. -/
def writeMaps (maps : List BpfMapData) (fullProgname : Bytes) (dir : Dir) : Dir :=
  Store.dump [(fullProgname, mapsText maps)] dir

/-- The part of `main` that writes the files, once a program has been looked for. -/
def writeFiles (prog : Option Prog) (maps : Option (List BpfMapData)) (outputName : Bytes)
    (dir : Dir) : Except Fault (ℕ × Dir) :=
  match prog.bind fun p => p.insns.map fun insns => (insns, p.len) with
  | none => .ok (1, dir)
  | some p =>
    progInsns p.1 p.2 >>= fun insns =>
      fixProgname outputName >>= fun fixedName =>
        prependPath ".insns" fixedName >>= fun insnsPath =>
          prependPath ".maps" fixedName >>= fun mapsPath =>
            .ok (if maps.isSome then 0 else 1,
              writeMaps (maps.getD []) mapsPath (writeInsns insns fixedName insnsPath dir))

/-- The file of the kprobes. -/
def kprobeEvents : Bytes := cstr "/sys/kernel/debug/tracing/kprobe_events"

/-- `write_kprobe_events`, which does not create the file: without a value it empties it, and it
    appends another value. A file that cannot be opened is as good as none. -/
def writeKprobeEvents (val : Bytes) (dir : Dir) : Dir :=
  match dir kprobeEvents with
  | none => dir
  | some b => Function.update dir kprobeEvents (some (if val = [] then [] else b ++ val))

/-- The program that `main` writes, and the maps. -/
def selectProg (elf : Elf) (progname : Bytes) :
    Except Fault (Option Prog × Option (List BpfMapData)) :=
  getProg elf 0 progname >>= fun g =>
    if g.prog.isSome then .ok (g.prog, g.maps)
    else (loadProgWithoutMaps elf g.processedSec progname).map fun prog => (prog, g.maps)

/-- `main`, on an object that can be opened: what it returns, and the files then. The kprobes are
    cleared (by `get_prog`) whatever program is looked for. -/
def mainElf (elf : Elf) (progname outputName : Bytes) (dir : Dir) : Except Fault (ℕ × Dir) :=
  selectProg elf progname >>= fun found =>
    writeFiles found.1 found.2 outputName (writeKprobeEvents [] dir)

/-- `main`, on a file that may not be an object, in which case both searches return 1. -/
def main (file : Option Elf) (progname outputName : Bytes) (dir : Dir) : Except Fault (ℕ × Dir) :=
  match file with
  | none => .ok (1, dir)
  | some elf => mainElf elf progname outputName dir

/-! ## Where the program comes from -/

/-- The program is one that `get_prog` has found: the target of the first section of entries that
    selects it. -/
def FoundRelocated (elf : Elf) (progname : Bytes) (maps : Option (List BpfMapData)) (p : Prog) :
    Prop :=
  ∃ scan symbols, scanSecs elf = .ok scan ∧ scan.symbols = some symbols ∧
    getMaps elf 0 scan symbols = .ok (some maps) ∧
    ∃ pre i post sec prog, secIdxs elf = pre ++ i :: post ∧
      (∀ j ∈ pre, ¬Selects elf symbols (maps.getD []) progname scan.mapsProcessed j) ∧
      Selects elf symbols (maps.getD []) progname scan.mapsProcessed i ∧
      relocates elf i = some (sec, prog) ∧
      Selected elf symbols (maps.getD []) (pre.filter (!scan.mapsProcessed ·)) sec prog p

/-- The program is one that the second search has found, as it is in the file. -/
structure FoundInFile (elf : Elf) (progname : Bytes) (maps : Option (List BpfMapData))
    (p : Prog) : Prop where
  /-- None of the sections of entries selects its target. -/
  notSelected : ∀ scan symbols maps', scanSecs elf = .ok scan → scan.symbols = some symbols →
    getMaps elf 0 scan symbols = .ok (some maps') → maps = maps' ∧
      ∀ i ∈ secIdxs elf, ¬Selects elf symbols (maps'.getD []) progname scan.mapsProcessed i
  /-- It is the first section of a matching name, other than those that are no programs. -/
  first : ∃ pre i post sec, secIdxs elf = pre ++ i :: post ∧
    (∀ j ∈ pre, ∀ sec', getSec elf j = some sec' → progname <+: sec'.shname →
      isInfo elf j = true ∨ isMaps elf j = true ∨ (relocates elf j).isSome) ∧
    getSec elf i = some sec ∧ progname <+: sec.shname ∧ p = ⟨fileInsns elf i, sec.data.size⟩

section

variable {elf : Elf} {progname : Bytes} {maps : Option (List BpfMapData)} {p : Prog}

/-- A program that is selected comes from the one search or from the other. -/
theorem selectProg_some (h : selectProg elf progname = .ok (some p, maps)) :
    FoundRelocated elf progname maps p ∨ FoundInFile elf progname maps p := by
  obtain ⟨g, hg, h⟩ := Fold.bind_eq_ok.1 h
  split at h
  · obtain ⟨hp, rfl⟩ := Prod.mk.inj (Except.ok.inj h)
    exact .inl (getProg_some hg hp)
  · rename_i hnone
    obtain ⟨p?, hfind, h⟩ := Fold.map_eq_ok.1 h
    obtain ⟨rfl, rfl⟩ := Prod.mk.inj h
    obtain ⟨hproc, hsel⟩ := getProg_none hg (Option.not_isSome_iff_eq_none.1 hnone)
    rcases findWithoutMaps_ok hfind with ⟨hp, -⟩ |
      ⟨pre, i, post, sec, hsplit, hpre, -, hsec, hname, hp⟩
    · cases hp
    refine .inr ⟨fun scan symbols maps' hscan hsymbols hmaps => ?_,
      pre, i, post, sec, hsplit, fun j hj sec' hsec' hname' => ?_, hsec, hname, Option.some.inj hp⟩
    · obtain ⟨heq, hall⟩ := hsel scan symbols maps' hscan hsymbols hmaps
      exact ⟨heq, fun k hk => (hall k hk).2⟩
    · refine hproc j (Bool.eq_true_of_not_eq_false fun hfalse => ?_)
      exact hpre j hj ⟨hfalse, sec', hsec', hname'⟩

/-- What is written is a section whose name starts with the one asked for, up to the registers and
    immediates that entries change. -/
theorem selectProg_section (h : selectProg elf progname = .ok (some p, maps)) :
    ∃ t sec, getSec elf t = some sec ∧ progname <+: sec.shname ∧ p.len = sec.data.size ∧
      p.insns.isSome = (fileInsns elf t).isSome ∧
      (p.insns.getD []).map frame = ((fileInsns elf t).getD []).map frame := by
  rcases selectProg_some h with ⟨scan, symbols, -, -, -, pre, i, post, sec, prog, -, -, hsel, hrel,
    hp⟩ | ⟨-, pre, i, post, sec, -, -, hsec, hname, rfl⟩
  · obtain ⟨-, sec', prog', hrel', -, hname⟩ := hsel
    obtain ⟨rfl, rfl⟩ := Prod.mk.inj (Option.some.inj (hrel.symm.trans hrel'))
    exact ⟨sec.shdr.info, prog, (relocates_eq_some.1 hrel).2.2.1, hname, hp.len, hp.isSome,
      hp.frame⟩
  · exact ⟨i, sec, hsec, hname, rfl, rfl, rfl⟩

/-- It is the section asked for, if only executable sections of instructions of that very name have
    such names. -/
theorem selectProg_named (h : selectProg elf progname = .ok (some p, maps))
    (hall : ∀ t sec, getSec elf t = some sec → progname <+: sec.shname →
      sec.shname = progname ∧ IsProgSec sec.shdr) :
    ∃ t sec, getSec elf t = some sec ∧ sec.shname = progname ∧ IsProgSec sec.shdr ∧
      p.len = sec.data.size ∧
      (p.insns.getD []).map frame = ((fileInsns elf t).getD []).map frame := by
  obtain ⟨t, sec, hsec, hname, hlen, -, hframe⟩ := selectProg_section h
  obtain ⟨heq, hexec⟩ := hall t sec hsec hname
  exact ⟨t, sec, hsec, heq, hexec, hlen, hframe⟩

end

/-! ## A program of a name of its own -/

/-- The section `t` is the program that the name stands for, and at most one section of entries
    is for it. -/
structure Unambiguous (elf : Elf) (progname : Bytes) (t : ℕ) (prog : Sec) : Prop where
  mem : t ∈ secIdxs elf
  sec : getSec elf t = some prog
  exec : IsProgSec prog.shdr
  name : progname <+: prog.shname
  unique : ∀ j < elf.scns.length, ∀ sec ∈ getSec elf j, progname <+: sec.shname → j = t
  notInfo : isInfo elf t = false
  notMaps : isMaps elf t = false
  target : ∀ i ∈ secIdxs elf, ∀ j ∈ secIdxs elf, target elf i = some t → target elf j = some t →
    i = j

section

variable {elf : Elf} {symbols : ElfData} {progname : Bytes} {t : ℕ} {prog : Sec}

/-- The section of the program is none of those that the second search passes over. -/
theorem Unambiguous.not_processed (ht : Unambiguous elf progname t prog) {processedSec : ℕ → Bool}
    (hproc : ∀ j, processedSec j = true →
      isInfo elf j = true ∨ isMaps elf j = true ∨ (relocates elf j).isSome) :
    processedSec t = false := by
  refine Bool.eq_false_of_not_eq_true fun htrue => ?_
  rcases hproc t htrue with hinfo | hmaps | hrel
  · exact Bool.false_ne_true (ht.notInfo.symm.trans hinfo)
  · exact Bool.false_ne_true (ht.notMaps.symm.trans hmaps)
  · -- A section of entries has another type than one of instructions.
    obtain ⟨⟨sec, prog'⟩, hrel⟩ := Option.isSome_iff_exists.1 hrel
    obtain ⟨hsec, htype, -⟩ := relocates_eq_some.1 hrel
    obtain rfl := Option.some.inj (ht.sec.symm.trans hsec)
    exact absurd (ht.exec.1.symm.trans htype) (by decide)

/-- The second search finds the program, as it is in the file. -/
theorem Unambiguous.eq_of_findWithoutMaps (ht : Unambiguous elf progname t prog)
    {processedSec : ℕ → Bool} {p? : Option Prog} (hproc : processedSec t = false)
    (hfind : findWithoutMaps elf processedSec progname (secIdxs elf) = .ok p?) :
    p? = some ⟨fileInsns elf t, prog.data.size⟩ := by
  rcases findWithoutMaps_ok hfind with ⟨-, hnot⟩ | ⟨pre, i, post, sec, -, -, -, hsec, hname, hp⟩
  · exact absurd ⟨hproc, prog, ht.sec, ht.name⟩ (hnot t ht.mem)
  · obtain rfl := ht.unique i (lt_of_getSec hsec) sec hsec hname
    obtain rfl := Option.some.inj (ht.sec.symm.trans hsec)
    exact hp

/-- The instructions of a program that no section gone over has entries for: the entries of the
    section that selects it have been applied to those of the file. -/
theorem insns_eq_of_selected {maps : List BpfMapData} {done : List ℕ} {sec : Sec} {p : Prog} {i : ℕ}
    (h : Selected elf symbols maps done sec prog p) (hrel : relocates elf i = some (sec, prog))
    (hdone : ∀ j ∈ done, target elf j ≠ some sec.shdr.info) :
    p.insns = (fileInsns elf sec.shdr.info).map (applied symbols maps (entries elf i)) := by
  have hget (k : ℕ) : (p.insns.getD [])[k]? =
      (applied symbols maps (entries elf i) ((fileInsns elf sec.shdr.info).getD []))[k]? := by
    rw [getElem?_applied, entries, hrel, Option.elim_some]
    rcases hlast : ((sec.data.rels.take (nrels sec.shdr)).filter (relIdx · = k)).getLast? with
      _ | rel
    · have hnil := List.getLast?_eq_none_iff.1 hlast
      rw [h.unchanged k (fun rel hmem hidx => ?_) fun j hj hj' => absurd hj' (hdone j hj)]
      · exact Option.map_id'.symm
      · exact List.filter_eq_nil_iff.1 hnil rel hmem (decide_eq_true hidx)
    · exact h.applied k rel hlast
  have hsome := h.isSome
  rcases hfile : fileInsns elf sec.shdr.info with _ | insns
  · rw [hfile] at hsome
    exact Option.not_isSome_iff_eq_none.1 (by rw [hsome]; exact Bool.false_ne_true)
  · rw [hfile] at hsome hget
    obtain ⟨insns', hinsns'⟩ := Option.isSome_iff_exists.1 hsome
    rw [hinsns'] at hget ⊢
    exact congrArg some (List.ext_getElem? hget)

/-- A program of a well-formed object is always found. If there is a section of entries for it that
    all apply, they have been applied. Otherwise the program is the one in the file, also if
    there are entries for it, and nothing tells the difference. -/
theorem selectProg_unambiguous (h : WellFormed elf symbols) (hroom : NamesComparable elf progname)
    (ht : Unambiguous elf progname t prog) :
    ∃ p scan maps, selectProg elf progname = .ok (some p, maps) ∧ scanSecs elf = .ok scan ∧
      getMaps elf 0 scan symbols = .ok (some maps) ∧ p.len = prog.data.size ∧
      (∀ i ∈ secIdxs elf, target elf i = some t →
        Selects elf symbols (maps.getD []) progname scan.mapsProcessed i →
        p.insns = (fileInsns elf t).map (applied symbols (maps.getD []) (entries elf i))) ∧
      ((∀ i ∈ secIdxs elf, target elf i = some t →
        ¬Selects elf symbols (maps.getD []) progname scan.mapsProcessed i) →
        p.insns = fileInsns elf t) := by
  obtain ⟨g, scan, maps, hg, hscan, hsymbols, hmaps, rfl⟩ := getProg_total h hroom le_rfl
  rcases hp : g.prog with _ | p
  · -- No section has selected its target, so that the second search finds the program.
    obtain ⟨hproc, hnone⟩ := getProg_none hg hp
    obtain ⟨-, hall⟩ := hnone scan symbols g.maps hscan hsymbols hmaps
    obtain ⟨p?, hfind⟩ := findWithoutMaps_total h hroom g.processedSec (List.Subset.refl _)
    have hp? := ht.eq_of_findWithoutMaps (ht.not_processed hproc) hfind
    refine ⟨⟨fileInsns elf t, prog.data.size⟩, scan, g.maps, ?_, hscan, hmaps, rfl, ?_,
      fun _ => rfl⟩
    · rw [selectProg, hg, Fold.ok_bind, hp, loadProgWithoutMaps, hfind, hp?]
      rfl
    · exact fun i hi _ hsel => absurd hsel (hall i hi).2
  · -- The first section that selects its target is the only one with entries for the program.
    obtain ⟨scan', symbols', hscan', hsymbols', -, pre, i, post, sec, prog', hsplit, -, hsel, hrel,
      hselected⟩ := getProg_some hg hp
    obtain rfl := Except.ok.inj (hscan.symm.trans hscan')
    obtain rfl := Option.some.inj (hsymbols.symm.trans hsymbols')
    obtain ⟨-, sec', prog'', hrel', -, hname⟩ := id hsel
    obtain ⟨rfl, rfl⟩ := Prod.mk.inj (Option.some.inj (hrel.symm.trans hrel'))
    have hprog := (relocates_eq_some.1 hrel).2.2.1
    obtain rfl := ht.unique _ (lt_of_getSec hprog) _ hprog hname
    obtain rfl := Option.some.inj (ht.sec.symm.trans hprog)
    have hi : i ∈ secIdxs elf := hsplit ▸ by simp
    have htarget : target elf i = some sec.shdr.info := by rw [target, hrel]; rfl
    have hpre : ∀ j ∈ pre, target elf j ≠ some sec.shdr.info := by
      intro j hj hj'
      have hnodup := hsplit ▸ nodup_secIdxs elf
      obtain rfl := ht.target j (hsplit ▸ List.mem_append_left _ hj) i hi hj' htarget
      exact (List.nodup_append.1 hnodup).2.2 j hj j List.mem_cons_self rfl
    refine ⟨p, scan, g.maps, ?_, hscan, hmaps, hselected.len, ?_, ?_⟩
    · rw [selectProg, hg, Fold.ok_bind, hp]
      rfl
    · intro j hj hj' _
      rw [ht.target j hj i hi hj' htarget]
      exact insns_eq_of_selected hselected hrel fun k hk => hpre k (List.mem_of_mem_filter hk)
    · exact fun hnone => absurd hsel (hnone i hi htarget)

end

/-! ## What is written -/

theorem fixProgname_eq_ok {progname fixedName : Bytes} :
    fixProgname progname = .ok fixedName ↔ progname.length < 50 ∧ fixedName = dashes progname := by
  rw [fixProgname]
  split
  · exact ⟨fun h => (by cases h), fun h => absurd h.1 (not_lt.2 ‹_›)⟩
  · exact ⟨fun h => ⟨not_le.1 ‹_›, (Except.ok.inj h).symm⟩, fun h => by rw [h.2]⟩

/-- A path that fits the buffer has not been cut. -/
theorem prependPath_eq_ok {ext : String} {progname path : Bytes} :
    prependPath ext progname = .ok path ↔
      (progname ++ cstr ext).length < 50 ∧ path = progname ++ cstr ext := by
  have hcut : (Extractor.snprintf 60 (progname ++ cstr ext)).length < 50 ↔
      (progname ++ cstr ext).length < 50 := by
    rw [Extractor.snprintf, List.length_take]
    omega
  rw [prependPath]
  split
  · exact ⟨fun h => (by cases h), fun h => absurd (hcut.2 h.1) (not_lt.2 ‹_›)⟩
  · rename_i hlen
    have hlt := hcut.1 (not_le.1 hlen)
    rw [Extractor.snprintf_of_lt (hlt.trans (by omega))]
    exact ⟨fun h => ⟨hlt, (Except.ok.inj h).symm⟩, fun h => by rw [h.2]⟩

theorem progInsns_eq_ok {insns insns' : List BpfInsn} {len : ℕ} :
    progInsns insns len = .ok insns' ↔
      0 ≤ toInt len ∧ insns' = insns.take ((toInt len).toNat / bpfInsnSz) := by
  rw [progInsns]
  split
  · exact ⟨fun h => (by cases h), fun h => absurd h.1 (not_le.2 ‹_›)⟩
  · exact ⟨fun h => ⟨not_lt.1 ‹_›, (Except.ok.inj h).symm⟩, fun h => by rw [h.2]⟩

/-- The path of a file. -/
def outputPath (outputName : Bytes) (ext : String) : Bytes := dashes outputName ++ cstr ext

/-- The files of a program: its instructions, in binary and as text, and the maps. -/
structure Written (outputName : Bytes) (insns : List BpfInsn) (maps : List BpfMapData)
    (dir dir' : Dir) : Prop where
  bytecode : dir' (outputPath outputName ".insns") = some (insnBytes insns)
  text : dir' (outputPath outputName ".txt") = some (insnsText insns)
  maps : dir' (outputPath outputName ".maps") = some (mapsText maps)
  others : ∀ path, path ≠ outputPath outputName ".insns" → path ≠ outputPath outputName ".txt" →
    path ≠ outputPath outputName ".maps" → dir' path = dir path

/-- Paths of different extensions differ. -/
theorem outputPath_ne {outputName : Bytes} {ext ext' : String} (h : cstr ext ≠ cstr ext') :
    outputPath outputName ext ≠ outputPath outputName ext' :=
  fun heq => h (List.append_cancel_left heq)

theorem written_write (outputName : Bytes) (insns : List BpfInsn) (maps : List BpfMapData)
    (dir : Dir) (hlen : outputName.length < 44) :
    Written outputName insns maps dir
      (writeMaps maps (outputPath outputName ".maps")
        (writeInsns insns (dashes outputName) (outputPath outputName ".insns") dir)) := by
  have htxt : Extractor.snprintf 60 (dashes outputName ++ cstr ".txt") =
      outputPath outputName ".txt" := by
    refine Extractor.snprintf_of_lt ?_
    rw [List.length_append, dashes, List.length_map, show (cstr ".txt").length = 4 from rfl]
    omega
  have hmi : outputPath outputName ".maps" ≠ outputPath outputName ".insns" :=
    outputPath_ne (by decide)
  have hmt : outputPath outputName ".maps" ≠ outputPath outputName ".txt" :=
    outputPath_ne (by decide)
  have hit : outputPath outputName ".insns" ≠ outputPath outputName ".txt" :=
    outputPath_ne (by decide)
  have hnodup : ([(outputPath outputName ".insns", insnBytes insns),
      (outputPath outputName ".txt", insnsText insns)].map Prod.fst).Nodup := by
    simpa using hit
  rw [writeInsns, htxt, writeMaps]
  constructor
  · rw [Store.dump_of_notMem (by simpa using hmi.symm)]
    exact Store.dump_of_mem hnodup List.mem_cons_self dir
  · rw [Store.dump_of_notMem (by simpa using hmt.symm)]
    exact Store.dump_of_mem hnodup (List.mem_cons_of_mem _ List.mem_cons_self) dir
  · have hnodup' : ([(outputPath outputName ".maps", mapsText maps)].map Prod.fst).Nodup :=
      List.nodup_singleton _
    exact Store.dump_of_mem hnodup' List.mem_cons_self _
  · intro path hi ht hm
    rw [Store.dump_of_notMem (by simpa using hm), Store.dump_of_notMem (by simp [hi, ht])]

/-- The only file that clearing the kprobes changes. -/
theorem writeKprobeEvents_of_ne {path : Bytes} (h : path ≠ kprobeEvents) (val : Bytes) (dir : Dir) :
    writeKprobeEvents val dir path = dir path := by
  rw [writeKprobeEvents]
  cases dir kprobeEvents with
  | none => rfl
  | some b => exact Function.update_of_ne h _ _

/-- Once a program has been selected, its files are written, if the output name is not too long for
    the buffers, and its length is one of an `int`. -/
theorem writeFiles_ok {p : Prog} {insns : List BpfInsn} {maps : Option (List BpfMapData)}
    {outputName : Bytes} {dir dir' : Dir} {ret : ℕ} (hp : p.insns = some insns)
    (h : writeFiles (some p) maps outputName dir = .ok (ret, dir')) :
    0 ≤ toInt p.len ∧ outputName.length < 44 ∧ ret = (if maps.isSome then 0 else 1) ∧
      Written outputName (insns.take ((toInt p.len).toNat / bpfInsnSz)) (maps.getD [])
        dir dir' := by
  rw [writeFiles, Option.bind_some, hp] at h
  obtain ⟨insns', hinsns, h⟩ := Fold.bind_eq_ok.1 h
  obtain ⟨hnonneg, rfl⟩ := progInsns_eq_ok.1 hinsns
  obtain ⟨fixedName, hfix, h⟩ := Fold.bind_eq_ok.1 h
  obtain ⟨-, rfl⟩ := fixProgname_eq_ok.1 hfix
  obtain ⟨insnsPath, hpath, h⟩ := Fold.bind_eq_ok.1 h
  obtain ⟨hlen, rfl⟩ := prependPath_eq_ok.1 hpath
  obtain ⟨mapsPath, hpath', h⟩ := Fold.bind_eq_ok.1 h
  obtain ⟨-, rfl⟩ := prependPath_eq_ok.1 hpath'
  obtain ⟨rfl, rfl⟩ := Prod.mk.inj (Except.ok.inj h)
  have hshort : outputName.length < 44 := by
    rw [List.length_append, dashes, List.length_map, show (cstr ".insns").length = 6 from rfl]
      at hlen
    omega
  exact ⟨hnonneg, hshort, rfl, written_write outputName _ _ dir hshort⟩

theorem writeFiles_total {p : Prog} {insns : List BpfInsn} (maps : Option (List BpfMapData))
    {outputName : Bytes} (dir : Dir) (hp : p.insns = some insns) (hnonneg : 0 ≤ toInt p.len)
    (hlen : outputName.length < 44) :
    ∃ res, writeFiles (some p) maps outputName dir = .ok res := by
  have hext (ext : String) (hext : (cstr ext).length ≤ 6) :
      prependPath ext (dashes outputName) = .ok (outputPath outputName ext) := by
    refine prependPath_eq_ok.2 ⟨?_, rfl⟩
    rw [List.length_append, dashes, List.length_map]
    omega
  rw [writeFiles, Option.bind_some, hp]
  dsimp only [Option.map_some]
  rw [progInsns_eq_ok.2 ⟨hnonneg, rfl⟩, Fold.ok_bind,
    fixProgname_eq_ok.2 ⟨hlen.trans (by omega), rfl⟩, Fold.ok_bind, hext ".insns" (by decide),
    Fold.ok_bind, hext ".maps" (by decide), Fold.ok_bind]
  exact ⟨_, rfl⟩

/-- What `main` has done when it returns: it has written the files of the program selected, or there
    is none, and it has only cleared the kprobes. It returns 0 if it has written a program and maps
    have been loaded. -/
theorem mainElf_ok {elf : Elf} {progname outputName : Bytes} {dir dir' : Dir} {ret : ℕ}
    (h : mainElf elf progname outputName dir = .ok (ret, dir')) :
    (ret = 1 ∧ dir' = writeKprobeEvents [] dir ∧
      ∃ prog maps, selectProg elf progname = .ok (prog, maps) ∧ prog.bind Prog.insns = none) ∨
    ∃ p insns maps, selectProg elf progname = .ok (some p, maps) ∧ p.insns = some insns ∧
      0 ≤ toInt p.len ∧ outputName.length < 44 ∧ ret = (if maps.isSome then 0 else 1) ∧
      Written outputName (insns.take ((toInt p.len).toNat / bpfInsnSz)) (maps.getD [])
        (writeKprobeEvents [] dir) dir' := by
  obtain ⟨⟨prog, maps⟩, hsel, h⟩ := Fold.bind_eq_ok.1 h
  rcases prog with _ | p
  · cases h
    exact .inl ⟨rfl, rfl, none, maps, hsel, rfl⟩
  rcases hp : p.insns with _ | insns
  · rw [writeFiles, Option.bind_some, hp] at h
    cases h
    exact .inl ⟨rfl, rfl, some p, maps, hsel, hp⟩
  · exact .inr ⟨p, insns, maps, hsel, hp, writeFiles_ok hp h⟩

/-- What `main` writes comes from one of the two searches: it is the target, of a matching name, of
    the first section of entries that can all be applied, or, if there is no such section, the first
    section of a matching name other than those that are no programs, as it is in the file. -/
theorem mainElf_origin {elf : Elf} {progname outputName : Bytes} {dir dir' : Dir} {ret : ℕ}
    (h : mainElf elf progname outputName dir = .ok (ret, dir')) :
    (ret = 1 ∧ dir' = writeKprobeEvents [] dir) ∨
    ∃ p insns maps, (FoundRelocated elf progname maps p ∨ FoundInFile elf progname maps p) ∧
      p.insns = some insns ∧ ret = (if maps.isSome then 0 else 1) ∧
      Written outputName (insns.take ((toInt p.len).toNat / bpfInsnSz)) (maps.getD [])
        (writeKprobeEvents [] dir) dir' := by
  rcases mainElf_ok h with ⟨hret, hdir, -⟩ | ⟨p, insns, maps, hsel, hp, -, -, hret, hwritten⟩
  · exact .inl ⟨hret, hdir⟩
  · exact .inr ⟨p, insns, maps, selectProg_some hsel, hp, hret, hwritten⟩

/-- The program that loads a map is found as the target of its entry. -/
theorem mainElf_origin_counts : ∃ dir' p insns maps,
    mainElf (twoMapElf 2) (cstr "xdp") (cstr "out") (fun _ => none) = .ok (0, dir') ∧
      (FoundRelocated (twoMapElf 2) (cstr "xdp") maps p ∨
        FoundInFile (twoMapElf 2) (cstr "xdp") maps p) ∧
      p.insns = some insns ∧ maps.isSome := by
  have hmain : ∃ dir', mainElf (twoMapElf 2) (cstr "xdp") (cstr "out") (fun _ => none) =
      .ok (0, dir') := ⟨_, rfl⟩
  obtain ⟨dir', hmain⟩ := hmain
  rcases mainElf_origin hmain with ⟨hret, -⟩ | ⟨p, insns, maps, hfound, hp, hret, -⟩
  · exact absurd hret (by decide)
  · refine ⟨dir', p, insns, maps, hmain, hfound, hp, ?_⟩
    by_contra hnone
    rw [if_neg hnone] at hret
    exact absurd hret (by decide)

/-- The instructions that `main` writes are those of a section whose name starts with the one asked
    for, up to the registers and immediates that entries change. -/
theorem mainElf_section {elf : Elf} {progname outputName : Bytes} {dir dir' : Dir} {ret : ℕ}
    (h : mainElf elf progname outputName dir = .ok (ret, dir')) :
    (ret = 1 ∧ dir' = writeKprobeEvents [] dir) ∨
    ∃ t sec insns bytecode, getSec elf t = some sec ∧ progname <+: sec.shname ∧
      fileInsns elf t = some insns ∧ dir' (outputPath outputName ".insns") = some bytecode ∧
      (readInsns bytecode).map frame =
        (insns.take ((toInt sec.data.size).toNat / bpfInsnSz)).map frame := by
  rcases mainElf_ok h with ⟨hret, hdir, -⟩ | ⟨p, insns, maps, hsel, hp, -, -, -, hwritten⟩
  · exact .inl ⟨hret, hdir⟩
  · obtain ⟨t, sec, hsec, hname, hlen, hsome, hframe⟩ := selectProg_section hsel
    rw [hp] at hsome hframe
    obtain ⟨insns₀, hinsns⟩ := Option.isSome_iff_exists.1 hsome.symm
    rw [hinsns, Option.getD_some, Option.getD_some] at hframe
    refine .inr ⟨t, sec, insns₀, _, hsec, hname, hinsns, hwritten.bytecode, ?_⟩
    rw [readInsns_insnBytes, List.map_take, List.map_take, hframe, hlen]

/-- Part of a name is enough for a program to be written. -/
theorem mainElf_section_prefix : ∃ dir' t sec,
    mainElf (twoMapElf 1) (cstr "xd") (cstr "out") (fun _ => none) = .ok (0, dir') ∧
      getSec (twoMapElf 1) t = some sec ∧ cstr "xd" <+: sec.shname := by
  have hmain : ∃ dir', mainElf (twoMapElf 1) (cstr "xd") (cstr "out") (fun _ => none) =
      .ok (0, dir') := ⟨_, rfl⟩
  obtain ⟨dir', hmain⟩ := hmain
  rcases mainElf_section hmain with ⟨hret, -⟩ | ⟨t, sec, -, -, hsec, hname, -⟩
  · exact absurd hret (by decide)
  · exact ⟨dir', t, sec, hmain, hsec, hname⟩

/-! ## Well-formed objects -/

theorem length_fileInsns {elf : Elf} {t : ℕ} {sec : Sec} {insns : List BpfInsn}
    (hsec : getSec elf t = some sec) (hinsns : fileInsns elf t = some insns) :
    insns.length = sec.data.size / bpfInsnSz := by
  rw [fileInsns, secData_of_getSec hsec, Option.bind_some] at hinsns
  obtain ⟨b, hb, rfl⟩ := Option.map_eq_some_iff.1 hinsns
  rw [length_readInsns, sec.data.length_buf b hb]

section

variable {elf : Elf} {symbols : ElfData} {outputName : Bytes} (h : WellFormed elf symbols)
  (hname : outputName.length < 44)

include h hname

/-- On a well-formed object `main` returns, whatever the program it is asked for, if the names of
    the sections can be compared with it: nothing that it does is undefined. -/
theorem mainElf_total (hsize : ∀ i < elf.scns.length, ∀ sec ∈ getSec elf i, sec.data.size < 2 ^ 31)
    {progname : Bytes} (hroom : NamesComparable elf progname) (dir : Dir) :
    ∃ ret dir', mainElf elf progname outputName dir = .ok (ret, dir') ∧ ret ≤ 1 := by
  obtain ⟨g, -, -, hg, -⟩ := getProg_total h hroom le_rfl
  have hsel : ∃ found, selectProg elf progname = .ok found := by
    rw [selectProg, hg, Fold.ok_bind]
    split
    · exact ⟨_, rfl⟩
    · obtain ⟨p?, hp⟩ := findWithoutMaps_total h hroom g.processedSec (List.Subset.refl _)
      rw [loadProgWithoutMaps, hp]
      exact ⟨_, rfl⟩
  obtain ⟨⟨prog, maps⟩, hsel⟩ := hsel
  rw [mainElf, hsel, Fold.ok_bind]
  rcases prog with _ | p
  · exact ⟨1, writeKprobeEvents [] dir, rfl, le_rfl⟩
  rcases hp : p.insns with _ | insns
  · refine ⟨1, writeKprobeEvents [] dir, ?_, le_rfl⟩
    rw [writeFiles, Option.bind_some, hp]
    rfl
  · obtain ⟨t, sec, hsec, -, hlen, -⟩ := selectProg_section hsel
    have hint : toInt p.len = p.len :=
      Extractor.toInt_of_lt (hlen ▸ hsize t (lt_of_getSec hsec) sec hsec)
    obtain ⟨⟨ret, dir'⟩, hwrite⟩ :=
      writeFiles_total maps (writeKprobeEvents [] dir) hp (by omega) hname
    obtain ⟨-, -, hret, -⟩ := writeFiles_ok hp hwrite
    refine ⟨ret, dir', hwrite, ?_⟩
    rw [hret]
    split
    · exact Nat.zero_le 1
    · exact le_rfl

end

/-- The program that refers to itself is found by any part of its name. -/
theorem mainElf_total_prefix : ∃ ret dir',
    mainElf (twoMapElf 1) (cstr "xd") (cstr "out") (fun _ => none) = .ok (ret, dir') ∧ ret ≤ 1 := by
  obtain ⟨symbols, h, -⟩ := wellFormed_twoMapElf (by decide : 1 < 4)
  exact mainElf_total h (by decide) (by decide +kernel) (by decide +kernel) _

/-- All the entries of a section that selects its target can be applied to it. -/
theorem Selects.applicable {elf : Elf} {symbols : ElfData} {maps : List BpfMapData}
    {progname : Bytes} {processedSec : ℕ → Bool} {i t : ℕ} {insns : List BpfInsn}
    (hsel : Selects elf symbols maps progname processedSec i) (htarget : target elf i = some t)
    (hinsns : fileInsns elf t = some insns) :
    ∀ rel ∈ entries elf i, Applicable symbols maps insns rel := by
  obtain ⟨-, sec, prog, hrelocates, happlies, -⟩ := hsel
  have hinfo : sec.shdr.info = t := by
    rw [target, hrelocates] at htarget
    exact Option.some.inj htarget
  intro rel hrel
  rw [entries, hrelocates] at hrel
  have happlicable := happlies.all rel hrel
  rwa [hinfo, hinsns] at happlicable

/-- Once entries that can all be applied have been, their instructions load maps. -/
theorem exists_loaded_of_applicable {symbols : ElfData} {maps : List BpfMapData}
    {rels : List GElfRel} {insns : List BpfInsn}
    (hall : ∀ rel ∈ rels, Applicable symbols maps insns rel) {rel : GElfRel} (hrel : rel ∈ rels) :
    ∃ insn, (applied symbols maps rels insns)[relIdx rel]? = some insn ∧ insn.IsLddw ∧
      insn.srcReg = bpfPseudoMapFd ∧ ∃ map ∈ maps, insn.imm = BitVec.ofInt 32 map.fd := by
  obtain ⟨insn, hinsn, hlddw⟩ := (hall rel hrel).isLddw
  -- The last entry for the instruction, which may be another one, refers to a map.
  have hmem : rel ∈ rels.filter (relIdx · = relIdx rel) :=
    List.mem_filter.2 ⟨hrel, decide_eq_true rfl⟩
  obtain ⟨last, hlast⟩ := Option.isSome_iff_exists.1
    (List.getLast?_isSome.2 (List.ne_nil_of_mem hmem))
  obtain ⟨map, hmap⟩ := Option.isSome_iff_exists.1
    (hall last (List.mem_of_mem_filter (List.mem_of_getLast? hlast))).map
  have hfd : refFd symbols maps last = map.fd := by
    rw [refFd, hmap]
    rfl
  rw [getElem?_applied, hinsn, Option.map_some, hlast, Option.elim_some, hfd]
  refine ⟨_, rfl, hlddw, rfl, map, ?_, rfl⟩
  obtain ⟨sym, -, hfind⟩ := Option.bind_eq_some_iff.1 (refMap.eq_1 _ _ _ ▸ hmap)
  exact List.mem_of_find?_eq_some hfind

section

variable {elf : Elf} {symbols : ElfData} {outputName : Bytes} (h : WellFormed elf symbols)
  (hname : outputName.length < 44)

include h hname

/-- What `main` does with a program of a name of its own. It returns 0 if the object has maps,
    whether or not the entries for the program could be applied: if not, it has written the program
    as it is in the file. -/
theorem mainElf_unambiguous {progname : Bytes} (hroom : NamesComparable elf progname) {t : ℕ}
    {prog : Sec} {insns : List BpfInsn} (ht : Unambiguous elf progname t prog)
    (hinsns : fileInsns elf t = some insns)
    (hsize : prog.data.size < 2 ^ 31) (dir : Dir) :
    ∃ scan maps insns' dir', scanSecs elf = .ok scan ∧
      getMaps elf 0 scan symbols = .ok (some maps) ∧
      mainElf elf progname outputName dir = .ok (if maps.isSome then 0 else 1, dir') ∧
      Written outputName insns' (maps.getD []) (writeKprobeEvents [] dir) dir' ∧
      (∀ i ∈ secIdxs elf, target elf i = some t →
        Selects elf symbols (maps.getD []) progname scan.mapsProcessed i →
        insns' = applied symbols (maps.getD []) (entries elf i) insns) ∧
      ((∀ i ∈ secIdxs elf, target elf i = some t →
        ¬Selects elf symbols (maps.getD []) progname scan.mapsProcessed i) → insns' = insns) := by
  obtain ⟨p, scan, maps, hsel, hscan, hmaps, hlen, happ, hraw⟩ := selectProg_unambiguous h hroom ht
  rw [hinsns] at happ hraw
  have hint : toInt p.len = p.len := Extractor.toInt_of_lt (hlen ▸ hsize)
  -- In either case the program is as long as in the file.
  have hp : ∃ insns', p.insns = some insns' ∧ insns'.length = insns.length := by
    by_cases hall : ∀ i ∈ secIdxs elf, target elf i = some t →
        ¬Selects elf symbols (maps.getD []) progname scan.mapsProcessed i
    · exact ⟨insns, hraw hall, rfl⟩
    · push Not at hall
      obtain ⟨i, hi, htarget, hi'⟩ := hall
      exact ⟨_, happ i hi htarget hi', length_applied _⟩
  obtain ⟨insns', hp, hlen'⟩ := hp
  have htake : insns'.take ((toInt p.len).toNat / bpfInsnSz) = insns' := by
    refine List.take_of_length_le ?_
    rw [hlen', length_fileInsns ht.sec hinsns, hint, hlen]
    exact le_rfl
  obtain ⟨⟨ret, dir'⟩, hwrite⟩ :=
    writeFiles_total maps (writeKprobeEvents [] dir) hp (by omega) hname
  obtain ⟨-, -, hret, hwritten⟩ := writeFiles_ok hp hwrite
  rw [htake] at hwritten
  refine ⟨scan, maps, insns', dir', hscan, hmaps, ?_, hwritten, ?_, ?_⟩
  · rw [mainElf, hsel, Fold.ok_bind, ← hret]
    exact hwrite
  · intro i hi htarget hi'
    exact Option.some.inj (hp.symm.trans (happ i hi htarget hi'))
  · exact fun hall => Option.some.inj (hp.symm.trans (hraw hall))

/-- Every entry for the section `t` has been applied: its instruction loads the descriptor of one
    of the maps. -/
def LoadsMaps (elf : Elf) (t : ℕ) (maps : List BpfMapData) (insns : List BpfInsn) : Prop :=
  ∀ i ∈ secIdxs elf, target elf i = some t → ∀ rel ∈ entries elf i, ∃ insn,
    insns[relIdx rel]? = some insn ∧ insn.IsLddw ∧ insn.srcReg = bpfPseudoMapFd ∧
      ∃ map ∈ maps, insn.imm = BitVec.ofInt 32 map.fd

/-- The program is always written: with its entries applied, if they all apply, and as it is in the
    file if not, `main` returning the same. It has been relocated exactly if each section with
    entries for it selects it. -/
theorem mainElf_relocated_iff {progname : Bytes} (hroom : NamesComparable elf progname) {t : ℕ}
    {prog : Sec} {insns : List BpfInsn} (ht : Unambiguous elf progname t prog)
    (hinsns : fileInsns elf t = some insns)
    (hsize : prog.data.size < 2 ^ 31)
    (hun : ∀ insn ∈ insns, insn.IsLddw → insn.srcReg ≠ bpfPseudoMapFd) (dir : Dir) :
    ∃ scan maps insns' dir', scanSecs elf = .ok scan ∧
      getMaps elf 0 scan symbols = .ok (some maps) ∧
      mainElf elf progname outputName dir = .ok (if maps.isSome then 0 else 1, dir') ∧
      Written outputName insns' (maps.getD []) (writeKprobeEvents [] dir) dir' ∧
      (∀ i ∈ secIdxs elf, target elf i = some t →
        Selects elf symbols (maps.getD []) progname scan.mapsProcessed i →
        insns' = applied symbols (maps.getD []) (entries elf i) insns) ∧
      ((∀ i ∈ secIdxs elf, target elf i = some t →
        ¬Selects elf symbols (maps.getD []) progname scan.mapsProcessed i) → insns' = insns) ∧
      (LoadsMaps elf t (maps.getD []) insns' ↔
        ∀ i ∈ secIdxs elf, target elf i = some t → entries elf i ≠ [] →
          Selects elf symbols (maps.getD []) progname scan.mapsProcessed i) := by
  obtain ⟨scan, maps, insns', dir', hscan, hmaps, hmain, hwritten, happ, hraw⟩ :=
    mainElf_unambiguous h hname hroom ht hinsns hsize dir
  refine ⟨scan, maps, insns', dir', hscan, hmaps, hmain, hwritten, happ, hraw,
    fun hloads i hi htarget hne => ?_, fun hsel i hi htarget rel hrel => ?_⟩
  · by_contra hnot
    -- No section selects the program, which is written as it is in the file.
    have hfile : insns' = insns := hraw fun j hj htarget' => by
      rwa [ht.target j hj i hi htarget' htarget]
    obtain ⟨rel, hrel⟩ := List.exists_mem_of_ne_nil _ hne
    obtain ⟨insn, hinsn, hlddw, hsrc, -⟩ := hloads i hi htarget rel hrel
    rw [hfile] at hinsn
    exact hun insn (List.mem_of_getElem? hinsn) hlddw hsrc
  · have hselects := hsel i hi htarget (List.ne_nil_of_mem hrel)
    rw [happ i hi htarget hselects]
    exact exists_loaded_of_applicable (hselects.applicable htarget hinsns) hrel

end

/-- The program whose only entry is for itself, which is no map, is not relocated, and `main`
    returns 0. -/
theorem mainElf_relocated_iff_self : ∃ maps insns' dir',
    mainElf (twoMapElf 1) (cstr "xdp") (cstr "out") (fun _ => none) = .ok (0, dir') ∧
      dir' (outputPath (cstr "out") ".insns") = some (insnBytes insns') ∧
      dir' (outputPath (cstr "out") ".maps") = some (mapsText maps) ∧
      ¬LoadsMaps (twoMapElf 1) 1 maps insns' := by
  obtain ⟨symbols, h, hsyms⟩ := wellFormed_twoMapElf (by decide : 1 < 4)
  have ht : ∃ prog insns, Unambiguous (twoMapElf 1) (cstr "xdp") 1 prog ∧
      fileInsns (twoMapElf 1) 1 = some insns ∧ prog.data.size < 2 ^ 31 ∧
      ∀ insn ∈ insns, insn.IsLddw → insn.srcReg ≠ bpfPseudoMapFd := by
    refine ⟨_, _, ⟨by decide, rfl, by decide, by decide, ?_, by decide, by decide, ?_⟩, rfl, ?_,
      ?_⟩
    all_goals decide +kernel
  obtain ⟨prog, insns, ht, hinsns, hsize, hun⟩ := ht
  have hself : ∃ scan symbols maps, scanSecs (twoMapElf 1) = .ok scan ∧
      scan.symbols = some symbols ∧ getMaps (twoMapElf 1) 0 scan symbols = .ok (some (some maps)) ∧
      (∀ i ∈ secIdxs (twoMapElf 1), ∀ r ∈ relocates (twoMapElf 1) i,
        ∃ rel ∈ r.1.data.rels.take (nrels r.1.shdr), (refMap symbols maps rel).isSome = false) ∧
      2 ∈ secIdxs (twoMapElf 1) ∧ target (twoMapElf 1) 2 = some 1 ∧ entries (twoMapElf 1) 2 ≠ [] :=
    ⟨_, _, _, rfl, rfl, rfl, by decide +kernel, by decide, by decide, by decide⟩
  obtain ⟨scan, symbols', maps, hscan, hsymbols, hmaps, hself, hmem, htarget, hne⟩ := hself
  obtain rfl : symbols' = symbols :=
    Option.some.inj ((hsymbols.symm.trans (scanSecs_ok hscan).2.2).trans h.symtab)
  obtain ⟨scan', maps', insns', dir', hscan', hmaps', hmain, hwritten, -, -, hiff⟩ :=
    mainElf_relocated_iff h (by decide : (cstr "out").length < 44) (by decide +kernel) ht hinsns
      hsize hun fun _ => none
  obtain rfl := Except.ok.inj (hscan.symm.trans hscan')
  obtain rfl : some maps = maps' := Option.some.inj (Except.ok.inj (hmaps.symm.trans hmaps'))
  refine ⟨maps, insns', dir', hmain, hwritten.bytecode, hwritten.maps, fun hloads => ?_⟩
  obtain ⟨-, sec, prog', hrel, happ, -⟩ := hiff.1 hloads 2 hmem htarget hne
  obtain ⟨rel, hrel', hnone⟩ := hself 2 hmem _ hrel
  exact Bool.false_ne_true (hnone.symm.trans (happ.all rel hrel').map)

/-! ## Reading the files back -/

/-- The format of the line of an instruction. -/
def scanInsn : Scanner BpfInsn := do
  lit (cstr "\x7b")
  let code ← nat
  lit (cstr ", ")
  let dstReg ← nat
  lit (cstr ", ")
  let srcReg ← nat
  lit (cstr ", ")
  let off ← int
  lit (cstr ", ")
  let imm ← int
  lit (cstr "\x7d, \n")
  return ⟨.ofNat 8 code, .ofNat 4 dstReg, .ofNat 4 srcReg, .ofInt 16 off, .ofInt 32 imm⟩

theorem scanInsn_append (insn : BpfInsn) (t : Bytes) :
    scanInsn (insnLine insn ++ t) = some (insn, t) := by
  rw [insnLine]
  simp only [List.append_assoc]
  rw [scanInsn, run_bind (lit_append _ _), run_nat_lit _ (by decide), run_nat_lit _ (by decide),
    run_nat_lit _ (by decide), run_int_lit _ (by decide), run_int_lit _ (by decide)]
  simp only [BitVec.ofNat_toNat, BitVec.ofInt_toInt]
  rfl

theorem isLine_insnLine (insn : BpfInsn) : IsLine (insnLine insn) := by
  refine .append ?_ ⟨cstr "\x7d, ", by decide, rfl⟩
  have hcomma : (0x0a : Byte) ∉ cstr ", " := by decide
  have hopen : (0x0a : Byte) ∉ cstr "\x7b" := by decide
  simp only [List.mem_append, Extractor.newline_not_mem_decimal,
    Extractor.newline_not_mem_decimalInt, hcomma, hopen, or_self, not_false_iff]

/-- The text of the instructions is read back line by line. -/
theorem insnsText_readback (insns : List BpfInsn) :
    (lines (insnsText insns)).map scanInsn.whole = insns.map some := by
  rw [insnsText, lines_flatMap fun insn _ => isLine_insnLine insn, List.map_map]
  exact List.map_congr_left fun insn _ => Scanner.whole_eq_some (scanInsn_append insn)

/-- So is the text of the maps, whatever the length of their names. -/
theorem mapsText_readback {maps : List BpfMapData}
    (hnames : ∀ map ∈ maps, Extractor.IsPlainName map.name) :
    (lines (mapsText maps)).map scanMap.whole = maps.map fun map => some map.record := by
  have hname {b : Byte} (hb : Extractor.IsSpace b) : ∀ map ∈ maps, b ∉ map.record.name :=
    fun map hmap h => (hnames map hmap b h).1 hb
  rw [mapsText, lines_flatMap fun map hmap =>
    Extractor.isLine_text (hname (.inr (by decide)) map hmap), List.map_map]
  exact List.map_congr_left fun map hmap =>
    Scanner.whole_eq_some (Extractor.scanMap_append (hname (.inl rfl) map hmap))

/-- The files that `main` writes are read back as one and the same list of instructions, that of
    the program selected, and, if their names can be told from what follows, as the maps loaded. -/
theorem mainElf_readback {elf : Elf} {progname outputName : Bytes} {dir dir' : Dir} {ret : ℕ}
    (h : mainElf elf progname outputName dir = .ok (ret, dir')) :
    (ret = 1 ∧ dir' = writeKprobeEvents [] dir) ∨
    ∃ p insns maps bytecode text mapsTxt,
      selectProg elf progname = .ok (some p, maps) ∧ p.insns = some insns ∧
      dir' (outputPath outputName ".insns") = some bytecode ∧
      dir' (outputPath outputName ".txt") = some text ∧
      dir' (outputPath outputName ".maps") = some mapsTxt ∧
      readInsns bytecode = insns.take ((toInt p.len).toNat / bpfInsnSz) ∧
      (lines text).map scanInsn.whole = (readInsns bytecode).map some ∧
      ((∀ map ∈ maps.getD [], Extractor.IsPlainName map.name) →
        (lines mapsTxt).map scanMap.whole = (maps.getD []).map fun map => some map.record) := by
  rcases mainElf_ok h with ⟨hret, hdir, -⟩ | ⟨p, insns, maps, hsel, hp, -, -, -, hwritten⟩
  · exact .inl ⟨hret, hdir⟩
  · refine .inr ⟨p, insns, maps, _, _, _, hsel, hp, hwritten.bytecode, hwritten.text, hwritten.maps,
      readInsns_insnBytes _, ?_, mapsText_readback⟩
    rw [readInsns_insnBytes]
    exact insnsText_readback _

/-- The instruction that loads a map is read back from the text. -/
theorem mainElf_readback_counts : ∃ dir' text,
    mainElf (twoMapElf 2) (cstr "xdp") (cstr "out") (fun _ => none) = .ok (0, dir') ∧
      dir' (outputPath (cstr "out") ".txt") = some text ∧
      (lines text).map scanInsn.whole =
        [some ⟨lddwCode, 1, bpfPseudoMapFd, 0, 1⟩, some .zero, some ⟨0x95, 0, 0, 0, 0⟩] := by
  have hmain : ∃ dir' bytecode, mainElf (twoMapElf 2) (cstr "xdp") (cstr "out") (fun _ => none) =
        .ok (0, dir') ∧ dir' (outputPath (cstr "out") ".insns") = some bytecode ∧
      readInsns bytecode =
        [⟨lddwCode, 1, bpfPseudoMapFd, 0, 1⟩, .zero, ⟨0x95, 0, 0, 0, 0⟩] :=
    ⟨_, _, rfl, rfl, by decide +kernel⟩
  obtain ⟨dir', bytecode, hmain, hbytecode, hinsns⟩ := hmain
  rcases mainElf_readback hmain with ⟨hret, -⟩ | ⟨p, insns, maps, bytecode', text, mapsTxt, -, -,
    hbytecode', htext, -, -, hread, -⟩
  · exact absurd hret (by decide)
  · obtain rfl := Option.some.inj (hbytecode.symm.trans hbytecode')
    rw [hinsns] at hread
    exact ⟨dir', text, hmain, htext, hread⟩

end BpfElfTools.OldExtractor
