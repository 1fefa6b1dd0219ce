import BpfElfTools.Lib.Script
import BpfElfTools.Patcher.ClearReloc

/-!
# Patching an ELF file

The patcher copies the header of its input to the output, then the sections that
precede the one to patch, then the new instructions, and then whatever is left
of the input after as many bytes. It does so through three functions, each
opening the output anew, as a script over the files of the host: whatever it
wrote before it failed stays.

* `main`: the patcher, `pyelftools` being a parameter (`PyElfTools`);
* `exec_main_ok`, `exec_main_error`, `exec_main_denied`: what a run leaves, if it
  completes, if it fails on its way, and if the output cannot be opened;
* `main_ok_iff`: when a run completes.
-/

namespace BpfElfTools.Patcher

/-- A string of the script. -/
abbrev Str := List Char

/-- How a run ends when it does not complete: by `sys.exit` after having printed
    a message, or by an exception. -/
inductive Failure
  | exit (printed : Str) (status : ℕ)
  | raised
  deriving DecidableEq, Repr

/-! ## What the patcher uses of its host and of pyelftools -/

/-- The files of the host that may be opened, besides what they hold. A path
    stands for the file it leads to. -/
structure Host (κ : Type) where
  readable : κ → Bool
  writable : κ → Bool
  /-- How many bytes of the output have left the buffer of its stream when the new
      instructions are read (which may be from the output itself). -/
  flushed : ℕ

/-- A section, as pyelftools shows it: fields of its header, and `data()`. -/
structure PySection where
  shOffset : ℕ
  shSize : ℕ
  compressed : Bool
  data : Except Failure Bytes

/-- An `ELFFile`. -/
structure PyElf where
  getSectionByName : Str → Except Failure (Option PySection)
  /-- Where `_parse_elf_header()` leaves the stream. The header has been parsed
      once before, when the `ELFFile` was made. -/
  headerEnd : ℕ

/-- The class `ELFFile`, on the bytes of its stream. -/
structure PyElfTools where
  elfFile : Bytes → Except Failure PyElf
  /-- The empty file has no magic number. -/
  elfFile_nil : ∃ e, elfFile [] = .error e

/-! ## The patcher -/

variable {κ : Type} [DecidableEq κ]

/-- The commands of the patcher. -/
abbrev Py (κ α : Type) := Script κ Byte Failure α

namespace Host

variable (host : Host κ)

/-- `open(path, 'rb')`, with the bytes that reading the file gives. -/
def openRead (path : κ) : Py κ Bytes :=
  Script.ask fun st =>
    if host.readable path then (st path).elim (.error .raised) .ok else .error .raised

/-- `open(path, 'wb')`. -/
def openWrite (path : κ) : Py κ Unit :=
  if host.writable path then Script.modifyFiles (Store.create path) else Script.fail .raised

/-- `open(path, 'ab')`. -/
def openAppend (path : κ) : Py κ Unit :=
  if host.writable path then Script.modifyFiles (Store.append path []) else Script.fail .raised

end Host

/-- `write` to a stream opened for writing. -/
def writeTo (path : κ) (b : Bytes) : Py κ Unit := Script.modifyFiles (Store.append path b)

/-- The loop of `read_elf_file_header` from `index` on: the bytes it writes. -/
def headerLoop (index : ℕ) : Bytes → Bytes
  | [] => []
  | byte :: rest => if index < 64 then byte :: headerLoop (index + 1) rest else []

/-- `read_elf_file_header`. -/
def readElfFileHeader (host : Host κ) (elfFileName outputFileName : κ) : Py κ Unit := do
  host.openWrite outputFileName
  host.openWrite outputFileName
  let elfFile ← host.openRead elfFileName
  writeTo outputFileName (headerLoop 0 elfFile)

/-- The loop of `write_remaining_bytes` from `index` on: the bytes it writes. -/
def remainingLoop (offset index : ℕ) : Bytes → Bytes
  | [] => []
  | byte :: rest =>
    if index ≥ offset then byte :: remainingLoop offset (index + 1) rest
    else remainingLoop offset (index + 1) rest

/-- `write_remaining_bytes`, on the bytes from the position of the stream on. -/
def writeRemainingBytes (elfFile : Bytes) (outputFile : κ) (offset : ℕ) : Py κ Unit :=
  writeTo outputFile (remainingLoop offset 0 elfFile)

/-- What `patch_insns` writes for the bytes of the new instructions. -/
def patchedInsns (newInsns : Bytes) (removeReloc : Bool) : Bytes :=
  if removeReloc then clearRelocInsns newInsns else newInsns

/-- `patch_insns`. -/
def patchInsns (host : Host κ) (outputFile newInsnsFileName : κ) (removeReloc : Bool) :
    Py κ Unit := do
  let newInsns ← host.openRead newInsnsFileName
  -- Read from the output itself, the new instructions are what has left its buffer.
  let seen := if newInsnsFileName = outputFile then newInsns.take host.flushed else newInsns
  writeTo outputFile (patchedInsns seen removeReloc)

/-- The loop body of `read_elf_sections`: a preceding section is appended to the output. -/
def copySection (elf : PyElf) (outputFile : κ) (offset : ℕ) (sectionName : Str) : Py κ ℕ := do
  match ← Script.ofExcept (elf.getSectionByName sectionName) with
  | some sec =>
    let rawBytes ← Script.ofExcept sec.data
    writeTo outputFile rawBytes
    return offset + sec.shSize
  | none =>
    Script.fail (.exit (sectionName ++ "  is not a section in this ELF".toList) 1)

/-- `read_elf_sections`. -/
def readElfSections (tools : PyElfTools) (host : Host κ) (elfFileName newInsnsFileName : κ)
    (sectionToReplace : Str) (precedingSections : List Str) (outputFileName : κ)
    (removeReloc : Bool) : Py κ Unit := do
  let elfFile ← host.openRead elfFileName
  host.openAppend outputFileName
  let elf ← Script.ofExcept (tools.elfFile elfFile)
  match ← Script.ofExcept (elf.getSectionByName sectionToReplace) with
  | some sectionOfInterest =>
    let offset ← precedingSections.foldlM (copySection elf outputFileName) 0
    patchInsns host outputFileName newInsnsFileName removeReloc
    writeRemainingBytes (elfFile.drop elf.headerEnd) outputFileName
      (offset + sectionOfInterest.shSize)
  | none =>
    Script.fail (.exit ("Section  ".toList ++ sectionToReplace ++
      "  could not be found. New insns not patched into resulting ELF".toList) 1)

/-- The characters that `str.strip` removes. -/
def isSpace (c : Char) : Bool :=
  let n := c.toNat
  (0x09 ≤ n && n ≤ 0x0d) || (0x1c ≤ n && n ≤ 0x20) || n = 0x85 || n = 0xa0 || n = 0x1680 ||
    (0x2000 ≤ n && n ≤ 0x200a) || n = 0x2028 || n = 0x2029 || n = 0x202f || n = 0x205f ||
    n = 0x3000

/-- `str.strip`. -/
def strip (s : Str) : Str := (s.dropWhile isSpace).rdropWhile isSpace

/-- `parse_section_string`. -/
def parseSectionString (sectionString : Str) : List Str :=
  if sectionString = [] then [] else (sectionString.splitOn ',').map strip

/-- The arguments of the patcher, as parsed from its command line. -/
structure Args (κ : Type) where
  elfFile : κ
  newInsns : κ
  sectionName : Str
  sections : Str := []
  output : κ
  removeReloc : Bool := false

/-- `main`, once the arguments have been parsed. -/
def main (tools : PyElfTools) (host : Host κ) (rawArgs : Args κ) : Py κ Unit := do
  let precedingSections := parseSectionString rawArgs.sections
  readElfFileHeader host rawArgs.elfFile rawArgs.output
  readElfSections tools host rawArgs.elfFile rawArgs.newInsns rawArgs.sectionName
    precedingSections rawArgs.output rawArgs.removeReloc

/-! ## The loops -/

theorem headerLoop_eq (index : ℕ) (b : Bytes) : headerLoop index b = b.take (64 - index) := by
  induction b generalizing index with
  | nil => simp [headerLoop]
  | cons byte rest ih =>
    rw [headerLoop, ih]
    split
    · obtain ⟨n, hn⟩ : ∃ n, 64 - index = n + 1 := ⟨63 - index, by omega⟩
      rw [hn, List.take_succ_cons, show 64 - (index + 1) = n by omega]
    · rw [show 64 - index = 0 by omega, List.take_zero]

theorem remainingLoop_eq (offset index : ℕ) (b : Bytes) :
    remainingLoop offset index b = b.drop (offset - index) := by
  induction b generalizing index with
  | nil => simp [remainingLoop]
  | cons byte rest ih =>
    rw [remainingLoop, ih]
    split
    · rw [show offset - index = 0 by omega, show offset - (index + 1) = 0 by omega]
      rfl
    · obtain ⟨n, hn⟩ : ∃ n, offset - index = n + 1 := ⟨offset - index - 1, by omega⟩
      rw [hn, List.drop_succ_cons, show offset - (index + 1) = n by omega]

theorem toOption_eq_some {α : Type} {r : Except Failure α} {a : α} :
    r.toOption = some a ↔ r = .ok a := by
  cases r <;> simp [Except.toOption]

/-- The data of the section called `name`, if it can be copied. -/
def PyElf.sectionBytes (elf : PyElf) (name : Str) : Option Bytes :=
  match elf.getSectionByName name with
  | .ok (some sec) => sec.data.toOption
  | _ => none

/-- The size of the section called `name`, from its header. -/
def PyElf.sectionSize (elf : PyElf) (name : Str) : ℕ :=
  match elf.getSectionByName name with
  | .ok (some sec) => sec.shSize
  | _ => 0

/-- The sections called `names` can all be copied. -/
def PyElf.HasAll (elf : PyElf) (names : List Str) : Prop :=
  ∀ name ∈ names, (elf.sectionBytes name).isSome

instance (elf : PyElf) (names : List Str) : Decidable (elf.HasAll names) :=
  inferInstanceAs (Decidable (∀ name ∈ names, (elf.sectionBytes name).isSome))

/-- The data of the sections called `names`, up to the first that cannot be copied. -/
def PyElf.copied (elf : PyElf) (names : List Str) : Bytes :=
  ((names.takeWhile fun name => (elf.sectionBytes name).isSome).map
    fun name => (elf.sectionBytes name).getD []).flatten

/-- The sizes of the sections called `names` added up. -/
def PyElf.sizes (elf : PyElf) (names : List Str) : ℕ := (names.map elf.sectionSize).sum

theorem PyElf.sectionBytes_eq_some {elf : PyElf} {name : Str} {d : Bytes} :
    elf.sectionBytes name = some d ↔
      ∃ sec, elf.getSectionByName name = .ok (some sec) ∧ sec.data = .ok d := by
  rw [sectionBytes]
  rcases elf.getSectionByName name with e | _ | sec
  · simp
  · simp
  · simp [toOption_eq_some]

theorem PyElf.copied_cons_some {elf : PyElf} {name : Str} {d : Bytes}
    (h : elf.sectionBytes name = some d) (names : List Str) :
    elf.copied (name :: names) = d ++ elf.copied names := by
  simp [copied, h]

theorem PyElf.copied_cons_none {elf : PyElf} {name : Str} (h : elf.sectionBytes name = none)
    (names : List Str) : elf.copied (name :: names) = [] := by
  simp [copied, h]

section

variable {elf : PyElf} {out : κ}

/-- A section that can be copied is appended to the output. -/
theorem exec_copySection_ok {name : Str} {d : Bytes} (h : elf.sectionBytes name = some d)
    (offset : ℕ) (b : Bytes) (st : Store κ Byte) :
    (copySection elf out offset name).exec (Function.update st out (some b)) =
      (.ok (offset + elf.sectionSize name), Function.update st out (some (b ++ d))) := by
  obtain ⟨sec, hsec, hdata⟩ := PyElf.sectionBytes_eq_some.1 h
  have hget : (Script.ofExcept (elf.getSectionByName name) : Py κ _).exec
      (Function.update st out (some b)) = (.ok (some sec), Function.update st out (some b)) := by
    rw [Script.exec_ofExcept, hsec]
  have hraw : (Script.ofExcept sec.data : Py κ _).exec (Function.update st out (some b)) =
      (.ok d, Function.update st out (some b)) := by
    rw [Script.exec_ofExcept, hdata]
  rw [PyElf.sectionSize, hsec]
  refine (Script.run_bind_ok hget).trans ((Script.run_bind_ok hraw).trans ?_)
  rw [← Store.append_update]
  rfl

/-- A section that cannot be copied ends the run. -/
theorem exec_copySection_error {name : Str} (h : elf.sectionBytes name = none) (offset : ℕ)
    (st : Store κ Byte) : ∃ e, (copySection elf out offset name).exec st = (.error e, st) := by
  rcases hsec : elf.getSectionByName name with e | _ | sec
  · exact ⟨e, Script.run_bind_error (by rw [Script.exec_ofExcept, hsec])⟩
  · have hget : (Script.ofExcept (elf.getSectionByName name) : Py κ _).exec st =
        (.ok none, st) := by rw [Script.exec_ofExcept, hsec]
    exact ⟨_, Script.run_bind_ok hget⟩
  · have hget : (Script.ofExcept (elf.getSectionByName name) : Py κ _).exec st =
        (.ok (some sec), st) := by rw [Script.exec_ofExcept, hsec]
    rcases hdata : sec.data with e | d
    · refine ⟨e, (Script.run_bind_ok hget).trans (Script.run_bind_error ?_)⟩
      rw [Script.exec_ofExcept, hdata]
    · rw [PyElf.sectionBytes_eq_some.2 ⟨sec, hsec, hdata⟩] at h
      cases h

/-- The loop over the preceding sections appends them all. -/
theorem exec_copySections_ok {names : List Str} (h : elf.HasAll names) (offset : ℕ) (b : Bytes)
    (st : Store κ Byte) :
    (names.foldlM (copySection elf out) offset).exec (Function.update st out (some b)) =
      (.ok (offset + elf.sizes names), Function.update st out (some (b ++ elf.copied names))) := by
  induction names generalizing offset b with
  | nil => simp [PyElf.sizes, PyElf.copied]
  | cons name names ih =>
    obtain ⟨d, hd⟩ := Option.isSome_iff_exists.1 (h name List.mem_cons_self)
    rw [List.foldlM_cons, Script.run_bind_ok (exec_copySection_ok hd offset b st),
      ih (fun n hn => h n (List.mem_cons_of_mem _ hn)), PyElf.copied_cons_some hd]
    simp only [PyElf.sizes, List.map_cons, List.sum_cons, List.append_assoc, Nat.add_assoc]

/-- A section that cannot be copied ends the loop after those before it. -/
theorem exec_copySections_error {names : List Str} (h : ¬elf.HasAll names) (offset : ℕ)
    (b : Bytes) (st : Store κ Byte) :
    ∃ e, (names.foldlM (copySection elf out) offset).exec (Function.update st out (some b)) =
      (.error e, Function.update st out (some (b ++ elf.copied names))) := by
  induction names generalizing offset b with
  | nil => exact absurd (fun n hn => absurd hn List.not_mem_nil) h
  | cons name names ih =>
    rw [List.foldlM_cons]
    cases hd : elf.sectionBytes name with
    | none =>
      obtain ⟨e, he⟩ := exec_copySection_error hd offset
        (Function.update st out (some b))
      exact ⟨e, by rw [Script.run_bind_error he, PyElf.copied_cons_none hd, List.append_nil]⟩
    | some d =>
      have hnames : ¬elf.HasAll names := by
        intro hall
        apply h
        rintro n (_ | ⟨_, hn⟩)
        · rw [hd]
          rfl
        · exact hall n hn
      obtain ⟨e, he⟩ := ih hnames (offset + elf.sectionSize name) (b ++ d)
      refine ⟨e, ?_⟩
      rw [Script.run_bind_ok (exec_copySection_ok hd offset b st), he, PyElf.copied_cons_some hd,
        List.append_assoc]

end

/-! ## Opening files -/

namespace Host

variable {host : Host κ} {path : κ} {st : Store κ Byte}

omit [DecidableEq κ] in
theorem exec_openRead_ok {b : Bytes} (hr : host.readable path = true) (h : st path = some b) :
    (host.openRead path).exec st = (.ok b, st) := by
  rw [openRead, Script.exec_ask, if_pos hr, h]
  rfl

omit [DecidableEq κ] in
theorem exec_openRead_error (h : host.readable path = true → st path = none) :
    (host.openRead path).exec st = (.error .raised, st) := by
  rw [openRead, Script.exec_ask]
  split
  · rw [h ‹_›]
    rfl
  · rfl

theorem exec_openWrite (h : host.writable path = true) :
    (host.openWrite path).exec st = (.ok (), Function.update st path (some [])) := by
  rw [openWrite, if_pos h]
  rfl

theorem exec_openWrite_error (h : host.writable path = false) :
    (host.openWrite path).exec st = (.error .raised, st) := by
  rw [openWrite, if_neg (by simp [h])]
  rfl

theorem exec_openAppend (h : host.writable path = true) {b : Bytes} :
    (host.openAppend path).exec (Function.update st path (some b)) =
      (.ok (), Function.update st path (some b)) := by
  rw [openAppend, if_pos h, Script.exec_modifyFiles, Store.append_update, List.append_nil]

end Host

theorem exec_writeTo {out : κ} {b d : Bytes} {st : Store κ Byte} :
    (writeTo out d).exec (Function.update st out (some b)) =
      (.ok (), Function.update st out (some (b ++ d))) := by
  rw [writeTo, Script.exec_modifyFiles, Store.append_update]

/-! ## Runs -/

/-- The section to patch of an input, with the `ELFFile` it is found in. -/
def PyElfTools.target (tools : PyElfTools) (input : Bytes) (name : Str) :
    Option (PyElf × PySection) :=
  (tools.elfFile input).toOption.bind fun elf =>
    (elf.getSectionByName name).toOption.bind fun sec? => sec?.map fun sec => (elf, sec)

theorem PyElfTools.target_eq_some {tools : PyElfTools} {input : Bytes} {name : Str} {elf : PyElf}
    {sec : PySection} : tools.target input name = some (elf, sec) ↔
      tools.elfFile input = .ok elf ∧ elf.getSectionByName name = .ok (some sec) := by
  rw [target, Option.bind_eq_some_iff]
  simp only [toOption_eq_some, Option.bind_eq_some_iff, Option.map_eq_some_iff, Prod.mk.injEq]
  constructor
  · rintro ⟨elf, helf, _, hsec, _, rfl, rfl, rfl⟩
    exact ⟨helf, hsec⟩
  · rintro ⟨helf, hsec⟩
    exact ⟨elf, helf, _, hsec, sec, rfl, rfl, rfl⟩

section

variable (tools : PyElfTools) (host : Host κ) (args : Args κ) (st : Store κ Byte)

/-- What opening a file for reading shows once the output has been emptied. -/
def opened (path : κ) : Option Bytes :=
  if host.readable path then Store.create args.output st path else none

/-- The names of the preceding sections. -/
def Args.preceding : List Str := parseSectionString args.sections

/-- Everything that a run needs of its inputs: that the ELF file can be opened,
    that it has the section to patch and the preceding sections, and that the new
    instructions can be opened. -/
def Completes : Prop :=
  ∃ input elf sec, opened host args st args.elfFile = some input ∧
    tools.target input args.sectionName = some (elf, sec) ∧ elf.HasAll args.preceding ∧
    (opened host args st args.newInsns).isSome

instance : Decidable (Completes tools host args st) :=
  decidable_of_iff
    ((((opened host args st args.elfFile).bind fun input =>
        tools.target input args.sectionName).any fun t =>
      args.preceding.all fun name => (t.1.sectionBytes name).isSome) = true ∧
      (opened host args st args.newInsns).isSome = true) <| by
    simp only [Option.any_eq_true, Option.bind_eq_some_iff, List.all_eq_true]
    constructor
    · rintro ⟨⟨⟨elf, sec⟩, ⟨input, hopen, htarget⟩, hall⟩, hinsns⟩
      exact ⟨input, elf, sec, hopen, htarget, hall, hinsns⟩
    · rintro ⟨input, elf, sec, hopen, htarget, hall, hinsns⟩
      exact ⟨⟨(elf, sec), ⟨input, hopen, htarget⟩, hall⟩, hinsns⟩

/-- What a run that does not complete has written by then: the header of the input, and the
    preceding sections before the first that is missing. -/
def leftover : Bytes :=
  (opened host args st args.elfFile).elim [] fun input =>
    input.take 64 ++
      (tools.target input args.sectionName).elim [] fun t => t.1.copied args.preceding

/-- The new instructions, as read when the output holds `b`. -/
def insnsSeen (b : Bytes) : Bytes :=
  if args.newInsns = args.output then b.take host.flushed else (st args.newInsns).getD []

/-- What a run that completes has written. -/
def patched (input : Bytes) (elf : PyElf) (sec : PySection) (newInsns : Bytes) : Bytes :=
  input.take 64 ++ elf.copied args.preceding ++ patchedInsns newInsns args.removeReloc ++
    (input.drop elf.headerEnd).drop (elf.sizes args.preceding + sec.shSize)

end

section

variable {tools : PyElfTools} {host : Host κ} {args : Args κ} {st : Store κ Byte}

/-- A file that can be opened, in every later state of the run. -/
theorem exec_openRead_opened {path : κ} {d b : Bytes} (h : opened host args st path = some d)
    (hb : path = args.output → b = d) :
    (host.openRead path).exec (Function.update st args.output (some b)) =
      (.ok d, Function.update st args.output (some b)) := by
  rw [opened] at h
  split at h
  · refine Host.exec_openRead_ok ‹_› ?_
    by_cases hp : path = args.output
    · rw [hp, Function.update_self, hb hp]
    · rw [Function.update_of_ne hp]
      rwa [Store.create_of_ne hp] at h
  · cases h

theorem exec_openRead_not_opened {path : κ} {b : Bytes} (h : opened host args st path = none) :
    (host.openRead path).exec (Function.update st args.output (some b)) =
      (.error .raised, Function.update st args.output (some b)) := by
  refine Host.exec_openRead_error fun hr => ?_
  rw [opened, if_pos hr] at h
  by_cases hp : path = args.output
  · rw [hp, Store.create_self] at h
    cases h
  · rwa [Function.update_of_ne hp, ← Store.create_of_ne hp st]

/-- A file other than the output is opened as it is. -/
theorem opened_of_ne {path : κ} {d : Bytes} (hne : args.output ≠ path)
    (hr : host.readable path = true) (h : st path = some d) :
    opened host args st path = some d := by
  rw [opened, if_pos hr, Store.create_of_ne hne.symm, h]

theorem insnsSeen_of_ne {d : Bytes} (hne : args.output ≠ args.newInsns)
    (h : st args.newInsns = some d) (b : Bytes) : insnsSeen host args st b = d := by
  rw [insnsSeen, if_neg hne.symm, h]
  rfl

/-- The input is empty if it is the output, which has been emptied. -/
theorem eq_nil_of_opened {path : κ} {d : Bytes} (h : opened host args st path = some d)
    (hp : path = args.output) : d = [] := by
  rw [opened, hp] at h
  split at h
  · rw [Store.create_self] at h
    exact (Option.some.inj h).symm
  · cases h

/-- A run whose output cannot be opened does nothing. -/
theorem exec_main_denied (hw : host.writable args.output = false) :
    (main tools host args).exec st = (.error .raised, st) :=
  Script.run_bind_error (Script.run_bind_error (Host.exec_openWrite_error hw))

/-- The output holds the header of the input once it has been copied. -/
theorem exec_readElfFileHeader_ok (hw : host.writable args.output = true) {input : Bytes}
    (h : opened host args st args.elfFile = some input) :
    (readElfFileHeader host args.elfFile args.output).exec st =
      (.ok (), Function.update st args.output (some (input.take 64))) := by
  rw [readElfFileHeader, Script.run_bind_ok (Host.exec_openWrite hw),
    Script.run_bind_ok (Host.exec_openWrite hw), Function.update_idem,
    Script.run_bind_ok (exec_openRead_opened h fun hp => (eq_nil_of_opened h hp).symm),
    exec_writeTo, headerLoop_eq]
  rfl

/-- The output is empty if there is no input to copy from. -/
theorem exec_readElfFileHeader_error (hw : host.writable args.output = true)
    (h : opened host args st args.elfFile = none) :
    (readElfFileHeader host args.elfFile args.output).exec st =
      (.error .raised, Function.update st args.output (some [])) := by
  rw [readElfFileHeader, Script.run_bind_ok (Host.exec_openWrite hw),
    Script.run_bind_ok (Host.exec_openWrite hw), Function.update_idem,
    Script.run_bind_error (exec_openRead_not_opened h)]

/-- The new instructions are appended to the output. -/
theorem exec_patchInsns_ok (h : (opened host args st args.newInsns).isSome) (b : Bytes) :
    (patchInsns host args.output args.newInsns args.removeReloc).exec
        (Function.update st args.output (some b)) =
      (.ok (), Function.update st args.output
        (some (b ++ patchedInsns (insnsSeen host args st b) args.removeReloc))) := by
  rw [opened] at h
  split at h
  · by_cases hp : args.newInsns = args.output
    · have hread : (host.openRead args.newInsns).exec (Function.update st args.output (some b)) =
          (.ok b, Function.update st args.output (some b)) :=
        Host.exec_openRead_ok ‹_› (by rw [hp, Function.update_self])
      rw [patchInsns, Script.run_bind_ok hread, if_pos hp, insnsSeen, if_pos hp]
      exact exec_writeTo
    · obtain ⟨d, hd⟩ := Option.isSome_iff_exists.1 h
      rw [Store.create_of_ne hp] at hd
      have hread : (host.openRead args.newInsns).exec (Function.update st args.output (some b)) =
          (.ok d, Function.update st args.output (some b)) :=
        Host.exec_openRead_ok ‹_› (by rw [Function.update_of_ne hp, hd])
      rw [patchInsns, Script.run_bind_ok hread, if_neg hp, insnsSeen, if_neg hp, hd]
      exact exec_writeTo
  · cases h

section

variable {input b : Bytes} (hw : host.writable args.output = true)
  (hopen : opened host args st args.elfFile = some input)
  (hb : args.elfFile = args.output → b = input)

include hw hopen hb

/-- Without the section to patch, nothing more is written. -/
theorem exec_readElfSections_noTarget (h : tools.target input args.sectionName = none) :
    ∃ e, (readElfSections tools host args.elfFile args.newInsns args.sectionName args.preceding
        args.output args.removeReloc).exec (Function.update st args.output (some b)) =
      (.error e, Function.update st args.output (some b)) := by
  rw [readElfSections, Script.run_bind_ok (exec_openRead_opened hopen hb),
    Script.run_bind_ok (Host.exec_openAppend hw)]
  rcases helf : tools.elfFile input with e | elf
  · exact ⟨e, Script.run_bind_error rfl⟩
  have hget {r : Except Failure (Option PySection)}
      (hsec : elf.getSectionByName args.sectionName = r) :
      (Script.ofExcept (elf.getSectionByName args.sectionName) : Py κ _).exec
        (Function.update st args.output (some b)) =
          (r, Function.update st args.output (some b)) := by
    rw [Script.exec_ofExcept, hsec]
  rcases hsec : elf.getSectionByName args.sectionName with e | _ | sec
  · exact ⟨e, (Script.run_bind_ok rfl).trans (Script.run_bind_error (hget hsec))⟩
  · exact ⟨_, (Script.run_bind_ok rfl).trans (Script.run_bind_ok (hget hsec))⟩
  · rw [PyElfTools.target_eq_some.2 ⟨helf, hsec⟩] at h
    cases h

variable {elf : PyElf} {sec : PySection}
  (htarget : tools.target input args.sectionName = some (elf, sec))

include htarget

/-- A missing section, or missing instructions, end the run after the preceding sections
    before it. -/
theorem exec_readElfSections_error
    (h : ¬(elf.HasAll args.preceding ∧ (opened host args st args.newInsns).isSome)) :
    ∃ e, (readElfSections tools host args.elfFile args.newInsns args.sectionName args.preceding
        args.output args.removeReloc).exec (Function.update st args.output (some b)) =
      (.error e, Function.update st args.output (some (b ++ elf.copied args.preceding))) := by
  obtain ⟨helf, hsec⟩ := PyElfTools.target_eq_some.1 htarget
  have hget : (Script.ofExcept (elf.getSectionByName args.sectionName) : Py κ _).exec
      (Function.update st args.output (some b)) =
        (.ok (some sec), Function.update st args.output (some b)) := by
    rw [Script.exec_ofExcept, hsec]
  rw [readElfSections, Script.run_bind_ok (exec_openRead_opened hopen hb),
    Script.run_bind_ok (Host.exec_openAppend hw), helf]
  by_cases hall : elf.HasAll args.preceding
  · have hnone : opened host args st args.newInsns = none := by
      rw [← Option.not_isSome_iff_eq_none]
      exact fun hsome => h ⟨hall, hsome⟩
    refine ⟨.raised, (Script.run_bind_ok rfl).trans ((Script.run_bind_ok hget).trans
      ((Script.run_bind_ok (exec_copySections_ok hall 0 b st)).trans (Script.run_bind_error ?_)))⟩
    exact Script.run_bind_error (exec_openRead_not_opened hnone)
  · obtain ⟨e, he⟩ := exec_copySections_error hall 0 b st
    exact ⟨e, (Script.run_bind_ok rfl).trans ((Script.run_bind_ok hget).trans
      (Script.run_bind_error he))⟩

/-- The preceding sections, the new instructions and the rest of the input are appended. -/
theorem exec_readElfSections_ok (hall : elf.HasAll args.preceding)
    (hinsns : (opened host args st args.newInsns).isSome) :
    (readElfSections tools host args.elfFile args.newInsns args.sectionName args.preceding
        args.output args.removeReloc).exec (Function.update st args.output (some b)) =
      (.ok (), Function.update st args.output (some (b ++ elf.copied args.preceding ++
        patchedInsns (insnsSeen host args st (b ++ elf.copied args.preceding)) args.removeReloc ++
        (input.drop elf.headerEnd).drop (elf.sizes args.preceding + sec.shSize)))) := by
  obtain ⟨helf, hsec⟩ := PyElfTools.target_eq_some.1 htarget
  have hget : (Script.ofExcept (elf.getSectionByName args.sectionName) : Py κ _).exec
      (Function.update st args.output (some b)) =
        (.ok (some sec), Function.update st args.output (some b)) := by
    rw [Script.exec_ofExcept, hsec]
  rw [readElfSections, Script.run_bind_ok (exec_openRead_opened hopen hb),
    Script.run_bind_ok (Host.exec_openAppend hw), helf]
  refine (Script.run_bind_ok rfl).trans ((Script.run_bind_ok hget).trans
    ((Script.run_bind_ok (exec_copySections_ok hall 0 b st)).trans
    ((Script.run_bind_ok (exec_patchInsns_ok hinsns _)).trans ?_)))
  rw [writeRemainingBytes, exec_writeTo, remainingLoop_eq, Nat.sub_zero, Nat.zero_add]

end

/-- A run that completes has written the header of the input, the preceding sections, the new
    instructions and the rest of the input. -/
theorem exec_main_ok (hw : host.writable args.output = true) {input : Bytes} {elf : PyElf}
    {sec : PySection} (hopen : opened host args st args.elfFile = some input)
    (htarget : tools.target input args.sectionName = some (elf, sec))
    (hall : elf.HasAll args.preceding) (hinsns : (opened host args st args.newInsns).isSome) :
    (main tools host args).exec st = (.ok (), Function.update st args.output (some
      (patched args input elf sec
        (insnsSeen host args st (input.take 64 ++ elf.copied args.preceding))))) := by
  have hb : args.elfFile = args.output → input.take 64 = input := fun hp => by
    rw [eq_nil_of_opened hopen hp]
    rfl
  exact (Script.run_bind_ok (exec_readElfFileHeader_ok hw hopen)).trans
    (exec_readElfSections_ok hw hopen hb htarget hall hinsns)

/-- A run that does not complete fails, with a part of the output written. -/
theorem exec_main_error (hw : host.writable args.output = true)
    (h : ¬Completes tools host args st) :
    ∃ e, (main tools host args).exec st =
      (.error e, Function.update st args.output (some (leftover tools host args st))) := by
  rw [leftover]
  cases hopen : opened host args st args.elfFile with
  | none => exact ⟨_, Script.run_bind_error (exec_readElfFileHeader_error hw hopen)⟩
  | some input =>
    have hb : args.elfFile = args.output → input.take 64 = input := fun hp => by
      rw [eq_nil_of_opened hopen hp]
      rfl
    have hheader := exec_readElfFileHeader_ok hw hopen
    cases htarget : tools.target input args.sectionName with
    | none =>
      obtain ⟨e, he⟩ := exec_readElfSections_noTarget hw hopen hb htarget
      refine ⟨e, (Script.run_bind_ok hheader).trans (he.trans ?_)⟩
      simp [htarget]
    | some t =>
      obtain ⟨elf, sec⟩ := t
      obtain ⟨e, he⟩ := exec_readElfSections_error hw hopen hb htarget fun hall =>
        h ⟨input, elf, sec, hopen, htarget, hall⟩
      refine ⟨e, (Script.run_bind_ok hheader).trans (he.trans ?_)⟩
      simp [htarget]

/-- A run completes or fails, and its inputs tell which. -/
theorem main_ok_iff : (∃ st', (main tools host args).exec st = (.ok (), st')) ↔
    host.writable args.output = true ∧ Completes tools host args st := by
  constructor
  · rintro ⟨st', h⟩
    rcases hw : host.writable args.output with _ | _
    · rw [exec_main_denied hw] at h
      cases h
    · refine ⟨rfl, ?_⟩
      by_contra hc
      obtain ⟨e, he⟩ := exec_main_error hw hc
      rw [he] at h
      cases h
  · rintro ⟨hw, input, elf, sec, hopen, htarget, hall, hinsns⟩
    exact ⟨_, exec_main_ok hw hopen htarget hall hinsns⟩

end

end BpfElfTools.Patcher
