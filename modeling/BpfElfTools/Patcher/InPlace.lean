import BpfElfTools.Lib.Splice
import BpfElfTools.Patcher.Failure

/-!
# Patching in place

A run of the patcher never looks at where the section to patch is: it replaces
as many bytes as the section has after the header and the preceding sections. So
it patches the section in place exactly if those fill the input up to it, and it
goes on copying where the section ends.

* `main_inPlace`: what a run writes, and when that is the input with the section
  replaced;
* `not_main_inPlace`: what is not promised: preceding sections that are
  compressed, and a section header table under the section.
-/

namespace BpfElfTools.Patcher

open Elf64 Splice

/-- The header and what follows it fill the file up to `o` if they are its first bytes. -/
theorem take_append_eq_take_iff {f d : Bytes} {o : ℕ} (hf : 64 ≤ f.length) (ho : o ≤ f.length) :
    f.take 64 ++ d = f.take o ↔ 64 + d.length = o ∧ d = f.extract 64 o := by
  constructor
  · intro h
    have hlen := congrArg List.length h
    rw [List.length_append, List.length_take, List.length_take, Nat.min_eq_left hf,
      Nat.min_eq_left ho] at hlen
    refine ⟨hlen, ?_⟩
    have hdrop := congrArg (List.drop 64) h
    rwa [List.drop_left' (List.length_take_of_le hf), List.drop_take,
      ← List.extract_eq_take_drop] at hdrop
  · rintro ⟨hlen, hd⟩
    rw [hd, List.extract_eq_take_drop, ← List.take_add, Nat.add_sub_cancel' (by omega)]

section

variable {elf : PyElf}

/-- The sizes of sections that are shown in full add up to the bytes copied. -/
theorem PyElf.sizes_eq_length {names : List Str} (hall : elf.HasAll names)
    (hdata : ∀ name ∈ names, ∀ d, elf.sectionBytes name = some d →
      d.length = elf.sectionSize name) : elf.sizes names = (elf.copied names).length := by
  induction names with
  | nil => rfl
  | cons name names ih =>
    obtain ⟨d, hd⟩ := Option.isSome_iff_exists.1 (hall name List.mem_cons_self)
    have hrest := ih (fun n hn => hall n (List.mem_cons_of_mem _ hn))
      fun n hn => hdata n (List.mem_cons_of_mem _ hn)
    rw [PyElf.sizes] at hrest ⊢
    rw [List.map_cons, List.sum_cons, hrest, PyElf.copied_cons_some hd, List.length_append,
      hdata name List.mem_cons_self d hd]

end

variable {κ : Type} [DecidableEq κ]

/-- A run whose files are three different ones writes the header, the preceding sections, the
    new instructions, and the input from there on. -/
theorem exec_main_output {tools : PyElfTools} {host : Host κ} {args : Args κ}
    {st st' : Store κ Byte} {input newInsns : Bytes} {elf : PyElf} {sec : PySection}
    (hne : args.output ≠ args.elfFile) (hne' : args.output ≠ args.newInsns)
    (hinput : st args.elfFile = some input) (hinsns : st args.newInsns = some newInsns)
    (htarget : tools.target input args.sectionName = some (elf, sec))
    (hrun : (main tools host args).exec st = (.ok (), st')) :
    elf.HasAll args.preceding ∧ st' args.output = some (patched args input elf sec newInsns) := by
  obtain ⟨hw, input', elf', sec', hopen, htarget', hall, hsome⟩ := main_ok_iff.1 ⟨st', hrun⟩
  have hinput' : input' = input := by
    rw [opened, Store.create_of_ne hne.symm] at hopen
    split at hopen
    · exact Option.some.inj (hopen.symm.trans hinput)
    · cases hopen
  subst hinput'
  obtain ⟨rfl, rfl⟩ := Prod.mk.inj (Option.some.inj (htarget'.symm.trans htarget))
  refine ⟨hall, ?_⟩
  rw [exec_main_ok hw hopen htarget hall hsome] at hrun
  obtain ⟨-, rfl⟩ := Prod.mk.inj hrun
  rw [Function.update_self, insnsSeen_of_ne hne' hinsns]

/-- What a run without `--remove-reloc` writes to an output of its own, and when that is the
    input with the section replaced in place: the sections that precede it must fill the input
    between the header and the section, and what is copied after it must be what follows it in the
    input. Every other byte of the input is then kept. If none of the preceding sections is
    compressed, what follows is copied from where it is.

    Of pyelftools it is assumed that the stream is left after the header, and that the data of a
    section that is not compressed are as many bytes as its header says. -/
theorem main_inPlace {tools : PyElfTools} {host : Host κ} {args : Args κ} {input : Bytes}
    {elf : PyElf} {sec : PySection} (hne : args.output ≠ args.elfFile)
    (hne' : args.output ≠ args.newInsns) (hreloc : args.removeReloc = false)
    (hinput : IsElf64 input)
    (htarget : tools.target input args.sectionName = some (elf, sec)) (hpos : 0 < sec.shSize)
    (hin : sec.shOffset + sec.shSize ≤ input.length) (hall : elf.HasAll args.preceding)
    (hend : elf.headerEnd = 64)
    (hdata : ∀ name ∈ args.preceding, ∀ sec', elf.getSectionByName name = .ok (some sec') →
      sec'.compressed = false → ∀ d, sec'.data = .ok d → d.length = sec'.shSize) :
    (∀ st st' newInsns, st args.elfFile = some input → st args.newInsns = some newInsns →
      (main tools host args).exec st = (.ok (), st') →
      st' args.output = some (input.take 64 ++ elf.copied args.preceding ++ newInsns ++
        input.drop (64 + elf.sizes args.preceding + sec.shSize))) ∧
    ((∀ newInsns : Bytes, newInsns.length = sec.shSize →
        input.take 64 ++ elf.copied args.preceding ++ newInsns ++
            input.drop (64 + elf.sizes args.preceding + sec.shSize) =
          splice sec.shOffset newInsns input) ↔
      64 + (elf.copied args.preceding).length = sec.shOffset ∧
        elf.copied args.preceding = input.extract 64 sec.shOffset ∧
        input.drop (64 + elf.sizes args.preceding + sec.shSize) =
          input.drop (sec.shOffset + sec.shSize)) ∧
    (64 + (elf.copied args.preceding).length = sec.shOffset ∧
        elf.copied args.preceding = input.extract 64 sec.shOffset ∧
        input.drop (64 + elf.sizes args.preceding + sec.shSize) =
          input.drop (sec.shOffset + sec.shSize) →
      ∀ st st' newInsns, st args.elfFile = some input → st args.newInsns = some newInsns →
        newInsns.length = sec.shSize → (main tools host args).exec st = (.ok (), st') →
        ∃ output, st' args.output = some output ∧ output.length = input.length ∧
          output.take 64 = input.take 64 ∧
          ∀ a b, b ≤ sec.shOffset ∨ sec.shOffset + sec.shSize ≤ a →
            output.extract a b = input.extract a b) ∧
    ((∀ name ∈ args.preceding, ∀ sec', elf.getSectionByName name = .ok (some sec') →
        sec'.compressed = false) →
      elf.sizes args.preceding = (elf.copied args.preceding).length ∧
      ((∀ newInsns : Bytes, newInsns.length = sec.shSize →
          input.take 64 ++ elf.copied args.preceding ++ newInsns ++
              input.drop (64 + elf.sizes args.preceding + sec.shSize) =
            splice sec.shOffset newInsns input) ↔
        64 + (elf.copied args.preceding).length = sec.shOffset ∧
          elf.copied args.preceding = input.extract 64 sec.shOffset)) := by
  have hbyte : Nontrivial Byte := ⟨0, 1, by decide⟩
  have hwrites : ∀ st st' newInsns, st args.elfFile = some input →
      st args.newInsns = some newInsns → (main tools host args).exec st = (.ok (), st') →
      st' args.output = some (input.take 64 ++ elf.copied args.preceding ++ newInsns ++
        input.drop (64 + elf.sizes args.preceding + sec.shSize)) := by
    intro st st' newInsns hst hst' hrun
    rw [(exec_main_output hne hne' hst hst' htarget hrun).2, patched, patchedInsns, hreloc, hend,
      List.drop_drop, Nat.add_assoc]
    rfl
  have hinPlace := append_hole_eq_splice_iff hpos hin
    (p := input.take 64 ++ elf.copied args.preceding)
    (r := input.drop (64 + elf.sizes args.preceding + sec.shSize))
  rw [take_append_eq_take_iff hinput.1 (by omega), and_assoc] at hinPlace
  refine ⟨hwrites, hinPlace, fun hfill st st' newInsns hst hst' hnew hrun => ?_, fun hcomp => ?_⟩
  · have hfits : sec.shOffset + newInsns.length ≤ input.length := by rw [hnew]; exact hin
    refine ⟨splice sec.shOffset newInsns input, ?_, length_splice hfits, ?_,
      fun a b hab => extract_splice hfits (by rwa [hnew])⟩
    · rw [hwrites st st' newInsns hst hst' hrun, hinPlace.2 hfill newInsns hnew]
    · have hheader := extract_splice (a := 0) hfits (.inl (by omega : 64 ≤ sec.shOffset))
      simpa only [List.extract_eq_take_drop, Nat.sub_zero, List.drop_zero] using hheader
  · have hsizes : elf.sizes args.preceding = (elf.copied args.preceding).length := by
      refine PyElf.sizes_eq_length hall fun name hname d hd => ?_
      obtain ⟨sec', hsec', hd'⟩ := PyElf.sectionBytes_eq_some.1 hd
      rw [hdata name hname sec' hsec' (hcomp name hname sec' hsec') d hd', PyElf.sectionSize,
        hsec']
    -- What follows is copied from its own place as soon as the section is where it should be.
    refine ⟨hsizes, hinPlace.trans ⟨fun hfill => ⟨hfill.1, hfill.2.1⟩, fun hfill => ⟨hfill.1,
      hfill.2, ?_⟩⟩⟩
    rw [hsizes, hfill.1]

/-! ## Compressed sections, and a section header table that is patched -/

/-- The contents of a compressed section: its header, and a `zlib` stream of eight zeros. -/
def zeros : Bytes :=
  leBytes 4 1 ++ leBytes 4 0 ++ leBytes 8 8 ++ leBytes 8 1 ++ [0x78, 0x01, 0x01] ++ leBytes 2 8 ++
    leBytes 2 0xfff7 ++ List.replicate 8 0 ++ [0, 8, 0, 1]

/-- The file of a compressed section and a program. -/
def compressedFile : Bytes :=
  file [(cstr ".zdata", 0x800, zeros), (cstr "prog", 6, List.replicate 8 2)]

/-- A file whose program is the first eight bytes of its section header table. -/
def overlapFile : Bytes :=
  header 64 3 2 ++ shdrBytes 0 0 0 0 0 ++ shdrBytes 1 shtProgbits 6 64 8 ++
    shdrBytes 6 shtStrtab 0 256 16 ++ ([0] ++ cstr "prog" ++ [0] ++ cstr ".shstrtab" ++ [0])

/-- The program is patched, after the sections given. -/
def progArgs (sections : String) : Args ℕ :=
  { elfFile := 0, newInsns := 1, sectionName := "prog".toList, sections := sections.toList,
    output := 2 }

/-- The new instructions. -/
def progInsns : Bytes := List.replicate 8 3

/-- The files: an object, and the new instructions. -/
def progFiles (input : Bytes) : Store ℕ Byte := fun path => [input, progInsns][path]?

/-- A run on the small files, described by the section it has found. -/
theorem exists_exec_main {sections : String} {input : Bytes} {P : PyElf → PySection → Bytes → Prop}
    [∀ elf sec output, Decidable (P elf sec output)]
    (h : (sampleTools.target input (progArgs sections).sectionName).any (fun t =>
      t.1.HasAll (progArgs sections).preceding ∧
        P t.1 t.2 (patched (progArgs sections) input t.1 t.2 progInsns)) = true) :
    ∃ elf sec st' output, sampleTools.target input (progArgs sections).sectionName =
        some (elf, sec) ∧ elf.HasAll (progArgs sections).preceding ∧
      (main sampleTools openHost (progArgs sections)).exec (progFiles input) = (.ok (), st') ∧
      st' 2 = some output ∧ P elf sec output := by
  obtain ⟨⟨elf, sec⟩, htarget, ht⟩ := (Option.any_eq_true _ _).1 h
  obtain ⟨hall, hP⟩ := of_decide_eq_true ht
  exact ⟨elf, sec, _, _, htarget, hall, exec_main_ok rfl rfl htarget hall rfl,
    Function.update_self _ _ _, hP⟩

/-- A file of two sections. -/
def twoFile : Bytes :=
  file [(cstr "a", 6, List.replicate 8 1), (cstr "prog", 6, List.replicate 8 2)]

theorem main_inPlace_prog : ∃ st' output,
    (main sampleTools openHost (progArgs "a")).exec (progFiles twoFile) = (.ok (), st') ∧
      st' 2 = some output ∧ output.length = twoFile.length ∧
      output.take 64 = twoFile.take 64 := by
  have hrun : ∃ elf sec st' output, sampleTools.target twoFile (progArgs "a").sectionName =
        some (elf, sec) ∧ elf.HasAll (progArgs "a").preceding ∧
      (main sampleTools openHost (progArgs "a")).exec (progFiles twoFile) = (.ok (), st') ∧
      st' 2 = some output ∧
      (0 < sec.shSize ∧ sec.shOffset + sec.shSize ≤ twoFile.length ∧
        progInsns.length = sec.shSize ∧ elf.headerEnd = 64 ∧
        (∀ name ∈ (progArgs "a").preceding,
          (elf.sectionBytes name).map List.length = some (elf.sectionSize name) ∧
            (elf.getSectionByName name).toOption.join.all (fun s => !s.compressed) = true) ∧
        64 + (elf.copied (progArgs "a").preceding).length = sec.shOffset ∧
        elf.copied (progArgs "a").preceding = twoFile.extract 64 sec.shOffset) :=
    exists_exec_main (by decide +kernel)
  obtain ⟨elf, sec, st', _, htarget, hall, hexec, -, hpos, hin, hlen, hend, hsecs, hfill⟩ := hrun
  obtain ⟨-, -, hframe, hcorollary⟩ := @main_inPlace ℕ _ sampleTools openHost (progArgs "a")
    twoFile elf sec (by decide) (by decide) rfl (by decide +kernel) htarget hpos hin hall hend
    fun name hname sec' hsec' _ d hd => by
      have hbytes := (hsecs name hname).1
      rw [PyElf.sectionBytes_eq_some.2 ⟨sec', hsec', hd⟩, PyElf.sectionSize, hsec'] at hbytes
      exact Option.some.inj hbytes
  obtain ⟨hsizes, -⟩ := hcorollary fun name hname sec' hsec' => by
    have hcomp := (hsecs name hname).2
    rw [hsec'] at hcomp
    simpa [Except.toOption] using hcomp
  obtain ⟨output, houtput, hsize, hheader, -⟩ := hframe
    ⟨hfill.1, hfill.2, by rw [hsizes, hfill.1]⟩ _ st' progInsns rfl rfl hlen hexec
  exact ⟨st', output, hexec, houtput, hsize, hheader⟩

/-- After a compressed section the rest of the input is taken from elsewhere, and a section
    that lies in the section header table is patched there. -/
theorem not_main_inPlace :
    (IsElf64 compressedFile ∧ ∃ elf sec st' output,
      sampleTools.target compressedFile (progArgs ".zdata").sectionName = some (elf, sec) ∧
      elf.HasAll (progArgs ".zdata").preceding ∧
      (main sampleTools openHost (progArgs ".zdata")).exec (progFiles compressedFile) =
        (.ok (), st') ∧ st' 2 = some output ∧
      0 < sec.shSize ∧ sec.shOffset + sec.shSize ≤ compressedFile.length ∧
      output ≠ compressedFile.take 64 ++ elf.copied (progArgs ".zdata").preceding ++ progInsns ++
        compressedFile.drop
          (64 + (elf.copied (progArgs ".zdata").preceding).length + sec.shSize)) ∧
    (IsElf64 overlapFile ∧ ∃ elf sec st' output,
      sampleTools.target overlapFile (progArgs "").sectionName = some (elf, sec) ∧
      elf.HasAll (progArgs "").preceding ∧
      (main sampleTools openHost (progArgs "")).exec (progFiles overlapFile) = (.ok (), st') ∧
      st' 2 = some output ∧
      0 < sec.shSize ∧ sec.shOffset + sec.shSize ≤ overlapFile.length ∧
      progInsns.length = sec.shSize ∧
      64 + (elf.copied (progArgs "").preceding).length = sec.shOffset ∧
      elf.copied (progArgs "").preceding = overlapFile.extract 64 sec.shOffset ∧
      output.extract (shoff overlapFile) (shoff overlapFile + shnum overlapFile * 64) ≠
        overlapFile.extract (shoff overlapFile) (shoff overlapFile + shnum overlapFile * 64)) := by
  refine ⟨⟨by decide +kernel, exists_exec_main ?_⟩, by decide +kernel, exists_exec_main ?_⟩ <;>
    decide +kernel

end BpfElfTools.Patcher
