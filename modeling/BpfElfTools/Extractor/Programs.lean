import BpfElfTools.Extractor.Object
import BpfElfTools.Lib.Owners
import BpfElfTools.Lib.Search
import BpfElfTools.Lib.Tiling

/-!
# Programs

The programs of an executable section are the functions that follow one another
in it (`BpfObject.addPrograms`); an instruction of a section is attributed to a
program by a binary search over all the programs of the object, sorted by
section and offset (`findProgBySecInsn`).

* `BpfObject.addPrograms_ok`: the programs of a section tile it, and hold its
  instructions (`IsProgsOf`);
* `findProgBySecInsn_eq_some`: the search finds the program an instruction is in,
  if the programs are in order (`Ordered`).
-/

namespace BpfElfTools.Extractor

/-! ## The programs of a section -/

/-- `elf_sym_by_sec_off`. -/
def elfSymBySecOff (symbols : ElfData) (secIdx off symType : ℕ) : Option GElfSym :=
  (symbols.syms.take (symbols.size / sizeofGElfSym)).find? fun sym =>
    sym.shndx = secIdx ∧ sym.value = off ∧ sym.type = symType

/-- `bpf_object__init_prog`, for the `insnDataSz` bytes of `data` from `secOff` on.
    The allocation of the instructions fails beyond `PTRDIFF_MAX`. -/
def initProg (name : Bytes) (secIdx : ℕ) (secName : Bytes) (secOff : ℕ) (data : Bytes)
    (insnDataSz : ℕ) : Except Err BpfProgram :=
  if insnDataSz = 0 ∨ insnDataSz % bpfInsnSz ≠ 0 ∨ secOff % bpfInsnSz ≠ 0 then .error .einval
  else if 2 ^ 63 ≤ insnDataSz then .error .enomem
  else .ok {
    secName := secName
    secIdx := secIdx
    secInsnOff := secOff / bpfInsnSz
    secInsnCnt := insnDataSz / bpfInsnSz
    name := name
    insns := readInsns (data.extract secOff (secOff + insnDataSz))
    relocDesc := [] }

/-- The loop of `bpf_object__add_programs` from `secOff` on, for at most `fuel`
    programs (each takes at least one byte). -/
def addProgramsLoop (symbols : ElfData) (data : Bytes) (secName : Bytes) (secIdx : ℕ) :
    (fuel secOff : ℕ) → (progs : List BpfProgram) → Except Err (List BpfProgram)
  | 0, _, progs => .ok progs
  | fuel + 1, secOff, progs =>
    if secOff < data.length then
      match elfSymBySecOff symbols secIdx secOff sttFunc with
      | none => .error .format
      | some sym =>
        match sym.name with
        | none => .error .format
        | some name =>
          -- The sum of the offset and the size is one of 64-bit integers.
          if data.length < (secOff + sym.size) % 2 ^ 64 then .error .format
          else
            match initProg name secIdx secName secOff data sym.size with
            | .error err => .error err
            | .ok prog =>
              addProgramsLoop symbols data secName secIdx fuel (secOff + sym.size) (progs ++ [prog])
    else .ok progs

/-- `bpf_object__add_programs`. -/
def BpfObject.addPrograms (obj : BpfObject) (secData : ElfData) (secName : Bytes) (secIdx : ℕ) :
    Except Err BpfObject :=
  match secData.buf with
  | none => .error .fault
  | some data =>
    match obj.efile.symbols with
    | none => .error .fault
    | some symbols => do
      let progs ← addProgramsLoop symbols data secName secIdx data.length 0 obj.programs
      return { obj with programs := progs }

/-! ## Sorting and searching -/

/-- `cmp_progs`. -/
def cmpProgs (a b : BpfProgram) : ℤ :=
  if a.secIdx ≠ b.secIdx then if a.secIdx < b.secIdx then -1 else 1
  else if a.secInsnOff < b.secInsnOff then -1 else 1

/-- `prog_contains_insn`. -/
def BpfProgram.containsInsn (prog : BpfProgram) (insnIdx : ℕ) : Bool :=
  prog.secInsnOff ≤ insnIdx ∧ insnIdx < prog.secInsnOff + prog.secInsnCnt

/-- The test of the binary search: the program does not come after the instruction. -/
def BpfProgram.startsBefore (prog : BpfProgram) (secIdx insnIdx : ℕ) : Bool :=
  prog.secIdx < secIdx ∨ (prog.secIdx = secIdx ∧ prog.secInsnOff ≤ insnIdx)

/-- The index at which the binary search of `find_prog_by_sec_insn` ends. -/
def searchProg (programs : List BpfProgram) (secIdx insnIdx : ℕ) : ℕ :=
  Search.lastSat (fun m => programs[m]?.any (·.startsBefore secIdx insnIdx))
    programs.length 0 (programs.length - 1)

/-- `find_prog_by_sec_insn`: the index of the program found. The programs of an
    object without any are a null pointer, which is read after the search. -/
def findProgBySecInsn (programs : List BpfProgram) (secIdx insnIdx : ℕ) : Except Err (Option ℕ) :=
  match programs[searchProg programs secIdx insnIdx]? with
  | none => .error .fault
  | some prog => .ok (if prog.secIdx = secIdx ∧ prog.containsInsn insnIdx then
      some (searchProg programs secIdx insnIdx) else none)

/-! ## The tiling of a section -/

/-- The programs `l` are those of the section `secIdx`, named `secName`, with the
    contents `data`: they tile it, and hold its instructions. -/
structure IsProgsOf (secIdx : ℕ) (secName data : Bytes) (l : List BpfProgram) (off : ℕ) : Prop where
  tiles : Tiling.Tiles BpfProgram.secInsnOff BpfProgram.secInsnCnt l off (data.length / bpfInsnSz)
  dvd : bpfInsnSz ∣ data.length
  of_mem : ∀ p ∈ l, p.secIdx = secIdx ∧ p.secName = secName ∧ p.relocDesc = [] ∧
    p.insns = (readInsns data).extract p.secInsnOff (p.secInsnOff + p.secInsnCnt)

/-- What a program initialised within its section is. -/
theorem initProg_ok {name : Bytes} {secIdx : ℕ} {secName : Bytes} {secOff : ℕ} {data : Bytes}
    {sz : ℕ} {prog : BpfProgram} (h : initProg name secIdx secName secOff data sz = .ok prog) :
    ∃ o n, secOff = bpfInsnSz * o ∧ sz = bpfInsnSz * n ∧ 0 < n ∧ sz < 2 ^ 63 ∧
      prog = ⟨secName, secIdx, o, n, name, (readInsns data).extract o (o + n), []⟩ := by
  rw [initProg] at h
  split at h
  · cases h
  split at h
  · cases h
  rename_i hbad hbig
  simp only [bpfInsnSz, not_or, not_not] at hbad
  cases h
  refine ⟨secOff / bpfInsnSz, sz / bpfInsnSz, ?_, ?_, ?_, by omega, ?_⟩
  · simp only [bpfInsnSz]; omega
  · simp only [bpfInsnSz]; omega
  · simp only [bpfInsnSz]; omega
  · have hoff : secOff = bpfInsnSz * (secOff / bpfInsnSz) := by simp only [bpfInsnSz]; omega
    have hend : secOff + sz = bpfInsnSz * (secOff / bpfInsnSz + sz / bpfInsnSz) := by
      simp only [bpfInsnSz]; omega
    congr 1
    rw [← readInsns_extract, ← hend, ← hoff]

/-- The loop adds programs that tile the rest of the section. -/
theorem addProgramsLoop_ok {symbols : ElfData} {data secName : Bytes} {secIdx fuel o : ℕ}
    {progs progs' : List BpfProgram} (hdata : data.length < 2 ^ 63)
    (hfuel : data.length ≤ bpfInsnSz * o + fuel) (ho : bpfInsnSz * o ≤ data.length)
    (h : addProgramsLoop symbols data secName secIdx fuel (bpfInsnSz * o) progs = .ok progs') :
    ∃ l, progs' = progs ++ l ∧ IsProgsOf secIdx secName data l o := by
  induction fuel generalizing o progs with
  | zero =>
    cases h
    have hlen : data.length = bpfInsnSz * o := by omega
    refine ⟨[], (List.append_nil _).symm, ?_, ⟨o, hlen⟩, fun p hp => absurd hp List.not_mem_nil⟩
    simp [Tiling.Tiles, hlen, bpfInsnSz]
  | succ fuel ih =>
    rw [addProgramsLoop] at h
    split at h
    · rename_i hlt
      split at h
      · cases h
      rename_i sym hsym
      split at h
      · cases h
      split at h
      · cases h
      rename_i hcross
      split at h
      · cases h
      rename_i prog hprog
      obtain ⟨o', n, ho', hn, hpos, hsz, rfl⟩ := initProg_ok hprog
      obtain rfl : o = o' := by simp only [bpfInsnSz] at ho'; omega
      -- Neither the offset nor the size reaches 2^63: their sum does not wrap around.
      have hin : bpfInsnSz * o + sym.size ≤ data.length := by
        rw [Nat.mod_eq_of_lt (by omega)] at hcross
        omega
      have hnext : bpfInsnSz * o + sym.size = bpfInsnSz * (o + n) := by rw [hn]; ring
      rw [hnext] at h hin
      obtain ⟨l, rfl, htiles, hdvd, hof⟩ := ih
        (by simp only [bpfInsnSz] at *; omega) hin h
      refine ⟨_ :: l, by rw [List.append_assoc, List.singleton_append], ⟨rfl, hpos, htiles⟩,
        hdvd, ?_⟩
      intro p hp
      rcases List.mem_cons.1 hp with rfl | hp'
      · exact ⟨rfl, rfl, rfl, rfl⟩
      · exact hof p hp'
    · cases h
      have hlen : data.length = bpfInsnSz * o := by omega
      refine ⟨[], (List.append_nil _).symm, ?_, ⟨o, hlen⟩, fun p hp => absurd hp List.not_mem_nil⟩
      simp [Tiling.Tiles, hlen, bpfInsnSz]

/-- The programs added for a section tile it. -/
theorem BpfObject.addPrograms_ok {obj obj' : BpfObject} {secData : ElfData} {secName : Bytes}
    {secIdx : ℕ} (h : obj.addPrograms secData secName secIdx = .ok obj') :
    ∃ l, obj' = { obj with programs := obj.programs ++ l } ∧
      IsProgsOf secIdx secName secData.bytes l 0 := by
  rw [BpfObject.addPrograms] at h
  split at h
  · cases h
  rename_i data hdata
  split at h
  · cases h
  simp only [bind, Except.bind] at h
  split at h
  · cases h
  rename_i progs hloop
  cases h
  have hlen := secData.length_buf data hdata
  obtain ⟨l, rfl, hl⟩ := addProgramsLoop_ok (o := 0) (hlen ▸ secData.size_lt) (by omega)
    (Nat.zero_le _) hloop
  exact ⟨l, rfl, by rwa [ElfData.bytes, hdata]⟩

/-! ## The program of an instruction -/

/-- The programs are in the order of their sections, and those of a section follow one
    another without overlapping. -/
def Ordered (programs : List BpfProgram) : Prop :=
  programs.Pairwise fun a b => a.secIdx < b.secIdx ∨
    (a.secIdx = b.secIdx ∧ a.secInsnOff + a.secInsnCnt ≤ b.secInsnOff)

/-- Sorting programs that are in order changes nothing. -/
theorem Ordered.qsort_eq {programs : List BpfProgram} (h : Ordered programs)
    (hpos : ∀ p ∈ programs, 0 < p.secInsnCnt) : qsort cmpProgs programs = programs := by
  refine Sorting.sort_eq_self (List.Pairwise.imp_of_mem ?_ h)
  intro a b ha _ hab
  have := hpos a ha
  simp only [cmpProgs]
  split_ifs <;> omega

theorem BpfProgram.containsInsn_iff {prog : BpfProgram} {n : ℕ} :
    prog.containsInsn n = true ↔
      Tiling.Covers BpfProgram.secInsnOff BpfProgram.secInsnCnt prog n := by
  simp [BpfProgram.containsInsn, Tiling.Covers]

/-- A program found is one of the section, and holds the instruction. -/
theorem of_findProgBySecInsn {programs : List BpfProgram} {secIdx n p : ℕ}
    (h : findProgBySecInsn programs secIdx n = .ok (some p)) :
    ∃ prog, programs[p]? = some prog ∧ prog.secIdx = secIdx ∧ prog.containsInsn n = true := by
  rw [findProgBySecInsn] at h
  split at h
  · cases h
  rename_i prog hprog
  split at h
  · rename_i hcond
    cases h
    exact ⟨prog, hprog, hcond⟩
  · cases h

/-- The program that holds an instruction is found. -/
theorem findProgBySecInsn_eq_some {programs : List BpfProgram} (hord : Ordered programs)
    {p n : ℕ} {prog : BpfProgram} (hp : programs[p]? = some prog)
    (hn : prog.containsInsn n = true) :
    findProgBySecInsn programs prog.secIdx n = .ok (some p) := by
  have hlen : p < programs.length := (List.getElem?_eq_some_iff.1 hp).1
  have hget : programs[p] = prog := (List.getElem?_eq_some_iff.1 hp).2
  have hcov := BpfProgram.containsInsn_iff.1 hn
  rw [Tiling.Covers] at hcov
  have hlast : searchProg programs prog.secIdx n = p := by
    refine Search.lastSat_eq (Nat.zero_le _) (by omega) (by omega) fun m _ hm => ?_
    have hm' : m < programs.length := by omega
    rw [List.getElem?_eq_getElem hm', Option.any_some, BpfProgram.startsBefore, decide_eq_true_iff]
    rcases Nat.lt_trichotomy m p with hlt | rfl | hgt
    · have := List.pairwise_iff_getElem.1 hord m p hm' hlen hlt
      rw [hget] at this
      omega
    · rw [hget]
      omega
    · have := List.pairwise_iff_getElem.1 hord p m hlen hm' hgt
      rw [hget] at this
      omega
  rw [findProgBySecInsn, hlast, hp]
  simp [hn]

/-- The program is one of the section `secIdx`, and holds its instruction `n`. -/
def BpfProgram.holds (prog : BpfProgram) (secIdx n : ℕ) : Bool :=
  prog.secIdx = secIdx ∧ prog.containsInsn n

theorem BpfProgram.holds_iff {prog : BpfProgram} {secIdx n : ℕ} :
    prog.holds secIdx n = true ↔
      prog.secIdx = secIdx ∧ prog.secInsnOff ≤ n ∧ n < prog.secInsnOff + prog.secInsnCnt := by
  simp [BpfProgram.holds, BpfProgram.containsInsn]

/-- The program found is the one that holds the instruction. -/
theorem findProgBySecInsn_iff {programs : List BpfProgram} (hord : Ordered programs)
    {secIdx n p : ℕ} :
    findProgBySecInsn programs secIdx n = .ok (some p) ↔
      ∃ prog, programs[p]? = some prog ∧ prog.holds secIdx n = true := by
  refine ⟨fun h => ?_, fun ⟨prog, hp, hholds⟩ => ?_⟩
  · obtain ⟨prog, hp, hidx, hn⟩ := of_findProgBySecInsn h
    exact ⟨prog, hp, by simp [BpfProgram.holds, hidx, hn]⟩
  · obtain ⟨hidx, hn⟩ := of_decide_eq_true hholds
    rw [← hidx]
    exact findProgBySecInsn_eq_some hord hp hn

/-- No two programs hold the same instruction. -/
theorem Ordered.countP_holds {programs : List BpfProgram} (hord : Ordered programs)
    {secIdx n : ℕ} {prog : BpfProgram} (hp : prog ∈ programs)
    (hholds : prog.holds secIdx n = true) : programs.countP (·.holds secIdx n) = 1 := by
  have hpos : 0 < programs.countP (·.holds secIdx n) := List.countP_pos_iff.2 ⟨prog, hp, hholds⟩
  have hle : programs.countP (·.holds secIdx n) ≤ 1 := by
    refine Owners.countP_le_one (hord.imp fun {a b} hab => ?_)
    rintro ⟨ha, hb⟩
    have ha' := BpfProgram.holds_iff.1 ha
    have hb' := BpfProgram.holds_iff.1 hb
    omega
  omega

/-- The search depends on the places of the programs only. -/
theorem findProgBySecInsn_map (f : BpfProgram → BpfProgram)
    (hf : ∀ p, (f p).secIdx = p.secIdx ∧ (f p).secInsnOff = p.secInsnOff ∧
      (f p).secInsnCnt = p.secInsnCnt) (programs : List BpfProgram) (secIdx n : ℕ) :
    findProgBySecInsn (programs.map f) secIdx n = findProgBySecInsn programs secIdx n := by
  have hstarts (m : ℕ) : (programs.map f)[m]?.any (·.startsBefore secIdx n) =
      programs[m]?.any (·.startsBefore secIdx n) := by
    rw [List.getElem?_map]
    cases programs[m]? with
    | none => rfl
    | some p => simp [BpfProgram.startsBefore, hf p]
  have hsearch : searchProg (programs.map f) secIdx n = searchProg programs secIdx n := by
    simp only [searchProg, hstarts, List.length_map]
  rw [findProgBySecInsn, findProgBySecInsn, hsearch, List.getElem?_map]
  cases programs[searchProg programs secIdx n]? with
  | none => rfl
  | some p => simp [BpfProgram.containsInsn, hf p]

end BpfElfTools.Extractor
