import BpfElfTools.Extractor.Dump

/-!
# The files of the programs

`extract` writes four files for each program, named after its section. None of
them should be lost, nor its extension (`Kept`), which is so exactly when the
sections of the programs have short names, all different once their slashes are
dashes (`NamesDiffer`).

* `filePath_inj`: short names that differ give paths that differ;
* `kept_iff`: the files are kept if and only if the names are such;
* `not_kept`: the files of two programs of one section are the same.
-/

namespace BpfElfTools.Extractor

/-! ## Paths -/

/-- The kinds of the files of a program. -/
inductive FileKind
  | insns
  | txt
  | rel
  | maps
  deriving DecidableEq, Repr

namespace FileKind

/-- All the kinds. -/
def all : List FileKind := [insns, txt, rel, maps]

/-- The extension of the files of a kind. -/
def ext : FileKind → String
  | insns => ".insns"
  | txt => ".txt"
  | rel => ".rel"
  | maps => ".maps"

/-- The extension without its dot. -/
def suffix (kind : FileKind) : Bytes := (cstr kind.ext).tail

theorem cstr_ext (kind : FileKind) : cstr kind.ext = 0x2e :: kind.suffix := by cases kind <;> rfl

theorem dot_notMem_suffix (kind : FileKind) : 0x2e ∉ kind.suffix := by cases kind <;> decide

theorem suffix_injective : Function.Injective suffix := by
  intro kind kind'
  cases kind <;> cases kind' <;> decide

theorem length_ext_le (kind : FileKind) : (cstr kind.ext).length ≤ 6 := by cases kind <;> decide

end FileKind

/-- The path of the file of a kind for the programs of a section. -/
def filePath (secName : Bytes) (kind : FileKind) : Bytes := outputFile (dashes secName) kind.ext

theorem length_dashes (name : Bytes) : (dashes name).length = name.length := List.length_map _

/-- A short name is followed by the whole of the extension. -/
theorem filePath_of_short {secName : Bytes} (h : secName.length ≤ 121) (kind : FileKind) :
    filePath secName kind = dashes secName ++ cstr kind.ext := by
  have hext := kind.length_ext_le
  rw [filePath, outputFile, snprintf, List.take_of_length_le]
  rw [List.length_append, length_dashes]
  omega

/-- A name that is followed by the whole of the longest extension is short. -/
theorem short_of_filePath {secName : Bytes}
    (h : filePath secName .insns = dashes secName ++ cstr ".insns") : secName.length ≤ 121 := by
  have hcut : (filePath secName .insns).length ≤ 127 := List.length_take_le _ _
  rw [h, List.length_append, length_dashes, show (cstr ".insns").length = 6 from rfl] at hcut
  omega

/-- Short names that differ give paths that differ, and so do different kinds. -/
theorem filePath_inj {n m : Bytes} (hn : n.length ≤ 121) (hm : m.length ≤ 121)
    {kind kind' : FileKind} (h : filePath n kind = filePath m kind') :
    dashes n = dashes m ∧ kind = kind' := by
  rw [filePath_of_short hn, filePath_of_short hm, kind.cstr_ext, kind'.cstr_ext] at h
  obtain ⟨hname, hsuffix⟩ :=
    Text.append_sep_inj kind.dot_notMem_suffix kind'.dot_notMem_suffix h
  exact ⟨hname, FileKind.suffix_injective hsuffix⟩

/-! ## Contents -/

/-- What is written to the file of a kind for a program. -/
def fileContents (obj : BpfObject) (prog : BpfProgram) : FileKind → Bytes
  | .insns => insnBytes (prog.insns.take (toInt prog.secInsnCnt).toNat)
  | .txt => insnsText (prog.insns.take (toInt prog.secInsnCnt).toNat)
  | .rel => relocsText prog.relocDesc
  | .maps => mapsText obj.maps

/-- The file of a kind for a program. -/
def progFile (obj : BpfObject) (prog : BpfProgram) (kind : FileKind) : Bytes × Bytes :=
  (filePath prog.secName kind, fileContents obj prog kind)

/-- The dumps of a program: the two files of instructions are open together. -/
def progJobs (obj : BpfObject) (prog : BpfProgram) : List (List (Bytes × Bytes)) :=
  [[progFile obj prog .insns, progFile obj prog .txt], [progFile obj prog .rel],
    [progFile obj prog .maps]]

/-- Relocating a program keeps its section. -/
theorem relocateData_secName {obj : BpfObject} {prog prog' : BpfProgram} {err : Option Err}
    (h : relocateData obj prog = .ok (prog', err)) : prog'.secName = prog.secName := by
  obtain ⟨⟨insns, relos, err'⟩, -, h⟩ := Fold.bind_eq_ok.1 h
  cases h
  rfl

/-- What is written for a program. -/
theorem extractProg_ok {obj : BpfObject} {dir dir' : Dir} {prog : BpfProgram}
    (h : extractProg obj dir prog = .ok dir') :
    ∃ prog' err, relocateData obj prog = .ok (prog', err) ∧
      dir' = Store.dumps (progJobs obj prog') dir := by
  obtain ⟨⟨prog', err⟩, hreloc, h⟩ := Fold.bind_eq_ok.1 h
  obtain ⟨dir₁, hinsns, h⟩ := Fold.bind_eq_ok.1 h
  obtain ⟨dir₂, hrelocs, h⟩ := Fold.bind_eq_ok.1 h
  obtain ⟨name, hname, hinsns⟩ := Fold.bind_eq_ok.1 hinsns
  obtain ⟨name', hname', hrelocs⟩ := Fold.bind_eq_ok.1 hrelocs
  obtain ⟨name'', hname'', hmaps⟩ := Fold.bind_eq_ok.1 h
  have hdashes {n : Bytes} (hn : fixProgname prog'.secName = .ok n) : n = dashes prog'.secName := by
    rw [fixProgname] at hn
    split at hn
    · cases hn
    · exact (Except.ok.inj hn).symm
  obtain rfl := hdashes hname
  obtain rfl := hdashes hname'
  obtain rfl := hdashes hname''
  cases hinsns
  cases hrelocs
  cases hmaps
  exact ⟨prog', err, hreloc, rfl⟩

/-- What is written for all the programs. -/
theorem foldlM_extractProg_ok {obj : BpfObject} {dir dir' : Dir} {progs : List BpfProgram}
    (h : progs.foldlM (extractProg obj) dir = .ok dir') :
    ∃ progs', List.Forall₂ (fun p p' => ∃ err, relocateData obj p = .ok (p', err)) progs progs' ∧
      dir' = Store.dumps (progs'.flatMap (progJobs obj)) dir := by
  refine Fold.foldlM_induction (fun done st => ∃ progs',
      List.Forall₂ (fun p p' => ∃ err, relocateData obj p = .ok (p', err)) done progs' ∧
        st = Store.dumps (progs'.flatMap (progJobs obj)) dir) ⟨[], .nil, rfl⟩ ?_ h
  rintro done prog st st' - ⟨progs', hprogs, rfl⟩ hstep
  obtain ⟨prog', err, hreloc, rfl⟩ := extractProg_ok hstep
  refine ⟨progs' ++ [prog'], List.rel_append hprogs (.cons ⟨err, hreloc⟩ .nil), ?_⟩
  rw [List.flatMap_append, Store.dumps_append, List.flatMap_singleton]

/-! ## No file is lost -/

/-- Every file of every program is named after its section, with the extension of its kind, has
    its own path, and holds the contents written to it. -/
structure Kept (obj : BpfObject) (dir : Dir) : Prop where
  named : ∀ p ∈ obj.programs, ∀ kind : FileKind,
    filePath p.secName kind = dashes p.secName ++ cstr kind.ext
  paths : ∀ (i j : ℕ) (p q : BpfProgram) (kind kind' : FileKind),
    obj.programs[i]? = some p → obj.programs[j]? = some q →
    filePath p.secName kind = filePath q.secName kind' → i = j ∧ kind = kind'
  contents : ∀ p ∈ obj.programs, ∃ p' err, relocateData obj p = .ok (p', err) ∧
    ∀ kind, dir (filePath p.secName kind) = some (fileContents obj p' kind)

/-- The names of the sections leave room for the extensions, and differ once their slashes are
    dashes. -/
structure NamesDiffer (programs : List BpfProgram) : Prop where
  short : ∀ p ∈ programs, p.secName.length ≤ 121
  nodup : (programs.map fun p => dashes p.secName).Nodup

/-- The paths of the files of all the programs are different. -/
theorem NamesDiffer.nodup_paths {programs : List BpfProgram} (h : NamesDiffer programs) :
    (programs.flatMap fun p => FileKind.all.map (filePath p.secName)).Nodup := by
  refine List.nodup_flatMap.2 ⟨fun p hp => ?_, ?_⟩
  · refine List.Nodup.map_on (fun kind _ kind' _ heq => ?_) (by decide)
    exact (filePath_inj (h.short p hp) (h.short p hp) heq).2
  · refine List.Pairwise.imp_of_mem (fun {p q} hp hq hne => ?_) (List.pairwise_map.1 h.nodup)
    rintro path hpath hpath'
    obtain ⟨kind, -, rfl⟩ := List.mem_map.1 hpath
    obtain ⟨kind', -, heq⟩ := List.mem_map.1 hpath'
    exact hne (filePath_inj (h.short p hp) (h.short q hq) heq.symm).1

/-- Files with different paths are kept. -/
theorem kept_of_namesDiffer {obj : BpfObject} {dir dir' : Dir} (hnames : NamesDiffer obj.programs)
    (h : obj.programs.foldlM (extractProg obj) dir = .ok dir') : Kept obj dir' := by
  obtain ⟨progs', hprogs, rfl⟩ := foldlM_extractProg_ok h
  refine ⟨fun p hp => filePath_of_short (hnames.short p hp),
    fun i j p q kind kind' hi hj heq => ?_, fun p hp => ?_⟩
  · obtain ⟨hdashes, hkind⟩ := filePath_inj (hnames.short p (List.mem_of_getElem? hi))
      (hnames.short q (List.mem_of_getElem? hj)) heq
    refine ⟨(List.getElem?_inj ?_ hnames.nodup).1 ?_, hkind⟩
    · rw [List.length_map]
      exact (List.getElem?_eq_some_iff.1 hi).1
    · rw [List.getElem?_map, List.getElem?_map, hi, hj]
      exact congrArg some hdashes
  · obtain ⟨p', hp', err, hreloc⟩ := Owners.exists_of_forall₂ hprogs hp
    refine ⟨p', err, hreloc, fun kind => ?_⟩
    -- All that is written goes to different paths, so that none of it is overwritten.
    have hfiles : (progs'.flatMap (progJobs obj)).flatten =
        progs'.flatMap fun p' => FileKind.all.map (progFile obj p') := by
      rw [List.flatMap_def, List.flatten_flatten, List.map_map]
      rfl
    have hsecNames : progs'.map BpfProgram.secName = obj.programs.map BpfProgram.secName := by
      refine List.forall₂_eq_eq_eq.le _ _ (List.forall₂_map_left_iff.2 (List.forall₂_map_right_iff.2
        (hprogs.flip.imp fun p' p hpp' => ?_)))
      obtain ⟨err, hreloc⟩ := hpp'
      exact relocateData_secName hreloc
    have hmem : progFile obj p' kind ∈ (progs'.flatMap (progJobs obj)).flatten := by
      rw [hfiles]
      exact List.mem_flatMap.2 ⟨p', hp', List.mem_map_of_mem (by cases kind <;> decide)⟩
    rw [← relocateData_secName hreloc]
    refine Store.dumps_of_mem ?_ hmem dir
    have hpaths : ∀ l : List BpfProgram, (l.flatMap fun p => FileKind.all.map (progFile obj p)).map
        Prod.fst = (l.map BpfProgram.secName).flatMap fun n => FileKind.all.map (filePath n) := by
      intro l
      rw [List.map_flatMap, List.flatMap_map]
      rfl
    rw [hfiles, hpaths, hsecNames, List.flatMap_map]
    exact hnames.nodup_paths

/-- Kept files have names that differ. -/
theorem namesDiffer_of_kept {obj : BpfObject} {dir : Dir} (h : Kept obj dir) :
    NamesDiffer obj.programs := by
  constructor
  · exact fun p hp => short_of_filePath (h.named p hp .insns)
  · refine List.pairwise_map.2 (List.pairwise_iff_getElem.2 fun i j hi hj hlt heq => ?_)
    have := (h.paths i j _ _ .insns .insns (List.getElem?_eq_getElem hi)
      (List.getElem?_eq_getElem hj) (by rw [filePath, filePath, heq])).1
    omega

/-- When `extract` returns 0, no file is lost if and only if the names of the sections of the
    programs are short and differ. -/
theorem kept_iff {btfNew : Bytes → Except Err Btf} {heap : Heap} {path : Bytes} {elf : Elf}
    {obj obj' : BpfObject} {dir dir' : Dir}
    (hopen : BpfObject.openFile btfNew heap path elf = .ok obj)
    (hagain : obj.setFds.collectRelos heap = .ok obj')
    (h : extract btfNew heap path elf dir = .ok (0, dir')) :
    Kept obj' dir' ↔ NamesDiffer obj.programs := by
  obtain ⟨obj₀, hopen₀, hloop⟩ := extract_eq_ok h
  cases hopen₀.symm.trans hopen
  cases (BpfObject.collectRelos_setFds hopen heap).symm.trans hagain
  exact ⟨namesDiffer_of_kept, fun hnames => kept_of_namesDiffer hnames hloop⟩

set_option maxRecDepth 2000 in
/-- The files of two programs in two sections are kept. -/
theorem kept_twoProgsElf : ∃ obj obj' dir',
    BpfObject.openFile noBtf zeroHeap (cstr "prog.o") twoProgsElf = .ok obj ∧
      obj.programs.length = 2 ∧ obj.setFds.collectRelos zeroHeap = .ok obj' ∧
      extract noBtf zeroHeap (cstr "prog.o") twoProgsElf (fun _ => none) = .ok (0, dir') ∧
      Kept obj' dir' := by
  have hopen : ∃ obj, BpfObject.openFile noBtf zeroHeap (cstr "prog.o") twoProgsElf = .ok obj ∧
      NamesDiffer obj.programs ∧ obj.programs.length = 2 := ⟨_, rfl, ⟨by decide, by decide⟩, rfl⟩
  obtain ⟨obj, hopen, hnames, hlen⟩ := hopen
  have hextract : ∃ dir', extract noBtf zeroHeap (cstr "prog.o") twoProgsElf (fun _ => none) =
      .ok (0, dir') := ⟨_, rfl⟩
  obtain ⟨dir', hextract⟩ := hextract
  have hagain := BpfObject.collectRelos_setFds hopen zeroHeap
  exact ⟨obj, _, dir', hopen, hlen, hagain, hextract,
    (kept_iff hopen hagain hextract).2 hnames⟩

/-- What the files of a program hold when `extract` returns 0, if none is lost. -/
theorem contents_of_extract {btfNew : Bytes → Except Err Btf} {heap : Heap} {path : Bytes}
    {elf : Elf} {obj : BpfObject} {dir dir' : Dir}
    (hopen : BpfObject.openFile btfNew heap path elf = .ok obj) (hnames : NamesDiffer obj.programs)
    (h : extract btfNew heap path elf dir = .ok (0, dir')) {p : BpfProgram}
    (hp : p ∈ obj.programs) : ∃ p' err, relocateData obj.setFds p = .ok (p', err) ∧
      ∀ kind, dir' (filePath p.secName kind) = some (fileContents obj.setFds p' kind) := by
  obtain ⟨obj₀, hopen₀, hloop⟩ := extract_eq_ok h
  cases hopen₀.symm.trans hopen
  have hkept : Kept obj.setFds dir' := kept_of_namesDiffer hnames hloop
  exact hkept.contents p hp

/-! ## Two programs of one section -/

/-- Programs that return at once, one in each instruction of the section `xdp`. -/
def returnsElf (names : List String) : Elf :=
  smallElf "xdp" (List.replicate names.length ⟨0x95, 0, 0, 0, 0⟩) []
    (⟨some [], 0, 0, 0, 0, 0⟩ :: ⟨some (cstr "counts"), stbGlobal, sttObject, 4, 0, 20⟩ ::
      names.mapIdx fun i name =>
        ⟨some (cstr name), stbGlobal, sttFunc, 1, bpfInsnSz * i, bpfInsnSz⟩)
    (leBytes 4 2 ++ leBytes 4 4 ++ leBytes 4 8 ++ leBytes 4 1 ++ leBytes 4 0)

/-- The second program of a section overwrites the files of the first one. -/
theorem not_kept : ¬∀ (btfNew : Bytes → Except Err Btf) (heap : Heap) (path : Bytes) (elf : Elf)
    (obj obj' : BpfObject) (dir dir' : Dir), BpfObject.openFile btfNew heap path elf = .ok obj →
      obj.setFds.collectRelos heap = .ok obj' →
      extract btfNew heap path elf dir = .ok (0, dir') → Kept obj' dir' := fun h =>
  have hkept := h noBtf zeroHeap (cstr "prog.o") (returnsElf ["pass", "drop"]) _ _ (fun _ => none) _
    rfl rfl rfl
  absurd (hkept.paths 0 1 _ _ .insns .insns rfl rfl rfl).1 (by decide)

end BpfElfTools.Extractor
