import BpfElfTools.Extractor.Attribution
import BpfElfTools.Lib.Descriptors

/-!
# Closing an object

The file descriptors that `extract` opens and closes: that of the object file, those
of the dumps, and those that closing the object takes for the ones of its maps.

* `BpfObject.openObject`: opening an object, with what is left of it if there is an error
  (`openObject_mapError`);
* `extractFds`: `extract`, with the descriptors of the process (`extractFds_map`);
* `BpfObject.openFds`: what is closed on the way, if the type information is malformed;
* `keeps_iff`: when the descriptors that were open before are kept;
* `not_keeps`: with a map, the standard input is closed.
-/

namespace BpfElfTools.Extractor

/-- The descriptors of the process, with the paths of their files. -/
abbrev Fds := Descriptors Bytes

/-! ## Closing -/

/-- `zclose`, but for the descriptor, which is -1 then. -/
def zclose (fd : ℤ) (fds : Fds) : Fds := if 0 ≤ fd then fds.close fd.toNat else fds

@[simp] theorem zclose_neg_one (fds : Fds) : zclose (-1) fds = fds := rfl

/-- `bpf_object__unload`. The programs have not been loaded, and have no instances. -/
def BpfObject.unload (obj : BpfObject) (fds : Fds) : BpfObject × Fds :=
  ({ obj with maps := obj.maps.map fun map => { map with fd := -1 } },
    obj.maps.foldl (fun fds map => zclose map.fd fds) fds)

/-- `bpf_map__destroy`. -/
def BpfMap.destroy (fds : Fds) (map : BpfMap) : Fds :=
  zclose map.fd (map.innerMap.elim fds fun fd => zclose fd fds)

/-- `bpf_object__close`, from `bpf_object__unload` on. -/
def BpfObject.close (obj : BpfObject) (fds : Fds) : Fds :=
  let (obj, fds) := obj.unload fds
  obj.maps.foldl BpfMap.destroy fds

/-! ## Opening -/

/-- A stage of opening an object, which is left as it is if there is an error. (The maps that
    the stage has added by then have no descriptors.) -/
def leaving {α : Type} (obj : BpfObject) (x : Except Err α) : Except (Err × BpfObject) α :=
  x.mapError fun err => (err, obj)

/-- `bpf_object__init_user_btf_map`. If there is an error in the definition, the map is left
    with the inner map that has been allocated. -/
def initUserBtfMapLeaving (data : ElfData) (obj : BpfObject) (var : BtfMapVar) :
    Except (Err × BpfObject) BpfObject :=
  let left := match var.name with
    | none => obj
    | some mapName =>
      if mapName = [] ∨ data.size < var.offset + var.size then obj
      else obj.addMap { BpfMap.fresh with
        name := mapName
        secIdx := obj.efile.btfMapsShndx
        secOffset := var.offset
        innerMap := if var.hasInner then some 0 else none }
  leaving left (initUserBtfMap data obj var)

/-- `bpf_object__init_user_btf_maps`. -/
def initUserBtfMapsLeaving (obj : BpfObject) : Except (Err × BpfObject) BpfObject :=
  if obj.efile.btfMapsShndx < 0 then .ok obj
  else
    match obj.elf.secData obj.efile.btfMapsShndx.toNat with
    | none => .error (.einval, obj)
    | some data =>
      match obj.btf.bind (·.mapsVars) with
      | none => .error (.enoent, obj)
      | some vars => vars.foldlM (initUserBtfMapLeaving data) obj

/-- `bpf_object__open_file`, for a file that libelf can open, with the object that is closed
    if there is an error. -/
def BpfObject.openObject (btfNew : Bytes → Except Err Btf) (heap : Heap) (path : Bytes)
    (elf : Elf) : Except (Err × BpfObject) BpfObject := do
  let obj : BpfObject := { name := objName path, elf := elf }
  leaving obj (elfInit elf)
  leaving obj (checkEndianness elf)
  let obj ← leaving obj (obj.elfCollect btfNew)
  let obj ← leaving obj obj.collectExterns
  leaving obj (finalizeBtf obj)
  let obj ← leaving obj (initUserMaps heap obj)
  let obj ← initUserBtfMapsLeaving obj
  let obj ← leaving obj (initGlobalDataMaps obj)
  let obj ← leaving obj (initKconfigMap obj)
  let obj ← leaving obj (initStructOpsMaps obj)
  let obj ← leaving obj (obj.collectRelos heap)
  return obj.elfFinish

/-! ## Type information that cannot be parsed -/

/-- `bpf_object__init_btf`, as far as descriptors go: if `btf__new` cannot parse the data, it calls
    `btf__free`, for which the descriptor is still the zero that `calloc` has left. -/
def initBtfFds (btfNew : Bytes → Except Err Btf) (btfData : Option ElfData) (fds : Fds) : Fds :=
  match btfData with
  | none => fds
  | some data =>
    match btfNew data.bytes with
    | .ok _ => fds
    | .error _ => zclose 0 fds

/-- `bpf_object__elf_collect`, as far as descriptors go. -/
def BpfObject.elfCollectFds (btfNew : Bytes → Except Err Btf) (obj : BpfObject) (fds : Fds) : Fds :=
  match obj.collectSections with
  | .error _ => fds
  | .ok (_, btfData) => initBtfFds btfNew btfData fds

/-- `bpf_object__open_file`, as far as descriptors go, but for that of the file. -/
def BpfObject.openFds (btfNew : Bytes → Except Err Btf) (path : Bytes) (elf : Elf) (fds : Fds) :
    Fds :=
  match elfInit elf >>= fun _ => checkEndianness elf with
  | .error _ => fds
  | .ok _ => BpfObject.elfCollectFds btfNew { name := objName path, elf := elf } fds

/-! ## Extracting -/

/-- The file of an object: what `open` and `elf_begin` make of its path. -/
inductive ObjFile
  | absent
  | unreadable
  | elf (elf : Elf)

/-- The files opened together for a program. -/
def progFiles (prog : BpfProgram) : List (List Bytes) :=
  let fixedName := dashes prog.secName
  [[outputFile fixedName ".insns", outputFile fixedName ".txt"], [outputFile fixedName ".rel"],
    [outputFile fixedName ".maps"]]

/-- The body of the last loop of `extract`. -/
def extractProgFds (obj : BpfObject) (s : Dir × Fds) (prog : BpfProgram) :
    Except Err (Dir × Fds) := do
  let dir ← extractProg obj s.1 prog
  return (dir, (progFiles prog).foldl (fun fds fs => Descriptors.session fs fds) s.2)

/-- `extract`, with the descriptors of the process. The descriptor of a file that libelf
    cannot open is not closed. -/
def extractFds (btfNew : Bytes → Except Err Btf) (heap : Heap) (path : Bytes) (file : ObjFile)
    (dir : Dir) (fds : Fds) : Except Err (ℕ × Dir × Fds) :=
  match file with
  | .absent => .ok (1, dir, fds)
  | .unreadable => .ok (1, dir, fds.openFile path)
  | .elf elf =>
    let elfFd := fds.lowest
    let fds := BpfObject.openFds btfNew path elf (fds.openFile path)
    match BpfObject.openObject btfNew heap path elf with
    | .error (.fault, _) => .error .fault
    | .error (_, obj) => .ok (1, dir, obj.close (fds.close elfFd))
    | .ok obj => do
      let obj ← obj.setFds.collectRelos heap
      let (dir, fds) ← obj.programs.foldlM (extractProgFds obj) (dir, fds.close elfFd)
      return (0, dir, obj.close fds)

/-! ## The same, without the descriptors -/

theorem mapError_bind {ε ε' α β : Type} (g : ε → ε') (x : Except ε α) (f : α → Except ε β) :
    (x >>= f).mapError g = x.mapError g >>= fun a => (f a).mapError g := by
  cases x <;> rfl

theorem mapError_leaving {α : Type} (obj : BpfObject) (x : Except Err α) :
    (leaving obj x).mapError Prod.fst = x := by
  cases x <;> rfl

theorem mapError_initUserBtfMapsLeaving (obj : BpfObject) :
    (initUserBtfMapsLeaving obj).mapError Prod.fst = initUserBtfMaps obj := by
  have hloop (data : ElfData) (vars : List BtfMapVar) (obj : BpfObject) :
      (vars.foldlM (initUserBtfMapLeaving data) obj).mapError Prod.fst =
        vars.foldlM (initUserBtfMap data) obj := by
    induction vars generalizing obj with
    | nil => rfl
    | cons var vars ih =>
      rw [List.foldlM_cons, List.foldlM_cons, mapError_bind, initUserBtfMapLeaving,
        mapError_leaving]
      exact congrArg _ (funext ih)
  rw [initUserBtfMapsLeaving, initUserBtfMaps]
  by_cases hnone : obj.efile.btfMapsShndx < 0
  · rw [if_pos hnone, if_pos hnone]
    rfl
  rw [if_neg hnone, if_neg hnone]
  cases obj.elf.secData obj.efile.btfMapsShndx.toNat with
  | none => rfl
  | some data =>
    cases obj.btf.bind (·.mapsVars) with
    | none => rfl
    | some vars => exact hloop data vars obj

/-- Opening an object, without what is left of it. -/
theorem openObject_mapError (btfNew : Bytes → Except Err Btf) (heap : Heap) (path : Bytes)
    (elf : Elf) : (BpfObject.openObject btfNew heap path elf).mapError Prod.fst =
      BpfObject.openFile btfNew heap path elf := by
  simp only [BpfObject.openObject, BpfObject.openFile, BpfObject.initMaps, mapError_bind,
    mapError_leaving, mapError_initUserBtfMapsLeaving, bind_assoc]
  rfl

theorem openObject_eq_ok_iff {btfNew : Bytes → Except Err Btf} {heap : Heap} {path : Bytes}
    {elf : Elf} {obj : BpfObject} : BpfObject.openObject btfNew heap path elf = .ok obj ↔
      BpfObject.openFile btfNew heap path elf = .ok obj := by
  rw [← openObject_mapError]
  cases BpfObject.openObject btfNew heap path elf <;> simp [Except.mapError]

/-- What `extract` returns, and the files then, do not depend on the descriptors. -/
theorem extractFds_map (btfNew : Bytes → Except Err Btf) (heap : Heap) (path : Bytes) (elf : Elf)
    (dir : Dir) (fds : Fds) :
    (extractFds btfNew heap path (.elf elf) dir fds).map (fun r => (r.1, r.2.1)) =
      extract btfNew heap path elf dir := by
  have hloop (obj : BpfObject) (progs : List BpfProgram) (s : Dir × Fds) :
      (progs.foldlM (extractProgFds obj) s).map Prod.fst = progs.foldlM (extractProg obj) s.1 := by
    induction progs generalizing s with
    | nil => rfl
    | cons prog progs ih =>
      rw [List.foldlM_cons, List.foldlM_cons, extractProgFds]
      cases extractProg obj s.1 prog with
      | error err => rfl
      | ok dir => exact ih _
  rw [extractFds, extract, ← openObject_mapError]
  rcases BpfObject.openObject btfNew heap path elf with ⟨err, obj⟩ | obj
  · cases err <;> rfl
  · change Except.map _ (obj.setFds.collectRelos heap >>= _) = extractObject heap obj dir >>= _
    rw [extractObject]
    cases obj.setFds.collectRelos heap with
    | error err => rfl
    | ok obj =>
      change Except.map _ (obj.programs.foldlM (extractProgFds obj) _ >>= _) =
        (obj.programs.foldlM (extractProg obj) dir) >>= _
      rw [← hloop obj obj.programs (dir, _)]
      cases obj.programs.foldlM (extractProgFds obj) (dir, _) <;> rfl

/-! ## What is closed -/

/-- The descriptors that closing an object closes. -/
def BpfObject.closedFds (obj : BpfObject) : List ℕ :=
  obj.maps.filterMap (fun map => if 0 ≤ map.fd then some map.fd.toNat else none) ++
    obj.maps.filterMap fun map =>
      map.innerMap.bind fun fd => if 0 ≤ fd then some fd.toNat else none

theorem BpfObject.close_eq (obj : BpfObject) (fds : Fds) :
    obj.close fds = Descriptors.closeAll obj.closedFds fds := by
  have hunload (maps : List BpfMap) (fds : Fds) :
      maps.foldl (fun fds map => zclose map.fd fds) fds = Descriptors.closeAll (maps.filterMap
        fun map => if 0 ≤ map.fd then some map.fd.toNat else none) fds := by
    induction maps generalizing fds with
    | nil => rfl
    | cons map maps ih =>
      rw [List.foldl_cons, ih, List.filterMap_cons, zclose]
      split <;> rfl
  have hdestroy (maps : List BpfMap) (fds : Fds) :
      (maps.map fun map => { map with fd := -1 }).foldl BpfMap.destroy fds =
        Descriptors.closeAll (maps.filterMap fun map =>
          map.innerMap.bind fun fd => if 0 ≤ fd then some fd.toNat else none) fds := by
    induction maps generalizing fds with
    | nil => rfl
    | cons map maps ih =>
      rw [List.map_cons, List.foldl_cons, ih, List.filterMap_cons, BpfMap.destroy, zclose_neg_one]
      rcases map.innerMap with _ | fd
      · rfl
      · simp only [Option.elim_some, Option.bind_some, zclose]
        split <;> rfl
  rw [BpfObject.close, BpfObject.unload, BpfObject.closedFds, Descriptors.closeAll_append,
    ← hunload, ← hdestroy]

theorem BpfObject.mem_closedFds {obj : BpfObject} {i : ℕ} : i ∈ obj.closedFds ↔
    ∃ map ∈ obj.maps, map.fd = i ∨ map.innerMap = some (i : ℤ) := by
  have hnat (x : ℤ) : (if 0 ≤ x then some x.toNat else none) = some i ↔ x = i := by
    split
    · rw [Option.some.injEq]
      omega
    · simp
      omega
  simp only [closedFds, List.mem_append, List.mem_filterMap, Option.bind_eq_some_iff, hnat]
  constructor
  · rintro (⟨map, hmap, h⟩ | ⟨map, hmap, fd, h, rfl⟩)
    · exact ⟨map, hmap, .inl h⟩
    · exact ⟨map, hmap, .inr h⟩
  · rintro ⟨map, hmap, h | h⟩
    · exact .inl ⟨map, hmap, h⟩
    · exact .inr ⟨map, hmap, i, h, rfl⟩

/-- The maps of an object that is opened have no descriptors. -/
def BpfObject.NoFds (obj : BpfObject) : Prop := ∀ map ∈ obj.maps, map.NoFd

theorem AddsMaps.noFds {obj obj' : BpfObject} (h : AddsMaps obj obj') (hobj : obj.NoFds) :
    obj'.NoFds := by
  obtain ⟨l, k, r, rfl, hl⟩ := h
  intro map hmap
  exact (List.mem_append.1 hmap).elim (hobj map) (hl map)

/-- Closing an object whose maps have no descriptors closes that of an inner map at most. -/
theorem BpfObject.NoFds.mem_closedFds {obj : BpfObject} (h : obj.NoFds) {i : ℕ} :
    i ∈ obj.closedFds ↔ i = 0 ∧ ∃ map ∈ obj.maps, map.innerMap.isSome := by
  rw [BpfObject.mem_closedFds]
  constructor
  · rintro ⟨map, hmap, hfd | hfd⟩
    · have := (h map hmap).1
      omega
    · have := (h map hmap).2 _ hfd
      exact ⟨by exact_mod_cast this, map, hmap, by rw [hfd]; rfl⟩
  · rintro ⟨rfl, map, hmap, hsome⟩
    obtain ⟨fd, hfd⟩ := Option.isSome_iff_exists.1 hsome
    exact ⟨map, hmap, .inr (by rw [hfd, (h map hmap).2 fd hfd]; rfl)⟩

/-- Closing an object whose maps have been numbered closes their numbers. -/
theorem BpfObject.NoFds.mem_closedFds_setFds {obj : BpfObject} (h : obj.NoFds) {i : ℕ} :
    i ∈ obj.setFds.closedFds ↔ i < obj.maps.length := by
  rw [BpfObject.mem_closedFds]
  constructor
  · rintro ⟨map, hmap, hfd⟩
    obtain ⟨k, hk, rfl⟩ := List.mem_mapIdx.1 hmap
    rcases hfd with hfd | hfd
    · have : (k : ℤ) = i := hfd
      omega
    · have := (h _ (List.getElem_mem hk)).2 _ hfd
      omega
  · intro hi
    exact ⟨_, List.mem_mapIdx.2 ⟨i, hi, rfl⟩, .inl rfl⟩

theorem bind_eq_error {ε α β : Type} {x : Except ε α} {f : α → Except ε β} {e : ε} :
    x >>= f = .error e ↔ x = .error e ∨ ∃ a, x = .ok a ∧ f a = .error e := by
  cases x <;> simp [bind, Except.bind]

theorem leaving_eq_error {α : Type} {obj obj' : BpfObject} {x : Except Err α} {err : Err}
    (h : leaving obj x = .error (err, obj')) : obj' = obj := by
  cases x <;> cases h
  rfl

theorem leaving_eq_ok {α : Type} {obj : BpfObject} {x : Except Err α} {a : α}
    (h : leaving obj x = .ok a) : x = .ok a := by
  cases x <;> cases h
  rfl

/-- What is left of an object when the maps described by BTF are added. -/
theorem initUserBtfMapsLeaving_noFds {obj obj' : BpfObject} {err : Err} (hobj : obj.NoFds)
    (h : initUserBtfMapsLeaving obj = .error (err, obj')) : obj'.NoFds := by
  have hloop (data : ElfData) (vars : List BtfMapVar) (obj : BpfObject) (hobj : obj.NoFds)
      (h : vars.foldlM (initUserBtfMapLeaving data) obj = .error (err, obj')) : obj'.NoFds := by
    induction vars generalizing obj with
    | nil => cases h
    | cons var vars ih =>
      rw [List.foldlM_cons] at h
      rcases bind_eq_error.1 h with h | ⟨obj₁, h₁, h⟩
      · rw [leaving_eq_error h]
        split
        · exact hobj
        split
        · exact hobj
        · refine (addsMaps_addMap obj ⟨rfl, fun fd hfd => ?_⟩).noFds hobj
          dsimp only at hfd
          split at hfd
          · exact (Option.some.inj hfd).symm
          · cases hfd
      · exact ih obj₁ ((addsMaps_initUserBtfMap (leaving_eq_ok h₁)).noFds hobj) h
  rw [initUserBtfMapsLeaving] at h
  split at h
  · cases h
  split at h
  · cases h
    exact hobj
  split at h
  · cases h
    exact hobj
  · exact hloop _ _ _ hobj h

/-- The sections of the file are collected, and `btf__new` cannot parse the one of type
    information. -/
def BadBtf (btfNew : Bytes → Except Err Btf) (path : Bytes) (elf : Elf) : Prop :=
  (elfInit elf >>= fun _ => checkEndianness elf) = .ok () ∧ ∃ obj data err,
    BpfObject.collectSections { name := objName path, elf := elf } = .ok (obj, some data) ∧
      btfNew data.bytes = .error err

section

variable {btfNew : Bytes → Except Err Btf} {heap : Heap} {path : Bytes} {elf : Elf}
  {obj : BpfObject} {err : Err}

/-- Opening an object closes descriptor 0 if its type information cannot be parsed. -/
theorem exists_openFds_eq (btfNew : Bytes → Except Err Btf) (path : Bytes) (elf : Elf) (fds : Fds) :
    ∃ is, BpfObject.openFds btfNew path elf fds = Descriptors.closeAll is fds ∧
      ∀ i, i ∈ is ↔ i = 0 ∧ BadBtf btfNew path elf := by
  have hkept (hnot : ¬BadBtf btfNew path elf) :
      ∃ is, fds = Descriptors.closeAll is fds ∧ ∀ i, i ∈ is ↔ i = 0 ∧ BadBtf btfNew path elf :=
    ⟨[], rfl, fun i => iff_of_false List.not_mem_nil fun h => hnot h.2⟩
  rw [BpfObject.openFds]
  rcases hinit : elfInit elf >>= fun _ => checkEndianness elf with e | u
  · exact hkept fun hbad => by cases hinit.symm.trans hbad.1
  dsimp only
  rw [BpfObject.elfCollectFds]
  rcases hsecs : BpfObject.collectSections { name := objName path, elf := elf } with
    e | ⟨obj, _ | data⟩
  · exact hkept fun ⟨_, _, _, _, h, _⟩ => by cases hsecs.symm.trans h
  · exact hkept fun ⟨_, _, _, _, h, _⟩ => by cases hsecs.symm.trans h
  dsimp only
  rw [initBtfFds]
  rcases hbtf : btfNew data.bytes with err | btf
  · refine ⟨[0], rfl, fun i => List.mem_singleton.trans ?_⟩
    exact (and_iff_left ⟨hinit, obj, data, err, hsecs, hbtf⟩).symm
  · refine hkept fun ⟨_, _, _, _, h, herr⟩ => ?_
    cases hsecs.symm.trans h
    cases hbtf.symm.trans herr

/-- The descriptor of the object file is free again once it is closed. -/
theorem file_close_openFile (is : List ℕ) (fds : Fds) (i : ℕ) :
    ((Descriptors.closeAll is (fds.openFile path)).close fds.lowest).file i =
      (Descriptors.closeAll is fds).file i := by
  rw [Descriptors.file_close, Descriptors.file_closeAll, Descriptors.file_closeAll,
    Descriptors.file_openFile]
  by_cases hi : i = fds.lowest
  · rw [if_pos hi, hi, Descriptors.file_lowest, ite_self]
  · rw [if_neg hi, if_neg hi]

/-- What is left of an object that cannot be opened. -/
theorem openObject_noFds (h : BpfObject.openObject btfNew heap path elf = .error (err, obj)) :
    obj.NoFds := by
  have hnil {o : BpfObject} (ho : o.maps = []) : o.NoFds := fun map hmap => by
    rw [ho] at hmap
    exact absurd hmap List.not_mem_nil
  -- One of the steps has failed, and the object is as the steps before it have left it.
  rw [BpfObject.openObject] at h
  rcases bind_eq_error.1 h with h | ⟨_, -, h⟩
  · exact leaving_eq_error h ▸ hnil rfl
  rcases bind_eq_error.1 h with h | ⟨_, -, h⟩
  · exact leaving_eq_error h ▸ hnil rfl
  rcases bind_eq_error.1 h with h | ⟨obj₁, h₁, h⟩
  · exact leaving_eq_error h ▸ hnil rfl
  have hobj₁ : obj₁.maps = [] := by
    obtain ⟨efile, btf, -, hcoll⟩ := BpfObject.elfCollect_ok (leaving_eq_ok h₁)
    rw [hcoll.frame]
  rcases bind_eq_error.1 h with h | ⟨obj₂, h₂, h⟩
  · exact leaving_eq_error h ▸ hnil hobj₁
  have hobj₂ : obj₂.maps = [] := by
    obtain ⟨externs, heq, -⟩ := BpfObject.collectExterns_ok (leaving_eq_ok h₂)
    rw [heq, hobj₁]
  rcases bind_eq_error.1 h with h | ⟨_, -, h⟩
  · exact leaving_eq_error h ▸ hnil hobj₂
  rcases bind_eq_error.1 h with h | ⟨obj₃, h₃, h⟩
  · exact leaving_eq_error h ▸ hnil hobj₂
  have hobj₃ := (addsMaps_initUserMaps (leaving_eq_ok h₃)).noFds (hnil hobj₂)
  rcases bind_eq_error.1 h with h | ⟨obj₄, h₄, h⟩
  · exact initUserBtfMapsLeaving_noFds hobj₃ h
  have hobj₄ : obj₄.NoFds := by
    have hbtf : initUserBtfMaps obj₃ = .ok obj₄ := by
      rw [← mapError_initUserBtfMapsLeaving, h₄]
      rfl
    exact (addsMaps_initUserBtfMaps hbtf).noFds hobj₃
  rcases bind_eq_error.1 h with h | ⟨obj₅, h₅, h⟩
  · exact leaving_eq_error h ▸ hobj₄
  have hobj₅ := (addsMaps_initGlobalDataMaps (leaving_eq_ok h₅)).noFds hobj₄
  rcases bind_eq_error.1 h with h | ⟨obj₆, h₆, h⟩
  · exact leaving_eq_error h ▸ hobj₅
  have hobj₆ := (initKconfigMap_ok (leaving_eq_ok h₆)).1.noFds hobj₅
  rcases bind_eq_error.1 h with h | ⟨obj₇, h₇, h⟩
  · exact leaving_eq_error h ▸ hobj₆
  have hobj₇ : obj₇.NoFds := by
    obtain ⟨l, rfl, hl⟩ := addsMaps_initStructOpsMaps (leaving_eq_ok h₇)
    exact fun map hmap => (List.mem_append.1 hmap).elim (hobj₆ map) (hl map)
  rcases bind_eq_error.1 h with h | ⟨_, -, h⟩
  · exact leaving_eq_error h ▸ hobj₇
  · cases h

theorem openFile_noFds (h : BpfObject.openFile btfNew heap path elf = .ok obj) : obj.NoFds := by
  obtain ⟨obj₁, ps, hread, -, -, rfl⟩ := BpfObject.openFile_ok h
  obtain ⟨obj₀, -, -, -, hnil, hinit⟩ := hread.maps
  refine (BpfObject.initMaps_ok hinit).1.noFds fun map hmap => ?_
  rw [hnil] at hmap
  exact absurd hmap List.not_mem_nil

/-! ## The descriptors that were open before -/

/-- Dumping the programs leaves the descriptors as they were. -/
theorem file_foldlM_extractProgFds {progs : List BpfProgram} {s s' : Dir × Fds}
    (h : progs.foldlM (extractProgFds obj) s = .ok s') (i : ℕ) : s'.2.file i = s.2.file i := by
  refine Fold.foldlM_frame (fun s : Dir × Fds => s.2.file i) (fun prog _ t t' ht => ?_) h
  obtain ⟨dir, -, ht⟩ := Fold.bind_eq_ok.1 ht
  cases ht
  simp only [progFiles, List.foldl_cons, List.foldl_nil, Descriptors.file_session]

variable {file : ObjFile} {dir dir' : Dir} {fds fds' : Fds} {ret : ℕ}

/-- Closing an object after the descriptor of its file, and after what opening it has closed. -/
theorem keeps_close_iff {t : Fds} {is : List ℕ}
    (ht : ∀ i, t.file i = (Descriptors.closeAll is fds).file i) :
    fds.Keeps (obj.close t) ↔
      (∀ i ∈ is, fds.file i = none) ∧ ∀ i ∈ obj.closedFds, fds.file i = none := by
  rw [← List.forall_mem_append, ← Descriptors.keeps_closeAll_iff, Descriptors.closeAll_append,
    BpfObject.close_eq]
  simp only [Descriptors.Keeps, Descriptors.file_closeAll obj.closedFds, ht]

theorem keeps_of_absent (h : extractFds btfNew heap path .absent dir fds = .ok (ret, dir', fds')) :
    fds.Keeps fds' := by
  cases h
  exact fun i f hf => hf

theorem keeps_of_unreadable
    (h : extractFds btfNew heap path .unreadable dir fds = .ok (ret, dir', fds')) :
    fds.Keeps fds' := by
  cases h
  intro i f hf
  have hne : i ≠ fds.lowest := by
    rintro rfl
    rw [Descriptors.file_lowest] at hf
    cases hf
  rw [Descriptors.file_openFile, if_neg hne, hf]

theorem keeps_iff_of_error (hopen : BpfObject.openObject btfNew heap path elf = .error (err, obj))
    (h : extractFds btfNew heap path (.elf elf) dir fds = .ok (ret, dir', fds')) :
    fds.Keeps fds' ↔ (BadBtf btfNew path elf → fds.file 0 = none) ∧
      ((∃ map ∈ obj.maps, map.innerMap.isSome) → fds.file 0 = none) := by
  obtain ⟨is, hfds, his⟩ := exists_openFds_eq btfNew path elf (fds.openFile path)
  -- The descriptor of the file is closed before those that the object is left with.
  have hclose : fds' =
      obj.close ((Descriptors.closeAll is (fds.openFile path)).close fds.lowest) := by
    simp only [extractFds, hopen, hfds] at h
    cases err
    case fault => cases h
    all_goals
      cases h
      rfl
  rw [hclose, keeps_close_iff (file_close_openFile is fds)]
  refine and_congr ?_ ?_
  · simp only [his, and_imp, forall_eq]
  · simp only [(openObject_noFds hopen).mem_closedFds, and_imp, forall_eq]

theorem keeps_iff_of_ok (hopen : BpfObject.openFile btfNew heap path elf = .ok obj)
    (h : extractFds btfNew heap path (.elf elf) dir fds = .ok (ret, dir', fds')) :
    fds.Keeps fds' ↔ (BadBtf btfNew path elf → fds.file 0 = none) ∧
      ∀ i < obj.maps.length, fds.file i = none := by
  obtain ⟨is, hfds, his⟩ := exists_openFds_eq btfNew path elf (fds.openFile path)
  simp only [extractFds, openObject_eq_ok_iff.2 hopen,
    BpfObject.collectRelos_setFds hopen heap, Fold.ok_bind, hfds] at h
  obtain ⟨s, hloop, h⟩ := Fold.bind_eq_ok.1 h
  cases h
  rw [keeps_close_iff fun i => (file_foldlM_extractProgFds hloop i).trans
    (file_close_openFile is fds i)]
  refine and_congr ?_ ?_
  · simp only [his, and_imp, forall_eq]
  · simp only [(openFile_noFds hopen).mem_closedFds_setFds]

/-- The descriptors that were open before `extract` are kept if and only if none of them has
    the number of a map, nor is 0 if there is type information that cannot be parsed; and, if
    there is an error, descriptor 0 is not one of them, or no map has been left with an inner
    map. -/
theorem keeps_iff (h : extractFds btfNew heap path file dir fds = .ok (ret, dir', fds')) :
    fds.Keeps fds' ↔ ∀ elf, file = .elf elf →
      (BadBtf btfNew path elf → fds.file 0 = none) ∧
      (∀ obj, BpfObject.openFile btfNew heap path elf = .ok obj →
        ∀ i < obj.maps.length, fds.file i = none) ∧
      ∀ err obj, BpfObject.openObject btfNew heap path elf = .error (err, obj) →
        (∃ map ∈ obj.maps, map.innerMap.isSome) → fds.file 0 = none := by
  cases file with
  | absent => exact iff_of_true (keeps_of_absent h) fun _ hfile => by cases hfile
  | unreadable => exact iff_of_true (keeps_of_unreadable h) fun _ hfile => by cases hfile
  | elf elf =>
    simp only [ObjFile.elf.injEq, forall_eq']
    cases hopen : BpfObject.openObject btfNew heap path elf with
    | error e =>
      rw [keeps_iff_of_error hopen h]
      refine and_congr_right fun _ => ⟨fun hfree => ⟨fun obj' hok => ?_, fun err obj' herr => ?_⟩,
        fun hfree => hfree.2 e.1 e.2 rfl⟩
      · rw [openObject_eq_ok_iff.2 hok] at hopen
        cases hopen
      · cases herr
        exact hfree
    | ok obj =>
      have hok := openObject_eq_ok_iff.1 hopen
      rw [keeps_iff_of_ok hok h]
      refine and_congr_right fun _ => ⟨fun hfree => ⟨fun obj' hok' => ?_, fun err obj' herr => ?_⟩,
        fun hfree => hfree.1 obj hok⟩
      · cases hok.symm.trans hok'
        exact hfree
      · cases herr

end

set_option maxRecDepth 2000 in
/-- With two maps, a descriptor 2 that was open is kept. -/
theorem keeps_twoProgsElf : ∃ dir' fds', extractFds noBtf zeroHeap (cstr "prog.o")
      (.elf twoProgsElf) (fun _ => none) [none, none, some (cstr "out.log")] =
        .ok (0, dir', fds') ∧
    Descriptors.Keeps [none, none, some (cstr "out.log")] fds' := by
  have hopen : ∃ obj, BpfObject.openFile noBtf zeroHeap (cstr "prog.o") twoProgsElf = .ok obj ∧
      obj.maps.length = 2 := ⟨_, rfl, by decide⟩
  obtain ⟨obj, hopen, hlen⟩ := hopen
  have hrun : ∃ dir' fds', extractFds noBtf zeroHeap (cstr "prog.o") (.elf twoProgsElf)
      (fun _ => none) [none, none, some (cstr "out.log")] = .ok (0, dir', fds') := ⟨_, _, rfl⟩
  obtain ⟨dir', fds', hrun⟩ := hrun
  refine ⟨dir', fds', hrun, (keeps_iff hrun).2 ?_⟩
  rintro elf ⟨⟩
  refine ⟨fun _ => rfl, fun obj' hopen' i hi => ?_, fun _ _ _ _ => rfl⟩
  cases hopen.symm.trans hopen'
  obtain rfl | rfl : i = 0 ∨ i = 1 := by omega
  all_goals rfl

/-- With one map, the standard input is closed. -/
theorem not_keeps : ¬∀ (btfNew : Bytes → Except Err Btf) (heap : Heap) (path : Bytes)
    (file : ObjFile) (dir dir' : Dir) (fds fds' : Fds) (ret : ℕ),
    extractFds btfNew heap path file dir fds = .ok (ret, dir', fds') → fds.Keeps fds' := by
  intro h
  have hkeeps := h noBtf zeroHeap (cstr "prog.o") (.elf (loadMapElf 0)) (fun _ => none) _
    [some (cstr "stdin"), some (cstr "stdout"), some (cstr "stderr")] _ 0 rfl
  exact absurd (hkeeps 0 (cstr "stdin") rfl) (by decide)

end BpfElfTools.Extractor
