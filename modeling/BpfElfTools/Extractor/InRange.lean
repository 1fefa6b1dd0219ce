import BpfElfTools.Extractor.Referents

/-!
# The indices used while relocating

`relocateData` reads and writes the instructions, the maps and the externs of an
object at the indices that its descriptors give. They are in range (`InRange`)
exactly when the entries they are recorded for fit (`EntryFits`): an entry that
takes two instructions must not be at the last one of its program, which nothing
checks.

* `inRange_iff`: the indices are in range if and only if the entries fit;
* `relocateData_ok_iff`: so does the relocation of a program succeed;
* `not_inRange`: a reference to data at the last instruction of a program.
-/

namespace BpfElfTools.Extractor

/-! ## Ranges -/

/-- The `int` index is that of an element. -/
def InBounds {α : Type*} (l : List α) (i : ℤ) : Prop := 0 ≤ i ∧ i < l.length

instance {α : Type*} (l : List α) (i : ℤ) : Decidable (InBounds l i) :=
  inferInstanceAs (Decidable (_ ∧ _))

theorem inBounds_iff_index {α : Type*} {l : List α} {i : ℤ} :
    InBounds l i ↔ ∃ a, index l i = .ok a := by
  simp only [index_eq_ok, InBounds]
  constructor
  · rintro ⟨hnn, hlt⟩
    exact ⟨l[i.toNat], hnn, List.getElem?_eq_getElem (by omega)⟩
  · rintro ⟨a, hnn, hget⟩
    have := (List.getElem?_eq_some_iff.1 hget).1
    exact ⟨hnn, by omega⟩

/-- An extern is written to two instructions, and a kconfig variable by its map. -/
def ExternInRange (obj : BpfObject) (insns : List BpfInsn) (k : ℤ) (ext : ExternDesc) : Prop :=
  match ext.val with
  | .kcfg .. => InBounds insns (k + 1) ∧ InBounds obj.maps obj.kconfigMapIdx
  | .ksym _ _ typeId => typeId = 0 → InBounds insns (k + 1)

/-- The type of a descriptor is one of the four, and the indices used for it are in range. -/
structure InRange (obj : BpfObject) (insns : List BpfInsn) (d : RelocDesc) : Prop where
  type : d.type = reloLd64 ∨ d.type = reloCall ∨ d.type = reloData ∨ d.type = reloExtern
  insn : d.type ≠ reloCall → InBounds insns d.insnIdx.toInt
  second : d.type = reloData → InBounds insns (d.insnIdx.toInt + 1)
  map : d.type = reloLd64 ∨ d.type = reloData → InBounds obj.maps d.mapIdx.toInt
  ext : d.type = reloExtern → ∃ ext, index obj.externs d.symOff.toInt = .ok ext ∧
    ExternInRange obj insns d.insnIdx.toInt ext

/-- The referent takes two instructions. -/
def Referent.Wide : Referent → Prop
  | .data .. => True
  | .ext x =>
    match x.val with
    | .kcfg .. => True
    | .ksym _ _ typeId => typeId = 0
  | _ => False

/-- An entry that refers to `t` fits in its program: the index of its instruction, and that of
    its map, are those of an `int`, and the instruction is not the last one if it takes two. -/
structure EntryFits (prog : BpfProgram) (e : Entry) (t : Referent) : Prop where
  insn : t ≠ .func → prog.entryIdx e < 2 ^ 31
  second : t.Wide → prog.entryIdx e + 1 < prog.insns.length
  map : ∀ m, t.mapIdx = some m → m % 2 ^ 32 < 2 ^ 31

instance : DecidablePred Referent.Wide
  | .data .. => .isTrue trivial
  | .ext ⟨_, _, _, _, _, .kcfg ..⟩ => .isTrue trivial
  | .ext ⟨_, _, _, _, _, .ksym _ _ typeId⟩ => inferInstanceAs (Decidable (typeId = 0))
  | .func => .isFalse id
  | .map _ => .isFalse id

theorem entryFits_iff {prog : BpfProgram} {e : Entry} {t : Referent} :
    EntryFits prog e t ↔ (t ≠ .func → prog.entryIdx e < 2 ^ 31) ∧
      (t.Wide → prog.entryIdx e + 1 < prog.insns.length) ∧
      ∀ m ∈ t.mapIdx, m % 2 ^ 32 < 2 ^ 31 :=
  ⟨fun h => ⟨h.insn, h.second, h.map⟩, fun h => ⟨h.1, h.2.1, h.2.2⟩⟩

instance (prog : BpfProgram) (e : Entry) (t : Referent) : Decidable (EntryFits prog e t) :=
  decidable_of_iff' _ entryFits_iff

/-! ## Fitting entries -/

section

variable {elf : Elf} {obj : BpfObject} {prog : BpfProgram} {e : Entry} {d : RelocDesc}

/-- An index recorded in an `int` field, when it is not too large. -/
theorem inBounds_ofNat_iff {α : Type*} {l : List α} {m : ℕ} (h : m < l.length) :
    InBounds l (BitVec.ofNat 32 m).toInt ↔ m % 2 ^ 32 < 2 ^ 31 := by
  rw [InBounds, BitVec.toInt_eq_toNat_cond, BitVec.toNat_ofNat]
  split <;> omega

/-- The index of the instruction of an entry. -/
theorem inBounds_insnIdx_iff (hidx : d.insnIdx.toNat = prog.entryIdx e)
    (hlt : prog.entryIdx e < prog.insns.length) :
    InBounds prog.insns d.insnIdx.toInt ↔ prog.entryIdx e < 2 ^ 31 := by
  rw [InBounds, BitVec.toInt_eq_toNat_cond, hidx]
  split <;> omega

/-- The index of the next instruction. -/
theorem inBounds_succ_iff (hidx : d.insnIdx.toNat = prog.entryIdx e)
    (hlt : prog.entryIdx e < 2 ^ 31) :
    InBounds prog.insns (d.insnIdx.toInt + 1) ↔ prog.entryIdx e + 1 < prog.insns.length := by
  rw [InBounds, BitVec.toInt_eq_toNat_of_lt (by omega), hidx]
  omega

/-- The indices of a descriptor are in range if and only if its entry fits. -/
theorem IsRecorded.inBounds_iff (hobj : IsOpened elf obj) {insn : BpfInsn} {t : Referent}
    (h : IsRecorded elf obj prog e d insn t) : InRange obj prog.insns d ↔ EntryFits prog e t := by
  have hidx := h.idx
  have hlt : prog.entryIdx e < prog.insns.length := (List.getElem?_eq_some_iff.1 h.getInsn).1
  have hbounds := inBounds_insnIdx_iff hidx hlt
  have hnext (h : prog.entryIdx e < 2 ^ 31) := inBounds_succ_iff hidx h
  cases h.describes with
  | func hcode htype =>
    refine ⟨fun _ => ⟨fun h => absurd rfl h, fun h => h.elim, fun m h => (nomatch h)⟩, fun _ => ?_⟩
    exact ⟨.inr (.inl htype), fun h => absurd htype h,
      fun h => absurd (htype.symm.trans h) (by decide),
        fun h => h.elim (fun h => absurd (htype.symm.trans h) (by decide))
        fun h => absurd (htype.symm.trans h) (by decide),
      fun h => absurd (htype.symm.trans h) (by decide)⟩
  | ext i ext hcode htype hget hoff =>
    have hilt := (List.getElem?_eq_some_iff.1 hget).1
    have hindex : index obj.externs d.symOff.toInt = .ok ext := by
      have := hobj.length_externs
      rw [hoff, index_eq_ok, BitVec.toInt_eq_toNat_of_lt (by rw [BitVec.toNat_ofNat]; omega),
        BitVec.toNat_ofNat, Nat.mod_eq_of_lt (by omega)]
      exact ⟨by omega, by rwa [Int.toNat_natCast]⟩
    have hkconfig (hk : ext.isKcfg = true) : InBounds obj.maps obj.kconfigMapIdx := by
      obtain ⟨m, map, hm, hmap, -⟩ := hobj.kconfigMap ⟨ext, List.mem_of_getElem? hget, hk⟩
      have := (List.getElem?_eq_some_iff.1 hmap).1
      exact ⟨by omega, by omega⟩
    have hrange (hlt' : prog.entryIdx e < 2 ^ 31) :
        ExternInRange obj prog.insns d.insnIdx.toInt ext ↔
          ((Referent.ext ext).Wide → prog.entryIdx e + 1 < prog.insns.length) := by
      rw [ExternInRange, Referent.Wide]
      cases hval : ext.val with
      | kcfg =>
        have := hkconfig (by rw [ExternDesc.isKcfg, hval])
        simp [hnext hlt', this]
      | ksym => simp [hnext hlt']
    have hcall : d.type ≠ reloCall := by rw [htype]; decide
    constructor
    · intro h
      have hlt' := hbounds.1 (h.insn hcall)
      obtain ⟨ext', hext', hin⟩ := h.ext htype
      cases hindex.symm.trans hext'
      exact ⟨fun _ => hlt', (hrange hlt').1 hin, fun m h => (nomatch h)⟩
    · intro h
      have hlt' := h.insn (by simp)
      refine ⟨.inr (.inr (.inr htype)), fun _ => hbounds.2 hlt', fun h => ?_, fun h => ?_,
        fun _ => ⟨ext, hindex, (hrange hlt').2 h.second⟩⟩
      · exact absurd (htype.symm.trans h) (by decide)
      · exact h.elim (fun h => absurd (htype.symm.trans h) (by decide))
          fun h => absurd (htype.symm.trans h) (by decide)
  | map m hcode htype hm hmap =>
    have hmap' := inBounds_ofNat_iff hm
    rw [← hmap] at hmap'
    constructor
    · intro h
      refine ⟨fun _ => hbounds.1 (h.insn (by rw [htype]; decide)), fun h => h.elim,
        fun m' hm' => ?_⟩
      cases hm'
      exact hmap'.1 (h.map (.inl htype))
    · intro h
      refine ⟨.inl htype, fun _ => hbounds.2 (h.insn (by simp)), fun h => ?_,
        fun _ => hmap'.2 (h.map m rfl), fun h => ?_⟩
      · exact absurd (htype.symm.trans h) (by decide)
      · exact absurd (htype.symm.trans h) (by decide)
  | data m off hcode htype hm hmap hoff =>
    have hmap' := inBounds_ofNat_iff hm
    rw [← hmap] at hmap'
    constructor
    · intro h
      have hlt' := hbounds.1 (h.insn (by rw [htype]; decide))
      refine ⟨fun _ => hlt', fun _ => (hnext hlt').1 (h.second htype), fun m' hm' => ?_⟩
      cases hm'
      exact hmap'.1 (h.map (.inr htype))
    · intro h
      have hlt' := h.insn (by simp)
      refine ⟨.inr (.inr (.inl htype)), fun _ => hbounds.2 hlt',
        fun _ => (hnext hlt').2 (h.second trivial), fun _ => hmap'.2 (h.map m rfl), fun h => ?_⟩
      exact absurd (htype.symm.trans h) (by decide)

/-- The descriptors whose indices are in range are those that can be relocated. -/
theorem relocatable_iff_inRange {insns : List BpfInsn} :
    Relocatable obj insns d ↔ InRange obj insns d := by
  have hfits {r : Ref} (hr : r ≠ .call) : r.Fits d.insnIdx.toInt insns ↔
      InBounds insns d.insnIdx.toInt ∧ (r.wide = true → InBounds insns (d.insnIdx.toInt + 1)) := by
    rw [Ref.Fits, InBounds, InBounds]
    constructor
    · intro h
      obtain ⟨hnn, hlt, hnext⟩ := h hr
      exact ⟨by omega, fun hw => by have := hnext hw; omega⟩
    · rintro ⟨hk, hnext⟩ -
      exact ⟨by omega, by omega, fun hw => by have := hnext hw; omega⟩
  have hne {t : RelocType} (htype : d.type = t) {u : RelocType} {P : Prop} (h : d.type = u)
      (htu : t ≠ u) : P := absurd (htype.symm.trans h) htu
  by_cases hld : d.type = reloLd64
  · have hres : resolve obj d = index obj.maps d.mapIdx.toInt >>= fun map =>
        .ok (.mapFd (BitVec.ofInt 32 map.fd)) := if_pos hld
    constructor
    · rintro ⟨r, hr, hrfits⟩
      obtain ⟨map, hmap, hr⟩ := Fold.bind_eq_ok.1 (hres ▸ hr)
      cases hr
      exact ⟨.inl hld, fun _ => ((hfits (by simp)).1 hrfits).1, fun h => hne hld h (by decide),
        fun _ => inBounds_iff_index.2 ⟨map, hmap⟩, fun h => hne hld h (by decide)⟩
    · intro h
      obtain ⟨map, hmap⟩ := inBounds_iff_index.1 (h.map (.inl hld))
      exact ⟨_, hres.trans (by rw [hmap]; rfl),
        (hfits (by simp)).2 ⟨h.insn fun h => hne hld h (by decide), fun hw => by cases hw⟩⟩
  by_cases hdata : d.type = reloData
  · have hres : resolve obj d = index obj.maps d.mapIdx.toInt >>= fun map =>
        .ok (.mapValue (BitVec.ofInt 32 map.fd) d.symOff) := (if_neg hld).trans (if_pos hdata)
    constructor
    · rintro ⟨r, hr, hrfits⟩
      obtain ⟨map, hmap, hr⟩ := Fold.bind_eq_ok.1 (hres ▸ hr)
      cases hr
      obtain ⟨hk, hnext⟩ := (hfits (by simp)).1 hrfits
      exact ⟨.inr (.inr (.inl hdata)), fun _ => hk, fun _ => hnext rfl,
        fun _ => inBounds_iff_index.2 ⟨map, hmap⟩, fun h => hne hdata h (by decide)⟩
    · intro h
      obtain ⟨map, hmap⟩ := inBounds_iff_index.1 (h.map (.inr hdata))
      exact ⟨_, hres.trans (by rw [hmap]; rfl),
        (hfits (by simp)).2 ⟨h.insn fun h => hne hdata h (by decide), fun _ => h.second hdata⟩⟩
  by_cases hext : d.type = reloExtern
  · have hres : resolve obj d = index obj.externs d.symOff.toInt >>= fun ext =>
        match ext.val with
        | .kcfg _ _ _ dataOff _ => index obj.maps obj.kconfigMapIdx >>= fun map =>
          .ok (.kconfig (BitVec.ofInt 32 map.fd) (BitVec.ofInt 32 dataOff))
        | .ksym addr vmlinuxBtfId typeId =>
          .ok (if typeId ≠ 0 then .btfId vmlinuxBtfId else .addr addr) :=
      (if_neg hld).trans ((if_neg hdata).trans (if_pos hext))
    have hmaps (h : d.type = reloLd64 ∨ d.type = reloData) {P : Prop} : P :=
      h.elim (fun h => absurd h hld) fun h => absurd h hdata
    constructor
    · rintro ⟨r, hr, hrfits⟩
      obtain ⟨ext, hget, hr⟩ := Fold.bind_eq_ok.1 (hres ▸ hr)
      suffices hsuff : r ≠ .call ∧ ExternInRange obj insns d.insnIdx.toInt ext from
        ⟨.inr (.inr (.inr hext)), fun _ => ((hfits hsuff.1).1 hrfits).1, fun h => absurd h hdata,
          fun h => hmaps h, fun _ => ⟨ext, hget, hsuff.2⟩⟩
      rw [ExternInRange]
      split at hr
      · rename_i hval
        obtain ⟨map, hmap, hr⟩ := Fold.bind_eq_ok.1 hr
        cases hr
        exact ⟨by simp, ((hfits (by simp)).1 hrfits).2 rfl, inBounds_iff_index.2 ⟨map, hmap⟩⟩
      · rename_i hval
        cases hr
        refine ⟨by split <;> simp, fun hzero => ?_⟩
        rw [if_neg (not_not.2 hzero)] at hrfits
        exact ((hfits (by simp)).1 hrfits).2 rfl
    · intro h
      obtain ⟨ext, hget, hin⟩ := h.ext hext
      have hk := h.insn fun h => hne hext h (by decide)
      rw [ExternInRange] at hin
      cases hval : ext.val with
      | kcfg type sz align dataOff isSigned =>
        rw [hval] at hin
        obtain ⟨map, hmap⟩ := inBounds_iff_index.1 hin.2
        refine ⟨.kconfig (BitVec.ofInt 32 map.fd) (BitVec.ofInt 32 dataOff), ?_,
          (hfits (by simp)).2 ⟨hk, fun _ => hin.1⟩⟩
        rw [hres, hget, Fold.ok_bind, hval, hmap]
        rfl
      | ksym addr vmlinuxBtfId typeId =>
        rw [hval] at hin
        refine ⟨if typeId ≠ 0 then .btfId vmlinuxBtfId else .addr addr, ?_,
          (hfits (by split <;> simp)).2 ⟨hk, fun hw => hin ?_⟩⟩
        · rw [hres, hget, Fold.ok_bind, hval]
        · by_contra hne
          rw [if_pos hne] at hw
          cases hw
  by_cases hcall : d.type = reloCall
  · have hres : resolve obj d = .ok .call :=
      (if_neg hld).trans ((if_neg hdata).trans ((if_neg hext).trans (if_pos hcall)))
    refine ⟨fun _ => ?_, fun _ => ⟨.call, hres, fun h => absurd rfl h⟩⟩
    exact ⟨.inr (.inl hcall), fun h => absurd hcall h, fun h => absurd h hdata,
      fun h => h.elim (fun h => absurd h hld) fun h => absurd h hdata, fun h => absurd h hext⟩
  · have hres : resolve obj d = .error .einval :=
      (if_neg hld).trans ((if_neg hdata).trans ((if_neg hext).trans (if_neg hcall)))
    constructor
    · rintro ⟨r, hr, -⟩
      rw [hres] at hr
      cases hr
    · intro h
      rcases h.type with h | h | h | h
      exacts [absurd h hld, absurd h hcall, absurd h hdata, absurd h hext]

/-- Relocating a program succeeds if and only if the indices of its descriptors are in range. -/
theorem relocateData_ok_iff : (∃ prog', relocateData obj prog = .ok (prog', none)) ↔
    ∀ d ∈ prog.relocDesc, InRange obj prog.insns d := by
  simp only [relocateData_eq_ok, ← relocatable_iff_inRange]
  exact ⟨fun ⟨_, h, _⟩ => h, fun h => ⟨_, h, rfl⟩⟩

/-- The indices used for the descriptors of a program are in range if and only if its entries
    fit. -/
theorem IsOpened.inBounds_iff (hobj : IsOpened elf obj) (hp : prog ∈ obj.programs) :
    (∀ d ∈ prog.relocDesc, InRange obj prog.insns d) ↔
      ∀ e ∈ entriesOf elf obj.programs prog, ∀ t, referent elf obj prog e = some t →
        EntryFits prog e t := by
  constructor
  · intro h e he t ht
    obtain ⟨d, hd, insn, t', hrec⟩ := hobj.exists_desc hp he
    cases hrec.referent.symm.trans ht
    exact (hrec.inBounds_iff hobj).1 (h d hd)
  · intro h d hd
    obtain ⟨e, he, insn, t, hrec⟩ := hobj.exists_entry hp hd
    exact (hrec.inBounds_iff hobj).2 (h e he t hrec.referent)

end

/-- The indices that `extract` uses to relocate a program of an object it has opened are in
    range if and only if the entries of the program fit. -/
theorem inRange_iff {btfNew : Bytes → Except Err Btf} {heap heap' : Heap} {path : Bytes}
    {elf : Elf} {obj obj' : BpfObject} {prog : BpfProgram}
    (hopen : BpfObject.openFile btfNew heap path elf = .ok obj)
    (hagain : obj.setFds.collectRelos heap' = .ok obj') (hp : prog ∈ obj'.programs) :
    (∀ d ∈ prog.relocDesc, InRange obj' prog.insns d) ↔
      ∀ e ∈ entriesOf elf obj'.programs prog, ∀ t, referent elf obj' prog e = some t →
        EntryFits prog e t :=
  (isOpened_of_openFile hopen hagain).inBounds_iff hp

/-! ## A reference to data -/

/-- A program with a reference to the data section from its first instruction. -/
def loadDataElf (text : List BpfInsn) : Elf :=
  let elf := smallElf "xdp" text [⟨0, 2⟩]
    [⟨some [], 0, 0, 0, 0, 0⟩,
      ⟨some (cstr "load"), stbGlobal, sttFunc, 1, 0, bpfInsnSz * text.length⟩,
      ⟨some (cstr "limit"), stbGlobal, sttObject, 4, 0, 4⟩] []
  { elf with
    scns := elf.scns.set 4
      (.ofData (cstr ".data") shtProgbits 3 0 0 0 (.ofBytes (leBytes 4 7) [] []))
    length_scns := by simpa using elf.length_scns }

theorem inRange_loadDataElf : ∃ obj obj',
    BpfObject.openFile noBtf zeroHeap (cstr "prog.o")
        (loadDataElf [⟨lddwCode, 1, 0, 0, 0⟩, .zero, ⟨0x95, 0, 0, 0, 0⟩]) = .ok obj ∧
      obj.setFds.collectRelos zeroHeap = .ok obj' ∧
      ∀ prog ∈ obj'.programs, ∀ d ∈ prog.relocDesc, InRange obj' prog.insns d := by
  have hopen : ∃ obj, BpfObject.openFile noBtf zeroHeap (cstr "prog.o")
        (loadDataElf [⟨lddwCode, 1, 0, 0, 0⟩, .zero, ⟨0x95, 0, 0, 0, 0⟩]) = .ok obj ∧
      ∀ prog ∈ obj.setFds.programs,
        ∀ e ∈ entriesOf (loadDataElf [⟨lddwCode, 1, 0, 0, 0⟩, .zero, ⟨0x95, 0, 0, 0, 0⟩])
          obj.setFds.programs prog,
        ∀ t ∈ referent (loadDataElf [⟨lddwCode, 1, 0, 0, 0⟩, .zero, ⟨0x95, 0, 0, 0, 0⟩]) obj.setFds
          prog e, EntryFits prog e t := ⟨_, rfl, by decide⟩
  obtain ⟨obj, hopen, hfits⟩ := hopen
  have hagain := BpfObject.collectRelos_setFds hopen zeroHeap
  exact ⟨obj, _, hopen, hagain, fun prog hp => (inRange_iff hopen hagain hp).2 (hfits prog hp)⟩

/-- At the last instruction of a program, the second one of a reference to data is out of
    range. -/
theorem not_inRange : ¬∀ (btfNew : Bytes → Except Err Btf) (heap heap' : Heap) (path : Bytes)
    (elf : Elf) (obj obj' : BpfObject), BpfObject.openFile btfNew heap path elf = .ok obj →
      obj.setFds.collectRelos heap' = .ok obj' →
      ∀ prog ∈ obj'.programs, ∀ d ∈ prog.relocDesc, InRange obj' prog.insns d := fun h =>
  have hrange := h noBtf zeroHeap zeroHeap (cstr "prog.o") (loadDataElf [⟨lddwCode, 1, 0, 0, 0⟩])
    _ _ rfl rfl _ List.mem_cons_self _ List.mem_cons_self
  absurd (hrange.second rfl) (by decide)

end BpfElfTools.Extractor
