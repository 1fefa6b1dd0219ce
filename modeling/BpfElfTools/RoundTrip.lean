import BpfElfTools.Extractor.Relos
import BpfElfTools.Extractor.Relocate
import BpfElfTools.Patcher.ClearReloc

/-!
# Undoing relocations

The patcher's `clear_reloc_insns` is meant to undo what the extractor's
`bpf_object__relocate_data` writes. It recognises the references to maps only, by
the source register they set.

* `clearRelocInsns_relocateData_iff`: for a program as it was compiled, the
  original bytes come back exactly when every descriptor is a reference to a map
  or writes nothing.
-/

namespace BpfElfTools

open Extractor Patcher

/-- The instructions of a program before relocation: the second slot of every `lddw` is
    zero, and no source register is the one of a map. -/
structure Unrelocated (insns : List BpfInsn) : Prop where
  second : ∀ k i j, insns[k]? = some i → i.IsLddw → insns[k + 1]? = some j → j = .zero
  src : ∀ i ∈ insns, i.IsLddw → i.srcReg ≠ bpfPseudoMapFd

/-- All of it, at the places of the list. -/
theorem unrelocated_of_forall {insns : List BpfInsn}
    (h : ∀ k < insns.length, ∀ i ∈ insns[k]?, i.IsLddw →
      i.srcReg ≠ bpfPseudoMapFd ∧ ∀ j ∈ insns[k + 1]?, j = .zero) : Unrelocated insns where
  second k i j hi hlddw hj :=
    (h k (List.getElem?_eq_some_iff.1 hi).1 i hi hlddw).2 j hj
  src i hi hlddw := by
    obtain ⟨k, hk⟩ := List.mem_iff_getElem?.1 hi
    exact (h k (List.getElem?_eq_some_iff.1 hk).1 i hk hlddw).1

/-- The instructions of a program as it was compiled, `refs` being the places of its references:
    the second slot of a reference is zero, and no source register is the one of a map. The
    second slot of another `lddw` holds the upper half of a constant. -/
structure AsCompiled (refs : ℕ → Prop) (insns : List BpfInsn) : Prop where
  zero : ∀ k i j, refs k → insns[k]? = some i → i.IsLddw → insns[k + 1]? = some j → j = .zero
  src : ∀ i ∈ insns, i.IsLddw → i.srcReg ≠ bpfPseudoMapFd

theorem Unrelocated.asCompiled {insns : List BpfInsn} (h : Unrelocated insns) (refs : ℕ → Prop) :
    AsCompiled refs insns :=
  ⟨fun k i j _ => h.second k i j, h.src⟩

/-- No `lddw` starts in the second slot of a reference. -/
theorem AsCompiled.not_isLddw {refs : ℕ → Prop} {insns : List BpfInsn} (h : AsCompiled refs insns)
    {k : ℕ} {i j : BpfInsn} (hk : refs k) (hi : insns[k]? = some i) (hlddw : i.IsLddw)
    (hj : insns[k + 1]? = some j) : ¬j.IsLddw := by
  rw [h.zero k i j hk hi hlddw hj]
  decide

/-- A reference of the program is in the instruction `k`. -/
def Extractor.BpfProgram.IsRef (prog : BpfProgram) (k : ℕ) : Prop :=
  ∃ d ∈ prog.relocDesc, d.insnIdx.toNat = k

/-- The descriptor is one that can be recorded for the program, at a `lddw` as the compiler
    emits it: without a source register, and without an immediate unless it is a
    reference to data. -/
structure RecordedAtLddw (obj : BpfObject) (prog : BpfProgram) (d : RelocDesc) : Prop where
  recorded : ∃ d₀ idx sym rel, recordReloc obj prog d₀ idx sym rel = .ok d
  orig : ∃ i, prog.insns[d.insnIdx.toNat]? = some i ∧ i.IsLddw ∧ i.srcReg = 0 ∧
    (d.type ≠ reloData → i.imm = 0)

theorem RecordedAtLddw.type_ne_call {obj : BpfObject} {prog : BpfProgram} {d : RelocDesc}
    (h : RecordedAtLddw obj prog d) : d.type ≠ reloCall := by
  obtain ⟨d₀, idx, sym, rel, hrec⟩ := h.recorded
  obtain ⟨i, hi, hlddw, -⟩ := h.orig
  obtain ⟨insn, hinsn, hidx, -, hd⟩ := Recorded.of_recordReloc hrec
  rw [hidx, hinsn] at hi
  cases hi
  cases hd with
  | call hcode => exact absurd (hcode.symm.trans hlddw) (by decide)
  | ext _ _ _ _ _ _ htype => rw [htype]; decide
  | ld64 _ _ _ _ _ _ _ _ _ htype => rw [htype]; decide
  | data _ _ _ _ _ _ _ htype => rw [htype]; decide

/-- The patcher undoes the reference: it is one to a map, or it leaves the instructions as
    they are. -/
def Extractor.Ref.Undone (r : Ref) : Prop := (∃ fd, r = .mapFd fd) ∨ r = .addr 0

section

variable {obj : BpfObject} {prog : BpfProgram}

/-- The relocated instructions of a program: each pair is what the reference at it, if there
    is one, makes of it. -/
structure RelocatedInsns (obj : BpfObject) (prog : BpfProgram) (insns : List BpfInsn) : Prop where
  pair : ∀ d ∈ prog.relocDesc, Pairs.pairAt insns d.insnIdx.toNat =
    (refOf obj d).toWrite.onPair (Pairs.pairAt prog.insns d.insnIdx.toNat)
  other : ∀ n, (∀ d ∈ prog.relocDesc, n ≠ d.insnIdx.toNat ∧ n ≠ d.insnIdx.toNat + 1) →
    insns[n]? = prog.insns[n]?

theorem relocatedInsns_of_relocateData {prog' : BpfProgram}
    (hc : AsCompiled prog.IsRef prog.insns)
    (hrec : ∀ d ∈ prog.relocDesc, RecordedAtLddw obj prog d)
    (hnodup : (prog.relocDesc.map RelocDesc.insnIdx).Nodup)
    (h : relocateData obj prog = .ok (prog', none)) : RelocatedInsns obj prog prog'.insns := by
  obtain ⟨hall, rfl⟩ := relocateData_eq_ok.1 h
  have hidx : ∀ d ∈ prog.relocDesc, d.insnIdx.toInt.toNat = d.insnIdx.toNat := fun d hd =>
    have ⟨_, hr, hfits⟩ := hall d hd
    hfits.toNat_eq (resolve_ne_call hr (hrec d hd).type_ne_call)
  have hmem : ∀ w ∈ refWrites obj prog.relocDesc, ∃ d ∈ prog.relocDesc, w.1 = d.insnIdx.toNat :=
    fun w hw => by
      obtain ⟨d, hd, rfl⟩ := List.mem_map.1 hw
      exact ⟨d, hd, hidx d hd⟩
  have hfst : (refWrites obj prog.relocDesc).map Prod.fst =
      prog.relocDesc.map fun d => d.insnIdx.toNat := by
    rw [refWrites, List.map_map]
    exact List.map_congr_left hidx
  have hws : ((refWrites obj prog.relocDesc).map Prod.fst).Nodup := by
    rw [hfst, ← Function.comp_def BitVec.toNat, ← List.map_map]
    exact hnodup.map (fun a b => BitVec.eq_of_toNat_eq)
  -- The second slot of a `lddw` is not one, so that no two references overlap.
  have hapart : ∀ d ∈ prog.relocDesc, ∀ e ∈ prog.relocDesc,
      d.insnIdx.toNat ≠ e.insnIdx.toNat + 1 := by
    intro d hd e he heq
    obtain ⟨i, hi, hlddw, -⟩ := (hrec d hd).orig
    obtain ⟨j, hj, hlddw', -⟩ := (hrec e he).orig
    exact hc.not_isLddw ⟨e, he, rfl⟩ hj hlddw' (heq ▸ hi) hlddw
  refine ⟨fun d hd => ?_, fun n hn => ?_⟩
  · have hat : Pairs.atIndex (refWrites obj prog.relocDesc) d.insnIdx.toNat =
        [(refOf obj d).toWrite] := by
      have := Pairs.atIndex_of_mem hws (List.mem_map_of_mem hd)
      rwa [hidx d hd] at this
    have hstraddle : ∀ w ∈ refWrites obj prog.relocDesc,
        w.1 ≠ d.insnIdx.toNat + 1 ∧ d.insnIdx.toNat ≠ w.1 + 1 := fun w hw => by
      obtain ⟨e, he, hwe⟩ := hmem w hw
      rw [hwe]
      exact ⟨hapart e he d hd, hapart d hd e he⟩
    rw [Pairs.pairAt_writeAll hstraddle, hat]
    rfl
  · refine Pairs.getElem?_writeAll_of_notMem (fun w hw => ?_) _
    obtain ⟨d, hd, hwd⟩ := hmem w hw
    rw [hwd]
    exact hn d hd

theorem halves_eq_zero {a : BitVec 64} (hlo : a.setWidth 32 = 0)
    (hhi : (a >>> 32).setWidth 32 = 0) : a = 0 := by
  have hlo' := congrArg BitVec.toNat hlo
  have hhi' := congrArg BitVec.toNat hhi
  simp only [BitVec.toNat_setWidth, BitVec.toNat_ushiftRight, Nat.shiftRight_eq_div_pow]
    at hlo' hhi'
  refine BitVec.eq_of_toNat_eq ?_
  have := a.isLt
  change a.toNat = 0
  change _ = 0 at hlo' hhi'
  omega

theorem clearedInsn_eq_self {i : BpfInsn} (hsrc : i.srcReg = 0) (himm : i.imm = 0) :
    clearedInsn i = i := by
  rw [clearedInsn, ← hsrc, ← himm]

theorem first_addr_zero {i : BpfInsn} (himm : i.imm = 0) : (Ref.addr 0).first i = i := by
  rw [Ref.first, show BitVec.setWidth 32 (0 : BitVec 64) = 0 from rfl, ← himm]

/-- The other references set another source register than those to maps, or keep it. -/
theorem not_isMapFd_first {r : Ref} {i : BpfInsn} (hr : ∀ fd, r ≠ .mapFd fd) (hsrc : i.srcReg = 0) :
    ¬IsMapFd (r.first i) := by
  rintro ⟨-, hsrc'⟩
  cases r with
  | mapFd fd => exact hr fd rfl
  | mapValue | kconfig =>
    exact absurd (show bpfPseudoMapValue = bpfPseudoMapFd from hsrc') (by decide)
  | btfId => exact absurd (show bpfPseudoBtfId = bpfPseudoMapFd from hsrc') (by decide)
  | addr | call => exact absurd (hsrc.symm.trans hsrc') (by decide)

namespace RelocatedInsns

variable {insns : List BpfInsn}

/-- The two instructions a descriptor is for. -/
theorem getElem?_of_mem (h : RelocatedInsns obj prog insns) {d : RelocDesc}
    (hd : d ∈ prog.relocDesc) {i : BpfInsn} (hi : prog.insns[d.insnIdx.toNat]? = some i) :
    insns[d.insnIdx.toNat]? = some ((refOf obj d).first i) ∧
      insns[d.insnIdx.toNat + 1]? =
        prog.insns[d.insnIdx.toNat + 1]?.map ((refOf obj d).second i) := by
  have := h.pair d hd
  simp only [Pairs.pairAt, Pairs.PairWrite.onPair, hi, Ref.toWrite, Option.map_some,
    Option.bind_some, Prod.mk.injEq] at this
  exact this

/-- Relocating keeps the opcodes. -/
theorem map_code (h : RelocatedInsns obj prog insns)
    (hrec : ∀ d ∈ prog.relocDesc, RecordedAtLddw obj prog d) (n : ℕ) :
    insns[n]?.map BpfInsn.code = prog.insns[n]?.map BpfInsn.code := by
  by_cases hn : ∀ d ∈ prog.relocDesc, n ≠ d.insnIdx.toNat ∧ n ≠ d.insnIdx.toNat + 1
  · rw [h.other n hn]
  · push Not at hn
    obtain ⟨d, hd, hn⟩ := hn
    obtain ⟨i, hi, -⟩ := (hrec d hd).orig
    obtain ⟨hfirst, hsecond⟩ := h.getElem?_of_mem hd hi
    by_cases hn' : n = d.insnIdx.toNat
    · rw [hn', hfirst, hi, Option.map_some, Option.map_some, Ref.first_code]
    · rw [hn hn', hsecond, Option.map_map]
      congr 1
      exact funext fun j => Ref.second_code _ _ _

/-- The references to maps are where the descriptors of maps are. -/
theorem isMapFd_iff (h : RelocatedInsns obj prog insns) (hc : AsCompiled prog.IsRef prog.insns)
    (hrec : ∀ d ∈ prog.relocDesc, RecordedAtLddw obj prog d) {n : ℕ} {i' : BpfInsn}
    (hi' : insns[n]? = some i') :
    IsMapFd i' ↔ ∃ d ∈ prog.relocDesc, d.insnIdx.toNat = n ∧ ∃ fd, refOf obj d = .mapFd fd := by
  constructor
  · rintro ⟨hlddw, hsrc⟩
    have hcode := h.map_code hrec n
    rw [hi', Option.map_some] at hcode
    obtain ⟨i, hi, hii'⟩ := Option.map_eq_some_iff.1 hcode.symm
    have hlddw' : i.IsLddw := hii'.trans hlddw
    by_cases hd : ∃ d ∈ prog.relocDesc, d.insnIdx.toNat = n
    · obtain ⟨d, hd, rfl⟩ := hd
      refine ⟨d, hd, rfl, ?_⟩
      obtain ⟨i₀, hi₀, -, hsrc₀, -⟩ := (hrec d hd).orig
      obtain rfl : i = i₀ := Option.some.inj (hi.symm.trans hi₀)
      obtain rfl : (refOf obj d).first i = i' :=
        Option.some.inj ((h.getElem?_of_mem hd hi).1.symm.trans hi')
      by_contra hnot
      push Not at hnot
      exact not_isMapFd_first hnot hsrc₀ ⟨hlddw, hsrc⟩
    · push Not at hd
      have hsame : insns[n]? = prog.insns[n]? := by
        refine h.other n fun d hd' => ⟨(hd d hd').symm, fun hnext => ?_⟩
        obtain ⟨i₀, hi₀, hlddw₀, -⟩ := (hrec d hd').orig
        exact hc.not_isLddw ⟨d, hd', rfl⟩ hi₀ hlddw₀ (hnext ▸ hi) hlddw'
      rw [hsame] at hi'
      exact absurd hsrc (hc.src i' (List.mem_of_getElem? hi') hlddw)
  · rintro ⟨d, hd, rfl, fd, hr⟩
    obtain ⟨i, hi, hlddw, -⟩ := (hrec d hd).orig
    obtain rfl : (refOf obj d).first i = i' :=
      Option.some.inj ((h.getElem?_of_mem hd hi).1.symm.trans hi')
    rw [hr]
    exact ⟨hlddw, rfl⟩

/-- What the patcher makes of the relocated instructions, where. -/
theorem getElem?_clearInsns (h : RelocatedInsns obj prog insns)
    (hc : AsCompiled prog.IsRef prog.insns)
    (hrec : ∀ d ∈ prog.relocDesc, RecordedAtLddw obj prog d) (n : ℕ) :
    (clearInsns insns)[n]? = insns[n]?.map fun j =>
      if (prevInsn insns n).any (decide <| IsMapFd ·) then .zero
      else if IsMapFd j then clearedInsn j else j := by
  refine Patcher.getElem?_clearInsns (fun k i j hi hj hmi hmj => ?_) n
  obtain ⟨d, hd, rfl, -⟩ := (h.isMapFd_iff hc hrec hi).1 hmi
  obtain ⟨e, he, hne, -⟩ := (h.isMapFd_iff hc hrec hj).1 hmj
  obtain ⟨i₀, hi₀, hlddw, -⟩ := (hrec d hd).orig
  obtain ⟨j₀, hj₀, hlddw', -⟩ := (hrec e he).orig
  exact hc.not_isLddw ⟨d, hd, rfl⟩ hi₀ hlddw (hne ▸ hj₀) hlddw'

/-- The instruction before a reference is none to a map: that would be in the second slot. -/
theorem prevInsn_of_mem (h : RelocatedInsns obj prog insns) (hc : AsCompiled prog.IsRef prog.insns)
    (hrec : ∀ d ∈ prog.relocDesc, RecordedAtLddw obj prog d) {d : RelocDesc}
    (hd : d ∈ prog.relocDesc) :
    (prevInsn insns d.insnIdx.toNat).any (decide <| IsMapFd ·) = false := by
  obtain ⟨i, hi, hlddw, -⟩ := (hrec d hd).orig
  cases hk : d.insnIdx.toNat with
  | zero => rfl
  | succ k =>
    rw [prevInsn]
    cases hp : insns[k]? with
    | none => rfl
    | some p =>
      refine decide_eq_false fun hmp => ?_
      obtain ⟨e, he, rfl, -⟩ := (h.isMapFd_iff hc hrec hp).1 hmp
      obtain ⟨i₀, hi₀, hlddw₀, -⟩ := (hrec e he).orig
      exact hc.not_isLddw ⟨e, he, rfl⟩ hi₀ hlddw₀ (hk ▸ hi) hlddw

/-- Where nothing has been written, nothing is cleared. -/
theorem getElem?_clearInsns_of_notMem (h : RelocatedInsns obj prog insns)
    (hc : AsCompiled prog.IsRef prog.insns)
    (hrec : ∀ d ∈ prog.relocDesc, RecordedAtLddw obj prog d) {n : ℕ}
    (hn : ∀ d ∈ prog.relocDesc, n ≠ d.insnIdx.toNat ∧ n ≠ d.insnIdx.toNat + 1) :
    (clearInsns insns)[n]? = prog.insns[n]? := by
  have hprev : (prevInsn insns n).any (decide <| IsMapFd ·) = false := by
    cases n with
    | zero => rfl
    | succ k =>
      rw [prevInsn]
      cases hp : insns[k]? with
      | none => rfl
      | some p =>
        refine decide_eq_false fun hmp => ?_
        obtain ⟨e, he, rfl, -⟩ := (h.isMapFd_iff hc hrec hp).1 hmp
        exact (hn e he).2 rfl
  rw [h.getElem?_clearInsns hc hrec n, hprev, ← h.other n hn]
  cases hi : insns[n]? with
  | none => rfl
  | some i =>
    have hi' : ¬IsMapFd i := fun hm => by
      obtain ⟨d, hd, rfl, -⟩ := (h.isMapFd_iff hc hrec hi).1 hm
      exact (hn d hd).1 rfl
    simp [hi']

/-- A reference that is undone comes back, in both of its slots. -/
theorem getElem?_clearInsns_of_undone (h : RelocatedInsns obj prog insns)
    (hc : AsCompiled prog.IsRef prog.insns)
    (hrec : ∀ d ∈ prog.relocDesc, RecordedAtLddw obj prog d) {d : RelocDesc}
    (hd : d ∈ prog.relocDesc) (hreloc : Relocatable obj prog.insns d)
    (hundone : (refOf obj d).Undone) :
    (clearInsns insns)[d.insnIdx.toNat]? = prog.insns[d.insnIdx.toNat]? ∧
      (clearInsns insns)[d.insnIdx.toNat + 1]? = prog.insns[d.insnIdx.toNat + 1]? := by
  obtain ⟨i, hi, hlddw, hsrc, himm⟩ := (hrec d hd).orig
  obtain ⟨hfirst, hsecond⟩ := h.getElem?_of_mem hd hi
  obtain ⟨r, hr, -⟩ := hreloc
  have htype : d.type ≠ reloData := fun htype => by
    obtain ⟨fd, hfd⟩ := resolve_data hr htype
    rcases hundone with ⟨fd', hfd'⟩ | haddr
    · rw [refOf_eq hr, hfd] at hfd'
      cases hfd'
    · rw [refOf_eq hr, hfd] at haddr
      cases haddr
  refine ⟨?_, ?_⟩
  · rw [h.getElem?_clearInsns hc hrec, hfirst, hi, h.prevInsn_of_mem hc hrec hd, Option.map_some,
      if_neg (by simp)]
    rcases hundone with ⟨fd, hfd⟩ | haddr
    · rw [hfd, if_pos ⟨hlddw, rfl⟩]
      exact congrArg some (clearedInsn_eq_self hsrc (himm htype))
    · rw [haddr, if_neg (not_isMapFd_first (by simp) hsrc), first_addr_zero (himm htype)]
  · rw [h.getElem?_clearInsns hc hrec, hsecond, prevInsn, hfirst, Option.any_some]
    cases hj : prog.insns[d.insnIdx.toNat + 1]? with
    | none => rfl
    | some j =>
      obtain rfl := hc.zero _ i j ⟨d, hd, rfl⟩ hi hlddw hj
      rw [Option.map_some, Option.map_some]
      rcases hundone with ⟨fd, hfd⟩ | haddr
      · rw [hfd, decide_eq_true (show IsMapFd ((Ref.mapFd fd).first i) from ⟨hlddw, rfl⟩),
          if_pos rfl]
      · rw [haddr, decide_eq_false (not_isMapFd_first (by simp) hsrc), if_neg (by simp)]
        rfl

/-- A reference that comes back is undone: those to data and to kernel symbols with a type keep
    their source register, and an address its halves. -/
theorem undone_of_clearInsns_eq (h : RelocatedInsns obj prog insns)
    (hc : AsCompiled prog.IsRef prog.insns)
    (hrec : ∀ d ∈ prog.relocDesc, RecordedAtLddw obj prog d) {d : RelocDesc}
    (hd : d ∈ prog.relocDesc) (hreloc : Relocatable obj prog.insns d)
    (heq : clearInsns insns = prog.insns) : (refOf obj d).Undone := by
  obtain ⟨i, hi, hlddw, hsrc, himm⟩ := (hrec d hd).orig
  obtain ⟨hfirst, hsecond⟩ := h.getElem?_of_mem hd hi
  obtain ⟨r, hr, hfits⟩ := hreloc
  rw [refOf_eq hr] at hfirst hsecond ⊢
  by_cases hfd : ∃ fd, r = .mapFd fd
  · exact .inl hfd
  push Not at hfd
  have hk := h.getElem?_clearInsns hc hrec d.insnIdx.toNat
  rw [heq, hi, hfirst, Option.map_some, h.prevInsn_of_mem hc hrec hd, if_neg (by simp),
    if_neg (not_isMapFd_first hfd hsrc), Option.some.injEq] at hk
  cases r with
  | mapFd fd => exact absurd rfl (hfd fd)
  | mapValue | kconfig =>
    have := congrArg BpfInsn.srcReg hk
    exact absurd (hsrc.symm.trans this) (show (0 : BitVec 4) ≠ bpfPseudoMapValue by decide)
  | btfId =>
    have := congrArg BpfInsn.srcReg hk
    exact absurd (hsrc.symm.trans this) (show (0 : BitVec 4) ≠ bpfPseudoBtfId by decide)
  | call => exact absurd rfl (resolve_ne_call hr (hrec d hd).type_ne_call)
  | addr a =>
    -- Both halves of the address must be the original immediates, which are zero.
    have htype : d.type ≠ reloData := fun htype => by
      obtain ⟨fd, hfd⟩ := resolve_data hr htype
      cases hfd
    have hlo : a.setWidth 32 = 0 := (congrArg BpfInsn.imm hk).symm.trans (himm htype)
    have hlen := (hfits (by rintro ⟨⟩)).2.2 rfl
    rw [hfits.toNat_eq (by rintro ⟨⟩)] at hlen
    have hj := List.getElem?_eq_getElem hlen
    have hzero := hc.zero _ i _ ⟨d, hd, rfl⟩ hi hlddw hj
    have hk' := h.getElem?_clearInsns hc hrec (d.insnIdx.toNat + 1)
    rw [heq, hsecond, hj, hzero, Option.map_some, Option.map_some, prevInsn, hfirst,
      Option.any_some, decide_eq_false (not_isMapFd_first hfd hsrc), if_neg (by simp),
      if_neg (fun hm => absurd hm.1 (by rw [BpfInsn.IsLddw, Ref.second_code]; decide)),
      Option.some.injEq] at hk'
    have hhi : (a >>> 32).setWidth 32 = 0 := (congrArg BpfInsn.imm hk').symm
    exact .inr (congrArg _ (halves_eq_zero hlo hhi))

/-- The original instructions come back from the relocated ones exactly when every reference
    is undone. -/
theorem clearInsns_eq_iff (h : RelocatedInsns obj prog insns)
    (hc : AsCompiled prog.IsRef prog.insns)
    (hrec : ∀ d ∈ prog.relocDesc, RecordedAtLddw obj prog d)
    (hall : ∀ d ∈ prog.relocDesc, Relocatable obj prog.insns d) :
    clearInsns insns = prog.insns ↔ ∀ d ∈ prog.relocDesc, (refOf obj d).Undone := by
  refine ⟨fun heq d hd => h.undone_of_clearInsns_eq hc hrec hd (hall d hd) heq,
    fun hundone => List.ext_getElem? fun n => ?_⟩
  by_cases hn : ∀ d ∈ prog.relocDesc, n ≠ d.insnIdx.toNat ∧ n ≠ d.insnIdx.toNat + 1
  · exact h.getElem?_clearInsns_of_notMem hc hrec hn
  push Not at hn
  obtain ⟨d, hd, hn⟩ := hn
  obtain ⟨hfirst, hsecond⟩ :=
    h.getElem?_clearInsns_of_undone hc hrec hd (hall d hd) (hundone d hd)
  by_cases hn' : n = d.insnIdx.toNat
  · rw [hn', hfirst]
  · rw [hn hn', hsecond]

end RelocatedInsns

/-- The patcher restores the bytes of a relocated program exactly when every descriptor is a
    reference to a map, or one to a kernel symbol without a type at the address zero. -/
theorem clearRelocInsns_relocateData_iff {prog' : BpfProgram} (hun : Unrelocated prog.insns)
    (hrec : ∀ d ∈ prog.relocDesc, RecordedAtLddw obj prog d)
    (hnodup : (prog.relocDesc.map RelocDesc.insnIdx).Nodup)
    (h : relocateData obj prog = .ok (prog', none)) :
    clearRelocInsns (insnBytes prog'.insns) = insnBytes prog.insns ↔
      ∀ d ∈ prog.relocDesc, (refOf obj d).Undone := by
  have hc := hun.asCompiled prog.IsRef
  have hinsns := relocatedInsns_of_relocateData hc hrec hnodup h
  rw [clearRelocInsns_insnBytes, ← hinsns.clearInsns_eq_iff hc hrec (relocateData_eq_ok.1 h).1]
  refine ⟨fun heq => ?_, congrArg insnBytes⟩
  rw [← readInsns_insnBytes (clearInsns prog'.insns), heq, readInsns_insnBytes]

end

/-! ## References to maps, and one to data -/

/-- An object with two maps in the section 4. -/
def countsObj : BpfObject where
  name := cstr "prog"
  elf := ⟨1, 247, true, true, [], by decide⟩
  efile := { mapsShndx := 4 }
  maps := [⟨cstr "counts", 0, 4, 0, ⟨2, 4, 8, 1, 0⟩, .unspec, none⟩,
    ⟨cstr "totals", 1, 4, 20, ⟨1, 4, 8, 16, 0⟩, .unspec, none⟩]

/-- A program that loads the addresses of both, the second one first. -/
def countsProg : BpfProgram where
  secName := cstr "xdp"
  secIdx := 3
  secInsnOff := 0
  secInsnCnt := 5
  name := cstr "load"
  insns := [⟨lddwCode, 1, 0, 0, 0⟩, .zero, ⟨lddwCode, 2, 0, 0, 0⟩, .zero, ⟨0x95, 0, 0, 0, 0⟩]
  relocDesc := [⟨reloLd64, 0, 1, 0, false⟩, ⟨reloLd64, 2, 0, 0, false⟩]

theorem clearRelocInsns_countsProg :
    clearRelocInsns (insnBytes [⟨lddwCode, 1, 1, 0, 1⟩, .zero, ⟨lddwCode, 2, 1, 0, 0⟩, .zero,
      ⟨0x95, 0, 0, 0, 0⟩]) = insnBytes countsProg.insns :=
  (@clearRelocInsns_relocateData_iff countsObj countsProg
    { countsProg with
      insns := [⟨lddwCode, 1, 1, 0, 1⟩, .zero, ⟨lddwCode, 2, 1, 0, 0⟩, .zero, ⟨0x95, 0, 0, 0, 0⟩]
      relocDesc := [⟨reloLd64, 0, 1, 0, true⟩, ⟨reloLd64, 2, 0, 0, true⟩] }
    (unrelocated_of_forall (by decide))
    (List.forall_mem_cons.2
      ⟨⟨⟨⟨reloLd64, 0, 1, 0, false⟩, 0, ⟨none, 1, 1, 4, 20, 20⟩, ⟨0, 1⟩, rfl⟩,
        _, rfl, rfl, rfl, fun _ => rfl⟩,
      List.forall_mem_singleton.2
        ⟨⟨⟨reloLd64, 2, 0, 0, false⟩, 2, ⟨none, 1, 1, 4, 0, 20⟩, ⟨16, 2⟩, rfl⟩,
          _, rfl, rfl, rfl, fun _ => rfl⟩⟩)
    (by decide) rfl).2
      (List.forall_mem_cons.2 ⟨.inl ⟨1, rfl⟩, List.forall_mem_singleton.2 (.inl ⟨0, rfl⟩)⟩)

/-- An object with a map in the section 4 and the data section 5. -/
def dataObj : BpfObject where
  name := cstr "prog"
  elf := ⟨1, 247, true, true, [], by decide⟩
  efile := { mapsShndx := 4, dataShndx := 5 }
  maps := [⟨cstr "counts", 0, 4, 0, ⟨2, 4, 8, 1, 0⟩, .unspec, none⟩,
    ⟨cstr "prog.data", 1, 5, 0, ⟨2, 4, 8, 1, 0x400⟩, .data, none⟩]

/-- A program that loads the address of the fourth byte of the data. -/
def dataProg : BpfProgram where
  secName := cstr "xdp"
  secIdx := 3
  secInsnOff := 0
  secInsnCnt := 3
  name := cstr "load"
  insns := [⟨lddwCode, 1, 0, 0, 0⟩, .zero, ⟨0x95, 0, 0, 0, 0⟩]
  relocDesc := [⟨reloData, 0, 1, 4, false⟩]

/-- A reference to data is not undone. -/
theorem not_clearRelocInsns_relocateData :
    ¬∀ (obj : BpfObject) (prog prog' : BpfProgram), Unrelocated prog.insns →
      (∀ d ∈ prog.relocDesc, RecordedAtLddw obj prog d) →
      (prog.relocDesc.map RelocDesc.insnIdx).Nodup →
      relocateData obj prog = .ok (prog', none) →
      clearRelocInsns (insnBytes prog'.insns) = insnBytes prog.insns := by
  intro h
  have := h dataObj dataProg
    { dataProg with
      insns := [⟨lddwCode, 1, 2, 0, 1⟩, ⟨0, 0, 0, 0, 4⟩, ⟨0x95, 0, 0, 0, 0⟩]
      relocDesc := [⟨reloData, 0, 1, 4, true⟩] } (unrelocated_of_forall (by decide))
    (List.forall_mem_singleton.2
      ⟨⟨⟨reloData, 0, 1, 4, false⟩, 0, ⟨none, 1, 1, 5, 4, 4⟩, ⟨0, 1⟩, rfl⟩,
        _, rfl, rfl, rfl, fun _ => rfl⟩)
    (List.nodup_singleton _) rfl
  exact absurd this (by decide)

end BpfElfTools
