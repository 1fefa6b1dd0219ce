import BpfElfTools.Extractor.Object
import BpfElfTools.Lib.Fold
import BpfElfTools.Lib.Pairs

/-!
# Relocating a program

`relocateData` writes into the instructions of a program what its descriptors
refer to. A descriptor stands for a reference (`Ref`), which sets some fields of
the instruction it is at and of the next one.

* `relocateInsn_eq_ok`: one iteration of the loop writes a reference;
* `relocateData_eq_ok`: the loop writes them one after the other.
-/

namespace BpfElfTools.Extractor

/-! ## The loop -/

/-- The element at an `int` index. -/
def index {α : Type*} (l : List α) (i : ℤ) : Except Err α :=
  if i < 0 then .error .fault
  else
    match l[i.toNat]? with
    | none => .error .fault
    | some a => .ok a

/-- Writing to the instruction at an `int` index. -/
def modifyInsn (insns : List BpfInsn) (i : ℤ) (f : BpfInsn → BpfInsn) :
    Except Err (List BpfInsn) := do
  let insn ← index insns i
  return insns.set i.toNat (f insn)

/-- The body of the loop of `bpf_object__relocate_data`. -/
def relocateInsn (obj : BpfObject) (insns : List BpfInsn) (relo : RelocDesc) :
    Except Err (List BpfInsn) :=
  let k := relo.insnIdx.toInt
  if relo.type = reloLd64 then do
    let insns ← modifyInsn insns k ({ · with srcReg := bpfPseudoMapFd })
    let map ← index obj.maps relo.mapIdx.toInt
    modifyInsn insns k ({ · with imm := BitVec.ofInt 32 map.fd })
  else if relo.type = reloData then do
    let insns ← modifyInsn insns k ({ · with srcReg := bpfPseudoMapValue })
    let insn ← index insns k
    let insns ← modifyInsn insns (k + 1) ({ · with imm := insn.imm + relo.symOff })
    let map ← index obj.maps relo.mapIdx.toInt
    modifyInsn insns k ({ · with imm := BitVec.ofInt 32 map.fd })
  else if relo.type = reloExtern then do
    let ext ← index obj.externs relo.symOff.toInt
    match ext.val with
    | .kcfg _ _ _ dataOff _ => do
      let insns ← modifyInsn insns k ({ · with srcReg := bpfPseudoMapValue })
      let map ← index obj.maps obj.kconfigMapIdx
      let insns ← modifyInsn insns k ({ · with imm := BitVec.ofInt 32 map.fd })
      modifyInsn insns (k + 1) ({ · with imm := BitVec.ofInt 32 dataOff })
    | .ksym addr vmlinuxBtfId typeId =>
      if typeId ≠ 0 then do
        let insns ← modifyInsn insns k ({ · with srcReg := bpfPseudoBtfId })
        modifyInsn insns k ({ · with imm := vmlinuxBtfId })
      else do
        let insns ← modifyInsn insns k ({ · with imm := addr.setWidth 32 })
        modifyInsn insns (k + 1) ({ · with imm := (addr >>> 32).setWidth 32 })
  else if relo.type = reloCall then .ok insns
  else .error .einval

/-- The descriptor once it has been relocated: calls are left to another pass. -/
def RelocDesc.done (relo : RelocDesc) : RelocDesc :=
  if relo.type = reloCall then relo else { relo with processed := true }

/-- The loop of `bpf_object__relocate_data`, for the descriptors `relos` left: the
    instructions, the descriptors with those relocated marked, and the error that
    stopped the loop, if there was one. -/
def relocateLoop (obj : BpfObject) : (insns : List BpfInsn) → (relos : List RelocDesc) →
    Except Err (List BpfInsn × List RelocDesc × Option Err)
  | insns, [] => .ok (insns, [], none)
  | insns, relo :: relos =>
    match relocateInsn obj insns relo with
    | .error .fault => .error .fault
    | .error err => .ok (insns, relo :: relos, some err)
    | .ok insns => do
      let (insns, relos, err) ← relocateLoop obj insns relos
      return (insns, relo.done :: relos, err)

/-- `bpf_object__relocate_data`: the program, and the error returned. -/
def relocateData (obj : BpfObject) (prog : BpfProgram) :
    Except Err (BpfProgram × Option Err) := do
  let (insns, relos, err) ← relocateLoop obj prog.insns prog.relocDesc
  return ({ prog with insns := insns, relocDesc := relos }, err)

/-! ## References -/

/-- What a descriptor refers to, with the values written for it. -/
inductive Ref
  /-- A map, by its file descriptor. -/
  | mapFd (fd : BitVec 32)
  /-- A place in a data section, by the map of the section. -/
  | mapValue (fd off : BitVec 32)
  /-- A kconfig variable, by its place in the kconfig map. -/
  | kconfig (fd off : BitVec 32)
  /-- A typed kernel symbol. -/
  | btfId (id : BitVec 32)
  /-- A kernel symbol without a type. -/
  | addr (addr : BitVec 64)
  /-- A function, which is not relocated. -/
  | call
  deriving DecidableEq, Repr

namespace Ref

/-- The instruction a reference is at, once it is written. -/
def first : Ref → BpfInsn → BpfInsn
  | mapFd fd, i => { i with srcReg := bpfPseudoMapFd, imm := fd }
  | mapValue fd _, i => { i with srcReg := bpfPseudoMapValue, imm := fd }
  | kconfig fd _, i => { i with srcReg := bpfPseudoMapValue, imm := fd }
  | btfId id, i => { i with srcReg := bpfPseudoBtfId, imm := id }
  | addr a, i => { i with imm := a.setWidth 32 }
  | call, i => i

/-- The instruction `j` after the one a reference is at, which is `i`, once it is written. -/
def second : Ref → (i j : BpfInsn) → BpfInsn
  | mapValue _ off, i, j => { j with imm := i.imm + off }
  | kconfig _ off, _, j => { j with imm := off }
  | addr a, _, j => { j with imm := (a >>> 32).setWidth 32 }
  | _, _, j => j

/-- The reference takes two instructions. -/
def wide : Ref → Bool
  | mapValue .. | kconfig .. | addr _ => true
  | _ => false

/-- What a reference writes to the instruction it is at and to the next one. -/
def toWrite (r : Ref) : Pairs.PairWrite BpfInsn := ⟨r.first, r.second⟩

/-- Writing a reference at the index `k`. -/
def write (r : Ref) (k : ℕ) (insns : List BpfInsn) : List BpfInsn := r.toWrite.write k insns

@[simp] theorem first_code (r : Ref) (i : BpfInsn) : (r.first i).code = i.code := by cases r <;> rfl

@[simp] theorem second_code (r : Ref) (i j : BpfInsn) : (r.second i j).code = j.code := by
  cases r <;> rfl

theorem write_call (k : ℕ) (insns : List BpfInsn) : call.write k insns = insns :=
  Pairs.PairWrite.write_of_id (fun _ => rfl) (fun _ _ => rfl) k insns

end Ref

/-- What a descriptor refers to, if it is well formed. -/
def resolve (obj : BpfObject) (d : RelocDesc) : Except Err Ref :=
  if d.type = reloLd64 then do
    let map ← index obj.maps d.mapIdx.toInt
    return .mapFd (BitVec.ofInt 32 map.fd)
  else if d.type = reloData then do
    let map ← index obj.maps d.mapIdx.toInt
    return .mapValue (BitVec.ofInt 32 map.fd) d.symOff
  else if d.type = reloExtern then do
    let ext ← index obj.externs d.symOff.toInt
    match ext.val with
    | .kcfg _ _ _ dataOff _ => do
      let map ← index obj.maps obj.kconfigMapIdx
      return .kconfig (BitVec.ofInt 32 map.fd) (BitVec.ofInt 32 dataOff)
    | .ksym addr vmlinuxBtfId typeId =>
      return if typeId ≠ 0 then .btfId vmlinuxBtfId else .addr addr
  else if d.type = reloCall then return .call
  else .error .einval

/-! ## What an iteration writes -/

theorem index_eq_ok {α : Type*} {l : List α} {i : ℤ} {a : α} :
    index l i = .ok a ↔ 0 ≤ i ∧ l[i.toNat]? = some a := by
  rw [index]
  split
  · simp
    omega
  · split <;> simp_all

/-- An index is out of bounds, or one of an element. -/
theorem index_cases {α : Type*} (l : List α) (i : ℤ) :
    (∃ a, index l i = .ok a) ∨ index l i = .error .fault := by
  rw [index]
  split
  · exact .inr rfl
  · split
    · exact .inr rfl
    · exact .inl ⟨_, rfl⟩

theorem index_natCast {α : Type*} (l : List α) (k : ℕ) :
    index l k = match l[k]? with
      | some a => .ok a
      | none => .error .fault := by
  rw [index, if_neg (by omega), Int.toNat_natCast]
  cases l[k]? <;> rfl

theorem modifyInsn_natCast (insns : List BpfInsn) (k : ℕ) (f : BpfInsn → BpfInsn) :
    modifyInsn insns k f = match insns[k]? with
      | some i => .ok (insns.set k (f i))
      | none => .error .fault := by
  rw [modifyInsn, index_natCast, Int.toNat_natCast]
  cases insns[k]? <;> rfl

/-- With two instructions from the index on, an iteration writes what the descriptor refers to. -/
theorem relocateInsn_of_two {obj : BpfObject} {insns : List BpfInsn} {d : RelocDesc} {n : ℕ}
    {i j : BpfInsn} (hk : d.insnIdx.toInt = n) (hi : insns[n]? = some i)
    (hj : insns[n + 1]? = some j) :
    relocateInsn obj insns d = resolve obj d >>= fun r => .ok (r.write n insns) := by
  have hn : n < insns.length := (List.getElem?_eq_some_iff.1 hi).1
  have hself (a) : (insns.set n a)[n]? = some a := List.getElem?_set_self hn
  have hnext (a) : (insns.set n a)[n + 1]? = some j := by
    rw [List.getElem?_set_ne (by omega), hj]
  have hself' (a b) : ((insns.set n a).set (n + 1) b)[n]? = some a := by
    rw [List.getElem?_set_ne (by omega), hself]
  have hcomm (a b c) : ((insns.set n a).set (n + 1) b).set n c = (insns.set n c).set (n + 1) b := by
    rw [List.set_comm _ _ (by omega), List.set_set]
  have hsame (a) : (insns.set n a).set (n + 1) j = insns.set n a := Pairs.set_self (hnext a)
  have hsucc : (n : ℤ) + 1 = (n + 1 : ℕ) := rfl
  have hwrite (r : Ref) :
      r.write n insns = (insns.set n (r.first i)).set (n + 1) (r.second i j) := by
    rw [Ref.write, Pairs.PairWrite.write, hi, hj]
    rfl
  have hcall : (insns.set n i).set (n + 1) j = insns := (hsame i).trans (Pairs.set_self hi)
  rw [relocateInsn, resolve, hk]
  simp only [hwrite]
  split
  · rcases index_cases obj.maps d.mapIdx.toInt with ⟨map, hmap⟩ | hmap <;>
      simp only [modifyInsn_natCast, hi, hself, hmap, Fold.ok_bind, Fold.error_bind, List.set_set,
        Ref.first, Ref.second, hsame, pure, Except.pure]
  split
  · rcases index_cases obj.maps d.mapIdx.toInt with ⟨map, hmap⟩ | hmap <;>
      simp only [modifyInsn_natCast, index_natCast, hsucc, hi, hself, hself', hnext, hmap,
        Fold.ok_bind, Fold.error_bind, hcomm, Ref.first, Ref.second, pure, Except.pure]
  split
  · rcases index_cases obj.externs d.symOff.toInt with ⟨ext, hext⟩ | hext
    · simp only [hext, Fold.ok_bind]
      split
      · rcases index_cases obj.maps obj.kconfigMapIdx with ⟨map, hmap⟩ | hmap <;>
          simp only [modifyInsn_natCast, hsucc, hi, hself, hnext, hmap, Fold.ok_bind,
            Fold.error_bind, List.set_set, Ref.first, Ref.second, pure, Except.pure]
      · split <;>
          simp only [modifyInsn_natCast, hsucc, hi, hself, hnext, Fold.ok_bind, List.set_set,
            Ref.first, Ref.second, hsame, pure, Except.pure]
    · simp only [hext, Fold.error_bind]
  split
  · simp only [Fold.ok_bind, Ref.first, Ref.second, hcall, pure, Except.pure]
  · rfl

/-- At the last instruction, an iteration writes only a reference that takes one. -/
theorem relocateInsn_of_last {obj : BpfObject} {insns : List BpfInsn} {d : RelocDesc} {n : ℕ}
    {i : BpfInsn} (hk : d.insnIdx.toInt = n) (hi : insns[n]? = some i)
    (hj : insns[n + 1]? = none) :
    relocateInsn obj insns d = resolve obj d >>= fun r =>
      if r.wide then .error .fault else .ok (r.write n insns) := by
  have hn : n < insns.length := (List.getElem?_eq_some_iff.1 hi).1
  have hself (a) : (insns.set n a)[n]? = some a := List.getElem?_set_self hn
  have hnext (a) : (insns.set n a)[n + 1]? = none := by
    rw [List.getElem?_set_ne (by omega), hj]
  have hsucc : (n : ℤ) + 1 = (n + 1 : ℕ) := rfl
  have hwrite (r : Ref) : r.write n insns = insns.set n (r.first i) := by
    rw [Ref.write, Pairs.PairWrite.write, hi, hj]
    rfl
  have hcall : insns.set n i = insns := Pairs.set_self hi
  rw [relocateInsn, resolve, hk]
  simp only [hwrite]
  split
  · rcases index_cases obj.maps d.mapIdx.toInt with ⟨map, hmap⟩ | hmap <;>
      simp only [modifyInsn_natCast, hi, hself, hmap, Fold.ok_bind, Fold.error_bind, List.set_set,
        Ref.first, Ref.wide, Bool.false_eq_true, if_false, pure, Except.pure]
  split
  · rcases index_cases obj.maps d.mapIdx.toInt with ⟨map, hmap⟩ | hmap <;>
      simp only [modifyInsn_natCast, index_natCast, hsucc, hi, hself, hnext, hmap, Fold.ok_bind,
        Fold.error_bind, Ref.wide, if_true, pure, Except.pure]
  split
  · rcases index_cases obj.externs d.symOff.toInt with ⟨ext, hext⟩ | hext
    · simp only [hext, Fold.ok_bind]
      split
      · rcases index_cases obj.maps obj.kconfigMapIdx with ⟨map, hmap⟩ | hmap <;>
          simp only [modifyInsn_natCast, hsucc, hi, hself, hnext, hmap, Fold.ok_bind,
            Fold.error_bind, List.set_set, Ref.wide, if_true, pure, Except.pure]
      · split <;>
          simp only [modifyInsn_natCast, hsucc, hi, hself, hnext, Fold.ok_bind, List.set_set,
            Ref.first, Ref.wide, Bool.false_eq_true, if_true, if_false, pure, Except.pure]
    · simp only [hext, Fold.error_bind]
  split
  · simp only [Fold.ok_bind, Ref.first, Ref.wide, hcall, Bool.false_eq_true, if_false, pure,
      Except.pure]
  · rfl

/-- Where there is no instruction, an iteration writes nothing. -/
theorem relocateInsn_of_out {obj : BpfObject} {insns : List BpfInsn} {d : RelocDesc}
    (hk : d.insnIdx.toInt < 0 ∨ insns.length ≤ d.insnIdx.toInt.toNat) :
    relocateInsn obj insns d = resolve obj d >>= fun r =>
      if r = .call then .ok insns else .error .fault := by
  have hindex : index insns d.insnIdx.toInt = .error .fault := by
    rw [index]
    split
    · rfl
    · rw [List.getElem?_eq_none (by omega)]
  have hmodify (f) : modifyInsn insns d.insnIdx.toInt f = .error .fault := by
    rw [modifyInsn, hindex]
    rfl
  rw [relocateInsn, resolve]
  simp only [hmodify]
  split
  · rcases index_cases obj.maps d.mapIdx.toInt with ⟨map, hmap⟩ | hmap <;>
      simp [hmap, Fold.ok_bind, Fold.error_bind]
  split
  · rcases index_cases obj.maps d.mapIdx.toInt with ⟨map, hmap⟩ | hmap <;>
      simp [hmap, Fold.ok_bind, Fold.error_bind]
  split
  · rcases index_cases obj.externs d.symOff.toInt with ⟨ext, hext⟩ | hext
    · simp only [hext, Fold.ok_bind]
      split
      · rcases index_cases obj.maps obj.kconfigMapIdx with ⟨map, hmap⟩ | hmap <;>
          simp [hmap, Fold.ok_bind, Fold.error_bind]
      · split <;> simp [Fold.error_bind]
    · simp only [hext, Fold.error_bind]
  split
  · simp
  · rfl

/-- A reference fits at the index, an `int`, of the instructions it takes. -/
def Ref.Fits (r : Ref) (k : ℤ) (insns : List BpfInsn) : Prop :=
  r ≠ .call → 0 ≤ k ∧ k.toNat < insns.length ∧ (r.wide = true → k.toNat + 1 < insns.length)

/-- An iteration writes what the descriptor refers to, if it fits. -/
theorem relocateInsn_eq_ok {obj : BpfObject} {insns insns' : List BpfInsn} {d : RelocDesc} :
    relocateInsn obj insns d = .ok insns' ↔
      ∃ r, resolve obj d = .ok r ∧ r.Fits d.insnIdx.toInt insns ∧
        insns' = r.write d.insnIdx.toInt.toNat insns := by
  by_cases hout : d.insnIdx.toInt < 0 ∨ insns.length ≤ d.insnIdx.toInt.toNat
  · rw [relocateInsn_of_out hout, Fold.bind_eq_ok]
    refine exists_congr fun r => and_congr_right fun _ => ?_
    by_cases hr : r = .call
    · subst hr
      rw [if_pos rfl]
      have hwrite : Ref.call.write d.insnIdx.toInt.toNat insns = insns := Ref.write_call _ _
      exact ⟨fun h => ⟨fun h => absurd rfl h, (Except.ok.inj h).symm.trans hwrite.symm⟩,
        fun h => congrArg Except.ok (h.2.trans hwrite).symm⟩
    · rw [if_neg hr]
      refine ⟨fun h => (nomatch h), fun ⟨hfits, _⟩ => ?_⟩
      have := hfits hr
      omega
  · obtain ⟨n, hn⟩ := Int.eq_ofNat_of_zero_le (show 0 ≤ d.insnIdx.toInt by omega)
    have hlt : n < insns.length := by omega
    have hi := List.getElem?_eq_getElem hlt
    cases hj : insns[n + 1]? with
    | none =>
      have hlen := List.getElem?_eq_none_iff.1 hj
      rw [relocateInsn_of_last hn hi hj, Fold.bind_eq_ok]
      refine exists_congr fun r => and_congr_right fun _ => ?_
      rw [hn, Int.toNat_natCast]
      split
      · rename_i hwide
        refine ⟨fun h => (nomatch h), fun ⟨hfits, _⟩ => ?_⟩
        have := (hfits (by rintro rfl; cases hwide)).2.2 hwide
        rw [Int.toNat_natCast] at this
        omega
      · rename_i hwide
        have hfits : r.Fits n insns := fun _ => ⟨by omega, by omega, fun h => absurd h hwide⟩
        simp [hfits, eq_comm]
    | some j =>
      have hlen : n + 1 < insns.length := (List.getElem?_eq_some_iff.1 hj).1
      rw [relocateInsn_of_two hn hi hj, Fold.bind_eq_ok]
      refine exists_congr fun r => and_congr_right fun _ => ?_
      rw [hn, Int.toNat_natCast]
      have hfits : r.Fits n insns := fun _ => ⟨by omega, by omega, fun _ => by omega⟩
      simp [hfits, eq_comm]

/-! ## What the loop writes -/

/-- What a descriptor refers to; a malformed one stands for nothing. -/
def refOf (obj : BpfObject) (d : RelocDesc) : Ref :=
  match resolve obj d with
  | .ok r => r
  | .error _ => .call

/-- The descriptor is well formed, and what it refers to fits in the instructions. -/
def Relocatable (obj : BpfObject) (insns : List BpfInsn) (d : RelocDesc) : Prop :=
  ∃ r, resolve obj d = .ok r ∧ r.Fits d.insnIdx.toInt insns

theorem refOf_eq {obj : BpfObject} {d : RelocDesc} {r : Ref} (h : resolve obj d = .ok r) :
    refOf obj d = r := by
  rw [refOf, h]

/-- Only the descriptor of a call stands for one. -/
theorem resolve_ne_call {obj : BpfObject} {d : RelocDesc} {r : Ref}
    (h : resolve obj d = .ok r) (htype : d.type ≠ reloCall) : r ≠ .call := by
  rintro rfl
  rw [resolve] at h
  split at h
  · obtain ⟨_, _, h⟩ := Fold.bind_eq_ok.1 h
    cases h
  split at h
  · obtain ⟨_, _, h⟩ := Fold.bind_eq_ok.1 h
    cases h
  split at h
  · obtain ⟨_, _, h⟩ := Fold.bind_eq_ok.1 h
    split at h
    · obtain ⟨_, _, h⟩ := Fold.bind_eq_ok.1 h
      cases h
    · split at h <;> cases h
  cases h

/-- A reference to data stands for a place in a map. -/
theorem resolve_data {obj : BpfObject} {d : RelocDesc} {r : Ref} (h : resolve obj d = .ok r)
    (htype : d.type = reloData) : ∃ fd, r = .mapValue fd d.symOff := by
  rw [resolve, if_neg (by rw [htype]; decide), if_pos htype] at h
  obtain ⟨map, _, h⟩ := Fold.bind_eq_ok.1 h
  exact ⟨_, (Except.ok.inj h).symm⟩

/-- The index of a descriptor, an `int`, is the number it was recorded as. -/
theorem Ref.Fits.toNat_eq {r : Ref} {k : BitVec 32} {insns : List BpfInsn}
    (h : r.Fits k.toInt insns) (hr : r ≠ .call) : k.toInt.toNat = k.toNat := by
  have hnn := (h hr).1
  have := BitVec.toInt_eq_toNat_cond k
  split at this <;> omega

/-- The writes of the descriptors, each at its index. -/
def refWrites (obj : BpfObject) (relos : List RelocDesc) : List (ℕ × Pairs.PairWrite BpfInsn) :=
  relos.map fun d => (d.insnIdx.toInt.toNat, (refOf obj d).toWrite)

/-- The loop goes to its end when all the descriptors can be relocated, and writes what they
    refer to one after the other. -/
theorem relocateLoop_eq_ok {obj : BpfObject} {insns insns' : List BpfInsn}
    {relos relos' : List RelocDesc} :
    relocateLoop obj insns relos = .ok (insns', relos', none) ↔
      (∀ d ∈ relos, Relocatable obj insns d) ∧
        insns' = Pairs.writeAll (refWrites obj relos) insns ∧
        relos' = relos.map RelocDesc.done := by
  induction relos generalizing insns relos' with
  | nil =>
    simp only [relocateLoop, refWrites, Pairs.writeAll, List.map_nil, List.foldl_nil]
    constructor
    · rintro ⟨⟩
      exact ⟨by simp, rfl, rfl⟩
    · rintro ⟨-, rfl, rfl⟩
      rfl
  | cons d relos ih =>
    rw [relocateLoop]
    have head_ok (h : Relocatable obj insns d) : relocateInsn obj insns d =
        .ok ((refOf obj d).write d.insnIdx.toInt.toNat insns) := by
      obtain ⟨r, hr, hfits⟩ := h
      rw [refOf_eq hr]
      exact relocateInsn_eq_ok.2 ⟨r, hr, hfits, rfl⟩
    have fits_write {k : ℕ} {w : Pairs.PairWrite BpfInsn} (e : RelocDesc) :
        Relocatable obj (w.write k insns) e ↔ Relocatable obj insns e := by
      simp only [Relocatable, Ref.Fits, Pairs.PairWrite.length_write]
    constructor
    · intro h
      split at h
      · cases h
      · cases h
      rename_i insns₁ hd
      obtain ⟨⟨insns₂, relos₂, err⟩, hloop, h⟩ := Fold.bind_eq_ok.1 h
      cases h
      obtain ⟨r, hr, hfits, rfl⟩ := relocateInsn_eq_ok.1 hd
      obtain ⟨hrelos, rfl, rfl⟩ := ih.1 hloop
      refine ⟨fun e he => ?_, ?_, rfl⟩
      · rcases List.mem_cons.1 he with rfl | he
        · exact ⟨r, hr, hfits⟩
        · exact (fits_write e).1 (hrelos e he)
      · rw [← refOf_eq hr]
        rfl
    · rintro ⟨hall, rfl, rfl⟩
      rw [head_ok (hall d List.mem_cons_self)]
      dsimp only
      have hloop : relocateLoop obj ((refOf obj d).write d.insnIdx.toInt.toNat insns) relos =
          .ok (_, relos.map RelocDesc.done, none) := ih.2
        ⟨fun e he => (fits_write e).2 (hall e (List.mem_cons_of_mem _ he)), rfl, rfl⟩
      rw [hloop]
      rfl

/-- What relocating a program makes of it. -/
theorem relocateData_eq_ok {obj : BpfObject} {prog prog' : BpfProgram} :
    relocateData obj prog = .ok (prog', none) ↔
      (∀ d ∈ prog.relocDesc, Relocatable obj prog.insns d) ∧
        prog' = { prog with
          insns := Pairs.writeAll (refWrites obj prog.relocDesc) prog.insns
          relocDesc := prog.relocDesc.map RelocDesc.done } := by
  rw [relocateData, Fold.bind_eq_ok]
  constructor
  · rintro ⟨⟨insns, relos, err⟩, hloop, h⟩
    cases h
    obtain ⟨hall, rfl, rfl⟩ := relocateLoop_eq_ok.1 hloop
    exact ⟨hall, rfl⟩
  · rintro ⟨hall, rfl⟩
    exact ⟨_, relocateLoop_eq_ok.2 ⟨hall, rfl, rfl⟩, rfl⟩

end BpfElfTools.Extractor
