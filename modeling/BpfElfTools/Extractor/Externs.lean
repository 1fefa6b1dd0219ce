import BpfElfTools.Extractor.Object
import BpfElfTools.Lib.Fold

/-!
# Externs

The undefined symbols of an object (`BpfObject.collectExterns`): kconfig
variables, which get an offset in the kconfig map, and kernel symbols.
-/

namespace BpfElfTools.Extractor

/-- `sym_is_extern`. -/
def symIsExtern (sym : GElfSym) : Bool :=
  sym.shndx = shnUndef ∧ (sym.bind = stbGlobal ∨ sym.bind = stbWeak) ∧ sym.type = sttNotype

/-- `cmp_externs`. -/
def cmpExterns (a b : ExternDesc) : ℤ :=
  match a.val, b.val with
  | .kcfg .., .ksym .. => -1
  | .ksym .., .kcfg .. => 1
  | .kcfg _ sz align _ _, .kcfg _ sz' align' _ _ =>
    if align ≠ align' then if align' < align then -1 else 1
    else if sz ≠ sz' then if sz < sz' then -1 else 1
    else strcmp a.name b.name
  | .ksym .., .ksym .. => strcmp a.name b.name

/-- The description of an extern by the first loop of `bpf_object__collect_externs`: the
    symbol number `symIdx`, which is `sym`, named `extName`. -/
def describeExtern (btf : Option Btf) (symIdx : ℕ) (sym : GElfSym) (extName : Bytes) :
    Except Err ExternDesc :=
  match btf with
  | none => .error .esrch
  | some btf => do
    let btfId ← btf.findExternBtfId extName
    let secBtfId ← btf.findExternSecBtfId btfId
    let ext (val : ExternVal) : ExternDesc :=
      ⟨symIdx, btfId, secBtfId, btf.nameOf btfId, sym.bind = stbWeak, val⟩
    if btf.nameOf secBtfId = cstr ".kconfig" then
      let sz := btf.resolveSize btfId
      if sz < 0 then .error .einval
      else if sz = 0 then return ext (.kcfg .unknown 0 0 0 false)
      else if btf.alignOf btfId ≤ 0 then .error .einval
      else
        match btf.findKcfgType btfId with
        | (.unknown, _) => .error .enotsup
        | (type, isSigned) => return ext (.kcfg type sz (btf.alignOf btfId) 0 isSigned)
    else if btf.nameOf secBtfId = cstr ".ksyms" then
      return ext (.ksym 0 0 (btf.ksymTypeId btfId))
    else .error .enotsup

/-- The extern is a kconfig variable without bytes. -/
def ExternDesc.isEmpty (ext : ExternDesc) : Bool :=
  match ext.val with
  | .kcfg _ sz .. => sz = 0
  | .ksym .. => false

/-- The first loop of `bpf_object__collect_externs`, over the symbols numbered `todo`. The
    function returns with success in the middle of it at a variable without bytes; the
    result says whether the loop has gone to its end. -/
def collectExternsLoop (btf : Option Btf) (symbols : ElfData) :
    (todo : List ℕ) → (externs : List ExternDesc) → Except Err (List ExternDesc × Bool)
  | [], externs => .ok (externs, true)
  | i :: todo, externs =>
    match symbols.syms[i]? with
    | none => .error .format
    | some sym =>
      match sym.name with
      | none => collectExternsLoop btf symbols todo externs
      | some extName =>
        if symIsExtern sym ∧ extName ≠ [] then
          match describeExtern btf i sym extName with
          | .error err => .error err
          | .ok ext =>
            if ext.isEmpty then .ok (externs ++ [ext], false)
            else collectExternsLoop btf symbols todo (externs ++ [ext])
        else collectExternsLoop btf symbols todo externs

/-- The offsets of the kconfig variables in their map, from `off` on. The offsets are
    `int`s, which must not overflow. -/
def assignDataOffs : (off : ℤ) → List ExternDesc → Except Err (List ExternDesc)
  | _, [] => .ok []
  | off, ext :: externs =>
    match ext.val with
    | .ksym .. => do return ext :: (← assignDataOffs off externs)
    | .kcfg type sz align _ isSigned =>
      let dataOff := (off + (align - 1)) / align * align
      if 2 ^ 31 ≤ off + (align - 1) ∨ 2 ^ 31 ≤ dataOff + sz then .error .fault
      else do
        return { ext with val := .kcfg type sz align dataOff isSigned } ::
          (← assignDataOffs (dataOff + sz) externs)

/-- All the variables of the section are among the externs (`find_extern_by_name`). -/
def checkDatasec (btf : Option Btf) (sec : Option ExternDesc) (externs : List ExternDesc) :
    Except Err Unit :=
  match btf, sec with
  | some btf, some ext =>
    if (btf.datasecVars ext.secBtfId).all fun name => externs.any (·.name = name) then .ok ()
    else .error .esrch
  | _, _ => .ok ()

/-- `bpf_object__collect_externs`. -/
def BpfObject.collectExterns (obj : BpfObject) : Except Err BpfObject :=
  match obj.efile.symbols with
  | none => .ok obj
  | some symbols =>
    match obj.elf.scns[obj.efile.symbolsShndx.toNat]? with
    | none => .error .format
    | some scn =>
      if scn.shdr.entsize = 0 then .error .fault
      else do
        let n := toInt (scn.shdr.size / scn.shdr.entsize)
        let (externs, finished) ← collectExternsLoop obj.btf symbols (List.range n.toNat) []
        if !finished then return { obj with externs := externs }
        let sorted := qsort cmpExterns externs
        -- The sections are those of the last extern of each type, in the symbol table.
        checkDatasec obj.btf (externs.filter (!·.isKcfg)).getLast? sorted
        let externs' ← assignDataOffs 0 sorted
        checkDatasec obj.btf (externs.filter (·.isKcfg)).getLast? externs'
        return { obj with externs := externs' }

theorem length_collectExternsLoop {btf : Option Btf} {symbols : ElfData} {todo : List ℕ}
    {externs externs' : List ExternDesc} {finished : Bool}
    (h : collectExternsLoop btf symbols todo externs = .ok (externs', finished)) :
    externs'.length ≤ externs.length + todo.length := by
  induction todo generalizing externs with
  | nil =>
    cases h
    exact Nat.le_refl _
  | cons i todo ih =>
    rw [collectExternsLoop] at h
    have hadd (ext : ExternDesc) : (externs ++ [ext]).length = externs.length + 1 :=
      List.length_append
    split at h
    · cases h
    split at h
    · exact (ih h).trans (by rw [List.length_cons]; omega)
    split at h
    · split at h
      · cases h
      rename_i ext _
      split at h
      · cases h
        rw [hadd, List.length_cons]
        omega
      · exact (ih h).trans (by rw [hadd, List.length_cons]; omega)
    · exact (ih h).trans (by rw [List.length_cons]; omega)

theorem length_assignDataOffs {off : ℤ} {externs externs' : List ExternDesc}
    (h : assignDataOffs off externs = .ok externs') : externs'.length = externs.length := by
  induction externs generalizing off externs' with
  | nil =>
    cases h
    rfl
  | cons ext externs ih =>
    rw [assignDataOffs] at h
    split at h
    · obtain ⟨rest, hrest, h⟩ := Fold.bind_eq_ok.1 h
      cases h
      rw [List.length_cons, List.length_cons, ih hrest]
    · dsimp only at h
      split at h
      · cases h
      obtain ⟨rest, hrest, h⟩ := Fold.bind_eq_ok.1 h
      cases h
      rw [List.length_cons, List.length_cons, ih hrest]

/-- Nothing but the externs is set, of which there are as many as an `int` can count. -/
theorem BpfObject.collectExterns_ok {obj obj' : BpfObject} (h : obj.collectExterns = .ok obj') :
    ∃ externs, obj' = { obj with externs := externs } ∧
      (externs = obj.externs ∨ externs.length < 2 ^ 31) := by
  rw [BpfObject.collectExterns] at h
  split at h
  · cases h
    exact ⟨obj.externs, rfl, .inl rfl⟩
  split at h
  · cases h
  split at h
  · cases h
  rename_i symbols _ scn _ _
  obtain ⟨⟨externs, finished⟩, hloop, h⟩ := Fold.bind_eq_ok.1 h
  have hlen : externs.length < 2 ^ 31 := by
    have hle := length_collectExternsLoop hloop
    have hint := @BitVec.toInt_lt 32 (BitVec.ofNat 32 (scn.shdr.size / scn.shdr.entsize))
    rw [List.length_nil, List.length_range] at hle
    simp only [toInt] at hle
    omega
  dsimp only at h
  split at h
  · cases h
    exact ⟨externs, rfl, .inr hlen⟩
  obtain ⟨-, -, h⟩ := Fold.bind_eq_ok.1 h
  obtain ⟨externs', hoffs, h⟩ := Fold.bind_eq_ok.1 h
  obtain ⟨-, -, h⟩ := Fold.bind_eq_ok.1 h
  cases h
  rw [← Sorting.length_sort cmpExterns, ← length_assignDataOffs hoffs] at hlen
  exact ⟨externs', rfl, .inr hlen⟩

end BpfElfTools.Extractor
