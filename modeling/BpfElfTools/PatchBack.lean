import BpfElfTools.Extractor.Referents
import BpfElfTools.Extractor.Files
import BpfElfTools.OldExtractor.Main
import BpfElfTools.Patcher.Repeat
import BpfElfTools.RoundTrip

/-!
# Patching back what was extracted

The instructions that an extractor has written to a file are patched back into
the object that they come from, by runs of the patcher that remove the
relocations. The extractors read the object through libelf, and the patcher
through pyelftools: both show sections of the same file (`ShowsFile`).

* `clearInsns_of_mapsLoaded`: removing relocations from instructions in which
  references to maps have been filled in;
* `mainElf_patchBack`: what the old extractor has written gives the object back;
* `extract_patchBack_iff`: what the extractor has written does so exactly if all
  references are to maps, or write nothing.
-/

namespace BpfElfTools

open Patcher Splice

/-! ## Instructions -/

/-- The bytes of the instructions of a buffer that holds nothing else. -/
theorem insnBytes_readInsns {b : Bytes} (h : bpfInsnSz ∣ b.length) :
    insnBytes (readInsns b) = b := by
  induction hn : b.length using Nat.strongRecOn generalizing b with
  | ind n ih =>
    rcases readInsns_cases b with ⟨hlt, hnil⟩ | ⟨i, b', rfl⟩
    · have hzero := Nat.eq_zero_of_dvd_of_lt h hlt
      rw [hnil, List.length_eq_zero_iff.1 hzero]
      rfl
    · rw [List.length_append, BpfInsn.length_bytes] at hn h
      have hb' : bpfInsnSz ∣ b'.length := (Nat.dvd_add_right (dvd_refl 8)).1 h
      rw [readInsns_bytes_append, insnBytes_cons, ih b'.length (by omega) hb' rfl]

/-- The instructions `insns'` are `insns` with maps filled in, at some of the places `refs`, where
    there is a `lddw` as the compiler emits it for a reference: without a source register and an
    immediate. -/
def MapsLoaded (refs : ℕ → Prop) (insns insns' : List BpfInsn) : Prop :=
  ∀ n : ℕ, insns'[n]? = insns[n]? ∨ refs n ∧ ∃ i fd, insns[n]? = some i ∧ i.IsLddw ∧
    i.srcReg = 0 ∧ i.imm = 0 ∧ insns'[n]? = some { i with srcReg := bpfPseudoMapFd, imm := fd }

section

variable {refs : ℕ → Prop} {insns insns' : List BpfInsn} (h : MapsLoaded refs insns insns')
  (hc : AsCompiled refs insns)

include h hc

/-- The references to maps are `lddw` in both, at the places of references. -/
theorem MapsLoaded.isLddw {n : ℕ} {i' : BpfInsn} (hi' : insns'[n]? = some i') (hmap : IsMapFd i') :
    refs n ∧ ∃ i, insns[n]? = some i ∧ i.IsLddw ∧ clearedInsn i' = i := by
  rcases h n with heq | ⟨href, i, fd, hi, hlddw, hsrc, himm, hload⟩
  · rw [hi'] at heq
    exact absurd hmap.2 (hc.src i' (List.mem_of_getElem? heq.symm) hmap.1)
  · obtain rfl := Option.some.inj (hi'.symm.trans hload)
    refine ⟨href, i, hi, hlddw, ?_⟩
    rw [clearedInsn, ← hsrc, ← himm]

/-- Removing the relocations gives the original instructions. -/
theorem clearInsns_of_mapsLoaded : clearInsns insns' = insns := by
  -- The second slot of a reference is no reference, so that each is cleared on its own.
  have hapart : ∀ k i j, insns'[k]? = some i → insns'[k + 1]? = some j → IsMapFd i →
      ¬IsMapFd j := by
    intro k i j hi hj hmi hmj
    obtain ⟨href, i₀, hi₀, hlddw, -⟩ := h.isLddw hc hi hmi
    obtain ⟨-, j₀, hj₀, hlddw', -⟩ := h.isLddw hc hj hmj
    exact hc.not_isLddw href hi₀ hlddw hj₀ hlddw'
  apply List.ext_getElem?
  intro n
  rw [Patcher.getElem?_clearInsns hapart]
  by_cases hprev : (prevInsn insns' n).any (decide <| IsMapFd ·) = true
  · -- The second slot of a reference to a map, which was zero before.
    obtain ⟨k, rfl⟩ : ∃ k, n = k + 1 := by
      cases n with
      | zero => cases hprev
      | succ k => exact ⟨k, rfl⟩
    obtain ⟨i', hi', hmap⟩ := (Option.any_eq_true _ _).1 hprev
    obtain ⟨href, i, hi, hlddw, -⟩ := h.isLddw hc hi' (of_decide_eq_true hmap)
    simp only [hprev, if_true]
    rcases h (k + 1) with heq | ⟨-, j, fd, hj, hlddw', -⟩
    · rw [heq]
      cases hj : insns[k + 1]? with
      | none => rfl
      | some j => exact congrArg some (hc.zero k i j href hi hlddw hj).symm
    · exact absurd hlddw' (hc.not_isLddw href hi hlddw hj)
  · simp only [hprev, Bool.false_eq_true, if_false]
    cases hi' : insns'[n]? with
    | none =>
      rcases h n with heq | ⟨-, i, fd, -, -, -, -, hload⟩
      · exact hi'.symm.trans heq
      · rw [hi'] at hload
        cases hload
    | some i' =>
      rw [Option.map_some]
      by_cases hmap : IsMapFd i'
      · obtain ⟨-, i, hi, -, hcleared⟩ := h.isLddw hc hi' hmap
        rw [if_pos hmap, hcleared, hi]
      · rw [if_neg hmap]
        rcases h n with heq | ⟨-, i, fd, hi, hlddw, -, -, hload⟩
        · exact hi'.symm.trans heq
        · obtain rfl := Option.some.inj (hi'.symm.trans hload)
          exact absurd ⟨hlddw, rfl⟩ hmap

end

/-! ## Sections -/

/-- libelf shows the data of the sections of the file `f` as the bytes of the file have them. -/
structure ShowsFile (elf : Elf) (f : Bytes) : Prop where
  length : elf.scns.length ≤ Elf64.shnum f
  data : ∀ i data, elf.secData i = some data → Elf64.shType f i ≠ shtNobits →
    data.bytes = Elf64.contents f i

theorem showsFile_of_forall {elf : Elf} {f : Bytes} (hlength : elf.scns.length ≤ Elf64.shnum f)
    (h : ∀ i < elf.scns.length, ∀ data ∈ elf.secData i, data.bytes = Elf64.contents f i) :
    ShowsFile elf f := by
  refine ⟨hlength, fun i data hdata _ => ?_⟩
  by_cases hi : i < elf.scns.length
  · exact h i hi data hdata
  · rw [Elf.secData, List.getElem?_eq_none (not_lt.1 hi)] at hdata
    cases hdata

/-- A row section of the file, from its instructions. -/
theorem ShowsFile.insnBytes {elf : Elf} {f : Bytes} (h : ShowsFile elf f) {decode : Bytes → Str}
    {row : List ℕ} (hrow : Row decode f row) {t : ℕ} (ht : t ∈ row) {data : ElfData}
    (hdata : elf.secData t = some data) (hdvd : bpfInsnSz ∣ data.bytes.length) :
    BpfElfTools.insnBytes (readInsns data.bytes) = Elf64.contents f t ∧
      data.bytes.length = Elf64.shSize f t := by
  have hbytes := h.data t data hdata (hrow.hasBits t ht)
  have hbounds := hrow.bounds t ht
  refine ⟨(insnBytes_readInsns hdvd).trans hbytes, ?_⟩
  rw [hbytes, Elf64.contents, List.extract_eq_take_drop, List.length_take, List.length_drop]
  omega

/-! ## A small object -/

/-- A file with the sections of an object. -/
def fileOf (elf : Elf) : Bytes :=
  Elf64.file (elf.scns.tail.map fun scn =>
    (scn.shdr.name.getD [], scn.shdr.flags, (scn.data.map ElfData.bytes).getD []))

/-- The file of the object of two programs. -/
def twoProgsFile : Bytes := fileOf twoProgsElf

theorem wellFormed_twoProgsFile : Elf64.WellFormed twoProgsFile := by decide +kernel

theorem showsFile_twoProgsFile : ShowsFile twoProgsElf twoProgsFile :=
  showsFile_of_forall (by decide +kernel) (by decide +kernel)

theorem row_twoProgsFile : Row Elf64.ascii twoProgsFile [1, 2, 3, 4, 5, 6] := by
  constructor
  · simp only [Tiling.Contiguous]
    decide +kernel
  all_goals decide +kernel

/-- The files of its layout can be read. -/
theorem reads_twoProgsFile (g : Bytes) (hg : Elf64.SameLayout twoProgsFile g) :
    sampleTools.Reads Elf64.ascii g :=
  reads_elf64Tools Elf64.ascii Elf64.inflateStored (hg.wellFormed wellFormed_twoProgsFile)

/-- The directory of the object. -/
def twoProgsDir : Extractor.Dir := fun path =>
  if path = cstr "prog.o" then some twoProgsFile else none

/-! ## The old extractor -/

namespace OldExtractor

theorem mapsLoaded_applied {symbols : ElfData} {maps : List BpfMapData} {rels : List GElfRel}
    {insns : List BpfInsn} {refs : ℕ → Prop} (hrefs : ∀ rel ∈ rels, refs (relIdx rel))
    (h : ∀ rel ∈ rels, ∀ i, insns[relIdx rel]? = some i → i.IsLddw ∧ i.srcReg = 0 ∧ i.imm = 0) :
    MapsLoaded refs insns (applied symbols maps rels insns) := by
  intro n
  rw [getElem?_applied]
  cases hi : insns[n]? with
  | none => exact .inl rfl
  | some i =>
    cases hlast : (rels.filter (relIdx · = n)).getLast? with
    | none => exact .inl rfl
    | some rel =>
      have hmem := List.mem_of_getLast? hlast
      rw [List.mem_filter, decide_eq_true_iff] at hmem
      obtain ⟨hlddw, hsrc, himm⟩ := h rel hmem.1 i (hmem.2 ▸ hi)
      exact .inr ⟨hmem.2 ▸ hrefs rel hmem.1, i, _, rfl, hlddw, hsrc, himm, rfl⟩

/-- An entry for the section `t` is for the instruction `k`. -/
def IsRef (elf : Elf) (t k : ℕ) : Prop :=
  ∃ i ∈ secIdxs elf, target elf i = some t ∧ ∃ rel ∈ entries elf i, relIdx rel = k

/-- The program is code as it was compiled: no reference to a map has been filled in, and a `lddw`
    that an entry is for has neither a source register nor an immediate. -/
structure Compiled (elf : Elf) (t : ℕ) (insns : List BpfInsn) : Prop where
  asCompiled : AsCompiled (IsRef elf t) insns
  orig : ∀ k, IsRef elf t k → ∀ insn, insns[k]? = some insn → insn.IsLddw →
    insn.srcReg = 0 ∧ insn.imm = 0

/-- Relocated or not, the instructions of a program are those of the file with maps filled in. -/
theorem mapsLoaded_of_selects {elf : Elf} {symbols : ElfData} {maps : List BpfMapData}
    {progname : Bytes} {processedSec : ℕ → Bool} {t : ℕ} {insns insns' : List BpfInsn}
    (hinsns : fileInsns elf t = some insns) (hcompiled : Compiled elf t insns)
    (happ : ∀ i ∈ secIdxs elf, target elf i = some t →
      Selects elf symbols maps progname processedSec i →
      insns' = applied symbols maps (entries elf i) insns)
    (hraw : (∀ i ∈ secIdxs elf, target elf i = some t →
      ¬Selects elf symbols maps progname processedSec i) → insns' = insns) :
    MapsLoaded (IsRef elf t) insns insns' := by
  by_cases hall : ∀ i ∈ secIdxs elf, target elf i = some t →
      ¬Selects elf symbols maps progname processedSec i
  · rw [hraw hall]
    exact fun _ => .inl rfl
  push Not at hall
  obtain ⟨i, hi, htarget, hsel⟩ := hall
  rw [happ i hi htarget hsel]
  have hrefs : ∀ rel ∈ entries elf i, IsRef elf t (relIdx rel) :=
    fun rel hrel => ⟨i, hi, htarget, rel, hrel, rfl⟩
  refine mapsLoaded_applied hrefs fun rel hrel insn hinsn => ?_
  -- The entries that have been applied are for `lddw`, which had no map before.
  obtain ⟨insn', hinsn', hlddw⟩ := (hsel.applicable htarget hinsns rel hrel).isLddw
  obtain rfl := Option.some.inj (hinsn.symm.trans hinsn')
  exact ⟨hlddw, hcompiled.orig _ (hrefs rel hrel) insn hinsn hlddw⟩

/-- A program that the old extractor has written is patched back, removing the relocations, to the
    file that it was read from, which it gives back byte by byte: whether the program has been
    relocated or not, and whatever its maps are. -/
theorem mainElf_patchBack {elf : Elf} {symbols : ElfData} (h : WellFormed elf symbols)
    {progname : Bytes} (hroom : NamesComparable elf progname) {t : ℕ} {prog : Sec}
    (ht : Unambiguous elf progname t prog) {insns : List BpfInsn}
    (hinsns : fileInsns elf t = some insns) (hsize : prog.data.size < 2 ^ 31)
    (hdvd : bpfInsnSz ∣ prog.data.size) (hcompiled : Compiled elf t insns) {f : Bytes}
    (hshows : ShowsFile elf f) {tools : PyElfTools} {decode : Bytes → Str} {row : List ℕ}
    (hrow : Row decode f row) (hf : Elf64.WellFormed f) (hreads : tools.Reads decode f)
    (htrow : t ∈ row) {outputName : Bytes} (hname : outputName.length < 44) {dir : Extractor.Dir}
    {host : Host Bytes} {args : Args Bytes} (hinput : dir args.elfFile = some f)
    (hkept : ∀ ext ∈ [".insns", ".txt", ".maps"], args.elfFile ≠ outputPath outputName ext)
    (hkprobe : args.elfFile ≠ kprobeEvents)
    (hnew : args.newInsns = outputPath outputName ".insns") (hreloc : args.removeReloc = true)
    (hsec : args.sectionName = Elf64.sectionName decode f t)
    (hsecs : args.sections = sectionString ((before row t).map (Elf64.sectionName decode f)))
    (hne : args.output ≠ args.elfFile) (hne' : args.output ≠ args.newInsns)
    (hread : host.readable args.elfFile = true) (hread' : host.readable args.newInsns = true)
    (hwrite : host.writable args.output = true) :
    ∃ ret dir', mainElf elf progname outputName dir = .ok (ret, dir') ∧
      (Patcher.main tools host args).exec dir' =
        (.ok (), Function.update dir' args.output (some f)) := by
  obtain ⟨scan, maps, insns', dir', -, -, hmain, hwritten, happ, hraw⟩ :=
    mainElf_unambiguous h hname hroom ht hinsns hsize dir
  refine ⟨_, dir', hmain, ?_⟩
  have hloaded := mapsLoaded_of_selects hinsns hcompiled happ hraw
  have hdata := secData_of_getSec ht.sec
  obtain ⟨b, hb, rfl⟩ : ∃ b, prog.data.buf = some b ∧ readInsns b = insns := by
    rw [fileInsns, hdata, Option.bind_some] at hinsns
    exact Option.map_eq_some_iff.1 hinsns
  have hbytes : prog.data.bytes = b := by rw [ElfData.bytes, hb, Option.getD_some]
  have hdvd' : bpfInsnSz ∣ prog.data.bytes.length := by
    rw [hbytes, prog.data.length_buf b hb]
    exact hdvd
  obtain ⟨hcontents, hlength⟩ := hshows.insnBytes hrow htrow hdata hdvd'
  rw [hbytes] at hcontents hlength
  have hpatched : patchedInsns (BpfElfTools.insnBytes insns') args.removeReloc =
      Elf64.contents f t := by
    rw [patchedInsns, hreloc, if_pos rfl, clearRelocInsns_insnBytes,
      clearInsns_of_mapsLoaded hloaded hcompiled.asCompiled, hcontents]
  have hfits := hrow.bounds t htrow
  have hinput' : dir' args.elfFile = some f := by
    rw [hwritten.others _ (hkept _ (by simp)) (hkept _ (by simp)) (hkept _ (by simp)),
      writeKprobeEvents_of_ne hkprobe, hinput]
  have hrun := exec_main_row hrow hf (Elf64.SameLayout.refl f) hreads htrow hsec hsecs (by
    rw [hpatched, Elf64.contents, List.extract_eq_take_drop, List.length_take, List.length_drop]
    omega) hinput' (hnew ▸ hwritten.bytecode) hne hne' hread hread' hwrite
  rw [hrun, hpatched, Elf64.contents, splice_extract hfits]

set_option maxRecDepth 2000 in
/-- The old extractor can read the object. -/
theorem wellFormed_twoProgsElf : ∃ symbols, WellFormed twoProgsElf symbols := by
  have hread : ∃ symbols data,
      ((secIdxs twoProgsElf).filterMap (symtabData twoProgsElf)).getLast? = some symbols ∧
      twoProgsElf.secData 4 = some data ∧
      (0 < (mapsSyms symbols 4).length ∧ (mapsSyms symbols 4).length ≤ maxMaps ∧
        Extractor.toInt (data.size / (mapsSyms symbols 4).length) = (20 : ℕ) ∧
        (∀ sym ∈ mapsSyms symbols 4, DefinitionFits data 20 sym) ∧
        ((secIdxs twoProgsElf).filter (isMaps twoProgsElf)).getLast? = some 4 ∧
        ∀ i ∈ secIdxs twoProgsElf, ∀ r ∈ relocates twoProgsElf i,
          Readable twoProgsElf symbols r.1) := ⟨_, _, rfl, rfl, by decide +kernel⟩
  obtain ⟨symbols, data, hsymtab, hdata, hpos, hle, hsize, hfits, hmaps, hentries⟩ := hread
  refine ⟨symbols, by decide +kernel, by decide +kernel, by decide +kernel, hsymtab, ?_, hentries⟩
  rintro m hm
  obtain rfl := Option.some.inj (hmaps.symm.trans hm)
  exact ⟨data, 20, hdata, hpos, hle, hsize, hfits⟩

/-- The arguments for patching back the first program. -/
def backArgs : Args Bytes where
  elfFile := cstr "prog.o"
  newInsns := outputPath (cstr "out") ".insns"
  sectionName := "xdp".toList
  output := cstr "new.o"
  removeReloc := true

theorem mainElf_patchBack_twoProgsElf : ∃ ret dir',
    mainElf twoProgsElf (cstr "xdp") (cstr "out") twoProgsDir = .ok (ret, dir') ∧
      (Patcher.main sampleTools ⟨fun _ => true, fun _ => true, 0⟩ backArgs).exec dir' =
        (.ok (), Function.update dir' (cstr "new.o") (some twoProgsFile)) := by
  obtain ⟨symbols, h⟩ := wellFormed_twoProgsElf
  have ht : ∃ prog insns, Unambiguous twoProgsElf (cstr "xdp") 1 prog ∧
      fileInsns twoProgsElf 1 = some insns ∧ prog.data.size < 2 ^ 31 ∧
      bpfInsnSz ∣ prog.data.size ∧ Unrelocated insns ∧
      ∀ i ∈ secIdxs twoProgsElf, target twoProgsElf i = some 1 → ∀ rel ∈ entries twoProgsElf i,
        ∀ insn ∈ insns[relIdx rel]?, insn.srcReg = 0 ∧ insn.imm = 0 := by
    refine ⟨_, _, ⟨by decide, rfl, by decide, by decide, ?_, by decide, by decide, ?_⟩, rfl, ?_, ?_,
      unrelocated_of_forall ?_, ?_⟩
    all_goals decide +kernel
  obtain ⟨prog, insns, ht, hinsns, hsize, hdvd, hun, horig⟩ := ht
  have hcompiled : Compiled twoProgsElf 1 insns := by
    refine ⟨hun.asCompiled _, ?_⟩
    rintro k ⟨i, hi, htarget, rel, hrel, rfl⟩ insn hinsn -
    exact horig i hi htarget rel hrel insn hinsn
  exact mainElf_patchBack h (by decide +kernel) ht hinsns hsize hdvd hcompiled
    showsFile_twoProgsFile row_twoProgsFile wellFormed_twoProgsFile
    (reads_twoProgsFile _ (Elf64.SameLayout.refl _)) (by decide) (by decide) rfl (by decide)
    (by decide) rfl rfl (by decide +kernel) rfl (by decide) (by decide) rfl rfl rfl

end OldExtractor

/-! ## The extractor -/

namespace Extractor

/-- The program is code as it was compiled, which fills its section, and its references can be
    resolved. -/
structure Compiled (elf : Elf) (obj : BpfObject) (p : BpfProgram) : Prop where
  start : p.secInsnOff = 0
  fills : ∀ data, elf.secData p.secIdx = some data → bpfInsnSz * p.secInsnCnt = data.bytes.length
  cnt : p.secInsnCnt < 2 ^ 31
  asCompiled : AsCompiled p.IsRef p.insns
  orig : ∀ d ∈ p.relocDesc, ∃ i, p.insns[d.insnIdx.toNat]? = some i ∧ i.IsLddw ∧ i.srcReg = 0 ∧
    (d.type ≠ reloData → i.imm = 0)
  nodup : (p.relocDesc.map RelocDesc.insnIdx).Nodup
  relocates : ∃ p', relocateData obj.setFds p = .ok (p', none)

/-- All of it, for a program whose second slots are all zero. -/
theorem compiled_of_forall {elf : Elf} {obj : BpfObject} {p : BpfProgram}
    (hstart : p.secInsnOff = 0)
    (hfills : ∀ data ∈ elf.secData p.secIdx, bpfInsnSz * p.secInsnCnt = data.bytes.length)
    (hcnt : p.secInsnCnt < 2 ^ 31) (hun : Unrelocated p.insns)
    (horig : ∀ d ∈ p.relocDesc, ∃ i ∈ p.insns[d.insnIdx.toNat]?, i.IsLddw ∧ i.srcReg = 0 ∧
      (d.type ≠ reloData → i.imm = 0)) (hnodup : (p.relocDesc.map RelocDesc.insnIdx).Nodup)
    (hreloc : ∃ p', relocateData obj.setFds p = .ok (p', none)) : Compiled elf obj p :=
  ⟨hstart, hfills, hcnt, hun.asCompiled _, horig, hnodup, hreloc⟩

section

variable {btfNew : Bytes → Except Err Btf} {heap : Heap} {path : Bytes} {elf : Elf}
  {obj : BpfObject} (hopen : BpfObject.openFile btfNew heap path elf = .ok obj)

include hopen

/-- A program of an opened object, and its section. -/
theorem section_of_openFile {p : BpfProgram} (hp : p ∈ obj.programs) :
    ∃ data, elf.secData p.secIdx = some data ∧
      (elf.scns[p.secIdx]?.bind fun scn => scn.shdr.name) = some p.secName ∧
      p.insns.length = p.secInsnCnt ∧
      p.insns = (readInsns data.bytes).extract p.secInsnOff (p.secInsnOff + p.secInsnCnt) := by
  obtain ⟨obj₁, ps, hread, hps, -, rfl⟩ := BpfObject.openFile_ok hopen
  obtain ⟨q, hq, rfl⟩ := List.mem_map.1 hp
  obtain ⟨scn, data, hin⟩ := hread.inSection q.bare (hps.bare ▸ List.mem_map_of_mem hq)
  have hscn : elf.scns[q.secIdx]? = some scn := (Elf.mem_numbered.1 hin.mem).1
  refine ⟨data, ?_, ?_, hin.length_insns, hin.insns⟩
  · change (elf.scns[q.secIdx]?.bind _) = _
    rw [hscn]
    exact hin.secData
  · change (elf.scns[q.secIdx]?.bind _) = _
    rw [hscn]
    exact hin.secName

/-- Programs of one section are one, if the names differ. -/
theorem eq_of_secIdx_eq (hnames : NamesDiffer obj.programs) {p q : BpfProgram}
    (hp : p ∈ obj.programs) (hq : q ∈ obj.programs) (heq : p.secIdx = q.secIdx) : p = q := by
  obtain ⟨-, -, hpname, -⟩ := section_of_openFile hopen hp
  obtain ⟨-, -, hqname, -⟩ := section_of_openFile hopen hq
  rw [heq, hqname] at hpname
  exact List.inj_on_of_nodup_map hnames.nodup hp hq (by rw [Option.some.inj hpname])

variable {dir dir' : Dir} (h : extract btfNew heap path elf dir = .ok (0, dir'))

include h

/-- What `extract` has written for a program as it was compiled: the instructions that relocating
    it gives, as many as it has. -/
theorem written_of_compiled (hnames : NamesDiffer obj.programs) {p : BpfProgram}
    (hp : p ∈ obj.programs) (hc : Compiled elf obj p) :
    ∃ p', relocateData obj.setFds p = .ok (p', none) ∧
      dir' (filePath p.secName .insns) = some (insnBytes p'.insns) ∧
      p'.insns.length = p.secInsnCnt := by
  obtain ⟨-, -, -, hlen, -⟩ := section_of_openFile hopen hp
  obtain ⟨p', hreloc⟩ := hc.relocates
  obtain ⟨p'', err, hreloc', hfiles⟩ := contents_of_extract hopen hnames h hp
  obtain rfl := (Prod.mk.inj (Except.ok.inj (hreloc.symm.trans hreloc'))).1
  obtain ⟨-, hp'⟩ := relocateData_eq_ok.1 hreloc
  have hlen' : p'.insns.length = p.secInsnCnt := by
    rw [hp', Pairs.length_writeAll, hlen]
  have htake : p'.insns.take (toInt p'.secInsnCnt).toNat = p'.insns := by
    refine List.take_of_length_le ?_
    rw [hlen', show p'.secInsnCnt = p.secInsnCnt by rw [hp'], toInt_of_lt hc.cnt]
    exact le_rfl
  refine ⟨p', hreloc, ?_, hlen'⟩
  have hfile := hfiles .insns
  rwa [fileContents, htake] at hfile

omit h in
/-- The descriptors of a program as it was compiled are recorded for `lddw`. -/
theorem recordedAtLddw_of_compiled {p : BpfProgram} (hp : p ∈ obj.programs)
    (hc : Compiled elf obj p) : ∀ d ∈ p.relocDesc, RecordedAtLddw obj.setFds p d := by
  intro d hd
  have hopened : IsOpened elf obj.setFds :=
    isOpened_of_openFile hopen (BpfObject.collectRelos_setFds hopen heap)
  obtain ⟨e, -, _, _, hentry⟩ := hopened.exists_entry hp hd
  obtain ⟨sym, d₀, -, hrecord⟩ := hentry.records
  exact ⟨⟨d₀, _, sym, e.2, hrecord⟩, hc.orig d hd⟩

/-- The original instructions come back from what `extract` has written exactly if every reference
    is undone. -/
theorem dump_of_compiled (hnames : NamesDiffer obj.programs) {p : BpfProgram}
    (hp : p ∈ obj.programs) (hc : Compiled elf obj p) :
    ∃ insns', dir' (filePath p.secName .insns) = some (insnBytes insns') ∧
      insns'.length = p.secInsnCnt ∧
      (clearInsns insns' = p.insns ↔ ∀ d ∈ p.relocDesc, (refOf obj.setFds d).Undone) := by
  obtain ⟨p', hreloc, hfile, hlen⟩ := written_of_compiled hopen h hnames hp hc
  have hrec := recordedAtLddw_of_compiled hopen hp hc
  exact ⟨p'.insns, hfile, hlen, (relocatedInsns_of_relocateData hc.asCompiled hrec hc.nodup
    hreloc).clearInsns_eq_iff hc.asCompiled hrec (relocateData_eq_ok.1 hreloc).1⟩

/-- The edit patches back the instructions that `extract` has written for the program. -/
structure PatchesBack (edit : Edit Bytes) (p : BpfProgram) : Prop where
  target : edit.target = p.secIdx
  newInsns : edit.newInsns = filePath p.secName .insns
  removeReloc : edit.removeReloc = true

variable {f : Bytes} (hshows : ShowsFile elf f) {tools : PyElfTools} {decode : Bytes → Str}
  {row : List ℕ} (hrow : Row decode f row)

include hshows hrow

omit h in
/-- The bytes of the section of a program as it was compiled. -/
theorem contents_of_compiled {p : BpfProgram} (hp : p ∈ obj.programs) (hc : Compiled elf obj p)
    (ht : p.secIdx ∈ row) : Elf64.contents f p.secIdx = insnBytes p.insns ∧
      Elf64.shSize f p.secIdx = bpfInsnSz * p.secInsnCnt := by
  obtain ⟨data, hdata, -, hlen, hinsns⟩ := section_of_openFile hopen hp
  have hfills := hc.fills data hdata
  obtain ⟨hcontents, hsize⟩ := hshows.insnBytes hrow ht hdata ⟨p.secInsnCnt, hfills.symm⟩
  refine ⟨?_, hsize.symm.trans hfills.symm⟩
  rw [← hcontents, hinsns, hc.start, Nat.zero_add, List.extract_eq_take_drop, List.drop_zero,
    Nat.sub_zero, List.take_of_length_le]
  rw [length_readInsns, ← hfills, Nat.mul_div_cancel_left _ (by decide)]

/-- The programs that `extract` has written are patched back, any of them, in any order and any
    number of times, removing the relocations. The file that they were read from comes back exactly
    if every reference in them is one to a map, or writes nothing. -/
theorem extract_patchBack_iff (hnames : NamesDiffer obj.programs) (hf : Elf64.WellFormed f)
    (hreads : ∀ g, Elf64.SameLayout f g → tools.Reads decode g) {edits : List (Edit Bytes)}
    (hedits : ∀ edit ∈ edits, ∃ p ∈ obj.programs, PatchesBack edit p ∧ Compiled elf obj p ∧
      p.secIdx ∈ row)
    {host : Host Bytes} {input : Bytes} (hinput : dir' input = some f)
    (hready : Ready host (fun path => (dir' path).getD []) edits input dir') :
    ∃ st' path' output, (editAll tools host decode f row edits input).exec dir' =
        (.ok path', st') ∧ st' path' = some output ∧
      (output = f ↔ ∀ edit ∈ edits, ∀ p ∈ obj.programs, PatchesBack edit p →
        ∀ d ∈ p.relocDesc, (refOf obj.setFds d).Undone) := by
  -- What a run puts into its section, and when that is what the section held.
  have hwritten : ∀ edit ∈ edits, ∀ p ∈ obj.programs, PatchesBack edit p → Compiled elf obj p →
      p.secIdx ∈ row →
      (edit.written fun path => (dir' path).getD []).length = Elf64.shSize f edit.target ∧
      ((edit.written fun path => (dir' path).getD []) = Elf64.contents f edit.target ↔
        ∀ d ∈ p.relocDesc, (refOf obj.setFds d).Undone) := by
    intro edit hedit p hp hback hc ht
    obtain ⟨insns', hfile, hlen, hiff⟩ := dump_of_compiled hopen h hnames hp hc
    obtain ⟨hcontents, hsize⟩ := contents_of_compiled hopen hshows hrow hp hc ht
    rw [Edit.written, hback.newInsns, hfile, Option.getD_some, hback.removeReloc, patchedInsns,
      if_pos rfl, hback.target, hcontents, hsize, ← hiff]
    refine ⟨?_, ?_⟩
    · rw [clearRelocInsns_eq_clearSlots, length_clearSlots, length_insnBytes, hlen]
    · rw [clearRelocInsns_insnBytes]
      refine ⟨fun heq => ?_, congrArg insnBytes⟩
      rw [← readInsns_insnBytes (clearInsns insns'), heq, readInsns_insnBytes]
  have hfit : EditsFit f row (fun path => (dir' path).getD []) edits := by
    intro edit hedit
    obtain ⟨p, hp, hback, hc, ht⟩ := hedits edit hedit
    exact ⟨hback.target ▸ ht, (hwritten edit hedit p hp hback hc ht).1⟩
  obtain ⟨st', path', hexec, hout, -⟩ :=
    exec_editAll hrow hf hreads hfit (Elf64.SameLayout.refl f) hinput hready
  refine ⟨st', path', _, hexec, hout, (hrow.edits_eq_self_iff hfit).trans
    ⟨fun hlast edit hedit p hp hback => ?_, fun hall t edit hlast => ?_⟩⟩
  · -- The last edit of the section patches back the same program.
    obtain ⟨last, hlast'⟩ := exists_lastEdit hedit
    obtain ⟨hmem, htarget⟩ := mem_lastEdit hlast'
    obtain ⟨q, hq, hqback, hc, ht⟩ := hedits last hmem
    obtain rfl : q = p := eq_of_secIdx_eq hopen hnames hq hp
      (hqback.target.symm.trans (htarget.trans hback.target))
    refine (hwritten last hmem q hq hqback hc ht).2.1 ?_
    rw [hlast _ last hlast', htarget]
  · obtain ⟨hmem, rfl⟩ := mem_lastEdit hlast
    obtain ⟨p, hp, hback, hc, ht⟩ := hedits edit hmem
    exact (hwritten edit hmem p hp hback hc ht).2.2 (hall edit hmem p hp hback)

end

/-- The programs of the object are both patched back, the first one twice. -/
def backAll : List (Edit Bytes) :=
  [⟨6, filePath (cstr "tc/drop") .insns, true, cstr "new.o"⟩,
    ⟨1, filePath (cstr "xdp") .insns, true, cstr "prog.o"⟩,
    ⟨1, filePath (cstr "xdp") .insns, true, cstr "new.o"⟩]

set_option maxRecDepth 2000 in
theorem compiled_twoProgsElf : ∃ obj p q,
    BpfObject.openFile noBtf zeroHeap (cstr "prog.o") twoProgsElf = .ok obj ∧
      obj.programs = [p, q] ∧ (p.secIdx = 1 ∧ p.secName = cstr "xdp") ∧
      (q.secIdx = 6 ∧ q.secName = cstr "tc/drop") ∧ NamesDiffer obj.programs ∧
      Compiled twoProgsElf obj p ∧ Compiled twoProgsElf obj q ∧
      ∀ r ∈ obj.programs, ∀ d ∈ r.relocDesc, (refOf obj.setFds d).Undone := by
  refine ⟨_, _, _, rfl, rfl, ⟨rfl, rfl⟩, ⟨rfl, rfl⟩, ⟨by decide, by decide⟩,
    compiled_of_forall rfl ?_ (by decide) (unrelocated_of_forall ?_) ?_ ?_ ⟨_, rfl⟩,
    compiled_of_forall rfl ?_ (by decide) (unrelocated_of_forall ?_) ?_ ?_ ⟨_, rfl⟩, ?_⟩
  -- Three descriptors, all of references to maps.
  case refine_9 =>
    exact List.forall_mem_cons.2 ⟨List.forall_mem_cons.2 ⟨.inl ⟨_, rfl⟩,
      List.forall_mem_singleton.2 (.inl ⟨_, rfl⟩)⟩,
      List.forall_mem_singleton.2 (List.forall_mem_singleton.2 (.inl ⟨_, rfl⟩))⟩
  all_goals decide +kernel

set_option maxRecDepth 2000 in
theorem extract_patchBack_iff_twoProgsElf : ∃ dir' st' path',
    extract noBtf zeroHeap (cstr "prog.o") twoProgsElf twoProgsDir = .ok (0, dir') ∧
      (editAll sampleTools ⟨fun _ => true, fun _ => true, 0⟩ Elf64.ascii twoProgsFile
        [1, 2, 3, 4, 5, 6] backAll (cstr "prog.o")).exec dir' = (.ok path', st') ∧
      st' path' = some twoProgsFile := by
  obtain ⟨obj, p, q, hopen, hprogs, ⟨hpidx, hpname⟩, ⟨hqidx, hqname⟩, hnames, hp, hq, hundone⟩ :=
    compiled_twoProgsElf
  have hextract : ∃ dir', extract noBtf zeroHeap (cstr "prog.o") twoProgsElf twoProgsDir =
      .ok (0, dir') ∧ dir' (cstr "prog.o") = some twoProgsFile ∧
        (dir' (filePath (cstr "xdp") .insns)).isSome ∧
        (dir' (filePath (cstr "tc/drop") .insns)).isSome :=
    ⟨_, rfl, rfl, by decide +kernel, by decide +kernel⟩
  obtain ⟨dir', hextract, hinput, hsome, hsome'⟩ := hextract
  have hedit : ∀ edit ∈ backAll, (edit.target = 1 ∧ edit.newInsns = filePath (cstr "xdp") .insns ∨
      edit.target = 6 ∧ edit.newInsns = filePath (cstr "tc/drop") .insns) ∧
        edit.removeReloc = true := by decide +kernel
  have hready : Ready ⟨fun _ => true, fun _ => true, 0⟩ (fun path => (dir' path).getD []) backAll
      (cstr "prog.o") dir' := by
    refine ⟨?_, by decide +kernel, by decide +kernel, rfl, fun _ _ => ⟨rfl, rfl, rfl⟩⟩
    intro edit hmem
    have hsome : (dir' edit.newInsns).isSome := by
      rcases (hedit edit hmem).1 with ⟨-, hnew⟩ | ⟨-, hnew⟩ <;> rw [hnew] <;> assumption
    obtain ⟨b, hb⟩ := Option.isSome_iff_exists.1 hsome
    rw [hb]
    rfl
  have hback : ∀ edit ∈ backAll, ∃ r ∈ obj.programs, PatchesBack edit r ∧
      Compiled twoProgsElf obj r ∧ r.secIdx ∈ [1, 2, 3, 4, 5, 6] := by
    intro edit hmem
    obtain ⟨⟨htarget, hnew⟩ | ⟨htarget, hnew⟩, hremove⟩ := hedit edit hmem
    · exact ⟨p, hprogs ▸ by simp, ⟨htarget.trans hpidx.symm, hpname ▸ hnew, hremove⟩, hp,
        by simp [hpidx]⟩
    · exact ⟨q, hprogs ▸ by simp, ⟨htarget.trans hqidx.symm, hqname ▸ hnew, hremove⟩, hq,
        by simp [hqidx]⟩
  obtain ⟨st', path', output, hexec, hout, hiff⟩ := extract_patchBack_iff hopen hextract
    showsFile_twoProgsFile row_twoProgsFile hnames wellFormed_twoProgsFile reads_twoProgsFile hback
    hinput hready
  exact ⟨dir', st', path', hextract, hexec,
    hout.trans (congrArg some (hiff.2 fun _ _ r hr _ => hundone r hr))⟩

end Extractor

end BpfElfTools
