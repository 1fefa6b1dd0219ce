import BpfElfTools.Extractor.Files
import BpfElfTools.Extractor.Uninit

/-!
# Reading the files back

What the dumps are read back as (`BpfElfTools.Extractor.Readback`), for the files
that `extract` leaves, when none of them has been lost.

* `extract_readback`: the files of a program show its relocated instructions, its
  descriptors, and the maps whose lines fit their buffer;
* `relTexts_of_extract`: the files of descriptors hold the dumps of the object,
  which are those of `SameRelTexts`;
* `extract_rel_of_setsMapIdx`: they do not depend on the memory if every entry sets
  the map index.
-/

namespace BpfElfTools.Extractor

open Text

section

variable {btfNew : Bytes → Except Err Btf} {heap : Heap} {path : Bytes} {elf : Elf}
  {obj : BpfObject} (hopen : BpfObject.openFile btfNew heap path elf = .ok obj)
  (hnames : NamesDiffer obj.programs) {dir dir' : Dir}
  (h : extract btfNew heap path elf dir = .ok (0, dir'))

include hopen hnames h

/-- The files of a program are read back: both files of instructions as those that relocating it
    has given, that of the descriptors as these, and that of the maps as all of them, exactly if
    their lines fit the buffer. -/
theorem extract_readback {p : BpfProgram} (hp : p ∈ obj.programs) :
    ∃ p' err bytecode text rels maps, relocateData obj.setFds p = .ok (p', err) ∧
      dir' (filePath p.secName .insns) = some bytecode ∧
      dir' (filePath p.secName .txt) = some text ∧ dir' (filePath p.secName .rel) = some rels ∧
      dir' (filePath p.secName .maps) = some maps ∧
      readInsns bytecode = p'.insns.take (toInt p'.secInsnCnt).toNat ∧
      (lines text).map scanInsn.whole = (readInsns bytecode).map some ∧
      (p'.relocDesc.length < 2 ^ 31 → (lines rels).map scanReloc.whole =
        p'.relocDesc.zipIdx.map fun r => some (r.1.record r.2)) ∧
      ((∀ map ∈ obj.setFds.maps, IsPlainName map.name) →
        ((lines maps).map scanMap.whole = obj.setFds.maps.map (fun map => some map.record) ↔
          ∀ map ∈ obj.setFds.maps, map.record.text.length < 128)) := by
  obtain ⟨p', err, hreloc, hfiles⟩ := contents_of_extract hopen hnames h hp
  refine ⟨p', err, _, _, _, _, hreloc, hfiles .insns, hfiles .txt, hfiles .rel, hfiles .maps,
    readInsns_insnBytes _, ?_, relocsText_readback, fun hplain => ?_⟩
  · rw [fileContents, fileContents, readInsns_insnBytes]
    exact insnsText_readback _
  · exact ⟨length_text_lt_of_read, fun hlen => (mapsReadback_of_lt hplain hlen).read⟩

/-- The files of descriptors hold the dumps of the descriptors, program by program. -/
theorem relTexts_of_extract :
    obj.programs.map (fun p => dir' (filePath p.secName .rel)) = (relTexts obj).map some := by
  rw [relTexts, List.map_map]
  refine List.map_congr_left fun p hp => ?_
  obtain ⟨p', err, hreloc, hfiles⟩ := contents_of_extract hopen hnames h hp
  rw [hfiles .rel, Function.comp_apply, fileContents, relocsText_relocateData hreloc]

/-- They are the same whatever the memory of the descriptors holds, if every entry sets the map
    index. -/
theorem extract_rel_of_setsMapIdx (hsets : SetsMapIdx elf obj) {heap' : Heap}
    (hbeyond : heap'.beyond = heap.beyond) {dir₁ dir₁' : Dir}
    (h' : extract btfNew heap' path elf dir₁ = .ok (0, dir₁')) :
    ∀ p ∈ obj.programs, dir₁' (filePath p.secName .rel) = dir' (filePath p.secName .rel) := by
  obtain ⟨obj', hopen', -⟩ := extract_eq_ok h'
  obtain rfl := eq_of_setsMapIdx hopen hsets hbeyond hopen'
  exact List.map_inj_left.1 ((relTexts_of_extract hopen' hnames h').trans
    (relTexts_of_extract hopen hnames h).symm)

end

end BpfElfTools.Extractor
