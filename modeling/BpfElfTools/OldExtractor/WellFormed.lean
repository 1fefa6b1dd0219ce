import BpfElfTools.OldExtractor.Select

/-!
# Objects that the old extractor can read

The passes rely on much that they do not check: that there are no more sections
than the tables have room for, that the entries are for instructions of their
target, and so on (`WellFormed`). On an object of which all this is true, nothing
goes wrong, whatever the program asked for.

* `getMaps_total`: the maps are loaded;
* `getProg_total`: `get_prog` returns;
* `findWithoutMaps_total`: so does the second search.
-/

namespace BpfElfTools.OldExtractor

open Extractor (toInt)

/-! ## What is relied on -/

/-- The entries of a section can be read, and are for instructions of its target. -/
structure Readable (elf : Elf) (symbols : ElfData) (sec : Sec) : Prop where
  entsize : sec.shdr.entsize ≠ 0
  entries : nrels sec.shdr ≤ sec.data.rels.length
  insn : ∀ rel ∈ sec.data.rels.take (nrels sec.shdr),
    relIdx rel < ((fileInsns elf sec.shdr.info).getD []).length
  sym : ∀ rel ∈ sec.data.rels.take (nrels sec.shdr), (symbols.syms[rel.sym]?).isSome

instance (elf : Elf) (symbols : ElfData) : DecidablePred (Readable elf symbols) := fun sec =>
  decidable_of_iff (sec.shdr.entsize ≠ 0 ∧ nrels sec.shdr ≤ sec.data.rels.length ∧
    (∀ rel ∈ sec.data.rels.take (nrels sec.shdr),
      relIdx rel < ((fileInsns elf sec.shdr.info).getD []).length) ∧
    ∀ rel ∈ sec.data.rels.take (nrels sec.shdr), (symbols.syms[rel.sym]?).isSome)
    ⟨fun ⟨h₁, h₂, h₃, h₄⟩ => ⟨h₁, h₂, h₃, h₄⟩, fun ⟨h₁, h₂, h₃, h₄⟩ => ⟨h₁, h₂, h₃, h₄⟩⟩

/-- The section `m` defines maps that fit the table. -/
structure MapsFit (elf : Elf) (symbols : ElfData) (m : ℕ) (data : ElfData) (sz : ℕ) : Prop where
  contents : elf.secData m = some data
  pos : 0 < (mapsSyms symbols m).length
  le : (mapsSyms symbols m).length ≤ maxMaps
  size : toInt (data.size / (mapsSyms symbols m).length) = (sz : ℤ)
  fits : ∀ sym ∈ mapsSyms symbols m, DefinitionFits data sz sym

/-- What the passes rely on. -/
structure WellFormed (elf : Elf) (symbols : ElfData) : Prop where
  secs : shnum elf ≤ maxSecs
  license : ∀ i ∈ secIdxs elf, ∀ sec ∈ getSec elf i, sec.shname = cstr "license" →
    sec.data.buf.isSome ∧ sec.data.size ≤ maxLicense
  version : ∀ i ∈ secIdxs elf, ∀ sec ∈ getSec elf i, sec.shname = cstr "version" →
    sec.data.buf.isSome ∧ sec.data.size = 4
  symtab : ((secIdxs elf).filterMap (symtabData elf)).getLast? = some symbols
  maps : ∀ m, ((secIdxs elf).filter (isMaps elf)).getLast? = some m →
    ∃ data sz, MapsFit elf symbols m data sz
  entries : ∀ i ∈ secIdxs elf, ∀ r ∈ relocates elf i, Readable elf symbols r.1

/-- The names of the sections can be compared with that of the program asked for, and with those
    that programs have: as many bytes follow in the table of the names. -/
def NamesComparable (elf : Elf) (progname : Bytes) : Prop :=
  ∀ i < elf.scns.length, ∀ sec ∈ getSec elf i, ∀ s ∈ progname :: progPrefixes,
    s.length ≤ sec.shdr.nameRoom

instance (elf : Elf) (progname : Bytes) : Decidable (NamesComparable elf progname) :=
  inferInstanceAs (Decidable (∀ i < _, _))

section

variable {elf : Elf} {symbols : ElfData} (h : WellFormed elf symbols)

include h

/-- The sections are within the table. -/
theorem WellFormed.lt_maxSecs {i : ℕ} (hi : i ∈ secIdxs elf) : i < maxSecs := by
  have hle := h.secs
  have := (List.mem_range'_1.1 hi).2
  have := (List.mem_range'_1.1 hi).1
  omega

/-! ## The first pass -/

theorem scanSec_total {i : ℕ} (hi : i ∈ secIdxs elf) (scan : Scan) :
    ∃ scan', scanSec elf scan i = .ok scan' := by
  have hset : setProcessed scan.processedSec i = .ok (Function.update scan.processedSec i true) :=
    setProcessed_eq_ok.2 ⟨h.lt_maxSecs hi, rfl⟩
  rw [scanSec]
  rcases hsec : getSec elf i with _ | sec
  · exact ⟨scan, rfl⟩
  dsimp only
  split
  · obtain ⟨hbuf, hsize⟩ := h.license i hi sec hsec ‹_›
    rw [hset, Fold.ok_bind, if_neg (Option.isSome_iff_ne_none.1 hbuf), if_neg (not_lt.2 hsize)]
    exact ⟨_, rfl⟩
  split
  · obtain ⟨hbuf, hsize⟩ := h.version i hi sec hsec ‹_›
    rw [hset, Fold.ok_bind, if_neg (not_not.2 hsize), if_neg (Option.isSome_iff_ne_none.1 hbuf)]
    exact ⟨_, rfl⟩
  split
  · exact ⟨_, rfl⟩
  split
  · exact ⟨_, rfl⟩
  · exact ⟨_, rfl⟩

theorem scanSecs_total : ∃ scan, scanSecs elf = .ok scan ∧ scan.symbols = some symbols := by
  obtain ⟨scan, hscan, -⟩ := Fold.foldlM_total (f := scanSec elf) (fun _ => True)
    (fun i hi scan _ => (scanSec_total h hi scan).imp fun _ hstep => ⟨hstep, trivial⟩)
    (s := ⟨fun _ => false, none, none⟩) trivial
  exact ⟨scan, hscan, (scanSecs_ok hscan).2.2.trans h.symtab⟩

/-- The maps are loaded, if there are any. -/
theorem getMaps_total {scan : Scan} (hscan : scanSecs elf = .ok scan) {mapFd : ℤ}
    (hfd : 0 ≤ mapFd) : ∃ maps, getMaps elf mapFd scan symbols = .ok (some maps) ∧
      (maps.isSome ↔ scan.mapsShndx.isSome) ∧
      ∀ m, scan.mapsShndx = some m → ∃ data sz, MapsFit elf symbols m data sz ∧
        maps = some (loadedMaps mapFd data sz (mapsSyms symbols m)) := by
  have hmapsShndx := (scanSecs_ok hscan).2.1
  rcases hm : scan.mapsShndx with _ | m
  · refine ⟨none, ?_, Iff.rfl, fun m hm => (by cases hm)⟩
    rw [getMaps, hm]
  · rw [hm] at hmapsShndx
    have hsec : m < maxSecs := h.lt_maxSecs
      (List.mem_of_mem_filter (List.mem_of_getLast? hmapsShndx.symm))
    obtain ⟨data, sz, hfit⟩ := h.maps m hmapsShndx.symm
    refine ⟨some (loadedMaps mapFd data sz (mapsSyms symbols m)), ?_, iff_of_true rfl rfl, ?_⟩
    · exact (getMaps_ok_iff hfd).2 ⟨m, data, sz, hm, hsec, hfit.contents, hfit.size, hfit.pos,
        hfit.le, hfit.fits, rfl⟩
    · rintro m' hm'
      obtain rfl := Option.some.inj hm'
      exact ⟨data, sz, hfit, rfl⟩

end

/-! ## Entries -/

/-- An entry that can be read does not end the tool. -/
theorem applyEntry_total {data symbols : ElfData} (maps : List BpfMapData) {insns : List BpfInsn}
    {i : ℕ} {rel : GElfRel} (hrel : data.rels[i]? = some rel) (hidx : relIdx rel < insns.length)
    (hsym : (symbols.syms[rel.sym]?).isSome) :
    ∃ res, applyEntry data symbols maps insns i = .ok res ∧ res.2.length = insns.length := by
  obtain ⟨sym, hsym⟩ := Option.isSome_iff_exists.1 hsym
  rw [applyEntry_of_insn hrel (List.getElem?_eq_getElem hidx)]
  split
  · exact ⟨_, rfl, rfl⟩
  split
  · exact ⟨_, rfl, List.length_modify ..⟩
  rw [hsym]
  dsimp only
  split
  · exact ⟨_, rfl, List.length_modify ..⟩
  · exact ⟨_, rfl, List.length_modify ..⟩

theorem applyEntries_total {data symbols : ElfData} {maps : List BpfMapData} {is : List ℕ}
    {insns : List BpfInsn} (hrels : ∀ i ∈ is, ∃ rel, data.rels[i]? = some rel ∧
      relIdx rel < insns.length ∧ (symbols.syms[rel.sym]?).isSome) :
    ∃ res, applyEntries data symbols maps is insns = .ok res := by
  induction is generalizing insns with
  | nil => exact ⟨_, rfl⟩
  | cons i is ih =>
    obtain ⟨rel, hrel, hidx, hsym⟩ := hrels i List.mem_cons_self
    obtain ⟨⟨b, insns'⟩, hentry, hlen⟩ := applyEntry_total maps hrel hidx hsym
    rw [applyEntries, hentry, Fold.ok_bind]
    split
    · refine ih fun j hj => ?_
      obtain ⟨rel', hrel', hidx', hsym'⟩ := hrels j (List.mem_cons_of_mem _ hj)
      exact ⟨rel', hrel', hlen ▸ hidx', hsym'⟩
    · exact ⟨_, rfl⟩

theorem parseReloAndApply_total {elf : Elf} {symbols : ElfData} (maps : List BpfMapData) {sec : Sec}
    (hsec : Readable elf symbols sec) {insns : List BpfInsn}
    (hlen : insns.length = ((fileInsns elf sec.shdr.info).getD []).length) :
    ∃ res, parseReloAndApply sec.data symbols sec.shdr insns maps = .ok res := by
  rw [parseReloAndApply, if_neg hsec.entsize]
  refine applyEntries_total fun i hi => ?_
  have hi' := List.mem_range.1 hi
  have hlt : i < sec.data.rels.length := hi'.trans_le hsec.entries
  have hmem : sec.data.rels[i] ∈ sec.data.rels.take (nrels sec.shdr) :=
    List.mem_iff_getElem?.2
      ⟨i, by rw [List.getElem?_take, if_pos hi', List.getElem?_eq_getElem hlt]⟩
  exact ⟨_, List.getElem?_eq_getElem hlt, hlen ▸ hsec.insn _ hmem, hsec.sym _ hmem⟩

/-! ## The searches -/

/-- A comparison within the table of the names. -/
theorem memcmpName_of_le {sec : Sec} {s : Bytes} (h : s.length ≤ sec.shdr.nameRoom) :
    memcmpName sec s = .ok (decide (s <+: sec.shname)) :=
  memcmpName_eq_ok.2 ⟨h, rfl⟩

theorem memcmpNames_total {sec : Sec} {ss : List Bytes}
    (h : ∀ s ∈ ss, s.length ≤ sec.shdr.nameRoom) : ∃ eq, memcmpNames sec ss = .ok eq := by
  induction ss with
  | nil => exact ⟨false, rfl⟩
  | cons s ss ih =>
    rw [memcmpNames, memcmpName_of_le (h s List.mem_cons_self), Fold.ok_bind]
    split
    · exact ⟨true, rfl⟩
    · exact ih fun s' hs' => h s' (List.mem_cons_of_mem _ hs')

section

variable {elf : Elf} {symbols : ElfData} (h : WellFormed elf symbols) {progname : Bytes}
  (hroom : NamesComparable elf progname)

include h hroom

theorem relocateSec_total (maps : List BpfMapData) {done : List ℕ} {r : Relocation}
    (hr : Changed elf done r) {i : ℕ} (hi : i ∈ secIdxs elf) :
    ∃ res, relocateSec elf symbols maps progname r i = .ok res := by
  have hlt := h.lt_maxSecs hi
  by_cases hproc : r.processedSec i = true
  · exact ⟨_, relocateSec_of_none hlt (.inl hproc)⟩
  rcases hrel : relocates elf i with _ | ⟨sec, prog⟩
  · exact ⟨_, relocateSec_of_none hlt (.inr hrel)⟩
  -- Earlier sections have kept the number of instructions, which bounds the entries.
  have hlen := congrArg List.length (hr sec.shdr.info).2.frame
  rw [List.length_map, List.length_map] at hlen
  obtain ⟨res, hparse⟩ := parseReloAndApply_total maps (h.entries i hi _ hrel) hlen
  have hprog := (relocates_eq_some.1 hrel).2.2.1
  have hname := memcmpName_of_le (hroom _ (lt_of_getSec hprog) _ hprog _ List.mem_cons_self)
  rw [relocateSec_of_relocates hlt (Bool.eq_false_of_not_eq_true hproc) hrel, hparse, Fold.ok_bind]
  dsimp only
  split
  · rw [hname]
    exact ⟨_, rfl⟩
  · exact ⟨_, rfl⟩

theorem relocateSecs_total (maps : List BpfMapData) {is done : List ℕ} (his : is ⊆ secIdxs elf)
    {r : Relocation} (hr : Changed elf done r) :
    ∃ res, relocateSecs elf symbols maps progname is r = .ok res := by
  induction is generalizing done r with
  | nil => exact ⟨_, rfl⟩
  | cons i is ih =>
    obtain ⟨⟨r₁, p?⟩, hstep⟩ := relocateSec_total h hroom maps hr (his List.mem_cons_self)
    rw [relocateSecs, hstep, Fold.ok_bind]
    split
    · exact ⟨_, rfl⟩
    · exact ih (fun j hj => his (List.mem_cons_of_mem _ hj)) (relocateSec_ok hr hstep).2.1

theorem findPrograms_total {processedSec : ℕ → Bool} {is : List ℕ} (his : is ⊆ secIdxs elf) :
    findPrograms elf processedSec is = .ok () := by
  induction is with
  | nil => rfl
  | cons i is ih =>
    have hrest := ih fun j hj => his (List.mem_cons_of_mem _ hj)
    rw [findPrograms, if_neg (not_le.2 (h.lt_maxSecs (his List.mem_cons_self)))]
    split
    · exact hrest
    split
    · exact hrest
    rename_i sec hsec
    obtain ⟨eq, hnames⟩ := memcmpNames_total fun s hs =>
      hroom i (lt_of_getSec hsec) sec hsec s (List.mem_cons_of_mem _ hs)
    rw [hnames, Fold.ok_bind]
    split
    · rfl
    · exact hrest

theorem findWithoutMaps_total (processedSec : ℕ → Bool) {is : List ℕ} (his : is ⊆ secIdxs elf) :
    ∃ p?, findWithoutMaps elf processedSec progname is = .ok p? := by
  induction is with
  | nil => exact ⟨_, rfl⟩
  | cons i is ih =>
    have hrest := ih fun j hj => his (List.mem_cons_of_mem _ hj)
    rw [findWithoutMaps, if_neg (not_le.2 (h.lt_maxSecs (his List.mem_cons_self)))]
    split
    · exact hrest
    split
    · exact hrest
    rename_i sec hsec
    rw [memcmpName_of_le (hroom i (lt_of_getSec hsec) sec hsec _ List.mem_cons_self), Fold.ok_bind]
    split
    · exact ⟨_, rfl⟩
    · exact hrest

/-- `get_prog` returns, whatever the program that it looks for, having loaded the maps. -/
theorem getProg_total {mapFd : ℤ} (hfd : 0 ≤ mapFd) :
    ∃ g scan maps, getProg elf mapFd progname = .ok g ∧ scanSecs elf = .ok scan ∧
      scan.symbols = some symbols ∧ getMaps elf mapFd scan symbols = .ok (some maps) ∧
      g.maps = maps := by
  obtain ⟨scan, hscan, hsymbols⟩ := scanSecs_total h
  obtain ⟨maps, hmaps, -, -⟩ := getMaps_total h hscan hfd
  obtain ⟨⟨r, p?⟩, hrun⟩ := relocateSecs_total h hroom (maps.getD [])
    (List.Subset.refl _) (Changed.start scan.mapsProcessed)
  have hfrom : getProg elf mapFd progname = relocateProg elf progname scan symbols maps := by
    rw [getProg, hscan]
    exact getProgFrom_of_maps hsymbols hmaps
  rw [hfrom, relocateProg, hrun, Fold.ok_bind]
  split
  · exact ⟨_, scan, maps, rfl, hscan, hsymbols, hmaps, rfl⟩
  · rw [findPrograms_total h hroom (List.Subset.refl _)]
    exact ⟨_, scan, maps, rfl, hscan, hsymbols, hmaps, rfl⟩

end

/-- The object of two maps is well-formed, whichever of its symbols the program refers to. -/
theorem wellFormed_twoMapElf {sym : ℕ} (h : sym < 4) :
    ∃ symbols, WellFormed (twoMapElf sym) symbols ∧ symbols.syms = twoMapSyms := by
  have hread : ∃ symbols data,
      ((secIdxs (twoMapElf sym)).filterMap (symtabData (twoMapElf sym))).getLast? = some symbols ∧
      (twoMapElf sym).secData 4 = some data ∧ symbols.syms = twoMapSyms ∧
      (0 < (mapsSyms symbols 4).length ∧ (mapsSyms symbols 4).length ≤ maxMaps ∧
        toInt (data.size / (mapsSyms symbols 4).length) = (28 : ℕ) ∧
        (∀ sym ∈ mapsSyms symbols 4, DefinitionFits data 28 sym) ∧
        ((secIdxs (twoMapElf sym)).filter (isMaps (twoMapElf sym))).getLast? = some 4 ∧
        ∀ i ∈ secIdxs (twoMapElf sym), ∀ r ∈ relocates (twoMapElf sym) i,
          Readable (twoMapElf sym) symbols r.1) := by
    interval_cases sym <;> exact ⟨_, _, rfl, rfl, rfl, by decide +kernel⟩
  obtain ⟨symbols, data, hsymtab, hdata, hsyms, hpos, hle, hsize, hfits, hmaps, hentries⟩ := hread
  have hinfo : ∀ i ∈ secIdxs (twoMapElf sym), ∀ sec ∈ getSec (twoMapElf sym) i,
      sec.shname ≠ cstr "license" ∧ sec.shname ≠ cstr "version" := by
    interval_cases sym <;> decide +kernel
  refine ⟨symbols, ⟨?_, ?_, ?_, hsymtab, ?_, hentries⟩, hsyms⟩
  · interval_cases sym <;> decide +kernel
  · exact fun i hi sec hsec hname => absurd hname (hinfo i hi sec hsec).1
  · exact fun i hi sec hsec hname => absurd hname (hinfo i hi sec hsec).2
  · rintro m hm
    obtain rfl := Option.some.inj (hmaps.symm.trans hm)
    exact ⟨data, 28, hdata, hpos, hle, hsize, hfits⟩

end BpfElfTools.OldExtractor
