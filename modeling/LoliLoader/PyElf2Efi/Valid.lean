/-
# LoliLoader.PyElf2Efi.Valid -- the file is well formed

What the PE format asks of a file that `elf2efi.py` writes, read back from the bytes of the file and
not from what the script meant to write: where the sections are in memory and in the file, which
rights they have, and what the base relocation table says.

Each result is about every file the script writes. They share the conditions of `elf2efi_wrote`,
that the ELF file is a 64-bit one, that the image has addresses of no more than 32 bits, and that
the words which are relocated are apart and in sections that are kept. Where the addresses did not
fit, the `c_uint32` fields would wrap, and nothing of this would hold.

The rights are said in terms of the flags of the ELF sections and of `PT_GNU_RELRO` (`HasRights`),
not by what the script computes from them. They differ from those of the ELF file in two ways that
are meant: what is read-only once it is relocated is so from the start, and nothing is writable and
executable.
-/
import LoliLoader.PyElf2Efi.Preserve

namespace LoliLoader.PyElf2Efi

open Bytes Pe

/-! ## Rights -/

/-- `Characteristics` of a section of a file, by its place in the section table. -/
def sectionCharacteristics (file : List UInt8) (i : Nat) : Option UInt32 := do
  let pe ← word file 60 4
  let sizeOfOptionalHeader ← word file (pe + 20) 2
  let characteristics ← word file (pe + 24 + sizeOfOptionalHeader + 40 * i + 36) 4
  return UInt32.ofNat characteristics

section

variable {coff : PeCoffHeader} {opt : PeOptionalHeader} {sections : List PeSection}
  {file : List UInt8}

theorem length_flatten_headers (sections : List PeSection) :
    (sections.map PeSection.header).flatten.length = 40 * sections.length := by
  have hall : List.Forall₂ IsHeader (sections.map PeSection.header)
      (sections.map PeSection.toSection) := by
    rw [List.forall₂_map_left_iff, List.forall₂_map_right_iff, List.forall₂_same]
    exact fun s _ => isHeader_header s
  rw [length_headers hall, List.length_map]

/-- The rights read back. -/
theorem sectionCharacteristics_written (h : Agrees coff opt sections)
    (hfile : file = frontOf coff opt sections ++ (sections.map PeSection.raw).flatten) {i : Nat}
    {p : PeSection} (hp : sections[i]? = some p) :
    sectionCharacteristics file i = some p.characteristics := by
  obtain ⟨hi, rfl⟩ := List.getElem?_eq_some_iff.mp hp
  have hlen := length_placeAll opt.sizeOfHeaders.toNat sections
  generalize hplaced : placeAll opt.sizeOfHeaders.toNat sections = placed at hlen
  have hi' : i < placed.length := by omega
  have hsame : placed[i].characteristics = sections[i].characteristics := by
    have hmap := map_placeAll (f := PeSection.characteristics) (fun _ _ => rfl)
      opt.sizeOfHeaders.toNat sections
    rw [hplaced] at hmap
    have hget := congrArg (fun l => l[i]?) hmap
    simpa [hi, hi'] using hget
  -- the fields of the header, behind all in front of them
  have hsplit : (placed.map PeSection.header).flatten
      = ((placed.take i).map PeSection.header).flatten ++ (placed[i].header ++
        ((placed.drop (i + 1)).map PeSection.header).flatten) := by
    conv_lhs => rw [← List.take_append_drop i placed, ← List.getElem_cons_drop hi']
    rw [List.map_append, List.flatten_append, List.map_cons, List.flatten_cons]
  obtain ⟨rest, hrest⟩ : ∃ rest, file = (record (headFields coff opt) ++
      ((placed.take i).map PeSection.header).flatten ++
      (padTo 8 placed[i].name).take 8) ++ (record placed[i].fields ++ rest) := by
    rw [hfile, frontOf, hplaced, hsplit, padTo, PeSection.header]
    simp only [List.append_assoc]
    exact ⟨_, rfl⟩
  obtain ⟨restHead, hrestHead⟩ : ∃ rest, file = record (outerFields coff opt) ++ rest := by
    rw [hrest, headFields_elf64 h.elfclass, record_append, record_append]
    simp only [List.append_assoc]
    exact ⟨_, rfl⟩
  obtain ⟨-, hpe, -, -, hopt, -⟩ := word_outerFields coff opt restHead
  rw [← hrestHead, h.optionalHeader] at hopt
  rw [← hrestHead] at hpe
  change word file 84 2 = some 240 at hopt
  have hword : word file (328 + 40 * i + 36) 4 = some sections[i].characteristics.toNat := by
    rw [hrest, ← hsame]
    refine word_field (k := 8) rfl (UInt32.toNat_lt _) ?_
    rw [List.length_append, List.length_append, length_headFields h.elfclass,
      length_flatten_headers, List.length_take, length_name]
    show _ + 28 = _
    omega
  simp only [sectionCharacteristics, hpe, hopt, hword, Option.bind_eq_bind, Option.bind_some,
    Nat.reduceAdd, Option.pure_def, UInt32.ofNat_toNat]

end

/-! ## The file -/

section

variable {elf : ElfFile} {args : Args} (hclass : elf.elfclass = .elf64) (hfits : Fits elf args)
  (hrel : Relocatable elf) (hash : UInt32) (timeDateStamp : Int)

include hclass hfits hrel

/-- **In memory** the sections stand on pages of their own, of 4096 bytes, in order, behind the
headers and in the image. -/
theorem elf2efi_layout : ∀ file, elf2efi args hash timeDateStamp elf = .ok file →
    HasValidLayout file ∧ Pe.sectionAlignment file = some 4096 ∧
      ∃ headers n, readHeaders file = some headers ∧ Pe.sizeOfHeaders file = some n ∧
        ∀ s ∈ headers.sections, n ≤ s.virtualAddress := by
  intro file hok
  obtain ⟨coff, opt, sections, peRelocS, shift, h⟩ := elf2efi_wrote hclass hfits hrel hok
  obtain ⟨hheaders, halignment, hsize, -⟩ := readHeaders_written h.agrees h.bytes
  have hextents : (tableOf opt sections).map Section.extent
      = sections.map fun s => ⟨s.start, s.data.length⟩ := by
    have hmap : (placeAll opt.sizeOfHeaders.toNat sections).map (fun p => p.toSection.extent)
        = sections.map fun p => p.toSection.extent := map_placeAll (fun _ _ => rfl) _ _
    rw [tableOf, List.map_map]
    refine hmap.trans (List.map_congr_left fun s hs => ?_)
    show Extent.mk s.start s.virtualSize.toNat = _
    rw [(h.prepared.arranged.exact s hs).virtualSize]
  obtain ⟨hdvd, hbehind, -⟩ := h.prepared.arranged.next h.image
  refine ⟨⟨_, _, hheaders, halignment, ?_⟩, h.alignment ▸ halignment, _, _, hheaders, hsize,
    fun t ht => ?_⟩
  · rw [hextents, h.alignment]
    refine ⟨?_, ?_, ?_, hdvd, ?_⟩
    · rw [List.pairwise_map]
      exact h.prepared.arranged.ascending.imp fun hle => le_trans (Nat.le_add_right _ _) hle
    · rw [List.pairwise_map]
      exact h.prepared.arranged.ascending.imp fun hle => Extent.Apart.of_le hle
    · intro e he
      obtain ⟨s, hs, rfl⟩ := List.mem_map.mp he
      exact (h.prepared.arranged.exact s hs).aligned
    · intro e he
      obtain ⟨s, hs, rfl⟩ := List.mem_map.mp he
      exact hbehind s hs
  · obtain ⟨p, hp, rfl⟩ := List.mem_map.mp ht
    have hstarts : (placeAll opt.sizeOfHeaders.toNat sections).map PeSection.start
        = sections.map PeSection.start := map_placeAll (fun _ _ => rfl) _ _
    have hmem := List.mem_map_of_mem (f := PeSection.start) hp
    rw [hstarts] at hmem
    obtain ⟨s, hs, hstart⟩ := List.mem_map.mp hmem
    show opt.sizeOfHeaders.toNat ≤ p.start
    rw [← hstart]
    exact h.prepared.first s hs

/-- **In the file** the raw data stand one behind the other, padded to 512 bytes, and the headers
have room for the section table. -/
theorem elf2efi_rawData : ∀ file, elf2efi args hash timeDateStamp elf = .ok file →
    ∃ headers n data, readHeaders file = some headers ∧ Pe.sizeOfHeaders file = some n ∧
      Pe.numberOfSections file = some headers.sections.length ∧
      328 + 40 * headers.sections.length ≤ n ∧
      List.Forall₂ (fun s bytes => sectionData file s = some bytes) headers.sections data ∧
      ValidRawData file n 512 headers.sections data := by
  intro file hok
  obtain ⟨coff, opt, sections, peRelocS, shift, h⟩ := elf2efi_wrote hclass hfits hrel hok
  obtain ⟨hheaders, -, hsize, hcount⟩ := readHeaders_written h.agrees h.bytes
  have hlen : (tableOf opt sections).length = sections.length := by
    rw [tableOf, List.length_map, length_placeAll]
  have hdvd : 512 ∣ (frontOf coff opt sections).length := h.front.symm ▸ h.agrees.headers
  refine ⟨_, _, sections.map PeSection.data, hheaders, hsize, ?_, ?_, ?_, ?_⟩
  · rw [hcount, hlen]
  · have hroom := h.prepared.room
    rw [hlen]
    omega
  · have hdata := sectionData_placeAll h.agrees.arranged.exact hdvd
      (h.front.symm ▸ h.agrees.ends) h.bytes
    rw [h.front] at hdata
    have hsame : (placeAll opt.sizeOfHeaders.toNat sections).map PeSection.data
        = sections.map PeSection.data := map_placeAll (fun _ _ => rfl) _ _
    rw [tableOf, ← hsame, List.forall₂_map_left_iff, List.forall₂_map_right_iff, List.forall₂_same]
    exact hdata
  · have hplaced := placed_placeAll h.agrees.arranged.exact hdvd (h.front.symm ▸ h.agrees.ends)
    rw [tableOf, ← h.front]
    refine hplaced.valid h.bytes hdvd (fun b hb => ?_) ?_
    · obtain ⟨s, -, rfl⟩ := List.mem_map.mp hb
      rw [length_raw]
      exact (roundedUp_file _).dvd
    · rw [List.forall₂_map_left_iff, List.forall₂_map_right_iff, List.forall₂_same]
      intro s _
      rw [Pads, length_raw]
      exact ⟨(roundedUp_file _).le, rfl⟩

/-- **The rights** of every section of the ELF file that is kept are those of the section of the
image that has it, and no section of the image, `.reloc` and the copied ones included, is writable
and executable. -/
theorem elf2efi_rights : ∀ file, elf2efi args hash timeDateStamp elf = .ok file →
    ∃ shift headers, readHeaders file = some headers ∧
      headers.addressOfEntryPoint = (elf.eEntry + shift) % 2 ^ 32 ∧
      (∀ s ∈ elf.copied, ∃ i t rights, headers.sections[i]? = some t ∧
        sectionCharacteristics file i = some rights ∧ t.virtualAddress ≤ shift + s.shAddr ∧
        shift + s.stop ≤ t.virtualAddress + t.virtualSize ∧ HasRights elf s rights) ∧
      ∀ i < headers.sections.length, ∃ rights, sectionCharacteristics file i = some rights ∧
        Guarded rights := by
  intro file hok
  obtain ⟨coff, opt, sections, peRelocS, shift, h⟩ := elf2efi_wrote hclass hfits hrel hok
  obtain ⟨hheaders, -⟩ := readHeaders_written h.agrees h.bytes
  have hlen : (tableOf opt sections).length = sections.length := by
    rw [tableOf, List.length_map, length_placeAll]
  refine ⟨shift, _, hheaders, ?_, fun s hs => ?_, fun i hi => ?_⟩
  · show opt.addressOfEntryPoint.toNat = _
    rw [h.prepared.entry, UInt32.toNat_ofNat']
  · obtain ⟨p, hp, hstart, hstop, hrights⟩ := h.prepared.covered s hs
    obtain ⟨i, hi, rfl⟩ := List.mem_iff_getElem.mp hp
    have hget : sections[i]? = some sections[i] := List.getElem?_eq_getElem hi
    have hi' : i < (tableOf opt sections).length := by rw [hlen]; exact hi
    have hplace : ((tableOf opt sections)[i].virtualAddress, (tableOf opt sections)[i].virtualSize)
        = (sections[i].start, sections[i].virtualSize.toNat) := by
      have hmap : (tableOf opt sections).map (fun t => (t.virtualAddress, t.virtualSize))
          = sections.map fun s => (s.start, s.virtualSize.toNat) := by
        rw [tableOf, List.map_map]
        exact map_placeAll (fun _ _ => rfl) _ _
      have hget' := congrArg (fun l => l[i]?) hmap
      simpa [hi, hi'] using hget'
    obtain ⟨haddress, hsize⟩ := Prod.mk.inj hplace
    refine ⟨i, _, _, List.getElem?_eq_getElem hi', sectionCharacteristics_written h.agrees h.bytes
      hget, ?_, ?_, hrights⟩
    · rw [haddress]
      exact hstart
    · rw [haddress, hsize, (h.prepared.arranged.exact _ hp).virtualSize]
      exact hstop
  · have hi' : i < sections.length := by
      rw [← hlen]
      exact hi
    exact ⟨_, sectionCharacteristics_written h.agrees h.bytes (List.getElem?_eq_getElem hi'),
      h.prepared.guarded _ (List.getElem_mem hi')⟩

/-- **The relocation table**, in whatever order the ELF file has its relocations: its blocks are
whole words long, each is about a page, the pages are in order, and the places are those of the
words that are relocated, in order. -/
theorem elf2efi_relocTable : ∀ file, elf2efi args hash timeDateStamp elf = .ok file →
    ∃ shift headers memory blocks, readHeaders file = some headers ∧
      headers.addressOfEntryPoint = (elf.eEntry + shift) % 2 ^ 32 ∧
      headers.sections.foldlM (Pe.copySection file) Space.zero = some memory ∧
      walk (memory.read headers.relocRva headers.relocSize) = some blocks ∧
      (∀ b ∈ blocks, 4 ∣ b.size ∧ 4096 ∣ b.page) ∧
      blocks.Pairwise (fun b c => b.page < c.page) ∧
      decode (memory.read headers.relocRva headers.relocSize) = some (placesOf elf shift) := by
  intro file hok
  obtain ⟨coff, opt, sections, peRelocS, shift, h⟩ := elf2efi_wrote hclass hfits hrel hok
  obtain ⟨hheaders, -⟩ := readHeaders_written h.agrees h.bytes
  obtain ⟨blocks, hwalk, hblocks, hpages, hdecode⟩ := h.directory
  refine ⟨shift, _, _, blocks, hheaders, ?_, copied_written h.agrees h.bytes h.front, hwalk,
    hblocks, hpages, hdecode⟩
  show opt.addressOfEntryPoint.toNat = _
  rw [h.prepared.entry, UInt32.toNat_ofNat']

end

theorem smallPie_layout : ∃ file, elf2efi smallArgs 0x12345678 0 smallPie = .ok file ∧
    HasValidLayout file := by
  obtain ⟨file, hfile⟩ := smallPie_accepted
  exact ⟨file, hfile,
    (elf2efi_layout rfl smallPie_fits smallPie_relocatable 0x12345678 0 file hfile).1⟩

theorem smallPie_rawData : ∃ file headers n data,
    elf2efi smallArgs 0x12345678 0 smallPie = .ok file ∧ readHeaders file = some headers ∧
      ValidRawData file n 512 headers.sections data := by
  obtain ⟨file, hfile⟩ := smallPie_accepted
  obtain ⟨headers, n, data, hheaders, -, -, -, -, hvalid⟩ :=
    elf2efi_rawData rfl smallPie_fits smallPie_relocatable 0x12345678 0 file hfile
  exact ⟨file, headers, n, data, hfile, hheaders, hvalid⟩

/-- The code of the executable can be executed and not be written. -/
theorem smallPie_rights : ∃ file headers i rights,
    elf2efi smallArgs 0x12345678 0 smallPie = .ok file ∧ readHeaders file = some headers ∧
      sectionCharacteristics file i = some rights ∧ rights &&& 0x20000000 ≠ 0 ∧
      ¬ rights &&& 0x80000000 ≠ 0 ∧
      ∀ i < headers.sections.length, ∃ rights, sectionCharacteristics file i = some rights ∧
        Guarded rights := by
  obtain ⟨file, hfile⟩ := smallPie_accepted
  obtain ⟨shift, headers, hheaders, -, hcovered, hguarded⟩ :=
    elf2efi_rights rfl smallPie_fits smallPie_relocatable 0x12345678 0 file hfile
  obtain ⟨i, t, rights, -, hrights, -, -, hhas⟩ :=
    hcovered ⟨".text", .progbits, 6, 0x1000, 16, 16, List.replicate 16 0x90⟩ (by decide +kernel)
  have hnone : ¬ InRelro smallPie
      ⟨".text", .progbits, 6, 0x1000, 16, 16, List.replicate 16 0x90⟩ := by
    rintro ⟨g, -, hin⟩
    cases hin
  refine ⟨file, headers, i, rights, hfile, hheaders, hrights, hhas.execute.mpr ⟨by decide, hnone⟩,
    fun hwrite => ?_, hguarded⟩
  exact absurd (hhas.write.mp hwrite).2.1 (by decide)

theorem smallPie_relocTable : ∃ file shift headers memory,
    elf2efi smallArgs 0x12345678 0 smallPie = .ok file ∧ readHeaders file = some headers ∧
      headers.sections.foldlM (Pe.copySection file) Space.zero = some memory ∧
      decode (memory.read headers.relocRva headers.relocSize)
        = some (placesOf smallPie shift) := by
  obtain ⟨file, hfile⟩ := smallPie_accepted
  obtain ⟨shift, headers, memory, -, hheaders, -, hcopy, -, -, -, hdecode⟩ :=
    elf2efi_relocTable rfl smallPie_fits smallPie_relocatable 0x12345678 0 file hfile
  exact ⟨file, shift, headers, memory, hfile, hheaders, hcopy, hdecode⟩

end LoliLoader.PyElf2Efi
