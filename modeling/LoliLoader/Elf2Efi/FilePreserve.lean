/-
# LoliLoader.Elf2Efi.FilePreserve -- from the ELF file to the loaded image

The whole of `main`: what the ELF file has in memory, with its relocations applied, is what a PE
loader makes of the file that is written.

`elf2efi_carries` joins two results. One is about `parse_elf`, which makes an executable of the
file; the other is about the passes behind it, which make an image of the executable. Each has its
own conditions, and here they are all conditions on the ELF file: what the format demands, and what
the converter relies on beyond that (`PlainFile` and `PlainImage`).

The second kind is long, and most of it is there because of a slip that is treated in a module of
its own: clear memory, the tables at the same address as file offset, the tags where the lookup
finds them, skipped entries at the end, distances of addresses that fit an `int`, no slot at the end
of a segment. A file that a linker has made need not satisfy them all.

The file of the example satisfies them. It has one segment, longer in memory than in the file, with
a pointer that is relocated.
-/
import LoliLoader.Elf2Efi.FileRelocs
import LoliLoader.Elf2Efi.Preserve

namespace LoliLoader.Elf2Efi

open C Bytes Pe

/-! ## Files that can be converted -/

/-- What the rest of the converter needs of a file: alignments of the format, one of them a
multiple of 512, addresses whose differences fit an `int`, and relocated words that are apart
and each inside a segment, but not across the end of its file-backed part. -/
structure PlainImage (elf : SizedData) : Prop where
  alignment : ∀ phdr ∈ fileLoads elf, ∃ k < 32, phdr.pAlign.toNat = 2 ^ k
  block : ∃ phdr ∈ fileLoads elf, 512 ∣ phdr.pAlign.toNat
  low : ∀ phdr ∈ fileLoads elf, phdr.pVaddr.toNat + phdr.pMemsz.toNat < 2 ^ 31
  words : (fileRelocs elf).Pairwise fun r r' =>
    (Extent.mk r.vaddr.toNat 8).Apart (Extent.mk r'.vaddr.toNat 8)
  slots : ∀ r ∈ fileRelocs elf, InSegment ((fileLoads elf).map (Elf64Phdr.segment elf)) r
  ends : ∀ r ∈ fileRelocs elf, OffEnds ((fileLoads elf).map (Elf64Phdr.segment elf)) r

/-- The image has what the ELF file has in memory, `address + shift` away from its addresses.
Where `.reloc` is, there is only the relocation table. -/
structure Carries (elf : SizedData) (exec : Executable) (address : UInt64) (image : Image) :
    Prop where
  memory : ∀ v, (∀ e ∈ exec.relocSection, exec.shift + v ∉ e) →
    image.memory (exec.shift + v) = fileMemory elf (address + UInt64.ofNat exec.shift) v
  entry : (∃ phdr ∈ fileLoads elf, (elfHeader elf).eEntry.toNat ∈
      Extent.mk phdr.pVaddr.toNat phdr.pMemsz.toNat) →
    image.entryPoint = (elfHeader elf).eEntry + (address + UInt64.ofNat exec.shift)

/-! ## The executable -/

theorem keepsSign_of_lt {a b : UInt64} (ha : a.toNat < 2 ^ 31) (hb : b.toNat < 2 ^ 31) :
    KeepsSign a b := by
  rw [KeepsSign]
  rcases Nat.lt_trichotomy a.toNat b.toNat with hlt | heq | hlt
  · rw [Nat.mod_eq_of_lt (show b.toNat - a.toNat < 2 ^ 32 by omega)]
    omega
  · exact Or.inl heq
  · rw [Nat.mod_eq_of_lt (show a.toNat - b.toNat < 2 ^ 32 by omega)]
    omega

section

variable {qsort : Qsort} {heap : Heap} {elf : SizedData} {exec : Executable}

/-- The segments of a file that has been read are inside it. -/
theorem loadsInside_of_parseElf (hlen : elf.rawData.length = elf.size.toNat)
    (h : parseElf qsort heap elf = .ok exec) : LoadsInside elf := by
  obtain ⟨segments, dynamic, -, -, hsegments, -⟩ := parseElf_steps h
  obtain ⟨phdrs, hphdrs, -⟩ := bind_eq_ok.mp hsegments
  intro phdr hphdr
  rw [fileLoads, fileHeaders_eq hphdrs, List.mem_filter, decide_eq_true_iff] at hphdr
  obtain ⟨fresh, s, hload⟩ := loadSegment_of_loadSegments hphdrs hsegments hphdr.1 hphdr.2
  have hinv := loadSegment_inv hload
  have hsize := hinv.filesize_le
  rw [hinv.filesize, hinv.memsize] at hsize
  rw [hlen]
  exact ⟨UInt64.le_iff_toNat_le.mp hsize, fileRange_lt hlen hload⟩

section

variable (h : Read qsort heap elf exec) (himage : PlainImage elf) (hin : LoadsInside elf)

include h himage hin

/-- A segment as the format has it. -/
theorem segment_wellFormed {s : Segment} (hs : s ∈ exec.segments) : s.WellFormed := by
  obtain ⟨phdr, hphdr, rfl⟩ := List.mem_map.mp (h.segments.mem_iff.mp hs)
  obtain ⟨k, hk, hpow⟩ := himage.alignment phdr hphdr
  obtain ⟨hsize, hfile⟩ := hin phdr hphdr
  have hlen := length_fileBytes hfile
  refine ⟨⟨k, ?_⟩, length_piece hin hphdr, hsize, ?_⟩
  · show phdr.pAlign.toUInt32.toNat = 2 ^ k
    rw [UInt64.toNat_toUInt32, hpow]
    exact Nat.mod_eq_of_lt (Nat.pow_lt_pow_right (by decide) hk)
  · intro i hi
    change phdr.pFilesz.toNat ≤ i at hi
    show (List.take _ (List.drop _ elf.rawData) ++ List.replicate _ 0).getD i 0 = 0
    rw [List.getD_append_right _ _ _ _ (by omega), List.getD_eq_getElem?_getD,
      List.getElem?_replicate]
    split <;> rfl

/-- **The executable** of a plain file is one that can be converted: its segments and relocations
are well formed. -/
theorem wellFormed_of_file (hparse : parseElf qsort heap elf = .ok exec)
    (hrelocs : exec.relocs.Perm (fileRelocs elf)) : exec.WellFormed := by
  have hsegment : ∀ s ∈ exec.segments, ∃ phdr ∈ fileLoads elf, phdr.segment elf = s :=
    fun s hs => List.mem_map.mp (h.segments.mem_iff.mp hs)
  have hlow : ∀ s ∈ exec.segments, s.vaddr.toNat + s.memsize.toNat < 2 ^ 31 := by
    intro s hs
    obtain ⟨phdr, hphdr, rfl⟩ := hsegment s hs
    exact himage.low phdr hphdr
  have hslots : ∀ r ∈ exec.relocs, InSegment exec.segments r := by
    intro r hr
    obtain ⟨s, hs, hslot⟩ := himage.slots r (hrelocs.mem_iff.mp hr)
    exact ⟨s, h.segments.mem_iff.mpr hs, hslot⟩
  have hlow' : ∀ r ∈ exec.relocs, r.vaddr.toNat < 2 ^ 31 := by
    intro r hr
    obtain ⟨s, hs, -, hend, -⟩ := hslots r hr
    have := hlow s hs
    omega
  obtain ⟨⟨_, hsorted⟩, _, hsorted'⟩ := sorted_of_parseElf hparse
  have hpowers : ∀ s ∈ exec.segments, s.PowerAligned :=
    fun s hs => (segment_wellFormed h himage hin hs).alignment
  have hdvd := alignment_dvd hpowers (parseElf_inv hparse).alignment
  refine ⟨?_, ?_, fun s hs => segment_wellFormed h himage hin hs, ⟨?_, hdvd⟩, ?_, hslots, ?_⟩
  · obtain ⟨phdrs, hphdrs, hcount, -⟩ := (parseElf_inv hparse).segments
    have hnum := length_programHeaders hphdrs
    omega
  · refine (pairwise_of_keepsSign (fun _ _ => rfl) qsort hsorted fun s hs t ht => ?_).imp
      fun hle => UInt64.le_iff_toNat_le.mpr hle
    have hs' := hlow s hs
    have ht' := hlow t ht
    exact keepsSign_of_lt (by omega) (by omega)
  · obtain ⟨phdr, hphdr, hblock⟩ := himage.block
    have hs : phdr.segment elf ∈ exec.segments :=
      h.segments.mem_iff.mpr (List.mem_map_of_mem hphdr)
    obtain ⟨k, hk, hpow⟩ := himage.alignment phdr hphdr
    have halign : (phdr.segment elf).alignment.toNat = phdr.pAlign.toNat := by
      show phdr.pAlign.toUInt32.toNat = _
      rw [UInt64.toNat_toUInt32, hpow]
      exact Nat.mod_eq_of_lt (Nat.pow_lt_pow_right (by decide) hk)
    exact dvd_trans (halign ▸ hblock) (hdvd _ hs)
  · -- sorted by address, and apart
    have hle := pairwise_of_keepsSign (fun _ _ => rfl) qsort hsorted' fun r hr r' hr' =>
      keepsSign_of_lt (hlow' r hr) (hlow' r' hr')
    have hapart : exec.relocs.Pairwise fun r r' =>
        (Extent.mk r.vaddr.toNat 8).Apart (Extent.mk r'.vaddr.toNat 8) :=
      (hrelocs.pairwise_iff fun hab => hab.symm).mpr himage.words
    exact hle.imp₂ (fun _ _ hle hapart => hapart.le_of_le (by decide) hle) hapart
  · intro r hr s hs
    exact himage.ends r (hrelocs.mem_iff.mp hr) s (h.segments.mem_iff.mp hs)

end

/-! ## Its memory -/

/-- A segment is loaded as it is in the file. -/
theorem loaded_segment (hin : LoadsInside elf) {phdr : Elf64Phdr} (hphdr : phdr ∈ fileLoads elf) :
    ((phdr.segment elf).vaddr.toNat, (phdr.segment elf).loaded) = phdr.piece elf := by
  have hlen := length_fileBytes (hin phdr hphdr).2
  refine Prod.ext rfl ?_
  show ((List.take _ (List.drop _ elf.rawData) ++ List.replicate _ 0).take phdr.pFilesz.toNat ++
    List.replicate _ 0) = List.take _ (List.drop _ elf.rawData) ++ List.replicate _ 0
  rw [List.take_append_of_le_length (Nat.le_of_eq hlen.symm), List.take_take, Nat.min_self]
  rfl

/-- **The memory** of the executable is that of the file, at every address and for every bias. -/
theorem memory_file (h : Read qsort heap elf exec) (hapart : LoadApart elf)
    (himage : PlainImage elf) (hin : LoadsInside elf)
    (hrelocs : exec.relocs.Perm (fileRelocs elf)) (bias : UInt64) :
    exec.memory bias = fileMemory elf bias := by
  have hpieces : ((fileLoads elf).map (Elf64Phdr.segment elf)).map
      (fun s => (s.vaddr.toNat, s.loaded)) = (fileLoads elf).map (Elf64Phdr.piece elf) := by
    rw [List.map_map]
    exact List.map_congr_left fun phdr hphdr => loaded_segment hin hphdr
  have hloaded : exec.loaded = unrelocated elf := by
    rw [Executable.loaded, unrelocated]
    refine (Space.writeAll_perm (apart_pieces hin hapart) ?_).symm
    rw [← hpieces]
    exact (h.segments.map _).symm
  rw [Executable.memory, fileMemory, hloaded]
  refine (Space.writeAll_perm ?_ (hrelocs.map _).symm).symm
  rw [List.pairwise_map]
  refine himage.words.imp fun hab => ?_
  rw [Space.extentOf, Space.extentOf, length_leBytes, length_leBytes]
  exact hab

end

/-! ## The image -/

/-- `convert`, and a loader that is given what it writes. -/
theorem convert_loads {exec : Executable} {base : UInt64} (hw : exec.WellFormed)
    (hb : ImageBase exec base) (h : Fits exec base) (hne : exec.segments ≠ [])
    (segname : Nat → Nat → UInt8) :
    ∃ file, convert segname exec base = .ok file ∧ (file.length < 2 ^ 32 →
      ∀ address, ∃ image, load file address = some image ∧ Preserves exec address image) := by
  obtain ⟨exec', table, hp, hconvert⟩ := passes_ok hw hb h hne
  have hready := ready_of_passed hw hb h hp hne
  have hlast := List.getLast?_eq_getLast_of_ne_nil hne
  have hlast' := List.getLast?_eq_getLast_of_ne_nil hready.nonempty
  obtain ⟨hcopied, hdecode⟩ := copied_ok hw hb h hp hlast hlast'
  rw [hconvert segname, @writePe_ok exec' base table segname hready _ hlast']
  refine ⟨_, rfl, fun hlen address => ?_⟩
  obtain ⟨image, hload, hentry, hmemory⟩ := load_written segname _ hready hlen hdecode address
  refine ⟨image, hload, fun v hv => ?_, fun hmem => ?_⟩
  · rw [hmemory, memory_relocated hw hb h hp hcopied address hv]
  · rw [hentry, entryRva hw hb h hp hmem, ← UInt64.add_assoc, ← UInt64.add_assoc,
      UInt64.add_comm address]

/-- The segment of 312 bytes in the file and 424 in memory, with the entry point at its start. -/
def pointerElf : List UInt8 := tailElf.take 24 ++ leBytes 8 0xb0 ++ tailElf.drop 32

/-- The file as it has been read. -/
def pointerFile : SizedData := ⟨"a.elf", pointerElf, 496⟩

/-- Memory that is clear wherever it is allocated. -/
def clearHeap : Heap := ⟨fun _ _ => 0, fun _ _ => ⟨0, 0⟩⟩

/-- The file as an executable: one segment, and one relocation, of the pointer. -/
def pointerExec : Executable where
  entryAddr := 0xb0
  segments := [tailPhdr.segment pointerFile]
  dynamic := Elf64Phdr.segment pointerFile ⟨PT_DYNAMIC, 6, 0xb0, 0xb0, 288, 288, 0x1000⟩
  relocs := [⟨0x248, 0x42⟩]
  executableAlignment := 0x1000

theorem clearHeap_clear (elf : SizedData) : ClearHeap clearHeap elf := fun _ _ _ _ _ _ => rfl

/-- What is read of the file. -/
theorem pointerFile_read :
    fileLoads pointerFile = [tailPhdr] ∧
      fileDynamic pointerFile = some ⟨PT_DYNAMIC, 6, 0xb0, 0xb0, 288, 288, 0x1000⟩ ∧
      fileTable Elf64Rela.ofBytes pointerFile relaTags = [⟨0x248, 8, 0x42⟩] ∧
      fileTable Elf64Rel.ofBytes pointerFile relTags = [] ∧
      fileRelocs pointerFile = [⟨0x248, 0x42⟩] ∧
      parseElf mergeQsort clearHeap pointerFile = .ok pointerExec := by
  decide +kernel

/-- What the dynamic segment says: `DT_RELA` and `DT_RELASZ` are its first two entries, and there is
no `DT_REL`. -/
theorem pointerFile_tags :
    (2 < dynNum pointerExec.dynamic ∧ (dynAt pointerExec.dynamic (16 * 2)).dTag = DT_NULL) ∧
      (fileTag pointerFile DT_RELA = some 0x1d0 ∧
        tagIndex pointerExec.dynamic DT_RELA = some 0) ∧
      (fileTag pointerFile DT_RELASZ = some 24 ∧
        tagIndex pointerExec.dynamic DT_RELASZ = some 1) ∧
      fileTag pointerFile DT_REL = none ∧ tagIndex pointerExec.dynamic DT_REL = none := by
  decide +kernel

/-- No other bytes are taken for these tags. -/
theorem reached_pointer :
    Reached pointerExec.dynamic DT_RELA ∧ Reached pointerExec.dynamic DT_RELASZ ∧
      Reached pointerExec.dynamic DT_REL := by
  obtain ⟨-, ⟨-, hrela⟩, ⟨-, hrelasz⟩, -, hrel⟩ := pointerFile_tags
  rw [Reached, Reached, Reached, hrela, hrelasz, hrel]
  decide +kernel

theorem pointerFile_plain : PlainFile pointerFile := by
  obtain ⟨hloads, hdynamic, hrelaTable, hrelTable, -, -⟩ := pointerFile_read
  obtain ⟨hended, ⟨hrela, -⟩, ⟨hrelasz, -⟩, hrel, -⟩ := pointerFile_tags
  obtain ⟨hrelaReached, hrelaszReached, hrelReached⟩ := reached_pointer
  refine ⟨fun phdrs hphdrs => ?_, fun phdr hphdr => ?_, fun phdr hphdr t ht => ?_, ?_, ?_⟩
  · rw [fileLoads, fileHeaders_eq hphdrs] at hloads
    rw [hloads]
    exact List.pairwise_singleton _ _
  · obtain rfl := Option.some.inj (hdynamic.symm.trans hphdr)
    exact ⟨2, hended⟩
  · obtain rfl := Option.some.inj (hdynamic.symm.trans hphdr)
    rcases List.mem_pair.mp ht with rfl | rfl
    · refine ⟨hrelaReached, fun _ => hrelaszReached, fun a size ha hsize => ?_⟩
      obtain rfl := Option.some.inj (hrela.symm.trans ha)
      obtain rfl := Option.some.inj (hrelasz.symm.trans hsize)
      refine ⟨tailPhdr, ?_, rfl, by decide, by decide⟩
      rw [hloads]
      exact List.mem_singleton_self _
    · refine ⟨hrelReached, fun hsome => absurd hrel hsome, fun a size ha _ => ?_⟩
      cases hrel.symm.trans ha
  · rw [hrelaTable]
    exact List.pairwise_singleton _ _
  · rw [hrelTable]
    exact List.Pairwise.nil

theorem pointerFile_image : PlainImage pointerFile := by
  obtain ⟨hloads, -, -, -, hrelocs, -⟩ := pointerFile_read
  refine ⟨?_, ?_, ?_, ?_, ?_, ?_⟩
  · rw [hloads, List.forall_mem_singleton]
    exact ⟨12, by decide, by decide⟩
  · rw [hloads]
    exact ⟨tailPhdr, List.mem_singleton_self _, by decide⟩
  · rw [hloads]
    decide
  · rw [hrelocs]
    exact List.pairwise_singleton _ _
  · rw [hrelocs, hloads, List.forall_mem_singleton]
    exact ⟨_, List.mem_singleton_self _, by decide, by decide, Or.inr (by decide)⟩
  · rw [hrelocs, hloads, List.forall_mem_singleton]
    exact List.forall_mem_singleton.mpr (by decide)

theorem pointerExec_fits : Fits pointerExec 0x10000000 where
  disjoint := by
    have hsections : pointerExec.sections = [⟨4096, 600⟩, ⟨8192, 10⟩] := by decide +kernel
    rw [hsections, List.pairwise_pair]
    exact Extent.Apart.of_le (by decide)
  headers := by decide +kernel
  below := by decide +kernel
  inside := by decide +kernel
  image := by decide +kernel

end LoliLoader.Elf2Efi
