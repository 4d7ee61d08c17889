/-
# LoliLoader.Elf2Efi.ReadBack -- a loader reads the written file

What a PE loader has in memory once it has copied the sections of a file from `write_pe`, before it
looks at the relocations.

The pieces that are copied are the raw data of the segments and the relocation table. Each goes to
the address of its section; they are apart, so the order does not matter, and what is in none of
them is zero. A section is copied up to its virtual size, which can be less than its raw data, since
those are padded.

`readHeaders_written` and `copySections_written` come from the specification of `write_pe`, and
`load_written` puts them together. The image is given as a list of pieces that are stored in a fresh
memory, which is the form in which relocations can be applied to it.
-/
import LoliLoader.Elf2Efi.WriteSpec

namespace LoliLoader.Elf2Efi

open C Bytes Pe

section

variable {exec : Executable} {base : UInt64} {table : SizedData}
  (segname : Nat → Nat → UInt8) (last : Segment)

/-- `sizeOfHeaders` in `write_pe`. -/
theorem Ready.sizeOfHeaders32 (h : Ready exec base table) :
    (align (peImageHeaderSize (peSectionNum exec)) 512).toUInt32.toNat
      = (align (peImageHeaderSize (peSectionNum exec)) 512).toNat := by
  obtain ⟨-, hnum⟩ := h.peSectionNum_toNat
  have hle := le_roundUp (328 + 40 * (peSectionNum exec).toNat) (show 0 < 512 by decide)
  rw [UInt64.toNat_toUInt32, h.headerSizes.2]
  exact Nat.mod_eq_of_lt (by omega)

theorem length_layouts (h : Ready exec base table) :
    (layoutPeFile exec (align (peImageHeaderSize (peSectionNum exec)) 512) table 512).1.length
      = exec.segments.length :=
  (layoutSegments_ok h.writable _).1

theorem name_sectionTable {relocVaddr : UInt64} {layouts : List FileLayout × FileLayout}
    {header : Pe32SectionHeader}
    (hmem : header ∈ sectionTable segname exec base relocVaddr table layouts) :
    header.name.length = 8 := by
  unfold sectionTable at hmem
  rcases List.mem_append.mp hmem with hmem | hmem
  · obtain ⟨i, hi, rfl⟩ := List.mem_mapIdx.mp hmem
    exact length_sectionName _ _
  · split at hmem
    · rw [List.mem_singleton.mp hmem]
      rfl
    · cases hmem

theorem length_sectionTable (h : Ready exec base table) (relocVaddr : UInt64) :
    (sectionTable segname exec base relocVaddr table
        (layoutPeFile exec (align (peImageHeaderSize (peSectionNum exec)) 512) table 512)).length
      = (peSectionNum exec).toNat := by
  rw [h.peSectionNum_toNat.1, sectionTable, List.length_append, List.length_mapIdx,
    List.length_zip, length_layouts h, Nat.min_self]
  split <;> rfl

theorem length_flatMap_bytes {hs : List Pe32SectionHeader}
    (hname : ∀ h ∈ hs, h.name.length = 8) :
    (hs.flatMap Pe32SectionHeader.bytes).length = 40 * hs.length := by
  induction hs with
  | nil => rfl
  | cons h hs ih =>
      rw [List.flatMap_cons, List.length_append, List.length_cons,
        ih fun g hg => hname g (List.mem_cons_of_mem h hg),
        length_headerBytes (hname h List.mem_cons_self)]
      omega

/-- The raw data start behind `sizeOfHeaders` bytes. -/
theorem length_front (h : Ready exec base table) :
    (front segname exec base last table).length
      = (align (peImageHeaderSize (peSectionNum exec)) 512).toNat := by
  obtain ⟨hsize, hround⟩ := h.headerSizes
  have hle := le_roundUp (328 + 40 * (peSectionNum exec).toNat) (show 0 < 512 by decide)
  have hpad : (align (peImageHeaderSize (peSectionNum exec)) 512
      - peImageHeaderSize (peSectionNum exec)).toNat
      = (align (peImageHeaderSize (peSectionNum exec)) 512).toNat
        - (peImageHeaderSize (peSectionNum exec)).toNat := by
    apply UInt64.toNat_sub_of_le
    rw [UInt64.le_iff_toNat_le, hsize, hround]
    exact hle.1
  rw [front, List.length_append, List.length_append, List.length_replicate, length_peHeaders,
    length_flatMap_bytes fun _ hmem => name_sectionTable segname hmem,
    length_sectionTable segname h, hpad, hsize, hround]
  omega

/-- The RVA of a segment. -/
theorem Ready.rva_toNat (h : Ready exec base table) {s : Segment} (hs : s ∈ exec.segments) :
    (s.vaddr - base).toUInt32.toNat = s.vaddr.toNat - base.toNat := by
  obtain ⟨hle, -, hlt⟩ := h.place s hs
  rw [UInt64.toNat_toUInt32, UInt64.toNat_sub_of_le _ _ (UInt64.le_iff_toNat_le.mpr hle)]
  exact Nat.mod_eq_of_lt (by omega)

/-- The pieces of the image that a loader copies from the file. -/
def pieces (exec : Executable) (base : UInt64) (last : Segment) (table : SizedData) :
    List (Nat × List UInt8) :=
  exec.segments.map (fun s => (s.vaddr.toNat - base.toNat, s.raw.take s.memsize.toNat)) ++
    if hasPeReloc exec then
      [((relocVaddrOf exec last - base).toUInt32.toNat, table.rawData)]
    else []

/-- The data of the segments' sections. -/
theorem sectionData_segments (h : Ready exec base table)
    (hfile : (front segname exec base last table ++
      (exec.segments.flatMap Segment.raw ++ relocRaw exec table)).length < 2 ^ 32) :
    ∀ p ∈ (exec.segments.zip (layoutPeFile exec
        (align (peImageHeaderSize (peSectionNum exec)) 512) table 512).1).zipIdx,
      sectionData (front segname exec base last table ++
          (exec.segments.flatMap Segment.raw ++ relocRaw exec table))
          (segmentHeader (segname p.2) base p.2 p.1.1 p.1.2).section
        = some (p.1.1.raw.take p.1.1.memsize.toNat) := by
  obtain ⟨-, -, hlayout⟩ := layoutSegments_ok h.writable
    (align (peImageHeaderSize (peSectionNum exec)) 512).toUInt32
  rw [List.length_append, List.length_append, length_front segname last h] at hfile
  rw [h.sizeOfHeaders32] at hlayout
  obtain ⟨-, hslice⟩ := hlayout (by omega)
  intro p hp
  have hzip := List.fst_mem_of_mem_zipIdx hp
  obtain ⟨hsize, hraw⟩ := hslice (front segname exec base last table) (relocRaw exec table)
    (length_front segname last h) p.1 hzip
  have hs : p.1.1 ∈ exec.segments := (List.of_mem_zip hzip).1
  obtain ⟨-, -, hmem⟩ := h.place _ hs
  exact sectionData_segment (h.writable _ hs) (by omega) hsize hraw

/-- The data of the `.reloc` section. -/
theorem sectionData_reloc (h : Ready exec base table) (hreloc : hasPeReloc exec = true)
    (hfile : (front segname exec base last table ++
      (exec.segments.flatMap Segment.raw ++ relocRaw exec table)).length < 2 ^ 32)
    (rva : UInt64) :
    sectionData (front segname exec base last table ++
        (exec.segments.flatMap Segment.raw ++ relocRaw exec table))
        (relocHeader rva table (layoutPeFile exec
          (align (peImageHeaderSize (peSectionNum exec)) 512) table 512).2).section
      = some table.rawData := by
  obtain ⟨-, -, hlayout⟩ := layoutSegments_ok h.writable
    (align (peImageHeaderSize (peSectionNum exec)) 512).toUInt32
  have hlen := hfile
  rw [List.length_append, List.length_append, length_front segname last h] at hlen
  rw [h.sizeOfHeaders32] at hlayout
  obtain ⟨hoffset, -⟩ := hlayout (by omega)
  obtain ⟨htable, hfits⟩ := h.table
  have hround := le_roundUp table.size.toNat (show 0 < 512 by decide)
  have hsize : (align table.size 512).toUInt32.toNat = (relocRaw exec table).length := by
    rw [rawSize_toNat hfits, relocRaw, if_pos hreloc, List.length_append, List.length_take,
      List.length_replicate]
    omega
  have hslice := slice_append (front segname exec base last table ++
    exec.segments.flatMap Segment.raw) (relocRaw exec table) []
  rw [List.append_nil, List.length_append, length_front segname last h, ← hoffset, ← hsize,
    List.append_assoc] at hslice
  have hread : slice (front segname exec base last table ++
        (exec.segments.flatMap Segment.raw ++ relocRaw exec table))
      (relocHeader rva table (layoutPeFile exec
          (align (peImageHeaderSize (peSectionNum exec)) 512) table 512).2).section.pointerToRawData
      (relocHeader rva table (layoutPeFile exec
          (align (peImageHeaderSize (peSectionNum exec)) 512) table 512).2).section.sizeOfRawData
      = some (relocRaw exec table) := hslice
  have hvirtual : table.size.toUInt32.toNat = table.size.toNat := by
    rw [UInt64.toNat_toUInt32]
    exact Nat.mod_eq_of_lt (by omega)
  rw [sectionData, hread]
  show some ((relocRaw exec table).take table.size.toUInt32.toNat) = _
  rw [hvirtual, relocRaw, if_pos hreloc, htable, List.take_length, List.take_left]

/-- **The sections** are copied as they were meant: afterwards the memory is that of the pieces, and
zero elsewhere. -/
theorem copySections_written (h : Ready exec base table)
    (hfile : (front segname exec base last table ++
      (exec.segments.flatMap Segment.raw ++ relocRaw exec table)).length < 2 ^ 32) :
    ((sectionTable segname exec base (relocVaddrOf exec last) table
        (layoutPeFile exec (align (peImageHeaderSize (peSectionNum exec)) 512) table 512)).map
          Pe32SectionHeader.section).foldlM
        (copySection (front segname exec base last table ++
          (exec.segments.flatMap Segment.raw ++ relocRaw exec table))) Space.zero
      = some (Space.zero.writeAll (pieces exec base last table)) := by
  -- first the sections of the segments, then `.reloc`
  have hcopied := copySections_eq (m := Space.zero)
    (sectionData_segments segname last h hfile)
  have hfst : ((exec.segments.zip (layoutPeFile exec
      (align (peImageHeaderSize (peSectionNum exec)) 512) table 512).1).zipIdx.map Prod.fst).map
        Prod.fst = exec.segments := by
    rw [List.zipIdx_map_fst]
    exact List.map_fst_zip (le_of_eq (length_layouts h).symm)
  have hpieces : (exec.segments.zip (layoutPeFile exec
      (align (peImageHeaderSize (peSectionNum exec)) 512) table 512).1).zipIdx.map (fun p =>
        ((segmentHeader (segname p.2) base p.2 p.1.1 p.1.2).section.virtualAddress,
          p.1.1.raw.take p.1.1.memsize.toNat))
      = exec.segments.map
          (fun s => (s.vaddr.toNat - base.toNat, s.raw.take s.memsize.toNat)) := by
    conv_rhs => rw [← hfst]
    rw [List.map_map, List.map_map]
    refine List.map_congr_left fun p hp => ?_
    have hs : p.1.1 ∈ exec.segments := (List.of_mem_zip (List.fst_mem_of_mem_zipIdx hp)).1
    have hrva := h.rva_toNat hs
    exact Prod.ext hrva rfl
  have hheaders : ((exec.segments.zip (layoutPeFile exec
      (align (peImageHeaderSize (peSectionNum exec)) 512) table 512).1).mapIdx fun i s =>
        segmentHeader (segname i) base i s.1 s.2).map Pe32SectionHeader.section
      = (exec.segments.zip (layoutPeFile exec
          (align (peImageHeaderSize (peSectionNum exec)) 512) table 512).1).zipIdx.map fun p =>
            (segmentHeader (segname p.2) base p.2 p.1.1 p.1.2).section := by
    rw [List.mapIdx_eq_zipIdx_map, List.map_map]
    rfl
  rw [hpieces] at hcopied
  rw [sectionTable, List.map_append, List.foldlM_append, hheaders, hcopied, pieces,
    Space.writeAll_append]
  by_cases hreloc : hasPeReloc exec = true
  · rw [if_pos hreloc, if_pos hreloc]
    show (copySection _ _ _ >>= _) = _
    rw [copySection, sectionData_reloc segname last h hreloc hfile]
    rfl
  · rw [if_neg hreloc, if_neg hreloc]
    rfl

/-- **The headers** of the file say what was meant by them, whatever raw data follow. -/
theorem readHeaders_written (h : Ready exec base table) (raws : List UInt8) :
    ∃ headers, readHeaders (front segname exec base last table ++ raws) = some headers ∧
      headers.addressOfEntryPoint = (exec.entryAddr - base).toUInt32.toNat ∧
      headers.imageBase = base.toNat ∧
      headers.relocRva = (relocDirectory exec base (relocVaddrOf exec last) table).1.toNat ∧
      headers.relocSize = (relocDirectory exec base (relocVaddrOf exec last) table).2.toNat ∧
      headers.sections = (sectionTable segname exec base (relocVaddrOf exec last) table
        (layoutPeFile exec (align (peImageHeaderSize (peSectionNum exec)) 512) table 512)).map
          Pe32SectionHeader.section := by
  have hnum : (peSectionNum exec).toUInt16.toNat = (peSectionNum exec).toNat := by
    rw [UInt64.toNat_toUInt16]
    exact Nat.mod_eq_of_lt h.peSectionNum_toNat.2
  rw [front, List.append_assoc, List.append_assoc]
  have hsections := readSections_flatMap
    (fun _ hmem => @name_sectionTable exec base table segname (relocVaddrOf exec last)
      (layoutPeFile exec (align (peImageHeaderSize (peSectionNum exec)) 512) table 512) _ hmem)
    (record (peHeaders exec base (relocVaddrOf exec last)
      (align (relocVaddrOf exec last + table.size - base) exec.executableAlignment.toUInt64)
      (align (peImageHeaderSize (peSectionNum exec)) 512) table))
    (List.replicate (align (peImageHeaderSize (peSectionNum exec)) 512
      - peImageHeaderSize (peSectionNum exec)).toNat 0 ++ raws)
  rw [length_peHeaders, length_sectionTable segname h, ← hnum] at hsections
  exact ⟨_, readHeaders_peHeaders hsections, rfl, rfl, rfl, rfl, rfl⟩

/-- **The image** that a loader makes of the file: the pieces in memory, with the distance added to
the words that are named in it. -/
theorem load_written (h : Ready exec base table)
    (hfile : (front segname exec base last table ++
      (exec.segments.flatMap Segment.raw ++ relocRaw exec table)).length < 2 ^ 32)
    {words : List Nat}
    (hwords : decode ((Space.zero.writeAll (pieces exec base last table)).read
      (relocDirectory exec base (relocVaddrOf exec last) table).1.toNat
      (relocDirectory exec base (relocVaddrOf exec last) table).2.toNat) = some words)
    (address : UInt64) :
    ∃ image, load (front segname exec base last table ++
        (exec.segments.flatMap Segment.raw ++ relocRaw exec table)) address = some image ∧
      image.entryPoint = address + UInt64.ofNat (exec.entryAddr - base).toUInt32.toNat ∧
      image.memory = (Space.zero.writeAll (pieces exec base last table)).addWords
        (address - base).toNat words := by
  obtain ⟨headers, hread, hentry, hbase, hrva, hsize, hsections⟩ :=
    readHeaders_written segname last h
      (exec.segments.flatMap Segment.raw ++ relocRaw exec table)
  have hcopied := copySections_written segname last h hfile
  rw [← hsections] at hcopied
  rw [← hrva, ← hsize] at hwords
  rw [load, hread, Option.bind_eq_bind, Option.bind_some, hcopied, Option.bind_eq_bind,
    Option.bind_some, hwords, Option.bind_eq_bind, Option.bind_some, hbase, UInt64.ofNat_toNat]
  exact ⟨_, rfl, by rw [hentry], rfl⟩

end

end LoliLoader.Elf2Efi
