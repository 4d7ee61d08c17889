/-
# LoliLoader.Elf2Efi.Agreement -- the file and its own headers

`layout_pe_file` works out where the raw data will be, and `write_pe` writes them in order, with
padding. A reader that goes by the headers finds the raw data in the file.

The two computations are independent of each other in the source. The layout is a sum of rounded
sizes, kept in fields of 32 bits; the file is a list of chunks, and nobody checks that a chunk
begins where its header says. `AgreesWith` is the agreement, and it is stated with the reader of
`Pe.Loader` on the bytes of the file.

It holds as long as the file is below 4 GiB, so that no sum is cut, and as long as the number of
sections fits its field. The second condition is one on the callers: `main` takes its segments from
a table with 16 bits for their number (`segnum_of_main`).

The sections without raw data are those of segments that have none in the file. What their headers
point at is the place where the next data begin, and nothing is read there.
-/
import LoliLoader.Elf2Efi.Layout
import Mathlib.Algebra.Order.BigOperators.Group.List

namespace LoliLoader.Elf2Efi

open C Bytes Pe

/-! ## What is in the file -/

/-- The size of the file: the headers, the raw data of the segments and of the table. -/
def totalSize (exec : Executable) (table : SizedData) : Nat :=
  roundUp (328 + 40 * sectionCount exec) 512 +
    (exec.segments.map fun s => roundUp s.filesize.toNat 512).sum +
    if hasPeReloc exec then roundUp table.size.toNat 512 else 0

/-- What is meant to be in the raw data of each section. -/
def sectionContents (exec : Executable) (table : SizedData) : List (List UInt8) :=
  exec.segments.map (fun s => s.data.rawData.take s.filesize.toNat) ++
    if hasPeReloc exec then [table.rawData.take table.size.toNat] else []

/-- The raw data of each section, in the order of the section table: the segments, and the
relocation table if there is one. -/
def rawBlocks (exec : Executable) (table : SizedData) : List (List UInt8) :=
  exec.segments.map Segment.raw ++ if hasPeReloc exec then [relocRaw exec table] else []

/-- A file with these section headers agrees with all of its headers. `data` is meant to be in
the sections. -/
structure AgreesWith (file : List UInt8) (headers : List Pe32SectionHeader) (size : Nat)
    (data : List (List UInt8)) : Prop where
  sections : ∃ h, readHeaders file = some h ∧
    h.sections = headers.map Pe32SectionHeader.section
  sizeOfHeaders : Pe.sizeOfHeaders file = some size
  numberOfSections : Pe.numberOfSections file = some headers.length
  count : headers.length = data.length
  occupied : ∃ pre pad, pre.length = 328 ∧ (file.take size).length = size ∧
    file.take size = pre ++ (headers.flatMap Pe32SectionHeader.bytes ++ List.replicate pad 0)
  raw : ValidRawData file size 512 (headers.map Pe32SectionHeader.section) data

/-! ## What write_pe has written -/

section

variable {exec : Executable} {base : UInt64} {table : SizedData} {segname : Nat → Nat → UInt8}
  {file : List UInt8}

theorem writePadded_eq_ok {data bytes : List UInt8} {size total : UInt64} :
    writePadded data size total = .ok bytes ↔ size.toNat ≤ data.length ∧
      data.take size.toNat ++ List.replicate (total - size).toNat 0 = bytes := by
  unfold writePadded
  split
  · rename_i hlt
    simp [hlt]
  · rename_i hge
    simp [Nat.le_of_not_lt hge]

/-- A file is written if nothing that is not there has to be read. -/
theorem mapM_writePadded {segments : List Segment} {layouts : List FileLayout}
    (hlen : layouts.length = segments.length) :
    (∃ raws, (segments.zip layouts).mapM (fun s =>
        writePadded s.1.data.rawData s.1.filesize s.2.size.toUInt64) = .ok raws) ↔
      ∀ s ∈ segments, s.filesize.toNat ≤ s.data.rawData.length := by
  induction segments generalizing layouts with
  | nil => exact iff_of_true ⟨[], rfl⟩ fun s hs => absurd hs List.not_mem_nil
  | cons s segments ih =>
      cases layouts with
      | nil => cases hlen
      | cons l layouts =>
          rw [List.forall_mem_cons, ← ih (Nat.succ.inj hlen)]
          simp only [List.zip_cons_cons, List.mapM_cons, bind_eq_ok, writePadded_eq_ok]
          constructor
          · rintro ⟨raws, raw, ⟨hs, -⟩, rest, hrest, -⟩
            exact ⟨hs, rest, hrest⟩
          · rintro ⟨hs, rest, hrest⟩
            exact ⟨_, _, ⟨hs, rfl⟩, rest, hrest, rfl⟩

/-- **When a file is written**, given that the alignment is a multiple of 512: there are segments,
the alignment is not zero, and nothing that is not there has to be read. -/
theorem writePe_emits_iff (halign : exec.executableAlignment % 512 = 0) :
    (∃ file, writePe segname exec base table = .ok file) ↔
      exec.segments ≠ [] ∧ exec.executableAlignment ≠ 0 ∧
      (∀ s ∈ exec.segments, s.filesize.toNat ≤ s.data.rawData.length) ∧
      (hasPeReloc exec = true → table.size.toNat ≤ table.rawData.length) := by
  have hlen := length_layoutSegments 512 (sizeOfHeadersOf exec).toUInt32 exec.segments
  have hraws := @mapM_writePadded exec.segments
    (layoutPeFile exec (sizeOfHeadersOf exec) table 512).1 hlen
  rw [← hraws]
  simp only [writePe_eq_ok, halign, true_and]
  constructor
  · rintro ⟨file, hne, last, raws, relocs, hlast, hmap, hrelocs, -⟩
    refine ⟨?_, hne, ⟨raws, hmap⟩, fun hreloc => ?_⟩
    · intro hnil
      rw [hnil] at hlast
      cases hlast
    · rw [if_pos hreloc, writePadded_eq_ok] at hrelocs
      exact hrelocs.1
  · rintro ⟨hsegments, hne, ⟨raws, hmap⟩, htable⟩
    have hlast := List.getLast?_eq_some_getLast hsegments
    obtain ⟨relocs, hrelocs⟩ : ∃ relocs, (if hasPeReloc exec then
        writePadded table.rawData table.size
          (layoutPeFile exec (sizeOfHeadersOf exec) table 512).2.size.toUInt64
        else .ok []) = .ok relocs := by
      by_cases hreloc : hasPeReloc exec = true
      · rw [if_pos hreloc]
        exact ⟨_, writePadded_eq_ok.mpr ⟨htable hreloc, rfl⟩⟩
      · rw [if_neg hreloc]
        exact ⟨[], rfl⟩
    exact ⟨_, hne, _, raws, relocs, hlast, hmap, hrelocs, rfl⟩

/-! ## The layout of the raw data -/

/-- The sizes in the file do not overflow the 32 bits of their fields. -/
theorem filesize_lt (h : totalSize exec table < 2 ^ 32) :
    (∀ s ∈ exec.segments, s.filesize.toNat + 512 ≤ 2 ^ 32) ∧
      (hasPeReloc exec = true → table.size.toNat + 512 ≤ 2 ^ 32) := by
  have hfits : ∀ n, roundUp n 512 < 2 ^ 32 → n + 512 ≤ 2 ^ 32 := by
    intro n hn
    obtain ⟨k, hk⟩ := dvd_roundUp n 512
    have hle := (le_roundUp n (show 0 < 512 by decide)).1
    omega
  unfold totalSize at h
  refine ⟨?_, ?_⟩
  · intro s hs
    have hle := List.single_le_sum (fun _ _ => Nat.zero_le _) _
      (List.mem_map_of_mem (f := fun s => roundUp s.filesize.toNat 512) hs)
    exact hfits _ (by omega)
  · intro hreloc
    rw [if_pos hreloc] at h
    exact hfits _ (by omega)

/-- The section of a segment; it has nothing of its name. -/
def Segment.rawSection (base : UInt64) (s : Segment) (layout : FileLayout) : Pe.Section :=
  ⟨s.memsize.toUInt32.toNat, (s.vaddr - base).toUInt32.toNat, (align s.filesize 512).toUInt32.toNat,
    (if s.filesize ≠ 0 then layout.offset else 0).toNat⟩

theorem section_segmentHeader (name : Nat → UInt8) (i : Nat) (s : Segment) (layout : FileLayout) :
    (segmentHeader name base i s layout).section = s.rawSection base layout := rfl

theorem sections_segments (layouts : List FileLayout) :
    ((exec.segments.zip layouts).mapIdx fun i s =>
        segmentHeader (segname i) base i s.1 s.2).map Pe32SectionHeader.section
      = (exec.segments.zip layouts).map fun s => s.1.rawSection base s.2 := by
  apply List.ext_getElem
  · rw [List.length_map, List.length_mapIdx, List.length_map]
  · intro i hi hi'
    rw [List.getElem_map, List.getElem_mapIdx, List.getElem_map, section_segmentHeader]

/-- **The layout** places the raw data of the segments one behind the other, from `offset` on, as
long as the sum fits 32 bits. -/
theorem placed_segments {segments : List Segment} (h : ∀ s ∈ segments, Writable s)
    {offset : UInt32} (hfits : offset.toNat + (segments.map Segment.raw).flatten.length < 2 ^ 32) :
    Placed offset.toNat ((segments.zip (layoutSegments 512 offset segments).1).map
        fun s => s.1.rawSection base s.2) (segments.map Segment.raw) := by
  induction segments generalizing offset with
  | nil => exact trivial
  | cons s segments ih =>
      rw [List.forall_mem_cons] at h
      rw [List.map_cons, List.flatten_cons, List.length_append] at hfits
      have hsize : (align s.filesize 512).toUInt32.toNat = s.raw.length := by
        rw [rawSize_toNat h.1.2, Segment.length_raw h.1]
      have hnext : (offset + (align s.filesize 512).toUInt32).toNat
          = offset.toNat + s.raw.length := by
        rw [UInt32.toNat_add, hsize]
        exact Nat.mod_eq_of_lt (by omega)
      have hrest := ih h.2 (by rw [hnext]; omega)
      rw [hnext] at hrest
      refine ⟨hsize, fun hne => ?_, hrest⟩
      have hfile : s.filesize ≠ 0 := by
        intro h0
        apply hne
        rw [← List.length_eq_zero_iff, Segment.length_raw h.1, h0]
        rfl
      show (if s.filesize ≠ 0 then offset else (0 : UInt32)).toNat = _
      rw [if_pos hfile]

/-! ## The parts of the file -/

theorem headerSizes_of_total (hnum : exec.segments.length < 2 ^ 16 - 1)
    (htotal : totalSize exec table < 2 ^ 32) :
    (sizeOfHeadersOf exec).toUInt32.toNat = roundUp (328 + 40 * sectionCount exec) 512 ∧
      (sizeOfHeadersOf exec - peImageHeaderSize (peSectionNum exec)).toNat
        = roundUp (328 + 40 * sectionCount exec) 512 - (328 + 40 * sectionCount exec) := by
  have hcount := peSectionNum_toNat (show exec.segments.length < 2 ^ 16 by omega)
  have hsize := sizeOfHeadersOf_toNat (show exec.segments.length < 2 ^ 16 by omega)
  have hle := (le_roundUp (328 + 40 * sectionCount exec) (show 0 < 512 by decide)).1
  unfold totalSize at htotal
  have hbound : sectionCount exec ≤ exec.segments.length + 1 := by
    unfold sectionCount
    split <;> omega
  have hheader := @peImageHeaderSize_toNat (peSectionNum exec) (by omega)
  refine ⟨?_, ?_⟩
  · rw [UInt64.toNat_toUInt32, hsize]
    exact Nat.mod_eq_of_lt (by omega)
  · rw [UInt64.toNat_sub_of_le, hsize, hheader, hcount]
    rw [UInt64.le_iff_toNat_le, hsize, hheader, hcount]
    exact hle

theorem length_sectionTable_of {relocVaddr : UInt64} (hnum : exec.segments.length < 2 ^ 16 - 1) :
    (sectionTable segname exec base relocVaddr table
      (layoutPeFile exec (sizeOfHeadersOf exec) table 512)).length = sectionCount exec := by
  have hlen := length_layoutSegments 512 (sizeOfHeadersOf exec).toUInt32 exec.segments
  have hcount := @length_sectionTable_eq exec base relocVaddr table segname
    (layoutPeFile exec (sizeOfHeadersOf exec) table 512) hlen hnum
  have hbound : sectionCount exec ≤ exec.segments.length + 1 := by
    unfold sectionCount
    split <;> omega
  rw [← hcount, UInt64.toNat_toUInt16, peSectionNum_toNat (by omega)]
  exact Nat.mod_eq_of_lt (by omega)

/-- **The raw data** of all sections, placed behind the headers, with the relocation table last;
their sizes and that of the headers make up the size of the file. -/
theorem placed_sections (hnum : exec.segments.length < 2 ^ 16 - 1)
    (htotal : totalSize exec table < 2 ^ 32) (hwritable : ∀ s ∈ exec.segments, Writable s)
    (htable : hasPeReloc exec = true → table.size.toNat ≤ table.rawData.length)
    (relocVaddr : UInt64) :
    (rawBlocks exec table).flatten.length + roundUp (328 + 40 * sectionCount exec) 512
      = totalSize exec table ∧
    Placed (roundUp (328 + 40 * sectionCount exec) 512)
      ((sectionTable segname exec base relocVaddr table
        (layoutPeFile exec (sizeOfHeadersOf exec) table 512)).map Pe32SectionHeader.section)
      (rawBlocks exec table) := by
  obtain ⟨hheaders, -⟩ := headerSizes_of_total hnum htotal
  have hsegments : (exec.segments.map Segment.raw).flatten.length
      = (exec.segments.map fun s => roundUp s.filesize.toNat 512).sum := by
    rw [List.length_flatten, List.map_map]
    exact congrArg List.sum (List.map_congr_left fun s hs => Segment.length_raw (hwritable s hs))
  have hfits := htotal
  unfold totalSize at hfits ⊢
  rw [← hsegments] at hfits ⊢
  obtain ⟨-, -, hlayout⟩ := layoutSegments_ok hwritable (sizeOfHeadersOf exec).toUInt32
  rw [hheaders, List.flatMap_def] at hlayout
  obtain ⟨hoffset, -⟩ := hlayout (by omega)
  have hplaced := @placed_segments base _ hwritable (sizeOfHeadersOf exec).toUInt32
    (by rw [hheaders]; omega)
  rw [hheaders] at hplaced
  rw [sectionTable, List.map_append, sections_segments, rawBlocks]
  by_cases hreloc : hasPeReloc exec = true
  · rw [if_pos hreloc] at hfits
    rw [if_pos hreloc, if_pos hreloc, if_pos hreloc]
    have hraw : (relocRaw exec table).length = roundUp table.size.toNat 512 := by
      have hle := (le_roundUp table.size.toNat (show 0 < 512 by decide)).1
      have hdata := htable hreloc
      rw [relocRaw, if_pos hreloc, List.length_append, List.length_take, List.length_replicate]
      omega
    refine ⟨?_, hplaced.append ⟨?_, fun _ => hoffset, trivial⟩⟩
    · rw [List.flatten_append, List.length_append, List.flatten_singleton, hraw]
      omega
    · show (align table.size 512).toUInt32.toNat = _
      rw [rawSize_toNat ((filesize_lt htotal).2 hreloc), hraw]
  · rw [if_neg hreloc, if_neg hreloc, if_neg hreloc, List.map_nil, List.append_nil,
      List.append_nil]
    exact ⟨by omega, hplaced⟩

/-- Each block is padded to a multiple of 512 bytes. -/
theorem rawBlocks_padded (hwritable : ∀ s ∈ exec.segments, Writable s)
    (htable : hasPeReloc exec = true → table.size.toNat ≤ table.rawData.length) :
    (∀ b ∈ rawBlocks exec table, 512 ∣ b.length) ∧
      List.Forall₂ Pads (sectionContents exec table) (rawBlocks exec table) := by
  have hpads : ∀ (data : List UInt8) (n : Nat), n ≤ data.length →
      Pads (data.take n) (data.take n ++ List.replicate (roundUp n 512 - n) 0) ∧
        512 ∣ (data.take n ++ List.replicate (roundUp n 512 - n) 0).length := by
    intro data n hn
    have htake : (data.take n).length = n := by rw [List.length_take, Nat.min_eq_left hn]
    have hle := (le_roundUp n (show 0 < 512 by decide)).1
    have hlength : (data.take n ++ List.replicate (roundUp n 512 - n) 0).length
        = roundUp n 512 := by
      rw [List.length_append, htake, List.length_replicate]
      omega
    rw [Pads, hlength, htake]
    exact ⟨⟨hle, rfl⟩, dvd_roundUp n 512⟩
  have hsegments : List.Forall₂ Pads
      (exec.segments.map fun s => s.data.rawData.take s.filesize.toNat)
      (exec.segments.map Segment.raw) := by
    rw [List.forall₂_map_left_iff, List.forall₂_map_right_iff, List.forall₂_same]
    exact fun s hs => (hpads _ _ (hwritable s hs).1).1
  have hlengths : ∀ b ∈ exec.segments.map Segment.raw, 512 ∣ b.length := by
    rw [List.forall_mem_map]
    exact fun s hs => (hpads _ _ (hwritable s hs).1).2
  unfold rawBlocks sectionContents relocRaw
  by_cases hreloc : hasPeReloc exec = true
  · have hreloc' := hpads table.rawData table.size.toNat (htable hreloc)
    simp only [if_pos hreloc]
    refine ⟨?_, List.rel_append hsegments (.cons hreloc'.1 .nil)⟩
    intro b hb
    rcases List.mem_append.mp hb with hb | hb
    · exact hlengths b hb
    · obtain rfl := List.mem_singleton.mp hb
      exact hreloc'.2
  · simp only [if_neg hreloc, List.append_nil]
    exact ⟨hlengths, hsegments⟩

/-- The raw data that are written. -/
theorem raws_of_writePe (hwritable : ∀ s ∈ exec.segments, Writable s)
    (htotal : totalSize exec table < 2 ^ 32) {raws : List (List UInt8)} {relocs : List UInt8}
    (hmap : (exec.segments.zip (layoutPeFile exec (sizeOfHeadersOf exec) table 512).1).mapM
      (fun s => writePadded s.1.data.rawData s.1.filesize s.2.size.toUInt64) = .ok raws)
    (hrelocs : (if hasPeReloc exec then
      writePadded table.rawData table.size
        (layoutPeFile exec (sizeOfHeadersOf exec) table 512).2.size.toUInt64
      else .ok []) = .ok relocs) :
    raws.flatten ++ relocs = (rawBlocks exec table).flatten ∧
      (hasPeReloc exec = true → table.size.toNat ≤ table.rawData.length) := by
  obtain ⟨-, hraws, -⟩ := layoutSegments_ok hwritable (sizeOfHeadersOf exec).toUInt32
  obtain rfl := Except.ok.inj (hmap.symm.trans hraws)
  unfold rawBlocks
  by_cases hreloc : hasPeReloc exec = true
  · rw [if_pos hreloc] at hrelocs
    have htable := (writePadded_eq_ok.mp hrelocs).1
    have hwritten : writePadded table.rawData table.size
        (layoutPeFile exec (sizeOfHeadersOf exec) table 512).2.size.toUInt64
        = .ok (relocRaw exec table) := by
      rw [relocRaw, if_pos hreloc]
      exact writePadded_ok ((filesize_lt htotal).2 hreloc) htable
    obtain rfl := Except.ok.inj (hrelocs.symm.trans hwritten)
    refine ⟨?_, fun _ => htable⟩
    rw [if_pos hreloc, List.flatten_append, List.flatten_singleton]
  · rw [if_neg hreloc] at hrelocs
    obtain rfl := Except.ok.inj hrelocs
    refine ⟨?_, fun h => absurd h hreloc⟩
    rw [if_neg hreloc, List.append_nil, List.append_nil]

/-- **The file agrees with its headers**, for any file that is written, if it is below 4 GiB and the
number of sections fits its field. -/
theorem agreesWith_of_writePe (hnum : exec.segments.length < 2 ^ 16 - 1)
    (htotal : totalSize exec table < 2 ^ 32) (h : writePe segname exec base table = .ok file) :
    file.length = totalSize exec table ∧
      ∃ headers size, AgreesWith file headers size (sectionContents exec table) := by
  obtain ⟨-, -, last, raws, relocs, -, hmap, hrelocs, hfile⟩ := writePe_eq_ok.mp h
  have hlen := length_layoutSegments 512 (sizeOfHeadersOf exec).toUInt32 exec.segments
  have hwritable : ∀ s ∈ exec.segments, Writable s := fun s hs =>
    ⟨(mapM_writePadded hlen).mp ⟨raws, hmap⟩ s hs, (filesize_lt htotal).1 s hs⟩
  obtain ⟨hraws, htable⟩ := raws_of_writePe hwritable htotal hmap hrelocs
  obtain ⟨hheaders, hpad⟩ := headerSizes_of_total hnum htotal
  obtain ⟨htotal', hplaced⟩ := @placed_sections exec base table segname hnum htotal hwritable
    htable (relocVaddrOf exec last)
  obtain ⟨hblocks, hdata⟩ := rawBlocks_padded hwritable htable
  obtain ⟨⟨read, hread, -, hsections⟩, hcount, hdos⟩ := readHeaders_of_writePe hnum hfile.symm
  have hsize := word_sizeOfHeaders h
  generalize hhs : sectionTable segname exec base (relocVaddrOf exec last) table
    (layoutPeFile exec (sizeOfHeadersOf exec) table 512) = hs at hsections hcount hplaced hfile
  generalize hfields : peHeaders exec base (relocVaddrOf exec last)
    (sizeOfImageOf exec base last table) (sizeOfHeadersOf exec) table = fields at hfile
  generalize (sizeOfHeadersOf exec - peImageHeaderSize (peSectionNum exec)).toNat = pad
    at hfile hpad
  have hname : ∀ header ∈ hs, header.name.length = 8 := by
    rw [← hhs]
    exact fun _ hmem => name_sectionTable segname hmem
  have hnumber : hs.length = sectionCount exec := by
    rw [← hhs]
    exact length_sectionTable_of hnum
  -- the headers end where the raw data start
  have hpre : (record fields ++ (hs.flatMap Pe32SectionHeader.bytes ++
      List.replicate pad 0)).length = roundUp (328 + 40 * sectionCount exec) 512 := by
    have hle := (le_roundUp (328 + 40 * sectionCount exec) (show 0 < 512 by decide)).1
    rw [List.length_append, List.length_append, List.length_replicate, ← hfields, length_peHeaders,
      length_flatMap_bytes hname, hnumber, hpad]
    omega
  have hsplit : file = (record fields ++ (hs.flatMap Pe32SectionHeader.bytes ++
      List.replicate pad 0)) ++ (rawBlocks exec table).flatten := by
    rw [← hfile, hraws]
    simp only [List.append_assoc]
  rw [← hpre] at hplaced hheaders htotal'
  have hvalid := hplaced.valid hsplit (hpre ▸ dvd_roundUp _ _) hblocks hdata
  have hlength := hvalid.contents.length_eq
  rw [List.length_map] at hlength
  refine ⟨?_, hs, _, ⟨read, hread, hsections⟩, ?_, hcount, hlength,
    ⟨record fields, pad, ?_, ?_, ?_⟩, hvalid⟩
  · rw [hsplit, List.length_append, Nat.add_comm]
    exact htotal'
  · simp only [Pe.sizeOfHeaders, hdos, Option.bind_eq_bind, Option.bind_some]
    exact hsize.trans (congrArg some hheaders)
  · rw [← hfields, length_peHeaders]
  · rw [hsplit, List.take_left]
  · rw [hsplit, List.take_left]

/-- The number of segments is below that of the program headers, which is a field of 16 bits. -/
theorem segnum_of_main {qsort : Qsort} {heap : Heap} {elf : SizedData}
    {parsed relocated applied : Executable} (hparse : parseElf qsort heap elf = .ok parsed)
    (hrelocate : relocateExec parsed base = .ok relocated)
    (happly : applyRelocs relocated = .ok applied) : applied.segments.length < 2 ^ 16 - 1 := by
  obtain ⟨phdrs, hphdrs, hcount, -⟩ := (parseElf_inv hparse).segments
  have hnum := length_programHeaders hphdrs
  obtain ⟨first, rest, offset, -, -, hforall, -, -⟩ := relocateExec_inv hrelocate
  have hlength := hforall.length_eq
  have hshapes := congrArg List.length (applyRelocs_inv happly).shapes
  rw [List.length_map, List.length_map] at hshapes
  omega

/-- **The written file agrees with its own headers**, if it is below 4 GiB. `main` has no more
segments than the field for the number of sections can count. A file is written exactly if there
is a segment, the alignment is not zero, and what is to be copied is there. -/
theorem writePe_agreesWith (segname : Nat → Nat → UInt8) (base : UInt64)
    (halign : exec.executableAlignment % 512 = 0) (hnum : exec.segments.length < 2 ^ 16 - 1)
    (htotal : totalSize exec table < 2 ^ 32) :
    ((∃ file, writePe segname exec base table = .ok file) ↔
      exec.segments ≠ [] ∧ exec.executableAlignment ≠ 0 ∧
      (∀ s ∈ exec.segments, s.filesize.toNat ≤ s.data.rawData.length) ∧
      (hasPeReloc exec = true → table.size.toNat ≤ table.rawData.length)) ∧
    ∀ file, writePe segname exec base table = .ok file → file.length = totalSize exec table ∧
      ∃ headers size, AgreesWith file headers size (sectionContents exec table) :=
  ⟨writePe_emits_iff halign, fun _ h => agreesWith_of_writePe hnum htotal h⟩

end

/-- A segment and a relocation table, of 12 bytes. -/
theorem writePe_agreesWith_reloc :
    ∃ file, file.length = 1536 ∧ ∃ headers size, AgreesWith file headers size
      (sectionContents { byteExecutable 0x10001000 with relocs := [⟨0x10001000, 0⟩] }
        ⟨"PE relocation block", List.replicate 12 0, 12⟩) := by
  have hagree := @writePe_agreesWith
    { byteExecutable 0x10001000 with relocs := [⟨0x10001000, 0⟩] }
    ⟨"PE relocation block", List.replicate 12 0, 12⟩ (fun _ _ => 0) 0x10000000 (by decide)
    (by decide) (by decide)
  obtain ⟨file, hfile⟩ := hagree.1.mpr ⟨by decide, by decide, by decide, by decide⟩
  exact ⟨file, hagree.2 file hfile⟩

end LoliLoader.Elf2Efi
