/-
# LoliLoader.Elf2Efi.WriteSpec -- the file that write_pe writes

A loader reads back from the file what was meant by it: the fields of the headers, the section
table, and for every section its raw data.

The fields are found by the library for records, one splitting for each of them;
`readHeaders_peHeaders` and `readSections_flatMap` are the two results for the headers. What they
say of sizes and addresses is in unbounded numbers, for executables whose numbers fit their fields
(`Ready`).

The raw data follow each other behind the headers, each padded. `layoutSegments_ok` says where the
data of each segment are, and `sectionData_segment` that a loader which reads there, up to the
virtual size, gets the data with zeros behind.

`writePe_ok` is the specification of `write_pe` that the rest of the development uses. It gives the
file as a list of bytes, in three parts.
-/
import LoliLoader.Elf2Efi.WritePe
import LoliLoader.Elf2Efi.Plan
import LoliLoader.Pe.Loader

namespace LoliLoader.Elf2Efi

open C Bytes Pe

/-! ## The section table -/

/-- What a loader reads of a section header: the four numbers that say where the section is. -/
def Pe32SectionHeader.section (h : Pe32SectionHeader) : Pe.Section :=
  ⟨h.virtualSize.toNat, h.virtualAddress.toNat, h.sizeOfRawData.toNat, h.pointerToRawData.toNat⟩

theorem length_sectionName (segname : Nat → UInt8) (i : Nat) :
    (sectionName segname i).length = 8 := by
  unfold sectionName
  simp only [List.length_take, List.length_append, List.length_drop, List.length_map,
    List.length_range, List.length_singleton]
  omega

theorem length_headerBytes {h : Pe32SectionHeader} (hname : h.name.length = 8) :
    h.bytes.length = 40 := by
  rw [Pe32SectionHeader.bytes, List.length_append, length_record, hname]
  rfl

theorem readSection_bytes {h : Pe32SectionHeader} (hname : h.name.length = 8)
    (pre post : List UInt8) :
    readSection (pre ++ (h.bytes ++ post)) pre.length = some h.section := by
  have hfile : pre ++ (h.bytes ++ post) = (pre ++ h.name) ++ (record h.fields ++ post) := by
    simp [Pe32SectionHeader.bytes]
  have hlen : (pre ++ h.name).length = pre.length + 8 := by rw [List.length_append, hname]
  have hword : ∀ k v, h.fields[k]? = some (4, v) → v < 256 ^ 4 →
      word (pre ++ (h.bytes ++ post)) (pre.length + 8 + width (h.fields.take k)) 4 = some v := by
    intro k v hk hv
    rw [hfile]
    exact word_field hk hv (by rw [hlen])
  have h₀ := hword 0 _ rfl (UInt32.toNat_lt _)
  have h₁ := hword 1 _ rfl (UInt32.toNat_lt _)
  have h₂ := hword 2 _ rfl (UInt32.toNat_lt _)
  have h₃ := hword 3 _ rfl (UInt32.toNat_lt _)
  simp only [Pe32SectionHeader.fields, List.take_zero, List.take_succ_cons, width, List.map_nil,
    List.map_cons, List.sum_nil, List.sum_cons, Nat.add_assoc, Nat.reduceAdd] at h₀ h₁ h₂ h₃
  simp [readSection, h₀, h₁, h₂, h₃, Pe32SectionHeader.section]

/-- **The section table** reads back: the headers that were written, in order, behind any bytes. -/
theorem readSections_flatMap {hs : List Pe32SectionHeader} (hname : ∀ h ∈ hs, h.name.length = 8)
    (pre post : List UInt8) :
    readSections (pre ++ (hs.flatMap Pe32SectionHeader.bytes ++ post)) pre.length hs.length
      = some (hs.map Pe32SectionHeader.section) := by
  induction hs generalizing pre with
  | nil => rfl
  | cons h hs ih =>
      have hlen : (pre ++ h.bytes).length = pre.length + 40 := by
        rw [List.length_append, length_headerBytes (hname h List.mem_cons_self)]
      have hfile : pre ++ ((h :: hs).flatMap Pe32SectionHeader.bytes ++ post)
          = (pre ++ h.bytes) ++ (hs.flatMap Pe32SectionHeader.bytes ++ post) := by
        simp
      have hrest := ih (fun g hg => hname g (List.mem_cons_of_mem h hg)) (pre ++ h.bytes)
      rw [hlen, ← hfile] at hrest
      have hhead := readSection_bytes (hname h List.mem_cons_self) pre
        (hs.flatMap Pe32SectionHeader.bytes ++ post)
      rw [List.length_cons, readSections, hrest]
      rw [List.flatMap_cons, List.append_assoc, hhead]
      rfl

/-! ## The headers -/

section

variable {exec : Executable} {baseAddress relocVaddr sizeOfImage sizeOfHeaders : UInt64}
  {peRelocs : SizedData}

theorem width_peDosHeader : width peDosHeader = 64 := rfl

theorem width_peHeader (n : UInt16) : width (peHeader n) = 24 := rfl

theorem width_pe32PlusOptionalHeader (stats : ExecStats) (entry : UInt32) :
    width (pe32PlusOptionalHeader stats entry) = 24 := rfl

theorem width_pe32PlusOptionalWindowsHeader (imageBase : UInt64) (a f i h : UInt32) :
    width (pe32PlusOptionalWindowsHeader imageBase a f i h) = 88 := by
  simp [width, pe32PlusOptionalWindowsHeader]

theorem width_pe32OptionalDataDirectoryHeader (rva size : UInt32) :
    width (pe32OptionalDataDirectoryHeader rva size) = 128 := by
  simp [width, pe32OptionalDataDirectoryHeader]

theorem length_peHeaders : (record (peHeaders exec baseAddress relocVaddr sizeOfImage
    sizeOfHeaders peRelocs)).length = 328 := by
  unfold peHeaders
  split
  all_goals
    simp only [record_append, List.length_append, length_record, width_peDosHeader, width_peHeader,
      width_pe32PlusOptionalHeader, width_pe32PlusOptionalWindowsHeader,
      width_pe32OptionalDataDirectoryHeader]

/-- What a loader looks up in the first three headers. -/
theorem word_peHeader (n : UInt16) (stats : ExecStats) (entry : UInt32) (rest : List UInt8) :
    let file := record peDosHeader ++ (record (peHeader n) ++
      (record (pe32PlusOptionalHeader stats entry) ++ rest))
    word file 0 2 = some 0x5A4D ∧ word file 60 4 = some 64 ∧ word file 64 4 = some 0x4550 ∧
      word file 70 2 = some n.toNat ∧ word file 84 2 = some 240 ∧ word file 88 2 = some 0x20b ∧
      word file 104 4 = some entry.toNat := by
  intro file
  have hfile : file = record peDosHeader ++ (record (peHeader n) ++
      (record (pe32PlusOptionalHeader stats entry) ++ rest)) := rfl
  have hstart : file = [] ++ (record peDosHeader ++ (record (peHeader n) ++
      (record (pe32PlusOptionalHeader stats entry) ++ rest))) := rfl
  have hfile' : file = (record peDosHeader ++ record (peHeader n)) ++
      (record (pe32PlusOptionalHeader stats entry) ++ rest) := by rw [hfile, List.append_assoc]
  have hlen : (record peDosHeader ++ record (peHeader n)).length = 88 := by
    rw [List.length_append, length_record, length_record, width_peHeader]
    rfl
  have h32 : ∀ x : UInt32, x.toNat < 256 ^ 4 := fun x => x.toNat_lt
  refine ⟨?_, ?_, ?_, ?_, ?_, ?_, ?_⟩
  · rw [hstart]
    exact word_field (k := 0) rfl (by decide) rfl
  · rw [hstart]
    exact word_field (k := 2) rfl (by decide) rfl
  · exact word_field (k := 0) rfl (by decide) rfl
  · exact word_field (k := 2) rfl n.toNat_lt rfl
  · exact word_field (k := 6) rfl (by decide) rfl
  · rw [hfile']
    exact word_field (k := 0) rfl (by decide) (by rw [hlen]; rfl)
  · rw [hfile']
    exact word_field (k := 6) rfl (h32 _) (by rw [hlen]; rfl)

/-- What a loader looks up in the header for Windows and in the data directory. -/
theorem word_windowsHeader {pre : List UInt8} (hpre : pre.length = 112) (imageBase : UInt64)
    (a f i h rva size : UInt32) (rest : List UInt8) :
    let file := pre ++ (record (pe32PlusOptionalWindowsHeader imageBase a f i h) ++
      (record (pe32OptionalDataDirectoryHeader rva size) ++ rest))
    word file 112 8 = some imageBase.toNat ∧ word file 144 4 = some i.toNat ∧
      word file 196 4 = some 16 ∧ word file 240 4 = some rva.toNat ∧
      word file 244 4 = some size.toNat := by
  intro file
  have hfile : file = (pre ++ record (pe32PlusOptionalWindowsHeader imageBase a f i h)) ++
      (record (pe32OptionalDataDirectoryHeader rva size) ++ rest) :=
    (List.append_assoc _ _ _).symm
  have hlen : (pre ++ record (pe32PlusOptionalWindowsHeader imageBase a f i h)).length = 200 := by
    rw [List.length_append, length_record, width_pe32PlusOptionalWindowsHeader, hpre]
  have h32 : ∀ x : UInt32, x.toNat < 256 ^ 4 := fun x => x.toNat_lt
  have hrva : width ((pe32OptionalDataDirectoryHeader rva size).take 10) = 40 := by
    simp [pe32OptionalDataDirectoryHeader, width]
  have hsize : width ((pe32OptionalDataDirectoryHeader rva size).take 11) = 44 := by
    simp [pe32OptionalDataDirectoryHeader, width]
  refine ⟨?_, ?_, ?_, ?_, ?_⟩
  · exact word_field (k := 0) rfl imageBase.toNat_lt (by rw [hpre]; rfl)
  · exact word_field (k := 10) rfl (h32 _)
      (by rw [hpre]; simp [pe32PlusOptionalWindowsHeader, width])
  · exact word_field (k := 20) rfl (by decide)
      (by rw [hpre]; simp [pe32PlusOptionalWindowsHeader, width])
  · rw [hfile]
    exact word_field (k := 10) rfl (h32 _) (by rw [hlen, hrva])
  · rw [hfile]
    exact word_field (k := 11) rfl (h32 _) (by rw [hlen, hsize])

/-- The relocation entry of the data directory: where the table is and how large, or zeros if there
is none. -/
def relocDirectory (exec : Executable) (baseAddress relocVaddr : UInt64) (peRelocs : SizedData) :
    UInt32 × UInt32 :=
  if hasPeReloc exec then ((relocVaddr - baseAddress).toUInt32, peRelocs.size.toUInt32) else (0, 0)

/-- **The headers** read back: a loader finds in them what `write_pe` has computed, cut to the
widths of the fields. -/
theorem readHeaders_peHeaders {rest : List UInt8} {sections : List Pe.Section}
    (hsections : readSections (record (peHeaders exec baseAddress relocVaddr sizeOfImage
        sizeOfHeaders peRelocs) ++ rest) 328 (peSectionNum exec).toUInt16.toNat = some sections) :
    readHeaders (record (peHeaders exec baseAddress relocVaddr sizeOfImage sizeOfHeaders
        peRelocs) ++ rest) = some
      { addressOfEntryPoint := (exec.entryAddr - baseAddress).toUInt32.toNat
        imageBase := baseAddress.toNat
        sizeOfImage := sizeOfImage.toUInt32.toNat
        relocRva := (relocDirectory exec baseAddress relocVaddr peRelocs).1.toNat
        relocSize := (relocDirectory exec baseAddress relocVaddr peRelocs).2.toNat
        sections := sections } := by
  have hsplit : record (peHeaders exec baseAddress relocVaddr sizeOfImage sizeOfHeaders peRelocs)
      = record peDosHeader ++ (record (peHeader (peSectionNum exec).toUInt16) ++
        (record (pe32PlusOptionalHeader (getExecStats exec baseAddress)
          (exec.entryAddr - baseAddress).toUInt32) ++
        (record (pe32PlusOptionalWindowsHeader baseAddress exec.executableAlignment 512
          sizeOfImage.toUInt32 sizeOfHeaders.toUInt32) ++
        record (pe32OptionalDataDirectoryHeader
          (relocDirectory exec baseAddress relocVaddr peRelocs).1
          (relocDirectory exec baseAddress relocVaddr peRelocs).2)))) := by
    unfold peHeaders relocDirectory
    split <;> simp only [record_append, List.append_assoc]
  rw [hsplit] at hsections ⊢
  generalize relocDirectory exec baseAddress relocVaddr peRelocs = dir at hsections ⊢
  simp only [List.append_assoc] at hsections ⊢
  obtain ⟨hmz, hpe, hsig, hnum, hopt, hmagic, hentry⟩ :=
    word_peHeader (peSectionNum exec).toUInt16 (getExecStats exec baseAddress)
      (exec.entryAddr - baseAddress).toUInt32
      (record (pe32PlusOptionalWindowsHeader baseAddress exec.executableAlignment 512
          sizeOfImage.toUInt32 sizeOfHeaders.toUInt32) ++
        (record (pe32OptionalDataDirectoryHeader dir.1 dir.2) ++ rest))
  have hpre : (record peDosHeader ++ (record (peHeader (peSectionNum exec).toUInt16) ++
      record (pe32PlusOptionalHeader (getExecStats exec baseAddress)
          (exec.entryAddr - baseAddress).toUInt32))).length = 112 := by
    simp only [List.length_append, length_record, width_peHeader, width_pe32PlusOptionalHeader,
      width_peDosHeader]
  have hwords := word_windowsHeader hpre baseAddress exec.executableAlignment 512
    sizeOfImage.toUInt32 sizeOfHeaders.toUInt32 dir.1 dir.2 rest
  simp only [List.append_assoc] at hwords
  obtain ⟨hbase, hsize, hdirs, hrva, hrsize⟩ := hwords
  simp only [readHeaders, readDirectory, IMAGE_DIRECTORY_ENTRY_BASERELOC, hmz, hpe, hsig, hnum,
    hopt, hmagic, hentry, hbase, hsize, hdirs, hrva, hrsize, hsections, Option.bind_eq_bind,
    Option.bind_some, guard_true, Nat.reduceAdd, Nat.reduceMul, Nat.reduceLT, ite_true,
    Option.pure_def]

end

/-! ## Raw data -/

/-- The raw data of a segment in the file: its file-backed part, padded with zeros to 512 bytes. -/
def Segment.raw (s : Segment) : List UInt8 :=
  s.data.rawData.take s.filesize.toNat ++
    List.replicate (roundUp s.filesize.toNat 512 - s.filesize.toNat) 0

theorem align_toNat {x a : UInt64} (ha : 0 < a.toNat) (h : x.toNat + a.toNat < 2 ^ 64) :
    (align x a).toNat = roundUp x.toNat a.toNat := by
  have h1 : (1 : UInt64).toNat = 1 := rfl
  have hadd : (x + a).toNat = x.toNat + a.toNat := by
    rw [UInt64.toNat_add, Nat.mod_eq_of_lt h]
  have hsub : (x + a - 1).toNat = x.toNat + a.toNat - 1 := by
    rw [UInt64.toNat_sub_of_le _ _ (by rw [UInt64.le_iff_toNat_le, hadd, h1]; omega), hadd, h1]
  have hle : (x.toNat + a.toNat - 1) / a.toNat * a.toNat ≤ x.toNat + a.toNat - 1 :=
    Nat.div_mul_le_self _ _
  rw [align, alignDown, UInt64.toNat_mul, UInt64.toNat_div, hsub, roundUp]
  exact Nat.mod_eq_of_lt (by omega)

/-- A size in the file, as the 32 bits of its field. -/
theorem rawSize_toNat {size : UInt64} (h : size.toNat + 512 ≤ 2 ^ 32) :
    (align size 512).toUInt32.toNat = roundUp size.toNat 512 := by
  have h512 : (512 : UInt64).toNat = 512 := rfl
  have hle := le_roundUp size.toNat (show 0 < 512 by decide)
  rw [UInt64.toNat_toUInt32, align_toNat (by rw [h512]; omega) (by rw [h512]; omega), h512]
  exact Nat.mod_eq_of_lt (by omega)

theorem writePadded_ok {data : List UInt8} {size : UInt64} (h : size.toNat + 512 ≤ 2 ^ 32)
    (hdata : size.toNat ≤ data.length) :
    writePadded data size (align size 512).toUInt32.toUInt64
      = .ok (data.take size.toNat ++
          List.replicate (roundUp size.toNat 512 - size.toNat) 0) := by
  have htotal : (align size 512).toUInt32.toUInt64.toNat = roundUp size.toNat 512 := by
    rw [UInt32.toNat_toUInt64, rawSize_toNat h]
  have hle := le_roundUp size.toNat (show 0 < 512 by decide)
  rw [writePadded, if_neg (by omega), UInt64.toNat_sub_of_le, htotal]
  rw [UInt64.le_iff_toNat_le, htotal]
  exact hle.1

/-- A segment whose raw data can be written: they are there, and their size fits its field. -/
def Writable (s : Segment) : Prop :=
  s.filesize.toNat ≤ s.data.rawData.length ∧ s.filesize.toNat + 512 ≤ 2 ^ 32

theorem Segment.length_raw {s : Segment} (h : Writable s) :
    s.raw.length = roundUp s.filesize.toNat 512 := by
  have hle := le_roundUp s.filesize.toNat (show 0 < 512 by decide)
  rw [raw, List.length_append, List.length_take, List.length_replicate, Nat.min_eq_left h.1]
  omega

/-- **The layout** says where the raw data of each segment is, and with it all of them can be
written, one behind the other. -/
theorem layoutSegments_ok {segments : List Segment} (h : ∀ s ∈ segments, Writable s)
    (offset : UInt32) :
    (layoutSegments 512 offset segments).1.length = segments.length ∧
    (segments.zip (layoutSegments 512 offset segments).1).mapM (fun s =>
        writePadded s.1.data.rawData s.1.filesize s.2.size.toUInt64)
      = .ok (segments.map Segment.raw) ∧
    (offset.toNat + (segments.flatMap Segment.raw).length < 2 ^ 32 →
      (layoutSegments 512 offset segments).2.toNat
        = offset.toNat + (segments.flatMap Segment.raw).length ∧
      ∀ pre post, pre.length = offset.toNat →
        ∀ x ∈ segments.zip (layoutSegments 512 offset segments).1,
          x.2.size = (align x.1.filesize 512).toUInt32 ∧
          slice (pre ++ (segments.flatMap Segment.raw ++ post)) x.2.offset.toNat x.2.size.toNat
            = some x.1.raw) := by
  induction segments generalizing offset with
  | nil =>
      refine ⟨rfl, rfl, fun _ => ⟨by simp [layoutSegments], ?_⟩⟩
      intro pre post _ x hx
      cases hx
  | cons s segments ih =>
      have hs := h s List.mem_cons_self
      have hsize := rawSize_toNat hs.2
      obtain ⟨hlen, hmap, hrest⟩ := ih (fun t ht => h t (List.mem_cons_of_mem s ht))
        (offset + (align s.filesize 512).toUInt32)
      have hwrite := writePadded_ok hs.2 hs.1
      have heq : layoutSegments 512 offset (s :: segments)
          = (⟨offset, (align s.filesize 512).toUInt32⟩ ::
              (layoutSegments 512 (offset + (align s.filesize 512).toUInt32) segments).1,
            (layoutSegments 512 (offset + (align s.filesize 512).toUInt32) segments).2) := rfl
      rw [heq]
      refine ⟨by rw [List.length_cons, List.length_cons, hlen], ?_, ?_⟩
      · rw [List.zip_cons_cons, List.mapM_cons, hwrite, hmap]
        rfl
      -- the file is below 4 GiB, so no offset wraps around
      · intro hfits
        rw [List.flatMap_cons, List.length_append, Segment.length_raw hs] at hfits
        have hnext : (offset + (align s.filesize 512).toUInt32).toNat
            = offset.toNat + roundUp s.filesize.toNat 512 := by
          rw [UInt32.toNat_add, hsize]
          exact Nat.mod_eq_of_lt (by omega)
        rw [hnext] at hrest
        obtain ⟨hlast, hslice⟩ := hrest (by omega)
        refine ⟨?_, ?_⟩
        · rw [hlast, List.flatMap_cons, List.length_append, Segment.length_raw hs]
          omega
        · intro pre post hpre x hx
          rw [List.zip_cons_cons] at hx
          rcases List.mem_cons.mp hx with rfl | hx
          · refine ⟨rfl, ?_⟩
            have := slice_append pre s.raw (segments.flatMap Segment.raw ++ post)
            rw [Segment.length_raw hs, hpre, ← hsize] at this
            rw [List.flatMap_cons, List.append_assoc]
            exact this
          · have := hslice (pre ++ s.raw) post
              (by rw [List.length_append, Segment.length_raw hs, hpre]) x hx
            rwa [List.append_assoc, ← List.append_assoc s.raw] at this

/-- Cutting a list where only zeros follow, and putting zeros there. -/
theorem getD_take_zeros {l : List UInt8} {n : Nat} (hn : n ≤ l.length)
    (hzeros : ∀ k, n ≤ k → l.getD k 0 = 0) (m k : Nat) :
    (l.take n ++ List.replicate m 0).getD k 0 = l.getD k 0 := by
  have htake : (l.take n).length = n := by
    rw [List.length_take]
    omega
  rw [List.getD_eq_getElem?_getD]
  by_cases hin : k < n
  · rw [List.getElem?_append_left (by omega), List.getElem?_take_of_lt hin,
      ← List.getD_eq_getElem?_getD]
  · rw [hzeros k (by omega), List.getElem?_append_right (by omega), List.getElem?_replicate]
    split <;> rfl

/-- The raw data of a segment up to its size in memory are its data, with zeros behind. -/
theorem getD_take_raw {s : Segment} (h : s.Sound) {k : Nat} (hk : k < s.memsize.toNat) :
    (s.raw.take s.memsize.toNat).getD k 0 = s.data.rawData.getD k 0 := by
  have hfile := h.filesize
  have hlen := h.length
  rw [UInt64.le_iff_toNat_le] at hfile
  rw [List.getD_eq_getElem?_getD, List.getElem?_take_of_lt hk, ← List.getD_eq_getElem?_getD,
    Segment.raw]
  exact getD_take_zeros (by omega) h.zeros _ k

/-- The data of a segment's section. -/
theorem sectionData_segment {file : List UInt8} {s : Segment} {layout : FileLayout}
    {segname : Nat → UInt8} {base : UInt64} {i : Nat} (h : Writable s)
    (hmem : s.memsize.toNat < 2 ^ 32) (hsize : layout.size = (align s.filesize 512).toUInt32)
    (hslice : slice file layout.offset.toNat layout.size.toNat = some s.raw) :
    sectionData file (segmentHeader segname base i s layout).section
      = some (s.raw.take s.memsize.toNat) := by
  have hvirtual : s.memsize.toUInt32.toNat = s.memsize.toNat := by
    rw [UInt64.toNat_toUInt32]
    exact Nat.mod_eq_of_lt hmem
  have hpointer : slice file
      (if s.filesize ≠ 0 then layout.offset else (0 : UInt32)).toNat
      (align s.filesize 512).toUInt32.toNat = some s.raw := by
    by_cases hzero : s.filesize = 0
    · -- nothing is in the file
      have hraw : s.raw = [] := by
        rw [← List.length_eq_zero_iff, Segment.length_raw h, hzero]
        rfl
      rw [if_neg (not_not.mpr hzero), rawSize_toNat h.2, hraw, hzero]
      show slice file 0 0 = some []
      rw [slice, if_pos (by omega), List.take_zero]
    · rw [if_pos hzero, ← hsize, hslice]
  have hread : slice file (segmentHeader segname base i s layout).section.pointerToRawData
      (segmentHeader segname base i s layout).section.sizeOfRawData = some s.raw := hpointer
  rw [sectionData, hread]
  show some (s.raw.take s.memsize.toUInt32.toNat) = _
  rw [hvirtual]

/-! ## The file -/

/-- What `write_pe` has to be given for a file that fits: sound segments in their places, an
alignment, and a table with its size. -/
structure Ready (exec : Executable) (base : UInt64) (table : SizedData) : Prop where
  nonempty : exec.segments ≠ []
  segnum : exec.segments.length < 2 ^ 16 - 1
  sound : ∀ s ∈ exec.segments, s.Sound
  place : ∀ s ∈ exec.segments, base.toNat ≤ s.vaddr.toNat ∧
    512 ≤ s.vaddr.toNat - base.toNat ∧
    s.vaddr.toNat - base.toNat + s.memsize.toNat < 2 ^ 32
  alignment : exec.executableAlignment % 512 = 0 ∧ exec.executableAlignment.toUInt64 ≠ 0
  table : table.size.toNat = table.rawData.length ∧ table.size.toNat + 512 ≤ 2 ^ 32

/-- `relocVaddr` in `write_pe`: behind the last segment, up to the common alignment. -/
def relocVaddrOf (exec : Executable) (last : Segment) : UInt64 :=
  align (last.vaddr + last.memsize) exec.executableAlignment.toUInt64

/-- The raw data of the table in the file, if there is one. -/
def relocRaw (exec : Executable) (table : SizedData) : List UInt8 :=
  if hasPeReloc exec then
    table.rawData.take table.size.toNat ++
      List.replicate (roundUp table.size.toNat 512 - table.size.toNat) 0
  else []

/-! ## Sizes of headers -/

theorem peImageHeaderSize_toNat {n : UInt64} (h : n.toNat < 2 ^ 32) :
    (peImageHeaderSize n).toNat = 328 + 40 * n.toNat := by
  have h328 : (64 + 24 + 24 + 88 + 128 : UInt64).toNat = 328 := rfl
  have h40 : (40 : UInt64).toNat = 40 := rfl
  rw [peImageHeaderSize, UInt64.toNat_add, UInt64.toNat_mul, h328, h40]
  omega

theorem align_peImageHeaderSize_toNat {n : UInt64} (h : n.toNat < 2 ^ 32) :
    (align (peImageHeaderSize n) 512).toNat = roundUp (328 + 40 * n.toNat) 512 := by
  have h512 : (512 : UInt64).toNat = 512 := rfl
  have hsize := peImageHeaderSize_toNat h
  rw [align_toNat (by rw [h512]; omega) (by rw [hsize, h512]; omega), hsize, h512]

theorem toNat_peSectionNum {exec : Executable} (h : exec.segments.length < 2 ^ 16) :
    (peSectionNum exec).toNat = exec.segments.length + if hasPeReloc exec then 1 else 0 := by
  have h1 : (1 : UInt64).toNat = 1 := rfl
  have h0 : (0 : UInt64).toNat = 0 := rfl
  unfold peSectionNum
  rw [UInt64.toNat_add, toNat_ofNat (by omega)]
  split
  · rw [h1]
    omega
  · rw [h0]
    omega

/-! ## The file -/

section

variable {exec : Executable} {base : UInt64} {table : SizedData} {segname : Nat → Nat → UInt8}

theorem Ready.writable (h : Ready exec base table) : ∀ s ∈ exec.segments, Writable s := by
  intro s hs
  have hsound := h.sound s hs
  have hfile := hsound.filesize
  have hlen := hsound.length
  obtain ⟨-, hlow, hhigh⟩ := h.place s hs
  rw [UInt64.le_iff_toNat_le] at hfile
  exact ⟨by omega, by omega⟩

theorem Ready.peSectionNum_toNat (h : Ready exec base table) :
    (peSectionNum exec).toNat = exec.segments.length + (if hasPeReloc exec then 1 else 0) ∧
      (peSectionNum exec).toNat < 2 ^ 16 := by
  have hseg := h.segnum
  have hnum := @toNat_peSectionNum exec (by omega)
  refine ⟨hnum, ?_⟩
  rw [hnum]
  split <;> omega

theorem Ready.headerSizes (h : Ready exec base table) :
    (peImageHeaderSize (peSectionNum exec)).toNat = 328 + 40 * (peSectionNum exec).toNat ∧
      (align (peImageHeaderSize (peSectionNum exec)) 512).toNat
        = roundUp (328 + 40 * (peSectionNum exec).toNat) 512 := by
  have hnum := h.peSectionNum_toNat.2
  exact ⟨peImageHeaderSize_toNat (by omega), align_peImageHeaderSize_toNat (by omega)⟩

/-- The bytes in front of the raw data: the headers, the section table, and zeros. -/
def front (segname : Nat → Nat → UInt8) (exec : Executable) (base : UInt64) (last : Segment)
    (table : SizedData) : List UInt8 :=
  let headerSize := peImageHeaderSize (peSectionNum exec)
  let sizeOfHeaders := align headerSize 512
  let relocVaddr := relocVaddrOf exec last
  let sizeOfImage :=
    align (relocVaddr + table.size - base) exec.executableAlignment.toUInt64
  record (peHeaders exec base relocVaddr sizeOfImage sizeOfHeaders table) ++
    ((sectionTable segname exec base relocVaddr table
        (layoutPeFile exec sizeOfHeaders table 512)).flatMap Pe32SectionHeader.bytes ++
      List.replicate (sizeOfHeaders - headerSize).toNat 0)

/-- **`write_pe`** writes the headers and the section table, then the raw data of the segments, and
last those of the table. -/
theorem writePe_ok (h : Ready exec base table) {last : Segment}
    (hlast : exec.segments.getLast? = some last) :
    writePe segname exec base table = .ok (front segname exec base last table ++
      (exec.segments.flatMap Segment.raw ++ relocRaw exec table)) := by
  obtain ⟨-, hmap, -⟩ := layoutSegments_ok h.writable
    (align (peImageHeaderSize (peSectionNum exec)) 512).toUInt32
  have htable := @writePadded_ok table.rawData _ h.table.2 (le_of_eq h.table.1)
  unfold writePe
  rw [if_neg (not_not.mpr h.alignment.1), hlast]
  dsimp only
  rw [divisor, if_neg h.alignment.2]
  have hraw : (exec.segments.zip (layoutPeFile exec
      (align (peImageHeaderSize (peSectionNum exec)) 512) table 512).1).mapM (fun s =>
        writePadded s.1.data.rawData s.1.filesize s.2.size.toUInt64)
      = .ok (exec.segments.map Segment.raw) := hmap
  rw [hraw]
  unfold relocRaw
  by_cases hreloc : hasPeReloc exec = true
  · show (if _ then _ else _) = _
    rw [if_pos hreloc, if_pos hreloc]
    show (writePadded table.rawData table.size (align table.size 512).toUInt32.toUInt64 >>= _) = _
    rw [htable, List.flatMap_def, front, List.append_assoc, List.append_assoc]
    rfl
  · show (if _ then _ else _) = _
    rw [if_neg hreloc, if_neg hreloc, List.flatMap_def, front, List.append_assoc,
      List.append_assoc]
    rfl

end

end LoliLoader.Elf2Efi
