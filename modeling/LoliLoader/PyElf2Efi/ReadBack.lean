/-
# LoliLoader.PyElf2Efi.ReadBack -- a loader reads the written file

A loader of PE32+ images finds the headers where `write_pe` has put them, and copies the data of
every section to its address.

The headers are written as fields with widths, the widths are known before the values are
(`width_take`), and a field is found at the sum of the widths in front of it. They are read in three
parts, divided at the image base and at the alignments, because only these numbers have eight bytes
or are checked by the loader.

`readHeaders_written` says that the loader finds in the file what the optional header and the
section headers say, as long as these agree with each other (`Agrees`). `load_written` adds the
data: each section is copied from where its pointer is, up to its size.

What is assumed of the numbers is that they fit their fields. They are kept in types of 32 bits
here, so most of them do by construction.
-/
import LoliLoader.PyElf2Efi.Written

namespace LoliLoader.PyElf2Efi

open Bytes Pe
open C (bind_eq_ok)

/-! ## The headers -/

section

variable {coff : PeCoffHeader} {opt : PeOptionalHeader}

/-- The fields up to the image base: the start of the file, the file header, and what the optional
header begins with. For a 64-bit image they have the same places whatever the values are. -/
def outerFields (coff : PeCoffHeader) (opt : PeOptionalHeader) : List Field :=
  [(2, 0x5A4D), (58, 0), (4, 64)] ++ peMagic ++ coff.fields ++ opt.startFields ++
    [(8, opt.imageBase.toNat)]

/-- The fields between the image base and the data directory. -/
def innerFields (opt : PeOptionalHeader) : List Field :=
  opt.middleFields ++ [(8, opt.sizeOfStackReserve.toNat), (8, opt.sizeOfStackCommit.toNat),
    (8, opt.sizeOfHeapReserve.toNat), (8, opt.sizeOfHeapCommit.toNat)]

/-- The fields of a header of PE32+. -/
theorem headFields_elf64 (h : opt.elfclass = .elf64) :
    headFields coff opt = outerFields coff opt ++ innerFields opt ++ opt.endFields := by
  unfold headFields PeOptionalHeader.fields outerFields innerFields
  rw [h]
  simp only [List.append_assoc]

/-- The widths are known before the values are. -/
theorem width_take (fs : List Field) (k : Nat) :
    width (fs.take k) = ((fs.map Prod.fst).take k).sum := by
  rw [width, List.map_take]

theorem widths_outerFields : (outerFields coff opt).map Prod.fst
    = [2, 58, 4, 4, 2, 2, 4, 4, 4, 2, 2, 2, 1, 1, 4, 4, 4, 4, 4, 8] := rfl

theorem widths_endFields : opt.endFields.map Prod.fst = List.replicate 34 4 := rfl

theorem width_outerFields : width (outerFields coff opt) = 120 := by
  rw [width, widths_outerFields]
  rfl

theorem width_innerFields : width (innerFields opt) = 72 := by
  simp [width, innerFields, PeOptionalHeader.middleFields]

theorem width_endFields : width opt.endFields = 136 := by
  rw [width, widths_endFields]
  rfl

theorem length_headFields (h : opt.elfclass = .elf64) :
    (record (headFields coff opt)).length = 328 := by
  rw [headFields_elf64 h, record_append, record_append, List.length_append, List.length_append,
    length_record, length_record, length_record, width_outerFields, width_innerFields,
    width_endFields]

/-- What a loader looks up in front of the alignments. -/
theorem word_outerFields (coff : PeCoffHeader) (opt : PeOptionalHeader) (rest : List UInt8) :
    word (record (outerFields coff opt) ++ rest) 0 2 = some 0x5A4D ∧
      word (record (outerFields coff opt) ++ rest) 60 4 = some 64 ∧
      word (record (outerFields coff opt) ++ rest) 64 4 = some 0x4550 ∧
      word (record (outerFields coff opt) ++ rest) 70 2 = some coff.numberOfSections.toNat ∧
      word (record (outerFields coff opt) ++ rest) 84 2
        = some coff.sizeOfOptionalHeader.toNat ∧
      word (record (outerFields coff opt) ++ rest) 88 2 = some opt.magic.toNat ∧
      word (record (outerFields coff opt) ++ rest) 104 4
        = some opt.addressOfEntryPoint.toNat ∧
      word (record (outerFields coff opt) ++ rest) 112 8 = some opt.imageBase.toNat := by
  have h32 : ∀ x : UInt32, x.toNat < 256 ^ 4 := fun x => x.toNat_lt
  have hfile : record (outerFields coff opt) ++ rest
      = [] ++ (record (outerFields coff opt) ++ rest) := rfl
  have hwidth : ∀ k, ([] : List UInt8).length + width ((outerFields coff opt).take k)
      = ([2, 58, 4, 4, 2, 2, 4, 4, 4, 2, 2, 2, 1, 1, 4, 4, 4, 4, 4, 8].take k).sum := by
    intro k
    rw [width_take, widths_outerFields, List.length_nil, Nat.zero_add]
  rw [hfile]
  refine ⟨?_, ?_, ?_, ?_, ?_, ?_, ?_, ?_⟩
  · exact word_field (k := 0) rfl (by decide) (hwidth 0)
  · exact word_field (k := 2) rfl (by decide) (hwidth 2)
  · exact word_field (k := 3) rfl (by decide) (hwidth 3)
  · exact word_field (k := 5) rfl coff.numberOfSections.toNat_lt (hwidth 5)
  · exact word_field (k := 9) rfl coff.sizeOfOptionalHeader.toNat_lt (hwidth 9)
  · exact word_field (k := 11) rfl opt.magic.toNat_lt (hwidth 11)
  · exact word_field (k := 17) rfl (h32 _) (hwidth 17)
  · exact word_field (k := 19) rfl opt.imageBase.toNat_lt (hwidth 19)

/-- What a loader looks up between them and the data directory. -/
theorem word_innerFields {pre : List UInt8} (hpre : pre.length = 120) (opt : PeOptionalHeader)
    (rest : List UInt8) :
    word (pre ++ (record (innerFields opt) ++ rest)) 120 4 = some opt.sectionAlignment.toNat ∧
      word (pre ++ (record (innerFields opt) ++ rest)) 144 4 = some opt.sizeOfImage.toNat ∧
      word (pre ++ (record (innerFields opt) ++ rest)) 148 4 = some opt.sizeOfHeaders.toNat := by
  have h32 : ∀ x : UInt32, x.toNat < 256 ^ 4 := fun x => x.toNat_lt
  refine ⟨?_, ?_, ?_⟩
  · exact word_field (k := 0) rfl (h32 _) (by rw [hpre]; rfl)
  · exact word_field (k := 9) rfl (h32 _) (by rw [hpre]; rfl)
  · exact word_field (k := 10) rfl (h32 _) (by rw [hpre]; rfl)

/-- What a loader looks up in the data directory. -/
theorem word_endFields {pre : List UInt8} (hpre : pre.length = 192) (opt : PeOptionalHeader)
    (rest : List UInt8) :
    word (pre ++ (record opt.endFields ++ rest)) 196 4 = some opt.numberOfRvaAndSizes.toNat ∧
      word (pre ++ (record opt.endFields ++ rest)) 240 4
        = some opt.baseRelocationTable.1.toNat ∧
      word (pre ++ (record opt.endFields ++ rest)) 244 4
        = some opt.baseRelocationTable.2.toNat := by
  have h32 : ∀ x : UInt32, x.toNat < 256 ^ 4 := fun x => x.toNat_lt
  have hwidth : ∀ k, pre.length + width (opt.endFields.take k) = 192 + min k 34 * 4 := by
    intro k
    rw [width_take, widths_endFields, List.take_replicate, List.sum_replicate_nat, hpre]
  refine ⟨?_, ?_, ?_⟩
  · exact word_field (k := 1) rfl (h32 _) (hwidth 1)
  · exact word_field (k := 12) rfl (h32 _) (hwidth 12)
  · exact word_field (k := 13) rfl (h32 _) (hwidth 13)

/-- **The headers** read back: a reader finds the fields that were written, whatever follows the
section table. The sizes of the fields are evaluated once here, and nowhere else. -/
theorem readHeaders_head (h : opt.elfclass = .elf64) (hmagic : opt.magic = 0x20B)
    (hdirs : opt.numberOfRvaAndSizes = 16) (hsize : coff.sizeOfOptionalHeader = 240)
    {rest : List UInt8} {sections : List Pe.Section}
    (hsections : readSections (record (headFields coff opt) ++ rest) 328
      coff.numberOfSections.toNat = some sections) :
    readHeaders (record (headFields coff opt) ++ rest) = some
      { addressOfEntryPoint := opt.addressOfEntryPoint.toNat
        imageBase := opt.imageBase.toNat
        sizeOfImage := opt.sizeOfImage.toNat
        relocRva := opt.baseRelocationTable.1.toNat
        relocSize := opt.baseRelocationTable.2.toNat
        sections := sections } ∧
      sectionAlignment (record (headFields coff opt) ++ rest)
        = some opt.sectionAlignment.toNat ∧
      Pe.sizeOfHeaders (record (headFields coff opt) ++ rest) = some opt.sizeOfHeaders.toNat ∧
      Pe.numberOfSections (record (headFields coff opt) ++ rest)
        = some coff.numberOfSections.toNat := by
  have houter : (record (outerFields coff opt)).length = 120 := by
    rw [length_record, width_outerFields]
  have hinner : (record (outerFields coff opt) ++ record (innerFields opt)).length = 192 := by
    rw [List.length_append, houter, length_record, width_innerFields]
  have hsplit : record (headFields coff opt) ++ rest = record (outerFields coff opt) ++
      (record (innerFields opt) ++ (record opt.endFields ++ rest)) := by
    rw [headFields_elf64 h, record_append, record_append]
    simp only [List.append_assoc]
  have hsplit' : record (headFields coff opt) ++ rest = (record (outerFields coff opt) ++
      record (innerFields opt)) ++ (record opt.endFields ++ rest) := by
    rw [hsplit, List.append_assoc]
  obtain ⟨hmz, hpe, hsig, hnum, hopt, hmag, hentry, hbase⟩ := word_outerFields coff opt
    (record (innerFields opt) ++ (record opt.endFields ++ rest))
  obtain ⟨halign, himage, hheaders⟩ := word_innerFields houter opt (record opt.endFields ++ rest)
  obtain ⟨hcount, hrva, hrsize⟩ := word_endFields hinner opt rest
  rw [← hsplit] at hmz hpe hsig hnum hopt hmag hentry hbase halign himage hheaders
  rw [← hsplit'] at hcount hrva hrsize
  rw [hsize] at hopt
  rw [hmagic] at hmag
  rw [hdirs] at hcount
  change word _ 84 2 = some 240 at hopt
  change word _ 88 2 = some 0x20b at hmag
  change word _ 196 4 = some 16 at hcount
  refine ⟨?_, ?_, ?_, ?_⟩
  · simp only [readHeaders, readDirectory, IMAGE_DIRECTORY_ENTRY_BASERELOC, hmz, hpe, hsig, hnum,
      hopt, hmag, hentry, hbase, himage, hcount, hrva, hrsize, hsections, Option.bind_eq_bind,
      Option.bind_some, guard_true, Nat.reduceAdd, Nat.reduceMul, Nat.reduceLT, ite_true,
      Option.pure_def]
  · simp only [sectionAlignment, hpe, halign, Option.bind_eq_bind, Option.bind_some, Nat.reduceAdd]
  · simp only [Pe.sizeOfHeaders, hpe, hheaders, Option.bind_eq_bind, Option.bind_some,
      Nat.reduceAdd]
  · simp only [Pe.numberOfSections, hpe, hnum, Option.bind_eq_bind, Option.bind_some, Nat.reduceAdd]

end

/-! ## The sections -/

section

variable {sections : List PeSection} {off : Nat}

/-- All of a section but the pointer is as it was. -/
theorem map_placeAll {β : Type*} {f : PeSection → β}
    (hf : ∀ (s : PeSection) (pointer : UInt32), f { s with pointerToRawData := pointer } = f s)
    (off : Nat) (sections : List PeSection) : (placeAll off sections).map f = sections.map f := by
  induction sections generalizing off with
  | nil => rfl
  | cons s sections ih => rw [placeAll, List.map_cons, List.map_cons, ih, hf]

/-- The raw data of a section are its data. -/
theorem sectionData_placeAll {pre file : List UInt8} (hexact : ∀ s ∈ sections, s.Exact)
    (hpre : 512 ∣ pre.length) (hlt : endOf pre.length sections < 2 ^ 32)
    (hfile : file = pre ++ (sections.map PeSection.raw).flatten) :
    ∀ p ∈ placeAll pre.length sections, sectionData file p.toSection = some p.data := by
  induction sections generalizing pre with
  | nil => exact fun p hp => absurd hp List.not_mem_nil
  | cons s sections ih =>
      rw [List.forall_mem_cons] at hexact
      have hnext : alignTo (pre.length + s.data.length) FILE_ALIGNMENT
          = (pre ++ s.raw).length := by
        rw [alignTo_add hpre, List.length_append, length_raw]
      rw [placeAll, List.forall_mem_cons]
      refine ⟨?_, ?_⟩
      · have hpointer : (UInt32.ofNat pre.length).toNat = pre.length :=
          ofNat_toNat (lt_of_le_of_lt (le_endOf pre.length (s :: sections)) hlt)
        have hraw : s.sizeOfRawData.toNat = s.raw.length := by
          rw [hexact.1.sizeOfRawData, length_raw]
        have hslice := slice_append pre s.raw (sections.map PeSection.raw).flatten
        show (slice file (UInt32.ofNat pre.length).toNat s.sizeOfRawData.toNat).map _ = _
        rw [hpointer, hraw, hfile, List.map_cons, List.flatten_cons, hslice, Option.map_some]
        show some (s.raw.take s.virtualSize.toNat) = some s.data
        rw [hexact.1.virtualSize, PeSection.raw, padTo, List.take_left]
      · rw [endOf, hnext] at hlt
        rw [hnext]
        refine ih hexact.2 ?_ hlt ?_
        · rw [← hnext]
          exact (roundedUp_file _).dvd
        · rw [hfile, List.map_cons, List.flatten_cons, List.append_assoc]

end

/-! ## The file -/

/-- The headers say what is written behind them: the magic is that of a 64-bit image, the sections
are as many as the file header counts, and the sections end below 4 GiB in the file as well. -/
structure Agrees (coff : PeCoffHeader) (opt : PeOptionalHeader) (sections : List PeSection) :
    Prop where
  elfclass : opt.elfclass = .elf64
  magic : opt.magic = 0x20B
  directories : opt.numberOfRvaAndSizes = 16
  optionalHeader : coff.sizeOfOptionalHeader = 240
  count : coff.numberOfSections.toNat = sections.length
  arranged : Arranged sections
  headers : 512 ∣ opt.sizeOfHeaders.toNat
  ends : endOf opt.sizeOfHeaders.toNat sections < 2 ^ 32

section

variable {coff : PeCoffHeader} {opt : PeOptionalHeader} {sections : List PeSection}
  {file : List UInt8}

/-- The section table of the file, as a reader has it: the sections in order, each with the offset
that `write_pe` has given it in the file. -/
def tableOf (opt : PeOptionalHeader) (sections : List PeSection) : List Pe.Section :=
  (placeAll opt.sizeOfHeaders.toNat sections).map PeSection.toSection

/-- **The headers** of the file read back, with all sections in the table. The fields that a loader
has no use for, the alignment, the size of the headers and the number of sections, are read back as
well. -/
theorem readHeaders_written (h : Agrees coff opt sections)
    (hfile : file = frontOf coff opt sections ++ (sections.map PeSection.raw).flatten) :
    readHeaders file = some
      { addressOfEntryPoint := opt.addressOfEntryPoint.toNat
        imageBase := opt.imageBase.toNat
        sizeOfImage := opt.sizeOfImage.toNat
        relocRva := opt.baseRelocationTable.1.toNat
        relocSize := opt.baseRelocationTable.2.toNat
        sections := tableOf opt sections } ∧
      sectionAlignment file = some opt.sectionAlignment.toNat ∧
      Pe.sizeOfHeaders file = some opt.sizeOfHeaders.toNat ∧
      Pe.numberOfSections file = some sections.length := by
  have hlen : (tableOf opt sections).length = sections.length := by
    rw [tableOf, List.length_map, length_placeAll]
  have hheaders : List.Forall₂ IsHeader
      ((placeAll opt.sizeOfHeaders.toNat sections).map PeSection.header)
      (tableOf opt sections) := by
    rw [tableOf, List.forall₂_map_left_iff, List.forall₂_map_right_iff, List.forall₂_same]
    exact fun s _ => isHeader_header s
  have htable := readSections_headers hheaders (record (headFields coff opt))
  rw [length_headFields h.elfclass, hlen, ← h.count] at htable
  obtain ⟨rest, hrest⟩ : ∃ rest, file = record (headFields coff opt) ++
      (((placeAll opt.sizeOfHeaders.toNat sections).map PeSection.header).flatten ++ rest) := by
    rw [hfile, frontOf, padTo]
    simp only [List.append_assoc]
    exact ⟨_, rfl⟩
  have htable' := htable rest
  rw [hrest]
  have hread := readHeaders_head h.elfclass h.magic h.directories h.optionalHeader htable'
  rw [h.count] at hread
  exact hread

/-- A loader copies the data of the sections to their addresses. -/
theorem copied_written (h : Agrees coff opt sections)
    (hfile : file = frontOf coff opt sections ++ (sections.map PeSection.raw).flatten)
    (hfront : (frontOf coff opt sections).length = opt.sizeOfHeaders.toNat) :
    (tableOf opt sections).foldlM (Pe.copySection file) Space.zero = some (flat sections) := by
  have hdata := sectionData_placeAll h.arranged.exact
    (hfront.symm ▸ h.headers) (hfront.symm ▸ h.ends) hfile
  rw [hfront] at hdata
  have hcopy := copySections_eq (m := Space.zero) hdata
  have hpieces : (placeAll opt.sizeOfHeaders.toNat sections).map (fun p =>
      (p.toSection.virtualAddress, p.data)) = sections.map fun s => (s.start, s.data) :=
    map_placeAll (fun _ _ => rfl) _ _
  rw [hpieces] at hcopy
  exact hcopy

/-- **A loader** accepts the file. The image has the data of the sections at their addresses, and at
each of the words in the table the distance from the preferred base is added. -/
theorem load_written (h : Agrees coff opt sections)
    (hfile : file = frontOf coff opt sections ++ (sections.map PeSection.raw).flatten)
    (hfront : (frontOf coff opt sections).length = opt.sizeOfHeaders.toNat) {words : List Nat}
    (hwords : decode ((flat sections).read opt.baseRelocationTable.1.toNat
      opt.baseRelocationTable.2.toNat) = some words) (address : UInt64) :
    ∃ image, load file address = some image ∧
      image.entryPoint = address + UInt64.ofNat opt.addressOfEntryPoint.toNat ∧
      image.memory = (flat sections).addWords (address - opt.imageBase).toNat words := by
  obtain ⟨hheaders, -⟩ := readHeaders_written h hfile
  have hcopy := copied_written h hfile hfront
  refine ⟨⟨address + UInt64.ofNat opt.addressOfEntryPoint.toNat, opt.sizeOfImage.toNat,
    (flat sections).addWords (address - opt.imageBase).toNat words⟩, ?_, rfl, rfl⟩
  rw [load, hheaders, Option.bind_eq_bind, Option.bind_some, hcopy, Option.bind_eq_bind,
    Option.bind_some, hwords, Option.bind_eq_bind, Option.bind_some, UInt64.ofNat_toNat]
  rfl

end

end LoliLoader.PyElf2Efi
