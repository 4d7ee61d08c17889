/-
# LoliLoader.PyElf2Efi.Prepare -- the sections that are written

The passes in front of `write_pe`, put together: what is in the sections of the image, and where
they are, once the relocations have been converted.

Two conditions on the ELF file are named here and used by everything that follows. `Fits` is that
the addresses of the image need no more than 32 bits, for which it adds up what each pass may need.
`Relocatable` is that the words of the relocations are in sections that are kept and have no byte in
common. Neither is checked by the script.

`Prepared` is the state that `write_pe` gets: the memory of the image is that of the file, relocated
for the preferred base and moved by `shift`, with the copied sections and the relocation table
behind it. The shift makes room for the headers; it is a whole number of pages.

The rights of a section are said by `HasRights`, in terms of its own flags and of the segment that
is made read-only after relocation. That the converter's choice between three kinds of sections
gives them is a lemma of its own (`hasRights_characteristicsOf`), so that no statement has to
mention how the choice is made.
-/
import LoliLoader.PyElf2Efi.Tables
import LoliLoader.PyElf2Efi.WritePe

namespace LoliLoader.PyElf2Efi

open Bytes Pe
open C (bind_eq_ok)

/-! ## What is asked of the file -/

/-- The end of the last section that is loaded, or 0 if there is none. What the image has for the
memory of the ELF file is below it. -/
def ElfFile.copiedEnd (elf : ElfFile) : Nat := (elf.copied.map ElfSection.stop).foldr max 0

/-- The pages of the headers, with as many section headers as there can be: one for each section
that is kept or copied, and one for `.reloc`. The sections are moved by no more than this. -/
def headerRoom (elf : ElfFile) (args : Args) : Nat :=
  alignTo (sizeOfHeadersFor elf.elfclass
    (elf.copied.length + (splitCommas args.copySections).length) args.minimumSections)
    SECTION_ALIGNMENT

/-- The addresses of the image need no more than 32 bits, and its sections can be counted in 16. The
parts are the sections that are kept, those that are copied, the headers, and the relocation table,
for which every relocation may have a block of its own. -/
structure Fits (elf : ElfFile) (args : Args) : Prop where
  below : alignTo elf.copiedEnd SECTION_ALIGNMENT +
    ((splitCommas args.copySections).map (copiedSize elf)).sum + headerRoom elf args +
    alignTo (12 * elf.relocations.length) SECTION_ALIGNMENT < 2 ^ 32
  count : elf.copied.length + (splitCommas args.copySections).length + 1 < 2 ^ 16

/-- The words of the relocations are in sections that are loaded, and no two of them have a byte in
common. A linker's output is like this; the script relies on it when it takes each addend from what
the relocations before have left. -/
structure Relocatable (elf : ElfFile) : Prop where
  slots : ∀ r ∈ elf.relocations, ∃ s ∈ elf.copied, s.shAddr ≤ r.rOffset ∧ r.rOffset + 8 ≤ s.stop
  apart : elf.relocations.Pairwise ApartSlots

/-- The memory of the sections that are kept, with the words of the relocations stored for an image
that is `bias` away from the addresses in the file. -/
def ElfFile.loaded (elf : ElfFile) (bias : UInt64) : Space :=
  (memoryOf elf.copied).writeAll (elf.relocations.map fun r =>
    (r.rOffset, leBytes 8 ((bias.toNat + addendIn (memoryOf elf.copied) r) % 2 ^ 64).toNat))

section

variable {elf : ElfFile} {args : Args}

theorem stop_le_copiedEnd {s : ElfSection} (hs : s ∈ elf.copied) : s.stop ≤ elf.copiedEnd := by
  unfold ElfFile.copiedEnd
  generalize elf.copied = copied at hs ⊢
  induction copied with
  | nil => cases hs
  | cons t l ih =>
      rcases List.mem_cons.mp hs with rfl | hs
      · exact Nat.le_max_left _ _
      · exact Nat.le_trans (ih hs) (Nat.le_max_right _ _)

theorem exists_of_lt_copiedEnd {v : Nat} (hv : v < elf.copiedEnd) :
    ∃ s ∈ elf.copied, v < s.stop := by
  unfold ElfFile.copiedEnd at hv
  generalize elf.copied = copied at hv ⊢
  induction copied with
  | nil => cases hv
  | cons t l ih =>
      rcases Nat.lt_or_ge v t.stop with hlt | hge
      · exact ⟨t, List.mem_cons_self, hlt⟩
      · change v < max t.stop _ at hv
        obtain ⟨s, hs, hlt⟩ := ih (by omega)
        exact ⟨s, List.mem_cons_of_mem t hs, hlt⟩

theorem Fits.small (h : Fits elf args) : ∀ s ∈ elf.copied, s.stop + 4096 ≤ 2 ^ 32 := by
  intro s hs
  have hle := stop_le_copiedEnd hs
  have hend := (roundedUp_page elf.copiedEnd).le
  have hdvd := (roundedUp_page elf.copiedEnd).dvd
  have hbelow := h.below
  omega

theorem mono_sizeOfHeadersFor {elfclass : ElfClass} {n m : Nat} (h : n ≤ m) (minimum : Int) :
    sizeOfHeadersFor elfclass n minimum ≤ sizeOfHeadersFor elfclass m minimum := by
  refine (roundedUp_file _).mono (roundedUp_file _) ?_
  omega

end

/-! ## The memory of the copied sections -/

section

variable {elf : ElfFile} {args : Args} {sections new : List PeSection}

theorem length_le_flatten {relro : Option ElfSegment} {groups : List (List ElfSection)}
    (h : List.Forall₂ (Covers elf relro) sections groups) :
    sections.length ≤ groups.flatten.length := by
  induction h with
  | nil => exact Nat.le_refl 0
  | cons hcover _ ih =>
      obtain ⟨s, hs, -⟩ := hcover.reaches
      have hpos := List.length_pos_of_mem hs
      rw [List.length_cons, List.flatten_cons, List.length_append]
      omega

/-- The section is in the last segment of type `PT_GNU_RELRO`: once the file has been relocated,
what is there is not written any more. -/
def InRelro (elf : ElfFile) (s : ElfSection) : Prop :=
  ∃ g, (elf.segments.filter fun g => g.pType = .ptGnuRelro).getLast? = some g ∧
    elf.sectionInSegment g s = true

/-- The rights of a section, in terms of its own flags: it can be read; it can be executed if it has
`SHF_EXECINSTR`, and written if it has `SHF_WRITE`, unless it is in `PT_GNU_RELRO`. A section with
both flags is executed, and loses the right to be written. -/
structure HasRights (elf : ElfFile) (s : ElfSection) (characteristics : UInt32) : Prop where
  read : characteristics &&& 0x40000000 ≠ 0
  execute : characteristics &&& 0x20000000 ≠ 0 ↔
    s.shFlags &&& SHF_EXECINSTR ≠ 0 ∧ ¬ InRelro elf s
  write : characteristics &&& 0x80000000 ≠ 0 ↔
    s.shFlags &&& SHF_WRITE ≠ 0 ∧ s.shFlags &&& SHF_EXECINSTR = 0 ∧ ¬ InRelro elf s

/-- A loop that replaces what it keeps by each element it meets, as long as the element is of a
kind, comes to its end with the last of that kind. -/
theorem foldlM_keeps_last {α ε : Type} {f : Option α → α → Except ε (Option α)} {p : α → Bool}
    (hf : ∀ kept a next, f kept a = .ok next → next = if p a then some a else kept) {l : List α}
    {kept last : Option α} (h : l.foldlM f kept = .ok last) :
    last = (l.filter p).getLast?.or kept := by
  induction l generalizing kept with
  | nil => exact (Except.ok.inj h).symm
  | cons a l ih =>
      rw [List.foldlM_cons] at h
      obtain ⟨next, hnext, h⟩ := bind_eq_ok.mp h
      rw [ih h, hf kept a next hnext]
      by_cases ha : p a = true
      · rw [if_pos ha, List.filter_cons_of_pos ha, List.getLast?_cons]
        cases (l.filter p).getLast? <;> rfl
      · rw [if_neg ha, List.filter_cons_of_neg ha]

/-- The segment that `iter_copy_sections` keeps is the last one of type `PT_GNU_RELRO`. -/
theorem findRelro_eq_ok {segments : List ElfSegment} {relro : Option ElfSegment}
    (h : findRelro segments = .ok relro) :
    relro = (segments.filter fun g => g.pType = .ptGnuRelro).getLast? := by
  rw [findRelro] at h
  rw [foldlM_keeps_last (fun kept g next hnext => ?_) h, Option.or_none]
  split at hnext
  · cases hnext
  · split at hnext
    · rename_i hrelro
      rw [if_pos (decide_eq_true hrelro)]
      exact (Except.ok.inj hnext).symm
    · rename_i hrelro
      rw [if_neg (by rw [decide_eq_true_eq]; exact hrelro)]
      exact (Except.ok.inj hnext).symm

/-- **The converter's choice** between its three kinds of sections gives these rights: executable is
asked before writable, and `PT_GNU_RELRO` overrides both. -/
theorem hasRights_characteristicsOf {elf : ElfFile} {relro : Option ElfSegment}
    (h : findRelro elf.segments = .ok relro) (s : ElfSection) :
    HasRights elf s (characteristicsOf elf relro s) := by
  have hin : InRelro elf s ↔ (relro.any fun g => elf.sectionInSegment g s) = true := by
    rw [InRelro, findRelro_eq_ok h, Option.any_eq_true]
  unfold characteristicsOf
  by_cases hrelro : (relro.any fun g => elf.sectionInSegment g s) = true
  · rw [if_pos hrelro]
    have hyes := hin.mpr hrelro
    exact ⟨by decide, iff_of_false (by decide) fun h => h.2 hyes,
      iff_of_false (by decide) fun h => h.2.2 hyes⟩
  rw [if_neg hrelro]
  have hno : ¬ InRelro elf s := fun h => hrelro (hin.mp h)
  by_cases hexec : s.shFlags &&& SHF_EXECINSTR ≠ 0
  · rw [if_pos hexec]
    exact ⟨by decide, iff_of_true (by decide) ⟨hexec, hno⟩,
      iff_of_false (by decide) fun h => hexec h.2.1⟩
  rw [if_neg hexec]
  by_cases hwrite : s.shFlags &&& SHF_WRITE ≠ 0
  · rw [if_pos hwrite]
    exact ⟨by decide, iff_of_false (by decide) fun h => hexec h.1,
      iff_of_true (by decide) ⟨hwrite, not_not.mp hexec, hno⟩⟩
  · rw [if_neg hwrite]
    exact ⟨by decide, iff_of_false (by decide) fun h => hexec h.1,
      iff_of_false (by decide) fun h => hwrite h.1⟩

/-- `IMAGE_SCN_MEM_WRITE` and `IMAGE_SCN_MEM_EXECUTE` are not both there. -/
def Guarded (characteristics : UInt32) : Prop :=
  ¬ (characteristics &&& 0x80000000 ≠ 0 ∧ characteristics &&& 0x20000000 ≠ 0)

instance (characteristics : UInt32) : Decidable (Guarded characteristics) := instDecidableNot

theorem guarded_characteristicsOf (elf : ElfFile) (relro : Option ElfSegment) (s : ElfSection) :
    Guarded (characteristicsOf elf relro s) := by
  unfold characteristicsOf
  split
  · decide
  · split
    · decide
    · split <;> decide

/-- A section of the file is in a section of the image, with its rights. -/
theorem Carries.exists_cover (h : Carries elf sections) {s : ElfSection} (hs : s ∈ elf.copied) :
    ∃ p ∈ sections, p.start ≤ s.shAddr ∧ s.stop ≤ p.stop ∧ HasRights elf s p.characteristics := by
  obtain ⟨relro, groups, hrelro, hcovers, hflat⟩ := h.covers
  rw [← hflat] at hs
  obtain ⟨group, hgroup, hs⟩ := List.mem_flatten.mp hs
  obtain ⟨p, hp, hcover⟩ := exists_of_mem_right hcovers hgroup
  exact ⟨p, hp, hcover.start s hs, hcover.stop s hs,
    hcover.rights s hs ▸ hasRights_characteristicsOf hrelro s⟩

theorem Carries.guarded (h : Carries elf sections) {p : PeSection} (hp : p ∈ sections) :
    Guarded p.characteristics := by
  obtain ⟨relro, groups, -, hcovers, -⟩ := h.covers
  obtain ⟨group, -, hcover⟩ := exists_of_mem_left hcovers hp
  obtain ⟨s, hs, -⟩ := hcover.reaches
  rw [hcover.rights s hs]
  exact guarded_characteristicsOf elf relro s

/-- Sections of the file that are loaded stand one behind the other. -/
theorem Carries.ascending (h : Carries elf sections) :
    elf.copied.Pairwise fun s t => s.stop ≤ t.shAddr := by
  obtain ⟨relro, groups, -, hcovers, hflat⟩ := h.covers
  have hasc := h.arranged.ascending
  rw [← hflat, List.pairwise_flatten]
  refine ⟨fun group hgroup => ?_, ?_⟩
  · obtain ⟨p, -, hcover⟩ := exists_of_mem_right hcovers hgroup
    exact hcover.ascending
  · clear hflat h
    induction hcovers with
    | nil => exact .nil
    | cons hcover hrest ih =>
        rw [List.pairwise_cons] at hasc
        refine List.pairwise_cons.mpr ⟨fun group hgroup s hs t ht => ?_, ih hasc.2⟩
        obtain ⟨q, hq, hcover'⟩ := exists_of_mem_right hrest hgroup
        have hle := hasc.1 q hq
        have hstop := hcover.stop s hs
        have hstart := hcover'.start t ht
        omega

/-- **The memory of the image** is that of the sections of the file which are kept: what is padded
in front of a section or between two of them is zero in both. -/
theorem Carries.flat_eq (h : Carries elf sections) : flat sections = memoryOf elf.copied := by
  have hasc := h.ascending
  obtain ⟨relro, groups, -, hcovers, hflat⟩ := h.covers
  have hbytes : ∀ p ∈ sections, ∀ group, Covers elf relro p group → ∀ x, p.start ≤ x →
      x < p.stop → flat sections x = memoryOf group x := by
    intro p hp group hcover x hlo hhi
    have hlt : x - p.start < p.data.length := by
      unfold PeSection.stop at hhi
      omega
    rw [flat_mem h.arranged hp hlo hhi, hcover.bytes _ hlt, Nat.add_sub_cancel' hlo]
  funext x
  by_cases hx : ∃ s ∈ elf.copied, s.shAddr ≤ x ∧ x < s.stop
  · obtain ⟨s, hs, hlo, hhi⟩ := hx
    obtain ⟨group, hgroup, hin⟩ := List.mem_flatten.mp (hflat ▸ hs)
    obtain ⟨p, hp, hcover⟩ := exists_of_mem_right hcovers hgroup
    have hstart := hcover.start s hin
    have hstop := hcover.stop s hin
    rw [hbytes p hp group hcover x (by omega) (by omega), memoryOf_mem hcover.ascending hin hlo hhi,
      memoryOf_mem hasc hs hlo hhi]
  · have hnone : ∀ s ∈ elf.copied, x < s.shAddr ∨ s.stop ≤ x := by
      intro s hs
      by_contra hin
      exact hx ⟨s, hs, by omega⟩
    rw [memoryOf_not_mem hnone]
    by_cases hp : ∃ p ∈ sections, p.start ≤ x ∧ x < p.stop
    · obtain ⟨p, hp, hlo, hhi⟩ := hp
      obtain ⟨group, hgroup, hcover⟩ := exists_of_mem_left hcovers hp
      rw [hbytes p hp group hcover x hlo hhi, memoryOf_not_mem]
      exact fun s hs => hnone s (hflat ▸ List.mem_flatten_of_mem hgroup hs)
    · apply flat_not_mem
      intro p hmem
      by_contra hin
      exact hp ⟨p, hmem, by omega⟩

/-- Sections behind an address do not change what is there. -/
theorem flat_append {x : Nat} (h : ∀ s ∈ new, x < s.start) :
    flat (sections ++ new) x = flat sections x := by
  rw [flat, List.map_append, Space.writeAll_append]
  refine Space.writeAll_not_mem (fun s _ => Nat.le_refl s.data.length) fun s hs hx => ?_
  have := h s hs
  rw [Extent.mem_mk] at hx
  omega

end

/-! ## Moving the sections -/

section

variable {sections : List PeSection} {shift : Nat} (harr : Arranged sections)
  (hdvd : 4096 ∣ shift) (hlt : ∀ s ∈ sections, s.stop + shift < 2 ^ 32)

include hlt

theorem start_moveSection {s : PeSection} (hs : s ∈ sections) :
    (moveSection shift s).start = shift + s.start ∧
      (moveSection shift s).stop = shift + s.stop := by
  have hstart : (moveSection shift s).start = shift + s.start := by
    have := hlt s hs
    unfold PeSection.stop at this
    show (UInt32.ofNat (s.start + shift)).toNat = _
    rw [ofNat_toNat (by omega), Nat.add_comm]
  refine ⟨hstart, ?_⟩
  rw [PeSection.stop, hstart, PeSection.stop, Nat.add_assoc]
  rfl

include harr hdvd

theorem arranged_move : Arranged (sections.map (moveSection shift)) where
  exact t ht := by
    obtain ⟨s, hs, rfl⟩ := List.mem_map.mp ht
    have hexact := harr.exact s hs
    refine ⟨hexact.virtualSize, hexact.sizeOfRawData, ?_⟩
    rw [(start_moveSection hlt hs).1]
    exact Nat.dvd_add hdvd hexact.aligned
  ascending := by
    rw [List.pairwise_map]
    refine harr.ascending.imp_of_mem fun {s t} hs ht hle => ?_
    rw [(start_moveSection hlt hs).2, (start_moveSection hlt ht).1]
    omega

theorem flat_move (x : Nat) :
    flat (sections.map (moveSection shift)) (shift + x) = flat sections x := by
  have harr' := arranged_move harr hdvd hlt
  by_cases hx : ∃ s ∈ sections, s.start ≤ x ∧ x < s.stop
  · obtain ⟨s, hs, hlo, hhi⟩ := hx
    obtain ⟨hstart, hstop⟩ := start_moveSection hlt hs
    rw [flat_mem harr hs hlo hhi, flat_mem harr' (List.mem_map_of_mem hs) (by omega) (by omega),
      hstart, Nat.add_sub_add_left]
    rfl
  · have hnone : ∀ s ∈ sections, x < s.start ∨ s.stop ≤ x := by
      intro s hs
      by_contra hin
      exact hx ⟨s, hs, by omega⟩
    rw [flat_not_mem hnone, flat_not_mem]
    intro t ht
    obtain ⟨s, hs, rfl⟩ := List.mem_map.mp ht
    obtain ⟨hstart, hstop⟩ := start_moveSection hlt hs
    have := hnone s hs
    omega

omit harr in
theorem next_move {a a' : Nat} (ha : nextSectionAddress sections = .ok a)
    (ha' : nextSectionAddress (sections.map (moveSection shift)) = .ok a') : a' = shift + a := by
  obtain ⟨last, hlast, rfl⟩ := nextSectionAddress_eq_ok.mp ha
  obtain ⟨last', hlast', rfl⟩ := nextSectionAddress_eq_ok.mp ha'
  rw [List.getLast?_map, hlast] at hlast'
  obtain rfl := Option.some.inj hlast'
  have hmem := List.mem_of_getLast? hlast
  have hstart : (moveSection shift last).virtualAddress.toNat = shift + last.start :=
    (start_moveSection hlt hmem).1
  have hsize : (moveSection shift last).virtualSize = last.virtualSize := rfl
  rw [hstart, hsize, Nat.add_assoc]
  exact (roundedUp_page _).unique ((roundedUp_page (last.start + last.virtualSize.toNat)).add_dvd
    hdvd)

end

/-! ## The relocated sections -/

/-- What `convert_elf_relocations` hands to `write_pe`: sections that are arranged and leave room
for the headers, in which the sections of the file stand `shift` behind their own addresses, with
the words relocated for the preferred base, and a table that names these words. -/
structure Prepared (elf : ElfFile) (args : Args) (opt : PeOptionalHeader)
    (sections : List PeSection) (peRelocS : Option PeSection) (shift : Nat) : Prop where
  arranged : Arranged sections
  count : sections.length < 2 ^ 16
  room : 64 + 4 + 20 + 240 + 40 * sections.length ≤ opt.sizeOfHeaders.toNat
  headers : 512 ∣ opt.sizeOfHeaders.toNat
  first : ∀ s ∈ sections, opt.sizeOfHeaders.toNat ≤ s.start
  ends : ∀ a, nextSectionAddress sections = .ok a → a < 2 ^ 32
  moved : 4096 ∣ shift
  elfclass : opt.elfclass = .elf64
  entry : opt.addressOfEntryPoint = UInt32.ofNat (elf.eEntry + shift)
  below : shift + elf.copiedEnd < 2 ^ 32
  memory : ∀ v < elf.copiedEnd, flat sections (shift + v)
    = (memoryOf elf.copied).writeAll (elf.relocations.map fun r =>
        (r.rOffset, storedIn (memoryOf elf.copied) (opt.imageBase.toNat + shift) r)) v
  words : ∀ r ∈ elf.relocations,
    IsWord (memoryOf elf.copied) (opt.imageBase.toNat + shift) r
  reloc : ∀ p, peRelocS = some p → p ∈ sections ∧
    ∃ bs, walk p.data = some bs ∧ (∀ b ∈ bs, 4 ∣ b.size ∧ 4096 ∣ b.page) ∧
      bs.Pairwise (fun b c => b.page < c.page) ∧
      decode p.data = some ((elf.relocations.map fun r => shift + r.rOffset).insertionSort (· ≤ ·))
  noReloc : peRelocS = none → elf.relocations = []
  covered : ∀ s ∈ elf.copied, ∃ p ∈ sections, p.start ≤ shift + s.shAddr ∧
    shift + s.stop ≤ p.stop ∧ HasRights elf s p.characteristics
  guarded : ∀ p ∈ sections, Guarded p.characteristics

/-- The words of relocations see the memory of the file only. -/
theorem storedIn_congr {m m' : Space} {r : ElfRelocation}
    (h : ∀ x, r.rOffset ≤ x → x < r.rOffset + 8 → m x = m' x) (imageBase : Nat) :
    storedIn m imageBase r = storedIn m' imageBase r ∧
      (IsWord m imageBase r ↔ IsWord m' imageBase r) := by
  have hread : m.read r.rOffset 8 = m'.read r.rOffset 8 :=
    Space.read_congr fun x hx => h x hx.1 hx.2
  have haddend : addendIn m r = addendIn m' r := by
    unfold addendIn
    rw [hread]
  rw [storedIn, storedIn, IsWord, IsWord, haddend]
  exact ⟨rfl, Iff.rfl⟩

/-- Writes see the memory where they are asked about. -/
theorem writeAll_congr {m m' : Space} {x : Nat} (h : m x = m' x)
    (pieces : List (Nat × List UInt8)) : m.writeAll pieces x = m'.writeAll pieces x := by
  induction pieces generalizing m m' with
  | nil => exact h
  | cons p pieces ih =>
      show (m.write p.1 p.2).writeAll pieces x = (m'.write p.1 p.2).writeAll pieces x
      apply ih
      unfold Space.write
      rw [h]

theorem segmentOffsetFor_spec (first : PeSection) (sizeOfHeaders : Nat) :
    4096 ∣ segmentOffsetFor first sizeOfHeaders ∧
      sizeOfHeaders ≤ first.start + segmentOffsetFor first sizeOfHeaders ∧
      segmentOffsetFor first sizeOfHeaders ≤ alignTo sizeOfHeaders SECTION_ALIGNMENT := by
  unfold segmentOffsetFor
  have hstart : first.start = first.virtualAddress.toNat := rfl
  split
  · have hround := roundedUp_page (sizeOfHeaders - first.virtualAddress.toNat)
    have hle := hround.le
    refine ⟨hround.dvd, by omega, hround.mono (roundedUp_page _) (Nat.sub_le _ _)⟩
  · exact ⟨Nat.dvd_zero _, by omega, Nat.zero_le _⟩

/-! ## In front of the relocations -/

/-- What is there once the sections have been copied: those of the file are where they were, and the
copied ones are behind them. `next` bounds the address where the relocation table will stand. -/
structure Laid (elf : ElfFile) (args : Args) (opt : PeOptionalHeader)
    (sections : List PeSection) : Prop where
  arranged : Arranged sections
  count : sections.length ≤ elf.copied.length + (splitCommas args.copySections).length
  next : ∀ a, nextSectionAddress sections = .ok a → elf.copiedEnd ≤ a ∧
    a ≤ alignTo elf.copiedEnd SECTION_ALIGNMENT +
      ((splitCommas args.copySections).map (copiedSize elf)).sum
  memory : ∀ v < elf.copiedEnd, flat sections v = memoryOf elf.copied v
  covered : ∀ s ∈ elf.copied, ∃ p ∈ sections, p.start ≤ s.shAddr ∧ s.stop ≤ p.stop ∧
    HasRights elf s p.characteristics
  guarded : ∀ p ∈ sections, Guarded p.characteristics
  elfclass : opt.elfclass = elf.elfclass

section

variable {elf : ElfFile} {args : Args} {opt opt' : PeOptionalHeader}
  {sections sections' : List PeSection}

theorem Carries.stop_le (h : Carries elf sections) {p : PeSection} (hp : p ∈ sections) :
    p.stop ≤ elf.copiedEnd := by
  obtain ⟨relro, groups, -, hcovers, hflat⟩ := h.covers
  obtain ⟨group, hgroup, hcover⟩ := exists_of_mem_left hcovers hp
  obtain ⟨s, hs, hstop⟩ := hcover.reaches
  rw [← hstop]
  exact stop_le_copiedEnd (hflat ▸ List.mem_flatten_of_mem hgroup hs)

theorem laid_of_copied (hfits : Fits elf args) (h : Carries elf sections)
    (hclass : opt.elfclass = elf.elfclass)
    (hcopy : copySections elf args.copySections (opt, sections) = .ok (opt', sections')) :
    Laid elf args opt' sections' ∧ SameHeader opt opt' := by
  have hbelow := hfits.below
  have hnext : ∀ a, nextSectionAddress sections = .ok a →
      a ≤ alignTo elf.copiedEnd SECTION_ALIGNMENT := by
    intro a ha
    obtain ⟨-, -, last, hlast, rfl⟩ := h.arranged.next ha
    exact (roundedUp_page _).mono (roundedUp_page _) (h.stop_le hlast)
  obtain ⟨new, hnew, harr, hrights, hlen, hsame, hnext'⟩ := copySections_loop hcopy h.arranged (by
    intro a ha
    have := hnext a ha
    omega)
  change sections' = sections ++ new at hnew
  subst hnew
  have hcount : sections.length ≤ elf.copied.length := by
    obtain ⟨relro, groups, -, hcovers, hflat⟩ := h.covers
    rw [← hflat]
    exact length_le_flatten hcovers
  have hcovered : ∀ s ∈ elf.copied, ∃ p ∈ sections ++ new, p.start ≤ s.shAddr ∧
      s.stop ≤ p.stop ∧ HasRights elf s p.characteristics := by
    intro s hs
    obtain ⟨p, hp, hcover⟩ := h.exists_cover hs
    exact ⟨p, List.mem_append_left _ hp, hcover⟩
  refine ⟨⟨harr, ?_, ?_, ?_, hcovered, fun p hp => ?_, ?_⟩, hsame⟩
  · rw [List.length_append]
    omega
  · intro a' ha'
    obtain ⟨a, ha, hle⟩ := hnext' a' ha'
    have hbehind := (harr.next ha').2.1
    have := hnext a ha
    refine ⟨?_, by omega⟩
    by_contra hlt
    obtain ⟨s, hs, hlt'⟩ := exists_of_lt_copiedEnd (Nat.lt_of_not_le hlt)
    obtain ⟨p, hp, -, hstop, -⟩ := hcovered s hs
    have := hbehind p hp
    omega
  · intro v hv
    rw [flat_append, h.flat_eq]
    intro q hq
    obtain ⟨s, hs, hlt⟩ := exists_of_lt_copiedEnd hv
    obtain ⟨p, hp, -, hstop, -⟩ := h.exists_cover hs
    have := (List.pairwise_append.mp harr.ascending).2.2 p hp q hq
    omega
  · rcases List.mem_append.mp hp with hp | hp
    · exact h.guarded hp
    · rw [hrights p hp]
      decide
  · exact hsame.elfclass.trans hclass

/-! ## Behind the relocations -/

/-- What the loop over the tables leaves, with the sections moved by `shift`: each word has been
stored in the section that has its address, and the dictionary has the places of all of them. -/
structure Relocated (elf : ElfFile) (imageBase shift : Nat) (sections moved : List PeSection)
    (blocks : PeRelocBlocks) : Prop where
  length : moved.length = sections.length
  arranged : Arranged moved
  starts : ∀ t ∈ moved, ∃ s ∈ sections, t.start = shift + s.start
  covered : ∀ s ∈ elf.copied, ∃ t ∈ moved, t.start ≤ shift + s.shAddr ∧
    shift + s.stop ≤ t.stop ∧ HasRights elf s t.characteristics
  guarded : ∀ t ∈ moved, Guarded t.characteristics
  next : ∀ a, nextSectionAddress moved = .ok a → shift + elf.copiedEnd ≤ a ∧
    a + alignTo (12 * elf.relocations.length) SECTION_ALIGNMENT < 2 ^ 32
  below : shift + elf.copiedEnd < 2 ^ 32
  memory : ∀ v < elf.copiedEnd, flat moved (shift + v)
    = (memoryOf elf.copied).writeAll (elf.relocations.map fun r =>
        (r.rOffset, storedIn (memoryOf elf.copied) imageBase r)) v
  words : ∀ r ∈ elf.relocations, IsWord (memoryOf elf.copied) imageBase r
  collected : Collected blocks (elf.relocations.map ElfRelocation.rOffset)

theorem relocated_of_tables (hclass : elf.elfclass = .elf64) (hfits : Fits elf args)
    (hrel : Relocatable elf) (h : Laid elf args opt sections) (hne : sections ≠ [])
    {tables : List (RelocationTableType × List ElfRelocation)}
    (htables : relativesOf elf tables = elf.relocations) {imageBase shift : Nat}
    (hdvd : 4096 ∣ shift) (hshift : shift ≤ headerRoom elf args)
    {relocated : List PeSection} {blocks : PeRelocBlocks}
    (hok : convertTables elf tables imageBase sections = .ok (relocated, blocks)) :
    Relocated elf imageBase shift sections (relocated.map (moveSection shift)) blocks := by
  have hbelow := hfits.below
  obtain ⟨happlied, hcollected⟩ := convertTables_ok hclass hok
  rw [htables] at happlied hcollected
  change blocks = _ at hcollected
  have hslots : ∀ r ∈ elf.relocations, HasSlot sections r := by
    intro r hr
    obtain ⟨s, hs, hlo, hhi⟩ := hrel.slots r hr
    obtain ⟨p, hp, hstart, hstop, -⟩ := h.covered s hs
    exact ⟨p, hp, by omega, by omega⟩
  obtain ⟨hshapes, hflat, hwords⟩ := applyAll_ok h.arranged hslots hrel.apart happlied
  have harr := h.arranged.of_shapes hshapes
  -- where the sections end
  obtain ⟨last, hlast⟩ : ∃ last, relocated.getLast? = some last := by
    have hne' : relocated ≠ [] := by
      rintro rfl
      exact hne (List.map_eq_nil_iff.mp hshapes.symm)
    exact ⟨_, List.getLast?_eq_getLast_of_ne_nil hne'⟩
  obtain ⟨a, ha⟩ : ∃ a, nextSectionAddress relocated = .ok a :=
    ⟨_, nextSectionAddress_eq_ok.mpr ⟨last, hlast, rfl⟩⟩
  obtain ⟨hle, hle'⟩ := h.next a ((nextSectionAddress_of_shapes hshapes).symm.trans ha)
  have hbehind := (harr.next ha).2.1
  have hlt : ∀ s ∈ relocated, s.stop + shift < 2 ^ 32 := by
    intro s hs
    have := hbehind s hs
    omega
  -- the words of relocations are where the memory is that of the file
  have hsee : ∀ r ∈ elf.relocations, ∀ x, r.rOffset ≤ x → x < r.rOffset + 8 →
      flat sections x = memoryOf elf.copied x := by
    intro r hr x _ hhi
    obtain ⟨s, hs, -, hstop⟩ := hrel.slots r hr
    have := stop_le_copiedEnd hs
    exact h.memory x (by omega)
  have hpieces : elf.relocations.map (fun r =>
        (r.rOffset, storedIn (flat sections) imageBase r))
      = elf.relocations.map fun r =>
        (r.rOffset, storedIn (memoryOf elf.copied) imageBase r) :=
    List.map_congr_left fun r hr => by rw [(storedIn_congr (hsee r hr) imageBase).1]
  refine ⟨?_, arranged_move harr hdvd hlt, ?_, ?_, ?_, ?_, by omega, ?_, ?_, ?_⟩
  · have hlen := congrArg List.length hshapes
    rw [List.length_map, List.length_map] at hlen
    rw [List.length_map]
    exact hlen
  · intro t ht
    obtain ⟨s, hs, rfl⟩ := List.mem_map.mp ht
    obtain ⟨u, hu, hshape⟩ := exists_of_shapes hshapes hs
    exact ⟨u, hu, by rw [(start_moveSection hlt hs).1, start_of_shape hshape]⟩
  · intro s hs
    obtain ⟨u, hu, hstart, hstop, hrights⟩ := h.covered s hs
    obtain ⟨t, ht, hshape⟩ := exists_of_shapes hshapes.symm hu
    obtain ⟨hstart', hstop'⟩ := start_moveSection hlt ht
    rw [start_of_shape hshape] at hstart
    rw [stop_of_shape hshape] at hstop
    rw [characteristics_of_shape hshape] at hrights
    exact ⟨_, List.mem_map_of_mem ht, by omega, by omega, hrights⟩
  · intro t ht
    obtain ⟨s, hs, rfl⟩ := List.mem_map.mp ht
    obtain ⟨u, hu, hshape⟩ := exists_of_shapes hshapes hs
    show Guarded s.characteristics
    rw [characteristics_of_shape hshape]
    exact h.guarded u hu
  · intro a' ha'
    obtain rfl := next_move hdvd hlt ha ha'
    omega
  · intro v hv
    rw [flat_move harr hdvd hlt, hflat, hpieces]
    exact writeAll_congr (h.memory v hv) _
  · exact fun r hr => (storedIn_congr (hsee r hr) imageBase).2.mp (hwords r hr)
  · rw [hcollected, hclass]
    exact collected_foldl _

/-- What `convert_elf_relocations` does, with or without `.reloc`. -/
theorem convertElfRelocations_ok {minimumSections : Int} {peRelocS : Option PeSection}
    (h : convertElfRelocations elf opt sections minimumSections = .ok (opt', sections', peRelocS)) :
    ∃ dynamic first opt₁ shift relocated blocks,
      elf.dynamic = some dynamic ∧ sections.head? = some first ∧
      shift = segmentOffsetFor first (sizeHeaders opt sections.length
        minimumSections).sizeOfHeaders.toNat ∧
      opt₁ = moveHeader elf (sizeHeaders opt sections.length minimumSections) shift ∧
      convertTables elf dynamic.relocationTables (opt.imageBase.toNat + shift) sections
        = .ok (relocated, blocks) ∧
      (blocks = [] ∧ opt' = opt₁ ∧ sections' = relocated.map (moveSection shift) ∧
          peRelocS = none ∨
        blocks ≠ [] ∧ ∃ a p, nextSectionAddress (relocated.map (moveSection shift)) = .ok a ∧
          p = relocSection (relocData shift blocks) a ∧ opt' = countInitialized opt₁ p ∧
          sections' = relocated.map (moveSection shift) ++ [p] ∧ peRelocS = some p) := by
  obtain ⟨dynamic, hdynamic, h⟩ := bind_eq_ok.mp h
  have hsome : elf.dynamic = some dynamic := by
    unfold checkDynamic at hdynamic
    split at hdynamic
    · cases hdynamic
    · rename_i dynamic' hsome
      split at hdynamic
      · split at hdynamic
        · cases hdynamic
        · split at hdynamic
          · cases hdynamic
          · rw [hsome, Except.ok.inj hdynamic]
      · cases hdynamic
  cases sections with
  | nil => cases h
  | cons first rest =>
      dsimp only at h
      obtain ⟨⟨relocated, blocks⟩, hconvert, h⟩ := bind_eq_ok.mp h
      refine ⟨dynamic, first, _, _, relocated, blocks, hsome, rfl, rfl, rfl, hconvert, ?_⟩
      dsimp only at h
      split at h
      · rename_i hnone
        have h := Except.ok.inj h
        refine Or.inl ⟨List.eq_nil_of_length_eq_zero hnone, ?_, ?_, ?_⟩
        · exact (congrArg Prod.fst h).symm
        · exact (congrArg (fun x => x.2.1) h).symm
        · exact (congrArg (fun x => x.2.2) h).symm
      · rename_i hsomeBlocks
        obtain ⟨a, ha, h⟩ := bind_eq_ok.mp h
        have h := Except.ok.inj h
        refine Or.inr ⟨fun hnil => hsomeBlocks (by rw [hnil]; rfl), a, _, ha, rfl, ?_, ?_, ?_⟩
        · exact (congrArg Prod.fst h).symm
        · exact (congrArg (fun x => x.2.1) h).symm
        · exact (congrArg (fun x => x.2.2) h).symm

/-- **The relocations**, converted: the words of the file are in the sections, the sections have
room for the headers in front of them, and the table names the words. -/
theorem convertElfRelocations_prepared (hclass : elf.elfclass = .elf64) (hfits : Fits elf args)
    (hrel : Relocatable elf) (h : Laid elf args opt sections) {peRelocS : Option PeSection}
    (hok : convertElfRelocations elf opt sections args.minimumSections
      = .ok (opt', sections', peRelocS)) :
    (∃ shift, Prepared elf args opt' sections' peRelocS shift) ∧ SameHeader opt opt' := by
  obtain ⟨dynamic, first, opt₁, shift, relocated, blocks, hdynamic, hhead, hshift, hopt, htables,
    hcases⟩ := convertElfRelocations_ok hok
  have hbelow := hfits.below
  have hcount := hfits.count
  have hlaid := h.count
  have hclass' : opt.elfclass = .elf64 := h.elfclass.trans hclass
  have hrelocs : relativesOf elf dynamic.relocationTables = elf.relocations := by
    rw [ElfFile.relocations, hdynamic]
  -- the room for the headers
  have hroom : alignTo (sizeOfHeadersFor .elf64 sections.length args.minimumSections)
      SECTION_ALIGNMENT ≤ headerRoom elf args := by
    rw [headerRoom, hclass]
    exact (roundedUp_page _).mono (roundedUp_page _) (mono_sizeOfHeadersFor hlaid _)
  have hheaders : (sizeHeaders opt sections.length args.minimumSections).sizeOfHeaders.toNat
      = sizeOfHeadersFor .elf64 sections.length args.minimumSections := by
    have := (roundedUp_page (sizeOfHeadersFor .elf64 sections.length args.minimumSections)).le
    rw [← hclass'] at this hroom ⊢
    exact ofNat_toNat (by omega)
  have hfile := roundedUp_file (64 + 4 + 20 + ElfClass.elf64.sizeofOpt +
    40 * (max (sections.length + 1 : Int) args.minimumSections).toNat)
  have hle : 64 + 4 + 20 + 240 + _ ≤ sizeOfHeadersFor .elf64 sections.length args.minimumSections :=
    hfile.le
  obtain ⟨hdvd, hfirst, hle'⟩ := segmentOffsetFor_spec first
    (sizeHeaders opt sections.length args.minimumSections).sizeOfHeaders.toNat
  rw [← hshift, hheaders] at hfirst hle'
  rw [← hshift] at hdvd
  have hsizes : opt₁.sizeOfHeaders.toNat
      = sizeOfHeadersFor .elf64 sections.length args.minimumSections := by
    rw [hopt, ← hheaders]
    rfl
  have hbase : opt₁.imageBase = opt.imageBase := by
    rw [hopt]
    rfl
  have hentry : opt₁.addressOfEntryPoint = UInt32.ofNat (elf.eEntry + shift) := by
    rw [hopt]
    rfl
  have hclass₁ : opt₁.elfclass = .elf64 := by
    rw [hopt, ← hclass']
    rfl
  have hsame : SameHeader opt opt₁ := by
    rw [hopt]
    exact ⟨rfl, rfl, rfl⟩
  clear hopt hshift hheaders hok
  have hne : sections ≠ [] := by
    rintro rfl
    cases hhead
  have hr := relocated_of_tables hclass hfits hrel h hne hrelocs hdvd (le_trans hle' hroom) htables
  rw [← hbase] at hr
  generalize relocated.map (moveSection shift) = moved at hcases hr
  have hlen := hr.length
  have hstarts : ∀ t ∈ moved, opt₁.sizeOfHeaders.toNat ≤ t.start := by
    intro t ht
    obtain ⟨s, hs, hstart⟩ := hr.starts t ht
    obtain ⟨rest, rfl⟩ := List.head?_eq_some_iff.mp hhead
    have hbehind : first.start ≤ s.start := by
      rcases List.mem_cons.mp hs with rfl | hs
      · exact Nat.le_refl _
      · have := (List.pairwise_cons.mp h.arranged.ascending).1 s hs
        unfold PeSection.stop at this
        omega
    omega
  have hfull : 64 + 4 + 20 + 240 + 40 * (moved.length + 1) ≤ opt₁.sizeOfHeaders.toNat := by
    omega
  have hdvd' : 512 ∣ opt₁.sizeOfHeaders.toNat := by
    rw [hsizes]
    exact hfile.dvd
  have hprepared : ∀ a, nextSectionAddress moved = .ok a → a < 2 ^ 32 :=
    fun a ha => by have := (hr.next a ha).2; omega
  rcases hcases with ⟨rfl, rfl, rfl, rfl⟩ | ⟨-, a, p, ha, rfl, rfl, rfl, rfl⟩
  · -- nothing to relocate
    refine ⟨⟨shift, {
      arranged := hr.arranged
      count := by omega
      room := by omega
      headers := hdvd'
      first := hstarts
      ends := hprepared
      moved := hdvd
      elfclass := hclass₁
      entry := hentry
      below := hr.below
      memory := hr.memory
      words := hr.words
      reloc := fun p hp => by cases hp
      noReloc := fun _ => List.map_eq_nil_iff.mp hr.collected.perm.symm.eq_nil
      covered := hr.covered
      guarded := hr.guarded }⟩, hsame⟩
  · -- the section `.reloc` behind the others
    have hpage : ∀ x ∈ elf.relocations.map ElfRelocation.rOffset, shift + x < 2 ^ 32 := by
      intro x hx
      obtain ⟨r, hmem, rfl⟩ := List.mem_map.mp hx
      obtain ⟨s, hs, -, hstop⟩ := hrel.slots r hmem
      have := stop_le_copiedEnd hs
      have := hr.below
      omega
    have hwords : 12 * (elf.relocations.map ElfRelocation.rOffset).length < 2 ^ 32 := by
      have := (roundedUp_page (12 * elf.relocations.length)).le
      rw [List.length_map]
      omega
    have hsize : (relocData shift blocks).length ≤ 12 * _ :=
      length_relocData hr.collected hwords
    rw [List.length_map] at hsize
    obtain ⟨haligned, hbehind, -⟩ := hr.arranged.next ha
    obtain ⟨hover, hends⟩ := hr.next a ha
    have hmono : alignTo (relocData shift blocks).length SECTION_ALIGNMENT
        ≤ alignTo (12 * elf.relocations.length) SECTION_ALIGNMENT :=
      (roundedUp_page _).mono (roundedUp_page _) hsize
    obtain ⟨hexact, hstart⟩ := exact_of_next (relocSection (relocData shift blocks) a)
      haligned rfl rfl rfl rfl (by
        show a + alignTo (relocData shift blocks).length SECTION_ALIGNMENT < 2 ^ 32
        omega)
    have hnext := nextSectionAddress_append moved (relocSection (relocData shift blocks) a)
    rw [next_of_exact hexact hstart haligned] at hnext
    refine ⟨⟨shift, {
      arranged := hr.arranged.append hexact fun s hs => by rw [hstart]; exact hbehind s hs
      count := by
        rw [List.length_append, List.length_singleton]
        omega
      room := by
        rw [List.length_append, List.length_singleton]
        exact hfull
      headers := hdvd'
      first := ?_
      ends := ?_
      moved := hdvd
      elfclass := hclass₁
      entry := hentry
      below := hr.below
      memory := fun v hv => ?_
      words := hr.words
      reloc := ?_
      noReloc := fun hnone => by cases hnone
      covered := fun s hs => ?_
      guarded := fun t ht => ?_ }⟩, ⟨hsame.elfclass, hsame.imageBase,
        hsame.baseRelocationTable⟩⟩
    · intro t ht
      rcases List.mem_append.mp ht with ht | ht
      · exact hstarts t ht
      · -- no section is empty of pages in front of it
        obtain ⟨-, -, last, hlast, heq⟩ := hr.arranged.next ha
        have hle := (roundedUp_page last.stop).le
        have hlow := hstarts last hlast
        have hend : last.start ≤ last.stop := Nat.le_add_right _ _
        rw [List.mem_singleton.mp ht, hstart, heq]
        show opt₁.sizeOfHeaders.toNat ≤ _
        omega
    · intro b hb
      obtain rfl := Except.ok.inj (hb.symm.trans hnext)
      show a + alignTo (relocData shift blocks).length SECTION_ALIGNMENT < 2 ^ 32
      omega
    · rw [flat_append]
      · exact hr.memory v hv
      · intro q hq
        rw [List.mem_singleton.mp hq, hstart]
        omega
    · intro p hp
      obtain rfl := Option.some.inj hp
      obtain ⟨bs, hwalk, hblocks, hpages, hdecode⟩ :=
        decode_relocData hr.collected hpage hwords hdvd
      rw [List.map_map] at hdecode
      exact ⟨List.mem_append_right _ (List.mem_singleton_self _), bs, hwalk, hblocks, hpages,
        hdecode⟩
    · obtain ⟨t, ht, hin⟩ := hr.covered s hs
      exact ⟨t, List.mem_append_left _ ht, hin⟩
    · rcases List.mem_append.mp ht with ht | ht
      · exact hr.guarded t ht
      · rw [List.mem_singleton.mp ht]
        show Guarded 0x42000040
        decide

end

end LoliLoader.PyElf2Efi
