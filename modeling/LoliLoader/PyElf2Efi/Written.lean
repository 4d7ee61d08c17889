/-
# LoliLoader.PyElf2Efi.Written -- the file that is written

`write_pe` seeks back and forth. What comes out is simple: the headers, padded, and then the data of
the sections one behind the other, each padded; and the section table says so.

`placeAll` gives each section the pointer that the first loop computes, and `endOf` is where the
data end. The loop complains if a section is at an address that the headers reach to; that it does
not is a condition here, and it holds behind the earlier passes. A section never takes more room in
the file than it takes in memory (`next_le`), so places in the file fit 32 bits if addresses do.

The second loop writes each section at the end of what has been written, because the sections are in
ascending order already; seeking there changes nothing, apart from the padding (`write_at_end`).

So the file is a list of bytes in two parts, `frontOf` and the raw data, and `writePe_ok` says that
it is what `write_pe` writes. Everything about the file is then shown of this list.
-/
import LoliLoader.Pe.RawData
import LoliLoader.Pe.SectionTable
import LoliLoader.PyElf2Efi.Prepare

namespace LoliLoader.PyElf2Efi

open Bytes Pe
open C (bind_eq_ok)

/-! ## Pointers -/

/-- The sections with pointers to their data, the first of them at `off`. -/
def placeAll : Nat → List PeSection → List PeSection
  | _, [] => []
  | off, s :: sections =>
    { s with pointerToRawData := UInt32.ofNat off } ::
      placeAll (alignTo (off + s.data.length) FILE_ALIGNMENT) sections

/-- Where the data end, if those of the first section start at the given place. -/
def endOf : Nat → List PeSection → Nat
  | off, [] => off
  | off, s :: sections => endOf (alignTo (off + s.data.length) FILE_ALIGNMENT) sections

/-- The data of a section in the file, padded with zeros to 512 bytes. -/
def PeSection.raw (s : PeSection) : List UInt8 :=
  padTo (alignTo s.data.length FILE_ALIGNMENT) s.data

section

variable {sections : List PeSection} {off : Nat}

theorem length_raw (s : PeSection) : s.raw.length = alignTo s.data.length FILE_ALIGNMENT :=
  length_padTo (roundedUp_file _).le

theorem alignTo_add (h : 512 ∣ off) (n : Nat) :
    alignTo (off + n) FILE_ALIGNMENT = off + alignTo n FILE_ALIGNMENT :=
  (roundedUp_file _).unique ((roundedUp_file n).add_dvd h)

theorem length_placeAll (off : Nat) (sections : List PeSection) :
    (placeAll off sections).length = sections.length := by
  induction sections generalizing off with
  | nil => rfl
  | cons s sections ih => rw [placeAll, List.length_cons, List.length_cons, ih]

/-- The loop of `write_pe` gives the pointers, if it does not complain. -/
theorem layoutSections_ok {sizeOfHeaders last : Nat} {l placed : List (PeSection × Nat)}
    (h : layoutSections sizeOfHeaders off l = .ok (placed, last)) :
    placed = (placeAll off (l.map Prod.fst)).zip (l.map Prod.snd) ∧
      last = endOf off (l.map Prod.fst) := by
  induction l generalizing off placed last with
  | nil =>
      obtain ⟨rfl, rfl⟩ := Prod.mk.inj (Except.ok.inj h)
      exact ⟨rfl, rfl⟩
  | cons p l ih =>
      unfold layoutSections at h
      dsimp only at h
      split at h
      · cases h
      · obtain ⟨⟨rest, last'⟩, hrest, h⟩ := bind_eq_ok.mp h
        obtain ⟨rfl, rfl⟩ := Prod.mk.inj (Except.ok.inj h)
        obtain ⟨rfl, rfl⟩ := ih hrest
        exact ⟨rfl, rfl⟩

end

/-! ## Room in the file -/

section

variable {sections : List PeSection} {off e : Nat}

theorem le_endOf (off : Nat) (sections : List PeSection) : off ≤ endOf off sections := by
  induction sections generalizing off with
  | nil => exact Nat.le_refl off
  | cons s sections ih =>
      have hle := (roundedUp_file (off + s.data.length)).le
      exact le_trans (by omega) (ih _)

/-- A section takes no more room in the file than in the memory. -/
theorem next_le {s : PeSection} (hs : s.Exact) (hoff : off ≤ s.start) (h : 512 ∣ off)
    (he : 4096 ∣ e) (hle : s.stop ≤ e) :
    alignTo (off + s.data.length) FILE_ALIGNMENT ≤ e := by
  have hround := ((roundedUp_page s.data.length).add_dvd hs.aligned).le_of_dvd he hle
  have hfile := @alignTo_file_le s.data.length
  rw [alignTo_add h]
  omega

theorem endOf_le (harr : Arranged sections) (h : 512 ∣ off) (hoff : ∀ s ∈ sections, off ≤ s.start)
    (he : 4096 ∣ e) (hle : ∀ s ∈ sections, s.stop ≤ e) (hoe : off ≤ e) :
    endOf off sections ≤ e := by
  induction sections generalizing off with
  | nil => exact hoe
  | cons s sections ih =>
      have hexact := harr.exact
      have hasc := harr.ascending
      rw [List.forall_mem_cons] at hexact hoff hle
      rw [List.pairwise_cons] at hasc
      refine ih ⟨hexact.2, hasc.2⟩ (roundedUp_file _).dvd (fun t ht => ?_) hle.2 ?_
      · exact next_le hexact.1 hoff.1 h (hexact.2 t ht).aligned (hasc.1 t ht)
      · exact next_le hexact.1 hoff.1 h he hle.1

/-- What a loader needs of a section header: its four numbers. -/
def PeSection.toSection (s : PeSection) : Pe.Section :=
  ⟨s.virtualSize.toNat, s.virtualAddress.toNat, s.sizeOfRawData.toNat, s.pointerToRawData.toNat⟩

/-- The pointers are where the data will be. -/
theorem placed_placeAll (hexact : ∀ s ∈ sections, s.Exact) (h : 512 ∣ off)
    (hlt : endOf off sections < 2 ^ 32) :
    Placed off ((placeAll off sections).map PeSection.toSection) (sections.map PeSection.raw) := by
  induction sections generalizing off with
  | nil => trivial
  | cons s sections ih =>
      rw [List.forall_mem_cons] at hexact
      refine ⟨?_, fun _ => ?_, ?_⟩
      · rw [length_raw]
        exact hexact.1.sizeOfRawData
      · exact ofNat_toNat (lt_of_le_of_lt (le_endOf off _) hlt)
      · have hrest := ih hexact.2 (roundedUp_file (off + s.data.length)).dvd hlt
        rw [alignTo_add h, ← length_raw] at hrest
        show Placed (off + s.raw.length) ((placeAll (alignTo (off + s.data.length) FILE_ALIGNMENT)
          sections).map PeSection.toSection) _
        rw [alignTo_add h, ← length_raw]
        exact hrest

theorem length_name (name : List UInt8) : ((padTo 8 name).take 8).length = 8 := by
  rw [List.length_take, padTo, List.length_append, List.length_replicate]
  omega

theorem isHeader_header (s : PeSection) : IsHeader s.header s.toSection := by
  have hname := length_name s.name
  refine ⟨?_, ⟨_, record [(4, 0), (4, 0), (2, 0), (2, 0), (4, s.characteristics.toNat)], hname, ?_⟩,
    ⟨UInt32.toNat_lt _, UInt32.toNat_lt _, UInt32.toNat_lt _, UInt32.toNat_lt _⟩⟩
  · rw [PeSection.header, List.length_append, hname, length_record]
    rfl
  · rw [PeSection.header, ← record_append]
    rfl

end

/-! ## Seeking and writing -/

/-- Writing at the end of the file. -/
theorem write_at_end {f : SeekFile} (h : f.position = f.contents.length) (bs : List UInt8) :
    (f.write bs).contents = f.contents ++ bs ∧
      (f.write bs).position = (f.write bs).contents.length := by
  have hcontents : (f.write bs).contents = f.contents ++ bs := by
    by_cases hbs : bs = []
    · rw [SeekFile.write, if_pos hbs, hbs, List.append_nil]
    · rw [SeekFile.contents_write hbs (Nat.le_of_eq h.symm), h, padTo_of_le (Nat.le_refl _)]
  refine ⟨hcontents, ?_⟩
  rw [hcontents, SeekFile.position_write, h, List.length_append]

theorem foldl_write_at_end {α : Type} {bytes : α → List UInt8} {l : List α} {f : SeekFile}
    (h : f.position = f.contents.length) :
    (l.foldl (fun f a => f.write (bytes a)) f).contents = f.contents ++ (l.map bytes).flatten ∧
      (l.foldl (fun f a => f.write (bytes a)) f).position
        = (l.foldl (fun f a => f.write (bytes a)) f).contents.length := by
  induction l generalizing f with
  | nil => exact ⟨(List.append_nil _).symm, h⟩
  | cons a l ih =>
      obtain ⟨hcontents, hposition⟩ := write_at_end h (bytes a)
      obtain ⟨hall, hend⟩ := ih hposition
      refine ⟨?_, hend⟩
      rw [List.foldl_cons, hall, hcontents, List.append_assoc, List.map_cons, List.flatten_cons]

/-- The headers in front of the section table, as fields with their widths. -/
def headFields (coff : PeCoffHeader) (opt : PeOptionalHeader) : List Field :=
  [(2, 0x5A4D), (58, 0), (4, 64)] ++ peMagic ++ coff.fields ++ opt.fields

theorem contents_writeHeaders (coff : PeCoffHeader) (opt : PeOptionalHeader) :
    (writeHeaders coff opt).contents = record (headFields coff opt) ∧
      (writeHeaders coff opt).position = (writeHeaders coff opt).contents.length := by
  have hstart : ((((SeekFile.empty.write (C.ascii "MZ")).seek 0x3C).write
      (leBytes 2 PE_OFFSET)).seek PE_OFFSET).write (record peMagic)
      = ⟨record ([(2, 0x5A4D), (58, 0), (4, 64)] ++ peMagic), 68⟩ := by decide +kernel
  unfold writeHeaders
  rw [hstart]
  obtain ⟨hcoff, hcoffEnd⟩ := @write_at_end
    ⟨record ([(2, 0x5A4D), (58, 0), (4, 64)] ++ peMagic), 68⟩ (by rw [length_record]; rfl)
    (record coff.fields)
  obtain ⟨hopt, hoptEnd⟩ := write_at_end hcoffEnd (record opt.fields)
  refine ⟨?_, hoptEnd⟩
  rw [hopt, hcoff]
  show record _ ++ record _ ++ record _ = _
  rw [← record_append, ← record_append]
  rfl

theorem writeData_placeAll {sections : List PeSection} {off : Nat} {f : SeekFile}
    (h : 512 ∣ off) (hf : f.contents.length ≤ off) (hlt : endOf off sections < 2 ^ 32) :
    padTo (endOf off sections) (writeData f (placeAll off sections)).contents
        = padTo off f.contents ++ (sections.map PeSection.raw).flatten ∧
      (writeData f (placeAll off sections)).contents.length ≤ endOf off sections := by
  induction sections generalizing off f with
  | nil => exact ⟨(List.append_nil _).symm, hf⟩
  | cons s sections ih =>
      have hpointer : (UInt32.ofNat off).toNat = off :=
        ofNat_toNat (lt_of_le_of_lt (le_endOf off _) hlt)
      have hround := roundedUp_file (off + s.data.length)
      have hle := hround.le
      -- after the data of the first section
      obtain ⟨hcontents, hlen⟩ : padTo (alignTo (off + s.data.length) FILE_ALIGNMENT)
          ((f.seek off).write s.data).contents = padTo off f.contents ++ s.raw ∧
          ((f.seek off).write s.data).contents.length
            ≤ alignTo (off + s.data.length) FILE_ALIGNMENT := by
        by_cases hdata : s.data = []
        · have hzero : s.data.length = 0 := List.length_eq_zero_iff.mpr hdata
          have hsame : alignTo (off + s.data.length) FILE_ALIGNMENT = off :=
            Nat.le_antisymm (hround.le_of_dvd h (by omega)) (by omega)
          have hraw : s.raw = [] := by
            have hlen := length_raw s
            have hadd := alignTo_add h s.data.length
            exact List.eq_nil_of_length_eq_zero (by omega)
          rw [SeekFile.write, if_pos hdata, hsame, hraw, List.append_nil]
          exact ⟨rfl, hf⟩
        · have hwrite := SeekFile.contents_write (f := f.seek off) hdata hf
          change ((f.seek off).write s.data).contents = padTo off f.contents ++ s.data at hwrite
          have hfull := length_padTo hf
          have hpad := padTo_append (n := alignTo s.data.length FILE_ALIGNMENT) (l := s.data)
            (padTo off f.contents)
          rw [hfull] at hpad
          rw [hwrite, alignTo_add h, hpad, List.length_append, hfull]
          exact ⟨rfl, Nat.add_le_add_left (roundedUp_file s.data.length).le off⟩
      obtain ⟨hrest, hrestLen⟩ := ih (f := (f.seek off).write s.data) hround.dvd hlen hlt
      have hstep : writeData f (placeAll off (s :: sections))
          = writeData ((f.seek off).write s.data)
            (placeAll (alignTo (off + s.data.length) FILE_ALIGNMENT) sections) := by
        show writeData ((f.seek (UInt32.ofNat off).toNat).write s.data) _ = _
        rw [hpointer]
      rw [hstep]
      refine ⟨?_, hrestLen⟩
      change padTo (endOf (alignTo (off + s.data.length) FILE_ALIGNMENT) sections) _ = _
      rw [hrest, hcontents, List.map_cons, List.flatten_cons, List.append_assoc]

/-! ## write_pe -/

/-- The headers of the file with the section table behind them, padded with zeros to the size that
is announced. -/
def frontOf (coff : PeCoffHeader) (opt : PeOptionalHeader) (sections : List PeSection) :
    List UInt8 :=
  padTo opt.sizeOfHeaders.toNat (record (headFields coff opt) ++
    ((placeAll opt.sizeOfHeaders.toNat sections).map PeSection.header).flatten)

theorem insertionSort_zipIdx {sections : List PeSection} (h : Arranged sections) :
    (sections.zipIdx.insertionSort fun s t => s.1.virtualAddress ≤ t.1.virtualAddress)
      = sections.zipIdx := by
  apply List.Pairwise.insertionSort_eq
  have hasc : sections.Pairwise fun s t => s.virtualAddress ≤ t.virtualAddress := by
    refine h.ascending.imp fun {s t} hle => ?_
    rw [UInt32.le_iff_toNat_le]
    exact le_trans (Nat.le_add_right _ _) hle
  have hmap : (sections.zipIdx.map Prod.fst).Pairwise fun s t =>
      s.virtualAddress ≤ t.virtualAddress := by
    rw [List.zipIdx_map_fst]
    exact hasc
  exact (List.pairwise_map (R := fun s t : PeSection =>
    s.virtualAddress ≤ t.virtualAddress)).mp hmap

/-- **write_pe**: the headers and the data, one behind the other, if the sections are arranged and
the file is below 4 GiB. -/
theorem writePe_ok {coff : PeCoffHeader} {opt : PeOptionalHeader} {sections : List PeSection}
    {file : List UInt8} (harr : Arranged sections) (hdvd : 512 ∣ opt.sizeOfHeaders.toNat)
    (hlt : endOf opt.sizeOfHeaders.toNat sections < 2 ^ 32)
    (hok : writePe coff opt sections = .ok file) :
    file = frontOf coff opt sections ++ (sections.map PeSection.raw).flatten ∧
      (frontOf coff opt sections).length = opt.sizeOfHeaders.toNat := by
  unfold writePe at hok
  rw [insertionSort_zipIdx harr] at hok
  obtain ⟨⟨placed, last⟩, hlayout, hok⟩ := bind_eq_ok.mp hok
  obtain ⟨hplaced, hlast⟩ := layoutSections_ok hlayout
  rw [List.zipIdx_map_fst] at hplaced hlast
  subst hlast
  have hlen : (placeAll opt.sizeOfHeaders.toNat sections).length
      = (sections.zipIdx.map Prod.snd).length := by
    rw [length_placeAll, List.length_map, List.length_zipIdx]
  have hfst : placed.map Prod.fst = placeAll opt.sizeOfHeaders.toNat sections := by
    rw [hplaced, List.map_fst_zip (Nat.le_of_eq hlen)]
  have hindex : (placed.insertionSort fun s t => s.2 ≤ t.2) = placed := by
    apply List.Pairwise.insertionSort_eq
    have hmap : (placed.map Prod.snd).Pairwise (· ≤ ·) := by
      rw [hplaced, List.map_snd_zip (Nat.le_of_eq hlen.symm), List.zipIdx_map_snd]
      exact List.pairwise_le_range'
    exact List.pairwise_map.mp hmap
  clear hplaced hlayout hlen
  -- the headers of the sections
  obtain ⟨hhead, hheadEnd⟩ := contents_writeHeaders coff opt
  obtain ⟨hall, hallEnd⟩ :=
    @foldl_write_at_end _ (fun s : PeSection × Nat => s.1.header) placed _ hheadEnd
  have hheaders : placed.map (fun s : PeSection × Nat => s.1.header)
      = (placeAll opt.sizeOfHeaders.toNat sections).map PeSection.header := by
    rw [← hfst, List.map_map]
    rfl
  rw [hhead, hheaders] at hall
  dsimp only at hok
  split at hok
  · cases hok
  · rename_i hroom
    rw [hallEnd, hall] at hroom
    have hfits := Nat.le_of_not_lt hroom
    rw [hindex, hfst] at hok
    -- the data
    obtain ⟨hdata, hend⟩ := writeData_placeAll hdvd (by rw [hall]; exact hfits) hlt
    rw [hall] at hdata
    have hfile := Except.ok.inj hok
    rw [SeekFile.truncate] at hfile
    change (padTo _ _).take _ = file at hfile
    rw [List.take_of_length_le (Nat.le_of_eq (length_padTo hend)), hdata] at hfile
    exact ⟨hfile.symm, length_padTo hfits⟩

end LoliLoader.PyElf2Efi
