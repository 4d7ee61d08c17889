/-
# LoliLoader.Elf2Efi.Allocator -- what malloc leaves in a segment

`load_segment` copies the bytes of the file and clears nothing behind them: its `memset` is given
the size zero. What `malloc` returned stays in the segment, and goes into the image when a
relocation makes the segment longer in the file.

The contents of fresh memory are a parameter of the model, a function from addresses to bytes for
each allocation. With it three things can be told apart: that the copy is zero filled for one
particular memory, that it is for every memory, and that the image does not depend on it at all.

`zero_filled_iff` has an exact condition for each of them. For one memory the bytes must happen to
be zero already, and for all memories there must be nothing to clear. The last part goes through the
whole converter, whose result is the same for any two memories if every segment is as large in the
file as in memory (`elf2efi_congr`).

The file of the example has 312 bytes of a segment of 424, and a relocation behind the 312.
-/
import LoliLoader.Elf2Efi.Access
import LoliLoader.Elf2Efi.Mapped
import LoliLoader.Elf2Efi.Placement

namespace LoliLoader.Elf2Efi

open C Bytes

/-! ## One segment -/

/-- The bytes of the file, and zeros behind them, as far as the segment goes in memory. -/
structure ZeroFilled (elf : SizedData) (phdr : Elf64Phdr) (s : Segment) : Prop where
  length : s.data.rawData.length = phdr.pMemsz.toNat
  file : s.data.rawData.take phdr.pFilesz.toNat =
    (elf.rawData.drop phdr.pOffset.toNat).take phdr.pFilesz.toNat
  zeros : ∀ k, phdr.pFilesz.toNat ≤ k → k < phdr.pMemsz.toNat → s.data.rawData[k]? = some 0

/-- A program header that the format permits in this file: no larger in the file than in memory, and
inside the file. -/
structure FitsFile (elf : SizedData) (phdr : Elf64Phdr) : Prop where
  sizes : phdr.pFilesz.toNat ≤ phdr.pMemsz.toNat
  inside : phdr.pOffset.toNat + phdr.pFilesz.toNat ≤ elf.rawData.length

section

variable {elf : SizedData} {phdr : Elf64Phdr}

/-- The content of a segment that is loaded: the file, then what was in memory. -/
theorem loadSegment_content (hdata : elf.rawData.length = elf.size.toNat)
    (hfits : FitsFile elf phdr)
    (hend : phdr.pOffset.toNat + phdr.pFilesz.toNat ≠ elf.size.toNat) (fresh : Nat → UInt8) :
    ∃ s, loadSegment fresh elf phdr = .ok s ∧
      s.data.rawData = (elf.rawData.drop phdr.pOffset.toNat).take phdr.pFilesz.toNat ++
        (List.range (phdr.pMemsz.toNat - phdr.pFilesz.toNat)).map
          fun k => fresh (phdr.pFilesz.toNat + k) := by
  have hsizes := hfits.sizes
  have hinside := hfits.inside
  have hlt := elf.size.toNat_lt
  have hread : readAt elf.rawData phdr.pOffset.toNat phdr.pFilesz.toNat =
      .ok ((elf.rawData.drop phdr.pOffset.toNat).take phdr.pFilesz.toNat) := by
    unfold readAt
    split
    · rename_i h0
      rw [h0, List.take_zero]
    · exact if_neg (by omega)
  refine ⟨_, bind_eq_ok.mpr ⟨(), ?_, bind_eq_ok.mpr ⟨phdr.pOffset.toNat, ?_,
    bind_eq_ok.mpr ⟨_, hread, rfl⟩⟩⟩, rfl⟩
  · exact assertMsg_eq_ok.mpr (decide_eq_true (UInt64.le_iff_toNat_le.mpr hsizes))
  · exact dataAtOffset_ok_iff.mpr ⟨by omega, rfl⟩

/-- **A segment is zero filled** exactly if the memory was zero already, and the data does not end
with the file, for then it is refused. -/
theorem zeroFilled_iff (hdata : elf.rawData.length = elf.size.toNat) (hfits : FitsFile elf phdr)
    (fresh : Nat → UInt8) :
    (∃ s, loadSegment fresh elf phdr = .ok s ∧ ZeroFilled elf phdr s) ↔
      phdr.pOffset.toNat + phdr.pFilesz.toNat ≠ elf.size.toNat ∧
        ∀ k, phdr.pFilesz.toNat ≤ k → k < phdr.pMemsz.toNat → fresh k = 0 := by
  have hsizes := hfits.sizes
  have hfile : ((elf.rawData.drop phdr.pOffset.toNat).take phdr.pFilesz.toNat).length =
      phdr.pFilesz.toNat := by
    have hinside := hfits.inside
    rw [List.length_take, List.length_drop]
    omega
  -- a byte behind those of the file
  have htail : ∀ k, phdr.pFilesz.toNat ≤ k → k < phdr.pMemsz.toNat →
      ((elf.rawData.drop phdr.pOffset.toNat).take phdr.pFilesz.toNat ++
        (List.range (phdr.pMemsz.toNat - phdr.pFilesz.toNat)).map
          fun k => fresh (phdr.pFilesz.toNat + k))[k]? = some (fresh k) := by
    intro k hle hlt
    rw [List.getElem?_append_right (by omega), hfile, List.getElem?_map,
      List.getElem?_range (by omega), Option.map_some, Nat.add_sub_cancel' hle]
  constructor
  · rintro ⟨s, hs, hzero⟩
    have hend := Nat.ne_of_lt (fileRange_lt hdata hs)
    refine ⟨hend, ?_⟩
    intro k hle hlt
    obtain ⟨s', hs', hcontent⟩ := loadSegment_content hdata hfits hend fresh
    obtain rfl := Except.ok.inj (hs.symm.trans hs')
    have hk := hzero.zeros k hle hlt
    rw [hcontent, htail k hle hlt] at hk
    exact Option.some.inj hk
  · rintro ⟨hend, hfresh⟩
    obtain ⟨s, hs, hcontent⟩ := loadSegment_content hdata hfits hend fresh
    refine ⟨s, hs, ?_, ?_, ?_⟩
    · rw [hcontent, List.length_append, hfile, List.length_map, List.length_range]
      omega
    · rw [hcontent, List.take_append_of_le_length (Nat.le_of_eq hfile.symm),
        List.take_of_length_le (Nat.le_of_eq hfile)]
    · intro k hle hlt
      rw [hcontent, htail k hle hlt, hfresh k hle hlt]

/-- Whatever `malloc` returns, there must be nothing to clear. -/
theorem zeroFilled_always_iff (hdata : elf.rawData.length = elf.size.toNat)
    (hfits : FitsFile elf phdr) :
    (∀ fresh, ∃ s, loadSegment fresh elf phdr = .ok s ∧ ZeroFilled elf phdr s) ↔
      phdr.pOffset.toNat + phdr.pFilesz.toNat ≠ elf.size.toNat ∧ phdr.pFilesz = phdr.pMemsz := by
  have hsizes := hfits.sizes
  constructor
  · intro h
    obtain ⟨hend, hones⟩ := (zeroFilled_iff hdata hfits fun _ => 1).mp (h _)
    refine ⟨hend, ?_⟩
    by_contra hne
    have hlt : phdr.pFilesz.toNat < phdr.pMemsz.toNat :=
      Nat.lt_of_le_of_ne hsizes fun heq => hne (UInt64.toNat_inj.mp heq)
    exact absurd (hones _ (Nat.le_refl _) hlt) (by decide)
  · rintro ⟨hend, heq⟩ fresh
    rw [zeroFilled_iff hdata hfits]
    refine ⟨hend, ?_⟩
    intro k hle hlt
    rw [heq] at hle
    omega

/-! ## The image -/

/-- A program header of which `load_segments` makes a segment. -/
def Elf64Phdr.IsLoaded (phdr : Elf64Phdr) : Prop :=
  phdr.pType = PT_LOAD ∨ phdr.pType = PT_DYNAMIC

theorem loadSegment_congr (h : phdr.pFilesz = phdr.pMemsz) (fresh fresh' : Nat → UInt8) :
    loadSegment fresh elf phdr = loadSegment fresh' elf phdr := by
  unfold loadSegment
  rw [h, Nat.sub_self]
  rfl

end

section

variable {elf : SizedData} {data data' : Nat → Nat → UInt8} {relocs : Bool → Nat → ExecReloc}

theorem loadSegmentsStep_congr {phdr : Elf64Phdr × Nat}
    (h : phdr.1.IsLoaded → phdr.1.pFilesz = phdr.1.pMemsz) (st : List Segment × Option Segment) :
    loadSegmentsStep ⟨data, relocs⟩ elf st phdr = loadSegmentsStep ⟨data', relocs⟩ elf st phdr := by
  unfold loadSegmentsStep
  split
  · rename_i htype
    rw [loadSegment_congr (h (Or.inr htype)) (data phdr.2) (data' phdr.2)]
  · split
    · rename_i htype
      rw [loadSegment_congr (h (Or.inl htype)) (data phdr.2) (data' phdr.2)]
    · rfl

theorem loadSegments_congr {ehdr : Elf64Ehdr} (h : ∀ phdrs, programHeaders elf ehdr = .ok phdrs →
      ∀ phdr ∈ phdrs, phdr.IsLoaded → phdr.pFilesz = phdr.pMemsz) :
    loadSegments ⟨data, relocs⟩ elf ehdr = loadSegments ⟨data', relocs⟩ elf ehdr := by
  have hloop : ∀ (l : List (Elf64Phdr × Nat)) (st : List Segment × Option Segment),
      (∀ p ∈ l, p.1.IsLoaded → p.1.pFilesz = p.1.pMemsz) →
      l.foldlM (loadSegmentsStep ⟨data, relocs⟩ elf) st =
        l.foldlM (loadSegmentsStep ⟨data', relocs⟩ elf) st := by
    intro l
    induction l with
    | nil => exact fun _ _ => rfl
    | cons p l ih =>
        intro st hl
        rw [List.foldlM_cons, List.foldlM_cons, loadSegmentsStep_congr (hl p List.mem_cons_self)]
        exact bind_congr fun st' => ih st' fun q hq => hl q (List.mem_cons_of_mem p hq)
  unfold loadSegments
  cases hphdrs : programHeaders elf ehdr with
  | error e => rfl
  | ok phdrs =>
      dsimp only [bind, Except.bind]
      rw [hloop]
      intro p hp
      exact h phdrs hphdrs p.1 (List.fst_mem_of_mem_zipIdx hp)

/-- The executable does not depend on what `malloc` returns for the segments. -/
theorem parseElf_congr {qsort : Qsort}
    (h : ∀ phdrs, programHeaders elf (elfHeader elf) = .ok phdrs →
      ∀ phdr ∈ phdrs, phdr.IsLoaded → phdr.pFilesz = phdr.pMemsz) :
    parseElf qsort ⟨data, relocs⟩ elf = parseElf qsort ⟨data', relocs⟩ elf := by
  unfold parseElf
  cases hp : dataAtOffset elf "EHDR" 0 64 with
  | error e => rfl
  | ok p =>
      dsimp only [bind, Except.bind]
      cases hbytes : readAt elf.rawData p 64 with
      | error e => rfl
      | ok bytes =>
          have hheader : Elf64Ehdr.ofBytes bytes = elfHeader elf := by
            rw [elfHeader, header_of_readAt hp hbytes]
          dsimp only
          rw [hheader, loadSegments_congr h]
          rfl

end

/-- **The image does not depend on the allocator** if nothing is left uninitialised: two heaps give
the same file, or the same failure. -/
theorem elf2efi_congr {path : String} {bytes : List UInt8} {elf : SizedData}
    (hfile : loadBinaryFile path bytes = .ok elf)
    (h : ∀ phdrs, programHeaders elf (elfHeader elf) = .ok phdrs →
      ∀ phdr ∈ phdrs, phdr.IsLoaded → phdr.pFilesz = phdr.pMemsz)
    (qsort : Qsort) (relocs : Bool → Nat → ExecReloc) (data data' : Nat → Nat → UInt8)
    (segname : Nat → Nat → UInt8) (base : UInt64) :
    elf2efi qsort ⟨data, relocs⟩ segname path bytes base =
      elf2efi qsort ⟨data', relocs⟩ segname path bytes base := by
  unfold elf2efi
  rw [hfile]
  dsimp only [bind, Except.bind]
  rw [parseElf_congr h]

theorem length_of_loadBinaryFile {path : String} {bytes : List UInt8} {elf : SizedData}
    (hsize : bytes.length < 2 ^ 64) (hfile : loadBinaryFile path bytes = .ok elf) :
    elf.rawData.length = elf.size.toNat := by
  obtain ⟨_, -, hfile⟩ := bind_eq_ok.mp hfile
  obtain rfl := Except.ok.inj hfile
  show bytes.length = (UInt64.ofNat bytes.length).toNat
  rw [UInt64.toNat_ofNat', Nat.mod_eq_of_lt hsize]

/-- **The copy of a segment is the file and zeros** for given memory when the memory is zero there,
for all memory when `p_filesz` is `p_memsz`, and never at the end of the file. With all loaded
segments so, the image is the same whatever `malloc` returns for them. -/
theorem zero_filled_iff {path : String} {bytes : List UInt8} {elf : SizedData}
    (hsize : bytes.length < 2 ^ 64) (hfile : loadBinaryFile path bytes = .ok elf) :
    (∀ phdr, FitsFile elf phdr → ∀ fresh,
      ((∃ s, loadSegment fresh elf phdr = .ok s ∧ ZeroFilled elf phdr s) ↔
        phdr.pOffset.toNat + phdr.pFilesz.toNat ≠ elf.size.toNat ∧
          ∀ k, phdr.pFilesz.toNat ≤ k → k < phdr.pMemsz.toNat → fresh k = 0)) ∧
    (∀ phdr, FitsFile elf phdr →
      ((∀ fresh, ∃ s, loadSegment fresh elf phdr = .ok s ∧ ZeroFilled elf phdr s) ↔
        phdr.pOffset.toNat + phdr.pFilesz.toNat ≠ elf.size.toNat ∧ phdr.pFilesz = phdr.pMemsz)) ∧
    ∀ phdrs, programHeaders elf (elfHeader elf) = .ok phdrs →
      (∀ phdr ∈ phdrs, phdr.IsLoaded → FitsFile elf phdr) →
      (((∀ phdr ∈ phdrs, phdr.IsLoaded → ∀ fresh, ∃ s, loadSegment fresh elf phdr = .ok s ∧
          ZeroFilled elf phdr s) ∧
        ∀ qsort relocs data data' segname base,
          elf2efi qsort ⟨data, relocs⟩ segname path bytes base =
            elf2efi qsort ⟨data', relocs⟩ segname path bytes base) ↔
        ∀ phdr ∈ phdrs, phdr.IsLoaded →
          phdr.pOffset.toNat + phdr.pFilesz.toNat ≠ elf.size.toNat ∧
            phdr.pFilesz = phdr.pMemsz) := by
  have hdata := length_of_loadBinaryFile hsize hfile
  refine ⟨fun phdr hfits => zeroFilled_iff hdata hfits,
    fun phdr hfits => zeroFilled_always_iff hdata hfits, ?_⟩
  intro phdrs hphdrs hfits
  constructor
  · rintro ⟨hclean, -⟩ phdr hmem hloaded
    exact (zeroFilled_always_iff hdata (hfits phdr hmem hloaded)).mp (hclean phdr hmem hloaded)
  · intro h
    refine ⟨?_, ?_⟩
    · intro phdr hmem hloaded
      exact (zeroFilled_always_iff hdata (hfits phdr hmem hloaded)).mpr (h phdr hmem hloaded)
    · intro qsort relocs data data' segname base
      refine elf2efi_congr hfile ?_ qsort relocs data data' segname base
      intro phdrs' hphdrs' phdr hmem hloaded
      obtain rfl := Except.ok.inj (hphdrs.symm.trans hphdrs')
      exact (h phdr hmem hloaded).2

/-! ## A relocation behind the file -/

/-- Of the segment of 424 bytes the file has the first 312: the others depend on what `malloc`
returns. -/
theorem zero_filled_iff_tail :
    (¬ ∀ fresh, ∃ s, loadSegment fresh tailFile tailPhdr = .ok s ∧
      ZeroFilled tailFile tailPhdr s) ∧
    ∃ s, loadSegment (fun _ => 0) tailFile tailPhdr = .ok s ∧
      ZeroFilled tailFile tailPhdr s := by
  have hfits : FitsFile tailFile tailPhdr := ⟨by decide +kernel, by decide +kernel⟩
  obtain ⟨hgiven, hall, -⟩ := zero_filled_iff (by decide +kernel) loadBinaryFile_tail
  refine ⟨?_, (hgiven tailPhdr hfits fun _ => 0).mpr ⟨by decide, fun _ _ _ => rfl⟩⟩
  rw [hall tailPhdr hfits]
  rintro ⟨-, heq⟩
  exact absurd heq (by decide)

/-- The byte at 312, and all up to the relocation, go into the image as `malloc` returned them. -/
theorem tail_not_cleared :
    (∃ phdrs, programHeaders tailFile (elfHeader tailFile) = .ok phdrs ∧ tailPhdr ∈ phdrs) ∧
    FitsFile tailFile tailPhdr ∧
    (¬ ∀ fresh, ∃ s, loadSegment fresh tailFile tailPhdr = .ok s ∧
      ZeroFilled tailFile tailPhdr s) ∧
    elf2efi mergeQsort ⟨fun _ _ => 0, fun _ _ => ⟨0, 0⟩⟩ (fun _ _ => 0) "a.elf" tailElf
        0x10000000 ≠
      elf2efi mergeQsort ⟨fun _ _ => 1, fun _ _ => ⟨0, 0⟩⟩ (fun _ _ => 0) "a.elf" tailElf
        0x10000000 := by
  have hfits : FitsFile tailFile tailPhdr := ⟨by decide +kernel, by decide +kernel⟩
  refine ⟨⟨_, programHeaders_tail, List.mem_cons_self⟩, hfits, ?_, by decide +kernel⟩
  rw [zeroFilled_always_iff (by decide +kernel) hfits]
  rintro ⟨-, heq⟩
  exact absurd heq (by decide)

end LoliLoader.Elf2Efi
