/-
# LoliLoader.Elf2Efi.File -- what is in an ELF file

The segments of the file with zeros behind their bytes, the memory that they are, the dynamic table,
and the relocations that it leads to, all by addresses of the ELF file. `parse_elf` gives the same
segments when the memory it got was clear.

Everything in the first part is a reading of the bytes of the file and has nothing from the
converter: which program headers there are, what is in memory before any relocation, where the
tables of relocations are according to the dynamic table, and what their entries say. `fileMemory`
is the memory of the program when it is loaded at some distance from its addresses.

The tables are read in memory and not in the file, since the dynamic table gives addresses. This is
what a loader of ELF files does; the converter takes the addresses for offsets.

`ClearHeap` is the one thing that is said of `malloc`: that the bytes behind those of the file
happen to be zero. The converter needs it because it does not clear them itself.
-/
import LoliLoader.Bytes.Pieces
import LoliLoader.Elf2Efi.Allocator
import LoliLoader.Elf2Efi.Dynamic
import LoliLoader.Elf2Efi.Ordering
import LoliLoader.Elf2Efi.Tables

namespace LoliLoader.Elf2Efi

open C Bytes

/-! ## The file -/

/-- The program headers, if they can be read; none otherwise. -/
def fileHeaders (elf : SizedData) : List Elf64Phdr :=
  ((programHeaders elf (elfHeader elf)).toOption).getD []

/-- Those of the segments to load, in the order of the file. -/
def fileLoads (elf : SizedData) : List Elf64Phdr :=
  (fileHeaders elf).filter fun phdr => phdr.pType = PT_LOAD

/-- That of the dynamic segment, the last one if there are several. -/
def fileDynamic (elf : SizedData) : Option Elf64Phdr :=
  ((fileHeaders elf).filter fun phdr => phdr.pType = PT_DYNAMIC).getLast?

/-- A segment: the bytes of the file, and zeros behind them. -/
def Elf64Phdr.segment (elf : SizedData) (phdr : Elf64Phdr) : Segment where
  vaddr := phdr.pVaddr
  memsize := phdr.pMemsz
  alignment := phdr.pAlign.toUInt32
  flags := segmentFlags phdr.pFlags
  filesize := phdr.pFilesz
  data := {
    name := "segment at offset 0x" ++ String.ofList (Nat.toDigits 16 phdr.pOffset.toNat)
    rawData := (elf.rawData.drop phdr.pOffset.toNat).take phdr.pFilesz.toNat ++
      List.replicate (phdr.pMemsz.toNat - phdr.pFilesz.toNat) 0
    size := phdr.pMemsz }

/-- A segment and where it goes: all of its memory, at its address. -/
def Elf64Phdr.piece (elf : SizedData) (phdr : Elf64Phdr) : Nat × List UInt8 :=
  (phdr.pVaddr.toNat, (phdr.segment elf).data.rawData)

/-- The memory before any relocation: the segments at their addresses, and zeros elsewhere. -/
def unrelocated (elf : SizedData) : Space :=
  Space.zero.writeAll ((fileLoads elf).map (Elf64Phdr.piece elf))

/-- The value of a tag in the dynamic table, if there is a dynamic segment and it has the tag. -/
def fileTag (elf : SizedData) (tag : UInt64) : Option UInt64 :=
  (fileDynamic elf).bind fun phdr => tagValue (phdr.segment elf) tag

/-- The whole entries of a table, in memory at the address that the dynamic table gives. -/
def fileTable {α : Type} (ofBytes : List UInt8 → α) (elf : SizedData) (t : TableTags) : List α :=
  match fileTag elf t.tag, fileTag elf t.sizeTag with
  | some a, some size =>
    let num := size.toNat / t.entsize.toNat
    records ofBytes t.entsize.toNat num ((unrelocated elf).read a.toNat (t.entsize.toNat * num))
  | _, _ => []

/-- The relocation of an entry without addend: that is in the word to relocate. -/
def implicitReloc (elf : SizedData) (r : Elf64Rel) : ExecReloc :=
  ⟨r.rOffset, UInt64.ofNat (ofLE ((unrelocated elf).read r.rOffset.toNat 8))⟩

/-- The relocations of the file: those of the RELA table, and then those of the REL table, whose
addends are in memory. -/
def fileRelocs (elf : SizedData) : List ExecReloc :=
  relatives Elf64Rela.rInfo relaRelocOf (fileTable Elf64Rela.ofBytes elf relaTags) ++
    relatives Elf64Rel.rInfo (implicitReloc elf) (fileTable Elf64Rel.ofBytes elf relTags)

/-- **The memory of the program** when it is loaded `bias` away from its addresses, by these
addresses: each relocated word is its addend and the bias. -/
def fileMemory (elf : SizedData) (bias : UInt64) : Space :=
  (unrelocated elf).writeAll
    ((fileRelocs elf).map fun r => (r.vaddr.toNat, leBytes 8 (r.addend + bias).toNat))

/-! ## Clear memory -/

/-- What `malloc` returned for the segments is clear behind the bytes of the file. -/
def ClearHeap (heap : Heap) (elf : SizedData) : Prop :=
  ∀ p ∈ (fileHeaders elf).zipIdx, p.1.IsLoaded →
    ∀ k, p.1.pFilesz.toNat ≤ k → k < p.1.pMemsz.toNat → heap.data p.2 k = 0

/-- The segment is then that of the file. -/
theorem loadSegment_clear {fresh : Nat → UInt8} {elf : SizedData} {phdr : Elf64Phdr} {s : Segment}
    (hclear : ∀ k, phdr.pFilesz.toNat ≤ k → k < phdr.pMemsz.toNat → fresh k = 0)
    (h : loadSegment fresh elf phdr = .ok s) : s = phdr.segment elf := by
  unfold loadSegment at h
  obtain ⟨_, -, h⟩ := bind_eq_ok.mp h
  obtain ⟨p, hp, h⟩ := bind_eq_ok.mp h
  obtain ⟨fileData, hfile, h⟩ := bind_eq_ok.mp h
  obtain rfl := Except.ok.inj h
  obtain ⟨-, rfl⟩ := dataAtOffset_ok_iff.mp hp
  have hbytes : fileData = (elf.rawData.drop phdr.pOffset.toNat).take phdr.pFilesz.toNat := by
    unfold readAt at hfile
    split at hfile
    · rename_i hzero
      rw [hzero, List.take_zero]
      exact (Except.ok.inj hfile).symm
    · split at hfile
      · cases hfile
      · exact (Except.ok.inj hfile).symm
  have hzeros : (List.range (phdr.pMemsz.toNat - phdr.pFilesz.toNat)).map
      (fun k => fresh (phdr.pFilesz.toNat + k))
        = List.replicate (phdr.pMemsz.toNat - phdr.pFilesz.toNat) 0 := by
    rw [List.eq_replicate_iff]
    refine ⟨by simp, fun b hb => ?_⟩
    obtain ⟨k, hk, rfl⟩ := List.mem_map.mp hb
    rw [List.mem_range] at hk
    exact hclear _ (Nat.le_add_right _ _) (by omega)
  rw [Elf64Phdr.segment, ← hbytes, ← hzeros]

/-- The loop over the program headers: the segments in their order, and the last dynamic one. -/
theorem loadSegmentsLoop_clear {heap : Heap} {elf : SizedData} {l : List (Elf64Phdr × Nat)}
    (hclear : ∀ p ∈ l, p.1.IsLoaded →
      ∀ k, p.1.pFilesz.toNat ≤ k → k < p.1.pMemsz.toNat → heap.data p.2 k = 0)
    {st st' : List Segment × Option Segment}
    (h : l.foldlM (loadSegmentsStep heap elf) st = .ok st') :
    st'.1 = st.1 ++ ((l.map Prod.fst).filter fun p => p.pType = PT_LOAD).map
      (Elf64Phdr.segment elf) ∧
    st'.2 = ((((l.map Prod.fst).filter fun p => p.pType = PT_DYNAMIC).getLast?).map
      (Elf64Phdr.segment elf)).or st.2 := by
  induction l generalizing st with
  | nil =>
      obtain rfl := Except.ok.inj h
      simp
  | cons p l ih =>
      rw [List.foldlM_cons] at h
      obtain ⟨st₁, hstep, h⟩ := bind_eq_ok.mp h
      obtain ⟨hsegments, hdynamic⟩ := ih (fun q hq => hclear q (List.mem_cons_of_mem p hq)) h
      have hp := hclear p List.mem_cons_self
      rw [hsegments, hdynamic, List.map_cons]
      unfold loadSegmentsStep at hstep
      split at hstep
      · rename_i htype
        obtain ⟨dynamic, hload, hstep⟩ := bind_eq_ok.mp hstep
        obtain rfl := Except.ok.inj hstep
        obtain rfl := loadSegment_clear (hp (Or.inr htype)) hload
        have hnot : ¬ p.1.pType = PT_LOAD := by
          rw [htype]
          decide
        rw [List.filter_cons_of_neg (by simpa using hnot),
          List.filter_cons_of_pos (by simpa using htype), List.getLast?_cons]
        refine ⟨rfl, ?_⟩
        cases ((l.map Prod.fst).filter fun p => p.pType = PT_DYNAMIC).getLast? <;> simp
      · rename_i hnot
        have hskip : ((p.1 :: l.map Prod.fst).filter fun p => p.pType = PT_DYNAMIC)
            = (l.map Prod.fst).filter fun p => p.pType = PT_DYNAMIC :=
          List.filter_cons_of_neg (by simpa using hnot)
        rw [hskip]
        split at hstep
        · rename_i htype
          obtain ⟨segment, hload, hstep⟩ := bind_eq_ok.mp hstep
          obtain rfl := Except.ok.inj hstep
          obtain rfl := loadSegment_clear (hp (Or.inl htype)) hload
          simp [htype]
        · rename_i htype
          obtain rfl := Except.ok.inj hstep
          simp [htype]

/-- **The segments** are those of the file, and so is the dynamic one, when the memory was clear. -/
theorem loadSegments_clear {heap : Heap} {elf : SizedData} (hclear : ClearHeap heap elf)
    {result : List Segment × Segment}
    (h : loadSegments heap elf (elfHeader elf) = .ok result) :
    result.1 = (fileLoads elf).map (Elf64Phdr.segment elf) ∧
      (fileDynamic elf).map (Elf64Phdr.segment elf) = some result.2 := by
  unfold loadSegments at h
  obtain ⟨phdrs, hphdrs, h⟩ := bind_eq_ok.mp h
  obtain ⟨st, hloop, h⟩ := bind_eq_ok.mp h
  have hheaders : fileHeaders elf = phdrs := by
    rw [fileHeaders, hphdrs]
    rfl
  rw [ClearHeap, hheaders] at hclear
  have hall : phdrs.zipIdx.map Prod.fst = phdrs := List.zipIdx_map_fst 0 phdrs
  obtain ⟨hsegments, hdynamic⟩ := loadSegmentsLoop_clear hclear hloop
  rw [hall] at hsegments hdynamic
  rw [fileLoads, fileDynamic, hheaders]
  cases hst : st.2 with
  | none =>
      rw [hst] at h
      cases h
  | some dynamic =>
      rw [hst] at h hdynamic
      obtain rfl := Except.ok.inj h
      rw [Option.or_none] at hdynamic
      exact ⟨hsegments, hdynamic.symm⟩

/-- What `parse_elf` has made of a file, with the list of `load_relocs`: the parts of the executable
in terms of the file. -/
structure Read (qsort : Qsort) (heap : Heap) (elf : SizedData) (exec : Executable) : Prop where
  entry : exec.entryAddr = (elfHeader elf).eEntry
  segments : exec.segments.Perm ((fileLoads elf).map (Elf64Phdr.segment elf))
  dynamic : (fileDynamic elf).map (Elf64Phdr.segment elf) = some exec.dynamic
  relocs : ∃ exec₀ : Executable, exec₀.segments = exec.segments ∧
    loadRelocs qsort heap exec₀ elf exec.dynamic = .ok exec.relocs

theorem parseElf_clear {qsort : Qsort} {heap : Heap} {elf : SizedData} {exec : Executable}
    (hclear : ClearHeap heap elf) (h : parseElf qsort heap elf = .ok exec) :
    Read qsort heap elf exec := by
  obtain ⟨segments, dynamic, relocs, alignment, hsegments, hrelocs, -, rfl⟩ := parseElf_steps h
  obtain ⟨rfl, hdynamic⟩ := loadSegments_clear hclear hsegments
  exact ⟨rfl, qsort.perm _ _, hdynamic, _, rfl, hrelocs⟩

end LoliLoader.Elf2Efi
