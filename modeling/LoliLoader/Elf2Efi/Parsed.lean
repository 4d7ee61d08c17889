/-
# LoliLoader.Elf2Efi.Parsed -- what parse_elf gives

The segments of an executable that was parsed are those of the `PT_LOAD` program headers, each with
a copy of its data as large as its memory.

`Loaded` relates a segment to its program header, field by field, and says that its data begin with
the bytes of the file. What is behind them is not said: it is what `malloc` returned.
`loadSegments_inv` is the invariant of the loop over the program headers, from which also the
dynamic segment is known.

This is what later theorems start from when they are given a file that was converted. They never
open `parse_elf` again, and they get conditions on the file where they need conditions on segments,
by going through `Loaded`.

The order of the segments is that of the sorted list and not of the file. The lists are permutations
of each other, which is enough for all conditions here.
-/
import LoliLoader.Elf2Efi.Parse
import LoliLoader.Elf2Efi.Inversion

namespace LoliLoader.Elf2Efi

open C Bytes

theorem assertMsg_eq_ok {cond : Bool} {message : Output} {u : Unit} :
    assertMsg cond message = .ok u ↔ cond = true := by
  unfold assertMsg
  split <;> simp_all

theorem length_of_readAt {rawData bytes : List UInt8} {p n : Nat}
    (h : readAt rawData p n = .ok bytes) : bytes.length = n := by
  unfold readAt at h
  split at h
  · obtain rfl := Except.ok.inj h
    exact (by assumption : n = 0).symm
  · split at h
    · cases h
    · obtain rfl := Except.ok.inj h
      rw [List.length_take, List.length_drop]
      omega

/-- A segment and the program header that it is loaded from; the alignment has lost its upper
half. -/
structure Loaded (phdr : Elf64Phdr) (s : Segment) : Prop where
  vaddr : s.vaddr = phdr.pVaddr
  memsize : s.memsize = phdr.pMemsz
  alignment : s.alignment = phdr.pAlign.toUInt32
  filesize : s.filesize = phdr.pFilesz
  filesize_le : s.filesize ≤ s.memsize
  length : s.data.rawData.length = s.memsize.toNat
  size : s.data.size = s.memsize

theorem loadSegment_inv {fresh : Nat → UInt8} {elf : SizedData} {phdr : Elf64Phdr} {s : Segment}
    (h : loadSegment fresh elf phdr = .ok s) : Loaded phdr s := by
  unfold loadSegment at h
  obtain ⟨_, hsize, h⟩ := bind_eq_ok.mp h
  obtain ⟨p, -, h⟩ := bind_eq_ok.mp h
  obtain ⟨fileData, hfile, h⟩ := bind_eq_ok.mp h
  obtain rfl := Except.ok.inj h
  have hle : phdr.pFilesz ≤ phdr.pMemsz := of_decide_eq_true (assertMsg_eq_ok.mp hsize)
  refine ⟨rfl, rfl, rfl, rfl, hle, ?_, rfl⟩
  rw [UInt64.le_iff_toNat_le] at hle
  show (fileData ++ _).length = phdr.pMemsz.toNat
  rw [List.length_append, length_of_readAt hfile, List.length_map, List.length_range]
  omega

/-- What holds at each turn of the loop in `load_segments`, after `n` program headers: all segments
come from one of them. -/
structure SegmentsSoFar (phdrs : List Elf64Phdr) (n : Nat) (st : List Segment × Option Segment) :
    Prop where
  loaded : ∀ s ∈ st.1, ∃ phdr ∈ phdrs, phdr.pType = PT_LOAD ∧ Loaded phdr s
  dynamic : ∀ s, st.2 = some s → ∃ phdr ∈ phdrs, phdr.pType = PT_DYNAMIC ∧ Loaded phdr s
  count : st.1.length + (if st.2.isSome then 1 else 0) ≤ n

theorem loadSegmentsStep_inv {heap : Heap} {elf : SizedData} {phdrs : List Elf64Phdr} {n : Nat}
    {st st' : List Segment × Option Segment} {phdr : Elf64Phdr × Nat} (hmem : phdr.1 ∈ phdrs)
    (hinv : SegmentsSoFar phdrs n st) (h : loadSegmentsStep heap elf st phdr = .ok st') :
    SegmentsSoFar phdrs (n + 1) st' := by
  have hcount := hinv.count
  unfold loadSegmentsStep at h
  split at h
  · rename_i htype
    obtain ⟨dynamic, hload, h⟩ := bind_eq_ok.mp h
    obtain rfl := Except.ok.inj h
    refine ⟨hinv.loaded, ?_, ?_⟩
    · intro s hs
      obtain rfl := Option.some.inj hs
      exact ⟨phdr.1, hmem, htype, loadSegment_inv hload⟩
    · show st.1.length + 1 ≤ n + 1
      omega
  · split at h
    · rename_i htype
      obtain ⟨segment, hload, h⟩ := bind_eq_ok.mp h
      obtain rfl := Except.ok.inj h
      refine ⟨?_, hinv.dynamic, ?_⟩
      · intro s hs
        rcases List.mem_append.mp hs with hs | hs
        · exact hinv.loaded s hs
        · obtain rfl := List.mem_singleton.mp hs
          exact ⟨phdr.1, hmem, htype, loadSegment_inv hload⟩
      · rw [List.length_append, List.length_singleton]
        dsimp only
        omega
    · obtain rfl := Except.ok.inj h
      exact ⟨hinv.loaded, hinv.dynamic, by omega⟩

theorem loadSegmentsLoop_inv {heap : Heap} {elf : SizedData} {phdrs : List Elf64Phdr}
    {l : List (Elf64Phdr × Nat)} (hmem : ∀ phdr ∈ l, phdr.1 ∈ phdrs) {n : Nat}
    {st st' : List Segment × Option Segment} (hinv : SegmentsSoFar phdrs n st)
    (h : l.foldlM (loadSegmentsStep heap elf) st = .ok st') :
    SegmentsSoFar phdrs (n + l.length) st' := by
  induction l generalizing n st with
  | nil =>
      obtain rfl := Except.ok.inj h
      exact hinv
  | cons phdr l ih =>
      rw [List.foldlM_cons] at h
      obtain ⟨st₁, hstep, h⟩ := bind_eq_ok.mp h
      have hnext := ih (fun p hp => hmem p (List.mem_cons_of_mem phdr hp))
        (loadSegmentsStep_inv (hmem phdr List.mem_cons_self) hinv hstep) h
      have hlen : n + 1 + l.length = n + (phdr :: l).length := by
        rw [List.length_cons]
        omega
      rwa [hlen] at hnext

/-- **The segments** are those of the program headers, one of which is not `PT_LOAD` but that of the
dynamic segment. -/
theorem loadSegments_inv {heap : Heap} {elf : SizedData} {ehdr : Elf64Ehdr}
    {result : List Segment × Segment} (h : loadSegments heap elf ehdr = .ok result) :
    ∃ phdrs, programHeaders elf ehdr = .ok phdrs ∧ result.1.length < phdrs.length ∧
      (∀ s ∈ result.1, ∃ phdr ∈ phdrs, phdr.pType = PT_LOAD ∧ Loaded phdr s) ∧
      ∃ phdr ∈ phdrs, phdr.pType = PT_DYNAMIC ∧ Loaded phdr result.2 := by
  unfold loadSegments at h
  obtain ⟨phdrs, hphdrs, h⟩ := bind_eq_ok.mp h
  obtain ⟨st, hloop, h⟩ := bind_eq_ok.mp h
  have hmem : ∀ phdr ∈ phdrs.zipIdx, phdr.1 ∈ phdrs :=
    fun phdr hp => List.fst_mem_of_mem_zipIdx hp
  have hstart : SegmentsSoFar phdrs 0 ([], none) :=
    ⟨fun s hs => absurd hs List.not_mem_nil, fun s hs => absurd hs.symm (Option.some_ne_none s),
      Nat.le_refl 0⟩
  have hinv := loadSegmentsLoop_inv hmem hstart hloop
  have hcount := hinv.count
  rw [List.length_zipIdx, Nat.zero_add] at hcount
  split at h
  · cases h
  · rename_i dynamic hdynamic
    obtain rfl := Except.ok.inj h
    rw [hdynamic] at hcount
    refine ⟨phdrs, hphdrs, ?_, hinv.loaded, hinv.dynamic dynamic hdynamic⟩
    show st.1.length < _
    simp only [Option.isSome_some, ite_true] at hcount
    omega

theorem length_programHeaders {elf : SizedData} {ehdr : Elf64Ehdr} {phdrs : List Elf64Phdr}
    (h : programHeaders elf ehdr = .ok phdrs) : phdrs.length < 2 ^ 16 := by
  unfold programHeaders at h
  obtain ⟨p, -, h⟩ := bind_eq_ok.mp h
  obtain ⟨bytes, -, h⟩ := bind_eq_ok.mp h
  obtain rfl := Except.ok.inj h
  rw [records, List.length_map, List.length_range]
  exact ehdr.ePhnum.toNat_lt

/-- The header of the file, as `parse_elf` reads it. -/
def elfHeader (elf : SizedData) : Elf64Ehdr := Elf64Ehdr.ofBytes (elf.rawData.take 64)

theorem header_of_readAt {elf : SizedData} {p : Nat} {bytes : List UInt8}
    (hp : dataAtOffset elf "EHDR" 0 64 = .ok p) (hbytes : readAt elf.rawData p 64 = .ok bytes) :
    bytes = elf.rawData.take 64 := by
  unfold dataAtOffset at hp
  obtain ⟨_, -, hp⟩ := bind_eq_ok.mp hp
  have hzero : p = 0 := (Except.ok.inj hp).symm
  rw [hzero, readAt, if_neg (by decide)] at hbytes
  split at hbytes
  · cases hbytes
  · exact (Except.ok.inj hbytes).symm

/-- The steps of `parse_elf`, when it comes to its end: the header is the one at the start of the
file, and the sorted segments are what the relocations and the alignment are worked out for. -/
theorem parseElf_steps {qsort : Qsort} {heap : Heap} {elf : SizedData} {exec : Executable}
    (h : parseElf qsort heap elf = .ok exec) :
    ∃ segments dynamic relocs alignment,
      loadSegments heap elf (elfHeader elf) = .ok (segments, dynamic) ∧
      loadRelocs qsort heap ⟨(elfHeader elf).eEntry, qsort.sort segmentCompare segments, dynamic,
        [], 0⟩ elf dynamic = .ok relocs ∧
      execAddressAlignment (qsort.sort segmentCompare segments) = .ok alignment ∧
      exec = ⟨(elfHeader elf).eEntry, qsort.sort segmentCompare segments, dynamic, relocs,
        alignment⟩ := by
  unfold parseElf at h
  obtain ⟨p, hp, h⟩ := bind_eq_ok.mp h
  obtain ⟨bytes, hbytes, h⟩ := bind_eq_ok.mp h
  obtain ⟨_, -, h⟩ := bind_eq_ok.mp h
  obtain ⟨⟨segments, dynamic⟩, hsegments, h⟩ := bind_eq_ok.mp h
  obtain ⟨relocs, hrelocs, h⟩ := bind_eq_ok.mp h
  obtain ⟨alignment, halignment, h⟩ := bind_eq_ok.mp h
  obtain rfl := Except.ok.inj h
  have hheader : Elf64Ehdr.ofBytes bytes = elfHeader elf := by
    rw [elfHeader, header_of_readAt hp hbytes]
  rw [hheader] at hsegments hrelocs ⊢
  exact ⟨segments, dynamic, relocs, alignment, hsegments, hrelocs, halignment, rfl⟩

/-- What `parse_elf` gives: segments that come from the program headers, and an alignment that has
been computed from them. -/
structure Parsed (elf : SizedData) (exec : Executable) : Prop where
  segments : ∃ phdrs, programHeaders elf (elfHeader elf) = .ok phdrs ∧
    exec.segments.length < phdrs.length ∧
    (∀ s ∈ exec.segments, ∃ phdr ∈ phdrs, phdr.pType = PT_LOAD ∧ Loaded phdr s) ∧
    ∃ phdr ∈ phdrs, phdr.pType = PT_DYNAMIC ∧ Loaded phdr exec.dynamic
  alignment : execAddressAlignment exec.segments = .ok exec.executableAlignment

theorem parseElf_inv {qsort : Qsort} {heap : Heap} {elf : SizedData} {exec : Executable}
    (h : parseElf qsort heap elf = .ok exec) : Parsed elf exec := by
  obtain ⟨segments, dynamic, relocs, alignment, hsegments, -, halignment, rfl⟩ := parseElf_steps h
  have hperm := qsort.perm segmentCompare segments
  obtain ⟨phdrs, hphdrs, hcount, hloaded, hdynamic⟩ := loadSegments_inv hsegments
  refine ⟨⟨phdrs, hphdrs, ?_, ?_, hdynamic⟩, halignment⟩
  · rw [hperm.length_eq]
    exact hcount
  · intro s hs
    exact hloaded s (hperm.mem_iff.mp hs)

end LoliLoader.Elf2Efi
