/-
# LoliLoader.Elf2Efi.Parse -- parse_elf

An ELF file becomes an executable: its segments, sorted by address, and the relocations that its
dynamic segment names. Memory from `malloc` holds anything; what it holds is a parameter.

The functions are those of tools/elf2efi.c, in its order and with its checks. Each has its slips as
they are: the `memset` with no size, the index of the dynamic table that counts bytes, the address
of a table that is taken for an offset, and the relocations that are stored at the index of their
entry. They are treated one by one in modules of their own.

Two functions of the C library are parameters. `Qsort` is any function with the properties that the
standard gives it, and `Heap` is what fresh memory holds. Of the allocating functions it is assumed
that they succeed.

`load_relocs` puts the relocations of two tables into one array, the second behind the first. The
array and the number of elements that count are kept apart, since they are computed apart.
-/
import LoliLoader.Elf2Efi.Elf
import LoliLoader.Elf2Efi.Alignment

namespace LoliLoader.Elf2Efi

open C Bytes

/-! ## The C library -/

/-- `qsort`: whatever the comparison says, the elements are only moved around. They end up in
order when it is an order. -/
structure Qsort where
  sort : {α : Type} → (α → α → Int32) → List α → List α
  perm : ∀ {α : Type} (compare : α → α → Int32) (l : List α), (sort compare l).Perm l
  sorted : ∀ {α : Type} (compare : α → α → Int32) (l : List α),
    (∀ a ∈ l, ∀ b ∈ l, compare a b ≤ 0 ∨ compare b a ≤ 0) →
    (∀ a ∈ l, ∀ b ∈ l, ∀ c ∈ l, compare a b ≤ 0 → compare b c ≤ 0 → compare a c ≤ 0) →
    (sort compare l).Pairwise fun a b => compare a b ≤ 0

/-- A library that sorts by merging, and that moves nothing unless it has to. -/
def mergeQsort : Qsort where
  sort compare l := (l.attach.mergeSort fun a b => compare a.1 b.1 ≤ 0).map Subtype.val
  perm compare l := by
    have h := (List.mergeSort_perm l.attach fun a b => compare a.1 b.1 ≤ 0).map Subtype.val
    rwa [List.attach_map_subtype_val] at h
  sorted compare l htotal htrans := by
    have h := @List.pairwise_mergeSort _ (fun a b : { x // x ∈ l } => decide (compare a.1 b.1 ≤ 0))
      (fun a b c hab hbc => decide_eq_true (htrans a.1 a.2 b.1 b.2 c.1 c.2
        (of_decide_eq_true hab) (of_decide_eq_true hbc)))
      (fun a b => by simpa using htotal a.1 a.2 b.1 b.2) l.attach
    rw [List.pairwise_map]
    exact h.imp fun hab => of_decide_eq_true hab

/-- What memory holds that was allocated and never written, for each of the allocations that are
looked at. -/
structure Heap where
  /-- the copy of the data of each program header -/
  data : Nat → Nat → UInt8
  /-- the relocations, after `malloc` and after `realloc` -/
  relocs : Bool → Nat → ExecReloc

/-! ## Segments -/

/-- `valid_ehdr`: the converter takes 64-bit little endian executables for x86-64, and says so of
others. -/
def validEhdr (ehdr : Elf64Ehdr) : Except Failure Unit := do
  assertMsg (ehdr.eIdent.take 4 = [0x7f, 0x45, 0x4c, 0x46]) (.printf "invalid ELF header\n" [])
  assertMsg (ehdr.eIdent.getD EI_CLASS 0 = ELFCLASS64)
    (.printf "Only 64-bit ELF files are supported, got 0x%x in EI_CLASS\n"
      [.int (ehdr.eIdent.getD EI_CLASS 0).toNat])
  assertMsg (ehdr.eIdent.getD EI_DATA 0 = ELFDATA2LSB)
    (.printf "Only little endian ELF files are supported, got 0x%x in EI_DATA\n"
      [.int (ehdr.eIdent.getD EI_DATA 0).toNat])
  assertMsg (ehdr.eType = ET_DYN ∨ ehdr.eType = ET_EXEC)
    (.printf "Require executable or shared object files, got e_type == %x\n"
      [.int ehdr.eType.toNat])
  assertMsg (ehdr.eMachine = EM_X86_64)
    (.printf "Unsupporte machine type 0x%x\n" [.int ehdr.eMachine.toNat])
  assertMsg (ehdr.eEhsize = 64) (.printf "Unsupported ELF EHDR size %u\n" [.int ehdr.eEhsize.toNat])
  assertMsg (ehdr.ePhentsize = 56)
    (.printf "Unsupported ELF PHDR size %u\n" [.int ehdr.ePhentsize.toNat])

/-- The flags of a segment from those of its program header. -/
def segmentFlags (flags : UInt32) : UInt32 :=
  (if flags &&& PF_R ≠ 0 then SEGMENT_FLAGS_READ else 0) |||
  (if flags &&& PF_W ≠ 0 then SEGMENT_FLAGS_WRITE else 0) |||
  (if flags &&& PF_X ≠ 0 then SEGMENT_FLAGS_EXEC else 0)

/-- `load_segment`. The `memset` of the rest of the copy is given the size
`p_memsz - p_memsz`, so what `malloc` returned stays there. -/
def loadSegment (fresh : Nat → UInt8) (elf : SizedData) (phdr : Elf64Phdr) :
    Except Failure Segment := do
  assertMsg (phdr.pFilesz ≤ phdr.pMemsz) (.printf
    "invalid in-memory size %lu for segment at offset 0x%lx, which is smaller than in-file size %lu\n"
    [.int phdr.pMemsz.toNat, .int phdr.pOffset.toNat, .int phdr.pFilesz.toNat])
  let p ← dataAtOffset elf "segment data" phdr.pOffset phdr.pFilesz
  let fileData ← readAt elf.rawData p phdr.pFilesz.toNat
  return {
    vaddr := phdr.pVaddr
    memsize := phdr.pMemsz
    alignment := phdr.pAlign.toUInt32
    flags := segmentFlags phdr.pFlags
    filesize := phdr.pFilesz
    data := {
      name := "segment at offset 0x" ++ String.ofList (Nat.toDigits 16 phdr.pOffset.toNat)
      rawData := fileData ++
        (List.range (phdr.pMemsz.toNat - phdr.pFilesz.toNat)).map
          fun k => fresh (phdr.pFilesz.toNat + k)
      size := phdr.pMemsz } }

/-- The program headers that `load_segments` goes over. -/
def programHeaders (elf : SizedData) (ehdr : Elf64Ehdr) : Except Failure (List Elf64Phdr) := do
  let phdrSize := ehdr.ePhnum.toUInt64 * 56
  let p ← dataAtOffset elf "PHDR" ehdr.ePhoff phdrSize
  let bytes ← readAt elf.rawData p phdrSize.toNat
  return records Elf64Phdr.ofBytes 56 ehdr.ePhnum.toNat bytes

/-- The body of the loop in `load_segments`: the segments so far, and the dynamic one. -/
def loadSegmentsStep (heap : Heap) (elf : SizedData) (st : List Segment × Option Segment)
    (phdr : Elf64Phdr × Nat) : Except Failure (List Segment × Option Segment) :=
  if phdr.1.pType = PT_DYNAMIC then do
    let dynamic ← loadSegment (heap.data phdr.2) elf phdr.1
    return (st.1, some dynamic)
  else if phdr.1.pType = PT_LOAD then do
    let segment ← loadSegment (heap.data phdr.2) elf phdr.1
    return (st.1 ++ [segment], st.2)
  else return st

/-- `load_segments`: the segments to load, and the last dynamic segment, without which the program
ends. -/
def loadSegments (heap : Heap) (elf : SizedData) (ehdr : Elf64Ehdr) :
    Except Failure (List Segment × Segment) := do
  let phdrs ← programHeaders elf ehdr
  let st ← phdrs.zipIdx.foldlM (loadSegmentsStep heap elf) ([], none)
  match st.2 with
  | none => .error (.exit (.printf "no PT_DYNAMIC segment found\n" []))
  | some dynamic => return (st.1, dynamic)

/-! ## Relocations -/

/-- `dynamic_lookup_tag`, from some of its indices on. An index is used as a byte offset. -/
def dynamicLookupTagFrom (dynamic : Segment) (tag : UInt64) :
    List Nat → Except Failure (Option UInt64)
  | [] => .ok none
  | i :: is => do
    let p ← dataAtOffset dynamic.data "dynamic tag" (UInt64.ofNat i) 16
    let bytes ← readAt dynamic.data.rawData p 16
    let dyn := Elf64Dyn.ofBytes bytes
    if dyn.dTag = tag then return some dyn.dVal
    else dynamicLookupTagFrom dynamic tag is

/-- `dynamic_lookup_tag`. The index has 32 bits: it starts over where there are more entries than
it can count. -/
def dynamicLookupTag (dynamic : Segment) (tag : UInt64) : Except Failure (Option UInt64) :=
  let num := dynamic.filesize.toNat / 16
  if num < 2 ^ 32 then dynamicLookupTagFrom dynamic tag (List.range num)
  else do
    match ← dynamicLookupTagFrom dynamic tag (List.range (2 ^ 32)) with
    | some value => return some value
    | none => .error .endless

/-- The array that `malloc_checked` returns. It is assumed that the library has memory, and gives a
block that is not null also for a size of 0, as the common ones do for `malloc`: otherwise the
program ends with "failed to allocate memory". -/
def mallocRelocs (fresh : Nat → ExecReloc) (num : Nat) : List ExecReloc :=
  (List.range num).map fresh

/-- `realloc_checked`: what was in the array stays, up to its new size. The same is assumed of the
library. For a size of 0 that is an assumption which some do not meet: behind a `DT_RELA` table
without a relocation, and for a `DT_REL` table without an entry, a `realloc` that frees the block
and returns null makes the program end with the message about memory. Nothing is to be relocated
then. -/
def reallocRelocs (fresh : Nat → ExecReloc) (relocs : List ExecReloc) (num : Nat) :
    List ExecReloc :=
  (List.range num).map fun i => relocs.getD i (fresh i)

/-- `output[i] = reloc`; the element has to be in the array. -/
def storeReloc (relocs : List ExecReloc) (i : Nat) (reloc : ExecReloc) :
    Except Failure (List ExecReloc) :=
  if i < relocs.length then .ok (relocs.set i reloc)
  else .error (.fault (.write relocs.length))

/-- The loop of `load_rela_relocs` and `load_rel_relocs` from entry `i` on; `output` is `start`
elements into the array. An entry is stored at its own index, and the others leave gaps. -/
def loadEntries {α : Type} (rInfo : α → UInt64) (unsupported : String)
    (execReloc : α → Except Failure ExecReloc) (start : Nat) :
    List α → Nat → List ExecReloc → Nat → Except Failure (List ExecReloc × Nat)
  | [], _, relocs, effectiveNum => .ok (relocs, effectiveNum)
  | r :: rs, i, relocs, effectiveNum =>
    if ELF64_R_TYPE (rInfo r) = R_X86_64_NONE then
      loadEntries rInfo unsupported execReloc start rs (i + 1) relocs effectiveNum
    else if ELF64_R_TYPE (rInfo r) = R_X86_64_RELATIVE then do
      let reloc ← execReloc r
      let relocs ← storeReloc relocs (start + i) reloc
      loadEntries rInfo unsupported execReloc start rs (i + 1) relocs (effectiveNum + 1)
    else .error (.exit (.printf unsupported [.int (ELF64_R_TYPE (rInfo r)).toNat, .int i]))

/-- `load_rela_relocs`: the array and `effectiveNum`. -/
def loadRelaRelocs (output : List ExecReloc) (rela : List Elf64Rela) :
    Except Failure (List ExecReloc × Nat) :=
  loadEntries Elf64Rela.rInfo "Unsupported RELA relocation type %u, index %lu\n"
    (fun r => .ok ⟨r.rOffset, r.rAddend⟩) 0 rela 0 output 0

/-- The relocation for an entry of a REL table; its addend is in the memory that it names. -/
def relReloc (exec : Executable) (r : Elf64Rel) : Except Failure ExecReloc := do
  let (i, p) ← dataAtVaddr exec "addend for DT_REL" r.rOffset 8
  match exec.segments[i]? with
  | none => .error (.fault .null)
  | some segment =>
    let bytes ← readAt segment.data.rawData p.toNat 8
    return ⟨r.rOffset, UInt64.ofNat (ofLE bytes)⟩

/-- `load_rel_relocs`, with `output` at element `start` of the array. -/
def loadRelRelocs (exec : Executable) (relocs : List ExecReloc) (start : Nat)
    (rel : List Elf64Rel) : Except Failure (List ExecReloc × Nat) :=
  loadEntries Elf64Rel.rInfo "Unsupported REL relocation type %x, index %lu\n"
    (relReloc exec) start rel 0 relocs 0

/-- `reloc_compare`: the difference of the addresses, cut to an `int`. -/
def relocCompare (r₁ r₂ : ExecReloc) : Int32 := (r₁.vaddr - r₂.vaddr).toUInt32.toInt32

/-- The RELA table, if the dynamic segment has one. -/
def relaTable (elf : SizedData) (dynamic : Segment) :
    Except Failure (Option (List Elf64Rela)) := do
  match ← dynamicLookupTag dynamic DT_RELA with
  | none => return none
  | some offset =>
    match ← dynamicLookupTag dynamic DT_RELASZ with
    | none => .error (.exit (.printf "Missing DT_RELASZ entry paired with DT_RELA\n" []))
    | some size =>
      let num := size / 24
      let p ← dataAtOffset elf "RELA reloctions" offset (24 * num)
      let bytes ← readAt elf.rawData p (24 * num).toNat
      return some (records Elf64Rela.ofBytes 24 num.toNat bytes)

/-- The REL table, if the dynamic segment has one. -/
def relTable (elf : SizedData) (dynamic : Segment) : Except Failure (Option (List Elf64Rel)) := do
  match ← dynamicLookupTag dynamic DT_REL with
  | none => return none
  | some offset =>
    match ← dynamicLookupTag dynamic DT_RELSZ with
    | none => .error (.exit (.printf "Missing DT_RELSZ entry paired with DT_REL\n" []))
    | some size =>
      let num := size / 16
      let p ← dataAtOffset elf "REL reloctions" offset (16 * num)
      let bytes ← readAt elf.rawData p (16 * num).toNat
      return some (records Elf64Rel.ofBytes 16 num.toNat bytes)

/-- The first half of `load_relocs`: the array, and how many of its elements count. -/
def loadRelaTable (heap : Heap) : Option (List Elf64Rela) → Except Failure (List ExecReloc × Nat)
  | none => .ok ([], 0)
  | some rela => loadRelaRelocs (mallocRelocs (heap.relocs false) rela.length) rela

/-- The second half of `load_relocs`: the array is made longer, and the relocations of the REL table
go behind those that count. -/
def loadRelTable (heap : Heap) (exec : Executable) (relocs : List ExecReloc) (relocnum : Nat) :
    Option (List Elf64Rel) → Except Failure (List ExecReloc × Nat)
  | none => .ok (relocs, relocnum)
  | some rel => do
    let relocs := reallocRelocs (heap.relocs true) relocs (rel.length + relocnum)
    let (relocs, num) ← loadRelRelocs exec relocs relocnum rel
    return (relocs, relocnum + num)

/-- `load_relocs`: the first `relocnum` elements of the array, sorted. -/
def loadRelocs (qsort : Qsort) (heap : Heap) (exec : Executable) (elf : SizedData)
    (dynamic : Segment) : Except Failure (List ExecReloc) := do
  let rela ← relaTable elf dynamic
  let (relocs, relocnum) ← loadRelaTable heap rela
  let rel ← relTable elf dynamic
  let (relocs, relocnum) ← loadRelTable heap exec relocs relocnum rel
  return qsort.sort relocCompare (relocs.take relocnum)

/-! ## The executable -/

/-- `segment_compare`: the difference of the addresses, cut to an `int`. -/
def segmentCompare (s₁ s₂ : Segment) : Int32 := (s₁.vaddr - s₂.vaddr).toUInt32.toInt32

/-- `parse_elf`: the header, the segments by address, their common alignment, and the
relocations. -/
def parseElf (qsort : Qsort) (heap : Heap) (elf : SizedData) : Except Failure Executable := do
  let p ← dataAtOffset elf "EHDR" 0 64
  let bytes ← readAt elf.rawData p 64
  let ehdr := Elf64Ehdr.ofBytes bytes
  validEhdr ehdr
  let (segments, dynamic) ← loadSegments heap elf ehdr
  let segments := qsort.sort segmentCompare segments
  let exec : Executable := {
    entryAddr := ehdr.eEntry
    segments := segments
    dynamic := dynamic
    relocs := []
    executableAlignment := 0 }
  let relocs ← loadRelocs qsort heap exec elf dynamic
  let executableAlignment ← execAddressAlignment segments
  return { exec with relocs := relocs, executableAlignment := executableAlignment }

end LoliLoader.Elf2Efi
