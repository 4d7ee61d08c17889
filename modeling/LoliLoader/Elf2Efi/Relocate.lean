/-
# LoliLoader.Elf2Efi.Relocate -- relocate_exec and apply_relocs

Segments are moved to their place in the PE image and expanded down to their alignment; then the
relocated words are stored in their data.

`relocate_exec` first decides whether there is room for the headers before the first segment, and if
not, advances all addresses. Then each segment is expanded: its address goes down to a multiple of
its alignment, and as many zeros are put in front of its data. Divisions are made explicitly here,
since an alignment may be zero.

`apply_relocs` looks every relocation up with `data_at_vaddr`, stores eight bytes, and makes the
file-backed part of the segment longer if the word is behind it. The lookup may find another segment
than the one the word is in, and the store may cross the end of the part; both are kept.

The numbers are those of the source: addresses of 64 bits, header sizes of 32.
-/
import LoliLoader.Elf2Efi.Executable
import LoliLoader.Bytes.LittleEndian

namespace LoliLoader.Elf2Efi

open C Bytes

/-! ## relocate_exec -/

/-- `PE32Plus_Image_Header_Size`: five headers, and one of 40 bytes for each section. -/
def peImageHeaderSize (nsections : UInt64) : UInt64 := 64 + 24 + 24 + 88 + 128 + 40 * nsections

/-- What `relocate_exec` adds to the base address when there is no room for the headers before
the first segment. -/
def headerOffset (exec : Executable) (first : Segment) : Except Failure UInt64 := do
  let headerSize := peImageHeaderSize (UInt64.ofNat exec.segments.length + 1)
  if first.vaddr ≤ headerSize then
    divisor exec.executableAlignment.toUInt64
    return (align headerSize exec.executableAlignment.toUInt64).toUInt32.toUInt64
  else
    return 0

/-- The body of the loop over the segments in `relocate_exec`. -/
def relocateSegment (baseAddress : UInt64) (segment : Segment) : Except Failure Segment := do
  let vaddr := segment.vaddr + baseAddress
  divisor segment.alignment.toUInt64
  let alignedAddr := alignDown vaddr segment.alignment.toUInt64
  let offset := (vaddr - alignedAddr).toUInt32
  let newSize := segment.memsize + offset.toUInt64
  let newData ← copyBehind offset.toNat segment.memsize.toNat newSize.toNat segment.data.rawData
  return { segment with
    vaddr := alignedAddr
    filesize := segment.filesize + offset.toUInt64
    memsize := newSize
    data := { segment.data with
      rawData := newData
      size := segment.data.size + offset.toUInt64 } }

/-- `relocate_exec`: the entry point, the segments and the relocations are moved by the base and by
what the headers need. -/
def relocateExec (exec : Executable) (baseAddress : UInt64) : Except Failure Executable := do
  match exec.segments with
  | [] => .error (.fault (.read 0))
  | first :: _ =>
    let baseAddress := baseAddress + (← headerOffset exec first)
    let segments ← exec.segments.mapM (relocateSegment baseAddress)
    return { exec with
      entryAddr := exec.entryAddr + baseAddress
      segments := segments
      relocs := exec.relocs.map fun r => ⟨r.vaddr + baseAddress, r.addend + baseAddress⟩ }

/-! ## apply_relocs -/

/-- The body of the loop in `apply_relocs`: the word is stored where `data_at_vaddr` finds it, and
the file-backed part is made longer if it ends before the slot. -/
def applyReloc (exec : Executable) (reloc : ExecReloc) : Except Failure Executable := do
  let (i, p) ← dataAtVaddr exec "relocation target" reloc.vaddr 8
  match exec.segments[i]? with
  | none => .error (.fault .null)
  | some segment =>
    let rawData ← storeAt segment.data.rawData p.toNat (leBytes 8 reloc.addend.toNat)
    let segmentOffset := reloc.vaddr - segment.vaddr
    let filesize := if segmentOffset ≥ segment.filesize then segmentOffset + 8 else segment.filesize
    let segment := { segment with
      filesize := filesize
      data := { segment.data with rawData := rawData } }
    return { exec with segments := exec.segments.set i segment }

/-- `apply_relocs`: all relocations, in their order. -/
def applyRelocs (exec : Executable) : Except Failure Executable :=
  exec.relocs.foldlM applyReloc exec

end LoliLoader.Elf2Efi
