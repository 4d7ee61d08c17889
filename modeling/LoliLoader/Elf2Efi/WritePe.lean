/-
# LoliLoader.Elf2Efi.WritePe -- write_pe

The PE file, chunk by chunk: the headers, the section table, the raw data of the segments and of the
relocation table.

Every header is a list of fields with their widths, in the order of the structures in tools/pe.h, so
that it can be compared with them line by line. A value that is too large for its field is cut, as
it is when it is stored. The fields that the source leaves at zero are zero.

`layout_pe_file` computes where the raw data will be before any of them is written, and nothing
checks later that they are there. The sizes are rounded up to the alignment in the file, and a
segment with nothing in the file gets no raw data.

The name of a section is printed into a buffer on the stack of which more is copied than was
printed. What was there before is a parameter.

`convert` has the passes of `main` behind `parse_elf`.
-/
import LoliLoader.Elf2Efi.Relocate
import LoliLoader.Elf2Efi.RelocTable

namespace LoliLoader.Elf2Efi

open C Bytes

/-! ## Statistics and layout -/

/-- `Exec_Stats`: the sizes by kind that the optional header announces, and where the code
starts. -/
structure ExecStats where
  sizeOfCode : UInt32
  sizeOfInitializedData : UInt32
  sizeOfUninitializedData : UInt32
  baseOfCode : UInt32
  deriving DecidableEq, Repr

/-- The body of the loop in `get_exec_stats`: the segment counts as code, or as data of one kind or
the other. -/
def execStatsStep (baseAddress : UInt64) (stats : ExecStats) (segment : Segment) : ExecStats :=
  if segment.flags &&& SEGMENT_FLAGS_EXEC ≠ 0 then
    { stats with
      sizeOfCode := stats.sizeOfCode + segment.memsize.toUInt32
      baseOfCode :=
        if stats.baseOfCode = 0 then (segment.vaddr - baseAddress).toUInt32
        else stats.baseOfCode }
  else
    { stats with
      sizeOfInitializedData := stats.sizeOfInitializedData + segment.filesize.toUInt32
      sizeOfUninitializedData :=
        stats.sizeOfUninitializedData + (segment.memsize - segment.filesize).toUInt32 }

/-- `get_exec_stats`, over all segments, in 32 bits. -/
def getExecStats (exec : Executable) (baseAddress : UInt64) : ExecStats :=
  exec.segments.foldl (execStatsStep baseAddress) ⟨0, 0, 0, 0⟩

/-- Where the raw data of a section are in the file, and how many. -/
structure FileLayout where
  offset : UInt32
  size : UInt32
  deriving DecidableEq, Repr

/-- `has_pe_reloc`: there are relocations, and so there will be a section for their table. -/
def hasPeReloc (exec : Executable) : Bool := exec.relocs.length ≠ 0

/-- `pe_section_num`: a section for each segment, and one for the table. -/
def peSectionNum (exec : Executable) : UInt64 :=
  UInt64.ofNat exec.segments.length + if hasPeReloc exec then 1 else 0

/-- The loop in `layout_pe_file`, with the offset behind the last segment. -/
def layoutSegments (fileAlignment : UInt64) (offset : UInt32) :
    List Segment → List FileLayout × UInt32
  | [] => ([], offset)
  | segment :: segments =>
    let size := (align segment.filesize fileAlignment).toUInt32
    let (layouts, last) := layoutSegments fileAlignment (offset + size) segments
    (⟨offset, size⟩ :: layouts, last)

/-- `layout_pe_file`: the layouts of the segments, and that of `.reloc`, which means nothing
without relocations. -/
def layoutPeFile (exec : Executable) (sizeOfHeaders : UInt64) (peRelocs : SizedData)
    (fileAlignment : UInt64) : List FileLayout × FileLayout :=
  let (layouts, offset) := layoutSegments fileAlignment sizeOfHeaders.toUInt32 exec.segments
  (layouts, ⟨offset, (align peRelocs.size fileAlignment).toUInt32⟩)

/-! ## Headers -/

def PE_IMAGE_MACHINE_AMD64 : Nat := 0x8664
def PE_IMAGE_EXECUTABLE_IMAGE : Nat := 0x0002
def PE_IMAGE_LINE_NUMS_STRIPPED : Nat := 0x0004
def PE_IMAGE_LOCAL_SYMS_STRIPPED : Nat := 0x0008
def PE_IMAGE_LARGE_ADDRESS_AWARE : Nat := 0x0020
def PE_IMAGE_FILE_DEBUG_STRIPPED : Nat := 0x0200

def IMAGE_SUBSYSTEM_EFI_APPLICATION : Nat := 10

def IMAGE_DLLCHAR_HIGH_ENTROPY_VA : Nat := 0x0020
def IMAGE_DLLCHAR_DYNAMIC_BASE : Nat := 0x0040
def IMAGE_DLLCHAR_NX_COMPAT : Nat := 0x0100

def PE32_SCN_CNT_CODE : UInt32 := 0x00000020
def PE32_SCN_CNT_INITIALIZED_DATA : UInt32 := 0x00000040
def PE32_SCN_CNT_UNINITIALIZED_DATA : UInt32 := 0x00000080
def PE32_SCN_MEM_DISCARDABLE : UInt32 := 0x02000000
def PE32_SCN_MEM_EXECUTE : UInt32 := 0x20000000
def PE32_SCN_MEM_READ : UInt32 := 0x40000000
def PE32_SCN_MEM_WRITE : UInt32 := 0x80000000

/-- `PE_Dos_Header`: `magic` ("MZ"), `pad`, `pe_offset`. -/
def peDosHeader : List Field := [(2, 0x5A4D), (58, 0), (4, 64)]

/-- `PE_Header`; the signature is "PE" and two zeros. -/
def peHeader (numberOfSections : UInt16) : List Field :=
  [(4, 0x4550),
    (2, PE_IMAGE_MACHINE_AMD64),
    (2, numberOfSections.toNat),
    (4, 0),                       -- timedateStamp
    (4, 0),                       -- pointerToSymbolTable
    (4, 0),                       -- numberOfSymbols
    (2, 24 + 88 + 128),           -- sizeOfOptionalHeader
    (2, PE_IMAGE_EXECUTABLE_IMAGE + PE_IMAGE_LINE_NUMS_STRIPPED + PE_IMAGE_LOCAL_SYMS_STRIPPED +
      PE_IMAGE_LARGE_ADDRESS_AWARE + PE_IMAGE_FILE_DEBUG_STRIPPED)]

/-- `PE32Plus_Optional_Header`. -/
def pe32PlusOptionalHeader (stats : ExecStats) (addressOfEntryPoint : UInt32) : List Field :=
  [(2, 0x20b),
    (1, 0), (1, 0),               -- linker version
    (4, stats.sizeOfCode.toNat),
    (4, stats.sizeOfInitializedData.toNat),
    (4, stats.sizeOfUninitializedData.toNat),
    (4, addressOfEntryPoint.toNat),
    (4, stats.baseOfCode.toNat)]

/-- `PE32Plus_Optional_Windows_Header`. -/
def pe32PlusOptionalWindowsHeader (imageBase : UInt64)
    (sectionAlignment fileAlignment sizeOfImage sizeOfHeaders : UInt32) : List Field :=
  [(8, imageBase.toNat),
    (4, sectionAlignment.toNat),
    (4, fileAlignment.toNat),
    (2, 0), (2, 0),               -- OS version
    (2, 0), (2, 0),               -- image version
    (2, 0), (2, 0),               -- subsystem version
    (4, 0),                       -- win32VersionValue
    (4, sizeOfImage.toNat),
    (4, sizeOfHeaders.toNat),
    (4, 0),                       -- checkSum
    (2, IMAGE_SUBSYSTEM_EFI_APPLICATION),
    (2, IMAGE_DLLCHAR_HIGH_ENTROPY_VA + IMAGE_DLLCHAR_DYNAMIC_BASE + IMAGE_DLLCHAR_NX_COMPAT),
    (8, 128 * 1024),              -- sizeOfStackReserve
    (8, 16 * 1024),               -- sizeOfStackCommit
    (8, 1 * 1024 * 1024),         -- sizeOfHeapReserve
    (8, 128 * 1024),              -- sizeOfHeapCommit
    (4, 0),                       -- loaderFlags
    (4, 128 / 8)]                 -- numberOfRvaAndSizes

/-- `PE32_Optional_Data_Directory_Header`: `baseRelocation` is the sixth of sixteen entries. -/
def pe32OptionalDataDirectoryHeader (rva size : UInt32) : List Field :=
  List.replicate 10 (4, 0) ++ [(4, rva.toNat), (4, size.toNat)] ++ List.replicate 20 (4, 0)

/-- `PE32_Section_Header`. -/
structure Pe32SectionHeader where
  name : List UInt8
  virtualSize : UInt32
  virtualAddress : UInt32
  sizeOfRawData : UInt32
  pointerToRawData : UInt32
  pointerToRelocations : UInt32
  pointerToLineNumbers : UInt32
  numberOfRelocations : UInt16
  numberOfLineNumbers : UInt16
  characteristics : UInt32
  deriving DecidableEq, Repr

def Pe32SectionHeader.fields (h : Pe32SectionHeader) : List Field :=
  [(4, h.virtualSize.toNat),
    (4, h.virtualAddress.toNat),
    (4, h.sizeOfRawData.toNat),
    (4, h.pointerToRawData.toNat),
    (4, h.pointerToRelocations.toNat),
    (4, h.pointerToLineNumbers.toNat),
    (2, h.numberOfRelocations.toNat),
    (2, h.numberOfLineNumbers.toNat),
    (4, h.characteristics.toNat)]

def Pe32SectionHeader.bytes (h : Pe32SectionHeader) : List UInt8 := h.name ++ record h.fields

/-- The name of section `i`: `segname` printed to and cut to 8 bytes. What is behind the
terminator has not been initialized; `segname` says what is there. -/
def sectionName (segname : Nat → UInt8) (i : Nat) : List UInt8 :=
  let printed := (ascii ".seg" ++ ascii (toString (i % 2 ^ 32))).take 8 ++ [0]
  (printed ++ ((List.range 9).map segname).drop printed.length).take 8

/-- The header of the section for a segment. -/
def segmentHeader (segname : Nat → UInt8) (baseAddress : UInt64) (i : Nat) (segment : Segment)
    (layout : FileLayout) : Pe32SectionHeader where
  name := sectionName segname i
  virtualSize := segment.memsize.toUInt32
  virtualAddress := (segment.vaddr - baseAddress).toUInt32
  sizeOfRawData := (align segment.filesize 512).toUInt32
  pointerToRawData := if segment.filesize ≠ 0 then layout.offset else 0
  pointerToRelocations := 0
  pointerToLineNumbers := 0
  numberOfRelocations := 0
  numberOfLineNumbers := 0
  characteristics :=
    (if segment.flags &&& SEGMENT_FLAGS_EXEC ≠ 0 then PE32_SCN_CNT_CODE
      else if segment.filesize = 0 then PE32_SCN_CNT_UNINITIALIZED_DATA
      else PE32_SCN_CNT_INITIALIZED_DATA) |||
    (if segment.flags &&& SEGMENT_FLAGS_EXEC ≠ 0 then PE32_SCN_MEM_EXECUTE else 0) |||
    (if segment.flags &&& SEGMENT_FLAGS_READ ≠ 0 then PE32_SCN_MEM_READ else 0) |||
    (if segment.flags &&& SEGMENT_FLAGS_WRITE ≠ 0 then PE32_SCN_MEM_WRITE else 0)

/-- The header of the `.reloc` section. -/
def relocHeader (rva : UInt64) (peRelocs : SizedData) (layout : FileLayout) :
    Pe32SectionHeader where
  name := ascii ".reloc" ++ [0, 0]
  virtualSize := peRelocs.size.toUInt32
  virtualAddress := rva.toUInt32
  sizeOfRawData := layout.size
  pointerToRawData := layout.offset
  pointerToRelocations := 0
  pointerToLineNumbers := 0
  numberOfRelocations := 0
  numberOfLineNumbers := 0
  characteristics :=
    PE32_SCN_CNT_INITIALIZED_DATA ||| PE32_SCN_MEM_DISCARDABLE ||| PE32_SCN_MEM_READ

/-! ## The file -/

/-- `write_chunk` of the first `size` bytes of `data`, then `write_padding` up to `total`. -/
def writePadded (data : List UInt8) (size total : UInt64) : Except Failure (List UInt8) :=
  if data.length < size.toNat then .error (.fault (.read data.length))
  else .ok (data.take size.toNat ++ List.replicate (total - size).toNat 0)

/-- The headers in front of the section table. -/
def peHeaders (exec : Executable) (baseAddress relocVaddr sizeOfImage sizeOfHeaders : UInt64)
    (peRelocs : SizedData) : List Field :=
  peDosHeader ++
  peHeader (peSectionNum exec).toUInt16 ++
  pe32PlusOptionalHeader (getExecStats exec baseAddress) (exec.entryAddr - baseAddress).toUInt32 ++
  pe32PlusOptionalWindowsHeader baseAddress exec.executableAlignment 512 sizeOfImage.toUInt32
    sizeOfHeaders.toUInt32 ++
  if hasPeReloc exec then
    pe32OptionalDataDirectoryHeader (relocVaddr - baseAddress).toUInt32 peRelocs.size.toUInt32
  else pe32OptionalDataDirectoryHeader 0 0

/-- The section table. -/
def sectionTable (segname : Nat → Nat → UInt8) (exec : Executable)
    (baseAddress relocVaddr : UInt64) (peRelocs : SizedData)
    (layouts : List FileLayout × FileLayout) : List Pe32SectionHeader :=
  ((exec.segments.zip layouts.1).mapIdx fun i s =>
    segmentHeader (segname i) baseAddress i s.1 s.2) ++
  if hasPeReloc exec then [relocHeader (relocVaddr - baseAddress) peRelocs layouts.2] else []

/-- `write_pe`: the bytes of the file. `segname` is what is on the stack where the name of each
section is printed. -/
def writePe (segname : Nat → Nat → UInt8) (exec : Executable) (baseAddress : UInt64)
    (peRelocs : SizedData) : Except Failure (List UInt8) := do
  if exec.executableAlignment % 512 ≠ 0 then
    .error (.exit (.printf "Alignment required by ELF (%u) isn't a multiple of %u\n"
      [.int exec.executableAlignment.toNat, .int 512]))
  let headerSize := peImageHeaderSize (peSectionNum exec)
  let sizeOfHeaders := align headerSize 512
  let layouts := layoutPeFile exec sizeOfHeaders peRelocs 512
  match exec.segments.getLast? with
  | none => .error (.fault .null)
  | some lastSegment =>
    let alignment := exec.executableAlignment.toUInt64
    divisor alignment
    let relocVaddr := align (lastSegment.vaddr + lastSegment.memsize) alignment
    let sizeOfImage := align (relocVaddr + peRelocs.size - baseAddress) alignment
    let raw ← (exec.segments.zip layouts.1).mapM fun s =>
      writePadded s.1.data.rawData s.1.filesize s.2.size.toUInt64
    let relocs ← if hasPeReloc exec then
        writePadded peRelocs.rawData peRelocs.size layouts.2.size.toUInt64
      else .ok []
    return record (peHeaders exec baseAddress relocVaddr sizeOfImage sizeOfHeaders peRelocs) ++
      ((sectionTable segname exec baseAddress relocVaddr peRelocs layouts).flatMap
        Pe32SectionHeader.bytes ++
      (List.replicate (sizeOfHeaders - headerSize).toNat 0 ++ (raw.flatten ++ relocs)))

/-- The passes of `main` behind `parse_elf`, one after the other, on an executable. -/
def convert (segname : Nat → Nat → UInt8) (exec : Executable) (baseAddress : UInt64) :
    Except Failure (List UInt8) := do
  let exec ← relocateExec exec baseAddress
  let exec ← applyRelocs exec
  let peRelocs ← createPeReloc exec baseAddress
  writePe segname exec baseAddress peRelocs

end LoliLoader.Elf2Efi
