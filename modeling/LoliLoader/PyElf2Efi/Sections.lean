/-
# LoliLoader.PyElf2Efi.Sections -- the sections of the image

The sections of the ELF file that are loaded become sections of the PE image: those next to each
other with the same rights become one, with padding where there is a gap.

`iter_copy_sections` decides which sections are kept. It passes over those that are not allocated or
empty, over some by their type and over some by their name. The rights are one of three kinds:
executable, writable or read-only, where the segment of `PT_GNU_RELRO` counts as read-only.

`convert_sections` takes what is yielded, pads it down to a page, gives it a name by its rights and
adds up the sizes for the optional header. `copy_sections` adds sections that are named on the
command line, at addresses of their own.

Data of a section may be `bytes`, which Python does not let one change, or a `bytearray`. The
difference is kept (`frozen`), since a relocation in a section of the first kind raises an
exception.
-/
import LoliLoader.PyElf2Efi.Elf

namespace LoliLoader.PyElf2Efi

open Bytes
open C (ascii)

/-! ## Headers -/

/-- `PeSection`, with its header and its data. `frozen` says that `data` is a `bytes`, not a
`bytearray`. -/
structure PeSection where
  name : List UInt8
  virtualSize : UInt32
  virtualAddress : UInt32
  sizeOfRawData : UInt32
  pointerToRawData : UInt32
  characteristics : UInt32
  data : List UInt8
  frozen : Bool
  deriving DecidableEq, Repr

/-- `PeSection()`: a header of zeros, and no data. -/
def PeSection.empty : PeSection := ⟨[], 0, 0, 0, 0, 0, [], false⟩

/-- `PeOptionalHeader32` or `PeOptionalHeader32Plus`, by `elfclass`; the latter has no
`BaseOfData`. -/
structure PeOptionalHeader where
  elfclass : ElfClass
  magic : UInt16
  sizeOfCode : UInt32
  sizeOfInitializedData : UInt32
  addressOfEntryPoint : UInt32
  baseOfCode : UInt32
  baseOfData : UInt32
  imageBase : UInt64
  sectionAlignment : UInt32
  fileAlignment : UInt32
  majorImageVersion : UInt16
  minorImageVersion : UInt16
  majorSubsystemVersion : UInt16
  minorSubsystemVersion : UInt16
  sizeOfImage : UInt32
  sizeOfHeaders : UInt32
  subsystem : UInt16
  dllCharacteristics : UInt16
  sizeOfStackReserve : UInt64
  sizeOfStackCommit : UInt64
  sizeOfHeapReserve : UInt64
  sizeOfHeapCommit : UInt64
  numberOfRvaAndSizes : UInt32
  baseRelocationTable : UInt32 × UInt32
  deriving DecidableEq, Repr

/-- `PeOptionalHeader32()` or `PeOptionalHeader32Plus()`. -/
def PeOptionalHeader.empty (elfclass : ElfClass) : PeOptionalHeader :=
  ⟨elfclass, 0, 0, 0, 0, 0, 0, 0, 0, 0, 0, 0, 0, 0, 0, 0, 0, 0, 0, 0, 0, 0, 0, (0, 0)⟩

/-! ## Constants -/

def PE_CHARACTERISTICS_RX : UInt32 := 0x60000020
def PE_CHARACTERISTICS_RW : UInt32 := 0xC0000040
def PE_CHARACTERISTICS_R : UInt32 := 0x40000040

/-- Sections that are passed over by their name, since nobody asks for them in an image. -/
def IGNORE_SECTIONS : List String := [".eh_frame", ".eh_frame_hdr", ".ARM.exidx", ".relro_padding"]

/-- Sections that are passed over by their type: those of the dynamic linker, and those that are not
for memory. -/
def IGNORE_SECTION_TYPES : List SectionType :=
  [.dynamic, .dynsym, .gnuAttributes, .gnuHash, .hash, .note, .rel, .rela, .relr, .strtab, .symtab]

def SECTION_ALIGNMENT : Nat := 4096
def FILE_ALIGNMENT : Nat := 512

/-! ## Alignment -/

/-- `align_to`, by the mask of a power of two, on integers without a width. -/
def alignTo (x align : Nat) : Nat := andNot (x + align - 1) (align - 1)

/-- `align_down`, by the mask of a power of two, on integers without a width. -/
def alignDown (x align : Nat) : Nat := andNot x (align - 1)

theorem roundedUp_page (x : Nat) : RoundedUp x 4096 (alignTo x SECTION_ALIGNMENT) :=
  roundedUp_andNot x 12

theorem roundedUp_file (x : Nat) : RoundedUp x 512 (alignTo x FILE_ALIGNMENT) :=
  roundedUp_andNot x 9

theorem alignDown_page (x : Nat) : alignDown x SECTION_ALIGNMENT = x / 4096 * 4096 :=
  andNot_two_pow_sub_one x 12

/-- `next_section_address`: the first page behind the last section, which there has to be. -/
def nextSectionAddress (sections : List PeSection) : Except PyError Nat :=
  match sections.getLast? with
  | none => .error .indexError
  | some s => .ok (alignTo (s.virtualAddress.toNat + s.virtualSize.toNat) SECTION_ALIGNMENT)

/-! ## iter_copy_sections -/

/-- The loop over the segments: the last one of type `PT_GNU_RELRO`, if the others are aligned. -/
def findRelro (segments : List ElfSegment) : Except PyError (Option ElfSegment) :=
  segments.foldlM (fun relro elfSeg =>
    if elfSeg.pType = .ptLoad ∧ elfSeg.pAlign % SECTION_ALIGNMENT ≠ 0 then
      .error (.badSectionError ("ELF segment PT_LOAD is not properly aligned (" ++
        toString elfSeg.pAlign ++ " != " ++ toString SECTION_ALIGNMENT ++ ")"))
    else if elfSeg.pType = .ptGnuRelro then .ok (some elfSeg)
    else .ok relro) none

/-- The sections that are passed over: not allocated, of a type or a name that is not wanted, or
empty. -/
def ignored (elfS : ElfSection) : Bool :=
  elfS.shFlags &&& SHF_ALLOC = 0 ∨ elfS.shType ∈ IGNORE_SECTION_TYPES ∨
    elfS.name ∈ IGNORE_SECTIONS ∨ elfS.shSize = 0

/-- The rights of a section in the image, as one of three kinds; what is made read-only after
relocation is read-only from the start. -/
def characteristicsOf (elf : ElfFile) (relro : Option ElfSegment) (elfS : ElfSection) : UInt32 :=
  -- PE images are always relro
  if relro.any fun elfSeg => elf.sectionInSegment elfSeg elfS then PE_CHARACTERISTICS_R
  else if elfS.shFlags &&& SHF_EXECINSTR ≠ 0 then PE_CHARACTERISTICS_RX
  else if elfS.shFlags &&& SHF_WRITE ≠ 0 then PE_CHARACTERISTICS_RW
  else PE_CHARACTERISTICS_R

/-- A section of the image that starts with `elfS`. -/
def startSection (elfS : ElfSection) (rwx : UInt32) : PeSection :=
  { PeSection.empty with
    virtualAddress := UInt32.ofNat elfS.shAddr
    characteristics := rwx
    data := elfS.data
    frozen := true }

/-- The loop over the sections, with `peS` assembled so far. -/
def iterCopyLoop (elf : ElfFile) (relro : Option ElfSegment) :
    Option PeSection → List ElfSection → Generator PeSection
  | none, [] => .stop
  | some peS, [] => .yield peS .stop
  | peS, elfS :: rest =>
    if ignored elfS then iterCopyLoop elf relro peS rest
    else if ¬ (elfS.shType = .progbits ∨ elfS.shType = .nobits) then
      .raise (.badSectionError
        ("Unknown section " ++ elfS.name ++ " with type " ++ elfS.shType.text))
    else
      let rwx := characteristicsOf elf relro elfS
      match peS with
      | none => iterCopyLoop elf relro (some (startSection elfS rwx)) rest
      | some peS =>
        if peS.characteristics ≠ rwx then
          .yield peS (iterCopyLoop elf relro (some (startSection elfS rwx)) rest)
        else if elfS.shAddr < peS.virtualAddress.toNat + peS.data.length then
          .raise .negativeCount
        else
          let padLen := elfS.shAddr - (peS.virtualAddress.toNat + peS.data.length)
          iterCopyLoop elf relro
            (some { peS with data := peS.data ++ (List.replicate padLen 0 ++ elfS.data) }) rest

/-- `iter_copy_sections`: the loop, once the segment that is made read-only is known. -/
def iterCopySections (elf : ElfFile) : Generator PeSection :=
  match findRelro elf.segments with
  | .error e => .raise e
  | .ok relro => iterCopyLoop elf relro none elf.sections

/-! ## convert_sections -/

/-- What the loop of `convert_sections` assigns: where the last section ends, the optional header,
and the sections so far. -/
structure Converted where
  lastVma : Nat × Nat
  opt : PeOptionalHeader
  sections : List PeSection

/-- The name of a section by its rights, looked up in a dictionary that has the three kinds. -/
def sectionNameOf (characteristics : UInt32) : Except PyError String :=
  if characteristics = PE_CHARACTERISTICS_RX then .ok ".text"
  else if characteristics = PE_CHARACTERISTICS_RW then .ok ".data"
  else if characteristics = PE_CHARACTERISTICS_R then .ok ".rodata"
  else .error .keyError

/-- A section from the page on that it starts in. -/
def padToPage (peS : PeSection) (name : String) : PeSection :=
  let vma := peS.virtualAddress.toNat
  let virtualAddress := UInt32.ofNat (alignDown vma SECTION_ALIGNMENT)
  let data := List.replicate (vma - virtualAddress.toNat) 0 ++ peS.data
  { peS with
    name := ascii name
    virtualAddress := virtualAddress
    virtualSize := UInt32.ofNat data.length
    sizeOfRawData := UInt32.ofNat (alignTo data.length FILE_ALIGNMENT)
    data := data
    frozen := false }

/-- `opt.SizeOfInitializedData` with one more section. -/
def countInitialized (opt : PeOptionalHeader) (peS : PeSection) : PeOptionalHeader :=
  { opt with
    sizeOfInitializedData :=
      UInt32.ofNat (opt.sizeOfInitializedData.toNat + peS.virtualSize.toNat) }

/-- The sizes in the optional header with one more section. -/
def countSection (opt : PeOptionalHeader) (name : String) (peS : PeSection) : PeOptionalHeader :=
  let opt :=
    if name = ".text" then
      { opt with
        baseOfCode := peS.virtualAddress
        sizeOfCode := UInt32.ofNat (opt.sizeOfCode.toNat + peS.virtualSize.toNat) }
    else countInitialized opt peS
  if name = ".data" ∧ opt.elfclass = .elf32 then { opt with baseOfData := peS.virtualAddress }
  else opt

/-- The body of the loop in `convert_sections`: the section is named and padded, and it must not
start before the end of the last one. -/
def convertSection (c : Converted) (peS : PeSection) : Except PyError Converted := do
  let name ← sectionNameOf peS.characteristics
  let peS := padToPage peS name
  if peS.virtualAddress.toNat < c.lastVma.1 + c.lastVma.2 then
    .error (.badSectionError ("Section '" ++ name ++ "' @0x" ++ hex peS.virtualAddress.toNat ++
      " overlaps previous section @0x" ++ hex c.lastVma.1 ++ "+0x" ++ hex c.lastVma.2 ++ "=@0x" ++
      hex (c.lastVma.1 + c.lastVma.2)))
  else
    return {
      lastVma := (peS.virtualAddress.toNat, peS.virtualSize.toNat)
      opt := countSection c.opt name peS
      sections := c.sections ++ [peS] }

/-- `convert_sections`: all that `iter_copy_sections` yields, from an empty list of sections on. -/
def convertSections (elf : ElfFile) (opt : PeOptionalHeader) :
    Except PyError (PeOptionalHeader × List PeSection) := do
  let c ← Generator.forIn convertSection ⟨(0, 0), opt, []⟩ (iterCopySections elf)
  return (c.opt, c.sections)

/-! ## copy_sections -/

/-- The name as the field of the header takes it: `c_char * 8` takes eight bytes at most. -/
def sectionName (name : String) : Except PyError (List UInt8) :=
  let bytes := name.toUTF8.toList
  if bytes.length ≤ 8 then .ok bytes
  else .error (.valueError ("bytes too long (" ++ toString bytes.length ++ ", maximum length 8)"))

/-- A section that is copied by its name, read-only, at the next address. -/
def copiedSection (elfS : ElfSection) (name : List UInt8) (virtualAddress : Nat) : PeSection :=
  { PeSection.empty with
    name := name
    data := elfS.data
    frozen := true
    virtualAddress := UInt32.ofNat virtualAddress
    virtualSize := UInt32.ofNat elfS.data.length
    sizeOfRawData := UInt32.ofNat (alignTo elfS.data.length FILE_ALIGNMENT)
    characteristics := PE_CHARACTERISTICS_R }

/-- The body of the loop in `copy_sections`: a section that the file does not have is passed over,
and one that is not read-only is refused. -/
def copySection (elf : ElfFile) (state : PeOptionalHeader × List PeSection) (name : String) :
    Except PyError (PeOptionalHeader × List PeSection) :=
  match elf.sectionByName name with
  | none => return state
  | some elfS =>
    if 1 < elfS.dataAlignment ∧ SECTION_ALIGNMENT % elfS.dataAlignment ≠ 0 then
      .error (.badSectionError ("ELF section " ++ name ++ " is not aligned"))
    else if elfS.shFlags &&& (SHF_EXECINSTR ||| SHF_WRITE) ≠ 0 then
      .error (.badSectionError ("ELF section " ++ name ++ " is not read-only data"))
    else do
      let bytes ← sectionName name
      let virtualAddress ← nextSectionAddress state.2
      let peS := copiedSection elfS bytes virtualAddress
      return (countInitialized state.1 peS, state.2 ++ [peS])

/-- `copy_sections`: the names on the command line, one after the other. -/
def copySections (elf : ElfFile) (inputNames : String)
    (state : PeOptionalHeader × List PeSection) :
    Except PyError (PeOptionalHeader × List PeSection) :=
  (splitCommas inputNames).foldlM (copySection elf) state

end LoliLoader.PyElf2Efi
