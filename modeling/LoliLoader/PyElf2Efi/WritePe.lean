/-
# LoliLoader.PyElf2Efi.WritePe -- write_pe and elf2efi

The headers are written front to back, and then the data of every section where its header says.

`write_pe` goes through the sections twice. The first loop is by address: it assigns each section
the next place in the file, rounded up, and writes its header. The second loop is in the order of
the list; it seeks to the place of each section and writes the data, so the file has zeros in
between wherever nothing is written.

The headers are structures of `ctypes`, with fields of fixed widths that cut what is assigned to
them. They are lists of fields here, in the order of efi/pe.py, for images of 32 and of 64 bits.

`elf2efi` is the whole of the script. The time of the conversion and the hash of the name of the
file are parameters, since they come from outside; the image base is made of the first digits of the
hash.
-/
import LoliLoader.Bytes.Record
import LoliLoader.Bytes.Seek
import LoliLoader.PyElf2Efi.Relocations

namespace LoliLoader.PyElf2Efi

open Bytes
open C (ascii)

/-! ## Headers -/

/-- `PeCoffHeader`, without the fields that the script leaves at zero. -/
structure PeCoffHeader where
  machine : UInt16
  numberOfSections : UInt16
  timeDateStamp : UInt32
  sizeOfOptionalHeader : UInt16
  characteristics : UInt16
  deriving DecidableEq, Repr

/-- Where the headers behind the DOS header start. -/
def PE_OFFSET : Nat := 64

/-- `PE_MAGIC`: "PE" and two zeros. -/
def peMagic : List Field := [(4, 0x4550)]

/-- The fields of the header, in the order of the file and with their widths. -/
def PeCoffHeader.fields (coff : PeCoffHeader) : List Field :=
  [(2, coff.machine.toNat),
    (2, coff.numberOfSections.toNat),
    (4, coff.timeDateStamp.toNat),
    (4, 0),                       -- PointerToSymbolTable
    (4, 0),                       -- NumberOfSymbols
    (2, coff.sizeOfOptionalHeader.toNat),
    (2, coff.characteristics.toNat)]

/-- `PeOptionalHeaderStart`, the part that both kinds of header begin with. -/
def PeOptionalHeader.startFields (opt : PeOptionalHeader) : List Field :=
  [(2, opt.magic.toNat),
    (1, 0), (1, 0),               -- linker version
    (4, opt.sizeOfCode.toNat),
    (4, opt.sizeOfInitializedData.toNat),
    (4, 0),                       -- SizeOfUninitializedData
    (4, opt.addressOfEntryPoint.toNat),
    (4, opt.baseOfCode.toNat)]

/-- `PeOptionalHeaderMiddle`, the part between the image base and the sizes of stack and heap. -/
def PeOptionalHeader.middleFields (opt : PeOptionalHeader) : List Field :=
  [(4, opt.sectionAlignment.toNat),
    (4, opt.fileAlignment.toNat),
    (2, 0), (2, 0),               -- operating system version
    (2, opt.majorImageVersion.toNat),
    (2, opt.minorImageVersion.toNat),
    (2, opt.majorSubsystemVersion.toNat),
    (2, opt.minorSubsystemVersion.toNat),
    (4, 0),                       -- Win32VersionValue
    (4, opt.sizeOfImage.toNat),
    (4, opt.sizeOfHeaders.toNat),
    (4, 0),                       -- CheckSum
    (2, opt.subsystem.toNat),
    (2, opt.dllCharacteristics.toNat)]

/-- `PeOptionalHeaderEnd`: `BaseRelocationTable` is the sixth of sixteen directories. -/
def PeOptionalHeader.endFields (opt : PeOptionalHeader) : List Field :=
  [(4, 0), (4, opt.numberOfRvaAndSizes.toNat)] ++ List.replicate 10 (4, 0) ++
    [(4, opt.baseRelocationTable.1.toNat), (4, opt.baseRelocationTable.2.toNat)] ++
    List.replicate 20 (4, 0)

/-- `PeOptionalHeader32` and `PeOptionalHeader32Plus`. -/
def PeOptionalHeader.fields (opt : PeOptionalHeader) : List Field :=
  match opt.elfclass with
  | .elf32 =>
    opt.startFields ++ [(4, opt.baseOfData.toNat), (4, opt.imageBase.toNat)] ++
      opt.middleFields ++
      [(4, opt.sizeOfStackReserve.toNat), (4, opt.sizeOfStackCommit.toNat),
        (4, opt.sizeOfHeapReserve.toNat), (4, opt.sizeOfHeapCommit.toNat)] ++ opt.endFields
  | .elf64 =>
    opt.startFields ++ [(8, opt.imageBase.toNat)] ++ opt.middleFields ++
      [(8, opt.sizeOfStackReserve.toNat), (8, opt.sizeOfStackCommit.toNat),
        (8, opt.sizeOfHeapReserve.toNat), (8, opt.sizeOfHeapCommit.toNat)] ++ opt.endFields

/-- The fields of `PeSection` behind its name, in the order of the file. -/
def PeSection.fields (peS : PeSection) : List Field :=
  [(4, peS.virtualSize.toNat),
    (4, peS.virtualAddress.toNat),
    (4, peS.sizeOfRawData.toNat),
    (4, peS.pointerToRawData.toNat),
    (4, 0),                       -- PointerToRelocations
    (4, 0),                       -- PointerToLinenumbers
    (2, 0),                       -- NumberOfRelocations
    (2, 0),                       -- NumberOfLinenumbers
    (4, peS.characteristics.toNat)]

/-- The header of a section; its name has eight bytes. -/
def PeSection.header (peS : PeSection) : List UInt8 :=
  (padTo 8 peS.name).take 8 ++ record peS.fields

/-! ## write_pe -/

/-- The loop over the sections by address: their headers with the pointers to their data, and
where the next data would be. -/
def layoutSections (sizeOfHeaders : Nat) :
    Nat → List (PeSection × Nat) → Except PyError (List (PeSection × Nat) × Nat)
  | offset, [] => .ok ([], offset)
  | offset, (peS, i) :: rest => do
    if peS.virtualAddress.toNat < sizeOfHeaders then
      .error (.badSectionError ("Section " ++ bytesRepr peS.name ++ " @0x" ++
        hex peS.virtualAddress.toNat ++ " overlaps PE headers ending at 0x" ++
        "\x7bopt.SizeOfHeaders:x\x7d"))
    let (placed, last) ←
      layoutSections sizeOfHeaders (alignTo (offset + peS.data.length) FILE_ALIGNMENT) rest
    return (({ peS with pointerToRawData := UInt32.ofNat offset }, i) :: placed, last)

/-- The headers in front of those of the sections. -/
def writeHeaders (coff : PeCoffHeader) (opt : PeOptionalHeader) : SeekFile :=
  (((((((SeekFile.empty.write (ascii "MZ")).seek 0x3C).write (leBytes 2 PE_OFFSET)).seek
    PE_OFFSET).write (record peMagic)).write (record coff.fields)).write (record opt.fields))

/-- The loop over the data of the sections: each is written at the place that its header has for
it. -/
def writeData (file : SeekFile) (sections : List PeSection) : SeekFile :=
  sections.foldl (fun file peS => (file.seek peS.pointerToRawData.toNat).write peS.data) file

/-- `write_pe`, on an empty file.  The first loop goes through the sections by address, the second
one in their own order. -/
def writePe (coff : PeCoffHeader) (opt : PeOptionalHeader) (sections : List PeSection) :
    Except PyError (List UInt8) := do
  let sorted := sections.zipIdx.insertionSort fun s t => s.1.virtualAddress ≤ t.1.virtualAddress
  let (placed, offset) ← layoutSections opt.sizeOfHeaders.toNat opt.sizeOfHeaders.toNat sorted
  let file := placed.foldl (fun file s => file.write s.1.header) (writeHeaders coff opt)
  if opt.sizeOfHeaders.toNat < file.position then .error .assertionError
  let sections := (placed.insertionSort fun s t => s.2 ≤ t.2).map Prod.fst
  return ((writeData file sections).truncate offset).contents

/-! ## elf2efi -/

/-- What the command line says, apart from the names of the files. -/
structure Args where
  versionMajor : Int
  versionMinor : Int
  efiMajor : Int
  efiMinor : Int
  subsystem : Int
  minimumSections : Int
  copySections : String
  deriving DecidableEq, Repr

/-- `pe_arch`: the number of the architecture in PE files, if there is one. -/
def peArch (elf : ElfFile) : Option UInt16 :=
  match elf.eMachine with
  | .em386 => some 0x014C
  | .emAarch64 => some 0xAA64
  | .emArm => some 0x01C2
  | .emLoongarch => some (if elf.elfclass = .elf32 then 0x6232 else 0x6264)
  | .emRiscv => some (if elf.elfclass = .elf32 then 0x5032 else 0x5064)
  | .emX8664 => some 0x8664
  | .other _ => none

/-- The name of a type in a message, as the library spells it. -/
def ElfType.text : ElfType → String
  | etDyn => "ET_DYN"
  | etExec => "ET_EXEC"
  | other name => name

/-- The name of an architecture in a message, as the library spells it. -/
def Machine.text : Machine → String
  | em386 => "EM_386"
  | emAarch64 => "EM_AARCH64"
  | emArm => "EM_ARM"
  | emLoongarch => "EM_LOONGARCH"
  | emRiscv => "EM_RISCV"
  | emX8664 => "EM_X86_64"
  | other name => name

/-- The image base, by the first digits of the hash of the name of the file. -/
def imageBaseFor (elfclass : ElfClass) (hash : UInt32) : UInt64 :=
  match elfclass with
  | .elf32 => UInt64.ofNat ((0x400000 + hash.toNat) &&& 0xFFFF0000)
  | .elf64 => UInt64.ofNat ((0x100000000 + hash.toNat) &&& 0x1FFFF0000)

/-- What is assigned to the optional header at last. -/
def finishHeader (args : Args) (opt : PeOptionalHeader) (sizeOfImage : Nat)
    (peRelocS : Option PeSection) : PeOptionalHeader :=
  { opt with
    sectionAlignment := UInt32.ofNat SECTION_ALIGNMENT
    fileAlignment := UInt32.ofNat FILE_ALIGNMENT
    majorImageVersion := UInt16.ofInt args.versionMajor
    minorImageVersion := UInt16.ofInt args.versionMinor
    majorSubsystemVersion := UInt16.ofInt args.efiMajor
    minorSubsystemVersion := UInt16.ofInt args.efiMinor
    subsystem := UInt16.ofInt args.subsystem
    magic := if opt.elfclass = .elf32 then 0x10B else 0x20B
    sizeOfImage := UInt32.ofNat sizeOfImage
    dllCharacteristics := if opt.elfclass = .elf64 then 0x160 else 0x140
    sizeOfStackReserve := 0x100000
    sizeOfStackCommit := 0x001000
    sizeOfHeapReserve := 0x100000
    sizeOfHeapCommit := 0x001000
    numberOfRvaAndSizes := 16
    baseRelocationTable :=
      match peRelocS with
      | some peRelocS => (peRelocS.virtualAddress, peRelocS.virtualSize)
      | none => opt.baseRelocationTable }

/-- The header of the file: the architecture, the number of sections, and what kind of image it
is. -/
def coffHeader (elfclass : ElfClass) (peArch : UInt16) (sections : List PeSection)
    (timeDateStamp : Int) : PeCoffHeader where
  machine := peArch
  numberOfSections := UInt16.ofNat sections.length
  timeDateStamp := UInt32.ofInt timeDateStamp
  sizeOfOptionalHeader := UInt16.ofNat elfclass.sizeofOpt
  characteristics := if elfclass = .elf32 then 0x30E else 0x22E

/-- `elf2efi`.  `hash` is the start of the SHA-1 of the name of the PE file, `timeDateStamp` the
time of the conversion. -/
def elf2efi (args : Args) (hash : UInt32) (timeDateStamp : Int) (elf : ElfFile) :
    Except PyError (List UInt8) :=
  if ¬ elf.littleEndian then .error (.valueError "ELF file is not little-endian")
  else if ¬ (elf.eType = .etDyn ∨ elf.eType = .etExec) then
    .error (.valueError ("Unsupported ELF type " ++ elf.eType.text))
  else
    match peArch elf with
    | none => .error (.valueError ("Unsupported ELF architecture " ++ elf.eMachine.text))
    | some peArch => do
      let opt := { PeOptionalHeader.empty elf.elfclass with
        imageBase := imageBaseFor elf.elfclass hash }
      let (opt, sections) ← convertSections elf opt
      let (opt, sections) ← copySections elf args.copySections (opt, sections)
      let (opt, sections, peRelocS) ←
        convertElfRelocations elf opt sections args.minimumSections
      let coff := coffHeader elf.elfclass peArch sections timeDateStamp
      let opt := finishHeader args opt (← nextSectionAddress sections) peRelocS
      writePe coff opt sections

end LoliLoader.PyElf2Efi
