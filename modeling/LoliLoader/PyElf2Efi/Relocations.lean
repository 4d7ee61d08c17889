/-
# LoliLoader.PyElf2Efi.Relocations -- from ELF to PE relocations

Relative relocations are applied for the image base, and their places are collected page by page for
the section `.reloc`. ELF addresses and those of the image differ by a fixed offset if the headers
need room.

The blocks of the table are kept in a dictionary by page, in the order in which the pages came up,
and are sorted only when the table is written. Each block is padded there to an even number of
entries, with one that names no word.

Relocations of other types make the script raise, as does a relocation whose address is in no
section or in more than one. Before that it checks that the file has a dynamic section, that this
says it is a PIE, and that the symbol for its start, if there is one, is zero (`checkDynamic`).

Whether the headers have room is seen only when the number of sections is known. If they have not,
all sections and the entry point are moved behind them, and so are the addresses in the optional
header (`moveHeader`).
-/
import LoliLoader.PyElf2Efi.Sections
import Mathlib.Data.List.Sort

namespace LoliLoader.PyElf2Efi

open Bytes
open C (ascii)

/-! ## Blocks -/

/-- `PeRelocationEntry`: an offset of 12 bits below a type of 4. Python cuts off what a field has no
room for, and so does `PeRelocationEntry.bytes`. -/
structure PeRelocationEntry where
  offset : Nat
  type : Nat
  deriving DecidableEq, Repr

/-- The two bit fields in 16 bits, the offset in the lower ones. -/
def PeRelocationEntry.bytes (e : PeRelocationEntry) : List UInt8 :=
  leBytes 2 (e.type % 16 * 4096 + e.offset % 4096)

/-- `PeRelocationBlock`, with its header and, behind it, the entries that are appended to the
object. Both fields of the header are `c_uint32`. -/
structure PeRelocationBlock where
  pageRVA : UInt32
  blockSize : UInt32
  entries : List PeRelocationEntry
  deriving DecidableEq, Repr

/-- The header of the block. Its entries are written behind it, one by one. -/
def PeRelocationBlock.bytes (b : PeRelocationBlock) : List UInt8 :=
  leBytes 4 b.pageRVA.toNat ++ leBytes 4 b.blockSize.toNat

/-- `pe_reloc_blocks`, in the order in which the keys were put in. -/
abbrev PeRelocBlocks := List (Nat × PeRelocationBlock)

/-- The block of a page with one more entry, or a block for the page with only that. -/
def addEntry (blocks : PeRelocBlocks) (blockRva : Nat) (entry : PeRelocationEntry) :
    PeRelocBlocks :=
  match blocks with
  | [] => [(blockRva, ⟨UInt32.ofNat blockRva, 0, [entry]⟩)]
  | (rva, block) :: blocks =>
    if rva = blockRva then (rva, { block with entries := block.entries ++ [entry] }) :: blocks
    else (rva, block) :: addEntry blocks blockRva entry

/-! ## apply_elf_relative_relocation -/

/-- The address of a relocation is in the data of a section. -/
def PeSection.has (peS : PeSection) (rOffset : Nat) : Bool :=
  peS.virtualAddress.toNat ≤ rOffset ∧ rOffset < peS.virtualAddress.toNat + peS.data.length

/-- The addend of a relocation: its own, or what is stored at its place. -/
def addendOf (reloc : ElfRelocation) (data : List UInt8) (addendOffset addendSize : Nat) : Int :=
  match reloc.rAddend with
  | some addend => addend
  | none => ofLE ((data.drop addendOffset).take addendSize)

/-- What becomes of the section that has the address. -/
def relocateSection (reloc : ElfRelocation) (imageBase addendSize : Nat) (target : PeSection) :
    Except PyError PeSection := do
  let addendOffset := reloc.rOffset - target.virtualAddress.toNat
  let addend := addendOf reloc target.data addendOffset addendSize
  let value ← toBytes (imageBase + addend) addendSize
  if target.frozen then .error .typeError
  else .ok { target with data := assignSlice target.data addendOffset value }

/-- `apply_elf_relative_relocation`: the address is in exactly one section. -/
def applyElfRelativeRelocation (reloc : ElfRelocation) (imageBase : Nat)
    (sections : List PeSection) (addendSize : Nat) : Except PyError (List PeSection) :=
  if (sections.filter fun peS => peS.has reloc.rOffset).length ≠ 1 then .error .unpack
  else
    sections.mapM fun peS =>
      if peS.has reloc.rOffset then relocateSection reloc imageBase addendSize peS else .ok peS

/-! ## convert_elf_reloc_table -/

/-- `NONE_RELOC`: the type of relocation, by architecture, that has no effect. An architecture which
is not in the dictionary is a `KeyError`. -/
def noneReloc : Machine → Except PyError Nat
  | .em386 => .ok 0
  | .emAarch64 => .ok 256
  | .emArm => .ok 0
  | .emLoongarch => .ok 0
  | .emRiscv => .ok 0
  | .emX8664 => .ok 0
  | .other _ => .error .keyError

/-- `RELATIVE_RELOC`: the type of relocation, by architecture, that adds the base of the image. It
is the only one that the script converts. -/
def relativeReloc : Machine → Except PyError Nat
  | .em386 => .ok 8
  | .emAarch64 => .ok 1027
  | .emArm => .ok 23
  | .emLoongarch => .ok 3
  | .emRiscv => .ok 3
  | .emX8664 => .ok 8
  | .other _ => .error .keyError

/-- `elf.elfclass // 8`, the bytes of an address: what is stored for a relocation, and read for one
of a REL table. -/
def ElfClass.addendSize : ElfClass → Nat
  | elf32 => 4
  | elf64 => 8

/-- `REL_BASED_HIGHLOW` for 32-bit images, or `REL_BASED_DIR64`: the word that the loader is to
relocate has the size of an address. -/
def ElfClass.relocType : ElfClass → Nat
  | elf32 => 3
  | elf64 => 10

/-- The body of the loop in `convert_elf_reloc_table`. -/
def convertElfReloc (elfclass : ElfClass) (none relative imageBase : Nat)
    (state : List PeSection × PeRelocBlocks) (reloc : ElfRelocation) :
    Except PyError (List PeSection × PeRelocBlocks) :=
  if reloc.rInfoType = none then
    .ok state
  else if reloc.rInfoType = relative then do
    let sections ← applyElfRelativeRelocation reloc imageBase state.1 elfclass.addendSize
    let blockRva := andNot reloc.rOffset 0xFFF
    let entry := ⟨reloc.rOffset &&& 0xFFF, elfclass.relocType⟩
    return (sections, addEntry state.2 blockRva entry)
  else
    .error (.unsupportedRelocation reloc)

/-- `convert_elf_reloc_table`. Both dictionaries are asked for the architecture before the first
relocation is looked at. -/
def convertElfRelocTable (elf : ElfFile) (elfRelocTable : List ElfRelocation)
    (elfImageBase : Nat) (state : List PeSection × PeRelocBlocks) :
    Except PyError (List PeSection × PeRelocBlocks) := do
  let none ← noneReloc elf.eMachine
  let relative ← relativeReloc elf.eMachine
  elfRelocTable.foldlM (convertElfReloc elf.elfclass none relative elfImageBase) state

/-! ## convert_elf_relocations -/

/-- The flag in `DT_FLAGS_1` which says that the file is a position-independent executable. -/
def DF_1_PIE : Nat := 0x08000000

/-- `sizeof(opt)`, with the 16 directories, for `PeOptionalHeader32` and
`PeOptionalHeader32Plus`. -/
def ElfClass.sizeofOpt : ElfClass → Nat
  | elf32 => 224
  | elf64 => 240

/-- The value of the first symbol `__executable_start`. -/
def executableStart (elf : ElfFile) : Option Nat :=
  elf.symbolsByName.bind fun symbols => (symbols "__executable_start").head?

/-- The checks before anything is converted: there is a dynamic section, it has one `DT_FLAGS_1`
that says the file is a PIE, and the symbol for the start of the image, if there is one, is 0. -/
def checkDynamic (elf : ElfFile) : Except PyError Dynamic :=
  match elf.dynamic with
  | none => .error (.badSectionError "ELF .dynamic section is missing")
  | some dynamic =>
    match dynamic.flags1 with
    | [flags] =>
      if flags &&& DF_1_PIE = 0 then .error (.valueError "ELF file is not a PIE")
      -- the ELF image base is 0
      else if (executableStart elf).any fun value => value ≠ 0 then
        .error (.valueError "Unexpected ELF image base")
      else .ok dynamic
    | _ => .error .unpack

/-- `opt.SizeOfHeaders`, with `n` sections and one for `.reloc`, or as many as the command line asks
for: the sum of the sizes of all headers, rounded up for the file. -/
def sizeOfHeadersFor (elfclass : ElfClass) (n : Nat) (minimumSections : Int) : Nat :=
  alignTo (64 + 4 + 20 + elfclass.sizeofOpt + 40 * (max (n + 1 : Int) minimumSections).toNat)
    FILE_ALIGNMENT

/-- The optional header with room for `n` sections. -/
def sizeHeaders (opt : PeOptionalHeader) (n : Nat) (minimumSections : Int) : PeOptionalHeader :=
  { opt with sizeOfHeaders := UInt32.ofNat (sizeOfHeadersFor opt.elfclass n minimumSections) }

/-- A block as it is written: padded to an even number of entries, and these in order. -/
def finishBlock (segmentOffset : Nat) (block : PeRelocationBlock) : PeRelocationBlock :=
  let entries :=
    if block.entries.length % 2 ≠ 0 then block.entries ++ [⟨0, 0⟩] else block.entries
  { pageRVA := UInt32.ofNat (block.pageRVA.toNat + segmentOffset)
    blockSize := UInt32.ofNat (8 + 2 * entries.length)
    entries := entries.insertionSort fun e f => e.offset ≤ f.offset }

/-- The data of `.reloc`: the blocks sorted by page, and each of them with its entries sorted by
offset, moved as the sections are. Both are sorted here only. -/
def relocData (segmentOffset : Nat) (blocks : PeRelocBlocks) : List UInt8 :=
  (blocks.insertionSort fun b c => b.1 ≤ c.1).flatMap fun b =>
    let block := finishBlock segmentOffset b.2
    block.bytes ++ block.entries.flatMap PeRelocationEntry.bytes

/-- The section `.reloc`: initialized data that can be read, and dropped once the image is loaded.
It comes last, at the next address. -/
def relocSection (data : List UInt8) (virtualAddress : Nat) : PeSection :=
  { PeSection.empty with
    name := ascii ".reloc"
    data := data
    virtualAddress := UInt32.ofNat virtualAddress
    virtualSize := UInt32.ofNat data.length
    sizeOfRawData := UInt32.ofNat (alignTo data.length FILE_ALIGNMENT)
    characteristics := 0x42000040 }

/-- A section of the ELF portion where it is in the image. -/
def moveSection (segmentOffset : Nat) (peS : PeSection) : PeSection :=
  { peS with virtualAddress := UInt32.ofNat (peS.virtualAddress.toNat + segmentOffset) }

/-- The loop over the relocation tables of the dynamic section. It goes on with the sections and the
blocks that the tables before have left; a `RELR` table raises. -/
def convertTables (elf : ElfFile) (tables : List (RelocationTableType × List ElfRelocation))
    (imageBase : Nat) (sections : List PeSection) :
    Except PyError (List PeSection × PeRelocBlocks) :=
  tables.foldlM (fun state table =>
    if table.1 = .rel ∨ table.1 = .rela then convertElfRelocTable elf table.2 imageBase state
    else .error (.badSectionError ("Unsupported relocation type " ++ table.1.text)))
    (sections, [])

/-- The offset between ELF addresses and those of the image. -/
def segmentOffsetFor (first : PeSection) (sizeOfHeaders : Nat) : Nat :=
  if first.virtualAddress.toNat < sizeOfHeaders then
    alignTo (sizeOfHeaders - first.virtualAddress.toNat) SECTION_ALIGNMENT
  else 0

/-- The addresses in the optional header, with room for the headers. -/
def moveHeader (elf : ElfFile) (opt : PeOptionalHeader) (segmentOffset : Nat) :
    PeOptionalHeader :=
  { opt with
    addressOfEntryPoint := UInt32.ofNat (elf.eEntry + segmentOffset)
    baseOfCode := UInt32.ofNat (opt.baseOfCode.toNat + segmentOffset)
    baseOfData :=
      if opt.elfclass = .elf32 then UInt32.ofNat (opt.baseOfData.toNat + segmentOffset)
      else opt.baseOfData }

/-- `convert_elf_relocations`: the last one of the sections is `.reloc` if that is returned. -/
def convertElfRelocations (elf : ElfFile) (opt : PeOptionalHeader) (sections : List PeSection)
    (minimumSections : Int) :
    Except PyError (PeOptionalHeader × List PeSection × Option PeSection) := do
  let dynamic ← checkDynamic elf
  let opt := sizeHeaders opt sections.length minimumSections
  match sections with
  | [] => .error .indexError
  | first :: _ =>
    let segmentOffset := segmentOffsetFor first opt.sizeOfHeaders.toNat
    let opt := moveHeader elf opt segmentOffset
    let (sections, blocks) ← convertTables elf dynamic.relocationTables
      (opt.imageBase.toNat + segmentOffset) sections
    let sections := sections.map (moveSection segmentOffset)
    if blocks.length = 0 then
      return (opt, sections, none)
    else
      let peRelocS := relocSection (relocData segmentOffset blocks) (← nextSectionAddress sections)
      return (countInitialized opt peRelocS, sections ++ [peRelocS], some peRelocS)

end LoliLoader.PyElf2Efi
