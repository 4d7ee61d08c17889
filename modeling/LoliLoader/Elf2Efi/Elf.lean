/-
# LoliLoader.Elf2Efi.Elf -- ELF files in tools/elf2efi.c

The records of the ELF format that the converter reads, and how it gets at them: an offset and a
size are checked against the size of the file, or of a segment.

A record is a structure with the fields that are read, and a function that takes it out of bytes.
The offsets are those of the structures in tools/elf.h for 64 bits; other fields are left out.

The constants have the names of the source. Of the types of relocations only two are known,
`R_X86_64_NONE` and `R_X86_64_RELATIVE`, and all others make the converter give up.

`dataAtOffset` is translated with its comparison, which is strict although a range may end where the
file does. `readAt` is a read of memory that C does not check: it is a fault here if it is not
inside what was loaded.
-/
import LoliLoader.Elf2Efi.Executable
import LoliLoader.Bytes.LittleEndian

namespace LoliLoader.Elf2Efi

open C Bytes

/-! ## Records -/

def EI_CLASS : Nat := 4
def EI_DATA : Nat := 5
def ELFCLASS64 : UInt8 := 2
def ELFDATA2LSB : UInt8 := 1
def ET_EXEC : UInt16 := 2
def ET_DYN : UInt16 := 3
def EM_X86_64 : UInt16 := 62
def PT_LOAD : UInt32 := 1
def PT_DYNAMIC : UInt32 := 2
def PF_X : UInt32 := 1
def PF_W : UInt32 := 2
def PF_R : UInt32 := 4
def DT_RELA : UInt64 := 7
def DT_RELASZ : UInt64 := 8
def DT_REL : UInt64 := 17
def DT_RELSZ : UInt64 := 18
def R_X86_64_NONE : UInt32 := 0
def R_X86_64_RELATIVE : UInt32 := 8

/-- The word of `n` bytes at offset `off` of a record. -/
def field (bs : List UInt8) (off n : Nat) : Nat := ofLE ((bs.drop off).take n)

/-- What the converter reads of `Elf64_Ehdr`: the identification, the entry point, and where the
program headers are. -/
structure Elf64Ehdr where
  eIdent : List UInt8
  eType : UInt16
  eMachine : UInt16
  eEntry : UInt64
  ePhoff : UInt64
  eEhsize : UInt16
  ePhentsize : UInt16
  ePhnum : UInt16
  deriving DecidableEq, Repr

def Elf64Ehdr.ofBytes (bs : List UInt8) : Elf64Ehdr where
  eIdent := bs.take 16
  eType := UInt16.ofNat (field bs 16 2)
  eMachine := UInt16.ofNat (field bs 18 2)
  eEntry := UInt64.ofNat (field bs 24 8)
  ePhoff := UInt64.ofNat (field bs 32 8)
  eEhsize := UInt16.ofNat (field bs 52 2)
  ePhentsize := UInt16.ofNat (field bs 54 2)
  ePhnum := UInt16.ofNat (field bs 56 2)

/-- What the converter reads of `Elf64_Phdr`: the type and flags, where the segment is in the file
and in memory, and its alignment. -/
structure Elf64Phdr where
  pType : UInt32
  pFlags : UInt32
  pOffset : UInt64
  pVaddr : UInt64
  pFilesz : UInt64
  pMemsz : UInt64
  pAlign : UInt64
  deriving DecidableEq, Repr

def Elf64Phdr.ofBytes (bs : List UInt8) : Elf64Phdr where
  pType := UInt32.ofNat (field bs 0 4)
  pFlags := UInt32.ofNat (field bs 4 4)
  pOffset := UInt64.ofNat (field bs 8 8)
  pVaddr := UInt64.ofNat (field bs 16 8)
  pFilesz := UInt64.ofNat (field bs 32 8)
  pMemsz := UInt64.ofNat (field bs 40 8)
  pAlign := UInt64.ofNat (field bs 48 8)

/-- `Elf64_Dyn`. -/
structure Elf64Dyn where
  dTag : UInt64
  dVal : UInt64
  deriving DecidableEq, Repr

def Elf64Dyn.ofBytes (bs : List UInt8) : Elf64Dyn where
  dTag := UInt64.ofNat (field bs 0 8)
  dVal := UInt64.ofNat (field bs 8 8)

/-- `Elf64_Rela`. -/
structure Elf64Rela where
  rOffset : UInt64
  rInfo : UInt64
  rAddend : UInt64
  deriving DecidableEq, Repr

def Elf64Rela.ofBytes (bs : List UInt8) : Elf64Rela where
  rOffset := UInt64.ofNat (field bs 0 8)
  rInfo := UInt64.ofNat (field bs 8 8)
  rAddend := UInt64.ofNat (field bs 16 8)

/-- `Elf64_Rel`. -/
structure Elf64Rel where
  rOffset : UInt64
  rInfo : UInt64
  deriving DecidableEq, Repr

def Elf64Rel.ofBytes (bs : List UInt8) : Elf64Rel where
  rOffset := UInt64.ofNat (field bs 0 8)
  rInfo := UInt64.ofNat (field bs 8 8)

/-- `ELF64_R_TYPE`: the low 32 bits. -/
def ELF64_R_TYPE (info : UInt64) : UInt32 := info.toUInt32

/-- An array of `num` records of `size` bytes each. -/
def records {α : Type} (ofBytes : List UInt8 → α) (size num : Nat) (bs : List UInt8) : List α :=
  (List.range num).map fun i => ofBytes ((bs.drop (size * i)).take size)

/-! ## Access to data -/

/-- `assert_msg`. -/
def assertMsg (cond : Bool) (message : Output) : Except Failure Unit :=
  if cond then .ok () else .error (.exit message)

/-- `load_binary_file`, of a file with these bytes that can be opened and read. -/
def loadBinaryFile (path : String) (bytes : List UInt8) : Except Failure SizedData := do
  assertMsg (bytes ≠ []) (.printf "failed to get size of file \"%s\"\n" [.str (ascii path)])
  return ⟨path, bytes, UInt64.ofNat bytes.length⟩

/-- `data_at_offset`: the offset in `rawData`. -/
def dataAtOffset (data : SizedData) (_purpose : String) (off size : UInt64) :
    Except Failure Nat := do
  assertMsg (off + size < data.size) (.printf
    "Attempt to index \"%s\" at %lu with size %lu, but data is truncated to %lu\n"
    [.str (ascii data.name), .int off.toNat, .int size.toNat, .int data.size.toNat])
  return off.toNat

/-- A read of `n` bytes at `p`. -/
def readAt (rawData : List UInt8) (p n : Nat) : Except Failure (List UInt8) :=
  if n = 0 then .ok []
  else if rawData.length < p + n then .error (.fault (.read rawData.length))
  else .ok ((rawData.drop p).take n)

end LoliLoader.Elf2Efi
