/-
# LoliLoader.PyElf2Efi.Elf -- what tools/elf2efi.py reads of an ELF file

The script has the ELF file read by a library. An `ElfFile` is what the library answers to the
questions that the script asks; nothing is assumed about the answers here.

Sections, segments, relocation tables and the dynamic entries are records with the fields that the
script reads. A section without contents answers zeros for its data, as the library does. Segments
have their bytes as well, which the script never asks for: they say what the file has in memory,
independent of its sections.

Everything that the script raises is a `PyError`, with its text where the script gives one. Numbers
are formatted in the ways the script does it, and bytes as Python prints them, quotes and escapes
included, so that the messages can be compared.

A generator of Python becomes a list of what it yields together with how it ends. A loop over a
generator that raises does its body for what has been yielded before.

Integers of Python have no width. Those that are assigned to fields of `ctypes` are cut there, in
the modules where it happens.
-/
import LoliLoader.Bytes.LittleEndian
import LoliLoader.Bytes.Mask
import LoliLoader.C.Memory

namespace LoliLoader.PyElf2Efi

/-- A relocation as the library gives it; `rAddend` is there in a RELA table only. -/
structure ElfRelocation where
  rOffset : Nat
  rInfoType : Nat
  rAddend : Option Int
  deriving DecidableEq, Repr

/-- What the script raises, or what Python raises on its behalf. No file is written then. -/
inductive PyError where
  | badSectionError (text : String)
  | valueError (text : String)
  /-- a `BadSectionError` about a relocation of unknown type -/
  | unsupportedRelocation (reloc : ElfRelocation)
  /-- `bytearray(n)` with `n` below zero -/
  | negativeCount
  /-- `[x] = l`, where `l` has not one element -/
  | unpack
  /-- `int.to_bytes` of a number that does not fit -/
  | overflowError
  /-- assignment to a part of `bytes` -/
  | typeError
  /-- an index behind the end of a list -/
  | indexError
  /-- a key that is not in the dictionary -/
  | keyError
  | assertionError
  deriving DecidableEq, Repr

/-- `elfclass`: 32 or 64 bits. -/
inductive ElfClass where
  | elf32
  | elf64
  deriving DecidableEq, Repr

/-- `e_machine`: the architectures that the script knows, and any other by its name. -/
inductive Machine where
  | em386
  | emAarch64
  | emArm
  | emLoongarch
  | emRiscv
  | emX8664
  | other (name : String)
  deriving DecidableEq, Repr

/-- `e_type`: the types that the script takes, and any other by its name. -/
inductive ElfType where
  | etDyn
  | etExec
  | other (name : String)
  deriving DecidableEq, Repr

/-- `sh_type`, as far as the script tells types apart. -/
inductive SectionType where
  | progbits
  | nobits
  | dynamic
  | dynsym
  | gnuAttributes
  | gnuHash
  | hash
  | note
  | rel
  | rela
  | relr
  | strtab
  | symtab
  /-- any other, by the text that names it -/
  | other (name : String)
  deriving DecidableEq, Repr

/-- The name of a section type in a message, as the library spells it. -/
def SectionType.text : SectionType → String
  | progbits => "SHT_PROGBITS"
  | nobits => "SHT_NOBITS"
  | dynamic => "SHT_DYNAMIC"
  | dynsym => "SHT_DYNSYM"
  | gnuAttributes => "SHT_GNU_ATTRIBUTES"
  | gnuHash => "SHT_GNU_HASH"
  | hash => "SHT_HASH"
  | note => "SHT_NOTE"
  | rel => "SHT_REL"
  | rela => "SHT_RELA"
  | relr => "SHT_RELR"
  | strtab => "SHT_STRTAB"
  | symtab => "SHT_SYMTAB"
  | other name => name

def SHF_WRITE : Nat := 0x1
def SHF_ALLOC : Nat := 0x2
def SHF_EXECINSTR : Nat := 0x4

/-- A section of the ELF file, with what the script asks the library about it. -/
structure ElfSection where
  name : String
  shType : SectionType
  shFlags : Nat
  shAddr : Nat
  shSize : Nat
  dataAlignment : Nat
  /-- what the file has of the section -/
  contents : List UInt8
  deriving DecidableEq, Repr

/-- `data()`: a section without contents is zeros. -/
def ElfSection.data (s : ElfSection) : List UInt8 :=
  if s.shType = .nobits then List.replicate s.shSize 0 else s.contents

/-- `p_type`, as far as the script tells types apart. -/
inductive SegmentType where
  | ptLoad
  | ptGnuRelro
  | other
  deriving DecidableEq, Repr

/-- A program header, with what the file has of the segment. The script reads no more of it than the
type and the alignment: it takes addresses and bytes from the sections. A loader of ELF files,
which knows nothing of sections, takes them from here. -/
structure ElfSegment where
  pType : SegmentType
  pAlign : Nat
  pVaddr : Nat
  pMemsz : Nat
  /-- the `p_filesz` bytes at `p_offset` -/
  contents : List UInt8
  deriving DecidableEq, Repr

/-- The kinds of relocation tables that the library may give. -/
inductive RelocationTableType where
  | rel
  | rela
  | relr
  | jmprel
  deriving DecidableEq, Repr

/-- The name of a kind of table, as it is put into a message. -/
def RelocationTableType.text : RelocationTableType → String
  | rel => "REL"
  | rela => "RELA"
  | relr => "RELR"
  | jmprel => "JMPREL"

/-- The dynamic section, as far as the script asks about it. -/
structure Dynamic where
  /-- `d_val` of every tag `DT_FLAGS_1` -/
  flags1 : List Nat
  /-- `get_relocation_tables().items()` -/
  relocationTables : List (RelocationTableType × List ElfRelocation)
  deriving DecidableEq, Repr

/-- An ELF file, as the answers that the library gives to the questions of the script. -/
structure ElfFile where
  littleEndian : Bool
  elfclass : ElfClass
  eType : ElfType
  eMachine : Machine
  eEntry : Nat
  segments : List ElfSegment
  sections : List ElfSection
  sectionInSegment : ElfSegment → ElfSection → Bool
  sectionByName : String → Option ElfSection
  dynamic : Option Dynamic
  /-- `st_value` of the symbols of a name, if there is a section `.symtab` -/
  symbolsByName : Option (String → List Nat)

/-! ## Python -/

/-- `"{:x}".format(n)`, for a number that is not negative. -/
def hex (n : Nat) : String := String.ofList (Nat.toDigits 16 n)

/-- A byte in the text of `bytes`, between quotes `quote`. -/
def byteRepr (quote : Char) (b : UInt8) : List Char :=
  let c := Char.ofNat b.toNat
  if c = quote ∨ c = '\\' then ['\\', c]
  else if c = '\t' then ['\\', 't']
  else if c = '\n' then ['\\', 'n']
  else if c = '\r' then ['\\', 'r']
  else if 0x20 ≤ b.toNat ∧ b.toNat < 0x7f then [c]
  else ['\\', 'x', Nat.digitChar (b.toNat / 16), Nat.digitChar (b.toNat % 16)]

/-- `"{}".format(bs)`: as Python prints bytes, in the quotes that need the fewest escapes. -/
def bytesRepr (bs : List UInt8) : String :=
  let quote := if 0x27 ∈ bs ∧ 0x22 ∉ bs then Char.ofNat 0x22 else Char.ofNat 0x27
  String.ofList ('b' :: quote :: (bs.flatMap (byteRepr quote) ++ [quote]))

/-- `s.split(",")`, which has one empty part for an empty string. -/
def splitCommas (s : String) : List String := (s.toList.splitOn ',').map String.ofList

/-- What a generator does when it is iterated: it yields, and then it ends or raises. What it yields
before it raises has been used by then. -/
inductive Generator (α : Type) where
  | stop
  | raise (e : PyError)
  | yield (a : α) (rest : Generator α)

/-- `for a in g:` with a body that raises or changes what is assigned. -/
def Generator.forIn {α σ : Type} (body : σ → α → Except PyError σ) :
    σ → Generator α → Except PyError σ
  | s, .stop => .ok s
  | _, .raise e => .error e
  | s, .yield a rest => do
    let s ← body s a
    Generator.forIn body s rest

/-- `l[a:b] = bs`, where `b` is `a` and the length of `bs`: what there is up to `b` is replaced. -/
def assignSlice (l : List UInt8) (a : Nat) (bs : List UInt8) : List UInt8 :=
  l.take a ++ bs ++ l.drop (a + bs.length)

/-- `n.to_bytes(size, byteorder="little")`, which raises if the number does not fit or is
negative. -/
def toBytes (n : Int) (size : Nat) : Except PyError (List UInt8) :=
  if 0 ≤ n ∧ n < 256 ^ size then .ok (Bytes.leBytes size n.toNat) else .error .overflowError

end LoliLoader.PyElf2Efi
