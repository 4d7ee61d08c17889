/-
# LoliLoader.Pe.Loader -- loading a PE32+ image

A loader for PE32+ images with base relocations: it reads the headers, zero-fills the image, copies
the raw data of every section up to its virtual size, and adds the distance from the image base to
every word that the relocation table names.

It works on the bytes of a file and on a load address, and it gives the image as a function of the
address. Nothing in it is taken from the converters. It is what the files that they write are for,
and their meaning is defined by it.

The loader is lenient. It gives nothing for a file that ends too early or whose headers it does not
know, but it does not ask for the alignments and the order of sections that the format demands.
Those are stated separately, as properties of the headers (`ValidLayout`).

Relocations are made at the place where the image is loaded, so the table must be in the image
itself, in one of its sections.
-/
import LoliLoader.Bytes.Space
import LoliLoader.Pe.BaseReloc

namespace LoliLoader.Pe

open Bytes

/-- What a loader needs of a section header: where the section is in memory, and where its data are
in the file. -/
structure Section where
  virtualSize : Nat
  virtualAddress : Nat
  sizeOfRawData : Nat
  pointerToRawData : Nat
  deriving DecidableEq, Repr

/-- What a loader needs of the headers: the entry point, the image base and size, the relocation
table and the sections. -/
structure Headers where
  addressOfEntryPoint : Nat
  imageBase : Nat
  sizeOfImage : Nat
  relocRva : Nat
  relocSize : Nat
  sections : List Section
  deriving DecidableEq, Repr

/-- The section header at offset `off`; nothing if the file ends before it does. -/
def readSection (file : List UInt8) (off : Nat) : Option Section := do
  let virtualSize ← word file (off + 8) 4
  let virtualAddress ← word file (off + 12) 4
  let sizeOfRawData ← word file (off + 16) 4
  let pointerToRawData ← word file (off + 20) 4
  return ⟨virtualSize, virtualAddress, sizeOfRawData, pointerToRawData⟩

/-- The section table at offset `off`, of as many headers as are announced. -/
def readSections (file : List UInt8) (off : Nat) : Nat → Option (List Section)
  | 0 => some []
  | n + 1 => do
    let s ← readSection file off
    let rest ← readSections file (off + 40) n
    return s :: rest

/-- An entry of the data directory, which has `n` entries at offset `off`. -/
def readDirectory (file : List UInt8) (off n i : Nat) : Option (Nat × Nat) :=
  if i < n then do
    let rva ← word file (off + 8 * i) 4
    let size ← word file (off + 8 * i + 4) 4
    return (rva, size)
  else some (0, 0)

/-- The place of the relocation table in the data directory. -/
def IMAGE_DIRECTORY_ENTRY_BASERELOC : Nat := 5

/-- The headers of a PE32+ file; nothing for a file of another kind, or one that ends too early. -/
def readHeaders (file : List UInt8) : Option Headers := do
  guard ((← word file 0 2) = 0x5A4D)
  let pe ← word file 60 4
  guard ((← word file pe 4) = 0x4550)
  let numberOfSections ← word file (pe + 6) 2
  let sizeOfOptionalHeader ← word file (pe + 20) 2
  guard ((← word file (pe + 24) 2) = 0x20b)
  let addressOfEntryPoint ← word file (pe + 40) 4
  let imageBase ← word file (pe + 48) 8
  let sizeOfImage ← word file (pe + 80) 4
  let numberOfRvaAndSizes ← word file (pe + 132) 4
  let reloc ← readDirectory file (pe + 136) numberOfRvaAndSizes IMAGE_DIRECTORY_ENTRY_BASERELOC
  let sections ← readSections file (pe + 24 + sizeOfOptionalHeader) numberOfSections
  return ⟨addressOfEntryPoint, imageBase, sizeOfImage, reloc.1, reloc.2, sections⟩

/-- The raw data of a section, up to its virtual size. -/
def sectionData (file : List UInt8) (s : Section) : Option (List UInt8) :=
  (slice file s.pointerToRawData s.sizeOfRawData).map fun raw => raw.take s.virtualSize

/-- The image with another section copied to it, at its virtual address. -/
def copySection (file : List UInt8) (m : Space) (s : Section) : Option Space :=
  (sectionData file s).map fun data => m.write s.virtualAddress data

/-- A loaded image: its entry point, its size, and the bytes from the load address on. -/
structure Image where
  entryPoint : UInt64
  sizeOfImage : Nat
  memory : Space

/-- The image `file` loaded at address `at`: its sections are copied, and the distance from the
image base is added to each word to relocate. -/
def load (file : List UInt8) (address : UInt64) : Option Image := do
  let headers ← readHeaders file
  let memory ← headers.sections.foldlM (copySection file) Space.zero
  let words ← decode (memory.read headers.relocRva headers.relocSize)
  let distance := address - UInt64.ofNat headers.imageBase
  return {
    entryPoint := address + UInt64.ofNat headers.addressOfEntryPoint
    sizeOfImage := headers.sizeOfImage
    memory := memory.addWords distance.toNat words }

/-! ## Layout in memory -/

/-- `SectionAlignment` of a file, as its header announces it. -/
def sectionAlignment (file : List UInt8) : Option Nat := do
  let pe ← word file 60 4
  word file (pe + 56) 4

/-- The addresses of a section, from the image base on. -/
def Section.extent (s : Section) : Extent := ⟨s.virtualAddress, s.virtualSize⟩

/-- What the format demands of the sections of an image: aligned, in order, apart from each other,
and inside an image of an aligned size. -/
structure ValidLayout (sections : List Extent) (alignment sizeOfImage : Nat) : Prop where
  ascending : sections.Pairwise fun e f => e.start ≤ f.start
  disjoint : sections.Pairwise Extent.Apart
  aligned : ∀ e ∈ sections, alignment ∣ e.start
  image : alignment ∣ sizeOfImage
  covered : ∀ e ∈ sections, e.start + e.size ≤ sizeOfImage

/-- The headers of a file can be read, and have this layout for the alignment that they announce. -/
def HasValidLayout (file : List UInt8) : Prop :=
  ∃ headers alignment, readHeaders file = some headers ∧
    sectionAlignment file = some alignment ∧
    ValidLayout (headers.sections.map Section.extent) alignment headers.sizeOfImage

/-! ## Copying the sections -/

/-- The sections are copied one after the other. -/
theorem copySections_eq {ι : Type*} {file : List UInt8} {l : List ι} {section_ : ι → Section}
    {data : ι → List UInt8} {m : Space}
    (h : ∀ i ∈ l, sectionData file (section_ i) = some (data i)) :
    (l.map section_).foldlM (copySection file) m
      = some (m.writeAll (l.map fun i => ((section_ i).virtualAddress, data i))) := by
  induction l generalizing m with
  | nil => rfl
  | cons i l ih =>
      rw [List.map_cons, List.foldlM_cons, copySection, h i List.mem_cons_self]
      exact ih fun j hj => h j (List.mem_cons_of_mem i hj)

end LoliLoader.Pe
