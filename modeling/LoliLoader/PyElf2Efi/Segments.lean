/-
# LoliLoader.PyElf2Efi.Segments -- the memory of an ELF file

What an ELF file has in memory is said by its program headers: a loader puts the bytes of every
segment of type `PT_LOAD` at its address, fills what is left of it with zeros, and stores the words
of the relocations. It never looks at a section. `ElfFile.memory` and `ElfFile.relocated` say this
without a word about the converter.

The script goes the other way. It takes the sections one by one, keeps those that are allocated and
not empty, and leaves out what it knows nobody will ask for: `.eh_frame`, `.eh_frame_hdr`,
`.ARM.exidx`, `.relro_padding`, and by their type the sections of the dynamic linker, of notes, of
symbols, of strings and of relocations. So two things have to be said before its result can be
compared with the memory of the file. The sections that it keeps have the bytes that the segments
have at their addresses; every linker sees to that, and it is the condition `Mapped`. And what is in
a segment, but in none of the sections that are kept, is not in the image.
-/
import LoliLoader.PyElf2Efi.Prepare

namespace LoliLoader.PyElf2Efi

open Bytes

/-! ## What a loader has in memory -/

/-- What a segment has in memory: its part of the file, and zeros behind that. -/
def ElfSegment.data (g : ElfSegment) : List UInt8 :=
  g.contents ++ List.replicate (g.pMemsz - g.contents.length) 0

/-- The segments that a loader of ELF files puts into memory. -/
def ElfFile.loads (elf : ElfFile) : List ElfSegment :=
  elf.segments.filter fun g => g.pType = .ptLoad

/-- The memory of the file as its program headers describe it, before it is relocated. -/
def ElfFile.memory (elf : ElfFile) : Space :=
  Space.zero.writeAll (elf.loads.map fun g => (g.pVaddr, g.data))

/-- The same once the loader has stored the words of all relative relocations for an image that is
`bias` away from the addresses in the file. The addend of a REL relocation is in the memory
itself. -/
def ElfFile.relocated (elf : ElfFile) (bias : UInt64) : Space :=
  elf.memory.writeAll (elf.relocations.map fun r =>
    (r.rOffset, leBytes 8 ((bias.toNat + addendIn elf.memory r) % 2 ^ 64).toNat))

/-- The section headers tell of the same memory as the program headers: the segments that are loaded
stand apart, and every section that is kept lies in one of them and has its bytes. -/
structure Mapped (elf : ElfFile) : Prop where
  apart : elf.loads.Pairwise fun g g' =>
    (Extent.mk g.pVaddr g.data.length).Apart (Extent.mk g'.pVaddr g'.data.length)
  inside : ∀ s ∈ elf.copied, ∃ g ∈ elf.loads, g.pVaddr ≤ s.shAddr ∧
    s.stop ≤ g.pVaddr + g.data.length ∧
    ∀ k < s.data.length, g.data.getD (s.shAddr - g.pVaddr + k) 0 = s.data.getD k 0

/-! ## The sections that are kept -/

section

variable {elf : ElfFile} {s : ElfSection} {v : Nat}

/-- **In a section that is kept**, the memory of the file, as its segments have it, is what the
converter takes it for. -/
theorem Mapped.memory_eq (h : Mapped elf)
    (hasc : elf.copied.Pairwise fun s t => s.stop ≤ t.shAddr) (hs : s ∈ elf.copied)
    (hv : s.shAddr ≤ v) (hv' : v < s.stop) : elf.memory v = memoryOf elf.copied v := by
  obtain ⟨g, hg, hstart, hstop, hbytes⟩ := h.inside s hs
  have hin : v ∈ Extent.mk g.pVaddr g.data.length := by
    rw [Extent.mem_mk]
    omega
  have hk : v - s.shAddr < s.data.length := by
    unfold ElfSection.stop at hv'
    omega
  have hplace : s.shAddr - g.pVaddr + (v - s.shAddr) = v - g.pVaddr := by omega
  rw [memoryOf_mem hasc hs hv hv', ← hbytes _ hk, hplace]
  exact Space.writeAll_mem_full (fun _ _ => rfl) h.apart hg hin

/-- The words that are relocated have the same addends in both. -/
theorem Mapped.addendIn_eq (h : Mapped elf)
    (hasc : elf.copied.Pairwise fun s t => s.stop ≤ t.shAddr) (hrel : Relocatable elf)
    {r : ElfRelocation} (hr : r ∈ elf.relocations) :
    addendIn elf.memory r = addendIn (memoryOf elf.copied) r := by
  obtain ⟨s, hs, hstart, hstop⟩ := hrel.slots r hr
  have hread : elf.memory.read r.rOffset 8 = (memoryOf elf.copied).read r.rOffset 8 := by
    refine Space.read_congr fun x hx => ?_
    rw [Extent.mem_mk] at hx
    exact h.memory_eq hasc hs (by omega) (by omega)
  unfold addendIn
  rw [hread]

/-- **Relocated**, they still agree in every section that is kept, if the words that are relocated
are in such sections and apart. -/
theorem Mapped.relocated_eq (h : Mapped elf)
    (hasc : elf.copied.Pairwise fun s t => s.stop ≤ t.shAddr) (hrel : Relocatable elf)
    (bias : UInt64) (hs : s ∈ elf.copied) (hv : s.shAddr ≤ v) (hv' : v < s.stop) :
    elf.relocated bias v = elf.loaded bias v := by
  have hwords : elf.relocations.map (fun r =>
      (r.rOffset, leBytes 8 ((bias.toNat + addendIn elf.memory r) % 2 ^ 64).toNat))
      = elf.relocations.map fun r => (r.rOffset,
          leBytes 8 ((bias.toNat + addendIn (memoryOf elf.copied) r) % 2 ^ 64).toNat) := by
    refine List.map_congr_left fun r hr => ?_
    rw [h.addendIn_eq hasc hrel hr]
  rw [ElfFile.relocated, ElfFile.loaded, hwords]
  exact writeAll_congr (h.memory_eq hasc hs hv hv') _

/-- Between the sections that are kept there is nothing, and nothing is relocated there. -/
theorem Relocatable.loaded_eq_zero (hrel : Relocatable elf) (bias : UInt64)
    (hv : ∀ s ∈ elf.copied, v < s.shAddr ∨ s.stop ≤ v) : elf.loaded bias v = 0 := by
  rw [ElfFile.loaded, Space.writeAll_not_mem (fun _ _ => Nat.le_of_eq (length_leBytes 8 _)),
    memoryOf_not_mem hv]
  intro r hr hin
  obtain ⟨s, hs, hstart, hstop⟩ := hrel.slots r hr
  have hout := hv s hs
  rw [Extent.mem_mk] at hin
  omega

end

end LoliLoader.PyElf2Efi
