/-
# LoliLoader.PyElf2Efi.Preserve -- conversion preserves what is loaded

The passes of `elf2efi.py` put together, from the ELF file to the bytes that are written, and back
from the bytes to what a loader of PE32+ images has in memory.

`Wrote` collects what is known of an accepted file; `Wrote.memory` follows the words of the
relocations through the loader, which adds the distance to the preferred base to each of them.
`Preserves` is the result, and it speaks of the ELF file only: in every section that is kept the
image has, a fixed distance away, what a loader of ELF files has there, and the entry point moves
with it. What the script leaves out is not in the image: there the image has zeros, whatever the
segments have.

All of this is for 64-bit files whose image has addresses of no more than 32 bits (`Fits`), whose
relocated words are apart and inside sections that are kept (`Relocatable`), and whose sections have
the bytes of the segments (`Mapped`). The script checks none of these.
-/
import LoliLoader.PyElf2Efi.ReadBack
import LoliLoader.PyElf2Efi.Segments

namespace LoliLoader.PyElf2Efi

open Bytes Pe
open C (bind_eq_ok)

/-! ## The passes together -/

/-- What has been written, and from which sections. `shift` is the distance that the sections have
been moved by, so that there is room for the headers in front of them. -/
structure Wrote (elf : ElfFile) (args : Args) (file : List UInt8) (coff : PeCoffHeader)
    (opt : PeOptionalHeader) (sections : List PeSection) (peRelocS : Option PeSection)
    (shift : Nat) : Prop where
  prepared : Prepared elf args opt sections peRelocS shift
  ascending : elf.copied.Pairwise fun s t => s.stop ≤ t.shAddr
  agrees : Agrees coff opt sections
  image : nextSectionAddress sections = .ok opt.sizeOfImage.toNat
  alignment : opt.sectionAlignment.toNat = 4096
  reloc : ∀ p, peRelocS = some p → opt.baseRelocationTable = (p.virtualAddress, p.virtualSize)
  noReloc : peRelocS = none → opt.baseRelocationTable = (0, 0)
  bytes : file = frontOf coff opt sections ++ (sections.map PeSection.raw).flatten
  front : (frontOf coff opt sections).length = opt.sizeOfHeaders.toNat

section

variable {elf : ElfFile} {args : Args} {file : List UInt8}

/-- The steps of `elf2efi`. -/
theorem elf2efi_steps {hash : UInt32} {timeDateStamp : Int}
    (h : elf2efi args hash timeDateStamp elf = .ok file) :
    ∃ peArch opt₁ sections₁ opt₂ sections₂ opt₃ sections₃ peRelocS a,
      convertSections elf { PeOptionalHeader.empty elf.elfclass with
          imageBase := imageBaseFor elf.elfclass hash } = .ok (opt₁, sections₁) ∧
      copySections elf args.copySections (opt₁, sections₁) = .ok (opt₂, sections₂) ∧
      convertElfRelocations elf opt₂ sections₂ args.minimumSections
        = .ok (opt₃, sections₃, peRelocS) ∧
      nextSectionAddress sections₃ = .ok a ∧
      writePe (coffHeader elf.elfclass peArch sections₃ timeDateStamp)
        (finishHeader args opt₃ a peRelocS) sections₃ = .ok file := by
  unfold elf2efi at h
  split at h
  · cases h
  · split at h
    · cases h
    · split at h
      · cases h
      · rename_i peArch _
        obtain ⟨⟨opt₁, sections₁⟩, hconvert, h⟩ := bind_eq_ok.mp h
        obtain ⟨⟨opt₂, sections₂⟩, hcopy, h⟩ := bind_eq_ok.mp h
        obtain ⟨⟨opt₃, sections₃, peRelocS⟩, hreloc, h⟩ := bind_eq_ok.mp h
        obtain ⟨a, ha, h⟩ := bind_eq_ok.mp h
        exact ⟨peArch, opt₁, sections₁, opt₂, sections₂, opt₃, sections₃, peRelocS, a, hconvert,
          hcopy, hreloc, ha, h⟩

/-- **elf2efi**, when it accepts a file: what the passes leave is what `write_pe` writes, and all
that the results about the file need is collected in `Wrote`. -/
theorem elf2efi_wrote (hclass : elf.elfclass = .elf64) (hfits : Fits elf args)
    (hrel : Relocatable elf) {hash : UInt32} {timeDateStamp : Int}
    (h : elf2efi args hash timeDateStamp elf = .ok file) :
    ∃ coff opt sections peRelocS shift,
      Wrote elf args file coff opt sections peRelocS shift := by
  obtain ⟨peArch, opt₁, sections₁, opt₂, sections₂, opt₃, sections₃, peRelocS, a, hconvert, hcopy,
    hreloc, ha, hwrite⟩ := elf2efi_steps h
  obtain ⟨hcarries, hsame₁⟩ := convertSections_carries hfits.small hconvert
  obtain ⟨hlaid, hsame₂⟩ := laid_of_copied hfits hcarries hsame₁.elfclass hcopy
  obtain ⟨⟨shift, hprepared⟩, hsame₃⟩ :=
    convertElfRelocations_prepared hclass hfits hrel hlaid hreloc
  have hsame := (hsame₁.trans hsame₂).trans hsame₃
  have hlt := hprepared.ends a ha
  obtain ⟨hdvd, hbehind, last, hlast, -⟩ := hprepared.arranged.next ha
  have hroom : opt₃.sizeOfHeaders.toNat ≤ a := by
    have hstart := hprepared.first last hlast
    have hstop := hbehind last hlast
    unfold PeSection.stop at hstop
    omega
  have hend := endOf_le hprepared.arranged hprepared.headers hprepared.first hdvd hbehind hroom
  have hagrees : Agrees (coffHeader elf.elfclass peArch sections₃ timeDateStamp)
      (finishHeader args opt₃ a peRelocS) sections₃ := by
    refine ⟨hprepared.elfclass, ?_, rfl, ?_, ?_, hprepared.arranged, hprepared.headers,
      lt_of_le_of_lt hend hlt⟩
    · show (if opt₃.elfclass = .elf32 then (0x10B : UInt16) else 0x20B) = 0x20B
      rw [hprepared.elfclass]
      rfl
    · rw [hclass]
      rfl
    · show (UInt16.ofNat sections₃.length).toNat = _
      rw [UInt16.toNat_ofNat', Nat.mod_eq_of_lt hprepared.count]
  obtain ⟨hbytes, hfront⟩ := writePe_ok hprepared.arranged hagrees.headers hagrees.ends hwrite
  refine ⟨_, finishHeader args opt₃ a peRelocS, sections₃, peRelocS, shift, ?_,
    hcarries.ascending, hagrees, ?_, rfl, ?_, ?_, hbytes, hfront⟩
  · exact { hprepared with }
  · rw [ha]
    exact congrArg Except.ok (ofNat_toNat hlt).symm
  · rintro p rfl
    rfl
  · rintro rfl
    exact hsame.baseRelocationTable

end

/-! ## The image -/

/-- The image has what the ELF file would have in memory, `address + shift` away from the addresses
of the file. `kept` is about the sections that are taken over, `dropped` about all else below the
end of the last of them. -/
structure Preserves (elf : ElfFile) (address : UInt64) (shift : Nat) (image : Image) : Prop where
  kept : ∀ s ∈ elf.copied, ∀ v, s.shAddr ≤ v → v < s.stop →
    image.memory (shift + v) = elf.relocated (address + UInt64.ofNat shift) v
  dropped : ∀ v < elf.copiedEnd, (∀ s ∈ elf.copied, v < s.shAddr ∨ s.stop ≤ v) →
    image.memory (shift + v) = 0
  entry : elf.eEntry < elf.copiedEnd →
    image.entryPoint = UInt64.ofNat elf.eEntry + (address + UInt64.ofNat shift)

section

variable {elf : ElfFile} {args : Args} {file : List UInt8} {coff : PeCoffHeader}
  {opt : PeOptionalHeader} {sections : List PeSection} {peRelocS : Option PeSection} {shift : Nat}

/-- The places of the words in the image, in ascending order as the table has them: the places of
the relocations, moved with the sections. -/
def placesOf (elf : ElfFile) (shift : Nat) : List Nat :=
  (elf.relocations.map fun r => shift + r.rOffset).insertionSort (· ≤ ·)

/-- **The directory** names the words, page by page: its blocks can be walked, they are aligned and
ascending, and the places they name are those of the relocations, each once. -/
theorem Wrote.directory (h : Wrote elf args file coff opt sections peRelocS shift) :
    ∃ bs, walk ((flat sections).read opt.baseRelocationTable.1.toNat
        opt.baseRelocationTable.2.toNat) = some bs ∧
      (∀ b ∈ bs, 4 ∣ b.size ∧ 4096 ∣ b.page) ∧ bs.Pairwise (fun b c => b.page < c.page) ∧
      decode ((flat sections).read opt.baseRelocationTable.1.toNat
        opt.baseRelocationTable.2.toNat) = some (placesOf elf shift) := by
  cases hreloc : peRelocS with
  | none =>
      rw [h.noReloc hreloc, placesOf, h.prepared.noReloc hreloc]
      refine ⟨[], ?_, fun b hb => absurd hb List.not_mem_nil, .nil, ?_⟩
      · show walk [] = some []
        rw [walk, if_pos rfl]
      · show decode [] = some []
        rw [decode, if_pos rfl]
  | some p =>
      obtain ⟨hmem, hdirectory⟩ := h.prepared.reloc p hreloc
      have hsize := (h.prepared.arranged.exact p hmem).virtualSize
      have hread := flat_read (n := p.data.length) h.prepared.arranged hmem (Nat.le_refl p.start)
        (Nat.le_refl p.stop)
      rw [Nat.sub_self, List.drop_zero, List.take_length] at hread
      rw [h.reloc p hreloc, hsize]
      show ∃ bs, walk ((flat sections).read p.start p.data.length) = some bs ∧ _ ∧ _ ∧
        decode ((flat sections).read p.start p.data.length) = _
      rw [hread]
      exact hdirectory

/-- A word moved from the image base to where the image is. -/
theorem word_moved {addend : Int} {address imageBase : UInt64} {shift : Nat} {w : Nat}
    (hw : (w : Int) = imageBase.toNat + shift + addend) :
    leBytes 8 (w + (address - imageBase).toNat)
      = leBytes 8 (((address + UInt64.ofNat shift).toNat + addend) % 2 ^ 64).toNat := by
  have hmod : (w + (address - imageBase).toNat) % 2 ^ 64
      = (((address + UInt64.ofNat shift).toNat + addend) % 2 ^ 64).toNat % 2 ^ 64 := by
    rw [UInt64.toNat_sub, UInt64.toNat_add, UInt64.toNat_ofNat']
    have := imageBase.toNat_lt
    omega
  rw [← leBytes_mod 8 (w + _), ← leBytes_mod 8 (Int.toNat _)]
  exact congrArg (leBytes 8) hmod

/-- **The words** of the image, and the bytes around them: when a loader has added the distance to
the preferred base at every place, the memory is that of the sections of the file, relocated for
where the image is. -/
theorem Wrote.memory (h : Wrote elf args file coff opt sections peRelocS shift)
    (hrel : Relocatable elf) (address : UInt64) {v : Nat} (hv : v < elf.copiedEnd) :
    (flat sections).addWords (address - opt.imageBase).toNat (placesOf elf shift) (shift + v)
      = elf.loaded (address + UInt64.ofNat shift) v := by
  have hslots : elf.relocations.Pairwise fun r r' =>
      (Extent.mk r.rOffset 8).Apart (Extent.mk r'.rOffset 8) := hrel.apart
  have hplaces : (placesOf elf shift).Pairwise fun a b =>
      (Extent.mk a 8).Apart (Extent.mk b 8) := by
    have hmap : (elf.relocations.map fun r => shift + r.rOffset).Pairwise fun a b =>
        (Extent.mk a 8).Apart (Extent.mk b 8) :=
      List.pairwise_map.mpr (hslots.imp fun hapart => hapart.add shift)
    exact (List.perm_insertionSort _ _).symm.pairwise hmap fun hapart => hapart.symm
  have hmem : ∀ a, a ∈ placesOf elf shift ↔ ∃ r ∈ elf.relocations, shift + r.rOffset = a := by
    intro a
    rw [placesOf, List.mem_insertionSort, List.mem_map]
  have hlen : ∀ r, (storedIn (memoryOf elf.copied) (opt.imageBase.toNat + shift) r).length = 8 :=
    fun r => length_leBytes _ _
  by_cases hslot : ∃ r ∈ elf.relocations, v ∈ Extent.mk r.rOffset 8
  · obtain ⟨r, hr, hin⟩ := hslot
    -- what is written there
    have hstored : (flat sections).read (shift + r.rOffset) 8
        = storedIn (memoryOf elf.copied) (opt.imageBase.toNat + shift) r := by
      have hread := @Space.read_eq (flat sections) (shift + r.rOffset)
        (storedIn (memoryOf elf.copied) (opt.imageBase.toNat + shift) r)
      rw [hlen r] at hread
      refine hread fun k hk => ?_
      obtain ⟨s, hs, -, hstop⟩ := hrel.slots r hr
      have hend := stop_le_copiedEnd hs
      rw [Nat.add_assoc, h.prepared.memory _ (by omega),
        Space.writeAll_mem_full (fun r _ => hlen r) hslots hr (by rw [Extent.mem_mk]; omega),
        Nat.add_sub_cancel_left]
    obtain ⟨hpos, hlt⟩ := h.prepared.words r hr
    have hword := @word_moved (addendIn (memoryOf elf.copied) r) address opt.imageBase shift
      (((opt.imageBase.toNat + shift : Nat) : Int) + addendIn (memoryOf elf.copied) r).toNat
      (by omega)
    rw [Space.addWords_mem hplaces ((hmem _).mpr ⟨r, hr, rfl⟩) (Extent.add_mem_add.mpr hin),
      hstored, storedIn, ofLE_leBytes_of_lt (by omega), hword, ElfFile.loaded,
      Space.writeAll_mem_full (fun _ _ => length_leBytes 8 _) hslots hr hin, Nat.add_sub_add_left]
  · have hout : ∀ r ∈ elf.relocations, v ∉ Extent.mk r.rOffset 8 :=
      fun r hr hin => hslot ⟨r, hr, hin⟩
    have hplace : ∀ a ∈ placesOf elf shift, shift + v ∉ Extent.mk a 8 := by
      intro a ha hin
      obtain ⟨r, hr, rfl⟩ := (hmem a).mp ha
      exact hout r hr (Extent.add_mem_add.mp hin)
    rw [Space.addWords_not_mem hplace, h.prepared.memory v hv,
      Space.writeAll_not_mem (fun r _ => Nat.le_of_eq (hlen r)) hout, ElfFile.loaded,
      Space.writeAll_not_mem (fun r _ => Nat.le_of_eq (length_leBytes _ _)) hout]

end

/-- **The conversion** preserves what is loaded: whatever file comes out, and wherever its image
is loaded, the image has what the segments of the ELF file would have in memory, relocated, in every
section that is kept. -/
theorem elf2efi_preserves {elf : ElfFile} {args : Args} (hclass : elf.elfclass = .elf64)
    (hfits : Fits elf args) (hrel : Relocatable elf) (hmapped : Mapped elf) (hash : UInt32)
    (timeDateStamp : Int) :
    ∀ file, elf2efi args hash timeDateStamp elf = .ok file → ∃ shift, 4096 ∣ shift ∧
      ∀ address, ∃ image, load file address = some image ∧ Preserves elf address shift image := by
  intro file hok
  obtain ⟨coff, opt, sections, peRelocS, shift, h⟩ := elf2efi_wrote hclass hfits hrel hok
  refine ⟨shift, h.prepared.moved, fun address => ?_⟩
  obtain ⟨-, -, -, -, hdecode⟩ := h.directory
  obtain ⟨image, hload, hentry, hmemory⟩ :=
    load_written h.agrees h.bytes h.front hdecode address
  have hloaded : ∀ v < elf.copiedEnd,
      image.memory (shift + v) = elf.loaded (address + UInt64.ofNat shift) v := by
    intro v hv
    rw [hmemory]
    exact h.memory hrel address hv
  refine ⟨image, hload, ?_, ?_, ?_⟩
  · intro s hs v hv hv'
    rw [hloaded v (lt_of_lt_of_le hv' (stop_le_copiedEnd hs)),
      hmapped.relocated_eq h.ascending hrel _ hs hv hv']
  · intro v hv hout
    rw [hloaded v hv, hrel.loaded_eq_zero _ hout]
  · intro hin
    have hbelow := h.prepared.below
    rw [hentry, h.prepared.entry, ofNat_toNat (by omega), UInt64.ofNat_add, ← UInt64.add_assoc,
      UInt64.add_comm address, UInt64.add_assoc]

/-- An executable with two pointers in its data and one in what has no contents, which are not
in order.  Behind its code there is an unwind table, which is not kept. -/
def smallPie : ElfFile where
  littleEndian := true
  elfclass := .elf64
  eType := .etDyn
  eMachine := .emX8664
  eEntry := 0x1004
  segments := [⟨.ptLoad, 4096, 0x1000, 24, List.replicate 16 0x90 ++ List.replicate 8 0x55⟩,
    ⟨.ptLoad, 4096, 0x2000, 40, List.replicate 16 0x01⟩]
  sections := [⟨"", .other "SHT_NULL", 0, 0, 0, 0, []⟩,
    ⟨".text", .progbits, 6, 0x1000, 16, 16, List.replicate 16 0x90⟩,
    ⟨".eh_frame", .progbits, 2, 0x1010, 8, 8, List.replicate 8 0x55⟩,
    ⟨".data", .progbits, 3, 0x2000, 16, 8, List.replicate 16 0x01⟩,
    ⟨".bss", .nobits, 3, 0x2020, 8, 8, []⟩]
  sectionInSegment := fun _ _ => false
  sectionByName := fun name =>
    if name = "" then some ⟨"", .other "SHT_NULL", 0, 0, 0, 0, []⟩ else none
  dynamic := some ⟨[0x08000000],
    [(.rela, [⟨0x2008, 8, some 0x2000⟩, ⟨0x2000, 8, some 0x1004⟩, ⟨0x2020, 8, some 7⟩])]⟩
  symbolsByName := none

/-- The arguments of the script when no section is to be copied: versions of 0, the subsystem of an
EFI application, and no minimum of sections. -/
def smallArgs : Args := ⟨0, 0, 0, 0, 10, 0, ""⟩

theorem smallPie_fits : Fits smallPie smallArgs where
  below := by decide +kernel
  count := by decide +kernel

theorem smallPie_relocatable : Relocatable smallPie where
  slots := by decide +kernel
  apart := by
    have hplaces : smallPie.relocations = [⟨0x2008, 8, some 0x2000⟩, ⟨0x2000, 8, some 0x1004⟩,
        ⟨0x2020, 8, some 7⟩] := by decide +kernel
    rw [hplaces]
    refine .cons ?_ (.cons ?_ (List.pairwise_singleton _ _))
    · rw [List.forall_mem_cons, List.forall_mem_singleton]
      exact ⟨(Extent.Apart.of_le (by decide)).symm, Extent.Apart.of_le (by decide)⟩
    · rw [List.forall_mem_singleton]
      exact Extent.Apart.of_le (by decide)

theorem smallPie_mapped : Mapped smallPie where
  apart := by
    have hloads : smallPie.loads = [⟨.ptLoad, 4096, 0x1000, 24,
        List.replicate 16 0x90 ++ List.replicate 8 0x55⟩,
        ⟨.ptLoad, 4096, 0x2000, 40, List.replicate 16 0x01⟩] := by decide +kernel
    rw [hloads]
    refine .cons ?_ (List.pairwise_singleton _ _)
    rw [List.forall_mem_singleton]
    exact Extent.Apart.of_le (by decide)
  inside := by decide +kernel

theorem smallPie_accepted : ∃ file, elf2efi smallArgs 0x12345678 0 smallPie = .ok file := by
  have hlen : (elf2efi smallArgs 0x12345678 0 smallPie).toOption.map List.length
      = some 2048 := by
    decide +kernel
  cases hfile : elf2efi smallArgs 0x12345678 0 smallPie with
  | error e =>
      rw [hfile] at hlen
      cases hlen
  | ok file => exact ⟨file, rfl⟩

/-- The unwind table is in the memory of the file, and not in the image. -/
theorem smallPie_preserved :
    ∃ file shift image, elf2efi smallArgs 0x12345678 0 smallPie = .ok file ∧
      load file 0x70000000 = some image ∧ Preserves smallPie 0x70000000 shift image ∧
      smallPie.memory 0x1010 = 0x55 ∧ image.memory (shift + 0x1010) = 0 := by
  obtain ⟨file, hfile⟩ := smallPie_accepted
  obtain ⟨shift, -, hload⟩ :=
    elf2efi_preserves rfl smallPie_fits smallPie_relocatable smallPie_mapped 0x12345678 0 file hfile
  obtain ⟨image, hload, himage⟩ := hload 0x70000000
  refine ⟨file, shift, image, hfile, hload, himage, ?_, himage.dropped 0x1010 ?_ ?_⟩ <;>
    decide +kernel

end LoliLoader.PyElf2Efi
