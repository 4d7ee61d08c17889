/-
# LoliLoader.Elf2Efi.Image -- the executable in memory

What an ELF loader makes of an executable, and that moving its segments, writing them to sections
and copying the sections keeps it.

`Executable.memory` is the meaning of an executable: the segments, zeros elsewhere, and at each
relocated word its addend, moved by how far the executable is from its addresses. It is a function
of the address in the ELF file, so that executables at different places can be compared.

The converter moves segments, and the loader of the image adds up the way it has been moved.
`flat_moved` and `copied_segments` are the two parts of that: moving segments keeps their memory at
the moved addresses, and sections hold the memory of their segments, with zeros before the start of
a segment that has been aligned down.

The sections may be larger than the segments. That they are apart all the same is a condition, from
which it follows that the segments are (`apart_ranges`).
-/
import LoliLoader.Elf2Efi.WriteSpec
import Mathlib.Data.List.Pairwise

namespace LoliLoader.Elf2Efi

open C Bytes

/-! ## Loading the ELF executable -/

/-- What a segment is in memory: the file-backed part, then zeros. -/
def Segment.loaded (s : Segment) : List UInt8 :=
  s.data.rawData.take s.filesize.toNat ++
    List.replicate (s.memsize.toNat - s.filesize.toNat) 0

/-- The segments in memory, by the addresses of the ELF file. -/
def Executable.loaded (exec : Executable) : Space :=
  Space.zero.writeAll (exec.segments.map fun s => (s.vaddr.toNat, s.loaded))

/-- The memory of the executable when it is loaded `bias` away from the addresses of the ELF
file, by these addresses: every relocated word is its addend with the bias added. -/
def Executable.memory (exec : Executable) (bias : UInt64) : Space :=
  exec.loaded.writeAll
    (exec.relocs.map fun r => (r.vaddr.toNat, leBytes 8 (r.addend + bias).toNat))

/-! ## The segments -/

section

variable {exec : Executable} {base : UInt64} {s : Segment} {x v : Nat}

theorem Segment.WellFormed.length_loaded (h : s.WellFormed) :
    s.loaded.length = s.memsize.toNat := by
  have hlen := h.length
  have hfile := h.filesize
  rw [loaded, List.length_append, List.length_take, List.length_replicate]
  omega

theorem Segment.WellFormed.getD_loaded (h : s.WellFormed) (k : Nat) :
    s.loaded.getD k 0 = s.data.rawData.getD k 0 := by
  have hlen := h.length
  have hfile := h.filesize
  exact getD_take_zeros (by omega) h.zeros _ k

/-- A segment is in its section. -/
theorem mem_extent_of_mem_range (hv : v ∈ s.range) (sh : Nat) : sh + v ∈ s.extent sh := by
  have hsum := s.start_add_pad sh
  rw [Segment.mem_range] at hv
  rw [Segment.mem_extent]
  omega

theorem apart_extents (h : Fits exec base) :
    exec.segments.Pairwise fun s t => (s.extent exec.shift).Apart (t.extent exec.shift) := by
  have hdisjoint := h.disjoint
  unfold Executable.sections at hdisjoint
  rw [List.pairwise_append, List.pairwise_map] at hdisjoint
  exact hdisjoint.1

theorem extent_apart {t : Segment} (h : Fits exec base) (hs : s ∈ exec.segments)
    (ht : t ∈ exec.segments) (hne : s ≠ t) :
    (s.extent exec.shift).Apart (t.extent exec.shift) := by
  have : Std.Symm fun s t : Segment => (s.extent exec.shift).Apart (t.extent exec.shift) :=
    ⟨fun _ _ => Extent.Apart.symm⟩
  exact (apart_extents h).forall hs ht hne

/-- The segments of the ELF file are apart like their sections. -/
theorem apart_ranges (h : Fits exec base) :
    exec.segments.Pairwise fun s t => s.range.Apart t.range :=
  (apart_extents h).imp fun hapart x hx hx' =>
    hapart (exec.shift + x) (mem_extent_of_mem_range hx _) (mem_extent_of_mem_range hx' _)

theorem loaded_mem (hw : exec.WellFormed) (h : Fits exec base) (hs : s ∈ exec.segments)
    (hv : v ∈ s.range) : exec.loaded v = s.data.rawData.getD (v - s.vaddr.toNat) 0 := by
  have hlen : ∀ t ∈ exec.segments, t.loaded.length ≤ t.memsize.toNat :=
    fun t ht => le_of_eq (hw.segment t ht).length_loaded
  rw [← (hw.segment s hs).getD_loaded]
  exact Space.writeAll_mem hlen (apart_ranges h) hs hv

theorem loaded_not_mem (hw : exec.WellFormed) (hv : ∀ s ∈ exec.segments, v ∉ s.range) :
    exec.loaded v = 0 := by
  have hlen : ∀ t ∈ exec.segments, t.loaded.length ≤ t.memsize.toNat :=
    fun t ht => le_of_eq (hw.segment t ht).length_loaded
  exact Space.writeAll_not_mem hlen hv

/-- **Moving** the segments keeps what is in memory: it is at the moved addresses afterwards, before
any relocation. -/
theorem flat_moved (hw : exec.WellFormed) (hb : ImageBase exec base) (h : Fits exec base)
    (v : Nat) :
    flat (exec.moved base).segments (base.toNat + (exec.shift + v)) = exec.loaded v := by
  have hlaid := laid_moved hw hb h
  by_cases hin : ∃ s ∈ exec.segments, exec.shift + v ∈ s.extent exec.shift
  · obtain ⟨s, hs, hmem⟩ := hin
    have hplace := h.placeable hw hb hs
    have hsum := s.start_add_pad exec.shift
    have hrange : base.toNat + (exec.shift + v) ∈ (s.moved base.toNat exec.shift).range := by
      rw [hplace.range_moved]
      exact Extent.add_mem_add.mpr hmem
    have hoffset : base.toNat + (exec.shift + v) - (s.moved base.toNat exec.shift).vaddr.toNat
        = exec.shift + v - s.start exec.shift := by
      rw [hplace.moved_toNat.1]
      omega
    rw [flat_mem hlaid (List.mem_map_of_mem hs) hrange, hoffset]
    show (List.replicate (s.pad exec.shift) 0 ++ s.data.rawData).getD _ 0 = _
    rw [getD_replicate_append]
    have hbounds := Segment.mem_extent.mp hmem
    by_cases hpad : s.pad exec.shift ≤ exec.shift + v - s.start exec.shift
    · have hv : v ∈ s.range := by
        rw [Segment.mem_range]
        omega
      have hindex : exec.shift + v - s.start exec.shift - s.pad exec.shift
          = v - s.vaddr.toNat := by omega
      rw [if_pos hpad, loaded_mem hw h hs hv, hindex]
    · -- in front of the segment, and so in no other
      rw [if_neg hpad, loaded_not_mem hw]
      intro t ht hv
      have hne : s ≠ t := by
        rintro rfl
        rw [Segment.mem_range] at hv
        omega
      exact extent_apart h hs ht hne _ hmem (mem_extent_of_mem_range hv _)
  · have hnone : ∀ t ∈ (exec.moved base).segments,
        base.toNat + (exec.shift + v) ∉ t.range := by
      intro t ht hmem
      obtain ⟨s, hs, rfl⟩ := List.mem_map.mp ht
      rw [(h.placeable hw hb hs).range_moved] at hmem
      exact hin ⟨s, hs, Extent.add_mem_add.mp hmem⟩
    rw [flat_not_mem hlaid hnone, loaded_not_mem hw]
    exact fun s hs hv => hin ⟨s, hs, mem_extent_of_mem_range hv _⟩

/-- **The sections** of the segments, once they are copied, are the segments, by addresses from the
image base on. -/
theorem copied_segments {segments : List Segment} (h : Laid segments)
    (hbase : ∀ s ∈ segments, base.toNat ≤ s.vaddr.toNat) (x : Nat) :
    Space.zero.writeAll (segments.map fun s =>
      (s.vaddr.toNat - base.toNat, s.raw.take s.memsize.toNat)) x
        = flat segments (base.toNat + x) := by
  have hlen : ∀ s ∈ segments, (s.raw.take s.memsize.toNat).length ≤ s.memsize.toNat :=
    fun s _ => List.length_take_le _ _
  have hmem : ∀ s ∈ segments, x ∈ Extent.mk (s.vaddr.toNat - base.toNat) s.memsize.toNat ↔
      base.toNat + x ∈ s.range := by
    intro s hs
    have hle := hbase s hs
    rw [Extent.mem_mk, Segment.mem_range]
    omega
  by_cases hin : ∃ s ∈ segments, base.toNat + x ∈ s.range
  · obtain ⟨s, hs, hx⟩ := hin
    have hapart : segments.Pairwise fun s t =>
        (Extent.mk (s.vaddr.toNat - base.toNat) s.memsize.toNat).Apart
          (Extent.mk (t.vaddr.toNat - base.toNat) t.memsize.toNat) := by
      refine h.apart.imp_of_mem fun {s t} hs ht hapart y hy hy' => ?_
      have hle := hbase s hs
      have hle' := hbase t ht
      rw [Extent.mem_mk] at hy hy'
      apply hapart (base.toNat + y)
      · rw [Segment.mem_range]
        omega
      · rw [Segment.mem_range]
        omega
    have hoffset : x - (s.vaddr.toNat - base.toNat) = base.toNat + x - s.vaddr.toNat := by
      have hle := hbase s hs
      omega
    have hlt : base.toNat + x - s.vaddr.toNat < s.memsize.toNat := by
      rw [Segment.mem_range] at hx
      omega
    rw [Space.writeAll_mem hlen hapart hs ((hmem s hs).mpr hx), flat_mem h hs hx, hoffset,
      ← getD_take_raw (h.sound s hs) hlt]
    rfl
  · rw [Space.writeAll_not_mem hlen fun s hs hx => hin ⟨s, hs, (hmem s hs).mp hx⟩,
      flat_not_mem h fun s hs hx => hin ⟨s, hs, hx⟩]
    rfl

end

end LoliLoader.Elf2Efi
