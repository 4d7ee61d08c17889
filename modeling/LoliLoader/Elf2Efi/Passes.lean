/-
# LoliLoader.Elf2Efi.Passes -- relocate_exec, apply_relocs and create_pe_reloc together

The state in which `write_pe` finds an executable: its segments in their places with the relocated
words in them, and the table of these words.

Three passes come before the file is written. The first one moves the segments to the places that
the plan has for them, the second one stores the words, and the third one makes the table. `Passed`
is what the first two leave, in terms of the plan, and `passes_ok` says that they succeed for an
executable that fits.

The relocations are moved together with the segments, so that the table is made of addresses in the
image. Their order stays, and so does that of the segments; the last segment is still the last
(`last_segment`), which is where `.reloc` goes behind.

`ready_of_passed` hands all this over to the specification of `write_pe`.
-/
import LoliLoader.Elf2Efi.Image

namespace LoliLoader.Elf2Efi

open C Bytes Pe

/-! ## After the passes -/

/-- What the first two passes leave: the segments in their places with the relocated words in
them, and the relocation table. -/
structure Passed (exec exec' : Executable) (base : UInt64) (table : SizedData) : Prop where
  applied : Applied (exec.moved base) exec' (exec.moved base).relocs
  rawData : table.rawData = exec.relocTable
  size : table.size.toNat = table.rawData.length

section

variable {exec exec' : Executable} {base : UInt64} {table : SizedData}

/-- Where the relocation table is in the image. -/
theorem relocSection_eq (hreloc : exec.relocs ≠ []) {last : Segment}
    (hlast : exec.segments.getLast? = some last) :
    exec.relocSection = some
      ⟨roundUp (last.vaddr.toNat + exec.shift + last.memsize.toNat)
        exec.executableAlignment.toNat, exec.relocTable.length⟩ := by
  rw [Executable.relocSection, if_neg hreloc, hlast]
  rfl

theorem mem_sections_of_relocSection {e : Extent} (he : exec.relocSection = some e) :
    e ∈ exec.sections := by
  apply List.mem_append_right
  rw [he]
  exact List.mem_singleton_self e

theorem le_sizeOfHeaders (exec : Executable) : 512 ≤ exec.sizeOfHeaders := by
  have hle := le_roundUp (328 + 40 * exec.sections.length) (show 0 < 512 by decide)
  show 512 ≤ roundUp (328 + 40 * exec.sections.length) 512
  unfold roundUp at hle ⊢
  omega

theorem length_relocTable (h : Fits exec base) (hne : exec.segments ≠ []) :
    exec.relocTable.length + 512 ≤ 2 ^ 32 := by
  by_cases hnil : exec.relocs = []
  · have htable : exec.relocTable = [] := by
      rw [Executable.relocTable, Executable.relocRvas, hnil]
      rfl
    rw [htable]
    decide
  · have he := relocSection_eq hnil (List.getLast?_eq_getLast_of_ne_nil hne)
    have hbelow := h.below _ (mem_sections_of_relocSection he)
    have hheaders := h.headers _ (mem_sections_of_relocSection he)
    have hsize := le_sizeOfHeaders exec
    dsimp only at hbelow hheaders
    omega

theorem length_segments (hp : Passed exec exec' base table) :
    exec'.segments.length = exec.segments.length := by
  have hlen := congrArg List.length hp.applied.shape
  rw [List.length_map, List.length_map] at hlen
  rw [hlen]
  exact List.length_map _

theorem hasPeReloc_iff (hp : Passed exec exec' base table) :
    hasPeReloc exec' = true ↔ exec.relocs ≠ [] := by
  have hrelocs : exec'.relocs = (exec.moved base).relocs := by rw [hp.applied.rest]
  have hlen : exec'.relocs.length = exec.relocs.length := by
    rw [hrelocs]
    exact List.length_map _
  rw [hasPeReloc, decide_eq_true_iff, hlen, ne_eq, ne_eq, List.length_eq_zero_iff]

end

/-! ## The passes -/

section

variable {exec exec' : Executable} {base : UInt64} {table : SizedData}
  (hw : exec.WellFormed) (hb : ImageBase exec base) (h : Fits exec base)

include hw hb h

theorem relocRvas_moved :
    (exec.moved base).relocs.map (fun r => r.vaddr.toNat - base.toNat) = exec.relocRvas := by
  show (exec.relocs.map _).map _ = exec.relocs.map _
  rw [List.map_map]
  refine List.map_congr_left fun r hr => ?_
  have hvaddr := (inSegment_moved hw hb h hr).1
  show (r.vaddr + (base + UInt64.ofNat exec.shift)).toNat - base.toNat = _
  omega

/-- The relocations after `relocate_exec`. -/
theorem pairwise_relocs_moved :
    (exec.moved base).relocs.Pairwise fun r r' => r.vaddr.toNat + 8 ≤ r'.vaddr.toNat := by
  show (exec.relocs.map _).Pairwise _
  rw [List.pairwise_map]
  refine hw.relocs.imp_of_mem fun {r r'} hr hr' hle => ?_
  have hvaddr := (inSegment_moved hw hb h hr).1
  have hvaddr' := (inSegment_moved hw hb h hr').1
  dsimp only
  omega

theorem mem_relocs_moved {r : ExecReloc} (hr : r ∈ (exec.moved base).relocs) :
    InSegment (exec.moved base).segments r ∧ OffEnds (exec.moved base).segments r ∧
      base.toNat ≤ r.vaddr.toNat ∧ r.vaddr.toNat - base.toNat < 2 ^ 32 := by
  obtain ⟨r', hr', rfl⟩ := List.mem_map.mp hr
  obtain ⟨hvaddr, hlt, hseg, hends⟩ := inSegment_moved hw hb h hr'
  refine ⟨hseg, hends, ?_, ?_⟩
  · dsimp only
    omega
  · dsimp only
    omega

omit hb h in
theorem pairwise_relocRvas : exec.relocRvas.Pairwise (· ≤ ·) := by
  show (exec.relocs.map _).Pairwise _
  rw [List.pairwise_map]
  refine hw.relocs.imp fun {r r'} hle => ?_
  omega

omit hb in
theorem length_relocs (hne : exec.segments ≠ []) : 2 * exec.relocs.length < 2 ^ 32 := by
  have htable := length_relocTable h hne
  have hlen := two_mul_length_le (blocksOf exec.relocRvas)
  have hcount : exec.relocRvas.length = exec.relocs.length := List.length_map ..
  rw [addresses_blocksOf (pairwise_relocRvas hw)] at hlen
  unfold Executable.relocTable at htable
  omega

/-- **The passes** before the file is written succeed, and all that is left of the conversion is
`write_pe` on what they give. -/
theorem passes_ok (hne : exec.segments ≠ []) :
    ∃ exec' table, Passed exec exec' base table ∧
      ∀ segname, convert segname exec base = writePe segname exec' base table := by
  have hsorted := pairwise_relocs_moved hw hb h
  have hin := fun r hr => @mem_relocs_moved exec base hw hb h r hr
  obtain ⟨exec', hok, happlied⟩ := applyRelocs_ok (laid_moved hw hb h) hsorted
    (fun r hr => (hin r hr).1) (fun r hr => (hin r hr).2.1)
  have hrelocs : exec'.relocs = (exec.moved base).relocs := by rw [happlied.rest]
  have hrvas := relocRvas_moved hw hb h
  have hpos : 0 < base.toNat := by
    apply Nat.pos_of_ne_zero
    intro hzero
    exact hb.nonzero (UInt64.toNat_inj.mp hzero)
  obtain ⟨table, htable, hraw, hsize⟩ := @createPeReloc_rvas exec' base hb.page hpos
    (by
      rw [hrelocs]
      refine hsorted.imp fun {r r'} hle => ?_
      rw [UInt64.le_iff_toNat_le]
      omega)
    (by
      rw [hrelocs]
      exact fun r hr => (hin r hr).2.2)
    (by
      have hlen := length_relocs hw h hne
      rw [hrelocs]
      show (exec.relocs.map _).length < 2 ^ 60
      rw [List.length_map]
      omega)
  rw [hrelocs, hrvas] at hraw
  refine ⟨exec', table, ⟨happlied, hraw, hsize⟩, fun segname => ?_⟩
  unfold convert
  rw [relocateExec_ok hw hb h hne]
  show (applyRelocs (exec.moved base) >>= _) = _
  rw [hok]
  show (createPeReloc exec' base >>= _) = _
  rw [htable]
  rfl

/-! ## The file that is written -/

theorem of_mem_segments (hp : Passed exec exec' base table) {t : Segment}
    (ht : t ∈ exec'.segments) :
    ∃ s ∈ exec.segments, t.vaddr.toNat = base.toNat + (s.extent exec.shift).start ∧
      t.memsize.toNat = (s.extent exec.shift).size := by
  have hmem : t.shape ∈ (exec.moved base).segments.map Segment.shape :=
    hp.applied.shape ▸ List.mem_map_of_mem ht
  obtain ⟨u, hu, hshape⟩ := List.mem_map.mp hmem
  obtain ⟨s, hs, rfl⟩ := List.mem_map.mp hu
  have hrange := (Segment.range_of_shape hshape).symm
  rw [(h.placeable hw hb hs).range_moved] at hrange
  exact ⟨s, hs, congrArg Extent.start hrange, congrArg Extent.size hrange⟩

/-- After the passes everything is ready for `write_pe`. -/
theorem ready_of_passed (hp : Passed exec exec' base table) (hne : exec.segments ≠ []) :
    Ready exec' base table := by
  have hlen := length_segments hp
  have halign : exec'.executableAlignment = exec.executableAlignment := by rw [hp.applied.rest]; rfl
  have htable := length_relocTable h hne
  refine ⟨?_, ?_, hp.applied.laid.sound, ?_, ?_, ?_⟩
  · intro hnil
    rw [hnil] at hlen
    exact hne (List.length_eq_zero_iff.mp hlen.symm)
  · rw [hlen]
    exact hw.segnum
  · intro t ht
    obtain ⟨s, hs, hvaddr, hmemsize⟩ := of_mem_segments hw hb h hp ht
    have hmem : s.extent exec.shift ∈ exec.sections :=
      List.mem_append_left _ (List.mem_map_of_mem hs)
    have hbelow := h.below _ hmem
    have hheaders := h.headers _ hmem
    have hsize := le_sizeOfHeaders exec
    omega
  · rw [halign]
    refine ⟨?_, hb.alignment_ne⟩
    apply UInt32.toNat_inj.mp
    rw [UInt32.toNat_mod]
    exact Nat.mod_eq_zero_of_dvd hw.alignment.1
  · have hsize := hp.size
    refine ⟨hsize, ?_⟩
    rw [hsize, hp.rawData]
    exact htable

theorem decode_relocTable (hne : exec.segments ≠ []) :
    decode exec.relocTable = some exec.relocRvas := by
  have htable := length_relocTable h hne
  apply decode_encode_blocksOf
  · exact pairwise_relocRvas hw
  · intro x hx
    obtain ⟨r, hr, rfl⟩ := List.mem_map.mp hx
    have hlt := (inSegment_moved hw hb h hr).2.1
    omega
  · show exec.relocTable.length < 2 ^ 32
    omega

theorem relocTable_pos (hne : exec.segments ≠ []) (hreloc : exec.relocs ≠ []) :
    0 < exec.relocTable.length := by
  apply Nat.pos_of_ne_zero
  intro hzero
  have hdecode := decode_relocTable hw hb h hne
  have hempty : decode [] = some [] := @decode_encode [] fun _ hb => absurd hb List.not_mem_nil
  rw [List.length_eq_zero_iff.mp hzero, hempty] at hdecode
  have hnil : exec.relocRvas = [] := (Option.some.inj hdecode).symm
  exact hreloc (List.map_eq_nil_iff.mp hnil)

/-- The last segment is still the last. -/
theorem last_segment (hp : Passed exec exec' base table) {last last' : Segment}
    (hlast : exec.segments.getLast? = some last) (hlast' : exec'.segments.getLast? = some last') :
    last'.vaddr.toNat + last'.memsize.toNat
      = base.toNat + (last.vaddr.toNat + exec.shift + last.memsize.toNat) := by
  have hshape := congrArg List.getLast? hp.applied.shape
  have hmoved : (exec.moved base).segments.getLast?
      = some (last.moved base.toNat exec.shift) := by
    show (exec.segments.map (Segment.moved base.toNat exec.shift)).getLast? = _
    rw [List.getLast?_map, hlast]
    rfl
  rw [List.getLast?_map, List.getLast?_map, hlast', hmoved] at hshape
  have hrange := Segment.range_of_shape (Option.some.inj hshape)
  rw [(h.placeable hw hb (List.mem_of_getLast? hlast)).range_moved] at hrange
  have hstart : last'.vaddr.toNat = base.toNat + last.start exec.shift :=
    congrArg Extent.start hrange
  have hsize : last'.memsize.toNat = last.memsize.toNat + last.pad exec.shift :=
    congrArg Extent.size hrange
  have hsum := last.start_add_pad exec.shift
  omega

/-- **The `.reloc` section** is where the plan has it: behind the last segment, up to the common
alignment. -/
theorem relocVaddr_toNat (hp : Passed exec exec' base table) (hreloc : exec.relocs ≠ [])
    {last last' : Segment} (hlast : exec.segments.getLast? = some last)
    (hlast' : exec'.segments.getLast? = some last') :
    (relocVaddrOf exec' last' - base).toUInt32.toNat
      = roundUp (last.vaddr.toNat + exec.shift + last.memsize.toNat)
          exec.executableAlignment.toNat := by
  have hend := last_segment hw hb h hp hlast hlast'
  have halign : exec'.executableAlignment = exec.executableAlignment := by rw [hp.applied.rest]; rfl
  have hal : exec.executableAlignment.toUInt64.toNat = exec.executableAlignment.toNat :=
    UInt32.toNat_toUInt64 _
  have ha : 0 < exec.executableAlignment.toNat := by
    apply Nat.pos_of_ne_zero
    intro hzero
    rw [← hal] at hzero
    exact hb.alignment_ne (UInt64.toNat_inj.mp hzero)
  have he := mem_sections_of_relocSection (relocSection_eq hreloc hlast)
  have hbelow := h.below _ he
  have himage := h.image
  have htable := relocTable_pos hw hb h (List.ne_nil_of_mem (List.mem_of_getLast? hlast)) hreloc
  rw [Executable.sizeOfImage, hlast] at himage
  dsimp only at hbelow himage
  generalize last.vaddr.toNat + exec.shift + last.memsize.toNat = n at *
  have hle := le_roundUp n ha
  -- the table is not empty, so the image goes on for an alignment behind the start of `.reloc`
  have hroom : roundUp n exec.executableAlignment.toNat + exec.executableAlignment.toNat
      ≤ roundUp (roundUp n exec.executableAlignment.toNat + exec.relocTable.length)
          exec.executableAlignment.toNat := by
    have hdvd : exec.executableAlignment.toNat ∣ roundUp n exec.executableAlignment.toNat :=
      Nat.dvd_mul_left _ _
    have hstep := le_roundUp_of_pos ha htable
    rw [roundUp_add_dvd hdvd ha]
    omega
  have hsum : (last'.vaddr + last'.memsize).toNat = base.toNat + n := by
    rw [UInt64.toNat_add, hend]
    exact Nat.mod_eq_of_lt (by omega)
  have hvaddr : (relocVaddrOf exec' last').toNat
      = base.toNat + roundUp n exec.executableAlignment.toNat := by
    rw [relocVaddrOf, halign, align_toNat (by omega) (by omega), hsum, hal,
      roundUp_add_dvd hb.alignment ha]
  rw [UInt64.toNat_toUInt32, UInt64.toNat_sub_of_le, hvaddr]
  · rw [Nat.add_sub_cancel_left]
    exact Nat.mod_eq_of_lt (by omega)
  · rw [UInt64.le_iff_toNat_le, hvaddr]
    omega

end

end LoliLoader.Elf2Efi
