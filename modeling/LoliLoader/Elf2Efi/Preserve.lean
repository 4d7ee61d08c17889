/-
# LoliLoader.Elf2Efi.Preserve -- conversion preserves what is loaded

An executable is converted, and the file that is written is loaded anywhere. What is in memory then
is what an ELF loader would have put there, at a distance that is the same for all of it.

`convert_preserves` relates two loaders. One is for ELF executables (`Elf2Efi.Image`), the other one
for PE images (`Pe.Loader`), and neither knows of the converter. The memory is compared at every
address, except where the image has its relocation table; so nothing is lost, added or relocated
twice.

The proof is assembled from the passes, from the file that they write and from the image that is
made of it. It has no loop and no byte of its own: each part has one lemma about its result, stated
with the plan.

The entry point is moved along with everything else. It has to be in a segment, or nothing is said
of it.
-/
import LoliLoader.Elf2Efi.Passes
import LoliLoader.Elf2Efi.ReadBack

namespace LoliLoader.Elf2Efi

open C Bytes Pe

/-- The image has what the executable would have in memory, `address + shift` away from the
addresses of the ELF file.  Where `.reloc` is, there is only the relocation table. -/
structure Preserves (exec : Executable) (address : UInt64) (image : Image) : Prop where
  memory : ∀ v, (∀ e ∈ exec.relocSection, exec.shift + v ∉ e) →
    image.memory (exec.shift + v) = exec.memory (address + UInt64.ofNat exec.shift) v
  entry : (∃ s ∈ exec.segments, exec.entryAddr.toNat ∈ s.range) →
    image.entryPoint = exec.entryAddr + (address + UInt64.ofNat exec.shift)

/-! ## The copied image -/

section

variable {exec exec' : Executable} {base : UInt64} {table : SizedData}
  (hw : exec.WellFormed) (hb : ImageBase exec base) (h : Fits exec base)

include hw hb h

/-- **What a loader copies** from the file: the segments, with the relocated words in them, and
a table that names these words. -/
theorem copied_ok (hp : Passed exec exec' base table) {last last' : Segment}
    (hlast : exec.segments.getLast? = some last) (hlast' : exec'.segments.getLast? = some last') :
    (∀ x, (∀ e ∈ exec.relocSection, x ∉ e) →
      Space.zero.writeAll (pieces exec' base last' table) x
        = flat exec'.segments (base.toNat + x)) ∧
    decode ((Space.zero.writeAll (pieces exec' base last' table)).read
      (relocDirectory exec' base (relocVaddrOf exec' last') table).1.toNat
      (relocDirectory exec' base (relocVaddrOf exec' last') table).2.toNat)
      = some exec.relocRvas := by
  have hne : exec.segments ≠ [] := List.ne_nil_of_mem (List.mem_of_getLast? hlast)
  have hbase : ∀ t ∈ exec'.segments, base.toNat ≤ t.vaddr.toNat := by
    intro t ht
    obtain ⟨s, -, hvaddr, -⟩ := of_mem_segments hw hb h hp ht
    omega
  have hdecode := decode_relocTable hw hb h hne
  have hsegments := copied_segments hp.applied.laid hbase
  rw [pieces, Space.writeAll_append, relocDirectory]
  -- `.reloc` is copied last, where no segment is
  by_cases hreloc : exec.relocs = []
  · have hnone : ¬ hasPeReloc exec' = true := by
      rw [hasPeReloc_iff hp]
      exact not_not.mpr hreloc
    have hnil : exec.relocTable = [] := by
      rw [Executable.relocTable, Executable.relocRvas, hreloc]
      rfl
    rw [hnil] at hdecode
    rw [if_neg hnone, if_neg hnone]
    exact ⟨fun x _ => hsegments x, hdecode⟩
  · have hsome := (hasPeReloc_iff hp).mpr hreloc
    have hrva := relocVaddr_toNat hw hb h hp hreloc hlast hlast'
    have hsize : table.size.toUInt32.toNat = table.rawData.length := by
      have htable := length_relocTable h hne
      rw [UInt64.toNat_toUInt32, hp.size, hp.rawData]
      exact Nat.mod_eq_of_lt (by omega)
    rw [if_pos hsome, if_pos hsome]
    dsimp only
    rw [hrva, hsize, relocSection_eq hreloc hlast]
    refine ⟨?_, ?_⟩
    · intro x hx
      rw [← hsegments x]
      apply Space.write_not_mem
      rw [hp.rawData]
      exact hx _ rfl
    · rw [← hdecode, ← hp.rawData]
      exact congrArg decode (Space.read_write _ _ _)

/-! ## The relocated image -/

omit hb in
/-- The slots of the relocations are in the segments, and so not in `.reloc`. -/
theorem slot_not_mem_reloc {r : ExecReloc} (hr : r ∈ exec.relocs) {v : Nat}
    (hv : v ∈ Extent.mk r.vaddr.toNat 8) {e : Extent} (he : e ∈ exec.relocSection) :
    exec.shift + v ∉ e := by
  obtain ⟨s, hs, hle, hin, -⟩ := hw.slots r hr
  have hrange : v ∈ s.range := by
    rw [Extent.mem_mk] at hv
    rw [Segment.mem_range]
    omega
  have hdisjoint := h.disjoint
  unfold Executable.sections at hdisjoint
  rw [List.pairwise_append] at hdisjoint
  exact hdisjoint.2.2 _ (List.mem_map_of_mem hs) e (Option.mem_toList.mpr he) _
    (mem_extent_of_mem_range hrange _)

omit hb h in
theorem apart_slots :
    exec.relocs.Pairwise fun r r' =>
      (Extent.mk r.vaddr.toNat 8).Apart (Extent.mk r'.vaddr.toNat 8) :=
  hw.relocs.imp fun hle => Extent.Apart.of_le hle

/-- `apply_relocs` after `relocate_exec`, by the relocations of the ELF file. -/
theorem flat_passed (hp : Passed exec exec' base table) :
    flat exec'.segments = (flat (exec.moved base).segments).writeAll (exec.relocs.map fun r =>
      (base.toNat + (exec.shift + r.vaddr.toNat),
        leBytes 8 (r.addend + (base + UInt64.ofNat exec.shift)).toNat)) := by
  have hmap : (exec.moved base).relocs.map (fun r => (r.vaddr.toNat, leBytes 8 r.addend.toNat))
      = exec.relocs.map fun r => (base.toNat + (exec.shift + r.vaddr.toNat),
        leBytes 8 (r.addend + (base + UInt64.ofNat exec.shift)).toNat) := by
    show (exec.relocs.map _).map _ = _
    rw [List.map_map]
    refine List.map_congr_left fun r hr => ?_
    have hvaddr := (inSegment_moved hw hb h hr).1
    refine Prod.ext ?_ rfl
    show (r.vaddr + (base + UInt64.ofNat exec.shift)).toNat = _
    omega
  rw [hp.applied.flat, hmap]

/-- The word that `apply_relocs` has stored for a relocation. -/
theorem flat_slot (hp : Passed exec exec' base table) {r : ExecReloc} (hr : r ∈ exec.relocs)
    {v : Nat} (hv : v ∈ Extent.mk r.vaddr.toNat 8) :
    flat exec'.segments (base.toNat + (exec.shift + v))
      = (leBytes 8 (r.addend + (base + UInt64.ofNat exec.shift)).toNat).getD
          (v - r.vaddr.toNat) 0 := by
  have hapart : exec.relocs.Pairwise fun r r' =>
      (Extent.mk (base.toNat + (exec.shift + r.vaddr.toNat)) 8).Apart
        (Extent.mk (base.toNat + (exec.shift + r'.vaddr.toNat)) 8) :=
    (apart_slots hw).imp fun hapart => (hapart.add _).add _
  have hmem := Extent.add_mem_add (c := base.toNat).mpr
    (Extent.add_mem_add (c := exec.shift).mpr hv)
  have hoffset : base.toNat + (exec.shift + v) - (base.toNat + (exec.shift + r.vaddr.toNat))
      = v - r.vaddr.toNat := by omega
  rw [flat_passed hw hb h hp,
    Space.writeAll_mem_full (fun r _ => length_leBytes _ _) hapart hr hmem, hoffset]

/-- What `apply_relocs` has left alone. -/
theorem flat_not_slot (hp : Passed exec exec' base table) {v : Nat}
    (hv : ∀ r ∈ exec.relocs, v ∉ Extent.mk r.vaddr.toNat 8) :
    flat exec'.segments (base.toNat + (exec.shift + v)) = exec.loaded v := by
  rw [flat_passed hw hb h hp, Space.writeAll_not_mem fun r _ => le_of_eq (length_leBytes _ _),
    flat_moved hw hb h]
  intro r hr hmem
  exact hv r hr (Extent.add_mem_add.mp (Extent.add_mem_add.mp hmem))

section

variable {m : Space} (hp : Passed exec exec' base table)
  (hm : ∀ x, (∀ e ∈ exec.relocSection, x ∉ e) → m x = flat exec'.segments (base.toNat + x))

include hp hm

/-- The word of a relocation in the copied image. -/
theorem read_slot {r : ExecReloc} (hr : r ∈ exec.relocs) :
    m.read (exec.shift + r.vaddr.toNat) 8
      = leBytes 8 (r.addend + (base + UInt64.ofNat exec.shift)).toNat := by
  have hread := @Space.read_eq m (exec.shift + r.vaddr.toNat)
    (leBytes 8 (r.addend + (base + UInt64.ofNat exec.shift)).toNat)
  rw [length_leBytes] at hread
  apply hread
  intro k hk
  have hslot : r.vaddr.toNat + k ∈ Extent.mk r.vaddr.toNat 8 := by
    rw [Extent.mem_mk]
    omega
  rw [Nat.add_assoc, hm _ fun e he => slot_not_mem_reloc hw h hr hslot he,
    flat_slot hw hb h hp hr hslot, Nat.add_sub_cancel_left]

/-- **Relocating** the copied image gives the memory of the executable, at every address but those
of the relocation table. -/
theorem memory_relocated (address : UInt64) {v : Nat}
    (hv : ∀ e ∈ exec.relocSection, exec.shift + v ∉ e) :
    m.addWords (address - base).toNat exec.relocRvas (exec.shift + v)
      = exec.memory (address + UInt64.ofNat exec.shift) v := by
  have hrvas : exec.relocRvas = exec.relocs.map fun r => exec.shift + r.vaddr.toNat :=
    List.map_congr_left fun r _ => Nat.add_comm _ _
  rw [hrvas]
  -- an address is in the slot of one relocation, or nothing is added there
  by_cases hslot : ∃ r ∈ exec.relocs, v ∈ Extent.mk r.vaddr.toNat 8
  · obtain ⟨r, hr, hin⟩ := hslot
    have hapart : exec.relocs.Pairwise fun r r' =>
        (Extent.mk (exec.shift + r.vaddr.toNat) 8).Apart
          (Extent.mk (exec.shift + r'.vaddr.toNat) 8) :=
      (apart_slots hw).imp fun hapart => hapart.add _
    have hsum : leBytes 8 ((r.addend + (base + UInt64.ofNat exec.shift)).toNat
        + (address - base).toNat)
        = leBytes 8 (r.addend + (address + UInt64.ofNat exec.shift)).toNat := by
      have hlt := base.toNat_lt
      rw [← leBytes_mod]
      congr 1
      rw [UInt64.toNat_add, UInt64.toNat_add, UInt64.toNat_add, UInt64.toNat_add,
        UInt64.toNat_sub]
      omega
    have hmemory : exec.memory (address + UInt64.ofNat exec.shift) v
        = (leBytes 8 (r.addend + (address + UInt64.ofNat exec.shift)).toNat).getD
            (v - r.vaddr.toNat) 0 :=
      Space.writeAll_mem_full (fun r _ => length_leBytes _ _) (apart_slots hw) hr hin
    rw [Space.addWords_of_word hapart hr (read_slot hw hb h hp hm hr)
      (Extent.add_mem_add.mpr hin), hsum, hmemory, Nat.add_sub_add_left]
  · have hnot : ∀ a ∈ exec.relocs.map (fun r => exec.shift + r.vaddr.toNat),
        exec.shift + v ∉ Extent.mk a 8 := by
      intro a ha hmem
      obtain ⟨r, hr, rfl⟩ := List.mem_map.mp ha
      exact hslot ⟨r, hr, Extent.add_mem_add.mp hmem⟩
    have hv' : ∀ r ∈ exec.relocs, v ∉ Extent.mk r.vaddr.toNat 8 :=
      fun r hr hmem => hslot ⟨r, hr, hmem⟩
    have hmemory : exec.memory (address + UInt64.ofNat exec.shift) v = exec.loaded v :=
      Space.writeAll_not_mem (fun r _ => le_of_eq (length_leBytes _ _)) hv'
    rw [Space.addWords_not_mem hnot, hm _ hv, flat_not_slot hw hb h hp hv', hmemory]

end

/-- An entry point in a segment is below 4 GiB in the image. -/
theorem entryRva (hp : Passed exec exec' base table)
    (hentry : ∃ s ∈ exec.segments, exec.entryAddr.toNat ∈ s.range) :
    UInt64.ofNat (exec'.entryAddr - base).toUInt32.toNat
      = exec.entryAddr + UInt64.ofNat exec.shift := by
  obtain ⟨s, hs, hmem⟩ := hentry
  have hend := (h.placeable hw hb hs).end_lt
  have hmoved : exec'.entryAddr = exec.entryAddr + (base + UInt64.ofNat exec.shift) := by
    rw [hp.applied.rest]
    rfl
  have hshift : (UInt64.ofNat exec.shift).toNat = exec.shift := toNat_ofNat (by omega)
  rw [Segment.mem_range] at hmem
  have hrva : exec'.entryAddr - base = exec.entryAddr + UInt64.ofNat exec.shift := by
    have hlt := base.toNat_lt
    rw [hmoved]
    apply UInt64.toNat_inj.mp
    rw [UInt64.toNat_sub, UInt64.toNat_add, UInt64.toNat_add, UInt64.toNat_add, hshift]
    omega
  have hsum : (exec.entryAddr + UInt64.ofNat exec.shift).toNat
      = exec.entryAddr.toNat + exec.shift := by
    rw [UInt64.toNat_add, hshift]
    exact Nat.mod_eq_of_lt (by omega)
  apply UInt64.toNat_inj.mp
  rw [hrva, UInt64.toNat_toUInt32, hsum, Nat.mod_eq_of_lt (by omega), toNat_ofNat (by omega)]

end

/-- **Conversion** gives a file, and wherever its image is loaded, what the executable would
have in memory there.  An image below 4 GiB is also one whose file is: the offsets in it have
32 bits. -/
theorem convert_preserves {exec : Executable} {base : UInt64} (hw : exec.WellFormed)
    (hb : ImageBase exec base) (h : Fits exec base) (segname : Nat → Nat → UInt8) :
    (exec.segments ≠ [] → ∃ file, convert segname exec base = .ok file) ∧
    ∀ file, convert segname exec base = .ok file → file.length < 2 ^ 32 →
      ∀ address, ∃ image, load file address = some image ∧ Preserves exec address image := by
  by_cases hne : exec.segments = []
  · -- `relocate_exec` looks at the first segment
    refine ⟨fun hc => absurd hne hc, fun file hok => ?_⟩
    unfold convert relocateExec at hok
    rw [hne] at hok
    cases hok
  · obtain ⟨exec', table, hp, hconvert⟩ := passes_ok hw hb h hne
    have hready := ready_of_passed hw hb h hp hne
    have hlast := List.getLast?_eq_getLast_of_ne_nil hne
    have hlast' := List.getLast?_eq_getLast_of_ne_nil hready.nonempty
    obtain ⟨hcopied, hdecode⟩ := copied_ok hw hb h hp hlast hlast'
    have hwrite := @writePe_ok exec' base table segname hready _ hlast'
    rw [hconvert segname, hwrite]
    refine ⟨fun _ => ⟨_, rfl⟩, ?_⟩
    rintro file hfile hlen address
    obtain rfl := Except.ok.inj hfile
    obtain ⟨image, hload, hentry, hmemory⟩ :=
      load_written segname _ hready hlen hdecode address
    refine ⟨image, hload, ?_, ?_⟩
    · intro v hv
      rw [hmemory]
      exact memory_relocated hw hb h hp hcopied address hv
    · intro hmem
      rw [hentry, entryRva hw hb h hp hmem, ← UInt64.add_assoc, ← UInt64.add_assoc,
        UInt64.add_comm address]

/-- A segment with a pointer in its uninitialized part. -/
def pointerInBss : Executable where
  entryAddr := 8
  segments := [⟨8, 24, 16, SEGMENT_FLAGS_READ, 8,
    ⟨"segment", List.replicate 8 0x90 ++ List.replicate 16 0, 24⟩⟩]
  dynamic := ⟨0, 0, 1, 0, 0, ⟨"dynamic", [], 0⟩⟩
  relocs := [⟨16, 8⟩]
  executableAlignment := 512

theorem pointerInBss_wellFormed : pointerInBss.WellFormed where
  segnum := by decide
  sorted := by simp [pointerInBss]
  segment := by
    intro s hs
    obtain rfl := List.mem_singleton.mp hs
    refine ⟨⟨4, rfl⟩, rfl, by decide, fun k hk => ?_⟩
    rw [List.getD_append_right _ _ _ _ hk, List.getD_eq_getElem?_getD, List.getElem?_replicate]
    split <;> rfl
  alignment := by decide
  relocs := by simp [pointerInBss]
  slots := by
    intro r hr
    obtain rfl := List.mem_singleton.mp hr
    exact ⟨_, List.mem_singleton_self _, by decide, by decide, Or.inr (by decide)⟩
  ends := by
    intro r hr s hs
    obtain rfl := List.mem_singleton.mp hr
    obtain rfl := List.mem_singleton.mp hs
    decide

theorem pointerInBss_fits : Fits pointerInBss 0x10000000 where
  disjoint := by
    have hsections : pointerInBss.sections = [⟨512, 32⟩, ⟨1024, 10⟩] := by decide +kernel
    rw [hsections, List.pairwise_pair]
    exact Extent.Apart.of_le (by decide)
  headers := by decide +kernel
  below := by decide +kernel
  inside := by decide +kernel
  image := by decide +kernel

theorem pointerInBss_preserved :
    ∃ file image, convert (fun _ _ => 0) pointerInBss 0x10000000 = .ok file ∧
      load file 0x7f000000 = some image ∧ Preserves pointerInBss 0x7f000000 image := by
  have hb : ImageBase pointerInBss 0x10000000 := ⟨by decide, by decide, by decide⟩
  have hlen : (convert (fun _ _ => 0) pointerInBss 0x10000000).toOption.map List.length
      = some 1536 := by
    decide +kernel
  obtain ⟨hwritten, hpreserved⟩ :=
    convert_preserves pointerInBss_wellFormed hb pointerInBss_fits (fun _ _ => 0)
  obtain ⟨file, hfile⟩ := hwritten (by decide)
  rw [hfile] at hlen
  obtain ⟨image, hload, himage⟩ :=
    hpreserved file hfile (by rw [Option.some.inj hlen]; decide) 0x7f000000
  exact ⟨file, image, hfile, hload, himage⟩

end LoliLoader.Elf2Efi
