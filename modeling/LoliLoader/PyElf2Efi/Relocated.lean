/-
# LoliLoader.PyElf2Efi.Relocated -- the relocations, applied

In whatever order the tables have them, the relocations leave every section where it is and store
one word each. The memory of all sections is the frame of reference: in it a relocation is a write
at its address.

A relocation is applied by looking for the one section that has its address, taking the section
apart and putting it together with eight bytes replaced. `flat_store` says what that is in memory.
It also needs that the word does not run over the end of the section, since Python would then make
the section longer.

The addend may be in the memory, where an earlier relocation could have changed it. It has not, as
the words are apart (`addendIn_write`); so each word is computed from the memory as it was at first,
and the order is of no importance (`applyAll_ok`).

The sum of an addend and the base is a word of 64 bits. Where it is not, Python raises an exception,
and no file is written.
-/
import LoliLoader.PyElf2Efi.Layout
import LoliLoader.PyElf2Efi.Relocations

namespace LoliLoader.PyElf2Efi

open Bytes
open C (bind_eq_ok)

/-! ## The memory of the image -/

/-- The data of the sections at their addresses, and zeros elsewhere. It is what a loader has in
memory before it relocates. -/
def flat (sections : List PeSection) : Space :=
  Space.zero.writeAll (sections.map fun s => (s.start, s.data))

section

variable {sections : List PeSection} {s : PeSection} {x : Nat}

theorem flat_mem (h : Arranged sections) (hs : s ∈ sections) (hx : s.start ≤ x)
    (hx' : x < s.stop) : flat sections x = s.data.getD (x - s.start) 0 :=
  Space.writeAll_mem_full (fun _ _ => rfl) (h.ascending.imp fun h => Extent.Apart.of_le h) hs
    ⟨hx, hx'⟩

theorem flat_not_mem (h : ∀ s ∈ sections, x < s.start ∨ s.stop ≤ x) : flat sections x = 0 := by
  refine Space.writeAll_not_mem (fun s _ => le_refl s.data.length) fun s hs hx => ?_
  have hout := h s hs
  rw [Extent.mem_mk] at hx
  unfold PeSection.stop at hout
  omega

/-- What is in the data of a section is what the memory has there. -/
theorem flat_read {a n : Nat} (h : Arranged sections) (hs : s ∈ sections) (ha : s.start ≤ a)
    (hn : a + n ≤ s.stop) : (flat sections).read a n = (s.data.drop (a - s.start)).take n := by
  have hlen : ((s.data.drop (a - s.start)).take n).length = n := by
    rw [List.length_take, List.length_drop]
    unfold PeSection.stop at hn
    omega
  have hread := @Space.read_eq (flat sections) a ((s.data.drop (a - s.start)).take n)
  rw [hlen] at hread
  refine hread fun k hk => ?_
  have hin : a + k - s.start < s.data.length := by
    unfold PeSection.stop at hn
    omega
  have hoffset : a - s.start + k = a + k - s.start := by omega
  rw [flat_mem h hs (by omega) (by omega), List.getD_eq_getElem _ _ hin,
    List.getD_eq_getElem _ _ (by rw [hlen]; exact hk), List.getElem_take, List.getElem_drop]
  simp only [hoffset]

end

/-! ## Shapes -/

/-- All of a section except for its data, and how much of them there is. -/
def PeSection.shape (peS : PeSection) : PeSection × Nat :=
  ({ peS with data := [] }, peS.data.length)

section

variable {sections sections' : List PeSection} {s t : PeSection}

theorem header_of_shape (h : s.shape = t.shape) : s.shape.1 = t.shape.1 := congrArg Prod.fst h

theorem length_of_shape (h : s.shape = t.shape) : s.data.length = t.data.length :=
  congrArg Prod.snd h

theorem start_of_shape (h : s.shape = t.shape) : s.start = t.start := by
  have hheader := congrArg PeSection.start (header_of_shape h)
  exact hheader

theorem stop_of_shape (h : s.shape = t.shape) : s.stop = t.stop := by
  rw [PeSection.stop, PeSection.stop, start_of_shape h, length_of_shape h]

theorem virtualSize_of_shape (h : s.shape = t.shape) : s.virtualSize = t.virtualSize := by
  have hheader := congrArg PeSection.virtualSize (header_of_shape h)
  exact hheader

theorem characteristics_of_shape (h : s.shape = t.shape) :
    s.characteristics = t.characteristics := by
  have hheader := congrArg PeSection.characteristics (header_of_shape h)
  exact hheader

theorem exact_of_shape (h : s.shape = t.shape) (ht : t.Exact) : s.Exact where
  virtualSize := by
    rw [virtualSize_of_shape h, length_of_shape h]
    exact ht.virtualSize
  sizeOfRawData := by
    have hraw := congrArg PeSection.sizeOfRawData (header_of_shape h)
    change s.sizeOfRawData = t.sizeOfRawData at hraw
    rw [hraw, length_of_shape h]
    exact ht.sizeOfRawData
  aligned := by
    rw [start_of_shape h]
    exact ht.aligned

theorem exists_of_shapes (h : sections'.map PeSection.shape = sections.map PeSection.shape)
    (hs : s ∈ sections') : ∃ t ∈ sections, s.shape = t.shape := by
  obtain ⟨t, ht, hshape⟩ := List.mem_map.mp (h ▸ List.mem_map_of_mem (f := PeSection.shape) hs)
  exact ⟨t, ht, hshape.symm⟩

/-- Where the sections are depends on their shapes only. -/
theorem Arranged.of_shapes (h : Arranged sections)
    (hshapes : sections'.map PeSection.shape = sections.map PeSection.shape) :
    Arranged sections' where
  exact s hs := by
    obtain ⟨t, ht, hshape⟩ := exists_of_shapes hshapes hs
    exact exact_of_shape hshape (h.exact t ht)
  ascending := by
    have hmap : (sections.map PeSection.shape).Pairwise fun s t =>
        s.1.start + s.2 ≤ t.1.start := List.pairwise_map.mpr h.ascending
    rw [← hshapes] at hmap
    exact List.pairwise_map.mp hmap

theorem nextSectionAddress_of_shapes
    (hshapes : sections'.map PeSection.shape = sections.map PeSection.shape) :
    nextSectionAddress sections' = nextSectionAddress sections := by
  have hlast := congrArg List.getLast? hshapes
  rw [List.getLast?_map, List.getLast?_map] at hlast
  unfold nextSectionAddress
  cases h : sections.getLast? with
  | none =>
      rw [h] at hlast
      rw [Option.map_eq_none_iff.mp hlast]
  | some t =>
      rw [h] at hlast
      obtain ⟨s, hs, hshape⟩ := Option.map_eq_some_iff.mp hlast
      rw [hs]
      dsimp only
      rw [virtualSize_of_shape hshape]
      have hstart := congrArg PeSection.virtualAddress (header_of_shape hshape)
      change s.virtualAddress = t.virtualAddress at hstart
      rw [hstart]

end

/-! ## One word -/

/-- A section with bytes stored at an address, if that is in its data. -/
def PeSection.store (peS : PeSection) (a : Nat) (bs : List UInt8) : PeSection :=
  if peS.has a then { peS with data := assignSlice peS.data (a - peS.start) bs } else peS

theorem has_iff {peS : PeSection} {a : Nat} :
    peS.has a = true ↔ peS.start ≤ a ∧ a < peS.stop := by
  unfold PeSection.has PeSection.stop PeSection.start
  rw [decide_eq_true_iff]

section

variable {l bs : List UInt8} {a k : Nat}

theorem length_assignSlice (h : a + bs.length ≤ l.length) :
    (assignSlice l a bs).length = l.length := by
  rw [assignSlice, List.length_append, List.length_append, List.length_take, List.length_drop]
  omega

theorem getD_assignSlice (h : a + bs.length ≤ l.length) :
    (assignSlice l a bs).getD k 0
      = if a ≤ k ∧ k < a + bs.length then bs.getD (k - a) 0 else l.getD k 0 := by
  have htake : (l.take a).length = a := by
    rw [List.length_take]
    omega
  unfold assignSlice
  rw [List.append_assoc]
  by_cases hbefore : k < a
  · rw [List.getD_append _ _ _ _ (by omega), if_neg (by omega), List.getD_eq_getElem _ _ (by omega),
      List.getD_eq_getElem _ _ (by omega), List.getElem_take]
  · rw [List.getD_append_right _ _ _ _ (by omega), htake]
    by_cases hin : k - a < bs.length
    · rw [List.getD_append _ _ _ _ hin, if_pos (by omega)]
    · rw [List.getD_append_right _ _ _ _ (by omega), if_neg (by omega)]
      rw [List.getD_eq_getElem?_getD, List.getD_eq_getElem?_getD, List.getElem?_drop]
      congr 2
      omega

end

section

variable {sections : List PeSection} {p : PeSection} {a : Nat} {bs : List UInt8}
  (h : Arranged sections) (hp : p ∈ sections) (ha : p.start ≤ a) (hbs : a + bs.length ≤ p.stop)
  (hpos : 0 < bs.length)

include h hp ha hbs hpos

/-- The section that has the address is the only one. -/
theorem eq_of_has {s : PeSection} (hs : s ∈ sections) (hhas : s.has a = true) :
    s.start = p.start ∧ s.stop = p.stop := by
  rw [has_iff] at hhas
  have hcmp : ∀ s ∈ sections, ∀ t ∈ sections, s.start = t.start ∧ s.stop = t.stop ∨
      s.stop ≤ t.start ∨ t.stop ≤ s.start := by
    have hasc := h.ascending
    intro s hs t ht
    obtain ⟨i, hi, rfl⟩ := List.mem_iff_getElem.mp hs
    obtain ⟨j, hj, rfl⟩ := List.mem_iff_getElem.mp ht
    rw [List.pairwise_iff_getElem] at hasc
    rcases Nat.lt_trichotomy i j with hij | rfl | hij
    · exact Or.inr (Or.inl (hasc i j hi hj hij))
    · exact Or.inl ⟨rfl, rfl⟩
    · exact Or.inr (Or.inr (hasc j i hj hi hij))
  rcases hcmp s hs p hp with heq | hle | hle
  · exact heq
  · omega
  · omega

theorem fits_of_has {s : PeSection} (hs : s ∈ sections) (hhas : s.has a = true) :
    a - s.start + bs.length ≤ s.data.length := by
  have heq := eq_of_has h hp ha hbs hpos hs hhas
  rw [has_iff] at hhas
  unfold PeSection.stop at heq hbs
  omega

theorem shapes_store : (sections.map fun s => s.store a bs).map PeSection.shape
    = sections.map PeSection.shape := by
  rw [List.map_map]
  refine List.map_congr_left fun s hs => ?_
  show (s.store a bs).shape = s.shape
  unfold PeSection.store
  split
  · rename_i hhas
    have hlen := length_assignSlice (fits_of_has h hp ha hbs hpos hs hhas)
    exact Prod.ext rfl hlen
  · rfl

/-- **Storing** in the section that has the address is a write to the memory of all: the sections
that do not have it stay as they are, so that it does not matter which one it is. -/
theorem flat_store : flat (sections.map fun s => s.store a bs) = (flat sections).write a bs := by
  have hshapes := shapes_store h hp ha hbs hpos
  have harr := h.of_shapes hshapes
  have hstore : ∀ s ∈ sections, (s.store a bs).start = s.start ∧ (s.store a bs).stop = s.stop := by
    intro s hs
    unfold PeSection.store
    split
    · rename_i hhas
      have hlen := length_assignSlice (fits_of_has h hp ha hbs hpos hs hhas)
      exact ⟨rfl, by rw [PeSection.stop, hlen]; rfl⟩
    · exact ⟨rfl, rfl⟩
  funext x
  by_cases hx : ∃ s ∈ sections, s.start ≤ x ∧ x < s.stop
  · obtain ⟨s, hs, hlo, hhi⟩ := hx
    obtain ⟨hstart, hstop⟩ := hstore s hs
    rw [flat_mem harr (List.mem_map_of_mem (f := fun s : PeSection => s.store a bs) hs)
      (by omega) (by omega), hstart]
    by_cases hhas : s.has a = true
    · have heq := eq_of_has h hp ha hbs hpos hs hhas
      have hfits := fits_of_has h hp ha hbs hpos hs hhas
      rw [has_iff] at hhas
      rw [PeSection.store, if_pos (has_iff.mpr hhas), getD_assignSlice hfits]
      by_cases hin : x ∈ Extent.mk a bs.length
      · rw [Space.write_mem hin]
        rw [Extent.mem_mk] at hin
        rw [if_pos (by omega)]
        congr 1
        omega
      · rw [Space.write_not_mem hin, flat_mem h hs hlo hhi]
        rw [Extent.mem_mk] at hin
        rw [if_neg (by omega)]
    · -- the bytes are all in another section
      have hout : x ∉ Extent.mk a bs.length := by
        intro hin
        rw [Extent.mem_mk] at hin
        have hhas' : p.has x = true := has_iff.mpr (by omega)
        have heq := @eq_of_has sections s x [0] h hs hlo
          (by rw [List.length_singleton]; omega) (by simp) p hp hhas'
        exact hhas (has_iff.mpr (by omega))
      rw [PeSection.store, if_neg hhas, Space.write_not_mem hout, flat_mem h hs hlo hhi]
  · have hout : x ∉ Extent.mk a bs.length := by
      intro hin
      rw [Extent.mem_mk] at hin
      exact hx ⟨p, hp, by omega, by omega⟩
    have hnone : ∀ s ∈ sections, x < s.start ∨ s.stop ≤ x := by
      intro s hs
      by_contra hin
      exact hx ⟨s, hs, by omega⟩
    rw [Space.write_not_mem hout, flat_not_mem hnone, flat_not_mem]
    intro t ht
    obtain ⟨s, hs, rfl⟩ := List.mem_map.mp ht
    obtain ⟨hstart, hstop⟩ := hstore s hs
    rw [hstart, hstop]
    exact hnone s hs

end

/-! ## apply_elf_relative_relocation -/

section

variable {α β ε : Type} {f : α → Except ε β} {l : List α} {l' : List β}

theorem map_of_mapM {g : α → β} (h : l.mapM f = .ok l') (hg : ∀ a ∈ l, ∀ b, f a = .ok b → b = g a) :
    l' = l.map g := by
  induction l generalizing l' with
  | nil => exact (Except.ok.inj h).symm
  | cons a l ih =>
      rw [List.forall_mem_cons] at hg
      rw [List.mapM_cons] at h
      obtain ⟨b, hb, h⟩ := bind_eq_ok.mp h
      obtain ⟨bs, hbs, h⟩ := bind_eq_ok.mp h
      rw [← Except.ok.inj h, hg.1 b hb, ih hbs hg.2]
      rfl

theorem ok_of_mapM (h : l.mapM f = .ok l') {a : α} (ha : a ∈ l) : ∃ b, f a = .ok b := by
  induction l generalizing l' with
  | nil => cases ha
  | cons c l ih =>
      rw [List.mapM_cons] at h
      obtain ⟨b, hb, h⟩ := bind_eq_ok.mp h
      obtain ⟨bs, hbs, -⟩ := bind_eq_ok.mp h
      rcases List.mem_cons.mp ha with rfl | ha
      · exact ⟨b, hb⟩
      · exact ih hbs ha

end

/-- The addend of a relocation, which a REL table leaves in the memory. -/
def addendIn (m : Space) (reloc : ElfRelocation) : Int :=
  match reloc.rAddend with
  | some addend => addend
  | none => ofLE (m.read reloc.rOffset 8)

/-- What is stored for a relocation: the sum of the base that the sections are moved from and the
addend, which for REL tables is read from the place itself. -/
def storedIn (m : Space) (imageBase : Nat) (reloc : ElfRelocation) : List UInt8 :=
  leBytes 8 (imageBase + addendIn m reloc).toNat

/-- The word of a relocation is in one section as a whole. The script only asks for the first byte;
`data[a : a + 8] = value` at the end of a section would make it longer. -/
def HasSlot (sections : List PeSection) (reloc : ElfRelocation) : Prop :=
  ∃ p ∈ sections, p.start ≤ reloc.rOffset ∧ reloc.rOffset + 8 ≤ p.stop

/-- The sum for a relocation is a word: `to_bytes` raises `OverflowError` for a sum that is
negative, or too large. -/
def IsWord (m : Space) (imageBase : Nat) (reloc : ElfRelocation) : Prop :=
  0 ≤ imageBase + addendIn m reloc ∧ imageBase + addendIn m reloc < 2 ^ 64

section

variable {sections sections' : List PeSection} {reloc : ElfRelocation} {imageBase : Nat}

theorem relocateSection_ok {p p' : PeSection} (h : relocateSection reloc imageBase 8 p = .ok p')
    (hhas : p.has reloc.rOffset = true) {m : Space}
    (hread : m.read reloc.rOffset 8 = (p.data.drop (reloc.rOffset - p.start)).take 8) :
    p' = p.store reloc.rOffset (storedIn m imageBase reloc) ∧ IsWord m imageBase reloc := by
  have haddend : addendOf reloc p.data (reloc.rOffset - p.virtualAddress.toNat) 8
      = addendIn m reloc := by
    unfold addendOf addendIn
    rw [hread]
    rfl
  obtain ⟨value, hvalue, h⟩ := bind_eq_ok.mp h
  rw [haddend, toBytes] at hvalue
  split at hvalue
  · rename_i hword
    obtain rfl := Except.ok.inj hvalue
    split at h
    · cases h
    · obtain rfl := Except.ok.inj h
      rw [PeSection.store, if_pos hhas]
      exact ⟨rfl, hword.1, hword.2⟩
  · cases hvalue

/-- **One relocation** stores its word in the section that has the address. There is just one such
section, as they are arranged, and the slot keeps its length. -/
theorem applyElfRelativeRelocation_ok (h : Arranged sections) (hslot : HasSlot sections reloc)
    (hok : applyElfRelativeRelocation reloc imageBase sections 8 = .ok sections') :
    sections' = sections.map (fun s =>
        s.store reloc.rOffset (storedIn (flat sections) imageBase reloc)) ∧
      IsWord (flat sections) imageBase reloc := by
  obtain ⟨p, hp, hlo, hhi⟩ := hslot
  have hlen : (storedIn (flat sections) imageBase reloc).length = 8 := length_leBytes _ _
  have hbs : reloc.rOffset + (storedIn (flat sections) imageBase reloc).length ≤ p.stop := by
    omega
  have hread : ∀ s ∈ sections, s.has reloc.rOffset = true →
      (flat sections).read reloc.rOffset 8
        = (s.data.drop (reloc.rOffset - s.start)).take 8 := by
    intro s hs hhas
    obtain ⟨hstart, hstop⟩ := eq_of_has h hp hlo hbs (by omega) hs hhas
    exact flat_read h hs (by omega) (by omega)
  unfold applyElfRelativeRelocation at hok
  split at hok
  · cases hok
  · refine ⟨map_of_mapM hok fun s hs t ht => ?_, ?_⟩
    · by_cases hhas : s.has reloc.rOffset = true
      · rw [if_pos hhas] at ht
        exact (relocateSection_ok ht hhas (hread s hs hhas)).1
      · rw [if_neg hhas] at ht
        rw [PeSection.store, if_neg hhas, Except.ok.inj ht]
    · have hhas : p.has reloc.rOffset = true := has_iff.mpr (by omega)
      obtain ⟨t, ht⟩ := ok_of_mapM hok hp
      rw [if_pos hhas] at ht
      exact (relocateSection_ok ht hhas (hread p hp hhas)).2

end

/-! ## All relocations -/

/-- The loop over the relocations that are applied. -/
def applyAll (imageBase : Nat) (sections : List PeSection) (relocs : List ElfRelocation) :
    Except PyError (List PeSection) :=
  relocs.foldlM (fun sections r => applyElfRelativeRelocation r imageBase sections 8) sections

/-- The words of two relocations have no common byte. -/
def ApartSlots (r r' : ElfRelocation) : Prop :=
  (Extent.mk r.rOffset 8).Apart (Extent.mk r'.rOffset 8)

section

variable {imageBase : Nat} {sections sections' : List PeSection} {relocs : List ElfRelocation}

/-- The addend is what it was before a word elsewhere has been stored. -/
theorem addendIn_write {m : Space} {r r' : ElfRelocation} (h : ApartSlots r r')
    {bs : List UInt8} (hbs : bs.length = 8) :
    addendIn (m.write r.rOffset bs) r' = addendIn m r' := by
  unfold addendIn
  have hread : (m.write r.rOffset bs).read r'.rOffset 8 = m.read r'.rOffset 8 := by
    refine Space.read_congr fun x hx => Space.write_not_mem ?_
    rw [hbs]
    exact fun hin => h x hin hx
  rw [hread]

/-- **The loop** stores every word, whatever the order, and moves nothing: as the words are apart,
what one relocation reads as its addend was not written by another. -/
theorem applyAll_ok (h : Arranged sections) (hslots : ∀ r ∈ relocs, HasSlot sections r)
    (hapart : relocs.Pairwise ApartSlots)
    (hok : applyAll imageBase sections relocs = .ok sections') :
    sections'.map PeSection.shape = sections.map PeSection.shape ∧
      flat sections' = (flat sections).writeAll (relocs.map fun r =>
        (r.rOffset, storedIn (flat sections) imageBase r)) ∧
      ∀ r ∈ relocs, IsWord (flat sections) imageBase r := by
  induction relocs generalizing sections with
  | nil =>
      obtain rfl := Except.ok.inj hok
      exact ⟨rfl, rfl, by simp⟩
  | cons r relocs ih =>
      rw [List.forall_mem_cons] at hslots
      rw [List.pairwise_cons] at hapart
      unfold applyAll at hok
      rw [List.foldlM_cons] at hok
      obtain ⟨mid, hstep, hrest⟩ := bind_eq_ok.mp hok
      obtain ⟨rfl, hword⟩ := applyElfRelativeRelocation_ok h hslots.1 hstep
      obtain ⟨p, hp, hlo, hhi⟩ := hslots.1
      have hlen : (storedIn (flat sections) imageBase r).length = 8 := length_leBytes _ _
      have hshapes := @shapes_store sections p r.rOffset
        (storedIn (flat sections) imageBase r) h hp hlo (by omega) (by omega)
      have hflat := @flat_store sections p r.rOffset
        (storedIn (flat sections) imageBase r) h hp hlo (by omega) (by omega)
      have haddend : ∀ r' ∈ relocs, addendIn (flat (sections.map fun s =>
          s.store r.rOffset (storedIn (flat sections) imageBase r))) r'
          = addendIn (flat sections) r' := by
        intro r' hr'
        rw [hflat]
        exact addendIn_write (hapart.1 r' hr') hlen
      have hslots' : ∀ r' ∈ relocs, HasSlot (sections.map fun s =>
          s.store r.rOffset (storedIn (flat sections) imageBase r)) r' := by
        intro r' hr'
        obtain ⟨q, hq, hlo', hhi'⟩ := hslots.2 r' hr'
        obtain ⟨t, ht, hshape⟩ := exists_of_shapes hshapes.symm hq
        exact ⟨t, ht, by rw [← start_of_shape hshape]; exact hlo',
          by rw [← stop_of_shape hshape]; exact hhi'⟩
      obtain ⟨hshapes', hflat', hwords⟩ := ih (h.of_shapes hshapes) hslots' hapart.2 hrest
      refine ⟨hshapes'.trans hshapes, ?_, ?_⟩
      · rw [hflat', hflat]
        refine congrArg _ (List.map_congr_left fun r' hr' => ?_)
        rw [← hflat, storedIn, haddend r' hr']
        rfl
      · refine List.forall_mem_cons.mpr ⟨hword, fun r' hr' => ?_⟩
        have := hwords r' hr'
        unfold IsWord at this ⊢
        rwa [haddend r' hr'] at this

end

end LoliLoader.PyElf2Efi
