/-
# LoliLoader.PyElf2Efi.Grouping -- sections with the same rights become one

What `iter_copy_sections` yields is read off its loop: every section of the image covers some
sections of the ELF file that follow each other, byte for byte, with zeros between them.

The loop has one section of the image in its hands and puts sections of the file behind it, padded
where there is a gap, as long as they have the same rights; else it yields what it has and starts a
new one. `Covers` is the invariant. It has the list of the sections that are in the one in hand, and
says where each of them is in its data.

So what is yielded is described by groups of sections, and the groups together are the sections that
are kept, in their order (`covers_iterCopyLoop`). A section that starts before the end of the one
before it makes the loop raise, and nothing is claimed then.

The memory of a list of sections is `memoryOf`: their bytes at their addresses, and zeros elsewhere.
-/
import LoliLoader.Bytes.Space
import LoliLoader.PyElf2Efi.Sections
import Mathlib.Data.List.Forall2

namespace LoliLoader.PyElf2Efi

open Bytes
open C (bind_eq_ok)

/-! ## Generators -/

section

variable {α σ : Type} {body : σ → α → Except PyError σ}

/-- What a generator yields, if it does not raise. -/
def Generator.toList : Generator α → Option (List α)
  | .stop => some []
  | .raise _ => none
  | .yield a rest => rest.toList.map fun as => a :: as

/-- A loop over a generator is one over the list of what it yields. -/
theorem Generator.forIn_eq_ok {g : Generator α} {s s' : σ} (h : g.forIn body s = .ok s') :
    ∃ as, g.toList = some as ∧ as.foldlM body s = .ok s' := by
  induction g generalizing s with
  | stop => exact ⟨[], rfl, h⟩
  | raise e => cases h
  | yield a rest ih =>
      obtain ⟨t, ht, hrest⟩ := bind_eq_ok.mp h
      obtain ⟨as, has, hfold⟩ := ih hrest
      refine ⟨a :: as, ?_, ?_⟩
      · rw [Generator.toList, has]
        rfl
      · rw [List.foldlM_cons]
        exact bind_eq_ok.mpr ⟨t, ht, hfold⟩

end

/-! ## Lists in step -/

section

variable {α β : Type} {R : α → β → Prop} {as : List α} {bs : List β}

theorem exists_of_mem_left (h : List.Forall₂ R as bs) {a : α} (ha : a ∈ as) :
    ∃ b ∈ bs, R a b := by
  induction h with
  | nil => cases ha
  | cons hab _ ih =>
      rcases List.mem_cons.mp ha with rfl | ha
      · exact ⟨_, List.mem_cons_self, hab⟩
      · obtain ⟨b, hb, hr⟩ := ih ha
        exact ⟨b, List.mem_cons_of_mem _ hb, hr⟩

theorem exists_of_mem_right (h : List.Forall₂ R as bs) {b : β} (hb : b ∈ bs) :
    ∃ a ∈ as, R a b :=
  exists_of_mem_left h.flip hb

end

/-! ## The memory of sections -/

/-- Where the section ends in memory. -/
def ElfSection.stop (s : ElfSection) : Nat := s.shAddr + s.data.length

/-- The sections that are kept: those that the converter does not pass over, in the order of the
file. -/
def ElfFile.copied (elf : ElfFile) : List ElfSection := elf.sections.filter fun s => ¬ ignored s

/-- The bytes of sections at their addresses, and zeros elsewhere. -/
def memoryOf (group : List ElfSection) : Space :=
  Space.zero.writeAll (group.map fun s => (s.shAddr, s.data))

/-- Where the section of the image starts. -/
def PeSection.start (peS : PeSection) : Nat := peS.virtualAddress.toNat

/-- Where the data of the section of the image end. -/
def PeSection.stop (peS : PeSection) : Nat := peS.start + peS.data.length

section

variable {group : List ElfSection} {s : ElfSection} {x : Nat}

theorem memoryOf_append (group : List ElfSection) (s : ElfSection) :
    memoryOf (group ++ [s]) = (memoryOf group).write s.shAddr s.data := by
  rw [memoryOf, List.map_append, Space.writeAll_append]
  rfl

theorem memoryOf_not_mem (h : ∀ s ∈ group, x < s.shAddr ∨ s.stop ≤ x) : memoryOf group x = 0 := by
  refine Space.writeAll_not_mem (fun s _ => le_refl s.data.length) fun s hs hx => ?_
  have hout := h s hs
  rw [Extent.mem_mk] at hx
  unfold ElfSection.stop at hout
  omega

theorem memoryOf_mem (hasc : group.Pairwise fun s t => s.stop ≤ t.shAddr) (hs : s ∈ group)
    (hx : s.shAddr ≤ x) (hx' : x < s.stop) : memoryOf group x = s.data.getD (x - s.shAddr) 0 :=
  Space.writeAll_mem_full (fun _ _ => rfl) (hasc.imp fun h => Extent.Apart.of_le h) hs ⟨hx, hx'⟩

end

/-! ## One section for a group -/

/-- The section of the image has these sections of the ELF file in it, byte for byte, zeros between
them, and nothing else; all of them have the same rights. -/
structure Covers (elf : ElfFile) (relro : Option ElfSegment) (peS : PeSection)
    (group : List ElfSection) : Prop where
  ascending : group.Pairwise fun s t => s.stop ≤ t.shAddr
  start : ∀ s ∈ group, peS.start ≤ s.shAddr
  stop : ∀ s ∈ group, s.stop ≤ peS.stop
  reaches : ∃ s ∈ group, s.stop = peS.stop
  bytes : ∀ k < peS.data.length, peS.data.getD k 0 = memoryOf group (peS.start + k)
  rights : ∀ s ∈ group, peS.characteristics = characteristicsOf elf relro s

section

variable {elf : ElfFile} {relro : Option ElfSegment} {peS : PeSection} {group : List ElfSection}
  {s : ElfSection}

theorem covers_startSection (hs : s.shAddr < 2 ^ 32) :
    Covers elf relro (startSection s (characteristicsOf elf relro s)) [s] := by
  have hstart : (startSection s (characteristicsOf elf relro s)).start = s.shAddr := by
    show (UInt32.ofNat s.shAddr).toNat = _
    rw [UInt32.toNat_ofNat', Nat.mod_eq_of_lt hs]
  have hstop : (startSection s (characteristicsOf elf relro s)).stop = s.stop := by
    rw [PeSection.stop, hstart]
    rfl
  refine ⟨List.pairwise_singleton _ _, ?_, ?_, ⟨s, List.mem_singleton_self s, hstop.symm⟩, ?_, ?_⟩
  · intro t ht
    rw [List.mem_singleton.mp ht, hstart]
  · intro t ht
    rw [List.mem_singleton.mp ht, hstop]
  · intro k hk
    change k < s.data.length at hk
    rw [hstart, memoryOf_mem (List.pairwise_singleton _ _) (List.mem_singleton_self s)
      (Nat.le_add_right _ _) (Nat.add_lt_add_left hk _), Nat.add_sub_cancel_left]
    rfl
  · intro t ht
    rw [List.mem_singleton.mp ht]
    rfl

/-- One more section behind the others, with padding in front of it. -/
theorem Covers.extend (h : Covers elf relro peS group) (hle : peS.stop ≤ s.shAddr)
    (hrights : peS.characteristics = characteristicsOf elf relro s) :
    Covers elf relro
      { peS with
        data := peS.data ++ (List.replicate (s.shAddr - (peS.virtualAddress.toNat +
          peS.data.length)) 0 ++ s.data) } (group ++ [s]) := by
  have hpad : peS.start + peS.data.length + (s.shAddr - (peS.start + peS.data.length))
      = s.shAddr := by
    unfold PeSection.stop at hle
    omega
  have hstop : ∀ data, data = peS.data ++ (List.replicate (s.shAddr - (peS.virtualAddress.toNat +
      peS.data.length)) 0 ++ s.data) → ({ peS with data := data } : PeSection).stop = s.stop := by
    rintro data rfl
    show peS.start + (peS.data ++ (List.replicate (s.shAddr - (peS.start + peS.data.length)) 0 ++
      s.data)).length = _
    rw [List.length_append, List.length_append, List.length_replicate, ElfSection.stop]
    omega
  have hbefore : ∀ t ∈ group, t.stop ≤ s.shAddr := fun t ht => le_trans (h.stop t ht) hle
  have hstart : peS.start ≤ s.shAddr := by omega
  refine ⟨?_, ?_, ?_, ⟨s, by simp, (hstop _ rfl).symm⟩, ?_, ?_⟩
  · rw [List.pairwise_append]
    refine ⟨h.ascending, List.pairwise_singleton _ _, fun t ht u hu => ?_⟩
    rw [List.mem_singleton.mp hu]
    exact hbefore t ht
  · intro t ht
    rcases List.mem_append.mp ht with ht | ht
    · exact h.start t ht
    · rw [List.mem_singleton.mp ht]
      exact hstart
  · intro t ht
    rw [hstop _ rfl]
    rcases List.mem_append.mp ht with ht | ht
    · exact le_trans (hbefore t ht) (Nat.le_add_right _ _)
    · rw [List.mem_singleton.mp ht]
  · intro k hk
    show (peS.data ++ (List.replicate (s.shAddr - (peS.start + peS.data.length)) 0 ++
      s.data)).getD k 0 = memoryOf (group ++ [s]) (peS.start + k)
    rw [memoryOf_append]
    by_cases hold : k < peS.data.length
    · -- in the old data
      have hout : peS.start + k ∉ Extent.mk s.shAddr s.data.length := by
        rw [Extent.mem_mk]
        omega
      rw [List.getD_append _ _ _ _ hold, h.bytes k hold, Space.write_not_mem hout]
    · rw [List.getD_append_right _ _ _ _ (by omega)]
      by_cases hzero : peS.start + k < s.shAddr
      · -- in the padding
        have hout : peS.start + k ∉ Extent.mk s.shAddr s.data.length := by
          rw [Extent.mem_mk]
          omega
        have hnone : memoryOf group (peS.start + k) = 0 := by
          refine memoryOf_not_mem fun t ht => Or.inr ?_
          have := h.stop t ht
          unfold PeSection.stop at this
          omega
        rw [List.getD_append _ _ _ _ (by rw [List.length_replicate]; omega),
          Space.write_not_mem hout, hnone]
        exact List.getD_replicate _ (by omega)
      · -- in the new section
        have hin : peS.start + k ∈ Extent.mk s.shAddr s.data.length := by
          change k < (peS.data ++ (List.replicate (s.shAddr - (peS.start + peS.data.length)) 0 ++
            s.data)).length at hk
          rw [List.length_append, List.length_append, List.length_replicate] at hk
          rw [Extent.mem_mk]
          omega
        rw [List.getD_append_right _ _ _ _ (by rw [List.length_replicate]; omega),
          Space.write_mem hin, List.length_replicate]
        congr 1
        omega
  · intro t ht
    rcases List.mem_append.mp ht with ht | ht
    · exact h.rights t ht
    · rw [List.mem_singleton.mp ht]
      exact hrights

end

/-! ## iter_copy_sections -/

theorem copied_cons_ignored {s : ElfSection} {rest : List ElfSection} (h : ignored s = true) :
    (s :: rest).filter (fun s => ¬ ignored s) = rest.filter fun s => ¬ ignored s :=
  List.filter_cons_of_neg (by simp [h])

theorem copied_cons {s : ElfSection} {rest : List ElfSection} (h : ¬ ignored s = true) :
    (s :: rest).filter (fun s => ¬ ignored s) = s :: rest.filter fun s => ¬ ignored s :=
  List.filter_cons_of_pos (by simp [h])

/-- **The loop** yields sections that cover the sections of the file, in their order, and leaves
none of them out; with a section in hand it goes on from that. -/
theorem covers_iterCopyLoop {elf : ElfFile} {relro : Option ElfSegment}
    {sections : List ElfSection} {yielded : List PeSection}
    (hsmall : ∀ s ∈ sections.filter (fun s => ¬ ignored s), s.shAddr < 2 ^ 32) :
    ((iterCopyLoop elf relro none sections).toList = some yielded →
      ∃ groups, List.Forall₂ (Covers elf relro) yielded groups ∧
        groups.flatten = sections.filter fun s => ¬ ignored s) ∧
    ∀ peS group, Covers elf relro peS group →
      (iterCopyLoop elf relro (some peS) sections).toList = some yielded →
      ∃ groups, List.Forall₂ (Covers elf relro) yielded groups ∧
        groups.flatten = group ++ sections.filter fun s => ¬ ignored s := by
  induction sections generalizing yielded with
  | nil =>
      refine ⟨fun h => ?_, fun peS group hcovers h => ?_⟩
      · rw [← Option.some.inj h]
        exact ⟨[], .nil, rfl⟩
      · rw [← Option.some.inj h]
        exact ⟨[group], .cons hcovers .nil, by simp⟩
  | cons s rest ih =>
      by_cases hign : ignored s = true
      · rw [copied_cons_ignored hign] at hsmall ⊢
        have hih := @ih yielded hsmall
        refine ⟨fun h => ?_, fun peS group hcovers h => ?_⟩
        · rw [iterCopyLoop, if_pos hign] at h
          exact hih.1 h
        · rw [iterCopyLoop, if_pos hign] at h
          exact hih.2 peS group hcovers h
      · rw [copied_cons hign] at hsmall ⊢
        rw [List.forall_mem_cons] at hsmall
        have hstart := @covers_startSection elf relro s hsmall.1
        refine ⟨fun h => ?_, fun peS group hcovers h => ?_⟩
        · rw [iterCopyLoop, if_neg hign] at h
          split at h
          · cases h
          · exact (ih hsmall.2).2 _ _ hstart h
        · rw [iterCopyLoop, if_neg hign] at h
          split at h
          · cases h
          · dsimp only at h
            split at h
            · -- other rights: a new section
              obtain ⟨later, hlater, rfl⟩ := Option.map_eq_some_iff.mp h
              obtain ⟨groups, hgroups, hflat⟩ := (ih hsmall.2).2 _ _ hstart hlater
              exact ⟨group :: groups, .cons hcovers hgroups, by rw [List.flatten_cons, hflat]; rfl⟩
            · rename_i hrights
              split at h
              · cases h
              · rename_i hle
                obtain ⟨groups, hgroups, hflat⟩ := (ih hsmall.2).2 _ _
                  (hcovers.extend (Nat.le_of_not_lt hle) (not_not.mp hrights)) h
                exact ⟨groups, hgroups, by rw [hflat, List.append_assoc]; rfl⟩

end LoliLoader.PyElf2Efi
