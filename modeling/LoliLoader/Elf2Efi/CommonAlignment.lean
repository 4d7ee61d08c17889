/-
# LoliLoader.Elf2Efi.CommonAlignment -- is the announced alignment usable?

`exec_address_alignment` multiplies the alignments, each over their greatest common divisor, in 32
bits. The result is a divisor later on, so it must not be zero; it is zero when one of the
alignments is, and when the product needs more than 32 bits.

`Usable` is what the function owes: a common multiple of the alignments, and no division by zero in
anything that the converter does with it. The second part is about `relocate_exec` and `write_pe`,
so it is stated by `NoDivision`, which has rules for sequences and follows those functions in all of
their paths.

`usable_alignment_iff` is for alignments as the ELF format permits them, zero and powers of two, and
for any number of segments. The alignments of 64 bits are cut to 32 where they are read, so a
segment with the alignment `2 ^ 32` counts as one with zero.

The product that wraps in the example needs no more than three segments.
-/
import LoliLoader.Elf2Efi.Alignment
import LoliLoader.Elf2Efi.Inversion

namespace LoliLoader.Elf2Efi

open C

/-! ## Computations that do not divide by zero -/

/-- The computation does not end in a division by zero. -/
def NoDivision {α : Type} (x : Except Failure α) : Prop := x ≠ .error (.fault .divide)

section

variable {α β : Type}

theorem NoDivision.ok (a : α) : NoDivision (.ok a : Except Failure α) := by
  rintro ⟨⟩

theorem NoDivision.bind {x : Except Failure α} {f : α → Except Failure β} (hx : NoDivision x)
    (hf : ∀ a, NoDivision (f a)) : NoDivision (x >>= f) := by
  cases x with
  | error e => exact fun h => hx (congrArg Except.error (Except.error.inj h))
  | ok a => exact hf a

theorem NoDivision.mapM {f : α → Except Failure β} {l : List α} (h : ∀ a ∈ l, NoDivision (f a)) :
    NoDivision (l.mapM f) := by
  induction l with
  | nil => exact NoDivision.ok _
  | cons a l ih =>
      rw [List.mapM_cons]
      refine NoDivision.bind (h a List.mem_cons_self) fun b => ?_
      exact NoDivision.bind (ih fun c hc => h c (List.mem_cons_of_mem a hc)) fun _ =>
        NoDivision.ok _

theorem NoDivision.divisor {x : UInt64} (h : x ≠ 0) : NoDivision (divisor x) := by
  rw [Elf2Efi.divisor, if_neg h]
  exact NoDivision.ok _

end

/-! ## What the alignment is for -/

/-- `relocate_exec` divides by the common alignment and by that of each segment. -/
theorem noDivision_relocateExec {exec : Executable} (h : exec.executableAlignment ≠ 0)
    (hs : ∀ s ∈ exec.segments, s.alignment ≠ 0) (base : UInt64) :
    NoDivision (relocateExec exec base) := by
  have hcopy : ∀ offset n size src, NoDivision (copyBehind offset n size src) := by
    intro offset n size src
    unfold copyBehind
    split
    · rintro ⟨⟩
    · split
      · rintro ⟨⟩
      · exact NoDivision.ok _
  unfold relocateExec
  split
  · rintro ⟨⟩
  · rename_i first rest hsegments
    refine NoDivision.bind ?_ fun offset =>
      NoDivision.bind (NoDivision.mapM ?_) fun _ => NoDivision.ok _
    · unfold headerOffset
      dsimp only
      split
      · exact NoDivision.bind (NoDivision.divisor (toUInt64_ne_zero h)) fun _ => NoDivision.ok _
      · exact NoDivision.ok _
    · intro s hmem
      unfold relocateSegment
      exact NoDivision.bind (NoDivision.divisor (toUInt64_ne_zero (hs s hmem))) fun _ =>
        NoDivision.bind (hcopy _ _ _ _) fun _ => NoDivision.ok _

/-- `write_pe` divides by the common alignment. -/
theorem noDivision_writePe {exec : Executable} (h : exec.executableAlignment ≠ 0)
    (segname : Nat → Nat → UInt8) (base : UInt64) (peRelocs : SizedData) :
    NoDivision (writePe segname exec base peRelocs) := by
  have hpadded : ∀ data size total, NoDivision (writePadded data size total) := by
    intro data size total
    unfold writePadded
    split
    · rintro ⟨⟩
    · exact NoDivision.ok _
  unfold writePe
  dsimp only
  split
  · rintro ⟨⟩
  · split
    · rintro ⟨⟩
    · refine NoDivision.bind (NoDivision.divisor (toUInt64_ne_zero h)) fun _ => ?_
      refine NoDivision.bind (NoDivision.mapM fun s _ => hpadded _ _ _) fun raw => ?_
      split
      · exact NoDivision.bind (hpadded _ _ _) fun relocs => NoDivision.ok _
      · exact NoDivision.bind (NoDivision.ok _) fun relocs => NoDivision.ok _

/-- What `exec_address_alignment` owes for these segments: a common multiple of their alignments,
and a divisor for all that comes later. -/
structure Usable (segments : List Segment) (alignment : UInt32) : Prop where
  computed : execAddressAlignment segments = .ok alignment
  ne_zero : alignment ≠ 0
  multiple : ∀ s ∈ segments, s.alignment ≠ 0 → s.alignment.toNat ∣ alignment.toNat
  relocate : ∀ (exec : Executable) (base : UInt64), exec.segments = segments →
    exec.executableAlignment = alignment → NoDivision (relocateExec exec base)
  write : ∀ (segname : Nat → Nat → UInt8) (exec : Executable) (base : UInt64)
    (peRelocs : SizedData), exec.executableAlignment = alignment →
    NoDivision (writePe segname exec base peRelocs)

/-- An alignment of zero makes the product zero. -/
theorem foldlM_product_zero {segments : List Segment} {g alignment alignment' : UInt32}
    (h : segments.foldlM (fun alignment s => do
      divisor g.toUInt64
      return alignment * (s.alignment / g)) alignment = .ok alignment')
    (hzero : alignment = 0 ∨ ∃ s ∈ segments, s.alignment = 0) : alignment' = 0 := by
  induction segments generalizing alignment with
  | nil =>
      obtain rfl := Except.ok.inj h
      rcases hzero with h0 | ⟨s, hs, -⟩
      · exact h0
      · cases hs
  | cons s segments ih =>
      rw [List.foldlM_cons] at h
      obtain ⟨next, hnext, h⟩ := bind_eq_ok.mp h
      obtain ⟨_, -, hnext⟩ := bind_eq_ok.mp hnext
      obtain rfl := Except.ok.inj hnext
      refine ih h ?_
      rcases hzero with rfl | ⟨t, ht, h0⟩
      · exact Or.inl (UInt32.zero_mul)
      · rcases List.mem_cons.mp ht with rfl | ht
        · rw [h0, UInt32.zero_div, UInt32.mul_zero]
          exact Or.inl rfl
        · exact Or.inr ⟨t, ht, h0⟩

/-- **The common alignment is usable**, for alignments as the ELF format permits them, exactly if
none of them is zero and their product over the least one fits 32 bits. -/
theorem usable_alignment_iff {segments : List Segment}
    (hpermitted : ∀ s ∈ segments, s.alignment = 0 ∨ s.PowerAligned)
    (h512 : ∃ s ∈ segments, 512 ∣ s.alignment.toNat) :
    (∃ alignment, Usable segments alignment) ↔
      (∀ s ∈ segments, s.alignment ≠ 0) ∧
        productExponent (segments.map Segment.exponent) < 32 := by
  obtain ⟨t, ht, -⟩ := h512
  have hpowers : (∀ s ∈ segments, s.alignment ≠ 0) → ∀ s ∈ segments, s.PowerAligned :=
    fun hne s hs => (hpermitted s hs).resolve_left (hne s hs)
  constructor
  · rintro ⟨alignment, h⟩
    have hne : ∀ s ∈ segments, s.alignment ≠ 0 := by
      intro s hs h0
      exact h.ne_zero (foldlM_product_zero h.computed (Or.inr ⟨s, hs, h0⟩))
    refine ⟨hne, ?_⟩
    obtain ⟨alignment', hok, hpow⟩ :=
      execAddressAlignment_pow (List.ne_nil_of_mem ht) (hpowers hne)
    obtain rfl := Except.ok.inj (h.computed.symm.trans hok)
    by_contra hge
    rw [Nat.mod_eq_zero_of_dvd (Nat.pow_dvd_pow 2 (Nat.le_of_not_lt hge))] at hpow
    exact h.ne_zero (UInt32.toNat_inj.mp hpow)
  · rintro ⟨hne, hlt⟩
    obtain ⟨alignment, hok, hpow⟩ :=
      execAddressAlignment_pow (List.ne_nil_of_mem ht) (hpowers hne)
    rw [Nat.mod_eq_of_lt (Nat.pow_lt_pow_right (by decide) hlt)] at hpow
    have hpos := ne_zero_of_two_pow hpow
    refine ⟨alignment, hok, hpos, fun s hs _ => alignment_dvd (hpowers hne) hok s hs, ?_, ?_⟩
    · rintro exec base rfl rfl
      exact noDivision_relocateExec hpos hne base
    · rintro segname exec base peRelocs rfl
      exact noDivision_writePe hpos segname base peRelocs

/-- A segment of which only the alignment counts. -/
def alignedSegment (alignment : UInt32) : Segment where
  vaddr := 0
  memsize := 0
  alignment := alignment
  flags := SEGMENT_FLAGS_READ
  filesize := 0
  data := ⟨"segment", [], 0⟩

theorem usable_alignment_iff_pages :
    (∃ alignment, Usable [alignedSegment 0x1000, alignedSegment 0x200000] alignment) ↔
      (∀ s ∈ [alignedSegment 0x1000, alignedSegment 0x200000], s.alignment ≠ 0) ∧
        productExponent
          ([alignedSegment 0x1000, alignedSegment 0x200000].map Segment.exponent) < 32 :=
  usable_alignment_iff
    (by
      intro s hs
      rcases List.mem_pair.mp hs with rfl | rfl
      · exact Or.inr ⟨12, rfl⟩
      · exact Or.inr ⟨21, rfl⟩)
    ⟨alignedSegment 0x1000, List.mem_cons_self, by decide⟩

/-- Alignments of 1 byte, 64 KiB and 64 KiB: their product is `2 ^ 32`, zero in 32 bits. -/
theorem alignment_product_wraps :
    (∀ s ∈ [alignedSegment 1, alignedSegment 0x10000, alignedSegment 0x10000],
      s.alignment = 0 ∨ s.PowerAligned) ∧
    (∃ s ∈ [alignedSegment 1, alignedSegment 0x10000, alignedSegment 0x10000],
      512 ∣ s.alignment.toNat) ∧
    ¬ ∃ alignment,
      Usable [alignedSegment 1, alignedSegment 0x10000, alignedSegment 0x10000] alignment := by
  refine ⟨?_, ⟨alignedSegment 0x10000, by simp, by decide⟩, ?_⟩
  · intro s hs
    simp only [List.mem_cons, List.not_mem_nil, or_false] at hs
    rcases hs with rfl | rfl | rfl
    · exact Or.inr ⟨0, rfl⟩
    · exact Or.inr ⟨16, rfl⟩
    · exact Or.inr ⟨16, rfl⟩
  · rintro ⟨alignment, h⟩
    have hval : execAddressAlignment
        [alignedSegment 1, alignedSegment 0x10000, alignedSegment 0x10000] = .ok 0 := by
      decide +kernel
    exact h.ne_zero (Except.ok.inj (h.computed.symm.trans hval))

end LoliLoader.Elf2Efi
