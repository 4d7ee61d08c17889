/-
# LoliLoader.Elf2Efi.Ordering -- sorting by address

`reloc_compare` and `segment_compare` cut the 64-bit difference of two addresses to an `int`. A
library sorts what it is given by any comparison that is an order on it; what it makes of other
comparisons is its own affair, and there are libraries that make the worst of it.

`qsort` is a parameter with two properties: it only moves elements around, and the result is in
order if the comparison is consistent on the elements. From that alone one cannot tell what happens
with a comparison that is not consistent. So the condition for being sorted is found in two steps:
when is the list sorted by every library (`sorted_by_every_qsort_iff`), and what does that mean for
a difference that is cut.

`KeepsSign` is that the distance of two addresses has the same sign in 32 bits. For distances below
`2 ^ 31` it does; beyond it depends on the bits that are left.

`compares_addresses_iff` is about the comparison of two addresses, about lists, and about the two
lists that the converter sorts.
-/
import LoliLoader.Elf2Efi.Parsed
import Mathlib.Data.List.Infix

namespace LoliLoader.Elf2Efi

open C

/-! ## Libraries -/

section

variable {α : Type}

/-- The comparison is an order on the elements of the list, so that `qsort` has to follow it; on
other elements it may be anything. -/
structure Consistent (compare : α → α → Int32) (l : List α) : Prop where
  total : ∀ a ∈ l, ∀ b ∈ l, compare a b ≤ 0 ∨ compare b a ≤ 0
  trans : ∀ a ∈ l, ∀ b ∈ l, ∀ c ∈ l, compare a b ≤ 0 → compare b c ≤ 0 → compare a c ≤ 0

theorem Consistent.perm {compare : α → α → Int32} {l l' : List α} (h : Consistent compare l)
    (hperm : l'.Perm l) : Consistent compare l' where
  total a ha b hb := h.total a (hperm.mem_iff.mp ha) b (hperm.mem_iff.mp hb)
  trans a ha b hb c hc :=
    h.trans a (hperm.mem_iff.mp ha) b (hperm.mem_iff.mp hb) c (hperm.mem_iff.mp hc)

open Classical in
/-- The comparison on the elements of `l`, with all others behind them. -/
noncomputable def comparesOn (compare : α → α → Int32) (l : List α) (a b : α) : Bool :=
  b ∉ l ∨ a ∈ l ∧ compare a b ≤ 0

open Classical in
theorem comparesOn_iff {compare : α → α → Int32} {l : List α} {a b : α} :
    comparesOn compare l a b = true ↔ b ∉ l ∨ a ∈ l ∧ compare a b ≤ 0 := by
  unfold comparesOn
  exact decide_eq_true_iff

theorem Consistent.comparesOn_trans {compare : α → α → Int32} {l : List α}
    (h : Consistent compare l) (a b c : α) (hab : comparesOn compare l a b)
    (hbc : comparesOn compare l b c) : comparesOn compare l a c := by
  rw [comparesOn_iff] at hab hbc ⊢
  by_cases hc : c ∈ l
  · obtain ⟨hb, hbc⟩ := hbc.resolve_left (not_not_intro hc)
    obtain ⟨ha, hab⟩ := hab.resolve_left (not_not_intro hb)
    exact Or.inr ⟨ha, h.trans a ha b hb c hc hab hbc⟩
  · exact Or.inl hc

theorem Consistent.comparesOn_total {compare : α → α → Int32} {l : List α}
    (h : Consistent compare l) (a b : α) :
    comparesOn compare l a b || comparesOn compare l b a := by
  rw [Bool.or_eq_true, comparesOn_iff, comparesOn_iff]
  by_cases ha : a ∈ l
  · by_cases hb : b ∈ l
    · rcases h.total a ha b hb with hab | hba
      · exact Or.inl (Or.inr ⟨ha, hab⟩)
      · exact Or.inr (Or.inr ⟨hb, hba⟩)
    · exact Or.inl (Or.inl hb)
  · exact Or.inr (Or.inl ha)

open Classical in
/-- A library that moves nothing unless it has to. -/
theorem exists_qsort_stable : ∃ q : Qsort, ∀ {α : Type} (compare : α → α → Int32) (l : List α)
    (a b : α), compare a b ≤ 0 → [a, b].Sublist l → [a, b].Sublist (q.sort compare l) := by
  refine ⟨⟨fun compare l =>
    if Consistent compare l then l.mergeSort (comparesOn compare l) else l, ?_, ?_⟩, ?_⟩
  · intro α compare l
    split
    · exact List.mergeSort_perm _ _
    · exact List.Perm.refl l
  · intro α compare l htotal htrans
    have h : Consistent compare l := ⟨htotal, htrans⟩
    rw [if_pos h]
    refine (List.pairwise_mergeSort h.comparesOn_trans h.comparesOn_total l).imp_of_mem ?_
    intro a b _ hb hab
    have hb := (List.mergeSort_perm l _).mem_iff.mp hb
    exact ((comparesOn_iff.mp hab).resolve_left (not_not_intro hb)).2
  · intro α compare l a b hab hsub
    dsimp only
    split
    · rename_i h
      have ha : a ∈ l := hsub.subset List.mem_cons_self
      exact List.pair_sublist_mergeSort h.comparesOn_trans h.comparesOn_total
        (comparesOn_iff.mpr (Or.inr ⟨ha, hab⟩)) hsub
    · exact hsub

/-- And one that starts from the end. -/
theorem exists_qsort_reverse : ∃ q : Qsort, ∀ {α : Type} (compare : α → α → Int32) (l : List α)
    (a b : α), compare a b ≤ 0 → [b, a].Sublist l → [a, b].Sublist (q.sort compare l) := by
  obtain ⟨q, hq⟩ := exists_qsort_stable
  refine ⟨⟨fun compare l => q.sort compare l.reverse, ?_, ?_⟩, ?_⟩
  · intro α compare l
    exact (q.perm compare l.reverse).trans (List.reverse_perm l)
  · intro α compare l htotal htrans
    have h := Consistent.perm ⟨htotal, htrans⟩ (List.reverse_perm l)
    exact q.sorted compare l.reverse h.total h.trans
  · intro α compare l a b hab hsub
    exact hq compare l.reverse a b hab (by simpa using hsub.reverse)

theorem pair_sublist_of_mem {a b : α} {l : List α} (ha : a ∈ l) (hb : b ∈ l) (hne : a ≠ b) :
    [a, b].Sublist l ∨ [b, a].Sublist l := by
  induction l with
  | nil => cases ha
  | cons c l ih =>
      rcases List.mem_cons.mp ha with rfl | hal
      · rcases List.mem_cons.mp hb with rfl | hbl
        · exact absurd rfl hne
        · exact Or.inl ((List.singleton_sublist.mpr hbl).cons_cons a)
      · rcases List.mem_cons.mp hb with rfl | hbl
        · exact Or.inr ((List.singleton_sublist.mpr hal).cons_cons b)
        · exact (ih hal hbl).imp (fun h => h.cons c) (fun h => h.cons c)

/-- **Sorted by every library**: the list comes out in the order of `key` exactly if the comparison
never lets the later one of two elements come first. -/
theorem sorted_by_every_qsort_iff {compare : α → α → Int32} {key : α → Nat}
    (htotal : ∀ a b, compare a b ≤ 0 ∨ compare b a ≤ 0)
    (heq : ∀ a b, key a = key b → compare a b ≤ 0) (l : List α) :
    (∀ q : Qsort, (q.sort compare l).Pairwise fun a b => key a ≤ key b) ↔
      ∀ a ∈ l, ∀ b ∈ l, key a < key b → ¬ compare b a ≤ 0 := by
  constructor
  · intro h a ha b hb hlt hle
    -- a library that puts the later element first
    obtain ⟨q, hq⟩ : ∃ q : Qsort, [b, a].Sublist (q.sort compare l) := by
      have hne : a ≠ b := fun hab => absurd hlt (by rw [hab]; omega)
      rcases pair_sublist_of_mem ha hb hne with hsub | hsub
      · obtain ⟨q, hq⟩ := exists_qsort_reverse
        exact ⟨q, hq compare l b a hle hsub⟩
      · obtain ⟨q, hq⟩ := exists_qsort_stable
        exact ⟨q, hq compare l b a hle hsub⟩
    have hpair : [b, a].Pairwise fun a b => key a ≤ key b := (h q).sublist hq
    have hba : key b ≤ key a := by simpa using hpair
    omega
  · intro h q
    have hkey : ∀ a ∈ l, ∀ b ∈ l, compare a b ≤ 0 → key a ≤ key b := by
      intro a ha b hb hle
      by_contra hlt
      exact h b hb a ha (Nat.lt_of_not_le hlt) hle
    have htrans : ∀ a ∈ l, ∀ b ∈ l, ∀ c ∈ l, compare a b ≤ 0 → compare b c ≤ 0 →
        compare a c ≤ 0 := by
      intro a ha b hb c hc hab hbc
      have hac := Nat.le_trans (hkey a ha b hb hab) (hkey b hb c hc hbc)
      rcases Nat.lt_or_eq_of_le hac with hlt | hac
      · exact (htotal a c).resolve_right (h a ha c hc hlt)
      · exact heq a c hac
    refine (q.sorted compare l (fun a _ b _ => htotal a b) htrans).imp_of_mem ?_
    intro a b ha hb hab
    exact hkey a ((q.perm compare l).mem_iff.mp ha) b ((q.perm compare l).mem_iff.mp hb) hab

end

/-! ## The difference of two addresses -/

/-- The difference of two addresses, cut to an `int`: what both comparisons of the source return. -/
def cutDifference (a b : UInt64) : Int32 := (a - b).toUInt32.toInt32

/-- What a comparison of addresses owes: the sign of its result says which of them is lower. -/
structure ComparesAddresses (a b : UInt64) (d : Int32) : Prop where
  neg : d < 0 ↔ a.toNat < b.toNat
  zero : d = 0 ↔ a.toNat = b.toNat
  pos : 0 < d ↔ b.toNat < a.toNat

/-- The distance of the addresses keeps its sign in 32 bits. -/
def KeepsSign (a b : UInt64) : Prop :=
  a.toNat = b.toNat ∨
  b.toNat < a.toNat ∧ 0 < (a.toNat - b.toNat) % 2 ^ 32 ∧ (a.toNat - b.toNat) % 2 ^ 32 < 2 ^ 31 ∨
  a.toNat < b.toNat ∧ 0 < (b.toNat - a.toNat) % 2 ^ 32 ∧ (b.toNat - a.toNat) % 2 ^ 32 ≤ 2 ^ 31

theorem cutDifference_toInt (a b : UInt64) : (cutDifference a b).toInt =
    if 2 * ((2 ^ 64 - b.toNat + a.toNat) % 2 ^ 32) < 2 ^ 32 then
      (((2 ^ 64 - b.toNat + a.toNat) % 2 ^ 32 : Nat) : Int)
    else (((2 ^ 64 - b.toNat + a.toNat) % 2 ^ 32 : Nat) : Int) - (2 ^ 32 : Nat) := by
  have hcut : (a - b).toUInt32.toNat = (2 ^ 64 - b.toNat + a.toNat) % 2 ^ 32 := by
    rw [UInt64.toNat_toUInt32, UInt64.toNat_sub, Nat.mod_mod_of_dvd _ (by decide)]
  rw [← hcut]
  exact BitVec.toInt_eq_toNat_cond (a - b).toUInt32.toBitVec

/-! Its sign is that of the lower half of the distance. -/

theorem cutDifference_neg_iff (a b : UInt64) :
    cutDifference a b < 0 ↔ 2 ^ 31 ≤ (2 ^ 64 - b.toNat + a.toNat) % 2 ^ 32 := by
  rw [Int32.lt_iff_toInt_lt, Int32.toInt_zero, cutDifference_toInt]
  split <;> omega

theorem cutDifference_eq_zero_iff (a b : UInt64) :
    cutDifference a b = 0 ↔ (2 ^ 64 - b.toNat + a.toNat) % 2 ^ 32 = 0 := by
  rw [← Int32.toInt_inj, Int32.toInt_zero, cutDifference_toInt]
  split <;> omega

theorem cutDifference_pos_iff (a b : UInt64) :
    0 < cutDifference a b ↔ 0 < (2 ^ 64 - b.toNat + a.toNat) % 2 ^ 32 ∧
      (2 ^ 64 - b.toNat + a.toNat) % 2 ^ 32 < 2 ^ 31 := by
  rw [Int32.lt_iff_toInt_lt, Int32.toInt_zero, cutDifference_toInt]
  split <;> omega

theorem cutDifference_compares_iff (a b : UInt64) :
    ComparesAddresses a b (cutDifference a b) ↔ KeepsSign a b := by
  have ha := a.toNat_lt
  have hb := b.toNat_lt
  constructor
  · rintro ⟨hneg, hzero, hpos⟩
    rw [cutDifference_neg_iff] at hneg
    rw [cutDifference_eq_zero_iff] at hzero
    rw [cutDifference_pos_iff] at hpos
    rw [KeepsSign]
    omega
  · intro h
    rw [KeepsSign] at h
    refine ⟨?_, ?_, ?_⟩
    · rw [cutDifference_neg_iff]
      omega
    · rw [cutDifference_eq_zero_iff]
      omega
    · rw [cutDifference_pos_iff]
      omega

theorem cutDifference_total (a b : UInt64) :
    cutDifference a b ≤ 0 ∨ cutDifference b a ≤ 0 := by
  have ha := a.toNat_lt
  have hb := b.toNat_lt
  rw [← Int32.not_lt, ← Int32.not_lt, cutDifference_pos_iff, cutDifference_pos_iff]
  omega

/-- The comparison of the later address with the earlier one decides about both. -/
theorem keepsSign_pair_iff {a b : UInt64} (h : a.toNat < b.toNat) :
    ¬ cutDifference b a ≤ 0 ↔ KeepsSign a b ∧ KeepsSign b a := by
  have ha := a.toNat_lt
  have hb := b.toNat_lt
  rw [Int32.not_le, cutDifference_pos_iff, KeepsSign, KeepsSign]
  omega

/-! ## Sorted lists -/

section

variable {α : Type} {compare : α → α → Int32} {vaddr : α → UInt64}

/-- **Sorting by a cut difference** sorts by address, whatever the library, exactly if all
distances in the list keep their sign. -/
theorem sorted_by_address_iff (hcompare : ∀ a b, compare a b = cutDifference (vaddr a) (vaddr b))
    (l : List α) :
    (∀ q : Qsort, (q.sort compare l).Pairwise fun a b => (vaddr a).toNat ≤ (vaddr b).toNat) ↔
      ∀ a ∈ l, ∀ b ∈ l, KeepsSign (vaddr a) (vaddr b) := by
  have htotal : ∀ a b, compare a b ≤ 0 ∨ compare b a ≤ 0 := by
    intro a b
    rw [hcompare, hcompare]
    exact cutDifference_total _ _
  have heq : ∀ a b, (vaddr a).toNat = (vaddr b).toNat → compare a b ≤ 0 := by
    intro a b h
    rw [hcompare, ((cutDifference_compares_iff _ _).mpr (Or.inl h)).zero.mpr h]
    exact Int32.le_refl 0
  rw [sorted_by_every_qsort_iff htotal heq]
  constructor
  · intro h a ha b hb
    rcases Nat.lt_trichotomy (vaddr a).toNat (vaddr b).toNat with hlt | hab | hlt
    · have hnot := h a ha b hb hlt
      rw [hcompare] at hnot
      exact ((keepsSign_pair_iff hlt).mp hnot).1
    · exact Or.inl hab
    · have hnot := h b hb a ha hlt
      rw [hcompare] at hnot
      exact ((keepsSign_pair_iff hlt).mp hnot).2
  · intro h a ha b hb hlt
    rw [hcompare]
    exact (keepsSign_pair_iff hlt).mpr ⟨h a ha b hb, h b hb a ha⟩

/-- A list that one library has sorted. -/
theorem pairwise_of_keepsSign (hcompare : ∀ a b, compare a b = cutDifference (vaddr a) (vaddr b))
    (q : Qsort) {l sorted : List α} (hsorted : sorted = q.sort compare l)
    (h : ∀ a ∈ sorted, ∀ b ∈ sorted, KeepsSign (vaddr a) (vaddr b)) :
    sorted.Pairwise fun a b => (vaddr a).toNat ≤ (vaddr b).toNat := by
  have hperm : sorted.Perm l := hsorted ▸ q.perm compare l
  rw [hsorted]
  refine (sorted_by_address_iff hcompare l).mpr ?_ q
  intro a ha b hb
  exact h a (hperm.mem_iff.mpr ha) b (hperm.mem_iff.mpr hb)

end

/-- `load_relocs` hands the library one list, whatever the library. -/
theorem loadRelocs_sorts (heap : Heap) (exec : Executable) (elf : SizedData) (dynamic : Segment) :
    (∃ e, ∀ q, loadRelocs q heap exec elf dynamic = .error e) ∨
      ∃ l, ∀ q : Qsort, loadRelocs q heap exec elf dynamic = .ok (q.sort relocCompare l) := by
  unfold loadRelocs
  cases relaTable elf dynamic with
  | error e => exact Or.inl ⟨e, fun _ => rfl⟩
  | ok rela =>
      dsimp only [bind, Except.bind]
      cases loadRelaTable heap rela with
      | error e => exact Or.inl ⟨e, fun _ => rfl⟩
      | ok first =>
          dsimp only
          cases relTable elf dynamic with
          | error e => exact Or.inl ⟨e, fun _ => rfl⟩
          | ok rel =>
              dsimp only
              cases loadRelTable heap exec first.1 first.2 rel with
              | error e => exact Or.inl ⟨e, fun _ => rfl⟩
              | ok both => exact Or.inr ⟨both.1.take both.2, fun _ => rfl⟩

theorem loadRelocs_sorted_iff (heap : Heap) (exec : Executable) (elf : SizedData)
    (dynamic : Segment) :
    (∀ q relocs, loadRelocs q heap exec elf dynamic = .ok relocs →
      relocs.Pairwise fun a b => a.vaddr.toNat ≤ b.vaddr.toNat) ↔
    ∀ q relocs, loadRelocs q heap exec elf dynamic = .ok relocs →
      ∀ a ∈ relocs, ∀ b ∈ relocs, KeepsSign a.vaddr b.vaddr := by
  rcases loadRelocs_sorts heap exec elf dynamic with ⟨e, herr⟩ | ⟨l, hok⟩
  · have hnone : ∀ q relocs, loadRelocs q heap exec elf dynamic ≠ .ok relocs := by
      intro q relocs h
      rw [herr] at h
      cases h
    exact iff_of_true (fun q relocs h => absurd h (hnone q relocs))
      (fun q relocs h => absurd h (hnone q relocs))
  · constructor
    · intro h q relocs hrelocs a ha b hb
      have hall : ∀ q : Qsort, (q.sort relocCompare l).Pairwise
          fun a b => a.vaddr.toNat ≤ b.vaddr.toNat := fun q => h q _ (hok q)
      obtain rfl := Except.ok.inj ((hok q).symm.trans hrelocs)
      exact (sorted_by_address_iff (fun _ _ => rfl) l).mp hall a
        ((q.perm relocCompare l).mem_iff.mp ha) b ((q.perm relocCompare l).mem_iff.mp hb)
    · intro h q relocs hrelocs
      obtain rfl := Except.ok.inj ((hok q).symm.trans hrelocs)
      exact pairwise_of_keepsSign (fun _ _ => rfl) q rfl (h q _ hrelocs)

/-- The two lists of an executable come from the library. -/
theorem sorted_of_parseElf {qsort : Qsort} {heap : Heap} {elf : SizedData} {exec : Executable}
    (h : parseElf qsort heap elf = .ok exec) :
    (∃ segments, exec.segments = qsort.sort segmentCompare segments) ∧
      ∃ relocs, exec.relocs = qsort.sort relocCompare relocs := by
  obtain ⟨segments, dynamic, relocs, alignment, -, hrelocs, -, rfl⟩ := parseElf_steps h
  refine ⟨⟨segments, rfl⟩, ?_⟩
  rcases loadRelocs_sorts heap _ elf dynamic with ⟨e, herr⟩ | ⟨l, hok⟩
  · rw [herr] at hrelocs
    cases hrelocs
  · exact ⟨l, (Except.ok.inj ((hok qsort).symm.trans hrelocs)).symm⟩

/-- **The comparisons are by address** exactly where the distance keeps its sign in 32 bits, and
the lists are sorted by address whatever the library exactly if that holds throughout. -/
theorem compares_addresses_iff (r₁ r₂ : ExecReloc) (s₁ s₂ : Segment) (relocs : List ExecReloc)
    (segments : List Segment) (qsort : Qsort) (heap : Heap) (elf : SizedData) :
    (ComparesAddresses r₁.vaddr r₂.vaddr (relocCompare r₁ r₂) ↔ KeepsSign r₁.vaddr r₂.vaddr) ∧
    (ComparesAddresses s₁.vaddr s₂.vaddr (segmentCompare s₁ s₂) ↔ KeepsSign s₁.vaddr s₂.vaddr) ∧
    ((∀ q : Qsort, (q.sort relocCompare relocs).Pairwise
        fun a b => a.vaddr.toNat ≤ b.vaddr.toNat) ↔
      ∀ a ∈ relocs, ∀ b ∈ relocs, KeepsSign a.vaddr b.vaddr) ∧
    ((∀ q : Qsort, (q.sort segmentCompare segments).Pairwise
        fun a b => a.vaddr.toNat ≤ b.vaddr.toNat) ↔
      ∀ a ∈ segments, ∀ b ∈ segments, KeepsSign a.vaddr b.vaddr) ∧
    (∀ exec dynamic,
      (∀ q relocs, loadRelocs q heap exec elf dynamic = .ok relocs →
        relocs.Pairwise fun a b => a.vaddr.toNat ≤ b.vaddr.toNat) ↔
      ∀ q relocs, loadRelocs q heap exec elf dynamic = .ok relocs →
        ∀ a ∈ relocs, ∀ b ∈ relocs, KeepsSign a.vaddr b.vaddr) ∧
    ∀ exec, parseElf qsort heap elf = .ok exec →
      ((∀ a ∈ exec.segments, ∀ b ∈ exec.segments, KeepsSign a.vaddr b.vaddr) →
        exec.segments.Pairwise fun a b => a.vaddr.toNat ≤ b.vaddr.toNat) ∧
      ((∀ a ∈ exec.relocs, ∀ b ∈ exec.relocs, KeepsSign a.vaddr b.vaddr) →
        exec.relocs.Pairwise fun a b => a.vaddr.toNat ≤ b.vaddr.toNat) := by
  refine ⟨cutDifference_compares_iff _ _, cutDifference_compares_iff _ _,
    sorted_by_address_iff (fun _ _ => rfl) relocs,
    sorted_by_address_iff (fun _ _ => rfl) segments,
    fun exec dynamic => loadRelocs_sorted_iff heap exec elf dynamic, ?_⟩
  intro exec hparse
  obtain ⟨⟨segments, hsegments⟩, relocs, hrelocs⟩ := sorted_of_parseElf hparse
  exact ⟨pairwise_of_keepsSign (fun _ _ => rfl) qsort hsegments,
    pairwise_of_keepsSign (fun _ _ => rfl) qsort hrelocs⟩

/-- Two addresses `2 ^ 31` apart: each is below the other. -/
theorem far_addresses_not_compared :
    ∃ r₁ r₂ : ExecReloc, ¬ ComparesAddresses r₁.vaddr r₂.vaddr (relocCompare r₁ r₂) ∧
      ¬ ∀ q : Qsort, (q.sort relocCompare [r₁, r₂]).Pairwise
        fun a b => a.vaddr.toNat ≤ b.vaddr.toNat := by
  refine ⟨⟨0x80000000, 0⟩, ⟨0, 0⟩, ?_, ?_⟩
  · intro h
    exact absurd (h.neg.mp (by decide)) (by decide)
  · intro h
    have hkeeps : ∀ a ∈ [⟨0x80000000, 0⟩, ⟨0, 0⟩], ∀ b ∈ [⟨0x80000000, 0⟩, ⟨0, 0⟩],
        KeepsSign (ExecReloc.vaddr a) (ExecReloc.vaddr b) :=
      (sorted_by_address_iff (fun _ _ => rfl) _).mp h
    rcases hkeeps ⟨0x80000000, 0⟩ List.mem_cons_self ⟨0, 0⟩ (by simp) with
      heq | ⟨-, -, hlt⟩ | ⟨hlt, -, -⟩
    · exact absurd heq (by decide)
    · exact absurd hlt (by decide)
    · exact absurd hlt (by decide)

end LoliLoader.Elf2Efi
