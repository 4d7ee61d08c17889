/-
# LoliLoader.Elf2Efi.Alignment -- exec_address_alignment

The alignment that the header of the image announces is computed from those of all segments, in 32
bits. Alignments of an ELF file are powers of two; then every one of them divides it.

The computation is a product: the greatest common divisor of all alignments, and for each segment
what it has more than that. For powers of two the divisor is the least of them and the product is a
power of two again, whose exponent is a sum (`productExponent`).

The result is a common multiple, but seldom the least one. With several large alignments the
exponent grows past 31 and the product is cut to zero; so `execAddressAlignment_pow` has the power
modulo `2 ^ 32`, and whether it is usable is the question of `Elf2Efi.CommonAlignment`.

Zero is divided by everything, so `alignment_dvd` needs no condition on the size. Those who use it
have to know that it is not zero.
-/
import LoliLoader.Elf2Efi.Relocate
import Mathlib.Data.Nat.GCD.Basic
import Mathlib.Algebra.Order.BigOperators.Group.List
import Mathlib.Algebra.Order.Ring.Nat

namespace LoliLoader.Elf2Efi

open C

/-- `gcd` of the source, in 32 bits. It ends because the second number gets smaller with each
step. -/
def gcd (a b : UInt32) : UInt32 := if b = 0 then a else gcd b (a % b)
termination_by b.toNat
decreasing_by
  rename_i hb
  rw [UInt32.toNat_mod]
  apply Nat.mod_lt
  apply Nat.pos_of_ne_zero
  intro h0
  exact hb (UInt32.toNat_inj.mp h0)

/-- `exec_address_alignment`: the greatest common divisor of all alignments, times what each of them
has more than that. -/
def execAddressAlignment (segments : List Segment) : Except Failure UInt32 := do
  let alignGCD := segments.foldl (fun g s => gcd s.alignment g) 0
  segments.foldlM (fun alignment s => do
    divisor alignGCD.toUInt64
    return alignment * (s.alignment / alignGCD)) alignGCD

/-! ## Aligning down -/

/-- Aligning down goes past what is aligned already, also around the end of the address space. -/
theorem alignDown_add {x c a : UInt64} (ha : a.toNat ∣ 2 ^ 64) (hc : a.toNat ∣ c.toNat) :
    alignDown (x + c) a = alignDown x a + c := by
  have hdown : ∀ y : UInt64, (alignDown y a).toNat = y.toNat - y.toNat % a.toNat := by
    intro y
    have hle : y.toNat / a.toNat * a.toNat ≤ y.toNat := Nat.div_mul_le_self _ _
    have hlt := y.toNat_lt
    have hsum := Nat.div_add_mod' y.toNat a.toNat
    rw [alignDown, UInt64.toNat_mul, UInt64.toNat_div, Nat.mod_eq_of_lt (by omega)]
    omega
  have hmod : (x + c).toNat % a.toNat = x.toNat % a.toNat := by
    obtain ⟨k, hk⟩ := hc
    rw [UInt64.toNat_add, Nat.mod_mod_of_dvd _ ha, hk, Nat.add_mul_mod_self_left]
  have hle := Nat.mod_le (x + c).toNat a.toNat
  have hle' := Nat.mod_le x.toNat a.toNat
  apply UInt64.toNat_inj.mp
  rw [hdown (x + c), hmod, UInt64.toNat_add (alignDown x a), hdown x]
  rw [hmod] at hle
  rw [UInt64.toNat_add] at hle ⊢
  have hx := x.toNat_lt
  have hc := c.toNat_lt
  omega

theorem alignDown_toNat (x a : UInt64) : (alignDown x a).toNat = x.toNat / a.toNat * a.toNat := by
  have hle : x.toNat / a.toNat * a.toNat ≤ x.toNat := Nat.div_mul_le_self _ _
  rw [alignDown, UInt64.toNat_mul, UInt64.toNat_div]
  exact Nat.mod_eq_of_lt (lt_of_le_of_lt hle x.toNat_lt)

/-! ## Powers of two -/

theorem gcd_toNat (a b : UInt32) : (gcd a b).toNat = Nat.gcd a.toNat b.toNat := by
  induction a, b using gcd.induct with
  | case1 a =>
      rw [gcd, if_pos rfl]
      exact (Nat.gcd_zero_right _).symm
  | case2 a b hb ih =>
      rw [gcd, if_neg hb, ih, UInt32.toNat_mod, Nat.gcd_comm, ← Nat.gcd_rec, Nat.gcd_comm]

/-- The alignment of a segment is a power of two. -/
def Segment.PowerAligned (s : Segment) : Prop := ∃ k, s.alignment.toNat = 2 ^ k

/-- The exponent of an alignment that is a power of two. -/
def Segment.exponent (s : Segment) : Nat := s.alignment.toNat.log2

theorem Segment.PowerAligned.alignment_eq {s : Segment} (h : s.PowerAligned) :
    s.alignment.toNat = 2 ^ s.exponent := by
  obtain ⟨k, hk⟩ := h
  rw [Segment.exponent, hk, Nat.log2_two_pow]

theorem gcd_two_pow (j k : Nat) : Nat.gcd (2 ^ j) (2 ^ k) = 2 ^ min j k := by
  rcases Nat.le_total j k with h | h
  · rw [Nat.min_eq_left h, Nat.gcd_eq_left (Nat.pow_dvd_pow 2 h)]
  · rw [Nat.min_eq_right h, Nat.gcd_eq_right (Nat.pow_dvd_pow 2 h)]

theorem ne_zero_of_two_pow {g : UInt32} {m : Nat} (hg : g.toNat = 2 ^ m) : g ≠ 0 := by
  rintro rfl
  exact absurd hg.symm (Nat.ne_of_gt (Nat.two_pow_pos m))

theorem toUInt64_ne_zero {x : UInt32} (h : x ≠ 0) : x.toUInt64 ≠ 0 := by
  intro h0
  have hz : x.toUInt64.toNat = x.toNat := UInt32.toNat_toUInt64 x
  rw [h0] at hz
  exact h (UInt32.toNat_inj.mp hz.symm)

/-- The greatest common divisor is the least of the powers. -/
theorem foldl_gcd {segments : List Segment} (h : ∀ s ∈ segments, s.PowerAligned) {g : UInt32}
    {m : Nat} (hg : g.toNat = 2 ^ m) :
    (segments.foldl (fun g s => gcd s.alignment g) g).toNat =
      2 ^ (segments.map Segment.exponent).foldl min m := by
  induction segments generalizing g m with
  | nil => exact hg
  | cons s segments ih =>
      have hstep : (gcd s.alignment g).toNat = 2 ^ min m s.exponent := by
        rw [gcd_toNat, (h s List.mem_cons_self).alignment_eq, hg, gcd_two_pow, Nat.min_comm]
      exact ih (fun t ht => h t (List.mem_cons_of_mem s ht)) hstep

/-- The product of the powers, in 32 bits. -/
theorem foldlM_product {segments : List Segment} (h : ∀ s ∈ segments, s.PowerAligned) {g : UInt32}
    {m : Nat} (hg : g.toNat = 2 ^ m) (hm : ∀ s ∈ segments, m ≤ s.exponent) {alignment : UInt32}
    {e : Nat} (hstart : alignment.toNat = 2 ^ e % 2 ^ 32) :
    ∃ alignment', segments.foldlM (fun alignment s => do
        divisor g.toUInt64
        return alignment * (s.alignment / g)) alignment = .ok alignment' ∧
      alignment'.toNat = 2 ^ (e + (segments.map fun s => s.exponent - m).sum) % 2 ^ 32 := by
  have hne := toUInt64_ne_zero (ne_zero_of_two_pow hg)
  induction segments generalizing alignment e with
  | nil => exact ⟨alignment, rfl, hstart⟩
  | cons s segments ih =>
      have hms := hm s List.mem_cons_self
      have hstep : (alignment * (s.alignment / g)).toNat = 2 ^ (e + (s.exponent - m)) % 2 ^ 32 := by
        rw [UInt32.toNat_mul, UInt32.toNat_div, (h s List.mem_cons_self).alignment_eq, hg,
          Nat.pow_div hms (by decide), hstart, Nat.mod_mul_mod, Nat.pow_add]
      obtain ⟨alignment', hfold, hres⟩ := ih (fun t ht => h t (List.mem_cons_of_mem s ht))
        (fun t ht => hm t (List.mem_cons_of_mem s ht)) hstep
      refine ⟨alignment', ?_, ?_⟩
      · have hhead : (do
            divisor g.toUInt64
            return alignment * (s.alignment / g) : Except Failure UInt32) =
              .ok (alignment * (s.alignment / g)) := by
          rw [divisor, if_neg hne]
          rfl
        rw [List.foldlM_cons, hhead]
        exact hfold
      · rw [List.map_cons, List.sum_cons, ← Nat.add_assoc]
        exact hres

/-- The exponent of the product: the least one, and what each of them has more than that. -/
def productExponent (exponents : List Nat) : Nat :=
  let m := exponents.min?.getD 0
  m + (exponents.map fun k => k - m).sum

theorem le_productExponent {exponents : List Nat} {k : Nat} (hk : k ∈ exponents) :
    k ≤ productExponent exponents := by
  have hle : k - exponents.min?.getD 0 ≤
      (exponents.map fun k => k - exponents.min?.getD 0).sum :=
    List.le_sum_of_mem (List.mem_map_of_mem hk)
  unfold productExponent
  dsimp only
  omega

/-- What is announced for segments with powers of two: their product over the least of them, in
32 bits. -/
theorem execAddressAlignment_pow {segments : List Segment} (hne : segments ≠ [])
    (h : ∀ s ∈ segments, s.PowerAligned) :
    ∃ alignment, execAddressAlignment segments = .ok alignment ∧
      alignment.toNat = 2 ^ productExponent (segments.map Segment.exponent) % 2 ^ 32 := by
  obtain ⟨first, rest, rfl⟩ := List.exists_cons_of_ne_nil hne
  have hfirst : (gcd first.alignment 0).toNat = 2 ^ first.exponent := by
    rw [gcd_toNat]
    show Nat.gcd _ 0 = _
    rw [Nat.gcd_zero_right, (h first List.mem_cons_self).alignment_eq]
  have hgcd := foldl_gcd (fun s hs => h s (List.mem_cons_of_mem first hs)) hfirst
  have hmin : ((first :: rest).map Segment.exponent).min? =
      some ((rest.map Segment.exponent).foldl min first.exponent) := List.min?_cons'
  have hle : ∀ s ∈ first :: rest,
      (rest.map Segment.exponent).foldl min first.exponent ≤ s.exponent := by
    intro s hs
    exact (List.min?_eq_some_iff.mp hmin).2 _ (List.mem_map_of_mem hs)
  have hlt := UInt32.toNat_lt (rest.foldl (fun g s => gcd s.alignment g) (gcd first.alignment 0))
  obtain ⟨alignment, hok, hres⟩ := foldlM_product h hgcd hle
    (hgcd.trans (Nat.mod_eq_of_lt (hgcd ▸ hlt)).symm)
  refine ⟨alignment, hok, ?_⟩
  rw [hres, productExponent, hmin, List.map_map]
  rfl

theorem execAddressAlignment_ok {segments : List Segment} (hne : segments ≠ [])
    (h : ∀ s ∈ segments, s.PowerAligned) :
    ∃ alignment e, execAddressAlignment segments = .ok alignment ∧
      alignment.toNat = 2 ^ e % 2 ^ 32 ∧
      ∀ s ∈ segments, ∃ k, k ≤ e ∧ s.alignment.toNat = 2 ^ k := by
  obtain ⟨alignment, hok, hpow⟩ := execAddressAlignment_pow hne h
  refine ⟨alignment, _, hok, hpow, ?_⟩
  intro s hs
  exact ⟨s.exponent, le_productExponent (List.mem_map_of_mem hs), (h s hs).alignment_eq⟩

/-- The alignment of each segment divides the announced one. -/
theorem alignment_dvd {segments : List Segment} (h : ∀ s ∈ segments, s.PowerAligned)
    {alignment : UInt32} (hok : execAddressAlignment segments = .ok alignment) :
    ∀ s ∈ segments, s.alignment.toNat ∣ alignment.toNat := by
  intro s hs
  obtain ⟨alignment', e, hok', hpow, hall⟩ :=
    execAddressAlignment_ok (List.ne_nil_of_mem hs) h
  obtain rfl := Except.ok.inj (hok.symm.trans hok')
  obtain ⟨k, hk, hks⟩ := hall s hs
  have hlt := s.alignment.toNat_lt
  have hk32 : k ≤ 32 := by
    by_contra hgt
    have := Nat.pow_le_pow_right (show 0 < 2 by decide) (Nat.le_of_not_le hgt)
    omega
  rw [hpow, hks]
  exact (Nat.dvd_mod_iff (Nat.pow_dvd_pow 2 hk32)).mpr (Nat.pow_dvd_pow 2 hk)

end LoliLoader.Elf2Efi
