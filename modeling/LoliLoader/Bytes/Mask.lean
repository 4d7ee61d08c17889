/-
# LoliLoader.Bytes.Mask -- rounding by masks

C code rounds up to a power of two by adding the mask of its low bits and clearing them again.
`andNot` is the clearing, on natural numbers, and `RoundedUp a x r` says what the result is good
for: `r` is the least multiple of `a` from `x` on.

The bridge is `roundedUp_andNot`: for a power of two the trick with the mask gives the rounded
number. From there on nobody needs the bits. `RoundedUp` has the facts that proofs about layouts
use: there is only one such number (`unique`), it grows with `x` (`mono`), and a multiple in front
is rounded along (`add_dvd`).

The result is not bounded. Where the code computes in words of some width, the caller has to say
that the sum fits, since a sum that wraps around is cleared to something smaller.
-/
import Mathlib.Algebra.Ring.Nat
import Mathlib.Algebra.Order.Ring.Nat

namespace LoliLoader.Bytes

/-- `x & ~m`, on natural numbers: the bits of `m` are cleared, and there is no width in which to
take the complement. -/
def andNot (x m : Nat) : Nat := x ^^^ (x &&& m)

theorem testBit_andNot (x m i : Nat) : (andNot x m).testBit i = (x.testBit i && !m.testBit i) := by
  rw [andNot, Nat.testBit_xor, Nat.testBit_and]
  cases x.testBit i <;> simp

theorem andNot_two_pow_sub_one (x k : Nat) : andNot x (2 ^ k - 1) = x / 2 ^ k * 2 ^ k := by
  apply Nat.eq_of_testBit_eq
  intro i
  rw [testBit_andNot, Nat.testBit_two_pow_sub_one, Nat.testBit_mul_two_pow,
    Nat.testBit_div_two_pow]
  by_cases h : i < k
  · simp [h]
  · have hle : k ≤ i := Nat.le_of_not_lt h
    simp [h, hle]

/-- `y` is the least multiple of `a` from `x` on. The second field says that it is the least one:
the multiple before it is below `x`. -/
structure RoundedUp (x a y : Nat) : Prop where
  le : x ≤ y
  lt : y < x + a
  dvd : a ∣ y

theorem roundedUp_andNot (x k : Nat) :
    RoundedUp x (2 ^ k) (andNot (x + 2 ^ k - 1) (2 ^ k - 1)) := by
  have hpos := Nat.two_pow_pos k
  have hsum := Nat.div_add_mod' (x + 2 ^ k - 1) (2 ^ k)
  have hlt := Nat.mod_lt (x + 2 ^ k - 1) hpos
  rw [andNot_two_pow_sub_one]
  exact ⟨by omega, by omega, Nat.dvd_mul_left _ _⟩

namespace RoundedUp

variable {x y a b c : Nat}

/-- No multiple from `x` on is smaller. -/
theorem le_of_dvd (h : RoundedUp x a y) (hb : a ∣ b) (hle : x ≤ b) : y ≤ b := by
  by_contra hlt
  obtain ⟨i, rfl⟩ := h.dvd
  obtain ⟨j, rfl⟩ := hb
  have hij : j + 1 ≤ i := by
    by_contra hle'
    exact hlt (Nat.mul_le_mul_left a (by omega))
  have hmul := Nat.mul_le_mul_left a hij
  have := h.lt
  rw [Nat.mul_add, Nat.mul_one] at hmul
  omega

theorem unique (h : RoundedUp x a y) (h' : RoundedUp x a b) : y = b :=
  Nat.le_antisymm (h.le_of_dvd h'.dvd h'.le) (h'.le_of_dvd h.dvd h.le)

theorem mono {x' y' : Nat} (h : RoundedUp x a y) (h' : RoundedUp x' a y') (hle : x ≤ x') :
    y ≤ y' :=
  h.le_of_dvd h'.dvd (Nat.le_trans hle h'.le)

/-- A multiple in front is rounded along. -/
theorem add_dvd (h : RoundedUp x a y) (hc : a ∣ c) : RoundedUp (c + x) a (c + y) where
  le := Nat.add_le_add_left h.le c
  lt := by
    have := h.lt
    omega
  dvd := Nat.dvd_add hc h.dvd

end RoundedUp

end LoliLoader.Bytes
