/-
# LoliLoader.C.String -- src/string.c

The string functions that the menu uses, on checked C strings. Plain `char` is signed on some
targets of the loader and unsigned on others, so a function that computes with a character takes the
`CharKind` of the target, and what is proved of it holds for both kinds.

`strncmp` is translated with its slip: once the bound is used up, or a string ends, the current
characters are still read and subtracted. So the comparison looks one character past its bound
(`strncmp_at`). What follows for the callers is said where they are modelled, and which inputs show
it in `C.Compare`.

`atou` walks from the last character down to the first and keeps the weight of a digit in an `int`.
Neither the weight nor the sum is checked, and here both wrap around; when the result is the number
that is written in the string is a question of its own, answered in `Menu.Number`.

`strscpy` copies what fits. Its callers allocate one byte more than they copy, so that it always
takes all of it (`strscpy_at`).
-/
import LoliLoader.C.Memory
import Mathlib.Tactic.IntervalCases

namespace LoliLoader.C

/-- Signedness of plain `char` on the target. The loader is built for targets of both kinds. -/
inductive CharKind where
  | signed
  | unsigned
  deriving DecidableEq, Repr

/-- A `char` promoted to `int`, with its sign if it has one. -/
def CharKind.val : CharKind → UInt8 → Int
  | .signed, c => c.toInt8.toInt
  | .unsigned, c => c.toNat

theorem CharKind.val_inj (ck : CharKind) {c d : UInt8} : ck.val c = ck.val d ↔ c = d := by
  cases ck with
  | signed =>
      rw [CharKind.val, CharKind.val, Int8.toInt_inj]
      exact ⟨fun h => by simpa using congrArg Int8.toUInt8 h, congrArg _⟩
  | unsigned => simp [CharKind.val, UInt8.toNat_inj]

/-! ## Comparison -/

/-- `strncmp`. Once the bound is used up, or a string ends, the current characters
are still read and subtracted. -/
def strncmp (ck : CharKind) (s1 s2 : CString) (p1 p2 : Nat) : Nat → Except Fault Int
  | 0 => do
    let c ← s1.deref p1
    let d ← s2.deref p2
    return ck.val c - ck.val d
  | n + 1 => do
    let c ← s1.deref p1
    let d ← s2.deref p2
    if c ≠ 0 ∧ d ≠ 0 ∧ c = d then
      strncmp ck s1 s2 (p1 + 1) (p2 + 1) n
    else
      return ck.val c - ck.val d

/-! ## Copies -/

/-- The loop of `strscpy`, with `n` characters of room besides the terminator. -/
def strscpyLoop (s : CString) (src : Nat) : Nat → Except Fault (List UInt8)
  | 0 => .ok [0]
  | n + 1 => do
    let c ← s.deref src
    if c = 0 then
      return [0]
    return c :: (← strscpyLoop s (src + 1) n)

/-- `strscpy`: the bytes it stores. Every caller passes a positive `dstlen`. -/
def strscpy (s : CString) (src dstlen : Nat) : Except Fault (List UInt8) :=
  strscpyLoop s src (dstlen - 1)

/-! ## Numbers -/

/-- The loop of `atou`, from the last of the first `n` characters down to the first. -/
def atouLoop (s : CString) (weight res : Int32) : Nat → Except Fault Int32
  | 0 => .ok res
  | n + 1 => do
    let c ← s.deref n
    if c < 48 ∨ c > 57 then
      return -1
    atouLoop s (weight * 10) (res + weight * (Int32.ofNat c.toNat - 48)) n

/-- `atou`: the number that the string is for, or -1 if it is empty or one of the characters that
are looked at is no digit. -/
def atou (s : CString) : Except Fault Int32 := do
  if (← s.deref 0) = 0 then
    return -1
  atouLoop s 1 0 s.length

/-! ## What they compute -/

section

variable {s s1 s2 : CString} {p p1 p2 : Nat} {r r1 r2 : List UInt8}

theorem deref_at (h : s.At p r) : s.deref p = .ok (r.headD 0) := by
  cases r with
  | nil => exact h.deref_nil
  | cons c r => exact h.deref_cons

/-- **The bounded comparison looks one character past its bound.** It is zero exactly
when the first `n + 1` characters agree, terminators included. -/
theorem strncmp_at (ck : CharKind) (n : Nat) (h1 : s1.At p1 r1) (h2 : s2.At p2 r2) :
    ∃ d, strncmp ck s1 s2 p1 p2 n = .ok d ∧
      (d = 0 ↔ (r1 ++ [0]).take (n + 1) = (r2 ++ [0]).take (n + 1)) := by
  induction n generalizing p1 p2 r1 r2 with
  | zero =>
      refine ⟨ck.val (r1.headD 0) - ck.val (r2.headD 0), ?_, ?_⟩
      · simp [strncmp, deref_at h1, deref_at h2, bind, Except.bind, pure, Except.pure]
      · rw [sub_eq_zero, ck.val_inj]
        cases r1 <;> cases r2 <;> simp
  | succ n ih =>
      rw [strncmp, deref_at h1, deref_at h2]
      simp only [bind, Except.bind, pure, Except.pure]
      split
      · -- both strings go on with the same character
        rename_i hgo
        obtain ⟨hc, hd, hcd⟩ := hgo
        cases r1 with
        | nil => exact absurd rfl hc
        | cons c r1 =>
            cases r2 with
            | nil => exact absurd rfl hd
            | cons d r2 =>
                obtain rfl : c = d := hcd
                obtain ⟨x, hx, hiff⟩ := ih h1.tail h2.tail
                exact ⟨x, hx, by simpa using hiff⟩
      · rename_i hstop
        -- the comparison ends here, on two different characters or on two terminators
        refine ⟨_, rfl, ?_⟩
        rw [sub_eq_zero, ck.val_inj]
        cases r1 with
        | nil =>
            cases r2 with
            | nil => simp
            | cons d r2 => simp [Ne.symm h2.ne_nul]
        | cons c r1 =>
            cases r2 with
            | nil => simp [h1.ne_nul]
            | cons d r2 =>
                have hcd : ¬ c = d := by simpa [h1.ne_nul, h2.ne_nul] using hstop
                simp [hcd]

/-- A copy of a value that fits takes all of it. -/
theorem strscpy_at (h : s.At p r) (n : Nat) :
    strscpy s p (n + 1) = .ok (r.take n ++ [0]) := by
  rw [strscpy, Nat.add_sub_cancel]
  induction n generalizing p r with
  | zero => simp [strscpyLoop]
  | succ n ih =>
      cases r with
      | nil => simp [strscpyLoop, h.deref_nil, bind, Except.bind, pure, Except.pure]
      | cons c r =>
          simp [strscpyLoop, h.deref_cons, h.ne_nul, ih h.tail, bind, Except.bind, pure,
            Except.pure]

end

end LoliLoader.C
