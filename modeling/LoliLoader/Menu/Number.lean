/-
# LoliLoader.Menu.Number -- the numbers that are typed and configured

`atou` multiplies a weight by ten once more than it needs to. Beside its model, in which an `int`
wraps around, stands here the same loop with every operation checked.

An `int` that overflows is undefined in C, whatever the value is that is not used any more
afterwards. So for `atou` to be right two things are needed: the number, and no overflow on the way
to it. `AtouExact` has both.

A string of ten digits makes the weight overflow, even if it is a small number with zeros in front.
What is in front of the digits does not matter at all: the loop starts at the end of the string and
stops at the first character that is no digit, where the function returns that the string is no
number. `lastDigits` are the digits it has seen by then.

`atouExact_iff` is the exact condition. For the prompt and the timeout it means numbers of at most
nine digits.
-/
import LoliLoader.Menu.Loop
import Mathlib.Data.List.DropRight

namespace LoliLoader.Menu

open C

/-! ## atou, with its operations checked -/

/-- The result of an operation on `int`, unless it overflows. -/
def checkedInt (i : Int) : Option Int := if -2147483648 ≤ i ∧ i ≤ 2147483647 then some i else none

/-- A turn of the loop of `atou` at the digit `c`: the next `weight` and `res`. -/
def atouDigit (weight res : Int) (c : UInt8) : Option (Int × Int) := do
  let product ← checkedInt (weight * ((c.toNat : Int) - 48))
  let res ← checkedInt (res + product)
  let weight ← checkedInt (weight * 10)
  return (weight, res)

/-- The loop of `atou`; none when an operation overflows. -/
def atouCheckedLoop (s : CString) (weight res : Int) : Nat → Except Fault (Option Int)
  | 0 => .ok (some res)
  | n + 1 => do
    let c ← s.deref n
    if c < 48 ∨ c > 57 then
      return some (-1)
    match atouDigit weight res c with
    | none => return none
    | some (weight, res) => atouCheckedLoop s weight res n

/-- `atou` with every operation checked; none when one of them overflows, although the result might
be right all the same. -/
def atouChecked (s : CString) : Except Fault (Option Int) := do
  if (← s.deref 0) = 0 then
    return some (-1)
  atouCheckedLoop s 1 0 s.length

/-! ## What a string denotes -/

/-- The characters that `atou` takes for digits. -/
def isDecimal (c : UInt8) : Bool := 48 ≤ c ∧ c ≤ 57

/-- The number that decimal digits are for, the first of them the highest, without any bound. -/
def number : List UInt8 → Nat
  | [] => 0
  | c :: cs => (c.toNat - 48) * 10 ^ cs.length + number cs

/-- The string is a decimal number that an `int` can hold. -/
def DenotesInt (s : CString) : Prop :=
  s.bytes ≠ [] ∧ (∀ c ∈ s.bytes, isDecimal c = true) ∧ number s.bytes ≤ 2147483647

instance (s : CString) : Decidable (DenotesInt s) :=
  inferInstanceAs (Decidable (_ ∧ _ ∧ _))

/-- What `atou` is to return: the number, if the string denotes one. -/
def IsAtou (s : CString) (r : Int) : Prop :=
  (DenotesInt s → r = number s.bytes) ∧ (¬ DenotesInt s → r < 0)

/-- `atou` returns what it is to return, and no operation overflows on the way. -/
def AtouExact (s : CString) : Prop :=
  ∃ v : Int32, atou s = .ok v ∧ atouChecked s = .ok (some v.toInt) ∧ IsAtou s v.toInt

/-- The digits at the end of the string: all that `atou` looks at before it comes to another
character. -/
def lastDigits (s : CString) : List UInt8 := s.bytes.rtakeWhile isDecimal

/-! ## The loop -/

section

variable {s : CString} {pre suf : List UInt8}

theorem isDecimal_iff {c : UInt8} : isDecimal c = true ↔ ¬ (c < 48 ∨ c > 57) := by
  rw [isDecimal, decide_eq_true_iff, not_or, UInt8.not_lt, UInt8.not_lt]

theorem isDecimal_toNat {c : UInt8} (h : isDecimal c = true) : 48 ≤ c.toNat ∧ c.toNat ≤ 57 := by
  rw [isDecimal, decide_eq_true_iff, UInt8.le_iff_toNat_le, UInt8.le_iff_toNat_le] at h
  exact h

theorem number_lt (h : ∀ c ∈ suf, isDecimal c = true) : number suf < 10 ^ suf.length := by
  induction suf with
  | nil => exact Nat.one_pos
  | cons c cs ih =>
      rw [List.forall_mem_cons] at h
      have hc := isDecimal_toNat h.1
      have hcs := ih h.2
      have hle : (c.toNat - 48) * 10 ^ cs.length ≤ 9 * 10 ^ cs.length :=
        Nat.mul_le_mul_right _ (by omega)
      rw [number, List.length_cons, Nat.pow_succ]
      omega

theorem checkedInt_of_lt {n : Nat} (h : n < 2 ^ 31) : checkedInt n = some (n : Int) := by
  rw [checkedInt, if_pos (by omega)]

/-- A turn of the loop with at most eight digits behind it. -/
theorem atouDigit_ok {c : UInt8} (hc : isDecimal c = true)
    (hsuf : ∀ c ∈ suf, isDecimal c = true) (hlen : suf.length ≤ 8) :
    atouDigit (10 ^ suf.length : Nat) (number suf : Nat) c
      = some (((10 ^ (c :: suf).length : Nat) : Int), ((number (c :: suf) : Nat) : Int)) := by
  have hdigit := isDecimal_toNat hc
  have hnumber := number_lt (List.forall_mem_cons.mpr ⟨hc, hsuf⟩)
  have hpow : 10 ^ (c :: suf).length ≤ 10 ^ 9 :=
    Nat.pow_le_pow_right (by omega) (by rw [List.length_cons]; omega)
  have hproduct : ((10 ^ suf.length : Nat) : Int) * ((c.toNat : Int) - 48)
      = (((c.toNat - 48) * 10 ^ suf.length : Nat) : Int) := by
    rw [Nat.mul_comm, Nat.cast_mul, Nat.cast_sub hdigit.1]
    rfl
  have hweight : ((10 ^ suf.length : Nat) : Int) * 10 = ((10 ^ (c :: suf).length : Nat) : Int) := by
    rw [List.length_cons, Nat.pow_succ]
    push_cast
    rfl
  have hres : ((number suf : Nat) : Int) + (((c.toNat - 48) * 10 ^ suf.length : Nat) : Int)
      = ((number (c :: suf) : Nat) : Int) := by
    rw [number, Nat.add_comm]
    push_cast
    rfl
  have hle : (c.toNat - 48) * 10 ^ suf.length ≤ number (c :: suf) := by
    rw [number]
    omega
  rw [atouDigit, hproduct, checkedInt_of_lt (by omega)]
  show (checkedInt (_ + _) >>= _) = _
  rw [hres, checkedInt_of_lt (by omega)]
  show (checkedInt (_ * _) >>= _) = _
  rw [hweight, checkedInt_of_lt (by omega)]
  rfl

/-- With nine digits behind it, the weight overflows. -/
theorem atouDigit_none {c : UInt8} (res : Int) (hlen : suf.length = 9) :
    atouDigit (10 ^ suf.length : Nat) res c = none := by
  have hweight : checkedInt (((10 ^ suf.length : Nat) : Int) * 10) = none := by
    rw [hlen, checkedInt, if_neg (by omega)]
  unfold atouDigit
  rw [hweight]
  cases checkedInt (((10 ^ suf.length : Nat) : Int) * ((c.toNat : Int) - 48)) with
  | none => rfl
  | some product =>
      show (checkedInt (res + product) >>= _) = _
      cases checkedInt (res + product) with
      | none => rfl
      | some res => rfl

/-- **The loop**, with the digits `suf` behind it: it overflows exactly if there are more than nine
digits at the end, and else it has seen all of the string or something that is no digit. -/
theorem atouCheckedLoop_eq (hbytes : s.bytes = pre ++ suf)
    (hsuf : ∀ c ∈ suf, isDecimal c = true) (hlen : suf.length ≤ 9) :
    atouCheckedLoop s (10 ^ suf.length : Nat) (number suf : Nat) pre.length
      = .ok (if (pre.rtakeWhile isDecimal).length + suf.length ≤ 9 then
          some (if pre.all isDecimal = true then (number s.bytes : Int) else -1)
        else none) := by
  induction pre using List.reverseRecOn generalizing suf with
  | nil =>
      rw [hbytes, List.nil_append, List.rtakeWhile_nil, List.length_nil, Nat.zero_add,
        if_pos hlen, if_pos List.all_nil]
      rfl
  | append_singleton pre c ih =>
      have hnext : s.bytes = pre ++ (c :: suf) := by rw [hbytes, List.append_assoc]; rfl
      have hat : s.deref pre.length = .ok c := by
        have hget : s.mem[pre.length]? = some c := by
          rw [CString.mem, hnext, List.append_assoc, List.getElem?_append_right (Nat.le_refl _),
            Nat.sub_self]
          rfl
        rw [CString.deref, hget]
      rw [List.length_append, List.length_singleton, atouCheckedLoop, hat]
      show (if c < 48 ∨ c > 57 then _ else _) = _
      by_cases hc : isDecimal c = true
      · rw [if_neg (isDecimal_iff.mp hc), List.rtakeWhile_concat_pos _ _ _ hc,
          List.length_append, List.length_singleton]
        by_cases h9 : suf.length = 9
        · rw [atouDigit_none _ h9, if_neg (by omega)]
          rfl
        · have hdigits : ∀ c' ∈ c :: suf, isDecimal c' = true :=
            List.forall_mem_cons.mpr ⟨hc, hsuf⟩
          have hrest := ih hnext hdigits (by rw [List.length_cons]; omega)
          rw [atouDigit_ok hc hsuf (by omega)]
          show atouCheckedLoop s _ _ pre.length = _
          rw [hrest, List.length_cons]
          have hall : (pre ++ [c]).all isDecimal = pre.all isDecimal := by simp [hc]
          simp only [hall, Nat.add_assoc, Nat.add_comm 1]
      · rw [if_pos (not_not.mp fun h => hc (isDecimal_iff.mpr h)),
          List.rtakeWhile_concat_neg _ _ _ hc, List.length_nil, Nat.zero_add, if_pos hlen,
          if_neg (by simp [hc])]
        rfl

/-- Without an overflow the model that wraps around has the same result. -/
theorem atouLoop_of_checked {weight res v : Int} {n : Nat}
    (h : atouCheckedLoop s weight res n = .ok (some v)) :
    atouLoop s (Int32.ofInt weight) (Int32.ofInt res) n = .ok (Int32.ofInt v) := by
  induction n generalizing weight res with
  | zero => rw [atouLoop, Option.some.inj (Except.ok.inj h)]
  | succ n ih =>
      obtain ⟨c, hc, h⟩ := bind_eq_ok.mp h
      rw [atouLoop, hc]
      show (if c < 48 ∨ c > 57 then _ else _) = _
      by_cases hdigit : c < 48 ∨ c > 57
      · rw [if_pos hdigit] at h
        rw [if_pos hdigit, ← Option.some.inj (Except.ok.inj h)]
        rfl
      · rw [if_neg hdigit] at h
        rw [if_neg hdigit]
        have hvalue : Int32.ofNat c.toNat - 48 = Int32.ofInt ((c.toNat : Int) - 48) := by
          rw [Int32.ofInt_sub, Int32.ofInt_eq_ofNat]
          rfl
        have hnext : ∀ w r, atouDigit weight res c = some (w, r) →
            w = weight * 10 ∧ r = res + weight * ((c.toNat : Int) - 48) := by
          intro w r hdigits
          unfold atouDigit at hdigits
          obtain ⟨product, hproduct, hdigits⟩ := Option.bind_eq_some_iff.mp hdigits
          obtain ⟨r', hr, hdigits⟩ := Option.bind_eq_some_iff.mp hdigits
          obtain ⟨w', hw, hdigits⟩ := Option.bind_eq_some_iff.mp hdigits
          obtain ⟨rfl, rfl⟩ := Prod.mk.inj (Option.some.inj hdigits)
          have hsame : ∀ {i j : Int}, checkedInt i = some j → j = i := by
            intro i j hij
            unfold checkedInt at hij
            split at hij
            · exact (Option.some.inj hij).symm
            · cases hij
          rw [hsame hw, hsame hr, hsame hproduct]
          exact ⟨rfl, rfl⟩
        cases hd : atouDigit weight res c with
        | none =>
            rw [hd] at h
            cases h
        | some wr =>
            rw [hd] at h
            obtain ⟨hw, hr⟩ := hnext _ _ hd
            have hrest := ih h
            rwa [hw, hr, Int32.ofInt_mul, Int32.ofInt_add, Int32.ofInt_mul, ← hvalue] at hrest

end

/-! ## atou -/

theorem number_lt_of_short {s : CString} (h : (lastDigits s).length ≤ 9)
    (hall : ∀ c ∈ s.bytes, isDecimal c = true) : number s.bytes < 10 ^ 9 := by
  have hself : lastDigits s = s.bytes := List.rtakeWhile_eq_self_iff.mpr hall
  rw [hself] at h
  exact Nat.lt_of_lt_of_le (number_lt hall) (Nat.pow_le_pow_right (by omega) h)

theorem atouChecked_eq (s : CString) :
    atouChecked s = .ok (if (lastDigits s).length ≤ 9 then
        some (if s.bytes ≠ [] ∧ s.bytes.all isDecimal = true then (number s.bytes : Int) else -1)
      else none) := by
  have hloop := @atouCheckedLoop_eq s s.bytes [] (by rw [List.append_nil]) (by simp) (by simp)
  have hhead : s.deref 0 = .ok (s.bytes.headD 0) := deref_at (CString.At.zero s)
  rw [atouChecked, hhead]
  show (if s.bytes.headD 0 = 0 then _ else _) = _
  cases hbytes : s.bytes with
  | nil =>
      have hnone : lastDigits s = [] := by rw [lastDigits, hbytes, List.rtakeWhile_nil]
      rw [hnone, List.headD_nil, if_pos rfl, if_pos (by simp), if_neg (by simp)]
      rfl
  | cons c cs =>
      have hc : c ≠ 0 := by
        rintro rfl
        exact s.nul_notMem (by simp [hbytes])
      rw [List.headD_cons, if_neg hc]
      rw [hbytes] at hloop
      simpa [lastDigits, hbytes, CString.length, number] using hloop

theorem atou_of_checked {s : CString} {v : Int} (h : atouChecked s = .ok (some v)) :
    atou s = .ok (Int32.ofInt v) := by
  obtain ⟨c, hc, h⟩ := bind_eq_ok.mp h
  rw [atou, hc]
  show (if c = 0 then _ else _) = _
  by_cases h0 : c = 0
  · rw [if_pos h0] at h
    rw [if_pos h0, ← Option.some.inj (Except.ok.inj h)]
    rfl
  · rw [if_neg h0] at h
    rw [if_neg h0]
    exact atouLoop_of_checked h

/-- What `atou` returns for a string that ends in at most nine digits. -/
theorem atou_short {s : CString} (h : (lastDigits s).length ≤ 9) :
    ∃ v : Int32, atou s = .ok v ∧ atouChecked s = .ok (some v.toInt) ∧
      v.toInt = if DenotesInt s then (number s.bytes : Int) else -1 := by
  have hchecked := atouChecked_eq s
  rw [if_pos h] at hchecked
  have hdenotes : DenotesInt s ↔ s.bytes ≠ [] ∧ s.bytes.all isDecimal = true := by
    rw [List.all_eq_true]
    refine ⟨fun hd => ⟨hd.1, hd.2.1⟩, fun hd => ⟨hd.1, hd.2, ?_⟩⟩
    have hlt := number_lt_of_short h hd.2
    omega
  simp only [← hdenotes] at hchecked
  generalize hr : (if DenotesInt s then (number s.bytes : Int) else -1) = r at hchecked
  have hrange : -2 ^ 31 ≤ r ∧ r < 2 ^ 31 := by
    by_cases hd : DenotesInt s
    · have hle := hd.2.2
      rw [if_pos hd] at hr
      omega
    · rw [if_neg hd] at hr
      omega
  have htoInt : (Int32.ofInt r).toInt = r := Int32.toInt_ofInt_of_le hrange.1 hrange.2
  exact ⟨Int32.ofInt r, atou_of_checked hchecked, by rw [htoInt]; exact hchecked, htoInt⟩

/-- **When `atou` is exact.** A string that ends in more than nine digits makes the weight
overflow, even if it has leading zeros or is a small number. Otherwise a typed number is the entry
that is selected, and a timeout that is none is reported. -/
theorem atouExact_iff (s : CString) :
    (AtouExact s ↔ (lastDigits s).length ≤ 9) ∧
    ((lastDigits s).length ≤ 9 →
      waitForBootEntry (some s) = .ok (if DenotesInt s then (number s.bytes : Int) else -1) ∧
      ∀ cfg, menuGetPair cfg 0 timeoutKey = .ok (some s) →
        menuGetTimeout cfg = .ok (if DenotesInt s then (Int32.ofInt (number s.bytes), [])
          else (0, prErr "invalid timeout \"%s\", use 0 instead\n" [.str s.bytes]))) := by
  refine ⟨⟨?_, ?_⟩, ?_⟩
  · rintro ⟨v, -, hchecked, -⟩
    rw [atouChecked_eq] at hchecked
    by_contra hlong
    rw [if_neg hlong] at hchecked
    cases hchecked
  · intro hshort
    obtain ⟨v, hv, hchecked, hvalue⟩ := atou_short hshort
    refine ⟨v, hv, hchecked, fun hd => ?_, fun hd => ?_⟩
    · rw [hvalue, if_pos hd]
    · rw [hvalue, if_neg hd]
      omega
  · intro hshort
    obtain ⟨v, hv, -, hvalue⟩ := atou_short hshort
    have hsign : (v < 0 ↔ ¬ DenotesInt s) ∧ (0 ≤ v ↔ DenotesInt s) := by
      rw [Int32.lt_iff_toInt_lt, Int32.le_iff_toInt_le, hvalue]
      show (_ < (0 : Int) ↔ _) ∧ ((0 : Int) ≤ _ ↔ _)
      by_cases hd : DenotesInt s <;> simp [hd]
    refine ⟨?_, ?_⟩
    · rw [waitForBootEntry, hv]
      show Except.ok (if v ≥ 0 then v.toInt else -1) = _
      by_cases hd : DenotesInt s
      · rw [if_pos (hsign.2.mpr hd), hvalue]
      · rw [if_neg (fun hge => hd (hsign.2.mp hge)), if_neg hd]
    · intro cfg hpair
      rw [menuGetTimeout, hpair]
      show (atou s >>= _) = _
      rw [hv]
      show (if v < 0 then _ else _) = _
      by_cases hd : DenotesInt s
      · rw [if_neg (fun hlt => hsign.1.mp hlt hd), if_pos hd]
        rw [if_pos hd] at hvalue
        rw [← hvalue, Int32.ofInt_toInt]
        rfl
      · rw [if_pos (hsign.1.mpr hd), if_neg hd]
        rfl

/-- A number with ten digits is typed, and entry 0 is selected. -/
theorem tenDigits_not_exact :
    ¬ AtouExact ⟨ascii "4294967296", by decide⟩ ∧
      waitForBootEntry (some ⟨ascii "4294967296", by decide⟩) = .ok 0 := by
  refine ⟨?_, by decide +kernel⟩
  rintro ⟨v, -, hchecked, -⟩
  have hnone : atouChecked ⟨ascii "4294967296", by decide⟩ = .ok none := by decide +kernel
  rw [hnone] at hchecked
  cases hchecked

end LoliLoader.Menu
