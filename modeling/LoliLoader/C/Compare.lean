/-
# LoliLoader.C.Compare -- strncmp and memcmp

What the two bounded comparisons of src/string.c owe to a caller, and for which arguments they keep
it. Both count down with `size_t`: `strncmp` looks at the count after the characters it is about to
leave, `memcmp` takes two off it for every byte.

What is owed is stated without the code. `FirstDifference` is the first place at which two lists
differ; a comparison of `n` bytes has to return zero if there is none among the first `n`, and else
the sign of the difference there. For strings it must also not read on: `Reader.upTo` is memory of
which only the bytes before `n` may be read, and a function that works on it has kept to the bound.

`strncmp_compares_iff` and `memcmp_compares_iff` say exactly when the promise is kept. Each is
followed by an input on which it is broken.

The lemmas about counts (`count_step`, `count_odd`) are where unsigned arithmetic comes in: an odd
count stays odd also when it goes below zero, so it never reaches the value that ends the loop.
-/
import LoliLoader.C.String
import LoliLoader.C.Buffer

namespace LoliLoader.C

/-! ## Where two lists begin to differ -/

section

variable {α : Type}

/-- `FirstDifference l₁ l₂ i x y`: the lists agree before index `i`, and have `x` and `y` there. -/
inductive FirstDifference : List α → List α → Nat → α → α → Prop
  | here {x y : α} {l₁ l₂ : List α} : x ≠ y → FirstDifference (x :: l₁) (y :: l₂) 0 x y
  | next {a x y : α} {l₁ l₂ : List α} {i : Nat} :
      FirstDifference l₁ l₂ i x y → FirstDifference (a :: l₁) (a :: l₂) (i + 1) x y

namespace FirstDifference

variable {l₁ l₂ : List α} {i : Nat} {x y : α}

theorem ne (h : FirstDifference l₁ l₂ i x y) : x ≠ y := by
  induction h with
  | here hne => exact hne
  | next _ ih => exact ih

theorem take_ne (h : FirstDifference l₁ l₂ i x y) {n : Nat} (hi : i < n) :
    l₁.take n ≠ l₂.take n := by
  induction h generalizing n with
  | here hne =>
      obtain ⟨m, rfl⟩ := Nat.exists_eq_succ_of_ne_zero (Nat.ne_of_gt hi)
      simp [hne]
  | next _ ih =>
      obtain ⟨m, rfl⟩ := Nat.exists_eq_succ_of_ne_zero (by omega : n ≠ 0)
      simpa using ih (by omega)

/-- There is only one. -/
theorem unique (h : FirstDifference l₁ l₂ i x y) {j : Nat} {x' y' : α}
    (h' : FirstDifference l₁ l₂ j x' y') : x' = x ∧ y' = y := by
  induction h generalizing j with
  | here hne =>
      cases h' with
      | here => exact ⟨rfl, rfl⟩
      | next => exact absurd rfl hne
  | next h ih =>
      cases h' with
      | here hne => exact absurd rfl hne
      | next h' => exact ih h'

theorem not_self (l : List α) : ¬ FirstDifference l l i x y := by
  intro h
  exact h.take_ne (Nat.lt_succ_self i) rfl

/-- Lists of one length are equal or begin to differ somewhere. -/
theorem exists_of_ne [DecidableEq α] {l₁ l₂ : List α} {n : Nat} (hlen : l₁.length = l₂.length)
    (hne : l₁.take n ≠ l₂.take n) : ∃ i x y, i < n ∧ FirstDifference l₁ l₂ i x y := by
  induction l₁ generalizing l₂ n with
  | nil =>
      obtain rfl : l₂ = [] := List.length_eq_zero_iff.mp hlen.symm
      exact absurd rfl hne
  | cons a l₁ ih =>
      cases l₂ with
      | nil => cases hlen
      | cons b l₂ =>
          cases n with
          | zero => exact absurd rfl hne
          | succ n =>
              by_cases hab : a = b
              · subst hab
                obtain ⟨i, x, y, hi, h⟩ := ih (n := n) (by simpa using hlen) (by simpa using hne)
                exact ⟨i + 1, x, y, by omega, .next h⟩
              · exact ⟨0, a, b, by omega, .here hab⟩

end FirstDifference

end

/-! ## strncmp -/

/-- What may be read behind a pointer: the byte at each offset, or a fault. -/
abbrev Reader := Nat → Except Fault UInt8

/-- The memory of `m` of which only the bytes before `n` may be read. -/
def Reader.upTo (m : Reader) (n : Nat) : Reader :=
  fun p => if p < n then m p else .error (.read p)

/-- `strncmp` on any memory, which may be that of a string or only a part of it; a read that the
memory does not have is a fault. -/
def strncmpIn (ck : CharKind) (m1 m2 : Reader) (p1 p2 : Nat) : Nat → Except Fault Int
  | 0 => do
    let c ← m1 p1
    let d ← m2 p2
    return ck.val c - ck.val d
  | n + 1 => do
    let c ← m1 p1
    let d ← m2 p2
    if c ≠ 0 ∧ d ≠ 0 ∧ c = d then
      strncmpIn ck m1 m2 (p1 + 1) (p2 + 1) n
    else
      return ck.val c - ck.val d

theorem strncmpIn_deref (ck : CharKind) (s1 s2 : CString) (p1 p2 n : Nat) :
    strncmpIn ck s1.deref s2.deref p1 p2 n = strncmp ck s1 s2 p1 p2 n := by
  induction n generalizing p1 p2 with
  | zero => rfl
  | succ n ih => simp only [strncmpIn, strncmp, ih]

/-- What `strncmp` owes: the first `n` characters of both strings, each cut at its terminator,
are compared, and nothing behind them is read. -/
structure ComparesFirst (ck : CharKind) (s1 s2 : CString) (n : Nat) (d : Int) : Prop where
  zero : d = 0 ↔ s1.bytes.take n = s2.bytes.take n
  sign : ∀ i c1 c2, i < n → FirstDifference s1.mem s2.mem i c1 c2 →
    d.sign = (ck.val c1 - ck.val c2).sign
  reads : strncmpIn ck (Reader.upTo s1.deref n) (Reader.upTo s2.deref n) 0 0 n = .ok d

section

variable {s1 s2 : CString} {p : Nat} {r1 r2 : List UInt8} {n : Nat}

theorem upTo_lt (m : Reader) {p n : Nat} (h : p < n) : m.upTo n p = m p := if_pos h

/-- With the first `n` characters in common, none of them a terminator, the next ones are read. -/
theorem strncmpIn_prefix (ck : CharKind) (h1 : s1.At p r1) (h2 : s2.At p r2)
    (hn1 : n ≤ r1.length) (hn2 : n ≤ r2.length) (heq : r1.take n = r2.take n) :
    strncmpIn ck (Reader.upTo s1.deref (p + n)) (Reader.upTo s2.deref (p + n)) p p n =
      .error (.read (p + n)) := by
  induction n generalizing p r1 r2 with
  | zero => simp [strncmpIn, Reader.upTo, bind, Except.bind]
  | succ n ih =>
      cases r1 with
      | nil => cases hn1
      | cons c r1 =>
          cases r2 with
          | nil => cases hn2
          | cons d r2 =>
              obtain ⟨rfl, htake⟩ : c = d ∧ r1.take n = r2.take n := by simpa using heq
              have hrec := ih h1.tail h2.tail (by simpa using hn1) (by simpa using hn2) htake
              rw [show p + 1 + n = p + (n + 1) by omega] at hrec
              rw [strncmpIn, upTo_lt _ (by omega), upTo_lt _ (by omega), h1.deref_cons,
                h2.deref_cons]
              simp only [bind, Except.bind]
              exact (if_pos ⟨h1.ne_nul, h1.ne_nul, trivial⟩).trans hrec

/-- Where the comparison ends before `n` characters, it needs no others. -/
theorem strncmpIn_ends (ck : CharKind) (h1 : s1.At p r1) (h2 : s2.At p r2)
    (hends : ¬ (n ≤ r1.length ∧ n ≤ r2.length ∧ r1.take n = r2.take n)) :
    ∃ d, strncmpIn ck (Reader.upTo s1.deref (p + n)) (Reader.upTo s2.deref (p + n)) p p n = .ok d ∧
      (d = 0 ↔ r1.take n = r2.take n) ∧
      ∀ i c1 c2, FirstDifference (r1 ++ [0]) (r2 ++ [0]) i c1 c2 → d = ck.val c1 - ck.val c2 := by
  induction n generalizing p r1 r2 with
  | zero => exact absurd ⟨Nat.zero_le _, Nat.zero_le _, rfl⟩ hends
  | succ n ih =>
      rw [strncmpIn, upTo_lt _ (by omega), upTo_lt _ (by omega), deref_at h1, deref_at h2]
      simp only [bind, Except.bind, pure, Except.pure]
      cases r1 with
      | nil =>
          refine ⟨_, if_neg (by simp), ?_, ?_⟩
          · cases r2 with
            | nil => simp
            | cons d r2 => simpa [sub_eq_zero, ck.val_inj] using Ne.symm h2.ne_nul
          · intro i c1 c2 h
            cases r2 with
            | nil => exact absurd h (FirstDifference.not_self _)
            | cons d r2 =>
                obtain ⟨rfl, rfl⟩ := (FirstDifference.here (Ne.symm h2.ne_nul)).unique h
                rfl
      | cons c r1 =>
          cases r2 with
          | nil =>
              refine ⟨_, if_neg (by simp), ?_, ?_⟩
              · simpa [sub_eq_zero, ck.val_inj] using h1.ne_nul
              · intro i c1 c2 h
                obtain ⟨rfl, rfl⟩ := (FirstDifference.here h1.ne_nul).unique h
                rfl
          | cons d r2 =>
              by_cases hcd : c = d
              · subst hcd
                obtain ⟨x, hx, hzero, hdiff⟩ :=
                  ih h1.tail h2.tail (by simpa using hends)
                rw [show p + 1 + n = p + (n + 1) by omega] at hx
                refine ⟨x, ?_, by simpa using hzero, ?_⟩
                · exact (if_pos ⟨h1.ne_nul, h1.ne_nul, rfl⟩).trans hx
                · intro i c1 c2 h
                  cases h with
                  | here hne => exact absurd rfl hne
                  | next h => exact hdiff _ _ _ h
              · refine ⟨_, if_neg (by simp [hcd]), ?_, ?_⟩
                · simp [sub_eq_zero, ck.val_inj, hcd]
                · intro i c1 c2 h
                  obtain ⟨rfl, rfl⟩ := (FirstDifference.here hcd).unique h
                  rfl

/-- More memory does not change what is found in less. -/
theorem strncmpIn_upTo {ck : CharKind} {m1 m2 : Reader} {N p1 p2 : Nat} {d : Int}
    (h : strncmpIn ck (m1.upTo N) (m2.upTo N) p1 p2 n = .ok d) :
    strncmpIn ck m1 m2 p1 p2 n = .ok d := by
  have hread : ∀ {m : Reader} {p : Nat} {c : UInt8}, m.upTo N p = .ok c → m p = .ok c := by
    intro m p c hc
    by_cases hp : p < N
    · rwa [upTo_lt m hp] at hc
    · rw [Reader.upTo, if_neg hp] at hc
      cases hc
  induction n generalizing p1 p2 with
  | zero =>
      rw [strncmpIn] at h
      obtain ⟨c, hc, h⟩ := bind_eq_ok.mp h
      obtain ⟨e, he, h⟩ := bind_eq_ok.mp h
      rw [strncmpIn, hread hc, hread he]
      exact h
  | succ n ih =>
      rw [strncmpIn] at h
      obtain ⟨c, hc, h⟩ := bind_eq_ok.mp h
      obtain ⟨e, he, h⟩ := bind_eq_ok.mp h
      rw [strncmpIn, hread hc, hread he]
      simp only [bind, Except.bind]
      split at h
      · rename_i hgo
        exact (if_pos hgo).trans (ih h)
      · rename_i hstop
        exact (if_neg hstop).trans h

end

/-- **`strncmp` keeps its word** unless the strings have their first `n` characters in common. Then
it goes on to compare the characters behind these, or reads them at least. -/
theorem strncmp_compares_iff (ck : CharKind) (s1 s2 : CString) (n : Nat) :
    (∃ d, strncmp ck s1 s2 0 0 n = .ok d ∧ ComparesFirst ck s1 s2 n d) ↔
      ¬ (n ≤ s1.length ∧ n ≤ s2.length ∧ s1.bytes.take n = s2.bytes.take n) := by
  have hat1 := CString.At.zero s1
  have hat2 := CString.At.zero s2
  constructor
  · rintro ⟨d, -, h⟩ ⟨hn1, hn2, heq⟩
    have hreads := h.reads
    have hfault := strncmpIn_prefix ck hat1 hat2 hn1 hn2 heq
    rw [Nat.zero_add] at hfault
    rw [hfault] at hreads
    cases hreads
  · intro hends
    obtain ⟨d, hd, hzero, hdiff⟩ := strncmpIn_ends ck hat1 hat2 hends
    rw [Nat.zero_add] at hd
    refine ⟨d, ?_, hzero, ?_, hd⟩
    · rw [← strncmpIn_deref]
      exact strncmpIn_upTo hd
    · intro i c1 c2 _ h
      rw [hdiff i c1 c2 h]

/-- One character too many is read, and its difference returned: two strings with the same first
character are compared as different when only that one is asked for. -/
theorem strncmp_reads_past_bound :
    ∃ (s1 s2 : CString) (n : Nat), ¬ ∃ d, strncmp .signed s1 s2 0 0 n = .ok d ∧
      ComparesFirst .signed s1 s2 n d := by
  refine ⟨⟨ascii "ab", by decide⟩, ⟨ascii "ac", by decide⟩, 1, ?_⟩
  rintro ⟨d, hd, h⟩
  have hval : strncmp .signed ⟨ascii "ab", by decide⟩ ⟨ascii "ac", by decide⟩ 0 0 1 = .ok (-1) := by
    decide +kernel
  obtain rfl := Except.ok.inj (hd.symm.trans hval)
  exact absurd (h.zero.mpr (by decide +kernel)) (by decide)

/-! ## memcmp -/

/-- The loop of `memcmp`, at byte `i` of both buffers. `len` is taken off once by the test and once
more at the end of the body. -/
def memcmpLoop (ck : CharKind) (a b : Buffer) (i : Nat) (len : UInt64) : Except Fault Int :=
  if len = 0 then .ok 0
  else if h : i < a.size then do
    let c := a[i]
    let d ← b.load i
    if c ≠ d then
      return ck.val c - ck.val d
    memcmpLoop ck a b (i + 1) (len - 1 - 1)
  else .error (.read i)
termination_by a.size - i

/-- `memcmp`, on two blocks; the bytes are compared as plain `char`s, from the front. -/
def memcmp (ck : CharKind) (a b : Buffer) (len : UInt64) : Except Fault Int :=
  memcmpLoop ck a b 0 len

/-- What `memcmp` owes for buffers that end behind their last byte to compare: zero for equal ones,
else the sign of the first difference. -/
structure ComparesAll (ck : CharKind) (a b : Buffer) (d : Int) : Prop where
  zero : d = 0 ↔ a = b
  first : ∀ i x y, FirstDifference a.toList b.toList i x y → d = ck.val x - ck.val y

section

variable {ck : CharKind} {a b : Buffer}

/-- What is left of a count after one byte. -/
theorem count_step {len : UInt64} (h : 2 ≤ len.toNat) : (len - 1 - 1).toNat = len.toNat - 2 := by
  have h1 : (1 : UInt64).toNat = 1 := rfl
  have hone : (len - 1).toNat = len.toNat - 1 := by
    rw [UInt64.toNat_sub_of_le _ _ (by rw [UInt64.le_iff_toNat_le, h1]; omega), h1]
  rw [UInt64.toNat_sub_of_le _ _ (by rw [UInt64.le_iff_toNat_le, hone, h1]; omega), hone, h1]
  omega

/-- An odd count stays odd, also when it starts over below zero. -/
theorem count_odd {len : UInt64} (h : len.toNat % 2 = 1) : (len - 1 - 1).toNat % 2 = 1 := by
  have hlt := len.toNat_lt
  have h1 : (1 : UInt64).toNat = 1 := rfl
  rw [UInt64.toNat_sub, UInt64.toNat_sub, h1]
  omega

/-- A count that gets past `j` bytes, being odd or large enough, is not zero. -/
theorem ne_zero_of_count {len : UInt64} {j : Nat} (h : len.toNat % 2 = 1 ∨ j < len.toNat / 2) :
    len ≠ 0 := by
  rintro rfl
  rcases h with h | h <;> cases h

theorem ne_zero_of_odd {len : UInt64} (h : len.toNat % 2 = 1) : len ≠ 0 :=
  ne_zero_of_count (j := 0) (Or.inl h)

/-- The loop goes on past a byte that is the same in both. -/
theorem memcmpLoop_same {i : Nat} {len : UInt64} (hlen : len ≠ 0) (ha : i < a.size)
    (hb : i < b.size) (heq : a[i] = b[i]) :
    memcmpLoop ck a b i len = memcmpLoop ck a b (i + 1) (len - 1 - 1) := by
  rw [memcmpLoop, if_neg hlen, dif_pos ha, Buffer.load_lt hb]
  simp [bind, Except.bind, heq]

theorem getElem_of_drop {i : Nat} {c : UInt8} {l : List UInt8} (h : a.toList.drop i = c :: l) :
    ∃ hi : i < a.size, a[i] = c ∧ a.toList.drop (i + 1) = l := by
  have hi : i < a.size := by
    by_contra hge
    rw [List.drop_eq_nil_of_le (by simpa using hge)] at h
    cases h
  rw [List.drop_eq_getElem_cons (by simpa using hi)] at h
  obtain ⟨hc, hl⟩ := List.cons.inj h
  exact ⟨hi, by simpa using hc, hl⟩

/-- The first difference is found, if the count does not reach zero before. -/
theorem memcmpLoop_difference {i j : Nat} {l1 l2 : List UInt8} {x y : UInt8}
    (h : FirstDifference l1 l2 j x y) (ha : a.toList.drop i = l1) (hb : b.toList.drop i = l2)
    {len : UInt64} (hlen : len.toNat % 2 = 1 ∨ j < len.toNat / 2) :
    memcmpLoop ck a b i len = .ok (ck.val x - ck.val y) := by
  have hne := ne_zero_of_count hlen
  induction h generalizing i len with
  | @here x y l1 l2 hxy =>
      obtain ⟨hi, rfl, -⟩ := getElem_of_drop ha
      obtain ⟨hj, rfl, -⟩ := getElem_of_drop hb
      rw [memcmpLoop, if_neg hne, dif_pos hi, Buffer.load_lt hj]
      simp [bind, Except.bind, hxy, pure, Except.pure]
  | @next c x y l1 l2 j h ih =>
      obtain ⟨hi, hac, ha⟩ := getElem_of_drop ha
      obtain ⟨hj, hbc, hb⟩ := getElem_of_drop hb
      rw [memcmpLoop_same hne hi hj (hac.trans hbc.symm)]
      have hlen' : (len - 1 - 1).toNat % 2 = 1 ∨ j < (len - 1 - 1).toNat / 2 := by
        rcases hlen with hodd | hlt
        · exact Or.inl (count_odd hodd)
        · rw [count_step (by omega)]
          omega
      exact ih ha hb hlen' (ne_zero_of_count hlen')

/-- A count of `2 * k` reaches zero after `k` bytes. -/
theorem memcmpLoop_half {i k : Nat} (ha : i + k ≤ a.size) (hb : i + k ≤ b.size)
    (heq : (a.toList.drop i).take k = (b.toList.drop i).take k) {len : UInt64}
    (hlen : len.toNat = 2 * k) : memcmpLoop ck a b i len = .ok 0 := by
  induction k generalizing i len with
  | zero =>
      obtain rfl : len = 0 := UInt64.toNat_inj.mp hlen
      rw [memcmpLoop, if_pos rfl]
  | succ k ih =>
      have hne : len ≠ 0 := by
        rintro rfl
        cases hlen
      have hai : i < a.toList.length := by
        rw [Array.length_toList]
        omega
      have hbi : i < b.toList.length := by
        rw [Array.length_toList]
        omega
      rw [List.drop_eq_getElem_cons hai, List.drop_eq_getElem_cons hbi, List.take_succ_cons,
        List.take_succ_cons] at heq
      obtain ⟨hc, hrest⟩ := List.cons.inj heq
      rw [memcmpLoop_same hne (by omega) (by omega) (by simpa using hc)]
      exact ih (by omega) (by omega) hrest (by rw [count_step (by omega)]; omega)

/-- An odd count never reaches zero: on equal buffers the loop runs out of them. -/
theorem memcmpLoop_odd {i : Nat} (hi : i ≤ a.size) {len : UInt64} (hlen : len.toNat % 2 = 1) :
    memcmpLoop ck a a i len = .error (.read a.size) := by
  induction hn : a.size - i generalizing i len with
  | zero =>
      obtain rfl : i = a.size := by omega
      rw [memcmpLoop, if_neg (ne_zero_of_odd hlen), dif_neg (by omega)]
  | succ n ih =>
      rw [memcmpLoop_same (ne_zero_of_odd hlen) (by omega) (by omega) rfl]
      exact ih (by omega) (count_odd hlen) (by omega)

end

/-- **`memcmp` keeps its word** for an odd length when the buffers differ, and for an even length
when they are equal or differ in the first half. -/
theorem memcmp_compares_iff (ck : CharKind) {a b : Buffer} {len : UInt64}
    (ha : a.size = len.toNat) (hb : b.size = len.toNat) :
    (∃ d, memcmp ck a b len = .ok d ∧ ComparesAll ck a b d) ↔
      if len.toNat % 2 = 1 then a ≠ b
      else a = b ∨ a.toList.take (len.toNat / 2) ≠ b.toList.take (len.toNat / 2) := by
  have hlen : a.toList.length = b.toList.length := by simp [ha, hb]
  -- what is found when there is a difference early enough
  have hfound : ∀ {i x y}, FirstDifference a.toList b.toList i x y →
      (len.toNat % 2 = 1 ∨ i < len.toNat / 2) →
      ∃ d, memcmp ck a b len = .ok d ∧ ComparesAll ck a b d := by
    intro i x y h hi
    refine ⟨_, memcmpLoop_difference h rfl rfl hi, ?_, ?_⟩
    · refine ⟨fun h0 => absurd (ck.val_inj.mp (sub_eq_zero.mp h0)) h.ne, ?_⟩
      rintro rfl
      exact absurd h (FirstDifference.not_self _)
    · intro j x' y' h'
      obtain ⟨rfl, rfl⟩ := h.unique h'
      rfl
  split
  · rename_i hodd
    constructor
    · rintro ⟨d, hd, -⟩ rfl
      rw [memcmp, memcmpLoop_odd (Nat.zero_le _) hodd] at hd
      cases hd
    · intro hne
      have htake : a.toList.take a.size ≠ b.toList.take a.size := by
        rw [List.take_of_length_le (by simp), List.take_of_length_le (by simp [ha, hb])]
        exact fun h => hne (Array.toList_inj.mp h)
      obtain ⟨i, x, y, -, h⟩ := FirstDifference.exists_of_ne hlen htake
      exact hfound h (Or.inl hodd)
  · rename_i heven
    constructor
    · rintro ⟨d, hd, h⟩
      by_contra hnot
      obtain ⟨hne, hhalf⟩ := not_or.mp hnot
      rw [memcmp, memcmpLoop_half (k := len.toNat / 2) (by omega) (by omega)
        (by simpa using hhalf) (by omega)] at hd
      exact hne (h.zero.mp (Except.ok.inj hd).symm)
    · rintro (rfl | hhalf)
      · have hzero : memcmp ck a a len = .ok 0 :=
          memcmpLoop_half (k := len.toNat / 2) (by omega) (by omega) rfl (by omega)
        refine ⟨0, hzero, ?_, ?_⟩
        · simp
        · intro i x y h
          exact absurd h (FirstDifference.not_self _)
      · obtain ⟨i, x, y, hi, h⟩ := FirstDifference.exists_of_ne hlen hhalf
        exact hfound h (Or.inr hi)

theorem memcmp_compares_iff_three :
    (∃ d, memcmp .signed #[1, 2, 3] #[1, 2, 4] 3 = .ok d ∧
      ComparesAll .signed #[1, 2, 3] #[1, 2, 4] d) ↔
      if (3 : UInt64).toNat % 2 = 1 then (#[1, 2, 3] : Buffer) ≠ #[1, 2, 4]
      else (#[1, 2, 3] : Buffer) = #[1, 2, 4] ∨
        (#[1, 2, 3] : Buffer).toList.take ((3 : UInt64).toNat / 2) ≠
          (#[1, 2, 4] : Buffer).toList.take ((3 : UInt64).toNat / 2) :=
  memcmp_compares_iff .signed rfl rfl

/-- Two bytes are counted for each that is compared: the second of two is not looked at. -/
theorem memcmp_second_byte_skipped :
    ∃ (a b : Buffer) (len : UInt64), a.size = len.toNat ∧ b.size = len.toNat ∧
      ¬ ∃ d, memcmp .signed a b len = .ok d ∧ ComparesAll .signed a b d := by
  refine ⟨#[1, 2], #[1, 3], 2, rfl, rfl, ?_⟩
  rintro ⟨d, hd, h⟩
  have hval : memcmp .signed #[1, 2] #[1, 3] 2 = .ok 0 := by
    decide +kernel
  obtain rfl := Except.ok.inj (hd.symm.trans hval)
  exact absurd (h.zero.mp rfl) (by decide)

end LoliLoader.C
