/-
# LoliLoader.C.Format -- vsprintf of src/string.c

The formatter of src/string.c stores to a buffer whose size it is not told. Every store is checked
here, so the result of `vsprintf` says whether it has stayed inside, and what ends up in the buffer
is the text of the format with its arguments.

The model follows the loop of the source. A format is first taken apart into directives, each of
which is one turn of that loop; then the turns are made one after the other, with the place in the
buffer where the text ends so far. Three things are kept although no message of the loader depends
on them: an unknown conversion prints with the base of the number before it, an argument of the
wrong kind is a fault, and a format that ends within a directive has nothing to end the loop.

`itoa_n` produces the digits backwards and swaps them afterwards. `Begins.itoaN` is the lemma that
its two loops together store the digits in order.

`vsprintf_ok` is the result: the call stays inside the buffer exactly if there is room for the text
and its end. The text is `formatText`, a function without buffers. What it is in terms of ordinary
numbers is said in `C.Printf`.
-/
import LoliLoader.C.Buffer
import LoliLoader.C.Console
import Mathlib.Data.Nat.Digits.Defs

namespace LoliLoader.C

/-! ## Formats -/

/-- What `vsprintf` does at a place of its format: a turn of its loop copies a character or converts
an argument. -/
inductive Directive where
  /-- copy a character -/
  | char (c : UInt8)
  /-- `%s` -/
  | str
  /-- `%c` -/
  | chr
  /-- a number, from a `long` or an `int` -/
  | int (longValue : Bool) (conversion : UInt8)
  deriving DecidableEq, Repr

/-- A format, taken apart as in `vsprintf`. One that ends within a directive has nothing to
end the loop. -/
def directives : List UInt8 → Option (List Directive)
  | [] => some []
  | c :: format =>
    if c ≠ 37 then (directives format).map (.char c :: ·)
    else match format with
      | [] => none
      | k :: format =>
        if k = 37 then (directives format).map (.char 37 :: ·)
        else if k = 115 then (directives format).map (.str :: ·)
        else if k = 99 then (directives format).map (.chr :: ·)
        else if k = 112 then (directives format).map (.int true 112 :: ·)
        else if k = 108 then
          match format with
          | [] => none
          | k :: format => (directives format).map (.int true k :: ·)
        else (directives format).map (.int false k :: ·)

/-! ## Arguments -/

/-- `va_arg(va, int)`. There must be such an argument. -/
def vaInt : List Arg → Except Fault (Int × List Arg)
  | .int i :: va => .ok (i.bmod (2 ^ 32), va)
  | _ => .error .null

/-- `va_arg(va, long int)`. There must be such an argument; a string in its place is undefined in C
and a fault here. -/
def vaLong : List Arg → Except Fault (Int × List Arg)
  | .int i :: va => .ok (i.bmod (2 ^ 64), va)
  | _ => .error .null

/-- The argument of a conversion to a number: a `long` if the flag `l` was given or the conversion
implies it, else an `int`. -/
def vaNumber (longValue : Bool) (va : List Arg) : Except Fault (Int × List Arg) :=
  if longValue then vaLong va else vaInt va

/-- `va_arg(va, const char *)`. There must be a string, and it is not null. -/
def vaStr : List Arg → Except Fault (List UInt8 × List Arg)
  | .str s :: va => .ok (s, va)
  | _ => .error .null

/-! ## Numbers -/

/-- The bases of `vsprintf`: no conversion asks for any other. -/
inductive Base where
  | ten
  | sixteen
  deriving DecidableEq, Repr

/-- The base as the number that `itoa_n` divides by. -/
def Base.val : Base → Nat
  | ten => 10
  | sixteen => 16

theorem Base.two_le (base : Base) : 2 ≤ base.val := by
  cases base <;> decide

/-- The digits of all bases, in the order of the source. -/
def digits : List UInt8 := ascii "0123456789abcdef"

/-- The first loop of `itoa_n`: the digits of `n`, the last one first, behind `len` others. -/
def itoaDigits (b : Buffer) (out : Nat) (base : Base) (n len : Nat) :
    Except Fault (Buffer × Nat) :=
  if _h : n = 0 then .ok (b, len)
  else do
    let b ← b.store (out + len) (digits.getD (n % base.val) 0)
    itoaDigits b out base (n / base.val) (len + 1)
termination_by n
decreasing_by exact Nat.div_lt_self (by omega) base.two_le

/-- The body of the second loop of `itoa_n`: the digits at `i` and at the same distance from the end
change places. -/
def itoaSwap (out len : Nat) (b : Buffer) (i : Nat) : Except Fault Buffer := do
  let tmp ← b.load (out + len - i - 1)
  let b ← b.store (out + len - i - 1) (← b.load (out + i))
  b.store (out + i) tmp

/-- `itoa_n`: the buffer, and the number of digits. -/
def itoaN (b : Buffer) (out n : Nat) (base : Base) : Except Fault (Buffer × Nat) :=
  if n = 0 then do
    let b ← b.store out 48
    return (b, 1)
  else do
    let (b, len) ← itoaDigits b out base n 0
    let b ← (List.range (len / 2)).foldlM (itoaSwap out len) b
    return (b, len)

/-! ## vsprintf -/

/-- `strcpy`, which is not told the size of the block: the bytes of the string and its terminator
are stored. -/
def strcpy (b : Buffer) (dst : Nat) (src : List UInt8) : Except Fault Buffer :=
  b.storeBytes dst (src ++ [0])

/-- What is stored in front of a number, its magnitude, and the base; an unknown conversion
keeps the base of the number before. -/
def numberStart (conversion : UInt8) (value : Int) (base : Base) : List UInt8 × Int × Base :=
  if conversion = 100 then
    if value < 0 then ([45], -value, .ten) else ([], value, .ten)
  else if conversion = 117 then ([], value, .ten)
  else if conversion = 112 then ([48, 120], value, .sixteen)
  else if conversion = 120 then ([], value, .sixteen)
  else ([], value, base)

/-- `longValue ? value : (value & 0xffffffff)` as an `unsigned long`. -/
def unsignedOf (longValue : Bool) (value : Int) : Nat :=
  (value % if longValue then 2 ^ 64 else 2 ^ 32).toNat

/-- The loop of `vsprintf`, at `p` in the buffer. -/
def vsprintfLoop (b : Buffer) (p : Nat) (base : Base) :
    List Directive → List Arg → Except Fault Buffer
  | [], _ => b.store p 0
  | .char c :: format, va => do
    let b ← b.store p c
    vsprintfLoop b (p + 1) base format va
  | .str :: format, va => do
    let (src, va) ← vaStr va
    let b ← strcpy b p src
    vsprintfLoop b (p + src.length) base format va
  | .chr :: format, va => do
    let (c, va) ← vaInt va
    let b ← b.store p (UInt8.ofInt c)
    vsprintfLoop b (p + 1) base format va
  | .int longValue conversion :: format, va => do
    let (value, va) ← vaNumber longValue va
    let (start, value, base) := numberStart conversion value base
    let b ← b.storeBytes p start
    let (b, len) ← itoaN b (p + start.length) (unsignedOf longValue value) base
    vsprintfLoop b (p + start.length + len) base format va

/-- `vsprintf`, to the start of a buffer. A format that ends within a directive makes it read behind
the end of the format. -/
def vsprintf (b : Buffer) (format : List UInt8) (va : List Arg) : Except Fault Buffer :=
  match directives format with
  | none => .error (.read (format.length + 1))
  | some format => vsprintfLoop b 0 .ten format va

/-! ## Texts -/

/-- The digits of a number, the highest first, and a single zero for zero. -/
def itoaText (base : Base) (n : Nat) : List UInt8 :=
  if n = 0 then [48] else ((Nat.digits base.val n).map fun d => digits.getD d 0).reverse

/-- The text of a format, if its arguments are of the right types. -/
def formatText (base : Base) : List Directive → List Arg → Option (List UInt8)
  | [], _ => some []
  | .char c :: format, va => (formatText base format va).map (c :: ·)
  | .str :: format, .str s :: va => (formatText base format va).map (s ++ ·)
  | .chr :: format, .int i :: va =>
    (formatText base format va).map (UInt8.ofInt (i.bmod (2 ^ 32)) :: ·)
  | .int longValue conversion :: format, .int i :: va =>
    let number := numberStart conversion (i.bmod (if longValue then 2 ^ 64 else 2 ^ 32)) base
    (formatText number.2.2 format va).map fun text =>
      number.1 ++ (itoaText number.2.2 (unsignedOf longValue number.2.1) ++ text)
  | _, _ => none

/-! ## The buffer while it is filled -/

/-- The buffer starts with `text`; what is behind that is left open. -/
def Begins (b : Buffer) (text : List UInt8) : Prop := ∀ k < text.length, b[k]? = text[k]?

section

variable {b : Buffer} {text : List UInt8}

theorem Begins.length_le (h : Begins b text) : text.length ≤ b.size := by
  by_contra hlt
  have hk : b.size < text.length := by omega
  have hget := h b.size hk
  rw [Array.getElem?_eq_none (Nat.le_refl _), List.getElem?_eq_getElem hk] at hget
  cases hget

theorem Begins.of_append {more : List UInt8} (h : Begins b (text ++ more)) : Begins b text := by
  intro k hk
  rw [h k (by rw [List.length_append]; omega), List.getElem?_append_left hk]

theorem Begins.storeBytes (h : Begins b text) (cs : List UInt8)
    (hroom : text.length + cs.length ≤ b.size) :
    ∃ m, b.storeBytes text.length cs = .ok m ∧ m.size = b.size ∧ Begins m (text ++ cs) := by
  obtain ⟨m, hm, hsize, hget⟩ := Buffer.storeBytes_is cs hroom
  refine ⟨m, hm, hsize, ?_⟩
  intro k hk
  rw [List.length_append] at hk
  rw [hget]
  by_cases hin : k < text.length
  · rw [if_neg (by omega), h k hin, List.getElem?_append_left hin]
  · rw [if_pos ⟨by omega, hk⟩, List.getElem?_append_right (by omega)]

theorem Begins.store (h : Begins b text) (c : UInt8) (hroom : text.length < b.size) :
    ∃ m, b.store text.length c = .ok m ∧ m.size = b.size ∧ Begins m (text ++ [c]) := by
  obtain ⟨m, hm, hsize, hbegins⟩ := h.storeBytes [c] hroom
  refine ⟨m, ?_, hsize, hbegins⟩
  rw [Buffer.storeBytes] at hm
  obtain ⟨m', hm', hrest⟩ := bind_eq_ok.mp hm
  rw [hm', Except.ok.inj hrest]

theorem Begins.strcpy (h : Begins b text) (src : List UInt8)
    (hroom : text.length + src.length < b.size) :
    ∃ m, strcpy b text.length src = .ok m ∧ m.size = b.size ∧ Begins m (text ++ src) := by
  obtain ⟨m, hm, hsize, hbegins⟩ := h.storeBytes (src ++ [0])
    (by rw [List.length_append, List.length_singleton]; omega)
  rw [← List.append_assoc] at hbegins
  exact ⟨m, hm, hsize, hbegins.of_append⟩

/-! ## Numbers in the buffer -/

/-- The first loop of `itoa_n` stores the digits backwards. -/
theorem Begins.itoaDigits {out : Nat} (h : Begins b text) (base : Base) (n len : Nat)
    (hlen : text.length = out + len)
    (hroom : text.length + (Nat.digits base.val n).length ≤ b.size) :
    ∃ m, itoaDigits b out base n len = .ok (m, len + (Nat.digits base.val n).length) ∧
      m.size = b.size ∧
      Begins m (text ++ (Nat.digits base.val n).map fun d => digits.getD d 0) := by
  induction n using Nat.strongRecOn generalizing b text len with
  | ind n ih =>
      unfold C.itoaDigits
      by_cases h0 : n = 0
      · subst h0
        rw [dif_pos rfl, Nat.digits_zero]
        exact ⟨b, rfl, rfl, by rw [List.map_nil, List.append_nil]; exact h⟩
      · rw [dif_neg h0]
        have hbase := base.two_le
        have hdigits : Nat.digits base.val n
            = n % base.val :: Nat.digits base.val (n / base.val) :=
          Nat.digits_def' (by omega) (Nat.pos_of_ne_zero h0)
        rw [hdigits, List.length_cons] at hroom
        obtain ⟨m, hm, hsize, hbegins⟩ := h.store (digits.getD (n % base.val) 0) (by omega)
        have hnext : (text ++ [digits.getD (n % base.val) 0]).length = out + (len + 1) := by
          rw [List.length_append, List.length_singleton]
          omega
        obtain ⟨m', hm', hsize', hbegins'⟩ := ih (n / base.val)
          (Nat.div_lt_self (by omega) hbase) hbegins (len + 1) hnext
          (by rw [hsize, hnext]; omega)
        rw [← hlen, hm]
        refine ⟨m', ?_, hsize'.trans hsize, ?_⟩
        · show C.itoaDigits m out base (n / base.val) (len + 1) = _
          rw [hm', hdigits, List.length_cons]
          congr 2
          omega
        · rw [hdigits, List.map_cons, List.append_cons]
          exact hbegins'

/-- The second loop of `itoa_n`, after `k` turns: `k` digits at either end have changed places. -/
theorem foldlM_itoaSwap {out len k : Nat} (hroom : out + len ≤ b.size) (hk : 2 * k ≤ len) :
    ∃ m, (List.range k).foldlM (itoaSwap out len) b = .ok m ∧
      b.Is (fun x => if out ≤ x ∧ x < out + len ∧ (x - out < k ∨ len - k ≤ x - out) then
        b[out + (len - 1 - (x - out))]? else b[x]?) m := by
  induction k with
  | zero =>
      refine ⟨b, rfl, rfl, fun x => ?_⟩
      rw [if_neg (by omega)]
  | succ k ih =>
      obtain ⟨m, hm, hsize, hget⟩ := ih (by omega)
      have hlow : out + k < m.size := by omega
      have hhigh : out + len - k - 1 < m.size := by omega
      obtain ⟨m₁, hm₁, hsize₁, hget₁⟩ := Buffer.store_is hhigh m[out + k]
      obtain ⟨m₂, hm₂, hsize₂, hget₂⟩ := Buffer.store_is (b := m₁) (i := out + k)
        (by omega) m[out + len - k - 1]
      have hstep : itoaSwap out len m k = .ok m₂ := by
        rw [itoaSwap, Buffer.load_lt hhigh, Buffer.load_lt hlow]
        show (m.store (out + len - k - 1) m[out + k] >>= _) = _
        rw [hm₁]
        exact hm₂
      refine ⟨m₂, ?_, by omega, fun x => ?_⟩
      · rw [List.range_succ, List.foldlM_append, hm]
        show (itoaSwap out len m k >>= _) = _
        rw [hstep]
        rfl
      · -- what the two places held has not been touched before
        rw [hget₂, hget₁]
        have hfirst : m[out + k]? = b[out + k]? := by
          rw [hget, if_neg (by omega)]
        have hlast : m[out + len - k - 1]? = b[out + len - k - 1]? := by
          rw [hget, if_neg (by omega)]
        by_cases hxl : x = out + k
        · rw [if_pos hxl, if_pos (by omega), ← Array.getElem?_eq_getElem hhigh, hlast]
          congr 1
          omega
        · rw [if_neg hxl]
          by_cases hxh : x = out + len - k - 1
          · rw [if_pos hxh, if_pos (by omega), ← Array.getElem?_eq_getElem hlow, hfirst]
            congr 1
            omega
          · rw [if_neg hxh, hget]
            by_cases hin : out ≤ x ∧ x < out + len ∧ (x - out < k ∨ len - k ≤ x - out)
            · rw [if_pos hin, if_pos (by omega)]
            · rw [if_neg hin, if_neg (by omega)]

/-- **`itoa_n`** stores the digits of a number behind what the buffer starts with, if there is room,
and returns how many they are. -/
theorem Begins.itoaN (h : Begins b text) (n : Nat) (base : Base)
    (hroom : text.length + (itoaText base n).length ≤ b.size) :
    ∃ m, itoaN b text.length n base = .ok (m, (itoaText base n).length) ∧ m.size = b.size ∧
      Begins m (text ++ itoaText base n) := by
  unfold C.itoaN itoaText at *
  by_cases h0 : n = 0
  · rw [if_pos h0] at hroom
    rw [if_pos h0, if_pos h0]
    obtain ⟨m, hm, hsize, hbegins⟩ := h.store 48 hroom
    rw [hm]
    exact ⟨m, rfl, hsize, hbegins⟩
  · rw [if_neg h0] at hroom
    rw [if_neg h0, if_neg h0]
    generalize hd : (Nat.digits base.val n).map (fun d => digits.getD d 0) = d at hroom ⊢
    have hlen : (Nat.digits base.val n).length = d.length := by rw [← hd, List.length_map]
    rw [List.length_reverse] at hroom ⊢
    obtain ⟨m, hm, hsize, hbegins⟩ := h.itoaDigits base n 0 rfl
      (by rw [hlen]; exact hroom)
    rw [hlen, Nat.zero_add] at hm
    rw [hd] at hbegins
    obtain ⟨m', hm', hsize', hget⟩ := @foldlM_itoaSwap m text.length d.length (d.length / 2)
      (by omega) (by omega)
    rw [hm]
    show ∃ m₁, ((List.range (d.length / 2)).foldlM (itoaSwap text.length d.length) m >>= _) = _ ∧ _
    rw [hm']
    refine ⟨m', rfl, hsize'.trans hsize, fun x hx => ?_⟩
    rw [List.length_append, List.length_reverse] at hx
    have hsame : ∀ j < d.length, m[text.length + j]? = d[j]? := by
      intro j hj
      rw [hbegins _ (by rw [List.length_append]; omega),
        List.getElem?_append_right (by omega), Nat.add_sub_cancel_left]
    rw [hget]
    by_cases hin : x < text.length
    · rw [if_neg (by omega), hbegins _ (by rw [List.length_append]; omega),
        List.getElem?_append_left hin, List.getElem?_append_left hin]
    · obtain ⟨j, rfl⟩ := Nat.exists_eq_add_of_le (Nat.le_of_not_lt hin)
      rw [List.getElem?_append_right (by omega), Nat.add_sub_cancel_left,
        List.getElem?_reverse (by omega)]
      by_cases hj : j < d.length / 2 ∨ d.length - d.length / 2 ≤ j
      · rw [if_pos ⟨by omega, by omega, hj⟩]
        exact hsame _ (by omega)
      · -- the digit in the middle
        rw [if_neg (by omega), hsame j (by omega)]
        congr 1
        omega

/-! ## Stores that have been made -/

/-- Nothing has been stored from `k` on: the two buffers have the same size and the same bytes
there. -/
structure SameFrom (k : Nat) (b m : Buffer) : Prop where
  size : m.size = b.size
  get : ∀ x, k ≤ x → m[x]? = b[x]?

namespace SameFrom

variable {k k' : Nat} {m m' : Buffer}

theorem refl (k : Nat) (b : Buffer) : SameFrom k b b := ⟨rfl, fun _ _ => rfl⟩

theorem mono (h : SameFrom k b m) (hk : k ≤ k') : SameFrom k' b m :=
  ⟨h.size, fun x hx => h.get x (Nat.le_trans hk hx)⟩

theorem trans (h : SameFrom k b m) (h' : SameFrom k m m') : SameFrom k b m' :=
  ⟨h'.size.trans h.size, fun x hx => (h'.get x hx).trans (h.get x hx)⟩

end SameFrom

theorem store_inv {i : Nat} {c : UInt8} {m : Buffer} (h : b.store i c = .ok m) :
    i < b.size ∧ SameFrom (i + 1) b m := by
  have hlt : i < b.size := by
    unfold Buffer.store at h
    split at h
    · assumption
    · cases h
  obtain ⟨m', hm', his⟩ := Buffer.store_is hlt c
  obtain rfl := Except.ok.inj (h.symm.trans hm')
  refine ⟨hlt, his.size, fun x hx => ?_⟩
  rw [his.get, if_neg (by omega)]

theorem storeBytes_inv {i : Nat} {cs : List UInt8} {m : Buffer}
    (h : b.storeBytes i cs = .ok m) : SameFrom (i + cs.length) b m := by
  induction cs generalizing b i with
  | nil =>
      obtain rfl := Except.ok.inj h
      exact .refl _ _
  | cons c cs ih =>
      obtain ⟨m₁, hstore, h⟩ := bind_eq_ok.mp h
      rw [List.length_cons]
      exact ((store_inv hstore).2.mono (by omega)).trans ((ih h).mono (by omega))

theorem itoaDigits_inv {base : Base} {out n len len' : Nat} {m : Buffer}
    (h : itoaDigits b out base n len = .ok (m, len')) :
    len' = len + (Nat.digits base.val n).length ∧ SameFrom (out + len') b m := by
  induction n using Nat.strongRecOn generalizing b len with
  | ind n ih =>
      unfold itoaDigits at h
      by_cases h0 : n = 0
      · rw [dif_pos h0] at h
        obtain ⟨rfl, rfl⟩ := Prod.mk.inj (Except.ok.inj h)
        rw [h0, Nat.digits_zero]
        exact ⟨rfl, .refl _ _⟩
      · rw [dif_neg h0] at h
        obtain ⟨m₁, hstore, h⟩ := bind_eq_ok.mp h
        have hbase := base.two_le
        obtain ⟨hlen, hsame⟩ := ih (n / base.val) (Nat.div_lt_self (by omega) hbase) h
        rw [Nat.digits_def' (by omega) (Nat.pos_of_ne_zero h0), List.length_cons]
        exact ⟨by omega, ((store_inv hstore).2.mono (by omega)).trans hsame⟩

theorem itoaSwaps_inv {out len : Nat} {l : List Nat} {m : Buffer} (hl : ∀ i ∈ l, i < len)
    (h : l.foldlM (itoaSwap out len) b = .ok m) : SameFrom (out + len) b m := by
  induction l generalizing b with
  | nil =>
      obtain rfl := Except.ok.inj h
      exact .refl _ _
  | cons i l ih =>
      rw [List.forall_mem_cons] at hl
      rw [List.foldlM_cons] at h
      obtain ⟨m₁, hswap, h⟩ := bind_eq_ok.mp h
      obtain ⟨tmp, -, hswap⟩ := bind_eq_ok.mp hswap
      obtain ⟨c, -, hswap⟩ := bind_eq_ok.mp hswap
      obtain ⟨m₂, hstore, hswap⟩ := bind_eq_ok.mp hswap
      have hi := hl.1
      have hhigh := (store_inv hstore).2.mono (show _ ≤ out + len by omega)
      have hlow := (store_inv hswap).2.mono (show _ ≤ out + len by omega)
      exact (hhigh.trans hlow).trans (ih hl.2 h)

theorem itoaN_inv {base : Base} {out n len : Nat} {m : Buffer}
    (h : itoaN b out n base = .ok (m, len)) :
    len = (itoaText base n).length ∧ SameFrom (out + len) b m := by
  unfold itoaN at h
  unfold itoaText
  by_cases h0 : n = 0
  · rw [if_pos h0] at h
    obtain ⟨m₁, hstore, h⟩ := bind_eq_ok.mp h
    obtain ⟨rfl, rfl⟩ := Prod.mk.inj (Except.ok.inj h)
    rw [if_pos h0]
    exact ⟨rfl, (store_inv hstore).2⟩
  · rw [if_neg h0] at h
    obtain ⟨⟨m₁, len₁⟩, hdigits, h⟩ := bind_eq_ok.mp h
    obtain ⟨m₂, hswaps, h⟩ := bind_eq_ok.mp h
    obtain ⟨rfl, rfl⟩ := Prod.mk.inj (Except.ok.inj h)
    obtain ⟨hlen, hsame⟩ := itoaDigits_inv hdigits
    have hin : ∀ i ∈ List.range (len₁ / 2), i < len₁ := by
      intro i hi
      rw [List.mem_range] at hi
      omega
    rw [if_neg h0, List.length_reverse, List.length_map]
    exact ⟨by omega, hsame.trans (itoaSwaps_inv hin hswaps)⟩

/-! ## Texts in the buffer -/

/-- A part of `vsprintf` that stores `piece` where the text ends. It may use the place behind. -/
structure Puts (put : Buffer → Nat → Except Fault Buffer) (piece : List UInt8) : Prop where
  ok : ∀ {b : Buffer} {text : List UInt8}, Begins b text → text.length + piece.length < b.size →
    ∃ m, put b text.length = .ok m ∧ m.size = b.size ∧ Begins m (text ++ piece)
  same : ∀ {b m : Buffer} {p : Nat}, put b p = .ok m → SameFrom (p + piece.length + 1) b m

theorem puts_store (c : UInt8) : Puts (fun b p => b.store p c) [c] where
  ok h hroom := h.store c (by rw [List.length_singleton] at hroom; omega)
  same h := (store_inv h).2.mono (Nat.le_succ _)

theorem puts_strcpy (src : List UInt8) : Puts (fun b p => strcpy b p src) src where
  ok h hroom := h.strcpy src hroom
  same {b m p} h := by
    have hsame := storeBytes_inv h
    rwa [List.length_append, List.length_singleton] at hsame

/-- A number, behind its sign or its `0x`, as one step that stores a piece of the text. -/
def putNumber (start : List UInt8) (n : Nat) (base : Base) (b : Buffer) (p : Nat) :
    Except Fault Buffer := do
  let b ← b.storeBytes p start
  let (b, _) ← itoaN b (p + start.length) n base
  return b

theorem puts_number (start : List UInt8) (n : Nat) (base : Base) :
    Puts (putNumber start n base) (start ++ itoaText base n) where
  ok h hroom := by
    rw [List.length_append] at hroom
    obtain ⟨m, hm, hsize, hbegins⟩ := h.storeBytes start (by omega)
    obtain ⟨m', hm', hsize', hbegins'⟩ := hbegins.itoaN n base
      (by rw [List.length_append, hsize]; omega)
    rw [List.length_append] at hm'
    rw [← List.append_assoc]
    exact ⟨m', bind_eq_ok.mpr ⟨m, hm, bind_eq_ok.mpr ⟨_, hm', rfl⟩⟩, hsize'.trans hsize, hbegins'⟩
  same h := by
    obtain ⟨m₁, hstart, h⟩ := bind_eq_ok.mp h
    obtain ⟨⟨m₂, len⟩, hnumber, h⟩ := bind_eq_ok.mp h
    obtain rfl := Except.ok.inj h
    obtain ⟨rfl, hsame⟩ := itoaN_inv hnumber
    rw [List.length_append]
    exact ((storeBytes_inv hstart).mono (by omega)).trans (hsame.mono (by omega))

/-- The number that a conversion takes from its argument. -/
theorem vaNumber_int {longValue : Bool} {i : Int} {va : List Arg} :
    vaNumber longValue (.int i :: va)
      = .ok (i.bmod (if longValue then 2 ^ 64 else 2 ^ 32), va) := by
  cases longValue <;> rfl

/-- The step of `vsprintf` for a number. -/
theorem vsprintfLoop_int {longValue : Bool} {conversion : UInt8} {i : Int} {va : List Arg}
    {format : List Directive} {base : Base} {p : Nat} {number : List UInt8 × Int × Base}
    (h : numberStart conversion (i.bmod (if longValue then 2 ^ 64 else 2 ^ 32)) base = number) :
    vsprintfLoop b p base (.int longValue conversion :: format) (.int i :: va) = (do
      let b ← b.storeBytes p number.1
      let (b, len) ← itoaN b (p + number.1.length) (unsignedOf longValue number.2.1) number.2.2
      vsprintfLoop b (p + number.1.length + len) number.2.2 format va) := by
  rw [vsprintfLoop, vaNumber_int, ← h]
  rfl

/-- **A turn of the loop**: a piece of the text is stored, whatever the buffer has in it, and the
loop goes on behind it with the rest of the arguments. -/
theorem vsprintfLoop_cons {d : Directive} {format : List Directive} {base : Base} {va : List Arg}
    {t : List UInt8} (ht : formatText base (d :: format) va = some t) :
    ∃ put piece rest base' va', Puts put piece ∧ t = piece ++ rest ∧
      formatText base' format va' = some rest ∧ ∀ b p,
        vsprintfLoop b p base (d :: format) va
          = (put b p >>= fun b => vsprintfLoop b (p + piece.length) base' format va') := by
  cases d with
  | char c =>
      obtain ⟨rest, hrest, rfl⟩ := Option.map_eq_some_iff.mp ht
      exact ⟨_, [c], rest, base, va, puts_store c, rfl, hrest, fun b p => rfl⟩
  | str =>
      cases va with
      | nil => cases ht
      | cons a va =>
          cases a with
          | int i => cases ht
          | str src =>
              obtain ⟨rest, hrest, rfl⟩ := Option.map_eq_some_iff.mp ht
              exact ⟨_, src, rest, base, va, puts_strcpy src, rfl, hrest, fun b p => rfl⟩
  | chr =>
      cases va with
      | nil => cases ht
      | cons a va =>
          cases a with
          | str src => cases ht
          | int i =>
              obtain ⟨rest, hrest, rfl⟩ := Option.map_eq_some_iff.mp ht
              exact ⟨_, [_], rest, base, va, puts_store _, rfl, hrest, fun b p => rfl⟩
  | int longValue conversion =>
      cases va with
      | nil => cases ht
      | cons a va =>
          cases a with
          | str src => cases ht
          | int i =>
              obtain ⟨rest, hrest, rfl⟩ := Option.map_eq_some_iff.mp ht
              refine ⟨_, _, rest, _, va, puts_number _ _ _, (List.append_assoc _ _ _).symm, hrest,
                fun b p => ?_⟩
              rw [vsprintfLoop_int rfl, putNumber]
              cases b.storeBytes p _ with
              | error e => rfl
              | ok m₁ =>
                  show (itoaN m₁ _ _ _ >>= _) = ((itoaN m₁ _ _ _ >>= _) >>= _)
                  cases hnumber : itoaN m₁ _ _ _ with
                  | error e => rfl
                  | ok r =>
                      obtain ⟨m₂, len⟩ := r
                      obtain ⟨rfl, -⟩ := itoaN_inv hnumber
                      rw [List.length_append, ← Nat.add_assoc]
                      rfl

/-- **The loop of `vsprintf`** stores the text, and its end, behind what has been stored, when there
is room for both. -/
theorem Begins.vsprintfLoop {format : List Directive} {base : Base} {va : List Arg}
    {t : List UInt8} (h : Begins b text) (ht : formatText base format va = some t)
    (hroom : text.length + t.length < b.size) :
    ∃ m, vsprintfLoop b text.length base format va = .ok m ∧ m.size = b.size ∧
      Begins m (text ++ t ++ [0]) := by
  induction format generalizing b text base va t with
  | nil =>
      obtain rfl := Option.some.inj ht
      rw [List.append_nil]
      exact h.store 0 (by simpa using hroom)
  | cons d format ih =>
      obtain ⟨put, piece, rest, base', va', hputs, rfl, hrest, hloop⟩ := vsprintfLoop_cons ht
      rw [List.length_append] at hroom
      obtain ⟨m, hm, hsize, hbegins⟩ := hputs.ok h (by omega)
      obtain ⟨m', hm', hsize', hbegins'⟩ := ih hbegins hrest
        (by rw [List.length_append, hsize]; omega)
      rw [List.length_append] at hm'
      rw [hloop, ← List.append_assoc text]
      exact ⟨m', bind_eq_ok.mpr ⟨m, hm, hm'⟩, hsize'.trans hsize, hbegins'⟩

/-- The end of the text is stored last, and must have been inside the buffer. -/
theorem lt_of_vsprintfLoop {format : List Directive} {base : Base} {va : List Arg}
    {t : List UInt8} {p : Nat} {m : Buffer} (h : vsprintfLoop b p base format va = .ok m)
    (ht : formatText base format va = some t) : p + t.length < b.size := by
  induction format generalizing b p base va t with
  | nil =>
      obtain rfl := Option.some.inj ht
      exact (store_inv h).1
  | cons d format ih =>
      obtain ⟨put, piece, rest, base', va', hputs, rfl, hrest, hloop⟩ := vsprintfLoop_cons ht
      rw [hloop] at h
      obtain ⟨m₁, hput, h⟩ := bind_eq_ok.mp h
      have hlt := ih h hrest
      rw [(hputs.same hput).size] at hlt
      rw [List.length_append]
      omega

/-- Behind the end of the text the buffer stays as it is. -/
theorem vsprintfLoop_behind {format : List Directive} {base : Base} {va : List Arg}
    {t : List UInt8} {p k : Nat} {m : Buffer} (h : vsprintfLoop b p base format va = .ok m)
    (ht : formatText base format va = some t) (hk : p + t.length < k) : m[k]? = b[k]? := by
  induction format generalizing b p base va t with
  | nil =>
      obtain rfl := Option.some.inj ht
      exact (store_inv h).2.get _ hk
  | cons d format ih =>
      obtain ⟨put, piece, rest, base', va', hputs, rfl, hrest, hloop⟩ := vsprintfLoop_cons ht
      rw [hloop] at h
      obtain ⟨m₁, hput, h⟩ := bind_eq_ok.mp h
      rw [List.length_append] at hk
      rw [ih h hrest (by omega), (hputs.same hput).get _ (by omega)]

/-- **`vsprintf`** stays inside a buffer exactly if that has room for the text and its end; then the
buffer starts with these, and keeps its size. -/
theorem vsprintf_ok {bytes t : List UInt8} {format : List Directive} {va : List Arg}
    (hd : directives bytes = some format) (ht : formatText .ten format va = some t) :
    (t.length < b.size → ∃ m, vsprintf b bytes va = .ok m) ∧
      ∀ m, vsprintf b bytes va = .ok m →
        t.length < b.size ∧ m.size = b.size ∧ Begins m (t ++ [0]) := by
  have hempty : Begins b [] := by
    intro k hk
    cases hk
  unfold vsprintf
  rw [hd]
  refine ⟨?_, ?_⟩
  · intro hroom
    obtain ⟨m, hm, -, -⟩ := hempty.vsprintfLoop ht (by simpa using hroom)
    exact ⟨m, hm⟩
  · intro m hm
    have hlt := lt_of_vsprintfLoop hm ht
    rw [Nat.zero_add] at hlt
    obtain ⟨m', hm', hsize, hbegins⟩ := hempty.vsprintfLoop ht (by simpa using hlt)
    obtain rfl := Except.ok.inj (hm.symm.trans hm')
    exact ⟨hlt, hsize, hbegins⟩

end

end LoliLoader.C
