/-
# LoliLoader.C.Printf -- vsprintf against a reference

The reference spells numbers out as Lean does: `decimal` is the usual notation of an integer, with a
sign in front, and `hexadecimal` that of a natural number. A format is taken as its parts, each with
the argument that it is for, so that a format and its arguments always agree in number and kind.

`vsprintf_eq_reference` says that `vsprintf` of the source writes exactly what the parts say, and
nothing else, as long as each argument is in the range of its conversion; and that it returns
exactly if the buffer has room for that and its end.

The range is where C comes in. Arguments of `%d` are `int`s, those with the flag `l` are `long`s,
and the others are the same words taken without a sign. `unsignedOf_bmod` undoes what sign extension
has done to an unsigned number on its way.

`formatText_item` is the step: one part has its text, whatever base the number before it had. The
induction over the parts is `formatText_items`.
-/
import LoliLoader.C.Format
import Mathlib.Data.Nat.Digits.Lemmas
import Mathlib.Tactic.IntervalCases

namespace LoliLoader.C

/-! ## The reference -/

/-- A part of a format, with its argument in the C type that its conversion takes. -/
inductive Item where
  /-- a character of the text -/
  | char (ch : UInt8) (plain : ch ≠ 37 ∧ ch ≠ 0)
  /-- `%%` -/
  | percent
  /-- `%s` -/
  | s (v : CString)
  /-- `%c` -/
  | c (v : Int32)
  /-- `%d` -/
  | d (v : Int32)
  /-- `%u` -/
  | u (v : UInt32)
  /-- `%x` -/
  | x (v : UInt32)
  /-- `%p` -/
  | p (v : UInt64)
  /-- `%ld` -/
  | ld (v : Int64)
  /-- `%lu` -/
  | lu (v : UInt64)
  /-- `%lx` -/
  | lx (v : UInt64)

/-- A signed number in decimal, as Lean prints it: a sign only if it is negative, and no leading
zeros. -/
def decimal (n : Int) : List UInt8 := ascii (toString n)

/-- A number in lower-case hexadecimal, without a prefix and without leading zeros. -/
def hexadecimal (n : Nat) : List UInt8 := ascii (String.ofList (Nat.toDigits 16 n))

namespace Item

/-- The bytes of the format, as the programmer writes them for the part. -/
def format : Item → List UInt8
  | char ch _ => [ch]
  | percent => ascii "%%"
  | s _ => ascii "%s"
  | c _ => ascii "%c"
  | d _ => ascii "%d"
  | u _ => ascii "%u"
  | x _ => ascii "%x"
  | p _ => ascii "%p"
  | ld _ => ascii "%ld"
  | lu _ => ascii "%lu"
  | lx _ => ascii "%lx"

/-- The argument, if the part takes one. Unsigned numbers are passed as they are, not as the signed
word of the same bits. -/
def args : Item → List Arg
  | char _ _ => []
  | percent => []
  | s v => [.str v.bytes]
  | c v => [.int v.toInt]
  | d v => [.int v.toInt]
  | u v => [.int v.toNat]
  | x v => [.int v.toNat]
  | p v => [.int v.toNat]
  | ld v => [.int v.toInt]
  | lu v => [.int v.toNat]
  | lx v => [.int v.toNat]

/-- What is to be written for the part, said without buffers and without words of any width. -/
def text : Item → List UInt8
  | char ch _ => [ch]
  | percent => ascii "%"
  | s v => v.bytes
  | c v => [UInt8.ofInt v.toInt]
  | d v => decimal v.toInt
  | u v => decimal v.toNat
  | x v => hexadecimal v.toNat
  | p v => ascii "0x" ++ hexadecimal v.toNat
  | ld v => decimal v.toInt
  | lu v => decimal v.toNat
  | lx v => hexadecimal v.toNat

/-- How `vsprintf` takes the part: the turn of its loop that the part is for. -/
def directive : Item → Directive
  | char ch _ => .char ch
  | percent => .char 37
  | s _ => .str
  | c _ => .chr
  | d _ => .int false 100
  | u _ => .int false 117
  | x _ => .int false 120
  | p _ => .int true 112
  | ld _ => .int true 100
  | lu _ => .int true 117
  | lx _ => .int true 120

end Item

/-! ## Numbers -/

theorem digit_eq_digitChar {k : Nat} (h : k < 16) :
    digits.getD k 0 = k.digitChar.toNat.toUInt8 := by
  interval_cases k <;> rfl

/-- **The digits** are those of the reference, in both bases: the highest first, and no zero in
front. -/
theorem itoaText_eq_toDigits (base : Base) (n : Nat) :
    itoaText base n = (Nat.toDigits base.val n).map fun c => c.toNat.toUInt8 := by
  have hbase := base.two_le
  have hle : base.val ≤ 16 := by cases base <;> decide
  induction n using Nat.strongRecOn with
  | ind n ih =>
      rw [Nat.toDigits_eq_if (by omega)]
      by_cases h0 : n = 0
      · rw [h0, if_pos (by omega)]
        rfl
      rw [itoaText, if_neg h0, Nat.digits_def' (by omega) (Nat.pos_of_ne_zero h0), List.map_cons,
        List.reverse_cons, digit_eq_digitChar (Nat.lt_of_lt_of_le (Nat.mod_lt n (by omega)) hle)]
      by_cases hlt : n < base.val
      · rw [if_pos hlt, Nat.mod_eq_of_lt hlt, Nat.div_eq_of_lt hlt, Nat.digits_zero]
        rfl
      · rw [if_neg hlt, List.map_append, ← ih _ (Nat.div_lt_self (by omega) (by omega)), itoaText,
          if_neg (by rw [Nat.div_eq_zero_iff]; omega)]
        rfl

theorem hexadecimal_eq (n : Nat) : hexadecimal n = itoaText .sixteen n := by
  rw [itoaText_eq_toDigits, hexadecimal, ascii, String.toList_ofList]
  rfl

theorem decimal_natCast (n : Nat) : decimal n = itoaText .ten n := by
  rw [itoaText_eq_toDigits, decimal, ascii, Int.toString_eq_repr, Int.repr_eq_if,
    if_pos (by omega), Int.toNat_natCast, Nat.toList_repr]
  rfl

theorem decimal_of_neg {n : Int} (h : n < 0) : decimal n = 45 :: itoaText .ten (-n).toNat := by
  rw [itoaText_eq_toDigits, decimal, ascii, Int.toString_eq_repr, Int.repr_eq_if,
    if_neg (by omega), String.toList_append, Nat.toList_repr]
  rfl

/-- There is no leading zero but in zero itself. -/
theorem head_itoaText {base : Base} {n : Nat} (h : (itoaText base n).head? = some 48) :
    n = 0 := by
  by_contra h0
  have hbase := base.two_le
  have hle : base.val ≤ 16 := by cases base <;> decide
  rw [itoaText, if_neg h0, List.head?_reverse, List.getLast?_map,
    List.getLast?_eq_some_getLast (Nat.digits_ne_nil_iff_ne_zero.mpr h0)] at h
  have hlast := Nat.getLast_digit_ne_zero base.val h0
  have hlt := Nat.digits_lt_base (by omega : 1 < base.val) (List.getLast_mem
    (Nat.digits_ne_nil_iff_ne_zero.mpr h0))
  generalize (Nat.digits base.val n).getLast _ = k at h hlast hlt
  have hk : digits.getD k 0 = 48 := Option.some.inj h
  have hzero : ∀ j < 16, digits.getD j 0 = 48 → j = 0 := by decide
  exact hlast (hzero k (by omega) hk)

/-! ## The text of a format -/

theorem directives_item (item : Item) (format : List UInt8) :
    directives (item.format ++ format) = (directives format).map (item.directive :: ·) := by
  cases item with
  | char ch plain =>
      show directives (ch :: format) = _
      rw [directives.eq_def]
      exact if_pos plain.1
  | _ => exact directives.eq_def _

theorem directives_items (items : List Item) :
    directives (items.flatMap Item.format) = some (items.map Item.directive) := by
  induction items with
  | nil => rfl
  | cons item items ih =>
      rw [List.flatMap_cons, directives_item, ih]
      rfl

/-- The range of the argument of a conversion: 64 bits with the flag `l`, else 32. -/
def modulus (longValue : Bool) : Nat := if longValue then 2 ^ 64 else 2 ^ 32

section

variable {base base' : Base} {format : List Directive} {va : List Arg} {longValue : Bool}
  {conversion : UInt8}

/-- A conversion to a number, taken apart. -/
theorem formatText_number {i value : Int} {text : List UInt8} (start : List UInt8)
    (h : numberStart conversion (i.bmod (modulus longValue)) base = (start, value, base'))
    (htext : start ++ itoaText base' (unsignedOf longValue value) = text) :
    formatText base (.int longValue conversion :: format) (.int i :: va)
      = (formatText base' format va).map (text ++ ·) := by
  have hmod : ((if longValue then 2 ^ 64 else 2 ^ 32 : Nat)) = modulus longValue := rfl
  rw [formatText, hmod, h, ← htext]
  simp only [List.append_assoc]

theorem unsignedOf_natCast {n : Nat} (h : n < modulus longValue) :
    unsignedOf longValue n = n := by
  unfold unsignedOf
  cases longValue with
  | false =>
      have hlt : n < 2 ^ 32 := h
      show ((n : Int) % 2 ^ 32).toNat = n
      omega
  | true =>
      have hlt : n < 2 ^ 64 := h
      show ((n : Int) % 2 ^ 64).toNat = n
      omega

/-- What sign extension has done to an unsigned number is undone. -/
theorem unsignedOf_bmod {n : Nat} (h : n < modulus longValue) :
    unsignedOf longValue ((n : Int).bmod (modulus longValue)) = n := by
  have hcast : (if longValue then 2 ^ 64 else 2 ^ 32 : Int) = (modulus longValue : Nat) := by
    cases longValue <;> rfl
  unfold unsignedOf
  rw [hcast, Int.bmod_emod]
  have hmod : (n : Int) % (modulus longValue : Nat) = n :=
    Int.emod_eq_of_lt (Int.natCast_nonneg n) (by omega)
  rw [hmod, Int.toNat_natCast]

/-- **`%d`** and `%ld` write a number in decimal, if it is in the range of an `int` or a `long`. -/
theorem formatText_signed {i : Int} (hlow : -(modulus longValue : Int) ≤ i * 2)
    (hhigh : i * 2 < modulus longValue) :
    formatText base (.int longValue 100 :: format) (.int i :: va)
      = (formatText .ten format va).map (decimal i ++ ·) := by
  have hsame : i.bmod (modulus longValue) = i := Int.bmod_eq_of_le_mul_two hlow hhigh
  by_cases hneg : i < 0
  · have hvalue : ((-i).toNat : Int) = -i := by omega
    have hstart : numberStart 100 (i.bmod (modulus longValue)) base = ([45], -i, .ten) := by
      rw [hsame, numberStart, if_pos rfl, if_pos hneg]
    apply formatText_number [45] hstart
    rw [← hvalue, unsignedOf_natCast (by omega), decimal_of_neg hneg]
    rfl
  · obtain ⟨n, rfl⟩ := Int.eq_ofNat_of_zero_le (by omega : 0 ≤ i)
    have hstart : numberStart 100 ((n : Int).bmod (modulus longValue)) base
        = ([], (n : Int), .ten) := by
      rw [hsame, numberStart, if_pos rfl, if_neg hneg]
    apply formatText_number [] hstart
    rw [unsignedOf_natCast (by omega), decimal_natCast]
    rfl

/-- The conversions of unsigned numbers. -/
theorem formatText_unsigned {n : Nat} (h : n < modulus longValue) (start : List UInt8)
    (hstart : ∀ value, numberStart conversion value base = (start, value, base')) :
    formatText base (.int longValue conversion :: format) (.int n :: va)
      = (formatText base' format va).map ((start ++ itoaText base' n) ++ ·) :=
  formatText_number start (hstart _) (by rw [unsignedOf_bmod h])

end

/-- **One part** of a format has its text, whatever base the number before had, and takes its own
argument and no other. -/
theorem formatText_item (item : Item) (base : Base) :
    ∃ base', ∀ (format : List Directive) (va : List Arg),
      formatText base (item.directive :: format) (item.args ++ va)
        = (formatText base' format va).map (item.text ++ ·) := by
  have hsmall (v : UInt32) : v.toNat < modulus false := v.toNat_lt
  have hlarge (v : UInt64) : v.toNat < modulus true := v.toNat_lt
  cases item with
  | char ch plain => exact ⟨base, fun format va => rfl⟩
  | percent => exact ⟨base, fun format va => rfl⟩
  | s v => exact ⟨base, fun format va => rfl⟩
  | c v =>
      have hmod : v.toInt.bmod (2 ^ 32) = v.toInt :=
        Int.bmod_eq_of_le_mul_two (by have := v.le_toInt; omega) (by have := v.toInt_lt; omega)
      refine ⟨base, fun format va => ?_⟩
      show (formatText base format va).map (UInt8.ofInt (v.toInt.bmod (2 ^ 32)) :: ·) = _
      rw [hmod]
      rfl
  | d v =>
      refine ⟨.ten, fun format va => formatText_signed ?_ ?_⟩
      · show -((2 ^ 32 : Nat) : Int) ≤ _
        have := v.le_toInt
        omega
      · show _ < ((2 ^ 32 : Nat) : Int)
        have := v.toInt_lt
        omega
  | ld v =>
      refine ⟨.ten, fun format va => formatText_signed ?_ ?_⟩
      · show -((2 ^ 64 : Nat) : Int) ≤ _
        have := v.le_toInt
        omega
      · show _ < ((2 ^ 64 : Nat) : Int)
        have := v.toInt_lt
        omega
  | u v =>
      refine ⟨.ten, fun format va => ?_⟩
      rw [Item.text, decimal_natCast]
      exact formatText_unsigned (hsmall v) [] fun value => rfl
  | lu v =>
      refine ⟨.ten, fun format va => ?_⟩
      rw [Item.text, decimal_natCast]
      exact formatText_unsigned (hlarge v) [] fun value => rfl
  | x v =>
      refine ⟨.sixteen, fun format va => ?_⟩
      rw [Item.text, hexadecimal_eq]
      exact formatText_unsigned (hsmall v) [] fun value => rfl
  | lx v =>
      refine ⟨.sixteen, fun format va => ?_⟩
      rw [Item.text, hexadecimal_eq]
      exact formatText_unsigned (hlarge v) [] fun value => rfl
  | p v =>
      refine ⟨.sixteen, fun format va => ?_⟩
      rw [Item.text, hexadecimal_eq]
      exact formatText_unsigned (hlarge v) [48, 120] fun value => rfl

/-- **The text of a format** is that of its parts, one behind the other; arguments behind theirs do
not matter. -/
theorem formatText_items (items : List Item) (base : Base) (va : List Arg) :
    formatText base (items.map Item.directive) (items.flatMap Item.args ++ va)
      = some (items.flatMap Item.text) := by
  induction items generalizing base with
  | nil => rfl
  | cons item items ih =>
      obtain ⟨base', hitem⟩ := formatText_item item base
      rw [List.map_cons, List.flatMap_cons, List.append_assoc, hitem, ih]
      rfl

/-! ## Arguments are used up -/

/-- How many arguments a directive takes: one, unless it copies a character. -/
def Directive.taken : Directive → Nat
  | .char _ => 0
  | _ => 1

theorem taken_le_of_vsprintfLoop {format : List Directive} {b m : Buffer} {p : Nat} {base : Base}
    {va : List Arg} (h : vsprintfLoop b p base format va = .ok m) :
    (format.map Directive.taken).sum ≤ va.length := by
  have hva : ∀ {longValue : Bool} {va : List Arg} {r : Int × List Arg},
      vaNumber longValue va = .ok r → va.length = r.2.length + 1 := by
    intro longValue va r hr
    cases longValue <;> cases va with
    | nil => cases hr
    | cons a va =>
        cases a with
        | str s => cases hr
        | int i => rw [← Except.ok.inj hr]; rfl
  induction format generalizing b p base va with
  | nil => exact Nat.zero_le _
  | cons d format ih =>
      rw [List.map_cons, List.sum_cons]
      cases d with
      | char c =>
          obtain ⟨m₁, -, h⟩ := bind_eq_ok.mp h
          have hle := ih h
          show 0 + _ ≤ _
          omega
      | str =>
          obtain ⟨⟨src, rest⟩, hr, h⟩ := bind_eq_ok.mp h
          obtain ⟨m₁, -, h⟩ := bind_eq_ok.mp h
          have hle := ih h
          cases va with
          | nil => cases hr
          | cons a va =>
              cases a with
              | int i => cases hr
              | str s =>
                  obtain ⟨rfl, rfl⟩ := Prod.mk.inj (Except.ok.inj hr)
                  show 1 + _ ≤ va.length + 1
                  omega
      | chr =>
          obtain ⟨⟨c, rest⟩, hr, h⟩ := bind_eq_ok.mp h
          obtain ⟨m₁, -, h⟩ := bind_eq_ok.mp h
          have hle := ih h
          have hlen : va.length = rest.length + 1 := @hva false va (c, rest) hr
          show 1 + _ ≤ _
          omega
      | int longValue conversion =>
          obtain ⟨⟨value, rest⟩, hr, h⟩ := bind_eq_ok.mp h
          obtain ⟨m₁, -, h⟩ := bind_eq_ok.mp h
          obtain ⟨⟨m₂, len⟩, -, h⟩ := bind_eq_ok.mp h
          have hle := ih h
          have hlen : va.length = rest.length + 1 := hva hr
          show 1 + _ ≤ _
          omega

theorem taken_items (items : List Item) :
    ((items.map Item.directive).map Directive.taken).sum = (items.flatMap Item.args).length := by
  induction items with
  | nil => rfl
  | cons item items ih =>
      rw [List.map_cons, List.map_cons, List.sum_cons, ih, List.flatMap_cons, List.length_append]
      congr 1
      cases item <;> rfl

/-! ## vsprintf -/

/-- **`vsprintf` is the reference.** It returns exactly if the buffer has room for the text and its
end, which are all that it writes then. Every argument is taken, none behind them is looked at, and
no number but zero starts with a zero. -/
theorem vsprintf_eq_reference (items : List Item) (va : List Arg) (b : Buffer) :
    ((∃ m, vsprintf b (items.flatMap Item.format) (items.flatMap Item.args ++ va) = .ok m) ↔
      (items.flatMap Item.text).length < b.size) ∧
    (∀ m, vsprintf b (items.flatMap Item.format) (items.flatMap Item.args ++ va) = .ok m →
      m.size = b.size ∧ Begins m (items.flatMap Item.text ++ [0]) ∧
        ∀ k, (items.flatMap Item.text).length < k → m[k]? = b[k]?) ∧
    (∀ pre, pre <+: items.flatMap Item.args → pre ≠ items.flatMap Item.args →
      ∀ m, vsprintf b (items.flatMap Item.format) pre ≠ .ok m) ∧
    ∀ n : Nat, ((decimal n).head? = some 48 → n = 0) ∧
      ((hexadecimal n).head? = some 48 → n = 0) := by
  have hds := directives_items items
  have ht := formatText_items items .ten va
  obtain ⟨hroom, hdone⟩ := vsprintf_ok (b := b) hds ht
  refine ⟨⟨fun ⟨m, hm⟩ => (hdone m hm).1, hroom⟩, ?_, ?_, ?_⟩
  · intro m hm
    refine ⟨(hdone m hm).2.1, (hdone m hm).2.2, fun k hk => ?_⟩
    unfold vsprintf at hm
    rw [hds] at hm
    exact vsprintfLoop_behind hm ht (by rw [Nat.zero_add]; exact hk)
  · intro pre hpre hne m hm
    unfold vsprintf at hm
    rw [hds] at hm
    have hle := taken_le_of_vsprintfLoop hm
    rw [taken_items] at hle
    exact hne (hpre.eq_of_length_le hle)
  · intro n
    rw [decimal_natCast, hexadecimal_eq]
    exact ⟨head_itoaText, head_itoaText⟩

end LoliLoader.C
