/-
# LoliLoader.Interaction.Messages -- which messages fit

A message whose arguments are numbers always fits. One that shows a string fits as long as the
string leaves room for the text around it.

The formats are those of the source and differ in nothing but their text. So there is one theorem
for each kind of format instead of one for each message: formats with numbers only, those with one
string, and those with a string and a size behind it. What has to be checked of a particular format
is computed (`briefFormat`), and the check is a closed term.

`room` is how many bytes of converted text a directive may need. A line end takes two, since a
carriage return is put in front of it, and a number takes at most as many as 64 bits have digits,
with a sign or a prefix.

The bounds for strings are exact. They are different for each message, and it is these numbers that
`Menu.Shown` and `Boot.Said` have in their conditions.
-/
import LoliLoader.Interaction.Output
import Mathlib.Data.Nat.Digits.Lemmas

namespace LoliLoader.Interaction

open C

/-! ## Plain text in a format -/

theorem directives_char {c : UInt8} (h : c ≠ 37) (t : List UInt8) :
    directives (c :: t) = (directives t).map (.char c :: ·) := by
  rw [directives.eq_def]
  exact if_pos h

theorem directives_str (t : List UInt8) :
    directives (37 :: 115 :: t) = (directives t).map (.str :: ·) := by
  rw [directives.eq_def]
  rfl

theorem directives_size (t : List UInt8) :
    directives (37 :: 108 :: 117 :: t) = (directives t).map (.int true 117 :: ·) := by
  rw [directives.eq_def]
  rfl

theorem directives_append {s : List UInt8} (h : (37 : UInt8) ∉ s) (t : List UInt8) :
    directives (s ++ t) = (directives t).map (s.map Directive.char ++ ·) := by
  induction s with
  | nil =>
      show directives t = (directives t).map id
      rw [Option.map_id]
      rfl
  | cons c s ih =>
      rw [List.mem_cons, not_or] at h
      rw [List.cons_append, directives_char (Ne.symm h.1), ih h.2, Option.map_map]
      rfl

/-- A format that is nothing but text. -/
theorem directives_text {s : List UInt8} (h : (37 : UInt8) ∉ s) :
    directives s = some (s.map Directive.char) := by
  have happend := directives_append h []
  rw [List.append_nil] at happend
  rw [happend, directives, Option.map_some, List.append_nil]

theorem formatText_text (base : Base) (s : List UInt8) (format : List Directive)
    (va : List Arg) :
    formatText base (s.map Directive.char ++ format) va
      = (formatText base format va).map (s ++ ·) := by
  induction s with
  | nil =>
      show formatText base format va = (formatText base format va).map id
      rw [Option.map_id]
      rfl
  | cons c s ih =>
      rw [List.map_cons, List.cons_append, formatText, ih, Option.map_map]
      rfl

/-- A text without conversions, at the end of a format. -/
theorem formatText_plain (text : List UInt8) :
    formatText .ten (text.map Directive.char) [] = some text := by
  have h := formatText_text .ten text [] []
  rw [List.append_nil] at h
  rw [h, formatText, Option.map_some, List.append_nil]

section

variable {format : String} {pre mid post : List UInt8}

/-- A message that shows a string. -/
theorem textOf_value (hformat : ascii format = pre ++ 37 :: 115 :: post)
    (hpre : (37 : UInt8) ∉ pre) (hpost : (37 : UInt8) ∉ post) (v : List UInt8) :
    textOf (.printf format [.str v]) = some (pre ++ (v ++ post)) := by
  have hds : directives (37 :: 115 :: post) = some (.str :: post.map Directive.char) := by
    rw [directives_str, directives_text hpost]
    rfl
  rw [textOf, hformat, directives_append hpre, hds, Option.map_some, Option.bind_some,
    formatText_text, formatText, formatText_plain]
  rfl

/-- A message that shows a string and a size. -/
theorem textOf_sized
    (hformat : ascii format = pre ++ 37 :: 115 :: (mid ++ 37 :: 108 :: 117 :: post))
    (hpre : (37 : UInt8) ∉ pre) (hmid : (37 : UInt8) ∉ mid) (hpost : (37 : UInt8) ∉ post)
    (v : List UInt8) (i : Int) :
    textOf (.printf format [.str v, .int i]) = some (pre ++ (v ++ (mid ++
      (itoaText .ten (unsignedOf true (i.bmod (2 ^ 64))) ++ post)))) := by
  have hsize : directives (37 :: 108 :: 117 :: post)
      = some (.int true 117 :: post.map Directive.char) := by
    rw [directives_size, directives_text hpost]
    rfl
  have hds : directives (37 :: 115 :: (mid ++ 37 :: 108 :: 117 :: post))
      = some (.str :: (mid.map Directive.char ++ .int true 117 :: post.map Directive.char)) := by
    rw [directives_str, directives_append hmid, hsize]
    rfl
  have hnumber : ∀ value : Int, numberStart 117 value .ten = ([], value, .ten) := fun _ => rfl
  rw [textOf, hformat, directives_append hpre, hds, Option.map_some, Option.bind_some,
    formatText_text, formatText, formatText_text, formatText]
  simp only [hnumber, formatText_plain, if_pos, Option.map_some, List.nil_append]

end

/-! ## Numbers -/

theorem unsignedOf_lt (longValue : Bool) (value : Int) : unsignedOf longValue value < 2 ^ 64 := by
  unfold unsignedOf
  have hpow : ((if longValue then 2 ^ 64 else 2 ^ 32 : Int)) ≤ 2 ^ 64 := by
    cases longValue <;> norm_num
  have hpos : 0 < (if longValue then 2 ^ 64 else 2 ^ 32 : Int) := by
    cases longValue <;> norm_num
  have hlt := Int.emod_lt_of_pos value hpos
  have hnonneg := Int.emod_nonneg value (Int.ne_of_gt hpos)
  omega

theorem length_itoaText_le (base : Base) {n : Nat} (h : n < 2 ^ 64) :
    (itoaText base n).length ≤ 20 := by
  unfold itoaText
  by_cases h0 : n = 0
  · rw [if_pos h0]
    decide
  · rw [if_neg h0, List.length_reverse, List.length_map,
      Nat.digits_length_le_iff base.two_le]
    refine h.trans_le ?_
    cases base <;> norm_num [Base.val]

/-- Neither the end of a string nor that of a line is among digits. -/
theorem mem_itoaText {base : Base} {n : Nat} {c : UInt8} (h : c ∈ itoaText base n) :
    c ≠ 0 ∧ c ≠ 10 := by
  have hdigit : ∀ d < 16, digits.getD d 0 ≠ 0 ∧ digits.getD d 0 ≠ 10 := by decide
  unfold itoaText at h
  by_cases h0 : n = 0
  · rw [if_pos h0] at h
    obtain rfl := List.mem_singleton.mp h
    decide
  · rw [if_neg h0, List.mem_reverse, List.mem_map] at h
    obtain ⟨d, hd, rfl⟩ := h
    have hlt := Nat.digits_lt_base base.two_le hd
    have hle : base.val ≤ 16 := by cases base <;> decide
    exact hdigit d (by omega)

/-- How many characters a size takes in decimal. -/
def numberLength (n : Nat) : Nat := (itoaText .ten n).length

/-- A size is shown as an unsigned number. -/
theorem unsignedOf_toInt (x : Int64) :
    unsignedOf true (x.toInt.bmod (2 ^ 64)) = x.toUInt64.toNat := by
  have hcast : ((2 ^ 64 : Nat) : Int) = 2 ^ 64 := by norm_num
  have hnat : x.toInt = (x.toUInt64.toNat : Int).bmod (2 ^ 64) :=
    BitVec.toInt_eq_toNat_bmod x.toBitVec
  have hlt : x.toUInt64.toNat < 2 ^ 64 := x.toUInt64.toNat_lt
  rw [unsignedOf, if_pos rfl, hnat, ← hcast, Int.bmod_emod, Int.bmod_emod]
  omega

/-- What is stored in front of a number is short and no line end. -/
theorem numberStart_brief (conversion : UInt8) (value : Int) (base : Base) :
    (numberStart conversion value base).1.length ≤ 2 ∧
      ∀ c ∈ (numberStart conversion value base).1, c ≠ 0 ∧ c ≠ 10 := by
  have hsign : ∀ c ∈ ([45] : List UInt8), c ≠ 0 ∧ c ≠ 10 :=
    List.forall_mem_singleton.mpr (by decide)
  have hbase : ∀ c ∈ ([48, 120] : List UInt8), c ≠ 0 ∧ c ≠ 10 :=
    List.forall_mem_cons.mpr ⟨by decide, List.forall_mem_singleton.mpr (by decide)⟩
  have hnone : ∀ c ∈ ([] : List UInt8), c ≠ 0 ∧ c ≠ 10 := List.forall_mem_nil _
  unfold numberStart
  by_cases hd : conversion = 100
  · rw [if_pos hd]
    by_cases hneg : value < 0
    · rw [if_pos hneg]
      exact ⟨Nat.le_succ 1, hsign⟩
    · rw [if_neg hneg]
      exact ⟨Nat.zero_le 2, hnone⟩
  rw [if_neg hd]
  by_cases hu : conversion = 117
  · rw [if_pos hu]
    exact ⟨Nat.zero_le 2, hnone⟩
  rw [if_neg hu]
  by_cases hp : conversion = 112
  · rw [if_pos hp]
    exact ⟨Nat.le_refl 2, hbase⟩
  rw [if_neg hp]
  by_cases hx : conversion = 120
  · rw [if_pos hx]
    exact ⟨Nat.zero_le 2, hnone⟩
  · rw [if_neg hx]
    exact ⟨Nat.zero_le 2, hnone⟩

/-! ## Messages of numbers -/

/-- The room a directive may need in the converted text. -/
def room : Directive → Nat
  | .char c => if c = 10 then 2 else 1
  | .int _ _ => 22
  | _ => 0

/-- The directive is text or a number; a terminator among the text would end the message early. -/
def ofNumbers : Directive → Bool
  | .char c => c ≠ 0
  | .int _ _ => true
  | _ => false

/-- The numbers a directive takes: one or none. -/
def takes : Directive → Nat
  | .int _ _ => 1
  | _ => 0

/-- A format that takes `n` numbers and nothing else, with room for them all. -/
def briefFormat (format : List UInt8) (n : Nat) : Bool :=
  match directives format with
  | none => false
  | some ds => ds.all ofNumbers && (ds.map takes).sum ≤ n && (ds.map room).sum < 1024

theorem briefFormat_ofList {l : List Char} {n : Nat}
    (h : briefFormat (l.map fun c => c.toNat.toUInt8) n = true) :
    briefFormat (ascii (String.ofList l)) n = true := by
  rw [ascii_ofList]
  exact h

/-- The text of a format with numbers. -/
theorem formatText_numbers {ds : List Directive} {nums : List Int} (base : Base)
    (hds : ∀ d ∈ ds, ofNumbers d = true) (htakes : (ds.map takes).sum ≤ nums.length) :
    ∃ t, formatText base ds (nums.map Arg.int) = some t ∧ (0 : UInt8) ∉ t ∧
      (lineEnds t).length ≤ (ds.map room).sum := by
  induction ds generalizing nums base with
  | nil => exact ⟨[], rfl, List.not_mem_nil, Nat.le_refl 0⟩
  | cons d ds ih =>
      have hrest : ∀ d ∈ ds, ofNumbers d = true := fun x hx => hds x (List.mem_cons_of_mem d hx)
      have hd : ofNumbers d = true := hds d List.mem_cons_self
      rw [List.map_cons, List.sum_cons] at htakes ⊢
      cases d with
      | char c =>
          have hc : c ≠ 0 := of_decide_eq_true hd
          obtain ⟨t, ht, h0, hlen⟩ := ih base hrest (Nat.le_of_add_left_le htakes)
          refine ⟨c :: t, ?_, ?_, ?_⟩
          · rw [formatText, ht]
            rfl
          · rw [List.mem_cons, not_or]
            exact ⟨Ne.symm hc, h0⟩
          · rw [lineEnds_cons, List.length_append, room]
            split <;> simp only [List.length_cons, List.length_nil] <;> omega
      | int longValue conversion =>
          cases nums with
          | nil => simp [takes] at htakes
          | cons i nums =>
              rw [List.length_cons, takes] at htakes
              rw [List.map_cons, formatText]
              obtain ⟨hstart, hplain⟩ := numberStart_brief conversion
                (i.bmod (if longValue then 2 ^ 64 else 2 ^ 32)) base
              generalize numberStart conversion
                (i.bmod (if longValue then 2 ^ 64 else 2 ^ 32)) base = number at hstart hplain ⊢
              have hleft : (ds.map takes).sum ≤ nums.length := by omega
              obtain ⟨t, ht, h0, hlen⟩ := ih number.2.2 hrest hleft
              have hdigits := length_itoaText_le number.2.2 (unsignedOf_lt longValue number.2.1)
              generalize hn : itoaText number.2.2 (unsignedOf longValue number.2.1) = digits
                at hdigits
              have hmem : ∀ c ∈ digits, c ≠ 0 ∧ c ≠ 10 := fun c hc => mem_itoaText (hn ▸ hc)
              refine ⟨number.1 ++ (digits ++ t), ?_, ?_, ?_⟩
              · rw [ht]
                rfl
              · rw [List.mem_append, List.mem_append, not_or, not_or]
                exact ⟨fun h => (hplain 0 h).1 rfl, fun h => (hmem 0 h).1 rfl, h0⟩
              · rw [lineEnds_append, lineEnds_append,
                  lineEnds_of_notMem fun h => (hplain 10 h).2 rfl,
                  lineEnds_of_notMem fun h => (hmem 10 h).2 rfl, List.length_append,
                  List.length_append, room]
                omega
      | str => cases hd
      | chr => cases hd

/-- **Messages of numbers** always fit: the format has room for the longest numbers there are. -/
theorem fits_numbers {format : String} (nums : List Int)
    (h : briefFormat (ascii format) nums.length = true) :
    Fits (.printf format (nums.map Arg.int)) := by
  unfold briefFormat at h
  cases hds : directives (ascii format) with
  | none =>
      rw [hds] at h
      cases h
  | some ds =>
      rw [hds] at h
      simp only [Bool.and_eq_true, List.all_eq_true, decide_eq_true_eq] at h
      obtain ⟨⟨hall, htakes⟩, hroom⟩ := h
      obtain ⟨t, ht, h0, hlen⟩ := formatText_numbers .ten hall htakes
      have htext : textOf (.printf format (nums.map Arg.int)) = some t := by
        rw [textOf, hds]
        exact ht
      exact (fits_iff htext h0).mpr (hlen.trans_lt hroom)

/-! ## Messages with a string -/

section

variable {format : String} {pre mid post : List UInt8} {v : CString}

/-- **A message with a string** fits exactly if the string leaves room for the rest, of which line
ends take two bytes each. -/
theorem fits_value_iff (hformat : ascii format = pre ++ 37 :: 115 :: post)
    (hpre : (37 : UInt8) ∉ pre ∧ (0 : UInt8) ∉ pre)
    (hpost : (37 : UInt8) ∉ post ∧ (0 : UInt8) ∉ post) (hv : (10 : UInt8) ∉ v.bytes) :
    Fits (.printf format [.str v.bytes]) ↔
      (lineEnds pre).length + v.length + (lineEnds post).length < 1024 := by
  have h0 : (0 : UInt8) ∉ pre ++ (v.bytes ++ post) := by
    rw [List.mem_append, List.mem_append, not_or, not_or]
    exact ⟨hpre.2, v.nul_notMem, hpost.2⟩
  rw [fits_iff (textOf_value hformat hpre.1 hpost.1 v.bytes) h0, lineEnds_append,
    lineEnds_append, lineEnds_of_notMem hv, List.length_append, List.length_append, CString.length,
    Nat.add_assoc]

/-- The room a message leaves for its string. -/
theorem fits_room_iff {room : Nat} (pre post : List UInt8)
    (hformat : ascii format = pre ++ 37 :: 115 :: post)
    (hpre : (37 : UInt8) ∉ pre ∧ (0 : UInt8) ∉ pre)
    (hpost : (37 : UInt8) ∉ post ∧ (0 : UInt8) ∉ post)
    (hroom : (lineEnds pre).length + room + (lineEnds post).length = 1023)
    (hv : (10 : UInt8) ∉ v.bytes) :
    Fits (.printf format [.str v.bytes]) ↔ v.length ≤ room := by
  rw [fits_value_iff hformat hpre hpost hv]
  omega

/-- **A message with a string and a size** fits exactly if both, and the text around them, are
shorter than the buffer. -/
theorem fits_sized_iff
    (hformat : ascii format = pre ++ 37 :: 115 :: (mid ++ 37 :: 108 :: 117 :: post))
    (hpre : (37 : UInt8) ∉ pre ∧ (0 : UInt8) ∉ pre)
    (hmid : (37 : UInt8) ∉ mid ∧ (0 : UInt8) ∉ mid)
    (hpost : (37 : UInt8) ∉ post ∧ (0 : UInt8) ∉ post) (hv : (10 : UInt8) ∉ v.bytes) (x : Int64) :
    Fits (.printf format [.str v.bytes, .int x.toInt]) ↔
      (lineEnds pre).length + v.length + (lineEnds mid).length + numberLength x.toUInt64.toNat +
        (lineEnds post).length < 1024 := by
  have hdigits : ∀ c ∈ itoaText .ten x.toUInt64.toNat, c ≠ 0 ∧ c ≠ 10 := fun c hc => mem_itoaText hc
  have h0 : (0 : UInt8) ∉
      pre ++ (v.bytes ++ (mid ++ (itoaText .ten x.toUInt64.toNat ++ post))) := by
    simp only [List.mem_append, not_or]
    exact ⟨hpre.2, v.nul_notMem, hmid.2, fun h => (hdigits 0 h).1 rfl, hpost.2⟩
  have htext := textOf_sized hformat hpre.1 hmid.1 hpost.1 v.bytes x.toInt
  rw [unsignedOf_toInt] at htext
  rw [fits_iff htext h0]
  simp only [lineEnds_append, List.length_append]
  rw [lineEnds_of_notMem hv, lineEnds_of_notMem fun h => (hdigits 10 h).2 rfl, CString.length,
    numberLength]
  simp only [Nat.add_assoc]

end

/-! ## Levels -/

/-- The level in front of a message. -/
theorem fits_level {level : CString} (h : (10 : UInt8) ∉ level.bytes) (hlen : level.length < 1000) :
    Fits (.printf "%s: " [.str level.bytes]) := by
  apply (@fits_value_iff "%s: " [] [58, 32] level rfl (by decide) (by decide) h).mpr
  show 0 + level.length + 2 < 1024
  omega

theorem fits_prErr_iff (format : String) (args : List Arg) :
    (∀ o ∈ prErr format args, Fits o) ↔ Fits (.printf format args) := by
  have hlevel : Fits (.printf "%s: " [.str (ascii "ERROR")]) :=
    @fits_level ⟨ascii "ERROR", by decide⟩ (by decide) (by decide)
  rw [prErr, List.forall_mem_cons, List.forall_mem_singleton]
  exact ⟨And.right, fun h => ⟨hlevel, h⟩⟩

theorem fits_prInfo_iff (format : String) (args : List Arg) :
    (∀ o ∈ prInfo format args, Fits o) ↔ Fits (.printf format args) := by
  have hlevel : Fits (.printf "%s: " [.str (ascii "INFO")]) :=
    @fits_level ⟨ascii "INFO", by decide⟩ (by decide) (by decide)
  rw [prInfo, List.forall_mem_cons, List.forall_mem_singleton]
  exact ⟨And.right, fun h => ⟨hlevel, h⟩⟩

end LoliLoader.Interaction
