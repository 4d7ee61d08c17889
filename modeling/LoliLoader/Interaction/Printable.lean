/-
# LoliLoader.Interaction.Printable -- calls that print a string

A call of `printf` is in order if its arguments are those its format asks for and there is no end of
a string among what it shows. Both can be read off the format and the kinds of the arguments.

An argument of the wrong kind is undefined in C, and a terminator in the text makes `puts_internal`
stop early. `Printable` excludes both: the call prints some string, which is then all that the
devices are given.

`asks` compares a format with a list of kinds, and it is computed: that a format of the source asks
for what it is called with is one evaluation for each format. `printable_printf` does the rest, for
any arguments of these kinds. Numbers never have a terminator in their text; strings are `CString`s
and have none either.

A character as an argument is left to its caller (`agrees`), since `%c` prints whatever it is given.
The only such call is the echo of a key that can be printed.
-/
import LoliLoader.Interaction.Delivery
import LoliLoader.Interaction.Messages

namespace LoliLoader.Interaction

open C

/-! ## Formats and arguments -/

/-- The call prints some string: its arguments are those of its format, and no terminator is among
the text. -/
def Printable (o : Output) : Prop := ∃ text, Prints o text

/-- What an argument of `printf` may be: a number of any width, or a string. -/
inductive Kind where
  | int
  | str
  deriving DecidableEq, Repr

/-- The kind of an argument. -/
def kindOf : Arg → Kind
  | .int _ => .int
  | .str _ => .str

/-- The arguments are those the directives ask for. A character is left out: it may be the end of a
string. -/
def agrees : List Directive → List Kind → Bool
  | [], _ => true
  | .char c :: ds, ks => c ≠ 0 && agrees ds ks
  | .int _ _ :: ds, .int :: ks => agrees ds ks
  | .str :: ds, .str :: ks => agrees ds ks
  | _, _ => false

/-- The format asks for arguments of these kinds. -/
def asks (format : String) (ks : List Kind) : Bool :=
  (directives (ascii format)).any fun ds => agrees ds ks

theorem asks_ofList {l : List Char} {ks : List Kind}
    (h : (directives (l.map fun c => c.toNat.toUInt8)).any (fun ds => agrees ds ks) = true) :
    asks (String.ofList l) ks = true := by
  rw [asks, ascii_ofList]
  exact h

/-- **The text** of a format with the arguments it asks for: there is one, and no terminator is in
it if none is in the strings. -/
theorem formatText_agrees {ds : List Directive} {va : List Arg} (base : Base)
    (h : agrees ds (va.map kindOf) = true) (hstr : ∀ s, .str s ∈ va → (0 : UInt8) ∉ s) :
    ∃ t, formatText base ds va = some t ∧ (0 : UInt8) ∉ t := by
  induction ds generalizing va base with
  | nil => exact ⟨[], by cases va <;> rfl, List.not_mem_nil⟩
  | cons d ds ih =>
      cases d with
      | char c =>
          rw [agrees, Bool.and_eq_true, decide_eq_true_eq] at h
          obtain ⟨t, ht, h0⟩ := ih base h.2 hstr
          refine ⟨c :: t, by rw [formatText, ht, Option.map_some], ?_⟩
          rw [List.mem_cons, not_or]
          exact ⟨Ne.symm h.1, h0⟩
      | int longValue conversion =>
          rcases va with _ | ⟨_ | _, va⟩
          · cases h
          · rename_i i
            rw [formatText]
            obtain ⟨-, hplain⟩ := numberStart_brief conversion
              (i.bmod (if longValue then 2 ^ 64 else 2 ^ 32)) base
            generalize numberStart conversion
              (i.bmod (if longValue then 2 ^ 64 else 2 ^ 32)) base = number at hplain ⊢
            obtain ⟨t, ht, h0⟩ := ih number.2.2 h fun s hs => hstr s (List.mem_cons_of_mem _ hs)
            refine ⟨number.1 ++ (itoaText number.2.2 (unsignedOf longValue number.2.1) ++ t),
              by rw [ht, Option.map_some], ?_⟩
            simp only [List.mem_append, not_or]
            exact ⟨fun h => (hplain 0 h).1 rfl, fun h => (mem_itoaText h).1 rfl, h0⟩
          · cases h
      | str =>
          rcases va with _ | ⟨_ | s, va⟩
          · cases h
          · cases h
          · obtain ⟨t, ht, h0⟩ := ih base h fun s hs => hstr s (List.mem_cons_of_mem _ hs)
            refine ⟨s ++ t, by rw [formatText, ht, Option.map_some], ?_⟩
            rw [List.mem_append, not_or]
            exact ⟨hstr s List.mem_cons_self, h0⟩
      | chr =>
          cases hva : va.map kindOf with
          | nil =>
              rw [hva] at h
              cases h
          | cons k ks =>
              rw [hva] at h
              cases k <;> cases h

/-- **A call of `printf`** is in order if its arguments have the kinds that its format asks for and
its strings have no terminator. -/
theorem printable_printf {format : String} {args : List Arg} (ks : List Kind)
    (hks : args.map kindOf = ks) (h : asks format ks = true)
    (hstr : ∀ s, .str s ∈ args → (0 : UInt8) ∉ s) : Printable (.printf format args) := by
  unfold asks at h
  cases hds : directives (ascii format) with
  | none =>
      rw [hds] at h
      cases h
  | some ds =>
      rw [hds, ← hks] at h
      obtain ⟨t, ht, h0⟩ := formatText_agrees .ten h hstr
      refine ⟨t, ?_, h0⟩
      rw [textOf, hds]
      exact ht

section

variable {format : String}

/-- A message without arguments. -/
theorem printable_plain (h : asks format [] = true) : Printable (.printf format []) :=
  printable_printf [] rfl h fun _ hs => absurd hs List.not_mem_nil

/-- A message with a number. -/
theorem printable_number (i : Int) (h : asks format [.int] = true) :
    Printable (.printf format [.int i]) := by
  refine printable_printf [.int] rfl h fun s hs => ?_
  cases List.mem_singleton.mp hs

/-- A message with two numbers. -/
theorem printable_numbers (i j : Int) (h : asks format [.int, .int] = true) :
    Printable (.printf format [.int i, .int j]) := by
  refine printable_printf [.int, .int] rfl h fun s hs => ?_
  rcases List.mem_pair.mp hs with hs | hs <;> cases hs

/-- A message with a string. -/
theorem printable_string (v : CString) (h : asks format [.str] = true) :
    Printable (.printf format [.str v.bytes]) := by
  refine printable_printf [.str] rfl h fun s hs => ?_
  obtain rfl := Arg.str.inj (List.mem_singleton.mp hs)
  exact v.nul_notMem

/-- A message with a string and a number. -/
theorem printable_sized (v : CString) (i : Int) (h : asks format [.str, .int] = true) :
    Printable (.printf format [.str v.bytes, .int i]) := by
  refine printable_printf [.str, .int] rfl h fun s hs => ?_
  rcases List.mem_pair.mp hs with hs | hs
  · obtain rfl := Arg.str.inj hs
    exact v.nul_notMem
  · cases hs

theorem printable_putsSized {s : List UInt8} (h0 : (0 : UInt8) ∉ s) : Printable (.putsSized s) :=
  ⟨s, rfl, h0⟩

/-! ## Levels -/

variable {args : List Arg}

theorem printable_prErr (h : Printable (.printf format args)) :
    ∀ o ∈ prErr format args, Printable o :=
  List.forall_mem_cons.mpr ⟨printable_string ⟨ascii "ERROR", by decide⟩ (by decide +kernel),
    List.forall_mem_singleton.mpr h⟩

theorem printable_prInfo (h : Printable (.printf format args)) :
    ∀ o ∈ prInfo format args, Printable o :=
  List.forall_mem_cons.mpr ⟨printable_string ⟨ascii "INFO", by decide⟩ (by decide +kernel),
    List.forall_mem_singleton.mpr h⟩

end

end LoliLoader.Interaction
