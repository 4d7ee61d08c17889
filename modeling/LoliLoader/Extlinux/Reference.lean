/-
# LoliLoader.Extlinux.Reference -- what an extlinux configuration means

A configuration is read line by line. A line whose first words are a key's words and that has a word
more is a pair; the rest of the line, blanks stripped, is the value. `label` pairs start the
entries: the lines before the first one are the global options, and the lines after one, up to the
next, are its block.

Nothing here mentions pointers or scanning. The definitions follow the manual page and the test
suite of the library, where a configuration is a list of lines and a key a list of words; they are
as short as they can be, since they are what a reader has to agree with.

A `Key` has one or more tokens, with gaps of blanks between them. The gaps are part of it, because a
caller spells the key somehow and the parser reads that spelling; they do not matter for what is
found, and `isPair` only has the tokens.

`SpellsLabel` says once more what a label line is, character by character. It is used to state what
the enumeration finds without a reference to words; the two notions are the same lines.

Positions are those of the first non-blank character of a line, which is where an entry's pointer
stands.
-/
import LoliLoader.Text.Lines
import LoliLoader.Text.Words
import LoliLoader.Extlinux.Parser

namespace LoliLoader.Extlinux

open Text

abbrev Line := Located UInt8

/-- Blanks are spaces and tabs. A carriage return is not one, and becomes a part of the value. -/
def isBlank (c : UInt8) : Bool := c == tab || c == space

/-! ## Keys -/

/-- A word of a key: not empty, and without blanks, newline and terminator, so that it is found as a
word of a line. -/
structure Token where
  bytes : List UInt8
  ne_nil : bytes ≠ []
  plain : ∀ c ∈ bytes, isBlank c = false ∧ c ≠ newline ∧ c ≠ 0

theorem plain_of_all {bs : List UInt8}
    (h : bs.all (fun c => !isBlank c && c != newline && c != 0) = true) :
    ∀ c ∈ bs, isBlank c = false ∧ c ≠ newline ∧ c ≠ 0 := by
  intro c hc
  have hplain := List.all_eq_true.mp h c hc
  simpa [and_assoc] using hplain

/-- A non-empty run of blanks, as it stands between two words of a key. -/
structure Gap where
  bytes : List UInt8
  ne_nil : bytes ≠ []
  blank : ∀ c ∈ bytes, isBlank c = true

/-- A key: one or more tokens with gaps between them, as in `menu title`. -/
structure Key where
  first : Token
  more : List (Gap × Token)

namespace Key

/-- The key as the caller spells it, with whatever blanks there are in its gaps. -/
def bytes (K : Key) : List UInt8 :=
  K.first.bytes ++ K.more.flatMap fun gt => gt.1.bytes ++ gt.2.bytes

/-- The tokens of the key, which are all that counts when it is compared with a line. -/
def tokens (K : Key) : List (List UInt8) :=
  K.first.bytes :: K.more.map fun gt => gt.2.bytes

theorem nul_notMem (K : Key) : (0 : UInt8) ∉ K.bytes := by
  have hblank : isBlank 0 = false := by decide
  intro h
  rcases List.mem_append.mp h with h | h
  · exact (K.first.plain 0 h).2.2 rfl
  · obtain ⟨⟨g, t⟩, -, h⟩ := List.mem_flatMap.mp h
    rcases List.mem_append.mp h with h | h
    · exact absurd (g.blank 0 h) (by simp [hblank])
    · exact (t.plain 0 h).2.2 rfl

/-- The key as a C string, which is what the functions of the library are given. -/
def cstring (K : Key) : C.CString := ⟨K.bytes, K.nul_notMem⟩

end Key

/-! ## Pairs -/

/-- A line is a pair for `tokens` when its first words are these and one more follows. -/
def isPair (tokens : List (List UInt8)) (l : List UInt8) : Prop :=
  tokens <+: words isBlank l ∧ tokens.length < (words isBlank l).length

instance (tokens : List (List UInt8)) (l : List UInt8) : Decidable (isPair tokens l) := by
  unfold isPair
  infer_instance

/-- The value of a pair: what follows the key, blanks stripped on both sides. -/
def pairValue (tokens : List (List UInt8)) (l : List UInt8) : List UInt8 :=
  (afterWords isBlank tokens.length l).rdropWhile isBlank

/-- The position of the value of a pair: behind the words of the key and the blanks that follow
them. -/
def pairStart (tokens : List (List UInt8)) (l : Line) : Nat :=
  l.start + (l.line.length - (afterWords isBlank tokens.length l.line).length)

/-- The words of the key that starts an entry. -/
def labelTokens : List (List UInt8) := [C.ascii "label"]

/-- A line that starts an entry: a pair whose key is `label`. -/
def isLabel (l : Line) : Prop := isPair labelTokens l.line

instance (l : Line) : Decidable (isLabel l) := by
  unfold isLabel
  infer_instance

/-- A label line character by character: blanks, `label`, at least one blank and a
non-blank. -/
def SpellsLabel (l : List UInt8) : Prop :=
  ∃ b g c r, l = b ++ (C.ascii "label" ++ (g ++ c :: r)) ∧ (∀ x ∈ b, isBlank x = true) ∧
    g ≠ [] ∧ (∀ x ∈ g, isBlank x = true) ∧ isBlank c = false

/-- The first line of `ls` that is a pair for `tokens`. -/
def findPair (tokens : List (List UInt8)) (ls : List Line) : Option Line :=
  ls.find? fun l => isPair tokens l.line

/-! ## Entries and blocks -/

/-- The lines of a configuration, each with its position. The last one counts also if it is
empty. -/
def lines (cfg : C.CString) : List Line := linesFrom newline 0 cfg.bytes

/-- The position of the first non-blank character of a line. -/
def firstPlain (l : Line) : Nat := l.start + (l.line.takeWhile isBlank).length

/-- The lines that start an entry, in file order. -/
def labelLines (cfg : C.CString) : List Line := (lines cfg).filter fun l => isLabel l

/-- The positions of the entries, in file order: what an enumeration is to report. -/
def entryPositions (cfg : C.CString) : List Nat := (labelLines cfg).map firstPlain

/-- The lines up to, and excluding, the first label pair. -/
def untilLabel (ls : List Line) : List Line := ls.takeWhile fun l => ¬ isLabel l

/-- The global options: the lines before the first label pair. -/
def globals (cfg : C.CString) : List Line := untilLabel (lines cfg)

/-- The lines that start behind position `p`; one that starts at `p` is not among them. -/
def linesAfter (cfg : C.CString) (p : Nat) : List Line :=
  (lines cfg).dropWhile fun l => l.start ≤ p

/-- The block of the entry at `p`: the lines after its own, up to the next label pair. -/
def block (cfg : C.CString) (p : Nat) : List Line := untilLabel (linesAfter cfg p)

end LoliLoader.Extlinux
