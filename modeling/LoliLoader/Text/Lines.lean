/-
# LoliLoader.Text.Lines -- the lines of a text, with their positions

A text is a list over any alphabet with a separator. `linesFrom` cuts it at the separator and keeps,
for every line, the position of its first element, so that statements about a scanner that walks the
text by position can name lines.

A scanner has the whole text and an offset; a specification would rather speak of lines. What joins
the two is that a line sits in the text at its own position (`drop_start_of_mem_linesFrom`), that
lines follow each other with one separator between them (`pairwise_located`), and that the lines
behind an offset are those of the text that is left there (`dropWhile_start_le`).

`text_induction` is the induction that every such scanner needs: the text is one last line, or it is
a line, the separator and a text. A proof about a scanner that stops at line ends follows it case by
case, and never splits the text at an arbitrary element.

Nothing here knows what the elements are. The last line counts as one even if it is empty, so a text
always has a line, and never more lines than it has separators and one.
-/
import Mathlib.Data.List.Basic

namespace LoliLoader.Text

variable {α : Type*}

/-! ## Located lines -/

/-- A line together with the position of its first element, so that lines with the same contents in
different places of a text are different. -/
structure Located (α : Type*) where
  start : Nat
  line : List α
  deriving Repr, DecidableEq

/-- Number the lines of a text whose first line starts at `n`. -/
def located : Nat → List (List α) → List (Located α)
  | _, [] => []
  | n, l :: ls => ⟨n, l⟩ :: located (n + l.length + 1) ls

variable [DecidableEq α]

/-- The lines of `text`, when `text` itself starts at position `n`. -/
def linesFrom (sep : α) (n : Nat) (text : List α) : List (Located α) :=
  located n (text.splitOn sep)

theorem linesFrom_last {sep : α} {l : List α} (n : Nat) (hl : sep ∉ l) :
    linesFrom sep n l = [⟨n, l⟩] := by
  simp [linesFrom, List.splitOn_eq_singleton hl, located]

theorem linesFrom_line {sep : α} {l : List α} (n : Nat) (r : List α) (hl : sep ∉ l) :
    linesFrom sep n (l ++ sep :: r) = ⟨n, l⟩ :: linesFrom sep (n + l.length + 1) r := by
  simp [linesFrom, List.splitOn_append_cons_self_of_not_mem hl, located]

/-- Every text is one last line, or a line followed by the separator and a text. -/
theorem text_induction {motive : List α → Prop} (sep : α)
    (last : ∀ l, sep ∉ l → motive l)
    (line : ∀ l r, sep ∉ l → motive r → motive (l ++ sep :: r)) (text : List α) :
    motive text := by
  induction hn : text.length using Nat.strongRecOn generalizing text with
  | _ n ih =>
    by_cases hmem : sep ∈ text
    · obtain ⟨l, r, rfl, hl⟩ := List.eq_append_cons_of_mem hmem
      exact line l r hl (ih r.length (by simp at hn; omega) r rfl)
    · exact last text hmem

/-- There are no more lines than separators, and one. -/
theorem length_linesFrom_le {sep : α} (n : Nat) (text : List α) :
    (linesFrom sep n text).length ≤ text.length + 1 := by
  induction text using text_induction sep generalizing n with
  | last l hl =>
      rw [linesFrom_last n hl, List.length_singleton]
      exact Nat.le_add_left _ _
  | line l r hl ih =>
      rw [linesFrom_line n r hl, List.length_cons, List.length_append, List.length_cons]
      have := ih (n + l.length + 1)
      omega

/-! ## Lines and positions -/

omit [DecidableEq α] in
theorem le_start_of_mem_located {n : Nat} {ls : List (List α)} {l : Located α}
    (h : l ∈ located n ls) : n ≤ l.start := by
  induction ls generalizing n with
  | nil => simp [located] at h
  | cons x xs ih =>
      rcases List.mem_cons.mp h with rfl | h
      · exact Nat.le_refl _
      · have := ih h
        omega

theorem le_start_of_mem_linesFrom {sep : α} {n : Nat} {text : List α} {l : Located α}
    (h : l ∈ linesFrom sep n text) : n ≤ l.start :=
  le_start_of_mem_located h

/-- No line of a text has the separator in it. -/
theorem sep_notMem_of_mem_linesFrom {sep : α} {n : Nat} {text : List α} {l : Located α}
    (h : l ∈ linesFrom sep n text) : sep ∉ l.line := by
  induction text using text_induction sep generalizing n with
  | last l' hl' =>
      rw [linesFrom_last n hl', List.mem_singleton] at h
      simpa [h] using hl'
  | line l' r hl' ih =>
      rw [linesFrom_line n r hl'] at h
      rcases List.mem_cons.mp h with rfl | h
      · exact hl'
      · exact ih h

/-- A line sits in the text at its own position. -/
theorem drop_start_of_mem_linesFrom {sep : α} {n : Nat} {text : List α} {l : Located α}
    (h : l ∈ linesFrom sep n text) :
    ∃ r, text.drop (l.start - n) = l.line ++ r ∧ (r = [] ∨ ∃ r', r = sep :: r') := by
  induction text using text_induction sep generalizing n with
  | last l' hl' =>
      rw [linesFrom_last n hl', List.mem_singleton] at h
      subst h
      exact ⟨[], by simp, Or.inl rfl⟩
  | line l' r hl' ih =>
      rw [linesFrom_line n r hl'] at h
      rcases List.mem_cons.mp h with rfl | h
      · exact ⟨sep :: r, by simp, Or.inr ⟨r, rfl⟩⟩
      · have hle := le_start_of_mem_linesFrom h
        obtain ⟨r', hr', hcase⟩ := ih h
        refine ⟨r', ?_, hcase⟩
        have hsplit : l.start - n = (l' ++ [sep]).length + (l.start - (n + l'.length + 1)) := by
          simp only [List.length_append, List.length_singleton]
          omega
        rw [hsplit, ← hr', show l' ++ sep :: r = (l' ++ [sep]) ++ r by simp, List.drop_append]
        simp

omit [DecidableEq α] in
/-- Lines follow each other with one separator between them. -/
theorem pairwise_located (n : Nat) (ls : List (List α)) :
    (located n ls).Pairwise fun a b => a.start + a.line.length < b.start := by
  induction ls generalizing n with
  | nil => exact List.Pairwise.nil
  | cons x xs ih =>
      refine List.Pairwise.cons ?_ (ih _)
      intro b hb
      exact le_start_of_mem_located hb

/-- The lines behind a position inside a line are those behind that line. -/
theorem dropWhile_start_of_split {sep : α} {n p : Nat} {text : List α}
    {pre post : List (Located α)} {l : Located α} (h : linesFrom sep n text = pre ++ l :: post)
    (hstart : l.start ≤ p) (hend : p ≤ l.start + l.line.length) :
    (linesFrom sep n text).dropWhile (fun l => l.start ≤ p) = post := by
  have hpw := pairwise_located n (text.splitOn sep)
  change (linesFrom sep n text).Pairwise _ at hpw
  rw [h, List.pairwise_append] at hpw
  obtain ⟨-, hpost, hpre⟩ := hpw
  have hdrop : ∀ a ∈ pre, decide (a.start ≤ p) = true := by
    intro a ha
    have := hpre a ha l List.mem_cons_self
    simp only [decide_eq_true_eq]
    omega
  rw [h, List.dropWhile_append_of_pos hdrop, List.dropWhile_cons_of_pos (by simpa using hstart)]
  cases post with
  | nil => rfl
  | cons b post =>
      have hb := (List.pairwise_cons.mp hpost).1 b List.mem_cons_self
      rw [List.dropWhile_cons_of_neg]
      simp only [decide_eq_true_eq]
      omega

theorem end_le_of_mem_linesFrom {sep : α} {n : Nat} {text : List α} {l : Located α}
    (h : l ∈ linesFrom sep n text) : l.start + l.line.length ≤ n + text.length := by
  induction text using text_induction sep generalizing n with
  | last l' hl' =>
      rw [linesFrom_last n hl', List.mem_singleton] at h
      simp [h]
  | line l' r hl' ih =>
      rw [linesFrom_line n r hl'] at h
      simp only [List.length_append, List.length_cons]
      rcases List.mem_cons.mp h with rfl | h
      · simp only
        omega
      · have := ih h
        omega

/-- The lines after position `p` are the lines after the first one of the text
read from `p` on. -/
theorem dropWhile_start_le (sep : α) (n p : Nat) {text : List α} (hp : p ≤ text.length) :
    (linesFrom sep n text).dropWhile (fun l => l.start ≤ n + p)
      = (linesFrom sep (n + p) (text.drop p)).tail := by
  induction text using text_induction sep generalizing n p with
  | last l hl =>
      have hl' : sep ∉ l.drop p := fun h => hl (List.mem_of_mem_drop h)
      rw [linesFrom_last n hl, linesFrom_last _ hl']
      simp
  | line l r hl ih =>
      rw [linesFrom_line n r hl]
      by_cases hpl : p ≤ l.length
      · -- `p` is in the first line: the next one starts behind it
        have hl' : sep ∉ l.drop p := fun h => hl (List.mem_of_mem_drop h)
        rw [List.drop_append_of_le_length hpl, linesFrom_line _ r hl']
        have hstop : ∀ k ≥ n + l.length + 1,
            (linesFrom sep k r).dropWhile (fun l => l.start ≤ n + p) = linesFrom sep k r := by
          intro k hk
          cases hls : linesFrom sep k r with
          | nil => rfl
          | cons x xs =>
              have hx : k ≤ x.start := le_start_of_mem_linesFrom (hls ▸ List.mem_cons_self)
              rw [List.dropWhile_cons_of_neg]
              simp only [decide_eq_true_eq]
              omega
        rw [List.dropWhile_cons_of_pos (by simp), hstop _ (by omega), List.tail_cons,
          List.length_drop]
        congr 1
        omega
      -- `p` is behind the first line and its separator, at position `q` of the rest
      · obtain ⟨q, rfl⟩ : ∃ q, p = l.length + 1 + q := ⟨p - (l.length + 1), by omega⟩
        have hq : q ≤ r.length := by
          simp only [List.length_append, List.length_cons] at hp
          omega
        have hdrop : (l ++ sep :: r).drop (l.length + 1 + q) = r.drop q := by
          rw [show l ++ sep :: r = (l ++ [sep]) ++ r by simp,
            show l.length + 1 + q = (l ++ [sep]).length + q by simp, List.drop_append]
          simp
        rw [hdrop, List.dropWhile_cons_of_pos (by simp)]
        have := ih (n + l.length + 1) q hq
        rw [show n + (l.length + 1 + q) = n + l.length + 1 + q by omega]
        exact this

end LoliLoader.Text
