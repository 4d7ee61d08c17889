/-
# LoliLoader.Text.Words -- the words of a line

A line is cut into words at the elements that a predicate calls blank. `words` lists them, and
`afterWords n` is what is left of the line behind its first `n` words and the blanks that follow
them.

Both are defined by skipping blanks first, so leading blanks never matter, and a line of blanks has
no words. A line that starts with a non-blank is its first word and then either nothing or a blank
(`words_of_head_plain`), which is the step that a scanner makes.

The two functions go together: behind its first `n` words a line has its other words
(`words_afterWords`), and if it has any, what is left there does not vanish when blanks at its end
are dropped (`rdropWhile_afterWords_ne_nil`).

The alphabet is arbitrary. Line ends play no part, since a line is taken to be without them; how a
text falls into lines is the subject of `Text.Lines`.
-/
import Mathlib.Data.List.DropRight

namespace LoliLoader.Text

variable {α : Type*} (blank : α → Bool)

/-- The words of a line: the non-empty runs between blanks. -/
def words (l : List α) : List (List α) :=
  (l.splitOnP blank).filter (fun w => !w.isEmpty)

/-- What is left of a line behind its first `n` words, without leading blanks. -/
def afterWords : Nat → List α → List α
  | 0, l => l.dropWhile blank
  | n + 1, l => afterWords n ((l.dropWhile blank).dropWhile (fun c => !blank c))

variable {blank}

@[simp] theorem words_nil : words blank [] = [] := rfl

theorem words_cons_blank {b : α} (l : List α) (hb : blank b = true) :
    words blank (b :: l) = words blank l := by
  simp [words, List.splitOnP_cons_eq_if_modifyHead, hb]

@[simp] theorem words_dropWhile (l : List α) : words blank (l.dropWhile blank) = words blank l := by
  induction l with
  | nil => rfl
  | cons c l ih =>
      by_cases hc : blank c = true
      · rw [List.dropWhile_cons_of_pos hc, ih, words_cons_blank l hc]
      · rw [List.dropWhile_cons_of_neg hc]

theorem words_word {w : List α} (hw : w ≠ []) (hplain : ∀ c ∈ w, blank c = false) :
    words blank w = [w] := by
  simp [words, List.splitOnP_eq_singleton hplain, hw]

theorem words_word_blank {w : List α} {b : α} (r : List α) (hw : w ≠ [])
    (hplain : ∀ c ∈ w, blank c = false) (hb : blank b = true) :
    words blank (w ++ b :: r) = w :: words blank r := by
  simp [words, List.splitOnP_append_cons_of_forall_mem hplain b hb, hw]

/-- What is left when a prefix is dropped does not start like it. -/
theorem head_of_dropWhile {p : α → Bool} {l r : List α} {c : α} (h : l.dropWhile p = c :: r) :
    p c = false := by
  have hhead := List.head?_dropWhile_not p l
  rw [h] at hhead
  simpa using hhead

/-- A line that starts with a non-blank is its first word, then nothing or a blank. -/
theorem words_of_head_plain {l : List α} {c : α} {r : List α} (hl : l = c :: r)
    (hc : blank c = false) :
    words blank l
      = l.takeWhile (fun c => !blank c) :: words blank (l.dropWhile (fun c => !blank c)) := by
  have hne : l.takeWhile (fun c => !blank c) ≠ [] := by simp [hl, hc]
  have hplain : ∀ c ∈ l.takeWhile (fun c => !blank c), blank c = false := by
    intro x hx
    simpa using List.mem_takeWhile_imp hx
  -- the first word is the whole line, or there is a blank behind it
  cases hr : l.dropWhile (fun c => !blank c) with
  | nil =>
      have : l = l.takeWhile (fun c => !blank c) := by
        conv_lhs => rw [← List.takeWhile_append_dropWhile (p := fun c => !blank c) (l := l), hr]
        simp
      rw [words_nil, ← words_word hne hplain, ← this]
  | cons b r' =>
      have hb : blank b = true := by simpa using head_of_dropWhile hr
      conv_lhs => rw [← List.takeWhile_append_dropWhile (p := fun c => !blank c) (l := l), hr]
      rw [words_word_blank r' hne hplain hb, words_cons_blank r' hb]

theorem words_eq_nil_iff {l : List α} : words blank l = [] ↔ l.dropWhile blank = [] := by
  constructor
  · intro h
    rw [← words_dropWhile] at h
    cases hl : l.dropWhile blank with
    | nil => rfl
    | cons c r =>
        rw [words_of_head_plain hl (head_of_dropWhile hl)] at h
        exact absurd h (by simp)
  · intro h
    rw [← words_dropWhile, h, words_nil]

@[simp] theorem afterWords_dropWhile (n : Nat) (l : List α) :
    afterWords blank n (l.dropWhile blank) = afterWords blank n l := by
  cases n with
  | zero => simp [afterWords, List.dropWhile_idempotent]
  | succ n => simp [afterWords, List.dropWhile_idempotent]

/-- Behind its first `n` words a line has its other words. -/
theorem words_afterWords (n : Nat) (l : List α) :
    words blank (afterWords blank n l) = (words blank l).drop n := by
  induction n generalizing l with
  | zero => simp [afterWords]
  | succ n ih =>
      rw [afterWords, ih, ← words_dropWhile l]
      cases hl : l.dropWhile blank with
      | nil => simp
      | cons c r =>
          rw [words_of_head_plain rfl (head_of_dropWhile hl), List.drop_succ_cons]

/-- A line with more than `n` words has a non-blank behind them. -/
theorem rdropWhile_afterWords_ne_nil {n : Nat} {l : List α} (h : n < (words blank l).length) :
    (afterWords blank n l).rdropWhile blank ≠ [] := by
  intro hnil
  have hall : ∀ x ∈ afterWords blank n l, blank x = true := List.rdropWhile_eq_nil_iff.mp hnil
  have hwords : words blank (afterWords blank n l) = [] := by
    rw [words_eq_nil_iff, List.dropWhile_eq_nil_iff]
    exact hall
  rw [words_afterWords, List.drop_eq_nil_iff] at hwords
  omega

end LoliLoader.Text
