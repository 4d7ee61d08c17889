/-
# LoliLoader.Text.Spaced -- words written one behind the other

The other direction of `Text.Words`. There a line is taken apart into its words; here a line is put
together from words with blanks behind each of them, and what comes behind them is what is left of
the line.

`Spaced` leaves the blanks open: at least one between two words, any number in front of what is
left, and never the same number twice if that is how the line was written. So a statement that holds
for every `Spaced` line holds whatever the layout is, and this is what a round trip needs: a
document may be written with any blanks, and is read back all the same.

The two lemmas to use are `words_eq`, for the words of such a line, and `afterWords_eq`, for what is
behind the first of them.

As in `Text.Words` the alphabet is arbitrary and the predicate decides what a blank is.
-/
import LoliLoader.Text.Words

namespace LoliLoader.Text

variable {α : Type*} {blank : α → Bool}

/-- The line is the words, each with blanks behind it, and then `rest`. The blanks are any non-empty
run, and a word is not empty and has none in it. -/
inductive Spaced (blank : α → Bool) (rest : List α) : List (List α) → List α → Prop where
  | nil : Spaced blank rest [] rest
  | cons {w g l : List α} {ws : List (List α)} : w ≠ [] → (∀ c ∈ w, blank c = false) →
      g ≠ [] → (∀ c ∈ g, blank c = true) → Spaced blank rest ws l →
      Spaced blank rest (w :: ws) (w ++ (g ++ l))

section

variable {b w g l : List α}

theorem words_blanks (hb : ∀ c ∈ b, blank c = true) : words blank (b ++ l) = words blank l := by
  rw [← words_dropWhile (b ++ l), List.dropWhile_append_of_pos hb, words_dropWhile]

theorem afterWords_blanks (n : Nat) (hb : ∀ c ∈ b, blank c = true) :
    afterWords blank n (b ++ l) = afterWords blank n l := by
  rw [← afterWords_dropWhile n (b ++ l), List.dropWhile_append_of_pos hb, afterWords_dropWhile]

theorem words_gap (hw : w ≠ []) (hplain : ∀ c ∈ w, blank c = false) (hg : g ≠ [])
    (hblank : ∀ c ∈ g, blank c = true) : words blank (w ++ (g ++ l)) = w :: words blank l := by
  obtain ⟨c, g', rfl⟩ := List.exists_cons_of_ne_nil hg
  rw [List.cons_append, words_word_blank _ hw hplain (hblank c List.mem_cons_self),
    words_blanks fun d hd => hblank d (List.mem_cons_of_mem c hd)]

theorem afterWords_gap (n : Nat) (hw : w ≠ []) (hplain : ∀ c ∈ w, blank c = false) (hg : g ≠ [])
    (hblank : ∀ c ∈ g, blank c = true) :
    afterWords blank (n + 1) (w ++ (g ++ l)) = afterWords blank n l := by
  obtain ⟨c, w', rfl⟩ := List.exists_cons_of_ne_nil hw
  obtain ⟨d, g', rfl⟩ := List.exists_cons_of_ne_nil hg
  have hword : ((c :: w') ++ ((d :: g') ++ l)).dropWhile blank = (c :: w') ++ ((d :: g') ++ l) := by
    simp [hplain c List.mem_cons_self]
  have hrest : ((c :: w') ++ ((d :: g') ++ l)).dropWhile (fun c => !blank c)
      = (d :: g') ++ l := by
    rw [List.dropWhile_append_of_pos fun x hx => by simp [hplain x hx]]
    simp [hblank d List.mem_cons_self]
  rw [afterWords, hword, hrest, afterWords_blanks n hblank]

end

namespace Spaced

variable {rest l : List α} {ws : List (List α)}

/-- **The words** of the line are those it was put together from, and then the words of what is
left, however many blanks there are between them. -/
theorem words_eq (h : Spaced blank rest ws l) : words blank l = ws ++ words blank rest := by
  induction h with
  | nil => rfl
  | cons hw hplain hg hblank _ ih => rw [words_gap hw hplain hg hblank, ih, List.cons_append]

/-- What is left behind them. -/
theorem afterWords_eq (h : Spaced blank rest ws l) :
    afterWords blank ws.length l = rest.dropWhile blank := by
  induction h with
  | nil => rfl
  | cons hw hplain hg hblank _ ih =>
      rw [List.length_cons, afterWords_gap _ hw hplain hg hblank, ih]

end Spaced

/-- Blanks behind a list that ends in none are all that is dropped there. -/
theorem rdropWhile_blanks {v t : List α} (hv : ∀ c ∈ v.getLast?, blank c = false)
    (ht : ∀ c ∈ t, blank c = true) : (v ++ t).rdropWhile blank = v := by
  have hend : v.reverse.dropWhile blank = v.reverse := by
    cases hrev : v.reverse with
    | nil => rfl
    | cons c r =>
        have hlast : v.getLast? = some c := by
          rw [List.getLast?_eq_head?_reverse, hrev]
          rfl
        rw [List.dropWhile_cons_of_neg (by simp [hv c hlast])]
  rw [List.rdropWhile, List.reverse_append,
    List.dropWhile_append_of_pos fun c hc => ht c (List.mem_reverse.mp hc), hend,
    List.reverse_reverse]

end LoliLoader.Text
