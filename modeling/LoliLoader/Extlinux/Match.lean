/-
# LoliLoader.Extlinux.Match -- the key matcher recognises pairs

`match_key` walks text and key together and, where both reach a blank, skips the blanks of both. On
a line without leading blanks this recognises exactly the pairs of the reference, for keys of any
number of tokens.

The proof goes by the tokens of the key. At the front of a line a token either is the first word, or
the matcher fails there; what happens behind it is `behindToken`, which is the end of the key or the
blanks and the next token. So `matchText_line` is an induction over the tokens, with
`matchText_token_line` as its step.

Two things are easily missed. A word of the line may be longer than the token, and then it is no
match although all characters of the token have agreed. And a line may end, or have nothing but
blanks, behind the key; then it is no pair, since a pair has a value.

The matcher itself has become a function of two texts in `Extlinux.Scan`; pointers do not occur here
any more.
-/
import LoliLoader.Extlinux.Scan

namespace LoliLoader.Extlinux

open C Text

variable {l r t w : List UInt8} {ws : List (List UInt8)}

/-! ## One token -/

/-- A text that does not start with a blank is left alone by `resyncText`. -/
theorem resyncText_plain {key : List UInt8} (h : startsBlank key = false) :
    resyncText r key = (r, key) := by
  simp [resyncText, h]

/-- What the matcher does behind a token of the key. -/
def behindToken (r key : List UInt8) : Option (List UInt8) :=
  if key = [] then valueOf r
  else if startsBlank r then matchText (r.dropWhile isBlank) (key.dropWhile isBlank)
  else none

theorem matchText_resync {key : List UInt8} (hkey : key = [] ∨ startsBlank key = true) :
    matchText (resyncText r key).1 (resyncText r key).2 = behindToken r key := by
  rcases hkey with rfl | hkey
  · simp [resyncText, behindToken, startsBlank, matchText]
  · have hne : key ≠ [] := by
      rintro rfl
      simp [startsBlank] at hkey
    by_cases hr : startsBlank r = true
    · simp [resyncText, behindToken, hkey, hr, hne]
    -- the key goes on with a blank and the text does not: they differ in the next turn
    · obtain ⟨b, key, rfl⟩ := List.exists_cons_of_ne_nil hne
      have hrf : startsBlank r = false := by simpa using hr
      have hstay : resyncText r (b :: key) = (r, b :: key) := by simp [resyncText, hrf]
      rw [hstay]
      simp only [behindToken, hrf, reduceCtorEq, if_false, Bool.false_eq_true]
      cases r with
      | nil => simp [matchText]
      | cons c r =>
          have hcb : c ≠ b := by
            rintro rfl
            exact absurd hkey (by simpa [startsBlank] using hrf)
          simp [matchText, hcb]

theorem matchText_token (hw : w ≠ []) (hplain : ∀ c ∈ w, isBlank c = false) {key : List UInt8}
    (hkey : key = [] ∨ startsBlank key = true) (r : List UInt8) :
    matchText r (w ++ key) = if w <+: r then behindToken (r.drop w.length) key else none := by
  induction w generalizing r with
  | nil => exact absurd rfl hw
  | cons d w ih =>
      cases r with
      | nil => simp [matchText]
      | cons c r =>
          rw [List.cons_append, matchText]
          by_cases hcd : c = d
          · subst hcd
            rw [if_pos rfl]
            cases w with
            | nil => simpa [List.cons_prefix_cons] using matchText_resync hkey
            | cons d' w =>
                have hd' : startsBlank ((d' :: w) ++ key) = false :=
                  hplain d' (by simp)
                rw [resyncText_plain hd', ih (by simp) (fun x hx => hplain x (by simp [hx])) r]
                simp [List.cons_prefix_cons]
          · have hdc : ¬ (d = c) := fun h => hcd h.symm
            rw [if_neg hcd, if_neg]
            simp [List.cons_prefix_cons, hdc]

/-! ## Pairs, token by token -/

/-- The value of a pair with all its trailing blanks, when the line is a pair. -/
def pairRest (tokens : List (List UInt8)) (l : List UInt8) : Option (List UInt8) :=
  if isPair tokens l then some (afterWords isBlank tokens.length l) else none

theorem pairRest_dropWhile (tokens : List (List UInt8)) (l : List UInt8) :
    pairRest tokens (l.dropWhile isBlank) = pairRest tokens l := by
  simp [pairRest, isPair]

theorem pairRest_nil_left : pairRest [] l
    = if l.dropWhile isBlank = [] then none else some (l.dropWhile isBlank) := by
  have hlen : 0 < (words isBlank l).length ↔ ¬ l.dropWhile isBlank = [] := by
    rw [List.length_pos_iff, ne_eq, words_eq_nil_iff]
  by_cases h : l.dropWhile isBlank = []
  · rw [pairRest, if_neg (by simp [isPair, words_eq_nil_iff.mpr h]), if_pos h]
  · rw [pairRest, if_pos ⟨by simp, by simpa using hlen.mpr h⟩, if_neg h]
    rfl

theorem pairRest_nil_right (tokens : List (List UInt8)) : pairRest tokens [] = none := by
  simp [pairRest, isPair]

/-- A token at the front of a line is one word of a pair. -/
theorem pairRest_token (hw : w ≠ []) (hplain : ∀ c ∈ w, isBlank c = false)
    (hr : r = [] ∨ startsBlank r = true) : pairRest (w :: ws) (w ++ r) = pairRest ws r := by
  have hwords : words isBlank (w ++ r) = w :: words isBlank r := by
    rcases hr with rfl | hr
    · rw [List.append_nil, words_word hw hplain, words_nil]
    · cases r with
      | nil => simp [startsBlank] at hr
      | cons b r => rw [words_word_blank r hw hplain hr, words_cons_blank r hr]
  have hstrip : (w ++ r).dropWhile isBlank = w ++ r := by
    obtain ⟨c, w, rfl⟩ := List.exists_cons_of_ne_nil hw
    rw [List.cons_append, List.dropWhile_cons_of_neg]
    simpa using hplain c (by simp)
  have hdrop : (w ++ r).dropWhile (fun c => !isBlank c) = r := by
    rw [List.dropWhile_append_of_pos (by simpa using hplain)]
    rcases hr with rfl | hr
    · rfl
    · cases r with
      | nil => rfl
      | cons b r =>
          rw [List.dropWhile_cons_of_neg]
          simpa [startsBlank] using hr
  simp only [pairRest, isPair, hwords, List.length_cons, afterWords, hstrip, hdrop,
    List.cons_prefix_cons, true_and, Nat.succ_lt_succ_iff]

/-- A line that does not continue with a token as a word is no pair for it. -/
theorem pairRest_of_not_token (hl : startsBlank l = false)
    (hno : ¬ ∃ r, l = w ++ r ∧ (r = [] ∨ startsBlank r = true)) : pairRest (w :: ws) l = none := by
  rw [pairRest, if_neg]
  rintro ⟨hpre, -⟩
  cases l with
  | nil => simp at hpre
  | cons c l =>
      have hc : isBlank c = false := hl
      rw [words_of_head_plain rfl hc, List.cons_prefix_cons] at hpre
      refine hno ⟨(c :: l).dropWhile (fun c => !isBlank c), ?_, ?_⟩
      · rw [hpre.1, List.takeWhile_append_dropWhile]
      · cases hr : (c :: l).dropWhile (fun c => !isBlank c) with
        | nil => exact Or.inl rfl
        | cons b r => exact Or.inr (by simpa [startsBlank] using head_of_dropWhile hr)

/-! ## The line and what follows it -/

theorem startsBlank_line (ht : LineBreak t) (l : List UInt8) :
    startsBlank (l ++ t) = startsBlank l := by
  cases l with
  | nil => exact ht.startsBlank
  | cons c l => rfl

theorem dropWhile_line (ht : LineBreak t) :
    (l ++ t).dropWhile isBlank = l.dropWhile isBlank ++ t := by
  induction l with
  | nil =>
      rcases ht with rfl | ⟨t', rfl⟩
      · rfl
      · rw [List.nil_append, List.dropWhile_cons_of_neg (by decide)]
        rfl
  | cons c l ih =>
      by_cases hc : isBlank c = true
      · rw [List.cons_append, List.dropWhile_cons_of_pos hc, List.dropWhile_cons_of_pos hc, ih]
      · rw [List.cons_append, List.dropWhile_cons_of_neg hc, List.dropWhile_cons_of_neg hc]
        rfl

theorem valueOf_line (hl : newline ∉ l) (ht : LineBreak t) (hb : startsBlank l = true) :
    valueOf (l ++ t) = (pairRest [] l).map (· ++ t) := by
  rw [valueOf, startsBlank_line ht, if_pos hb, dropWhile_line ht, pairRest_nil_left]
  cases hv : l.dropWhile isBlank with
  | nil =>
      rcases ht with rfl | ⟨t', rfl⟩ <;> simp
  | cons c v =>
      have hc : c ≠ newline := by
        rintro rfl
        exact hl ((List.dropWhile_suffix _).subset (hv ▸ List.mem_cons_self))
      simp [hc]

theorem prefix_line {w : List UInt8} (hw : newline ∉ w) (ht : LineBreak t) :
    w <+: l ++ t ↔ w <+: l := by
  constructor
  · rintro ⟨u, hu⟩
    rcases List.append_eq_append_iff.mp hu with ⟨a, rfl, -⟩ | ⟨a, rfl, ha⟩
    · exact ⟨a, rfl⟩
    · cases a with
      | nil => simp
      | cons c a =>
          rcases ht with rfl | ⟨t', rfl⟩
          · simp at ha
          · simp only [List.cons_append, List.cons.injEq] at ha
            exact absurd (by simp [← ha.1]) hw
  · rintro ⟨u, rfl⟩
    exact ⟨u ++ t, by simp⟩

theorem behindToken_eq_none {key : List UInt8} (hr : startsBlank r = false) :
    behindToken r key = none := by
  simp [behindToken, valueOf, hr]

/-- The matcher behind a token, given that it recognises the pairs of the rest of
the key. -/
theorem behindToken_line {key : List UInt8} {tokens : List (List UInt8)} (hl : newline ∉ l)
    (ht : LineBreak t)
    (hkey : (key = [] ∧ tokens = []) ∨ (key ≠ [] ∧
      matchText (l.dropWhile isBlank ++ t) (key.dropWhile isBlank)
        = (pairRest tokens (l.dropWhile isBlank)).map (· ++ t)))
    (hb : startsBlank l = true) :
    behindToken (l ++ t) key = (pairRest tokens l).map (· ++ t) := by
  rcases hkey with ⟨rfl, rfl⟩ | ⟨hne, hkey⟩
  · rw [behindToken, if_pos rfl, valueOf_line hl ht hb]
  · rw [behindToken, if_neg hne, startsBlank_line ht, if_pos hb, dropWhile_line ht, hkey,
      pairRest_dropWhile]

/-- One token of the key against one word of the line. -/
theorem matchText_token_line (T : Token) {key : List UInt8} {tokens : List (List UInt8)}
    (hkey : key = [] ∨ startsBlank key = true) (hstrip : startsBlank l = false)
    (ht : LineBreak t)
    (hrest : ∀ r, l = T.bytes ++ r → startsBlank r = true →
      behindToken (r ++ t) key = (pairRest tokens r).map (· ++ t)) :
    matchText (l ++ t) (T.bytes ++ key) = (pairRest (T.bytes :: tokens) l).map (· ++ t) := by
  have hplain : ∀ c ∈ T.bytes, isBlank c = false := fun c hc => (T.plain c hc).1
  have hnl : newline ∉ T.bytes := fun h => (T.plain _ h).2.1 rfl
  rw [matchText_token T.ne_nil hplain hkey]
  by_cases hpre : T.bytes <+: l
  · rw [if_pos ((prefix_line hnl ht).mpr hpre)]
    obtain ⟨r, rfl⟩ := hpre
    have hdrop : (T.bytes ++ r ++ t).drop T.bytes.length = r ++ t := by
      rw [List.append_assoc, List.drop_append, List.drop_length, Nat.sub_self]
      rfl
    rw [hdrop]
    by_cases hb : startsBlank r = true
    · rw [hrest r rfl hb, pairRest_token T.ne_nil hplain (Or.inr hb)]
    · -- the word of the line goes on, or ends the line
      have hbf : startsBlank r = false := by simpa using hb
      rw [behindToken_eq_none (by rw [startsBlank_line ht, hbf])]
      by_cases hr : r = []
      · rw [hr, pairRest_token T.ne_nil hplain (Or.inl rfl), pairRest_nil_right]
        rfl
      · rw [pairRest_of_not_token hstrip]
        · rfl
        · rintro ⟨r', hrr', hr'⟩
          obtain rfl := List.append_cancel_left hrr'
          rcases hr' with hr' | hr'
          · exact hr hr'
          · exact hb hr'
  · rw [if_neg (fun h => hpre ((prefix_line hnl ht).mp h)), pairRest_of_not_token hstrip]
    · rfl
    · rintro ⟨r, rfl, -⟩
      exact hpre (List.prefix_append _ _)

theorem startsBlank_gap (g : Gap) (r : List UInt8) : startsBlank (g.bytes ++ r) = true := by
  obtain ⟨c, cs, hg⟩ := List.exists_cons_of_ne_nil g.ne_nil
  rw [hg]
  exact g.blank c (by simp [hg])

theorem dropWhile_gap (g : Gap) (T : Token) (r : List UInt8) :
    (g.bytes ++ (T.bytes ++ r)).dropWhile isBlank = T.bytes ++ r := by
  obtain ⟨c, cs, hT⟩ := List.exists_cons_of_ne_nil T.ne_nil
  rw [List.dropWhile_append_of_pos g.blank, hT, List.cons_append, List.dropWhile_cons_of_neg]
  simpa using (T.plain c (by simp [hT])).1

/-- A line without its leading blanks does not start with a blank. -/
theorem startsBlank_dropWhile (l : List UInt8) : startsBlank (l.dropWhile isBlank) = false := by
  cases hl : l.dropWhile isBlank with
  | nil => rfl
  | cons c r =>
      show isBlank c = false
      exact head_of_dropWhile hl

/-- **`match_key` recognises pairs.** On a line without leading blanks, followed by
the end of the text or a newline, the matcher finds exactly the value of the pair. -/
theorem matchText_line (K : Key) (hl : newline ∉ l) (hstrip : startsBlank l = false)
    (ht : LineBreak t) : matchText (l ++ t) K.bytes = (pairRest K.tokens l).map (· ++ t) := by
  obtain ⟨first, more⟩ := K
  -- token by token: a gap of the key stands for any run of blanks in the line
  induction more generalizing first l with
  | nil =>
      refine matchText_token_line first (Or.inl rfl) hstrip ht ?_
      rintro r rfl hb
      have hr : newline ∉ r := fun h => hl (List.mem_append_right _ h)
      exact behindToken_line hr ht (Or.inl ⟨rfl, rfl⟩) hb
  | cons gt more ih =>
      obtain ⟨g, T⟩ := gt
      have hkey : ((g, T) :: more).flatMap (fun gt => gt.1.bytes ++ gt.2.bytes)
          = g.bytes ++ (Key.mk T more).bytes := by
        simp [Key.bytes]
      rw [Key.bytes, hkey]
      refine matchText_token_line first (Or.inr (startsBlank_gap g _)) hstrip ht ?_
      rintro r rfl hb
      have hr : newline ∉ r := fun h => hl (List.mem_append_right _ h)
      refine behindToken_line hr ht (Or.inr ⟨?_, ?_⟩) hb
      · simp [g.ne_nil]
      · have hr' : newline ∉ r.dropWhile isBlank := fun h => hr ((List.dropWhile_suffix _).subset h)
        have := ih hr' (startsBlank_dropWhile r) T
        rwa [Key.bytes, dropWhile_gap]

end LoliLoader.Extlinux
