/-
# LoliLoader.Extlinux.Document -- configurations as documents

What a configuration says, apart from how it is laid out: settings, and entries with settings of
their own. A document can be written in many ways: lines may be indented, words may have any blanks
between them, and lines of blanks may stand anywhere.

The types carry what makes a document writable at all. A `Value` is not empty, stays on one line and
has no blanks at its ends; the key of a `Setting` is not `label`. So a document that cannot be
written cannot be built, and none of the statements about documents has to ask for it.

`Writes` relates a document to the lines that it may be written as. It is a relation rather than a
printer, since the layout is free. One particular layout is chosen only at the end, in
`Extlinux.RoundTrip`, to show that every document has one.

What is searched for is a key, and a key of several words can be the start of another one.
`Unambiguous` excludes just that: `menu` would also find the setting `menu title`, with the value
`title` and what follows, and this is how the parser works and not a slip.

The key theorems are `findPair_settings`, which finds a setting among its neighbours, and
`untilLabel_settings`, which ends the search where they end.
-/
import LoliLoader.Extlinux.Lookup
import LoliLoader.Text.Spaced

namespace LoliLoader.Extlinux

open Text C

/-! ## Documents -/

/-- A value: it is not empty, on one line, and has no blanks at its ends, since a reader would not
take these for a part of it. -/
structure Value where
  bytes : List UInt8
  ne_nil : bytes ≠ []
  inline : newline ∉ bytes
  nul_notMem : (0 : UInt8) ∉ bytes
  head : ∀ c ∈ bytes.head?, isBlank c = false
  last : ∀ c ∈ bytes.getLast?, isBlank c = false

/-- A key with a value. `label` is no key: a line that starts with it starts an entry. -/
structure Setting where
  key : Key
  value : Value
  notLabel : key.first.bytes ≠ ascii "label"

/-- An entry of the menu: its label, and the settings that are written behind it, in their order. -/
structure Entry where
  label : Value
  settings : List Setting

/-- What a configuration says: settings for all of the menu, and the entries in the order in which
they are listed. -/
structure Document where
  globals : List Setting
  entries : List Entry

/-- The value of the first setting with the key. Keys are the same when they have the same words. -/
def findSetting (tokens : List (List UInt8)) (settings : List Setting) : Option Value :=
  (settings.find? fun s => s.key.tokens = tokens).map Setting.value

/-- The key starts like none of the others, and none of them starts like it. -/
def Unambiguous (K : Key) (settings : List Setting) : Prop :=
  ∀ s ∈ settings, s.key.tokens = K.tokens ∨
    ¬ s.key.tokens <+: K.tokens ∧ ¬ K.tokens <+: s.key.tokens

/-! ## Layouts -/

/-- A line with a key and a value, whatever blanks it has. -/
def Spells (tokens : List (List UInt8)) (v : Value) (l : List UInt8) : Prop :=
  ∃ indent rest trail, l = indent ++ rest ∧ (∀ c ∈ indent, isBlank c = true) ∧
    (∀ c ∈ trail, isBlank c = true) ∧ Spaced isBlank (v.bytes ++ trail) tokens rest

/-- Lines that are written for settings, one for each and in their order, with any lines of blanks
between them. -/
inductive WritesSettings : List Setting → List (List UInt8) → Prop where
  | nil : WritesSettings [] []
  | blank {ss : List Setting} {l : List UInt8} {ls : List (List UInt8)} :
      (∀ c ∈ l, isBlank c = true) → WritesSettings ss ls → WritesSettings ss (l :: ls)
  | setting {s : Setting} {ss : List Setting} {l : List UInt8} {ls : List (List UInt8)} :
      Spells s.key.tokens s.value l → WritesSettings ss ls → WritesSettings (s :: ss) (l :: ls)

/-- Lines that are written for entries: for each of them a line with its label, and then those of
its settings. -/
inductive WritesEntries : List Entry → List (List UInt8) → Prop where
  | nil : WritesEntries [] []
  | entry {e : Entry} {es : List Entry} {l : List UInt8} {ls ls' : List (List UInt8)} :
      Spells labelTokens e.label l → WritesSettings e.settings ls → WritesEntries es ls' →
      WritesEntries (e :: es) (l :: (ls ++ ls'))

/-- Lines that are written for a document: first those of the global settings, and then those of the
entries. -/
def Writes (d : Document) (ls : List (List UInt8)) : Prop :=
  ∃ gs es, ls = gs ++ es ∧ WritesSettings d.globals gs ∧ WritesEntries d.entries es

/-! ## The line of a setting -/

section

variable {tokens tokens' : List (List UInt8)} {v : Value} {l : List UInt8}

theorem Value.dropWhile_append (v : Value) (t : List UInt8) :
    (v.bytes ++ t).dropWhile isBlank = v.bytes ++ t := by
  obtain ⟨c, r, hc⟩ := List.exists_cons_of_ne_nil v.ne_nil
  have hhead : isBlank c = false := v.head c (by rw [hc]; rfl)
  rw [hc, List.cons_append, List.dropWhile_cons_of_neg (by simp [hhead])]

/-- The words of the line are those of the key and at least one more. -/
theorem Spells.words (h : Spells tokens v l) :
    ∃ ws, ws ≠ [] ∧ words isBlank l = tokens ++ ws := by
  obtain ⟨indent, rest, trail, rfl, hindent, -, hspaced⟩ := h
  refine ⟨Text.words isBlank (v.bytes ++ trail), fun hnil => ?_, ?_⟩
  · rw [words_eq_nil_iff, v.dropWhile_append, List.append_eq_nil_iff] at hnil
    exact v.ne_nil hnil.1
  · rw [words_blanks hindent, hspaced.words_eq]

theorem Spells.isPair (h : Spells tokens v l) : isPair tokens l := by
  obtain ⟨ws, hne, hwords⟩ := h.words
  have hpos := List.length_pos_of_ne_nil hne
  rw [Extlinux.isPair, hwords, List.length_append]
  exact ⟨List.prefix_append _ _, by omega⟩

/-- **The value** of a line that spells a key and a value is that value, without the blanks at its
ends. -/
theorem Spells.pairValue (h : Spells tokens v l) : pairValue tokens l = v.bytes := by
  obtain ⟨indent, rest, trail, rfl, hindent, htrail, hspaced⟩ := h
  rw [Extlinux.pairValue, afterWords_blanks _ hindent, hspaced.afterWords_eq,
    v.dropWhile_append, rdropWhile_blanks v.last htrail]

/-- The line is no pair for a key that is neither at the start of its own nor starts with it. -/
theorem Spells.not_isPair (h : Spells tokens v l) (h₁ : ¬ tokens <+: tokens')
    (h₂ : ¬ tokens' <+: tokens) : ¬ Extlinux.isPair tokens' l := by
  rintro ⟨hstarts, -⟩
  obtain ⟨ws, -, hwords⟩ := h.words
  rw [hwords] at hstarts
  rcases List.prefix_or_prefix_of_prefix hstarts (List.prefix_append tokens ws) with h | h
  · exact h₂ h
  · exact h₁ h

theorem not_isPair_blanks (h : ∀ c ∈ l, isBlank c = true) : ¬ isPair tokens l := by
  have hnil : Text.words isBlank l = [] := by
    rw [words_eq_nil_iff, List.dropWhile_eq_nil_iff]
    exact h
  rw [isPair, hnil]
  simp

/-- A setting starts no entry. -/
theorem Setting.not_isLabel (s : Setting) (h : Spells s.key.tokens s.value l) (p : Nat) :
    ¬ isLabel ⟨p, l⟩ := by
  refine h.not_isPair (fun hstarts => ?_) fun hstarts => ?_
  · exact s.notLabel (List.cons_prefix_cons.mp hstarts).1
  · exact s.notLabel (List.cons_prefix_cons.mp hstarts).1.symm

end

/-! ## The lines of settings -/

section

variable {ss : List Setting} {ls rest : List Line}

/-- None of them starts an entry. -/
theorem WritesSettings.not_isLabel {texts : List (List UInt8)} (h : WritesSettings ss texts)
    {l : Line} (hl : l.line ∈ texts) : ¬ isLabel l := by
  induction h with
  | nil => cases hl
  | blank hblank _ ih =>
      rcases List.mem_cons.mp hl with heq | hl
      · rw [isLabel, heq]
        exact not_isPair_blanks hblank
      · exact ih hl
  | @setting s _ _ _ hspells _ ih =>
      rcases List.mem_cons.mp hl with heq | hl
      · rw [isLabel, heq]
        exact s.not_isLabel hspells 0
      · exact ih hl

theorem filter_settings (h : WritesSettings ss (ls.map Located.line)) :
    (ls.filter fun l => isLabel l) = [] := by
  rw [List.filter_eq_nil_iff]
  intro l hl
  simpa using h.not_isLabel (List.mem_map_of_mem hl)

/-- The search for a label stops behind them. -/
theorem untilLabel_settings (h : WritesSettings ss (ls.map Located.line))
    (hrest : ∀ l ∈ rest.head?, isLabel l) : untilLabel (ls ++ rest) = ls := by
  have hnone : ∀ l ∈ ls, decide (¬ isLabel l) = true :=
    fun l hl => decide_eq_true (h.not_isLabel (List.mem_map_of_mem hl))
  rw [untilLabel, List.takeWhile_append_of_pos hnone]
  cases rest with
  | nil => simp
  | cons l rest => simp [hrest l rfl]

/-- **The search for a key** in the lines of some settings finds the first of them with the key,
unless another key starts like it. -/
theorem findPair_settings {K : Key} (hK : Unambiguous K ss)
    (h : WritesSettings ss (ls.map Located.line)) :
    (findPair K.tokens ls).map (fun l => pairValue K.tokens l.line)
      = (findSetting K.tokens ss).map Value.bytes := by
  generalize htexts : ls.map Located.line = texts at h
  induction h generalizing ls with
  | nil =>
      obtain rfl := List.map_eq_nil_iff.mp htexts
      rfl
  | blank hblank _ ih =>
      obtain ⟨l, ls, rfl, rfl, hls⟩ := List.map_eq_cons_iff.mp htexts
      rw [findPair_cons, if_neg (not_isPair_blanks hblank)]
      exact ih hK hls
  | @setting s ss _ _ hspells _ ih =>
      obtain ⟨l, ls, rfl, rfl, hls⟩ := List.map_eq_cons_iff.mp htexts
      have hrest := ih (fun s hs => hK s (List.mem_cons_of_mem _ hs)) hls
      rw [findPair_cons, findSetting]
      rcases hK s List.mem_cons_self with heq | ⟨hnot, hnot'⟩
      · rw [← heq, if_pos hspells.isPair, List.find?_cons_of_pos (by simp)]
        exact congrArg some hspells.pairValue
      · have hne : ¬ s.key.tokens = K.tokens := fun heq => hnot (heq ▸ List.prefix_refl _)
        rw [if_neg (hspells.not_isPair hnot hnot'), List.find?_cons_of_neg (by simpa using hne)]
        exact hrest

end

end LoliLoader.Extlinux
