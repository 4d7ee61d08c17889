/-
# LoliLoader.Extlinux.Enumerate -- walking the lines and the entries

The loops of the parser advance a line at a time. `LineAt` packages what holds at the start of a
line, and its lemmas say what every step of a loop does there. With them `extlinux_next_entry` finds
the next label line, and calling it until it returns null enumerates exactly the label lines, in
file order.

The first call of an enumeration has no entry to start from and looks at the line that the
configuration starts with. The others start at an entry and have to leave its line first, or they
would find it again. `entryCall` is either of them, and `Enumerates` is the loop that every caller
of the library writes.

`Enumerates` is inductive: an enumeration that does not end has no derivation. That it does end is
part of `enumerates_iff`, which has one list of positions for every configuration. The list is given
by the reference, line by line, without any pointer.

Nothing is assumed about the configuration, apart from being a C string. A configuration without
entries gives the empty list.
-/
import LoliLoader.Extlinux.Match

namespace LoliLoader.Extlinux

open C Text

/-- `label` as a key of the reference, of a single word. -/
def labelToken : Token := ⟨ascii "label", by decide, plain_of_all (by decide)⟩

theorem labelKey_eq : labelKey = (Key.mk labelToken []).cstring := rfl

theorem labelTokens_eq : labelTokens = (Key.mk labelToken []).tokens := rfl

/-! ## One line -/

/-- At offset `p` a line `l` starts, followed by `t`, which is the end of the text or a newline with
more lines. -/
structure LineAt (s : CString) (p : Nat) (l t : List UInt8) : Prop where
  at_ : s.At p (l ++ t)
  line : newline ∉ l
  tail : LineBreak t

theorem afterWords_suffix (n : Nat) (l : List UInt8) : afterWords isBlank n l <:+ l := by
  induction n generalizing l with
  | zero => exact List.dropWhile_suffix _
  | succ n ih => exact (ih _).trans ((List.dropWhile_suffix _).trans (List.dropWhile_suffix _))

/-- A text from a position on starts with a line. -/
theorem exists_lineAt {s : CString} {p : Nat} {r : List UInt8} (h : s.At p r) :
    ∃ l t, r = l ++ t ∧ LineAt s p l t := by
  induction r using text_induction newline with
  | last l hl => exact ⟨l, [], by simp, by simpa using h, hl, Or.inl rfl⟩
  | line l r hl => exact ⟨l, newline :: r, rfl, h, hl, Or.inr ⟨r, rfl⟩⟩

namespace LineAt

variable {s : CString} {p : Nat} {l t : List UInt8}

theorem skipSpace (h : LineAt s p l t) : skipSpace s p = .ok (firstPlain ⟨p, l⟩) := by
  rw [skipSpace_at h.at_, firstPlain]
  have htake : (l ++ t).takeWhile isBlank = l.takeWhile isBlank := by
    have h1 := List.takeWhile_append_dropWhile (p := isBlank) (l := l ++ t)
    have h2 := List.takeWhile_append_dropWhile (p := isBlank) (l := l)
    rw [dropWhile_line h.tail, ← List.append_assoc] at h1
    exact List.append_cancel_right ((List.append_cancel_right h1).trans h2.symm)
  rw [htake]

/-- The line behind its leading blanks. -/
theorem plain (h : LineAt s p l t) :
    LineAt s (firstPlain ⟨p, l⟩) (l.dropWhile isBlank) t := by
  refine ⟨?_, ?_, h.tail⟩
  · have hat := h.at_
    rw [← List.takeWhile_append_dropWhile (p := isBlank) (l := l), List.append_assoc] at hat
    exact hat.append
  · exact fun hm => h.line ((List.dropWhile_suffix _).subset hm)

/-- `match_key` at the front of a line recognises its pairs. -/
theorem matchKey_of_plain (h : LineAt s p l t) (hb : startsBlank l = false) (K : Key) :
    matchKey s K.cstring p
      = .ok (if isPair K.tokens l then some (pairStart K.tokens ⟨p, l⟩) else none) := by
  rw [matchKey_at h.at_]
  change Except.ok ((matchText (l ++ t) K.bytes).map _) = _
  rw [matchText_line K h.line hb h.tail, pairRest]
  by_cases hp : isPair K.tokens l
  · have hle := (afterWords_suffix K.tokens.length l).length_le
    have hlen := h.at_.length_eq
    rw [if_pos hp, if_pos hp]
    simp only [Option.map_some, pairStart, List.length_append] at hlen ⊢
    congr 2
    omega
  · rw [if_neg hp, if_neg hp]
    rfl

theorem isPair_dropWhile (tokens : List (List UInt8)) (l : List UInt8) :
    isPair tokens (l.dropWhile isBlank) ↔ isPair tokens l := by
  simp [isPair]

theorem pairStart_dropWhile (tokens : List (List UInt8)) (p : Nat) (l : List UInt8) :
    pairStart tokens ⟨firstPlain ⟨p, l⟩, l.dropWhile isBlank⟩ = pairStart tokens ⟨p, l⟩ := by
  have h1 := congrArg List.length (List.takeWhile_append_dropWhile (p := isBlank) (l := l))
  have h2 := (afterWords_suffix tokens.length (l.dropWhile isBlank)).length_le
  rw [List.length_append] at h1
  simp only [pairStart, firstPlain, afterWords_dropWhile] at h2 ⊢
  omega

theorem matchKey (h : LineAt s p l t) (K : Key) :
    matchKey s K.cstring (firstPlain ⟨p, l⟩)
      = .ok (if isPair K.tokens l then some (pairStart K.tokens ⟨p, l⟩) else none) := by
  rw [h.plain.matchKey_of_plain (startsBlank_dropWhile l) K]
  simp only [isPair_dropWhile, pairStart_dropWhile]

theorem matchLabel (h : LineAt s p l t) :
    Extlinux.matchKey s labelKey (firstPlain ⟨p, l⟩)
      = .ok (if isLabel ⟨p, l⟩ then some (pairStart labelTokens ⟨p, l⟩) else none) :=
  h.matchKey ⟨labelToken, []⟩

theorem nextLine_last (h : LineAt s p l []) : nextLine s p = .ok none := by
  have hat := h.at_
  rw [List.append_nil] at hat
  exact Extlinux.nextLine_last hat h.line

theorem nextLine_line (h : LineAt s p l (newline :: t)) :
    nextLine s p = .ok (if t = [] then none else some (p + l.length + 1)) :=
  Extlinux.nextLine_line h.at_ h.line

theorem firstPlain_add (p : Nat) (l : List UInt8) :
    firstPlain ⟨p, l⟩ + (l.dropWhile isBlank).length = p + l.length := by
  have h := congrArg List.length (List.takeWhile_append_dropWhile (p := isBlank) (l := l))
  rw [List.length_append] at h
  simp only [firstPlain]
  omega

/-- The next line starts where this one ends, also seen from behind its blanks. -/
theorem nextLine_firstPlain (h : LineAt s p l (newline :: t)) :
    nextLine s (firstPlain ⟨p, l⟩) = .ok (if t = [] then none else some (p + l.length + 1)) := by
  rw [h.plain.nextLine_line, firstPlain_add]

end LineAt

/-! ## The next entry -/

theorem not_isLabel_nil (p : Nat) : ¬ isLabel ⟨p, []⟩ := by
  simp [isLabel, isPair]

theorem nextEntryLoop_some {s : CString} {p p' : Nat} (h : skipSpace s p = .ok p') :
    nextEntryLoop s (some p) = (do
      match ← matchKey s labelKey p' with
      | some _ => .ok (some p')
      | none => nextEntryLoop s (← nextLine s p')) := by
  rw [nextEntryLoop]
  split
  all_goals rename_i he
  all_goals rw [h] at he
  · cases he
  · obtain rfl := Except.ok.inj he
    split
    all_goals rename_i hm
    all_goals simp only [hm, bind, Except.bind]
    split
    all_goals rename_i hq
    all_goals simp only [hq]

/-- The loop of `extlinux_next_entry` finds the first label line. -/
theorem nextEntryLoop_at {s : CString} {p : Nat} {r : List UInt8} (h : s.At p r) :
    nextEntryLoop s (some p)
      = .ok (((linesFrom newline p r).find? fun l => isLabel l).map firstPlain) := by
  induction r using text_induction newline generalizing p with
  | last l hl =>
      have hline : LineAt s p l [] := ⟨by simpa using h, hl, Or.inl rfl⟩
      rw [nextEntryLoop_some hline.skipSpace, hline.matchLabel, hline.plain.nextLine_last,
        linesFrom_last p hl]
      by_cases hlab : isLabel ⟨p, l⟩
      · simp [hlab, bind, Except.bind]
      · simp [hlab, bind, Except.bind, nextEntryLoop]
  | line l r hl ih =>
      have hline : LineAt s p l (newline :: r) := ⟨h, hl, Or.inr ⟨r, rfl⟩⟩
      rw [nextEntryLoop_some hline.skipSpace, hline.matchLabel, hline.nextLine_firstPlain,
        linesFrom_line p r hl]
      by_cases hlab : isLabel ⟨p, l⟩
      · simp [hlab, bind, Except.bind]
      -- behind a newline at the very end, the text has one more line and the source none
      · by_cases hr : r = []
        · subst hr
          simp [hlab, bind, Except.bind, nextEntryLoop, linesFrom_last, not_isLabel_nil]
        · have hnext : s.At (p + l.length + 1) r := h.append.tail
          simp [hlab, hr, bind, Except.bind, ih hnext]

/-- The first call of an enumeration finds the first label line. -/
theorem extlinuxNextEntry_first (cfg : CString) :
    extlinuxNextEntry cfg (some 0) none = .ok (entryPositions cfg).head? := by
  rw [extlinuxNextEntry, nextEntryLoop_at (CString.At.zero cfg), entryPositions, labelLines,
    List.head?_map, List.head?_filter]
  rfl

/-- The label lines behind a position, each by where its first non-blank character is. -/
def entriesAfter (cfg : CString) (p : Nat) : List Nat :=
  ((linesAfter cfg p).filter fun l => isLabel l).map firstPlain

/-- The lines behind a position inside a line are the lines behind that line. -/
theorem linesAfter_eq {cfg : CString} {p : Nat} (hp : p ≤ cfg.length) :
    linesAfter cfg p = (linesFrom newline p (cfg.bytes.drop p)).tail := by
  have := dropWhile_start_le newline 0 p hp
  simpa [linesAfter, lines] using this

/-- The next call finds the first label line behind the last one. -/
theorem extlinuxNextEntry_next (cfg : CString) {p : Nat} (hp : p ≤ cfg.length) :
    extlinuxNextEntry cfg none (some p) = .ok (entriesAfter cfg p).head? := by
  obtain ⟨l, t, hr, hline⟩ := exists_lineAt (CString.At.of_le hp)
  rw [entriesAfter, linesAfter_eq hp, List.head?_map, List.head?_filter, hr]
  rcases hline.tail with rfl | ⟨t, rfl⟩
  · rw [List.append_nil, linesFrom_last p hline.line]
    simp [extlinuxNextEntry, hline.nextLine_last, nextEntryLoop, bind, Except.bind]
  · rw [linesFrom_line p t hline.line, List.tail_cons]
    simp only [extlinuxNextEntry, hline.nextLine_line, bind, Except.bind]
    by_cases ht : t = []
    · subst ht
      simp [nextEntryLoop, linesFrom_last, not_isLabel_nil]
    · rw [if_neg ht, nextEntryLoop_at hline.at_.append.tail]

/-! ## The whole enumeration -/

/-- One call of an enumeration: the configuration and null first, then null and the
last entry. -/
def entryCall (cfg : CString) : Option Nat → Except Fault (Option Nat)
  | none => extlinuxNextEntry cfg (some 0) none
  | some last => extlinuxNextEntry cfg none (some last)

/-- Calling for entries behind `last` until null reports exactly the list, in this order; there is
no derivation for calls that never report null. -/
inductive Enumerates (cfg : CString) : Option Nat → List Nat → Prop
  | done {last : Option Nat} : entryCall cfg last = .ok none → Enumerates cfg last []
  | step {last : Option Nat} {p : Nat} {ps : List Nat} :
      entryCall cfg last = .ok (some p) → Enumerates cfg (some p) ps →
      Enumerates cfg last (p :: ps)

/-- The pointers an enumeration reports: the first call's, and those of the calls that are given a
pointer which was reported. -/
inductive Returned (cfg : CString) : Nat → Prop
  | first {p : Nat} : entryCall cfg none = .ok (some p) → Returned cfg p
  | next {p q : Nat} : Returned cfg q → entryCall cfg (some q) = .ok (some p) → Returned cfg p

theorem start_le_firstPlain (l : Line) : l.start ≤ firstPlain l := Nat.le_add_right _ _

theorem firstPlain_le (l : Line) : firstPlain l ≤ l.start + l.line.length := by
  have := (List.takeWhile_prefix isBlank (l := l.line)).length_le
  simp only [firstPlain]
  omega

theorem mem_lines_of_mem_labelLines {cfg : CString} {l : Line} (h : l ∈ labelLines cfg) :
    l ∈ lines cfg ∧ isLabel l := by
  simpa [labelLines] using h

theorem firstPlain_le_length {cfg : CString} {l : Line} (h : l ∈ lines cfg) :
    firstPlain l ≤ cfg.length := by
  have h1 := firstPlain_le l
  have h2 := end_le_of_mem_linesFrom h
  simp only [CString.length]
  omega

/-- Behind an entry come the label lines that follow it. -/
theorem entriesAfter_of_split {cfg : CString} {pre post : List Line} {l : Line}
    (h : labelLines cfg = pre ++ l :: post) :
    entriesAfter cfg (firstPlain l) = post.map firstPlain := by
  obtain ⟨A, B, hAB, -, hB⟩ := List.filter_eq_append_iff.mp h
  obtain ⟨A', B', rfl, -, -, hB'⟩ := List.filter_eq_cons_iff.mp hB
  have hsplit : linesFrom newline 0 cfg.bytes = (A ++ A') ++ l :: B' := by
    simpa [lines] using hAB
  have hafter : linesAfter cfg (firstPlain l) = B' :=
    dropWhile_start_of_split hsplit (start_le_firstPlain l) (firstPlain_le l)
  rw [entriesAfter, hafter, hB']

theorem entryCall_of_split {cfg : CString} {pre post : List Line} {l : Line}
    (h : labelLines cfg = pre ++ l :: post) :
    entryCall cfg (some (firstPlain l)) = .ok (post.map firstPlain).head? := by
  have hl : l ∈ labelLines cfg := by simp [h]
  have hle := firstPlain_le_length (mem_lines_of_mem_labelLines hl).1
  rw [entryCall, extlinuxNextEntry_next cfg hle, entriesAfter_of_split h]

theorem enumerates_of_call {cfg : CString} {last : Option Nat} (pre post : List Line)
    (h : labelLines cfg = pre ++ post)
    (hcall : entryCall cfg last = .ok (post.map firstPlain).head?) :
    Enumerates cfg last (post.map firstPlain) := by
  induction post generalizing last pre with
  | nil => exact .done hcall
  | cons l post ih =>
      have h' : labelLines cfg = (pre ++ [l]) ++ post := by simpa using h
      exact .step hcall (ih (pre ++ [l]) h' (entryCall_of_split h))

theorem Enumerates.unique {cfg : CString} {last : Option Nat} {ps qs : List Nat}
    (h : Enumerates cfg last ps) (h' : Enumerates cfg last qs) : ps = qs := by
  induction h generalizing qs with
  | done hcall =>
      cases h' with
      | done => rfl
      | step hcall' =>
          rw [hcall] at hcall'
          simp at hcall'
  | step hcall _ ih =>
      cases h' with
      | done hcall' =>
          rw [hcall] at hcall'
          simp at hcall'
      | step hcall' h' =>
          rw [hcall] at hcall'
          obtain rfl := Option.some.inj (Except.ok.inj hcall')
          rw [ih h']

theorem enumerates_entryPositions (cfg : CString) :
    Enumerates cfg none (entryPositions cfg) :=
  enumerates_of_call [] (labelLines cfg) rfl (extlinuxNextEntry_first cfg)

/-- An enumeration only reports the positions of label lines. -/
theorem Returned.exists_label {cfg : CString} {p : Nat} (h : Returned cfg p) :
    ∃ l ∈ labelLines cfg, p = firstPlain l := by
  induction h with
  | first hcall =>
      rw [entryCall, extlinuxNextEntry_first] at hcall
      have hmem := List.mem_of_head? (Except.ok.inj hcall)
      obtain ⟨l, hl, rfl⟩ := List.mem_map.mp hmem
      exact ⟨l, hl, rfl⟩
  | next _ hcall ih =>
      obtain ⟨l, hl, rfl⟩ := ih
      obtain ⟨pre, post, hsplit⟩ := List.append_of_mem hl
      rw [entryCall_of_split hsplit] at hcall
      have hmem := List.mem_of_head? (Except.ok.inj hcall)
      obtain ⟨l', hl', rfl⟩ := List.mem_map.mp hmem
      exact ⟨l', by simp [hsplit, hl'], rfl⟩

/-- File order: the positions strictly increase. -/
theorem entryPositions_pairwise (cfg : CString) : (entryPositions cfg).Pairwise (· < ·) := by
  have hpw : (lines cfg).Pairwise fun a b => a.start + a.line.length < b.start :=
    pairwise_located 0 _
  have hfilter := hpw.filter (fun l => isLabel l)
  refine hfilter.map firstPlain ?_
  intro a b hab
  have h1 := firstPlain_le a
  have h2 := start_le_firstPlain b
  omega

theorem isLabel_of_spells {l : Line} (h : SpellsLabel l.line) : isLabel l := by
  obtain ⟨b, g, c, r, hl, hb, hg, hgb, hc⟩ := h
  have hplain : ∀ x ∈ ascii "label", isBlank x = false := fun x hx => (labelToken.plain x hx).1
  have hne : ascii "label" ≠ [] := by decide
  have hdrop : l.line.dropWhile isBlank = ascii "label" ++ (g ++ c :: r) := by
    rw [hl, List.dropWhile_append_of_pos hb]
    rfl
  obtain ⟨g0, gs, rfl⟩ := List.exists_cons_of_ne_nil hg
  have hwords : words isBlank (ascii "label" ++ ((g0 :: gs) ++ c :: r))
      = ascii "label" :: words isBlank (gs ++ c :: r) :=
    words_word_blank _ hne hplain (hgb g0 (by simp))
  have htail : words isBlank (gs ++ c :: r) ≠ [] := by
    rw [ne_eq, words_eq_nil_iff, List.dropWhile_append_of_pos (fun x hx => hgb x (by simp [hx])),
      List.dropWhile_cons_of_neg (by simpa using hc)]
    simp
  rw [isLabel, isPair, ← words_dropWhile, hdrop, hwords]
  refine ⟨?_, ?_⟩
  · simp [labelTokens]
  · simpa [labelTokens, List.length_pos_iff] using htail

theorem spells_of_isLabel {l : Line} (h : isLabel l) : SpellsLabel l.line := by
  have hplain : ∀ x ∈ ascii "label", isBlank x = false := fun x hx => (labelToken.plain x hx).1
  have hne : ascii "label" ≠ [] := by decide
  have hrest : pairRest labelTokens (l.line.dropWhile isBlank) ≠ none := by
    rw [pairRest_dropWhile, pairRest, if_pos (show isPair labelTokens l.line from h)]
    simp
  -- the line goes on with the word `label` ...
  obtain ⟨r, hr, hrb⟩ : ∃ r, l.line.dropWhile isBlank = ascii "label" ++ r ∧
      (r = [] ∨ startsBlank r = true) := by
    by_contra hno
    exact hrest (pairRest_of_not_token (startsBlank_dropWhile _) hno)
  rw [labelTokens, hr, pairRest_token hne hplain hrb, pairRest_nil_left] at hrest
  -- ... and behind it blanks, and then more
  have hmore : r.dropWhile isBlank ≠ [] := by
    intro hnil
    rw [if_pos hnil] at hrest
    exact hrest rfl
  obtain ⟨c, r', hc⟩ := List.exists_cons_of_ne_nil hmore
  have hcplain : isBlank c = false := by
    have := startsBlank_dropWhile r
    rwa [hc] at this
  refine ⟨l.line.takeWhile isBlank, r.takeWhile isBlank, c, r', ?_,
    fun x hx => List.mem_takeWhile_imp hx, ?_, fun x hx => List.mem_takeWhile_imp hx, hcplain⟩
  · rw [← hc, List.takeWhile_append_dropWhile, ← hr, List.takeWhile_append_dropWhile]
  · rcases hrb with rfl | hrb
    · exact absurd rfl hmore
    · cases r with
      | nil => exact absurd rfl hmore
      | cons x r =>
          rw [List.takeWhile_cons_of_pos (show isBlank x = true from hrb)]
          simp

theorem mem_entryPositions {cfg : CString} {p : Nat} :
    p ∈ entryPositions cfg ↔ ∃ l ∈ lines cfg, SpellsLabel l.line ∧ firstPlain l = p := by
  simp only [entryPositions, labelLines, List.mem_map, List.mem_filter, decide_eq_true_eq]
  constructor
  · rintro ⟨l, ⟨hl, hlab⟩, rfl⟩
    exact ⟨l, hl, spells_of_isLabel hlab, rfl⟩
  · rintro ⟨l, hl, hs, rfl⟩
    exact ⟨l, ⟨hl, isLabel_of_spells hs⟩, rfl⟩

/-- **Enumeration is exact.** Calling until null terminates, and reports the position
of the first non-blank character of precisely the label lines, in file order and each
once. -/
theorem enumerates_iff (cfg : CString) (ps : List Nat) :
    (Enumerates cfg none ps ↔ ps = entryPositions cfg) ∧
      (∀ p, p ∈ entryPositions cfg ↔
        ∃ l ∈ lines cfg, SpellsLabel l.line ∧ firstPlain l = p) ∧
      (entryPositions cfg).Pairwise (· < ·) := by
  refine ⟨⟨fun h => h.unique (enumerates_entryPositions cfg), ?_⟩,
    fun p => mem_entryPositions, entryPositions_pairwise cfg⟩
  rintro rfl
  exact enumerates_entryPositions cfg

end LoliLoader.Extlinux
