/-
# LoliLoader.Extlinux.Lookup -- value lookup is the reference parser

`extlinux_get_value` serves both an entry and the global options. Seen from the text behind its
pointer it searches the lines from there, up to the next label pair, except that a label pair right
at the pointer is skipped. On the pointers of an enumeration that is the entry's block.

The one function does both because of that exception. An entry's pointer stands at its label, which
has to be skipped, else the search would end before it has begun. When a configuration starts with a
label and is passed as it is, the same exception applies, and what is found are the settings of the
first entry. `searched` has this in its definition, so that the statements about global options can
name the case.

A key that is itself `label` is searched for in all lines; `scope` keeps the two searches apart.
`getValueLoop_at` is the loop, `extlinuxGetValue_at` the function at any pointer, and the two
theorems at the end are about entries.

The value that is found is a pointer and a length into the configuration (`pairSlice`); nothing is
copied here.
-/
import LoliLoader.Extlinux.Enumerate

namespace LoliLoader.Extlinux

open C Text

variable {s : CString} {p : Nat} {l t r : List UInt8}

/-! ## The value on its line -/

/-- Trailing blanks are trimmed from the end, down to the start of the value. -/
theorem trimEnd_at (h : s.At p (l ++ t)) :
    trimEnd s p (p + l.length) = .ok (p + (l.rdropWhile isBlank).length) := by
  -- the loop goes down from the end of the line, and so does the induction
  induction l using List.reverseRecOn generalizing t with
  | nil =>
      cases p with
      | zero => rfl
      | succ p =>
          rw [List.length_nil, Nat.add_zero, trimEnd, if_neg (by omega)]
          rfl
  | append_singleton l c ih =>
      have hlast : s.At (p + l.length) (c :: t) := by
        have : s.At p (l ++ c :: t) := by simpa using h
        exact this.append
      rw [List.length_append, List.length_singleton, ← Nat.add_assoc, trimEnd,
        if_pos (Nat.le_add_right p l.length), isSpace_cons hlast]
      by_cases hc : isBlank c = true
      · have hl : s.At p (l ++ c :: t) := by simpa using h
        simp [hc, ih hl, bind, Except.bind]
      · simp [hc, bind, Except.bind, pure, Except.pure, Nat.add_assoc]

/-- The value that starts at `p`, when the line goes on with `l`. -/
theorem valueAt_line (h : LineAt s p l t) :
    valueAt s p = .ok (p, (l.rdropWhile isBlank).length) := by
  simp [valueAt, lineEnd_at h.at_ h.line h.tail, trimEnd_at h.at_, bind, Except.bind, pure,
    Except.pure]

/-- The line from the start of a pair's value on. -/
theorem LineAt.value (h : LineAt s p l t) (tokens : List (List UInt8)) :
    LineAt s (pairStart tokens ⟨p, l⟩) (afterWords isBlank tokens.length l) t := by
  obtain ⟨pre, hpre⟩ := afterWords_suffix tokens.length l
  have hat := h.at_
  have hpos : pairStart tokens ⟨p, l⟩ = p + pre.length := by
    have hlen := congrArg List.length hpre
    rw [List.length_append] at hlen
    simp only [pairStart]
    omega
  rw [← hpre, List.append_assoc] at hat
  refine ⟨hpos ▸ hat.append, ?_, h.tail⟩
  exact fun hm => h.line (hpre ▸ List.mem_append_right pre hm)

/-! ## The search for a pair -/

/-- Position and length of a pair's value: what `extlinux_get_value` returns for a pair on this
line. -/
def pairSlice (tokens : List (List UInt8)) (l : Line) : Nat × Nat :=
  (pairStart tokens l, (pairValue tokens l.line).length)

theorem LineAt.valueAt (h : LineAt s p l t) (tokens : List (List UInt8)) :
    valueAt s (pairStart tokens ⟨p, l⟩) = .ok (pairSlice tokens ⟨p, l⟩) :=
  valueAt_line (h.value tokens)

theorem LineAt.deref_ne_nul (h : LineAt s p l t) {tokens : List (List UInt8)}
    (hpair : isPair tokens l) : ∃ c, s.deref (firstPlain ⟨p, l⟩) = .ok c ∧ c ≠ 0 := by
  have hne : l.dropWhile isBlank ≠ [] := by
    intro hnil
    rw [isPair, ← words_dropWhile, hnil] at hpair
    simp at hpair
  obtain ⟨c, r, hc⟩ := List.exists_cons_of_ne_nil hne
  have hat := h.plain.at_
  rw [hc] at hat
  exact ⟨c, hat.deref_cons, hat.ne_nul⟩

/-- The lines the loop of `extlinux_get_value` searches: all of them for `label`,
else those up to the next label pair. -/
def scope (getLabel : Bool) (ls : List Line) : List Line :=
  if getLabel then ls else untilLabel ls

/-- One turn of the loop of `extlinux_get_value`, in the order of the source. -/
theorem getValueLoop_some {key : CString} {getLabel : Bool} {p' : Nat} {c : UInt8}
    (hskip : skipSpace s p = .ok p') (hd : s.deref p' = .ok c) :
    getValueLoop s key getLabel (some p) = (if c = 0 then .ok none else do
      let label ← matchKey s labelKey p'
      if label.isSome ∧ getLabel = false then .ok none else
      match ← matchKey s key p' with
      | some value => some <$> valueAt s value
      | none => getValueLoop s key getLabel (← nextLine s p')) := by
  rw [getValueLoop]
  split
  all_goals rename_i he
  all_goals rw [hskip] at he
  · cases he
  · obtain rfl := Except.ok.inj he
    split
    all_goals rename_i hc
    all_goals rw [hd] at hc
    · cases hc
    · obtain rfl := Except.ok.inj hc
      by_cases h0 : c = 0
      · rw [if_pos h0, if_pos h0]
      rw [if_neg h0, if_neg h0]
      rcases hlab : matchKey s labelKey p' with e | label
      · rfl
      simp only [bind, Except.bind]
      split
      · rfl
      rcases hval : matchKey s key p' with e | value
      · rfl
      rcases value with _ | value
      · simp only
        split
        all_goals rename_i hq
        all_goals simp only [hq]
      · rfl

theorem findPair_cons (tokens : List (List UInt8)) (l : Line) (ls : List Line) :
    findPair tokens (l :: ls) = if isPair tokens l.line then some l else findPair tokens ls := by
  by_cases h : isPair tokens l.line <;> simp [findPair, h]

theorem untilLabel_cons (l : Line) (ls : List Line) :
    untilLabel (l :: ls) = if isLabel l then [] else l :: untilLabel ls := by
  by_cases h : isLabel l <;> simp [untilLabel, h]

theorem findPair_scope_skip {tokens : List (List UInt8)} {getLabel : Bool} {ls : List Line}
    (hpair : ¬ isPair tokens l) (hlab : ¬ (isLabel ⟨p, l⟩ ∧ getLabel = false)) :
    findPair tokens (scope getLabel (⟨p, l⟩ :: ls)) = findPair tokens (scope getLabel ls) := by
  cases getLabel with
  | true => rw [scope, scope, if_pos rfl, if_pos rfl, findPair_cons, if_neg hpair]
  | false =>
      have hno : ¬ isLabel ⟨p, l⟩ := fun h => hlab ⟨h, rfl⟩
      simp only [scope, Bool.false_eq_true, if_false]
      rw [untilLabel_cons, if_neg hno, findPair_cons, if_neg hpair]

theorem findPair_scope_found {tokens : List (List UInt8)} {getLabel : Bool} {ls : List Line}
    (hpair : isPair tokens l) (hlab : ¬ (isLabel ⟨p, l⟩ ∧ getLabel = false)) :
    findPair tokens (scope getLabel (⟨p, l⟩ :: ls)) = some ⟨p, l⟩ := by
  cases getLabel with
  | true => rw [scope, if_pos rfl, findPair_cons, if_pos hpair]
  | false =>
      have hno : ¬ isLabel ⟨p, l⟩ := fun h => hlab ⟨h, rfl⟩
      simp only [scope, Bool.false_eq_true, if_false]
      rw [untilLabel_cons, if_neg hno, findPair_cons, if_pos hpair]

theorem nextLine_nul (h : s.deref p = .ok 0) : nextLine s p = .ok none := by
  have he : lineEnd s p = .ok p := by
    rw [lineEnd]
    split
    all_goals simp_all
  simp [nextLine, he, h, bind, Except.bind, pure, Except.pure]

theorem LineAt.exists_deref (h : LineAt s p l t) : ∃ c, s.deref (firstPlain ⟨p, l⟩) = .ok c := by
  have hat := h.plain.at_
  cases hr : l.dropWhile isBlank ++ t with
  | nil => exact ⟨0, (hr ▸ hat).deref_nil⟩
  | cons c r => exact ⟨c, (hr ▸ hat).deref_cons⟩

/-- The search of one line, given the search of the lines behind it. -/
theorem getValueLoop_line (K : Key) (getLabel : Bool) (h : LineAt s p l t) {ls : List Line}
    (hnext : ∃ q, nextLine s (firstPlain ⟨p, l⟩) = .ok q ∧
      getValueLoop s K.cstring getLabel q
        = .ok ((findPair K.tokens (scope getLabel ls)).map (pairSlice K.tokens))) :
    getValueLoop s K.cstring getLabel (some p)
      = .ok ((findPair K.tokens (scope getLabel (⟨p, l⟩ :: ls))).map (pairSlice K.tokens)) := by
  obtain ⟨q, hq, hrest⟩ := hnext
  obtain ⟨c, hc⟩ := h.exists_deref
  have hnul : ∀ tokens, isPair tokens l → c ≠ 0 := by
    intro tokens hp
    obtain ⟨c', hc', hne⟩ := h.deref_ne_nul hp
    rw [hc] at hc'
    exact (Except.ok.inj hc') ▸ hne
  rw [getValueLoop_some h.skipSpace hc, h.matchLabel, h.matchKey K]
  by_cases hend : isLabel ⟨p, l⟩ ∧ getLabel = false
  · -- the entry ends here
    obtain ⟨hlab, rfl⟩ := hend
    simp [hnul _ hlab, hlab, scope, untilLabel_cons, findPair, bind, Except.bind]
  by_cases hpair : isPair K.tokens l
  · rw [if_neg (hnul _ hpair), findPair_scope_found hpair hend]
    by_cases hlab : isLabel ⟨p, l⟩
    · have hget : getLabel = true := by simpa [hlab] using hend
      simp [hlab, hpair, hget, h.valueAt, bind, Except.bind]
    · simp [hlab, hpair, h.valueAt, bind, Except.bind]
  · rw [findPair_scope_skip hpair hend]
    by_cases h0 : c = 0
    · -- the text ends on this blank line
      rw [if_pos h0, ← hrest]
      rw [nextLine_nul (h0 ▸ hc)] at hq
      rw [← Except.ok.inj hq, getValueLoop]
    · rw [if_neg h0]
      by_cases hlab : isLabel ⟨p, l⟩
      · have hget : getLabel = true := by simpa [hlab] using hend
        subst hget
        simp [hlab, hpair, hq, hrest, bind, Except.bind]
      · simp [hlab, hpair, hq, hrest, bind, Except.bind]

/-- **The loop of `extlinux_get_value` is the reference search** over the lines from its pointer on.
It may stand anywhere in the text, also within a line. -/
theorem getValueLoop_at (K : Key) (getLabel : Bool) (h : s.At p r) :
    getValueLoop s K.cstring getLabel (some p)
      = .ok ((findPair K.tokens (scope getLabel (linesFrom newline p r))).map
          (pairSlice K.tokens)) := by
  have hnone : getValueLoop s K.cstring getLabel none
      = .ok ((findPair K.tokens (scope getLabel [])).map (pairSlice K.tokens)) := by
    rw [getValueLoop]
    cases getLabel <;> rfl
  induction r using text_induction newline generalizing p with
  | last l hl =>
      have hline : LineAt s p l [] := ⟨by simpa using h, hl, Or.inl rfl⟩
      rw [linesFrom_last p hl]
      exact getValueLoop_line K getLabel hline ⟨none, hline.plain.nextLine_last, hnone⟩
  | line l r hl ih =>
      have hline : LineAt s p l (newline :: r) := ⟨h, hl, Or.inr ⟨r, rfl⟩⟩
      rw [linesFrom_line p r hl]
      refine getValueLoop_line K getLabel hline ⟨_, hline.nextLine_firstPlain, ?_⟩
      by_cases hr : r = []
      · -- a text that ends in a newline has one more, empty line
        subst hr
        rw [if_pos rfl, hnone, linesFrom_last _ (by simp)]
        rw [findPair_scope_skip (by simp [isPair]) (fun h => not_isLabel_nil _ h.1)]
      · rw [if_neg hr]
        exact ih h.append.tail

/-! ## Values in the text -/

theorem pairValue_ne_nil {tokens : List (List UInt8)} (h : isPair tokens l) :
    pairValue tokens l ≠ [] :=
  rdropWhile_afterWords_ne_nil h.2

theorem pairValue_within (tokens : List (List UInt8)) (l : List UInt8) :
    pairValue tokens l <:+: l :=
  (List.rdropWhile_prefix _ _).isInfix.trans (afterWords_suffix _ _).isInfix

/-- The bytes of the slice are the value. -/
theorem LineAt.slice (h : LineAt s p l t) (tokens : List (List UInt8)) :
    s.slice (pairStart tokens ⟨p, l⟩) (pairValue tokens l).length = pairValue tokens l := by
  rw [(h.value tokens).at_.slice_eq, pairValue]
  have hpre := (List.rdropWhile_prefix isBlank (afterWords isBlank tokens.length l)).trans
    (List.prefix_append _ t)
  exact (List.prefix_iff_eq_take.mp hpre).symm

/-- Every line of a configuration is found at its position. -/
theorem lineAt_of_mem {cfg : CString} {l : Line} (h : l ∈ lines cfg) :
    ∃ t, LineAt cfg l.start l.line t := by
  obtain ⟨t, ht, hbreak⟩ := drop_start_of_mem_linesFrom h
  refine ⟨t, ⟨?_, by simpa using ht⟩, sep_notMem_of_mem_linesFrom h, hbreak⟩
  have := end_le_of_mem_linesFrom h
  simp only [CString.length]
  omega

/-! ## `extlinux_get_value` -/

theorem readsAs_at {w : List UInt8} (hw : (0 : UInt8) ∉ w) (h : s.At p r) :
    readsAs s p w = .ok (decide (r = w)) := by
  induction w generalizing p r with
  | nil =>
      cases r with
      | nil => simp [readsAs, h.deref_nil, bind, Except.bind, pure, Except.pure]
      | cons c r => simp [readsAs, h.deref_cons, h.ne_nul, bind, Except.bind, pure, Except.pure]
  | cons d w ih =>
      have hd : ¬ (0 : UInt8) = d := fun h => hw (h ▸ List.mem_cons_self)
      cases r with
      | nil => simp [readsAs, h.deref_nil, hd, bind, Except.bind, pure, Except.pure]
      | cons c r =>
          by_cases hcd : c = d
          · simp [readsAs, h.deref_cons, hcd, ih (fun hm => hw (List.mem_cons_of_mem _ hm)) h.tail,
              bind, Except.bind]
          · simp [readsAs, h.deref_cons, hcd, bind, Except.bind, pure, Except.pure]

/-- A key whose first token is not `label` is not the key `label`. -/
theorem bytes_ne_label {K : Key} (hK : K.first.bytes ≠ ascii "label") :
    K.bytes ≠ ascii "label" := by
  obtain ⟨first, more⟩ := K
  cases more with
  | nil => simpa [Key.bytes] using hK
  | cons gt more =>
      -- a gap puts a blank into the key, and `label` has none
      obtain ⟨c, cs, hc⟩ := List.exists_cons_of_ne_nil gt.1.ne_nil
      have hblank : isBlank c = true := gt.1.blank c (by simp [hc])
      have hmem : c ∈ (Key.mk first (gt :: more)).bytes := by simp [Key.bytes, hc]
      have hlabel : ∀ x ∈ ascii "label", isBlank x = false :=
        fun x hx => (labelToken.plain x hx).1
      intro heq
      rw [heq] at hmem
      rw [hlabel c hmem] at hblank
      exact absurd hblank (by simp)

theorem getLabel_key {K : Key} (hK : K.first.bytes ≠ ascii "label") :
    readsAs K.cstring 0 (ascii "label") = .ok false := by
  rw [readsAs_at (by decide) (CString.At.zero K.cstring)]
  simp [Key.cstring, bytes_ne_label hK]

theorem getLabel_label : readsAs labelKey 0 (ascii "label") = .ok true := by
  rw [readsAs_at (by decide) (CString.At.zero labelKey)]
  simp [labelKey]

/-- Does the text at the pointer look like the start of an entry, with no blank
before it? -/
def atLabel (l : Line) : Prop := startsBlank l.line = false ∧ isLabel l

instance (l : Line) : Decidable (atLabel l) := by
  unfold atLabel
  infer_instance

/-- The lines a lookup searches, from those that start at its pointer: a label pair
right there is skipped, the next one ends the search. -/
def searched : List Line → List Line
  | [] => []
  | l :: ls => untilLabel (if atLabel l then ls else l :: ls)

theorem matchLabel_pointer (h : LineAt s p l t) :
    ∃ m, matchKey s labelKey p = .ok m ∧ (m.isSome ↔ atLabel ⟨p, l⟩) := by
  by_cases hb : startsBlank l = true
  · -- a blank is no match for the `l` of `label`
    refine ⟨none, ?_, by simp [atLabel, hb]⟩
    cases l with
    | nil => simp [startsBlank] at hb
    | cons c l =>
        have hc : ¬ c = 108 := by
          rintro rfl
          exact absurd (show isBlank 108 = true from hb) (by decide)
        rw [matchKey_at h.at_]
        have hlabel : labelKey.bytes = 108 :: [97, 98, 101, 108] := by decide
        simp [hlabel, matchText, hc]
  · have hbf : startsBlank l = false := by simpa using hb
    refine ⟨_, h.matchKey_of_plain hbf ⟨labelToken, []⟩, ?_⟩
    by_cases hlab : isPair labelTokens l
    · simp [atLabel, isLabel, hbf, hlab, ← labelTokens_eq]
    · simp [atLabel, isLabel, hlab, ← labelTokens_eq]

/-- **`extlinux_get_value` at any pointer** searches the lines from there on, up to the next label,
whether the pointer is that of an entry or not. -/
theorem extlinuxGetValue_at {K : Key} (hK : K.first.bytes ≠ ascii "label") (h : s.At p r) :
    extlinuxGetValue s p K.cstring
      = .ok ((findPair K.tokens (searched (linesFrom newline p r))).map (pairSlice K.tokens)) := by
  obtain ⟨l, t, rfl, hline⟩ := exists_lineAt h
  obtain ⟨m, hm, hiff⟩ := matchLabel_pointer hline
  have hloop := getValueLoop_at K false h
  rw [extlinuxGetValue, getLabel_key hK]
  -- at a label pair the search starts on the next line
  by_cases hat : atLabel ⟨p, l⟩
  · have hsome : m.isSome = true := hiff.mpr hat
    rcases hline.tail with rfl | ⟨t, rfl⟩
    · rw [List.append_nil, linesFrom_last p hline.line]
      simp [hm, hsome, hline.nextLine_last, getValueLoop, searched, hat, untilLabel, findPair,
        bind, Except.bind]
    · rw [linesFrom_line p t hline.line]
      by_cases ht : t = []
      · subst ht
        simp [hm, hsome, hline.nextLine_line, getValueLoop, searched, hat, linesFrom_last,
          not_isLabel_nil, untilLabel, findPair, isPair, bind, Except.bind]
      · have hnext := getValueLoop_at K false h.append.tail
        simp only [scope, Bool.false_eq_true, if_false] at hnext
        simp [hm, hsome, hline.nextLine_line, ht, hnext, searched, hat, bind, Except.bind]
  · have hnone : m.isSome = false := by simpa using fun h => hat (hiff.mp h)
    simp only [scope, Bool.false_eq_true, if_false] at hloop
    have hsearched : searched (linesFrom newline p (l ++ t))
        = untilLabel (linesFrom newline p (l ++ t)) := by
      rcases hline.tail with rfl | ⟨t, rfl⟩
      · rw [List.append_nil, linesFrom_last p hline.line, searched, if_neg hat]
      · rw [linesFrom_line p t hline.line, searched, if_neg hat]
    rw [hsearched]
    simp [hm, hnone, hloop, bind, Except.bind]

/-- What an entry's pointer sees: its own label pair, then the lines behind it. -/
theorem linesFrom_firstPlain {cfg : CString} {l : Line} (h : l ∈ lines cfg) :
    ∃ r, cfg.At (firstPlain l) r ∧ linesFrom newline (firstPlain l) r
      = ⟨firstPlain l, l.line.dropWhile isBlank⟩ :: linesAfter cfg (firstPlain l) := by
  obtain ⟨t, hline⟩ := lineAt_of_mem h
  have hplain := hline.plain
  refine ⟨_, hplain.at_, ?_⟩
  rw [linesAfter_eq hplain.at_.le, hplain.at_.drop]
  rcases hline.tail with rfl | ⟨t, rfl⟩
  · rw [List.append_nil, linesFrom_last _ hplain.line]
    rfl
  · rw [linesFrom_line _ t hplain.line]
    rfl

theorem isLabel_dropWhile {l : Line} (h : isLabel l) (p : Nat) :
    isLabel ⟨p, l.line.dropWhile isBlank⟩ :=
  (LineAt.isPair_dropWhile labelTokens l.line).mpr h

/-- **Lookup in an entry** searches the entry's block, and finds the first pair with the key in
it. -/
theorem extlinuxGetValue_entry {cfg : CString} {l : Line} (hl : l ∈ labelLines cfg) {K : Key}
    (hK : K.first.bytes ≠ ascii "label") :
    extlinuxGetValue cfg (firstPlain l) K.cstring
      = .ok ((findPair K.tokens (block cfg (firstPlain l))).map (pairSlice K.tokens)) := by
  obtain ⟨hmem, hlab⟩ := mem_lines_of_mem_labelLines hl
  obtain ⟨r, hr, hlines⟩ := linesFrom_firstPlain hmem
  have hat : atLabel ⟨firstPlain l, l.line.dropWhile isBlank⟩ :=
    ⟨startsBlank_dropWhile l.line, isLabel_dropWhile hlab _⟩
  rw [extlinuxGetValue_at hK hr, hlines, searched, if_pos hat, block]

/-- With the key `label` an entry's own label value is found. -/
theorem extlinuxGetValue_entry_label {cfg : CString} {l : Line} (hl : l ∈ labelLines cfg) :
    extlinuxGetValue cfg (firstPlain l) labelKey = .ok (some (pairSlice labelTokens l)) := by
  obtain ⟨hmem, hlab⟩ := mem_lines_of_mem_labelLines hl
  obtain ⟨r, hr, hlines⟩ := linesFrom_firstPlain hmem
  have hown : isPair labelTokens (l.line.dropWhile isBlank) := isLabel_dropWhile hlab 0
  have hloop := getValueLoop_at ⟨labelToken, []⟩ true hr
  rw [hlines, scope, if_pos rfl, ← labelTokens_eq, findPair_cons, if_pos hown] at hloop
  have hslice : pairSlice labelTokens ⟨firstPlain l, l.line.dropWhile isBlank⟩
      = pairSlice labelTokens l := by
    simp only [pairSlice, pairValue, afterWords_dropWhile]
    rw [LineAt.pairStart_dropWhile]
  rw [extlinuxGetValue, getLabel_label]
  simpa [labelKey_eq, hslice, bind, Except.bind] using hloop

end LoliLoader.Extlinux
