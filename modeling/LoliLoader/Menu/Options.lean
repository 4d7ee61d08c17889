/-
# LoliLoader.Menu.Options -- the global options

`cmdline_loop` looks `timeout` and `default` up from the start of the configuration. The lookup sees
the global options, unless the very first line is a label pair that starts in column 0: that line is
taken for the entry the caller asks about.

A blank in front of that label is enough for the lookup to see the global section again, which is
empty then. `startsWithLabel` is therefore about the first byte and not about the first line.

`foundOption` is the pair that is found, wherever it is; `cmdlineSetup_run` says what `cmdline_loop`
has printed and knows when it starts to ask, in terms of it. Nothing can go wrong up to that point:
all reads are inside the configuration and inside the copies made of it.

`GlobalScope` is what was meant, and `globalScope_iff` says when it is so. The condition is exact: a
label at the start does no harm if its entry has neither of the two options.
-/
import LoliLoader.Menu.Listing

namespace LoliLoader.Menu

open C Extlinux Text

/-! ## The two keys -/

/-- The two options of the menu as keys of the reference. -/
def timeoutOption : Key := ⟨⟨ascii "timeout", by decide, plain_of_all (by decide)⟩, []⟩
def defaultOption : Key := ⟨⟨ascii "default", by decide, plain_of_all (by decide)⟩, []⟩

theorem timeoutKey_eq : timeoutKey = timeoutOption.cstring := rfl

/-- The pair a lookup from the start of the configuration finds. -/
def foundOption (cfg : CString) (K : Key) : Option Line :=
  findPair K.tokens (searched (lines cfg))

theorem extlinuxGetValue_option (cfg : CString) {K : Key} (hK : K.first.bytes ≠ ascii "label") :
    extlinuxGetValue cfg 0 K.cstring = .ok ((foundOption cfg K).map (pairSlice K.tokens)) :=
  extlinuxGetValue_at hK (CString.At.zero cfg)

theorem searched_subset (ls : List Line) : searched ls ⊆ ls := by
  cases ls with
  | nil => exact fun _ h => h
  | cons l ls =>
      intro x hx
      have hx := (List.takeWhile_prefix _).subset hx
      split at hx
      · exact List.mem_cons_of_mem l hx
      · exact hx

theorem mem_of_foundOption {cfg : CString} {K : Key} {l : Line} (h : foundOption cfg K = some l) :
    l ∈ lines cfg ∧ isPair K.tokens l.line :=
  ⟨searched_subset _ (mem_of_findPair h).1, (mem_of_findPair h).2⟩

/-! ## The timeout -/

theorem atouLoop_total (s : CString) (n : Nat) (weight res : Int32) (hn : n ≤ s.length) :
    ∃ v, atouLoop s weight res n = .ok v := by
  induction n generalizing weight res with
  | zero => exact ⟨res, rfl⟩
  | succ n ih =>
      have hat := CString.At.of_le (Nat.le_of_lt hn)
      simp only [atouLoop, deref_at hat, bind, Except.bind, pure, Except.pure]
      split
      · exact ⟨_, rfl⟩
      · exact ih _ _ (Nat.le_of_lt hn)

/-- `atou` reads nothing but its string. -/
theorem atou_total (s : CString) : ∃ v, atou s = .ok v := by
  simp only [atou, deref_at (CString.At.zero s), bind, Except.bind, pure, Except.pure]
  split
  · exact ⟨_, rfl⟩
  · exact atouLoop_total s s.length 1 0 le_rfl

theorem menuGetTimeout_none {cfg : CString} (h : foundOption cfg timeoutOption = none) :
    menuGetTimeout cfg = .ok (0, []) := by
  have hget := extlinuxGetValue_option cfg (K := timeoutOption) (by decide)
  rw [h] at hget
  simp [menuGetTimeout, timeoutKey_eq, menuGetPair_none hget, bind, Except.bind, pure, Except.pure]

theorem menuGetTimeout_total (cfg : CString) : ∃ r, menuGetTimeout cfg = .ok r := by
  cases hfound : foundOption cfg timeoutOption with
  | none => exact ⟨_, menuGetTimeout_none hfound⟩
  | some l =>
      have hget := extlinuxGetValue_option cfg (K := timeoutOption) (by decide)
      rw [hfound] at hget
      obtain ⟨hl, hpair⟩ := mem_of_foundOption hfound
      obtain ⟨c, hc, -⟩ := (finds_of_getValue hl hpair hget).copy
      obtain ⟨t, ht⟩ := atou_total c
      simp only [menuGetTimeout, timeoutKey_eq, hc, ht, bind, Except.bind, pure, Except.pure]
      split <;> exact ⟨_, rfl⟩

/-! ## Up to the prompt -/

/-- The value of the `default` option in the text. -/
def defaultSlice (cfg : CString) : Option (Nat × Nat) :=
  (foundOption cfg defaultOption).map (pairSlice defaultOption.tokens)

theorem defaultSlice_le (cfg : CString) (v len : Nat) (h : defaultSlice cfg = some (v, len)) :
    v ≤ cfg.length := by
  obtain ⟨l, hl, hv⟩ := Option.map_eq_some_iff.mp h
  obtain ⟨rfl, -⟩ := Prod.mk.inj hv
  exact pairStart_le_length (mem_of_foundOption hl).1 _

/-- The default entry after the listing: the last entry taken for it, else entry 0. -/
def settled (cfg : CString) (default : Option (Nat × Nat)) : Int :=
  let d := lastHit cfg default 0 (if default.isNone then 0 else -1) (labelLines cfg)
  if d < 0 then 0 else d

/-- The default entry as the listing leaves it: -1 if there is a default name and no label was taken
for it. -/
def listedDefault (cfg : CString) : Int :=
  lastHit cfg (defaultSlice cfg) 0 (if (defaultSlice cfg).isNone then 0 else -1) (labelLines cfg)

/-- The complaint about the default entry, which shows the name that no label was taken for. -/
def complaint (name : List UInt8) : List Output :=
  [.printf "Invalid default entry \"" [], .putsSized name,
    .printf "\", boot entry 0 by default\n" []]

/-- **Up to the prompt**: behind the warning and the listing there is the complaint about the
default entry, if none was taken for it. -/
theorem cmdlineSetup_run (ck : CharKind) {cfg : CString} {timeout : Int32} {warning : List Output}
    (ht : menuGetTimeout cfg = .ok (timeout, warning)) :
    ∃ rest, cmdlineSetup ck cfg = .ok ⟨timeout, items cfg 0 (labelLines cfg),
        ((labelLines cfg).length : Int), settled cfg (defaultSlice cfg),
        warning ++ (items cfg 0 (labelLines cfg)).flatMap Listed.output ++ rest⟩ ∧
      (¬ listedDefault cfg < 0 → rest = []) ∧
      (listedDefault cfg < 0 → ∀ p, defaultSlice cfg = some p →
        rest = complaint (cfg.slice p.1 p.2)) := by
  have hdef : extlinuxGetValue cfg 0 defaultKey = .ok (defaultSlice cfg) :=
    extlinuxGetValue_option cfg (K := defaultOption) (by decide)
  have hlist := listEntries_of_split ck (defaultSlice_le cfg) [] (labelLines cfg)
    rfl 0 (if (defaultSlice cfg).isNone then 0 else -1)
  have hfirst : extlinuxNextEntry cfg (some 0) none
      = .ok ((labelLines cfg).map firstPlain).head? := extlinuxNextEntry_first cfg
  have hsettled : settled cfg (defaultSlice cfg)
      = if listedDefault cfg < 0 then 0 else listedDefault cfg := rfl
  rw [Int.zero_add] at hlist
  change listEntries ck cfg _ _ 0 _ = .ok (_, _, listedDefault cfg) at hlist
  unfold cmdlineSetup
  rw [ht, hdef, hfirst, hsettled]
  simp only [bind, Except.bind, hlist]
  by_cases hneg : listedDefault cfg < 0
  · rw [if_pos hneg, if_pos hneg]
    refine ⟨_, rfl, fun hd => absurd hneg hd, ?_⟩
    intro _ p hslice
    rw [hslice]
    rfl
  · rw [if_neg hneg, if_neg hneg]
    refine ⟨[], ?_, fun _ => rfl, fun hd => absurd hd hneg⟩
    rw [List.append_nil]
    rfl

/-- **What `cmdline_loop` knows when it starts to ask.** The listing shows the label lines in file
order, and nothing on the way to the prompt is out of bounds. -/
theorem cmdlineSetup_eq (ck : CharKind) (cfg : CString) :
    ∃ timeout warning output, menuGetTimeout cfg = .ok (timeout, warning) ∧
      (items cfg 0 (labelLines cfg)).flatMap Listed.output <:+: output ∧
      cmdlineSetup ck cfg = .ok ⟨timeout, items cfg 0 (labelLines cfg),
        ((labelLines cfg).length : Int), settled cfg (defaultSlice cfg), output⟩ := by
  obtain ⟨⟨timeout, warning⟩, ht⟩ := menuGetTimeout_total cfg
  obtain ⟨rest, hsetup, -, -⟩ := cmdlineSetup_run ck ht
  exact ⟨timeout, warning, _, ht, List.infix_append _ _ _, hsetup⟩

theorem lastHit_none (cfg : CString) (n d : Int) (ls : List Line) :
    lastHit cfg none n d ls = d := by
  induction ls generalizing n with
  | nil => rfl
  | cons l ls ih => simpa [lastHit, hitsDefault] using ih (n + 1)

theorem settled_none (cfg : CString) : settled cfg none = 0 := by
  simp [settled, lastHit_none]

/-! ## Scope -/

/-- The options are those of the global section, and what has none there is not found and has its
default. -/
structure GlobalScope (ck : CharKind) (cfg : CString) : Prop where
  timeout : extlinuxGetValue cfg 0 timeoutKey
    = .ok ((findPair timeoutOption.tokens (globals cfg)).map (pairSlice timeoutOption.tokens))
  default : extlinuxGetValue cfg 0 defaultKey
    = .ok ((findPair defaultOption.tokens (globals cfg)).map (pairSlice defaultOption.tokens))
  no_timeout : findPair timeoutOption.tokens (globals cfg) = none → menuGetTimeout cfg = .ok (0, [])
  no_default : findPair defaultOption.tokens (globals cfg) = none →
    ∃ m, cmdlineSetup ck cfg = .ok m ∧ m.defaultEntry = 0

/-- The very first byte of the configuration starts a label pair. -/
def startsWithLabel (cfg : CString) : Prop := ∃ l ∈ (lines cfg).head?, atLabel l

/-- The block of an entry at the start of the configuration has an option in it. -/
def optionInside (cfg : CString) : Prop :=
  ∃ l ∈ block cfg 0, isPair timeoutOption.tokens l.line ∨ isPair defaultOption.tokens l.line

theorem block_zero (cfg : CString) : block cfg 0 = untilLabel (lines cfg).tail := by
  rw [block, linesAfter_eq (Nat.zero_le _), List.drop_zero, lines]

theorem searched_lines (cfg : CString) :
    (startsWithLabel cfg ∧ globals cfg = [] ∧ searched (lines cfg) = block cfg 0) ∨
    (¬ startsWithLabel cfg ∧ searched (lines cfg) = globals cfg) := by
  rw [block_zero, globals, startsWithLabel]
  cases lines cfg with
  | nil => exact Or.inr ⟨by simp, rfl⟩
  | cons l ls =>
      by_cases h : atLabel l
      · exact Or.inl ⟨⟨l, rfl, h⟩, by simp [untilLabel_cons, h.2], by simp [searched, h]⟩
      · exact Or.inr ⟨by simpa using h, by simp [searched, h]⟩

/-- When the lookups see the global section, the defaults follow. -/
theorem globalScope_of_found {ck : CharKind} {cfg : CString}
    (htimeout : foundOption cfg timeoutOption = findPair timeoutOption.tokens (globals cfg))
    (hdefault : foundOption cfg defaultOption = findPair defaultOption.tokens (globals cfg)) :
    GlobalScope ck cfg := by
  refine ⟨?_, ?_, ?_, ?_⟩
  · rw [← htimeout]
    exact extlinuxGetValue_option cfg (K := timeoutOption) (by decide)
  · rw [← hdefault]
    exact extlinuxGetValue_option cfg (K := defaultOption) (by decide)
  · rw [← htimeout]
    exact menuGetTimeout_none
  · intro hnone
    obtain ⟨timeout, warning, output, -, -, hsetup⟩ := cmdlineSetup_eq ck cfg
    refine ⟨_, hsetup, ?_⟩
    rw [defaultSlice, hdefault, hnone]
    exact settled_none cfg

/-- **Global options come only from the global section**, exactly when no label pair
at the very start of the configuration has an option in its block. -/
theorem globalScope_iff (ck : CharKind) (cfg : CString) :
    GlobalScope ck cfg ↔ ¬ (startsWithLabel cfg ∧ optionInside cfg) := by
  have htime := extlinuxGetValue_option cfg (K := timeoutOption) (by decide)
  have hdef := extlinuxGetValue_option cfg (K := defaultOption) (by decide)
  rcases searched_lines cfg with ⟨hstart, hnil, hsearch⟩ | ⟨hstart, hsearch⟩
  · constructor
    · rintro hscope ⟨-, l, hl, hopt⟩
      -- nothing is global here, so neither option may be found in the block
      have h1 := htime.symm.trans hscope.timeout
      have h2 := hdef.symm.trans hscope.default
      simp only [hnil, foundOption, hsearch, findPair, List.find?_nil, Option.map_none,
        Except.ok.injEq, Option.map_eq_none_iff, List.find?_eq_none, decide_eq_true_eq] at h1 h2
      rcases hopt with hopt | hopt
      · exact h1 l hl hopt
      · exact h2 l hl hopt
    · intro h
      have hnone : ∀ K : Key, K = timeoutOption ∨ K = defaultOption →
          foundOption cfg K = findPair K.tokens (globals cfg) := by
        rintro K hK
        rw [foundOption, hsearch, hnil]
        apply findPair_eq_none_iff.mpr
        intro l hl hpair
        apply h
        refine ⟨hstart, l, hl, ?_⟩
        rcases hK with rfl | rfl
        · exact Or.inl hpair
        · exact Or.inr hpair
      exact globalScope_of_found (hnone _ (Or.inl rfl)) (hnone _ (Or.inr rfl))
  · refine ⟨fun _ h => hstart h.1, fun _ => ?_⟩
    apply globalScope_of_found
    · rw [foundOption, hsearch]
    · rw [foundOption, hsearch]

/-- An entry on the first line gives its own timeout to the menu. -/
theorem not_globalScope_label_first :
    ¬ GlobalScope .signed ⟨ascii "label a\n\ttimeout 5\n", by decide⟩ := by
  intro h
  have hno := h.no_timeout (by decide +kernel)
  exact absurd hno (by decide +kernel)

end LoliLoader.Menu
