/-
# LoliLoader.Menu.Config -- src/menu.c

Reading pairs, the timeout and the n-th entry of a configuration. A copy made by `menu_get_pair` is
the C string its buffer holds. `malloc` does not return on failure in this program: the wrapper of
the loader calls `panic` instead, so null stands only for a pair that is missing.

The library of the configuration gives a pointer into the text and a length. What the menu wants is
a string of its own, and `menu_get_pair` makes it with `strscpy`. The value has neither a newline
nor a terminator in it, so the copy is the whole value (`menuGetPair_line`).

`menu_get_timeout` prints a warning when the value is no number, and so returns its messages along
with the number.

`extlinuxGetValue_eq_reference` says what a lookup in an entry finds, in terms of
`Extlinux.Reference`. The two sides of it, a key that is found and one that is not, are met at the
configuration behind it, whose second entry has a pair that the first one lacks.
-/
import LoliLoader.C.Console
import LoliLoader.C.String
import LoliLoader.Extlinux.Lookup

namespace LoliLoader.Menu

open C Extlinux

/-- `menu_get_pair`: a copy of the value, or null. -/
def menuGetPair (cfg : CString) (entry : Nat) (key : CString) : Except Fault (Option CString) := do
  match ← extlinuxGetValue cfg entry key with
  | none => return none
  | some (res, len) =>
    let copy ← strscpy cfg res (len + 1)
    return some (CString.ofBuffer copy)

/-- The key of the timeout, as the source spells it. -/
def timeoutKey : CString := ⟨ascii "timeout", by decide⟩

/-- `menu_get_timeout`, with what it prints: the configured number of seconds, or 0 if there is none
or it is no number. -/
def menuGetTimeout (cfg : CString) : Except Fault (Int32 × List Output) := do
  match ← menuGetPair cfg 0 timeoutKey with
  | none => return (0, [])
  | some res =>
    let timeout ← atou res
    if timeout < 0 then
      return (0, prErr "invalid timeout \"%s\", use 0 instead\n" [.str res.bytes])
    return (timeout, [])

/-- The loop `while (index--)` of `menu_get_nth_entry`. -/
def nthEntryLoop (cfg : CString) : Nat → Option Nat → Except Fault (Option Nat)
  | 0, entry => .ok entry
  | index + 1, entry => do nthEntryLoop cfg index (← extlinuxNextEntry cfg none entry)

/-- `menu_get_nth_entry`, for an index that is not negative. -/
def menuGetNthEntry (cfg : CString) (index : Nat) : Except Fault (Option Nat) := do
  nthEntryLoop cfg index (← extlinuxNextEntry cfg (some 0) none)

/-! ## Copies of values -/

/-- The value of a pair on its line is copied whole. -/
theorem menuGetPair_line {cfg : CString} {p entry : Nat} {l t : List UInt8} {key : CString}
    {tokens : List (List UInt8)} (h : LineAt cfg p l t)
    (hget : extlinuxGetValue cfg entry key = .ok (some (pairSlice tokens ⟨p, l⟩))) :
    menuGetPair cfg entry key
      = .ok (some (CString.ofBuffer (pairValue tokens l ++ [0]))) := by
  have hcopy := strscpy_at (h.value tokens).at_ (pairValue tokens l).length
  have hslice := h.slice tokens
  rw [(h.value tokens).at_.slice_eq] at hslice
  rw [hslice] at hcopy
  simp [menuGetPair, hget, pairSlice, hcopy, bind, Except.bind, pure, Except.pure]

theorem menuGetPair_none {cfg : CString} {entry : Nat} {key : CString}
    (hget : extlinuxGetValue cfg entry key = .ok none) : menuGetPair cfg entry key = .ok none := by
  simp [menuGetPair, hget, bind, Except.bind, pure, Except.pure]

theorem nul_notMem_pairValue {cfg : CString} {l : Line} (h : l ∈ lines cfg)
    (tokens : List (List UInt8)) : (0 : UInt8) ∉ pairValue tokens l.line := by
  obtain ⟨t, ht⟩ := lineAt_of_mem h
  intro hm
  exact ht.at_.nul_notMem (List.mem_append_left t ((pairValue_within tokens l.line).subset hm))

theorem newline_notMem_pairValue {cfg : CString} {l : Line} (h : l ∈ lines cfg)
    (tokens : List (List UInt8)) : newline ∉ pairValue tokens l.line :=
  fun hm => (lineAt_of_mem h).choose_spec.line ((pairValue_within tokens l.line).subset hm)

/-- Lines of a block are lines of the configuration. -/
theorem mem_lines_of_mem_block {cfg : CString} {p : Nat} {l : Line} (h : l ∈ block cfg p) :
    l ∈ lines cfg :=
  (List.dropWhile_suffix _).subset ((List.takeWhile_prefix _).subset h)

theorem mem_of_findPair {tokens : List (List UInt8)} {ls : List Line} {l : Line}
    (h : findPair tokens ls = some l) : l ∈ ls ∧ isPair tokens l.line :=
  ⟨List.mem_of_find?_eq_some h, by simpa using List.find?_some h⟩

theorem findPair_eq_none_iff {tokens : List (List UInt8)} {ls : List Line} :
    findPair tokens ls = none ↔ ∀ l ∈ ls, ¬ isPair tokens l.line := by
  simp [findPair, List.find?_eq_none]

/-- The lookup of `key` from `p` finds the pair on line `l`: the value is where the
reference says, not empty, within the line, and copied exactly. -/
structure Finds (cfg : CString) (p : Nat) (key : CString) (tokens : List (List UInt8))
    (l : Line) : Prop where
  value : extlinuxGetValue cfg p key
    = .ok (some (pairStart tokens l, (pairValue tokens l.line).length))
  bytes : cfg.slice (pairStart tokens l) (pairValue tokens l.line).length
    = pairValue tokens l.line
  ne_nil : pairValue tokens l.line ≠ []
  newline_notMem : newline ∉ pairValue tokens l.line
  copy : ∃ c, menuGetPair cfg p key = .ok (some c) ∧ c.mem = pairValue tokens l.line ++ [0]

theorem finds_of_getValue {cfg : CString} {p : Nat} {key : CString}
    {tokens : List (List UInt8)} {l : Line} (hl : l ∈ lines cfg) (hpair : isPair tokens l.line)
    (hget : extlinuxGetValue cfg p key = .ok (some (pairSlice tokens l))) :
    Finds cfg p key tokens l := by
  obtain ⟨t, hline⟩ := lineAt_of_mem hl
  refine ⟨hget, hline.slice tokens, pairValue_ne_nil hpair, newline_notMem_pairValue hl tokens,
    _, menuGetPair_line hline hget, ?_⟩
  exact CString.mem_ofBuffer (nul_notMem_pairValue hl tokens)

/-- **Entry-scoped lookup is the line-based reference parser.** For a pointer of an
enumeration, a key finds the first pair of the entry's block, or null when there is
none; `label` finds the entry's own label. -/
theorem extlinuxGetValue_eq_reference {cfg : CString} {p : Nat} (hp : Returned cfg p) :
    (∀ K : Key, K.first.bytes ≠ ascii "label" →
      (extlinuxGetValue cfg p K.cstring = .ok none ↔
        ∀ l ∈ block cfg p, ¬ isPair K.tokens l.line) ∧
      ((∀ l ∈ block cfg p, ¬ isPair K.tokens l.line) →
        menuGetPair cfg p K.cstring = .ok none) ∧
      (∀ l, findPair K.tokens (block cfg p) = some l → Finds cfg p K.cstring K.tokens l)) ∧
    (∃ l ∈ lines cfg, isLabel l ∧ firstPlain l = p ∧ Finds cfg p labelKey labelTokens l) := by
  obtain ⟨own, hown, rfl⟩ := hp.exists_label
  obtain ⟨hmem, hlab⟩ := mem_lines_of_mem_labelLines hown
  refine ⟨?_, own, hmem, hlab, rfl, ?_⟩
  · intro K hK
    have hget := extlinuxGetValue_entry hown hK
    refine ⟨?_, ?_, ?_⟩
    · rw [hget, ← findPair_eq_none_iff]
      simp
    · intro hnone
      rw [findPair_eq_none_iff.mpr hnone] at hget
      exact menuGetPair_none hget
    · intro l hfind
      obtain ⟨hblock, hpair⟩ := mem_of_findPair hfind
      rw [hfind] at hget
      exact finds_of_getValue (mem_lines_of_mem_block hblock) hpair hget
  · exact finds_of_getValue hmem hlab (extlinuxGetValue_entry_label hown)

/-- An entry with a kernel, and behind it one with an initrd. -/
def kernelThenInitrd : CString := ⟨ascii "label a\n\tkernel b\nlabel c\n\tinitrd d\n", by decide⟩

/-- A key of one word, which the first entry has. -/
def kernelWord : Key := ⟨⟨ascii "kernel", by decide, plain_of_all (by decide)⟩, []⟩

/-- A key of one word, which only the second entry has. -/
def initrdWord : Key := ⟨⟨ascii "initrd", by decide, plain_of_all (by decide)⟩, []⟩

/-- The first entry has a kernel, its label, and no initrd: that is in the next block. -/
theorem extlinuxGetValue_eq_reference_first :
    (∃ l ∈ block kernelThenInitrd 0,
      Finds kernelThenInitrd 0 kernelWord.cstring kernelWord.tokens l) ∧
    extlinuxGetValue kernelThenInitrd 0 initrdWord.cstring = .ok none ∧
    menuGetPair kernelThenInitrd 0 initrdWord.cstring = .ok none ∧
    ∃ l ∈ lines kernelThenInitrd, isLabel l ∧ firstPlain l = 0 ∧
      Finds kernelThenInitrd 0 labelKey labelTokens l := by
  obtain ⟨hkeys, hlabel⟩ :=
    @extlinuxGetValue_eq_reference kernelThenInitrd 0 (.first (by decide +kernel))
  obtain ⟨-, -, hfinds⟩ := hkeys kernelWord (by decide)
  obtain ⟨hget, hcopy, -⟩ := hkeys initrdWord (by decide)
  have hsome : (findPair kernelWord.tokens (block kernelThenInitrd 0)).isSome = true := by
    decide +kernel
  have hnone : findPair initrdWord.tokens (block kernelThenInitrd 0) = none := by decide +kernel
  obtain ⟨l, hl⟩ := Option.isSome_iff_exists.mp hsome
  rw [findPair_eq_none_iff] at hnone
  exact ⟨⟨l, (mem_of_findPair hl).1, hfinds l hl⟩, hget.mpr hnone, hcopy hnone, hlabel⟩

end LoliLoader.Menu
