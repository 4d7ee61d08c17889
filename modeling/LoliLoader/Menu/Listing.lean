/-
# LoliLoader.Menu.Listing -- the menu that is listed

The listing loop and `menu_get_nth_entry` walk the configuration independently. Both follow the
label lines in file order: item `i` of the listing has number `i` and the pointer of the `i`-th
label line, which is also the `i`-th entry.

So a number that is typed means the entry next to which it was shown. Nothing in the code says this;
it holds because both walks are the enumeration of `Extlinux.Enumerate`, and that one is exact.

The title of an item is its `menu title`, or else its label; an entry always has a label, or it
would not have been found. `lastHit` is what the comparison with the default name amounts to over
the whole listing. Both are described on lines (`titleOf`, `hitsDefault`), and `sameStart` is what
is left there of `strncmp` and its bound.

The induction is over a splitting of the label lines: those that have been listed, and those that
come (`listEntries_of_split`).
-/
import LoliLoader.Menu.Loop

namespace LoliLoader.Menu

open C Extlinux

/-! ## The n-th entry -/

theorem extlinuxNextEntry_null (cfg : CString) : extlinuxNextEntry cfg none none = .ok none := by
  rw [extlinuxNextEntry, nextEntryLoop]

theorem nthEntryLoop_of_split {cfg : CString} (n : Nat) (pre post : List Line)
    (h : labelLines cfg = pre ++ post) :
    nthEntryLoop cfg n (post.map firstPlain).head? = .ok (post.map firstPlain)[n]? := by
  induction n generalizing pre post with
  | zero => cases post <;> rfl
  | succ n ih =>
      cases post with
      | nil =>
          have hnil := ih (labelLines cfg) [] (by simp)
          simpa [nthEntryLoop, extlinuxNextEntry_null, bind, Except.bind] using hnil
      | cons l post =>
          have hnext : extlinuxNextEntry cfg none (some (firstPlain l))
              = .ok (post.map firstPlain).head? := entryCall_of_split h
          have hrest := ih (pre ++ [l]) post (by simpa using h)
          rw [List.map_cons, List.head?_cons, nthEntryLoop, hnext]
          simpa [bind, Except.bind] using hrest

/-- `menu_get_nth_entry` counts label lines; past the last one it is null. -/
theorem menuGetNthEntry_eq (cfg : CString) (n : Nat) :
    menuGetNthEntry cfg n = .ok (entryPositions cfg)[n]? := by
  have h := nthEntryLoop_of_split n [] (labelLines cfg) rfl
  rw [menuGetNthEntry, extlinuxNextEntry_first]
  exact h

/-! ## One item -/

/-- The key of the title of an entry, which has two words. -/
def menuTitle : Key :=
  ⟨⟨ascii "menu", by decide, plain_of_all (by decide)⟩,
    [(⟨ascii " ", by decide, List.all_eq_true.mp (by decide)⟩,
      ⟨ascii "title", by decide, plain_of_all (by decide)⟩)]⟩

theorem menuTitleKey_eq : menuTitleKey = menuTitle.cstring := rfl

/-- The title shown for an entry: its `menu title`, else its label. -/
def titleOf (cfg : CString) (l : Line) : List UInt8 :=
  match findPair menuTitle.tokens (block cfg (firstPlain l)) with
  | some t => pairValue menuTitle.tokens t.line
  | none => pairValue labelTokens l.line

/-- Do the texts at `v` and `w` agree on `len` characters and the one behind them? -/
def sameStart (cfg : CString) (v w len : Nat) : Bool :=
  (cfg.bytes.drop v ++ [0]).take (len + 1) == (cfg.bytes.drop w ++ [0]).take (len + 1)

/-- Does the listing loop take the entry on line `l` for the default one? -/
def hitsDefault (cfg : CString) (default : Option (Nat × Nat)) (l : Line) : Bool :=
  match default with
  | none => false
  | some (v, len) => sameStart cfg v (pairStart labelTokens l) len

theorem slice_pairSlice {cfg : CString} {l : Line} (h : l ∈ lines cfg)
    (tokens : List (List UInt8)) :
    cfg.slice (pairSlice tokens l).1 (pairSlice tokens l).2 = pairValue tokens l.line := by
  obtain ⟨t, hline⟩ := lineAt_of_mem h
  exact hline.slice tokens

theorem pairStart_le_length {cfg : CString} {l : Line} (h : l ∈ lines cfg)
    (tokens : List (List UInt8)) : pairStart tokens l ≤ cfg.length := by
  obtain ⟨t, hline⟩ := lineAt_of_mem h
  exact (hline.value tokens).at_.le

theorem isDefault_label {ck : CharKind} {cfg : CString} {default : Option (Nat × Nat)}
    (hdef : ∀ v len, default = some (v, len) → v ≤ cfg.length) {l : Line} (hl : l ∈ lines cfg) :
    isDefault ck cfg default (some (pairSlice labelTokens l))
      = .ok (hitsDefault cfg default l) := by
  rcases default with _ | ⟨v, len⟩
  · rfl
  · have h1 := CString.At.of_le (hdef v len rfl)
    have h2 := CString.At.of_le (pairStart_le_length hl labelTokens)
    obtain ⟨d, hd, hiff⟩ := strncmp_at ck len h1 h2
    simp only [isDefault, pairSlice, hd, bind, Except.bind, pure, Except.pure, hitsDefault,
      sameStart]
    congr 1
    rw [Bool.eq_iff_iff, beq_iff_eq, beq_iff_eq, hiff]

theorem listStep_label (ck : CharKind) {cfg : CString} {default : Option (Nat × Nat)}
    (hdef : ∀ v len, default = some (v, len) → v ≤ cfg.length) {l : Line}
    (hl : l ∈ labelLines cfg) (n d : Int) :
    listStep ck cfg default (firstPlain l) n d
      = .ok (⟨n, firstPlain l, titleOf cfg l⟩, if hitsDefault cfg default l then n else d) := by
  have hmem := (mem_lines_of_mem_labelLines hl).1
  have htitle := extlinuxGetValue_entry hl (K := menuTitle) (by decide)
  rw [listStep, extlinuxGetValue_entry_label hl, menuTitleKey_eq, htitle]
  simp only [bind, Except.bind, isDefault_label hdef hmem, pure, Except.pure, titleOf]
  cases hfind : findPair menuTitle.tokens (block cfg (firstPlain l)) with
  | none =>
      simp only [Option.map_none, Option.none_or]
      rw [slice_pairSlice hmem labelTokens]
  | some t =>
      simp only [Option.map_some, Option.some_or]
      rw [slice_pairSlice (mem_lines_of_mem_block (mem_of_findPair hfind).1) menuTitle.tokens]

/-! ## The whole listing -/

/-- The items listed for label lines, numbered from `n`. -/
def items (cfg : CString) : Int → List Line → List Listed
  | _, [] => []
  | n, l :: ls => ⟨n, firstPlain l, titleOf cfg l⟩ :: items cfg (n + 1) ls

/-- The default entry after the listing loop: the last entry taken for it. -/
def lastHit (cfg : CString) (default : Option (Nat × Nat)) : Int → Int → List Line → Int
  | _, d, [] => d
  | n, d, l :: ls => lastHit cfg default (n + 1) (if hitsDefault cfg default l then n else d) ls

theorem listEntries_some {ck : CharKind} {cfg : CString} {default : Option (Nat × Nat)} {p : Nat}
    {n d d' : Int} {item : Listed} {q : Option Nat}
    (hstep : listStep ck cfg default p n d = .ok (item, d'))
    (hnext : extlinuxNextEntry cfg none (some p) = .ok q) :
    listEntries ck cfg default (some p) n d = (do
      let (items, rest) ← listEntries ck cfg default q (n + 1) d'
      .ok (item :: items, rest)) := by
  rw [listEntries, hstep]
  simp only
  split
  all_goals rename_i hq
  all_goals rw [hnext] at hq
  · simp at hq
  · obtain rfl := Except.ok.inj hq
    rcases listEntries ck cfg default q (n + 1) d' with e | r <;> rfl

theorem listEntries_of_split (ck : CharKind) {cfg : CString} {default : Option (Nat × Nat)}
    (hdef : ∀ v len, default = some (v, len) → v ≤ cfg.length) (pre post : List Line)
    (h : labelLines cfg = pre ++ post) (n d : Int) :
    listEntries ck cfg default (post.map firstPlain).head? n d
      = .ok (items cfg n post, n + post.length, lastHit cfg default n d post) := by
  induction post generalizing pre n d with
  | nil => simp [listEntries, items, lastHit]
  | cons l post ih =>
      have hl : l ∈ labelLines cfg := by simp [h]
      have hnext : extlinuxNextEntry cfg none (some (firstPlain l))
          = .ok (post.map firstPlain).head? := entryCall_of_split h
      have hrest := ih (pre ++ [l]) (by simpa using h) (n + 1)
        (if hitsDefault cfg default l then n else d)
      rw [List.map_cons, List.head?_cons, listEntries_some (listStep_label ck hdef hl n d) hnext,
        hrest]
      simp only [bind, Except.bind, items, lastHit, List.length_cons, Nat.cast_add, Nat.cast_one]
      congr 3
      omega

theorem length_items (cfg : CString) (n : Int) (ls : List Line) :
    (items cfg n ls).length = ls.length := by
  induction ls generalizing n with
  | nil => rfl
  | cons l ls ih => simp [items, ih]

/-- Item `i` has number `i` and the pointer of the `i`-th label line. -/
theorem getElem?_items (cfg : CString) (n : Int) (ls : List Line) (i : Nat) :
    (items cfg n ls)[i]? = ls[i]?.map fun l => ⟨n + i, firstPlain l, titleOf cfg l⟩ := by
  induction ls generalizing n i with
  | nil => simp [items]
  | cons l ls ih =>
      cases i with
      | zero => simp [items]
      | succ i =>
          rw [items, List.getElem?_cons_succ, List.getElem?_cons_succ, ih]
          cases ls[i]? with
          | none => rfl
          | some l' =>
              simp only [Option.map_some, Nat.cast_add, Nat.cast_one]
              congr 2
              omega

end LoliLoader.Menu
