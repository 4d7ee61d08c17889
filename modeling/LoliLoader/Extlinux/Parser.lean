/-
# LoliLoader.Extlinux.Parser -- src/extlinux.c

The zero-allocation parser, function by function. A `const char *` into the configuration is an
offset into its `CString`, a pointer that may be null is an `Option Nat`, and every dereference is
checked.

`skip_space` and `next_line` also accept a null pointer in the source; no caller passes one, so they
take an offset here.

Each loop terminates because every turn moves the pointer forward inside the string. The lemma that
says so stands in front of the loop that needs it (`le_of_skipSpace`, `lt_of_nextLine` and so on),
and it also says that a read beyond the terminator is a fault and no step.

What the source compares character by character, such as the key `label` at the start of a lookup,
is compared in the same order here, so that a key which is shorter is not read past its end.

The functions are only defined here. What they mean is said in `Extlinux.Reference`, and that they
do it in `Extlinux.Enumerate` and `Extlinux.Lookup`.
-/
import LoliLoader.C.Memory

namespace LoliLoader.Extlinux

open C

def tab : UInt8 := 9
def newline : UInt8 := 10
def space : UInt8 := 32

/-! ## Characters and lines -/

/-- `is_space`: blanks are spaces and tabs; neither a newline nor the terminator is one. -/
def isSpace (s : CString) (p : Nat) : Except Fault Bool := do
  let c ← s.deref p
  return c == tab || c == space

theorem lt_of_isSpace {s : CString} {p : Nat} {b : Bool} (h : isSpace s p = .ok b) :
    p < s.mem.length := by
  cases hc : s.deref p with
  | error e => simp [isSpace, hc, bind, Except.bind] at h
  | ok c => exact CString.lt_of_deref hc

/-- `skip_space`: where the blanks from `p` on end, on the same line at the latest. -/
def skipSpace (s : CString) (p : Nat) : Except Fault Nat :=
  match h : isSpace s p with
  | .error e => .error e
  | .ok false => .ok p
  | .ok true => skipSpace s (p + 1)
termination_by s.mem.length - p
decreasing_by
  have := lt_of_isSpace h
  omega

theorem le_of_skipSpace {s : CString} {p q : Nat} (h : skipSpace s p = .ok q) : p ≤ q := by
  fun_induction skipSpace s p with
  | case1 p e he => cases h
  | case2 p he => exact Nat.le_of_eq (Except.ok.inj h)
  | case3 p he ih => exact Nat.le_of_succ_le (ih h)

/-- The loop `while (*p != '\n' && *p) p++`: the end of the line, or of the text. -/
def lineEnd (s : CString) (p : Nat) : Except Fault Nat :=
  match h : s.deref p with
  | .error e => .error e
  | .ok c => if c = newline ∨ c = 0 then .ok p else lineEnd s (p + 1)
termination_by s.mem.length - p
decreasing_by
  have := CString.lt_of_deref h
  omega

theorem le_of_lineEnd {s : CString} {p q : Nat} (h : lineEnd s p = .ok q) : p ≤ q := by
  fun_induction lineEnd s p with
  | case1 p e he => cases h
  | case2 p c he hc => exact Nat.le_of_eq (Except.ok.inj h)
  | case3 p c he hc ih => exact Nat.le_of_succ_le (ih h)

/-- `next_line`: where the next line starts, or null if there is none or nothing is in it and behind
it. -/
def nextLine (s : CString) (p : Nat) : Except Fault (Option Nat) := do
  let p ← lineEnd s p
  -- the last line has no end of line
  if (← s.deref p) = 0 then
    return none
  let c ← s.deref (p + 1)
  return if c ≠ 0 then some (p + 1) else none

theorem lt_of_nextLine {s : CString} {p q : Nat} (h : nextLine s p = .ok (some q)) :
    p < q ∧ q < s.mem.length := by
  simp only [nextLine, bind, Except.bind, pure, Except.pure] at h
  split at h
  · cases h
  rename_i e he
  split at h
  · cases h
  split at h
  · cases h
  split at h
  · cases h
  rename_i c hc
  split at h
  · simp only [Except.ok.injEq, Option.some.injEq] at h
    subst h
    exact ⟨Nat.lt_succ_of_le (le_of_lineEnd he), CString.lt_of_deref hc⟩
  · simp at h

/-! ## Keys -/

/-- Where `p` and `key` both reached a white space character, continue at the next
token of each. -/
def resync (s key : CString) (p k : Nat) : Except Fault (Nat × Nat) := do
  if ← isSpace key k then
    if ← isSpace s p then
      let p ← skipSpace s p
      let k ← skipSpace key k
      return (p, k)
  return (p, k)

theorem le_of_resync {s key : CString} {p k p' k' : Nat} (h : resync s key p k = .ok (p', k')) :
    k ≤ k' := by
  simp only [resync, bind, Except.bind, pure, Except.pure] at h
  split at h
  · cases h
  split at h
  · split at h
    · cases h
    split at h
    · split at h
      · cases h
      split at h
      · cases h
      rename_i k'' hk
      simp only [Except.ok.injEq, Prod.mk.injEq] at h
      exact h.2 ▸ le_of_skipSpace hk
    · simp only [Except.ok.injEq, Prod.mk.injEq] at h
      exact Nat.le_of_eq h.2
  · simp only [Except.ok.injEq, Prod.mk.injEq] at h
    exact Nat.le_of_eq h.2

/-- The loop of `match_key`: `none` when a character differs, else where both
pointers stand at its end. -/
def matchKeyLoop (s key : CString) (p k : Nat) : Except Fault (Option (Nat × Nat)) :=
  match s.deref p with
  | .error e => .error e
  | .ok c =>
    if c = 0 then .ok (some (p, k)) else
    match _hk : key.deref k with
    | .error e => .error e
    | .ok d =>
      if d = 0 then .ok (some (p, k)) else
      if c ≠ d then .ok none else
      match _hr : resync s key (p + 1) (k + 1) with
      | .error e => .error e
      | .ok (p', k') => matchKeyLoop s key p' k'
termination_by key.mem.length - k
decreasing_by
  have h1 := CString.lt_of_deref _hk
  have h2 := le_of_resync _hr
  omega

/-- What `match_key` does once its loop has ended at `p` and `k`. -/
def matchKeyEnd (s key : CString) (p k : Nat) : Except Fault (Option Nat) := do
  -- unmatched characters are left in the key
  if (← key.deref k) ≠ 0 then
    return none
  if ← isSpace s p then
    let p ← skipSpace s p
    let c ← s.deref p
    if c ≠ newline ∧ c ≠ 0 then
      return some p
  return none

/-- `match_key`: the start of the value when `p` is a pair with this key. -/
def matchKey (s key : CString) (p : Nat) : Except Fault (Option Nat) := do
  match ← matchKeyLoop s key p 0 with
  | none => return none
  | some (p, k) => matchKeyEnd s key p k

/-- The key that starts an entry, as the source passes it to `match_key`. -/
def labelKey : CString := ⟨ascii "label", by decide⟩

/-! ## Entries -/

/-- The loop of `extlinux_next_entry`, line by line; an entry is reported by its first non-blank
character. -/
def nextEntryLoop (s : CString) : Option Nat → Except Fault (Option Nat)
  | none => .ok none
  | some p =>
    match _hp : skipSpace s p with
    | .error e => .error e
    | .ok p' =>
      match matchKey s labelKey p' with
      | .error e => .error e
      | .ok (some _) => .ok (some p')
      | .ok none =>
        match _hq : nextLine s p' with
        | .error e => .error e
        | .ok q => nextEntryLoop s q
termination_by p => match p with
  | none => 0
  | some p => s.mem.length - p + 1
decreasing_by
  have h1 := le_of_skipSpace _hp
  cases q with
  | none => simp
  | some q =>
      have h2 := lt_of_nextLine _hq
      simp only
      omega

/-- `extlinux_next_entry`: the entry behind `last`, or the first one of `conf` when `last` is
null. -/
def extlinuxNextEntry (s : CString) (conf last : Option Nat) : Except Fault (Option Nat) := do
  match last with
  | some last => nextEntryLoop s (← nextLine s last)
  | none => nextEntryLoop s conf

/-! ## Values -/

/-- `key[i] == c && key[i + 1] == c' && ... && !key[n]`, stopping at the first
difference. -/
def readsAs (key : CString) (i : Nat) : List UInt8 → Except Fault Bool
  | [] => do return (← key.deref i) == 0
  | c :: cs => do
    if (← key.deref i) == c then readsAs key (i + 1) cs else return false

/-- The loop `while (vend >= value && is_space(vend)) vend--`, with `stop = vend + 1`. -/
def trimEnd (s : CString) (value : Nat) : Nat → Except Fault Nat
  | 0 => .ok 0
  | vend + 1 => do
    if vend ≥ value then
      if ← isSpace s vend then
        return ← trimEnd s value vend
    return vend + 1

/-- The value that starts at `value` and its length without trailing white space. -/
def valueAt (s : CString) (value : Nat) : Except Fault (Nat × Nat) := do
  let stop ← trimEnd s value (← lineEnd s value)
  return (value, stop - value)

/-- The loop of `extlinux_get_value`, line by line, up to the next label unless it is the label that
is asked for. -/
def getValueLoop (s key : CString) (getLabel : Bool) :
    Option Nat → Except Fault (Option (Nat × Nat))
  | none => .ok none
  | some p =>
    match _hp : skipSpace s p with
    | .error e => .error e
    | .ok p' =>
      match s.deref p' with
      | .error e => .error e
      | .ok c =>
        if c = 0 then .ok none else
        match matchKey s labelKey p' with
        | .error e => .error e
        | .ok label =>
          -- "label" ends the entry unless it is what we look for
          if label.isSome ∧ getLabel = false then .ok none else
          match matchKey s key p' with
          | .error e => .error e
          | .ok (some value) => some <$> valueAt s value
          | .ok none =>
            match _hq : nextLine s p' with
            | .error e => .error e
            | .ok q => getValueLoop s key getLabel q
termination_by p => match p with
  | none => 0
  | some p => s.mem.length - p + 1
decreasing_by
  have h1 := le_of_skipSpace _hp
  cases q with
  | none => simp
  | some q =>
      have h2 := lt_of_nextLine _hq
      simp only
      omega

/-- `extlinux_get_value`: the value and its length, or null. -/
def extlinuxGetValue (s : CString) (p : Nat) (key : CString) :
    Except Fault (Option (Nat × Nat)) := do
  let getLabel ← readsAs key 0 (ascii "label")
  -- `p` is the start of an entry: its own label pair must not end it
  if !getLabel then
    if (← matchKey s labelKey p).isSome then
      return ← getValueLoop s key getLabel (← nextLine s p)
  getValueLoop s key getLabel (some p)

end LoliLoader.Extlinux
