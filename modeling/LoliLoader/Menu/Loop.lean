/-
# LoliLoader.Menu.Loop -- cmdline_loop of src/loli.c

The boot menu: list the entries, settle the default one, then ask for a number until a load attempt
succeeds.

What happens outside is a parameter: the answers given at the prompt (a typed line, or `none` when
the timer expired) and `load_and_validate_entry`, a function on a state of its own. `Main` puts the
keyboard and the firmware in their place. So what is shown here holds whatever the console and the
attempts do.

The loop of the source has no end of its own. It is given as many answers as there are, and its
result is the turns taken, the state, and whether the function has returned; a run in which nobody
types anything any more is one that has not returned yet.

Each turn keeps the entry it has attempted and the messages it has printed. The attempt's own
messages are not among them, since those are part of the state that the attempt works on.

The loop over the entries ends because the next entry is always behind the last one
(`lt_of_extlinuxNextEntry`).
-/
import LoliLoader.Menu.Config

namespace LoliLoader.Menu

open C Extlinux

/-- The keys of an entry's title and of the default entry, as the source spells them. -/
def menuTitleKey : CString := ⟨ascii "menu title", by decide⟩
def defaultKey : CString := ⟨ascii "default", by decide⟩

/-! ## Listing the entries -/

/-- One listed entry: the number printed, the pointer it stands for, the title shown. The loop keeps
none of this; it is what the user sees. -/
structure Listed where
  number : Int
  entry : Nat
  title : List UInt8
  deriving DecidableEq, Repr

/-- What the loop prints for one entry: its number and its title, on a line of their own. -/
def Listed.output (item : Listed) : List Output :=
  [.printf "%d: " [.int item.number], .putsSized item.title, .printf "\n" []]

/-- `!strncmp(defaultEntryName, name, defaultEntryLen)`. -/
def isDefault (ck : CharKind) (cfg : CString) (default : Option (Nat × Nat))
    (name : Option (Nat × Nat)) : Except Fault Bool :=
  match default with
  | none => .ok false
  | some (defaultEntryName, defaultEntryLen) =>
    match name with
    | none => .error .null
    | some (name, _) => do
      return (← strncmp ck cfg cfg defaultEntryName name defaultEntryLen) == 0

/-- The body of the listing loop at entry `p`: the item and the new default entry. -/
def listStep (ck : CharKind) (cfg : CString) (default : Option (Nat × Nat)) (p : Nat)
    (entryNum defaultEntry : Int) : Except Fault (Listed × Int) := do
  let name ← extlinuxGetValue cfg p labelKey
  let title ← extlinuxGetValue cfg p menuTitleKey
  let shown := match title.or name with
    | some (v, len) => cfg.slice v len
    | none => []
  let hit ← isDefault ck cfg default name
  return (⟨entryNum, p, shown⟩, if hit then entryNum else defaultEntry)

theorem le_of_nextEntryLoop {s : CString} {p q : Nat}
    (h : nextEntryLoop s (some p) = .ok (some q)) : p ≤ q := by
  generalize hr : some p = r at h
  fun_induction nextEntryLoop s r generalizing p with
  | case1 => simp at hr
  | case2 p' e he => simp at h
  | case3 p' p'' hskip e hm => simp at h
  | case4 p' p'' hskip v hm =>
      obtain rfl := Option.some.inj hr
      simp only [Except.ok.injEq, Option.some.injEq] at h
      exact h ▸ le_of_skipSpace hskip
  | case5 p' p'' hskip hm e he => simp at h
  | case6 p' p'' hskip hm next hnext ih =>
      obtain rfl := Option.some.inj hr
      have hle := le_of_skipSpace hskip
      cases next with
      | none => simp [nextEntryLoop] at h
      | some next =>
          have hlt := (lt_of_nextLine hnext).1
          have := ih rfl h
          omega

/-- Every entry lies behind the one before it. -/
theorem lt_of_extlinuxNextEntry {cfg : CString} {p q : Nat}
    (h : extlinuxNextEntry cfg none (some p) = .ok (some q)) : p < q ∧ p < cfg.mem.length := by
  simp only [extlinuxNextEntry, bind, Except.bind] at h
  split at h
  · simp at h
  rename_i next hnext
  cases next with
  | none => simp [nextEntryLoop] at h
  | some next =>
      have h1 := lt_of_nextLine hnext
      have h2 := le_of_nextEntryLoop h
      omega

/-- The listing loop: the items, the number of entries and the default entry. `entryNum` and
`defaultEntry` are `int`s in the source, which count no further than 2^31 - 1: the loop is that of
the source for configurations of less than 2 GiB, since every entry has a line
(`ReadyFor.entryNum_lt`). -/
def listEntries (ck : CharKind) (cfg : CString) (default : Option (Nat × Nat)) :
    Option Nat → Int → Int → Except Fault (List Listed × Int × Int)
  | none, entryNum, defaultEntry => .ok ([], entryNum, defaultEntry)
  | some p, entryNum, defaultEntry =>
    match listStep ck cfg default p entryNum defaultEntry with
    | .error e => .error e
    | .ok (item, defaultEntry) =>
      match _h : extlinuxNextEntry cfg none (some p) with
      | .error e => .error e
      | .ok q =>
        match listEntries ck cfg default q (entryNum + 1) defaultEntry with
        | .error e => .error e
        | .ok (items, rest) => .ok (item :: items, rest)
termination_by p => match p with
  | none => 0
  | some p => cfg.mem.length - p + 1
decreasing_by
  cases q with
  | none => simp
  | some q =>
      have := lt_of_extlinuxNextEntry _h
      simp only
      omega

/-- What `cmdline_loop` has worked out when it starts to ask. `entryNum` is below 2^31, as the `int`
of the source has to be, for every configuration of less than 2 GiB. -/
structure Ready where
  timeout : Int32
  listing : List Listed
  entryNum : Int
  defaultEntry : Int
  output : List Output
  deriving DecidableEq, Repr

/-- `cmdline_loop` up to its prompt: the timeout and the default entry are looked up and the entries
are listed, with all that is printed meanwhile. -/
def cmdlineSetup (ck : CharKind) (cfg : CString) : Except Fault Ready := do
  let (timeout, warning) ← menuGetTimeout cfg
  let default ← extlinuxGetValue cfg 0 defaultKey
  let first ← extlinuxNextEntry cfg (some 0) none
  let (listing, entryNum, defaultEntry) ←
    listEntries ck cfg default first 0 (if default.isNone then 0 else -1)
  let listed := listing.flatMap Listed.output
  if defaultEntry < 0 then
    let name := match default with
      | some (v, len) => cfg.slice v len
      | none => []
    let complaint := [.printf "Invalid default entry \"" [], .putsSized name,
      .printf "\", boot entry 0 by default\n" []]
    return ⟨timeout, listing, entryNum, 0, warning ++ listed ++ complaint⟩
  return ⟨timeout, listing, entryNum, defaultEntry, warning ++ listed⟩

/-! ## Asking for an entry -/

/-- `wait_for_boot_entry`, given the answer at the prompt. -/
def waitForBootEntry (answer : Option CString) : Except Fault Int :=
  match answer with
  | none => .ok (-2)
  | some line => do
    let entry ← atou line
    return if entry ≥ 0 then entry.toInt else -1

/-- One turn of the loop: the timeout handed to the prompt, the answer, the call of
`load_and_validate_entry` with its result if one was made, and the output. -/
structure Turn where
  timeout : Int32
  answer : Option CString
  attempt : Option (Option Nat × Int)
  output : List Output
  deriving DecidableEq

/-- The turn ended with a boot entry to start: there was an attempt, and it returned 0. -/
def Turn.loaded (t : Turn) : Bool := t.attempt.any fun a => a.2 == 0

section

variable {σ : Type} (load : Option Nat → σ → Int × σ) (cfg : CString) (m : Ready)

/-- The body of the loop, for one answer at the prompt: which entry is chosen, and the attempt to
load it. -/
def selectTurn (timeout : Int32) (answer : Option CString) (st : σ) :
    Except Fault (Turn × σ) := do
  let prompt := [.printf "Enter entry number: " []]
  let selected ← waitForBootEntry answer
  let booting := if selected < -1 then
    [.printf "\nBooting entry %d by default\n" [.int m.defaultEntry]] else []
  let selected := if selected < -1 then m.defaultEntry else selected
  if selected ≥ 0 ∧ selected < m.entryNum then
    let entry ← menuGetNthEntry cfg selected.toNat
    let (ret, st) := load entry st
    let complaint := if ret = 0 then [] else prErr "Invalid entry\n" []
    return (⟨timeout, answer, some (entry, ret), prompt ++ booting ++ complaint⟩, st)
  return (⟨timeout, answer, none, prompt ++ booting⟩, st)

/-- The loop on a sequence of answers: the turns taken, the state, and whether the
function returned. Only the first prompt has the timeout. -/
def selectLoop : Int32 → List (Option CString) → σ → Except Fault (List Turn × σ × Bool)
  | _, [], st => .ok ([], st, false)
  | timeout, answer :: answers, st => do
    let (t, st) ← selectTurn load cfg m timeout answer st
    if t.loaded then
      return ([t], st, true)
    let (ts, st, returned) ← selectLoop 0 answers st
    return (t :: ts, st, returned)

end

/-- `cmdline_loop` on a sequence of answers, with the attempts that `load` makes on its own
state. -/
def cmdlineLoop {σ : Type} (load : Option Nat → σ → Int × σ) (ck : CharKind)
    (cfg : CString) (answers : List (Option CString)) (st : σ) :
    Except Fault (List Turn × σ × Bool) := do
  let m ← cmdlineSetup ck cfg
  selectLoop load cfg m m.timeout answers st

end LoliLoader.Menu
