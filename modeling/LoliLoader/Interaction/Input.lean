/-
# LoliLoader.Interaction.Input -- getline_timeout of src/interaction.c

What is typed is echoed on the console. The keys of a line are given, up to the one that ends it;
its buffer grows with it.

The keyboard is a list of keys, and a prompt either has its timer expire or is answered by keys;
which of the two is not decided here. Keys without a character, and characters that cannot be
printed, are passed over, as in the source. A backspace erases a character if there is one.

The buffer of the line is left out of this model: `getlineLoop` has the line as a list. That the
buffer of the source holds that line, and grows in time, is shown in `Interaction.Line`.

The echo is a sequence of calls of `printf` with one character each. They always fit, which is
`fits_echo`; and so a prompt adds nothing to what may overrun the buffers of the console.
-/
import LoliLoader.Interaction.Messages

namespace LoliLoader.Interaction

open C

/-- `Efi_Input_Key`: a character, or a scan code for a key that has none. -/
structure EfiInputKey where
  scanCode : UInt16
  unicodeChar : UInt16
  deriving DecidableEq, Repr

/-- `getchar_translate`: the character of a key; the key that deletes is a backspace, and others
without a character are 0. -/
def getcharTranslate (key : EfiInputKey) : Nat :=
  if key.unicodeChar ≠ 0 then key.unicodeChar.toNat
  -- the scan code of DEL
  else if key.scanCode = 8 then 8
  else 0

/-- `isprint` of src/ctype.c: the characters of ASCII that can be shown. -/
def isprint (c : Nat) : Bool := c > 31 && c < 127

/-- The loop of `getline_timeout`, with `s` typed so far: the echo, and the line. -/
def getlineLoop (s : List UInt8) : List EfiInputKey → List Output × List UInt8
  | [] => ([.printf "\n" []], s)
  | key :: keys =>
    let c := getcharTranslate key
    if c = 8 ∧ s ≠ [] then
      let (echo, line) := getlineLoop s.dropLast keys
      (.printf "\x08 \x08" [] :: echo, line)
    else if isprint c = false then
      if c = 13 ∨ c = 10 then ([.printf "\n" []], s) else getlineLoop s keys
    else
      let (echo, line) := getlineLoop (s ++ [c.toUInt8]) keys
      (.printf "%c" [.int c] :: echo, line)

/-- What happens at a prompt: its timer expires before the first key, or keys are pressed. -/
inductive Prompt where
  | timer
  | line (keys : List EfiInputKey)
  deriving DecidableEq, Repr

/-- What `getline_timeout` returns: null, or the line. -/
def Prompt.answer : Prompt → Option CString
  | timer => none
  | line keys => some (CString.ofBuffer ((getlineLoop [] keys).2 ++ [0]))

/-- What `getline_timeout` puts on the console: a call for every key that changes the line, and one
for its end. -/
def Prompt.echo : Prompt → List Output
  | timer => []
  | line keys => (getlineLoop [] keys).1

/-! ## The echo fits -/

theorem fits_newline : Fits (.printf "\n" []) := fits_numbers [] (by decide)

/-- A character that is printed. -/
theorem fits_char {c : Nat} (h : isprint c = true) : Fits (.printf "%c" [.int c]) := by
  rw [isprint, Bool.and_eq_true, decide_eq_true_eq, decide_eq_true_eq] at h
  have htext : textOf (.printf "%c" [.int c]) = some [UInt8.ofInt ((c : Int).bmod (2 ^ 32))] := rfl
  have hsmall : (c : Int).bmod (2 ^ 32) = c := Int.bmod_eq_of_le (by omega) (by omega)
  have h0 : UInt8.ofInt c ≠ 0 := by
    intro heq
    have hnat : (UInt8.ofNat ((c : Int) % 2 ^ 8).toNat).toNat = 0 := congrArg UInt8.toNat heq
    rw [UInt8.toNat_ofNat'] at hnat
    omega
  rw [hsmall] at htext
  apply (fits_iff htext fun hmem => h0 (List.mem_singleton.mp hmem).symm).mpr
  rw [lineEnds_cons, List.length_append]
  show _ + 0 < 1024
  split
  · decide
  · exact Nat.one_lt_succ_succ 1022

theorem fits_getlineLoop (s : List UInt8) (keys : List EfiInputKey) :
    ∀ o ∈ (getlineLoop s keys).1, Fits o := by
  induction keys generalizing s with
  | nil =>
      intro o ho
      obtain rfl := List.mem_singleton.mp ho
      exact fits_newline
  | cons key keys ih =>
      unfold getlineLoop
      dsimp only
      by_cases hback : getcharTranslate key = 8 ∧ s ≠ []
      · rw [if_pos hback]
        refine List.forall_mem_cons.mpr ⟨fits_numbers [] (by decide), ih _⟩
      rw [if_neg hback]
      by_cases hprint : isprint (getcharTranslate key) = false
      · rw [if_pos hprint]
        by_cases hend : getcharTranslate key = 13 ∨ getcharTranslate key = 10
        · rw [if_pos hend]
          intro o ho
          obtain rfl := List.mem_singleton.mp ho
          exact fits_newline
        · rw [if_neg hend]
          exact ih s
      · rw [if_neg hprint]
        refine List.forall_mem_cons.mpr ⟨fits_char (by simpa using hprint), ih _⟩

/-- **The echo** of a prompt always fits the buffers of the console, however many keys are
pressed. -/
theorem fits_echo (prompt : Prompt) : ∀ o ∈ prompt.echo, Fits o := by
  cases prompt with
  | timer =>
      intro o ho
      cases ho
  | line keys => exact fits_getlineLoop [] keys

end LoliLoader.Interaction
