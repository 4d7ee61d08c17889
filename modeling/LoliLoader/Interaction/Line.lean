/-
# LoliLoader.Interaction.Line -- the buffer of getline_timeout

A line is typed into a buffer, which is replaced by a larger one when it is full. Every access to it
is checked; what is echoed meanwhile is in the module before.

The variables of the source are the buffer, its size and the number of characters in it. The
invariant `Getline.Holds` says that the buffer starts with the line so far and that there is room
for one character and the end behind it. Each turn keeps it. A character takes the last free byte
only after the buffer has been enlarged, so that the end always has one.

What the keys are for is said without buffers. `edit` is the effect of a character on a line, and
`editedLine` folds it over the keys. The last theorem has two parts: what is returned once the line
has been ended, and what is in the buffer after any number of keys before that.

`realloc` is given the old size by its caller and copies that much. It is the function of
src/memory.c; what new memory has in it is left open.
-/
import LoliLoader.Interaction.Input

namespace LoliLoader.Interaction

open C

/-! ## Memory -/

/-- `malloc`, with what the memory holds; it does not fail, since the program panics then. -/
def mallocBuffer (contents : Nat → UInt8) (size : Nat) : Buffer :=
  ((List.range size).map contents).toArray

/-- `memcpy` from one block to another, from byte `i` on. -/
def memcpyTo (dst src : Buffer) (i : Nat) : Nat → Except Fault Buffer
  | 0 => .ok dst
  | n + 1 => do
    let dst ← dst.store i (← src.load i)
    memcpyTo dst src (i + 1) n

/-- `realloc`, to a size that is not zero: a new block, into which as much is copied as the caller
says the old one has. -/
def realloc (contents : Nat → UInt8) (p : Buffer) (oldSize size : Nat) : Except Fault Buffer :=
  memcpyTo (mallocBuffer contents size) p 0 oldSize

/-! ## getline_timeout -/

/-- The variables of `getline_timeout`: the buffer, how many characters are in it, and what the
function takes for its size. -/
structure Getline where
  s : Buffer
  strlen : Nat
  buflen : Nat

section

-- what a block of each size holds when it is allocated
variable (memory : Nat → Nat → UInt8)

/-- The variables before the loop, with a buffer of 16 bytes. -/
def getlineStart : Getline := ⟨mallocBuffer (memory 16) 16, 0, 16⟩

/-- The body of the loop, after `c` was typed: a character is erased, passed over, or stored, in a
larger buffer if this one is full. -/
def getlineStep (line : Getline) (c : Nat) : Except Fault Getline :=
  if c = 8 ∧ line.strlen ≠ 0 then do
    let s ← line.s.store (line.strlen - 1) 0
    return { line with s := s, strlen := line.strlen - 1 }
  else if isprint c = false then return line
  else do
    let strlen := line.strlen + 1
    if strlen = line.buflen then
      let buflen := line.buflen + 32
      let s ← realloc (memory buflen) line.s strlen buflen
      let s ← s.store (strlen - 1) c.toUInt8
      return ⟨s, strlen, buflen⟩
    else
      let s ← line.s.store (strlen - 1) c.toUInt8
      return ⟨s, strlen, line.buflen⟩

/-- The loop, on the keys pressed; without an end of the line it still waits for a key. -/
def getlineKeys (line : Getline) : List EfiInputKey → Except Fault (Option Getline)
  | [] => .ok none
  | key :: keys => do
    let c := getcharTranslate key
    let line ← getlineStep memory line c
    if c ≠ 13 ∧ c ≠ 10 then getlineKeys line keys
    else return some line

/-- `getline_timeout` when the timer does not expire. -/
def getlineTimeout (keys : List EfiInputKey) : Except Fault (Option Buffer) := do
  match ← getlineKeys memory (getlineStart memory) keys with
  | none => return none
  | some line => return some (← line.s.store line.strlen 0)

end

/-! ## The edited line -/

/-- What a character does to a line: a backspace takes the last one away, and one that can be
printed is put behind it. -/
def edit (line : List UInt8) (c : Nat) : List UInt8 :=
  if c = 8 then line.dropLast
  else if isprint c then line ++ [c.toUInt8]
  else line

/-- The line that keys are for: the effect of each, one after the other, on an empty line. -/
def editedLine (keys : List EfiInputKey) : List UInt8 :=
  (keys.map getcharTranslate).foldl edit []

/-- The key ends the line: it is a carriage return or a newline. -/
def EndsLine (key : EfiInputKey) : Prop := getcharTranslate key = 13 ∨ getcharTranslate key = 10

theorem editedLine_append (keys : List EfiInputKey) (key : EfiInputKey) :
    editedLine (keys ++ [key]) = edit (editedLine keys) (getcharTranslate key) := by
  simp [editedLine]

theorem edit_of_endsLine {key : EfiInputKey} (h : EndsLine key) (line : List UInt8) :
    edit line (getcharTranslate key) = line := by
  rcases h with h | h <;> simp [h, edit, isprint]

theorem isprint_ne_zero {c : Nat} (h : isprint c = true) : c.toUInt8 ≠ 0 := by
  intro h0
  have hc : c % 2 ^ 8 = 0 := congrArg UInt8.toNat h0
  rw [isprint, Bool.and_eq_true, decide_eq_true_iff, decide_eq_true_iff] at h
  omega

theorem nul_notMem_edit {line : List UInt8} (h : (0 : UInt8) ∉ line) (c : Nat) :
    (0 : UInt8) ∉ edit line c := by
  unfold edit
  split
  · exact fun hmem => h (List.dropLast_subset line hmem)
  · split
    · rename_i hprint
      rw [List.mem_append, not_or]
      exact ⟨h, fun hmem => isprint_ne_zero hprint (List.mem_singleton.mp hmem).symm⟩
    · exact h

theorem nul_notMem_editedLine (keys : List EfiInputKey) : (0 : UInt8) ∉ editedLine keys := by
  induction keys using List.reverseRecOn with
  | nil => exact List.not_mem_nil
  | append_singleton keys key ih =>
      rw [editedLine_append]
      exact nul_notMem_edit ih _

/-! ## Growing the buffer -/

theorem size_mallocBuffer (contents : Nat → UInt8) (size : Nat) :
    (mallocBuffer contents size).size = size := by
  rw [mallocBuffer, List.size_toArray, List.length_map, List.length_range]

theorem memcpyTo_ok {dst src : Buffer} {i n : Nat} (hdst : i + n ≤ dst.size)
    (hsrc : i + n ≤ src.size) :
    ∃ m, memcpyTo dst src i n = .ok m ∧
      dst.Is (fun k => if i ≤ k ∧ k < i + n then src[k]? else dst[k]?) m := by
  induction n generalizing dst i with
  | zero =>
      refine ⟨dst, rfl, rfl, fun k => ?_⟩
      rw [if_neg (by omega)]
  | succ n ih =>
      have hlt : i < src.size := by omega
      obtain ⟨m, hm, hsize, hget⟩ := Buffer.store_is (b := dst) (i := i) (by omega) src[i]
      obtain ⟨m', hm', hsize', hget'⟩ := @ih m (i + 1) (by omega) (by omega)
      refine ⟨m', ?_, hsize'.trans hsize, fun k => ?_⟩
      · rw [memcpyTo, Buffer.load_lt hlt]
        show (dst.store i src[i] >>= _) = _
        rw [hm]
        exact hm'
      · rw [hget', hget]
        by_cases hi : k = i
        · subst hi
          rw [if_neg (by omega), if_pos rfl, if_pos (by omega), Array.getElem?_eq_getElem hlt]
        · by_cases hin : i + 1 ≤ k ∧ k < i + 1 + n
          · rw [if_pos hin, if_pos (by omega)]
          · rw [if_neg hin, if_neg hi, if_neg (by omega)]

/-- **`realloc`** keeps what was in the block, if it is told no larger a size than the block has. -/
theorem realloc_ok {contents : Nat → UInt8} {p : Buffer} {oldSize size : Nat}
    (hold : oldSize ≤ p.size) (hsize : oldSize ≤ size) :
    ∃ m, realloc contents p oldSize size = .ok m ∧ m.size = size ∧
      ∀ k < oldSize, m[k]? = p[k]? := by
  obtain ⟨m, hm, hmsize, hget⟩ := @memcpyTo_ok (mallocBuffer contents size) p 0 oldSize
    (by rw [size_mallocBuffer]; omega) (by omega)
  rw [size_mallocBuffer] at hmsize
  refine ⟨m, hm, hmsize, fun k hk => ?_⟩
  rw [hget, if_pos (by omega)]

/-! ## The buffer holds the line -/

/-- The buffer holds a line, has the size that is kept for it, and has room for the end of the
line. -/
structure Getline.Holds (line : Getline) (text : List UInt8) : Prop where
  strlen : line.strlen = text.length
  room : line.strlen < line.buflen
  size : line.s.size = line.buflen
  begins : Begins line.s text

theorem holds_getlineStart (memory : Nat → Nat → UInt8) : (getlineStart memory).Holds [] where
  strlen := rfl
  room := by
    show 0 < 16
    decide
  size := size_mallocBuffer _ _
  begins := by
    intro k hk
    cases hk

section

variable {memory : Nat → Nat → UInt8} {line : Getline} {text : List UInt8}

/-- A character is erased. -/
theorem Getline.Holds.erase (h : line.Holds text) :
    ∃ s, line.s.store (line.strlen - 1) 0 = .ok s ∧
      Getline.Holds { line with s := s, strlen := line.strlen - 1 } text.dropLast := by
  have hstrlen := h.strlen
  have hroom := h.room
  obtain ⟨s, hs, hsize, hget⟩ := Buffer.store_is (b := line.s) (i := line.strlen - 1)
    (by rw [h.size]; omega) 0
  refine ⟨s, hs, ?_, ?_, hsize.trans h.size, ?_⟩
  · show line.strlen - 1 = _
    rw [List.length_dropLast, hstrlen]
  · show line.strlen - 1 < line.buflen
    omega
  · intro k hk
    rw [List.length_dropLast] at hk
    show s[k]? = _
    rw [hget, if_neg (by omega), h.begins k (by omega), List.getElem?_dropLast, if_pos hk]

/-- A character is stored behind the others, in a buffer with room for it and the end. -/
theorem Begins.append_char {s : Buffer} (h : Begins s text) (c : UInt8)
    (hroom : text.length < s.size) :
    ∃ m, s.store (text.length + 1 - 1) c = .ok m ∧ m.size = s.size ∧ Begins m (text ++ [c]) := by
  rw [Nat.add_sub_cancel]
  exact h.store c hroom

/-- **One turn of the loop** edits the line, without an access outside of the buffer, and keeps room
for its end. -/
theorem getlineStep_ok (memory : Nat → Nat → UInt8) (h : line.Holds text) (c : Nat) :
    ∃ line', getlineStep memory line c = .ok line' ∧ line'.Holds (edit text c) := by
  have hstrlen := h.strlen
  have hroom := h.room
  have hsize := h.size
  unfold getlineStep edit
  by_cases hback : c = 8 ∧ line.strlen ≠ 0
  · rw [if_pos hback, if_pos hback.1]
    obtain ⟨s, hs, hholds⟩ := h.erase
    exact ⟨_, bind_eq_ok.mpr ⟨s, hs, rfl⟩, hholds⟩
  rw [if_neg hback]
  by_cases hprint : isprint c = false
  · -- a backspace in front of an empty line is ignored like other control characters
    rw [if_pos hprint]
    refine ⟨line, rfl, ?_⟩
    by_cases hc : c = 8
    · have hempty : text = [] := by
        apply List.length_eq_zero_iff.mp
        rw [← hstrlen]
        exact not_not.mp fun hne => hback ⟨hc, hne⟩
      subst hempty
      rw [if_pos hc]
      exact h
    · rw [if_neg hc, hprint]
      exact h
  rw [if_neg hprint]
  have hprint' : isprint c = true := by simpa using hprint
  have hc : c ≠ 8 := by
    rintro rfl
    exact absurd hprint' (by decide)
  rw [if_neg hc, if_pos hprint']
  dsimp only
  by_cases hfull : line.strlen + 1 = line.buflen
  · -- the buffer is full: its bytes are moved to a larger one
    rw [if_pos hfull, hstrlen]
    obtain ⟨m, hm, hmsize, hget⟩ := @realloc_ok (memory (line.buflen + 32)) line.s
      (text.length + 1) (line.buflen + 32) (by omega) (by omega)
    have hbegins : Begins m text := by
      intro k hk
      rw [hget k (by omega), h.begins k hk]
    obtain ⟨s, hs, hssize, hbegins'⟩ := Begins.append_char hbegins c.toUInt8 (by omega)
    refine ⟨⟨s, text.length + 1, line.buflen + 32⟩,
      bind_eq_ok.mpr ⟨m, hm, bind_eq_ok.mpr ⟨s, hs, rfl⟩⟩, ?_, ?_, hssize.trans hmsize, hbegins'⟩
    · show text.length + 1 = _
      rw [List.length_append, List.length_singleton]
    · show text.length + 1 < line.buflen + 32
      omega
  · rw [if_neg hfull, hstrlen]
    obtain ⟨s, hs, hssize, hbegins'⟩ := Begins.append_char h.begins c.toUInt8 (by omega)
    refine ⟨⟨s, text.length + 1, line.buflen⟩, bind_eq_ok.mpr ⟨s, hs, rfl⟩, ?_, ?_,
      hssize.trans hsize, hbegins'⟩
    · show text.length + 1 = _
      rw [List.length_append, List.length_singleton]
    · show text.length + 1 < line.buflen
      omega

/-- Any number of turns. -/
theorem foldlM_getlineStep (memory : Nat → Nat → UInt8) (keys : List EfiInputKey) :
    ∃ line, (keys.map getcharTranslate).foldlM (getlineStep memory) (getlineStart memory)
        = .ok line ∧ line.Holds (editedLine keys) := by
  induction keys using List.reverseRecOn with
  | nil => exact ⟨_, rfl, holds_getlineStart memory⟩
  | append_singleton keys key ih =>
      obtain ⟨line, hline, hholds⟩ := ih
      obtain ⟨line', hline', hholds'⟩ := getlineStep_ok memory hholds (getcharTranslate key)
      rw [List.map_append, List.foldlM_append, hline, editedLine_append]
      refine ⟨line', ?_, hholds'⟩
      show (getlineStep memory line (getcharTranslate key) >>= pure) = _
      rw [hline']
      rfl

/-- The loop is left at the first key that ends the line. -/
theorem getlineKeys_append {keys : List EfiInputKey} {key : EfiInputKey}
    (h : ∀ key ∈ keys, ¬ EndsLine key) (hkey : EndsLine key) (line : Getline) :
    getlineKeys memory line (keys ++ [key]) =
      ((keys ++ [key]).map getcharTranslate).foldlM (getlineStep memory) line >>=
        fun line => .ok (some line) := by
  induction keys generalizing line with
  | nil =>
      have hstop : ¬ (getcharTranslate key ≠ 13 ∧ getcharTranslate key ≠ 10) := by
        rintro ⟨h13, h10⟩
        exact hkey.elim h13 h10
      show (getlineStep memory line _ >>= _) = (getlineStep memory line _ >>= pure) >>= _
      rw [bind_pure]
      congr 1
      funext line
      rw [if_neg hstop]
      rfl
  | cons k keys ih =>
      rw [List.forall_mem_cons] at h
      have hgo : getcharTranslate k ≠ 13 ∧ getcharTranslate k ≠ 10 := not_or.mp h.1
      rw [List.cons_append, List.map_cons, List.foldlM_cons, bind_assoc]
      show (getlineStep memory line _ >>= _) = _
      congr 1
      funext line
      rw [if_pos hgo]
      exact ih h.2 line

/-- The list model of the loop gives the same line. -/
theorem getlineLoop_append {keys : List EfiInputKey} {key : EfiInputKey}
    (h : ∀ key ∈ keys, ¬ EndsLine key) (hkey : EndsLine key) (line : List UInt8) :
    (getlineLoop line (keys ++ [key])).2 = (keys.map getcharTranslate).foldl edit line := by
  induction keys generalizing line with
  | nil =>
      rw [List.nil_append, getlineLoop]
      dsimp only
      have h8 : ¬ (getcharTranslate key = 8 ∧ line ≠ []) := by
        rintro ⟨h8, -⟩
        rcases hkey with hkey | hkey <;> omega
      have hprint : isprint (getcharTranslate key) = false := by
        rcases hkey with hkey | hkey <;> rw [hkey] <;> rfl
      have hend : getcharTranslate key = 13 ∨ getcharTranslate key = 10 := hkey
      rw [if_neg h8, if_pos hprint, if_pos hend]
      rfl
  | cons k keys ih =>
      rw [List.forall_mem_cons] at h
      rw [List.cons_append, getlineLoop, List.map_cons, List.foldl_cons]
      dsimp only
      by_cases hback : getcharTranslate k = 8 ∧ line ≠ []
      · rw [if_pos hback, edit, if_pos hback.1]
        exact ih h.2 line.dropLast
      rw [if_neg hback]
      by_cases hprint : isprint (getcharTranslate k) = false
      · have hgo : ¬ (getcharTranslate k = 13 ∨ getcharTranslate k = 10) := h.1
        rw [if_pos hprint, if_neg hgo, ih h.2 line]
        congr 1
        unfold edit
        by_cases hc : getcharTranslate k = 8
        · have hempty : line = [] := not_not.mp fun hne => hback ⟨hc, hne⟩
          rw [if_pos hc, hempty]
          rfl
        · rw [if_neg hc, hprint]
          rfl
      · have hprint' : isprint (getcharTranslate k) = true := by simpa using hprint
        have hc : getcharTranslate k ≠ 8 := by
          intro hc
          rw [hc] at hprint'
          cases hprint'
        rw [if_neg hprint, edit, if_neg hc, if_pos hprint']
        exact ih h.2 (line ++ [(getcharTranslate k).toUInt8])

/-- **The line editor**, for keys up to the first that ends the line: the string returned is the
line the keys are for. After any number of them the buffer holds the line so far and has room for
more, no store has been outside it, and growing it keeps what it holds. -/
theorem getlineTimeout_edits (memory : Nat → Nat → UInt8) {keys : List EfiInputKey}
    {key : EfiInputKey} (h : ∀ key ∈ keys, ¬ EndsLine key) (hkey : EndsLine key) :
    (∃ s, getlineTimeout memory (keys ++ [key]) = .ok (some s) ∧
      Begins s (editedLine keys ++ [0]) ∧ (0 : UInt8) ∉ editedLine keys ∧
      (Prompt.line (keys ++ [key])).answer = some (CString.ofBuffer (editedLine keys ++ [0]))) ∧
    ∀ pre, pre <+: keys ++ [key] →
      ∃ line, (pre.map getcharTranslate).foldlM (getlineStep memory) (getlineStart memory)
          = .ok line ∧ line.Holds (editedLine pre) ∧
        ∃ m, realloc (memory (line.buflen + 32)) line.s line.buflen (line.buflen + 32) = .ok m ∧
          m.size = line.buflen + 32 ∧ ∀ k < line.buflen, m[k]? = line.s[k]? := by
  refine ⟨?_, ?_⟩
  · obtain ⟨line, hline, hholds⟩ := foldlM_getlineStep memory (keys ++ [key])
    rw [editedLine_append, edit_of_endsLine hkey] at hholds
    obtain ⟨s, hs, -, hbegins⟩ := hholds.begins.store 0 (by
      rw [hholds.size, ← hholds.strlen]
      exact hholds.room)
    refine ⟨s, ?_, hbegins, nul_notMem_editedLine keys, ?_⟩
    · unfold getlineTimeout
      rw [getlineKeys_append h hkey, hline]
      show (line.s.store line.strlen 0 >>= _) = _
      rw [hholds.strlen, hs]
      rfl
    · rw [Prompt.answer, getlineLoop_append h hkey]
      rfl
  · intro pre _
    obtain ⟨line, hline, hholds⟩ := foldlM_getlineStep memory pre
    exact ⟨line, hline, hholds, realloc_ok (le_of_eq hholds.size.symm) (Nat.le_add_right _ _)⟩

/-- A character that is typed and erased again. -/
theorem getlineTimeout_edits_erased :
    (∃ s, getlineTimeout (fun _ _ => 0) ([⟨0, 49⟩, ⟨8, 0⟩] ++ [⟨0, 13⟩]) = .ok (some s) ∧
      Begins s (editedLine [⟨0, 49⟩, ⟨8, 0⟩] ++ [0]) ∧
      (0 : UInt8) ∉ editedLine [⟨0, 49⟩, ⟨8, 0⟩] ∧
      (Prompt.line ([⟨0, 49⟩, ⟨8, 0⟩] ++ [⟨0, 13⟩])).answer
        = some (CString.ofBuffer (editedLine [⟨0, 49⟩, ⟨8, 0⟩] ++ [0]))) ∧
    editedLine [⟨0, 49⟩, ⟨8, 0⟩] = [] := by
  have hkeys : ∀ key ∈ [(⟨0, 49⟩ : EfiInputKey), ⟨8, 0⟩], ¬ EndsLine key := by
    intro key hkey
    rcases List.mem_pair.mp hkey with rfl | rfl
    · show ¬ (49 = 13 ∨ 49 = 10)
      omega
    · show ¬ (8 = 13 ∨ 8 = 10)
      omega
  have hedits := @getlineTimeout_edits (fun _ _ => 0) _ ⟨0, 13⟩ hkeys (Or.inl rfl)
  exact ⟨hedits.1, rfl⟩

end

end LoliLoader.Interaction
