/-
# LoliLoader.C.Buffer -- memory blocks and the block functions of src/string.c

A block of memory is its bytes, and every read and write of it is checked against its size. A
function that succeeds has stayed inside the block, and one that would leave it reports the index.

`memcpy`, `memmove` and `memset` are the loops of the source, byte by byte and in its order. The
order matters: `memmove` of the source copies forward, whichever of the two places comes first, so
it is here a copy within one block, where the places may overlap.

What the loops do is said by the two structures `Is` and `Moves`. The first has the new block as a
function of the index, everywhere; so it says in one what has changed and that nothing else has. The
second is what a caller of `memmove` wants.

`memmove_moves_iff` is the exact answer to when the one is the other: always for a move to a lower
place, and for one to a higher place only if what is read of the destination is already what would
be stored there.
-/
import LoliLoader.C.Memory

namespace LoliLoader.C

/-- A block of memory. -/
abbrev Buffer := Array UInt8

namespace Buffer

/-- A read of one byte, checked against the size of the block. -/
def load (b : Buffer) (i : Nat) : Except Fault UInt8 :=
  match b[i]? with
  | some c => .ok c
  | none => .error (.read i)

/-- A write of one byte, checked against the size of the block. -/
def store (b : Buffer) (i : Nat) (c : UInt8) : Except Fault Buffer :=
  if h : i < b.size then .ok (b.set i c h) else .error (.write i)

/-- `memcpy`, within one block: byte by byte from the front, so that what has been stored is read
again where the two ranges overlap. -/
def memcpy (b : Buffer) (dst src : Nat) : Nat → Except Fault Buffer
  | 0 => .ok b
  | n + 1 => do
    let b ← b.store dst (← b.load src)
    memcpy b (dst + 1) (src + 1) n

/-- `memmove` of the source, which is its `memcpy`: nothing is done about a destination that lies
behind the start of the source. -/
def memmove (b : Buffer) (dst src n : Nat) : Except Fault Buffer := memcpy b dst src n

/-- `memset`: the byte is stored `n` times, from `mem` on, each time inside the block or not at
all. -/
def memset (b : Buffer) (mem : Nat) (c : UInt8) : Nat → Except Fault Buffer
  | 0 => .ok b
  | n + 1 => do
    let b ← b.store mem c
    memset b (mem + 1) c n

/-- A store of several bytes, as of a word; each of them has to be inside the block. -/
def storeBytes (b : Buffer) (i : Nat) : List UInt8 → Except Fault Buffer
  | [] => .ok b
  | c :: cs => do
    let b ← b.store i c
    storeBytes b (i + 1) cs

/-! ## What they do -/

section

variable {b : Buffer}

theorem load_lt {i : Nat} (h : i < b.size) : b.load i = .ok b[i] := by
  rw [load, Array.getElem?_eq_getElem h]

/-- `m` is `b` with `f` over its indices: the block has its size still, and at each index what the
function says. -/
structure Is (b : Buffer) (f : Nat → Option UInt8) (m : Buffer) : Prop where
  size : m.size = b.size
  get : ∀ k, m[k]? = f k

theorem store_is {i : Nat} (h : i < b.size) (c : UInt8) :
    ∃ m, b.store i c = .ok m ∧ b.Is (fun k => if k = i then some c else b[k]?) m := by
  refine ⟨b.set i c h, ?_, ?_, ?_⟩
  · rw [store, dif_pos h]
  · rw [Array.size_set]
  · intro k
    rw [Array.getElem?_set]
    by_cases hk : i = k
    · rw [if_pos hk, if_pos hk.symm]
    · rw [if_neg hk, if_neg (Ne.symm hk)]

theorem storeBytes_is {i : Nat} (cs : List UInt8) (h : i + cs.length ≤ b.size) :
    ∃ m, b.storeBytes i cs = .ok m ∧
      b.Is (fun k => if i ≤ k ∧ k < i + cs.length then cs[k - i]? else b[k]?) m := by
  induction cs generalizing b i with
  | nil =>
      refine ⟨b, rfl, rfl, fun k => ?_⟩
      rw [if_neg (by simp only [List.length_nil]; omega)]
  | cons c cs ih =>
      rw [List.length_cons] at h
      obtain ⟨m, hm, hsize, hget⟩ := store_is (b := b) (i := i) (by omega) c
      obtain ⟨m', hm', hsize', hget'⟩ := ih (b := m) (i := i + 1) (by omega)
      refine ⟨m', by simp [storeBytes, hm, hm', bind, Except.bind], by omega, fun k => ?_⟩
      rw [hget', hget, List.length_cons]
      by_cases hi : k = i
      · subst hi
        rw [if_neg (by omega), if_pos rfl, if_pos (by omega), Nat.sub_self, List.getElem?_cons_zero]
      · by_cases hin : i + 1 ≤ k ∧ k < i + 1 + cs.length
        · have hsub : k - i = k - (i + 1) + 1 := by omega
          rw [if_pos hin, if_pos (by omega), hsub, List.getElem?_cons_succ]
        · rw [if_neg hin, if_neg hi, if_neg (by omega)]

theorem memset_is (mem : Nat) (c : UInt8) (n : Nat) (h : mem + n ≤ b.size) :
    ∃ m, b.memset mem c n = .ok m ∧
      b.Is (fun k => if mem ≤ k ∧ k < mem + n then some c else b[k]?) m := by
  induction n generalizing b mem with
  | zero =>
      refine ⟨b, rfl, rfl, fun k => ?_⟩
      rw [if_neg (by omega)]
  | succ n ih =>
      obtain ⟨m, hm, hsize, hget⟩ := store_is (b := b) (i := mem) (by omega) c
      obtain ⟨m', hm', hsize', hget'⟩ := ih (b := m) (mem + 1) (by omega)
      refine ⟨m', by simp [memset, hm, hm', bind, Except.bind], by omega, fun k => ?_⟩
      rw [hget', hget]
      by_cases hi : k = mem
      · rw [if_neg (by omega), if_pos hi, if_pos (by omega)]
      · by_cases hin : mem + 1 ≤ k ∧ k < mem + 1 + n
        · rw [if_pos hin, if_pos (by omega)]
        · rw [if_neg hin, if_neg hi, if_neg (by omega)]

/-- A forward copy to a lower place moves the bytes, whether the places overlap or not. -/
theorem memcpy_is (dst src n : Nat) (hle : dst ≤ src) (h : src + n ≤ b.size) :
    ∃ m, b.memcpy dst src n = .ok m ∧
      b.Is (fun k => if dst ≤ k ∧ k < dst + n then b[k - dst + src]? else b[k]?) m := by
  induction n generalizing b dst src with
  | zero =>
      refine ⟨b, rfl, rfl, fun k => ?_⟩
      rw [if_neg (by omega)]
  | succ n ih =>
      have hsrc : src < b.size := by omega
      obtain ⟨m, hm, hsize, hget⟩ := store_is (b := b) (i := dst) (by omega) b[src]
      obtain ⟨m', hm', hsize', hget'⟩ :=
        ih (b := m) (dst + 1) (src + 1) (by omega) (by omega)
      refine ⟨m', by simp [memcpy, load_lt hsrc, hm, hm', bind, Except.bind], by omega,
        fun k => ?_⟩
      rw [hget']
      by_cases hi : k = dst
      · subst hi
        rw [if_neg (by omega), hget, if_pos rfl, if_pos (by omega), Nat.sub_self, Nat.zero_add,
          Array.getElem?_eq_getElem hsrc]
      · by_cases hin : dst + 1 ≤ k ∧ k < dst + 1 + n
        · -- bytes still to be read lie behind the place just written
          have hidx : k - (dst + 1) + (src + 1) = k - dst + src := by omega
          rw [if_pos hin, if_pos (by omega), hidx, hget, if_neg (by omega)]
        · rw [if_neg hin, if_neg (by omega), hget, if_neg hi]

/-! ## Overlapping places -/

/-- A forward copy to a higher place reads what it has written itself: in the end both places hold
the same bytes. -/
theorem memcpy_up (dst src n : Nat) (hlt : src < dst) (h : dst + n ≤ b.size) :
    ∃ m, b.memcpy dst src n = .ok m ∧ m.size = b.size ∧
      (∀ k, k < n → m[dst + k]? = m[src + k]?) ∧
      ∀ k, ¬ (dst ≤ k ∧ k < dst + n) → m[k]? = b[k]? := by
  induction n generalizing b dst src with
  | zero => exact ⟨b, rfl, rfl, fun k hk => absurd hk (Nat.not_lt_zero k), fun k _ => rfl⟩
  | succ n ih =>
      have hsrc : src < b.size := by omega
      obtain ⟨m, hm, hsize, hget⟩ := store_is (b := b) (i := dst) (by omega) b[src]
      obtain ⟨m', hm', hsize', hsame, hrest⟩ :=
        ih (b := m) (dst + 1) (src + 1) (by omega) (by omega)
      refine ⟨m', by simp [memcpy, load_lt hsrc, hm, hm', bind, Except.bind], by omega, ?_, ?_⟩
      · intro k hk
        cases k with
        | zero =>
            rw [Nat.add_zero, Nat.add_zero, hrest dst (by omega), hrest src (by omega), hget, hget,
              if_pos rfl, if_neg (by omega), Array.getElem?_eq_getElem hsrc]
        | succ k =>
            have hk' := hsame k (by omega)
            rwa [Nat.add_right_comm dst 1 k, Nat.add_right_comm src 1 k] at hk'
      · intro k hk
        rw [hrest k (by omega), hget, if_neg (by omega)]

/-- `m` is `b` with the `n` bytes at `src` moved to `dst`, as a caller of `memmove` wants it: the
old bytes arrive, and the rest is as it was. -/
structure Moves (b : Buffer) (dst src n : Nat) (m : Buffer) : Prop where
  size : m.size = b.size
  moved : ∀ k, k < n → m[dst + k]? = b[src + k]?
  rest : ∀ k, ¬ (dst ≤ k ∧ k < dst + n) → m[k]? = b[k]?

/-- **`memmove` moves** to a lower place, and to a higher one if what it reads of the destination
is already what it would store there. -/
theorem memmove_moves_iff {dst src n : Nat} (hsrc : src + n ≤ b.size) (hdst : dst + n ≤ b.size) :
    (∃ m, b.memmove dst src n = .ok m ∧ b.Moves dst src n m) ↔
      dst ≤ src ∨ ∀ k, dst ≤ k → k < src + n → b[k]? = b[k - (dst - src)]? := by
  rcases (Nat.lt_or_ge src dst).symm with hle | hlt
  · refine iff_of_true ?_ (Or.inl hle)
    obtain ⟨m, hm, hsize, hget⟩ := memcpy_is dst src n hle hsrc
    refine ⟨m, hm, hsize, ?_, ?_⟩
    · intro k hk
      rw [hget, if_pos (by omega), Nat.add_sub_cancel_left, Nat.add_comm k src]
    · intro k hk
      rw [hget, if_neg hk]
  · obtain ⟨m, hm, hsize, hsame, hrest⟩ := memcpy_up dst src n hlt hdst
    constructor
    · rintro ⟨m', hm', hmoves⟩
      obtain rfl := Except.ok.inj (hm'.symm.trans hm)
      right
      intro k hdk hk
      -- the byte at `k` was stored, then read and stored again
      have hto := hmoves.moved (k - dst) (by omega)
      have hfrom := hmoves.moved (k - src) (by omega)
      rw [hsame (k - src) (by omega)] at hfrom
      rw [show dst + (k - dst) = k by omega, show src + (k - dst) = k - (dst - src) by omega] at hto
      rw [show src + (k - src) = k by omega] at hfrom
      rw [← hfrom, hto]
    · rintro (hle | hperiod)
      · omega
      · refine ⟨m, hm, hsize, ?_, hrest⟩
        intro k
        induction k using Nat.strong_induction_on with
        | _ k ih =>
            intro hk
            rw [hsame k hk]
            by_cases hbelow : src + k < dst
            · rw [hrest _ (by omega)]
            · have hearlier := ih (k - (dst - src)) (by omega) (by omega)
              rw [show dst + (k - (dst - src)) = src + k by omega,
                show src + (k - (dst - src)) = src + k - (dst - src) by omega] at hearlier
              rw [hearlier, hperiod (src + k) (by omega) (by omega)]

theorem memmove_moves_iff_down :
    (∃ m, memmove #[1, 2, 3] 0 1 2 = .ok m ∧ Moves #[1, 2, 3] 0 1 2 m) ↔
      0 ≤ 1 ∨ ∀ k, 0 ≤ k → k < 1 + 2 →
        (#[1, 2, 3] : Buffer)[k]? = (#[1, 2, 3] : Buffer)[k - (0 - 1)]? :=
  memmove_moves_iff (b := #[1, 2, 3]) (by decide) (by decide)

/-- Two bytes moved up by one: the second is overwritten before it is read. -/
theorem memmove_up_overwrites :
    ∃ (b : Buffer) (dst src n : Nat), src + n ≤ b.size ∧ dst + n ≤ b.size ∧
      ¬ ∃ m, b.memmove dst src n = .ok m ∧ b.Moves dst src n m := by
  refine ⟨#[1, 2, 3], 1, 0, 2, by decide, by decide, ?_⟩
  rintro ⟨m, hm, hmoves⟩
  have hval : memmove #[1, 2, 3] 1 0 2 = .ok #[1, 1, 1] := by
    decide +kernel
  obtain rfl := Except.ok.inj (hm.symm.trans hval)
  exact absurd (hmoves.moved 1 (by decide)) (by decide)

end

end Buffer

end LoliLoader.C
