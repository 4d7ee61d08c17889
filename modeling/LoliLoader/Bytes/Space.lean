/-
# LoliLoader.Bytes.Space -- memory as a function, and pieces stored in it

A `Space` has a byte for every address. It is memory without allocation and without faults, as it is
before a program runs in it: what a loader makes of a file.

Pieces of bytes are stored in it one after the other. If they keep to extents of their own, what is
read at an address is decided by the piece whose extent the address is in (`writeAll_mem`), and an
address in none of the extents is left alone (`writeAll_not_mem`). A piece may be shorter than its
extent; behind it there is what was there before, which for a fresh space are zeros.

The same holds of words that a number is added to, which is what a relocation does. Each of them
gets its sum, as long as no two of them overlap (`addWords_mem`).

Extents are half-open intervals of natural numbers with a start and a size. `Apart` is symmetric and
survives moving both of them by the same distance, so that a layout can be shifted as a whole.
-/
import LoliLoader.Bytes.LittleEndian
import Mathlib.Data.List.GetD

namespace LoliLoader.Bytes

/-! ## Extents -/

/-- The addresses from `start` on, `size` of them. An extent of no addresses may start anywhere. -/
structure Extent where
  start : Nat
  size : Nat
  deriving DecidableEq, Repr

instance : Membership Nat Extent := ⟨fun e x => e.start ≤ x ∧ x < e.start + e.size⟩

namespace Extent

theorem mem_iff {e : Extent} {x : Nat} : x ∈ e ↔ e.start ≤ x ∧ x < e.start + e.size := Iff.rfl

theorem mem_mk {a n x : Nat} : x ∈ mk a n ↔ a ≤ x ∧ x < a + n := Iff.rfl

instance (e : Extent) (x : Nat) : Decidable (x ∈ e) :=
  decidable_of_iff (e.start ≤ x ∧ x < e.start + e.size) Iff.rfl

/-- Extents without a common address. An empty one is apart from every other. -/
def Apart (e f : Extent) : Prop := ∀ x, x ∈ e → x ∉ f

theorem Apart.symm {e f : Extent} (h : e.Apart f) : f.Apart e := fun x hf he => h x he hf

theorem Apart.of_le {e f : Extent} (h : e.start + e.size ≤ f.start) : e.Apart f := by
  intro x he hf
  rw [mem_iff] at he hf
  omega

/-- Extents and addresses are moved together. -/
theorem add_mem_add {a n c x : Nat} : c + x ∈ mk (c + a) n ↔ x ∈ mk a n := by
  rw [mem_mk, mem_mk]
  omega

theorem Apart.add {a b n k : Nat} (c : Nat) (h : (mk a n).Apart (mk b k)) :
    (mk (c + a) n).Apart (mk (c + b) k) := by
  intro x hx hx'
  obtain ⟨y, rfl⟩ := Nat.exists_eq_add_of_le (le_trans (Nat.le_add_right c a) hx.1)
  exact h y (add_mem_add.mp hx) (add_mem_add.mp hx')

end Extent

/-! ## Stores -/

/-- A byte for every address. -/
abbrev Space := Nat → UInt8

namespace Space

/-- Memory that has been cleared: a zero at every address. -/
def zero : Space := fun _ => 0

/-- `bs` stored from address `a` on; the bytes at all other addresses are as they were. -/
def write (m : Space) (a : Nat) (bs : List UInt8) : Space := fun x =>
  if a ≤ x ∧ x < a + bs.length then bs.getD (x - a) 0 else m x

/-- The `n` bytes from address `a` on, in order. Memory of this kind has a byte everywhere. -/
def read (m : Space) (a n : Nat) : List UInt8 := (List.range n).map fun k => m (a + k)

/-- Pieces stored one after the other, from the first on; where two overlap, the later one is
seen. -/
def writeAll (m : Space) (pieces : List (Nat × List UInt8)) : Space :=
  pieces.foldl (fun m p => m.write p.1 p.2) m

/-- `d` added to the little-endian word of eight bytes at `a`. -/
def addWord (d : Nat) (m : Space) (a : Nat) : Space :=
  m.write a (leBytes 8 (ofLE (m.read a 8) + d))

/-- `d` added to each of the words at `as`, in this order, as relocations do with the distance to
the preferred base. -/
def addWords (m : Space) (d : Nat) (as : List Nat) : Space := as.foldl (addWord d) m

section

variable {m m' : Space} {a n x : Nat} {bs : List UInt8}

theorem write_mem (h : x ∈ Extent.mk a bs.length) : m.write a bs x = bs.getD (x - a) 0 := if_pos h

theorem write_not_mem (h : x ∉ Extent.mk a bs.length) : m.write a bs x = m x := if_neg h

@[simp]
theorem length_read (m : Space) (a n : Nat) : (m.read a n).length = n := by simp [read]

theorem read_congr (h : ∀ x, x ∈ Extent.mk a n → m x = m' x) : m.read a n = m'.read a n := by
  refine List.map_congr_left fun k hk => ?_
  rw [List.mem_range] at hk
  exact h _ ⟨Nat.le_add_right a k, Nat.add_lt_add_left hk a⟩

/-- What is read is a list when its bytes are those of the list. -/
theorem read_eq (h : ∀ k < bs.length, m (a + k) = bs.getD k 0) : m.read a bs.length = bs := by
  refine List.ext_getElem (by simp) fun k h₁ h₂ => ?_
  have := h k h₂
  simp [read, this, h₂]

theorem read_write (m : Space) (a : Nat) (bs : List UInt8) :
    (m.write a bs).read a bs.length = bs := by
  refine read_eq fun k hk => ?_
  have hmem : a + k ∈ Extent.mk a bs.length :=
    ⟨Nat.le_add_right a k, Nat.add_lt_add_left hk a⟩
  rw [write_mem hmem, Nat.add_sub_cancel_left]

end

theorem writeAll_append (m : Space) (pieces pieces' : List (Nat × List UInt8)) :
    m.writeAll (pieces ++ pieces') = (m.writeAll pieces).writeAll pieces' := List.foldl_append

/-! ## Pieces in extents of their own -/

section

variable {ι : Type*} {start size : ι → Nat} {bytes : ι → List UInt8} {l : List ι} {m : Space}
  {x : Nat}

/-- An address in none of the extents is left alone. -/
theorem writeAll_not_mem (hlen : ∀ i ∈ l, (bytes i).length ≤ size i)
    (h : ∀ i ∈ l, x ∉ Extent.mk (start i) (size i)) :
    m.writeAll (l.map fun i => (start i, bytes i)) x = m x := by
  induction l generalizing m with
  | nil => rfl
  | cons j l ih =>
      have hj : x ∉ Extent.mk (start j) (bytes j).length := by
        have hle := hlen j List.mem_cons_self
        have hnot := h j List.mem_cons_self
        rw [Extent.mem_mk] at hnot ⊢
        omega
      show (m.write (start j) (bytes j)).writeAll (l.map fun i => (start i, bytes i)) x = m x
      rw [ih (fun i hi => hlen i (List.mem_cons_of_mem j hi))
        (fun i hi => h i (List.mem_cons_of_mem j hi)), write_not_mem hj]

/-- In the extent of a piece its bytes are found, and behind them what was there. -/
theorem writeAll_mem (hlen : ∀ i ∈ l, (bytes i).length ≤ size i)
    (hapart : l.Pairwise fun i j =>
      (Extent.mk (start i) (size i)).Apart (Extent.mk (start j) (size j)))
    {i : ι} (hi : i ∈ l) (hx : x ∈ Extent.mk (start i) (size i)) :
    m.writeAll (l.map fun i => (start i, bytes i)) x = (bytes i).getD (x - start i) (m x) := by
  induction l generalizing m with
  | nil => cases hi
  | cons j l ih =>
      rw [List.pairwise_cons] at hapart
      have hlen' : ∀ i ∈ l, (bytes i).length ≤ size i :=
        fun i hi => hlen i (List.mem_cons_of_mem j hi)
      show (m.write (start j) (bytes j)).writeAll (l.map fun i => (start i, bytes i)) x = _
      rcases List.mem_cons.mp hi with rfl | hi
      · rw [writeAll_not_mem hlen' fun k hk => hapart.1 k hk x hx]
        by_cases hin : x ∈ Extent.mk (start i) (bytes i).length
        · have hlt : x - start i < (bytes i).length := by
            rw [Extent.mem_mk] at hin
            omega
          rw [write_mem hin, List.getD_eq_getElem _ _ hlt, List.getD_eq_getElem _ _ hlt]
        · have hle : (bytes i).length ≤ x - start i := by
            rw [Extent.mem_mk] at hin hx
            omega
          rw [write_not_mem hin, List.getD_eq_default _ _ hle]
      · have hj : x ∉ Extent.mk (start j) (bytes j).length := by
          have hnot : x ∉ Extent.mk (start j) (size j) := (hapart.1 i hi).symm x hx
          have hle := hlen j List.mem_cons_self
          rw [Extent.mem_mk] at hnot ⊢
          omega
        rw [ih hlen' hapart.2 hi, write_not_mem hj]

/-- A piece that fills its extent. -/
theorem writeAll_mem_full (hlen : ∀ i ∈ l, (bytes i).length = size i)
    (hapart : l.Pairwise fun i j =>
      (Extent.mk (start i) (size i)).Apart (Extent.mk (start j) (size j)))
    {i : ι} (hi : i ∈ l) (hx : x ∈ Extent.mk (start i) (size i)) :
    m.writeAll (l.map fun i => (start i, bytes i)) x = (bytes i).getD (x - start i) 0 := by
  have hlt : x - start i < (bytes i).length := by
    rw [hlen i hi]
    rw [Extent.mem_mk] at hx
    omega
  rw [writeAll_mem (fun j hj => le_of_eq (hlen j hj)) hapart hi hx, List.getD_eq_getElem _ _ hlt,
    List.getD_eq_getElem _ _ hlt]

end

/-! ## Words that a number is added to -/

section

variable {m : Space} {d : Nat} {as : List Nat} {x : Nat}

theorem addWord_not_mem {a : Nat} (h : x ∉ Extent.mk a 8) : m.addWord d a x = m x := by
  rw [addWord, write_not_mem]
  rwa [length_leBytes]

theorem addWord_mem {a : Nat} (h : x ∈ Extent.mk a 8) :
    m.addWord d a x = (leBytes 8 (ofLE (m.read a 8) + d)).getD (x - a) 0 := by
  rw [addWord, write_mem]
  rwa [length_leBytes]

theorem addWords_not_mem (h : ∀ a ∈ as, x ∉ Extent.mk a 8) : m.addWords d as x = m x := by
  induction as generalizing m with
  | nil => rfl
  | cons b as ih =>
      show (m.addWord d b).addWords d as x = m x
      rw [ih fun a ha => h a (List.mem_cons_of_mem b ha), addWord_not_mem (h b List.mem_cons_self)]

/-- Every word gets its sum, if the words do not overlap. -/
theorem addWords_mem (hapart : as.Pairwise fun a b => (Extent.mk a 8).Apart (Extent.mk b 8))
    {a : Nat} (ha : a ∈ as) (hx : x ∈ Extent.mk a 8) :
    m.addWords d as x = (leBytes 8 (ofLE (m.read a 8) + d)).getD (x - a) 0 := by
  induction as generalizing m with
  | nil => cases ha
  | cons b as ih =>
      rw [List.pairwise_cons] at hapart
      show (m.addWord d b).addWords d as x = _
      rcases List.mem_cons.mp ha with rfl | ha
      · rw [addWords_not_mem fun c hc => hapart.1 c hc x hx, addWord_mem hx]
      · -- the word has not been touched yet
        have hread : (m.addWord d b).read a 8 = m.read a 8 :=
          read_congr fun y hy => addWord_not_mem ((hapart.1 a ha).symm y hy)
        rw [ih hapart.2 ha, hread]

/-- The same, for a word that is known. -/
theorem addWords_of_word {ι : Type*} {addr : ι → Nat} {l : List ι}
    (hapart : l.Pairwise fun i j => (Extent.mk (addr i) 8).Apart (Extent.mk (addr j) 8))
    {i : ι} (hi : i ∈ l) {w : Nat} (hword : m.read (addr i) 8 = leBytes 8 w)
    (hx : x ∈ Extent.mk (addr i) 8) :
    m.addWords d (l.map addr) x = (leBytes 8 (w + d)).getD (x - addr i) 0 := by
  rw [addWords_mem (List.pairwise_map.mpr hapart) (List.mem_map_of_mem hi) hx, hword,
    ofLE_leBytes, ← leBytes_mod, Nat.mod_add_mod, leBytes_mod]

end

end Space

end LoliLoader.Bytes
