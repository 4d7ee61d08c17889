/-
# LoliLoader.C.Memory -- NUL-terminated strings and checked reads

A C string is its bytes up to the terminator. The memory that a function may read through a pointer
into it is exactly these bytes and the terminator: `deref` reports any other read as a `Fault`, so a
function that returns has stayed inside the string.

Pointers are offsets. `s.At p r` says that offset `p` is inside the string and that `r` is the text
from there on; stepping over what is in front of the rest keeps it, and reading gives the head of
the rest or the terminator. Proofs about parsers carry this one fact along and never compute an
index.

`Fault` lists what C code must not do. Which of the cases can occur in a function is a question of
that function; that none does is what "memory safe" means in the modules that follow.

String literals of the source are Lean strings, turned into bytes by `ascii`. Decoding a literal is
slow in the kernel, so `ascii_ofList` goes around it.
-/
import Mathlib.Data.List.TakeWhile

namespace LoliLoader.C

/-- What C code must not do. A function that meets one of these has no result, and nothing is said
about what follows. -/
inductive Fault where
  /-- read of a byte outside the object -/
  | read (i : Nat)
  /-- write of a byte outside the object -/
  | write (i : Nat)
  /-- access through a null pointer -/
  | null
  /-- division by zero -/
  | divide
  deriving DecidableEq, Repr

theorem bind_eq_ok {α β ε : Type} {x : Except ε α} {f : α → Except ε β} {b : β} :
    x >>= f = .ok b ↔ ∃ a, x = .ok a ∧ f a = .ok b := by
  cases x with
  | error e =>
      show Except.error e = .ok b ↔ _
      simp
  | ok a =>
      show f a = .ok b ↔ _
      simp

/-- The bytes of an ASCII literal of the source, without the terminator that C puts behind it. -/
def ascii (s : String) : List UInt8 := s.toList.map fun c => c.toNat.toUInt8

/-- A literal is the string of its characters, so it need not be decoded to know its bytes. -/
theorem ascii_ofList (l : List Char) :
    ascii (String.ofList l) = l.map fun c => c.toNat.toUInt8 := by
  rw [ascii, String.toList_ofList]

theorem nul_notMem_ascii {l : List Char} (h : (0 : UInt8) ∉ l.map fun c => c.toNat.toUInt8) :
    (0 : UInt8) ∉ ascii (String.ofList l) := by
  rw [ascii_ofList]
  exact h

/-- A NUL-terminated string: its bytes, none of them the terminator. The terminator itself is in
memory behind them. -/
structure CString where
  bytes : List UInt8
  nul_notMem : (0 : UInt8) ∉ bytes
  deriving DecidableEq

namespace CString

/-- The bytes a pointer into the string may read. -/
def mem (s : CString) : List UInt8 := s.bytes ++ [0]

/-- `strlen`: the position of the terminator, which is the number of bytes in front of it. -/
def length (s : CString) : Nat := s.bytes.length

/-- `*p`, where `p` is an offset into the string. -/
def deref (s : CString) (p : Nat) : Except Fault UInt8 :=
  match s.mem[p]? with
  | some c => .ok c
  | none => .error (.read p)

/-- `len` bytes from offset `p` on, terminator excluded. -/
def slice (s : CString) (p len : Nat) : List UInt8 := (s.bytes.drop p).take len

/-- The string a buffer holds: its bytes up to the first NUL. -/
def ofBuffer (buf : List UInt8) : CString :=
  ⟨buf.takeWhile fun c => c ≠ 0, fun h => by simpa using List.mem_takeWhile_imp h⟩

theorem bytes_ofBuffer {v : List UInt8} (hv : (0 : UInt8) ∉ v) :
    (ofBuffer (v ++ [0])).bytes = v := by
  have hpos : ∀ c ∈ v, decide (c ≠ 0) = true := by
    intro c hc
    simp only [decide_eq_true_eq]
    rintro rfl
    exact hv hc
  show (v ++ [0]).takeWhile (fun c => decide (c ≠ 0)) = v
  rw [List.takeWhile_append_of_pos hpos]
  simp

/-- A buffer with one NUL at its end is the memory of the string it holds. -/
theorem mem_ofBuffer {v : List UInt8} (hv : (0 : UInt8) ∉ v) :
    (ofBuffer (v ++ [0])).mem = v ++ [0] := by
  rw [mem, bytes_ofBuffer hv]

theorem lt_of_deref {s : CString} {p : Nat} {c : UInt8} (h : s.deref p = .ok c) :
    p < s.mem.length := by
  unfold deref at h
  split at h
  · rename_i hc
    exact (List.getElem?_eq_some_iff.mp hc).1
  · cases h

/-- `s.At p r`: offset `p` is inside the string, or at its terminator, and `r` is the text from it
on. -/
structure At (s : CString) (p : Nat) (r : List UInt8) : Prop where
  le : p ≤ s.length
  drop : s.bytes.drop p = r

namespace At

variable {s : CString} {p : Nat} {c : UInt8} {r : List UInt8}

theorem zero (s : CString) : s.At 0 s.bytes := ⟨Nat.zero_le _, rfl⟩

theorem of_le {s : CString} {p : Nat} (h : p ≤ s.length) : s.At p (s.bytes.drop p) := ⟨h, rfl⟩

theorem length_eq (h : s.At p r) : p + r.length = s.length := by
  have := h.le
  rw [← h.drop, List.length_drop]
  simp only [CString.length] at this ⊢
  omega

/-- Stepping over a prefix of the rest. -/
theorem append {l : List UInt8} (h : s.At p (l ++ r)) : s.At (p + l.length) r := by
  refine ⟨?_, ?_⟩
  · have := h.length_eq
    rw [List.length_append] at this
    omega
  · rw [← List.drop_drop, h.drop, List.drop_append]
    simp

theorem tail (h : s.At p (c :: r)) : s.At (p + 1) r :=
  h.append (l := [c])

/-- The rest of a C string has no terminator in it. -/
theorem nul_notMem (h : s.At p r) : (0 : UInt8) ∉ r := by
  rw [← h.drop]
  exact fun hm => s.nul_notMem (List.mem_of_mem_drop hm)

theorem ne_nul (h : s.At p (c :: r)) : c ≠ 0 := by
  rintro rfl
  exact h.nul_notMem List.mem_cons_self

theorem deref_cons (h : s.At p (c :: r)) : s.deref p = .ok c := by
  have hlt : p < s.bytes.length := by
    have := h.length_eq
    simp only [List.length_cons, CString.length] at this
    omega
  have hget : s.bytes[p]? = some c := by
    have := congrArg List.head? h.drop
    rwa [List.head?_drop] at this
  simp [deref, mem, List.getElem?_append_left hlt, hget]

theorem deref_nil (h : s.At p []) : s.deref p = .ok 0 := by
  have hp : p = s.bytes.length := by simpa [CString.length] using h.length_eq
  simp [deref, mem, hp]

theorem slice_eq (h : s.At p r) (n : Nat) : s.slice p n = r.take n := by
  rw [slice, h.drop]

end At

end CString

end LoliLoader.C
