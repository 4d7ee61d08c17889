/-
# LoliLoader.X86.Machine -- moves, pushes and calls of x86-64

Registers and memory, and the instructions that calling sequences are made of. Code is a list of
instructions; it runs straight on up to a call or a return. Addresses wrap around at 2^64, and words
are kept in memory byte by byte.

Only the instructions that the stubs use are there: moves between registers, loads and stores at a
distance from a register, pushes and pops, additions of constants, calls and returns. Flags are left
out, since nothing looks at them. There are no jumps, so a run through a list of instructions ends
by itself.

Words may overlap in memory. A store of eight bytes is seen by each load whose word has one of them,
and `load_store_apart` says that it is seen by no other. Distances are taken around the end of the
address space, so that no condition on the stack pointer is needed.

What a call does is not the machine's business. It says where the call goes, and the callee is a
relation between states (`X86.Convention`).
-/
import Mathlib.Data.List.GetD
import LoliLoader.Bytes.LittleEndian

namespace LoliLoader.X86

open Bytes

/-- The general registers of x86-64. -/
inductive Reg where
  | rax | rbx | rcx | rdx | rsi | rdi | rbp | rsp
  | r8 | r9 | r10 | r11 | r12 | r13 | r14 | r15
  deriving DecidableEq, Repr

/-! ## Addresses -/

/-- The address `d` bytes away from `a`, around the end of the address space if need be. -/
def offset (a : UInt64) (d : Int) : UInt64 := a + UInt64.ofInt d

@[simp]
theorem offset_offset (a : UInt64) (i j : Int) : offset (offset a i) j = offset a (i + j) := by
  rw [offset, offset, offset, UInt64.ofInt_add, UInt64.add_assoc]

@[simp]
theorem offset_zero (a : UInt64) : offset a 0 = a := UInt64.add_zero a

theorem toNat_ofInt (d : Int) : (UInt64.ofInt d).toNat = (d % 2 ^ 64).toNat := by
  have hlt := Int.emod_lt_of_pos d (show (0 : Int) < 2 ^ 64 by decide)
  apply UInt64.toNat_ofNat_of_lt
  show (d % 2 ^ 64).toNat < 2 ^ 64
  omega

theorem toNat_offset (a : UInt64) (d : Int) :
    (offset a d).toNat = ((a.toNat + d) % 2 ^ 64).toNat := by
  rw [offset, UInt64.toNat_add, toNat_ofInt]
  omega

/-- How far one address is behind another, going round. -/
theorem toNat_offset_sub (a : UInt64) (i j : Int) :
    (offset a i - offset a j).toNat = ((i - j) % 2 ^ 64).toNat := by
  have hsplit : offset a i = offset a j + UInt64.ofInt (i - j) := by
    rw [offset, offset, UInt64.add_assoc, ← UInt64.ofInt_add]
    congr 2
    omega
  rw [hsplit, UInt64.add_comm, UInt64.add_sub_cancel, toNat_ofInt]

/-! ## Memory -/

/-- A byte for every address. -/
abbrev Memory := UInt64 → UInt8

namespace Memory

/-- The eight bytes from address `a` on, around the end of the address space if need be. -/
def bytes (m : Memory) (a : UInt64) : List UInt8 :=
  (List.range 8).map fun i : Nat => m (offset a i)

/-- The word at `a`, lowest byte first. -/
def load (m : Memory) (a : UInt64) : UInt64 := UInt64.ofNat (ofLE (m.bytes a))

/-- The word `v` stored at `a`. -/
def store (m : Memory) (a v : UInt64) : Memory := fun x =>
  (leBytes 8 v.toNat).getD (x - a).toNat (m x)

/-- A load sees only the bytes of the word. -/
theorem load_congr {m m' : Memory} {a : UInt64}
    (h : ∀ i : Nat, i < 8 → m (offset a i) = m' (offset a i)) :
    m.load a = m'.load a := by
  have hbytes : m.bytes a = m'.bytes a := by
    apply List.map_congr_left
    intro i hi
    exact h i (List.mem_range.mp hi)
  rw [load, load, hbytes]

@[simp]
theorem load_store (m : Memory) (a v : UInt64) : (m.store a v).load a = v := by
  have hbytes : (m.store a v).bytes a = leBytes 8 v.toNat := by
    apply List.ext_getElem
    · rw [bytes, List.length_map, List.length_range, length_leBytes]
    · intro i hi hi'
      rw [length_leBytes] at hi'
      have hback : (offset a i - a).toNat = i := by
        have h := toNat_offset_sub a i 0
        rw [offset_zero] at h
        omega
      simp only [bytes, List.getElem_map, List.getElem_range]
      rw [store, hback, List.getD_eq_getElem _ _ (by rwa [length_leBytes])]
  rw [load, hbytes, ofLE_leBytes_of_lt]
  · exact UInt64.ofNat_toNat
  · exact v.toNat_lt

/-- A store leaves the words beside it alone. -/
theorem load_store_apart (m : Memory) {a : UInt64} {i j : Int} (v : UInt64)
    (hapart : i + 8 ≤ j ∨ j + 8 ≤ i) (hnear : i - j < 2 ^ 63 ∧ j - i < 2 ^ 63) :
    (m.store (offset a i) v).load (offset a j) = m.load (offset a j) := by
  apply load_congr
  intro k hk
  have hfar := toNat_offset_sub a (j + k) i
  rw [store, offset_offset, List.getD_eq_default]
  rw [length_leBytes, hfar]
  omega

end Memory

/-! ## Instructions -/

/-- The registers and the memory; flags and the instruction pointer are left out. -/
structure State where
  reg : Reg → UInt64
  mem : Memory

/-- Where a call goes: to the address in a register, or to a symbol of the program. -/
inductive Target where
  | reg (r : Reg)
  | symbol (name : String)
  deriving DecidableEq, Repr

/-- The instructions that calling sequences are made of, with words of 64 bits. -/
inductive Instr where
  | mov (src dst : Reg)
  /-- A word is loaded from `disp(base)`. -/
  | load (disp : Int) (base dst : Reg)
  /-- A word is stored to `disp(base)`. -/
  | store (src : Reg) (disp : Int) (base : Reg)
  | add (imm : Int) (dst : Reg)
  | push (src : Reg)
  | pop (dst : Reg)
  | call (target : Target)
  | ret
  deriving DecidableEq, Repr

namespace State

/-- A register gets a value, and the others keep theirs. -/
def set (s : State) (r : Reg) (v : UInt64) : State :=
  { s with reg := Function.update s.reg r v }

def store (s : State) (a v : UInt64) : State := { s with mem := s.mem.store a v }

@[simp]
theorem reg_store (s : State) (a v : UInt64) : (s.store a v).reg = s.reg := rfl

@[simp]
theorem mem_set (s : State) (r : Reg) (v : UInt64) : (s.set r v).mem = s.mem := rfl

@[simp]
theorem mem_store (s : State) (a v : UInt64) : (s.store a v).mem = s.mem.store a v := rfl

@[simp]
theorem reg_set_self (s : State) (r : Reg) (v : UInt64) : (s.set r v).reg r = v :=
  Function.update_self ..

theorem reg_set_of_ne (s : State) {r q : Reg} (v : UInt64) (h : q ≠ r) :
    (s.set r v).reg q = s.reg q := Function.update_of_ne h ..

end State

namespace Instr

/-- What an instruction does; a call and a return leave the code and are not steps of it. -/
def step : Instr → State → Option State
  | mov src dst, s => some (s.set dst (s.reg src))
  | load disp base dst, s => some (s.set dst (s.mem.load (offset (s.reg base) disp)))
  | store src disp base, s => some (s.store (offset (s.reg base) disp) (s.reg src))
  | add imm dst, s => some (s.set dst (offset (s.reg dst) imm))
  | push src, s =>
      let top := offset (s.reg .rsp) (-8)
      some ((s.set .rsp top).store top (s.reg src))
  | pop dst, s =>
      let v := s.mem.load (s.reg .rsp)
      some ((s.set .rsp (offset (s.reg .rsp) 8)).set dst v)
  | call _, _ => none
  | ret, _ => none

end Instr

/-- The code run up to the first call or return, which is left at the front of what is still to be
run. -/
def advance : List Instr → State → List Instr × State
  | [], s => ([], s)
  | i :: code, s =>
      match i.step s with
      | some s' => advance code s'
      | none => (i :: code, s)

end LoliLoader.X86
