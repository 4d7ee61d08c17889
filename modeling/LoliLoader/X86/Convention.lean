/-
# LoliLoader.X86.Convention -- calling conventions

Where the arguments of a call are and what a callee leaves alone, for the System V and the Microsoft
convention. A stretch of code that was entered under one convention and makes a call under another
*forwards* it when the arguments arrive and the caller gets everything back that its own convention
promises.

A `Convention` has the registers for the first arguments, the registers that a callee preserves, and
the size of the shadow area. The other arguments are words on the stack above the return address.
Both conventions are given as values of this structure, and everything behind is for any two of
them.

A callee may change whatever it is allowed to: registers that are not preserved, the words of its
own arguments, everything below the stack pointer. `Returns` is the relation between the state in
which it is called and the one in which it returns; nothing else is known of it.

`Forwards` is about code as a whole, from the entry to the return. It has one call in it. The result
of the callee is passed on, and the stack pointer is where the caller expects it.
-/
import LoliLoader.X86.Machine

namespace LoliLoader.X86

/-- A calling convention, as far as it says who may change what and where the arguments are. -/
structure Convention where
  /-- The registers of the first arguments; the others are on the stack. -/
  argRegs : List Reg
  /-- Bytes below the stack arguments that are the callee's to use. -/
  shadow : Nat
  /-- The registers, apart from `rsp`, that a callee gives back as they were. -/
  preserved : List Reg
  argRegs_ne : ∀ q ∈ argRegs, q ≠ .rsp

/-- The System V convention, which the loader is compiled for. -/
def sysV : Convention where
  argRegs := [.rdi, .rsi, .rdx, .rcx, .r8, .r9]
  shadow := 0
  preserved := [.rbx, .rbp, .r12, .r13, .r14, .r15]
  argRegs_ne := by decide

/-- The Microsoft convention, which the firmware is called in. -/
def microsoft : Convention where
  argRegs := [.rcx, .rdx, .r8, .r9]
  shadow := 32
  preserved := [.rbx, .rbp, .rdi, .rsi, .r12, .r13, .r14, .r15]
  argRegs_ne := by decide

namespace Convention

variable (conv : Convention)

/-- How many bytes the shadow area and the stack arguments of `n` arguments take. -/
def area (n : Nat) : Nat := conv.shadow + 8 * (n - conv.argRegs.length)

/-- Argument `k` (from 0), when the stack arguments begin `skip` bytes above `rsp`. -/
def arg (skip : Int) (k : Nat) (s : State) : UInt64 :=
  if h : k < conv.argRegs.length then s.reg (conv.argRegs.get ⟨k, h⟩)
  else s.mem.load (offset (s.reg .rsp) (skip + conv.area k))

/-- Argument `k` of a call that is about to be made. -/
def argAtCall : Nat → State → UInt64 := conv.arg 0

/-- Argument `k` of a function that was just entered: the return address is on top. -/
def argAtEntry : Nat → State → UInt64 := conv.arg 8

/-- A callee of `n` arguments was called in `c` and has returned in `r`.  It may have changed
the registers that are not preserved, its argument area and everything that is not part of
the caller's frame, which ends at `top`. -/
structure Returns (n : Nat) (top : UInt64) (c r : State) : Prop where
  rsp : r.reg .rsp = c.reg .rsp
  preserved : ∀ q ∈ conv.preserved, r.reg q = c.reg q
  frame : ∀ x, conv.area n ≤ (x - c.reg .rsp).toNat →
    (x - c.reg .rsp).toNat < (top - c.reg .rsp).toNat → r.mem x = c.mem x

end Convention

/-! ## Forwarding a call -/

/-- What a call is meant for: the function whose address was passed as argument `k`, or a
symbol of the program. -/
inductive Dest where
  | argument (k : Nat)
  | symbol (name : String)
  deriving DecidableEq, Repr

/-- The call in `c` goes where it is meant to, for the caller that entered in `s`. -/
def Target.GoesTo (caller : Convention) (s c : State) : Target → Dest → Prop
  | reg q, .argument k => c.reg q = caller.argAtEntry k s
  | symbol name, .symbol name' => name = name'
  | _, _ => False

/-- At the call in `c`, the callee gets the `n` arguments that the caller passed in `s`, and the
call goes where it is meant to. -/
structure Delivers (caller callee : Convention) (n : Nat) (dest : Dest) (s : State)
    (t : Target) (c : State) : Prop where
  target : t.GoesTo caller s c dest
  args : ∀ k < n, callee.argAtCall k c = caller.argAtEntry k s

/-- At the return in `f`, the caller that entered in `s` gets back what is its own, and the
result that the callee returned in `r`. -/
structure GivesBack (caller : Convention) (s r f : State) : Prop where
  rsp : f.reg .rsp = s.reg .rsp
  returnAddress : f.mem.load (f.reg .rsp) = s.mem.load (s.reg .rsp)
  result : f.reg .rax = r.reg .rax
  preserved : ∀ q ∈ caller.preserved, f.reg q = s.reg q

/-- The code makes one call, with the arguments it was entered with, and returns after it. -/
def Forwards (caller callee : Convention) (n : Nat) (dest : Dest) (code : List Instr)
    (s : State) : Prop :=
  ∃ t rest c, advance code s = (.call t :: rest, c) ∧ Delivers caller callee n dest s t c ∧
    ∀ r, callee.Returns n (offset (s.reg .rsp) 8) c r →
      ∃ f, advance rest r = ([.ret], f) ∧ GivesBack caller s r f

end LoliLoader.X86
