/-
# LoliLoader.EfiCall.Stubs -- the stubs of eficall.S

On x86-64 the loader is System V code and the firmware is Microsoft code. Every call of the firmware
goes through the stub for its number of arguments, which takes the function pointer after the
arguments; `initrdLoadFile` is the one function that the firmware calls.

The instructions are those of eficall.S, line by line, for each of the seven stubs and for the entry
in the other direction. Both theorems are obtained by evaluating the code on a symbolic state; what
that is worth is shown in `X86.Symbolic` and `X86.Discipline`, once for all code.

`calls_forwarded` says of all stubs that the function which is passed gets its arguments and that
the caller gets its registers and the result back. It needs no alignment.

`stack_discipline` is an equivalence over the stubs: two of them fail, each for a reason of its own.
The one for five arguments moves the stack pointer by an even number of words and so makes its call
misaligned. The one for ten stores arguments below the stack pointer before it moves it.
-/
import LoliLoader.X86.Discipline

namespace LoliLoader.EfiCall

open X86 Instr
open Relation (ReflTransGen)

/-- The stubs `__efi_call1` to `__efi_call6` and `__efi_call10`, one for each number of arguments
that is needed. -/
inductive Stub where
  | call1 | call2 | call3 | call4 | call5 | call6 | call10
  deriving DecidableEq, Repr

namespace Stub

/-- The number in the stub's name: how many arguments it passes on. -/
def args : Stub → Nat
  | call1 => 1
  | call2 => 2
  | call3 => 3
  | call4 => 4
  | call5 => 5
  | call6 => 6
  | call10 => 10

/-- The instructions of each stub, in the order of eficall.S. -/
def code : Stub → List Instr
  | call1 => [
      mov .rdi .rcx,
      add (-40) .rsp,
      call (.reg .rsi),
      add 40 .rsp,
      ret]
  | call2 => [
      mov .rdx .rax, -- function pointer
      mov .rdi .rcx,
      mov .rsi .rdx,
      add (-40) .rsp,
      call (.reg .rax),
      add 40 .rsp,
      ret]
  | call3 => [
      mov .rcx .rax, -- function pointer
      mov .rdx .r8,
      mov .rdi .rcx,
      mov .rsi .rdx,
      add (-40) .rsp,
      call (.reg .rax),
      add 40 .rsp,
      ret]
  | call4 => [
      mov .r8 .rax, -- function pointer
      mov .rdx .r8,
      mov .rcx .r9,
      mov .rdi .rcx,
      mov .rsi .rdx,
      add (-40) .rsp,
      call (.reg .rax),
      add 40 .rsp,
      ret]
  | call5 => [
      mov .r9 .rax, -- function pointer
      add (-8) .rsp,
      push .r8,
      mov .rdx .r8,
      mov .rcx .r9,
      mov .rdi .rcx,
      mov .rsi .rdx,
      add (-32) .rsp,
      call (.reg .rax),
      add 48 .rsp,
      ret]
  | call6 => [
      load 8 .rsp .rax, -- function pointer
      add (-8) .rsp,
      push .r9,
      push .r8,
      mov .rdx .r8,
      mov .rcx .r9,
      mov .rdi .rcx,
      mov .rsi .rdx,
      add (-32) .rsp,
      call (.reg .rax),
      add 56 .rsp,
      ret]
  | call10 => [
      add (-8) .rsp,
      load 40 .rsp .rax,
      store .rax (-8) .rsp,
      load 32 .rsp .rax,
      store .rax (-16) .rsp,
      load 24 .rsp .rax,
      store .rax (-24) .rsp,
      load 16 .rsp .rax,
      store .rax (-32) .rsp,
      store .r9 (-40) .rsp,
      store .r8 (-48) .rsp,
      load 48 .rsp .rax, -- function pointer
      mov .rdx .r8,
      mov .rcx .r9,
      mov .rdi .rcx,
      mov .rsi .rdx,
      add (-80) .rsp,
      call (.reg .rax),
      add 88 .rsp,
      ret]

end Stub

/-- The entry of `loadFile`, which the firmware calls. -/
def initrdLoadFile : List Instr := [
  add (-8) .rsp,
  push .rdi,
  push .rsi,
  mov .rcx .rdi,
  mov .rdx .rsi,
  mov .r8 .rdx,
  mov .r9 .rcx,
  load 64 .rsp .r8,
  call (.symbol "_initrd_load_file"),
  pop .rsi,
  pop .rdi,
  add 8 .rsp,
  ret]

/-! ## Marshalling -/

/-- **Calls between the conventions are forwarded**: every stub calls the function it is given,
in the Microsoft convention, with the System V arguments it was entered with, and
`initrdLoadFile` passes its five arguments on the other way. -/
theorem calls_forwarded (s : State) :
    (∀ stub : Stub, Forwards sysV microsoft stub.args (.argument stub.args) stub.code s) ∧
      Forwards microsoft sysV 5 (.symbol "_initrd_load_file") initrdLoadFile s := by
  constructor
  · intro stub
    apply forwards_of_sym
    cases stub <;> decide
  · apply forwards_of_sym
    decide

/-! ## Stack discipline -/

/-- `__efi_call5` moves `rsp` down by 48 bytes up to its call, an even number of words. -/
theorem call5_misaligned {s : State} (hentry : (s.reg .rsp).toNat % 16 = 8) :
    ¬ Disciplined sysV microsoft 5 (.argument 5) Stub.call5.code s := by
  intro h
  obtain ⟨c, hc, hd⟩ := (Describes.entry s s).advance
    (rfl : SymState.advance Stub.call5.code .entry = some (_, _))
  have haligned := (h _ (reaches_advance hc)).aligned _ _ rfl
  have hrsp : c.reg .rsp = offset (s.reg .rsp) (-48) := hd.rsp
  have hsp := toNat_offset (s.reg .rsp) (-48)
  have hdvd : 16 ∣ (c.reg .rsp).toNat := haligned
  rw [hrsp] at hdvd
  omega

/-- `__efi_call10` writes the stack arguments before it moves `rsp` below them. -/
theorem call10_storesBelow (s : State) :
    ¬ Disciplined sysV microsoft 10 (.argument 10) Stub.call10.code s := by
  intro h
  have hreach : ∀ s₁ s₂, (add (-8) .rsp).step s = some s₁ →
      (load 40 .rsp .rax).step s₁ = some s₂ → False := by
    intro s₁ s₂ h₁ h₂
    apply (h _ (.tail (.tail .refl (.plain h₁)) (.plain h₂))).above _ _ rfl
    refine ⟨0, by decide, ?_⟩
    exact below_offset (by decide)
  exact hreach _ _ rfl rfl

/-- **Stack discipline holds of all but two of the stubs**, and of the entry in the other direction,
from every state that is aligned as on entry. -/
theorem stack_discipline {s : State} (hentry : (s.reg .rsp).toNat % 16 = 8) :
    (∀ stub : Stub, Disciplined sysV microsoft stub.args (.argument stub.args) stub.code s ↔
      stub ≠ .call5 ∧ stub ≠ .call10) ∧
    Disciplined microsoft sysV 5 (.symbol "_initrd_load_file") initrdLoadFile s := by
  constructor
  · intro stub
    constructor
    · intro h
      constructor
      · rintro rfl
        exact call5_misaligned hentry h
      · rintro rfl
        exact call10_storesBelow s h
    · rintro ⟨h5, h10⟩
      apply disciplined_of_sym hentry
      cases stub with
      | call5 => exact absurd rfl h5
      | call10 => exact absurd rfl h10
      | call1 | call2 | call3 | call4 | call6 => decide
  · apply disciplined_of_sym hentry
    decide

/-- An entry state with the return address at `0x1008`. -/
def lowState : State where
  reg := fun _ => 0x1008
  mem := fun _ => 0

theorem stack_discipline_lowState :
    (∀ stub : Stub, Disciplined sysV microsoft stub.args (.argument stub.args) stub.code lowState ↔
      stub ≠ .call5 ∧ stub ≠ .call10) ∧
    Disciplined microsoft sysV 5 (.symbol "_initrd_load_file") initrdLoadFile lowState :=
  stack_discipline (by decide)

/-- The five-argument stub calls with `rsp` 8 bytes off, and the ten-argument stub stores below
`rsp`. -/
theorem stack_discipline_broken :
    (lowState.reg .rsp).toNat % 16 = 8 ∧
    ¬ Disciplined sysV microsoft 5 (.argument 5) Stub.call5.code lowState ∧
    ¬ Disciplined sysV microsoft 10 (.argument 10) Stub.call10.code lowState :=
  ⟨by decide, call5_misaligned (by decide), call10_storesBelow lowState⟩

end LoliLoader.EfiCall
