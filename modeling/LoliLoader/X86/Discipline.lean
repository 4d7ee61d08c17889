/-
# LoliLoader.X86.Discipline -- stack discipline under interrupts

An interrupt may be taken between any two instructions, on the same stack: it may overwrite
everything below `rsp`. Code is disciplined when, in every run with interrupts, its calls are
aligned, it stores nothing where an interrupt may overwrite it, and its callee gets the arguments.

Firmware takes its timer interrupts on the stack of the program, and neither of the two conventions
has a red zone there. So a value that is stored below the stack pointer, and used after it has been
moved, may be gone.

A run is a sequence of steps, each of which is an instruction, the call with its return, or an
interrupt that replaces the memory below `rsp` by anything. `Disciplined` is about every
configuration that is reached, and `disciplined_of_sym` reduces it to a computation on one symbolic
state. The symbolic state is kept settled: it never tells a word below the stack pointer, so an
interrupt takes nothing away from it.

The check is about code that is entered with the alignment of the conventions, eight bytes off a
multiple of 16.
-/
import Mathlib.Logic.Relation
import LoliLoader.X86.Symbolic

namespace LoliLoader.X86

open Relation (ReflTransGen)

/-- The address `x` is below the stack pointer `rsp`, going round. -/
def Below (rsp x : UInt64) : Prop := 2 ^ 63 ≤ (x - rsp).toNat

/-- The instruction stores a byte below `rsp`.  A push moves `rsp` first. -/
def Instr.StoresBelow (s : State) : Instr → Prop
  | .store _ disp base => ∃ i : Nat, i < 8 ∧ Below (s.reg .rsp) (offset (s.reg base) (disp + i))
  | _ => False

/-- Code that is still to be run, and the state it is run in. -/
structure Config where
  code : List Instr
  state : State

/-- One step of code whose frame ends at `top` and whose callees take `n` arguments: an instruction,
a call with its return, or an interrupt. -/
inductive Step (callee : Convention) (n : Nat) (top : UInt64) : Config → Config → Prop
  | plain {i : Instr} {code : List Instr} {s s' : State} :
      i.step s = some s' → Step callee n top ⟨i :: code, s⟩ ⟨code, s'⟩
  | call {t : Target} {code : List Instr} {s r : State} :
      callee.Returns n top s r → Step callee n top ⟨.call t :: code, s⟩ ⟨code, r⟩
  | interrupt {code : List Instr} {s : State} {m : Memory} :
      (∀ x, ¬ Below (s.reg .rsp) x → m x = s.mem x) →
      Step callee n top ⟨code, s⟩ ⟨code, { s with mem := m }⟩

/-- What is asked of a configuration of code that was entered in `s`: calls are aligned and get
their arguments, and nothing is stored below `rsp`. -/
structure Config.Ok (caller callee : Convention) (n : Nat) (dest : Dest) (s : State)
    (c : Config) : Prop where
  aligned : ∀ t rest, c.code = .call t :: rest → 16 ∣ (c.state.reg .rsp).toNat
  above : ∀ i rest, c.code = i :: rest → ¬ i.StoresBelow c.state
  delivers : ∀ t rest, c.code = .call t :: rest →
    Delivers caller callee n dest s t c.state

/-- Every configuration that is reached from the entry in `s` is as it should be. -/
def Disciplined (caller callee : Convention) (n : Nat) (dest : Dest) (code : List Instr)
    (s : State) : Prop :=
  ∀ c, ReflTransGen (Step callee n (offset (s.reg .rsp) 8)) ⟨code, s⟩ c →
    c.Ok caller callee n dest s

/-! ## Discipline, checked -/

/-- An interrupt, told symbolically: what is below the stack pointer is not known any more. -/
def SymState.interrupt (σ : SymState) : SymState :=
  σ.keep fun d => σ.sp ≤ d ∧ Near σ.sp

/-- An instruction that stores and calls nothing. -/
def Instr.isQuiet : Instr → Bool
  | .store _ _ _ => false
  | .call _ => false
  | _ => true

/-- A store is made at or above `rsp`, and not so far above that the address would come around. -/
def Instr.storesAbove : Instr → Bool
  | .store _ disp base => base = .rsp && 0 ≤ disp && disp ≤ 2 ^ 32
  | _ => true

/-- `Disciplined`, told symbolically, for code that is entered with the return address 8 bytes
above a multiple of 16.  After the call there is nothing left to go wrong. -/
def SymState.disciplined (caller callee : Convention) (n : Nat) (dest : Dest) :
    List Instr → SymState → Bool
  | [], _ => true
  | .call t :: rest, σ =>
      (σ.sp + 8) % 16 = 0 && σ.delivers caller callee n dest t && rest.all Instr.isQuiet
  | .ret :: _, _ => true
  | i :: rest, σ =>
      i.storesAbove && (σ.step i).any fun σ' => disciplined caller callee n dest rest σ'.interrupt

/-- No word is told below the stack pointer, so that there is nothing for an interrupt to take
away. -/
def SymState.Settled (σ : SymState) : Prop := ∀ d v, σ.word d = some v → σ.sp ≤ d ∧ Near σ.sp

theorem SymState.settled_interrupt (σ : SymState) : σ.interrupt.Settled := by
  intro d v h
  simp only [SymState.interrupt, SymState.keep] at h
  split at h
  case isTrue hd => exact hd
  case isFalse => cases h

section

variable {caller callee : Convention} {n : Nat} {dest : Dest} {s t : State} {σ : SymState}

theorem Describes.forget (hd : Describes s s σ t) : Describes s s σ.interrupt t :=
  hd.keep rfl fun _ _ _ => rfl

/-- An interrupt changes nothing that a settled state tells. -/
theorem Describes.interrupt {m : Memory} (hd : Describes s s σ t) (hset : σ.Settled)
    (hm : ∀ x, ¬ Below (t.reg .rsp) x → m x = t.mem x) :
    Describes s s σ { t with mem := m } where
  rsp := hd.rsp
  reg := hd.reg
  word d v h := by
    rw [← hd.word d v h]
    apply Memory.load_congr
    intro i hi
    obtain ⟨habove, hsp⟩ := hset d v h
    have hnear := σ.near h
    have hback := toNat_offset_sub (s.reg .rsp) (d + i) σ.sp
    apply hm
    rw [offset_offset, Below, hd.rsp, hback]
    omega

/-- What the check says of an instruction that is not a call or a return. -/
theorem SymState.disciplined_plain {i : Instr} {code : List Instr} {t' : State}
    (hstep : i.step t = some t')
    (h : disciplined caller callee n dest (i :: code) σ = true) :
    i.storesAbove = true ∧ ∃ σ', σ.step i = some σ' ∧
      disciplined caller callee n dest code σ'.interrupt = true := by
  have hrest : (i.storesAbove && (σ.step i).any fun σ' =>
      disciplined caller callee n dest code σ'.interrupt) = true := by
    cases i with
    | call | ret => cases hstep
    | mov | load | store | add | push | pop => exact h
  rw [Bool.and_eq_true, Option.any_eq_true] at hrest
  exact hrest

/-- What holds of a configuration all along: up to the call a symbolic state that passes the
check describes it, and from then on the code is quiet. -/
def Config.Fine (caller callee : Convention) (n : Nat) (dest : Dest) (s : State)
    (c : Config) : Prop :=
  (∃ σ : SymState, Describes s s σ c.state ∧ σ.Settled ∧
    SymState.disciplined caller callee n dest c.code σ = true) ∨
  c.code.all Instr.isQuiet = true

theorem Config.Fine.step {top : UInt64} {c c' : Config} (hc : c.Fine caller callee n dest s)
    (h : Step callee n top c c') : c'.Fine caller callee n dest s := by
  cases h with
  | @plain i code t t' hstep =>
      rcases hc with ⟨σ, hd, -, hchk⟩ | hquiet
      · obtain ⟨-, σ', hσ, hchk'⟩ := SymState.disciplined_plain hstep hchk
        obtain ⟨t₁, ht₁, hd'⟩ := hd.step hσ
        obtain rfl : t' = t₁ := Option.some.inj (hstep.symm.trans ht₁)
        exact .inl ⟨_, hd'.forget, σ'.settled_interrupt, hchk'⟩
      · rw [List.all_cons, Bool.and_eq_true] at hquiet
        exact .inr hquiet.2
  | @call tgt code t r hret =>
      rcases hc with ⟨σ, hd, -, hchk⟩ | hquiet
      · rw [SymState.disciplined, Bool.and_eq_true] at hchk
        exact .inr hchk.2
      · rw [List.all_cons, Instr.isQuiet] at hquiet
        cases hquiet
  | interrupt hm =>
      rcases hc with ⟨σ, hd, hset, hchk⟩ | hquiet
      · exact .inl ⟨σ, hd.interrupt hset hm, hset, hchk⟩
      · exact .inr hquiet

theorem not_below {a : UInt64} {d : Int} (h : 0 ≤ d ∧ d < 2 ^ 63) : ¬ Below a (offset a d) := by
  have hback := toNat_offset_sub a d 0
  rw [offset_zero] at hback
  rw [Below, hback]
  omega

theorem below_offset {a : UInt64} {d : Int} (h : -2 ^ 63 ≤ d ∧ d < 0) : Below a (offset a d) := by
  have hback := toNat_offset_sub a d 0
  rw [offset_zero] at hback
  rw [Below, hback]
  omega

theorem not_storesBelow {i : Instr} (t : State) (h : i.storesAbove = true) :
    ¬ i.StoresBelow t := by
  cases i with
  | store src disp base =>
      simp only [Instr.storesAbove, Bool.and_eq_true, decide_eq_true_eq] at h
      rintro ⟨i, hi, hbelow⟩
      rw [h.1.1] at hbelow
      exact not_below (by omega) hbelow
  | mov | load | add | push | pop | call | ret => exact id

theorem Config.Fine.ok {c : Config} (hentry : (s.reg .rsp).toNat % 16 = 8)
    (hc : c.Fine caller callee n dest s) : c.Ok caller callee n dest s := by
  obtain ⟨code, t⟩ := c
  have hcall : ∀ tgt rest, code = .call tgt :: rest →
      16 ∣ (t.reg .rsp).toNat ∧ Delivers caller callee n dest s tgt t := by
    rintro tgt rest rfl
    rcases hc with ⟨σ, hd, -, hchk⟩ | hquiet
    · simp only [SymState.disciplined, Bool.and_eq_true, decide_eq_true_eq] at hchk
      have hrsp : t.reg .rsp = offset (s.reg .rsp) σ.sp := hd.rsp
      have hsp := toNat_offset (s.reg .rsp) σ.sp
      refine ⟨?_, hd.delivers hchk.1.2⟩
      rw [hrsp]
      omega
    · rw [List.all_cons, Instr.isQuiet] at hquiet
      cases hquiet
  refine ⟨fun tgt rest h => (hcall tgt rest h).1, ?_, fun tgt rest h => (hcall tgt rest h).2⟩
  rintro i rest rfl
  apply not_storesBelow
  rcases hc with ⟨σ, hd, -, hchk⟩ | hquiet
  · cases i with
    | store src disp base => exact (SymState.disciplined_plain (t := t) rfl hchk).1
    | mov | load | add | push | pop | call | ret => rfl
  · cases i with
    | store src disp base =>
        rw [List.all_cons, Instr.isQuiet] at hquiet
        cases hquiet
    | mov | load | add | push | pop | call | ret => rfl

/-- **Code that passes the check is disciplined**, whatever the state it is entered in, as long as
the stack has the alignment of an entry. -/
theorem disciplined_of_sym {code : List Instr} (hentry : (s.reg .rsp).toNat % 16 = 8)
    (h : SymState.disciplined caller callee n dest code SymState.entry.interrupt = true) :
    Disciplined caller callee n dest code s := by
  intro c hrun
  apply Config.Fine.ok hentry
  induction hrun with
  | refl =>
      exact .inl ⟨_, (Describes.entry s s).forget, SymState.settled_interrupt _, h⟩
  | tail _ hstep ih => exact ih.step hstep

end

/-! ## Runs without interrupts -/

theorem reaches_advance {callee : Convention} {n : Nat} {top : UInt64} {code rest : List Instr}
    {s t : State} (h : advance code s = (rest, t)) :
    ReflTransGen (Step callee n top) ⟨code, s⟩ ⟨rest, t⟩ := by
  induction code generalizing s with
  | nil =>
      cases h
      exact .refl
  | cons i code ih =>
      rw [advance] at h
      split at h
      case h_1 s' hstep => exact .head (.plain hstep) (ih h)
      case h_2 =>
        cases h
        exact .refl

end LoliLoader.X86
