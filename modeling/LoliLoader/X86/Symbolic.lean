/-
# LoliLoader.X86.Symbolic -- running code on every state at once

A symbolic state says of each register and of the words around the stack pointer which register or
word of the entry state they hold. Running code on it is a computation, and what it finds holds of
the run from every state.

The code of the stubs only moves values around, so every value is one of the entry state, or one
that the callee has returned. A `Sym` names it. The stack pointer is told as a distance from where
it was on entry, and words are followed at multiples of eight bytes near it; what is stored anywhere
else makes the symbolic run fail.

`Describes` relates a symbolic state to a real one, and `Describes.step` says that an instruction
keeps the relation. That is the only place where registers and memory are looked at.
`forwards_of_sym` is the conclusion: if the symbolic run forwards its call, which is decided by
evaluation, then so does the run from every state.

The method needs code without branches. It would fail, and not give a wrong answer, where a value is
computed.
-/
import LoliLoader.X86.Convention

namespace LoliLoader.X86

/-- A value of the entry state, the word at a distance from its stack pointer included, or a
register as a callee returned it. -/
inductive Sym where
  | reg (r : Reg)
  | word (d : Int)
  | returned (r : Reg)
  deriving DecidableEq, Repr

/-- The value that is meant, given the entry state and the state in which the callee has
returned. -/
def Sym.value (s r : State) : Sym → UInt64
  | reg q => s.reg q
  | word d => s.mem.load (offset (s.reg .rsp) d)
  | returned q => r.reg q

/-- The distances from the stack pointer at which words are followed. -/
abbrev Near (d : Int) : Prop := 8 ∣ d ∧ -2 ^ 32 ≤ d ∧ d ≤ 2 ^ 32

/-- A state, told in values of the entry state.  The register `rsp` is told apart from the
others, as a distance. -/
structure SymState where
  sp : Int
  reg : Reg → Sym
  word : Int → Option Sym
  near : ∀ {d v}, word d = some v → Near d

namespace SymState

def entry : SymState where
  sp := 0
  reg := .reg
  word d := if Near d then some (.word d) else none
  near h := by
    by_contra hfar
    rw [if_neg hfar] at h
    cases h

def setReg (σ : SymState) (q : Reg) (v : Sym) : SymState :=
  { σ with reg := Function.update σ.reg q v }

def setSp (σ : SymState) (d : Int) : SymState := { σ with sp := d }

/-- The words at which `p` fails are forgotten. -/
def keep (σ : SymState) (p : Int → Prop) [DecidablePred p] : SymState :=
  { σ with
    word := fun d => if p d then σ.word d else none
    near := by
      intro d v h
      split at h
      · exact σ.near h
      · cases h }

/-- The value `v` is stored at the distance `d`. -/
def put (σ : SymState) (d : Int) (v : Sym) : Option SymState :=
  if hd : Near d then
    some { σ with
      word := Function.update σ.word d (some v)
      near := by
        intro d' v' h
        by_cases hsame : d' = d
        · rwa [hsame]
        · rw [Function.update_of_ne hsame] at h
          exact σ.near h }
  else none

/-- `Instr.step` told symbolically, where memory is only reached through `rsp`. -/
def step : Instr → SymState → Option SymState
  | .mov src dst, σ =>
      if src ≠ .rsp ∧ dst ≠ .rsp then some (σ.setReg dst (σ.reg src)) else none
  | .load disp base dst, σ =>
      if base = .rsp ∧ dst ≠ .rsp then (σ.word (σ.sp + disp)).map (σ.setReg dst) else none
  | .store src disp base, σ =>
      if base = .rsp ∧ src ≠ .rsp then σ.put (σ.sp + disp) (σ.reg src) else none
  | .add imm dst, σ => if dst = .rsp then some (σ.setSp (σ.sp + imm)) else none
  | .push src, σ =>
      if src ≠ .rsp then (σ.setSp (σ.sp - 8)).put (σ.sp - 8) (σ.reg src) else none
  | .pop dst, σ =>
      if dst ≠ .rsp then (σ.word σ.sp).map ((σ.setSp (σ.sp + 8)).setReg dst) else none
  | .call _, _ => none
  | .ret, _ => none

/-- The state after the return of a call, when the caller's frame ends at `top`. -/
def afterCall (conv : Convention) (n : Nat) (top : Int) (σ : SymState) : SymState :=
  { σ.keep fun d => σ.sp + conv.area n ≤ d ∧ d + 8 ≤ top ∧ Near σ.sp with
    reg := fun q => if q ∈ conv.preserved then σ.reg q else .returned q }

end SymState

/-! ## Soundness -/

/-- The state `t` is as `σ` says, for the entry state `s` and the returned state `r`. Of words that
are not told it may have any. -/
structure Describes (s r : State) (σ : SymState) (t : State) : Prop where
  rsp : t.reg .rsp = offset (s.reg .rsp) σ.sp
  reg : ∀ q, q ≠ .rsp → t.reg q = (σ.reg q).value s r
  word : ∀ d v, σ.word d = some v → t.mem.load (offset (s.reg .rsp) d) = v.value s r

namespace Describes

variable {s r t t' : State} {σ σ' : SymState}

theorem entry (s r : State) : Describes s r .entry s where
  rsp := (offset_zero _).symm
  reg _ _ := rfl
  word d v h := by
    simp only [SymState.entry] at h
    split at h
    · cases h
      rfl
    · cases h

theorem setReg {q : Reg} {v : Sym} {x : UInt64} (hd : Describes s r σ t) (hq : q ≠ .rsp)
    (hv : x = v.value s r) : Describes s r (σ.setReg q v) (t.set q x) where
  rsp := by
    rw [State.reg_set_of_ne _ _ (Ne.symm hq)]
    exact hd.rsp
  reg p hp := by
    simp only [SymState.setReg]
    by_cases hpq : p = q
    · rw [hpq, State.reg_set_self, Function.update_self]
      exact hv
    · rw [State.reg_set_of_ne _ _ hpq, Function.update_of_ne hpq]
      exact hd.reg p hp
  word := hd.word

theorem setSp {d : Int} (hd : Describes s r σ t) :
    Describes s r (σ.setSp d) (t.set .rsp (offset (s.reg .rsp) d)) where
  rsp := State.reg_set_self ..
  reg p hp := by
    rw [State.reg_set_of_ne _ _ hp]
    exact hd.reg p hp
  word := hd.word

theorem put {d : Int} {v : Sym} {x : UInt64} (hd : Describes s r σ t)
    (hput : σ.put d v = some σ') (hv : x = v.value s r) :
    Describes s r σ' (t.store (offset (s.reg .rsp) d) x) := by
  rw [SymState.put] at hput
  split at hput
  case isFalse => cases hput
  case isTrue hnear =>
    cases hput
    refine ⟨hd.rsp, hd.reg, ?_⟩
    intro d' v' h
    rw [State.mem_store]
    by_cases hsame : d' = d
    · subst hsame
      simp only [Function.update_self, Option.some.injEq] at h
      rw [Memory.load_store, hv, h]
    · simp only [Function.update_of_ne hsame] at h
      have hnear' := σ.near h
      rw [Memory.load_store_apart _ _ (by omega) (by omega)]
      exact hd.word d' v' h

/-- Fewer words are known of a state that has kept those. -/
theorem keep {p : Int → Prop} [DecidablePred p] (hd : Describes s r σ t)
    (hreg : t'.reg = t.reg)
    (hmem : ∀ d, p d → Near d → t'.mem.load (offset (s.reg .rsp) d)
      = t.mem.load (offset (s.reg .rsp) d)) : Describes s r (σ.keep p) t' where
  rsp := hreg ▸ hd.rsp
  reg := hreg ▸ hd.reg
  word d v h := by
    simp only [SymState.keep] at h
    split at h
    case isFalse => cases h
    case isTrue hp =>
      rw [hmem d hp (σ.near h)]
      exact hd.word d v h

/-- **An instruction does to every state what it does to the symbolic one.** -/
theorem step {i : Instr} (hd : Describes s r σ t) (hstep : σ.step i = some σ') :
    ∃ t', i.step t = some t' ∧ Describes s r σ' t' := by
  cases i with
  | mov src dst =>
      simp only [SymState.step] at hstep
      split at hstep
      case isFalse => cases hstep
      case isTrue h =>
        cases hstep
        exact ⟨_, rfl, hd.setReg h.2 (hd.reg src h.1)⟩
  | load disp base dst =>
      simp only [SymState.step] at hstep
      split at hstep
      case isFalse => cases hstep
      case isTrue h =>
        obtain ⟨v, hv, rfl⟩ := Option.map_eq_some_iff.mp hstep
        refine ⟨_, rfl, hd.setReg h.2 ?_⟩
        rw [h.1, hd.rsp, offset_offset]
        exact hd.word _ v hv
  | store src disp base =>
      simp only [SymState.step] at hstep
      split at hstep
      case isFalse => cases hstep
      case isTrue h =>
        refine ⟨_, rfl, ?_⟩
        rw [h.1, hd.rsp, offset_offset]
        exact hd.put hstep (hd.reg src h.2)
  | add imm dst =>
      simp only [SymState.step] at hstep
      split at hstep
      case isFalse => cases hstep
      case isTrue h =>
        cases hstep
        refine ⟨_, rfl, ?_⟩
        rw [h, hd.rsp, offset_offset]
        exact hd.setSp
  | push src =>
      simp only [SymState.step] at hstep
      split at hstep
      case isFalse => cases hstep
      case isTrue h =>
        refine ⟨_, rfl, ?_⟩
        rw [hd.rsp, offset_offset]
        exact hd.setSp.put hstep (hd.reg src h)
  | pop dst =>
      simp only [SymState.step] at hstep
      split at hstep
      case isFalse => cases hstep
      case isTrue h =>
        obtain ⟨v, hv, rfl⟩ := Option.map_eq_some_iff.mp hstep
        refine ⟨_, rfl, ?_⟩
        rw [hd.rsp, offset_offset]
        exact hd.setSp.setReg h (hd.word _ v hv)
  | call target => cases hstep
  | ret => cases hstep

/-- A callee's return. -/
theorem afterCall {conv : Convention} {n : Nat} {top : Int} (hd : Describes s r σ t)
    (htop : -2 ^ 32 ≤ top ∧ top ≤ 2 ^ 32)
    (hret : conv.Returns n (offset (s.reg .rsp) top) t r) :
    Describes s r (σ.afterCall conv n top) r where
  rsp := hret.rsp.trans hd.rsp
  reg q hq := by
    simp only [SymState.afterCall]
    split
    case isTrue hkept => rw [hret.preserved q hkept, hd.reg q hq]
    case isFalse => rfl
  word d v h := by
    simp only [SymState.afterCall, SymState.keep] at h
    split at h
    case isFalse => cases h
    case isTrue hin =>
      have hnear := σ.near h
      rw [← hd.word d v h]
      apply Memory.load_congr
      intro i hi
      have hback := toNat_offset_sub (s.reg .rsp) (d + i) σ.sp
      have htopback := toNat_offset_sub (s.reg .rsp) top σ.sp
      rw [offset_offset]
      apply hret.frame
      · rw [hd.rsp, hback]
        omega
      · rw [hd.rsp, hback, htopback]
        omega

end Describes

/-! ## Straight-line runs -/

/-- `advance` on a symbolic state; nothing if there is an instruction that it has no step for. -/
def SymState.advance : List Instr → SymState → Option (List Instr × SymState)
  | [], σ => some ([], σ)
  | .call t :: code, σ => some (.call t :: code, σ)
  | .ret :: code, σ => some (.ret :: code, σ)
  | i :: code, σ => (σ.step i).bind (advance code)

theorem advance_of_step {i : Instr} {s s' : State} (code : List Instr)
    (h : i.step s = some s') : advance (i :: code) s = advance code s' := by
  rw [advance, h]

/-- **A symbolic run tells where the run from every state gets to**, and what is in registers and
memory there. -/
theorem Describes.advance {code rest : List Instr} {s r t : State} {σ σ' : SymState}
    (hd : Describes s r σ t) (hrun : SymState.advance code σ = some (rest, σ')) :
    ∃ t', advance code t = (rest, t') ∧ Describes s r σ' t' := by
  induction code generalizing σ t with
  | nil =>
      cases hrun
      exact ⟨t, rfl, hd⟩
  | cons i code ih =>
      have hplain : (σ.step i).bind (SymState.advance code) = some (rest, σ') →
          ∃ t', X86.advance (i :: code) t = (rest, t') ∧ Describes s r σ' t' := by
        intro h
        obtain ⟨σ₁, hstep, hrun₁⟩ := Option.bind_eq_some_iff.mp h
        obtain ⟨t₁, hstep₁, hd₁⟩ := hd.step hstep
        rw [advance_of_step code hstep₁]
        exact ih hd₁ hrun₁
      cases i with
      | call target =>
          cases hrun
          exact ⟨t, rfl, hd⟩
      | ret =>
          cases hrun
          exact ⟨t, rfl, hd⟩
      | mov | load | store | add | push | pop => exact hplain hrun

/-! ## Forwarding, checked -/

namespace SymState

/-- `Convention.arg` of a symbolic state, if the word is one that is told. -/
def arg (conv : Convention) (skip : Int) (k : Nat) (σ : SymState) : Option Sym :=
  if h : k < conv.argRegs.length then some (σ.reg (conv.argRegs.get ⟨k, h⟩))
  else σ.word (σ.sp + (skip + conv.area k))

/-- The value passed as argument `k` on entry, behind the return address. -/
def argAtEntry (conv : Convention) (k : Nat) : Option Sym := entry.arg conv 8 k

/-- `Target.GoesTo`, told symbolically: the register holds the argument that is the function, or the
symbol is the one that is meant. -/
def goesTo (caller : Convention) (σ : SymState) : Target → Dest → Bool
  | .reg q, .argument k => q ≠ .rsp && argAtEntry caller k = some (σ.reg q)
  | .symbol name, .symbol name' => name = name'
  | _, _ => false

/-- `Delivers`, told symbolically: each argument is where the callee looks for it. -/
def delivers (caller callee : Convention) (n : Nat) (dest : Dest) (t : Target)
    (σ : SymState) : Bool :=
  σ.goesTo caller t dest &&
    (List.range n).all fun k =>
      (argAtEntry caller k).isSome && σ.arg callee 0 k = argAtEntry caller k

/-- `GivesBack`, told symbolically: the stack, the result and the registers that are preserved. -/
def givesBack (caller : Convention) (σ : SymState) : Bool :=
  σ.sp = 0 && σ.word 0 = some (.word 0) && σ.reg .rax = .returned .rax &&
    caller.preserved.all fun q => q ≠ .rsp && σ.reg q = .reg q

/-- `Forwards`, told symbolically, as a check that can be evaluated: the run up to the call, the
call, and the run up to the return. -/
def forwards (caller callee : Convention) (n : Nat) (dest : Dest) (code : List Instr) : Bool :=
  match advance code entry with
  | some (.call t :: rest, σ) =>
      σ.delivers caller callee n dest t &&
        match advance rest (σ.afterCall callee n 8) with
        | some ([.ret], σ') => σ'.givesBack caller
        | _ => false
  | _ => false

end SymState

theorem Describes.arg {conv : Convention} {s r t : State} {σ : SymState}
    {skip : Int} {k : Nat} {v : Sym} (hd : Describes s r σ t) (h : σ.arg conv skip k = some v) :
    conv.arg skip k t = v.value s r := by
  rw [SymState.arg] at h
  rw [Convention.arg]
  split at h
  case isTrue hk =>
    cases h
    rw [dif_pos hk]
    exact hd.reg _ (conv.argRegs_ne _ (List.get_mem ..))
  case isFalse hk =>
    rw [dif_neg hk, hd.rsp, offset_offset]
    exact hd.word _ v h

section

variable {caller callee : Convention}

theorem argAtEntry_of_sym {k : Nat} {v : Sym} (s r : State)
    (h : SymState.argAtEntry caller k = some v) : caller.argAtEntry k s = v.value s r :=
  (Describes.entry s r).arg h

theorem Describes.goesTo {s r c : State} {σ : SymState} {t : Target} {dest : Dest}
    (hd : Describes s r σ c) (h : σ.goesTo caller t dest = true) :
    t.GoesTo caller s c dest := by
  cases t with
  | reg q =>
      cases dest with
      | argument k =>
          simp only [SymState.goesTo, Bool.and_eq_true, decide_eq_true_eq] at h
          show c.reg q = caller.argAtEntry k s
          rw [hd.reg q h.1, argAtEntry_of_sym s r h.2]
      | symbol name => cases h
  | symbol name =>
      cases dest with
      | argument k => cases h
      | symbol name' =>
          show name = name'
          exact of_decide_eq_true h

theorem Describes.delivers {s r c : State} {σ : SymState} {n : Nat} {t : Target} {dest : Dest}
    (hd : Describes s r σ c) (h : σ.delivers caller callee n dest t = true) :
    Delivers caller callee n dest s t c := by
  simp only [SymState.delivers, Bool.and_eq_true, List.all_eq_true, List.mem_range,
    decide_eq_true_eq] at h
  refine ⟨hd.goesTo h.1, ?_⟩
  intro k hk
  obtain ⟨hsome, heq⟩ := h.2 k hk
  obtain ⟨v, hv⟩ := Option.isSome_iff_exists.mp hsome
  rw [argAtEntry_of_sym s r hv]
  exact hd.arg (heq.trans hv)

theorem Describes.givesBack {s r f : State} {σ : SymState} (hd : Describes s r σ f)
    (h : σ.givesBack caller = true) : GivesBack caller s r f := by
  simp only [SymState.givesBack, Bool.and_eq_true, List.all_eq_true, decide_eq_true_eq] at h
  obtain ⟨⟨⟨hsp, hword⟩, hrax⟩, hkept⟩ := h
  have hrsp : f.reg .rsp = s.reg .rsp := by rw [hd.rsp, hsp, offset_zero]
  have hra := hd.word 0 _ hword
  refine ⟨hrsp, ?_, ?_, ?_⟩
  · rw [offset_zero] at hra
    rw [hrsp, hra]
    show s.mem.load (offset _ 0) = _
    rw [offset_zero]
  · rw [hd.reg _ (by decide), hrax]
    rfl
  · intro q hq
    rw [hd.reg q (hkept q hq).1, (hkept q hq).2]
    rfl

/-- **Code that forwards the symbolic entry state forwards every state**, whatever is in its
registers and its memory. -/
theorem forwards_of_sym {n : Nat} {dest : Dest} {code : List Instr}
    (h : SymState.forwards caller callee n dest code = true) (s : State) :
    Forwards caller callee n dest code s := by
  rw [SymState.forwards] at h
  split at h
  case h_2 => cases h
  case h_1 t rest σ hrun =>
    rw [Bool.and_eq_true] at h
    obtain ⟨c, hc, hd⟩ := (Describes.entry s s).advance hrun
    refine ⟨t, rest, c, hc, hd.delivers h.1, ?_⟩
    intro r hret
    -- the same run, with the values that the callee will return
    obtain ⟨c', hc', hd'⟩ := (Describes.entry s r).advance hrun
    obtain rfl : c = c' := congrArg Prod.snd (hc.symm.trans hc')
    have hafter := h.2
    split at hafter
    case h_2 => cases hafter
    case h_1 σ' hrun' =>
      obtain ⟨f, hf, hdf⟩ := (hd'.afterCall (by decide) hret).advance hrun'
      exact ⟨f, hf, hdf.givesBack hafter⟩

end

end LoliLoader.X86
