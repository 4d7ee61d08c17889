/-
# LoliLoader.Main.Prompts -- what a prompt does to the machine

A prompt takes keys and makes calls for them; all else of the machine is left alone. Only the first
key of a prompt has the timeout.

`Asked` says this between two states. It lists the calls that were made while keys were waited for,
and has every other part of the machine in common; prompts that follow each other add up, as long as
only the first one of them has a timeout.

The loop that reads a line has no bound in the source. Each of its turns takes a key, so it is given
one turn more than there are keys. When there are none left the program waits for good, which is one
of the ways to stop (`Stops`). The other is a panic, because the timer could not be set up.

Whether a key arrives in time is not decided by anything here. A prompt without a timeout never
expires (`timeout_of_eof`).
-/
import LoliLoader.Main.Program
import LoliLoader.Runs.Ensures

namespace LoliLoader.Main

open C Menu Boot Interaction Runs

/-! ## Timers -/

/-- The times that timers have been set to, over all calls so far. -/
def Machine.timers (m : Machine) : List UInt64 := m.calls.filterMap InputCall.timerSet

/-- The timers of a prompt with this timeout: none, or one that is set to its trigger time. -/
def PromptTimers (timeout : Int32) (timers : List UInt64) : Prop :=
  timers = [] ∨ timeout ≠ 0 ∧ timers = [triggerTime timeout]

/-- Between two states there is nothing but prompts; the first of them has the timeout, the others
have none. -/
structure Asked (timeout : Int32) (m m' : Machine) : Prop where
  env : m'.firmware.env = m.firmware.env
  rounds : m'.rounds = m.rounds
  started : m'.started = m.started
  timers : ∃ ts, m'.timers = m.timers ++ ts ∧ PromptTimers timeout ts
  keys : m'.keys.length ≤ m.keys.length

section

variable {timeout : Int32} {m m' m'' : Machine}

theorem Asked.refl (timeout : Int32) (m : Machine) : Asked timeout m m :=
  ⟨rfl, rfl, rfl, ⟨[], (List.append_nil _).symm, Or.inl rfl⟩, Nat.le_refl _⟩

theorem Asked.trans (h : Asked timeout m m') (h' : Asked 0 m' m'') : Asked timeout m m'' where
  env := h'.env.trans h.env
  rounds := h'.rounds.trans h.rounds
  started := h'.started.trans h.started
  timers := by
    obtain ⟨ts, hts, hprompt⟩ := h.timers
    obtain ⟨ts', hts', rfl | ⟨hzero, -⟩⟩ := h'.timers
    · exact ⟨ts, by rw [hts', hts, List.append_nil], hprompt⟩
    · exact absurd rfl hzero
  keys := Nat.le_trans h'.keys h.keys

/-- What is asked without a timeout may also come first. -/
theorem Asked.before (h : Asked 0 m m') (h' : Asked timeout m' m'') : Asked timeout m m'' where
  env := h'.env.trans h.env
  rounds := h'.rounds.trans h.rounds
  started := h'.started.trans h.started
  timers := by
    obtain ⟨ts, hts, rfl | ⟨hzero, -⟩⟩ := h.timers
    · obtain ⟨ts', hts', hprompt⟩ := h'.timers
      exact ⟨ts', by rw [hts', hts, List.append_nil], hprompt⟩
    · exact absurd rfl hzero
  keys := Nat.le_trans h'.keys h.keys

/-- What is printed is seen on the console only. -/
theorem ensures_print (out : List Output) (m : Machine) {E : Halt → Machine → Prop} :
    Ensures (print out) m (fun _ m' => Asked 0 m m' ∧ m'.keys = m.keys) E :=
  ⟨⟨rfl, rfl, rfl, ⟨[], (List.append_nil _).symm, Or.inl rfl⟩, Nat.le_refl _⟩, rfl⟩

/-- The program stops, in `panic` or because no key is pressed any more. -/
def Stops (timeout : Int32) (m : Machine) (e : Halt) (m' : Machine) : Prop :=
  Asked timeout m m' ∧ (e = .panicked ∨ e = .waiting ∧ m'.keys = [])

theorem Asked.stops {e : Halt} (h : Asked timeout m m') (h' : Stops 0 m' e m'') :
    Stops timeout m e m'' := ⟨h.trans h'.1, h'.2⟩

theorem ensures_panic {α : Type} (msg : String) (m : Machine) {Q : α → Machine → Prop} :
    Ensures (panic msg) m Q (fun e m' => Asked 0 m m' ∧ e = .panicked) := by
  refine (ensures_print _ m).bind fun _ m₁ h₁ => ?_
  refine (ensures_print _ m₁).bind fun _ m₂ h₂ => ?_
  exact ensures_throw ⟨h₁.1.trans h₂.1, rfl⟩

/-! ## Keys -/

/-- The timers of a key. -/
theorem promptTimers_getchar (timeout : Int32) (a : KeyAnswers) :
    PromptTimers timeout
      ((Interaction.getcharTimeout timeout a).1.filterMap InputCall.timerSet) := by
  unfold Interaction.getcharTimeout
  split
  · exact Or.inl (waitForKey_timers false a)
  · rename_i hne
    split
    · exact Or.inl rfl
    · dsimp only
      split
      · exact Or.inr ⟨hne, rfl⟩
      · right
        rw [List.filterMap_append, waitForKey_timers]
        exact ⟨hne, rfl⟩

/-- Only with a timeout is there an `EOF`. -/
theorem timeout_of_eof {a : KeyAnswers} (h : (Interaction.getcharTimeout timeout a).2 = .eof) :
    timeout ≠ 0 := by
  rintro rfl
  rw [Interaction.getcharTimeout, if_pos rfl] at h
  unfold waitForKey at h
  dsimp only at h
  split at h
  · cases h
  · split at h
    · rename_i hc
      cases hc.1
    · split at h <;> cases h

/-- **A key** is taken, or the program stops; without a timeout there is always a character. -/
theorem ensures_getcharTimeout (timeout : Int32) (m : Machine) :
    Ensures (getcharTimeout timeout) m
      (fun c m' => Asked timeout m m' ∧ m'.keys.length + 1 = m.keys.length ∧
        (c = none → timeout ≠ 0))
      (Stops timeout m) := by
  unfold Ensures getcharTimeout
  cases hkeys : m.keys with
  | nil => exact ⟨.refl timeout m, Or.inr ⟨rfl, hkeys⟩⟩
  | cons a keys =>
      dsimp only
      have hasked : Asked timeout m { m with
          keys := keys, calls := m.calls ++ (Interaction.getcharTimeout timeout a).1 } := by
        refine ⟨rfl, rfl, rfl, ⟨_, List.filterMap_append, promptTimers_getchar timeout a⟩, ?_⟩
        rw [hkeys]
        exact Nat.le_succ _
      cases hc : (Interaction.getcharTimeout timeout a).2 with
      | panic msg =>
          have hpanic : Ensures (panic msg : Program (Option Nat)) _
              (fun c m' => Asked timeout m m' ∧ m'.keys.length + 1 = keys.length + 1 ∧
                (c = none → timeout ≠ 0)) (Stops timeout m) :=
            (ensures_panic msg _).imp (fun _ _ h => h) fun e m' ⟨hprinted, he⟩ =>
              ⟨hasked.trans hprinted, Or.inl he⟩
          exact hpanic
      | eof => exact ⟨hasked, rfl, fun _ => timeout_of_eof hc⟩
      | char c => exact ⟨hasked, rfl, fun hnone => by cases hnone⟩

/-! ## Lines -/

/-- **A line** takes keys, and it is null only if it was given a timeout; with a turn for every key
the loop comes to its end, or the program stops. -/
theorem ensures_getlineLoop {turns : Nat} (s : List UInt8) (h : m.keys.length < turns) :
    Ensures (getlineLoop turns timeout s) m
      (fun answer m' => Asked timeout m m' ∧ m'.keys.length < m.keys.length ∧
        (answer = none → timeout ≠ 0))
      (Stops timeout m) := by
  induction turns generalizing timeout s m with
  | zero => exact absurd h (Nat.not_lt_zero _)
  | succ turns ih =>
      refine (ensures_getcharTimeout timeout m).bind fun c m₁ ⟨hasked, hkeys, heof⟩ => ?_
      -- what is left of the line, from a state between
      have hrest : ∀ {m₂ : Machine} (s : List UInt8), Asked timeout m m₂ → m₂.keys = m₁.keys →
          Ensures (getlineLoop turns 0 s) m₂
            (fun answer m' => Asked timeout m m' ∧ m'.keys.length < m.keys.length ∧
              (answer = none → timeout ≠ 0))
            (Stops timeout m) := by
        intro m₂ s hasked₂ hkeys₂
        have hlen := congrArg List.length hkeys₂
        refine (ih s (by omega)).imp ?_ fun e m' hstop => hasked₂.stops hstop
        rintro answer m' ⟨hasked₃, hkeys₃, hnone⟩
        exact ⟨hasked₂.trans hasked₃, by omega, fun hc => absurd rfl (hnone hc)⟩
      cases c with
      | none => exact ensures_pure ⟨hasked, by omega, fun _ => heof rfl⟩
      | some c =>
          dsimp only
          split
          · refine (ensures_print _ m₁).bind fun _ m₂ h₂ => ?_
            exact hrest _ (hasked.trans h₂.1) h₂.2
          · split
            · split
              · exact hrest s hasked rfl
              · refine (ensures_print _ m₁).bind fun _ m₂ h₂ => ?_
                refine ensures_pure ⟨hasked.trans h₂.1, ?_, fun hnone => by cases hnone⟩
                rw [h₂.2]
                omega
            · refine (ensures_print _ m₁).bind fun _ m₂ h₂ => ?_
              exact hrest _ (hasked.trans h₂.1) h₂.2

/-- **A prompt** gives an answer and what it stands for, and it takes a key at least; without a
timeout there is always a line. -/
theorem ensures_waitForBootEntry (timeout : Int32) (m : Machine) :
    Ensures (waitForBootEntry timeout) m
      (fun r m' => Asked timeout m m' ∧ m'.keys.length < m.keys.length ∧
        (r.1 = none → timeout ≠ 0) ∧ Menu.waitForBootEntry r.1 = .ok r.2)
      (Stops timeout m) := by
  refine (ensures_print _ m).bind fun _ m₁ ⟨h₁, hkeys₁⟩ => ?_
  have hline : Ensures (getlineTimeout timeout) m₁
      (fun answer m' => Asked timeout m m' ∧ m'.keys.length < m.keys.length ∧
        (answer = none → timeout ≠ 0))
      (Stops timeout m) := by
    refine (ensures_get (Q := fun a m' => a = m₁ ∧ m' = m₁) ⟨rfl, rfl⟩).bind ?_
    rintro a m' ⟨ha, hm'⟩
    rw [ha, hm']
    refine (ensures_getlineLoop [] (Nat.lt_succ_self _)).imp ?_ fun e m' hstop =>
      ⟨h₁.before hstop.1, hstop.2⟩
    rintro answer m' ⟨hasked, hkeys, hnone⟩
    rw [hkeys₁] at hkeys
    exact ⟨h₁.before hasked, hkeys, hnone⟩
  refine hline.bind fun answer m₂ ⟨hasked, hkeys, hnone⟩ => ?_
  obtain ⟨selected, hselected, -⟩ := waitForBootEntry_eq answer
  rw [hselected]
  exact ensures_pure ⟨hasked, hkeys, hnone, hselected⟩

end

end LoliLoader.Main
