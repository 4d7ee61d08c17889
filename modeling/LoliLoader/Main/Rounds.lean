/-
# LoliLoader.Main.Rounds -- the rounds of the menu

What one round of `cmdline_loop` does, and from that what any number of them do: every attempt is
one of the entry that was chosen, made on the machine that the attempt before it has left.

`Round.Sound` is about a single round and compares it with the configuration: the answer stands for
a number, and the attempt is on the entry that is listed under the number, or there is no attempt.
`Played` is about a run of rounds; it says that each is sound, that the attempts follow each other
(`Follows`), and that only the first prompt has the timeout.

The loop ends when an attempt succeeds. So where it returns, the last attempt has succeeded and no
other (`LoopReturns`), and where it stops, none has (`LoopStops`), or the attempt that was under way
has done what C code must not do.

The induction is over the turns, of which there is one more than there are keys. Rounds are put one
behind the other with `Played.append`; the machine in between is that which the earlier one has
left.
-/
import LoliLoader.Main.Prompts

namespace LoliLoader.Main

open C Extlinux Menu Boot Interaction Runs

/-! ## What holds of rounds -/

section

variable (ck : CharKind) (w : World) (cfg : CString) (ready : Ready)

/-- An attempt is `load_and_validate_entry` on the machine before it. -/
def Try.Made (t : Try) : Prop :=
  loadAndValidateEntry ck cfg t.entry w.vol t.answers t.before = .ok (t.result, t.after)

/-- The attempt has not succeeded, so that the menu asks again. -/
def Try.Failed (t : Try) : Prop := t.result.ret ≠ 0

/-- A round attempts the entry that is listed under the number that was chosen, and nothing if
there is none. -/
structure Round.Sound (r : Round) : Prop where
  attempted : ∀ t, r.attempt = some t → t.Made ck w cfg ∧
    ∃ (i : Nat) (item : Listed), chosen ready r.answer = some i ∧
      ready.listing[i]? = some item ∧ item.number = i ∧ t.entry = item.entry
  refused : r.attempt = none →
    ∀ i, chosen ready r.answer = some i → ready.listing.length ≤ i

/-- Each attempt starts in the environment that the one before it has left. -/
def Follows : Environment → List Try → Environment → Prop
  | env, [], env' => env' = env
  | env, t :: ts, env' => t.before.env = env ∧ Follows t.after.env ts env'

/-- Between two states there are these rounds, each of them sound; only the first one has the
timeout. -/
structure Played (timeout : Int32) (m : Machine) (rs : List Round) (m' : Machine) : Prop where
  rounds : m'.rounds = m.rounds ++ rs
  started : m'.started = m.started
  sound : ∀ r ∈ rs, r.Sound ck w cfg ready
  follows : Follows m.firmware.env (rs.filterMap Round.attempt) m'.firmware.env
  timers : ∃ ts, m'.timers = m.timers ++ ts ∧ PromptTimers timeout ts
  timedOut : ∀ k r, rs[k]? = some r → r.answer = none → k = 0 ∧ timeout ≠ 0

variable {ck w cfg ready} {timeout : Int32} {m m' m'' : Machine} {r : Round}
  {rs rs' : List Round} {env env' env'' : Environment} {ts ts' : List Try}

theorem Follows.append (h : Follows env ts env') (h' : Follows env' ts' env'') :
    Follows env (ts ++ ts') env'' := by
  induction ts generalizing env with
  | nil =>
      obtain rfl : env' = env := h
      exact h'
  | cons t ts ih => exact ⟨h.1, ih h.2⟩

/-- Prompts are no rounds. -/
theorem Asked.played_nil (h : Asked timeout m m') :
    Played ck w cfg ready timeout m [] m' where
  rounds := by rw [h.rounds, List.append_nil]
  started := h.started
  sound := fun r hr => absurd hr List.not_mem_nil
  follows := h.env
  timers := h.timers
  timedOut := fun k r hr => by simp at hr

/-- **A round behind the prompt**, which may have changed the environment only by its attempt. -/
theorem Asked.played (h : Asked timeout m m') (hrounds : m''.rounds = m'.rounds ++ [r])
    (hstarted : m''.started = m'.started) (htimers : m''.timers = m'.timers)
    (hsound : r.Sound ck w cfg ready)
    (hfollows : Follows m'.firmware.env r.attempt.toList m''.firmware.env)
    (hnone : r.answer = none → timeout ≠ 0) :
    Played ck w cfg ready timeout m [r] m'' where
  rounds := by rw [hrounds, h.rounds]
  started := hstarted.trans h.started
  sound := by
    rintro r hr
    rw [List.mem_singleton.mp hr]
    exact hsound
  follows := by
    have hlist : [r].filterMap Round.attempt = r.attempt.toList := by
      cases hattempt : r.attempt with
      | none => simp [hattempt]
      | some t => simp [hattempt]
    rw [hlist, ← h.env]
    exact hfollows
  timers := by
    rw [htimers]
    exact h.timers
  timedOut := by
    intro k r hr hanswer
    cases k with
    | zero =>
        obtain rfl := Option.some.inj hr
        exact ⟨rfl, hnone hanswer⟩
    | succ k => simp at hr

/-- **Rounds behind rounds**; the later ones have no timeout, so no timer is set in them. -/
theorem Played.append (h : Played ck w cfg ready timeout m rs m')
    (h' : Played ck w cfg ready 0 m' rs' m'') :
    Played ck w cfg ready timeout m (rs ++ rs') m'' where
  rounds := by rw [h'.rounds, h.rounds, List.append_assoc]
  started := h'.started.trans h.started
  sound := by
    intro r hr
    rcases List.mem_append.mp hr with hr | hr
    · exact h.sound r hr
    · exact h'.sound r hr
  follows := by
    rw [List.filterMap_append]
    exact h.follows.append h'.follows
  timers := by
    obtain ⟨ts, hts, hprompt⟩ := h.timers
    obtain ⟨ts', hts', rfl | ⟨hzero, -⟩⟩ := h'.timers
    · exact ⟨ts, by rw [hts', hts, List.append_nil], hprompt⟩
    · exact absurd rfl hzero
  timedOut := by
    intro k r hr hanswer
    by_cases hk : k < rs.length
    · rw [List.getElem?_append_left hk] at hr
      exact h.timedOut k r hr hanswer
    · rw [List.getElem?_append_right (Nat.le_of_not_lt hk)] at hr
      exact absurd rfl (h'.timedOut _ r hr hanswer).2

end

/-- Nothing is printed but on the console. -/
theorem Played.asked {ck : CharKind} {w : World} {cfg : CString} {ready : Ready} {timeout : Int32}
    {m m' m'' : Machine} {rs : List Round} (h : Played ck w cfg ready timeout m rs m')
    (h' : Asked 0 m' m'') : Played ck w cfg ready timeout m rs m'' := by
  have hboth := h.append h'.played_nil
  rwa [List.append_nil] at hboth

/-! ## One attempt -/

section

variable {ck : CharKind} {w : World} {cfg : CString} {m : Machine}

theorem ensures_onFirmware {α : Type} (x : Run α) {E : Halt → Machine → Prop}
    (hE : ∀ f, x m.firmware = .error f → E (.fault f) m) :
    Ensures (onFirmware x) m (fun a m' => ∃ fw, x m.firmware = .ok (a, fw) ∧
      m' = { m with firmware := fw }) E := by
  unfold Ensures onFirmware
  cases hx : x m.firmware with
  | error f => exact hE f hx
  | ok r => exact ⟨r.2, rfl, rfl⟩

theorem ensures_checked {α : Type} {x : Except Fault α} {a : α} {Q : α → Machine → Prop}
    {E : Halt → Machine → Prop} (hx : x = .ok a) (h : Q a m) : Ensures (checked x) m Q E := by
  rw [hx]
  exact h

/-- **An attempt** is recorded, with the machine that it starts from and the one that it leaves; if
it faults, so does the program. -/
theorem ensures_tryEntry (answer : Option CString) (p : Nat) {E : Halt → Machine → Prop}
    (hE : ∀ f, loadAndValidateEntry ck cfg p w.vol (w.attempts m.tries.length) m.firmware
      = .error f → E (.fault f) m) :
    Ensures (tryEntry ck w cfg answer (some p)) m
      (fun r m' => ∃ t : Try, t.entry = p ∧ t.before = m.firmware ∧ t.result = r ∧
        t.after = m'.firmware ∧ t.Made ck w cfg ∧ m'.rounds = m.rounds ++ [⟨answer, some t⟩] ∧
        m'.started = m.started ∧ m'.calls = m.calls ∧ m'.keys = m.keys) E := by
  refine (ensures_get (Q := fun a m' => a = m ∧ m' = m) ⟨rfl, rfl⟩).bind ?_
  rintro a m₁ ⟨ha, hm₁⟩
  rw [ha, hm₁]
  refine (ensures_onFirmware _ hE).bind ?_
  rintro r m₂ ⟨fw, hrun, hm₂⟩
  refine (ensures_get (Q := fun a m' => a = m₂ ∧ m' = m₂) ⟨rfl, rfl⟩).bind ?_
  rintro b m₃ ⟨hb, hm₃⟩
  rw [hb, hm₃, hm₂]
  exact ⟨⟨p, w.attempts m.tries.length, m.firmware, r, fw⟩, rfl, rfl, rfl, rfl, hrun, rfl, rfl, rfl,
    rfl⟩

end

/-! ## The loop -/

section

variable (ck : CharKind) (w : World) (cfg : CString) (ready : Ready)

/-- No attempt of these rounds has succeeded; some rounds may have had none. -/
def AllFailed (rs : List Round) : Prop := ∀ t ∈ rs.filterMap Round.attempt, t.Failed

/-- A fault is one of the next attempt, on the machine as it is. -/
def FaultOf (m : Machine) (f : Fault) : Prop :=
  ∃ p ∈ entryPositions cfg,
    loadAndValidateEntry ck cfg p w.vol (w.attempts m.tries.length) m.firmware = .error f

/-- Where the loop stops, no attempt has succeeded. -/
def LoopStops (timeout : Int32) (m : Machine) (e : Halt) (m' : Machine) : Prop :=
  ∃ rs, Played ck w cfg ready timeout m rs m' ∧ AllFailed rs ∧
    ((∃ f, e = .fault f ∧ FaultOf ck w cfg m' f) ∨ e = .panicked ∨ e = .waiting ∧ m'.keys = [])

/-- Where it returns, the last attempt has, and no other. -/
def LoopReturns (timeout : Int32) (m : Machine) (handle : Option Nat) (m' : Machine) : Prop :=
  ∃ rs answer t, Played ck w cfg ready timeout m (rs ++ [⟨answer, some t⟩]) m' ∧
    AllFailed rs ∧ t.result = ⟨0, handle⟩ ∧ t.after = m'.firmware

variable {ck w cfg ready} {timeout : Int32} {m m' m'' : Machine} {rs rs' : List Round} {e : Halt}
  {handle : Option Nat}

theorem AllFailed.append (h : AllFailed rs) (h' : AllFailed rs') : AllFailed (rs ++ rs') := by
  intro t ht
  rw [List.filterMap_append] at ht
  rcases List.mem_append.mp ht with ht | ht
  · exact h t ht
  · exact h' t ht

theorem Played.stops (h : Played ck w cfg ready timeout m rs m') (hfailed : AllFailed rs)
    (h' : LoopStops ck w cfg ready 0 m' e m'') : LoopStops ck w cfg ready timeout m e m'' := by
  obtain ⟨rs', hplayed, hfailed', hwhy⟩ := h'
  exact ⟨rs ++ rs', h.append hplayed, hfailed.append hfailed', hwhy⟩

theorem Played.returns (h : Played ck w cfg ready timeout m rs m') (hfailed : AllFailed rs)
    (h' : LoopReturns ck w cfg ready 0 m' handle m'') :
    LoopReturns ck w cfg ready timeout m handle m'' := by
  obtain ⟨rs', answer, t, hplayed, hfailed', hresult, hafter⟩ := h'
  refine ⟨rs ++ rs', answer, t, ?_, hfailed.append hfailed', hresult, hafter⟩
  rw [List.append_assoc]
  exact h.append hplayed

/-- What a choice says of the round. -/
theorem sound_refused {answer : Option CString}
    (h : ∀ i, chosen ready answer = some i → ready.listing.length ≤ i) :
    Round.Sound ck w cfg ready ⟨answer, none⟩ :=
  ⟨fun _ ht => absurd ht (Option.some_ne_none _).symm, fun _ => h⟩

theorem sound_attempted {answer : Option CString} {t : Try} {i : Nat} {item : Listed}
    (hm : ReadyFor cfg ready) (hmade : t.Made ck w cfg) (hchosen : chosen ready answer = some i)
    (hitem : ready.listing[i]? = some item) (hentry : t.entry = item.entry) :
    Round.Sound ck w cfg ready ⟨answer, some t⟩ := by
  refine ⟨fun u hu => ?_, fun hnone => by cases hnone⟩
  obtain rfl := Option.some.inj hu
  exact ⟨hmade, i, item, hchosen, hitem, hm.number hitem, hentry⟩

theorem ensures_orDefault {selected : Int} {E : Halt → Machine → Prop}
    (h : Asked timeout m m') :
    Ensures (orDefault ready selected) m'
      (fun s m'' => Asked timeout m m'' ∧ m''.keys = m'.keys ∧
        s = if selected < -1 then ready.defaultEntry else selected) E := by
  unfold orDefault
  split
  · refine (ensures_print _ m').bind fun _ m₁ ⟨hasked, hkeys⟩ => ?_
    exact ensures_pure ⟨h.trans hasked, hkeys, rfl⟩
  · exact ensures_pure ⟨h, rfl, rfl⟩

/-- **The loop** plays rounds until an attempt succeeds; with a turn for every key it comes to its
end, or the program stops. -/
theorem ensures_selectLoop (hm : ReadyFor cfg ready) {turns : Nat} (h : m.keys.length < turns) :
    Ensures (selectLoop ck w cfg ready turns timeout) m (LoopReturns ck w cfg ready timeout m)
      (LoopStops ck w cfg ready timeout m) := by
  induction turns generalizing timeout m with
  | zero => exact absurd h (Nat.not_lt_zero _)
  | succ turns ih =>
      -- the prompt
      have hstops : ∀ e m', Stops timeout m e m' → LoopStops ck w cfg ready timeout m e m' :=
        fun e m' ⟨hasked, hwhy⟩ =>
          ⟨[], hasked.played_nil, fun t ht => absurd ht List.not_mem_nil, Or.inr hwhy⟩
      refine ((ensures_waitForBootEntry timeout m).imp (fun _ _ h => h) hstops).bind ?_
      rintro ⟨answer, selected⟩ m₁ ⟨hasked₁, hkeys₁, hnone, hselected⟩
      obtain ⟨selected', hselected', hchosen⟩ := waitForBootEntry_eq answer
      obtain rfl := Except.ok.inj (hselected.symm.trans hselected')
      -- the rounds that follow a round without success
      have hrest : ∀ {m₂ m₃ : Machine} {r : Round}, Played ck w cfg ready timeout m [r] m₂ →
          AllFailed [r] → Asked 0 m₂ m₃ → m₃.keys.length < m.keys.length →
          Ensures (selectLoop ck w cfg ready turns 0) m₃ (LoopReturns ck w cfg ready timeout m)
            (LoopStops ck w cfg ready timeout m) := by
        intro m₂ m₃ r hplayed hfailed hasked hkeys
        refine (ih (by omega)).imp ?_ ?_
        · exact fun handle m' => (hplayed.asked hasked).returns hfailed
        · exact fun e m' => (hplayed.asked hasked).stops hfailed
      -- a round without an attempt
      have hrefused : ∀ {m₂ : Machine}, Asked timeout m m₂ → m₂.keys.length < m.keys.length →
          (∀ i, chosen ready answer = some i → ready.listing.length ≤ i) →
          Ensures (do record ⟨answer, none⟩; selectLoop ck w cfg ready turns 0) m₂
            (LoopReturns ck w cfg ready timeout m) (LoopStops ck w cfg ready timeout m) := by
        intro m₂ hasked₂ hkeys₂ hchosen
        have hplayed : Played ck w cfg ready timeout m [⟨answer, none⟩]
            { m₂ with rounds := m₂.rounds ++ [⟨answer, none⟩] } :=
          hasked₂.played rfl rfl rfl (sound_refused hchosen) rfl hnone
        exact hrest hplayed (fun t ht => absurd ht List.not_mem_nil) (.refl 0 _) hkeys₂
      refine (ensures_orDefault hasked₁).bind ?_
      rintro s m₂ ⟨hasked₂, hkeys₂, hs⟩
      replace hkeys₂ : m₂.keys.length < m.keys.length := by rw [hkeys₂]; exact hkeys₁
      replace hchosen := hchosen ready hm.defaultEntry
      rw [← hs] at hchosen
      rcases hchosen with ⟨i, rfl, hi⟩ | ⟨hneg, hno⟩
      · by_cases hlt : i < ready.listing.length
        · -- the entry is listed
          have hitem : ready.listing[i]? = some ready.listing[i] := List.getElem?_eq_getElem hlt
          rw [if_pos ⟨by omega, by rw [hm.entryNum]; omega⟩, Int.toNat_natCast]
          refine (ensures_checked (Q := fun a m' => a = some ready.listing[i].entry ∧ m' = m₂)
            (hm.nthEntry hitem) ⟨rfl, rfl⟩).bind ?_
          rintro a m₂' ⟨ha, hm₂'⟩
          rw [ha, hm₂']
          refine (ensures_tryEntry answer _ fun f hfault => ?_).bind ?_
          · have hentry : ready.listing[i].entry ∈ entryPositions cfg := by
              rw [← hm.entries]
              exact List.mem_map_of_mem (List.getElem_mem hlt)
            exact ⟨[], hasked₂.played_nil, fun t ht => absurd ht List.not_mem_nil,
              Or.inl ⟨f, rfl, _, hentry, hfault⟩⟩
          rintro r m₃ ⟨t, hentry, hbefore, hresult, hafter, hmade, hrounds, hstarted, hcalls, hkeys⟩
          have hplayed : Played ck w cfg ready timeout m [⟨answer, some t⟩] m₃ := by
            refine hasked₂.played hrounds hstarted ?_ ?_ ?_ hnone
            · exact congrArg (List.filterMap InputCall.timerSet) hcalls
            · exact sound_attempted hm hmade hi hitem hentry
            · exact ⟨congrArg Firmware.env hbefore, congrArg Firmware.env hafter.symm⟩
          split
          · rename_i hret
            refine ensures_pure ⟨[], answer, t, hplayed, fun t ht => absurd ht List.not_mem_nil,
              ?_, hafter⟩
            rw [hresult, ← hret]
          · rename_i hret
            refine (ensures_print _ m₃).bind fun _ m₄ ⟨hasked₄, hkeys₄⟩ => ?_
            refine hrest hplayed ?_ hasked₄ (by rw [hkeys₄, hkeys]; exact hkeys₂)
            intro u hu
            obtain rfl : u = t := by simpa using hu
            rwa [Try.Failed, hresult]
        · -- there is no such entry
          rw [if_neg (by rw [hm.entryNum]; omega)]
          refine hrefused hasked₂ hkeys₂ fun k hk => ?_
          obtain rfl := Option.some.inj (hi.symm.trans hk)
          exact Nat.le_of_not_lt hlt
      · -- what was typed is no number
        rw [if_neg (by omega)]
        exact hrefused hasked₂ hkeys₂ fun k hk => by rw [hno] at hk; cases hk

end

end LoliLoader.Main
