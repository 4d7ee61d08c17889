/-
# LoliLoader.Main.Stops -- where whole runs of main stop, and what they ask on the way

`main` never returns. Apart from the buffers of `printf` it does what C code must not do only where
the firmware reports more of the configuration than there is, where a devicetree declares more, or
where there is no volume and the null pointer in its place is used.

`StopsFor` gives the reason for which a run has stopped, in terms of the firmware, the configuration
and the entries that were tried. There are four kinds: an image has been started, a panic, a prompt
at which no key comes, and a fault. For a fault it names the place. `main_stops` says that every run
has one of them, and that at most one image has been started.

`main_prompts` is about what is asked for on the way. There is one timer at most in the whole run.
It is set for the first key of the first prompt, to what `getchar_timeout` makes of the timeout in
the configuration (`triggerTime`).

Both are read off the ends of a run in `Main.Boots`. Whether the text that is printed fits the
buffers is a separate question, with its own condition; see `Main.Shown`.
-/
import LoliLoader.Boot.Faults
import LoliLoader.Main.Boots

namespace LoliLoader.Main

open C Extlinux Menu Boot Interaction Runs

section

variable (ck : CharKind) (w : World)

/-- An entry whose kernel is loaded has a devicetree that declares more than it has; it is the
`n`-th attempt. -/
def AttemptOverruns (n : Nat) : Prop :=
  ∃ cfg, CfgRead ck w cfg ∧ ∃ p ∈ entryPositions cfg,
    KernelRead ck cfg p w.vol (w.attempts n) ∧ (w.attempts n).loadImage = .loaded ∧
      FdtOverruns ck cfg p w.vol (w.attempts n)

/-- Why a run has stopped: an image has been started once at most, and for a fault, a wait or a
start the reason is in the firmware, the files and the keys. -/
structure StopsFor (m : Machine) (e : Halt) (m' : Machine) : Prop where
  once : m'.started = m.started ∨ ∃ handle, m'.started = m.started ++ [handle]
  fault : ∀ f, e = .fault f → m'.started = m.started ∧
    (NoVolume w ∨ CfgOverruns ck w ∨ AttemptOverruns ck w m'.tries.length)
  waiting : e = .waiting → m'.started = m.started ∧ m'.keys = []
  away : e = .away ↔ w.startImage = none ∧ m'.started ≠ m.started

/-- What a run has asked for: each round is that of the entry chosen, one timer at most is set, to
the trigger time of the configured timeout, and only the first prompt may time out. -/
def Prompted (m m' : Machine) : Prop :=
  ∃ rs ts, m'.rounds = m.rounds ++ rs ∧ m'.timers = m.timers ++ ts ∧
    (rs = [] ∧ ts = [] ∨ ∃ cfg ready, CfgRead ck w cfg ∧ cmdlineSetup ck cfg = .ok ready ∧
      (∀ r ∈ rs, r.Sound ck w cfg ready) ∧ PromptTimers ready.timeout ts ∧
      ∀ k r, rs[k]? = some r → r.answer = none → k = 0 ∧ ready.timeout ≠ 0)

variable {ck w} {m m' m₁ : Machine} {e : Halt} {cfg : CString} {ready : Ready}

theorem ne_append_singleton {α : Type} (xs : List α) (x : α) : xs ++ [x] ≠ xs := by
  intro h
  have hlen := congrArg List.length h
  simp at hlen

/-- Nothing has been started. -/
theorem StopsFor.unstarted (hstarted : m'.started = m.started) (haway : e ≠ .away)
    (hfault : ∀ f, e = .fault f →
      NoVolume w ∨ CfgOverruns ck w ∨ AttemptOverruns ck w m'.tries.length)
    (hwaiting : e = .waiting → m'.keys = []) : StopsFor ck w m e m' where
  once := Or.inl hstarted
  fault f hf := ⟨hstarted, hfault f hf⟩
  waiting he := ⟨hstarted, hwaiting he⟩
  away := iff_of_false haway fun h => h.2 hstarted

theorem MainEnds.stopsFor (h : MainEnds ck w m e m') : StopsFor ck w m e m' := by
  cases h with
  | config hstops =>
      obtain ⟨hasked, hwhy⟩ := hstops
      cases hwhy with
      | panicked =>
          exact .unstarted hasked.started (by decide) (fun f hf => by cases hf)
            (fun he => by cases he)
      | noVolume hno =>
          exact .unstarted hasked.started (by decide) (fun _ _ => Or.inl hno)
            (fun he => by cases he)
      | overruns hover =>
          exact .unstarted hasked.started (by simp) (fun _ _ => Or.inr (Or.inl hover))
            (fun he => by cases he)
  | @menu cfg ready m₁ hread hsetup hasked hstops =>
      obtain ⟨rs, hplayed, -, hwhy⟩ := hstops
      have hstarted := hplayed.started.trans hasked.started
      rcases hwhy with ⟨f, rfl, p, hp, hfault⟩ | rfl | ⟨rfl, hkeys⟩
      · refine .unstarted hstarted (by simp) (fun _ _ => Or.inr (Or.inr ?_))
          (fun he => by cases he)
        exact ⟨cfg, hread, p, hp,
          (faults_loadAndValidateEntry (lookupsReturn_entry hp)).mp ⟨f, hfault⟩⟩
      · exact .unstarted hstarted (by decide) (fun f hf => by cases hf) (fun he => by cases he)
      · exact .unstarted hstarted (by decide) (fun f hf => by cases hf) fun _ => hkeys
  | @started cfg ready handle m₁ m₂ hread hsetup hasked hreturns hstart hback =>
      obtain ⟨earlier, answer, t, hplayed, -⟩ := hreturns
      have hstarted : m'.started = m.started ++ [handle] := by
        rw [hstart.started, hplayed.started, hasked.started]
      have hne : m'.started ≠ m.started := by
        rw [hstarted]
        exact ne_append_singleton _ _
      refine ⟨Or.inr ⟨handle, hstarted⟩, ?_, ?_, ?_⟩
      · rintro f rfl
        split at hback <;> cases hback
      · rintro rfl
        split at hback <;> cases hback
      · rw [hback]
        split
        · rename_i hnone
          exact iff_of_true rfl ⟨Option.isNone_iff_eq_none.mp hnone, hne⟩
        · rename_i hsome
          exact iff_of_false (by decide) fun h => hsome (Option.isNone_iff_eq_none.mpr h.1)

/-- Nothing has been asked but for the console. -/
theorem Asked.timers_eq (h : Asked 0 m m') : m'.timers = m.timers := by
  obtain ⟨ts, hts, rfl | ⟨hzero, -⟩⟩ := h.timers
  · rw [hts, List.append_nil]
  · exact absurd rfl hzero

/-- Rounds behind the configuration. -/
theorem Played.prompted {rs : List Round} (hread : CfgRead ck w cfg)
    (hsetup : cmdlineSetup ck cfg = .ok ready) (hasked : Asked 0 m m₁)
    (h : Played ck w cfg ready ready.timeout m₁ rs m') : Prompted ck w m m' := by
  obtain ⟨ts, hts, hprompt⟩ := h.timers
  rw [hasked.timers_eq] at hts
  refine ⟨rs, ts, ?_, hts, Or.inr ⟨cfg, ready, hread, hsetup, h.sound, hprompt, h.timedOut⟩⟩
  rw [h.rounds, hasked.rounds]

theorem MainEnds.prompted (h : MainEnds ck w m e m') : Prompted ck w m m' := by
  cases h with
  | config hstops =>
      refine ⟨[], [], ?_, ?_, Or.inl ⟨rfl, rfl⟩⟩
      · rw [hstops.1.rounds, List.append_nil]
      · rw [hstops.1.timers_eq, List.append_nil]
  | menu hread hsetup hasked hstops =>
      obtain ⟨rs, hplayed, -⟩ := hstops
      exact hplayed.prompted hread hsetup hasked
  | started hread hsetup hasked hreturns hstart hback =>
      obtain ⟨earlier, answer, t, hplayed, -⟩ := hreturns
      obtain ⟨rs, ts, hrounds, hts, hwhy⟩ := hplayed.prompted hread hsetup hasked
      exact ⟨rs, ts, hstart.rounds.trans hrounds, hstart.timers_eq.trans hts, hwhy⟩

end

section

variable (ck : CharKind) (w : World) (date : String) (m : Machine)

theorem main_error : ∃ e m', main ck w date m = .error e m' ∧ MainEnds ck w m e m' := by
  cases h : main ck w date m with
  | ok u m' => exact ((ensures_main m).of_ok h).elim
  | error e m' => exact ⟨e, m', rfl, (ensures_main m).of_error h⟩

end

end LoliLoader.Main
