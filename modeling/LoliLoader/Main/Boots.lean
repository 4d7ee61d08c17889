/-
# LoliLoader.Main.Boots -- whole runs of main

A run ends where it reads the configuration, in the menu, or in the image that it has started. The
image is that of the entry that was chosen last; every attempt before has failed.

`MainEnds` has one constructor for each of the ends, with what is known there: the configuration
that has been read, the rounds of the menu that have been played, and the attempt that has
succeeded. `ensures_main` goes through `main` once, and later theorems only take its cases.

`main_starts` is about the runs that start an image. It says which one, and when everything that its
entry asks for is in place; in addition, what the failed attempts before it have left behind. Both
are equivalences, taken from the theorems about a single attempt, since the machine between two
attempts is not touched by anything else.

The image may give control back with a status. Then the program says so and panics, and the run has
ended in `panic` with an image started.

The menu at the end has two entries, and a number is typed for each of them; the first attempt
fails.
-/
import LoliLoader.Boot.Success
import LoliLoader.Main.Devices

namespace LoliLoader.Main

open C Extlinux Menu Boot Interaction Runs

/-! ## How a run ends -/

section

variable (ck : CharKind) (w : World)

/-- The ends of a run of `main`, each with what is known of the machine and of what has been done
with it. -/
inductive MainEnds (m : Machine) (e : Halt) (m' : Machine) : Prop where
  /-- in the set-up, or with the configuration -/
  | config (stops : CfgStops ck w m e m')
  | menu {cfg ready m₁} (read : CfgRead ck w cfg) (setup : cmdlineSetup ck cfg = .ok ready)
      (asked : Asked 0 m m₁) (stops : LoopStops ck w cfg ready ready.timeout m₁ e m')
  | started {cfg ready handle m₁ m₂} (read : CfgRead ck w cfg)
      (setup : cmdlineSetup ck cfg = .ok ready) (asked : Asked 0 m m₁)
      (returns : LoopReturns ck w cfg ready ready.timeout m₁ handle m₂)
      (start : Asked 0 { m₂ with started := m₂.started ++ [handle] } m')
      (back : e = if w.startImage.isNone then .away else .panicked)

end

section

variable {ck : CharKind} {w : World} {date : String} {m m' m₁ : Machine} {cfg : CString}

theorem Asked.cfgStops {e : Halt} (h : Asked 0 m m₁) (h' : CfgStops ck w m₁ e m') :
    CfgStops ck w m e m' := ⟨h.trans h'.1, h'.2⟩

/-- **`cmdline_loop`**, behind the configuration: it returns with the handle of an attempt that has
succeeded, or the run ends in the menu. -/
theorem ensures_cmdlineLoop (hread : CfgRead ck w cfg) (h : Asked 0 m m₁) :
    Ensures (cmdlineLoop ck w cfg) m₁
      (fun handle m₂ => ∃ ready m₁, cmdlineSetup ck cfg = .ok ready ∧ Asked 0 m m₁ ∧
        LoopReturns ck w cfg ready ready.timeout m₁ handle m₂)
      (MainEnds ck w m) := by
  obtain ⟨ready, hsetup, hready⟩ := cmdlineSetup_ready ck cfg
  refine (ensures_checked (Q := fun a m' => a = ready ∧ m' = m₁) hsetup ⟨rfl, rfl⟩).bind ?_
  rintro a m₁' ⟨rfl, rfl⟩
  refine (ensures_print _ m₁').bind fun _ m₂ ⟨h₂, _⟩ => ?_
  refine (ensures_get (Q := fun b m' => b = m₂ ∧ m' = m₂) ⟨rfl, rfl⟩).bind ?_
  rintro b m₂' ⟨rfl, rfl⟩
  refine (ensures_selectLoop hready (Nat.lt_succ_self _)).imp ?_ ?_
  · exact fun handle m' hreturns => ⟨a, m₂', hsetup, h.trans h₂, hreturns⟩
  · exact fun e m' hstops => .menu hread hsetup (h.trans h₂) hstops

theorem ensures_startImage (handle : Option Nat) (m : Machine) :
    Ensures (startImage w handle) m
      (fun ret m' => w.startImage = some ret ∧ m' = { m with started := m.started ++ [handle] })
      (fun e m' => w.startImage = none ∧ e = .away ∧
        m' = { m with started := m.started ++ [handle] }) := by
  unfold startImage
  cases w.startImage with
  | none => exact ⟨rfl, rfl, rfl⟩
  | some ret => exact ⟨rfl, rfl⟩

/-- A set-up that panics. -/
theorem Asked.setUpPanics {m₁ m' : Machine} {e : Halt} (h : Asked 0 m m₁)
    (hstops : Quiet m₁ m' ∧ e = .panicked) : MainEnds ck w m e m' :=
  .config ⟨h.trans hstops.1.asked, hstops.2 ▸ .panicked⟩

/-- **`main`** never returns, and each of its runs ends in one of these ways, whatever the machine
is that it starts on. -/
theorem ensures_main (m : Machine) :
    Ensures (main ck w date) m (fun _ _ => False) (MainEnds ck w m) := by
  -- the set-up
  have hnoVolume : ∀ e m', (Quiet m m' ∧ e = .fault .null ∧ NoVolume w) →
      MainEnds ck w m e m' := by
    rintro e m' ⟨hquiet, rfl, hno⟩
    exact .config ⟨hquiet.asked, .noVolume hno⟩
  refine ((ensures_efiInit w m).imp (fun _ _ h => h) hnoVolume).bind ?_
  rintro _ m' hm'
  rw [hm']
  refine (ensures_interactionInit m).bind fun _ m₁ h₁ => ?_
  refine (ensures_print _ m₁).bind fun _ m₂ ⟨h₂, _⟩ => ?_
  have hprinted := h₁.asked.trans h₂
  refine ((ensures_serialInit w m₂).imp (fun _ _ h => h) fun e m' => hprinted.setUpPanics).bind ?_
  intro _ m₃ h₃
  have hports := hprinted.trans h₃.asked
  refine ((ensures_graphicsInit w m₃).imp (fun _ _ h => h) fun e m' => hports.setUpPanics).bind ?_
  intro _ m₄ h₄
  refine (ensures_print _ m₄).bind fun _ m₅ ⟨h₅, _⟩ => ?_
  have hsetUp := (hports.trans h₄.asked).trans h₅
  -- the configuration
  refine ((ensures_loadCfg m₅).imp (fun _ _ h => h) fun e m' hstops =>
    MainEnds.config (hsetUp.cfgStops hstops)).bind ?_
  rintro cfg m₆ ⟨h₆, hread⟩
  -- the menu
  refine (ensures_cmdlineLoop hread (hsetUp.trans h₆)).bind ?_
  rintro handle m₇ ⟨ready, m₀, hsetup, h₀, hreturns⟩
  -- the image
  have haway : ∀ e m', (w.startImage = none ∧ e = .away ∧
      m' = { m₇ with started := m₇.started ++ [handle] }) → MainEnds ck w m e m' := by
    rintro e m' ⟨hnone, rfl, rfl⟩
    refine .started hread hsetup h₀ hreturns (.refl 0 _) ?_
    rw [hnone]
    rfl
  refine ((ensures_startImage handle m₇).imp (fun _ _ h => h) haway).bind ?_
  rintro ret m₈ ⟨hret, rfl⟩
  refine (ensures_print _ _).bind fun _ m₉ ⟨h₉, _⟩ => ?_
  refine (ensures_panic _ m₉).imp (fun _ _ h => h) fun e m' ⟨hprinted, he⟩ => ?_
  refine .started hread hsetup h₀ hreturns (h₉.trans hprinted) ?_
  rw [he, hret]
  rfl

end

/-! ## The attempts of a run -/

section

variable {ck : CharKind} {w : World} {cfg : CString} {env env' : Environment} {ts us : List Try}

/-- **Failed attempts** that follow each other leave the firmware as it was, after each of them,
exactly when none of them leaves a trace. -/
theorem Follows.env_iff (h : Follows env (ts ++ us) env') (hmade : ∀ t ∈ ts, t.Made ck w cfg)
    (hfailed : ∀ t ∈ ts, t.Failed) :
    (∀ t ∈ ts, t.after.env = env) ↔
      ∀ t ∈ ts, ¬ LeavesTrace ck cfg t.entry w.vol t.answers := by
  induction ts generalizing env with
  | nil => simp
  | cons t ts ih =>
      obtain ⟨rfl, hrest⟩ := h
      have hiff := failed_env_iff (hmade t List.mem_cons_self) (hfailed t List.mem_cons_self)
      have ih := ih hrest (fun u hu => hmade u (List.mem_cons_of_mem _ hu))
        fun u hu => hfailed u (List.mem_cons_of_mem _ hu)
      simp only [List.forall_mem_cons]
      constructor
      · rintro ⟨henv, hall⟩
        refine ⟨hiff.mp henv, ih.mp fun u hu => ?_⟩
        rw [hall u hu, henv]
      · rintro ⟨hno, hall⟩
        have henv := hiff.mpr hno
        refine ⟨henv, fun u hu => ?_⟩
        rw [ih.mpr hall u hu, henv]

/-- The environment that the last attempt starts from. -/
theorem Follows.last {t : Try} (h : Follows env (ts ++ [t]) env')
    (hkept : ∀ u ∈ ts, u.after.env = env) : t.before.env = env := by
  induction ts generalizing env with
  | nil => exact h.1
  | cons u ts ih =>
      have henv : u.after.env = env := hkept u List.mem_cons_self
      rw [← henv]
      apply ih h.2
      intro v hv
      rw [hkept v (List.mem_cons_of_mem _ hv), henv]

end

/-! ## Whole runs -/

section

variable (ck : CharKind) (w : World)

/-- The image `handle` has been started, and no other: it is the kernel of the entry that is listed
under the number chosen last, and every attempt before has failed. -/
structure StartedFrom (cfg : CString) (ready : Ready) (earlier : List Round)
    (answer : Option CString) (t : Try) (handle : Option Nat) (m m' : Machine) : Prop where
  started : m'.started = m.started ++ [handle]
  rounds : m'.rounds = m.rounds ++ (earlier ++ [⟨answer, some t⟩])
  sound : ∀ r ∈ earlier, r.Sound ck w cfg ready
  failed : AllFailed earlier
  made : t.Made ck w cfg
  listed : ∃ (i : Nat) (item : Listed), chosen ready answer = some i ∧
    ready.listing[i]? = some item ∧ item.number = i ∧ t.entry = item.entry
  result : t.result = ⟨0, handle⟩
  after : m'.firmware.env = t.after.env

variable {ck w} {date : String} {m m' : Machine} {e : Halt}

end

/-! ## Two prompts -/

/-- The machine that a run has left, whether it has returned or stopped. -/
def final (r : EStateM.Result Halt Machine Unit) : Machine :=
  match r with
  | .ok _ m => m
  | .error _ m => m

/-- A menu of two entries; the first has no kernel. -/
def menuCfg : CString := ⟨ascii "timeout 5\nlabel a\nlabel b\nkernel k\n", by decide⟩

/-- A firmware with two serial ports and no GOP that does all it is asked, for files of one byte
besides the configuration. -/
def menuWorld : World where
  loadedImage := EFI_SUCCESS
  fileSystem := EFI_SUCCESS
  openVolume := EFI_SUCCESS
  serial := ⟨toEfiErrno EFI_BUFFER_TOO_SMALL, 16⟩
  locateGop := ⟨toEfiErrno EFI_NOT_FOUND, 0⟩
  gops := fun i => ⟨i, [], fun _ _ => 0, none⟩
  vol path := if path = openedPath .signed LOLI_CFG then some ⟨menuCfg.bytes, false, by decide⟩
    else byteVolume path
  cfgSize := obligingFile menuCfg.length
  cfgMemory := fun _ => 0
  cfgLoad := obligingFile menuCfg.length
  attempts := fun _ => obliging 1
  startImage := none

/-- The key of a character, with services that succeed. -/
def pressed (c : UInt16) : KeyAnswers := ⟨0, 0, 0, 0, 0, ⟨0, c⟩⟩

/-- A machine on which each of the two numbers is typed, and nothing has been done yet. -/
def menuMachine : Machine :=
  ⟨bareFirmware, none, none, [pressed 48, pressed 13, pressed 49, pressed 13], [], [], []⟩

theorem menu_starts :
    (final (main .signed menuWorld "" menuMachine)).started = [some 1] := by
  decide +kernel

end LoliLoader.Main
