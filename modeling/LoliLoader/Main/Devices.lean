/-
# LoliLoader.Main.Devices -- what the set-up of the console does

One lemma for each function of `Main.SetUp`, with all that its callers need: the set-up prints
strings, takes pool buffers and sets up devices, and leaves everything else as it was; and where it
does not return, it has panicked or there is no volume.

The framebuffers that `graphics_init` stores are those of the graphics console as it has been
modelled on its own, for the GOPs that the firmware has: the messages and the statuses that come on
top do not change which displays there are.  Neither is there ever a store behind the last of the
`handleNum` framebuffers that were allocated, since a handle gives one of them at most.
-/
import LoliLoader.Main.Config
import LoliLoader.Main.Printed

namespace LoliLoader.Main

open C Boot Interaction Graphics Runs

/-! ## Quiet steps -/

/-- Between two states there is nothing but strings on the console, and pool buffers. No timer is
set, no image is started and no device is set up. -/
structure Quiet (m m' : Machine) : Prop where
  asked : Asked 0 m m'
  told : Told m m'

section

variable {m m' m'' : Machine} {E : Halt → Machine → Prop}

theorem Quiet.refl (m : Machine) : Quiet m m := ⟨.refl 0 m, told_refl m⟩

theorem Quiet.trans (h : Quiet m m') (h' : Quiet m' m'') : Quiet m m'' :=
  ⟨h.asked.trans h'.asked, told_trans h.told h'.told⟩

theorem quiet_print {out : List Output} (h : ∀ o ∈ out, Printable o) (m : Machine) :
    Ensures (print out) m (fun _ m' => Quiet m m') E :=
  ⟨((@ensures_print out m fun _ _ => False).of_ok rfl).1, (tells_print h m).of_ok rfl⟩

/-- A pool buffer. -/
theorem quiet_malloc (m : Machine) : Ensures (onFirmware malloc) m (fun _ m' => Quiet m m') E :=
  ⟨asked_firmware (malloc_ok (malloc_run m.firmware)).1,
    (tells_onFirmware (.of_silent silent_malloc) m).of_ok rfl⟩

/-- A message, and what it reports. -/
theorem quiet_report {α : Type} {out : List Output} (h : ∀ o ∈ out, Printable o) (a : α)
    (hm : Quiet m m') {Q : α → Prop} (ha : Q a) :
    Ensures (print out >>= fun _ => pure a) m' (fun r m'' => Quiet m m'' ∧ Q r) E := by
  refine (quiet_print h m').bind fun _ m'' hprinted => ?_
  exact ensures_pure ⟨hm.trans hprinted, ha⟩

theorem quiet_panic {α : Type} {msg : String} (h : (0 : UInt8) ∉ ascii msg) (hm : Quiet m m')
    {Q : α → Machine → Prop} :
    Ensures (panic msg) m' Q (fun e m'' => Quiet m m'' ∧ e = .panicked) := by
  have htold : Ensures (panic msg : Program α) m' (fun _ => Told m') (fun _ => Told m') :=
    tells_panic h m'
  have hasked : Ensures (panic msg : Program α) m' (fun _ _ => False)
      (fun e m'' => Asked 0 m' m'' ∧ e = .panicked) := ensures_panic msg m'
  unfold Ensures at htold hasked ⊢
  cases hrun : (panic msg : Program α) m' with
  | ok a m'' =>
      rw [hrun] at hasked
      exact hasked.elim
  | error e m'' =>
      rw [hrun] at htold hasked
      exact ⟨hm.trans ⟨hasked.1, htold⟩, hasked.2⟩

end

/-! ## The volume and the buffers -/

section

variable {w : World} {m m' : Machine}

/-- **`efi_init`** leaves the machine as it is, and stops only if there is no volume. -/
theorem ensures_efiInit (w : World) (m : Machine) :
    Ensures (efiInit w) m (fun _ m' => m' = m)
      (fun e m' => Quiet m m' ∧ e = .fault .null ∧ NoVolume w) := by
  unfold efiInit fileInit
  by_cases himage : w.loadedImage ≠ EFI_SUCCESS
  · rw [if_pos himage]
    exact ensures_throw ⟨.refl m, rfl, Or.inl himage⟩
  rw [if_neg himage]
  by_cases hsystem : w.fileSystem ≠ EFI_SUCCESS
  · rw [if_pos hsystem]
    exact ensures_throw ⟨.refl m, rfl, Or.inr (Or.inl hsystem)⟩
  · rw [if_neg hsystem]
    exact ensures_pure rfl

/-- **`interaction_init`** takes its three buffers, and neither prints anything nor stops. -/
theorem ensures_interactionInit (m : Machine) {E : Halt → Machine → Prop} :
    Ensures interactionInit m (fun _ m' => Quiet m m') E := by
  refine (quiet_malloc m).bind fun _ m₁ h₁ => ?_
  refine (quiet_malloc m₁).bind fun _ m₂ h₂ => ?_
  refine (quiet_malloc m₂).bind fun _ m₃ h₃ => ?_
  exact ensures_pure ((h₁.trans h₂).trans h₃)

end

/-! ## The ports -/

/-- A device has not been set up, or just now: the output then is what had been printed by that
time. -/
def JustSetUp {α : Type} (P : α → Prop) (device : Option (SetUp α)) (m' : Machine) : Prop :=
  ∀ d, device = some d → P d.device ∧ d.printed = m'.firmware.output.length

/-- `serial_init` has returned: it has printed strings, and set up the ports at its end or not at
all. -/
structure PortsSetUp (m m' : Machine) : Prop where
  asked : Asked 0 m m'
  talk : Talk m.firmware m'.firmware
  graphics : m'.graphics = m.graphics
  serial : m'.serial = m.serial ∨ JustSetUp (fun _ => True) m'.serial m'

/-- **`serial_init`** sets up the ports or passes them over, or it panics, and then no device has
been set up. -/
theorem ensures_serialInit (w : World) (m : Machine) :
    Ensures (serialInit w) m (fun _ m' => PortsSetUp m m')
      (fun e m' => Quiet m m' ∧ e = .panicked) := by
  unfold serialInit
  cases located w.serial with
  | notFound =>
      have hprint : ∀ o ∈ prInfo "Skipping serial initialization: no serial supported\n" [],
          Printable o := printable_prInfo (printable_plain mainFormats.noSerial)
      refine (quiet_print hprint m).imp (fun _ m' h => ?_) fun _ _ h => h
      exact ⟨h.asked, h.told.talk, h.told.graphics, Or.inl h.told.serial⟩
  | failed ret =>
      have hprint : ∀ o ∈ prErr "locateHandle fails with %lu for serial GUID\n" [.int ret.toNat],
          Printable o := printable_prErr (printable_number _ mainFormats.serialFails)
      refine (quiet_print hprint m).bind fun _ m₁ h₁ => ?_
      exact quiet_panic panicTexts.serial h₁
  | handles num =>
      refine (quiet_malloc m).bind fun _ m₁ h₁ => ?_
      have hset : PortsSetUp m { m₁ with
          serial := some ⟨Interaction.serialInit (some num), m₁.firmware.output.length⟩ } := by
        refine ⟨⟨h₁.asked.env, h₁.asked.rounds, h₁.asked.started, h₁.asked.timers, h₁.asked.keys⟩,
          h₁.told.talk, h₁.told.graphics, Or.inr ?_⟩
        rintro d hd
        obtain rfl := Option.some.inj hd
        exact ⟨trivial, rfl⟩
      exact hset

/-! ## The displays -/

section

variable {m : Machine} {E : Halt → Machine → Prop} {ds : List Display}

/-- **`gop_determine_mode`** chooses a mode as the graphics console does; what it prints on the way
are strings. -/
theorem ensures_gopDetermineMode (ds : List Display) (gop : Gop) (n : Nat)
    (modes : List ModeAnswers) (m : Machine) :
    Ensures (gopDetermineMode ds gop n modes) m
      (fun r m' => Quiet m m' ∧
        r = Graphics.gopDetermineMode ds gop (modes.map ModeAnswers.mode)) E := by
  induction modes generalizing n m with
  | nil => exact ensures_pure ⟨.refl m, rfl⟩
  | cons mode modes ih =>
      unfold gopDetermineMode
      rw [List.map_cons, Graphics.gopDetermineMode]
      by_cases hquery : intStatus mode.queryMode = 0
      · have hknown : mode.mode.query = some mode.info := if_pos hquery
        rw [if_neg (not_not_intro hquery), hknown]
        dsimp only
        by_cases hsupported : fbmodeIsSupported mode.info = false
        · rw [if_pos hsupported, if_pos hsupported]
          exact ih (n + 1) m
        rw [if_neg hsupported, if_neg hsupported]
        by_cases hset : intStatus mode.setMode = 0
        · have hcan : ¬ mode.mode.set = false := by
            rw [Bool.not_eq_false]
            exact decide_eq_true hset
          rw [if_neg (not_not_intro hset), if_neg hcan]
          by_cases hdup : isBufferDuplicated ds gop = true
          · rw [if_pos hdup, if_pos hdup]
            exact ensures_pure ⟨.refl m, rfl⟩
          · rw [if_neg hdup, if_neg hdup]
            exact ensures_pure ⟨.refl m, rfl⟩
        · -- it is reported, and the next mode is tried
          have hcannot : mode.mode.set = false := decide_eq_false hset
          rw [if_pos hset, if_pos hcannot]
          have hprint : ∀ o ∈ prErr "Failed to set GOP to mode %u: %d\n"
              [.int n, .int (intStatus mode.setMode).toInt], Printable o :=
            printable_prErr (printable_numbers _ _ mainFormats.unset)
          refine (quiet_print hprint m).bind fun _ m₁ h₁ => ?_
          exact (ih (n + 1) m₁).imp (fun r m' h => ⟨h₁.trans h.1, h.2⟩) fun _ _ h => h
      · have hunknown : mode.mode.query = none := if_neg hquery
        rw [if_pos hquery, hunknown]
        have hprint : ∀ o ∈ prErr "Failed to query GOP mode %u: %d\n"
            [.int n, .int (intStatus mode.queryMode).toInt], Printable o :=
          printable_prErr (printable_numbers _ _ mainFormats.unqueried)
        exact quiet_report hprint none (.refl m) rfl

/-- **`gop_setup_mode`**, for a mode that is supported, makes the framebuffer that the graphics
console has. -/
theorem ensures_gopSetupMode {gop : Gop} {info : ModeInfo} {r : Option Display}
    (hr : Graphics.gopSetupMode gop info = .ok r) (m : Machine) :
    Ensures (gopSetupMode gop info) m (fun r' m' => Quiet m m' ∧ r' = r) E := by
  unfold gopSetupMode
  refine (ensures_checked (Q := fun a m' => a = r ∧ m' = m) hr ⟨rfl, rfl⟩).bind ?_
  rintro a m' ⟨ha, hm'⟩
  rw [ha, hm']
  have hprint : ∀ o ∈ prErr "Failed to allocate framebuffer for GOP\n" [], Printable o :=
    printable_prErr (printable_plain mainFormats.noPages)
  split
  · exact quiet_report hprint r (.refl m) rfl
  · exact ensures_pure ⟨.refl m, rfl⟩

/-- **`gop_try_init`** sets up what the graphics console does, and neither panics nor stops by a
fault. -/
theorem ensures_gopTryInit (ds : List Display) (a : GopAnswers) (m : Machine) :
    Ensures (gopTryInit ds a) m
      (fun r m' => Quiet m m' ∧ Graphics.gopTryInit ds a.gop = .ok r) E := by
  obtain ⟨fb, hfb, -⟩ := gopTryInit_ok ds a.gop
  unfold gopTryInit
  refine (ensures_gopDetermineMode ds a.gop 0 a.modes m).bind ?_
  rintro mode m₁ ⟨h₁, hmode⟩
  unfold Graphics.gopTryInit at hfb ⊢
  have hmodes : a.gop.modes = a.modes.map ModeAnswers.mode := rfl
  rw [hmodes, ← hmode] at hfb ⊢
  cases mode with
  | none =>
      have hprint : ∀ o ∈ prInfo "Skip graphics initialization: No suitable mode\n" [],
          Printable o := printable_prInfo (printable_plain mainFormats.noMode)
      exact quiet_report hprint none h₁ rfl
  | some info =>
      have hprint : ∀ o ∈ prInfo "Resolution %ux%u\n"
          [.int info.horizontalRes.toNat, .int info.verticalRes.toNat], Printable o :=
        printable_prInfo (printable_numbers _ _ mainFormats.resolution)
      refine (quiet_print hprint m₁).bind fun _ m₂ h₂ => ?_
      refine (ensures_gopSetupMode hfb m₂).bind ?_
      rintro r m₃ ⟨h₃, rfl⟩
      have hquiet := (h₁.trans h₂).trans h₃
      have hfailed : ∀ o ∈ prErr "Failed to setup GOP mode\n" [], Printable o :=
        printable_prErr (printable_plain mainFormats.notSetUp)
      split
      · exact quiet_report hfailed r hquiet hfb
      · exact ensures_pure ⟨hquiet, hfb⟩

/-- **The loop of `graphics_init`** stays inside `gFBs`, as long as that has room for all handles,
and stores what the graphics console does. -/
theorem ensures_initLoop {handleNum : Nat} (as : List GopAnswers)
    (hroom : ds.length + as.length ≤ handleNum) (m : Machine) :
    Ensures (initLoop handleNum ds as) m
      (fun ds' m' => Quiet m m' ∧
        Graphics.initLoop ds (as.map GopAnswers.gop) = .ok ds') E := by
  induction as generalizing ds m with
  | nil => exact ensures_pure ⟨.refl m, rfl⟩
  | cons a as ih =>
      rw [List.length_cons] at hroom
      unfold initLoop
      refine (ensures_gopTryInit ds a m).bind ?_
      rintro r m₁ ⟨h₁, hr⟩
      -- the handles that are left
      have hrest : ∀ {ds₁ : List Display}, ds₁.length + as.length ≤ handleNum →
          Graphics.initLoop ds ((a :: as).map GopAnswers.gop)
            = Graphics.initLoop ds₁ (as.map GopAnswers.gop) →
          Ensures (initLoop handleNum ds₁ as) m₁ (fun ds' m' => Quiet m m' ∧
            Graphics.initLoop ds ((a :: as).map GopAnswers.gop) = .ok ds') E := by
        intro ds₁ hroom₁ hloop
        refine (ih hroom₁ m₁).imp (fun ds' m' h => ⟨h₁.trans h.1, ?_⟩) fun _ _ h => h
        rw [hloop]
        exact h.2
      cases r with
      | none =>
          refine hrest (by omega) ?_
          rw [List.map_cons, Graphics.initLoop, hr]
          rfl
      | some d =>
          have hstore : storeFrameBuffer handleNum ds d = .ok (ds ++ [d]) :=
            if_pos (by omega)
          refine (ensures_checked (Q := fun b m' => b = ds ++ [d] ∧ m' = m₁) hstore
            ⟨rfl, rfl⟩).bind ?_
          rintro b m' ⟨hb, hm'⟩
          rw [hb, hm']
          refine hrest ?_ ?_
          · rw [List.length_append, List.length_singleton]
            omega
          · rw [List.map_cons, Graphics.initLoop, hr]
            rfl

/-- The console that `graphics_init` sets up, for the GOPs that there are. -/
def SetUpFor (g : Graphics.Console) : Prop := ∃ gops, Graphics.graphicsInit gops = .ok g

/-- `graphics_init` has returned: it has printed strings, and set up the displays at its end or not
at all. -/
structure DisplaysSetUp (m m' : Machine) : Prop where
  asked : Asked 0 m m'
  talk : Talk m.firmware m'.firmware
  serial : m'.serial = m.serial
  graphics : m'.graphics = m.graphics ∨ JustSetUp SetUpFor m'.graphics m'

theorem Quiet.displaysSetUp {m m' : Machine} (h : Quiet m m') : DisplaysSetUp m m' :=
  ⟨h.asked, h.told.talk, h.told.serial, Or.inl h.told.graphics⟩

/-- **`graphics_init`** sets up the displays or passes them over, or it panics, and then none has
been set up. -/
theorem ensures_graphicsInit (w : World) (m : Machine) :
    Ensures (graphicsInit w) m (fun _ m' => DisplaysSetUp m m')
      (fun e m' => Quiet m m' ∧ e = .panicked) := by
  unfold graphicsInit
  cases located w.locateGop with
  | notFound =>
      have hprint : ∀ o ∈ prInfo "Skip graphics initialization: no GOP found\n" [],
          Printable o := printable_prInfo (printable_plain mainFormats.noGop)
      exact (quiet_print hprint m).imp (fun _ m' h => h.displaysSetUp) fun _ _ h => h
  | failed ret =>
      have hprint : ∀ o ∈ prErr "locateProtocol returns %lu for GOP\n" [.int ret.toNat],
          Printable o := printable_prErr (printable_number _ mainFormats.gopFails)
      refine (quiet_print hprint m).bind fun _ m₁ h₁ => ?_
      exact quiet_panic panicTexts.gop h₁
  | handles handleNum =>
      refine (quiet_malloc m).bind fun _ m₁ h₁ => ?_
      have hroom : ([] : List Display).length + ((List.range handleNum).map w.gops).length
          ≤ handleNum := by
        rw [List.length_map, List.length_range, List.length_nil, Nat.zero_add]
      refine (ensures_initLoop _ hroom m₁).bind ?_
      rintro ds m₂ ⟨h₂, hds⟩
      by_cases hempty : ds.isEmpty = true
      · have hprint : ∀ o ∈ prInfo "No suitable GOP device found\n" [], Printable o :=
          printable_prInfo (printable_plain mainFormats.noGraphics)
        rw [if_pos hempty]
        refine (quiet_print hprint m₂).imp (fun _ m' h => ?_) fun _ _ h => h
        exact ((h₁.trans h₂).trans h).displaysSetUp
      · have hprint : ∀ o ∈ prInfo "Graphics initialized\n" [], Printable o :=
          printable_prInfo (printable_plain mainFormats.graphics)
        rw [if_neg hempty]
        refine (quiet_print hprint m₂).bind fun _ m₃ h₃ => ?_
        have h := (h₁.trans h₂).trans h₃
        have hset : DisplaysSetUp m { m₃ with
            graphics := some ⟨⟨true, ds⟩, m₃.firmware.output.length⟩ } := by
          refine ⟨⟨h.asked.env, h.asked.rounds, h.asked.started, h.asked.timers, h.asked.keys⟩,
            h.told.talk, h.told.serial, Or.inr ?_⟩
          rintro d hd
          obtain rfl := Option.some.inj hd
          refine ⟨⟨((List.range handleNum).map w.gops).map GopAnswers.gop, ?_⟩, rfl⟩
          rw [Graphics.graphicsInit, hds]
          show Except.ok (⟨!ds.isEmpty, ds⟩ : Graphics.Console) = _
          rw [Bool.not_eq_true] at hempty
          rw [hempty]
          rfl
        exact hset

end

end LoliLoader.Main
