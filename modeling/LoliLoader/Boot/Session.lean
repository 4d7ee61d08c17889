/-
# LoliLoader.Boot.Session -- the menu with the machine it runs on

`cmdline_loop` whose attempts are those of `load_and_validate_entry`. No formatter is told the size
of its buffer, so what a run puts on the console stays inside the buffers exactly if the
configuration and the values of the entries that are tried leave room for the text around them.

The menu of `Menu.Loop` works with any attempt. Here it gets the one of `Boot.Entry`, on a machine,
with answers of the firmware for each attempt in turn. `Session` keeps what has been tried, so that
the condition can speak of the entries that are tried and of no others.

`menu_fits_iff` is an equivalence about whole runs. It needs the menu to be brief, with one bound
for each value that is shown (`Menu.Shown`), and each attempt (`AttemptBrief`).

An attempt that itself does what C code must not do ends the run. What it has said before is not
part of the calls any more, and nothing is claimed about it.
-/
import LoliLoader.Boot.Failure
import LoliLoader.Boot.Said

namespace LoliLoader.Boot

open C Menu Extlinux Interaction

/-! ## The options and the kernel -/

section

variable (ck : CharKind) (cfg : CString) (p : Nat) (vol : Volume) (a : Answers)

/-- The message about the options leaves room for them. -/
def AppendBrief : Prop :=
  ∀ options, menuGetPair cfg p appendKey = .ok (some options) → options.length ≤ 1013

/-- The messages about a kernel file leave room for its path, and so do those that follow. -/
def KernelFileBrief (path : CString) : Prop :=
  if fileSizeOf ck vol a.kernelSize path < 0 then path.length ≤ 1003
  else if a.kernelPages.isNone then True
  else if fileLoadOf ck vol a.kernelLoad path < 0 ∨ a.loadImage ≠ .loaded then path.length ≤ 1003
  else path.length + numberLength (fileSizeOf ck vol a.kernelSize path).toUInt64.toNat ≤ 1005 ∧
    FdtBrief ck cfg p vol a ∧ (FdtPasses ck cfg p vol a →
      InitrdBrief ck cfg p vol a ∧ (InitrdPasses ck cfg p vol a → AppendBrief cfg p))

/-- **The values an attempt shows** leave room for the text around them; without a kernel none is
shown. -/
def AttemptBrief : Prop :=
  ∀ path, menuGetPair cfg p kernelKey = .ok (some path) → KernelFileBrief ck cfg p vol a path

variable {ck cfg p vol a} {fw fw' : Firmware}

theorem loadAppend_said (hplain : PlainValues cfg p) {handle : Nat} {r : Option Nat}
    (h : loadAppend ck cfg p handle fw = .ok (r, fw')) : Says fw fw' (AppendBrief cfg p) := by
  have happend : ∀ {options : CString}, (10 : UInt8) ∉ options.bytes →
      ((∀ o ∈ prInfo "Append: %s\n" [.str options.bytes], Fits o) ↔ options.length ≤ 1013) :=
    fun hoptions => (fits_prInfo_iff _ _).trans (fits_room_iff (ascii "Append: ") (ascii "\n") rfl
      (by decide) (by decide) rfl hoptions)
  have hnone : ∀ o ∈ prInfo "Append: %s\n" [.str (ascii "(none)")], Fits o :=
    (@happend ⟨ascii "(none)", by decide⟩ (by decide)).mpr (by decide)
  obtain ⟨o, fw₁, hget, hrun⟩ := bind_ok.mp h
  have hpair := getPair_ok hget
  have hsilent := silent_getPair _ _ _ hget
  unfold AppendBrief
  cases o with
  | none =>
      obtain ⟨rfl, hsay⟩ := say_pure_ok hrun
      exact Says.absent hpair hsay hnone hsilent
  | some q =>
      obtain ⟨buffer, options⟩ := q
      replace hpair : menuGetPair cfg p appendKey = .ok (some options) := hpair
      have hoptions := hplain appendKey (by simp [entryKeys]) options hpair
      obtain ⟨u, fw₂, hsay, hrun⟩ := bind_ok.mp hrun
      obtain ⟨u', fw₃, hsetup, hrun⟩ := bind_ok.mp hrun
      obtain ⟨rfl, rfl⟩ := pure_ok.mp hrun
      rw [forall_value_iff hpair]
      exact (((Says.say hsay).congr (happend hoptions)).after hsilent).before
        (silent_setupAppend _ _ _ hsetup)

theorem silent_freeKernel (kernel : Nat) : Silent (freeKernel kernel) :=
  (silent_free kernel).bind fun _ => leaves_pure _

theorem silent_freeKernelBase (kernel base : Nat) : Silent (freeKernelBase kernel base) :=
  (silent_freePages base).bind fun _ => silent_freeKernel kernel

theorem silent_unloadKernel (kernel base handle : Nat) :
    Silent (unloadKernel kernel base handle) :=
  (silent_unloadImage handle).bind fun _ => silent_freeKernelBase kernel base

/-- What is said once the kernel is loaded. -/
theorem setUpKernel_said (hplain : PlainValues cfg p) {path : CString}
    (hpath : (10 : UInt8) ∉ path.bytes) {kernel base handle : Nat} {size : Int64} {r : Attempt}
    (h : setUpKernel ck cfg p vol a path kernel base size handle fw = .ok (r, fw')) :
    Says fw fw' (path.length + numberLength size.toUInt64.toNat ≤ 1005 ∧
      FdtBrief ck cfg p vol a ∧ (FdtPasses ck cfg p vol a →
        InitrdBrief ck cfg p vol a ∧ (InitrdPasses ck cfg p vol a → AppendBrief cfg p))) := by
  have hloaded := @prInfo_size_iff "Kernel %s, size = %lu\n" path 1005 (ascii "Kernel ") rfl
    (by decide) rfl hpath size
  obtain ⟨u, fw₁, hsay, hrun⟩ := bind_ok.mp h
  have hkernel := (Says.say hsay).congr hloaded
  obtain ⟨ok, fw₂, hfdt, hrun⟩ := bind_ok.mp hrun
  have hsaid := hkernel.trans (loadFdt_said hplain hfdt)
  rcases loadFdt_ok hfdt with ⟨rfl, -, hno⟩ | ⟨rfl, hpasses, -⟩
  · refine (hsaid.before (silent_unloadKernel _ _ _ hrun)).congr ?_
    exact and_congr_right fun _ => (and_iff_left fun hyes => absurd hyes hno).symm
  obtain ⟨ok, fw₃, hinitrd, hrun⟩ := bind_ok.mp hrun
  obtain ⟨hiff, hinitrdSaid⟩ := loadInitrd_said hplain hinitrd
  have hboth := hsaid.trans hinitrdSaid
  cases ok with
  | false =>
      have hno : ¬ InitrdPasses ck cfg p vol a := fun hyes => Bool.false_ne_true (hiff.mpr hyes)
      refine (hboth.before (silent_unloadKernel _ _ _ hrun)).congr ?_
      rw [and_assoc]
      refine and_congr_right fun _ => and_congr_right fun _ => ?_
      constructor
      · exact fun hbrief _ => ⟨hbrief, fun hyes => absurd hyes hno⟩
      · exact fun hall => (hall hpasses).1
  | true =>
      have hyes := hiff.mp rfl
      obtain ⟨o, fw₄, happend, hrun⟩ := bind_ok.mp hrun
      obtain ⟨u', fw₅, hfree, hrun⟩ := bind_ok.mp hrun
      have hend : fw'.output = fw₄.output := by
        cases o with
        | none =>
            obtain ⟨rfl, rfl⟩ := pure_ok.mp hrun
            exact silent_free _ hfree
        | some buffer =>
            obtain ⟨u'', fw₆, hfree', hrun⟩ := bind_ok.mp hrun
            obtain ⟨rfl, rfl⟩ := pure_ok.mp hrun
            exact (silent_free _ hfree').trans (silent_free _ hfree)
      refine ((hboth.trans (loadAppend_said hplain happend)).before hend).congr ?_
      rw [and_assoc, and_assoc]
      refine and_congr_right fun _ => and_congr_right fun _ => ?_
      constructor
      · exact fun hall _ => ⟨hall.1, fun _ => hall.2⟩
      · exact fun hall => ⟨(hall hpasses).1, (hall hpasses).2 hyes⟩

/-- **An attempt** says only what fits exactly if its values are brief, under the answers of the
firmware to this attempt. -/
theorem loadAndValidateEntry_said (hplain : PlainValues cfg p) {r : Attempt}
    (h : loadAndValidateEntry ck cfg p vol a fw = .ok (r, fw')) :
    Says fw fw' (AttemptBrief ck cfg p vol a) := by
  have hnone : ∀ o ∈ prErr "No kernel defined for the entry!\n" [], Fits o :=
    (fits_prErr_iff _ _).mpr (fits_numbers [] briefFormats.noKernel)
  have hpages : ∀ o ∈ prErr "Unable to allocate memory for kernel image, insufficient memory?\n" [],
      Fits o := (fits_prErr_iff _ _).mpr (fits_numbers [] briefFormats.kernelPages)
  unfold loadAndValidateEntry at h
  unfold AttemptBrief
  obtain ⟨o, fw₁, hget, hrun⟩ := bind_ok.mp h
  have hpair := getPair_ok hget
  have hsilent₁ := silent_getPair _ _ _ hget
  cases o with
  | none =>
      obtain ⟨rfl, hsay⟩ := say_pure_ok hrun
      exact Says.absent hpair hsay hnone hsilent₁
  | some q =>
      obtain ⟨kernel, path⟩ := q
      replace hpair : menuGetPair cfg p kernelKey = .ok (some path) := hpair
      rw [forall_value_iff hpair]
      have hpath := hplain kernelKey (by simp [entryKeys]) path hpair
      have hunloaded : (∀ o ∈ prErr "Can't load kernel %s\n" [.str path.bytes], Fits o) ↔
          path.length ≤ 1003 :=
        (fits_prErr_iff _ _).trans (fits_room_iff (ascii "Can't load kernel ") (ascii "\n") rfl
          (by decide) (by decide) rfl hpath)
      unfold KernelFileBrief
      cases loadIntoPages_cases (withPages_getPair hget) hrun with
      | unsized hneg hstart hrest =>
          obtain ⟨rfl, hsay⟩ := say_pure_ok hrest
          rw [if_pos hneg]
          exact ((Says.say hsay).congr hunloaded).after hstart.output
      | noPages hneg hnone' hstart hrest =>
          obtain ⟨rfl, hsay⟩ := say_pure_ok hrest
          rw [if_neg hneg, hnone', if_pos Option.isNone_none]
          exact (Says.brief hsay hpages).after hstart.output
      | unread hneg hsome hbad hstart hrest =>
          obtain ⟨u, fw₂, hsay, hrest⟩ := bind_ok.mp hrest
          rw [if_neg hneg, if_neg (not_isNone hsome), if_pos (Or.inl hbad)]
          exact (((Says.say hsay).congr hunloaded).after hstart.output).before
            (silent_freeKernel _ hrest)
      | loaded hneg hsome hread _ _ hstart hrest =>
          rw [if_neg hneg, if_neg (not_isNone hsome)]
          obtain ⟨res, fw₂, himage, hrest⟩ := bind_ok.mp hrest
          obtain ⟨m, fw₃, hat, hanswer⟩ := bind_ok.mp himage
          have hsilent : fw₂.output = fw.output := by
            rw [silent_loadImage _ _ hanswer, silent_pagesAt _ hat, hstart.output]
          rcases loadImage_ok hanswer with ⟨hans, rfl, -⟩ | ⟨⟨hans, rfl⟩ | ⟨hans, rfl⟩, -⟩
          · rw [hans, if_pos (Or.inr (by decide))]
            obtain ⟨u, fw₄, hsay, hrest⟩ := bind_ok.mp hrest
            exact (((Says.say hsay).congr hunloaded).after hsilent).before
              (silent_freeKernelBase _ _ hrest)
          · rw [if_neg (by simp [hread, hans])]
            exact (setUpKernel_said hplain hpath hrest).after hsilent
          · rw [hans, if_pos (Or.inr (by decide))]
            obtain ⟨u, fw₄, hsay, hrest⟩ := bind_ok.mp hrest
            exact (((Says.say hsay).congr hunloaded).after hsilent).before
              (silent_freeKernelBase _ _ hrest)

end

/-! ## Runs of the menu -/

/-- The machine of the menu, what the firmware answers in the attempt with each number, and the
attempts that have been made. -/
structure Session where
  firmware : Firmware
  answers : Nat → Answers
  trials : List Trial

section

variable (ck : CharKind) (cfg : CString) (vol : Volume)

/-- `load_and_validate_entry` as `cmdline_loop` calls it. Nothing is known of what comes behind an
attempt that does what C code must not do, so the run ends with it. -/
def attempt (entry : Option Nat) (s : Session) : Int × Session :=
  match entry with
  | none => (0, s)
  | some p =>
    match loadAndValidateEntry ck cfg p vol (s.answers s.trials.length) s.firmware with
    | .error _ => (0, s)
    | .ok (r, fw) =>
      (r.ret, ⟨fw, s.answers, s.trials ++ [⟨p, s.answers s.trials.length⟩]⟩)

/-- The calls that write to the console: before the first prompt, those that echo what is typed,
those of the turns and those of the attempts. -/
def consoleCalls (m : Ready) (prompts : List Prompt) (ts : List Turn) (s : Session) :
    List Output :=
  m.output ++ (prompts.take ts.length).flatMap Prompt.echo ++ ts.flatMap Turn.output ++
    s.firmware.output

/-- All that the attempts of a session have said fits exactly if their values are brief. -/
def Session.Accounted (s : Session) : Prop :=
  (∀ o ∈ s.firmware.output, Fits o) ↔ ∀ t ∈ s.trials, AttemptBrief ck cfg t.entry vol t.answers

variable {ck cfg vol}

/-- **An attempt of the menu** adds a trial, and what is said in it; so the account still covers all
that has been said. -/
theorem Session.Accounted.attempt {l : Line} (hl : l ∈ labelLines cfg) {s : Session}
    (hs : s.Accounted ck cfg vol) :
    (attempt ck cfg vol (some (firstPlain l)) s).2.Accounted ck cfg vol := by
  unfold Boot.attempt
  dsimp only
  cases hrun : loadAndValidateEntry ck cfg (firstPlain l) vol (s.answers s.trials.length)
      s.firmware with
  | error e => exact hs
  | ok res =>
      obtain ⟨r, fw⟩ := res
      obtain ⟨out, hout, hiff⟩ := loadAndValidateEntry_said (plainValues_entry hl) hrun
      unfold Session.Accounted at hs ⊢
      rw [hout, List.forall_mem_append, List.forall_mem_append, hs, hiff,
        List.forall_mem_singleton]

/-- **Console output stays inside its buffers** exactly if the configuration and the values of the
entries that are tried leave room for the text around them: on every configuration, for all that
is typed and all that the firmware answers. -/
theorem menu_fits_iff (ck : CharKind) (cfg : CString) (vol : Volume) (prompts : List Prompt)
    (answers : Nat → Answers) (fw : Firmware) :
    ∃ m ts s returned, cmdlineSetup ck cfg = .ok m ∧
      cmdlineLoop (attempt ck cfg vol) ck cfg (prompts.map Prompt.answer)
        ⟨{ fw with output := [] }, answers, []⟩ = .ok (ts, s, returned) ∧
      ((∀ o ∈ consoleCalls m prompts ts s, Fits o) ↔
        MenuBrief cfg ∧ ∀ t ∈ s.trials, AttemptBrief ck cfg t.entry vol t.answers) := by
  obtain ⟨m, hsetup, hm⟩ := cmdlineSetup_ready ck cfg
  obtain ⟨ts, s, returned, hloop, -⟩ := selectLoop_sound (attempt ck cfg vol) hm m.timeout
    (prompts.map Prompt.answer) ⟨{ fw with output := [] }, answers, []⟩
  refine ⟨m, ts, s, returned, hsetup, ?_, ?_⟩
  · unfold cmdlineLoop
    rw [hsetup]
    exact hloop
  · have hstart : Session.Accounted ck cfg vol ⟨{ fw with output := [] }, answers, []⟩ :=
      iff_of_true (List.forall_mem_nil _) (List.forall_mem_nil _)
    obtain ⟨hattempts, hturns⟩ := selectLoop_shown hm (fun l hl s hs => hs.attempt hl) hloop hstart
    unfold Session.Accounted at hattempts
    have hechoes : ∀ o ∈ (prompts.take ts.length).flatMap Prompt.echo, Fits o := by
      intro o ho
      obtain ⟨prompt, -, ho⟩ := List.mem_flatMap.mp ho
      exact fits_echo prompt o ho
    have hsaid : ∀ o ∈ ts.flatMap Turn.output, Fits o := by
      intro o ho
      obtain ⟨t, ht, ho⟩ := List.mem_flatMap.mp ho
      exact hturns t ht o ho
    rw [consoleCalls, List.forall_mem_append, List.forall_mem_append, List.forall_mem_append,
      cmdlineSetup_fits_iff hsetup, hattempts]
    constructor
    · exact fun h => ⟨h.1.1.1, h.2⟩
    · exact fun h => ⟨⟨⟨h.1, hechoes⟩, hsaid⟩, h.2⟩

end

/-! ## A long label -/

set_option maxRecDepth 20000 in
/-- A menu with one entry, whose label is as long as the buffers are. -/
def longLabelCfg : CString :=
  ⟨ascii "label " ++ (List.replicate 1024 97 ++ [10]), by decide +kernel⟩

set_option maxRecDepth 20000 in
/-- A label of 1024 characters is put into a buffer of 1024 bytes, its end behind them. -/
theorem longLabel_overruns :
    ∃ m, cmdlineSetup .signed longLabelCfg = .ok m ∧
      .putsSized (List.replicate 1024 97) ∈ m.output ∧
      ¬ Fits (.putsSized (List.replicate 1024 97)) := by
  have hlisted : .putsSized (List.replicate 1024 97)
      ∈ (items longLabelCfg 0 (labelLines longLabelCfg)).flatMap Listed.output := by
    decide +kernel
  obtain ⟨m, hsetup, hm⟩ := cmdlineSetup_ready .signed longLabelCfg
  refine ⟨m, hsetup, ?_, ?_⟩
  · apply hm.printed.subset
    rw [hm.listing]
    exact hlisted
  · have hplain : ∀ c : UInt8, c ≠ 97 → c ∉ List.replicate 1024 97 :=
      fun c hc hmem => hc (List.eq_of_mem_replicate hmem)
    rw [@fits_iff _ (.putsSized (List.replicate 1024 97)) rfl (hplain 0 (by decide)),
      lineEnds_of_notMem (hplain 10 (by decide)), List.length_replicate]
    exact Nat.lt_irrefl 1024

end LoliLoader.Boot
