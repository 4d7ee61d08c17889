/-
# LoliLoader.Boot.Failure -- what a failed boot attempt leaves behind

`load_and_validate_entry` undoes what it has done on four labels. Four things it does not undo: the
pages of a kernel that cannot be read (`free_kernel` is past `free_pages`), the image of a kernel
that violates security, what the devicetree has changed, and the pages of an initrd that cannot be
read.

Each of these has a condition on the entry, the files and the answers of the firmware, and
`LeavesTrace` is that one of them holds. `failed_env_iff` says that an attempt that fails leaves the
environment as it was exactly if it leaves no trace. The direction that is easily forgotten is that
a trace is never undone by accident: pages that are left have bases of their own, and a table that
is installed is not one of those there were (`env_eq_iff`).

After a failed attempt the menu asks again, so attempts follow each other on the same machine.
`FailedRun` is such a run, and `failedRun_env_iff` is about every point of it.

Only what the environment holds is compared. Pool buffers and open files are the subject of
`Boot.Handles`.
-/
import LoliLoader.Boot.Attempt

namespace LoliLoader.Boot

open C Menu

section

variable (ck : CharKind) (cfg : CString) (p : Nat) (vol : Volume) (a : Answers)

/-- What the attempt does and does not undo, should it fail. -/
def LeavesTrace : Prop :=
  KernelUnread ck cfg p vol a ∨
  KernelRead ck cfg p vol a ∧ (a.loadImage = .securityViolation ∨
    a.loadImage = .loaded ∧ FdtPasses ck cfg p vol a ∧
      (FdtChanges cfg p a ∨ InitrdUnread ck cfg p vol a))

variable {ck cfg p vol a} {fw fw' : Firmware} {r : Attempt}

theorem cons_ne_self {α : Type} (x : α) (xs : List α) : x :: xs ≠ xs := by
  intro h
  have := congrArg List.length h
  simp at this

/-- Pages and tables that are added make a difference. -/
theorem env_eq_iff {env : Environment} {new : List PageRun} {tables : List Table} :
    ({ env with pages := new ++ env.pages, tables := tables } : Environment) = env ↔
      new = [] ∧ tables = env.tables := by
  constructor
  · intro h
    have hpages : new ++ env.pages = env.pages := congrArg Environment.pages h
    exact ⟨List.append_left_eq_self.mp hpages, congrArg Environment.tables h⟩
  · rintro ⟨rfl, rfl⟩
    rfl

/-- **A failure after the kernel is loaded** takes the kernel away and nothing else: what the
devicetree has changed stays, and so do the pages of an initrd that is not read. -/
theorem setUpKernel_failed {path : CString} {kernel n : Nat} {size : Int64} {env : Environment}
    {m : Memory} (henv : fw.env = withKernel env m n)
    (h : setUpKernel ck cfg p vol a path kernel (fresh (env.pages.map PageRun.base)) size
      (fresh (env.images.map Image.handle)) fw = .ok (r, fw')) (hr : r.ret ≠ 0) :
    fw'.env = env ↔
      ¬ (FdtPasses ck cfg p vol a ∧ (FdtChanges cfg p a ∨ InitrdUnread ck cfg p vol a)) := by
  obtain ⟨u, fw₁, hsay, hrun⟩ := bind_ok.mp h
  have henv₁ : fw₁.env = withKernel env m n := by rw [keeps_say _ hsay, henv]
  have htables : fw₁.env.tables = env.tables := by rw [henv₁]; rfl
  -- the devicetree and the initrd: what either adds is still there after `unload_image`
  obtain ⟨ok, fw₂, hfdt, hrun⟩ := bind_ok.mp hrun
  rcases loadFdt_ok hfdt with ⟨rfl, henv₂, hno⟩ | ⟨rfl, hpasses, new, tables, hadds, hiff⟩
  · obtain ⟨rfl, henv'⟩ := unloadKernel_ok hrun
    have hadds : Adds (withKernel env m n) [] env.tables fw₂.env := by
      rw [henv₂, henv₁]
      exact .none _
    rw [unload_adds hadds] at henv'
    simp [henv', hno]
  obtain ⟨ok, fw₃, hinitrd, hrun⟩ := bind_ok.mp hrun
  rcases loadInitrd_ok hinitrd with
    ⟨rfl, new', hadds', hiff'⟩ | ⟨rfl, -⟩ | ⟨rfl, -⟩
  · obtain ⟨rfl, henv'⟩ := unloadKernel_ok hrun
    have hboth := hadds.trans hadds'
    rw [henv₁] at hboth
    rw [unload_adds hboth] at henv'
    have htables₂ : fw₂.env.tables = tables := by rw [hadds.eq]
    rw [htables] at hiff
    rw [henv', env_eq_iff, htables₂, List.append_eq_nil_iff, and_assoc, hiff, hiff']
    simp only [hpasses, true_and, not_or]
    exact and_comm
  -- the attempt has not failed
  all_goals
    obtain ⟨o, fw₄, happend, hrun⟩ := bind_ok.mp hrun
    obtain ⟨u', fw₅, hfree, hrun⟩ := bind_ok.mp hrun
    cases o with
    | none =>
        obtain ⟨rfl, rfl⟩ := pure_ok.mp hrun
        exact absurd rfl hr
    | some buffer =>
        obtain ⟨u'', fw₆, hfree', hrun⟩ := bind_ok.mp hrun
        obtain ⟨rfl, rfl⟩ := pure_ok.mp hrun
        exact absurd rfl hr

/-- **A failed attempt** leaves the environment as it was when it leaves no trace, and only then;
the trace is said in terms of the entry and the answers of the firmware. -/
theorem failed_env_iff (h : loadAndValidateEntry ck cfg p vol a fw = .ok (r, fw'))
    (hr : r.ret ≠ 0) : fw'.env = fw.env ↔ ¬ LeavesTrace ck cfg p vol a := by
  unfold LeavesTrace
  cases loadAndValidateEntry_ok h with
  | absent hno henv =>
      have hunread : ¬ KernelUnread ck cfg p vol a := fun ⟨path, hp, _⟩ => hno ⟨path, hp⟩
      have hread : ¬ KernelRead ck cfg p vol a := fun ⟨path, hp, _⟩ => hno ⟨path, hp⟩
      simp [henv, hunread, hread]
  | unread hunread henv =>
      have hne : fw'.env ≠ fw.env := by
        rw [henv]
        intro heq
        exact cons_ne_self _ _ (congrArg Environment.pages heq)
      simp [hne, hunread]
  -- `free_kernel_base` undoes all there is
  | refused hread hans henv =>
      simp [henv, hread.not_unread, hans]
  | violation hread hans henv =>
      have hne : fw'.env ≠ fw.env := by
        rw [henv]
        intro heq
        exact cons_ne_self _ _ (congrArg Environment.images heq)
      simp [hne, hread, hans]
  | @loaded _ fw₁ _ path _ _ _ hplaced hok hans hopened hdel henv hrest =>
      have hread : KernelRead ck cfg p vol a := ⟨path, hplaced, Int64.not_lt.mpr hok⟩
      rw [setUpKernel_failed henv hrest hr]
      simp [hread.not_unread, hread, hans]

end

/-! ## Runs of attempts -/

/-- An entry that is tried, with the answers of the firmware to this attempt. -/
structure Trial where
  entry : Nat
  answers : Answers

section

variable (ck : CharKind) (cfg : CString) (vol : Volume)

/-- Attempts that fail one after the other, with the machine after each; the next one starts on that
machine. -/
inductive FailedRun : Firmware → List Trial → List Firmware → Prop where
  | nil {fw} : FailedRun fw [] []
  | cons {fw fw' r t ts fws}
      (step : loadAndValidateEntry ck cfg t.entry vol t.answers fw = .ok (r, fw'))
      (failed : r.ret ≠ 0) (rest : FailedRun fw' ts fws) :
      FailedRun fw (t :: ts) (fw' :: fws)

variable {ck cfg vol} {fw : Firmware} {ts : List Trial} {fws : List Firmware}

/-- **Failed attempts** leave the firmware as it was, at every point of the run, exactly when
none of them leaves a trace. -/
theorem failedRun_env_iff (h : FailedRun ck cfg vol fw ts fws) :
    (∀ s ∈ fws, s.env = fw.env) ↔ ∀ t ∈ ts, ¬ LeavesTrace ck cfg t.entry vol t.answers := by
  induction h with
  | nil => simp
  | @cons fw fw' r t ts fws hstep hfailed hrest ih =>
      have hiff := failed_env_iff hstep hfailed
      simp only [List.forall_mem_cons]
      constructor
      · rintro ⟨henv, hall⟩
        refine ⟨hiff.mp henv, ih.mp fun s hs => ?_⟩
        rw [hall s hs, henv]
      · rintro ⟨hno, hall⟩
        have henv := hiff.mpr hno
        refine ⟨henv, fun s hs => ?_⟩
        rw [ih.mpr hall s hs, henv]

end

/-! ## Two trials -/

/-- A file service that does all it is asked, for a file of `n` bytes. -/
def obligingFile (n : Nat) : FileAnswers :=
  ⟨EFI_SUCCESS, toEfiErrno EFI_BUFFER_TOO_SMALL, EFI_SUCCESS, ⟨EFI_SUCCESS, n, UInt64.ofNat n⟩⟩

/-- A firmware that does all it is asked, for files of `n` bytes. -/
def obliging (n : Nat) : Answers where
  kernelSize := obligingFile n
  kernelPages := some fun _ => 0
  kernelLoad := obligingFile n
  loadImage := .loaded
  fdtSize := obligingFile n
  fdtMemory := fun _ => 0
  fdtLoad := obligingFile n
  copyMemory := fun _ => 0
  fixup := none
  installTable := EFI_SUCCESS
  initrdSize := obligingFile n
  initrdPages := some fun _ => 0
  initrdLoad := obligingFile n
  installDevicePath := EFI_SUCCESS
  installLoadFile2 := EFI_SUCCESS

/-- A file of one byte that is not found when it is opened, although its name is there. -/
def missingFile : FileAnswers := { obligingFile 1 with openFile := toEfiErrno EFI_NOT_FOUND }

/-- A machine on which nothing has been loaded, installed or allocated. -/
def bareFirmware : Firmware := ⟨⟨[], [], [], []⟩, [], [], []⟩

/-- A volume on which every path names a file with one byte. -/
def byteVolume : Volume := fun _ => some ⟨[77], false, by decide⟩

/-- A menu with one entry, which has a kernel and nothing else. -/
def kernelCfg : CString := ⟨ascii "label a\nkernel k\n", by decide⟩

/-- The kernel is read, and refused by `loadImage`: its pages are given back. -/
def refusedTrial : Trial := ⟨0, { obliging 1 with loadImage := .failed }⟩

/-- The kernel is loaded and the initrd cannot be opened: the image is unloaded again. -/
def noInitrdTrial : Trial :=
  ⟨0, { obliging 1 with initrdSize := missingFile }⟩

/-- A menu with one entry, which has a kernel and an initrd. -/
def initrdCfg : CString := ⟨ascii "label a\nkernel k\ninitrd i\n", by decide⟩

/-- A run of which something is known has returned. -/
theorem ok_of_map {ε α β : Type} {x : Except ε α} {g : α → β} {b : β}
    (h : x.toOption.map g = some b) : ∃ y, x = .ok y ∧ g y = b := by
  cases x with
  | error e => cases h
  | ok y => exact ⟨y, rfl, Option.some.inj h⟩

/-- The two attempts one after the other, and one whose kernel is not found when it is to be read:
what they return and what they leave. -/
theorem failure_runs :
    (loadAndValidateEntry .signed initrdCfg 0 byteVolume refusedTrial.answers
      bareFirmware).toOption.map (fun x => (x.1.ret, (loadAndValidateEntry .signed initrdCfg 0
        byteVolume noInitrdTrial.answers x.2).toOption.map fun y => (y.1.ret, y.2.env)))
        = some (-1, some (-1, bareFirmware.env)) ∧
    (loadAndValidateEntry .signed kernelCfg 0 byteVolume
      { obliging 1 with kernelLoad := missingFile }
      bareFirmware).toOption.map (fun x => (x.1.ret, x.2.env.pages.map PageRun.base))
        = some (-1, [1]) := by decide +kernel

/-- Two attempts that fail with pages allocated, the second one with a loaded image as well. -/
theorem failedRun_env_twice :
    ∃ fw₁ fw₂, FailedRun .signed initrdCfg byteVolume bareFirmware [refusedTrial, noInitrdTrial]
        [fw₁, fw₂] ∧
      ((∀ s ∈ [fw₁, fw₂], s.env = bareFirmware.env) ↔
        ∀ t ∈ [refusedTrial, noInitrdTrial],
          ¬ LeavesTrace .signed initrdCfg t.entry byteVolume t.answers) ∧
      fw₂.env = bareFirmware.env := by
  obtain ⟨⟨r₁, fw₁⟩, hfirst, hres⟩ := ok_of_map failure_runs.1
  obtain ⟨hret₁, hsecond⟩ := Prod.mk.inj hres
  obtain ⟨⟨r₂, fw₂⟩, hsecond, hres⟩ := ok_of_map hsecond
  obtain ⟨hret₂, henv⟩ := Prod.mk.inj hres
  have hne : (-1 : Int) ≠ 0 := by decide
  have hruns : FailedRun .signed initrdCfg byteVolume bareFirmware [refusedTrial, noInitrdTrial]
      [fw₁, fw₂] := .cons hfirst (hret₁ ▸ hne) (.cons hsecond (hret₂ ▸ hne) .nil)
  exact ⟨fw₁, fw₂, hruns, failedRun_env_iff hruns, henv⟩

/-- The kernel cannot be opened a second time: its pages stay allocated. -/
theorem failed_leaves_pages :
    ∃ r fw', loadAndValidateEntry .signed kernelCfg 0 byteVolume
        { obliging 1 with kernelLoad := missingFile } bareFirmware = .ok (r, fw') ∧
      r.ret ≠ 0 ∧ fw'.env ≠ bareFirmware.env := by
  obtain ⟨⟨r, fw'⟩, hok, hres⟩ := ok_of_map failure_runs.2
  obtain ⟨hret, hpages⟩ := Prod.mk.inj hres
  refine ⟨r, fw', hok, ?_, ?_⟩
  · rw [hret]
    decide
  · intro henv
    rw [henv] at hpages
    cases hpages

end LoliLoader.Boot
