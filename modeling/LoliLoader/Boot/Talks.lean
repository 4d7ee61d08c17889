/-
# LoliLoader.Boot.Talks -- what a boot attempt prints

Every call of `printf` in a boot attempt has the arguments that its format asks for, and prints a
string.

A message is printable or not whatever the machine is, so this is not about states: `Talks` follows
the definition of a function, with a rule for sequences and one for a message. The steps that write
nothing are passed over by the lemmas of `Boot.Silent`.

What has to be checked of the formats stands in `AttemptFormats`, one field for each, with the kinds
of its arguments. It is evaluated once; the lemmas about the parts of the attempt take their formats
from there. A message that is added to the source needs a field here and a step in the lemma of its
function.

The strings that are shown are values of the configuration, copied by `menu_get_pair`, so there is
no terminator in them.

It says nothing about room: whether the text fits the buffers is the question of `Boot.Said`.
-/
import LoliLoader.Boot.Silent
import LoliLoader.Interaction.Printable

namespace LoliLoader.Boot

open C Menu Interaction

/-! ## Rules -/

/-- Between two states there is some more output, all of it strings: every call prints one, with the
arguments that its format asks for. -/
def Talk (fw fw' : Firmware) : Prop :=
  ∃ out, fw'.output = fw.output ++ out ∧ ∀ o ∈ out, Printable o

theorem Talk.of_eq {fw fw' : Firmware} (h : fw'.output = fw.output) : Talk fw fw' :=
  ⟨[], by rw [h, List.append_nil], List.forall_mem_nil _⟩

theorem Talk.trans {fw fw₁ fw₂ : Firmware} (h : Talk fw fw₁) (h' : Talk fw₁ fw₂) :
    Talk fw fw₂ := by
  obtain ⟨out, hout, hall⟩ := h
  obtain ⟨out', hout', hall'⟩ := h'
  refine ⟨out ++ out', by rw [hout', hout, List.append_assoc], ?_⟩
  exact List.forall_mem_append.mpr ⟨hall, hall'⟩

/-- What the computation prints are strings, on whatever machine it runs, if it returns. -/
def Talks {α : Type} (x : Run α) : Prop :=
  ∀ ⦃fw r fw'⦄, x fw = .ok (r, fw') → Talk fw fw'

section

variable {α β : Type} {x : Run α} {f : α → Run β}

theorem Talks.of_silent (h : Silent x) : Talks x := fun _ _ _ hx => .of_eq (h hx)

theorem talks_pure (a : α) : Talks (pure a) := .of_silent (leaves_pure a)

/-- One computation behind the other: what both print are strings. -/
theorem Talks.bind (h : Talks x) (hf : ∀ a, Talks (f a)) : Talks (x >>= f) := by
  intro fw r fw' hrun
  obtain ⟨a, fw₁, hx, hrest⟩ := bind_ok.mp hrun
  exact (h hx).trans (hf a hrest)

/-- A step that says nothing, and then the rest. -/
theorem Silent.talks (h : Silent x) (hf : ∀ a, Talks (f a)) :
    Talks (x >>= f) := (Talks.of_silent h).bind hf

/-- A message, if it prints a string. -/
theorem talks_say {out : List Output} (h : ∀ o ∈ out, Printable o) : Talks (say out) := by
  intro fw r fw' hsay
  exact ⟨out, by rw [← modify_ok.mp hsay], h⟩

end

/-! ## The messages -/

/-- What the formats of the messages ask for: one field for each message of an attempt, with the
kinds of the arguments it is called with. -/
structure AttemptFormats : Prop where
  fdtSize : asks "devicetree: size %lu\n" [.int] = true
  fdtFixed : asks "devicetree: applied fixes\n" [] = true
  fdtUnfixed : asks "devicetree: failed to apply fixes\n" [] = true
  fdtNoFixup : asks "EFI_DT_FIXUP_PROTOCOL isn't supported, apply no fixup\n" [] = true
  fdtUnloaded : asks "Can't load FDT %s\n" [.str] = true
  fdtInvalid : asks "Invalid FDT %s\n" [.str] = true
  fdtLoaded : asks "FDT: %s, size = %lu\n" [.str, .int] = true
  fdtNone : asks "FDT: (none)\n" [] = true
  initrdDevice : asks "failed to register initrd device: %d\n" [.int] = true
  initrdProtocol : asks "failed to install LoadFile2 Protocol: %d\n" [.int] = true
  initrdNone : asks "Initrd: (none)\n" [] = true
  initrdPages : asks "Unable to allocate memory for initrd, insufficient memory?\n" [] = true
  initrdUnloaded : asks "Can't load initrd %s\n" [.str] = true
  initrdLoaded : asks "Initrd %s, size = %lu\n" [.str, .int] = true
  append : asks "Append: %s\n" [.str] = true
  kernelLoaded : asks "Kernel %s, size = %lu\n" [.str, .int] = true
  kernelNone : asks "No kernel defined for the entry!\n" [] = true
  kernelPages : asks "Unable to allocate memory for kernel image, insufficient memory?\n" [] = true
  kernelUnloaded : asks "Can't load kernel %s\n" [.str] = true

/-- Each of the formats is evaluated once, here. -/
theorem attemptFormats : AttemptFormats := by
  constructor <;> exact asks_ofList rfl

/-! ## The devicetree -/

theorem talks_installConfigurationTable (answer : Status) (table : Table) :
    Talks (installConfigurationTable answer table) :=
  .of_silent (silent_installConfigurationTable _ _)

theorem talks_fdtFixupAndLoad (a : Answers) (fdt : Memory) : Talks (fdtFixupAndLoad a fdt) := by
  have formats := attemptFormats
  have hsize : ∀ n : Int, ∀ o ∈ prInfo "devicetree: size %lu\n" [.int n], Printable o :=
    fun n => printable_prInfo (printable_number n formats.fdtSize)
  have happlied : ∀ o ∈ prInfo "devicetree: applied fixes\n" [], Printable o :=
    printable_prInfo (printable_plain formats.fdtFixed)
  have hfailed : ∀ o ∈ prInfo "devicetree: failed to apply fixes\n" [], Printable o :=
    printable_prInfo (printable_plain formats.fdtUnfixed)
  have hnone : ∀ o ∈ prInfo "EFI_DT_FIXUP_PROTOCOL isn't supported, apply no fixup\n" [],
      Printable o := printable_prInfo (printable_plain formats.fdtNoFixup)
  unfold fdtFixupAndLoad
  refine (Silent.talks (leaves_lift _)) fun size => (talks_say (hsize _)).bind fun _ => ?_
  refine silent_malloc.talks fun copy => (Silent.talks (leaves_lift _)) fun contents => ?_
  dsimp only
  cases a.fixup with
  | none => exact (talks_say hnone).bind fun _ => talks_installConfigurationTable _ _
  | some dtp =>
      have hreserve : Silent (modify fun fw => setPages fw (reserve dtp.reserved fw.env.pages)) :=
        leaves_modify fun _ => rfl
      refine hreserve.talks fun _ => ?_
      by_cases hst : dtp.status.toUInt32.toInt32 = 0
      · rw [if_pos hst]
        exact (talks_say happlied).bind fun _ => talks_installConfigurationTable _ _
      · rw [if_neg hst]
        exact (talks_say hfailed).bind fun _ => talks_installConfigurationTable _ _

section

variable (ck : CharKind) (cfg : CString) (p : Nat) (vol : Volume) (a : Answers)

theorem talks_loadFdtFrom (path : CString) : Talks (loadFdtFrom ck vol a path) := by
  have formats := attemptFormats
  have hunloaded : ∀ o ∈ prErr "Can't load FDT %s\n" [.str path.bytes], Printable o :=
    printable_prErr (printable_string path formats.fdtUnloaded)
  have hinvalid : ∀ o ∈ prErr "Invalid FDT %s\n" [.str path.bytes], Printable o :=
    printable_prErr (printable_string path formats.fdtInvalid)
  have hloaded : ∀ n : Int, ∀ o ∈ prInfo "FDT: %s, size = %lu\n" [.str path.bytes, .int n],
      Printable o := fun n => printable_prInfo (printable_sized path n formats.fdtLoaded)
  unfold loadFdtFrom
  refine (silent_fileGetSize _ _ _ _).talks fun size => ?_
  by_cases hneg : size < 0
  · rw [if_pos hneg]
    exact (talks_say hunloaded).bind fun _ => talks_pure _
  rw [if_neg hneg]
  by_cases hsmall : size.toUInt64 < 28
  · rw [if_pos hsmall]
    exact (talks_say hinvalid).bind fun _ => talks_pure _
  rw [if_neg hsmall]
  refine silent_malloc.talks fun base => (silent_fileLoad _ _ _ _ _).talks fun r => ?_
  dsimp only
  by_cases hbad : r.1 < 0
  · rw [if_pos hbad]
    exact (talks_say hunloaded).bind fun _ => (silent_free _).talks fun _ => talks_pure _
  · rw [if_neg hbad]
    exact (talks_say (hloaded _)).bind fun _ => (talks_fdtFixupAndLoad _ _).bind fun _ =>
      (silent_free _).talks fun _ => talks_pure _

theorem talks_loadFdt : Talks (loadFdt ck cfg p vol a) := by
  have formats := attemptFormats
  have hnone : ∀ o ∈ prInfo "FDT: (none)\n" [], Printable o :=
    printable_prInfo (printable_plain formats.fdtNone)
  have hpair : Silent (getFdtPair cfg p) := by
    refine (silent_getPair _ _ _).bind fun o => ?_
    cases o with
    | none => exact silent_getPair _ _ _
    | some v => exact leaves_pure _
  refine hpair.talks fun o => ?_
  cases o with
  | none => exact (talks_say hnone).bind fun _ => talks_pure _
  | some q => exact talks_loadFdtFrom ck vol a q.2

/-! ## The initrd -/

theorem talks_initrdSetup (base : Nat) (size : UInt64) : Talks (initrdSetup a base size) := by
  have formats := attemptFormats
  have hdevice : ∀ n : Int,
      ∀ o ∈ prErr "failed to register initrd device: %d\n" [.int n], Printable o :=
    fun n => printable_prErr (printable_number n formats.initrdDevice)
  have hprotocol : ∀ n : Int,
      ∀ o ∈ prErr "failed to install LoadFile2 Protocol: %d\n" [.int n], Printable o :=
    fun n => printable_prErr (printable_number n formats.initrdProtocol)
  unfold initrdSetup
  refine silent_malloc.talks fun q => ?_
  refine (silent_installProtocolInterface _ _ _ _).talks fun r => ?_
  dsimp only
  by_cases hs : r.1 ≠ EFI_SUCCESS
  · rw [if_pos hs]
    exact (talks_say (hdevice _)).bind fun _ => (silent_free _).talks fun _ => talks_pure _
  rw [if_neg hs]
  refine (silent_installProtocolInterface _ _ _ _).talks fun r' => ?_
  by_cases hs' : r'.1 ≠ EFI_SUCCESS
  · rw [if_pos hs']
    refine (talks_say (hprotocol _)).bind fun _ => ?_
    cases r.2 with
    | none => exact (silent_free _).talks fun _ => talks_pure _
    | some handle =>
        exact (silent_uninstallProtocolInterface _ _).talks fun _ =>
          (silent_free _).talks fun _ => talks_pure _
  · rw [if_neg hs']
    exact talks_pure _

theorem talks_loadInitrd : Talks (loadInitrd ck cfg p vol a) := by
  have formats := attemptFormats
  have hnone : ∀ o ∈ prInfo "Initrd: (none)\n" [], Printable o :=
    printable_prInfo (printable_plain formats.initrdNone)
  have hpages : ∀ o ∈ prErr "Unable to allocate memory for initrd, insufficient memory?\n" [],
      Printable o := printable_prErr (printable_plain formats.initrdPages)
  have hunloaded : ∀ path : CString,
      ∀ o ∈ prErr "Can't load initrd %s\n" [.str path.bytes], Printable o :=
    fun path => printable_prErr (printable_string path formats.initrdUnloaded)
  have hloaded : ∀ (path : CString) (n : Int),
      ∀ o ∈ prInfo "Initrd %s, size = %lu\n" [.str path.bytes, .int n], Printable o :=
    fun path n => printable_prInfo (printable_sized path n formats.initrdLoaded)
  refine (silent_getPair _ _ _).talks fun o => ?_
  rcases o with _ | ⟨buffer, path⟩
  · exact (talks_say hnone).bind fun _ => talks_pure _
  refine (silent_fileGetSize _ _ _ _).talks fun size => ?_
  by_cases hneg : size < 0
  · rw [if_pos hneg]
    exact (talks_say (hunloaded _)).bind fun _ => talks_pure _
  rw [if_neg hneg]
  refine (silent_mallocPages _ _).talks fun pages => ?_
  cases pages with
  | none => exact (talks_say hpages).bind fun _ => talks_pure _
  | some base =>
      refine (silent_fileLoadPages _ _ _ _ _).talks fun ret => ?_
      by_cases hbad : ret < 0
      · rw [if_pos hbad]
        exact (talks_say (hunloaded _)).bind fun _ => talks_pure _
      · rw [if_neg hbad]
        exact (talks_say (hloaded _ _)).bind fun _ => (talks_initrdSetup a _ _).bind fun _ =>
          talks_pure _

/-! ## The entry -/

theorem talks_loadAppend (handle : Nat) : Talks (loadAppend ck cfg p handle) := by
  have formats := attemptFormats
  have happend : ∀ options : CString,
      ∀ o ∈ prInfo "Append: %s\n" [.str options.bytes], Printable o :=
    fun options => printable_prInfo (printable_string options formats.append)
  refine (silent_getPair _ _ _).talks fun o => ?_
  rcases o with _ | ⟨buffer, options⟩
  · exact (talks_say (happend ⟨ascii "(none)", by decide⟩)).bind fun _ => talks_pure _
  · exact (talks_say (happend options)).bind fun _ => (silent_setupAppend _ _ _).talks fun _ =>
      talks_pure _

theorem talks_freeKernel (kernel : Nat) : Talks (freeKernel kernel) :=
  (silent_free kernel).talks fun _ => talks_pure _

theorem talks_freeKernelBase (kernel base : Nat) : Talks (freeKernelBase kernel base) :=
  (silent_freePages base).talks fun _ => talks_freeKernel kernel

theorem talks_setUpKernel (path : CString) (kernel base : Nat) (size : Int64) (handle : Nat) :
    Talks (setUpKernel ck cfg p vol a path kernel base size handle) := by
  have formats := attemptFormats
  have hkernel : ∀ n : Int,
      ∀ o ∈ prInfo "Kernel %s, size = %lu\n" [.str path.bytes, .int n], Printable o :=
    fun n => printable_prInfo (printable_sized path n formats.kernelLoaded)
  have hunload : Talks (unloadKernel kernel base handle) :=
    (silent_unloadImage handle).talks fun _ => talks_freeKernelBase kernel base
  refine (talks_say (hkernel _)).bind fun _ => (talks_loadFdt ck cfg p vol a).bind fun fdt => ?_
  cases fdt with
  | false => exact hunload
  | true =>
      refine (talks_loadInitrd ck cfg p vol a).bind fun initrd => ?_
      cases initrd with
      | false => exact hunload
      | true =>
          refine (talks_loadAppend ck cfg p handle).bind fun append => ?_
          refine (silent_free kernel).talks fun _ => ?_
          cases append with
          | none => exact talks_pure _
          | some buffer => exact (silent_free buffer).talks fun _ => talks_pure _

/-- **A boot attempt** prints strings, whatever the entry is and whatever the firmware answers. -/
theorem talks_loadAndValidateEntry : Talks (loadAndValidateEntry ck cfg p vol a) := by
  have formats := attemptFormats
  have hnone : ∀ o ∈ prErr "No kernel defined for the entry!\n" [], Printable o :=
    printable_prErr (printable_plain formats.kernelNone)
  have hpages : ∀ o ∈ prErr
      "Unable to allocate memory for kernel image, insufficient memory?\n" [], Printable o :=
    printable_prErr (printable_plain formats.kernelPages)
  have hunloaded : ∀ path : CString,
      ∀ o ∈ prErr "Can't load kernel %s\n" [.str path.bytes], Printable o :=
    fun path => printable_prErr (printable_string path formats.kernelUnloaded)
  refine (silent_getPair _ _ _).talks fun o => ?_
  rcases o with _ | ⟨kernel, path⟩
  · exact (talks_say hnone).bind fun _ => talks_pure _
  refine (silent_fileGetSize _ _ _ _).talks fun size => ?_
  by_cases hneg : size < 0
  · rw [if_pos hneg]
    exact (talks_say (hunloaded _)).bind fun _ => talks_pure _
  rw [if_neg hneg]
  refine (silent_mallocPages _ _).talks fun pages => ?_
  cases pages with
  | none => exact (talks_say hpages).bind fun _ => talks_pure _
  | some base =>
      refine (silent_fileLoadPages _ _ _ _ _).talks fun ret => ?_
      by_cases hbad : ret < 0
      · rw [if_pos hbad]
        exact (talks_say (hunloaded _)).bind fun _ => talks_freeKernel kernel
      rw [if_neg hbad]
      have hload : Silent (loadEfiImage a base size) :=
        (silent_pagesAt base).bind fun _ => silent_loadImage _ _
      refine hload.talks fun image => ?_
      rcases image with ⟨_ | _, _ | handle⟩
      · exact (talks_say (hunloaded _)).bind fun _ => talks_freeKernelBase kernel base
      · exact (talks_say (hunloaded _)).bind fun _ => talks_freeKernelBase kernel base
      · exact (talks_say (hunloaded _)).bind fun _ => talks_freeKernelBase kernel base
      · exact talks_setUpKernel ck cfg p vol a path kernel base size handle

end

end LoliLoader.Boot
