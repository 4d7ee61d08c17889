/-
# LoliLoader.Boot.Silent -- steps of a boot attempt that say nothing

Only `say` writes to the console: the services of the firmware and the file functions leave what has
been said as it is.

`Silent` is the instance of `Leaves` for the output, as `Keeps` in `Boot.Steps` is that for the
environment. Both follow the rules for sequences, so most of the lemmas here go through a definition
step by step and find nothing that writes.

They are needed in two places. What an attempt says, and whether it fits, is followed in
`Boot.Said`; that all of it are strings, in `Boot.Talks`. In both a silent step is passed over with
one lemma, however long its definition is.

The lemmas carry no hypothesis on the machine or on the answers of the firmware, so they hold on the
paths where a step fails as well.
-/
import LoliLoader.Boot.Outcome

namespace LoliLoader.Boot

open C Menu

/-! ## Services -/

section

variable {α : Type}

/-- A step that says nothing: whenever it returns, the output is that of before. Whether it changes
the environment is left open. -/
abbrev Silent (x : Run α) : Prop := Leaves Firmware.output x

/-- A step that looks at the machine first. -/
theorem leaves_get {γ : Type} {part : Firmware → γ} {f : Firmware → Run α}
    (hf : ∀ ⦃fw r fw'⦄, f fw fw = .ok (r, fw') → part fw' = part fw) :
    Leaves part (get >>= f) := by
  intro fw r fw' h
  obtain ⟨s, fw₁, hget, h⟩ := bind_ok.mp h
  obtain ⟨rfl, rfl⟩ := get_ok.mp hget
  exact hf h

/-- A new machine of which a part is as it was. -/
theorem leaves_set {γ : Type} {part : Firmware → γ} {s fw fw' : Firmware} {x : Run α} {r : α}
    (h : (set s >>= fun _ => x) fw = .ok (r, fw')) (hs : part s = part fw) (hx : Leaves part x) :
    part fw' = part fw := by
  obtain ⟨u, fw₁, hset, h⟩ := bind_ok.mp h
  obtain rfl := set_ok.mp hset
  rw [hx h, hs]

theorem silent_free (p : Nat) : Silent (free p) := leaves_modify fun _ => rfl

theorem silent_malloc : Silent malloc :=
  leaves_get fun _ _ _ h => leaves_set h rfl (leaves_pure _)

theorem silent_mallocPages (answer : Option (Nat → UInt8)) (size : UInt64) :
    Silent (mallocPages answer size) := by
  unfold mallocPages
  cases answer with
  | none => exact leaves_pure _
  | some contents => exact leaves_get fun _ _ _ h => leaves_set h rfl (leaves_pure _)

theorem silent_freePages (p : Nat) : Silent (freePages p) := leaves_modify fun _ => rfl

theorem silent_unloadImage (handle : Nat) : Silent (unloadImage handle) :=
  leaves_modify fun _ => rfl

theorem silent_pagesAt (p : Nat) : Silent (pagesAt p) := by
  apply leaves_get
  intro fw r fw' h
  cases hfind : fw.env.pages.find? fun r => r.base = p with
  | none =>
      rw [hfind] at h
      cases h
  | some run =>
      rw [hfind] at h
      exact leaves_pure _ h

theorem silent_loadImage (answer : LoadImage) (source : Memory) :
    Silent (loadImage answer source) := by
  apply leaves_get
  intro fw r fw' h
  cases answer with
  | loaded => exact leaves_set h rfl (leaves_pure _)
  | securityViolation => exact leaves_set h rfl (leaves_pure _)
  | failed => exact leaves_pure _ h

theorem silent_installConfigurationTable (answer : Status) (table : Table) :
    Silent (installConfigurationTable answer table) := by
  apply leaves_modify
  intro fw
  by_cases h : answer = EFI_SUCCESS
  · rw [if_pos h]
  · rw [if_neg h]

theorem silent_installProtocolInterface (answer : Status) (handle : Option Nat) (guid : Guid)
    (interface : Interface) : Silent (installProtocolInterface answer handle guid interface) := by
  unfold installProtocolInterface
  by_cases h : answer = EFI_SUCCESS
  · rw [if_pos h]
    exact leaves_get fun _ _ _ h => leaves_set h rfl (leaves_pure _)
  · rw [if_neg h]
    exact leaves_pure _

theorem silent_uninstallProtocolInterface (handle : Nat) (guid : Guid) :
    Silent (uninstallProtocolInterface handle guid) := leaves_modify fun _ => rfl

theorem silent_getPair (cfg : CString) (p : Nat) (key : CString) : Silent (getPair cfg p key) := by
  refine (leaves_lift _).bind fun o => ?_
  cases o with
  | none => exact leaves_pure _
  | some v => exact silent_malloc.bind fun _ => leaves_pure _

theorem silent_setupAppend (ck : CharKind) (handle : Nat) (append : CString) :
    Silent (setupAppend ck handle append) :=
  silent_malloc.bind fun _ => leaves_modify fun _ => rfl

end

/-! ## Files -/

section

variable (ck : CharKind) (vol : Volume) (a : FileAnswers)

theorem silent_fileOpen (path : List UInt16) : Silent (fileOpen vol a path) := by
  refine silent_malloc.bind fun q => (leaves_lift _).bind fun m => leaves_get fun fw r fw' h => ?_
  by_cases hfile : (if a.openFile = EFI_SUCCESS then vol (wideString m) else none).isSome = true
  · rw [if_pos hfile] at h
    exact leaves_set h rfl ((silent_free q).bind fun _ => leaves_pure _)
  · rw [if_neg hfile] at h
    exact (silent_free q).bind (fun _ => leaves_pure _) h

theorem silent_fileOpenStr (path : CString) : Silent (fileOpenStr ck vol a path) :=
  silent_malloc.bind fun q => (silent_fileOpen vol a _).bind fun _ =>
    (silent_free q).bind fun _ => leaves_pure _

theorem silent_fileGetInfo : Silent (fileGetInfo a) := by
  unfold fileGetInfo
  by_cases h0 : a.infoSize = EFI_SUCCESS
  · rw [if_pos h0]
    exact leaves_pure _
  rw [if_neg h0]
  by_cases h5 : a.infoSize ≠ toEfiErrno EFI_BUFFER_TOO_SMALL
  · rw [if_pos h5]
    exact leaves_pure _
  rw [if_neg h5]
  refine silent_malloc.bind fun info => ?_
  by_cases hdata : a.infoData ≠ EFI_SUCCESS
  · rw [if_pos hdata]
    exact (silent_free info).bind fun _ => leaves_pure _
  · rw [if_neg hdata]
    exact leaves_pure _

theorem silent_fileClose (handle : Nat) : Silent (fileClose handle) := leaves_modify fun _ => rfl

theorem silent_fileGetSize (path : CString) : Silent (fileGetSize ck vol a path) := by
  refine (silent_fileOpenStr ck vol a path).bind fun o => ?_
  cases o with
  | none => exact leaves_pure _
  | some f =>
      refine (silent_fileGetInfo a).bind fun info => ?_
      rcases info with ⟨st, _ | info⟩
      · exact leaves_pure _
      · exact (silent_free info).bind fun _ => (silent_fileClose _).bind fun _ => leaves_pure _

theorem silent_fileLoad (path : CString) (memory : Memory) :
    Silent (fileLoad ck vol a path memory) := by
  refine (silent_fileOpenStr ck vol a path).bind fun o => ?_
  cases o with
  | none => exact leaves_pure _
  | some f =>
      refine (silent_fileGetInfo a).bind fun info => ?_
      rcases info with ⟨st, _ | info⟩
      · exact leaves_pure _
      · dsimp only
        by_cases hdir : f.2.directory = true
        · rw [if_pos hdir]
          exact leaves_pure _
        · rw [if_neg hdir]
          exact (silent_free info).bind fun _ => (leaves_lift _).bind fun _ =>
            (silent_fileClose _).bind fun _ => leaves_pure _

theorem silent_fileLoadPages (path : CString) (base : Nat) :
    Silent (fileLoadPages ck vol a path base) := by
  refine (silent_pagesAt base).bind fun memory => (silent_fileLoad ck vol a path memory).bind ?_
  intro r
  have hset : Silent (setPagesAt base r.2) := leaves_modify fun _ => rfl
  exact hset.bind fun _ => leaves_pure _

end

end LoliLoader.Boot
