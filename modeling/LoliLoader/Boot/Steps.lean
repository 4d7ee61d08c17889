/-
# LoliLoader.Boot.Steps -- what the steps of a boot attempt do to the environment

A step that has returned is taken apart into the steps it is made of. Most steps leave the
environment alone; of the file functions we also need what they return.

`bind_ok` is the rule for sequences, read backwards: from a run that has returned to the two runs it
is made of. With it a function is followed by naming the states between its steps, and its
definition is unfolded only once, where its lemma is proved.

`Leaves` is that a part of the machine stays as it is, for any part that is given by a projection.
It has rules for sequences, so that functions which keep the environment are recognised without
following them (`Keeps`).

`fileSizeOf` and `fileLoadOf` are what the two file functions return, as functions of the volume and
of the answers. They do not depend on the machine, which is why later statements can name them:
whether the kernel is found is a matter of the entry and of the firmware alone.
-/
import LoliLoader.Boot.Entry
import LoliLoader.Menu.Options

namespace LoliLoader.Boot

open C Menu

/-! ## Taking a run apart -/

section

variable {α β : Type} {fw fw' fw'' : Firmware}

theorem bind_ok {x : Run α} {f : α → Run β} {b : β} :
    (x >>= f) fw = .ok (b, fw'') ↔ ∃ a fw', x fw = .ok (a, fw') ∧ f a fw' = .ok (b, fw'') := by
  show (x fw >>= fun r => f r.1 r.2) = _ ↔ _
  cases hx : x fw with
  | error e => simp [bind, Except.bind]
  | ok r => exact ⟨fun h => ⟨r.1, r.2, rfl, h⟩, fun ⟨_, _, h, h'⟩ => by cases h; exact h'⟩

theorem pure_ok {a b : α} : (pure a : Run α) fw = .ok (b, fw') ↔ a = b ∧ fw = fw' := by
  show (Except.ok (a, fw) : Except Fault (α × Firmware)) = .ok (b, fw') ↔ _
  simp

theorem modify_ok {g : Firmware → Firmware} {u : Unit} :
    (modify g : Run Unit) fw = .ok (u, fw') ↔ g fw = fw' := by
  simp [modify, modifyGet, MonadStateOf.modifyGet, StateT.modifyGet, pure, Except.pure]

theorem get_ok {s : Firmware} : (get : Run Firmware) fw = .ok (s, fw') ↔ fw = s ∧ fw = fw' := by
  simp [get, getThe, MonadStateOf.get, StateT.get, pure, Except.pure]

theorem set_ok {s : Firmware} {u : PUnit} : (set s : Run PUnit) fw = .ok (u, fw') ↔ s = fw' := by
  show (Except.ok (PUnit.unit, s) : Except Fault (PUnit × Firmware)) = .ok (u, fw') ↔ _
  simp

theorem lift_ok {x : Except Fault α} {a : α} :
    (liftM x : Run α) fw = .ok (a, fw') ↔ x = .ok a ∧ fw = fw' := by
  show (StateT.lift x : Run α) fw = _ ↔ _
  cases x with
  | error e => simp [StateT.lift, bind, Except.bind]
  | ok b => simp [StateT.lift, bind, Except.bind, pure, Except.pure]

/-- A step that reports something and gives up. -/
theorem say_pure_ok {out : List Output} {a b : α}
    (h : (say out >>= fun _ => pure a : Run α) fw = .ok (b, fw')) :
    a = b ∧ say out fw = .ok ((), fw') := by
  obtain ⟨u, fw₁, hsay, h⟩ := bind_ok.mp h
  obtain ⟨rfl, rfl⟩ := pure_ok.mp h
  exact ⟨rfl, hsay⟩

/-- A step that leaves a part of the machine as it is. -/
def Leaves {γ : Type} (part : Firmware → γ) (x : Run α) : Prop :=
  ∀ ⦃fw r fw'⦄, x fw = .ok (r, fw') → part fw' = part fw

section

variable {γ : Type} {part : Firmware → γ}

theorem Leaves.bind {x : Run α} {f : α → Run β} (hx : Leaves part x)
    (hf : ∀ a, Leaves part (f a)) : Leaves part (x >>= f) := by
  intro fw r fw' h
  obtain ⟨a, fw₁, h₁, h₂⟩ := bind_ok.mp h
  rw [hf a h₂, hx h₁]

theorem leaves_pure (a : α) : Leaves part (pure a : Run α) := by
  intro fw r fw' h
  rw [(pure_ok.mp h).2]

theorem leaves_lift (x : Except Fault α) : Leaves part (liftM x : Run α) := by
  intro fw r fw' h
  rw [(lift_ok.mp h).2]

theorem leaves_modify {g : Firmware → Firmware} (hg : ∀ fw, part (g fw) = part fw) :
    Leaves part (modify g : Run Unit) := by
  intro fw r fw' h
  rw [← modify_ok.mp h, hg]

end

/-- A step that leaves the environment as it is, whenever it returns. -/
def Keeps (x : Run α) : Prop :=
  ∀ ⦃fw r fw'⦄, x fw = .ok (r, fw') → fw'.env = fw.env

theorem Keeps.bind {x : Run α} {f : α → Run β} (hx : Keeps x) (hf : ∀ a, Keeps (f a)) :
    Keeps (x >>= f) :=
  @Leaves.bind _ _ _ Firmware.env _ _ hx hf

theorem keeps_pure (a : α) : Keeps (pure a : Run α) := leaves_pure a

theorem keeps_lift (x : Except Fault α) : Keeps (liftM x : Run α) := leaves_lift x

theorem keeps_modify {g : Firmware → Firmware} (hg : ∀ fw, (g fw).env = fw.env) :
    Keeps (modify g : Run Unit) := leaves_modify hg

end

theorem keeps_say (out : List Output) : Keeps (say out) := keeps_modify fun _ => rfl

theorem keeps_free (p : Nat) : Keeps (free p) := keeps_modify fun _ => rfl

theorem keeps_fileClose (h : Nat) : Keeps (fileClose h) := keeps_modify fun _ => rfl

theorem malloc_ok {fw fw' : Firmware} {p : Nat} (h : malloc fw = .ok (p, fw')) :
    fw'.env = fw.env ∧ p = fresh (fw.pools ++ fw.env.tables.map Table.address) := by
  obtain ⟨s, fw₁, hget, h⟩ := bind_ok.mp h
  obtain ⟨rfl, rfl⟩ := get_ok.mp hget
  obtain ⟨u, fw₂, hset, h⟩ := bind_ok.mp h
  obtain rfl := set_ok.mp hset
  obtain ⟨rfl, rfl⟩ := pure_ok.mp h
  exact ⟨rfl, rfl⟩

theorem keeps_malloc : Keeps malloc := fun _ _ _ h => (malloc_ok h).1

theorem keeps_getPair (cfg : CString) (p : Nat) (key : CString) : Keeps (getPair cfg p key) := by
  unfold getPair
  refine (keeps_lift _).bind fun o => ?_
  cases o with
  | none => exact keeps_pure _
  | some v => exact keeps_malloc.bind fun _ => keeps_pure _

/-- The copy of a value is that of `menu_get_pair`. -/
theorem getPair_ok {cfg : CString} {p : Nat} {key : CString} {fw fw' : Firmware}
    {r : Option (Nat × CString)} (h : getPair cfg p key fw = .ok (r, fw')) :
    menuGetPair cfg p key = .ok (r.map Prod.snd) := by
  obtain ⟨o, fw₁, hlift, h⟩ := bind_ok.mp h
  obtain ⟨hpair, rfl⟩ := lift_ok.mp hlift
  cases o with
  | none =>
      obtain ⟨rfl, rfl⟩ := pure_ok.mp h
      exact hpair
  | some v =>
      obtain ⟨c, fw₂, hmalloc, h⟩ := bind_ok.mp h
      obtain ⟨rfl, rfl⟩ := pure_ok.mp h
      exact hpair

/-! ## Files -/

section

variable (ck : CharKind) (vol : Volume) (a : FileAnswers) (path : CString)

/-- The path the firmware is asked for: in wide characters, and fixed. -/
def openedPath : List UInt16 :=
  match fixPath (str2wcs ck path) with
  | .ok m => wideString m
  | .error _ => []

/-- The file that is opened, if the firmware does open it. -/
def openedFile : Option File :=
  if a.openFile = EFI_SUCCESS then vol (openedPath ck path) else none

/-- Both calls of `getInfo` answer as they should. -/
def InfoGiven : Prop := a.infoSize = toEfiErrno EFI_BUFFER_TOO_SMALL ∧ a.infoData = EFI_SUCCESS

instance : Decidable (InfoGiven a) := by
  unfold InfoGiven
  infer_instance

/-- What `file_get_size` returns: the size of the file, or -1 if it is not found or says nothing
about itself. -/
def fileSizeOf : Int64 :=
  match openedFile ck vol a path with
  | none => -1
  | some f => if InfoGiven a then (UInt64.ofNat f.contents.length).toInt64 else -1

/-- What `file_load` returns: the count that the read reports, or -1 if it does not come to the
read. -/
def fileLoadOf : Int64 :=
  match openedFile ck vol a path with
  | none => -1
  | some f => if InfoGiven a ∧ f.directory = false then a.read.reported.toInt64 else -1

variable {ck vol a path} {fw fw' : Firmware}

theorem fileSizeOf_some {f : File} (h : openedFile ck vol a path = some f) :
    fileSizeOf ck vol a path
      = if InfoGiven a then (UInt64.ofNat f.contents.length).toInt64 else -1 := by
  rw [fileSizeOf, h]

theorem fileLoadOf_some {f : File} (h : openedFile ck vol a path = some f) :
    fileLoadOf ck vol a path
      = if InfoGiven a ∧ f.directory = false then a.read.reported.toInt64 else -1 := by
  rw [fileLoadOf, h]

theorem fileOpen_ok {wpath : List UInt16} {r : Option (Nat × File)}
    (h : fileOpen vol a wpath fw = .ok (r, fw')) :
    fw'.env = fw.env ∧ ∃ m, fixPath wpath = .ok m ∧
      r.map Prod.snd = if a.openFile = EFI_SUCCESS then vol (wideString m) else none := by
  obtain ⟨q, fw₁, hmalloc, h⟩ := bind_ok.mp h
  obtain ⟨m, fw₂, hfix, h⟩ := bind_ok.mp h
  obtain ⟨hm, rfl⟩ := lift_ok.mp hfix
  obtain ⟨s, fw₃, hget, h⟩ := bind_ok.mp h
  obtain ⟨rfl, rfl⟩ := get_ok.mp hget
  have hk := keeps_malloc hmalloc
  dsimp only at h
  generalize hopened : (if a.openFile = EFI_SUCCESS then vol (wideString m) else none) = opened at h
  -- `fixedPath` is freed whether or not a file was opened
  have hrest : ∀ {fw₄ : Firmware} {f : Option File},
      (do free q; return f.map fun f => (fresh fw₁.files, f) : Run (Option (Nat × File))) fw₄
        = .ok (r, fw') → fw₄.env = fw₁.env → fw'.env = fw.env ∧ r.map Prod.snd = f := by
    intro fw₄ f h henv
    obtain ⟨u, fw₅, hfree, h⟩ := bind_ok.mp h
    obtain ⟨rfl, rfl⟩ := pure_ok.mp h
    refine ⟨by rw [keeps_free q hfree, henv, hk], ?_⟩
    cases f <;> rfl
  cases opened with
  | none =>
      obtain ⟨henv, hr⟩ := hrest h rfl
      exact ⟨henv, m, hm, hr.trans hopened.symm⟩
  | some f =>
      obtain ⟨u, fw₄, hset, h⟩ := bind_ok.mp h
      obtain rfl := set_ok.mp hset
      obtain ⟨henv, hr⟩ := hrest h rfl
      exact ⟨henv, m, hm, hr.trans hopened.symm⟩

theorem fileOpenStr_ok {r : Option (Nat × File)}
    (h : fileOpenStr ck vol a path fw = .ok (r, fw')) :
    fw'.env = fw.env ∧ r.map Prod.snd = openedFile ck vol a path := by
  obtain ⟨q, fw₁, hmalloc, h⟩ := bind_ok.mp h
  obtain ⟨o, fw₂, hopen, h⟩ := bind_ok.mp h
  obtain ⟨u, fw₃, hfree, h⟩ := bind_ok.mp h
  obtain ⟨rfl, rfl⟩ := pure_ok.mp h
  obtain ⟨henv, m, hm, hr⟩ := fileOpen_ok hopen
  refine ⟨by rw [keeps_free q hfree, henv, keeps_malloc hmalloc], ?_⟩
  rw [hr, openedFile, openedPath, hm]

theorem fileGetInfo_ok {r : Status × Option Nat} (h : fileGetInfo a fw = .ok (r, fw')) :
    fw'.env = fw.env ∧ (r.2.isSome ↔ InfoGiven a) := by
  unfold fileGetInfo at h
  -- asking for the size must be refused: a success is an error here
  have hne : EFI_SUCCESS ≠ toEfiErrno EFI_BUFFER_TOO_SMALL := by decide
  by_cases h0 : a.infoSize = EFI_SUCCESS
  · rw [if_pos h0] at h
    obtain ⟨rfl, rfl⟩ := pure_ok.mp h
    refine ⟨rfl, by simp [InfoGiven, h0, hne]⟩
  rw [if_neg h0] at h
  by_cases h5 : a.infoSize ≠ toEfiErrno EFI_BUFFER_TOO_SMALL
  · rw [if_pos h5] at h
    obtain ⟨rfl, rfl⟩ := pure_ok.mp h
    refine ⟨rfl, by simp [InfoGiven, h5]⟩
  rw [if_neg h5] at h
  obtain ⟨q, fw₁, hmalloc, h⟩ := bind_ok.mp h
  by_cases hdata : a.infoData ≠ EFI_SUCCESS
  · rw [if_pos hdata] at h
    obtain ⟨u, fw₂, hfree, h⟩ := bind_ok.mp h
    obtain ⟨rfl, rfl⟩ := pure_ok.mp h
    refine ⟨by rw [keeps_free q hfree, keeps_malloc hmalloc], by simp [InfoGiven, hdata]⟩
  · rw [if_neg hdata] at h
    obtain ⟨rfl, rfl⟩ := pure_ok.mp h
    refine ⟨keeps_malloc hmalloc, ?_⟩
    simp only [ne_eq, not_not] at h5 hdata
    simp [InfoGiven, h5, hdata]

/-- **`file_get_size`** leaves the environment alone, and what it returns does not depend on the
machine. -/
theorem fileGetSize_ok {r : Int64} (h : fileGetSize ck vol a path fw = .ok (r, fw')) :
    fw'.env = fw.env ∧ r = fileSizeOf ck vol a path := by
  obtain ⟨o, fw₁, hopen, h⟩ := bind_ok.mp h
  obtain ⟨henv, hfile⟩ := fileOpenStr_ok hopen
  cases o with
  | none =>
      obtain ⟨rfl, rfl⟩ := pure_ok.mp h
      exact ⟨henv, by rw [fileSizeOf, ← hfile]; rfl⟩
  | some hf =>
      obtain ⟨⟨st, info⟩, fw₂, hinfo, h⟩ := bind_ok.mp h
      obtain ⟨henv', hgiven⟩ := fileGetInfo_ok hinfo
      cases info with
      | none =>
          have hno : ¬ InfoGiven a := by simpa using hgiven
          obtain ⟨rfl, rfl⟩ := pure_ok.mp h
          refine ⟨henv'.trans henv, ?_⟩
          rw [fileSizeOf_some hfile.symm, if_neg hno]
      | some q =>
          have hyes : InfoGiven a := by simpa using hgiven
          obtain ⟨u, fw₃, hfree, h⟩ := bind_ok.mp h
          obtain ⟨u', fw₄, hclose, h⟩ := bind_ok.mp h
          obtain ⟨rfl, rfl⟩ := pure_ok.mp h
          refine ⟨by rw [keeps_fileClose _ hclose, keeps_free q hfree, henv', henv], ?_⟩
          rw [fileSizeOf_some hfile.symm, if_pos hyes]

/-- **`file_load`** leaves the environment alone; when it succeeds it has stored what was
transferred, from the start of the block on. -/
theorem fileLoad_ok {memory : Memory} {r : Int64 × Memory}
    (h : fileLoad ck vol a path memory fw = .ok (r, fw')) :
    fw'.env = fw.env ∧ r.1 = fileLoadOf ck vol a path ∧
      (0 ≤ r.1 → ∃ f, openedFile ck vol a path = some f ∧
        deliver memory (f.contents.take a.read.transferred) = .ok r.2) := by
  have hneg : ¬ (0 : Int64) ≤ -1 := by decide
  obtain ⟨o, fw₁, hopen, h⟩ := bind_ok.mp h
  obtain ⟨henv, hfile⟩ := fileOpenStr_ok hopen
  cases o with
  | none =>
      obtain ⟨rfl, rfl⟩ := pure_ok.mp h
      exact ⟨henv, by rw [fileLoadOf, ← hfile]; rfl, fun hle => absurd hle hneg⟩
  | some hf =>
      obtain ⟨⟨st, info⟩, fw₂, hinfo, h⟩ := bind_ok.mp h
      obtain ⟨henv', hgiven⟩ := fileGetInfo_ok hinfo
      cases info with
      | none =>
          have hno : ¬ InfoGiven a := by simpa using hgiven
          obtain ⟨rfl, rfl⟩ := pure_ok.mp h
          refine ⟨henv'.trans henv, ?_, fun hle => absurd hle hneg⟩
          rw [fileLoadOf_some hfile.symm, if_neg (fun hc => hno hc.1)]
      | some q =>
          have hyes : InfoGiven a := by simpa using hgiven
          dsimp only at h
          -- the buffer and the handle of a directory stay, but they are not in the environment
          by_cases hdir : hf.2.directory = true
          · rw [if_pos hdir] at h
            obtain ⟨rfl, rfl⟩ := pure_ok.mp h
            refine ⟨henv'.trans henv, ?_, fun hle => absurd hle hneg⟩
            rw [fileLoadOf_some hfile.symm, if_neg (by simp [hdir])]
          · rw [if_neg hdir] at h
            obtain ⟨u, fw₃, hfree, h⟩ := bind_ok.mp h
            obtain ⟨m, fw₄, hlift, h⟩ := bind_ok.mp h
            obtain ⟨hdel, rfl⟩ := lift_ok.mp hlift
            obtain ⟨u', fw₅, hclose, h⟩ := bind_ok.mp h
            obtain ⟨rfl, rfl⟩ := pure_ok.mp h
            refine ⟨by rw [keeps_fileClose _ hclose, keeps_free q hfree, henv', henv], ?_, ?_⟩
            · rw [fileLoadOf_some hfile.symm, if_pos ⟨hyes, by simpa using hdir⟩]
            · exact fun _ => ⟨hf.2, hfile.symm, hdel⟩

end

end LoliLoader.Boot
