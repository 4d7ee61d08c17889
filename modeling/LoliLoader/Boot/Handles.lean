/-
# LoliLoader.Boot.Handles -- what the file functions hold on to

Each call of `file_get_size` and `file_load` is followed to its end: the machine it leaves behind is
the one it started on, or that with a file handle and a pool buffer more.

The steps are described by machines and not by properties: `opened` is the machine with one more
file open, `allocated` that with one more buffer, and freeing the buffer gives back the machine from
before (`free_allocated`). So a run is computed step by step, and what is left at its end is read
off.

Two paths leave something behind. When the information about a file is refused, the file stays open,
and when `file_load` is given a directory, it returns without closing it and without freeing the
information. `releases_iff` says that these are all.

A call that fails in any other way gives back what it took. That includes a file that is not found,
for which there is nothing to close.
-/
import LoliLoader.Boot.Outcome

namespace LoliLoader.Boot

open C

/-! ## Paths -/

/-- `fix_path` stays inside a terminated path: it writes behind what it has read. -/
theorem fixPathLoop_total {path : List UInt16} {cur p : Nat} (hcur : cur ≤ p)
    (hp : p < path.length) (hend : path[path.length - 1]? = some 0) :
    ∃ m, fixPathLoop path cur p = .ok m := by
  induction hn : path.length - p using Nat.strongRecOn generalizing path cur p with
  | ind n ih =>
      unfold fixPathLoop
      rw [dif_pos hp]
      dsimp only
      rw [if_neg (by omega)]
      by_cases h0 : path[p] = 0
      · rw [if_pos h0]
        exact ⟨_, rfl⟩
      rw [if_neg h0]
      have hlast : p ≠ path.length - 1 := by
        intro heq
        rw [← heq, List.getElem?_eq_getElem hp] at hend
        exact h0 (Option.some.inj hend)
      have hnext : ∀ c cur', cur' ≤ p + 1 →
          ∃ m, fixPathLoop (path.set cur c) cur' (p + 1) = .ok m := by
        intro c cur' hcur'
        refine ih _ ?_ hcur' ?_ ?_ rfl
        · rw [List.length_set]
          omega
        · rw [List.length_set]
          omega
        · rw [List.length_set, List.getElem?_set_ne (by omega), hend]
      generalize (if path[p] = 47 then (92 : UInt16) else path[p]) = c
      split
      · exact hnext c (cur + 1) (by omega)
      · exact hnext c cur (by omega)

theorem fixPath_total (ck : CharKind) (path : CString) :
    ∃ m, fixPath (str2wcs ck path) = .ok m := by
  unfold fixPath str2wcs
  apply fixPathLoop_total (Nat.le_refl 0)
  · simp
  · simp

/-! ## Steps -/

theorem bind_run {α β : Type} {x : Run α} {f : α → Run β} {fw fw' : Firmware} {r : α}
    (h : x fw = .ok (r, fw')) : (x >>= f) fw = f r fw' := by
  show (x fw >>= fun r => f r.1 r.2) = _
  rw [h]
  rfl

theorem lift_run {α : Type} {x : Except Fault α} {r : α} (h : x = .ok r) (fw : Firmware) :
    (liftM x : Run α) fw = .ok (r, fw) := lift_ok.mpr ⟨h, rfl⟩

theorem modify_run (g : Firmware → Firmware) (fw : Firmware) :
    (modify g : Run Unit) fw = .ok ((), g fw) := rfl

theorem say_run (out : List Output) (fw : Firmware) :
    say out fw = .ok ((), { fw with output := fw.output ++ out }) := rfl

/-- The machine with one more file open, under a handle that was not in use. -/
def opened (fw : Firmware) : Firmware := { fw with files := fresh fw.files :: fw.files }

/-- The pool buffer that is allocated next: none of those in use, and none that a table is in. -/
def nextPool (fw : Firmware) : Nat := fresh (fw.pools ++ fw.env.tables.map Table.address)

/-- The machine with one more pool buffer, and all else as it was. -/
def allocated (fw : Firmware) : Firmware := { fw with pools := nextPool fw :: fw.pools }

theorem malloc_run (fw : Firmware) : malloc fw = .ok (nextPool fw, allocated fw) := rfl

theorem filter_fresh {ids : List Nat} {p : Nat} (h : p ∉ ids) :
    (p :: ids).filter (fun q => decide (q ≠ p)) = ids := by
  rw [List.filter_cons_of_neg (by simp), List.filter_eq_self]
  intro q hq
  rw [decide_eq_true_iff]
  rintro rfl
  exact h hq

theorem nextPool_notMem (fw : Firmware) : nextPool fw ∉ fw.pools :=
  fun h => fresh_notMem _ (List.mem_append_left _ h)

theorem free_eq (p : Nat) (fw : Firmware) :
    free p fw = .ok ((), { fw with pools := fw.pools.filter fun q => decide (q ≠ p) }) := rfl

theorem filter_nextPool (fw : Firmware) :
    (allocated fw).pools.filter (fun q => decide (q ≠ nextPool fw)) = fw.pools :=
  filter_fresh (nextPool_notMem fw)

theorem free_allocated (fw : Firmware) : free (nextPool fw) (allocated fw) = .ok ((), fw) := by
  rw [free_eq, filter_nextPool]
  rfl

/-- A buffer is freed after a file has been opened. -/
theorem free_opened (fw : Firmware) :
    free (nextPool fw) (opened (allocated fw)) = .ok ((), opened fw) := by
  have hpools : (opened (allocated fw)).pools = (allocated fw).pools := rfl
  rw [free_eq, hpools, filter_nextPool]
  rfl

theorem fileClose_run (fw : Firmware) : fileClose (fresh fw.files) (opened fw) = .ok ((), fw) := by
  show Except.ok ((), { fw with files := _ }) = _
  rw [opened, filter_fresh (fresh_notMem fw.files)]

section

variable {ck : CharKind} {vol : Volume} {a : FileAnswers} {path : CString}

/-- **Opening** a file takes its handle and nothing else, if it succeeds; else the machine is as it
was. -/
theorem fileOpen_run {wpath fixed : List UInt16} (hfixed : fixPath wpath = .ok fixed)
    (fw : Firmware) {file : Option File}
    (hfile : (if a.openFile = EFI_SUCCESS then vol (wideString fixed) else none) = file) :
    fileOpen vol a wpath fw = .ok (file.map fun f => (fresh fw.files, f),
      if file.isSome then opened fw else fw) := by
  unfold fileOpen
  rw [bind_run (malloc_run fw), bind_run (lift_run hfixed _)]
  dsimp only
  rw [hfile, bind_run (get_ok.mpr ⟨rfl, rfl⟩)]
  cases file with
  | none =>
      show (free (nextPool fw) >>= _) (allocated fw) = _
      rw [bind_run (free_allocated fw)]
      rfl
  | some f =>
      rw [Option.isSome_some, if_pos rfl, bind_run (@set_ok _ _ _ PUnit.unit |>.mpr rfl)]
      show (free (nextPool fw) >>= _) (opened (allocated fw)) = _
      rw [bind_run (free_opened fw)]
      rfl

theorem fileOpenStr_run (fw : Firmware) :
    fileOpenStr ck vol a path fw
      = .ok ((openedFile ck vol a path).map fun f => (fresh fw.files, f),
        if (openedFile ck vol a path).isSome then opened fw else fw) := by
  obtain ⟨fixed, hfixed⟩ := fixPath_total ck path
  have hfile : (if a.openFile = EFI_SUCCESS then vol (wideString fixed) else none)
      = openedFile ck vol a path := by
    rw [openedFile, openedPath, hfixed]
  unfold fileOpenStr
  rw [bind_run (malloc_run fw), bind_run (fileOpen_run hfixed _ hfile)]
  cases openedFile ck vol a path with
  | none =>
      rw [Option.isSome_none, if_neg Bool.false_ne_true]
      show (free (nextPool fw) >>= _) (allocated fw) = _
      rw [bind_run (free_allocated fw)]
      rfl
  | some f =>
      rw [Option.isSome_some, if_pos rfl]
      show (free (nextPool fw) >>= _) (opened (allocated fw)) = _
      rw [bind_run (free_opened fw)]
      rfl

/-- **`file_get_info`** takes a buffer when the information is given, and leaves none behind when it
is not. -/
theorem fileGetInfo_run (fw : Firmware) :
    ∃ status, fileGetInfo a fw = .ok ((status, if InfoGiven a then some (nextPool fw) else none),
      if InfoGiven a then allocated fw else fw) := by
  unfold fileGetInfo
  have hne : EFI_SUCCESS ≠ toEfiErrno EFI_BUFFER_TOO_SMALL := by decide
  by_cases h0 : a.infoSize = EFI_SUCCESS
  · have hno : ¬ InfoGiven a := fun h => hne (h0.symm.trans h.1)
    rw [if_pos h0, if_neg hno, if_neg hno]
    exact ⟨_, rfl⟩
  rw [if_neg h0]
  by_cases h5 : a.infoSize = toEfiErrno EFI_BUFFER_TOO_SMALL
  · rw [if_neg (not_not.mpr h5)]
    rw [bind_run (malloc_run fw)]
    by_cases hdata : a.infoData = EFI_SUCCESS
    · have hyes : InfoGiven a := ⟨h5, hdata⟩
      rw [if_neg (not_not.mpr hdata), if_pos hyes, if_pos hyes]
      exact ⟨_, rfl⟩
    · have hno : ¬ InfoGiven a := fun h => hdata h.2
      rw [if_pos hdata, if_neg hno, if_neg hno]
      refine ⟨a.infoData, ?_⟩
      show (free (nextPool fw) >>= _) (allocated fw) = _
      rw [bind_run (free_allocated fw)]
      rfl
  · have hno : ¬ InfoGiven a := fun h => h5 h.1
    rw [if_pos h5, if_neg hno, if_neg hno]
    exact ⟨_, rfl⟩

/-! ## The functions -/

/-- **`file_get_size`** keeps the file open when the information is refused, and else leaves the
machine as it was. -/
theorem fileGetSize_run (fw : Firmware) :
    ∃ r, fileGetSize ck vol a path fw = .ok (r,
      if openedFile ck vol a path = none ∨ InfoGiven a then fw else opened fw) := by
  unfold fileGetSize
  rw [bind_run (fileOpenStr_run fw)]
  cases hfile : openedFile ck vol a path with
  | none => exact ⟨_, rfl⟩
  | some f =>
      rw [Option.isSome_some, if_pos rfl]
      obtain ⟨status, hinfo⟩ := @fileGetInfo_run a (opened fw)
      by_cases hyes : InfoGiven a
      · rw [if_pos hyes, if_pos hyes] at hinfo
        rw [if_pos (Or.inr hyes)]
        refine ⟨(UInt64.ofNat f.contents.length).toInt64, ?_⟩
        show (fileGetInfo a >>= _) (opened fw) = _
        rw [bind_run hinfo]
        show (free (nextPool (opened fw)) >>= _) (allocated (opened fw)) = _
        rw [bind_run (free_allocated (opened fw))]
        show (fileClose (fresh fw.files) >>= _) (opened fw) = _
        rw [bind_run (fileClose_run fw)]
        rfl
      · rw [if_neg hyes, if_neg hyes] at hinfo
        rw [if_neg (by simp [hyes])]
        refine ⟨-1, ?_⟩
        show (fileGetInfo a >>= _) (opened fw) = _
        rw [bind_run hinfo]
        rfl

/-- **`file_load`** does, and of a directory it also keeps the information; a file that is read is
closed again. -/
theorem fileLoad_run {memory : Memory}
    (hroom : ∀ f, openedFile ck vol a path = some f → f.contents.length ≤ memory.length)
    (fw : Firmware) :
    ∃ r, fileLoad ck vol a path memory fw = .ok (r,
      if openedFile ck vol a path = none ∨
          InfoGiven a ∧ (openedFile ck vol a path).all (fun f => !f.directory) then fw
      else if InfoGiven a then allocated (opened fw) else opened fw) := by
  unfold fileLoad
  rw [bind_run (fileOpenStr_run fw)]
  cases hfile : openedFile ck vol a path with
  | none => exact ⟨_, rfl⟩
  | some f =>
      rw [Option.isSome_some, if_pos rfl]
      obtain ⟨status, hinfo⟩ := @fileGetInfo_run a (opened fw)
      by_cases hyes : InfoGiven a
      · rw [if_pos hyes, if_pos hyes] at hinfo
        by_cases hdir : f.directory = true
        · rw [if_neg (by simp [hdir]), if_pos hyes]
          refine ⟨(-1, memory), ?_⟩
          show (fileGetInfo a >>= _) (opened fw) = _
          rw [bind_run hinfo]
          dsimp only
          rw [if_pos hdir]
          rfl
        · rw [if_pos (by simp [hdir, hyes])]
          have hfits : (f.contents.take a.read.transferred).length ≤ memory.length := by
            rw [List.length_take]
            exact Nat.le_trans (Nat.min_le_right _ _) (hroom f hfile)
          refine ⟨(a.read.reported.toInt64,
            (f.contents.take a.read.transferred).map Cell.data ++
              memory.drop (f.contents.take a.read.transferred).length), ?_⟩
          show (fileGetInfo a >>= _) (opened fw) = _
          rw [bind_run hinfo]
          dsimp only
          rw [if_neg hdir]
          show (free (nextPool (opened fw)) >>= _) (allocated (opened fw)) = _
          rw [bind_run (free_allocated (opened fw)),
            bind_run (lift_run (by rw [deliver, if_pos hfits]) _)]
          show (fileClose (fresh fw.files) >>= _) (opened fw) = _
          rw [bind_run (fileClose_run fw)]
          rfl
      · rw [if_neg hyes, if_neg hyes] at hinfo
        rw [if_neg (by simp [hyes]), if_neg hyes]
        refine ⟨(-1, memory), ?_⟩
        show (fileGetInfo a >>= _) (opened fw) = _
        rw [bind_run hinfo]
        rfl

/-! ## What is released -/

/-- The call returns, with the pool buffers and the open files there were before. -/
def Releases {α : Type} (x : Run α) (fw : Firmware) : Prop :=
  ∃ r fw', x fw = .ok (r, fw') ∧ (∀ p, p ∈ fw'.pools ↔ p ∈ fw.pools) ∧
    ∀ h, h ∈ fw'.files ↔ h ∈ fw.files

theorem not_same_files_opened {fw fw' : Firmware} (hfiles : fw'.files = (opened fw).files) :
    ¬ ∀ h, h ∈ fw'.files ↔ h ∈ fw.files := by
  intro hsame
  have hmem : fresh fw.files ∈ fw'.files := by
    rw [hfiles]
    exact List.mem_cons_self
  exact fresh_notMem _ ((hsame _).mp hmem)

theorem releases_of_run {α : Type} {x : Run α} {fw : Firmware} {r : α} (h : x fw = .ok (r, fw)) :
    Releases x fw := ⟨r, fw, h, fun _ => Iff.rfl, fun _ => Iff.rfl⟩

/-- A call that leaves the file open. -/
theorem not_releases_of_run {α : Type} {x : Run α} {fw fw' : Firmware} {r : α}
    (h : x fw = .ok (r, fw')) (hfiles : fw'.files = (opened fw).files) : ¬ Releases x fw := by
  rintro ⟨r', fw'', h', -, hsame⟩
  obtain ⟨-, rfl⟩ := Prod.mk.inj (Except.ok.inj (h.symm.trans h'))
  exact not_same_files_opened hfiles hsame

/-- **The file functions release what they acquire** exactly if they get at the information about
the file, which for `file_load` must not be a directory, or if no file is opened at all. The memory
to load to is as large as the file. -/
theorem releases_iff (ck : CharKind) (vol : Volume) (a : FileAnswers) (path : CString)
    (fw : Firmware) :
    (Releases (fileGetSize ck vol a path) fw ↔
      openedFile ck vol a path = none ∨ InfoGiven a) ∧
    ∀ memory : Memory,
      (∀ f, openedFile ck vol a path = some f → f.contents.length ≤ memory.length) →
      (Releases (fileLoad ck vol a path memory) fw ↔
        openedFile ck vol a path = none ∨
          InfoGiven a ∧ (openedFile ck vol a path).all fun f => !f.directory) := by
  refine ⟨?_, ?_⟩
  · obtain ⟨r, hrun⟩ := @fileGetSize_run ck vol a path fw
    by_cases hcond : openedFile ck vol a path = none ∨ InfoGiven a
    · rw [if_pos hcond] at hrun
      exact iff_of_true (releases_of_run hrun) hcond
    · rw [if_neg hcond] at hrun
      exact iff_of_false (not_releases_of_run hrun rfl) hcond
  · intro memory hroom
    obtain ⟨r, hrun⟩ := fileLoad_run hroom fw
    by_cases hcond : openedFile ck vol a path = none ∨
        InfoGiven a ∧ (openedFile ck vol a path).all (fun f => !f.directory) = true
    · rw [if_pos hcond] at hrun
      exact iff_of_true (releases_of_run hrun) hcond
    · rw [if_neg hcond] at hrun
      refine iff_of_false (not_releases_of_run hrun ?_) hcond
      by_cases hyes : InfoGiven a
      · rw [if_pos hyes]
        rfl
      · rw [if_neg hyes]

end

/-- A file of one byte, which is read into a block of one byte: all is released. -/
theorem releases_iff_read :
    Releases (fileGetSize .signed (fun _ => some ⟨[77], false, by decide⟩)
      ⟨0, toEfiErrno EFI_BUFFER_TOO_SMALL, 0, ⟨0, 1, 1⟩⟩ ⟨ascii "k", by decide⟩)
      ⟨⟨[], [], [], []⟩, [], [], []⟩ ∧
    Releases (fileLoad .signed (fun _ => some ⟨[77], false, by decide⟩)
      ⟨0, toEfiErrno EFI_BUFFER_TOO_SMALL, 0, ⟨0, 1, 1⟩⟩ ⟨ascii "k", by decide⟩ [.junk 0])
      ⟨⟨[], [], [], []⟩, [], [], []⟩ := by
  obtain ⟨hsize, hload⟩ := releases_iff .signed (fun _ => some ⟨[77], false, by decide⟩)
    ⟨0, toEfiErrno EFI_BUFFER_TOO_SMALL, 0, ⟨0, 1, 1⟩⟩ ⟨ascii "k", by decide⟩
    ⟨⟨[], [], [], []⟩, [], [], []⟩
  have hgiven : InfoGiven ⟨0, toEfiErrno EFI_BUFFER_TOO_SMALL, 0, ⟨0, 1, 1⟩⟩ := by
    unfold InfoGiven
    decide
  have hfile : ∀ f, openedFile .signed (fun _ => some ⟨[77], false, by decide⟩)
      ⟨0, toEfiErrno EFI_BUFFER_TOO_SMALL, 0, ⟨0, 1, 1⟩⟩ ⟨ascii "k", by decide⟩ = some f →
      f = ⟨[77], false, by decide⟩ := fun f hf => (Option.some.inj hf).symm
  refine ⟨hsize.mpr (Or.inr hgiven), (hload [.junk 0] fun f hf => ?_).mpr (Or.inr ⟨hgiven, rfl⟩)⟩
  rw [hfile f hf]
  exact Nat.le_refl 1

/-- A directory is opened under every path, and its handle and its information stay. -/
theorem directory_not_released :
    ¬ Releases (fileLoad .signed (fun _ => some ⟨[], true, by decide⟩)
      ⟨0, toEfiErrno EFI_BUFFER_TOO_SMALL, 0, ⟨0, 0, 0⟩⟩ ⟨ascii "boot", by decide⟩ [])
      ⟨⟨[], [], [], []⟩, [], [], []⟩ := by
  rintro ⟨r, fw', hrun, hpools, -⟩
  have hleft : (fileLoad .signed (fun _ => some ⟨[], true, by decide⟩)
      ⟨0, toEfiErrno EFI_BUFFER_TOO_SMALL, 0, ⟨0, 0, 0⟩⟩ ⟨ascii "boot", by decide⟩ []
      ⟨⟨[], [], [], []⟩, [], [], []⟩).map (fun r => r.2.pools) = .ok [1] := by decide +kernel
  rw [hrun] at hleft
  have hpool : fw'.pools = [1] := Except.ok.inj hleft
  have hone : (1 : Nat) ∈ fw'.pools := by
    rw [hpool]
    exact List.mem_singleton_self 1
  exact absurd ((hpools 1).mp hone) (by decide)

end LoliLoader.Boot
