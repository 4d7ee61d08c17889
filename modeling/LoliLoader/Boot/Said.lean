/-
# LoliLoader.Boot.Said -- what a boot attempt says

The messages of `load_and_validate_entry` name the files of the entry and show its options. They are
followed step by step, with the condition under which all that has been said fits.

`Says C` is about two states of the machine: what has been said between them fits exactly if `C`
holds. Parts of a run that follow each other have the conjunction of their conditions
(`Says.trans`), and a part that says only what always fits contributes nothing. The condition of an
attempt is put together in this way and is exact, since no message is left out.

Which messages there are depends on the answers of the firmware: the path of the initrd is shown by
one message when it is not found and by two when it is loaded. So a condition says which values have
to be brief under which circumstances, and how brief depends on the message.

Messages with no more than a number always fit. They are gathered in `BriefFormats`, so that each of
their formats is checked once.
-/
import LoliLoader.Boot.Initrd
import LoliLoader.Menu.Shown

namespace LoliLoader.Boot

open C Menu Extlinux Interaction

/-! ## Messages that fit -/

/-- What is said between `fw` and `fw'` fits exactly if `C`. -/
def Says (fw fw' : Firmware) (C : Prop) : Prop :=
  ∃ out, fw'.output = fw.output ++ out ∧ ((∀ o ∈ out, Fits o) ↔ C)

namespace Says

variable {fw fw₁ fw₂ : Firmware} {C D : Prop}

theorem trans (h : Says fw fw₁ C) (h' : Says fw₁ fw₂ D) : Says fw fw₂ (C ∧ D) := by
  obtain ⟨out, hout, hiff⟩ := h
  obtain ⟨out', hout', hiff'⟩ := h'
  refine ⟨out ++ out', ?_, ?_⟩
  · rw [hout', hout, List.append_assoc]
  · rw [List.forall_mem_append, hiff, hiff']

theorem congr (h : Says fw fw₁ C) (hiff : C ↔ D) : Says fw fw₁ D := by
  obtain ⟨out, hout, hfits⟩ := h
  exact ⟨out, hout, hfits.trans hiff⟩

theorem nothing (h : fw₁.output = fw.output) : Says fw fw₁ True := by
  refine ⟨[], ?_, iff_of_true (List.forall_mem_nil _) trivial⟩
  rw [h, List.append_nil]

/-- Nothing has been said before. -/
theorem after (h : Says fw₁ fw₂ C) (hsilent : fw₁.output = fw.output) : Says fw fw₂ C := by
  obtain ⟨out, hout, hiff⟩ := h
  exact ⟨out, by rw [hout, hsilent], hiff⟩

/-- Nothing is said afterwards. -/
theorem before (h : Says fw fw₁ C) (hsilent : fw₂.output = fw₁.output) : Says fw fw₂ C := by
  obtain ⟨out, hout, hiff⟩ := h
  exact ⟨out, by rw [hsilent, hout], hiff⟩

/-- One more message. -/
theorem say {out : List Output} {u : Unit} (h : Boot.say out fw = .ok (u, fw₁)) :
    Says fw fw₁ (∀ o ∈ out, Fits o) := by
  refine ⟨out, ?_, Iff.rfl⟩
  rw [← modify_ok.mp h]

/-- One more message, which fits. -/
theorem brief {out : List Output} {u : Unit} (h : Boot.say out fw = .ok (u, fw₁))
    (hfits : ∀ o ∈ out, Fits o) : Says fw fw₁ True :=
  (say h).congr (iff_of_true hfits trivial)

/-- Two parts of a run that say only what fits. -/
theorem trans_brief (h : Says fw fw₁ True) (h' : Says fw₁ fw₂ True) : Says fw fw₂ True :=
  (h.trans h').congr (iff_of_true ⟨trivial, trivial⟩ trivial)

end Says

/-! ## Messages with values -/

/-- The keys an attempt looks up, in its order. -/
def entryKeys : List CString := [kernelKey, fdtKey, devicetreeKey, initrdKey, appendKey]

/-- Each of them is a key of one token, and none is the one that starts an entry. -/
theorem exists_key_of_mem_entryKeys {key : CString} (h : key ∈ entryKeys) :
    ∃ K : Key, K.first.bytes ≠ ascii "label" ∧ K.cstring = key := by
  simp only [entryKeys, List.mem_cons, List.not_mem_nil, or_false] at h
  rcases h with rfl | rfl | rfl | rfl | rfl
  · exact ⟨⟨⟨ascii "kernel", by decide, plain_of_all (by decide)⟩, []⟩, by decide, rfl⟩
  · exact ⟨⟨⟨ascii "fdt", by decide, plain_of_all (by decide)⟩, []⟩, by decide, rfl⟩
  · exact ⟨⟨⟨ascii "devicetree", by decide, plain_of_all (by decide)⟩, []⟩, by decide, rfl⟩
  · exact ⟨⟨⟨ascii "initrd", by decide, plain_of_all (by decide)⟩, []⟩, by decide, rfl⟩
  · exact ⟨⟨⟨ascii "append", by decide, plain_of_all (by decide)⟩, []⟩, by decide, rfl⟩

/-- The values of an entry are in one line each, so that they are shown without a carriage return
more. -/
def PlainValues (cfg : CString) (p : Nat) : Prop :=
  ∀ key ∈ entryKeys, ∀ v, menuGetPair cfg p key = .ok (some v) → (10 : UInt8) ∉ v.bytes

theorem plainValues_entry {cfg : CString} {own : Line} (hown : own ∈ labelLines cfg) :
    PlainValues cfg (firstPlain own) := by
  intro key hkey v hv
  obtain ⟨K, hK, rfl⟩ := exists_key_of_mem_entryKeys hkey
  exact newline_notMem_entry hown hK hv

/-- What holds of every value holds of the one there is. -/
theorem forall_value_iff {x : Except Fault (Option CString)} {v : CString} (h : x = .ok (some v))
    {P : CString → Prop} : (∀ w, x = .ok (some w) → P w) ↔ P v := by
  constructor
  · exact fun hall => hall v h
  · intro hv w hw
    obtain rfl := Option.some.inj (Except.ok.inj (h.symm.trans hw))
    exact hv

theorem forall_value_of_none {x : Except Fault (Option CString)} (h : x = .ok none)
    {P : CString → Prop} : ∀ w, x = .ok (some w) → P w := by
  intro w hw
  cases h.symm.trans hw

/-- Without a value, the message that says so is all there is. -/
theorem Says.absent {x : Except Fault (Option CString)} (h : x = .ok none) {P : CString → Prop}
    {fw fw₁ fw₂ : Firmware} {out : List Output} (hsay : Boot.say out fw₁ = .ok ((), fw₂))
    (hfits : ∀ o ∈ out, Fits o) (hsilent : fw₁.output = fw.output) :
    Says fw fw₂ (∀ w, x = .ok (some w) → P w) :=
  ((Says.brief hsay hfits).after hsilent).congr (iff_of_true trivial (forall_value_of_none h))

section

variable {format : String} {v : CString} {room : Nat}

/-- A message with a path and a size. -/
theorem prInfo_size_iff (pre : List UInt8)
    (hformat : ascii format
      = pre ++ 37 :: 115 :: (ascii ", size = " ++ 37 :: 108 :: 117 :: ascii "\n"))
    (hpre : (37 : UInt8) ∉ pre ∧ (0 : UInt8) ∉ pre)
    (hroom : (lineEnds pre).length + room = 1012) (hv : (10 : UInt8) ∉ v.bytes) (x : Int64) :
    (∀ o ∈ prInfo format [.str v.bytes, .int x.toInt], Fits o) ↔
      v.length + numberLength x.toUInt64.toNat ≤ room := by
  rw [fits_prInfo_iff, fits_sized_iff hformat hpre (by decide) (by decide) hv]
  show _ + 9 + _ + 2 < 1024 ↔ _
  omega

end

/-! ## The devicetree -/

section

variable {ck : CharKind} {vol : Volume} {a : Answers} {fw fw' : Firmware}

/-- Messages with no more than a number always fit: each of their formats has room for it. -/
structure BriefFormats : Prop where
  fdtSize : briefFormat (ascii "devicetree: size %lu\n") 1 = true
  fdtFixed : briefFormat (ascii "devicetree: applied fixes\n") 0 = true
  fdtUnfixed : briefFormat (ascii "devicetree: failed to apply fixes\n") 0 = true
  fdtNoFixup :
    briefFormat (ascii "EFI_DT_FIXUP_PROTOCOL isn't supported, apply no fixup\n") 0 = true
  fdtNone : briefFormat (ascii "FDT: (none)\n") 0 = true
  initrdDevice : briefFormat (ascii "failed to register initrd device: %d\n") 1 = true
  initrdProtocol : briefFormat (ascii "failed to install LoadFile2 Protocol: %d\n") 1 = true
  initrdNone : briefFormat (ascii "Initrd: (none)\n") 0 = true
  initrdPages : briefFormat
    (ascii "Unable to allocate memory for initrd, insufficient memory?\n") 0 = true
  noKernel : briefFormat (ascii "No kernel defined for the entry!\n") 0 = true
  kernelPages : briefFormat
    (ascii "Unable to allocate memory for kernel image, insufficient memory?\n") 0 = true

theorem briefFormats : BriefFormats := by
  constructor <;> exact briefFormat_ofList rfl

/-- `fdt_fixup_and_load` says only what fits. -/
theorem fdtFixupAndLoad_said {fdt : Memory} {u : Unit}
    (h : fdtFixupAndLoad a fdt fw = .ok (u, fw')) : Says fw fw' True := by
  have hsize : ∀ n : Int, ∀ o ∈ prInfo "devicetree: size %lu\n" [.int n], Fits o := fun n =>
    (fits_prInfo_iff _ _).mpr (fits_numbers [n] briefFormats.fdtSize)
  have happlied : ∀ o ∈ prInfo "devicetree: applied fixes\n" [], Fits o :=
    (fits_prInfo_iff _ _).mpr (fits_numbers [] briefFormats.fdtFixed)
  have hfailed : ∀ o ∈ prInfo "devicetree: failed to apply fixes\n" [], Fits o :=
    (fits_prInfo_iff _ _).mpr (fits_numbers [] briefFormats.fdtUnfixed)
  have hnone : ∀ o ∈ prInfo "EFI_DT_FIXUP_PROTOCOL isn't supported, apply no fixup\n" [], Fits o :=
    (fits_prInfo_iff _ _).mpr (fits_numbers [] briefFormats.fdtNoFixup)
  obtain ⟨size, fw₁, htotal, h⟩ := bind_ok.mp h
  obtain ⟨-, rfl⟩ := lift_ok.mp htotal
  obtain ⟨u₁, fw₂, hsay, h⟩ := bind_ok.mp h
  obtain ⟨copy, fw₃, hcopy, h⟩ := bind_ok.mp h
  obtain ⟨contents, fw₄, hblock, h⟩ := bind_ok.mp h
  obtain ⟨-, rfl⟩ := lift_ok.mp hblock
  have hstart := (Says.brief hsay (hsize _)).before (silent_malloc hcopy)
  cases hfix : a.fixup with
  | none =>
      rw [hfix] at h
      obtain ⟨u₅, fw₅, hsay₅, h⟩ := bind_ok.mp h
      refine (hstart.trans_brief (.brief hsay₅ hnone)).before ?_
      exact silent_installConfigurationTable _ _ h
  | some dtp =>
      rw [hfix] at h
      obtain ⟨u₅, fw₅, hreserve, h⟩ := bind_ok.mp h
      have hreserved : fw₅.output = fw₃.output := by rw [← modify_ok.mp hreserve]; rfl
      by_cases hst : dtp.status.toUInt32.toInt32 = 0
      · rw [if_pos hst] at h
        obtain ⟨u₆, fw₆, hsay₆, h⟩ := bind_ok.mp h
        have hsaid := Says.brief hsay₆ happlied
        exact (hstart.trans_brief (hsaid.after hreserved)).before
          (silent_installConfigurationTable _ _ h)
      · rw [if_neg hst] at h
        obtain ⟨u₆, fw₆, hsay₆, h⟩ := bind_ok.mp h
        have hsaid := Says.brief hsay₆ hfailed
        exact (hstart.trans_brief (hsaid.after hreserved)).before
          (silent_installConfigurationTable _ _ h)

/-- The messages about a devicetree file leave room for its path. -/
def FdtFileBrief (ck : CharKind) (vol : Volume) (a : Answers) (path : CString) : Prop :=
  if fileSizeOf ck vol a.fdtSize path < 0 then path.length ≤ 1006
  else if (fileSizeOf ck vol a.fdtSize path).toUInt64 < 28 then path.length ≤ 1009
  else if fileLoadOf ck vol a.fdtLoad path < 0 then path.length ≤ 1006
  else path.length + numberLength (fileLoadOf ck vol a.fdtLoad path).toUInt64.toNat ≤ 1007

/-- The devicetree file. -/
theorem loadFdtFrom_said {path : CString} (hpath : (10 : UInt8) ∉ path.bytes) {ok : Bool}
    (h : loadFdtFrom ck vol a path fw = .ok (ok, fw')) :
    Says fw fw' (FdtFileBrief ck vol a path) := by
  have hunloaded : (∀ o ∈ prErr "Can't load FDT %s\n" [.str path.bytes], Fits o) ↔
      path.length ≤ 1006 :=
    (fits_prErr_iff _ _).trans (fits_room_iff (ascii "Can't load FDT ") (ascii "\n") rfl (by decide)
      (by decide) rfl hpath)
  have hinvalid : (∀ o ∈ prErr "Invalid FDT %s\n" [.str path.bytes], Fits o) ↔
      path.length ≤ 1009 :=
    (fits_prErr_iff _ _).trans (fits_room_iff (ascii "Invalid FDT ") (ascii "\n") rfl (by decide)
      (by decide) rfl hpath)
  have hloaded := @prInfo_size_iff "FDT: %s, size = %lu\n" path 1007 (ascii "FDT: ") rfl (by decide)
    rfl hpath
  unfold FdtFileBrief
  obtain ⟨size, fw₁, hsize, hrun⟩ := bind_ok.mp h
  have hsilent := silent_fileGetSize _ _ _ _ hsize
  obtain ⟨-, rfl⟩ := fileGetSize_ok hsize
  by_cases hneg : fileSizeOf ck vol a.fdtSize path < 0
  · rw [if_pos hneg] at hrun ⊢
    obtain ⟨rfl, hsay⟩ := say_pure_ok hrun
    exact ((Says.say hsay).congr hunloaded).after hsilent
  rw [if_neg hneg] at hrun ⊢
  by_cases hsmall : (fileSizeOf ck vol a.fdtSize path).toUInt64 < 28
  · rw [if_pos hsmall] at hrun ⊢
    obtain ⟨rfl, hsay⟩ := say_pure_ok hrun
    exact ((Says.say hsay).congr hinvalid).after hsilent
  rw [if_neg hsmall] at hrun ⊢
  obtain ⟨base, fw₂, hmalloc, hrun⟩ := bind_ok.mp hrun
  obtain ⟨⟨ret, memory⟩, fw₃, hload, hrun⟩ := bind_ok.mp hrun
  have hsilent₃ : fw₃.output = fw.output := by
    rw [silent_fileLoad _ _ _ _ _ hload, silent_malloc hmalloc, hsilent]
  obtain ⟨-, hret, -⟩ := fileLoad_ok hload
  dsimp only at hret hrun
  subst hret
  by_cases hbad : fileLoadOf ck vol a.fdtLoad path < 0
  · rw [if_pos hbad] at hrun ⊢
    obtain ⟨u, fw₄, hsay, hrun⟩ := bind_ok.mp hrun
    obtain ⟨u', fw₅, hfree, hrun⟩ := bind_ok.mp hrun
    obtain ⟨rfl, rfl⟩ := pure_ok.mp hrun
    exact (((Says.say hsay).congr hunloaded).after hsilent₃).before (silent_free _ hfree)
  · rw [if_neg hbad] at hrun ⊢
    obtain ⟨u, fw₄, hsay, hrun⟩ := bind_ok.mp hrun
    obtain ⟨u', fw₅, hfix, hrun⟩ := bind_ok.mp hrun
    obtain ⟨u'', fw₆, hfree, hrun⟩ := bind_ok.mp hrun
    obtain ⟨rfl, rfl⟩ := pure_ok.mp hrun
    have hsaid := ((Says.say hsay).congr (hloaded _)).after hsilent₃
    have hboth := (hsaid.trans (fdtFixupAndLoad_said hfix)).before (silent_free _ hfree)
    exact hboth.congr (and_iff_left trivial)

end

/-! ## The entry -/

section

variable (ck : CharKind) (cfg : CString) (p : Nat) (vol : Volume) (a : Answers)

/-- The messages about the devicetree of the entry. -/
def FdtBrief : Prop :=
  ∀ path, fdtPairOf cfg p = .ok (some path) → FdtFileBrief ck vol a path

variable {ck cfg p vol a} {fw fw' : Firmware}

theorem loadFdt_said (hplain : PlainValues cfg p) {ok : Bool}
    (h : loadFdt ck cfg p vol a fw = .ok (ok, fw')) : Says fw fw' (FdtBrief ck cfg p vol a) := by
  have hnone : ∀ o ∈ prInfo "FDT: (none)\n" [], Fits o :=
    (fits_prInfo_iff _ _).mpr (fits_numbers [] briefFormats.fdtNone)
  obtain ⟨r, fw₁, hget, hrun⟩ := bind_ok.mp h
  obtain ⟨-, hpair⟩ := getFdtPair_ok hget
  have hsilent : fw₁.output = fw.output := by
    refine (silent_getPair _ _ _).bind (fun o => ?_) hget
    cases o with
    | none => exact silent_getPair _ _ _
    | some v => exact leaves_pure _
  unfold FdtBrief
  cases r with
  | none =>
      obtain ⟨rfl, hsay⟩ := say_pure_ok hrun
      exact Says.absent hpair hsay hnone hsilent
  | some q =>
      obtain ⟨buffer, path⟩ := q
      have hfdt : fdtPairOf cfg p = .ok (some path) := hpair
      -- the path is the value of one of the two keys
      have hpath : (10 : UInt8) ∉ path.bytes := by
        obtain ⟨o, hfirst, hrest⟩ := bind_eq_ok.mp hfdt
        cases o with
        | none => exact hplain devicetreeKey (by simp [entryKeys]) path hrest
        | some v =>
            obtain rfl := Option.some.inj (Except.ok.inj hrest)
            exact hplain fdtKey (by simp [entryKeys]) v hfirst
      exact ((loadFdtFrom_said hpath hrun).after hsilent).congr (forall_value_iff hfdt).symm

end

/-! ## The initrd -/

section

variable {ck : CharKind} {cfg : CString} {p : Nat} {vol : Volume} {a : Answers}
  {fw fw' : Firmware}

/-- `initrd_setup` says only what fits. -/
theorem initrdSetup_said {base : Nat} {size : UInt64} {status : Status}
    (h : initrdSetup a base size fw = .ok (status, fw')) : Says fw fw' True := by
  have hdevice : ∀ n : Int, ∀ o ∈ prErr "failed to register initrd device: %d\n" [.int n], Fits o :=
    fun n => (fits_prErr_iff _ _).mpr (fits_numbers [n] briefFormats.initrdDevice)
  have hprotocol : ∀ n : Int,
      ∀ o ∈ prErr "failed to install LoadFile2 Protocol: %d\n" [.int n], Fits o :=
    fun n => (fits_prErr_iff _ _).mpr (fits_numbers [n] briefFormats.initrdProtocol)
  obtain ⟨q, fw₁, hmalloc, hrun⟩ := bind_ok.mp h
  obtain ⟨⟨st₁, h₁⟩, fw₂, hfirst, hrun⟩ := bind_ok.mp hrun
  have hsilent : fw₂.output = fw.output := by
    rw [silent_installProtocolInterface _ _ _ _ hfirst, silent_malloc hmalloc]
  dsimp only at hrun
  by_cases hs : st₁ ≠ EFI_SUCCESS
  · rw [if_pos hs] at hrun
    obtain ⟨u, fw₃, hsay, hrun⟩ := bind_ok.mp hrun
    obtain ⟨u', fw₄, hfree, hrun⟩ := bind_ok.mp hrun
    obtain ⟨rfl, rfl⟩ := pure_ok.mp hrun
    exact ((Says.brief hsay (hdevice _)).after hsilent).before (silent_free _ hfree)
  rw [if_neg hs] at hrun
  obtain ⟨⟨st₂, h₂⟩, fw₃, hsecond, hrun⟩ := bind_ok.mp hrun
  have hsilent₃ : fw₃.output = fw.output := by
    rw [silent_installProtocolInterface _ _ _ _ hsecond, hsilent]
  dsimp only at hrun
  by_cases hs' : st₂ ≠ EFI_SUCCESS
  · rw [if_pos hs'] at hrun
    obtain ⟨u, fw₄, hsay, hrun⟩ := bind_ok.mp hrun
    refine ((Says.brief hsay (hprotocol _)).after hsilent₃).before ?_
    have hfree : Silent (free q >>= fun _ => (pure st₂ : Run Status)) :=
      (silent_free q).bind fun _ => leaves_pure _
    cases h₁ with
    | none => exact hfree hrun
    | some handle =>
        exact (silent_uninstallProtocolInterface handle .devicePath).bind (fun _ => hfree) hrun
  · rw [if_neg hs'] at hrun
    obtain ⟨rfl, rfl⟩ := pure_ok.mp hrun
    exact .nothing hsilent₃

/-- The messages about an initrd file leave room for its path. -/
def InitrdFileBrief (ck : CharKind) (vol : Volume) (a : Answers) (path : CString) : Prop :=
  if fileSizeOf ck vol a.initrdSize path < 0 then path.length ≤ 1003
  else if a.initrdPages.isNone then True
  else if fileLoadOf ck vol a.initrdLoad path < 0 then path.length ≤ 1003
  else path.length + numberLength (fileLoadOf ck vol a.initrdLoad path).toUInt64.toNat ≤ 1005

/-- The initrd file is found, there are pages for it, and it is read. -/
def InitrdFileRead (ck : CharKind) (vol : Volume) (a : Answers) (path : CString) : Prop :=
  ¬ fileSizeOf ck vol a.initrdSize path < 0 ∧ a.initrdPages.isSome ∧
    ¬ fileLoadOf ck vol a.initrdLoad path < 0

section

variable (ck cfg p vol a)

/-- The messages about the initrd of the entry leave room for its path, if there is one. -/
def InitrdBrief : Prop :=
  ∀ path, menuGetPair cfg p initrdKey = .ok (some path) → InitrdFileBrief ck vol a path

/-- The entry has no initrd, or it is read, so that the attempt goes on behind it. -/
def InitrdPasses : Prop :=
  ∀ path, menuGetPair cfg p initrdKey = .ok (some path) → InitrdFileRead ck vol a path

end

theorem loadInitrd_said (hplain : PlainValues cfg p) {ok : Bool}
    (h : loadInitrd ck cfg p vol a fw = .ok (ok, fw')) :
    (ok = true ↔ InitrdPasses ck cfg p vol a) ∧ Says fw fw' (InitrdBrief ck cfg p vol a) := by
  have hnone : ∀ o ∈ prInfo "Initrd: (none)\n" [], Fits o :=
    (fits_prInfo_iff _ _).mpr (fits_numbers [] briefFormats.initrdNone)
  have hpages : ∀ o ∈ prErr "Unable to allocate memory for initrd, insufficient memory?\n" [],
      Fits o := (fits_prErr_iff _ _).mpr (fits_numbers [] briefFormats.initrdPages)
  unfold loadInitrd at h
  unfold InitrdPasses InitrdBrief
  obtain ⟨o, fw₁, hget, hrun⟩ := bind_ok.mp h
  have hpair := getPair_ok hget
  have hsilent₁ := silent_getPair _ _ _ hget
  cases o with
  | none =>
      obtain ⟨rfl, hsay⟩ := say_pure_ok hrun
      have hno : menuGetPair cfg p initrdKey = .ok none := hpair
      exact ⟨iff_of_true rfl (forall_value_of_none hno), Says.absent hno hsay hnone hsilent₁⟩
  | some q =>
      obtain ⟨buffer, path⟩ := q
      replace hpair : menuGetPair cfg p initrdKey = .ok (some path) := hpair
      rw [forall_value_iff hpair, forall_value_iff hpair]
      have hpath := hplain initrdKey (by simp [entryKeys]) path hpair
      have hunloaded : (∀ o ∈ prErr "Can't load initrd %s\n" [.str path.bytes], Fits o) ↔
          path.length ≤ 1003 :=
        (fits_prErr_iff _ _).trans (fits_room_iff (ascii "Can't load initrd ") (ascii "\n") rfl
          (by decide) (by decide) rfl hpath)
      have hloaded := @prInfo_size_iff "Initrd %s, size = %lu\n" path 1005 (ascii "Initrd ") rfl
        (by decide) rfl hpath
      unfold InitrdFileRead InitrdFileBrief
      cases loadIntoPages_cases (withPages_getPair hget) hrun with
      | unsized hneg hstart hrest =>
          obtain ⟨rfl, hsay⟩ := say_pure_ok hrest
          rw [if_pos hneg]
          exact ⟨iff_of_false Bool.false_ne_true fun hread => hread.1 hneg,
            ((Says.say hsay).congr hunloaded).after hstart.output⟩
      | noPages hneg hnone' hstart hrest =>
          obtain ⟨rfl, hsay⟩ := say_pure_ok hrest
          rw [if_neg hneg, hnone', if_pos Option.isNone_none]
          exact ⟨iff_of_false Bool.false_ne_true fun hread => Bool.false_ne_true hread.2.1,
            (Says.brief hsay hpages).after hstart.output⟩
      | unread hneg hsome hbad hstart hrest =>
          obtain ⟨rfl, hsay⟩ := say_pure_ok hrest
          rw [if_neg hneg, if_neg (not_isNone hsome), if_pos hbad]
          exact ⟨iff_of_false Bool.false_ne_true fun hread => hread.2.2 hbad,
            ((Says.say hsay).congr hunloaded).after hstart.output⟩
      | loaded hneg hsome hread _ _ hstart hrest =>
          obtain ⟨u, fw₂, hsay, hrest⟩ := bind_ok.mp hrest
          obtain ⟨st, fw₃, hsetup, hrest⟩ := bind_ok.mp hrest
          obtain ⟨rfl, rfl⟩ := pure_ok.mp hrest
          have hsaid := ((Says.say hsay).congr (hloaded _)).after hstart.output
          rw [if_neg hneg, if_neg (not_isNone hsome), if_neg hread]
          exact ⟨iff_of_true rfl ⟨hneg, hsome, hread⟩,
            (hsaid.trans (initrdSetup_said hsetup)).congr (and_iff_left trivial)⟩

end

end LoliLoader.Boot
