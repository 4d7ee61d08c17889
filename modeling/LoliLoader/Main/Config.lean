/-
# LoliLoader.Main.Config -- the configuration that `load_cfg` reads

There is room for the whole file and a NUL behind it. Where the NUL goes is up to the count that the
firmware reports, which nothing checks.

`load_cfg` asks for the size of the file, takes a block of one byte more, reads the file into it and
stores the NUL at the count that was reported. If that is more than the file has, the store is out
of the block; if it is less, the configuration is cut. `CfgOverruns` and `CfgComplete` are the two
ends of this.

When the program stops here, it has panicked, since the file could not be read, or used the volume
although there is none, or stored outside of the block. `CfgHalt` has the three, with the conditions
on the firmware, and `ensures_loadCfg` says that there are no others.

What the configuration is when all goes well is stated in `CfgRead`: the bytes that were
transferred, up to the first NUL.
-/
import LoliLoader.Boot.Devicetree
import LoliLoader.Main.Rounds

namespace LoliLoader.Main

open C Menu Boot Interaction Runs

section

variable (ck : CharKind) (w : World)

/-- All of the file has been transferred, and its size is reported. -/
def CfgComplete (f : File) : Prop :=
  f.contents.length ≤ w.cfgLoad.read.transferred ∧
    w.cfgLoad.read.reported.toNat = f.contents.length

/-- `cfg` has been read from the file of the configuration. -/
def CfgRead (cfg : CString) : Prop :=
  ∃ f, w.vol (openedPath ck LOLI_CFG) = some f ∧ f.directory = false ∧
    (CfgComplete w f → cfg = CString.ofBuffer (f.contents ++ [0]))

/-- More is reported to have been read than the file has, so that the NUL goes behind the block. -/
def CfgOverruns : Prop :=
  ∃ f, w.vol (openedPath ck LOLI_CFG) = some f ∧
    f.contents.length < w.cfgLoad.read.reported.toNat

/-- The firmware does not give the loader the volume it comes from: it has no loaded image for it,
no file system on the device of that, or it cannot open the volume. -/
def NoVolume : Prop :=
  w.loadedImage ≠ EFI_SUCCESS ∨ w.fileSystem ≠ EFI_SUCCESS ∨ w.openVolume ≠ EFI_SUCCESS

/-- Why the program stops before there is a menu, and the fault it stops by. -/
inductive CfgHalt : Halt → Prop where
  | panicked : CfgHalt .panicked
  | noVolume (h : NoVolume w) : CfgHalt (.fault .null)
  | overruns (h : CfgOverruns ck w) : CfgHalt (.fault (.write w.cfgLoad.read.reported.toNat))

/-- What `load_cfg` ensures where it stops: nothing has been asked or started before, and the reason
is known. -/
def CfgStops (m : Machine) (e : Halt) (m' : Machine) : Prop := Asked 0 m m' ∧ CfgHalt ck w e

end

section

variable {ck : CharKind} {w : World} {m m' : Machine}

theorem asked_firmware {fw : Firmware} (h : fw.env = m.firmware.env) :
    Asked 0 m { m with firmware := fw } :=
  ⟨h, rfl, rfl, ⟨[], (List.append_nil _).symm, Or.inl rfl⟩, Nat.le_refl _⟩

/-- What the firmware does without a fault, and without a change of the environment. -/
theorem ensures_kept {α : Type} {x : Run α} {P : α → Prop} {E : Halt → Machine → Prop}
    (htotal : ∃ r, x m.firmware = .ok r)
    (hspec : ∀ a fw, x m.firmware = .ok (a, fw) → fw.env = m.firmware.env ∧ P a) :
    Ensures (onFirmware x) m (fun a m' => Asked 0 m m' ∧ P a) E := by
  obtain ⟨r, hr⟩ := htotal
  refine (ensures_onFirmware x fun f hf => ?_).imp ?_ fun _ _ h => h
  · rw [hr] at hf
    cases hf
  · rintro a m' ⟨fw, hx, rfl⟩
    obtain ⟨henv, ha⟩ := hspec a fw hx
    exact ⟨asked_firmware henv, ha⟩

/-- The block for the configuration. -/
theorem cfgRoom {size : Int64} {n : Nat} (hn : n < 2 ^ 63) (h : size.toUInt64.toNat = n) :
    (size + 1).toUInt64.toNat = n + 1 := by
  have hone : (1 : Int64).toUInt64.toNat = 1 := rfl
  rw [Int64.toUInt64_add, UInt64.toNat_add, h, hone]
  exact Nat.mod_eq_of_lt (by omega)

/-- The bytes of the configuration, with the NUL behind them. -/
theorem cfg_bytes {contents : List UInt8} {junk : Nat → UInt8} {n : Nat} {memory : Memory}
    (hall : contents.length ≤ n)
    (h : deliver (junkMemory junk (contents.length + 1)) (contents.take n) = .ok memory) :
    (memory.set contents.length (.data 0)).map Cell.byte = contents ++ [0] := by
  obtain ⟨-, rfl⟩ := deliver_ok h
  rw [List.take_of_length_le hall]
  obtain ⟨j, hj⟩ : ∃ j, (junkMemory junk (contents.length + 1)).drop contents.length = [j] := by
    apply List.length_eq_one_iff.mp
    rw [List.length_drop, length_junkMemory]
    omega
  rw [hj, List.set_append_right _ _ (by simp), List.map_append, map_byte_data]
  simp [Cell.byte]

/-- The block when the file has been loaded. -/
theorem cfgLoaded {f : File} {memory : Memory} {fw fw' : Firmware} {r : Int64 × Memory}
    (hf : w.vol (openedPath ck LOLI_CFG) = some f)
    (h : fileLoad ck w.vol w.cfgLoad LOLI_CFG memory fw = .ok (r, fw')) (hr : ¬ r.1 < 0) :
    f.directory = false ∧ r.1.toUInt64 = w.cfgLoad.read.reported ∧
      deliver memory (f.contents.take w.cfgLoad.read.transferred) = .ok r.2 := by
  obtain ⟨-, hret, hloaded⟩ := fileLoad_ok h
  obtain ⟨g, hopened, hdel⟩ := hloaded (Int64.not_lt.mp hr)
  obtain rfl := openedFile_unique hf hopened
  rw [fileLoadOf_some hopened] at hret
  by_cases hyes : InfoGiven w.cfgLoad ∧ g.directory = false
  · rw [if_pos hyes] at hret
    refine ⟨hyes.2, ?_, hdel⟩
    rw [hret, UInt64.toUInt64_toInt64]
  · rw [if_neg hyes] at hret
    exact absurd (by rw [hret]; decide) hr

/-- **The NUL** goes behind what is reported: it is in the block, or the program stops by a fault
that `CfgOverruns` accounts for. -/
theorem ensures_terminated {f : File} {memory : Memory} {size : Int64}
    (hf : w.vol (openedPath ck LOLI_CFG) = some f) (hdir : f.directory = false)
    (hsize : size.toUInt64 = w.cfgLoad.read.reported)
    (hdel : deliver (junkMemory w.cfgMemory (f.contents.length + 1))
      (f.contents.take w.cfgLoad.read.transferred) = .ok memory) (h : Asked 0 m m') :
    Ensures (do
        let cfg ← checked (storeByte memory size.toUInt64.toNat 0)
        return CString.ofBuffer (cfg.map Cell.byte)) m'
      (fun cfg m' => Asked 0 m m' ∧ CfgRead ck w cfg) (CfgStops ck w m) := by
  have hlength : memory.length = f.contents.length + 1 := by
    obtain ⟨hlen, rfl⟩ := deliver_ok hdel
    rw [length_junkMemory] at hlen
    rw [List.length_append, List.length_map, List.length_drop, length_junkMemory]
    omega
  rw [hsize]
  by_cases hroom : w.cfgLoad.read.reported.toNat < memory.length
  · have hstore : storeByte memory w.cfgLoad.read.reported.toNat 0
        = .ok (memory.set w.cfgLoad.read.reported.toNat (.data 0)) := by
      rw [storeByte, if_pos hroom]
    refine (ensures_checked (Q := fun cfg m'' =>
      cfg = memory.set w.cfgLoad.read.reported.toNat (.data 0) ∧ m'' = m') hstore
      ⟨rfl, rfl⟩).bind ?_
    rintro cfg m'' ⟨rfl, rfl⟩
    refine ensures_pure ⟨h, f, hf, hdir, ?_⟩
    rintro ⟨hall, hreported⟩
    rw [hreported, cfg_bytes hall hdel]
  · have hstore : storeByte memory w.cfgLoad.read.reported.toNat 0
        = .error (.write w.cfgLoad.read.reported.toNat) := by
      rw [storeByte, if_neg hroom]
    rw [hstore]
    exact ⟨h, .overruns ⟨f, hf, by omega⟩⟩

/-- **`load_cfg`** reads the configuration, or the program stops; it writes past the block only
where more is reported than the file has. -/
theorem ensures_loadCfg (m : Machine) :
    Ensures (loadCfg ck w) m (fun cfg m' => Asked 0 m m' ∧ CfgRead ck w cfg) (CfgStops ck w m) := by
  have hpanic : ∀ (msg : String) {m' : Machine}, Asked 0 m m' →
      Ensures (panic msg) m' (fun cfg m' => Asked 0 m m' ∧ CfgRead ck w cfg) (CfgStops ck w m) := by
    intro msg m' h
    exact (ensures_panic msg m').imp (fun _ _ h => h) fun e m'' ⟨hprinted, he⟩ =>
      ⟨h.trans hprinted, he ▸ .panicked⟩
  unfold loadCfg
  by_cases hvolume : w.openVolume ≠ EFI_SUCCESS
  · rw [if_pos hvolume]
    exact ensures_throw ⟨.refl 0 m, .noVolume (Or.inr (Or.inr hvolume))⟩
  rw [if_neg hvolume]
  -- the size
  obtain ⟨size, hsize⟩ := @fileGetSize_run ck w.vol w.cfgSize LOLI_CFG m.firmware
  refine (ensures_kept (P := fun s => s = fileSizeOf ck w.vol w.cfgSize LOLI_CFG) ⟨_, hsize⟩
    fun s fw h => fileGetSize_ok h).bind ?_
  rintro s m₁ ⟨h₁, rfl⟩
  split
  · exact hpanic _ h₁
  rename_i hsized
  obtain ⟨f, hopened, hbound, hlen⟩ := fileSizeOf_nonneg hsized
  have hf := openedFile_named hopened
  rw [cfgRoom hbound hlen]
  -- the block
  refine (ensures_kept (P := fun _ => True) ⟨_, malloc_run m₁.firmware⟩
    fun p fw h => ⟨(malloc_ok h).1, trivial⟩).bind ?_
  rintro p m₂ ⟨h₂, -⟩
  -- the file
  have hfits : ∀ g, openedFile ck w.vol w.cfgLoad LOLI_CFG = some g →
      g.contents.length ≤ (junkMemory w.cfgMemory (f.contents.length + 1)).length := by
    intro g hg
    obtain rfl := openedFile_unique hf hg
    rw [length_junkMemory]
    exact Nat.le_succ _
  obtain ⟨loaded, hload⟩ := fileLoad_run hfits m₂.firmware
  refine (ensures_kept (P := fun r => ¬ r.1 < 0 →
      f.directory = false ∧ r.1.toUInt64 = w.cfgLoad.read.reported ∧
        deliver (junkMemory w.cfgMemory (f.contents.length + 1))
          (f.contents.take w.cfgLoad.read.transferred) = .ok r.2) ⟨_, hload⟩
    fun r fw h => ⟨(fileLoad_ok h).1, cfgLoaded hf h⟩).bind ?_
  rintro ⟨size, memory⟩ m₃ ⟨h₃, hloaded⟩
  have hasked := (h₁.trans h₂).trans h₃
  dsimp only
  split
  · exact hpanic _ hasked
  · rename_i hread
    obtain ⟨hdir, hreported, hdel⟩ := hloaded hread
    exact ensures_terminated hf hdir hreported hdel hasked

end

end LoliLoader.Main
