/-
# LoliLoader.Main.Program -- main of src/loli.c

The program from its first line on: it sets up the console, reads the configuration, asks for an
entry until one can be booted, and starts that.

The functions here are those of src/interaction.c and src/loli.c that wait for keys or call others
that do.  The rest of the source appears as it has been modelled before: `load_and_validate_entry`
with all that it calls is a computation on the firmware alone, and the menu is worked out from the
configuration without a machine.

Two loops of the source have no bound of their own: that of `getline_timeout` and that of
`cmdline_loop`.  Every turn of either takes a key at least, so they get one turn more than there are
keys, and the last turn is never reached.  A prompt at which no key is left is where the program
waits for good.
-/
import LoliLoader.Main.SetUp
import LoliLoader.Menu.Select

namespace LoliLoader.Main

open C Menu Boot Interaction

/-! ## src/interaction.c -/

/-- `getchar_timeout`; null stands for `EOF`. It takes one of the keys that are left, and waits for
good if there is none. -/
def getcharTimeout (timeout : Int32) : Program (Option Nat) := fun m =>
  match m.keys with
  | [] => .error .waiting m
  | a :: keys =>
    let (calls, c) := Interaction.getcharTimeout timeout a
    let m := { m with keys := keys, calls := m.calls ++ calls }
    match c with
    | .panic msg => panic msg m
    | .eof => .ok none m
    | .char c => .ok (some c) m

/-- The loop of `getline_timeout`, with `s` typed so far; every turn takes a key. -/
def getlineLoop : Nat → Int32 → List UInt8 → Program (Option CString)
  | 0, _, _ => throw .waiting
  | turns + 1, timeout, s => do
    match ← getcharTimeout timeout with
    | none => return none
    | some c =>
      if c = 8 ∧ s ≠ [] then do
        print [.printf "\x08 \x08" []]
        getlineLoop turns 0 s.dropLast
      else if isprint c = false then
        if c ≠ 13 ∧ c ≠ 10 then getlineLoop turns 0 s
        else do
          print [.printf "\n" []]
          return some (CString.ofBuffer (s ++ [0]))
      else do
        print [.printf "%c" [.int c]]
        getlineLoop turns 0 (s ++ [c.toUInt8])

/-- `getline_timeout`, with a turn for every key that is left and one more. -/
def getlineTimeout (timeout : Int32) : Program (Option CString) := do
  getlineLoop ((← get).keys.length + 1) timeout []

/-! ## src/loli.c -/

section

variable (ck : CharKind) (w : World)

/-- The name of the configuration on the volume. -/
def LOLI_CFG : CString := ⟨ascii "loli.cfg", by decide⟩

/-- A byte stored in a block of memory, checked against its size. -/
def storeByte (memory : Memory) (i : Nat) (b : UInt8) : Except Fault Memory :=
  if i < memory.length then .ok (memory.set i (.data b)) else .error (.write i)

/-- `load_cfg`: the configuration with a NUL behind it, in a block that has room for both. -/
def loadCfg : Program CString := do
  -- `root` is null if no volume has been opened
  if w.openVolume ≠ EFI_SUCCESS then throw (.fault .null)
  else do
    let cfgSize ← onFirmware (fileGetSize ck w.vol w.cfgSize LOLI_CFG)
    if cfgSize < 0 then panic "Can't retrive size of configuration"
    else
      let _ ← onFirmware malloc
      let cfg := junkMemory w.cfgMemory (cfgSize + 1).toUInt64.toNat
      let (cfgSize, cfg) ← onFirmware (fileLoad ck w.vol w.cfgLoad LOLI_CFG cfg)
      if cfgSize < 0 then panic "Can't load configuration"
      else
        let cfg ← checked (storeByte cfg cfgSize.toUInt64.toNat 0)
        return CString.ofBuffer (cfg.map Cell.byte)

/-- `wait_for_boot_entry`, with the answer that was given besides what it stands for. -/
def waitForBootEntry (timeout : Int32) : Program (Option CString × Int) := do
  print [.printf "Enter entry number: " []]
  let answer ← getlineTimeout timeout
  let entry ← checked (Menu.waitForBootEntry answer)
  return (answer, entry)

/-- A round that is over is recorded, which the program itself knows nothing of. -/
def record (round : Round) : Program Unit :=
  modify fun m => { m with rounds := m.rounds ++ [round] }

/-- The call of `load_and_validate_entry`, with the firmware's answers to the attempt of this
number. -/
def tryEntry (cfg : CString) (answer : Option CString) (entry : Option Nat) : Program Attempt := do
  match entry with
  | none => throw (.fault .null)
  | some p =>
    let m ← get
    let a := w.attempts m.tries.length
    let r ← onFirmware (loadAndValidateEntry ck cfg p w.vol a)
    let fw := (← get).firmware
    record ⟨answer, some ⟨p, a, m.firmware, r, fw⟩⟩
    return r

/-- The entry to boot; after a timeout it is the default entry. -/
def orDefault (ready : Ready) (selectedEntry : Int) : Program Int :=
  if selectedEntry < -1 then do
    print [.printf "\nBooting entry %d by default\n" [.int ready.defaultEntry]]
    return ready.defaultEntry
  else return selectedEntry

/-- The loop of `cmdline_loop`; every turn takes a key. -/
def selectLoop (cfg : CString) (ready : Ready) : Nat → Int32 → Program (Option Nat)
  | 0, _ => throw .waiting
  | turns + 1, timeout => do
    let (answer, selectedEntry) ← waitForBootEntry timeout
    let selectedEntry ← orDefault ready selectedEntry
    if selectedEntry ≥ 0 ∧ selectedEntry < ready.entryNum then do
      let entry ← checked (menuGetNthEntry cfg selectedEntry.toNat)
      let bootEntry ← tryEntry ck w cfg answer entry
      if bootEntry.ret = 0 then return bootEntry.kernelHandle
      else do
        print (prErr "Invalid entry\n" [])
        selectLoop cfg ready turns 0
    else do
      record ⟨answer, none⟩
      selectLoop cfg ready turns 0

/-- `cmdline_loop`: the menu is worked out and printed, and then it asks until an attempt
succeeds. -/
def cmdlineLoop (cfg : CString) : Program (Option Nat) := do
  let ready ← checked (cmdlineSetup ck cfg)
  print ready.output
  selectLoop ck w cfg ready ((← get).keys.length + 1) ready.timeout

/-- The call of `startImage`, which is recorded. It may come back with a status, or never. -/
def startImage (handle : Option Nat) : Program Status := do
  modify fun m => { m with started := m.started ++ [handle] }
  match w.startImage with
  | some ret => return ret
  | none => throw .away

/-- `main`; `date` is `__DATE__`. It panics in the end if the image that was started comes back. -/
def main (date : String) : Program Unit := do
  efiInit w
  interactionInit
  print [.printf "loli bootloader is initializing\n" []]
  serialInit w
  graphicsInit w
  print [.printf "loli bootloader (%s built)\n" [.str (ascii date)]]
  let cfg ← loadCfg ck w
  let handle ← cmdlineLoop ck w cfg
  let ret ← startImage w handle
  -- `ret` is an `int`
  print (prErr "Failed to start image: %d\n" [.int ret.toUInt32.toInt32.toInt])
  panic "Cannot boot selected entry"

end

end LoliLoader.Main
