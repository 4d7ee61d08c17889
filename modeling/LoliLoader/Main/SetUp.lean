/-
# LoliLoader.Main.SetUp -- what main does before it reads the configuration

`efi_init`, `interaction_init`, `serial_init` and `graphics_init`, in the order in which `main`
calls them.  They find the volume the loader comes from, allocate the buffers of `printf`, and set
up the devices of the console.

What can go wrong is kept.  A `locateHandle` that fails for another reason than that there is no
such device ends in `panic`.  A GOP is passed over, with a message, when it has no usable mode, when
it has been set up before, or when there are no pages for its framebuffer.  Nothing checks the
statuses of `handleProtocol` and `openVolume`: where one fails there is a null pointer, and the
loader uses it.

The messages are printed while the devices come up.  So those of `serial_init` find neither a port
nor a display, and those of `graphics_init` find the ports at most.

Two things are taken from the firmware's documentation: a handle that `locateHandle` returns has the
protocol it was asked for, and its second call, with room for all handles, succeeds. The handles are
in an array on the stack, which is taken to have room for as many as the firmware reports.
-/
import LoliLoader.Main.Machine

namespace LoliLoader.Main

open C Boot Interaction Graphics

/-! ## src/efi.c and src/file.c -/

section

variable (w : World)

/-- `file_init`.  The volume itself is used only later on. -/
def fileInit : Program Unit := do
  -- `img` and `fs` are null if there is no such protocol
  if w.loadedImage ≠ EFI_SUCCESS then throw (.fault .null)
  else if w.fileSystem ≠ EFI_SUCCESS then throw (.fault .null)
  else return ()

/-- `efi_init`, of which only `file_init` may fail or be seen later. -/
def efiInit : Program Unit := fileInit w

end

/-! ## src/interaction.c -/

/-- `interaction_init`: the three buffers of the console are allocated. -/
def interactionInit : Program Unit := do
  let _gFormatBuf ← onFirmware malloc
  let _gLineEndConvertBuf ← onFirmware malloc
  let _gWideCharBuf ← onFirmware malloc
  return ()

/-! ## Handles -/

/-- What `locateHandle` has found: no such device, an error, or so many handles. -/
inductive Located where
  | notFound
  | failed (ret : Status)
  | handles (num : Nat)
  deriving DecidableEq, Repr

/-- How `serial_init` and `graphics_init` read the answers of their first `locateHandle`. -/
def located (a : LocateAnswers) : Located :=
  let ret := efiErrno a.status
  if ret = EFI_NOT_FOUND then .notFound
  else if ret ≠ EFI_BUFFER_TOO_SMALL then .failed ret
  -- a handle has eight bytes
  else .handles (a.handleBufSize.toNat / 8)

/-! ## src/serial.c -/

/-- `serial_init`: the ports are set up if there are any; an error of the firmware ends the
program. -/
def serialInit (w : World) : Program Unit := do
  match located w.serial with
  | .notFound =>
    print (prInfo "Skipping serial initialization: no serial supported\n" [])
  | .failed ret =>
    print (prErr "locateHandle fails with %lu for serial GUID\n" [.int ret.toNat])
    panic "Failed to locate handle for serial"
  | .handles num =>
    let _protocols ← onFirmware malloc
    modify fun m => { m with
      serial := some ⟨Interaction.serialInit (some num), m.firmware.output.length⟩ }

/-! ## src/graphics.c -/

/-- A status that is kept in an `int`: its highest half is cut off. -/
def intStatus (status : Status) : Int32 := status.toUInt32.toInt32

/-- The mode as far as it decides anything: is it known, and can it be set? -/
def ModeAnswers.mode (a : ModeAnswers) : Mode where
  query := if intStatus a.queryMode = 0 then some a.info else none
  set := intStatus a.setMode = 0

def GopAnswers.gop (a : GopAnswers) : Gop := ⟨a.id, a.modes.map ModeAnswers.mode, a.screen, a.pages⟩

section

variable (ds : List Display)

/-- `gop_determine_mode` from mode `n` on: the mode that is set, when the function returns 0. -/
def gopDetermineMode (gop : Gop) : Nat → List ModeAnswers → Program (Option ModeInfo)
  | _, [] => return none
  | n, mode :: modes => do
    let ret := intStatus mode.queryMode
    if ret ≠ 0 then do
      print (prErr "Failed to query GOP mode %u: %d\n" [.int n, .int ret.toInt])
      return none
    else if fbmodeIsSupported mode.info = false then gopDetermineMode gop (n + 1) modes
    else do
      let ret := intStatus mode.setMode
      if ret ≠ 0 then do
        print (prErr "Failed to set GOP to mode %u: %d\n" [.int n, .int ret.toInt])
        gopDetermineMode gop (n + 1) modes
      else if isBufferDuplicated ds gop then return none
      else return some mode.info

/-- `gop_setup_mode`, null when the pages are refused. -/
def gopSetupMode (gop : Gop) (info : ModeInfo) : Program (Option Display) := do
  let fb ← checked (Graphics.gopSetupMode gop info)
  if fb.isNone then do
    print (prErr "Failed to allocate framebuffer for GOP\n" [])
    return fb
  else return fb

/-- `gop_try_init`, null when it fails, which only means that the GOP is passed over. -/
def gopTryInit (a : GopAnswers) : Program (Option Display) := do
  match ← gopDetermineMode ds a.gop 0 a.modes with
  | none =>
    print (prInfo "Skip graphics initialization: No suitable mode\n" [])
    return none
  | some info =>
    print (prInfo "Resolution %ux%u\n"
      [.int info.horizontalRes.toNat, .int info.verticalRes.toNat])
    let fb ← gopSetupMode a.gop info
    if fb.isNone then do
      print (prErr "Failed to setup GOP mode\n" [])
      return fb
    else return fb

end

/-- A framebuffer stored behind those in `gFBs`, which has room for `handleNum` of them. -/
def storeFrameBuffer (handleNum : Nat) (ds : List Display) (d : Display) :
    Except Fault (List Display) :=
  if ds.length < handleNum then .ok (ds ++ [d]) else .error (.write ds.length)

/-- The loop of `graphics_init` over the handles, with the framebuffers set up so far. -/
def initLoop (handleNum : Nat) (ds : List Display) : List GopAnswers → Program (List Display)
  | [] => return ds
  | a :: as => do
    match ← gopTryInit ds a with
    | none => initLoop handleNum ds as
    | some d =>
      let ds ← checked (storeFrameBuffer handleNum ds d)
      initLoop handleNum ds as

/-- `graphics_init`: the displays are set up, if some GOP has one; an error of the firmware ends the
program. -/
def graphicsInit (w : World) : Program Unit := do
  match located w.locateGop with
  | .notFound =>
    print (prInfo "Skip graphics initialization: no GOP found\n" [])
  | .failed ret =>
    print (prErr "locateProtocol returns %lu for GOP\n" [.int ret.toNat])
    panic "Failed to locate GOP handle"
  | .handles handleNum =>
    let _gFBs ← onFirmware malloc
    let ds ← initLoop handleNum [] ((List.range handleNum).map w.gops)
    if ds.isEmpty then print (prInfo "No suitable GOP device found\n" [])
    else do
      print (prInfo "Graphics initialized\n" [])
      modify fun m => { m with graphics := some ⟨⟨true, ds⟩, m.firmware.output.length⟩ }

end LoliLoader.Main
