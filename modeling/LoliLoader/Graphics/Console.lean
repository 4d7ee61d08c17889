/-
# LoliLoader.Graphics.Console -- src/graphics.c

The graphics console. A framebuffer holds its pixels as bytes, in a block of memory whose accesses
are checked; coordinates and the damaged region are the machine integers of the source. The
firmware's `blt` acts on the screen of its GOP as documented.

The functions are those of src/graphics.c, with all of their arithmetic. Sizes are products of
32-bit words, the comparisons of the damaged region are made without a sign although its fields are
`int`s, and a copy of pixels is a loop over bytes. None of this is simplified, since what is shown
later is that it does no harm.

Each display has a framebuffer and the screen it is for. Text goes to the framebuffers, character by
character, and at the end of a call the damaged part of each is copied to its screen. The calls of
`blt` are kept, so that one can ask where they have drawn.

`graphics_init` is here without its messages, which have no part in what is drawn; `Main.SetUp` has
it with them, and shows that it sets up the same displays.
-/
import LoliLoader.C.Buffer
import LoliLoader.C.String
import LoliLoader.Graphics.Font

namespace LoliLoader.Graphics

open C Bytes

/-! ## The firmware -/

/-- What a GOP shows: the pixel in column `x` of row `y`. -/
abbrev Screen := Nat → Nat → Nat

/-- The operations of `blt` that the console uses. -/
inductive BltOp where
  | videoFill
  | bufferToVideo
  deriving DecidableEq, Repr

/-- The arguments of a call of `blt`, buffer apart: the operation, where it reads and where it
draws, and how much. -/
structure BltCall where
  gop : Nat
  op : BltOp
  srcX : UInt64
  srcY : UInt64
  dstX : UInt64
  dstY : UInt64
  width : UInt64
  height : UInt64
  delta : UInt64
  deriving DecidableEq, Repr

/-- Does the destination of the call have the pixel in column `x` of row `y`? -/
def BltCall.covers (c : BltCall) (x y : Nat) : Prop :=
  c.dstX.toNat ≤ x ∧ x < c.dstX.toNat + c.width.toNat ∧
  c.dstY.toNat ≤ y ∧ y < c.dstY.toNat + c.height.toNat

instance (c : BltCall) (x y : Nat) : Decidable (c.covers x y) := by
  unfold BltCall.covers
  infer_instance

/-- The pixel at byte offset `i` of a block; bytes behind its end count as zeros, which the console
never reads. -/
def wordAt (b : Buffer) (i : Nat) : Nat :=
  ofLE ((List.range 4).map fun k => b.getD (i + k) 0)

/-- `blt`. A row of the buffer has `delta` bytes. -/
def blt (screen : Screen) (buffer : Buffer) (c : BltCall) : Screen := fun x y =>
  if c.covers x y then
    match c.op with
    | .videoFill => wordAt buffer 0
    | .bufferToVideo =>
      wordAt buffer ((c.srcY.toNat + (y - c.dstY.toNat)) * c.delta.toNat
        + 4 * (c.srcX.toNat + (x - c.dstX.toNat)))
  else screen x y

/-! ## Framebuffers -/

/-- `Frame_Buffer`: the pixels of a display, where the cursor is, and what has changed since the
last update of its screen. -/
structure FrameBuffer where
  gop : Nat
  height : UInt32
  width : UInt32
  buf : Buffer
  damagedLeft : Int32
  damagedUp : Int32
  damagedRight : Int32
  damagedDown : Int32
  cursorX : UInt32

/-- `console_line_bytes`: the product is one of 32-bit words. -/
def consoleLineBytes (fb : FrameBuffer) : UInt64 := (16 * fb.width * 4).toUInt64

/-- `scroll_up`: all lines of text move up by one, the last one is cleared, and all of the buffer
counts as damaged. -/
def scrollUp (fb : FrameBuffer) : Except Fault FrameBuffer := do
  let moveSize := consoleLineBytes fb * (24 - 1)
  let buf ← fb.buf.memmove 0 (consoleLineBytes fb).toNat moveSize.toNat
  let buf ← buf.memset moveSize.toNat 0 (consoleLineBytes fb).toNat
  return { fb with
    buf := buf
    damagedLeft := 0
    damagedUp := 0
    damagedRight := (fb.width - 1).toInt32
    damagedDown := (fb.height - 1).toInt32 }

/-- `draw_pixel`: one pixel, white or black, at the offset that its place has in the buffer. -/
def drawPixel (fb : FrameBuffer) (x y : UInt32) (fill : Bool) : Except Fault FrameBuffer := do
  let offset := y * fb.width + x
  let buf ← fb.buf.storeBytes (4 * offset.toNat) (leBytes 4 (if fill then 0x00ffffff else 0))
  return { fb with buf := buf }

/-- `update_damaged_region`. The comparisons are unsigned. -/
def updateDamagedRegion (fb : FrameBuffer) (x y width height : UInt32) : FrameBuffer :=
  let endX := x + width - 1
  let endY := y + height - 1
  { fb with
    damagedLeft := if fb.damagedLeft.toUInt32 > x then x.toInt32 else fb.damagedLeft
    damagedUp := if fb.damagedUp.toUInt32 > y then y.toInt32 else fb.damagedUp
    damagedRight := if fb.damagedRight.toUInt32 < endX then endX.toInt32 else fb.damagedRight
    damagedDown := if fb.damagedDown.toUInt32 < endY then endY.toInt32 else fb.damagedDown }

/-- The byte of row `y` of the glyph of `c`, from the font table. -/
def glyphRow (c : UInt8) (y : Nat) : Except Fault UInt8 := Buffer.load gFont (16 * c.toNat + y)

/-- The inner loop of `draw_char`: one row of the glyph. -/
def drawRow (fb : FrameBuffer) (c : UInt8) (startX startY : UInt32) (y : Nat) :
    Except Fault FrameBuffer :=
  (List.range 8).foldlM (fun fb x => do
    let row ← glyphRow c y
    drawPixel fb (UInt32.ofNat x + startX) (UInt32.ofNat y + startY)
      (row.toUInt32 &&& (1 <<< (7 - UInt32.ofNat x)) != 0)) fb

/-- The loops of `draw_char`: the rows of the glyph, from the upper one on. -/
def drawGlyph (fb : FrameBuffer) (c : UInt8) (startX startY : UInt32) : Except Fault FrameBuffer :=
  (List.range 16).foldlM (fun fb y => drawRow fb c startX startY y) fb

/-- `draw_char` behind its `switch`: in a full line it scrolls first; then the glyph is drawn in the
last line of text, and the cursor moves on. -/
def drawCell (fb : FrameBuffer) (c : UInt8) : Except Fault FrameBuffer := do
  let fb ← if fb.cursorX = 80 then scrollUp { fb with cursorX := 0 } else pure fb
  let startY : UInt32 := 16 * (24 - 1)
  let startX := 8 * fb.cursorX
  let fb ← drawGlyph fb c startX startY
  let fb := updateDamagedRegion fb startX startY 8 16
  return if c ≠ 8 then { fb with cursorX := fb.cursorX + 1 } else fb

/-- `draw_char`, for a character from 0 to 127. A newline leaves the column as it is. -/
def drawChar (fb : FrameBuffer) (c : UInt8) : Except Fault FrameBuffer :=
  if c = 13 then
    .ok { fb with cursorX := 0 }
  else if c = 10 then
    scrollUp fb
  else if c = 8 then
    if fb.cursorX = 0 then .ok fb else drawCell { fb with cursorX := fb.cursorX - 1 } c
  else
    drawCell fb c

/-- `reset_damaged_region`: nothing counts as damaged. -/
def resetDamagedRegion (fb : FrameBuffer) : FrameBuffer :=
  { fb with
    damagedLeft := fb.width.toInt32
    damagedUp := fb.height.toInt32
    damagedRight := 0
    damagedDown := 0 }

/-- `blit_buffer`, with the call it makes; where nothing is damaged it makes none. -/
def blitBuffer (fb : FrameBuffer) : FrameBuffer × Option BltCall :=
  -- nothing is damaged as long as `damagedLeft` is what the reset made it
  if fb.damagedLeft.toUInt32 ≥ fb.width then (fb, none) else
  let damagedWidth := (fb.damagedRight - fb.damagedLeft + 1).toUInt32
  let damagedHeight := (fb.damagedDown - fb.damagedUp + 1).toUInt32
  (resetDamagedRegion fb,
    some {
      gop := fb.gop
      op := .bufferToVideo
      srcX := fb.damagedLeft.toInt64.toUInt64
      srcY := fb.damagedUp.toInt64.toUInt64
      dstX := fb.damagedLeft.toInt64.toUInt64
      dstY := fb.damagedUp.toInt64.toUInt64
      width := damagedWidth.toUInt64
      height := damagedHeight.toUInt64
      delta := (4 * fb.width).toUInt64 })

/-! ## The console -/

/-- A framebuffer and the screen its GOP drives, which shows what `blt` has copied to it. -/
structure Display where
  fb : FrameBuffer
  screen : Screen

/-- The state of the module: `gGraphicsAvailable` and `gFBs`, each framebuffer with its screen. -/
structure Console where
  available : Bool
  displays : List Display

/-- The character that is drawn for a byte of the string. -/
def drawnChar (ck : CharKind) (c : UInt8) : UInt8 :=
  if ck.val c ≥ 0 ∧ ck.val c ≤ 127 then c else 32

/-- One turn of the loop over the string: the character on every framebuffer. -/
def putChar (ck : CharKind) (ds : List Display) (c : UInt8) : Except Fault (List Display) :=
  ds.mapM fun d => do return { d with fb := ← drawChar d.fb (drawnChar ck c) }

/-- The update of one screen, with the calls of `blt`. -/
def blitDisplay (d : Display) : Display × Option BltCall :=
  match blitBuffer d.fb with
  | (fb, none) => (⟨fb, d.screen⟩, none)
  | (fb, some call) => (⟨fb, blt d.screen d.fb.buf call⟩, some call)

/-- `graphics_write`, with the calls of `blt`: every character goes to every framebuffer, and then
every screen is updated. -/
def graphicsWrite (ck : CharKind) (g : Console) (buf : CString) :
    Except Fault (Console × List BltCall) := do
  if g.available = false then
    return (g, [])
  let ds ← buf.bytes.foldlM (putChar ck) g.displays
  let blitted := ds.map blitDisplay
  return ({ g with displays := blitted.map Prod.fst }, blitted.filterMap Prod.snd)

/-! ## Initialisation -/

/-- `Efi_Graphics_Output_Mode_Info`, as far as it is read: the resolution. -/
structure ModeInfo where
  horizontalRes : UInt32
  verticalRes : UInt32
  deriving DecidableEq, Repr

/-- The answers to `queryMode`, null when it fails, and to `setMode`, for one of the modes. -/
structure Mode where
  query : Option ModeInfo
  set : Bool
  deriving DecidableEq, Repr

/-- A GOP: its modes, what it shows, and the pages `malloc_pages` gives for its framebuffer, null
when there are none. -/
structure Gop where
  id : Nat
  modes : List Mode
  screen : Screen
  pages : Option (Nat → UInt8)

/-- `fbmode_is_supported`: the text has room on the screen. -/
def fbmodeIsSupported (info : ModeInfo) : Bool :=
  info.horizontalRes ≥ 80 * 8 && info.verticalRes ≥ 24 * 16

/-- `is_buffer_duplicated`: the GOP is set up already. -/
def isBufferDuplicated (ds : List Display) (gop : Gop) : Bool :=
  ds.any fun d => d.fb.gop == gop.id

/-- `gop_determine_mode`: the mode set, when the function returns 0. -/
def gopDetermineMode (ds : List Display) (gop : Gop) : List Mode → Option ModeInfo
  | [] => none
  | mode :: modes =>
    match mode.query with
    | none => none
    | some info =>
      if fbmodeIsSupported info = false then gopDetermineMode ds gop modes
      else if mode.set = false then gopDetermineMode ds gop modes
      else if isBufferDuplicated ds gop then none else some info

/-- The size of a framebuffer in bytes, which does not depend on the mode. -/
def fbSize : Nat := 80 * 8 * (24 * 16) * 4

/-- `gop_setup_mode`, null when the pages are refused. -/
def gopSetupMode (gop : Gop) (info : ModeInfo) : Except Fault (Option Display) := do
  match gop.pages with
  | none => return none
  | some pages =>
    let fb := resetDamagedRegion {
      gop := gop.id
      height := 24 * 16
      width := 80 * 8
      buf := (Array.range fbSize).map pages
      damagedLeft := 0
      damagedUp := 0
      damagedRight := 0
      damagedDown := 0
      cursorX := 0 }
    let buf ← fb.buf.memset 0 0 fbSize
    let fill : BltCall := ⟨gop.id, .videoFill, 0, 0, 0, 0, info.horizontalRes.toUInt64,
      info.verticalRes.toUInt64, 0⟩
    return some ⟨{ fb with buf := buf }, blt gop.screen #[0, 0, 0, 0] fill⟩

/-- `gop_try_init`, null when the GOP has no mode that will do, or no pages. -/
def gopTryInit (ds : List Display) (gop : Gop) : Except Fault (Option Display) :=
  match gopDetermineMode ds gop gop.modes with
  | none => .ok none
  | some info => gopSetupMode gop info

/-- The loop of `graphics_init` over the handles. -/
def initLoop (ds : List Display) : List Gop → Except Fault (List Display)
  | [] => .ok ds
  | gop :: gops => do
    match ← gopTryInit ds gop with
    | none => initLoop ds gops
    | some d => initLoop (ds ++ [d]) gops

/-- `graphics_init`: graphics are available if some GOP could be set up. -/
def graphicsInit (gops : List Gop) : Except Fault Console := do
  let ds ← initLoop [] gops
  return ⟨!ds.isEmpty, ds⟩

/-- A sequence of calls of `graphics_write`, with all calls of `blt` that they make. -/
def graphicsWrites (ck : CharKind) (g : Console) :
    List CString → Except Fault (Console × List BltCall)
  | [] => .ok (g, [])
  | buf :: bufs => do
    let (g, calls) ← graphicsWrite ck g buf
    let (g, more) ← graphicsWrites ck g bufs
    return (g, calls ++ more)

end LoliLoader.Graphics
