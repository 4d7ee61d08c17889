/-
# LoliLoader.Graphics.Pixels -- what the console functions do to the picture

The buffer of a framebuffer read as a picture of 640 by 384 pixels. Each function is described by
the picture it leaves; that it succeeds says that all its accesses are inside the buffer.

A pixel is a word of four bytes at an offset computed from its place. `drawPixel_paints` is the one
lemma in which the bytes occur: the word is written, no other word is, and the offset is in the
buffer as long as the place is in the frame. From there on there are only pictures.

The loops of `draw_char` go over rows and columns. Their invariants are pictures as well: `rowDrawn`
and `glyphDrawn` have the first few pixels or rows drawn and everything else as it was.

Scrolling moves all but the first line of text to the start of the buffer and clears the last. The
copy is within one block and to a lower place, where `memmove` of the source is right.
-/
import LoliLoader.Graphics.Console
import LoliLoader.Graphics.Terminal
import Mathlib.Data.Nat.Bitwise

namespace LoliLoader.Graphics

open C Bytes Image

/-! ## Words of a block -/

theorem wordAt_congr {b b' : Buffer} {i j : Nat} (h : ∀ k < 4, b[i + k]? = b'[j + k]?) :
    wordAt b i = wordAt b' j := by
  unfold wordAt
  congr 1
  apply List.map_congr_left
  intro k hk
  have hk : k < 4 := List.mem_range.mp hk
  rw [Array.getD_eq_getD_getElem?, Array.getD_eq_getD_getElem?, h k hk]

theorem wordAt_stored {b : Buffer} {i v : Nat} (hv : v < 256 ^ 4)
    (h : ∀ k < 4, b[i + k]? = (leBytes 4 v)[k]?) : wordAt b i = v := by
  have hbytes : (List.range 4).map (fun k => b.getD (i + k) 0) = leBytes 4 v := by
    apply List.ext_getElem (by simp)
    intro k hk _
    have hk : k < 4 := by simpa using hk
    have hlen : k < (leBytes 4 v).length := by rw [length_leBytes]; exact hk
    rw [List.getElem_map, List.getElem_range, Array.getD_eq_getD_getElem?, h k hk,
      List.getElem?_eq_getElem hlen]
    rfl
  rw [wordAt, hbytes, ofLE_leBytes_of_lt hv]

theorem wordAt_zero {b : Buffer} {i : Nat} (h : ∀ k < 4, b[i + k]? = some 0) : wordAt b i = 0 := by
  apply wordAt_stored (by decide)
  intro k hk
  rw [h k hk]
  interval_cases k <;> rfl

/-! ## The picture of a framebuffer -/

/-- A framebuffer as `gop_setup_mode` makes it: of the size of the text, whatever the mode of its
GOP is. -/
structure Sized (fb : FrameBuffer) : Prop where
  width : fb.width = 640
  height : fb.height = 384
  size : fb.buf.size = fbSize

/-- The buffer as a picture: the word at the offset that a pixel has. -/
def picture (b : Buffer) : Picture Nat := fun x y => wordAt b (4 * (640 * y + x))

/-- `b` holds the picture `p` on the frame; outside of the frame pictures are not compared. -/
def Holds (b : Buffer) (p : Picture Nat) : Prop := ∀ x < 640, ∀ y < 384, picture b x y = p x y

/-- `fb'` is `fb` with the picture `p` in its buffer, and all other fields as they were. -/
structure Paints (fb : FrameBuffer) (p : Picture Nat) (fb' : FrameBuffer) : Prop where
  rest : fb' = { fb with buf := fb'.buf }
  size : fb'.buf.size = fb.buf.size
  holds : Holds fb'.buf p

namespace Paints

variable {fb fb' fb'' : FrameBuffer} {p q : Picture Nat}

theorem sized (h : Paints fb p fb') (hfb : Sized fb) : Sized fb' := by
  rw [h.rest]
  exact ⟨hfb.width, hfb.height, h.size.trans hfb.size⟩

theorem trans (h : Paints fb p fb') (h' : Paints fb' q fb'') : Paints fb q fb'' := by
  refine ⟨?_, h'.size.trans h.size, h'.holds⟩
  rw [h'.rest, h.rest]

theorem congr (h : Paints fb p fb') (heq : ∀ x < 640, ∀ y < 384, p x y = q x y) :
    Paints fb q fb' :=
  ⟨h.rest, h.size, fun x hx y hy => (h.holds x hx y hy).trans (heq x hx y hy)⟩

end Paints

/-! ## Drawing -/

section

variable {fb : FrameBuffer}

/-- The word stored for a pixel: white, or black. -/
def colour (fill : Bool) : Nat := if fill then 0x00ffffff else 0

/-- **One pixel** is written, inside the buffer, if its place is in the frame; all other pixels are
as they were. -/
theorem drawPixel_paints (h : Sized fb) {x y : UInt32} (hx : x.toNat < 640) (hy : y.toNat < 384)
    (fill : Bool) :
    ∃ fb', drawPixel fb x y fill = .ok fb' ∧
      Paints fb (fun x' y' => if x' = x.toNat ∧ y' = y.toNat then colour fill
        else picture fb.buf x' y') fb' := by
  have hsize := h.size
  have hoffset : (y * fb.width + x).toNat = 640 * y.toNat + x.toNat := by
    have h640 : (640 : UInt32).toNat = 640 := rfl
    rw [h.width, UInt32.toNat_add, UInt32.toNat_mul, h640]
    omega
  have hbytes : (if fill then 0x00ffffff else 0 : Nat) = colour fill := rfl
  unfold fbSize at hsize
  obtain ⟨m, hm, hmsize, hmget⟩ := Buffer.storeBytes_is (b := fb.buf)
    (i := 4 * (640 * y.toNat + x.toNat)) (leBytes 4 (colour fill)) (by rw [length_leBytes]; omega)
  refine ⟨{ fb with buf := m }, ?_, rfl, hmsize, ?_⟩
  · simp only [drawPixel, hoffset, hbytes, hm, bind, Except.bind]
    rfl
  · intro x' hx' y' hy'
    show wordAt m (4 * (640 * y' + x'))
      = if x' = x.toNat ∧ y' = y.toNat then colour fill else picture fb.buf x' y'
    simp only [length_leBytes] at hmget
    by_cases hhit : x' = x.toNat ∧ y' = y.toNat
    · obtain ⟨rfl, rfl⟩ := hhit
      rw [if_pos ⟨rfl, rfl⟩]
      apply wordAt_stored
      · cases fill <;> decide
      · intro k hk
        rw [hmget, if_pos (by omega), Nat.add_sub_cancel_left]
    -- pixels are four bytes apart: no byte of another one is stored to
    · rw [if_neg hhit]
      apply wordAt_congr
      intro k hk
      rw [hmget, if_neg]
      rintro ⟨hlo, hhi⟩
      apply hhit
      omega

/-- The code tests a bit of the glyph. -/
theorem glyph_bit (row : UInt8) {x : Nat} (hx : x < 8) :
    (row.toUInt32 &&& (1 <<< (7 - UInt32.ofNat x)) != 0) = row.toNat.testBit (7 - x) := by
  have hshift : ((1 : UInt32) <<< (7 - UInt32.ofNat x)).toNat = 2 ^ (7 - x) := by
    interval_cases x <;> rfl
  have hand : (row.toUInt32 &&& (1 <<< (7 - UInt32.ofNat x))).toNat
      = (row.toNat.testBit (7 - x)).toNat * 2 ^ (7 - x) := by
    rw [UInt32.toNat_and, hshift, UInt8.toNat_toUInt32, Nat.and_two_pow]
  rw [Bool.eq_iff_iff, bne_iff_ne, ne_eq, ← UInt32.toNat_inj, hand]
  cases row.toNat.testBit (7 - x) <;> simp

/-- The glyph of a character, as the loops read it. -/
theorem glyphRow_ok {c : UInt8} (hc : c.toNat < 128) {y : Nat} (hy : y < 16) :
    ∃ row, glyphRow c y = .ok row ∧
      ∀ x < 8, colour (row.toUInt32 &&& (1 <<< (7 - UInt32.ofNat x)) != 0) = glyphPixel c x y := by
  have hlt : 16 * c.toNat + y < gFont.size := by
    rw [size_gFont]
    omega
  refine ⟨_, Buffer.load_lt hlt, ?_⟩
  intro x hx
  have hle : c ≤ 127 := by
    rw [UInt8.le_iff_toNat_le]
    show c.toNat ≤ 127
    omega
  simp only [glyphPixel, if_pos hle, glyph_bit _ hx, colour, Array.getD_eq_getD_getElem?,
    Array.getElem?_eq_getElem hlt, Option.getD_some]

/-- The picture with the first `n` pixels of a row of a glyph drawn. -/
def rowDrawn (c : UInt8) (startX startY y n : Nat) (p : Picture Nat) : Picture Nat := fun x' y' =>
  if (startX ≤ x' ∧ x' < startX + n) ∧ y' = startY + y then glyphPixel c (x' - startX) y
  else p x' y'

/-- The picture with the first `n` rows of a glyph drawn. -/
def glyphDrawn (c : UInt8) (startX startY n : Nat) (p : Picture Nat) : Picture Nat := fun x' y' =>
  if (startX ≤ x' ∧ x' < startX + 8) ∧ startY ≤ y' ∧ y' < startY + n then
    glyphPixel c (x' - startX) (y' - startY)
  else p x' y'

theorem foldlM_range_succ {α : Type} (f : α → Nat → Except Fault α) (a : α) (n : Nat) :
    (List.range (n + 1)).foldlM f a = (List.range n).foldlM f a >>= fun a => f a n := by
  rw [List.range_succ, List.foldlM_append]
  congr 1
  funext a
  rw [List.foldlM_cons]
  exact bind_pure _

/-- A row of a glyph, drawn up to column `n`. -/
theorem drawRow_prefix (h : Sized fb) {c : UInt8} (hc : c.toNat < 128) (startX startY : UInt32)
    (hx : startX.toNat + 8 ≤ 640) {y : Nat} (hy : y < 16) (hdown : startY.toNat + y < 384)
    {n : Nat} (hn : n ≤ 8) :
    ∃ fb', (List.range n).foldlM (fun fb x => do
        let row ← glyphRow c y
        drawPixel fb (UInt32.ofNat x + startX) (UInt32.ofNat y + startY)
          (row.toUInt32 &&& (1 <<< (7 - UInt32.ofNat x)) != 0)) fb = .ok fb' ∧
      Paints fb (rowDrawn c startX.toNat startY.toNat y n (picture fb.buf)) fb' := by
  induction n with
  | zero =>
      refine ⟨fb, rfl, rfl, rfl, ?_⟩
      intro x' _ y' _
      rw [rowDrawn, if_neg (by omega)]
  | succ n ih =>
      obtain ⟨fb', hfb', hpaint⟩ := ih (by omega)
      obtain ⟨row, hrow, hbits⟩ := glyphRow_ok hc hy
      have hxn : (UInt32.ofNat n + startX).toNat = startX.toNat + n := by
        rw [UInt32.toNat_add, UInt32.toNat_ofNat']
        omega
      have hyn : (UInt32.ofNat y + startY).toNat = startY.toNat + y := by
        rw [UInt32.toNat_add, UInt32.toNat_ofNat']
        omega
      obtain ⟨fb'', hfb'', hpixel⟩ := drawPixel_paints (hpaint.sized h)
        (x := UInt32.ofNat n + startX) (y := UInt32.ofNat y + startY) (by omega) (by omega)
        (row.toUInt32 &&& (1 <<< (7 - UInt32.ofNat n)) != 0)
      refine ⟨fb'', ?_, (hpaint.trans hpixel).congr ?_⟩
      · rw [foldlM_range_succ, hfb']
        simp [hrow, hfb'', bind, Except.bind]
      · intro x' hx' y' hy'
        show (if _ then _ else _) = _
        rw [hxn, hyn, hbits n (by omega), hpaint.holds x' hx' y' hy']
        unfold rowDrawn
        by_cases hhit : x' = startX.toNat + n ∧ y' = startY.toNat + y
        · obtain ⟨rfl, rfl⟩ := hhit
          rw [if_pos ⟨rfl, rfl⟩, if_pos (by omega), Nat.add_sub_cancel_left]
        · rw [if_neg hhit]
          by_cases hin : (startX.toNat ≤ x' ∧ x' < startX.toNat + n) ∧ y' = startY.toNat + y
          · rw [if_pos hin, if_pos (by omega)]
          · rw [if_neg hin, if_neg (by omega)]

theorem drawRow_paints (h : Sized fb) {c : UInt8} (hc : c.toNat < 128) (startX startY : UInt32)
    (hx : startX.toNat + 8 ≤ 640) {y : Nat} (hy : y < 16) (hdown : startY.toNat + y < 384) :
    ∃ fb', drawRow fb c startX startY y = .ok fb' ∧
      Paints fb (rowDrawn c startX.toNat startY.toNat y 8 (picture fb.buf)) fb' := by
  unfold drawRow
  exact drawRow_prefix h hc startX startY hx hy hdown le_rfl

/-- A glyph, drawn up to row `n`. -/
theorem drawGlyph_prefix (h : Sized fb) {c : UInt8} (hc : c.toNat < 128) {startX startY : UInt32}
    (hx : startX.toNat + 8 ≤ 640) (hy : startY.toNat + 16 ≤ 384) {n : Nat} (hn : n ≤ 16) :
    ∃ fb', (List.range n).foldlM (fun fb y => drawRow fb c startX startY y) fb = .ok fb' ∧
      Paints fb (glyphDrawn c startX.toNat startY.toNat n (picture fb.buf)) fb' := by
  induction n with
  | zero =>
      refine ⟨fb, rfl, rfl, rfl, ?_⟩
      intro x' _ y' _
      rw [glyphDrawn, if_neg (by omega)]
  | succ n ih =>
      obtain ⟨fb', hfb', hpaint⟩ := ih (by omega)
      obtain ⟨fb'', hfb'', hrow⟩ := drawRow_paints (hpaint.sized h) hc startX startY hx
        (y := n) (by omega) (by omega)
      refine ⟨fb'', ?_, (hpaint.trans hrow).congr ?_⟩
      · rw [foldlM_range_succ, hfb']
        simp only [bind, Except.bind, hfb'']
      · intro x' hx' y' hy'
        unfold rowDrawn
        rw [hpaint.holds x' hx' y' hy']
        unfold glyphDrawn
        by_cases hhit : (startX.toNat ≤ x' ∧ x' < startX.toNat + 8) ∧ y' = startY.toNat + n
        · obtain ⟨hcol, rfl⟩ := hhit
          rw [if_pos ⟨hcol, rfl⟩, if_pos (by omega), Nat.add_sub_cancel_left]
        · rw [if_neg hhit]
          by_cases hin : (startX.toNat ≤ x' ∧ x' < startX.toNat + 8) ∧
              startY.toNat ≤ y' ∧ y' < startY.toNat + n
          · rw [if_pos hin, if_pos (by omega)]
          · rw [if_neg hin, if_neg (by omega)]

/-- **A glyph** is drawn at its place, and nothing else changes; the cell has to be in the frame. -/
theorem drawGlyph_paints (h : Sized fb) {c : UInt8} (hc : c.toNat < 128) (startX startY : UInt32)
    (hx : startX.toNat + 8 ≤ 640) (hy : startY.toNat + 16 ≤ 384) :
    ∃ fb', drawGlyph fb c startX startY = .ok fb' ∧
      Paints fb (glyphDrawn c startX.toNat startY.toNat 16 (picture fb.buf)) fb' :=
  drawGlyph_prefix h hc hx hy le_rfl

/-! ## Scrolling -/

/-- The picture moved up by one row of cells, blank at the bottom. -/
def scrolled (p : Picture Nat) : Picture Nat := fun x y => if y < 368 then p x (y + 16) else 0

theorem consoleLineBytes_eq (h : Sized fb) : (consoleLineBytes fb).toNat = 40960 := by
  rw [consoleLineBytes, h.width]
  rfl

theorem moveSize_eq (h : Sized fb) : (consoleLineBytes fb * (24 - 1)).toNat = 942080 := by
  rw [consoleLineBytes, h.width]
  rfl

/-- The damaged region is all of the framebuffer. -/
def allDamaged (fb : FrameBuffer) : FrameBuffer :=
  { fb with damagedLeft := 0, damagedUp := 0, damagedRight := 639, damagedDown := 383 }

/-- **Scrolling** moves the picture up by a line of text, clears the last line, and damages all of
it. -/
theorem scrollUp_paints (h : Sized fb) :
    ∃ fb', scrollUp fb = .ok fb' ∧
      Paints (allDamaged fb) (scrolled (picture fb.buf)) fb' := by
  have hsize := h.size
  unfold fbSize at hsize
  obtain ⟨m, hm, hmsize, hmget⟩ := Buffer.memcpy_is (b := fb.buf) 0 40960 942080 (by omega)
    (by omega)
  obtain ⟨m', hm', hmsize', hmget'⟩ := Buffer.memset_is (b := m) 942080 0 40960 (by omega)
  have hright : (fb.width - 1).toInt32 = 639 := by
    rw [h.width]
    rfl
  have hdown : (fb.height - 1).toInt32 = 383 := by
    rw [h.height]
    rfl
  refine ⟨{ allDamaged fb with buf := m' }, ?_, rfl, hmsize'.trans hmsize, ?_⟩
  · simp only [scrollUp, consoleLineBytes_eq h, moveSize_eq h, hright, hdown, Buffer.memmove,
      hm, hm', bind, Except.bind]
    rfl
  · intro x hx y hy
    show wordAt m' (4 * (640 * y + x)) = _
    unfold scrolled
    by_cases hy' : y < 368
    -- 16 rows of 640 pixels are the 40960 bytes by which the block moves
    · rw [if_pos hy']
      apply wordAt_congr
      intro k hk
      rw [hmget', if_neg (by omega), hmget, if_pos (by omega)]
      congr 1
      omega
    · rw [if_neg hy']
      apply wordAt_zero
      intro k hk
      rw [hmget', if_pos (by omega)]

end

end LoliLoader.Graphics
