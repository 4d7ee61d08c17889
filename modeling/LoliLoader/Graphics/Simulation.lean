/-
# LoliLoader.Graphics.Simulation -- the console shows the terminal

`DrawStep` says all that `draw_char` can do. From it follows that the framebuffer keeps showing the
rendered terminal, character by character.

The terminal has cells and a column; the framebuffer has pixels and a cursor. `Shows` joins them:
the picture in the buffer is the terminal rendered with the font, and the cursor is where the next
byte will go. `Shows.step` is the simulation, with one case for each kind of byte.

The four kinds are a newline, a carriage return, a backspace and everything else. A byte that is
drawn in a full row makes the console scroll first, in the source and in the terminal alike; a
newline leaves the column as it is in both.

Bytes outside of the font are drawn as a space, but the terminal keeps them in its cells, so
`glyphPixel_drawnChar` compares what is drawn with what the cell looks like and not the two
characters.
-/
import LoliLoader.Graphics.Pixels

namespace LoliLoader.Graphics

open C Image

/-! ## What `draw_char` can do -/

/-- `fb'` is `fb` with a glyph drawn in the cell at the cursor, which is then damaged. -/
def CellDrawn (fb : FrameBuffer) (c : UInt8) (fb' : FrameBuffer) : Prop :=
  Paints (updateDamagedRegion fb (8 * fb.cursorX) 368 8 16)
    (glyphDrawn c (8 * fb.cursorX.toNat) 368 16 (picture fb.buf)) fb'

/-- A character that is drawn and moves the cursor on. -/
def Typed (c : UInt8) : Prop := c ≠ 13 ∧ c ≠ 10 ∧ c ≠ 8

/-- One character on a framebuffer: one constructor for each thing that `draw_char` may do with
it. -/
inductive DrawStep (fb : FrameBuffer) : UInt8 → FrameBuffer → Prop
  | carriage : DrawStep fb 13 { fb with cursorX := 0 }
  | newline {fb' : FrameBuffer} (hscroll : Paints (allDamaged fb) (scrolled (picture fb.buf)) fb') :
      DrawStep fb 10 fb'
  | margin (hcur : fb.cursorX = 0) : DrawStep fb 8 fb
  | backspace {fb' : FrameBuffer} (hcur : fb.cursorX ≠ 0)
      (hcell : CellDrawn { fb with cursorX := fb.cursorX - 1 } 8 fb') : DrawStep fb 8 fb'
  | type {c : UInt8} {fb' : FrameBuffer} (hc : Typed c) (hcur : fb.cursorX ≠ 80)
      (hcell : CellDrawn fb c fb') : DrawStep fb c { fb' with cursorX := fb'.cursorX + 1 }
  | wrap {c : UInt8} {fb₁ fb' : FrameBuffer} (hc : Typed c) (hcur : fb.cursorX = 80)
      (hscroll : Paints (allDamaged { fb with cursorX := 0 }) (scrolled (picture fb.buf)) fb₁)
      (hcell : CellDrawn fb₁ c fb') : DrawStep fb c { fb' with cursorX := fb'.cursorX + 1 }

section

variable {fb fb' : FrameBuffer} {c : UInt8}

theorem Sized.cursor (h : Sized fb) (k : UInt32) : Sized { fb with cursorX := k } :=
  ⟨h.width, h.height, h.size⟩

theorem Sized.allDamaged (h : Sized fb) : Sized (allDamaged fb) := ⟨h.width, h.height, h.size⟩

theorem Sized.updated (h : Sized fb) (x y w d : UInt32) : Sized (updateDamagedRegion fb x y w d) :=
  ⟨h.width, h.height, h.size⟩

theorem CellDrawn.sized (h : CellDrawn fb c fb') (hfb : Sized fb) : Sized fb' :=
  Paints.sized h (hfb.updated _ _ _ _)

theorem CellDrawn.cursorX (h : CellDrawn fb c fb') : fb'.cursorX = fb.cursorX := by
  rw [h.rest]
  rfl

/-- A glyph at the cursor, and the damage it does. -/
theorem cellDrawn_of_cursor (h : Sized fb) (hc : c.toNat < 128) (hcur : fb.cursorX.toNat < 80) :
    ∃ fb₁, drawGlyph fb c (8 * fb.cursorX) 368 = .ok fb₁ ∧
      CellDrawn fb c (updateDamagedRegion fb₁ (8 * fb.cursorX) 368 8 16) := by
  have hx : (8 * fb.cursorX).toNat = 8 * fb.cursorX.toNat := by
    have h8 : (8 : UInt32).toNat = 8 := rfl
    rw [UInt32.toNat_mul, h8]
    omega
  have hy : (368 : UInt32).toNat = 368 := rfl
  obtain ⟨fb₁, hfb₁, hpaint⟩ := drawGlyph_paints h hc (8 * fb.cursorX) 368 (by omega) (by omega)
  rw [hx, hy] at hpaint
  refine ⟨fb₁, hfb₁, ?_, hpaint.size, hpaint.holds⟩
  rw [hpaint.rest]
  rfl

/-- **All that `draw_char` can do** with a character of the font, and that it does so without an
access outside of the buffer. -/
theorem drawChar_step (h : Sized fb) (hc : c.toNat < 128) (hcur : fb.cursorX.toNat ≤ 80) :
    ∃ fb', drawChar fb c = .ok fb' ∧ DrawStep fb c fb' := by
  have h80 : (80 : UInt32).toNat = 80 := rfl
  unfold drawChar
  by_cases h13 : c = 13
  · subst h13
    exact ⟨_, rfl, .carriage⟩
  rw [if_neg h13]
  by_cases h10 : c = 10
  · subst h10
    obtain ⟨fb', hfb', hpaint⟩ := scrollUp_paints h
    exact ⟨fb', by rw [if_pos rfl, hfb'], .newline hpaint⟩
  rw [if_neg h10]
  by_cases h8 : c = 8
  · subst h8
    rw [if_pos rfl]
    by_cases h0 : fb.cursorX = 0
    · exact ⟨fb, by rw [if_pos h0], .margin h0⟩
    rw [if_neg h0]
    have hpos : fb.cursorX.toNat ≠ 0 := fun h => h0 (UInt32.toNat.inj h)
    have hsub : (fb.cursorX - 1).toNat = fb.cursorX.toNat - 1 := by
      have h1 : (1 : UInt32).toNat = 1 := rfl
      rw [UInt32.toNat_sub_of_le _ _ (by rw [UInt32.le_iff_toNat_le]; omega), h1]
    -- one to the left of the cursor, so the cell does not wrap
    have hno : ¬ (fb.cursorX - 1 = 80) := by
      intro heq
      have := congrArg UInt32.toNat heq
      omega
    obtain ⟨fb₁, hfb₁, hcell⟩ := cellDrawn_of_cursor (h.cursor (fb.cursorX - 1)) hc
      (by show (fb.cursorX - 1).toNat < 80; omega)
    refine ⟨_, ?_, .backspace h0 hcell⟩
    dsimp only at hfb₁
    simp [drawCell, hno, hfb₁, bind, Except.bind, pure, Except.pure]
  rw [if_neg h8]
  unfold drawCell
  have hty : Typed c := ⟨h13, h10, h8⟩
  by_cases hfull : fb.cursorX = 80
  · obtain ⟨fb₁, hfb₁, hpaint⟩ := scrollUp_paints (h.cursor 0)
    have hsized : Sized fb₁ := hpaint.sized (h.cursor 0).allDamaged
    have hzero : fb₁.cursorX = 0 := by
      rw [hpaint.rest]
      rfl
    obtain ⟨fb₂, hfb₂, hcell⟩ := cellDrawn_of_cursor hsized hc (by rw [hzero]; decide)
    refine ⟨_, ?_, .wrap hty hfull hpaint hcell⟩
    simp [hfull, hfb₁, hfb₂, h8, bind, Except.bind, pure, Except.pure]
  · have hlt : fb.cursorX.toNat < 80 := by
      have hne : fb.cursorX.toNat ≠ 80 := fun h => hfull (UInt32.toNat.inj h)
      omega
    obtain ⟨fb₁, hfb₁, hcell⟩ := cellDrawn_of_cursor h hc hlt
    refine ⟨_, ?_, .type hty hfull hcell⟩
    simp [hfull, hfb₁, h8, bind, Except.bind, pure, Except.pure]

end

/-! ## The terminal, rendered -/

open Terminal

theorem render_scroll (t : Terminal) :
    ∀ x < 640, ∀ y < 384, scrolled t.render x y = t.scroll.render x y := by
  intro x hx y hy
  unfold scrolled render
  have hcol : x / 8 < 80 := by omega
  rw [cellAt_scroll t (y / 16) hcol]
  by_cases hy' : y < 368
  · have hrow : (y + 16) / 16 = y / 16 + 1 := by omega
    have hmod : (y + 16) % 16 = y % 16 := by omega
    rw [if_pos hy', hrow, hmod]
  · rw [if_neg hy', cellAt, dif_neg (by omega)]
    rfl

/-- Drawing a glyph in the bottom row is writing its cell. -/
theorem render_setBottom (t : Terminal) {c : UInt8} {cell : Option UInt8} {column : Nat}
    (hglyph : ∀ x < 8, ∀ y < 16, glyphPixel c x y = cellPixel cell x y) :
    ∀ x < 640, ∀ y < 384,
      glyphDrawn c (8 * column) 368 16 t.render x y = (t.setBottom column cell).render x y := by
  intro x hx y hy
  unfold glyphDrawn render
  rw [cellAt_setBottom t (by omega) (by omega)]
  by_cases hin : (8 * column ≤ x ∧ x < 8 * column + 8) ∧ 368 ≤ y ∧ y < 368 + 16
  · have hx' : x - 8 * column = x % 8 := by omega
    have hy' : y - 368 = y % 16 := by omega
    rw [if_pos hin, if_pos (by omega), hx', hy']
    exact hglyph _ (by omega) _ (by omega)
  · rw [if_neg hin, if_neg (by omega)]

/-- The glyph of a backspace is blank. -/
theorem glyphPixel_backspace (x : Nat) {y : Nat} (hy : y < 16) : glyphPixel 8 x y = 0 := by
  have hrow : gFont.getD (16 * 8 + y) 0 = 0 := by
    rw [Array.getD_eq_getD_getElem?, gFont_backspace y hy]
    rfl
  have h8 : (8 : UInt8).toNat = 8 := rfl
  simp [glyphPixel, h8, hrow]

theorem drawnChar_eq (ck : CharKind) (b : UInt8) : drawnChar ck b = if b ≤ 127 then b else 32 := by
  unfold drawnChar
  have hiff : (ck.val b ≥ 0 ∧ ck.val b ≤ 127) ↔ b ≤ 127 := by
    rw [UInt8.le_iff_toNat_le]
    have h127 : (127 : UInt8).toNat = 127 := rfl
    have hlt := b.toNat_lt
    rw [h127]
    cases ck with
    | unsigned =>
        simp only [CharKind.val]
        omega
    | signed =>
        have hval : b.toInt8.toInt = (b.toNat : Int).bmod 256 := by
          rw [← Int8.toInt_toBitVec, BitVec.toInt_eq_toNat_bmod]
          rfl
        simp only [CharKind.val, hval, Int.bmod]
        omega
  by_cases hle : b ≤ 127
  · rw [if_pos (hiff.mpr hle), if_pos hle]
  · rw [if_neg (fun h => hle (hiff.mp h)), if_neg hle]

theorem drawnChar_lt (ck : CharKind) (b : UInt8) : (drawnChar ck b).toNat < 128 := by
  rw [drawnChar_eq]
  by_cases hle : b ≤ 127
  · rw [if_pos hle]
    have := UInt8.le_iff_toNat_le.mp hle
    have h127 : (127 : UInt8).toNat = 127 := rfl
    omega
  · rw [if_neg hle]
    decide

/-- A control character stands for itself. -/
theorem drawnChar_control (ck : CharKind) {b c : UInt8} (hc : c < 32) :
    drawnChar ck b = c ↔ b = c := by
  rw [drawnChar_eq]
  by_cases hle : b ≤ 127
  · rw [if_pos hle]
  · rw [if_neg hle]
    have h32 : (32 : UInt8).toNat = 32 := rfl
    have h127 : (127 : UInt8).toNat = 127 := rfl
    rw [UInt8.le_iff_toNat_le, h127] at hle
    rw [UInt8.lt_iff_toNat_lt, h32] at hc
    constructor
    · rintro rfl
      omega
    · rintro rfl
      omega

/-- What is drawn for a byte looks like the byte's cell. -/
theorem glyphPixel_drawnChar (ck : CharKind) (b : UInt8) (x y : Nat) :
    glyphPixel (drawnChar ck b) x y = cellPixel (some b) x y := by
  rw [drawnChar_eq]
  by_cases hle : b ≤ 127
  · rw [if_pos hle]
    rfl
  · rw [if_neg hle]
    simp only [cellPixel, glyphPixel, if_neg hle]
    rfl

/-! ## The simulation -/

/-- The framebuffer shows the terminal: its picture is the terminal rendered, and its cursor the
terminal's column. -/
structure Shows (fb : FrameBuffer) (t : Terminal) : Prop where
  sized : Sized fb
  cursorX : fb.cursorX.toNat = t.column
  holds : Holds fb.buf t.render

section

variable {fb fb' : FrameBuffer} {t : Terminal}

theorem Shows.cursor_le (h : Shows fb t) : fb.cursorX.toNat ≤ 80 := by
  rw [h.cursorX]
  exact t.column_le

theorem Shows.moveTo (h : Shows fb t) {k : UInt32} {n : Nat} (hk : k.toNat = n) (hn : n ≤ 80) :
    Shows { fb with cursorX := k } (t.moveTo n hn) :=
  ⟨h.sized.cursor k, hk, h.holds⟩

theorem Shows.scroll (h : Shows fb t) {fb₀ : FrameBuffer} (hfb₀ : fb₀ = allDamaged fb)
    (hpaint : Paints fb₀ (scrolled (picture fb.buf)) fb') : Shows fb' t.scroll := by
  subst hfb₀
  refine ⟨hpaint.sized h.sized.allDamaged, ?_, ?_⟩
  · rw [hpaint.rest]
    exact h.cursorX
  · intro x hx y hy
    rw [hpaint.holds x hx y hy, ← render_scroll t x hx y hy]
    unfold scrolled
    by_cases hy' : y < 368
    · rw [if_pos hy', if_pos hy', h.holds x hx _ (by omega)]
    · rw [if_neg hy', if_neg hy']

theorem Shows.cell (h : Shows fb t) {c : UInt8} {cell : Option UInt8}
    (hglyph : ∀ x < 8, ∀ y < 16, glyphPixel c x y = cellPixel cell x y)
    (hcell : CellDrawn fb c fb') : Shows fb' (t.setBottom t.column cell) := by
  refine ⟨hcell.sized h.sized, hcell.cursorX ▸ h.cursorX, ?_⟩
  intro x hx y hy
  rw [hcell.holds x hx y hy, ← render_setBottom t hglyph x hx y hy, h.cursorX]
  unfold glyphDrawn
  rw [h.holds x hx y hy]

/-- **One character keeps the simulation**: what is drawn for a byte is what the terminal makes of
the byte. -/
theorem Shows.step (ck : CharKind) {b : UInt8} (h : Shows fb t)
    (hstep : DrawStep fb (drawnChar ck b) fb') : Shows fb' (t.put b) := by
  have h13 := drawnChar_control ck (b := b) (c := 13) (by decide)
  have h10 := drawnChar_control ck (b := b) (c := 10) (by decide)
  have h8 := drawnChar_control ck (b := b) (c := 8) (by decide)
  have h80 : (80 : UInt32).toNat = 80 := rfl
  -- the step is one of the character drawn, the terminal's one of the byte
  generalize hdrawn : drawnChar ck b = c at hstep h13 h10 h8
  unfold Terminal.put
  cases hstep with
  | carriage =>
      rw [if_pos (h13.mp rfl)]
      exact h.moveTo rfl _
  | newline hscroll =>
      obtain rfl := h10.mp rfl
      exact h.scroll rfl hscroll
  | margin hcur =>
      obtain rfl := h8.mp rfl
      have hzero : t.column = 0 := by rw [← h.cursorX, hcur]; rfl
      rw [if_neg (by decide), if_neg (by decide), if_pos rfl, if_pos hzero]
      exact h
  | backspace hcur hcell =>
      obtain rfl := h8.mp rfl
      have hpos : t.column ≠ 0 := by
        rw [← h.cursorX]
        exact fun h => hcur (UInt32.toNat.inj h)
      have hsub : (fb.cursorX - 1).toNat = t.column - 1 := by
        have h1 : (1 : UInt32).toNat = 1 := rfl
        rw [UInt32.toNat_sub_of_le _ _ (by rw [UInt32.le_iff_toNat_le, h.cursorX]; omega),
          h.cursorX, h1]
      rw [if_neg (by decide), if_neg (by decide), if_pos rfl, if_neg hpos]
      have hmoved := h.moveTo hsub (Nat.le_trans (Nat.sub_le _ _) t.column_le)
      exact hmoved.cell (fun x _ y hy => glyphPixel_backspace x hy) hcell
  | type hc hcur hcell =>
      rename_i fb₁
      have hlt : t.column < 80 := by
        have hle := t.column_le
        have hne : t.column ≠ 80 := by
          rw [← h.cursorX]
          exact fun h => hcur (UInt32.toNat.inj h)
        omega
      rw [if_neg (fun hb => hc.1 (h13.mpr hb)), if_neg (fun hb => hc.2.1 (h10.mpr hb)),
        if_neg (fun hb => hc.2.2 (h8.mpr hb)), dif_pos hlt]
      have hdrawn' := h.cell (fun x _ y _ => hdrawn ▸ glyphPixel_drawnChar ck b x y) hcell
      refine hdrawn'.moveTo ?_ hlt
      have h1 : (1 : UInt32).toNat = 1 := rfl
      rw [hcell.cursorX, UInt32.toNat_add, h.cursorX, h1]
      omega
  | wrap hc hcur hscroll hcell =>
      rename_i fb₁ fb₂
      have hfull : ¬ t.column < 80 := by
        rw [← h.cursorX, hcur]
        decide
      rw [if_neg (fun hb => hc.1 (h13.mpr hb)), if_neg (fun hb => hc.2.1 (h10.mpr hb)),
        if_neg (fun hb => hc.2.2 (h8.mpr hb)), dif_neg hfull]
      -- the cursor goes back first, then the rows move, then the cell is drawn
      have hzero := h.moveTo (k := 0) (n := 0) rfl (by decide)
      have hdrawn' := (hzero.scroll rfl hscroll).cell
        (fun x _ y _ => hdrawn ▸ glyphPixel_drawnChar ck b x y) hcell
      have hcur₁ : fb₁.cursorX = 0 := by
        rw [hscroll.rest]
        rfl
      refine hdrawn'.moveTo ?_ (by decide)
      rw [hcell.cursorX, hcur₁]
      rfl

end

end LoliLoader.Graphics
