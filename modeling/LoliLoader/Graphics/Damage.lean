/-
# LoliLoader.Graphics.Damage -- the damaged region covers what has changed

The four damage fields of a framebuffer encode the rectangle that has changed since the last update
of the screen, or that nothing has. Outside of it buffer and screen agree.

`Region` is what the fields encode. There is no flag for an empty region: its lower bounds are the
width and the height, its upper bounds zero, so that the first cell that is added sets all four.
`Region.updated` is this step, for any region and any cell at the cursor.

`Tracks` is the invariant that is kept while a string is written. A character changes the picture in
a cell, or moves all of it up; in both cases the region has grown by what has changed, and the
general lemma about pictures that agree outside of a rectangle applies.

`blitDisplay_upToDate` ends it: once the region has been copied, the screen shows the buffer
everywhere. The rectangle that is copied lies in the frame, and the same place is read and written.
-/
import LoliLoader.Graphics.Simulation

namespace LoliLoader.Graphics

open C Image

/-! ## Machine words that are small numbers -/

theorem toNat_toUInt32_of_toInt {i : Int32} {n : Nat} (h : i.toInt = n) : i.toUInt32.toNat = n := by
  have hbv : i.toBitVec.toInt = (n : Int) := h
  have hlt := i.toBitVec.isLt
  rw [BitVec.toInt_eq_toNat_cond] at hbv
  show i.toBitVec.toNat = n
  split at hbv
  · omega
  · omega

theorem toInt_toInt32_of_lt {u : UInt32} (h : u.toNat < 2 ^ 31) : u.toInt32.toInt = u.toNat := by
  show u.toBitVec.toInt = _
  have hbv : u.toBitVec.toNat = u.toNat := rfl
  rw [BitVec.toInt_eq_toNat_cond, hbv, if_pos (by omega)]

theorem toNat_toUInt64_of_toInt {i : Int32} {n : Nat} (h : i.toInt = n) :
    i.toInt64.toUInt64.toNat = n := by
  have hi : i.toInt64.toInt = n := by rw [Int32.toInt_toInt64, h]
  have hbv : i.toInt64.toBitVec.toInt = (n : Int) := hi
  have hlt := i.toInt64.toBitVec.isLt
  rw [BitVec.toInt_eq_toNat_cond] at hbv
  show i.toInt64.toBitVec.toNat = n
  split at hbv
  · omega
  · omega

/-! ## The damaged region -/

/-- What the four fields encode: that nothing is damaged, or a rectangle. -/
inductive Region (fb : FrameBuffer) : Option Rect → Prop
  /-- nothing is damaged -/
  | clean (hleft : fb.damagedLeft = 640) (hup : fb.damagedUp = 384) (hright : fb.damagedRight = 0)
      (hdown : fb.damagedDown = 0) : Region fb none
  /-- a rectangle in the frame is -/
  | dirty (r : Rect) (hleft : fb.damagedLeft.toInt = r.left) (hup : fb.damagedUp.toInt = r.up)
      (hright : fb.damagedRight.toInt = r.right) (hdown : fb.damagedDown.toInt = r.down)
      (hwidth : r.right < 640) (hheight : r.down < 384) : Region fb (some r)

/-- All of the frame, as a rectangle; its bounds belong to it. -/
def frame : Rect := ⟨0, 0, 639, 383, Nat.zero_le _, Nat.zero_le _⟩

/-- The cell in column `column` of the bottom row. -/
def cellRect (column : Nat) : Rect :=
  ⟨8 * column, 368, 8 * column + 7, 383, Nat.le_add_right _ _, by decide⟩

section

variable {fb fb' : FrameBuffer} {d : Option Rect}

theorem Region.allDamaged (fb : FrameBuffer) : Region (allDamaged fb) (some frame) :=
  .dirty frame rfl rfl rfl rfl (by decide) (by decide)

theorem Region.reset (h : Sized fb) : Region (resetDamagedRegion fb) none := by
  refine .clean ?_ ?_ rfl rfl
  · show fb.width.toInt32 = 640
    rw [h.width]
    rfl
  · show fb.height.toInt32 = 384
    rw [h.height]
    rfl

/-- A lower bound that takes the lesser of two. -/
theorem toInt_lower {i : Int32} {u : UInt32} {n : Nat} (hi : i.toInt = n) (hu : u.toNat < 2 ^ 31) :
    (if i.toUInt32 > u then u.toInt32 else i).toInt = (min n u.toNat : Nat) := by
  have hn := toNat_toUInt32_of_toInt hi
  by_cases hgt : i.toUInt32 > u
  · have := UInt32.lt_iff_toNat_lt.mp hgt
    rw [if_pos hgt, toInt_toInt32_of_lt hu, Nat.min_eq_right (by omega)]
  · rw [gt_iff_lt, UInt32.lt_iff_toNat_lt] at hgt
    rw [if_neg (by rw [gt_iff_lt, UInt32.lt_iff_toNat_lt]; exact hgt), hi,
      Nat.min_eq_left (by omega)]

/-- An upper bound that takes the greater of two. -/
theorem toInt_upper {i : Int32} {u : UInt32} {n : Nat} (hi : i.toInt = n) (hu : u.toNat < 2 ^ 31) :
    (if i.toUInt32 < u then u.toInt32 else i).toInt = (max n u.toNat : Nat) := by
  have hn := toNat_toUInt32_of_toInt hi
  by_cases hlt : i.toUInt32 < u
  · have := UInt32.lt_iff_toNat_lt.mp hlt
    rw [if_pos hlt, toInt_toInt32_of_lt hu, Nat.max_eq_right (by omega)]
  · have hge := hlt
    rw [UInt32.lt_iff_toNat_lt] at hge
    rw [if_neg hlt, hi, Nat.max_eq_left (by omega)]

/-- `update_damaged_region` adds the cell at the cursor. -/
theorem Region.updated (h : Region fb d) {column : UInt32} (hcol : column.toNat < 80) :
    Region (updateDamagedRegion fb (8 * column) 368 8 16)
      (some (extend d (cellRect column.toNat))) := by
  have hx : (8 * column).toNat = 8 * column.toNat := by
    have h8 : (8 : UInt32).toNat = 8 := rfl
    rw [UInt32.toNat_mul, h8]
    omega
  have hendX : (8 * column + 8 - 1).toNat = 8 * column.toNat + 7 := by
    have h8 : (8 : UInt32).toNat = 8 := rfl
    have h1 : (1 : UInt32).toNat = 1 := rfl
    have hadd : (8 * column + 8).toNat = 8 * column.toNat + 8 := by
      rw [UInt32.toNat_add, hx, h8]
      omega
    rw [UInt32.toNat_sub_of_le _ _ (by rw [UInt32.le_iff_toNat_le]; omega), hadd, h1]
    omega
  have hendY : (368 + 16 - 1 : UInt32).toNat = 383 := rfl
  have hy : (368 : UInt32).toNat = 368 := rfl
  -- the empty region has the least bounds on its far sides
  have hbounds : ∃ l u r w : Nat, fb.damagedLeft.toInt = l ∧ fb.damagedUp.toInt = u ∧
      fb.damagedRight.toInt = r ∧ fb.damagedDown.toInt = w ∧ r < 640 ∧ w < 384 ∧
      min l (8 * column.toNat) = (extend d (cellRect column.toNat)).left ∧
      min u 368 = (extend d (cellRect column.toNat)).up ∧
      max r (8 * column.toNat + 7) = (extend d (cellRect column.toNat)).right ∧
      max w 383 = (extend d (cellRect column.toNat)).down := by
    cases h with
    | clean hleft hup hright hdown =>
        refine ⟨640, 384, 0, 0, by rw [hleft]; rfl, by rw [hup]; rfl, by rw [hright]; rfl,
          by rw [hdown]; rfl, by decide, by decide, ?_, rfl, ?_, rfl⟩
        · show min 640 (8 * column.toNat) = 8 * column.toNat
          omega
        · show max 0 (8 * column.toNat + 7) = 8 * column.toNat + 7
          omega
    | dirty r hleft hup hright hdown hwidth hheight =>
        exact ⟨r.left, r.up, r.right, r.down, hleft, hup, hright, hdown, hwidth, hheight, rfl, rfl,
          rfl, rfl⟩
  obtain ⟨l, u, r, w, hl, hu, hr, hw, hr640, hw384, hleft, hup, hright, hdown⟩ := hbounds
  have hlow := toInt_lower hl (u := 8 * column) (by omega)
  have hupp := toInt_lower hu (u := 368) (by omega)
  have hhigh := toInt_upper hr (u := 8 * column + 8 - 1) (by omega)
  have hdeep := toInt_upper hw (u := 368 + 16 - 1) (by omega)
  rw [hx, hleft] at hlow
  rw [hy, hup] at hupp
  rw [hendX, hright] at hhigh
  rw [hendY, hdown] at hdeep
  refine .dirty _ hlow hupp hhigh hdeep ?_ ?_
  · rw [← hright]
    omega
  · rw [← hdown]
    omega

/-! ## Buffer and screen -/

/-- Outside of the damaged region the screen shows the buffer. This holds between any two characters
of a string. -/
structure Tracks (fb : FrameBuffer) (screen : Screen) : Prop where
  sized : Sized fb
  cursor_le : fb.cursorX.toNat ≤ 80
  region : ∃ d, Region fb d ∧ AgreeOutside 640 384 d (picture fb.buf) (fun x y => screen x y)

variable {screen : Screen}

theorem Region.cursor (h : Region fb d) (k : UInt32) : Region { fb with cursorX := k } d := by
  cases h with
  | clean hleft hup hright hdown => exact .clean hleft hup hright hdown
  | dirty r hleft hup hright hdown hwidth hheight =>
      exact .dirty r hleft hup hright hdown hwidth hheight

theorem Region.paints {p : Picture Nat} (h : Region fb d) (hpaint : Paints fb p fb') :
    Region fb' d := by
  rw [hpaint.rest]
  cases h with
  | clean hleft hup hright hdown => exact .clean hleft hup hright hdown
  | dirty r hleft hup hright hdown hwidth hheight =>
      exact .dirty r hleft hup hright hdown hwidth hheight

theorem Tracks.cursor (h : Tracks fb screen) {k : UInt32} (hk : k.toNat ≤ 80) :
    Tracks { fb with cursorX := k } screen := by
  obtain ⟨d, hregion, hagree⟩ := h.region
  exact ⟨h.sized.cursor k, hk, d, hregion.cursor k, hagree⟩

theorem Tracks.scroll (screen : Screen) {fb₀ : FrameBuffer} (h : Sized fb)
    (hcur : fb.cursorX.toNat ≤ 80) (hfb₀ : fb₀ = allDamaged fb)
    (hpaint : Paints fb₀ (scrolled (picture fb.buf)) fb') :
    Tracks fb' screen := by
  subst hfb₀
  refine ⟨hpaint.sized h.allDamaged, ?_, some frame, (Region.allDamaged fb).paints hpaint, ?_⟩
  · rw [hpaint.rest]
    exact hcur
  · apply AgreeOutside.of_all
    intro x hx y hy
    exact ⟨⟨Nat.zero_le _, Nat.le_of_lt_succ hx⟩, Nat.zero_le _, Nat.le_of_lt_succ hy⟩

theorem Tracks.cell (h : Tracks fb screen) {c : UInt8} (hlt : fb.cursorX.toNat < 80)
    (hcell : CellDrawn fb c fb') : Tracks fb' screen := by
  obtain ⟨d, hregion, hagree⟩ := h.region
  refine ⟨hcell.sized h.sized, hcell.cursorX ▸ h.cursor_le, _,
    (hregion.updated hlt).paints hcell, ?_⟩
  apply hagree.change
  intro x hx y hy hout
  rw [hcell.holds x hx y hy]
  unfold glyphDrawn
  rw [if_neg]
  rintro ⟨⟨hlo, hhi⟩, hup, hdown⟩
  apply hout
  exact ⟨⟨hlo, by show x ≤ 8 * fb.cursorX.toNat + 7; omega⟩, hup, by show y ≤ 383; omega⟩

/-- **One character keeps screen and buffer in agreement** outside of the damage, which has grown by
what the character has changed. -/
theorem Tracks.step {c : UInt8} (h : Tracks fb screen) (hstep : DrawStep fb c fb') :
    Tracks fb' screen := by
  have hle := h.cursor_le
  have hlt : fb.cursorX ≠ 80 → fb.cursorX.toNat < 80 := by
    intro hne
    have hne' : fb.cursorX.toNat ≠ 80 := fun heq => hne (UInt32.toNat.inj heq)
    omega
  have hsucc : ∀ k : UInt32, k.toNat < 80 → (k + 1).toNat ≤ 80 := by
    intro k hk
    have h1 : (1 : UInt32).toNat = 1 := rfl
    rw [UInt32.toNat_add, h1]
    omega
  cases hstep with
  | carriage => exact h.cursor (by decide)
  | newline hscroll => exact .scroll screen h.sized hle rfl hscroll
  | margin hcur => exact h
  | backspace hcur hcell =>
      have hpos : fb.cursorX.toNat ≠ 0 := fun heq => hcur (UInt32.toNat.inj heq)
      have hsub : (fb.cursorX - 1).toNat < 80 := by
        have h1 : (1 : UInt32).toNat = 1 := rfl
        rw [UInt32.toNat_sub_of_le _ _ (by rw [UInt32.le_iff_toNat_le]; omega), h1]
        omega
      exact (h.cursor (Nat.le_of_lt hsub)).cell hsub hcell
  | type hc hcur hcell =>
      have hdrawn := h.cell (hlt hcur) hcell
      exact hdrawn.cursor (hsucc _ (by rw [hcell.cursorX]; exact hlt hcur))
  | wrap hc hcur hscroll hcell =>
      rename_i fb₁ fb₂
      have hcur₁ : fb₁.cursorX = 0 := by
        rw [hscroll.rest]
        rfl
      have hzero : fb₁.cursorX.toNat < 80 := by
        rw [hcur₁]
        decide
      have hmoved := Tracks.scroll screen (h.sized.cursor 0) (Nat.zero_le 80) rfl hscroll
      exact (hmoved.cell hzero hcell).cursor (hsucc _ (by rw [hcell.cursorX]; exact hzero))

/-! ## The update of the screen -/

/-- A rectangle of the frame that is not empty, copied to its own place on the screen. -/
structure InFrame (call : BltCall) : Prop where
  op : call.op = .bufferToVideo
  place : call.dstX = call.srcX ∧ call.dstY = call.srcY
  nonempty : 0 < call.width.toNat ∧ 0 < call.height.toNat
  inside : call.srcX.toNat + call.width.toNat ≤ 640 ∧ call.srcY.toNat + call.height.toNat ≤ 384

/-- Nothing is damaged, and the screen shows the buffer, pixel by pixel on all of the frame. -/
structure UpToDate (fb : FrameBuffer) (screen : Screen) : Prop where
  clean : Region fb none
  shown : ∀ x < 640, ∀ y < 384, screen x y = picture fb.buf x y

theorem toInt_extent {i j : Int32} {m n : Nat} (hi : i.toInt = m) (hj : j.toInt = n) (hle : m ≤ n)
    (hn : n < 640) : (j - i + 1).toUInt32.toUInt64.toNat = n - m + 1 := by
  have hsub : (j - i + 1).toInt = (n - m + 1 : Nat) := by
    have h1 : (1 : Int32).toInt = 1 := rfl
    rw [Int32.toInt_add, Int32.toInt_sub, hi, hj, h1]
    simp only [Int.bmod]
    omega
  rw [UInt32.toNat_toUInt64, toNat_toUInt32_of_toInt hsub]

/-- **`blit_buffer` brings the screen up to date**, by a copy that stays inside the frame, and
leaves the buffer and the cursor as they are. -/
theorem blitDisplay_upToDate {d : Display} (h : Tracks d.fb d.screen) :
    UpToDate (blitDisplay d).1.fb (blitDisplay d).1.screen ∧
      (blitDisplay d).1.fb.buf = d.fb.buf ∧ (blitDisplay d).1.fb.cursorX = d.fb.cursorX ∧
      (blitDisplay d).1.fb.gop = d.fb.gop ∧ Sized (blitDisplay d).1.fb ∧
      ∀ call ∈ (blitDisplay d).2, InFrame call := by
  obtain ⟨reg, hregion, hagree⟩ := h.region
  have hwidth : d.fb.width.toNat = 640 := by
    rw [h.sized.width]
    rfl
  have hsized : Sized (resetDamagedRegion d.fb) := ⟨h.sized.width, h.sized.height, h.sized.size⟩
  cases hregion with
  | clean hleft hup hright hdown =>
      have hblit : blitBuffer d.fb = (d.fb, none) := by
        unfold blitBuffer
        rw [if_pos (by rw [hleft, h.sized.width]; decide)]
      unfold blitDisplay
      rw [hblit]
      refine ⟨⟨.clean hleft hup hright hdown, fun x hx y hy => ?_⟩, rfl, rfl, rfl, h.sized, by simp⟩
      exact (hagree x hx y hy (by simp)).symm
  | dirty r hleft hup hright hdown hw hh =>
      have hlt : ¬ d.fb.damagedLeft.toUInt32 ≥ d.fb.width := by
        have := r.left_le
        rw [ge_iff_le, UInt32.le_iff_toNat_le, hwidth, toNat_toUInt32_of_toInt hleft]
        omega
      have hx := toNat_toUInt64_of_toInt hleft
      have hy := toNat_toUInt64_of_toInt hup
      have hextX := toInt_extent hleft hright r.left_le hw
      have hextY := toInt_extent hup hdown r.up_le (by omega)
      have hdelta : (4 * d.fb.width).toUInt64.toNat = 2560 := by
        rw [h.sized.width]
        rfl
      have hl := r.left_le
      have hu := r.up_le
      unfold blitDisplay blitBuffer
      rw [if_neg hlt]
      refine ⟨⟨Region.reset h.sized, fun x hx' y hy' => ?_⟩, rfl, rfl, rfl, hsized, ?_⟩
      · -- the firmware pastes the rectangle
        show blt d.screen d.fb.buf _ x y = wordAt d.fb.buf (4 * (640 * y + x))
        have hpaste := hagree.paste x hx' y hy' (by simp)
        unfold paste picture at hpaste
        unfold blt
        simp only [BltCall.covers, hx, hy, hextX, hextY, hdelta]
        by_cases hin : r.Mem x y
        · obtain ⟨⟨h1, h2⟩, h3, h4⟩ := hin
          rw [if_pos (by omega)]
          congr 1
          have hrow : r.up + (y - r.up) = y := by omega
          have hcol : r.left + (x - r.left) = x := by omega
          rw [hrow, hcol]
          omega
        · rw [if_neg hin] at hpaste
          have hout : ¬ (r.left ≤ x ∧ x < r.left + (r.right - r.left + 1) ∧
              r.up ≤ y ∧ y < r.up + (r.down - r.up + 1)) := by
            rintro ⟨h1, h2, h3, h4⟩
            exact hin ⟨⟨h1, by omega⟩, h3, by omega⟩
          rw [if_neg hout, hpaste]
      · intro call hcall
        obtain rfl := Option.mem_some_iff.mp hcall
        refine ⟨rfl, ⟨rfl, rfl⟩, ?_, ?_⟩
        · exact ⟨by rw [hextX]; omega, by rw [hextY]; omega⟩
        · exact ⟨by rw [hextX, hx]; omega, by rw [hextY, hy]; omega⟩

end

end LoliLoader.Graphics
