/-
# LoliLoader.Graphics.Terminal -- an 80x24 character terminal

What the console is for: 24 rows of 80 cells, written on the bottom row only. The column is 80 when
the bottom row is full; the next character then starts a new row.

This is the specification, and it is independent of the source: no pixels are involved until a
terminal is rendered, and no integers of any width. A cell is blank, or it has the byte that was
written there.

The terminal is a simple one. Its rows only move up, there are no tabs or escape sequences, and a
newline does not return to the first column, for which the loader sends a carriage return. A
backspace goes one column back and blanks the cell there; in the first column it stays where it is.

`render` is the picture of a terminal. It needs the font for the pixels of a cell, which is the only
place where the two worlds meet.
-/
import LoliLoader.Graphics.Font
import LoliLoader.Image.Rect

namespace LoliLoader.Graphics

open Image

/-! ## Cells -/

/-- The pixel in column `x` of row `y` of the glyph for a byte; bytes outside 0..127 have
that of a space. -/
def glyphPixel (c : UInt8) (x y : Nat) : Nat :=
  let g := if c ≤ 127 then c.toNat else 32
  if (gFont.getD (16 * g + y) 0).toNat.testBit (7 - x) then 0x00ffffff else 0

/-- The pixels of a cell: those of the glyph of its byte, or black ones. -/
def cellPixel (cell : Option UInt8) (x y : Nat) : Nat :=
  match cell with
  | none => 0
  | some c => glyphPixel c x y

/-! ## The terminal -/

/-- The cells, each blank or with the byte written there, and the column to go on in, which is 80
behind a full row. -/
structure Terminal where
  cells : Fin 24 → Fin 80 → Option UInt8
  column : Nat
  column_le : column ≤ 80

namespace Terminal

/-- The terminal as it starts: no cell is written, and the first column is next. -/
def blank : Terminal := ⟨fun _ _ => none, 0, Nat.zero_le _⟩

/-- The cell in a row and column, blank outside of the terminal. -/
def cellAt (t : Terminal) (row column : Nat) : Option UInt8 :=
  if h : row < 24 ∧ column < 80 then t.cells ⟨row, h.1⟩ ⟨column, h.2⟩ else none

/-- All rows move up by one, the bottom row is blank. -/
def scroll (t : Terminal) : Terminal :=
  { t with cells := fun row column => t.cellAt (row + 1) column }

/-- A cell of the bottom row is written, with a byte or as a blank. -/
def setBottom (t : Terminal) (column : Nat) (cell : Option UInt8) : Terminal :=
  { t with
    cells := fun r c => if r.val = 23 ∧ c.val = column then cell else t.cells r c }

/-- The column in which to go on; no cell changes. -/
def moveTo (t : Terminal) (column : Nat) (h : column ≤ 80) : Terminal :=
  { t with column := column, column_le := h }

/-- A byte that is drawn, in column `column` of the bottom row. -/
def type (t : Terminal) (column : Nat) (h : column < 80) (c : UInt8) : Terminal :=
  (t.setBottom column (some c)).moveTo (column + 1) h

/-- One byte: carriage return, newline, backspace, or a byte that is drawn. -/
def put (t : Terminal) (c : UInt8) : Terminal :=
  if c = 13 then t.moveTo 0 (by decide)
  else if c = 10 then t.scroll
  else if c = 8 then
    if t.column = 0 then t
    else (t.setBottom (t.column - 1) none).moveTo (t.column - 1)
      (Nat.le_trans (Nat.sub_le _ _) t.column_le)
  else if h : t.column < 80 then t.type t.column h c
  else t.scroll.type 0 (by decide) c

/-- A sequence of bytes, one after the other. -/
def run (t : Terminal) (cs : List UInt8) : Terminal := cs.foldl put t

/-! ## Rendering -/

/-- The terminal as a picture of 640 by 384 pixels. -/
def render (t : Terminal) : Picture Nat := fun x y =>
  cellPixel (t.cellAt (y / 16) (x / 8)) (x % 8) (y % 16)

/-! ## Cells after an operation -/

section

variable (t : Terminal) (row column : Nat)

theorem cellAt_blank : blank.cellAt row column = none := by
  unfold cellAt
  split <;> rfl

theorem cellAt_scroll {column : Nat} (hc : column < 80) :
    t.scroll.cellAt row column = t.cellAt (row + 1) column := by
  unfold scroll
  rw [cellAt]
  by_cases hr : row < 24
  · rw [dif_pos ⟨hr, hc⟩]
  · rw [dif_neg (by omega), cellAt, dif_neg (by omega)]

theorem cellAt_setBottom {row column : Nat} (hr : row < 24) (hc : column < 80) (k : Nat)
    (cell : Option UInt8) :
    (t.setBottom k cell).cellAt row column
      = if row = 23 ∧ column = k then cell else t.cellAt row column := by
  unfold setBottom
  rw [cellAt, cellAt, dif_pos ⟨hr, hc⟩, dif_pos ⟨hr, hc⟩]

end

end Terminal

end LoliLoader.Graphics
