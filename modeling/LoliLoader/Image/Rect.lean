/-
# LoliLoader.Image.Rect -- pictures, rectangles and partial updates

A copy of a picture is kept up to date by pasting a rectangle of it. That is enough when the copy is
right outside of the rectangle, and `AgreeOutside` is this invariant.

The rectangle is kept instead of the set of pixels that have changed. It may cover more than has
changed, but never less: when the picture changes inside some rectangle, the least rectangle around
both is the new one (`AgreeOutside.change`), and when nothing has changed yet there is none at all.

`AgreeOutside.paste` is the reason for all of it: once the rectangle has been pasted, the copy
agrees with the picture everywhere on the frame.

The frame is a number of columns and of rows. Outside of it the pictures are not compared, since the
display has no pixels there and a buffer may have anything.
-/
import Mathlib.Order.Lattice

namespace LoliLoader.Image

/-- The pixel in column `x` of row `y`. -/
abbrev Picture (α : Type*) := Nat → Nat → α

/-- A rectangle of pixels, given by its first and last column and row: it has at least
one pixel. -/
structure Rect where
  left : Nat
  up : Nat
  right : Nat
  down : Nat
  left_le : left ≤ right
  up_le : up ≤ down

namespace Rect

/-- The rectangle has the pixel in column `x` of row `y`; its bounds belong to it. -/
def Mem (r : Rect) (x y : Nat) : Prop :=
  (r.left ≤ x ∧ x ≤ r.right) ∧ (r.up ≤ y ∧ y ≤ r.down)

instance (r : Rect) (x y : Nat) : Decidable (r.Mem x y) := by
  unfold Mem
  infer_instance

/-- The least rectangle around two. It may have pixels that neither of them has. -/
def cover (r s : Rect) : Rect where
  left := min r.left s.left
  up := min r.up s.up
  right := max r.right s.right
  down := max r.down s.down
  left_le := le_trans (min_le_left _ _) (le_trans r.left_le (le_max_left _ _))
  up_le := le_trans (min_le_left _ _) (le_trans r.up_le (le_max_left _ _))

variable {r s : Rect} {x y : Nat}

theorem mem_cover_left (h : r.Mem x y) : (r.cover s).Mem x y := by
  obtain ⟨⟨h1, h2⟩, h3, h4⟩ := h
  exact ⟨⟨le_trans (min_le_left _ _) h1, le_trans h2 (le_max_left _ _)⟩,
    le_trans (min_le_left _ _) h3, le_trans h4 (le_max_left _ _)⟩

theorem mem_cover_right (h : s.Mem x y) : (r.cover s).Mem x y := by
  obtain ⟨⟨h1, h2⟩, h3, h4⟩ := h
  exact ⟨⟨le_trans (min_le_right _ _) h1, le_trans h2 (le_max_right _ _)⟩,
    le_trans (min_le_right _ _) h3, le_trans h4 (le_max_right _ _)⟩

end Rect

/-- The least rectangle around what is covered so far and `s`. -/
def extend : Option Rect → Rect → Rect
  | none, s => s
  | some r, s => r.cover s

section

variable {α : Type*} {w h : Nat} {p p' q : Picture α} {d : Option Rect} {r s : Rect}

/-- On a frame of `w` by `h` pixels the pictures agree, except on what `d` covers. -/
def AgreeOutside (w h : Nat) (d : Option Rect) (p q : Picture α) : Prop :=
  ∀ x < w, ∀ y < h, (∀ r ∈ d, ¬ r.Mem x y) → p x y = q x y

/-- What changes is added to the rectangle. -/
theorem AgreeOutside.change (hd : AgreeOutside w h d p q)
    (hp : ∀ x < w, ∀ y < h, ¬ s.Mem x y → p' x y = p x y) :
    AgreeOutside w h (some (extend d s)) p' q := by
  intro x hx y hy hno
  have hout : ¬ (extend d s).Mem x y := hno _ rfl
  have hs : ¬ s.Mem x y := by
    intro hm
    apply hout
    cases d with
    | none => exact hm
    | some r => exact Rect.mem_cover_right hm
  rw [hp x hx y hy hs]
  apply hd x hx y hy
  rintro r rfl hm
  exact hout (Rect.mem_cover_left hm)

/-- Outside of all of the frame there is nothing to agree on. -/
theorem AgreeOutside.of_all (hr : ∀ x < w, ∀ y < h, r.Mem x y) : AgreeOutside w h (some r) p q :=
  fun x hx y hy hno => absurd (hr x hx y hy) (hno r rfl)

/-- `q` with the rectangle `r` of `p` in its place. -/
def paste (r : Rect) (p q : Picture α) : Picture α := fun x y => if r.Mem x y then p x y else q x y

/-- **Pasting what has changed brings the copy up to date**: afterwards copy and picture agree on
all of the frame. -/
theorem AgreeOutside.paste (hd : AgreeOutside w h (some r) p q) :
    AgreeOutside w h none p (paste r p q) := by
  intro x hx y hy _
  unfold Image.paste
  by_cases hm : r.Mem x y
  · rw [if_pos hm]
  · rw [if_neg hm]
    apply hd x hx y hy
    intro s hs
    obtain rfl := Option.mem_some_iff.mp hs
    exact hm

end

end LoliLoader.Image
