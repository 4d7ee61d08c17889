/-
# LoliLoader.C.Gaps -- arrays that are written with gaps

An array is written at some of its elements and keeps what it held at the others. The elements
written are the first ones of the array exactly if no gap comes before one of them; when there is
such a gap, what the array held before is among its first elements.

This is what becomes of a loop that counts the elements it accepts, but stores each of them at its
index in the input. The count is right and the places are not.

`fill` has the array as a list of optional elements over what it held before. `Gapless` is the
condition under which the first `n` elements are the `n` that were written (`Gapless.take_fill`).

For the other direction one has to find a gap in the result. What the array held before may be
anything, and may by chance be what should have been written; so it is shown with two different
values for it (`none_not_mem_of_perm`): if the first elements are right for both of them, there are
no gaps among them.
-/
import Mathlib.Data.List.Basic

namespace LoliLoader.C

variable {α : Type}

/-- The array after it was written: a cell is what was written to an element, if anything. -/
def fill (cells : List (Option α)) (array : List α) : List α :=
  List.zipWith (fun cell x => cell.getD x) cells array

/-- No gap comes before an element that is written. -/
def Gapless (cells : List (Option α)) : Prop := cells.Pairwise fun a b => b.isSome → a.isSome

theorem fill_cons (cell : Option α) (cells : List (Option α)) (x : α) (array : List α) :
    fill (cell :: cells) (x :: array) = cell.getD x :: fill cells array := rfl

/-- Writing to an array that holds the same everywhere it was not written before. -/
theorem fill_map_getD (g : α) (cells cells' : List (Option α)) :
    fill cells (cells'.map fun c => c.getD g)
      = (List.zipWith Option.or cells cells').map fun c => c.getD g := by
  rw [fill, List.zipWith_map_right, List.map_zipWith]
  congr 1
  funext c c'
  cases c <;> rfl

/-- Writing to an array that holds the same everywhere. -/
theorem fill_replicate (g : α) (cells : List (Option α)) :
    fill cells (List.replicate cells.length g) = cells.map fun c => c.getD g := by
  induction cells with
  | nil => rfl
  | cons c cells ih =>
      rw [List.length_cons, List.replicate_succ, fill_cons, ih]
      rfl

theorem zipWith_or_none {cells cells' : List (Option α)} (hlen : cells.length = cells'.length)
    (h : ∀ c ∈ cells', c = none) : List.zipWith Option.or cells cells' = cells := by
  induction cells generalizing cells' with
  | nil => rfl
  | cons c cells ih =>
      obtain ⟨c', cells', rfl⟩ := List.exists_cons_of_length_eq_add_one hlen.symm
      rw [List.zipWith_cons_cons, h c' List.mem_cons_self, Option.or_none,
        ih (Nat.succ.inj hlen) fun d hd => h d (List.mem_cons_of_mem c' hd)]

theorem gapless_iff {cells : List (Option α)} :
    Gapless cells ↔ none ∉ cells.take (cells.countP Option.isSome) := by
  induction cells with
  | nil => simp [Gapless]
  | cons cell cells ih =>
      rw [Gapless, List.pairwise_cons]
      cases cell with
      | some x =>
          rw [List.countP_cons_of_pos rfl, List.take_succ_cons, List.mem_cons]
          refine ⟨fun h => ?_, fun h => ⟨fun _ _ _ => rfl, ih.mpr fun hm => h (Or.inr hm)⟩⟩
          rintro (hc | hc)
          · cases hc
          · exact ih.mp h.2 hc
      | none =>
          rw [List.countP_cons_of_neg (by simp)]
          refine ⟨fun h => ?_, fun h => ?_⟩
          · -- behind a gap nothing is written
            have hcount : cells.countP Option.isSome = 0 := by
              rw [List.countP_eq_zero]
              intro c hc hsome
              exact absurd (h.1 c hc hsome) (by simp)
            rw [hcount]
            simp
          · have hcount : cells.countP Option.isSome = 0 := by
              by_contra hpos
              obtain ⟨n, hn⟩ := Nat.exists_eq_succ_of_ne_zero hpos
              rw [hn, List.take_succ_cons] at h
              exact h List.mem_cons_self
            rw [List.countP_eq_zero] at hcount
            refine ⟨fun c hc hsome => absurd hsome (hcount c hc), ?_⟩
            rw [List.pairwise_iff_forall_sublist]
            intro a b hsub hsome
            exact absurd hsome (hcount b (hsub.subset (by simp)))

/-- What is written comes first, in its order. -/
theorem Gapless.take_fill {cells : List (Option α)} (h : Gapless cells) {array : List α}
    (hlen : cells.length = array.length) :
    (fill cells array).take (cells.countP Option.isSome) = cells.filterMap id := by
  induction cells generalizing array with
  | nil => rfl
  | cons cell cells ih =>
      obtain ⟨x, array, rfl⟩ := List.exists_cons_of_length_eq_add_one hlen.symm
      rw [Gapless, List.pairwise_cons] at h
      have hrest := ih h.2 (Nat.succ.inj hlen)
      cases cell with
      | some y =>
          rw [List.countP_cons_of_pos rfl, fill_cons, List.take_succ_cons, hrest]
          rfl
      | none =>
          have hnone : ∀ c ∈ cells, ¬ c.isSome := by
            intro c hc hsome
            exact absurd (h.1 c hc hsome) (by simp)
          have hcount : cells.countP Option.isSome = 0 := List.countP_eq_zero.mpr hnone
          rw [hcount, List.take_zero] at hrest
          rw [List.countP_cons_of_neg (by simp), hcount, List.take_zero, hrest]
          rfl

/-- Behind what is written there are only gaps. -/
theorem Gapless.drop {cells : List (Option α)} (h : Gapless cells) :
    ∀ c ∈ cells.drop (cells.countP Option.isSome), c = none := by
  induction cells with
  | nil => simp
  | cons cell cells ih =>
      rw [Gapless, List.pairwise_cons] at h
      cases cell with
      | some x =>
          rw [List.countP_cons_of_pos rfl, List.drop_succ_cons]
          exact ih h.2
      | none =>
          have hnone : ∀ c ∈ none :: cells, c = none := by
            intro c hc
            rcases List.mem_cons.mp hc with rfl | hc
            · rfl
            · rw [← Option.not_isSome_iff_eq_none]
              intro hsome
              exact absurd (h.1 c hc hsome) (by simp)
          exact fun c hc => hnone c (List.mem_of_mem_drop hc)

theorem count_map_getD_self [DecidableEq α] (g : α) (cells : List (Option α)) :
    (cells.map fun c => c.getD g).count g = cells.count (some g) + cells.count none := by
  induction cells with
  | nil => rfl
  | cons cell cells ih =>
      rw [List.map_cons, List.count_cons, List.count_cons, List.count_cons, ih]
      cases cell with
      | none => simp [Nat.add_assoc]
      | some x =>
          simp only [Option.getD_some, Option.some_beq_some, Option.some_beq_none]
          by_cases hx : x = g
          · simp [hx, Nat.add_right_comm]
          · simp [hx]

theorem count_map_getD_ne [DecidableEq α] {g g' : α} (hne : g ≠ g') (cells : List (Option α)) :
    (cells.map fun c => c.getD g').count g = cells.count (some g) := by
  induction cells with
  | nil => rfl
  | cons cell cells ih =>
      rw [List.map_cons, List.count_cons, List.count_cons, ih]
      cases cell with
      | none => simp [hne.symm]
      | some x => simp

/-- If the elements are the same for two values that the gaps may hold, there are no gaps. -/
theorem none_not_mem_of_perm [DecidableEq α] {cells : List (Option α)} {g g' : α} (hne : g ≠ g')
    (h : (cells.map fun c => c.getD g).Perm (cells.map fun c => c.getD g')) : none ∉ cells := by
  have hcount := h.count_eq g
  rw [count_map_getD_self, count_map_getD_ne hne] at hcount
  apply List.count_eq_zero.mp
  omega

end LoliLoader.C
