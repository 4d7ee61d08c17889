/-
# LoliLoader.Elf2Efi.Slots -- the slots of relocations in the file

Every segment gets the words of the relocations inside it, and its file-backed part grows with the
slots behind it. `data_at_vaddr` counts the end of a segment as covered, and a slot across the end
of the file-backed part does not make it grow.

What `apply_relocs` owes is that each slot is in the file with its addend, and that all else is as
it was. There are two ways to miss that. A slot at the start of a segment is written to the segment
that ends there, if that one comes first; and a slot that begins in the file-backed part and ends
behind it is cut, unless a later slot makes the part grow.

`Found` and `Followed` are the two conditions, on the segments and relocations as they are given.
`applyRelocs_slotsWritten_iff` says that together they are exact, for segments that are apart and
slots that ascend without overlapping.

`settle` is what a segment becomes if all goes well, one relocation at a time. A segment only
depends on the slots inside it, so the loop over all relocations can be followed for each segment by
itself.
-/
import LoliLoader.Elf2Efi.Inversion
import LoliLoader.Elf2Efi.Apply
import Mathlib.Data.List.Pairwise

namespace LoliLoader.Elf2Efi

open C Bytes

/-- The slot of a relocation is inside `[vaddr, vaddr + memsize)`. -/
def Segment.owns (s : Segment) (r : ExecReloc) : Bool :=
  s.vaddr.toNat ≤ r.vaddr.toNat ∧ r.vaddr.toNat + 8 ≤ s.vaddr.toNat + s.memsize.toNat

/-- The offset of the slot in the data of the segment that it is in. -/
def Segment.slotOffset (s : Segment) (r : ExecReloc) : Nat := r.vaddr.toNat - s.vaddr.toNat

/-- Disjoint segments with all of their memory in `rawData`, and ascending slots that do not
overlap. -/
structure Relocatable (exec : Executable) : Prop where
  length : ∀ s ∈ exec.segments, s.data.rawData.length = s.memsize.toNat
  filesize : ∀ s ∈ exec.segments, s.filesize ≤ s.memsize
  apart : exec.segments.Pairwise fun s t => s.range.Apart t.range
  sorted : exec.relocs.Pairwise fun r r' => r.vaddr.toNat + 8 ≤ r'.vaddr.toNat

/-- Of two slots, the lower one ends before the other. -/
theorem slot_before {relocs : List ExecReloc}
    (hsorted : relocs.Pairwise fun r r' => r.vaddr.toNat + 8 ≤ r'.vaddr.toNat)
    {r r' : ExecReloc} (hr : r ∈ relocs) (hr' : r' ∈ relocs)
    (hlt : r.vaddr.toNat < r'.vaddr.toNat) : r.vaddr.toNat + 8 ≤ r'.vaddr.toNat := by
  have : Std.Symm fun r r' : ExecReloc => r.vaddr.toNat + 8 ≤ r'.vaddr.toNat ∨
      r'.vaddr.toNat + 8 ≤ r.vaddr.toNat := ⟨fun _ _ => Or.symm⟩
  have hne : r ≠ r' := by
    rintro rfl
    exact lt_irrefl _ hlt
  have heither : relocs.Pairwise fun r r' => r.vaddr.toNat + 8 ≤ r'.vaddr.toNat ∨
      r'.vaddr.toNat + 8 ≤ r.vaddr.toNat := hsorted.imp fun h => Or.inl h
  have hor := heither.forall hr hr' hne
  omega

/-- What becomes of a segment: every slot in it is in the file and holds its addend, and the
other bytes are as they were. -/
structure SlotsWritten (relocs : List ExecReloc) (s s' : Segment) : Prop where
  vaddr : s'.vaddr = s.vaddr
  memsize : s'.memsize = s.memsize
  length : s'.data.rawData.length = s.data.rawData.length
  filesize : s'.filesize ≤ s'.memsize
  inFile : ∀ r ∈ relocs, s.owns r → s.slotOffset r + 8 ≤ s'.filesize.toNat
  words : ∀ r ∈ relocs, s.owns r →
    (s'.data.rawData.drop (s.slotOffset r)).take 8 = leBytes 8 r.addend.toNat
  others : ∀ k, (∀ r ∈ relocs, s.owns r → k < s.slotOffset r ∨ s.slotOffset r + 8 ≤ k) →
    s'.data.rawData.getD k 0 = s.data.rawData.getD k 0

/-- The segment of the slot ends inside the address space, and no segment before it in the array
ends where the slot starts. -/
def Found (segments : List Segment) (r : ExecReloc) : Prop :=
  ∃ pre s post, segments = pre ++ s :: post ∧ s.owns r ∧
    s.vaddr.toNat + s.memsize.toNat < 2 ^ 64 ∧
    ∀ t ∈ pre, t.vaddr.toNat + t.memsize.toNat ≠ r.vaddr.toNat

/-- A slot across the end of the file-backed part of its segment is not the last one in it. -/
def Followed (relocs : List ExecReloc) (s : Segment) : Prop :=
  ∀ r ∈ relocs, s.owns r → s.slotOffset r < s.filesize.toNat →
    s.filesize.toNat < s.slotOffset r + 8 →
    ∃ r' ∈ relocs, s.owns r' ∧ r.vaddr.toNat < r'.vaddr.toNat

/-! ## One relocation -/

/-- What a relocation does to a segment: it is patched if the slot is in it, and else left alone. -/
def Segment.settleStep (s : Segment) (r : ExecReloc) : Segment :=
  if s.owns r then s.patched r else s

section

variable {s : Segment} {r : ExecReloc}

theorem Segment.owns_iff : s.owns r ↔ s.vaddr.toNat ≤ r.vaddr.toNat ∧
    r.vaddr.toNat + 8 ≤ s.vaddr.toNat + s.memsize.toNat := by
  rw [owns, decide_eq_true_iff]

theorem Segment.within_of_owns (h : s.owns r) : s.Within r (s.slotOffset r) := by
  obtain ⟨hle, hend⟩ := owns_iff.mp h
  have hsub : (r.vaddr - s.vaddr).toNat = r.vaddr.toNat - s.vaddr.toNat :=
    UInt64.toNat_sub_of_le _ _ (UInt64.le_iff_toNat_le.mpr hle)
  exact ⟨hsub, by unfold slotOffset; omega, by unfold slotOffset; omega⟩

theorem Segment.mem_range_of_owns (h : s.owns r) : r.vaddr.toNat ∈ s.range := by
  have hbounds := owns_iff.mp h
  rw [mem_range]
  omega

theorem Segment.settleStep_of_owns (h : s.owns r) : s.settleStep r = s.patched r := if_pos h

theorem Segment.settleStep_of_not_owns (h : ¬ s.owns r) : s.settleStep r = s := if_neg h

@[simp]
theorem Segment.shape_settleStep (s : Segment) (r : ExecReloc) :
    (s.settleStep r).shape = s.shape := by
  unfold settleStep
  split <;> rfl

theorem Segment.vaddr_of_shape {s t : Segment} (h : s.shape = t.shape) : s.vaddr = t.vaddr :=
  congrArg Prod.fst h

theorem Segment.memsize_of_shape {s t : Segment} (h : s.shape = t.shape) :
    s.memsize = t.memsize :=
  congrArg (fun x => x.2.1) h

theorem Segment.owns_of_shape {s t : Segment} (h : s.shape = t.shape) (r : ExecReloc) :
    s.owns r = t.owns r := by
  rw [owns, owns, vaddr_of_shape h, memsize_of_shape h]

theorem Segment.slotOffset_of_shape {s t : Segment} (h : s.shape = t.shape) (r : ExecReloc) :
    s.slotOffset r = t.slotOffset r := by
  rw [slotOffset, slotOffset, vaddr_of_shape h]

theorem Segment.length_settleStep (h : s.data.rawData.length = s.memsize.toNat) :
    (s.settleStep r).data.rawData.length = s.memsize.toNat := by
  by_cases ho : s.owns r
  · rw [settleStep_of_owns ho]
    exact (within_of_owns ho).length_patched h
  · rw [settleStep_of_not_owns ho]
    exact h

theorem Segment.filesize_settleStep : (s.settleStep r).filesize.toNat =
    if s.owns r ∧ s.filesize.toNat ≤ s.slotOffset r then s.slotOffset r + 8
    else s.filesize.toNat := by
  by_cases ho : s.owns r
  · rw [settleStep_of_owns ho, (within_of_owns ho).filesize_patched]
    simp [ho]
  · rw [settleStep_of_not_owns ho, if_neg (fun h => ho h.1)]

end

/-! ## All relocations -/

/-- What the relocations do to a segment, one after the other. -/
def Segment.settle (relocs : List ExecReloc) (s : Segment) : Segment :=
  relocs.foldl Segment.settleStep s

section

variable {s : Segment} {relocs : List ExecReloc}

@[simp]
theorem Segment.shape_settle (relocs : List ExecReloc) (s : Segment) :
    (s.settle relocs).shape = s.shape := by
  induction relocs generalizing s with
  | nil => rfl
  | cons r relocs ih => exact (ih _).trans (shape_settleStep s r)

theorem Segment.length_settle (h : s.data.rawData.length = s.memsize.toNat) :
    (s.settle relocs).data.rawData.length = s.memsize.toNat := by
  induction relocs generalizing s with
  | nil => exact h
  | cons r relocs ih =>
      have hsize := memsize_of_shape (shape_settleStep s r)
      have hstep := @length_settleStep s r h
      rw [← hsize] at hstep ⊢
      exact ih hstep

theorem Segment.filesize_le_settle : s.filesize.toNat ≤ (s.settle relocs).filesize.toNat := by
  induction relocs generalizing s with
  | nil => exact le_refl _
  | cons r relocs ih =>
      refine le_trans ?_ (@ih (s.settleStep r))
      rw [filesize_settleStep]
      split <;> omega

theorem Segment.filesize_settle_le (h : s.filesize.toNat ≤ s.memsize.toNat) :
    (s.settle relocs).filesize.toNat ≤ s.memsize.toNat := by
  induction relocs generalizing s with
  | nil => exact h
  | cons r relocs ih =>
      have hsize := memsize_of_shape (shape_settleStep s r)
      have hstep : (s.settleStep r).filesize.toNat ≤ (s.settleStep r).memsize.toNat := by
        rw [filesize_settleStep, hsize]
        split
        · rename_i ho
          exact (within_of_owns ho.1).inside
        · exact h
      have hrest := ih hstep
      rw [hsize] at hrest
      exact hrest

/-- A slot behind the file-backed part makes it grow. -/
theorem Segment.slot_le_filesize_settle
    (hsorted : relocs.Pairwise fun r r' => r.vaddr.toNat + 8 ≤ r'.vaddr.toNat) {r : ExecReloc}
    (hr : r ∈ relocs) (ho : s.owns r) (hp : s.filesize.toNat ≤ s.slotOffset r) :
    s.slotOffset r + 8 ≤ (s.settle relocs).filesize.toNat := by
  induction relocs generalizing s with
  | nil => exact absurd hr List.not_mem_nil
  | cons r₀ relocs ih =>
      rw [List.pairwise_cons] at hsorted
      have hshape := shape_settleStep s r₀
      have hfile := @filesize_settleStep s r₀
      rcases List.mem_cons.mp hr with rfl | hmem
      · rw [if_pos ⟨ho, hp⟩] at hfile
        rw [← hfile]
        exact filesize_le_settle
      · have hnext := hsorted.1 r hmem
        rw [← slotOffset_of_shape hshape]
        apply ih hsorted.2 hmem
        · rw [owns_of_shape hshape]
          exact ho
        · rw [slotOffset_of_shape hshape, hfile]
          split
          · rename_i ho₀
            have hle := (owns_iff.mp ho₀.1).1
            unfold slotOffset at *
            omega
          · exact hp

/-- Slots that start in the file-backed part leave it as it is. -/
theorem Segment.filesize_settle_eq
    (h : ∀ r ∈ relocs, s.owns r → s.slotOffset r < s.filesize.toNat) :
    (s.settle relocs).filesize.toNat = s.filesize.toNat := by
  induction relocs generalizing s with
  | nil => rfl
  | cons r relocs ih =>
      have hshape := shape_settleStep s r
      have hfile : (s.settleStep r).filesize.toNat = s.filesize.toNat := by
        rw [filesize_settleStep, if_neg]
        rintro ⟨ho, hp⟩
        have hlt := h r List.mem_cons_self ho
        omega
      rw [← hfile]
      apply ih
      intro r' hr' ho
      rw [owns_of_shape hshape] at ho
      rw [slotOffset_of_shape hshape, hfile]
      exact h r' (List.mem_cons_of_mem r hr') ho

/-- **The slots of a segment are in the file** exactly if one across the end of the file-backed
part is followed by another. -/
theorem Segment.slots_inFile_iff
    (hsorted : relocs.Pairwise fun r r' => r.vaddr.toNat + 8 ≤ r'.vaddr.toNat) :
    (∀ r ∈ relocs, s.owns r → s.slotOffset r + 8 ≤ (s.settle relocs).filesize.toNat) ↔
      Followed relocs s := by
  have hgrow := @filesize_le_settle s relocs
  refine ⟨?_, ?_⟩
  · intro hin r hr ho hlow hhigh
    by_contra hlast
    have hall : ∀ r' ∈ relocs, s.owns r' → s.slotOffset r' < s.filesize.toNat := by
      intro r' hr' ho'
      by_contra hge
      apply hlast
      refine ⟨r', hr', ho', ?_⟩
      unfold slotOffset at hlow hge
      have hle := (owns_iff.mp ho).1
      omega
    have hfile := filesize_settle_eq hall
    have hslot := hin r hr ho
    omega
  · intro hfollowed r hr ho
    by_cases hp : s.filesize.toNat ≤ s.slotOffset r
    · exact slot_le_filesize_settle hsorted hr ho hp
    · by_cases hend : s.slotOffset r + 8 ≤ s.filesize.toNat
      · omega
      · -- the next slot is behind the end, and the file-backed part grows over both
        obtain ⟨r', hr', ho', hlt⟩ := hfollowed r hr ho (by omega) (by omega)
        have hnext := slot_before hsorted hr hr' hlt
        have hle := (owns_iff.mp ho).1
        have hslot := @slot_le_filesize_settle s relocs hsorted r' hr' ho' (by
          unfold slotOffset at *
          omega)
        unfold slotOffset at *
        omega

/-- Bytes outside of all slots are as they were. -/
theorem Segment.settle_others (hlen : s.data.rawData.length = s.memsize.toNat) {k : Nat}
    (h : ∀ r ∈ relocs, s.owns r → k < s.slotOffset r ∨ s.slotOffset r + 8 ≤ k) :
    (s.settle relocs).data.rawData.getD k 0 = s.data.rawData.getD k 0 := by
  induction relocs generalizing s with
  | nil => rfl
  | cons r relocs ih =>
      have hshape := shape_settleStep s r
      have hstep : (s.settleStep r).data.rawData.getD k 0 = s.data.rawData.getD k 0 := by
        by_cases ho : s.owns r
        · have hout := h r List.mem_cons_self ho
          rw [settleStep_of_owns ho, (within_of_owns ho).getD_patched hlen, if_neg (by omega)]
        · rw [settleStep_of_not_owns ho]
      rw [← hstep]
      apply ih
      · rw [length_settleStep hlen, memsize_of_shape hshape]
      · intro r' hr' ho
        rw [owns_of_shape hshape] at ho
        rw [slotOffset_of_shape hshape]
        exact h r' (List.mem_cons_of_mem r hr') ho

/-- A slot holds its addend: later slots are behind it. -/
theorem Segment.settle_word (hlen : s.data.rawData.length = s.memsize.toNat)
    (hsorted : relocs.Pairwise fun r r' => r.vaddr.toNat + 8 ≤ r'.vaddr.toNat) {r : ExecReloc}
    (hr : r ∈ relocs) (ho : s.owns r) {j : Nat} (hj : j < 8) :
    (s.settle relocs).data.rawData.getD (s.slotOffset r + j) 0
      = (leBytes 8 r.addend.toNat).getD j 0 := by
  induction relocs generalizing s with
  | nil => exact absurd hr List.not_mem_nil
  | cons r₀ relocs ih =>
      rw [List.pairwise_cons] at hsorted
      have hshape := shape_settleStep s r₀
      have hlen' : (s.settleStep r₀).data.rawData.length = (s.settleStep r₀).memsize.toNat := by
        rw [length_settleStep hlen, memsize_of_shape hshape]
      rcases List.mem_cons.mp hr with rfl | hmem
      · have hbehind : ∀ r' ∈ relocs, (s.settleStep r).owns r' →
            s.slotOffset r + j < (s.settleStep r).slotOffset r' ∨
              (s.settleStep r).slotOffset r' + 8 ≤ s.slotOffset r + j := by
          intro r' hr' _
          have hnext := hsorted.1 r' hr'
          have hle := (owns_iff.mp ho).1
          rw [slotOffset_of_shape hshape]
          unfold slotOffset
          omega
        have hsub : s.slotOffset r + j - s.slotOffset r = j := by omega
        show ((s.settleStep r).settle relocs).data.rawData.getD _ 0 = _
        rw [settle_others hlen' hbehind, settleStep_of_owns ho,
          (within_of_owns ho).getD_patched hlen, if_pos (by omega), hsub]
      · have ho' : (s.settleStep r₀).owns r := by
          rw [owns_of_shape hshape]
          exact ho
        have hword := ih hlen' hsorted.2 hmem ho'
        rw [slotOffset_of_shape hshape] at hword
        exact hword

theorem take_drop_eq {l bs : List UInt8} {p : Nat} (hp : p + bs.length ≤ l.length)
    (h : ∀ j < bs.length, l.getD (p + j) 0 = bs.getD j 0) :
    (l.drop p).take bs.length = bs := by
  apply List.ext_getElem
  · rw [List.length_take, List.length_drop]
    omega
  · intro j hj hj'
    have hget := h j hj'
    rw [List.getD_eq_getElem _ _ (by omega), List.getD_eq_getElem _ _ hj'] at hget
    rw [List.getElem_take, List.getElem_drop]
    exact hget

/-- **One segment**: the slots are in the file under that condition, and all else holds, whether the
slots are in the file or not. -/
theorem Segment.slotsWritten_iff (hlen : s.data.rawData.length = s.memsize.toNat)
    (hfile : s.filesize ≤ s.memsize)
    (hsorted : relocs.Pairwise fun r r' => r.vaddr.toNat + 8 ≤ r'.vaddr.toNat) :
    SlotsWritten relocs s (s.settle relocs) ↔ Followed relocs s := by
  have hshape := shape_settle relocs s
  rw [← slots_inFile_iff hsorted]
  refine ⟨SlotsWritten.inFile, fun hin => ?_⟩
  exact {
    vaddr := vaddr_of_shape hshape
    memsize := memsize_of_shape hshape
    length := (length_settle hlen).trans hlen.symm
    filesize := by
      rw [UInt64.le_iff_toNat_le, memsize_of_shape hshape]
      exact filesize_settle_le (UInt64.le_iff_toNat_le.mp hfile)
    inFile := hin
    words := by
      intro r hr ho
      have hinside := (within_of_owns ho).inside
      have htake := @take_drop_eq (s.settle relocs).data.rawData (leBytes 8 r.addend.toNat)
        (s.slotOffset r) (by rw [length_leBytes, length_settle hlen]; exact hinside)
      rw [length_leBytes] at htake
      exact htake fun j hj => settle_word hlen hsorted hr ho hj
    others := fun k hk => settle_others hlen hk }

end

/-! ## All segments -/

/-- Segments apart from each other, with all of their memory in `rawData`, as `parse_elf` and
`relocate_exec` leave them. -/
structure Arranged (segments : List Segment) : Prop where
  length : ∀ s ∈ segments, s.data.rawData.length = s.memsize.toNat
  apart : segments.Pairwise fun s t => s.range.Apart t.range

section

variable {exec exec' : Executable} {segments : List Segment} {r : ExecReloc}

theorem Arranged.settleStep (h : Arranged segments) (r : ExecReloc) :
    Arranged (segments.map fun s => s.settleStep r) := by
  refine ⟨?_, ?_⟩
  · intro t ht
    obtain ⟨s, hs, rfl⟩ := List.mem_map.mp ht
    rw [Segment.length_settleStep (h.length s hs),
      Segment.memsize_of_shape (Segment.shape_settleStep s r)]
  · rw [List.pairwise_map]
    refine h.apart.imp fun {s t} hapart => ?_
    rw [Segment.range_of_shape (Segment.shape_settleStep s r),
      Segment.range_of_shape (Segment.shape_settleStep t r)]
    exact hapart

/-- Where a slot is found depends on the shapes of the segments only. -/
theorem found_map_iff {f : Segment → Segment} (hf : ∀ s, (f s).shape = s.shape) :
    Found (segments.map f) r ↔ Found segments r := by
  have hends : ∀ s, (f s).vaddr = s.vaddr ∧ (f s).memsize = s.memsize := fun s =>
    ⟨Segment.vaddr_of_shape (hf s), Segment.memsize_of_shape (hf s)⟩
  refine ⟨?_, ?_⟩
  · rintro ⟨pre', t, post', hseg, ho, hfits, hbefore⟩
    obtain ⟨pre, rest, rfl, rfl, hrest⟩ := List.map_eq_append_iff.mp hseg
    obtain ⟨s, post, rfl, rfl, rfl⟩ := List.map_eq_cons_iff.mp hrest
    refine ⟨pre, s, post, rfl, ?_, ?_, ?_⟩
    · rw [← Segment.owns_of_shape (hf s)]
      exact ho
    · rw [← (hends s).1, ← (hends s).2]
      exact hfits
    · intro u hu
      have hend := hbefore (f u) (List.mem_map_of_mem hu)
      rw [(hends u).1, (hends u).2] at hend
      exact hend
  · rintro ⟨pre, s, post, rfl, ho, hfits, hbefore⟩
    refine ⟨pre.map f, f s, post.map f, by simp, ?_, ?_, ?_⟩
    · rw [Segment.owns_of_shape (hf s)]
      exact ho
    · rw [(hends s).1, (hends s).2]
      exact hfits
    · intro t ht
      obtain ⟨u, hu, rfl⟩ := List.mem_map.mp ht
      rw [(hends u).1, (hends u).2]
      exact hbefore u hu

/-- **A relocation that is found** settles in its segment, and leaves the others alone. -/
theorem applyReloc_of_found (h : Arranged exec.segments) (hfound : Found exec.segments r) :
    applyReloc exec r
      = .ok { exec with segments := exec.segments.map fun s => s.settleStep r } := by
  obtain ⟨pre, s, post, hseg, ho, hfits, hbefore⟩ := hfound
  have hs := mem_of_eq_append hseg
  have hapart := h.apart
  rw [hseg, List.pairwise_append, List.pairwise_cons] at hapart
  obtain ⟨-, ⟨hpost, -⟩, hpre⟩ := hapart
  have hin := Segment.mem_range_of_owns ho
  -- no other segment has the slot
  have hother : ∀ l : List Segment, (∀ t ∈ l, t.range.Apart s.range) →
      l.map (fun t => t.settleStep r) = l := by
    intro l hl
    have hself : ∀ t ∈ l, t.settleStep r = id t := by
      intro t ht
      apply Segment.settleStep_of_not_owns
      intro hot
      exact hl t ht _ (Segment.mem_range_of_owns hot) hin
    rw [List.map_congr_left hself, List.map_id]
  have hpre' := hother pre fun t ht => hpre t ht s List.mem_cons_self
  have hpost' := hother post fun t ht => (hpost t ht).symm
  rw [applyReloc_ok hseg h.apart (h.length s hs) hfits (Segment.within_of_owns ho)
    fun t ht => (hbefore t ht).symm, hseg, List.map_append, List.map_cons, hpre', hpost',
    Segment.settleStep_of_owns ho]

/-- A segment that covers an address and has room for the slot there. -/
theorem owns_of_covers {s : Segment} (hcovers : s.covers r.vaddr = true)
    (hroom : (r.vaddr - s.vaddr).toNat + 8 ≤ s.memsize.toNat) :
    s.owns r = true ∧ s.vaddr.toNat + s.memsize.toNat < 2 ^ 64 := by
  rw [Segment.covers, decide_eq_true_iff] at hcovers
  have hle := UInt64.le_iff_toNat_le.mp hcovers.1
  have hend := UInt64.le_iff_toNat_le.mp hcovers.2
  have hlt := s.memsize.toNat_lt
  have hlt' := s.vaddr.toNat_lt
  rw [UInt64.toNat_sub_of_le _ _ hcovers.1] at hroom
  rw [UInt64.toNat_add] at hend
  exact ⟨Segment.owns_iff.mpr (by omega), by omega⟩

/-- If it is the first one that covers the address, this is where the slot is found. -/
theorem found_of_covers {pre post : List Segment} {s : Segment}
    (hcovers : s.covers r.vaddr = true) (hbefore : ∀ t ∈ pre, t.covers r.vaddr = false)
    (hroom : (r.vaddr - s.vaddr).toNat + 8 ≤ s.memsize.toNat) : Found (pre ++ s :: post) r := by
  obtain ⟨ho, hfits⟩ := owns_of_covers hcovers hroom
  refine ⟨pre, s, post, rfl, ho, hfits, ?_⟩
  intro t ht heq
  have hfits' : t.vaddr.toNat + t.memsize.toNat < 2 ^ 64 := heq ▸ r.vaddr.toNat_lt
  have hcovered := (Segment.covers_iff hfits' r.vaddr).mpr (Or.inr heq.symm)
  rw [hbefore t ht] at hcovered
  cases hcovered

/-- Any other relocation is not applied. -/
theorem found_of_applyReloc (h : Arranged exec.segments) (hok : applyReloc exec r = .ok exec') :
    Found exec.segments r := by
  unfold applyReloc at hok
  obtain ⟨⟨i, p⟩, hdata, hok⟩ := bind_eq_ok.mp hok
  obtain ⟨pre, s, post, hseg, rfl, rfl, hcovers, hbefore⟩ := dataAtVaddr_inv hdata
  have hs := mem_of_eq_append hseg
  dsimp only at hok
  rw [getElem?_of_eq_append hseg] at hok
  dsimp only at hok
  obtain ⟨rawData, hstore, -⟩ := bind_eq_ok.mp hok
  have hroom : (r.vaddr - s.vaddr).toNat + 8 ≤ s.memsize.toNat := by
    by_contra hfault
    rw [storeAt, length_leBytes, if_pos (by rw [h.length s hs]; omega)] at hstore
    cases hstore
  rw [hseg]
  exact found_of_covers hcovers hbefore hroom

/-- **The loop** is left with every word in its segment, if each relocation is found there. -/
theorem applyRelocs_of_found {relocs : List ExecReloc} (h : Arranged exec.segments)
    (hfound : ∀ r ∈ relocs, Found exec.segments r) :
    relocs.foldlM applyReloc exec
      = .ok { exec with segments := exec.segments.map (Segment.settle relocs) } := by
  induction relocs generalizing exec with
  | nil =>
      show Except.ok exec = _
      have hid : exec.segments.map (Segment.settle []) = exec.segments := List.map_id _
      rw [hid]
  | cons r relocs ih =>
      have hstep := applyReloc_of_found h (hfound r List.mem_cons_self)
      rw [List.foldlM_cons, hstep]
      show relocs.foldlM applyReloc _ = _
      rw [ih (h.settleStep r)]
      · rw [List.map_map]
        rfl
      · intro r' hr'
        exact (found_map_iff fun s => Segment.shape_settleStep s r).mpr
          (hfound r' (List.mem_cons_of_mem r hr'))

theorem found_of_applyRelocs {relocs : List ExecReloc} (h : Arranged exec.segments)
    (hok : relocs.foldlM applyReloc exec = .ok exec') :
    ∀ r ∈ relocs, Found exec.segments r := by
  induction relocs generalizing exec with
  | nil => exact fun r hr => absurd hr List.not_mem_nil
  | cons r relocs ih =>
      rw [List.foldlM_cons] at hok
      obtain ⟨exec₁, hstep, hok⟩ := bind_eq_ok.mp hok
      have hfound := found_of_applyReloc h hstep
      obtain rfl := Except.ok.inj (hstep.symm.trans (applyReloc_of_found h hfound))
      intro r' hr'
      rcases List.mem_cons.mp hr' with rfl | hr'
      · exact hfound
      · exact (found_map_iff fun s => Segment.shape_settleStep s r).mp
          (ih (h.settleStep r) hok r' hr')

/-- **Every slot is in the file, with its addend,** exactly if `data_at_vaddr` finds every
segment, and slots across the end of the file-backed part are followed by others. -/
theorem applyRelocs_slotsWritten_iff (h : Relocatable exec) :
    (∃ exec', applyRelocs exec = .ok exec' ∧
        List.Forall₂ (SlotsWritten exec.relocs) exec.segments exec'.segments) ↔
      (∀ r ∈ exec.relocs, Found exec.segments r) ∧
        ∀ s ∈ exec.segments, Followed exec.relocs s := by
  have harranged : Arranged exec.segments := ⟨h.length, h.apart⟩
  have hone : ∀ s ∈ exec.segments,
      (SlotsWritten exec.relocs s (s.settle exec.relocs) ↔ Followed exec.relocs s) :=
    fun s hs => Segment.slotsWritten_iff (h.length s hs) (h.filesize s hs) h.sorted
  have hall : List.Forall₂ (SlotsWritten exec.relocs) exec.segments
      (exec.segments.map (Segment.settle exec.relocs)) ↔
      ∀ s ∈ exec.segments, Followed exec.relocs s := by
    rw [List.forall₂_map_right_iff, List.forall₂_same]
    exact forall₂_congr hone
  refine ⟨?_, ?_⟩
  · rintro ⟨exec', hok, hwritten⟩
    have hfound := found_of_applyRelocs harranged hok
    obtain rfl := Except.ok.inj (hok.symm.trans (applyRelocs_of_found harranged hfound))
    exact ⟨hfound, hall.mp hwritten⟩
  · rintro ⟨hfound, hfollowed⟩
    exact ⟨_, applyRelocs_of_found harranged hfound, hall.mpr hfollowed⟩

end

/-! ## Two segments side by side -/

/-- 16 bytes of zeros at `vaddr`, all of them in the file. -/
def zeroSegment (vaddr : UInt64) : Segment where
  vaddr := vaddr
  memsize := 16
  alignment := 0x1000
  flags := SEGMENT_FLAGS_READ
  filesize := 16
  data := ⟨"segment", List.replicate 16 0, 16⟩

/-- Two segments, and a relocation at the start of the second. -/
def twoSegments (second : UInt64) : Executable where
  entryAddr := 0
  segments := [zeroSegment 0x1000, zeroSegment second]
  dynamic := zeroSegment 0x1000
  relocs := [⟨second, 0x1008⟩]
  executableAlignment := 0x1000

theorem relocatable_twoSegments {second : UInt64} (h : 0x1010 ≤ second.toNat) :
    Relocatable (twoSegments second) where
  length := by
    intro s hs
    rcases List.mem_pair.mp hs with rfl | rfl <;> rfl
  filesize := by
    intro s hs
    rcases List.mem_pair.mp hs with rfl | rfl <;> exact UInt64.le_refl _
  apart := by
    refine List.pairwise_pair.mpr fun x hx hx' => ?_
    rw [Segment.mem_range] at hx hx'
    have h₁ : (zeroSegment 0x1000).vaddr.toNat = 0x1000 := rfl
    have h₂ : (zeroSegment 0x1000).memsize.toNat = 16 := rfl
    have h₃ : (zeroSegment second).vaddr.toNat = second.toNat := rfl
    omega
  sorted := List.pairwise_singleton _ _

theorem applyRelocs_slotsWritten_iff_twoSegments :
    ∃ exec', applyRelocs (twoSegments 0x2000) = .ok exec' ∧
      List.Forall₂ (SlotsWritten [⟨0x2000, 0x1008⟩]) (twoSegments 0x2000).segments
        exec'.segments :=
  (applyRelocs_slotsWritten_iff (relocatable_twoSegments (by decide))).mpr (by
    refine ⟨?_, ?_⟩
    · intro r hr
      obtain rfl := List.mem_singleton.mp hr
      exact ⟨[zeroSegment 0x1000], zeroSegment 0x2000, [], rfl, rfl, by decide, by
        intro t ht
        obtain rfl := List.mem_singleton.mp ht
        decide⟩
    · intro s hs r hr ho hlow hhigh
      obtain rfl := List.mem_singleton.mp hr
      rcases List.mem_pair.mp hs with rfl | rfl
      · cases ho
      · exact absurd hhigh (by decide))

/-- The slot at the start of a segment that begins where another ends is written behind the
memory of the first. -/
theorem slot_at_end_not_written :
    Relocatable (twoSegments 0x1010) ∧ (zeroSegment 0x1010).owns ⟨0x1010, 0x1008⟩ = true ∧
      ¬ ∃ exec', applyRelocs (twoSegments 0x1010) = .ok exec' ∧
        List.Forall₂ (SlotsWritten (twoSegments 0x1010).relocs) (twoSegments 0x1010).segments
          exec'.segments := by
  refine ⟨relocatable_twoSegments (by decide), rfl, ?_⟩
  rintro ⟨exec', hok, -⟩
  have hfault : applyRelocs (twoSegments 0x1010) = .error (.fault (.write 16)) := rfl
  rw [hfault] at hok
  cases hok

end LoliLoader.Elf2Efi
