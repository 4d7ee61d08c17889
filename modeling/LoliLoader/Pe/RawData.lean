/-
# LoliLoader.Pe.RawData -- the raw data of sections in a file

The section table says where the raw data of each section stand. Here they stand one behind the
other, in the order of the table, and a section without raw data points anywhere.

`ValidRawData` is what the format demands of a file: raw data start behind the headers, at multiples
of the file alignment, each behind the one before, and the file ends with the last of them. In
addition it says what is in them, data that are given for each section, with zeros up to the size.

`Placed` is how a program gets there that writes block after block and keeps the offset. Its lemmas
follow the list of sections from the front (`Placed.induction`), and `Placed.valid` is the result.

Sections without raw data are passed over. They have a pointer in the table, and whatever it is,
nobody may read there.
-/
import LoliLoader.Pe.Loader
import Mathlib.Data.List.Forall2

namespace LoliLoader.Pe

open Bytes

/-! ## What the format demands -/

/-- `NumberOfSections` of a file, as its header announces it. -/
def numberOfSections (file : List UInt8) : Option Nat := do
  let pe ← word file 60 4
  word file (pe + 6) 2

/-- `SizeOfHeaders` of a file, as its header announces it. -/
def sizeOfHeaders (file : List UInt8) : Option Nat := do
  let pe ← word file 60 4
  word file (pe + 84) 4

/-- The sections that have raw data; the others may point anywhere. -/
def rawSections (sections : List Section) : List Section :=
  sections.filter fun s => s.sizeOfRawData ≠ 0

/-- The end of the last raw data, or of the headers if there are none. -/
def rawEnd (sizeOfHeaders : Nat) (sections : List Section) : Nat :=
  (rawSections sections).foldl (fun _ s => s.pointerToRawData + s.sizeOfRawData) sizeOfHeaders

/-- The raw data of a section: what is meant to be there, and zeros. -/
def Holds (file : List UInt8) (s : Section) (data : List UInt8) : Prop :=
  data.length ≤ s.sizeOfRawData ∧
    (s.sizeOfRawData ≠ 0 → slice file s.pointerToRawData s.sizeOfRawData
      = some (data ++ List.replicate (s.sizeOfRawData - data.length) 0))

/-- The raw data of the sections of a file, of which `data` is meant to be there: aligned, in order,
apart, up to the end of the file, and padded with zeros. -/
structure ValidRawData (file : List UInt8) (sizeOfHeaders alignment : Nat)
    (sections : List Section) (data : List (List UInt8)) : Prop where
  aligned : ∀ s ∈ rawSections sections, alignment ∣ s.pointerToRawData ∧ alignment ∣ s.sizeOfRawData
  behind : ∀ s ∈ rawSections sections, sizeOfHeaders ≤ s.pointerToRawData
  ascending : (rawSections sections).Pairwise fun s t =>
    s.pointerToRawData + s.sizeOfRawData ≤ t.pointerToRawData
  contents : List.Forall₂ (Holds file) sections data
  ends : file.length = rawEnd sizeOfHeaders sections

/-! ## Raw data one behind the other -/

/-- The sections have these blocks as raw data, the first of them at offset `off`. -/
def Placed : Nat → List Section → List (List UInt8) → Prop
  | _, [], [] => True
  | off, s :: sections, b :: blocks =>
    s.sizeOfRawData = b.length ∧ (b ≠ [] → s.pointerToRawData = off) ∧
      Placed (off + b.length) sections blocks
  | _, _, _ => False

section

variable {off alignment : Nat} {s : Section} {sections : List Section} {b : List UInt8}
  {blocks : List (List UInt8)}

/-- What holds of all sections that are placed, section by section from the front. -/
@[elab_as_elim]
theorem Placed.induction
    {motive : ∀ off sections blocks, Placed off sections blocks → Prop}
    (nil : ∀ off, motive off [] [] trivial)
    (cons : ∀ off s sections b blocks (hsize : s.sizeOfRawData = b.length)
      (hpointer : b ≠ [] → s.pointerToRawData = off)
      (hrest : Placed (off + b.length) sections blocks),
      motive (off + b.length) sections blocks hrest →
      motive off (s :: sections) (b :: blocks) ⟨hsize, hpointer, hrest⟩)
    {off : Nat} {sections : List Section} {blocks : List (List UInt8)}
    (h : Placed off sections blocks) : motive off sections blocks h := by
  induction sections generalizing off blocks with
  | nil =>
      cases blocks with
      | nil => exact nil off
      | cons b blocks => exact h.elim
  | cons s sections ih =>
      cases blocks with
      | nil => exact h.elim
      | cons b blocks => exact cons off s sections b blocks h.1 h.2.1 h.2.2 (ih h.2.2)

theorem Placed.append {sections' : List Section} {blocks' : List (List UInt8)}
    (h : Placed off sections blocks) (h' : Placed (off + blocks.flatten.length) sections' blocks') :
    Placed off (sections ++ sections') (blocks ++ blocks') := by
  induction h using Placed.induction with
  | nil off => exact h'
  | cons off s sections b blocks hsize hpointer _ ih =>
      rw [List.flatten_cons, List.length_append, ← Nat.add_assoc] at h'
      exact ⟨hsize, hpointer, ih h'⟩

/-- Raw data of some size are not empty. -/
theorem ne_nil_of_size (hsize : s.sizeOfRawData = b.length) (hne : s.sizeOfRawData ≠ 0) :
    b ≠ [] := by
  rintro rfl
  exact hne hsize

theorem rawSections_nil (h : s.sizeOfRawData = 0) :
    rawSections (s :: sections) = rawSections sections :=
  List.filter_cons_of_neg (by simp [h])

theorem rawSections_cons (h : s.sizeOfRawData ≠ 0) :
    rawSections (s :: sections) = s :: rawSections sections :=
  List.filter_cons_of_pos (by simp [h])

/-- Raw data are at `off` or behind, at a multiple of the alignment. -/
theorem Placed.pointer (h : Placed off sections blocks) (hoff : alignment ∣ off)
    (hblocks : ∀ b ∈ blocks, alignment ∣ b.length) :
    ∀ s ∈ rawSections sections, off ≤ s.pointerToRawData ∧ alignment ∣ s.pointerToRawData ∧
      alignment ∣ s.sizeOfRawData := by
  induction h using Placed.induction with
  | nil off => exact fun s hs => absurd hs List.not_mem_nil
  | cons off t sections b blocks hsize hpointer _ ih =>
      rw [List.forall_mem_cons] at hblocks
      have htail := ih (Nat.dvd_add hoff hblocks.1) hblocks.2
      have hlater : ∀ s ∈ rawSections sections, off ≤ s.pointerToRawData ∧
          alignment ∣ s.pointerToRawData ∧ alignment ∣ s.sizeOfRawData := by
        intro s hs
        obtain ⟨hle, hrest⟩ := htail s hs
        exact ⟨by omega, hrest⟩
      by_cases hzero : t.sizeOfRawData = 0
      · rw [rawSections_nil hzero]
        exact hlater
      · have hne := ne_nil_of_size hsize hzero
        rw [rawSections_cons hzero, List.forall_mem_cons]
        refine ⟨⟨?_, ?_, ?_⟩, hlater⟩
        · rw [hpointer hne]
        · rw [hpointer hne]
          exact hoff
        · rw [hsize]
          exact hblocks.1

/-- Each ends before the next one starts. -/
theorem Placed.ascending (h : Placed off sections blocks) :
    (rawSections sections).Pairwise fun s t =>
      s.pointerToRawData + s.sizeOfRawData ≤ t.pointerToRawData := by
  induction h using Placed.induction with
  | nil off => exact List.Pairwise.nil
  | cons off s sections b blocks hsize hpointer hrest ih =>
      by_cases hzero : s.sizeOfRawData = 0
      · rw [rawSections_nil hzero]
        exact ih
      · have hne := ne_nil_of_size hsize hzero
        rw [rawSections_cons hzero, List.pairwise_cons]
        refine ⟨fun t ht => ?_, ih⟩
        rw [hpointer hne, hsize]
        exact (hrest.pointer (Nat.one_dvd _) (fun _ _ => Nat.one_dvd _) t ht).1

/-- The last of them ends where the blocks do. -/
theorem Placed.rawEnd_eq (h : Placed off sections blocks) :
    rawEnd off sections = off + blocks.flatten.length := by
  induction h using Placed.induction with
  | nil off => rfl
  | cons off s sections b blocks hsize hpointer _ ih =>
      rw [List.flatten_cons, List.length_append, ← Nat.add_assoc]
      by_cases hzero : s.sizeOfRawData = 0
      · have hnil : b.length = 0 := hsize.symm.trans hzero
        rw [hnil, Nat.add_zero] at ih ⊢
        rw [rawEnd, rawSections_nil hzero]
        exact ih
      · have hne := ne_nil_of_size hsize hzero
        rw [rawEnd, rawSections_cons hzero, List.foldl_cons, hpointer hne, hsize]
        exact ih

/-- Each is found at its place in the file. -/
theorem Placed.slices {pre file : List UInt8} (h : Placed pre.length sections blocks)
    (hfile : file = pre ++ blocks.flatten) :
    List.Forall₂ (fun s b => s.sizeOfRawData = b.length ∧ (s.sizeOfRawData ≠ 0 →
      slice file s.pointerToRawData s.sizeOfRawData = some b)) sections blocks := by
  generalize hoff : pre.length = off at h
  induction h using Placed.induction generalizing pre with
  | nil off => exact .nil
  | cons off s sections b blocks hsize hpointer _ ih =>
      refine .cons ⟨hsize, fun hzero => ?_⟩ (@ih (pre ++ b) ?_ ?_)
      · rw [hpointer (ne_nil_of_size hsize hzero), hsize, hfile, List.flatten_cons, ← hoff]
        exact slice_append pre b blocks.flatten
      · rw [hfile, List.flatten_cons, List.append_assoc]
      · rw [List.length_append, hoff]

/-- A block: what is meant to be there, with zeros up to its length. -/
def Pads (data block : List UInt8) : Prop :=
  data.length ≤ block.length ∧ block = data ++ List.replicate (block.length - data.length) 0

/-- **Raw data one behind the other**, behind the headers, are what the format demands, if headers
and blocks have aligned sizes. -/
theorem Placed.valid {pre file : List UInt8} {data : List (List UInt8)}
    (h : Placed pre.length sections blocks) (hfile : file = pre ++ blocks.flatten)
    (hpre : alignment ∣ pre.length) (hblocks : ∀ b ∈ blocks, alignment ∣ b.length)
    (hdata : List.Forall₂ Pads data blocks) :
    ValidRawData file pre.length alignment sections data := by
  have hpointer := h.pointer hpre hblocks
  refine ⟨fun s hs => (hpointer s hs).2, fun s hs => (hpointer s hs).1, h.ascending, ?_, ?_⟩
  · have hslices := h.slices hfile
    clear h hblocks hpointer hfile
    induction hslices generalizing data with
    | nil =>
        cases hdata
        exact .nil
    | cons hs _ ih =>
        cases hdata with
        | cons hpads hrest =>
            refine .cons ⟨hs.1 ▸ hpads.1, fun hzero => ?_⟩ (ih hrest)
            rw [hs.2 hzero, hs.1, ← hpads.2]
  · rw [hfile, List.length_append, h.rawEnd_eq]

end

end LoliLoader.Pe
