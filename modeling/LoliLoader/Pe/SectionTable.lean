/-
# LoliLoader.Pe.SectionTable -- the section table of a file

Forty bytes are the header of a section if its numbers stand behind a name of eight bytes. Headers
that follow each other are read back as the table of their sections.

Programs disagree about the name and about the fields at the end of a header, which no loader reads.
`IsHeader` leaves them open: the name is any eight bytes, and behind the numbers there may be
anything. So the theorem about reading the table back serves each of the programs that write one.

The numbers have to fit their fields of 32 bits (`Section.Fits`); what a program writes that does
not fit is read as something else.
-/
import LoliLoader.Pe.Loader
import Mathlib.Data.List.Forall2

namespace LoliLoader.Pe

open Bytes

/-- The numbers of a section header that a loader needs. -/
def Section.fields (s : Section) : List Field :=
  [(4, s.virtualSize), (4, s.virtualAddress), (4, s.sizeOfRawData), (4, s.pointerToRawData)]

/-- The numbers of the section fit their fields of 32 bits. -/
structure Section.Fits (s : Section) : Prop where
  virtualSize : s.virtualSize < 2 ^ 32
  virtualAddress : s.virtualAddress < 2 ^ 32
  sizeOfRawData : s.sizeOfRawData < 2 ^ 32
  pointerToRawData : s.pointerToRawData < 2 ^ 32

/-- The bytes are a header of the section, under some name; what stands behind the four numbers is
left open. -/
structure IsHeader (bytes : List UInt8) (s : Section) : Prop where
  length : bytes.length = 40
  fields : ∃ name rest, name.length = 8 ∧ bytes = name ++ (record s.fields ++ rest)
  fits : s.Fits

theorem readSection_header {bytes : List UInt8} {s : Section} (h : IsHeader bytes s)
    (pre post : List UInt8) : readSection (pre ++ (bytes ++ post)) pre.length = some s := by
  obtain ⟨name, rest, hname, rfl⟩ := h.fields
  have hfile : pre ++ ((name ++ (record s.fields ++ rest)) ++ post)
      = (pre ++ name) ++ (record s.fields ++ (rest ++ post)) := by
    simp
  have hlen : (pre ++ name).length = pre.length + 8 := by rw [List.length_append, hname]
  have hword : ∀ k v off, s.fields[k]? = some (4, v) → v < 2 ^ 32 →
      8 + width (s.fields.take k) = off →
      word (pre ++ ((name ++ (record s.fields ++ rest)) ++ post)) (pre.length + off) 4
        = some v := by
    rintro k v off hk hv rfl
    rw [hfile]
    exact word_field hk hv (by rw [hlen, Nat.add_assoc])
  unfold readSection
  rw [hword 0 s.virtualSize 8 rfl h.fits.virtualSize rfl,
    hword 1 s.virtualAddress 12 rfl h.fits.virtualAddress rfl,
    hword 2 s.sizeOfRawData 16 rfl h.fits.sizeOfRawData rfl,
    hword 3 s.pointerToRawData 20 rfl h.fits.pointerToRawData rfl]
  rfl

/-- **The table** reads back, whatever stands in front of it and behind it. -/
theorem readSections_headers {headers : List (List UInt8)} {sections : List Section}
    (h : List.Forall₂ IsHeader headers sections) (pre post : List UInt8) :
    readSections (pre ++ (headers.flatten ++ post)) pre.length sections.length
      = some sections := by
  induction h generalizing pre with
  | nil => rfl
  | @cons bytes s headers sections hs _ ih =>
      have hfile : pre ++ ((bytes :: headers).flatten ++ post)
          = (pre ++ bytes) ++ (headers.flatten ++ post) := by
        simp
      have hrest := ih (pre ++ bytes)
      rw [List.length_append, hs.length, ← hfile] at hrest
      have hhead := readSection_header hs pre (headers.flatten ++ post)
      rw [List.flatten_cons, List.append_assoc] at hrest ⊢
      rw [List.length_cons, readSections, hrest, hhead]
      rfl

theorem length_headers {headers : List (List UInt8)} {sections : List Section}
    (h : List.Forall₂ IsHeader headers sections) :
    headers.flatten.length = 40 * sections.length := by
  induction h with
  | nil => rfl
  | cons hs _ ih =>
      rw [List.flatten_cons, List.length_append, List.length_cons, ih, hs.length]
      omega

end LoliLoader.Pe
