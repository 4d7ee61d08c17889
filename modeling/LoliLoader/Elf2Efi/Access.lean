/-
# LoliLoader.Elf2Efi.Access -- data_at_offset and data_at_vaddr

The two lookups that everything else in the converter reads and writes through. Both test a sum of
64 bits, one with the wrong comparison for the last byte of the file, the other with the wrong one
for the last byte of a segment, and without the size.

`data_at_offset` is given an offset and a size by the file. It refuses data that end where the file
does, and lets sums through that wrap around. `data_at_vaddr` is given an address and a size; it
takes the first segment whose start is at or below the address and whose end is at or above it, and
the size is not looked at.

For each of them there is a structure that says what it owes (`OffsetExact`, `LookupExact`), in
unbounded arithmetic and without reference to the code, and an equivalence with a condition on the
file or the executable and the arguments. The example behind it fails the condition.

How much the slips matter depends on the callers. Most of them ask for what is well inside; where
they do not, the modules about tables, slots and segments have the consequences.
-/
import LoliLoader.Elf2Efi.Parsed
import LoliLoader.Elf2Efi.Slots

namespace LoliLoader.Elf2Efi

open C

/-! ## data_at_offset -/

/-- What the bounds check owes: it lets through what ends inside the file, so that what is read
behind it is in the file. -/
structure OffsetExact (data : SizedData) (purpose : String) (off size : UInt64) : Prop where
  exact : (∃ p, dataAtOffset data purpose off size = .ok p) ↔
    off.toNat + size.toNat ≤ data.rawData.length
  inside : ∀ p, dataAtOffset data purpose off size = .ok p →
    ∃ bytes, readAt data.rawData p size.toNat = .ok bytes

theorem dataAtOffset_ok_iff {data : SizedData} {purpose : String} {off size : UInt64} {p : Nat} :
    dataAtOffset data purpose off size = .ok p ↔
      (off.toNat + size.toNat) % 2 ^ 64 < data.size.toNat ∧ p = off.toNat := by
  rw [← UInt64.toNat_add, ← UInt64.lt_iff_toNat_lt]
  constructor
  · intro h
    obtain ⟨_, hcheck, h⟩ := bind_eq_ok.mp h
    exact ⟨of_decide_eq_true (assertMsg_eq_ok.mp hcheck), (Except.ok.inj h).symm⟩
  · rintro ⟨hlt, rfl⟩
    exact bind_eq_ok.mpr ⟨(), assertMsg_eq_ok.mpr (decide_eq_true hlt), rfl⟩

theorem readAt_ok {rawData : List UInt8} {p n : Nat} (h : p + n ≤ rawData.length) :
    ∃ bytes, readAt rawData p n = .ok bytes := by
  unfold readAt
  split
  · exact ⟨_, rfl⟩
  · exact ⟨_, if_neg (by omega)⟩

/-- **The bounds check is exact** unless the data ends at the end of the file, or the sum wraps
around to an offset in the file. -/
theorem dataAtOffset_exact_iff {data : SizedData} (hdata : data.rawData.length = data.size.toNat)
    (purpose : String) (off size : UInt64) :
    OffsetExact data purpose off size ↔
      off.toNat + size.toNat ≠ data.size.toNat ∧
        (2 ^ 64 ≤ off.toNat + size.toNat → data.size.toNat ≤ off.toNat + size.toNat - 2 ^ 64) := by
  have hoff := off.toNat_lt
  have hsize := size.toNat_lt
  have hlt := data.size.toNat_lt
  have hok : (∃ p, dataAtOffset data purpose off size = .ok p) ↔
      (off.toNat + size.toNat) % 2 ^ 64 < data.size.toNat := by
    simp only [dataAtOffset_ok_iff, exists_and_left, exists_eq, and_true]
  constructor
  · rintro ⟨hexact, -⟩
    rw [hok, hdata] at hexact
    omega
  · rintro ⟨hend, hwrap⟩
    have hexact : (off.toNat + size.toNat) % 2 ^ 64 < data.size.toNat ↔
        off.toNat + size.toNat ≤ data.rawData.length := by
      omega
    refine ⟨hok.trans hexact, ?_⟩
    intro p hp
    obtain ⟨hcheck, rfl⟩ := dataAtOffset_ok_iff.mp hp
    exact readAt_ok (hexact.mp hcheck)

/-- The file of an ELF header and one program header. -/
def headersOnly : SizedData := ⟨"a.elf", List.replicate 120 0, 120⟩

theorem dataAtOffset_exact_iff_header :
    OffsetExact headersOnly "EHDR" 0 64 ↔
      (0 : UInt64).toNat + (64 : UInt64).toNat ≠ headersOnly.size.toNat ∧
        (2 ^ 64 ≤ (0 : UInt64).toNat + (64 : UInt64).toNat →
          headersOnly.size.toNat ≤ (0 : UInt64).toNat + (64 : UInt64).toNat - 2 ^ 64) :=
  dataAtOffset_exact_iff rfl "EHDR" 0 64

/-- Program headers at the end of the file are refused, and data far behind the end is let through
when its size brings the sum back. -/
theorem dataAtOffset_not_exact :
    ¬ OffsetExact headersOnly "PHDR" 64 56 ∧
      ¬ OffsetExact headersOnly "segment data" 0xffffffffffffffff 1 := by
  constructor
  · intro h
    obtain ⟨p, hp⟩ := h.exact.mpr (by decide)
    exact absurd (dataAtOffset_ok_iff.mp hp).1 (by decide)
  · intro h
    have hp := h.exact.mp ⟨_, dataAtOffset_ok_iff.mpr ⟨by decide, rfl⟩⟩
    exact absurd hp (by decide)

/-! ## data_at_vaddr -/

/-- `[vaddr, vaddr + size)` is in the segment, without wrap-around. -/
def Segment.ContainsRange (s : Segment) (vaddr size : UInt64) : Prop :=
  s.vaddr.toNat ≤ vaddr.toNat ∧ vaddr.toNat + size.toNat ≤ s.vaddr.toNat + s.memsize.toNat

/-- The segment starts at or below `vaddr` and ends at or above it, inside the address space. -/
def Segment.Touches (s : Segment) (vaddr : UInt64) : Prop :=
  s.vaddr.toNat ≤ vaddr.toNat ∧ vaddr.toNat ≤ s.vaddr.toNat + s.memsize.toNat ∧
    s.vaddr.toNat + s.memsize.toNat < 2 ^ 64

/-- The error of the lookup, with which the program ends; it says what the lookup was for. -/
def notCovered (purpose : String) (vaddr size : UInt64) : Failure :=
  .exit (.printf
    "Attempt to index \"%s\" at virtual address 0x%lx, with size %lu, which isn't (fully) covered by any segments\n"
    [.str (ascii purpose), .int vaddr.toNat, .int size.toNat])

/-- What the lookup owes: a segment that contains the whole range if there is one, and the error
if there is none. -/
structure LookupExact (exec : Executable) (purpose : String) (vaddr size : UInt64) : Prop where
  covered : (∃ s ∈ exec.segments, s.ContainsRange vaddr size) →
    ∃ r, dataAtVaddr exec purpose vaddr size = .ok r
  found : ∀ i off, dataAtVaddr exec purpose vaddr size = .ok (i, off) →
    ∃ s, exec.segments[i]? = some s ∧ s.ContainsRange vaddr size ∧ off = vaddr - s.vaddr
  uncovered : (∀ s ∈ exec.segments, ¬ s.ContainsRange vaddr size) →
    dataAtVaddr exec purpose vaddr size = .error (notCovered purpose vaddr size)

/-- The test of the source: the end counts, the size does not, and an end past the address space
wraps around to below the start. -/
theorem Segment.covers_iff_touches (s : Segment) (vaddr : UInt64) :
    s.covers vaddr = true ↔ s.Touches vaddr := by
  have hmem := s.memsize.toNat_lt
  have hstart := s.vaddr.toNat_lt
  rw [covers, decide_eq_true_iff, UInt64.le_iff_toNat_le, UInt64.le_iff_toNat_le, UInt64.toNat_add,
    Touches]
  omega

theorem Segment.not_covers_iff (s : Segment) (vaddr : UInt64) :
    s.covers vaddr = false ↔ ¬ s.Touches vaddr := by
  rw [← s.covers_iff_touches, Bool.not_eq_true]

/-- The first segment that touches the address, or the error. -/
theorem dataAtVaddr_cases (exec : Executable) (purpose : String) (vaddr size : UInt64) :
    (∃ pre s post, exec.segments = pre ++ s :: post ∧ (∀ t ∈ pre, ¬ t.Touches vaddr) ∧
      s.Touches vaddr ∧ dataAtVaddr exec purpose vaddr size = .ok (pre.length, vaddr - s.vaddr)) ∨
    (∀ s ∈ exec.segments, ¬ s.Touches vaddr) ∧
      dataAtVaddr exec purpose vaddr size = .error (notCovered purpose vaddr size) := by
  cases hfind : exec.segments.zipIdx.find? (fun s => s.1.covers vaddr) with
  | none =>
      right
      refine ⟨?_, by rw [dataAtVaddr, hfind, notCovered]⟩
      intro s hs htouches
      obtain ⟨i, hi⟩ := List.mem_iff_getElem?.mp hs
      exact List.find?_eq_none.mp hfind (s, i) (List.mem_zipIdx_iff_getElem?.mpr hi)
        ((s.covers_iff_touches vaddr).mpr htouches)
  | some found =>
      left
      have hok : dataAtVaddr exec purpose vaddr size = .ok (found.2, vaddr - found.1.vaddr) := by
        rw [dataAtVaddr, hfind]
      obtain ⟨pre, s, post, hseg, hi, hoff, hcovers, hbefore⟩ := dataAtVaddr_inv hok
      exact ⟨pre, s, post, hseg, fun t ht => (t.not_covers_iff vaddr).mp (hbefore t ht),
        (s.covers_iff_touches vaddr).mp hcovers, by rw [hok, hi, hoff]⟩

/-- **The lookup is exact** when the first segment that touches the address reaches to the end of
the range, or when no segment touches it and none contains the range. -/
theorem dataAtVaddr_exact_iff (exec : Executable) (purpose : String) (vaddr size : UInt64) :
    LookupExact exec purpose vaddr size ↔
      (∀ pre s post, exec.segments = pre ++ s :: post → (∀ t ∈ pre, ¬ t.Touches vaddr) →
        s.Touches vaddr → vaddr.toNat + size.toNat ≤ s.vaddr.toNat + s.memsize.toNat) ∧
      ((∀ s ∈ exec.segments, ¬ s.Touches vaddr) →
        ∀ s ∈ exec.segments, 2 ^ 64 ≤ s.vaddr.toNat + s.memsize.toNat →
          ¬ s.ContainsRange vaddr size) := by
  constructor
  · intro h
    refine ⟨?_, ?_⟩
    · intro pre s post hseg hbefore htouches
      have hnot : ∀ t ∈ pre, t.covers vaddr = false := fun t ht =>
        (t.not_covers_iff vaddr).mpr (hbefore t ht)
      obtain ⟨s', hs', hcontains, -⟩ := h.found _ _
        (dataAtVaddr_first hseg ((s.covers_iff_touches vaddr).mpr htouches) hnot)
      obtain rfl := Option.some.inj ((getElem?_of_eq_append hseg).symm.trans hs')
      exact hcontains.2
    · intro hnone s hs _ hcontains
      obtain ⟨r, hr⟩ := h.covered ⟨s, hs, hcontains⟩
      rcases dataAtVaddr_cases exec purpose vaddr size with
        ⟨pre, t, post, hseg, -, htouches, -⟩ | ⟨-, herr⟩
      · exact hnone t (mem_of_eq_append hseg) htouches
      · rw [herr] at hr
        cases hr
  · rintro ⟨hreach, hnone⟩
    rcases dataAtVaddr_cases exec purpose vaddr size with
      ⟨pre, s, post, hseg, hbefore, htouches, hok⟩ | ⟨huntouched, herr⟩
    · have hcontains : s.ContainsRange vaddr size :=
        ⟨htouches.1, hreach pre s post hseg hbefore htouches⟩
      have hs := mem_of_eq_append hseg
      refine ⟨fun _ => ⟨_, hok⟩, ?_, fun hall => absurd hcontains (hall s hs)⟩
      intro i off hfound
      obtain ⟨rfl, rfl⟩ := Prod.mk.inj (Except.ok.inj (hok.symm.trans hfound))
      exact ⟨s, getElem?_of_eq_append hseg, hcontains, rfl⟩
    · refine ⟨?_, ?_, fun _ => herr⟩
      · rintro ⟨s, hs, hcontains⟩
        have htop : 2 ^ 64 ≤ s.vaddr.toNat + s.memsize.toNat := by
          by_contra hlt
          obtain ⟨hle, hend⟩ := hcontains
          exact huntouched s hs ⟨hle, by omega, by omega⟩
        exact absurd hcontains (hnone huntouched s hs htop)
      · intro i off hfound
        rw [herr] at hfound
        cases hfound

/-- Two segments side by side: the first word of the second is looked up behind the end of the
first. -/
theorem dataAtVaddr_not_exact :
    (twoSegments 0x1010).segments.Pairwise (fun s t => s.range.Apart t.range) ∧
      ¬ LookupExact (twoSegments 0x1010) "relocation target" 0x1010 8 := by
  refine ⟨(relocatable_twoSegments (by decide)).apart, ?_⟩
  intro h
  have hfirst : dataAtVaddr (twoSegments 0x1010) "relocation target" 0x1010 8 = .ok (0, 16) := rfl
  obtain ⟨s, hs, hcontains, -⟩ := h.found 0 16 hfirst
  obtain rfl := Option.some.inj hs
  exact absurd hcontains.2 (by decide)

end LoliLoader.Elf2Efi
