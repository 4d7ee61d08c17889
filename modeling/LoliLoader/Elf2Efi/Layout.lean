/-
# LoliLoader.Elf2Efi.Layout -- the section table as a layout of memory

Every segment goes down to its own alignment, and the header announces one alignment for all. What
the fields of 32 bits say of the sections is compared with what the format demands.

The format demands three things of the section table: sections at multiples of the announced
alignment, in ascending order and apart from each other, and an image whose size is such a multiple
and covers them all. `Pe.ValidLayout` has them, for the headers of a file.

`headers_of_writePe` reads the headers back from what `write_pe` has written. From there on it is
arithmetic in 32 bits: `align_toUInt32` and its neighbours say that rounding and cutting can be
exchanged, so that the sums of the source can be followed although they may wrap around.

`validLayout_iff_of_last` leaves what is about the segments and takes care of the rest, the `.reloc`
section and the end of the image.
-/
import LoliLoader.Elf2Efi.Parsed
import LoliLoader.Elf2Efi.HeaderRoom
import LoliLoader.Elf2Efi.ReadBack
import LoliLoader.Pe.RawData

namespace LoliLoader.Elf2Efi

open C Bytes

/-! ## Rounding in machine words -/

/-- Rounding down a word that was cut is cutting what was rounded down. -/
theorem mod_div_mul {a m : Nat} (hm : a ∣ m) (z : Nat) :
    z % m / a * a = z / a * a % m := by
  obtain ⟨c, rfl⟩ := hm
  rw [Nat.mod_mul_right_div_self, Nat.mul_comm a c, Nat.mul_mod_mul_right]

theorem roundUp_of_dvd {n a : Nat} (ha : 0 < a) (h : a ∣ n) : roundUp n a = n :=
  Nat.le_antisymm (roundUp_le_of_dvd ha h (Nat.le_refl n)) (le_roundUp n ha).1

theorem roundUp_congr {x y a m : Nat} (ha : 0 < a) (hm : a ∣ m) (h : x % m = y % m) :
    roundUp x a % m = roundUp y a % m := by
  have hsum : (x + (a - 1)) % m = (y + (a - 1)) % m := by
    rw [Nat.add_mod, h, ← Nat.add_mod]
  have hx : x + a - 1 = x + (a - 1) := by omega
  have hy : y + a - 1 = y + (a - 1) := by omega
  rw [roundUp, roundUp, hx, hy, ← mod_div_mul hm, ← mod_div_mul hm, hsum]

/-- `ALIGN`, also around the end of the address space. -/
theorem align_toNat_mod {x a : UInt64} (ha : 0 < a.toNat) (h : a.toNat ∣ 2 ^ 64) :
    (align x a).toNat = roundUp x.toNat a.toNat % 2 ^ 64 := by
  have hsum : (x + a - 1).toNat = (x.toNat + a.toNat - 1) % 2 ^ 64 := by
    have h1 : (1 : UInt64).toNat = 1 := rfl
    have hx := x.toNat_lt
    have ha' := a.toNat_lt
    rw [UInt64.toNat_sub, UInt64.toNat_add, h1]
    omega
  rw [align, alignDown_toNat, hsum, mod_div_mul h, roundUp]

/-- In 32 bits, only the low 32 bits of what is aligned matter. -/
theorem align_toUInt32 {x a : UInt64} (ha : 0 < a.toNat) (h : a.toNat ∣ 2 ^ 32) {n : Nat}
    (hn : x.toNat % 2 ^ 32 = n % 2 ^ 32) :
    (align x a).toUInt32.toNat = roundUp n a.toNat % 2 ^ 32 := by
  have h64 : a.toNat ∣ 2 ^ 64 := h.trans (by decide)
  rw [UInt64.toNat_toUInt32, align_toNat_mod ha h64, Nat.mod_mod_of_dvd _ (by decide)]
  exact roundUp_congr ha h hn

/-! ## The section table of a file -/

theorem length_layoutSegments (fileAlignment : UInt64) (offset : UInt32) (segments : List Segment) :
    (layoutSegments fileAlignment offset segments).1.length = segments.length := by
  induction segments generalizing offset with
  | nil => rfl
  | cons s segments ih =>
      rw [List.length_cons, ← ih (offset + (align s.filesize fileAlignment).toUInt32)]
      rfl

/-- The section of a segment, as the fields of its header say. -/
def Segment.headerExtent (base : UInt64) (s : Segment) : Extent :=
  ⟨(s.vaddr - base).toUInt32.toNat, s.memsize.toUInt32.toNat⟩

section

variable {exec : Executable} {base relocVaddr : UInt64} {table : SizedData}
  {segname : Nat → Nat → UInt8} {file : List UInt8}

theorem extents_sectionTable (layouts : List FileLayout × FileLayout)
    (hlen : layouts.1.length = exec.segments.length) :
    (sectionTable segname exec base relocVaddr table layouts).map
        (fun h => h.section.extent) =
      exec.segments.map (Segment.headerExtent base) ++
        if hasPeReloc exec then
          [⟨(relocVaddr - base).toUInt32.toNat, table.size.toUInt32.toNat⟩] else [] := by
  have hsegments : ((exec.segments.zip layouts.1).mapIdx fun i s =>
      segmentHeader (segname i) base i s.1 s.2).map (fun h => h.section.extent)
      = exec.segments.map (Segment.headerExtent base) := by
    apply List.ext_getElem
    · rw [List.length_map, List.length_mapIdx, List.length_zip, List.length_map, hlen,
        Nat.min_self]
    · intro i hi hi'
      rw [List.getElem_map, List.getElem_mapIdx, List.getElem_zip, List.getElem_map]
      rfl
  rw [sectionTable, List.map_append, hsegments]
  split <;> rfl

theorem length_sectionTable_eq (layouts : List FileLayout × FileLayout)
    (hlen : layouts.1.length = exec.segments.length)
    (hnum : exec.segments.length < 2 ^ 16 - 1) :
    (peSectionNum exec).toUInt16.toNat
      = (sectionTable segname exec base relocVaddr table layouts).length := by
  have hcount := peSectionNum_toNat (show exec.segments.length < 2 ^ 16 by omega)
  have hbound : sectionCount exec ≤ exec.segments.length + 1 := by
    unfold sectionCount
    split <;> omega
  have htable := congrArg List.length (@extents_sectionTable exec base relocVaddr table segname
    layouts hlen)
  rw [List.length_map, List.length_append, List.length_map] at htable
  rw [htable, UInt64.toNat_toUInt16, hcount, Nat.mod_eq_of_lt (by omega)]
  unfold sectionCount hasPeReloc
  by_cases hr : exec.relocs = []
  · simp [hr]
  · simp [hr]

/-- The headers of a file, when the number of sections fits its field. -/
theorem readHeaders_of_writePe {last : Segment} {rest : List UInt8}
    (hnum : exec.segments.length < 2 ^ 16 - 1)
    (hfile : file = record (peHeaders exec base (relocVaddrOf exec last)
        (sizeOfImageOf exec base last table) (sizeOfHeadersOf exec) table) ++
      ((sectionTable segname exec base (relocVaddrOf exec last) table
        (layoutPeFile exec (sizeOfHeadersOf exec) table 512)).flatMap Pe32SectionHeader.bytes ++
        rest)) :
    (∃ h, Pe.readHeaders file = some h ∧
      h.sizeOfImage = (sizeOfImageOf exec base last table).toUInt32.toNat ∧
      h.sections = (sectionTable segname exec base (relocVaddrOf exec last) table
        (layoutPeFile exec (sizeOfHeadersOf exec) table 512)).map Pe32SectionHeader.section) ∧
    Pe.numberOfSections file = some (sectionTable segname exec base (relocVaddrOf exec last) table
        (layoutPeFile exec (sizeOfHeadersOf exec) table 512)).length ∧
    word file 60 4 = some 64 := by
  have hlen := length_layoutSegments 512 (sizeOfHeadersOf exec).toUInt32 exec.segments
  have hcount := @length_sectionTable_eq exec base (relocVaddrOf exec last) table segname
    (layoutPeFile exec (sizeOfHeadersOf exec) table 512) hlen hnum
  have hsections := readSections_flatMap
    (fun _ hmem => @name_sectionTable exec base table segname (relocVaddrOf exec last)
      (layoutPeFile exec (sizeOfHeadersOf exec) table 512) _ hmem)
    (record (peHeaders exec base (relocVaddrOf exec last) (sizeOfImageOf exec base last table)
      (sizeOfHeadersOf exec) table)) rest
  rw [length_peHeaders, ← hcount] at hsections
  have hdos : word file 60 4 = some 64 := by
    subst hfile
    exact @word_field [] _ (peHeaders exec base (relocVaddrOf exec last)
      (sizeOfImageOf exec base last table) (sizeOfHeadersOf exec) table) 2 4 64 60 rfl
      (by decide) rfl
  have hword : word file 70 2 = some (peSectionNum exec).toUInt16.toNat := by
    subst hfile
    exact @word_field [] _ (peHeaders exec base (relocVaddrOf exec last)
      (sizeOfImageOf exec base last table) (sizeOfHeadersOf exec) table) 5 2 _ 70 rfl
      (UInt16.toNat_lt _) rfl
  refine ⟨⟨_, hfile ▸ readHeaders_peHeaders hsections, rfl, rfl⟩, ?_, ?_⟩
  · simp only [Pe.numberOfSections, hdos, Option.bind_eq_bind, Option.bind_some]
    exact hword.trans (congrArg some hcount)
  · exact hdos

/-- **What the headers of a file say** about its layout, for any file that is written and whose
number of sections fits its field. -/
theorem headers_of_writePe (h : writePe segname exec base table = .ok file)
    (hnum : exec.segments.length < 2 ^ 16 - 1) :
    ∃ last headers, exec.segments.getLast? = some last ∧ Pe.readHeaders file = some headers ∧
      Pe.sectionAlignment file = some exec.executableAlignment.toNat ∧
      headers.sizeOfImage = (sizeOfImageOf exec base last table).toUInt32.toNat ∧
      headers.sections.map Pe.Section.extent =
        exec.segments.map (Segment.headerExtent base) ++
          if hasPeReloc exec then
            [⟨(relocVaddrOf exec last - base).toUInt32.toNat, table.size.toUInt32.toNat⟩]
          else [] := by
  obtain ⟨last, rest, hlast, -, -, hwritten⟩ := writePe_inv h
  obtain ⟨⟨headers, hread, himage, hsections⟩, -, hdos⟩ := readHeaders_of_writePe hnum hwritten
  refine ⟨last, headers, hlast, hread, ?_, himage, ?_⟩
  · obtain ⟨pre, post, hpre, hfile⟩ := peHeaders_windowsHeader exec base (relocVaddrOf exec last)
      (sizeOfImageOf exec base last table) (sizeOfHeadersOf exec) table _
    rw [hwritten, hfile] at hdos ⊢
    generalize hwin : pe32PlusOptionalWindowsHeader base exec.executableAlignment 512
      (sizeOfImageOf exec base last table).toUInt32 (sizeOfHeadersOf exec).toUInt32 = win at hdos ⊢
    have hwindows : word ((record peDosHeader ++ pre) ++ (record win ++ post)) 120 4
        = some exec.executableAlignment.toNat :=
      word_field (k := 1) (by rw [← hwin]; rfl) (UInt32.toNat_lt _)
        (by rw [hpre, ← hwin]; simp [pe32PlusOptionalWindowsHeader, width])
    rw [Pe.sectionAlignment, hdos]
    exact hwindows
  · have hlen := length_layoutSegments 512 (sizeOfHeadersOf exec).toUInt32 exec.segments
    have hextents := @extents_sectionTable exec base (relocVaddrOf exec last) table segname
      (layoutPeFile exec (sizeOfHeadersOf exec) table 512) hlen
    rw [hsections, List.map_map]
    exact hextents

end

/-! ## Layouts with room behind the last section -/

section

variable {sections : List Extent} {last : Extent} {a size : Nat}

/-- Extents of which one starts no earlier are apart if they do not reach it, or it is empty. -/
theorem apart_iff_of_le {e f : Extent} (h : e.start ≤ f.start) :
    e.Apart f ↔ e.start + e.size ≤ f.start ∨ f.size = 0 := by
  refine ⟨?_, ?_⟩
  · intro hapart
    by_contra hnot
    rw [not_or] at hnot
    apply hapart f.start
    · rw [Extent.mem_iff]
      omega
    · rw [Extent.mem_iff]
      omega
  · rintro (hle | hzero)
    · exact Extent.Apart.of_le hle
    · intro x _ hx
      rw [Extent.mem_iff] at hx
      omega

theorem forall_mem_append_if {α : Type*} {P : α → Prop} {l : List α} {b : Bool} {x : α} :
    (∀ e ∈ l ++ (if b then [x] else []), P e) ↔ (∀ e ∈ l, P e) ∧ (b = true → P x) := by
  cases b with
  | false => simp
  | true => simp [or_imp, forall_and]

theorem pairwise_append_if {α : Type*} {R : α → α → Prop} {l : List α} {b : Bool} {x : α} :
    (l ++ (if b then [x] else [])).Pairwise R ↔
      l.Pairwise R ∧ (b = true → ∀ e ∈ l, R e x) := by
  cases b with
  | false => simp
  | true => simp [List.pairwise_append]

/-- A layout with a section more, or without it. -/
theorem validLayout_append_if {b : Bool} {e : Extent} :
    Pe.ValidLayout (sections ++ if b then [e] else []) a size ↔
      Pe.ValidLayout sections a size ∧ (b = true → (∀ f ∈ sections, f.start ≤ e.start) ∧
        (∀ f ∈ sections, f.Apart e) ∧ a ∣ e.start ∧ e.start + e.size ≤ size) := by
  constructor
  · intro h
    obtain ⟨hascending, hafter⟩ := pairwise_append_if.mp h.ascending
    obtain ⟨hdisjoint, hapart⟩ := pairwise_append_if.mp h.disjoint
    obtain ⟨haligned, hstart⟩ := forall_mem_append_if.mp h.aligned
    obtain ⟨hcovered, hend⟩ := forall_mem_append_if.mp h.covered
    exact ⟨⟨hascending, hdisjoint, haligned, h.image, hcovered⟩,
      fun hb => ⟨hafter hb, hapart hb, hstart hb, hend hb⟩⟩
  · rintro ⟨h, hmore⟩
    refine ⟨?_, ?_, ?_, h.image, ?_⟩
    · exact pairwise_append_if.mpr ⟨h.ascending, fun hb => (hmore hb).1⟩
    · exact pairwise_append_if.mpr ⟨h.disjoint, fun hb => (hmore hb).2.1⟩
    · exact forall_mem_append_if.mpr ⟨h.aligned, fun hb => (hmore hb).2.2.1⟩
    · exact forall_mem_append_if.mpr ⟨h.covered, fun hb => (hmore hb).2.2.2⟩

/-- **A layout** whose image ends behind the last section: `.reloc`, if there is one, starts at
the end of the last section rounded up. Starts and sizes have been cut to 32 bits. -/
theorem validLayout_iff_of_last (ha : 0 < a) (hlast : last ∈ sections)
    {hasReloc : Bool} (hsize : hasReloc = false → size = 0) :
    Pe.ValidLayout
        (sections ++ if hasReloc then
          [⟨roundUp (last.start + last.size) a % 2 ^ 32, size⟩] else [])
        a (roundUp (roundUp (last.start + last.size) a + size) a % 2 ^ 32) ↔
      (∀ e ∈ sections, a ∣ e.start) ∧
      (sections.Pairwise fun e f =>
        e.start ≤ f.start ∧ (e.start + e.size ≤ f.start ∨ f.size = 0)) ∧
      (∀ e ∈ sections, e.start + e.size ≤ roundUp (last.start + last.size) a) ∧
      roundUp (roundUp (last.start + last.size) a + size) a < 2 ^ 32 := by
  generalize hroom : roundUp (last.start + last.size) a = room
  have hend : last.start + last.size ≤ room := hroom ▸ (le_roundUp _ ha).1
  have hdvd : a ∣ room := hroom ▸ dvd_roundUp _ _
  have himage := le_roundUp (room + size) ha
  have hpair : (sections.Pairwise fun e f => e.start ≤ f.start) ∧
      sections.Pairwise Extent.Apart ↔ sections.Pairwise fun e f =>
        e.start ≤ f.start ∧ (e.start + e.size ≤ f.start ∨ f.size = 0) := by
    rw [← List.pairwise_and_iff]
    refine List.Pairwise.iff fun e f => ?_
    exact and_congr_right fun hle => apart_iff_of_le hle
  rw [validLayout_append_if]
  constructor
  · rintro ⟨h, hreloc⟩
    have hlt := Nat.mod_lt (roundUp (room + size) a) (show 0 < 2 ^ 32 by decide)
    -- the image covers the last section, and with it the room behind
    have hroomle := roundUp_le_of_dvd ha h.image (h.covered last hlast)
    rw [hroom] at hroomle
    have hsame : room % 2 ^ 32 = room := Nat.mod_eq_of_lt (by omega)
    have hexact : size = 0 → roundUp (room + size) a % 2 ^ 32 = room := by
      rintro rfl
      rw [Nat.add_zero, roundUp_of_dvd ha hdvd, hsame]
    rw [hsame] at hreloc
    refine ⟨h.aligned, hpair.mp ⟨h.ascending, h.disjoint⟩, ?_, ?_⟩
    · intro e he
      cases hasReloc with
      | false =>
          rw [← hexact (hsize rfl)]
          exact h.covered e he
      | true =>
          obtain ⟨hafter, hapart, -, -⟩ := hreloc rfl
          rcases (apart_iff_of_le (hafter e he)).mp (hapart e he) with hle | hzero
          · exact hle
          · rw [← hexact hzero]
            exact h.covered e he
    · cases hasReloc with
      | false =>
          rw [hsize rfl, Nat.add_zero, roundUp_of_dvd ha hdvd]
          omega
      | true =>
          obtain ⟨-, -, -, hcovered⟩ := hreloc rfl
          exact lt_of_le_of_lt (roundUp_le_of_dvd ha h.image hcovered) hlt
  · rintro ⟨haligned, hpairs, hends, hbelow⟩
    obtain ⟨hascending, hdisjoint⟩ := hpair.mpr hpairs
    have hroomle : room ≤ roundUp (room + size) a := by omega
    rw [Nat.mod_eq_of_lt hbelow, Nat.mod_eq_of_lt (show room < 2 ^ 32 by omega)]
    refine ⟨⟨hascending, hdisjoint, haligned, dvd_roundUp _ _, fun e he => ?_⟩,
      fun _ => ⟨fun e he => ?_, fun e he => Extent.Apart.of_le (hends e he), hdvd, himage.1⟩⟩
    · exact le_trans (hends e he) hroomle
    · exact le_trans (Nat.le_add_right _ _) (hends e he)

end

end LoliLoader.Elf2Efi
