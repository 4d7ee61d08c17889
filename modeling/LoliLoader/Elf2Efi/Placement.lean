/-
# LoliLoader.Elf2Efi.Placement -- where the sections of an ELF file end up

From the addresses in the ELF file to the section table of the image: every segment goes down to its
own alignment, `.reloc` behind the last one up to the common alignment.

The converter aligns each segment by itself and announces one alignment for all sections. Two
segments on one page may so get sections that overlap, and a section may start at an address that is
no multiple of what is announced. `WellPlaced` says in terms of the parsed segments when neither
happens, and `hasValidLayout_iff_wellPlaced` that this is exactly when the written headers are a
valid layout.

It is an equivalence over all files that the converter accepts, whose alignments are as the format
has them and whose segments are apart in memory. So the fields of 32 bits are followed without the
assumption that anything fits; the places of the sections are computed as the header has them
(`Segment.placed`).

Two files are evaluated behind it. In the first one two segments lie side by side on a page and get
the same section address, in the second one everything is in its place.
-/
import LoliLoader.Elf2Efi.Layout
import LoliLoader.Elf2Efi.Mapped

namespace LoliLoader.Elf2Efi

open C Bytes

/-! ## The pipeline -/

/-- `main`, from the bytes of the ELF file to those of the PE file. -/
def elf2efi (qsort : Qsort) (heap : Heap) (segname : Nat → Nat → UInt8) (path : String)
    (bytes : List UInt8) (baseAddress : UInt64) : Except Failure (List UInt8) := do
  let elf ← loadBinaryFile path bytes
  let exec ← parseElf qsort heap elf
  convert segname exec baseAddress

/-- `p_align` as the format has it: a power of two, or zero for no alignment. -/
def Elf64Phdr.Aligned (phdr : Elf64Phdr) : Prop :=
  phdr.pAlign = 0 ∨ ∃ k, phdr.pAlign.toNat = 2 ^ k

/-- The program headers of the segments to load have alignments of the format. -/
def LoadAligned (elf : SizedData) : Prop :=
  ∀ phdrs, programHeaders elf (elfHeader elf) = .ok phdrs →
    ∀ phdr ∈ phdrs, phdr.pType = PT_LOAD → phdr.Aligned

/-- The memory ranges of the segments to load have no common address. -/
def LoadApart (elf : SizedData) : Prop :=
  ∀ phdrs, programHeaders elf (elfHeader elf) = .ok phdrs →
    (phdrs.filter fun phdr => phdr.pType = PT_LOAD).Pairwise fun p q =>
      Extent.Apart ⟨p.pVaddr.toNat, p.pMemsz.toNat⟩ ⟨q.pVaddr.toNat, q.pMemsz.toNat⟩

/-! ## The condition -/

/-- The section for a segment that is shifted by `sh`, in the 32 bits of its header. -/
def Segment.placed (sh : Nat) (s : Segment) : Extent :=
  ⟨s.start sh % 2 ^ 32, (s.memsize.toNat + s.pad sh) % 2 ^ 32⟩

namespace Executable

/-- The end of the last section, rounded up to the common alignment: `.reloc` goes there. -/
def room (exec : Executable) (last : Segment) : Nat :=
  roundUp ((last.placed exec.shift).start + (last.placed exec.shift).size)
    exec.executableAlignment.toNat

/-- When the sections of an executable are a layout of memory, with a relocation table of `n`
bytes. -/
structure WellPlaced (exec : Executable) (n : Nat) : Prop where
  /-- no segment is too far from the common alignment for its own -/
  near : ∀ s ∈ exec.segments,
    s.vaddr.toNat % exec.executableAlignment.toNat < s.alignment.toNat
  /-- no segment goes down into one before it, or goes before it -/
  ordered : exec.segments.Pairwise fun s t =>
    (s.placed exec.shift).start ≤ (t.placed exec.shift).start ∧
      ((s.placed exec.shift).start + (s.placed exec.shift).size ≤ (t.placed exec.shift).start ∨
        (t.placed exec.shift).size = 0)
  /-- the last segment is the last one also with its end -/
  last : ∀ last, exec.segments.getLast? = some last → ∀ s ∈ exec.segments,
    (s.placed exec.shift).start + (s.placed exec.shift).size ≤ exec.room last
  /-- the image has less than 4 GiB -/
  image : ∀ last, exec.segments.getLast? = some last →
    roundUp (exec.room last + n % 2 ^ 32) exec.executableAlignment.toNat < 2 ^ 32

end Executable

/-! ## From addresses to the section table -/

/-- A number goes down to a multiple of `m` already by going down to one of a divisor `a`. -/
theorem dvd_down_iff {v a m : Nat} (ha : 0 < a) (hm : 0 < m) (h : a ∣ m) :
    m ∣ v / a * a ↔ v % m < a := by
  have hle : a ≤ m := Nat.le_of_dvd hm h
  have hdown := Nat.div_add_mod' v a
  have hmod := Nat.mod_lt v ha
  refine ⟨?_, ?_⟩
  · rintro ⟨c, hc⟩
    rw [← hdown, hc, Nat.mul_add_mod, Nat.mod_eq_of_lt (by omega)]
    exact hmod
  · intro hlt
    obtain ⟨b, rfl⟩ := h
    have hv := Nat.div_add_mod v (a * b)
    have hquot : v / a = b * (v / (a * b)) := by
      conv_lhs => rw [← hv, Nat.mul_assoc, Nat.mul_add_div ha, Nat.div_eq_of_lt hlt, Nat.add_zero]
    exact ⟨v / (a * b), by rw [hquot, Nat.mul_right_comm, Nat.mul_comm b]⟩

theorem Segment.start_of_dvd {s : Segment} {sh : Nat} (ha : s.alignment ≠ 0)
    (h : s.alignment.toNat ∣ sh) :
    s.start sh = s.vaddr.toNat / s.alignment.toNat * s.alignment.toNat + sh ∧
      s.pad sh = s.vaddr.toNat % s.alignment.toNat := by
  have hpos : 0 < s.alignment.toNat :=
    Nat.pos_of_ne_zero fun h0 => ha (UInt32.toNat_inj.mp h0)
  obtain ⟨c, rfl⟩ := h
  refine ⟨?_, ?_⟩
  · rw [Segment.start, Nat.add_mul_div_left _ _ hpos, Nat.add_mul, Nat.mul_comm s.alignment.toNat]
  · rw [Segment.pad, Nat.add_mul_mod_self_left]

section

variable {exec exec' : Executable} {base offset : UInt64} {first last s t : Segment}
  {rest : List Segment}

/-- The common alignment, when it is not zero, divides what 32 bits can count. -/
theorem CommonAligned.dvd_two_pow (h : CommonAligned exec base) (hseg : exec.segments ≠ [])
    (hne : exec.executableAlignment ≠ 0) : exec.executableAlignment.toNat ∣ 2 ^ 32 := by
  obtain ⟨alignment, e, hok, hpow, -⟩ := execAddressAlignment_ok hseg h.powers
  obtain rfl := Except.ok.inj (h.common.symm.trans hok)
  by_cases he : e < 32
  · rw [hpow, Nat.mod_eq_of_lt (Nat.pow_lt_pow_right (by decide) he)]
    exact Nat.pow_dvd_pow 2 (by omega)
  · refine absurd (UInt32.toNat_inj.mp ?_) hne
    rw [hpow]
    exact Nat.mod_eq_zero_of_dvd (Nat.pow_dvd_pow 2 (by omega))

theorem shift_toNat (hseg : exec.segments = first :: rest) (hne : exec.executableAlignment ≠ 0)
    (hoffset : headerOffset exec first = .ok offset) : offset.toNat = exec.shift := by
  have hne64 : exec.executableAlignment.toUInt64 ≠ 0 := by
    intro h0
    apply hne
    apply UInt32.toNat_inj.mp
    rw [← UInt32.toNat_toUInt64, h0]
    rfl
  obtain rfl := Except.ok.inj (hoffset.symm.trans (headerOffset_ok hseg hne64))
  apply toNat_ofNat
  unfold Executable.shift
  rw [hseg]
  dsimp only
  split
  · exact lt_trans (UInt32.toNat_lt _) (by decide)
  · decide

/-- **The fields of a section header** are those of the placed segment, in the 32 bits that they
have. -/
theorem CommonAligned.headerExtent_relocated (h : CommonAligned exec base)
    (hseg : exec.segments = first :: rest) (hne : exec.executableAlignment ≠ 0)
    (hoffset : headerOffset exec first = .ok offset) (hs : s ∈ exec.segments)
    (ht : Relocated (base + offset) s t) : t.headerExtent base = s.placed exec.shift := by
  have hshift := shift_toNat hseg hne hoffset
  obtain ⟨hrva, hpad⟩ := h.section_rva hseg hoffset hs ht
  obtain ⟨hstart, hpads⟩ := Segment.start_of_dvd ht.alignment_ne
    (hshift ▸ (h.dvd hs).trans (h.dvd_offset hseg hoffset))
  have hal : s.alignment.toUInt64.toNat = s.alignment.toNat := UInt32.toNat_toUInt64 _
  rw [Segment.headerExtent, Segment.placed, hstart, hpads]
  congr 1
  · rw [hrva, UInt64.toNat_toUInt32, UInt64.toNat_add, alignDown_toNat, hal, hshift,
      Nat.mod_mod_of_dvd _ (by decide)]
  · rw [ht.memsize, UInt64.toNat_toUInt32, UInt64.toNat_add, UInt32.toNat_toUInt64, hpad,
      Nat.mod_mod_of_dvd _ (by decide)]

theorem headerExtent_of_shape {segments segments' : List Segment}
    (h : segments'.map Segment.shape = segments.map Segment.shape) :
    segments'.map (Segment.headerExtent base) = segments.map (Segment.headerExtent base) := by
  have hfactor : Segment.headerExtent base = (fun x : UInt64 × UInt64 × UInt32 × UInt32 =>
      (⟨(x.1 - base).toUInt32.toNat, x.2.1.toUInt32.toNat⟩ : Extent)) ∘ Segment.shape := rfl
  rw [hfactor, ← List.map_map, ← List.map_map, h]

theorem alignment_ne_of_forall₂ {segments segments' : List Segment}
    (h : List.Forall₂ (Relocated base) segments segments') :
    ∀ s ∈ segments, s.alignment ≠ 0 := by
  induction h with
  | nil => simp
  | cons hst _ ih => exact List.forall_mem_cons.mpr ⟨hst.alignment_ne, ih⟩

theorem map_eq_of_forall₂ {α β γ : Type} {R : α → β → Prop} {f : α → γ} {g : β → γ} {l : List α}
    {l' : List β} (h : List.Forall₂ R l l') (hR : ∀ x ∈ l, ∀ y, R x y → g y = f x) :
    l'.map g = l.map f := by
  induction h with
  | nil => rfl
  | cons hxy _ ih =>
      rw [List.map_cons, List.map_cons, hR _ List.mem_cons_self _ hxy,
        ih fun x hx => hR x (List.mem_cons_of_mem _ hx)]

/-- `.reloc` is as far behind the image base as the end of the last section, rounded up. -/
theorem relocVaddrOf_sub (h64 : exec.executableAlignment.toNat ∣ 2 ^ 64)
    (hbase : exec.executableAlignment.toNat ∣ base.toNat) :
    relocVaddrOf exec last - base
      = align (last.vaddr - base + last.memsize) exec.executableAlignment.toUInt64 := by
  have hal : exec.executableAlignment.toUInt64.toNat = exec.executableAlignment.toNat :=
    UInt32.toNat_toUInt64 _
  rw [relocVaddrOf, align, align]
  generalize exec.executableAlignment.toUInt64 = a at hal
  have hsum : last.vaddr + last.memsize + a - 1
      = (last.vaddr - base + last.memsize + a - 1) + base := by grind
  rw [hsum, alignDown_add (by rw [hal]; exact h64) (by rw [hal]; exact hbase),
    UInt64.add_sub_cancel]

/-- The address of a placed segment is a multiple of the common alignment exactly if the segment
goes down to one. -/
theorem CommonAligned.dvd_placed_iff (h : CommonAligned exec base)
    (hseg : exec.segments = first :: rest) (hne : exec.executableAlignment ≠ 0)
    (hoffset : headerOffset exec first = .ok offset) (hs : s ∈ exec.segments)
    (hpos : s.alignment ≠ 0) :
    exec.executableAlignment.toNat ∣ (s.placed exec.shift).start ↔
      s.vaddr.toNat % exec.executableAlignment.toNat < s.alignment.toNat := by
  have hdvd := h.dvd_offset hseg hoffset
  rw [shift_toNat hseg hne hoffset] at hdvd
  have ha : 0 < s.alignment.toNat :=
    Nat.pos_of_ne_zero fun h0 => hpos (UInt32.toNat_inj.mp h0)
  have hA : 0 < exec.executableAlignment.toNat :=
    Nat.pos_of_ne_zero fun h0 => hne (UInt32.toNat_inj.mp h0)
  rw [Segment.placed, (Segment.start_of_dvd hpos ((h.dvd hs).trans hdvd)).1,
    Nat.dvd_mod_iff (h.dvd_two_pow (List.ne_nil_of_mem hs) hne), Nat.dvd_add_left hdvd]
  exact dvd_down_iff ha hA (h.dvd hs)

/-- Where `.reloc` goes behind the last section, and where the image ends, in 32 bits. -/
theorem imageFields_toNat {last : Segment} {e : Extent} {table : SizedData}
    (hne : exec.executableAlignment ≠ 0) (h32 : exec.executableAlignment.toNat ∣ 2 ^ 32)
    (hbase : exec.executableAlignment.toNat ∣ base.toNat) (he : last.headerExtent base = e) :
    (relocVaddrOf exec last - base).toUInt32.toNat
      = roundUp (e.start + e.size) exec.executableAlignment.toNat % 2 ^ 32 ∧
    (sizeOfImageOf exec base last table).toUInt32.toNat
      = roundUp (roundUp (e.start + e.size) exec.executableAlignment.toNat
          + table.size.toUInt32.toNat) exec.executableAlignment.toNat % 2 ^ 32 := by
  have hal : exec.executableAlignment.toUInt64.toNat = exec.executableAlignment.toNat :=
    UInt32.toNat_toUInt64 _
  have hpos : 0 < exec.executableAlignment.toUInt64.toNat := by
    rw [hal]
    exact Nat.pos_of_ne_zero fun h0 => hne (UInt32.toNat_inj.mp h0)
  have hdvd : exec.executableAlignment.toUInt64.toNat ∣ 2 ^ 32 := hal.symm ▸ h32
  have hend : (last.vaddr - base + last.memsize).toNat % 2 ^ 32 = (e.start + e.size) % 2 ^ 32 := by
    rw [← he, Segment.headerExtent, UInt64.toNat_toUInt32, UInt64.toNat_toUInt32,
      UInt64.toNat_add, Nat.mod_mod_of_dvd _ (by decide), Nat.add_mod]
  have hroom : (relocVaddrOf exec last - base).toUInt32.toNat
      = roundUp (e.start + e.size) exec.executableAlignment.toNat % 2 ^ 32 := by
    rw [relocVaddrOf_sub (h32.trans (by decide)) hbase, align_toUInt32 hpos hdvd hend, hal]
  have hsum : relocVaddrOf exec last + table.size - base
      = relocVaddrOf exec last - base + table.size := by grind
  refine ⟨hroom, ?_⟩
  rw [sizeOfImageOf, hsum, align_toUInt32 hpos hdvd _, hal]
  rw [← UInt64.toNat_toUInt32, UInt64.toUInt32_add, UInt32.toNat_add, hroom, Nat.mod_add_mod]

theorem size_of_noRelocs {table : SizedData} (hnone : hasPeReloc exec = false)
    (h : createPeReloc exec base = .ok table) : table.size = 0 := by
  have hrelocs : exec.relocs = [] := by
    simpa [hasPeReloc] using hnone
  unfold createPeReloc at h
  rw [hrelocs] at h
  obtain rfl := Except.ok.inj h
  rfl

/-- **The layout of a written file** is valid exactly if the segments of the executable are well
placed, with a table of this size. -/
theorem CommonAligned.hasValidLayout_iff {exec₁ exec₂ : Executable} {table : SizedData}
    {segname : Nat → Nat → UInt8} {file : List UInt8} (h : CommonAligned exec base)
    (hnum : exec.segments.length < 2 ^ 16 - 1) (hrelocate : relocateExec exec base = .ok exec₁)
    (happly : applyRelocs exec₁ = .ok exec₂) (htable : createPeReloc exec₂ base = .ok table)
    (hwrite : writePe segname exec₂ base table = .ok file) :
    Pe.HasValidLayout file ↔ exec.WellPlaced table.size.toNat := by
  obtain ⟨first, rest, offset, hseg, hoffset, hforall, hrelocs, hal₁⟩ := relocateExec_inv hrelocate
  have hshape := applyRelocs_inv happly
  obtain ⟨-, -, -, hne₂, -⟩ := writePe_inv hwrite
  have hal : exec₂.executableAlignment = exec.executableAlignment :=
    hshape.executableAlignment.trans hal₁
  have hne : exec.executableAlignment ≠ 0 := hal ▸ hne₂
  have hpos : 0 < exec.executableAlignment.toNat :=
    Nat.pos_of_ne_zero fun h0 => hne (UInt32.toNat_inj.mp h0)
  have h32 := h.dvd_two_pow (by rw [hseg]; exact List.cons_ne_nil _ _) hne
  -- the segments are placed
  have hplaced : exec₂.segments.map (Segment.headerExtent base)
      = exec.segments.map (Segment.placed exec.shift) :=
    (headerExtent_of_shape hshape.shapes).trans (map_eq_of_forall₂ hforall fun s hs t ht =>
      h.headerExtent_relocated hseg hne hoffset hs ht)
  have hlength : exec₂.segments.length = exec.segments.length := by
    simpa using congrArg List.length hplaced
  obtain ⟨last₂, headers, hlast₂, hread, halign, himage, hsections⟩ :=
    headers_of_writePe hwrite (by omega)
  obtain ⟨last, hlast, hextent⟩ : ∃ last, exec.segments.getLast? = some last ∧
      last.placed exec.shift = last₂.headerExtent base := by
    have hends := congrArg List.getLast? hplaced
    rw [List.getLast?_map, List.getLast?_map, hlast₂] at hends
    exact Option.map_eq_some_iff.mp hends.symm
  have hfields := @imageFields_toNat exec₂ base last₂ _ table hne₂ (hal ▸ h32) (hal ▸ h.base)
    hextent.symm
  rw [hal] at hfields
  obtain ⟨hroom, hsize⟩ : _ = exec.room last % 2 ^ 32 ∧
    _ = roundUp (exec.room last + table.size.toUInt32.toNat) _ % 2 ^ 32 := hfields
  have hempty : hasPeReloc exec₂ = false → table.size.toUInt32.toNat = 0 := by
    intro hnone
    rw [size_of_noRelocs hnone htable]
    rfl
  have hvalid : Pe.HasValidLayout file ↔ Pe.ValidLayout
      (exec.segments.map (Segment.placed exec.shift) ++ if hasPeReloc exec₂ then
        [⟨exec.room last % 2 ^ 32, table.size.toUInt32.toNat⟩] else [])
      exec.executableAlignment.toNat
      (roundUp (exec.room last + table.size.toUInt32.toNat) exec.executableAlignment.toNat
        % 2 ^ 32) := by
    rw [← hplaced, ← hroom, ← hsections, ← hsize, ← himage]
    refine ⟨?_, fun hlayout => ⟨headers, _, hread, hal ▸ halign, hlayout⟩⟩
    rintro ⟨headers', alignment', hread', halign', hlayout⟩
    obtain rfl := Option.some.inj (hread.symm.trans hread')
    obtain rfl := Option.some.inj (halign.symm.trans halign')
    rw [← hal]
    exact hlayout
  have hmem : last ∈ exec.segments := List.mem_of_getLast? hlast
  have hrule := @validLayout_iff_of_last (exec.segments.map (Segment.placed exec.shift))
    (last.placed exec.shift) exec.executableAlignment.toNat table.size.toUInt32.toNat hpos
    (List.mem_map_of_mem hmem) (hasPeReloc exec₂) hempty
  rw [hvalid]
  refine hrule.trans ?_
  rw [List.forall_mem_map, List.forall_mem_map, List.pairwise_map]
  have hnear : (∀ s ∈ exec.segments,
        exec.executableAlignment.toNat ∣ (s.placed exec.shift).start) ↔
      ∀ s ∈ exec.segments, s.vaddr.toNat % exec.executableAlignment.toNat < s.alignment.toNat := by
    exact forall₂_congr fun s hs =>
      h.dvd_placed_iff hseg hne hoffset hs (alignment_ne_of_forall₂ hforall s hs)
  refine ⟨?_, ?_⟩
  · rintro ⟨haligned, hordered, hends, himage⟩
    refine ⟨hnear.mp haligned, hordered, ?_, ?_⟩
    · intro last' hlast'
      obtain rfl := Option.some.inj (hlast.symm.trans hlast')
      exact hends
    · intro last' hlast'
      obtain rfl := Option.some.inj (hlast.symm.trans hlast')
      rw [← UInt64.toNat_toUInt32]
      exact himage
  · intro hw
    refine ⟨hnear.mpr hw.near, hw.ordered, hw.last last hlast, ?_⟩
    rw [UInt64.toNat_toUInt32]
    exact hw.image last hlast

end

/-! ## Files -/

section

variable {qsort : Qsort} {heap : Heap} {path : String} {bytes : List UInt8}
  {segname : Nat → Nat → UInt8} {elf : SizedData} {exec exec₁ exec₂ : Executable} {base : UInt64}
  {table : SizedData} {file : List UInt8}

/-- A conversion that succeeds is one where every pass does. -/
theorem elf2efi_eq_ok : elf2efi qsort heap segname path bytes base = .ok file ↔
    ∃ elf exec exec₁ exec₂ table, loadBinaryFile path bytes = .ok elf ∧
      parseElf qsort heap elf = .ok exec ∧ relocateExec exec base = .ok exec₁ ∧
      applyRelocs exec₁ = .ok exec₂ ∧ createPeReloc exec₂ base = .ok table ∧
      writePe segname exec₂ base table = .ok file := by
  simp only [elf2efi, convert, bind_eq_ok]
  refine ⟨?_, ?_⟩
  · rintro ⟨elf, hload, exec, hparse, exec₁, hrelocate, exec₂, happly, table, htable, hwrite⟩
    exact ⟨elf, exec, exec₁, exec₂, table, hload, hparse, hrelocate, happly, htable, hwrite⟩
  · rintro ⟨elf, exec, exec₁, exec₂, table, hload, hparse, hrelocate, happly, htable, hwrite⟩
    exact ⟨elf, hload, exec, hparse, exec₁, hrelocate, exec₂, happly, table, htable, hwrite⟩

/-- An alignment of the format is a power of two in 32 bits, unless that is zero. -/
theorem Elf64Phdr.Aligned.powerAligned {phdr : Elf64Phdr} {s : Segment} (h : phdr.Aligned)
    (hload : Loaded phdr s) (hne : s.alignment ≠ 0) : s.PowerAligned := by
  have hal : s.alignment.toNat = phdr.pAlign.toNat % 2 ^ 32 := by
    rw [hload.alignment, UInt64.toNat_toUInt32]
  rcases h with hzero | ⟨k, hk⟩
  · refine absurd (UInt32.toNat_inj.mp ?_) hne
    rw [hal, hzero]
    rfl
  · by_cases hlt : k < 32
    · exact ⟨k, by rw [hal, hk, Nat.mod_eq_of_lt (Nat.pow_lt_pow_right (by decide) hlt)]⟩
    · refine absurd (UInt32.toNat_inj.mp ?_) hne
      rw [hal, hk]
      exact Nat.mod_eq_zero_of_dvd (Nat.pow_dvd_pow 2 (by omega))

/-- The executable of a file that is converted. -/
theorem Parsed.commonAligned (h : Parsed elf exec) (haligned : LoadAligned elf)
    (hbase : exec.executableAlignment.toNat ∣ base.toNat)
    (hrelocate : relocateExec exec base = .ok exec₁) :
    CommonAligned exec base ∧ exec.segments.length < 2 ^ 16 - 1 := by
  obtain ⟨phdrs, hphdrs, hcount, hloaded, -⟩ := h.segments
  have hnum := length_programHeaders hphdrs
  obtain ⟨first, rest, offset, -, -, hforall, -, -⟩ := relocateExec_inv hrelocate
  refine ⟨⟨by omega, ?_, h.alignment, hbase⟩, by omega⟩
  intro s hs
  obtain ⟨phdr, hmem, htype, hload⟩ := hloaded s hs
  exact (haligned phdrs hphdrs phdr hmem htype).powerAligned hload
    (alignment_ne_of_forall₂ hforall s hs)

/-- **The section table of a file** is a layout of memory exactly if the segments of the ELF file
are well placed. -/
theorem hasValidLayout_iff_wellPlaced (haligned : LoadAligned elf)
    (hparse : parseElf qsort heap elf = .ok exec)
    (hbase : exec.executableAlignment.toNat ∣ base.toNat)
    (hrelocate : relocateExec exec base = .ok exec₁) (happly : applyRelocs exec₁ = .ok exec₂)
    (htable : createPeReloc exec₂ base = .ok table)
    (hwrite : writePe segname exec₂ base table = .ok file) :
    Pe.HasValidLayout file ↔ exec.WellPlaced table.size.toNat := by
  obtain ⟨hcommon, hnum⟩ := (parseElf_inv hparse).commonAligned haligned hbase hrelocate
  exact hcommon.hasValidLayout_iff hnum hrelocate happly htable hwrite

end

/-! ## Neighbours on a page -/

/-- A program header as a record, with data and memory of the same size. -/
def phdrFields (type : UInt32) (offset vaddr size align : Nat) : List Field :=
  [(4, type.toNat), (4, PF_R.toNat), (8, offset), (8, vaddr), (8, vaddr), (8, size), (8, size),
    (8, align)]

/-- An ELF file of two segments side by side on a page of 0x1000 bytes, one byte each, and an
empty dynamic segment. -/
def neighboursElf : List UInt8 := record
  ([(4, 0x464c457f), (1, 2), (1, 1), (1, 1), (9, 0), (2, 3), (2, 62), (4, 1), (8, 0x1000), (8, 64),
      (8, 0), (4, 0), (2, 64), (2, 56), (2, 3), (2, 0), (2, 0), (2, 0)] ++
    phdrFields PT_LOAD 0 0x1000 1 0x1000 ++
    phdrFields PT_LOAD 1 0x1001 1 0x1000 ++
    phdrFields PT_DYNAMIC 0 0 0 8 ++
    [(1, 0)])

/-- The file as it has been read. -/
def neighboursFile : SizedData := ⟨"a.elf", neighboursElf, 233⟩

/-- A segment of the first bytes of that file, of one byte. -/
def neighbour (vaddr : UInt64) (offset : Nat) (byte : UInt8) : Segment where
  vaddr := vaddr
  memsize := 1
  alignment := 0x1000
  flags := SEGMENT_FLAGS_READ
  filesize := 1
  data := ⟨"segment at offset 0x" ++ String.ofList (Nat.toDigits 16 offset), [byte], 1⟩

/-- The file as an executable: two segments of one byte each, side by side. -/
def neighbours : Executable where
  entryAddr := 0x1000
  segments := [neighbour 0x1000 0 0x7f, neighbour 0x1001 1 0x45]
  dynamic := ⟨0, 0, 8, SEGMENT_FLAGS_READ, 0, ⟨"segment at offset 0x0", [], 0⟩⟩
  relocs := []
  executableAlignment := 0x1000

theorem execAddressAlignment_neighbours :
    execAddressAlignment neighbours.segments = .ok 0x1000 := by
  have hgcd : gcd 0x1000 0 = 0x1000 := by rw [gcd, if_pos rfl]
  have hsame : gcd 0x1000 0x1000 = 0x1000 := by
    rw [gcd, if_neg (by decide)]
    exact hgcd
  have hproduct : (0x1000 * (0x1000 / 0x1000) : UInt32) = 0x1000 := by decide
  simp only [execAddressAlignment, neighbours, neighbour, List.foldl_cons, List.foldl_nil, hgcd,
    hsame, List.foldlM_cons, List.foldlM_nil, hproduct]
  rfl

/-- Two elements in order stay where they are. -/
theorem Qsort.sort_pair (qsort : Qsort) {α : Type} {compare : α → α → Int32} {a b : α}
    (haa : compare a a ≤ 0) (hbb : compare b b ≤ 0) (hab : compare a b ≤ 0)
    (hba : ¬ compare b a ≤ 0) : qsort.sort compare [a, b] = [a, b] := by
  have hsorted := qsort.sorted compare [a, b] (by simp [haa, hbb, hab])
    (by simp [haa, hbb, hab, hba])
  have hperm := qsort.perm compare [a, b]
  refine hperm.eq_of_pairwise ?_ hsorted (List.pairwise_pair.mpr hab)
  intro x y hx hy hxy hyx
  rcases List.mem_pair.mp (hperm.mem_iff.mp hx) with rfl | rfl <;>
    rcases List.mem_pair.mp hy with rfl | rfl
  · rfl
  · exact absurd hyx hba
  · exact absurd hxy hba
  · rfl

set_option maxRecDepth 4000 in
theorem loadBinaryFile_neighbours : loadBinaryFile "a.elf" neighboursElf = .ok neighboursFile :=
  rfl

set_option maxRecDepth 4000 in
theorem programHeaders_neighbours :
    programHeaders neighboursFile (elfHeader neighboursFile) =
      .ok [⟨PT_LOAD, PF_R, 0, 0x1000, 1, 1, 0x1000⟩, ⟨PT_LOAD, PF_R, 1, 0x1001, 1, 1, 0x1000⟩,
        ⟨PT_DYNAMIC, PF_R, 0, 0, 0, 0, 8⟩] := rfl

set_option maxRecDepth 4000 in
theorem loadSegments_neighbours (heap : Heap) :
    loadSegments heap neighboursFile (elfHeader neighboursFile)
      = .ok (neighbours.segments, neighbours.dynamic) := rfl

set_option maxRecDepth 4000 in
theorem parseElf_neighbours (qsort : Qsort) (heap : Heap) :
    parseElf qsort heap neighboursFile = .ok neighbours := by
  have hsort : qsort.sort segmentCompare neighbours.segments = neighbours.segments :=
    qsort.sort_pair (by decide) (by decide) (by decide) (by decide)
  have hrelocs : ∀ exec, loadRelocs qsort heap exec neighboursFile
      neighbours.dynamic = .ok [] := by
    intro exec
    show Except.ok (qsort.sort relocCompare []) = _
    rw [(qsort.perm relocCompare []).eq_nil]
  unfold parseElf
  refine bind_eq_ok.mpr ⟨0, rfl, ?_⟩
  refine bind_eq_ok.mpr ⟨neighboursElf.take 64, rfl, ?_⟩
  refine bind_eq_ok.mpr ⟨(), rfl, ?_⟩
  refine bind_eq_ok.mpr ⟨_, loadSegments_neighbours heap, ?_⟩
  dsimp only
  rw [hsort]
  refine bind_eq_ok.mpr ⟨[], hrelocs _, ?_⟩
  exact bind_eq_ok.mpr ⟨_, execAddressAlignment_neighbours, rfl⟩

/-- The two segments where `relocate_exec` puts them. -/
def movedNeighbours : Executable :=
  { neighbours with
    entryAddr := 0x10001000
    segments := [
      neighbour 0x10001000 0 0x7f,
      { neighbour 0x10001000 1 0x45 with
        memsize := 2
        filesize := 2
        data := ⟨"segment at offset 0x1", [0, 0x45], 2⟩ }] }

theorem relocateExec_neighbours :
    relocateExec neighbours 0x10000000 = .ok movedNeighbours := rfl

theorem createPeReloc_neighbours :
    createPeReloc movedNeighbours 0x10000000 = .ok ⟨"PE relocation block", [], 0⟩ := rfl

theorem writePe_neighbours (segname : Nat → Nat → UInt8) :
    ∃ file, writePe segname movedNeighbours 0x10000000 ⟨"PE relocation block", [], 0⟩ = .ok file :=
  ⟨_, rfl⟩

theorem loadAligned_neighbours : LoadAligned neighboursFile := by
  intro phdrs hphdrs phdr hmem htype
  obtain rfl := Except.ok.inj (hphdrs.symm.trans programHeaders_neighbours)
  rcases List.mem_cons.mp hmem with rfl | hmem
  · exact Or.inr ⟨12, rfl⟩
  · rcases List.mem_pair.mp hmem with rfl | rfl
    · exact Or.inr ⟨12, rfl⟩
    · exact Or.inr ⟨3, rfl⟩

theorem loadApart_neighbours : LoadApart neighboursFile := by
  intro phdrs hphdrs
  obtain rfl := Except.ok.inj (hphdrs.symm.trans programHeaders_neighbours)
  exact List.pairwise_pair.mpr (Extent.Apart.of_le (Nat.le_refl _))

theorem commonAligned_neighbours : CommonAligned neighbours 0x10000000 where
  segnum := by
    show 2 < 2 ^ 16
    decide
  powers := by
    intro s hs
    rcases List.mem_pair.mp hs with rfl | rfl <;> exact ⟨12, rfl⟩
  common := execAddressAlignment_neighbours
  base := by
    show 0x1000 ∣ 0x10000000
    decide

/-! ## A file with a relocation -/

/-- A segment of 312 bytes in the file and 424 in memory, a dynamic segment at its start, and one
relocation, at byte 408. -/
def tailElf : List UInt8 :=
  smallEhdr ++ (leBytes 4 1 ++ leBytes 4 6 ++ leBytes 8 0xb0 ++ leBytes 8 0xb0 ++ leBytes 8 0xb0 ++
    leBytes 8 312 ++ leBytes 8 424 ++ leBytes 8 0x1000) ++
  smallPhdr 2 6 0xb0 0xb0 288 ++
  (leBytes 8 7 ++ leBytes 8 0x1d0 ++ leBytes 8 8 ++ leBytes 8 24 ++ List.replicate 256 0) ++
  (leBytes 8 0x248 ++ leBytes 8 8 ++ leBytes 8 0x42) ++ List.replicate 8 0

/-- The file as it has been read. -/
def tailFile : SizedData := ⟨"a.elf", tailElf, 496⟩

/-- The program header of its segment to load. -/
def tailPhdr : Elf64Phdr := ⟨PT_LOAD, 6, 0xb0, 0xb0, 312, 424, 0x1000⟩

theorem loadBinaryFile_tail : loadBinaryFile "a.elf" tailElf = .ok tailFile := by
  decide +kernel

theorem programHeaders_tail : programHeaders tailFile (elfHeader tailFile) =
    .ok [tailPhdr, ⟨PT_DYNAMIC, 6, 0xb0, 0xb0, 288, 288, 0x1000⟩] := by
  decide +kernel

/-- The headers of what is written for it: the segment, and the page of the relocation table. -/
theorem readHeaders_tail :
    (parseElf mergeQsort ⟨fun _ _ => 0, fun _ _ => ⟨0, 0⟩⟩ tailFile).toOption.map
        Executable.executableAlignment = some 0x1000 ∧
      (elf2efi mergeQsort ⟨fun _ _ => 0, fun _ _ => ⟨0, 0⟩⟩ (fun _ _ => 0) "a.elf" tailElf
        0x10000000).toOption.map (fun file => (Pe.readHeaders file, Pe.sectionAlignment file))
        = some (some ⟨0x1000, 0x10000000, 0x3000, 0x2000, 10,
            [⟨600, 0x1000, 1024, 512⟩, ⟨10, 0x2000, 512, 1536⟩]⟩, some 0x1000) := by
  decide +kernel

theorem hasValidLayout_tail {file : List UInt8}
    (h : (Pe.readHeaders file, Pe.sectionAlignment file)
      = (some ⟨0x1000, 0x10000000, 0x3000, 0x2000, 10,
          [⟨600, 0x1000, 1024, 512⟩, ⟨10, 0x2000, 512, 1536⟩]⟩, some 0x1000)) :
    Pe.HasValidLayout file := by
  obtain ⟨hheaders, halignment⟩ := Prod.mk.inj h
  refine ⟨_, _, hheaders, halignment, ?_⟩
  show Pe.ValidLayout [⟨0x1000, 600⟩, ⟨0x2000, 10⟩] 0x1000 0x3000
  refine ⟨List.pairwise_pair.mpr (by decide), ?_, ?_, by decide, ?_⟩
  · exact List.pairwise_pair.mpr (Extent.Apart.of_le (by decide))
  · intro e he
    rcases List.mem_pair.mp he with rfl | rfl <;> decide
  · intro e he
    rcases List.mem_pair.mp he with rfl | rfl <;> decide

theorem loadAligned_tail : LoadAligned tailFile := by
  intro phdrs hphdrs phdr hmem htype
  obtain rfl := Except.ok.inj (hphdrs.symm.trans programHeaders_tail)
  rcases List.mem_pair.mp hmem with rfl | rfl <;> exact Or.inr ⟨12, rfl⟩

/-- The equivalence at the file whose sections overlap, and at one that is well placed. -/
theorem hasValidLayout_iff_wellPlaced_neighbours :
    (∃ file, writePe (fun _ _ => 0) movedNeighbours 0x10000000 ⟨"PE relocation block", [], 0⟩
        = .ok file ∧ (Pe.HasValidLayout file ↔ neighbours.WellPlaced 0)) ∧
      ∃ exec size file, parseElf mergeQsort ⟨fun _ _ => 0, fun _ _ => ⟨0, 0⟩⟩ tailFile = .ok exec ∧
        elf2efi mergeQsort ⟨fun _ _ => 0, fun _ _ => ⟨0, 0⟩⟩ (fun _ _ => 0) "a.elf" tailElf
          0x10000000 = .ok file ∧ Pe.HasValidLayout file ∧ exec.WellPlaced size := by
  constructor
  · obtain ⟨file, hwrite⟩ := writePe_neighbours fun _ _ => 0
    exact ⟨file, hwrite, hasValidLayout_iff_wellPlaced loadAligned_neighbours
      (parseElf_neighbours mergeQsort ⟨fun _ _ => 0, fun _ _ => ⟨0, 0⟩⟩) (by decide)
      relocateExec_neighbours rfl createPeReloc_neighbours hwrite⟩
  · obtain ⟨halignment, hread⟩ := readHeaders_tail
    cases hok : elf2efi mergeQsort ⟨fun _ _ => 0, fun _ _ => ⟨0, 0⟩⟩ (fun _ _ => 0) "a.elf" tailElf
        0x10000000 with
    | error e =>
        rw [hok] at hread
        cases hread
    | ok file =>
        rw [hok] at hread
        obtain ⟨elf, exec, exec₁, exec₂, table, hload, hparse, hrelocate, happly, htable, hwrite⟩ :=
          elf2efi_eq_ok.mp hok
        obtain rfl := Except.ok.inj (loadBinaryFile_tail.symm.trans hload)
        rw [hparse] at halignment
        have hsame : exec.executableAlignment = 0x1000 := Option.some.inj halignment
        have hvalid := hasValidLayout_tail (Option.some.inj hread)
        exact ⟨exec, table.size.toNat, file, hparse, rfl, hvalid,
          (hasValidLayout_iff_wellPlaced loadAligned_tail hparse (by rw [hsame]; decide) hrelocate
            happly htable hwrite).mp hvalid⟩

/-- The second segment goes down to the address of the first one, and their sections overlap. -/
theorem neighbours_overlap : ∃ file, LoadAligned neighboursFile ∧ LoadApart neighboursFile ∧
    parseElf mergeQsort ⟨fun _ _ => 0, fun _ _ => ⟨0, 0⟩⟩ neighboursFile = .ok neighbours ∧
    neighbours.executableAlignment.toNat ∣ (0x10000000 : UInt64).toNat ∧
    elf2efi mergeQsort ⟨fun _ _ => 0, fun _ _ => ⟨0, 0⟩⟩ (fun _ _ => 0) "a.elf" neighboursElf
      0x10000000 = .ok file ∧
    ¬ Pe.HasValidLayout file := by
  obtain ⟨file, hwrite⟩ := writePe_neighbours fun _ _ => 0
  have hparse := parseElf_neighbours mergeQsort ⟨fun _ _ => 0, fun _ _ => ⟨0, 0⟩⟩
  refine ⟨file, loadAligned_neighbours, loadApart_neighbours, hparse, by decide,
    elf2efi_eq_ok.mpr ⟨neighboursFile, neighbours, movedNeighbours, movedNeighbours, _,
      loadBinaryFile_neighbours, hparse, relocateExec_neighbours, rfl, createPeReloc_neighbours,
      hwrite⟩, ?_⟩
  rw [commonAligned_neighbours.hasValidLayout_iff (by decide) relocateExec_neighbours rfl
    createPeReloc_neighbours hwrite]
  intro hplaced
  have hordered := List.pairwise_pair.mp hplaced.ordered
  exact absurd hordered (by decide)

end LoliLoader.Elf2Efi
