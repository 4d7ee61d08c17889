/-
# LoliLoader.Elf2Efi.HeaderRoom -- room for the headers before the first section

`relocate_exec` decides by the address of the first segment whether the headers fit before it, and
aligns the address down afterwards.

The decision is about the address, the section is about what is left when it has been aligned down.
So an address that is past the headers may belong to a section that is not. The comment in the
source says what is meant, that addresses are advanced if the space before the first segment cannot
contain the headers.

`sizeOfHeaders_le_firstSection_iff` is an equivalence for executables as `parse_elf` makes them,
with alignments that are powers of two (`CommonAligned`). It compares two fields of the written
file, `SizeOfHeaders` and the address of the first section, and both are computed in 32 bits.

The example behind it is a segment of one byte at 0x200: that is past the headers of a file with one
section, and its section is at 0.
-/
import LoliLoader.Elf2Efi.Inversion

namespace LoliLoader.Elf2Efi

open C Bytes

/-- An executable whose alignments are powers of two, with the common alignment that
`exec_address_alignment` computes, and an image base for it. The number of segments comes from
the 16 bits of `e_phnum`. -/
structure CommonAligned (exec : Executable) (base : UInt64) : Prop where
  segnum : exec.segments.length < 2 ^ 16
  powers : ∀ s ∈ exec.segments, s.PowerAligned
  common : execAddressAlignment exec.segments = .ok exec.executableAlignment
  base : exec.executableAlignment.toNat ∣ base.toNat

/-! ## Sizes of headers -/

/-- The number of sections, from the lengths of the lists. -/
def sectionCount (exec : Executable) : Nat :=
  exec.segments.length + if exec.relocs = [] then 0 else 1

theorem peSectionNum_toNat {exec : Executable} (h : exec.segments.length < 2 ^ 16) :
    (peSectionNum exec).toNat = sectionCount exec := by
  rw [toNat_peSectionNum h, sectionCount, hasPeReloc]
  by_cases hr : exec.relocs = []
  · rw [if_neg (by simp [hr]), if_pos hr]
  · rw [if_pos (by simpa using hr), if_neg hr]

theorem sizeOfHeadersOf_toNat {exec : Executable} (h : exec.segments.length < 2 ^ 16) :
    (sizeOfHeadersOf exec).toNat = roundUp (328 + 40 * sectionCount exec) 512 := by
  have hnum := peSectionNum_toNat h
  have hbound : sectionCount exec ≤ exec.segments.length + 1 := by
    unfold sectionCount
    split <;> omega
  rw [sizeOfHeadersOf, align_peImageHeaderSize_toNat (by omega), hnum]

/-- `SizeOfHeaders` in the file is what `write_pe` has computed. -/
theorem word_sizeOfHeaders {exec : Executable} {base : UInt64} {table : SizedData}
    {segname : Nat → Nat → UInt8} {file : List UInt8}
    (h : writePe segname exec base table = .ok file) :
    word file 148 4 = some (sizeOfHeadersOf exec).toUInt32.toNat := by
  obtain ⟨last, rest, -, -, -, rfl⟩ := writePe_inv h
  obtain ⟨pre, post, hpre, hfile⟩ := peHeaders_windowsHeader exec base (relocVaddrOf exec last)
    (sizeOfImageOf exec base last table) (sizeOfHeadersOf exec) table _
  rw [hfile]
  exact word_field (k := 11) rfl (UInt32.toNat_lt _)
    (by rw [hpre]; simp [pe32PlusOptionalWindowsHeader, width])

theorem roundUp_le_of_dvd {n m a : Nat} (ha : 0 < a) (hm : a ∣ m) (h : n ≤ m) :
    roundUp n a ≤ m := by
  obtain ⟨k, rfl⟩ := hm
  rw [roundUp, Nat.mul_comm a]
  apply Nat.mul_le_mul_right
  apply Nat.lt_succ_iff.mp
  rw [Nat.div_lt_iff_lt_mul ha, Nat.succ_mul, Nat.mul_comm k]
  omega

theorem dvd_roundUp (n a : Nat) : a ∣ roundUp n a := ⟨_, Nat.mul_comm _ _⟩

/-! ## The first section -/

section

variable {exec exec' : Executable} {base : UInt64} {first : Segment} {rest : List Segment}

/-- The common alignment is a power of two, or zero. -/
theorem CommonAligned.alignment_le (h : CommonAligned exec base) (hne : exec.segments ≠ []) :
    exec.executableAlignment.toNat ≤ 2 ^ 31 := by
  obtain ⟨alignment, e, hok, hpow, -⟩ := execAddressAlignment_ok hne h.powers
  obtain rfl := Except.ok.inj (h.common.symm.trans hok)
  rw [hpow]
  by_cases he : e ≤ 31
  · exact le_trans (Nat.mod_le _ _) (Nat.pow_le_pow_right (by decide) he)
  · have hdvd : 2 ^ 32 ∣ 2 ^ e := Nat.pow_dvd_pow 2 (by omega)
    rw [Nat.mod_eq_zero_of_dvd hdvd]
    exact Nat.zero_le _

theorem CommonAligned.dvd (h : CommonAligned exec base) {s : Segment} (hs : s ∈ exec.segments) :
    s.alignment.toNat ∣ exec.executableAlignment.toNat :=
  alignment_dvd h.powers h.common s hs

/-- A power of two of 32 bits divides the size of the address space. -/
theorem Segment.PowerAligned.dvd {s : Segment} (h : s.PowerAligned) :
    s.alignment.toNat ∣ 2 ^ 64 := by
  obtain ⟨k, hk⟩ := h
  have hlt := s.alignment.toNat_lt
  rw [hk] at hlt ⊢
  have hk32 : k < 32 := (Nat.pow_lt_pow_iff_right (by decide)).mp hlt
  exact Nat.pow_dvd_pow 2 (by omega)

/-- What `relocate_exec` adds to the base is a multiple of the common alignment. -/
theorem CommonAligned.headerOffset_toNat (h : CommonAligned exec base)
    (hseg : exec.segments = first :: rest) {offset : UInt64}
    (hoffset : headerOffset exec first = .ok offset) :
    (first.vaddr.toNat ≤ 328 + 40 * (exec.segments.length + 1) →
        0 < exec.executableAlignment.toNat ∧ offset.toNat =
          roundUp (328 + 40 * (exec.segments.length + 1)) exec.executableAlignment.toNat) ∧
      (¬ first.vaddr.toNat ≤ 328 + 40 * (exec.segments.length + 1) → offset = 0) := by
  have hlen : (UInt64.ofNat exec.segments.length + 1).toNat = exec.segments.length + 1 := by
    have hnum := h.segnum
    rw [UInt64.toNat_add, toNat_ofNat (by omega)]
    exact Nat.mod_eq_of_lt (by show _ + 1 < _; omega)
  have hsize := @peImageHeaderSize_toNat (UInt64.ofNat exec.segments.length + 1)
    (by have hnum := h.segnum; omega)
  have hal : exec.executableAlignment.toUInt64.toNat = exec.executableAlignment.toNat :=
    UInt32.toNat_toUInt64 _
  have hbound := h.alignment_le (by rw [hseg]; exact List.cons_ne_nil _ _)
  have hcond : first.vaddr ≤ peImageHeaderSize (UInt64.ofNat exec.segments.length + 1) ↔
      first.vaddr.toNat ≤ 328 + 40 * (exec.segments.length + 1) := by
    rw [UInt64.le_iff_toNat_le, hsize, hlen]
  unfold headerOffset at hoffset
  dsimp only at hoffset
  refine ⟨?_, ?_⟩
  · intro hlow
    rw [if_pos (hcond.mpr hlow)] at hoffset
    obtain ⟨_, hdiv, hoffset⟩ := bind_eq_ok.mp hoffset
    obtain rfl := Except.ok.inj hoffset
    have hpos : 0 < exec.executableAlignment.toNat := by
      apply Nat.pos_of_ne_zero
      intro h0
      rw [divisor_eq_ok] at hdiv
      exact hdiv (UInt64.toNat_inj.mp (hal.trans h0))
    have hnum := h.segnum
    have hround := le_roundUp (328 + 40 * (exec.segments.length + 1)) hpos
    refine ⟨hpos, ?_⟩
    rw [UInt32.toNat_toUInt64, UInt64.toNat_toUInt32,
      align_toNat (by omega) (by rw [hsize, hlen, hal]; omega), hsize, hlen, hal]
    exact Nat.mod_eq_of_lt (by omega)
  · intro hhigh
    rw [if_neg (mt hcond.mp hhigh)] at hoffset
    exact (Except.ok.inj hoffset).symm

theorem CommonAligned.dvd_offset (h : CommonAligned exec base)
    (hseg : exec.segments = first :: rest) {offset : UInt64}
    (hoffset : headerOffset exec first = .ok offset) :
    exec.executableAlignment.toNat ∣ offset.toNat := by
  obtain ⟨hlow, hhigh⟩ := h.headerOffset_toNat hseg hoffset
  by_cases hle : first.vaddr.toNat ≤ 328 + 40 * (exec.segments.length + 1)
  · rw [(hlow hle).2]
    exact dvd_roundUp _ _
  · rw [hhigh hle]
    exact dvd_zero _

/-- **The RVA of a section**, and how far it goes down from its segment: that is what the address
has above a multiple of the alignment. -/
theorem CommonAligned.section_rva (h : CommonAligned exec base)
    (hseg : exec.segments = first :: rest) {offset : UInt64}
    (hoffset : headerOffset exec first = .ok offset) {s t : Segment}
    (hs : s ∈ exec.segments) (ht : Relocated (base + offset) s t) :
    t.vaddr - base = alignDown s.vaddr s.alignment.toUInt64 + offset ∧
      (expansion (s.vaddr + (base + offset)) s.alignment).toNat
        = s.vaddr.toNat % s.alignment.toNat := by
  have hal : s.alignment.toUInt64.toNat = s.alignment.toNat := UInt32.toNat_toUInt64 _
  have hpow := (h.powers s hs).dvd
  have hdvd := h.dvd hs
  have hdvdBias : s.alignment.toNat ∣ (base + offset).toNat := by
    rw [UInt64.toNat_add]
    exact (Nat.dvd_mod_iff hpow).mpr
      (Nat.dvd_add (hdvd.trans h.base) (hdvd.trans (h.dvd_offset hseg hoffset)))
  refine ⟨?_, ?_⟩
  · rw [ht.vaddr, alignDown_add (by rw [hal]; exact hpow) (by rw [hal]; exact hdvdBias),
      UInt64.add_comm base, ← UInt64.add_assoc, UInt64.add_sub_cancel]
  · obtain ⟨k, hk⟩ := hdvdBias
    rw [expansion_toNat _ ht.alignment_ne, UInt64.toNat_add, Nat.mod_mod_of_dvd _ hpow, hk,
      Nat.add_mul_mod_self_left]

/-- **The RVA of the first section**: the address of the first segment, down to its alignment, and
what the addresses are advanced by. -/
theorem CommonAligned.firstSection (h : CommonAligned exec base)
    (hseg : exec.segments = first :: rest) {offset : UInt64}
    (hoffset : headerOffset exec first = .ok offset) {first' : Segment}
    (hfirst : Relocated (base + offset) first first') :
    (first'.vaddr - base).toNat =
      first.vaddr.toNat / first.alignment.toNat * first.alignment.toNat + offset.toNat := by
  obtain ⟨hlow, hhigh⟩ := h.headerOffset_toNat hseg hoffset
  have hmem : first ∈ exec.segments := by
    rw [hseg]
    exact List.mem_cons_self
  have hal : first.alignment.toUInt64.toNat = first.alignment.toNat := UInt32.toNat_toUInt64 _
  have hdown := Nat.div_mul_le_self first.vaddr.toNat first.alignment.toNat
  rw [(h.section_rva hseg hoffset hmem hfirst).1, UInt64.toNat_add, alignDown_toNat, hal]
  apply Nat.mod_eq_of_lt
  by_cases hle : first.vaddr.toNat ≤ 328 + 40 * (exec.segments.length + 1)
  · have hnum := h.segnum
    have hbound := h.alignment_le (List.ne_nil_of_mem hmem)
    have hround := le_roundUp (328 + 40 * (exec.segments.length + 1)) (hlow hle).1
    rw [(hlow hle).2]
    omega
  · have hlt := first.vaddr.toNat_lt
    have h0 : (0 : UInt64).toNat = 0 := rfl
    rw [hhigh hle, h0]
    omega

/-- **The headers end before the first section** exactly if the addresses are advanced, or the
first address is past the headers also when it is aligned down. -/
theorem sizeOfHeaders_le_firstSection_iff {exec' : Executable} {first' : Segment}
    {rest' : List Segment} (h : CommonAligned exec base)
    (h512 : 512 ∣ exec.executableAlignment.toNat) (hseg : exec.segments = first :: rest)
    (hrel : relocateExec exec base = .ok exec') (hseg' : exec'.segments = first' :: rest') :
    (sizeOfHeadersOf exec').toUInt32.toNat ≤ (first'.vaddr - base).toNat ↔
      first.vaddr.toNat ≤ 328 + 40 * (exec.segments.length + 1) ∨
        roundUp (328 + 40 * sectionCount exec) 512
          ≤ first.vaddr.toNat / first.alignment.toNat * first.alignment.toNat := by
  obtain ⟨first₁, rest₁, offset, hseg₁, hoffset, hsegments, hrelocs, -⟩ := relocateExec_inv hrel
  obtain ⟨rfl, rfl⟩ := List.cons.inj (hseg.symm.trans hseg₁)
  have hlength := hsegments.length_eq
  rw [hseg, hseg'] at hsegments
  obtain ⟨hfirst, -⟩ := List.forall₂_cons.mp hsegments
  have hnum := h.segnum
  have hcount : sectionCount exec' = sectionCount exec := by
    simp only [sectionCount, ← hlength, hrelocs, List.map_eq_nil_iff]
  have hbound : sectionCount exec ≤ exec.segments.length + 1 := by
    unfold sectionCount
    split <;> omega
  have hround := le_roundUp (328 + 40 * sectionCount exec) (show 0 < 512 by decide)
  have hsize : (sizeOfHeadersOf exec').toUInt32.toNat
      = roundUp (328 + 40 * sectionCount exec) 512 := by
    rw [UInt64.toNat_toUInt32, sizeOfHeadersOf_toNat (by omega), hcount]
    exact Nat.mod_eq_of_lt (by omega)
  obtain ⟨hlow, hhigh⟩ := h.headerOffset_toNat hseg hoffset
  rw [hsize, h.firstSection hseg hoffset hfirst]
  by_cases hle : first.vaddr.toNat ≤ 328 + 40 * (exec.segments.length + 1)
  · -- the offset is room for one section more, and a multiple of 512 as well
    obtain ⟨hpos, hoff⟩ := hlow hle
    have hroom := le_roundUp (328 + 40 * (exec.segments.length + 1)) hpos
    have hfit := @roundUp_le_of_dvd (328 + 40 * sectionCount exec) offset.toNat 512 (by decide)
      (hoff ▸ h512.trans (dvd_roundUp _ _)) (by omega)
    exact ⟨fun _ => Or.inl hle, fun _ => le_trans hfit (Nat.le_add_left _ _)⟩
  · have h0 : (0 : UInt64).toNat = 0 := rfl
    rw [hhigh hle, h0, Nat.add_zero]
    exact ⟨Or.inr, fun hor => hor.resolve_left hle⟩

end

/-! ## One page -/

/-- A segment of one byte on pages of 0x1000 bytes. -/
def byteSegment (vaddr : UInt64) : Segment where
  vaddr := vaddr
  memsize := 1
  alignment := 0x1000
  flags := SEGMENT_FLAGS_READ
  filesize := 1
  data := ⟨"segment", [1], 1⟩

/-- An executable with that segment and no relocations. -/
def byteExecutable (vaddr : UInt64) : Executable where
  entryAddr := 0
  segments := [byteSegment vaddr]
  dynamic := byteSegment vaddr
  relocs := []
  executableAlignment := 0x1000

theorem commonAligned_byteExecutable (vaddr : UInt64) :
    CommonAligned (byteExecutable vaddr) 0x10000000 where
  segnum := by
    show 1 < 2 ^ 16
    decide
  powers := by
    intro s hs
    obtain rfl := List.mem_singleton.mp hs
    exact ⟨12, rfl⟩
  common := by
    have hgcd : gcd 0x1000 0 = 0x1000 := by rw [gcd, if_pos rfl]
    have hproduct : (0x1000 * (0x1000 / 0x1000) : UInt32) = 0x1000 := by decide
    simp only [execAddressAlignment, byteExecutable, byteSegment, List.foldl_cons, List.foldl_nil,
      hgcd, List.foldlM_cons, List.foldlM_nil, hproduct]
    rfl
  base := by
    show 0x1000 ∣ 0x10000000
    decide

/-- The executable once it is relocated to `base`, with `n` bytes in front of its own one. -/
def relocatedByte (vaddr base : UInt64) (n : Nat) : Executable :=
  { byteExecutable vaddr with
    entryAddr := base
    segments := [{ byteSegment vaddr with
      vaddr := base
      memsize := UInt64.ofNat n + 1
      filesize := UInt64.ofNat n + 1
      data := ⟨"segment", List.replicate n 0 ++ [1], UInt64.ofNat n + 1⟩ }] }

theorem relocateExec_byteExecutable :
    relocateExec (byteExecutable 0x180) 0x10000000
      = .ok (relocatedByte 0x180 0x10001000 0x180) := rfl

theorem relocateExec_byteExecutable_past :
    relocateExec (byteExecutable 0x200) 0x10000000
      = .ok (relocatedByte 0x200 0x10000000 0x200) := rfl

theorem sizeOfHeaders_le_firstSection_iff_byte :
    CommonAligned (byteExecutable 0x180) 0x10000000 ∧
      ((sizeOfHeadersOf (byteExecutable 0x180)).toUInt32.toNat
          ≤ (0x10001000 - 0x10000000 : UInt64).toNat ↔
        0x180 ≤ 328 + 40 * (1 + 1) ∨ roundUp (328 + 40 * 1) 512 ≤ 0x180 / 0x1000 * 0x1000) := by
  have hiff := sizeOfHeaders_le_firstSection_iff (commonAligned_byteExecutable 0x180) (by decide)
    rfl relocateExec_byteExecutable rfl
  exact ⟨commonAligned_byteExecutable 0x180, hiff⟩

/-- A segment at 0x200 is behind the headers of one section, and aligned down to 0. -/
theorem sizeOfHeaders_past_firstSection :
    ∃ exec' first', CommonAligned (byteExecutable 0x200) 0x10000000 ∧
      512 ∣ (byteExecutable 0x200).executableAlignment.toNat ∧
      relocateExec (byteExecutable 0x200) 0x10000000 = .ok exec' ∧ exec'.segments = [first'] ∧
      ¬ (sizeOfHeadersOf exec').toUInt32.toNat ≤ (first'.vaddr - 0x10000000).toNat :=
  ⟨_, _, commonAligned_byteExecutable 0x200, by decide, relocateExec_byteExecutable_past, rfl,
    by decide⟩

end LoliLoader.Elf2Efi
