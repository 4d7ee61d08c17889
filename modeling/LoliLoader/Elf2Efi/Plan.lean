/-
# LoliLoader.Elf2Efi.Plan -- where the segments of an executable go in its image

The plan of an image: by how much its segments are shifted, and the extent of every section. It is
in unbounded arithmetic; for executables that fit, `relocate_exec` follows it.

The plan is a function of the executable and of the base, without reference to the passes. With it
one can say where everything goes before anything has been done: the shift that makes room for the
headers, the start of each section, the relocation table behind the last one, and the size of the
image.

`WellFormed` is what an executable has to be in the first place, and `Fits` what the plan has to
satisfy so that the words of the source are large enough and the image is one: sections apart and
behind the headers, everything below 4 GiB. Both are conditions on the input.

The rest of the module shows that `relocate_exec` does what is planned, segment by segment
(`relocateSegment_ok`), and that the segments are laid out apart when they are in their places.
-/
import LoliLoader.Elf2Efi.Apply
import LoliLoader.Pe.BaseReloc

namespace LoliLoader.Elf2Efi

open C Bytes

/-! ## The plan -/

/-- `n` rounded up to a multiple of `a`, in unbounded arithmetic; for `a` zero it is zero. -/
def roundUp (n a : Nat) : Nat := (n + a - 1) / a * a

theorem le_roundUp (n : Nat) {a : Nat} (ha : 0 < a) : n ≤ roundUp n a ∧ roundUp n a < n + a := by
  have hsum := Nat.div_add_mod' (n + a - 1) a
  have hlt := Nat.mod_lt (n + a - 1) ha
  unfold roundUp
  omega

theorem roundUp_add_dvd {m n a : Nat} (hm : a ∣ m) (ha : 0 < a) :
    roundUp (m + n) a = m + roundUp n a := by
  obtain ⟨k, rfl⟩ := hm
  have hsum : a * k + n + a - 1 = a * k + (n + a - 1) := by omega
  rw [roundUp, roundUp, hsum, Nat.mul_add_div ha, Nat.add_mul, Nat.mul_comm k]

theorem le_roundUp_of_pos {n a : Nat} (ha : 0 < a) (hn : 0 < n) : a ≤ roundUp n a := by
  have hone : 1 ≤ (n + a - 1) / a := by
    rw [Nat.le_div_iff_mul_le ha]
    omega
  have hle := Nat.mul_le_mul_right a hone
  rwa [Nat.one_mul] at hle

namespace Segment

/-- The RVA of the section for a segment that is shifted by `sh`. -/
def start (sh : Nat) (s : Segment) : Nat :=
  (s.vaddr.toNat + sh) / s.alignment.toNat * s.alignment.toNat

/-- How far the section goes down to its alignment. -/
def pad (sh : Nat) (s : Segment) : Nat := (s.vaddr.toNat + sh) % s.alignment.toNat

/-- The addresses of the section, from the image base on. -/
def extent (sh : Nat) (s : Segment) : Extent := ⟨s.start sh, s.memsize.toNat + s.pad sh⟩

theorem mem_extent {sh x : Nat} {s : Segment} :
    x ∈ s.extent sh ↔ s.start sh ≤ x ∧ x < s.start sh + (s.memsize.toNat + s.pad sh) := Iff.rfl

theorem start_add_pad (sh : Nat) (s : Segment) : s.start sh + s.pad sh = s.vaddr.toNat + sh :=
  Nat.div_add_mod' _ _

/-- A segment in its place. -/
def moved (base sh : Nat) (s : Segment) : Segment :=
  { s with
    vaddr := UInt64.ofNat (base + s.start sh)
    memsize := UInt64.ofNat (s.memsize.toNat + s.pad sh)
    filesize := UInt64.ofNat (s.filesize.toNat + s.pad sh)
    data := { s.data with
      rawData := List.replicate (s.pad sh) 0 ++ s.data.rawData
      size := s.data.size + UInt64.ofNat (s.pad sh) } }

end Segment

namespace Executable

/-- By how much the addresses of the ELF file are shifted to make room for the headers. -/
def shift (exec : Executable) : Nat :=
  match exec.segments with
  | [] => 0
  | first :: _ =>
    let headerSize := peImageHeaderSize (UInt64.ofNat exec.segments.length + 1)
    if first.vaddr ≤ headerSize then
      (align headerSize exec.executableAlignment.toUInt64).toUInt32.toNat
    else 0

/-- The RVAs of the relocated words. -/
def relocRvas (exec : Executable) : List Nat := exec.relocs.map fun r => r.vaddr.toNat + exec.shift

/-- The base relocation table. -/
def relocTable (exec : Executable) : List UInt8 := Pe.encode (Pe.blocksOf exec.relocRvas)

/-- The `.reloc` section behind the last segment, if there are relocations. -/
def relocSection (exec : Executable) : Option Extent :=
  if exec.relocs = [] then none
  else exec.segments.getLast?.map fun last =>
    ⟨roundUp (last.vaddr.toNat + exec.shift + last.memsize.toNat) exec.executableAlignment.toNat,
      exec.relocTable.length⟩

/-- `SizeOfImage`: room for `.reloc` is behind the last segment, also when the table is empty. -/
def sizeOfImage (exec : Executable) : Nat :=
  match exec.segments.getLast? with
  | none => 0
  | some last =>
    let alignment := exec.executableAlignment.toNat
    roundUp (roundUp (last.vaddr.toNat + exec.shift + last.memsize.toNat) alignment +
      exec.relocTable.length) alignment

/-- The output sections. -/
def sections (exec : Executable) : List Extent :=
  exec.segments.map (Segment.extent exec.shift) ++ exec.relocSection.toList

/-- `SizeOfHeaders` of the image. -/
def sizeOfHeaders (exec : Executable) : Nat := roundUp (328 + 40 * exec.sections.length) 512

/-- The executable in its place. -/
def moved (exec : Executable) (base : UInt64) : Executable :=
  { exec with
    entryAddr := exec.entryAddr + (base + UInt64.ofNat exec.shift)
    segments := exec.segments.map (Segment.moved base.toNat exec.shift)
    relocs := exec.relocs.map fun r =>
      ⟨r.vaddr + (base + UInt64.ofNat exec.shift), r.addend + (base + UInt64.ofNat exec.shift)⟩ }

end Executable

/-! ## Executables that can be converted -/

/-- A segment as `load_segment` should make it: with all of its memory, cleared behind the bytes of
the file. -/
structure Segment.WellFormed (s : Segment) : Prop where
  alignment : ∃ k, s.alignment.toNat = 2 ^ k
  length : s.data.rawData.length = s.memsize.toNat
  filesize : s.filesize.toNat ≤ s.memsize.toNat
  zeros : ∀ k, s.filesize.toNat ≤ k → s.data.rawData.getD k 0 = 0

/-- An executable as `parse_elf` should make it. The number of segments is bounded because it
comes from the 16 bits of `e_phnum`, and one program header is that of `PT_DYNAMIC`. -/
structure Executable.WellFormed (exec : Executable) : Prop where
  segnum : exec.segments.length < 2 ^ 16 - 1
  sorted : exec.segments.Pairwise fun s t => s.vaddr ≤ t.vaddr
  segment : ∀ s ∈ exec.segments, s.WellFormed
  alignment : 512 ∣ exec.executableAlignment.toNat ∧
    ∀ s ∈ exec.segments, s.alignment.toNat ∣ exec.executableAlignment.toNat
  relocs : exec.relocs.Pairwise fun r r' => r.vaddr.toNat + 8 ≤ r'.vaddr.toNat
  slots : ∀ r ∈ exec.relocs, InSegment exec.segments r
  ends : ∀ r ∈ exec.relocs, OffEnds exec.segments r

/-- An image base: a multiple of the alignment of the image and of pages, and not zero. -/
structure ImageBase (exec : Executable) (base : UInt64) : Prop where
  nonzero : base ≠ 0
  page : 4096 ∣ base.toNat
  alignment : exec.executableAlignment.toNat ∣ base.toNat

/-- The image fits: its sections are disjoint, past the headers, and below 4 GiB; at its base it
is inside the address space. -/
structure Fits (exec : Executable) (base : UInt64) : Prop where
  disjoint : exec.sections.Pairwise Extent.Apart
  headers : ∀ e ∈ exec.sections, exec.sizeOfHeaders ≤ e.start
  below : ∀ e ∈ exec.sections, e.start + e.size < 2 ^ 32
  inside : ∀ e ∈ exec.sections, base.toNat + (e.start + e.size) < 2 ^ 64
  image : base.toNat + exec.sizeOfImage < 2 ^ 64

/-! ## relocate_exec follows the plan -/

theorem mapM_ok {α β ε : Type} {f : α → Except ε β} {g : α → β} {l : List α}
    (h : ∀ x ∈ l, f x = .ok (g x)) : l.mapM f = .ok (l.map g) := by
  induction l with
  | nil => rfl
  | cons x l ih =>
      rw [List.mapM_cons, h x List.mem_cons_self, ih fun y hy => h y (List.mem_cons_of_mem x hy)]
      rfl

theorem toNat_ofNat {n : Nat} (h : n < 2 ^ 64) : (UInt64.ofNat n).toNat = n := by
  rw [UInt64.toNat_ofNat', Nat.mod_eq_of_lt h]

theorem shift_lt (exec : Executable) : exec.shift < 2 ^ 32 := by
  unfold Executable.shift
  split
  · decide
  · dsimp only
    split
    · exact UInt32.toNat_lt _
    · decide

section

variable {exec : Executable} {base : UInt64} {s : Segment} {sh : Nat}

/-- A segment whose section is below 4 GiB in the image, and in the address space at the image
base. -/
structure Segment.Placeable (base : UInt64) (sh : Nat) (s : Segment) : Prop where
  wellFormed : s.WellFormed
  divides : s.alignment.toNat ∣ base.toNat
  below : (s.extent sh).start + (s.extent sh).size < 2 ^ 32
  inside : base.toNat + ((s.extent sh).start + (s.extent sh).size) < 2 ^ 64

theorem Segment.WellFormed.alignment_pos (h : s.WellFormed) : 0 < s.alignment.toNat := by
  obtain ⟨k, hk⟩ := h.alignment
  rw [hk]
  exact Nat.two_pow_pos k

/-- The end of a section is the end of its segment. -/
theorem Segment.Placeable.end_lt (h : s.Placeable base sh) :
    s.vaddr.toNat + sh + s.memsize.toNat < 2 ^ 32 ∧
      base.toNat + (s.vaddr.toNat + sh + s.memsize.toNat) < 2 ^ 64 := by
  have hsum := s.start_add_pad sh
  have hbelow := h.below
  have hinside := h.inside
  dsimp only [Segment.extent] at hbelow hinside
  omega

/-- **The body of the loop** puts a segment in its place, as the plan has it. -/
theorem relocateSegment_ok (h : s.Placeable base sh) :
    relocateSegment (base + UInt64.ofNat sh) s = .ok (s.moved base.toNat sh) := by
  obtain ⟨hend, hend'⟩ := h.end_lt
  have hpos := h.wellFormed.alignment_pos
  have hsum := s.start_add_pad sh
  have hpadlt : s.pad sh < s.alignment.toNat := Nat.mod_lt _ hpos
  have hallt := s.alignment.toNat_lt
  have hal : s.alignment.toUInt64.toNat = s.alignment.toNat := UInt32.toNat_toUInt64 _
  have hne : s.alignment.toUInt64 ≠ 0 := by
    intro hc
    rw [hc] at hal
    have h0 : (0 : UInt64).toNat = 0 := rfl
    omega
  have hvaddr : (s.vaddr + (base + UInt64.ofNat sh)).toNat
      = base.toNat + (s.vaddr.toNat + sh) := by
    rw [UInt64.toNat_add, UInt64.toNat_add, toNat_ofNat (by omega)]
    omega
  -- the base is a multiple of the alignment: aligning down is the same before and after it is added
  have hdown : (alignDown (s.vaddr + (base + UInt64.ofNat sh)) s.alignment.toUInt64).toNat
      = base.toNat + s.start sh := by
    obtain ⟨k, hk⟩ := h.divides
    rw [alignDown, UInt64.toNat_mul, UInt64.toNat_div, hvaddr, hal, hk, Nat.mul_add_div hpos,
      Nat.add_mul, Nat.mul_comm k, ← hk]
    exact Nat.mod_eq_of_lt (by show base.toNat + s.start sh < 2 ^ 64; omega)
  have haligned : alignDown (s.vaddr + (base + UInt64.ofNat sh)) s.alignment.toUInt64
      = UInt64.ofNat (base.toNat + s.start sh) := by
    apply UInt64.toNat_inj.mp
    rw [hdown, toNat_ofNat (by omega)]
  have hoffset : ((s.vaddr + (base + UInt64.ofNat sh))
      - UInt64.ofNat (base.toNat + s.start sh)).toUInt32.toNat = s.pad sh := by
    have hle : UInt64.ofNat (base.toNat + s.start sh)
        ≤ s.vaddr + (base + UInt64.ofNat sh) := by
      rw [UInt64.le_iff_toNat_le, hvaddr, toNat_ofNat (by omega)]
      omega
    rw [UInt64.toNat_toUInt32, UInt64.toNat_sub_of_le _ _ hle, hvaddr, toNat_ofNat (by omega)]
    omega
  have hoffset' : ((s.vaddr + (base + UInt64.ofNat sh))
      - UInt64.ofNat (base.toNat + s.start sh)).toUInt32.toUInt64 = UInt64.ofNat (s.pad sh) := by
    apply UInt64.toNat_inj.mp
    rw [UInt32.toNat_toUInt64, hoffset, toNat_ofNat (by omega)]
  have hsize : s.memsize + UInt64.ofNat (s.pad sh)
      = UInt64.ofNat (s.memsize.toNat + s.pad sh) := by
    rw [UInt64.ofNat_add, UInt64.ofNat_toNat]
  have hfile : s.filesize + UInt64.ofNat (s.pad sh)
      = UInt64.ofNat (s.filesize.toNat + s.pad sh) := by
    rw [UInt64.ofNat_add, UInt64.ofNat_toNat]
  -- there is room for the data behind the bytes that aligning down has added
  have hcopy : copyBehind (s.pad sh) s.memsize.toNat
      (UInt64.ofNat (s.memsize.toNat + s.pad sh)).toNat s.data.rawData
      = .ok (List.replicate (s.pad sh) 0 ++ s.data.rawData) := by
    have hlen := h.wellFormed.length
    rw [copyBehind, toNat_ofNat (by omega), if_neg (by omega), if_neg (by omega),
      List.take_of_length_le (by omega)]
  unfold relocateSegment
  dsimp only
  rw [haligned, hoffset, hoffset', hsize, hfile, hcopy, divisor, if_neg hne]
  rfl

theorem Fits.placeable (h : Fits exec base) (hw : exec.WellFormed) (hb : ImageBase exec base)
    (hs : s ∈ exec.segments) : s.Placeable base exec.shift where
  wellFormed := hw.segment s hs
  divides := (hw.alignment.2 s hs).trans hb.alignment
  below := h.below _ (List.mem_append_left _ (List.mem_map_of_mem hs))
  inside := h.inside _ (List.mem_append_left _ (List.mem_map_of_mem hs))

/-- An image base is not zero, and neither is the alignment that divides it. -/
theorem ImageBase.alignment_ne (h : ImageBase exec base) :
    exec.executableAlignment.toUInt64 ≠ 0 := by
  intro hzero
  have hal : exec.executableAlignment.toUInt64.toNat = exec.executableAlignment.toNat :=
    UInt32.toNat_toUInt64 _
  have hdvd := h.alignment
  rw [← hal, hzero] at hdvd
  apply h.nonzero
  apply UInt64.toNat_inj.mp
  exact Nat.eq_zero_of_zero_dvd hdvd

theorem headerOffset_ok {first : Segment} {rest : List Segment}
    (hseg : exec.segments = first :: rest) (hne : exec.executableAlignment.toUInt64 ≠ 0) :
    headerOffset exec first = .ok (UInt64.ofNat exec.shift) := by
  unfold headerOffset Executable.shift
  rw [hseg]
  dsimp only
  split
  · rw [divisor, if_neg hne]
    show Except.ok _ = _
    congr 1
    apply UInt64.toNat_inj.mp
    rw [UInt32.toNat_toUInt64, toNat_ofNat (lt_trans (UInt32.toNat_lt _) (by decide))]
  · rfl

/-- **`relocate_exec`** follows the plan, for an executable that is well formed and fits. -/
theorem relocateExec_ok (hw : exec.WellFormed) (hb : ImageBase exec base) (h : Fits exec base)
    (hne : exec.segments ≠ []) : relocateExec exec base = .ok (exec.moved base) := by
  obtain ⟨first, rest, hseg⟩ := List.exists_cons_of_ne_nil hne
  have hmap : exec.segments.mapM (relocateSegment (base + UInt64.ofNat exec.shift))
      = .ok (exec.segments.map (Segment.moved base.toNat exec.shift)) :=
    mapM_ok fun s hs => relocateSegment_ok (h.placeable hw hb hs)
  unfold relocateExec
  split
  · exact absurd ‹_› hne
  · rename_i first' rest' hseg'
    rw [headerOffset_ok hseg' hb.alignment_ne]
    show (exec.segments.mapM (relocateSegment (base + UInt64.ofNat exec.shift)) >>= _) = _
    rw [hmap]
    rfl

/-! ## The segments in their places -/

theorem Segment.Placeable.moved_toNat (h : s.Placeable base sh) :
    (s.moved base.toNat sh).vaddr.toNat = base.toNat + s.start sh ∧
      (s.moved base.toNat sh).memsize.toNat = s.memsize.toNat + s.pad sh ∧
      (s.moved base.toNat sh).filesize.toNat = s.filesize.toNat + s.pad sh := by
  have hinside := h.inside
  have hfile := h.wellFormed.filesize
  dsimp only [Segment.extent] at hinside
  exact ⟨toNat_ofNat (by omega), toNat_ofNat (by omega), toNat_ofNat (by omega)⟩

theorem Segment.Placeable.range_moved (h : s.Placeable base sh) :
    (s.moved base.toNat sh).range
      = ⟨base.toNat + (s.extent sh).start, (s.extent sh).size⟩ := by
  obtain ⟨hvaddr, hmemsize, -⟩ := h.moved_toNat
  rw [Segment.range, hvaddr, hmemsize]
  rfl

theorem getD_replicate_append (n : Nat) (l : List UInt8) (k : Nat) :
    (List.replicate n 0 ++ l).getD k 0 = if n ≤ k then l.getD (k - n) 0 else 0 := by
  rw [List.getD_eq_getElem?_getD]
  by_cases hk : n ≤ k
  · rw [List.getElem?_append_right (by simpa using hk), if_pos hk, List.length_replicate,
      List.getD_eq_getElem?_getD]
  · rw [List.getElem?_append_left (by simpa using hk), if_neg hk, List.getElem?_replicate,
      if_pos (by omega)]
    rfl

theorem Segment.Placeable.sound_moved (h : s.Placeable base sh) :
    (s.moved base.toNat sh).Sound := by
  obtain ⟨hvaddr, hmemsize, hfilesize⟩ := h.moved_toNat
  have hinside := h.inside
  have hfile := h.wellFormed.filesize
  have hlen := h.wellFormed.length
  dsimp only [Segment.extent] at hinside
  refine ⟨?_, ?_, ?_, ?_⟩
  · rw [hvaddr, hmemsize]
    omega
  · rw [hmemsize]
    show (List.replicate (s.pad sh) 0 ++ s.data.rawData).length = _
    rw [List.length_append, List.length_replicate]
    omega
  · rw [UInt64.le_iff_toNat_le, hfilesize, hmemsize]
    omega
  · intro k hk
    rw [hfilesize] at hk
    show (List.replicate (s.pad sh) 0 ++ s.data.rawData).getD k 0 = 0
    rw [getD_replicate_append]
    split
    · exact h.wellFormed.zeros _ (by omega)
    · rfl

/-- **The segments in their places** are laid out apart, so that they are one memory. -/
theorem laid_moved (hw : exec.WellFormed) (hb : ImageBase exec base) (h : Fits exec base) :
    Laid (exec.moved base).segments := by
  refine ⟨?_, ?_⟩
  · intro t ht
    obtain ⟨s, hs, rfl⟩ := List.mem_map.mp ht
    exact (h.placeable hw hb hs).sound_moved
  · have hdisjoint := h.disjoint
    unfold Executable.sections at hdisjoint
    rw [List.pairwise_append, List.pairwise_map] at hdisjoint
    show (exec.segments.map (Segment.moved base.toNat exec.shift)).Pairwise _
    rw [List.pairwise_map]
    refine hdisjoint.1.imp_of_mem fun {s t} hs ht hapart => ?_
    rw [(h.placeable hw hb hs).range_moved, (h.placeable hw hb ht).range_moved]
    exact hapart.add base.toNat

/-- The slots of the relocations move with their segments. -/
theorem inSegment_moved (hw : exec.WellFormed) (hb : ImageBase exec base) (h : Fits exec base)
    {r : ExecReloc} (hr : r ∈ exec.relocs) :
    (r.vaddr + (base + UInt64.ofNat exec.shift)).toNat
        = base.toNat + (r.vaddr.toNat + exec.shift) ∧
      r.vaddr.toNat + exec.shift + 8 < 2 ^ 32 ∧
      InSegment (exec.moved base).segments
        ⟨r.vaddr + (base + UInt64.ofNat exec.shift), r.addend + (base + UInt64.ofNat exec.shift)⟩ ∧
      OffEnds (exec.moved base).segments
        ⟨r.vaddr + (base + UInt64.ofNat exec.shift),
          r.addend + (base + UInt64.ofNat exec.shift)⟩ := by
  obtain ⟨s, hs, hle, hin, hside⟩ := hw.slots r hr
  have hplace := h.placeable hw hb hs
  obtain ⟨hend, hend'⟩ := hplace.end_lt
  have hsh := shift_lt exec
  have hvaddr : (r.vaddr + (base + UInt64.ofNat exec.shift)).toNat
      = base.toNat + (r.vaddr.toNat + exec.shift) := by
    rw [UInt64.toNat_add, UInt64.toNat_add, toNat_ofNat (by omega)]
    omega
  refine ⟨hvaddr, by omega, ?_, ?_⟩
  · refine ⟨_, List.mem_map_of_mem hs, ?_⟩
    obtain ⟨hvaddr', hmemsize, hfilesize⟩ := hplace.moved_toNat
    have hsum := s.start_add_pad exec.shift
    dsimp only
    rw [hvaddr, hvaddr', hmemsize, hfilesize]
    omega
  · intro t ht
    obtain ⟨u, hu, rfl⟩ := List.mem_map.mp ht
    have hsum := u.start_add_pad exec.shift
    have hoff := hw.ends r hr u hu
    obtain ⟨hvaddr', hmemsize, -⟩ := (h.placeable hw hb hu).moved_toNat
    dsimp only
    rw [hvaddr, hvaddr', hmemsize]
    omega

end

end LoliLoader.Elf2Efi
