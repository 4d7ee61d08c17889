/-
# LoliLoader.Elf2Efi.Apply -- what apply_relocs does

Segments that are laid out apart from each other are one memory. `apply_relocs` stores words in it,
one for each relocation, and keeps the file-backed part of every segment so large that behind it
there are only zeros.

The memory is `flat`, a function of the address, and storing a word changes it at the eight bytes of
the slot (`flat_patched`). So the loop over the relocations is, seen from the memory, a sequence of
words that are written; it does not matter which segment a word goes to.

`Laid` is the invariant. It has the shapes of the segments, which never change, and for each segment
that its data are what they should be, with zeros behind the file-backed part. A store makes that
part longer when the slot is behind it, and then the zeros in between become part of it.

Two hypotheses stand for what `data_at_vaddr` does not check: slots are inside their segments and do
not cross the end of the file-backed part (`InSegment`), and none starts where some segment ends
(`OffEnds`). `Elf2Efi.Slots` has the exact conditions instead.
-/
import LoliLoader.Elf2Efi.Relocate
import LoliLoader.Bytes.Space

namespace LoliLoader.Elf2Efi

open C Bytes

namespace Segment

/-- The addresses of a segment, from its first one on, as many as it has in memory. -/
def range (s : Segment) : Extent := ⟨s.vaddr.toNat, s.memsize.toNat⟩

theorem mem_range {s : Segment} {x : Nat} :
    x ∈ s.range ↔ s.vaddr.toNat ≤ x ∧ x < s.vaddr.toNat + s.memsize.toNat := Iff.rfl

/-- The data of a segment is all of its memory, and zero behind the file-backed part, so that
nothing is lost when only that part is written. -/
structure Sound (s : Segment) : Prop where
  fits : s.vaddr.toNat + s.memsize.toNat < 2 ^ 64
  length : s.data.rawData.length = s.memsize.toNat
  filesize : s.filesize ≤ s.memsize
  zeros : ∀ k, s.filesize.toNat ≤ k → s.data.rawData.getD k 0 = 0

/-- What `apply_relocs` does not change: where the segment is, how large, and its rights. -/
def shape (s : Segment) : UInt64 × UInt64 × UInt32 × UInt32 :=
  (s.vaddr, s.memsize, s.alignment, s.flags)

theorem range_of_shape {s t : Segment} (h : s.shape = t.shape) : s.range = t.range := by
  have h₁ : s.vaddr = t.vaddr := congrArg Prod.fst h
  have h₂ : s.memsize = t.memsize := congrArg (fun x => x.2.1) h
  rw [range, range, h₁, h₂]

/-- The end counts as covered. An end past the address space wraps around and covers nothing. -/
theorem of_covers {s : Segment} {v : UInt64} (h : s.covers v = true) :
    v.toNat ∈ s.range ∨ v.toNat = s.vaddr.toNat + s.memsize.toNat := by
  rw [covers, decide_eq_true_iff, UInt64.le_iff_toNat_le, UInt64.le_iff_toNat_le,
    UInt64.toNat_add] at h
  have hle := Nat.mod_le (s.vaddr.toNat + s.memsize.toNat) (2 ^ 64)
  rw [mem_range]
  omega

theorem covers_iff {s : Segment} (h : s.vaddr.toNat + s.memsize.toNat < 2 ^ 64) (v : UInt64) :
    s.covers v ↔ v.toNat ∈ s.range ∨ v.toNat = s.vaddr.toNat + s.memsize.toNat := by
  have hsum : (s.vaddr + s.memsize).toNat = s.vaddr.toNat + s.memsize.toNat := by
    rw [UInt64.toNat_add, Nat.mod_eq_of_lt h]
  rw [covers, decide_eq_true_iff, UInt64.le_iff_toNat_le, UInt64.le_iff_toNat_le, hsum,
    mem_range]
  omega

end Segment

/-- Segments with the data they should have, and apart from each other in memory. -/
structure Laid (segments : List Segment) : Prop where
  sound : ∀ s ∈ segments, s.Sound
  apart : segments.Pairwise fun s t => s.range.Apart t.range

/-- The memory that the segments are: the data of each at its address, and zeros elsewhere. -/
def flat (segments : List Segment) : Space :=
  Space.zero.writeAll (segments.map fun s => (s.vaddr.toNat, s.data.rawData))

/-- The slot of a relocation is in a segment and does not cross the end of its file-backed
part. -/
def InSegment (segments : List Segment) (r : ExecReloc) : Prop :=
  ∃ s ∈ segments, s.vaddr.toNat ≤ r.vaddr.toNat ∧
    r.vaddr.toNat + 8 ≤ s.vaddr.toNat + s.memsize.toNat ∧
    (r.vaddr.toNat + 8 ≤ s.vaddr.toNat + s.filesize.toNat ∨
      s.vaddr.toNat + s.filesize.toNat ≤ r.vaddr.toNat)

/-- A relocation starts where no segment ends, so that no segment is taken for it only because its
end counts as covered. -/
def OffEnds (segments : List Segment) (r : ExecReloc) : Prop :=
  ∀ s ∈ segments, r.vaddr.toNat ≠ s.vaddr.toNat + s.memsize.toNat

theorem flat_mem {segments : List Segment} (h : Laid segments) {s : Segment} (hs : s ∈ segments)
    {x : Nat} (hx : x ∈ s.range) :
    flat segments x = s.data.rawData.getD (x - s.vaddr.toNat) 0 :=
  Space.writeAll_mem (fun t ht => le_of_eq (h.sound t ht).length) h.apart hs hx

theorem flat_not_mem {segments : List Segment} (h : Laid segments) {x : Nat}
    (hx : ∀ s ∈ segments, x ∉ s.range) : flat segments x = 0 :=
  Space.writeAll_not_mem (fun t ht => le_of_eq (h.sound t ht).length) hx

/-! ## One relocation -/

/-- A segment with the word of a relocation stored in it. -/
def Segment.patched (s : Segment) (r : ExecReloc) : Segment :=
  { s with
    filesize := if r.vaddr - s.vaddr ≥ s.filesize then r.vaddr - s.vaddr + 8 else s.filesize
    data := { s.data with
      rawData := s.data.rawData.take (r.vaddr - s.vaddr).toNat ++ leBytes 8 r.addend.toNat ++
        s.data.rawData.drop ((r.vaddr - s.vaddr).toNat + 8) } }

section

variable {s : Segment} {r : ExecReloc}

theorem getD_patched {l bs : List UInt8} {p : Nat} (h : p + bs.length ≤ l.length) (k : Nat) :
    (l.take p ++ bs ++ l.drop (p + bs.length)).getD k 0
      = if p ≤ k ∧ k < p + bs.length then bs.getD (k - p) 0 else l.getD k 0 := by
  have hp : (l.take p).length = p := by
    rw [List.length_take]
    omega
  simp only [List.getD_eq_getElem?_getD, List.append_assoc]
  by_cases h₁ : k < p
  · rw [List.getElem?_append_left (by omega), List.getElem?_take_of_lt h₁, if_neg (by omega)]
  · rw [List.getElem?_append_right (by omega), hp]
    by_cases h₂ : k < p + bs.length
    · rw [List.getElem?_append_left (by omega), if_pos (by omega)]
    · have hidx : p + bs.length + (k - p - bs.length) = k := by omega
      rw [List.getElem?_append_right (by omega), if_neg (by omega), List.getElem?_drop, hidx]

/-- The slot of the relocation as an offset in the data: inside the segment, and on one side of the
end of its file-backed part. -/
structure Segment.Slot (s : Segment) (r : ExecReloc) (p : Nat) : Prop where
  offset : (r.vaddr - s.vaddr).toNat = p
  vaddr : r.vaddr.toNat = s.vaddr.toNat + p
  inside : p + 8 ≤ s.memsize.toNat
  side : p + 8 ≤ s.filesize.toNat ∨ s.filesize.toNat ≤ p

theorem Segment.Slot.of {segments : List Segment} (hr : InSegment segments r) :
    ∃ s ∈ segments, ∃ p, s.Slot r p := by
  obtain ⟨s, hs, hle, hin, hside⟩ := hr
  have hsub : (r.vaddr - s.vaddr).toNat = r.vaddr.toNat - s.vaddr.toNat :=
    UInt64.toNat_sub_of_le _ _ (UInt64.le_iff_toNat_le.mpr hle)
  exact ⟨s, hs, _, hsub, by omega, by omega, by omega⟩

/-- The slot is in the memory of the segment, wherever the file-backed part ends, which may be
within the slot. -/
structure Segment.Within (s : Segment) (r : ExecReloc) (p : Nat) : Prop where
  offset : (r.vaddr - s.vaddr).toNat = p
  vaddr : r.vaddr.toNat = s.vaddr.toNat + p
  inside : p + 8 ≤ s.memsize.toNat

theorem Segment.Slot.within {p : Nat} (h : s.Slot r p) : s.Within r p :=
  ⟨h.offset, h.vaddr, h.inside⟩

/-- The file-backed part after a store at offset `p`. -/
theorem Segment.Within.filesize_patched {p : Nat} (h : s.Within r p) :
    (s.patched r).filesize.toNat = if s.filesize.toNat ≤ p then p + 8 else s.filesize.toNat := by
  have hlt := s.memsize.toNat_lt
  have hin := h.inside
  have h8 : (8 : UInt64).toNat = 8 := rfl
  show (if r.vaddr - s.vaddr ≥ s.filesize then r.vaddr - s.vaddr + 8 else s.filesize).toNat = _
  by_cases hge : s.filesize.toNat ≤ p
  · rw [if_pos hge, if_pos (by rw [ge_iff_le, UInt64.le_iff_toNat_le, h.offset]; exact hge),
      UInt64.toNat_add, h.offset, h8]
    exact Nat.mod_eq_of_lt (by omega)
  · rw [if_neg hge, if_neg (by rw [ge_iff_le, UInt64.le_iff_toNat_le, h.offset]; exact hge)]

theorem Segment.Within.length_patched {p : Nat} (h : s.Within r p)
    (hlen : s.data.rawData.length = s.memsize.toNat) :
    (s.patched r).data.rawData.length = s.memsize.toNat := by
  have hin := h.inside
  show (s.data.rawData.take (r.vaddr - s.vaddr).toNat ++ leBytes 8 r.addend.toNat ++
    s.data.rawData.drop ((r.vaddr - s.vaddr).toNat + 8)).length = s.memsize.toNat
  rw [h.offset]
  simp only [List.length_append, List.length_take, List.length_drop, length_leBytes]
  omega

theorem Segment.Within.getD_patched {p : Nat} (h : s.Within r p)
    (hlen : s.data.rawData.length = s.memsize.toNat) (k : Nat) :
    (s.patched r).data.rawData.getD k 0
      = if p ≤ k ∧ k < p + 8 then (leBytes 8 r.addend.toNat).getD (k - p) 0
        else s.data.rawData.getD k 0 := by
  have hin := h.inside
  have := @Elf2Efi.getD_patched s.data.rawData (leBytes 8 r.addend.toNat) p
    (by rw [length_leBytes]; omega) k
  rw [length_leBytes] at this
  rw [← this, ← h.offset]
  rfl

/-- **A patched segment** is as it should be: the file-backed part has grown over the slot, and
behind it there are zeros. -/
theorem Segment.Slot.sound_patched {p : Nat} (h : s.Slot r p) (hs : s.Sound) :
    (s.patched r).Sound := by
  have hin := h.inside
  have hlen := hs.length
  have hfile := hs.filesize
  rw [UInt64.le_iff_toNat_le] at hfile
  refine ⟨hs.fits, h.within.length_patched hlen, ?_, ?_⟩
  · rw [UInt64.le_iff_toNat_le, h.within.filesize_patched]
    show _ ≤ s.memsize.toNat
    split <;> omega
  · intro k hk
    rw [h.within.filesize_patched] at hk
    rw [h.within.getD_patched hlen]
    have hside := h.side
    split at hk
    · rw [if_neg (by omega), hs.zeros k (by omega)]
    · rw [if_neg (by omega), hs.zeros k (by omega)]

end

theorem getElem?_of_eq_append {l pre post : List Segment} {s : Segment}
    (h : l = pre ++ s :: post) : l[pre.length]? = some s := by
  rw [h, List.getElem?_append_right (le_refl _), Nat.sub_self, List.getElem?_cons_zero]

theorem mem_of_eq_append {l pre post : List Segment} {s : Segment} (h : l = pre ++ s :: post) :
    s ∈ l := by
  rw [h]
  exact List.mem_append_right _ List.mem_cons_self

/-- `data_at_vaddr` takes the first segment that covers the address. -/
theorem dataAtVaddr_first {exec : Executable} {pre post : List Segment} {s : Segment}
    {v size : UInt64} {purpose : String} (hseg : exec.segments = pre ++ s :: post)
    (hself : s.covers v = true) (hother : ∀ t ∈ pre, t.covers v = false) :
    dataAtVaddr exec purpose v size = .ok (pre.length, v - s.vaddr) := by
  have hnone : pre.zipIdx.find? (fun t => t.1.covers v) = none := by
    rw [List.find?_eq_none]
    intro t ht
    rw [hother t.1 (List.fst_mem_of_mem_zipIdx ht)]
    simp
  have hfind : exec.segments.zipIdx.find? (fun t => t.1.covers v) = some (s, pre.length) := by
    rw [hseg, List.zipIdx_append, List.find?_append, hnone, List.zipIdx_cons]
    simp [hself]
  rw [dataAtVaddr, hfind]

/-- Among segments that are apart, it is the one that the address is in, unless one before it in
the array ends at the address: the end of a segment counts as covered. -/
theorem dataAtVaddr_ok {exec : Executable} {pre post : List Segment} {s : Segment}
    {v size : UInt64} {purpose : String} (hseg : exec.segments = pre ++ s :: post)
    (h : exec.segments.Pairwise fun s t => s.range.Apart t.range) (hv : v.toNat ∈ s.range)
    (hfits : s.vaddr.toNat + s.memsize.toNat < 2 ^ 64)
    (hends : ∀ t ∈ pre, v.toNat ≠ t.vaddr.toNat + t.memsize.toNat) :
    dataAtVaddr exec purpose v size = .ok (pre.length, v - s.vaddr) := by
  apply dataAtVaddr_first hseg ((Segment.covers_iff hfits v).mpr (Or.inl hv))
  intro t ht
  rw [hseg, List.pairwise_append] at h
  have hnot : v.toNat ∉ t.range := (h.2.2 t ht s List.mem_cons_self).symm v.toNat hv
  rw [← Bool.not_eq_true]
  intro hc
  rcases Segment.of_covers hc with hc | hc
  · exact hnot hc
  · exact hends t ht hc

/-- **One relocation** patches the segment it is in, as long as no segment before that one ends
where the slot starts. -/
theorem applyReloc_ok {exec : Executable} {pre post : List Segment} {s : Segment}
    {r : ExecReloc} {p : Nat} (hseg : exec.segments = pre ++ s :: post)
    (h : exec.segments.Pairwise fun s t => s.range.Apart t.range)
    (hlen : s.data.rawData.length = s.memsize.toNat)
    (hfits : s.vaddr.toNat + s.memsize.toNat < 2 ^ 64) (hslot : s.Within r p)
    (hends : ∀ t ∈ pre, r.vaddr.toNat ≠ t.vaddr.toNat + t.memsize.toNat) :
    applyReloc exec r = .ok { exec with segments := pre ++ s.patched r :: post } := by
  have hin := hslot.inside
  have hv : r.vaddr.toNat ∈ s.range := by
    rw [hslot.vaddr, Segment.mem_range]
    omega
  have hstore : storeAt s.data.rawData (r.vaddr - s.vaddr).toNat (leBytes 8 r.addend.toNat)
      = .ok (s.patched r).data.rawData := by
    rw [storeAt, if_neg (by rw [length_leBytes, hslot.offset]; omega), length_leBytes]
    rfl
  have hset : exec.segments.set pre.length (s.patched r) = pre ++ s.patched r :: post := by
    rw [hseg, List.set_append_right _ _ (le_refl _), Nat.sub_self, List.set_cons_zero]
  unfold applyReloc
  rw [dataAtVaddr_ok hseg h hv hfits hends]
  dsimp only [bind, Except.bind]
  rw [getElem?_of_eq_append hseg]
  dsimp only
  rw [hstore]
  show Except.ok { exec with segments := exec.segments.set pre.length (s.patched r) } = _
  rw [hset]

/-! ## All relocations -/

section

variable {pre post : List Segment} {s : Segment} {r : ExecReloc} {p : Nat}

theorem laid_patched (h : Laid (pre ++ s :: post)) (hslot : s.Slot r p) :
    Laid (pre ++ s.patched r :: post) := by
  have hs := h.sound s (List.mem_append_right _ List.mem_cons_self)
  refine ⟨?_, ?_⟩
  · intro t ht
    rcases List.mem_append.mp ht with ht | ht
    · exact h.sound t (List.mem_append_left _ ht)
    · rcases List.mem_cons.mp ht with rfl | ht
      · exact hslot.sound_patched hs
      · exact h.sound t (List.mem_append_right _ (List.mem_cons_of_mem s ht))
  · have hapart := h.apart
    rw [List.pairwise_append, List.pairwise_cons] at hapart ⊢
    obtain ⟨hpre, ⟨hs, hpost⟩, hboth⟩ := hapart
    refine ⟨hpre, ⟨hs, hpost⟩, fun t ht u hu => ?_⟩
    rcases List.mem_cons.mp hu with rfl | hu
    · exact hboth t ht s List.mem_cons_self
    · exact hboth t ht u (List.mem_cons_of_mem s hu)

/-- The memory gets the word of the relocation. -/
theorem flat_patched (h : Laid (pre ++ s :: post)) (hslot : s.Slot r p) :
    flat (pre ++ s.patched r :: post)
      = (flat (pre ++ s :: post)).write r.vaddr.toNat (leBytes 8 r.addend.toNat) := by
  have h' := laid_patched h hslot
  have hs : s ∈ pre ++ s :: post := List.mem_append_right _ List.mem_cons_self
  have hs' : s.patched r ∈ pre ++ s.patched r :: post :=
    List.mem_append_right _ List.mem_cons_self
  have hvaddr := hslot.vaddr
  have hin := hslot.inside
  funext x
  by_cases hx : x ∈ s.range
  · have hle : s.vaddr.toNat ≤ x := hx.1
    rw [flat_mem h' hs' hx]
    show (s.patched r).data.rawData.getD (x - s.vaddr.toNat) 0 = _
    rw [hslot.within.getD_patched (h.sound s hs).length]
    by_cases hslotx : x ∈ Extent.mk r.vaddr.toNat (leBytes 8 r.addend.toNat).length
    · have hsub : x - s.vaddr.toNat - p = x - r.vaddr.toNat := by omega
      rw [Space.write_mem hslotx, ← hsub]
      rw [length_leBytes, Extent.mem_mk] at hslotx
      rw [if_pos (by omega)]
    · rw [Space.write_not_mem hslotx, flat_mem h hs hx]
      rw [length_leBytes, Extent.mem_mk] at hslotx
      rw [if_neg (by omega)]
  · -- outside of the segment nothing has changed
    have hslotx : x ∉ Extent.mk r.vaddr.toNat (leBytes 8 r.addend.toNat).length := by
      rw [length_leBytes]
      intro hc
      apply hx
      rw [Extent.mem_mk] at hc
      rw [Segment.mem_range]
      omega
    rw [Space.write_not_mem hslotx]
    by_cases hother : ∃ t ∈ pre ++ post, x ∈ t.range
    · obtain ⟨t, ht, hxt⟩ := hother
      have hmem : ∀ u, t ∈ pre ++ u :: post := by
        intro u
        rcases List.mem_append.mp ht with ht | ht
        · exact List.mem_append_left _ ht
        · exact List.mem_append_right _ (List.mem_cons_of_mem u ht)
      rw [flat_mem h' (hmem _) hxt, flat_mem h (hmem _) hxt]
    · have hnone : ∀ u, x ∉ u.range → ∀ t ∈ pre ++ u :: post, x ∉ t.range := by
        intro u hu t ht hxt
        rcases List.mem_append.mp ht with ht | ht
        · exact hother ⟨t, List.mem_append_left _ ht, hxt⟩
        · rcases List.mem_cons.mp ht with rfl | ht
          · exact hu hxt
          · exact hother ⟨t, List.mem_append_right _ ht, hxt⟩
      rw [flat_not_mem h' (hnone _ hx), flat_not_mem h (hnone _ hx)]

/-- Later relocations stay in their segments. -/
theorem inSegment_patched {r' : ExecReloc} (hslot : s.Slot r p)
    (hnext : r.vaddr.toNat + 8 ≤ r'.vaddr.toNat) (h : InSegment (pre ++ s :: post) r') :
    InSegment (pre ++ s.patched r :: post) r' := by
  obtain ⟨t, ht, hle, hin, hside⟩ := h
  rcases List.mem_append.mp ht with ht | ht
  · exact ⟨t, List.mem_append_left _ ht, hle, hin, hside⟩
  · rcases List.mem_cons.mp ht with rfl | ht
    · refine ⟨t.patched r, List.mem_append_right _ List.mem_cons_self, hle, hin, ?_⟩
      have hvaddr := hslot.vaddr
      -- the file-backed part grows up to the end of this slot, and the next one starts behind it
      rw [hslot.within.filesize_patched]
      show _ ≤ t.vaddr.toNat + _ ∨ t.vaddr.toNat + _ ≤ _
      split <;> omega
    · exact ⟨t, List.mem_append_right _ (List.mem_cons_of_mem _ ht), hle, hin, hside⟩

end

theorem offEnds_of_shape {segments segments' : List Segment} {r : ExecReloc}
    (hshape : segments'.map Segment.shape = segments.map Segment.shape)
    (h : OffEnds segments r) : OffEnds segments' r := by
  intro t ht
  have hmem : t.shape ∈ segments.map Segment.shape := hshape ▸ List.mem_map_of_mem ht
  obtain ⟨u, hu, heq⟩ := List.mem_map.mp hmem
  have h₁ : u.vaddr = t.vaddr := congrArg Prod.fst heq
  have h₂ : u.memsize = t.memsize := congrArg (fun x => x.2.1) heq
  rw [← h₁, ← h₂]
  exact h u hu

/-- What `apply_relocs` gives: segments of the same shape, laid out as before, whose memory has
the words of the relocations. -/
structure Applied (exec exec' : Executable) (relocs : List ExecReloc) : Prop where
  laid : Laid exec'.segments
  shape : exec'.segments.map Segment.shape = exec.segments.map Segment.shape
  flat : flat exec'.segments = (flat exec.segments).writeAll
    (relocs.map fun r => (r.vaddr.toNat, leBytes 8 r.addend.toNat))
  rest : exec' = { exec with segments := exec'.segments }

/-- The loop, from any point on. -/
theorem applyRelocs_foldlM {exec : Executable} {relocs : List ExecReloc}
    (h : Laid exec.segments)
    (hsorted : relocs.Pairwise fun r r' => r.vaddr.toNat + 8 ≤ r'.vaddr.toNat)
    (hin : ∀ r ∈ relocs, InSegment exec.segments r)
    (hends : ∀ r ∈ relocs, OffEnds exec.segments r) :
    ∃ exec', relocs.foldlM applyReloc exec = .ok exec' ∧ Applied exec exec' relocs := by
  induction relocs generalizing exec with
  | nil => exact ⟨exec, rfl, h, rfl, rfl, rfl⟩
  | cons r relocs ih =>
      rw [List.pairwise_cons] at hsorted
      obtain ⟨s, hs, p, hslot⟩ := Segment.Slot.of (hin r List.mem_cons_self)
      obtain ⟨pre, post, hseg⟩ := List.append_of_mem hs
      have hbefore : ∀ t ∈ pre, r.vaddr.toNat ≠ t.vaddr.toNat + t.memsize.toNat := by
        intro t ht
        apply hends r List.mem_cons_self
        rw [hseg]
        exact List.mem_append_left _ ht
      have hok := applyReloc_ok hseg h.apart (h.sound s hs).length (h.sound s hs).fits
        hslot.within hbefore
      have hlaid := h
      rw [hseg] at hlaid
      have hshape : (pre ++ s.patched r :: post).map Segment.shape
          = exec.segments.map Segment.shape := by
        rw [hseg, List.map_append, List.map_append]
        rfl
      have hin' : ∀ r' ∈ relocs, InSegment (pre ++ s.patched r :: post) r' := by
        intro r' hr'
        have hr := hin r' (List.mem_cons_of_mem r hr')
        rw [hseg] at hr
        exact inSegment_patched hslot (hsorted.1 r' hr') hr
      have hends' : ∀ r' ∈ relocs, OffEnds (pre ++ s.patched r :: post) r' := by
        intro r' hr'
        exact offEnds_of_shape hshape (hends r' (List.mem_cons_of_mem r hr'))
      obtain ⟨exec', hok', happlied⟩ := @ih { exec with segments := pre ++ s.patched r :: post }
        (laid_patched hlaid hslot) hsorted.2 hin' hends'
      refine ⟨exec', ?_, happlied.laid, happlied.shape.trans hshape, ?_, happlied.rest⟩
      · rw [List.foldlM_cons, hok]
        exact hok'
      · rw [happlied.flat, flat_patched hlaid hslot, ← hseg, List.map_cons]
        rfl

/-- **`apply_relocs`** stores the word of every relocation, in segments that keep their shape and
stay sound. -/
theorem applyRelocs_ok {exec : Executable} (h : Laid exec.segments)
    (hsorted : exec.relocs.Pairwise fun r r' => r.vaddr.toNat + 8 ≤ r'.vaddr.toNat)
    (hin : ∀ r ∈ exec.relocs, InSegment exec.segments r)
    (hends : ∀ r ∈ exec.relocs, OffEnds exec.segments r) :
    ∃ exec', applyRelocs exec = .ok exec' ∧ Applied exec exec' exec.relocs :=
  applyRelocs_foldlM h hsorted hin hends

end LoliLoader.Elf2Efi
