/-
# LoliLoader.Elf2Efi.Mapped -- where the relocation tables are read

The dynamic segment gives the virtual address of a table, and `load_relocs` takes it for an offset
in the file. The bytes that are decoded are followed back to where they stand in the file.

RELA and REL tables are read in the same way, with different tags and entries of different sizes.
`TableTags` has what differs, and `readTable` is the common part, so that there is one theorem for
both.

`ReadsMapped` compares two lists of entries: those that `load_relocs` decodes, and those in the
bytes that the segment maps at the address of the table. They are the same if the segment has the
same address as file offset, or if the table has no whole entry. The theorem says that there is no
third way, for which it must be the bytes' places that are compared and not their values.

In the example the segment is at another place in memory than in the file.
-/
import LoliLoader.Elf2Efi.Parsed

namespace LoliLoader.Elf2Efi

open C Bytes

/-! ## The tables -/

/-- What `load_relocs` looks up for a table, the size of an entry, and what it says if something is
missing. -/
structure TableTags where
  tag : UInt64
  sizeTag : UInt64
  entsize : UInt64
  missing : String
  purpose : String

/-- The tags of the RELA table, whose entries have addends. -/
def relaTags : TableTags :=
  ⟨DT_RELA, DT_RELASZ, 24, "Missing DT_RELASZ entry paired with DT_RELA\n", "RELA reloctions"⟩

/-- The tags of the REL table, whose entries have none. -/
def relTags : TableTags :=
  ⟨DT_REL, DT_RELSZ, 16, "Missing DT_RELSZ entry paired with DT_REL\n", "REL reloctions"⟩

/-- The offsets of the bytes in the file that `load_relocs` takes for the table. -/
def tableOffsets (elf : SizedData) (dynamic : Segment) (t : TableTags) :
    Except Failure (Option (List Nat)) := do
  match ← dynamicLookupTag dynamic t.tag with
  | none => return none
  | some offset =>
    match ← dynamicLookupTag dynamic t.sizeTag with
    | none => .error (.exit (.printf t.missing []))
    | some size =>
      let num := size / t.entsize
      let p ← dataAtOffset elf t.purpose offset (t.entsize * num)
      let bytes ← readAt elf.rawData p (t.entsize * num).toNat
      return some (List.range' p bytes.length)

/-- What the two halves of `load_relocs` have in common: the entries of a table. -/
def readTable {α : Type} (ofBytes : List UInt8 → α) (elf : SizedData) (dynamic : Segment)
    (t : TableTags) : Except Failure (Option (List α)) := do
  match ← dynamicLookupTag dynamic t.tag with
  | none => return none
  | some offset =>
    match ← dynamicLookupTag dynamic t.sizeTag with
    | none => .error (.exit (.printf t.missing []))
    | some size =>
      let num := size / t.entsize
      let p ← dataAtOffset elf t.purpose offset (t.entsize * num)
      let bytes ← readAt elf.rawData p (t.entsize * num).toNat
      return some (records ofBytes t.entsize.toNat num.toNat bytes)

theorem relaTable_eq (elf : SizedData) (dynamic : Segment) :
    relaTable elf dynamic = readTable Elf64Rela.ofBytes elf dynamic relaTags := rfl

theorem relTable_eq (elf : SizedData) (dynamic : Segment) :
    relTable elf dynamic = readTable Elf64Rel.ofBytes elf dynamic relTags := rfl

/-- The entries in the bytes at some offsets of the file. -/
def entriesAt {α : Type} (ofBytes : List UInt8 → α) (entsize : Nat) (elf : SizedData)
    (offsets : List Nat) : List α :=
  records ofBytes entsize (offsets.length / entsize) (offsets.map fun p => elf.rawData.getD p 0)

/-- What is read is what stands at the offsets. -/
theorem map_range'_of_readAt {rawData bytes : List UInt8} {p n : Nat}
    (h : readAt rawData p n = .ok bytes) :
    (List.range' p bytes.length).map (fun p => rawData.getD p 0) = bytes := by
  unfold readAt at h
  split at h
  · obtain rfl := Except.ok.inj h
    rfl
  · split at h
    · cases h
    · obtain rfl := Except.ok.inj h
      apply List.ext_getElem
      · rw [List.length_map, List.length_range']
      · intro i hi hi'
        rw [List.length_take, List.length_drop] at hi'
        rw [List.getElem_map, List.getElem_range', List.getElem_take, List.getElem_drop,
          Nat.one_mul, List.getD_eq_getElem?_getD, List.getElem?_eq_getElem (by omega),
          Option.getD_some]

/-- A table has as many whole entries as its size is for. -/
theorem mul_div_toNat (entsize size : UInt64) :
    (entsize * (size / entsize)).toNat = entsize.toNat * (size.toNat / entsize.toNat) := by
  have hle : entsize.toNat * (size.toNat / entsize.toNat) ≤ size.toNat := Nat.mul_div_le _ _
  have hlt := size.toNat_lt
  rw [UInt64.toNat_mul, UInt64.toNat_div]
  exact Nat.mod_eq_of_lt (by omega)

section

variable {elf : SizedData} {dynamic : Segment}

/-- **A table** is decoded from these bytes of the file, entry by entry, and from no others. -/
theorem readTable_eq {α : Type} (ofBytes : List UInt8 → α) {t : TableTags}
    (hent : 0 < t.entsize.toNat) :
    readTable ofBytes elf dynamic t = (do
      let offsets ← tableOffsets elf dynamic t
      return offsets.map (entriesAt ofBytes t.entsize.toNat elf)) := by
  unfold readTable tableOffsets
  cases dynamicLookupTag dynamic t.tag with
  | error e => rfl
  | ok offset =>
      cases offset with
      | none => rfl
      | some offset =>
          show (dynamicLookupTag dynamic t.sizeTag >>= _)
            = ((dynamicLookupTag dynamic t.sizeTag >>= _) >>= _)
          cases dynamicLookupTag dynamic t.sizeTag with
          | error e => rfl
          | ok size =>
              cases size with
              | none => rfl
              | some size =>
                  show (dataAtOffset elf _ offset _ >>= _)
                    = ((dataAtOffset elf _ offset _ >>= _) >>= _)
                  cases dataAtOffset elf t.purpose offset (t.entsize * (size / t.entsize)) with
                  | error e => rfl
                  | ok p =>
                      show (readAt elf.rawData p _ >>= _) = ((readAt elf.rawData p _ >>= _) >>= _)
                      cases hread : readAt elf.rawData p
                          (t.entsize * (size / t.entsize)).toNat with
                      | error e => rfl
                      | ok bytes =>
                          have hlen : bytes.length / t.entsize.toNat
                              = (size / t.entsize).toNat := by
                            rw [length_of_readAt hread, mul_div_toNat, UInt64.toNat_div,
                              Nat.mul_div_cancel_left _ hent]
                          show Except.ok (some (records ofBytes _ _ bytes))
                            = .ok (some (entriesAt ofBytes _ elf _))
                          rw [entriesAt, List.length_range', hlen, map_range'_of_readAt hread]

end

/-! ## The file and the memory -/

/-- A `PT_LOAD` segment that has been loaded from the file. -/
theorem loadSegment_of_loadSegments {heap : Heap} {elf : SizedData} {ehdr : Elf64Ehdr}
    {phdrs : List Elf64Phdr} {result : List Segment × Segment}
    (hphdrs : programHeaders elf ehdr = .ok phdrs) (h : loadSegments heap elf ehdr = .ok result)
    {phdr : Elf64Phdr} (hmem : phdr ∈ phdrs) (htype : phdr.pType = PT_LOAD) :
    ∃ fresh s, loadSegment fresh elf phdr = .ok s := by
  have hloop : ∀ (l : List (Elf64Phdr × Nat)) (st st' : List Segment × Option Segment),
      l.foldlM (loadSegmentsStep heap elf) st = .ok st' → ∀ p ∈ l, p.1 = phdr →
      ∃ fresh s, loadSegment fresh elf phdr = .ok s := by
    intro l
    induction l with
    | nil => exact fun _ _ _ p hp => absurd hp List.not_mem_nil
    | cons q l ih =>
        intro st st' hok p hp hp'
        rw [List.foldlM_cons] at hok
        obtain ⟨st₁, hstep, hok⟩ := bind_eq_ok.mp hok
        rcases List.mem_cons.mp hp with rfl | hp
        · have hnot : ¬ p.1.pType = PT_DYNAMIC := by
            rw [hp', htype]
            decide
          rw [loadSegmentsStep, if_neg hnot, if_pos (by rw [hp', htype])] at hstep
          obtain ⟨segment, hload, -⟩ := bind_eq_ok.mp hstep
          rw [hp'] at hload
          exact ⟨_, segment, hload⟩
        · exact ih _ _ hok p hp hp'
  unfold loadSegments at h
  obtain ⟨phdrs', hphdrs', h⟩ := bind_eq_ok.mp h
  obtain rfl := Except.ok.inj (hphdrs.symm.trans hphdrs')
  obtain ⟨st, hok, -⟩ := bind_eq_ok.mp h
  obtain ⟨i, hi, rfl⟩ := List.mem_iff_getElem.mp hmem
  have hindex : (phdrs[i], i) ∈ phdrs.zipIdx := by
    rw [List.mem_zipIdx_iff_getElem?]
    exact List.getElem?_eq_getElem hi
  exact hloop _ _ _ hok _ hindex rfl

section

variable {elf : SizedData} {dynamic : Segment} {phdr : Elf64Phdr} {t : TableTags} {a s : UInt64}

/-- The file-backed part ends before the file does. -/
theorem fileRange_lt (hlen : elf.rawData.length = elf.size.toNat) {fresh : Nat → UInt8}
    {segment : Segment} (h : loadSegment fresh elf phdr = .ok segment) :
    phdr.pOffset.toNat + phdr.pFilesz.toNat < elf.size.toNat := by
  unfold loadSegment at h
  obtain ⟨_, -, h⟩ := bind_eq_ok.mp h
  obtain ⟨p, hp, h⟩ := bind_eq_ok.mp h
  obtain ⟨bytes, hread, -⟩ := bind_eq_ok.mp h
  obtain ⟨_, hassert, hp⟩ := bind_eq_ok.mp hp
  obtain rfl := Except.ok.inj hp
  have hlt := of_decide_eq_true (assertMsg_eq_ok.mp hassert)
  rw [UInt64.lt_iff_toNat_lt, UInt64.toNat_add] at hlt
  have hoffset := phdr.pOffset.toNat_lt
  have hsize := elf.size.toNat_lt
  unfold readAt at hread
  by_cases h0 : phdr.pFilesz.toNat = 0
  · rw [h0, Nat.add_zero, Nat.mod_eq_of_lt hoffset] at hlt
    omega
  · rw [if_neg h0] at hread
    split at hread
    · cases hread
    · rwa [Nat.mod_eq_of_lt (by omega)] at hlt

/-- The bytes of a table, at the offset that was looked up. -/
theorem tableOffsets_some (ha : dynamicLookupTag dynamic t.tag = .ok (some a))
    (hs : dynamicLookupTag dynamic t.sizeTag = .ok (some s))
    (hlen : elf.rawData.length = elf.size.toNat)
    (hin : a.toNat + t.entsize.toNat * (s.toNat / t.entsize.toNat) < elf.size.toNat) :
    tableOffsets elf dynamic t = .ok (some (List.range' a.toNat
      (t.entsize.toNat * (s.toNat / t.entsize.toNat)))) := by
  have hsize := elf.size.toNat_lt
  have hoffset : dataAtOffset elf t.purpose a (t.entsize * (s / t.entsize)) = .ok a.toNat := by
    have hlt : a + t.entsize * (s / t.entsize) < elf.size := by
      rw [UInt64.lt_iff_toNat_lt, UInt64.toNat_add, mul_div_toNat, Nat.mod_eq_of_lt (by omega)]
      exact hin
    rw [dataAtOffset, assertMsg, if_pos (decide_eq_true hlt)]
    rfl
  obtain ⟨bytes, hread⟩ : ∃ bytes, readAt elf.rawData a.toNat
      (t.entsize * (s / t.entsize)).toNat = .ok bytes := by
    rw [readAt, mul_div_toNat, if_neg (show ¬ elf.rawData.length < _ by omega)]
    split <;> exact ⟨_, rfl⟩
  have hlength := length_of_readAt hread
  rw [mul_div_toNat] at hlength
  unfold tableOffsets
  rw [ha]
  show (dynamicLookupTag dynamic t.sizeTag >>= _) = _
  rw [hs]
  show (dataAtOffset elf _ a _ >>= _) = _
  rw [hoffset]
  show (readAt elf.rawData a.toNat _ >>= _) = _
  rw [hread, ← hlength]
  rfl

/-- Where a table that was read begins, and that the offset is inside the file. -/
theorem tableOffsets_inv (ha : dynamicLookupTag dynamic t.tag = .ok (some a))
    (hs : dynamicLookupTag dynamic t.sizeTag = .ok (some s)) {offsets : List Nat}
    (h : tableOffsets elf dynamic t = .ok (some offsets)) :
    offsets = List.range' a.toNat (t.entsize.toNat * (s.toNat / t.entsize.toNat)) ∧
      a + t.entsize * (s / t.entsize) < elf.size := by
  unfold tableOffsets at h
  rw [ha] at h
  obtain ⟨_, ha', h⟩ := bind_eq_ok.mp h
  obtain rfl := Except.ok.inj ha'
  rw [hs] at h
  obtain ⟨_, hs', h⟩ := bind_eq_ok.mp h
  obtain rfl := Except.ok.inj hs'
  obtain ⟨p, hp, h⟩ := bind_eq_ok.mp h
  obtain ⟨bytes, hread, h⟩ := bind_eq_ok.mp h
  obtain ⟨_, hassert, hp⟩ := bind_eq_ok.mp hp
  obtain rfl := Except.ok.inj hp
  obtain rfl := Option.some.inj (Except.ok.inj h)
  rw [length_of_readAt hread, mul_div_toNat]
  exact ⟨rfl, of_decide_eq_true (assertMsg_eq_ok.mp hassert)⟩

/-- The whole entries of the table are those bytes of the file that the segment maps at their
addresses. -/
def ReadsMapped (elf : SizedData) (dynamic : Segment) (phdr : Elf64Phdr) (t : TableTags)
    (a s : UInt64) : Prop :=
  tableOffsets elf dynamic t = .ok (some (List.range'
    (phdr.pOffset.toNat + (a.toNat - phdr.pVaddr.toNat))
    (t.entsize.toNat * (s.toNat / t.entsize.toNat))))

/-- A file whose dynamic segment gives a table at an address, and a `PT_LOAD` segment that has all
of the table in its file-backed part. -/
structure MapsTable (elf : SizedData) (dynamic : Segment) (phdr : Elf64Phdr) (t : TableTags)
    (a s : UInt64) : Prop where
  length : elf.rawData.length = elf.size.toNat
  loaded : ∃ heap ehdr phdrs segments, programHeaders elf ehdr = .ok phdrs ∧ phdr ∈ phdrs ∧
    loadSegments heap elf ehdr = .ok (segments, dynamic)
  type : phdr.pType = PT_LOAD
  table : t = relaTags ∨ t = relTags
  addr : dynamicLookupTag dynamic t.tag = .ok (some a)
  size : dynamicLookupTag dynamic t.sizeTag = .ok (some s)
  low : phdr.pVaddr.toNat ≤ a.toNat
  high : a.toNat + s.toNat ≤ phdr.pVaddr.toNat + phdr.pFilesz.toNat

namespace MapsTable

theorem entsize_pos (h : MapsTable elf dynamic phdr t a s) : 0 < t.entsize.toNat := by
  rcases h.table with rfl | rfl <;> decide

theorem file (h : MapsTable elf dynamic phdr t a s) :
    phdr.pOffset.toNat + phdr.pFilesz.toNat < elf.size.toNat := by
  obtain ⟨heap, ehdr, phdrs, segments, hphdrs, hmem, hload⟩ := h.loaded
  obtain ⟨fresh, segment, hsegment⟩ := loadSegment_of_loadSegments hphdrs hload hmem h.type
  exact fileRange_lt h.length hsegment

end MapsTable

/-- **The tables are read where the file has them** exactly if the segment has the same address
and file offset, or the table has no whole entry and its address is inside the file. Both tables
are decoded from the bytes at these offsets. -/
theorem readsMapped_iff (h : MapsTable elf dynamic phdr t a s) :
    (ReadsMapped elf dynamic phdr t a s ↔
      phdr.pOffset = phdr.pVaddr ∨ (s < t.entsize ∧ a < elf.size)) ∧
    relaTable elf dynamic = (do
      let offsets ← tableOffsets elf dynamic relaTags
      return offsets.map (entriesAt Elf64Rela.ofBytes 24 elf)) ∧
    relTable elf dynamic = (do
      let offsets ← tableOffsets elf dynamic relTags
      return offsets.map (entriesAt Elf64Rel.ofBytes 16 elf)) := by
  have hrela := @readTable_eq elf dynamic _ Elf64Rela.ofBytes relaTags (by decide)
  have hrel := @readTable_eq elf dynamic _ Elf64Rel.ofBytes relTags (by decide)
  refine ⟨?_, (relaTable_eq elf dynamic).trans hrela, (relTable_eq elf dynamic).trans hrel⟩
  have hpos := h.entsize_pos
  have hlow := h.low
  have hhigh := h.high
  have hfile := h.file
  have hle : t.entsize.toNat * (s.toNat / t.entsize.toNat) ≤ s.toNat := Nat.mul_div_le _ _
  constructor
  · intro hreads
    obtain ⟨hsame, hlt⟩ := tableOffsets_inv h.addr h.size hreads
    rw [List.range'_inj] at hsame
    rcases hsame.2 with hnone | hstart
    · -- no whole entry
      have hsmall : s.toNat < t.entsize.toNat := by
        have hquot : s.toNat / t.entsize.toNat = 0 := by
          rcases Nat.mul_eq_zero.mp hnone with hzero | hquot
          · omega
          · exact hquot
        exact (Nat.div_eq_zero_iff_lt hpos).mp hquot
      refine Or.inr ⟨UInt64.lt_iff_toNat_lt.mpr hsmall, ?_⟩
      rw [UInt64.lt_iff_toNat_lt, UInt64.toNat_add, mul_div_toNat, hnone, Nat.add_zero,
        Nat.mod_eq_of_lt a.toNat_lt] at hlt
      exact UInt64.lt_iff_toNat_lt.mpr hlt
    · refine Or.inl (UInt64.toNat_inj.mp ?_)
      omega
  · rintro (hsame | ⟨hsmall, hlt⟩)
    · have hstart : phdr.pOffset.toNat + (a.toNat - phdr.pVaddr.toNat) = a.toNat := by
        rw [hsame]
        omega
      rw [hsame] at hfile
      rw [ReadsMapped, hstart]
      exact tableOffsets_some h.addr h.size h.length (by omega)
    · rw [UInt64.lt_iff_toNat_lt] at hsmall hlt
      have hnone : t.entsize.toNat * (s.toNat / t.entsize.toNat) = 0 := by
        rw [Nat.div_eq_of_lt hsmall, Nat.mul_zero]
      have hok := tableOffsets_some h.addr h.size h.length (by rw [hnone]; exact hlt)
      rw [ReadsMapped, hok, hnone]
      rfl

end

/-! ## A small file -/

/-- The header of an executable with two program headers. -/
def smallEhdr : List UInt8 :=
  [0x7f, 0x45, 0x4c, 0x46, 2, 1, 1, 0] ++ List.replicate 8 0 ++ leBytes 2 3 ++ leBytes 2 62 ++
  leBytes 4 1 ++ leBytes 8 0 ++ leBytes 8 64 ++ leBytes 8 0 ++ leBytes 4 0 ++ leBytes 2 64 ++
  leBytes 2 56 ++ leBytes 2 2 ++ List.replicate 6 0

/-- A program header as bytes, with the same size in the file as in memory. -/
def smallPhdr (type flags off vaddr size : Nat) : List UInt8 :=
  leBytes 4 type ++ leBytes 4 flags ++ leBytes 8 off ++ leBytes 8 vaddr ++ leBytes 8 vaddr ++
  leBytes 8 size ++ leBytes 8 size ++ leBytes 8 0x1000

/-- A file with a dynamic segment and a RELA table of one entry behind it, both in a segment that
is `delta` further in memory than in the file. -/
def smallElf (delta : Nat) : SizedData :=
  let bytes := smallEhdr ++ smallPhdr 1 6 0xb0 (0xb0 + delta) 312 ++
    smallPhdr 2 6 0xb0 (0xb0 + delta) 288 ++
    (leBytes 8 7 ++ leBytes 8 (0x1d0 + delta) ++ leBytes 8 8 ++ leBytes 8 24 ++
      List.replicate 256 0) ++
    (leBytes 8 0x1000 ++ leBytes 8 8 ++ leBytes 8 0x42) ++ List.replicate 8 0
  ⟨"small", bytes, UInt64.ofNat bytes.length⟩

/-- A segment of the file as `load_segment` gives it. -/
def smallSegment (delta size : Nat) : Segment :=
  ⟨UInt64.ofNat (0xb0 + delta), UInt64.ofNat size, 0x1000, 3, UInt64.ofNat size,
    ⟨"segment at offset 0xb0", ((smallElf delta).rawData.drop 0xb0).take size, UInt64.ofNat size⟩⟩

/-- The program header of the first segment of the file. -/
def smallLoad (delta : Nat) : Elf64Phdr :=
  ⟨1, 6, 0xb0, UInt64.ofNat (0xb0 + delta), 312, 312, 0x1000⟩

theorem smallElf_loadSegments :
    ∀ delta ∈ [0, 0x1000],
      validEhdr (Elf64Ehdr.ofBytes (smallElf delta).rawData) = .ok () ∧
      programHeaders (smallElf delta) (Elf64Ehdr.ofBytes (smallElf delta).rawData)
        = .ok [smallLoad delta, ⟨2, 6, 0xb0, UInt64.ofNat (0xb0 + delta), 288, 288, 0x1000⟩] ∧
      loadSegments ⟨fun _ _ => 0, fun _ _ => ⟨0, 0⟩⟩ (smallElf delta)
        (Elf64Ehdr.ofBytes (smallElf delta).rawData)
        = .ok ([smallSegment delta 312], smallSegment delta 288) := by
  decide +kernel

theorem smallElf_mapsTable {delta : Nat} (h : delta ∈ [0, 0x1000]) :
    MapsTable (smallElf delta) (smallSegment delta 288) (smallLoad delta) relaTags
      (UInt64.ofNat (0x1d0 + delta)) 24 := by
  obtain ⟨-, hphdrs, hload⟩ := smallElf_loadSegments delta h
  rcases List.mem_pair.mp h with rfl | rfl
  · exact ⟨by decide +kernel, ⟨_, _, _, _, hphdrs, List.mem_cons_self, hload⟩, rfl, Or.inl rfl,
      by decide +kernel, by decide +kernel, by decide, by decide⟩
  · exact ⟨by decide +kernel, ⟨_, _, _, _, hphdrs, List.mem_cons_self, hload⟩, rfl, Or.inl rfl,
      by decide +kernel, by decide +kernel, by decide, by decide⟩

theorem readsMapped_iff_small :
    ReadsMapped (smallElf 0) (smallSegment 0 288) (smallLoad 0) relaTags (UInt64.ofNat 0x1d0) 24 :=
  (readsMapped_iff (smallElf_mapsTable (by decide))).1.mpr (Or.inl (by decide))

/-- With the table at another address than file offset, there is an attempt to read it at its
address. -/
theorem moved_table_not_read :
    MapsTable (smallElf 0x1000) (smallSegment 0x1000 288) (smallLoad 0x1000) relaTags 0x11d0 24 ∧
      ¬ ReadsMapped (smallElf 0x1000) (smallSegment 0x1000 288) (smallLoad 0x1000) relaTags
        0x11d0 24 := by
  refine ⟨smallElf_mapsTable (by decide), ?_⟩
  intro hreads
  have hnone : (tableOffsets (smallElf 0x1000) (smallSegment 0x1000 288) relaTags).toOption
      = none := by decide +kernel
  rw [ReadsMapped] at hreads
  rw [hreads] at hnone
  cases hnone

end LoliLoader.Elf2Efi
