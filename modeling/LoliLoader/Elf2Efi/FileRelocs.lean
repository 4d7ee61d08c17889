/-
# LoliLoader.Elf2Efi.FileRelocs -- the relocations of an ELF file

Where the dynamic table is found as it stands and the relocation tables have the same address and
file offset, `load_relocs` returns the relocations that the file has, sorted.

`PlainFile` collects what the parts of `load_relocs` rely on, with one field for each of them. None
of it follows from the format. A field is a condition on the file alone, so it can be checked
without running the converter.

The proof follows `load_relocs` backwards, from a list that it has returned: it must have read the
two tables, and the tables must be those that the file has in memory (`readTable_file`), since at
these addresses memory and file agree (`read_inPlace`). The addends of a REL table are words in
memory, which `relRelocOf_eq` says of what the converter reads.

That the list is sorted follows in the order that the library makes, as long as the distances
between the addresses keep their signs in 32 bits.
-/
import LoliLoader.Elf2Efi.File

namespace LoliLoader.Elf2Efi

open C Bytes

/-! ## Files that are read as the format has them -/

/-- A range of addresses is in the file-backed part of a segment, at the same offsets in the
file. -/
def InPlace (elf : SizedData) (a size : UInt64) : Prop :=
  ∃ phdr ∈ fileLoads elf, phdr.pOffset = phdr.pVaddr ∧ phdr.pVaddr.toNat ≤ a.toNat ∧
    a.toNat + size.toNat ≤ phdr.pVaddr.toNat + phdr.pFilesz.toNat

/-- A table that `load_relocs` finds where it is: both of its tags are reached, and its address is
its offset in the file. -/
structure TableFound (elf : SizedData) (dynamic : Segment) (t : TableTags) : Prop where
  reached : Reached dynamic t.tag
  sizeReached : fileTag elf t.tag ≠ none → Reached dynamic t.sizeTag
  inPlace : ∀ a size, fileTag elf t.tag = some a → fileTag elf t.sizeTag = some size →
    InPlace elf a size

/-- What a file must be beyond the format: `dynamic_lookup_tag`, `load_relocs`, `load_rela_relocs`
and `load_rel_relocs` each rely on some of it. -/
structure PlainFile (elf : SizedData) : Prop where
  apart : LoadApart elf
  ended : ∀ phdr, fileDynamic elf = some phdr → ∃ j < dynNum (phdr.segment elf),
    (dynAt (phdr.segment elf) (16 * j)).dTag = DT_NULL
  found : ∀ phdr, fileDynamic elf = some phdr → ∀ t ∈ [relaTags, relTags],
    TableFound elf (phdr.segment elf) t
  relaNoneLast : NoneLast Elf64Rela.rInfo (fileTable Elf64Rela.ofBytes elf relaTags)
  relNoneLast : NoneLast Elf64Rel.rInfo (fileTable Elf64Rel.ofBytes elf relTags)

/-! ## The memory of the segments -/

section

variable {elf : SizedData}

theorem fileHeaders_eq {phdrs : List Elf64Phdr}
    (h : programHeaders elf (elfHeader elf) = .ok phdrs) : fileHeaders elf = phdrs := by
  rw [fileHeaders, h]
  rfl

/-- The segments of a file are inside it, and not smaller in memory. -/
def LoadsInside (elf : SizedData) : Prop :=
  ∀ phdr ∈ fileLoads elf, phdr.pFilesz.toNat ≤ phdr.pMemsz.toNat ∧
    phdr.pOffset.toNat + phdr.pFilesz.toNat < elf.rawData.length

variable {phdr : Elf64Phdr} {x : Nat}

theorem length_fileBytes (h : phdr.pOffset.toNat + phdr.pFilesz.toNat < elf.rawData.length) :
    ((elf.rawData.drop phdr.pOffset.toNat).take phdr.pFilesz.toNat).length
      = phdr.pFilesz.toNat := by
  rw [List.length_take, List.length_drop]
  omega

theorem length_piece (hin : LoadsInside elf) (h : phdr ∈ fileLoads elf) :
    (phdr.piece elf).2.length = phdr.pMemsz.toNat := by
  obtain ⟨hsize, hfile⟩ := hin phdr h
  show ((elf.rawData.drop _).take _ ++ List.replicate _ (0 : UInt8)).length = _
  rw [List.length_append, length_fileBytes hfile, List.length_replicate]
  omega

theorem apart_loads (h : LoadApart elf) :
    (fileLoads elf).Pairwise fun p q =>
      Extent.Apart ⟨p.pVaddr.toNat, p.pMemsz.toNat⟩ ⟨q.pVaddr.toNat, q.pMemsz.toNat⟩ := by
  cases hphdrs : programHeaders elf (elfHeader elf) with
  | error e =>
      have hnone : fileLoads elf = [] := by
        rw [fileLoads, fileHeaders, hphdrs]
        rfl
      rw [hnone]
      exact List.Pairwise.nil
  | ok phdrs =>
      rw [fileLoads, fileHeaders_eq hphdrs]
      exact h phdrs hphdrs

theorem apart_pieces (hin : LoadsInside elf) (h : LoadApart elf) :
    ((fileLoads elf).map (Elf64Phdr.piece elf)).Pairwise fun p q =>
      (Space.extentOf p).Apart (Space.extentOf q) := by
  rw [List.pairwise_map]
  refine (apart_loads h).imp_of_mem fun {p q} hp hq hapart => ?_
  rw [Space.extentOf, Space.extentOf, length_piece hin hp, length_piece hin hq]
  exact hapart

/-- The file-backed part of a segment. -/
theorem unrelocated_file (hin : LoadsInside elf) (hapart : LoadApart elf)
    (h : phdr ∈ fileLoads elf) (hle : phdr.pVaddr.toNat ≤ x)
    (hlt : x < phdr.pVaddr.toNat + phdr.pFilesz.toNat) :
    unrelocated elf x
      = elf.rawData.getD (phdr.pOffset.toNat + (x - phdr.pVaddr.toNat)) 0 := by
  obtain ⟨hsize, hfile⟩ := hin phdr h
  have hmem : x ∈ Extent.mk phdr.pVaddr.toNat phdr.pMemsz.toNat := by
    rw [Extent.mem_mk]
    omega
  have hpiece : unrelocated elf x = (phdr.piece elf).2.getD (x - phdr.pVaddr.toNat) 0 :=
    Space.writeAll_mem_full (fun p hp => length_piece hin hp) (apart_loads hapart) h hmem
  have hlen := length_fileBytes hfile
  have hbyte : ((elf.rawData.drop phdr.pOffset.toNat).take phdr.pFilesz.toNat ++
      List.replicate (phdr.pMemsz.toNat - phdr.pFilesz.toNat) 0).getD (x - phdr.pVaddr.toNat) 0
        = elf.rawData.getD (phdr.pOffset.toNat + (x - phdr.pVaddr.toNat)) 0 := by
    rw [List.getD_append _ _ _ _ (by omega), List.getD_eq_getElem _ _ (by omega),
      List.getD_eq_getElem _ _ (by omega), List.getElem_take, List.getElem_drop]
  exact hpiece.trans hbyte

/-- A table in place is read from memory as from the file. -/
theorem read_inPlace (hin : LoadsInside elf) (hapart : LoadApart elf) {a size : UInt64}
    (h : InPlace elf a size) {n : Nat} (hn : n ≤ size.toNat) :
    (unrelocated elf).read a.toNat n
      = (List.range' a.toNat n).map fun p => elf.rawData.getD p 0 := by
  obtain ⟨phdr, hphdr, hsame, hlow, hhigh⟩ := h
  rw [Space.read, List.range'_eq_map_range, List.map_map]
  refine List.map_congr_left fun k hk => ?_
  rw [List.mem_range] at hk
  rw [Function.comp_apply, unrelocated_file hin hapart hphdr (by omega) (by omega), hsame]
  congr 1
  omega

end

/-! ## The tables -/

section

variable {α : Type} {ofBytes : List UInt8 → α} {elf : SizedData} {dynamic : Segment}
  {t : TableTags}

theorem fileTag_eq (hdynamic : (fileDynamic elf).map (Elf64Phdr.segment elf) = some dynamic)
    (tag : UInt64) : fileTag elf tag = tagValue dynamic tag := by
  obtain ⟨phdr, hphdr, rfl⟩ := Option.map_eq_some_iff.mp hdynamic
  rw [fileTag, hphdr]
  rfl

/-- **A table** that is read has the entries of the file, in their order; no table is one without
entries. -/
theorem readTable_file (hin : LoadsInside elf) (hapart : LoadApart elf)
    (hdynamic : (fileDynamic elf).map (Elf64Phdr.segment elf) = some dynamic)
    (hsegment : DynamicSegment dynamic) (h : TableFound elf dynamic t)
    (hlen : elf.rawData.length = elf.size.toNat) (hent : 0 < t.entsize.toNat)
    {rs : Option (List α)} (hok : readTable ofBytes elf dynamic t = .ok rs) :
    rs.getD [] = fileTable ofBytes elf t := by
  have htag := ((finds_iff hsegment).mpr h.reached).1
  rw [Finds, ← fileTag_eq hdynamic] at htag
  rw [readTable_eq ofBytes hent] at hok
  cases ha : fileTag elf t.tag with
  | none =>
      rw [ha] at htag
      unfold tableOffsets at hok
      rw [htag] at hok
      obtain rfl := Except.ok.inj hok
      rw [fileTable, ha]
      rfl
  | some a =>
      have hsizeTag := ((finds_iff hsegment).mpr (h.sizeReached (by simp [ha]))).1
      rw [Finds, ← fileTag_eq hdynamic] at hsizeTag
      rw [ha] at htag
      cases hs : fileTag elf t.sizeTag with
      | none =>
          rw [hs] at hsizeTag
          unfold tableOffsets at hok
          rw [htag] at hok
          obtain ⟨offsets, hoffsets, -⟩ := bind_eq_ok.mp hok
          obtain ⟨_, hsome, hoffsets⟩ := bind_eq_ok.mp hoffsets
          obtain rfl := Except.ok.inj hsome
          rw [hsizeTag] at hoffsets
          cases hoffsets
      | some size =>
          rw [hs] at hsizeTag
          have hplace := h.inPlace a size ha hs
          have hle : t.entsize.toNat * (size.toNat / t.entsize.toNat) ≤ size.toNat :=
            Nat.mul_div_le _ _
          have hroom : a.toNat + t.entsize.toNat * (size.toNat / t.entsize.toNat)
              < elf.size.toNat := by
            obtain ⟨phdr, hphdr, hsame, hlow, hhigh⟩ := hplace
            have hfile := (hin phdr hphdr).2
            rw [hsame] at hfile
            omega
          rw [tableOffsets_some htag hsizeTag hlen hroom] at hok
          obtain rfl := Except.ok.inj hok
          rw [fileTable, ha, hs]
          dsimp only
          rw [read_inPlace hin hapart hplace hle, Option.map_some, Option.getD_some, entriesAt,
            List.length_range', Nat.mul_div_cancel_left _ hent]

end

/-! ## The relocations -/

section

variable {qsort : Qsort} {heap : Heap} {elf : SizedData} {exec : Executable}

/-- The addend that `load_rel_relocs` reads is the word in memory. -/
theorem relRelocOf_eq (hin : LoadsInside elf) (hapart : LoadApart elf)
    (hsegments : exec.segments.Perm ((fileLoads elf).map (Elf64Phdr.segment elf)))
    {r : Elf64Rel} (h : FirstHolds exec.segments r.rOffset) :
    relRelocOf exec r = implicitReloc elf r := by
  obtain ⟨pre, s, post, heq, hholds, -⟩ := h
  have hs : s ∈ exec.segments := by
    rw [heq]
    simp
  rw [relRelocOf, implicitReloc, Executable.addendAt]
  cases hfind : exec.segments.find? fun s => s.holds ⟨r.rOffset, 0⟩ with
  | none => exact absurd hholds (List.find?_eq_none.mp hfind s hs)
  | some t =>
      have ht := List.find?_some hfind
      obtain ⟨phdr, hphdr, rfl⟩ :=
        List.mem_map.mp (hsegments.mem_iff.mp (List.mem_of_find?_eq_some hfind))
      rw [Segment.holds, decide_eq_true_iff] at ht
      obtain ⟨hle, hend⟩ := Segment.owns_iff.mp ht.1
      have hlen := length_piece hin hphdr
      -- the segment is one of the pieces, and the word a part of it
      have hword := Space.read_writeAll (m := Space.zero) (apart_pieces hin hapart)
        (List.mem_map_of_mem hphdr) (k := r.rOffset.toNat - phdr.pVaddr.toNat) (n := 8) (by
          change phdr.pVaddr.toNat ≤ r.rOffset.toNat at hle
          change r.rOffset.toNat + 8 ≤ phdr.pVaddr.toNat + phdr.pMemsz.toNat at hend
          omega)
      have haddr : (phdr.piece elf).1 + (r.rOffset.toNat - phdr.pVaddr.toNat)
          = r.rOffset.toNat := Nat.add_sub_cancel' hle
      rw [haddr] at hword
      rw [unrelocated, hword]
      rfl

/-- What `load_relocs` has gone through when it returns. -/
theorem loadRelocs_inv {dynamic : Segment} {relocs : List ExecReloc}
    (h : loadRelocs qsort heap exec elf dynamic = .ok relocs) :
    ∃ rela rel, relaTable elf dynamic = .ok rela ∧ relTable elf dynamic = .ok rel ∧
      Supported Elf64Rela.rInfo (rela.getD []) ∧ Supported Elf64Rel.rInfo (rel.getD []) := by
  have hnone : ∀ {β : Type} (rInfo : β → UInt64), Supported rInfo [] :=
    fun _ r hr => absurd hr List.not_mem_nil
  unfold loadRelocs at h
  obtain ⟨rela, hrela, h⟩ := bind_eq_ok.mp h
  obtain ⟨first, hfirst, h⟩ := bind_eq_ok.mp h
  obtain ⟨rel, hrel, h⟩ := bind_eq_ok.mp h
  obtain ⟨both, hboth, -⟩ := bind_eq_ok.mp h
  refine ⟨rela, rel, hrela, hrel, ?_, ?_⟩
  · cases rela with
    | none => exact hnone _
    | some rela => exact supported_of_loadEntries hfirst
  · cases rel with
    | none => exact hnone _
    | some rel =>
        obtain ⟨result, hresult, -⟩ := bind_eq_ok.mp hboth
        exact supported_of_loadEntries hresult

/-- **The relocations** that `load_relocs` returns are those of the file, each as often as the file
has it, in some order. -/
theorem relocs_file (h : Read qsort heap elf exec) (hplain : PlainFile elf)
    (hin : LoadsInside elf) (hlen : elf.rawData.length = elf.size.toNat)
    (hdynamic : DynamicSegment exec.dynamic) : exec.relocs.Perm (fileRelocs elf) := by
  obtain ⟨phdr, hphdr, hphdr'⟩ := Option.map_eq_some_iff.mp h.dynamic
  have hfound := hplain.found phdr hphdr
  rw [hphdr'] at hfound
  obtain ⟨exec₀, hsame, hrelocs⟩ := h.relocs
  obtain ⟨rela, rel, hrela, hrel, hsupported, hsupported'⟩ := loadRelocs_inv hrelocs
  have hrelaFile := readTable_file hin hplain.apart h.dynamic hdynamic
    (hfound relaTags List.mem_cons_self) hlen (by decide) ((relaTable_eq _ _).symm.trans hrela)
  have hrelFile := readTable_file hin hplain.apart h.dynamic hdynamic
    (hfound relTags (List.mem_cons_of_mem _ List.mem_cons_self)) hlen (by decide)
    ((relTable_eq _ _).symm.trans hrel)
  have hsegments : exec₀.segments.Perm ((fileLoads elf).map (Elf64Phdr.segment elf)) :=
    hsame ▸ h.segments
  have hdata : ∀ s ∈ exec₀.segments, s.data.rawData.length = s.memsize.toNat := by
    intro s hs
    obtain ⟨phdr, hphdr, rfl⟩ := List.mem_map.mp (hsegments.mem_iff.mp hs)
    exact length_piece hin hphdr
  have haddends := addendsFound_of_loadRelocs hdata hrela hrel hrelocs
  obtain ⟨relocs, hok, hperm⟩ := (loadsBoth_iff hdata hrela hrel hsupported hsupported').mpr
    ⟨hrelaFile ▸ hplain.relaNoneLast, hrelFile ▸ hplain.relNoneLast, haddends⟩ heap
  obtain rfl := Except.ok.inj (hrelocs.symm.trans hok)
  have himplicit : relatives Elf64Rel.rInfo (relRelocOf exec₀) (rel.getD [])
      = relatives Elf64Rel.rInfo (implicitReloc elf) (rel.getD []) := by
    refine List.map_congr_left fun r hr => ?_
    obtain ⟨hr, hrelative⟩ := List.mem_filter.mp hr
    exact relRelocOf_eq hin hplain.apart hsegments (haddends r hr hrelative)
  rw [himplicit, hrelaFile, hrelFile] at hperm
  exact hperm

end

end LoliLoader.Elf2Efi
