/-
# LoliLoader.PyElf2Efi.Tables -- the table of the relocations

The places of the relocations are collected page by page, in whatever order the tables have them.
What is written is a table with one block for every page, in order, each padded to a multiple of
four bytes, and it names the places in ascending order.

The loops of the script do two things for each relocation: they apply it and they collect its place.
`Converts` takes the two apart, so that applying them is a matter of `PyElf2Efi.Relocated` and this
module is about the table alone.

`Collected` is the invariant of the dictionary: one block for every page that has come up, with the
places in it, in any order. What the writer makes of it depends on the set of places only, not on
the order (`sortedBlocks`, `words_rawOf`).

`decode_relocData` is the result. It reads the bytes of the table with the reader of `Pe.BaseReloc`,
and finds just the places that were collected. Two relocations at one place would be a problem for a
loader, but their words would not be apart.
-/
import LoliLoader.Pe.RawBlocks
import LoliLoader.PyElf2Efi.Relocated
import Mathlib.Data.List.Perm.Basic

namespace LoliLoader.PyElf2Efi

open Bytes Pe
open C (bind_eq_ok)

/-! ## What the tables are read as -/

/-- The relocation is of the type that the script applies, for the architecture of the file. -/
def isRelative (elf : ElfFile) (reloc : ElfRelocation) : Bool :=
  (relativeReloc elf.eMachine).toOption = some reloc.rInfoType

/-- The relocations of some tables that are applied, in the order of the tables. -/
def relativesOf (elf : ElfFile) (tables : List (RelocationTableType × List ElfRelocation)) :
    List ElfRelocation :=
  tables.flatMap fun table => table.2.filter (isRelative elf)

/-- The relocations of the file that are applied. -/
def ElfFile.relocations (elf : ElfFile) : List ElfRelocation :=
  match elf.dynamic with
  | none => []
  | some dynamic => relativesOf elf dynamic.relocationTables

/-- The blocks with one more place, in the block of its page. -/
def addOffset (elfclass : ElfClass) (blocks : PeRelocBlocks) (rOffset : Nat) : PeRelocBlocks :=
  addEntry blocks (andNot rOffset 0xFFF) ⟨rOffset &&& 0xFFF, elfclass.relocType⟩

/-- What the loops over tables do for the relocations `relocs`: they are applied one after the
other, and their places are collected. -/
structure Converts (elf : ElfFile) (imageBase : Nat) (relocs : List ElfRelocation)
    (state state' : List PeSection × PeRelocBlocks) : Prop where
  applied : applyAll imageBase state.1 relocs = .ok state'.1
  collected : state'.2 = (relocs.map ElfRelocation.rOffset).foldl (addOffset elf.elfclass) state.2

section

variable {elf : ElfFile} {imageBase : Nat} {relocs relocs' : List ElfRelocation}
  {state state' state'' : List PeSection × PeRelocBlocks}

theorem Converts.nil (state : List PeSection × PeRelocBlocks) :
    Converts elf imageBase [] state state := ⟨rfl, rfl⟩

theorem Converts.append (h : Converts elf imageBase relocs state state')
    (h' : Converts elf imageBase relocs' state' state'') :
    Converts elf imageBase (relocs ++ relocs') state state'' where
  applied := by
    rw [applyAll, List.foldlM_append]
    exact bind_eq_ok.mpr ⟨state'.1, h.applied, h'.applied⟩
  collected := by rw [List.map_append, List.foldl_append, ← h.collected, h'.collected]

theorem noneReloc_ne {machine : Machine} {a b : Nat} (ha : noneReloc machine = .ok a)
    (hb : relativeReloc machine = .ok b) : a ≠ b := by
  rintro rfl
  cases machine with
  | em386 | emAarch64 | emArm | emLoongarch | emRiscv | emX8664 =>
      obtain rfl := Except.ok.inj ha
      exact absurd (Except.ok.inj hb) (by decide)
  | other name => cases ha

theorem convertElfReloc_ok (hclass : elf.elfclass = .elf64) {a b : Nat} {reloc : ElfRelocation}
    (ha : noneReloc elf.eMachine = .ok a) (hb : relativeReloc elf.eMachine = .ok b)
    (h : convertElfReloc elf.elfclass a b imageBase state reloc = .ok state') :
    Converts elf imageBase ([reloc].filter (isRelative elf)) state state' := by
  have hrel : isRelative elf reloc = decide (b = reloc.rInfoType) := by
    unfold isRelative
    rw [hb]
    simp [Except.toOption]
  unfold convertElfReloc at h
  split at h
  · rename_i hnone
    have hfilter : [reloc].filter (isRelative elf) = [] := by
      rw [List.filter_cons_of_neg (by
        rw [hrel, hnone, decide_eq_true_iff]
        exact (noneReloc_ne ha hb).symm)]
      rfl
    obtain rfl := Except.ok.inj h
    rw [hfilter]
    exact .nil _
  · split at h
    · rename_i hrelative
      have hfilter : [reloc].filter (isRelative elf) = [reloc] := by
        rw [List.filter_cons_of_pos (by rw [hrel, hrelative]; exact decide_eq_true rfl)]
        rfl
      obtain ⟨sections, hsections, h⟩ := bind_eq_ok.mp h
      obtain rfl := Except.ok.inj h
      rw [hclass] at hsections
      rw [hfilter]
      refine ⟨?_, rfl⟩
      rw [applyAll, List.foldlM_cons]
      exact bind_eq_ok.mpr ⟨sections, hsections, rfl⟩
    · cases h

theorem convertElfRelocs_ok (hclass : elf.elfclass = .elf64) {a b : Nat}
    (ha : noneReloc elf.eMachine = .ok a) (hb : relativeReloc elf.eMachine = .ok b)
    (h : relocs.foldlM (convertElfReloc elf.elfclass a b imageBase) state = .ok state') :
    Converts elf imageBase (relocs.filter (isRelative elf)) state state' := by
  induction relocs generalizing state with
  | nil =>
      obtain rfl := Except.ok.inj h
      exact .nil _
  | cons reloc relocs ih =>
      rw [List.foldlM_cons] at h
      obtain ⟨mid, hstep, hrest⟩ := bind_eq_ok.mp h
      rw [← List.singleton_append, List.filter_append]
      exact (convertElfReloc_ok hclass ha hb hstep).append (ih hrest)

/-- **The tables** are converted relocation by relocation; others than relative ones are of type
none, or the script raises. -/
theorem convertTables_ok (hclass : elf.elfclass = .elf64)
    {tables : List (RelocationTableType × List ElfRelocation)} {sections : List PeSection}
    (h : convertTables elf tables imageBase sections = .ok state') :
    Converts elf imageBase (relativesOf elf tables) (sections, []) state' := by
  unfold convertTables at h
  generalize (sections, ([] : PeRelocBlocks)) = state at h ⊢
  induction tables generalizing state with
  | nil =>
      obtain rfl := Except.ok.inj h
      exact .nil _
  | cons table tables ih =>
      rw [List.foldlM_cons] at h
      obtain ⟨mid, hstep, hrest⟩ := bind_eq_ok.mp h
      split at hstep
      · obtain ⟨a, ha, hstep⟩ := bind_eq_ok.mp hstep
        obtain ⟨b, hb, hstep⟩ := bind_eq_ok.mp hstep
        rw [relativesOf, List.flatMap_cons]
        exact (convertElfRelocs_ok hclass ha hb hstep).append (ih mid hrest)
      · cases hstep

end

/-! ## Blocks by page -/

theorem andNot_page (x : Nat) : andNot x 0xFFF = pageOf x := andNot_two_pow_sub_one x 12

theorem and_page (x : Nat) : x &&& 0xFFF = x % 4096 := Nat.and_two_pow_sub_one_eq_mod x 12

/-- The places that the entries of a block are for. -/
def offsetsOf (b : Nat × PeRelocationBlock) : List Nat := b.2.entries.map fun e => b.1 + e.offset

/-- The blocks are for these places, each of them once, and there is one block for every page that
has any. -/
structure Collected (blocks : PeRelocBlocks) (offsets : List Nat) : Prop where
  nodup : (blocks.map Prod.fst).Nodup
  page : ∀ b ∈ blocks, 4096 ∣ b.1 ∧ b.2.pageRVA = UInt32.ofNat b.1
  nonempty : ∀ b ∈ blocks, b.2.entries ≠ []
  entries : ∀ b ∈ blocks, ∀ e ∈ b.2.entries, e.offset < 4096 ∧ e.type = IMAGE_REL_BASED_DIR64
  perm : (blocks.flatMap offsetsOf).Perm offsets

section

variable {blocks : PeRelocBlocks} {rva : Nat} {entry : PeRelocationEntry}

/-- A block is either one that was there, or the one that is for the page. -/
theorem mem_addEntry {b : Nat × PeRelocationBlock} (hb : b ∈ addEntry blocks rva entry) :
    b ∈ blocks ∨ b = (rva, ⟨UInt32.ofNat rva, 0, [entry]⟩) ∨
      ∃ c ∈ blocks, c.1 = rva ∧ b = (rva, { c.2 with entries := c.2.entries ++ [entry] }) := by
  induction blocks with
  | nil => exact Or.inr (Or.inl (List.mem_singleton.mp hb))
  | cons c blocks ih =>
      rw [addEntry] at hb
      split at hb
      · rename_i hc
        rcases List.mem_cons.mp hb with rfl | hb
        · exact Or.inr (Or.inr ⟨c, List.mem_cons_self, hc, by rw [← hc]⟩)
        · exact Or.inl (List.mem_cons_of_mem _ hb)
      · rcases List.mem_cons.mp hb with rfl | hb
        · exact Or.inl List.mem_cons_self
        · rcases ih hb with hold | hnew | ⟨d, hd, hrva, heq⟩
          · exact Or.inl (List.mem_cons_of_mem _ hold)
          · exact Or.inr (Or.inl hnew)
          · exact Or.inr (Or.inr ⟨d, List.mem_cons_of_mem _ hd, hrva, heq⟩)

theorem mem_keys_addEntry {k : Nat} (hk : k ∈ (addEntry blocks rva entry).map Prod.fst) :
    k = rva ∨ k ∈ blocks.map Prod.fst := by
  obtain ⟨b, hb, rfl⟩ := List.mem_map.mp hk
  rcases mem_addEntry hb with hold | hnew | ⟨c, -, -, heq⟩
  · exact Or.inr (List.mem_map_of_mem hold)
  · exact Or.inl (congrArg Prod.fst hnew)
  · exact Or.inl (congrArg Prod.fst heq)

theorem nodup_addEntry (h : (blocks.map Prod.fst).Nodup) :
    ((addEntry blocks rva entry).map Prod.fst).Nodup := by
  induction blocks with
  | nil => exact List.nodup_singleton _
  | cons c blocks ih =>
      rw [List.map_cons, List.nodup_cons] at h
      rw [addEntry]
      split
      · rename_i hc
        exact List.nodup_cons.mpr h
      · rename_i hc
        refine List.nodup_cons.mpr ⟨fun hmem => ?_, ih h.2⟩
        rcases mem_keys_addEntry hmem with heq | hmem
        · exact hc heq
        · exact h.1 hmem

theorem offsetsOf_addEntry :
    ((addEntry blocks rva entry).flatMap offsetsOf).Perm
      ((rva + entry.offset) :: blocks.flatMap offsetsOf) := by
  induction blocks with
  | nil => exact List.Perm.refl _
  | cons c blocks ih =>
      rw [addEntry]
      split
      · rename_i hc
        rw [List.flatMap_cons, List.flatMap_cons]
        have hblock : offsetsOf (c.1, { c.2 with entries := c.2.entries ++ [entry] })
            = offsetsOf c ++ [rva + entry.offset] := by
          rw [offsetsOf, offsetsOf, List.map_append, ← hc]
          rfl
        rw [hblock, List.append_assoc]
        exact List.perm_middle
      · rw [List.flatMap_cons, List.flatMap_cons]
        exact (ih.append_left _).trans List.perm_middle

end

theorem Collected.addOffset {blocks : PeRelocBlocks} {offsets : List Nat}
    (h : Collected blocks offsets) (x : Nat) :
    Collected (addOffset .elf64 blocks x) (x :: offsets) := by
  unfold PyElf2Efi.addOffset
  rw [andNot_page, and_page]
  have hentry : x % 4096 < 4096 ∧ ElfClass.elf64.relocType = IMAGE_REL_BASED_DIR64 :=
    ⟨Nat.mod_lt x (by decide), rfl⟩
  refine ⟨nodup_addEntry h.nodup, ?_, ?_, ?_, ?_⟩
  · intro b hb
    rcases mem_addEntry hb with hold | rfl | ⟨c, hc, hrva, rfl⟩
    · exact h.page b hold
    · exact ⟨Nat.dvd_mul_left _ _, rfl⟩
    · rw [← hrva]
      exact h.page c hc
  · intro b hb
    rcases mem_addEntry hb with hold | rfl | ⟨c, hc, hrva, rfl⟩
    · exact h.nonempty b hold
    · exact List.cons_ne_nil _ _
    · exact List.append_ne_nil_of_right_ne_nil _ (List.cons_ne_nil _ _)
  · intro b hb
    rcases mem_addEntry hb with hold | rfl | ⟨c, hc, hrva, rfl⟩
    · exact h.entries b hold
    · intro e he
      rw [List.mem_singleton.mp he]
      exact hentry
    · intro e he
      rcases List.mem_append.mp he with he | he
      · exact h.entries c hc e he
      · rw [List.mem_singleton.mp he]
        exact hentry
  · refine offsetsOf_addEntry.trans ?_
    rw [pageOf_add]
    exact h.perm.cons x

/-- **Collecting** the places, in any order, gives blocks for just these places. -/
theorem collected_foldl (offsets : List Nat) :
    Collected (offsets.foldl (addOffset .elf64) []) offsets := by
  have hgen : ∀ (offsets seen : List Nat) (blocks : PeRelocBlocks), Collected blocks seen →
      ∃ all, all.Perm (seen ++ offsets) ∧
        Collected (offsets.foldl (addOffset .elf64) blocks) all := by
    intro offsets
    induction offsets with
    | nil => exact fun seen blocks h => ⟨seen, by simp, h⟩
    | cons x offsets ih =>
        intro seen blocks h
        obtain ⟨all, hall, hcollected⟩ := ih (x :: seen) _ (h.addOffset x)
        exact ⟨all, hall.trans List.perm_middle.symm, hcollected⟩
  obtain ⟨all, hall, h⟩ := hgen offsets [] []
    ⟨List.nodup_nil, by simp, by simp, by simp, List.Perm.refl _⟩
  exact ⟨h.nodup, h.page, h.nonempty, h.entries, h.perm.trans hall⟩

/-! ## The finished table -/

/-- The entries of a block, padded to an even number. -/
def paddedEntries (entries : List PeRelocationEntry) : List PeRelocationEntry :=
  if entries.length % 2 ≠ 0 then entries ++ [⟨0, 0⟩] else entries

/-- A finished block as a loader reads it: the page, the size, and the entries with their
padding. -/
def rawOf (segmentOffset : Nat) (b : Nat × PeRelocationBlock) : RawBlock :=
  let block := finishBlock segmentOffset b.2
  ⟨block.pageRVA.toNat, block.blockSize.toNat, block.entries.map fun e => (e.type, e.offset)⟩

/-- The blocks in the order of their pages. -/
def sortedBlocks (blocks : PeRelocBlocks) : PeRelocBlocks :=
  blocks.insertionSort fun b c => b.1 ≤ c.1

theorem paddedEntries_cases (entries : List PeRelocationEntry) :
    2 ∣ (paddedEntries entries).length ∧
      (paddedEntries entries).length ≤ entries.length + 1 ∧
      (∀ e ∈ paddedEntries entries, e ∈ entries ∨ e = ⟨0, 0⟩) ∧
      (paddedEntries entries).filter (fun e => e.type = IMAGE_REL_BASED_DIR64)
        = entries.filter fun e => e.type = IMAGE_REL_BASED_DIR64 := by
  unfold paddedEntries
  split
  · rename_i hodd
    refine ⟨?_, ?_, ?_, ?_⟩
    · rw [List.length_append, List.length_singleton]
      omega
    · rw [List.length_append, List.length_singleton]
    · intro e he
      rcases List.mem_append.mp he with he | he
      · exact Or.inl he
      · exact Or.inr (List.mem_singleton.mp he)
    · rw [List.filter_append]
      simp [IMAGE_REL_BASED_DIR64]
  · exact ⟨by omega, Nat.le_succ _, fun e he => Or.inl he, rfl⟩

section

variable {segmentOffset : Nat} {blocks : PeRelocBlocks} {offsets : List Nat}
  {b : Nat × PeRelocationBlock}

theorem perm_sortedBlocks (blocks : PeRelocBlocks) : (sortedBlocks blocks).Perm blocks :=
  List.perm_insertionSort _ _

/-- Pages ascend from block to block. -/
theorem ascending_sortedBlocks (h : Collected blocks offsets) :
    (sortedBlocks blocks).Pairwise fun b c => b.1 < c.1 := by
  have htotal : Std.Total fun b c : Nat × PeRelocationBlock => b.1 ≤ c.1 :=
    ⟨fun b c => Nat.le_total b.1 c.1⟩
  have htrans : IsTrans (Nat × PeRelocationBlock) fun b c => b.1 ≤ c.1 :=
    ⟨fun _ _ _ hab hbc => Nat.le_trans hab hbc⟩
  have hsorted : (sortedBlocks blocks).Pairwise fun b c => b.1 ≤ c.1 :=
    List.pairwise_insertionSort _ _
  have hnodup : ((sortedBlocks blocks).map Prod.fst).Nodup :=
    ((perm_sortedBlocks blocks).map Prod.fst).nodup_iff.mpr h.nodup
  have hne : (sortedBlocks blocks).Pairwise fun b c => b.1 ≠ c.1 := List.pairwise_map.mp hnodup
  exact (hsorted.and hne).imp fun hlt => Nat.lt_of_le_of_ne hlt.1 hlt.2

/-- The page of a block is not behind the places in it. -/
theorem Collected.page_le (h : Collected blocks offsets) (hb : b ∈ blocks) :
    ∃ x ∈ offsets, b.1 ≤ x := by
  obtain ⟨e, he⟩ := List.exists_mem_of_ne_nil _ (h.nonempty b hb)
  refine ⟨b.1 + e.offset, ?_, Nat.le_add_right _ _⟩
  exact h.perm.mem_iff.mp (List.mem_flatMap.mpr ⟨b, hb, List.mem_map_of_mem he⟩)

theorem Collected.length_le (h : Collected blocks offsets) (hb : b ∈ blocks) :
    b.2.entries.length ≤ offsets.length := by
  have hsub : (offsetsOf b).length ≤ (blocks.flatMap offsetsOf).length := by
    obtain ⟨pre, post, rfl⟩ := List.append_of_mem hb
    rw [List.flatMap_append, List.flatMap_cons, List.length_append, List.length_append]
    omega
  rw [h.perm.length_eq, offsetsOf, List.length_map] at hsub
  exact hsub

variable (h : Collected blocks offsets) (hpage : ∀ x ∈ offsets, segmentOffset + x < 2 ^ 32)
  (hcount : 12 * offsets.length < 2 ^ 32)

include h hpage

theorem page_rawOf (hb : b ∈ blocks) : (rawOf segmentOffset b).page = segmentOffset + b.1 := by
  obtain ⟨x, hx, hle⟩ := h.page_le hb
  have hlt := hpage x hx
  show (UInt32.ofNat (b.2.pageRVA.toNat + segmentOffset)).toNat = _
  rw [(h.page b hb).2, ofNat_toNat (n := b.1) (by omega), ofNat_toNat (by omega)]
  exact Nat.add_comm _ _

omit h hpage in
theorem mem_entries_finish {e : PeRelocationEntry} :
    e ∈ (finishBlock segmentOffset b.2).entries ↔ e ∈ paddedEntries b.2.entries :=
  (List.perm_insertionSort _ _).mem_iff

omit hpage in
theorem entries_finish (hb : b ∈ blocks) :
    ∀ e ∈ (finishBlock segmentOffset b.2).entries, e.offset < 4096 ∧
      (e.type = IMAGE_REL_BASED_DIR64 ∨ e.type = IMAGE_REL_BASED_ABSOLUTE) := by
  intro e he
  rcases (paddedEntries_cases _).2.2.1 e (mem_entries_finish.mp he) with hold | rfl
  · exact ⟨(h.entries b hb e hold).1, Or.inl (h.entries b hb e hold).2⟩
  · exact ⟨by decide, Or.inr rfl⟩

include hcount

omit hpage in
theorem size_rawOf (hb : b ∈ blocks) :
    (rawOf segmentOffset b).size = 8 + 2 * (paddedEntries b.2.entries).length ∧
      (rawOf segmentOffset b).entries.length = (paddedEntries b.2.entries).length := by
  have hle := h.length_le hb
  have hpad := (paddedEntries_cases b.2.entries).2.1
  have hpos := List.length_pos_of_ne_nil (h.nonempty b hb)
  refine ⟨?_, ?_⟩
  · show (UInt32.ofNat (8 + 2 * (paddedEntries b.2.entries).length)).toNat = _
    exact ofNat_toNat (by omega)
  · show ((finishBlock segmentOffset b.2).entries.map _).length = _
    rw [List.length_map]
    exact (List.perm_insertionSort _ _).length_eq

omit hpage in
theorem fits_rawOf (hb : b ∈ blocks) : (rawOf segmentOffset b).Fits := by
  obtain ⟨hsize, hentries⟩ : (rawOf segmentOffset b).size = _ ∧ _ := size_rawOf h hcount hb
  refine ⟨UInt32.toNat_lt _, UInt32.toNat_lt _, ?_, ?_⟩
  · rw [hsize, hentries]
  · intro e he
    obtain ⟨e, he', rfl⟩ := List.mem_map.mp he
    obtain ⟨hoffset, htype⟩ := entries_finish h hb e he'
    refine ⟨?_, hoffset⟩
    rcases htype with hdir | habs
    · show e.type < 16
      rw [hdir]
      decide
    · show e.type < 16
      rw [habs]
      decide

omit hpage in
theorem relocData_eq :
    relocData segmentOffset blocks
      = encodeRaw ((sortedBlocks blocks).map (rawOf segmentOffset)) := by
  rw [relocData, encodeRaw, List.flatMap_map]
  refine List.flatMap_congr fun b hb => ?_
  have hmem := (perm_sortedBlocks blocks).mem_iff.mp hb
  have hentries : (finishBlock segmentOffset b.2).entries.flatMap PeRelocationEntry.bytes
      = (rawOf segmentOffset b).entries.flatMap RawBlock.entryBytes := by
    show _ = List.flatMap _ (List.map _ _)
    rw [List.flatMap_map]
    refine List.flatMap_congr fun e he => ?_
    have hfits := (fits_rawOf h hcount hmem).entries (e.type, e.offset)
      (List.mem_map_of_mem (f := fun e : PeRelocationEntry => (e.type, e.offset)) he)
    rw [PeRelocationEntry.bytes, Nat.mod_eq_of_lt hfits.1, Nat.mod_eq_of_lt hfits.2]
    rfl
  show _ ++ _ ++ _ = _ ++ (_ ++ _)
  rw [List.append_assoc, hentries]
  rfl

omit hcount in
/-- The words of a block are its places, in order. -/
theorem words_rawOf (hb : b ∈ blocks) :
    ((rawOf segmentOffset b).words).Perm ((offsetsOf b).map fun x => segmentOffset + x) ∧
      ((rawOf segmentOffset b).words).Pairwise (· ≤ ·) ∧
      ∀ x ∈ (rawOf segmentOffset b).words,
        segmentOffset + b.1 ≤ x ∧ x < segmentOffset + b.1 + 4096 := by
  have hrva := page_rawOf h hpage hb
  have hwords : (rawOf segmentOffset b).words
      = ((finishBlock segmentOffset b.2).entries.filter
          fun e => e.type = IMAGE_REL_BASED_DIR64).map fun e => segmentOffset + b.1 + e.offset := by
    show (List.filter _ (List.map _ _)).map _ = _
    rw [List.filter_map, List.map_map, hrva]
    rfl
  have hall : b.2.entries.filter (fun e => e.type = IMAGE_REL_BASED_DIR64) = b.2.entries := by
    rw [List.filter_eq_self]
    exact fun e he => decide_eq_true (h.entries b hb e he).2
  have htotal : Std.Total fun e f : PeRelocationEntry => e.offset ≤ f.offset :=
    ⟨fun e f => Nat.le_total e.offset f.offset⟩
  have htrans : IsTrans PeRelocationEntry fun e f => e.offset ≤ f.offset :=
    ⟨fun _ _ _ hab hbc => Nat.le_trans hab hbc⟩
  have hsorted : (finishBlock segmentOffset b.2).entries.Pairwise fun e f => e.offset ≤ f.offset :=
    List.pairwise_insertionSort _ _
  have hperm : (finishBlock segmentOffset b.2).entries.Perm (paddedEntries b.2.entries) :=
    List.perm_insertionSort _ _
  rw [hwords]
  refine ⟨?_, ?_, ?_⟩
  · refine ((hperm.filter _).map _).trans ?_
    rw [(paddedEntries_cases _).2.2.2, hall, offsetsOf, List.map_map]
    refine List.Perm.of_eq (List.map_congr_left fun e _ => ?_)
    exact Nat.add_assoc _ _ _
  · rw [List.pairwise_map]
    exact (hsorted.filter _).imp fun hle => Nat.add_le_add_left hle _
  · intro x hx
    obtain ⟨e, he, rfl⟩ := List.mem_map.mp hx
    have hoffset := (entries_finish h hb e (List.mem_filter.mp he).1).1
    omega

/-- **The table** has a block for every page, in order and aligned, and names every place once, in
order, whatever order they came in. -/
theorem decode_relocData (hdvd : 4096 ∣ segmentOffset) :
    ∃ bs, walk (relocData segmentOffset blocks) = some bs ∧
      (∀ b ∈ bs, 4 ∣ b.size ∧ 4096 ∣ b.page) ∧ bs.Pairwise (fun b c => b.page < c.page) ∧
      decode (relocData segmentOffset blocks)
        = some ((offsets.map fun x => segmentOffset + x).insertionSort (· ≤ ·)) := by
  have hmem : ∀ b ∈ sortedBlocks blocks, b ∈ blocks :=
    fun b hb => (perm_sortedBlocks blocks).mem_iff.mp hb
  have hfits : ∀ b ∈ (sortedBlocks blocks).map (rawOf segmentOffset), b.Fits := by
    intro b hb
    obtain ⟨c, hc, rfl⟩ := List.mem_map.mp hb
    exact fits_rawOf h hcount (hmem c hc)
  have hwalk := walk_encodeRaw hfits
  rw [← relocData_eq h hcount] at hwalk
  have hsize : ∀ b ∈ (sortedBlocks blocks).map (rawOf segmentOffset),
      4 ∣ b.size ∧ 4096 ∣ b.page := by
    intro b hb
    obtain ⟨c, hc, rfl⟩ := List.mem_map.mp hb
    have heven := (paddedEntries_cases c.2.entries).1
    rw [(size_rawOf h hcount (hmem c hc)).1, page_rawOf h hpage (hmem c hc)]
    exact ⟨by omega, Nat.dvd_add hdvd (h.page c (hmem c hc)).1⟩
  have htype : ∀ b ∈ (sortedBlocks blocks).map (rawOf segmentOffset), ∀ e ∈ b.entries,
      e.1 = IMAGE_REL_BASED_DIR64 ∨ e.1 = IMAGE_REL_BASED_ABSOLUTE := by
    intro b hb e he
    obtain ⟨c, hc, rfl⟩ := List.mem_map.mp hb
    obtain ⟨f, hf, rfl⟩ := List.mem_map.mp he
    exact (entries_finish h (hmem c hc) f hf).2
  refine ⟨_, hwalk, hsize, ?_, ?_⟩
  · rw [List.pairwise_map]
    refine (ascending_sortedBlocks h).imp_of_mem fun {b c} hb hc hlt => ?_
    rw [page_rawOf h hpage (hmem b hb), page_rawOf h hpage (hmem c hc)]
    omega
  · rw [decode_of_walk hwalk
      (fun b hb => Nat.dvd_trans (by decide) (hsize b hb).1) htype]
    -- both lists are in order and have the same elements
    refine congrArg some (@List.Perm.eq_of_pairwise _ (· ≤ ·) _ _
      (fun a b _ _ hab hba => Nat.le_antisymm hab hba) ?_ (List.pairwise_insertionSort _ _) ?_)
    · rw [List.flatMap_map, List.pairwise_flatMap]
      refine ⟨fun b hb => (words_rawOf h hpage (hmem b hb)).2.1, ?_⟩
      refine (ascending_sortedBlocks h).imp_of_mem fun {b c} hb hc hlt x hx y hy => ?_
      have hx := (words_rawOf h hpage (hmem b hb)).2.2 x hx
      have hy := (words_rawOf h hpage (hmem c hc)).2.2 y hy
      have hb' := (h.page b (hmem b hb)).1
      have hc' := (h.page c (hmem c hc)).1
      omega
    · refine List.Perm.trans ?_ (List.perm_insertionSort _ _).symm
      refine List.Perm.trans ?_ (h.perm.map _)
      rw [List.flatMap_map, List.map_flatMap]
      refine List.Perm.trans ?_ ((perm_sortedBlocks blocks).flatMap_right _)
      exact List.Perm.flatMap_left _ fun b hb => (words_rawOf h hpage (hmem b hb)).1

omit hpage in
/-- The size of the table. -/
theorem length_relocData : (relocData segmentOffset blocks).length ≤ 12 * offsets.length := by
  have hmem : ∀ b ∈ sortedBlocks blocks, b ∈ blocks :=
    fun b hb => (perm_sortedBlocks blocks).mem_iff.mp hb
  have hfits : ∀ b ∈ (sortedBlocks blocks).map (rawOf segmentOffset), b.Fits := by
    intro b hb
    obtain ⟨c, hc, rfl⟩ := List.mem_map.mp hb
    exact fits_rawOf h hcount (hmem c hc)
  have hone : ∀ b ∈ sortedBlocks blocks,
      (rawOf segmentOffset b).size ≤ 12 * (offsetsOf b).length := by
    intro b hb
    have hpad := (paddedEntries_cases b.2.entries).2.1
    have hpos := List.length_pos_of_ne_nil (h.nonempty b (hmem b hb))
    rw [(size_rawOf h hcount (hmem b hb)).1, offsetsOf, List.length_map]
    omega
  have hlen : ((sortedBlocks blocks).flatMap offsetsOf).length = offsets.length :=
    (((perm_sortedBlocks blocks).flatMap_right offsetsOf).trans h.perm).length_eq
  rw [relocData_eq h hcount, length_encodeRaw hfits, List.map_map, ← hlen]
  clear hmem hfits hlen
  generalize sortedBlocks blocks = bs at hone ⊢
  induction bs with
  | nil => exact Nat.zero_le _
  | cons b bs ih =>
      rw [List.forall_mem_cons] at hone
      have hrest := ih hone.2
      have hfirst := hone.1
      rw [List.map_cons, List.sum_cons, List.flatMap_cons, List.length_append, Function.comp]
      omega

end

end LoliLoader.PyElf2Efi
