/-
# LoliLoader.PyElf2Efi.Layout -- where the sections are

The sections of the image stand one behind the other, each on pages of its own, with headers that
agree with their data. `convert_sections`, `copy_sections` and the later passes keep it so, as long
as no address needs more than 32 bits.

Each pass adds sections at the next address, which is the first one on a page behind all there are.
`Arranged` is the invariant: pages of their own, ascending, and each section exact, which means that
its sizes are those of its data.

`convert_sections` pads every section it converts at the front, down to the page that its data begin
on; `Covers.padToPage` says that it covers the same sections of the file afterwards. `copy_sections`
puts sections that are named on the command line behind them, whatever is in them.

The addresses are fields of 32 bits, and a sum that is too large wraps around without any notice.
The bound under which this does not happen is carried through the loops as a bound on the end of the
last section.
-/
import LoliLoader.PyElf2Efi.Grouping

namespace LoliLoader.PyElf2Efi

open Bytes
open C (bind_eq_ok)

/-! ## Sections one behind the other -/

/-- The header of the section agrees with its data: both sizes are those of the data, and it starts
with a page. -/
structure PeSection.Exact (peS : PeSection) : Prop where
  virtualSize : peS.virtualSize.toNat = peS.data.length
  sizeOfRawData : peS.sizeOfRawData.toNat = alignTo peS.data.length FILE_ALIGNMENT
  aligned : 4096 ∣ peS.start

/-- The sections are in the order of their addresses, none reaches into the next one, and the header
of each agrees with its data. Every pass keeps this, or adds a section so that it holds again. -/
structure Arranged (sections : List PeSection) : Prop where
  exact : ∀ s ∈ sections, s.Exact
  ascending : sections.Pairwise fun s t => s.stop ≤ t.start

/-- What of the optional header the passes over the sections keep: its class, the preferred base,
and the directory of the relocation table, which is filled in at the end. The sizes and the start of
the code do change. -/
structure SameHeader (opt opt' : PeOptionalHeader) : Prop where
  elfclass : opt'.elfclass = opt.elfclass
  imageBase : opt'.imageBase = opt.imageBase
  baseRelocationTable : opt'.baseRelocationTable = opt.baseRelocationTable

theorem SameHeader.refl (opt : PeOptionalHeader) : SameHeader opt opt := ⟨rfl, rfl, rfl⟩

theorem SameHeader.trans {opt opt' opt'' : PeOptionalHeader} (h : SameHeader opt opt')
    (h' : SameHeader opt' opt'') : SameHeader opt opt'' where
  elfclass := h'.elfclass.trans h.elfclass
  imageBase := h'.imageBase.trans h.imageBase
  baseRelocationTable := h'.baseRelocationTable.trans h.baseRelocationTable

theorem ofNat_toNat {n : Nat} (h : n < 2 ^ 32) : (UInt32.ofNat n).toNat = n := by
  rw [UInt32.toNat_ofNat', Nat.mod_eq_of_lt h]

theorem alignTo_file_le {n : Nat} : alignTo n FILE_ALIGNMENT ≤ alignTo n SECTION_ALIGNMENT :=
  (roundedUp_file n).le_of_dvd (Nat.dvd_trans ⟨8, rfl⟩ (roundedUp_page n).dvd) (roundedUp_page n).le

section

variable {sections : List PeSection} {peS : PeSection} {a : Nat}

theorem nextSectionAddress_eq_ok :
    nextSectionAddress sections = .ok a ↔ ∃ s, sections.getLast? = some s ∧
      a = alignTo (s.virtualAddress.toNat + s.virtualSize.toNat) SECTION_ALIGNMENT := by
  unfold nextSectionAddress
  cases sections.getLast? with
  | none => simp
  | some s => simp [eq_comm]

theorem Arranged.le_last {s last : PeSection} (h : Arranged sections)
    (hlast : sections.getLast? = some last) (hs : s ∈ sections) : s.stop ≤ last.stop := by
  obtain ⟨pre, rfl⟩ := List.getLast?_eq_some_iff.mp hlast
  rcases List.mem_append.mp hs with hs | hs
  · have := (List.pairwise_append.mp h.ascending).2.2 s hs last (List.mem_singleton_self last)
    exact le_trans this (Nat.le_add_right _ _)
  · rw [List.mem_singleton.mp hs]

/-- The next address is the first one on a page behind all sections. -/
theorem Arranged.next (h : Arranged sections) (ha : nextSectionAddress sections = .ok a) :
    4096 ∣ a ∧ (∀ s ∈ sections, s.stop ≤ a) ∧
      ∃ last ∈ sections, a = alignTo last.stop SECTION_ALIGNMENT := by
  obtain ⟨last, hlast, rfl⟩ := nextSectionAddress_eq_ok.mp ha
  have hmem := List.mem_of_getLast? hlast
  have hstop : last.virtualAddress.toNat + last.virtualSize.toNat = last.stop := by
    rw [(h.exact last hmem).virtualSize]
    rfl
  rw [hstop]
  refine ⟨(roundedUp_page _).dvd, fun s hs => ?_, last, hmem, rfl⟩
  exact le_trans (h.le_last hlast hs) (roundedUp_page _).le

theorem Arranged.append (h : Arranged sections) (hpeS : peS.Exact)
    (hle : ∀ s ∈ sections, s.stop ≤ peS.start) : Arranged (sections ++ [peS]) where
  exact s hs := by
    rcases List.mem_append.mp hs with hs | hs
    · exact h.exact s hs
    · rw [List.mem_singleton.mp hs]
      exact hpeS
  ascending := by
    refine List.pairwise_append.mpr ⟨h.ascending, List.pairwise_singleton _ _, ?_⟩
    intro s hs t ht
    rw [List.mem_singleton.mp ht]
    exact hle s hs

/-- A section put at the next address. -/
theorem exact_of_next (peS : PeSection) {data : List UInt8} (ha : 4096 ∣ a)
    (hstart : peS.virtualAddress = UInt32.ofNat a)
    (hsize : peS.virtualSize = UInt32.ofNat peS.data.length)
    (hraw : peS.sizeOfRawData = UInt32.ofNat (alignTo peS.data.length FILE_ALIGNMENT))
    (hdata : peS.data = data) (hlt : a + alignTo data.length SECTION_ALIGNMENT < 2 ^ 32) :
    peS.Exact ∧ peS.start = a := by
  subst hdata
  have hle := (roundedUp_page peS.data.length).le
  have hfile := @alignTo_file_le peS.data.length
  have hstart' : peS.start = a := by
    rw [PeSection.start, hstart]
    exact ofNat_toNat (by omega)
  refine ⟨⟨?_, ?_, ?_⟩, hstart'⟩
  · rw [hsize]
    exact ofNat_toNat (by omega)
  · rw [hraw]
    exact ofNat_toNat (by omega)
  · rw [hstart']
    exact ha

end

/-! ## convert_sections -/

section

variable {elf : ElfFile} {relro : Option ElfSegment} {peS : PeSection} {group : List ElfSection}
  {name : String} {c c' : Converted} {yielded : List PeSection}

theorem start_padToPage (peS : PeSection) (name : String) :
    (padToPage peS name).start = peS.start / 4096 * 4096 := by
  show (UInt32.ofNat (alignDown peS.virtualAddress.toNat SECTION_ALIGNMENT)).toNat = _
  have hlt := peS.virtualAddress.toNat_lt
  have hle := Nat.div_mul_le_self peS.virtualAddress.toNat 4096
  rw [alignDown_page, ofNat_toNat (by omega)]
  rfl

theorem data_padToPage (peS : PeSection) (name : String) :
    (padToPage peS name).data = List.replicate (peS.start % 4096) 0 ++ peS.data := by
  show List.replicate (peS.virtualAddress.toNat - (padToPage peS name).start) 0 ++ peS.data = _
  rw [start_padToPage, PeSection.start]
  congr 2
  omega

theorem stop_padToPage (peS : PeSection) (name : String) :
    (padToPage peS name).stop = peS.stop := by
  rw [PeSection.stop, start_padToPage, data_padToPage, List.length_append, List.length_replicate,
    PeSection.stop]
  omega

/-- **Padding** a section to its page keeps what it covers: the zeros in front of the data are below
every section of the file that is in it. -/
theorem Covers.padToPage (h : Covers elf relro peS group) (name : String) :
    Covers elf relro (padToPage peS name) group where
  ascending := h.ascending
  start s hs := by
    have := h.start s hs
    rw [start_padToPage]
    omega
  stop s hs := by
    rw [stop_padToPage]
    exact h.stop s hs
  reaches := by
    obtain ⟨s, hs, hstop⟩ := h.reaches
    exact ⟨s, hs, by rw [stop_padToPage, hstop]⟩
  bytes k hk := by
    rw [data_padToPage] at hk ⊢
    rw [List.length_append, List.length_replicate] at hk
    rw [start_padToPage]
    by_cases hpad : k < peS.start % 4096
    · have hnone : memoryOf group (peS.start / 4096 * 4096 + k) = 0 := by
        refine memoryOf_not_mem fun s hs => Or.inl ?_
        have := h.start s hs
        omega
      rw [List.getD_append _ _ _ _ (by rw [List.length_replicate]; exact hpad), hnone]
      exact List.getD_replicate _ (by omega)
    · have hk' : k - peS.start % 4096 < peS.data.length := by omega
      have hbytes := h.bytes _ hk'
      rw [List.getD_append_right _ _ _ _ (by rw [List.length_replicate]; omega),
        List.length_replicate, hbytes]
      congr 1
      omega
  rights := h.rights

theorem exact_padToPage (hsmall : peS.stop + 4096 ≤ 2 ^ 32) (name : String) :
    (padToPage peS name).Exact := by
  have hstop := stop_padToPage peS name
  have hpage := roundedUp_file (padToPage peS name).data.length
  have hle := hpage.lt
  rw [PeSection.stop] at hstop
  refine ⟨?_, ?_, ?_⟩
  · show (UInt32.ofNat (padToPage peS name).data.length).toNat = _
    exact ofNat_toNat (by omega)
  · show (UInt32.ofNat (alignTo (padToPage peS name).data.length FILE_ALIGNMENT)).toNat = _
    exact ofNat_toNat (by omega)
  · rw [start_padToPage]
    exact Nat.dvd_mul_left _ _

theorem convertSection_ok (h : convertSection c peS = .ok c') :
    ∃ name, c'.sections = c.sections ++ [padToPage peS name] ∧
      c.lastVma.1 + c.lastVma.2 ≤ (padToPage peS name).start ∧
      c'.lastVma = ((padToPage peS name).start, (padToPage peS name).virtualSize.toNat) ∧
      c'.opt = countSection c.opt name (padToPage peS name) := by
  obtain ⟨name, -, h⟩ := bind_eq_ok.mp h
  dsimp only at h
  split at h
  · cases h
  · rename_i hle
    obtain rfl := Except.ok.inj h
    exact ⟨name, rfl, Nat.le_of_not_lt hle, rfl, rfl⟩

theorem sameHeader_countSection (opt : PeOptionalHeader) (name : String) (peS : PeSection) :
    SameHeader opt (countSection opt name peS) := by
  simp only [countSection, countInitialized]
  split_ifs <;> exact ⟨rfl, rfl, rfl⟩

/-- **The loop** converts what is yielded, and takes no section that starts before the last one
ends. Since sections are padded down to a page, this is more than that those of the file are
apart. -/
theorem convertSections_loop (h : yielded.foldlM convertSection c = .ok c') :
    ∃ new, c'.sections = c.sections ++ new ∧
      List.Forall₂ (fun p q => ∃ name, q = padToPage p name) yielded new ∧
      (∀ q ∈ new, c.lastVma.1 + c.lastVma.2 ≤ q.start) ∧
      new.Pairwise (fun s t => s.start + s.virtualSize.toNat ≤ t.start) ∧
      SameHeader c.opt c'.opt := by
  induction yielded generalizing c with
  | nil =>
      obtain rfl := Except.ok.inj h
      exact ⟨[], (List.append_nil _).symm, .nil, by simp, .nil, .refl _⟩
  | cons p yielded ih =>
      rw [List.foldlM_cons] at h
      obtain ⟨d, hstep, hrest⟩ := bind_eq_ok.mp h
      obtain ⟨name, hsections, hle, hlast, hopt⟩ := convertSection_ok hstep
      obtain ⟨new, hnew, hpad, hbehind, hasc, hkept⟩ := ih hrest
      rw [hlast] at hbehind
      rw [hopt] at hkept
      refine ⟨padToPage p name :: new, ?_, .cons ⟨name, rfl⟩ hpad, ?_, ?_,
        (sameHeader_countSection _ _ _).trans hkept⟩
      · rw [hnew, hsections, List.append_assoc]
        rfl
      · rw [List.forall_mem_cons]
        refine ⟨hle, fun q hq => ?_⟩
        have := hbehind q hq
        dsimp only at this
        omega
      · exact List.pairwise_cons.mpr ⟨hbehind, hasc⟩

end

/-- The sections of the image have those of the ELF file in them, group by group: a group is a run
of sections with the same rights. Put together, the groups are all the sections that are kept, and
all data can be changed, which `apply_elf_relative_relocation` needs. -/
structure Carries (elf : ElfFile) (sections : List PeSection) : Prop where
  arranged : Arranged sections
  covers : ∃ relro groups, findRelro elf.segments = .ok relro ∧
    List.Forall₂ (Covers elf relro) sections groups ∧ groups.flatten = elf.copied
  unfrozen : ∀ s ∈ sections, s.frozen = false

/-- **convert_sections**: every section of the file that is kept is in the image, at its own
address. The bound is on the ends of the sections with the page that the padding may need. -/
theorem convertSections_carries {elf : ElfFile} {opt opt' : PeOptionalHeader}
    {sections : List PeSection} (hsmall : ∀ s ∈ elf.copied, s.stop + 4096 ≤ 2 ^ 32)
    (h : convertSections elf opt = .ok (opt', sections)) :
    Carries elf sections ∧ SameHeader opt opt' := by
  obtain ⟨c, hloop, hc⟩ := bind_eq_ok.mp h
  obtain ⟨rfl, rfl⟩ := Prod.mk.inj (Except.ok.inj hc)
  obtain ⟨yielded, hyielded, hfold⟩ := Generator.forIn_eq_ok hloop
  obtain ⟨new, hnew, hpad, -, hasc, hkept⟩ := convertSections_loop hfold
  change c.sections = new at hnew
  rw [hnew]
  -- what has been yielded covers the sections of the file
  obtain ⟨relro, groups, hrelro, hcovers, hflat⟩ : ∃ relro groups,
      findRelro elf.segments = .ok relro ∧ List.Forall₂ (Covers elf relro) yielded groups ∧
        groups.flatten = elf.copied := by
    unfold iterCopySections at hyielded
    cases hrelro : findRelro elf.segments with
    | error e =>
        rw [hrelro] at hyielded
        cases hyielded
    | ok relro =>
        rw [hrelro] at hyielded
        have hstarts : ∀ s ∈ elf.copied, s.shAddr < 2 ^ 32 := by
          intro s hs
          have := hsmall s hs
          unfold ElfSection.stop at this
          omega
        obtain ⟨groups, hgroups, hflat⟩ := (covers_iterCopyLoop hstarts).1 hyielded
        exact ⟨relro, groups, rfl, hgroups, hflat⟩
  have hcovered : List.Forall₂ (Covers elf relro) new groups := by
    clear hflat hnew hasc hyielded hfold
    induction hpad generalizing groups with
    | nil => exact hcovers
    | cons hp _ ih =>
        obtain ⟨name, rfl⟩ := hp
        cases hcovers with
        | cons hcover hrest => exact .cons (hcover.padToPage name) (ih _ hrest)
  have hstops : ∀ p ∈ yielded, p.stop + 4096 ≤ 2 ^ 32 := by
    intro p hp
    obtain ⟨group, hgroup, hcover⟩ := exists_of_mem_left hcovers hp
    obtain ⟨s, hs, hstop⟩ := hcover.reaches
    rw [← hstop]
    exact hsmall s (hflat ▸ List.mem_flatten_of_mem hgroup hs)
  have hexact : ∀ q ∈ new, q.Exact ∧ q.frozen = false := by
    intro q hq
    obtain ⟨p, hp, name, rfl⟩ := exists_of_mem_right hpad hq
    exact ⟨exact_padToPage (hstops p hp) name, rfl⟩
  refine ⟨⟨⟨fun q hq => (hexact q hq).1, ?_⟩, ⟨relro, groups, hrelro, hcovered, hflat⟩,
    fun q hq => (hexact q hq).2⟩, hkept⟩
  refine hasc.imp_of_mem fun {s t} hs _ hle => ?_
  rw [(hexact s hs).1.virtualSize] at hle
  exact hle

/-! ## copy_sections -/

/-- The pages of a section that is copied by its name. -/
def copiedSize (elf : ElfFile) (name : String) : Nat :=
  match elf.sectionByName name with
  | none => 0
  | some elfS => alignTo elfS.data.length SECTION_ALIGNMENT

section

variable {elf : ElfFile} {name : String} {names : List String}
  {state state' : PeOptionalHeader × List PeSection}

theorem copySection_ok (h : copySection elf state name = .ok state') :
    elf.sectionByName name = none ∧ state' = state ∨
      ∃ elfS bytes a, elf.sectionByName name = some elfS ∧ nextSectionAddress state.2 = .ok a ∧
        state' = (countInitialized state.1 (copiedSection elfS bytes a),
          state.2 ++ [copiedSection elfS bytes a]) := by
  unfold copySection at h
  cases hfind : elf.sectionByName name with
  | none =>
      rw [hfind] at h
      exact Or.inl ⟨rfl, (Except.ok.inj h).symm⟩
  | some elfS =>
      rw [hfind] at h
      dsimp only at h
      split at h
      · cases h
      · split at h
        · cases h
        · obtain ⟨bytes, -, h⟩ := bind_eq_ok.mp h
          obtain ⟨a, ha, h⟩ := bind_eq_ok.mp h
          exact Or.inr ⟨elfS, bytes, a, rfl, ha, (Except.ok.inj h).symm⟩

theorem nextSectionAddress_append (sections : List PeSection) (peS : PeSection) :
    nextSectionAddress (sections ++ [peS])
      = .ok (alignTo (peS.virtualAddress.toNat + peS.virtualSize.toNat) SECTION_ALIGNMENT) := by
  rw [nextSectionAddress, List.getLast?_concat]

/-- The next address moves on by the pages of the section. -/
theorem next_of_exact {peS : PeSection} {a : Nat} (hexact : peS.Exact) (hstart : peS.start = a)
    (ha : 4096 ∣ a) :
    alignTo (peS.virtualAddress.toNat + peS.virtualSize.toNat) SECTION_ALIGNMENT
      = a + alignTo peS.data.length SECTION_ALIGNMENT := by
  rw [hexact.virtualSize, show peS.virtualAddress.toNat = a from hstart]
  exact (roundedUp_page _).unique ((roundedUp_page peS.data.length).add_dvd ha)

/-- **The loop** puts the sections it finds behind the others, read-only and with pages of their
own. `hroom` is the room that is left for them below 4 GiB, where the addresses would wrap. -/
theorem copySections_loop (h : names.foldlM (copySection elf) state = .ok state')
    (harr : Arranged state.2)
    (hroom : ∀ a, nextSectionAddress state.2 = .ok a →
      a + (names.map (copiedSize elf)).sum < 2 ^ 32) :
    ∃ new, state'.2 = state.2 ++ new ∧ Arranged state'.2 ∧
      (∀ s ∈ new, s.characteristics = PE_CHARACTERISTICS_R) ∧
      new.length ≤ names.length ∧ SameHeader state.1 state'.1 ∧
      ∀ a', nextSectionAddress state'.2 = .ok a' → ∃ a, nextSectionAddress state.2 = .ok a ∧
        a' ≤ a + (names.map (copiedSize elf)).sum := by
  induction names generalizing state with
  | nil =>
      obtain rfl := Except.ok.inj h
      exact ⟨[], (List.append_nil _).symm, harr, by simp, le_refl 0, .refl _,
        fun a ha => ⟨a, ha, le_refl a⟩⟩
  | cons name names ih =>
      rw [List.foldlM_cons] at h
      obtain ⟨mid, hstep, hrest⟩ := bind_eq_ok.mp h
      rw [List.map_cons, List.sum_cons] at hroom ⊢
      rcases copySection_ok hstep with ⟨hnone, rfl⟩ | ⟨elfS, bytes, a, hfind, ha, rfl⟩
      · obtain ⟨new, hnew, harr', hrights, hlen, hsame, hnext⟩ :=
          ih hrest harr fun a ha => by have := hroom a ha; omega
        refine ⟨new, hnew, harr', hrights, by simp; omega, hsame, fun a' ha' => ?_⟩
        obtain ⟨a, ha, hle⟩ := hnext a' ha'
        exact ⟨a, ha, by omega⟩
      · have hsize : copiedSize elf name = alignTo elfS.data.length SECTION_ALIGNMENT := by
          rw [copiedSize, hfind]
        have hlt := hroom a ha
        rw [hsize] at hlt ⊢
        obtain ⟨hdvd, hbehind, -⟩ := harr.next ha
        obtain ⟨hexact, hstart⟩ := exact_of_next (copiedSection elfS bytes a) hdvd rfl rfl
          rfl rfl (by show a + alignTo elfS.data.length SECTION_ALIGNMENT < _; omega)
        have harr₁ : Arranged (state.2 ++ [copiedSection elfS bytes a]) :=
          harr.append hexact fun s hs => by rw [hstart]; exact hbehind s hs
        have hnext₁ := nextSectionAddress_append state.2 (copiedSection elfS bytes a)
        rw [next_of_exact hexact hstart hdvd] at hnext₁
        obtain ⟨new, hnew, harr', hrights, hlen, hsame, hnext⟩ := ih hrest harr₁ (by
          intro b hb
          obtain rfl := Except.ok.inj (hb.symm.trans hnext₁)
          show a + alignTo elfS.data.length SECTION_ALIGNMENT + _ < _
          omega)
        refine ⟨copiedSection elfS bytes a :: new, ?_, harr', ?_, ?_, ?_, fun a' ha' => ?_⟩
        · rw [hnew, List.append_assoc]
          rfl
        · exact List.forall_mem_cons.mpr ⟨rfl, hrights⟩
        · rw [List.length_cons, List.length_cons]
          omega
        · exact ⟨hsame.elfclass, hsame.imageBase, hsame.baseRelocationTable⟩
        · obtain ⟨b, hb, hle⟩ := hnext a' ha'
          obtain rfl := Except.ok.inj (hb.symm.trans hnext₁)
          refine ⟨a, ha, ?_⟩
          change a' ≤ a + alignTo elfS.data.length SECTION_ALIGNMENT + _ at hle
          omega

end

end LoliLoader.PyElf2Efi
