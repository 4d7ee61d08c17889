/-
# LoliLoader.Elf2Efi.Tables -- the relocations of a RELA and a REL table

Entries of type `R_X86_64_NONE` are skipped, but each other entry is stored at its own index: behind
a skipped entry the array has a gap, which holds what `malloc` returned.

The number of relocations that is returned is right all the same. So the first elements of the
array, as many as there are relocations, are the relocations only if no entry was skipped before one
that counts; otherwise one of them is lost, and what memory held takes its place. `Gapless` from the
library is this condition, and `NoneLast` says it of the entries.

The array of the second table begins behind the elements that count of the first, and overwrites
what is there. The addends of a REL table are in memory, where `data_at_vaddr` looks for them; that
it looks in the right place is a condition of its own (`AddendsFound`).

`relocations_loaded_iff` has three equivalences: for each of the two loops and for `load_relocs`.
They hold whatever memory held before, and it takes two different contents to see that the condition
is necessary.
-/
import LoliLoader.Elf2Efi.Parse
import LoliLoader.Elf2Efi.Slots
import LoliLoader.C.Gaps

namespace LoliLoader.Elf2Efi

open C Bytes

/-! ## One table -/

section

variable {α : Type} {rInfo : α → UInt64} {unsupported : String}
  {execReloc : α → Except Failure ExecReloc} {f : α → ExecReloc} {start : Nat}

/-- The entry is of type `R_X86_64_RELATIVE`, and so one that counts. -/
def isRelative (rInfo : α → UInt64) (r : α) : Bool := ELF64_R_TYPE (rInfo r) = R_X86_64_RELATIVE

/-- All entries are of the two types that are not rejected. -/
def Supported (rInfo : α → UInt64) (rs : List α) : Prop :=
  ∀ r ∈ rs, ELF64_R_TYPE (rInfo r) = R_X86_64_NONE ∨ ELF64_R_TYPE (rInfo r) = R_X86_64_RELATIVE

/-- No `R_X86_64_NONE` entry comes before an `R_X86_64_RELATIVE` one. -/
def NoneLast (rInfo : α → UInt64) (rs : List α) : Prop :=
  rs.Pairwise fun r r' => isRelative rInfo r' → isRelative rInfo r

/-- What the loop writes at the index of an entry. -/
def cell (rInfo : α → UInt64) (f : α → ExecReloc) (r : α) : Option ExecReloc :=
  if isRelative rInfo r then some (f r) else none

/-- The relocations of a table, in its order: those of the entries that count. -/
def relatives (rInfo : α → UInt64) (f : α → ExecReloc) (rs : List α) : List ExecReloc :=
  (rs.filter (isRelative rInfo)).map f

theorem isSome_cell (f : α → ExecReloc) (r : α) : (cell rInfo f r).isSome = isRelative rInfo r := by
  unfold cell
  split
  · simp [*]
  · simp [*]

theorem countP_cells (f : α → ExecReloc) (rs : List α) :
    (rs.map (cell rInfo f)).countP Option.isSome = rs.countP (isRelative rInfo) := by
  rw [List.countP_map]
  congr 1
  funext r
  exact isSome_cell f r

theorem gapless_cells (f : α → ExecReloc) (rs : List α) :
    Gapless (rs.map (cell rInfo f)) ↔ NoneLast rInfo rs := by
  rw [Gapless, NoneLast, List.pairwise_map]
  simp only [isSome_cell]

theorem filterMap_cells (f : α → ExecReloc) (rs : List α) :
    (rs.map (cell rInfo f)).filterMap id = relatives rInfo f rs := by
  induction rs with
  | nil => rfl
  | cons r rs ih =>
      rw [relatives, List.filter_cons, List.map_cons, List.filterMap_cons, ih]
      by_cases hr : isRelative rInfo r = true
      · simp [cell, hr, relatives]
      · simp [cell, hr, relatives]

/-- **The loop** fills the array with the cells of the entries, and counts those that are
relative. -/
theorem loadEntries_ok {rs : List α} (hsupported : Supported rInfo rs)
    (hreloc : ∀ r ∈ rs, isRelative rInfo r → execReloc r = .ok (f r)) {i n : Nat}
    {pre out : List ExecReloc} (hpre : pre.length = start + i) (hout : out.length = rs.length) :
    loadEntries rInfo unsupported execReloc start rs i (pre ++ out) n
      = .ok (pre ++ fill (rs.map (cell rInfo f)) out, n + rs.countP (isRelative rInfo)) := by
  induction rs generalizing i n pre out with
  | nil =>
      obtain rfl := List.length_eq_zero_iff.mp hout
      rfl
  | cons r rs ih =>
      obtain ⟨x, out, rfl⟩ := List.exists_cons_of_length_eq_add_one hout
      have hsupported' : Supported rInfo rs := fun r' hr' =>
        hsupported r' (List.mem_cons_of_mem r hr')
      have hreloc' : ∀ r' ∈ rs, isRelative rInfo r' → execReloc r' = .ok (f r') :=
        fun r' hr' => hreloc r' (List.mem_cons_of_mem r hr')
      have happend : ∀ y : ExecReloc, pre ++ y :: out = (pre ++ [y]) ++ out := by simp
      have hnext : ∀ (y : ExecReloc) (n' : Nat),
          loadEntries rInfo unsupported execReloc start rs (i + 1) (pre ++ y :: out) n'
            = .ok (pre ++ y :: fill (rs.map (cell rInfo f)) out,
              n' + rs.countP (isRelative rInfo)) := by
        intro y n'
        rw [happend, ih hsupported' hreloc' (by simp [hpre, Nat.add_assoc]) (Nat.succ.inj hout),
          List.append_assoc]
        rfl
      rw [List.map_cons, fill_cons]
      unfold loadEntries
      by_cases hrel : isRelative rInfo r = true
      · have htype : ELF64_R_TYPE (rInfo r) = R_X86_64_RELATIVE := of_decide_eq_true hrel
        have hcell : cell rInfo f r = some (f r) := if_pos hrel
        have hstore : storeReloc (pre ++ x :: out) (start + i) (f r) = .ok (pre ++ f r :: out) := by
          rw [storeReloc, if_pos (by simp [← hpre]), ← hpre,
            List.set_append_right _ _ (le_refl _), Nat.sub_self, List.set_cons_zero]
        rw [if_neg (by rw [htype]; decide), if_pos htype, hreloc r List.mem_cons_self hrel]
        show (storeReloc _ _ _ >>= _) = _
        rw [hstore]
        show loadEntries rInfo unsupported execReloc start rs (i + 1) _ (n + 1) = _
        rw [hnext, hcell, List.countP_cons_of_pos hrel, Nat.add_right_comm, Nat.add_assoc]
        rfl
      · have htype : ELF64_R_TYPE (rInfo r) = R_X86_64_NONE :=
          (hsupported r List.mem_cons_self).resolve_right fun h => hrel (decide_eq_true h)
        have hcell : cell rInfo f r = none := if_neg hrel
        rw [if_pos htype, hnext, hcell, List.countP_cons_of_neg hrel]
        rfl

/-- A loop that ends has got every relocation. -/
theorem execReloc_of_loadEntries {rs : List α} {i n : Nat} {relocs : List ExecReloc}
    {result : List ExecReloc × Nat}
    (h : loadEntries rInfo unsupported execReloc start rs i relocs n = .ok result) :
    ∀ r ∈ rs, isRelative rInfo r → ∃ reloc, execReloc r = .ok reloc := by
  induction rs generalizing i n relocs with
  | nil => simp
  | cons r rs ih =>
      unfold loadEntries at h
      intro r' hr' hrel'
      split at h
      · rename_i htype
        rcases List.mem_cons.mp hr' with rfl | hr'
        · have hrelative := of_decide_eq_true hrel'
          rw [htype] at hrelative
          exact absurd hrelative (by decide)
        · exact ih h r' hr' hrel'
      · split at h
        · obtain ⟨reloc, hreloc, h⟩ := bind_eq_ok.mp h
          obtain ⟨relocs', -, h⟩ := bind_eq_ok.mp h
          rcases List.mem_cons.mp hr' with rfl | hr'
          · exact ⟨reloc, hreloc⟩
          · exact ih h r' hr' hrel'
        · cases h

/-- The elements before `output` stay, and those that count are the relocations of the table
when nothing was skipped before one of them. -/
theorem take_fill_cells (f : α → ExecReloc) {rs : List α} (hlast : NoneLast rInfo rs)
    {out : List ExecReloc} (hout : out.length = rs.length) :
    (fill (rs.map (cell rInfo f)) out).take (rs.countP (isRelative rInfo))
      = relatives rInfo f rs := by
  have hfill := ((gapless_cells f rs).mpr hlast).take_fill
    (show (rs.map (cell rInfo f)).length = out.length by rw [List.length_map, hout])
  rwa [countP_cells, filterMap_cells] at hfill

/-- Otherwise they depend on what the array held before. -/
theorem noneLast_of_take (f : α → ExecReloc) {rs : List α}
    (h : none ∉ (rs.map (cell rInfo f)).take (rs.countP (isRelative rInfo))) :
    NoneLast rInfo rs := by
  rw [← gapless_cells f, gapless_iff, countP_cells]
  exact h

/-- A loop that ends has met no other type. -/
theorem supported_of_loadEntries {rs : List α} {i n : Nat} {relocs : List ExecReloc}
    {result : List ExecReloc × Nat}
    (h : loadEntries rInfo unsupported execReloc start rs i relocs n = .ok result) :
    Supported rInfo rs := by
  induction rs generalizing i n relocs with
  | nil => exact fun r hr => absurd hr List.not_mem_nil
  | cons r rs ih =>
      unfold loadEntries at h
      intro r' hr'
      split at h
      · rename_i htype
        rcases List.mem_cons.mp hr' with rfl | hr'
        · exact Or.inl htype
        · exact ih h r' hr'
      · split at h
        · rename_i htype
          obtain ⟨reloc, -, h⟩ := bind_eq_ok.mp h
          obtain ⟨relocs', -, h⟩ := bind_eq_ok.mp h
          rcases List.mem_cons.mp hr' with rfl | hr'
          · exact Or.inr htype
          · exact ih h r' hr'
        · cases h

/-- **One table.** Whatever is in the array before, the relocations of the table are its first
elements afterwards: exactly if no entry is skipped before one of them, and all of them can be
read. -/
theorem loadEntries_iff {rs : List α} (hsupported : Supported rInfo rs)
    (hspec : ∀ r ∈ rs, ∀ reloc, execReloc r = .ok reloc → reloc = f r) :
    (∀ pre out : List ExecReloc, pre.length = start → out.length = rs.length →
      ∃ relocs, loadEntries rInfo unsupported execReloc start rs 0 (pre ++ out) 0
          = .ok (pre ++ relocs, rs.countP (isRelative rInfo)) ∧
        relocs.take (rs.countP (isRelative rInfo)) = relatives rInfo f rs) ↔
      NoneLast rInfo rs ∧
        ∀ r ∈ rs, isRelative rInfo r → ∃ reloc, execReloc r = .ok reloc := by
  refine ⟨?_, ?_⟩
  · intro h
    have hread : ∀ r ∈ rs, isRelative rInfo r → ∃ reloc, execReloc r = .ok reloc := by
      obtain ⟨relocs, hok, -⟩ := h (List.replicate start ⟨0, 0⟩) (List.replicate rs.length ⟨0, 0⟩)
        List.length_replicate List.length_replicate
      exact execReloc_of_loadEntries hok
    have hreloc : ∀ r ∈ rs, isRelative rInfo r → execReloc r = .ok (f r) := by
      intro r hr hrel
      obtain ⟨reloc, hok⟩ := hread r hr hrel
      rw [hok, hspec r hr reloc hok]
    refine ⟨noneLast_of_take f ?_, hread⟩
    have hcells : ∀ g : ExecReloc, ((rs.map (cell rInfo f)).take
        (rs.countP (isRelative rInfo))).map (fun c => c.getD g) = relatives rInfo f rs := by
      intro g
      obtain ⟨relocs, hok, htake⟩ := h (List.replicate start g) (List.replicate rs.length g)
        List.length_replicate List.length_replicate
      rw [loadEntries_ok hsupported hreloc (by rw [List.length_replicate, Nat.add_zero])
        List.length_replicate] at hok
      have hrelocs := List.append_cancel_left (Prod.mk.inj (Except.ok.inj hok)).1
      have hfill := fill_replicate g (rs.map (cell rInfo f))
      rw [List.length_map] at hfill
      rw [List.map_take, ← hfill, hrelocs, htake]
    have hne : (⟨0, 0⟩ : ExecReloc) ≠ ⟨1, 0⟩ := by decide
    apply none_not_mem_of_perm hne
    rw [hcells, hcells]
  · rintro ⟨hlast, hread⟩ pre out hpre hout
    have hreloc : ∀ r ∈ rs, isRelative rInfo r → execReloc r = .ok (f r) := by
      intro r hr hrel
      obtain ⟨reloc, hok⟩ := hread r hr hrel
      rw [hok, hspec r hr reloc hok]
    refine ⟨_, ?_, take_fill_cells f hlast hout⟩
    rw [loadEntries_ok hsupported hreloc (by rw [hpre, Nat.add_zero]) hout, Nat.zero_add]

end

/-! ## Addends of a REL table -/

/-- The slot is in the segment, which ends inside the address space. -/
def Segment.holds (s : Segment) (r : ExecReloc) : Bool :=
  s.owns r ∧ s.vaddr.toNat + s.memsize.toNat < 2 ^ 64

/-- The word at an address, in the first segment that holds it. -/
def Executable.addendAt (exec : Executable) (vaddr : UInt64) : UInt64 :=
  match exec.segments.find? fun s => s.holds ⟨vaddr, 0⟩ with
  | some s => UInt64.ofNat (ofLE ((s.data.rawData.drop (s.slotOffset ⟨vaddr, 0⟩)).take 8))
  | none => 0

/-- The first segment that `data_at_vaddr` takes for an address holds the word there. -/
def FirstHolds (segments : List Segment) (vaddr : UInt64) : Prop :=
  ∃ pre s post, segments = pre ++ s :: post ∧ s.holds ⟨vaddr, 0⟩ ∧
    ∀ t ∈ pre, t.covers vaddr = false

/-- The relocation for an entry of a RELA table, which has its addend with it. -/
def relaRelocOf (r : Elf64Rela) : ExecReloc := ⟨r.rOffset, r.rAddend⟩

/-- The relocation for an entry of a REL table, whose addend is in memory. -/
def relRelocOf (exec : Executable) (r : Elf64Rel) : ExecReloc :=
  ⟨r.rOffset, exec.addendAt r.rOffset⟩

theorem covers_of_holds {s : Segment} {r : ExecReloc} (h : s.holds r = true) :
    s.covers r.vaddr = true := by
  rw [Segment.holds, decide_eq_true_iff] at h
  exact (Segment.covers_iff h.2 r.vaddr).mpr (Or.inl (Segment.mem_range_of_owns h.1))

/-- An addend is read exactly if the segment that `data_at_vaddr` takes holds it. -/
theorem relReloc_iff {exec : Executable}
    (h : ∀ s ∈ exec.segments, s.data.rawData.length = s.memsize.toNat) (r : Elf64Rel)
    (reloc : ExecReloc) :
    relReloc exec r = .ok reloc ↔
      FirstHolds exec.segments r.rOffset ∧ reloc = relRelocOf exec r := by
  -- both directions end with this segment
  have hread : ∀ {pre s post}, exec.segments = pre ++ s :: post →
      s.holds ⟨r.rOffset, 0⟩ = true → (∀ t ∈ pre, t.covers r.rOffset = false) →
      relReloc exec r = .ok (relRelocOf exec r) := by
    intro pre s post hseg hholds hbefore
    have hs := mem_of_eq_append hseg
    have hwithin := Segment.within_of_owns (of_decide_eq_true hholds).1
    have hin := hwithin.inside
    rw [← h s hs, ← hwithin.offset] at hin
    have hnone : pre.find? (fun t => t.holds ⟨r.rOffset, 0⟩) = none := by
      rw [List.find?_eq_none]
      intro t ht hholds'
      have hcovers := covers_of_holds hholds'
      rw [hbefore t ht] at hcovers
      cases hcovers
    have hfind : exec.segments.find? (fun t => t.holds ⟨r.rOffset, 0⟩) = some s := by
      rw [hseg, List.find?_append, hnone, List.find?_cons, hholds]
      rfl
    have hbytes : readAt s.data.rawData (r.rOffset - s.vaddr).toNat 8
        = .ok ((s.data.rawData.drop (r.rOffset - s.vaddr).toNat).take 8) := by
      rw [readAt, if_neg (by decide), if_neg (Nat.not_lt.mpr hin)]
    rw [relRelocOf, Executable.addendAt, hfind]
    dsimp only
    rw [← hwithin.offset]
    unfold relReloc
    rw [dataAtVaddr_first hseg (covers_of_holds hholds) hbefore]
    dsimp only [bind, Except.bind]
    rw [getElem?_of_eq_append hseg]
    dsimp only
    rw [hbytes]
    rfl
  refine ⟨?_, ?_⟩
  · intro hok
    have hok' := hok
    unfold relReloc at hok
    obtain ⟨⟨i, p⟩, hdata, hok⟩ := bind_eq_ok.mp hok
    obtain ⟨pre, s, post, hseg, rfl, rfl, hcovers, hbefore⟩ := dataAtVaddr_inv hdata
    have hs := mem_of_eq_append hseg
    dsimp only at hok
    rw [getElem?_of_eq_append hseg] at hok
    obtain ⟨bytes, hbytes, -⟩ := bind_eq_ok.mp hok
    have hroom : (r.rOffset - s.vaddr).toNat + 8 ≤ s.memsize.toNat := by
      by_contra hfault
      rw [readAt, if_neg (by decide), if_pos (by rw [h s hs]; omega)] at hbytes
      cases hbytes
    have hholds : s.holds ⟨r.rOffset, 0⟩ = true := by
      rw [Segment.holds, decide_eq_true_iff]
      exact owns_of_covers hcovers hroom
    rw [hread hseg hholds hbefore] at hok'
    exact ⟨⟨pre, s, post, hseg, hholds, hbefore⟩, (Except.ok.inj hok').symm⟩
  · rintro ⟨⟨pre, s, post, hseg, hholds, hbefore⟩, rfl⟩
    exact hread hseg hholds hbefore

/-! ## Both tables -/

/-- `load_rela_relocs` returns the number of relocations, and they are the first elements of
`output` whatever it held before. -/
def LoadsRela (rela : List Elf64Rela) : Prop :=
  ∀ output : List ExecReloc, output.length = rela.length →
    ∃ relocs, loadRelaRelocs output rela
        = .ok (relocs, rela.countP (isRelative Elf64Rela.rInfo)) ∧
      relocs.take (rela.countP (isRelative Elf64Rela.rInfo))
        = relatives Elf64Rela.rInfo relaRelocOf rela

/-- `load_rel_relocs` likewise, behind the elements `pre`. -/
def LoadsRel (exec : Executable) (rel : List Elf64Rel) : Prop :=
  ∀ pre output : List ExecReloc, output.length = rel.length →
    ∃ relocs, loadRelRelocs exec (pre ++ output) pre.length rel
        = .ok (pre ++ relocs, rel.countP (isRelative Elf64Rel.rInfo)) ∧
      relocs.take (rel.countP (isRelative Elf64Rel.rInfo))
        = relatives Elf64Rel.rInfo (relRelocOf exec) rel

/-- `load_relocs` returns the relocations of both tables, whatever memory held before. -/
def LoadsBoth (qsort : Qsort) (exec : Executable) (elf : SizedData) (dynamic : Segment)
    (rela : List Elf64Rela) (rel : List Elf64Rel) : Prop :=
  ∀ heap, ∃ relocs, loadRelocs qsort heap exec elf dynamic = .ok relocs ∧
    relocs.Perm (relatives Elf64Rela.rInfo relaRelocOf rela ++
      relatives Elf64Rel.rInfo (relRelocOf exec) rel)

/-- The addends of a REL table are where `data_at_vaddr` looks for them. -/
def AddendsFound (exec : Executable) (rel : List Elf64Rel) : Prop :=
  ∀ r ∈ rel, isRelative Elf64Rel.rInfo r → FirstHolds exec.segments r.rOffset

section

variable {exec : Executable} {elf : SizedData} {dynamic : Segment}

theorem loadsRela_iff {rela : List Elf64Rela} (h : Supported Elf64Rela.rInfo rela) :
    LoadsRela rela ↔ NoneLast Elf64Rela.rInfo rela := by
  have hiff := @loadEntries_iff Elf64Rela Elf64Rela.rInfo
    "Unsupported RELA relocation type %u, index %lu\n" (fun r => .ok ⟨r.rOffset, r.rAddend⟩)
    relaRelocOf 0 rela h fun r _ reloc hok => (Except.ok.inj hok).symm
  rw [and_iff_left fun r _ _ => ⟨_, rfl⟩] at hiff
  rw [← hiff]
  refine ⟨fun hload pre out hpre hout => ?_, fun hload out hout => hload [] out rfl hout⟩
  obtain rfl := List.length_eq_zero_iff.mp hpre
  exact hload out hout

theorem loadsRel_iff (hlen : ∀ s ∈ exec.segments, s.data.rawData.length = s.memsize.toNat)
    {rel : List Elf64Rel} (h : Supported Elf64Rel.rInfo rel) :
    LoadsRel exec rel ↔ NoneLast Elf64Rel.rInfo rel ∧ AddendsFound exec rel := by
  have hspec : ∀ r ∈ rel, ∀ reloc, relReloc exec r = .ok reloc → reloc = relRelocOf exec r :=
    fun r _ reloc hok => ((relReloc_iff hlen r reloc).mp hok).2
  have hread : ∀ r, (∃ reloc, relReloc exec r = .ok reloc) ↔ FirstHolds exec.segments r.rOffset :=
    fun r => ⟨fun ⟨reloc, hok⟩ => ((relReloc_iff hlen r reloc).mp hok).1,
      fun hfirst => ⟨_, (relReloc_iff hlen r _).mpr ⟨hfirst, rfl⟩⟩⟩
  have hiff : ∀ start, _ := fun start => @loadEntries_iff Elf64Rel Elf64Rel.rInfo
    "Unsupported REL relocation type %x, index %lu\n" (relReloc exec) (relRelocOf exec) start rel h
    hspec
  simp only [hread] at hiff
  refine ⟨fun hload => (hiff 0).mp ?_, fun hor pre out hout => ?_⟩
  · intro pre out hpre hout
    obtain ⟨relocs, hok, htake⟩ := hload pre out hout
    rw [hpre] at hok
    exact ⟨relocs, hok, htake⟩
  · exact (hiff pre.length).mpr hor pre out rfl hout

theorem length_fill_cells {α : Type} {rInfo : α → UInt64} (f : α → ExecReloc) {rs : List α}
    {out : List ExecReloc} (hout : out.length = rs.length) :
    (fill (rs.map (cell rInfo f)) out).length = rs.length := by
  rw [fill, List.length_zipWith, List.length_map, hout, Nat.min_self]

/-- The first half of `load_relocs`. No table is like an empty one. -/
theorem loadRelaTable_ok {rela : Option (List Elf64Rela)}
    (h : Supported Elf64Rela.rInfo (rela.getD [])) (heap : Heap) :
    loadRelaTable heap rela = .ok
      (fill ((rela.getD []).map (cell Elf64Rela.rInfo relaRelocOf))
        (mallocRelocs (heap.relocs false) (rela.getD []).length),
        (rela.getD []).countP (isRelative Elf64Rela.rInfo)) := by
  cases rela with
  | none => rfl
  | some rela =>
      have hok := @loadEntries_ok Elf64Rela Elf64Rela.rInfo
        "Unsupported RELA relocation type %u, index %lu\n" (fun r => .ok ⟨r.rOffset, r.rAddend⟩)
        relaRelocOf 0 rela h (fun _ _ _ => rfl) 0 0 []
        (mallocRelocs (heap.relocs false) rela.length) rfl
        (by rw [mallocRelocs, List.length_map, List.length_range])
      rw [Nat.zero_add] at hok
      exact hok

/-- What `realloc` leaves of the array, and what is in the elements behind. -/
theorem reallocRelocs_add (fresh : Nat → ExecReloc) {relocs : List ExecReloc} {n m : Nat}
    (hm : m ≤ relocs.length) :
    reallocRelocs fresh relocs (n + m) = relocs.take m ++
      (List.range n).map fun k => relocs.getD (m + k) (fresh (m + k)) := by
  have hfront : (List.range m).map (fun i => relocs.getD i (fresh i)) = relocs.take m := by
    apply List.ext_getElem
    · rw [List.length_map, List.length_range, List.length_take, Nat.min_eq_left hm]
    · intro i hi hi'
      rw [List.length_map, List.length_range] at hi
      rw [List.getElem_map, List.getElem_range, List.getElem_take, List.getD_eq_getElem]
  rw [reallocRelocs, Nat.add_comm, List.range_add, List.map_append, hfront, List.map_map]
  rfl

/-- The second half: the elements that count. -/
theorem loadRelTable_ok (hlen : ∀ s ∈ exec.segments, s.data.rawData.length = s.memsize.toNat)
    {rel : Option (List Elf64Rel)} (h : Supported Elf64Rel.rInfo (rel.getD []))
    (hfound : AddendsFound exec (rel.getD [])) (heap : Heap) {relocs : List ExecReloc} {m : Nat}
    (hm : m ≤ relocs.length) :
    ∃ relocs' num, loadRelTable heap exec relocs m rel = .ok (relocs', num) ∧
      relocs'.take num = relocs.take m ++
        (fill ((rel.getD []).map (cell Elf64Rel.rInfo (relRelocOf exec)))
          ((List.range (rel.getD []).length).map fun k =>
            relocs.getD (m + k) (heap.relocs true (m + k)))).take
          ((rel.getD []).countP (isRelative Elf64Rel.rInfo)) := by
  cases rel with
  | none => exact ⟨relocs, m, rfl, (List.append_nil _).symm⟩
  | some rel =>
      have hread : ∀ r ∈ rel, isRelative Elf64Rel.rInfo r →
          relReloc exec r = .ok (relRelocOf exec r) :=
        fun r hr hrel => (relReloc_iff hlen r _).mpr ⟨hfound r hr hrel, rfl⟩
      have htake : (relocs.take m).length = m := by
        rw [List.length_take, Nat.min_eq_left hm]
      have hok := @loadEntries_ok Elf64Rel Elf64Rel.rInfo
        "Unsupported REL relocation type %x, index %lu\n" (relReloc exec) (relRelocOf exec) m rel h
        hread 0 0 (relocs.take m) ((List.range rel.length).map fun k =>
            relocs.getD (m + k) (heap.relocs true (m + k))) htake
        (by rw [List.length_map, List.length_range])
      rw [← reallocRelocs_add _ hm, Nat.zero_add] at hok
      have htable : loadRelTable heap exec relocs m (some rel) = .ok (relocs.take m ++
          fill (rel.map (cell Elf64Rel.rInfo (relRelocOf exec)))
            ((List.range rel.length).map fun k =>
              relocs.getD (m + k) (heap.relocs true (m + k))),
          m + rel.countP (isRelative Elf64Rel.rInfo)) := by
        show (loadEntries _ _ _ _ rel 0 _ 0 >>= _) = _
        rw [hok]
        rfl
      refine ⟨_, _, htable, ?_⟩
      rw [List.take_append, htake, Nat.add_sub_cancel_left,
        List.take_of_length_le (by rw [htake]; exact Nat.le_add_right _ _)]
      rfl

theorem loadRelocs_eq {qsort : Qsort} {heap : Heap} {rela : Option (List Elf64Rela)}
    {rel : Option (List Elf64Rel)} (hrela : relaTable elf dynamic = .ok rela)
    (hrel : relTable elf dynamic = .ok rel) :
    loadRelocs qsort heap exec elf dynamic =
      loadRelaTable heap rela >>= fun x => loadRelTable heap exec x.1 x.2 rel >>= fun y =>
        .ok (qsort.sort relocCompare (y.1.take y.2)) := by
  unfold loadRelocs
  rw [hrela, hrel]
  rfl

/-- A list that `load_relocs` returns: the elements that count of both halves. -/
theorem loadRelocs_ok {qsort : Qsort}
    (hlen : ∀ s ∈ exec.segments, s.data.rawData.length = s.memsize.toNat)
    {rela : Option (List Elf64Rela)} {rel : Option (List Elf64Rel)}
    (hrela : relaTable elf dynamic = .ok rela) (hrel : relTable elf dynamic = .ok rel)
    (hs : Supported Elf64Rela.rInfo (rela.getD [])) (hs' : Supported Elf64Rel.rInfo (rel.getD []))
    (hfound : AddendsFound exec (rel.getD [])) (heap : Heap) :
    ∃ relocs array, loadRelocs qsort heap exec elf dynamic = .ok relocs ∧
      array = fill ((rela.getD []).map (cell Elf64Rela.rInfo relaRelocOf))
        (mallocRelocs (heap.relocs false) (rela.getD []).length) ∧
      relocs.Perm (array.take ((rela.getD []).countP (isRelative Elf64Rela.rInfo)) ++
        (fill ((rel.getD []).map (cell Elf64Rel.rInfo (relRelocOf exec)))
          ((List.range (rel.getD []).length).map fun k =>
            array.getD ((rela.getD []).countP (isRelative Elf64Rela.rInfo) + k)
              (heap.relocs true ((rela.getD []).countP (isRelative Elf64Rela.rInfo) + k)))).take
          ((rel.getD []).countP (isRelative Elf64Rel.rInfo))) := by
  have hm : (rela.getD []).countP (isRelative Elf64Rela.rInfo)
      ≤ (fill ((rela.getD []).map (cell Elf64Rela.rInfo relaRelocOf))
        (mallocRelocs (heap.relocs false) (rela.getD []).length)).length := by
    rw [length_fill_cells _ (by rw [mallocRelocs, List.length_map, List.length_range])]
    exact List.countP_le_length
  obtain ⟨relocs', num, hok, htake⟩ := loadRelTable_ok hlen hs' hfound heap hm
  refine ⟨qsort.sort relocCompare (relocs'.take num), _, ?_, rfl, ?_⟩
  · rw [loadRelocs_eq hrela hrel, loadRelaTable_ok hs heap]
    show (loadRelTable _ _ _ _ _ >>= _) = _
    rw [hok]
    rfl
  · rw [← htake]
    exact qsort.perm _ _

/-- A list that is returned has all addends read. -/
theorem addendsFound_of_loadRelocs {qsort : Qsort} {heap : Heap}
    (hlen : ∀ s ∈ exec.segments, s.data.rawData.length = s.memsize.toNat)
    {rela : Option (List Elf64Rela)} {rel : Option (List Elf64Rel)}
    (hrela : relaTable elf dynamic = .ok rela) (hrel : relTable elf dynamic = .ok rel)
    {relocs : List ExecReloc} (h : loadRelocs qsort heap exec elf dynamic = .ok relocs) :
    AddendsFound exec (rel.getD []) := by
  rw [loadRelocs_eq hrela hrel] at h
  obtain ⟨x, -, h⟩ := bind_eq_ok.mp h
  obtain ⟨y, hy, -⟩ := bind_eq_ok.mp h
  cases rel with
  | none => exact fun r hr => absurd hr List.not_mem_nil
  | some rel =>
      obtain ⟨z, hz, -⟩ := bind_eq_ok.mp hy
      intro r hr hrel
      obtain ⟨reloc, hreloc⟩ := execReloc_of_loadEntries hz r hr hrel
      exact ((relReloc_iff hlen r reloc).mp hreloc).1

/-- **The list of `load_relocs`** has the relocations of both tables under the same conditions, for
each table one, and one for the addends. -/
theorem loadsBoth_iff {qsort : Qsort}
    (hlen : ∀ s ∈ exec.segments, s.data.rawData.length = s.memsize.toNat)
    {rela : Option (List Elf64Rela)} {rel : Option (List Elf64Rel)}
    (hrela : relaTable elf dynamic = .ok rela) (hrel : relTable elf dynamic = .ok rel)
    (hs : Supported Elf64Rela.rInfo (rela.getD [])) (hs' : Supported Elf64Rel.rInfo (rel.getD [])) :
    LoadsBoth qsort exec elf dynamic (rela.getD []) (rel.getD []) ↔
      NoneLast Elf64Rela.rInfo (rela.getD []) ∧ NoneLast Elf64Rel.rInfo (rel.getD []) ∧
        AddendsFound exec (rel.getD []) := by
  refine ⟨?_, ?_⟩
  · intro h
    have hfound : AddendsFound exec (rel.getD []) := by
      obtain ⟨relocs, hok, -⟩ := h ⟨fun _ _ => 0, fun _ _ => ⟨0, 0⟩⟩
      exact addendsFound_of_loadRelocs hlen hrela hrel hok
    generalize hm : (rela.getD []).countP (isRelative Elf64Rela.rInfo) = m
    -- the cells of the list, in memory that holds the same everywhere
    let cells := (rela.getD []).map (cell Elf64Rela.rInfo relaRelocOf)
    let behind := (List.range (rel.getD []).length).map fun k => cells.getD (m + k) none
    let cells' := (rel.getD []).map (cell Elf64Rel.rInfo (relRelocOf exec))
    have hcells : ∀ g : ExecReloc, ((cells.take m ++ (List.zipWith Option.or cells' behind).take
        ((rel.getD []).countP (isRelative Elf64Rel.rInfo))).map fun c => c.getD g).Perm
        (relatives Elf64Rela.rInfo relaRelocOf (rela.getD []) ++
          relatives Elf64Rel.rInfo (relRelocOf exec) (rel.getD [])) := by
      intro g
      obtain ⟨relocs, hok, hperm⟩ := h ⟨fun _ _ => 0, fun _ _ => g⟩
      obtain ⟨relocs', array, hok', harray, hperm'⟩ :=
        loadRelocs_ok hlen hrela hrel hs hs' hfound ⟨fun _ _ => 0, fun _ _ => g⟩
      obtain rfl := Except.ok.inj (hok.symm.trans hok')
      have hmalloc : mallocRelocs (fun _ => g) (rela.getD []).length
          = List.replicate cells.length g := by
        rw [mallocRelocs, List.map_const', List.length_range, List.length_map]
      have hfill : array = cells.map fun c => c.getD g := by
        rw [harray]
        show fill cells (mallocRelocs (fun _ => g) (rela.getD []).length) = _
        rw [hmalloc, fill_replicate]
      have hout : ((List.range (rel.getD []).length).map fun k => array.getD (m + k) g)
          = behind.map fun c => c.getD g := by
        rw [List.map_map]
        apply List.map_congr_left
        intro k _
        show array.getD (m + k) g = (cells.getD (m + k) none).getD g
        rw [hfill]
        exact List.getD_map cells none fun c => c.getD g
      rw [hm] at hperm'
      show List.Perm _ _
      rw [List.map_append, List.map_take, List.map_take, ← fill_map_getD, ← hout, ← hfill]
      exact hperm'.symm.trans hperm
    have hne : (⟨0, 0⟩ : ExecReloc) ≠ ⟨1, 0⟩ := by decide
    have hnone := none_not_mem_of_perm hne ((hcells _).trans (hcells _).symm)
    rw [List.mem_append, not_or] at hnone
    have hlast : NoneLast Elf64Rela.rInfo (rela.getD []) := by
      apply noneLast_of_take relaRelocOf
      rw [hm]
      exact hnone.1
    -- then there are only gaps behind the first table
    have hgapless := (gapless_cells relaRelocOf (rela.getD [])).mpr hlast
    have hbehind : List.zipWith Option.or cells' behind = cells' := by
      apply zipWith_or_none
      · rw [List.length_map, List.length_map, List.length_range]
      · intro c hc
        obtain ⟨k, -, rfl⟩ := List.mem_map.mp hc
        have hdrop := hgapless.drop
        rw [countP_cells, hm] at hdrop
        by_cases hk : m + k < cells.length
        · rw [List.getD_eq_getElem _ _ hk]
          apply hdrop
          rw [List.mem_drop_iff_getElem]
          exact ⟨k, (Nat.add_comm m k) ▸ hk, rfl⟩
        · exact List.getD_eq_default _ _ (Nat.le_of_not_lt hk)
    rw [hbehind] at hnone
    exact ⟨hlast, noneLast_of_take _ hnone.2, hfound⟩
  · rintro ⟨hlast, hlast', hfound⟩ heap
    obtain ⟨relocs, array, hok, rfl, hperm⟩ := loadRelocs_ok hlen hrela hrel hs hs' hfound heap
    refine ⟨relocs, hok, ?_⟩
    rw [take_fill_cells relaRelocOf hlast (by rw [mallocRelocs, List.length_map,
      List.length_range]), take_fill_cells (relRelocOf exec) hlast' (by rw [List.length_map,
      List.length_range])] at hperm
    exact hperm

/-- **No relocation is lost or invented** exactly if no `R_X86_64_NONE` entry comes before an
`R_X86_64_RELATIVE` one in its table, and `data_at_vaddr` finds the addends of the REL table:
this holds for each table, and for the list of both. Tables with any other type are rejected. -/
theorem relocations_loaded_iff
    (hlen : ∀ s ∈ exec.segments, s.data.rawData.length = s.memsize.toNat) :
    (∀ rela, (Supported Elf64Rela.rInfo rela →
        (LoadsRela rela ↔ NoneLast Elf64Rela.rInfo rela)) ∧
      (¬ Supported Elf64Rela.rInfo rela →
        ∀ output result, loadRelaRelocs output rela ≠ .ok result)) ∧
    (∀ rel, (Supported Elf64Rel.rInfo rel →
        (LoadsRel exec rel ↔ NoneLast Elf64Rel.rInfo rel ∧ AddendsFound exec rel)) ∧
      (¬ Supported Elf64Rel.rInfo rel →
        ∀ relocs start result, loadRelRelocs exec relocs start rel ≠ .ok result)) ∧
    ∀ (qsort : Qsort) (elf : SizedData) (dynamic : Segment) (rela : Option (List Elf64Rela))
      (rel : Option (List Elf64Rel)), relaTable elf dynamic = .ok rela →
      relTable elf dynamic = .ok rel → Supported Elf64Rela.rInfo (rela.getD []) →
      Supported Elf64Rel.rInfo (rel.getD []) →
      (LoadsBoth qsort exec elf dynamic (rela.getD []) (rel.getD []) ↔
        NoneLast Elf64Rela.rInfo (rela.getD []) ∧ NoneLast Elf64Rel.rInfo (rel.getD []) ∧
          AddendsFound exec (rel.getD [])) := by
  refine ⟨?_, ?_, ?_⟩
  · intro rela
    exact ⟨loadsRela_iff, fun hnot _ _ hok => hnot (supported_of_loadEntries hok)⟩
  · intro rel
    exact ⟨loadsRel_iff hlen, fun hnot _ _ _ hok => hnot (supported_of_loadEntries hok)⟩
  · intro qsort elf dynamic rela rel hrela hrel hs hs'
    exact loadsBoth_iff hlen hrela hrel hs hs'

end

/-! ## Two tables -/

/-- Two relocations and an entry to skip, with addends and without. -/
def someRela : List Elf64Rela := [⟨0x1000, 8, 0x42⟩, ⟨0x1008, 8, 0x43⟩, ⟨0, 0, 0⟩]

/-- Two relocations without addends, and an entry to skip. -/
def someRel : List Elf64Rel := [⟨0x2000, 8⟩, ⟨0x2008, 8⟩, ⟨0, 0⟩]

/-- The tables, one behind the other, in a file that has nothing else. -/
def tablesFile : SizedData where
  name := "tables"
  rawData :=
    someRela.flatMap (fun r => leBytes 8 r.rOffset.toNat ++ leBytes 8 r.rInfo.toNat ++
      leBytes 8 r.rAddend.toNat) ++
    someRel.flatMap (fun r => leBytes 8 r.rOffset.toNat ++ leBytes 8 r.rInfo.toNat) ++ [0]
  size := 121

/-- A dynamic segment that names them, large enough for the search to get to its entries. -/
def tablesDynamic : Segment where
  vaddr := 0
  memsize := 1024
  alignment := 8
  flags := SEGMENT_FLAGS_READ
  filesize := 1024
  data := ⟨"dynamic", leBytes 8 7 ++ leBytes 8 0 ++ leBytes 8 8 ++ leBytes 8 72 ++
    leBytes 8 17 ++ leBytes 8 72 ++ leBytes 8 18 ++ leBytes 8 48 ++ List.replicate 960 0, 1024⟩

theorem tables_read : relaTable tablesFile tablesDynamic = .ok (some someRela) ∧
    relTable tablesFile tablesDynamic = .ok (some someRel) := by
  decide +kernel

theorem supported_some : Supported Elf64Rela.rInfo someRela ∧ Supported Elf64Rel.rInfo someRel := by
  unfold Supported
  decide

theorem noneLast_some : NoneLast Elf64Rela.rInfo someRela ∧ NoneLast Elf64Rel.rInfo someRel := by
  unfold NoneLast
  decide

/-- The addends without an own field are in the second segment. -/
theorem addendsFound_some : AddendsFound (twoSegments 0x2000) someRel := by
  have hsecond : ∀ vaddr : UInt64, (zeroSegment 0x2000).holds ⟨vaddr, 0⟩ →
      (zeroSegment 0x1000).covers vaddr = false →
      FirstHolds (twoSegments 0x2000).segments vaddr := by
    intro vaddr hholds hfirst
    exact ⟨[zeroSegment 0x1000], zeroSegment 0x2000, [], rfl, hholds,
      List.forall_mem_singleton.mpr hfirst⟩
  intro r hr hrel
  simp only [someRel, List.mem_cons, List.not_mem_nil, or_false] at hr
  rcases hr with rfl | rfl | rfl
  · exact hsecond _ (by decide) rfl
  · exact hsecond _ (by decide) rfl
  · cases hrel

/-- Tables of both kinds, with several entries each; what is skipped comes last. -/
theorem relocations_loaded_iff_twoSegments :
    LoadsRela someRela ∧ LoadsRel (twoSegments 0x2000) someRel ∧
      LoadsBoth mergeQsort (twoSegments 0x2000) tablesFile tablesDynamic someRela someRel := by
  obtain ⟨hrela, hrel, hboth⟩ :=
    relocations_loaded_iff (@relocatable_twoSegments 0x2000 (by decide)).length
  obtain ⟨hsupported, hsupported'⟩ := supported_some
  obtain ⟨hlast, hlast'⟩ := noneLast_some
  refine ⟨((hrela _).1 hsupported).mpr hlast,
    ((hrel _).1 hsupported').mpr ⟨hlast', addendsFound_some⟩, ?_⟩
  exact (hboth mergeQsort _ _ _ _ tables_read.1 tables_read.2 hsupported hsupported').mpr
    ⟨hlast, hlast', addendsFound_some⟩

/-- Behind a skipped entry, the only relocation is lost, and what `malloc` returned counts. -/
theorem relocation_behind_none_lost :
    ∃ rela, Supported Elf64Rela.rInfo rela ∧ ¬ LoadsRela rela := by
  refine ⟨[⟨0, 0, 0⟩, ⟨0x1000, 8, 0x42⟩], ?_, ?_⟩
  · intro r hr
    rcases List.mem_pair.mp hr with rfl | rfl
    · exact Or.inl rfl
    · exact Or.inr rfl
  · intro hload
    obtain ⟨relocs, hok, htake⟩ := hload [⟨7, 7⟩, ⟨7, 7⟩] rfl
    have hrelocs : relocs = [⟨7, 7⟩, ⟨0x1000, 0x42⟩] :=
      (Prod.mk.inj (Except.ok.inj hok)).1.symm
    rw [hrelocs] at htake
    exact absurd htake (by decide)

end LoliLoader.Elf2Efi
