/-
# LoliLoader.Elf2Efi.RelocBlocks -- the blocks of the base relocation table

What a reader finds that walks the table from block to block, and where the blocks are in it. The
relocations are an array of records of 16 bytes, so there are fewer than 2^60.

A reader knows a block by its header, which has the address of the page and the size of the block,
and finds the next one by the size. The size is a field of 32 bits, and so it is too small for a
page with very many relocations: each takes two bytes, and they may all be at the same word.
`createPeReloc_roundTrips` has the bound, and the counterexample behind it a page that is just too
full.

The format also demands that every block starts at a multiple of four. The converter does not pad
its blocks, so this depends on whether the number of relocations in each page is even.
`createPeReloc_aligned_iff` is exact, page 0 included, which has no header of its own when it comes
first.

Both theorems start from what `create_pe_reloc` writes for ascending addresses, in
`Elf2Efi.RelocTable`.
-/
import LoliLoader.Elf2Efi.RelocTable

namespace LoliLoader.Elf2Efi

open C Bytes Pe

/-! ## Reading the table back -/

/-- Walking the table uses it up and gives the addresses in order, by blocks that are not empty,
of pages that rise. -/
def RoundTrips (table : List UInt8) (rvas : List Nat) : Prop :=
  ∃ bs, walk table = some bs ∧
    (bs.flatMap fun b => b.entries.map fun e => (e.1, b.page + e.2))
      = rvas.map (fun x => (IMAGE_REL_BASED_DIR64, x)) ∧
    (∀ b ∈ bs, 4096 ∣ b.page ∧ b.entries ≠ []) ∧
    bs.Pairwise fun b c => b.page < c.page

theorem flatMap_raw (bs : List Block) :
    ((bs.map Block.raw).flatMap fun b => b.entries.map fun e => (e.1, b.page + e.2))
      = (bs.flatMap Block.addresses).map fun x => (IMAGE_REL_BASED_DIR64, x) := by
  induction bs with
  | nil => rfl
  | cons b bs ih =>
      rw [List.map_cons, List.flatMap_cons, List.flatMap_cons, ih, List.map_append]
      congr 1
      simp [Block.raw, Block.addresses]

theorem roundTrips_blocksOf {xs : List Nat} (hsorted : xs.Pairwise (· ≤ ·))
    (hxs : ∀ x ∈ xs, x < 2 ^ 32)
    (hpages : ∀ page, (xs.countP fun x => pageOf x = page) < 2 ^ 31 - 4) :
    RoundTrips (encode (blocksOf xs)) xs := by
  have hfits : ∀ b ∈ blocksOf xs, b.Fits := by
    intro b hb
    apply fits_blocksOf hsorted hxs hb
    have hcount := hpages b.page
    rw [← length_offsets_blocksOf hsorted hb] at hcount
    unfold Block.size
    omega
  refine ⟨_, walk_encode hfits, ?_, ?_, ?_⟩
  · rw [flatMap_raw, addresses_blocksOf hsorted]
  · intro b hb
    obtain ⟨c, hc, rfl⟩ := List.mem_map.mp hb
    obtain ⟨x, -, hpage⟩ := page_blocksOf hsorted hc
    constructor
    · show 4096 ∣ c.page
      rw [hpage]
      exact Nat.dvd_mul_left 4096 (x / 4096)
    · intro hnil
      exact offsets_blocksOf_ne_nil hsorted hc (List.map_eq_nil_iff.mp hnil)
  · rw [List.pairwise_map]
    exact pairwise_blocksOf hsorted

/-- **The base relocation table round-trips**, as long as the size of every block fits its field of
32 bits, which bounds the relocations in a page. -/
theorem createPeReloc_roundTrips {exec : Executable} {base : UInt64}
    (hbase : 4096 ∣ base.toNat) (hpos : 0 < base.toNat)
    (hsorted : exec.relocs.Pairwise fun r r' => r.vaddr ≤ r'.vaddr)
    (hrange : ∀ r ∈ exec.relocs, base.toNat ≤ r.vaddr.toNat ∧
      r.vaddr.toNat < base.toNat + 2 ^ 32)
    (hnum : exec.relocs.length < 2 ^ 60)
    (hpages : ∀ page, (exec.relocs.countP fun r => pageOf r.vaddr.toNat = page) < 2 ^ 31 - 4) :
    ∃ table, createPeReloc exec base = .ok table ∧ table.size.toNat = table.rawData.length ∧
      RoundTrips table.rawData (exec.relocs.map fun r => r.vaddr.toNat - base.toNat) := by
  have hrange' : ∀ r ∈ exec.relocs, base.toNat ≤ r.vaddr.toNat ∧
      r.vaddr.toNat - base.toNat < 2 ^ 32 := by
    intro r hr
    have := hrange r hr
    omega
  obtain ⟨table, hok, hraw, hsize⟩ := createPeReloc_rvas hbase hpos hsorted hrange' hnum
  refine ⟨table, hok, hsize, ?_⟩
  rw [hraw]
  apply roundTrips_blocksOf
  · rw [List.pairwise_map]
    refine hsorted.imp fun {r r'} hle => ?_
    have := UInt64.le_iff_toNat_le.mp hle
    omega
  · intro x hx
    obtain ⟨r, hr, rfl⟩ := List.mem_map.mp hx
    exact (hrange' r hr).2
  · intro page
    -- the page of an RVA is `base` below the page of its address
    have hcount : (exec.relocs.map fun r => r.vaddr.toNat - base.toNat).countP
          (fun x => pageOf x = page)
        = exec.relocs.countP fun r => pageOf r.vaddr.toNat = base.toNat + page := by
      rw [List.countP_map]
      apply List.countP_congr
      intro r hr
      have hle := (hrange r hr).1
      have hsub : pageOf (r.vaddr.toNat - base.toNat) = pageOf r.vaddr.toNat - base.toNat := by
        unfold pageOf
        omega
      have hpage : base.toNat ≤ pageOf r.vaddr.toNat := by
        unfold pageOf
        omega
      simp only [Function.comp_apply, decide_eq_true_eq, hsub]
      omega
    rw [hcount]
    exact hpages _

/-- Relocations at the given addresses and nothing else. -/
def relocsAt (vaddrs : List UInt64) : Executable where
  entryAddr := 0
  segments := []
  dynamic := ⟨0, 0, 0, 0, 0, ⟨"", [], 0⟩⟩
  relocs := vaddrs.map fun vaddr => ⟨vaddr, 0⟩
  executableAlignment := 4096

theorem createPeReloc_roundTrips_two :
    ∃ table, createPeReloc (relocsAt [0x1008, 0x3010]) 0x1000 = .ok table ∧
      table.size.toNat = table.rawData.length ∧
      RoundTrips table.rawData ((relocsAt [0x1008, 0x3010]).relocs.map fun r =>
        r.vaddr.toNat - (0x1000 : UInt64).toNat) := by
  apply createPeReloc_roundTrips
  · decide
  · decide
  · decide
  · decide
  · decide
  · intro page
    refine lt_of_le_of_lt List.countP_le_length ?_
    decide

/-! ### A block that is too long -/

theorem foldl_replicate {x : Nat} (n : Nat) (os : List Nat) :
    (List.replicate n x).foldl addAddress [⟨pageOf x, os⟩]
      = [⟨pageOf x, os ++ List.replicate n (x % 4096)⟩] := by
  induction n generalizing os with
  | zero => rw [List.replicate_zero, List.replicate_zero, List.append_nil]; rfl
  | succ n ih =>
      rw [List.replicate_succ, List.foldl_cons, addAddress_same (lt_irrefl _), ih,
        List.replicate_succ, List.append_assoc]
      rfl

theorem blocksOf_replicate (x n : Nat) :
    blocksOf (List.replicate (n + 1) x)
      = [⟨pageOf x, List.replicate (n + 1) (x % 4096)⟩] := by
  rw [blocksOf, List.replicate_succ, List.foldl_cons]
  show ((List.replicate n x).foldl addAddress [⟨pageOf x, [x % 4096]⟩]).reverse = _
  rw [foldl_replicate, List.replicate_succ]
  rfl

/-- A block of 2^31 - 4 entries takes 2^32 bytes: its size is read as 0. -/
theorem walk_overlong {b : Block} (h : b.offsets.length = 2 ^ 31 - 4) :
    walk (encode [b]) = none := by
  have hsize : b.size = 2 ^ 32 := by
    rw [Block.size, h]
    rfl
  have htable : encode [b] = leBytes 4 b.page ++ (leBytes 4 b.size ++ b.entries) := by
    simp [encode, Block.encode]
  have hne : encode [b] ≠ [] := by
    intro hnil
    have hlen := congrArg List.length hnil
    rw [htable, List.length_append, length_leBytes, List.length_nil] at hlen
    omega
  have hpage : word (encode [b]) 0 4 = some (b.page % 256 ^ 4) := by
    rw [htable]
    exact word_leBytes [] _ 4 _
  have hword : word (encode [b]) 4 4 = some 0 := by
    have hread := word_leBytes (leBytes 4 b.page) b.entries 4 b.size
    rw [length_leBytes, ← htable, hsize] at hread
    exact hread
  rw [walk, if_neg hne, hpage, hword]
  dsimp only
  rw [dif_neg fun hc => absurd hc.1 (by decide)]

/-- 2^31 - 4 relocations of the same word, which make up one block. -/
def overlong : Executable := relocsAt (List.replicate 2147483644 0x10000000)

/-- **With as many relocations in a page** the table does not read back: the size of the block is
read as 0. -/
theorem overlong_not_roundTrips :
    (overlong.relocs.Pairwise fun r r' => r.vaddr ≤ r'.vaddr) ∧
    (∀ r ∈ overlong.relocs, r.vaddr = 0x10000000) ∧
    ∃ table, createPeReloc overlong 0x10000000 = .ok table ∧
      ¬ RoundTrips table.rawData (overlong.relocs.map fun r =>
        r.vaddr.toNat - (0x10000000 : UInt64).toNat) := by
  have hrelocs : overlong.relocs = List.replicate 2147483644 ⟨0x10000000, 0⟩ := by
    rw [overlong, relocsAt, List.map_replicate]
  have hsame : ∀ r ∈ overlong.relocs, r.vaddr = 0x10000000 := by
    intro r hr
    rw [hrelocs] at hr
    rw [List.eq_of_mem_replicate hr]
  have hsorted : overlong.relocs.Pairwise fun r r' => r.vaddr ≤ r'.vaddr := by
    apply List.Pairwise.imp_of_mem (R := fun _ _ => True) _
      (List.pairwise_of_forall fun _ _ => trivial)
    intro r r' hr hr' _
    rw [hsame r hr, hsame r' hr']
    exact UInt64.le_refl _
  refine ⟨hsorted, hsame, ?_⟩
  obtain ⟨table, hok, hraw, -⟩ := @createPeReloc_rvas overlong 0x10000000 (by decide) (by decide)
    hsorted (by
      intro r hr
      rw [hsame r hr]
      decide)
    (by
      rw [hrelocs, List.length_replicate]
      decide)
  refine ⟨table, hok, ?_⟩
  rintro ⟨bs, hwalk, -⟩
  have hrvas : (overlong.relocs.map fun r => r.vaddr.toNat - (0x10000000 : UInt64).toNat)
      = List.replicate (2147483643 + 1) 0 := by
    rw [hrelocs, List.map_replicate]
    rfl
  have hlen : (List.replicate (2147483643 + 1) (0 % 4096)).length = 2 ^ 31 - 4 := by
    rw [List.length_replicate]
    decide
  rw [hraw, hrvas, blocksOf_replicate, walk_overlong hlen] at hwalk
  cases hwalk

/-! ## Alignment -/

/-- Behind `front` bytes, each block starts at a multiple of 4 and has such a size. -/
def BlocksAligned (base : UInt64) (front : Nat) (bs : List Block) : Prop :=
  ∀ i (hi : i < bs.length), 4 ∣ front + (encodeAt base (bs.take i)).length ∧
    4 ∣ (bs.get ⟨i, hi⟩).size

/-- The number of relocations in the page at `page`. -/
def Executable.relocsInPage (exec : Executable) (page : Nat) : Nat :=
  exec.relocs.countP fun r => pageOf r.vaddr.toNat = page

theorem blocksAligned_iff {base : UInt64} {front : Nat} {bs : List Block} :
    BlocksAligned base front bs ↔ ∀ b ∈ bs, 4 ∣ front ∧ 4 ∣ b.size := by
  constructor
  · intro h b hb
    obtain ⟨i, hi, rfl⟩ := List.mem_iff_getElem.mp hb
    have hfirst := (h 0 (by omega)).1
    exact ⟨by simpa [encodeAt, encode] using hfirst, (h i hi).2⟩
  · intro h i hi
    refine ⟨?_, (h _ (List.get_mem ..)).2⟩
    -- the blocks before are of sizes that are multiples of 4
    have hpre : ∀ pre : List Block, (∀ b ∈ pre, 4 ∣ b.size) → 4 ∣ (encodeAt base pre).length := by
      intro pre hpre
      induction pre with
      | nil => exact Nat.dvd_zero 4
      | cons b pre ih =>
          have hcons : (encodeAt base (b :: pre)).length = b.size + (encodeAt base pre).length := by
            simp [encodeAt, encode]
          rw [hcons]
          exact Nat.dvd_add (hpre b List.mem_cons_self)
            (ih fun c hc => hpre c (List.mem_cons_of_mem b hc))
    exact Nat.dvd_add (h _ (List.get_mem bs ⟨i, hi⟩)).1
      (hpre _ fun b hb => (h b (List.mem_of_mem_take hb)).2)

theorem pairwise_farVaddrs {exec : Executable}
    (hsorted : exec.relocs.Pairwise fun r r' => r.vaddr ≤ r'.vaddr) :
    ((exec.relocs.map fun r => r.vaddr.toNat).filter fun x => 4096 ≤ x).Pairwise (· ≤ ·) := by
  apply List.Pairwise.filter
  rw [List.pairwise_map]
  exact hsorted.imp fun h => UInt64.le_iff_toNat_le.mp h

theorem mem_farVaddrs {exec : Executable} {x : Nat} :
    x ∈ (exec.relocs.map fun r => r.vaddr.toNat).filter (fun x => 4096 ≤ x) ↔
      ∃ r ∈ exec.relocs, r.vaddr.toNat = x ∧ 4096 ≤ x := by
  simp only [List.mem_filter, List.mem_map, decide_eq_true_eq]
  constructor
  · rintro ⟨⟨r, hr, hx⟩, hle⟩
    exact ⟨r, hr, hx, hle⟩
  · rintro ⟨r, hr, hx, hle⟩
    exact ⟨⟨r, hr, hx⟩, hle⟩

/-- A block has the relocations of its page. -/
theorem size_relocBlocks {exec : Executable}
    (hsorted : exec.relocs.Pairwise fun r r' => r.vaddr ≤ r'.vaddr) {b : Block}
    (hb : b ∈ exec.relocBlocks) : b.size = 8 + 2 * exec.relocsInPage b.page := by
  have hfar := pairwise_farVaddrs hsorted
  obtain ⟨x, hx, hpage⟩ := page_blocksOf hfar hb
  obtain ⟨-, -, -, hle⟩ := mem_farVaddrs.mp hx
  have hpos := pageOf_pos.mpr hle
  rw [Block.size, length_offsets_blocksOf hfar hb, List.countP_filter, List.countP_map]
  congr 2
  apply List.countP_congr
  intro r _
  simp only [Function.comp_apply, Bool.and_eq_true, decide_eq_true_eq]
  constructor
  · exact fun h => h.1
  · intro h
    exact ⟨h, pageOf_pos.mp (by omega)⟩

/-- **The blocks of the table are aligned** exactly when every page with relocations has an even
number of them.  Page 0, which has entries but no block, matters when a block follows. -/
theorem createPeReloc_aligned_iff {exec : Executable} (base : UInt64)
    (hsorted : exec.relocs.Pairwise fun r r' => r.vaddr ≤ r'.vaddr)
    (hnum : exec.relocs.length < 2 ^ 60) :
    ∃ table front, createPeReloc exec base = .ok table ∧
      table.rawData = front ++ encodeAt base exec.relocBlocks ∧
      front.length = 2 * exec.relocsInPage 0 ∧
      (BlocksAligned base front.length exec.relocBlocks ↔
        ∀ r ∈ exec.relocs, 4096 ≤ r.vaddr.toNat →
          2 ∣ exec.relocsInPage (pageOf r.vaddr.toNat) ∧ 2 ∣ exec.relocsInPage 0) := by
  obtain ⟨table, front, hok, hraw, hfront, -⟩ := createPeReloc_blocks base hsorted hnum
  have hzero : (exec.relocs.countP fun r => r.vaddr.toNat < 4096) = exec.relocsInPage 0 := by
    apply List.countP_congr
    intro r _
    have hpage := @pageOf_pos r.vaddr.toNat
    simp only [decide_eq_true_eq]
    omega
  have hfar := pairwise_farVaddrs hsorted
  rw [hzero] at hfront
  refine ⟨table, front, hok, hraw, hfront, ?_⟩
  rw [blocksAligned_iff]
  constructor
  · intro h r hr hle
    obtain ⟨b, hb, hpage⟩ := cover_blocksOf hfar (mem_farVaddrs.mpr ⟨r, hr, rfl, hle⟩)
    have hsize := size_relocBlocks hsorted hb
    have hb' := h b hb
    rw [← hpage]
    omega
  · intro h b hb
    obtain ⟨x, hx, hpage⟩ := page_blocksOf hfar hb
    obtain ⟨r, hr, rfl, hle⟩ := mem_farVaddrs.mp hx
    have hsize := size_relocBlocks hsorted hb
    have heven := h r hr hle
    rw [← hpage] at heven
    omega

theorem createPeReloc_aligned_iff_two :
    ∃ table front, createPeReloc (relocsAt [0x1008, 0x1010]) 0x1000 = .ok table ∧
      table.rawData = front ++ encodeAt 0x1000 (relocsAt [0x1008, 0x1010]).relocBlocks ∧
      front.length = 2 * (relocsAt [0x1008, 0x1010]).relocsInPage 0 ∧
      (BlocksAligned 0x1000 front.length (relocsAt [0x1008, 0x1010]).relocBlocks ↔
        ∀ r ∈ (relocsAt [0x1008, 0x1010]).relocs, 4096 ≤ r.vaddr.toNat →
          2 ∣ (relocsAt [0x1008, 0x1010]).relocsInPage (pageOf r.vaddr.toNat) ∧
          2 ∣ (relocsAt [0x1008, 0x1010]).relocsInPage 0) :=
  createPeReloc_aligned_iff 0x1000 (by decide) (by decide)

/-- One relocation in each of two pages: the second block starts at offset 10. -/
theorem two_pages_not_aligned :
    ∃ table, createPeReloc (relocsAt [0x10001008, 0x10002008]) 0x10000000 = .ok table ∧
      table.rawData = encodeAt 0x10000000 (relocsAt [0x10001008, 0x10002008]).relocBlocks ∧
      (encodeAt 0x10000000
        ((relocsAt [0x10001008, 0x10002008]).relocBlocks.take 1)).length = 10 ∧
      ¬ BlocksAligned 0x10000000 0 (relocsAt [0x10001008, 0x10002008]).relocBlocks := by
  obtain ⟨table, front, hok, hraw, hfront, -⟩ := @createPeReloc_blocks
    (relocsAt [0x10001008, 0x10002008]) 0x10000000 (by decide) (by decide)
  have hnil : front = [] := by
    apply List.length_eq_zero_iff.mp
    rw [hfront]
    decide
  refine ⟨table, hok, ?_, by decide, ?_⟩
  · rw [hraw, hnil, List.nil_append]
  · intro h
    exact absurd (h 0 (by decide)).2 (by decide)

end LoliLoader.Elf2Efi
