/-
# LoliLoader.Pe.BaseReloc -- base relocation tables of PE images

A table is a sequence of blocks, one for a page: the RVA of the page, the size of the block, and an
entry of 16 bits for every word, its type above the offset in the page. `encode` writes such a table
for words of 64 bits, `decode` is how a loader reads one; `blocksOf` groups addresses by page.

This is the format and not a program. `decode` takes any bytes and follows the sizes in the headers;
where they make no sense it gives nothing. `walk` does the same and keeps the blocks, for statements
about the blocks themselves.

Reading back what was written needs that the numbers fit their fields (`Fits`). Then the addresses
come back in the order in which they were written (`decode_encode`), and so do the blocks
(`walk_encode`).

Grouping is defined by adding one address at a time behind the others, which is how a program does
it that goes over a sorted list. `groups_blocksOf` says what comes out of it: one block for every
page, in order.
-/
import LoliLoader.Bytes.Record

namespace LoliLoader.Pe

open Bytes

/-- The words to relocate in one page, by their offsets in it, in any order. -/
structure Block where
  page : Nat
  offsets : List Nat
  deriving DecidableEq, Repr

/-- The types of entries: one that names no word, and one for a word of 64 bits. -/
def IMAGE_REL_BASED_ABSOLUTE : Nat := 0
def IMAGE_REL_BASED_DIR64 : Nat := 10

namespace Block

/-- The addresses a block names: its page and each of the offsets. -/
def addresses (b : Block) : List Nat := b.offsets.map fun o => b.page + o

def entries (b : Block) : List UInt8 :=
  b.offsets.flatMap fun o => leBytes 2 (IMAGE_REL_BASED_DIR64 * 4096 + o)

def size (b : Block) : Nat := 8 + 2 * b.offsets.length

def encode (b : Block) : List UInt8 := leBytes 4 b.page ++ (leBytes 4 b.size ++ b.entries)

/-- The numbers of the block fit their fields, and its offsets are in the page. -/
structure Fits (b : Block) : Prop where
  page : b.page < 2 ^ 32
  size : b.size < 2 ^ 32
  offsets : ∀ o ∈ b.offsets, o < 4096

@[simp]
theorem length_entries (b : Block) : b.entries.length = 2 * b.offsets.length := by
  unfold entries
  induction b.offsets with
  | nil => rfl
  | cons o os ih =>
      rw [List.flatMap_cons, List.length_append, ih, length_leBytes, List.length_cons]
      omega

@[simp]
theorem length_encode (b : Block) : b.encode.length = b.size := by
  simp only [encode, size, List.length_append, length_leBytes, length_entries]
  omega

end Block

def encode (bs : List Block) : List UInt8 := bs.flatMap Block.encode

/-! ## Reading a table -/

/-- The addresses that the entries of a block in page `page` name. Only words of 64 bits are
known. -/
def decodeEntries (page : Nat) : List UInt8 → Option (List Nat)
  | [] => some []
  | [_] => none
  | b₀ :: b₁ :: rest => do
    let entry := ofLE [b₀, b₁]
    let addresses ← decodeEntries page rest
    if entry / 4096 = IMAGE_REL_BASED_DIR64 then
      return (page + entry % 4096) :: addresses
    else if entry / 4096 = IMAGE_REL_BASED_ABSOLUTE then
      return addresses
    else
      none

/-- The addresses a table names, read block by block as a loader does; nothing if the sizes make no
sense or an entry is unknown. -/
def decode (table : List UInt8) : Option (List Nat) :=
  if table = [] then some []
  else
    match word table 0 4, word table 4 4 with
    | some page, some size =>
      if _h : 8 ≤ size ∧ size ≤ table.length then do
        let addresses ← decodeEntries page ((table.take size).drop 8)
        let rest ← decode (table.drop size)
        return addresses ++ rest
      else none
    | _, _ => none
termination_by table.length
decreasing_by
  rw [List.length_drop]
  omega

/-- An entry for a word of 64 bits. -/
theorem decodeEntries_dir64 (page o : Nat) (rest : List UInt8) (ho : o < 4096) :
    decodeEntries page (leBytes 2 (IMAGE_REL_BASED_DIR64 * 4096 + o) ++ rest)
      = (decodeEntries page rest).map fun addresses => (page + o) :: addresses := by
  have hentry : ofLE (leBytes 2 (IMAGE_REL_BASED_DIR64 * 4096 + o)) = 40960 + o := by
    rw [ofLE_leBytes_of_lt (by unfold IMAGE_REL_BASED_DIR64; omega)]
    rfl
  have htype : (40960 + o) / 4096 = IMAGE_REL_BASED_DIR64 := by
    unfold IMAGE_REL_BASED_DIR64
    omega
  have hoffset : (40960 + o) % 4096 = o := by omega
  show decodeEntries page (_ :: _ :: rest) = _
  rw [decodeEntries, show ofLE [_, _] = 40960 + o from hentry]
  rw [htype, hoffset]
  cases decodeEntries page rest <;> rfl

theorem decodeEntries_flatMap (page : Nat) {os : List Nat} (h : ∀ o ∈ os, o < 4096) :
    decodeEntries page (os.flatMap fun o => leBytes 2 (IMAGE_REL_BASED_DIR64 * 4096 + o))
      = some (os.map fun o => page + o) := by
  induction os with
  | nil => rfl
  | cons o os ih =>
      rw [List.flatMap_cons, decodeEntries_dir64 _ _ _ (h o List.mem_cons_self),
        ih fun o ho => h o (List.mem_cons_of_mem _ ho)]
      rfl

/-- What is read of the first block of a table, and what is left of the table behind it. -/
structure ReadsBlock (table : List UInt8) (b : Block) (rest : List UInt8) : Prop where
  ne_nil : table ≠ []
  page : word table 0 4 = some b.page
  size : word table 4 4 = some b.size
  length : 8 ≤ b.size ∧ b.size ≤ table.length
  entries : (table.take b.size).drop 8 = b.entries
  rest : table.drop b.size = rest

theorem readsBlock_encode {b : Block} (hb : b.Fits) (bs : List Block) :
    ReadsBlock (encode (b :: bs)) b (encode bs) := by
  have htable : encode (b :: bs)
      = leBytes 4 b.page ++ (leBytes 4 b.size ++ (b.entries ++ encode bs)) := by
    simp [encode, Block.encode]
  have hsplit : encode (b :: bs) = b.encode ++ encode bs := List.flatMap_cons
  have hlen : 8 ≤ b.size ∧ b.size ≤ (encode (b :: bs)).length := by
    rw [hsplit, List.length_append, Block.length_encode]
    unfold Block.size
    omega
  refine ⟨?_, ?_, ?_, hlen, ?_, ?_⟩
  · intro hnil
    rw [hnil] at hlen
    have := hlen.2
    simp at this
    omega
  · rw [htable]
    exact word_leBytes_of_lt [] _ hb.page
  · rw [htable]
    exact word_leBytes_of_lt (leBytes 4 b.page) _ hb.size
  · rw [hsplit, ← Block.length_encode b, List.take_left]
    simp [Block.encode, ← List.append_assoc]
  · rw [hsplit, ← Block.length_encode b, List.drop_left]

/-- **A table reads back** as the addresses it was written for, in the same order, if the numbers
fit. -/
theorem decode_encode {bs : List Block} (h : ∀ b ∈ bs, b.Fits) :
    decode (encode bs) = some (bs.flatMap Block.addresses) := by
  induction bs with
  | nil =>
      rw [decode]
      rfl
  | cons b bs ih =>
      have hb : b.Fits := h b List.mem_cons_self
      have hread := readsBlock_encode hb bs
      rw [decode, if_neg hread.ne_nil, hread.page, hread.size]
      dsimp only
      rw [dif_pos hread.length, hread.entries, hread.rest,
        ih fun b hb => h b (List.mem_cons_of_mem _ hb), Block.entries,
        decodeEntries_flatMap _ hb.offsets]
      rfl

/-! ## Walking a table -/

/-- A block as it is read: the RVA of its page, its size, and its entries by type and offset,
padding included. -/
structure RawBlock where
  page : Nat
  size : Nat
  entries : List (Nat × Nat)
  deriving DecidableEq, Repr

/-- The entries in some bytes, two bytes each; an odd one at the end is no entry. -/
def readEntries : List UInt8 → List (Nat × Nat)
  | b₀ :: b₁ :: rest => (ofLE [b₀, b₁] / 4096, ofLE [b₀, b₁] % 4096) :: readEntries rest
  | _ => []

/-- The blocks of a table from its first byte to its last. -/
def walk (table : List UInt8) : Option (List RawBlock) :=
  if table = [] then some []
  else
    match word table 0 4, word table 4 4 with
    | some page, some size =>
      if _h : 8 ≤ size ∧ size ≤ table.length then
        (walk (table.drop size)).map fun bs =>
          ⟨page, size, readEntries ((table.take size).drop 8)⟩ :: bs
      else none
    | _, _ => none
termination_by table.length
decreasing_by
  rw [List.length_drop]
  omega

def Block.raw (b : Block) : RawBlock :=
  ⟨b.page, b.size, b.offsets.map fun o => (IMAGE_REL_BASED_DIR64, o)⟩

theorem readEntries_flatMap {os : List Nat} (h : ∀ o ∈ os, o < 4096) :
    readEntries (os.flatMap fun o => leBytes 2 (IMAGE_REL_BASED_DIR64 * 4096 + o))
      = os.map fun o => (IMAGE_REL_BASED_DIR64, o) := by
  induction os with
  | nil => rfl
  | cons o os ih =>
      have ho := h o List.mem_cons_self
      have hentry : ofLE (leBytes 2 (IMAGE_REL_BASED_DIR64 * 4096 + o)) = 40960 + o := by
        rw [ofLE_leBytes_of_lt (by unfold IMAGE_REL_BASED_DIR64; omega)]
        rfl
      have htype : (40960 + o) / 4096 = IMAGE_REL_BASED_DIR64 := by
        unfold IMAGE_REL_BASED_DIR64
        omega
      have hoffset : (40960 + o) % 4096 = o := by omega
      rw [List.flatMap_cons, List.map_cons, ← ih fun o' ho' => h o' (List.mem_cons_of_mem o ho')]
      show readEntries (_ :: _ :: List.flatMap _ os) = _
      rw [readEntries, show ofLE [_, _] = 40960 + o from hentry, htype, hoffset]

/-- **A table is walked** block by block, to its end, and the blocks are those that were written. -/
theorem walk_encode {bs : List Block} (h : ∀ b ∈ bs, b.Fits) :
    walk (encode bs) = some (bs.map Block.raw) := by
  induction bs with
  | nil =>
      rw [walk]
      rfl
  | cons b bs ih =>
      have hb : b.Fits := h b List.mem_cons_self
      have hread := readsBlock_encode hb bs
      rw [walk, if_neg hread.ne_nil, hread.page, hread.size]
      dsimp only
      rw [dif_pos hread.length, hread.entries, hread.rest,
        ih fun b hb => h b (List.mem_cons_of_mem _ hb), Block.entries,
        readEntries_flatMap hb.offsets]
      rfl

/-! ## Grouping addresses by page -/

/-- The page an address is in, by the address of its first byte. -/
def pageOf (x : Nat) : Nat := x / 4096 * 4096

/-- One more address for the blocks so far, the last one first. -/
def addAddress (bs : List Block) (x : Nat) : List Block :=
  match bs with
  | [] => [⟨pageOf x, [x % 4096]⟩]
  | b :: bs =>
    if b.page < pageOf x then ⟨pageOf x, [x % 4096]⟩ :: b :: bs
    else ⟨b.page, b.offsets ++ [x % 4096]⟩ :: bs

theorem addAddress_new {b : Block} {bs : List Block} {x : Nat} (h : b.page < pageOf x) :
    addAddress (b :: bs) x = ⟨pageOf x, [x % 4096]⟩ :: b :: bs := if_pos h

theorem addAddress_same {b : Block} {bs : List Block} {x : Nat} (h : ¬ b.page < pageOf x) :
    addAddress (b :: bs) x = ⟨b.page, b.offsets ++ [x % 4096]⟩ :: bs := if_neg h

/-- The blocks for ascending addresses, one for each page that has any. -/
def blocksOf (xs : List Nat) : List Block := (xs.foldl addAddress []).reverse

theorem pageOf_add (x : Nat) : pageOf x + x % 4096 = x := Nat.div_add_mod' x 4096

theorem pageOf_mono {x y : Nat} (h : x ≤ y) : pageOf x ≤ pageOf y :=
  Nat.mul_le_mul_right 4096 (Nat.div_le_div_right h)

theorem length_encode_append (bs cs : List Block) :
    (encode (bs ++ cs)).length = (encode bs).length + (encode cs).length := by
  rw [encode, List.flatMap_append, List.length_append, encode, encode]

/-- The blocks so far are not past `x`, and the last one is of page `pageOf x` at most. -/
def Before (x : Nat) : List Block → Prop
  | [] => True
  | b :: _ => b.page ≤ pageOf x

theorem before_addAddress {bs : List Block} {x y : Nat} (h : Before x bs) (hxy : x ≤ y) :
    Before y (addAddress bs x) := by
  cases bs with
  | nil => exact pageOf_mono hxy
  | cons b bs =>
      by_cases hp : b.page < pageOf x
      · rw [addAddress_new hp]
        exact pageOf_mono hxy
      · rw [addAddress_same hp]
        exact le_trans h (pageOf_mono hxy)

/-- The addresses of the blocks, in order. -/
theorem addresses_addAddress {bs : List Block} {x : Nat} (h : Before x bs) :
    (addAddress bs x).reverse.flatMap Block.addresses
      = bs.reverse.flatMap Block.addresses ++ [x] := by
  cases bs with
  | nil =>
      show [pageOf x + x % 4096] = [x]
      rw [pageOf_add]
  | cons b bs =>
      by_cases hp : b.page < pageOf x
      · rw [addAddress_new hp, List.reverse_cons, List.flatMap_append]
        show _ ++ [pageOf x + x % 4096] = _
        rw [pageOf_add]
      · -- the last block is of the page of `x`
        have hpage : b.page = pageOf x := le_antisymm h (Nat.not_lt.mp hp)
        rw [addAddress_same hp]
        simp only [List.reverse_cons, List.flatMap_append, List.flatMap_singleton, Block.addresses,
          List.map_append, List.map_cons, List.map_nil, hpage, pageOf_add, List.append_assoc]

theorem addresses_foldl {bs : List Block} {xs : List Nat} (hsorted : xs.Pairwise (· ≤ ·))
    (hbefore : ∀ x ∈ xs, Before x bs) :
    (xs.foldl addAddress bs).reverse.flatMap Block.addresses
      = bs.reverse.flatMap Block.addresses ++ xs := by
  induction xs generalizing bs with
  | nil => rw [List.append_nil]; rfl
  | cons x xs ih =>
      rw [List.pairwise_cons] at hsorted
      have hx := hbefore x List.mem_cons_self
      rw [List.foldl_cons, ih hsorted.2 fun y hy => before_addAddress hx (hsorted.1 y hy),
        addresses_addAddress hx, List.append_assoc]
      rfl

/-- **Grouping** keeps ascending addresses as they are: read block by block, they are the same
list. -/
theorem addresses_blocksOf {xs : List Nat} (hsorted : xs.Pairwise (· ≤ ·)) :
    (blocksOf xs).flatMap Block.addresses = xs :=
  addresses_foldl hsorted fun _ _ => trivial

/-- What the blocks `bs`, the last one first, are for the addresses `xs`: a block for each page,
with an entry for each address. -/
structure Groups (bs : List Block) (xs : List Nat) : Prop where
  page : ∀ b ∈ bs, ∃ x ∈ xs, b.page = pageOf x
  count : ∀ b ∈ bs, b.offsets.length = xs.countP fun x => pageOf x = b.page
  offsets : ∀ b ∈ bs, ∀ o ∈ b.offsets, o < 4096
  descending : bs.Pairwise fun b c => c.page < b.page
  cover : ∀ x ∈ xs, ∃ b ∈ bs, b.page = pageOf x

theorem Groups.before {bs : List Block} {xs : List Nat} {x : Nat} (h : Groups bs xs)
    (hx : ∀ y ∈ xs, y ≤ x) : ∀ b ∈ bs, b.page ≤ pageOf x := by
  intro b hb
  obtain ⟨y, hy, hpage⟩ := h.page b hb
  rw [hpage]
  exact pageOf_mono (hx y hy)

theorem Groups.new {bs : List Block} {xs : List Nat} {x : Nat} (h : Groups bs xs)
    (hnew : ∀ b ∈ bs, b.page < pageOf x) : Groups (⟨pageOf x, [x % 4096]⟩ :: bs) (x :: xs) where
  page b hb := by
    rcases List.mem_cons.mp hb with rfl | hb
    · exact ⟨x, List.mem_cons_self, rfl⟩
    · obtain ⟨y, hy, hpage⟩ := h.page b hb
      exact ⟨y, List.mem_cons_of_mem x hy, hpage⟩
  count b hb := by
    rw [List.countP_cons]
    rcases List.mem_cons.mp hb with rfl | hb
    · -- no address before was in this page
      have hnone : xs.countP (fun y => pageOf y = pageOf x) = 0 := by
        rw [List.countP_eq_zero]
        intro y hy hpage
        obtain ⟨c, hc, hcy⟩ := h.cover y hy
        have hlt := hnew c hc
        rw [hcy, of_decide_eq_true hpage] at hlt
        exact lt_irrefl _ hlt
      simp [hnone]
    · have hne : pageOf x ≠ b.page := Nat.ne_of_gt (hnew b hb)
      simp [h.count b hb, hne]
  offsets b hb := by
    rcases List.mem_cons.mp hb with rfl | hb
    · intro o ho
      obtain rfl := List.mem_singleton.mp ho
      exact Nat.mod_lt x (by decide)
    · exact h.offsets b hb
  descending := List.pairwise_cons.mpr ⟨fun b hb => hnew b hb, h.descending⟩
  cover y hy := by
    rcases List.mem_cons.mp hy with rfl | hy
    · exact ⟨_, List.mem_cons_self, rfl⟩
    · obtain ⟨b, hb, hpage⟩ := h.cover y hy
      exact ⟨b, List.mem_cons_of_mem _ hb, hpage⟩

theorem Groups.same {b : Block} {bs : List Block} {xs : List Nat} {x : Nat}
    (h : Groups (b :: bs) xs) (hpage : b.page = pageOf x) :
    Groups (⟨b.page, b.offsets ++ [x % 4096]⟩ :: bs) (x :: xs) where
  page c hc := by
    rcases List.mem_cons.mp hc with rfl | hc
    · exact ⟨x, List.mem_cons_self, hpage⟩
    · obtain ⟨y, hy, hcy⟩ := h.page c (List.mem_cons_of_mem b hc)
      exact ⟨y, List.mem_cons_of_mem x hy, hcy⟩
  count c hc := by
    rw [List.countP_cons]
    rcases List.mem_cons.mp hc with rfl | hc
    · simp [h.count b List.mem_cons_self, hpage]
    · have hlt := (List.pairwise_cons.mp h.descending).1 c hc
      have hne : pageOf x ≠ c.page := by omega
      simp [h.count c (List.mem_cons_of_mem b hc), hne]
  offsets c hc := by
    rcases List.mem_cons.mp hc with rfl | hc
    · intro o ho
      rcases List.mem_append.mp ho with ho | ho
      · exact h.offsets b List.mem_cons_self o ho
      · obtain rfl := List.mem_singleton.mp ho
        exact Nat.mod_lt x (by decide)
    · exact h.offsets c (List.mem_cons_of_mem b hc)
  descending := List.pairwise_cons.mpr (List.pairwise_cons.mp h.descending)
  cover y hy := by
    rcases List.mem_cons.mp hy with rfl | hy
    · exact ⟨_, List.mem_cons_self, hpage⟩
    · obtain ⟨c, hc, hcy⟩ := h.cover y hy
      rcases List.mem_cons.mp hc with rfl | hc
      · exact ⟨_, List.mem_cons_self, hcy⟩
      · exact ⟨c, List.mem_cons_of_mem _ hc, hcy⟩

theorem Groups.add {bs : List Block} {xs : List Nat} {x : Nat} (h : Groups bs xs)
    (hx : ∀ y ∈ xs, y ≤ x) : Groups (addAddress bs x) (x :: xs) := by
  have hbefore := h.before hx
  cases bs with
  | nil => exact h.new (by simp)
  | cons b bs =>
      have hb := hbefore b List.mem_cons_self
      by_cases hp : b.page < pageOf x
      · rw [addAddress_new hp]
        apply h.new
        intro c hc
        rcases List.mem_cons.mp hc with rfl | hc
        · exact hp
        · exact lt_trans ((List.pairwise_cons.mp h.descending).1 c hc) hp
      · rw [addAddress_same hp]
        exact h.same (by omega)

theorem groups_foldl {bs : List Block} {done xs : List Nat} (h : Groups bs done)
    (hsorted : xs.Pairwise (· ≤ ·)) (hdone : ∀ y ∈ done, ∀ x ∈ xs, y ≤ x) :
    Groups (xs.foldl addAddress bs) (xs.reverse ++ done) := by
  induction xs generalizing bs done with
  | nil => exact h
  | cons x xs ih =>
      rw [List.pairwise_cons] at hsorted
      have hadd := h.add (x := x) fun y hy => hdone y hy x List.mem_cons_self
      rw [List.foldl_cons, List.reverse_cons, List.append_assoc]
      apply ih hadd hsorted.2
      intro y hy z hz
      rcases List.mem_cons.mp hy with rfl | hy
      · exact hsorted.1 z hz
      · exact hdone y hy z (List.mem_cons_of_mem x hz)

/-- **The blocks for ascending addresses**: one for every page, in order, with an entry for each
address in the page. -/
theorem groups_blocksOf {xs : List Nat} (hsorted : xs.Pairwise (· ≤ ·)) :
    Groups (blocksOf xs).reverse xs.reverse := by
  have hnil : Groups [] [] := ⟨by simp, by simp, by simp, .nil, by simp⟩
  have h := groups_foldl hnil hsorted (by simp)
  rwa [List.append_nil, ← List.reverse_reverse (xs.foldl addAddress [])] at h

theorem length_offsets_blocksOf {xs : List Nat} (hsorted : xs.Pairwise (· ≤ ·)) {b : Block}
    (hb : b ∈ blocksOf xs) : b.offsets.length = xs.countP fun x => pageOf x = b.page := by
  rw [(groups_blocksOf hsorted).count b (List.mem_reverse.mpr hb), List.countP_reverse]

theorem page_blocksOf {xs : List Nat} (hsorted : xs.Pairwise (· ≤ ·)) {b : Block}
    (hb : b ∈ blocksOf xs) : ∃ x ∈ xs, b.page = pageOf x := by
  obtain ⟨x, hx, hpage⟩ := (groups_blocksOf hsorted).page b (List.mem_reverse.mpr hb)
  exact ⟨x, List.mem_reverse.mp hx, hpage⟩

theorem cover_blocksOf {xs : List Nat} (hsorted : xs.Pairwise (· ≤ ·)) {x : Nat} (hx : x ∈ xs) :
    ∃ b ∈ blocksOf xs, b.page = pageOf x := by
  obtain ⟨b, hb, hpage⟩ := (groups_blocksOf hsorted).cover x (List.mem_reverse.mpr hx)
  exact ⟨b, List.mem_reverse.mp hb, hpage⟩

theorem offsets_blocksOf_ne_nil {xs : List Nat} (hsorted : xs.Pairwise (· ≤ ·)) {b : Block}
    (hb : b ∈ blocksOf xs) : b.offsets ≠ [] := by
  obtain ⟨x, hx, hpage⟩ := page_blocksOf hsorted hb
  intro hnil
  have hcount := length_offsets_blocksOf hsorted hb
  rw [hnil, List.length_nil, eq_comm, List.countP_eq_zero] at hcount
  exact hcount x hx (decide_eq_true hpage.symm)

theorem pairwise_blocksOf {xs : List Nat} (hsorted : xs.Pairwise (· ≤ ·)) :
    (blocksOf xs).Pairwise fun b c => b.page < c.page :=
  List.pairwise_reverse.mp (groups_blocksOf hsorted).descending

theorem fits_blocksOf {xs : List Nat} (hsorted : xs.Pairwise (· ≤ ·)) (hxs : ∀ x ∈ xs, x < 2 ^ 32)
    {b : Block} (hb : b ∈ blocksOf xs) (hsize : b.size < 2 ^ 32) : b.Fits where
  page := by
    obtain ⟨x, hx, hpage⟩ := page_blocksOf hsorted hb
    have hlt := hxs x hx
    have hadd := pageOf_add x
    omega
  size := hsize
  offsets := (groups_blocksOf hsorted).offsets b (List.mem_reverse.mpr hb)

theorem size_le_length {bs : List Block} {b : Block} (hb : b ∈ bs) :
    b.size ≤ (encode bs).length := by
  obtain ⟨s, t, rfl⟩ := List.append_of_mem hb
  rw [length_encode_append]
  simp [encode]
  omega

/-- Every address takes two bytes. -/
theorem two_mul_length_le (bs : List Block) :
    2 * (bs.flatMap Block.addresses).length ≤ (encode bs).length := by
  induction bs with
  | nil => exact Nat.zero_le _
  | cons b bs ih =>
      have hcons : (encode (b :: bs)).length = b.size + (encode bs).length := by
        simp [encode]
      rw [List.flatMap_cons, List.length_append, hcons, Block.addresses, List.length_map,
        Block.size]
      omega

/-- **The table for ascending addresses** reads back as these addresses, if the table and the
addresses fit 32 bits. -/
theorem decode_encode_blocksOf {xs : List Nat} (hsorted : xs.Pairwise (· ≤ ·))
    (hxs : ∀ x ∈ xs, x < 2 ^ 32) (hlen : (encode (blocksOf xs)).length < 2 ^ 32) :
    decode (encode (blocksOf xs)) = some xs := by
  rw [decode_encode, addresses_blocksOf hsorted]
  intro b hb
  exact fits_blocksOf hsorted hxs hb (lt_of_le_of_lt (size_le_length hb) hlen)

end LoliLoader.Pe
