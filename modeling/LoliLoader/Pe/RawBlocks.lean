/-
# LoliLoader.Pe.RawBlocks -- base relocation tables with padding

A table may have entries that name no word, so that its blocks are aligned. `RawBlock`s are written
with all their entries; a loader that walks them finds them again and takes the words.

A program that pads its blocks adds an entry of type zero where the number of entries is odd. Here a
block has any entries of any types, and its size is that of its entries; so the padding is part of
what is written and does not have to be mentioned.

`walk_encodeRaw` is the round trip for such blocks. `decode_of_walk` connects the two readers of
`Pe.BaseReloc`: what a loader takes from a table are the words of the blocks that are found by
walking it, as long as all entries are words of 64 bits or padding.
-/
import LoliLoader.Pe.BaseReloc

namespace LoliLoader.Pe

open Bytes

namespace RawBlock

def entryBytes (e : Nat × Nat) : List UInt8 := leBytes 2 (e.1 * 4096 + e.2)

def encode (b : RawBlock) : List UInt8 :=
  leBytes 4 b.page ++ (leBytes 4 b.size ++ b.entries.flatMap entryBytes)

/-- The words of 64 bits that a block names; entries of other types name none. -/
def words (b : RawBlock) : List Nat :=
  (b.entries.filter fun e => e.1 = IMAGE_REL_BASED_DIR64).map fun e => b.page + e.2

/-- The numbers of the block fit their fields, and the size is that of the entries and the
header. -/
structure Fits (b : RawBlock) : Prop where
  page : b.page < 2 ^ 32
  size : b.size < 2 ^ 32
  length : b.size = 8 + 2 * b.entries.length
  entries : ∀ e ∈ b.entries, e.1 < 16 ∧ e.2 < 4096

end RawBlock

def encodeRaw (bs : List RawBlock) : List UInt8 := bs.flatMap RawBlock.encode

/-! ## Walking what was written -/

theorem ofLE_entryBytes {e : Nat × Nat} (h : e.1 < 16 ∧ e.2 < 4096) :
    ofLE (RawBlock.entryBytes e) = e.1 * 4096 + e.2 :=
  ofLE_leBytes_of_lt (by omega)

theorem readEntries_entryBytes {es : List (Nat × Nat)} (h : ∀ e ∈ es, e.1 < 16 ∧ e.2 < 4096) :
    readEntries (es.flatMap RawBlock.entryBytes) = es := by
  induction es with
  | nil => rfl
  | cons e es ih =>
      rw [List.forall_mem_cons] at h
      have hword := ofLE_entryBytes h.1
      have htype : (e.1 * 4096 + e.2) / 4096 = e.1 := by omega
      have hoffset : (e.1 * 4096 + e.2) % 4096 = e.2 := by omega
      rw [List.flatMap_cons]
      show readEntries (_ :: _ :: List.flatMap _ es) = _
      rw [readEntries, show ofLE [_, _] = _ from hword, htype, hoffset, ih h.2]

theorem length_entryBytes (es : List (Nat × Nat)) :
    (es.flatMap RawBlock.entryBytes).length = 2 * es.length := by
  induction es with
  | nil => rfl
  | cons e es ih =>
      rw [List.flatMap_cons, List.length_append, ih, RawBlock.entryBytes, length_leBytes,
        List.length_cons]
      omega

theorem RawBlock.Fits.length_encode {b : RawBlock} (h : b.Fits) : b.encode.length = b.size := by
  rw [RawBlock.encode, List.length_append, List.length_append, length_leBytes, length_leBytes,
    length_entryBytes, h.length]
  omega

theorem length_encodeRaw {bs : List RawBlock} (h : ∀ b ∈ bs, b.Fits) :
    (encodeRaw bs).length = (bs.map RawBlock.size).sum := by
  induction bs with
  | nil => rfl
  | cons b bs ih =>
      rw [List.forall_mem_cons] at h
      rw [List.map_cons, List.sum_cons, ← ih h.2, ← h.1.length_encode]
      exact List.length_append

/-- **What was written** is walked block by block, to its end, with all entries. -/
theorem walk_encodeRaw {bs : List RawBlock} (h : ∀ b ∈ bs, b.Fits) :
    walk (encodeRaw bs) = some bs := by
  induction bs with
  | nil =>
      rw [walk]
      rfl
  | cons b bs ih =>
      rw [List.forall_mem_cons] at h
      have hsplit : encodeRaw (b :: bs) = b.encode ++ encodeRaw bs := List.flatMap_cons
      have hfront : encodeRaw (b :: bs) = leBytes 4 b.page ++ (leBytes 4 b.size ++
          (b.entries.flatMap RawBlock.entryBytes ++ encodeRaw bs)) := by
        rw [hsplit, RawBlock.encode, List.append_assoc, List.append_assoc]
      have hlen := h.1.length_encode
      have hsize := h.1.length
      have hle : 8 ≤ b.size ∧ b.size ≤ (encodeRaw (b :: bs)).length := by
        rw [hsplit, List.length_append, hlen]
        omega
      have hne : encodeRaw (b :: bs) ≠ [] := List.ne_nil_of_length_pos (by omega)
      have hpage : word (encodeRaw (b :: bs)) 0 4 = some b.page := by
        rw [hfront]
        exact word_leBytes_of_lt [] _ h.1.page
      have hsizeWord : word (encodeRaw (b :: bs)) 4 4 = some b.size := by
        rw [hfront]
        exact word_leBytes_of_lt (leBytes 4 b.page) _ h.1.size
      have hentries : ((encodeRaw (b :: bs)).take b.size).drop 8
          = b.entries.flatMap RawBlock.entryBytes := by
        rw [hsplit, ← hlen, List.take_left, RawBlock.encode, ← List.append_assoc]
        exact List.drop_left' rfl
      have hrest : (encodeRaw (b :: bs)).drop b.size = encodeRaw bs := by
        rw [hsplit, ← hlen, List.drop_left]
      rw [walk, if_neg hne, hpage, hsizeWord]
      dsimp only
      rw [dif_pos hle, hentries, hrest, ih h.2, readEntries_entryBytes h.1.entries]
      rfl

/-! ## Decoding what is walked -/

theorem decodeEntries_eq (page : Nat) {bytes : List UInt8} (heven : 2 ∣ bytes.length)
    (htype : ∀ e ∈ readEntries bytes,
      e.1 = IMAGE_REL_BASED_DIR64 ∨ e.1 = IMAGE_REL_BASED_ABSOLUTE) :
    decodeEntries page bytes
      = some (((readEntries bytes).filter fun e => e.1 = IMAGE_REL_BASED_DIR64).map fun e =>
          page + e.2) := by
  induction bytes using readEntries.induct with
  | case1 b₀ b₁ rest ih =>
      rw [readEntries, List.forall_mem_cons] at htype
      rw [List.length_cons, List.length_cons] at heven
      rw [decodeEntries, readEntries, ih (by omega) htype.2]
      simp only [Option.bind_eq_bind, Option.bind_some, Option.pure_def]
      have hne : IMAGE_REL_BASED_ABSOLUTE ≠ IMAGE_REL_BASED_DIR64 := by decide
      rcases htype.1 with hdir | habs
      · change ofLE [b₀, b₁] / 4096 = IMAGE_REL_BASED_DIR64 at hdir
        rw [if_pos hdir, List.filter_cons_of_pos (by simp [hdir])]
        rfl
      · change ofLE [b₀, b₁] / 4096 = IMAGE_REL_BASED_ABSOLUTE at habs
        rw [if_neg (by rw [habs]; exact hne), if_pos habs,
          List.filter_cons_of_neg (by simp [habs, hne])]
  | case2 bytes hshort =>
      cases bytes with
      | nil => rfl
      | cons b₀ bytes =>
          cases bytes with
          | nil => simp at heven
          | cons b₁ rest => exact absurd rfl (hshort b₀ b₁ rest)

/-- **A table that is walked** names the words of its blocks, in order, if all entries are words or
padding. -/
theorem decode_of_walk {table : List UInt8} {bs : List RawBlock} (hwalk : walk table = some bs)
    (heven : ∀ b ∈ bs, 2 ∣ b.size)
    (htype : ∀ b ∈ bs, ∀ e ∈ b.entries,
      e.1 = IMAGE_REL_BASED_DIR64 ∨ e.1 = IMAGE_REL_BASED_ABSOLUTE) :
    decode table = some (bs.flatMap RawBlock.words) := by
  induction table using walk.induct generalizing bs with
  | case1 =>
      rw [walk, if_pos rfl] at hwalk
      obtain rfl := Option.some.inj hwalk
      rw [decode]
      rfl
  | case2 table hne page size hsize hpage hle ih =>
      rw [walk, if_neg hne, hpage, hsize] at hwalk
      dsimp only at hwalk
      rw [dif_pos hle] at hwalk
      obtain ⟨rest, hrest, rfl⟩ := Option.map_eq_some_iff.mp hwalk
      rw [List.forall_mem_cons] at heven htype
      have hlen : 2 ∣ ((table.take size).drop 8).length := by
        have h2 : 2 ∣ size := heven.1
        rw [List.length_drop, List.length_take]
        omega
      rw [decode, if_neg hne, hpage, hsize]
      dsimp only
      rw [dif_pos hle, decodeEntries_eq page hlen htype.1, ih hrest heven.2 htype.2]
      rfl
  | case3 table hne page size hsize hpage hle =>
      rw [walk, if_neg hne, hpage, hsize] at hwalk
      dsimp only at hwalk
      rw [dif_neg hle] at hwalk
      cases hwalk
  | case4 table hne hnone =>
      rw [walk, if_neg hne] at hwalk
      split at hwalk
      · rename_i page size hpage hsize
        exact (hnone page size hpage hsize).elim
      · cases hwalk

end LoliLoader.Pe
