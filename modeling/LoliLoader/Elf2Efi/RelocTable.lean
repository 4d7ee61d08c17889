/-
# LoliLoader.Elf2Efi.RelocTable -- create_pe_reloc

The base relocation table is appended to a growing buffer, block by block. The size of a block is
not known when its header is appended: it is filled in when the next block starts, or at the end.

`create_pe_reloc` keeps the address of the last header and the number of bytes since then. The
buffer may be moved when it grows, so it is an offset that is kept and used for filling in.
`Encodes` is the invariant: the buffer has the blocks so far, with the size of the last one still
missing (`halfWritten`).

There is one oddity. A block is started when an address is past the page of the block before, and
the page before the first one is page 0; so relocations in page 0 get entries without any header.
When there is a next block, a size is filled in as if there had been one, over the first bytes of
the buffer. This is followed here as it is. It does not occur for an image at a base of its own,
since then no address is that low.

`createPeReloc_blocks` says what is written, for any ascending list of addresses. How it reads back
is in `Elf2Efi.RelocBlocks`.
-/
import LoliLoader.Elf2Efi.Executable
import LoliLoader.Pe.BaseReloc

namespace LoliLoader.Elf2Efi

open C Bytes Pe

/-- A growing buffer; `data` is what has been appended, and the counters are those of the source. -/
structure DynamicBuffer where
  data : List UInt8
  allocatedSize : UInt64
  effectiveSize : UInt64
  deriving DecidableEq, Repr

/-- A buffer to which nothing has been appended. -/
def emptyDynamicBuffer : DynamicBuffer := ⟨[], 0, 0⟩

/-- `buffer_append`: the counters are those of the source, and a chunk for which the block has no
room is a fault. -/
def bufferAppend (buffer : DynamicBuffer) (data : List UInt8) : Except Failure DynamicBuffer :=
  let size := UInt64.ofNat data.length
  let newSize := buffer.effectiveSize + size
  let allocatedSize :=
    if newSize ≥ buffer.allocatedSize then buffer.allocatedSize + align size 1024
    else buffer.allocatedSize
  if allocatedSize.toNat < buffer.effectiveSize.toNat + data.length then
    .error (.fault (.write allocatedSize.toNat))
  else
    .ok ⟨buffer.data ++ data, allocatedSize, newSize⟩

/-- The variables of `create_pe_reloc`: the buffer, and where the block in hand starts, which page
it is for, and how many entries it has. -/
structure RelocState where
  buf : DynamicBuffer
  blockOffset : UInt64
  blockVaddr : UInt64
  blockEntries : UInt64
  deriving DecidableEq, Repr

/-- A store of `bytes` at `p` into the data of a buffer.  Bytes past its end are not kept: they
are overwritten by what is appended next. -/
def DynamicBuffer.store (buf : DynamicBuffer) (p : Nat) (bytes : List UInt8) :
    Except Failure DynamicBuffer :=
  if buf.allocatedSize.toNat < p + bytes.length then
    .error (.fault (.write buf.allocatedSize.toNat))
  else
    .ok { buf with
      data := (buf.data.take p ++ bytes ++ buf.data.drop (p + bytes.length)).take
        buf.data.length }

/-- `block->size = ...`, through the offset at which the block is in the buffer. -/
def backfill (st : RelocState) : Except Failure DynamicBuffer :=
  let size := (st.blockEntries * 2 + 8).toUInt32
  st.buf.store (st.blockOffset.toNat + 4) (leBytes 4 size.toNat)

/-- `PE32_BASE_RELOC_RAW`: the type in the upper four bits, the offset below, without a check that
it fits. -/
def pe32BaseRelocRaw (type offset : UInt64) : UInt16 := (type <<< 12 ||| offset).toUInt16

/-- The block before is completed, if there is one: its address is null as long as there is no
buffer. -/
def completeBlock (st : RelocState) : Except Failure DynamicBuffer :=
  if st.buf.allocatedSize = 0 ∧ st.blockOffset = 0 then .ok st.buf else backfill st

/-- A new block, when `lowerBound` is past the block before. -/
def newBlock (baseAddress lowerBound : UInt64) (st : RelocState) : Except Failure RelocState := do
  let buf ← completeBlock st
  let blockOffset := buf.effectiveSize
  let header := leBytes 4 (lowerBound - baseAddress).toUInt32.toNat ++ leBytes 4 0
  let buf ← bufferAppend buf header
  return ⟨buf, blockOffset, lowerBound, 0⟩

/-- The body of the loop in `create_pe_reloc`: a new block if the relocation is behind the page of
the last one, and then its entry. -/
def createPeRelocStep (baseAddress : UInt64) (st : RelocState) (reloc : ExecReloc) :
    Except Failure RelocState := do
  let lowerBound := alignDown reloc.vaddr 4096
  let st ← if lowerBound > st.blockVaddr then newBlock baseAddress lowerBound st else pure st
  let entry := pe32BaseRelocRaw 10 (reloc.vaddr - st.blockVaddr)
  let buf ← bufferAppend st.buf (leBytes 2 entry.toNat)
  return { st with buf := buf, blockEntries := st.blockEntries + 1 }

/-- `create_pe_reloc`: the loop, and then the size of the last block is filled in if it has
entries. -/
def createPeReloc (exec : Executable) (baseAddress : UInt64) : Except Failure SizedData := do
  let st ← exec.relocs.foldlM (createPeRelocStep baseAddress) ⟨emptyDynamicBuffer, 0, 0, 0⟩
  let buf ← if st.blockEntries ≠ 0 then backfill st else pure st.buf
  return ⟨"PE relocation block", buf.data, buf.effectiveSize⟩

/-! ## The buffer -/

/-- What is counted of the buffer is what is in it, and there is room for it, but no more than a
chunk to spare. -/
structure DynamicBuffer.Sound (buf : DynamicBuffer) : Prop where
  size : buf.effectiveSize.toNat = buf.data.length
  room : buf.effectiveSize.toNat ≤ buf.allocatedSize.toNat
  slack : buf.allocatedSize.toNat ≤ buf.effectiveSize.toNat + 1024
  chunk : buf.allocatedSize ≠ 0 → 1024 ≤ buf.allocatedSize.toNat

theorem ne_zero_of_pos {x : UInt64} (h : 0 < x.toNat) : x ≠ 0 := by
  rintro rfl
  cases h

/-- A short chunk is rounded up to 1024 bytes. -/
theorem align_chunk {n : Nat} (h0 : 0 < n) (hn : n ≤ 1024) :
    (align (UInt64.ofNat n) 1024).toNat = 1024 := by
  have hnat : (UInt64.ofNat n).toNat = n := by
    rw [UInt64.toNat_ofNat', Nat.mod_eq_of_lt (by omega)]
  have hsum : (UInt64.ofNat n + 1024 - 1).toNat = n + 1023 := by
    have hadd : (UInt64.ofNat n + 1024).toNat = n + 1024 := by
      rw [UInt64.toNat_add, hnat]
      exact Nat.mod_eq_of_lt (by have : (1024 : UInt64).toNat = 1024 := rfl; omega)
    have h1 : (1 : UInt64).toNat = 1 := rfl
    rw [UInt64.toNat_sub_of_le _ _ (by rw [UInt64.le_iff_toNat_le, hadd, h1]; omega), hadd, h1]
    omega
  have h1024 : (1024 : UInt64).toNat = 1024 := rfl
  have hdiv : (n + 1023) / 1024 = 1 := by omega
  rw [align, alignDown, UInt64.toNat_mul, UInt64.toNat_div, hsum, h1024, hdiv]

/-- **`buffer_append`** of a short chunk puts it behind what there is, without a fault, as long as
the counters are far from 2^64. -/
theorem bufferAppend_ok {buf : DynamicBuffer} (h : buf.Sound) (data : List UInt8)
    (h0 : 0 < data.length) (hn : data.length ≤ 1024)
    (hsmall : buf.data.length + data.length + 2048 ≤ 2 ^ 64) :
    ∃ buf', bufferAppend buf data = .ok buf' ∧ buf'.Sound ∧ buf'.data = buf.data ++ data := by
  have hnat : (UInt64.ofNat data.length).toNat = data.length := by
    rw [UInt64.toNat_ofNat', Nat.mod_eq_of_lt (by omega)]
  have hnew : (buf.effectiveSize + UInt64.ofNat data.length).toNat
      = buf.data.length + data.length := by
    rw [UInt64.toNat_add, hnat, h.size]
    exact Nat.mod_eq_of_lt (by omega)
  have hroom := h.room
  have hslack := h.slack
  have hsize := h.size
  unfold bufferAppend
  dsimp only
  -- the buffer grows by 1024 bytes at a time, which is room for any chunk
  by_cases hgrow : buf.effectiveSize + UInt64.ofNat data.length ≥ buf.allocatedSize
  · have hgrow' := UInt64.le_iff_toNat_le.mp hgrow
    rw [hnew] at hgrow'
    have halloc : (buf.allocatedSize + align (UInt64.ofNat data.length) 1024).toNat
        = buf.allocatedSize.toNat + 1024 := by
      rw [UInt64.toNat_add, align_chunk h0 hn]
      exact Nat.mod_eq_of_lt (by omega)
    rw [if_pos hgrow, if_neg (by rw [halloc]; omega)]
    refine ⟨_, rfl, ⟨?_, ?_, ?_, ?_⟩, rfl⟩
    · rw [hnew, List.length_append]
    · rw [hnew, halloc]
      omega
    · rw [hnew, halloc]
      omega
    · intro _
      rw [halloc]
      omega
  · have hgrow' : buf.data.length + data.length < buf.allocatedSize.toNat := by
      rw [← hnew]
      exact UInt64.lt_iff_toNat_lt.mp (UInt64.not_le.mp hgrow)
    rw [if_neg hgrow, if_neg (by omega)]
    refine ⟨_, rfl, ⟨?_, ?_, ?_, h.chunk⟩, rfl⟩
    · rw [hnew, List.length_append]
    · show _ ≤ buf.allocatedSize.toNat
      rw [hnew]
      omega
    · show buf.allocatedSize.toNat ≤ _
      rw [hnew]
      omega

/-- A store into the buffer changes the data and nothing else. -/
theorem store_ok {buf : DynamicBuffer} (h : buf.Sound) {p : Nat} {bytes : List UInt8}
    (hp : p + bytes.length ≤ buf.allocatedSize.toNat) :
    ∃ buf', buf.store p bytes = .ok buf' ∧ buf'.Sound ∧
      buf'.effectiveSize = buf.effectiveSize ∧ buf'.data.length = buf.data.length := by
  have hlen : ((buf.data.take p ++ bytes ++ buf.data.drop (p + bytes.length)).take
      buf.data.length).length = buf.data.length := by
    simp only [List.length_take, List.length_append, List.length_drop]
    omega
  rw [DynamicBuffer.store, if_neg (by omega)]
  exact ⟨_, rfl, ⟨h.size.trans hlen.symm, h.room, h.slack, h.chunk⟩, rfl, hlen⟩

/-- A store over bytes in the middle. -/
theorem store_append {buf : DynamicBuffer} {pre mid post bytes : List UInt8} (h : buf.Sound)
    (hdata : buf.data = pre ++ (mid ++ post)) (hlen : mid.length = bytes.length) :
    buf.store pre.length bytes = .ok { buf with data := pre ++ (bytes ++ post) } := by
  have hsize := h.size
  have hroom := h.room
  have hcount := congrArg List.length hdata
  simp only [List.length_append] at hcount
  have htake : (pre ++ (bytes ++ post)).take buf.data.length = pre ++ (bytes ++ post) := by
    apply List.take_of_length_le
    simp only [List.length_append]
    omega
  rw [DynamicBuffer.store, if_neg (by omega)]
  congr 2
  rw [← htake]
  congr 1
  rw [hdata, List.take_left, ← hlen, ← List.drop_drop, List.drop_left, List.drop_left,
    List.append_assoc]

/-! ## The blocks of the table -/

/-- A block of addresses, as it is written for an image at `base`: its header has the RVA. -/
def rvaBlock (base : UInt64) (b : Block) : Block :=
  ⟨(UInt64.ofNat b.page - base).toUInt32.toNat, b.offsets⟩

@[simp]
theorem entries_rvaBlock (base : UInt64) (b : Block) : (rvaBlock base b).entries = b.entries := rfl

@[simp]
theorem size_rvaBlock (base : UInt64) (b : Block) : (rvaBlock base b).size = b.size := rfl

/-- The bytes of the blocks for an image at `base`. -/
def encodeAt (base : UInt64) (bs : List Block) : List UInt8 := encode (bs.map (rvaBlock base))

theorem length_encodeAt_append (base : UInt64) (bs cs : List Block) :
    (encodeAt base (bs ++ cs)).length = (encodeAt base bs).length + (encodeAt base cs).length := by
  rw [encodeAt, List.map_append, length_encode_append, encodeAt, encodeAt]

theorem length_encodeAt_single (base : UInt64) (b : Block) :
    (encodeAt base [b]).length = b.size := by
  simp [encodeAt, encode]

/-- The blocks so far as they are in the buffer: the last one, which comes first, still has no
size. -/
def halfWritten (base : UInt64) : List Block → List UInt8
  | [] => []
  | b :: bs => encodeAt base bs.reverse ++
      (leBytes 4 (rvaBlock base b).page ++ (leBytes 4 0 ++ b.entries))

theorem length_halfWritten (base : UInt64) (bs : List Block) :
    (halfWritten base bs).length = (encodeAt base bs.reverse).length := by
  cases bs with
  | nil => rfl
  | cons b bs =>
      rw [List.reverse_cons, length_encodeAt_append, length_encodeAt_single]
      simp only [halfWritten, List.length_append, length_leBytes, Block.length_entries, Block.size]
      omega

/-! ## The loop -/

/-- The variables of `create_pe_reloc` when the blocks so far are `bs`, the last one first, by
their addresses.  Relocations in page 0 have no block: their entries, `front`, are at the
start of the buffer. -/
structure Encodes (base : UInt64) (st : RelocState) (front : List UInt8) (bs : List Block) :
    Prop where
  sound : st.buf.Sound
  data : st.buf.data = front ++ halfWritten base bs
  first : bs = [] → st.blockOffset = 0 ∧ st.blockVaddr = 0 ∧
    front.length = 2 * st.blockEntries.toNat
  last : ∀ b bs', bs = b :: bs' →
    st.blockOffset.toNat = front.length + (encodeAt base bs'.reverse).length ∧
    st.blockVaddr.toNat = b.page ∧ 0 < b.page ∧
    st.blockEntries.toNat = b.offsets.length ∧ b.offsets ≠ []

theorem encodes_nil (base : UInt64) : Encodes base ⟨emptyDynamicBuffer, 0, 0, 0⟩ [] [] where
  sound := ⟨rfl, le_refl _, by decide, fun h => absurd rfl h⟩
  data := rfl
  first := fun _ => ⟨rfl, rfl, rfl⟩
  last := by
    intro b bs' h
    cases h

/-- With data in the buffer there is a chunk allocated. -/
theorem DynamicBuffer.Sound.allocated {buf : DynamicBuffer} (h : buf.Sound)
    (hne : 0 < buf.data.length) : buf.allocatedSize ≠ 0 ∧ 1024 ≤ buf.allocatedSize.toNat := by
  have hsize := h.size
  have hroom := h.room
  have halloc : buf.allocatedSize ≠ 0 := ne_zero_of_pos (by omega)
  exact ⟨halloc, h.chunk halloc⟩

/-- The size filled in completes the last block. -/
theorem backfill_ok {base : UInt64} {st : RelocState} {front : List UInt8} {b : Block}
    {bs : List Block} (h : Encodes base st front (b :: bs)) :
    backfill st = .ok { st.buf with data := front ++ encodeAt base (b :: bs).reverse } := by
  obtain ⟨hoffset, -, -, hentries, -⟩ := h.last b bs rfl
  have hsplit : front ++ encodeAt base (b :: bs).reverse
      = (front ++ encodeAt base bs.reverse ++ leBytes 4 (rvaBlock base b).page) ++
        (leBytes 4 b.size ++ b.entries) := by
    rw [List.reverse_cons]
    simp [encodeAt, encode, Block.encode]
  have hdata : st.buf.data
      = (front ++ encodeAt base bs.reverse ++ leBytes 4 (rvaBlock base b).page) ++
        (leBytes 4 0 ++ b.entries) := by
    rw [h.data, halfWritten]
    simp
  -- the field has the size modulo 2^32, as the bytes of a block have
  have hsize : leBytes 4 (st.blockEntries * 2 + 8).toUInt32.toNat = leBytes 4 b.size := by
    have h2 : (2 : UInt64).toNat = 2 := rfl
    have h8 : (8 : UInt64).toNat = 8 := rfl
    rw [← leBytes_mod 4 b.size, UInt64.toNat_toUInt32, UInt64.toNat_add, UInt64.toNat_mul,
      hentries, h2, h8, Block.size]
    congr 1
    omega
  have hpos : st.blockOffset.toNat + 4
      = (front ++ encodeAt base bs.reverse ++ leBytes 4 (rvaBlock base b).page).length := by
    rw [hoffset, List.length_append, List.length_append, length_leBytes]
  unfold backfill
  dsimp only
  rw [hsize, hpos, store_append h.sound hdata (by rw [length_leBytes, length_leBytes]), hsplit]

/-- The entry of a word at offset `o` of its page. -/
theorem pe32BaseRelocRaw_toNat {o : UInt64} (ho : o.toNat < 4096) :
    (pe32BaseRelocRaw 10 o).toNat = IMAGE_REL_BASED_DIR64 * 4096 + o.toNat := by
  have hor : ((10 : UInt64) <<< 12 ||| o).toNat = 40960 + o.toNat := by
    rw [UInt64.toNat_or]
    show (10 <<< 12) ||| o.toNat = _
    rw [← Nat.shiftLeft_add_eq_or_of_lt (by omega : o.toNat < 2 ^ 12)]
    rfl
  rw [pe32BaseRelocRaw, UInt64.toNat_toUInt16, hor]
  show (40960 + o.toNat) % 65536 = 40960 + o.toNat
  omega

theorem alignDown_page (x : UInt64) : (alignDown x 4096).toNat = pageOf x.toNat := by
  have h4096 : (4096 : UInt64).toNat = 4096 := rfl
  rw [alignDown, UInt64.toNat_mul, UInt64.toNat_div, h4096, pageOf]
  have := x.toNat_lt
  exact Nat.mod_eq_of_lt (by omega)

/-- The entry of a relocation in the block that starts at `st.blockVaddr`. -/
def appendEntry (st : RelocState) (reloc : ExecReloc) : Except Failure RelocState := do
  let entry := pe32BaseRelocRaw 10 (reloc.vaddr - st.blockVaddr)
  let buf ← bufferAppend st.buf (leBytes 2 entry.toNat)
  return { st with buf := buf, blockEntries := st.blockEntries + 1 }

theorem appendEntry_ok {st : RelocState} {reloc : ExecReloc} (hsound : st.buf.Sound)
    (hpage : st.blockVaddr.toNat = pageOf reloc.vaddr.toNat)
    (hcount : st.blockEntries.toNat ≤ st.buf.data.length)
    (hsmall : st.buf.data.length + 2050 ≤ 2 ^ 64) :
    ∃ st', appendEntry st reloc = .ok st' ∧ st'.buf.Sound ∧
      st'.buf.data = st.buf.data ++
        leBytes 2 (IMAGE_REL_BASED_DIR64 * 4096 + reloc.vaddr.toNat % 4096) ∧
      st'.blockOffset = st.blockOffset ∧ st'.blockVaddr = st.blockVaddr ∧
      st'.blockEntries.toNat = st.blockEntries.toNat + 1 := by
  have hsplit := pageOf_add reloc.vaddr.toNat
  have hsub : (reloc.vaddr - st.blockVaddr).toNat = reloc.vaddr.toNat % 4096 := by
    rw [UInt64.toNat_sub_of_le _ _ (by rw [UInt64.le_iff_toNat_le]; omega)]
    omega
  have hentry := pe32BaseRelocRaw_toNat (o := reloc.vaddr - st.blockVaddr) (by omega)
  rw [hsub] at hentry
  obtain ⟨buf, happend, hsound', hdata⟩ := bufferAppend_ok hsound
    (leBytes 2 (IMAGE_REL_BASED_DIR64 * 4096 + reloc.vaddr.toNat % 4096)) (by simp) (by simp)
    (by simpa using hsmall)
  unfold appendEntry
  dsimp only
  rw [hentry, happend]
  refine ⟨_, rfl, hsound', hdata, rfl, rfl, ?_⟩
  show (st.blockEntries + 1).toNat = _
  have h1 : (1 : UInt64).toNat = 1 := rfl
  rw [UInt64.toNat_add, h1]
  exact Nat.mod_eq_of_lt (by omega)

/-- With no block yet, the size goes to the start of the buffer. -/
theorem backfill_start {st : RelocState} (h : st.buf.Sound) (hoffset : st.blockOffset = 0)
    (hchunk : 1024 ≤ st.buf.allocatedSize.toNat) :
    ∃ buf, backfill st = .ok buf ∧ buf.Sound ∧ buf.effectiveSize = st.buf.effectiveSize ∧
      buf.data.length = st.buf.data.length := by
  apply store_ok h
  rw [hoffset, length_leBytes]
  exact le_trans (by decide) hchunk

/-- The block before is complete, if there is one.  Behind entries of page 0 a size is filled in
as if there was a header before them. -/
theorem completeBlock_ok {base : UInt64} {st : RelocState} {front : List UInt8} {bs : List Block}
    (h : Encodes base st front bs) :
    ∃ buf front', completeBlock st = .ok buf ∧ buf.Sound ∧ front'.length = front.length ∧
      buf.data = front' ++ encodeAt base bs.reverse := by
  unfold completeBlock
  cases bs with
  | nil =>
      obtain ⟨hoffset, -, -⟩ := h.first rfl
      have hdata : st.buf.data = front := h.data.trans (List.append_nil front)
      by_cases halloc : st.buf.allocatedSize = 0
      · rw [if_pos ⟨halloc, hoffset⟩]
        exact ⟨_, front, rfl, h.sound, rfl, h.data⟩
      · obtain ⟨buf, hok, hsound, -, hlen⟩ :=
          backfill_start h.sound hoffset (h.sound.chunk halloc)
        rw [if_neg fun hc => halloc hc.1]
        exact ⟨buf, buf.data, hok, hsound, by rw [hlen, hdata], (List.append_nil _).symm⟩
  | cons b bs =>
      have hpos : 0 < st.buf.data.length := by
        rw [h.data, List.length_append, length_halfWritten, List.reverse_cons,
          length_encodeAt_append, length_encodeAt_single, Block.size]
        omega
      rw [if_neg fun hc => (h.sound.allocated hpos).1 hc.1]
      refine ⟨_, front, backfill_ok h, ⟨?_, h.sound.room, h.sound.slack, h.sound.chunk⟩, rfl, rfl⟩
      show st.buf.effectiveSize.toNat = _
      rw [h.sound.size, h.data, List.length_append, List.length_append, length_halfWritten]

/-- A new block completes the one before. -/
theorem newBlock_ok {base lowerBound : UInt64} {st : RelocState} {front : List UInt8}
    {bs : List Block} (h : Encodes base st front bs)
    (hsmall : st.buf.data.length + 2056 ≤ 2 ^ 64) :
    ∃ st' front', newBlock base lowerBound st = .ok st' ∧ st'.buf.Sound ∧
      front'.length = front.length ∧
      st'.buf.data = front' ++ halfWritten base (⟨lowerBound.toNat, []⟩ :: bs) ∧
      st'.blockOffset.toNat = front.length + (encodeAt base bs.reverse).length ∧
      st'.blockVaddr = lowerBound ∧ st'.blockEntries = 0 := by
  obtain ⟨buf, front', hok, hsound, hfront, hdata⟩ := completeBlock_ok h
  have hlen : buf.data.length = st.buf.data.length := by
    rw [hdata, h.data, List.length_append, List.length_append, length_halfWritten, hfront]
  have hrva : (rvaBlock base ⟨lowerBound.toNat, []⟩).page
      = (lowerBound - base).toUInt32.toNat := by
    rw [rvaBlock, UInt64.ofNat_toNat]
  obtain ⟨buf', happend, hsound', hdata'⟩ := bufferAppend_ok hsound
    (leBytes 4 (lowerBound - base).toUInt32.toNat ++ leBytes 4 0) (by simp) (by simp)
    (by rw [hlen]; simpa using hsmall)
  refine ⟨⟨buf', buf.effectiveSize, lowerBound, 0⟩, front', ?_, hsound', hfront, ?_, ?_, rfl, rfl⟩
  · unfold newBlock
    dsimp only
    rw [hok]
    show (bufferAppend buf _ >>= _) = _
    rw [happend]
    rfl
  · rw [hdata', hdata, halfWritten, hrva]
    simp [Block.entries]
  · show buf.effectiveSize.toNat = _
    rw [hsound.size, hdata, List.length_append, hfront]

/-- The blocks with one more address: page 0 has none. -/
def place (bs : List Block) (x : Nat) : List Block := if 4096 ≤ x then addAddress bs x else bs

theorem foldl_place (bs : List Block) (xs : List Nat) :
    xs.foldl place bs = (xs.filter fun x => 4096 ≤ x).foldl addAddress bs := by
  induction xs generalizing bs with
  | nil => rfl
  | cons x xs ih =>
      rw [List.foldl_cons, ih, place]
      by_cases hx : 4096 ≤ x
      · rw [if_pos hx, List.filter_cons_of_pos (by simpa using hx), List.foldl_cons]
      · rw [if_neg hx, List.filter_cons_of_neg (by simpa using hx)]

theorem pageOf_pos {x : Nat} : 0 < pageOf x ↔ 4096 ≤ x := by
  unfold pageOf
  omega

theorem before_place {bs : List Block} {x y : Nat} (h : Before x bs) (hxy : x ≤ y) :
    Before y (place bs x) := by
  unfold place
  split
  · exact before_addAddress h hxy
  · cases bs with
    | nil => trivial
    | cons b bs => exact le_trans h (pageOf_mono hxy)

/-- An entry behind the last block. -/
theorem halfWritten_entry (base : UInt64) (b : Block) (bs : List Block) (o : Nat) :
    halfWritten base (⟨b.page, b.offsets ++ [o]⟩ :: bs)
      = halfWritten base (b :: bs) ++ leBytes 2 (IMAGE_REL_BASED_DIR64 * 4096 + o) := by
  simp [halfWritten, Block.entries, rvaBlock]

/-- The table after one relocation: it has the blocks of one address more. -/
def StepEncodes (base : UInt64) (st : RelocState) (front : List UInt8) (bs : List Block)
    (reloc : ExecReloc) : Prop :=
  ∃ st' front', createPeRelocStep base st reloc = .ok st' ∧
    Encodes base st' front' (place bs reloc.vaddr.toNat) ∧
    front'.length = front.length + (if 4096 ≤ reloc.vaddr.toNat then 0 else 2) ∧
    st'.buf.data.length ≤ st.buf.data.length + 10

section

variable {base : UInt64} {st : RelocState} {front : List UInt8} {b : Block} {bs : List Block}
  {reloc : ExecReloc}

theorem createPeRelocStep_eq : createPeRelocStep base st reloc = (do
    let st ← if alignDown reloc.vaddr 4096 > st.blockVaddr then
      newBlock base (alignDown reloc.vaddr 4096) st else pure st
    appendEntry st reloc) := rfl

theorem createPeRelocStep_same (hsame : ¬ alignDown reloc.vaddr 4096 > st.blockVaddr) :
    createPeRelocStep base st reloc = appendEntry st reloc := by
  rw [createPeRelocStep_eq, if_neg hsame]
  rfl

/-- The relocation is behind the last block: it gets a new one. -/
theorem stepEncodes_new (h : Encodes base st front bs)
    (hsmall : st.buf.data.length + 4096 ≤ 2 ^ 64)
    (hnew : alignDown reloc.vaddr 4096 > st.blockVaddr) : StepEncodes base st front bs reloc := by
  have hlower := alignDown_page reloc.vaddr
  have hlt := UInt64.lt_iff_toNat_lt.mp hnew
  have hx : 4096 ≤ reloc.vaddr.toNat := pageOf_pos.mp (by omega)
  have hadd : place bs reloc.vaddr.toNat
      = ⟨pageOf reloc.vaddr.toNat, [] ++ [reloc.vaddr.toNat % 4096]⟩ :: bs := by
    rw [place, if_pos hx]
    cases bs with
    | nil => rfl
    | cons b bs =>
        obtain ⟨-, hvaddr, -⟩ := h.last b bs rfl
        exact addAddress_new (by omega)
  obtain ⟨st₁, front', hok, hsound, hfront, hdata, hoffset, hvaddr, hentries⟩ :=
    @newBlock_ok base (alignDown reloc.vaddr 4096) st front bs h (by omega)
  have hlen : st₁.buf.data.length = st.buf.data.length + 8 := by
    rw [hdata, h.data, List.length_append, List.length_append, length_halfWritten,
      length_halfWritten, List.reverse_cons, length_encodeAt_append, length_encodeAt_single,
      hfront]
    simp only [Block.size, List.length_nil]
    omega
  obtain ⟨st', hok', hsound', hdata', hoffset', hvaddr', hentries'⟩ :=
    @appendEntry_ok st₁ reloc hsound (by rw [hvaddr, hlower])
      (by rw [hentries]; exact Nat.zero_le _)
      (by omega)
  refine ⟨st', front', ?_, ?_, ?_, ?_⟩
  · rw [createPeRelocStep_eq, if_pos hnew, hok]
    exact hok'
  · rw [hadd]
    refine ⟨hsound', ?_, ?_, ?_⟩
    · have hentry := halfWritten_entry base ⟨pageOf reloc.vaddr.toNat, []⟩ bs
        (reloc.vaddr.toNat % 4096)
      rw [hdata', hdata, hlower, List.append_assoc]
      exact congrArg (front' ++ ·) hentry.symm
    · intro hnil
      cases hnil
    · rintro b' bs' heq
      cases heq
      refine ⟨?_, ?_, ?_, ?_, by simp⟩
      · rw [hoffset', hoffset, hfront]
      · rw [hvaddr', hvaddr, hlower]
      · exact pageOf_pos.mpr hx
      · rw [hentries', hentries]
        rfl
  · rw [if_pos hx, hfront]
    rfl
  · rw [hdata', List.length_append, hlen, length_leBytes]

/-- There is no block yet: the relocation is in page 0. -/
theorem stepEncodes_first (h : Encodes base st front [])
    (hsmall : st.buf.data.length + 4096 ≤ 2 ^ 64)
    (hsame : ¬ alignDown reloc.vaddr 4096 > st.blockVaddr)
    (hle : pageOf reloc.vaddr.toNat ≤ st.blockVaddr.toNat) :
    StepEncodes base st front [] reloc := by
  have hlen := congrArg List.length h.data
  rw [List.length_append, length_halfWritten] at hlen
  obtain ⟨hoffset, hvaddr, hcount⟩ := h.first rfl
  have h0 : (0 : UInt64).toNat = 0 := rfl
  have hx : ¬ 4096 ≤ reloc.vaddr.toNat := by
    intro hx
    have hpos := pageOf_pos.mpr hx
    rw [hvaddr] at hle
    omega
  have hpage : st.blockVaddr.toNat = pageOf reloc.vaddr.toNat := by
    rw [hvaddr] at hle ⊢
    omega
  obtain ⟨st', hok', hsound', hdata', hoffset', hvaddr', hentries'⟩ :=
    @appendEntry_ok st reloc h.sound hpage (by omega) (by omega)
  refine ⟨st', st'.buf.data, (createPeRelocStep_same hsame).trans hok', ?_, ?_, ?_⟩
  · rw [place, if_neg hx]
    refine ⟨hsound', (List.append_nil _).symm, ?_, ?_⟩
    · intro _
      refine ⟨hoffset'.trans hoffset, hvaddr'.trans hvaddr, ?_⟩
      rw [hdata', hentries', List.length_append, length_leBytes, h.data, halfWritten,
        List.append_nil]
      omega
    · intro b bs' heq
      cases heq
  · rw [if_neg hx, hdata', h.data, halfWritten, List.append_nil, List.length_append,
      length_leBytes]
  · rw [hdata', List.length_append, length_leBytes]
    omega

/-- The relocation is in the page of the last block. -/
theorem stepEncodes_same (h : Encodes base st front (b :: bs))
    (hbefore : Before reloc.vaddr.toNat (b :: bs)) (hsmall : st.buf.data.length + 4096 ≤ 2 ^ 64)
    (hsame : ¬ alignDown reloc.vaddr 4096 > st.blockVaddr)
    (hle : pageOf reloc.vaddr.toNat ≤ st.blockVaddr.toNat) :
    StepEncodes base st front (b :: bs) reloc := by
  have hlen := congrArg List.length h.data
  rw [List.length_append, length_halfWritten] at hlen
  obtain ⟨hoffset, hvaddr, hpos, hentries, -⟩ := h.last b bs rfl
  have hpage : b.page = pageOf reloc.vaddr.toNat := le_antisymm hbefore (by omega)
  have hx : 4096 ≤ reloc.vaddr.toNat := pageOf_pos.mp (by omega)
  have hcount : b.offsets.length ≤ st.buf.data.length := by
    rw [List.reverse_cons, length_encodeAt_append, length_encodeAt_single, Block.size] at hlen
    omega
  obtain ⟨st', hok', hsound', hdata', hoffset', hvaddr', hentries'⟩ :=
    @appendEntry_ok st reloc h.sound (hvaddr.trans hpage) (by omega) (by omega)
  refine ⟨st', front, (createPeRelocStep_same hsame).trans hok', ?_, ?_, ?_⟩
  · rw [place, if_pos hx, addAddress_same (by omega)]
    refine ⟨hsound', ?_, ?_, ?_⟩
    · rw [hdata', h.data, halfWritten_entry, List.append_assoc]
    · intro hnil
      cases hnil
    · rintro b' bs' heq
      cases heq
      refine ⟨?_, ?_, hpos, ?_, by simp⟩
      · rw [hoffset', hoffset]
      · rw [hvaddr', hvaddr]
      · rw [hentries', hentries, List.length_append]
        rfl
  · rw [if_pos hx]
    rfl
  · rw [hdata', List.length_append, length_leBytes]
    omega

/-- **One relocation** is encoded in the last block, or in a new one, if it is not in front of the
last one. -/
theorem createPeRelocStep_ok (h : Encodes base st front bs)
    (hbefore : Before reloc.vaddr.toNat bs) (hsmall : st.buf.data.length + 4096 ≤ 2 ^ 64) :
    StepEncodes base st front bs reloc := by
  by_cases hnew : alignDown reloc.vaddr 4096 > st.blockVaddr
  · exact stepEncodes_new h hsmall hnew
  · have hle : pageOf reloc.vaddr.toNat ≤ st.blockVaddr.toNat := by
      rw [← alignDown_page]
      exact UInt64.le_iff_toNat_le.mp (UInt64.not_lt.mp hnew)
    cases bs with
    | nil => exact stepEncodes_first h hsmall hnew hle
    | cons b bs => exact stepEncodes_same h hbefore hsmall hnew hle

end

/-- The loop, from any point on. -/
theorem createPeReloc_foldlM {base : UInt64} {relocs : List ExecReloc} {st : RelocState}
    {front : List UInt8} {bs : List Block} (h : Encodes base st front bs)
    (hsorted : relocs.Pairwise fun r r' => r.vaddr ≤ r'.vaddr)
    (hbefore : ∀ r ∈ relocs, Before r.vaddr.toNat bs)
    (hsmall : st.buf.data.length + 10 * relocs.length + 4096 ≤ 2 ^ 64) :
    ∃ st' front', relocs.foldlM (createPeRelocStep base) st = .ok st' ∧
      Encodes base st' front' ((relocs.map fun r => r.vaddr.toNat).foldl place bs) ∧
      front'.length = front.length + 2 * relocs.countP fun r => r.vaddr.toNat < 4096 := by
  induction relocs generalizing st front bs with
  | nil => exact ⟨st, front, rfl, h, rfl⟩
  | cons r relocs ih =>
      rw [List.pairwise_cons] at hsorted
      rw [List.length_cons] at hsmall
      have hr := hbefore r List.mem_cons_self
      obtain ⟨st₁, front₁, hok, hencodes, hfront, hlen⟩ := createPeRelocStep_ok h hr (by omega)
      -- ascending addresses do not go back to an earlier page
      have hbefore' : ∀ r' ∈ relocs, Before r'.vaddr.toNat (place bs r.vaddr.toNat) := by
        intro r' hr'
        exact before_place hr (UInt64.le_iff_toNat_le.mp (hsorted.1 r' hr'))
      obtain ⟨st', front', hok', hencodes', hfront'⟩ := ih hencodes hsorted.2 hbefore' (by omega)
      refine ⟨st', front', ?_, hencodes', ?_⟩
      · rw [List.foldlM_cons, hok]
        exact hok'
      · rw [hfront', hfront, List.countP_cons]
        by_cases hx : 4096 ≤ r.vaddr.toNat
        · simp [hx]
        · simp [hx, Nat.not_le.mp hx]
          omega

/-- The blocks of the table, by their addresses; page 0 has none. -/
def Executable.relocBlocks (exec : Executable) : List Block :=
  blocksOf ((exec.relocs.map fun r => r.vaddr.toNat).filter fun x => 4096 ≤ x)

/-- **`create_pe_reloc`** writes a block for every page that has relocations, in order, behind
the entries of page 0. -/
theorem createPeReloc_blocks {exec : Executable} (base : UInt64)
    (hsorted : exec.relocs.Pairwise fun r r' => r.vaddr ≤ r'.vaddr)
    (hnum : exec.relocs.length < 2 ^ 60) :
    ∃ table front, createPeReloc exec base = .ok table ∧
      table.rawData = front ++ encodeAt base exec.relocBlocks ∧
      front.length = 2 * (exec.relocs.countP fun r => r.vaddr.toNat < 4096) ∧
      table.size.toNat = table.rawData.length := by
  obtain ⟨st, front, hok, hencodes, hfront⟩ := @createPeReloc_foldlM base exec.relocs _ _ _
    (encodes_nil base) hsorted (fun _ _ => trivial)
    (by simp only [emptyDynamicBuffer, List.length_nil]; omega)
  rw [foldl_place] at hencodes
  rw [List.length_nil, Nat.zero_add] at hfront
  unfold createPeReloc
  rw [hok]
  unfold Executable.relocBlocks blocksOf
  generalize ((exec.relocs.map fun r => r.vaddr.toNat).filter fun x => 4096 ≤ x).foldl
    addAddress [] = bs at hencodes ⊢
  cases bs with
  | nil =>
      obtain ⟨hoffset, -, hcount⟩ := hencodes.first rfl
      have hdata : st.buf.data = front := hencodes.data.trans (List.append_nil front)
      by_cases hzero : st.blockEntries = 0
      · -- without relocations there is no size to fill in
        refine ⟨⟨"PE relocation block", st.buf.data, st.buf.effectiveSize⟩, front, ?_,
          hencodes.data, hfront, hencodes.sound.size⟩
        show (if _ then _ else _) = _
        rw [if_neg (not_not.mpr hzero)]
        rfl
      · have hpos : 0 < st.blockEntries.toNat := by
          apply Nat.pos_of_ne_zero
          intro h0
          exact hzero (UInt64.toNat_inj.mp h0)
        have hchunk := (hencodes.sound.allocated (by rw [hdata]; omega)).2
        obtain ⟨buf, hstore, hsound, -, hlen⟩ := backfill_start hencodes.sound hoffset hchunk
        refine ⟨⟨"PE relocation block", buf.data, buf.effectiveSize⟩, buf.data, ?_,
          (List.append_nil _).symm, by rw [hlen, hdata, hfront], hsound.size⟩
        show (if _ then _ else _) = _
        rw [if_pos hzero, hstore]
        rfl
  | cons b bs =>
      obtain ⟨-, -, -, hentries, hne⟩ := hencodes.last b bs rfl
      have hcount : st.blockEntries ≠ 0 := by
        intro hzero
        rw [hzero] at hentries
        exact hne (List.length_eq_zero_iff.mp hentries.symm)
      refine ⟨⟨"PE relocation block", front ++ encodeAt base (b :: bs).reverse,
        st.buf.effectiveSize⟩, front, ?_, rfl, hfront, ?_⟩
      · show (if _ then _ else _) = _
        rw [if_pos hcount, backfill_ok hencodes]
        rfl
      · rw [hencodes.sound.size, hencodes.data, List.length_append, List.length_append,
          length_halfWritten]

/-! ## Addresses behind the base address -/

/-- The block of the RVAs behind `base`: the offsets are the same, since `base` is the start of a
page. -/
def shiftBlock (base : Nat) (b : Block) : Block := ⟨b.page - base, b.offsets⟩

theorem addAddress_sub {base x : Nat} (hbase : 4096 ∣ base) (hx : base ≤ x) {bs : List Block}
    (hbs : ∀ b ∈ bs, base ≤ b.page) :
    addAddress (bs.map (shiftBlock base)) (x - base) = (addAddress bs x).map (shiftBlock base) ∧
      ∀ b ∈ addAddress bs x, base ≤ b.page := by
  have hpage : pageOf (x - base) = pageOf x - base := by
    unfold pageOf
    omega
  have hmod : (x - base) % 4096 = x % 4096 := by omega
  have hle : base ≤ pageOf x := by
    unfold pageOf
    omega
  cases bs with
  | nil =>
      refine ⟨?_, ?_⟩
      · show [Block.mk (pageOf (x - base)) [(x - base) % 4096]] = _
        rw [hpage, hmod]
        rfl
      · intro b hb
        obtain rfl := List.mem_singleton.mp hb
        exact hle
  | cons b bs =>
      have hb := hbs b List.mem_cons_self
      by_cases hp : b.page < pageOf x
      · have hp' : (shiftBlock base b).page < pageOf (x - base) := by
          show b.page - base < _
          omega
        rw [List.map_cons, addAddress_new hp, addAddress_new hp', hpage, hmod]
        refine ⟨rfl, ?_⟩
        intro c hc
        rcases List.mem_cons.mp hc with rfl | hc
        · exact hle
        · exact hbs c hc
      · have hp' : ¬ (shiftBlock base b).page < pageOf (x - base) := by
          show ¬ b.page - base < _
          omega
        rw [List.map_cons, addAddress_same hp, addAddress_same hp', hmod]
        refine ⟨rfl, ?_⟩
        intro c hc
        rcases List.mem_cons.mp hc with rfl | hc
        · exact hb
        · exact hbs c (List.mem_cons_of_mem b hc)

theorem foldl_addAddress_sub {base : Nat} (hbase : 4096 ∣ base) {xs : List Nat}
    (hxs : ∀ x ∈ xs, base ≤ x) {bs : List Block} (hbs : ∀ b ∈ bs, base ≤ b.page) :
    (xs.map fun x => x - base).foldl addAddress (bs.map (shiftBlock base))
      = (xs.foldl addAddress bs).map (shiftBlock base) := by
  induction xs generalizing bs with
  | nil => rfl
  | cons x xs ih =>
      obtain ⟨hadd, hbs'⟩ := addAddress_sub hbase (hxs x List.mem_cons_self) hbs
      rw [List.map_cons, List.foldl_cons, hadd, List.foldl_cons]
      exact ih (fun y hy => hxs y (List.mem_cons_of_mem x hy)) hbs'

/-- Blocks of addresses behind `base` are those of the RVAs. -/
theorem blocksOf_sub {base : Nat} (hbase : 4096 ∣ base) {xs : List Nat}
    (hxs : ∀ x ∈ xs, base ≤ x) :
    blocksOf (xs.map fun x => x - base) = (blocksOf xs).map (shiftBlock base) := by
  have hfold := @foldl_addAddress_sub base hbase xs hxs [] (by simp)
  rw [blocksOf, blocksOf, List.map_reverse]
  exact congrArg List.reverse hfold

/-- An address behind `base` has the page of its RVA in the header. -/
theorem rvaBlock_eq_shiftBlock {base : UInt64} {b : Block} (hle : base.toNat ≤ b.page)
    (hlt : b.page - base.toNat < 2 ^ 32) (hpage : b.page < 2 ^ 64) :
    rvaBlock base b = shiftBlock base.toNat b := by
  have hnat : (UInt64.ofNat b.page).toNat = b.page := UInt64.toNat_ofNat_of_lt hpage
  rw [rvaBlock, shiftBlock, UInt64.toNat_toUInt32,
    UInt64.toNat_sub_of_le _ _ (by rw [UInt64.le_iff_toNat_le, hnat]; exact hle), hnat,
    Nat.mod_eq_of_lt hlt]

/-- **`create_pe_reloc`** of addresses behind the base address writes the table of their RVAs, as
the format has it. -/
theorem createPeReloc_rvas {exec : Executable} {base : UInt64} (hbase : 4096 ∣ base.toNat)
    (hpos : 0 < base.toNat) (hsorted : exec.relocs.Pairwise fun r r' => r.vaddr ≤ r'.vaddr)
    (hrange : ∀ r ∈ exec.relocs, base.toNat ≤ r.vaddr.toNat ∧
      r.vaddr.toNat - base.toNat < 2 ^ 32)
    (hnum : exec.relocs.length < 2 ^ 60) :
    ∃ table, createPeReloc exec base = .ok table ∧
      table.rawData = encode (blocksOf (exec.relocs.map fun r => r.vaddr.toNat - base.toNat)) ∧
      table.size.toNat = table.rawData.length := by
  obtain ⟨table, front, hok, hraw, hfront, hsize⟩ := createPeReloc_blocks base hsorted hnum
  have hfar : ∀ r ∈ exec.relocs, 4096 ≤ r.vaddr.toNat := by
    intro r hr
    have hle := (hrange r hr).1
    omega
  have hnone : exec.relocs.countP (fun r => r.vaddr.toNat < 4096) = 0 := by
    rw [List.countP_eq_zero]
    intro r hr hlt
    exact absurd (hfar r hr) (Nat.not_le.mpr (of_decide_eq_true hlt))
  have hall : (exec.relocs.map fun r => r.vaddr.toNat).filter (fun x => 4096 ≤ x)
      = exec.relocs.map fun r => r.vaddr.toNat := by
    rw [List.filter_eq_self]
    intro x hx
    obtain ⟨r, hr, rfl⟩ := List.mem_map.mp hx
    exact decide_eq_true (hfar r hr)
  have hvaddrs : (exec.relocs.map fun r => r.vaddr.toNat).Pairwise (· ≤ ·) := by
    rw [List.pairwise_map]
    exact hsorted.imp fun h => UInt64.le_iff_toNat_le.mp h
  have hblocks : exec.relocBlocks.map (rvaBlock base)
      = blocksOf (exec.relocs.map fun r => r.vaddr.toNat - base.toNat) := by
    have hle : ∀ x ∈ exec.relocs.map fun r => r.vaddr.toNat, base.toNat ≤ x := by
      intro x hx
      obtain ⟨r, hr, rfl⟩ := List.mem_map.mp hx
      exact (hrange r hr).1
    have hsub := blocksOf_sub hbase hle
    rw [List.map_map] at hsub
    rw [Executable.relocBlocks, hall]
    refine Eq.trans ?_ hsub.symm
    apply List.map_congr_left
    intro b hb
    obtain ⟨x, hx, hpage⟩ := page_blocksOf hvaddrs hb
    obtain ⟨r, hr, rfl⟩ := List.mem_map.mp hx
    have hr' := hrange r hr
    have hlt := r.vaddr.toNat_lt
    rw [pageOf] at hpage
    exact rvaBlock_eq_shiftBlock (by omega) (by omega) (by omega)
  refine ⟨table, hok, ?_, hsize⟩
  rw [hnone] at hfront
  rw [hraw, List.length_eq_zero_iff.mp hfront, List.nil_append, encodeAt, hblocks]

end LoliLoader.Elf2Efi
