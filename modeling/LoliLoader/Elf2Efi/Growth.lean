/-
# LoliLoader.Elf2Efi.Growth -- buffer_append in memory

The growing buffer as the block that `realloc` returned and two counters of 64 bits. A library may
answer every call differently, or with null; what is appended is in the block all the same, and the
counters are those of unbounded arithmetic.

`realloc` is not part of the repository. An answer of it is null, or a block of the size that was
asked for which begins with the bytes of the old one; what is in the rest of it is open. The buffer
is run with one such answer for each chunk, and nothing else is assumed.

The buffer grows by the size of the chunk, rounded up, and not to twice its size. That there is room
all the same is `Counters.room_append`; that neither counter overflows holds as long as what has
been appended stays below half of the address space.

`bufferAppend_view` connects this to the buffer with which `create_pe_reloc` is modelled: that one
is a list of bytes with the same counters, and appending to it is what a call in memory does.
-/
import LoliLoader.Elf2Efi.RelocTable
import LoliLoader.Elf2Efi.WriteSpec

namespace LoliLoader.Elf2Efi

open C Bytes Pe

/-! ## Memory -/

/-- An answer of `realloc`: null, or a block of that size that begins with the old bytes. What is in
the rest of it is open. -/
structure Realloc where
  realloc : Option (List UInt8) → UInt64 → Option (List UInt8)
  length : ∀ p size block, realloc p size = some block → block.length = size.toNat
  keeps : ∀ p size block, realloc p size = some block → ∀ k, k < size.toNat →
    ∀ c, (p.getD [])[k]? = some c → block[k]? = some c

/-- What `realloc_checked` makes of null: the program ends with a message. -/
def outOfMemory : Failure := .exit (.printf "failed to allocate memory\n" [])

/-- `realloc_checked`, which never returns null. -/
def reallocChecked (r : Realloc) (p : Option (List UInt8)) (size : UInt64) :
    Except Failure (List UInt8) :=
  match r.realloc p size with
  | none => .error outOfMemory
  | some n => .ok n

/-- `Dynamic_Buffer`, with the block that `data` points to; null before the first call. -/
structure BufferMemory where
  data : Option (List UInt8)
  allocatedSize : UInt64
  effectiveSize : UInt64

/-- A buffer before the first call, with no block. -/
def emptyBufferMemory : BufferMemory := ⟨none, 0, 0⟩

/-- The branch of `buffer_append` for `size` bytes that there may be no room for. -/
def growBuffer (r : Realloc) (buffer : BufferMemory) (size : UInt64) :
    Except Failure BufferMemory :=
  if buffer.effectiveSize + size ≥ buffer.allocatedSize then do
    let allocatedSize := buffer.allocatedSize + align size 1024
    let block ← reallocChecked r buffer.data allocatedSize
    return { buffer with data := some block, allocatedSize := allocatedSize }
  else
    return buffer

/-- `buffer_append`: the block grows if there may be no room for the chunk, and the chunk is stored
behind what there is. -/
def bufferAppendIn (r : Realloc) (buffer : BufferMemory) (data : List UInt8) :
    Except Failure BufferMemory := do
  let size := UInt64.ofNat data.length
  let newSize := buffer.effectiveSize + size
  let buffer ← growBuffer r buffer size
  match buffer.data with
  | none => .error (.fault .null)
  | some block =>
    let block ← storeAt block buffer.effectiveSize.toNat data
    return { buffer with data := some block, effectiveSize := newSize }

/-- The chunks one after the other, each call with its own answer of `realloc`. -/
def appendAll (calls : List (Realloc × List UInt8)) (buffer : BufferMemory) :
    Except Failure BufferMemory :=
  calls.foldlM (fun buffer call => bufferAppendIn call.1 buffer call.2) buffer

/-! ## Counters -/

/-- The two counters of the buffer, in unbounded arithmetic. -/
structure Counters where
  allocated : Nat
  effective : Nat
  deriving DecidableEq

/-- What appending does to them: the content grows by the chunk, and the room by the chunk rounded
up, if it might not suffice. -/
def Counters.append (c : Counters) (size : Nat) : Counters where
  allocated := if c.allocated ≤ c.effective + size then c.allocated + roundUp size 1024
    else c.allocated
  effective := c.effective + size

/-- The counters of the buffer, as numbers. -/
def BufferMemory.counters (buffer : BufferMemory) : Counters :=
  ⟨buffer.allocatedSize.toNat, buffer.effectiveSize.toNat⟩

/-- The room is enough, although it grows by the size of the chunk only. -/
theorem Counters.room_append {c : Counters} (h : c.effective ≤ c.allocated) (size : Nat) :
    (c.append size).effective ≤ (c.append size).allocated := by
  have hround := (le_roundUp size (show 0 < 1024 by decide)).1
  unfold Counters.append
  dsimp only
  split <;> omega

/-- And it never gets out of 64 bits as long as the content stays below half of that. -/
theorem Counters.allocated_append {c : Counters} (h : c.allocated < 2 ^ 64) (size : Nat)
    (hsize : c.effective + size < 2 ^ 63) : (c.append size).allocated < 2 ^ 64 := by
  unfold Counters.append roundUp
  dsimp only
  split <;> omega

/-! ## The content -/

/-- The buffer holds these bytes, in a block of the allocated size, and its counters say so. -/
structure BufferMemory.Holds (buffer : BufferMemory) (content : List UInt8) : Prop where
  effective : buffer.effectiveSize.toNat = content.length
  content : (buffer.data.getD []).take buffer.effectiveSize.toNat = content
  block : (buffer.data.getD []).length = buffer.allocatedSize.toNat
  room : buffer.effectiveSize.toNat ≤ buffer.allocatedSize.toNat

theorem holds_empty : emptyBufferMemory.Holds [] := ⟨rfl, rfl, rfl, Nat.le_refl 0⟩

section

variable {buffer : BufferMemory} {content : List UInt8}

theorem size_toNat (chunk : List UInt8) (h : chunk.length < 2 ^ 64) :
    (UInt64.ofNat chunk.length).toNat = chunk.length := by
  rw [UInt64.toNat_ofNat', Nat.mod_eq_of_lt h]

/-- Where the next chunk ends. -/
theorem BufferMemory.Holds.end_toNat (h : buffer.Holds content) {chunk : List UInt8}
    (hsmall : content.length + chunk.length < 2 ^ 63) :
    (buffer.effectiveSize + UInt64.ofNat chunk.length).toNat = content.length + chunk.length := by
  rw [UInt64.toNat_add, size_toNat chunk (by omega), h.effective]
  exact Nat.mod_eq_of_lt (by omega)

/-- The size of the block that is asked for, when there may be no room for the chunk. -/
theorem BufferMemory.Holds.grown_toNat (h : buffer.Holds content) {chunk : List UInt8}
    (hsmall : content.length + chunk.length < 2 ^ 63)
    (hgrow : buffer.allocatedSize.toNat ≤ content.length + chunk.length) :
    (buffer.allocatedSize + align (UInt64.ofNat chunk.length) 1024).toNat =
      (buffer.counters.append chunk.length).allocated := by
  have hnat := size_toNat chunk (by omega)
  have heff := h.effective
  have h1024 : (1024 : UInt64).toNat = 1024 := rfl
  have hcap := Counters.allocated_append (c := buffer.counters) buffer.allocatedSize.toNat_lt
    chunk.length (show buffer.effectiveSize.toNat + chunk.length < 2 ^ 63 by omega)
  have hcounted : (buffer.counters.append chunk.length).allocated =
      buffer.allocatedSize.toNat + roundUp chunk.length 1024 :=
    if_pos (show buffer.allocatedSize.toNat ≤ buffer.effectiveSize.toNat + chunk.length by omega)
  rw [UInt64.toNat_add, align_toNat (by rw [h1024]; omega) (by rw [h1024, hnat]; omega), hnat,
    h1024, ← hcounted]
  exact Nat.mod_eq_of_lt hcap

/-- The new block begins with the content of the old one. -/
theorem take_of_realloc (r : Realloc) (h : buffer.Holds content) {size : UInt64}
    {block : List UInt8} (hblock : r.realloc buffer.data size = some block)
    (hroom : buffer.effectiveSize.toNat ≤ size.toNat) :
    block.take buffer.effectiveSize.toNat = content := by
  have hlength := r.length _ _ _ hblock
  have hold := h.content
  have hsize := h.effective
  apply List.ext_getElem
  · rw [List.length_take, hlength, ← hsize]
    omega
  · intro k hk hk'
    have hget : (buffer.data.getD [])[k]? = some content[k] := by
      rw [← List.getElem?_eq_getElem hk', ← List.getElem?_take_of_lt (hsize ▸ hk'), hold]
    have hkept := r.keeps _ _ _ hblock k (by omega) _ hget
    rw [List.getElem_take]
    exact (List.getElem?_eq_some_iff.mp hkept).2

/-- **Growing** keeps the content, and makes the room that the counters say, unless there is no
memory. -/
theorem growBuffer_holds (r : Realloc) (h : buffer.Holds content) (chunk : List UInt8)
    (hsmall : content.length + chunk.length < 2 ^ 63) :
    (∃ grown, growBuffer r buffer (UInt64.ofNat chunk.length) = .ok grown ∧ grown.Holds content ∧
      grown.effectiveSize = buffer.effectiveSize ∧
      grown.allocatedSize.toNat = (buffer.counters.append chunk.length).allocated ∧
      grown.data ≠ none) ∨
    growBuffer r buffer (UInt64.ofNat chunk.length) = .error outOfMemory ∧
      ∃ p size, r.realloc p size = none := by
  have hend := h.end_toNat hsmall
  have heff := h.effective
  unfold growBuffer
  by_cases hgrow : buffer.effectiveSize + UInt64.ofNat chunk.length ≥ buffer.allocatedSize
  · have hgrow' := UInt64.le_iff_toNat_le.mp hgrow
    rw [hend] at hgrow'
    have halloc := h.grown_toNat hsmall hgrow'
    rw [if_pos hgrow]
    dsimp only
    cases hanswer : r.realloc buffer.data
        (buffer.allocatedSize + align (UInt64.ofNat chunk.length) 1024) with
    | none =>
        right
        rw [reallocChecked, hanswer]
        exact ⟨rfl, _, _, hanswer⟩
    | some block =>
        left
        have hroom := Counters.room_append (c := buffer.counters) h.room chunk.length
        have hle : buffer.effectiveSize.toNat ≤
            (buffer.allocatedSize + align (UInt64.ofNat chunk.length) 1024).toNat := by
          rw [halloc]
          exact Nat.le_trans (Nat.le_add_right _ _) hroom
        rw [reallocChecked, hanswer]
        exact ⟨_, rfl, ⟨heff, take_of_realloc r h hanswer hle, r.length _ _ _ hanswer, hle⟩, rfl,
          halloc, Option.some_ne_none _⟩
  · have hgrow' : ¬ buffer.allocatedSize.toNat ≤ buffer.effectiveSize.toNat + chunk.length := by
      rw [heff, ← hend]
      exact fun hle => hgrow (UInt64.le_iff_toNat_le.mpr hle)
    rw [if_neg hgrow]
    refine Or.inl ⟨buffer, rfl, h, rfl, (if_neg hgrow').symm, ?_⟩
    intro hnone
    have hblock := h.block
    rw [hnone] at hblock
    exact hgrow' (by rw [← hblock]; exact Nat.zero_le _)

/-- **One call** appends its chunk, in a block with room for it, unless there is no memory; then the
program ends. -/
theorem bufferAppendIn_holds (r : Realloc) (h : buffer.Holds content) (chunk : List UInt8)
    (hsmall : content.length + chunk.length < 2 ^ 63) :
    (∃ buffer', bufferAppendIn r buffer chunk = .ok buffer' ∧ buffer'.Holds (content ++ chunk) ∧
      buffer'.counters = buffer.counters.append chunk.length) ∨
    bufferAppendIn r buffer chunk = .error outOfMemory ∧
      ∃ p size, r.realloc p size = none := by
  have hfits := Counters.room_append (c := buffer.counters) h.room chunk.length
  rcases growBuffer_holds r h chunk hsmall with
    ⟨grown, hgrow, hgrown, hsame, halloc, hsome⟩ | ⟨herr, hnull⟩
  · left
    obtain ⟨block, hblock⟩ := Option.ne_none_iff_exists'.mp hsome
    have hlen : block.length = grown.allocatedSize.toNat := by
      have hb := hgrown.block
      rwa [hblock] at hb
    have heff : grown.effectiveSize.toNat = content.length := hgrown.effective
    have hcontent : block.take content.length = content := by
      have hc := hgrown.content
      rwa [hblock, heff] at hc
    have hroom : content.length + chunk.length ≤ block.length := by
      have hfits' : buffer.effectiveSize.toNat + chunk.length ≤ _ := hfits
      rw [← halloc, ← hlen, h.effective] at hfits'
      exact hfits'
    have hnew := h.end_toNat hsmall
    have hstore : storeAt block grown.effectiveSize.toNat chunk = .ok
        (content ++ chunk ++ block.drop (content.length + chunk.length)) := by
      rw [storeAt, if_neg (by omega), heff, hcontent]
    refine ⟨⟨some (content ++ chunk ++ block.drop (content.length + chunk.length)),
      grown.allocatedSize, buffer.effectiveSize + UInt64.ofNat chunk.length⟩, ?_,
      ⟨?_, ?_, ?_, ?_⟩, ?_⟩
    · unfold bufferAppendIn
      dsimp only
      rw [hgrow]
      dsimp only [bind, Except.bind]
      rw [hblock]
      dsimp only
      rw [hstore]
      rfl
    · rw [hnew, List.length_append]
    · rw [hnew, ← List.length_append]
      exact List.take_left
    · show (content ++ chunk ++ _).length = _
      rw [List.length_append, List.length_append, List.length_drop, ← hlen]
      omega
    · rw [hnew, ← hlen]
      exact hroom
    · rw [BufferMemory.counters, Counters.mk.injEq, hnew, ← h.effective]
      exact ⟨halloc, rfl⟩
  · right
    refine ⟨?_, hnull⟩
    unfold bufferAppendIn
    dsimp only
    rw [herr]
    rfl

/-- **A run** appends chunk after chunk to what there is, unless there is no memory for one, and its
counters are those of unbounded arithmetic. -/
theorem appendAll_from (calls : List (Realloc × List UInt8)) (h : buffer.Holds content)
    (hsmall : content.length + (calls.map fun call => call.2.length).sum < 2 ^ 63) :
    (∃ buffer', appendAll calls buffer = .ok buffer' ∧
      buffer'.Holds (content ++ (calls.map Prod.snd).flatten) ∧
      buffer'.counters =
        (calls.map fun call => call.2.length).foldl Counters.append buffer.counters) ∨
    appendAll calls buffer = .error outOfMemory ∧
      ∃ call ∈ calls, ∃ p size, call.1.realloc p size = none := by
  induction calls generalizing buffer content with
  | nil =>
      left
      refine ⟨buffer, rfl, ?_, rfl⟩
      rw [List.map_nil, List.flatten_nil, List.append_nil]
      exact h
  | cons call calls ih =>
      rw [List.map_cons, List.sum_cons] at hsmall
      rcases bufferAppendIn_holds call.1 h call.2 (by omega) with
        ⟨next, hnext, hholds, hcounters⟩ | ⟨herr, hnull⟩
      · have hrun : appendAll (call :: calls) buffer = appendAll calls next := by
          rw [appendAll, List.foldlM_cons, hnext]
          rfl
        rw [hrun]
        rcases ih hholds (by rw [List.length_append]; omega) with
          ⟨buffer', hok, hholds', hcounters'⟩ | ⟨herr, call', hmem, hnull⟩
        · left
          refine ⟨buffer', hok, ?_, ?_⟩
          · rw [List.map_cons, List.flatten_cons, ← List.append_assoc]
            exact hholds'
          · rw [hcounters', hcounters]
            rfl
        · exact Or.inr ⟨herr, call', List.mem_cons_of_mem call hmem, hnull⟩
      · right
        refine ⟨?_, call, List.mem_cons_self, hnull⟩
        rw [appendAll, List.foldlM_cons, herr]
        rfl

/-- The buffer as `create_pe_reloc` is modelled with it. -/
def BufferMemory.view (buffer : BufferMemory) : DynamicBuffer where
  data := (buffer.data.getD []).take buffer.effectiveSize.toNat
  allocatedSize := buffer.allocatedSize
  effectiveSize := buffer.effectiveSize

/-- What a call makes of the counters, in 64 bits. -/
theorem bufferAppendIn_inv {r : Realloc} {chunk : List UInt8} {buffer' : BufferMemory}
    (h : bufferAppendIn r buffer chunk = .ok buffer') :
    buffer'.allocatedSize =
        (if buffer.effectiveSize + UInt64.ofNat chunk.length ≥ buffer.allocatedSize then
          buffer.allocatedSize + align (UInt64.ofNat chunk.length) 1024
        else buffer.allocatedSize) ∧
      buffer'.effectiveSize = buffer.effectiveSize + UInt64.ofNat chunk.length := by
  unfold bufferAppendIn at h
  obtain ⟨grown, hgrow, h⟩ := bind_eq_ok.mp h
  have halloc : grown.allocatedSize =
      if buffer.effectiveSize + UInt64.ofNat chunk.length ≥ buffer.allocatedSize then
        buffer.allocatedSize + align (UInt64.ofNat chunk.length) 1024
      else buffer.allocatedSize := by
    unfold growBuffer at hgrow
    split at hgrow
    · rename_i hge
      obtain ⟨block, -, hgrow⟩ := bind_eq_ok.mp hgrow
      obtain rfl := Except.ok.inj hgrow
      exact (if_pos hge).symm
    · rename_i hlt
      obtain rfl := Except.ok.inj hgrow
      exact (if_neg hlt).symm
  split at h
  · cases h
  · obtain ⟨block, -, h⟩ := bind_eq_ok.mp h
    obtain rfl := Except.ok.inj h
    exact ⟨halloc, rfl⟩

theorem BufferMemory.Holds.view_eq (h : buffer.Holds content) :
    buffer.view = ⟨content, buffer.allocatedSize, buffer.effectiveSize⟩ := by
  rw [BufferMemory.view, h.content]

/-- **Appending in memory refines** appending to a list of bytes: the view of the new buffer is what
the list model gives. -/
theorem bufferAppend_view {r : Realloc} (h : buffer.Holds content) {chunk : List UInt8}
    (hsmall : content.length + chunk.length < 2 ^ 63) {buffer' : BufferMemory}
    (hok : bufferAppendIn r buffer chunk = .ok buffer') :
    bufferAppend buffer.view chunk = .ok buffer'.view := by
  obtain ⟨halloc, heff⟩ := bufferAppendIn_inv hok
  have h' : buffer'.Holds (content ++ chunk) := by
    rcases bufferAppendIn_holds r h chunk hsmall with ⟨next, hnext, hholds, -⟩ | ⟨herr, -⟩
    · obtain rfl := Except.ok.inj (hnext.symm.trans hok)
      exact hholds
    · rw [herr] at hok
      cases hok
  have hroom : ¬ buffer'.allocatedSize.toNat < buffer.effectiveSize.toNat + chunk.length := by
    have hr := h'.room
    rw [h'.effective, List.length_append, ← h.effective] at hr
    omega
  rw [h.view_eq, h'.view_eq]
  unfold bufferAppend
  dsimp only
  rw [← halloc, ← heff, if_neg hroom]

end

/-- **The growing buffer** holds what was appended: for chunks of any sizes, and any answers of
`realloc`, the sizes are added up without overflow and each chunk is copied into the block. -/
theorem appendAll_holds (calls : List (Realloc × List UInt8))
    (htotal : (calls.map fun call => call.2.length).sum < 2 ^ 63) :
    (∃ buffer, appendAll calls emptyBufferMemory = .ok buffer ∧
      buffer.effectiveSize.toNat = (calls.map fun call => call.2.length).sum ∧
      (buffer.data.getD []).take buffer.effectiveSize.toNat = (calls.map Prod.snd).flatten ∧
      buffer.effectiveSize.toNat ≤ buffer.allocatedSize.toNat ∧
      (buffer.data.getD []).length = buffer.allocatedSize.toNat ∧
      buffer.counters = (calls.map fun call => call.2.length).foldl Counters.append ⟨0, 0⟩) ∨
    appendAll calls emptyBufferMemory = .error outOfMemory ∧
      ∃ call ∈ calls, ∃ p size, call.1.realloc p size = none := by
  refine (appendAll_from calls holds_empty (by simpa using htotal)).imp ?_ id
  rintro ⟨buffer, hok, h, hcounters⟩
  refine ⟨buffer, hok, ?_, h.content, h.room, h.block, hcounters⟩
  rw [h.effective, List.nil_append, List.length_flatten, List.map_map]
  rfl

/-- A library that clears what it adds, and never answers null. -/
def clearingRealloc : Realloc where
  realloc p size := some ((p.getD []).take size.toNat ++
    List.replicate (size.toNat - (p.getD []).length) 0)
  length p size block h := by
    obtain rfl := Option.some.inj h
    rw [List.length_append, List.length_take, List.length_replicate]
    omega
  keeps p size block h k hk c hc := by
    obtain rfl := Option.some.inj h
    have hlt := (List.getElem?_eq_some_iff.mp hc).1
    rw [List.getElem?_append_left (by rw [List.length_take]; omega), List.getElem?_take_of_lt hk,
      hc]

/-- A short chunk, an empty one, and one that is longer than what is allocated for both. -/
def mixedCalls : List (Realloc × List UInt8) :=
  [(clearingRealloc, [1, 2, 3]), (clearingRealloc, []), (clearingRealloc, List.replicate 3000 7)]

theorem appendAll_holds_mixed :
    ∃ buffer, appendAll mixedCalls emptyBufferMemory = .ok buffer ∧
      buffer.effectiveSize.toNat = (mixedCalls.map fun call => call.2.length).sum ∧
      (buffer.data.getD []).take buffer.effectiveSize.toNat =
        (mixedCalls.map Prod.snd).flatten ∧
      buffer.effectiveSize.toNat ≤ buffer.allocatedSize.toNat ∧
      (buffer.data.getD []).length = buffer.allocatedSize.toNat ∧
      buffer.counters =
        (mixedCalls.map fun call => call.2.length).foldl Counters.append ⟨0, 0⟩ := by
  rcases appendAll_holds mixedCalls (by decide +kernel) with hok | ⟨-, call, hcall, p, size, hnone⟩
  · exact hok
  · -- this library never answers null
    have hclearing : call.1 = clearingRealloc := by
      simp only [mixedCalls, List.mem_cons, List.not_mem_nil, or_false] at hcall
      rcases hcall with rfl | rfl | rfl <;> rfl
    rw [hclearing] at hnone
    cases hnone

end LoliLoader.Elf2Efi
