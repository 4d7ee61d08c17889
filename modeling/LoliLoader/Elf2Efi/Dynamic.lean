/-
# LoliLoader.Elf2Efi.Dynamic -- looking up a tag of the dynamic segment

`dynamic_lookup_tag` counts entries and addresses bytes: its index steps over the table by one byte,
as far as there are entries. Beside the lookup stands the table itself.

A table has entries of 16 bytes. With the index as a byte offset the loop looks at the first entry,
and then at what begins one byte into it, two bytes into it and so on; for a table of `n` entries it
gets to offset `n - 1`, which is inside the second entry at best for tables of usual size.

So there are two questions. One is which bytes are taken for tags: only those of entries if the
first entry is the one that is sought, or if there is no other. The other is whether the result is
right, which it may be by luck; it depends on all the offsets that are tried and is decided by
`Reached`. `dynamicLookupTag_searches_iff` answers both, for every segment and every tag.

`dynamicLookupTrace` is the lookup with the offsets it has looked at. It is a device of the proof
and has the same result as the function (`dynamicLookupTrace_snd`).
-/
import LoliLoader.Elf2Efi.Parsed

namespace LoliLoader.Elf2Efi

open C Bytes

/-! ## The table -/

/-- The tag that ends a dynamic table. -/
def DT_NULL : UInt64 := 0

/-- The number of entries that the file-backed part has room for. -/
def dynNum (dynamic : Segment) : Nat := dynamic.filesize.toNat / 16

/-- What stands at an offset, read as an entry, be it one or not. -/
def dynAt (dynamic : Segment) (p : Nat) : Elf64Dyn :=
  Elf64Dyn.ofBytes ((dynamic.data.rawData.drop p).take 16)

/-- The entries before the first `DT_NULL`, which is what the table says. -/
def dynTable (dynamic : Segment) : List Elf64Dyn :=
  (records Elf64Dyn.ofBytes 16 (dynNum dynamic) dynamic.data.rawData).takeWhile
    fun e => e.dTag ≠ DT_NULL

/-- The value of the first entry with the tag, if the table has one: what a lookup is to return. -/
def tagValue (dynamic : Segment) (tag : UInt64) : Option UInt64 :=
  ((dynTable dynamic).find? fun e => e.dTag = tag).map Elf64Dyn.dVal

/-- A dynamic segment as `load_segment` gives it, with a `DT_NULL` among its entries, as the format
demands. -/
structure DynamicSegment (dynamic : Segment) : Prop where
  filesize_le : dynamic.filesize ≤ dynamic.memsize
  length : dynamic.data.rawData.length = dynamic.memsize.toNat
  size : dynamic.data.size = dynamic.memsize
  ended : ∃ j < dynNum dynamic, (dynAt dynamic (16 * j)).dTag = DT_NULL

theorem dynamicSegment_of_load {fresh : Nat → UInt8} {elf : SizedData} {phdr : Elf64Phdr}
    {dynamic : Segment} (h : loadSegment fresh elf phdr = .ok dynamic)
    (hend : ∃ j < dynNum dynamic, (dynAt dynamic (16 * j)).dTag = DT_NULL) :
    DynamicSegment dynamic :=
  ⟨(loadSegment_inv h).filesize_le, (loadSegment_inv h).length, (loadSegment_inv h).size, hend⟩

/-! ## The offsets -/

/-- The entry for an index of the loop, and where it is read. -/
def dynRead (dynamic : Segment) (i : Nat) : Except Failure (Nat × Elf64Dyn) := do
  let p ← dataAtOffset dynamic.data "dynamic tag" (UInt64.ofNat i) 16
  let bytes ← readAt dynamic.data.rawData p 16
  return (p, Elf64Dyn.ofBytes bytes)

/-- `dynamic_lookup_tag`, with the offsets whose bytes it takes for a tag. -/
def dynamicLookupTrace (dynamic : Segment) (tag : UInt64) :
    List Nat → List Nat × Except Failure (Option UInt64)
  | [] => ([], .ok none)
  | i :: is =>
    match dynRead dynamic i with
    | .error e => ([], .error e)
    | .ok (p, dyn) =>
      if dyn.dTag = tag then ([p], .ok (some dyn.dVal))
      else
        let (ps, r) := dynamicLookupTrace dynamic tag is
        (p :: ps, r)

/-- The offsets that `dynamic_lookup_tag` takes for those of entries, until it starts over. -/
def dynamicOffsets (dynamic : Segment) (tag : UInt64) : List Nat :=
  (dynamicLookupTrace dynamic tag (List.range (min (dynNum dynamic) (2 ^ 32)))).1

theorem dynamicLookupTagFrom_cons (dynamic : Segment) (tag : UInt64) (i : Nat) (is : List Nat) :
    dynamicLookupTagFrom dynamic tag (i :: is) = (dynRead dynamic i >>= fun r =>
      if r.2.dTag = tag then .ok (some r.2.dVal) else dynamicLookupTagFrom dynamic tag is) := by
  rw [dynamicLookupTagFrom, dynRead]
  cases dataAtOffset dynamic.data "dynamic tag" (UInt64.ofNat i) 16 with
  | error e => rfl
  | ok p =>
      show (readAt dynamic.data.rawData p 16 >>= _)
        = ((readAt dynamic.data.rawData p 16 >>= _) >>= _)
      cases readAt dynamic.data.rawData p 16 with
      | error e => rfl
      | ok bytes => rfl

/-- The trace is that of the lookup. -/
theorem dynamicLookupTrace_snd (dynamic : Segment) (tag : UInt64) (is : List Nat) :
    (dynamicLookupTrace dynamic tag is).2 = dynamicLookupTagFrom dynamic tag is := by
  induction is with
  | nil => rfl
  | cons i is ih =>
      rw [dynamicLookupTagFrom_cons, dynamicLookupTrace]
      cases dynRead dynamic i with
      | error e => rfl
      | ok r =>
          show _ = (if r.2.dTag = tag then _ else _)
          dsimp only
          by_cases htag : r.2.dTag = tag
          · rw [if_pos htag, if_pos htag]
          · rw [if_neg htag, if_neg htag]
            exact ih

section

variable {dynamic : Segment} {tag : UInt64} {i : Nat} {is : List Nat}

theorem index_add (hi : i < 2 ^ 32) :
    (UInt64.ofNat i).toNat = i ∧ (UInt64.ofNat i + 16).toNat = i + 16 := by
  have hnat : (UInt64.ofNat i).toNat = i := UInt64.toNat_ofNat_of_lt' (by show _ < 2 ^ 64; omega)
  refine ⟨hnat, ?_⟩
  rw [UInt64.toNat_add, hnat]
  exact Nat.mod_eq_of_lt (by show i + 16 < 2 ^ 64; omega)

/-- Inside the data, the bytes at the index are taken for an entry. -/
theorem dynRead_ok (h : DynamicSegment dynamic) (hi : i < 2 ^ 32)
    (hin : i + 16 < dynamic.memsize.toNat) : dynRead dynamic i = .ok (i, dynAt dynamic i) := by
  have hp : dataAtOffset dynamic.data "dynamic tag" (UInt64.ofNat i) 16 = .ok i := by
    have hlt : UInt64.ofNat i + 16 < dynamic.data.size := by
      rw [UInt64.lt_iff_toNat_lt, (index_add hi).2, h.size]
      exact hin
    rw [dataAtOffset, assertMsg, if_pos (decide_eq_true hlt)]
    exact congrArg Except.ok (index_add hi).1
  have hbytes : readAt dynamic.data.rawData i 16 = .ok ((dynamic.data.rawData.drop i).take 16) := by
    rw [readAt, if_neg (by omega), if_neg (by rw [h.length]; omega)]
  rw [dynRead, hp]
  show (readAt dynamic.data.rawData i 16 >>= _) = _
  rw [hbytes]
  rfl

/-- Behind it, the program ends, even if the last entry is still inside. -/
theorem dynRead_ne_ok (h : DynamicSegment dynamic) (hi : i < 2 ^ 32)
    (hout : dynamic.memsize.toNat ≤ i + 16) (r : Nat × Elf64Dyn) : dynRead dynamic i ≠ .ok r := by
  intro hok
  obtain ⟨p, hp, -⟩ := bind_eq_ok.mp hok
  obtain ⟨_, hassert, -⟩ := bind_eq_ok.mp hp
  have hlt := of_decide_eq_true (assertMsg_eq_ok.mp hassert)
  rw [UInt64.lt_iff_toNat_lt, (index_add hi).2, h.size] at hlt
  omega

/-- The bytes at the index are the tag: the loop ends there. -/
theorem trace_match (hread : dynRead dynamic i = .ok (i, dynAt dynamic i))
    (htag : (dynAt dynamic i).dTag = tag) :
    dynamicLookupTrace dynamic tag (i :: is) = ([i], .ok (some (dynAt dynamic i).dVal)) := by
  rw [dynamicLookupTrace, hread]
  exact if_pos htag

/-- They are not: it goes on. -/
theorem trace_step (hread : dynRead dynamic i = .ok (i, dynAt dynamic i))
    (htag : (dynAt dynamic i).dTag ≠ tag) :
    dynamicLookupTrace dynamic tag (i :: is) =
      (i :: (dynamicLookupTrace dynamic tag is).1, (dynamicLookupTrace dynamic tag is).2) := by
  rw [dynamicLookupTrace, hread]
  exact if_neg htag

theorem trace_ne_ok (h : DynamicSegment dynamic) (hi : i < 2 ^ 32)
    (hout : dynamic.memsize.toNat ≤ i + 16) (v : Option UInt64) :
    (dynamicLookupTrace dynamic tag (i :: is)).2 ≠ .ok v := by
  intro hok
  rw [dynamicLookupTrace_snd, dynamicLookupTagFrom_cons] at hok
  obtain ⟨r, hr, -⟩ := bind_eq_ok.mp hok
  exact dynRead_ne_ok h hi hout r hr

end

/-! ## The lookup -/

/-- The result of the lookup is that of the table. -/
def Finds (dynamic : Segment) (tag : UInt64) : Prop :=
  dynamicLookupTag dynamic tag = .ok (tagValue dynamic tag)

/-- And only the bytes of entries are taken for tags. -/
def SearchesEntries (dynamic : Segment) (tag : UInt64) : Prop :=
  Finds dynamic tag ∧ ∀ p ∈ dynamicOffsets dynamic tag, 16 ∣ p

section

variable {dynamic : Segment} {tag : UInt64}

/-- A lookup that returns is that of the trace, and it has not started over. -/
theorem dynamicLookupTag_eq_ok {v : Option UInt64} :
    dynamicLookupTag dynamic tag = .ok v ↔
      (dynamicLookupTrace dynamic tag (List.range (min (dynNum dynamic) (2 ^ 32)))).2 = .ok v ∧
        (v = none → dynNum dynamic < 2 ^ 32) := by
  rw [dynamicLookupTrace_snd]
  unfold dynamicLookupTag
  by_cases hnum : dynNum dynamic < 2 ^ 32
  · rw [Nat.min_eq_left (Nat.le_of_lt hnum)]
    have hall : v = none → dynNum dynamic < 2 ^ 32 := fun _ => hnum
    rw [dynNum] at hnum
    rw [if_pos hnum, and_iff_left hall]
    rfl
  · rw [Nat.min_eq_right (Nat.le_of_not_lt hnum)]
    have hcount : (v = none → dynNum dynamic < 2 ^ 32) ↔ v ≠ none :=
      ⟨fun h hv => hnum (h hv), fun h hv => absurd hv h⟩
    rw [hcount]
    rw [dynNum] at hnum
    rw [if_neg hnum, bind_eq_ok]
    constructor
    · rintro ⟨r, hr, h⟩
      cases r with
      | none => cases h
      | some value =>
          obtain rfl := Except.ok.inj h
          exact ⟨hr, Option.some_ne_none value⟩
    · rintro ⟨hr, hv⟩
      obtain ⟨value, rfl⟩ := Option.ne_none_iff_exists'.mp hv
      exact ⟨_, hr, rfl⟩

/-- **A run of the loop**: it ends with the first bytes that are the tag, or behind all, and it
stays inside the data meanwhile. -/
theorem trace_range' (h : DynamicSegment dynamic) {i m : Nat} (him : i + m ≤ 2 ^ 32)
    (v : Option UInt64) :
    (dynamicLookupTrace dynamic tag (List.range' i m)).2 = .ok v ↔
      (∃ k, i ≤ k ∧ k < i + m ∧ k + 16 < dynamic.memsize.toNat ∧ (dynAt dynamic k).dTag = tag ∧
        (∀ p, i ≤ p → p < k → (dynAt dynamic p).dTag ≠ tag) ∧ v = some (dynAt dynamic k).dVal) ∨
      (v = none ∧ ∀ p, i ≤ p → p < i + m →
        (dynAt dynamic p).dTag ≠ tag ∧ p + 16 < dynamic.memsize.toNat) := by
  induction m generalizing i with
  | zero =>
      constructor
      · intro hok
        exact Or.inr ⟨(Except.ok.inj hok).symm, fun p hle hlt => absurd hle (by omega)⟩
      · rintro (⟨k, hle, hlt, -⟩ | ⟨rfl, -⟩)
        · omega
        · rfl
  | succ m ih =>
      rw [List.range'_succ]
      by_cases hin : i + 16 < dynamic.memsize.toNat
      · have hread := dynRead_ok h (by omega) hin
        by_cases htag : (dynAt dynamic i).dTag = tag
        · rw [trace_match hread htag]
          constructor
          · intro hok
            refine Or.inl ⟨i, Nat.le_refl i, by omega, hin, htag, ?_, (Except.ok.inj hok).symm⟩
            intro p hle hlt
            omega
          · rintro (⟨k, hle, hlt, -, -, hfirst, rfl⟩ | ⟨-, hall⟩)
            · -- the first match is this one
              have hk : k = i := by
                by_contra hne
                exact hfirst i (Nat.le_refl i) (by omega) htag
              rw [hk]
            · exact absurd htag (hall i (Nat.le_refl i) (by omega)).1
        · rw [trace_step hread htag, ih (by omega)]
          have hhead : ∀ {p : Nat}, i ≤ p → p = i ∨ i + 1 ≤ p := by
            intro p hle
            omega
          constructor
          · rintro (⟨k, hle, hlt, hk, hmatch, hfirst, rfl⟩ | ⟨rfl, hall⟩)
            · refine Or.inl ⟨k, by omega, by omega, hk, hmatch, fun p hp hpk => ?_, rfl⟩
              rcases hhead hp with rfl | hp
              · exact htag
              · exact hfirst p hp hpk
            · refine Or.inr ⟨rfl, fun p hp hpm => ?_⟩
              rcases hhead hp with rfl | hp
              · exact ⟨htag, hin⟩
              · exact hall p hp (by omega)
          · rintro (⟨k, hle, hlt, hk, hmatch, hfirst, rfl⟩ | ⟨rfl, hall⟩)
            · have hne : k ≠ i := by
                rintro rfl
                exact htag hmatch
              refine Or.inl ⟨k, by omega, by omega, hk, hmatch, fun p hp hpk => ?_, rfl⟩
              exact hfirst p (by omega) hpk
            · exact Or.inr ⟨rfl, fun p hp hpm => hall p (by omega) (by omega)⟩
      · refine iff_of_false (trace_ne_ok h (by omega) (Nat.le_of_not_lt hin) v) ?_
        rintro (⟨k, hle, -, hk, -⟩ | ⟨-, hall⟩)
        · omega
        · exact hin (hall i (Nat.le_refl i) (by omega)).2

/-! ## The first entry with the tag -/

/-- The table ends at the first `DT_NULL`. -/
theorem dynTable_eq (h : DynamicSegment dynamic) :
    ∃ t < dynNum dynamic, (dynAt dynamic (16 * t)).dTag = DT_NULL ∧
      (∀ j < t, (dynAt dynamic (16 * j)).dTag ≠ DT_NULL) ∧
      dynTable dynamic = (List.range t).map fun j => dynAt dynamic (16 * j) := by
  have hex : ∃ t, t < dynNum dynamic ∧ (dynAt dynamic (16 * t)).dTag = DT_NULL := h.ended
  obtain ⟨hlt, hnull⟩ := Nat.find_spec hex
  have hbefore : ∀ j < Nat.find hex, (dynAt dynamic (16 * j)).dTag ≠ DT_NULL := by
    intro j hj hnull'
    exact Nat.find_min hex hj ⟨Nat.lt_trans hj hlt, hnull'⟩
  refine ⟨Nat.find hex, hlt, hnull, hbefore, ?_⟩
  generalize Nat.find hex = t at hlt hnull hbefore
  have hsplit : List.range (dynNum dynamic)
      = List.range t ++ t :: List.range' (t + 1) (dynNum dynamic - t - 1) := by
    have happend := @List.range'_append_1 0 t (dynNum dynamic - t - 1 + 1)
    rw [Nat.zero_add, List.range'_succ, Nat.sub_add_cancel (by omega),
      Nat.add_sub_cancel' (Nat.le_of_lt hlt)] at happend
    rw [List.range_eq_range', List.range_eq_range', happend]
  have hrecords : records Elf64Dyn.ofBytes 16 (dynNum dynamic) dynamic.data.rawData
      = (List.range (dynNum dynamic)).map fun j => dynAt dynamic (16 * j) := rfl
  rw [dynTable, hrecords, hsplit, List.map_append, List.map_cons, List.takeWhile_append_of_pos,
    List.takeWhile_cons_of_neg, List.append_nil]
  · rw [hnull]
    decide
  · intro e he
    obtain ⟨j, hj, rfl⟩ := List.mem_map.mp he
    exact decide_eq_true (hbefore j (List.mem_range.mp hj))

/-- The index of the first entry with the tag, among those before the first `DT_NULL`. -/
def tagIndex (dynamic : Segment) (tag : UInt64) : Option Nat :=
  (List.range (dynTable dynamic).length).find? fun j => (dynAt dynamic (16 * j)).dTag = tag

theorem tagValue_eq (h : DynamicSegment dynamic) :
    tagValue dynamic tag
      = (tagIndex dynamic tag).map fun j => (dynAt dynamic (16 * j)).dVal := by
  obtain ⟨t, -, -, -, htable⟩ := dynTable_eq h
  rw [tagValue, tagIndex, htable, List.length_map, List.length_range, List.find?_map,
    Option.map_map]
  rfl

/-- The entry has the tag, and none before it does. -/
theorem tagIndex_some (h : DynamicSegment dynamic) {j : Nat}
    (hj : tagIndex dynamic tag = some j) :
    j < dynNum dynamic ∧ (dynAt dynamic (16 * j)).dTag = tag ∧
      ∀ l < j, (dynAt dynamic (16 * l)).dTag ≠ tag := by
  obtain ⟨t, ht, -, -, htable⟩ := dynTable_eq h
  rw [tagIndex, htable, List.length_map, List.length_range, List.find?_range_eq_some] at hj
  obtain ⟨htag, hmem, hbefore⟩ := hj
  exact ⟨Nat.lt_trans (List.mem_range.mp hmem) ht, of_decide_eq_true htag,
    fun l hl => by simpa using hbefore l hl⟩

/-- The search gets to the first entry with the tag, or else through all entries, before it leaves
the data, and no other bytes on the way are the tag. -/
def Reached (dynamic : Segment) (tag : UInt64) : Prop :=
  match tagIndex dynamic tag with
  | some j => 16 * j < dynNum dynamic ∧ 16 * j < 2 ^ 32 ∧ 16 * j + 16 < dynamic.memsize.toNat ∧
      ∀ p < 16 * j, (dynAt dynamic p).dTag ≠ tag
  | none => dynNum dynamic < 2 ^ 32 ∧ dynNum dynamic + 15 < dynamic.memsize.toNat ∧
      ∀ p < dynNum dynamic, (dynAt dynamic p).dTag ≠ tag

/-- The first bytes that are the tag are those of an entry. -/
def EndsAligned (dynamic : Segment) (tag : UInt64) : Prop :=
  ∀ k < dynNum dynamic, (dynAt dynamic k).dTag = tag →
    (∀ p < k, (dynAt dynamic p).dTag ≠ tag) → 16 ∣ k

/-- The run of the whole loop. -/
theorem finds_trace (h : DynamicSegment dynamic) (v : Option UInt64) :
    dynamicLookupTag dynamic tag = .ok v ↔
      (∃ k, k < dynNum dynamic ∧ k < 2 ^ 32 ∧ k + 16 < dynamic.memsize.toNat ∧
        (dynAt dynamic k).dTag = tag ∧ (∀ p < k, (dynAt dynamic p).dTag ≠ tag) ∧
        v = some (dynAt dynamic k).dVal) ∨
      (v = none ∧ dynNum dynamic < 2 ^ 32 ∧ ∀ p < dynNum dynamic,
        (dynAt dynamic p).dTag ≠ tag ∧ p + 16 < dynamic.memsize.toNat) := by
  rw [dynamicLookupTag_eq_ok, List.range_eq_range',
    trace_range' h (by rw [Nat.zero_add]; exact Nat.min_le_right _ _)]
  simp only [Nat.zero_le, true_implies, true_and, Nat.zero_add, Nat.lt_min]
  constructor
  · rintro ⟨⟨k, ⟨hk, hk'⟩, hrest⟩ | ⟨rfl, hall⟩, hnum⟩
    · exact Or.inl ⟨k, hk, hk', hrest⟩
    · have hlt := hnum rfl
      exact Or.inr ⟨rfl, hlt, fun p hp => hall p ⟨hp, Nat.lt_trans hp hlt⟩⟩
  · rintro (⟨k, hk, hk', hin, htag, hfirst, rfl⟩ | ⟨rfl, hnum, hall⟩)
    · exact ⟨Or.inl ⟨k, ⟨hk, hk'⟩, hin, htag, hfirst, rfl⟩, fun hv => by cases hv⟩
    · exact ⟨Or.inr ⟨rfl, fun p hp => hall p hp.1⟩, fun _ => hnum⟩

/-- `DT_NULL` is in no table. -/
theorem tagIndex_null (h : DynamicSegment dynamic) : tagIndex dynamic DT_NULL = none := by
  obtain ⟨t, -, -, hbefore, htable⟩ := dynTable_eq h
  rw [tagIndex, htable, List.length_map, List.length_range, List.find?_range_eq_none]
  intro j hj
  simpa using hbefore j hj

/-- The table is empty, or its first entry is that of the segment. -/
theorem tagIndex_head (h : DynamicSegment dynamic) (htag : (dynAt dynamic 0).dTag = tag)
    (hne : tag ≠ DT_NULL) : tagIndex dynamic tag = some 0 := by
  obtain ⟨t, -, hnull, -, htable⟩ := dynTable_eq h
  have hpos : 0 < t := by
    refine Nat.pos_of_ne_zero ?_
    rintro rfl
    exact hne (htag.symm.trans hnull)
  rw [tagIndex, htable, List.length_map, List.length_range, List.find?_range_eq_some]
  exact ⟨decide_eq_true htag, List.mem_range.mpr hpos, fun l hl => absurd hl (Nat.not_lt_zero l)⟩

/-- The only entry is `DT_NULL`. -/
theorem tagIndex_single (h : DynamicSegment dynamic) (hnum : dynNum dynamic = 1) :
    tagIndex dynamic tag = none ∧ (dynAt dynamic 0).dTag = DT_NULL := by
  obtain ⟨t, ht, hnull, -, htable⟩ := dynTable_eq h
  obtain rfl : t = 0 := by omega
  refine ⟨?_, hnull⟩
  rw [tagIndex, htable]
  rfl

/-- **The result is that of the table**, through the bytes of an entry, exactly if the search
reaches it before it meets other bytes that are the tag. -/
theorem finds_iff (h : DynamicSegment dynamic) :
    Finds dynamic tag ∧ EndsAligned dynamic tag ↔ Reached dynamic tag := by
  unfold Finds Reached
  have hnum : 0 < dynNum dynamic := by
    obtain ⟨j, hj, -⟩ := h.ended
    omega
  rw [finds_trace h, tagValue_eq h]
  cases hindex : tagIndex dynamic tag with
  | none =>
      simp only [Option.map_none, reduceCtorEq, and_false, exists_false, false_or, true_and]
      constructor
      · rintro ⟨⟨hlt, hall⟩, -⟩
        have hlast := (hall (dynNum dynamic - 1) (by omega)).2
        exact ⟨hlt, by omega, fun p hp => (hall p hp).1⟩
      · rintro ⟨hlt, hin, hall⟩
        refine ⟨⟨hlt, fun p hp => ⟨hall p hp, by omega⟩⟩, ?_⟩
        intro k hk htag
        exact absurd htag (hall k hk)
  | some j =>
      obtain ⟨-, htag, hbefore⟩ := tagIndex_some h hindex
      simp only [Option.map_some, reduceCtorEq, false_and, or_false]
      constructor
      · rintro ⟨⟨k, hk, hk', hin, hmatch, hfirst, -⟩, haligned⟩
        obtain ⟨m, rfl⟩ := haligned k hk hmatch hfirst
        -- the first bytes that are the tag are the first entry that has it
        have hle : 16 * m ≤ 16 * j := by
          by_contra hgt
          exact hfirst (16 * j) (by omega) htag
        have hge : j ≤ m := by
          by_contra hlt
          exact hbefore m (by omega) hmatch
        obtain rfl : m = j := by omega
        exact ⟨hk, hk', hin, hfirst⟩
      · rintro ⟨hk, hk', hin, hfirst⟩
        refine ⟨⟨16 * j, hk, hk', hin, htag, hfirst, rfl⟩, ?_⟩
        intro k _ hmatch hfirst'
        have hsame : k = 16 * j := by
          rcases Nat.lt_trichotomy k (16 * j) with hlt | heq | hgt
          · exact absurd hmatch (hfirst k hlt)
          · exact heq
          · exact absurd htag (hfirst' (16 * j) hgt)
        exact ⟨j, hsame⟩

theorem range_succ_min (hnum : 0 < dynNum dynamic) :
    List.range (min (dynNum dynamic) (2 ^ 32))
      = 0 :: List.range' 1 (min (dynNum dynamic) (2 ^ 32) - 1) := by
  have hpos : 0 < min (dynNum dynamic) (2 ^ 32) := Nat.lt_min.mpr ⟨hnum, by decide⟩
  rw [List.range_eq_range', ← Nat.succ_pred_eq_of_pos hpos, List.range'_succ]
  rfl

/-- The first entry is the tag. -/
theorem searchesEntries_head (h : DynamicSegment dynamic) (hnum : 0 < dynNum dynamic)
    (hin : 16 < dynamic.memsize.toNat) (htag : (dynAt dynamic 0).dTag = tag) :
    SearchesEntries dynamic tag ↔ tag ≠ DT_NULL := by
  have hoffsets : dynamicOffsets dynamic tag = [0] := by
    rw [dynamicOffsets, range_succ_min hnum,
      trace_match (dynRead_ok h (by decide) (by omega)) htag]
  have haligned : EndsAligned dynamic tag := by
    intro k _ _ hfirst
    obtain rfl : k = 0 := by
      by_contra hne
      exact hfirst 0 (Nat.pos_of_ne_zero hne) htag
    exact Nat.dvd_zero 16
  have hfinds : Finds dynamic tag ↔ Reached dynamic tag := by
    rw [← finds_iff h, and_iff_left haligned]
  have hall : ∀ p ∈ dynamicOffsets dynamic tag, 16 ∣ p := by
    rw [hoffsets]
    simp
  rw [SearchesEntries, and_iff_left hall, hfinds, Reached]
  by_cases hne : tag = DT_NULL
  · subst hne
    rw [tagIndex_null h]
    refine iff_of_false (fun hc => hc.2.2 0 hnum htag) fun hc => hc rfl
  · rw [tagIndex_head h htag hne]
    exact iff_of_true ⟨hnum, by decide, hin, fun p hp => absurd hp (Nat.not_lt_zero p)⟩ hne

/-- It is not: then there is no other entry to look at. -/
theorem searchesEntries_tail (h : DynamicSegment dynamic) (hnum : 0 < dynNum dynamic)
    (hin : 16 < dynamic.memsize.toNat) (htag : (dynAt dynamic 0).dTag ≠ tag) :
    SearchesEntries dynamic tag ↔ dynNum dynamic = 1 := by
  have hread := dynRead_ok h (i := 0) (by decide) (by omega)
  have hstep := fun is => @trace_step _ tag 0 is hread htag
  constructor
  · rintro ⟨hfinds, hall⟩
    by_contra hne
    have hok := (dynamicLookupTag_eq_ok.mp hfinds).1
    have hmore : 2 ≤ min (dynNum dynamic) (2 ^ 32) := Nat.le_min.mpr ⟨by omega, by decide⟩
    obtain ⟨m, hm⟩ : ∃ m, min (dynNum dynamic) (2 ^ 32) - 1 = m + 1 :=
      Nat.exists_eq_succ_of_ne_zero (by omega)
    rw [range_succ_min hnum, hm, List.range'_succ, hstep] at hok
    rw [dynamicOffsets, range_succ_min hnum, hm, List.range'_succ, hstep, List.forall_mem_cons]
      at hall
    by_cases hin' : 17 < dynamic.memsize.toNat
    · -- the bytes from offset 1 on are looked at
      have hread' := dynRead_ok h (i := 1) (by decide) (by omega)
      have hone : 1 ∈ (dynamicLookupTrace dynamic tag (1 :: List.range' 2 m)).1 := by
        by_cases htag' : (dynAt dynamic 1).dTag = tag
        · rw [trace_match hread' htag']
          exact List.mem_singleton_self 1
        · rw [trace_step hread' htag']
          exact List.mem_cons_self
      exact absurd (hall.2 1 hone) (by decide)
    · exact trace_ne_ok h (by decide) (by omega) _ hok
  · intro hone
    have hoffsets : dynamicOffsets dynamic tag = [0] := by
      rw [dynamicOffsets, hone]
      show (dynamicLookupTrace dynamic tag [0]).1 = [0]
      rw [hstep]
      rfl
    have hreached : Reached dynamic tag := by
      rw [Reached, (tagIndex_single h hone).1, hone]
      refine ⟨by decide, by omega, fun p hp => ?_⟩
      obtain rfl : p = 0 := by omega
      exact htag
    refine ⟨((finds_iff h).mpr hreached).1, ?_⟩
    rw [hoffsets]
    simp

/-- The first entry has the tag, or it is the only one and has none. -/
theorem searchesEntries_iff (h : DynamicSegment dynamic) :
    SearchesEntries dynamic tag ↔ tag ≠ DT_NULL ∧ 16 < dynamic.memsize.toNat ∧
      ((dynAt dynamic 0).dTag = tag ∨ dynNum dynamic = 1) := by
  have hnum : 0 < dynNum dynamic := by
    obtain ⟨j, hj, -⟩ := h.ended
    omega
  by_cases hin : 16 < dynamic.memsize.toNat
  · by_cases htag : (dynAt dynamic 0).dTag = tag
    · simp [searchesEntries_head h hnum hin htag, hin, htag]
    · have hne : dynNum dynamic = 1 → tag ≠ DT_NULL := by
        rintro hone rfl
        exact htag (@tagIndex_single _ DT_NULL h hone).2
      rw [searchesEntries_tail h hnum hin htag, or_iff_right htag, and_iff_right hin]
      exact ⟨fun hone => ⟨hne hone, hone⟩, fun hc => hc.2⟩
  · refine iff_of_false ?_ fun hc => hin hc.2.1
    rintro ⟨hfinds, -⟩
    have hok := (dynamicLookupTag_eq_ok.mp hfinds).1
    rw [range_succ_min hnum] at hok
    exact trace_ne_ok h (by decide) (by omega) _ hok

/-- **Looking up a tag** takes nothing but entries for entries only if the first one is it, or if
there is no other. The result is right, through the bytes of an entry, exactly if these are the
first bytes of all that are the tag, and the search reaches them. -/
theorem dynamicLookupTag_searches_iff (h : DynamicSegment dynamic) :
    (SearchesEntries dynamic tag ↔ tag ≠ DT_NULL ∧ 16 < dynamic.memsize.toNat ∧
      ((dynAt dynamic 0).dTag = tag ∨ dynNum dynamic = 1)) ∧
    (Finds dynamic tag ∧ EndsAligned dynamic tag ↔ Reached dynamic tag) :=
  ⟨searchesEntries_iff h, finds_iff h⟩

end

/-- A dynamic segment of these bytes, all of them in the file. -/
def dynamicOf (bytes : List UInt8) : Segment :=
  ⟨0x3000, UInt64.ofNat bytes.length, 8, 6, UInt64.ofNat bytes.length,
    ⟨"segment at offset 0x3000", bytes, UInt64.ofNat bytes.length⟩⟩

/-- A table of `DT_RELA` and `DT_NULL`, with nothing else. -/
def relaAndNull : Segment :=
  dynamicOf ([7, 0, 0, 0, 0, 0, 0, 0, 0x40, 0, 0, 0, 0, 0, 0, 0] ++ List.replicate 16 0)

/-- The same table with `DT_STRTAB` in front, so that the entry that is sought is the second one. -/
def strtabRelaAndNull : Segment :=
  dynamicOf ([5, 0, 0, 0, 0, 0, 0, 0, 0x20, 0, 0, 0, 0, 0, 0, 0] ++ relaAndNull.data.rawData)

theorem dynamicLookupTag_searches_iff_rela :
    SearchesEntries relaAndNull DT_RELA :=
  (dynamicLookupTag_searches_iff ⟨by decide, by decide, by decide, ⟨1, by decide, by decide⟩⟩).1.mpr
    ⟨by decide, by decide, Or.inl (by decide)⟩

/-- A second entry is not found: the loop ends before it has stepped over the first. -/
theorem second_entry_not_found :
    DynamicSegment strtabRelaAndNull ∧ tagValue strtabRelaAndNull DT_RELA = some 0x40 ∧
      dynamicLookupTag strtabRelaAndNull DT_RELA = .ok none ∧
      ¬ SearchesEntries strtabRelaAndNull DT_RELA := by
  have hvalue : tagValue strtabRelaAndNull DT_RELA = some 0x40 := by decide
  have hlookup : dynamicLookupTag strtabRelaAndNull DT_RELA = .ok none := by decide
  refine ⟨⟨by decide, by decide, by decide, ⟨2, by decide, by decide⟩⟩, hvalue, hlookup, ?_⟩
  rintro ⟨hfinds, -⟩
  rw [Finds, hvalue, hlookup] at hfinds
  cases hfinds

end LoliLoader.Elf2Efi
