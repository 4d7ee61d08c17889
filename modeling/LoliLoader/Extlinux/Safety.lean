/-
# LoliLoader.Extlinux.Safety -- the parser stays inside the text

Every dereference of the parser is checked, so that it returns at all says that every read was at or
before the terminator. Here that is shown for keys of any bytes, at any pointer that a caller can
have, along with the place of the value it returns.

A configuration comes from a file, and a key from the program. So neither is restricted: the buffer
has any bytes with a terminator among them, and what stands behind the first one is never read. A
`Pointer` is the start of the configuration, or an entry that was found from a pointer.

The lemmas are weaker than those of `Extlinux.Lookup` about what is found, and stronger about where:
they need no lines and no words, only that a match leaves a text which starts with a character of a
value (`StartsValue`). That is what makes trimming the blanks at the end of a value stop in time.

That the functions return is meant strictly. They are total, and none of their loops can go on for
ever.
-/
import LoliLoader.C.String
import LoliLoader.Extlinux.Lookup

namespace LoliLoader.Extlinux

open C Text

variable {s key : CString} {p : Nat} {r : List UInt8}

/-! ## Lines -/

theorem skipSpace_inside (hp : p ≤ s.length) : ∃ q, skipSpace s p = .ok q ∧ q ≤ s.length := by
  have hat := CString.At.of_le hp
  exact ⟨_, skipSpace_at hat, (At.skip hat).le⟩

/-- The next line starts behind the pointer, and not at the terminator. -/
theorem nextLine_inside (hp : p ≤ s.length) :
    ∃ q, nextLine s p = .ok q ∧ ∀ x ∈ q, p < x ∧ x ≤ s.length := by
  obtain ⟨l, t, -, hline⟩ := exists_lineAt (CString.At.of_le hp)
  rcases hline.tail with rfl | ⟨t, rfl⟩
  · exact ⟨none, hline.nextLine_last, by simp⟩
  · refine ⟨_, hline.nextLine_line, ?_⟩
    intro x hx
    split at hx
    · cases hx
    · obtain rfl := Option.some.inj hx
      exact ⟨by omega, hline.at_.append.tail.le⟩

/-! ## Values -/

theorem resyncText_suffix (r key : List UInt8) : (resyncText r key).1 <:+ r := by
  unfold resyncText
  split
  · exact List.dropWhile_suffix _
  · exact List.suffix_refl r

/-- A text that starts with a character of a value. -/
def StartsValue (v : List UInt8) : Prop :=
  ∃ c v', v = c :: v' ∧ isBlank c = false ∧ c ≠ newline

theorem valueOf_startsValue {v : List UInt8} (h : valueOf r = some v) :
    v <:+ r ∧ StartsValue v := by
  rw [valueOf] at h
  split at h
  · cases hr : r.dropWhile isBlank with
    | nil =>
        rw [hr] at h
        cases h
    | cons c v' =>
        have hplain := startsBlank_dropWhile r
        rw [hr] at h hplain
        simp only at h
        split at h
        · cases h
        · rename_i hc
          obtain rfl := Option.some.inj h
          exact ⟨hr ▸ List.dropWhile_suffix _, c, v', rfl, hplain, hc⟩
  · cases h

/-- Whatever the key, a match leaves a value at the end of the text. -/
theorem matchText_startsValue {k v : List UInt8} (h : matchText r k = some v) :
    v <:+ r ∧ StartsValue v := by
  fun_induction matchText r k with
  | case1 r => exact valueOf_startsValue h
  | case2 d k => cases h
  | case3 r c k ih =>
      have hv := ih h
      refine ⟨?_, hv.2⟩
      exact (hv.1.trans (resyncText_suffix r k)).trans (List.suffix_cons c r)
  | case4 => cases h

/-- Where a value starts, its length without trailing blanks is positive and ends inside the
text. -/
theorem valueAt_inside (h : s.At p r) (hv : StartsValue r) :
    ∃ len, valueAt s p = .ok (p, len) ∧ p + len ≤ s.length ∧ 1 ≤ len := by
  obtain ⟨l, t, rfl, hline⟩ := exists_lineAt h
  obtain ⟨c, v', hcons, hplain, hc⟩ := hv
  refine ⟨_, valueAt_line hline, ?_, ?_⟩
  · have hle := (List.rdropWhile_prefix isBlank l).length_le
    have hend := hline.at_.append.le
    omega
  · -- the line has the first character of the value in it, which is not trimmed
    have hmem : c ∈ l := by
      cases l with
      | nil =>
          rcases hline.tail with rfl | ⟨t', rfl⟩
          · cases hcons
          · exact absurd (List.cons.inj hcons).1.symm hc
      | cons d l => exact (List.cons.inj hcons).1 ▸ List.mem_cons_self
    apply List.length_pos_iff.mpr
    intro hnil
    have hblank := List.rdropWhile_eq_nil_iff.mp hnil c hmem
    rw [hplain] at hblank
    cases hblank

/-- Where `match_key` finds a value, and what is read from there on. -/
theorem matchKey_inside (key : CString) (hp : p ≤ s.length) :
    ∃ v, matchKey s key p = .ok v ∧ ∀ x ∈ v, ∃ len, valueAt s x = .ok (x, len) ∧
      x + len ≤ s.length ∧ 1 ≤ len := by
  have hat := CString.At.of_le hp
  refine ⟨_, matchKey_at hat, ?_⟩
  intro x hx
  obtain ⟨v, hv, rfl⟩ := Option.map_eq_some_iff.mp hx
  obtain ⟨⟨pre, hpre⟩, hstarts⟩ := matchText_startsValue hv
  apply valueAt_inside _ hstarts
  rw [← hpre] at hat
  have hlen := hat.length_eq
  have hpos : s.length - v.length = p + pre.length := by
    rw [List.length_append] at hlen
    omega
  exact hpos ▸ hat.append

/-! ## The loops -/

theorem nextEntryLoop_inside (hp : p ≤ s.length) :
    ∃ q, nextEntryLoop s (some p) = .ok q ∧ ∀ x ∈ q, x ≤ s.length := by
  refine ⟨_, nextEntryLoop_at (CString.At.of_le hp), ?_⟩
  intro x hx
  obtain ⟨l, hl, rfl⟩ := Option.map_eq_some_iff.mp hx
  have hend := end_le_of_mem_linesFrom (List.mem_of_find?_eq_some hl)
  have hle := firstPlain_le l
  have hdrop := (CString.At.of_le hp).length_eq
  omega

/-- The loop of `extlinux_get_value` ends, and its value is inside the text. -/
theorem getValueLoop_inside (key : CString) (getLabel : Bool) (hp : p ≤ s.length) :
    ∃ v, getValueLoop s key getLabel (some p) = .ok v ∧
      ∀ x ∈ v, x.1 + x.2 ≤ s.length ∧ 1 ≤ x.2 := by
  -- every turn of the loop starts behind the last one
  induction hn : s.length - p using Nat.strongRecOn generalizing p with
  | _ n ih =>
    obtain ⟨p', hskip, hp'⟩ := skipSpace_inside hp
    have hle := le_of_skipSpace hskip
    obtain ⟨label, hlabel, -⟩ := matchKey_inside labelKey hp'
    obtain ⟨v, hv, hvalue⟩ := matchKey_inside key hp'
    obtain ⟨q, hq, hnext⟩ := nextLine_inside hp'
    rw [getValueLoop_some hskip (deref_at (CString.At.of_le hp'))]
    split
    · exact ⟨none, rfl, by simp⟩
    rw [hlabel]
    simp only [bind, Except.bind]
    split
    · exact ⟨none, rfl, by simp⟩
    rw [hv]
    cases v with
    | some x =>
        obtain ⟨len, hat, hlen⟩ := hvalue x rfl
        refine ⟨some (x, len), by simp [hat], ?_⟩
        intro y hy
        obtain rfl := Option.some.inj hy
        exact hlen
    | none =>
        rw [hq]
        cases q with
        | none => exact ⟨none, by simp [getValueLoop], by simp⟩
        | some q =>
            have hlt := hnext q rfl
            exact ih (s.length - q) (by omega) hlt.2 rfl

/-! ## The functions -/

/-- The pointers into a configuration that a caller can have: its start, and what the library has
returned for such pointers. -/
inductive Pointer (cfg : CString) : Nat → Prop
  | start : Pointer cfg 0
  | entry {conf last : Option Nat} {q : Nat} :
      (∀ p ∈ conf, Pointer cfg p) → (∀ p ∈ last, Pointer cfg p) →
      extlinuxNextEntry cfg conf last = .ok (some q) → Pointer cfg q

theorem extlinuxNextEntry_inside {conf last : Option Nat} (hconf : ∀ p ∈ conf, p ≤ s.length)
    (hlast : ∀ p ∈ last, p ≤ s.length) :
    ∃ q, extlinuxNextEntry s conf last = .ok q ∧ ∀ x ∈ q, x ≤ s.length := by
  have hloop : ∀ p : Option Nat, (∀ x ∈ p, x ≤ s.length) →
      ∃ q, nextEntryLoop s p = .ok q ∧ ∀ x ∈ q, x ≤ s.length := by
    intro p hp
    cases p with
    | none => exact ⟨none, by simp [nextEntryLoop], by simp⟩
    | some p => exact nextEntryLoop_inside (hp p rfl)
  cases last with
  | none => exact hloop conf hconf
  | some last =>
      obtain ⟨q, hq, hnext⟩ := nextLine_inside (hlast last rfl)
      simp only [extlinuxNextEntry, hq, bind, Except.bind]
      exact hloop q fun x hx => (hnext x hx).2

theorem Pointer.le (hp : Pointer s p) : p ≤ s.length := by
  induction hp with
  | start => exact Nat.zero_le _
  | entry _ _ hcall hconf hlast =>
      obtain ⟨q, hq, hle⟩ := extlinuxNextEntry_inside hconf hlast
      rw [hcall] at hq
      exact hle _ (Except.ok.inj hq).symm

theorem extlinuxGetValue_inside (key : CString) (hp : p ≤ s.length) :
    ∃ v, extlinuxGetValue s p key = .ok v ∧ ∀ x ∈ v, x.1 + x.2 ≤ s.length ∧ 1 ≤ x.2 := by
  obtain ⟨label, hlabel, -⟩ := matchKey_inside labelKey hp
  obtain ⟨q, hq, hnext⟩ := nextLine_inside hp
  rw [extlinuxGetValue, readsAs_at (by decide) (CString.At.zero key)]
  simp only [hlabel, hq, bind, Except.bind]
  split
  · split
    · cases q with
      | none => exact ⟨none, by simp [getValueLoop], by simp⟩
      | some q => exact getValueLoop_inside key _ (hnext q rfl).2
    · exact getValueLoop_inside key _ hp
  · exact getValueLoop_inside key _ hp

/-- The first NUL of the buffer is at index `n`; what is behind that may be anything. -/
def FirstNul (buf : List UInt8) (n : Nat) : Prop :=
  buf[n]? = some 0 ∧ ∀ i < n, buf[i]? ≠ some 0

theorem FirstNul.mem_ofBuffer {buf : List UInt8} {n : Nat} (h : FirstNul buf n) :
    (CString.ofBuffer buf).mem = buf.take (n + 1) := by
  obtain ⟨hn, hbefore⟩ := h
  obtain ⟨hlt, hnul⟩ := List.getElem?_eq_some_iff.mp hn
  have hfront : ∀ c ∈ buf.take n, decide (c ≠ 0) = true := by
    intro c hc
    obtain ⟨i, hi, rfl⟩ := List.mem_take_iff_getElem.mp hc
    have hi' := hbefore i (by omega)
    rw [List.getElem?_eq_getElem (by omega)] at hi'
    simpa using hi'
  have hsplit : buf = buf.take n ++ 0 :: buf.drop (n + 1) := by
    rw [← hnul, ← List.drop_eq_getElem_cons hlt, List.take_append_drop]
  have hbytes : (CString.ofBuffer buf).bytes = buf.take n := by
    show buf.takeWhile (fun c => decide (c ≠ 0)) = buf.take n
    conv_lhs => rw [hsplit]
    rw [List.takeWhile_append_of_pos hfront, List.takeWhile_cons_of_neg (by simp),
      List.append_nil]
  rw [CString.mem, hbytes, List.take_succ_eq_append_getElem hlt, hnul]

theorem FirstNul.length_ofBuffer {buf : List UInt8} {n : Nat} (h : FirstNul buf n) :
    (CString.ofBuffer buf).length = n := by
  have hmem := congrArg List.length h.mem_ofBuffer
  have hlt := (List.getElem?_eq_some_iff.mp h.1).1
  rw [CString.mem, List.length_append, List.length_singleton, List.length_take] at hmem
  rw [CString.length]
  omega

/-- **The parser stays inside the text.** On a buffer whose first NUL is at `n`, from every
pointer a caller can have, both functions return, having read at indices up to `n` only, and
a value is not empty and ends at or before `n`. -/
theorem parser_stays_inside {buf : List UInt8} {n : Nat} (hbuf : FirstNul buf n) :
    (CString.ofBuffer buf).mem = buf.take (n + 1) ∧
    (∀ conf last : Option Nat, (∀ p ∈ conf, Pointer (CString.ofBuffer buf) p) →
      (∀ p ∈ last, Pointer (CString.ofBuffer buf) p) →
      ∃ q, extlinuxNextEntry (CString.ofBuffer buf) conf last = .ok q) ∧
    ∀ p, Pointer (CString.ofBuffer buf) p → ∀ key : CString,
      ∃ v, extlinuxGetValue (CString.ofBuffer buf) p key = .ok v ∧
        ∀ value valuelen, v = some (value, valuelen) → value + valuelen ≤ n ∧ 1 ≤ valuelen := by
  refine ⟨hbuf.mem_ofBuffer, ?_, ?_⟩
  · intro conf last hconf hlast
    obtain ⟨q, hq, -⟩ := extlinuxNextEntry_inside (fun p hp => (hconf p hp).le)
      (fun p hp => (hlast p hp).le)
    exact ⟨q, hq⟩
  · intro p hp key
    obtain ⟨v, hv, hin⟩ := extlinuxGetValue_inside key hp.le
    refine ⟨v, hv, ?_⟩
    rintro value valuelen rfl
    have hle := hin _ rfl
    rwa [hbuf.length_ofBuffer] at hle

theorem parser_stays_inside_label :
    (CString.ofBuffer (ascii "label a" ++ [0, 7])).mem
        = (ascii "label a" ++ [0, 7]).take 8 ∧
    (∀ conf last : Option Nat,
      (∀ p ∈ conf, Pointer (CString.ofBuffer (ascii "label a" ++ [0, 7])) p) →
      (∀ p ∈ last, Pointer (CString.ofBuffer (ascii "label a" ++ [0, 7])) p) →
      ∃ q, extlinuxNextEntry (CString.ofBuffer (ascii "label a" ++ [0, 7])) conf last = .ok q) ∧
    ∀ p, Pointer (CString.ofBuffer (ascii "label a" ++ [0, 7])) p → ∀ key : CString,
      ∃ v, extlinuxGetValue (CString.ofBuffer (ascii "label a" ++ [0, 7])) p key = .ok v ∧
        ∀ value valuelen, v = some (value, valuelen) → value + valuelen ≤ 7 ∧ 1 ≤ valuelen :=
  parser_stays_inside ⟨by decide, by decide⟩

end LoliLoader.Extlinux
