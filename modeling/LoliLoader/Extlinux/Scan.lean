/-
# LoliLoader.Extlinux.Scan -- the scanner in terms of the text behind a pointer

Each function of the parser is described by the text `r` from its pointer on (`s.At p r`): where it
stops, and that it reads nothing outside the string. The key matcher becomes `matchText`, a function
of two texts.

This is the layer at which offsets disappear. A scanner that stops at the end of a line is described
twice, for the last line and for one with a newline behind it; `LineBreak` stands for both where it
makes no difference.

`matchKeyLoop_at` joins the loop of `match_key` with what the function does when the loop has ended.
The two cannot be described one by one in a useful way, because the loop also ends at a character
that differs, and whether the key is at its end there is looked at afterwards.

`resyncText` skips the blanks of both texts at once, and it is what lets a caller spell the gaps of
a key as it likes.
-/
import LoliLoader.Extlinux.Reference

namespace LoliLoader.Extlinux

open C

variable {s key : CString} {p k : Nat} {c : UInt8} {r t : List UInt8}

/-! ## White space -/

theorem isBlank_newline : isBlank newline = false := by decide

theorem isSpace_cons (h : s.At p (c :: r)) : isSpace s p = .ok (isBlank c) := by
  simp [isSpace, h.deref_cons, isBlank, bind, Except.bind, pure, Except.pure]

theorem isSpace_nil (h : s.At p []) : isSpace s p = .ok false := by
  simp [isSpace, h.deref_nil, bind, Except.bind, pure, Except.pure]
  decide

/-- Does a text start with a blank? At its end it does not. -/
def startsBlank : List UInt8 → Bool
  | [] => false
  | c :: _ => isBlank c

theorem isSpace_at (h : s.At p r) : isSpace s p = .ok (startsBlank r) := by
  cases r with
  | nil => exact isSpace_nil h
  | cons c r => exact isSpace_cons h

theorem At.skip (h : s.At p r) :
    s.At (p + (r.takeWhile isBlank).length) (r.dropWhile isBlank) := by
  rw [← List.takeWhile_append_dropWhile (p := isBlank) (l := r)] at h
  exact h.append

theorem skipSpace_at (h : s.At p r) : skipSpace s p = .ok (p + (r.takeWhile isBlank).length) := by
  induction r generalizing p with
  | nil =>
      rw [skipSpace]
      split
      all_goals rename_i he
      all_goals rw [isSpace_nil h] at he
      all_goals simp_all
  | cons c r ih =>
      rw [skipSpace]
      split
      all_goals rename_i he
      all_goals rw [isSpace_cons h] at he
      · simp at he
      · simp_all
      · rw [ih h.tail, List.takeWhile_cons_of_pos (by simpa using he), List.length_cons]
        congr 1
        omega

/-- The position where the blanks at the front of `r` end, counted from the end of the string. -/
theorem skipSpace_eq_sub (h : s.At p r) :
    skipSpace s p = .ok (s.length - (r.dropWhile isBlank).length) := by
  have hlen := (At.skip h).length_eq
  rw [skipSpace_at h]
  congr 1
  omega

/-! ## Lines -/

/-- `t` is what can follow a line: nothing, or a newline and more text. -/
def LineBreak (t : List UInt8) : Prop := t = [] ∨ ∃ t', t = newline :: t'

theorem LineBreak.startsBlank {t : List UInt8} (h : LineBreak t) : startsBlank t = false := by
  rcases h with rfl | ⟨t', rfl⟩
  · rfl
  · exact isBlank_newline

theorem lineEnd_at {l : List UInt8} (h : s.At p (l ++ t)) (hl : newline ∉ l) (ht : LineBreak t) :
    lineEnd s p = .ok (p + l.length) := by
  induction l generalizing p with
  | nil =>
      rw [lineEnd]
      rcases ht with rfl | ⟨t', rfl⟩
      · have hd : s.deref p = .ok 0 := h.deref_nil
        split
        all_goals simp_all
      · have hd : s.deref p = .ok newline := h.deref_cons
        split
        all_goals simp_all
  | cons c l ih =>
      have hd : s.deref p = .ok c := h.deref_cons
      have hc : ¬ (c = newline ∨ c = 0) := by
        rintro (rfl | rfl)
        · exact hl List.mem_cons_self
        · exact h.ne_nul rfl
      rw [lineEnd]
      split
      all_goals rename_i he
      all_goals rw [hd] at he
      · simp at he
      · obtain rfl := Except.ok.inj he
        rw [if_neg hc, ih h.tail (fun hm => hl (List.mem_cons_of_mem _ hm)), List.length_cons]
        congr 1
        omega

/-- On the last line there is no next line. -/
theorem nextLine_last {l : List UInt8} (h : s.At p l) (hl : newline ∉ l) :
    nextLine s p = .ok none := by
  have h' : s.At p (l ++ []) := by simpa using h
  have he := lineEnd_at h' hl (Or.inl rfl)
  have hd : s.deref (p + l.length) = .ok 0 := h'.append.deref_nil
  simp [nextLine, he, hd, bind, Except.bind, pure, Except.pure]

/-- Behind a newline the next line starts, unless the text ends there. -/
theorem nextLine_line {l : List UInt8} (h : s.At p (l ++ newline :: t)) (hl : newline ∉ l) :
    nextLine s p = .ok (if t = [] then none else some (p + l.length + 1)) := by
  have he := lineEnd_at h hl (Or.inr ⟨t, rfl⟩)
  have hd : s.deref (p + l.length) = .ok newline := h.append.deref_cons
  have ht : s.At (p + l.length + 1) t := h.append.tail
  have hn : newline ≠ 0 := by decide
  cases t with
  | nil => simp [nextLine, he, hd, hn, ht.deref_nil, bind, Except.bind, pure, Except.pure]
  | cons c t =>
      simp [nextLine, he, hd, hn, ht.deref_cons, ht.ne_nul, bind, Except.bind, pure, Except.pure]

/-! ## Keys -/

/-- The value that follows a key, in the text behind the key. -/
def valueOf (r : List UInt8) : Option (List UInt8) :=
  if startsBlank r then
    match r.dropWhile isBlank with
    | [] => none
    | c :: v => if c = newline then none else some (c :: v)
  else none

/-- `resync` on texts: the blanks of both are skipped if both start with one, and else nothing
is. -/
def resyncText (r key : List UInt8) : List UInt8 × List UInt8 :=
  if startsBlank key && startsBlank r then (r.dropWhile isBlank, key.dropWhile isBlank)
  else (r, key)

theorem length_resyncText_le (r key : List UInt8) : (resyncText r key).2.length ≤ key.length := by
  unfold resyncText
  split
  · exact (List.dropWhile_suffix _).length_le
  · exact Nat.le_refl _

/-- `match_key` on texts: the text from the value on. -/
def matchText : List UInt8 → List UInt8 → Option (List UInt8)
  | r, [] => valueOf r
  | [], _ :: _ => none
  | c :: r, d :: key =>
    if c = d then matchText (resyncText r key).1 (resyncText r key).2 else none
termination_by _ key => key.length
decreasing_by
  exact Nat.lt_succ_of_le (length_resyncText_le r key)

theorem resync_at {kr : List UInt8} (h : s.At p r) (hk : key.At k kr) :
    ∃ p' k', resync s key p k = .ok (p', k') ∧
      s.At p' (resyncText r kr).1 ∧ key.At k' (resyncText r kr).2 := by
  by_cases hkr : startsBlank kr = true
  · by_cases hr : startsBlank r = true
    · refine ⟨p + (r.takeWhile isBlank).length, k + (kr.takeWhile isBlank).length, ?_, ?_, ?_⟩
      · simp only [resync, isSpace_at hk, isSpace_at h, hkr, hr, skipSpace_at h, skipSpace_at hk,
          bind, Except.bind, pure, Except.pure, if_true]
      · simpa [resyncText, hkr, hr] using At.skip h
      · simpa [resyncText, hkr, hr] using At.skip hk
    · refine ⟨p, k, ?_, ?_, ?_⟩
      · simp [resync, isSpace_at hk, isSpace_at h, hkr, hr, bind, Except.bind, pure, Except.pure]
      · simpa [resyncText, hkr, hr] using h
      · simpa [resyncText, hkr, hr] using hk
  · refine ⟨p, k, ?_, ?_, ?_⟩
    · simp [resync, isSpace_at hk, hkr, bind, Except.bind, pure, Except.pure]
    · simpa [resyncText, hkr] using h
    · simpa [resyncText, hkr] using hk

theorem matchKeyEnd_nil (h : s.At p r) (hk : key.At k []) :
    matchKeyEnd s key p k = .ok ((valueOf r).map fun v => s.length - v.length) := by
  have hskip := skipSpace_eq_sub h
  have hv := At.skip h
  by_cases hb : startsBlank r = true
  · have hpos : skipSpace s p = .ok (p + (r.takeWhile isBlank).length) := skipSpace_at h
    -- neither the end of the text nor that of the line starts a value
    cases hr : r.dropWhile isBlank with
    | nil =>
        rw [hr] at hv
        simp [matchKeyEnd, hk.deref_nil, isSpace_at h, hb, hpos, hv.deref_nil, valueOf, hr,
          bind, Except.bind, pure, Except.pure]
    | cons c v =>
        rw [hr] at hv
        have hlen := hv.length_eq
        have hsub : s.length - (v.length + 1) = p + (r.takeWhile isBlank).length := by
          simp only [List.length_cons] at hlen
          omega
        by_cases hc : c = newline
        · simp [matchKeyEnd, hk.deref_nil, isSpace_at h, hb, hpos, hv.deref_cons, valueOf, hr, hc,
            bind, Except.bind, pure, Except.pure]
        · simp [matchKeyEnd, hk.deref_nil, isSpace_at h, hb, hpos, hv.deref_cons, valueOf, hr, hc,
            hv.ne_nul, hsub, bind, Except.bind, pure, Except.pure]
  · simp [matchKeyEnd, hk.deref_nil, isSpace_at h, hb, valueOf, bind, Except.bind, pure,
      Except.pure]

theorem matchKeyEnd_cons {d : UInt8} {kr : List UInt8} (hk : key.At k (d :: kr)) :
    matchKeyEnd s key p k = .ok none := by
  simp [matchKeyEnd, hk.deref_cons, hk.ne_nul, bind, Except.bind, pure, Except.pure]

theorem matchKeyLoop_end {d : UInt8} (hp : s.deref p = .ok c) (hk : key.deref k = .ok d)
    (h0 : c = 0 ∨ d = 0) : matchKeyLoop s key p k = .ok (some (p, k)) := by
  rw [matchKeyLoop]
  split
  all_goals rename_i he
  all_goals rw [hp] at he
  · cases he
  · obtain rfl := Except.ok.inj he
    split
    · rfl
    · split
      all_goals rename_i hd
      all_goals rw [hk] at hd
      · cases hd
      · obtain rfl := Except.ok.inj hd
        rw [if_pos (by tauto)]

theorem matchKeyLoop_step {d : UInt8} (hp : s.deref p = .ok c) (hk : key.deref k = .ok d)
    (hc : c ≠ 0) (hd : d ≠ 0) :
    matchKeyLoop s key p k = if c = d then (do
      let (p, k) ← resync s key (p + 1) (k + 1)
      matchKeyLoop s key p k) else .ok none := by
  rw [matchKeyLoop]
  split
  all_goals rename_i he
  all_goals rw [hp] at he
  · cases he
  · obtain rfl := Except.ok.inj he
    rw [if_neg hc]
    split
    all_goals rename_i hd'
    all_goals rw [hk] at hd'
    · cases hd'
    · obtain rfl := Except.ok.inj hd'
      rw [if_neg hd]
      by_cases hcd : c = d
      · rw [if_neg (not_not_intro hcd), if_pos hcd]
        split
        all_goals rename_i hr
        all_goals simp [hr, bind, Except.bind]
      · rw [if_pos hcd, if_neg hcd]

/-- The loop of `match_key` and what follows it, together. -/
theorem matchKeyLoop_at {kr : List UInt8} (h : s.At p r) (hk : key.At k kr) :
    (matchKeyLoop s key p k >>= fun
      | none => .ok none
      | some (p, k) => matchKeyEnd s key p k)
      = .ok ((matchText r kr).map fun v => s.length - v.length) := by
  fun_induction matchText r kr generalizing p k with
  | case1 r =>
      -- the key is used up
      have hend : matchKeyLoop s key p k = .ok (some (p, k)) := by
        cases r with
        | nil => exact matchKeyLoop_end h.deref_nil hk.deref_nil (Or.inl rfl)
        | cons c r => exact matchKeyLoop_end h.deref_cons hk.deref_nil (Or.inr rfl)
      rw [hend]
      exact matchKeyEnd_nil h hk
  | case2 d kr =>
      -- the text is used up, the key is not
      rw [matchKeyLoop_end h.deref_nil hk.deref_cons (Or.inl rfl)]
      exact matchKeyEnd_cons hk
  | case3 c r kr ih =>
      obtain ⟨p', k', hres, hp', hk'⟩ := resync_at h.tail hk.tail
      rw [matchKeyLoop_step h.deref_cons hk.deref_cons h.ne_nul hk.ne_nul, if_pos rfl, hres]
      exact ih hp' hk'
  | case4 c r d kr hne =>
      rw [matchKeyLoop_step h.deref_cons hk.deref_cons h.ne_nul hk.ne_nul, if_neg hne]
      rfl

/-- `match_key` is `matchText` on the text behind the pointer. -/
theorem matchKey_at (h : s.At p r) :
    matchKey s key p = .ok ((matchText r key.bytes).map fun v => s.length - v.length) := by
  rw [← matchKeyLoop_at h (CString.At.zero key), matchKey]
  congr 1

end LoliLoader.Extlinux
