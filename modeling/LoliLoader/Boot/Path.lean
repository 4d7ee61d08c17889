/-
# LoliLoader.Boot.Path -- what fix_path makes of a path

The path is fixed in the memory it is in: one index reads ahead, another one writes behind it. The
written part is at each turn what the specification says of the part that was read, so the look back
at the last character written is a look at the last one of the result.

The specification is a list function, `fixedPath`: slashes become backslashes, and of each run of
backslashes one is kept. It is Mathlib's `destutter` for the relation that two characters may follow
each other, and adding a character at its end (`fixedPath_concat`) is just what a turn of the loop
does.

The invariant says what is written so far, that what is still to be read is as it was, and that the
index that writes is not ahead of the one that reads. The last part is why the loop may write where
it does.

`fixPath_spec` holds for every path with a terminator. The path may be empty, and it may have any
characters that 16 bits can hold.
-/
import LoliLoader.Boot.File
import Mathlib.Data.List.Destutter
import Mathlib.Logic.Relation

namespace LoliLoader.Boot

open C

/-! ## The specification -/

/-- Translate '/' to '\'; every other character stays. -/
def backslashed (c : UInt16) : UInt16 := if c = 47 then 92 else c

/-- Two characters that may follow each other in a fixed path. -/
def MayFollow (a b : UInt16) : Prop := ¬ (a = 92 ∧ b = 92)

instance : DecidableRel MayFollow := fun a b => inferInstanceAs (Decidable (¬ (a = 92 ∧ b = 92)))

/-- A path with backslashes only, and one for each run of them. -/
def fixedPath (s : List UInt16) : List UInt16 := (s.map backslashed).destutter MayFollow

section

variable {α : Type} {R : α → α → Prop} [DecidableRel R]

theorem getLast?_destutter' (a : α) (l : List α) : ∃ b, (l.destutter' R a).getLast? = some b := by
  cases h : (l.destutter' R a).getLast? with
  | none => exact absurd (List.getLast?_eq_none_iff.mp h) (List.destutter'_ne_nil _ R)
  | some b => exact ⟨b, rfl⟩

/-- One more element is kept unless it must not follow the last one that was. -/
theorem destutter'_concat (a : α) (l : List α) {b : α} (hb : (l.destutter' R a).getLast? = some b)
    (c : α) : (l ++ [c]).destutter' R a =
      if R b c then l.destutter' R a ++ [c] else l.destutter' R a := by
  induction l generalizing a with
  | nil =>
      obtain rfl : a = b := by simpa using hb
      simp only [List.nil_append, List.destutter'_singleton, List.destutter'_nil]
      rfl
  | cons d l ih =>
      by_cases hd : R a d
      · rw [List.destutter'_cons_pos _ hd] at hb ⊢
        have hlast : (l.destutter' R d).getLast? = some b := by
          obtain ⟨e, he⟩ := getLast?_destutter' (R := R) d l
          rw [List.getLast?_cons, he] at hb
          rw [he]
          simpa using hb
        rw [List.cons_append, List.destutter'_cons_pos _ hd, ih d hlast]
        split <;> rfl
      · rw [List.destutter'_cons_neg _ hd] at hb ⊢
        rw [List.cons_append, List.destutter'_cons_neg _ hd, ih a hb]

theorem destutter_concat (l : List α) {b : α} (hb : (l.destutter R).getLast? = some b) (c : α) :
    (l ++ [c]).destutter R = if R b c then l.destutter R ++ [c] else l.destutter R := by
  cases l with
  | nil => cases hb
  | cons a l => exact destutter'_concat a l hb c

end

theorem fixedPath_concat (s : List UInt16) {b : UInt16} (hb : (fixedPath s).getLast? = some b)
    (c : UInt16) : fixedPath (s ++ [c]) =
      if b = 92 ∧ backslashed c = 92 then fixedPath s else fixedPath s ++ [backslashed c] := by
  rw [fixedPath, List.map_append, List.map_singleton, destutter_concat _ hb, ← fixedPath]
  by_cases h : b = 92 ∧ backslashed c = 92
  · rw [if_pos h, if_neg (show ¬ MayFollow b (backslashed c) from not_not_intro h)]
  · rw [if_neg h, if_pos (show MayFollow b (backslashed c) from h)]

theorem length_fixedPath_le (s : List UInt16) : (fixedPath s).length ≤ s.length := by
  have h := (List.destutter_sublist MayFollow (s.map backslashed)).length_le
  rwa [List.length_map] at h

theorem mem_fixedPath {s : List UInt16} {c : UInt16} (h : c ∈ fixedPath s) :
    ∃ d ∈ s, backslashed d = c :=
  List.mem_map.mp ((List.destutter_sublist MayFollow (s.map backslashed)).subset h)

theorem backslashed_idem (c : UInt16) : backslashed (backslashed c) = backslashed c := by
  by_cases h : c = 47
  · rw [backslashed, backslashed, if_pos h]
    rfl
  · rw [backslashed, backslashed, if_neg h, if_neg h]

theorem fixedPath_idem (s : List UInt16) : fixedPath (fixedPath s) = fixedPath s := by
  have hmap : (fixedPath s).map backslashed = (fixedPath s).map id := by
    apply List.map_congr_left
    intro c hc
    obtain ⟨d, -, rfl⟩ := mem_fixedPath hc
    exact backslashed_idem d
  rw [fixedPath, hmap, List.map_id]
  exact List.destutter_idem _ _

theorem backslashed_ne_zero {c : UInt16} (h : c ≠ 0) : backslashed c ≠ 0 := by
  rw [backslashed]
  split
  · simp
  · exact h

theorem zero_notMem_fixedPath {s : List UInt16} (h : 0 ∉ s) : 0 ∉ fixedPath s := by
  intro h0
  obtain ⟨d, hd, hzero⟩ := mem_fixedPath h0
  exact backslashed_ne_zero (fun hd0 => h (hd0 ▸ hd)) hzero

/-! ## The loop -/

/-- The variables of `fix_path`: the memory of the path, where the next character is written, and
where it is read. -/
structure FixPathState where
  path : List UInt16
  cur : Nat
  p : Nat

/-- One turn of the loop, unless the path ends here. -/
def fixPathStep (st : FixPathState) : Option FixPathState :=
  match st.path[st.p]? with
  | none => none
  | some c =>
    if c = 0 ∨ st.path.length ≤ st.cur then none
    else
      let path := st.path.set st.cur (backslashed c)
      if st.cur = 0 ∨ path[st.cur - 1]? ≠ some 92 ∨ path[st.cur]? ≠ some 92 then
        some ⟨path, st.cur + 1, st.p + 1⟩
      else
        some ⟨path, st.cur, st.p + 1⟩

/-- It is a turn of `fix_path`. -/
theorem fixPathLoop_step {st st' : FixPathState} (h : fixPathStep st = some st') :
    fixPathLoop st.path st.cur st.p = fixPathLoop st'.path st'.cur st'.p := by
  unfold fixPathStep at h
  split at h
  · cases h
  · rename_i c hc
    obtain ⟨hp, rfl⟩ := List.getElem?_eq_some_iff.mp hc
    split at h
    · cases h
    · rename_i hgo
      obtain ⟨hne, hcur⟩ := not_or.mp hgo
      rw [fixPathLoop, dif_pos hp]
      simp only [if_neg hcur, if_neg hne]
      dsimp only at h
      split at h
      · rename_i hnext
        obtain rfl := Option.some.inj h
        exact if_pos hnext
      · rename_i hstay
        obtain rfl := Option.some.inj h
        exact if_neg hstay

/-- The states at the head of the loop, reached by turns from the first one. -/
def FixPathReaches (path : List UInt16) (st : FixPathState) : Prop :=
  Relation.ReflTransGen (fun st st' => fixPathStep st = some st') ⟨path, 0, 0⟩ st

/-- The part of the path that is written is the fixed part that is read; the rest is as it was. -/
structure FixPathInv (path : List UInt16) (st : FixPathState) : Prop where
  cur_le : st.cur ≤ st.p
  p_le : st.p ≤ (wideString path).length
  length : st.path.length = path.length
  unread : st.path.drop st.p = path.drop st.p
  written : st.path.take st.cur = fixedPath ((wideString path).take st.p)

section

variable {path : List UInt16}

theorem zero_notMem_wideString (path : List UInt16) : 0 ∉ wideString path :=
  fun h => by simpa using List.mem_takeWhile_imp h

theorem wideString_append {s rest : List UInt16} (h : 0 ∉ s) : wideString (s ++ 0 :: rest) = s := by
  rw [wideString, List.takeWhile_append_of_pos]
  · simp
  · intro c hc
    rw [decide_eq_true_iff]
    rintro rfl
    exact h hc

theorem getElem?_of_drop_eq {α : Type} {l l' : List α} {p : Nat} (h : l.drop p = l'.drop p) :
    l[p]? = l'[p]? := by
  rw [← List.head?_drop, ← List.head?_drop, h]

/-- The look back: with `c` stored behind the fixed part of `r`, the index moves on exactly when
the fixed part of `r ++ [c]` is longer. -/
theorem take_lookBack {m r : List UInt16} {cur : Nat} {c : UInt16} (hcur : cur < m.length)
    (hc : m[cur]? = some (backslashed c)) (hr : m.take cur = fixedPath r) :
    m.take (if cur = 0 ∨ m[cur - 1]? ≠ some 92 ∨ m[cur]? ≠ some 92 then cur + 1 else cur) =
      fixedPath (r ++ [c]) := by
  have hmore : m.take (cur + 1) = fixedPath r ++ [backslashed c] := by
    rw [List.take_add_one, hc, hr]
    rfl
  by_cases hfirst : cur = 0
  · have hnil : r = [] := by
      rw [hfirst, List.take_zero] at hr
      simpa [fixedPath] using hr.symm
    rw [if_pos (Or.inl hfirst), hmore, hnil]
    rfl
  · obtain ⟨b, hb⟩ : ∃ b, m[cur - 1]? = some b :=
      ⟨_, List.getElem?_eq_getElem (by omega)⟩
    have hlast : (fixedPath r).getLast? = some b := by
      rw [← hr, List.getLast?_eq_getElem?, List.length_take, Nat.min_eq_left (by omega),
        List.getElem?_take_of_lt (by omega), hb]
    rw [fixedPath_concat r hlast, hb, hc]
    by_cases hboth : b = 92 ∧ backslashed c = 92
    · rw [if_pos hboth, if_neg (by simp [hfirst, hboth.1, hboth.2]), hr]
    · rw [if_neg hboth, if_pos (by simpa [hfirst, ← not_and_or] using hboth), hmore]

/-- **One turn** keeps the invariant, as long as there are characters to read, and reads one of
them. -/
theorem fixPathStep_ok (h0 : 0 ∈ path) {st : FixPathState} (h : FixPathInv path st)
    (hp : st.p < (wideString path).length) :
    ∃ st', fixPathStep st = some st' ∧ st'.p = st.p + 1 ∧ FixPathInv path st' := by
  obtain ⟨s, rest, rfl, hs⟩ := List.eq_append_cons_of_mem h0
  obtain ⟨hcur, -, hlength, hunread, hwritten⟩ := h
  rw [wideString_append hs] at hp hwritten
  have hc : st.path[st.p]? = some s[st.p] := by
    rw [getElem?_of_drop_eq hunread, List.getElem?_append_left hp, List.getElem?_eq_getElem hp]
  have hne : s[st.p] ≠ 0 := fun hz => hs (hz ▸ List.getElem_mem hp)
  have hlen : st.p < st.path.length := (List.getElem?_eq_some_iff.mp hc).1
  have hlook := @take_lookBack (st.path.set st.cur (backslashed s[st.p])) (s.take st.p) st.cur
    s[st.p] (by rw [List.length_set]; omega) (List.getElem?_set_self (by omega))
    (by rw [List.take_set_of_le (le_refl _), hwritten])
  rw [← List.take_succ_eq_append_getElem hp] at hlook
  -- the character is stored where nothing is to be read any more
  have hunread' : (st.path.set st.cur (backslashed s[st.p])).drop (st.p + 1) =
      (s ++ 0 :: rest).drop (st.p + 1) := by
    rw [List.drop_set_of_lt (by omega), ← List.drop_drop, hunread, List.drop_drop]
  have hinv : ∀ cur, cur ≤ st.p + 1 → (st.path.set st.cur (backslashed s[st.p])).take cur =
      fixedPath (s.take (st.p + 1)) →
      FixPathInv (s ++ 0 :: rest) ⟨st.path.set st.cur (backslashed s[st.p]), cur, st.p + 1⟩ := by
    intro cur hle htake
    refine ⟨hle, ?_, ?_, hunread', ?_⟩
    · rw [wideString_append hs]
      exact hp
    · rw [List.length_set, hlength]
    · rw [wideString_append hs]
      exact htake
  unfold fixPathStep
  rw [hc]
  dsimp only
  rw [if_neg (not_or.mpr ⟨hne, by omega⟩)]
  split at hlook
  · rename_i hgo
    exact ⟨_, if_pos hgo, rfl, hinv _ (by omega) hlook⟩
  · rename_i hstay
    exact ⟨_, if_neg hstay, rfl, hinv _ (by omega) hlook⟩

/-- At the end of the string the terminator is read. -/
theorem FixPathInv.at_end (h0 : 0 ∈ path) {st : FixPathState} (h : FixPathInv path st)
    (hp : st.p = (wideString path).length) : st.path[st.p]? = some 0 := by
  obtain ⟨s, rest, rfl, hs⟩ := List.eq_append_cons_of_mem h0
  rw [wideString_append hs] at hp
  rw [getElem?_of_drop_eq h.unread, hp, List.getElem?_append_right (le_refl _), Nat.sub_self]
  rfl

/-- At the terminator there is no turn. -/
theorem lt_of_fixPathStep (h0 : 0 ∈ path) {st st' : FixPathState} (h : FixPathInv path st)
    (hstep : fixPathStep st = some st') : st.p < (wideString path).length := by
  refine Nat.lt_of_le_of_ne h.p_le fun hp => ?_
  simp [fixPathStep, h.at_end h0 hp] at hstep

/-- **Every state of the loop** satisfies the invariant, for any path with a terminator. -/
theorem FixPathReaches.inv (h0 : 0 ∈ path) {st : FixPathState} (h : FixPathReaches path st) :
    FixPathInv path st := by
  induction h with
  | refl => exact ⟨le_refl _, Nat.zero_le _, rfl, rfl, rfl⟩
  | tail _ hstep ih =>
      obtain ⟨st', hst', -, hinv⟩ := fixPathStep_ok h0 ih (lt_of_fixPathStep h0 ih hstep)
      obtain rfl := Option.some.inj (hst'.symm.trans hstep)
      exact hinv

/-- The loop ends, at the terminator. -/
theorem fixPathLoop_ends (h0 : 0 ∈ path) {st : FixPathState} (h : FixPathInv path st) :
    ∃ st', FixPathInv path st' ∧ st'.p = (wideString path).length ∧
      fixPathLoop st.path st.cur st.p = .ok (st'.path.set st'.cur 0) := by
  induction hn : (wideString path).length - st.p generalizing st with
  | zero =>
      have hle := h.p_le
      have hp : st.p = (wideString path).length := by omega
      obtain ⟨hlt, hc⟩ := List.getElem?_eq_some_iff.mp (h.at_end h0 hp)
      have hcur := h.cur_le
      refine ⟨st, h, hp, ?_⟩
      rw [fixPathLoop, dif_pos hlt]
      simp only [hc]
      rw [if_neg (by omega), if_pos trivial]
  | succ n ih =>
      obtain ⟨next, hstep, hp, hinv⟩ := fixPathStep_ok h0 h (by omega)
      obtain ⟨st', hinv', hp', hloop⟩ := ih hinv (by omega)
      exact ⟨st', hinv', hp', (fixPathLoop_step hstep).trans hloop⟩

/-- `m` is `path` with its string fixed and the memory behind it as before; the string may have
become shorter. -/
structure FixedInPlace (path m : List UInt16) : Prop where
  length : m.length = path.length
  rest : m.drop ((wideString path).length + 1) = path.drop ((wideString path).length + 1)
  terminated : 0 ∈ m
  string : wideString m = fixedPath (wideString path)

theorem fixPath_fixed (h0 : 0 ∈ path) : ∃ m, fixPath path = .ok m ∧ FixedInPlace path m := by
  have hstart : FixPathInv path ⟨path, 0, 0⟩ := ⟨le_refl _, Nat.zero_le _, rfl, rfl, rfl⟩
  obtain ⟨st, hinv, hp, hloop⟩ := fixPathLoop_ends h0 hstart
  have hlt : st.cur < st.path.length :=
    Nat.lt_of_le_of_lt hinv.cur_le (List.getElem?_eq_some_iff.mp (hinv.at_end h0 hp)).1
  have hsplit : st.path.set st.cur 0 =
      fixedPath (wideString path) ++ 0 :: st.path.drop (st.cur + 1) := by
    rw [List.set_eq_take_append_cons_drop, if_pos hlt, hinv.written, hp, List.take_length]
  have hclean := zero_notMem_fixedPath (zero_notMem_wideString path)
  refine ⟨_, hloop, ?_, ?_, ?_, ?_⟩
  · rw [List.length_set, hinv.length]
  · have hcur := hinv.cur_le
    rw [List.drop_set_of_lt (by omega), ← hp, ← List.drop_drop, hinv.unread, List.drop_drop]
  · rw [hsplit]
    exact List.mem_append_right _ List.mem_cons_self
  · rw [hsplit, wideString_append hclean]

/-- A path that is fixed stays as it is, with all of its memory. -/
theorem FixedInPlace.eq_self {m : List UInt16} (h : FixedInPlace path m) (h0 : 0 ∈ path)
    (hfixed : fixedPath (wideString path) = wideString path) : m = path := by
  have hsplit : ∀ l : List UInt16, 0 ∈ l →
      l = wideString l ++ 0 :: l.drop ((wideString l).length + 1) := by
    intro l hl
    obtain ⟨s, rest, rfl, hs⟩ := List.eq_append_cons_of_mem hl
    rw [wideString_append hs]
    simp
  rw [hsplit m h.terminated, hsplit path h0, h.string, hfixed, h.rest]

/-- **`fix_path`** makes the fixed path of every path, in place: the loop writes behind what it
still has to read, the result is no longer than the path, and fixing it again changes nothing. -/
theorem fixPath_spec (path : List UInt16) (h0 : 0 ∈ path) :
    ∃ m, fixPath path = .ok m ∧ wideString m = fixedPath (wideString path) ∧
      (wideString m).length ≤ (wideString path).length ∧
      m.drop ((wideString path).length + 1) = path.drop ((wideString path).length + 1) ∧
      fixPath m = .ok m ∧
      ∀ st, FixPathReaches path st → st.cur ≤ st.p ∧ st.path.drop st.p = path.drop st.p := by
  obtain ⟨m, hm, hfixed⟩ := fixPath_fixed h0
  obtain ⟨m', hm', hagain⟩ := fixPath_fixed hfixed.terminated
  have hidem : fixedPath (wideString m) = wideString m := by
    rw [hfixed.string, fixedPath_idem]
  obtain rfl := hagain.eq_self hfixed.terminated hidem
  refine ⟨m', hm, hfixed.string, ?_, hfixed.rest, hm', ?_⟩
  · rw [hfixed.string]
    exact length_fixedPath_le _
  · intro st hst
    exact ⟨(hst.inv h0).cur_le, (hst.inv h0).unread⟩

/-- Runs at the start, in the middle and at the end, of both separators: `/\a\//b//`. -/
theorem fixPath_spec_runs :
    ∃ m, fixPath [47, 92, 97, 92, 47, 47, 98, 47, 47, 0] = .ok m ∧
      wideString m = fixedPath (wideString [47, 92, 97, 92, 47, 47, 98, 47, 47, 0]) ∧
      (wideString m).length ≤ (wideString [47, 92, 97, 92, 47, 47, 98, 47, 47, 0]).length ∧
      m.drop ((wideString [47, 92, 97, 92, 47, 47, 98, 47, 47, 0]).length + 1) =
        [47, 92, 97, 92, 47, 47, 98, 47, 47, 0].drop
          ((wideString [47, 92, 97, 92, 47, 47, 98, 47, 47, 0]).length + 1) ∧
      fixPath m = .ok m ∧
      ∀ st, FixPathReaches [47, 92, 97, 92, 47, 47, 98, 47, 47, 0] st →
        st.cur ≤ st.p ∧
          st.path.drop st.p = [47, 92, 97, 92, 47, 47, 98, 47, 47, 0].drop st.p :=
  fixPath_spec _ (by decide)

example : fixedPath [47, 92, 97, 92, 47, 47, 98, 47, 47] = [92, 97, 92, 98, 92] := by decide

end

end LoliLoader.Boot
