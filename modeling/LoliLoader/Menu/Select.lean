/-
# LoliLoader.Menu.Select -- the entry that is booted

Every load attempt of `cmdline_loop` is made on the entry listed under the number that was chosen,
and the function returns only behind an attempt that succeeded.

`chosen` is what an answer stands for. A line that is no number, or one that no entry is listed
under, leads to a complaint and to the prompt again; so does an attempt that fails, and no attempt
is ever made on a null pointer. `TurnSound` says this of a turn, and `RunSound` of all the turns.

`ReadyFor` is the invariant between the listing and the loop: what the loop believes about the
number of entries is what the configuration has. It is set up once and not changed by any turn.

The attempts are arbitrary here. Whatever they return, and whatever they do to their state, the run
is sound; that the state changes only by attempts is part of it.
-/
import LoliLoader.Menu.Options

namespace LoliLoader.Menu

open C Extlinux

/-! ## One turn -/

/-- The number an answer stands for: the one typed, if it is one, or the default entry
after a timeout. -/
def chosen (m : Ready) : Option CString → Option Nat
  | none => some m.defaultEntry.toNat
  | some line =>
    match atou line with
    | .ok v => if 0 ≤ v then some v.toInt.toNat else none
    | .error _ => none

/-- A turn attempts the entry listed under the chosen number, and nothing when there
is no such entry. -/
structure TurnSound (m : Ready) (t : Turn) : Prop where
  attempted : ∀ e ret, t.attempt = some (e, ret) → ∃ (i : Nat) (item : Listed),
    chosen m t.answer = some i ∧ m.listing[i]? = some item ∧ item.number = i ∧ e = some item.entry
  refused : t.attempt = none ↔ ∀ i, chosen m t.answer = some i → m.listing.length ≤ i

/-- What the selection loop relies on: the listing is that of the configuration, and the number of
entries is that of the listing. -/
structure ReadyFor (cfg : CString) (m : Ready) : Prop where
  listing : m.listing = items cfg 0 (labelLines cfg)
  entryNum : m.entryNum = m.listing.length
  defaultEntry : 0 ≤ m.defaultEntry
  printed : m.listing.flatMap Listed.output <:+: m.output

namespace ReadyFor

variable {cfg : CString} {m : Ready}

theorem entries (h : ReadyFor cfg m) : m.listing.map Listed.entry = entryPositions cfg := by
  rw [h.listing, entryPositions]
  apply List.ext_getElem?
  intro i
  rw [List.getElem?_map, List.getElem?_map, getElem?_items, Option.map_map]
  rfl

theorem number (h : ReadyFor cfg m) {i : Nat} {item : Listed} (hi : m.listing[i]? = some item) :
    item.number = i := by
  rw [h.listing, getElem?_items] at hi
  obtain ⟨l, -, rfl⟩ := Option.map_eq_some_iff.mp hi
  simp

/-- **`entryNum` is an `int`** in the source, and an integer without a bound here. The two are the
same for every configuration of less than 2 GiB: each entry has a line of its own. -/
theorem entryNum_lt (h : ReadyFor cfg m) (hcfg : cfg.length + 1 < 2 ^ 31) :
    0 ≤ m.entryNum ∧ m.entryNum < 2 ^ 31 := by
  have hlines : (labelLines cfg).length ≤ cfg.length + 1 :=
    (List.length_filter_le _ _).trans (Text.length_linesFrom_le 0 cfg.bytes)
  rw [h.entryNum, h.listing, length_items]
  omega

/-- `menu_get_nth_entry` finds what is listed. -/
theorem nthEntry (h : ReadyFor cfg m) {i : Nat} {item : Listed} (hi : m.listing[i]? = some item) :
    menuGetNthEntry cfg i = .ok (some item.entry) := by
  rw [menuGetNthEntry_eq, ← h.entries, List.getElem?_map, hi]
  rfl

end ReadyFor

theorem settled_nonneg (cfg : CString) (default : Option (Nat × Nat)) :
    0 ≤ settled cfg default := by
  unfold settled
  generalize lastHit cfg default 0 _ (labelLines cfg) = d
  show 0 ≤ if d < 0 then 0 else d
  by_cases hneg : d < 0
  · rw [if_pos hneg]
  · rw [if_neg hneg]
    omega

theorem cmdlineSetup_ready (ck : CharKind) (cfg : CString) :
    ∃ m, cmdlineSetup ck cfg = .ok m ∧ ReadyFor cfg m := by
  obtain ⟨timeout, warning, output, -, hprinted, hsetup⟩ := cmdlineSetup_eq ck cfg
  refine ⟨_, hsetup, rfl, ?_, settled_nonneg _ _, hprinted⟩
  rw [length_items]

/-- `wait_for_boot_entry` reports a chosen number as it is, and anything else as a
negative number. -/
theorem waitForBootEntry_eq (answer : Option CString) :
    ∃ selected, waitForBootEntry answer = .ok selected ∧
      ∀ m : Ready, 0 ≤ m.defaultEntry →
        let selected := if selected < -1 then m.defaultEntry else selected
        (∃ i : Nat, selected = i ∧ chosen m answer = some i) ∨
          (selected < 0 ∧ chosen m answer = none) := by
  cases answer with
  | none =>
      refine ⟨-2, rfl, fun m hm => Or.inl ⟨m.defaultEntry.toNat, ?_, rfl⟩⟩
      simp [hm]
  | some line =>
      -- 0 and up is a choice, and -1 stands for a line that is no number
      obtain ⟨v, hv⟩ := atou_total line
      by_cases hneg : 0 ≤ v
      · have hnonneg : 0 ≤ v.toInt := by simpa using Int32.le_iff_toInt_le.mp hneg
        refine ⟨v.toInt, by simp [waitForBootEntry, hv, hneg, bind, Except.bind, pure, Except.pure],
          fun m hm => Or.inl ⟨v.toInt.toNat, ?_, by simp [chosen, hv, hneg]⟩⟩
        rw [if_neg (by omega)]
        omega
      · refine ⟨-1, by simp [waitForBootEntry, hv, hneg, bind, Except.bind, pure, Except.pure],
          fun m hm => Or.inr ⟨by simp, by simp [chosen, hv, hneg]⟩⟩

section

variable {σ : Type} (load : Option Nat → σ → Int × σ) {cfg : CString} {m : Ready}

/-- **One turn** never faults, whatever is answered and whatever the attempt does, and attempts what
is listed. -/
theorem selectTurn_sound (hm : ReadyFor cfg m) (timeout : Int32) (answer : Option CString)
    (st : σ) :
    ∃ t st', selectTurn load cfg m timeout answer st = .ok (t, st') ∧ t.answer = answer ∧
      TurnSound m t := by
  obtain ⟨selected, hwait, hsel⟩ := waitForBootEntry_eq answer
  have hsel := hsel m hm.defaultEntry
  simp only at hsel
  unfold selectTurn
  rw [hwait]
  simp only [bind, Except.bind, pure, Except.pure]
  generalize (if selected < -1 then m.defaultEntry else selected) = s at hsel
  rcases hsel with ⟨i, rfl, hi⟩ | ⟨hneg, hnone⟩
  · by_cases hlt : i < m.listing.length
    · -- the number is listed
      have hget : m.listing[i]? = some m.listing[i] := List.getElem?_eq_getElem hlt
      rw [if_pos ⟨by omega, by rw [hm.entryNum]; omega⟩, Int.toNat_natCast, hm.nthEntry hget]
      refine ⟨_, _, rfl, rfl, ?_, ?_⟩
      · intro e ret heq
        obtain ⟨rfl, -⟩ := Prod.mk.inj (Option.some.inj heq)
        exact ⟨i, m.listing[i], hi, hget, hm.number hget, rfl⟩
      · simp only [reduceCtorEq, false_iff, hi, Option.some.injEq]
        intro h
        have := h i rfl
        omega
    -- a number past the last entry
    · rw [if_neg (by rw [hm.entryNum]; omega)]
      refine ⟨_, _, rfl, rfl, by simp, ?_⟩
      simp only [true_iff, hi, Option.some.injEq]
      rintro _ rfl
      omega
  -- no number
  · rw [if_neg (by omega)]
    exact ⟨_, _, rfl, rfl, by simp, by simp [hnone]⟩

/-! ## The whole run -/

/-- The turns on a sequence of answers: each is sound, only the last one may have
loaded, and the function has returned exactly if that one has. -/
structure RunSound (m : Ready) (answers : List (Option CString)) (ts : List Turn)
    (returned : Bool) : Prop where
  turns : ∀ t ∈ ts, TurnSound m t
  answered : ts.map Turn.answer <+: answers
  goes_on : returned = false → ts.length = answers.length
  returns : returned = true ↔ ∃ t ∈ ts.getLast?, t.loaded = true
  failed : ∀ t ∈ ts.dropLast, t.loaded = false

theorem RunSound.cons {answer : Option CString} {answers : List (Option CString)} {t : Turn}
    {ts : List Turn} {returned : Bool} (h : RunSound m answers ts returned) (ht : TurnSound m t)
    (hanswer : t.answer = answer) (hload : t.loaded = false) :
    RunSound m (answer :: answers) (t :: ts) returned := by
  refine ⟨?_, ?_, ?_, ?_, ?_⟩
  · intro x hx
    rcases List.mem_cons.mp hx with rfl | hx
    · exact ht
    · exact h.turns x hx
  · rw [List.map_cons, hanswer, List.prefix_cons_inj]
    exact h.answered
  · intro hret
    simp [h.goes_on hret]
  · rw [h.returns]
    cases ts with
    | nil => simp [hload]
    | cons x xs => simp
  · cases ts with
    | nil => simp
    | cons x xs =>
        intro y hy
        rw [List.dropLast_cons_of_ne_nil (by simp)] at hy
        rcases List.mem_cons.mp hy with rfl | hy
        · exact hload
        · exact h.failed y hy

theorem selectLoop_sound (hm : ReadyFor cfg m) (timeout : Int32) (answers : List (Option CString))
    (st : σ) :
    ∃ ts st' returned, selectLoop load cfg m timeout answers st = .ok (ts, st', returned) ∧
      RunSound m answers ts returned := by
  induction answers generalizing timeout st with
  | nil => exact ⟨[], st, false, rfl, by simp, by simp, by simp, by simp, by simp⟩
  | cons answer answers ih =>
      obtain ⟨t, st', hturn, hanswer, ht⟩ := selectTurn_sound load hm timeout answer st
      unfold selectLoop
      rw [hturn]
      simp only [bind, Except.bind, pure, Except.pure]
      by_cases hload : t.loaded = true
      · rw [if_pos hload]
        refine ⟨[t], st', true, rfl, by simpa using ht, ?_, by simp, by simp [hload], by simp⟩
        simp [hanswer]
      · rw [if_neg hload]
        obtain ⟨ts, st'', returned, hrest, hrun⟩ := ih 0 st'
        rw [hrest]
        exact ⟨t :: ts, st'', returned, rfl, hrun.cons ht hanswer (by simpa using hload)⟩

end

end LoliLoader.Menu
