/-
# LoliLoader.Menu.Shown -- what the menu shows

The menu shows titles, a default entry that does not exist and a timeout that is no number as they
are in the configuration. All else it says is short.

Every message is formatted into a buffer of one size. Whether it fits is decided by the length of
what is shown of the configuration, and `MenuBrief` has one bound for each place: they differ,
because the text around the value does.

`cmdlineSetup_fits_iff` is exact. It is not enough to bound all values by the smallest of the
bounds, since then long values that are never shown would be excluded; so there are predicates for
the timeout and the default entry that say when they are shown at all (`TimeoutInvalid`,
`DefaultUntaken`).

The turns say only what fits, whatever is typed: numbers have at most ten digits, and what was typed
is not shown again in a message.

What the attempts say is not looked at here, and kept as it is.
-/
import LoliLoader.Interaction.Input
import LoliLoader.Menu.Default
import LoliLoader.Menu.Select

namespace LoliLoader.Menu

open C Extlinux Interaction

/-! ## Values -/

/-- A copy of a value is in one line. -/
theorem newline_notMem_getPair {cfg : CString} {p : Nat} {K : Key} {l : Line}
    (hl : l ∈ lines cfg) (hpair : isPair K.tokens l.line)
    (hget : extlinuxGetValue cfg p K.cstring = .ok (some (pairSlice K.tokens l))) {v : CString}
    (hv : menuGetPair cfg p K.cstring = .ok (some v)) : (10 : UInt8) ∉ v.bytes := by
  have hfinds := finds_of_getValue hl hpair hget
  obtain ⟨c, hc, hmem⟩ := hfinds.copy
  obtain rfl := Option.some.inj (Except.ok.inj (hc.symm.trans hv))
  rw [List.append_cancel_right hmem]
  exact hfinds.newline_notMem

theorem newline_notMem_entry {cfg : CString} {own : Line} (hown : own ∈ labelLines cfg) {K : Key}
    (hK : K.first.bytes ≠ ascii "label") {v : CString}
    (hv : menuGetPair cfg (firstPlain own) K.cstring = .ok (some v)) :
    (10 : UInt8) ∉ v.bytes := by
  have hget := extlinuxGetValue_entry hown hK
  cases hfind : findPair K.tokens (block cfg (firstPlain own)) with
  | none =>
      rw [hfind] at hget
      cases hv.symm.trans (menuGetPair_none hget)
  | some l =>
      rw [hfind] at hget
      obtain ⟨hblock, hpair⟩ := mem_of_findPair hfind
      exact newline_notMem_getPair (mem_lines_of_mem_block hblock) hpair hget hv

/-- A value that is shown fits if it leaves room for its end. -/
theorem fits_pairValue_iff {cfg : CString} {l : Line} (hl : l ∈ lines cfg)
    (tokens : List (List UInt8)) :
    Fits (.putsSized (pairValue tokens l.line)) ↔ (pairValue tokens l.line).length < 1024 := by
  have h := @fits_iff _ (.putsSized (pairValue tokens l.line)) rfl (nul_notMem_pairValue hl tokens)
  rwa [lineEnds_of_notMem (newline_notMem_pairValue hl tokens)] at h

theorem fits_titleOf_iff {cfg : CString} {l : Line} (hl : l ∈ labelLines cfg) :
    Fits (.putsSized (titleOf cfg l)) ↔ (titleOf cfg l).length < 1024 := by
  unfold titleOf
  cases hfind : findPair menuTitle.tokens (block cfg (firstPlain l)) with
  | none => exact fits_pairValue_iff (mem_lines_of_mem_labelLines hl).1 labelTokens
  | some t =>
      exact fits_pairValue_iff (mem_lines_of_mem_block (mem_of_findPair hfind).1) menuTitle.tokens

/-! ## Up to the prompt -/

section

variable (cfg : CString)

/-- The timeout is a value that is no number, and so it is shown in a warning. -/
def TimeoutInvalid (v : CString) : Prop :=
  menuGetPair cfg 0 timeoutKey = .ok (some v) ∧ ∃ timeout, atou v = .ok timeout ∧ timeout < 0

/-- The default entry is a value that no label goes on like. -/
def DefaultUntaken (g : Line) : Prop :=
  foundOption cfg defaultOption = some g ∧ ∀ l ∈ labelLines cfg, ¬ goesOn cfg g l

/-- What the menu shows of the configuration leaves room for the text around it: titles, and where
they are shown a timeout and a default name. -/
structure MenuBrief : Prop where
  titles : ∀ l ∈ labelLines cfg, (titleOf cfg l).length < 1024
  timeout : ∀ v, TimeoutInvalid cfg v → v.length ≤ 988
  default : ∀ g, DefaultUntaken cfg g → (pairValue defaultOption.tokens g.line).length < 1024

variable {cfg}

theorem fits_warning_iff {timeout : Int32} {warning : List Output}
    (h : menuGetTimeout cfg = .ok (timeout, warning)) :
    (∀ o ∈ warning, Fits o) ↔ ∀ v, TimeoutInvalid cfg v → v.length ≤ 988 := by
  obtain ⟨o, hpair, hrest⟩ := bind_eq_ok.mp h
  cases o with
  | none =>
      obtain ⟨-, rfl⟩ := Prod.mk.inj (Except.ok.inj hrest)
      refine ⟨?_, fun _ => List.forall_mem_nil _⟩
      rintro - v ⟨hv, -⟩
      cases hpair.symm.trans hv
  | some v =>
      obtain ⟨n, hn, hrest⟩ := bind_eq_ok.mp hrest
      -- there is one value, and one number it is read as
      have hinvalid : ∀ w, TimeoutInvalid cfg w ↔ w = v ∧ n < 0 := by
        intro w
        constructor
        · rintro ⟨hw, n', hn', hneg⟩
          obtain rfl := Option.some.inj (Except.ok.inj (hpair.symm.trans hw))
          rw [Except.ok.inj (hn.symm.trans hn')]
          exact ⟨rfl, hneg⟩
        · rintro ⟨rfl, hneg⟩
          exact ⟨hpair, n, hn, hneg⟩
      by_cases hneg : n < 0
      · rw [if_pos hneg] at hrest
        obtain ⟨-, rfl⟩ := Prod.mk.inj (Except.ok.inj hrest)
        have hplain : (10 : UInt8) ∉ v.bytes := by
          cases hfound : foundOption cfg timeoutOption with
          | none =>
              have hget := extlinuxGetValue_option cfg (K := timeoutOption) (by decide)
              rw [hfound] at hget
              cases hpair.symm.trans (menuGetPair_none hget)
          | some l =>
              have hget := extlinuxGetValue_option cfg (K := timeoutOption) (by decide)
              rw [hfound] at hget
              obtain ⟨hl, hp⟩ := mem_of_foundOption hfound
              exact newline_notMem_getPair hl hp hget hpair
        rw [fits_prErr_iff, @fits_room_iff _ v 988 (ascii "invalid timeout \"")
          (ascii "\", use 0 instead\n") rfl (by decide) (by decide) rfl hplain]
        refine ⟨?_, fun hall => hall v ((hinvalid v).mpr ⟨rfl, hneg⟩)⟩
        intro hle w hw
        obtain ⟨rfl, -⟩ := (hinvalid w).mp hw
        exact hle
      · rw [if_neg hneg] at hrest
        obtain ⟨-, rfl⟩ := Prod.mk.inj (Except.ok.inj hrest)
        refine ⟨?_, fun _ => List.forall_mem_nil _⟩
        intro _ w hw
        exact absurd ((hinvalid w).mp hw).2 hneg

theorem fits_listed_iff {item : Listed} :
    (∀ o ∈ item.output, Fits o) ↔ Fits (.putsSized item.title) := by
  have hnumber : Fits (.printf "%d: " [.int item.number]) :=
    fits_numbers [item.number] (show briefFormat (ascii "%d: ") 1 = true by decide +kernel)
  rw [Listed.output, List.forall_mem_cons, List.forall_mem_cons, List.forall_mem_singleton]
  exact ⟨fun h => h.2.1, fun h => ⟨hnumber, h, fits_newline⟩⟩

/-- The listing of label lines. -/
theorem fits_items_iff (n : Int) {ls : List Line} (h : ls ⊆ labelLines cfg) :
    (∀ o ∈ (items cfg n ls).flatMap Listed.output, Fits o) ↔
      ∀ l ∈ ls, (titleOf cfg l).length < 1024 := by
  induction ls generalizing n with
  | nil => exact ⟨fun _ => List.forall_mem_nil _, fun _ => List.forall_mem_nil _⟩
  | cons l ls ih =>
      rw [List.cons_subset] at h
      rw [items, List.flatMap_cons, List.forall_mem_append, List.forall_mem_cons, ih (n + 1) h.2,
        fits_listed_iff, fits_titleOf_iff h.1]

theorem fits_complaint_iff (name : List UInt8) :
    (∀ o ∈ complaint name, Fits o) ↔ Fits (.putsSized name) := by
  have hstart : Fits (.printf "Invalid default entry \"" []) := fits_numbers [] (by decide +kernel)
  have hend : Fits (.printf "\", boot entry 0 by default\n" []) :=
    fits_numbers [] (by decide +kernel)
  rw [complaint, List.forall_mem_cons, List.forall_mem_cons, List.forall_mem_singleton]
  exact ⟨fun h => h.2.1, fun h => ⟨hstart, h, hend⟩⟩

/-- The listing loop ends without a default entry exactly if there is a default value that no
label goes on like. -/
theorem lastHit_neg_iff (g : Option Line) :
    lastHit cfg (g.map (pairSlice defaultOption.tokens)) 0
        (if (g.map (pairSlice defaultOption.tokens)).isNone then 0 else -1) (labelLines cfg) < 0 ↔
      ∃ g', g = some g' ∧ ∀ l ∈ labelLines cfg, ¬ goesOn cfg g' l := by
  cases g with
  | none =>
      rw [Option.map_none, lastHit_none]
      constructor
      · intro h
        exact absurd h (by decide)
      · rintro ⟨g', h, -⟩
        cases h
  | some g =>
      rw [Option.map_some]
      rcases exists_last_hit cfg (some (pairSlice defaultOption.tokens g)) (labelLines cfg) with
        hnone | ⟨pre, l, post, hsplit, hhit, hpost⟩
      · rw [lastHit_of_none _ _ hnone]
        rw [Option.isNone_some, if_neg Bool.false_ne_true]
        refine ⟨fun _ => ⟨g, rfl, ?_⟩, fun _ => by decide⟩
        intro l hl hgoes
        rw [← hitsDefault_iff, hnone l hl] at hgoes
        cases hgoes
      · rw [hsplit, lastHit_of_split _ _ pre hhit hpost]
        constructor
        · intro h
          omega
        · rintro ⟨g', hg, hno⟩
          obtain rfl := Option.some.inj hg
          exact absurd ((hitsDefault_iff cfg g l).mp hhit) (hno l (by simp))

/-- **Up to the prompt**, what the menu says fits exactly if the configuration is brief; values that
are not shown may be of any length. -/
theorem cmdlineSetup_fits_iff {ck : CharKind} {m : Ready} (h : cmdlineSetup ck cfg = .ok m) :
    (∀ o ∈ m.output, Fits o) ↔ MenuBrief cfg := by
  obtain ⟨⟨timeout, warning⟩, ht⟩ := menuGetTimeout_total cfg
  obtain ⟨rest, hsetup, hquiet, hcomplains⟩ := cmdlineSetup_run ck ht
  have hwarning := fits_warning_iff ht
  have hitems := @fits_items_iff cfg 0 _ (List.Subset.refl _)
  have hneg : listedDefault cfg < 0 ↔ _ := @lastHit_neg_iff cfg (foundOption cfg defaultOption)
  obtain rfl := Except.ok.inj (hsetup.symm.trans h)
  show (∀ o ∈ warning ++ _ ++ rest, Fits o) ↔ _
  rw [List.forall_mem_append, List.forall_mem_append, hwarning, hitems]
  by_cases hd : listedDefault cfg < 0
  · obtain ⟨g, hg, hno⟩ := hneg.mp hd
    have hslice : defaultSlice cfg = some (pairSlice defaultOption.tokens g) := by
      rw [defaultSlice, hg]
      rfl
    have hmem := (mem_of_foundOption hg).1
    have huntaken : ∀ g', DefaultUntaken cfg g' ↔ g' = g := by
      intro g'
      constructor
      · rintro ⟨hg', -⟩
        exact Option.some.inj (hg'.symm.trans hg)
      · rintro rfl
        exact ⟨hg, hno⟩
    rw [hcomplains hd _ hslice, slice_pairSlice hmem, fits_complaint_iff,
      fits_pairValue_iff hmem]
    constructor
    · rintro ⟨⟨htimeout, htitles⟩, hdefault⟩
      refine ⟨htitles, htimeout, ?_⟩
      intro g' hg'
      obtain rfl := (huntaken g').mp hg'
      exact hdefault
    · intro hbrief
      exact ⟨⟨hbrief.timeout, hbrief.titles⟩, hbrief.default g ((huntaken g).mpr rfl)⟩
  · rw [hquiet hd]
    constructor
    · rintro ⟨⟨htimeout, htitles⟩, -⟩
      refine ⟨htitles, htimeout, ?_⟩
      rintro g' ⟨hg', hno⟩
      exact absurd (hneg.mpr ⟨g', hg', hno⟩) hd
    · intro hbrief
      exact ⟨⟨hbrief.timeout, hbrief.titles⟩, List.forall_mem_nil _⟩

end

/-! ## At the prompt -/

section

variable {σ : Type} {load : Option Nat → σ → Int × σ} {cfg : CString} {m : Ready}
  {timeout : Int32} {st st' : σ}

/-- **One turn** says only what fits, and if it changes the state that is because of an attempt on
a listed entry. -/
theorem selectTurn_shown (hm : ReadyFor cfg m) {answer : Option CString} {t : Turn}
    (h : selectTurn load cfg m timeout answer st = .ok (t, st')) :
    (∀ o ∈ t.output, Fits o) ∧
      (st' = st ∨ ∃ l ∈ labelLines cfg, st' = (load (some (firstPlain l)) st).2) := by
  have hprompt : Fits (.printf "Enter entry number: " []) := fits_numbers [] (by decide +kernel)
  have hbooting : Fits (.printf "\nBooting entry %d by default\n" [.int m.defaultEntry]) :=
    fits_numbers [m.defaultEntry]
      (show briefFormat (ascii "\nBooting entry %d by default\n") 1 = true by decide +kernel)
  have hcomplaint : ∀ o ∈ prErr "Invalid entry\n" [], Fits o :=
    (fits_prErr_iff _ _).mpr (fits_numbers [] (by decide +kernel))
  obtain ⟨selected, hwait, hrest⟩ := bind_eq_ok.mp h
  -- what is said before an attempt
  have hsaid : ∀ o ∈ [Output.printf "Enter entry number: " []] ++ (if selected < -1 then
      [.printf "\nBooting entry %d by default\n" [.int m.defaultEntry]] else []), Fits o := by
    rw [List.forall_mem_append, List.forall_mem_singleton]
    refine ⟨hprompt, ?_⟩
    split
    · exact List.forall_mem_singleton.mpr hbooting
    · exact List.forall_mem_nil _
  generalize hchosen : (if selected < -1 then m.defaultEntry else selected) = chosen at hrest
  by_cases hlisted : chosen ≥ 0 ∧ chosen < m.entryNum
  · rw [if_pos hlisted] at hrest
    obtain ⟨entry, hentry, hrest⟩ := bind_eq_ok.mp hrest
    obtain ⟨rfl, rfl⟩ := Prod.mk.inj (Except.ok.inj hrest)
    refine ⟨?_, Or.inr ?_⟩
    · rw [List.forall_mem_append]
      refine ⟨hsaid, ?_⟩
      split
      · exact List.forall_mem_nil _
      · exact hcomplaint
    · -- the entry is there, because there are as many as have been listed
      have hlen : chosen.toNat < (labelLines cfg).length := by
        have hnum := hm.entryNum
        rw [hm.listing, length_items] at hnum
        omega
      rw [menuGetNthEntry_eq, entryPositions, List.getElem?_map,
        List.getElem?_eq_getElem hlen] at hentry
      obtain rfl := Except.ok.inj hentry
      exact ⟨_, List.getElem_mem hlen, rfl⟩
  · rw [if_neg hlisted] at hrest
    obtain ⟨rfl, rfl⟩ := Prod.mk.inj (Except.ok.inj hrest)
    exact ⟨hsaid, Or.inl rfl⟩

/-- **The turns** say only what fits, whatever is answered, and keep what the attempts on listed
entries keep. -/
theorem selectLoop_shown {P : σ → Prop} (hm : ReadyFor cfg m)
    (hload : ∀ l ∈ labelLines cfg, ∀ st, P st → P (load (some (firstPlain l)) st).2)
    {answers : List (Option CString)} {ts : List Turn} {returned : Bool}
    (h : selectLoop load cfg m timeout answers st = .ok (ts, st', returned)) (hst : P st) :
    P st' ∧ ∀ t ∈ ts, ∀ o ∈ t.output, Fits o := by
  induction answers generalizing timeout st ts with
  | nil =>
      obtain ⟨rfl, hrest⟩ := Prod.mk.inj (Except.ok.inj h)
      obtain ⟨rfl, -⟩ := Prod.mk.inj hrest
      exact ⟨hst, List.forall_mem_nil _⟩
  | cons answer answers ih =>
      obtain ⟨⟨t, st₁⟩, hturn, hrest⟩ := bind_eq_ok.mp h
      obtain ⟨hfits, hstate⟩ := selectTurn_shown hm hturn
      have hst₁ : P st₁ := by
        rcases hstate with rfl | ⟨l, hl, rfl⟩
        · exact hst
        · exact hload l hl st hst
      dsimp only at hrest
      by_cases hloaded : t.loaded = true
      · rw [if_pos hloaded] at hrest
        obtain ⟨rfl, hstop⟩ := Prod.mk.inj (Except.ok.inj hrest)
        obtain ⟨rfl, rfl⟩ := Prod.mk.inj hstop
        exact ⟨hst₁, List.forall_mem_singleton.mpr hfits⟩
      · rw [if_neg hloaded] at hrest
        obtain ⟨⟨ts', st₂, returned'⟩, hloop, hrest⟩ := bind_eq_ok.mp hrest
        obtain ⟨rfl, hstop⟩ := Prod.mk.inj (Except.ok.inj hrest)
        obtain ⟨rfl, rfl⟩ := Prod.mk.inj hstop
        obtain ⟨hst₂, hall⟩ := ih hloop hst₁
        exact ⟨hst₂, List.forall_mem_cons.mpr ⟨hfits, hall⟩⟩

end

end LoliLoader.Menu
