/-
# LoliLoader.Menu.Default -- which entry is the default one

The listing loop compares the default name with every label. It gives `strncmp` the length of the
default name, and `strncmp` compares one character more; so a label is taken for the default one
when it goes on like the default line does, blank, newline or end of text included.

Mostly this does no harm. Both names stand at the end of a line, and behind both comes a newline.
But a blank at the end of one of the two lines, or the end of the file behind one of them, makes the
same names differ; and two labels with the default name as their start are told apart by luck.

`goesOn` is the comparison as it is made, on the texts of the two lines, and `named` the one that
was meant. `DefaultResolves` is the condition under which they settle on the same entry. It is not
that they agree on every label: the last label that is taken counts, so an earlier one may be taken
wrongly.

`defaultEntry_named_iff` needs nothing of the configuration. Where it has no default option, or
where the lookup of the option is led astray by a label at its very start, the condition is about
the pair that the lookup finds.
-/
import LoliLoader.Menu.Options

namespace LoliLoader.Menu

open C Extlinux

/-! ## The last hit -/

section

variable {cfg : CString} {default : Option (Nat × Nat)}

/-- Either no line is taken, or there is a last one that is. -/
theorem exists_last_hit (cfg : CString) (default : Option (Nat × Nat)) (ls : List Line) :
    (∀ l ∈ ls, hitsDefault cfg default l = false) ∨
    ∃ pre l post, ls = pre ++ l :: post ∧ hitsDefault cfg default l = true ∧
      ∀ l' ∈ post, hitsDefault cfg default l' = false := by
  induction ls with
  | nil => exact Or.inl (by simp)
  | cons l ls ih =>
      rcases ih with hnone | ⟨pre, l', post, rfl, hhit, hpost⟩
      · by_cases hl : hitsDefault cfg default l = true
        · exact Or.inr ⟨[], l, ls, rfl, hl, hnone⟩
        · refine Or.inl ?_
          intro x hx
          rcases List.mem_cons.mp hx with rfl | hx
          · simpa using hl
          · exact hnone x hx
      · exact Or.inr ⟨l :: pre, l', post, rfl, hhit, hpost⟩

theorem lastHit_of_none (n d : Int) {ls : List Line}
    (h : ∀ l ∈ ls, hitsDefault cfg default l = false) : lastHit cfg default n d ls = d := by
  induction ls generalizing n with
  | nil => rfl
  | cons l ls ih =>
      rw [lastHit, h l List.mem_cons_self]
      exact ih (n + 1) fun l' hl' => h l' (List.mem_cons_of_mem l hl')

theorem lastHit_of_split (n d : Int) (pre : List Line) {l : Line} {post : List Line}
    (hl : hitsDefault cfg default l = true)
    (hpost : ∀ l' ∈ post, hitsDefault cfg default l' = false) :
    lastHit cfg default n d (pre ++ l :: post) = n + pre.length := by
  induction pre generalizing n d with
  | nil =>
      rw [List.nil_append, lastHit, if_pos hl, lastHit_of_none _ _ hpost]
      simp
  | cons l' pre ih =>
      rw [List.cons_append, lastHit, ih]
      simp only [List.length_cons, Nat.cast_add, Nat.cast_one]
      omega

theorem settled_of_none {v : Nat × Nat}
    (h : ∀ l ∈ labelLines cfg, hitsDefault cfg (some v) l = false) : settled cfg (some v) = 0 := by
  simp [settled, lastHit_of_none _ _ h]

theorem settled_of_split {pre : List Line} {l : Line} {post : List Line}
    (hsplit : labelLines cfg = pre ++ l :: post) (hl : hitsDefault cfg default l = true)
    (hpost : ∀ l' ∈ post, hitsDefault cfg default l' = false) :
    settled cfg default = pre.length := by
  have hnonneg : ¬ ((pre.length : Int) < 0) := by omega
  simp [settled, hsplit, lastHit_of_split _ _ pre hl hpost, hnonneg]

end

/-! ## The entry that is named -/

/-- The label on line `l` is the value of the default pair on line `g`. -/
def named (g l : Line) : Prop :=
  pairValue labelTokens l.line = pairValue defaultOption.tokens g.line

instance (g l : Line) : Decidable (named g l) := by
  unfold named
  infer_instance

/-- The text of the label on `l` goes on as that of the default value on `g` does: the
value itself and one character more. -/
def goesOn (cfg : CString) (g l : Line) : Prop :=
  sameStart cfg (pairStart defaultOption.tokens g) (pairStart labelTokens l)
    (pairValue defaultOption.tokens g.line).length = true

instance (cfg : CString) (g l : Line) : Decidable (goesOn cfg g l) := by
  unfold goesOn
  infer_instance

theorem hitsDefault_iff (cfg : CString) (g l : Line) :
    hitsDefault cfg (some (pairSlice defaultOption.tokens g)) l = true ↔ goesOn cfg g l := Iff.rfl

/-- The default entry is the one that is named `d`, or entry 0 when none is. -/
def DefaultNamed (cfg : CString) (g : Line) (index : Int) : Prop :=
  ((∃ l ∈ labelLines cfg, named g l) →
    ∃ (i : Nat) (l : Line), index = i ∧ (labelLines cfg)[i]? = some l ∧ named g l) ∧
  ((∀ l ∈ labelLines cfg, ¬ named g l) → index = 0)

/-- When the comparison past the end of the name does no harm: the label that is taken last is the
one that is meant, or entry 0 is meant and comes out for want of another. -/
inductive DefaultResolves (cfg : CString) (g : Line) : Prop
  /-- no label goes on like the default line, and the first entry is named or none is -/
  | untaken (hnone : ∀ l ∈ labelLines cfg, ¬ goesOn cfg g l)
      (hfirst : (∃ l ∈ (labelLines cfg).head?, named g l) ∨ ∀ l ∈ labelLines cfg, ¬ named g l)
  /-- the last label that goes on like the default line is named -/
  | last (pre : List Line) (l : Line) (post : List Line)
      (hsplit : labelLines cfg = pre ++ l :: post) (hgoes : goesOn cfg g l)
      (hpost : ∀ l' ∈ post, ¬ goesOn cfg g l') (hnamed : named g l)
  /-- no entry is named, and no label but the first goes on like the default line -/
  | unnamed (hno : ∀ l ∈ labelLines cfg, ¬ named g l)
      (hrest : ∀ l ∈ (labelLines cfg).tail, ¬ goesOn cfg g l)

theorem foundOption_of_global {cfg : CString} {K : Key} {g : Line}
    (hg : findPair K.tokens (globals cfg) = some g) : foundOption cfg K = some g := by
  rcases searched_lines cfg with ⟨-, hnil, -⟩ | ⟨-, hsearch⟩
  · rw [hnil] at hg
    simp [findPair] at hg
  · rw [foundOption, hsearch, hg]

/-- The default index, told from the texts. -/
theorem defaultNamed_settled_iff (cfg : CString) (g : Line) :
    DefaultNamed cfg g (settled cfg (some (pairSlice defaultOption.tokens g)))
      ↔ DefaultResolves cfg g := by
  rcases exists_last_hit cfg (some (pairSlice defaultOption.tokens g)) (labelLines cfg) with
    hnone | ⟨pre, l, post, hsplit, hhit, hpost⟩
  -- no label is taken, and the default entry is 0
  · rw [settled_of_none hnone]
    have hno : ∀ l ∈ labelLines cfg, ¬ goesOn cfg g l := by
      intro l hl hgoes
      rw [← hitsDefault_iff, hnone l hl] at hgoes
      exact absurd hgoes (by simp)
    constructor
    · rintro ⟨hsome, -⟩
      refine .untaken hno ?_
      by_cases h : ∃ l ∈ labelLines cfg, named g l
      · obtain ⟨i, l, hi, hl, hnamed⟩ := hsome h
        obtain rfl : i = 0 := by omega
        exact Or.inl ⟨l, by rw [List.head?_eq_getElem?, hl]; rfl, hnamed⟩
      · exact Or.inr fun l hl hn => h ⟨l, hl, hn⟩
    · intro hres
      refine ⟨?_, fun _ => rfl⟩
      rintro ⟨l, hl, hnamed⟩
      cases hres with
      | untaken _ hfirst =>
          rcases hfirst with ⟨l', hl', hnamed'⟩ | hno'
          · exact ⟨0, l', rfl, by rw [← List.head?_eq_getElem?]; exact hl', hnamed'⟩
          · exact absurd hnamed (hno' l hl)
      | last pre l' post hsplit hgoes _ _ => exact absurd hgoes (hno l' (by simp [hsplit]))
      | unnamed hno' _ => exact absurd hnamed (hno' l hl)
  · rw [settled_of_split hsplit hhit hpost]
    have hmem : l ∈ labelLines cfg := by simp [hsplit]
    have hgoes : goesOn cfg g l := (hitsDefault_iff cfg g l).mp hhit
    have hlast : ∀ l' ∈ post, ¬ goesOn cfg g l' := by
      intro l' hl' h
      rw [← hitsDefault_iff, hpost l' hl'] at h
      exact absurd h (by simp)
    have hget : (labelLines cfg)[pre.length]? = some l := by simp [hsplit]
    constructor
    · rintro ⟨hsome, hzero⟩
      by_cases h : ∃ l ∈ labelLines cfg, named g l
      · obtain ⟨i, l', hi, hl', hnamed⟩ := hsome h
        obtain rfl : pre.length = i := by omega
        obtain rfl : l = l' := Option.some.inj (hget.symm.trans hl')
        exact .last pre l post hsplit hgoes hlast hnamed
      · have hno : ∀ l ∈ labelLines cfg, ¬ named g l := fun l hl hn => h ⟨l, hl, hn⟩
        have hpre : pre = [] := by
          have := hzero hno
          exact List.eq_nil_of_length_eq_zero (by omega)
        refine .unnamed hno ?_
        rw [hsplit, hpre]
        exact hlast
    · intro hres
      cases hres with
      | untaken hno _ => exact absurd hgoes (hno l hmem)
      | last pre' l' post' hsplit' hgoes' hlast' hnamed =>
          -- both splits are at the last label that goes on like the default line
          have hidx := settled_of_split hsplit' ((hitsDefault_iff cfg g l').mpr hgoes')
            (fun x hx => by simpa [← hitsDefault_iff] using hlast' x hx)
          rw [settled_of_split hsplit hhit hpost] at hidx
          refine ⟨fun _ => ⟨pre'.length, l', hidx, by simp [hsplit'], hnamed⟩, ?_⟩
          intro hno
          exact absurd hnamed (hno l' (by simp [hsplit']))
      | unnamed hno hrest =>
          refine ⟨fun ⟨x, hx, hn⟩ => absurd hn (hno x hx), fun _ => ?_⟩
          cases pre with
          | nil => rfl
          | cons x pre => exact absurd hgoes (hrest l (by simp [hsplit]))

/-- **The default entry is the one the configuration names**, exactly when the
comparison past the end of the name does no harm. -/
theorem defaultEntry_named_iff (ck : CharKind) (cfg : CString) (g : Line)
    (hg : findPair defaultOption.tokens (globals cfg) = some g) :
    (∃ m, cmdlineSetup ck cfg = .ok m ∧ DefaultNamed cfg g m.defaultEntry)
      ↔ DefaultResolves cfg g := by
  obtain ⟨timeout, warning, output, -, -, hsetup⟩ := cmdlineSetup_eq ck cfg
  have hslice : defaultSlice cfg = some (pairSlice defaultOption.tokens g) := by
    rw [defaultSlice, foundOption_of_global hg]
    rfl
  rw [hslice] at hsetup
  rw [hsetup, ← defaultNamed_settled_iff]
  simp

/-- With the names in plain lines the named entry is settled on. -/
theorem defaultEntry_named_plain :
    ∃ m, cmdlineSetup .signed ⟨ascii "default b\nlabel a\nlabel b\n", by decide⟩ = .ok m ∧
      DefaultNamed ⟨ascii "default b\nlabel a\nlabel b\n", by decide⟩ ⟨0, ascii "default b"⟩
        m.defaultEntry := by
  refine (defaultEntry_named_iff .signed _ _ (by decide +kernel)).mpr ?_
  exact .last [⟨10, ascii "label a"⟩] ⟨18, ascii "label b"⟩ [] (by decide +kernel)
    (by decide +kernel) (by simp) (by decide +kernel)

/-- A blank behind the name of the entry hides it: entry 0 is settled on. -/
theorem defaultEntry_not_named_blank :
    ¬ ∃ m, cmdlineSetup .signed ⟨ascii "default b\nlabel a\nlabel b \n", by decide⟩ = .ok m ∧
      DefaultNamed ⟨ascii "default b\nlabel a\nlabel b \n", by decide⟩ ⟨0, ascii "default b"⟩
        m.defaultEntry := by
  rintro ⟨m, hm, hnamed, -⟩
  have hzero : (cmdlineSetup .signed ⟨ascii "default b\nlabel a\nlabel b \n", by decide⟩).map
      Ready.defaultEntry = .ok 0 := by decide +kernel
  rw [hm] at hzero
  obtain ⟨i, l, hi, hl, hname⟩ :=
    hnamed ⟨⟨18, ascii "label b "⟩, by decide +kernel, by decide +kernel⟩
  obtain rfl : i = 0 := by
    have : m.defaultEntry = 0 := Except.ok.inj hzero
    omega
  have hfirst : (labelLines ⟨ascii "default b\nlabel a\nlabel b \n", by decide⟩)[0]?
      = some ⟨10, ascii "label a"⟩ := by decide +kernel
  rw [← Option.some.inj (hfirst.symm.trans hl)] at hname
  exact absurd hname (by decide +kernel)

end LoliLoader.Menu
