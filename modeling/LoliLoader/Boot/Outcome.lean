/-
# LoliLoader.Boot.Outcome -- what each part of a boot attempt leaves behind

The parts of `load_and_validate_entry` that touch the environment: pages and the image of the
kernel, the devicetree table, pages and interfaces of the initrd. `Adds` is what they have in
common: pages on top of the ones there were, and other tables.

Each part gets one lemma that says everything a run of it can have done that has returned, guards
included. A part that fails adds nothing or says what it adds. The lemmas are put together with
`Adds.trans`, in the order of the function.

Pages have numbers as bases, and a new run of pages has one that is in use nowhere. So pages that
were added can be taken away again without touching the others (`filter_base`), and a table at a new
address is not among those there were (`tables_ne`).

The devicetree is the only part that changes what it does not add. A table with its GUID is
replaced, and the firmware may reserve memory for its fixup.
-/
import LoliLoader.Boot.Steps

namespace LoliLoader.Boot

open C Menu

/-! ## Numbers in use -/

theorem fresh_notMem (ids : List Nat) : fresh ids ∉ ids := by
  have hle : ∀ ids : List Nat, ∀ n ∈ ids, n ≤ ids.foldr max 0 := by
    intro ids
    induction ids with
    | nil => simp
    | cons m ids ih =>
        intro n hn
        rw [List.foldr_cons]
        rcases List.mem_cons.mp hn with rfl | hn
        · exact le_max_left _ _
        · exact le_trans (ih n hn) (le_max_right _ _)
  intro h
  have := hle ids _ h
  unfold fresh at this
  omega

theorem filter_base {b : Nat} {pages : List PageRun} (h : b ∉ pages.map PageRun.base) :
    pages.filter (fun r => r.base ≠ b) = pages := by
  rw [List.filter_eq_self]
  intro r hr
  simp only [decide_eq_true_eq]
  rintro rfl
  exact h (List.mem_map_of_mem hr)

/-! ## Pages and tables that are added -/

/-- `env'` has the pages `new` besides those of `env`, the tables `tables`, and all else as
`env` has it. -/
structure Adds (env : Environment) (new : List PageRun) (tables : List Table)
    (env' : Environment) : Prop where
  eq : env' = { env with pages := new ++ env.pages, tables := tables }
  bases : ∀ r ∈ new, r.base ∉ env.pages.map PageRun.base

namespace Adds

variable {env env₁ env₂ : Environment} {new new₁ new₂ : List PageRun} {t t₁ t₂ : List Table}

theorem none (env : Environment) : Adds env [] env.tables env := ⟨rfl, by simp⟩

theorem trans (h₁ : Adds env new₁ t₁ env₁) (h₂ : Adds env₁ new₂ t₂ env₂) :
    Adds env (new₂ ++ new₁) t₂ env₂ := by
  have hpages : env₁.pages = new₁ ++ env.pages := by rw [h₁.eq]
  refine ⟨?_, ?_⟩
  · rw [h₂.eq, hpages, h₁.eq, List.append_assoc]
  · intro r hr
    rcases List.mem_append.mp hr with hr | hr
    · intro hm
      apply h₂.bases r hr
      rw [hpages, List.map_append]
      exact List.mem_append_right _ hm
    · exact h₁.bases r hr

/-- One run of pages at a base that is in use nowhere. -/
theorem single (env : Environment) (memory : Memory) :
    Adds env [⟨fresh (env.pages.map PageRun.base), memory⟩] env.tables
      { env with pages := ⟨fresh (env.pages.map PageRun.base), memory⟩ :: env.pages } := by
  refine ⟨rfl, ?_⟩
  intro r hr
  obtain rfl := List.mem_singleton.mp hr
  exact fresh_notMem _

theorem reserve (env : Environment) (memories : List Memory) :
    ∃ new, Adds env new env.tables { env with pages := reserve memories env.pages } ∧
      new.length = memories.length := by
  induction memories with
  | nil => exact ⟨[], none env, rfl⟩
  | cons m memories ih =>
      obtain ⟨new, hadds, hlen⟩ := ih
      refine ⟨_, hadds.trans (single _ m), ?_⟩
      simp [hlen]

end Adds

/-! ## Allocation of pages -/

section

variable {fw fw' : Firmware}

theorem mallocPages_ok {answer : Option (Nat → UInt8)} {size : UInt64} {r : Option Nat}
    (h : mallocPages answer size fw = .ok (r, fw')) :
    (answer = none ∧ r = none ∧ fw'.env = fw.env) ∨
    ∃ contents, answer = some contents ∧ r = some (fresh (fw.env.pages.map PageRun.base)) ∧
      fw'.env = { fw.env with pages :=
        ⟨fresh (fw.env.pages.map PageRun.base),
          junkMemory contents ((sizeToEfiPages size).toNat * 4096)⟩ :: fw.env.pages } := by
  unfold mallocPages at h
  cases answer with
  | none =>
      obtain ⟨rfl, rfl⟩ := pure_ok.mp h
      exact Or.inl ⟨rfl, rfl, rfl⟩
  | some contents =>
      obtain ⟨s, fw₁, hget, h⟩ := bind_ok.mp h
      obtain ⟨rfl, rfl⟩ := get_ok.mp hget
      obtain ⟨u, fw₂, hset, h⟩ := bind_ok.mp h
      obtain rfl := set_ok.mp hset
      obtain ⟨rfl, rfl⟩ := pure_ok.mp h
      exact Or.inr ⟨contents, rfl, rfl, rfl⟩

theorem pagesAt_ok {b : Nat} {memory m : Memory} {rest : List PageRun}
    (hpages : fw.env.pages = ⟨b, memory⟩ :: rest) (h : pagesAt b fw = .ok (m, fw')) :
    m = memory ∧ fw' = fw := by
  unfold pagesAt at h
  obtain ⟨s, fw₁, hget, h⟩ := bind_ok.mp h
  obtain ⟨rfl, rfl⟩ := get_ok.mp hget
  rw [hpages, List.find?_cons_of_pos (by simp)] at h
  obtain ⟨rfl, rfl⟩ := pure_ok.mp h
  exact ⟨rfl, rfl⟩

theorem setPagesAt_ok {b : Nat} {memory m : Memory} {rest : List PageRun} {u : Unit}
    (hpages : fw.env.pages = ⟨b, memory⟩ :: rest) (hb : b ∉ rest.map PageRun.base)
    (h : setPagesAt b m fw = .ok (u, fw')) :
    fw'.env = { fw.env with pages := ⟨b, m⟩ :: rest } := by
  have hrest : rest.map (fun r => if r.base = b then { r with memory := m } else r) = rest := by
    refine (List.map_congr_left fun r hr => ?_).trans (List.map_id rest)
    rw [if_neg, id]
    rintro rfl
    exact hb (List.mem_map_of_mem hr)
  rw [← modify_ok.mp h, hpages, List.map_cons, if_pos rfl, hrest]
  rfl

end

/-! ## Files in pages -/

section

variable {ck : CharKind} {vol : Volume} {a : FileAnswers} {path : CString} {fw fw' : Firmware}

/-- **`file_load` into pages** replaces what is in the newest ones; when it succeeds, by as much of
the file as was transferred. -/
theorem fileLoadPages_ok {b : Nat} {memory : Memory} {rest : List PageRun} {ret : Int64}
    (hpages : fw.env.pages = ⟨b, memory⟩ :: rest) (hb : b ∉ rest.map PageRun.base)
    (h : fileLoadPages ck vol a path b fw = .ok (ret, fw')) :
    ret = fileLoadOf ck vol a path ∧ ∃ m, fw'.env = { fw.env with pages := ⟨b, m⟩ :: rest } ∧
      (0 ≤ ret → ∃ f, openedFile ck vol a path = some f ∧
        deliver memory (f.contents.take a.read.transferred) = .ok m) := by
  obtain ⟨m, fw₁, hat, hrun⟩ := bind_ok.mp h
  obtain ⟨rfl, rfl⟩ := pagesAt_ok hpages hat
  obtain ⟨⟨r, m'⟩, fw₂, hload, hrun⟩ := bind_ok.mp hrun
  obtain ⟨henv, hret, hdel⟩ := fileLoad_ok hload
  obtain ⟨u, fw₃, hset, hrun⟩ := bind_ok.mp hrun
  obtain ⟨rfl, rfl⟩ := pure_ok.mp hrun
  have hpages₂ : fw₂.env.pages = ⟨b, m⟩ :: rest := by rw [henv, hpages]
  refine ⟨hret, m', ?_, hdel⟩
  rw [setPagesAt_ok hpages₂ hb hset, henv]

end

/-! ## The devicetree -/

section

variable (ck : CharKind) (cfg : CString) (p : Nat) (vol : Volume) (a : Answers)

/-- The devicetree of the entry: `fdt`, or else `devicetree`. -/
def fdtPairOf : Except Fault (Option CString) := do
  match ← menuGetPair cfg p fdtKey with
  | some path => return some path
  | none => menuGetPair cfg p devicetreeKey

/-- The devicetree file is found, large enough and read. -/
def FdtRead (path : CString) : Prop :=
  ¬ fileSizeOf ck vol a.fdtSize path < 0 ∧ ¬ (fileSizeOf ck vol a.fdtSize path).toUInt64 < 28 ∧
  ¬ fileLoadOf ck vol a.fdtLoad path < 0

/-- The entry has no devicetree, or it is read, so that the attempt goes on behind it. -/
def FdtPasses : Prop := ∀ path, fdtPairOf cfg p = .ok (some path) → FdtRead ck vol a path

/-- The blocks of memory the fixup reserves; none if the firmware has no fixup. -/
def reservedOf : List Memory :=
  match a.fixup with
  | some dtp => dtp.reserved
  | none => []

/-- The devicetree changes what the firmware holds: a table is installed, or memory is
reserved for it. -/
def FdtChanges : Prop :=
  (∃ path, fdtPairOf cfg p = .ok (some path)) ∧
  (a.installTable = EFI_SUCCESS ∨ reservedOf a ≠ [])

variable {ck cfg p vol a} {fw fw' : Firmware}

theorem installConfigurationTable_ok {t : Table} {u : Unit} {status : Status}
    (h : installConfigurationTable status t fw = .ok (u, fw')) :
    fw'.env = { fw.env with tables :=
      if status = EFI_SUCCESS then t :: fw.env.tables.filter (fun x => x.guid ≠ t.guid)
      else fw.env.tables } := by
  rw [← modify_ok.mp h]
  by_cases hs : status = EFI_SUCCESS
  · rw [if_pos hs, if_pos hs]
  · rw [if_neg hs, if_neg hs]

/-- A table at a new address is not among the tables there were. -/
theorem tables_ne {t : Table} {tables rest : List Table}
    (h : t.address ∉ tables.map Table.address) : t :: rest ≠ tables := by
  rintro rfl
  exact h (by simp)

/-- The installation itself, on top of what was reserved. -/
theorem install_adds {env : Environment} {copy : Nat} {contents : List UInt8} {v : Unit}
    {new : List PageRun} (hnew : copy ∉ env.tables.map Table.address)
    (hadds : Adds env new env.tables fw.env)
    (h : installConfigurationTable a.installTable ⟨.dtbTable, copy, contents⟩ fw = .ok (v, fw')) :
    ∃ tables, Adds env new tables fw'.env ∧
      (tables = env.tables ↔ ¬ a.installTable = EFI_SUCCESS) := by
  have htables : fw.env.tables = env.tables := by rw [hadds.eq]
  refine ⟨if a.installTable = EFI_SUCCESS then
      ⟨.dtbTable, copy, contents⟩ :: env.tables.filter (fun x => x.guid ≠ .dtbTable)
      else env.tables, ⟨?_, hadds.bases⟩, ?_⟩
  · rw [installConfigurationTable_ok h, htables, hadds.eq]
  · by_cases hs : a.installTable = EFI_SUCCESS
    · simp only [hs, not_true_eq_false, iff_false]
      exact tables_ne hnew
    · simp [hs]

/-- **`fdt_fixup_and_load`** adds the reserved pages and installs the table; it leaves all as it was
exactly if the table is refused and nothing reserved. -/
theorem fdtFixupAndLoad_ok {fdt : Memory} {u : Unit}
    (h : fdtFixupAndLoad a fdt fw = .ok (u, fw')) :
    ∃ new tables, Adds fw.env new tables fw'.env ∧
      (new = [] ∧ tables = fw.env.tables ↔
        ¬ (a.installTable = EFI_SUCCESS ∨ reservedOf a ≠ [])) := by
  obtain ⟨size, fw₁, hsize, h⟩ := bind_ok.mp h
  obtain ⟨-, rfl⟩ := lift_ok.mp hsize
  obtain ⟨u₁, fw₂, hsay, h⟩ := bind_ok.mp h
  obtain ⟨copy, fw₃, hcopy, h⟩ := bind_ok.mp h
  obtain ⟨contents, fw₄, hblock, h⟩ := bind_ok.mp h
  obtain ⟨-, rfl⟩ := lift_ok.mp hblock
  obtain ⟨henv, haddr⟩ := malloc_ok hcopy
  have henv₂ := keeps_say _ hsay
  -- the address is new, so an installed table makes a difference
  have hnew : copy ∉ fw.env.tables.map Table.address := by
    intro hm
    rw [henv₂] at haddr
    exact fresh_notMem _ (haddr ▸ List.mem_append_right _ hm)
  have hfw₃ : fw₃.env = fw.env := henv.trans henv₂
  unfold reservedOf
  cases hfix : a.fixup with
  | none =>
      rw [hfix] at h
      obtain ⟨u₅, fw₅, hsay₅, h⟩ := bind_ok.mp h
      have hadds : Adds fw.env [] fw.env.tables fw₅.env := by
        rw [keeps_say _ hsay₅, hfw₃]
        exact .none _
      obtain ⟨tables, hadds', hiff⟩ := install_adds hnew hadds h
      exact ⟨[], tables, hadds', by simpa using hiff⟩
  | some dtp =>
      rw [hfix] at h
      obtain ⟨u₅, fw₅, hres, h⟩ := bind_ok.mp h
      obtain ⟨new, hadds, hlen⟩ := Adds.reserve fw.env dtp.reserved
      have hfw₅ : fw₅.env = { fw.env with pages := reserve dtp.reserved fw.env.pages } := by
        rw [← modify_ok.mp hres]
        simp only [setPages, hfw₃]
      -- whatever the status of the fixup, memory may be reserved and the copy is installed
      have hempty : new = [] ↔ dtp.reserved = [] := by
        rw [← List.length_eq_zero_iff, hlen, List.length_eq_zero_iff]
      have hrest : ∀ {fw₆ : Firmware} {v : Unit}, fw₆.env = fw₅.env →
          installConfigurationTable a.installTable
            ⟨.dtbTable, copy, dtp.fixup (contents.map Cell.byte)⟩ fw₆ = .ok (v, fw') →
          ∃ new tables, Adds fw.env new tables fw'.env ∧
            (new = [] ∧ tables = fw.env.tables ↔
              ¬ (a.installTable = EFI_SUCCESS ∨ dtp.reserved ≠ [])) := by
        intro fw₆ v henv₆ hinst
        rw [← hfw₅, ← henv₆] at hadds
        obtain ⟨tables, hadds', hiff⟩ := install_adds hnew hadds hinst
        refine ⟨new, tables, hadds', ?_⟩
        rw [hempty, hiff, not_or, ne_eq, not_not, and_comm]
      by_cases hst : dtp.status.toUInt32.toInt32 = 0
      · rw [if_pos hst] at h
        obtain ⟨u₆, fw₆, hsay₆, h⟩ := bind_ok.mp h
        exact hrest (keeps_say _ hsay₆) h
      · rw [if_neg hst] at h
        obtain ⟨u₆, fw₆, hsay₆, h⟩ := bind_ok.mp h
        exact hrest (keeps_say _ hsay₆) h

/-- Both lookups, with the copies they make. -/
theorem getFdtPair_ok {r : Option (Nat × CString)}
    (h : getFdtPair cfg p fw = .ok (r, fw')) :
    fw'.env = fw.env ∧ fdtPairOf cfg p = .ok (r.map Prod.snd) := by
  obtain ⟨o, fw₁, hfirst, hrun⟩ := bind_ok.mp h
  have hpair := getPair_ok hfirst
  have henv := keeps_getPair _ _ _ hfirst
  unfold fdtPairOf
  cases o with
  | none =>
      have hsecond := getPair_ok hrun
      refine ⟨(keeps_getPair _ _ _ hrun).trans henv, ?_⟩
      simp [hpair, hsecond, bind, Except.bind]
  | some v =>
      obtain ⟨rfl, rfl⟩ := pure_ok.mp hrun
      refine ⟨henv, ?_⟩
      simp [hpair, bind, Except.bind, pure, Except.pure]

/-- The devicetree file: nothing is left behind when it is not read. -/
theorem loadFdtFrom_ok {path : CString} {ok : Bool}
    (h : loadFdtFrom ck vol a path fw = .ok (ok, fw')) :
    (ok = false ∧ fw'.env = fw.env ∧ ¬ FdtRead ck vol a path) ∨
    (ok = true ∧ FdtRead ck vol a path ∧ ∃ new tables, Adds fw.env new tables fw'.env ∧
      (new = [] ∧ tables = fw.env.tables ↔
        ¬ (a.installTable = EFI_SUCCESS ∨ reservedOf a ≠ []))) := by
  obtain ⟨size, fw₁, hsize, hrun⟩ := bind_ok.mp h
  obtain ⟨henv, rfl⟩ := fileGetSize_ok hsize
  by_cases hneg : fileSizeOf ck vol a.fdtSize path < 0
  · rw [if_pos hneg] at hrun
    obtain ⟨rfl, hsay⟩ := say_pure_ok hrun
    exact Or.inl ⟨rfl, by rw [keeps_say _ hsay, henv], fun hr => hr.1 hneg⟩
  rw [if_neg hneg] at hrun
  by_cases hsmall : (fileSizeOf ck vol a.fdtSize path).toUInt64 < 28
  · rw [if_pos hsmall] at hrun
    obtain ⟨rfl, hsay⟩ := say_pure_ok hrun
    exact Or.inl ⟨rfl, by rw [keeps_say _ hsay, henv], fun hr => hr.2.1 hsmall⟩
  rw [if_neg hsmall] at hrun
  obtain ⟨base, fw₂, hmalloc, hrun⟩ := bind_ok.mp hrun
  obtain ⟨⟨ret, memory⟩, fw₃, hload, hrun⟩ := bind_ok.mp hrun
  obtain ⟨henv₃, hret, -⟩ := fileLoad_ok hload
  dsimp only at hret hrun
  subst hret
  have hfw₃ : fw₃.env = fw.env := by rw [henv₃, keeps_malloc hmalloc, henv]
  by_cases hbad : fileLoadOf ck vol a.fdtLoad path < 0
  · rw [if_pos hbad] at hrun
    obtain ⟨u, fw₄, hsay, hrun⟩ := bind_ok.mp hrun
    obtain ⟨u', fw₅, hfree, hrun⟩ := bind_ok.mp hrun
    obtain ⟨rfl, rfl⟩ := pure_ok.mp hrun
    refine Or.inl ⟨rfl, ?_, fun hr => hr.2.2 hbad⟩
    rw [keeps_free _ hfree, keeps_say _ hsay, hfw₃]
  rw [if_neg hbad] at hrun
  obtain ⟨u, fw₄, hsay, hrun⟩ := bind_ok.mp hrun
  obtain ⟨u', fw₅, hfix, hrun⟩ := bind_ok.mp hrun
  obtain ⟨u'', fw₆, hfree, hrun⟩ := bind_ok.mp hrun
  obtain ⟨rfl, rfl⟩ := pure_ok.mp hrun
  obtain ⟨new, tables, hadds, hiff⟩ := fdtFixupAndLoad_ok hfix
  rw [keeps_say _ hsay, hfw₃] at hadds hiff
  refine Or.inr ⟨rfl, ⟨hneg, hsmall, hbad⟩, new, tables, ?_, hiff⟩
  rw [keeps_free _ hfree]
  exact hadds

/-- **The devicetree** of an entry: nothing is left behind when it fails, and what it changes
otherwise is a table and reserved pages. -/
theorem loadFdt_ok {ok : Bool} (h : loadFdt ck cfg p vol a fw = .ok (ok, fw')) :
    (ok = false ∧ fw'.env = fw.env ∧ ¬ FdtPasses ck cfg p vol a) ∨
    (ok = true ∧ FdtPasses ck cfg p vol a ∧ ∃ new tables, Adds fw.env new tables fw'.env ∧
      (new = [] ∧ tables = fw.env.tables ↔ ¬ FdtChanges cfg p a)) := by
  obtain ⟨r, fw₁, hget, hrun⟩ := bind_ok.mp h
  obtain ⟨henv, hpair⟩ := getFdtPair_ok hget
  cases r with
  | none =>
      obtain ⟨rfl, hsay⟩ := say_pure_ok hrun
      have hno : ∀ path, ¬ fdtPairOf cfg p = .ok (some path) := by
        intro path hc
        rw [hpair] at hc
        simp at hc
      refine Or.inr ⟨rfl, fun path hc => absurd hc (hno path), [], fw.env.tables, ?_, ?_⟩
      · rw [keeps_say _ hsay, henv]
        exact .none _
      · simp [FdtChanges, hno]
  | some q =>
      obtain ⟨buffer, path⟩ := q
      have hfdt : fdtPairOf cfg p = .ok (some path) := hpair
      have hpasses : FdtPasses ck cfg p vol a ↔ FdtRead ck vol a path := by
        unfold FdtPasses
        rw [hfdt]
        exact ⟨fun h => h path rfl, fun h q hq => by
          obtain rfl := Option.some.inj (Except.ok.inj hq)
          exact h⟩
      have hchanges : FdtChanges cfg p a ↔
          (a.installTable = EFI_SUCCESS ∨ reservedOf a ≠ []) := by
        simp [FdtChanges, hfdt]
      rw [hpasses, hchanges, ← henv]
      exact loadFdtFrom_ok hrun

end

end LoliLoader.Boot
