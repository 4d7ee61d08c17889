/-
# LoliLoader.Boot.Faults -- where a boot attempt reads or writes what it must not

All parts of `load_and_validate_entry` stay inside the memory they have, but for one: the copy of a
devicetree is as long as its header says.

`Faults` is that a run does what C code must not do, and `Safe` that no run does, whatever the
machine is. Most of the attempt is safe, part by part: the lookups in the configuration, the file
functions, which read no more than there is room for, and the services of the firmware. The rules
for sequences say that what comes behind a part that returns decides (`faults_bind`,
`faults_bind_safe`).

The pages for a file have room for the size that was reported for it, and the read is asked for no
more than that size. So it does no harm that the file may have changed meanwhile.

`attempt_faults_iff` is an equivalence. It names the one condition: the kernel has been loaded, and
then a devicetree is read whose header declares more bytes than the file has.
-/
import LoliLoader.Boot.Devicetree
import LoliLoader.Boot.Failure
import LoliLoader.Boot.Said

namespace LoliLoader.Boot

open C Extlinux Menu

/-! ## Runs with and without a fault -/

section

variable {α β : Type} {x : Run α} {f : α → Run β} {fw fw' : Firmware} {r : α}

/-- The run does what C code must not do, on this machine. -/
def Faults (x : Run α) (fw : Firmware) : Prop := ∃ e, x fw = .error e

/-- No run of `x` does, on whatever machine it is started. -/
def Safe (x : Run α) : Prop := ∀ fw, ∃ r, x fw = .ok r

theorem not_faults (h : ∃ r, x fw = .ok r) : ¬ Faults x fw := by
  rintro ⟨e, he⟩
  obtain ⟨r, hr⟩ := h
  rw [hr] at he
  cases he

theorem Safe.not_faults (h : Safe x) : ¬ Faults x fw := Boot.not_faults (h fw)

/-- What is done first has been done. -/
theorem faults_bind (h : x fw = .ok (r, fw')) : Faults (x >>= f) fw ↔ Faults (f r) fw' := by
  unfold Faults
  rw [bind_run h]

/-- What comes behind is safe. -/
theorem faults_bind_safe (hf : ∀ a, Safe (f a)) : Faults (x >>= f) fw ↔ Faults x fw := by
  constructor
  · rintro ⟨e, he⟩
    cases hx : x fw with
    | error e' => exact ⟨e', hx⟩
    | ok r =>
        obtain ⟨b, hb⟩ := hf r.1 r.2
        rw [bind_run hx, hb] at he
        cases he
  · rintro ⟨e, he⟩
    refine ⟨e, ?_⟩
    show (x fw >>= fun r => f r.1 r.2) = _
    rw [he]
    rfl

theorem returns_bind (h : x fw = .ok (r, fw')) (hf : ∃ b, f r fw' = .ok b) :
    ∃ b, (x >>= f) fw = .ok b := by
  rw [bind_run h]
  exact hf

theorem Safe.bind (hx : Safe x) (hf : ∀ a, Safe (f a)) : Safe (x >>= f) := by
  intro fw
  obtain ⟨⟨r, fw'⟩, h⟩ := hx fw
  exact returns_bind h (hf r fw')

theorem safe_pure (a : α) : Safe (pure a : Run α) := fun fw => ⟨(a, fw), rfl⟩

theorem safe_modify (g : Firmware → Firmware) : Safe (modify g) := fun fw => ⟨((), g fw), rfl⟩

theorem safe_get : Safe (get : Run Firmware) := fun fw => ⟨(fw, fw), rfl⟩

theorem safe_set (s : Firmware) : Safe (set s : Run PUnit) := fun _ => ⟨((), s), rfl⟩

theorem safe_say (out : List Output) : Safe (say out) := safe_modify _

theorem safe_malloc : Safe malloc := fun fw => ⟨_, malloc_run fw⟩

theorem safe_free (p : Nat) : Safe (free p) := safe_modify _

theorem safe_ite {c : Prop} [Decidable c] {y : Run α} (hx : Safe x) (hy : Safe y) :
    Safe (if c then x else y) := by
  split
  · exact hx
  · exact hy

end

/-! ## The services -/

theorem safe_mallocPages (answer : Option (Nat → UInt8)) (size : UInt64) :
    Safe (mallocPages answer size) := by
  unfold mallocPages
  cases answer with
  | none => exact safe_pure _
  | some contents => exact safe_get.bind fun fw => (safe_set _).bind fun _ => safe_pure _

theorem safe_installProtocolInterface (status : Status) (handle : Option Nat) (guid : Guid)
    (interface : Interface) : Safe (installProtocolInterface status handle guid interface) := by
  unfold installProtocolInterface
  refine safe_ite ?_ (safe_pure _)
  exact safe_get.bind fun fw => (safe_set _).bind fun _ => safe_pure _

theorem safe_initrdSetup (a : Answers) (base : Nat) (size : UInt64) :
    Safe (initrdSetup a base size) := by
  unfold initrdSetup
  refine safe_malloc.bind fun p => (safe_installProtocolInterface _ _ _ _).bind ?_
  rintro ⟨ret, initrd⟩
  refine safe_ite ((safe_say _).bind fun _ => (safe_free p).bind fun _ => safe_pure _) ?_
  refine (safe_installProtocolInterface _ _ _ _).bind ?_
  rintro ⟨ret', handle⟩
  refine safe_ite ((safe_say _).bind fun _ => ?_) (safe_pure _)
  cases initrd with
  | none => exact (safe_free p).bind fun _ => safe_pure _
  | some n => exact (safe_modify _).bind fun _ => (safe_free p).bind fun _ => safe_pure _

/-! ## The pairs of an entry -/

section

variable {cfg : CString} {p : Nat}

/-- The lookups of an attempt return: each of the keys is either found and copied or not there. -/
def LookupsReturn (cfg : CString) (p : Nat) : Prop :=
  ∀ key ∈ entryKeys, ∃ v, menuGetPair cfg p key = .ok v

theorem lookupsReturn_entry (h : p ∈ entryPositions cfg) : LookupsReturn cfg p := by
  obtain ⟨own, hown, rfl⟩ := List.mem_map.mp h
  intro key hkey
  obtain ⟨K, hK, rfl⟩ := exists_key_of_mem_entryKeys hkey
  have hget := extlinuxGetValue_entry hown hK
  cases hfind : findPair K.tokens (block cfg (firstPlain own)) with
  | none =>
      rw [hfind] at hget
      exact ⟨none, menuGetPair_none hget⟩
  | some l =>
      rw [hfind] at hget
      obtain ⟨hblock, hpair⟩ := mem_of_findPair hfind
      obtain ⟨c, hc, -⟩ := (finds_of_getValue (mem_lines_of_mem_block hblock) hpair hget).copy
      exact ⟨some c, hc⟩

theorem safe_getPair (h : LookupsReturn cfg p) {key : CString} (hkey : key ∈ entryKeys) :
    Safe (getPair cfg p key) := by
  obtain ⟨v, hv⟩ := h key hkey
  intro fw
  unfold getPair
  refine returns_bind (lift_run hv fw) ?_
  cases v with
  | none => exact safe_pure _ fw
  | some c => exact safe_malloc.bind (fun q => safe_pure _) fw

theorem safe_loadAppend (ck : CharKind) (h : LookupsReturn cfg p) (handle : Nat) :
    Safe (loadAppend ck cfg p handle) := by
  unfold loadAppend
  refine (safe_getPair h (by decide)).bind fun append => ?_
  cases append with
  | none => exact (safe_say _).bind fun _ => safe_pure _
  | some q =>
      refine (safe_say _).bind fun _ => Safe.bind ?_ fun _ => safe_pure _
      exact safe_malloc.bind fun _ => safe_modify _

end

/-! ## Files in pages -/

section

variable {ck : CharKind} {vol : Volume} {sizes loads : FileAnswers}
  {pages : Option (Nat → UInt8)} {path : CString}

theorem fileLoadPages_returns {b : Nat} {memory : Memory} {rest : List PageRun} {fw : Firmware}
    (hpages : fw.env.pages = ⟨b, memory⟩ :: rest)
    (hroom : ∀ f, openedFile ck vol loads path = some f → f.contents.length ≤ memory.length) :
    ∃ r, fileLoadPages ck vol loads path b fw = .ok r := by
  have hat : pagesAt b fw = .ok (memory, fw) := by
    unfold pagesAt
    rw [bind_run (get_ok.mpr ⟨rfl, rfl⟩), hpages, List.find?_cons_of_pos (by simp)]
    rfl
  unfold fileLoadPages
  refine returns_bind hat ?_
  obtain ⟨⟨ret, m⟩, hload⟩ := fileLoad_run hroom fw
  exact returns_bind hload (((safe_modify _).bind fun _ => safe_pure _) _)

/-- How a run goes on from a file that is to be loaded into pages: one of the four ends, on some
machine. -/
inductive GoesOn {α : Type} (ck : CharKind) (vol : Volume) (sizes loads : FileAnswers)
    (pages : Option (Nat → UInt8)) (path : CString) (unsized noPages unread : Run α)
    (loaded : Int64 → Nat → Int64 → Run α) (run : Except Fault (α × Firmware)) : Prop where
  | unsized {fw₁} (size : fileSizeOf ck vol sizes path < 0) (eq : run = unsized fw₁)
  | noPages {fw₁} (size : ¬ fileSizeOf ck vol sizes path < 0) (refused : pages = none)
      (eq : run = noPages fw₁)
  | unread {fw₁} (size : ¬ fileSizeOf ck vol sizes path < 0) (given : pages.isSome)
      (read : fileLoadOf ck vol loads path < 0) (eq : run = unread fw₁)
  | loaded {fw₁ base m rest} (size : ¬ fileSizeOf ck vol sizes path < 0) (given : pages.isSome)
      (read : ¬ fileLoadOf ck vol loads path < 0) (newest : fw₁.env.pages = ⟨base, m⟩ :: rest)
      (eq : run = loaded (fileSizeOf ck vol sizes path) base (fileLoadOf ck vol loads path) fw₁)

/-- **A file is loaded into pages** within them: the run comes to one of the four ends, and no
access is out of bounds before. -/
theorem loadIntoPages_run {α : Type} (unsized noPages unread : Run α)
    (loaded : Int64 → Nat → Int64 → Run α) (fw : Firmware) :
    GoesOn ck vol sizes loads pages path unsized noPages unread loaded
      (loadIntoPages ck vol sizes loads pages path unsized noPages unread loaded fw) := by
  obtain ⟨fw₁, hsize, henv₁⟩ := fileGetSize_returns ck vol sizes path fw
  unfold loadIntoPages
  rw [bind_run hsize]
  by_cases hneg : fileSizeOf ck vol sizes path < 0
  · rw [if_pos hneg]
    exact .unsized hneg rfl
  rw [if_neg hneg]
  obtain ⟨⟨b, fw₂⟩, hmalloc⟩ := safe_mallocPages pages
    (fileSizeOf ck vol sizes path).toUInt64 fw₁
  rw [bind_run hmalloc]
  rcases mallocPages_ok hmalloc with ⟨hnone, rfl, -⟩ | ⟨junk, hsome, rfl, henv₂⟩
  · exact .noPages hneg hnone rfl
  have hgiven : pages.isSome := by rw [hsome, Option.isSome_some]
  have hpages := congrArg Environment.pages henv₂
  -- the pages have room for the file
  have hroom : ∀ f, openedFile ck vol loads path = some f → f.contents.length ≤ (junkMemory junk
      ((sizeToEfiPages (fileSizeOf ck vol sizes path).toUInt64).toNat * 4096)).length := by
    intro f hf
    obtain ⟨g, hg, hbound, hlen⟩ := fileSizeOf_nonneg hneg
    obtain rfl := openedFile_unique (openedFile_named hg) hf
    rw [length_junkMemory, ← hlen]
    exact sizeToEfiPages_room (by rw [hlen]; exact hbound)
  obtain ⟨⟨ret, fw₃⟩, hload⟩ := fileLoadPages_returns hpages hroom
  obtain ⟨rfl, m, henv₃, -⟩ := fileLoadPages_ok hpages (fresh_notMem _) hload
  dsimp only
  rw [bind_run hload]
  by_cases hbad : fileLoadOf ck vol loads path < 0
  · rw [if_pos hbad]
    exact .unread hneg hgiven hbad rfl
  · rw [if_neg hbad]
    exact .loaded hneg hgiven hbad (congrArg Environment.pages henv₃) rfl

/-- Only the last end may fault, and it does so whatever the machine is. -/
theorem faults_loadIntoPages {α : Type} {unsized noPages unread : Run α}
    {loaded : Int64 → Nat → Int64 → Run α} {fw : Firmware} {P : Prop} (hunsized : Safe unsized)
    (hnoPages : Safe noPages) (hunread : Safe unread)
    (hloaded : ∀ size base ret fw₁ m rest, fw₁.env.pages = ⟨base, m⟩ :: rest →
      (Faults (loaded size base ret) fw₁ ↔ P)) :
    Faults (loadIntoPages ck vol sizes loads pages path unsized noPages unread loaded) fw ↔
      (¬ fileSizeOf ck vol sizes path < 0 ∧ pages.isSome ∧ ¬ fileLoadOf ck vol loads path < 0) ∧
        P := by
  unfold Faults at *
  cases @loadIntoPages_run ck vol sizes loads pages path _ unsized noPages unread loaded fw with
  | unsized size eq =>
      rw [eq]
      exact iff_of_false hunsized.not_faults fun h => h.1.1 size
  | noPages size refused eq =>
      rw [eq]
      refine iff_of_false hnoPages.not_faults fun h => ?_
      rw [refused] at h
      cases h.1.2.1
  | unread size given read eq =>
      rw [eq]
      exact iff_of_false hunread.not_faults fun h => h.1.2.2 read
  | loaded size given read newest eq =>
      rw [eq, hloaded _ _ _ _ _ _ newest]
      exact ⟨fun h => ⟨⟨size, given, read⟩, h⟩, fun h => h.2⟩

theorem safe_loadIntoPages {α : Type} {unsized noPages unread : Run α}
    {loaded : Int64 → Nat → Int64 → Run α} (hunsized : Safe unsized) (hnoPages : Safe noPages)
    (hunread : Safe unread) (hloaded : ∀ size base ret, Safe (loaded size base ret)) :
    Safe (loadIntoPages ck vol sizes loads pages path unsized noPages unread loaded) := by
  intro fw
  cases @loadIntoPages_run ck vol sizes loads pages path _ unsized noPages unread loaded fw with
  | unsized size eq =>
      rw [eq]
      exact hunsized _
  | noPages size refused eq =>
      rw [eq]
      exact hnoPages _
  | unread size given read eq =>
      rw [eq]
      exact hunread _
  | loaded size given read newest eq =>
      rw [eq]
      exact hloaded _ _ _ _

theorem safe_loadInitrd {cfg : CString} {p : Nat} (h : LookupsReturn cfg p) (a : Answers) :
    Safe (loadInitrd ck cfg p vol a) := by
  unfold loadInitrd
  refine (safe_getPair h (by decide)).bind fun initrd => ?_
  have hsaid : ∀ out, Safe (do say out; return false : Run Bool) :=
    fun out => (safe_say out).bind fun _ => safe_pure _
  cases initrd with
  | none => exact (safe_say _).bind fun _ => safe_pure _
  | some q =>
      refine safe_loadIntoPages (hsaid _) (hsaid _) (hsaid _) fun size base ret => ?_
      exact (safe_say _).bind fun _ => (safe_initrdSetup _ _ _).bind fun _ => safe_pure _

end

/-! ## The devicetree -/

section

variable (ck : CharKind) (cfg : CString) (p : Nat) (vol : Volume) (a : Answers)

/-- The devicetree is read, and the header in memory declares more than the file has. -/
def FdtOverruns : Prop :=
  ∃ path f memory, fdtPairOf cfg p = .ok (some path) ∧ FdtRead ck vol a path ∧
    vol (openedPath ck path) = some f ∧
    deliver (junkMemory a.fdtMemory f.contents.length)
      (f.contents.take a.fdtLoad.read.transferred) = .ok memory ∧
    f.contents.length < (declaredSize (memory.map Cell.byte)).toNat

variable {ck cfg p vol a} {fw : Firmware}

theorem byteAt_lt {memory : Memory} {i : Nat} (h : i < memory.length) :
    byteAt memory i = .ok ((memory.map Cell.byte).getD i 0) := by
  rw [byteAt, List.getD_eq_getElem?_getD, List.getElem?_map, List.getElem?_eq_getElem h]
  rfl

theorem totalSize_memory {memory : Memory} (h : 28 ≤ memory.length) :
    totalSize memory = .ok (declaredSize (memory.map Cell.byte)) := by
  rw [totalSize, byteAt_lt (by omega), byteAt_lt (by omega), byteAt_lt (by omega),
    byteAt_lt (by omega)]
  rfl

/-- **The copy** of a devicetree reads behind it exactly if its header, as it is in memory, declares
more than there is. -/
theorem faults_fdtFixupAndLoad {memory : Memory} (h : 28 ≤ memory.length) :
    Faults (fdtFixupAndLoad a memory) fw ↔
      memory.length < (declaredSize (memory.map Cell.byte)).toNat := by
  unfold fdtFixupAndLoad
  rw [faults_bind (lift_run (totalSize_memory h) fw), faults_bind (say_run _ fw),
    faults_bind (malloc_run _), UInt32.toNat_toUInt64, copySize_toNat]
  by_cases hlt : memory.length < (declaredSize (memory.map Cell.byte)).toNat
  · refine iff_of_true ⟨.read memory.length, ?_⟩ hlt
    rw [copyBlock, if_pos hlt]
    rfl
  · refine iff_of_false (not_faults ?_) hlt
    have hcopy : ∃ m, copyBlock memory (declaredSize (memory.map Cell.byte)).toNat
        (junkMemory a.copyMemory ((declaredSize (memory.map Cell.byte)).toNat + 4096)) = .ok m := by
      rw [copyBlock, if_neg hlt, length_junkMemory, if_neg (by omega)]
      exact ⟨_, rfl⟩
    obtain ⟨m, hm⟩ := hcopy
    refine returns_bind (lift_run hm _) ?_
    cases a.fixup with
    | none => exact ((safe_say _).bind fun _ => safe_modify _) _
    | some dtp =>
        refine ((safe_modify _).bind fun _ => ?_) _
        exact safe_ite ((safe_say _).bind fun _ => safe_modify _)
          ((safe_say _).bind fun _ => safe_modify _)

/-- The devicetree at `path`. -/
theorem faults_loadFdtFrom {path : CString} :
    Faults (loadFdtFrom ck vol a path) fw ↔ FdtRead ck vol a path ∧
      ∃ f memory, vol (openedPath ck path) = some f ∧
        deliver (junkMemory a.fdtMemory f.contents.length)
          (f.contents.take a.fdtLoad.read.transferred) = .ok memory ∧
        f.contents.length < (declaredSize (memory.map Cell.byte)).toNat := by
  obtain ⟨fw₁, hsize, -⟩ := fileGetSize_returns ck vol a.fdtSize path fw
  have hsaid : ∀ out, Safe (do say out; return false : Run Bool) :=
    fun out => (safe_say out).bind fun _ => safe_pure _
  unfold loadFdtFrom
  rw [faults_bind hsize]
  by_cases hneg : fileSizeOf ck vol a.fdtSize path < 0
  · rw [if_pos hneg]
    exact iff_of_false (hsaid _).not_faults fun h => h.1.1 hneg
  rw [if_neg hneg]
  by_cases hsmall : (fileSizeOf ck vol a.fdtSize path).toUInt64 < 28
  · rw [if_pos hsmall]
    exact iff_of_false (hsaid _).not_faults fun h => h.1.2.1 hsmall
  rw [if_neg hsmall, faults_bind (malloc_run fw₁)]
  obtain ⟨f, hopened, -, hlen⟩ := fileSizeOf_nonneg hneg
  have hf := openedFile_named hopened
  have hlarge : 28 ≤ f.contents.length := by
    rw [← hlen]
    exact Nat.le_of_not_lt hsmall
  rw [hlen]
  have hroom : ∀ g, openedFile ck vol a.fdtLoad path = some g →
      g.contents.length ≤ (junkMemory a.fdtMemory f.contents.length).length := by
    intro g hg
    obtain rfl := openedFile_unique hf hg
    exact Nat.le_of_eq (length_junkMemory _ _).symm
  obtain ⟨⟨ret, memory⟩, hload⟩ := fileLoad_run hroom (allocated fw₁)
  obtain ⟨-, hret, hdel⟩ := fileLoad_ok hload
  dsimp only at hret hdel
  subst hret
  rw [faults_bind hload]
  dsimp only
  by_cases hbad : fileLoadOf ck vol a.fdtLoad path < 0
  · rw [if_pos hbad]
    refine iff_of_false (Safe.not_faults ?_) fun h => h.1.2.2 hbad
    exact (safe_say _).bind fun _ => (safe_free _).bind fun _ => safe_pure _
  rw [if_neg hbad, faults_bind (say_run _ _),
    faults_bind_safe fun _ => (safe_free _).bind fun _ => safe_pure _]
  obtain ⟨g, hg, hdel⟩ := hdel (Int64.not_lt.mp hbad)
  obtain rfl := openedFile_unique hf hg
  have hlength : memory.length = g.contents.length := by
    obtain ⟨hle, rfl⟩ := deliver_ok hdel
    rw [length_junkMemory] at hle
    rw [List.length_append, List.length_map, List.length_drop, length_junkMemory]
    omega
  rw [faults_fdtFixupAndLoad (by rw [hlength]; exact hlarge), hlength]
  constructor
  · exact fun hlt => ⟨⟨hneg, hsmall, hbad⟩, g, memory, hf, hdel, hlt⟩
  · rintro ⟨-, f, m, hf', hdel', hlt⟩
    obtain rfl := Option.some.inj (hf.symm.trans hf')
    obtain rfl := Except.ok.inj (hdel.symm.trans hdel')
    exact hlt

theorem safe_getFdtPair (h : LookupsReturn cfg p) : Safe (getFdtPair cfg p) := by
  unfold getFdtPair
  refine (safe_getPair h (by decide)).bind fun fdt => ?_
  exact safe_ite (safe_pure _) (safe_getPair h (by decide))

theorem faults_loadFdt (h : LookupsReturn cfg p) :
    Faults (loadFdt ck cfg p vol a) fw ↔ FdtOverruns ck cfg p vol a := by
  obtain ⟨⟨r, fw₁⟩, hget⟩ := safe_getFdtPair h fw
  obtain ⟨-, hpair⟩ := getFdtPair_ok hget
  unfold loadFdt FdtOverruns
  rw [faults_bind hget, hpair]
  cases r with
  | none =>
      refine iff_of_false (Safe.not_faults ?_) ?_
      · exact (safe_say _).bind fun _ => safe_pure _
      · rintro ⟨path, f, memory, hpath, -⟩
        cases hpath
  | some q =>
      rw [faults_loadFdtFrom]
      constructor
      · rintro ⟨hread, f, memory, hrest⟩
        exact ⟨q.2, f, memory, rfl, hread, hrest⟩
      · rintro ⟨path, f, memory, hpath, hread, hrest⟩
        obtain rfl := Option.some.inj (Except.ok.inj hpath)
        exact ⟨hread, f, memory, hrest⟩

end

/-! ## The attempt -/

section

variable {ck : CharKind} {cfg : CString} {p : Nat} {vol : Volume} {a : Answers} {fw : Firmware}

theorem safe_unloadKernel (kernel base handle : Nat) : Safe (unloadKernel kernel base handle) :=
  (safe_modify _).bind fun _ => (safe_modify _).bind fun _ => (safe_free _).bind fun _ =>
    safe_pure _

theorem faults_setUpKernel (h : LookupsReturn cfg p) {path : CString} {kernel base handle : Nat}
    {size : Int64} :
    Faults (setUpKernel ck cfg p vol a path kernel base size handle) fw ↔
      FdtOverruns ck cfg p vol a := by
  unfold setUpKernel
  rw [faults_bind (say_run _ fw), faults_bind_safe, faults_loadFdt h]
  intro ok
  refine safe_ite ?_ (safe_unloadKernel _ _ _)
  refine (safe_loadInitrd h a).bind fun ok' => safe_ite ?_ (safe_unloadKernel _ _ _)
  refine (safe_loadAppend ck h handle).bind fun append => (safe_free _).bind fun _ => ?_
  cases append with
  | none => exact safe_pure _
  | some buffer => exact (safe_free _).bind fun _ => safe_pure _

/-- `load_efi_image` of the newest pages. -/
theorem loadEfiImage_run {base : Nat} {m : Memory} {rest : List PageRun} (size : Int64)
    (hpages : fw.env.pages = ⟨base, m⟩ :: rest) :
    ∃ r fw', loadEfiImage a base size fw = .ok (r, fw') ∧
      (a.loadImage = .loaded → ∃ handle, r = (true, some handle)) ∧
      (a.loadImage ≠ .loaded → r.1 = false) := by
  have hat : pagesAt base fw = .ok (m, fw) := by
    unfold pagesAt
    rw [bind_run (get_ok.mpr ⟨rfl, rfl⟩), hpages, List.find?_cons_of_pos (by simp)]
    rfl
  unfold loadEfiImage
  rw [bind_run hat]
  cases hans : a.loadImage with
  | loaded => exact ⟨_, _, rfl, fun _ => ⟨_, rfl⟩, fun h => absurd rfl h⟩
  | securityViolation => exact ⟨_, _, rfl, fun h => absurd h (by decide), fun _ => rfl⟩
  | failed => exact ⟨_, _, rfl, fun h => absurd h (by decide), fun _ => rfl⟩

/-- **A boot attempt** reads or writes what it must not exactly if the kernel is loaded and the
devicetree then declares more than it has. -/
theorem faults_loadAndValidateEntry (h : LookupsReturn cfg p) :
    Faults (loadAndValidateEntry ck cfg p vol a) fw ↔
      KernelRead ck cfg p vol a ∧ a.loadImage = .loaded ∧ FdtOverruns ck cfg p vol a := by
  obtain ⟨⟨o, fw₁⟩, hget⟩ := @safe_getPair cfg p h kernelKey (by decide) fw
  have hpair := getPair_ok hget
  have hsaid : ∀ out, Safe (do say out; outErr) :=
    fun out => (safe_say out).bind fun _ => safe_pure _
  have hfreed : ∀ out kernel, Safe (do say out; freeKernel kernel) :=
    fun out kernel => (safe_say out).bind fun _ => (safe_free _).bind fun _ => safe_pure _
  unfold loadAndValidateEntry
  rw [faults_bind hget]
  cases o with
  | none =>
      refine iff_of_false (hsaid _).not_faults ?_
      rintro ⟨⟨path, hplaced, -⟩, -⟩
      have heq := hpair.symm.trans hplaced.pair
      simp at heq
  | some q =>
      replace hpair : menuGetPair cfg p kernelKey = .ok (some q.2) := hpair
      have hpath : ∀ {path}, KernelPlaced ck cfg p vol a path → path = q.2 := by
        intro path hplaced
        exact Option.some.inj (Except.ok.inj (hplaced.pair.symm.trans hpair))
      refine (faults_loadIntoPages (P := a.loadImage = .loaded ∧ FdtOverruns ck cfg p vol a)
        (hsaid _) (hsaid _) (hfreed _ _) ?_).trans ?_
      · intro size base ret fw₂ m rest hpages
        obtain ⟨⟨ok, handle⟩, fw₃, himage, hloaded, hnot⟩ := loadEfiImage_run size hpages
        rw [faults_bind himage]
        by_cases hans : a.loadImage = .loaded
        · obtain ⟨n, hn⟩ := hloaded hans
          obtain ⟨rfl, rfl⟩ := Prod.mk.inj hn
          rw [faults_setUpKernel h]
          exact ⟨fun hover => ⟨hans, hover⟩, fun hover => hover.2⟩
        · obtain rfl : ok = false := hnot hans
          refine iff_of_false (Safe.not_faults ?_) fun hover => hans hover.1
          exact (safe_say _).bind fun _ => (safe_modify _).bind fun _ => (safe_free _).bind fun _ =>
            safe_pure _
      · constructor
        · rintro ⟨⟨hsized, hgiven, hread⟩, hrest⟩
          exact ⟨⟨q.2, ⟨hpair, hsized, hgiven⟩, hread⟩, hrest⟩
        · rintro ⟨⟨path, hplaced, hread⟩, hrest⟩
          obtain rfl := hpath hplaced
          exact ⟨⟨hplaced.sized, hplaced.pages, hread⟩, hrest⟩

end

/-- A menu with one entry, which has a kernel and a devicetree. -/
def headerCfg : CString := ⟨ascii "label a\nkernel k\nfdt d\n", by decide⟩

end LoliLoader.Boot
