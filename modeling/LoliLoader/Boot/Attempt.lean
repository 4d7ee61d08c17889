/-
# LoliLoader.Boot.Attempt -- the kernel of a boot attempt

Everything `load_and_validate_entry` can do until the kernel is loaded, one constructor for each end
it may come to; and what unloading the kernel takes away again.

A boot attempt falls into two halves. The first one finds the kernel, allocates pages for it, reads
it and has the firmware load the image; the second one sets up what the kernel is started with. The
halves meet in `KernelPhase`: each of its constructors has what is left in the environment, with the
facts about the firmware's answers that lead to it.

Four of the ends are failures, of which two leave something behind, and at the fifth the second half
begins. It is these facts that tell the failures apart, since what the function returns is the same.
So a theorem about failed attempts has its cases here, and never goes through the function again.

`loadAndValidateEntry_ok` is an inversion: it says what a run has done that has returned. That a run
returns is a matter of `Boot.Faults`.
-/
import LoliLoader.Boot.Initrd

namespace LoliLoader.Boot

open C Menu

section

variable (ck : CharKind) (cfg : CString) (p : Nat) (vol : Volume) (a : Answers)

/-- The kernel is found and there are pages for it: the entry names a path, the file has a size, and
the firmware gives memory. -/
structure KernelPlaced (path : CString) : Prop where
  pair : menuGetPair cfg p kernelKey = .ok (some path)
  sized : ¬ fileSizeOf ck vol a.kernelSize path < 0
  pages : a.kernelPages.isSome

/-- The kernel is placed, but it is not read: the file cannot be opened again, or is a directory by
then. -/
def KernelUnread : Prop :=
  ∃ path, KernelPlaced ck cfg p vol a path ∧ fileLoadOf ck vol a.kernelLoad path < 0

/-- The kernel is placed and `file_load` says that it is read, be it all of the file or not. -/
def KernelRead : Prop :=
  ∃ path, KernelPlaced ck cfg p vol a path ∧ ¬ fileLoadOf ck vol a.kernelLoad path < 0

/-- The environment with the kernel in its pages and, loaded from their first `n` bytes, as
an image. -/
def withKernel (env : Environment) (m : Memory) (n : Nat) : Environment :=
  { env with
    pages := ⟨fresh (env.pages.map PageRun.base), m⟩ :: env.pages
    images := ⟨fresh (env.images.map Image.handle), m.take n, none, 0⟩ :: env.images }

/-- The ends `load_and_validate_entry` may come to with its kernel, each with what it leaves in the
environment. The last one goes on with `setUpKernel`. -/
inductive KernelPhase (fw : Firmware) : Attempt → Firmware → Prop where
  | absent {fw'} (no : ¬ ∃ path, KernelPlaced ck cfg p vol a path) (env : fw'.env = fw.env) :
      KernelPhase fw ⟨-1, none⟩ fw'
  | unread {fw'} {run : PageRun} (unread : KernelUnread ck cfg p vol a)
      (env : fw'.env = { fw.env with pages := run :: fw.env.pages }) :
      KernelPhase fw ⟨-1, none⟩ fw'
  | refused {fw'} (read : KernelRead ck cfg p vol a) (answer : a.loadImage = .failed)
      (env : fw'.env = fw.env) : KernelPhase fw ⟨-1, none⟩ fw'
  | violation {fw'} {image : Image} (read : KernelRead ck cfg p vol a)
      (answer : a.loadImage = .securityViolation)
      (env : fw'.env = { fw.env with images := image :: fw.env.images }) :
      KernelPhase fw ⟨-1, none⟩ fw'
  | loaded {r fw₁ fw'} {path : CString} {kernel : Nat} {f : File} {m : Memory}
      (placed : KernelPlaced ck cfg p vol a path)
      (read : 0 ≤ fileLoadOf ck vol a.kernelLoad path)
      (answer : a.loadImage = .loaded)
      (opened : openedFile ck vol a.kernelLoad path = some f)
      (delivered : ∃ junk, deliver (junkMemory junk
        ((sizeToEfiPages (fileSizeOf ck vol a.kernelSize path).toUInt64).toNat * 4096))
        (f.contents.take a.kernelLoad.read.transferred) = .ok m)
      (env : fw₁.env
        = withKernel fw.env m (fileSizeOf ck vol a.kernelSize path).toUInt64.toNat)
      (rest : setUpKernel ck cfg p vol a path kernel (fresh (fw.env.pages.map PageRun.base))
        (fileSizeOf ck vol a.kernelSize path) (fresh (fw.env.images.map Image.handle)) fw₁
          = .ok (r, fw')) :
      KernelPhase fw r fw'

variable {ck cfg p vol a} {fw fw' : Firmware} {r : Attempt}

theorem kernelPlaced_unique {path path' : CString} (h : KernelPlaced ck cfg p vol a path)
    (h' : KernelPlaced ck cfg p vol a path') : path = path' := by
  have heq := h.pair.symm.trans h'.pair
  exact Option.some.inj (Except.ok.inj heq)

/-- A kernel that is read is not one that is unread. -/
theorem KernelRead.not_unread (h : KernelRead ck cfg p vol a) : ¬ KernelUnread ck cfg p vol a := by
  obtain ⟨path, hplaced, hread⟩ := h
  rintro ⟨path', hplaced', hbad⟩
  obtain rfl := kernelPlaced_unique hplaced hplaced'
  exact hread hbad

theorem freePages_ok {b : Nat} {u : Unit} (h : freePages b fw = .ok (u, fw')) :
    fw'.env = { fw.env with pages := fw.env.pages.filter fun r => r.base ≠ b } := by
  rw [← modify_ok.mp h]
  rfl

theorem freeKernel_ok {kernel : Nat} (h : freeKernel kernel fw = .ok (r, fw')) :
    r = ⟨-1, none⟩ ∧ fw'.env = fw.env := by
  obtain ⟨u, fw₁, hfree, hrun⟩ := bind_ok.mp h
  obtain ⟨rfl, rfl⟩ := pure_ok.mp hrun
  exact ⟨rfl, keeps_free _ hfree⟩

theorem freeKernelBase_ok {kernel b : Nat} (h : freeKernelBase kernel b fw = .ok (r, fw')) :
    r = ⟨-1, none⟩ ∧
      fw'.env = { fw.env with pages := fw.env.pages.filter fun r => r.base ≠ b } := by
  obtain ⟨u, fw₁, hfree, hrun⟩ := bind_ok.mp h
  obtain ⟨rfl, henv⟩ := freeKernel_ok hrun
  exact ⟨rfl, by rw [henv, freePages_ok hfree]⟩

/-- **Unloading** takes the pages and the image of the kernel away, and leaves all else in the
environment. -/
theorem unloadKernel_ok {kernel b handle : Nat}
    (h : unloadKernel kernel b handle fw = .ok (r, fw')) :
    r = ⟨-1, none⟩ ∧ fw'.env = { fw.env with
      pages := fw.env.pages.filter fun r => r.base ≠ b
      images := fw.env.images.filter fun i => i.handle ≠ handle } := by
  obtain ⟨u, fw₁, hunload, hrun⟩ := bind_ok.mp h
  obtain ⟨rfl, henv⟩ := freeKernelBase_ok hrun
  exact ⟨rfl, by rw [henv, ← modify_ok.mp hunload]⟩

theorem filter_handle {n : Nat} {images : List Image} (h : n ∉ images.map Image.handle) :
    images.filter (fun i => i.handle ≠ n) = images := by
  rw [List.filter_eq_self]
  intro i hi
  simp only [decide_eq_true_eq]
  rintro rfl
  exact h (List.mem_map_of_mem hi)

/-- What has been added since the kernel was loaded stays when it is unloaded. -/
theorem unload_adds {env env' : Environment} {m : Memory} {n : Nat} {new : List PageRun}
    {tables : List Table} (h : Adds (withKernel env m n) new tables env') :
    ({ env' with
      pages := env'.pages.filter fun r => r.base ≠ fresh (env.pages.map PageRun.base)
      images := env'.images.filter fun i => i.handle ≠ fresh (env.images.map Image.handle) }
        : Environment) = { env with pages := new ++ env.pages, tables := tables } := by
  have hnew : new.filter (fun r => r.base ≠ fresh (env.pages.map PageRun.base)) = new := by
    rw [List.filter_eq_self]
    intro r hr
    simp only [decide_eq_true_eq]
    intro heq
    exact h.bases r hr (heq ▸ List.mem_cons_self)
  rw [h.eq]
  simp only [withKernel, List.filter_append, hnew]
  rw [List.filter_cons_of_neg (by simp), List.filter_cons_of_neg (by simp),
    filter_base (fresh_notMem _), filter_handle (fresh_notMem _)]

/-- The image is loaded unless `loadImage` fails, also with a security violation. -/
theorem loadImage_ok {answer : LoadImage} {source : Memory} {res : Bool × Option Nat}
    (h : loadImage answer source fw = .ok (res, fw')) :
    (answer = .failed ∧ res = (false, none) ∧ fw'.env = fw.env) ∨
    ((answer = .loaded ∧ res = (true, some (fresh (fw.env.images.map Image.handle))) ∨
      answer = .securityViolation ∧
        res = (false, some (fresh (fw.env.images.map Image.handle)))) ∧
      fw'.env = { fw.env with images :=
        ⟨fresh (fw.env.images.map Image.handle), source, none, 0⟩ :: fw.env.images }) := by
  obtain ⟨s, fw₁, hget, hrun⟩ := bind_ok.mp h
  obtain ⟨rfl, rfl⟩ := get_ok.mp hget
  cases answer with
  | failed =>
      obtain ⟨rfl, rfl⟩ := pure_ok.mp hrun
      exact Or.inl ⟨rfl, rfl, rfl⟩
  | loaded =>
      obtain ⟨u, fw₂, hset, hrun'⟩ := bind_ok.mp hrun
      obtain rfl := set_ok.mp hset
      obtain ⟨rfl, rfl⟩ := pure_ok.mp hrun'
      exact Or.inr ⟨Or.inl ⟨rfl, rfl⟩, rfl⟩
  | securityViolation =>
      obtain ⟨u, fw₂, hset, hrun'⟩ := bind_ok.mp hrun
      obtain rfl := set_ok.mp hset
      obtain ⟨rfl, rfl⟩ := pure_ok.mp hrun'
      exact Or.inr ⟨Or.inr ⟨rfl, rfl⟩, rfl⟩

/-- **`load_and_validate_entry`**, if it returns, comes to one of the ends of `KernelPhase`, and to
what that says of the environment. -/
theorem loadAndValidateEntry_ok
    (h : loadAndValidateEntry ck cfg p vol a fw = .ok (r, fw')) :
    KernelPhase ck cfg p vol a fw r fw' := by
  unfold loadAndValidateEntry at h
  obtain ⟨o, fw₁, hget, hrun⟩ := bind_ok.mp h
  have hpair := getPair_ok hget
  have henv₁ := keeps_getPair _ _ _ hget
  cases o with
  | none =>
      obtain ⟨rfl, hsay⟩ := say_pure_ok hrun
      refine .absent ?_ (by rw [keeps_say _ hsay, henv₁])
      rintro ⟨path, hplaced⟩
      have heq := hpair.symm.trans hplaced.pair
      simp at heq
  | some q =>
      obtain ⟨kernel, path⟩ := q
      replace hpair : menuGetPair cfg p kernelKey = .ok (some path) := hpair
      -- there is one pair for the kernel: a failure refutes `KernelPlaced` for its path
      have hpath : ∀ {path'}, KernelPlaced ck cfg p vol a path' → path' = path := by
        intro path' hplaced
        exact Option.some.inj (Except.ok.inj (hplaced.pair.symm.trans hpair))
      cases loadIntoPages_cases (withPages_getPair hget) hrun with
      | unsized hneg hstart hrest =>
          obtain ⟨rfl, hsay⟩ := say_pure_ok hrest
          refine .absent ?_ ((keeps_say _ hsay).trans hstart.env)
          rintro ⟨path', hplaced⟩
          exact (hpath hplaced ▸ hplaced).sized hneg
      | noPages _ hnone hstart hrest =>
          obtain ⟨rfl, hsay⟩ := say_pure_ok hrest
          refine .absent ?_ ((keeps_say _ hsay).trans hstart.env)
          rintro ⟨path', hplaced⟩
          have hgiven := hplaced.pages
          simp [hnone] at hgiven
      | unread hneg hsome hbad hstart hrest =>
          obtain ⟨u, fw₂, hsay, hrest⟩ := bind_ok.mp hrest
          obtain ⟨rfl, henv⟩ := freeKernel_ok hrest
          exact .unread ⟨path, ⟨hpair, hneg, hsome⟩, hbad⟩
            (by rw [henv, keeps_say _ hsay, hstart.env]; rfl)
      | @loaded fw₁ m f hneg hsome hread hf hdel hstart hrest =>
          have hplaced : KernelPlaced ck cfg p vol a path := ⟨hpair, hneg, hsome⟩
          have hkread : KernelRead ck cfg p vol a := ⟨path, hplaced, hread⟩
          have hnew := fresh_notMem (fw.env.pages.map PageRun.base)
          obtain ⟨res, fw₂, himage, hrest⟩ := bind_ok.mp hrest
          obtain ⟨m', fw₃, hat, hloaded⟩ := bind_ok.mp himage
          have henv := hstart.env
          obtain ⟨rfl, rfl⟩ := pagesAt_ok (congrArg Environment.pages henv) hat
          have himages : fw₃.env.images = fw.env.images := by rw [henv]
          -- only `free_kernel_base` gives the pages back; it does not look for an image
          rcases loadImage_ok hloaded with ⟨hans, rfl, henv'⟩ | ⟨⟨hans, rfl⟩ | ⟨hans, rfl⟩, henv'⟩
          · obtain ⟨u, fw₄, hsay, hrest⟩ := bind_ok.mp hrest
            obtain ⟨rfl, hfreed⟩ := freeKernelBase_ok hrest
            refine .refused hkread hans ?_
            rw [hfreed, keeps_say _ hsay, henv', henv, List.singleton_append]
            dsimp only
            rw [List.filter_cons_of_neg (by simp), filter_base hnew]
          · rw [himages] at hrest henv'
            refine .loaded hplaced (Int64.not_lt.mp hread) hans hf hdel ?_ hrest
            rw [henv', henv]
            rfl
          · obtain ⟨u, fw₄, hsay, hrest⟩ := bind_ok.mp hrest
            obtain ⟨rfl, hfreed⟩ := freeKernelBase_ok hrest
            have hleft : fw'.env = { fw.env with
                images := ⟨fresh (fw.env.images.map Image.handle),
                  m'.take (fileSizeOf ck vol a.kernelSize path).toUInt64.toNat, none, 0⟩
                    :: fw.env.images } := by
              rw [hfreed, keeps_say _ hsay, henv', henv, List.singleton_append]
              dsimp only
              rw [List.filter_cons_of_neg (by simp), filter_base hnew]
            exact .violation hkread hans hleft

end

end LoliLoader.Boot
