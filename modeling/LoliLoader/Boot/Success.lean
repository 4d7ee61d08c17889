/-
# LoliLoader.Boot.Success -- what is in place after a boot attempt that succeeds

The kernel image, the interface that serves the initrd and the options are what the entry asks for
if the firmware has done all it was asked. `file_load` looks neither at the status of the read nor
at the count it gives, and the status of `initrd_setup` is dropped: with a short read or a refused
interface the attempt succeeds all the same.

`InPlace` is what a caller relies on when an attempt has succeeded: the image was loaded from all of
the kernel, an interface serves all of the initrd, and the image has the options of the entry.
`Complete` is what the firmware has to have done for that. It is a condition on its answers and on
the files, and does not mention what the attempt has made of them.

`inPlace_iff_complete` says that they are equivalent for every attempt that succeeds. The direction
to `Complete` uses that cells of memory know where they come from; an image that was loaded from
pages which were never read is told from one that was.

The two attempts at the end differ in one answer: the read of the kernel transfers the file, or
nothing. Both succeed.
-/
import LoliLoader.Boot.Failure

namespace LoliLoader.Boot

open C Menu

/-! ## What should be in place -/

/-- The interface `i` hands out `contents` to every caller with a buffer for it. -/
def Serves (env : Environment) (i : Protocol) (contents : List UInt8) : Prop :=
  ∃ base size memory, i.guid = .loadFile2 ∧ i.interface = .initrdLoadFile2 base size ∧
    ⟨base, memory⟩ ∈ env.pages ∧
    ∀ n, size ≤ n → initrdLoadFile memory size false (some n) true
      = .ok ⟨EFI_SUCCESS, some size, contents.map Cell.data⟩

section

variable (ck : CharKind) (cfg : CString) (p : Nat) (vol : Volume) (a : Answers)

/-- Everything the entry asks for is in place in `env'`: the image has been loaded from all
of the kernel, an interface that serves the initrd has been installed, and the options are
those of the image. -/
structure InPlace (env : Environment) (handle : Option Nat) (env' : Environment) : Prop where
  kernel : ∃ path f, menuGetPair cfg p kernelKey = .ok (some path) ∧
    vol (openedPath ck path) = some f ∧
    ∃ i ∈ env'.images, some i.handle = handle ∧ i.source = f.contents.map Cell.data
  initrd : ∀ path, menuGetPair cfg p initrdKey = .ok (some path) →
    ∃ f, vol (openedPath ck path) = some f ∧
      ∃ i ∈ env'.protocols, i ∉ env.protocols ∧ Serves env' i f.contents
  append : ∀ options, menuGetPair cfg p appendKey = .ok (some options) →
    ∃ i ∈ env'.images, some i.handle = handle ∧ i.loadOptions = some (str2wcs ck options) ∧
      i.loadOptionSize.toNat = 2 * (options.length + 1)

/-- The firmware has read all of the files and installed what it was asked to; the size of
the options fits its field. -/
structure Complete : Prop where
  kernel : ∀ path f, menuGetPair cfg p kernelKey = .ok (some path) →
    vol (openedPath ck path) = some f → f.contents.length ≤ a.kernelLoad.read.transferred
  initrd : ∀ path f, menuGetPair cfg p initrdKey = .ok (some path) →
    vol (openedPath ck path) = some f →
    f.contents.length ≤ a.initrdLoad.read.transferred ∧
      a.initrdLoad.read.reported.toNat = f.contents.length ∧ Installs a
  append : ∀ options, menuGetPair cfg p appendKey = .ok (some options) →
    2 * (options.length + 1) < 2 ^ 32

end

/-! ## The initrd -/

/-- The calls of `initrd_load_file` with a buffer. -/
theorem initrdLoadFile_ok_iff {memory delivered : Memory} {size : UInt64} :
    (∀ n, size ≤ n → initrdLoadFile memory size false (some n) true
      = .ok ⟨EFI_SUCCESS, some size, delivered⟩) ↔
    size.toNat ≤ memory.length ∧ memory.take size.toNat = delivered := by
  have hcall : ∀ n, size ≤ n → initrdLoadFile memory size false (some n) true
      = if memory.length < size.toNat then .error (.read memory.length)
        else .ok ⟨EFI_SUCCESS, some size, memory.take size.toNat⟩ := by
    intro n hn
    have hlt : ¬ n < size := UInt64.not_lt.mpr hn
    simp [initrdLoadFile, hlt]
  constructor
  · intro h
    have hself := (hcall size (UInt64.le_refl _)).symm.trans (h size (UInt64.le_refl _))
    by_cases hshort : memory.length < size.toNat
    · rw [if_pos hshort] at hself
      cases hself
    · rw [if_neg hshort] at hself
      refine ⟨by omega, ?_⟩
      injection hself with hres
      injection hres
  · rintro ⟨hlen, rfl⟩ n hn
    rw [hcall n hn, if_neg (by omega)]

/-- An interface to the newest pages serves what their memory begins with, up to its size. -/
theorem serves_newest_iff {env : Environment} {pages : List PageRun} {memory : Memory} {n : Nat}
    {size : UInt64} {contents : List UInt8}
    (hpages : env.pages = ⟨fresh (pages.map PageRun.base), memory⟩ :: pages) :
    Serves env ⟨n, .loadFile2, .initrdLoadFile2 (fresh (pages.map PageRun.base)) size⟩ contents ↔
      size.toNat ≤ memory.length ∧ memory.take size.toNat = contents.map Cell.data := by
  rw [← initrdLoadFile_ok_iff]
  constructor
  · rintro ⟨base, size', memory', -, hint, hmem, hcalls⟩
    injection hint with hbase hsize
    subst hbase hsize
    rw [hpages] at hmem
    rcases List.mem_cons.mp hmem with heq | hold
    · obtain rfl : memory' = memory := congrArg PageRun.memory heq
      exact hcalls
    · -- the base is new
      exact absurd (List.mem_map_of_mem (f := PageRun.base) hold) (fresh_notMem _)
  · intro hcalls
    exact ⟨_, _, memory, rfl, rfl, hpages ▸ List.mem_cons_self, hcalls⟩

section

variable {ck : CharKind} {cfg : CString} {p : Nat} {vol : Volume} {a : Answers}
  {fw fw' : Firmware} {r : Attempt}

theorem fileLoadOf_reported {fa : FileAnswers} {path : CString}
    (h : 0 ≤ fileLoadOf ck vol fa path) :
    (fileLoadOf ck vol fa path).toUInt64 = fa.read.reported := by
  have hneg : ¬ (0 : Int64) ≤ -1 := by decide
  unfold fileLoadOf at h ⊢
  split at h
  · exact absurd h hneg
  · split at h
    · rw [if_pos ‹_›, UInt64.toUInt64_toInt64]
    · exact absurd h hneg

/-- **The initrd is served** exactly when it was read completely, its size was reported, and both
interfaces could be installed. -/
theorem served_iff {path : CString} {env env' : Environment} {f : File}
    (h : InitrdSetUp ck vol a path env env') (hf : vol (openedPath ck path) = some f) :
    (∃ i ∈ env'.protocols, i ∉ env.protocols ∧ Serves env' i f.contents) ↔
      f.contents.length ≤ a.initrdLoad.read.transferred ∧
        a.initrdLoad.read.reported.toNat = f.contents.length ∧ Installs a := by
  obtain ⟨hsized, hread, f', m, protocols, hopened, ⟨junk, hdel⟩, rfl, hprotocols⟩ := h
  obtain rfl := openedFile_unique hf hopened
  obtain ⟨g, hg, hbound, hsize⟩ := fileSizeOf_nonneg hsized
  obtain rfl := openedFile_unique hf hg
  have hroom := sizeToEfiPages_room (hsize ▸ hbound)
  rw [hsize] at hroom
  obtain ⟨hlen, htake⟩ := take_delivered hroom hdel
  rw [fileLoadOf_reported hread] at hprotocols
  rcases hprotocols with ⟨hno, rfl⟩ | ⟨hyes, n, hn, rfl⟩
  · constructor
    · rintro ⟨i, hi, hnew, -⟩
      exact absurd hi hnew
    · rintro ⟨-, -, hyes⟩
      exact absurd hyes hno
  -- the interface has the count that the read reported for its size
  have hserves : Serves
      { env with
        pages := ⟨fresh (env.pages.map PageRun.base), m⟩ :: env.pages
        protocols := initrdInterfaces n (fresh (env.pages.map PageRun.base))
          a.initrdLoad.read.reported ++ env.protocols }
      ⟨n, .loadFile2, .initrdLoadFile2 (fresh (env.pages.map PageRun.base))
        a.initrdLoad.read.reported⟩ g.contents ↔
      g.contents.length ≤ a.initrdLoad.read.transferred ∧
        a.initrdLoad.read.reported.toNat = g.contents.length := by
    rw [serves_newest_iff rfl, ← htake]
    constructor
    · rintro ⟨hle, heq⟩
      have hcount := congrArg List.length heq
      rw [List.length_take, List.length_map, Nat.min_eq_left hle] at hcount
      exact ⟨hcount ▸ heq, hcount⟩
    · rintro ⟨heq, hcount⟩
      exact ⟨by omega, hcount ▸ heq⟩
  constructor
  · rintro ⟨i, hi, hnew, hs⟩
    rcases List.mem_append.mp hi with hi | hi
    · simp only [initrdInterfaces, List.mem_cons, List.not_mem_nil, or_false] at hi
      rcases hi with rfl | rfl
      · obtain ⟨hall, hcount⟩ := hserves.mp hs
        exact ⟨hall, hcount, hyes⟩
      · obtain ⟨_, _, _, hguid, -⟩ := hs
        cases hguid
    · exact absurd hi hnew
  · rintro ⟨hall, hcount, -⟩
    refine ⟨_, List.mem_append_left _ List.mem_cons_self, ?_, hserves.mpr ⟨hall, hcount⟩⟩
    intro hm
    exact hn (List.mem_map_of_mem hm)

/-! ## The kernel and its options -/

/-- An image with the options of the entry, and the size of these as its field of 32 bits has it. -/
def withOptions (ck : CharKind) : Option CString → Image → Image
  | none, i => i
  | some options, i => { i with
      loadOptions := some (str2wcs ck options)
      loadOptionSize := ((UInt64.ofNat options.length + 1) * 2).toUInt32 }

theorem withOptions_handle (ck : CharKind) (append : Option CString) (i : Image) :
    (withOptions ck append i).handle = i.handle := by
  cases append <;> rfl

theorem withOptions_source (ck : CharKind) (append : Option CString) (i : Image) :
    (withOptions ck append i).source = i.source := by
  cases append <;> rfl

theorem optionSize_iff (n : Nat) :
    ((UInt64.ofNat n + 1) * 2).toUInt32.toNat = 2 * (n + 1) ↔ 2 * (n + 1) < 2 ^ 32 := by
  have hnat : ((UInt64.ofNat n + 1) * 2).toUInt32.toNat = 2 * (n + 1) % 2 ^ 32 := by
    rw [UInt64.toNat_toUInt32, UInt64.toNat_mul, UInt64.toNat_add, UInt64.toNat_ofNat']
    have h1 : (1 : UInt64).toNat = 1 := rfl
    have h2 : (2 : UInt64).toNat = 2 := rfl
    rw [h1, h2]
    omega
  rw [hnat]
  omega

/-- The ends of `load_and_validate_entry` where it succeeds, after the kernel: what has become of
its image, and of the initrd. -/
structure Booted (ck : CharKind) (cfg : CString) (p : Nat) (vol : Volume) (a : Answers)
    (env : Environment) (source : Memory) (env' : Environment) : Prop where
  image : ∃ append, menuGetPair cfg p appendKey = .ok append ∧
    ∀ i, i ∈ env'.images ∧ i.handle = fresh (env.images.map Image.handle) ↔
      i = withOptions ck append ⟨fresh (env.images.map Image.handle), source, none, 0⟩
  initrd : menuGetPair cfg p initrdKey = .ok none ∨
    ∃ path env₂ env₃, menuGetPair cfg p initrdKey = .ok (some path) ∧
      InitrdSetUp ck vol a path env₂ env₃ ∧ env₂.protocols = env.protocols ∧
      env'.protocols = env₃.protocols ∧ env'.pages = env₃.pages

theorem loadAppend_ok {handle : Nat} {o : Option Nat}
    (h : loadAppend ck cfg p handle fw = .ok (o, fw')) :
    ∃ append, menuGetPair cfg p appendKey = .ok append ∧
      fw'.env = { fw.env with images := fw.env.images.map fun i =>
        if i.handle = handle then withOptions ck append i else i } := by
  obtain ⟨o', fw₁, hget, hrun⟩ := bind_ok.mp h
  have hpair := getPair_ok hget
  have henv₁ := keeps_getPair _ _ _ hget
  refine ⟨_, hpair, ?_⟩
  cases o' with
  | none =>
      obtain ⟨rfl, hsay⟩ := say_pure_ok hrun
      rw [keeps_say _ hsay, henv₁]
      simp [withOptions]
  | some q =>
      obtain ⟨u, fw₂, hsay, hrun⟩ := bind_ok.mp hrun
      obtain ⟨u', fw₃, hsetup, hrun⟩ := bind_ok.mp hrun
      obtain ⟨rfl, rfl⟩ := pure_ok.mp hrun
      obtain ⟨w, fw₄, hmalloc, hsetup'⟩ := bind_ok.mp hsetup
      have henv₄ : fw₄.env = fw.env := by
        rw [keeps_malloc hmalloc, keeps_say _ hsay, henv₁]
      rw [← modify_ok.mp hsetup', henv₄]
      rfl

/-- Among the images, that of the kernel with its options is the one with its handle. -/
theorem mem_images_iff {env : Environment} {m : Memory} {n : Nat} {append : Option CString}
    {images : List Image} (himages : images = (withKernel env m n).images) (i : Image) :
    (i ∈ images.map (fun i =>
        if i.handle = fresh (env.images.map Image.handle) then withOptions ck append i else i) ∧
      i.handle = fresh (env.images.map Image.handle)) ↔
      i = withOptions ck append ⟨fresh (env.images.map Image.handle), m.take n, none, 0⟩ := by
  have hother : ∀ j ∈ env.images, j.handle ≠ fresh (env.images.map Image.handle) := by
    intro j hj heq
    have hmem := List.mem_map_of_mem (f := Image.handle) hj
    rw [heq] at hmem
    exact fresh_notMem _ hmem
  rw [himages, withKernel, List.map_cons, if_pos rfl, List.mem_cons]
  constructor
  · rintro ⟨rfl | hi, hhandle⟩
    · rfl
    · obtain ⟨j, hj, rfl⟩ := List.mem_map.mp hi
      rw [if_neg (hother j hj)] at hhandle
      exact absurd hhandle (hother j hj)
  · rintro rfl
    exact ⟨Or.inl rfl, withOptions_handle ck append _⟩

/-- **A success after the kernel is loaded**: the image of the kernel has the options, and the
initrd has been set up if there is one. -/
theorem setUpKernel_booted {path : CString} {kernel n : Nat} {size : Int64} {env : Environment}
    {m : Memory} (henv : fw.env = withKernel env m n)
    (h : setUpKernel ck cfg p vol a path kernel (fresh (env.pages.map PageRun.base)) size
      (fresh (env.images.map Image.handle)) fw = .ok (r, fw')) (hr : r.ret = 0) :
    r.kernelHandle = some (fresh (env.images.map Image.handle)) ∧
      Booted ck cfg p vol a env (m.take n) fw'.env := by
  obtain ⟨u, fw₁, hsay, hrun⟩ := bind_ok.mp h
  have henv₁ : fw₁.env = withKernel env m n := by rw [keeps_say _ hsay, henv]
  -- `unload_image` does not return 0
  have hbad : ∀ {b handle : Nat} {fw₀ : Firmware},
      unloadKernel kernel b handle fw₀ ≠ .ok (r, fw') := by
    intro b handle fw₀ hc
    obtain ⟨rfl, -⟩ := unloadKernel_ok hc
    cases hr
  obtain ⟨ok, fw₂, hfdt, hrun⟩ := bind_ok.mp hrun
  rcases loadFdt_ok hfdt with ⟨rfl, -⟩ | ⟨rfl, -, new, tables, hadds, -⟩
  · exact absurd hrun hbad
  obtain ⟨ok, fw₃, hinitrd, hrun⟩ := bind_ok.mp hrun
  have hloaded := loadInitrd_ok hinitrd
  cases ok with
  | false => exact absurd hrun hbad
  | true =>
  obtain ⟨o, fw₄, happend, hrun⟩ := bind_ok.mp hrun
  obtain ⟨append, hpair, henv₄⟩ := loadAppend_ok happend
  obtain ⟨u', fw₅, hfree, hrun⟩ := bind_ok.mp hrun
  have hend : r.kernelHandle = some (fresh (env.images.map Image.handle)) ∧
      fw'.env = fw₄.env := by
    cases o with
    | none =>
        obtain ⟨rfl, rfl⟩ := pure_ok.mp hrun
        exact ⟨rfl, keeps_free _ hfree⟩
    | some buffer =>
        obtain ⟨u'', fw₆, hfree', hrun⟩ := bind_ok.mp hrun
        obtain ⟨rfl, rfl⟩ := pure_ok.mp hrun
        exact ⟨rfl, (keeps_free _ hfree').trans (keeps_free _ hfree)⟩
  obtain ⟨hhandle, henv'⟩ := hend
  have henv₂ : fw₂.env.images = (withKernel env m n).images ∧
      fw₂.env.protocols = env.protocols := by
    rw [hadds.eq, henv₁]
    exact ⟨rfl, rfl⟩
  refine ⟨hhandle, ⟨append, hpair, fun i => ?_⟩, ?_⟩
  · have himages : fw₃.env.images = (withKernel env m n).images := by
      rcases hloaded with ⟨hc, -⟩ | ⟨-, -, henv₃⟩ | ⟨-, q, -, hset⟩
      · cases hc
      · rw [henv₃, henv₂.1]
      · obtain ⟨-, -, f, m', protocols, -, -, henv₃, -⟩ := hset
        rw [henv₃, ← henv₂.1]
    rw [henv', henv₄]
    exact mem_images_iff himages i
  · rcases hloaded with ⟨hc, -⟩ | ⟨-, hnone, -⟩ | ⟨-, q, hq, hset⟩
    · cases hc
    · exact Or.inl hnone
    · refine Or.inr ⟨q, fw₂.env, fw₃.env, hq, hset, henv₂.2, ?_, ?_⟩
      · rw [henv', henv₄]
      · rw [henv', henv₄]

/-- **A successful attempt** has put everything in place exactly when the firmware has read
all of the files and installed what it was asked to. -/
theorem inPlace_iff_complete (h : loadAndValidateEntry ck cfg p vol a fw = .ok (r, fw'))
    (hr : r.ret = 0) :
    InPlace ck cfg p vol fw.env r.kernelHandle fw'.env ↔ Complete ck cfg p vol a := by
  cases loadAndValidateEntry_ok h with
  | absent hno henv => cases hr
  | unread hunread henv => cases hr
  | refused hread hans henv => cases hr
  | violation hread hans henv => cases hr
  | @loaded _ fw₁ _ path _ f m hplaced hok hans hopened hdel henv hrest =>
  obtain ⟨junk, hdel⟩ := hdel
  obtain ⟨hhandle, ⟨append, happend, himage⟩, hinitrd⟩ := setUpKernel_booted henv hrest hr
  have hf := openedFile_named hopened
  obtain ⟨g, hg, hbound, hsize⟩ := fileSizeOf_nonneg hplaced.sized
  obtain rfl := openedFile_unique hf hg
  have hroom := sizeToEfiPages_room (hsize ▸ hbound)
  rw [hsize] at hroom himage
  obtain ⟨-, htake⟩ := take_delivered hroom hdel
  -- `file_get_size` and `file_load` have opened the same file
  have hsome : ∀ i : Image, some i.handle = r.kernelHandle ↔
      i.handle = fresh (fw.env.images.map Image.handle) := by
    intro i
    rw [hhandle]
    exact Option.some_inj
  constructor
  · rintro ⟨⟨path', f', hpair', hf', i, hi, hih, hsource⟩, hin, happ⟩
    obtain rfl := Option.some.inj (Except.ok.inj (hplaced.pair.symm.trans hpair'))
    obtain rfl := Option.some.inj (hf.symm.trans hf')
    refine ⟨?_, ?_, ?_⟩
    · intro path'' f'' hpair'' hf''
      obtain rfl := Option.some.inj (Except.ok.inj (hplaced.pair.symm.trans hpair''))
      obtain rfl := Option.some.inj (hf.symm.trans hf'')
      obtain rfl := (himage i).mp ⟨hi, (hsome i).mp hih⟩
      apply htake.mp
      rw [← hsource, withOptions_source]
    · intro q fq hq hfq
      rcases hinitrd with hnone | ⟨q', env₂, env₃, hq', hset, hprot, hprot', hpages⟩
      · rw [hnone] at hq
        cases hq
      obtain rfl := Option.some.inj (Except.ok.inj (hq'.symm.trans hq))
      apply (served_iff hset hfq).mp
      obtain ⟨fq', hfq', i, hi, hnew, base, size, memory, hguid, hint, hm, hcalls⟩ := hin _ hq
      obtain rfl := Option.some.inj (hfq.symm.trans hfq')
      rw [hprot'] at hi
      rw [hpages] at hm
      exact ⟨i, hi, hprot ▸ hnew, base, size, memory, hguid, hint, hm, hcalls⟩
    · intro options hoptions
      obtain rfl := Except.ok.inj (happend.symm.trans hoptions)
      obtain ⟨j, hj, hjh, -, hsz⟩ := happ options hoptions
      obtain rfl := (himage j).mp ⟨hj, (hsome j).mp hjh⟩
      exact (optionSize_iff _).mp hsz
  · rintro ⟨hker, hin, happ⟩
    obtain ⟨hmem, hih⟩ := (himage _).mpr rfl
    refine ⟨⟨path, g, hplaced.pair, hf, _, hmem, (hsome _).mpr hih, ?_⟩, ?_, ?_⟩
    · rw [withOptions_source]
      exact htake.mpr (hker path g hplaced.pair hf)
    · intro q hq
      rcases hinitrd with hnone | ⟨q', env₂, env₃, hq', hset, hprot, hprot', hpages⟩
      · rw [hnone] at hq
        cases hq
      obtain rfl := Option.some.inj (Except.ok.inj (hq'.symm.trans hq))
      obtain ⟨-, -, fq, -, -, hfq, -⟩ := id hset
      have hfq := openedFile_named hfq
      refine ⟨fq, hfq, ?_⟩
      obtain ⟨i, hi, hnew, base, size, memory, hguid, hint, hm, hcalls⟩ :=
        (served_iff hset hfq).mpr (hin _ fq hq hfq)
      exact ⟨i, hprot' ▸ hi, hprot ▸ hnew, base, size, memory, hguid, hint, hpages ▸ hm, hcalls⟩
    · intro options hoptions
      obtain rfl := Except.ok.inj (happend.symm.trans hoptions)
      exact ⟨_, hmem, (hsome _).mpr hih, rfl, (optionSize_iff _).mpr (happ options hoptions)⟩

end

/-! ## Two attempts -/

/-- A menu with one entry, which has a kernel, an initrd and options. -/
def bootCfg : CString := ⟨ascii "label a\nkernel k\ninitrd i\nappend x\n", by decide⟩

/-- An answer to the read of the kernel that transfers nothing. -/
def unreadKernel : Answers :=
  { obliging 1 with kernelLoad := { obligingFile 1 with read := ⟨toEfiErrno 7, 0, 1⟩ } }

/-- What the two attempts return, and what the second one has loaded. -/
theorem success_runs :
    (loadAndValidateEntry .signed bootCfg 0 byteVolume (obliging 1)
      bareFirmware).toOption.map (fun x => x.1.ret) = some 0 ∧
    menuGetPair bootCfg 0 appendKey = .ok (some ⟨ascii "x", by decide⟩) ∧
    (loadAndValidateEntry .signed kernelCfg 0 byteVolume unreadKernel
      bareFirmware).toOption.map (fun x => (x.1.ret, x.2.env.images.map Image.source))
        = some (0, [[.junk 0]]) := by decide +kernel

theorem inPlace_obliging :
    ∃ r fw', loadAndValidateEntry .signed bootCfg 0 byteVolume (obliging 1) bareFirmware
        = .ok (r, fw') ∧
      r.ret = 0 ∧
      InPlace .signed bootCfg 0 byteVolume bareFirmware.env r.kernelHandle fw'.env := by
  obtain ⟨hrun, happend, -⟩ := success_runs
  obtain ⟨⟨r, fw'⟩, hok, hret⟩ := ok_of_map hrun
  refine ⟨r, fw', hok, hret, (inPlace_iff_complete hok hret).mpr ⟨?_, ?_, ?_⟩⟩
  · rintro path f - hf
    obtain rfl := Option.some.inj hf
    decide
  · rintro path f - hf
    obtain rfl := Option.some.inj hf
    decide
  · intro options hoptions
    obtain rfl := Option.some.inj (Except.ok.inj (happend.symm.trans hoptions))
    decide

/-- The read of the kernel fails: the image is loaded from what was in the pages before. -/
theorem booted_unread_kernel :
    ∃ r fw', loadAndValidateEntry .signed kernelCfg 0 byteVolume unreadKernel bareFirmware
        = .ok (r, fw') ∧
      r.ret = 0 ∧
      ¬ InPlace .signed kernelCfg 0 byteVolume bareFirmware.env r.kernelHandle fw'.env := by
  obtain ⟨⟨r, fw'⟩, hok, hres⟩ := ok_of_map success_runs.2.2
  obtain ⟨hret, hsources⟩ := Prod.mk.inj hres
  refine ⟨r, fw', hok, hret, fun hplace => ?_⟩
  obtain ⟨path, f, -, hf, i, hi, -, hsource⟩ := hplace.kernel
  obtain rfl := Option.some.inj hf
  have hmem := List.mem_map_of_mem (f := Image.source) hi
  rw [hsources, hsource] at hmem
  revert hmem
  decide

end LoliLoader.Boot
