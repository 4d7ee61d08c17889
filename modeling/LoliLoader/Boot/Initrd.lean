/-
# LoliLoader.Boot.Initrd -- what is read of a file, and the initrd

A file is complete in its pages when the read has transferred all of it: what the read has not
reached is still the memory as it was allocated. The initrd is served when its two interfaces are
installed.

`take_delivered` is an equivalence, and it holds because cells are compared and not bytes. With
bytes, a read that transfers nothing might be complete by chance, if the memory happens to have the
contents of the file already.

`initrd_setup` installs a device path and a protocol, on one new handle. When the second one is
refused, the first is taken away again, so there are both interfaces or none (`initrdSetup_ok`). Its
caller drops the status, so the attempt goes on in any case.

The pages of an initrd that cannot be read are not released on any path. `loadInitrd_ok` has them
among what the attempt has added.
-/
import LoliLoader.Boot.Loading

namespace LoliLoader.Boot

open C Menu

/-! ## Complete reads -/

section

variable {ck : CharKind} {vol : Volume} {a : FileAnswers} {path : CString} {f : File}

theorem openedFile_named (h : openedFile ck vol a path = some f) :
    vol (openedPath ck path) = some f := by
  unfold openedFile at h
  split at h
  · exact h
  · cases h

/-- A file that is opened is the one its path names. -/
theorem openedFile_unique (hf : vol (openedPath ck path) = some f) {g : File}
    (h : openedFile ck vol a path = some g) : g = f := by
  have hg := openedFile_named h
  rw [hf] at hg
  exact (Option.some.inj hg).symm

theorem toInt64_neg_iff (n : UInt64) : n.toInt64 < 0 ↔ 2 ^ 63 ≤ n.toNat := by
  rw [Int64.lt_iff_toInt_lt]
  show n.toBitVec.toInt < 0 ↔ _
  rw [BitVec.toInt_neg_iff]
  show 2 ^ 64 ≤ 2 * n.toNat ↔ _
  omega

/-- A size that is not negative is that of the file. -/
theorem fileSizeOf_nonneg (h : ¬ fileSizeOf ck vol a path < 0) :
    ∃ f, openedFile ck vol a path = some f ∧ f.contents.length < 2 ^ 63 ∧
      (fileSizeOf ck vol a path).toUInt64.toNat = f.contents.length := by
  have hneg : (-1 : Int64) < 0 := by decide
  cases hf : openedFile ck vol a path with
  | none =>
      rw [fileSizeOf, hf] at h
      exact absurd hneg h
  | some f =>
      refine ⟨f, rfl, ?_⟩
      rw [fileSizeOf_some hf] at h ⊢
      by_cases hi : InfoGiven a
      · rw [if_pos hi] at h ⊢
        have hnat : (UInt64.ofNat f.contents.length).toNat = f.contents.length := by
          rw [UInt64.toNat_ofNat', Nat.mod_eq_of_lt f.fits]
        rw [toInt64_neg_iff, hnat] at h
        exact ⟨by omega, by rw [UInt64.toUInt64_toInt64, hnat]⟩
      · rw [if_neg hi] at h
        exact absurd hneg h

/-- The pages of a file have room for it. -/
theorem sizeToEfiPages_room {size : UInt64} (h : size.toNat < 2 ^ 63) :
    size.toNat ≤ (sizeToEfiPages size).toNat * 4096 := by
  have hadd : (size + 4095).toNat = size.toNat + 4095 := by
    rw [UInt64.toNat_add]
    exact Nat.mod_eq_of_lt (by have : (4095 : UInt64).toNat = 4095 := rfl; omega)
  have hshift : (sizeToEfiPages size).toNat = (size.toNat + 4095) / 4096 := by
    rw [sizeToEfiPages, UInt64.toNat_shiftRight, hadd]
    exact Nat.shiftRight_eq_div_pow _ 12
  omega

theorem deliver_ok {memory m : Memory} {bytes : List UInt8} (h : deliver memory bytes = .ok m) :
    bytes.length ≤ memory.length ∧ m = bytes.map Cell.data ++ memory.drop bytes.length := by
  unfold deliver at h
  split at h
  · exact ⟨‹_›, (Except.ok.inj h).symm⟩
  · cases h

/-- **A read is complete exactly when it has transferred the whole file**: then, and only then, the
memory starts with all of its bytes, and not with what was there. -/
theorem take_delivered {junk : Nat → UInt8} {k t : Nat} {contents : List UInt8} {m : Memory}
    (hroom : contents.length ≤ k)
    (h : deliver (junkMemory junk k) (contents.take t) = .ok m) :
    m.length = k ∧
      (m.take contents.length = contents.map Cell.data ↔ contents.length ≤ t) := by
  have hjunk : (junkMemory junk k).length = k := by simp [junkMemory]
  obtain ⟨hlen, rfl⟩ := deliver_ok h
  rw [hjunk] at hlen
  refine ⟨?_, ?_⟩
  · rw [List.length_append, List.length_map, List.length_drop, hjunk]
    omega
  constructor
  · intro heq
    by_contra hshort
    have ht : t < contents.length := by omega
    -- the first byte that is not transferred is still junk
    have hleft : ((((contents.take t).map Cell.data) ++
        (junkMemory junk k).drop (contents.take t).length).take contents.length)[t]?
          = some (Cell.junk (junk t)) := by
      have htlen : (contents.take t).length = t := by
        rw [List.length_take]
        omega
      rw [List.getElem?_take_of_lt ht, List.getElem?_append_right (by simp)]
      have htk : t < k := by omega
      rw [List.length_map, htlen, List.getElem?_drop, Nat.sub_self, Nat.add_zero]
      simp [junkMemory, htk]
    rw [heq, List.getElem?_map, List.getElem?_eq_getElem ht] at hleft
    cases hleft
  · intro hall
    rw [List.take_of_length_le hall, List.take_left' (by simp)]

end

/-! ## The initrd -/

section

variable (ck : CharKind) (cfg : CString) (p : Nat) (vol : Volume) (a : Answers)

/-- The initrd is found and there are pages for it, but it is not read. -/
def InitrdUnread : Prop :=
  ∃ path, menuGetPair cfg p initrdKey = .ok (some path) ∧
    ¬ fileSizeOf ck vol a.initrdSize path < 0 ∧ a.initrdPages.isSome ∧
    fileLoadOf ck vol a.initrdLoad path < 0

/-- Both interfaces of the initrd are installed: the firmware refuses neither. -/
def Installs : Prop := a.installDevicePath = EFI_SUCCESS ∧ a.installLoadFile2 = EFI_SUCCESS

instance : Decidable (Installs a) := by
  unfold Installs
  infer_instance

/-- The two interfaces, at a new handle: the device path, and the protocol that serves the
initrd. -/
def initrdInterfaces (handle base : Nat) (size : UInt64) : List Protocol :=
  [⟨handle, .loadFile2, .initrdLoadFile2 base size⟩, ⟨handle, .devicePath, .initrdDevicePath⟩]

/-- The initrd `path` has been read into new pages of `env'`; when both interfaces can be
installed they are. -/
structure InitrdSetUp (path : CString) (env env' : Environment) : Prop where
  sized : ¬ fileSizeOf ck vol a.initrdSize path < 0
  read : 0 ≤ fileLoadOf ck vol a.initrdLoad path
  eq : ∃ f m protocols, openedFile ck vol a.initrdLoad path = some f ∧
    (∃ junk, deliver (junkMemory junk
      ((sizeToEfiPages (fileSizeOf ck vol a.initrdSize path).toUInt64).toNat * 4096))
      (f.contents.take a.initrdLoad.read.transferred) = .ok m) ∧
    env' = { env with
      pages := ⟨fresh (env.pages.map PageRun.base), m⟩ :: env.pages
      protocols := protocols ++ env.protocols } ∧
    (¬ Installs a ∧ protocols = [] ∨
      Installs a ∧ ∃ n, n ∉ env.protocols.map Protocol.handle ∧
        protocols = initrdInterfaces n (fresh (env.pages.map PageRun.base))
          (fileLoadOf ck vol a.initrdLoad path).toUInt64)

variable {ck cfg p vol a} {fw fw' : Firmware}

theorem installProtocolInterface_ok {status : Status} {handle : Option Nat} {guid : Guid}
    {interface : Interface} {r : Status × Option Nat}
    (h : installProtocolInterface status handle guid interface fw = .ok (r, fw')) :
    r.1 = status ∧
      ((status = EFI_SUCCESS ∧ ∃ n, r.2 = some n ∧ n = handle.getD
          (fresh (fw.env.protocols.map Protocol.handle ++ fw.env.images.map Image.handle)) ∧
        fw'.env = { fw.env with protocols := ⟨n, guid, interface⟩ :: fw.env.protocols }) ∨
      (status ≠ EFI_SUCCESS ∧ r.2 = handle ∧ fw'.env = fw.env)) := by
  unfold installProtocolInterface at h
  by_cases hs : status = EFI_SUCCESS
  · rw [if_pos hs] at h
    obtain ⟨s, fw₁, hget, hrun⟩ := bind_ok.mp h
    obtain ⟨rfl, rfl⟩ := get_ok.mp hget
    obtain ⟨u, fw₂, hset, hrun⟩ := bind_ok.mp hrun
    obtain rfl := set_ok.mp hset
    obtain ⟨rfl, rfl⟩ := pure_ok.mp hrun
    exact ⟨rfl, Or.inl ⟨hs, _, rfl, rfl, rfl⟩⟩
  · rw [if_neg hs] at h
    obtain ⟨rfl, rfl⟩ := pure_ok.mp h
    exact ⟨rfl, Or.inr ⟨hs, rfl, rfl⟩⟩

/-- The device path goes away again when it is at a new handle. -/
theorem uninstall_installed {protocols : List Protocol} {n : Nat} {i : Interface} {guid : Guid}
    (hn : n ∉ protocols.map Protocol.handle) :
    (⟨n, guid, i⟩ :: protocols).filter (fun q => ¬ (q.handle = n ∧ q.guid = guid)) = protocols := by
  rw [List.filter_cons_of_neg (by simp), List.filter_eq_self]
  intro q hq
  simp only [decide_eq_true_eq, not_and]
  rintro rfl
  exact absurd (List.mem_map_of_mem hq) hn

/-- **`initrd_setup`** installs both interfaces or none; when the second one is refused, the first
is taken away again. -/
theorem initrdSetup_ok {base : Nat} {size : UInt64} {status : Status}
    (h : initrdSetup a base size fw = .ok (status, fw')) :
    ¬ Installs a ∧ fw'.env = fw.env ∨
    Installs a ∧ ∃ n, n ∉ fw.env.protocols.map Protocol.handle ∧
      fw'.env = { fw.env with protocols := initrdInterfaces n base size ++ fw.env.protocols } := by
  unfold initrdSetup at h
  obtain ⟨q, fw₁, hmalloc, hrun⟩ := bind_ok.mp h
  have henv₁ := keeps_malloc hmalloc
  obtain ⟨⟨st₁, h₁⟩, fw₂, hfirst, hrun⟩ := bind_ok.mp hrun
  obtain ⟨rfl, hcase⟩ := installProtocolInterface_ok hfirst
  dsimp only at hrun hcase
  rcases hcase with ⟨hs, n, rfl, hn, henv₂⟩ | ⟨hs, rfl, henv₂⟩
  · rw [Option.getD_none, henv₁] at hn
    rw [if_neg (not_not.mpr hs)] at hrun
    -- the device path is at a new handle, so uninstalling it restores the interfaces
    have hnew : n ∉ fw.env.protocols.map Protocol.handle := by
      intro hm
      exact fresh_notMem _ (hn ▸ List.mem_append_left _ hm)
    obtain ⟨⟨st₂, h₂⟩, fw₃, hsecond, hrun⟩ := bind_ok.mp hrun
    obtain ⟨rfl, hcase⟩ := installProtocolInterface_ok hsecond
    dsimp only at hrun hcase
    rcases hcase with ⟨hs', n', rfl, hn', henv₃⟩ | ⟨hs', rfl, henv₃⟩
    · rw [if_neg (not_not.mpr hs')] at hrun
      obtain ⟨rfl, rfl⟩ := pure_ok.mp hrun
      refine Or.inr ⟨⟨hs, hs'⟩, n, hnew, ?_⟩
      obtain rfl : n' = n := hn'
      rw [henv₃, henv₂, henv₁]
      rfl
    · rw [if_pos hs'] at hrun
      obtain ⟨u, fw₄, hsay, hrun⟩ := bind_ok.mp hrun
      obtain ⟨u', fw₅, hun, hrun⟩ := bind_ok.mp hrun
      obtain ⟨u'', fw₆, hfree, hrun⟩ := bind_ok.mp hrun
      obtain ⟨rfl, rfl⟩ := pure_ok.mp hrun
      refine Or.inl ⟨fun hi => hs' hi.2, ?_⟩
      rw [keeps_free _ hfree, ← modify_ok.mp hun, keeps_say _ hsay, henv₃, henv₂, henv₁]
      dsimp only
      rw [uninstall_installed hnew]
  · rw [if_pos hs] at hrun
    obtain ⟨u, fw₃, hsay, hrun⟩ := bind_ok.mp hrun
    obtain ⟨u', fw₄, hfree, hrun⟩ := bind_ok.mp hrun
    obtain ⟨rfl, rfl⟩ := pure_ok.mp hrun
    refine Or.inl ⟨fun hi => hs hi.1, ?_⟩
    rw [keeps_free _ hfree, keeps_say _ hsay, henv₂, henv₁]

/-- **The initrd** of an entry: there is none, or it has been set up, or the attempt fails, and then
its pages are left behind if there were any. -/
theorem loadInitrd_ok {ok : Bool} (h : loadInitrd ck cfg p vol a fw = .ok (ok, fw')) :
    (ok = false ∧ ∃ new, Adds fw.env new fw.env.tables fw'.env ∧
      (new = [] ↔ ¬ InitrdUnread ck cfg p vol a)) ∨
    (ok = true ∧ menuGetPair cfg p initrdKey = .ok none ∧ fw'.env = fw.env) ∨
    (ok = true ∧ ∃ path, menuGetPair cfg p initrdKey = .ok (some path) ∧
      InitrdSetUp ck vol a path fw.env fw'.env) := by
  unfold loadInitrd at h
  obtain ⟨o, fw₁, hget, hrun⟩ := bind_ok.mp h
  have hpair := getPair_ok hget
  have henv₁ := keeps_getPair _ _ _ hget
  cases o with
  | none =>
      obtain ⟨rfl, hsay⟩ := say_pure_ok hrun
      exact Or.inr (Or.inl ⟨rfl, hpair, by rw [keeps_say _ hsay, henv₁]⟩)
  | some q =>
      obtain ⟨buffer, path⟩ := q
      replace hpair : menuGetPair cfg p initrdKey = .ok (some path) := hpair
      have hunread : InitrdUnread ck cfg p vol a ↔
          ¬ fileSizeOf ck vol a.initrdSize path < 0 ∧ a.initrdPages.isSome ∧
            fileLoadOf ck vol a.initrdLoad path < 0 := by
        unfold InitrdUnread
        rw [hpair]
        constructor
        · rintro ⟨q, hq, hrest⟩
          obtain rfl := Option.some.inj (Except.ok.inj hq)
          exact hrest
        · exact fun hrest => ⟨path, rfl, hrest⟩
      cases loadIntoPages_cases (withPages_getPair hget) hrun with
      | unsized hneg hstart hrest =>
          obtain ⟨rfl, hsay⟩ := say_pure_ok hrest
          refine Or.inl ⟨rfl, [], ?_, by simp [hunread, hneg]⟩
          rw [keeps_say _ hsay, hstart.env]
          exact .none _
      | noPages _ hnone hstart hrest =>
          obtain ⟨rfl, hsay⟩ := say_pure_ok hrest
          refine Or.inl ⟨rfl, [], ?_, by simp [hunread, hnone]⟩
          rw [keeps_say _ hsay, hstart.env]
          exact .none _
      | @unread _ m hneg hsome hbad hstart hrest =>
          -- there are pages now, and no path to `unload_image` frees them
          obtain ⟨rfl, hsay⟩ := say_pure_ok hrest
          have hleft : InitrdUnread ck cfg p vol a := hunread.mpr ⟨hneg, hsome, hbad⟩
          refine Or.inl ⟨rfl, [⟨fresh (fw.env.pages.map PageRun.base), m⟩], ?_, by simp [hleft]⟩
          rw [keeps_say _ hsay, hstart.env]
          exact .single _ m
      | loaded hneg _ hread hf hdel hstart hrest =>
          obtain ⟨u, fw₂, hsay, hrest⟩ := bind_ok.mp hrest
          obtain ⟨st, fw₃, hsetup, hrest⟩ := bind_ok.mp hrest
          obtain ⟨rfl, rfl⟩ := pure_ok.mp hrest
          have henv := (keeps_say _ hsay).trans hstart.env
          refine Or.inr (Or.inr ⟨rfl, path, hpair, hneg, Int64.not_lt.mp hread, ?_⟩)
          rcases initrdSetup_ok hsetup with ⟨hno, henv'⟩ | ⟨hyes, n, hn, henv'⟩
          · refine ⟨_, _, [], hf, hdel, ?_, Or.inl ⟨hno, rfl⟩⟩
            rw [henv', henv]
            rfl
          · rw [henv] at hn henv'
            exact ⟨_, _, _, hf, hdel, henv', Or.inr ⟨hyes, n, hn, rfl⟩⟩

end

end LoliLoader.Boot
