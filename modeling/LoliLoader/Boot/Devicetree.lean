/-
# LoliLoader.Boot.Devicetree -- the size of a devicetree

The file has a size, and so does its header. `load_and_validate_entry` looks at the one, and
`fdt_fixup_and_load` copies as many bytes as the other says.

The devicetree is read into a block of its own size, and `totalSize` of its header decides how much
of it is copied to a new one. If the header declares less, the copy is cut; if it declares more, the
copy reads behind the file, which is a fault of C. Nothing in the source compares the two.

`loadsWithin_iff` makes this exact, for every file and every answer of the firmware, with the
devicetree taken from where the attempt has it in memory (`FdtLoaded`). What the firmware does to
the copy when it fixes it up is its own business; `FixupKeeps` names the bytes that it is to leave
alone.

The two examples differ in one byte: a header that declares itself, and one that declares one byte
more than there is.
-/
import LoliLoader.Boot.Handles

namespace LoliLoader.Boot

open C

/-! ## fdt_fixup_and_load -/

/-- The `totalSize` that the header of a devicetree declares. -/
def declaredSize (contents : List UInt8) : UInt32 :=
  be32ToCpu (contents.getD 4 0) (contents.getD 5 0) (contents.getD 6 0) (contents.getD 7 0)

/-- The copy: as much of the file as its header declares, and 4 KiB of what was there. -/
def fdtCopy (a : Answers) (contents : List UInt8) : List UInt8 :=
  let n := (declaredSize contents).toNat
  contents.take n ++ ((List.range (n + 4096)).map a.copyMemory).drop n

/-- What the firmware makes of the copy, if it has the fixup protocol. -/
def fixedUp (a : Answers) (copy : List UInt8) : List UInt8 :=
  match a.fixup with
  | some dtp => dtp.fixup copy
  | none => copy

theorem byteAt_data {contents : List UInt8} {i : Nat} (h : i < contents.length) :
    byteAt (contents.map Cell.data) i = .ok (contents.getD i 0) := by
  have hat : (contents.map Cell.data)[i]? = some (Cell.data contents[i]) := by
    rw [List.getElem?_map, List.getElem?_eq_getElem h]
    rfl
  rw [List.getD_eq_getElem?_getD, List.getElem?_eq_getElem h, byteAt, hat]
  rfl

theorem totalSize_data {contents : List UInt8} (h : 28 ≤ contents.length) :
    totalSize (contents.map Cell.data) = .ok (declaredSize contents) := by
  rw [totalSize, byteAt_data (by omega), byteAt_data (by omega), byteAt_data (by omega),
    byteAt_data (by omega)]
  rfl

theorem length_junkMemory (contents : Nat → UInt8) (n : Nat) :
    (junkMemory contents n).length = n := by
  rw [junkMemory, List.length_map, List.length_range]

/-- 4 KiB more do not overflow `size_t`. -/
theorem copySize_toNat (size : UInt32) : (size.toUInt64 + 4096).toNat = size.toNat + 4096 := by
  have hpage : (4096 : UInt64).toNat = 4096 := rfl
  have hlt := size.toNat_lt
  rw [UInt64.toNat_add, UInt32.toNat_toUInt64, hpage]
  exact Nat.mod_eq_of_lt (by omega)

theorem map_byte_data (contents : List UInt8) :
    (contents.map Cell.data).map Cell.byte = contents := by
  rw [List.map_map]
  exact List.map_id contents

theorem map_byte_junk (contents : Nat → UInt8) (n : Nat) :
    (junkMemory contents n).map Cell.byte = (List.range n).map contents := by
  rw [junkMemory, List.map_map]
  rfl

section

variable {a : Answers} {contents : List UInt8}

theorem take_fdtCopy (hle : (declaredSize contents).toNat ≤ contents.length) :
    (fdtCopy a contents).take (declaredSize contents).toNat
      = contents.take (declaredSize contents).toNat := by
  have hlen : (contents.take (declaredSize contents).toNat).length
      = (declaredSize contents).toNat := by
    rw [List.length_take, Nat.min_eq_left hle]
  exact List.take_left' hlen

/-- What `memcpy` leaves in the copy. -/
theorem copyBlock_data (hle : (declaredSize contents).toNat ≤ contents.length) :
    ∃ m, copyBlock (contents.map Cell.data) (declaredSize contents).toUInt64.toNat
        (junkMemory a.copyMemory ((declaredSize contents).toUInt64 + 4096).toNat) = .ok m ∧
      m.map Cell.byte = fdtCopy a contents := by
  rw [copySize_toNat, UInt32.toNat_toUInt64, copyBlock, List.length_map, length_junkMemory,
    if_neg (by omega), if_neg (by omega)]
  refine ⟨_, rfl, ?_⟩
  rw [List.map_append, List.map_take, map_byte_data, List.map_drop, map_byte_junk, fdtCopy]

/-- The tables, with the copy among them if the firmware takes it. -/
def tablesWith (a : Answers) (contents : List UInt8) (address : Nat) (tables : List Table) :
    List Table :=
  if a.installTable = EFI_SUCCESS then
    ⟨.dtbTable, address, fixedUp a (fdtCopy a contents)⟩ ::
      tables.filter (fun t => t.guid ≠ .dtbTable)
  else tables

theorem installConfigurationTable_run (status : Status) (table : Table) (fw : Firmware) :
    ∃ fw', installConfigurationTable status table fw = .ok ((), fw') :=
  ⟨_, rfl⟩

/-- **A header that declares no more than there is** gets its devicetree installed, as far as it
declares, or not if the firmware refuses the table. -/
theorem fdtFixupAndLoad_run (h : 28 ≤ contents.length)
    (hle : (declaredSize contents).toNat ≤ contents.length) (fw : Firmware) :
    ∃ fw', fdtFixupAndLoad a (contents.map Cell.data) fw = .ok ((), fw') ∧
      fw'.env.tables = tablesWith a contents (nextPool fw) fw.env.tables := by
  obtain ⟨m, hm, hbytes⟩ := @copyBlock_data a contents hle
  have hinstall : ∀ {fw₁ : Firmware} {copy : List UInt8}, fw₁.env.tables = fw.env.tables →
      copy = fixedUp a (fdtCopy a contents) →
      ∃ fw', installConfigurationTable a.installTable ⟨.dtbTable, nextPool fw, copy⟩ fw₁
          = .ok ((), fw') ∧
        fw'.env.tables = tablesWith a contents (nextPool fw) fw.env.tables := by
    rintro fw₁ copy htables rfl
    obtain ⟨fw', hrun⟩ := installConfigurationTable_run a.installTable
      ⟨.dtbTable, nextPool fw, fixedUp a (fdtCopy a contents)⟩ fw₁
    refine ⟨fw', hrun, ?_⟩
    rw [installConfigurationTable_ok hrun, htables]
    rfl
  unfold fdtFixupAndLoad
  rw [bind_run (lift_run (totalSize_data h) fw), bind_run (say_run _ fw), bind_run (malloc_run _),
    bind_run (lift_run hm _), hbytes]
  cases hfix : a.fixup with
  | none =>
      dsimp only
      rw [bind_run (say_run _ _)]
      exact hinstall rfl (by rw [fixedUp, hfix])
  | some dtp =>
      dsimp only
      have hfixed : dtp.fixup (fdtCopy a contents) = fixedUp a (fdtCopy a contents) := by
        rw [fixedUp, hfix]
      rw [bind_run (modify_run _ _)]
      by_cases hst : dtp.status.toUInt32.toInt32 = 0
      · rw [if_pos hst, bind_run (say_run _ _)]
        exact hinstall rfl hfixed
      · rw [if_neg hst, bind_run (say_run _ _)]
        exact hinstall rfl hfixed

/-- **A header that declares more** makes the copy read behind the file, at the first byte that it
does not have. -/
theorem fdtFixupAndLoad_overread (h : 28 ≤ contents.length)
    (hlt : contents.length < (declaredSize contents).toNat) (fw : Firmware) :
    fdtFixupAndLoad a (contents.map Cell.data) fw = .error (.read contents.length) := by
  have hblock : ∀ dst, copyBlock (contents.map Cell.data) (declaredSize contents).toUInt64.toNat dst
      = .error (.read contents.length) := by
    intro dst
    rw [copyBlock, List.length_map, UInt32.toNat_toUInt64, if_pos hlt]
  unfold fdtFixupAndLoad
  rw [bind_run (lift_run (totalSize_data h) fw), bind_run (say_run _ fw), bind_run (malloc_run _),
    hblock]
  rfl

end

/-! ## The devicetree of an entry -/

/-- `load_and_validate_entry` has the file `f` in memory, all of it: it was found twice, and the
read has transferred it whole. -/
structure FdtLoaded (ck : CharKind) (vol : Volume) (a : Answers) (path : CString) (f : File) :
    Prop where
  read : FdtRead ck vol a path
  sized : openedFile ck vol a.fdtSize path = some f
  loaded : openedFile ck vol a.fdtLoad path = some f
  whole : f.contents.length ≤ a.fdtLoad.read.transferred

section

variable {ck : CharKind} {vol : Volume} {a : Answers} {path : CString} {f : File}

namespace FdtLoaded

theorem size_eq (h : FdtLoaded ck vol a path f) :
    (fileSizeOf ck vol a.fdtSize path).toUInt64.toNat = f.contents.length := by
  have hnonneg := h.read.1
  rw [fileSizeOf_some h.sized] at hnonneg ⊢
  by_cases hinfo : InfoGiven a.fdtSize
  · rw [if_pos hinfo, UInt64.toUInt64_toInt64, UInt64.toNat_ofNat']
    exact Nat.mod_eq_of_lt f.fits
  · rw [if_neg hinfo] at hnonneg
    exact absurd (by decide) hnonneg

theorem header_le (h : FdtLoaded ck vol a path f) : 28 ≤ f.contents.length := by
  have hlarge := h.read.2.1
  rw [UInt64.lt_iff_toNat_lt, h.size_eq] at hlarge
  exact Nat.le_of_not_lt hlarge

end FdtLoaded

theorem fileGetSize_returns (ck : CharKind) (vol : Volume) (a : FileAnswers) (path : CString)
    (fw : Firmware) :
    ∃ fw', fileGetSize ck vol a path fw = .ok (fileSizeOf ck vol a path, fw') ∧
      fw'.env = fw.env := by
  obtain ⟨r, hrun⟩ := @fileGetSize_run ck vol a path fw
  obtain ⟨henv, rfl⟩ := fileGetSize_ok hrun
  exact ⟨_, hrun, henv⟩

/-- `file_load` of the whole file. -/
theorem fileLoad_returns {b : FileAnswers} {memory : Memory}
    (hfile : openedFile ck vol b path = some f) (hlen : memory.length = f.contents.length)
    (hwhole : f.contents.length ≤ b.read.transferred) (hread : ¬ fileLoadOf ck vol b path < 0)
    (fw : Firmware) :
    ∃ fw', fileLoad ck vol b path memory fw
        = .ok ((fileLoadOf ck vol b path, f.contents.map Cell.data), fw') ∧
      fw'.env = fw.env := by
  have hroom : ∀ g, openedFile ck vol b path = some g → g.contents.length ≤ memory.length := by
    intro g hg
    obtain rfl := Option.some.inj (hfile.symm.trans hg)
    exact Nat.le_of_eq hlen.symm
  obtain ⟨⟨ret, loaded⟩, hrun⟩ := fileLoad_run hroom fw
  obtain ⟨henv, hret, hdel⟩ := fileLoad_ok hrun
  dsimp only at hret hdel
  subst hret
  obtain ⟨g, hg, hdel⟩ := hdel (Int64.not_lt.mp hread)
  obtain rfl := Option.some.inj (hfile.symm.trans hg)
  rw [List.take_of_length_le hwhole, deliver, if_pos (Nat.le_of_eq hlen.symm),
    List.drop_of_length_le (Nat.le_of_eq hlen), List.append_nil] at hdel
  obtain rfl := Except.ok.inj hdel
  exact ⟨_, hrun, henv⟩

/-- **The devicetree is loaded** and what is left is `fdt_fixup_and_load`, on a machine with the
same environment. -/
theorem loadFdtFrom_run (h : FdtLoaded ck vol a path f) (fw : Firmware) :
    ∃ fw₁ base, fw₁.env = fw.env ∧
      loadFdtFrom ck vol a path fw = (do
        fdtFixupAndLoad a (f.contents.map Cell.data)
        free base
        return true) fw₁ := by
  obtain ⟨hnonneg, hlarge, hread⟩ := h.read
  obtain ⟨fw₁, hsize, henv₁⟩ := fileGetSize_returns ck vol a.fdtSize path fw
  have hlen : (junkMemory a.fdtMemory (fileSizeOf ck vol a.fdtSize path).toUInt64.toNat).length
      = f.contents.length := by
    rw [length_junkMemory, h.size_eq]
  obtain ⟨fw₂, hload, henv₂⟩ := fileLoad_returns h.loaded hlen h.whole hread (allocated fw₁)
  unfold loadFdtFrom
  rw [bind_run hsize, if_neg hnonneg, if_neg hlarge, bind_run (malloc_run fw₁), bind_run hload]
  dsimp only
  rw [if_neg hread, bind_run (say_run _ fw₂)]
  refine ⟨_, _, ?_, rfl⟩
  exact henv₂.trans henv₁

/-- The call returns; where it has installed a table, the first bytes of it are the file's, as
many as the header declares, and where the file does not have as many it has failed. -/
def LoadsWithin (x : Run Bool) (contents : List UInt8) (fw : Firmware) : Prop :=
  ∃ r fw', x fw = .ok (r, fw') ∧
    (∀ t ∈ fw'.env.tables, t ∉ fw.env.tables →
      t.contents.take (declaredSize contents).toNat
        = contents.take (declaredSize contents).toNat) ∧
    (contents.length < (declaredSize contents).toNat → r = false ∧ fw'.env.tables = fw.env.tables)

/-- The firmware leaves these bytes as they are when it fixes up the copy. -/
def FixupKeeps (a : Answers) (contents : List UInt8) : Prop :=
  (fixedUp a (fdtCopy a contents)).take (declaredSize contents).toNat
    = (fdtCopy a contents).take (declaredSize contents).toNat

theorem forall_tablesWith {address : Nat} {tables : List Table} {contents : List UInt8}
    (P : List UInt8 → Prop) (hnew : address ∉ tables.map Table.address) :
    (∀ t ∈ tablesWith a contents address tables, t ∉ tables → P t.contents) ↔
      (a.installTable = EFI_SUCCESS → P (fixedUp a (fdtCopy a contents))) := by
  unfold tablesWith
  by_cases hs : a.installTable = EFI_SUCCESS
  · rw [if_pos hs]
    constructor
    · intro h _
      refine h _ List.mem_cons_self fun hmem => ?_
      exact hnew (List.mem_map_of_mem hmem)
    · intro h t ht hno
      rcases List.mem_cons.mp ht with rfl | ht
      · exact h hs
      · exact absurd (List.mem_of_mem_filter ht) hno
  · rw [if_neg hs]
    exact iff_of_true (fun t ht hno => absurd ht hno) fun h => absurd h hs

/-- **The devicetree loader copies no more than it has** exactly if the header declares no more,
and then what the table starts with is the file as far as the firmware's own fixes leave it. -/
theorem loadsWithin_iff (h : FdtLoaded ck vol a path f) (fw : Firmware) :
    LoadsWithin (loadFdtFrom ck vol a path) f.contents fw ↔
      (declaredSize f.contents).toNat ≤ f.contents.length ∧
        (a.installTable = EFI_SUCCESS → FixupKeeps a f.contents) := by
  obtain ⟨fw₁, base, henv₁, hrest⟩ := loadFdtFrom_run h fw
  by_cases hle : (declaredSize f.contents).toNat ≤ f.contents.length
  · obtain ⟨fw₂, hfix, htables⟩ := @fdtFixupAndLoad_run a _ h.header_le hle fw₁
    obtain ⟨fw₃, hfree⟩ : ∃ fw₃, free base fw₂ = .ok ((), fw₃) := ⟨_, free_eq base fw₂⟩
    have hrun : loadFdtFrom ck vol a path fw = .ok (true, fw₃) := by
      rw [hrest, bind_run hfix, bind_run hfree]
      rfl
    have hnew : nextPool fw₁ ∉ fw.env.tables.map Table.address := by
      rw [← henv₁]
      exact fun hmem => fresh_notMem _ (List.mem_append_right _ hmem)
    have hkeeps : FixupKeeps a f.contents ↔
        (fixedUp a (fdtCopy a f.contents)).take (declaredSize f.contents).toNat
          = f.contents.take (declaredSize f.contents).toNat := by
      rw [FixupKeeps, take_fdtCopy hle]
    rw [← keeps_free base hfree, henv₁] at htables
    have htable := @forall_tablesWith a _ _ f.contents (fun bytes => bytes.take
      (declaredSize f.contents).toNat = f.contents.take (declaredSize f.contents).toNat) hnew
    rw [LoadsWithin, hkeeps]
    constructor
    · rintro ⟨r, fw', hrun', hall, -⟩
      obtain ⟨-, rfl⟩ := Prod.mk.inj (Except.ok.inj (hrun.symm.trans hrun'))
      refine ⟨hle, ?_⟩
      rw [htables] at hall
      exact htable.mp hall
    · rintro ⟨-, hkept⟩
      refine ⟨true, fw₃, hrun, ?_, fun hlt => absurd hle (Nat.not_le.mpr hlt)⟩
      rw [htables]
      exact htable.mpr hkept
  · refine iff_of_false ?_ fun hc => hle hc.1
    rintro ⟨r, fw', hrun, -⟩
    have hover : loadFdtFrom ck vol a path fw = .error (.read f.contents.length) := by
      rw [hrest]
      show (fdtFixupAndLoad a (f.contents.map Cell.data) fw₁ >>= _) = _
      rw [fdtFixupAndLoad_overread h.header_le (Nat.not_le.mp hle)]
      rfl
    rw [hover] at hrun
    cases hrun

end

/-- A devicetree of a header alone, which declares `size` bytes. -/
def headerOnly (size : UInt8) : File :=
  ⟨[0xd0, 0x0d, 0xfe, 0xed, 0, 0, 0, size] ++ List.replicate 20 0, false, by simp⟩

/-- The firmware finds and reads the header, and has no fixes. -/
def headerAnswers : Answers :=
  let file : FileAnswers := ⟨0, toEfiErrno EFI_BUFFER_TOO_SMALL, 0, ⟨0, 28, 28⟩⟩
  ⟨file, none, file, .loaded, file, fun _ => 0, file, fun _ => 0, none, EFI_SUCCESS, file, none,
    file, 0, 0⟩

theorem headerOnly_loaded (size : UInt8) :
    FdtLoaded .signed (fun _ => some (headerOnly size)) headerAnswers fdtKey (headerOnly size) := by
  have hopen : openedFile .signed (fun _ => some (headerOnly size)) headerAnswers.fdtSize fdtKey
      = some (headerOnly size) := rfl
  have hsize : fileSizeOf .signed (fun _ => some (headerOnly size)) headerAnswers.fdtSize fdtKey
      = 28 := by
    rw [fileSizeOf_some hopen, if_pos (by decide)]
    rfl
  have hload : fileLoadOf .signed (fun _ => some (headerOnly size)) headerAnswers.fdtLoad fdtKey
      = 28 := by
    refine (fileLoadOf_some hopen).trans ?_
    rw [if_pos ⟨by decide, rfl⟩]
    rfl
  refine ⟨⟨?_, ?_, ?_⟩, hopen, hopen, Nat.le_refl 28⟩
  · rw [hsize]
    decide
  · rw [hsize]
    decide
  · rw [hload]
    decide

/-- A header that declares itself. -/
theorem loadsWithin_iff_header :
    LoadsWithin (loadFdtFrom .signed (fun _ => some (headerOnly 28)) headerAnswers fdtKey)
        (headerOnly 28).contents ⟨⟨[], [], [], []⟩, [], [], []⟩ ↔
      (declaredSize (headerOnly 28).contents).toNat ≤ (headerOnly 28).contents.length ∧
        (headerAnswers.installTable = EFI_SUCCESS →
          FixupKeeps headerAnswers (headerOnly 28).contents) :=
  loadsWithin_iff (headerOnly_loaded 28) _

/-- A header that declares one byte more than the file has. -/
theorem header_not_loadsWithin :
    FdtLoaded .signed (fun _ => some (headerOnly 29)) headerAnswers fdtKey (headerOnly 29) ∧
    ¬ LoadsWithin (loadFdtFrom .signed (fun _ => some (headerOnly 29)) headerAnswers fdtKey)
        (headerOnly 29).contents ⟨⟨[], [], [], []⟩, [], [], []⟩ := by
  refine ⟨headerOnly_loaded 29, ?_⟩
  rintro ⟨r, fw', hrun, -⟩
  have hover : (loadFdtFrom .signed (fun _ => some (headerOnly 29)) headerAnswers fdtKey
      ⟨⟨[], [], [], []⟩, [], [], []⟩).map Prod.fst = .error (.read 28) := by decide +kernel
  rw [hrun] at hover
  cases hover

end LoliLoader.Boot
