/-
# LoliLoader.Elf2Efi.Inversion -- what passes that succeed have done

Nothing is assumed about the executable here: whatever the segments and relocations are, these are
the results of `relocate_exec`, `apply_relocs` and `write_pe`, if they return.

The lemmas come before any plan of an image. A theorem that is an equivalence needs them for the
direction in which nothing is known of the executable: a file has been written, and something is to
be concluded about the input. `Relocated` has what happens to one segment, `SameShape` what the
relocations leave as it is, and `writePe_inv` what any file says that is written.

All numbers are in the widths of the source, and rounding is the rounding of the source, also where
it goes around the end of the address space. The modules that look for the exact conditions take
these results and bring them to unbounded numbers where they can.
-/
import LoliLoader.Elf2Efi.WriteSpec
import LoliLoader.Elf2Efi.Alignment
import Mathlib.Data.List.Forall2

namespace LoliLoader.Elf2Efi

open C Bytes

theorem divisor_eq_ok {x : UInt64} {u : Unit} : divisor x = .ok u ↔ x ≠ 0 := by
  unfold divisor
  split <;> simp_all

/-- A loop over a list that ends has done its body for every element. -/
theorem forall₂_of_mapM {α β ε : Type} {f : α → Except ε β} {l : List α} {l' : List β}
    (h : l.mapM f = .ok l') : List.Forall₂ (fun x y => f x = .ok y) l l' := by
  induction l generalizing l' with
  | nil =>
      obtain rfl : [] = l' := Except.ok.inj h
      exact .nil
  | cons x l ih =>
      rw [List.mapM_cons] at h
      obtain ⟨y, hy, h⟩ := bind_eq_ok.mp h
      obtain ⟨ys, hys, h⟩ := bind_eq_ok.mp h
      obtain rfl : y :: ys = l' := Except.ok.inj h
      exact .cons hy (ih hys)

/-! ## relocate_exec -/

/-- How far `relocate_exec` goes down from `vaddr` to the alignment, in 32 bits. -/
def expansion (vaddr : UInt64) (alignment : UInt32) : UInt32 :=
  (vaddr - alignDown vaddr alignment.toUInt64).toUInt32

theorem expansion_toNat (vaddr : UInt64) {alignment : UInt32} (h : alignment ≠ 0) :
    (expansion vaddr alignment).toNat = vaddr.toNat % alignment.toNat := by
  have hpos : 0 < alignment.toNat := Nat.pos_of_ne_zero fun h0 => h (UInt32.toNat_inj.mp h0)
  have hal : alignment.toUInt64.toNat = alignment.toNat := UInt32.toNat_toUInt64 _
  have hdown := alignDown_toNat vaddr alignment.toUInt64
  have hsum := Nat.div_add_mod' vaddr.toNat alignment.toNat
  have hmod := Nat.mod_lt vaddr.toNat hpos
  have hlt := alignment.toNat_lt
  rw [hal] at hdown
  have hle : alignDown vaddr alignment.toUInt64 ≤ vaddr := by
    rw [UInt64.le_iff_toNat_le]
    omega
  rw [expansion, UInt64.toNat_toUInt32, UInt64.toNat_sub_of_le _ _ hle]
  omega

/-- A segment and what `relocate_exec` makes of it, in the 64 bits of the source: down to its
alignment, and longer by as much. -/
structure Relocated (base : UInt64) (s t : Segment) : Prop where
  alignment_ne : s.alignment ≠ 0
  vaddr : t.vaddr = alignDown (s.vaddr + base) s.alignment.toUInt64
  memsize : t.memsize = s.memsize + (expansion (s.vaddr + base) s.alignment).toUInt64
  filesize : t.filesize = s.filesize + (expansion (s.vaddr + base) s.alignment).toUInt64
  alignment : t.alignment = s.alignment

theorem relocateSegment_inv {base : UInt64} {s t : Segment} (h : relocateSegment base s = .ok t) :
    Relocated base s t := by
  unfold relocateSegment at h
  obtain ⟨_, hdiv, h⟩ := bind_eq_ok.mp h
  obtain ⟨newData, -, h⟩ := bind_eq_ok.mp h
  obtain rfl := Except.ok.inj h
  refine ⟨?_, rfl, rfl, rfl, rfl⟩
  intro h0
  rw [divisor_eq_ok, h0] at hdiv
  exact hdiv rfl

theorem relocateExec_inv {exec exec' : Executable} {base : UInt64}
    (h : relocateExec exec base = .ok exec') :
    ∃ first rest offset, exec.segments = first :: rest ∧ headerOffset exec first = .ok offset ∧
      List.Forall₂ (Relocated (base + offset)) exec.segments exec'.segments ∧
      exec'.relocs = exec.relocs.map (fun r =>
        ⟨r.vaddr + (base + offset), r.addend + (base + offset)⟩) ∧
      exec'.executableAlignment = exec.executableAlignment := by
  unfold relocateExec at h
  split at h
  · cases h
  · rename_i first rest hseg
    obtain ⟨offset, hoffset, h⟩ := bind_eq_ok.mp h
    obtain ⟨segments, hsegments, h⟩ := bind_eq_ok.mp h
    obtain rfl := Except.ok.inj h
    exact ⟨first, rest, offset, hseg, hoffset,
      (forall₂_of_mapM hsegments).imp fun _ _ => relocateSegment_inv, rfl, rfl⟩

/-! ## data_at_vaddr -/

/-- `data_at_vaddr` gives the first segment that covers the address. -/
theorem dataAtVaddr_inv {exec : Executable} {purpose : String} {v size p : UInt64} {i : Nat}
    (h : dataAtVaddr exec purpose v size = .ok (i, p)) :
    ∃ pre s post, exec.segments = pre ++ s :: post ∧ i = pre.length ∧ p = v - s.vaddr ∧
      s.covers v = true ∧ ∀ t ∈ pre, t.covers v = false := by
  unfold dataAtVaddr at h
  split at h
  · rename_i s i' hfind
    obtain ⟨rfl, rfl⟩ := Prod.mk.inj (Except.ok.inj h)
    obtain ⟨hcovers, before, after, hzip, hbefore⟩ := List.find?_eq_some_iff_append.mp hfind
    obtain ⟨pre, rest, hseg, rfl, hrest⟩ := List.zipIdx_eq_append_iff.mp hzip
    obtain ⟨s', post, rfl, hs, -⟩ := List.zipIdx_eq_cons_iff.mp hrest.symm
    obtain ⟨rfl, rfl⟩ := Prod.mk.inj hs
    refine ⟨pre, s, post, hseg, Nat.zero_add _, rfl, hcovers, ?_⟩
    intro t ht
    obtain ⟨k, hk⟩ := List.mem_iff_getElem?.mp ht
    have hmem : (t, k) ∈ pre.zipIdx := List.mem_zipIdx_iff_getElem?.mpr hk
    simpa using hbefore _ hmem
  · cases h

/-! ## apply_relocs -/

/-- `apply_relocs` changes data and `filesize` of segments only; everything else of the executable
is as it was. -/
structure SameShape (exec exec' : Executable) : Prop where
  shapes : exec'.segments.map Segment.shape = exec.segments.map Segment.shape
  relocs : exec'.relocs = exec.relocs
  executableAlignment : exec'.executableAlignment = exec.executableAlignment

theorem SameShape.refl (exec : Executable) : SameShape exec exec := ⟨rfl, rfl, rfl⟩

theorem SameShape.trans {exec exec' exec'' : Executable} (h : SameShape exec exec')
    (h' : SameShape exec' exec'') : SameShape exec exec'' :=
  ⟨h'.shapes.trans h.shapes, h'.relocs.trans h.relocs,
    h'.executableAlignment.trans h.executableAlignment⟩

theorem applyReloc_inv {exec exec' : Executable} {r : ExecReloc}
    (h : applyReloc exec r = .ok exec') : SameShape exec exec' := by
  unfold applyReloc at h
  obtain ⟨⟨i, p⟩, -, h⟩ := bind_eq_ok.mp h
  dsimp only at h
  split at h
  · cases h
  · rename_i segment hsegment
    obtain ⟨rawData, -, h⟩ := bind_eq_ok.mp h
    obtain rfl := Except.ok.inj h
    refine ⟨?_, rfl, rfl⟩
    obtain ⟨hi, hget⟩ := List.getElem?_eq_some_iff.mp hsegment
    show (exec.segments.set i _).map Segment.shape = _
    rw [List.map_set]
    apply List.ext_getElem
    · simp
    · intro k hk hk'
      rw [List.getElem_set]
      split
      · rename_i hik
        subst hik
        rw [List.getElem_map, hget]
        rfl
      · rfl

theorem applyRelocs_inv {exec exec' : Executable} (h : applyRelocs exec = .ok exec') :
    SameShape exec exec' := by
  have hrun : ∀ {relocs : List ExecReloc} {exec : Executable},
      relocs.foldlM applyReloc exec = .ok exec' → SameShape exec exec' := by
    intro relocs
    induction relocs with
    | nil =>
        intro exec h
        obtain rfl : exec = exec' := Except.ok.inj h
        exact .refl exec
    | cons r relocs ih =>
        intro exec h
        rw [List.foldlM_cons] at h
        obtain ⟨exec₁, h₁, h⟩ := bind_eq_ok.mp h
        exact (applyReloc_inv h₁).trans (ih h)
  exact hrun h

/-! ## write_pe -/

/-- `sizeOfHeaders` in `write_pe`: the headers and the section table, rounded up to 512 bytes. -/
def sizeOfHeadersOf (exec : Executable) : UInt64 :=
  align (peImageHeaderSize (peSectionNum exec)) 512

/-- `sizeOfImage` in `write_pe`: up to the end of the relocation table, rounded up to the common
alignment. -/
def sizeOfImageOf (exec : Executable) (base : UInt64) (last : Segment) (table : SizedData) :
    UInt64 :=
  align (relocVaddrOf exec last + table.size - base) exec.executableAlignment.toUInt64

/-- **`write_pe`** writes a file exactly if it gets through all of its checks and chunks, and this
is the file. -/
theorem writePe_eq_ok {exec : Executable} {base : UInt64} {table : SizedData}
    {segname : Nat → Nat → UInt8} {file : List UInt8} :
    writePe segname exec base table = .ok file ↔
      exec.executableAlignment % 512 = 0 ∧ exec.executableAlignment ≠ 0 ∧
      ∃ last raws relocs, exec.segments.getLast? = some last ∧
        (exec.segments.zip (layoutPeFile exec (sizeOfHeadersOf exec) table 512).1).mapM (fun s =>
          writePadded s.1.data.rawData s.1.filesize s.2.size.toUInt64) = .ok raws ∧
        (if hasPeReloc exec then
          writePadded table.rawData table.size
            (layoutPeFile exec (sizeOfHeadersOf exec) table 512).2.size.toUInt64
        else .ok []) = .ok relocs ∧
        record (peHeaders exec base (relocVaddrOf exec last)
          (sizeOfImageOf exec base last table) (sizeOfHeadersOf exec) table) ++
        ((sectionTable segname exec base (relocVaddrOf exec last) table
          (layoutPeFile exec (sizeOfHeadersOf exec) table 512)).flatMap Pe32SectionHeader.bytes ++
          (List.replicate (sizeOfHeadersOf exec - peImageHeaderSize (peSectionNum exec)).toNat 0 ++
            (raws.flatten ++ relocs))) = file := by
  have hdiv : divisor exec.executableAlignment.toUInt64 = .ok () ↔
      exec.executableAlignment ≠ 0 := by
    rw [divisor_eq_ok, ne_eq, ne_eq, ← UInt32.toUInt64_inj]
    rfl
  unfold writePe
  by_cases hmod : exec.executableAlignment % 512 = 0
  · rw [if_neg (not_not.mpr hmod), and_iff_right hmod, ← hdiv]
    dsimp only
    cases exec.segments.getLast? with
    | none => simp
    | some last =>
        show (divisor exec.executableAlignment.toUInt64 >>= _) = _ ↔ _
        rw [bind_eq_ok]
        by_cases hreloc : hasPeReloc exec = true
        · simp only [hreloc, ite_true]
          constructor
          · rintro ⟨_, hne, h⟩
            obtain ⟨raws, hraws, h⟩ := bind_eq_ok.mp h
            obtain ⟨relocs, hrelocs, h⟩ := bind_eq_ok.mp h
            exact ⟨hne, last, raws, relocs, rfl, hraws, hrelocs, Except.ok.inj h⟩
          · rintro ⟨hne, last', raws, relocs, hlast, hraws, hrelocs, rfl⟩
            obtain rfl := Option.some.inj hlast
            exact ⟨(), hne, bind_eq_ok.mpr ⟨raws, hraws, bind_eq_ok.mpr ⟨relocs, hrelocs, rfl⟩⟩⟩
        · simp only [hreloc]
          constructor
          · rintro ⟨_, hne, h⟩
            obtain ⟨raws, hraws, h⟩ := bind_eq_ok.mp h
            exact ⟨hne, last, raws, [], rfl, hraws, rfl, Except.ok.inj h⟩
          · rintro ⟨hne, last', raws, relocs, hlast, hraws, hrelocs, rfl⟩
            obtain rfl := Option.some.inj hlast
            obtain rfl := Except.ok.inj hrelocs
            exact ⟨(), hne, bind_eq_ok.mpr ⟨raws, hraws, rfl⟩⟩
  · rw [if_pos hmod]
    refine iff_of_false ?_ fun hc => hmod hc.1
    intro h
    cases h

/-- What any file says that `write_pe` writes. -/
theorem writePe_inv {exec : Executable} {base : UInt64} {table : SizedData}
    {segname : Nat → Nat → UInt8} {file : List UInt8}
    (h : writePe segname exec base table = .ok file) :
    ∃ last rest, exec.segments.getLast? = some last ∧ exec.executableAlignment ≠ 0 ∧
      exec.executableAlignment % 512 = 0 ∧
      file = record (peHeaders exec base (relocVaddrOf exec last)
          (sizeOfImageOf exec base last table) (sizeOfHeadersOf exec) table) ++
        ((sectionTable segname exec base (relocVaddrOf exec last) table
          (layoutPeFile exec (sizeOfHeadersOf exec) table 512)).flatMap Pe32SectionHeader.bytes ++
          rest) := by
  obtain ⟨hmod, hne, last, raws, relocs, hlast, -, -, hfile⟩ := writePe_eq_ok.mp h
  exact ⟨last, _, hlast, hne, hmod, hfile.symm⟩

/-- The header for Windows is 112 bytes into the file, behind the DOS header and two others. -/
theorem peHeaders_windowsHeader (exec : Executable)
    (base relocVaddr sizeOfImage sizeOfHeaders : UInt64) (table : SizedData) (rest : List UInt8) :
    ∃ pre post, (record peDosHeader ++ pre).length = 112 ∧
      record (peHeaders exec base relocVaddr sizeOfImage sizeOfHeaders table) ++ rest =
        (record peDosHeader ++ pre) ++
          (record (pe32PlusOptionalWindowsHeader base exec.executableAlignment 512
            sizeOfImage.toUInt32 sizeOfHeaders.toUInt32) ++ post) := by
  have hlen : (record peDosHeader ++ (record (peHeader (peSectionNum exec).toUInt16) ++
      record (pe32PlusOptionalHeader (getExecStats exec base)
        (exec.entryAddr - base).toUInt32))).length = 112 := by
    simp only [List.length_append, length_record, width_peHeader, width_pe32PlusOptionalHeader,
      width_peDosHeader]
  refine ⟨_, record (if hasPeReloc exec then
      pe32OptionalDataDirectoryHeader (relocVaddr - base).toUInt32 table.size.toUInt32
    else pe32OptionalDataDirectoryHeader 0 0) ++ rest, hlen, ?_⟩
  rw [peHeaders]
  simp only [record_append, List.append_assoc]

end LoliLoader.Elf2Efi
