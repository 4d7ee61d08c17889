/-
# LoliLoader.Boot.Loading -- a file that is loaded into pages of its size

`load_and_validate_entry` does so twice, for the kernel and for the initrd, and goes on from each of
four ends: the file has no size, there are no pages, it is not read, it is.

`loadIntoPages` is what the two have in common, as a function of what is done at each end. In the
source the code stands there twice; that each of them is an instance holds by definition, so the
model of the attempt can be the code as it is written.

`loadIntoPages_cases` follows the common part once. The ends start from a machine that has no more
and has said no more than before, but for the pages on top (`WithPages`), and this is all that a
caller has to know about how it came there.

The theorem is used for three questions: what is left behind, what is said, and what a run may fault
on.
-/
import LoliLoader.Boot.Silent

namespace LoliLoader.Boot

open C Menu

section

variable (ck : CharKind) (vol : Volume) (sizes loads : FileAnswers)
  (pages : Option (Nat → UInt8)) (path : CString)

/-- What the two have in common, with what is done at each end. -/
def loadIntoPages {α : Type} (unsized noPages unread : Run α)
    (loaded : Int64 → Nat → Int64 → Run α) : Run α := do
  let size ← fileGetSize ck vol sizes path
  if size < 0 then unsized
  else
    match ← mallocPages pages size.toUInt64 with
    | none => noPages
    | some base =>
      let ret ← fileLoadPages ck vol loads path base
      if ret < 0 then unread
      else loaded size base ret

/-- A machine that has no more in its environment and has said no more than before, but for these
pages on top. -/
structure WithPages (fw : Firmware) (new : List PageRun) (fw' : Firmware) : Prop where
  env : fw'.env = { fw.env with pages := new ++ fw.env.pages }
  output : fw'.output = fw.output

/-- The ends, with the machine that each of them starts from and what is known of the file there. -/
inductive LoadsIntoPages {α : Type} (unsized noPages unread : Run α)
    (loaded : Int64 → Nat → Int64 → Run α) (fw : Firmware) (r : α) (fw' : Firmware) : Prop where
  | unsized {fw₁} (size : fileSizeOf ck vol sizes path < 0) (start : WithPages fw [] fw₁)
      (rest : unsized fw₁ = .ok (r, fw'))
  | noPages {fw₁} (size : ¬ fileSizeOf ck vol sizes path < 0) (refused : pages = none)
      (start : WithPages fw [] fw₁) (rest : noPages fw₁ = .ok (r, fw'))
  | unread {fw₁} {m : Memory} (size : ¬ fileSizeOf ck vol sizes path < 0) (given : pages.isSome)
      (read : fileLoadOf ck vol loads path < 0)
      (start : WithPages fw [⟨fresh (fw.env.pages.map PageRun.base), m⟩] fw₁)
      (rest : unread fw₁ = .ok (r, fw'))
  | loaded {fw₁} {m : Memory} {f : File} (size : ¬ fileSizeOf ck vol sizes path < 0)
      (given : pages.isSome) (read : ¬ fileLoadOf ck vol loads path < 0)
      (opened : openedFile ck vol loads path = some f)
      (delivered : ∃ junk, deliver (junkMemory junk
        ((sizeToEfiPages (fileSizeOf ck vol sizes path).toUInt64).toNat * 4096))
        (f.contents.take loads.read.transferred) = .ok m)
      (start : WithPages fw [⟨fresh (fw.env.pages.map PageRun.base), m⟩] fw₁)
      (rest : loaded (fileSizeOf ck vol sizes path) (fresh (fw.env.pages.map PageRun.base))
        (fileLoadOf ck vol loads path) fw₁ = .ok (r, fw'))

variable {ck vol sizes loads pages path}

theorem not_isNone (h : pages.isSome) : ¬ pages.isNone = true :=
  Option.isNone_iff_eq_none.not.mpr (Option.isSome_iff_ne_none.mp h)

theorem withPages_getPair {cfg : CString} {p : Nat} {key : CString} {fw fw' : Firmware}
    {r : Option (Nat × CString)} (h : getPair cfg p key fw = .ok (r, fw')) : WithPages fw [] fw' :=
  ⟨keeps_getPair _ _ _ h, silent_getPair _ _ _ h⟩

/-- **A file is loaded into pages**, or one of the steps fails: a run that has returned has come to
one of the ends. -/
theorem loadIntoPages_cases {α : Type} {unsized noPages unread : Run α}
    {loaded : Int64 → Nat → Int64 → Run α} {fw fw₀ fw' : Firmware} {r : α}
    (h₀ : WithPages fw [] fw₀)
    (h : loadIntoPages ck vol sizes loads pages path unsized noPages unread loaded fw₀
      = .ok (r, fw')) :
    LoadsIntoPages ck vol sizes loads pages path unsized noPages unread loaded fw r fw' := by
  obtain ⟨size, fw₁, hsize, hrun⟩ := bind_ok.mp h
  have hsilent₁ := (silent_fileGetSize _ _ _ _ hsize).trans h₀.output
  obtain ⟨henv₁, rfl⟩ := fileGetSize_ok hsize
  replace henv₁ : fw₁.env = fw.env := henv₁.trans h₀.env
  by_cases hneg : fileSizeOf ck vol sizes path < 0
  · rw [if_pos hneg] at hrun
    exact .unsized hneg ⟨henv₁, hsilent₁⟩ hrun
  rw [if_neg hneg] at hrun
  obtain ⟨b, fw₂, hmalloc, hrun⟩ := bind_ok.mp hrun
  have hsilent₂ := (silent_mallocPages _ _ hmalloc).trans hsilent₁
  rcases mallocPages_ok hmalloc with ⟨hnone, rfl, henv₂⟩ | ⟨junk, hsome, rfl, henv₂⟩
  · exact .noPages hneg hnone ⟨henv₂.trans henv₁, hsilent₂⟩ hrun
  rw [henv₁] at henv₂ hrun
  have hpages : pages.isSome := by rw [hsome, Option.isSome_some]
  obtain ⟨ret, fw₃, hload, hrun⟩ := bind_ok.mp hrun
  have hsilent₃ := (silent_fileLoadPages _ _ _ _ _ hload).trans hsilent₂
  have hnew := fresh_notMem (fw.env.pages.map PageRun.base)
  obtain ⟨rfl, m, henv₃, hread⟩ := fileLoadPages_ok (by rw [henv₂]) hnew hload
  rw [henv₂] at henv₃
  by_cases hbad : fileLoadOf ck vol loads path < 0
  · rw [if_pos hbad] at hrun
    exact .unread hneg hpages hbad ⟨henv₃, hsilent₃⟩ hrun
  · rw [if_neg hbad] at hrun
    obtain ⟨f, hf, hdel⟩ := hread (Int64.not_lt.mp hbad)
    exact .loaded hneg hpages hbad hf ⟨junk, hdel⟩ ⟨henv₃, hsilent₃⟩ hrun

end

end LoliLoader.Boot
