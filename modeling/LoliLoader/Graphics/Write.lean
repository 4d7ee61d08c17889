/-
# LoliLoader.Graphics.Write -- runs of the console

From the framebuffers that initialisation sets up, through any sequence of strings: every
framebuffer shows the terminal, and every screen its framebuffer.

There may be several displays, each with a framebuffer of its own; the loop over a string writes a
character to all of them before it comes to the next. `Writing` is the invariant of a display in the
middle of a string, `Settled` that between two strings, when its screen has been updated.

The run starts at `graphics_init`. A GOP gets a framebuffer only if it has a mode that is supported,
if it has not been set up before and if there are pages for it; the buffer is then cleared, and the
screen with it, so that both show the blank terminal (`gopSetupMode_ok`). The other GOPs are left
alone, and nothing is shown on them.

The two theorems at the end are for all strings and all displays. One is about what is shown, in the
middle of a string as well; the other is about the partial updates, that they have the same effect
as full ones.
-/
import LoliLoader.Graphics.Damage

namespace LoliLoader.Graphics

open C Image

/-! ## A string on all framebuffers -/

section

variable {α β κ : Type}

/-- A step that succeeds on every element succeeds on the list. -/
theorem mapM_ok {f : α → Except Fault β} {P : β → Prop} {key : α → κ} {key' : β → κ} {l : List α}
    (h : ∀ a ∈ l, ∃ b, f a = .ok b ∧ P b ∧ key' b = key a) :
    ∃ bs, l.mapM f = .ok bs ∧ (∀ b ∈ bs, P b) ∧ bs.map key' = l.map key := by
  induction l with
  | nil => exact ⟨[], rfl, by simp, rfl⟩
  | cons a l ih =>
      obtain ⟨b, hb, hPb, hkey⟩ := h a List.mem_cons_self
      obtain ⟨bs, hbs, hPbs, hkeys⟩ := ih fun x hx => h x (List.mem_cons_of_mem a hx)
      refine ⟨b :: bs, ?_, ?_, ?_⟩
      · simp [List.mapM_cons, hb, hbs, bind, Except.bind, pure, Except.pure]
      · intro x hx
        rcases List.mem_cons.mp hx with rfl | hx
        · exact hPb
        · exact hPbs x hx
      · rw [List.map_cons, List.map_cons, hkey, hkeys]

end

/-- The GOPs of a list of displays, which no call changes. -/
def gopIds (ds : List Display) : List Nat := ds.map fun d => d.fb.gop

/-- While a string is written: the framebuffer shows the terminal, and the screen shows
what is not damaged. -/
structure Writing (t : Terminal) (d : Display) : Prop where
  shows : Shows d.fb t
  tracks : Tracks d.fb d.screen

/-- Between two strings: the framebuffer shows the terminal, and the screen is up to date. -/
structure Settled (t : Terminal) (d : Display) : Prop where
  shows : Shows d.fb t
  upToDate : UpToDate d.fb d.screen

theorem Settled.writing {t : Terminal} {d : Display} (h : Settled t d) : Writing t d := by
  refine ⟨h.shows, h.shows.sized, h.shows.cursor_le, none, h.upToDate.clean, ?_⟩
  intro x hx y hy _
  exact (h.upToDate.shown x hx y hy).symm

theorem DrawStep.gop {fb fb' : FrameBuffer} {c : UInt8} (h : DrawStep fb c fb') :
    fb'.gop = fb.gop := by
  cases h with
  | carriage => rfl
  | newline hscroll =>
      rw [hscroll.rest]
      rfl
  | margin => rfl
  | backspace _ hcell =>
      rw [hcell.rest]
      rfl
  | type _ _ hcell =>
      show _ = _
      rw [hcell.rest]
      rfl
  | wrap _ _ hscroll hcell =>
      show _ = _
      rw [hcell.rest, hscroll.rest]
      rfl

theorem putChar_ok (ck : CharKind) {t : Terminal} {ds : List Display} (b : UInt8)
    (h : ∀ d ∈ ds, Writing t d) :
    ∃ ds', putChar ck ds b = .ok ds' ∧ (∀ d ∈ ds', Writing (t.put b) d) ∧
      gopIds ds' = gopIds ds := by
  unfold putChar
  apply mapM_ok
  intro d hd
  have hw := h d hd
  obtain ⟨fb', hfb', hstep⟩ := drawChar_step hw.shows.sized (drawnChar_lt ck b) hw.shows.cursor_le
  refine ⟨⟨fb', d.screen⟩, ?_, ⟨hw.shows.step ck hstep, hw.tracks.step hstep⟩, hstep.gop⟩
  simp [hfb', bind, Except.bind, pure, Except.pure]

/-- The loop over a string. -/
theorem putChars_ok (ck : CharKind) {t : Terminal} {ds : List Display} (bs : List UInt8)
    (h : ∀ d ∈ ds, Writing t d) :
    ∃ ds', bs.foldlM (putChar ck) ds = .ok ds' ∧ (∀ d ∈ ds', Writing (t.run bs) d) ∧
      gopIds ds' = gopIds ds := by
  induction bs generalizing t ds with
  | nil => exact ⟨ds, rfl, h, rfl⟩
  | cons b bs ih =>
      obtain ⟨ds₁, hds₁, hw₁, hids₁⟩ := putChar_ok ck b h
      obtain ⟨ds₂, hds₂, hw₂, hids₂⟩ := ih hw₁
      refine ⟨ds₂, ?_, hw₂, hids₂.trans hids₁⟩
      simp [List.foldlM_cons, hds₁, hds₂, bind, Except.bind]

theorem Writing.blit {t : Terminal} {d : Display} (h : Writing t d) :
    Settled t (blitDisplay d).1 ∧ ∀ call ∈ (blitDisplay d).2, InFrame call := by
  obtain ⟨hup, hbuf, hcur, -, hsized, hcalls⟩ := blitDisplay_upToDate h.tracks
  refine ⟨⟨⟨hsized, hcur ▸ h.shows.cursorX, ?_⟩, hup⟩, hcalls⟩
  rw [hbuf]
  exact h.shows.holds

/-- **One call of `graphics_write`** makes no access outside of a buffer, and leaves every display
settled on the terminal behind the string. -/
theorem graphicsWrite_ok (ck : CharKind) {t : Terminal} {g : Console} (buf : CString)
    (havail : g.available = false → g.displays = []) (h : ∀ d ∈ g.displays, Settled t d) :
    ∃ g' calls, graphicsWrite ck g buf = .ok (g', calls) ∧ g'.available = g.available ∧
      (∀ d ∈ g'.displays, Settled (t.run buf.bytes) d) ∧
      gopIds g'.displays = gopIds g.displays ∧ ∀ call ∈ calls, InFrame call := by
  unfold graphicsWrite
  by_cases hoff : g.available = false
  · rw [if_pos hoff]
    refine ⟨g, [], rfl, rfl, ?_, rfl, by simp⟩
    rw [havail hoff]
    simp
  · rw [if_neg hoff]
    obtain ⟨ds, hds, hw, hids⟩ := putChars_ok ck buf.bytes fun d hd => (h d hd).writing
    simp only [hds, bind, Except.bind, pure, Except.pure]
    refine ⟨_, _, rfl, rfl, ?_, ?_, ?_⟩
    · intro d hd
      obtain ⟨b, hb, rfl⟩ := List.mem_map.mp hd
      obtain ⟨e, he, rfl⟩ := List.mem_map.mp hb
      exact (hw e he).blit.1
    · rw [← hids]
      simp only [gopIds, List.map_map]
      apply List.map_congr_left
      intro d hd
      exact (blitDisplay_upToDate (hw d hd).tracks).2.2.2.1
    · intro call hcall
      obtain ⟨b, hb, hbc⟩ := List.mem_filterMap.mp hcall
      obtain ⟨e, he, rfl⟩ := List.mem_map.mp hb
      exact (hw e he).blit.2 call hbc

/-- The run: a sequence of calls. -/
theorem graphicsWrites_ok (ck : CharKind) {t : Terminal} {g : Console} (bufs : List CString)
    (havail : g.available = false → g.displays = []) (h : ∀ d ∈ g.displays, Settled t d) :
    ∃ g' calls, graphicsWrites ck g bufs = .ok (g', calls) ∧
      (∀ d ∈ g'.displays, Settled (t.run (bufs.flatMap CString.bytes)) d) ∧
      gopIds g'.displays = gopIds g.displays ∧ ∀ call ∈ calls, InFrame call := by
  induction bufs generalizing t g with
  | nil => exact ⟨g, [], rfl, h, rfl, by simp⟩
  | cons buf bufs ih =>
      obtain ⟨g₁, calls₁, hg₁, havail₁, hs₁, hids₁, hcalls₁⟩ := graphicsWrite_ok ck buf havail h
      -- a console without framebuffers does not get any
      have hoff : g₁.available = false → g₁.displays = [] := by
        intro hoff
        rw [gopIds, gopIds, havail (havail₁ ▸ hoff)] at hids₁
        exact List.map_eq_nil_iff.mp hids₁
      obtain ⟨g₂, calls₂, hg₂, hs₂, hids₂, hcalls₂⟩ := ih hoff hs₁
      refine ⟨g₂, calls₁ ++ calls₂, ?_, ?_, hids₂.trans hids₁, ?_⟩
      · simp [graphicsWrites, hg₁, hg₂, bind, Except.bind, pure, Except.pure]
      · intro d hd
        have := hs₂ d hd
        rwa [List.flatMap_cons, Terminal.run, List.foldl_append]
      · intro call hcall
        rcases List.mem_append.mp hcall with hcall | hcall
        · exact hcalls₁ call hcall
        · exact hcalls₂ call hcall

/-! ## Initialisation -/

theorem supported_of_determineMode {ds : List Display} {gop : Gop} {modes : List Mode}
    {info : ModeInfo} (h : gopDetermineMode ds gop modes = some info) :
    640 ≤ info.horizontalRes.toNat ∧ 384 ≤ info.verticalRes.toNat := by
  induction modes with
  | nil => simp [gopDetermineMode] at h
  | cons mode modes ih =>
      unfold gopDetermineMode at h
      split at h
      · simp at h
      rename_i info' hquery
      by_cases hsup : fbmodeIsSupported info' = false
      · rw [if_pos hsup] at h
        exact ih h
      rw [if_neg hsup] at h
      split at h
      · exact ih h
      split at h
      · simp at h
      obtain rfl := Option.some.inj h
      simp only [fbmodeIsSupported, Bool.not_eq_false, Bool.and_eq_true, decide_eq_true_eq,
        ge_iff_le, UInt32.le_iff_toNat_le] at hsup
      exact hsup

theorem render_blank (x y : Nat) : Terminal.blank.render x y = 0 := by
  unfold Terminal.render
  rw [Terminal.cellAt_blank]
  rfl

/-- The buffer of a framebuffer, cleared. -/
theorem memset_clear {b : Buffer} (h : b.size = fbSize) :
    ∃ m, b.memset 0 0 fbSize = .ok m ∧ m.size = fbSize ∧
      ∀ x < 640, ∀ y < 384, picture m x y = 0 := by
  have hfb : fbSize = 983040 := rfl
  obtain ⟨m, hm, hmsize, hmget⟩ := Buffer.memset_is (b := b) 0 0 fbSize (by omega)
  refine ⟨m, hm, hmsize.trans h, ?_⟩
  intro x hx y hy
  apply wordAt_zero
  intro k hk
  rw [hmget, if_pos (by omega)]

/-- **A framebuffer as it is set up** shows the blank terminal, and its screen is blank; the mode
has to be large enough. -/
theorem gopSetupMode_ok (gop : Gop) {info : ModeInfo} (hx : 640 ≤ info.horizontalRes.toNat)
    (hy : 384 ≤ info.verticalRes.toNat) :
    ∃ r, gopSetupMode gop info = .ok r ∧ ∀ d ∈ r, Settled Terminal.blank d := by
  unfold gopSetupMode
  cases gop.pages with
  | none => exact ⟨none, rfl, by simp⟩
  | some pages =>
      have hsize : ((Array.range fbSize).map pages).size = fbSize := by
        rw [Array.size_map, Array.size_range]
      dsimp only
      -- of what is in the pages only the size matters
      generalize (Array.range fbSize).map pages = b at hsize ⊢
      obtain ⟨m, hm, hmsize, hzero⟩ := memset_clear hsize
      simp only [resetDamagedRegion]
      rw [hm]
      refine ⟨_, rfl, ?_⟩
      intro d hd
      obtain rfl := Option.mem_some_iff.mp hd
      refine ⟨⟨⟨rfl, rfl, hmsize⟩, rfl, ?_⟩, .clean rfl rfl rfl rfl, ?_⟩
      · intro x hx y hy
        rw [render_blank]
        exact hzero x hx y hy
      · intro x hx' y hy'
        show blt gop.screen #[0, 0, 0, 0] _ x y = picture m x y
        have h0 : (0 : UInt64).toNat = 0 := rfl
        unfold blt
        rw [hzero x hx' y hy', if_pos]
        · rfl
        · simp only [BltCall.covers, UInt32.toNat_toUInt64, h0]
          omega

/-- What `gop_try_init` sets up is settled, and blank. -/
theorem gopTryInit_ok (ds : List Display) (gop : Gop) :
    ∃ r, gopTryInit ds gop = .ok r ∧ ∀ d ∈ r, Settled Terminal.blank d := by
  unfold gopTryInit
  cases hmode : gopDetermineMode ds gop gop.modes with
  | none => exact ⟨none, rfl, by simp⟩
  | some info =>
      obtain ⟨hx, hy⟩ := supported_of_determineMode hmode
      exact gopSetupMode_ok gop hx hy

theorem initLoop_ok (ds : List Display) (gops : List Gop)
    (h : ∀ d ∈ ds, Settled Terminal.blank d) :
    ∃ ds', initLoop ds gops = .ok ds' ∧ ∀ d ∈ ds', Settled Terminal.blank d := by
  induction gops generalizing ds with
  | nil => exact ⟨ds, rfl, h⟩
  | cons gop gops ih =>
      obtain ⟨r, hr, hset⟩ := gopTryInit_ok ds gop
      unfold initLoop
      simp only [hr, bind, Except.bind]
      cases r with
      | none => exact ih ds h
      | some d =>
          apply ih
          intro x hx
          rcases List.mem_append.mp hx with hx | hx
          · exact h x hx
          · obtain rfl := List.mem_singleton.mp hx
            exact hset x rfl

theorem graphicsInit_ok (gops : List Gop) :
    ∃ g, graphicsInit gops = .ok g ∧ (g.available = false → g.displays = []) ∧
      ∀ d ∈ g.displays, Settled Terminal.blank d := by
  obtain ⟨ds, hds, hset⟩ := initLoop_ok [] gops (by simp)
  refine ⟨⟨!ds.isEmpty, ds⟩, ?_, ?_, hset⟩
  · simp [graphicsInit, hds, bind, Except.bind, pure, Except.pure]
  · intro hoff
    simpa using hoff

/-! ## The console -/

/-- **The console simulates an 80x24 terminal.** After any strings, and any characters of
one more, no access has left a buffer, and every framebuffer shows what the terminal
makes of all bytes so far. -/
theorem console_shows_terminal (ck : CharKind) (gops : List Gop) (bufs : List CString)
    (rest : List UInt8) :
    ∃ g g' calls ds, graphicsInit gops = .ok g ∧ graphicsWrites ck g bufs = .ok (g', calls) ∧
      rest.foldlM (putChar ck) g'.displays = .ok ds ∧ gopIds ds = gopIds g.displays ∧
      ∀ d ∈ ds, Shows d.fb (Terminal.blank.run (bufs.flatMap CString.bytes ++ rest)) ∧
        d.fb.cursorX.toNat ≤ 80 ∧
        d.fb.buf.size = 4 * (d.fb.width.toNat * d.fb.height.toNat) := by
  obtain ⟨g, hg, havail, hset⟩ := graphicsInit_ok gops
  obtain ⟨g', calls, hg', hset', hids', -⟩ := graphicsWrites_ok ck bufs havail hset
  obtain ⟨ds, hds, hw, hids⟩ := putChars_ok ck rest fun d hd => (hset' d hd).writing
  refine ⟨g, g', calls, ds, hg, hg', hds, hids.trans hids', fun d hd => ?_⟩
  have hshows := (hw d hd).shows
  refine ⟨?_, hshows.cursor_le, ?_⟩
  · rwa [Terminal.run, List.foldl_append]
  · rw [hshows.sized.size, hshows.sized.width, hshows.sized.height]
    rfl

/-- **Partial updates equal full updates.** After every call each screen shows its
framebuffer, nothing is damaged, and all rectangles were in the frame. -/
theorem screen_upToDate (ck : CharKind) (gops : List Gop) (bufs : List CString) :
    ∃ g g' calls, graphicsInit gops = .ok g ∧ graphicsWrites ck g bufs = .ok (g', calls) ∧
      gopIds g'.displays = gopIds g.displays ∧
      (∀ d ∈ g'.displays, UpToDate d.fb d.screen) ∧ ∀ call ∈ calls, InFrame call := by
  obtain ⟨g, hg, havail, hset⟩ := graphicsInit_ok gops
  obtain ⟨g', calls, hg', hset', hids', hcalls⟩ := graphicsWrites_ok ck bufs havail hset
  exact ⟨g, g', calls, hg, hg', hids', fun d hd => (hset' d hd).upToDate, hcalls⟩

end LoliLoader.Graphics
