/-
# LoliLoader.Interaction.Delivery -- the devices behind the console

`puts_internal` sends every text to the serial ports and to the displays, or to `conOut` if there is
neither. Over any sequence of calls, each of them gets what has been printed, once and in order.

Three things stand between a call of `printf` and a device: the buffers, the loop that writes to a
port until all has been taken, and the framebuffer with the screen that shows it. Each has been
modelled and proved right by itself. Here they are put behind each other, as `puts_internal` does,
so that a statement about what a port has been given starts at the call.

`Channels` are the devices with what they have been given so far; `Delivered` says what a text adds
to it. A port is given the converted text, a display what the terminal makes of it, and `conOut` the
wide characters. `Delivered.trans` puts texts one behind the other.

A call fails only in the buffers (`putThrough_delivered`): if its text has room there, all of the
devices are given all of the text. The devices themselves never fail, since ports that take
something with every call have been assumed (`Obliging`), and displays take any string.

What the devices have been given before a call plays no part in whether it succeeds.
-/
import LoliLoader.Graphics.Write
import LoliLoader.Interaction.Output
import LoliLoader.Interaction.Serial

namespace LoliLoader.Interaction

open C Graphics

/-! ## The devices -/

/-- The devices, and what they have been given: for each port its bytes, for the displays what they
show, for `conOut` its wide characters. -/
structure Channels where
  serial : SerialStatus
  /-- how often `write` has been called -/
  writes : Nat
  ports : Nat → List UInt8
  graphics : Graphics.Console
  /-- the texts of the calls of `outputString` -/
  conOut : List UInt16

/-- Which devices are available, as `puts_internal` asks. -/
def Channels.devices (c : Channels) : Devices := ⟨c.serial.available, c.graphics.available⟩

/-- Why a call does not return: a fault, or a port that has not taken a text in as many turns as
there are to be. -/
inductive Cut where
  | fault (f : Fault)
  /-- a port has not taken all of a text in so many turns -/
  | turns
  deriving DecidableEq, Repr

/-- The text in `gWideCharBuf`: the wide characters up to the first that ends it. -/
def WideBuffer.text (wcs : WideBuffer) : List UInt16 := wcs.toList.takeWhile fun c => c ≠ 0

section

variable (ck : CharKind) (accepts : Accepts) (turns : Nat)

/-- `serial_write`, with what the ports take. They answer by how often `write` has been called, so
no two calls need be answered alike. -/
def Channels.serialWrite (c : Channels) (line : CString) : Except Cut Channels :=
  -- no object has 2^64 bytes
  if h : line.length < 2 ^ 64 then
    let text : Text := ⟨line, h⟩
    match Interaction.serialWrite (fun k => accepts (c.writes + k)) c.serial text turns with
    | none => .error .turns
    | some calls => .ok { c with
        writes := c.writes + calls.length
        ports := fun port => c.ports port ++ received text port calls }
  else .error .turns

/-- `graphics_write`, with the displays: the text is drawn and the screens are brought up to
date. -/
def Channels.graphicsWrite (c : Channels) (line : CString) : Except Cut Channels :=
  match Graphics.graphicsWrite ck c.graphics line with
  | .error f => .error (.fault f)
  | .ok (graphics, _) => .ok { c with graphics := graphics }

/-- `puts_internal` behind the loop: the texts in the buffers go to the devices, which only read
them. -/
def Channels.send (c : Channels) (bufs : Buffers) : Except Cut Channels := do
  let line := CString.ofBuffer bufs.gLineEndConvertBuf.toList
  let c :=
    if c.serial.available = false ∧ c.graphics.available = false then
      { c with conOut := c.conOut ++ bufs.gWideCharBuf.text }
    else c
  let c ← c.serialWrite accepts turns line
  c.graphicsWrite ck line

/-- A call that writes to the console, with the devices. -/
def putThrough (s : Buffers × Channels) (o : Output) : Except Cut (Buffers × Channels) :=
  match put ck s.2.devices s.1 o with
  | .error f => .error (.fault f)
  | .ok bufs => (s.2.send ck accepts turns bufs).map fun c => (bufs, c)

end

/-! ## What is in the buffers -/

/-- The text in wide characters, each from a `char` with the sign of the target. -/
def wideText (ck : CharKind) (t : List UInt8) : List UInt16 :=
  t.map fun c => UInt16.ofInt (ck.val c)

theorem wideText_append (ck : CharKind) (s t : List UInt8) :
    wideText ck (s ++ t) = wideText ck s ++ wideText ck t := List.map_append

/-- Only the end of a string is converted to the end of one. -/
theorem notMem_wideText (ck : CharKind) {t : List UInt8} (h0 : (0 : UInt8) ∉ t) :
    (0 : UInt16) ∉ wideText ck t := by
  have hbyte : ∀ n < 256, UInt16.ofInt (ck.val (UInt8.ofNat n)) = 0 → UInt8.ofNat n = 0 := by
    cases ck <;> decide +kernel
  have hzero : ∀ c : UInt8, UInt16.ofInt (ck.val c) = 0 → c = 0 := by
    intro c hc
    rw [← UInt8.ofNat_toNat (x := c)] at hc ⊢
    exact hbyte c.toNat c.toNat_lt hc
  intro hmem
  obtain ⟨c, hc, heq⟩ := List.mem_map.mp hmem
  exact h0 (hzero c heq ▸ hc)

/-- A wide buffer starts with `text`; what is behind that is left open. -/
def WideBuffer.Begins (b : WideBuffer) (text : List UInt16) : Prop :=
  ∀ k < text.length, b[k]? = text[k]?

theorem WideBuffer.Begins.store {b : WideBuffer} {text : List UInt16} (h : b.Begins text)
    (c : UInt16) (hroom : text.length < b.size) :
    ∃ m, b.store text.length c = .ok m ∧ m.size = b.size ∧ WideBuffer.Begins m (text ++ [c]) := by
  refine ⟨b.set text.length c hroom, by rw [WideBuffer.store, dif_pos hroom], Array.size_set _, ?_⟩
  intro k hk
  rw [List.length_append, List.length_singleton] at hk
  rcases Nat.lt_or_ge k text.length with hlt | hge
  · rw [Array.getElem?_set_ne _ (Nat.ne_of_gt hlt), h k hlt, List.getElem?_append_left hlt]
  · obtain rfl : k = text.length := by omega
    rw [Array.getElem?_set_self, List.getElem?_concat_length]

/-- What a block starts with is in front of its first end. -/
theorem takeWhile_of_begins {α : Type} [DecidableEq α] {b : Array α} {t : List α} {e : α}
    (h : ∀ k < (t ++ [e]).length, b[k]? = (t ++ [e])[k]?) (he : e ∉ t) :
    b.toList.takeWhile (fun c => c ≠ e) = t := by
  have hstarts : t ++ [e] <+: b.toList := by
    rw [List.prefix_iff_getElem?]
    intro k hk
    rw [Array.getElem?_toList, h k hk, List.getElem?_eq_getElem hk]
  obtain ⟨rest, hrest⟩ := hstarts
  have hne : ∀ c ∈ t, decide (c ≠ e) = true := by
    intro c hc
    rw [decide_eq_true_eq]
    rintro rfl
    exact he hc
  rw [← hrest, List.append_assoc, List.takeWhile_append_of_pos hne]
  simp

section

variable {src : Buffer} {wcs : WideBuffer} {done rest : List UInt8}

/-- **`str2wcs`** of a text, when there is room for it and its end: the wide buffer then starts with
both. -/
theorem str2wcsLoop_text (ck : CharKind) (hsrc : Begins src (done ++ (rest ++ [0])))
    (h0 : (0 : UInt8) ∉ rest) (hwcs : wcs.Begins (wideText ck done))
    (hroom : done.length + rest.length < wcs.size) :
    ∃ m, str2wcsLoop ck wcs src done.length = .ok m ∧ m.size = wcs.size ∧
      m.Begins (wideText ck (done ++ rest) ++ [0]) := by
  have hlen : (wideText ck done).length = done.length := List.length_map _
  induction rest generalizing done wcs with
  | nil =>
      obtain ⟨hlt, hget⟩ := begins_get hsrc
      rw [List.length_nil] at hroom
      obtain ⟨m, hm, hsize, hbegins⟩ := hwcs.store 0 (by omega)
      rw [hlen] at hm
      rw [str2wcsLoop, dif_pos hlt]
      dsimp only
      rw [if_pos hget, List.append_nil]
      exact ⟨m, hm, hsize, hbegins⟩
  | cons c rest ih =>
      rw [List.mem_cons, not_or] at h0
      rw [List.length_cons] at hroom
      obtain ⟨hlt, hget⟩ := begins_get hsrc
      obtain ⟨m₁, hm₁, hsize₁, hbegins₁⟩ := hwcs.store (UInt16.ofInt (ck.val c)) (by omega)
      have hnext : Begins src ((done ++ [c]) ++ (rest ++ [0])) := by
        rw [← List.append_cons]
        exact hsrc
      have hwide : m₁.Begins (wideText ck (done ++ [c])) := by
        rw [wideText_append]
        exact hbegins₁
      obtain ⟨m, hm, hsize, hbegins⟩ := @ih m₁ (done ++ [c]) hnext h0.2 hwide
        (by rw [List.length_append, List.length_singleton]; omega) (List.length_map _)
      rw [hlen] at hm₁
      rw [str2wcsLoop, dif_pos hlt]
      dsimp only
      rw [hget, if_neg (Ne.symm h0.1)]
      rw [List.length_append, List.length_singleton] at hm
      refine ⟨m, ?_, hsize.trans hsize₁, ?_⟩
      · exact bind_eq_ok.mpr ⟨m₁, hm₁, hm⟩
      · rw [List.append_cons done c rest]
        exact hbegins

end

theorem notMem_lineEnds {t : List UInt8} (h0 : (0 : UInt8) ∉ t) : (0 : UInt8) ∉ lineEnds t := by
  intro hmem
  obtain ⟨c, hc, hin⟩ := List.mem_flatMap.mp hmem
  by_cases h10 : c = 10
  · rw [if_pos h10] at hin
    revert hin
    decide
  · rw [if_neg h10, List.mem_singleton] at hin
    exact h0 (hin ▸ hc)

/-! ## One call -/

/-- The buffers after a call: what the devices read. The wide one is filled only if there is no
other device than `conOut`. -/
structure Buffers.Hold (bufs : Buffers) (ck : CharKind) (dev : Devices) (t : List UInt8) :
    Prop where
  allocated : bufs.Allocated
  line : Begins bufs.gLineEndConvertBuf (lineEnds t ++ [0])
  wide : dev.serial = false ∧ dev.graphics = false →
    bufs.gWideCharBuf.Begins (wideText ck (lineEnds t) ++ [0])

section

variable {ck : CharKind} {dev : Devices} {bufs : Buffers} {t : List UInt8}

theorem putsInternal_hold (hbufs : bufs.Allocated) (htext : Begins bufs.gFormatBuf (t ++ [0]))
    (h0 : (0 : UInt8) ∉ t) (hroom : (lineEnds t).length < 1024) :
    ∃ bufs', putsInternal ck dev bufs = .ok bufs' ∧ bufs'.Hold ck dev t := by
  have hempty : Begins bufs.gLineEndConvertBuf [] := fun k hk => absurd hk (Nat.not_lt_zero k)
  have hwempty : bufs.gWideCharBuf.Begins [] := fun k hk => absurd hk (Nat.not_lt_zero k)
  obtain ⟨line, hline, hsize, hbegins⟩ := @convertLineEnds_ok _ _ [] t [] htext h0 hempty
    (by rw [List.length_nil, hbufs.lineEnd]; omega)
  rw [hbufs.lineEnd] at hsize
  by_cases hdev : dev.serial = false ∧ dev.graphics = false
  · obtain ⟨wide, hwide, hwsize, hwbegins⟩ := @str2wcsLoop_text line bufs.gWideCharBuf []
      (lineEnds t) ck hbegins (notMem_lineEnds h0) hwempty
      (by rw [List.length_nil, hbufs.wide]; omega)
    rw [hbufs.wide] at hwsize
    refine ⟨{ bufs with gLineEndConvertBuf := line, gWideCharBuf := wide },
      bind_eq_ok.mpr ⟨line, hline, ?_⟩, ⟨hbufs.format, hsize, hwsize⟩, hbegins, fun _ => hwbegins⟩
    rw [if_pos hdev]
    exact bind_eq_ok.mpr ⟨wide, hwide, rfl⟩
  · refine ⟨{ bufs with gLineEndConvertBuf := line }, bind_eq_ok.mpr ⟨line, hline, ?_⟩,
      ⟨hbufs.format, hsize, hbufs.wide⟩, hbegins, fun h => absurd h hdev⟩
    rw [if_neg hdev]
    rfl

/-- Only a text with room can have been written. -/
theorem room_of_putsInternal {bufs' : Buffers} (hbufs : bufs.Allocated)
    (htext : Begins bufs.gFormatBuf (t ++ [0])) (h0 : (0 : UInt8) ∉ t)
    (h : putsInternal ck dev bufs = .ok bufs') : (lineEnds t).length < 1024 := by
  obtain ⟨line, hline, -⟩ := bind_eq_ok.mp h
  have hlt := @lt_of_convertLineEnds _ _ [] t 0 line htext h0 hline
  rw [hbufs.lineEnd] at hlt
  omega

/-- What a call does before `puts_internal`. -/
theorem put_formatted {o : Output} (hbufs : bufs.Allocated) (ht : textOf o = some t) :
    (t.length < 1024 → ∃ m, Begins m (t ++ [0]) ∧ m.size = 1024 ∧
      put ck dev bufs o = putsInternal ck dev { bufs with gFormatBuf := m }) ∧
    ∀ bufs', put ck dev bufs o = .ok bufs' → t.length < 1024 := by
  cases o with
  | printf format args =>
      obtain ⟨ds, hds, htext⟩ := Option.bind_eq_some_iff.mp ht
      obtain ⟨hroom, hdone⟩ := @vsprintf_ok bufs.gFormatBuf _ _ _ _ hds htext
      rw [hbufs.format] at hroom hdone
      refine ⟨fun hlt => ?_, fun bufs' h => ?_⟩
      · obtain ⟨m, hm⟩ := hroom hlt
        obtain ⟨-, hsize, hbegins⟩ := hdone m hm
        refine ⟨m, hbegins, hsize, ?_⟩
        show (vsprintf bufs.gFormatBuf (ascii format) args >>= _) = _
        rw [hm]
        rfl
      · obtain ⟨m, hm, -⟩ := bind_eq_ok.mp h
        exact (hdone m hm).1
  | putsSized s =>
      obtain rfl := Option.some.inj ht
      have hempty : Begins bufs.gFormatBuf [] := fun k hk => absurd hk (Nat.not_lt_zero k)
      refine ⟨fun hlt => ?_, fun bufs' h => ?_⟩
      · obtain ⟨m₁, hm₁, hsize₁, hbegins₁⟩ := hempty.storeBytes s
          (by rw [List.length_nil, hbufs.format]; omega)
        obtain ⟨m₂, hm₂, hsize₂, hbegins₂⟩ := hbegins₁.store 0
          (by rw [List.nil_append, hsize₁, hbufs.format]; exact hlt)
        refine ⟨m₂, hbegins₂, by rw [hsize₂, hsize₁, hbufs.format], ?_⟩
        show (bufs.gFormatBuf.storeBytes 0 s >>= _) = _
        rw [show bufs.gFormatBuf.storeBytes 0 s = .ok m₁ from hm₁]
        show (m₁.store s.length 0 >>= _) = _
        rw [show m₁.store s.length 0 = .ok m₂ from hm₂]
        rfl
      · obtain ⟨m₁, hm₁, h⟩ := bind_eq_ok.mp h
        obtain ⟨m₂, hm₂, -⟩ := bind_eq_ok.mp h
        have hlt := (store_inv hm₂).1
        rwa [(storeBytes_inv hm₁).size, hbufs.format] at hlt

/-- **One call** succeeds exactly if its text has room, and then the buffers hold the text, whatever
was in them before. -/
theorem put_hold {o : Output} (hbufs : bufs.Allocated) (ht : textOf o = some t)
    (h0 : (0 : UInt8) ∉ t) :
    ((∃ bufs', put ck dev bufs o = .ok bufs') ↔ (lineEnds t).length < 1024) ∧
      ∀ bufs', put ck dev bufs o = .ok bufs' → bufs'.Hold ck dev t := by
  obtain ⟨hformat, hok⟩ := @put_formatted ck dev bufs t o hbufs ht
  have hle := length_le_lineEnds t
  have hputs : t.length < 1024 → ∃ m, put ck dev bufs o
      = putsInternal ck dev { bufs with gFormatBuf := m } ∧ Begins m (t ++ [0]) ∧
        ({ bufs with gFormatBuf := m } : Buffers).Allocated := by
    intro hlt
    obtain ⟨m, hbegins, hsize, hput⟩ := hformat hlt
    exact ⟨m, hput, hbegins, hsize, hbufs.lineEnd, hbufs.wide⟩
  have hholds : ∀ bufs', put ck dev bufs o = .ok bufs' →
      (lineEnds t).length < 1024 ∧ bufs'.Hold ck dev t := by
    intro bufs' h
    obtain ⟨m, hput, hbegins, hallocated⟩ := hputs (hok bufs' h)
    rw [hput] at h
    have hroom := room_of_putsInternal hallocated hbegins h0 h
    obtain ⟨bufs'', h', hhold⟩ := putsInternal_hold hallocated hbegins h0 hroom
    obtain rfl := Except.ok.inj (h.symm.trans h')
    exact ⟨hroom, hhold⟩
  refine ⟨⟨fun ⟨bufs', h⟩ => (hholds bufs' h).1, fun hroom => ?_⟩, fun bufs' h => ?_⟩
  · obtain ⟨m, hput, hbegins, hallocated⟩ := hputs (by omega)
    obtain ⟨bufs', h, -⟩ := putsInternal_hold hallocated hbegins h0 hroom
    exact ⟨bufs', hput.trans h⟩
  · exact (hholds bufs' h).2

end

/-! ## One text on the devices -/

/-- What the devices have been given: each port its bytes, each display the terminal that it shows,
and `conOut` its wide characters. -/
structure Channels.Given (c : Channels) (ports : Nat → List UInt8) (t : Terminal)
    (wide : List UInt16) : Prop where
  ports : ∀ port < c.serial.num, c.ports port = ports port
  displays : ∀ d ∈ c.graphics.displays, Settled t d
  dark : c.graphics.available = false → c.graphics.displays = []
  conOut : c.conOut = wide

/-- The devices as they are set up: nothing has been given to any of them, and no port has been
asked. -/
def Channels.setUp (num : Option Nat) (g : Graphics.Console) : Channels :=
  ⟨serialInit num, 0, fun _ => [], g, []⟩

theorem given_setUp (num : Option Nat) {gops : List Gop} {g : Graphics.Console}
    (hg : graphicsInit gops = .ok g) :
    (Channels.setUp num g).Given (fun _ => []) Terminal.blank [] := by
  obtain ⟨g', hg', hdark, hblank⟩ := graphicsInit_ok gops
  obtain rfl := Except.ok.inj (hg.symm.trans hg')
  exact ⟨fun _ _ => rfl, hblank, hdark, rfl⟩

/-- The devices are the same; what they have been given may differ. -/
structure Channels.Same (c c' : Channels) : Prop where
  serial : c'.serial = c.serial
  available : c'.graphics.available = c.graphics.available
  displays : gopIds c'.graphics.displays = gopIds c.graphics.displays

theorem Channels.Same.refl (c : Channels) : c.Same c := ⟨rfl, rfl, rfl⟩

theorem Channels.Same.trans {c c₁ c₂ : Channels} (h : c.Same c₁) (h' : c₁.Same c₂) : c.Same c₂ :=
  ⟨h'.serial.trans h.serial, h'.available.trans h.available, h'.displays.trans h.displays⟩

theorem Channels.Same.devices {c c' : Channels} (h : c.Same c') : c'.devices = c.devices := by
  rw [Channels.devices, Channels.devices, h.serial, h.available]

/-- Obliging ports stay so. -/
theorem Obliging.later {accepts : Accepts} (h : Obliging accepts) (n : Nat) :
    Obliging fun k => accepts (n + k) := fun k asked hne => h (n + k) asked hne

section

variable {ck : CharKind} {accepts : Accepts} {turns : Nat} {c : Channels}
  {ports : Nat → List UInt8} {t : Terminal} {wide : List UInt16}

/-- The ports. -/
theorem Channels.Given.serialWrite (hc : c.Given ports t wide) (h : Obliging accepts)
    {line : CString} (hline : line.length < turns) (hfits : line.length < 2 ^ 64) :
    ∃ c', c.serialWrite accepts turns line = .ok c' ∧
      c'.Given (fun port => ports port ++ line.bytes) t wide ∧ c.Same c' := by
  obtain ⟨calls, hcalls, hrun⟩ : ∃ calls,
      DeliversAll ⟨line, hfits⟩ (List.range c.serial.num) calls ∧
      Interaction.serialWrite (fun k => accepts (c.writes + k)) c.serial ⟨line, hfits⟩ turns
        = some calls := by
    by_cases hoff : c.serial.available = false
    · refine ⟨[], ?_, by rw [Interaction.serialWrite, if_pos hoff]⟩
      rw [c.serial.unavailable hoff]
      exact ⟨by simp, by simp⟩
    · obtain ⟨calls, hcalls, hloop⟩ :=
        serialPorts_ok ⟨line, hfits⟩ (h.later c.writes) List.nodup_range 0
      exact ⟨calls, hcalls, by rw [Interaction.serialWrite, if_neg hoff, hloop turns hline]⟩
  refine ⟨{ c with
      writes := c.writes + calls.length
      ports := fun port => c.ports port ++ received ⟨line, hfits⟩ port calls },
    ?_, ⟨fun port hport => ?_, hc.displays, hc.dark, hc.conOut⟩, rfl, rfl, rfl⟩
  · rw [Channels.serialWrite, dif_pos hfits]
    dsimp only
    rw [hrun]
  · show c.ports port ++ _ = _
    rw [hc.ports port hport, hcalls.received port (List.mem_range.mpr hport)]

/-- The displays. -/
theorem Channels.Given.graphicsWrite (hc : c.Given ports t wide) (ck : CharKind) (line : CString) :
    ∃ c', c.graphicsWrite ck line = .ok c' ∧
      c'.Given ports (t.run line.bytes) wide ∧ c.Same c' := by
  obtain ⟨g, calls, hrun, havailable, hsettled, hids, -⟩ :=
    graphicsWrite_ok ck line hc.dark hc.displays
  refine ⟨{ c with graphics := g }, by rw [Channels.graphicsWrite, hrun],
    ⟨hc.ports, hsettled, fun hoff => ?_, hc.conOut⟩, rfl, havailable, hids⟩
  rw [gopIds, gopIds, hc.dark (havailable ▸ hoff)] at hids
  exact List.map_eq_nil_iff.mp hids

/-- What `conOut` gets of a text: all of it if there is no other device, and else nothing. -/
def wideShare (ck : CharKind) (dev : Devices) (line : List UInt8) : List UInt16 :=
  if dev.serial = false ∧ dev.graphics = false then wideText ck line else []

/-- **The devices are given the text** that the buffers hold, behind what they had, and they stay
the same devices. -/
theorem Channels.Given.send (hc : c.Given ports t wide) (h : Obliging accepts) {bufs : Buffers}
    {text : List UInt8} (hbufs : bufs.Hold ck c.devices text) (h0 : (0 : UInt8) ∉ text)
    (hroom : (lineEnds text).length < 1024) (hturns : 1024 ≤ turns) :
    ∃ c', c.send ck accepts turns bufs = .ok c' ∧
      c'.Given (fun port => ports port ++ lineEnds text) (t.run (lineEnds text))
        (wide ++ wideShare ck c.devices (lineEnds text)) ∧ c.Same c' := by
  have hline : (CString.ofBuffer bufs.gLineEndConvertBuf.toList).bytes = lineEnds text :=
    takeWhile_of_begins hbufs.line (notMem_lineEnds h0)
  generalize hof : CString.ofBuffer bufs.gLineEndConvertBuf.toList = line at hline
  have hlen : line.length < 1024 := by
    rw [CString.length, hline]
    exact hroom
  -- first `conOut`, then the ports, then the displays
  obtain ⟨c₁, hcon, hgiven₁, hsame₁⟩ : ∃ c₁,
      (if c.serial.available = false ∧ c.graphics.available = false then
        { c with conOut := c.conOut ++ bufs.gWideCharBuf.text } else c) = c₁ ∧
      c₁.Given ports t (wide ++ wideShare ck c.devices (lineEnds text)) ∧ c.Same c₁ := by
    refine ⟨_, rfl, ?_⟩
    unfold wideShare
    by_cases hdev : c.serial.available = false ∧ c.graphics.available = false
    · have hwide : bufs.gWideCharBuf.text = wideText ck (lineEnds text) :=
        takeWhile_of_begins (hbufs.wide hdev) (notMem_wideText ck (notMem_lineEnds h0))
      rw [if_pos hdev,
        if_pos (show c.devices.serial = false ∧ c.devices.graphics = false from hdev),
        hwide, hc.conOut]
      exact ⟨⟨hc.ports, hc.displays, hc.dark, rfl⟩, rfl, rfl, rfl⟩
    · rw [if_neg hdev,
        if_neg (show ¬ (c.devices.serial = false ∧ c.devices.graphics = false) from hdev),
        List.append_nil]
      exact ⟨hc, .refl c⟩
  obtain ⟨c₂, hserial, hgiven₂, hsame₂⟩ :=
    hgiven₁.serialWrite h (show line.length < turns by omega) (hlen.trans (by norm_num))
  obtain ⟨c₃, hgraphics, hgiven₃, hsame₃⟩ := hgiven₂.graphicsWrite ck line
  rw [hline] at hgiven₃
  refine ⟨c₃, ?_, hgiven₃, (hsame₁.trans hsame₂).trans hsame₃⟩
  rw [Channels.send, hof, hcon]
  show (c₁.serialWrite accepts turns line >>= _) = _
  rw [hserial]
  exact hgraphics

end

/-! ## Runs -/

/-- The call prints the text: its arguments are those its format asks for, and the text is a
string. -/
def Prints (o : Output) (text : List UInt8) : Prop := textOf o = some text ∧ (0 : UInt8) ∉ text

/-- What the console is for: a text is given to all of the devices, behind what they have been given
before. -/
structure Delivered (ck : CharKind) (c c' : Channels) (ports : Nat → List UInt8) (t : Terminal)
    (wide : List UInt16) (text : List UInt8) : Prop where
  given : c'.Given (fun port => ports port ++ lineEnds text) (t.run (lineEnds text))
    (wide ++ wideShare ck c.devices (lineEnds text))
  same : c.Same c'

theorem wideShare_append (ck : CharKind) (dev : Devices) (s t : List UInt8) :
    wideShare ck dev (s ++ t) = wideShare ck dev s ++ wideShare ck dev t := by
  unfold wideShare
  by_cases hdev : dev.serial = false ∧ dev.graphics = false
  · rw [if_pos hdev, if_pos hdev, if_pos hdev, wideText_append]
  · rw [if_neg hdev, if_neg hdev, if_neg hdev]
    rfl

section

variable {ck : CharKind} {accepts : Accepts} {turns : Nat} {c c' c'' : Channels}
  {ports : Nat → List UInt8} {t : Terminal} {wide : List UInt16} {bufs : Buffers}

theorem Channels.Given.delivered_nil (hc : c.Given ports t wide) :
    Delivered ck c c ports t wide [] := by
  have hshare : wideShare ck c.devices (lineEnds []) = [] := by
    rw [wideShare, lineEnds, List.flatMap_nil]
    exact ite_self _
  refine ⟨?_, .refl c⟩
  rw [hshare, List.append_nil]
  exact ⟨fun port hport => by rw [hc.ports port hport]; exact (List.append_nil _).symm,
    hc.displays, hc.dark, hc.conOut⟩

/-- One text behind the other. -/
theorem Delivered.trans {text more : List UInt8} (h : Delivered ck c c' ports t wide text)
    (h' : Delivered ck c' c'' (fun port => ports port ++ lineEnds text) (t.run (lineEnds text))
      (wide ++ wideShare ck c.devices (lineEnds text)) more) :
    Delivered ck c c'' ports t wide (text ++ more) := by
  refine ⟨⟨fun port hport => ?_, ?_, h'.given.dark, ?_⟩, h.same.trans h'.same⟩
  · rw [h'.given.ports port hport, lineEnds_append, List.append_assoc]
  · rw [lineEnds_append, Terminal.run, List.foldl_append]
    exact h'.given.displays
  · rw [h'.given.conOut, h.same.devices, lineEnds_append, wideShare_append, List.append_assoc]

/-- **One call** succeeds exactly if its text has room, and then all of the devices are given the
text, with its line ends converted. -/
theorem putThrough_delivered (ck : CharKind) {o : Output} {text : List UInt8}
    (hbufs : bufs.Allocated) (hc : c.Given ports t wide) (h : Obliging accepts)
    (hturns : 1024 ≤ turns) (ho : Prints o text) :
    ((∃ s, putThrough ck accepts turns (bufs, c) o = .ok s) ↔ (lineEnds text).length < 1024) ∧
      ∀ s, putThrough ck accepts turns (bufs, c) o = .ok s →
        s.1.Allocated ∧ Delivered ck c s.2 ports t wide text := by
  obtain ⟨hiff, hhold⟩ := @put_hold ck c.devices bufs text o hbufs ho.1 ho.2
  unfold putThrough
  dsimp only
  cases hput : put ck c.devices bufs o with
  | error f =>
      rw [hput] at hiff
      refine ⟨⟨?_, fun hroom => ?_⟩, fun s hs => ?_⟩
      · rintro ⟨s, hs⟩
        cases hs
      · obtain ⟨bufs', h'⟩ := hiff.mpr hroom
        cases h'
      · cases hs
  | ok bufs' =>
      have hroom := hiff.mp ⟨bufs', hput⟩
      have hbufs' := hhold bufs' hput
      obtain ⟨c', hsend, hgiven, hsame⟩ := hc.send h hbufs' ho.2 hroom hturns
      dsimp only
      rw [hsend]
      refine ⟨iff_of_true ⟨_, rfl⟩ hroom, fun s hs => ?_⟩
      obtain rfl := Except.ok.inj hs
      exact ⟨hbufs'.allocated, hgiven, hsame⟩

/-- **Calls one after the other** succeed exactly if each of their texts has room, and then all of
the devices are given all of the texts, in order. -/
theorem puts_delivered (ck : CharKind) {outs : List Output} {texts : List (List UInt8)}
    (hbufs : bufs.Allocated) (hc : c.Given ports t wide) (h : Obliging accepts)
    (hturns : 1024 ≤ turns) (houts : List.Forall₂ Prints outs texts) :
    ((∃ s, outs.foldlM (putThrough ck accepts turns) (bufs, c) = .ok s) ↔
        ∀ text ∈ texts, (lineEnds text).length < 1024) ∧
      ∀ s, outs.foldlM (putThrough ck accepts turns) (bufs, c) = .ok s →
        s.1.Allocated ∧ Delivered ck c s.2 ports t wide texts.flatten := by
  induction houts generalizing bufs c ports t wide with
  | nil =>
      refine ⟨iff_of_true ⟨_, rfl⟩ (List.forall_mem_nil _), fun s hs => ?_⟩
      obtain rfl := Except.ok.inj hs
      exact ⟨hbufs, hc.delivered_nil⟩
  | @cons o text outs texts ho _ ih =>
      obtain ⟨hiff, hstep⟩ := putThrough_delivered ck hbufs hc h hturns ho
      rw [List.forall_mem_cons, List.flatten_cons, List.foldlM_cons]
      refine ⟨⟨?_, ?_⟩, ?_⟩
      · rintro ⟨s, hs⟩
        obtain ⟨s₁, hs₁, hrest⟩ := bind_eq_ok.mp hs
        obtain ⟨hbufs₁, hdelivered₁⟩ := hstep s₁ hs₁
        exact ⟨hiff.mp ⟨s₁, hs₁⟩, (ih hbufs₁ hdelivered₁.given).1.mp ⟨s, hrest⟩⟩
      · rintro ⟨hroom, hrooms⟩
        obtain ⟨s₁, hs₁⟩ := hiff.mpr hroom
        obtain ⟨hbufs₁, hdelivered₁⟩ := hstep s₁ hs₁
        obtain ⟨s, hs⟩ := (ih hbufs₁ hdelivered₁.given).1.mpr hrooms
        exact ⟨s, bind_eq_ok.mpr ⟨s₁, hs₁, hs⟩⟩
      · intro s hs
        obtain ⟨s₁, hs₁, hrest⟩ := bind_eq_ok.mp hs
        obtain ⟨hbufs₁, hdelivered₁⟩ := hstep s₁ hs₁
        obtain ⟨hbufs₂, hdelivered₂⟩ := (ih hbufs₁ hdelivered₁.given).2 s hrest
        exact ⟨hbufs₂, hdelivered₁.trans hdelivered₂⟩

end

end LoliLoader.Interaction
