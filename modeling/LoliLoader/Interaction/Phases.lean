/-
# LoliLoader.Interaction.Phases -- devices that come in while text is printed

A program starts with no device but `conOut`. Serial ports come in when they have been set up, and
displays after them; a device that comes in has been given nothing yet. What is printed before it
comes in is not given to it later.

So the calls of a program fall into three phases, each with the devices that are there. Within one
of them the devices do not change, and what holds of any sequence of calls on given devices holds of
the phase. It is only left to say what is known of the devices where one phase ends and the next
begins: the buffers are as they were, the ports keep what they have, and new displays are blank.

`putPhases` runs the three sequences, and `Shows` is what has become of their texts. A machine
without ports has an empty set of them come in, and likewise for displays; then the phase is as the
one before it, and all goes to `conOut`.

`putPhases_shows` is an equivalence, like the theorem about one phase that it is made of. Its step
is `phase_bind`.
-/
import LoliLoader.Interaction.Delivery

namespace LoliLoader.Interaction

open C Graphics

/-! ## Calls in phases -/

/-- The ports come in.  They have been given nothing. -/
def Channels.withPorts (c : Channels) (serial : SerialStatus) : Channels :=
  { c with serial := serial, ports := fun _ => [] }

/-- The displays come in; the other devices keep what they have been given. -/
def Channels.withDisplays (c : Channels) (g : Graphics.Console) : Channels :=
  { c with graphics := g }

section

variable (ck : CharKind) (accepts : Accepts) (turns : Nat) (serial : SerialStatus)
  (g : Graphics.Console)

/-- The calls of three phases: first there are no devices, then there are the ports, at last the
displays as well. -/
def putPhases (bufs : Buffers) (first mid late : List Output) :
    Except Cut (Buffers × Channels) := do
  let s ← first.foldlM (putThrough ck accepts turns) (bufs, .setUp none ⟨false, []⟩)
  let s ← mid.foldlM (putThrough ck accepts turns) (s.1, s.2.withPorts serial)
  late.foldlM (putThrough ck accepts turns) (s.1, s.2.withDisplays g)

end

/-- What has become of the texts of three phases: each port has the texts from the second phase on,
each screen shows those of the third, and `conOut` has those for which there was no other device. -/
structure Shows (ck : CharKind) (serial : SerialStatus) (g : Graphics.Console)
    (first mid late : List (List UInt8)) (c : Channels) : Prop where
  status : c.serial = serial
  displays : gopIds c.graphics.displays = gopIds g.displays
  ports : ∀ port < serial.num, c.ports port = lineEnds (mid ++ late).flatten
  screens : ∀ d ∈ c.graphics.displays, Settled (Terminal.blank.run (lineEnds late.flatten)) d
  conOut : c.conOut = wideText ck (lineEnds first.flatten) ++
    wideShare ck ⟨serial.available, false⟩ (lineEnds mid.flatten) ++
      wideShare ck ⟨serial.available, g.available⟩ (lineEnds late.flatten)

/-- A console as it is set up: all of its displays are blank, and without displays it is not
available. -/
structure Blank (g : Graphics.Console) : Prop where
  dark : g.available = false → g.displays = []
  blank : ∀ d ∈ g.displays, Settled Terminal.blank d

theorem blank_off : Blank ⟨false, []⟩ := ⟨fun _ => rfl, List.forall_mem_nil _⟩

theorem blank_graphicsInit {gops : List Gop} {g : Graphics.Console}
    (hg : graphicsInit gops = .ok g) : Blank g := by
  obtain ⟨g', hg', hdark, hblank⟩ := graphicsInit_ok gops
  obtain rfl := Except.ok.inj (hg.symm.trans hg')
  exact ⟨hdark, hblank⟩

section

variable {ck : CharKind} {accepts : Accepts} {turns : Nat} {bufs : Buffers} {c c' : Channels}
  {ports : Nat → List UInt8} {t : Terminal} {wide : List UInt16} {text : List UInt8}
  {outs : List Output} {texts : List (List UInt8)}

/-- The ports come in behind a phase without displays. -/
theorem Delivered.withPorts (h : Delivered ck c c' ports t wide text)
    (hoff : c.graphics.available = false) (serial : SerialStatus) :
    (c'.withPorts serial).Given (fun _ => []) Terminal.blank
      (wide ++ wideShare ck c.devices (lineEnds text)) := by
  have hdark : c'.graphics.displays = [] := h.given.dark (h.same.available.trans hoff)
  refine ⟨fun _ _ => rfl, fun d hd => ?_, h.given.dark, h.given.conOut⟩
  have hnone : d ∈ ([] : List Display) := hdark ▸ hd
  exact absurd hnone List.not_mem_nil

/-- The displays come in behind a phase. -/
theorem Delivered.withDisplays (h : Delivered ck c c' ports t wide text) {g : Graphics.Console}
    (hg : Blank g) :
    (c'.withDisplays g).Given (fun port => ports port ++ lineEnds text) Terminal.blank
      (wide ++ wideShare ck c.devices (lineEnds text)) :=
  ⟨h.given.ports, hg.blank, hg.dark, h.given.conOut⟩

/-- One phase in front of what follows. -/
theorem phase_bind {α : Type} (ck : CharKind) (hbufs : bufs.Allocated) (hc : c.Given ports t wide)
    (h : Obliging accepts) (hturns : 1024 ≤ turns) (houts : List.Forall₂ Prints outs texts)
    {f : Buffers × Channels → Except Cut α} {R : Prop} {P : α → Prop}
    (hf : ∀ s, s.1.Allocated → Delivered ck c s.2 ports t wide texts.flatten →
      ((∃ a, f s = .ok a) ↔ R) ∧ ∀ a, f s = .ok a → P a) :
    ((∃ a, (outs.foldlM (putThrough ck accepts turns) (bufs, c) >>= f) = .ok a) ↔
        (∀ text ∈ texts, (lineEnds text).length < 1024) ∧ R) ∧
      ∀ a, (outs.foldlM (putThrough ck accepts turns) (bufs, c) >>= f) = .ok a → P a := by
  obtain ⟨hiff, hall⟩ := puts_delivered ck hbufs hc h hturns houts
  refine ⟨⟨?_, ?_⟩, ?_⟩
  · rintro ⟨a, ha⟩
    obtain ⟨s, hs, ha⟩ := bind_eq_ok.mp ha
    obtain ⟨hbufs', hdelivered⟩ := hall s hs
    exact ⟨hiff.mp ⟨s, hs⟩, (hf s hbufs' hdelivered).1.mp ⟨a, ha⟩⟩
  · rintro ⟨hroom, hR⟩
    obtain ⟨s, hs⟩ := hiff.mpr hroom
    obtain ⟨hbufs', hdelivered⟩ := hall s hs
    obtain ⟨a, ha⟩ := (hf s hbufs' hdelivered).1.mpr hR
    exact ⟨a, bind_eq_ok.mpr ⟨s, hs, ha⟩⟩
  · intro a ha
    obtain ⟨s, hs, ha⟩ := bind_eq_ok.mp ha
    obtain ⟨hbufs', hdelivered⟩ := hall s hs
    exact (hf s hbufs' hdelivered).2 a ha

end

/-- **Three phases** succeed exactly if every text has room, and then the devices have all of the
texts since they came in. -/
theorem putPhases_shows (ck : CharKind) {accepts : Accepts} {turns : Nat} {bufs : Buffers}
    {g : Graphics.Console} {first mid late : List Output} {a b c : List (List UInt8)}
    (serial : SerialStatus) (hbufs : bufs.Allocated) (hg : Blank g) (h : Obliging accepts)
    (hturns : 1024 ≤ turns) (hfirst : List.Forall₂ Prints first a)
    (hmid : List.Forall₂ Prints mid b) (hlate : List.Forall₂ Prints late c) :
    ((∃ s, putPhases ck accepts turns serial g bufs first mid late = .ok s) ↔
        ∀ text ∈ a ++ b ++ c, (lineEnds text).length < 1024) ∧
      ∀ s, putPhases ck accepts turns serial g bufs first mid late = .ok s →
        Shows ck serial g a b c s.2 := by
  have hoff : (Channels.setUp none ⟨false, []⟩).Given (fun _ => []) Terminal.blank [] :=
    @given_setUp none [] _ rfl
  have hphases := phase_bind ck hbufs hoff h hturns hfirst
    (R := (∀ text ∈ b, (lineEnds text).length < 1024) ∧
      ∀ text ∈ c, (lineEnds text).length < 1024)
    (P := fun s : Buffers × Channels => Shows ck serial g a b c s.2)
    (f := fun s => mid.foldlM (putThrough ck accepts turns) (s.1, s.2.withPorts serial) >>=
      fun s => late.foldlM (putThrough ck accepts turns) (s.1, s.2.withDisplays g)) ?_
  · refine ⟨hphases.1.trans ?_, hphases.2⟩
    rw [List.forall_mem_append, List.forall_mem_append, and_assoc]
  intro s₁ hbufs₁ hfirst₁
  refine phase_bind ck hbufs₁ (hfirst₁.withPorts rfl serial) h hturns hmid ?_
  intro s₂ hbufs₂ hmid₂
  obtain ⟨hiff, hall⟩ := puts_delivered ck hbufs₂ (hmid₂.withDisplays hg) h hturns hlate
  refine ⟨hiff, fun s hs => ?_⟩
  obtain ⟨-, hgiven, hsame⟩ := hall s hs
  have hserial : s.2.serial = serial := hsame.serial.trans hmid₂.same.serial
  have hdevices₂ : (s₂.2.withDisplays g).devices = ⟨serial.available, g.available⟩ := by
    show (⟨s₂.2.serial.available, g.available⟩ : Devices) = _
    rw [hmid₂.same.serial]
    rfl
  have hdark₁ : s₁.2.graphics.available = false := hfirst₁.same.available
  have hdevices₁ : (s₁.2.withPorts serial).devices = ⟨serial.available, false⟩ := by
    show (⟨serial.available, s₁.2.graphics.available⟩ : Devices) = _
    rw [hdark₁]
  refine ⟨hserial, hsame.displays, fun port hport => ?_, hgiven.displays, ?_⟩
  · rw [hgiven.ports port (hserial.symm ▸ hport), List.nil_append, ← lineEnds_append,
      ← List.flatten_append]
  · rw [hgiven.conOut, hdevices₂, hdevices₁]
    rfl

end LoliLoader.Interaction
