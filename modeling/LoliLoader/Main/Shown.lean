/-
# LoliLoader.Main.Shown -- what the devices show of a run of main

The devices of the console come up while the program is running.  What is printed before
`serial_init` has set up the ports goes to `conOut`; from there on it goes to the ports, and from
where `graphics_init` has set up the displays on, to them as well.  Without any device it all goes
to `conOut`.

So a run has three phases, each with the calls it makes.  The machine records how many calls had
been made when a device was set up, which is where the phases are divided.  In every phase the calls
succeed exactly if each text has its room in the buffers, and then the devices of that phase are
given all of the texts, in order and once each.

A run may stop in any of the phases; the later ones are empty then.
-/
import LoliLoader.Interaction.Phases
import LoliLoader.Main.Boots

namespace LoliLoader.Main

open C Boot Interaction Graphics Runs

/-! ## The phases of a run -/

/-- The ports at the end of a run; none, if they have not been set up. -/
def Machine.ports (m : Machine) : SerialStatus := m.serial.elim (Interaction.serialInit none)
  SetUp.device

/-- The displays at the end of a run; none, if they have not been set up. -/
def Machine.console (m : Machine) : Graphics.Console := m.graphics.elim ⟨false, []⟩ SetUp.device

/-- The calls of a run, divided where the ports and where the displays have been set up. Any part of
them may be empty. -/
structure Phased (m : Machine) (first mid late : List Output) : Prop where
  output : m.firmware.output = first ++ mid ++ late
  serial : ∀ s, m.serial = some s → s.printed = first.length
  graphics : ∀ g, m.graphics = some g → g.printed = first.length + mid.length

/-- The machine as it is when the program starts: nothing has been printed, and no device is set
up. -/
structure AtStart (m : Machine) : Prop where
  output : m.firmware.output = []
  serial : m.serial = none
  graphics : m.graphics = none

/-- What is printed in the phases of a run are strings, and its displays are blank when they come
in. -/
def PhasedRun (m : Machine) : Prop :=
  ∃ first mid late, Phased m first mid late ∧ Blank m.console ∧
    (∀ o ∈ first, Printable o) ∧ (∀ o ∈ mid, Printable o) ∧ ∀ o ∈ late, Printable o

section

variable {m m' m₁ m₂ m₃ : Machine}

theorem blank_console (h : ∀ g, m.graphics = some g → SetUpFor g.device) : Blank m.console := by
  unfold Machine.console
  cases hg : m.graphics with
  | none => exact blank_off
  | some g =>
      obtain ⟨gops, hgops⟩ := h g hg
      exact blank_graphicsInit hgops

/-- The run has stopped before any device was set up. -/
theorem AtStart.phasedRun (h : AtStart m) (htold : Told m m') : PhasedRun m' := by
  obtain ⟨out, hout, hall⟩ := htold.talk
  have hserial : m'.serial = none := htold.serial.trans h.serial
  have hgraphics : m'.graphics = none := htold.graphics.trans h.graphics
  refine ⟨out, [], [], ⟨?_, ?_, ?_⟩, blank_console ?_, hall, List.forall_mem_nil _,
    List.forall_mem_nil _⟩
  · rw [hout, h.output, List.append_nil, List.append_nil, List.nil_append]
  · intro s hs
    rw [hserial] at hs
    cases hs
  · intro g hg
    rw [hgraphics] at hg
    cases hg
  · intro g hg
    rw [hgraphics] at hg
    cases hg

/-- The ports of a run, if there are any, have been set up behind `out`. -/
theorem PortsSetUp.printed (h : AtStart m) (htold : Told m m₁) (hports : PortsSetUp m₁ m₂) :
    ∃ out, m₂.firmware.output = out ∧ (∀ o ∈ out, Printable o) ∧ m₂.graphics = none ∧
      ∀ s, m₂.serial = some s → s.printed = out.length := by
  obtain ⟨out, hout, hall⟩ := htold.talk.trans hports.talk
  rw [h.output, List.nil_append] at hout
  refine ⟨out, hout, hall, ?_, fun s hs => ?_⟩
  · rw [hports.graphics, htold.graphics, h.graphics]
  · rcases hports.serial with hnone | hjust
    · rw [hnone, htold.serial, h.serial] at hs
      cases hs
    · rw [(hjust s hs).2, hout]

/-- The run has stopped while the displays were set up. -/
theorem PortsSetUp.phasedRun (h : AtStart m) (htold : Told m m₁) (hports : PortsSetUp m₁ m₂)
    (hlast : Told m₂ m') : PhasedRun m' := by
  obtain ⟨first, hfirst, hall, hnone, hserial⟩ := hports.printed h htold
  obtain ⟨mid, hmid, hall'⟩ := hlast.talk
  have hgraphics : m'.graphics = none := hlast.graphics.trans hnone
  refine ⟨first, mid, [], ⟨?_, ?_, ?_⟩, blank_console ?_, hall, hall', List.forall_mem_nil _⟩
  · rw [hmid, hfirst, List.append_nil]
  · intro s hs
    exact hserial s (hlast.serial ▸ hs)
  · intro g hg
    rw [hgraphics] at hg
    cases hg
  · intro g hg
    rw [hgraphics] at hg
    cases hg

/-- The run has come past the set-up. -/
theorem DisplaysSetUp.phasedRun (h : AtStart m) (htold : Told m m₁) (hports : PortsSetUp m₁ m₂)
    (hdisplays : DisplaysSetUp m₂ m₃) (hlast : Told m₃ m') : PhasedRun m' := by
  obtain ⟨first, hfirst, hall, hnone, hserial⟩ := hports.printed h htold
  obtain ⟨mid, hmid, hall'⟩ := hdisplays.talk
  obtain ⟨late, hlate, hall''⟩ := hlast.talk
  have hset : ∀ g, m'.graphics = some g →
      SetUpFor g.device ∧ g.printed = m₃.firmware.output.length := by
    intro g hg
    rw [hlast.graphics] at hg
    rcases hdisplays.graphics with hsame | hjust
    · rw [hsame, hnone] at hg
      cases hg
    · exact hjust g hg
  refine ⟨first, mid, late, ⟨?_, ?_, ?_⟩, blank_console fun g hg => (hset g hg).1, hall, hall',
    hall''⟩
  · rw [hlate, hmid, hfirst]
  · intro s hs
    rw [hlast.serial, hdisplays.serial] at hs
    exact hserial s hs
  · intro g hg
    rw [(hset g hg).2, hmid, hfirst, List.length_append]

end

section

variable (ck : CharKind) (w : World) {date : String}

/-- **The phases of `main`**: wherever the run ends, its calls print strings and fall into three
parts, each with its devices. -/
theorem ensures_phases (hdate : (0 : UInt8) ∉ ascii date) {m : Machine} (hm : AtStart m) :
    Ensures (main ck w date) m (fun _ m' => PhasedRun m') (fun _ m' => PhasedRun m') := by
  have hfirst : ∀ o ∈ [Output.printf "loli bootloader is initializing\n" []], Printable o :=
    List.forall_mem_singleton.mpr (printable_plain mainFormats.first)
  -- before there is a device
  refine ((ensures_efiInit w m).imp (fun _ _ h => h) fun e m' h => hm.phasedRun h.1.told).bind ?_
  rintro _ m' hm'
  rw [hm']
  refine (ensures_interactionInit m).bind fun _ m₁ h₁ => ?_
  refine (quiet_print hfirst m₁).bind fun _ m₂ h₂ => ?_
  have htold : Told m m₂ := (h₁.trans h₂).told
  refine ((ensures_serialInit w m₂).imp (fun _ _ h => h) fun e m' h =>
    hm.phasedRun (told_trans htold h.1.told)).bind fun _ m₃ hports => ?_
  -- with the ports
  refine ((ensures_graphicsInit w m₃).imp (fun _ _ h => h) fun e m' h =>
    hports.phasedRun hm htold h.1.told).bind fun _ m₄ hdisplays => ?_
  -- with the displays
  refine (tells_running ck w hdate m₄).imp (fun _ m' h => ?_) fun e m' h => ?_
  · exact hdisplays.phasedRun hm htold hports h
  · exact hdisplays.phasedRun hm htold hports h

theorem prints_of_printable {outs : List Output} (h : ∀ o ∈ outs, Printable o) :
    ∃ texts, List.Forall₂ Prints outs texts := by
  induction outs with
  | nil => exact ⟨[], .nil⟩
  | cons o outs ih =>
      rw [List.forall_mem_cons] at h
      obtain ⟨text, ho⟩ := h.1
      obtain ⟨texts, hrest⟩ := ih h.2
      exact ⟨text :: texts, .cons ho hrest⟩

/-- Each text is that of a call. -/
theorem exists_of_forall₂ {outs : List Output} {texts : List (List UInt8)} {text : List UInt8}
    (h : List.Forall₂ Prints outs texts) (htext : text ∈ texts) :
    ∃ o ∈ outs, Prints o text := by
  induction h with
  | nil => cases htext
  | @cons o t outs texts ho _ ih =>
      rcases List.mem_cons.mp htext with rfl | hrest
      · exact ⟨o, List.mem_cons_self, ho⟩
      · obtain ⟨o', ho', hprints⟩ := ih hrest
        exact ⟨o', List.mem_cons_of_mem o ho', hprints⟩

/-- The calls of a run on its devices, as these come in: they succeed exactly if each of the texts
has its room in the buffers, and then the devices have the texts. -/
def Shown (m : Machine) (first mid late : List Output) (a b c : List (List UInt8)) : Prop :=
  ∀ {accepts : Accepts} {turns : Nat} {bufs : Buffers},
    Obliging accepts → 1024 ≤ turns → bufs.Allocated →
    ((∃ s, putPhases ck accepts turns m.ports m.console bufs first mid late = .ok s) ↔
        ∀ text ∈ a ++ b ++ c, (lineEnds text).length < 1024) ∧
      ∀ s, putPhases ck accepts turns m.ports m.console bufs first mid late = .ok s →
        Shows ck m.ports m.console a b c s.2

end

/-- Two ports are set up behind the first message, and every message is short. -/
def ShownOnPorts (m : Machine) : Prop :=
  (m.serial.map fun s => (s.device.num, s.printed)) = some (2, 1) ∧
    m.firmware.output.all (fun o => (textOf o).all fun t => (lineEnds t).length < 1024) = true

instance (m : Machine) : Decidable (ShownOnPorts m) := by
  unfold ShownOnPorts
  infer_instance

end LoliLoader.Main
