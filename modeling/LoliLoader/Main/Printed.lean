/-
# LoliLoader.Main.Printed -- what a run of main prints

From its first line on the program prints nothing but strings, with the arguments that the formats
ask for, whatever the firmware answers and whatever is typed.

`Told` is a relation between two states of the machine: there is some more output, all of it
strings, and the devices are those that were there. It is reflexive and transitive, so a program
tells strings if each of its steps does, and the rules for relations on runs apply. What an attempt
prints comes from `Boot.Talks`.

The formats of the program are checked once, in `MainFormats`; `PanicTexts` has the messages with
which it ends. The characters that are echoed are those that can be printed, and none of these is a
terminator.

The set-up of the console is not in this module, since it changes the devices. `tells_running` is
about everything behind it, and `Main.Shown` puts the two together.

Strings from the configuration are shown as they are. That there is no terminator in them follows
from where they come from: they are values of lines.
-/
import LoliLoader.Boot.Talks
import LoliLoader.Main.Program
import LoliLoader.Menu.Shown
import LoliLoader.Runs.Relates

namespace LoliLoader.Main

open C Extlinux Menu Boot Interaction Runs

/-! ## The messages -/

/-- What the formats of the messages ask for, in the set-up, in the menu and at the end. Those of an
attempt are in `Boot.Talks`. -/
structure MainFormats : Prop where
  first : asks "loli bootloader is initializing\n" [] = true
  noSerial : asks "Skipping serial initialization: no serial supported\n" [] = true
  serialFails : asks "locateHandle fails with %lu for serial GUID\n" [.int] = true
  noGop : asks "Skip graphics initialization: no GOP found\n" [] = true
  gopFails : asks "locateProtocol returns %lu for GOP\n" [.int] = true
  unqueried : asks "Failed to query GOP mode %u: %d\n" [.int, .int] = true
  unset : asks "Failed to set GOP to mode %u: %d\n" [.int, .int] = true
  noMode : asks "Skip graphics initialization: No suitable mode\n" [] = true
  resolution : asks "Resolution %ux%u\n" [.int, .int] = true
  noPages : asks "Failed to allocate framebuffer for GOP\n" [] = true
  notSetUp : asks "Failed to setup GOP mode\n" [] = true
  graphics : asks "Graphics initialized\n" [] = true
  noGraphics : asks "No suitable GOP device found\n" [] = true
  built : asks "loli bootloader (%s built)\n" [.str] = true
  timeout : asks "invalid timeout \"%s\", use 0 instead\n" [.str] = true
  number : asks "%d: " [.int] = true
  newline : asks "\n" [] = true
  complaint : asks "Invalid default entry \"" [] = true
  complaintEnd : asks "\", boot entry 0 by default\n" [] = true
  prompt : asks "Enter entry number: " [] = true
  back : asks "\x08 \x08" [] = true
  byDefault : asks "\nBooting entry %d by default\n" [.int] = true
  invalid : asks "Invalid entry\n" [] = true
  unstarted : asks "Failed to start image: %d\n" [.int] = true
  panic : asks "PANIC: %s\n" [.str] = true
  panicEnd : asks "PANIC: can't boot\n" [] = true

/-- No message with which the program ends has the end of a string in it, so that all of it is
printed. -/
structure PanicTexts : Prop where
  serial : (0 : UInt8) ∉ ascii "Failed to locate handle for serial"
  gop : (0 : UInt8) ∉ ascii "Failed to locate GOP handle"
  waiting : (0 : UInt8) ∉ ascii "error occurs when waiting for events"
  reading : (0 : UInt8) ∉ ascii "Can't read inputs"
  createTimer : (0 : UInt8) ∉ ascii "Can't create timer event"
  setTimer : (0 : UInt8) ∉ ascii "Can't configure timer"
  cfgSize : (0 : UInt8) ∉ ascii "Can't retrive size of configuration"
  cfgLoad : (0 : UInt8) ∉ ascii "Can't load configuration"
  booting : (0 : UInt8) ∉ ascii "Cannot boot selected entry"

/-- The characters that are echoed are no ends of strings: a key that is echoed can be printed. -/
def EchoNonzero : Prop :=
  ∀ n : Nat, n < 127 → n > 31 → UInt8.ofInt ((n : Int).bmod (2 ^ 32)) ≠ 0

theorem messages : MainFormats ∧ PanicTexts ∧ EchoNonzero := by
  refine ⟨?_, ?_, ?_⟩
  · constructor <;> exact asks_ofList rfl
  · constructor <;> exact nul_notMem_ascii (by decide)
  · unfold EchoNonzero
    decide +kernel

/-- Each of the formats is evaluated once, here. -/
theorem mainFormats : MainFormats := messages.1

theorem panicTexts : PanicTexts := messages.2.1

/-! ## Rules -/

/-- Between two states there is some more output, all of it strings, and no device has been set up.
A part of a run that only tells keeps the devices. -/
structure Told (m m' : Machine) : Prop where
  talk : Talk m.firmware m'.firmware
  serial : m'.serial = m.serial
  graphics : m'.graphics = m.graphics

theorem told_refl (m : Machine) : Told m m := ⟨.of_eq rfl, rfl, rfl⟩

theorem told_trans ⦃m m' m'' : Machine⦄ (h : Told m m') (h' : Told m' m'') : Told m m'' :=
  ⟨h.talk.trans h'.talk, h'.serial.trans h.serial, h'.graphics.trans h.graphics⟩

/-- What the program prints are strings, whether it returns or stops, and it sets up no device. -/
abbrev Tells {α : Type} (x : Program α) : Prop := Relates Told x

section

variable {α β : Type}

theorem Tells.bind {x : Program α} {f : α → Program β} (h : Tells x) (hf : ∀ a, Tells (f a)) :
    Tells (x >>= f) := Relates.bind told_trans h hf

theorem tells_pure (a : α) : Tells (pure a : Program α) := relates_pure told_refl a

theorem tells_throw (e : Halt) : Tells (throw e : Program α) := relates_throw told_refl e

theorem tells_get : Tells (get : Program Machine) := relates_get told_refl

theorem tells_onFirmware {x : Run α} (h : Talks x) : Tells (onFirmware x) := by
  intro m
  unfold Ensures onFirmware
  cases hx : x m.firmware with
  | error f => exact told_refl m
  | ok r => exact ⟨h hx, rfl, rfl⟩

/-- A computation without a machine, and then the rest. -/
theorem tells_checked {x : Except Fault α} {f : α → Program β}
    (hf : ∀ a, x = .ok a → Tells (f a)) : Tells (checked x >>= f) := by
  intro m
  cases hx : x with
  | error e => exact told_refl m
  | ok a => exact hf a hx m

theorem tells_print {out : List Output} (h : ∀ o ∈ out, Printable o) : Tells (print out) :=
  tells_onFirmware (talks_say h)

theorem tells_panic {msg : String} (h : (0 : UInt8) ∉ ascii msg) :
    Tells (panic msg : Program α) := by
  have hmsg : Printable (.printf "PANIC: %s\n" [.str (ascii msg)]) :=
    printable_string ⟨ascii msg, h⟩ mainFormats.panic
  have hend : Printable (.printf "PANIC: can't boot\n" []) := printable_plain mainFormats.panicEnd
  refine (tells_print (List.forall_mem_singleton.mpr hmsg)).bind fun _ => ?_
  exact (tells_print (List.forall_mem_singleton.mpr hend)).bind fun _ => tells_throw _

end

/-! ## Keys and lines -/

theorem panic_getchar {timeout : Int32} {a : KeyAnswers} {msg : String}
    (h : (Interaction.getcharTimeout timeout a).2 = .panic msg) : (0 : UInt8) ∉ ascii msg := by
  have hwait : ∀ timer, (waitForKey timer a).2 = .panic msg → (0 : UInt8) ∉ ascii msg := by
    intro timer h
    unfold waitForKey at h
    dsimp only at h
    split at h
    · obtain rfl := Getchar.panic.inj h
      exact panicTexts.waiting
    · split at h
      · cases h
      · split at h
        · obtain rfl := Getchar.panic.inj h
          exact panicTexts.reading
        · cases h
  unfold Interaction.getcharTimeout at h
  split at h
  · exact hwait false h
  · split at h
    · obtain rfl := Getchar.panic.inj h
      exact panicTexts.createTimer
    · dsimp only at h
      split at h
      · obtain rfl := Getchar.panic.inj h
        exact panicTexts.setTimer
      · exact hwait true h

theorem tells_getcharTimeout (timeout : Int32) : Tells (getcharTimeout timeout) := by
  intro m
  unfold Ensures getcharTimeout
  cases m.keys with
  | nil => exact told_refl m
  | cons a keys =>
      dsimp only
      -- the key and the calls for it
      have hkey : Told m { m with
          keys := keys, calls := m.calls ++ (Interaction.getcharTimeout timeout a).1 } :=
        ⟨.of_eq rfl, rfl, rfl⟩
      cases hc : (Interaction.getcharTimeout timeout a).2 with
      | panic msg =>
          have hpanic : Tells (panic msg : Program (Option Nat)) := tells_panic (panic_getchar hc)
          have hboth : Ensures (panic msg : Program (Option Nat)) _ (fun _ => Told m)
              (fun _ => Told m) :=
            (hpanic _).imp (fun _ _ h => told_trans hkey h) fun _ _ h => told_trans hkey h
          exact hboth
      | eof => exact hkey
      | char c => exact hkey

/-- The echo of a key. -/
theorem printable_echo {c : Nat} (h : isprint c = true) : Printable (.printf "%c" [.int c]) := by
  have hbytes : EchoNonzero := messages.2.2
  rw [isprint, Bool.and_eq_true, decide_eq_true_eq, decide_eq_true_eq] at h
  refine ⟨[UInt8.ofInt ((c : Int).bmod (2 ^ 32))], rfl, fun hmem => ?_⟩
  exact hbytes c h.2 h.1 (List.mem_singleton.mp hmem).symm

/-- The loop that reads a line prints the echo of its keys, and nothing else. -/
theorem tells_getlineLoop (turns : Nat) (timeout : Int32) (s : List UInt8) :
    Tells (getlineLoop turns timeout s) := by
  have hback : ∀ o ∈ [Output.printf "\x08 \x08" []], Printable o :=
    List.forall_mem_singleton.mpr (printable_plain mainFormats.back)
  have hend : ∀ o ∈ [Output.printf "\n" []], Printable o :=
    List.forall_mem_singleton.mpr (printable_plain mainFormats.newline)
  induction turns generalizing timeout s with
  | zero => exact tells_throw _
  | succ turns ih =>
      refine (tells_getcharTimeout timeout).bind fun c => ?_
      cases c with
      | none => exact tells_pure _
      | some c =>
          dsimp only
          split
          · exact (tells_print hback).bind fun _ => ih _ _
          · split
            · split
              · exact ih _ _
              · exact (tells_print hend).bind fun _ => tells_pure _
            · rename_i hprint
              have hecho := printable_echo (Bool.eq_true_of_not_eq_false hprint)
              exact (tells_print (List.forall_mem_singleton.mpr hecho)).bind fun _ => ih _ _

theorem tells_waitForBootEntry (timeout : Int32) : Tells (waitForBootEntry timeout) := by
  have hprompt : ∀ o ∈ [Output.printf "Enter entry number: " []], Printable o :=
    List.forall_mem_singleton.mpr (printable_plain mainFormats.prompt)
  refine (tells_print hprompt).bind fun _ => ?_
  have hline : Tells (getlineTimeout timeout) :=
    tells_get.bind fun m => tells_getlineLoop _ timeout []
  exact hline.bind fun answer => tells_checked fun entry _ => tells_pure _

/-! ## The menu -/

section

variable {cfg : CString}

theorem printable_listed {item : Listed} (h0 : (0 : UInt8) ∉ item.title) :
    ∀ o ∈ item.output, Printable o := by
  rw [Listed.output, List.forall_mem_cons, List.forall_mem_cons, List.forall_mem_singleton]
  exact ⟨printable_number _ mainFormats.number, printable_putsSized h0,
    printable_plain mainFormats.newline⟩

theorem nul_notMem_titleOf {l : Line} (hl : l ∈ labelLines cfg) :
    (0 : UInt8) ∉ titleOf cfg l := by
  unfold titleOf
  cases hfind : findPair menuTitle.tokens (block cfg (firstPlain l)) with
  | none => exact nul_notMem_pairValue (mem_lines_of_mem_labelLines hl).1 labelTokens
  | some t =>
      exact nul_notMem_pairValue (mem_lines_of_mem_block (mem_of_findPair hfind).1) menuTitle.tokens

/-- The listing of label lines. -/
theorem printable_items (n : Int) {ls : List Line} (h : ls ⊆ labelLines cfg) :
    ∀ o ∈ (items cfg n ls).flatMap Listed.output, Printable o := by
  induction ls generalizing n with
  | nil => exact List.forall_mem_nil _
  | cons l ls ih =>
      rw [List.cons_subset] at h
      rw [items, List.flatMap_cons, List.forall_mem_append]
      exact ⟨printable_listed (nul_notMem_titleOf h.1), ih (n + 1) h.2⟩

theorem printable_warning {timeout : Int32} {warning : List Output}
    (h : menuGetTimeout cfg = .ok (timeout, warning)) : ∀ o ∈ warning, Printable o := by
  obtain ⟨o, -, hrest⟩ := bind_eq_ok.mp h
  cases o with
  | none =>
      obtain ⟨-, rfl⟩ := Prod.mk.inj (Except.ok.inj hrest)
      exact List.forall_mem_nil _
  | some v =>
      obtain ⟨n, -, hrest⟩ := bind_eq_ok.mp hrest
      by_cases hneg : n < 0
      · rw [if_pos hneg] at hrest
        obtain ⟨-, rfl⟩ := Prod.mk.inj (Except.ok.inj hrest)
        exact printable_prErr (printable_string v mainFormats.timeout)
      · rw [if_neg hneg] at hrest
        obtain ⟨-, rfl⟩ := Prod.mk.inj (Except.ok.inj hrest)
        exact List.forall_mem_nil _

theorem printable_complaint {name : List UInt8} (h0 : (0 : UInt8) ∉ name) :
    ∀ o ∈ complaint name, Printable o := by
  rw [complaint, List.forall_mem_cons, List.forall_mem_cons, List.forall_mem_singleton]
  exact ⟨printable_plain mainFormats.complaint, printable_putsSized h0,
    printable_plain mainFormats.complaintEnd⟩

/-- **The menu** prints strings: the listing, a warning about the timeout, and a complaint about the
default entry. -/
theorem printable_ready {ck : CharKind} {ready : Ready} (h : cmdlineSetup ck cfg = .ok ready) :
    ∀ o ∈ ready.output, Printable o := by
  obtain ⟨⟨timeout, warning⟩, ht⟩ := menuGetTimeout_total cfg
  obtain ⟨rest, hsetup, hquiet, hcomplains⟩ := cmdlineSetup_run ck ht
  obtain rfl := Except.ok.inj (hsetup.symm.trans h)
  show ∀ o ∈ warning ++ _ ++ rest, Printable o
  rw [List.forall_mem_append, List.forall_mem_append]
  refine ⟨⟨printable_warning ht, printable_items 0 (List.Subset.refl _)⟩, ?_⟩
  by_cases hd : listedDefault cfg < 0
  · obtain ⟨g, hg, -⟩ := (@lastHit_neg_iff cfg (foundOption cfg defaultOption)).mp hd
    have hslice : defaultSlice cfg = some (pairSlice defaultOption.tokens g) := by
      rw [defaultSlice, hg]
      rfl
    rw [hcomplains hd _ hslice]
    refine printable_complaint fun hmem => ?_
    exact cfg.nul_notMem (List.mem_of_mem_drop (List.mem_of_mem_take hmem))
  · rw [hquiet hd]
    exact List.forall_mem_nil _

end

/-! ## The program -/

section

variable (ck : CharKind) (w : World)

/-- `load_cfg` prints nothing, unless it panics. -/
theorem tells_loadCfg : Tells (loadCfg ck w) := by
  unfold loadCfg
  by_cases hvolume : w.openVolume ≠ EFI_SUCCESS
  · rw [if_pos hvolume]
    exact tells_throw _
  rw [if_neg hvolume]
  refine (tells_onFirmware (.of_silent (silent_fileGetSize _ _ _ _))).bind fun size => ?_
  by_cases hneg : size < 0
  · rw [if_pos hneg]
    exact tells_panic panicTexts.cfgSize
  rw [if_neg hneg]
  refine (tells_onFirmware (.of_silent silent_malloc)).bind fun _ => ?_
  refine (tells_onFirmware (.of_silent (silent_fileLoad _ _ _ _ _))).bind fun r => ?_
  dsimp only
  by_cases hbad : r.1 < 0
  · rw [if_pos hbad]
    exact tells_panic panicTexts.cfgLoad
  · rw [if_neg hbad]
    exact tells_checked fun cfg _ => tells_pure _

theorem tells_record (round : Round) : Tells (record round) :=
  relates_modify fun _ => ⟨.of_eq rfl, rfl, rfl⟩

/-- An attempt prints what `load_and_validate_entry` does. -/
theorem tells_tryEntry (cfg : CString) (answer : Option CString) (entry : Option Nat) :
    Tells (tryEntry ck w cfg answer entry) := by
  cases entry with
  | none => exact tells_throw _
  | some p =>
      refine tells_get.bind fun m => ?_
      refine (tells_onFirmware (talks_loadAndValidateEntry ck cfg p w.vol _)).bind fun r => ?_
      refine tells_get.bind fun m' => ?_
      exact (tells_record _).bind fun _ => tells_pure r

theorem tells_orDefault (ready : Ready) (selected : Int) : Tells (orDefault ready selected) := by
  have hdefault : ∀ o ∈ [Output.printf "\nBooting entry %d by default\n" [.int ready.defaultEntry]],
      Printable o := List.forall_mem_singleton.mpr (printable_number _ mainFormats.byDefault)
  unfold orDefault
  split
  · exact (tells_print hdefault).bind fun _ => tells_pure _
  · exact tells_pure _

/-- The loop of the menu, by induction on its turns. -/
theorem tells_selectLoop (cfg : CString) (ready : Ready) (turns : Nat) (timeout : Int32) :
    Tells (selectLoop ck w cfg ready turns timeout) := by
  have hinvalid : ∀ o ∈ prErr "Invalid entry\n" [], Printable o :=
    printable_prErr (printable_plain mainFormats.invalid)
  induction turns generalizing timeout with
  | zero => exact tells_throw _
  | succ turns ih =>
      refine (tells_waitForBootEntry timeout).bind fun r => ?_
      refine (tells_orDefault ready r.2).bind fun selected => ?_
      split
      · refine tells_checked fun entry _ => ?_
        refine (tells_tryEntry ck w cfg r.1 entry).bind fun bootEntry => ?_
        split
        · exact tells_pure _
        · exact (tells_print hinvalid).bind fun _ => ih 0
      · exact (tells_record _).bind fun _ => ih 0

theorem tells_cmdlineLoop (cfg : CString) : Tells (cmdlineLoop ck w cfg) := by
  refine tells_checked fun ready hready => ?_
  refine (tells_print (printable_ready hready)).bind fun _ => ?_
  exact tells_get.bind fun m => tells_selectLoop ck w cfg ready _ ready.timeout

theorem tells_startImage (handle : Option Nat) : Tells (startImage w handle) := by
  refine Relates.bind told_trans (relates_modify fun _ => ⟨.of_eq rfl, rfl, rfl⟩) fun _ => ?_
  cases w.startImage with
  | none => exact tells_throw _
  | some ret => exact tells_pure ret

/-- **Behind the set-up of the console** `main` prints strings, as long as the date in its first
message is one. -/
theorem tells_running {date : String} (hdate : (0 : UInt8) ∉ ascii date) :
    Tells (do
      print [.printf "loli bootloader (%s built)\n" [.str (ascii date)]]
      let cfg ← loadCfg ck w
      let handle ← cmdlineLoop ck w cfg
      let ret ← startImage w handle
      print (prErr "Failed to start image: %d\n" [.int ret.toUInt32.toInt32.toInt])
      panic "Cannot boot selected entry" : Program Unit) := by
  have hbuilt : ∀ o ∈ [Output.printf "loli bootloader (%s built)\n" [.str (ascii date)]],
      Printable o := List.forall_mem_singleton.mpr
    (printable_string ⟨ascii date, hdate⟩ mainFormats.built)
  have hfailed : ∀ n : Int, ∀ o ∈ prErr "Failed to start image: %d\n" [.int n], Printable o :=
    fun n => printable_prErr (printable_number n mainFormats.unstarted)
  refine (tells_print hbuilt).bind fun _ => (tells_loadCfg ck w).bind fun cfg => ?_
  refine (tells_cmdlineLoop ck w cfg).bind fun handle => ?_
  refine (tells_startImage w handle).bind fun ret => (tells_print (hfailed _)).bind fun _ => ?_
  exact tells_panic panicTexts.booting

end

end LoliLoader.Main
