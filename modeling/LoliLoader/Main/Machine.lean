/-
# LoliLoader.Main.Machine -- the machine that main runs on

A run of the program is a computation on a machine: the firmware with all it holds for the loader,
the keys that are going to be pressed, and the devices of the console.  What the firmware answers is
a `World`, chosen before the run; nothing is assumed of it here, so a theorem about all runs is one
about all answers, all files and all keys.

The program never returns.  It stops for good in `panic`, in a wait for a key that is never pressed,
in the image that it has started, or by a fault, where C code does what it must not do.  A
computation that stops keeps the machine as it was then.  One exception: where the firmware side of
a step faults, the machine is the one before that step, so what the step has printed is not kept.

Besides the state proper the machine has a record of what has been done with it (calls for keys,
rounds of the menu, images started), and of each device how much had been printed when it was set
up.  The program never reads these records; they are what the theorems are about.
-/
import LoliLoader.Boot.Attempt
import LoliLoader.Interaction.Delivery
import LoliLoader.Interaction.Timer

namespace LoliLoader.Main

open C Boot Interaction

/-! ## What the firmware answers -/

/-- The answers of `locateHandle`: its status, and the size of the handles in bytes, from which
their number follows. -/
structure LocateAnswers where
  status : Status
  handleBufSize : UInt64
  deriving DecidableEq, Repr

/-- What a GOP answers for one of its modes: to being asked for it, and to being set to it. -/
structure ModeAnswers where
  queryMode : Status
  info : Graphics.ModeInfo
  setMode : Status
  deriving DecidableEq, Repr

/-- What a GOP answers: which one it is, its modes, what it shows, and the pages that `malloc_pages`
gives for its framebuffer, or null. -/
structure GopAnswers where
  id : Nat
  modes : List ModeAnswers
  screen : Graphics.Screen
  pages : Option (Nat → UInt8)

/-- What the firmware has for the program, apart from keys: its answers to all calls, the files, and
what is in memory. -/
structure World where
  /-- of `handleProtocol`, for the loader's own image and for the device it is from -/
  loadedImage : Status
  fileSystem : Status
  openVolume : Status
  serial : LocateAnswers
  locateGop : LocateAnswers
  /-- of the GOP of each handle -/
  gops : Nat → GopAnswers
  vol : Volume
  cfgSize : FileAnswers
  cfgMemory : Nat → UInt8
  cfgLoad : FileAnswers
  /-- what it answers in the attempt with each number -/
  attempts : Nat → Answers
  /-- what `startImage` returns, if the image does -/
  startImage : Option Status

/-! ## The machine -/

/-- An attempt to boot an entry: what the firmware answered, and the machine before and after it. -/
structure Try where
  entry : Nat
  answers : Answers
  before : Firmware
  result : Attempt
  after : Firmware

/-- A round of `cmdline_loop`: the answer at the prompt, null after a timeout, and the attempt if
there was one. -/
structure Round where
  answer : Option CString
  attempt : Option Try

/-- A device of the console that has been set up, and the number of calls that had been made to
print something by then. -/
structure SetUp (α : Type) where
  device : α
  printed : Nat

/-- The machine, and what has been done with it: the calls for keys, the rounds that are over, and
the images that have been started.  Framebuffers are part of the console, not of the environment
that a kernel is started in. -/
structure Machine where
  firmware : Firmware
  /-- `gSerialStatus`, from where `gSerialAvailable` is set -/
  serial : Option (SetUp SerialStatus)
  /-- `gFBs` with the screens, from where `gGraphicsAvailable` is set -/
  graphics : Option (SetUp Graphics.Console)
  /-- what the calls for a key will answer, key by key -/
  keys : List KeyAnswers
  calls : List InputCall
  rounds : List Round
  started : List (Option Nat)

/-- The attempts so far, in order; rounds without an attempt are left out. -/
def Machine.tries (m : Machine) : List Try := m.rounds.filterMap Round.attempt

/-! ## Programs -/

/-- Why the program has stopped. None of these is a return from `main`. -/
inductive Halt where
  /-- it has done what C code must not do -/
  | fault (f : Fault)
  | panicked
  /-- no key is pressed any more -/
  | waiting
  /-- an image has been started and does not return -/
  | away
  deriving DecidableEq, Repr

/-- A computation on the machine. -/
abbrev Program := EStateM Halt Machine

/-- A computation on the firmware alone. If it faults, the machine is the one from before it. -/
def onFirmware {α : Type} (x : Run α) : Program α := fun m =>
  match x m.firmware with
  | .error f => .error (.fault f) m
  | .ok (a, fw) => .ok a { m with firmware := fw }

/-- A computation without a machine, such as the menu is worked out by. -/
def checked {α : Type} (x : Except Fault α) : Program α := fun m =>
  match x with
  | .error f => .error (.fault f) m
  | .ok a => .ok a m

/-- Calls that write to the console; the devices are given the text later. -/
def print (out : List Output) : Program Unit := onFirmware (say out)

/-- `panic`: the message and that nothing can be booted; then the program stops for good. -/
def panic {α : Type} (msg : String) : Program α := do
  print [.printf "PANIC: %s\n" [.str (ascii msg)]]
  print [.printf "PANIC: can't boot\n" []]
  throw .panicked

end LoliLoader.Main
