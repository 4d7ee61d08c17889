/-
# LoliLoader.Boot.Firmware -- the machine a boot attempt runs on

What the firmware holds for the loader: configuration tables, protocol interfaces, loaded images and
pages form the environment a kernel is started in; pool buffers, open files and console output come
besides. The firmware's answers are given to each service as an argument.

`malloc` does not return on failure, since the loader panics then, and what releases a resource
succeeds. Pages may be refused; that is an answer like any other.

Memory has cells rather than bytes. A cell knows whether it is as it was allocated or has been
delivered by a read, so that one can state that an image was loaded from what happened to be in the
pages. Programs only see the bytes.

Bases of pages, handles and addresses are numbers that are in use nowhere (`fresh`). That two of
them differ is all that is ever used about them, and no layout of memory is implied.

The part of `Firmware` that outlives the loader is `Environment`. It is what the theorems about
failed and successful attempts compare.
-/
import LoliLoader.C.Console
import Mathlib.Data.List.Basic

namespace LoliLoader.Boot

open C

/-! ## Memory -/

/-- A byte of memory: what was there when it was allocated, or what a file read has
delivered. -/
inductive Cell where
  | junk (b : UInt8)
  | data (b : UInt8)
  deriving DecidableEq, Repr

/-- The byte of a cell, which is all that a program sees of it. -/
def Cell.byte : Cell → UInt8
  | junk b => b
  | data b => b

abbrev Memory := List Cell

/-- Memory of `n` bytes as it is allocated, with whatever was there. -/
def junkMemory (contents : Nat → UInt8) (n : Nat) : Memory :=
  (List.range n).map fun i => .junk (contents i)

/-! ## The environment -/

/-- The GUIDs that the loader installs something for, and any others. -/
inductive Guid where
  | dtbTable
  | devicePath
  | loadFile2
  | other (n : Nat)
  deriving DecidableEq, Repr

/-- An installed configuration table: its GUID, where it is, and what is in it. -/
structure Table where
  guid : Guid
  address : Nat
  contents : List UInt8
  deriving DecidableEq, Repr

/-- What is installed for a protocol. `Initrd_Load_File2_Protocol` has the pages and the
size of the data it serves. -/
inductive Interface where
  | initrdDevicePath
  | initrdLoadFile2 (base : Nat) (size : UInt64)
  | other (n : Nat)
  deriving DecidableEq, Repr

/-- An interface that is installed for a protocol on a handle. -/
structure Protocol where
  handle : Nat
  guid : Guid
  interface : Interface
  deriving DecidableEq, Repr

/-- A loaded image: the bytes it was loaded from and its load options, with the size that is
announced for them. -/
structure Image where
  handle : Nat
  source : Memory
  loadOptions : Option (List UInt16)
  loadOptionSize : UInt32
  deriving DecidableEq, Repr

/-- Pages allocated together, from `base` on, with what is in them. -/
structure PageRun where
  base : Nat
  memory : Memory
  deriving DecidableEq, Repr

/-- What a kernel is started in, and what outlives the loader: tables, protocols, images and
pages. -/
structure Environment where
  tables : List Table
  protocols : List Protocol
  images : List Image
  pages : List PageRun
  deriving DecidableEq, Repr

/-- What the firmware holds for the loader: the environment, and besides it pool buffers, open files
and what was printed. -/
structure Firmware where
  env : Environment
  pools : List Nat
  files : List Nat
  output : List Output
  deriving DecidableEq, Repr

/-- A computation on the machine. -/
abbrev Run := StateT Firmware (Except Fault)

/-- A number that is in use nowhere, for a new handle, base or buffer. -/
def fresh (ids : List Nat) : Nat := ids.foldr max 0 + 1

/-! ## Services -/

abbrev Status := UInt64

/-- The statuses that the loader compares with or returns; errors have the highest bit set
besides. -/
def EFI_SUCCESS : Status := 0
def EFI_INVALID_PARAMETER : Status := 2
def EFI_BUFFER_TOO_SMALL : Status := 5
def EFI_NOT_FOUND : Status := 14

/-- `TO_EFI_ERRNO`: error codes have the highest bit set. -/
def toEfiErrno (x : Status) : Status := x ||| (1 : UInt64) <<< 63

/-- `EFI_ERRNO`: the highest bit is cleared, which leaves the number of the error. -/
def efiErrno (x : Status) : Status := x &&& ~~~((1 : UInt64) <<< 63)

/-- A call that writes to the console; what becomes of the text there is not decided here. -/
def say (out : List Output) : Run Unit :=
  modify fun fw => { fw with output := fw.output ++ out }

/-- `malloc`: a pool buffer, at an address of its own. It does not fail, since the program panics
then. -/
def malloc : Run Nat := do
  let fw ← get
  let p := fresh (fw.pools ++ fw.env.tables.map Table.address)
  set { fw with pools := p :: fw.pools }
  return p

/-- `free`: the buffer is given back. Freeing null does nothing, and neither does this for a buffer
that is not there. -/
def free (p : Nat) : Run Unit :=
  modify fun fw => { fw with pools := fw.pools.filter (· ≠ p) }

/-- `SIZE_TO_EFI_PAGES`: the number of pages for a size; the sum wraps around for the largest
ones. -/
def sizeToEfiPages (size : UInt64) : UInt64 := (size + 4095) >>> 12

/-- The pages of the environment changed, and nothing else of the machine. -/
def setPages (fw : Firmware) (pages : List PageRun) : Firmware :=
  { fw with env := { fw.env with pages := pages } }

/-- `malloc_pages`; `answer` is null when the firmware refuses, else what the memory has
in it. -/
def mallocPages (answer : Option (Nat → UInt8)) (size : UInt64) : Run (Option Nat) := do
  match answer with
  | none => return none
  | some contents =>
    let fw ← get
    let base := fresh (fw.env.pages.map PageRun.base)
    let memory := junkMemory contents ((sizeToEfiPages size).toNat * 4096)
    set (setPages fw (⟨base, memory⟩ :: fw.env.pages))
    return some base

/-- Pages the firmware reserves for itself, one run for each block of memory. -/
def reserve (memories : List Memory) (pages : List PageRun) : List PageRun :=
  memories.foldr (fun m pages => ⟨fresh (pages.map PageRun.base), m⟩ :: pages) pages

/-- `free_pages`: the pages from this base on are given back together. -/
def freePages (p : Nat) : Run Unit :=
  modify fun fw => setPages fw (fw.env.pages.filter fun r => r.base ≠ p)

/-- The memory at `p`, which has to be the base of pages that are allocated. -/
def pagesAt (p : Nat) : Run Memory := do
  match (← get).env.pages.find? fun r => r.base = p with
  | none => throw .null
  | some r => return r.memory

/-- The memory at `p` replaced; its size is that of the pages still. -/
def setPagesAt (p : Nat) (memory : Memory) : Run Unit :=
  modify fun fw => setPages fw
    (fw.env.pages.map fun r => if r.base = p then { r with memory := memory } else r)

/-- The answer of `loadImage`. With a security violation the image is loaded all the
same, only it must not be started. -/
inductive LoadImage where
  | loaded
  | securityViolation
  | failed
  deriving DecidableEq, Repr

/-- `loadImage`: is the status a success, and the handle of the image if there is one. -/
def loadImage (answer : LoadImage) (source : Memory) : Run (Bool × Option Nat) := do
  let fw ← get
  let handle := fresh (fw.env.images.map Image.handle)
  let loaded : Firmware :=
    { fw with env := { fw.env with images := ⟨handle, source, none, 0⟩ :: fw.env.images } }
  match answer with
  | .loaded =>
    set loaded
    return (true, some handle)
  | .securityViolation =>
    set loaded
    return (false, some handle)
  | .failed => return (false, none)

/-- `unloadImage`: the image goes away, which does not fail. -/
def unloadImage (handle : Nat) : Run Unit :=
  modify fun fw =>
    { fw with env := { fw.env with images := fw.env.images.filter fun i => i.handle ≠ handle } }

/-- `installConfigurationTable`: the table replaces one with the same GUID. -/
def installConfigurationTable (answer : Status) (table : Table) : Run Unit :=
  modify fun fw =>
    if answer = EFI_SUCCESS then
      { fw with env := { fw.env with
        tables := table :: fw.env.tables.filter fun t => t.guid ≠ table.guid } }
    else fw

/-- `installProtocolInterface` on a handle, on a new one when it is null; the status. -/
def installProtocolInterface (answer : Status) (handle : Option Nat) (guid : Guid)
    (interface : Interface) : Run (Status × Option Nat) := do
  if answer = EFI_SUCCESS then
    let fw ← get
    let h := handle.getD
      (fresh (fw.env.protocols.map Protocol.handle ++ fw.env.images.map Image.handle))
    set { fw with env := { fw.env with protocols := ⟨h, guid, interface⟩ :: fw.env.protocols } }
    return (answer, some h)
  else
    return (answer, handle)

/-- `uninstallProtocolInterface`: what is installed for this GUID on the handle goes away. -/
def uninstallProtocolInterface (handle : Nat) (guid : Guid) : Run Unit :=
  modify fun fw =>
    { fw with env := { fw.env with
      protocols := fw.env.protocols.filter fun i => ¬ (i.handle = handle ∧ i.guid = guid) } }

end LoliLoader.Boot
