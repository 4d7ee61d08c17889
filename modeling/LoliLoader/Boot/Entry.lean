/-
# LoliLoader.Boot.Entry -- load_and_validate_entry of src/loli.c

A boot attempt: the kernel, the devicetree, the initrd and the options of an entry, with what
src/fdt.c and src/initrd.c do for it. The labels at the end of the function are definitions of their
own.

`load_and_validate_entry` is a long function that leaves through `goto`. Here every label is a
definition that ends in the one below it, as the source falls through from one to the next; a `goto`
is a call of the label. So the order of the labels, on which it depends what is released and what is
not, is that of the source.

`Answers` has what the firmware answers in one attempt, call by call. Nothing relates the answers to
each other: a file may be found when its size is asked for and be gone when it is opened again. The
theorems are about all answers, except where one says which.

`EFI_ERRNO` and its inverse are kept, since `initrd_load_file` is called by the kernel and has to
return statuses of the firmware. The fixup keeps its status in an `int`, which is what it prints.
-/
import LoliLoader.Boot.File
import LoliLoader.Menu.Config

namespace LoliLoader.Boot

open C Menu

/-- The answer of the devicetree fixup protocol: its status, what it makes of the copy,
and the pages it reserves. -/
structure FixupAnswer where
  status : Status
  fixup : List UInt8 → List UInt8
  reserved : List Memory

/-- What the firmware answers in one attempt, call by call, and what the memory that it gives has in
it. -/
structure Answers where
  kernelSize : FileAnswers
  kernelPages : Option (Nat → UInt8)
  kernelLoad : FileAnswers
  loadImage : LoadImage
  fdtSize : FileAnswers
  fdtMemory : Nat → UInt8
  fdtLoad : FileAnswers
  copyMemory : Nat → UInt8
  fixup : Option FixupAnswer
  installTable : Status
  initrdSize : FileAnswers
  initrdPages : Option (Nat → UInt8)
  initrdLoad : FileAnswers
  installDevicePath : Status
  installLoadFile2 : Status

/-! ## src/fdt.c -/

/-- `be32_to_cpu` of four bytes in memory order, the highest first. -/
def be32ToCpu (d0 d1 d2 d3 : UInt8) : UInt32 :=
  (d0.toUInt32 <<< 24) ||| (d1.toUInt32 <<< 16) ||| (d2.toUInt32 <<< 8) ||| d3.toUInt32

/-- The byte at offset `i` of a block; a read outside of the block is a fault. -/
def byteAt (memory : Memory) (i : Nat) : Except Fault UInt8 :=
  match memory[i]? with
  | some c => .ok c.byte
  | none => .error (.read i)

/-- `fdt->totalSize`: the second word of the header, in the byte order of devicetrees. -/
def totalSize (fdt : Memory) : Except Fault UInt32 := do
  return be32ToCpu (← byteAt fdt 4) (← byteAt fdt 5) (← byteAt fdt 6) (← byteAt fdt 7)

/-- `memcpy` of `n` bytes out of one block to the start of another. -/
def copyBlock (src : Memory) (n : Nat) (dst : Memory) : Except Fault Memory :=
  if src.length < n then .error (.read src.length)
  else if dst.length < n then .error (.write dst.length)
  else .ok (src.take n ++ dst.drop n)

/-- `fdt_fixup_and_load`: as much as the header declares is copied to a new block, fixed up if the
firmware can do that, and installed as a table. -/
def fdtFixupAndLoad (a : Answers) (fdt : Memory) : Run Unit := do
  let fdtSize := (← totalSize fdt).toUInt64
  say (prInfo "devicetree: size %lu\n" [.int fdtSize.toNat])
  let copySize := fdtSize + 4096
  let copy ← malloc
  let contents ← copyBlock fdt fdtSize.toNat (junkMemory a.copyMemory copySize.toNat)
  let bytes := contents.map Cell.byte
  match a.fixup with
  | some dtp =>
    modify fun fw => setPages fw (reserve dtp.reserved fw.env.pages)
    -- `ret` is an `int`: the status is cut to 32 bits before it is compared
    if dtp.status.toUInt32.toInt32 = 0 then
      say (prInfo "devicetree: applied fixes\n" [])
    else
      say (prInfo "devicetree: failed to apply fixes\n" [])
    installConfigurationTable a.installTable ⟨.dtbTable, copy, dtp.fixup bytes⟩
  | none =>
    say (prInfo "EFI_DT_FIXUP_PROTOCOL isn't supported, apply no fixup\n" [])
    installConfigurationTable a.installTable ⟨.dtbTable, copy, bytes⟩

/-! ## src/initrd.c -/

/-- `initrd_setup`, with the status it returns: a device path and the protocol that serves the
initrd, on one handle. -/
def initrdSetup (a : Answers) (base : Nat) (size : UInt64) : Run Status := do
  let initrdProtocol ← malloc
  let (ret, initrd) ← installProtocolInterface a.installDevicePath none .devicePath
    .initrdDevicePath
  if ret ≠ EFI_SUCCESS then
    say (prErr "failed to register initrd device: %d\n" [.int ret.toNat])
    free initrdProtocol
    return ret
  let (ret, _) ← installProtocolInterface a.installLoadFile2 initrd .loadFile2
    (.initrdLoadFile2 base size)
  if ret ≠ EFI_SUCCESS then
    say (prErr "failed to install LoadFile2 Protocol: %d\n" [.int ret.toNat])
    match initrd with
    | some handle => uninstallProtocolInterface handle .devicePath
    | none => pure ()
    free initrdProtocol
    return ret
  return EFI_SUCCESS

/-- What a call of `initrd_load_file` gives: its status, the size stored, and the bytes
stored in the buffer. -/
structure LoadFileResult where
  status : Status
  bufferSize : Option UInt64
  delivered : Memory
  deriving DecidableEq, Repr

/-- `initrd_load_file` of a protocol that serves `size` bytes of `memory`. `bufferSize` is
null when its pointer is, and `buffer` says whether there is a buffer. -/
def initrdLoadFile (memory : Memory) (size : UInt64) (bootPolicy : Bool)
    (bufferSize : Option UInt64) (buffer : Bool) : Except Fault LoadFileResult :=
  match bufferSize with
  | none => .ok ⟨toEfiErrno EFI_INVALID_PARAMETER, none, []⟩
  | some n =>
    if bootPolicy ∨ (n ≠ 0 ∧ buffer = false) then
      .ok ⟨toEfiErrno EFI_INVALID_PARAMETER, some n, []⟩
    else if n < size then
      .ok ⟨toEfiErrno EFI_BUFFER_TOO_SMALL, some size, []⟩
    else if memory.length < size.toNat then
      .error (.read memory.length)
    else
      .ok ⟨EFI_SUCCESS, some size, memory.take size.toNat⟩

/-! ## src/loli.c -/

def kernelKey : CString := ⟨ascii "kernel", by decide⟩
def fdtKey : CString := ⟨ascii "fdt", by decide⟩
def devicetreeKey : CString := ⟨ascii "devicetree", by decide⟩
def initrdKey : CString := ⟨ascii "initrd", by decide⟩
def appendKey : CString := ⟨ascii "append", by decide⟩

/-- `menu_get_pair`, with the pool buffer of the copy. -/
def getPair (cfg : CString) (p : Nat) (key : CString) : Run (Option (Nat × CString)) := do
  match ← (menuGetPair cfg p key : Except Fault (Option CString)) with
  | none => return none
  | some value =>
    let copy ← malloc
    return some (copy, value)

/-- `file_load` into pages: what is read replaces what is in them, from their start on. -/
def fileLoadPages (ck : CharKind) (vol : Volume) (a : FileAnswers) (path : CString) (base : Nat) :
    Run Int64 := do
  let memory ← pagesAt base
  let (ret, memory) ← fileLoad ck vol a path memory
  setPagesAt base memory
  return ret

/-- `setup_append`: the options are converted to wide characters and put into the loaded image, with
their size in bytes. -/
def setupAppend (ck : CharKind) (kernelHandle : Nat) (append : CString) : Run Unit := do
  let appendLen := UInt64.ofNat append.length + 1
  let wAppendLen := appendLen * 2
  let _wAppend ← malloc
  -- an image that has been loaded has a loaded image protocol
  modify fun fw => { fw with env := { fw.env with
    images := fw.env.images.map fun i =>
      if i.handle = kernelHandle then
        { i with loadOptions := some (str2wcs ck append), loadOptionSize := wAppendLen.toUInt32 }
      else i } }

/-- `load_efi_image`: is the image there to be started, and its handle. -/
def loadEfiImage (a : Answers) (kernelBase : Nat) (kernelSize : Int64) :
    Run (Bool × Option Nat) := do
  let memory ← pagesAt kernelBase
  loadImage a.loadImage (memory.take kernelSize.toUInt64.toNat)

/-- What `load_and_validate_entry` returns, and the handle in the boot entry, which is that of the
kernel after a success. -/
structure Attempt where
  ret : Int
  kernelHandle : Option Nat
  deriving DecidableEq, Repr

/-- `out_err`: the attempt has failed, and nothing is released any more. -/
def outErr : Run Attempt := return ⟨-1, none⟩

/-- `free_kernel`: the copy of the path is released. -/
def freeKernel (kernel : Nat) : Run Attempt := do
  free kernel
  outErr

/-- `free_kernel_base`: the pages are released, and then what `free_kernel` does. -/
def freeKernelBase (kernel kernelBase : Nat) : Run Attempt := do
  freePages kernelBase
  freeKernel kernel

/-- `unload_image`: the image is unloaded, and then what `free_kernel_base` does. -/
def unloadKernel (kernel kernelBase handle : Nat) : Run Attempt := do
  unloadImage handle
  freeKernelBase kernel kernelBase

section

variable (ck : CharKind) (cfg : CString) (p : Nat) (vol : Volume) (a : Answers)

/-- The pair for the devicetree: `fdt`, or else `devicetree`. -/
def getFdtPair : Run (Option (Nat × CString)) := do
  let fdt ← getPair cfg p fdtKey
  if fdt.isSome then pure fdt else getPair cfg p devicetreeKey

/-- The devicetree at `path`: it is read into a block of its own, which is released again once it
has been copied. `false` when it cannot be used. -/
def loadFdtFrom (path : CString) : Run Bool := do
  let fdtSize ← fileGetSize ck vol a.fdtSize path
  if fdtSize < 0 then
    say (prErr "Can't load FDT %s\n" [.str path.bytes])
    return false
  -- `sizeof(Fdt_Header)` makes the comparison one of unsigned numbers
  if fdtSize.toUInt64 < 28 then
    say (prErr "Invalid FDT %s\n" [.str path.bytes])
    return false
  let fdtBase ← malloc
  let memory := junkMemory a.fdtMemory fdtSize.toUInt64.toNat
  let (ret, memory) ← fileLoad ck vol a.fdtLoad path memory
  if ret < 0 then
    say (prErr "Can't load FDT %s\n" [.str path.bytes])
    free fdtBase
    return false
  say (prInfo "FDT: %s, size = %lu\n" [.str path.bytes, .int ret.toInt])
  fdtFixupAndLoad a memory
  free fdtBase
  return true

/-- The devicetree of the entry; `false` stands for `goto unload_image`. -/
def loadFdt : Run Bool := do
  match ← getFdtPair cfg p with
  | none =>
    say (prInfo "FDT: (none)\n" [])
    return true
  | some (_, path) => loadFdtFrom ck vol a path

/-- The initrd of the entry; `false` stands for `goto unload_image`. -/
def loadInitrd : Run Bool := do
  match ← getPair cfg p initrdKey with
  | none =>
    say (prInfo "Initrd: (none)\n" [])
    return true
  | some (_, path) =>
    let initrdSize ← fileGetSize ck vol a.initrdSize path
    if initrdSize < 0 then
      say (prErr "Can't load initrd %s\n" [.str path.bytes])
      return false
    match ← mallocPages a.initrdPages initrdSize.toUInt64 with
    | none =>
      say (prErr "Unable to allocate memory for initrd, insufficient memory?\n" [])
      return false
    | some initrdBase =>
      let initrdSize ← fileLoadPages ck vol a.initrdLoad path initrdBase
      if initrdSize < 0 then
        say (prErr "Can't load initrd %s\n" [.str path.bytes])
        return false
      say (prInfo "Initrd %s, size = %lu\n" [.str path.bytes, .int initrdSize.toInt])
      let _ ← initrdSetup a initrdBase initrdSize.toUInt64
      return true

/-- The options of the entry, or a message that there are none; gives the buffer with the copy. -/
def loadAppend (kernelHandle : Nat) : Run (Option Nat) := do
  let append ← getPair cfg p appendKey
  match append with
  | none =>
    say (prInfo "Append: %s\n" [.str (ascii "(none)")])
    return none
  | some (buffer, options) =>
    say (prInfo "Append: %s\n" [.str options.bytes])
    setupAppend ck kernelHandle options
    return some buffer

/-- The rest of `load_and_validate_entry` once the kernel is loaded. -/
def setUpKernel (path : CString) (kernel kernelBase : Nat) (kernelSize : Int64) (handle : Nat) :
    Run Attempt := do
  say (prInfo "Kernel %s, size = %lu\n" [.str path.bytes, .int kernelSize.toInt])
  if ← loadFdt ck cfg p vol a then
    if ← loadInitrd ck cfg p vol a then
      let append ← loadAppend ck cfg p handle
      free kernel
      if let some buffer := append then
        free buffer
      return ⟨0, some handle⟩
    else unloadKernel kernel kernelBase handle
  else unloadKernel kernel kernelBase handle

/-- `load_and_validate_entry`, for the entry at `p`: first the kernel, and then what it is started
with. -/
def loadAndValidateEntry : Run Attempt := do
  match ← getPair cfg p kernelKey with
  | none =>
    say (prErr "No kernel defined for the entry!\n" [])
    outErr
  | some (kernel, path) =>
    let kernelSize ← fileGetSize ck vol a.kernelSize path
    if kernelSize < 0 then
      say (prErr "Can't load kernel %s\n" [.str path.bytes])
      outErr
    else
      match ← mallocPages a.kernelPages kernelSize.toUInt64 with
      | none =>
        say (prErr "Unable to allocate memory for kernel image, insufficient memory?\n" [])
        outErr
      | some kernelBase =>
        let ret ← fileLoadPages ck vol a.kernelLoad path kernelBase
        if ret < 0 then
          say (prErr "Can't load kernel %s\n" [.str path.bytes])
          freeKernel kernel
        else
          match ← loadEfiImage a kernelBase kernelSize with
          | (true, some handle) =>
            setUpKernel ck cfg p vol a path kernel kernelBase kernelSize handle
          | _ =>
            say (prErr "Can't load kernel %s\n" [.str path.bytes])
            freeKernelBase kernel kernelBase

end

end LoliLoader.Boot
