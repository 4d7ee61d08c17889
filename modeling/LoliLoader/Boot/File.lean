/-
# LoliLoader.Boot.File -- src/file.c

Opening, sizing and reading files. The volume is a function from paths, as the firmware sees them,
to files; each service may fail besides.

A path of the configuration has slashes of either kind. `file_open_str` converts it to wide
characters, `fix_path` makes one backslash of each run of them, in place, and the firmware gets the
result. `fixPathLoop` is the loop of the source on the memory of the path, with the two indices that
it keeps.

What is kept of a file are its bytes, and whether it is a directory. A read delivers some bytes and
reports some count, and neither has to be what was asked for: `file_load` looks at neither, nor at
the status. So it is up to its callers what a short read does, and they do not look either.

Every function returns with the handle closed that it has opened, or not; this is followed in
`Boot.Handles`.
-/
import LoliLoader.Boot.Firmware
import LoliLoader.C.String

namespace LoliLoader.Boot

open C

/-- A file on the boot volume: its bytes, and whether it is a directory. Its size is one of 64
bits. -/
structure File where
  contents : List UInt8
  directory : Bool
  fits : contents.length < 2 ^ 64

/-- The files of the volume, by wide path. -/
abbrev Volume := List UInt16 → Option File

/-- The answer of `read`: its status, how many of the bytes it has delivered, and the count it
stores, which may be another. -/
structure ReadAnswer where
  status : Status
  transferred : Nat
  reported : UInt64
  deriving DecidableEq, Repr

/-- The answers a file function gets from the firmware: to opening, to both calls for the
information, and to the read. -/
structure FileAnswers where
  openFile : Status
  infoSize : Status
  infoData : Status
  read : ReadAnswer
  deriving DecidableEq, Repr

/-! ## Paths -/

/-- `str2wcs`: every `char` converted to a 16-bit character, then the terminator. -/
def str2wcs (ck : CharKind) (str : CString) : List UInt16 :=
  str.bytes.map (fun c => UInt16.ofInt (ck.val c)) ++ [0]

/-- The loop of `fix_path`: `cur` is where to write, `p` where to read. -/
def fixPathLoop (path : List UInt16) (cur p : Nat) : Except Fault (List UInt16) :=
  if _h : p < path.length then
    let c := path[p]
    if cur ≥ path.length then .error (.write cur)
    else if c = 0 then .ok (path.set cur 0)
    else
      let path' := path.set cur (if c = 47 then 92 else c)
      if cur = 0 ∨ path'[cur - 1]? ≠ some 92 ∨ path'[cur]? ≠ some 92 then
        fixPathLoop path' (cur + 1) (p + 1)
      else
        fixPathLoop path' cur (p + 1)
  else .error (.read p)
termination_by path.length - p
decreasing_by
  all_goals simp only [List.length_set]
  all_goals omega

/-- `fix_path`, in place on the string and its terminator. -/
def fixPath (path : List UInt16) : Except Fault (List UInt16) := fixPathLoop path 0 0

/-- A wide string, up to its terminator, in memory that may go on behind it. -/
def wideString (memory : List UInt16) : List UInt16 := memory.takeWhile fun c => c ≠ 0

/-! ## Files -/

section

variable (ck : CharKind) (vol : Volume) (a : FileAnswers)

/-- `file_open`: the handle of the file, or null. -/
def fileOpen (path : List UInt16) : Run (Option (Nat × File)) := do
  let fixedPath ← malloc
  let fixed ← fixPath path
  let file := if a.openFile = EFI_SUCCESS then vol (wideString fixed) else none
  let fw ← get
  let handle := fresh fw.files
  if file.isSome then
    set { fw with files := handle :: fw.files }
  free fixedPath
  return file.map fun f => (handle, f)

/-- `file_open_str`: the path is converted to wide characters, opened, and its copy released. -/
def fileOpenStr (path : CString) : Run (Option (Nat × File)) := do
  let wpath ← malloc
  let file ← fileOpen vol a (str2wcs ck path)
  free wpath
  return file

/-- `file_get_info`: the status, and the buffer with the information. -/
def fileGetInfo : Run (Status × Option Nat) := do
  if a.infoSize = EFI_SUCCESS then
    return (EFI_INVALID_PARAMETER, none)
  if a.infoSize ≠ toEfiErrno EFI_BUFFER_TOO_SMALL then
    return (a.infoSize, none)
  let info ← malloc
  if a.infoData ≠ EFI_SUCCESS then
    free info
    return (a.infoData, none)
  return (a.infoData, some info)

/-- `file_close`: the handle is given back, which does not fail. -/
def fileClose (handle : Nat) : Run Unit :=
  modify fun fw => { fw with files := fw.files.filter (· ≠ handle) }

/-- `file_get_size`. When the information is refused the file is left open. -/
def fileGetSize (path : CString) : Run Int64 := do
  match ← fileOpenStr ck vol a path with
  | none => return -1
  | some (handle, file) =>
    match ← fileGetInfo a with
    | (_, none) => return -1
    | (_, some info) =>
      free info
      fileClose handle
      return (UInt64.ofNat file.contents.length).toInt64

/-- The first bytes of a block of memory stored to. -/
def deliver (memory : Memory) (bytes : List UInt8) : Except Fault Memory :=
  if bytes.length ≤ memory.length then
    .ok (bytes.map Cell.data ++ memory.drop bytes.length)
  else .error (.write memory.length)

/-- `file_load` into the block `memory`. The status of `read` is not looked at. -/
def fileLoad (path : CString) (memory : Memory) : Run (Int64 × Memory) := do
  match ← fileOpenStr ck vol a path with
  | none => return (-1, memory)
  | some (handle, file) =>
    match ← fileGetInfo a with
    | (_, none) => return (-1, memory)
    | (_, some info) =>
      if file.directory then
        return (-1, memory)
      free info
      let memory ← deliver memory (file.contents.take a.read.transferred)
      fileClose handle
      return (a.read.reported.toInt64, memory)

end

end LoliLoader.Boot
