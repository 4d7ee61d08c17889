/-
# LoliLoader.Elf2Efi.Executable -- executables in tools/elf2efi.c

The data model of the converter: segments and relocations of an ELF executable, and what the passes
over it use. Memory allocation and writing of files succeed; what is printed with `-v` is left out.

A segment has its data in a block of its own, together with the address, the sizes in the file and
in memory, the alignment and the flags, all in the widths of the source. The numbers of segments and
relocations are the lengths of lists.

`Failure` distinguishes how the converter may stop early. A message with `exit(1)` is a decision of
the program; a fault is not, and a division by zero is one. A loop that does not end is a third
thing, since the model would otherwise have to leave it out.

`covers` is the test of `data_at_vaddr`, written as it stands in the source. What it should have
been is in `Elf2Efi.Access`.
-/
import LoliLoader.C.Console

namespace LoliLoader.Elf2Efi

open C

/-- How the converter stops early: with a message and `exit(1)`, or by doing what C code must
not do. Or a loop of it does not end. -/
inductive Failure where
  | exit (message : Output)
  | fault (f : Fault)
  | endless
  deriving DecidableEq, Repr

structure SizedData where
  name : String
  rawData : List UInt8
  size : UInt64
  deriving DecidableEq, Repr

/-- Segment (ELF semantics) -/
structure Segment where
  vaddr : UInt64
  memsize : UInt64
  alignment : UInt32
  flags : UInt32
  filesize : UInt64
  data : SizedData
  deriving DecidableEq, Repr

structure ExecReloc where
  vaddr : UInt64
  addend : UInt64
  deriving DecidableEq, Repr

/-- `segnum` and `relocnum` are the lengths of the lists. -/
structure Executable where
  entryAddr : UInt64
  segments : List Segment
  dynamic : Segment
  relocs : List ExecReloc
  executableAlignment : UInt32
  deriving DecidableEq, Repr

def SEGMENT_FLAGS_READ : UInt32 := 0x1
def SEGMENT_FLAGS_WRITE : UInt32 := 0x2
def SEGMENT_FLAGS_EXEC : UInt32 := 0x4

/-- `ALIGN_DOWN`, in 64 bits. The alignment is not checked to be a divisor of anything, nor to be
other than zero. -/
def alignDown (x align : UInt64) : UInt64 := x / align * align

/-- `ALIGN`, in 64 bits: rounding up, where the sum may wrap around. -/
def align (x align : UInt64) : UInt64 := alignDown (x + align - 1) align

/-- A division by `x` is about to be made, which is undefined in C if `x` is zero. -/
def divisor (x : UInt64) : Except Failure Unit :=
  if x = 0 then .error (.fault .divide) else .ok ()

/-- Does `data_at_vaddr` take this segment for `vaddr`? -/
def Segment.covers (vaddr : UInt64) (segment : Segment) : Bool :=
  segment.vaddr ≤ vaddr ∧ vaddr ≤ segment.vaddr + segment.memsize

/-- `data_at_vaddr`: the index of the segment, and the offset in its data. -/
def dataAtVaddr (exec : Executable) (purpose : String) (vaddr size : UInt64) :
    Except Failure (Nat × UInt64) :=
  match exec.segments.zipIdx.find? fun s => s.1.covers vaddr with
  | some (segment, i) => .ok (i, vaddr - segment.vaddr)
  | none => .error (.exit (.printf
      "Attempt to index \"%s\" at virtual address 0x%lx, with size %lu, which isn't (fully) covered by any segments\n"
      [.str (ascii purpose), .int vaddr.toNat, .int size.toNat]))

/-- `memcpy` of `n` bytes of `src` behind `offset` zero bytes, into `size` bytes. -/
def copyBehind (offset n size : Nat) (src : List UInt8) : Except Failure (List UInt8) :=
  if size < offset + n then .error (.fault (.write size))
  else if src.length < n then .error (.fault (.read src.length))
  else .ok (List.replicate offset 0 ++ src.take n)

/-- A store of `bytes` at `p`, which have to be inside the block. -/
def storeAt (rawData : List UInt8) (p : Nat) (bytes : List UInt8) : Except Failure (List UInt8) :=
  if rawData.length < p + bytes.length then .error (.fault (.write rawData.length))
  else .ok (rawData.take p ++ bytes ++ rawData.drop (p + bytes.length))

end LoliLoader.Elf2Efi
