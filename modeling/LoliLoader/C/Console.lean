/-
# LoliLoader.C.Console -- calls of the console output functions

`printf` and `puts_sized` calls are kept as they are made: the format with its arguments, the bytes
to put. A program that prints is then one that has a list of calls, and what the calls do to buffers
and devices can be asked of that list afterwards.

This keeps two things apart. Which messages a function prints, and with which arguments, is a matter
of that function. Whether a message fits the buffer it is formatted in, and where it is shown, is a
matter of the console alone, and is the same for all callers.

`pr_err` and `pr_info` are macros that print the level first, by a call of its own; so each of them
is two calls here.

Arguments are integers of any size and strings. How many bits of an integer are looked at is decided
by the directive that takes it.
-/
import LoliLoader.C.Memory

namespace LoliLoader.C

/-- An argument of `printf`: an integer of any size, which its conversion cuts to a width, or a
string. -/
inductive Arg where
  | int (i : Int)
  | str (s : List UInt8)
  deriving DecidableEq, Repr

/-- A call that writes to the console: a message with its format and arguments, or bytes that are
put as they are. -/
inductive Output where
  | printf (format : String) (args : List Arg)
  | putsSized (s : List UInt8)
  deriving DecidableEq, Repr

/-- `pr_err`: the level first, in a call of its own, then the message. -/
def prErr (format : String) (args : List Arg) : List Output :=
  [.printf "%s: " [.str (ascii "ERROR")], .printf format args]

/-- `pr_info`: the level first, in a call of its own, then the message. -/
def prInfo (format : String) (args : List Arg) : List Output :=
  [.printf "%s: " [.str (ascii "INFO")], .printf format args]

end LoliLoader.C
