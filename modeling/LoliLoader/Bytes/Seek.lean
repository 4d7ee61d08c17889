/-
# LoliLoader.Bytes.Seek -- files with a position

A file that is written at a position. The position moves with what is written and can be set, also
to a place behind the end of the file; once something is written there, the file has zeros in
between.

The Python script writes its output in this way: the data of the sections first, at the places that
the headers have computed, and the headers at last, for which it goes back to the start. So the
contents of the file are not the list of what was written, and what they are is
`SeekFile.contents_write`: zeros up to the position, then what is written, if the position is at the
end or behind it.

Writing nothing changes nothing, wherever the position is. In particular it does not make the file
longer, which is a difference to a write of zeros and matters for sections without data.

`truncate` cuts a file or fills it up with zeros, as the method of Python's files does.
-/
import Mathlib.Data.List.Basic

namespace LoliLoader.Bytes

/-- A file that is written at a position, which may be behind the end of its contents. -/
structure SeekFile where
  contents : List UInt8
  position : Nat
  deriving DecidableEq, Repr

/-- `l` with zeros up to length `n`; as it is, if it has that length already. -/
def padTo (n : Nat) (l : List UInt8) : List UInt8 := l ++ List.replicate (n - l.length) 0

namespace SeekFile

/-- An empty file, as it is when it has been opened to be written. -/
def empty : SeekFile := ⟨[], 0⟩

/-- The position is set. Nothing is written yet, also if that is behind the end. -/
def seek (f : SeekFile) (n : Nat) : SeekFile := { f with position := n }

/-- Writing nothing changes nothing, wherever the position is. -/
def write (f : SeekFile) (bs : List UInt8) : SeekFile :=
  if bs = [] then f
  else {
    contents := (padTo f.position f.contents).take f.position ++ bs ++
      f.contents.drop (f.position + bs.length)
    position := f.position + bs.length }

/-- The first `n` bytes, or zeros behind all of them. -/
def truncate (f : SeekFile) (n : Nat) : SeekFile :=
  { f with contents := (padTo n f.contents).take n }

end SeekFile

/-! ## Writing at the end -/

section

variable {l : List UInt8} {n m : Nat}

theorem length_padTo (h : l.length ≤ n) : (padTo n l).length = n := by
  rw [padTo, List.length_append, List.length_replicate]
  omega

theorem padTo_of_le (h : n ≤ l.length) : padTo n l = l := by
  rw [padTo, Nat.sub_eq_zero_of_le h]
  exact List.append_nil l

theorem padTo_append (pre : List UInt8) : padTo (pre.length + n) (pre ++ l) = pre ++ padTo n l := by
  rw [padTo, padTo, List.length_append, List.append_assoc, Nat.add_sub_add_left]

/-- What is written behind the end is found behind zeros. -/
theorem SeekFile.contents_write {f : SeekFile} {bs : List UInt8} (hbs : bs ≠ [])
    (h : f.contents.length ≤ f.position) :
    (f.write bs).contents = padTo f.position f.contents ++ bs := by
  have hdrop : f.contents.drop (f.position + bs.length) = [] :=
    List.drop_eq_nil_of_le (by omega)
  have htake : (padTo f.position f.contents).take f.position = padTo f.position f.contents :=
    List.take_of_length_le (Nat.le_of_eq (length_padTo h))
  rw [SeekFile.write, if_neg hbs]
  show _ ++ bs ++ _ = _
  rw [hdrop, htake, List.append_nil]

theorem SeekFile.position_write (f : SeekFile) (bs : List UInt8) :
    (f.write bs).position = f.position + bs.length := by
  unfold SeekFile.write
  split
  · rename_i h
    rw [h]
    rfl
  · rfl

end

end LoliLoader.Bytes
