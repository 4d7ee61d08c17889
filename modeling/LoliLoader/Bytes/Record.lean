/-
# LoliLoader.Bytes.Record -- records of little-endian fields

A record of a file format is written field by field, each with its width. A word that is read at the
offset of a field is the value of the field, cut to its width.

The fields are a list, so the offset of one of them is the width of all those in front of it, and
`word_record` finds a field by splitting the list there. Nothing has to be computed for a particular
format: a header of forty fields is read back with one lemma and forty splittings that `rfl` can
check.

A value that does not fit its width is cut, as when it is stored to a field of a C structure.
`word_field` is the version for values that fit.

`slice` and `word` are partial: where the bytes end before the field does they give nothing, which
is how a reader of the format rejects a file that is too short.
-/
import LoliLoader.Bytes.LittleEndian

namespace LoliLoader.Bytes

/-- The `n` bytes at offset `off`, if there are as many. -/
def slice (bs : List UInt8) (off n : Nat) : Option (List UInt8) :=
  if off + n ≤ bs.length then some ((bs.drop off).take n) else none

/-- The word of `n` bytes at offset `off`, lowest byte first; nothing if the bytes end before it
does. -/
def word (bs : List UInt8) (off n : Nat) : Option Nat := (slice bs off n).map ofLE

/-- The width of a field and its value. -/
abbrev Field := Nat × Nat

/-- The bytes of a record, field by field. Each is a width and a value, and the value is cut to the
width. -/
def record (fs : List Field) : List UInt8 := fs.flatMap fun f => leBytes f.1 f.2

/-- The width of a record: how many bytes all of its fields take together. -/
def width (fs : List Field) : Nat := (fs.map Prod.fst).sum

@[simp]
theorem length_record (fs : List Field) : (record fs).length = width fs := by
  induction fs with
  | nil => rfl
  | cons f fs ih =>
      show (leBytes f.1 f.2 ++ record fs).length = f.1 + width fs
      rw [List.length_append, length_leBytes, ih]

theorem slice_append (pre mid post : List UInt8) :
    slice (pre ++ (mid ++ post)) pre.length mid.length = some mid := by
  rw [slice, if_pos (by simp), List.drop_left, List.take_left]

/-- A word in the middle of bytes. -/
theorem word_leBytes (pre post : List UInt8) (n v : Nat) :
    word (pre ++ (leBytes n v ++ post)) pre.length n = some (v % 256 ^ n) := by
  have h := slice_append pre (leBytes n v) post
  rw [length_leBytes] at h
  rw [word, h, Option.map_some, ofLE_leBytes]

theorem word_leBytes_of_lt (pre post : List UInt8) {n v : Nat} (h : v < 256 ^ n) :
    word (pre ++ (leBytes n v ++ post)) pre.length n = some v := by
  rw [word_leBytes, Nat.mod_eq_of_lt h]

/-- **A field of a record** is read at its offset, which is the width of the fields in front of it.
What stands before and behind the record does not matter. -/
theorem word_record (pre : List UInt8) (fs : List Field) (post : List UInt8) (k : Nat) {n v : Nat}
    (h : fs[k]? = some (n, v)) :
    word (pre ++ (record fs ++ post)) (pre.length + width (fs.take k)) n
      = some (v % 256 ^ n) := by
  obtain ⟨hk, hget⟩ := List.getElem?_eq_some_iff.mp h
  have hsplit : fs = fs.take k ++ (n, v) :: fs.drop (k + 1) := by
    rw [← hget, List.getElem_cons_drop, List.take_append_drop]
  have hrecord : record fs
      = record (fs.take k) ++ (leBytes n v ++ record (fs.drop (k + 1))) := by
    conv_lhs => rw [hsplit]
    simp [record]
  have hbytes : pre ++ (record fs ++ post)
      = (pre ++ record (fs.take k)) ++ (leBytes n v ++ (record (fs.drop (k + 1)) ++ post)) := by
    rw [hrecord]
    simp only [List.append_assoc]
  have hlen : pre.length + width (fs.take k) = (pre ++ record (fs.take k)).length := by
    rw [List.length_append, length_record]
  rw [hbytes, hlen, word_leBytes]

theorem record_append (fs gs : List Field) : record (fs ++ gs) = record fs ++ record gs :=
  List.flatMap_append

/-- A field with a value that fits is read at its offset. -/
theorem word_field {pre post : List UInt8} {fs : List Field} {k n v off : Nat}
    (h : fs[k]? = some (n, v)) (hv : v < 256 ^ n) (hoff : pre.length + width (fs.take k) = off) :
    word (pre ++ (record fs ++ post)) off n = some v := by
  rw [← hoff, word_record _ _ _ _ h, Nat.mod_eq_of_lt hv]

end LoliLoader.Bytes
