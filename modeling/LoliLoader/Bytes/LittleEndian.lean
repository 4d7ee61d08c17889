/-
# LoliLoader.Bytes.LittleEndian -- words as little-endian bytes

`leBytes n v` are the low `n` bytes of `v`, the lowest first, and `ofLE` reads bytes back. File
formats are made of such words, and so is memory as the loader of an executable sees it.

The two are inverse on words of `n` bytes: reading back what was written keeps the low bytes of a
number (`ofLE_leBytes`), which is all of it when it fits, and writing back what was read gives the
same bytes (`leBytes_ofLE`).

A field that is too narrow for its value loses the high bytes without any notice. That is what the
code does as well, so it is not excluded here: `leBytes_mod` says that only the low bytes of a
number are written, and the places that rely on more carry the bound themselves.

Numbers are natural numbers rather than machine words of one width, since the same two functions
serve fields of one, two, four and eight bytes.
-/
import Mathlib.Data.List.Basic
import Mathlib.Tactic.Ring

namespace LoliLoader.Bytes

/-- The low `n` bytes of `v`, the lowest first. Higher bytes of the number are cut, as by a store to
a field of `n` bytes. -/
def leBytes : Nat → Nat → List UInt8
  | 0, _ => []
  | n + 1, v => UInt8.ofNat v :: leBytes n (v / 256)

/-- The word that little-endian bytes stand for. There may be any number of them, and none stand for
zero. -/
def ofLE : List UInt8 → Nat
  | [] => 0
  | b :: bs => b.toNat + 256 * ofLE bs

@[simp]
theorem length_leBytes (n v : Nat) : (leBytes n v).length = n := by
  induction n generalizing v with
  | zero => rfl
  | succ n ih => rw [leBytes, List.length_cons, ih]

/-- Reading back what was written keeps the low bytes. -/
theorem ofLE_leBytes (n v : Nat) : ofLE (leBytes n v) = v % 256 ^ n := by
  induction n generalizing v with
  | zero => rw [leBytes, ofLE, Nat.pow_zero, Nat.mod_one]
  | succ n ih =>
      rw [leBytes, ofLE, ih, Nat.pow_succ, Nat.mul_comm (256 ^ n) 256, Nat.mod_mul]
      have hb : (UInt8.ofNat v).toNat = v % 256 := UInt8.toNat_ofNat'
      rw [hb]

theorem ofLE_leBytes_of_lt {n v : Nat} (h : v < 256 ^ n) : ofLE (leBytes n v) = v := by
  rw [ofLE_leBytes, Nat.mod_eq_of_lt h]

/-- Writing back what was read. -/
theorem leBytes_ofLE (bs : List UInt8) : leBytes bs.length (ofLE bs) = bs := by
  induction bs with
  | nil => rfl
  | cons b bs ih =>
      have hb := b.toNat_lt
      have hlow : UInt8.ofNat (b.toNat + 256 * ofLE bs) = b := by
        apply UInt8.toNat.inj
        rw [UInt8.toNat_ofNat']
        omega
      have hhigh : (b.toNat + 256 * ofLE bs) / 256 = ofLE bs := by omega
      rw [List.length_cons, ofLE, leBytes, hlow, hhigh, ih]

/-- Only the low bytes of a word are written. -/
theorem leBytes_mod (n v : Nat) : leBytes n (v % 256 ^ n) = leBytes n v := by
  have h := leBytes_ofLE (leBytes n v)
  rwa [length_leBytes, ofLE_leBytes] at h

end LoliLoader.Bytes
