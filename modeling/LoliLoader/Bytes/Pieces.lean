/-
# LoliLoader.Bytes.Pieces -- pieces in any order, and parts of a piece

Pieces of bytes that keep apart leave the same memory in whatever order they are stored. Two of them
can change places (`write_comm`), and from that any permutation of them can be undone one exchange
at a time (`writeAll_perm`).

This is needed where a program sorts what the input gives in some order of its own. The segments of
an executable are sorted by address, its relocations as well; the memory they describe is that of
the unsorted lists, because no two of them have an address in common.

A part of a piece is read back from where it has been stored (`read_writeAll`), so that a table that
lies inside a segment is found in the memory that the segments make up.

`Apart.le_of_le` is the fact behind sorting by the start: of two extents of one size that are apart,
the one that starts first also ends first.
-/
import LoliLoader.Bytes.Space
import Mathlib.Data.List.Pairwise

namespace LoliLoader.Bytes

namespace Extent

/-- Extents of one size that are apart, the one that starts first ends first. -/
theorem Apart.le_of_le {a b n : Nat} (hpos : 0 < n) (h : (mk a n).Apart (mk b n)) (hle : a ≤ b) :
    a + n ≤ b := by
  by_contra hlt
  have hboth : b ∈ mk a n ∧ b ∈ mk b n := by
    rw [mem_mk, mem_mk]
    omega
  exact h b hboth.1 hboth.2

end Extent

namespace Space

/-- The addresses of a piece: from where it is stored, as many as it has bytes. -/
def extentOf (p : Nat × List UInt8) : Extent := ⟨p.1, p.2.length⟩

section

variable {m : Space} {pieces pieces' : List (Nat × List UInt8)}

/-- Two pieces that are apart can change places. -/
theorem write_comm {p q : Nat × List UInt8} (h : (extentOf p).Apart (extentOf q)) :
    (m.write p.1 p.2).write q.1 q.2 = (m.write q.1 q.2).write p.1 p.2 := by
  funext x
  by_cases hp : x ∈ extentOf p
  · have hq : x ∉ extentOf q := h x hp
    rw [write_not_mem hq, write_mem hp, write_mem hp]
  · rw [write_not_mem (m := m.write q.1 q.2) hp]
    by_cases hq : x ∈ extentOf q
    · rw [write_mem hq, write_mem hq]
    · rw [write_not_mem hq, write_not_mem hq, write_not_mem hp]

/-- **The order** of pieces that are apart does not matter: stored in any other order they leave the
same memory. -/
theorem writeAll_perm (hapart : pieces.Pairwise fun p q => (extentOf p).Apart (extentOf q))
    (h : pieces.Perm pieces') : m.writeAll pieces = m.writeAll pieces' := by
  refine List.Perm.foldl_eq' h (fun p hp q hq m => ?_) m
  by_cases heq : p = q
  · rw [heq]
  · have hsymm : Std.Symm fun p q : Nat × List UInt8 => (extentOf p).Apart (extentOf q) :=
      ⟨fun _ _ => Extent.Apart.symm⟩
    exact write_comm (hapart.forall hp hq heq)

/-- A part of a piece. -/
theorem read_writeAll (hapart : pieces.Pairwise fun p q => (extentOf p).Apart (extentOf q))
    {p : Nat × List UInt8} (hp : p ∈ pieces) {k n : Nat} (hin : k + n ≤ p.2.length) :
    (m.writeAll pieces).read (p.1 + k) n = (p.2.drop k).take n := by
  have hlen : ((p.2.drop k).take n).length = n := by
    rw [List.length_take, List.length_drop]
    omega
  have hread := @read_eq (m.writeAll pieces) (p.1 + k) ((p.2.drop k).take n)
  rw [hlen] at hread
  refine hread fun i hi => ?_
  have hmem : p.1 + k + i ∈ Extent.mk p.1 p.2.length := by
    rw [Extent.mem_mk]
    omega
  have hpiece : (m.writeAll (pieces.map fun p => (p.1, p.2))) (p.1 + k + i)
      = p.2.getD (p.1 + k + i - p.1) 0 :=
    writeAll_mem_full (fun _ _ => rfl) hapart hp hmem
  rw [List.map_id'] at hpiece
  rw [hpiece, List.getD_eq_getElem _ _ (by omega), List.getD_eq_getElem _ _ (by omega),
    List.getElem_take, List.getElem_drop]
  congr 1
  omega

end

end Space

end LoliLoader.Bytes
