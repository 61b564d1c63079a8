import Mathlib

/-! Memory as bytes at addresses. What is read from an extent depends on nothing but the bytes in it,
and a write changes nothing outside the extent it is to. -/
namespace ByteMemory

abbrev Memory := Nat → UInt8

def write (mem : Memory) (p : Nat) (s : List UInt8) : Memory :=
  fun a => if p ≤ a ∧ a < p + s.length then s.getD (a - p) 0 else mem a

def read (mem : Memory) (p n : Nat) : List UInt8 := (List.range n).map fun i => mem (p + i)

def extent (p n : Nat) : Set Nat := Set.Ico p (p + n)

variable {mem mem' : Memory} {p q n : Nat} {s : List UInt8}

theorem extentMem {a : Nat} : a ∈ extent p n ↔ p ≤ a ∧ a < p + n := Iff.rfl

theorem extentPart {k m : Nat} (fits : k + m ≤ n) : extent (p + k) m ⊆ extent p n := by
  intro a inside
  rw [extentMem] at inside ⊢
  omega

theorem extentRest {k : Nat} : extent (p + k) (n - k) ⊆ extent p n := by
  intro a inside
  rw [extentMem] at inside ⊢
  omega

theorem extentFront {m : Nat} (less : m ≤ n) : extent p m ⊆ extent p n := by
  intro a inside
  rw [extentMem] at inside ⊢
  omega

theorem extentNone : extent p 0 = ∅ := by
  rw [extent, Nat.add_zero, Set.Ico_self]

@[simp] theorem readLength : (read mem p n).length = n := by
  rw [read, List.length_map, List.length_range]

theorem readMoved (same : ∀ i < n, mem' (q + i) = mem (p + i)) : read mem' q n = read mem p n :=
  List.map_congr_left fun i inside => same i (List.mem_range.mp inside)

theorem readAt {i : Nat} (same : read mem' q n = read mem p n) (inside : i < n) : mem' (q + i) = mem (p + i) :=
  List.map_inj_left.mp same i (List.mem_range.mpr inside)

theorem readKept {S : Set Nat} (same : Set.EqOn mem' mem S) (inside : extent p n ⊆ S) :
    read mem' p n = read mem p n :=
  readMoved fun i less => same (inside (extentMem.mpr (by omega)))

theorem writeAt {i : Nat} (inside : i < s.length) : write mem p s (p + i) = s[i] := by
  rw [write, if_pos (by omega), Nat.add_sub_cancel_left, List.getD_eq_getElem?_getD, List.getElem?_eq_getElem inside,
    Option.getD_some]

theorem writeApart : Set.EqOn (write mem p s) mem (extent p s.length)ᶜ :=
  fun _ apart => if_neg apart

theorem readWrite (length : s.length = n) : read (write mem p s) p n = s := by
  refine List.ext_getElem (by rw [readLength, length]) fun i less inside => ?_
  simp only [read, List.getElem_map, List.getElem_range, writeAt inside]

theorem extentsApart {m : Nat} (apart : p + n ≤ q ∨ q + m ≤ p) : Disjoint (extent p n) (extent q m) := by
  refine Set.disjoint_left.mpr fun a here there => ?_
  rw [extentMem] at here there
  omega

end ByteMemory
