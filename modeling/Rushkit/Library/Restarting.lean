import Mathlib.Data.List.Basic

/-! Handing over `n` elements of a list in blocks of `c`, with every block taken from the
start of the list: what a loop delivers that forgets to advance its source. -/
namespace Restarting
variable {α : Type}

def blocks (c : Nat) (data : List α) : Nat → Nat → List (List α)
  | 0, _ => []
  | fuel+1, n =>
    if 0 < n then data.take (min n c) :: blocks c data fuel (n - min n c) else []

section Blocks
variable {c : Nat} (positive : 1 ≤ c) {data : List α}
include positive

theorem blocksPrefix (fuel fuel' : Nat) {n m : Nat} (order : n ≤ m) (enough : n ≤ fuel)
    (enough' : m ≤ fuel') :
    (blocks c data fuel n).flatten <+: (blocks c data fuel' m).flatten := by
  induction fuel generalizing n m fuel' with
  | zero => exact List.nil_prefix
  | succ fuel ih =>
    rcases Nat.eq_zero_or_pos n with rfl | some
    · exact List.nil_prefix
    obtain ⟨fuel', rfl⟩ : ∃ k, fuel' = k + 1 := ⟨fuel' - 1, by omega⟩
    have more : 0 < m := by omega
    simp only [blocks, if_pos some, if_pos more, List.flatten_cons]
    rcases Nat.lt_or_ge c n with long | short
    · rw [Nat.min_eq_right (by omega), Nat.min_eq_right (by omega)]
      exact (List.prefix_append_right_inj _).mpr (ih fuel' (by omega) (by omega) (by omega))
    · have done : (blocks c data fuel (n - min n c)).flatten = [] := by
        rw [Nat.min_eq_left short, Nat.sub_self]
        cases fuel <;> simp [blocks]
      rw [done, List.append_nil]
      exact (List.take_prefix_take_left (by omega)).trans (List.prefix_append _ _)

theorem blocksTake (period : data.drop c <+: data) (fuel : Nat) {n : Nat} (within : n ≤ data.length)
    (enough : n ≤ fuel) : (blocks c data fuel n).flatten = data.take n := by
  induction fuel generalizing n with
  | zero => simp [blocks, Nat.le_zero.mp enough]
  | succ fuel ih =>
    rcases Nat.eq_zero_or_pos n with rfl | some
    · simp [blocks]
    simp only [blocks, if_pos some, List.flatten_cons]
    rcases Nat.lt_or_ge c n with long | short
    · rw [Nat.min_eq_right (by omega), ih (by omega) (by omega)]
      have split := List.take_add (l := data) (i := c) (j := n - c)
      rw [Nat.add_sub_cancel' (by omega)] at split
      obtain ⟨tail, whole⟩ := period
      have shifted : data.take (n - c) = (data.drop c).take (n - c) := by
        conv_lhs => rw [← whole]
        rw [List.take_append_of_le_length (by rw [List.length_drop]; omega)]
      rw [split, shifted]
    · rw [Nat.min_eq_left short, Nat.sub_self, ih (Nat.zero_le _) (Nat.zero_le _)]
      simp

/-- The blocks make up the list exactly when it repeats itself after every `c` elements. -/
theorem blocksWhole {fuel : Nat} (enough : data.length ≤ fuel) :
    (blocks c data fuel data.length).flatten = data ↔ data.drop c <+: data := by
  constructor
  · intro whole
    rcases Nat.lt_or_ge c data.length with long | short
    · obtain ⟨fuel, rfl⟩ : ∃ k, fuel = k + 1 := ⟨fuel - 1, by omega⟩
      have some : 0 < data.length := by omega
      have earlier : (blocks c data fuel (data.length - c)).flatten <+:
          (blocks c data (fuel + 1) data.length).flatten :=
        blocksPrefix positive _ _ (Nat.sub_le _ _) (by omega) enough
      rw [whole] at earlier
      rw [blocks, if_pos some, List.flatten_cons, Nat.min_eq_right (by omega)] at whole
      have rest := congrArg (List.drop c) whole
      rw [List.drop_left' (by rw [List.length_take]; omega)] at rest
      rw [← rest]
      exact earlier
    · rw [List.drop_eq_nil_of_le short]
      exact List.nil_prefix
  · intro period
    rw [blocksTake positive period _ (Nat.le_refl _) enough, List.take_length]

end Blocks

end Restarting
