import Mathlib.Data.List.Basic

/-! Data laid over a block from an offset on. -/
namespace Splice
variable {α : Type}

def splice (block : List α) (offset : Nat) (data : List α) : List α :=
  block.take offset ++ data ++ block.drop (offset + data.length)

theorem spliceLength {block data : List α} {offset : Nat} (fits : offset + data.length ≤ block.length) :
    (splice block offset data).length = block.length := by
  simp only [splice, List.length_append, List.length_take, List.length_drop]
  omega

@[simp] theorem spliceNothing (block : List α) (offset : Nat) : splice block offset [] = block := by
  simp [splice]

theorem spliceRead {block : List α} (data : List α) {offset : Nat} (fits : offset ≤ block.length) :
    ((splice block offset data).drop offset).take data.length = data := by
  have front : (block.take offset).length = offset := List.length_take_of_le fits
  rw [splice, List.append_assoc, List.drop_append_of_le_length (Nat.le_of_eq front.symm),
    List.drop_of_length_le (Nat.le_of_eq front), List.nil_append, List.take_left]

theorem spliceTake {block data : List α} {offset : Nat} (fits : offset + data.length ≤ block.length) :
    (splice block offset data).take (offset + data.length) = block.take offset ++ data := by
  have front : (block.take offset ++ data).length = offset + data.length := by
    rw [List.length_append, List.length_take_of_le (by omega)]
  rw [splice, ← front, List.take_left]

theorem spliceSplice {block data : List α} {offset : Nat} (fits : offset + data.length ≤ block.length)
    (more : List α) :
    splice (splice block offset data) (offset + data.length) more = splice block offset (data ++ more) := by
  have front : (block.take offset ++ data).length = offset + data.length := by
    rw [List.length_append, List.length_take_of_le (by omega)]
  have kept := spliceTake fits
  have left : (splice block offset data).drop (offset + data.length + more.length) =
      block.drop (offset + (data ++ more).length) := by
    rw [splice, ← List.drop_drop, ← front, List.drop_left, front, List.drop_drop, List.length_append,
      Nat.add_assoc]
  rw [splice, kept, left, splice, List.append_assoc (block.take offset)]

end Splice
