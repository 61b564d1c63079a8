import Mathlib.Logic.Basic

/-! Histories of partial writes to keyed records, and stores that remember the last
value written to every field. -/
namespace LastWrite
variable {κ φ ν : Type} [DecidableEq κ]

structure Write (κ φ ν : Type) where
  key : κ
  carries : φ → Bool
  value : φ → ν

-- The history is kept with the latest write first.
def last (default : ν) (k : κ) (f : φ) : List (Write κ φ ν) → ν
  | [] => default
  | w :: rest => if w.key = k ∧ w.carries f = true then w.value f else last default k f rest

def Remembers (default : ν) (store : κ → φ → ν) (history : List (Write κ φ ν)) : Prop :=
  ∀ k f, store k f = last default k f history

/-- A store that takes over what a write carries, and nothing else, keeps remembering. -/
theorem remembersWrite {default : ν} {store store' : κ → φ → ν} {history : List (Write κ φ ν)}
    (h : Remembers default store history) (w : Write κ φ ν)
    (here : ∀ f, store' w.key f = if w.carries f = true then w.value f else store w.key f)
    (elsewhere : ∀ k, k ≠ w.key → store' k = store k) : Remembers default store' (w :: history) := by
  intro k f
  rw [last]
  rcases eq_or_ne k w.key with rfl | other
  · rw [here, h]
    simp only [true_and]
  · rw [if_neg fun both => other both.1.symm, elsewhere k other, h]

end LastWrite
