import Rushkit.Pool

/-! The trunks behind the pool (`rt_pool.c`). Blocks are cut from the current trunk while it
has room; a larger request opens a trunk of its own in front of it. -/
namespace Rushkit

-- Trunks are numbered in the order they are made, from `root_trunk` on; `data` is its length.
structure Trunk where
  prev : Option Nat
  data : Nat
  deriving DecidableEq, Repr

structure Pool where
  trunks : List Trunk
  released : List Nat
  curr : Nat
  currUsed : Nat
  currCapacity : Nat
  usedSize : Int
  allocSpace : Int
  deriving DecidableEq, Repr

structure Block where
  trunk : Nat
  offset : Nat
  size : Nat
  deriving DecidableEq, Repr

def rootTrunk : Trunk := ⟨none, 2048⟩

-- `alloc_space` is not initialised.
def rtPoolInit (allocSpace : Int) : Pool where
  trunks := [rootTrunk]
  released := []
  curr := 0
  currUsed := 0
  currCapacity := 2048
  usedSize := 0
  allocSpace := allocSpace

-- `curr_capacity - curr_used` is an `unsigned int`, and so is `size`.
def rtPoolAllocIn (ppool : Pool) (size : Nat) : Block × Pool :=
  let size : Nat := size % 2 ^ 32
  let usedSize := int32 (ppool.usedSize + size)
  if size ≤ (ppool.currCapacity + 2 ^ 32 - ppool.currUsed) % 2 ^ 32 then
    (⟨ppool.curr, ppool.currUsed, size⟩,
      { ppool with usedSize := usedSize, currUsed := (ppool.currUsed + size) % 2 ^ 32 })
  else
    let newTrunkSize := newTrunkSize size
    (⟨ppool.trunks.length, 0, size⟩,
      { ppool with
        usedSize := usedSize
        allocSpace := int32 (ppool.allocSpace + newTrunkSize)
        trunks := ppool.trunks ++ [⟨some ppool.curr, newTrunkSize.toNat⟩]
        currUsed := size
        currCapacity := newTrunkSize.toNat
        curr := ppool.trunks.length })

def resetLoop (trunks : List Trunk) : Nat → Nat → List Nat → Res (List Nat)
  | 0, _, _ => .error .hang
  | fuel+1, pTrunk, released =>
    if pTrunk = 0 then .ok released
    else
      match trunks[pTrunk]? with
      | some ⟨some p, _⟩ => resetLoop trunks fuel p (released ++ [pTrunk])
      | _ => .error .overRead

def rtPoolReset (ppool : Pool) : Res Pool := do
  let released ← resetLoop ppool.trunks (ppool.trunks.length + 1) ppool.curr ppool.released
  .ok { ppool with
    released := released
    currUsed := 0
    currCapacity := 2048
    curr := 0
    allocSpace := 2048
    usedSize := 0 }

-- How many bytes of a block lie inside its trunk.
def Pool.covered (ppool : Pool) (block : Block) : Nat :=
  match ppool.trunks[block.trunk]? with
  | some trunk => min block.size (trunk.data - block.offset)
  | none => 0

structure SoundPool (ppool : Pool) : Prop where
  root : ppool.trunks[0]? = some rootTrunk
  linked : ∀ i trunk, ppool.trunks[i + 1]? = some trunk → ∃ p, trunk.prev = some p ∧ p < i + 1
  current : ∃ prev, ppool.trunks[ppool.curr]? = some ⟨prev, ppool.currCapacity⟩
  used : ppool.currUsed ≤ ppool.currCapacity
  slack : ppool.currCapacity ≤ ppool.currUsed + 2048
  int : ppool.currCapacity < 2147483648

theorem soundInit (allocSpace : Int) : SoundPool (rtPoolInit allocSpace) where
  root := rfl
  linked := by
    intro i trunk none
    cases none
  current := ⟨none, rfl⟩
  used := Nat.zero_le _
  slack := Nat.le_refl _
  int := (by decide : 2048 < 2147483648)

theorem newTrunkSizeSmall {size : Nat} (small : size < 2147481600) :
    newTrunkSize size = size + 2048 := by
  have same : int32 ((size : Int) + 2048) = size + 2048 := int32Same (by omega) (by omega)
  simp only [newTrunkSize, poolExtraSpace, poolGranu, same]
  exact if_neg (by omega)

section Requests
variable {ppool : Pool} (sound : SoundPool ppool) (size : Nat)
include sound

theorem roomLeft : (ppool.currCapacity + 2 ^ 32 - ppool.currUsed) % 2 ^ 32 =
    ppool.currCapacity - ppool.currUsed := by
  have used := sound.used
  have int := sound.int
  have shift : ppool.currCapacity + 2 ^ 32 - ppool.currUsed =
      ppool.currCapacity - ppool.currUsed + 2 ^ 32 := by omega
  rw [shift, Nat.add_mod_right]
  exact Nat.mod_eq_of_lt (by omega)

theorem soundAlloc (small : size % 2 ^ 32 < 2147481600) : SoundPool (rtPoolAllocIn ppool size).2 := by
  have left := roomLeft sound
  obtain ⟨prev, current⟩ := sound.current
  have inside := (List.getElem?_eq_some_iff.mp current).1
  have used := sound.used
  have slack := sound.slack
  have int := sound.int
  unfold rtPoolAllocIn
  dsimp only
  rw [left]
  split
  · have grown := Nat.mod_eq_of_lt (a := ppool.currUsed + size % 2 ^ 32) (b := 2 ^ 32) (by omega)
    exact ⟨sound.root, sound.linked, sound.current, by dsimp only; omega, by dsimp only; omega, int⟩
  · have opened : (newTrunkSize (size % 2 ^ 32 : Nat)).toNat = size % 2 ^ 32 + 2048 := by
      rw [newTrunkSizeSmall small]
      omega
    refine ⟨?_, ?_, ?_, ?_, ?_, ?_⟩
    · dsimp only
      rw [List.getElem?_append_left (by omega)]
      exact sound.root
    · intro i trunk member
      dsimp only at member
      rcases Nat.lt_trichotomy (i + 1) ppool.trunks.length with old | new | beyond
      · rw [List.getElem?_append_left old] at member
        exact sound.linked i trunk member
      · rw [new, List.getElem?_concat_length] at member
        cases member
        exact ⟨ppool.curr, rfl, by omega⟩
      · rw [List.getElem?_eq_none (by rw [List.length_append, List.length_singleton]; omega)] at member
        cases member
    · dsimp only
      exact ⟨_, List.getElem?_concat_length⟩
    all_goals
      dsimp only
      omega

end Requests

theorem resetLoopEnds {ppool : Pool} (sound : SoundPool ppool) (fuel : Nat) {pTrunk : Nat}
    (enough : pTrunk < fuel) (inside : pTrunk < ppool.trunks.length) (released : List Nat) :
    ∃ after, resetLoop ppool.trunks fuel pTrunk released = .ok after := by
  induction fuel generalizing pTrunk released with
  | zero => contradiction
  | succ fuel ih =>
    cases pTrunk with
    | zero => exact ⟨released, rfl⟩
    | succ i =>
      obtain ⟨p, before, less⟩ := sound.linked i _ (List.getElem?_eq_getElem inside)
      obtain ⟨after, rest⟩ := ih (by omega : p < fuel) (by omega) (released ++ [i + 1])
      refine ⟨after, ?_⟩
      rw [resetLoop, if_neg (Nat.succ_ne_zero i), List.getElem?_eq_getElem inside]
      cases found : ppool.trunks[i + 1] with
      | mk prev data =>
        rw [found] at before
        cases before
        exact rest

theorem resetReturns {ppool : Pool} (sound : SoundPool ppool) :
    ∃ after, rtPoolReset ppool = .ok after := by
  obtain ⟨prev, current⟩ := sound.current
  have inside := (List.getElem?_eq_some_iff.mp current).1
  obtain ⟨released, loop⟩ := resetLoopEnds sound (ppool.trunks.length + 1) (by omega) inside ppool.released
  rw [rtPoolReset, loop]
  exact ⟨_, rfl⟩

theorem soundReset {ppool after : Pool} (sound : SoundPool ppool) (done : rtPoolReset ppool = .ok after) :
    SoundPool after := by
  obtain ⟨released, _, result⟩ := Fallible.bindOk.mp done
  cases result
  exact ⟨sound.root, sound.linked, ⟨none, sound.root⟩, Nat.zero_le _, Nat.le_refl _,
    (by decide : 2048 < 2147483648)⟩

end Rushkit
