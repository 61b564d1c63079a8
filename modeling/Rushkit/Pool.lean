import Rushkit.Basic

/-! What a request to the memory pool gets (`rt_pool.c`): a block of its size, unless the
size with the extra space of a trunk leaves the range of an `int`. Then the counters run
past the end of the trunk, and what comes next depends on the requests so far. -/
namespace Rushkit

-- The length of the block by the size that is asked for, an `unsigned int`.
abbrev Alloc := Nat → Nat

-- The bytes of its own that a block has after other requests, the latest of them first.
abbrev Serving := List Nat → Alloc

-- A pool that has what it is asked for.
def requested : Alloc := fun size => size % 2 ^ 32

def requestedPool : Serving := fun _ => requested

def poolGranu : Int := 2048
def poolExtraSpace : Int := 2048

def newTrunkSize (size : Nat) : Int :=
  let newTrunkSize := int32 (size + poolExtraSpace)
  if newTrunkSize < poolGranu then poolGranu else newTrunkSize

-- `size` is an `unsigned int`. A request that the current trunk has room for gets its size, too.
def rtPoolAlloc : Alloc := fun size =>
  min (size % 2 ^ 32) (newTrunkSize (size % 2 ^ 32)).toNat

theorem rtPoolAllocSize (request : Nat) : rtPoolAlloc request =
    if request % 2 ^ 32 < 2147481600 then request % 2 ^ 32 else 2048 := by
  have bound : request % 2 ^ 32 < 2 ^ 32 := Nat.mod_lt _ (by decide)
  unfold rtPoolAlloc newTrunkSize poolGranu poolExtraSpace
  dsimp only
  by_cases small : request % 2 ^ 32 < 2147481600
  · have same : int32 ((request % 2 ^ 32 : Nat) + 2048) = (request % 2 ^ 32 : Nat) + 2048 :=
      int32Same (by omega) (by omega)
    rw [same, if_neg (by omega), if_pos small]
    omega
  · have wrapped : int32 ((request % 2 ^ 32 : Nat) + 2048) < 2048 := by
      rw [int32, Int.bmod_def]
      omega
    rw [if_pos wrapped, if_neg small]
    omega

theorem rtPoolAllocBound (request : Nat) : rtPoolAlloc request < 2147481600 := by
  rw [rtPoolAllocSize]
  split <;> omega

theorem rtPoolAllocServes {size : Nat} : size ≤ rtPoolAlloc size ↔ size < 2147481600 := by
  have word : size % 2 ^ 32 ≤ size := Nat.mod_le _ _
  have bound := rtPoolAllocBound size
  constructor
  · intro served
    omega
  · intro small
    have whole : size % 2 ^ 32 = size := Nat.mod_eq_of_lt (by omega)
    rw [rtPoolAllocSize, whole, if_pos small]

theorem rtPoolAllocWord (size : Nat) : rtPoolAlloc (size % 2 ^ 32) = rtPoolAlloc size := by
  rw [rtPoolAlloc, rtPoolAlloc, Nat.mod_mod]

/- What `curr_capacity - curr_used` shows in a trunk that is shorter than the block it was
opened for, and nothing for a trunk in order. -/
def trunkLeft (size : Nat) : Option Nat :=
  let newTrunkSize := (newTrunkSize size).toNat
  if size ≤ newTrunkSize then none else some (newTrunkSize + 2 ^ 32 - size)

def rtPoolLeft : List Nat → Option Nat
  | [] => none
  | size :: asked =>
    match rtPoolLeft asked with
    | none => trunkLeft size
    | some left => if size ≤ left then some (left - size) else trunkLeft size

-- The first block of such a trunk has all of it; what is cut from it later has nothing.
def rtPool : Serving := fun asked size =>
  match rtPoolLeft asked with
  | none => rtPoolAlloc size
  | some left => if size ≤ left then 0 else rtPoolAlloc size

theorem trunkLeftSmall {size : Nat} (small : size < 2147481600) : trunkLeft size = none := by
  have same : int32 ((size : Int) + 2048) = size + 2048 := int32Same (by omega) (by omega)
  refine if_pos ?_
  simp only [newTrunkSize, poolExtraSpace, poolGranu, same]
  split <;> omega

theorem rtPoolInOrder {asked : List Nat} (small : ∀ size ∈ asked, size < 2147481600) :
    rtPoolLeft asked = none := by
  induction asked with
  | nil => rfl
  | cons size asked ih =>
    obtain ⟨last, before⟩ := List.forall_mem_cons.mp small
    rw [rtPoolLeft, ih before]
    exact trunkLeftSmall last

theorem rtPoolAtMost (asked : List Nat) (size : Nat) : rtPool asked size ≤ rtPoolAlloc size := by
  unfold rtPool
  split
  · exact Nat.le_refl _
  · split
    · exact Nat.zero_le _
    · exact Nat.le_refl _

theorem rtPoolBound (asked : List Nat) (size : Nat) : rtPool asked size < 2147481600 :=
  Nat.lt_of_le_of_lt (rtPoolAtMost asked size) (rtPoolAllocBound size)

/- While every request is one that `alloc` serves in full, so are the next ones; no block is
longer than one that `alloc` serves, and none that it does not serve falls short by a little. -/
structure ServesAs (ppool : Serving) (alloc : Alloc) : Prop where
  serves : ∀ {asked size}, (∀ request ∈ asked, request ≤ alloc request) → size ≤ alloc size →
    size ≤ ppool asked size
  word : ∀ {size}, size ≤ alloc size → size < 2 ^ 32
  small : ∀ {size}, size ≤ 1073741824 → size ≤ alloc size
  bounds : ∀ asked {size} request, size ≤ ppool asked (request % 2 ^ 32) → size ≤ alloc size
  nearly : ∀ asked {request}, request ≤ ppool asked (request % 2 ^ 32) + 2048 → request ≤ alloc request

theorem requestedSteady : ServesAs requestedPool requested where
  serves _ served := served
  word {size} served := by
    have bound : size % 2 ^ 32 < 2 ^ 32 := Nat.mod_lt _ (by decide)
    exact Nat.lt_of_le_of_lt served bound
  small {size} small := by
    have same : size % 2 ^ 32 = size := Nat.mod_eq_of_lt (by omega)
    exact Nat.le_of_eq same.symm
  bounds _ {size} request within := by
    have bound : request % 2 ^ 32 % 2 ^ 32 < 2 ^ 32 := Nat.mod_lt _ (by decide)
    have same : size % 2 ^ 32 = size := Nat.mod_eq_of_lt (Nat.lt_of_le_of_lt within bound)
    exact Nat.le_of_eq same.symm
  nearly _ {request} close := by
    have same : request % 2 ^ 32 % 2 ^ 32 = request % 2 ^ 32 := Nat.mod_mod _ _
    simp only [requestedPool, requested, same] at close ⊢
    omega

theorem rtPoolSteady : ServesAs rtPool rtPoolAlloc where
  serves before served := by
    have order := rtPoolInOrder fun size member => rtPoolAllocServes.mp (before size member)
    rw [rtPool, order]
    exact served
  word served := by
    have small := rtPoolAllocServes.mp served
    omega
  small small := rtPoolAllocServes.mpr (by omega)
  bounds asked _ request within := by
    have bound := rtPoolBound asked (request % 2 ^ 32)
    exact rtPoolAllocServes.mpr (by omega)
  nearly asked {request} close := by
    have bound := rtPoolBound asked (request % 2 ^ 32)
    by_contra unserved
    have large := mt rtPoolAllocServes.mpr unserved
    have within := rtPoolAtMost asked (request % 2 ^ 32)
    rw [rtPoolAllocSize, Nat.mod_mod, if_neg (by omega)] at within
    omega

-- After a request for 2^32 - 40 bytes the next small block lies behind the end of its trunk.
example : rtPool [4294967256] 1 = 0 ∧ rtPool [4294967256] 2400 = 2400 := by decide

end Rushkit
