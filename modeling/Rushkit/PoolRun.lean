import Mathlib.Order.CompletePartialOrder
import Mathlib.Order.Interval.Set.Disjoint
import Rushkit.PoolTrunks

/-! Whole runs of the pool. What a run has handed out since its last reset lies in trunks
that are still there, and no two of the blocks share an address. -/
namespace Rushkit

inductive PoolOp where
  | alloc (size : Nat)
  | reset
  deriving DecidableEq, Repr

-- A pool with the blocks returned since it was last reset.
structure PoolRun where
  ppool : Pool
  blocks : List Block
  deriving DecidableEq, Repr

def poolStep (run : PoolRun) : PoolOp → Res PoolRun
  | .alloc size =>
    let (block, ppool) := rtPoolAllocIn run.ppool size
    .ok ⟨ppool, run.blocks ++ [block]⟩
  | .reset => do
    let ppool ← rtPoolReset run.ppool
    .ok ⟨ppool, []⟩

def runPool : PoolRun → List PoolOp → Res PoolRun
  | run, [] => .ok run
  | run, op :: ops => do
    let run ← poolStep run op
    runPool run ops

def freshPool (allocSpace : Int) : PoolRun := ⟨rtPoolInit allocSpace, []⟩

-- The sizes asked for since the last reset, `sizes` having been asked for before.
def outstanding (sizes : List Nat) : List PoolOp → List Nat
  | [] => sizes
  | .alloc size :: ops => outstanding (sizes ++ [size]) ops
  | .reset :: ops => outstanding [] ops

def span (start size : Nat) : Set Nat := Set.Ico start (start + size)

def Pool.Live (ppool : Pool) (i : Nat) (trunk : Trunk) : Prop :=
  i ∉ ppool.released ∧ ppool.trunks[i]? = some trunk

-- Where the trunks lie: two that are not released do not overlap, and nothing else is known.
def Placed (place : Nat → Nat) (ppool : Pool) : Prop :=
  ∀ i j trunk other, i ≠ j → ppool.Live i trunk → ppool.Live j other →
    Disjoint (span (place i) trunk.data) (span (place j) other.data)

def Block.addresses (block : Block) (place : Nat → Nat) : Set Nat :=
  span (place block.trunk + block.offset) block.size

def Apart (block other : Block) : Prop :=
  block.trunk = other.trunk → block.offset + block.size ≤ other.offset

structure Inside (ppool : Pool) (block : Block) : Prop where
  fits : ∃ trunk, ppool.Live block.trunk trunk ∧ block.offset + block.size ≤ trunk.data
  below : block.trunk = ppool.curr → block.offset + block.size ≤ ppool.currUsed

theorem addressesDisjoint {ppool : Pool} {block other : Block} (inside : Inside ppool block)
    (insideOther : Inside ppool other) (apart : Apart block other) {place : Nat → Nat}
    (placed : Placed place ppool) : Disjoint (block.addresses place) (other.addresses place) := by
  obtain ⟨trunk, live, fits⟩ := inside.fits
  obtain ⟨trunk', live', fits'⟩ := insideOther.fits
  by_cases same : block.trunk = other.trunk
  · have before := apart same
    rw [Block.addresses, Block.addresses, span, span, Set.Ico_disjoint_Ico, same]
    omega
  · refine (placed _ _ _ _ same live live').mono ?_ ?_ <;>
      exact Set.Ico_subset_Ico (Nat.le_add_right _ _) (by omega)

-- The trunks from `pTrunk` down to the root, which is not one of them.
inductive Linked (trunks : List Trunk) : Nat → List Nat → Prop where
  | root : Linked trunks 0 []
  | link {pTrunk p data : Nat} {rest : List Nat} (found : trunks[pTrunk]? = some ⟨some p, data⟩)
      (positive : 0 < pTrunk) (behind : Linked trunks p rest) :
      Linked trunks pTrunk (pTrunk :: rest)

theorem linkedAppend {trunks : List Trunk} {pTrunk : Nat} {chain : List Nat}
    (linked : Linked trunks pTrunk chain) (more : List Trunk) : Linked (trunks ++ more) pTrunk chain := by
  induction linked with
  | root => exact .root
  | link found positive behind ih =>
    have inside := (List.getElem?_eq_some_iff.mp found).1
    exact .link (by rw [List.getElem?_append_left inside, found]) positive ih

theorem resetLinked {trunks : List Trunk} {pTrunk : Nat} {chain : List Nat}
    (linked : Linked trunks pTrunk chain) {fuel : Nat} (enough : chain.length < fuel)
    (released : List Nat) : resetLoop trunks fuel pTrunk released = .ok (released ++ chain) := by
  induction linked generalizing fuel released with
  | root =>
    cases fuel with
    | zero => contradiction
    | succ fuel => rw [resetLoop, if_pos rfl, List.append_nil]
  | @link pTrunk p data rest found positive behind ih =>
    cases fuel with
    | zero => contradiction
    | succ fuel =>
      have next := ih (Nat.lt_of_succ_lt_succ enough) (released ++ [pTrunk])
      rw [resetLoop, if_neg (Nat.ne_of_gt positive), found]
      dsimp only
      rw [next, List.append_assoc, List.singleton_append]

structure Accounted (run : PoolRun) (chain : List Nat) : Prop where
  sound : SoundPool run.ppool
  linked : Linked run.ppool.trunks run.ppool.curr chain
  released : (run.ppool.released ++ chain).Perm (List.range' 1 (run.ppool.trunks.length - 1))
  inside : ∀ block ∈ run.blocks, Inside run.ppool block
  apart : run.blocks.Pairwise Apart

theorem accountedInit (allocSpace : Int) : Accounted (freshPool allocSpace) [] where
  sound := soundInit allocSpace
  linked := .root
  released := .refl []
  inside := by
    intro block none
    cases none
  apart := .nil

theorem currentLive {run : PoolRun} {chain : List Nat} (accounted : Accounted run chain) :
    ∃ prev, run.ppool.Live run.ppool.curr ⟨prev, run.ppool.currCapacity⟩ := by
  obtain ⟨prev, current⟩ := accounted.sound.current
  refine ⟨prev, ?_, current⟩
  intro released
  have nodup := accounted.released.nodup_iff.mpr List.nodup_range'
  have linked := accounted.linked
  generalize run.ppool.curr = curr at linked released
  cases linked with
  | root =>
    have member := accounted.released.mem_iff.mp (List.mem_append_left [] released)
    rw [List.mem_range'_1] at member
    omega
  | @link _ p data rest found positive behind =>
    exact (List.nodup_append.mp nodup).2.2 curr released curr List.mem_cons_self rfl

section Alloc
variable {run : PoolRun} {chain : List Nat} (accounted : Accounted run chain) {size : Nat}
  (small : size < 2147481600)
include accounted small

theorem allocFits (fits : size ≤ run.ppool.currCapacity - run.ppool.currUsed) :
    rtPoolAllocIn run.ppool size = (⟨run.ppool.curr, run.ppool.currUsed, size⟩,
      { run.ppool with
        usedSize := int32 (run.ppool.usedSize + size)
        currUsed := run.ppool.currUsed + size }) := by
  have left := roomLeft accounted.sound
  have used := accounted.sound.used
  have int := accounted.sound.int
  have word : size % 2 ^ 32 = size := Nat.mod_eq_of_lt (by omega)
  have sum : (run.ppool.currUsed + size) % 2 ^ 32 = run.ppool.currUsed + size := Nat.mod_eq_of_lt (by omega)
  rw [rtPoolAllocIn]
  dsimp only
  rw [left, word, if_pos fits, sum]

theorem allocOpens (full : ¬ size ≤ run.ppool.currCapacity - run.ppool.currUsed) :
    rtPoolAllocIn run.ppool size = (⟨run.ppool.trunks.length, 0, size⟩,
      { run.ppool with
        usedSize := int32 (run.ppool.usedSize + size)
        allocSpace := int32 (run.ppool.allocSpace + (size + 2048))
        trunks := run.ppool.trunks ++ [⟨some run.ppool.curr, size + 2048⟩]
        currUsed := size
        currCapacity := size + 2048
        curr := run.ppool.trunks.length }) := by
  have left := roomLeft accounted.sound
  have word : size % 2 ^ 32 = size := Nat.mod_eq_of_lt (by omega)
  have trunk : ((size : Int) + 2048).toNat = size + 2048 := by omega
  rw [rtPoolAllocIn]
  dsimp only
  rw [left, word, if_neg full, newTrunkSizeSmall small, trunk]

theorem accountedFits (fits : size ≤ run.ppool.currCapacity - run.ppool.currUsed) :
    Accounted ⟨(rtPoolAllocIn run.ppool size).2, run.blocks ++ [(rtPoolAllocIn run.ppool size).1]⟩ chain := by
  have sound := soundAlloc accounted.sound size (lt_of_le_of_lt (Nat.mod_le _ _) small)
  obtain ⟨prev, current⟩ := currentLive accounted
  have used := accounted.sound.used
  rw [allocFits accounted small fits] at sound ⊢
  refine ⟨sound, accounted.linked, accounted.released, ?_, ?_⟩
  · intro block member
    rcases List.mem_append.mp member with old | new
    · have inside := accounted.inside block old
      exact ⟨inside.fits, fun here => Nat.le_add_right_of_le (inside.below here)⟩
    · cases List.mem_singleton.mp new
      exact ⟨⟨_, current, by dsimp only; omega⟩, fun _ => Nat.le_refl _⟩
  · refine List.pairwise_append.mpr ⟨accounted.apart, List.pairwise_singleton _ _, ?_⟩
    intro block old new member here
    cases List.mem_singleton.mp member
    exact (accounted.inside block old).below here

theorem accountedOpens (full : ¬ size ≤ run.ppool.currCapacity - run.ppool.currUsed) :
    Accounted ⟨(rtPoolAllocIn run.ppool size).2, run.blocks ++ [(rtPoolAllocIn run.ppool size).1]⟩
      (run.ppool.trunks.length :: chain) := by
  have sound := soundAlloc accounted.sound size (lt_of_le_of_lt (Nat.mod_le _ _) small)
  have root := (List.getElem?_eq_some_iff.mp accounted.sound.root).1
  have fresh : run.ppool.trunks.length ∉ run.ppool.released := by
    intro released
    have member := accounted.released.mem_iff.mp (List.mem_append_left chain released)
    rw [List.mem_range'_1] at member
    omega
  have older (block : Block) (old : block ∈ run.blocks) : block.trunk ≠ run.ppool.trunks.length := by
    obtain ⟨trunk, live, _⟩ := (accounted.inside block old).fits
    exact Nat.ne_of_lt (List.getElem?_eq_some_iff.mp live.2).1
  rw [allocOpens accounted small full] at sound ⊢
  refine ⟨sound, .link List.getElem?_concat_length root (linkedAppend accounted.linked _), ?_, ?_, ?_⟩
  · have count : (run.ppool.trunks ++ [(⟨some run.ppool.curr, size + 2048⟩ : Trunk)]).length - 1 =
        run.ppool.trunks.length - 1 + 1 := by
      rw [List.length_append, List.length_singleton]
      omega
    have last : 1 + (run.ppool.trunks.length - 1) = run.ppool.trunks.length := by omega
    rw [count, List.range'_1_concat, last]
    exact List.perm_middle.trans ((accounted.released.cons _).trans (List.perm_append_singleton _ _).symm)
  · intro block member
    rcases List.mem_append.mp member with old | new
    · obtain ⟨trunk, live, fits⟩ := (accounted.inside block old).fits
      have inside := (List.getElem?_eq_some_iff.mp live.2).1
      refine ⟨⟨trunk, ⟨live.1, ?_⟩, fits⟩, fun here => absurd here (older block old)⟩
      dsimp only
      rw [List.getElem?_append_left inside]
      exact live.2
    · cases List.mem_singleton.mp new
      refine ⟨⟨_, ⟨fresh, List.getElem?_concat_length⟩, ?_⟩, fun _ => ?_⟩ <;>
        dsimp only <;> omega
  · refine List.pairwise_append.mpr ⟨accounted.apart, List.pairwise_singleton _ _, ?_⟩
    intro block old new member here
    cases List.mem_singleton.mp member
    exact absurd here (older block old)

theorem accountedAlloc : (rtPoolAllocIn run.ppool size).1.size = size ∧
    ∃ chain, Accounted
      ⟨(rtPoolAllocIn run.ppool size).2, run.blocks ++ [(rtPoolAllocIn run.ppool size).1]⟩ chain := by
  by_cases fits : size ≤ run.ppool.currCapacity - run.ppool.currUsed
  · exact ⟨by rw [allocFits accounted small fits], _, accountedFits accounted small fits⟩
  · exact ⟨by rw [allocOpens accounted small fits], _, accountedOpens accounted small fits⟩

end Alloc

-- What `rt_pool_init` sets, with every trunk but the root released exactly once.
structure Restored (ppool after : Pool) : Prop where
  curr : after.curr = (rtPoolInit after.allocSpace).curr
  currUsed : after.currUsed = (rtPoolInit after.allocSpace).currUsed
  currCapacity : after.currCapacity = (rtPoolInit after.allocSpace).currCapacity
  usedSize : after.usedSize = (rtPoolInit after.allocSpace).usedSize
  trunks : after.trunks = ppool.trunks
  released : after.released.Perm (List.range' 1 (ppool.trunks.length - 1))

theorem accountedReset {run : PoolRun} {chain : List Nat} (accounted : Accounted run chain) :
    ∃ after, rtPoolReset run.ppool = .ok after ∧ Restored run.ppool after ∧ Accounted ⟨after, []⟩ [] := by
  have count := accounted.released.length_eq
  rw [List.length_append, List.length_range'] at count
  have enough : chain.length < run.ppool.trunks.length + 1 := by omega
  have loop := resetLinked accounted.linked enough run.ppool.released
  have done : rtPoolReset run.ppool = .ok { run.ppool with
      released := run.ppool.released ++ chain
      currUsed := 0
      currCapacity := 2048
      curr := 0
      allocSpace := 2048
      usedSize := 0 } := by rw [rtPoolReset, loop, Fallible.okBind]
  refine ⟨_, done, ⟨rfl, rfl, rfl, rfl, rfl, accounted.released⟩,
    ⟨soundReset accounted.sound done, .root, ?_, ?_, .nil⟩⟩
  · rw [List.append_nil]
    exact accounted.released
  · intro block none
    cases none

theorem accountedStep {run : PoolRun} {chain : List Nat} (accounted : Accounted run chain) (op : PoolOp)
    (small : ∀ size, op = .alloc size → size < 2147481600) :
    ∃ next chain, poolStep run op = .ok next ∧ Accounted next chain ∧
      next.blocks.map Block.size = outstanding (run.blocks.map Block.size) [op] := by
  cases op with
  | alloc size =>
    obtain ⟨same, chain, after⟩ := accountedAlloc accounted (small size rfl)
    refine ⟨⟨_, run.blocks ++ [(rtPoolAllocIn run.ppool size).1]⟩, chain, rfl, after, ?_⟩
    dsimp only
    rw [List.map_append, List.map_singleton, same]
    rfl
  | reset =>
    obtain ⟨after, done, _, accounted'⟩ := accountedReset accounted
    refine ⟨⟨after, []⟩, [], ?_, accounted', rfl⟩
    rw [poolStep, done, Fallible.okBind]

theorem outstandingCons (sizes : List Nat) (op : PoolOp) (ops : List PoolOp) :
    outstanding sizes (op :: ops) = outstanding (outstanding sizes [op]) ops := by
  cases op <;> rfl

theorem accountedRun (ops : List PoolOp) (small : ∀ size, .alloc size ∈ ops → size < 2147481600)
    {run : PoolRun} {chain : List Nat} (accounted : Accounted run chain) :
    ∃ last chain, runPool run ops = .ok last ∧ Accounted last chain ∧
      last.blocks.map Block.size = outstanding (run.blocks.map Block.size) ops := by
  induction ops generalizing run chain with
  | nil => exact ⟨run, chain, rfl, accounted, rfl⟩
  | cons op ops ih =>
    obtain ⟨next, chain, step, accounted, sizes⟩ := accountedStep accounted op
      (fun size same => small size (same ▸ List.mem_cons_self))
    obtain ⟨last, chain, later, accounted, rest⟩ :=
      ih (fun size member => small size (List.mem_cons_of_mem op member)) accounted
    refine ⟨last, chain, ?_, accounted, ?_⟩
    · rw [runPool, step, Fallible.okBind, later]
    · rw [rest, sizes, ← outstandingCons]

-- One step along `prev`.
def Before (trunks : List Trunk) (pTrunk p : Nat) : Prop :=
  ∃ data, trunks[pTrunk]? = some ⟨some p, data⟩

theorem linkedReaches {trunks : List Trunk} {pTrunk : Nat} {chain : List Nat}
    (linked : Linked trunks pTrunk chain) : Relation.ReflTransGen (Before trunks) pTrunk 0 := by
  induction linked with
  | root => exact .refl
  | link found positive behind ih => exact .head ⟨_, found⟩ ih

structure PoolSafe (run : PoolRun) (sizes : List Nat) : Prop where
  used : run.ppool.currUsed ≤ run.ppool.currCapacity
  capacity : ∃ prev, run.ppool.Live run.ppool.curr ⟨prev, run.ppool.currCapacity⟩
  sizes : run.blocks.map Block.size = sizes
  inside : ∀ block ∈ run.blocks, ∃ trunk, run.ppool.Live block.trunk trunk ∧
    block.offset + block.size ≤ trunk.data
  disjoint : ∀ place, Placed place run.ppool →
    run.blocks.Pairwise fun block other => Disjoint (block.addresses place) (other.addresses place)
  rooted : Relation.ReflTransGen (Before run.ppool.trunks) run.ppool.curr 0
  reset : ∃ after, rtPoolReset run.ppool = .ok after ∧ Restored run.ppool after

theorem accountedSafe {run : PoolRun} {chain : List Nat} (accounted : Accounted run chain) :
    PoolSafe run (run.blocks.map Block.size) where
  used := accounted.sound.used
  capacity := currentLive accounted
  sizes := rfl
  inside block member := (accounted.inside block member).fits
  disjoint place placed := accounted.apart.imp_of_mem fun member member' apart =>
    addressesDisjoint (accounted.inside _ member) (accounted.inside _ member') apart placed
  rooted := linkedReaches accounted.linked
  reset := by
    obtain ⟨after, done, restored, _⟩ := accountedReset accounted
    exact ⟨after, done, restored⟩

theorem poolRun (allocSpace : Int) (ops : List PoolOp)
    (small : ∀ size, .alloc size ∈ ops → size < 2147481600) :
    ∃ run, runPool (freshPool allocSpace) ops = .ok run ∧ PoolSafe run (outstanding [] ops) := by
  obtain ⟨run, chain, runs, accounted, sizes⟩ := accountedRun ops small (accountedInit allocSpace)
  have safe := accountedSafe accounted
  rw [sizes] at safe
  exact ⟨run, runs, safe⟩

theorem poolRunLarge : ∃ run, runPool (freshPool 0) [.alloc 2000, .alloc 100, .reset, .alloc 5000] = .ok run ∧
    PoolSafe run [5000] :=
  poolRun 0 _ (by
    intro size member
    simp at member
    omega)

end Rushkit
