import Rushkit.AmfMemory

/-! The blocks that `rt_pool_alloc` cuts, as extents of memory. The bytes of its own that a
block has are apart from those of every block before it. -/
namespace Rushkit.Amf.Raw
open ByteMemory

namespace Process
variable {process : Process} {trunks more : List Trunk} {p n k m : Nat}

theorem hasPart (has : process.Has trunks p n) (fits : k + m ≤ n) : process.Has trunks (p + k) m := by
  rcases has with none | above | ⟨t, member, low, high⟩
  · exact .inl (by omega)
  · exact .inr (.inl (by omega))
  · exact .inr (.inr ⟨t, member, by omega, by omega⟩)

theorem hasRest (has : process.Has trunks p n) : process.Has trunks (p + k) (n - k) := by
  by_cases more : k ≤ n
  · exact hasPart has (by omega)
  · exact .inl (by omega)

theorem hasFront (has : process.Has trunks p n) (less : m ≤ n) : process.Has trunks p m :=
  hasPart (k := 0) has (by omega)

theorem trunkMore (grown : trunks <+: more) {t : Trunk × Nat} (member : t ∈ trunks.zipIdx) : t ∈ more.zipIdx := by
  obtain ⟨rest, rfl⟩ := grown
  rw [List.zipIdx_append]
  exact List.mem_append_left _ member

theorem hasMore (grown : trunks <+: more) (has : process.Has trunks p n) : process.Has more p n := by
  rcases has with none | above | ⟨⟨t, i⟩, member, inside⟩
  · exact .inl none
  · exact .inr (.inl above)
  · exact .inr (.inr ⟨⟨t, i⟩, trunkMore grown member, inside⟩)

-- The addresses of the trunks.
def Reaches (process : Process) (trunks : List Trunk) : Set Nat :=
  {a | ∃ t ∈ trunks.zipIdx, a ∈ extent (process.place t.2) t.1.data}

theorem reachesBelow (placed : process.Placed trunks) {a : Nat} (inside : a ∈ process.Reaches trunks) :
    a < process.stack := by
  obtain ⟨t, member, part⟩ := inside
  have below := placed.1 t member
  rw [extentMem] at part
  omega

theorem reachesMore (grown : trunks <+: more) : process.Reaches trunks ⊆ process.Reaches more := by
  rintro a ⟨⟨t, i⟩, member, part⟩
  exact ⟨⟨t, i⟩, trunkMore grown member, part⟩

end Process

/- `S` are the bytes in use. What the current trunk has left is none of them, unless its
counters have run past its end. -/
structure Stands (process : Process) (ppool : Pool) (asked : List Nat) (S : Set Nat) : Prop where
  placed : process.Placed ppool.trunks
  current : ∃ prev, ppool.trunks[ppool.curr]? = some ⟨prev, ppool.currCapacity⟩
  int : ppool.currCapacity < 2 ^ 31
  inside : S ⊆ process.Reaches ppool.trunks
  left : match rtPoolLeft asked with
    | none => ppool.currUsed ≤ ppool.currCapacity ∧ ppool.currCapacity ≤ ppool.currUsed + 2048 ∧
        Disjoint S (extent (process.place ppool.curr + ppool.currUsed) (ppool.currCapacity - ppool.currUsed))
    | some left => ppool.currUsed < 2 ^ 32 ∧
        left = (ppool.currCapacity + 2 ^ 32 - ppool.currUsed) % 2 ^ 32

/- A block with its address: `own` bytes that nothing used before. -/
structure Cut (process : Process) (before after : Pool) (asked : List Nat) (S : Set Nat) (p own : Nat) : Prop where
  grown : before.trunks <+: after.trunks
  stands : Stands process after asked (S ∪ extent p own)
  apart : Disjoint S (extent p own)
  has : process.Has after.trunks p own
  address : p < 2 ^ 64

section Alloc
variable {process : Process} {ppool : Pool} {asked : List Nat} {S : Set Nat}

theorem trunkSizeCases {size : Nat} (word : size < 2 ^ 32) :
    size < 2147481600 ∧ (newTrunkSize size).toNat = size + 2048 ∨
      2147481600 ≤ size ∧ (newTrunkSize size).toNat = 2048 := by
  by_cases small : size < 2147481600
  · rw [newTrunkSizeSmall small]
    exact .inl ⟨small, by omega⟩
  · have wrapped : int32 ((size : Int) + 2048) < 2048 := by
      rw [int32, Int.bmod_def]
      omega
    have same : newTrunkSize size = 2048 := by
      simp only [newTrunkSize, poolExtraSpace, poolGranu]
      exact if_pos wrapped
    rw [same]
    exact .inr ⟨by omega, rfl⟩

theorem freshTrunk {new : Trunk} (inside : S ⊆ process.Reaches ppool.trunks)
    (placed : process.Placed (ppool.trunks ++ [new])) :
    Disjoint S (extent (process.place ppool.trunks.length) new.data) := by
  have apart := placed.2
  rw [List.zipIdx_append, List.pairwise_append] at apart
  refine Set.disjoint_left.mpr fun a old part => ?_
  obtain ⟨t, member, there⟩ := inside old
  have either := apart.2.2 t member (new, 0 + ppool.trunks.length) (List.mem_singleton.mpr rfl)
  simp only [Nat.zero_add, extentMem] at either part there
  omega

-- A trunk that is opened for a block.
theorem cutNew {size : Nat} (word : size < 2 ^ 32) (stands : Stands process ppool asked S)
    (opens : rtPoolLeft (size :: asked) = trunkLeft size) {after : Pool}
    (trunks : after.trunks = ppool.trunks ++ [⟨some ppool.curr, (newTrunkSize size).toNat⟩])
    (curr : after.curr = ppool.trunks.length) (used : after.currUsed = size)
    (capacity : after.currCapacity = (newTrunkSize size).toNat) (placed : process.Placed after.trunks) :
    Cut process ppool after (size :: asked) S (process.place ppool.trunks.length) (rtPoolAlloc size) := by
  have cases := trunkSizeCases word
  have own : rtPoolAlloc size = min size (newTrunkSize size).toNat := by
    rw [rtPoolAlloc, Nat.mod_eq_of_lt word]
  have room : trunkLeft size =
      if size ≤ (newTrunkSize size).toNat then none else some ((newTrunkSize size).toNat + 2 ^ 32 - size) := rfl
  rw [room] at opens
  generalize (newTrunkSize size).toNat = data at cases own trunks capacity opens
  have apart : Disjoint S (extent _ data) := freshTrunk stands.inside (trunks ▸ placed)
  have found : after.trunks[after.curr]? = some ⟨some ppool.curr, data⟩ := by
    rw [trunks, curr, List.getElem?_concat_length]
  have member : (⟨⟨some ppool.curr, data⟩, after.curr⟩ : Trunk × Nat) ∈ after.trunks.zipIdx :=
    List.mem_zipIdx_iff_getElem?.mpr found
  have grown : ppool.trunks <+: after.trunks := ⟨_, trunks.symm⟩
  have below := placed.1 _ member
  have part : extent (process.place ppool.trunks.length) (rtPoolAlloc size) ⊆
      extent (process.place ppool.trunks.length) data :=
    extentPart (k := 0) (by omega)
  dsimp only at below
  rw [curr] at below member
  have low := process.low
  refine ⟨grown, ⟨placed, ⟨_, capacity ▸ found⟩, by omega, ?_, ?_⟩, apart.mono_right part, ?_, by omega⟩
  · exact Set.union_subset (stands.inside.trans (Process.reachesMore grown)) fun a fresh => ⟨_, member, part fresh⟩
  · rw [opens, used, capacity, curr]
    split
    · rename_i none
      split at none
      · rename_i fits
        refine ⟨fits, by omega, Set.disjoint_union_left.mpr ⟨apart.mono_right (extentPart (by omega)), ?_⟩⟩
        refine Set.disjoint_left.mpr fun a fresh rest => ?_
        rw [extentMem] at fresh rest
        omega
      · cases none
    · rename_i left some
      split at some
      · cases some
      · cases some
        exact ⟨word, by omega⟩
  · exact .inr (.inr ⟨_, member, by dsimp only; omega, by dsimp only; omega⟩)

-- A block from what the current trunk has left.
theorem cutFits {size : Nat} (stands : Stands process ppool asked S) (order : rtPoolLeft asked = none)
    (fits : size ≤ ppool.currCapacity - ppool.currUsed) {after : Pool} (trunks : after.trunks = ppool.trunks)
    (curr : after.curr = ppool.curr) (used : after.currUsed = ppool.currUsed + size)
    (capacity : after.currCapacity = ppool.currCapacity) :
    Cut process ppool after (size :: asked) S (process.place ppool.curr + ppool.currUsed) size := by
  have left := stands.left
  rw [order] at left
  obtain ⟨within, slack, free⟩ := left
  obtain ⟨prev, found⟩ := stands.current
  have member : (⟨⟨prev, ppool.currCapacity⟩, ppool.curr⟩ : Trunk × Nat) ∈ ppool.trunks.zipIdx :=
    List.mem_zipIdx_iff_getElem?.mpr found
  have below := stands.placed.1 _ member
  have low := process.low
  have int := stands.int
  have part : extent (process.place ppool.curr + ppool.currUsed) size ⊆
      extent (process.place ppool.curr + ppool.currUsed) (ppool.currCapacity - ppool.currUsed) := extentFront fits
  dsimp only at below
  refine ⟨trunks ▸ List.prefix_rfl, ⟨trunks ▸ stands.placed, ⟨prev, ?_⟩, by omega, ?_, ?_⟩, free.mono_right part, ?_,
    by omega⟩
  · rw [trunks, curr, capacity]
    exact found
  · rw [trunks]
    refine Set.union_subset stands.inside fun a fresh => ⟨_, member, ?_⟩
    rw [extentMem] at fresh ⊢
    dsimp only
    omega
  · rw [rtPoolLeft, order, trunkLeftSmall (by omega), used, capacity, curr]
    refine ⟨by omega, by omega, Set.disjoint_union_left.mpr ⟨free.mono_right fun a rest => ?_, ?_⟩⟩
    · rw [extentMem] at rest ⊢
      omega
    · exact extentsApart (.inl (by omega))
  · rw [trunks]
    exact .inr (.inr ⟨_, member, by dsimp only; omega, by dsimp only; omega⟩)

-- Where the counters have run past the end, a block has nothing of its own.
theorem cutNothing {size left : Nat} (stands : Stands process ppool asked S) (order : rtPoolLeft asked = some left)
    (fits : size ≤ left) {after : Pool} (trunks : after.trunks = ppool.trunks) (curr : after.curr = ppool.curr)
    (used : after.currUsed = (ppool.currUsed + size) % 2 ^ 32) (capacity : after.currCapacity = ppool.currCapacity) :
    Cut process ppool after (size :: asked) S (process.place ppool.curr + ppool.currUsed) 0 := by
  have past := stands.left
  rw [order] at past
  obtain ⟨word, same⟩ := past
  obtain ⟨prev, found⟩ := stands.current
  have below := stands.placed.1 _ (List.mem_zipIdx_iff_getElem?.mpr found : (_, ppool.curr) ∈ ppool.trunks.zipIdx)
  have low := process.low
  have int := stands.int
  have goesOn : rtPoolLeft (size :: asked) = some (left - size) := by
    rw [rtPoolLeft, order]
    exact if_pos fits
  dsimp only at below
  refine ⟨trunks ▸ List.prefix_rfl, ⟨trunks ▸ stands.placed, ⟨prev, ?_⟩, by omega, ?_, ?_⟩, ?_, .inl rfl, by omega⟩
  · rw [trunks, curr, capacity]
    exact found
  · rw [extentNone, Set.union_empty, trunks]
    exact stands.inside
  · rw [goesOn, used, capacity]
    dsimp only
    omega
  · rw [extentNone]
    exact Set.disjoint_empty S

theorem allocCut (stands : Stands process ppool asked S) (size : Nat)
    (placed : process.Placed (rtPoolAllocIn ppool size).2.trunks) :
    Cut process ppool (rtPoolAllocIn ppool size).2 (size % 2 ^ 32 :: asked) S
      (process.place (rtPoolAllocIn ppool size).1.trunk + (rtPoolAllocIn ppool size).1.offset)
      (rtPool asked (size % 2 ^ 32)) := by
  have word : size % 2 ^ 32 < 2 ^ 32 := Nat.mod_lt _ (by decide)
  have left := stands.left
  have int := stands.int
  unfold rtPoolAllocIn at placed ⊢
  dsimp only at placed ⊢
  generalize size % 2 ^ 32 = size at word placed ⊢
  rw [rtPool]
  cases order : rtPoolLeft asked with
  | none =>
    rw [order] at left
    by_cases fits : size ≤ (ppool.currCapacity + 2 ^ 32 - ppool.currUsed) % 2 ^ 32
    · have room : size ≤ ppool.currCapacity - ppool.currUsed := by omega
      have whole : rtPoolAlloc size = size := by
        rw [rtPoolAllocSize, Nat.mod_eq_of_lt word, if_pos (by omega)]
      rw [if_pos fits]
      dsimp only
      rw [whole]
      refine cutFits stands order room ?_ ?_ ?_ ?_
      · dsimp only
      · dsimp only
      · exact Nat.mod_eq_of_lt (by omega)
      · dsimp only
    · rw [if_neg fits] at placed ⊢
      refine cutNew word stands (by rw [rtPoolLeft, order]) ?_ ?_ ?_ ?_ placed
      all_goals dsimp only
  | some left' =>
    rw [order] at left
    obtain ⟨used, rfl⟩ := left
    by_cases fits : size ≤ (ppool.currCapacity + 2 ^ 32 - ppool.currUsed) % 2 ^ 32
    · rw [if_pos fits]
      dsimp only
      rw [if_pos fits]
      refine cutNothing stands order fits ?_ ?_ ?_ ?_
      all_goals dsimp only
    · have opens : rtPoolLeft (size :: asked) = trunkLeft size := by
        rw [rtPoolLeft, order]
        exact if_neg fits
      rw [if_neg fits] at placed ⊢
      dsimp only
      rw [if_neg fits]
      refine cutNew word stands opens ?_ ?_ ?_ ?_ placed
      all_goals dsimp only

end Alloc

end Rushkit.Amf.Raw
