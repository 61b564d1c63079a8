import Rushkit.AmfStore
import Rushkit.WriteGrowth

/-! The write buffer in the blocks it lies in (`buffer.c`): `rtmp_wb_init` and every regrowth take
one from the pool, which may hand out a shorter one than they ask for. -/
namespace Rushkit
open Amf Splice

/-- `current` is the offset of the pointer in the block. -/
structure BlockBuffer where
  buf : Bytes
  current : Nat
  capacity : Int
  inside : current ≤ buf.length

def rtmpWbInitAt (pool : PoolBlocks) (capacity : Int) : BlockBuffer :=
  ⟨pool.block (unsignedInt capacity), 0, capacity, Nat.zero_le _⟩

namespace BlockBuffer

def value (pb : BlockBuffer) : Bytes := pb.buf.take pb.current

-- `memcpy(current, data, len)` and `current += len`
def store (pb : BlockBuffer) (data : Bytes) : Res BlockBuffer :=
  if room : pb.current + data.length ≤ pb.buf.length then
    .ok { pb with
      buf := splice pb.buf pb.current data
      current := pb.current + data.length
      inside := by rw [spliceLength room]; exact room }
  else .error .overWrite

-- What the model of the buffer without its blocks keeps of it.
def view (pb : BlockBuffer) : WriteBuffer UInt8 := ⟨pb.value, pb.current, pb.capacity⟩

end BlockBuffer

def rtmpWbLengthAt (pb : BlockBuffer) : Int := pb.current

def rtmpWbGetValueAt (pb : BlockBuffer) : Bytes × Int := (pb.value, pb.current)

section Writers
variable (pool : PoolBlocks) (pb : BlockBuffer)

def rtmpWbWriteAt (data : Bytes) : Res BlockBuffer := do
  let need := int32 (rtmpWbLengthAt pb + data.length)
  let newCap ← wbCapacity pb.capacity need
  -- The bytes so far are copied into the new block.
  let pb ← if need > pb.capacity then (rtmpWbInitAt pool newCap).store pb.value else .ok pb
  pb.store data

def rtmpWbWriteShortAt (src : Int) : Res BlockBuffer :=
  rtmpWbWriteAt pool pb (loadData (hostBytes 2 (BitVec.ofInt 16 src)))

def rtmpWbWriteReverseIntAt (src : Int) : Res BlockBuffer :=
  rtmpWbWriteAt pool pb (loadDataReverse (hostBytes 4 (BitVec.ofInt 32 src)))

def rtmpWbWriteIntAt (src : Int) : Res BlockBuffer :=
  rtmpWbWriteAt pool pb (loadData (hostBytes 4 (BitVec.ofInt 32 src)))

def rtmpWbWriteByteAt (src : UInt8) : Res BlockBuffer := rtmpWbWriteAt pool pb [src]

def rtmpWbWriteDoubleAt (src : BitVec 64) : Res BlockBuffer :=
  rtmpWbWriteAt pool pb (loadData (hostBytes 8 src))

def rtmpWbWriteMediumIntAt (e : Int) : Res BlockBuffer := rtmpWbWriteAt pool pb (mediumBytes e)

def rtmpWbWriteStringAt (str : Bytes) : Res BlockBuffer := do
  let pb ← rtmpWbWriteShortAt pool pb str.length
  rtmpWbWriteAt pool pb str

end Writers

/-- `cap` is `first` doubled as often as it takes to hold `need`. -/
def DoubledTo (first cap need : Int) : Prop :=
  ∃ j : Nat, cap = first * 2 ^ j ∧ need ≤ cap ∧ ∀ i < j, first * 2 ^ i < need

theorem doubledEnough {first need : Int} (enough : need ≤ first) : DoubledTo first first need :=
  ⟨0, (Int.mul_one first).symm, enough, fun _ none => absurd none (Nat.not_lt_zero _)⟩

theorem doubledOnce {first cap need : Int} (more : first < need) (h : DoubledTo (first * 2) cap need) :
    DoubledTo first cap need := by
  obtain ⟨j, same, enough, short⟩ := h
  refine ⟨j+1, by rw [same, doubledPower], enough, fun i before => ?_⟩
  cases i with
  | zero => rw [Int.pow_zero, Int.mul_one]; exact more
  | succ i => rw [← doubledPower]; exact short i (by omega)

theorem doubledFurther {first cap cap' used need : Int} (h : DoubledTo first cap used)
    (more : used ≤ need) (h' : DoubledTo cap cap' need) : DoubledTo first cap' need := by
  obtain ⟨j, same, _, short⟩ := h
  obtain ⟨k, same', enough, short'⟩ := h'
  have split (l : Nat) : cap * 2 ^ l = first * 2 ^ (j + l) := by rw [same, Int.pow_add, Int.mul_assoc]
  refine ⟨j + k, by rw [same', split], enough, fun i before => ?_⟩
  rcases Nat.lt_or_ge i j with early | late
  · exact (short i early).trans_le more
  · obtain ⟨l, rfl⟩ := Nat.exists_eq_add_of_le late
    rw [← split]
    exact short' l (by omega)

theorem doubledHolds {first cap need : Int} (h : DoubledTo first cap need) : need ≤ cap := by
  obtain ⟨_, _, enough, _⟩ := h
  exact enough

theorem doubledPositive {first cap need : Int} (positive : 0 < first) (h : DoubledTo first cap need) :
    0 < cap := by
  obtain ⟨j, rfl, _, _⟩ := h
  exact Int.mul_pos positive (Int.pow_pos (by decide))

theorem growCapacityDoubled {need : Int} (bound : need ≤ 1073741824) (fuel : Nat) {newCap cap : Int}
    (positive : 0 < newCap) (h : growCapacity fuel need newCap = some cap) : DoubledTo newCap cap need := by
  induction fuel generalizing newCap with
  | zero => cases h
  | succ fuel ih =>
    rw [growCapacity] at h
    split at h
    · rename_i more
      have double : int32 (newCap * 2) = newCap * 2 := int32Same (by omega) (by omega)
      rw [double] at h
      exact doubledOnce more (ih (by omega) h)
    · cases Option.some.inj h
      exact doubledEnough (by omega)

theorem wbCapacityDoubled {capacity need : Int} (positive : 0 < capacity) (bound : need ≤ 1073741824) :
    ∃ cap, wbCapacity capacity need = .ok cap ∧ DoubledTo capacity cap need := by
  obtain ⟨cap, chosen, _, _⟩ := wbCapacityRoom need positive bound
  refine ⟨cap, chosen, ?_⟩
  rw [wbCapacityLoop] at chosen
  cases found : growCapacity (growFuel + 1) need capacity with
  | none =>
    rw [found] at chosen
    cases chosen
  | some grown =>
    rw [found] at chosen
    cases Except.ok.inj chosen
    exact growCapacityDoubled bound _ positive found

theorem wholeInit (pool : PoolBlocks) (capacity : Int) :
    (rtmpWbInitAt pool capacity).buf.length = rtPoolAlloc (unsignedInt capacity) := pool.length _

theorem storeFits {pb : BlockBuffer} {data : Bytes} (room : pb.current + data.length ≤ pb.buf.length) :
    ∃ pb', pb.store data = .ok pb' ∧ pb'.view = ⟨pb.value ++ data, pb.current + data.length, pb.capacity⟩ ∧
      pb'.buf.length = pb.buf.length := by
  refine ⟨_, dif_pos room, ?_, spliceLength room⟩
  simp only [BlockBuffer.view, BlockBuffer.value, spliceTake room]

theorem storeLarge {pb : BlockBuffer} {data : Bytes} (large : ¬ pb.current + data.length ≤ pb.buf.length) :
    pb.store data = .error .overWrite := dif_neg large

theorem valueLength (pb : BlockBuffer) : pb.value.length = pb.current := List.length_take_of_le pb.inside

/- `data` went behind the value of `pb` at capacity `cap`, as long as the block that the pool hands
out for it holds both. -/
structure Serves (result : Res BlockBuffer) (pb : BlockBuffer) (data : Bytes) (cap : Int) : Prop where
  fits : pb.current + data.length ≤ rtPoolAlloc (unsignedInt cap) → ∃ pb', result = .ok pb' ∧
    pb'.view = ⟨pb.value ++ data, pb.current + data.length, cap⟩ ∧
    pb'.buf.length = rtPoolAlloc (unsignedInt cap)
  overruns : ¬ pb.current + data.length ≤ rtPoolAlloc (unsignedInt cap) → result = .error .overWrite

theorem servesStore {pb : BlockBuffer} (whole : pb.buf.length = rtPoolAlloc (unsignedInt pb.capacity))
    (data : Bytes) : Serves (pb.store data) pb data pb.capacity := by
  constructor
  · intro fits
    obtain ⟨pb', stored, view, length⟩ := storeFits (fits.trans whole.ge)
    exact ⟨pb', stored, view, length.trans whole⟩
  · intro large
    exact storeLarge (whole ▸ large)

theorem servesRegrown (pool : PoolBlocks) (pb : BlockBuffer) (data : Bytes) (newCap : Int) :
    Serves ((rtmpWbInitAt pool newCap).store pb.value >>= fun pb => pb.store data) pb data newCap := by
  have whole := wholeInit pool newCap
  have front : (rtmpWbInitAt pool newCap).current + pb.value.length = pb.current := by
    rw [valueLength]
    exact Nat.zero_add _
  by_cases copied : pb.current ≤ rtPoolAlloc (unsignedInt newCap)
  · obtain ⟨mid, copying, view, length⟩ := storeFits (front.trans_le (copied.trans whole.ge))
    have value : mid.value = pb.value := congrArg WriteBuffer.content view
    have current : mid.current = pb.current := (congrArg WriteBuffer.length view).trans front
    have capacity : mid.capacity = newCap := congrArg WriteBuffer.capacity view
    rw [copying, Fallible.okBind]
    have full : mid.buf.length = rtPoolAlloc (unsignedInt mid.capacity) := by
      rw [length, whole, capacity]
    have serves := servesStore full data
    rw [capacity] at serves
    obtain ⟨fits, overruns⟩ := serves
    rw [value, current] at fits
    rw [current] at overruns
    exact ⟨fits, overruns⟩
  · rw [storeLarge (by omega), Fallible.errorBind]
    exact ⟨fun fits => absurd fits (by omega), fun _ => rfl⟩

/-- One write, against the block and against the buffer without it. -/
theorem writeAt (pool : PoolBlocks) {pb : BlockBuffer} (positive : 0 < pb.capacity)
    (whole : pb.buf.length = rtPoolAlloc (unsignedInt pb.capacity)) (data : Bytes)
    (bound : pb.current + data.length < 1073741824) : ∃ cap,
    DoubledTo pb.capacity cap (pb.current + data.length : Nat) ∧
    rtmpWbWriteBytes pb.view data = .ok ⟨pb.value ++ data, pb.current + data.length, cap⟩ ∧
    Serves (rtmpWbWriteAt pool pb data) pb data cap := by
  have need : int32 (pb.current + data.length) = (pb.current + data.length : Nat) :=
    int32Same (by omega) (by omega)
  have small : ((pb.current + data.length : Nat) : Int) ≤ 1073741824 := by omega
  obtain ⟨cap, chosen, doubled⟩ := wbCapacityDoubled positive small
  refine ⟨cap, doubled, ?_, ?_⟩
  · have same : wbCapacity pb.view.capacity (int32 (pb.view.length + data.length)) = .ok cap :=
      (congrArg (wbCapacity pb.capacity) need).trans chosen
    rw [rtmpWbWriteBytes, rtmpWbWrite, same, Fallible.okBind]
    exact if_pos (doubledHolds doubled)
  · simp only [rtmpWbWriteAt, rtmpWbLengthAt, need, chosen, Fallible.okBind]
    by_cases grow : ((pb.current + data.length : Nat) : Int) > pb.capacity
    · rw [if_pos grow]
      exact servesRegrown pool pb data cap
    · have stays : cap = pb.capacity := by
        rw [wbCapacity, if_neg grow] at chosen
        exact (Except.ok.inj chosen).symm
      rw [if_neg grow, stays]
      exact servesStore whole data

/-- What a write leaves when it returns; the buffer without its blocks does the same. -/
theorem writeRefines {pool : PoolBlocks} {pb pb' : BlockBuffer} (positive : 0 < pb.capacity)
    (whole : pb.buf.length = rtPoolAlloc (unsignedInt pb.capacity)) {data : Bytes}
    (bound : pb.current + data.length < 1073741824) (ok : rtmpWbWriteAt pool pb data = .ok pb') :
    rtmpWbWriteBytes pb.view data = .ok pb'.view ∧ pb'.value = pb.value ++ data ∧
      pb'.buf.length = rtPoolAlloc (unsignedInt pb'.capacity) ∧
      DoubledTo pb.capacity pb'.capacity (pb.current + data.length : Nat) := by
  obtain ⟨cap, doubled, written, fits, overruns⟩ := writeAt pool positive whole data bound
  by_cases room : pb.current + data.length ≤ rtPoolAlloc (unsignedInt cap)
  · obtain ⟨found, stored, view, length⟩ := fits room
    cases Except.ok.inj (stored.symm.trans ok)
    have capacity : pb'.capacity = cap := congrArg WriteBuffer.capacity view
    rw [view, capacity]
    exact ⟨written, congrArg WriteBuffer.content view, length, doubled⟩
  · rw [overruns room] at ok
    cases ok

end Rushkit
