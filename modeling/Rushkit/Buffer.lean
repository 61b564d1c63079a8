import Rushkit.Utils

/-! `buffer.c`: the read cursor, the growing write buffer and the fixed buffer.
Pool blocks are assumed to have the size asked for. -/
namespace Rushkit

/-- `buf` is the block of `len` bytes; `current` is the offset of the cursor in it. -/
structure ReadBuffer where
  buf : Bytes
  current : Nat
  needMore : Int
  inside : current ≤ buf.length
  deriving DecidableEq, Repr

def rtmpRbInit (data : Bytes) : ReadBuffer := ⟨data, 0, 0, Nat.zero_le _⟩

def rtmpRbGetSpace (pb : ReadBuffer) : Int := pb.buf.length - pb.current

def rtmpRbReadE (pb : ReadBuffer) (nlen : Int) : Res (Bytes × ReadBuffer) :=
  if short : rtmpRbGetSpace pb < nlen then .error (.assertion .rtmpRbReadE)
  else if pb.current + nlen < 0 then .error .overRead
  else .ok ((pb.buf.drop pb.current).take nlen.toNat,
    { pb with
      current := (pb.current + nlen).toNat
      inside := by unfold rtmpRbGetSpace at short; omega })

def rtmpRbReadByteE (pb : ReadBuffer) : Res (UInt8 × ReadBuffer) := do
  let (src, pb) ← rtmpRbReadE pb 1
  .ok (src.headD 0, pb)

def rtmpRbReadShortE (pb : ReadBuffer) : Res (Int × ReadBuffer) := do
  let (src, pb) ← rtmpRbReadE pb 2
  .ok ((ofHostBytes 16 (loadData src)).toInt, pb)

def rtmpRbReadIntE (pb : ReadBuffer) : Res (Int × ReadBuffer) := do
  let (src, pb) ← rtmpRbReadE pb 4
  .ok ((ofHostBytes 32 (loadData src)).toInt, pb)

def rtmpRbReadReverseIntE (pb : ReadBuffer) : Res (Int × ReadBuffer) := do
  let (src, pb) ← rtmpRbReadE pb 4
  .ok ((ofHostBytes 32 (loadDataReverse src)).toInt, pb)

def mediumInt (src : Bytes) : Int :=
  (src.getD 0 0).toNat * 65536 + (src.getD 1 0).toNat * 256 + (src.getD 2 0).toNat

def rtmpRbReadMediumIntE (pb : ReadBuffer) : Res (Int × ReadBuffer) := do
  let (src, pb) ← rtmpRbReadE pb 3
  .ok (mediumInt src, pb)

def rtmpRbReadDoubleE (pb : ReadBuffer) : Res (BitVec 64 × ReadBuffer) := do
  let (src, pb) ← rtmpRbReadE pb 8
  .ok (ofHostBytes 64 (loadData src), pb)

def rtmpRbAssertSize (pb : ReadBuffer) (sz : Int) : Bool × ReadBuffer :=
  if sz + pb.current > pb.buf.length then
    (false, { pb with needMore := sz + pb.current - pb.buf.length })
  else (true, pb)

/-- The length in front and the string. What the size check returns is not looked at, and the
cursor goes back before the length is skipped with the string. -/
def rtmpRbReadStringE (pb : ReadBuffer) : Res (Int × Bytes × ReadBuffer) := do
  let (_, pb) := rtmpRbAssertSize pb 2
  let (strlen, _) ← rtmpRbReadShortE pb
  let (src, pb) ← rtmpRbReadE pb (strlen + 2)
  .ok (strlen, src.drop 2, pb)

/-- At most `nlen` bytes, fewer when the block ends before. -/
def rtmpRbRead (pb : ReadBuffer) (nlen : Int) : Res (Bytes × ReadBuffer) :=
  if short : rtmpRbGetSpace pb < nlen then
    .ok (pb.buf.drop pb.current, { pb with current := pb.buf.length, inside := Nat.le_refl _ })
  else if pb.current + nlen < 0 then .error .overRead
  else .ok ((pb.buf.drop pb.current).take nlen.toNat,
    { pb with
      current := (pb.current + nlen).toNat
      inside := by unfold rtmpRbGetSpace at short; omega })

namespace ReadBuffer

/-- What the readers below depend on: the bytes from the cursor to the end. -/
def unread (pb : ReadBuffer) : Bytes := pb.buf.drop pb.current

def skip (pb : ReadBuffer) (n : Nat) : ReadBuffer :=
  { pb with current := min (pb.current + n) pb.buf.length, inside := Nat.min_le_right _ _ }

@[simp] theorem unreadInit (data : Bytes) : (rtmpRbInit data).unread = data := rfl

@[simp] theorem needMoreInit (data : Bytes) : (rtmpRbInit data).needMore = 0 := rfl

theorem unreadLength (pb : ReadBuffer) : pb.unread.length = pb.buf.length - pb.current := List.length_drop

theorem spaceUnread (pb : ReadBuffer) : rtmpRbGetSpace pb = pb.unread.length := by
  have inside := pb.inside
  rw [rtmpRbGetSpace, unreadLength]
  omega

theorem unreadSkip (pb : ReadBuffer) (n : Nat) : (pb.skip n).unread = pb.unread.drop n := by
  simp only [unread, skip, List.drop_drop]
  by_cases h : pb.current + n ≤ pb.buf.length
  · rw [Nat.min_eq_left h]
  · rw [Nat.min_eq_right (by omega), List.drop_length, List.drop_eq_nil_of_le (by omega)]

theorem unreadSkipAppend (pb : ReadBuffer) {s t : Bytes} (h : pb.unread = s ++ t) :
    (pb.skip s.length).unread = t := by
  rw [unreadSkip, h, List.drop_left]

@[simp] theorem skipZero (pb : ReadBuffer) : pb.skip 0 = pb := by
  have h := pb.inside
  cases pb with
  | mk buf current needMore inside =>
    simp only [skip, Nat.add_zero, ReadBuffer.mk.injEq, and_true, true_and]
    exact Nat.min_eq_left inside

theorem skipSkip (pb : ReadBuffer) (m n : Nat) : (pb.skip m).skip n = pb.skip (m + n) := by
  simp only [skip, ReadBuffer.mk.injEq, and_true, true_and]
  omega

end ReadBuffer
open ReadBuffer

theorem readESkip (pb : ReadBuffer) (n : Nat) (enough : n ≤ pb.unread.length) :
    rtmpRbReadE pb n = .ok (pb.unread.take n, pb.skip n) := by
  have space := spaceUnread pb
  have inside := pb.inside
  have whole := unreadLength pb
  rw [rtmpRbReadE, dif_neg (by omega), if_neg (by omega)]
  simp only [unread, skip, Int.toNat_natCast, Except.ok.injEq, Prod.mk.injEq, true_and,
    ReadBuffer.mk.injEq, and_true]
  omega

theorem readEAppend (pb : ReadBuffer) {s t : Bytes} (h : pb.unread = s ++ t) {n : Int}
    (len : n = s.length) : rtmpRbReadE pb n = .ok (s, pb.skip s.length) := by
  subst len
  rw [readESkip pb s.length (by simp [h]), h, List.take_left]

theorem readEShort (pb : ReadBuffer) {n : Int} (short : (pb.unread.length : Int) < n) :
    rtmpRbReadE pb n = .error (.assertion .rtmpRbReadE) := by
  rw [rtmpRbReadE, dif_pos (by rw [spaceUnread]; exact short)]

theorem assertSizeEnough (pb : ReadBuffer) {n : Nat} (enough : n ≤ pb.unread.length) :
    rtmpRbAssertSize pb n = (true, pb) := by
  have inside := pb.inside
  have whole := unreadLength pb
  rw [rtmpRbAssertSize, if_neg (by omega)]

theorem assertSizeShort (pb : ReadBuffer) {n : Nat} (short : pb.unread.length < n) :
    (rtmpRbAssertSize pb n).1 = false ∧ 0 < (rtmpRbAssertSize pb n).2.needMore ∧
    (rtmpRbAssertSize pb n).2.unread = pb.unread := by
  have inside := pb.inside
  have whole := unreadLength pb
  rw [rtmpRbAssertSize, if_pos (by omega)]
  refine ⟨rfl, ?_, rfl⟩
  show (0 : Int) < n + pb.current - pb.buf.length
  omega

theorem readTake (pb : ReadBuffer) (n : Nat) :
    rtmpRbRead pb n = .ok (pb.unread.take n, pb.skip n) := by
  have inside := pb.inside
  have space := spaceUnread pb
  have whole := unreadLength pb
  by_cases short : rtmpRbGetSpace pb < n
  · rw [rtmpRbRead, dif_pos short, List.take_of_length_le (by omega)]
    simp only [unread, skip, Except.ok.injEq, Prod.mk.injEq, true_and, ReadBuffer.mk.injEq, and_true]
    omega
  · rw [rtmpRbRead, dif_neg short, if_neg (by omega)]
    simp only [unread, skip, Int.toNat_natCast, Except.ok.injEq, Prod.mk.injEq, true_and,
      ReadBuffer.mk.injEq, and_true]
    omega

/-- `content` is what has been written, `length` its size in bytes (`current - buf`).
The elements are bytes, or the structures the decoders append one at a time. -/
structure WriteBuffer (α : Type) where
  content : List α
  length : Nat
  capacity : Int
  deriving DecidableEq, Repr

def rtmpWbInit {α : Type} (capacity : Int) : WriteBuffer α := ⟨[], 0, capacity⟩

/-- `while(need > new_cap) new_cap *= 2`, given up after `fuel` doublings. -/
def growCapacity : Nat → Int → Int → Option Int
  | 0, _, _ => none
  | fuel+1, need, newCap =>
    if need > newCap then growCapacity fuel need (int32 (newCap * 2)) else some newCap

/-- Doublings after which a capacity that is still too small never suffices. -/
def growFuel : Nat := 34

/-- The capacity a write that needs `need` bytes goes on with. -/
def wbCapacity (capacity need : Int) : Res Int :=
  if need > capacity then
    (growCapacity growFuel need (int32 (capacity * 2))).elim (.error .hang) .ok
  else .ok capacity

/-- Appends `data`, which occupies `len` bytes. -/
def rtmpWbWrite {α : Type} (pb : WriteBuffer α) (data : List α) (len : Nat) : Res (WriteBuffer α) := do
  let capacity ← wbCapacity pb.capacity (int32 (pb.length + len))
  if pb.length + len ≤ capacity then .ok ⟨pb.content ++ data, pb.length + len, capacity⟩
  else .error .overWrite

def rtmpWbWriteBytes (pb : WriteBuffer UInt8) (data : Bytes) : Res (WriteBuffer UInt8) :=
  rtmpWbWrite pb data data.length

def rtmpWbTell {α : Type} (pb : WriteBuffer α) : Int := pb.length

def rtmpWbGetValue {α : Type} (pb : WriteBuffer α) : List α := pb.content

def rtmpWbWriteByte (pb : WriteBuffer UInt8) (src : Int) : Res (WriteBuffer UInt8) :=
  rtmpWbWriteBytes pb [UInt8.ofInt src]

def rtmpWbWriteShort (pb : WriteBuffer UInt8) (src : Int) : Res (WriteBuffer UInt8) :=
  rtmpWbWriteBytes pb (loadData (hostBytes 2 (BitVec.ofInt 16 src)))

def rtmpWbWriteInt (pb : WriteBuffer UInt8) (src : Int) : Res (WriteBuffer UInt8) :=
  rtmpWbWriteBytes pb (loadData (hostBytes 4 (BitVec.ofInt 32 src)))

/-- Copies the first four bytes of a `long`, its low half on this host. -/
def rtmpWbWriteReverseInt (pb : WriteBuffer UInt8) (src : Int) : Res (WriteBuffer UInt8) :=
  rtmpWbWriteBytes pb (loadDataReverse (hostBytes 4 (BitVec.ofInt 32 src)))

def mediumBytes (e : Int) : Bytes := [UInt8.ofInt (e / 65536), UInt8.ofInt (e / 256), UInt8.ofInt e]

def rtmpWbWriteMediumInt (pb : WriteBuffer UInt8) (e : Int) : Res (WriteBuffer UInt8) :=
  rtmpWbWriteBytes pb (mediumBytes e)

theorem mediumWire (e : Int) (rest : Bytes) : mediumInt (mediumBytes e ++ rest) = e % 16777216 := by
  show ((UInt8.ofInt (e / 65536)).toNat : Int) * 65536 + (UInt8.ofInt (e / 256)).toNat * 256 +
    (UInt8.ofInt e).toNat = e % 16777216
  rw [byteValue, byteValue, byteValue]
  omega

theorem mediumRead {e : Int} (low : 0 ≤ e) (high : e < 16777216) (rest : Bytes) :
    mediumInt (mediumBytes e ++ rest) = e := by
  rw [mediumWire, Int.emod_eq_of_lt low high]

structure FixBuffer where
  content : Bytes
  capacity : Nat
  fits : content.length ≤ capacity
  deriving DecidableEq, Repr

def rtmpFwbInit : FixBuffer := ⟨[], 0, Nat.le_refl _⟩

def rtmpFwbReset (cap : Int) : FixBuffer := ⟨[], cap.toNat, Nat.zero_le _⟩

def rtmpFwbGetSpace (pf : FixBuffer) : Int := pf.capacity - pf.content.length

def rtmpFwbWrite (pf : FixBuffer) (data : Bytes) : Res FixBuffer :=
  if room : rtmpFwbGetSpace pf < data.length then .error (.assertion .rtmpFwbWrite)
  else .ok ⟨pf.content ++ data, pf.capacity, by
    unfold rtmpFwbGetSpace at room
    rw [List.length_append]
    omega⟩

def rtmpFwbGetValue (pf : FixBuffer) : Bytes := pf.content

theorem fwbWriteRoom (pf : FixBuffer) (data : Bytes)
    (room : (data.length : Int) ≤ rtmpFwbGetSpace pf) :
    ∃ pf', rtmpFwbWrite pf data = .ok pf' ∧ pf'.content = pf.content ++ data ∧
      rtmpFwbGetSpace pf' = rtmpFwbGetSpace pf - data.length := by
  rw [rtmpFwbWrite, dif_neg (by omega)]
  refine ⟨_, rfl, rfl, ?_⟩
  simp only [rtmpFwbGetSpace, List.length_append]
  omega

theorem fwbWriteFull (pf : FixBuffer) (data : Bytes)
    (full : rtmpFwbGetSpace pf < data.length) :
    rtmpFwbWrite pf data = .error (.assertion .rtmpFwbWrite) := dif_pos full

theorem fwbWriteCapacity {pf pf' : FixBuffer} {data : Bytes} (h : rtmpFwbWrite pf data = .ok pf') :
    pf'.capacity = pf.capacity := by
  unfold rtmpFwbWrite at h
  split at h
  · contradiction
  · cases Except.ok.inj h
    rfl

end Rushkit
