import Rushkit.Library.ByteMemory
import Rushkit.AmfUnpack
import Rushkit.PoolTrunks

/-! `amf_unpack` over the bytes of the process (`amf.c`): the structures it fills, the blocks that
`rt_pool_alloc` cuts from the trunks and the strings it copies into them. A store is taken
wherever the process has memory, inside the block it was meant for or not. -/
namespace Rushkit.Amf.Raw
open ByteMemory

-- `exhausted` is where `malloc` has no room for another trunk.
inductive Stop where
  | fault (fault : Fault)
  | exhausted
  deriving DecidableEq, Repr

def lift {α : Type} : Res α → Except Stop α
  | .ok a => .ok a
  | .error fault => .error (.fault fault)

/- The input, where the data of each trunk would be, and where the frames of the calls begin. -/
structure Process where
  data : Bytes
  place : Nat → Nat
  stack : Nat
  low : stack + 2 ^ 32 ≤ 2 ^ 64

structure Machine where
  ppool : Pool
  bytes : Memory
  src : Int

def Machine.advance (m : Machine) (n : Int) : Machine := { m with src := m.src + n }

def Machine.put (m : Machine) (p : Nat) (s : Bytes) : Machine := { m with bytes := write m.bytes p s }

abbrev Run (α : Type) := Machine → Except Stop (α × Machine)

def intAt (mem : Memory) (p : Nat) : Int := (ofHostBytes 32 (read mem p 4)).toInt

def pointerAt (mem : Memory) (p : Nat) : Nat := (ofHostBytes 64 (read mem p 8)).toNat

namespace Process
variable (process : Process)

-- The trunks lie apart from each other and below the stack.
def Placed (trunks : List Trunk) : Prop :=
  (∀ t ∈ trunks.zipIdx, process.place t.2 + t.1.data ≤ process.stack) ∧
    trunks.zipIdx.Pairwise fun t u =>
      process.place t.2 + t.1.data ≤ process.place u.2 ∨ process.place u.2 + u.1.data ≤ process.place t.2

instance (trunks : List Trunk) : Decidable (process.Placed trunks) := inferInstanceAs (Decidable (_ ∧ _))

-- Whether a trunk or the stack has the `n` bytes from `p` on.
def Has (trunks : List Trunk) (p n : Nat) : Prop :=
  n = 0 ∨ process.stack ≤ p ∨
    ∃ t ∈ trunks.zipIdx, process.place t.2 ≤ p ∧ p + n ≤ process.place t.2 + t.1.data

instance (trunks : List Trunk) (p n : Nat) : Decidable (process.Has trunks p n) :=
  inferInstanceAs (Decidable (_ ∨ _ ∨ _))

def store (p : Nat) (s : Bytes) (m : Machine) : Except Stop Machine :=
  if process.Has m.ppool.trunks p s.length then .ok (m.put p s)
  else .error (.fault .overWrite)

def storeInt (p : Nat) (x : Int) : Machine → Except Stop Machine := process.store p (hostBytes 4 (BitVec.ofInt 32 x))

def storePointer (p x : Nat) : Machine → Except Stop Machine := process.store p (hostBytes 8 (BitVec.ofNat 64 x))

-- `memset(p, 0, n)`
def storeZeros (p n : Nat) (m : Machine) : Except Stop Machine :=
  if process.Has m.ppool.trunks p n then .ok (m.put p (List.replicate n 0))
  else .error (.fault .overWrite)

def rtPoolAlloc (size : Nat) : Run Nat := fun m =>
  let (block, ppool) := rtPoolAllocIn m.ppool size
  if process.Placed ppool.trunks then
    .ok (process.place block.trunk + block.offset, { m with ppool })
  else .error .exhausted

-- `n` bytes at the cursor. A negative `int` is a huge `size_t` for `memcpy`.
def peek (n : Int) (m : Machine) : Except Stop Bytes :=
  if 0 ≤ n ∧ 0 ≤ m.src ∧ m.src + n ≤ process.data.length then .ok ((process.data.drop m.src.toNat).take n.toNat)
  else .error (.fault .overRead)

def readSrc (n : Nat) : Run Bytes := fun m => do
  let s ← process.peek n m
  .ok (s, m.advance n)

-- `size` and `content` are read again wherever the source names them.
def unpackZstr (pstr : Nat) : Run Int := fun m => do
  let (size, m) ← process.readSrc 2 m
  let m ← process.storeInt pstr (wireShort size) m
  let (content, m) ← process.rtPoolAlloc (unsignedInt (intAt m.bytes pstr)) m
  let m ← process.storePointer (pstr + 8) content m
  let s ← process.peek (intAt m.bytes pstr) m
  let m ← process.store (pointerAt m.bytes (pstr + 8)) s m
  .ok (intAt m.bytes pstr + 2, m.advance (intAt m.bytes pstr))

end Process

structure Buffer where
  buf : Nat
  capacity : Int
  length : Nat

namespace Process
variable (process : Process)

def rtmpWbInit (capacity : Nat) : Run Buffer := fun m => do
  let (buf, m) ← process.rtPoolAlloc capacity m
  .ok (⟨buf, capacity, 0⟩, m)

def rtmpWbWrite (buffer : Buffer) (data : Bytes) : Run Buffer := fun m => do
  let need := int32 (buffer.length + data.length)
  let newCap ← lift (wbCapacity buffer.capacity need)
  let (buf, m) ←
    if need > buffer.capacity then do
      let (tmpBuff, m) ← process.rtPoolAlloc (unsignedInt newCap) m
      let m ← process.store tmpBuff (read m.bytes buffer.buf buffer.length) m
      .ok (tmpBuff, m)
    else .ok (buffer.buf, m)
  let m ← process.store (buf + buffer.length) data m
  .ok (⟨buf, newCap, buffer.length + data.length⟩, m)

section Payloads
variable (amfUnpack : Nat → Nat → Run Int) (frame : Nat)

-- The element is a local of `_unpack_hash`, in the frame that the calls inside it build on.
def unpackHashLoop : Nat → Buffer → Nat → Int → Run (Buffer × Nat × Int)
  | 0, _, _, _, _ => .error (.fault .hang)
  | fuel+1, buffer, count, rsum, m => do
    let (n, m) ← process.unpackZstr frame m
    let (k, m) ← amfUnpack (frame + tableElemSize) (frame + akSize) m
    if intAt m.bytes (frame + akSize) = amfEnd.toNat then .ok ((buffer, count, rsum + n + k), m)
    else do
      let (buffer, m) ← process.rtmpWbWrite buffer (read m.bytes frame tableElemSize) m
      unpackHashLoop fuel buffer (count + 1) (rsum + n + k) m

def unpackHash (ptable : Nat) : Run Int := fun m => do
  let (buffer, m) ← process.rtmpWbInit 512 m
  let ((buffer, count, rsum), m) ← process.unpackHashLoop amfUnpack frame (process.data.length + 1) buffer 0 0 m
  let m ← process.storePointer (ptable + 8) buffer.buf m
  let m ← process.storeInt ptable count m
  .ok (rsum, m)

-- `left` elements from the one with number `i` on.
def unpackElems (ptable : Nat) : Nat → Nat → Int → Run (Nat × Int)
  | 0, i, rsum, m => .ok ((i, rsum), m)
  | left+1, i, rsum, m => do
    let pelem := pointerAt m.bytes (ptable + 8) + i * tableElemSize
    let (n, m) ← process.unpackZstr pelem m
    let (k, m) ← amfUnpack frame (pelem + akSize) m
    if intAt m.bytes (pelem + akSize) = amfEnd.toNat then .ok ((i, rsum + n + k), m)
    else unpackElems ptable left (i + 1) (rsum + n + k) m

def unpackAssocArray (ptable : Nat) : Run Int := fun m => do
  let (size, m) ← process.readSrc 4 m
  let (elements, m) ← process.rtPoolAlloc (sizeT (wireInt size * tableElemSize)) m
  let m ← process.storePointer (ptable + 8) elements m
  let ((i, rsum), m) ← process.unpackElems amfUnpack frame ptable (wireInt size).toNat 0 4 m
  let m ← process.storeInt ptable i m
  .ok (rsum, m)

def unpackValues (parray : Nat) : Nat → Nat → Int → Run Int
  | 0, _, rsum, m => .ok (rsum, m)
  | left+1, i, rsum, m => do
    let (k, m) ← amfUnpack frame (pointerAt m.bytes (parray + 8) + i * avSize) m
    unpackValues parray left (i + 1) (rsum + k) m

def unpackArray (parray : Nat) : Run Int := fun m => do
  let (sz, m) ← process.readSrc 4 m
  let m ← process.storeInt parray (wireInt sz) m
  let (elements, m) ← process.rtPoolAlloc (sizeT (wireInt sz * avSize)) m
  let m ← process.storeZeros elements (sizeT (wireInt sz * avSize)) m
  let m ← process.storePointer (parray + 8) elements m
  unpackValues amfUnpack frame parray (wireInt sz).toNat 0 4 m

def unpackPayload (punion : Nat) (type : UInt8) : Run Int := fun m =>
  if type = amfNumber then do
    let (s, m) ← process.readSrc 8 m
    let m ← process.store punion (hostBytes 8 (ofHostBytes 64 (loadData s))) m
    .ok (8, m)
  else if type = amfBoolean then do
    let (s, m) ← process.readSrc 1 m
    let m ← process.store punion s m
    .ok (1, m)
  else if type = amfString then process.unpackZstr punion m
  else if type = amfAssocArray then process.unpackAssocArray amfUnpack frame punion m
  else if type = amfHash then process.unpackHash amfUnpack frame punion m
  else if type = amfArray then process.unpackArray amfUnpack frame punion m
  else if type = amfLink then do
    let (s, m) ← process.readSrc 2 m
    let m ← process.store punion (hostBytes 2 (ofHostBytes 16 (loadData s))) m
    .ok (2, m)
  else .ok (0, m)

def amfUnpackStep (pvalue : Nat) : Run Int := fun m =>
  if (process.data.length : Int) ≤ m.src then do
    let m ← process.storeInt pvalue amfEnd.toNat m
    .ok (0, m)
  else do
    let (tag, m) ← process.readSrc 1 m
    let m ← process.storeInt pvalue (tag.headD 0).toNat m
    let (n, m) ← process.unpackPayload amfUnpack frame (pvalue + unionOffset) (tag.headD 0) m
    .ok (1 + n, m)

end Payloads

def amfUnpackDepth : Nat → Nat → Nat → Run Int
  | 0 => fun _ _ _ => .error (.fault .hang)
  | depth+1 => process.amfUnpackStep (amfUnpackDepth depth)

-- `sizeof(AP)`
def apSize : Nat := 32

-- `amf_ap_alloc` on a new pool, and `amf_unpack` into a local of the caller.
def amfUnpack (bytes : Memory) : Except Stop (Int × Machine) :=
  let ppool := (rtPoolAllocIn (rtPoolInit 0) apSize).2
  if process.Placed ppool.trunks then
    process.amfUnpackDepth (process.data.length + 1) (process.stack + avSize) process.stack ⟨ppool, bytes, 0⟩
  else .error .exhausted

end Process
end Rushkit.Amf.Raw
