import Rushkit.AmfValue

/-! `amf_unpack` and the `amf_ap_*` readers (`amf.c`). A read outside the memory behind the
cursor is a fault, and so is a store outside the block it is made in; what the code does
after such a store is not followed. The recursion goes down by a depth that the input length
bounds; the loops carry their own bounds in the same way. -/
namespace Rushkit.Amf

/- `mem` is the readable memory from `start` on, `len` the length the block claims, `src`
the offset of the cursor from `start` and `asked` what the pool has been asked for. -/
structure AP where
  ppool : Serving
  asked : List Nat
  mem : Bytes
  len : Int
  src : Nat

def amfApAlloc (ppool : Serving) (data : Bytes) (dataLen : Int) : AP := ⟨ppool, [], data, dataLen, 0⟩

namespace AP

def ahead (ap : AP) : Bytes := ap.mem.drop ap.src

def advance (ap : AP) (n : Nat) : AP := { ap with src := ap.src + n }

-- Further on, the pool having been asked for more.
def went (ap : AP) (n : Nat) (asked : List Nat) : AP := { ap with asked, src := ap.src + n }

-- `rt_pool_alloc`: the length of the block.
def request (ap : AP) (size : Nat) : Nat × AP :=
  (ap.ppool ap.asked (size % 2 ^ 32), { ap with asked := size % 2 ^ 32 :: ap.asked })

@[simp] theorem advancePpool (ap : AP) (n : Nat) : (ap.advance n).ppool = ap.ppool := rfl
@[simp] theorem advanceAsked (ap : AP) (n : Nat) : (ap.advance n).asked = ap.asked := rfl
@[simp] theorem advanceMem (ap : AP) (n : Nat) : (ap.advance n).mem = ap.mem := rfl
@[simp] theorem advanceLen (ap : AP) (n : Nat) : (ap.advance n).len = ap.len := rfl
@[simp] theorem advanceSrc (ap : AP) (n : Nat) : (ap.advance n).src = ap.src + n := rfl

section Went
variable (ap : AP) (n : Nat) (asked : List Nat)

@[simp] theorem wentPpool : (ap.went n asked).ppool = ap.ppool := rfl
@[simp] theorem wentAsked : (ap.went n asked).asked = asked := rfl
@[simp] theorem wentMem : (ap.went n asked).mem = ap.mem := rfl
@[simp] theorem wentLen : (ap.went n asked).len = ap.len := rfl
@[simp] theorem advanceWent (m : Nat) : (ap.advance m).went n asked = ap.went (m + n) asked := by
  simp [advance, went, Nat.add_assoc]

@[simp] theorem wentAdvance (m : Nat) : (ap.went n asked).advance m = ap.went (n + m) asked := by
  simp [advance, went, Nat.add_assoc]

@[simp] theorem wentWent (m : Nat) (asked' : List Nat) :
    (ap.went n asked).went m asked' = ap.went (n + m) asked' := by
  simp [went, Nat.add_assoc]

theorem advanceIsWent : ap.advance n = ap.went n ap.asked := rfl

theorem requestWent (size : Nat) : (ap.request size).2 = ap.went 0 (size % 2 ^ 32 :: ap.asked) := rfl

end Went

@[simp] theorem advanceZero (ap : AP) : ap.advance 0 = ap := rfl

theorem aheadAdvance (ap : AP) (n : Nat) : (ap.advance n).ahead = ap.ahead.drop n := by
  simp [ahead, advance]

theorem aheadWent (ap : AP) (n : Nat) (asked : List Nat) : (ap.went n asked).ahead = ap.ahead.drop n := by
  simp [ahead, went]

theorem aheadAppend {ap : AP} {s t : Bytes} (h : ap.ahead = s ++ t) :
    (ap.advance s.length).ahead = t := by
  rw [aheadAdvance, h, List.drop_left]

theorem aheadPast {ap : AP} {s t : Bytes} (h : ap.ahead = s ++ t) (asked : List Nat) :
    (ap.went s.length asked).ahead = t := by
  rw [aheadWent, h, List.drop_left]

end AP

-- `need` bytes are written at a pointer with `room` bytes of its block behind it.
def store (room need : Nat) : Res Unit :=
  if need ≤ room then .ok () else .error .overWrite

-- `n` bytes at the cursor. A negative `int` is a huge `size_t` for `memcpy`.
def readSrc (ap : AP) (n : Int) : Res (Bytes × AP) :=
  if 0 ≤ n ∧ n ≤ ap.ahead.length then .ok (ap.ahead.take n.toNat, ap.advance n.toNat)
  else .error .overRead

def unpackDouble (ap : AP) : Res (BitVec 64 × AP) := do
  let (src, ap) ← readSrc ap 8
  .ok (ofHostBytes 64 (loadData src), ap)

def unpackLong (ap : AP) : Res (BitVec 32 × AP) := do
  let (src, ap) ← readSrc ap 4
  .ok (ofHostBytes 32 (loadData src), ap)

def unpackShort (ap : AP) : Res (BitVec 16 × AP) := do
  let (src, ap) ← readSrc ap 2
  .ok (ofHostBytes 16 (loadData src), ap)

def unpackByte (ap : AP) : Res (UInt8 × AP) := do
  let (src, ap) ← readSrc ap 1
  .ok (src.headD 0, ap)

abbrev Decoder (α : Type) := AP → Res (α × Int × AP)

-- An `AK_STRING`, an `AK_ARRAY` or an `AK_TABLE`: an `int` and, from byte 8 on, a pointer.
def akSize : Nat := 16

-- An `AV` has its type in front and its union from byte 8 on; an `AK_TABLE_ELEM` is a key and an `AV`.
def typeSize : Nat := 4
def unionOffset : Nat := 8
def avSize : Nat := 24
def tableElemSize : Nat := 40

/- `room` is what the block has at `pstr`. Between its `size` and its `content` nothing can
fail, so both are stored at once. -/
def unpackZstr (room : Nat) : Decoder Bytes := fun ap => do
  let (size, ap) ← unpackShort ap
  let (block, ap) := ap.request (unsignedInt size.toInt)
  store room akSize
  let (content, ap) ← readSrc ap size.toInt
  store block content.length
  .ok (content, size.toInt + 2, ap)

-- A write buffer with the length of its block.
structure PoolBuffer (α : Type) where
  buffer : WriteBuffer α
  block : Nat

section PoolBuffers
variable {α : Type}

def rtmpWbInitIn (capacity : Nat) (ap : AP) : PoolBuffer α × AP :=
  let (block, ap) := ap.request capacity
  (⟨rtmpWbInit capacity, block⟩, ap)

-- A larger capacity comes with a block of its own, which the elements so far are copied into.
def rtmpWbWriteIn (pb : PoolBuffer α) (elem : α) (size : Nat) (ap : AP) : Res (PoolBuffer α × AP) := do
  let grown ← rtmpWbWrite pb.buffer [elem] size
  let (block, ap) := if grown.capacity = pb.buffer.capacity then (pb.block, ap)
    else ap.request (unsignedInt grown.capacity)
  store block grown.length
  .ok (⟨grown, block⟩, ap)

end PoolBuffers

section Payloads
variable (amfUnpack : Nat → Decoder AV)

-- The element is on the stack until it is written to the buffer.
def unpackHashLoop : Nat → PoolBuffer (AkTableElem AV) → Int → AP →
    Res (PoolBuffer (AkTableElem AV) × Int × AP)
  | 0, _, _, _ => .error .hang
  | fuel+1, buffer, rsum, ap => do
    let (key, n, ap) ← unpackZstr akSize ap
    let (value, m, ap) ← amfUnpack avSize ap
    if value.type = amfEnd then .ok (buffer, rsum + n + m, ap)
    else do
      let (buffer, ap) ← rtmpWbWriteIn buffer ⟨key, value⟩ tableElemSize ap
      unpackHashLoop fuel buffer (rsum + n + m) ap

def unpackHash (room : Nat) : Decoder (List (AkTableElem AV)) := fun ap => do
  let (buffer, ap) := rtmpWbInitIn 512 ap
  let (buffer, rsum, ap) ← unpackHashLoop amfUnpack (ap.mem.length + 1) buffer 0 ap
  store room akSize
  .ok (rtmpWbGetValue buffer.buffer, rsum, ap)

-- At most `n` elements in a block that has `room` left; an element of type AMF_END stops
-- the loop and is dropped, its key and its type having been stored.
def unpackElems : Nat → Nat → Decoder (List (AkTableElem AV))
  | 0, _, ap => .ok ([], 0, ap)
  | n+1, room, ap => do
    let (key, k, ap) ← unpackZstr room ap
    let (value, m, ap) ← amfUnpack (room - akSize) ap
    if value.type = amfEnd then .ok ([], k + m, ap)
    else do
      let (rest, s, ap) ← unpackElems n (room - tableElemSize) ap
      .ok (⟨key, value⟩ :: rest, k + m + s, ap)

-- With a negative count the loop does not start.
def unpackAssocArray (room : Nat) : Decoder (List (AkTableElem AV)) := fun ap => do
  let (size, ap) ← unpackLong ap
  let (block, ap) := ap.request (sizeT (size.toInt * tableElemSize))
  store room akSize
  let (elements, s, ap) ← unpackElems amfUnpack size.toInt.toNat block ap
  .ok (elements, 4 + s, ap)

def unpackValues : Nat → Decoder (List AV)
  | 0, ap => .ok ([], 0, ap)
  | n+1, ap => do
    let (value, m, ap) ← amfUnpack avSize ap
    let (rest, s, ap) ← unpackValues n ap
    .ok (value :: rest, m + s, ap)

-- The zero fill takes `sz * 24` as a `size_t`, so a negative count runs off any block.
def unpackArray (room : Nat) : Decoder (List AV) := fun ap => do
  let (sz, ap) ← unpackLong ap
  let (block, ap) := ap.request (sizeT (sz.toInt * avSize))
  store block (sizeT (sz.toInt * avSize))
  store room akSize
  let (elements, s, ap) ← unpackValues amfUnpack sz.toInt.toNat ap
  .ok (elements, 4 + s, ap)

-- `room` is what the block has at the union of the value.
def unpackPayload (room : Nat) (type : UInt8) : Decoder AV := fun ap =>
  if plain : type ∉ payloadTags then .ok (.plain ⟨type, plain⟩, 0, ap)
  else if type = amfNumber then do
    let (bits, ap) ← unpackDouble ap
    store room 8
    .ok (.number bits, 8, ap)
  else if type = amfBoolean then do
    let (value, ap) ← unpackByte ap
    store room 1
    .ok (.boolean value, 1, ap)
  else if type = amfString then do
    let (content, n, ap) ← unpackZstr room ap
    .ok (.string content, n, ap)
  else if type = amfAssocArray then do
    let (elements, n, ap) ← unpackAssocArray amfUnpack room ap
    .ok (.assocArray elements, n, ap)
  else if type = amfHash then do
    let (elements, n, ap) ← unpackHash amfUnpack room ap
    .ok (.hash elements, n, ap)
  else if type = amfLink then do
    let (value, ap) ← unpackShort ap
    store room 2
    .ok (.link value, 2, ap)
  else do -- amfArray, the payload tag that is left
    let (elements, n, ap) ← unpackArray amfUnpack room ap
    .ok (.array elements, n, ap)

-- `room` is what the block has at `pvalue`.
def amfUnpackStep (room : Nat) : Decoder AV := fun ap =>
  if ap.len ≤ ap.src then do
    store room typeSize
    .ok (.end, 0, ap)
  else do
    let (type, ap) ← unpackByte ap
    store room typeSize
    let (value, n, ap) ← unpackPayload amfUnpack (room - unionOffset) type ap
    .ok (value, 1 + n, ap)

end Payloads

def amfUnpackDepth : Nat → Nat → Decoder AV
  | 0 => fun _ _ => .error .hang
  | depth+1 => amfUnpackStep (amfUnpackDepth depth)

-- Every level of nesting has read a tag, so the memory bounds the depth.
def amfUnpack (room : Nat) : Decoder AV := fun ap => amfUnpackDepth (ap.mem.length + 1) room ap

def amfApReadNext (ap : AP) : Res (AV × AP) := do
  let (block, ap) := ap.request avSize
  store block avSize
  let (value, _, ap) ← amfUnpack avSize ap
  .ok (value, ap)

def amfApIsEnd (ap : AP) : Bool := decide (ap.len ≤ ap.src)

def readArgumentsLoop : Nat → PoolBuffer AV → AP → Res (PoolBuffer AV × AP)
  | 0, _, _ => .error .hang
  | fuel+1, buffer, ap =>
    if amfApIsEnd ap then .ok (buffer, ap)
    else do
      let (value, _, ap) ← amfUnpack avSize ap
      let (buffer, ap) ← rtmpWbWriteIn buffer value avSize ap
      readArgumentsLoop fuel buffer ap

def amfApReadArguments (ap : AP) : Res (List AV × AP) := do
  let (buffer, ap) := rtmpWbInitIn 512 ap
  let (buffer, ap) ← readArgumentsLoop (ap.mem.length + 2) buffer ap
  .ok (rtmpWbGetValue buffer.buffer, ap)

def readArrayLoop : Nat → PoolBuffer AV → AP → Res (PoolBuffer AV × AP)
  | 0, _, _ => .error .hang
  | fuel+1, buffer, ap => do
    let (value, _, ap) ← amfUnpack avSize ap
    if value.type = amfEnd then .ok (buffer, ap)
    else do
      let (buffer, ap) ← rtmpWbWriteIn buffer value avSize ap
      readArrayLoop fuel buffer ap

def amfApReadArray (ap : AP) : Res (List AV × AP) := do
  let (buffer, ap) := rtmpWbInitIn 256 ap
  let (buffer, ap) ← readArrayLoop (ap.mem.length + 2) buffer ap
  .ok (rtmpWbGetValue buffer.buffer, ap)

section Branches
variable (amfUnpack : Nat → Decoder AV) (room : Nat) (ap : AP)

theorem payloadPlain (t : PlainTag) : unpackPayload amfUnpack room t.tag ap = .ok (.plain t, 0, ap) :=
  dif_pos t.plain

theorem payloadNumber : unpackPayload amfUnpack room amfNumber ap = (do
    let (bits, ap) ← unpackDouble ap
    store room 8
    .ok (.number bits, 8, ap)) := rfl

theorem payloadBoolean : unpackPayload amfUnpack room amfBoolean ap = (do
    let (value, ap) ← unpackByte ap
    store room 1
    .ok (.boolean value, 1, ap)) := rfl

theorem payloadString : unpackPayload amfUnpack room amfString ap = (do
    let (content, n, ap) ← unpackZstr room ap
    .ok (.string content, n, ap)) := rfl

theorem payloadLink : unpackPayload amfUnpack room amfLink ap = (do
    let (value, ap) ← unpackShort ap
    store room 2
    .ok (.link value, 2, ap)) := rfl

theorem payloadHash : unpackPayload amfUnpack room amfHash ap = (do
    let (elements, n, ap) ← unpackHash amfUnpack room ap
    .ok (.hash elements, n, ap)) := rfl

theorem payloadAssocArray : unpackPayload amfUnpack room amfAssocArray ap = (do
    let (elements, n, ap) ← unpackAssocArray amfUnpack room ap
    .ok (.assocArray elements, n, ap)) := rfl

theorem payloadArray : unpackPayload amfUnpack room amfArray ap = (do
    let (elements, n, ap) ← unpackArray amfUnpack room ap
    .ok (.array elements, n, ap)) := rfl

end Branches

theorem storeRoom {room need : Nat} (fits : need ≤ room) : store room need = .ok () := if_pos fits

theorem storeBehind {room need : Nat} (beyond : ¬ need ≤ room) : store room need = .error .overWrite :=
  if_neg beyond

theorem storeOk {room need : Nat} {a : Unit} (h : store room need = .ok a) : need ≤ room := by
  by_contra beyond
  rw [storeBehind beyond] at h
  contradiction

theorem readSrcAhead {ap : AP} {s t : Bytes} (h : ap.ahead = s ++ t) {n : Int}
    (len : n = s.length) : readSrc ap n = .ok (s, ap.advance s.length) := by
  subst len
  rw [readSrc, if_pos (by simp [h]), h]
  simp

theorem readSrcOk {ap ap' : AP} {n : Int} {xs : Bytes} (h : readSrc ap n = .ok (xs, ap')) :
    ∃ rest, ap.ahead = xs ++ rest ∧ n = xs.length ∧ ap' = ap.advance xs.length := by
  unfold readSrc at h
  split at h
  · rename_i enough
    cases Except.ok.inj h
    have len : (ap.ahead.take n.toNat).length = n.toNat := by
      rw [List.length_take]; omega
    exact ⟨ap.ahead.drop n.toNat, (List.take_append_drop _ _).symm, by omega, by rw [len]⟩
  · contradiction

theorem unpackBytePacked {ap : AP} {b : UInt8} {rest : Bytes} (h : ap.ahead = b :: rest) :
    unpackByte ap = .ok (b, ap.advance 1) := by
  have read := readSrcAhead (s := [b]) (t := rest) h (n := 1) (by simp)
  simp only [unpackByte, read, Fallible.okBind]
  rfl

theorem unpackStepTag (amfUnpack : Nat → Decoder AV) {room : Nat} (fits : typeSize ≤ room) {ap : AP}
    {t : UInt8} {s : Bytes} (whole : ap.len = ap.mem.length) (h : ap.ahead = t :: s) :
    amfUnpackStep amfUnpack room ap = (do
      let (value, n, ap) ← unpackPayload amfUnpack (room - unionOffset) t (ap.advance 1)
      .ok (value, 1 + n, ap)) := by
  have sizes := congrArg List.length h
  simp only [AP.ahead, List.length_drop, List.length_cons] at sizes
  rw [amfUnpackStep, if_neg (by omega), unpackBytePacked h, Fallible.okBind]
  dsimp only
  rw [storeRoom fits, Fallible.okBind]

theorem endAhead {ap : AP} (whole : ap.len = ap.mem.length) :
    amfApIsEnd ap = true ↔ ap.ahead = [] := by
  rw [amfApIsEnd, decide_eq_true_iff, AP.ahead, List.drop_eq_nil_iff, whole]
  omega

/- How many elements a write buffer holds, its capacity and the length of its block. -/
structure Gathering where
  stored : Nat
  capacity : Nat
  block : Nat

namespace Gathering

def init (ppool : Serving) (asked : List Nat) (capacity : Nat) : Gathering := ⟨0, capacity, ppool asked capacity⟩

variable (ppool : Serving) (asked : List Nat) (size : Nat) (held : Gathering)

-- The bytes that one element more takes.
def need : Nat := (held.stored + 1) * size

-- One element more, in a block of twice the capacity where the old one is full.
def next : Gathering :=
  if held.need size ≤ held.capacity then { held with stored := held.stored + 1 }
  else ⟨held.stored + 1, held.capacity * 2, ppool asked (held.capacity * 2)⟩

def nextAsked : List Nat :=
  if held.need size ≤ held.capacity then asked else held.capacity * 2 :: asked

end Gathering

structure Keeps {α : Type} (pb : PoolBuffer α) (held : Gathering) (size : Nat) : Prop where
  stored : Stored pb.buffer held.stored size
  capacity : pb.buffer.capacity = held.capacity
  wide : size ≤ held.capacity
  block : pb.block = held.block

section Buffers
variable {α : Type} {pb : PoolBuffer α} {held : Gathering} {size : Nat}

theorem keepsInit {ppool : Serving} {asked : List Nat} {capacity j : Nat} (small : j ≤ 30)
    (power : (capacity : Int) = 2 ^ j) (wide : size ≤ capacity) :
    Keeps (⟨rtmpWbInit capacity, ppool asked capacity⟩ : PoolBuffer α) (.init ppool asked capacity) size :=
  ⟨storedInit small power size, rfl, wide, rfl⟩

theorem keepsFull (keeps : Keeps pb held size) (small : size ≤ 64) (full : ¬ held.need size ≤ 1073741824)
    (elem : α) (ap : AP) : rtmpWbWriteIn pb elem size ap = .error .hang := by
  rw [rtmpWbWriteIn, storedFull keeps.stored [elem] small full, Fallible.errorBind]

theorem keepsWrite (keeps : Keeps pb held size) (room : held.need size ≤ 1073741824) (elem : α) (ap : AP) :
    ∃ pb' : PoolBuffer α, pb'.buffer.content = pb.buffer.content ++ [elem] ∧
      Keeps pb' (held.next ap.ppool ap.asked size) size ∧
      rtmpWbWriteIn pb elem size ap = store (held.next ap.ppool ap.asked size).block (held.need size) >>=
        fun _ => .ok (pb', ap.went 0 (held.nextAsked ap.asked size)) := by
  have wide := keeps.wide
  obtain ⟨grown, written, content, stored, chosen⟩ :=
    storedTwice keeps.stored (by rw [keeps.capacity]; omega) [elem] room
  have took : grown.length = held.need size := stored.length
  have same := keeps.capacity
  have positive := powerCapacityPositive keeps.stored.power
  rw [same] at chosen positive
  have grows : held.need size ≤ held.capacity ↔ ((((held.stored + 1) * size : Nat) : Int) ≤ held.capacity) :=
    Int.ofNat_le.symm
  rw [rtmpWbWriteIn, written, Fallible.okBind, Gathering.nextAsked, Gathering.next]
  by_cases fits : held.need size ≤ held.capacity
  · rw [if_pos (grows.mp fits)] at chosen
    rw [if_pos fits, if_pos fits, if_pos (chosen.trans same.symm), took, keeps.block]
    exact ⟨⟨grown, held.block⟩, content, ⟨stored, chosen, wide, rfl⟩, rfl⟩
  · rw [if_neg (mt grows.mpr fits)] at chosen
    have word : unsignedInt grown.capacity % 2 ^ 32 = held.capacity * 2 := by
      rw [unsignedInt, chosen]
      omega
    rw [if_neg fits, if_neg fits, if_neg (by omega), took, AP.request, word]
    exact ⟨⟨grown, _⟩, content, ⟨stored, by dsimp only; omega, by dsimp only; omega, rfl⟩, rfl⟩

end Buffers

example : (amfUnpack avSize (amfApAlloc rtPool [3, 0, 1, 97, 1, 1, 0, 0, 9, 5] 10)).map
    (fun r => r.2.1) = .ok 9 := by decide

-- The 24 bytes for 107374183 table elements take a terminator, but no second element.
example : (amfUnpack avSize (amfApAlloc rtPool [8, 6, 102, 102, 103, 0, 0, 9] 8)).map
    (fun r => r.2.1) = .ok 8 := by decide

end Rushkit.Amf
