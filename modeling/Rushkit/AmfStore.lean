import Rushkit.AmfValue
import Rushkit.Library.Splice

/-! `amf_pack` as it writes through its pointer (`amf.c`): every write is checked against
the block, every packer returns a count, and the pointer moves by what was returned. -/
namespace Rushkit.Amf
open Splice

-- A write of `data` at `dest`, counted from the start of the block.
def storeBytes (data : Bytes) (dest : Int) (block : Bytes) : Res Bytes :=
  if 0 ≤ dest ∧ dest + data.length ≤ block.length then .ok (splice block dest.toNat data)
  else .error .overWrite

abbrev Packer := Int → Bytes → Res (Int × Bytes)

def packDoubleAt (src : BitVec 64) : Packer := fun dest block => do
  let block ← storeBytes (packDouble src) dest block
  .ok (8, block)

def packLongAt (src : Int) : Packer := fun dest block => do
  let block ← storeBytes (packLong src) dest block
  .ok (4, block)

def packShortAt (src : Int) : Packer := fun dest block => do
  let block ← storeBytes (packShort src) dest block
  .ok (2, block)

def packByteAt (val : UInt8) : Packer := fun dest block => do
  let block ← storeBytes [val] dest block
  .ok (1, block)

def packStringAt (str : Bytes) : Packer := fun dest block => do
  let (n, block) ← packShortAt str.length dest block
  let block ← storeBytes str (dest + n) block
  .ok (int32 (str.length + 2), block)

def packEmptyStringAt : Packer := packStringAt []

-- `p += f(p)`
def step (f : Packer) (s : Int × Bytes) : Res (Int × Bytes) := do
  let (n, block) ← f s.1 s.2
  .ok (s.1 + n, block)

-- `return p - dest` after `steps`
def packWith (steps : Int × Bytes → Res (Int × Bytes)) : Packer := fun dest block => do
  let (p, block) ← steps (dest, block)
  .ok (int32 (p - dest), block)

def packEndAt : Packer := packWith (step (packByteAt amfEnd))

-- The table and array packers with their loops over the elements as an argument.
def packHashAt (elements : Int × Bytes → Res (Int × Bytes)) : Packer := packWith fun s => do
  let s ← elements s
  let s ← step packEmptyStringAt s
  step packEndAt s

def packCountedAt (size : Nat) (elements : Int × Bytes → Res (Int × Bytes)) : Packer :=
  packWith fun s => do
    let s ← step (packLongAt size) s
    elements s

def packAssocArrayAt := packCountedAt

def packArrayAt := packCountedAt

def packTagged (tag : UInt8) (payload : Packer) : Packer := packWith fun s => do
  let s ← step (packByteAt tag) s
  step payload s

mutual
def amfPackAt : AV → Packer
  | .number bits => packTagged amfNumber (packDoubleAt bits)
  | .boolean value => packTagged amfBoolean (packByteAt value)
  | .string content => packTagged amfString (packStringAt content)
  | .assocArray elements => packTagged amfAssocArray (packAssocArrayAt elements.length (packElemsAt elements))
  | .hash elements => packTagged amfHash (packHashAt (packElemsAt elements))
  | .array elements => packTagged amfArray (packArrayAt elements.length (packValuesAt elements))
  | .link value => packTagged amfLink (packShortAt value.toInt)
  | .plain t => packWith (step (packByteAt t.tag))
def packElemsAt : List (AkTableElem AV) → Int × Bytes → Res (Int × Bytes)
  | [], s => .ok s
  | ⟨key, value⟩ :: rest, s => do
    let s ← step (packStringAt key) s
    let s ← step (amfPackAt value) s
    packElemsAt rest s
def packValuesAt : List AV → Int × Bytes → Res (Int × Bytes)
  | [], s => .ok s
  | value :: rest, s => do
    let s ← step (amfPackAt value) s
    packValuesAt rest s
end

-- `data` is placed at `dest` and the block handed on, or the block is too short for it.
def placed {α : Type} (data : Bytes) (dest : Nat) (block : Bytes) (next : Bytes → Res α) : Res α :=
  if dest + data.length ≤ block.length then next (splice block dest data) else .error .overWrite

section Placing
variable {α β : Type} {xs ys : Bytes} {dest : Nat} {block : Bytes}

theorem placedBind (f : Bytes → Res α) (g : α → Res β) :
    placed xs dest block f >>= g = placed xs dest block (fun b => f b >>= g) := by
  unfold placed
  split <;> rfl

theorem placedCongr {f g : Bytes → Res α}
    (same : ∀ b, b.length = block.length → dest + xs.length ≤ b.length → f b = g b) :
    placed xs dest block f = placed xs dest block g := by
  unfold placed
  split
  · rename_i fits
    have length := spliceLength fits
    exact same _ length (length ▸ fits)
  · rfl

theorem placedAppend (f : Bytes → Res α) :
    placed xs dest block (fun b => placed ys (dest + xs.length) b f) =
      placed (xs ++ ys) dest block f := by
  unfold placed
  rw [List.length_append]
  by_cases first : dest + xs.length ≤ block.length
  · simp only [if_pos first, spliceLength first, spliceSplice first, Nat.add_assoc]
  · rw [if_neg first, if_neg (by omega)]

theorem storePlaced (data : Bytes) (dest : Nat) (block : Bytes) :
    storeBytes data dest block = placed data dest block .ok := by
  unfold storeBytes placed
  congr 1
  exact propext ⟨fun ⟨_, fits⟩ => by omega, fun fits => ⟨by omega, by omega⟩⟩

theorem placedThen {f : Bytes → Res α} {next : α → Res β} {g : Bytes → Res β}
    (rest : ∀ b, b.length = block.length → dest + xs.length ≤ b.length →
      (f b >>= next) = placed ys (dest + xs.length) b g) :
    placed xs dest block f >>= next = placed (xs ++ ys) dest block g := by
  rw [placedBind, ← placedAppend]
  exact placedCongr rest

end Placing

def IntSized (data block : Bytes) : Prop := data.length < 2147483648 ∨ block.length < 2147483648

-- A packer writes `data`, all of it or up to the end of the block, and returns its length.
def Packs (f : Packer) (data : Bytes) : Prop :=
  ∀ (dest : Nat) (block : Bytes), IntSized data block → dest ≤ block.length →
    f dest block = placed data dest block (fun b => .ok ((data.length : Int), b))

def Steps (w : Int × Bytes → Res (Int × Bytes)) (data : Bytes) : Prop :=
  ∀ (dest : Nat) (block : Bytes), IntSized data block → dest ≤ block.length →
    w (dest, block) = placed data dest block (fun b => .ok (((dest + data.length : Nat) : Int), b))

theorem intSizedSplit {xs ys block : Bytes} (sized : IntSized (xs ++ ys) block) :
    IntSized xs block ∧ IntSized ys block := by
  unfold IntSized at *
  rw [List.length_append] at sized
  omega

theorem intSizedKept {data block b : Bytes} (length : b.length = block.length)
    (sized : IntSized data block) : IntSized data b := by
  unfold IntSized at *
  rwa [length]

theorem intSizedReturn {data block : Bytes} (sized : IntSized data block) (dest : Nat)
    (fits : dest + data.length ≤ block.length) : int32 data.length = data.length := by
  unfold IntSized at sized
  exact int32Same (by omega) (by omega)

theorem packsStore {data : Bytes} {n : Nat} (length : data.length = n) :
    Packs (fun dest block => storeBytes data dest block >>= fun b => .ok ((n : Int), b)) data := by
  intro dest block _ _
  subst length
  dsimp only
  rw [storePlaced, placedBind]
  rfl

theorem packsString (str : Bytes) : Packs (packStringAt str) (packString str) := by
  intro dest block sized fits
  have short : Packs (packShortAt str.length) (packShort str.length) := packsStore (packShortLength _)
  have total : ((str.length : Int) + 2) = (packString str).length := by
    rw [packStringLength]
    omega
  rw [packStringAt, short dest block (intSizedSplit sized).1 fits, packString]
  refine placedThen fun b length room => ?_
  rw [Fallible.okBind]
  dsimp only
  rw [← Int.natCast_add, storePlaced, placedBind]
  refine placedCongr fun b' length' room' => ?_
  have returned : int32 (packString str).length = (packString str).length := by
    refine intSizedReturn (intSizedKept (length'.trans length) sized) dest ?_
    rw [packStringLength]
    rw [packShortLength] at room'
    omega
  rw [Fallible.okBind, total, returned]
  rfl

theorem stepsDone : Steps .ok [] := by
  intro dest block _ fits
  rw [placed, List.length_nil, Nat.add_zero, if_pos fits, spliceNothing]

theorem stepsThen {w w' : Int × Bytes → Res (Int × Bytes)} {xs ys : Bytes} (first : Steps w xs)
    (second : Steps w' ys) : Steps (fun s => w s >>= w') (xs ++ ys) := by
  intro dest block sized fits
  obtain ⟨left, right⟩ := intSizedSplit sized
  dsimp only
  rw [first dest block left fits, List.length_append, ← Nat.add_assoc]
  refine placedThen fun b length room => ?_
  exact second (dest + xs.length) b (intSizedKept length right) room

theorem stepsPacker {f : Packer} {data : Bytes} (packs : Packs f data) : Steps (step f) data := by
  intro dest block sized fits
  rw [step, packs dest block sized fits, placedBind]
  refine placedCongr fun b _ _ => ?_
  rw [Fallible.okBind, Int.natCast_add]

theorem packsSteps {w : Int × Bytes → Res (Int × Bytes)} {data : Bytes} (steps : Steps w data) :
    Packs (packWith w) data := by
  intro dest block sized fits
  rw [packWith, steps dest block sized fits, placedBind]
  refine placedCongr fun b length room => ?_
  have returned := intSizedReturn (intSizedKept length sized) dest room
  have distance : ((dest + data.length : Nat) : Int) - dest = data.length := by omega
  rw [Fallible.okBind]
  dsimp only
  rw [distance, returned]

theorem packsByte (val : UInt8) : Packs (packByteAt val) (packByte val) := packsStore rfl

theorem packsTagged {payload : Packer} {data : Bytes} (tag : UInt8) (packs : Packs payload data) :
    Packs (packTagged tag payload) (packByte tag ++ data) :=
  packsSteps (stepsThen (stepsPacker (packsByte tag)) (stepsPacker packs))

theorem packsHash {elements : Int × Bytes → Res (Int × Bytes)} {data : Bytes}
    (steps : Steps elements data) : Packs (packHashAt elements) (data ++ packEmptyString ++ packEnd) := by
  have stop : Packs packEndAt packEnd := packsSteps (stepsPacker (packsByte amfEnd))
  have last := stepsThen (stepsPacker (packsString [])) (stepsPacker stop)
  rw [List.append_assoc]
  exact packsSteps (stepsThen steps last)

theorem packsCounted {elements : Int × Bytes → Res (Int × Bytes)} {data : Bytes} (size : Nat)
    (steps : Steps elements data) : Packs (packCountedAt size elements) (packLong size ++ data) :=
  packsSteps (stepsThen (stepsPacker (packsStore (packLongLength size))) steps)

mutual
theorem packsValue : (v : AV) → Packs (amfPackAt v) (amfPack v)
  | .number bits => by
    rw [amfPackAt, amfPack]
    exact packsTagged amfNumber (packsStore (packDoubleLength bits))
  | .boolean value => by
    rw [amfPackAt, amfPack]
    exact packsTagged amfBoolean (packsByte value)
  | .string content => by
    rw [amfPackAt, amfPack]
    exact packsTagged amfString (packsString content)
  | .assocArray elements => by
    rw [amfPackAt, amfPack]
    exact packsTagged amfAssocArray (packsCounted _ (packsElems elements))
  | .hash elements => by
    rw [amfPackAt, amfPack]
    exact packsTagged amfHash (packsHash (packsElems elements))
  | .array elements => by
    rw [amfPackAt, amfPack]
    exact packsTagged amfArray (packsCounted _ (packsValues elements))
  | .link value => by
    rw [amfPackAt, amfPack]
    exact packsTagged amfLink (packsStore (packShortLength _))
  | .plain t => by
    rw [amfPackAt, amfPack]
    exact packsSteps (stepsPacker (packsByte t.tag))
theorem packsElems : (elements : List (AkTableElem AV)) → Steps (packElemsAt elements) (packElems elements)
  | [] => stepsDone
  | ⟨key, value⟩ :: rest => by
    rw [packElems, List.append_assoc]
    exact stepsThen (stepsPacker (packsString key))
      (stepsThen (stepsPacker (packsValue value)) (packsElems rest))
theorem packsValues : (elements : List AV) → Steps (packValuesAt elements) (packValues elements)
  | [] => stepsDone
  | value :: rest => stepsThen (stepsPacker (packsValue value)) (packsValues rest)
end

-- The blocks `rt_pool_alloc` hands out, with whatever they contain.
structure PoolBlocks where
  block : Nat → Bytes
  length : ∀ size, (block size).length = rtPoolAlloc size

def amfPackArgumentsAt (pool : PoolBlocks) (arguments : List AV) : Res Bytes := do
  let (buffer, block) ← packValuesAt arguments (0, pool.block (sumCap arguments))
  check .amfPackArguments (int32 (sumCap arguments) = buffer)
  .ok (block.take (int32 (sumCap arguments)).toNat)

-- `amf_new_string` copies the method name into a block of its own.
def amfPackCallAt (pool : PoolBlocks) (methodName : Bytes) (reqId : BitVec 64) (arguments : List AV) :
    Res Bytes := do
  let tmpdata ← storeBytes methodName 0 (pool.block methodName.length)
  let headers := [AV.string (tmpdata.take methodName.length), .number reqId, .nil]
  let sumCap := sumCap headers + sumCap arguments
  let (buffer, block) ← packValuesAt headers (0, pool.block sumCap)
  let (buffer, block) ← packValuesAt arguments (buffer, block)
  check .amfPackCall (int32 sumCap = buffer)
  .ok (block.take (int32 sumCap).toNat)

section Blocks
variable (pool : PoolBlocks)

theorem blockInt (data : Bytes) (size : Nat) : IntSized data (pool.block size) := by
  have bound := rtPoolAllocBound size
  rw [← pool.length] at bound
  exact .inr (by omega)

theorem placedChecked (site : Site) (data : Bytes) (size : Nat) :
    (placed data 0 (pool.block size) fun b => do
      check site (int32 size = ((0 + data.length : Nat) : Int))
      .ok (b.take (int32 size).toNat)) =
    if rtPoolAlloc (size % 2 ^ 32) < data.length then .error .overWrite
    else check site (int32 size = data.length) >>= fun _ => .ok data := by
  have length := pool.length size
  rw [placed, Nat.zero_add, rtPoolAllocWord, ← length]
  by_cases fits : data.length ≤ (pool.block size).length
  · rw [if_pos fits, if_neg (Nat.not_lt_of_le fits)]
    by_cases same : int32 size = data.length
    · have kept := spliceRead data (Nat.zero_le (pool.block size).length)
      rw [List.drop_zero] at kept
      rw [checkTrue same, same, Int.toNat_natCast]
      simp [kept]
    · rw [checkFalse same, Fallible.errorBind, Fallible.errorBind]
  · rw [if_neg fits, if_pos (Nat.lt_of_not_le fits)]

theorem packArgumentsStored (arguments : List AV) :
    amfPackArgumentsAt pool arguments = amfPackArguments rtPoolAlloc arguments := by
  have packed := packsValues arguments 0 _ (blockInt pool _ (sumCap arguments)) (Nat.zero_le _)
  rw [Nat.cast_zero] at packed
  have checked := placedChecked pool .amfPackArguments (packValues arguments) (sumCap arguments)
  unfold amfPackArgumentsAt amfPackArguments
  rw [packed, placedBind]
  exact (placedCongr fun b _ _ => Fallible.okBind _ _).trans checked

theorem callLength (methodName : Bytes) (reqId : BitVec 64) (arguments : List AV) :
    (packValues [.string methodName, .number reqId, .nil] ++ packValues arguments).length =
      methodName.length + 13 + sumCap arguments := by
  rw [List.length_append, packValuesLength, packValuesLength, sumCap]
  simp only [valuesPackSize, amfGetPackSize, AV.nil]
  omega

theorem nameOver {methodName : Bytes} (beyond : ¬ methodName.length ≤ rtPoolAlloc methodName.length)
    (reqId : BitVec 64) (arguments : List AV) :
    amfPackCall rtPoolAlloc methodName reqId arguments = .error .overWrite := by
  have long : ¬ methodName.length < 2147481600 := fun short => beyond (rtPoolAllocServes.mpr short)
  have total := callLength methodName reqId arguments
  have bound := rtPoolAllocBound
    ((sumCap [.string methodName, .number reqId, .nil] + sumCap arguments) % 2 ^ 32)
  unfold amfPackCall
  exact if_pos (by omega)

theorem packCallStored (methodName : Bytes) (reqId : BitVec 64) (arguments : List AV) :
    amfPackCallAt pool methodName reqId arguments =
      amfPackCall rtPoolAlloc methodName reqId arguments := by
  have length := pool.length methodName.length
  by_cases fits : methodName.length ≤ rtPoolAlloc methodName.length
  case neg =>
    rw [nameOver fits, amfPackCallAt, storeBytes, length, if_neg (by omega), Fallible.errorBind]
  have kept := spliceRead methodName (Nat.zero_le (pool.block methodName.length).length)
  rw [List.drop_zero] at kept
  have stored : storeBytes methodName 0 (pool.block methodName.length) =
      .ok (splice (pool.block methodName.length) 0 methodName) := if_pos (by omega)
  let headers := [AV.string methodName, .number reqId, .nil]
  let data := packValues headers ++ packValues arguments
  let size := sumCap headers + sumCap arguments
  have packed := stepsThen (packsValues headers) (packsValues arguments) 0 _ (blockInt pool data size)
    (Nat.zero_le _)
  rw [Nat.cast_zero] at packed
  dsimp only at packed
  have checked := placedChecked pool .amfPackCall data size
  have whole : (packValuesAt headers (0, pool.block size) >>= packValuesAt arguments >>= fun s => do
      check .amfPackCall (int32 size = s.1)
      .ok (s.2.take (int32 size).toNat)) = amfPackCall rtPoolAlloc methodName reqId arguments := by
    rw [packed, placedBind]
    exact (placedCongr fun b _ _ => Fallible.okBind _ _).trans checked
  rw [amfPackCallAt, stored, Fallible.okBind, kept, ← whole, bind_assoc]

end Blocks

theorem packedOver (site : Site) {data : Bytes} {size : Nat} (length : data.length = size)
    (large : ¬ size < 2147481600) :
    (if rtPoolAlloc (size % 2 ^ 32) < data.length then .error .overWrite
      else check site (int32 size = data.length) >>= fun _ => .ok data) = .error .overWrite := by
  have bound := rtPoolAllocBound (size % 2 ^ 32)
  exact if_pos (by omega)

theorem packedInside (site : Site) {data : Bytes} {size : Nat} (length : data.length = size) :
    (if rtPoolAlloc (size % 2 ^ 32) < data.length then .error .overWrite
      else check site (int32 size = data.length) >>= fun _ => .ok data) = .ok data ↔
    size < 2147481600 := by
  constructor
  · intro packed
    by_contra large
    rw [packedOver site length large] at packed
    cases packed
  · intro small
    have served := rtPoolAllocServes.mpr small
    have same : int32 size = data.length := by
      rw [length]
      exact int32Same (by omega) (by omega)
    rw [rtPoolAllocWord, checkTrue same, length]
    exact if_neg (Nat.not_lt_of_le served)

theorem argumentsOver (pool : PoolBlocks) {arguments : List AV} (large : ¬ sumCap arguments < 2147481600) :
    amfPackArgumentsAt pool arguments = .error .overWrite := by
  rw [packArgumentsStored]
  exact packedOver .amfPackArguments (packValuesLength arguments) large

theorem packSizeExact (pool : PoolBlocks) :
    (∀ (v : AV) (dest : Nat) (block : Bytes), amfGetPackSize v < 2147483648 →
      dest + amfGetPackSize v ≤ block.length → ∃ bytes, bytes.length = amfGetPackSize v ∧
        amfPackAt v dest block = .ok ((amfGetPackSize v : Int), splice block dest bytes)) ∧
    (∀ arguments, amfPackArgumentsAt pool arguments = .ok (packValues arguments) ↔
      sumCap arguments < 2147481600) ∧
    ∀ methodName reqId arguments, amfPackCallAt pool methodName reqId arguments =
        .ok (packValues [.string methodName, .number reqId, .nil] ++ packValues arguments) ↔
      methodName.length + 13 + sumCap arguments < 2147481600 := by
  refine ⟨fun v dest block int fits => ⟨amfPack v, packLength v, ?_⟩, fun arguments => ?_,
    fun methodName reqId arguments => ?_⟩
  · have length := packLength v
    rw [packsValue v dest block (.inl (by omega)) (by omega), placed, length, if_pos fits]
  · rw [packArgumentsStored]
    exact packedInside .amfPackArguments (packValuesLength arguments)
  · have length := callLength methodName reqId arguments
    have total : sumCap [.string methodName, .number reqId, .nil] + sumCap arguments =
        methodName.length + 13 + sumCap arguments := by
      rw [← length, List.length_append, packValuesLength, packValuesLength, sumCap]
    rw [packCallStored, amfPackCall, ← total]
    exact packedInside .amfPackCall (length.trans total.symm)

def zeroBlocks : PoolBlocks := ⟨fun size => List.replicate (rtPoolAlloc size) 0, fun _ => List.length_replicate⟩

def longString (n : Nat) : AV := .string (List.replicate n 0)

theorem longStringSize (n : Nat) : sumCap [longString n] = n + 3 := by
  simp only [sumCap, longString, valuesPackSize, amfGetPackSize, List.length_replicate]
  omega

theorem longArgumentOverruns : sumCap [longString 2147481597] < 2147483648 ∧
    amfPackArgumentsAt zeroBlocks [longString 2147481597] = .error .overWrite := by
  have size := longStringSize 2147481597
  exact ⟨by omega, argumentsOver zeroBlocks (by omega)⟩

end Rushkit.Amf
