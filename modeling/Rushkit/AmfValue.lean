import Rushkit.WriteGrowth
import Rushkit.Pool

/-! AMF values and `amf_pack` with its sizes (`amf.c`). A value is the tree behind
an `AV`: the counts and lengths of the C structures are those of the lists. -/
namespace Rushkit.Amf

def amfNumber : UInt8 := 0
def amfBoolean : UInt8 := 1
def amfString : UInt8 := 2
def amfHash : UInt8 := 3
def amfNil : UInt8 := 5
def amfLink : UInt8 := 7
def amfAssocArray : UInt8 := 8
def amfEnd : UInt8 := 9
def amfArray : UInt8 := 10

def payloadTags : List UInt8 :=
  [amfNumber, amfBoolean, amfString, amfHash, amfLink, amfAssocArray, amfArray]

-- A tag every switch of the source sends to its default branch.
structure PlainTag where
  tag : UInt8
  plain : tag ∉ payloadTags
  deriving DecidableEq, Repr

structure AkTableElem (α : Type) where
  key : Bytes
  value : α
  deriving DecidableEq, Repr

inductive AV where
  | number (bits : BitVec 64)
  | boolean (value : UInt8)
  | string (content : Bytes)
  | hash (elements : List (AkTableElem AV))
  | link (value : BitVec 16)
  | assocArray (elements : List (AkTableElem AV))
  | array (elements : List AV)
  | plain (tag : PlainTag)
  deriving Repr

def AV.nil : AV := .plain ⟨amfNil, by decide⟩
def AV.end : AV := .plain ⟨amfEnd, by decide⟩

def AV.type : AV → UInt8
  | .number _ => amfNumber
  | .boolean _ => amfBoolean
  | .string _ => amfString
  | .hash _ => amfHash
  | .link _ => amfLink
  | .assocArray _ => amfAssocArray
  | .array _ => amfArray
  | .plain t => t.tag

def packDouble (src : BitVec 64) : Bytes := loadData (hostBytes 8 src)

def packLong (src : Int) : Bytes := loadData (hostBytes 4 (BitVec.ofInt 32 src))

def packShort (src : Int) : Bytes := loadData (hostBytes 2 (BitVec.ofInt 16 src))

def packByte (val : UInt8) : Bytes := [val]

-- The length field keeps the low 16 bits, the content is copied whole.
def packString (str : Bytes) : Bytes := packShort str.length ++ str

def packEmptyString : Bytes := packString []

def packEnd : Bytes := packByte amfEnd

-- The bytes of a value; `amfPackAt` follows the pointer, whose `int` steps wrap from 2^31 bytes on.
-- `packElems` and `packValues` are the loops shared by the table and array encoders.
mutual
def amfPack : AV → Bytes
  | .number bits => packByte amfNumber ++ packDouble bits
  | .boolean value => packByte amfBoolean ++ packByte value
  | .string content => packByte amfString ++ packString content
  | .assocArray elements =>
    packByte amfAssocArray ++ (packLong elements.length ++ packElems elements)
  | .hash elements => packByte amfHash ++ (packElems elements ++ packEmptyString ++ packEnd)
  | .array elements => packByte amfArray ++ (packLong elements.length ++ packValues elements)
  | .link value => packByte amfLink ++ packShort value.toInt
  | .plain t => packByte t.tag
def packElems : List (AkTableElem AV) → Bytes
  | [] => []
  | ⟨key, value⟩ :: rest => packString key ++ amfPack value ++ packElems rest
def packValues : List AV → Bytes
  | [] => []
  | value :: rest => amfPack value ++ packValues rest
end

def packHash (elements : List (AkTableElem AV)) : Bytes :=
  packElems elements ++ packEmptyString ++ packEnd

def packAssocArray (elements : List (AkTableElem AV)) : Bytes :=
  packLong elements.length ++ packElems elements

def packArray (elements : List AV) : Bytes := packLong elements.length ++ packValues elements

theorem packHashTag (elements) : amfPack (.hash elements) = amfHash :: packHash elements := by
  simp [amfPack, packHash, packByte]

theorem packAssocArrayTag (elements) :
    amfPack (.assocArray elements) = amfAssocArray :: packAssocArray elements := by
  simp [amfPack, packAssocArray, packByte]

theorem packArrayTag (elements) : amfPack (.array elements) = amfArray :: packArray elements := by
  simp [amfPack, packArray, packByte]

-- `_pack_end` goes through `amf_pack`, which writes the tag alone.
theorem packEndTag : amfPack .end = packEnd := by simp [AV.end, amfPack, packEnd]

mutual
def amfGetPackSize : AV → Nat
  | .number _ => 8 + 1
  | .boolean _ => 1 + 1
  | .string content => 2 + content.length + 1
  | .assocArray elements => 4 + elemsPackSize elements + 1
  | .hash elements => elemsPackSize elements + 3 + 1
  | .array elements => 4 + valuesPackSize elements + 1
  | .link _ => 2 + 1
  | .plain _ => 0 + 1
def elemsPackSize : List (AkTableElem AV) → Nat
  | [] => 0
  | ⟨key, value⟩ :: rest => key.length + 2 + amfGetPackSize value + elemsPackSize rest
def valuesPackSize : List AV → Nat
  | [] => 0
  | value :: rest => amfGetPackSize value + valuesPackSize rest
end

@[simp] theorem packDoubleLength (src) : (packDouble src).length = 8 := by simp [packDouble]
@[simp] theorem packLongLength (src) : (packLong src).length = 4 := by simp [packLong]
@[simp] theorem packShortLength (src) : (packShort src).length = 2 := by simp [packShort]

@[simp] theorem packStringLength (str : Bytes) : (packString str).length = 2 + str.length := by
  simp [packString]

mutual
theorem packLength : (v : AV) → (amfPack v).length = amfGetPackSize v
  | .number _ => by simp [amfPack, amfGetPackSize, packByte]
  | .boolean _ => by simp [amfPack, amfGetPackSize, packByte]
  | .string _ => by simp [amfPack, amfGetPackSize, packByte]
  | .assocArray elements => by
    have size := packElemsLength elements
    simp [amfPack, amfGetPackSize, packByte, size]
  | .hash elements => by
    have size := packElemsLength elements
    simp [amfPack, amfGetPackSize, packByte, packEmptyString, packEnd, size]
  | .array elements => by
    have size := packValuesLength elements
    simp [amfPack, amfGetPackSize, packByte, size]
  | .link _ => by simp [amfPack, amfGetPackSize, packByte]
  | .plain _ => by simp [amfPack, amfGetPackSize, packByte]
theorem packElemsLength : (elements : List (AkTableElem AV)) →
    (packElems elements).length = elemsPackSize elements
  | [] => rfl
  | ⟨key, value⟩ :: rest => by
    have head := packLength value
    have tail := packElemsLength rest
    simp only [packElems, elemsPackSize, List.length_append, packStringLength, head, tail]
    omega
theorem packValuesLength : (elements : List AV) →
    (packValues elements).length = valuesPackSize elements
  | [] => rfl
  | value :: rest => by
    have head := packLength value
    have tail := packValuesLength rest
    simp only [packValues, valuesPackSize, List.length_append, head, tail]
end

theorem packSizePositive (v : AV) : 1 ≤ amfGetPackSize v := by
  cases v <;> simp only [amfGetPackSize] <;> omega

theorem valuePackSize {elements : List AV} {v : AV} (member : v ∈ elements) :
    amfGetPackSize v ≤ valuesPackSize elements := by
  induction elements with
  | nil => contradiction
  | cons head tail ih =>
    rw [valuesPackSize]
    rcases List.mem_cons.mp member with rfl | inside
    · omega
    · have := ih inside
      omega

theorem elemPackSize {elements : List (AkTableElem AV)} {e : AkTableElem AV}
    (member : e ∈ elements) : e.key.length + 2 + amfGetPackSize e.value ≤ elemsPackSize elements := by
  induction elements with
  | nil => contradiction
  | cons head tail ih =>
    cases head with
    | mk key value =>
      rw [elemsPackSize]
      rcases List.mem_cons.mp member with rfl | inside
      · show key.length + 2 + amfGetPackSize value ≤ _
        omega
      · have := ih inside
        omega

theorem elemsCount (elements : List (AkTableElem AV)) :
    3 * elements.length ≤ elemsPackSize elements := by
  induction elements with
  | nil => simp
  | cons head tail ih =>
    cases head with
    | mk key value =>
      have := packSizePositive value
      rw [List.length_cons, elemsPackSize]
      omega

theorem valuesCount (elements : List AV) : elements.length ≤ valuesPackSize elements := by
  induction elements with
  | nil => simp
  | cons head tail ih =>
    have := packSizePositive head
    rw [List.length_cons, valuesPackSize]
    omega

def sumCap : List AV → Nat := valuesPackSize

/-- `amf_pack_arguments`; the `int` sum wraps, the pointer difference does not. -/
def amfPackArguments (ppool : Alloc) (arguments : List AV) : Res Bytes := do
  let buffer := packValues arguments
  if ppool (sumCap arguments % 2 ^ 32) < buffer.length then .error .overWrite
  else do
    check .amfPackArguments (int32 (sumCap arguments) = buffer.length)
    .ok buffer

/-- `amf_pack_call` with the request number as the bits of its `double`. -/
def amfPackCall (ppool : Alloc) (methodName : Bytes) (reqId : BitVec 64) (arguments : List AV) :
    Res Bytes := do
  let headers := [AV.string methodName, .number reqId, .nil]
  let buffer := packValues headers ++ packValues arguments
  if ppool ((sumCap headers + sumCap arguments) % 2 ^ 32) < buffer.length then .error .overWrite
  else do
    check .amfPackCall (int32 (sumCap headers + sumCap arguments) = buffer.length)
    .ok buffer

theorem packValuesAppend (a b : List AV) : packValues (a ++ b) = packValues a ++ packValues b := by
  induction a with
  | nil => rfl
  | cons head tail ih => simp [packValues, ih]

section Packed
variable (ppool : Alloc)

def packed (payload : Bytes) : Res Bytes :=
  if ppool payload.length < payload.length then .error .overWrite else .ok payload

theorem packArgumentsBlock (arguments : List AV) (int : (packValues arguments).length < 2147483648) :
    amfPackArguments ppool arguments = packed ppool (packValues arguments) := by
  have total := packValuesLength arguments
  have word : sumCap arguments % 2 ^ 32 = (packValues arguments).length := by
    rw [sumCap, ← total]
    exact Nat.mod_eq_of_lt (by omega)
  have exact : int32 (sumCap arguments) = (packValues arguments).length := by
    rw [sumCap, ← total]
    exact int32Same (by omega) (by omega)
  unfold amfPackArguments packed
  dsimp only
  rw [word, checkTrue exact]
  rfl

theorem packCallBlock (methodName : Bytes) (reqId : BitVec 64) (arguments : List AV)
    (int : (packValues (.string methodName :: .number reqId :: .nil :: arguments)).length
      < 2147483648) :
    amfPackCall ppool methodName reqId arguments =
      packed ppool (packValues (.string methodName :: .number reqId :: .nil :: arguments)) := by
  have whole := packValuesAppend [.string methodName, .number reqId, .nil] arguments
  have total : sumCap [.string methodName, .number reqId, .nil] + sumCap arguments =
      (packValues [.string methodName, .number reqId, .nil] ++ packValues arguments).length := by
    rw [List.length_append, packValuesLength, packValuesLength, sumCap]
  simp only [List.cons_append, List.nil_append] at whole
  rw [whole] at int ⊢
  have word := Nat.mod_eq_of_lt (a := sumCap [.string methodName, .number reqId, .nil] + sumCap arguments)
    (b := 2 ^ 32) (by omega)
  have exact : int32 (sumCap [.string methodName, .number reqId, .nil] + sumCap arguments) =
      (packValues [.string methodName, .number reqId, .nil] ++ packValues arguments).length := by
    rw [← total]
    exact int32Same (by omega) (by omega)
  unfold amfPackCall packed
  dsimp only
  rw [word, checkTrue exact, total]
  rfl

end Packed

example : amfPack (.hash [⟨[97], .boolean 1⟩]) = [3, 0, 1, 97, 1, 1, 0, 0, 9] := by decide

end Rushkit.Amf
