import Rushkit.Answers

/-! Payloads that fit into one packet: the peer's handler reads exactly what was packed. -/
namespace Rushkit
open Amf

namespace Amf

theorem smallBlock {size : Nat} (small : size < 2147481600) : decide (size ≤ rtPoolAlloc size) = true :=
  decide_eq_true (rtPoolAllocServes.mpr small)

-- A packing of at most 2^20 bytes has too few elements for any buffer or block to be short.
mutual
theorem valueFits : (v : AV) → amfGetPackSize v ≤ 1048576 →
    hashesFit v = true ∧ blocksFit rtPoolAlloc v = true
  | .hash elements, small => by
    rw [amfGetPackSize] at small
    have count := elemsCount elements
    obtain ⟨hashes, blocks⟩ := elemsFits elements (by omega)
    have room : decide (elements.length * tableElemSize ≤ 1073741824) = true :=
      decide_eq_true (by unfold tableElemSize; omega)
    rw [hashesFit, blocksFit, room, hashes]
    exact ⟨rfl, blocks⟩
  | .assocArray elements, small => by
    rw [amfGetPackSize] at small
    have count := elemsCount elements
    obtain ⟨hashes, blocks⟩ := elemsFits elements (by omega)
    rw [hashesFit, blocksFit, smallBlock (by unfold tableElemSize; omega), blocks]
    exact ⟨hashes, rfl⟩
  | .array elements, small => by
    rw [amfGetPackSize] at small
    have count := valuesCount elements
    obtain ⟨hashes, blocks⟩ := valuesFits elements (by omega)
    rw [hashesFit, blocksFit, smallBlock (by unfold avSize; omega), blocks]
    exact ⟨hashes, rfl⟩
  | .number _, _ | .boolean _, _ | .string _, _ | .link _, _ | .plain _, _ => ⟨rfl, rfl⟩
theorem elemsFits : (elements : List (AkTableElem AV)) → elemsPackSize elements ≤ 1048576 →
    elemsFit elements = true ∧ elemsBlocksFit rtPoolAlloc elements = true
  | [], _ => ⟨rfl, rfl⟩
  | ⟨_, value⟩ :: rest, small => by
    rw [elemsPackSize] at small
    obtain ⟨hashes, blocks⟩ := valueFits value (by omega)
    obtain ⟨hashes', blocks'⟩ := elemsFits rest (by omega)
    rw [elemsFit, elemsBlocksFit, hashes, blocks, hashes', blocks']
    exact ⟨rfl, rfl⟩
theorem valuesFits : (elements : List AV) → valuesPackSize elements ≤ 1048576 →
    valuesFit elements = true ∧ valuesBlocksFit rtPoolAlloc elements = true
  | [], _ => ⟨rfl, rfl⟩
  | value :: rest, small => by
    rw [valuesPackSize] at small
    obtain ⟨hashes, blocks⟩ := valueFits value (by omega)
    obtain ⟨hashes', blocks'⟩ := valuesFits rest (by omega)
    rw [valuesFit, valuesBlocksFit, hashes, blocks, hashes', blocks']
    exact ⟨rfl, rfl⟩
end

theorem readNextSmall {v : AV} (encodable : Encodable v) (small : amfGetPackSize v ≤ 1048576) {ap : AP}
    (ready : Ready rtPoolAlloc ap) {rest : Bytes} (h : ap.ahead = amfPack v ++ rest) :
    ∃ asked, amfApReadNext ap = .ok (v, ap.went (amfPack v).length asked) ∧
      Ready rtPoolAlloc (ap.went (amfPack v).length asked) := by
  obtain ⟨hashes, blocks⟩ := valueFits v small
  have int : (amfPack v).length < 2147483648 := by
    rw [packLength]
    omega
  exact readNextPacked encodable hashes blocks int ready h

theorem readArgumentsSmall {values : List AV} (encodable : ValuesEncodable values)
    (small : valuesPackSize values ≤ 1048576) {ap : AP} (ready : Ready rtPoolAlloc ap)
    (h : ap.ahead = packValues values) :
    ∃ asked, amfApReadArguments ap = .ok (values, ap.went (packValues values).length asked) ∧
      Served rtPoolAlloc asked := by
  obtain ⟨hashes, blocks⟩ := valuesFits values small
  have count := valuesCount values
  have int : (packValues values).length < 2147483648 := by
    rw [packValuesLength]
    omega
  have stores := readArgumentsPacked encodable blocks int ready h
  have room : decide (values.length * avSize ≤ 1073741824) = true :=
    decide_eq_true (by unfold avSize; omega)
  rw [hashes, room] at stores
  obtain ⟨asked, served, read⟩ := storesGood stores
  exact ⟨asked, read, served⟩

theorem servedInOrder {asked : List Nat} (served : Served rtPoolAlloc asked) : rtPoolLeft asked = none :=
  rtPoolInOrder fun size member => rtPoolAllocServes.mp (served size member)

end Amf

theorem readInvocationPacked {methodName : Bytes} {requestId : Int} {arguments : List AV}
    (encodable : ValuesEncodable arguments)
    (small : (packValues (callValues methodName requestId arguments)).length ≤ 32767) :
    ∃ asked, readInvocation (packValues (callValues methodName requestId arguments)) =
        .ok ((methodName, Binary64.toInt64 (Binary64.ofInt requestId), arguments), asked) ∧
      rtPoolLeft asked = none := by
  have sizes := small
  rw [packValuesLength, callValues, valuesPackSize, valuesPackSize, valuesPackSize] at sizes
  have name : amfGetPackSize (.string methodName) = 2 + methodName.length + 1 := rfl
  have split : packValues (callValues methodName requestId arguments) =
      amfPack (.string methodName) ++ (amfPack (.number (Binary64.ofInt requestId)) ++
        (amfPack .nil ++ packValues arguments)) := rfl
  generalize packValues (callValues methodName requestId arguments) = payload at *
  have string : Encodable (.string methodName) := by
    show methodName.length ≤ 32767
    omega
  have number : Encodable (.number (Binary64.ofInt requestId)) := trivial
  have none : Encodable .nil := trivial
  have start : (amfApAlloc rtPool payload payload.length).ahead = amfPack (.string methodName) ++
      (amfPack (.number (Binary64.ofInt requestId)) ++ (amfPack .nil ++ packValues arguments)) := split
  obtain ⟨asked, named, afterName⟩ := readNextSmall string (by omega) (readyStart rtPoolSteady payload) start
  have ahead := AP.aheadPast start asked
  obtain ⟨asked, numbered, afterNumber⟩ := readNextSmall number (by omega) afterName ahead
  have ahead := AP.aheadPast ahead asked
  obtain ⟨asked, empty, afterNil⟩ := readNextSmall none (by omega) afterNumber ahead
  have ahead := AP.aheadPast ahead asked
  obtain ⟨asked, collected, served⟩ := readArgumentsSmall encodable (by omega) afterNil ahead
  have isString : (AV.string methodName).type = amfString := rfl
  have isNumber : (AV.number (Binary64.ofInt requestId)).type = amfNumber := rfl
  refine ⟨asked, ?_, servedInOrder served⟩
  simp only [readInvocation, named, numbered, empty, collected, checkTrue isString, checkTrue isNumber,
    Fallible.okBind]
  rfl

theorem invocationPacked {methodName : Bytes} {requestId : Int} {arguments : List AV}
    (encodable : ValuesEncodable arguments)
    (small : (packValues (callValues methodName requestId arguments)).length ≤ 32767) :
    invocation (packValues (callValues methodName requestId arguments)) =
      .ok (methodName, Binary64.toInt64 (Binary64.ofInt requestId), arguments) := by
  obtain ⟨asked, read, _⟩ := readInvocationPacked encodable small
  exact invocationRead read

end Rushkit
