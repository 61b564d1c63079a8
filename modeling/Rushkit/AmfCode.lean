import Rushkit.AmfValue
import Rushkit.Library.PrefixCode

/-! AMF data is a prefix code: what is packed for one value never starts what is packed for another.
Nothing here depends on the decoder, which cannot hold every value. -/
namespace Rushkit.Amf
open PrefixCode

-- An element that starts like the end of a hash.
def Stops (e : AkTableElem AV) : Prop := e.key = [] ∧ e.value.type = amfEnd

-- Lengths and counts that their fields hold, and no element that ends the hash it is in.
mutual
def Codable : AV → Prop
  | .string content => content.length < 65536
  | .hash elements => (∀ e ∈ elements, ¬ Stops e) ∧ ElemsCodable elements
  | .assocArray elements => elements.length < 4294967296 ∧ ElemsCodable elements
  | .array elements => elements.length < 4294967296 ∧ ValuesCodable elements
  | _ => True
def ElemsCodable : List (AkTableElem AV) → Prop
  | [] => True
  | ⟨key, value⟩ :: rest => key.length < 65536 ∧ Codable value ∧ ElemsCodable rest
def ValuesCodable : List AV → Prop
  | [] => True
  | value :: rest => Codable value ∧ ValuesCodable rest
end

def ElemCodable (e : AkTableElem AV) : Prop := e.key.length < 65536 ∧ Codable e.value

theorem elemsCodable {elements : List (AkTableElem AV)} :
    ElemsCodable elements ↔ ∀ e ∈ elements, ElemCodable e := by
  induction elements with
  | nil => exact ⟨fun _ e member => (List.not_mem_nil member).elim, fun _ => trivial⟩
  | cons e elements ih =>
    rw [ElemsCodable, ih, List.forall_mem_cons, ← and_assoc]
    rfl

theorem valuesCodable {values : List AV} : ValuesCodable values ↔ ∀ v ∈ values, Codable v := by
  induction values with
  | nil => exact ⟨fun _ v member => (List.not_mem_nil member).elim, fun _ => trivial⟩
  | cons v values ih => rw [ValuesCodable, ih, List.forall_mem_cons]

def packElem (e : AkTableElem AV) : Bytes := packString e.key ++ amfPack e.value

theorem packElemsWords (elements : List (AkTableElem AV)) : packElems elements = elements.flatMap packElem := by
  induction elements with
  | nil => rfl
  | cons e elements ih => rw [packElems, List.flatMap_cons, ih, packElem]

theorem packValuesWords (values : List AV) : packValues values = values.flatMap amfPack := by
  induction values with
  | nil => rfl
  | cons v values ih => rw [packValues, List.flatMap_cons, ih]

theorem packShortSame {a b : Int} (same : packShort a = packShort b) :
    BitVec.ofInt 16 a = BitVec.ofInt 16 b := by
  have back := congrArg (fun bytes => ofHostBytes 16 (loadData bytes)) same
  simp only [packShort, loadedBack 2 (show 2 ^ 16 ≤ 256 ^ 2 by decide)] at back
  exact back

theorem packLongSame {a b : Int} (same : packLong a = packLong b) :
    BitVec.ofInt 32 a = BitVec.ofInt 32 b := by
  have back := congrArg (fun bytes => ofHostBytes 32 (loadData bytes)) same
  simp only [packLong, loadedBack 4 (show 2 ^ 32 ≤ 256 ^ 4 by decide)] at back
  exact back

theorem countSame {m n : Nat} (small : m < 4294967296) (small' : n < 4294967296)
    (same : packLong m = packLong n) : m = n := by
  have words := congrArg BitVec.toNat (packLongSame same)
  simp only [BitVec.toNat_ofInt] at words
  omega

theorem stringDistinct {str : Bytes} (short : str.length < 65536) :
    Distinct (fun str : Bytes => str.length < 65536) packString str := by
  intro other r s short' same
  rw [packString, packString, List.append_assoc, List.append_assoc] at same
  obtain ⟨sizes, same⟩ := List.append_inj same (by rw [packShortLength, packShortLength])
  have words := congrArg BitVec.toNat (packShortSame sizes)
  simp only [BitVec.toNat_ofInt] at words
  exact List.append_inj same (by omega)

def payload : AV → Bytes
  | .number bits => packDouble bits
  | .boolean value => packByte value
  | .string content => packString content
  | .assocArray elements => packAssocArray elements
  | .hash elements => packHash elements
  | .array elements => packArray elements
  | .link value => packShort value.toInt
  | .plain _ => []

theorem packPayload (v : AV) : amfPack v = v.type :: payload v := by
  cases v with
  | hash elements => exact packHashTag elements
  | assocArray elements => exact packAssocArrayTag elements
  | array elements => exact packArrayTag elements
  | number | boolean | string | link | plain => rfl

inductive SameKind : AV → AV → Prop where
  | number (a b : BitVec 64) : SameKind (.number a) (.number b)
  | boolean (a b : UInt8) : SameKind (.boolean a) (.boolean b)
  | string (a b : Bytes) : SameKind (.string a) (.string b)
  | hash (a b : List (AkTableElem AV)) : SameKind (.hash a) (.hash b)
  | link (a b : BitVec 16) : SameKind (.link a) (.link b)
  | assocArray (a b : List (AkTableElem AV)) : SameKind (.assocArray a) (.assocArray b)
  | array (a b : List AV) : SameKind (.array a) (.array b)
  | plain (t : PlainTag) : SameKind (.plain t) (.plain t)

theorem plainApart {t : PlainTag} {tag : UInt8} (same : t.tag = tag) : tag ∉ payloadTags := same ▸ t.plain

theorem plainSame {t t' : PlainTag} (same : t.tag = t'.tag) : SameKind (.plain t) (.plain t') := by
  cases t
  cases t'
  cases same
  exact .plain _

theorem typesSame {v w : AV} (same : v.type = w.type) : SameKind v w := by
  cases v <;> cases w <;> dsimp only [AV.type] at same
  all_goals first
    | exact absurd same (by decide)
    | exact absurd (by decide) (plainApart same)
    | exact absurd (by decide) (plainApart same.symm)
    | exact plainSame same
    | constructor

theorem sameValue {v w : AV} {r s : Bytes} (same : amfPack v ++ r = amfPack w ++ s) :
    SameKind v w ∧ payload v ++ r = payload w ++ s := by
  rw [packPayload, packPayload, List.cons_append, List.cons_append] at same
  obtain ⟨tags, rest⟩ := List.cons.inj same
  exact ⟨typesSame tags, rest⟩

theorem doubleDistinct (bits : BitVec 64) : Distinct (fun _ => True) packDouble bits := by
  refine distinctFixed packDoubleLength fun other _ same => ?_
  have back := congrArg (fun bytes => ofHostBytes 64 (loadData bytes)) same
  simp only [packDouble, loadedBack 8 (show 2 ^ 64 ≤ 256 ^ 8 by decide)] at back
  exact back

theorem byteDistinct (value : UInt8) : Distinct (fun _ => True) packByte value :=
  distinctFixed (fun _ => List.length_singleton) fun _ _ same => List.head_eq_of_cons_eq same

theorem linkDistinct (value : BitVec 16) :
    Distinct (fun _ => True) (fun value : BitVec 16 => packShort value.toInt) value := by
  refine distinctFixed (fun value : BitVec 16 => packShortLength value.toInt) fun other _ same => ?_
  have words := packShortSame same
  rwa [BitVec.ofInt_toInt, BitVec.ofInt_toInt] at words

theorem elemDistinct {e : AkTableElem AV} (short : e.key.length < 65536)
    (value : Distinct Codable amfPack e.value) : Distinct ElemCodable packElem e := by
  rintro ⟨key, value'⟩ r s ⟨short', codable⟩ same
  obtain ⟨key', value''⟩ := e
  rw [packElem, packElem, List.append_assoc, List.append_assoc] at same
  obtain ⟨rfl, middle⟩ := stringDistinct short _ _ _ short' same
  obtain ⟨rfl, left⟩ := value _ _ _ codable middle
  exact ⟨rfl, left⟩

def hashStop : Bytes := packEmptyString ++ packEnd

theorem hashStopApart (e : AkTableElem AV) (r s : Bytes) (codable : ¬ Stops e ∧ ElemCodable e) :
    hashStop ++ r ≠ packElem e ++ s := by
  intro same
  obtain ⟨goesOn, short, _⟩ := codable
  rw [hashStop, packElem, List.append_assoc, List.append_assoc, packEmptyString] at same
  obtain ⟨empty, same⟩ := stringDistinct (by decide) _ _ _ short same
  rw [packPayload, List.cons_append] at same
  exact goesOn ⟨empty.symm, (List.head_eq_of_cons_eq same).symm⟩

theorem countedDistinct {α : Type} {legal : α → Prop} {encode : α → Bytes} {as bs : List α}
    (each : ∀ a ∈ as, Distinct legal encode a) (members : ∀ b ∈ bs, legal b)
    (small : as.length < 4294967296) (small' : bs.length < 4294967296) {r s : Bytes}
    (same : packLong as.length ++ (as.flatMap encode ++ r) = packLong bs.length ++ (bs.flatMap encode ++ s)) :
    as = bs ∧ r = s := by
  obtain ⟨counts, same⟩ := List.append_inj same (by rw [packLongLength, packLongLength])
  exact distinctCounted each members (countSame small small' counts) same

-- Along the value; what each kind of payload needs of its elements is in the library.
mutual
theorem valueDistinct : (v : AV) → Codable v → Distinct Codable amfPack v
  | .number bits, _, w, r, s, _, same => by
    obtain ⟨kind, same⟩ := sameValue same
    cases kind with
    | number _ other =>
      obtain ⟨rfl, left⟩ := doubleDistinct bits other r s trivial same
      exact ⟨rfl, left⟩
  | .boolean value, _, w, r, s, _, same => by
    obtain ⟨kind, same⟩ := sameValue same
    cases kind with
    | boolean _ other =>
      obtain ⟨rfl, left⟩ := byteDistinct value other r s trivial same
      exact ⟨rfl, left⟩
  | .string content, short, w, r, s, codable, same => by
    obtain ⟨kind, same⟩ := sameValue same
    cases kind with
    | string _ other =>
      obtain ⟨rfl, left⟩ := stringDistinct short other r s codable same
      exact ⟨rfl, left⟩
  | .link value, _, w, r, s, _, same => by
    obtain ⟨kind, same⟩ := sameValue same
    cases kind with
    | link _ other =>
      obtain ⟨rfl, left⟩ := linkDistinct value other r s trivial same
      exact ⟨rfl, left⟩
  | .plain t, _, w, r, s, _, same => by
    obtain ⟨kind, same⟩ := sameValue same
    cases kind with
    | plain _ => exact ⟨rfl, same⟩
  | .hash elements, ⟨goOn, codable⟩, w, r, s, codable', same => by
    obtain ⟨kind, same⟩ := sameValue same
    have each := elemsDistinct elements codable
    cases kind with
    | hash _ others =>
      obtain ⟨goOn', codable'⟩ := codable'
      simp only [payload, packHash, packElemsWords, List.append_assoc] at same
      rw [← List.append_assoc packEmptyString, ← List.append_assoc packEmptyString] at same
      obtain ⟨rfl, left⟩ := distinctEnded
        (fun e member => distinctAmong (fun _ both => both.2) (each e member))
        (fun e member => ⟨goOn e member, elemsCodable.mp codable e member⟩) hashStopApart
        (fun e member => ⟨goOn' e member, elemsCodable.mp codable' e member⟩) same
      exact ⟨rfl, left⟩
  | .assocArray elements, ⟨small, codable⟩, w, r, s, codable', same => by
    obtain ⟨kind, same⟩ := sameValue same
    have each := elemsDistinct elements codable
    cases kind with
    | assocArray _ others =>
      obtain ⟨small', codable'⟩ := codable'
      simp only [payload, packAssocArray, packElemsWords, List.append_assoc] at same
      obtain ⟨rfl, left⟩ := countedDistinct each (elemsCodable.mp codable') small small' same
      exact ⟨rfl, left⟩
  | .array elements, ⟨small, codable⟩, w, r, s, codable', same => by
    obtain ⟨kind, same⟩ := sameValue same
    have each := valuesDistinct elements codable
    cases kind with
    | array _ others =>
      obtain ⟨small', codable'⟩ := codable'
      simp only [payload, packArray, packValuesWords, List.append_assoc] at same
      obtain ⟨rfl, left⟩ := countedDistinct each (valuesCodable.mp codable') small small' same
      exact ⟨rfl, left⟩
theorem elemsDistinct : (elements : List (AkTableElem AV)) → ElemsCodable elements →
    ∀ e ∈ elements, Distinct ElemCodable packElem e
  | [], _, e, member => (List.not_mem_nil member).elim
  | ⟨key, value⟩ :: rest, ⟨short, codable, later⟩, e, member => by
    have head := valueDistinct value codable
    have tail := elemsDistinct rest later
    rcases List.mem_cons.mp member with rfl | inside
    · exact elemDistinct short head
    · exact tail e inside
theorem valuesDistinct : (values : List AV) → ValuesCodable values →
    ∀ v ∈ values, Distinct Codable amfPack v
  | [], _, v, member => (List.not_mem_nil member).elim
  | value :: rest, ⟨codable, later⟩, v, member => by
    have head := valueDistinct value codable
    have tail := valuesDistinct rest later
    rcases List.mem_cons.mp member with rfl | inside
    · exact head
    · exact tail v inside
end

theorem packSome (v : AV) : amfPack v ≠ [] := by
  rw [packPayload]
  exact List.cons_ne_nil _ _

theorem argumentsPacked {ppool : Alloc} {arguments : List AV} {data : Bytes}
    (packed : amfPackArguments ppool arguments = .ok data) : data = packValues arguments := by
  unfold amfPackArguments at packed
  dsimp only at packed
  split at packed
  · contradiction
  · obtain ⟨_, _, packed⟩ := Fallible.bindOk.mp packed
    exact (Except.ok.inj packed).symm

theorem packedPrefix {ppool : Alloc} {vs ws : List AV} {data data' : Bytes}
    (packed : amfPackArguments ppool vs = .ok data) (packed' : amfPackArguments ppool ws = .ok data')
    (codable : ∀ v ∈ vs, Codable v) (codable' : ∀ w ∈ ws, Codable w) : data <+: data' ↔ vs <+: ws := by
  rw [argumentsPacked packed, argumentsPacked packed']
  have each := valuesDistinct vs (valuesCodable.mpr codable)
  rw [packValuesWords, packValuesWords]
  exact prefixWords each codable (fun v _ => packSome v) codable'

def keyedValue (key : Bytes) : AV := .hash [⟨key, .array [.boolean 1, .end]⟩, ⟨[98], .end⟩]

theorem keyedCodable {key : Bytes} (short : key.length < 65536) : Codable (keyedValue key) := by
  refine ⟨fun e member => ?_, short, ⟨by decide, trivial, trivial, trivial⟩, by decide, trivial, trivial⟩
  rcases List.mem_pair.mp member with rfl | rfl
  · exact fun stops => absurd (show amfArray = amfEnd from stops.2) (by decide)
  · exact fun stops => absurd stops.1 (by decide)

theorem keyedPrefix : ∃ data data', amfPackArguments rtPoolAlloc [keyedValue [97]] = .ok data ∧
    amfPackArguments rtPoolAlloc [keyedValue [97], .string []] = .ok data' ∧
    (data <+: data' ↔ [keyedValue [97]] <+: [keyedValue [97], .string []]) := by
  have codable : Codable (keyedValue [97]) := keyedCodable (by decide)
  refine ⟨_, _, rfl, rfl, ?_⟩
  exact @packedPrefix rtPoolAlloc _ _ _ _ rfl rfl (List.forall_mem_singleton.mpr codable)
    (List.forall_mem_cons.mpr ⟨codable, List.forall_mem_singleton.mpr (show ([] : Bytes).length < 65536 by decide)⟩)

end Rushkit.Amf
