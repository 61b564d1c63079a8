import Rushkit.AmfMemory

/-! What the memory at a pointer means: the value that an `AV` there is the top of. -/
namespace Rushkit.Amf.Raw
open ByteMemory

section Values
variable (mem : Memory) (S : Set Nat)

def HoldsString (p : Nat) (content : Bytes) : Prop :=
  intAt mem p = content.length ∧ extent (pointerAt mem (p + 8)) content.length ⊆ S ∧
    read mem (pointerAt mem (p + 8)) content.length = content

-- How far the fields of an `AV` reach that its type has a meaning for.
def width : AV → Nat
  | .number _ => 16
  | .boolean _ => 9
  | .link _ => 10
  | .plain _ => 4
  | _ => avSize

theorem widthBound (v : AV) : width v ≤ avSize := by
  cases v <;> exact Nat.le_of_ble_eq_true rfl

-- The value at `p`, with everything behind its pointers inside `S`.
mutual
def Holds (p : Nat) : AV → Prop
  | .number bits => intAt mem p = amfNumber.toNat ∧ read mem (p + 8) 8 = hostBytes 8 bits
  | .boolean value => intAt mem p = amfBoolean.toNat ∧ read mem (p + 8) 1 = [value]
  | .string content => intAt mem p = amfString.toNat ∧ HoldsString mem S (p + 8) content
  | .hash elements => intAt mem p = amfHash.toNat ∧ intAt mem (p + 8) = elements.length ∧
      HoldsElems (pointerAt mem (p + 16)) elements
  | .link value => intAt mem p = amfLink.toNat ∧ read mem (p + 8) 2 = hostBytes 2 value
  | .assocArray elements => intAt mem p = amfAssocArray.toNat ∧ intAt mem (p + 8) = elements.length ∧
      HoldsElems (pointerAt mem (p + 16)) elements
  | .array elements => intAt mem p = amfArray.toNat ∧ intAt mem (p + 8) = elements.length ∧
      HoldsValues (pointerAt mem (p + 16)) elements
  | .plain t => intAt mem p = t.tag.toNat
def HoldsElems (p : Nat) : List (AkTableElem AV) → Prop
  | [] => True
  | ⟨key, value⟩ :: rest => extent p (akSize + width value) ⊆ S ∧ HoldsString mem S p key ∧
      Holds (p + akSize) value ∧ HoldsElems (p + tableElemSize) rest
def HoldsValues (p : Nat) : List AV → Prop
  | [] => True
  | value :: rest => extent p (width value) ⊆ S ∧ Holds p value ∧ HoldsValues (p + avSize) rest
end

end Values

section Decided
variable (mem : Memory)

instance (p : Nat) (content : Bytes) : Decidable (HoldsString mem Set.univ p content) :=
  decidable_of_iff (intAt mem p = content.length ∧ read mem (pointerAt mem (p + 8)) content.length = content)
    ⟨fun h => ⟨h.1, Set.subset_univ _, h.2⟩, fun h => ⟨h.1, h.2.2⟩⟩

mutual
def decideHolds (p : Nat) : (v : AV) → Decidable (Holds mem Set.univ p v)
  | .number _ | .boolean _ | .string _ | .link _ => inferInstanceAs (Decidable (_ ∧ _))
  | .plain _ => inferInstanceAs (Decidable (_ = _))
  | .hash elements | .assocArray elements =>
    have := decideElems (pointerAt mem (p + 16)) elements
    inferInstanceAs (Decidable (_ ∧ _ ∧ _))
  | .array elements =>
    have := decideValues (pointerAt mem (p + 16)) elements
    inferInstanceAs (Decidable (_ ∧ _ ∧ _))
def decideElems (p : Nat) : (elements : List (AkTableElem AV)) → Decidable (HoldsElems mem Set.univ p elements)
  | [] => isTrue trivial
  | ⟨key, value⟩ :: rest =>
    have := decideHolds (p + akSize) value
    have := decideElems (p + tableElemSize) rest
    have : Decidable (extent p (akSize + width value) ⊆ Set.univ) := isTrue (Set.subset_univ _)
    inferInstanceAs (Decidable (_ ∧ HoldsString mem Set.univ p key ∧ _ ∧ _))
def decideValues (p : Nat) : (elements : List AV) → Decidable (HoldsValues mem Set.univ p elements)
  | [] => isTrue trivial
  | value :: rest =>
    have := decideHolds p value
    have := decideValues (p + avSize) rest
    have : Decidable (extent p (width value) ⊆ Set.univ) := isTrue (Set.subset_univ _)
    inferInstanceAs (Decidable (_ ∧ _ ∧ _))
end

instance (p : Nat) (v : AV) : Decidable (Holds mem Set.univ p v) := decideHolds mem p v

end Decided

section Kept
variable {mem mem' : Memory} {S S' : Set Nat} {p q : Nat}

theorem intMoved {n : Nat} (same : ∀ i < n, mem' (q + i) = mem (p + i)) {k : Nat} (fits : k + 4 ≤ n) :
    intAt mem' (q + k) = intAt mem (p + k) := by
  rw [intAt, intAt, readMoved fun i less => ?_]
  rw [Nat.add_assoc, Nat.add_assoc]
  exact same (k + i) (by omega)

theorem pointerMoved {n : Nat} (same : ∀ i < n, mem' (q + i) = mem (p + i)) {k : Nat} (fits : k + 8 ≤ n) :
    pointerAt mem' (q + k) = pointerAt mem (p + k) := by
  rw [pointerAt, pointerAt, readMoved fun i less => ?_]
  rw [Nat.add_assoc, Nat.add_assoc]
  exact same (k + i) (by omega)

theorem fieldMoved {n : Nat} (same : ∀ i < n, mem' (q + i) = mem (p + i)) {k m : Nat} (fits : k + m ≤ n) :
    read mem' (q + k) m = read mem (p + k) m := by
  refine readMoved fun i less => ?_
  rw [Nat.add_assoc, Nat.add_assoc]
  exact same (k + i) (by omega)

theorem typeMoved {v : AV} (same : ∀ i < width v, mem' (q + i) = mem (p + i)) : intAt mem' q = intAt mem p :=
  intMoved same (k := 0) (by cases v <;> exact Nat.le_of_ble_eq_true rfl)

variable (sub : S ⊆ S') (kept : Set.EqOn mem' mem S)
include sub kept

theorem stringMoved {content : Bytes} (same : ∀ i < akSize, mem' (q + i) = mem (p + i))
    (holds : HoldsString mem S p content) : HoldsString mem' S' q content := by
  obtain ⟨size, inside, bytes⟩ := holds
  have pointer : pointerAt mem' (q + 8) = pointerAt mem (p + 8) := pointerMoved same (by decide)
  refine ⟨(intMoved same (k := 0) (by decide)).trans size, ?_, ?_⟩
  · rw [pointer]
    exact inside.trans sub
  · rw [pointer, readKept kept inside]
    exact bytes

mutual
theorem holdsMoved : (v : AV) → {p q : Nat} → (∀ i < width v, mem' (q + i) = mem (p + i)) → Holds mem S p v →
    Holds mem' S' q v
  | .number bits, p, q, same, ⟨type, payload⟩ =>
    ⟨(typeMoved same).trans type, (fieldMoved same (Nat.le_of_ble_eq_true rfl)).trans payload⟩
  | .boolean value, p, q, same, ⟨type, payload⟩ =>
    ⟨(typeMoved same).trans type, (fieldMoved same (Nat.le_of_ble_eq_true rfl)).trans payload⟩
  | .link value, p, q, same, ⟨type, payload⟩ =>
    ⟨(typeMoved same).trans type, (fieldMoved same (Nat.le_of_ble_eq_true rfl)).trans payload⟩
  | .plain t, p, q, same, type => (typeMoved same).trans type
  | .string content, p, q, same, ⟨type, payload⟩ => by
    refine ⟨(typeMoved same).trans type, stringMoved sub kept (fun i less => ?_) payload⟩
    rw [Nat.add_assoc, Nat.add_assoc]
    exact same (8 + i) (by unfold akSize at less; simp only [width, avSize]; omega)
  | .hash elements, p, q, same, ⟨type, count, payload⟩ => by
    refine ⟨(typeMoved same).trans type, (intMoved same (Nat.le_of_ble_eq_true rfl)).trans count, ?_⟩
    rw [pointerMoved same (Nat.le_of_ble_eq_true rfl)]
    exact elemsKept elements payload
  | .assocArray elements, p, q, same, ⟨type, count, payload⟩ => by
    refine ⟨(typeMoved same).trans type, (intMoved same (Nat.le_of_ble_eq_true rfl)).trans count, ?_⟩
    rw [pointerMoved same (Nat.le_of_ble_eq_true rfl)]
    exact elemsKept elements payload
  | .array elements, p, q, same, ⟨type, count, payload⟩ => by
    refine ⟨(typeMoved same).trans type, (intMoved same (Nat.le_of_ble_eq_true rfl)).trans count, ?_⟩
    rw [pointerMoved same (Nat.le_of_ble_eq_true rfl)]
    exact valuesKept elements payload
theorem elemsKept : (elements : List (AkTableElem AV)) → {p : Nat} → HoldsElems mem S p elements →
    HoldsElems mem' S' p elements
  | [], _, _ => trivial
  | ⟨key, value⟩ :: rest, p, ⟨inside, string, head, tail⟩ => by
    have same {i : Nat} (less : i < akSize + width value) : mem' (p + i) = mem (p + i) :=
      kept (inside (extentMem.mpr (by omega)))
    refine ⟨inside.trans sub, stringMoved sub kept (fun i less => same (by omega)) string,
      holdsMoved value (fun i less => ?_) head, elemsKept rest tail⟩
    rw [Nat.add_assoc]
    exact same (by omega)
theorem valuesKept : (elements : List AV) → {p : Nat} → HoldsValues mem S p elements →
    HoldsValues mem' S' p elements
  | [], _, _ => trivial
  | value :: rest, p, ⟨inside, head, tail⟩ =>
    ⟨inside.trans sub, holdsMoved value (fun i less => kept (inside (extentMem.mpr (by omega)))) head,
      valuesKept rest tail⟩
end

theorem elemsMoved {elements : List (AkTableElem AV)} {p q : Nat}
    (same : ∀ i < tableElemSize * elements.length, mem' (q + i) = mem (p + i))
    (inside : extent q (tableElemSize * elements.length) ⊆ S') (holds : HoldsElems mem S p elements) :
    HoldsElems mem' S' q elements := by
  induction elements generalizing p q with
  | nil => trivial
  | cons element rest ih =>
    obtain ⟨key, value⟩ := element
    obtain ⟨_, string, head, tail⟩ := holds
    have narrow : akSize + width value ≤ tableElemSize := by cases value <;> exact Nat.le_of_ble_eq_true rfl
    rw [List.length_cons, Nat.mul_add, Nat.mul_one] at same inside
    refine ⟨fun a part => inside ?_, stringMoved sub kept (fun i less => same i ?_) string,
      holdsMoved sub kept value (fun i less => ?_) head, ih (fun i less => ?_) (fun a part => inside ?_) tail⟩
    · rw [extentMem] at part ⊢
      omega
    · unfold akSize at less
      unfold tableElemSize
      omega
    · rw [Nat.add_assoc, Nat.add_assoc]
      exact same (akSize + i) (by omega)
    · rw [Nat.add_assoc, Nat.add_assoc]
      exact same (tableElemSize + i) (by omega)
    · rw [extentMem] at part ⊢
      omega

end Kept

section Kept
variable {mem mem' : Memory} {S S' : Set Nat} {p : Nat}

theorem stringKept {content : Bytes} (same : Set.EqOn mem' mem (S ∪ extent p akSize))
    (holds : HoldsString mem S p content) : HoldsString mem' S p content :=
  stringMoved Set.Subset.rfl (same.mono Set.subset_union_left)
    (fun i less => same (.inr (extentMem.mpr ⟨Nat.le_add_right p i, by omega⟩))) holds

theorem valueKept {v : AV} (same : Set.EqOn mem' mem (S ∪ extent p (width v))) (holds : Holds mem S p v) :
    Holds mem' S p v :=
  holdsMoved Set.Subset.rfl (same.mono Set.subset_union_left) v
    (fun i less => same (.inr (extentMem.mpr ⟨Nat.le_add_right p i, by omega⟩))) holds

theorem stringMore {content : Bytes} (sub : S ⊆ S') (holds : HoldsString mem S p content) :
    HoldsString mem S' p content :=
  stringMoved sub (Set.eqOn_refl _ _) (fun _ _ => rfl) holds

theorem valueMore {v : AV} (sub : S ⊆ S') (holds : Holds mem S p v) : Holds mem S' p v :=
  holdsMoved sub (Set.eqOn_refl _ _) v (fun _ _ => rfl) holds

theorem elemsMore {elements : List (AkTableElem AV)} (sub : S ⊆ S') (holds : HoldsElems mem S p elements) :
    HoldsElems mem S' p elements :=
  elemsKept sub (Set.eqOn_refl _ _) elements holds

theorem valuesMore {elements : List AV} (sub : S ⊆ S') (holds : HoldsValues mem S p elements) :
    HoldsValues mem S' p elements :=
  valuesKept sub (Set.eqOn_refl _ _) elements holds

end Kept

-- An element in front of a table: its name is read first, then its value, then the table.
theorem elemsBefore {mem₁ mem₂ mem₃ : Memory} {F₁ F₂ S : Set Nat} {p : Nat} {key : Bytes} {value : AV}
    {rest : List (AkTableElem AV)} (string : HoldsString mem₁ F₁ p key) (holds : Holds mem₂ F₂ (p + akSize) value)
    (valued : Set.EqOn mem₂ mem₁ (F₁ ∪ extent p akSize))
    (ended : Set.EqOn mem₃ mem₂ (F₁ ∪ F₂ ∪ extent p (akSize + width value)))
    (inside : F₁ ∪ F₂ ∪ extent p (akSize + width value) ⊆ S) (tail : HoldsElems mem₃ S (p + tableElemSize) rest) :
    HoldsElems mem₃ S p (⟨key, value⟩ :: rest) := by
  have string₂ : HoldsString mem₂ F₁ p key := stringKept valued string
  have string₃ : HoldsString mem₃ F₁ p key :=
    stringKept (ended.mono (Set.union_subset_union Set.subset_union_left (extentFront (by omega)))) string₂
  have value₃ : Holds mem₃ F₂ (p + akSize) value :=
    valueKept (ended.mono (Set.union_subset_union Set.subset_union_right (extentPart (Nat.le_refl _)))) holds
  have fresh := Set.subset_union_left.trans inside
  refine ⟨Set.subset_union_right.trans inside, stringMore ?_ string₃, valueMore ?_ value₃, tail⟩
  · exact Set.subset_union_left.trans fresh
  · exact Set.subset_union_right.trans fresh

theorem elemsAppend {mem : Memory} {S : Set Nat} {p : Nat} {elements more : List (AkTableElem AV)} :
    HoldsElems mem S p (elements ++ more) ↔
      HoldsElems mem S p elements ∧ HoldsElems mem S (p + tableElemSize * elements.length) more := by
  induction elements generalizing p with
  | nil => simp [HoldsElems]
  | cons element rest ih =>
    obtain ⟨key, value⟩ := element
    rw [List.cons_append, HoldsElems, HoldsElems, ih, List.length_cons, Nat.mul_add, Nat.mul_one,
      Nat.add_assoc p, Nat.add_comm tableElemSize]
    simp only [and_assoc]

section Unique
variable {mem : Memory} {S S' : Set Nat}

theorem holdsType : (v : AV) → {p : Nat} → Holds mem S p v → intAt mem p = v.type.toNat
  | .number _, _, holds | .boolean _, _, holds | .string _, _, holds | .link _, _, holds | .hash _, _, holds
  | .assocArray _, _, holds | .array _, _, holds => holds.1
  | .plain _, _, holds => holds

theorem stringUnique {p : Nat} {content other : Bytes} (holds : HoldsString mem S p content)
    (holds' : HoldsString mem S' p other) : content = other := by
  obtain ⟨size, _, bytes⟩ := holds
  obtain ⟨size', _, bytes'⟩ := holds'
  have same : content.length = other.length := by omega
  rw [← bytes, ← bytes', same]

theorem hostUnique {w n : Nat} (wide : 2 ^ n ≤ 256 ^ w) {x y : BitVec n}
    (same : hostBytes w x = hostBytes w y) : x = y := by
  rw [← ofHostBytesHostBytes w wide x, same, ofHostBytesHostBytes w wide]

theorem sameType {v w : AV} {p : Nat} (holds : Holds mem S p v) (holds' : Holds mem S' p w) : v.type = w.type := by
  have same := (holdsType v holds).symm.trans (holdsType w holds')
  exact UInt8.toNat_inj.mp (Int.ofNat_inj.mp same)

theorem plainApart {t : PlainTag} {tag : UInt8} (payload : tag ∈ payloadTags) : tag ≠ t.tag := by
  intro same
  rw [same] at payload
  exact t.plain payload

mutual
theorem holdsUnique : (v w : AV) → {p : Nat} → Holds mem S p v → Holds mem S' p w → v = w
  | .plain t, w, _, holds, holds' => by
    have types : t.tag = w.type := sameType holds holds'
    cases w with
    | plain u =>
      cases t
      cases u
      cases types
      rfl
    | number | boolean | string | hash | link | assocArray | array =>
      exact absurd types.symm (plainApart (by simp only [AV.type]; decide))
  | .number bits, w, _, holds, holds' => by
    have types : amfNumber = w.type := sameType holds holds'
    cases w with
    | number other => rw [hostUnique (Nat.le_refl _) (holds.2.symm.trans holds'.2)]
    | boolean | string | hash | link | assocArray | array => exact absurd types (by simp only [AV.type]; decide)
    | plain => exact absurd types (plainApart (by decide))
  | .boolean value, w, _, holds, holds' => by
    have types : amfBoolean = w.type := sameType holds holds'
    cases w with
    | boolean other => rw [(List.cons.inj (holds.2.symm.trans holds'.2)).1]
    | number | string | hash | link | assocArray | array => exact absurd types (by simp only [AV.type]; decide)
    | plain => exact absurd types (plainApart (by decide))
  | .link value, w, _, holds, holds' => by
    have types : amfLink = w.type := sameType holds holds'
    cases w with
    | link other => rw [hostUnique (Nat.le_refl _) (holds.2.symm.trans holds'.2)]
    | number | boolean | string | hash | assocArray | array => exact absurd types (by simp only [AV.type]; decide)
    | plain => exact absurd types (plainApart (by decide))
  | .string content, w, _, holds, holds' => by
    have types : amfString = w.type := sameType holds holds'
    cases w with
    | string other => rw [stringUnique holds.2 holds'.2]
    | number | boolean | hash | link | assocArray | array => exact absurd types (by simp only [AV.type]; decide)
    | plain => exact absurd types (plainApart (by decide))
  | .hash elements, w, _, holds, holds' => by
    have types : amfHash = w.type := sameType holds holds'
    cases w with
    | hash other =>
      rw [elemsUnique elements other (Int.ofNat_inj.mp (holds.2.1.symm.trans holds'.2.1)) holds.2.2 holds'.2.2]
    | number | boolean | string | link | assocArray | array => exact absurd types (by simp only [AV.type]; decide)
    | plain => exact absurd types (plainApart (by decide))
  | .assocArray elements, w, _, holds, holds' => by
    have types : amfAssocArray = w.type := sameType holds holds'
    cases w with
    | assocArray other =>
      rw [elemsUnique elements other (Int.ofNat_inj.mp (holds.2.1.symm.trans holds'.2.1)) holds.2.2 holds'.2.2]
    | number | boolean | string | hash | link | array => exact absurd types (by simp only [AV.type]; decide)
    | plain => exact absurd types (plainApart (by decide))
  | .array elements, w, _, holds, holds' => by
    have types : amfArray = w.type := sameType holds holds'
    cases w with
    | array other =>
      rw [valuesUnique elements other (Int.ofNat_inj.mp (holds.2.1.symm.trans holds'.2.1)) holds.2.2 holds'.2.2]
    | number | boolean | string | hash | link | assocArray => exact absurd types (by simp only [AV.type]; decide)
    | plain => exact absurd types (plainApart (by decide))
theorem elemsUnique : (elements other : List (AkTableElem AV)) → elements.length = other.length → {p : Nat} →
    HoldsElems mem S p elements → HoldsElems mem S' p other → elements = other
  | [], [], _, _, _, _ => rfl
  | ⟨key, value⟩ :: rest, ⟨key', value'⟩ :: rest', length, _, ⟨_, string, head, tail⟩, ⟨_, string', head', tail'⟩ => by
    rw [stringUnique string string', holdsUnique value value' head head',
      elemsUnique rest rest' (Nat.succ.inj length) tail tail']
theorem valuesUnique : (elements other : List AV) → elements.length = other.length → {p : Nat} →
    HoldsValues mem S p elements → HoldsValues mem S' p other → elements = other
  | [], [], _, _, _, _ => rfl
  | value :: rest, value' :: rest', length, _, ⟨_, head, tail⟩, ⟨_, head', tail'⟩ => by
    rw [holdsUnique value value' head head', valuesUnique rest rest' (Nat.succ.inj length) tail tail']
end

end Unique
end Rushkit.Amf.Raw
