import Rushkit.AmfProgress

/-! What the decoder builds. Its keys and strings are short and its tables hold no terminator,
its hashes fit a write buffer, and the pool had a block for each of its arrays. -/
namespace Rushkit.Amf

-- What the encoding can carry: 16-bit lengths, no terminator among table elements.
mutual
def Encodable : AV → Prop
  | .string content => content.length ≤ 32767
  | .hash elements => ElemsEncodable elements
  | .assocArray elements => ElemsEncodable elements
  | .array elements => ValuesEncodable elements
  | _ => True
def ElemsEncodable : List (AkTableElem AV) → Prop
  | [] => True
  | ⟨key, value⟩ :: rest =>
    key.length ≤ 32767 ∧ value.type ≠ amfEnd ∧ Encodable value ∧ ElemsEncodable rest
def ValuesEncodable : List AV → Prop
  | [] => True
  | value :: rest => Encodable value ∧ ValuesEncodable rest
end

-- The largest buffer that doubling an `int` capacity reaches has 2^30 bytes.
mutual
def hashesFit : AV → Bool
  | .hash elements => decide (elements.length * tableElemSize ≤ 1073741824) && elemsFit elements
  | .assocArray elements => elemsFit elements
  | .array elements => valuesFit elements
  | _ => true
def elemsFit : List (AkTableElem AV) → Bool
  | [] => true
  | ⟨_, value⟩ :: rest => hashesFit value && elemsFit rest
def valuesFit : List AV → Bool
  | [] => true
  | value :: rest => hashesFit value && valuesFit rest
end

mutual
def blocksFit (alloc : Alloc) : AV → Bool
  | .hash elements => elemsBlocksFit alloc elements
  | .assocArray elements =>
    decide (elements.length * tableElemSize ≤ alloc (elements.length * tableElemSize)) &&
      elemsBlocksFit alloc elements
  | .array elements =>
    decide (elements.length * avSize ≤ alloc (elements.length * avSize)) &&
      valuesBlocksFit alloc elements
  | _ => true
def elemsBlocksFit (alloc : Alloc) : List (AkTableElem AV) → Bool
  | [] => true
  | ⟨_, value⟩ :: rest => blocksFit alloc value && elemsBlocksFit alloc rest
def valuesBlocksFit (alloc : Alloc) : List AV → Bool
  | [] => true
  | value :: rest => blocksFit alloc value && valuesBlocksFit alloc rest
end

/- A value as the decoder returns it. -/
structure Built (alloc : Alloc) (v : AV) : Prop where
  encodable : Encodable v
  hashes : hashesFit v = true
  blocks : blocksFit alloc v = true

structure BuiltElem (alloc : Alloc) (e : AkTableElem AV) : Prop where
  key : e.key.length ≤ 32767
  stays : e.value.type ≠ amfEnd
  value : Built alloc e.value

section Values
variable {alloc : Alloc}

theorem elemsBuilt {elements : List (AkTableElem AV)} (each : ∀ e ∈ elements, BuiltElem alloc e) :
    ElemsEncodable elements ∧ elemsFit elements = true ∧ elemsBlocksFit alloc elements = true := by
  induction elements with
  | nil => exact ⟨trivial, rfl, rfl⟩
  | cons e es ih =>
    obtain ⟨encodable, hashes, blocks⟩ := ih fun x member => each x (List.mem_cons_of_mem e member)
    have head := each e List.mem_cons_self
    cases e with
    | mk key value =>
      refine ⟨⟨head.key, head.stays, head.value.encodable, encodable⟩, ?_, ?_⟩
      · simpa [elemsFit, hashes] using head.value.hashes
      · simpa [elemsBlocksFit, blocks] using head.value.blocks

theorem valuesBuilt {values : List AV} (each : ∀ v ∈ values, Built alloc v) :
    ValuesEncodable values ∧ valuesFit values = true ∧ valuesBlocksFit alloc values = true := by
  induction values with
  | nil => exact ⟨trivial, rfl, rfl⟩
  | cons v vs ih =>
    obtain ⟨encodable, hashes, blocks⟩ := ih fun x member => each x (List.mem_cons_of_mem v member)
    have head := each v List.mem_cons_self
    refine ⟨⟨head.encodable, encodable⟩, ?_, ?_⟩
    · simpa [valuesFit, hashes] using head.hashes
    · simpa [valuesBlocksFit, blocks] using head.blocks

theorem builtHash {elements : List (AkTableElem AV)} (each : ∀ e ∈ elements, BuiltElem alloc e)
    (room : elements.length * tableElemSize ≤ 1073741824) : Built alloc (.hash elements) := by
  obtain ⟨encodable, hashes, blocks⟩ := elemsBuilt each
  exact ⟨encodable, by simp [hashesFit, hashes, room], blocks⟩

theorem builtAssocArray {elements : List (AkTableElem AV)} (each : ∀ e ∈ elements, BuiltElem alloc e)
    (block : elements.length * tableElemSize ≤ alloc (elements.length * tableElemSize)) :
    Built alloc (.assocArray elements) := by
  obtain ⟨encodable, hashes, blocks⟩ := elemsBuilt each
  exact ⟨encodable, hashes, by simp [blocksFit, blocks, block]⟩

theorem builtArray {values : List AV} (each : ∀ v ∈ values, Built alloc v)
    (block : values.length * avSize ≤ alloc (values.length * avSize)) : Built alloc (.array values) := by
  obtain ⟨encodable, hashes, blocks⟩ := valuesBuilt each
  exact ⟨encodable, hashes, by simp [blocksFit, blocks, block]⟩

end Values

-- What is read from a cursor on `ppool` satisfies `good`.
def Builds {α : Type} (ppool : Serving) (decoder : Decoder α) (good : α → Prop) : Prop :=
  ∀ ap value n ap', decoder ap = .ok (value, n, ap') → ap.ppool = ppool → good value

-- A returned value has had its type stored.
def BuildsValue (ppool : Serving) (alloc : Alloc) (amfUnpack : Nat → Decoder AV) : Prop :=
  ∀ room, Builds ppool (amfUnpack room) fun v => typeSize ≤ room ∧ Built alloc v

section Loops
variable {ppool : Serving} {alloc : Alloc} {amfUnpack : Nat → Decoder AV} (moves : ∀ room, Moves (amfUnpack room))
  (builds : BuildsValue ppool alloc amfUnpack)
include moves builds

theorem unpackValuesBuilds (count : Nat) : Builds ppool (unpackValues amfUnpack count)
    fun values => values.length = count ∧ ∀ v ∈ values, Built alloc v := by
  induction count with
  | zero =>
    intro ap values n ap' h pool
    cases h
    exact ⟨rfl, fun v none => absurd none List.not_mem_nil⟩
  | succ count ih =>
    intro ap values n ap' h pool
    simp only [unpackValues, Fallible.bindOk] at h
    obtain ⟨⟨v, m, next⟩, head, ⟨rest, s, last⟩, tail, result⟩ := h
    obtain ⟨k, _, _, _, rfl⟩ := moves _ ap v m next head
    obtain ⟨size, each⟩ := ih _ rest s last tail pool
    cases result
    exact ⟨by simp [size], List.forall_mem_cons.mpr ⟨(builds _ ap v m _ head pool).2, each⟩⟩

theorem builtRound {room below : Nat} {ap afterKey next : AP} {key : Bytes} {v : AV} {k m : Int}
    (pool : ap.ppool = ppool) (first : unpackZstr room ap = .ok (key, k, afterKey))
    (head : amfUnpack below afterKey = .ok (v, m, next)) :
    typeSize ≤ below ∧ (v.type ≠ amfEnd → BuiltElem alloc ⟨key, v⟩) ∧ next.ppool = ppool := by
  have read := zstrInverted first
  have pool' : afterKey.ppool = ppool := by
    rw [read.moved]
    exact pool
  obtain ⟨j, _, _, _, rfl⟩ := moves _ _ v m next head
  obtain ⟨stored, built⟩ := builds _ _ v m _ head pool'
  exact ⟨stored, fun stays => ⟨read.short, stays, built⟩, pool'⟩

/- All elements, the last of them perhaps with no more than its key and its type in the block;
or fewer, and the key and the type of a terminator. -/
def FitElems (count room n : Nat) : Prop :=
  n = count ∧ n * tableElemSize ≤ room + 20 ∨ n * tableElemSize + 20 ≤ room

omit moves builds in
theorem fitElemsMore {count room n : Nat} (stored : akSize + typeSize ≤ room)
    (fit : FitElems count (room - tableElemSize) n) : FitElems (count + 1) room (n + 1) := by
  unfold FitElems at *
  simp only [akSize, typeSize, tableElemSize] at *
  omega

theorem unpackElemsBuilds (count room : Nat) : Builds ppool (unpackElems amfUnpack count room)
    fun elements => FitElems count room elements.length ∧ ∀ e ∈ elements, BuiltElem alloc e := by
  induction count generalizing room with
  | zero =>
    intro ap elements n ap' h pool
    cases h
    exact ⟨.inl ⟨rfl, by simp⟩, fun e none => absurd none List.not_mem_nil⟩
  | succ count ih =>
    intro ap elements n ap' h pool
    cases elemsRead h with
    | stop first head =>
      obtain ⟨stored, _, _⟩ := builtRound moves builds pool first head
      refine ⟨.inr ?_, fun e none => absurd none List.not_mem_nil⟩
      simp only [List.length_nil, akSize, typeSize] at stored ⊢
      omega
    | more first head stays tail =>
      obtain ⟨stored, elem, pool'⟩ := builtRound moves builds pool first head
      obtain ⟨fit, each⟩ := ih _ _ _ _ _ tail pool'
      refine ⟨fitElemsMore ?_ fit, List.forall_mem_cons.mpr ⟨elem stays, each⟩⟩
      simp only [akSize, typeSize] at stored ⊢
      omega

theorem unpackHashLoopBuilds (fuel : Nat) (buffer : PoolBuffer (AkTableElem AV)) (rsum : Int)
    (ap : AP) (held : Stored buffer.buffer buffer.buffer.content.length tableElemSize)
    (kept : ∀ e ∈ buffer.buffer.content, BuiltElem alloc e) (pool : ap.ppool = ppool)
    {buffer' : PoolBuffer (AkTableElem AV)} {n : Int} {ap' : AP}
    (h : unpackHashLoop amfUnpack fuel buffer rsum ap = .ok (buffer', n, ap')) :
    buffer'.buffer.content.length * tableElemSize ≤ 1073741824 ∧
      ∀ e ∈ buffer'.buffer.content, BuiltElem alloc e := by
  induction fuel generalizing buffer rsum ap with
  | zero => contradiction
  | succ fuel ih =>
    cases hashRead h with
    | stop first head =>
      have bound := powerCapacityBound held.power
      rw [held.length] at bound
      exact ⟨bound, kept⟩
    | @more _ _ _ _ _ next _ _ _ _ _ first head stays write tail =>
      obtain ⟨_, elem, pool'⟩ := builtRound moves builds pool first head
      obtain ⟨written, asked, rfl⟩ := writeRead write
      obtain ⟨power, content, length⟩ := wbWritePower held.power written
      refine ih _ _ (next.went 0 asked) ⟨power, ?_⟩ ?_ pool' tail
      · rw [length, held.length, content, List.length_append, List.length_singleton, Nat.succ_mul]
      · rw [content]
        exact List.forall_mem_append.mpr ⟨kept, List.forall_mem_singleton.mpr (elem stays)⟩

theorem unpackHashBuilds (room : Nat) : Builds ppool (unpackHash amfUnpack room)
    fun elements => Built alloc (.hash elements) := by
  intro ap elements n ap' h pool
  obtain ⟨⟨buffer, rsum, last⟩, loop, h⟩ := Fallible.bindOk.mp h
  obtain ⟨_, _, result⟩ := Fallible.bindOk.mp h
  have empty : Stored (rtmpWbInit 512 : WriteBuffer (AkTableElem AV)) 0 tableElemSize :=
    storedInit (j := 9) (by decide) (by decide) tableElemSize
  obtain ⟨fits, each⟩ := unpackHashLoopBuilds moves builds _ _ 0 (ap.went 0 (512 :: ap.asked)) empty
    (fun e none => absurd none List.not_mem_nil) pool loop
  cases result
  exact builtHash each fits

section Blocks
variable (steady : ServesAs ppool alloc)
include steady

omit moves builds in
theorem fitElemsServed {asked : List Nat} {count : Int} {n : Nat} (high : count < 2147483648)
    (fit : FitElems count.toNat (ppool asked (sizeT (count * tableElemSize) % 2 ^ 32)) n) :
    n * tableElemSize ≤ alloc (n * tableElemSize) := by
  rcases fit with ⟨all, close⟩ | ⟨fewer⟩
  · rcases Int.lt_or_le count 0 with negative | positive
    · have none : n = 0 := by omega
      rw [none]
      exact steady.small (by decide)
    · have bytes : sizeT (count * tableElemSize) = n * tableElemSize := by
        rw [sizeTSame (by rw [tableElemSize]; omega) (by rw [tableElemSize]; omega), tableElemSize]
        omega
      rw [bytes] at close
      exact steady.nearly asked (by omega)
  · exact steady.bounds asked (sizeT (count * tableElemSize)) (by omega)

theorem unpackAssocArrayBuilds (room : Nat) :
    Builds ppool (unpackAssocArray amfUnpack room) fun elements => Built alloc (.assocArray elements) := by
  intro ap elements n ap' h pool
  simp only [unpackAssocArray, Fallible.bindOk] at h
  obtain ⟨⟨size, next⟩, long, _, _, ⟨elems, s, last⟩, loop, result⟩ := h
  obtain ⟨_, rfl⟩ := unpackLongMoves long
  obtain ⟨fit, each⟩ := unpackElemsBuilds moves builds _ _ _ elems s last loop pool
  cases result
  rw [← pool] at steady
  have high : size.toInt < 2147483648 := by
    have bound := BitVec.toInt_lt (x := size)
    omega
  exact builtAssocArray each (fitElemsServed steady high fit)

omit moves builds in
theorem filledServed {asked : List Nat} {count : Int} (low : -2147483648 ≤ count) (high : count < 2147483648)
    (filled : sizeT (count * avSize) ≤ ppool asked (sizeT (count * avSize) % 2 ^ 32)) :
    count.toNat * avSize ≤ alloc (count.toNat * avSize) := by
  have served := steady.bounds asked _ filled
  have word := steady.word served
  have positive : 0 ≤ count * avSize := by
    by_contra negative
    rw [sizeTNegative (by omega) (by rw [avSize]; omega), avSize] at word
    omega
  have bytes : sizeT (count * avSize) = count.toNat * avSize := by
    rw [sizeTSame positive (by rw [avSize]; omega), avSize]
    omega
  rw [bytes] at served
  exact served

theorem unpackArrayBuilds (room : Nat) : Builds ppool (unpackArray amfUnpack room)
    fun values => Built alloc (.array values) := by
  intro ap values n ap' h pool
  simp only [unpackArray, Fallible.bindOk] at h
  obtain ⟨⟨size, next⟩, long, _, filled, _, _, ⟨vs, s, last⟩, loop, result⟩ := h
  obtain ⟨_, rfl⟩ := unpackLongMoves long
  obtain ⟨count, each⟩ := unpackValuesBuilds moves builds _ _ vs s last loop pool
  cases result
  rw [← pool] at steady
  have low := BitVec.le_toInt size
  have high := BitVec.toInt_lt (x := size)
  have range : -2147483648 ≤ size.toInt ∧ size.toInt < 2147483648 := by omega
  have served := filledServed steady range.1 range.2 (storeOk filled)
  refine builtArray each ?_
  rw [count]
  exact served

theorem amfUnpackStepBuilds : BuildsValue ppool alloc (amfUnpackStep amfUnpack) := by
  intro room ap value n ap' h pool
  cases stepRead h with
  | ended beyond stored => exact ⟨stored, trivial, rfl, rfl⟩
  | tagged one stored payload =>
    refine ⟨stored, ?_⟩
    cases payload with
    | plain | number | boolean | link => exact ⟨trivial, rfl, rfl⟩
    | string read => exact ⟨(zstrInverted read).short, rfl, rfl⟩
    | hash read => exact unpackHashBuilds moves builds _ _ _ _ _ read pool
    | assocArray read => exact unpackAssocArrayBuilds moves builds steady _ _ _ _ _ read pool
    | array read => exact unpackArrayBuilds moves builds steady _ _ _ _ _ read pool

end Blocks

end Loops

theorem amfUnpackDepthBuilds {ppool : Serving} {alloc : Alloc} (steady : ServesAs ppool alloc) (depth : Nat) :
    BuildsValue ppool alloc (amfUnpackDepth depth) := by
  induction depth with
  | zero =>
    intro room ap value n ap' h pool
    contradiction
  | succ depth ih => exact amfUnpackStepBuilds (amfUnpackDepthMoves depth) ih steady

theorem amfUnpackBuilds {ap ap' : AP} {alloc : Alloc} (steady : ServesAs ap.ppool alloc) {room : Nat} {v : AV}
    {n : Int} (h : amfUnpack room ap = .ok (v, n, ap')) : Built alloc v :=
  (amfUnpackDepthBuilds steady _ room ap v n ap' h rfl).2

end Rushkit.Amf
