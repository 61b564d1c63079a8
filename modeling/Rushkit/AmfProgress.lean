import Rushkit.AmfUnpack

/-! How far a decoder moves. The count that `amf_unpack` returns is the distance the
cursor went, and the cursor stays inside the memory behind it. -/
namespace Rushkit.Amf

/- The cursor advances by the count that is returned and stays inside the memory. -/
def Moves {α : Type} (decoder : Decoder α) : Prop :=
  ∀ ap value n ap', decoder ap = .ok (value, n, ap') →
    ∃ k asked, k ≤ ap.ahead.length ∧ n = k ∧ ap' = ap.went k asked

theorem aheadLength (ap : AP) (k : Nat) (asked : List Nat) :
    (ap.went k asked).ahead.length = ap.ahead.length - k := by
  rw [AP.aheadWent, List.length_drop]

theorem readSrcMoves {ap ap' : AP} {n : Int} {xs : Bytes} (h : readSrc ap n = .ok (xs, ap')) :
    n = xs.length ∧ xs.length ≤ ap.ahead.length ∧ ap' = ap.advance xs.length := by
  obtain ⟨rest, ahead, size, moved⟩ := readSrcOk h
  have len := congrArg List.length ahead
  rw [List.length_append] at len
  exact ⟨size, by omega, moved⟩

theorem readFixedMoves {α : Type} {f : Bytes → α} {ap ap' : AP} {v : α} {n : Nat}
    (h : (readSrc ap n >>= fun r => .ok (f r.1, r.2)) = .ok (v, ap')) :
    n ≤ ap.ahead.length ∧ ap' = ap.advance n := by
  obtain ⟨⟨src, next⟩, read, last⟩ := Fallible.bindOk.mp h
  obtain ⟨size, inside, moved⟩ := readSrcMoves read
  cases last
  have width : src.length = n := by omega
  rw [width] at inside moved
  exact ⟨inside, moved⟩

theorem unpackLongMoves {ap ap' : AP} {v : BitVec 32} (h : unpackLong ap = .ok (v, ap')) :
    4 ≤ ap.ahead.length ∧ ap' = ap.advance 4 :=
  readFixedMoves (f := fun src => ofHostBytes 32 (loadData src)) (n := 4) h

theorem unpackShortMoves {ap ap' : AP} {v : BitVec 16} (h : unpackShort ap = .ok (v, ap')) :
    2 ≤ ap.ahead.length ∧ ap' = ap.advance 2 :=
  readFixedMoves (f := fun src => ofHostBytes 16 (loadData src)) (n := 2) h

theorem unpackByteMoves {ap ap' : AP} {v : UInt8} (h : unpackByte ap = .ok (v, ap')) :
    1 ≤ ap.ahead.length ∧ ap' = ap.advance 1 :=
  readFixedMoves (f := fun src => src.headD 0) (n := 1) h

theorem unpackDoubleMoves {ap ap' : AP} {v : BitVec 64} (h : unpackDouble ap = .ok (v, ap')) :
    8 ≤ ap.ahead.length ∧ ap' = ap.advance 8 :=
  readFixedMoves (f := fun src => ofHostBytes 64 (loadData src)) (n := 8) h

/- What `_unpack_zstr` has read and stored when it returns. -/
structure ZstrRead (room : Nat) (ap : AP) (str : Bytes) (n : Int) (ap' : AP) : Prop where
  ahead : str.length + 2 ≤ ap.ahead.length
  short : str.length ≤ 32767
  stored : akSize ≤ room
  count : n = ((str.length + 2 : Nat) : Int)
  moved : ap' = ap.went (str.length + 2) (str.length :: ap.asked)

theorem zstrInverted {room : Nat} {ap ap' : AP} {str : Bytes} {n : Int}
    (h : unpackZstr room ap = .ok (str, n, ap')) : ZstrRead room ap str n ap' := by
  simp only [unpackZstr, Fallible.bindOk] at h
  obtain ⟨⟨size, next⟩, short, _, stored, ⟨content, last⟩, read, _, _, result⟩ := h
  obtain ⟨inside, rfl⟩ := unpackShortMoves short
  obtain ⟨same, within, rfl⟩ := readSrcMoves read
  cases result
  dsimp only at same within stored
  rw [AP.requestWent, AP.advanceWent, aheadLength] at within
  have bound : size.toInt < 32768 := BitVec.toInt_lt
  have word : unsignedInt size.toInt % 2 ^ 32 = content.length := by
    rw [same, unsignedInt]
    omega
  refine ⟨by dsimp only; omega, by dsimp only; omega, storeOk stored, by dsimp only; omega, ?_⟩
  dsimp only
  rw [AP.requestWent, word, AP.wentAdvance, AP.advanceWent]
  have total : 2 + (0 + content.length) = content.length + 2 := by omega
  rw [total]
  rfl

theorem unpackZstrMoves {room : Nat} {ap ap' : AP} {str : Bytes} {n : Int}
    (h : unpackZstr room ap = .ok (str, n, ap')) :
    ∃ k asked, 2 ≤ k ∧ k ≤ ap.ahead.length ∧ n = k ∧ ap' = ap.went k asked := by
  have read := zstrInverted h
  exact ⟨_, _, by omega, read.ahead, read.count, read.moved⟩

section Reads
variable {amfUnpack : Nat → Decoder AV} {ap : AP}

inductive ElemsRead (amfUnpack : Nat → Decoder AV) (count room : Nat) (ap : AP) :
    List (AkTableElem AV) → Int → AP → Prop where
  | stop {key : Bytes} {k m : Int} {inner next : AP} {value : AV}
      (first : unpackZstr room ap = .ok (key, k, inner))
      (head : amfUnpack (room - akSize) inner = .ok (value, m, next)) :
      ElemsRead amfUnpack count room ap [] (k + m) next
  | more {key : Bytes} {k m s : Int} {inner next last : AP} {value : AV} {rest : List (AkTableElem AV)}
      (first : unpackZstr room ap = .ok (key, k, inner))
      (head : amfUnpack (room - akSize) inner = .ok (value, m, next)) (stays : value.type ≠ amfEnd)
      (tail : unpackElems amfUnpack count (room - tableElemSize) next = .ok (rest, s, last)) :
      ElemsRead amfUnpack count room ap (⟨key, value⟩ :: rest) (k + m + s) last

theorem elemsRead {count room : Nat} {elements : List (AkTableElem AV)} {n : Int} {ap' : AP}
    (h : unpackElems amfUnpack (count + 1) room ap = .ok (elements, n, ap')) :
    ElemsRead amfUnpack count room ap elements n ap' := by
  simp only [unpackElems, Fallible.bindOk] at h
  obtain ⟨⟨key, k, inner⟩, first, ⟨value, m, next⟩, head, h⟩ := h
  dsimp only at h
  split at h
  · cases h
    exact .stop first head
  · rename_i stays
    obtain ⟨⟨rest, s, last⟩, tail, result⟩ := Fallible.bindOk.mp h
    cases result
    exact .more first head stays tail

inductive HashRead (amfUnpack : Nat → Decoder AV) (fuel : Nat) (buffer : PoolBuffer (AkTableElem AV))
    (rsum : Int) (ap : AP) : PoolBuffer (AkTableElem AV) → Int → AP → Prop where
  | stop {key : Bytes} {k m : Int} {inner next : AP} {value : AV}
      (first : unpackZstr akSize ap = .ok (key, k, inner)) (head : amfUnpack avSize inner = .ok (value, m, next)) :
      HashRead amfUnpack fuel buffer rsum ap buffer (rsum + k + m) next
  | more {key : Bytes} {k m n : Int} {inner next after last : AP} {value : AV}
      {grown buffer' : PoolBuffer (AkTableElem AV)}
      (first : unpackZstr akSize ap = .ok (key, k, inner)) (head : amfUnpack avSize inner = .ok (value, m, next))
      (stays : value.type ≠ amfEnd) (write : rtmpWbWriteIn buffer ⟨key, value⟩ tableElemSize next = .ok (grown, after))
      (tail : unpackHashLoop amfUnpack fuel grown (rsum + k + m) after = .ok (buffer', n, last)) :
      HashRead amfUnpack fuel buffer rsum ap buffer' n last

theorem hashRead {fuel : Nat} {buffer buffer' : PoolBuffer (AkTableElem AV)} {rsum n : Int} {ap' : AP}
    (h : unpackHashLoop amfUnpack (fuel + 1) buffer rsum ap = .ok (buffer', n, ap')) :
    HashRead amfUnpack fuel buffer rsum ap buffer' n ap' := by
  simp only [unpackHashLoop, Fallible.bindOk] at h
  obtain ⟨⟨key, k, inner⟩, first, ⟨value, m, next⟩, head, h⟩ := h
  dsimp only at h
  split at h
  · cases h
    exact .stop first head
  · rename_i stays
    obtain ⟨⟨grown, after⟩, write, tail⟩ := Fallible.bindOk.mp h
    exact .more first head stays write tail

theorem writeRead {α : Type} {pb grown : PoolBuffer α} {elem : α} {size : Nat} {after : AP}
    (h : rtmpWbWriteIn pb elem size ap = .ok (grown, after)) :
    rtmpWbWrite pb.buffer [elem] size = .ok grown.buffer ∧ ∃ asked, after = ap.went 0 asked := by
  obtain ⟨buffer, written, h⟩ := Fallible.bindOk.mp h
  by_cases same : buffer.capacity = pb.buffer.capacity
  · rw [if_pos same] at h
    obtain ⟨_, _, result⟩ := Fallible.bindOk.mp h
    cases result
    exact ⟨written, ap.asked, rfl⟩
  · rw [if_neg same] at h
    obtain ⟨_, _, result⟩ := Fallible.bindOk.mp h
    cases result
    exact ⟨written, _, rfl⟩

inductive PayloadRead (amfUnpack : Nat → Decoder AV) (room : Nat) (ap : AP) : AV → Int → AP → Prop where
  | plain (t : PlainTag) : PayloadRead amfUnpack room ap (.plain t) 0 ap
  | number {bits : BitVec 64} {ap' : AP} (read : unpackDouble ap = .ok (bits, ap')) :
      PayloadRead amfUnpack room ap (.number bits) 8 ap'
  | boolean {value : UInt8} {ap' : AP} (read : unpackByte ap = .ok (value, ap')) :
      PayloadRead amfUnpack room ap (.boolean value) 1 ap'
  | string {content : Bytes} {n : Int} {ap' : AP} (read : unpackZstr room ap = .ok (content, n, ap')) :
      PayloadRead amfUnpack room ap (.string content) n ap'
  | hash {elements : List (AkTableElem AV)} {n : Int} {ap' : AP}
      (read : unpackHash amfUnpack room ap = .ok (elements, n, ap')) :
      PayloadRead amfUnpack room ap (.hash elements) n ap'
  | link {value : BitVec 16} {ap' : AP} (read : unpackShort ap = .ok (value, ap')) :
      PayloadRead amfUnpack room ap (.link value) 2 ap'
  | assocArray {elements : List (AkTableElem AV)} {n : Int} {ap' : AP}
      (read : unpackAssocArray amfUnpack room ap = .ok (elements, n, ap')) :
      PayloadRead amfUnpack room ap (.assocArray elements) n ap'
  | array {values : List AV} {n : Int} {ap' : AP} (read : unpackArray amfUnpack room ap = .ok (values, n, ap')) :
      PayloadRead amfUnpack room ap (.array values) n ap'

theorem payloadRead {room : Nat} {type : UInt8} {value : AV} {n : Int} {ap' : AP}
    (h : unpackPayload amfUnpack room type ap = .ok (value, n, ap')) :
    PayloadRead amfUnpack room ap value n ap' := by
  rcases Classical.em (type ∈ payloadTags) with payload | plain
  case inr =>
    rw [payloadPlain amfUnpack room ap ⟨type, plain⟩] at h
    cases h
    exact .plain ⟨type, plain⟩
  simp only [payloadTags, List.mem_cons, List.not_mem_nil, or_false] at payload
  rcases payload with rfl | rfl | rfl | rfl | rfl | rfl | rfl
  all_goals
    obtain ⟨found, read, result⟩ := Fallible.bindOk.mp h
  · obtain ⟨_, _, result⟩ := Fallible.bindOk.mp result
    cases result
    exact .number read
  · obtain ⟨_, _, result⟩ := Fallible.bindOk.mp result
    cases result
    exact .boolean read
  · cases result
    exact .string read
  · cases result
    exact .hash read
  · obtain ⟨_, _, result⟩ := Fallible.bindOk.mp result
    cases result
    exact .link read
  · cases result
    exact .assocArray read
  · cases result
    exact .array read

inductive StepRead (amfUnpack : Nat → Decoder AV) (room : Nat) (ap : AP) : AV → Int → AP → Prop where
  | ended (beyond : ap.len ≤ ap.src) (stored : typeSize ≤ room) : StepRead amfUnpack room ap .end 0 ap
  | tagged {value : AV} {n : Int} {ap' : AP} (one : 1 ≤ ap.ahead.length) (stored : typeSize ≤ room)
      (payload : PayloadRead amfUnpack (room - unionOffset) (ap.advance 1) value n ap') :
      StepRead amfUnpack room ap value (1 + n) ap'

theorem stepRead {room : Nat} {value : AV} {n : Int} {ap' : AP}
    (h : amfUnpackStep amfUnpack room ap = .ok (value, n, ap')) : StepRead amfUnpack room ap value n ap' := by
  unfold amfUnpackStep at h
  split at h
  · rename_i beyond
    obtain ⟨_, stored, result⟩ := Fallible.bindOk.mp h
    cases result
    exact .ended beyond (storeOk stored)
  · obtain ⟨⟨type, next⟩, tag, h⟩ := Fallible.bindOk.mp h
    obtain ⟨one, rfl⟩ := unpackByteMoves tag
    obtain ⟨_, stored, h⟩ := Fallible.bindOk.mp h
    obtain ⟨⟨v, m, last⟩, payload, result⟩ := Fallible.bindOk.mp h
    cases result
    exact .tagged one (storeOk stored) (payloadRead payload)

end Reads

section Loops
variable {amfUnpack : Nat → Decoder AV} (moves : ∀ room, Moves (amfUnpack room))
include moves

theorem unpackValuesMoves (count : Nat) : Moves (unpackValues amfUnpack count) := by
  induction count with
  | zero =>
    intro ap value n ap' h
    cases h
    exact ⟨0, ap.asked, Nat.zero_le _, rfl, rfl⟩
  | succ count ih =>
    intro ap value n ap' h
    simp only [unpackValues, Fallible.bindOk] at h
    obtain ⟨⟨v, m, next⟩, head, ⟨rest, s, last⟩, tail, result⟩ := h
    obtain ⟨k, _, inside, hk, rfl⟩ := moves _ ap v m next head
    obtain ⟨j, asked, within, hj, rfl⟩ := ih _ rest s last tail
    cases result
    rw [aheadLength] at within
    exact ⟨k + j, asked, by omega, by dsimp only; omega, AP.wentWent ap k _ j asked⟩

theorem elemMoves {room below : Nat} {ap inner next : AP} {key : Bytes} {value : AV} {a m : Int}
    (first : unpackZstr room ap = .ok (key, a, inner)) (head : amfUnpack below inner = .ok (value, m, next)) :
    ∃ k asked, k ≤ ap.ahead.length ∧ a + m = k ∧ next = ap.went k asked := by
  obtain ⟨a, _, _, inKey, ha, rfl⟩ := unpackZstrMoves first
  obtain ⟨k, asked, inside, hk, rfl⟩ := moves _ _ _ _ _ head
  rw [aheadLength] at inside
  exact ⟨a + k, asked, by omega, by omega, AP.wentWent ap a _ k asked⟩

theorem unpackElemsMoves (count room : Nat) : Moves (unpackElems amfUnpack count room) := by
  induction count generalizing room with
  | zero =>
    intro ap value n ap' h
    cases h
    exact ⟨0, ap.asked, Nat.zero_le _, rfl, rfl⟩
  | succ count ih =>
    intro ap elements n ap' h
    cases elemsRead h with
    | stop first head => exact elemMoves moves first head
    | more first head stays tail =>
      obtain ⟨k, _, inside, hk, rfl⟩ := elemMoves moves first head
      obtain ⟨j, asked, within, hj, rfl⟩ := ih _ _ _ _ _ tail
      rw [aheadLength] at within
      exact ⟨k + j, asked, by omega, by omega, AP.wentWent ap k _ j asked⟩

theorem unpackHashLoopMoves (fuel : Nat) (buffer : PoolBuffer (AkTableElem AV)) (rsum : Int)
    (ap : AP) {buffer' : PoolBuffer (AkTableElem AV)} {n : Int} {ap' : AP}
    (h : unpackHashLoop amfUnpack fuel buffer rsum ap = .ok (buffer', n, ap')) :
    ∃ k asked, k ≤ ap.ahead.length ∧ n = rsum + k ∧ ap' = ap.went k asked := by
  induction fuel generalizing buffer rsum ap with
  | zero => contradiction
  | succ fuel ih =>
    cases hashRead h with
    | stop first head =>
      obtain ⟨k, asked, inside, hk, rfl⟩ := elemMoves moves first head
      exact ⟨k, asked, inside, by omega, rfl⟩
    | more first head stays write tail =>
      obtain ⟨k, _, inside, hk, rfl⟩ := elemMoves moves first head
      obtain ⟨_, _, rfl⟩ := writeRead write
      obtain ⟨j, asked, within, hj, rfl⟩ := ih _ _ _ tail
      rw [AP.wentWent, Nat.add_zero] at within
      rw [aheadLength] at within
      refine ⟨k + j, asked, by omega, by omega, ?_⟩
      rw [AP.wentWent, AP.wentWent, Nat.zero_add]

theorem unpackHashMoves (room : Nat) : Moves (unpackHash amfUnpack room) := by
  intro ap value n ap' h
  obtain ⟨⟨buffer, rsum, last⟩, loop, h⟩ := Fallible.bindOk.mp h
  obtain ⟨_, _, result⟩ := Fallible.bindOk.mp h
  cases result
  obtain ⟨k, asked, inside, hk, rfl⟩ := unpackHashLoopMoves moves _ _ 0 _ loop
  refine ⟨k, asked, inside, by omega, ?_⟩
  show (ap.went 0 (512 :: ap.asked)).went k asked = ap.went k asked
  rw [AP.wentWent, Nat.zero_add]

theorem unpackAssocArrayMoves (room : Nat) : Moves (unpackAssocArray amfUnpack room) := by
  intro ap value n ap' h
  simp only [unpackAssocArray, Fallible.bindOk] at h
  obtain ⟨⟨size, next⟩, long, _, _, ⟨elements, s, last⟩, loop, result⟩ := h
  obtain ⟨four, rfl⟩ := unpackLongMoves long
  obtain ⟨k, asked, inside, hk, rfl⟩ := unpackElemsMoves moves _ _ _ elements s last loop
  cases result
  rw [AP.requestWent, AP.advanceWent, aheadLength] at inside
  refine ⟨4 + k, asked, by omega, by dsimp only; omega, ?_⟩
  dsimp only
  rw [AP.requestWent, AP.advanceWent, AP.wentWent]

theorem unpackArrayMoves (room : Nat) : Moves (unpackArray amfUnpack room) := by
  intro ap value n ap' h
  simp only [unpackArray, Fallible.bindOk] at h
  obtain ⟨⟨size, next⟩, long, _, _, _, _, ⟨elements, s, last⟩, loop, result⟩ := h
  obtain ⟨four, rfl⟩ := unpackLongMoves long
  obtain ⟨k, asked, inside, hk, rfl⟩ := unpackValuesMoves moves _ _ elements s last loop
  cases result
  rw [AP.requestWent, AP.advanceWent, aheadLength] at inside
  refine ⟨4 + k, asked, by omega, by dsimp only; omega, ?_⟩
  dsimp only
  rw [AP.requestWent, AP.advanceWent, AP.wentWent]

theorem payloadReadMoves {room : Nat} {ap : AP} {value : AV} {n : Int} {ap' : AP}
    (read : PayloadRead amfUnpack room ap value n ap') :
    ∃ k asked, k ≤ ap.ahead.length ∧ n = (k : Int) ∧ ap' = ap.went k asked := by
  cases read with
  | plain t => exact ⟨0, ap.asked, Nat.zero_le _, rfl, rfl⟩
  | number read =>
    obtain ⟨inside, rfl⟩ := unpackDoubleMoves read
    exact ⟨8, ap.asked, inside, rfl, rfl⟩
  | boolean read =>
    obtain ⟨inside, rfl⟩ := unpackByteMoves read
    exact ⟨1, ap.asked, inside, rfl, rfl⟩
  | string read =>
    obtain ⟨k, asked, _, inside, count, rfl⟩ := unpackZstrMoves read
    exact ⟨k, asked, inside, count, rfl⟩
  | hash read => exact unpackHashMoves moves _ ap _ _ _ read
  | link read =>
    obtain ⟨inside, rfl⟩ := unpackShortMoves read
    exact ⟨2, ap.asked, inside, rfl, rfl⟩
  | assocArray read => exact unpackAssocArrayMoves moves _ ap _ _ _ read
  | array read => exact unpackArrayMoves moves _ ap _ _ _ read

theorem stepReadMoves {room : Nat} {ap : AP} {value : AV} {n : Int} {ap' : AP}
    (read : StepRead amfUnpack room ap value n ap') :
    ∃ k asked, k ≤ ap.ahead.length ∧ n = (k : Int) ∧ ap' = ap.went k asked ∧ (ap.src < ap.len → 0 < k) := by
  cases read with
  | ended beyond =>
    exact ⟨0, ap.asked, Nat.zero_le _, rfl, rfl, fun before => absurd before (Int.not_lt.mpr beyond)⟩
  | tagged one stored payload =>
    obtain ⟨k, asked, inside, rfl, rfl⟩ := payloadReadMoves moves payload
    rw [AP.advanceIsWent, aheadLength] at inside
    refine ⟨1 + k, asked, by omega, by omega, AP.advanceWent ap k asked 1, fun _ => by omega⟩

theorem amfUnpackStepMoves (room : Nat) : Moves (amfUnpackStep amfUnpack room) := by
  intro ap value n ap' h
  obtain ⟨k, asked, inside, count, moved, _⟩ := stepReadMoves moves (stepRead h)
  exact ⟨k, asked, inside, count, moved⟩

end Loops

theorem amfUnpackDepthMoves (depth room : Nat) : Moves (amfUnpackDepth depth room) := by
  induction depth generalizing room with
  | zero =>
    intro ap value n ap' h
    contradiction
  | succ depth ih => exact amfUnpackStepMoves ih room

theorem amfUnpackMoves (room : Nat) : Moves (amfUnpack room) :=
  fun ap => amfUnpackDepthMoves _ room ap

end Rushkit.Amf
