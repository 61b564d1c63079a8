import Rushkit.AmfGrammar

/-! The AMF decoder against the grammar. It reads outside its input exactly when the data is
cut off inside a value it comes to, and stores outside a block exactly where one is too short. -/
namespace Rushkit.Amf

def cursor (ppool : Serving) (mem : Bytes) (asked : List Nat) (s : Bytes) : AP :=
  ⟨ppool, asked, mem, mem.length, mem.length - s.length⟩

section Cursors
variable {ppool : Serving} {mem : Bytes} {asked : List Nat}

theorem cursorAhead {s : Bytes} (within : s <:+ mem) : (cursor ppool mem asked s).ahead = s := by
  obtain ⟨front, rfl⟩ := within
  rw [cursor, AP.ahead, List.length_append, Nat.add_sub_cancel, List.drop_left]

theorem cursorWhole (ppool : Serving) (mem : Bytes) (asked : List Nat) (s : Bytes) :
    (cursor ppool mem asked s).len = (cursor ppool mem asked s).mem.length := rfl

theorem cursorAdvance {s t : Bytes} (within : s ++ t <:+ mem) :
    (cursor ppool mem asked (s ++ t)).advance s.length = cursor ppool mem asked t := by
  have bound := within.length_le
  rw [List.length_append] at bound
  simp only [cursor, AP.advance, List.length_append, AP.mk.injEq, true_and]
  omega

theorem cursorStart (ppool : Serving) (data : Bytes) :
    amfApAlloc ppool data data.length = cursor ppool data [] data := by
  rw [cursor, Nat.sub_self]
  rfl

theorem cursorTag {s : Bytes} {t : UInt8} (within : t :: s <:+ mem) :
    (cursor ppool mem asked (t :: s)).advance 1 = cursor ppool mem asked s :=
  cursorAdvance (s := [t]) within

theorem cursorRequest (ppool : Serving) (mem : Bytes) (asked : List Nat) (s : Bytes) (size : Nat) :
    (cursor ppool mem asked s).request size =
      (ppool asked (size % 2 ^ 32), cursor ppool mem (size % 2 ^ 32 :: asked) s) := rfl

theorem suffixTail {s t : Bytes} (within : s ++ t <:+ mem) : t <:+ mem :=
  (List.suffix_append s t).trans within

theorem cursorRead (ppool : Serving) (asked : List Nat) {s t : Bytes} (within : s ++ t <:+ mem) {n : Int}
    (len : n = s.length) :
    readSrc (cursor ppool mem asked (s ++ t)) n = .ok (s, cursor ppool mem asked t) := by
  rw [readSrcAhead (cursorAhead within) len, cursorAdvance within]

theorem cursorShort {s : Bytes} (within : s <:+ mem) {n : Int}
    (short : n < 0 ∨ (s.length : Int) < n) : readSrc (cursor ppool mem asked s) n = .error .overRead := by
  rw [readSrc, cursorAhead within, if_neg]
  omega

theorem cursorLong {count s : Bytes} (within : count ++ s <:+ mem) (four : count.length = 4) :
    ∃ size, unpackLong (cursor ppool mem asked (count ++ s)) = .ok (size, cursor ppool mem asked s) ∧
      size.toInt = wireInt count := by
  have read := cursorRead ppool asked within (n := 4) (by rw [four]; rfl)
  refine ⟨ofHostBytes 32 (loadData count), ?_, rfl⟩
  rw [unpackLong, read, Fallible.okBind]

theorem cursorLongShort {s : Bytes} (within : s <:+ mem) (short : s.length < 4) :
    unpackLong (cursor ppool mem asked s) = .error .overRead := by
  rw [unpackLong, cursorShort within (by omega), Fallible.errorBind]

end Cursors

def Failure.fault : Failure → Fault
  | .cut => .overRead
  | .spill => .overWrite
  | .full => .hang

def Outcome.result (ppool : Serving) (mem : Bytes) : Outcome → Res (Bool × AP)
  | .whole ends asked rest => .ok (ends, cursor ppool mem asked rest)
  | .fails why => .error why.fault

def valueEnd (r : AV × Int × AP) : Bool × AP := (decide (r.1.type = amfEnd), r.2.2)

def inside {α : Type} (r : α × Int × AP) : Bool × AP := (false, r.2.2)

def loopEnd {α : Type} (r : α × AP) : Bool × AP := (false, r.2)

section Results
variable {ppool : Serving} {mem : Bytes}

theorem resultAfter (need room : Nat) (o : Outcome) :
    (o.after need room).result ppool mem = store room need >>= fun _ => o.result ppool mem := by
  by_cases fits : need ≤ room
  · rw [Outcome.after, if_pos fits, storeRoom fits, Fallible.okBind]
  · rw [Outcome.after, if_neg fits, storeBehind fits, Fallible.errorBind]
    rfl

theorem resultStored (need room : Nat) (o : Outcome) : (o.andStored need room).result ppool mem =
    o.result ppool mem >>= fun r => store room need >>= fun _ => .ok r := by
  cases o with
  | fails why => rfl
  | whole ends asked rest => exact resultAfter need room _

theorem resultWhole {α : Type} {f : α → Bool × AP} {ends : Bool} {asked : List Nat} {rest : Bytes} {r : Res α}
    (gives : r.map f = (Outcome.whole ends asked rest).result ppool mem) :
    ∃ found, r = .ok found ∧ f found = (ends, cursor ppool mem asked rest) := by
  cases r with
  | error e => cases gives
  | ok found => exact ⟨found, rfl, Except.ok.inj gives⟩

theorem resultFails {α : Type} {f : α → Bool × AP} {why : Failure} {r : Res α}
    (gives : r.map f = (Outcome.fails why).result ppool mem) : r = .error why.fault := by
  cases r with
  | error e => exact congrArg Except.error (Except.error.inj gives)
  | ok found => cases gives

theorem resultInner {α : Type} {o : Outcome} {r : Res (α × Int × AP)}
    (gives : r.map inside = o.result ppool mem) : r.map inside = o.inner.result ppool mem := by
  cases o with
  | fails why => exact gives
  | whole ends asked rest =>
    obtain ⟨found, rfl, same⟩ := resultWhole gives
    exact congrArg (fun ap => Except.ok (false, ap)) (Prod.mk.inj same).2

end Results

-- The decoder of each part, at any depth and any bound that the bytes left allow.
def Follows (ppool : Serving) (mem : Bytes) (part : Part) (asked : List Nat) (s : Bytes) (o : Outcome) : Prop :=
  match part with
  | .value room => ∀ depth, s.length < depth →
    (amfUnpackDepth depth room (cursor ppool mem asked s)).map valueEnd = o.result ppool mem
  | .values count => ∀ depth, s.length < depth →
    (unpackValues (amfUnpackDepth depth) count (cursor ppool mem asked s)).map inside = o.result ppool mem
  | .elems count room => ∀ depth, s.length < depth →
    (unpackElems (amfUnpackDepth depth) count room (cursor ppool mem asked s)).map inside = o.result ppool mem
  | .hash held => ∀ depth, s.length < depth → ∀ fuel, s.length < fuel →
    ∀ (buffer : PoolBuffer (AkTableElem AV)) (rsum : Int), Keeps buffer held tableElemSize →
    (unpackHashLoop (amfUnpackDepth depth) fuel buffer rsum (cursor ppool mem asked s)).map inside =
      o.result ppool mem
  | .arguments held => ∀ fuel, s.length < fuel → ∀ buffer : PoolBuffer AV, Keeps buffer held avSize →
    (readArgumentsLoop fuel buffer (cursor ppool mem asked s)).map loopEnd = o.result ppool mem
  | .list held => ∀ fuel, s.length < fuel → ∀ buffer : PoolBuffer AV, Keeps buffer held avSize →
    (readArrayLoop fuel buffer (cursor ppool mem asked s)).map loopEnd = o.result ppool mem

section Tags
variable {ppool : Serving} {mem : Bytes} {asked : List Nat} {s : Bytes} {room : Nat}

theorem zstrHead {size t : Bytes} (two : size.length = 2) (within : size ++ t <:+ mem) :
    unpackZstr room (cursor ppool mem asked (size ++ t)) = store room akSize >>= fun _ =>
      readSrc (cursor ppool mem (unsignedInt (wireShort size) % 2 ^ 32 :: asked) t) (wireShort size) >>= fun r =>
        store (ppool asked (unsignedInt (wireShort size) % 2 ^ 32)) r.1.length >>= fun _ =>
          .ok (r.1, wireShort size + 2, r.2) := by
  have first := cursorRead ppool asked within (n := 2) (by rw [two]; rfl)
  rw [unpackZstr, unpackShort, first]
  rfl

theorem followsZstr {o : Outcome} (within : s <:+ mem) (key : Zstr ppool room asked s o) :
    (unpackZstr room (cursor ppool mem asked s)).map inside = o.result ppool mem := by
  cases key with
  | whole size content rest two length =>
    have bound : wireShort size < 32768 := BitVec.toInt_lt
    have word : unsignedInt (wireShort size) % 2 ^ 32 = content.length := by
      rw [length, unsignedInt]
      omega
    have read := cursorRead ppool (content.length :: asked) (suffixTail within) length
    rw [zstrHead two within, word, read, resultAfter, resultAfter, Fallible.okBind, Fallible.bindMap]
    simp only [Fallible.bindMap]
    rfl
  | sizeCut _ short =>
    rw [unpackZstr, unpackShort, cursorShort within (by omega), Fallible.errorBind, Fallible.errorBind]
    rfl
  | contentCut size rest two long =>
    rw [zstrHead two within, cursorShort (suffixTail within) long, resultAfter, Fallible.errorBind,
      Fallible.bindMap]
    rfl

theorem zstrRead {asked' : List Nat} {rest : Bytes} {ends : Bool} (within : s <:+ mem)
    (key : Zstr ppool room asked s (.whole ends asked' rest)) : ∃ content n,
      unpackZstr room (cursor ppool mem asked s) = .ok (content, n, cursor ppool mem asked' rest) := by
  obtain ⟨⟨content, n, ap⟩, read, same⟩ := resultWhole (followsZstr within key)
  obtain ⟨_, rfl⟩ := Prod.mk.inj same
  exact ⟨content, n, read⟩

theorem zstrStops {why : Failure} (within : s <:+ mem) (key : Zstr ppool room asked s (.fails why)) :
    unpackZstr room (cursor ppool mem asked s) = .error why.fault :=
  resultFails (followsZstr within key)

theorem valueRead {depth : Nat} {ends : Bool} {asked' : List Nat} {rest : Bytes}
    (gives : (amfUnpackDepth depth room (cursor ppool mem asked s)).map valueEnd =
      (Outcome.whole ends asked' rest).result ppool mem) :
    ∃ v n, amfUnpackDepth depth room (cursor ppool mem asked s) = .ok (v, n, cursor ppool mem asked' rest) ∧
      decide (v.type = amfEnd) = ends := by
  obtain ⟨⟨v, n, ap⟩, read, same⟩ := resultWhole gives
  obtain ⟨ended, rfl⟩ := Prod.mk.inj same
  exact ⟨v, n, read, ended⟩

variable (amfUnpack : Nat → Decoder AV)

theorem stepEnd : (amfUnpackStep amfUnpack room (cursor ppool mem asked [])).map valueEnd =
    ((Outcome.whole true asked []).after typeSize room).result ppool mem := by
  have ended : (cursor ppool mem asked []).len ≤ (cursor ppool mem asked []).src := by
    simp [cursor]
  rw [amfUnpackStep, if_pos ended, resultAfter, Fallible.bindMap]
  rfl

theorem stepTag {t : UInt8} (within : t :: s <:+ mem) :
    (amfUnpackStep amfUnpack room (cursor ppool mem asked (t :: s))).map valueEnd =
      store room typeSize >>= fun _ =>
        (unpackPayload amfUnpack (room - unionOffset) t (cursor ppool mem asked s)).map valueEnd := by
  have ahead : (cursor ppool mem asked (t :: s)).ahead = t :: s := cursorAhead within
  have sizes := congrArg List.length ahead
  simp only [AP.ahead, List.length_drop, List.length_cons] at sizes
  have more : ¬ (cursor ppool mem asked (t :: s)).len ≤ (cursor ppool mem asked (t :: s)).src := by
    rw [cursorWhole]
    omega
  rw [amfUnpackStep, if_neg more, unpackBytePacked ahead, cursorTag within, Fallible.okBind]
  dsimp only
  rw [Fallible.bindMap]
  refine congrArg _ (funext fun _ => ?_)
  cases unpackPayload amfUnpack (room - unionOffset) t (cursor ppool mem asked s) <;> rfl

theorem payloadFixed {t : UInt8} {width : Nat} (form : FixedWidth t width) {payload : Bytes}
    (length : payload.length = width) (within : payload ++ s <:+ mem) :
    (unpackPayload amfUnpack room t (cursor ppool mem asked (payload ++ s))).map valueEnd =
      ((Outcome.whole false asked s).after width room).result ppool mem := by
  rw [resultAfter]
  cases form with
  | number =>
    have read := cursorRead ppool asked within (n := 8) (by rw [length]; rfl)
    rw [payloadNumber, unpackDouble, read, Fallible.okBind, Fallible.okBind, Fallible.bindMap]
    rfl
  | boolean =>
    have read := cursorRead ppool asked within (n := 1) (by rw [length]; rfl)
    rw [payloadBoolean, unpackByte, read, Fallible.okBind, Fallible.okBind, Fallible.bindMap]
    rfl
  | link =>
    have read := cursorRead ppool asked within (n := 2) (by rw [length]; rfl)
    rw [payloadLink, unpackShort, read, Fallible.okBind, Fallible.okBind, Fallible.bindMap]
    rfl

theorem payloadFixedCut {t : UInt8} {width : Nat} (form : FixedWidth t width) (within : s <:+ mem)
    (short : s.length < width) :
    unpackPayload amfUnpack room t (cursor ppool mem asked s) = .error .overRead := by
  cases form with
  | number => rw [payloadNumber, unpackDouble, cursorShort within (by omega)]; rfl
  | boolean => rw [payloadBoolean, unpackByte, cursorShort within (by omega)]; rfl
  | link => rw [payloadLink, unpackShort, cursorShort within (by omega)]; rfl

theorem payloadCountCut {t : UInt8} (counted : t = amfAssocArray ∨ t = amfArray) (within : s <:+ mem)
    (short : s.length < 4) :
    unpackPayload amfUnpack room t (cursor ppool mem asked s) = .error .overRead := by
  have read : unpackLong (cursor ppool mem asked s) = _ := cursorLongShort within short
  rcases counted with rfl | rfl
  · rw [payloadAssocArray, unpackAssocArray, read]
    rfl
  · rw [payloadArray, unpackArray, read]
    rfl

theorem payloadElems {count : Bytes} (four : count.length = 4) (within : count ++ s <:+ mem) :
    (unpackPayload amfUnpack room amfAssocArray (cursor ppool mem asked (count ++ s))).map valueEnd =
      store room akSize >>= fun _ =>
        (unpackElems amfUnpack (wireInt count).toNat (ppool asked (tableBytes count % 2 ^ 32))
          (cursor ppool mem (tableBytes count % 2 ^ 32 :: asked) s)).map inside := by
  obtain ⟨size, read, same⟩ : ∃ size, unpackLong (cursor ppool mem asked (count ++ s)) = _ ∧ _ :=
    cursorLong within four
  rw [payloadAssocArray, unpackAssocArray, read, Fallible.okBind]
  dsimp only
  rw [same, ← tableBytes, cursorRequest]
  dsimp only
  simp only [Fallible.bindMap, bind_assoc]
  refine congrArg _ (funext fun _ => ?_)
  cases unpackElems amfUnpack (wireInt count).toNat (ppool asked (tableBytes count % 2 ^ 32))
    (cursor ppool mem (tableBytes count % 2 ^ 32 :: asked) s) <;> rfl

theorem payloadValues {count : Bytes} (four : count.length = 4) (within : count ++ s <:+ mem) :
    (unpackPayload amfUnpack room amfArray (cursor ppool mem asked (count ++ s))).map valueEnd =
      store (ppool asked (arrayBytes count % 2 ^ 32)) (arrayBytes count) >>= fun _ =>
        store room akSize >>= fun _ =>
          (unpackValues amfUnpack (wireInt count).toNat
            (cursor ppool mem (arrayBytes count % 2 ^ 32 :: asked) s)).map inside := by
  obtain ⟨size, read, same⟩ : ∃ size, unpackLong (cursor ppool mem asked (count ++ s)) = _ ∧ _ :=
    cursorLong within four
  rw [payloadArray, unpackArray, read, Fallible.okBind]
  dsimp only
  rw [same, ← arrayBytes, cursorRequest]
  dsimp only
  simp only [Fallible.bindMap, bind_assoc]
  refine congrArg _ (funext fun _ => congrArg _ (funext fun _ => ?_))
  cases unpackValues amfUnpack (wireInt count).toNat (cursor ppool mem (arrayBytes count % 2 ^ 32 :: asked) s) <;>
    rfl

theorem payloadGathered : (unpackPayload amfUnpack room amfHash (cursor ppool mem asked s)).map valueEnd =
    (unpackHashLoop amfUnpack (mem.length + 1) ⟨rtmpWbInit 512, ppool asked 512⟩ 0
      (cursor ppool mem (512 :: asked) s)).map inside >>= fun r => store room akSize >>= fun _ => .ok r := by
  show Except.map valueEnd (unpackHash amfUnpack room (cursor ppool mem asked s) >>= _) = _
  show Except.map valueEnd ((unpackHashLoop amfUnpack (mem.length + 1) ⟨rtmpWbInit 512, ppool asked 512⟩ 0
    (cursor ppool mem (512 :: asked) s) >>= _) >>= _) = _
  cases unpackHashLoop amfUnpack (mem.length + 1) ⟨rtmpWbInit 512, ppool asked 512⟩ 0
    (cursor ppool mem (512 :: asked) s) with
  | error e => rfl
  | ok found =>
    by_cases fits : akSize ≤ room
    · simp only [Fallible.okBind, storeRoom fits]
      rfl
    · simp only [Fallible.okBind, storeBehind fits]
      rfl

end Tags

section Rounds
variable {dec : Nat → Decoder AV} {ap mid next : AP} {key : Bytes} {value : AV} {k n : Int}

theorem valuesRound (read : dec avSize ap = .ok (value, n, next)) (count : Nat) :
    (unpackValues dec (count+1) ap).map inside = (unpackValues dec count next).map inside := by
  simp only [unpackValues, read, Fallible.okBind]
  cases unpackValues dec count next <;> rfl

variable {room : Nat} (first : unpackZstr room ap = .ok (key, k, mid))
  (read : dec (room - akSize) mid = .ok (value, n, next))
include first read

theorem elemsRound (stays : decide (value.type = amfEnd) = false) (count : Nat) :
    (unpackElems dec (count+1) room ap).map inside =
      (unpackElems dec count (room - tableElemSize) next).map inside := by
  simp only [unpackElems, first, read, Fallible.okBind]
  rw [if_neg (of_decide_eq_false stays)]
  cases unpackElems dec count (room - tableElemSize) next <;> rfl

theorem elemsEnd (ends : decide (value.type = amfEnd) = true) (count : Nat) :
    (unpackElems dec (count+1) room ap).map inside = .ok (false, next) := by
  simp only [unpackElems, first, read, Fallible.okBind]
  rw [if_pos (of_decide_eq_true ends)]
  rfl

end Rounds

section HashRounds
variable {dec : Nat → Decoder AV} {ap mid next : AP} {key : Bytes} {value : AV} {k n : Int}
  (first : unpackZstr akSize ap = .ok (key, k, mid)) (read : dec avSize mid = .ok (value, n, next))
include first read

theorem hashRound (stays : decide (value.type = amfEnd) = false) (fuel : Nat)
    (buffer : PoolBuffer (AkTableElem AV)) (rsum : Int) :
    unpackHashLoop dec (fuel+1) buffer rsum ap =
      rtmpWbWriteIn buffer ⟨key, value⟩ tableElemSize next >>= fun (buffer, ap) =>
        unpackHashLoop dec fuel buffer (rsum + k + n) ap := by
  simp only [unpackHashLoop, first, read, Fallible.okBind]
  rw [if_neg (of_decide_eq_false stays)]

theorem hashEnd (ends : decide (value.type = amfEnd) = true) (fuel : Nat)
    (buffer : PoolBuffer (AkTableElem AV)) (rsum : Int) :
    (unpackHashLoop dec (fuel+1) buffer rsum ap).map inside = .ok (false, next) := by
  simp only [unpackHashLoop, first, read, Fallible.okBind]
  rw [if_pos (of_decide_eq_true ends)]
  rfl

end HashRounds

section Following
variable {ppool : Serving} {mem : Bytes}

theorem unpackDeep {asked : List Nat} {s : Bytes} {o : Outcome} {room : Nat} (within : s <:+ mem)
    (value : Follows ppool mem (.value room) asked s o) :
    (amfUnpack room (cursor ppool mem asked s)).map valueEnd = o.result ppool mem :=
  value (mem.length + 1) (Nat.lt_succ_of_le within.length_le)

theorem endCursor {asked : List Nat} {s : Bytes} (within : s <:+ mem) :
    amfApIsEnd (cursor ppool mem asked s) = true ↔ s = [] := by
  rw [endAhead (cursorWhole ppool mem asked s), cursorAhead within]

theorem followsTag {asked : List Nat} {s : Bytes} {t : UInt8} {o : Outcome} {room : Nat}
    (within : t :: s <:+ mem)
    (payload : ∀ depth, s.length < depth →
      (unpackPayload (amfUnpackDepth depth) (room - unionOffset) t (cursor ppool mem asked s)).map valueEnd =
        o.result ppool mem) :
    Follows ppool mem (.value room) asked (t :: s) (o.after typeSize room) := by
  intro depth enough
  cases depth with
  | zero => contradiction
  | succ depth =>
    have deeper : s.length < depth := Nat.lt_of_succ_lt_succ enough
    rw [amfUnpackDepth, stepTag _ within, payload depth deeper, resultAfter]

theorem givesCut {r : Res (AV × Int × AP)} (fails : r = .error .overRead) :
    r.map valueEnd = (Outcome.fails .cut).result ppool mem := by
  rw [fails]
  rfl

-- One step of reading, given that the decoder follows the steps inside it.
abbrev Followed (ppool : Serving) (mem : Bytes) (part : Part) (asked : List Nat) (s : Bytes) (o : Outcome) : Prop :=
  s <:+ mem → Follows ppool mem part asked s o

theorem keyThenValue {asked asked₁ asked₂ : List Nat} {s mid next : Bytes} {ends : Bool} {room below : Nat}
    (within : s <:+ mem) (key : Zstr ppool room asked s (.whole false asked₁ mid))
    (head : Followed ppool mem (.value below) asked₁ mid (.whole ends asked₂ next)) {depth : Nat}
    (enough : s.length < depth) :
    ∃ content k v n,
      unpackZstr room (cursor ppool mem asked s) = .ok (content, k, cursor ppool mem asked₁ mid) ∧
      amfUnpackDepth depth below (cursor ppool mem asked₁ mid) = .ok (v, n, cursor ppool mem asked₂ next) ∧
      decide (v.type = amfEnd) = ends := by
  have fewer := zstrLength key
  obtain ⟨content, k, first⟩ := zstrRead within key
  obtain ⟨v, n, read, same⟩ := valueRead (head ((zstrSuffix key).trans within) depth (by omega))
  exact ⟨content, k, v, n, first, read, same⟩

theorem keyThenFails {asked asked₁ : List Nat} {s mid : Bytes} {why : Failure} {room below : Nat}
    (within : s <:+ mem) (key : Zstr ppool room asked s (.whole false asked₁ mid))
    (head : Followed ppool mem (.value below) asked₁ mid (.fails why)) {depth : Nat}
    (enough : s.length < depth) :
    ∃ content k, unpackZstr room (cursor ppool mem asked s) = .ok (content, k, cursor ppool mem asked₁ mid) ∧
      amfUnpackDepth depth below (cursor ppool mem asked₁ mid) = .error why.fault := by
  have fewer := zstrLength key
  obtain ⟨content, k, first⟩ := zstrRead within key
  exact ⟨content, k, first, resultFails (head ((zstrSuffix key).trans within) depth (by omega))⟩

theorem deeper {s : Bytes} {depth : Nat} (enough : s.length < depth) : ∃ n, depth = n + 1 :=
  ⟨depth - 1, by omega⟩

theorem followsWrite {α β : Type} {pb : PoolBuffer α} {held : Gathering} {size : Nat} {asked : List Nat}
    {s : Bytes} {o : Outcome} {f : PoolBuffer α × AP → Res β} {g : β → Bool × AP} (keeps : Keeps pb held size)
    (small : size ≤ 64) (elem : α)
    (rest : ∀ pb', Keeps pb' (held.next ppool asked size) size →
      (f (pb', cursor ppool mem (held.nextAsked asked size) s)).map g = o.result ppool mem) :
    (rtmpWbWriteIn pb elem size (cursor ppool mem asked s) >>= f).map g =
      (o.gathered (held.need size) (held.next ppool asked size).block).result ppool mem := by
  by_cases room : held.need size ≤ 1073741824
  · obtain ⟨pb', _, keeps', write⟩ := keepsWrite keeps room elem (cursor ppool mem asked s)
    rw [write, Outcome.gathered, if_pos room, resultAfter, bind_assoc, Fallible.bindMap]
    refine congrArg _ (funext fun _ => ?_)
    exact rest pb' keeps'
  · rw [keepsFull keeps small room, Outcome.gathered, if_neg room]
    rfl

section Steps
variable {asked asked₁ asked₂ : List Nat} {s mid next rest : Bytes} {o : Outcome} {why : Failure} {ends : Bool}
  {count room : Nat} {held : Gathering}

theorem followsValuesFail (ih : Followed ppool mem (.value avSize) asked s (.fails why)) :
    Followed ppool mem (.values (count+1)) asked s (.fails why) := by
  intro within depth enough
  have read := resultFails (ih within depth enough)
  rw [unpackValues, read]
  rfl

theorem followsValuesMore (head : Reads ppool (.value avSize) asked s (.whole ends asked₁ mid))
    (ihHead : Followed ppool mem (.value avSize) asked s (.whole ends asked₁ mid))
    (ihTail : Followed ppool mem (.values count) asked₁ mid o) :
    Followed ppool mem (.values (count+1)) asked s o := by
  intro within depth enough
  obtain ⟨v, n, read, _⟩ := valueRead (ihHead within depth enough)
  have left := readsSuffix head ends asked₁ mid rfl
  have less := left.length_le
  rw [valuesRound read]
  exact ihTail (left.trans within) depth (by omega)

theorem followsElemsKeyFail (key : Zstr ppool room asked s (.fails why)) :
    Followed ppool mem (.elems (count+1) room) asked s (.fails why) := by
  intro within depth enough
  rw [unpackElems, zstrStops within key]
  rfl

theorem followsElemsFail (key : Zstr ppool room asked s (.whole false asked₁ mid))
    (ih : Followed ppool mem (.value (room - akSize)) asked₁ mid (.fails why)) :
    Followed ppool mem (.elems (count+1) room) asked s (.fails why) := by
  intro within depth enough
  obtain ⟨content, k, first, read⟩ := keyThenFails within key ih enough
  rw [unpackElems, first, Fallible.okBind]
  dsimp only
  rw [read]
  rfl

theorem followsElemsStop (key : Zstr ppool room asked s (.whole false asked₁ mid))
    (ih : Followed ppool mem (.value (room - akSize)) asked₁ mid (.whole true asked₂ rest)) :
    Followed ppool mem (.elems (count+1) room) asked s (.whole false asked₂ rest) := by
  intro within depth enough
  obtain ⟨content, k, v, n, first, read, ends⟩ := keyThenValue within key ih enough
  exact elemsEnd first read ends _

theorem followsElemsMore (key : Zstr ppool room asked s (.whole false asked₁ mid))
    (head : Reads ppool (.value (room - akSize)) asked₁ mid (.whole false asked₂ next))
    (ihHead : Followed ppool mem (.value (room - akSize)) asked₁ mid (.whole false asked₂ next))
    (ihTail : Followed ppool mem (.elems count (room - tableElemSize)) asked₂ next o) :
    Followed ppool mem (.elems (count+1) room) asked s o := by
  intro within depth enough
  obtain ⟨content, k, v, n, first, read, stays⟩ := keyThenValue within key ihHead enough
  have fewer := zstrLength key
  have left := readsSuffix head false asked₂ next rfl
  have less := left.length_le
  rw [elemsRound first read stays]
  exact ihTail (left.trans ((zstrSuffix key).trans within)) depth (by omega)

theorem followsHashKeyFail (key : Zstr ppool akSize asked s (.fails why)) :
    Followed ppool mem (.hash held) asked s (.fails why) := by
  intro within depth enough fuel rounds buffer rsum keeps
  obtain ⟨fuel, rfl⟩ := deeper rounds
  rw [unpackHashLoop, zstrStops within key]
  rfl

theorem followsHashFail (key : Zstr ppool akSize asked s (.whole false asked₁ mid))
    (ih : Followed ppool mem (.value avSize) asked₁ mid (.fails why)) :
    Followed ppool mem (.hash held) asked s (.fails why) := by
  intro within depth enough fuel rounds buffer rsum keeps
  obtain ⟨fuel, rfl⟩ := deeper rounds
  obtain ⟨content, k, first, read⟩ := keyThenFails within key ih enough
  rw [unpackHashLoop, first, Fallible.okBind]
  dsimp only
  rw [read]
  rfl

theorem followsHashStop (key : Zstr ppool akSize asked s (.whole false asked₁ mid))
    (ih : Followed ppool mem (.value avSize) asked₁ mid (.whole true asked₂ rest)) :
    Followed ppool mem (.hash held) asked s (.whole false asked₂ rest) := by
  intro within depth enough fuel rounds buffer rsum keeps
  obtain ⟨fuel, rfl⟩ := deeper rounds
  obtain ⟨content, k, v, n, first, read, ends⟩ := keyThenValue within key ih enough
  exact hashEnd first read ends fuel buffer rsum

theorem followsHashMore (key : Zstr ppool akSize asked s (.whole false asked₁ mid))
    (head : Reads ppool (.value avSize) asked₁ mid (.whole false asked₂ next))
    (ihHead : Followed ppool mem (.value avSize) asked₁ mid (.whole false asked₂ next))
    (ihTail : Followed ppool mem (.hash (held.next ppool asked₂ tableElemSize))
      (held.nextAsked asked₂ tableElemSize) next o) :
    Followed ppool mem (.hash held) asked s
      (o.gathered (held.need tableElemSize) (held.next ppool asked₂ tableElemSize).block) := by
  intro within depth enough fuel rounds buffer rsum keeps
  obtain ⟨fuel, rfl⟩ := deeper rounds
  obtain ⟨content, k, v, n, first, read, stays⟩ := keyThenValue within key ihHead enough
  have fewer := zstrLength key
  have left := readsSuffix head false asked₂ next rfl
  have less := left.length_le
  rw [hashRound first read stays]
  exact followsWrite keeps (by decide) _ fun buffer' keeps' =>
    ihTail (left.trans ((zstrSuffix key).trans within)) depth (by omega) fuel (by omega) buffer' _ keeps'

theorem followsArgumentsDone : Followed ppool mem (.arguments held) asked [] (.whole false asked []) := by
  intro within fuel rounds buffer keeps
  obtain ⟨fuel, rfl⟩ := deeper rounds
  rw [readArgumentsLoop, if_pos ((endCursor within).mpr rfl)]
  rfl

theorem followsArgumentsFail (some : s ≠ []) (ih : Followed ppool mem (.value avSize) asked s (.fails why)) :
    Followed ppool mem (.arguments held) asked s (.fails why) := by
  intro within fuel rounds buffer keeps
  obtain ⟨fuel, rfl⟩ := deeper rounds
  have read := resultFails (unpackDeep within (ih within))
  rw [readArgumentsLoop, if_neg (mt (endCursor within).mp some), read]
  rfl

theorem followsArgumentsMore (some : s ≠ [])
    (head : Reads ppool (.value avSize) asked s (.whole ends asked₁ next))
    (ihHead : Followed ppool mem (.value avSize) asked s (.whole ends asked₁ next))
    (ihTail : Followed ppool mem (.arguments (held.next ppool asked₁ avSize)) (held.nextAsked asked₁ avSize) next o) :
    Followed ppool mem (.arguments held) asked s
      (o.gathered (held.need avSize) (held.next ppool asked₁ avSize).block) := by
  intro within fuel rounds buffer keeps
  obtain ⟨fuel, rfl⟩ := deeper rounds
  obtain ⟨⟨v, n, ap⟩, read, same⟩ := resultWhole (unpackDeep within (ihHead within))
  obtain ⟨_, rfl⟩ := Prod.mk.inj same
  have less := valueShrinks head some
  rw [readArgumentsLoop, if_neg (mt (endCursor within).mp some), read, Fallible.okBind]
  exact followsWrite keeps (by decide) v fun buffer' keeps' =>
    ihTail ((readsSuffix head ends asked₁ next rfl).trans within) fuel (by omega) buffer' keeps'

theorem followsListFail (ih : Followed ppool mem (.value avSize) asked s (.fails why)) :
    Followed ppool mem (.list held) asked s (.fails why) := by
  intro within fuel rounds buffer keeps
  obtain ⟨fuel, rfl⟩ := deeper rounds
  have read := resultFails (unpackDeep within (ih within))
  rw [readArrayLoop, read]
  rfl

theorem followsListStop (ih : Followed ppool mem (.value avSize) asked s (.whole true asked₁ rest)) :
    Followed ppool mem (.list held) asked s (.whole false asked₁ rest) := by
  intro within fuel rounds buffer keeps
  obtain ⟨fuel, rfl⟩ := deeper rounds
  obtain ⟨⟨v, n, ap⟩, read, same⟩ := resultWhole (unpackDeep within (ih within))
  obtain ⟨ends, rfl⟩ := Prod.mk.inj same
  rw [readArrayLoop, read, Fallible.okBind]
  dsimp only
  rw [if_pos (of_decide_eq_true ends)]
  rfl

theorem followsListMore (head : Reads ppool (.value avSize) asked s (.whole false asked₁ next))
    (ihHead : Followed ppool mem (.value avSize) asked s (.whole false asked₁ next))
    (ihTail : Followed ppool mem (.list (held.next ppool asked₁ avSize)) (held.nextAsked asked₁ avSize) next o) :
    Followed ppool mem (.list held) asked s
      (o.gathered (held.need avSize) (held.next ppool asked₁ avSize).block) := by
  intro within fuel rounds buffer keeps
  obtain ⟨fuel, rfl⟩ := deeper rounds
  obtain ⟨⟨v, n, ap⟩, read, same⟩ := resultWhole (unpackDeep within (ihHead within))
  obtain ⟨stays, rfl⟩ := Prod.mk.inj same
  have less := valueShrinks head (wholeFalseSome head)
  rw [readArrayLoop, read, Fallible.okBind]
  dsimp only
  rw [if_neg (of_decide_eq_false stays)]
  exact followsWrite keeps (by decide) v fun buffer' keeps' =>
    ihTail ((readsSuffix head false asked₁ next rfl).trans within) fuel (by omega) buffer' keeps'

end Steps

theorem decoderFollows (ppool : Serving) (mem : Bytes) {part : Part} {asked : List Nat} {s : Bytes}
    {o : Outcome} (reads : Reads ppool part asked s o) : Followed ppool mem part asked s o := by
  induction reads with
  | atEnd room asked =>
    intro within depth enough
    obtain ⟨depth, rfl⟩ := deeper enough
    exact stepEnd _
  | plain room asked t s plain =>
    intro within
    refine followsTag within fun depth enough => ?_
    rw [payloadPlain _ _ _ ⟨t, plain⟩]
    rfl
  | fixed room asked payload s form length =>
    intro within
    exact followsTag within fun depth enough =>
      payloadFixed _ form length (suffixTail (s := [_]) within)
  | fixedCut room asked s form short =>
    intro within
    exact followsTag within fun depth enough =>
      givesCut (payloadFixedCut _ form (suffixTail (s := [_]) within) short)
  | @string room asked s o content =>
    intro within
    refine followsTag within fun depth enough => ?_
    have read := followsZstr (suffixTail (s := [_]) within) content
    rw [payloadString, ← read]
    cases unpackZstr (room - unionOffset) (cursor ppool mem asked s) <;> rfl
  | countCut room asked t s counted short =>
    intro within
    exact followsTag within fun depth enough =>
      givesCut (payloadCountCut _ counted (suffixTail (s := [_]) within) short)
  | assocArray four elements ih =>
    intro within
    refine followsTag within fun depth enough => ?_
    have inner := suffixTail (s := [_]) within
    rw [List.length_append] at enough
    have loop := resultInner (ih (suffixTail inner) depth (by omega))
    rw [payloadElems _ four inner, resultAfter, loop]
  | array four elements ih =>
    intro within
    refine followsTag within fun depth enough => ?_
    have inner := suffixTail (s := [_]) within
    rw [List.length_append] at enough
    have loop := resultInner (ih (suffixTail inner) depth (by omega))
    rw [payloadValues _ four inner, resultAfter, resultAfter, loop]
  | @hashed room asked s o elements ih =>
    intro within
    refine followsTag within fun depth enough => ?_
    have inner : s <:+ mem := suffixTail (s := [_]) within
    have bound := inner.length_le
    have loop := resultInner (ih inner depth enough (mem.length + 1) (by omega) ⟨rtmpWbInit 512, ppool asked 512⟩ 0
      (keepsInit (j := 9) (by decide) (by decide) (by decide)))
    rw [payloadGathered, loop, resultStored]
  | valuesDone asked s =>
    intro within depth enough
    rfl
  | valuesFail head ih => exact followsValuesFail ih
  | valuesMore head tail ihHead ihTail => exact followsValuesMore head ihHead ihTail
  | elemsDone room asked s =>
    intro within depth enough
    rfl
  | elemsKeyFail key => exact followsElemsKeyFail key
  | elemsFail key head ih => exact followsElemsFail key ih
  | elemsStop key stop ih => exact followsElemsStop key ih
  | elemsMore key head tail ihHead ihTail => exact followsElemsMore key head ihHead ihTail
  | hashKeyFail key => exact followsHashKeyFail key
  | hashFail key head ih => exact followsHashFail key ih
  | hashStop key stop ih => exact followsHashStop key ih
  | hashMore key head tail ihHead ihTail => exact followsHashMore key head ihHead ihTail
  | argumentsDone held asked => exact followsArgumentsDone
  | argumentsFail some head ih => exact followsArgumentsFail some ih
  | argumentsMore some head tail ihHead ihTail => exact followsArgumentsMore some head ihHead ihTail
  | listFail head ih => exact followsListFail ih
  | listStop stop ih => exact followsListStop ih
  | listMore head tail ihHead ihTail => exact followsListMore head ihHead ihTail

end Following

inductive ApCall where
  | amfUnpack
  | amfApReadNext
  | amfApReadArguments
  | amfApReadArray
  deriving DecidableEq, Repr

-- `amf_unpack` is called with a whole `AV`.
def apCall : ApCall → AP → Res AP
  | .amfUnpack, ap => do
    let (_, _, ap) ← amfUnpack avSize ap
    .ok ap
  | .amfApReadNext, ap => do
    let (_, ap) ← amfApReadNext ap
    .ok ap
  | .amfApReadArguments, ap => do
    let (_, ap) ← amfApReadArguments ap
    .ok ap
  | .amfApReadArray, ap => do
    let (_, ap) ← amfApReadArray ap
    .ok ap

def apCalls : List ApCall → AP → Res AP
  | [], ap => .ok ap
  | call :: calls, ap => do
    let ap ← apCall call ap
    apCalls calls ap

section CallGrammar
variable (ppool : Serving)

-- What a call comes to; the readers ask for a value or a write buffer of their own first.
inductive CallReads (asked : List Nat) (s : Bytes) : ApCall → Outcome → Prop where
  | amfUnpack {o : Outcome} (value : Reads ppool (.value avSize) asked s o) : CallReads asked s .amfUnpack o
  | amfApReadNext {o : Outcome} (value : Reads ppool (.value avSize) (avSize :: asked) s o) :
      CallReads asked s .amfApReadNext (o.after avSize (ppool asked avSize))
  | amfApReadArguments {o : Outcome} (values : Reads ppool (.arguments (.init ppool asked 512)) (512 :: asked) s o) :
      CallReads asked s .amfApReadArguments o
  | amfApReadArray {o : Outcome} (values : Reads ppool (.list (.init ppool asked 256)) (256 :: asked) s o) :
      CallReads asked s .amfApReadArray o

-- One of the calls, coming after calls that were served, does not get through.
inductive CallsFail (why : Failure) : List ApCall → List Nat → Bytes → Prop where
  | here {call : ApCall} {asked : List Nat} {s : Bytes} (calls : List ApCall)
      (fails : CallReads ppool asked s call (.fails why)) : CallsFail why (call :: calls) asked s
  | later {call : ApCall} {calls : List ApCall} {asked asked' : List Nat} {s rest : Bytes} {ends : Bool}
      (served : CallReads ppool asked s call (.whole ends asked' rest)) (fails : CallsFail why calls asked' rest) :
      CallsFail why (call :: calls) asked s

end CallGrammar

section Calls
variable {ppool : Serving} {mem : Bytes}

theorem callReadsTotal (ppool : Serving) (call : ApCall) (asked : List Nat) (s : Bytes) :
    ∃ o, CallReads ppool asked s call o := by
  cases call with
  | amfUnpack =>
    obtain ⟨o, reads⟩ := readsTotal ppool s (.value avSize) asked
    exact ⟨o, .amfUnpack reads⟩
  | amfApReadNext =>
    obtain ⟨o, reads⟩ := readsTotal ppool s (.value avSize) (avSize :: asked)
    exact ⟨_, .amfApReadNext reads⟩
  | amfApReadArguments =>
    obtain ⟨o, reads⟩ := readsTotal ppool s (.arguments (.init ppool asked 512)) (512 :: asked)
    exact ⟨o, .amfApReadArguments reads⟩
  | amfApReadArray =>
    obtain ⟨o, reads⟩ := readsTotal ppool s (.list (.init ppool asked 256)) (256 :: asked)
    exact ⟨o, .amfApReadArray reads⟩

theorem callSuffix {asked asked' : List Nat} {s rest : Bytes} {call : ApCall} {ends : Bool}
    (served : CallReads ppool asked s call (.whole ends asked' rest)) : rest <:+ s := by
  generalize same : Outcome.whole ends asked' rest = o at served
  cases served with
  | amfUnpack value => exact readsSuffix value _ _ _ same.symm
  | amfApReadNext value => exact readsSuffix value _ _ _ (afterWhole same.symm).2
  | amfApReadArguments values => exact readsSuffix values _ _ _ same.symm
  | amfApReadArray values => exact readsSuffix values _ _ _ same.symm

theorem callGives {asked : List Nat} {s : Bytes} (within : s <:+ mem) {call : ApCall} {o : Outcome}
    (reads : CallReads ppool asked s call o) :
    apCall call (cursor ppool mem asked s) = (o.result ppool mem).map Prod.snd := by
  have bound := within.length_le
  cases reads with
  | amfUnpack value =>
    rw [← unpackDeep within (decoderFollows ppool mem value within), apCall]
    cases amfUnpack avSize (cursor ppool mem asked s) <;> rfl
  | amfApReadNext value =>
    rw [resultAfter, ← unpackDeep within (decoderFollows ppool mem value within), apCall, amfApReadNext,
      cursorRequest, Fallible.bindMap]
    show (store (ppool asked avSize) avSize >>= _) >>= _ = _
    rw [bind_assoc]
    refine congrArg _ (funext fun _ => ?_)
    show (amfUnpack avSize (cursor ppool mem (avSize :: asked) s) >>= _) >>= _ = _
    cases amfUnpack avSize (cursor ppool mem (avSize :: asked) s) <;> rfl
  | amfApReadArguments values =>
    rw [← decoderFollows ppool mem values within (mem.length + 2) (by omega) ⟨rtmpWbInit 512, ppool asked 512⟩
      (keepsInit (j := 9) (by decide) (by decide) (by decide)), apCall, amfApReadArguments]
    show (readArgumentsLoop (mem.length + 2) ⟨rtmpWbInit 512, ppool asked 512⟩ (cursor ppool mem (512 :: asked) s) >>=
      _) >>= _ = _
    cases readArgumentsLoop (mem.length + 2) ⟨rtmpWbInit 512, ppool asked 512⟩
      (cursor ppool mem (512 :: asked) s) <;> rfl
  | amfApReadArray values =>
    rw [← decoderFollows ppool mem values within (mem.length + 2) (by omega) ⟨rtmpWbInit 256, ppool asked 256⟩
      (keepsInit (j := 8) (by decide) (by decide) (by decide)), apCall, amfApReadArray]
    show (readArrayLoop (mem.length + 2) ⟨rtmpWbInit 256, ppool asked 256⟩ (cursor ppool mem (256 :: asked) s) >>=
      _) >>= _ = _
    cases readArrayLoop (mem.length + 2) ⟨rtmpWbInit 256, ppool asked 256⟩
      (cursor ppool mem (256 :: asked) s) <;> rfl

theorem faultInjective {why why' : Failure} (same : why.fault = why'.fault) : why = why' := by
  cases why <;> cases why' <;> first | rfl | contradiction

theorem callsFault (why : Failure) (calls : List ApCall) {asked : List Nat} {s : Bytes} (within : s <:+ mem) :
    apCalls calls (cursor ppool mem asked s) = .error why.fault ↔ CallsFail ppool why calls asked s := by
  induction calls generalizing asked s with
  | nil =>
    constructor
    · intro reads
      contradiction
    · intro fails
      cases fails
  | cons call calls ih =>
    constructor
    · intro stops
      rw [apCalls] at stops
      obtain ⟨o, reads⟩ := callReadsTotal ppool call asked s
      rw [callGives within reads] at stops
      cases o with
      | whole ends asked' rest => exact .later reads ((ih ((callSuffix reads).trans within)).mp stops)
      | fails why' =>
        cases faultInjective (Except.error.inj stops)
        exact .here calls reads
    · intro fails
      rw [apCalls]
      cases fails with
      | here _ reads =>
        rw [callGives within reads]
        rfl
      | later served fails =>
        rw [callGives within served]
        exact (ih ((callSuffix served).trans within)).mpr fails

end Calls

-- Nothing was read outside the data and nothing stored outside a block.
def Inside {α : Type} (r : Res α) : Prop := r ≠ .error .overRead ∧ r ≠ .error .overWrite

theorem decoderInside (ppool : Serving) (data : Bytes) (calls : List ApCall) :
    (Inside (apCalls calls (amfApAlloc ppool data data.length)) ↔
      ¬ CallsFail ppool .cut calls [] data ∧ ¬ CallsFail ppool .spill calls [] data) ∧
    (CallsFail ppool .cut calls [] data →
      apCalls calls (amfApAlloc ppool data data.length) = .error .overRead) := by
  have same (why : Failure) : apCalls calls (cursor ppool data [] data) = .error why.fault ↔ _ :=
    callsFault why calls (List.suffix_refl data)
  rw [cursorStart]
  exact ⟨and_congr (not_congr (same .cut)) (not_congr (same .spill)), (same .cut).mpr⟩

theorem bareNumberOverRead :
    apCalls [.amfUnpack] (amfApAlloc rtPool [0] 1) = .error .overRead := rfl

end Rushkit.Amf
