import Rushkit.AmfRoundTrip
import Rushkit.Dispatch

/-! A call and its result through the default invoke handler. The arguments are
collected in a write buffer, which bounds their number. -/
namespace Rushkit
open Amf

namespace Amf

section Arguments
variable {alloc : Alloc}

theorem readArgumentsLoopPacked (values : List AV) (encodable : ValuesEncodable values)
    (blocks : valuesBlocksFit alloc values = true) (int : (packValues values).length < 2147483648) (fuel : Nat)
    (enough : values.length < fuel) (buffer : PoolBuffer AV) {stored : Nat} (roomy : Roomy buffer stored avSize)
    (ap : AP) (ready : Ready alloc ap) (h : ap.ahead = packValues values) :
    Stores alloc (valuesFit values && decide ((stored + values.length) * avSize ≤ 1073741824))
      (fun asked => (buffer.buffer.content ++ values, ap.went (packValues values).length asked))
      ((readArgumentsLoop fuel buffer ap).map fun r => (r.1.buffer.content, r.2)) := by
  induction values generalizing fuel buffer stored ap with
  | nil =>
    cases fuel with
    | zero => contradiction
    | succ fuel =>
      rw [readArgumentsLoop, if_pos ((endAhead ready.whole).mpr h), List.append_nil, List.length_nil,
        Nat.add_zero, decide_eq_true (roomyBound roomy)]
      exact storesOk ready.served rfl
  | cons v vs ih =>
    cases fuel with
    | zero => contradiction
    | succ fuel =>
      obtain ⟨mine, others⟩ := Bool.and_eq_true_iff.mp blocks
      rw [packValues, List.length_append] at int
      rw [packValues] at h
      have more : ¬ amfApIsEnd ap = true := by
        rw [endAhead ready.whole, h]
        have some := packSizePositive v
        rw [← packLength] at some
        exact List.append_ne_nil_of_left_ne_nil (List.ne_nil_of_length_pos some) _
      have head := amfUnpackPacked encodable.1 mine (by omega) avSize ap _ (Nat.le_refl _) ready h
      rw [readArgumentsLoop, if_neg more, Fallible.bindMap, valuesFit, Bool.and_assoc]
      refine storesBind head fun asked served => ?_
      have ready := readyWent ready served (amfPack v).length
      dsimp only
      rw [Fallible.bindMap, List.length_cons]
      refine storesOne ready roomy v (by decide) fun buffer' asked content roomy' served => ?_
      have tail := ih encodable.2 others (by omega) fuel (Nat.lt_of_succ_lt_succ enough) buffer' roomy'
        _ (readyWent ready served 0) (AP.aheadPast h asked)
      rw [content] at tail
      simp only [packValues, List.append_assoc, List.singleton_append, List.length_append, AP.wentWent,
        Nat.add_zero] at tail ⊢
      exact tail

theorem readArgumentsPacked {values : List AV} (encodable : ValuesEncodable values)
    (blocks : valuesBlocksFit alloc values = true) (int : (packValues values).length < 2147483648) {ap : AP}
    (ready : Ready alloc ap) (h : ap.ahead = packValues values) :
    Stores alloc (valuesFit values && decide (values.length * avSize ≤ 1073741824))
      (fun asked => (values, ap.went (packValues values).length asked)) (amfApReadArguments ap) := by
  have count := valuesCount values
  have sizes := congrArg List.length h
  have wide : avSize ≤ 512 := by decide
  rw [packValuesLength, AP.ahead, List.length_drop] at sizes
  obtain ⟨block, init, roomy, served⟩ := roomyInit (α := AV) ready (j := 9) (by decide) (by decide) wide
  have loop := readArgumentsLoopPacked values encodable blocks int (ap.mem.length + 2) (by omega)
    ⟨rtmpWbInit 512, block⟩ roomy (ap.went 0 (512 :: ap.asked)) (readyWent ready served 0)
    (AP.aheadPast (s := []) h _)
  have start : amfApReadArguments ap = (readArgumentsLoop (ap.mem.length + 2) ⟨rtmpWbInit 512, block⟩
      (ap.went 0 (512 :: ap.asked))).map fun r => (r.1.buffer.content, r.2) := by
    rw [amfApReadArguments, init]
    dsimp only
    rw [AP.wentMem]
    cases readArgumentsLoop (ap.mem.length + 2) ⟨rtmpWbInit 512, block⟩ (ap.went 0 (512 :: ap.asked)) <;> rfl
  rw [start]
  simp only [AP.wentWent, Nat.zero_add] at loop
  exact loop

-- What a loop has collected: values as the decoder builds them, in a buffer with room for them.
structure Gathered (alloc : Alloc) (buffer : PoolBuffer AV) : Prop where
  held : Stored buffer.buffer buffer.buffer.content.length avSize
  built : ∀ v ∈ buffer.buffer.content, Built alloc v

theorem gatheredNone {capacity j block : Nat} (small : j ≤ 30) (power : (capacity : Int) = 2 ^ j) :
    Gathered alloc ⟨rtmpWbInit capacity, block⟩ :=
  ⟨storedInit small power avSize, fun _ none => absurd none List.not_mem_nil⟩

theorem gatheredRoom {buffer : PoolBuffer AV} (gathered : Gathered alloc buffer) :
    buffer.buffer.content.length * avSize ≤ 1073741824 := by
  have bound := powerCapacityBound gathered.held.power
  rw [gathered.held.length] at bound
  exact bound

theorem gatheredMore {buffer grown : PoolBuffer AV} {ap next after : AP} {v : AV} {n : Int}
    (steady : ServesAs ap.ppool alloc) (gathered : Gathered alloc buffer)
    (head : amfUnpack avSize ap = .ok (v, n, next)) (write : rtmpWbWriteIn buffer v avSize next = .ok (grown, after)) :
    ServesAs after.ppool alloc ∧ Gathered alloc grown := by
  have built := amfUnpackBuilds steady head
  obtain ⟨k, mid, _, _, rfl⟩ := amfUnpackMoves _ _ _ _ _ head
  obtain ⟨written, asked, rfl⟩ := writeRead write
  obtain ⟨power, content, length⟩ := wbWritePower gathered.held.power written
  refine ⟨steady, ⟨power, ?_⟩, ?_⟩
  · rw [length, gathered.held.length, content, List.length_append, List.length_singleton, Nat.succ_mul]
  · rw [content]
    exact List.forall_mem_append.mpr ⟨gathered.built, List.forall_mem_singleton.mpr built⟩

theorem readArgumentsLoopBuilds (fuel : Nat) (buffer : PoolBuffer AV) {ap ap' : AP} (steady : ServesAs ap.ppool alloc)
    (gathered : Gathered alloc buffer) {buffer' : PoolBuffer AV}
    (h : readArgumentsLoop fuel buffer ap = .ok (buffer', ap')) : Gathered alloc buffer' := by
  induction fuel generalizing buffer ap with
  | zero => contradiction
  | succ fuel ih =>
    rw [readArgumentsLoop] at h
    split at h
    · cases h
      exact gathered
    · obtain ⟨⟨v, n, next⟩, head, h⟩ := Fallible.bindOk.mp h
      obtain ⟨⟨grown, after⟩, write, tail⟩ := Fallible.bindOk.mp h
      obtain ⟨steady, gathered⟩ := gatheredMore steady gathered head write
      exact ih grown steady gathered tail

theorem readArgumentsBuilds {ap ap' : AP} {values : List AV} (steady : ServesAs ap.ppool alloc)
    (h : amfApReadArguments ap = .ok (values, ap')) :
    values.length * avSize ≤ 1073741824 ∧ valuesFit values = true ∧ valuesBlocksFit alloc values = true := by
  obtain ⟨⟨buffer, last⟩, loop, result⟩ := Fallible.bindOk.mp h
  cases result
  have steady : ServesAs (ap.went 0 (512 :: ap.asked)).ppool alloc := steady
  have gathered := readArgumentsLoopBuilds _ _ steady (gatheredNone (j := 9) (by decide) (by decide)) loop
  obtain ⟨_, hashes, blocks⟩ := valuesBuilt gathered.built
  exact ⟨gatheredRoom gathered, hashes, blocks⟩

theorem readNextPacked {v : AV} {ap : AP} {rest : Bytes} (encodable : Encodable v)
    (fit : hashesFit v = true) (block : blocksFit alloc v = true)
    (int : (amfPack v).length < 2147483648) (ready : Ready alloc ap)
    (h : ap.ahead = amfPack v ++ rest) :
    ∃ asked, amfApReadNext ap = .ok (v, ap.went (amfPack v).length asked) ∧
      Ready alloc (ap.went (amfPack v).length asked) := by
  have one : avSize ≤ alloc avSize := ready.steady.small (by decide)
  obtain ⟨asks, covered, served⟩ := readyRequest ready one
  have unpacks := amfUnpackPacked encodable block int avSize (ap.went 0 (avSize :: ap.asked)) rest (Nat.le_refl _)
    (readyWent ready served 0) (AP.aheadPast (s := []) h _)
  rw [fit] at unpacks
  obtain ⟨asked, served, read⟩ := storesGood unpacks
  refine ⟨asked, ?_, readyWent ready served _⟩
  rw [amfApReadNext, asks]
  dsimp only
  rw [storeRoom covered, Fallible.okBind, read, AP.wentWent, Nat.zero_add]
  rfl

end Arguments

end Amf

def callValues (methodName : Bytes) (requestId : Int) (arguments : List AV) : List AV :=
  .string methodName :: .number (Binary64.ofInt requestId) :: .nil :: arguments

def afterCall (proto : RtmpProto) (methodName : Bytes) (requestId : Int) : RtmpProto :=
  if methodName = cString "_result" then proto
  else { proto with nextRequestId := max proto.nextRequestId (requestId + 1) }

theorem raiseRequestIdMax (proto : RtmpProto) {requestId : Int} (exact : requestId.natAbs ≤ 2 ^ 53) :
    raiseRequestId proto requestId =
      { proto with nextRequestId := max proto.nextRequestId (requestId + 1) } := by
  have same : int64 (requestId + 1) = requestId + 1 := int64Same (by omega) (by omega)
  unfold raiseRequestId
  rw [same]
  split
  · rename_i lower
    rw [max_eq_right (by omega)]
  · rename_i higher
    rw [max_eq_left (by omega)]

theorem handleCall {methodName : Bytes} (small : methodName.length ≤ 32767)
    (other : methodName ≠ cString "connect") {requestId : Int} (exact : requestId.natAbs ≤ 2 ^ 53)
    {arguments : List AV} (int : (packValues (callValues methodName requestId arguments)).length < 2147483648) :
    ∃ pap, Ready rtPoolAlloc pap ∧ pap.ahead = packValues arguments ∧
      ∀ table now proto channelId channel,
        defaultOnPacketInvoke table now proto
            ⟨channelId, channel, packValues (callValues methodName requestId arguments)⟩ =
          amfApReadArguments pap >>= fun args =>
            callBack table (afterCall proto methodName requestId) channelId requestId (.string methodName) args.1 := by
  have split : packValues (callValues methodName requestId arguments) =
      amfPack (.string methodName) ++ (amfPack (.number (Binary64.ofInt requestId)) ++
        (amfPack .nil ++ packValues arguments)) := rfl
  have sizes := congrArg List.length split
  simp only [List.length_append] at sizes
  generalize packValues (callValues methodName requestId arguments) = payload at *
  have start : (amfApAlloc rtPool payload payload.length).ahead = amfPack (.string methodName) ++
      (amfPack (.number (Binary64.ofInt requestId)) ++ (amfPack .nil ++ packValues arguments)) := split
  obtain ⟨asked, named, afterName⟩ := readNextPacked (v := .string methodName) small rfl rfl (by omega)
    (readyStart rtPoolSteady payload) start
  have ahead := AP.aheadPast start asked
  obtain ⟨asked, numbered, afterNumber⟩ := readNextPacked (v := .number (Binary64.ofInt requestId)) trivial rfl rfl
    (by omega) afterName ahead
  have ahead := AP.aheadPast ahead asked
  obtain ⟨asked, empty, afterNil⟩ := readNextPacked (v := .nil) trivial rfl rfl (by omega) afterNumber ahead
  have typed : (AV.string methodName).type = amfString := rfl
  have isString : check .defaultOnPacketInvoke ((AV.string methodName).type = amfString) = .ok () :=
    checkTrue typed
  have isNumber : check .defaultOnPacketInvoke
      ((AV.number (Binary64.ofInt requestId)).type = amfNumber) = .ok () := checkTrue rfl
  have compare (name : Bytes) : amfStringEqual (.string methodName) name = .ok (decide (methodName = name)) := by
    rw [amfStringEqual, checkTrue typed, Fallible.okBind]
    rfl
  have number : Binary64.toInt64 (AV.numberT (.number (Binary64.ofInt requestId))) = requestId :=
    Binary64.toInt64Exact exact
  refine ⟨_, afterNil, AP.aheadPast ahead asked, fun table now proto channelId channel => ?_⟩
  simp only [defaultOnPacketInvoke, named, numbered, empty, isString, isNumber, compare, number,
    Fallible.okBind, decide_eq_false other, raiseRequestIdMax proto exact, Bool.false_eq_true, if_false,
    decide_eq_true_eq]
  generalize amfApReadArguments _ = read
  cases read <;> rfl

-- The payload makes the handler do nothing but this one call of `on_amf_call`.
def Delivers (payload methodName : Bytes) (requestId : Int) (arguments : List AV) : Prop :=
  ∀ (table : MethodTable) (now : Int) (proto : RtmpProto) (channelId : Int) (channel : Channel)
    (onAmfCall : RtmpProto → Int → Int → AV → Int → List AV → Res RtmpProto),
    defaultOnPacketInvoke { table with onAmfCall := some onAmfCall } now proto
        ⟨channelId, channel, payload⟩ =
      onAmfCall (afterCall proto methodName requestId) channelId requestId (.string methodName)
        arguments.length arguments

theorem callDelivers {methodName : Bytes} (small : methodName.length ≤ 32767)
    (other : methodName ≠ cString "connect") {requestId : Int} (exact : requestId.natAbs ≤ 2 ^ 53)
    {arguments : List AV} (encodable : ValuesEncodable arguments)
    (int : (packValues (callValues methodName requestId arguments)).length < 2147483648) :
    Delivers (packValues (callValues methodName requestId arguments)) methodName requestId arguments ↔
      arguments.length ≤ 44739242 ∧ valuesFit arguments ∧ valuesBlocksFit rtPoolAlloc arguments := by
  obtain ⟨pap, ready, ahead, handled⟩ := handleCall small other exact int
  have room : arguments.length * avSize ≤ 1073741824 ↔ arguments.length ≤ 44739242 := by
    unfold avSize
    omega
  constructor
  · intro delivers
    classical
    -- This callback takes no other arguments.
    have handling := delivers bareTable 0 rtmpProtoInit 0 initChannel
      (fun proto _ _ _ _ args => if args = arguments then .ok proto else .error .hang)
    rw [handled, if_pos rfl] at handling
    obtain ⟨⟨args, after⟩, collected, called⟩ := Fallible.bindOk.mp handling
    have same : args = arguments := by
      by_contra differs
      simp only [callBack, if_neg differs] at called
      contradiction
    rw [same] at collected
    obtain ⟨fits, hashes, blocks⟩ := readArgumentsBuilds ready.steady collected
    exact ⟨room.mp fits, hashes, blocks⟩
  · rintro ⟨fits, hashes, blocks⟩ table now proto channelId channel onAmfCall
    have sizes : (packValues arguments).length < 2147483648 := by
      simp only [callValues, packValues, List.length_append] at int
      omega
    have stores := readArgumentsPacked encodable blocks sizes ready ahead
    rw [hashes, decide_eq_true (room.mpr fits)] at stores
    obtain ⟨asked, _, collected⟩ := storesGood stores
    have count : int32 arguments.length = arguments.length := int32Same (by omega) (by omega)
    rw [handled, collected, Fallible.okBind, callBack]
    dsimp only
    rw [count]

theorem packedServes {payload payload' : Bytes} :
    packed rtPoolAlloc payload = .ok payload' ↔ payload.length < 2147481600 ∧ payload = payload' := by
  have serves : rtPoolAlloc payload.length < payload.length ↔ ¬ payload.length < 2147481600 := by
    rw [← rtPoolAllocServes, Nat.not_le]
  unfold packed
  split
  · rename_i beyond
    exact iff_of_false (fun h => by contradiction) (fun h => serves.mp beyond h.1)
  · rename_i block
    rw [Except.ok.injEq]
    exact ⟨fun same => ⟨by_contra (mt serves.mpr block), same⟩, And.right⟩

theorem invokeRoundTrip {methodName : Bytes} (small : methodName.length ≤ 32767)
    (other : methodName ≠ cString "connect") {requestId : Int} (exact : requestId.natAbs ≤ 2 ^ 53)
    {arguments : List AV} (encodable : ValuesEncodable arguments)
    (int : (packValues (callValues methodName requestId arguments)).length < 2147483648)
    {r : AV} (encodable' : Encodable r)
    (int' : (packValues (returnArguments requestId r)).length < 2147483648) :
    ((∃ payload, amfPackCall rtPoolAlloc methodName (Binary64.ofInt requestId) arguments = .ok payload ∧
        Delivers payload methodName requestId arguments) ↔
      (packValues (callValues methodName requestId arguments)).length < 2147481600 ∧
      arguments.length ≤ 44739242 ∧ valuesFit arguments ∧ valuesBlocksFit rtPoolAlloc arguments) ∧
    ((∃ payload, amfPackArguments rtPoolAlloc (returnArguments requestId r) = .ok payload ∧
        Delivers payload (cString "_result") requestId [r]) ↔
      (packValues (returnArguments requestId r)).length < 2147481600 ∧
      hashesFit r ∧ blocksFit rtPoolAlloc r) := by
  have call := callDelivers small other exact encodable int
  have short : (cString "_result").length ≤ 32767 := by decide
  have one : ValuesEncodable [r] := ⟨encodable', trivial⟩
  have result := callDelivers short (by decide) exact one int'
  have single : [r].length ≤ 44739242 := by
    rw [List.length_singleton]
    decide
  simp only [valuesFit, valuesBlocksFit, Bool.and_true, single, true_and] at result
  have blocked := packCallBlock rtPoolAlloc methodName (Binary64.ofInt requestId) arguments int
  rw [blocked, packArgumentsBlock rtPoolAlloc (returnArguments requestId r) int', ← call, ← result]
  simp only [packedServes]
  constructor
  · constructor
    · rintro ⟨payload, ⟨block, rfl⟩, delivers⟩
      exact ⟨block, delivers⟩
    · rintro ⟨block, delivers⟩
      exact ⟨_, ⟨block, rfl⟩, delivers⟩
  · constructor
    · rintro ⟨payload, ⟨block, rfl⟩, delivers⟩
      exact ⟨block, delivers⟩
    · rintro ⟨block, delivers⟩
      exact ⟨_, ⟨block, rfl⟩, delivers⟩

theorem oneCall :
    (∃ payload, amfPackCall rtPoolAlloc [102] (Binary64.ofInt 1) [.boolean 1] = .ok payload ∧
      Delivers payload [102] 1 [.boolean 1]) ∧
    ∃ payload, amfPackArguments rtPoolAlloc (returnArguments 1 .nil) = .ok payload ∧
      Delivers payload (cString "_result") 1 [.nil] := by
  have one : ValuesEncodable [.boolean 1] := ⟨trivial, trivial⟩
  have none : Encodable .nil := trivial
  have short : ([102] : Bytes).length ≤ 32767 := by decide
  have exact : (1 : Int).natAbs ≤ 2 ^ 53 := by decide
  have both := invokeRoundTrip short (by decide) exact one (by decide) none (by decide)
  exact ⟨both.1.mpr ⟨by decide, by decide, rfl, rfl⟩, both.2.mpr ⟨by decide, rfl, rfl⟩⟩

def nilArguments (n : Nat) : List AV := List.replicate n .nil

theorem nilArgumentsPacked (n : Nat) : ValuesEncodable (nilArguments n) ∧
    valuesPackSize (nilArguments n) = n ∧ valuesBlocksFit rtPoolAlloc (nilArguments n) = true := by
  induction n with
  | zero => exact ⟨trivial, rfl, rfl⟩
  | succ n ih =>
    obtain ⟨encodable, size, blocks⟩ := ih
    unfold nilArguments at *
    rw [List.replicate_succ, ValuesEncodable, valuesPackSize, valuesBlocksFit, size, blocks]
    refine ⟨⟨trivial, encodable⟩, ?_, rfl⟩
    simp only [AV.nil, amfGetPackSize]
    omega

theorem nilCallSize (n : Nat) : (packValues (callValues [102] 1 (nilArguments n))).length = n + 14 := by
  rw [packValuesLength, callValues, valuesPackSize, valuesPackSize, valuesPackSize,
    (nilArgumentsPacked n).2.1]
  simp only [AV.nil, amfGetPackSize, List.length_singleton]
  omega

theorem nilCallHangs {n : Nat} (many : 44739242 < n) (int : n + 14 < 2147481600) : ∃ payload,
    amfPackCall rtPoolAlloc [102] (Binary64.ofInt 1) (nilArguments n) = .ok payload ∧
    payload.length < 2147483648 ∧
    (∀ table now proto channelId channel,
      defaultOnPacketInvoke table now proto ⟨channelId, channel, payload⟩ = .error .hang) ∧
    ¬ Delivers payload [102] 1 (nilArguments n) := by
  obtain ⟨encodable, size, blocks⟩ := nilArgumentsPacked n
  have count : (nilArguments n).length = n := List.length_replicate
  have short : ([102] : Bytes).length ≤ 32767 := by decide
  have exact : (1 : Int).natAbs ≤ 2 ^ 53 := by decide
  rw [← nilCallSize] at int
  have int' : (packValues (callValues [102] 1 (nilArguments n))).length < 2147483648 := by omega
  have call : amfPackCall rtPoolAlloc [102] (Binary64.ofInt 1) (nilArguments n) =
      .ok (packValues (callValues [102] 1 (nilArguments n))) :=
    (packCallBlock rtPoolAlloc _ _ _ int').trans (packedServes.mpr ⟨int, rfl⟩)
  refine ⟨_, call, int', ?_, ?_⟩
  · intro table now proto channelId channel
    obtain ⟨pap, ready, ahead, handled⟩ := handleCall short (by decide) exact int'
    rw [nilCallSize] at int
    have stores := readArgumentsPacked encodable blocks (by rw [packValuesLength, size]; omega) ready ahead
    have full : ¬ (nilArguments n).length * avSize ≤ 1073741824 := by
      unfold avSize
      omega
    rw [decide_eq_false full, Bool.and_false] at stores
    have stop : amfApReadArguments pap = .error .hang := stores
    rw [handled, stop, Fallible.errorBind]
  · intro delivers
    have fit := ((callDelivers short (by decide) exact encodable int').mp delivers).1
    omega

-- 44739243 arguments of 24 bytes pass 2^30, while the packing has about 45 million bytes.
theorem manyArgumentsHang : ∃ payload,
    amfPackCall rtPoolAlloc [102] (Binary64.ofInt 1) (nilArguments 44739243) = .ok payload ∧
    payload.length < 2147483648 ∧
    (∀ table now proto channelId channel,
      defaultOnPacketInvoke table now proto ⟨channelId, channel, payload⟩ = .error .hang) ∧
    ¬ Delivers payload [102] 1 (nilArguments 44739243) :=
  nilCallHangs (by decide) (by decide)

end Rushkit
