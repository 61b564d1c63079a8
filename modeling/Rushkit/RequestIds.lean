import Rushkit.Invoke
import Rushkit.OutgoingChannel
import Rushkit.SideEffects

/-! Calls (`rtmp_proto_call`) and the ids they get. The counter is shared with the numbers of
the peer, and an id travels as a `double`, which not every `long` fits into. -/
namespace Rushkit
open Amf ReadBuffer

-- What `rtmp_proto_call` does before it sends: the id it takes and the packet.
def callPacket (proto : RtmpProto) (methodName : Bytes) (arguments : List AV) (now : Int) :
    Res (Int × Packet × RtmpProto) := do
  let (timer, proto) ← rtmpPacketGetLastTimer proto 3 now
  let requestId := proto.nextRequestId
  let proto := { proto with nextRequestId := int64 (requestId + 1) }
  let data ← amfPackCall rtPoolAlloc methodName (Binary64.ofInt requestId) arguments
  .ok (requestId, ⟨3, ownChannel timer pacInvoke, data⟩, proto)

def rtmpProtoCall (table : MethodTable) (proto : RtmpProto) (methodName : Bytes) (arguments : List AV)
    (now : Int) : Res (Int × RtmpProto) := do
  let (requestId, callPac, proto) ← callPacket proto methodName arguments now
  let proto ← rtmpProtoSendPacket table proto callPac false
  .ok (requestId, proto)

-- One call: the counter before it, what it returned, and what it put on the wire.
structure Issued where
  counter : Int
  returned : Int
  methodName : Bytes
  payload : Bytes

-- The eight bytes behind the method name and the tag of the number.
def wireNumber (methodName payload : Bytes) : BitVec 64 :=
  ofHostBytes 64 (loadData ((payload.drop (amfGetPackSize (.string methodName) + 1)).take 8))

def Issued.number (call : Issued) : Int := Binary64.whole (wireNumber call.methodName call.payload)

def unheard (table : MethodTable) : MethodTable := { table with onAmfCall := none }

-- The application's callback comes last, so what it does can be taken for later steps.
theorem invokeApplication {table : MethodTable} {now : Int} {proto proto' : RtmpProto} {pac : Packet}
    (h : defaultOnPacketInvoke table now proto pac = .ok proto') :
    ∃ mid, defaultOnPacketInvoke (unheard table) now proto pac = .ok mid ∧
      (proto' = mid ∨ ∃ methodName requestId args,
        callBack table mid pac.channelId requestId methodName args = .ok proto') := by
  simp only [defaultOnPacketInvoke, Fallible.bindOk] at h
  obtain ⟨_, named, _, isString, _, numbered, _, isNumber, result, compared, _, empty, ⟨args, _⟩,
    collected, connect, matched, h⟩ := h
  cases connect with
  | true =>
    refine ⟨proto', ?_, .inl rfl⟩
    simp only [defaultOnPacketInvoke, named, isString, numbered, isNumber, compared, empty, collected,
      matched, Fallible.okBind]
    exact h
  | false =>
    refine ⟨_, ?_, .inr ⟨_, _, args, h⟩⟩
    simp only [defaultOnPacketInvoke, named, isString, numbered, isNumber, compared, empty, collected,
      matched, Fallible.okBind]
    rfl

/- The calls of a connection, the latest first, among invocations by the peer. Between these
anything but the counter may change. -/
inductive CallRun (table : MethodTable) : RtmpProto → List Issued → Prop where
  | init : CallRun table rtmpProtoInit []
  | call {proto mid proto' : RtmpProto} {issued : List Issued} {methodName : Bytes}
      {arguments : List AV} {now requestId returned : Int} {callPac : Packet}
      (before : CallRun table proto issued)
      (built : callPacket proto methodName arguments now = .ok (requestId, callPac, mid))
      (called : rtmpProtoCall table proto methodName arguments now = .ok (returned, proto')) :
      CallRun table proto' (⟨proto.nextRequestId, returned, methodName, callPac.data⟩ :: issued)
  | invoked {proto proto' : RtmpProto} {issued : List Issued} {now : Int} {pac : Packet}
      (before : CallRun table proto issued)
      (handled : defaultOnPacketInvoke (unheard table) now proto pac = .ok proto') :
      CallRun table proto' issued
  | elsewhere {proto proto' : RtmpProto} {issued : List Issued} (before : CallRun table proto issued)
      (same : proto'.nextRequestId = proto.nextRequestId) : CallRun table proto' issued

-- What the peer's replies are matched by tells the calls apart, and is what the caller knows.
structure NumbersIdentify (issued : List Issued) : Prop where
  distinct : issued.Pairwise fun call earlier => call.number ≠ earlier.number
  returned : ∀ call ∈ issued, call.number = call.returned

theorem counterFree : OutputFree RtmpProto.nextRequestId := ⟨fun _ _ => rfl, fun _ _ _ _ => rfl⟩

theorem packCallPayload {ppool : Alloc} {methodName : Bytes} {reqId : BitVec 64} {arguments : List AV}
    {data : Bytes} (h : amfPackCall ppool methodName reqId arguments = .ok data) :
    data = packValues [.string methodName, .number reqId, .nil] ++ packValues arguments := by
  unfold amfPackCall at h
  dsimp only at h
  split at h
  · contradiction
  · obtain ⟨_, _, last⟩ := Fallible.bindOk.mp h
    exact (Except.ok.inj last).symm

theorem wireNumberPacked (methodName : Bytes) (reqId : BitVec 64) (arguments : List AV) :
    wireNumber methodName (packValues [.string methodName, .number reqId, .nil] ++ packValues arguments) =
      reqId := by
  have split : packValues [.string methodName, .number reqId, .nil] ++ packValues arguments =
      (amfPack (.string methodName) ++ [amfNumber]) ++
        (packDouble reqId ++ (packValues [.nil] ++ packValues arguments)) := by
    simp only [packValues, amfPack, packByte, List.append_assoc]
  have front : (amfPack (.string methodName) ++ [amfNumber]).length = amfGetPackSize (.string methodName) + 1 := by
    rw [List.length_append, packLength, List.length_singleton]
  rw [wireNumber, split, ← front, List.drop_left, List.take_left' (packDoubleLength reqId), packDouble,
    loadedBack 8 (by decide)]

theorem callBuilt {proto mid : RtmpProto} {methodName : Bytes} {arguments : List AV} {now requestId : Int}
    {callPac : Packet} (built : callPacket proto methodName arguments now = .ok (requestId, callPac, mid)) :
    requestId = proto.nextRequestId ∧ mid.nextRequestId = int64 (proto.nextRequestId + 1) ∧
      wireNumber methodName callPac.data = Binary64.ofInt proto.nextRequestId := by
  simp only [callPacket, Fallible.bindOk] at built
  obtain ⟨⟨timer, timed⟩, timing, data, packing, last⟩ := built
  cases Except.ok.inj last
  have same := timerLeaves counterFree timing
  rw [packCallPayload packing, wireNumberPacked]
  exact ⟨same, congrArg (fun n => int64 (n + 1)) same, congrArg Binary64.ofInt same⟩

theorem callCounts {table : MethodTable} {proto proto' : RtmpProto} {methodName : Bytes}
    {arguments : List AV} {now returned : Int}
    (called : rtmpProtoCall table proto methodName arguments now = .ok (returned, proto')) :
    returned = proto.nextRequestId ∧ proto'.nextRequestId = int64 (proto.nextRequestId + 1) := by
  simp only [rtmpProtoCall, Fallible.bindOk] at called
  obtain ⟨⟨requestId, callPac, mid⟩, built, sent, sending, last⟩ := called
  cases Except.ok.inj last
  obtain ⟨taken, counted, _⟩ := callBuilt built
  exact ⟨taken, (sendLeaves counterFree table callPac false sending).trans counted⟩

theorem invokeCounts {table : MethodTable} {now : Int} {proto proto' : RtmpProto} {pac : Packet}
    (handled : defaultOnPacketInvoke (unheard table) now proto pac = .ok proto') :
    proto'.nextRequestId = proto.nextRequestId ∨
      proto.nextRequestId < proto'.nextRequestId ∧ proto'.nextRequestId ≤ 9223372036854774785 := by
  obtain ⟨methodName, bits, args, raised, raise, rest⟩ := invokeSteps handled
  have same : proto'.nextRequestId = raised.nextRequestId := by
    rcases rest with ⟨asked, reply⟩ | called
    · exact returnLeaves counterFree _ asked _ _ _ now reply
    · cases Except.ok.inj called
      rfl
  rw [same]
  rcases raise with rfl | rfl
  · exact .inl rfl
  · obtain ⟨low, high⟩ := Binary64.toInt64Bound bits
    have number : int64 (Binary64.toInt64 bits + 1) = Binary64.toInt64 bits + 1 :=
      int64Same (by omega) (by omega)
    unfold raiseRequestId
    rw [number]
    split
    · rename_i lower
      exact .inr ⟨lower, by dsimp only; omega⟩
    · exact .inl rfl

theorem runNumbers {table : MethodTable} {proto : RtmpProto} {issued : List Issued}
    (run : CallRun table proto issued) : ∀ call ∈ issued, call.returned = call.counter ∧
      call.number = Binary64.whole (Binary64.ofInt call.counter) := by
  induction run with
  | init =>
    intro call none
    cases none
  | call before built called ih =>
    refine List.forall_mem_cons.mpr ⟨⟨(callCounts called).1, ?_⟩, ih⟩
    rw [Issued.number, (callBuilt built).2.2]
  | invoked before handled ih => exact ih
  | elsewhere before same ih => exact ih

-- Numbers of the peer end below the last one that is not an id; an id there has too many bits.
structure Counted (proto : RtmpProto) (issued : List Issued) : Prop where
  positive : 1 ≤ proto.nextRequestId
  bound : proto.nextRequestId ≤ 9223372036854774786
  above : ∀ call ∈ issued, 1 ≤ call.counter ∧ call.counter < proto.nextRequestId
  increasing : issued.Pairwise fun call earlier => earlier.counter < call.counter

theorem Counted.later {proto proto' : RtmpProto} {issued : List Issued} (counted : Counted proto issued)
    (further : proto.nextRequestId ≤ proto'.nextRequestId)
    (bound : proto'.nextRequestId ≤ 9223372036854774786) : Counted proto' issued where
  positive := counted.positive.trans further
  bound := bound
  above call member := by
    obtain ⟨low, high⟩ := counted.above call member
    exact ⟨low, by omega⟩
  increasing := counted.increasing

theorem lastUnrepresentable : ¬ Binary64.Representable 9223372036854774786 := by decide

theorem runCounted {table : MethodTable} {proto : RtmpProto} {issued : List Issued}
    (run : CallRun table proto issued) (each : ∀ call ∈ issued, Binary64.Representable call.counter) :
    Counted proto issued := by
  induction run with
  | init =>
    refine ⟨Int.le_refl 1, by decide, ?_, .nil⟩
    intro call none
    cases none
  | @call proto mid proto' issued methodName arguments now requestId returned callPac before built called ih =>
    obtain ⟨here, earlier⟩ := List.forall_mem_cons.mp each
    have counted := ih earlier
    have positive := counted.positive
    have bound := counted.bound
    have raised := (callCounts called).2
    have below : proto.nextRequestId ≠ 9223372036854774786 := by
      intro last
      have representable : Binary64.Representable proto.nextRequestId := here
      rw [last] at representable
      exact lastUnrepresentable representable
    rw [int64Same (by omega) (by omega)] at raised
    have after : Counted proto' issued := counted.later (by omega) (by omega)
    have mine : 1 ≤ proto.nextRequestId ∧ proto.nextRequestId < proto'.nextRequestId := ⟨positive, by omega⟩
    exact ⟨after.positive, after.bound, List.forall_mem_cons.mpr ⟨mine, after.above⟩,
      List.pairwise_cons.mpr ⟨fun call member => (counted.above call member).2, counted.increasing⟩⟩
  | invoked before handled ih =>
    have counted := ih each
    have bound := counted.bound
    rcases invokeCounts handled with same | ⟨raised, limit⟩
    · exact counted.later same.ge (by omega)
    · exact counted.later raised.le (by omega)
  | elsewhere before same ih =>
    have counted := ih each
    exact counted.later same.ge (same.trans_le counted.bound)

theorem numberRounds {counter : Int} (positive : 1 ≤ counter) (bound : counter ≤ 9223372036854774786) :
    Binary64.whole (Binary64.ofInt counter) = counter ↔ Binary64.Representable counter := by
  rw [Binary64.wholeOfInt (by omega), Binary64.roundIntSame]

theorem identifyRepresentable {table : MethodTable} {proto : RtmpProto} {issued : List Issued}
    (run : CallRun table proto issued) (identify : NumbersIdentify issued) :
    ∀ call ∈ issued, Binary64.Representable call.counter := by
  induction run with
  | init =>
    intro call none
    cases none
  | @call proto mid proto' issued methodName arguments now requestId returned callPac before built called ih =>
    obtain ⟨_, distinct⟩ := List.pairwise_cons.mp identify.distinct
    obtain ⟨same, others⟩ := List.forall_mem_cons.mp identify.returned
    have earlier := ih ⟨distinct, others⟩
    obtain ⟨positive, bound, _, _⟩ := runCounted before earlier
    have numbers := runNumbers (.call before built called) _ List.mem_cons_self
    refine List.forall_mem_cons.mpr ⟨(numberRounds positive bound).mp ?_, earlier⟩
    rw [← numbers.2, same, numbers.1]
  | invoked before handled ih => exact ih identify
  | elsewhere before same ih => exact ih identify

theorem requestIds {table : MethodTable} {proto : RtmpProto} {issued : List Issued}
    (run : CallRun table proto issued) :
    NumbersIdentify issued ↔ ∀ call ∈ issued, Binary64.Representable call.counter := by
  refine ⟨identifyRepresentable run, fun each => ?_⟩
  obtain ⟨positive, bound, above, increasing⟩ := runCounted run each
  have exact (call : Issued) (member : call ∈ issued) : call.number = call.counter := by
    obtain ⟨low, high⟩ := above call member
    rw [(runNumbers run call member).2, numberRounds low (by omega)]
    exact each call member
  constructor
  · refine increasing.imp_of_mem fun here there later same => ?_
    rw [exact _ here, exact _ there] at same
    omega
  · intro call member
    rw [exact call member, (runNumbers run call member).1]

theorem sendReturned {table : MethodTable} (writes : table.onWriteData = true) {proto : RtmpProto}
    {slot : Fin 64} (form : 2 ≤ slot.val) (current : proto.channelId = slot.val)
    (positive : 1 ≤ proto.writeChunkSize) {pac : Packet} (named : pac.channelId = slot.val)
    (short : pac.data.length ≤ 32767) :
    ∃ out, rtmpProtoSendPacket table proto pac false =
      .ok (protoWriteData table (packetSent proto slot pac) out) := by
  obtain ⟨told, pb, written, value⟩ := writePacketFresh proto named current form positive short false
  have some : 0 < (rtmpWbGetValue pb).length := by
    rw [value, packetBytesLength pac current positive]
    omega
  refine ⟨rtmpWbGetValue pb, ?_⟩
  simp only [rtmpProtoSendPacket, written, Fallible.okBind, checkTrue writes, checkTrue some]

theorem callSize (reqId : BitVec 64) :
    (packValues [.string [102], .number reqId, .nil]).length = 14 := by
  rw [packValuesLength]
  rfl

theorem callPacketBuilt (proto : RtmpProto) (now : Int) :
    ∃ callPac mid, callPacket proto [102] [] now = .ok (proto.nextRequestId, callPac, mid) ∧
      callPac.channelId = 3 ∧ callPac.data.length = 14 ∧ mid.channelId = proto.channelId ∧
      mid.writeChunkSize = proto.writeChunkSize := by
  obtain ⟨timer, lastTimers, timing⟩ : ∃ timer lastTimers,
      rtmpPacketGetLastTimer proto 3 now = .ok (timer, { proto with lastTimers }) := by
    have entry : tableEntry 3 = .ok 3 := by decide
    rw [rtmpPacketGetLastTimer, checkTrue (by decide), Fallible.okBind, entry, Fallible.okBind]
    exact ⟨_, _, rfl⟩
  have size := callSize (Binary64.ofInt proto.nextRequestId)
  have payload : amfPackCall rtPoolAlloc [102] (Binary64.ofInt proto.nextRequestId) [] =
      .ok (packValues [.string [102], .number (Binary64.ofInt proto.nextRequestId), .nil]) := by
    rw [packCallBlock _ _ _ _ (by omega), packedServes]
    exact ⟨by omega, rfl⟩
  refine ⟨⟨3, ownChannel timer pacInvoke,
    packValues [.string [102], .number (Binary64.ofInt proto.nextRequestId), .nil]⟩, { proto with
    lastTimers
    nextRequestId := int64 (proto.nextRequestId + 1) }, ?_, rfl, size, rfl, rfl⟩
  simp only [callPacket, timing, Fallible.okBind, payload]

theorem callReturned {table : MethodTable} (writes : table.onWriteData = true) {proto : RtmpProto}
    (current : proto.channelId = 3) (positive : 1 ≤ proto.writeChunkSize) (now : Int) :
    ∃ callPac mid proto', callPacket proto [102] [] now = .ok (proto.nextRequestId, callPac, mid) ∧
      rtmpProtoCall table proto [102] [] now = .ok (proto.nextRequestId, proto') ∧
      proto'.channelId = 3 ∧ 1 ≤ proto'.writeChunkSize := by
  obtain ⟨callPac, mid, built, named, size, channel, chunk⟩ := callPacketBuilt proto now
  have three : (2 : Nat) ≤ (3 : Fin 64).val := by decide
  rw [current] at channel
  rw [← chunk] at positive
  obtain ⟨out, sending⟩ := sendReturned writes three channel positive named (by omega)
  refine ⟨callPac, mid, protoWriteData table (packetSent mid 3 callPac) out, built, ?_, channel, positive⟩
  simp only [rtmpProtoCall, built, Fallible.okBind, sending]

def peerCall (requestId : Int) : Packet :=
  ⟨3, { initChannel with dataType := pacInvoke }, packValues (callValues [102] requestId [])⟩

theorem peerCallSendable (requestId : Int) : Sendable (peerCall requestId) where
  timerLow := Int.le_refl 0
  timerHigh := (by decide : (0 : Int) ≤ 0xfffffe)
  typeLow := (by decide : (1 : Int) ≤ pacInvoke)
  typeHigh := (by decide : pacInvoke ≤ 255)
  short := (callSize _).le.trans (by decide)

def peerCallWire (slot : Fin 64) (requestId : Int) : Bytes :=
  packetBytes (facing (sender 128) slot.val) slot (peerCall requestId) false

/- A fresh connection that has read and handled a call of the peer, still inside the callback:
the state `proto` that the reader and the handler leave. -/
def PeerCalled (slot : Fin 64) (requestId : Int) (proto : RtmpProto) : Prop :=
  ∃ pac inside rest, rtmpPacketGetPacket (receiver 128) (rtmpRbInit (peerCallWire slot requestId)) =
      .ok (pac, inside, rest) ∧
    defaultOnPacketInvoke (unheard bareTable) 0 inside pac = .ok proto ∧
    inside.nextRequestId = rtmpProtoInit.nextRequestId

theorem PeerCalled.run {slot : Fin 64} {requestId : Int} {proto : RtmpProto}
    (called : PeerCalled slot requestId proto) :
    CallRun bareTable proto [] := by
  obtain ⟨_, _, _, _, handled, same⟩ := called
  exact .invoked (.elsewhere .init same) handled

theorem peerCallHandled (requestId : Int) (exact : requestId.natAbs ≤ 2 ^ 53) :
    ∃ proto, PeerCalled 3 requestId proto ∧ proto.nextRequestId = max 1 (requestId + 1) ∧
      proto.channelId = 3 ∧ 1 ≤ proto.writeChunkSize := by
  have three : Exchanged 3 := .inr rfl
  have message := exchangeMessage (c := 128) (by decide) (syncedInit 128) three rfl
    (peerCallSendable requestId) rfl
  obtain ⟨_, dataBuffer, _, _, _, read⟩ := getPacketMessage (syncedInit 128).between (by decide) message
    ((unreadInit _).trans (List.append_nil _).symm)
  generalize sentChannel _ _ _ = channel at read
  generalize headMask _ = packetMask at read
  have small : ([102] : Bytes).length ≤ 32767 := by decide
  have size := callSize (Binary64.ofInt requestId)
  have encodable : ValuesEncodable [] := by simp only [ValuesEncodable]
  have int : (packValues (callValues [102] requestId [])).length < 2147483648 := size.trans_lt (by decide)
  obtain ⟨pap, ready, ahead, handled⟩ := handleCall small (by decide) exact int
  obtain ⟨asked, _, none⟩ := storesGood (readArgumentsPacked encodable rfl (by decide) ready ahead)
  have after := handled (unheard bareTable) 0 (received (receiver 128) 3 channel 6 packetMask dataBuffer) 3
    channel
  rw [none, Fallible.okBind, afterCall, if_neg (by decide)] at after
  exact ⟨_, ⟨_, _, _, read, after, rfl⟩, rfl, rfl, (by decide : 1 ≤ 128)⟩

theorem requestIdsFirst : ∃ proto call, CallRun bareTable proto [call] ∧ call.returned = 1 ∧
    NumbersIdentify [call] := by
  have writes : bareTable.onWriteData = true := rfl
  obtain ⟨proto, called, counter, channel, chunk⟩ := peerCallHandled 0 (by decide)
  obtain ⟨_, _, proto', built, calling, _⟩ := callReturned writes channel chunk 0
  have one : proto.nextRequestId = 1 := counter
  have run := called.run.call built calling
  refine ⟨proto', _, run, one, (requestIds run).mpr ?_⟩
  rw [one, List.forall_mem_singleton]
  exact (by decide : Binary64.Representable 1)

-- From 2^53 on two calls in a row carry one number.
theorem twoCallsOneNumber : ∃ proto₀ proto first second, PeerCalled 3 9007199254740991 proto₀ ∧
    CallRun bareTable proto₀ [] ∧ CallRun bareTable proto [second, first] ∧
    first.returned = 9007199254740992 ∧ second.returned = 9007199254740993 ∧
    first.number = 9007199254740992 ∧ second.number = 9007199254740992 ∧
    ¬ NumbersIdentify [second, first] := by
  have writes : bareTable.onWriteData = true := rfl
  obtain ⟨proto, called, counter, channel, chunk⟩ := peerCallHandled 9007199254740991 (by decide)
  obtain ⟨_, _, proto₁, built₁, called₁, channel₁, chunk₁⟩ := callReturned writes channel chunk 0
  obtain ⟨_, _, proto₂, built₂, called₂, _⟩ := callReturned writes channel₁ chunk₁ 0
  have here : proto.nextRequestId = 9007199254740992 := counter
  have there : proto₁.nextRequestId = 9007199254740993 := by
    rw [(callCounts called₁).2, here]
    decide
  have run := (called.run.call built₁ called₁).call built₂ called₂
  have second := runNumbers run _ List.mem_cons_self
  have first := runNumbers run _ (List.mem_cons_of_mem _ List.mem_cons_self)
  rw [here] at run first
  rw [there] at run second
  have number : Binary64.whole (Binary64.ofInt 9007199254740992) = 9007199254740992 := by decide
  have rounded : Binary64.whole (Binary64.ofInt 9007199254740993) = 9007199254740992 := by decide
  refine ⟨proto, proto₂, _, _, called, called.run, run, first.1, second.1, first.2.trans number,
    second.2.trans rounded, ?_⟩
  intro identify
  exact (List.pairwise_cons.mp identify.distinct).1 _ List.mem_cons_self
    ((second.2.trans rounded).trans (first.2.trans number).symm)

end Rushkit
