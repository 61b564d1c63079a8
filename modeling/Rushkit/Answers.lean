import Rushkit.Replies

/-! What the library's functions send while a packet is handled: a pong, a result, a call.
The packet goes out on the channel of the one that is handled. -/
namespace Rushkit
open Amf Dialogue

def resultData (requestId : Int) (retVal : AV) : Bytes := packValues (returnArguments requestId retVal)

def callData (methodName : Bytes) (requestId : Int) (arguments : List AV) : Bytes :=
  packValues (callValues methodName requestId arguments)

theorem packedShort {data : Bytes} (short : data.length ≤ 32767) : packed rtPoolAlloc data = .ok data :=
  packedServes.mpr ⟨by omega, rfl⟩

theorem resultPacked {requestId : Int} {retVal : AV} (short : (resultData requestId retVal).length ≤ 32767) :
    amfPackArguments rtPoolAlloc (returnArguments requestId retVal) = .ok (resultData requestId retVal) := by
  unfold resultData at *
  rw [packArgumentsBlock rtPoolAlloc _ (by omega), packedShort short]

theorem callPacked {methodName : Bytes} {requestId : Int} {arguments : List AV}
    (short : (callData methodName requestId arguments).length ≤ 32767) :
    amfPackCall rtPoolAlloc methodName (Binary64.ofInt requestId) arguments =
      .ok (callData methodName requestId arguments) := by
  unfold callData callValues at *
  rw [packCallBlock rtPoolAlloc _ _ _ (by omega), packedShort short]

def counterRaised (proto : RtmpProto) : RtmpProto :=
  { proto with nextRequestId := int64 (proto.nextRequestId + 1) }

theorem resultSome (requestId : Int) (retVal : AV) : 0 < (resultData requestId retVal).length := by
  have size := packSizePositive retVal
  rw [resultData, packValuesLength]
  simp only [returnArguments, valuesPackSize]
  omega

section Reply
variable {table : MethodTable} (writes : table.onWriteData = true) {c : Nat} (positive : 1 ≤ c)
  {proto : RtmpProto} (chunk : proto.writeChunkSize = c) {slot : Fin 64} (exchanged : Exchanged slot)
  (current : proto.channelId = slot.val) {now : Int} (timely : Timely now proto)
include writes positive chunk exchanged current timely

theorem pingReplies {pac : Packet} (named : pac.channelId = slot.val) (short : pac.data.length ≤ 32767) :
    ∃ proto', defaultOnPacketPing table now proto pac = .ok proto' ∧
      Replies c now proto proto' [(ownPacket slot (now - proto.lastTimers slot) pacPing pac.data).heard] := by
  obtain ⟨timed, proto', timing, sent, replies, _⟩ :=
    ownReplies writes positive proto chunk exchanged current pacPing (by decide) (by decide) short timely
  refine ⟨proto', ?_, replies⟩
  rw [defaultOnPacketPing, named, timing, Fallible.okBind]
  exact sent

theorem resultReplies {asked : List Nat} (inOrder : rtPoolLeft asked = none) {requestId : Int} {retVal : AV}
    (short : (resultData requestId retVal).length ≤ 32767) :
    ∃ proto', rtmpProtoPacketReturn table asked proto slot.val requestId retVal now = .ok proto' ∧
      Replies c now proto proto'
        [(ownPacket slot (now - proto.lastTimers slot) pacInvoke (resultData requestId retVal)).heard] ∧
      proto'.nextRequestId = proto.nextRequestId := by
  obtain ⟨timed, proto', timing, sent, replies, counter⟩ :=
    ownReplies writes positive proto chunk exchanged current pacInvoke (by decide) (by decide) short timely
  obtain ⟨made, still⟩ := newBlockInOrder inOrder (by decide : (cString "_result").length < 2147481600)
  refine ⟨proto', ?_, replies, counter⟩
  rw [rtmpProtoPacketReturn, made, Fallible.okBind, timing, Fallible.okBind]
  dsimp only
  rw [poolInOrder still, resultPacked short, Fallible.okBind, if_pos (resultSome requestId retVal)]
  exact sent

theorem callReplies (three : slot.val = 3) {methodName : Bytes} {arguments : List AV}
    (short : (callData methodName proto.nextRequestId arguments).length ≤ 32767) :
    ∃ proto', rtmpProtoCall table proto methodName arguments now = .ok (proto.nextRequestId, proto') ∧
      Replies c now proto proto' [(ownPacket slot (now - proto.lastTimers slot) pacInvoke
        (callData methodName proto.nextRequestId arguments)).heard] ∧
      proto'.nextRequestId = int64 (proto.nextRequestId + 1) := by
  have raised : Replies c now proto (counterRaised proto) [] :=
    repliesNothing ⟨rfl, rfl, rfl, rfl, rfl, rfl⟩ rfl rfl rfl rfl rfl rfl
  have timelyRaised : Timely now (counterRaised proto) := timely
  obtain ⟨timed, proto', timing, sent, replies, counter⟩ := ownReplies writes positive
    (counterRaised proto) chunk exchanged current pacInvoke (by decide) (by decide) short timelyRaised
  have after : timed = { counterRaised proto with
      lastTimers := Function.update proto.lastTimers slot now } := by
    have same := timing.symm.trans (timelyTimer timelyRaised exchanged)
    exact (Prod.mk.inj (Except.ok.inj same)).2
  have named : (slot.val : Int) = 3 := by omega
  have called : callPacket proto methodName arguments now = .ok (proto.nextRequestId,
      ownPacket slot (now - proto.lastTimers slot) pacInvoke (callData methodName proto.nextRequestId arguments),
      timed) := by
    rw [callPacket, ← named, timelyTimer timely exchanged, Fallible.okBind]
    dsimp only
    rw [callPacked short, Fallible.okBind, after, ownPacket, named]
    rfl
  refine ⟨proto', ?_, repliesThen raised replies, counter⟩
  unfold rtmpProtoCall
  exact Fallible.bindOk.mpr ⟨_, called, Fallible.bindOk.mpr ⟨proto', sent, rfl⟩⟩

end Reply

theorem resultReturned {table : MethodTable} {asked : List Nat} {proto proto' : RtmpProto}
    {channelId requestId : Int} {retVal : AV} {now : Int} (short : (resultData requestId retVal).length ≤ 32767)
    (returned : rtmpProtoPacketReturn table asked proto channelId requestId retVal now = .ok proto') :
    rtmpProtoPacketReturn table [] proto channelId requestId retVal now = .ok proto' := by
  obtain ⟨made, still⟩ := newBlockInOrder (rfl : rtPoolLeft [] = none) (by decide : (cString "_result").length < 2147481600)
  obtain ⟨asked, _, returned⟩ := Fallible.bindOk.mp returned
  obtain ⟨⟨timer, timed⟩, timing, returned⟩ := Fallible.bindOk.mp returned
  obtain ⟨data, payload, sent⟩ := Fallible.bindOk.mp returned
  have small : (packValues (returnArguments requestId retVal)).length ≤ 32767 := short
  have same : data = resultData requestId retVal := by
    rw [packArgumentsBlock _ _ (by omega)] at payload
    unfold packed at payload
    split at payload
    · contradiction
    · exact (Except.ok.inj payload).symm
  rw [same] at sent
  rw [rtmpProtoPacketReturn, made, Fallible.okBind, timing, Fallible.okBind]
  dsimp only
  rw [poolInOrder still, resultPacked short, Fallible.okBind]
  exact sent

-- What `default_on_packet_invoke` reads, and what the pool has been asked for on the way.
def readInvocation (data : Bytes) : Res ((Bytes × Int × List AV) × List Nat) := do
  let pap := amfApAlloc rtPool data data.length
  let (methodNameV, pap) ← amfApReadNext pap
  check .defaultOnPacketInvoke (methodNameV.type = amfString)
  let (requestIdV, pap) ← amfApReadNext pap
  check .defaultOnPacketInvoke (requestIdV.type = amfNumber)
  let (_, pap) ← amfApReadNext pap
  let (args, pap) ← amfApReadArguments pap
  .ok ((methodNameV.stringT, Binary64.toInt64 requestIdV.numberT, args), pap.asked)

-- The method name, the request id and the arguments.
def invocation (data : Bytes) : Res (Bytes × Int × List AV) := (readInvocation data).map Prod.fst

theorem invocationRead {data : Bytes} {call : Bytes × Int × List AV} {asked : List Nat}
    (read : readInvocation data = .ok (call, asked)) : invocation data = .ok call := by
  rw [invocation, read]
  rfl

def afterInvocation (proto : RtmpProto) (methodName : Bytes) (requestId : Int) : RtmpProto :=
  if methodName = cString "_result" then proto else raiseRequestId proto requestId

theorem invokedAfter {c : Nat} {now : Int} (proto : RtmpProto) (methodName : Bytes) (requestId : Int) :
    Replies c now proto (afterInvocation proto methodName requestId) [] := by
  unfold afterInvocation raiseRequestId
  split
  · exact repliesRefl proto
  · split
    · exact repliesNothing ⟨rfl, rfl, rfl, rfl, rfl, rfl⟩ rfl rfl rfl rfl rfl rfl
    · exact repliesRefl proto

theorem typeString {v : AV} (typed : v.type = amfString) : v = .string v.stringT := by
  cases v with
  | string content => rfl
  | plain t =>
    have tag : t.tag = amfString := typed
    exact absurd (by rw [tag]; decide) t.plain
  | number bits | boolean value | hash elements | link value | assocArray elements | array elements =>
    exact absurd typed (by simp only [AV.type]; decide)

theorem stringEqual (content other : Bytes) :
    amfStringEqual (.string content) other = .ok (decide (content = other)) := by
  have typed : (AV.string content).type = amfString := rfl
  rw [amfStringEqual, checkTrue typed, Fallible.okBind]
  rfl

theorem invokeReads (table : MethodTable) (now : Int) (proto : RtmpProto) (pac : Packet) :
    defaultOnPacketInvoke table now proto pac = readInvocation pac.data >>= fun r =>
      if r.1.1 = cString "connect" then newBlocks r.2 connectBlocks >>= fun asked =>
        rtmpProtoPacketReturn table asked (afterInvocation proto r.1.1 r.1.2.1) pac.channelId r.1.2.1 connectReply now
      else callBack table (afterInvocation proto r.1.1 r.1.2.1) pac.channelId r.1.2.1 (.string r.1.1) r.1.2.2 := by
  unfold defaultOnPacketInvoke readInvocation
  simp only [bind_assoc]
  cases named : amfApReadNext (amfApAlloc rtPool pac.data pac.data.length) with
  | error e => rfl
  | ok name =>
    simp only [Fallible.okBind]
    by_cases isString : name.1.type = amfString
    case neg => simp only [checkFalse isString, Fallible.errorBind]
    have content := typeString isString
    generalize name.1.stringT = methodName at content
    simp only [content, stringEqual]
    simp only [Fallible.okBind, decide_eq_true_eq]
    rfl

end Rushkit
