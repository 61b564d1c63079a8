import Rushkit.Callbacks
import Rushkit.Library.Frame

/-! What the library's own callbacks change: nothing that sending does not touch, apart
from the counter of request ids and the block for saved bytes. -/
namespace Rushkit
open Frame

-- A view of the connection that no outgoing packet changes.
structure OutputFree {α : Type} (view : RtmpProto → α) : Prop where
  timed : ∀ proto lastTimers, view { proto with lastTimers } = view proto
  sent : ∀ proto channelsOut numDownBytes written,
    view { proto with channelsOut, numDownBytes, written } = view proto

section Views
variable {α : Type} {view : RtmpProto → α} (free : OutputFree view)
include free

theorem timerLeaves {proto proto' : RtmpProto} {fn now timer : Int}
    (h : rtmpPacketGetLastTimer proto fn now = .ok (timer, proto')) : view proto' = view proto := by
  simp only [rtmpPacketGetLastTimer, Fallible.bindOk] at h
  obtain ⟨_, _, _, _, last⟩ := h
  cases Except.ok.inj last
  exact free.timed proto _

theorem sendLeaves (table : MethodTable) (pac : Packet) (timerRelative : Bool) :
    Leaves view fun proto => rtmpProtoSendPacket table proto pac timerRelative := by
  intro proto proto' h
  simp only [rtmpProtoSendPacket, rtmpPacketWritePacket, Fallible.bindOk] at h
  obtain ⟨_, ⟨_, _, _, _, _, _, _, _, written⟩, _, _, _, _, last⟩ := h
  cases Except.ok.inj written
  cases Except.ok.inj last
  exact free.sent proto _ _ _

theorem returnLeaves (table : MethodTable) (asked : List Nat) (channelId requestId : Int) (retVal : Amf.AV)
    (now : Int) : Leaves view fun proto => rtmpProtoPacketReturn table asked proto channelId requestId retVal now :=
  leavesValue _ fun asked => leavesAfter (fun timer proto => do
      let data ← Amf.amfPackArguments (rtPool asked) (returnArguments requestId retVal)
      if 0 < data.length then
        rtmpProtoSendPacket table proto ⟨channelId, ownChannel timer pacInvoke, data⟩ false
      else .ok proto)
    (timerLeaves free) fun _ => leavesValue _ fun _ => leavesIf (sendLeaves free table _ false) leavesOk

theorem pingLeaves (table : MethodTable) (now : Int) (pac : Packet) :
    Leaves view fun proto => defaultOnPacketPing table now proto pac :=
  leavesAfter (fun timer proto =>
      rtmpProtoSendPacket table proto ⟨pac.channelId, ownChannel timer pacPing, pac.data⟩ false)
    (timerLeaves free) fun _ => sendLeaves free table _ false

omit free in
theorem bytesReadLeaves (pac : Packet) : Leaves view fun proto => defaultOnPacketBytesRead proto pac :=
  leavesValue _ fun _ => leavesValue _ fun _ => leavesOk

end Views

theorem invokeSteps {table : MethodTable} {now : Int} {proto proto' : RtmpProto} {pac : Packet}
    (h : defaultOnPacketInvoke table now proto pac = .ok proto') :
    ∃ methodName bits args raised,
      (raised = proto ∨ raised = raiseRequestId proto (Binary64.toInt64 bits)) ∧
      ((∃ asked, rtmpProtoPacketReturn table asked raised pac.channelId (Binary64.toInt64 bits) connectReply now =
          .ok proto') ∨
        callBack table raised pac.channelId (Binary64.toInt64 bits) methodName args = .ok proto') := by
  simp only [defaultOnPacketInvoke, Fallible.bindOk] at h
  obtain ⟨⟨methodNameV, _⟩, _, _, _, ⟨requestIdV, _⟩, _, _, _, result, _, _, _, ⟨args, _⟩, _, connect, _, h⟩ := h
  refine ⟨methodNameV, requestIdV.numberT, args,
    if result = true then proto else raiseRequestId proto (Binary64.toInt64 requestIdV.numberT), ?_, ?_⟩
  · split
    · exact .inl rfl
    · exact .inr rfl
  · split at h
    · obtain ⟨asked, _, reply⟩ := Fallible.bindOk.mp h
      exact .inl ⟨asked, reply⟩
    · exact .inr h

/- What the application sets itself leaves the view alone. -/
structure ApplicationLeaves {α : Type} (view : RtmpProto → α) (table : MethodTable) : Prop where
  amfCall : ∀ onAmfCall, table.onAmfCall = some onAmfCall → ∀ channelId requestId methodName argc args,
    Leaves view fun proto => onAmfCall proto channelId requestId methodName argc args
  invalid : ∀ callback, table.onPacketInvalid = some callback → ∀ pac,
    Leaves view fun proto => callback proto pac
  audio : ∀ callback, table.onPacketAudio = some callback → ∀ pac,
    Leaves view fun proto => callback proto pac
  video : ∀ callback, table.onPacketVideo = some callback → ∀ pac,
    Leaves view fun proto => callback proto pac

theorem bareLeaves {α : Type} (view : RtmpProto → α) : ApplicationLeaves view bareTable where
  amfCall _ h := by contradiction
  invalid _ h := by contradiction
  audio _ h := by contradiction
  video _ h := by contradiction

section Delivery
variable {α : Type} {view : RtmpProto → α} (free : OutputFree view)
  (counter : ∀ proto requestId, view (raiseRequestId proto requestId) = view proto)
  {table : MethodTable} (application : ApplicationLeaves view table) (now : Int)
include free counter application

omit free counter in
theorem callBackLeaves (channelId requestId : Int) (methodName : Amf.AV) (args : List Amf.AV) :
    Leaves view fun proto => callBack table proto channelId requestId methodName args := by
  intro proto proto' h
  simp only [callBack] at h
  split at h
  · rename_i onAmfCall called
    exact application.amfCall onAmfCall called _ _ _ _ _ h
  · exact leavesOk h

theorem invokeLeaves (pac : Packet) : Leaves view fun proto => defaultOnPacketInvoke table now proto pac := by
  intro proto proto' h
  obtain ⟨methodName, bits, args, raised, raise, rest⟩ := invokeSteps h
  have same : view raised = view proto := by
    rcases raise with rfl | rfl
    · rfl
    · exact counter proto (Binary64.toInt64 bits)
  rw [← same]
  rcases rest with ⟨asked, reply⟩ | called
  · exact returnLeaves free table asked _ _ _ now reply
  · exact callBackLeaves application _ _ _ _ called

omit free counter application in
theorem handOnLeaves {callback : Option PacketCallback} (pac : Packet)
    (each : ∀ f, callback = some f → Leaves view fun proto => f proto pac) :
    Leaves view fun proto => handOn callback proto pac := by
  unfold handOn
  cases callback with
  | none => exact leavesOk
  | some f => exact each f rfl

theorem deliverLeaves {pac : Packet} (other : pac.channel.dataType ≠ pacChunkSize) :
    Leaves view fun proto => deliver (rtmpProtoMethodTableInit table now) proto pac := by
  have ping : Leaves view fun proto => handOn (some (defaultOnPacketPing table now)) proto pac :=
    pingLeaves free table now pac
  have invoke : Leaves view fun proto => handOn (some (defaultOnPacketInvoke table now)) proto pac :=
    invokeLeaves free counter application now pac
  intro proto proto' h
  have dispatched : defaultOnPacket (rtmpProtoMethodTableInit table now) proto pac = .ok proto' := h
  rw [defaultOnPacket, if_neg other] at dispatched
  revert dispatched
  exact leavesIf (handOnLeaves pac fun f set => application.invalid f set pac) <|
    leavesIf (bytesReadLeaves pac) <| leavesIf ping <| leavesIf invoke <|
    leavesIf (handOnLeaves pac fun f set => application.audio f set pac) <|
    leavesIf (handOnLeaves pac fun f set => application.video f set pac) leavesOk

end Delivery

-- The reader's half of the record, as one view.
def readerHalf (proto : RtmpProto) : Nat × Nat × Bytes × Bytes × Nat × ChannelTable :=
  (proto.pkgSt, proto.state, proto.lastData, proto.readBuffer, proto.readChunkSize, proto.channelsIn)

theorem readerHalfKept {proto proto' : RtmpProto} (same : readerHalf proto' = readerHalf proto) :
    ReaderKept proto proto' := by
  obtain ⟨pkgSt, state, lastData, readBuffer, readChunkSize, channelsIn⟩ :
      proto'.pkgSt = proto.pkgSt ∧ proto'.state = proto.state ∧ proto'.lastData = proto.lastData ∧
        proto'.readBuffer = proto.readBuffer ∧ proto'.readChunkSize = proto.readChunkSize ∧
        proto'.channelsIn = proto.channelsIn := by
    simpa only [readerHalf, Prod.mk.injEq] using same
  exact ⟨pkgSt, state, lastData, readBuffer, readChunkSize, channelsIn⟩

theorem raiseReaderHalf (proto : RtmpProto) (requestId : Int) :
    readerHalf (raiseRequestId proto requestId) = readerHalf proto := by
  unfold raiseRequestId
  split
  · rfl
  · rfl

theorem defaultLeaves {table : MethodTable} (application : ApplicationLeaves readerHalf table) (now : Int) :
    LeavesReader (rtmpProtoMethodTableInit table now) := by
  intro proto proto' pac called
  have free : OutputFree readerHalf := ⟨fun _ _ => rfl, fun _ _ _ _ => rfl⟩
  by_cases chunkSize : pac.channel.dataType = pacChunkSize
  · have handled : defaultOnPacket (rtmpProtoMethodTableInit table now) proto pac = .ok proto' := called
    rw [defaultOnPacket, if_pos chunkSize] at handled
    exact (chunkSizePassive table pac).kept handled
  · exact readerHalfKept (deliverLeaves free raiseReaderHalf application now chunkSize called)

end Rushkit
