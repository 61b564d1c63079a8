import Rushkit.Dispatch
import Rushkit.FeedRun

/-! The method table that `rtmp_proto_method_table_init` fills in. Its packet callbacks
leave the reader's half of a connection alone as long as the application's do. -/
namespace Rushkit

theorem readerKeptRefl (proto : RtmpProto) : ReaderKept proto proto := ⟨rfl, rfl, rfl, rfl, rfl, rfl⟩

theorem readerKeptTrans {a b c : RtmpProto} (h : ReaderKept a b) (h' : ReaderKept b c) :
    ReaderKept a c :=
  ⟨h'.pkgSt.trans h.pkgSt, h'.state.trans h.state, h'.lastData.trans h.lastData,
    h'.readBuffer.trans h.readBuffer, h'.readChunkSize.trans h.readChunkSize,
    h'.channelsIn.trans h.channelsIn⟩

structure PassiveStep (step : RtmpProto → Res RtmpProto) : Prop where
  kept : ∀ {proto proto' : RtmpProto}, step proto = .ok proto' → ReaderKept proto proto'
  blind : ∀ (proto : RtmpProto) (readBuffer : Bytes) (numUpBytes : Int),
    step (withInput proto readBuffer numUpBytes) =
      (step proto).map fun proto => withInput proto readBuffer numUpBytes

def PassiveCallback (callback : PacketCallback) : Prop :=
  ∀ pac, PassiveStep fun proto => callback proto pac

theorem stepOk : PassiveStep .ok where
  kept h := by
    cases Except.ok.inj h
    exact readerKeptRefl _
  blind _ _ _ := rfl

theorem stepValue {α : Type} (x : Res α) {next : α → RtmpProto → Res RtmpProto}
    (second : ∀ a, PassiveStep (next a)) : PassiveStep fun proto => x >>= fun a => next a proto := by
  cases x with
  | error e => exact ⟨fun h => by contradiction, fun _ _ _ => rfl⟩
  | ok a => exact second a

theorem stepIf {c : Prop} [Decidable c] {step next : RtmpProto → Res RtmpProto}
    (first : PassiveStep step) (second : PassiveStep next) :
    PassiveStep fun proto => if c then step proto else next proto := by
  by_cases h : c
  · simpa only [if_pos h] using first
  · simpa only [if_neg h] using second

theorem stepTimer (fn now : Int) (next : Int → RtmpProto → Res RtmpProto)
    (second : ∀ timer, PassiveStep (next timer)) :
    PassiveStep fun proto => rtmpPacketGetLastTimer proto fn now >>= fun r => next r.1 r.2 where
  kept {proto proto'} h := by
    obtain ⟨⟨timer, mid⟩, before, after⟩ := Fallible.bindOk.mp h
    have timed : ReaderKept proto mid := by
      simp only [rtmpPacketGetLastTimer, Fallible.bindOk] at before
      obtain ⟨_, _, entry, _, last⟩ := before
      cases Except.ok.inj last
      exact ⟨rfl, rfl, rfl, rfl, rfl, rfl⟩
    exact readerKeptTrans timed ((second timer).kept after)
  blind proto readBuffer numUpBytes := by
    have timed : rtmpPacketGetLastTimer (withInput proto readBuffer numUpBytes) fn now =
        (rtmpPacketGetLastTimer proto fn now).map fun r =>
          (r.1, withInput r.2 readBuffer numUpBytes) := by
      simp only [rtmpPacketGetLastTimer, Fallible.bindMap]
      rfl
    rw [timed, Fallible.bindMap]
    cases rtmpPacketGetLastTimer proto fn now with
    | error e => rfl
    | ok r => exact (second r.1).blind r.2 readBuffer numUpBytes

theorem stepRaise (requestId : Int) {next : RtmpProto → Res RtmpProto} (second : PassiveStep next) :
    PassiveStep fun proto => next (raiseRequestId proto requestId) where
  kept {proto proto'} h := by
    refine readerKeptTrans ?_ (second.kept h)
    unfold raiseRequestId
    split
    · exact ⟨rfl, rfl, rfl, rfl, rfl, rfl⟩
    · exact readerKeptRefl proto
  blind proto readBuffer numUpBytes := by
    have same : raiseRequestId (withInput proto readBuffer numUpBytes) requestId =
        withInput (raiseRequestId proto requestId) readBuffer numUpBytes := by
      have counter : (withInput proto readBuffer numUpBytes).nextRequestId = proto.nextRequestId := rfl
      unfold raiseRequestId
      rw [counter]
      by_cases lower : proto.nextRequestId < int64 (requestId + 1)
      · rw [if_pos lower, if_pos lower]
        rfl
      · rw [if_neg lower, if_neg lower]
    rw [same, second.blind]

theorem writeChunksInput (proto : RtmpProto) (readBuffer : Bytes) (numUpBytes channelId : Int)
    (fuel : Nat) (pb : WriteBuffer UInt8) (p : Bytes) :
    writeChunks (withInput proto readBuffer numUpBytes) channelId fuel pb p =
      writeChunks proto channelId fuel pb p := by
  induction fuel generalizing pb p with
  | zero => rfl
  | succ fuel ih =>
    simp only [writeChunks, ih]
    rfl

theorem writePacketInput (proto : RtmpProto) (readBuffer : Bytes) (numUpBytes : Int)
    (pb : WriteBuffer UInt8) (pac : Packet) (timerRelative : Bool) :
    rtmpPacketWritePacket (withInput proto readBuffer numUpBytes) pb pac timerRelative =
      (rtmpPacketWritePacket proto pb pac timerRelative).map fun r =>
        (r.1, withInput r.2.1 readBuffer numUpBytes, r.2.2) := by
  simp only [rtmpPacketWritePacket, writeChunksInput, Fallible.bindMap]
  rfl

theorem sendPassive (table : MethodTable) (pac : Packet) (timerRelative : Bool) :
    PassiveStep fun proto => rtmpProtoSendPacket table proto pac timerRelative where
  kept h := by
    simp only [rtmpProtoSendPacket, rtmpPacketWritePacket, Fallible.bindOk] at h
    obtain ⟨⟨told, mid, buffer⟩, ⟨slot, _, _, _, _, _, _, _, written⟩, _, _, _, _, last⟩ := h
    cases Except.ok.inj written
    cases Except.ok.inj last
    exact ⟨rfl, rfl, rfl, rfl, rfl, rfl⟩
  blind proto readBuffer numUpBytes := by
    simp only [rtmpProtoSendPacket, writePacketInput, Fallible.bindMap]
    cases rtmpPacketWritePacket proto (rtmpWbInit 1024) pac timerRelative with
    | error e => rfl
    | ok r =>
      cases table
      rfl

theorem packetReturnPassive (table : MethodTable) (asked : List Nat) (channelId requestId : Int) (retVal : Amf.AV)
    (now : Int) : PassiveStep fun proto =>
      rtmpProtoPacketReturn table asked proto channelId requestId retVal now :=
  stepValue _ fun asked => stepTimer channelId now (fun timer proto => do
      let data ← Amf.amfPackArguments (rtPool asked) (returnArguments requestId retVal)
      if 0 < data.length then
        rtmpProtoSendPacket table proto ⟨channelId, ownChannel timer pacInvoke, data⟩ false
      else .ok proto)
    fun _ => stepValue _ fun _ => stepIf (sendPassive table _ false) stepOk

theorem pingPassive (table : MethodTable) (now : Int) :
    PassiveCallback (defaultOnPacketPing table now) := fun pac =>
  stepTimer pac.channelId now (fun timer proto =>
      rtmpProtoSendPacket table proto ⟨pac.channelId, ownChannel timer pacPing, pac.data⟩ false)
    fun _ => sendPassive table _ false

theorem bytesReadPassive : PassiveCallback defaultOnPacketBytesRead := fun pac =>
  stepValue _ fun _ => stepValue (unpackInt pac.data) fun _ => stepOk

theorem chunkSizePassive (table : MethodTable) : PassiveCallback (defaultOnPacketChunkSize table) := fun pac =>
  stepValue (unpackInt (pac.data ++ table.behind pac)) fun chunkSize => {
    kept := by
      intro proto proto' h
      split at h <;> cases Except.ok.inj h
      · exact ⟨rfl, rfl, rfl, rfl, rfl, rfl⟩
      · exact readerKeptRefl proto
    blind := by
      intro proto readBuffer numUpBytes
      have same : (withInput proto readBuffer numUpBytes).lastData = proto.lastData := rfl
      rw [same]
      by_cases room : proto.lastData.length ≤ sizeT chunkSize
      · rw [if_pos room, if_pos room]
        rfl
      · rw [if_neg room, if_neg room]
        rfl }

theorem handOnPassive {callback : Option PacketCallback}
    (each : ∀ f, callback = some f → PassiveCallback f) : PassiveCallback (handOn callback) := by
  intro pac
  unfold handOn
  cases callback with
  | none => exact stepOk
  | some callback => exact each callback rfl pac

/- What the application sets itself. -/
structure ApplicationPassive (table : MethodTable) : Prop where
  amfCall : ∀ onAmfCall, table.onAmfCall = some onAmfCall →
    ∀ channelId requestId methodName argc args,
      PassiveStep fun proto => onAmfCall proto channelId requestId methodName argc args
  invalid : ∀ callback, table.onPacketInvalid = some callback → PassiveCallback callback
  audio : ∀ callback, table.onPacketAudio = some callback → PassiveCallback callback
  video : ∀ callback, table.onPacketVideo = some callback → PassiveCallback callback

theorem bareApplication : ApplicationPassive bareTable where
  amfCall _ h := by contradiction
  invalid _ h := by contradiction
  audio _ h := by contradiction
  video _ h := by contradiction

section Application
variable {table : MethodTable} (application : ApplicationPassive table) (now : Int)
include application

theorem callBackPassive (channelId requestId : Int) (methodName : Amf.AV) (args : List Amf.AV) :
    PassiveStep fun proto => callBack table proto channelId requestId methodName args := by
  unfold callBack
  cases called : table.onAmfCall with
  | none => exact stepOk
  | some onAmfCall => exact application.amfCall onAmfCall called _ _ _ _ _

theorem invokePassive : PassiveCallback (defaultOnPacketInvoke table now) := by
  intro pac
  unfold defaultOnPacketInvoke
  dsimp only
  refine stepValue _ fun named => stepValue _ fun _ => ?_
  refine stepValue _ fun numbered => stepValue _ fun _ => ?_
  refine stepValue _ fun result => ?_
  obtain ⟨methodNameV, afterName⟩ := named
  obtain ⟨requestIdV, afterId⟩ := numbered
  have rest : PassiveStep (fun proto => Amf.amfApReadNext afterId >>= fun empty =>
      Amf.amfApReadArguments empty.2 >>= fun args =>
      amfStringEqual methodNameV (cString "connect") >>= fun connect =>
      if connect then newBlocks args.2.asked connectBlocks >>= fun asked =>
        rtmpProtoPacketReturn table asked proto pac.channelId (Binary64.toInt64 requestIdV.numberT) connectReply now
      else callBack table proto pac.channelId (Binary64.toInt64 requestIdV.numberT) methodNameV args.1) :=
    stepValue _ fun _ => stepValue _ fun _ => stepValue _ fun _ =>
      stepIf (stepValue _ fun _ => packetReturnPassive table _ _ _ _ now) (callBackPassive application _ _ _ _)
  cases result with
  | true => exact rest
  | false => exact stepRaise _ rest

end Application

-- The table after `rtmp_proto_method_table_init`; the other callbacks are the application's.
def rtmpProtoMethodTableInit (table : MethodTable) (now : Int) : MethodTable :=
  let table := { table with
    onPacketPing := some (defaultOnPacketPing table now)
    onPacketChunkSize := some (defaultOnPacketChunkSize table)
    onPacketBytesRead := some defaultOnPacketBytesRead
    onPacketInvoke := some (defaultOnPacketInvoke table now) }
  { table with onPacket := some (defaultOnPacket table) }

theorem defaultPassive {table : MethodTable} (application : ApplicationPassive table) (now : Int) :
    Passive (rtmpProtoMethodTableInit table now) := by
  have steps : PassiveCallback (deliver (rtmpProtoMethodTableInit table now)) := fun pac =>
    stepIf (handOnPassive (by rintro _ ⟨⟩; exact chunkSizePassive table) pac) <|
    stepIf (handOnPassive application.invalid pac) <|
    stepIf (handOnPassive (by rintro _ ⟨⟩; exact bytesReadPassive) pac) <|
    stepIf (handOnPassive (by rintro _ ⟨⟩; exact pingPassive table now) pac) <|
    stepIf (handOnPassive (by rintro _ ⟨⟩; exact invokePassive application now) pac) <|
    stepIf (handOnPassive application.audio pac) <|
    stepIf (handOnPassive application.video pac) stepOk
  exact ⟨fun called => (steps _).kept called, fun proto pac => (steps pac).blind proto⟩

end Rushkit
