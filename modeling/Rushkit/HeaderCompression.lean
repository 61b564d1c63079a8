import Rushkit.PacketWrite
import Rushkit.Library.LastWrite

/-! What the writer leaves out of a header. Its record of a channel always holds the
values transmitted last, but a header type that is too short can be chosen. -/
namespace Rushkit
open LastWrite

inductive Field where
  | timer | size | dataType | streamId
  deriving DecidableEq, Repr

def Channel.field (channel : Channel) : Field → Int
  | .timer => channel.timer
  | .size => channel.size
  | .dataType => channel.dataType
  | .streamId => channel.streamId

def transmits (packetMask : Nat) : Field → Bool
  | .timer => decide (packetMask ≤ channelTimerChange)
  | .size | .dataType => decide (packetMask ≤ channelSameSource)
  | .streamId => decide (packetMask ≤ channelNew)

def transmission (proto : RtmpProto) (slot : Fin 64) (pac : Packet) : Write (Fin 64) Field Int :=
  ⟨slot, transmits (chosenMask (proto.channelsOut slot) pac.sized), pac.sized.field⟩

/- The writer states with the transmissions that led to them. Between two calls
anything but the writer's records may change. -/
inductive WriterRun : RtmpProto → List (Write (Fin 64) Field Int) → Prop where
  | init : WriterRun rtmpProtoInit []
  | elsewhere {proto proto' : RtmpProto} {history} (run : WriterRun proto history)
      (same : proto'.channelsOut = proto.channelsOut) : WriterRun proto' history
  | sent {proto proto' : RtmpProto} {history} {pb pb' : WriteBuffer UInt8} {pac : Packet}
      {slot : Fin 64} {told : Int} (run : WriterRun proto history) (named : pac.channelId = slot.val)
      (ok : rtmpPacketWritePacket proto pb pac false = .ok (told, proto', pb')) :
      WriterRun proto' (transmission proto slot pac :: history)

def remembered (proto : RtmpProto) (slot : Fin 64) : Field → Int :=
  (openedChannel (proto.channelsOut slot)).field

theorem sentField {packetMask : Nat} (mask : packetMask ≤ 3) (pchannel channel : Channel) (f : Field) :
    (sentChannel packetMask pchannel channel).field f =
      if transmits packetMask f = true then channel.field f else pchannel.field f := by
  match packetMask, mask with
  | 0, _ => cases f <;> rfl
  | 1, _ => cases f <;> rfl
  | 2, _ => cases f <;> rfl
  | 3, _ => cases f <;> rfl

theorem openedUsed (pchannel : Channel) : (openedChannel pchannel).used = true := by
  unfold openedChannel
  split
  · rfl
  · rename_i used
    exact Bool.eq_true_of_not_eq_false used

theorem openedInUse {pchannel : Channel} (used : pchannel.used = true) :
    openedChannel pchannel = pchannel := by
  rw [openedChannel, if_neg (by rw [used]; exact Bool.noConfusion)]

theorem sentUsed (packetMask : Nat) (pchannel channel : Channel) :
    (sentChannel packetMask pchannel channel).used = pchannel.used := by
  unfold sentChannel
  split
  · rfl
  · split
    · rfl
    · split <;> rfl

theorem packetSentSlot (proto : RtmpProto) (slot : Fin 64) (pac : Packet) :
    (packetSent proto slot pac).channelsOut slot =
      sentChannel (chosenMask (proto.channelsOut slot) pac.sized)
        (openedChannel (proto.channelsOut slot)) pac.sized := by
  unfold packetSent
  exact Function.update_self _ _ _

theorem packetSentOther (proto : RtmpProto) {slot other : Fin 64} (pac : Packet)
    (different : other ≠ slot) :
    (packetSent proto slot pac).channelsOut other = proto.channelsOut other := by
  unfold packetSent
  exact Function.update_of_ne different _ _

theorem sentRemembered (proto : RtmpProto) (slot : Fin 64) (pac : Packet) (f : Field) :
    ((packetSent proto slot pac).channelsOut slot).field f =
      if transmits (chosenMask (proto.channelsOut slot) pac.sized) f = true then pac.sized.field f
      else remembered proto slot f := by
  rw [packetSentSlot, sentField (chosenMaskBound _ _)]
  rfl

theorem runRemembers {proto : RtmpProto} {history} (run : WriterRun proto history) :
    Remembers 0 (remembered proto) history := by
  induction run with
  | init =>
    intro slot f
    have zero : openedChannel (rtmpProtoInit.channelsOut slot) = initChannel := by
      rw [channelsOutInit, channelsInInit]
      dsimp only
      split <;> rfl
    rw [remembered, zero]
    cases f <;> rfl
  | elsewhere run same ih =>
    intro slot f
    rw [remembered, same]
    exact ih slot f
  | @sent proto proto' history pb pb' pac slot told run named ok ih =>
    cases writePacketSent named ok
    refine remembersWrite ih (transmission proto slot pac) (fun f => ?_) (fun other different => ?_)
    · show (openedChannel ((packetSent proto slot pac).channelsOut slot)).field f = _
      have used : ((packetSent proto slot pac).channelsOut slot).used = true := by
        rw [packetSentSlot, sentUsed, openedUsed]
      rw [openedInUse used, sentRemembered]
      rfl
    · show (openedChannel ((packetSent proto slot pac).channelsOut other)).field = _
      have apart : other ≠ slot := different
      rw [packetSentOther proto pac apart]
      rfl

-- The stream id is compared on its own, type and size together.
def Compressible (pchannel channel : Channel) : Prop :=
  pchannel.used = false ∨ pchannel.streamId = channel.streamId ∨
    ¬ (pchannel.dataType = channel.dataType ∧ pchannel.size = channel.size)

theorem omittedCompared {pchannel channel : Channel} {f : Field} (other : f ≠ .streamId)
    (omitted : transmits (chosenMask pchannel channel) f = false) :
    channel.field f = (openedChannel pchannel).field f := by
  cases used : pchannel.used with
  | false =>
    rw [chosenMask, if_pos used] at omitted
    cases f <;> contradiction
  | true =>
    rw [openedInUse used]
    rw [chosenMask, if_neg (by rw [used]; exact Bool.noConfusion)] at omitted
    by_cases both : pchannel.dataType = channel.dataType ∧ pchannel.size = channel.size
    · cases f with
      | size => exact both.2.symm
      | dataType => exact both.1.symm
      | streamId => contradiction
      | timer =>
        by_contra timer
        have apart : ¬ pchannel.timer = channel.timer := fun same => timer same.symm
        rw [if_pos both, if_neg apart] at omitted
        split at omitted <;> contradiction
    · rw [if_neg both] at omitted
      split at omitted <;> cases f <;> contradiction

theorem omittedKnown {pchannel channel : Channel} (h : Compressible pchannel channel) (f : Field)
    (omitted : transmits (chosenMask pchannel channel) f = false) :
    channel.field f = (openedChannel pchannel).field f := by
  rcases eq_or_ne f .streamId with rfl | other
  case inr => exact omittedCompared other omitted
  unfold chosenMask at omitted
  split at omitted
  · contradiction
  · rename_i used
    rw [openedInUse (Bool.eq_true_of_not_eq_false used)]
    split at omitted
    · rename_i stream
      exact stream.symm
    · rename_i stream
      rcases h with unused | same | differ
      · exact absurd unused used
      · exact absurd same stream
      · rw [if_neg differ] at omitted
        contradiction

theorem streamDropped {pchannel channel : Channel} (h : ¬ Compressible pchannel channel) :
    transmits (chosenMask pchannel channel) .streamId = false ∧
      channel.streamId ≠ (openedChannel pchannel).streamId := by
  unfold Compressible at h
  push Not at h
  obtain ⟨used, stream, both⟩ := h
  have inUse : pchannel.used = true := Bool.eq_true_of_not_eq_false used
  rw [openedInUse inUse, chosenMask, if_neg used, if_neg stream, if_pos both]
  refine ⟨?_, stream.symm⟩
  split <;> rfl

-- Only what the peer has been told already is left out, and the record follows the packet.
def CompressionSound (proto : RtmpProto) (history : List (Write (Fin 64) Field Int)) (slot : Fin 64)
    (pac : Packet) : Prop :=
  (∀ f, transmits (chosenMask (proto.channelsOut slot) pac.sized) f = false →
    pac.sized.field f = last 0 slot f history) ∧
  ∀ pb told proto' pb', rtmpPacketWritePacket proto pb pac false = .ok (told, proto', pb') →
    ∀ f, (proto'.channelsOut slot).field f = pac.sized.field f

theorem headerCompression {proto : RtmpProto} {history} (run : WriterRun proto history) {pac : Packet}
    {slot : Fin 64} (named : pac.channelId = slot.val) :
    CompressionSound proto history slot pac ↔ Compressible (proto.channelsOut slot) pac.sized := by
  have records := runRemembers run
  constructor
  · intro sound
    by_contra h
    obtain ⟨omitted, differs⟩ := streamDropped h
    have told := sound.1 .streamId omitted
    rw [← records slot .streamId] at told
    exact differs told
  · intro h
    refine ⟨fun f omitted => ?_, fun pb told proto' pb' ok f => ?_⟩
    · rw [← records slot f]
      exact omittedKnown h f omitted
    · cases writePacketSent named ok
      rw [sentRemembered]
      split
      · rfl
      · rename_i omitted
        exact (omittedKnown h f (Bool.eq_false_of_not_eq_true omitted)).symm

def invokeOnStream (streamId : Int) : Packet :=
  ⟨3, { initChannel with dataType := pacInvoke, streamId }, [0]⟩

theorem headerCompressionFirst : CompressionSound rtmpProtoInit [] 3 (invokeOnStream 0) :=
  (headerCompression .init rfl).mpr (.inr (.inl (by decide)))

def onChannelThree : RtmpProto := { rtmpProtoInit with channelId := 3 }

theorem firstInvokeSent : WriterRun (packetSent onChannelThree 3 (invokeOnStream 0))
    [transmission onChannelThree 3 (invokeOnStream 0)] := by
  obtain ⟨write, same, writes⟩ := writesPacket onChannelThree (invokeOnStream 0) false 3 rfl
    (by decide) (by decide)
  obtain ⟨pb, ok, _⟩ := writes.room (rtmpWbInit 1024) [] (holdsInit (by decide)) (by decide)
  have sent : rtmpPacketWritePacket onChannelThree (rtmpWbInit 1024) (invokeOnStream 0) false =
      .ok (rtmpWbTell pb, packetSent onChannelThree 3 (invokeOnStream 0), pb) := by
    rw [same, ok, Fallible.okBind]
  exact .sent (.elsewhere .init rfl) rfl sent

-- The second packet differs in its stream only, so its header carries just the timer.
theorem alternatingStreamDropped :
    WriterRun (packetSent onChannelThree 3 (invokeOnStream 0))
      [transmission onChannelThree 3 (invokeOnStream 0)] ∧
    ¬ CompressionSound (packetSent onChannelThree 3 (invokeOnStream 0))
      [transmission onChannelThree 3 (invokeOnStream 0)] 3 (invokeOnStream 1) := by
  refine ⟨firstInvokeSent, fun sound => ?_⟩
  have same := sound.1 .streamId (by decide)
  revert same
  decide

end Rushkit
