import Rushkit.PacketStream

/-! The stream id of a CHANNEL_NEW header. The writer stores it low byte first and
the reader takes the first byte as the highest. -/
namespace Rushkit
open Interleaving ReadBuffer

/- `Inherits slot b got`: from `b` on, `got` is read on the channel, and no header on
that channel up to it carries a stream id. -/
inductive Inherits (slot : Fin 64) : RtmpProto → Packet → Prop where
  | now {b b' : RtmpProto} {pb pb' : ReadBuffer} {got : Packet}
      (read : rtmpPacketGetPacket b pb = .ok (got, b', pb')) (here : got.channelId = slot.val)
      (omits : b'.packetMask ≠ channelNew) : Inherits slot b got
  | after {b b' : RtmpProto} {pb pb' : ReadBuffer} {pac got : Packet}
      (read : rtmpPacketGetPacket b pb = .ok (pac, b', pb'))
      (omits : pac.channelId = slot.val → b'.packetMask ≠ channelNew)
      (later : Inherits slot (rtmpPacketReset b') got) : Inherits slot b got

theorem omittedStream {packetMask : Nat} (omits : packetMask ≠ channelNew) (pchannel : Channel)
    (fields : Bytes) : (receivedChannel packetMask pchannel fields).streamId = pchannel.streamId := by
  unfold receivedChannel
  rw [if_neg omits]
  split
  · rfl
  · split <;> rfl

theorem inheritsStream {slot : Fin 64} {b : RtmpProto} {got : Packet} (h : Inherits slot b got)
    (fresh : b.state = 0) (positive : 1 ≤ b.readChunkSize) (fits : b.readChunkSize + 1 < 2147483648) :
    got.channel.streamId = (b.channelsIn slot).streamId := by
  induction h with
  | @now b b' pb pb' got read here omits =>
    obtain ⟨state, packetMask, other, fields, channel, dataBuffer, rfl, record, _, named, same, _⟩ :=
      getPacketOk fresh positive fits read
    have equal : other = slot := Fin.ext (by omega)
    subst equal
    have kept : channel.streamId = (b.channelsIn other).streamId := by
      rw [record]
      exact omittedStream omits _ fields
    rcases same with same | same <;> rw [same] <;> exact kept
  | @after b b' pb pb' pac got read omits later ih =>
    obtain ⟨state, packetMask, other, fields, channel, dataBuffer, rfl, record, _, named, _⟩ :=
      getPacketOk fresh positive fits read
    have next := ih rfl positive fits
    have stored : (rtmpPacketReset (received b other channel state packetMask dataBuffer)).channelsIn =
        (setChannelIn b other channel).channelsIn := rfl
    rw [next, stored]
    rcases eq_or_ne slot other with rfl | different
    · rw [setChannelInSlot, record]
      exact omittedStream (omits named) _ fields
    · rw [setChannelInOther b channel different]

-- The peer sees the id that was sent, on this packet and on every one that omits it.
def StreamIdSurvives (a b : RtmpProto) (slot : Fin 64) (pac : Packet) : Prop :=
  ∃ told a' wb, rtmpPacketWritePacket a (rtmpWbInit 1024) pac false = .ok (told, a', wb) ∧
    ∀ (pb : ReadBuffer) (rest : Bytes), pb.unread = rtmpWbGetValue wb ++ rest →
      ∃ got b' pb', rtmpPacketGetPacket b pb = .ok (got, b', pb') ∧
        got.channel.streamId = pac.channel.streamId ∧
        (b'.channelsIn slot).streamId = pac.channel.streamId ∧
        ∀ later, Inherits slot (rtmpPacketReset b') later →
          later.channel.streamId = pac.channel.streamId

theorem wireStreamSame {streamId : Int} (low : -2147483648 ≤ streamId) (high : streamId < 2147483648) :
    wireStream streamId = streamId ↔
      (hostBytes 4 (BitVec.ofInt 32 streamId)).reverse = hostBytes 4 (BitVec.ofInt 32 streamId) := by
  have back : (BitVec.ofInt 32 streamId).toInt = streamId := longValue low high
  have exact : 256 ^ 4 = 2 ^ 32 := by decide
  rw [hostBytesEncode, ← ByteOrder.decodeReversedBits 4 exact]
  constructor
  · intro h
    apply BitVec.eq_of_toInt_eq
    rw [back]
    exact h
  · intro h
    have := congrArg BitVec.toInt h
    rw [back] at this
    exact this

structure Paired (a b : RtmpProto) (slot : Fin 64) : Prop where
  current : a.channelId = slot.val
  chunks : a.writeChunkSize = b.readChunkSize
  positive : 1 ≤ b.readChunkSize
  fits : b.readChunkSize + 1 < 2147483648
  between : b.state = 0
  used : (b.channelsIn slot).used = true

theorem newHeaderRead {a b : RtmpProto} {slot : Fin 64} (paired : Paired a b slot)
    (exchanged : Exchanged slot) {pac : Packet} (sendable : Sendable pac)
    (opens : chosenMask (a.channelsOut slot) pac.sized = channelNew) {pb : ReadBuffer} {rest : Bytes}
    (unread : pb.unread = packetBytes a slot pac false ++ rest) :
    ∃ packetMask dataBuffer, rtmpPacketGetPacket b pb =
      .ok (⟨slot.val, sentChannel channelNew (b.channelsIn slot) (onWire pac.sized), pac.data⟩,
        received b slot (sentChannel channelNew (b.channelsIn slot) (onWire pac.sized)) 6 packetMask
          dataBuffer, pb.skip (packetBytes a slot pac false).length) := by
  have positive : 1 ≤ a.writeChunkSize := by
    rw [paired.chunks]
    exact paired.positive
  have message := packetBytesMessage a paired.current (exchangedForm exchanged) positive sendable
    paired.used rfl (by rw [opens]; rfl) (by rw [opens]; rfl) (by rw [opens]; rfl)
  rw [opens, paired.chunks] at message
  obtain ⟨fields, dataBuffer, record, _, _, read⟩ :=
    getPacketMessage paired.between paired.fits message unread
  exact ⟨_, dataBuffer, read⟩

theorem survivesWire {a b : RtmpProto} {slot : Fin 64} (paired : Paired a b slot)
    (exchanged : Exchanged slot) {pac : Packet} (named : pac.channelId = slot.val)
    (sendable : Sendable pac) (opens : chosenMask (a.channelsOut slot) pac.sized = channelNew) :
    StreamIdSurvives a b slot pac ↔ wireStream pac.channel.streamId = pac.channel.streamId := by
  have positive : 1 ≤ a.writeChunkSize := by
    rw [paired.chunks]
    exact paired.positive
  obtain ⟨told, wb, written, bytes⟩ := writePacketFresh a named paired.current
    (exchangedForm exchanged) positive sendable.short false
  have stream : (sentChannel channelNew (b.channelsIn slot) (onWire pac.sized)).streamId =
      wireStream pac.channel.streamId := rfl
  constructor
  · rintro ⟨told', a', wb', written', reads⟩
    rw [written] at written'
    cases Except.ok.inj written'
    rw [bytes] at reads
    have unread := List.append_nil (packetBytes a slot pac false)
    obtain ⟨got, b', pb', read, same, _⟩ := reads (rtmpRbInit (packetBytes a slot pac false)) [] unread.symm
    obtain ⟨packetMask, dataBuffer, read'⟩ :=
      newHeaderRead paired exchanged sendable opens ((unreadInit _).trans unread.symm)
    rw [read] at read'
    cases Except.ok.inj read'
    rw [← stream]
    exact same
  · intro same
    refine ⟨told, _, wb, written, fun pb rest unread => ?_⟩
    rw [bytes] at unread
    obtain ⟨packetMask, dataBuffer, read⟩ := newHeaderRead paired exchanged sendable opens unread
    have stored : ((received b slot (sentChannel channelNew (b.channelsIn slot) (onWire pac.sized)) 6
        packetMask dataBuffer).channelsIn slot).streamId = pac.channel.streamId := by
      refine Eq.trans ?_ same
      rw [← stream]
      exact congrArg Channel.streamId (channelParsingOn b slot _ 6 packetMask)
    refine ⟨_, _, _, read, stream.trans same, stored, fun later inherits => ?_⟩
    rw [inheritsStream inherits rfl paired.positive paired.fits]
    exact stored

theorem streamIdSurvives {a b : RtmpProto} {slot : Fin 64} (paired : Paired a b slot)
    (exchanged : Exchanged slot) {pac : Packet} (named : pac.channelId = slot.val)
    (sendable : Sendable pac) (opens : chosenMask (a.channelsOut slot) pac.sized = channelNew)
    (low : -2147483648 ≤ pac.channel.streamId) (high : pac.channel.streamId < 2147483648) :
    StreamIdSurvives a b slot pac ↔
      (hostBytes 4 (BitVec.ofInt 32 pac.channel.streamId)).reverse =
        hostBytes 4 (BitVec.ofInt 32 pac.channel.streamId) := by
  rw [← wireStreamSame low high]
  exact survivesWire paired exchanged named sendable opens

def streamPacket (streamId : Int) : Packet :=
  ⟨3, { initChannel with dataType := pacInvoke, streamId }, [1, 2]⟩

theorem pairedInit : Paired onChannelThree rtmpProtoInit 3 where
  current := rfl
  chunks := rfl
  positive := by decide
  fits := by decide
  between := rfl
  used := by decide

theorem streamSendable (streamId : Int) : Sendable (streamPacket streamId) where
  timerLow := Int.le_refl 0
  timerHigh := by show (0 : Int) ≤ _; decide
  typeLow := by show (1 : Int) ≤ 20; decide
  typeHigh := by show (20 : Int) ≤ 255; decide
  short := by show 2 ≤ 32767; decide

theorem streamIdPalindrome : StreamIdSurvives onChannelThree rtmpProtoInit 3 (streamPacket 0x1010101) :=
  (streamIdSurvives pairedInit (.inr rfl) rfl (streamSendable _) (by decide) (by decide)
    (by decide)).mpr (by decide)

-- Stream 1 leaves as 01 00 00 00 and is read as 16777216.
theorem streamOneSwapped : chosenMask (onChannelThree.channelsOut 3) (streamPacket 1).sized = channelNew ∧
    ¬ StreamIdSurvives onChannelThree rtmpProtoInit 3 (streamPacket 1) := by
  have opens : chosenMask (onChannelThree.channelsOut 3) (streamPacket 1).sized = channelNew := by decide
  refine ⟨opens, fun survives => ?_⟩
  have same := (survivesWire pairedInit (.inr rfl) rfl (streamSendable 1) opens).mp survives
  revert same
  decide

end Rushkit
