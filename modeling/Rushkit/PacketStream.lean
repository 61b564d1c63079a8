import Rushkit.MessageReader
import Rushkit.MessageWriter

/-! Packet streams between two connections. As long as the reader's loop test does
not overflow, every packet arrives and both tables keep agreeing. -/
namespace Rushkit
open Interleaving ReadBuffer

structure Sent where
  packet : Packet
  bytes : Bytes
  proto : RtmpProto

-- The connection while its reader is on the channel of the packet to be sent.
def facing (a : RtmpProto) (channelId : Int) : RtmpProto := { a with channelId }

-- Each packet goes into a buffer of its own, as in `rtmp_proto_send_packet`.
def sendAll : RtmpProto → List Packet → Res (List Sent)
  | _, [] => .ok []
  | a, pac :: rest => do
    let (_, a, pb) ← rtmpPacketWritePacket (facing a pac.channelId) (rtmpWbInit 1024) pac false
    let later ← sendAll a rest
    .ok (⟨pac, rtmpWbGetValue pb, a⟩ :: later)

structure Received where
  packet : Packet
  consumed : Nat
  proto : RtmpProto

def receiveAll : Nat → RtmpProto → ReadBuffer → Res (List Received × ReadBuffer)
  | 0, _, pb => .ok ([], pb)
  | n+1, b, pb => do
    let (pac, b, next) ← rtmpPacketGetPacket b pb
    let (later, last) ← receiveAll n (rtmpPacketReset b) next
    .ok (⟨pac, next.current - pb.current, rtmpPacketReset b⟩ :: later, last)

def Exchanged (slot : Fin 64) : Prop := slot.val = 2 ∨ slot.val = 3

structure Streamable (pac : Packet) : Prop where
  channel : ∃ slot : Fin 64, Exchanged slot ∧ pac.channelId = slot.val
  sendable : Sendable pac
  streamId : pac.channel.streamId = 0

structure Delivered (sent : Sent) (got : Received) : Prop where
  channelId : got.packet.channelId = sent.packet.channelId
  fields : ∀ f, got.packet.channel.field f = sent.packet.sized.field f
  data : got.packet.data = sent.packet.data
  consumed : got.consumed = sent.bytes.length
  tables : ∀ slot, Exchanged slot → ∀ f,
    (sent.proto.channelsOut slot).field f = (got.proto.channelsIn slot).field f

def StreamRoundTrip (a b : RtmpProto) (packets : List Packet) : Prop :=
  ∃ sent received last, sendAll a packets = .ok sent ∧ sent.map Sent.packet = packets ∧
    receiveAll packets.length b (rtmpRbInit (sent.map Sent.bytes).flatten) = .ok (received, last) ∧
    List.Forall₂ Delivered sent received ∧ last.unread = []

structure Synced (c : Nat) (a b : RtmpProto) : Prop where
  chunkOut : a.writeChunkSize = c
  chunkIn : b.readChunkSize = c
  between : b.state = 0
  usedOut : ∀ slot, Exchanged slot → (a.channelsOut slot).used = true
  usedIn : ∀ slot, Exchanged slot → (b.channelsIn slot).used = true
  records : ∀ slot, Exchanged slot → ∀ f,
    (a.channelsOut slot).field f = (b.channelsIn slot).field f
  streamId : ∀ slot, Exchanged slot → (a.channelsOut slot).streamId = 0

def sender (c : Nat) : RtmpProto := { rtmpProtoInit with writeChunkSize := c }
def receiver (c : Nat) : RtmpProto := { rtmpProtoInit with readChunkSize := c }

theorem exchangedInit {slot : Fin 64} (h : Exchanged slot) :
    rtmpProtoInit.channelsOut slot = initChannel ∧ rtmpProtoInit.channelsIn slot = initChannel := by
  have opened : slot.val < 4 := by
    rcases h with two | three <;> omega
  rw [channelsOutInit, channelsInInit]
  exact ⟨if_pos opened, if_pos opened⟩

theorem syncedInit (c : Nat) : Synced c (sender c) (receiver c) where
  chunkOut := rfl
  chunkIn := rfl
  between := rfl
  usedOut slot h := congrArg Channel.used (exchangedInit h).1
  usedIn slot h := congrArg Channel.used (exchangedInit h).2
  records slot h f := by
    show (rtmpProtoInit.channelsOut slot).field f = (rtmpProtoInit.channelsIn slot).field f
    rw [(exchangedInit h).1, (exchangedInit h).2]
  streamId slot h := congrArg Channel.streamId (exchangedInit h).1

theorem wireStreamZero : wireStream 0 = 0 := by decide

theorem exchangedForm {slot : Fin 64} (h : Exchanged slot) : 2 ≤ slot.val := by
  rcases h with two | three <;> omega

theorem exchangeRecords {c : Nat} {a b : RtmpProto} (synced : Synced c a b) {slot : Fin 64}
    (exchanged : Exchanged slot) {pac : Packet} (streamId : pac.channel.streamId = 0) (f : Field) :
    (sentChannel (chosenMask (a.channelsOut slot) pac.sized) (a.channelsOut slot) pac.sized).field f =
        pac.sized.field f ∧
    (sentChannel (chosenMask (a.channelsOut slot) pac.sized) (b.channelsIn slot)
      (onWire pac.sized)).field f = pac.sized.field f := by
  have mask := chosenMaskBound (a.channelsOut slot) pac.sized
  have same : Compressible (a.channelsOut slot) pac.sized :=
    .inr (.inl ((synced.streamId slot exchanged).trans streamId.symm))
  have opened := openedInUse (synced.usedOut slot exchanged)
  have wire : onWire pac.sized = pac.sized := by
    have zero : pac.sized.streamId = 0 := streamId
    rw [onWire, zero, wireStreamZero, ← zero]
  rw [wire, sentField mask, sentField mask, ← synced.records slot exchanged f]
  refine and_self_iff.mpr ?_
  split
  · rfl
  · rename_i omitted
    have known := omittedKnown same f (Bool.eq_false_of_not_eq_true omitted)
    rw [opened] at known
    exact known.symm

theorem setChannelInSlot (proto : RtmpProto) (slot : Fin 64) (channel : Channel) :
    (setChannelIn proto slot channel).channelsIn slot = channel := by
  unfold setChannelIn
  exact Function.update_self _ _ _

theorem setChannelInOther (proto : RtmpProto) {slot other : Fin 64} (channel : Channel)
    (different : other ≠ slot) :
    (setChannelIn proto slot channel).channelsIn other = proto.channelsIn other := by
  unfold setChannelIn
  exact Function.update_of_ne different _ _

theorem syncedStep {c : Nat} {a b : RtmpProto} (synced : Synced c a b) {slot : Fin 64}
    (exchanged : Exchanged slot) {pac : Packet} (streamId : pac.channel.streamId = 0) :
    Synced c (packetSent (facing a pac.channelId) slot pac)
      (setChannelIn (rtmpPacketReset b) slot
        (sentChannel (chosenMask (a.channelsOut slot) pac.sized) (b.channelsIn slot)
          (onWire pac.sized))) := by
  have records := exchangeRecords synced exchanged streamId
  have out := packetSentSlot (facing a pac.channelId) slot pac
  have into := setChannelInSlot (rtmpPacketReset b) slot
    (sentChannel (chosenMask (a.channelsOut slot) pac.sized) (b.channelsIn slot) (onWire pac.sized))
  have opened : openedChannel ((facing a pac.channelId).channelsOut slot) = a.channelsOut slot :=
    openedInUse (synced.usedOut slot exchanged)
  rw [opened] at out
  refine ⟨synced.chunkOut, synced.chunkIn, rfl, ?_, ?_, ?_, ?_⟩ <;> intro other h
  · rcases eq_or_ne other slot with rfl | different
    · rw [out, sentUsed]
      exact synced.usedOut _ exchanged
    · rw [packetSentOther _ pac different]
      exact synced.usedOut other h
  · rcases eq_or_ne other slot with rfl | different
    · rw [into, sentUsed]
      exact synced.usedIn _ exchanged
    · rw [setChannelInOther _ _ different]
      exact synced.usedIn other h
  · intro f
    rcases eq_or_ne other slot with rfl | different
    · rw [out, into]
      exact (records f).1.trans (records f).2.symm
    · rw [packetSentOther _ pac different, setChannelInOther _ _ different]
      exact synced.records other h f
  · rcases eq_or_ne other slot with rfl | different
    · rw [out]
      exact ((records .streamId).1).trans streamId
    · rw [packetSentOther _ pac different]
      exact synced.streamId other h

section Exchange
variable {c : Nat} (positive : 1 ≤ c) {a b : RtmpProto} (synced : Synced c a b) {pac : Packet}
  {slot : Fin 64} (exchanged : Exchanged slot) (named : pac.channelId = slot.val)
  (sendable : Sendable pac) (streamId : pac.channel.streamId = 0)
include positive synced exchanged named sendable streamId

theorem exchangeMessage : Message c b.channelsIn slot
    (sentChannel (chosenMask (a.channelsOut slot) pac.sized) (b.channelsIn slot) (onWire pac.sized))
    pac.data (packetBytes (facing a pac.channelId) slot pac false) := by
  have records := exchangeRecords synced exchanged streamId
  have message := packetBytesMessage (facing a pac.channelId) named (exchangedForm exchanged)
    (by rw [← synced.chunkOut] at positive; exact positive) sendable
    (synced.usedIn slot exchanged) rfl (records .size).2 (records .dataType).2 (records .timer).2
  rw [← synced.chunkOut]
  exact message

omit streamId in
theorem exchangeWritten : ∃ told pb,
    rtmpPacketWritePacket (facing a pac.channelId) (rtmpWbInit 1024) pac false =
      .ok (told, packetSent (facing a pac.channelId) slot pac, pb) ∧
    rtmpWbGetValue pb = packetBytes (facing a pac.channelId) slot pac false :=
  writePacketFresh (facing a pac.channelId) named named (exchangedForm exchanged)
    (by rw [← synced.chunkOut] at positive; exact positive) sendable.short false

theorem exchangeRead (fits : c + 1 < 2147483648) {pb : ReadBuffer} {rest : Bytes}
    (unread : pb.unread = packetBytes (facing a pac.channelId) slot pac false ++ rest) :
    ∃ b', rtmpPacketGetPacket b pb = .ok (⟨slot.val,
        sentChannel (chosenMask (a.channelsOut slot) pac.sized) (b.channelsIn slot) (onWire pac.sized),
        pac.data⟩, b', pb.skip (packetBytes (facing a pac.channelId) slot pac false).length) ∧
      rtmpPacketReset b' = setChannelIn (rtmpPacketReset b) slot
        (sentChannel (chosenMask (a.channelsOut slot) pac.sized) (b.channelsIn slot)
          (onWire pac.sized)) := by
  have message := exchangeMessage positive synced exchanged named sendable streamId
  rw [← synced.chunkIn] at message fits
  obtain ⟨_, _, _, _, _, read⟩ := getPacketMessage synced.between fits message unread
  exact ⟨_, read, rfl⟩

end Exchange

theorem consumedSkip (pb : ReadBuffer) {n : Nat} (enough : n ≤ pb.unread.length) :
    (pb.skip n).current - pb.current = n := by
  have inside := pb.inside
  have whole : pb.unread.length = pb.buf.length - pb.current := List.length_drop
  show min (pb.current + n) pb.buf.length - pb.current = n
  omega

theorem consumedAppend (pb : ReadBuffer) {s rest : Bytes} (unread : pb.unread = s ++ rest) :
    (pb.skip s.length).current - pb.current = s.length := by
  apply consumedSkip
  rw [unread, List.length_append]
  exact Nat.le_add_right _ _

theorem streamDelivered {c : Nat} (positive : 1 ≤ c) (fits : c + 1 < 2147483648)
    (packets : List Packet) (each : ∀ pac ∈ packets, Streamable pac) {a b : RtmpProto}
    (synced : Synced c a b) :
    ∃ sent, sendAll a packets = .ok sent ∧ sent.map Sent.packet = packets ∧
      ∀ (pb : ReadBuffer) (rest : Bytes), pb.unread = (sent.map Sent.bytes).flatten ++ rest →
        ∃ received last, receiveAll packets.length b pb = .ok (received, last) ∧
          List.Forall₂ Delivered sent received ∧ last.unread = rest := by
  induction packets generalizing a b with
  | nil => exact ⟨[], rfl, rfl, fun pb rest unread => ⟨[], pb, rfl, .nil, unread⟩⟩
  | cons pac packets ih =>
    obtain ⟨⟨slot, exchanged, named⟩, sendable, streamId⟩ := each pac List.mem_cons_self
    obtain ⟨told, pb, written, bytes⟩ := exchangeWritten positive synced exchanged named sendable
    have next := syncedStep synced exchanged streamId
    obtain ⟨sent, sending, same, receiving⟩ :=
      ih (fun other h => each other (List.mem_cons_of_mem pac h)) next
    refine ⟨⟨pac, rtmpWbGetValue pb, packetSent (facing a pac.channelId) slot pac⟩ :: sent, ?_, ?_, ?_⟩
    · simp only [sendAll, written, Fallible.okBind, sending]
    · rw [List.map_cons, same]
    · intro rb rest unread
      rw [List.map_cons, List.flatten_cons, bytes, List.append_assoc] at unread
      obtain ⟨b', read, reset⟩ :=
        exchangeRead positive synced exchanged named sendable streamId fits unread
      have left := unreadSkipAppend rb unread
      obtain ⟨received, last, later, delivered, done⟩ := receiving _ rest left
      have receives : receiveAll (pac :: packets).length b rb = .ok (⟨⟨slot.val,
          sentChannel (chosenMask (a.channelsOut slot) pac.sized) (b.channelsIn slot) (onWire pac.sized),
          pac.data⟩,
          (rb.skip (packetBytes (facing a pac.channelId) slot pac false).length).current - rb.current,
          setChannelIn (rtmpPacketReset b) slot (sentChannel
            (chosenMask (a.channelsOut slot) pac.sized) (b.channelsIn slot) (onWire pac.sized))⟩ ::
          received, last) := by
        simp only [List.length_cons, receiveAll, read, Fallible.okBind, reset, later]
      refine ⟨_, last, receives, .cons ⟨named.symm,
        fun f => (exchangeRecords synced exchanged streamId f).2, rfl, ?_,
        fun other h f => next.records other h f⟩ delivered, done⟩
      rw [bytes]
      exact consumedAppend rb unread

-- The loop test wraps, so the largest chunk size asks for a chunk that never fits.
theorem readChunksWide (fuel : Nat) (dataBuffer : FixBuffer)
    (small : rtmpFwbGetSpace dataBuffer < 2147483647) (pb : ReadBuffer) :
    ∃ e, readChunks 2147483647 1 (fuel+1) dataBuffer pb = .error e := by
  have space : -2147483648 ≤ rtmpFwbGetSpace dataBuffer := by
    have := dataBuffer.fits
    unfold rtmpFwbGetSpace
    omega
  have wrapped : int32 (((2147483647 : Nat) : Int) + 1) = -2147483648 := by decide
  rw [readChunks, wrapped, if_pos space]
  rcases Nat.lt_or_ge pb.unread.length 2147483647 with few | enough
  · rw [readEShort pb (by omega), Fallible.errorBind]
    exact ⟨_, rfl⟩
  · rw [readESkip pb 2147483647 enough, Fallible.okBind]
    dsimp only
    rw [fwbWriteFull _ _ (by rw [List.length_take]; omega), Fallible.errorBind]
    exact ⟨_, rfl⟩

theorem getPacketWide {proto : RtmpProto} (fresh : proto.state = 0)
    (wide : proto.readChunkSize = 2147483647) {slot : Fin 64} {channel : Channel}
    {data wire rest : Bytes} (typed : 0 < channel.dataType)
    (message : Message proto.readChunkSize proto.channelsIn slot channel data wire)
    {pb : ReadBuffer} (unread : pb.unread = wire ++ rest) :
    ∃ e, rtmpPacketGetPacket proto pb = .error e := by
  cases message with
  | @mk head _ _ opened payload =>
    rw [List.append_assoc] at unread
    obtain ⟨used, fields, record, loop⟩ := loopOpened fresh opened unread
    have small : channel.size < maxPacketSize := by
      cases opened with
      | mk header small width => exact small
    have step := stepTyped proto slot used (headMask pb.unread) typed (rtmpFwbReset channel.size)
      (pb.skip head.length)
    obtain ⟨e, fails⟩ := readChunksWide pb.buf.length (rtmpFwbReset channel.size) (by
      rw [fwbResetSpace]
      unfold maxPacketSize at small
      omega) (pb.skip head.length)
    rw [wide] at step
    refine ⟨e, ?_⟩
    rw [loop, loopFault (step.trans ?_)]
    show (readChunks 2147483647 1 (pb.buf.length + 1) _ _ >>= _) >>= _ = _
    rw [fails, Fallible.errorBind, Fallible.errorBind]

theorem streamWide {pac : Packet} (streamable : Streamable pac) (packets : List Packet) :
    ¬ StreamRoundTrip (sender 2147483647) (receiver 2147483647) (pac :: packets) := by
  rintro ⟨sent, received, last, sending, same, receiving, delivered, done⟩
  obtain ⟨⟨slot, exchanged, named⟩, sendable, streamId⟩ := streamable
  have synced := syncedInit 2147483647
  have positive : 1 ≤ 2147483647 := Nat.le_add_left 1 _
  obtain ⟨told, pb, written, bytes⟩ := exchangeWritten positive synced exchanged named sendable
  have message := exchangeMessage positive synced exchanged named sendable streamId
  have records := exchangeRecords synced exchanged streamId
  have typed : 0 < pac.sized.field .dataType := by
    have := sendable.typeLow
    show 0 < pac.channel.dataType
    omega
  rw [← (records .dataType).2] at typed
  simp only [sendAll, written, Fallible.okBind, Fallible.bindOk] at sending
  obtain ⟨later, _, whole⟩ := sending
  cases Except.ok.inj whole
  simp only [List.map_cons, List.flatten_cons, bytes, List.length_cons, receiveAll,
    Fallible.bindOk] at receiving
  obtain ⟨⟨pac', b', next⟩, read, _⟩ := receiving
  obtain ⟨e, fails⟩ := getPacketWide synced.between rfl typed message (unreadInit _)
  rw [fails] at read
  contradiction

theorem packetStream {c : Nat} (positive : 1 ≤ c) (int : c < 2147483648) {packets : List Packet}
    (each : ∀ pac ∈ packets, Streamable pac) :
    StreamRoundTrip (sender c) (receiver c) packets ↔ c + 1 < 2147483648 ∨ packets = [] := by
  constructor
  · intro trip
    rcases Nat.lt_or_ge (c + 1) 2147483648 with fits | wide
    · exact .inl fits
    · have largest : c = 2147483647 := by omega
      subst largest
      cases packets with
      | nil => exact .inr rfl
      | cons pac packets => exact absurd trip (streamWide (each pac List.mem_cons_self) packets)
  · rintro (fits | rfl)
    · obtain ⟨sent, sending, same, receiving⟩ := streamDelivered positive fits packets each (syncedInit c)
      obtain ⟨received, last, receives, delivered, done⟩ := receiving
        (rtmpRbInit (sent.map Sent.bytes).flatten) [] (by rw [unreadInit, List.append_nil])
      exact ⟨sent, received, last, sending, same, receives, delivered, done⟩
    · exact ⟨[], [], rtmpRbInit [], rfl, rfl, rfl, .nil, rfl⟩

def pingPacket : Packet := ⟨2, { initChannel with dataType := pacPing, timer := 7 }, [1, 2, 3]⟩

theorem pingStreamable : Streamable pingPacket where
  channel := ⟨2, .inl rfl, rfl⟩
  sendable := ⟨by decide, by decide, by decide, by decide, by decide⟩
  streamId := rfl

theorem packetStreamPings : StreamRoundTrip (sender 2) (receiver 2) [pingPacket, pingPacket] :=
  (packetStream (by decide) (by decide) (by simp [pingStreamable])).mpr (.inl (by decide))

theorem largestChunkFails :
    ¬ StreamRoundTrip (sender 2147483647) (receiver 2147483647) [pingPacket] :=
  streamWide pingStreamable []

end Rushkit
