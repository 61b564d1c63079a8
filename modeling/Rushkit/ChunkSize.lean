import Rushkit.Callbacks
import Rushkit.InboundMessage
import Rushkit.PacketStream

/-! A chunk size announced by the peer. The default callback exchanges the block for
saved bytes only, so the reader goes on cutting payloads where it always did. -/
namespace Rushkit
open Interleaving ReadBuffer

theorem announcedSettled {table : MethodTable} {before inside after : RtmpProto} {pac : Packet}
    {pb pb' : ReadBuffer} (settled : Settled before) (phase : before.pkgSt = 3)
    (read : rtmpPacketGetPacket before pb = .ok (pac, inside, pb'))
    (handled : defaultOnPacketChunkSize table inside pac = .ok after) :
    Settled (rtmpPacketReset after) ∧ pb'.needMore = pb.needMore := by
  let only := { bareTable with onPacket := some (defaultOnPacketChunkSize table) }
  have leaves : LeavesReader only := fun called => (chunkSizePassive table _).kept called
  have step : feedPacket only before pb = .ok (rtmpPacketReset after, pac, pb') := by
    have called : deliver only inside pac = .ok after := handled
    simp only [feedPacket, read, Fallible.okBind, called]
  exact settledRound settled leaves (.packet pac phase step)

theorem unpackIntAppend {data : Bytes} {n : Int} (read : unpackInt data = .ok n) (behind : Bytes) :
    unpackInt (data ++ behind) = .ok n := by
  unfold unpackInt at read ⊢
  split at read
  · rename_i four
    rw [if_pos (by rw [List.length_append]; omega), List.take_append_of_le_length four]
    exact read
  · contradiction

theorem announcementHandled (table : MethodTable) (inside : RtmpProto) (pac : Packet) {n : Int}
    (announced : unpackInt pac.data = .ok n) :
    ∃ after, defaultOnPacketChunkSize table inside pac = .ok after ∧ ReaderKept inside after := by
  have handled : ∃ after, defaultOnPacketChunkSize table inside pac = .ok after := by
    simp only [defaultOnPacketChunkSize, unpackIntAppend announced, Fallible.okBind]
    split <;> exact ⟨_, rfl⟩
  obtain ⟨after, handled⟩ := handled
  exact ⟨after, handled, (chunkSizePassive table pac).kept handled⟩

-- The payload as a peer with this `write_chunk_size` puts it behind a header.
def cutPayload (peer : RtmpProto) (chunkSize : Nat) (data : Bytes) : Bytes :=
  chunkBytes { peer with writeChunkSize := chunkSize } (data.length + 1) data

def continuationByte (peer : RtmpProto) : UInt8 := UInt8.ofInt (channelContinue * 64 + peer.channelId)

theorem cutPayloadLayout {peer : RtmpProto} (short : peer.channelId < 64) {c : Nat}
    (positive : 1 ≤ c) (data : Bytes) :
    ∃ n, Layout c data (List.replicate n (continuationByte peer)) (cutPayload peer c data) :=
  chunkBytesLayout { peer with writeChunkSize := c } short positive _ data (Nat.lt_succ_self _)

theorem cutPayloadSame {peer : RtmpProto} (short : peer.channelId < 64) {c c' : Nat}
    (positive : 1 ≤ c) (positive' : 1 ≤ c') {data seps : Bytes}
    (layout : Layout c' data seps (cutPayload peer c data)) :
    cutPayload peer c data = cutPayload peer c' data := by
  obtain ⟨n, sent⟩ := cutPayloadLayout short positive data
  obtain ⟨n', wanted⟩ := cutPayloadLayout short positive' data
  have marks := layoutForced sent layout
  have count : n = n' := by
    have here := layoutSeps positive' layout
    have there := layoutSeps positive' wanted
    rw [marks, List.length_replicate] at here
    rw [List.length_replicate] at there
    omega
  rw [marks, count] at layout
  exact layoutUnique layout wanted

theorem skipInjective (pb : ReadBuffer) {m n : Nat} (enough : m ≤ pb.unread.length)
    (enough' : n ≤ pb.unread.length) (same : pb.skip m = pb.skip n) : m = n := by
  rw [← consumedSkip pb enough, ← consumedSkip pb enough', same]

section Later
variable {proto : RtmpProto} (settled : Settled proto) {slot : Fin 64} {channel : Channel}
  {head data : Bytes} (opened : Opened proto.channelsIn slot channel head)
  (typed : 1 ≤ channel.dataType) (size : channel.size = data.length)
include settled opened typed size

omit size in
theorem deliveredLayout {body rest : Bytes} {pb : ReadBuffer}
    (unread : pb.unread = head ++ body ++ rest)
    (delivers : DeliversMessage proto pb slot channel data (head ++ body).length) :
    ∃ seps, Layout 128 data seps body := by
  have chunk := settled.readChunkSize
  obtain ⟨proto', read, _⟩ := delivers
  rw [List.append_assoc] at unread
  rcases Nat.lt_or_ge (body ++ rest).length (wireLength proto.readChunkSize channel.size.toNat) with
    short | enough
  · have rejected : Rejected proto.readChunkSize proto.channelsIn (head ++ (body ++ rest)) :=
      .truncated _ opened (by omega) short
    obtain ⟨e, fails, _⟩ := getPacketRejected settled.state (by omega) (by omega) rejected unread
    rw [fails] at read
    cases read
  · obtain ⟨data', seps, wire, rest', split, same, layout⟩ := layoutRead (by omega) _ _ enough
    rw [split, ← List.append_assoc] at unread
    obtain ⟨_, _, _, _, _, read'⟩ := getPacketMessage settled.state (by omega)
      (.mk opened (.chunked (by omega) same layout)) unread
    rw [read] at read'
    have results := Except.ok.inj read'
    have payload : data = data' := congrArg (fun r => r.1.data) results
    have place : pb.skip (head ++ body).length = pb.skip (head ++ wire).length :=
      congrArg (fun r => r.2.2) results
    have total := congrArg List.length unread
    have parts := congrArg List.length split
    simp only [List.length_append] at total parts
    have lengths := skipInjective pb (by rw [List.length_append]; omega)
      (by rw [List.length_append]; omega) place
    simp only [List.length_append] at lengths
    obtain ⟨rfl, _⟩ := List.append_inj split (by omega)
    rw [← payload, chunk] at layout
    exact ⟨seps, layout⟩

theorem layoutDelivered {seps body rest : Bytes} (layout : Layout 128 data seps body) {pb : ReadBuffer}
    (unread : pb.unread = head ++ body ++ rest) :
    DeliversMessage proto pb slot channel data (head ++ body).length := by
  have chunk := settled.readChunkSize
  rw [← chunk] at layout
  exact messageDelivers settled.state (by omega)
    (.mk opened (.chunked (by omega) (by omega) layout)) unread

end Later

theorem announcedChunkSize {table : MethodTable} (leaves : LeavesReader table)
    {before inside after proto : RtmpProto} {pac : Packet} {pb₀ pb₁ pb₂ pb : ReadBuffer} {n : Int}
    (reached : Run table rtmpProtoInit (rtmpRbInit []) before pb₀) (phase : before.pkgSt = 3)
    (read : rtmpPacketGetPacket before pb₀ = .ok (pac, inside, pb₁))
    (_announced : unpackInt pac.data = .ok n) (positive : 1 ≤ n)
    (handled : defaultOnPacketChunkSize table inside pac = .ok after)
    (later : Run table (rtmpPacketReset after) pb₁ proto pb₂) {slot : Fin 64}
    {channel : Channel} {head data rest : Bytes}
    (opened : Opened proto.channelsIn slot channel head) (typed : 1 ≤ channel.dataType)
    (size : channel.size = data.length) {peer : RtmpProto} (facing : peer.channelId = slot.val)
    (unread : pb.unread = head ++ cutPayload peer n.toNat data ++ rest) :
    DeliversMessage proto pb slot channel data (head ++ cutPayload peer n.toNat data).length ↔
      cutPayload peer n.toNat data = cutPayload peer 128 data := by
  obtain ⟨ready, needs⟩ := settledRun leaves reached settledInit rfl
  obtain ⟨announcedReady, same⟩ := announcedSettled ready phase read handled
  have settled := (settledRun leaves later announcedReady (same.trans needs)).1
  have short : peer.channelId < 64 := by
    have := slot.isLt
    omega
  constructor
  · intro delivers
    obtain ⟨seps, layout⟩ := deliveredLayout settled opened typed unread delivers
    exact cutPayloadSame short (by omega) (by decide) layout
  · intro same
    obtain ⟨marks, layout⟩ := cutPayloadLayout short (c := 128) (by decide) data
    rw [← same] at layout
    exact layoutDelivered settled opened typed size layout unread

-- A first message of the peer: type 1 on channel 2, with a payload of four bytes.
def announcement (data : Bytes) : Bytes := [2, 0, 0, 0, 0, 0, 4, 1, 0, 0, 0, 0] ++ data

theorem announcementRead {before : RtmpProto} (settled : Settled before)
    (channels : before.channelsIn = rtmpProtoInit.channelsIn) (data : Bytes) (four : data.length = 4) :
    ∃ packetMask dataBuffer pb', rtmpPacketGetPacket before (rtmpRbInit (announcement data)) =
      .ok (⟨2, ⟨true, 0, 4, 1, 0⟩, data⟩,
        received before 2 ⟨true, 0, 4, 1, 0⟩ 6 packetMask dataBuffer, pb') := by
  have chunk := settled.readChunkSize
  have header : Head before.channelsIn 2 ⟨true, 0, 4, 1, 0⟩ [2, 0, 0, 0, 0, 0, 4, 1, 0, 0, 0, 0] :=
    firstHead channels [0, 0, 0, 0, 0, 4, 1, 0, 0, 0, 0] rfl
  have layout : Layout before.readChunkSize data [] data := .last _ (by omega)
  have message : Message before.readChunkSize before.channelsIn 2 ⟨true, 0, 4, 1, 0⟩ data
      ([2, 0, 0, 0, 0, 0, 4, 1, 0, 0, 0, 0] ++ [] ++ data) :=
    .mk (.mk header (by decide) rfl) (.chunked (by decide) four layout)
  have unread : (rtmpRbInit (announcement data)).unread =
      [2, 0, 0, 0, 0, 0, 4, 1, 0, 0, 0, 0] ++ [] ++ data ++ [] := by
    rw [unreadInit, List.append_nil, List.append_nil]
    rfl
  obtain ⟨_, dataBuffer, _, _, _, read⟩ := getPacketMessage settled.state (by omega) message unread
  exact ⟨_, dataBuffer, _, read⟩

theorem announcedOne : ∃ before pb₀ pac inside pb₁ after,
    Run bareTable rtmpProtoInit (rtmpRbInit []) before pb₀ ∧ before.pkgSt = 3 ∧
    rtmpPacketGetPacket before pb₀ = .ok (pac, inside, pb₁) ∧ unpackInt pac.data = .ok 1 ∧
    defaultOnPacketChunkSize bareTable inside pac = .ok after ∧
    (rtmpPacketReset after).channelsIn 2 = ⟨true, 0, 4, 1, 0⟩ := by
  have writes : bareTable.onWriteData = true := rfl
  obtain ⟨proto, pb, run, left, phase, channels⟩ := openedRun writes
  have some : announcement [0, 0, 0, 1] ≠ [] := List.cons_ne_nil _ _
  obtain ⟨before, run, phase, channels⟩ : ∃ before, Run bareTable rtmpProtoInit (rtmpRbInit []) before
      (rtmpRbInit (announcement [0, 0, 0, 1])) ∧ before.pkgSt = 3 ∧
      before.channelsIn = rtmpProtoInit.channelsIn :=
    ⟨_, receivedRun barePassive.kept run left some (by decide), phase, channels⟩
  obtain ⟨settled, _⟩ := settledRun barePassive.kept run settledInit rfl
  obtain ⟨packetMask, dataBuffer, pb', read⟩ := announcementRead settled channels [0, 0, 0, 1] rfl
  have announced : unpackInt [0, 0, 0, 1] = .ok 1 := by decide
  obtain ⟨after, handled, kept⟩ := announcementHandled bareTable
    (received before 2 ⟨true, 0, 4, 1, 0⟩ 6 packetMask dataBuffer) ⟨2, ⟨true, 0, 4, 1, 0⟩, [0, 0, 0, 1]⟩
    announced
  refine ⟨_, _, _, _, _, after, run, phase, read, announced, handled, ?_⟩
  show after.channelsIn 2 = _
  rw [kept.channelsIn]
  exact Function.update_self (2 : Fin 64) _ before.channelsIn

def onePeer : RtmpProto := { sender 1 with channelId := 2 }

theorem announcedByteDelivered : ∃ proto, DeliversMessage proto
    (rtmpRbInit ([2, 0, 0, 0, 0, 0, 1, 4, 0, 0, 0, 0] ++ cutPayload onePeer 1 [7])) 2
    ⟨true, 0, 1, 4, 0⟩ [7] 13 := by
  obtain ⟨before, pb₀, pac, inside, pb₁, after, run, phase, read, announced, handled, entry⟩ := announcedOne
  have used : ((rtmpPacketReset after).channelsIn 2).used = true := by rw [entry]
  have header := newHead (Nat.le_refl 2) used [0, 0, 0, 0, 0, 1, 4, 0, 0, 0, 0] rfl
  rw [entry] at header
  have opened : Opened (rtmpPacketReset after).channelsIn 2 ⟨true, 0, 1, 4, 0⟩
      ([2, 0, 0, 0, 0, 0, 1, 4, 0, 0, 0, 0] ++ []) := .mk header (by decide) rfl
  have unread : (rtmpRbInit ([2, 0, 0, 0, 0, 0, 1, 4, 0, 0, 0, 0] ++ cutPayload onePeer 1 [7])).unread =
      [2, 0, 0, 0, 0, 0, 1, 4, 0, 0, 0, 0] ++ [] ++ cutPayload onePeer 1 [7] ++ [] := by
    rw [unreadInit, List.append_nil, List.append_nil]
  have facing : onePeer.channelId = (2 : Fin 64).val := rfl
  exact ⟨_, (announcedChunkSize barePassive.kept run phase read announced (by decide) handled .start
    opened (by decide) rfl facing unread).mpr rfl⟩

theorem announcedPayloadLost : ∃ before pb₀ pac inside pb₁ after,
    Run bareTable rtmpProtoInit (rtmpRbInit []) before pb₀ ∧ before.pkgSt = 3 ∧
    rtmpPacketGetPacket before pb₀ = .ok (pac, inside, pb₁) ∧ unpackInt pac.data = .ok 1 ∧
    defaultOnPacketChunkSize bareTable inside pac = .ok after ∧
    Opened (rtmpPacketReset after).channelsIn 2 ⟨true, 0, 2, 4, 0⟩ [2, 0, 0, 0, 0, 0, 2, 4, 0, 0, 0, 0] ∧
    ¬ DeliversMessage (rtmpPacketReset after)
      (rtmpRbInit ([2, 0, 0, 0, 0, 0, 2, 4, 0, 0, 0, 0] ++ cutPayload onePeer 1 [7, 8])) 2
      ⟨true, 0, 2, 4, 0⟩ [7, 8] 15 := by
  obtain ⟨before, pb₀, pac, inside, pb₁, after, run, phase, read, announced, handled, entry⟩ := announcedOne
  have used : ((rtmpPacketReset after).channelsIn 2).used = true := by rw [entry]
  have header := newHead (Nat.le_refl 2) used [0, 0, 0, 0, 0, 2, 4, 0, 0, 0, 0] rfl
  rw [entry] at header
  have opened : Opened (rtmpPacketReset after).channelsIn 2 ⟨true, 0, 2, 4, 0⟩
      ([2, 0, 0, 0, 0, 0, 2, 4, 0, 0, 0, 0] ++ []) := .mk header (by decide) rfl
  rw [List.append_nil] at opened
  refine ⟨before, pb₀, pac, inside, pb₁, after, run, phase, read, announced, handled, opened, ?_⟩
  intro delivers
  obtain ⟨ready, needs⟩ := settledRun barePassive.kept run settledInit rfl
  have settled := (announcedSettled ready phase read handled).1
  have unread : (rtmpRbInit ([2, 0, 0, 0, 0, 0, 2, 4, 0, 0, 0, 0] ++ cutPayload onePeer 1 [7, 8])).unread =
      [2, 0, 0, 0, 0, 0, 2, 4, 0, 0, 0, 0] ++ cutPayload onePeer 1 [7, 8] ++ [] := by
    rw [unreadInit, List.append_nil]
  obtain ⟨seps, layout⟩ := deliveredLayout settled opened (by decide) unread delivers
  have short : onePeer.channelId < 64 := by decide
  exact absurd (cutPayloadSame short (by decide) (by decide) layout) (by decide)

end Rushkit
