import Rushkit.Feed
import Rushkit.PacketStream

/-! The channel that outgoing headers name. It is the one the reader is parsing, so a
packet is well addressed only while a packet of its own channel is being handled. -/
namespace Rushkit
open Interleaving ReadBuffer

theorem reachChunks {proto : RtmpProto} (reach : Reach proto) :
    proto.readChunkSize = 128 ∧ proto.writeChunkSize = 128 := by
  induction reach with
  | init => exact ⟨rfl, rfl⟩
  | kept reach same ih => exact ⟨same.readChunkSize.trans ih.1, same.writeChunkSize.trans ih.2⟩
  | received reach read ih =>
    rw [(getPacketParsed read).frame]
    exact ih
  | returned reach ih => exact ih
  | sent reach write ih =>
    simp only [rtmpPacketWritePacket, Fallible.bindOk] at write
    obtain ⟨_, _, _, _, _, _, _, _, last⟩ := write
    cases Except.ok.inj last
    exact ih

theorem reachChunk {proto : RtmpProto} (reach : Reach proto) : proto.writeChunkSize = 128 :=
  (reachChunks reach).2

theorem reachOpen {proto : RtmpProto} (reach : Reach proto) {slot : Fin 64} (low : slot.val < 4) :
    (proto.channelsIn slot).used = true ∧ (proto.channelsOut slot).used = true := by
  induction reach with
  | init =>
    rw [channelsOutInit, channelsInInit]
    dsimp only
    rw [if_pos low]
    exact ⟨rfl, rfl⟩
  | kept reach same ih =>
    rw [same.channelsIn, same.channelsOut]
    exact ih
  | received reach read ih =>
    obtain ⟨frame, used⟩ := getPacketParsed read
    refine ⟨(used slot).trans ih.1, ?_⟩
    rw [frame]
    exact ih.2
  | returned reach ih => exact ih
  | @sent proto proto' pb pb' pac timerRelative told reach write ih =>
    have entered := write
    simp only [rtmpPacketWritePacket, Fallible.bindOk] at entered
    obtain ⟨other, entry, _⟩ := entered
    cases writePacketSent (tableEntryOk.mp entry) write
    refine ⟨ih.1, ?_⟩
    rcases eq_or_ne slot other with rfl | different
    · rw [packetSentSlot, sentUsed, openedUsed]
    · rw [packetSentOther proto pac different]
      exact ih.2

-- The output is a header of the channel `slot`, its fields, and chunks with such headers between.
def Addressed (slot : Fin 64) (data out : Bytes) : Prop :=
  ∃ packetMask fields wire count, packetMask ≤ 3 ∧ fields.length = fieldWidth packetMask ∧
    out = basicHeader packetMask slot.val ++ (fields ++ wire) ∧
    Layout 128 data (List.replicate count (UInt8.ofInt (channelContinue * 64 + slot.val))) wire

def SentAddressed (proto : RtmpProto) (slot : Fin 64) (pac : Packet) (timerRelative : Bool) : Prop :=
  ∃ told proto' pb, rtmpPacketWritePacket proto (rtmpWbInit 1024) pac timerRelative =
    .ok (told, proto', pb) ∧ Addressed slot pac.data (rtmpWbGetValue pb)

theorem headerNames {packetMask other : Nat} {channelId : Int} {slot : Fin 64} {s t : Bytes}
    (legal : 2 ≤ channelId) (form : 2 ≤ slot.val)
    (same : basicHeader packetMask channelId ++ s = basicHeader other slot.val ++ t) :
    channelId = slot.val := by
  have small := slot.isLt
  have right : basicHeader other slot.val = [UInt8.ofInt (other * 64 + slot.val)] := by
    rw [basicHeader, if_neg (by omega), if_neg (by omega)]
  rw [right] at same
  have first {n : Int} {l : Bytes} (starts : UInt8.ofInt n :: l = UInt8.ofInt (other * 64 + slot.val) :: t) :
      n % 256 = (other * 64 + slot.val) % 256 := by
    rw [← byteValue, ← byteValue, List.head_eq_of_cons_eq starts]
  unfold basicHeader at same
  split at same
  · have long := first same
    omega
  · split at same
    · have middle := first same
      omega
    · have short := first same
      omega

def outputLength (proto : RtmpProto) (slot : Fin 64) (pac : Packet) : Nat :=
  1 + fieldWidth (chosenMask (proto.channelsOut slot) pac.sized) + wireLength 128 pac.data.length

section Sending
variable {proto : RtmpProto} (chunk : proto.writeChunkSize = 128) {pac : Packet} {slot : Fin 64}
  (named : pac.channelId = slot.val) {timerRelative : Bool}
include chunk named

theorem addressedCurrent (form : 2 ≤ slot.val) (sent : SentAddressed proto slot pac timerRelative) :
    proto.channelId = slot.val ∧ outputLength proto slot pac ≤ 1073741824 := by
  have positive : 1 ≤ proto.writeChunkSize := by omega
  obtain ⟨told, proto', pb, written, packetMask, fields, wire, count, mask, width, out, layout⟩ := sent
  rcases lt_or_ge proto.channelId 2 with illegal | legal
  · rw [writePacketIllegal proto _ pac timerRelative slot named illegal] at written
    contradiction
  obtain ⟨write, same, writes⟩ := writesPacket proto pac timerRelative slot named legal positive
  rw [same] at written
  obtain ⟨last, ok, told⟩ := Fallible.bindOk.mp written
  cases Except.ok.inj told
  obtain ⟨power, content, length⟩ := writes.exact _ _ (powerInit (j := 10) (by decide) rfl) ok
  have bound := powerCapacityBound power
  have whole : packetBytes proto slot pac timerRelative = rtmpWbGetValue pb := content.symm
  rw [out] at whole
  have current := headerNames legal form whole
  have total := packetBytesLength pac current positive timerRelative
  rw [chunk] at total
  have counted : pb.length = 0 + (packetBytes proto slot pac timerRelative).length := length
  refine ⟨current, ?_⟩
  unfold outputLength
  omega

theorem sentAddressed (form : 2 ≤ slot.val) (current : proto.channelId = slot.val)
    (bound : outputLength proto slot pac ≤ 1073741824) : SentAddressed proto slot pac timerRelative := by
  have positive : 1 ≤ proto.writeChunkSize := by omega
  have small := slot.isLt
  obtain ⟨write, same, writes⟩ := writesPacket proto pac timerRelative slot named (by omega) positive
  have total := packetBytesLength pac current positive timerRelative
  rw [chunk] at total
  have room : ([] : Bytes).length + (packetBytes proto slot pac timerRelative).length ≤ 1073741824 := by
    rw [List.length_nil, total]
    unfold outputLength at bound
    omega
  obtain ⟨pb, ok, held⟩ := writes.room (rtmpWbInit 1024) [] (holdsInit (by decide)) room
  obtain ⟨count, layout⟩ := chunkBytesLayout proto (by omega) positive (pac.data.length + 1) pac.data
    (Nat.lt_succ_self _)
  rw [chunk, current] at layout
  have whole : rtmpWbGetValue pb = packetBytes proto slot pac timerRelative := held.content
  unfold packetBytes at whole
  dsimp only at whole
  rw [current] at whole
  have written : rtmpPacketWritePacket proto (rtmpWbInit 1024) pac timerRelative =
      .ok (rtmpWbTell pb, packetSent proto slot pac, pb) := by
    rw [same, ok, Fallible.okBind]
  exact ⟨_, _, pb, written, _, _, _, count, chosenMaskBound _ _, fieldBytesLength _ _ _, whole, layout⟩

end Sending

theorem outgoingChannel {proto : RtmpProto} (reach : Reach proto) {pac : Packet} {slot : Fin 64}
    (named : pac.channelId = slot.val) (form : 2 ≤ slot.val) (timerRelative : Bool) :
    SentAddressed proto slot pac timerRelative ↔
      proto.channelId = slot.val ∧ outputLength proto slot pac ≤ 1073741824 := by
  have chunk := reachChunk reach
  constructor
  · intro sent
    exact addressedCurrent chunk named form sent
  · rintro ⟨current, bound⟩
    exact sentAddressed chunk named form current bound

theorem insideCallbackTwo : ∃ proto, Reach proto ∧ proto.channelId = 2 ∧
    proto.channelsOut = rtmpProtoInit.channelsOut := by
  have two : Exchanged 2 := .inl rfl
  have message := exchangeMessage (c := 128) (by decide) (syncedInit 128) two rfl
    pingStreamable.sendable rfl
  obtain ⟨_, _, _, _, _, read⟩ :=
    getPacketMessage (syncedInit 128).between (by decide) message
      ((unreadInit _).trans (List.append_nil _).symm)
  exact ⟨_, .received .init read, rfl, rfl⟩

theorem pongAddressed : ∃ proto, Reach proto ∧ SentAddressed proto 2 pingPacket false := by
  obtain ⟨proto, reach, inside, _⟩ := insideCallbackTwo
  have width := fieldWidthBound (chosenMask (proto.channelsOut 2) pingPacket.sized)
  have body : wireLength 128 pingPacket.data.length = 3 := rfl
  refine ⟨proto, reach, (outgoingChannel reach rfl (by decide) false).mpr ⟨inside, ?_⟩⟩
  unfold outputLength
  omega

-- Outside a callback the connection is on no channel, and the assertion of the writer fails.
theorem sendOutsideAborts : Reach rtmpProtoInit ∧ ¬ SentAddressed rtmpProtoInit 2 pingPacket false ∧
    rtmpPacketWritePacket rtmpProtoInit (rtmpWbInit 1024) pingPacket false =
      .error (.assertion .writeHeaderBytes) := by
  have aborts := writePacketIllegal rtmpProtoInit (rtmpWbInit 1024) pingPacket false 2 rfl (by decide)
  refine ⟨.init, ?_, aborts⟩
  rintro ⟨told, proto', pb, written, _⟩
  rw [aborts] at written
  contradiction

end Rushkit
