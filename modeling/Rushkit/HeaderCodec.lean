import Rushkit.MessageReader
import Rushkit.MessageWriter

/-! Basic headers from the writer to the parser and to the reader's count of the bytes
between two chunks. The three tables of id ranges agree on two of four ranges only. -/
namespace Rushkit
open ReadBuffer

-- Wherever the header stands, `_get_r1` and `_get_r2` take exactly it, for this type and id.
def ParsesAs (basic : Bytes) (packetMask : Nat) (channelId : Int) : Prop :=
  ∀ (proto : RtmpProto) (pb : ReadBuffer) (rest : Bytes), pb.unread = basic ++ rest →
    ∃ mid midPb proto' pb', getR1 proto pb = .ok (none, mid, midPb) ∧
      getR2 mid midPb = .ok (none, proto', pb') ∧ proto'.packetMask = packetMask ∧
      proto'.channelId = channelId ∧ proto'.state = proto.state + 2 ∧ pb'.unread = rest

def CodecAgrees (proto : RtmpProto) (pb : WriteBuffer UInt8) (packetMask : Nat) (channelId : Int) : Prop :=
  ∃ count pb' basic, writeHeaderBytes proto pb packetMask channelId = .ok (count, pb') ∧
    rtmpWbGetValue pb' = rtmpWbGetValue pb ++ basic ∧
    ParsesAs basic packetMask proto.channelId ∧
    (basic.length : Int) = 1 + countHeaderBytes proto.channelId

theorem basicHeaderLength (packetMask : Nat) (channelId : Int) :
    (basicHeader packetMask channelId).length =
      if 255 < channelId then 3 else if 64 ≤ channelId then 2 else 1 := by
  unfold basicHeader
  split
  · rw [if_neg (by omega), if_pos (by omega)]
    rfl
  · split
    · rw [List.length_cons, loadDataLength, hostBytesLength]
    · rw [if_neg (by omega)]
      rfl

theorem parsesAs {packetMask : Nat} {channelId : Int} {basic : Bytes}
    (named : BasicHeader packetMask channelId basic) {other : Int} :
    ParsesAs basic packetMask other ↔ channelId = other := by
  constructor
  · intro parses
    have unread : (rtmpRbInit basic).unread = basic ++ [] := by rw [unreadInit, List.append_nil]
    obtain ⟨mid, midPb, proto', pb', first, second, _, id, _, _⟩ := parses rtmpProtoInit _ [] unread
    obtain ⟨form, first', second'⟩ := parseForm rtmpProtoInit named unread
    rw [first] at first'
    cases first'
    rw [second] at second'
    cases second'
    exact id
  · rintro rfl proto pb rest unread
    obtain ⟨form, first, second⟩ := parseForm proto named unread
    exact ⟨_, _, _, _, first, second, rfl, rfl, rfl, unreadSkipAppend pb unread⟩

theorem headerWritten (proto : RtmpProto) (packetMask : Nat) (channelId : Int) (legal : 2 ≤ proto.channelId)
    {pb : WriteBuffer UInt8} {bytes : Bytes} (held : Holds pb bytes) (room : bytes.length + 3 ≤ 1073741824) :
    ∃ count pb', writeHeaderBytes proto pb packetMask channelId = .ok (count, pb') ∧
      rtmpWbGetValue pb' = rtmpWbGetValue pb ++ basicHeader packetMask proto.channelId := by
  obtain ⟨count, write, same, writes⟩ := writesHeader proto packetMask channelId legal
  have length := basicHeaderLength packetMask proto.channelId
  obtain ⟨pb', written, held'⟩ := writes.room pb bytes held (by split at length <;> (try split at length) <;> omega)
  refine ⟨count, pb', by rw [same, written, Fallible.okBind], ?_⟩
  rw [rtmpWbGetValue, rtmpWbGetValue, held'.content, held.content]

section Codec
variable {proto : RtmpProto} (low : 2 ≤ proto.channelId) (high : proto.channelId ≤ 65599)
  {packetMask : Nat} (mask : packetMask ≤ 3) (channelId : Int) {pb : WriteBuffer UInt8} {bytes : Bytes}
  (held : Holds pb bytes) (room : bytes.length + 3 ≤ 1073741824)
include low high mask held room

theorem codecAgrees : CodecAgrees proto pb packetMask channelId ↔
    parsedId proto.channelId = proto.channelId ∧
      ((basicHeader packetMask proto.channelId).length : Int) = 1 + countHeaderBytes proto.channelId := by
  obtain ⟨count, pb', written, value⟩ := headerWritten proto packetMask channelId low held room
  rw [← parsesAs (basicHeaderNamed mask low high)]
  constructor
  · rintro ⟨count', last, basic, written', value', parses, counted⟩
    rw [written] at written'
    cases written'
    rw [value] at value'
    cases List.append_cancel_left value'
    exact ⟨parses, counted⟩
  · rintro ⟨parses, counted⟩
    exact ⟨count, pb', _, written, value, parses, counted⟩

theorem headerCodec : CodecAgrees proto pb packetMask channelId ↔
    proto.channelId ≤ 255 ∨ 320 ≤ proto.channelId ∧ proto.channelId ≤ 32831 := by
  rw [codecAgrees low high mask channelId held room, basicHeaderLength, parsedId, countHeaderBytes]
  split <;> split <;> (try split) <;> omega

end Codec

def onChannel (channelId : Int) : RtmpProto := { rtmpProtoInit with channelId }

theorem headerCodecForms : CodecAgrees (onChannel 2) (rtmpWbInit 1024) channelNew 2 ∧
    CodecAgrees (onChannel 100) (rtmpWbInit 1024) channelContinue 100 ∧
    CodecAgrees (onChannel 400) (rtmpWbInit 1024) channelTimerChange 400 := by
  have held : Holds (rtmpWbInit 1024 : WriteBuffer UInt8) [] := holdsInit (by decide)
  have short : 2 ≤ (onChannel 2).channelId := by decide
  have middle : 2 ≤ (onChannel 100).channelId := by decide
  have long : 2 ≤ (onChannel 400).channelId := by decide
  refine ⟨?_, ?_, ?_⟩
  · exact (headerCodec short (by decide) (by decide) 2 held (by decide)).mpr (.inl (by decide))
  · exact (headerCodec middle (by decide) (by decide) 100 held (by decide)).mpr (.inl (by decide))
  · exact (headerCodec long (by decide) (by decide) 400 held (by decide)).mpr (.inr (by decide))

-- Channel 256 takes the long form, but two bytes are skipped between its chunks.
theorem boundaryDisagrees : basicHeader channelNew 256 = [1, 0, 192] ∧ 1 + countHeaderBytes 256 = 2 ∧
    ¬ CodecAgrees (onChannel 256) (rtmpWbInit 1024) channelNew 256 := by
  refine ⟨by decide, by decide, fun agrees => ?_⟩
  have low : 2 ≤ (onChannel 256).channelId := by decide
  have counted := ((codecAgrees low (by decide) (by decide) 256 (holdsInit (by decide)) (by decide)).mp agrees).2
  exact absurd counted (by decide)

end Rushkit
