import Rushkit.OutgoingChannel
import Rushkit.StreamId

/-! Where a message ends. The reader expects four more bytes behind the largest timer a
header can carry, and the writer never sends them. -/
namespace Rushkit
open Interleaving ReadBuffer

abbrev SameFields (pchannel channel : Channel) : Prop :=
  pchannel.timer = channel.timer ∧ pchannel.size = channel.size ∧
    pchannel.dataType = channel.dataType ∧ pchannel.streamId = channel.streamId

-- The timer the reader ends up with; a header without fields leaves it the one it has.
def announcedTimer (pchannel channel : Channel) (timerRelative : Bool) : Int :=
  if timerRelative = true ∧ ¬ SameFields pchannel channel then
    (channel.timer - pchannel.timer) % 16777216
  else channel.timer

theorem absoluteTimer (pchannel channel : Channel) :
    announcedTimer pchannel channel false = channel.timer := if_neg (fun h => Bool.false_ne_true h.1)

-- With `rest` behind the written bytes, the reader takes as many bytes as were written.
def EndsThere (a b : RtmpProto) (pac : Packet) (timerRelative : Bool) (rest : Bytes) : Prop :=
  ∃ told a' wb, rtmpPacketWritePacket a (rtmpWbInit 1024) pac timerRelative = .ok (told, a', wb) ∧
    ∀ pb : ReadBuffer, pb.unread = rtmpWbGetValue wb ++ rest →
      ∃ got b' pb', rtmpPacketGetPacket b pb = .ok (got, b', pb') ∧
        pb'.current - pb.current = (rtmpWbGetValue wb).length

theorem timerOmitted {pchannel channel : Channel} (used : pchannel.used = true) :
    transmits (chosenMask pchannel channel) .timer = false ↔ SameFields pchannel channel := by
  have told : chosenMask pchannel channel = (if pchannel.streamId = channel.streamId then 1 else 0) +
      (if pchannel.dataType = channel.dataType ∧ pchannel.size = channel.size then
        (if pchannel.timer = channel.timer then 2 else 1) else 0) :=
    if_neg (by rw [used]; exact Bool.noConfusion)
  rw [told]
  constructor
  · intro omitted
    by_cases stream : pchannel.streamId = channel.streamId
    · by_cases both : pchannel.dataType = channel.dataType ∧ pchannel.size = channel.size
      · by_cases timer : pchannel.timer = channel.timer
        · exact ⟨timer, both.2, both.1, stream⟩
        · rw [if_pos stream, if_pos both, if_neg timer] at omitted
          contradiction
      · rw [if_pos stream, if_neg both] at omitted
        contradiction
    · rw [if_neg stream] at omitted
      split at omitted
      · split at omitted <;> contradiction
      · contradiction
  · rintro ⟨timer, size, dataType, stream⟩
    rw [if_pos stream, if_pos ⟨dataType, size⟩, if_pos timer]
    rfl

-- Behind an announced extended timestamp the reader takes four bytes before the payload.
theorem escapedRead {b : RtmpProto} (fresh : b.state = 0) (positive : 1 ≤ b.readChunkSize)
    (fits : b.readChunkSize + 1 < 2147483648) {slot : Fin 64} {channel : Channel} {head s : Bytes}
    (header : Head b.channelsIn slot channel head) (small : channel.size < maxPacketSize)
    (typed : 0 < channel.dataType) (escaped : channel.timer = 0xffffff) {pb pb' : ReadBuffer}
    (unread : pb.unread = head ++ s) {got : Packet} {b' : RtmpProto}
    (ok : rtmpPacketGetPacket b pb = .ok (got, b', pb')) :
    pb'.current - pb.current = head.length + (4 + wireLength b.readChunkSize channel.size.toNat) := by
  have width : addcodeWidth channel = 4 := if_pos escaped
  rcases prefixSplit 4 s with short | ⟨addcode, s, four, rfl⟩
  · have starved := Starved.addcode s header small (by rw [width]; exact short)
    rw [getPacketStarved fresh starved unread] at ok
    contradiction
  have opened := Opened.mk header small (four.trans width.symm)
  rw [← List.append_assoc] at unread
  rcases Nat.lt_or_ge s.length (wireLength b.readChunkSize channel.size.toNat) with short | enough
  · obtain ⟨e, fails, _⟩ := getPacketRejected fresh positive fits (.truncated s opened typed short) unread
    rw [fails] at ok
    contradiction
  · obtain ⟨data, seps, body, rest, rfl, size, layout⟩ := layoutRead positive _ s enough
    have message := Message.mk opened (.chunked typed size layout)
    rw [← List.append_assoc] at unread
    obtain ⟨_, _, _, _, _, read⟩ := getPacketMessage fresh fits message unread
    rw [read] at ok
    cases Except.ok.inj ok
    rw [consumedAppend pb unread, List.length_append, List.length_append, four, layoutWire positive layout, size, Nat.add_assoc]

def heardChannel (a b : RtmpProto) (slot : Fin 64) (pac : Packet) (timerRelative : Bool) : Channel :=
  sentChannel (chosenMask (a.channelsOut slot) pac.sized) (b.channelsIn slot)
    (onWireAt (sentTime timerRelative (openedChannel (a.channelsOut slot)) pac.sized) pac.sized)

section Ends
variable {a b : RtmpProto} {slot : Fin 64} (used : (a.channelsOut slot).used = true)
  (records : ∀ f, (a.channelsOut slot).field f = (b.channelsIn slot).field f)
  {pac : Packet} (framed : Framed pac) (timerRelative : Bool)

include used records

theorem heardField {f : Field} (framing : f = .size ∨ f = .dataType) :
    (heardChannel a b slot pac timerRelative).field f = pac.sized.field f := by
  have mask := chosenMaskBound (a.channelsOut slot) pac.sized
  rw [heardChannel, sentField mask]
  split
  · rcases framing with rfl | rfl <;> rfl
  · rename_i omitted
    have other : f ≠ .streamId := by rcases framing with rfl | rfl <;> exact Field.noConfusion
    have known := omittedCompared other (Bool.eq_false_of_not_eq_true omitted)
    rw [openedInUse used] at known
    exact (records f).symm.trans known.symm

include framed

theorem heardTimer : (heardChannel a b slot pac timerRelative).timer =
    announcedTimer (a.channelsOut slot) pac.sized timerRelative := by
  have mask := chosenMaskBound (a.channelsOut slot) pac.sized
  have heard := sentField mask (b.channelsIn slot)
    (onWireAt (sentTime timerRelative (openedChannel (a.channelsOut slot)) pac.sized) pac.sized) .timer
  refine heard.trans ?_
  have small : pac.sized.timer % 16777216 = pac.sized.timer :=
    Int.emod_eq_of_lt framed.timerLow (Int.lt_of_le_sub_one framed.timerHigh)
  cases omitted : transmits (chosenMask (a.channelsOut slot) pac.sized) .timer with
  | false =>
    have same := (timerOmitted used).mp omitted
    rw [if_neg Bool.false_ne_true, announcedTimer, if_neg (fun h => h.2 same)]
    exact (records .timer).symm.trans same.1
  | true =>
    have changed : ¬ SameFields (a.channelsOut slot) pac.sized := by
      rw [← timerOmitted used, omitted]
      exact Bool.noConfusion
    rw [if_pos rfl, openedInUse used]
    cases timerRelative with
    | true =>
      rw [announcedTimer, if_pos ⟨rfl, changed⟩]
      show int32 _ % 16777216 = _
      rw [int32, Int.bmod_def]
      split <;> omega
    | false =>
      rw [absoluteTimer]
      exact small

variable (paired : Paired a b slot) (exchanged : Exchanged slot)
include paired exchanged

theorem heardEnd {pb : ReadBuffer} {rest : Bytes}
    (unread : pb.unread = packetBytes a slot pac timerRelative ++ rest) :
    (∃ got b' pb', rtmpPacketGetPacket b pb = .ok (got, b', pb') ∧
      pb'.current - pb.current = (packetBytes a slot pac timerRelative).length) ↔
    announcedTimer (a.channelsOut slot) pac.sized timerRelative ≠ 0xffffff := by
  have positive : 1 ≤ a.writeChunkSize := by
    rw [paired.chunks]
    exact paired.positive
  obtain ⟨head, body, n, bytes, header, layout⟩ := packetBytesHead a paired.current
    (exchangedForm exchanged) positive framed paired.used timerRelative
  change Head b.channelsIn slot (heardChannel a b slot pac timerRelative) head at header
  rw [paired.chunks] at layout
  have size : (heardChannel a b slot pac timerRelative).size = pac.data.length :=
    heardField used records timerRelative (.inl rfl)
  have dataType : (heardChannel a b slot pac timerRelative).dataType = pac.channel.dataType :=
    heardField used records timerRelative (.inr rfl)
  have timer := heardTimer used records framed timerRelative
  have short := framed.short
  have typeLow := framed.typeLow
  have small : (heardChannel a b slot pac timerRelative).size < maxPacketSize := by
    rw [size]
    unfold maxPacketSize
    omega
  have typed : 0 < (heardChannel a b slot pac timerRelative).dataType := by omega
  rw [bytes, List.append_assoc] at unread
  rw [bytes, List.length_append, layoutWire paired.positive layout, ← timer]
  constructor
  · rintro ⟨got, b', pb', read, consumed⟩ escaped
    have longer := escapedRead paired.between paired.positive paired.fits header small typed escaped
      unread read
    rw [consumed, size, Int.toNat_natCast] at longer
    omega
  · intro plain
    have none : ([] : Bytes).length = addcodeWidth (heardChannel a b slot pac timerRelative) :=
      (if_neg plain).symm
    have opened := Opened.mk header small none
    rw [List.append_nil] at opened
    have message := Message.mk opened (.chunked typed (by omega) layout)
    rw [← List.append_assoc] at unread
    obtain ⟨_, _, _, _, _, read⟩ := getPacketMessage paired.between paired.fits message unread
    refine ⟨_, _, _, read, ?_⟩
    rw [consumedAppend pb unread, List.length_append, layoutWire paired.positive layout]

theorem endsAnnounced (named : pac.channelId = slot.val) (rest : Bytes) :
    EndsThere a b pac timerRelative rest ↔
      announcedTimer (a.channelsOut slot) pac.sized timerRelative ≠ 0xffffff := by
  have positive : 1 ≤ a.writeChunkSize := by
    rw [paired.chunks]
    exact paired.positive
  obtain ⟨told, wb, written, bytes⟩ := writePacketFresh a named paired.current (exchangedForm exchanged)
    positive framed.short timerRelative
  constructor
  · rintro ⟨told', a', wb', written', ends⟩
    rw [written] at written'
    cases Except.ok.inj written'
    rw [bytes] at ends
    have unread := unreadInit (packetBytes a slot pac timerRelative ++ rest)
    exact (heardEnd used records framed timerRelative paired exchanged unread).mp (ends _ unread)
  · intro plain
    refine ⟨told, _, wb, written, fun pb unread => ?_⟩
    rw [bytes] at unread ⊢
    exact (heardEnd used records framed timerRelative paired exchanged unread).mpr plain

end Ends

theorem exchangedLow {slot : Fin 64} (exchanged : Exchanged slot) : slot.val < 4 := by
  rcases exchanged with two | three <;> omega

theorem pairedReach {a b : RtmpProto} (writer : Reach a) (reader : Reach b) (between : b.state = 0)
    {slot : Fin 64} (exchanged : Exchanged slot) (current : a.channelId = slot.val) :
    Paired a b slot := by
  have chunk := (reachChunks reader).1
  exact ⟨current, (reachChunk writer).trans chunk.symm, by omega, by omega, between,
    (reachOpen reader (exchangedLow exchanged)).1⟩

theorem messageEnd {a b : RtmpProto} (writer : Reach a) (reader : Reach b) (between : b.state = 0)
    {slot : Fin 64} (exchanged : Exchanged slot) (current : a.channelId = slot.val)
    (records : ∀ f, (a.channelsOut slot).field f = (b.channelsIn slot).field f) {pac : Packet}
    (named : pac.channelId = slot.val) (framed : Framed pac) (timerRelative : Bool) (rest : Bytes) :
    EndsThere a b pac timerRelative rest ↔
      announcedTimer (a.channelsOut slot) pac.sized timerRelative ≠ 0xffffff :=
  endsAnnounced (reachOpen writer (exchangedLow exchanged)).2 records framed timerRelative
    (pairedReach writer reader between exchanged current) exchanged named rest

theorem pingEnds : ∃ a, Reach a ∧ EndsThere a rtmpProtoInit pingPacket false [] := by
  obtain ⟨a, writer, current, records⟩ := insideCallbackTwo
  have two : Exchanged 2 := .inl rfl
  refine ⟨a, writer, (messageEnd writer .init rfl two current (fun f => ?_) rfl
    pingStreamable.sendable.framed false []).mpr ?_⟩
  · rw [records, channelsOutInit]
  · rw [absoluteTimer]
    decide

-- The largest timer of the field; whatever follows, the reader does not stop where it should.
def escapedPing : Packet := ⟨2, { initChannel with dataType := pacPing, timer := 0xffffff }, [1, 2, 3]⟩

theorem escapedPingRunsOn : Framed escapedPing ∧ ∃ a, Reach a ∧ a.channelId = 2 ∧
    (∀ f, (a.channelsOut 2).field f = (rtmpProtoInit.channelsIn 2).field f) ∧
    ∀ rest, ¬ EndsThere a rtmpProtoInit escapedPing false rest := by
  have framed : Framed escapedPing := ⟨by decide, by decide, by decide, by decide, by decide⟩
  obtain ⟨a, writer, current, table⟩ := insideCallbackTwo
  have records (f : Field) : (a.channelsOut 2).field f = (rtmpProtoInit.channelsIn 2).field f := by
    rw [table, channelsOutInit]
  have two : Exchanged 2 := .inl rfl
  refine ⟨framed, a, writer, current, records, fun rest ends => ?_⟩
  have announced := (endsAnnounced (reachOpen writer (exchangedLow two)).2 records framed false
    (pairedReach writer .init rfl two current) two rfl rest).mp ends
  rw [absoluteTimer] at announced
  exact announced rfl

end Rushkit
