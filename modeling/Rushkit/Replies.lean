import Rushkit.Library.Dialogue
import Rushkit.RequestIds

/-! What a connection sends while it handles a packet, as the peer's reader finds it. The
reader is one that has followed everything the connection has sent before. -/
namespace Rushkit
open Amf ReadBuffer Dialogue

-- One written block, read as a message on the channels of `b`.
def ReadsMessage (b : RtmpProto) (block : Bytes) (pac : Packet) (b' : RtmpProto) : Prop :=
  ∃ slot channel data, Message b.readChunkSize b.channelsIn slot channel data block ∧
    pac = ⟨slot.val, channel, data⟩ ∧ b' = setChannelIn (rtmpPacketReset b) slot channel

def wire (c : Nat) : Speech RtmpProto RtmpProto Bytes Packet :=
  ⟨RtmpProto.written, Synced c, ReadsMessage⟩

theorem readsPacket {b b' : RtmpProto} (fresh : b.state = 0) (fits : b.readChunkSize + 1 < 2147483648)
    {block rest : Bytes} {pac : Packet} (reads : ReadsMessage b block pac b') {pb : ReadBuffer}
    (unread : pb.unread = block ++ rest) : ∃ inside,
      rtmpPacketGetPacket b pb = .ok (pac, inside, pb.skip block.length) ∧ rtmpPacketReset inside = b' := by
  obtain ⟨slot, channel, data, message, rfl, rfl⟩ := reads
  obtain ⟨_, _, _, _, _, read⟩ := getPacketMessage fresh fits message unread
  exact ⟨_, read, rfl⟩

-- The reader after the last of the packets.
def lastReader : RtmpProto → List Received → RtmpProto
  | b, [] => b
  | _, got :: later => lastReader got.proto later

theorem transcriptReceived {b b' : RtmpProto} {blocks : List Bytes} {pacs : List Packet}
    (transcript : Transcript ReadsMessage b blocks pacs b') (fresh : b.state = 0)
    (fits : b.readChunkSize + 1 < 2147483648) {pb : ReadBuffer} {rest : Bytes}
    (unread : pb.unread = blocks.flatten ++ rest) : ∃ received last,
      receiveAll pacs.length b pb = .ok (received, last) ∧ received.map Received.packet = pacs ∧
      lastReader b received = b' ∧ last.unread = rest := by
  induction transcript generalizing pb with
  | nil b => exact ⟨[], pb, rfl, rfl, rfl, unread⟩
  | @cons b b₁ b₂ block pac blocks pacs first later ih =>
    rw [List.flatten_cons, List.append_assoc] at unread
    obtain ⟨inside, read, reset⟩ := readsPacket fresh fits first unread
    obtain ⟨slot, channel, data, _, _, rfl⟩ := first
    obtain ⟨received, last, receives, packets, after, done⟩ := ih rfl fits (unreadSkipAppend pb unread)
    have whole : receiveAll (pac :: pacs).length b pb = .ok (⟨pac,
        (pb.skip block.length).current - pb.current, setChannelIn (rtmpPacketReset b) slot channel⟩ ::
        received, last) := by
      simp only [List.length_cons, receiveAll, read, Fallible.okBind, reset, receives]
    exact ⟨_, last, whole, congrArg (pac :: ·) packets, after, done⟩

-- What a writer goes on with: the records of its channels, and how messages are cut.
def SameWriter (proto b : RtmpProto) : Prop :=
  proto.writeChunkSize = b.writeChunkSize ∧ proto.channelsOut = b.channelsOut

theorem transcriptWriter {b b' : RtmpProto} {blocks : List Bytes} {pacs : List Packet}
    (transcript : Transcript ReadsMessage b blocks pacs b') : SameWriter b' b := by
  induction transcript with
  | nil b => exact ⟨rfl, rfl⟩
  | cons first later ih =>
    obtain ⟨slot, channel, data, _, _, rfl⟩ := first
    exact ih

-- A reader that is in step at first reads these packets, and is in step afterwards.
def Heard (c : Nat) (proto proto' : RtmpProto) (packets : List Packet) : Prop :=
  ∀ peer, Synced c proto peer → ∃ blocks, proto'.written = proto.written ++ blocks ∧
    ∀ {pb : ReadBuffer} {rest : Bytes}, pb.unread = blocks.flatten ++ rest → ∃ received last,
      receiveAll packets.length peer pb = .ok (received, last) ∧
      received.map Received.packet = packets ∧ last.unread = rest ∧
      Synced c proto' (lastReader peer received) ∧ SameWriter (lastReader peer received) peer

theorem spokenHeard {c : Nat} (fits : c + 1 < 2147483648) {proto proto' : RtmpProto} {packets : List Packet}
    (speaks : Speaks (wire c) proto proto' packets) : Heard c proto proto' packets := by
  intro peer synced
  obtain ⟨blocks, peer', written, transcript, after⟩ := speaks peer synced
  refine ⟨blocks, written, fun {pb rest} unread => ?_⟩
  have chunk := synced.chunkIn
  obtain ⟨received, last, receives, same, reader, done⟩ :=
    transcriptReceived transcript synced.between (by omega) unread
  subst reader
  exact ⟨received, last, receives, same, done, after, transcriptWriter transcript⟩

-- A sent packet as it arrives: the size is that of the payload.
def Packet.heard (pac : Packet) : Packet := { pac with channel := pac.sized }

-- The sum of the timers that have been sent on a channel.
def timers (slot : Fin 64) (packets : List Packet) : Int :=
  ((packets.filter fun pac => decide (pac.channelId = (slot.val : Int))).map fun pac => pac.channel.timer).sum

-- The bytes that the count of written bytes is ahead of those given to `on_write_data`.
def unbooked (proto : RtmpProto) : Int :=
  int32 (proto.numDownBytes - proto.written.flatten.length)

-- The writer's half goes on from one state to the other, and the reader's half stays.
structure Sends (c : Nat) (proto proto' : RtmpProto) (packets : List Packet) : Prop where
  kept : ReaderKept proto proto'
  channelId : proto'.channelId = proto.channelId
  writeChunkSize : proto'.writeChunkSize = proto.writeChunkSize
  speaks : Speaks (wire c) proto proto' packets
  booked : unbooked proto' = unbooked proto

def Clocked (proto proto' : RtmpProto) (packets : List Packet) : Prop :=
  ∀ slot, int32 (proto'.lastTimers slot) = int32 (proto.lastTimers slot + timers slot packets)

-- A timer stays as it is or shows what the clock does.
def Ticked (now : Int) (proto proto' : RtmpProto) : Prop :=
  ∀ slot, proto'.lastTimers slot = proto.lastTimers slot ∨ proto'.lastTimers slot = now

structure Replies (c : Nat) (now : Int) (proto proto' : RtmpProto) (packets : List Packet) : Prop
    extends Sends c proto proto' packets where
  clock : Clocked proto proto' packets
  ticked : Ticked now proto proto'

-- The same over packets that are handled one after the other, each on a channel of its own.
structure Utters (c : Nat) (proto proto' : RtmpProto) (packets : List Packet) : Prop where
  writeChunkSize : proto'.writeChunkSize = proto.writeChunkSize
  speaks : Speaks (wire c) proto proto' packets
  booked : unbooked proto' = unbooked proto
  clock : Clocked proto proto' packets

theorem timersAppend (slot : Fin 64) (packets more : List Packet) :
    timers slot (packets ++ more) = timers slot packets + timers slot more := by
  simp [timers]

theorem bookedWrite (table : MethodTable) (writes : table.onWriteData = true) (proto : RtmpProto)
    (data : Bytes) : unbooked (protoWriteData table proto data) = unbooked proto := by
  have counted : (protoWriteData table proto data).numDownBytes =
      int32 (proto.numDownBytes + data.length) := rfl
  have given : (protoWriteData table proto data).written = proto.written ++ [data] := if_pos writes
  have length : ((proto.written ++ [data]).flatten.length : Int) =
      proto.written.flatten.length + data.length := by simp
  rw [unbooked, unbooked, counted, given, length, int32, int32, Int.bmod_sub_bmod, int32]
  congr 1
  omega

theorem syncedFrame {c : Nat} {a a' b : RtmpProto} (synced : Synced c a b)
    (channelsOut : a'.channelsOut = a.channelsOut) (chunk : a'.writeChunkSize = a.writeChunkSize) :
    Synced c a' b where
  chunkOut := chunk.trans synced.chunkOut
  chunkIn := synced.chunkIn
  between := synced.between
  usedOut slot h := by rw [channelsOut]; exact synced.usedOut slot h
  usedIn := synced.usedIn
  records slot h f := by rw [channelsOut]; exact synced.records slot h f
  streamId slot h := by rw [channelsOut]; exact synced.streamId slot h

section Chain
variable {c : Nat} {now : Int} {proto proto₁ proto₂ : RtmpProto} {packets more : List Packet}

theorem sendsThen (first : Sends c proto proto₁ packets) (second : Sends c proto₁ proto₂ more) :
    Sends c proto proto₂ (packets ++ more) where
  kept := readerKeptTrans first.kept second.kept
  channelId := second.channelId.trans first.channelId
  writeChunkSize := second.writeChunkSize.trans first.writeChunkSize
  speaks := speaksThen first.speaks second.speaks
  booked := second.booked.trans first.booked

theorem clockedThen (first : Clocked proto proto₁ packets) (second : Clocked proto₁ proto₂ more) :
    Clocked proto proto₂ (packets ++ more) := by
  intro slot
  rw [second, timersAppend, ← Int.add_assoc]
  exact Int.add_bmod_eq_add_bmod_right _ (first slot)

theorem tickedThen (first : Ticked now proto proto₁) (second : Ticked now proto₁ proto₂) :
    Ticked now proto proto₂ := by
  intro slot
  rcases second slot with same | later
  · rw [same]
    exact first slot
  · exact .inr later

theorem tickedSame (same : proto₁.lastTimers = proto.lastTimers) : Ticked now proto proto₁ :=
  fun slot => .inl (congrFun same slot)

theorem repliesThen (first : Replies c now proto proto₁ packets)
    (second : Replies c now proto₁ proto₂ more) : Replies c now proto proto₂ (packets ++ more) :=
  ⟨sendsThen first.toSends second.toSends, clockedThen first.clock second.clock,
    tickedThen first.ticked second.ticked⟩

theorem Replies.utters (replies : Replies c now proto proto₁ packets) : Utters c proto proto₁ packets :=
  ⟨replies.writeChunkSize, replies.speaks, replies.booked, replies.clock⟩

theorem uttersThen (first : Utters c proto proto₁ packets) (second : Utters c proto₁ proto₂ more) :
    Utters c proto proto₂ (packets ++ more) where
  writeChunkSize := second.writeChunkSize.trans first.writeChunkSize
  speaks := speaksThen first.speaks second.speaks
  booked := second.booked.trans first.booked
  clock := clockedThen first.clock second.clock

theorem sendsNothing (kept : ReaderKept proto proto₁) (channelId : proto₁.channelId = proto.channelId)
    (chunk : proto₁.writeChunkSize = proto.writeChunkSize)
    (channelsOut : proto₁.channelsOut = proto.channelsOut) (written : proto₁.written = proto.written)
    (counted : proto₁.numDownBytes = proto.numDownBytes) : Sends c proto proto₁ [] where
  kept := kept
  channelId := channelId
  writeChunkSize := chunk
  speaks := speaksNothing written fun _ synced => syncedFrame synced channelsOut chunk
  booked := by rw [unbooked, unbooked, written, counted]

theorem clockedNothing (same : proto₁.lastTimers = proto.lastTimers) : Clocked proto proto₁ [] := by
  intro slot
  simp [same, timers]

theorem uttersNothing (chunk : proto₁.writeChunkSize = proto.writeChunkSize)
    (channelsOut : proto₁.channelsOut = proto.channelsOut) (written : proto₁.written = proto.written)
    (counted : proto₁.numDownBytes = proto.numDownBytes) (timed : proto₁.lastTimers = proto.lastTimers) :
    Utters c proto proto₁ [] where
  writeChunkSize := chunk
  speaks := speaksNothing written fun _ synced => syncedFrame synced channelsOut chunk
  booked := by rw [unbooked, unbooked, written, counted]
  clock := clockedNothing timed

theorem repliesNothing (kept : ReaderKept proto proto₁) (channelId : proto₁.channelId = proto.channelId)
    (chunk : proto₁.writeChunkSize = proto.writeChunkSize)
    (channelsOut : proto₁.channelsOut = proto.channelsOut) (written : proto₁.written = proto.written)
    (counted : proto₁.numDownBytes = proto.numDownBytes) (timed : proto₁.lastTimers = proto.lastTimers) :
    Replies c now proto proto₁ [] :=
  ⟨sendsNothing kept channelId chunk channelsOut written counted, clockedNothing timed, tickedSame timed⟩

theorem repliesRefl (proto : RtmpProto) : Replies c now proto proto [] :=
  repliesNothing (readerKeptRefl proto) rfl rfl rfl rfl rfl rfl

end Chain

theorem channelSame {a b : Channel} (used : a.used = b.used) (fields : ∀ f, a.field f = b.field f) :
    a = b := by
  have timer := fields .timer
  have size := fields .size
  have dataType := fields .dataType
  have streamId := fields .streamId
  cases a
  cases b
  simp_all [Channel.field]

-- A packet the library builds, on a channel of the exchange.
structure Spoken (slot : Fin 64) (pac : Packet) : Prop where
  exchanged : Exchanged slot
  named : pac.channelId = slot.val
  sendable : Sendable pac
  streamId : pac.channel.streamId = 0
  used : pac.channel.used = true

section Send
variable {table : MethodTable} (writes : table.onWriteData = true) {c : Nat} (proto : RtmpProto)
  {slot : Fin 64} {pac : Packet} (spoken : Spoken slot pac) (current : proto.channelId = slot.val)
include spoken current

theorem facingCurrent : facing proto pac.channelId = proto := by
  rw [spoken.named, ← current]
  rfl

include writes in
theorem sendWritten (positive : 1 ≤ proto.writeChunkSize) :
    rtmpProtoSendPacket table proto pac false = .ok (protoWriteData table (packetSent proto slot pac)
      (packetBytes proto slot pac false)) := by
  obtain ⟨told, pb, written, value⟩ := writePacketFresh proto spoken.named current
    (exchangedForm spoken.exchanged) positive spoken.sendable.short false
  have some : 0 < (packetBytes proto slot pac false).length := by
    rw [packetBytesLength pac current positive]
    omega
  rw [← value] at some ⊢
  simp only [rtmpProtoSendPacket, written, Fallible.okBind, checkTrue writes, checkTrue some]

theorem packetRead (positive : 1 ≤ c) {peer : RtmpProto} (synced : Synced c proto peer) :
    ∃ peer', ReadsMessage peer (packetBytes proto slot pac false) pac.heard peer' ∧
      Synced c (packetSent proto slot pac) peer' := by
  have facing := facingCurrent proto spoken current
  have message := exchangeMessage positive synced spoken.exchanged spoken.named spoken.sendable spoken.streamId
  have next := syncedStep synced spoken.exchanged spoken.streamId
  have records := exchangeRecords synced spoken.exchanged spoken.streamId
  rw [facing] at message next
  have same : sentChannel (chosenMask (proto.channelsOut slot) pac.sized) (peer.channelsIn slot)
      (onWire pac.sized) = pac.sized := by
    refine channelSame ?_ fun f => (records f).2
    rw [sentUsed, synced.usedIn slot spoken.exchanged]
    exact spoken.used.symm
  rw [same] at message next
  rw [← synced.chunkIn] at message
  refine ⟨_, ⟨slot, pac.sized, pac.data, message, ?_, rfl⟩, next⟩
  rw [Packet.heard, ← spoken.named]

include writes in
theorem sendSends (chunk : proto.writeChunkSize = c) (positive : 1 ≤ c) : ∃ proto',
    rtmpProtoSendPacket table proto pac false = .ok proto' ∧ Sends c proto proto' [pac.heard] ∧
    proto'.lastTimers = proto.lastTimers ∧ proto'.nextRequestId = proto.nextRequestId := by
  have sent := sendWritten writes proto spoken current (by omega)
  have written : (protoWriteData table (packetSent proto slot pac) (packetBytes proto slot pac false)).written =
      proto.written ++ [packetBytes proto slot pac false] := if_pos writes
  refine ⟨_, sent, ⟨⟨rfl, rfl, rfl, rfl, rfl, rfl⟩, rfl, rfl, speaksOne written ?_, ?_⟩, rfl, rfl⟩
  · intro peer synced
    obtain ⟨peer', read, after⟩ := packetRead proto spoken current positive synced
    exact ⟨peer', read, syncedFrame after rfl rfl⟩
  · exact bookedWrite table writes (packetSent proto slot pac) (packetBytes proto slot pac false)

end Send

-- What the clock shows fits into the timer of a header, on each channel of the exchange.
def Timely (now : Int) (proto : RtmpProto) : Prop :=
  ∀ slot, Exchanged slot → proto.lastTimers slot ≤ now ∧ now ≤ proto.lastTimers slot + 0xfffffe

theorem timelyTimer {now : Int} {proto : RtmpProto} (timely : Timely now proto) {slot : Fin 64}
    (exchanged : Exchanged slot) : rtmpPacketGetLastTimer proto slot.val now =
      .ok (now - proto.lastTimers slot,
        { proto with lastTimers := Function.update proto.lastTimers slot now }) := by
  have bound := timely slot exchanged
  have inside := slot.isLt
  have same : int32 (now - proto.lastTimers slot) = now - proto.lastTimers slot :=
    int32Same (by omega) (by omega)
  rw [rtmpPacketGetLastTimer, checkTrue (by omega), Fallible.okBind, tableEntryOk.mpr rfl, Fallible.okBind,
    same]

theorem tickedTimely {now : Int} {proto proto' : RtmpProto} (timely : Timely now proto)
    (ticked : Ticked now proto proto') : Timely now proto' := by
  intro slot exchanged
  have before := timely slot exchanged
  rcases ticked slot with same | later
  · rw [same]
    exact before
  · omega

theorem tickedUpdate {now : Int} {proto proto' : RtmpProto} {slot : Fin 64}
    (timed : proto'.lastTimers = Function.update proto.lastTimers slot now) : Ticked now proto proto' := by
  intro other
  rw [timed]
  rcases eq_or_ne other slot with rfl | different
  · exact .inr (Function.update_self _ _ _)
  · exact .inl (Function.update_of_ne different _ _)

-- The packet `slot` gets next, with a payload that the reader of the peer accepts.
def ownPacket (slot : Fin 64) (timer dataType : Int) (data : Bytes) : Packet :=
  ⟨slot.val, ownChannel timer dataType, data⟩

section Own
variable {table : MethodTable} (writes : table.onWriteData = true) {c : Nat} (positive : 1 ≤ c)
  (proto : RtmpProto) (chunk : proto.writeChunkSize = c) {slot : Fin 64} (exchanged : Exchanged slot)
  (current : proto.channelId = slot.val) (dataType : Int) (typeLow : 1 ≤ dataType)
  (typeHigh : dataType ≤ 255) {data : Bytes} (short : data.length ≤ 32767)
include exchanged typeLow typeHigh short

theorem ownSpoken {timer : Int} (low : 0 ≤ timer) (high : timer ≤ 0xfffffe) :
    Spoken slot (ownPacket slot timer dataType data) :=
  ⟨exchanged, rfl, ⟨low, high, typeLow, typeHigh, short⟩, rfl, rfl⟩

include writes positive chunk current in
theorem ownReplies {now : Int} (timely : Timely now proto) : ∃ timed proto',
    rtmpPacketGetLastTimer proto slot.val now = .ok (now - proto.lastTimers slot, timed) ∧
    rtmpProtoSendPacket table timed (ownPacket slot (now - proto.lastTimers slot) dataType data) false =
      .ok proto' ∧
    Replies c now proto proto' [(ownPacket slot (now - proto.lastTimers slot) dataType data).heard] ∧
    proto'.nextRequestId = proto.nextRequestId := by
  have bound := timely slot exchanged
  have spoken : Spoken slot (ownPacket slot (now - proto.lastTimers slot) dataType data) :=
    ownSpoken exchanged dataType typeLow typeHigh short (by omega) (by omega)
  have timing := timelyTimer timely exchanged
  generalize packet : ownPacket slot (now - proto.lastTimers slot) dataType data = pac at spoken
  have same : pac.heard.channel.timer = now - proto.lastTimers slot ∧ pac.heard.channelId = slot.val := by
    rw [← packet]
    exact ⟨rfl, rfl⟩
  have entered : Sends c proto { proto with lastTimers := Function.update proto.lastTimers slot now } [] :=
    sendsNothing ⟨rfl, rfl, rfl, rfl, rfl, rfl⟩ rfl rfl rfl rfl rfl
  obtain ⟨proto', sent, sends, timers', counter⟩ := sendSends writes
    { proto with lastTimers := Function.update proto.lastTimers slot now } spoken current chunk positive
  refine ⟨_, proto', timing, sent, ⟨sendsThen entered sends, ?_, tickedUpdate timers'⟩, counter⟩
  intro other
  rw [timers']
  rcases eq_or_ne other slot with rfl | different
  · simp [timers, same]
  · have apart : ¬ (slot.val : Int) = other.val := fun h => different (Fin.ext (by omega))
    simp [timers, same, apart, Function.update_of_ne different]

end Own

end Rushkit
