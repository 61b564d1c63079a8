import Rushkit.PacketStream

/-! The upkeep of the channel tables (`packet.c`). Entries are cleared and deleted at either end
between the packets of a stream; the book tells on which channels the next one can still be sent. -/
namespace Rushkit
open ReadBuffer

def deletedChannel (pchannel : Channel) : Channel := { pchannel with used := false }

-- The index is one inside the table, as both assert.
def rtmpPacketDeleteOutChannel (proto : RtmpProto) (channelId : Fin 64) : RtmpProto :=
  { proto with
    channelsOut := Function.update proto.channelsOut channelId (deletedChannel (proto.channelsOut channelId)) }

def rtmpPacketDeleteInChannel (proto : RtmpProto) (channelId : Fin 64) : RtmpProto :=
  { proto with
    channelsIn := Function.update proto.channelsIn channelId (deletedChannel (proto.channelsIn channelId)) }

inductive Upkeep where
  | clear (channelId : Fin 64)
  | delete (channelId : Fin 64)
  deriving DecidableEq, Repr

def upkeepOut (proto : RtmpProto) : Upkeep → RtmpProto
  | .clear channelId => rtmpPacketClearOutChannel proto channelId
  | .delete channelId => rtmpPacketDeleteOutChannel proto channelId

def upkeepIn (proto : RtmpProto) : Upkeep → RtmpProto
  | .clear channelId => rtmpPacketClearInChannel proto channelId
  | .delete channelId => rtmpPacketDeleteInChannel proto channelId

-- The upkeep of each end before a packet, and the packet.
structure Passage where
  out : List Upkeep
  into : List Upkeep
  packet : Packet

def sendPassages : RtmpProto → List Passage → Res (List Sent)
  | _, [] => .ok []
  | a, passage :: rest => do
    let (_, a, pb) ← rtmpPacketWritePacket (facing (passage.out.foldl upkeepOut a) passage.packet.channelId)
      (rtmpWbInit 1024) passage.packet false
    let later ← sendPassages a rest
    .ok (⟨passage.packet, rtmpWbGetValue pb, a⟩ :: later)

-- The reader works on the whole stream, so the writer may be any number of packets ahead.
def receivePassages : List Passage → RtmpProto → ReadBuffer → Res (List Received × ReadBuffer)
  | [], _, pb => .ok ([], pb)
  | passage :: rest, b, pb => do
    let (pac, b, next) ← rtmpPacketGetPacket (passage.into.foldl upkeepIn b) pb
    let (later, last) ← receivePassages rest (rtmpPacketReset b) next
    .ok (⟨pac, next.current - pb.current, rtmpPacketReset b⟩ :: later, last)

/- What the two entries for a channel have seen: whether the reader's is open, the type and size
of the packet that the writer's remembers, and whether the reader's was cleared since. -/
structure Entry where
  opened : Bool
  sent : Option (Int × Int)
  cleared : Bool
  deriving DecidableEq, Repr

abbrev Book := Fin 64 → Entry

def bookInit : Book := fun slot => ⟨decide (slot.val < 4), none, false⟩

def bookOut (book : Book) : Upkeep → Book
  | .clear channelId | .delete channelId =>
    Function.update book channelId { book channelId with sent := none }

def bookIn (book : Book) : Upkeep → Book
  | .clear channelId =>
    Function.update book channelId { book channelId with opened := true, cleared := true }
  | .delete channelId => Function.update book channelId { book channelId with opened := false }

def Entry.after (entry : Entry) (pac : Packet) : Entry :=
  { entry with sent := some (pac.channel.dataType, (pac.data.length : Int)), cleared := false }

def bookSent (book : Book) (slot : Fin 64) (pac : Packet) : Book :=
  Function.update book slot ((book slot).after pac)

structure Passable (slot : Fin 64) (pac : Packet) : Prop where
  named : pac.channelId = slot.val
  form : 2 ≤ slot.val
  sendable : Sendable pac
  streamId : pac.channel.streamId = 0

-- The header leaves out no type and size that the reader has lost.
def Entry.Complete (entry : Entry) (pac : Packet) : Prop :=
  entry.cleared = true → entry.sent ≠ some (pac.channel.dataType, (pac.data.length : Int))

-- Each packet finds its channel open at the reader, and a complete header.
inductive Deliverable : Book → List Passage → Prop where
  | done {book : Book} : Deliverable book []
  | passage {book kept : Book} {passage : Passage} {rest : List Passage} {slot : Fin 64}
      (upkeep : passage.into.foldl bookIn (passage.out.foldl bookOut book) = kept)
      (named : passage.packet.channelId = slot.val) (opened : (kept slot).opened = true)
      (complete : (kept slot).Complete passage.packet)
      (later : Deliverable (bookSent kept slot passage.packet) rest) : Deliverable book (passage :: rest)

def Fresh (out : Channel) : Prop := out.used = false ∨ (out.streamId = 0 ∧ out.dataType = 0)

structure Remembers (cleared : Bool) (out into : Channel) (dataType size : Int) : Prop where
  used : out.used = true
  streamId : out.streamId = 0
  dataType : out.dataType = dataType
  size : out.size = size
  same : cleared = false → ∀ f, out.field f = into.field f
  blank : cleared = true → ∀ f, into.field f = 0

def Stands (entry : Entry) (out into : Channel) : Prop :=
  match entry.sent with
  | none => Fresh out
  | some (dataType, size) => Remembers entry.cleared out into dataType size

structure EntryKept (entry : Entry) (out into : Channel) : Prop where
  used : into.used = entry.opened
  streamId : into.streamId = 0
  stands : Stands entry out into

theorem keptFresh {entry : Entry} {out out' into : Channel} (kept : EntryKept entry out into)
    (fresh : Fresh out') : EntryKept { entry with sent := none } out' into :=
  ⟨kept.used, kept.streamId, fresh⟩

theorem keptCleared {entry : Entry} {out into : Channel} (kept : EntryKept entry out into) :
    EntryKept { entry with opened := true, cleared := true } out initChannel := by
  obtain ⟨opened, sent, cleared⟩ := entry
  refine ⟨rfl, rfl, ?_⟩
  cases sent with
  | none => exact kept.stands
  | some last =>
    obtain ⟨used, streamId, dataType, size, _, _⟩ := kept.stands
    exact ⟨used, streamId, dataType, size, fun never => by contradiction, fun _ f => by cases f <;> rfl⟩

theorem keptDeleted {entry : Entry} {out into : Channel} (kept : EntryKept entry out into) :
    EntryKept { entry with opened := false } out (deletedChannel into) := by
  obtain ⟨opened, sent, cleared⟩ := entry
  have fields (f : Field) : (deletedChannel into).field f = into.field f := by cases f <;> rfl
  refine ⟨rfl, kept.streamId, ?_⟩
  cases sent with
  | none => exact kept.stands
  | some last =>
    obtain ⟨used, streamId, dataType, size, same, blank⟩ := kept.stands
    exact ⟨used, streamId, dataType, size, fun seen f => (same seen f).trans (fields f).symm,
      fun lost f => (fields f).trans (blank lost f)⟩

theorem omittedSource {out channel : Channel} (used : out.used = true) (source : out.streamId = channel.streamId)
    (typed : ¬ (out.dataType = channel.dataType ∧ out.size = channel.size)) {f : Field}
    (omitted : transmits (chosenMask out channel) f = false) : f = .streamId := by
  rw [chosenMask, if_neg (by rw [used]; exact Bool.noConfusion), if_neg typed, if_pos source] at omitted
  cases f with
  | streamId => rfl
  | timer => contradiction
  | size => contradiction
  | dataType => contradiction

theorem timerOnly {packetMask : Nat} (late : channelTimerChange ≤ packetMask) (pchannel channel : Channel) :
    (sentChannel packetMask pchannel channel).dataType = pchannel.dataType ∧
    (sentChannel packetMask pchannel channel).size = pchannel.size ∧
    ((sentChannel packetMask pchannel channel).timer = channel.timer ∨
      (sentChannel packetMask pchannel channel).timer = pchannel.timer) := by
  have two : channelTimerChange = 2 := rfl
  unfold sentChannel
  split
  · exact ⟨rfl, rfl, .inl rfl⟩
  · rw [if_neg (by unfold channelSameSource; omega), if_neg (by unfold channelNew; omega)]
    exact ⟨rfl, rfl, .inr rfl⟩

section Entries
variable {entry : Entry} {out into : Channel} (kept : EntryKept entry out into) {slot : Fin 64} {pac : Packet}
  (passable : Passable slot pac) (complete : entry.Complete pac)
include kept passable complete

theorem omittedHeld {f : Field} (omitted : transmits (chosenMask out pac.sized) f = false) :
    pac.sized.field f = (openedChannel out).field f ∧ pac.sized.field f = into.field f := by
  have streamId : pac.sized.streamId = 0 := passable.streamId
  have used : out.used = true := by
    by_contra unused
    rw [chosenMask, if_pos (Bool.eq_false_of_not_eq_true unused)] at omitted
    cases f <;> contradiction
  have stands := kept.stands
  unfold Stands at stands
  split at stands
  · rename_i nothing
    obtain unused | ⟨zero, untyped⟩ := stands
    · rw [used] at unused
      contradiction
    have source : out.streamId = pac.sized.streamId := zero.trans streamId.symm
    have low : 1 ≤ pac.sized.dataType := passable.sendable.typeLow
    cases omittedSource used source (fun both => by omega) omitted
    rw [openedInUse used]
    exact ⟨source.symm, streamId.trans kept.streamId.symm⟩
  · rename_i dataType size sent
    have source : out.streamId = pac.sized.streamId := stands.streamId.trans streamId.symm
    cases cleared : entry.cleared with
    | false =>
      have known := omittedKnown (.inr (.inl source)) f omitted
      rw [openedInUse used] at known ⊢
      exact ⟨known, known.trans (stands.same cleared f)⟩
    | true =>
      have other : ¬ (out.dataType = pac.sized.dataType ∧ out.size = pac.sized.size) := by
        rw [stands.dataType, stands.size]
        rintro ⟨rfl, rfl⟩
        exact complete cleared sent
      cases omittedSource used source other omitted
      rw [openedInUse used]
      exact ⟨source.symm, streamId.trans kept.streamId.symm⟩

theorem recordsSent (f : Field) :
    (sentChannel (chosenMask out pac.sized) (openedChannel out) pac.sized).field f = pac.sized.field f ∧
    (sentChannel (chosenMask out pac.sized) into (onWire pac.sized)).field f = pac.sized.field f := by
  have mask := chosenMaskBound out pac.sized
  have wire : onWire pac.sized = pac.sized := by
    have zero : pac.sized.streamId = 0 := passable.streamId
    rw [onWire, zero, wireStreamZero, ← zero]
  rw [wire, sentField mask, sentField mask]
  split
  · exact ⟨rfl, rfl⟩
  · rename_i omitted
    have held := omittedHeld kept passable complete (Bool.eq_false_of_not_eq_true omitted)
    exact ⟨held.1.symm, held.2.symm⟩

theorem keptSent : EntryKept (entry.after pac)
    (sentChannel (chosenMask out pac.sized) (openedChannel out) pac.sized)
    (sentChannel (chosenMask out pac.sized) into (onWire pac.sized)) := by
  have records f := recordsSent kept passable complete f
  refine ⟨(sentUsed _ _ _).trans kept.used, (records .streamId).2.trans passable.streamId, ?_⟩
  exact ⟨(sentUsed _ _ _).trans (openedUsed out), (records .streamId).1.trans passable.streamId,
    (records .dataType).1, (records .size).1, fun _ f => (records f).1.trans (records f).2.symm,
    fun never => by contradiction⟩

end Entries

structure Upheld (c : Nat) (book : Book) (a b : RtmpProto) : Prop where
  chunkOut : a.writeChunkSize = c
  chunkIn : b.readChunkSize = c
  between : b.state = 0
  entries : ∀ slot, EntryKept (book slot) (a.channelsOut slot) (b.channelsIn slot)

theorem upheldInit (c : Nat) : Upheld c bookInit (sender c) (receiver c) where
  chunkOut := rfl
  chunkIn := rfl
  between := rfl
  entries slot := by
    have out : (sender c).channelsOut slot = if slot.val < 4 then initChannel else zeroChannel := by
      show rtmpProtoInit.channelsOut slot = _
      rw [channelsOutInit, channelsInInit]
    have into : (receiver c).channelsIn slot = if slot.val < 4 then initChannel else zeroChannel := by
      show rtmpProtoInit.channelsIn slot = _
      rw [channelsInInit]
    rw [out, into]
    by_cases low : slot.val < 4
    · rw [if_pos low]
      exact ⟨(decide_eq_true low).symm, rfl, .inr ⟨rfl, rfl⟩⟩
    · rw [if_neg low]
      exact ⟨(decide_eq_false low).symm, rfl, .inl rfl⟩

theorem entriesUpdated {book : Book} {out into : ChannelTable}
    (entries : ∀ slot, EntryKept (book slot) (out slot) (into slot)) (slot : Fin 64) {entry : Entry}
    {out' into' : Channel} (kept : EntryKept entry out' into') (other : Fin 64) :
    EntryKept (Function.update book slot entry other) (Function.update out slot out' other)
      (Function.update into slot into' other) := by
  rcases eq_or_ne other slot with rfl | different
  · rw [Function.update_self, Function.update_self, Function.update_self]
    exact kept
  · rw [Function.update_of_ne different, Function.update_of_ne different, Function.update_of_ne different]
    exact entries other

section Keeping
variable {c : Nat} {book : Book} {a b : RtmpProto} (upheld : Upheld c book a b)
include upheld

theorem upheldFresh (slot : Fin 64) {pchannel : Channel} (fresh : Fresh pchannel) :
    Upheld c (Function.update book slot { book slot with sent := none })
      { a with channelsOut := Function.update a.channelsOut slot pchannel } b where
  chunkOut := upheld.chunkOut
  chunkIn := upheld.chunkIn
  between := upheld.between
  entries other := by
    have updated := entriesUpdated upheld.entries slot (keptFresh (upheld.entries slot) fresh) other
    rw [Function.update_eq_self] at updated
    exact updated

theorem upheldOut (upkeep : Upkeep) : Upheld c (bookOut book upkeep) (upkeepOut a upkeep) b := by
  cases upkeep with
  | clear channelId => exact upheldFresh upheld channelId (.inr ⟨rfl, rfl⟩)
  | delete channelId => exact upheldFresh upheld channelId (.inl rfl)

theorem upheldEntry {slot : Fin 64} {entry : Entry} {pchannel : Channel}
    (kept : EntryKept entry (a.channelsOut slot) pchannel) :
    Upheld c (Function.update book slot entry) a
      { b with channelsIn := Function.update b.channelsIn slot pchannel } where
  chunkOut := upheld.chunkOut
  chunkIn := upheld.chunkIn
  between := upheld.between
  entries other := by
    have updated := entriesUpdated upheld.entries slot kept other
    rw [Function.update_eq_self] at updated
    exact updated

theorem upheldIn (upkeep : Upkeep) : Upheld c (bookIn book upkeep) a (upkeepIn b upkeep) := by
  cases upkeep with
  | clear channelId => exact upheldEntry upheld (keptCleared (upheld.entries channelId))
  | delete channelId => exact upheldEntry upheld (keptDeleted (upheld.entries channelId))

end Keeping

theorem upheldAll {c : Nat} (out into : List Upkeep) {book : Book} {a b : RtmpProto} (upheld : Upheld c book a b) :
    Upheld c (into.foldl bookIn (out.foldl bookOut book)) (out.foldl upkeepOut a)
      (into.foldl upkeepIn b) := by
  induction out generalizing book a with
  | cons upkeep out ih => exact ih (upheldOut upheld upkeep)
  | nil =>
    induction into generalizing book b with
    | nil => exact upheld
    | cons upkeep into ih => exact ih (upheldIn upheld upkeep)

theorem passableWritten {c : Nat} (positive : 1 ≤ c) {a : RtmpProto} (chunk : a.writeChunkSize = c) {slot : Fin 64}
    {pac : Packet} (passable : Passable slot pac) : ∃ told pb,
    rtmpPacketWritePacket (facing a pac.channelId) (rtmpWbInit 1024) pac false =
      .ok (told, packetSent (facing a pac.channelId) slot pac, pb) ∧
    rtmpWbGetValue pb = packetBytes (facing a pac.channelId) slot pac false := by
  rw [← chunk] at positive
  exact writePacketFresh (facing a pac.channelId) passable.named passable.named passable.form positive
    passable.sendable.short false

section Sending
variable {c : Nat} {book : Book} {a b : RtmpProto} (upheld : Upheld c book a b) {slot : Fin 64}
  {pac : Packet} (passable : Passable slot pac) (positive : 1 ≤ c) (fits : c + 1 < 2147483648) {pb : ReadBuffer}
  {rest : Bytes} (unread : pb.unread = packetBytes (facing a pac.channelId) slot pac false ++ rest)
include upheld passable

theorem upheldSent (complete : (book slot).Complete pac) :
    Upheld c (bookSent book slot pac) (packetSent (facing a pac.channelId) slot pac)
      (setChannelIn (rtmpPacketReset b) slot (sentChannel (chosenMask (a.channelsOut slot) pac.sized)
        (b.channelsIn slot) (onWire pac.sized))) where
  chunkOut := upheld.chunkOut
  chunkIn := upheld.chunkIn
  between := rfl
  entries := entriesUpdated upheld.entries slot (keptSent (upheld.entries slot) passable complete)

include positive fits unread

theorem completeRead (opened : (book slot).opened = true) (complete : (book slot).Complete pac) :
    ∃ b', rtmpPacketGetPacket b pb = .ok (⟨slot.val, sentChannel (chosenMask (a.channelsOut slot) pac.sized)
        (b.channelsIn slot) (onWire pac.sized), pac.data⟩, b',
        pb.skip (packetBytes (facing a pac.channelId) slot pac false).length) ∧
      rtmpPacketReset b' = setChannelIn (rtmpPacketReset b) slot
        (sentChannel (chosenMask (a.channelsOut slot) pac.sized) (b.channelsIn slot)
          (onWire pac.sized)) := by
  have records f := (recordsSent (upheld.entries slot) passable complete f).2
  have used := (upheld.entries slot).used.trans opened
  have message := packetBytesMessage (facing a pac.channelId) passable.named passable.form
    (by rw [← upheld.chunkOut] at positive; exact positive) passable.sendable used rfl
    (records .size) (records .dataType) (records .timer)
  have chunks : (facing a pac.channelId).writeChunkSize = b.readChunkSize :=
    upheld.chunkOut.trans upheld.chunkIn.symm
  rw [chunks] at message
  rw [← upheld.chunkIn] at fits
  obtain ⟨_, _, _, _, _, read⟩ := getPacketMessage upheld.between fits message unread
  exact ⟨_, read, rfl⟩

theorem closedRejected (closed : (book slot).opened = false) : ∃ e, rtmpPacketGetPacket b pb = .error e := by
  have unusable : Unusable b.channelsIn slot.val := by
    intro other named
    cases Fin.ext (Int.ofNat_inj.mp named)
    exact (upheld.entries slot).used.trans closed
  have header := basicHeaderShort (chosenMaskBound (a.channelsOut slot) pac.sized) passable.form
  rw [packetBytes, List.append_assoc] at unread
  have current : (facing a pac.channelId).channelId = slot.val := passable.named
  rw [current] at unread
  rw [← upheld.chunkIn] at positive fits
  obtain ⟨e, fails, _⟩ := getPacketRejected upheld.between positive fits (.channel _ header unusable) unread
  exact ⟨e, fails⟩

-- The header announces a packet of no bytes without a type, and for that the reader wants four bytes.
theorem lostRejected (opened : (book slot).opened = true) (lost : ¬ (book slot).Complete pac) :
    ∃ e, rtmpPacketGetPacket b pb = .error e := by
  obtain ⟨cleared, sent⟩ : (book slot).cleared = true ∧
      (book slot).sent = some (pac.channel.dataType, (pac.data.length : Int)) := by
    unfold Entry.Complete at lost
    push Not at lost
    exact lost
  have stands := (upheld.entries slot).stands
  rw [Stands, sent, cleared] at stands
  obtain ⟨used, streamId, dataType, size, _, blank⟩ := stands
  have source : (a.channelsOut slot).streamId = pac.sized.streamId := streamId.trans passable.streamId.symm
  have late : channelTimerChange ≤ chosenMask (a.channelsOut slot) pac.sized := by
    rw [chosenMask, if_neg (by rw [used]; exact Bool.noConfusion), if_pos source, if_pos ⟨dataType, size⟩]
    split <;> decide
  obtain ⟨head, body, _, bytes, header, _⟩ := packetBytesHead (facing a pac.channelId) passable.named
    passable.form (by rw [← upheld.chunkOut] at positive; exact positive) passable.sendable.framed
    ((upheld.entries slot).used.trans opened) false
  have late' : channelTimerChange ≤ chosenMask ((facing a pac.channelId).channelsOut slot) pac.sized := late
  have kept := timerOnly late' (b.channelsIn slot) (onWireAt (sentTime false
    (openedChannel ((facing a pac.channelId).channelsOut slot)) pac.sized) pac.sized)
  generalize sentChannel (chosenMask ((facing a pac.channelId).channelsOut slot) pac.sized)
    (b.channelsIn slot) _ = channel at header kept
  obtain ⟨sameType, sameSize, timer⟩ := kept
  have untyped : channel.dataType = 0 := sameType.trans (blank rfl .dataType)
  have none : channel.size = 0 := sameSize.trans (blank rfl .size)
  have plain : addcodeWidth channel = 0 := by
    have low := passable.sendable.timerLow
    have high := passable.sendable.timerHigh
    have sentTimer : (onWireAt (sentTime false (openedChannel ((facing a pac.channelId).channelsOut slot))
        pac.sized) pac.sized).timer = pac.channel.timer % 16777216 := rfl
    have zero : (b.channelsIn slot).timer = 0 := blank rfl .timer
    exact if_neg (by omega)
  have announced := Opened.mk header (by rw [none]; decide) (show ([] : Bytes).length = _ from plain.symm)
  rw [bytes, List.append_assoc, ← List.append_nil head] at unread
  rw [← upheld.chunkIn] at positive fits
  rcases Nat.lt_or_ge (body ++ rest).length 4 with short | arrived
  · exact ⟨_, getPacketStarved upheld.between (.untyped _ announced (by omega) short) unread⟩
  · obtain ⟨e, fails, _⟩ := getPacketRejected upheld.between positive fits
      (.cramped _ announced (by omega) arrived (by omega)) unread
    exact ⟨e, fails⟩

end Sending

structure Arrived (sent : Sent) (got : Received) : Prop where
  channelId : got.packet.channelId = sent.packet.channelId
  fields : ∀ f, got.packet.channel.field f = sent.packet.sized.field f
  data : got.packet.data = sent.packet.data
  consumed : got.consumed = sent.bytes.length
  records : ∀ slot : Fin 64, sent.packet.channelId = slot.val → ∀ f,
    (sent.proto.channelsOut slot).field f = (got.proto.channelsIn slot).field f

theorem outChunk (upkeep : List Upkeep) (a : RtmpProto) :
    (upkeep.foldl upkeepOut a).writeChunkSize = a.writeChunkSize := by
  induction upkeep generalizing a with
  | nil => rfl
  | cons first upkeep ih =>
    rw [List.foldl_cons, ih]
    cases first with
    | clear channelId => rfl
    | delete channelId => rfl

section Streams
variable {c : Nat} (positive : 1 ≤ c)
include positive

theorem passagesSent {passages : List Passage} (each : ∀ passage ∈ passages, ∃ slot, Passable slot passage.packet)
    {a : RtmpProto} (chunk : a.writeChunkSize = c) :
    ∃ sent, sendPassages a passages = .ok sent ∧ sent.map Sent.packet = passages.map Passage.packet := by
  induction passages generalizing a with
  | nil => exact ⟨[], rfl, rfl⟩
  | cons passage passages ih =>
    obtain ⟨⟨slot, passable⟩, others⟩ := List.forall_mem_cons.mp each
    have chunk' := (outChunk passage.out a).trans chunk
    obtain ⟨told, wb, written, _⟩ := passableWritten positive chunk' passable
    generalize after : packetSent (facing (passage.out.foldl upkeepOut a) passage.packet.channelId) slot
      passage.packet = a' at written
    have chunk'' : a'.writeChunkSize = c := by
      rw [← after]
      exact chunk'
    obtain ⟨sent, sending, same⟩ := ih others chunk''
    refine ⟨⟨passage.packet, rtmpWbGetValue wb, a'⟩ :: sent, ?_, ?_⟩
    · simp only [sendPassages, written, Fallible.okBind, sending]
    · rw [List.map_cons, List.map_cons, same]

variable (fits : c + 1 < 2147483648)
include fits

theorem passagesArrive {book : Book} {passages : List Passage}
    (each : ∀ passage ∈ passages, ∃ slot, Passable slot passage.packet) {a b : RtmpProto}
    (upheld : Upheld c book a b) {sent : List Sent} (sending : sendPassages a passages = .ok sent)
    {pb : ReadBuffer} {rest : Bytes} (unread : pb.unread = (sent.map Sent.bytes).flatten ++ rest) :
    (Deliverable book passages ∧ ∃ received last, receivePassages passages b pb = .ok (received, last) ∧
      List.Forall₂ Arrived sent received ∧ last.unread = rest) ∨
    (¬ Deliverable book passages ∧ ∃ e, receivePassages passages b pb = .error e) := by
  induction passages generalizing book a b sent pb with
  | nil =>
    cases Except.ok.inj sending
    exact .inl ⟨.done, [], pb, rfl, .nil, unread⟩
  | cons passage passages ih =>
    obtain ⟨⟨slot, passable⟩, others⟩ := List.forall_mem_cons.mp each
    have now := upheldAll passage.out passage.into upheld
    generalize kept : passage.into.foldl bookIn (passage.out.foldl bookOut book) = noted at now
    simp only [sendPassages, receivePassages] at sending ⊢
    generalize passage.out.foldl upkeepOut a = a' at now sending
    generalize passage.into.foldl upkeepIn b = b' at now ⊢
    obtain ⟨told, wb, written, bytes⟩ := passableWritten positive now.chunkOut passable
    rw [written, Fallible.okBind] at sending
    obtain ⟨more, sendingMore, same⟩ := Fallible.bindOk.mp sending
    cases Except.ok.inj same
    rw [List.map_cons, List.flatten_cons, bytes, List.append_assoc] at unread
    have only {other : Fin 64} (named : passage.packet.channelId = other.val) : other = slot :=
      Fin.ext (Int.ofNat_inj.mp (named.symm.trans passable.named))
    have inversion (all : Deliverable book (passage :: passages)) : (noted slot).opened = true ∧
        (noted slot).Complete passage.packet ∧ Deliverable (bookSent noted slot passage.packet) passages := by
      cases all with
      | passage upkeep named opened complete later =>
        cases only named
        rw [kept] at upkeep
        cases upkeep
        exact ⟨opened, complete, later⟩
    cases opened : (noted slot).opened with
    | false =>
      obtain ⟨e, fails⟩ := closedRejected now passable positive fits unread opened
      refine .inr ⟨fun all => ?_, e, by rw [fails, Fallible.errorBind]⟩
      rw [(inversion all).1] at opened
      contradiction
    | true =>
      by_cases complete : (noted slot).Complete passage.packet
      case neg =>
        obtain ⟨e, fails⟩ := lostRejected now passable positive fits unread opened complete
        exact .inr ⟨fun all => complete (inversion all).2.1, e, by rw [fails, Fallible.errorBind]⟩
      obtain ⟨b'', read, reset⟩ := completeRead now passable positive fits unread opened complete
      have next := upheldSent now passable complete
      rw [← reset] at next
      rw [read, Fallible.okBind]
      rcases ih others next sendingMore (unreadSkipAppend pb unread) with
        ⟨all, received, last, got, arrived, done⟩ | ⟨stuck, e, fails⟩
      · refine .inl ⟨.passage kept passable.named opened complete all, _, last, by rw [got]; rfl,
          .cons ⟨passable.named.symm, fun f => (recordsSent (now.entries slot) passable complete f).2, rfl,
            ?_, ?_⟩ arrived, done⟩
        · dsimp only
          rw [bytes]
          exact consumedAppend pb unread
        · intro other named f
          cases only named
          have stands := (next.entries slot).stands
          rw [bookSent, Function.update_self] at stands
          exact stands.same rfl f
      · exact .inr ⟨fun all => stuck (inversion all).2.2, e, by rw [fails]; rfl⟩

theorem upkeepDelivered {passages : List Passage}
    (each : ∀ passage ∈ passages, ∃ slot, Passable slot passage.packet) :
    ∃ sent, sendPassages (sender c) passages = .ok sent ∧
      sent.map Sent.packet = passages.map Passage.packet ∧
      ((∃ received last, receivePassages passages (receiver c) (rtmpRbInit (sent.map Sent.bytes).flatten) =
        .ok (received, last) ∧ List.Forall₂ Arrived sent received ∧ last.unread = []) ↔
          Deliverable bookInit passages) := by
  have upheld := upheldInit c
  obtain ⟨sent, sending, same⟩ := passagesSent positive each upheld.chunkOut
  have unread : (rtmpRbInit (sent.map Sent.bytes).flatten).unread = (sent.map Sent.bytes).flatten ++ [] := by
    rw [unreadInit, List.append_nil]
  refine ⟨sent, sending, same, ?_⟩
  rcases passagesArrive positive fits each upheld sending unread with ⟨all, arrives⟩ | ⟨stuck, e, fails⟩
  · exact iff_of_true arrives all
  · refine iff_of_false ?_ stuck
    rintro ⟨received, last, receives, _⟩
    rw [fails] at receives
    contradiction

end Streams

def pingOn (slot : Fin 64) (data : Bytes) : Packet := { pingPacket with channelId := slot.val, data }

-- The reader opens a channel, loses its type and size before a packet of another size, and opens it again.
def reopenings (slot : Fin 64) : List Passage :=
  [⟨[], [.clear slot], pingOn slot [1, 2, 3]⟩, ⟨[], [.clear slot], pingOn slot [4, 5, 6, 7]⟩,
    ⟨[.delete slot], [.delete slot, .clear slot], pingOn slot [4, 5, 6, 7]⟩]

theorem pingPassable {slot : Fin 64} (form : 2 ≤ slot.val) {data : Bytes} (short : data.length ≤ 32767) :
    Passable slot (pingOn slot data) where
  named := rfl
  form := form
  sendable := by
    obtain ⟨timerLow, timerHigh, typeLow, typeHigh, _⟩ := pingStreamable.sendable
    exact ⟨timerLow, timerHigh, typeLow, typeHigh, short⟩
  streamId := rfl

theorem reopeningsPassable : ∀ passage ∈ reopenings 9, ∃ slot, Passable slot passage.packet := by
  intro passage member
  simp only [reopenings, List.mem_cons, List.not_mem_nil, or_false] at member
  rcases member with rfl | rfl | rfl
  · exact ⟨9, pingPassable (by decide) (by decide)⟩
  · exact ⟨9, pingPassable (by decide) (by decide)⟩
  · exact ⟨9, pingPassable (by decide) (by decide)⟩

theorem pingDeliverable {book : Book} {out into : List Upkeep} (slot : Fin 64) {data : Bytes} {rest : List Passage}
    (opened : (into.foldl bookIn (out.foldl bookOut book) slot).opened = true)
    (complete : (into.foldl bookIn (out.foldl bookOut book) slot).Complete (pingOn slot data))
    (later : Deliverable (bookSent (into.foldl bookIn (out.foldl bookOut book)) slot (pingOn slot data)) rest) :
    Deliverable book (⟨out, into, pingOn slot data⟩ :: rest) :=
  .passage rfl rfl opened complete later

theorem reopeningsDeliverable : Deliverable bookInit (reopenings 9) :=
  pingDeliverable 9 rfl (fun _ => by decide) <| pingDeliverable 9 rfl (fun _ => by decide) <|
    pingDeliverable 9 rfl (fun _ => by decide) .done

theorem upkeepReopened : ∃ sent received last, sendPassages (sender 2) (reopenings 9) = .ok sent ∧
    receivePassages (reopenings 9) (receiver 2) (rtmpRbInit (sent.map Sent.bytes).flatten) =
      .ok (received, last) ∧ List.Forall₂ Arrived sent received ∧ last.unread = [] := by
  obtain ⟨sent, sending, _, arrives⟩ :=
    upkeepDelivered (show 1 ≤ 2 by decide) (by decide) reopeningsPassable
  obtain ⟨received, last, receives, arrived, done⟩ := arrives.mpr reopeningsDeliverable
  exact ⟨sent, received, last, sending, receives, arrived, done⟩

end Rushkit
