import Mathlib.Data.List.Forall2
import Rushkit.Answers
import Rushkit.Rounds

/-! Whole conversations: blocks are received one after the other, every packet in them is
answered, and the peer reads the answers in the order of what it has sent. -/
namespace Rushkit
open Amf Dialogue

/- What an application sends when it is called with a channel, a request id, a method name
and arguments, or handed a packet the library has no answer for. -/
structure Application where
  invoked : Fin 64 → Int → Bytes → List AV → List Packet → Prop
  invalid : Fin 64 → Packet → List Packet → Prop
  audio : Fin 64 → Packet → List Packet → Prop
  video : Fin 64 → Packet → List Packet → Prop

def ApplicationType (dataType : Int) : Prop :=
  dataType = pacInvalid ∨ dataType = pacAudio ∨ dataType = pacVideo

inductive Answers (application : Application) (slot : Fin 64) (pac : Packet) : List Packet → Prop where
  | pong (timer : Int) (type : pac.channel.dataType = pacPing) :
      Answers application slot pac [(ownPacket slot timer pacPing pac.data).heard]
  | connected (timer : Int) {requestId : Int} {args : List AV} (type : pac.channel.dataType = pacInvoke)
      (read : invocation pac.data = .ok (cString "connect", requestId, args)) :
      Answers application slot pac [(ownPacket slot timer pacInvoke (resultData requestId connectReply)).heard]
  | invoked {methodName : Bytes} {requestId : Int} {args : List AV} {packets : List Packet}
      (type : pac.channel.dataType = pacInvoke) (read : invocation pac.data = .ok (methodName, requestId, args))
      (other : methodName ≠ cString "connect")
      (sent : application.invoked slot requestId methodName args packets) : Answers application slot pac packets
  | invalid {packets : List Packet} (type : pac.channel.dataType = pacInvalid)
      (sent : application.invalid slot pac packets) : Answers application slot pac packets
  | audio {packets : List Packet} (type : pac.channel.dataType = pacAudio)
      (sent : application.audio slot pac packets) : Answers application slot pac packets
  | video {packets : List Packet} (type : pac.channel.dataType = pacVideo)
      (sent : application.video slot pac packets) : Answers application slot pac packets
  | silent (type : pac.channel.dataType ≠ pacPing ∧ pac.channel.dataType ≠ pacInvoke ∧
      ¬ ApplicationType pac.channel.dataType) : Answers application slot pac []

-- The step is one of a packet callback: what it sends is on the channel of the packet.
def Responds (c : Nat) (now : Int) (slot : Fin 64) (step : RtmpProto → Res RtmpProto)
    (sent : List Packet → Prop) : Prop :=
  ∀ {proto proto' : RtmpProto}, proto.channelId = slot.val → proto.writeChunkSize = c →
    Timely now proto → step proto = .ok proto' →
    ∃ packets, sent packets ∧ Replies c now proto proto' packets

/- The callbacks an application sets send what `application` tells, when they are called on
one of these channels. -/
structure Obeys (c : Nat) (now : Int) (on : Fin 64 → Prop) (application : Application)
    (table : MethodTable) : Prop where
  writes : table.onWriteData = true
  within : ∀ {slot}, on slot → Exchanged slot
  invoked : ∀ {slot}, on slot → ∀ requestId methodName args, Responds c now slot
    (fun proto => callBack table proto slot.val requestId (.string methodName) args)
    (application.invoked slot requestId methodName args)
  invalid : ∀ {slot}, on slot → ∀ pac : Packet, pac.channelId = slot.val →
    Responds c now slot (fun proto => handOn table.onPacketInvalid proto pac) (application.invalid slot pac)
  audio : ∀ {slot}, on slot → ∀ pac : Packet, pac.channelId = slot.val →
    Responds c now slot (fun proto => handOn table.onPacketAudio proto pac) (application.audio slot pac)
  video : ∀ {slot}, on slot → ∀ pac : Packet, pac.channelId = slot.val →
    Responds c now slot (fun proto => handOn table.onPacketVideo proto pac) (application.video slot pac)

def silentApplication : Application :=
  ⟨fun _ _ _ _ packets => packets = [], fun _ _ packets => packets = [], fun _ _ packets => packets = [],
    fun _ _ packets => packets = []⟩

section Single
variable {c : Nat} {now : Int} {slot : Fin 64}

theorem respondsSilent : Responds c now slot .ok (· = []) := by
  intro proto proto' current chunk timely h
  cases Except.ok.inj h
  exact ⟨[], rfl, repliesRefl proto⟩

theorem bareObeys (c : Nat) (now : Int) : Obeys c now Exchanged silentApplication bareTable where
  writes := rfl
  within exchanged := exchanged
  invoked _ _ _ _ := respondsSilent
  invalid _ _ _ := respondsSilent
  audio _ _ _ := respondsSilent
  video _ _ _ := respondsSilent

theorem respondsWeaken {step : RtmpProto → Res RtmpProto} {sent sent' : List Packet → Prop}
    (responds : Responds c now slot step sent) (weaker : ∀ packets, sent packets → sent' packets) :
    Responds c now slot step sent' := by
  intro proto proto' current chunk timely h
  obtain ⟨packets, told, replies⟩ := responds current chunk timely h
  exact ⟨packets, weaker packets told, replies⟩

theorem chunkSizeResponds (table : MethodTable) (pac : Packet) :
    Responds c now slot (fun proto => defaultOnPacketChunkSize table proto pac) (· = []) := by
  intro proto proto' current chunk timely h
  simp only [defaultOnPacketChunkSize, Fallible.bindOk] at h
  obtain ⟨size, _, h⟩ := h
  split at h
  · cases Except.ok.inj h
    exact ⟨[], rfl, repliesNothing ⟨rfl, rfl, rfl, rfl, rfl, rfl⟩ rfl rfl rfl rfl rfl rfl⟩
  · cases Except.ok.inj h
    exact ⟨[], rfl, repliesRefl proto⟩

theorem bytesReadResponds (pac : Packet) :
    Responds c now slot (fun proto => defaultOnPacketBytesRead proto pac) (· = []) := by
  intro proto proto' current chunk timely h
  simp only [defaultOnPacketBytesRead, Fallible.bindOk] at h
  obtain ⟨_, _, _, _, last⟩ := h
  cases Except.ok.inj last
  exact ⟨[], rfl, repliesRefl proto⟩

theorem connectShort (requestId : Int) : (resultData requestId connectReply).length ≤ 32767 := by
  rw [resultData, packValuesLength]
  have size : valuesPackSize (returnArguments requestId connectReply) =
      valuesPackSize (returnArguments 0 connectReply) := rfl
  rw [size]
  decide

section Deliver
variable (positive : 1 ≤ c) {on : Fin 64 → Prop} {application : Application}
  {table : MethodTable} (obeys : Obeys c now on application table) (opened : on slot) {pac : Packet}
  (named : pac.channelId = slot.val)
include positive obeys opened named

theorem pingResponds (short : pac.data.length ≤ 32767) :
    Responds c now slot (fun proto => defaultOnPacketPing table now proto pac)
      fun packets => ∃ timer, packets = [(ownPacket slot timer pacPing pac.data).heard] := by
  intro proto proto' current chunk timely h
  obtain ⟨after, handled, replies⟩ :=
    pingReplies obeys.writes positive chunk (obeys.within opened) current timely named short
  dsimp only at h
  rw [handled] at h
  cases Except.ok.inj h
  exact ⟨_, ⟨_, rfl⟩, replies⟩

theorem invokeResponds (type : pac.channel.dataType = pacInvoke) :
    Responds c now slot (fun proto => defaultOnPacketInvoke table now proto pac)
      (Answers application slot pac) := by
  intro proto proto' current chunk timely h
  dsimp only at h
  rw [invokeReads] at h
  obtain ⟨⟨⟨methodName, requestId, args⟩, asked⟩, read, h⟩ := Fallible.bindOk.mp h
  have read := invocationRead read
  have before : Replies c now proto (afterInvocation proto methodName requestId) [] :=
    invokedAfter proto methodName requestId
  have timely₁ := tickedTimely timely before.ticked
  have current₁ := before.channelId.trans current
  have chunk₁ := before.writeChunkSize.trans chunk
  dsimp only at h
  rw [named] at h
  by_cases connect : methodName = cString "connect"
  · subst connect
    rw [if_pos rfl] at h
    obtain ⟨asked, _, h⟩ := Fallible.bindOk.mp h
    have h := resultReturned (connectShort requestId) h
    obtain ⟨after, handled, replies, _⟩ := resultReplies obeys.writes positive chunk₁ (obeys.within opened) current₁
      timely₁ (rfl : rtPoolLeft [] = none) (connectShort requestId)
    rw [handled] at h
    cases Except.ok.inj h
    exact ⟨_, .connected _ type read, repliesThen before replies⟩
  · rw [if_neg connect] at h
    obtain ⟨packets, sent, replies⟩ :=
      obeys.invoked opened requestId methodName args current₁ chunk₁ timely₁ h
    exact ⟨packets, .invoked type read connect sent, repliesThen before replies⟩

theorem deliverResponds (short : pac.channel.dataType = pacInvalid ∨ pac.data.length ≤ 32767) :
    Responds c now slot (fun proto => deliver (rtmpProtoMethodTableInit table now) proto pac)
      (Answers application slot pac) := by
  intro proto proto' current chunk timely h
  have dispatched : defaultOnPacket (rtmpProtoMethodTableInit table now) proto pac = .ok proto' := h
  unfold defaultOnPacket at dispatched
  split at dispatched
  case isTrue type =>
    refine respondsWeaken (chunkSizeResponds _ pac) ?_ current chunk timely dispatched
    rintro _ rfl
    exact .silent (by rw [type, ApplicationType]; decide)
  split at dispatched
  case isTrue type =>
    exact respondsWeaken (obeys.invalid opened pac named) (fun _ => .invalid type) current chunk timely dispatched
  rename_i _ valid
  split at dispatched
  case isTrue type =>
    refine respondsWeaken (bytesReadResponds pac) ?_ current chunk timely dispatched
    rintro _ rfl
    exact .silent (by rw [type, ApplicationType]; decide)
  split at dispatched
  case isTrue type =>
    refine respondsWeaken (pingResponds positive obeys opened named (short.resolve_left valid)) ?_
      current chunk timely dispatched
    rintro _ ⟨timer, rfl⟩
    exact .pong timer type
  split at dispatched
  case isTrue type =>
    exact invokeResponds positive obeys opened named type current chunk timely dispatched
  split at dispatched
  case isTrue type =>
    exact respondsWeaken (obeys.audio opened pac named) (fun _ => .audio type) current chunk timely dispatched
  split at dispatched
  case isTrue type =>
    exact respondsWeaken (obeys.video opened pac named) (fun _ => .video type) current chunk timely dispatched
  rename_i ping invoke audio video
  refine respondsWeaken respondsSilent ?_ current chunk timely dispatched
  rintro _ rfl
  refine .silent ⟨ping, invoke, ?_⟩
  rintro (h | h | h) <;> contradiction

end Deliver

end Single

theorem messageShort {chunk : Nat} {table : ChannelTable} {slot : Fin 64} {channel : Channel}
    {data wire : Bytes} (message : Message chunk table slot channel data wire) : data.length ≤ 32767 := by
  cases message with
  | mk opened payload =>
    cases opened with
    | mk header small width =>
      unfold maxPacketSize at small
      cases payload with
      | chunked typed size layout => omega
      | untyped zero four room => omega

-- The reader is on the packet's channel, and the writer's half is as before.
structure Entered (proto inside : RtmpProto) (slot : Fin 64) (channel : Channel) : Prop where
  current : inside.channelId = slot.val
  pkgSt : inside.pkgSt = proto.pkgSt
  lastData : inside.lastData = proto.lastData
  readBuffer : inside.readBuffer = proto.readBuffer
  readChunkSize : inside.readChunkSize = proto.readChunkSize
  channelsIn : inside.channelsIn = Function.update proto.channelsIn slot channel
  writeChunkSize : inside.writeChunkSize = proto.writeChunkSize
  channelsOut : inside.channelsOut = proto.channelsOut
  written : inside.written = proto.written
  numDownBytes : inside.numDownBytes = proto.numDownBytes
  lastTimers : inside.lastTimers = proto.lastTimers

theorem enteredReceived (proto : RtmpProto) (slot : Fin 64) (channel : Channel) (state packetMask : Nat)
    (dataBuffer : FixBuffer) :
    Entered proto (received proto slot channel state packetMask dataBuffer) slot channel :=
  ⟨rfl, rfl, rfl, rfl, rfl, rfl, rfl, rfl, rfl, rfl, rfl⟩

section Inside
variable {proto inside : RtmpProto} {slot : Fin 64} {channel : Channel}
  (entered : Entered proto inside slot channel)
include entered

theorem enteredUtters (c : Nat) : Utters c proto inside [] :=
  uttersNothing entered.writeChunkSize entered.channelsOut entered.written entered.numDownBytes
    entered.lastTimers

theorem enteredTimely {now : Int} (timely : Timely now proto) : Timely now inside := by
  intro other exchanged
  rw [entered.lastTimers]
  exact timely other exchanged

theorem leftBetween (between : Between proto) {returned : RtmpProto} (kept : ReaderKept inside returned) :
    Between (rtmpPacketReset returned) := by
  have chunk := kept.readChunkSize.trans entered.readChunkSize
  refine ⟨(kept.pkgSt.trans entered.pkgSt).trans between.pkgSt, rfl,
    (kept.lastData.trans entered.lastData).trans between.lastData, ?_, ?_, ?_⟩
  · rw [← between.readBuffer, ← entered.readBuffer]
    exact congrArg List.length kept.readBuffer
  · exact chunk ▸ between.positive
  · exact chunk ▸ between.fits

end Inside

section Arrival
variable {proto inside : RtmpProto} (between : Between proto) {pb pb' : ReadBuffer} {pac : Packet}
  (read : rtmpPacketGetPacket proto pb = .ok (pac, inside, pb'))
include between read

theorem arrivalShort : pac.channel.dataType = pacInvalid ∨ pac.data.length ≤ 32767 := by
  rcases eq_or_ne pb.unread [] with empty | nonempty
  · rw [getPacketEmpty between.state empty] at read
    contradiction
  rcases messageCases proto.readChunkSize between.positive proto.channelsIn pb.unread nonempty with
    starved | rejected | ⟨slot, channel, data, refused⟩ | ⟨slot, channel, data, wire, rest, message, unread⟩
  · rw [getPacketStarved between.state starved rfl] at read
    contradiction
  · obtain ⟨e, fails, _⟩ := getPacketRejected between.state between.positive between.fits rejected rfl
    rw [fails] at read
    contradiction
  · obtain ⟨fields, record, got⟩ := getPacketRefused between.state refused rfl
    rw [got] at read
    cases Except.ok.inj read
    exact .inl rfl
  · obtain ⟨fields, dataBuffer, record, _, _, got⟩ := getPacketMessage between.state between.fits message unread
    rw [got] at read
    cases Except.ok.inj read
    exact .inr (messageShort message)

theorem arrival {slot : Fin 64} (named : pac.channelId = slot.val) :
    (∃ channel, Entered proto inside slot channel) ∧ pb'.needMore = pb.needMore := by
  obtain ⟨state, mask, other, fields, channel, dataBuffer, rfl, _, _, same, _, n, rfl⟩ :=
    getPacketOk between.state between.positive between.fits read
  have entry : other = slot := Fin.ext (by omega)
  subst entry
  exact ⟨⟨channel, enteredReceived proto other channel state mask dataBuffer⟩, rfl⟩

end Arrival

structure Listening (c : Nat) (proto : RtmpProto) : Prop where
  between : Between proto
  chunk : proto.writeChunkSize = c

def Within (on : Fin 64 → Prop) (pac : Packet) : Prop := ∃ slot, on slot ∧ pac.channelId = slot.val

def Answered (application : Application) (pac : Packet) (packets : List Packet) : Prop :=
  ∃ slot : Fin 64, pac.channelId = slot.val ∧ Answers application slot pac packets

-- These packets have been received and answered, and the connection is between two again.
structure Turn (c : Nat) (application : Application) (proto proto' : RtmpProto) (pacs : List Packet)
    (answers : List (List Packet)) : Prop where
  answered : List.Forall₂ (Answered application) pacs answers
  utters : Utters c proto proto' answers.flatten
  listening : Listening c proto'

theorem turnNothing {c : Nat} {application : Application} {proto : RtmpProto} (listening : Listening c proto) :
    Turn c application proto proto [] [] :=
  ⟨.nil, uttersNothing rfl rfl rfl rfl rfl, listening⟩

theorem turnThen {c : Nat} {application : Application} {proto mid last : RtmpProto} {pacs more : List Packet}
    {answers others : List (List Packet)} (first : Turn c application proto mid pacs answers)
    (second : Turn c application mid last more others) :
    Turn c application proto last (pacs ++ more) (answers ++ others) where
  answered := List.rel_append first.answered second.answered
  utters := by
    rw [List.flatten_append]
    exact uttersThen first.utters second.utters
  listening := second.listening

section Runs
variable {c : Nat} (positive : 1 ≤ c) {now : Int} {on : Fin 64 → Prop} {application : Application}
  {table : MethodTable} (obeys : Obeys c now on application table)
include positive obeys

theorem answerPacket {proto proto' : RtmpProto} (listening : Listening c proto) (timely : Timely now proto)
    {pb pb' : ReadBuffer} {pac : Packet} (exchange : Within on pac)
    (step : feedPacket (rtmpProtoMethodTableInit table now) proto pb = .ok (proto', pac, pb')) :
    ∃ packets, Turn c application proto proto' [pac] [packets] ∧ Ticked now proto proto' ∧
      pb'.needMore = pb.needMore := by
  obtain ⟨inside, returned, read, called, rfl⟩ := feedStep step
  obtain ⟨slot, opened, named⟩ := exchange
  have short := arrivalShort listening.between read
  obtain ⟨⟨channel, entered⟩, needs⟩ := arrival listening.between read named
  have first := enteredUtters entered c
  obtain ⟨packets, answers, replies⟩ := deliverResponds positive obeys opened named short entered.current
    (first.writeChunkSize.trans listening.chunk) (enteredTimely entered timely) called
  have left : Utters c returned (rtmpPacketReset returned) [] := uttersNothing rfl rfl rfl rfl rfl
  have whole := uttersThen (uttersThen first replies.utters) left
  rw [List.nil_append] at whole
  have answered : Answered application pac packets := ⟨slot, named, answers⟩
  have after : Listening c (rtmpPacketReset returned) :=
    ⟨leftBetween entered listening.between replies.kept, whole.writeChunkSize.trans listening.chunk⟩
  exact ⟨packets, ⟨.cons answered .nil, whole, after⟩,
    tickedThen (tickedSame entered.lastTimers) replies.ticked, needs⟩

theorem answerLoop (fuel : Nat) {proto proto' : RtmpProto} (listening : Listening c proto)
    (timely : Timely now proto) {pb pb' : ReadBuffer} {pacs : List Packet}
    (exchange : ∀ pac ∈ pacs, Within on pac)
    (loop : feedLoop (rtmpProtoMethodTableInit table now) fuel proto pb = .ok (proto', pacs, pb')) :
    ∃ answers, Turn c application proto proto' pacs answers ∧ Ticked now proto proto' ∧
      pb'.needMore = pb.needMore := by
  induction fuel generalizing proto pb pacs with
  | zero => contradiction
  | succ fuel ih =>
    unfold feedLoop at loop
    split at loop
    · rw [listening.between.pkgSt] at loop
      obtain ⟨⟨next, pac, rest⟩, step, loop⟩ := Fallible.bindOk.mp loop
      obtain ⟨⟨last, later, after⟩, loop, same⟩ := Fallible.bindOk.mp loop
      cases Except.ok.inj same
      obtain ⟨mine, others⟩ := List.forall_mem_cons.mp exchange
      obtain ⟨packets, first, ticked, needs⟩ := answerPacket positive obeys listening timely mine step
      obtain ⟨answers, second, ticked', needs'⟩ :=
        ih first.listening (tickedTimely timely ticked) others loop
      exact ⟨_, turnThen first second, tickedThen ticked ticked', needs'.trans needs⟩
    · cases Except.ok.inj loop
      exact ⟨[], turnNothing listening, tickedSame rfl, rfl⟩

theorem answerBlock {proto proto' : RtmpProto} (listening : Listening c proto) (timely : Timely now proto)
    {data : Bytes} {pacs : List Packet} (exchange : ∀ pac ∈ pacs, Within on pac)
    (received : receiveData (rtmpProtoMethodTableInit table now) proto data = .ok (proto', pacs)) :
    ∃ answers, Turn c application proto proto' pacs answers ∧ Ticked now proto proto' := by
  have between := listening.between
  rcases Nat.eq_zero_or_pos data.length with none | some
  · rw [List.eq_nil_of_length_eq_zero none, receiveNothing _ between.lastData] at received
    cases Except.ok.inj received
    refine ⟨[], ⟨.nil, uttersNothing rfl rfl rfl rfl rfl, ?_, listening.chunk⟩, tickedSame rfl⟩
    exact ⟨between.pkgSt, between.state, rfl, between.readBuffer, between.positive, between.fits⟩
  rcases Nat.lt_or_ge bufferSz data.length with large | fits
  · simp only [receiveData, rtmpProtoPrepareBuffer, putLastData, between.lastData, List.length_nil] at received
    rw [if_neg (by omega)] at received
    contradiction
  · rw [receiveDataFed _ between.lastData between.readBuffer some fits] at received
    obtain ⟨⟨next, later, after⟩, loop, received⟩ := Fallible.bindOk.mp received
    obtain ⟨saved, save, last⟩ := Fallible.bindOk.mp received
    have stored : Listening c (fed proto data) := ⟨betweenFed between fits, listening.chunk⟩
    have entered : Utters c proto (fed proto data) [] := uttersNothing rfl rfl rfl rfl rfl
    cases Except.ok.inj last
    obtain ⟨answers, turn, ticked, needs⟩ := answerLoop positive obeys _ stored timely exchange loop
    rw [saveNothing _ needs] at save
    cases Except.ok.inj save
    exact ⟨answers, ⟨turn.answered, uttersThen entered turn.utters, turn.listening⟩, ticked⟩

end Runs

-- `program` is the application's part of the table at each time.
def receiveTimed (program : Int → MethodTable) : RtmpProto → List (Int × Bytes) →
    Res (RtmpProto × List Packet)
  | proto, [] => .ok (proto, [])
  | proto, (now, data) :: rest => do
    let (proto, pacs) ← receiveData (rtmpProtoMethodTableInit (program now) now) proto data
    let (proto, later) ← receiveTimed program proto rest
    .ok (proto, pacs ++ later)

-- The clock does not go back, and stays in reach of the timers at the start.
structure Paced (proto : RtmpProto) (times : List Int) : Prop where
  sorted : times.Pairwise (· ≤ ·)
  reach : ∀ now ∈ times, Timely now proto

theorem pacedLater {proto proto' : RtmpProto} {now : Int} {times : List Int} (paced : Paced proto (now :: times))
    (ticked : Ticked now proto proto') : Paced proto' times := by
  obtain ⟨first, sorted⟩ := List.pairwise_cons.mp paced.sorted
  obtain ⟨here, reach⟩ := List.forall_mem_cons.mp paced.reach
  refine ⟨sorted, fun later member slot exchanged => ?_⟩
  have start := here slot exchanged
  have finish := reach later member slot exchanged
  have order := first later member
  rcases ticked slot with same | shown
  · rw [same]
    exact finish
  · rw [shown]
    omega

theorem conversationTurn {c : Nat} (positive : 1 ≤ c) {on : Fin 64 → Prop} {application : Application}
    {program : Int → MethodTable} (obeys : ∀ now, Obeys c now on application (program now))
    {proto last : RtmpProto} {blocks : List (Int × Bytes)} {pacs : List Packet}
    (received : receiveTimed program proto blocks = .ok (last, pacs)) (listening : Listening c proto)
    (paced : Paced proto (blocks.map Prod.fst)) (exchange : ∀ pac ∈ pacs, Within on pac) :
    ∃ answers, Turn c application proto last pacs answers := by
  induction blocks generalizing proto pacs with
  | nil =>
    cases Except.ok.inj received
    exact ⟨[], turnNothing listening⟩
  | cons block blocks ih =>
    obtain ⟨now, data⟩ := block
    obtain ⟨⟨mid, early⟩, first, received⟩ := Fallible.bindOk.mp received
    obtain ⟨⟨last', later⟩, rest, same⟩ := Fallible.bindOk.mp received
    cases Except.ok.inj same
    obtain ⟨mine, others⟩ := List.forall_mem_append.mp exchange
    have timely := paced.reach now List.mem_cons_self
    obtain ⟨answers, turn, ticked⟩ := answerBlock positive (obeys now) listening timely mine first
    obtain ⟨more, turn'⟩ := ih rest turn.listening (pacedLater paced ticked) others
    exact ⟨answers ++ more, turnThen turn turn'⟩

end Rushkit
