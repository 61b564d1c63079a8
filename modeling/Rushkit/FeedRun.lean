import Rushkit.Feed
import Rushkit.MessageReader

/-! The packet phase of `rtmp_proto_feed` as a trace of messages handed to `on_packet`,
and what every sequence of received blocks leaves of a connection. -/
namespace Rushkit
open ReadBuffer

structure ReaderKept (proto proto' : RtmpProto) : Prop where
  pkgSt : proto'.pkgSt = proto.pkgSt
  state : proto'.state = proto.state
  lastData : proto'.lastData = proto.lastData
  readBuffer : proto'.readBuffer = proto.readBuffer
  readChunkSize : proto'.readChunkSize = proto.readChunkSize
  channelsIn : proto'.channelsIn = proto.channelsIn

def withInput (proto : RtmpProto) (readBuffer : Bytes) (numUpBytes : Int) : RtmpProto :=
  { proto with readBuffer, numUpBytes }

def LeavesReader (table : MethodTable) : Prop :=
  ∀ {proto proto' : RtmpProto} {pac : Packet}, deliver table proto pac = .ok proto' →
    ReaderKept proto proto'

/- A packet callback leaves the reader's half of the record alone, and what it does
depends neither on the read buffer nor on the count of received bytes. -/
structure Passive (table : MethodTable) : Prop where
  kept : ∀ {proto proto' : RtmpProto} {pac : Packet},
    deliver table proto pac = .ok proto' → ReaderKept proto proto'
  blind : ∀ (proto : RtmpProto) (pac : Packet) (readBuffer : Bytes) (numUpBytes : Int),
    deliver table (withInput proto readBuffer numUpBytes) pac =
      (deliver table proto pac).map fun proto => withInput proto readBuffer numUpBytes

structure Between (proto : RtmpProto) : Prop where
  pkgSt : proto.pkgSt = 3
  state : proto.state = 0
  lastData : proto.lastData = []
  readBuffer : proto.readBuffer.length = bufferSz
  positive : 1 ≤ proto.readChunkSize
  fits : proto.readChunkSize + 1 < 2147483648

theorem betweenFed {proto : RtmpProto} (between : Between proto) {data : Bytes}
    (fits : data.length ≤ bufferSz) : Between (fed proto data) := by
  have block := storeAtStart proto.readBuffer data (by rw [between.readBuffer]; exact fits)
  exact ⟨between.pkgSt, between.state, rfl, block.2.trans between.readBuffer, between.positive,
    between.fits⟩

inductive Handled (table : MethodTable) :
    RtmpProto → List Bytes → RtmpProto → List Packet → Prop where
  | nil (proto : RtmpProto) : Handled table proto [] proto []
  | cons {proto proto₁ proto₂ : RtmpProto} {slot : Fin 64} {channel : Channel} {data wire : Bytes}
      {wires : List Bytes} {pacs : List Packet} {dataBuffer : FixBuffer}
      (message : Message proto.readChunkSize proto.channelsIn slot channel data wire)
      (content : dataBuffer.content = data) (capacity : dataBuffer.capacity = channel.size.toNat)
      (called : deliver table (received proto slot channel 6 (headMask wire) dataBuffer)
        ⟨slot.val, channel, data⟩ = .ok proto₁)
      (rest : Handled table (rtmpPacketReset proto₁) wires proto₂ pacs) :
      Handled table proto (wire :: wires) proto₂ (⟨slot.val, channel, data⟩ :: pacs)

theorem receivedInput (proto : RtmpProto) (slot : Fin 64) (channel : Channel)
    (state packetMask : Nat) (dataBuffer : FixBuffer) (readBuffer : Bytes) (numUpBytes : Int) :
    received (withInput proto readBuffer numUpBytes) slot channel state packetMask dataBuffer =
      withInput (received proto slot channel state packetMask dataBuffer) readBuffer numUpBytes := rfl

theorem headMaskAppend {wire : Bytes} (some : 1 ≤ wire.length) (rest : Bytes) :
    headMask (wire ++ rest) = headMask wire := by
  cases wire with
  | nil => contradiction
  | cons first wire => rfl

theorem fixBufferSame {pf pf' : FixBuffer} (content : pf'.content = pf.content)
    (capacity : pf'.capacity = pf.capacity) : pf' = pf := by
  cases pf
  cases pf'
  cases content
  cases capacity
  rfl

theorem handledAppend {table : MethodTable} {proto proto' : RtmpProto} {front back : List Bytes} {pacs : List Packet}
    (handled : Handled table proto (front ++ back) proto' pacs) :
    ∃ mid early late, Handled table proto front mid early ∧ Handled table mid back proto' late ∧
      pacs = early ++ late := by
  induction front generalizing proto pacs with
  | nil => exact ⟨proto, [], pacs, .nil proto, handled, rfl⟩
  | cons wire front ih =>
    cases handled with
    | cons message content capacity called rest =>
      obtain ⟨mid, early, late, first, second, rfl⟩ := ih rest
      exact ⟨mid, _, late, .cons message content capacity called first, second, rfl⟩

theorem feedPacketMessage {table : MethodTable} {proto : RtmpProto} (between : Between proto) {slot : Fin 64}
    {channel : Channel} {data wire rest : Bytes}
    (message : Message proto.readChunkSize proto.channelsIn slot channel data wire)
    {pb : ReadBuffer} (unread : pb.unread = wire ++ rest) :
    ∃ dataBuffer : FixBuffer, dataBuffer.content = data ∧ dataBuffer.capacity = channel.size.toNat ∧
      feedPacket table proto pb =
        deliver table (received proto slot channel 6 (headMask wire) dataBuffer)
          ⟨slot.val, channel, data⟩ >>= fun proto =>
            .ok (rtmpPacketReset proto, ⟨slot.val, channel, data⟩, pb.skip wire.length) := by
  obtain ⟨fields, dataBuffer, _, content, capacity, read⟩ :=
    getPacketMessage between.state between.fits message unread
  refine ⟨dataBuffer, content, capacity, ?_⟩
  rw [unread, headMaskAppend (messageNonempty message)] at read
  rw [feedPacket, read, Fallible.okBind]

theorem feedLoopPacket {table : MethodTable} {proto : RtmpProto} (between : Between proto) {pb : ReadBuffer}
    (more : pb.unread ≠ []) (needs : pb.needMore = 0) (fuel : Nat) :
    feedLoop table (fuel+1) proto pb = feedPacket table proto pb >>= fun step =>
      feedLoop table fuel step.1 step.2.2 >>= fun r => .ok (r.1, step.2.1 :: r.2.1, r.2.2) := by
  have left := List.length_pos_of_ne_nil more
  rw [feedLoop, if_pos ⟨by rw [spaceUnread]; omega, needs⟩, between.pkgSt]
  rfl

theorem feedLoopEnd {table : MethodTable} {proto : RtmpProto} {pb : ReadBuffer} (empty : pb.unread = []) (fuel : Nat) :
    feedLoop table (fuel+1) proto pb = .ok (proto, [], pb) := by
  rw [feedLoop, if_neg]
  rw [spaceUnread, empty]
  exact fun h => absurd h.1 (Int.lt_irrefl 0)

section Traces
variable {table : MethodTable} (leaves : LeavesReader table)
include leaves

theorem betweenCalled {proto proto' : RtmpProto} (between : Between proto) {slot : Fin 64}
    {channel : Channel} {state packetMask : Nat} {dataBuffer : FixBuffer} {pac : Packet}
    (called : deliver table (received proto slot channel state packetMask dataBuffer) pac = .ok proto') :
    Between (rtmpPacketReset proto') ∧
      (rtmpPacketReset proto').readChunkSize = proto.readChunkSize ∧
      (rtmpPacketReset proto').channelsIn = Function.update proto.channelsIn slot channel := by
  have kept := leaves called
  have chunk : proto'.readChunkSize = proto.readChunkSize := kept.readChunkSize
  refine ⟨⟨kept.pkgSt.trans between.pkgSt, rfl, kept.lastData.trans between.lastData, ?_, ?_, ?_⟩,
    chunk, kept.channelsIn⟩
  · exact (congrArg List.length kept.readBuffer).trans between.readBuffer
  · exact chunk ▸ between.positive
  · exact chunk ▸ between.fits

theorem handledBetween {proto proto' : RtmpProto} {wires : List Bytes} {pacs : List Packet}
    (handled : Handled table proto wires proto' pacs) (between : Between proto) :
    Between proto' := by
  induction handled with
  | nil => exact between
  | cons message content capacity called rest ih => exact ih (betweenCalled leaves between called).1

omit leaves in
theorem handledInput (passive : Passive table) {proto proto' : RtmpProto} {wires : List Bytes} {pacs : List Packet}
    (handled : Handled table proto wires proto' pacs) (readBuffer : Bytes) (numUpBytes : Int) :
    Handled table (withInput proto readBuffer numUpBytes) wires
      (withInput proto' readBuffer numUpBytes) pacs := by
  induction handled with
  | nil => exact .nil _
  | @cons proto next _ slot channel data wire _ _ dataBuffer message content capacity called rest ih =>
    have called' : deliver table (received (withInput proto readBuffer numUpBytes) slot channel 6
        (headMask wire) dataBuffer) ⟨slot.val, channel, data⟩ =
        .ok (withInput next readBuffer numUpBytes) := by
      rw [receivedInput, passive.blind, called]
      rfl
    exact .cons message content capacity called' ih

theorem handledRounds {proto proto' : RtmpProto} {wires : List Bytes} {pacs : List Packet}
    (handled : Handled table proto wires proto' pacs) (between : Between proto) (fuel : Nat)
    {pb : ReadBuffer} {rest : Bytes} (unread : pb.unread = wires.flatten ++ rest)
    (needs : pb.needMore = 0) :
    feedLoop table (wires.length + fuel) proto pb =
      feedLoop table fuel proto' (pb.skip wires.flatten.length) >>= fun r =>
        .ok (r.1, pacs ++ r.2.1, r.2.2) := by
  induction handled generalizing pb with
  | nil proto =>
    rw [List.flatten_nil, List.length_nil, List.length_nil, skipZero, Nat.zero_add]
    cases feedLoop table fuel proto pb <;> rfl
  | @cons proto proto₁ last slot channel data wire wires pacs dataBuffer message content capacity called
      rest ih =>
    rw [List.flatten_cons, List.append_assoc] at unread
    have more : pb.unread ≠ [] := by
      rw [unread]
      exact List.append_ne_nil_of_left_ne_nil (List.ne_nil_of_length_pos (messageNonempty message)) _
    obtain ⟨other, content', capacity', step⟩ := feedPacketMessage between message unread
    have same := fixBufferSame (content'.trans content.symm) (capacity'.trans capacity.symm)
    have later := ih (betweenCalled leaves between called).1 (unreadSkipAppend pb unread) needs
    rw [skipSkip] at later
    rw [List.length_cons, Nat.add_right_comm, feedLoopPacket between more needs, step, same, called]
    simp only [Fallible.okBind, later, bind_assoc, List.flatten_cons, List.length_append]
    rfl

omit leaves in
theorem handledLength {proto proto' : RtmpProto} {wires : List Bytes} {pacs : List Packet}
    (handled : Handled table proto wires proto' pacs) : wires.length ≤ wires.flatten.length := by
  induction handled with
  | nil => exact Nat.le_refl 0
  | cons message content capacity called rest ih =>
    have some := messageNonempty message
    rw [List.flatten_cons, List.length_append, List.length_cons]
    omega

theorem handledLoop {proto proto' : RtmpProto} {wires : List Bytes} {pacs : List Packet}
    (handled : Handled table proto wires proto' pacs) (between : Between proto) (fuel : Nat)
    {pb : ReadBuffer} (unread : pb.unread = wires.flatten) (needs : pb.needMore = 0)
    (enough : wires.flatten.length < fuel) :
    ∃ pb', feedLoop table fuel proto pb = .ok (proto', pacs, pb') ∧ pb'.needMore = 0 := by
  have count := handledLength handled
  obtain ⟨spare, rfl⟩ : ∃ n, fuel = wires.length + (n + 1) := ⟨fuel - wires.length - 1, by omega⟩
  have whole : pb.unread = wires.flatten ++ [] := by rw [unread, List.append_nil]
  refine ⟨pb.skip wires.flatten.length, ?_, needs⟩
  rw [handledRounds leaves handled between (spare + 1) whole needs,
    feedLoopEnd (unreadSkipAppend pb whole), Fallible.okBind, List.append_nil]

end Traces

-- Blocks are received one after the other; in between anything but the reader may move.
inductive Fed (table : MethodTable) : RtmpProto → Prop where
  | init : Fed table rtmpProtoInit
  | data {proto proto' : RtmpProto} {data : Bytes} {pacs : List Packet} (before : Fed table proto)
      (received : receiveData table proto data = .ok (proto', pacs)) : Fed table proto'
  | elsewhere {proto proto' : RtmpProto} (before : Fed table proto)
      (kept : ReaderKept proto proto') : Fed table proto'

structure Steady (proto : RtmpProto) : Prop where
  state : proto.state = 0
  lastData : proto.lastData = []
  readBuffer : proto.readBuffer.length = bufferSz
  readChunkSize : proto.readChunkSize = 128

theorem steadyBetween {proto : RtmpProto} (steady : Steady proto) (phase : proto.pkgSt = 3) :
    Between proto where
  pkgSt := phase
  state := steady.state
  lastData := steady.lastData
  readBuffer := steady.readBuffer
  positive := by rw [steady.readChunkSize]; decide
  fits := by rw [steady.readChunkSize]; decide

theorem needMoreRead {pb pb' : ReadBuffer} {n : Int} {data : Bytes}
    (h : rtmpRbRead pb n = .ok (data, pb')) : pb'.needMore = pb.needMore := by
  unfold rtmpRbRead at h
  split at h
  · cases Except.ok.inj h
    rfl
  · split at h
    · contradiction
    · cases Except.ok.inj h
      rfl

section Rounds
variable {table : MethodTable} {proto proto' : RtmpProto} {pb pb' : ReadBuffer}
  (steady : Steady proto)
include steady

theorem steadyConnect (h : onConnect proto pb = .ok (proto', pb')) :
    Steady proto' ∧ pb'.needMore = pb.needMore := by
  obtain ⟨_, read, rfl⟩ := connectStep h
  exact ⟨⟨steady.state, steady.lastData, steady.readBuffer, steady.readChunkSize⟩, needMoreRead read⟩

theorem steadyShake (h : onHandShake table proto pb = .ok (proto', pb')) :
    Steady proto' ∧ pb'.needMore = pb.needMore := by
  obtain ⟨_, _, read, _, rfl | ⟨_, rfl⟩⟩ := shakeStep h
  · exact ⟨⟨steady.state, steady.lastData, steady.readBuffer, steady.readChunkSize⟩, needMoreRead read⟩
  · exact ⟨⟨steady.state, steady.lastData, steady.readBuffer, steady.readChunkSize⟩, needMoreRead read⟩

theorem steadyAckBack (h : onAckBack proto pb = .ok (proto', pb')) :
    Steady proto' ∧ pb'.needMore = pb.needMore := by
  obtain ⟨_, read, rfl | ⟨_, rfl⟩⟩ := ackStep h
  · exact ⟨⟨steady.state, steady.lastData, steady.readBuffer, steady.readChunkSize⟩, needMoreRead read⟩
  · exact ⟨⟨steady.state, steady.lastData, steady.readBuffer, steady.readChunkSize⟩, needMoreRead read⟩

theorem steadyPacket (leaves : LeavesReader table) {pac : Packet}
    (h : feedPacket table proto pb = .ok (proto', pac, pb')) :
    Steady proto' ∧ pb'.needMore = pb.needMore := by
  obtain ⟨inside, returned, read, called, rfl⟩ := feedStep h
  have chunk := steady.readChunkSize
  obtain ⟨_, _, _, _, _, _, rfl, _, _, _, _, n, rfl⟩ :=
    getPacketOk steady.state (by omega) (by omega) read
  have kept := leaves called
  refine ⟨⟨rfl, kept.lastData.trans steady.lastData, ?_, kept.readChunkSize.trans chunk⟩, rfl⟩
  exact (congrArg List.length kept.readBuffer).trans steady.readBuffer

end Rounds

section Runs
variable {table : MethodTable} (leaves : LeavesReader table)
include leaves

theorem steadyLoop (fuel : Nat) {proto proto' : RtmpProto} {pb pb' : ReadBuffer} {pacs : List Packet}
    (steady : Steady proto) (h : feedLoop table fuel proto pb = .ok (proto', pacs, pb')) :
    Steady proto' ∧ pb'.needMore = pb.needMore := by
  induction fuel generalizing proto pb pacs with
  | zero => contradiction
  | succ fuel ih =>
    have continues {next : RtmpProto} {rest : ReadBuffer} {later : List Packet}
        (moved : Steady next ∧ rest.needMore = pb.needMore)
        (loop : feedLoop table fuel next rest = .ok (proto', later, pb')) :
        Steady proto' ∧ pb'.needMore = pb.needMore := by
      have after := ih moved.1 loop
      exact ⟨after.1, after.2.trans moved.2⟩
    unfold feedLoop at h
    split at h
    · split at h
      · obtain ⟨⟨next, rest⟩, step, h⟩ := Fallible.bindOk.mp h
        exact continues (steadyConnect steady step) h
      · obtain ⟨⟨next, rest⟩, step, h⟩ := Fallible.bindOk.mp h
        exact continues (steadyShake steady step) h
      · obtain ⟨⟨next, rest⟩, step, h⟩ := Fallible.bindOk.mp h
        exact continues (steadyAckBack steady step) h
      · obtain ⟨⟨next, pac, rest⟩, step, h⟩ := Fallible.bindOk.mp h
        obtain ⟨⟨last, later, after⟩, loop, h⟩ := Fallible.bindOk.mp h
        cases Except.ok.inj h
        exact continues (steadyPacket steady leaves step) loop
      · contradiction
    · cases Except.ok.inj h
      exact ⟨steady, rfl⟩

theorem steadyReceive {proto proto' : RtmpProto} {data : Bytes} {pacs : List Packet}
    (steady : Steady proto) (h : receiveData table proto data = .ok (proto', pacs)) :
    Steady proto' := by
  have saved := steady.lastData
  rcases Nat.eq_zero_or_pos data.length with none | some
  · have empty := List.eq_nil_of_length_eq_zero none
    subst empty
    rw [receiveNothing table saved] at h
    cases Except.ok.inj h
    exact ⟨steady.state, rfl, steady.readBuffer, steady.readChunkSize⟩
  rcases Nat.lt_or_ge bufferSz data.length with large | fits
  · simp only [receiveData, rtmpProtoPrepareBuffer, putLastData, saved, List.length_nil,
      storeNothing] at h
    rw [if_neg (by omega)] at h
    contradiction
  · have block := storeAtStart proto.readBuffer data (by rw [steady.readBuffer]; exact fits)
    have stored : Steady (fed proto data) :=
      ⟨steady.state, rfl, block.2.trans steady.readBuffer, steady.readChunkSize⟩
    rw [receiveDataFed table saved steady.readBuffer some fits] at h
    obtain ⟨⟨next, later, after⟩, loop, h⟩ := Fallible.bindOk.mp h
    obtain ⟨saved', save, h⟩ := Fallible.bindOk.mp h
    cases Except.ok.inj h
    obtain ⟨moved, needs⟩ := steadyLoop leaves _ stored loop
    rw [saveNothing _ needs] at save
    cases Except.ok.inj save
    exact moved

theorem fedSteady {proto : RtmpProto} (fed : Fed table proto) : Steady proto := by
  induction fed with
  | init => exact ⟨rfl, rfl, List.length_replicate, rfl⟩
  | data before received ih => exact steadyReceive leaves ih received
  | elsewhere before kept ih =>
    exact ⟨kept.state.trans ih.state, kept.lastData.trans ih.lastData,
      (congrArg List.length kept.readBuffer).trans ih.readBuffer, kept.readChunkSize.trans ih.readChunkSize⟩

end Runs

end Rushkit
