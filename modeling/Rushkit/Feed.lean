import Rushkit.AmfValue
import Rushkit.PacketRead
import Rushkit.PacketWrite
import Rushkit.Library.Splice

/-! `rtmp_proto_feed` with its handshake (`protocol.c`), sending, and how received
blocks reach it (`connection.cpp`). The packets handed to `on_packet` are collected. -/
namespace Rushkit

abbrev PacketCallback := RtmpProto → Packet → Res RtmpProto

/- The callbacks are parameters of the model; `on_amf_call` gets the channel, the
request id, the method name and the arguments. An `on_write_data` is set or not. `behind`
is a parameter, too, no callback: what the memory holds behind the payload of a packet. -/
structure MethodTable where
  onWriteData : Bool
  onPacket : Option PacketCallback
  onPacketChunkSize : Option PacketCallback
  onPacketInvalid : Option PacketCallback
  onPacketBytesRead : Option PacketCallback
  onPacketPing : Option PacketCallback
  onPacketInvoke : Option PacketCallback
  onPacketAudio : Option PacketCallback
  onPacketVideo : Option PacketCallback
  onAmfCall : Option (RtmpProto → Int → Int → Amf.AV → Int → List Amf.AV → Res RtmpProto)
  behind : Packet → Bytes

-- The `PACKET`, where it is cut from the same trunk as its payload.
def packetBehind (pac : Packet) : Bytes := hostBytes 4 (BitVec.ofInt 32 pac.channelId)

def bareTable : MethodTable :=
  ⟨true, none, none, none, none, none, none, none, none, none, packetBehind⟩

def protoWriteData (table : MethodTable) (proto : RtmpProto) (data : Bytes) : RtmpProto :=
  { proto with
    numDownBytes := int32 (proto.numDownBytes + data.length)
    written := if table.onWriteData then proto.written ++ [data] else proto.written }

def rtmpProtoSendPacket (table : MethodTable) (proto : RtmpProto) (pac : Packet)
    (timerRelative : Bool) : Res RtmpProto := do
  let (_, proto, buffer) ← rtmpPacketWritePacket proto (rtmpWbInit 1024) pac timerRelative
  check .rtmpProtoSendPacket (table.onWriteData = true)
  check .rtmpProtoSendPacket (0 < (rtmpWbGetValue buffer).length)
  .ok (protoWriteData table proto (rtmpWbGetValue buffer))

def onConnect (proto : RtmpProto) (pb : ReadBuffer) : Res (RtmpProto × ReadBuffer) := do
  let (protoNumber, pb) ← rtmpRbRead pb 1
  check .onConnect (protoNumber.headD 0 = 3)
  .ok ({ proto with pkgSt := 1 }, pb)

def handshakeSize : Nat := 1536

def shakeBuffer (proto : RtmpProto) : FixBuffer :=
  if proto.tmpBuf.capacity = 0 then rtmpFwbReset handshakeSize else proto.tmpBuf

def handshakeAck : Bytes := 3 :: (packLong 1 ++ List.replicate 1532 0)

def onHandShake (table : MethodTable) (proto : RtmpProto) (pb : ReadBuffer) :
    Res (RtmpProto × ReadBuffer) := do
  check .onHandShake (proto.tmpBuf.capacity = 0 → (shakeBuffer proto).capacity = handshakeSize)
  let (shake, pb) ← rtmpRbRead pb (rtmpFwbGetSpace (shakeBuffer proto))
  let tmpBuf ← rtmpFwbWrite (shakeBuffer proto) shake
  if rtmpFwbGetSpace tmpBuf ≤ 0 then do
    let proto := protoWriteData table proto handshakeAck
    check .onHandShake ((rtmpFwbGetValue tmpBuf).length = handshakeSize)
    let proto := protoWriteData table proto (rtmpFwbGetValue tmpBuf)
    .ok ({ proto with tmpBuf := rtmpFwbInit, pkgSt := proto.pkgSt + 1 }, pb)
  else .ok ({ proto with tmpBuf }, pb)

def onAckBack (proto : RtmpProto) (pb : ReadBuffer) : Res (RtmpProto × ReadBuffer) := do
  let (data, pb) ← rtmpRbRead pb proto.ackBackLen
  let ackBackLen := proto.ackBackLen - data.length
  if ackBackLen ≤ 0 then .ok ({ proto with ackBackLen := handshakeSize, pkgSt := proto.pkgSt + 1 }, pb)
  else .ok ({ proto with ackBackLen }, pb)

-- A missing callback is only logged.
def deliver (table : MethodTable) (proto : RtmpProto) (pac : Packet) : Res RtmpProto :=
  match table.onPacket with
  | some onPacket => onPacket proto pac
  | none => .ok proto

def feedPacket (table : MethodTable) (proto : RtmpProto) (pb : ReadBuffer) :
    Res (RtmpProto × Packet × ReadBuffer) := do
  let (pac, proto, pb) ← rtmpPacketGetPacket proto pb
  let proto ← deliver table proto pac
  .ok (rtmpPacketReset proto, pac, pb)

-- A `pkg_st` without a case repeats the loop for ever.
def feedLoop (table : MethodTable) :
    Nat → RtmpProto → ReadBuffer → Res (RtmpProto × List Packet × ReadBuffer)
  | 0, _, _ => .error .hang
  | fuel+1, proto, buffer =>
    if 0 < rtmpRbGetSpace buffer ∧ buffer.needMore = 0 then
      match proto.pkgSt with
      | 0 => do
        let (proto, buffer) ← onConnect proto buffer
        feedLoop table fuel proto buffer
      | 1 => do
        let (proto, buffer) ← onHandShake table proto buffer
        feedLoop table fuel proto buffer
      | 2 => do
        let (proto, buffer) ← onAckBack proto buffer
        feedLoop table fuel proto buffer
      | 3 => do
        let (proto, pac, buffer) ← feedPacket table proto buffer
        let (proto, pacs, buffer) ← feedLoop table fuel proto buffer
        .ok (proto, pac :: pacs, buffer)
      | _ => .error .hang
    else .ok (proto, [], buffer)

def saveLastData (proto : RtmpProto) (buffer : ReadBuffer) : Res RtmpProto :=
  if buffer.needMore > 0 then do
    check .rtmpProtoFeed (rtmpRbGetSpace buffer ≤ 128)
    if buffer.unread.length ≤ proto.lastDataRoom then .ok { proto with lastData := buffer.unread }
    else .error .overWrite
  else .ok proto

theorem saveNothing (proto : RtmpProto) {buffer : ReadBuffer} (needs : buffer.needMore = 0) :
    saveLastData proto buffer = .ok proto := by
  rw [saveLastData, if_neg]
  rw [needs]
  exact Int.lt_irrefl 0

-- Every round consumes a byte, except that a packet may end where the one before it did.
def rtmpProtoFeed (table : MethodTable) (proto : RtmpProto) (len : Nat) :
    Res (RtmpProto × List Packet) :=
  if len ≤ proto.readBuffer.length then do
    let (proto, pacs, buffer) ← feedLoop table (2 * len + 2)
      { proto with numUpBytes := int32 (proto.numUpBytes + len) }
      (rtmpRbInit (proto.readBuffer.take len))
    let proto ← saveLastData proto buffer
    .ok (proto, pacs)
  else .error .overRead

def storeAt (block : Bytes) (offset : Nat) (data : Bytes) : Bytes :=
  block.take offset ++ data ++ block.drop (offset + data.length)

def putLastData (proto : RtmpProto) : Nat × RtmpProto :=
  (proto.lastData.length,
    { proto with readBuffer := storeAt proto.readBuffer 0 proto.lastData, lastData := [] })

-- The address to store at, as an offset into the read buffer, with the room behind it.
def rtmpProtoPrepareBuffer (proto : RtmpProto) : Nat × Int × RtmpProto :=
  let (pL, proto) := putLastData proto
  (pL, bufferSz - pL, proto)

/- `data` is what `read` returned; it never returns more than it was asked for. -/
def receiveData (table : MethodTable) (proto : RtmpProto) (data : Bytes) :
    Res (RtmpProto × List Packet) :=
  let (buffer, capacity, proto) := rtmpProtoPrepareBuffer proto
  if data.length ≤ capacity then
    let proto := { proto with readBuffer := storeAt proto.readBuffer buffer data }
    if 0 < data.length then rtmpProtoFeed table proto data.length else .ok (proto, [])
  else .error .overWrite

def receiveAllData (table : MethodTable) : RtmpProto → List Bytes → Res (RtmpProto × List Packet)
  | proto, [] => .ok (proto, [])
  | proto, data :: rest => do
    let (proto, pacs) ← receiveData table proto data
    let (proto, later) ← receiveAllData table proto rest
    .ok (proto, pacs ++ later)

theorem storeAtStart (block data : Bytes) (fits : data.length ≤ block.length) :
    (storeAt block 0 data).take data.length = data ∧
      (storeAt block 0 data).length = block.length := by
  have length : (storeAt block 0 data).length = block.length := Splice.spliceLength (by omega)
  exact ⟨Splice.spliceRead data (Nat.zero_le block.length), length⟩

theorem storeNothing (block : Bytes) : storeAt block 0 [] = block := Splice.spliceNothing block 0

theorem receiveNothing (table : MethodTable) {proto : RtmpProto} (saved : proto.lastData = []) :
    receiveData table proto [] = .ok ({ proto with lastData := [] }, []) := by
  simp only [receiveData, rtmpProtoPrepareBuffer, putLastData, saved, List.length_nil, storeNothing]
  rw [if_pos (by decide), if_neg (Nat.lt_irrefl 0)]

def fed (proto : RtmpProto) (data : Bytes) : RtmpProto :=
  { proto with
    readBuffer := storeAt proto.readBuffer 0 data
    lastData := []
    numUpBytes := int32 (proto.numUpBytes + data.length) }

theorem receiveDataFed (table : MethodTable) {proto : RtmpProto} {data : Bytes}
    (saved : proto.lastData = []) (block : proto.readBuffer.length = bufferSz)
    (some : 0 < data.length) (fits : data.length ≤ bufferSz) :
    receiveData table proto data =
      feedLoop table (2 * data.length + 2) (fed proto data) (rtmpRbInit data) >>= fun r =>
        saveLastData r.1 r.2.2 >>= fun proto => .ok (proto, r.2.1) := by
  obtain ⟨taken, size⟩ := storeAtStart proto.readBuffer data (by omega)
  have capacity : (data.length : Int) ≤ bufferSz - ((0 : Nat) : Int) := by omega
  simp only [receiveData, rtmpProtoPrepareBuffer, putLastData, saved, List.length_nil, storeNothing]
  rw [if_pos capacity, if_pos some, rtmpProtoFeed, if_pos (by dsimp only; omega)]
  dsimp only
  rw [taken]
  rfl

-- Everything the packet reader and the packet writer work on is the same.
structure Kept (proto proto' : RtmpProto) : Prop where
  readChunkSize : proto'.readChunkSize = proto.readChunkSize
  writeChunkSize : proto'.writeChunkSize = proto.writeChunkSize
  state : proto'.state = proto.state
  packetMask : proto'.packetMask = proto.packetMask
  channelId : proto'.channelId = proto.channelId
  channelsIn : proto'.channelsIn = proto.channelsIn
  channelsOut : proto'.channelsOut = proto.channelsOut
  dataBuffer : proto'.dataBuffer = proto.dataBuffer

/- The states of a connection, those inside a packet callback included: a packet is
received, the callback returns, a packet is sent, or something else moves. -/
inductive Reach : RtmpProto → Prop where
  | init : Reach rtmpProtoInit
  | kept {proto proto' : RtmpProto} (reach : Reach proto) (same : Kept proto proto') : Reach proto'
  | received {proto proto' : RtmpProto} {pb pb' : ReadBuffer} {pac : Packet} (reach : Reach proto)
      (read : rtmpPacketGetPacket proto pb = .ok (pac, proto', pb')) : Reach proto'
  | returned {proto : RtmpProto} (reach : Reach proto) : Reach (rtmpPacketReset proto)
  | sent {proto proto' : RtmpProto} {pb pb' : WriteBuffer UInt8} {pac : Packet}
      {timerRelative : Bool} {told : Int} (reach : Reach proto)
      (write : rtmpPacketWritePacket proto pb pac timerRelative = .ok (told, proto', pb')) :
      Reach proto'

section Steps
variable {table : MethodTable} {proto proto' : RtmpProto} {pb pb' : ReadBuffer}

theorem connectStep (h : onConnect proto pb = .ok (proto', pb')) :
    ∃ protoNumber, rtmpRbRead pb 1 = .ok (protoNumber, pb') ∧ proto' = { proto with pkgSt := 1 } := by
  simp only [onConnect, Fallible.bindOk] at h
  obtain ⟨⟨protoNumber, rest⟩, read, _, _, last⟩ := h
  cases Except.ok.inj last
  exact ⟨protoNumber, read, rfl⟩

theorem shakeStep (h : onHandShake table proto pb = .ok (proto', pb')) :
    ∃ shake tmpBuf, rtmpRbRead pb (rtmpFwbGetSpace (shakeBuffer proto)) = .ok (shake, pb') ∧
      rtmpFwbWrite (shakeBuffer proto) shake = .ok tmpBuf ∧
      (proto' = { protoWriteData table (protoWriteData table proto handshakeAck) (rtmpFwbGetValue tmpBuf) with
          tmpBuf := rtmpFwbInit
          pkgSt := proto.pkgSt + 1 } ∨
        0 < rtmpFwbGetSpace tmpBuf ∧ proto' = { proto with tmpBuf }) := by
  simp only [onHandShake, Fallible.bindOk] at h
  obtain ⟨_, _, ⟨shake, rest⟩, read, tmpBuf, write, h⟩ := h
  split at h
  · simp only [Fallible.bindOk] at h
    obtain ⟨_, _, last⟩ := h
    cases Except.ok.inj last
    exact ⟨shake, tmpBuf, read, write, .inl rfl⟩
  · rename_i more
    cases Except.ok.inj h
    exact ⟨shake, tmpBuf, read, write, .inr ⟨Int.not_le.mp more, rfl⟩⟩

theorem ackStep (h : onAckBack proto pb = .ok (proto', pb')) :
    ∃ data, rtmpRbRead pb proto.ackBackLen = .ok (data, pb') ∧
      (proto' = { proto with ackBackLen := handshakeSize, pkgSt := proto.pkgSt + 1 } ∨
        0 < proto.ackBackLen - data.length ∧
          proto' = { proto with ackBackLen := proto.ackBackLen - data.length }) := by
  simp only [onAckBack, Fallible.bindOk] at h
  obtain ⟨⟨data, rest⟩, read, h⟩ := h
  split at h
  · cases Except.ok.inj h
    exact ⟨data, read, .inl rfl⟩
  · rename_i more
    cases Except.ok.inj h
    exact ⟨data, read, .inr ⟨Int.not_le.mp more, rfl⟩⟩

theorem feedStep {pac : Packet} (h : feedPacket table proto pb = .ok (proto', pac, pb')) :
    ∃ inside returned, rtmpPacketGetPacket proto pb = .ok (pac, inside, pb') ∧
      deliver table inside pac = .ok returned ∧ proto' = rtmpPacketReset returned := by
  simp only [feedPacket, Fallible.bindOk] at h
  obtain ⟨⟨got, inside, rest⟩, read, returned, called, last⟩ := h
  cases Except.ok.inj last
  exact ⟨inside, returned, read, called, rfl⟩

theorem saveStep {saved : RtmpProto} (h : saveLastData proto pb = .ok saved) :
    saved = proto ∨ saved = { proto with lastData := pb.unread } := by
  unfold saveLastData at h
  split at h
  · obtain ⟨_, _, h⟩ := Fallible.bindOk.mp h
    split at h
    · cases Except.ok.inj h
      exact .inr rfl
    · contradiction
  · cases Except.ok.inj h
    exact .inl rfl

theorem keptConnect (h : onConnect proto pb = .ok (proto', pb')) : Kept proto proto' := by
  obtain ⟨_, _, rfl⟩ := connectStep h
  exact ⟨rfl, rfl, rfl, rfl, rfl, rfl, rfl, rfl⟩

theorem keptShake (h : onHandShake table proto pb = .ok (proto', pb')) : Kept proto proto' := by
  obtain ⟨_, _, _, _, rfl | ⟨_, rfl⟩⟩ := shakeStep h
  · exact ⟨rfl, rfl, rfl, rfl, rfl, rfl, rfl, rfl⟩
  · exact ⟨rfl, rfl, rfl, rfl, rfl, rfl, rfl, rfl⟩

theorem keptAckBack (h : onAckBack proto pb = .ok (proto', pb')) : Kept proto proto' := by
  obtain ⟨_, _, rfl | ⟨_, rfl⟩⟩ := ackStep h
  · exact ⟨rfl, rfl, rfl, rfl, rfl, rfl, rfl, rfl⟩
  · exact ⟨rfl, rfl, rfl, rfl, rfl, rfl, rfl, rfl⟩

end Steps

section Callbacks
variable {table : MethodTable} (callback : ∀ proto pac proto', Reach proto →
  deliver table proto pac = .ok proto' → Reach proto')
include callback

theorem reachLoop (fuel : Nat) {proto proto' : RtmpProto} {pb pb' : ReadBuffer} {pacs : List Packet}
    (reach : Reach proto) (h : feedLoop table fuel proto pb = .ok (proto', pacs, pb')) :
    Reach proto' := by
  induction fuel generalizing proto pb pacs with
  | zero => contradiction
  | succ fuel ih =>
    unfold feedLoop at h
    split at h
    · split at h
      · obtain ⟨⟨next, rest⟩, step, h⟩ := Fallible.bindOk.mp h
        exact ih (.kept reach (keptConnect step)) h
      · obtain ⟨⟨next, rest⟩, step, h⟩ := Fallible.bindOk.mp h
        exact ih (.kept reach (keptShake step)) h
      · obtain ⟨⟨next, rest⟩, step, h⟩ := Fallible.bindOk.mp h
        exact ih (.kept reach (keptAckBack step)) h
      · obtain ⟨⟨next, pac, rest⟩, step, h⟩ := Fallible.bindOk.mp h
        obtain ⟨⟨later, morePacs, last⟩, loop, h⟩ := Fallible.bindOk.mp h
        cases Except.ok.inj h
        obtain ⟨inside, returned, read, called, rfl⟩ := feedStep step
        exact ih (.returned (callback _ _ _ (.received reach read) called)) loop
      · contradiction
    · cases Except.ok.inj h
      exact reach

theorem reachFeed {proto proto' : RtmpProto} {len : Nat} {pacs : List Packet} (reach : Reach proto)
    (h : rtmpProtoFeed table proto len = .ok (proto', pacs)) : Reach proto' := by
  unfold rtmpProtoFeed at h
  split at h
  · simp only [Fallible.bindOk] at h
    obtain ⟨⟨next, morePacs, buffer⟩, loop, saved, save, last⟩ := h
    cases Except.ok.inj last
    have counted : Reach { proto with numUpBytes := int32 (proto.numUpBytes + len) } :=
      .kept reach ⟨rfl, rfl, rfl, rfl, rfl, rfl, rfl, rfl⟩
    have after := reachLoop callback _ counted loop
    rcases saveStep save with rfl | rfl
    · exact after
    · exact .kept after ⟨rfl, rfl, rfl, rfl, rfl, rfl, rfl, rfl⟩
  · contradiction

end Callbacks

end Rushkit
