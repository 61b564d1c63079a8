import Rushkit.Proto

/-! `rtmp_packet_get_packet` (`packet.c`): the seven states of the packet reader and
the loop over them, which is left only with a packet. -/
namespace Rushkit

def startReceive (proto : RtmpProto) : RtmpProto :=
  let proto := rtmpPacketReset proto
  { proto with state := proto.state + 1 }

def getR1 (proto : RtmpProto) (pb : ReadBuffer) : Res (Option Packet × RtmpProto × ReadBuffer) := do
  let (src, pb) ← rtmpRbReadE pb 1
  let firstByte := src.headD 0
  .ok (none, { proto with
    packetMask := firstByte.toNat / 64
    channelId := firstByte.toNat % 64
    state := proto.state + 1 }, pb)

def getR2 (proto : RtmpProto) (pb : ReadBuffer) : Res (Option Packet × RtmpProto × ReadBuffer) :=
  if proto.channelId = 0 then
    match rtmpRbAssertSize pb 1 with
    | (false, pb) => .ok (none, proto, pb)
    | (true, pb) => do
      let (b, pb) ← rtmpRbReadByteE pb
      .ok (none, { proto with channelId := 64 + b.toNat, state := proto.state + 1 }, pb)
  else if proto.channelId = 1 then
    match rtmpRbAssertSize pb 2 with
    | (false, pb) => .ok (none, proto, pb)
    | (true, pb) => do
      let (n, pb) ← rtmpRbReadShortE pb
      .ok (none, { proto with channelId := 64 + n, state := proto.state + 1 }, pb)
  else .ok (none, { proto with state := proto.state + 1 }, pb)

def newInvalidPacket (proto : RtmpProto) (data : Bytes) : Res Packet := do
  let pchannel ← rtmpProtoGetChannel proto
  .ok ⟨proto.channelId, { proto.channelsIn pchannel with dataType := pacInvalid }, data⟩

def getR3 (proto : RtmpProto) (pb : ReadBuffer) : Res (Option Packet × RtmpProto × ReadBuffer) := do
  check .getR3 (proto.channelId < 64)
  .ok (none, { proto with state := proto.state + 1 }, pb)

-- The fields a header of this type carries, or `none` when they have not all arrived.
def readFields (packetMask : Nat) (pchannel : Channel) (pb : ReadBuffer) :
    Res (Option Channel × ReadBuffer) :=
  if packetMask = channelNew then
    match rtmpRbAssertSize pb 11 with
    | (false, pb) => .ok (none, pb)
    | (true, pb) => do
      let (timer, pb) ← rtmpRbReadMediumIntE pb
      let (size, pb) ← rtmpRbReadMediumIntE pb
      let (dataType, pb) ← rtmpRbReadByteE pb
      let (streamId, pb) ← rtmpRbReadIntE pb
      .ok (some { pchannel with timer, size, dataType := dataType.toNat, streamId }, pb)
  else if packetMask = channelSameSource then
    match rtmpRbAssertSize pb 7 with
    | (false, pb) => .ok (none, pb)
    | (true, pb) => do
      let (timer, pb) ← rtmpRbReadMediumIntE pb
      let (size, pb) ← rtmpRbReadMediumIntE pb
      let (dataType, pb) ← rtmpRbReadByteE pb
      .ok (some { pchannel with timer, size, dataType := dataType.toNat }, pb)
  else if packetMask = channelTimerChange then
    match rtmpRbAssertSize pb 3 with
    | (false, pb) => .ok (none, pb)
    | (true, pb) => do
      let (timer, pb) ← rtmpRbReadMediumIntE pb
      .ok (some { pchannel with timer }, pb)
  else .ok (some pchannel, pb)

def setChannelIn (proto : RtmpProto) (slot : Fin 64) (channel : Channel) : RtmpProto :=
  { proto with channelsIn := Function.update proto.channelsIn slot channel }

def maxPacketSize : Int := 32 * 1024

def getR4 (proto : RtmpProto) (pb : ReadBuffer) :
    Res (Option Packet × RtmpProto × ReadBuffer) := do
  let slot ← rtmpProtoGetChannel proto
  let (fields, pb) ← readFields proto.packetMask (proto.channelsIn slot) pb
  match fields with
  | none => .ok (none, proto, pb)
  | some pchannel =>
    let proto := setChannelIn proto slot pchannel
    if pchannel.size ≥ maxPacketSize then do
      let (data, pb) ← rtmpRbReadE pb (rtmpRbGetSpace pb)
      let pack ← newInvalidPacket proto data
      .ok (some pack, proto, pb)
    else .ok (none, { proto with state := proto.state + 1 }, pb)

-- The extended timestamp, which is logged and dropped; `false` when it has not arrived.
def readAddcode (pchannel : Channel) (pb : ReadBuffer) : Res (Bool × ReadBuffer) :=
  if pchannel.timer = 0xffffff then
    match rtmpRbAssertSize pb 4 with
    | (false, pb) => .ok (false, pb)
    | (true, pb) => do
      let (_, pb) ← rtmpRbReadIntE pb
      .ok (true, pb)
  else .ok (true, pb)

def getR5 (proto : RtmpProto) (pb : ReadBuffer) :
    Res (Option Packet × RtmpProto × ReadBuffer) := do
  let slot ← rtmpProtoGetChannel proto
  let (arrived, pb) ← readAddcode (proto.channelsIn slot) pb
  if arrived then
    .ok (none, { proto with
      dataBuffer := rtmpFwbReset (proto.channelsIn slot).size
      state := proto.state + 1 }, pb)
  else .ok (none, proto, pb)

def countHeaderBytes (channelId : Int) : Int :=
  if channelId ≤ 63 then 0
  else if channelId < 320 then 1
  else 2

def getPacket (proto : RtmpProto) : Res Packet := do
  let data := rtmpFwbGetValue proto.dataBuffer
  let pchannel ← rtmpProtoGetChannel proto
  .ok ⟨proto.channelId, proto.channelsIn pchannel, data⟩

-- The sum of the loop test is an `int`. Every round takes at least one byte of the buffer.
def readChunks (chunkSize : Nat) (hb : Int) :
    Nat → FixBuffer → ReadBuffer → Res (FixBuffer × ReadBuffer)
  | 0, _, _ => .error .hang
  | fuel+1, dataBuffer, pb =>
    if rtmpFwbGetSpace dataBuffer ≥ int32 (chunkSize + hb) then do
      let (trunk, pb) ← rtmpRbReadE pb chunkSize
      let dataBuffer ← rtmpFwbWrite dataBuffer trunk
      let (_, pb) ← rtmpRbReadE pb hb
      readChunks chunkSize hb fuel dataBuffer pb
    else .ok (dataBuffer, pb)

def readRemainder (dataBuffer : FixBuffer) (pb : ReadBuffer) : Res (FixBuffer × ReadBuffer) :=
  if rtmpFwbGetSpace dataBuffer > 0 then do
    let (dv, pb) ← rtmpRbReadE pb (rtmpFwbGetSpace dataBuffer)
    let dataBuffer ← rtmpFwbWrite dataBuffer dv
    .ok (dataBuffer, pb)
  else .ok (dataBuffer, pb)

def getR6 (proto : RtmpProto) (pb : ReadBuffer) :
    Res (Option Packet × RtmpProto × ReadBuffer) := do
  let hb := 1 + countHeaderBytes proto.channelId
  let slot ← rtmpProtoGetChannel proto
  if 0 < (proto.channelsIn slot).dataType then do
    let (dataBuffer, pb) ←
      readChunks proto.readChunkSize hb (pb.buf.length + 1) proto.dataBuffer pb
    let (dataBuffer, pb) ← readRemainder dataBuffer pb
    let proto := { proto with dataBuffer }
    let pack ← getPacket proto
    .ok (some pack, proto, pb)
  else
    match rtmpRbAssertSize pb 4 with
    | (false, pb) => .ok (none, proto, pb)
    | (true, pb) => do
      let (data, pb) ← rtmpRbReadE pb 4
      let dataBuffer ← rtmpFwbWrite proto.dataBuffer data
      let proto := { proto with dataBuffer }
      let pack ← getPacket proto
      .ok (some pack, proto, pb)

def packetStep (proto : RtmpProto) (pb : ReadBuffer) :
    Res (Option Packet × RtmpProto × ReadBuffer) :=
  match proto.state with
  | 0 => .ok (none, startReceive proto, pb)
  | 1 => getR1 proto pb
  | 2 => getR2 proto pb
  | 3 => getR3 proto pb
  | 4 => getR4 proto pb
  | 5 => getR5 proto pb
  | 6 => getR6 proto pb
  | _ => .ok (none, proto, pb)

def packetLoop : Nat → RtmpProto → ReadBuffer → Res (Packet × RtmpProto × ReadBuffer)
  | 0, _, _ => .error .hang
  | fuel+1, proto, pb => do
    let (pac, proto, pb) ← packetStep proto pb
    match pac with
    | some pac => .ok (pac, proto, pb)
    | none => packetLoop fuel proto pb

-- From any state seven steps reach a packet, or the loop repeats one step for ever.
def rtmpPacketGetPacket (proto : RtmpProto) (pb : ReadBuffer) :
    Res (Packet × RtmpProto × ReadBuffer) :=
  packetLoop 7 proto pb

def ReaderOnly (proto proto' : RtmpProto) : Prop :=
  proto' = { proto with
    state := proto'.state
    packetMask := proto'.packetMask
    channelId := proto'.channelId
    channelsIn := proto'.channelsIn
    dataBuffer := proto'.dataBuffer }

-- One or more steps of the reader: no channel is opened or closed.
structure Parsed (proto proto' : RtmpProto) : Prop where
  frame : ReaderOnly proto proto'
  used : ∀ slot, (proto'.channelsIn slot).used = (proto.channelsIn slot).used

theorem parsedTrans {a b c : RtmpProto} (h : Parsed a b) (h' : Parsed b c) : Parsed a c := by
  refine ⟨?_, fun slot => (h'.used slot).trans (h.used slot)⟩
  have first := h.frame
  have second := h'.frame
  unfold ReaderOnly at *
  rw [first] at second
  exact second

theorem readFieldsUsed {packetMask : Nat} {pchannel channel : Channel} {pb pb' : ReadBuffer}
    (h : readFields packetMask pchannel pb = .ok (some channel, pb')) : channel.used = pchannel.used := by
  unfold readFields at h
  split at h
  · split at h
    · cases h
    · simp only [Fallible.bindOk] at h
      obtain ⟨_, _, _, _, _, _, _, _, h⟩ := h
      cases Except.ok.inj h
      rfl
  · split at h
    · split at h
      · cases h
      · simp only [Fallible.bindOk] at h
        obtain ⟨_, _, _, _, _, _, h⟩ := h
        cases Except.ok.inj h
        rfl
    · split at h
      · split at h
        · cases h
        · obtain ⟨_, _, h⟩ := Fallible.bindOk.mp h
          cases Except.ok.inj h
          rfl
      · cases Except.ok.inj h
        rfl

theorem setChannelUsed {proto : RtmpProto} {slot : Fin 64} {channel : Channel}
    (same : channel.used = (proto.channelsIn slot).used) (other : Fin 64) :
    ((setChannelIn proto slot channel).channelsIn other).used = (proto.channelsIn other).used := by
  change (Function.update proto.channelsIn slot channel other).used = _
  rcases eq_or_ne other slot with rfl | different
  · rw [Function.update_self, same]
  · rw [Function.update_of_ne different]

section Frame
variable {proto proto' : RtmpProto} {pb pb' : ReadBuffer} {pac : Option Packet}

theorem parsedR1 (h : getR1 proto pb = .ok (pac, proto', pb')) : Parsed proto proto' := by
  simp only [getR1, Fallible.bindOk] at h
  obtain ⟨_, _, h⟩ := h
  cases Except.ok.inj h
  exact ⟨rfl, fun _ => rfl⟩

theorem parsedR2 (h : getR2 proto pb = .ok (pac, proto', pb')) : Parsed proto proto' := by
  unfold getR2 at h
  split at h
  · split at h
    · cases Except.ok.inj h
      exact ⟨rfl, fun _ => rfl⟩
    · obtain ⟨_, _, h⟩ := Fallible.bindOk.mp h
      cases Except.ok.inj h
      exact ⟨rfl, fun _ => rfl⟩
  · split at h
    · split at h
      · cases Except.ok.inj h
        exact ⟨rfl, fun _ => rfl⟩
      · obtain ⟨_, _, h⟩ := Fallible.bindOk.mp h
        cases Except.ok.inj h
        exact ⟨rfl, fun _ => rfl⟩
    · cases Except.ok.inj h
      exact ⟨rfl, fun _ => rfl⟩

theorem parsedR3 (h : getR3 proto pb = .ok (pac, proto', pb')) : Parsed proto proto' := by
  simp only [getR3, Fallible.bindOk] at h
  obtain ⟨_, _, h⟩ := h
  cases Except.ok.inj h
  exact ⟨rfl, fun _ => rfl⟩

theorem parsedR4 (h : getR4 proto pb = .ok (pac, proto', pb')) : Parsed proto proto' := by
  simp only [getR4, Fallible.bindOk] at h
  obtain ⟨slot, _, ⟨fields, rest⟩, read, h⟩ := h
  cases fields with
  | none =>
    cases Except.ok.inj h
    exact ⟨rfl, fun _ => rfl⟩
  | some pchannel =>
    have used := setChannelUsed (readFieldsUsed read)
    dsimp only at h
    split at h
    · simp only [Fallible.bindOk] at h
      obtain ⟨_, _, _, _, h⟩ := h
      cases Except.ok.inj h
      exact ⟨rfl, used⟩
    · cases Except.ok.inj h
      exact ⟨rfl, used⟩

theorem parsedR5 (h : getR5 proto pb = .ok (pac, proto', pb')) : Parsed proto proto' := by
  simp only [getR5, Fallible.bindOk] at h
  obtain ⟨_, _, _, _, h⟩ := h
  split at h <;> cases Except.ok.inj h <;> exact ⟨rfl, fun _ => rfl⟩

theorem parsedR6 (h : getR6 proto pb = .ok (pac, proto', pb')) : Parsed proto proto' := by
  simp only [getR6] at h
  obtain ⟨_, _, h⟩ := Fallible.bindOk.mp h
  split at h
  · simp only [Fallible.bindOk] at h
    obtain ⟨_, _, _, _, _, _, h⟩ := h
    cases Except.ok.inj h
    exact ⟨rfl, fun _ => rfl⟩
  · split at h
    · cases Except.ok.inj h
      exact ⟨rfl, fun _ => rfl⟩
    · simp only [Fallible.bindOk] at h
      obtain ⟨_, _, _, _, _, _, h⟩ := h
      cases Except.ok.inj h
      exact ⟨rfl, fun _ => rfl⟩

theorem parsedStep (h : packetStep proto pb = .ok (pac, proto', pb')) : Parsed proto proto' := by
  unfold packetStep at h
  split at h
  · cases Except.ok.inj h
    exact ⟨rfl, fun _ => rfl⟩
  · exact parsedR1 h
  · exact parsedR2 h
  · exact parsedR3 h
  · exact parsedR4 h
  · exact parsedR5 h
  · exact parsedR6 h
  · cases Except.ok.inj h
    exact ⟨rfl, fun _ => rfl⟩

end Frame

theorem parsedLoop (fuel : Nat) {proto proto' : RtmpProto} {pb pb' : ReadBuffer} {pac : Packet}
    (h : packetLoop fuel proto pb = .ok (pac, proto', pb')) : Parsed proto proto' := by
  induction fuel generalizing proto pb with
  | zero => contradiction
  | succ fuel ih =>
    simp only [packetLoop, Fallible.bindOk] at h
    obtain ⟨⟨pac', next, rest⟩, step, h⟩ := h
    cases pac' with
    | none => exact parsedTrans (parsedStep step) (ih h)
    | some got =>
      cases Except.ok.inj h
      exact parsedStep step

theorem getPacketParsed {proto proto' : RtmpProto} {pb pb' : ReadBuffer} {pac : Packet}
    (h : rtmpPacketGetPacket proto pb = .ok (pac, proto', pb')) : Parsed proto proto' :=
  parsedLoop 7 h

end Rushkit
