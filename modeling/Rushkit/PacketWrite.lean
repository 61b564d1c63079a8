import Rushkit.Proto
import Rushkit.WriteGrowth
import Rushkit.Library.Interleaving

/-! `rtmp_packet_write_packet` (`packet.c`). What it writes is described as a basic
header, the fields its header type has room for, and the payload cut into chunks. -/
namespace Rushkit

-- The channel comes from the connection; the argument is never looked at.
def writeHeaderBytes (proto : RtmpProto) (pb : WriteBuffer UInt8) (packetMask : Nat)
    (_channelId : Int) : Res (Int × WriteBuffer UInt8) :=
  if 64 ≤ proto.channelId ∧ proto.channelId ≤ 255 then do
    let pb ← rtmpWbWriteByte pb (packetMask * 64)
    let pb ← rtmpWbWriteByte pb (proto.channelId - 64)
    .ok (2, pb)
  else if 255 < proto.channelId then do
    let pb ← rtmpWbWriteByte pb (packetMask * 64 + 1)
    let pb ← rtmpWbWriteShort pb (proto.channelId - 64)
    .ok (3, pb)
  else if proto.channelId < 2 then .error (.assertion .writeHeaderBytes)
  else do
    let pb ← rtmpWbWriteByte pb (packetMask * 64 + proto.channelId)
    .ok (1, pb)

-- The comparisons are added up; an unused entry is opened with type 0.
def chosenMask (pchannel channel : Channel) : Nat :=
  if pchannel.used = false then channelNew
  else
    (if pchannel.streamId = channel.streamId then 1 else 0) +
    (if pchannel.dataType = channel.dataType ∧ pchannel.size = channel.size then
      (if pchannel.timer = channel.timer then 2 else 1) else 0)

def openedChannel (pchannel : Channel) : Channel :=
  if pchannel.used = false then initChannel else pchannel

def sentChannel (packetMask : Nat) (pchannel channel : Channel) : Channel :=
  if packetMask = channelTimerChange then { pchannel with timer := channel.timer }
  else if packetMask = channelSameSource then
    { pchannel with timer := channel.timer, dataType := channel.dataType, size := channel.size }
  else if packetMask = channelNew then
    { pchannel with
      timer := channel.timer
      dataType := channel.dataType
      size := channel.size
      streamId := channel.streamId }
  else pchannel

def writeFields (pb : WriteBuffer UInt8) (packetMask : Nat) (dtime : Int) (pchannel : Channel) :
    Res (WriteBuffer UInt8) :=
  if packetMask = channelTimerChange then rtmpWbWriteMediumInt pb dtime
  else if packetMask = channelSameSource then do
    let pb ← rtmpWbWriteMediumInt pb dtime
    let pb ← rtmpWbWriteMediumInt pb pchannel.size
    rtmpWbWriteByte pb pchannel.dataType
  else if packetMask = channelNew then do
    let pb ← rtmpWbWriteMediumInt pb dtime
    let pb ← rtmpWbWriteMediumInt pb pchannel.size
    let pb ← rtmpWbWriteByte pb pchannel.dataType
    rtmpWbWriteReverseInt pb pchannel.streamId
  else .ok pb

def writeChunks (proto : RtmpProto) (channelId : Int) :
    Nat → WriteBuffer UInt8 → Bytes → Res (WriteBuffer UInt8)
  | 0, _, _ => .error .hang
  | fuel+1, pb, p =>
    if p.length > proto.writeChunkSize then do
      let pb ← rtmpWbWriteBytes pb (p.take proto.writeChunkSize)
      let (_, pb) ← writeHeaderBytes proto pb channelContinue channelId
      writeChunks proto channelId fuel pb (p.drop proto.writeChunkSize)
    else if 0 < p.length then rtmpWbWriteBytes pb p
    else .ok pb

-- The packet's channel record as it is sent: its size is that of the payload.
def Packet.sized (pac : Packet) : Channel := { pac.channel with size := pac.data.length }

-- `dtime` goes through a `double`, which holds every `int`.
def sentTime (timerRelative : Bool) (pchannel channel : Channel) : Int :=
  if timerRelative then int32 (channel.timer - pchannel.timer) else channel.timer

def rtmpPacketWritePacket (proto : RtmpProto) (pb : WriteBuffer UInt8) (pac : Packet)
    (timerRelative : Bool) : Res (Int × RtmpProto × WriteBuffer UInt8) := do
  let slot ← tableEntry pac.channelId
  let packetMask := chosenMask (proto.channelsOut slot) pac.sized
  let opened := openedChannel (proto.channelsOut slot)
  let pchannel := sentChannel packetMask opened pac.sized
  let (_, pb) ← writeHeaderBytes proto pb packetMask pac.channelId
  let pb ← writeFields pb packetMask (sentTime timerRelative opened pac.sized) pchannel
  let pb ← writeChunks proto pac.channelId (pac.data.length + 1) pb pac.data
  .ok (rtmpWbTell pb, { proto with channelsOut := Function.update proto.channelsOut slot pchannel }, pb)

def basicHeader (packetMask : Nat) (channelId : Int) : Bytes :=
  if 64 ≤ channelId ∧ channelId ≤ 255 then
    [UInt8.ofInt (packetMask * 64), UInt8.ofInt (channelId - 64)]
  else if 255 < channelId then
    UInt8.ofInt (packetMask * 64 + 1) :: loadData (hostBytes 2 (BitVec.ofInt 16 (channelId - 64)))
  else [UInt8.ofInt (packetMask * 64 + channelId)]

def fieldBytes (packetMask : Nat) (dtime : Int) (pchannel : Channel) : Bytes :=
  if packetMask = channelTimerChange then mediumBytes dtime
  else if packetMask = channelSameSource then
    mediumBytes dtime ++ mediumBytes pchannel.size ++ [UInt8.ofInt pchannel.dataType]
  else if packetMask = channelNew then
    mediumBytes dtime ++ mediumBytes pchannel.size ++ [UInt8.ofInt pchannel.dataType] ++
      loadDataReverse (hostBytes 4 (BitVec.ofInt 32 pchannel.streamId))
  else []

def fieldWidth (packetMask : Nat) : Nat :=
  if packetMask = channelTimerChange then 3
  else if packetMask = channelSameSource then 7
  else if packetMask = channelNew then 11
  else 0

def chunkBytes (proto : RtmpProto) : Nat → Bytes → Bytes
  | 0, p => p
  | fuel+1, p =>
    if p.length > proto.writeChunkSize then
      p.take proto.writeChunkSize ++ (basicHeader channelContinue proto.channelId ++
        chunkBytes proto fuel (p.drop proto.writeChunkSize))
    else p

theorem fieldBytesLength (packetMask : Nat) (dtime : Int) (pchannel : Channel) :
    (fieldBytes packetMask dtime pchannel).length = fieldWidth packetMask := by
  unfold fieldBytes fieldWidth loadDataReverse
  split
  · rfl
  · split
    · rfl
    · split
      · simp [mediumBytes, loadDataOrdered, systemIsSmallEndian]
      · rfl

theorem chosenMaskBound (pchannel channel : Channel) : chosenMask pchannel channel ≤ 3 := by
  unfold chosenMask
  split
  · decide
  · split <;> split <;> (try split) <;> decide

def packetBytes (proto : RtmpProto) (slot : Fin 64) (pac : Packet) (timerRelative : Bool) : Bytes :=
  let packetMask := chosenMask (proto.channelsOut slot) pac.sized
  let opened := openedChannel (proto.channelsOut slot)
  basicHeader packetMask proto.channelId ++
    (fieldBytes packetMask (sentTime timerRelative opened pac.sized)
      (sentChannel packetMask opened pac.sized) ++
    chunkBytes proto (pac.data.length + 1) pac.data)

def packetSent (proto : RtmpProto) (slot : Fin 64) (pac : Packet) : RtmpProto :=
  { proto with
    channelsOut := Function.update proto.channelsOut slot
      (sentChannel (chosenMask (proto.channelsOut slot) pac.sized)
        (openedChannel (proto.channelsOut slot)) pac.sized) }

theorem writesHeader (proto : RtmpProto) (packetMask : Nat) (channelId : Int)
    (legal : 2 ≤ proto.channelId) :
    ∃ count write, (∀ pb, writeHeaderBytes proto pb packetMask channelId =
        write pb >>= fun pb => .ok (count, pb)) ∧
      Writes write (basicHeader packetMask proto.channelId) := by
  unfold writeHeaderBytes basicHeader
  split
  · exact ⟨2, _, fun pb => (bind_assoc _ _ _).symm, writesThen (writesByte _) (writesByte _)⟩
  · split
    · exact ⟨3, _, fun pb => (bind_assoc _ _ _).symm, writesThen (writesByte _) (writesShort _)⟩
    · refine ⟨1, _, fun pb => ?_, writesByte _⟩
      rw [if_neg (by omega)]

theorem writesFields (packetMask : Nat) (dtime : Int) (pchannel : Channel) :
    Writes (fun pb => writeFields pb packetMask dtime pchannel)
      (fieldBytes packetMask dtime pchannel) := by
  unfold writeFields fieldBytes
  split
  · exact writesMediumInt _
  · split
    · rw [List.append_assoc]
      exact writesThen (writesMediumInt _) (writesThen (writesMediumInt _) (writesByte _))
    · split
      · rw [List.append_assoc, List.append_assoc]
        exact writesThen (writesMediumInt _) (writesThen (writesMediumInt _)
          (writesThen (writesByte _) (writesReverseInt _)))
      · exact writesNothing

theorem writesChunks (proto : RtmpProto) (channelId : Int) (legal : 2 ≤ proto.channelId)
    (positive : 1 ≤ proto.writeChunkSize) (fuel : Nat) (p : Bytes) (enough : p.length < fuel) :
    Writes (fun pb => writeChunks proto channelId fuel pb p) (chunkBytes proto fuel p) := by
  induction fuel generalizing p with
  | zero => omega
  | succ fuel ih =>
    unfold writeChunks chunkBytes
    split
    · have shorter : (p.drop proto.writeChunkSize).length < fuel := by
        rw [List.length_drop]; omega
      obtain ⟨count, write, same, header⟩ := writesHeader proto channelContinue channelId legal
      simp only [same, bind_assoc, Fallible.okBind]
      exact writesThen (writesBytes _) (writesThen header (ih _ shorter))
    · split
      · exact writesBytes p
      · have empty : p = [] := List.eq_nil_of_length_eq_zero (by omega)
        subst empty
        exact writesNothing

theorem writesPacket (proto : RtmpProto) (pac : Packet) (timerRelative : Bool) (slot : Fin 64)
    (named : pac.channelId = slot.val) (legal : 2 ≤ proto.channelId)
    (positive : 1 ≤ proto.writeChunkSize) :
    ∃ write, (∀ pb, rtmpPacketWritePacket proto pb pac timerRelative =
        write pb >>= fun pb => .ok (rtmpWbTell pb, packetSent proto slot pac, pb)) ∧
      Writes write (packetBytes proto slot pac timerRelative) := by
  obtain ⟨count, write, same, header⟩ := writesHeader proto
    (chosenMask (proto.channelsOut slot) pac.sized) pac.channelId legal
  have fields := writesFields (chosenMask (proto.channelsOut slot) pac.sized)
    (sentTime timerRelative (openedChannel (proto.channelsOut slot)) pac.sized)
    (sentChannel (chosenMask (proto.channelsOut slot) pac.sized)
      (openedChannel (proto.channelsOut slot)) pac.sized)
  have chunks := writesChunks proto pac.channelId legal positive (pac.data.length + 1) pac.data
    (Nat.lt_succ_self _)
  refine ⟨_, fun pb => ?_, writesThen header (writesThen fields chunks)⟩
  simp only [rtmpPacketWritePacket, tableEntryOk.mpr named, same, bind_assoc, Fallible.okBind,
    packetSent]

theorem writePacketSent {proto proto' : RtmpProto} {pb pb' : WriteBuffer UInt8} {pac : Packet}
    {timerRelative : Bool} {slot : Fin 64} {told : Int} (named : pac.channelId = slot.val)
    (ok : rtmpPacketWritePacket proto pb pac timerRelative = .ok (told, proto', pb')) :
    proto' = packetSent proto slot pac := by
  simp only [rtmpPacketWritePacket, tableEntryOk.mpr named, Fallible.okBind, Fallible.bindOk] at ok
  obtain ⟨_, _, _, _, _, _, last⟩ := ok
  cases Except.ok.inj last
  rfl

theorem writeHeaderIllegal (proto : RtmpProto) (pb : WriteBuffer UInt8) (packetMask : Nat)
    (channelId : Int) (illegal : proto.channelId < 2) :
    writeHeaderBytes proto pb packetMask channelId = .error (.assertion .writeHeaderBytes) := by
  rw [writeHeaderBytes, if_neg (by omega), if_neg (by omega), if_pos illegal]

theorem writePacketIllegal (proto : RtmpProto) (pb : WriteBuffer UInt8) (pac : Packet)
    (timerRelative : Bool) (slot : Fin 64) (named : pac.channelId = slot.val)
    (illegal : proto.channelId < 2) :
    rtmpPacketWritePacket proto pb pac timerRelative = .error (.assertion .writeHeaderBytes) := by
  simp only [rtmpPacketWritePacket, tableEntryOk.mpr named, Fallible.okBind,
    writeHeaderIllegal proto _ _ _ illegal, Fallible.errorBind]

theorem chunkBytesLayout (proto : RtmpProto) (short : proto.channelId < 64)
    (positive : 1 ≤ proto.writeChunkSize) (fuel : Nat) (p : Bytes) (enough : p.length < fuel) :
    ∃ n, Interleaving.Layout proto.writeChunkSize p
      (List.replicate n (UInt8.ofInt (channelContinue * 64 + proto.channelId)))
      (chunkBytes proto fuel p) := by
  induction fuel generalizing p with
  | zero => omega
  | succ fuel ih =>
    unfold chunkBytes
    split
    · rename_i more
      have shorter : (p.drop proto.writeChunkSize).length < fuel := by
        rw [List.length_drop]; omega
      obtain ⟨n, rest⟩ := ih _ shorter
      have nonempty : p.drop proto.writeChunkSize ≠ [] := by
        intro empty
        have := congrArg List.length empty
        rw [List.length_drop, List.length_nil] at this
        omega
      have full : (p.take proto.writeChunkSize).length = proto.writeChunkSize := by
        rw [List.length_take]; omega
      have header : basicHeader channelContinue proto.channelId =
          [UInt8.ofInt (channelContinue * 64 + proto.channelId)] := by
        rw [basicHeader, if_neg (by omega), if_neg (by omega)]
      have whole := Interleaving.Layout.more
        (UInt8.ofInt (channelContinue * 64 + proto.channelId)) full nonempty rest
      rw [List.take_append_drop] at whole
      exact ⟨n+1, by rw [header, List.singleton_append]; exact whole⟩
    · exact ⟨0, .last p (by omega)⟩

end Rushkit
