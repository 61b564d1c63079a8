import Mathlib.Logic.Function.Basic
import Rushkit.Buffer

/-! The connection record of `rushkit.h` with its initialisers, and the lookups in
its channel tables. Both halves of a connection live in the one record. -/
namespace Rushkit

structure Channel where
  used : Bool
  timer : Int
  size : Int
  dataType : Int
  streamId : Int
  deriving DecidableEq, Repr

def zeroChannel : Channel := ⟨false, 0, 0, 0, 0⟩

def initChannel : Channel := { zeroChannel with used := true }

-- `dataLen` is the length of `data`.
structure Packet where
  channelId : Int
  channel : Channel
  data : Bytes
  deriving DecidableEq, Repr

def channelNew : Nat := 0
def channelSameSource : Nat := 1
def channelTimerChange : Nat := 2
def channelContinue : Nat := 3

def pacChunkSize : Int := 0x01
def pacBytesRead : Int := 0x03
def pacPing : Int := 0x04
def pacAudio : Int := 0x08
def pacVideo : Int := 0x09
def pacInvoke : Int := 0x14
def pacInvalid : Int := 0x89

abbrev ChannelTable := Fin 64 → Channel

/- `lastData` are the `last_data_length` bytes saved in a block of `lastDataRoom`
bytes. `written` collects what `on_write_data` has been given, oldest first. -/
structure RtmpProto where
  tmpBuf : FixBuffer
  ackBackLen : Int
  pkgSt : Nat
  lastData : Bytes
  lastDataRoom : Nat
  readBuffer : Bytes
  readChunkSize : Nat
  writeChunkSize : Nat
  state : Nat
  packetMask : Nat
  channelId : Int
  channelsIn : ChannelTable
  channelsOut : ChannelTable
  dataBuffer : FixBuffer
  lastTimers : Fin 64 → Int
  numUpBytes : Int
  numDownBytes : Int
  nextRequestId : Int
  written : List Bytes

def rtmpPacketReset (proto : RtmpProto) : RtmpProto :=
  { proto with state := 0, packetMask := 0, channelId := 0, dataBuffer := rtmpFwbInit }

def rtmpPacketClearInChannel (proto : RtmpProto) (channelId : Fin 64) : RtmpProto :=
  { proto with channelsIn := Function.update proto.channelsIn channelId initChannel }

def rtmpPacketClearOutChannel (proto : RtmpProto) (channelId : Fin 64) : RtmpProto :=
  { proto with channelsOut := Function.update proto.channelsOut channelId initChannel }

def rtmpPacketInit (proto : RtmpProto) : RtmpProto :=
  [0, 1, 2, 3].foldl rtmpPacketClearInChannel
    { proto with
      readChunkSize := 128
      writeChunkSize := 128
      state := 0
      packetMask := 0
      channelId := 0
      dataBuffer := rtmpFwbInit }

def bufferSz : Nat := 8192

-- What `malloc` leaves in the read buffer is taken to be zeros.
def rtmpProtoInit : RtmpProto :=
  [0, 1, 2, 3].foldl rtmpPacketClearOutChannel <| rtmpPacketInit
    { tmpBuf := rtmpFwbInit
      ackBackLen := 1536
      pkgSt := 0
      lastData := []
      lastDataRoom := 128
      readBuffer := List.replicate bufferSz 0
      readChunkSize := 128
      writeChunkSize := 128
      state := 0
      packetMask := 0
      channelId := 0
      channelsIn := fun _ => zeroChannel
      channelsOut := fun _ => zeroChannel
      dataBuffer := rtmpFwbInit
      lastTimers := fun _ => 0
      numUpBytes := 0
      numDownBytes := 0
      nextRequestId := 1
      written := [] }

-- The entry of a 64-entry table that an `int` index selects.
def tableEntry (index : Int) : Res (Fin 64) :=
  if inside : 0 ≤ index ∧ index < 64 then .ok ⟨index.toNat, by omega⟩ else .error .overRead

def rtmpProtoGetChannel (proto : RtmpProto) : Res (Fin 64) := do
  check .rtmpProtoGetChannel (proto.channelId < 64)
  let pchannel ← tableEntry proto.channelId
  check .rtmpProtoGetChannel ((proto.channelsIn pchannel).used = true)
  .ok pchannel

-- `now` is what the clock shows at the call.
def rtmpPacketGetLastTimer (proto : RtmpProto) (fn now : Int) : Res (Int × RtmpProto) := do
  check .rtmpPacketGetLastTimer (fn < 64)
  let entry ← tableEntry fn
  .ok (int32 (now - proto.lastTimers entry),
    { proto with lastTimers := Function.update proto.lastTimers entry now })

theorem tableEntryOk {index : Int} {entry : Fin 64} :
    tableEntry index = .ok entry ↔ index = entry.val := by
  unfold tableEntry
  constructor
  · intro h
    split at h
    · cases Except.ok.inj h
      show index = (index.toNat : Int)
      omega
    · contradiction
  · rintro rfl
    have := entry.isLt
    rw [dif_pos (by omega)]
    rfl

theorem tableEntryOutside {index : Int} (outside : ¬ (0 ≤ index ∧ index < 64)) :
    tableEntry index = .error .overRead := dif_neg outside

theorem getChannelOk {proto : RtmpProto} {slot : Fin 64} (id : proto.channelId = slot.val)
    (used : (proto.channelsIn slot).used = true) : rtmpProtoGetChannel proto = .ok slot := by
  have := slot.isLt
  rw [rtmpProtoGetChannel, checkTrue (by omega), Fallible.okBind, tableEntryOk.mpr id,
    Fallible.okBind, checkTrue used, Fallible.okBind]

theorem channelsInInit : rtmpProtoInit.channelsIn =
    fun slot => if slot.val < 4 then initChannel else zeroChannel := by
  funext slot
  revert slot
  decide

theorem channelsOutInit : rtmpProtoInit.channelsOut = rtmpProtoInit.channelsIn := by
  funext slot
  revert slot
  decide

end Rushkit
