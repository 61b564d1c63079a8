import Rushkit.Message
import Rushkit.HeaderCompression

/-! What the writer emits, read as a message of the grammar. The reader finds the
sent record again, except that the stream id changes its byte order on the way. -/
namespace Rushkit
open Interleaving

structure Sendable (pac : Packet) : Prop where
  timerLow : 0 ≤ pac.channel.timer
  timerHigh : pac.channel.timer ≤ 0xfffffe
  typeLow : 1 ≤ pac.channel.dataType
  typeHigh : pac.channel.dataType ≤ 255
  short : pac.data.length ≤ 32767

-- With a timer up to the largest that the field holds, which the reader takes for an escape.
structure Framed (pac : Packet) : Prop where
  timerLow : 0 ≤ pac.channel.timer
  timerHigh : pac.channel.timer ≤ 0xffffff
  typeLow : 1 ≤ pac.channel.dataType
  typeHigh : pac.channel.dataType ≤ 255
  short : pac.data.length ≤ 32767

theorem Sendable.framed {pac : Packet} (sendable : Sendable pac) : Framed pac where
  timerLow := sendable.timerLow
  timerHigh := sendable.timerHigh.trans (by decide)
  typeLow := sendable.typeLow
  typeHigh := sendable.typeHigh
  short := sendable.short

-- A stream id as the reader understands the four bytes of the writer.
def wireStream (streamId : Int) : Int :=
  wireInt (loadDataReverse (hostBytes 4 (BitVec.ofInt 32 streamId)))

def onWire (channel : Channel) : Channel := { channel with streamId := wireStream channel.streamId }

-- The record with the low 24 bits of `dtime` for its timer.
def onWireAt (dtime : Int) (channel : Channel) : Channel :=
  { onWire channel with timer := dtime % 16777216 }

theorem byteOfInt {n : Int} (low : 0 ≤ n) (high : n ≤ 255) : ((UInt8.ofInt n).toNat : Int) = n := by
  rw [byteValue]
  exact Int.emod_eq_of_lt low (by omega)

theorem fieldBytesSent {packetMask : Nat} (mask : packetMask ≤ 3) (dtime : Int)
    (pchannel channel : Channel) :
    fieldBytes packetMask dtime (sentChannel packetMask pchannel channel) =
      fieldBytes packetMask dtime channel := by
  match packetMask, mask with
  | 0, _ => rfl
  | 1, _ => rfl
  | 2, _ => rfl
  | 3, _ => rfl

theorem fieldBytesNew (dtime : Int) (channel : Channel) :
    fieldBytes channelNew dtime channel = mediumBytes dtime ++ (mediumBytes channel.size ++
      (UInt8.ofInt channel.dataType :: loadDataReverse (hostBytes 4 (BitVec.ofInt 32 channel.streamId)))) := by
  show mediumBytes dtime ++ mediumBytes channel.size ++ [UInt8.ofInt channel.dataType] ++ _ = _
  rw [List.append_assoc, List.append_assoc, List.singleton_append]

theorem fieldBytesSource (dtime : Int) (channel : Channel) :
    fieldBytes channelSameSource dtime channel = mediumBytes dtime ++ (mediumBytes channel.size ++
      [UInt8.ofInt channel.dataType]) := by
  show mediumBytes dtime ++ mediumBytes channel.size ++ [UInt8.ofInt channel.dataType] = _
  rw [List.append_assoc]

theorem receivedNew (pchannel : Channel) (dtime size : Int) (dataType : UInt8) (stream : Bytes) :
    receivedChannel channelNew pchannel
        (mediumBytes dtime ++ (mediumBytes size ++ (dataType :: stream))) =
      { pchannel with
        timer := mediumInt (mediumBytes dtime ++ (mediumBytes size ++ (dataType :: stream)))
        size := mediumInt (mediumBytes size ++ (dataType :: stream))
        dataType := dataType.toNat
        streamId := wireInt stream } := rfl

theorem receivedSource (pchannel : Channel) (dtime size : Int) (dataType : UInt8) :
    receivedChannel channelSameSource pchannel (mediumBytes dtime ++ (mediumBytes size ++ [dataType])) =
      { pchannel with
        timer := mediumInt (mediumBytes dtime ++ (mediumBytes size ++ [dataType]))
        size := mediumInt (mediumBytes size ++ [dataType])
        dataType := dataType.toNat } := rfl

theorem receivedTimed {packetMask : Nat} (mask : packetMask ≤ 3) {pac : Packet} (framed : Framed pac)
    (dtime : Int) (pchannel : Channel) :
    receivedChannel packetMask pchannel (fieldBytes packetMask dtime pac.sized) =
      sentChannel packetMask pchannel (onWireAt dtime pac.sized) := by
  obtain ⟨_, _, typeLow, typeHigh, short⟩ := framed
  have timer := mediumWire dtime
  have size := mediumRead (e := pac.data.length) (by omega) (by omega)
  have dataType := byteOfInt (by omega) typeHigh
  have alone := timer []
  rw [List.append_nil] at alone
  match packetMask, mask with
  | 0, _ =>
    refine (congrArg (receivedChannel 0 pchannel) (fieldBytesNew _ pac.sized)).trans ?_
    refine (receivedNew pchannel _ _ _ _).trans ?_
    rw [timer, Packet.sized, size, dataType]
    rfl
  | 1, _ =>
    refine (congrArg (receivedChannel 1 pchannel) (fieldBytesSource _ pac.sized)).trans ?_
    refine (receivedSource pchannel _ _ _).trans ?_
    rw [timer, Packet.sized, size, dataType]
    rfl
  | 2, _ =>
    show { pchannel with timer := mediumInt (mediumBytes dtime) } = _
    rw [alone]
    rfl
  | 3, _ => rfl

-- The id the parser finds in the header for `channelId`: a long form is a signed short.
def parsedId (channelId : Int) : Int := if 32832 ≤ channelId then channelId - 65536 else channelId

theorem shortOnWire {n : Int} (low : 0 ≤ n) (high : n < 65536) :
    wireShort (loadData (hostBytes 2 (BitVec.ofInt 16 n))) = if 32768 ≤ n then n - 65536 else n := by
  rw [wireShort, loadedBack 2 (by decide), BitVec.toInt_ofInt, Int.bmod_def]
  split <;> split <;> omega

theorem firstByte {packetMask : Nat} (mask : packetMask ≤ 3) (form : Nat) (small : form < 64) :
    (UInt8.ofInt (packetMask * 64 + form)).toNat / 64 = packetMask ∧
      (UInt8.ofInt (packetMask * 64 + form)).toNat % 64 = form := by
  have byte := byteOfInt (n := packetMask * 64 + form) (by omega) (by omega)
  omega

theorem basicHeaderNamed {packetMask : Nat} (mask : packetMask ≤ 3) {channelId : Int}
    (low : 2 ≤ channelId) (high : channelId ≤ 65599) :
    BasicHeader packetMask (parsedId channelId) (basicHeader packetMask channelId) := by
  unfold basicHeader
  split
  · rename_i middle
    obtain ⟨type, form⟩ := firstByte mask 0 (by decide)
    have header := BasicHeader.middle (UInt8.ofInt (packetMask * 64 + (0 : Nat)))
      (UInt8.ofInt (channelId - 64)) form
    have byte := byteOfInt (n := channelId - 64) (by omega) (by omega)
    have same : 64 + (channelId - 64) = parsedId channelId := by
      rw [parsedId, if_neg (by omega)]
      omega
    rw [type, byte, same, Nat.cast_zero, Int.add_zero] at header
    exact header
  · split
    · rename_i long
      obtain ⟨type, form⟩ := firstByte mask 1 (by decide)
      have wire := shortOnWire (n := channelId - 64) (by omega) (by omega)
      have same : 64 + wireShort (loadData (hostBytes 2 (BitVec.ofInt 16 (channelId - 64)))) =
          parsedId channelId := by
        rw [wire, parsedId]
        split <;> split <;> omega
      generalize bytes : loadData (hostBytes 2 (BitVec.ofInt 16 (channelId - 64))) = short at same
      have width : short.length = 2 := by rw [← bytes, loadDataLength, hostBytesLength]
      match short, width with
      | [a, b], _ =>
        have header := BasicHeader.long (UInt8.ofInt (packetMask * 64 + (1 : Nat))) a b form
        rw [type, same, Nat.cast_one] at header
        exact header
    · obtain ⟨type, form⟩ := firstByte mask channelId.toNat (by omega)
      have header := BasicHeader.short (UInt8.ofInt (packetMask * 64 + channelId.toNat)) (by omega)
      have same : (channelId.toNat : Int) = channelId := Int.toNat_of_nonneg (by omega)
      have whole : parsedId channelId = channelId := if_neg (by omega)
      rw [type, form, same] at header
      rw [whole]
      exact header

theorem basicHeaderShort {packetMask : Nat} (mask : packetMask ≤ 3) {slot : Fin 64}
    (form : 2 ≤ slot.val) :
    BasicHeader packetMask slot.val (basicHeader packetMask slot.val) := by
  have small := slot.isLt
  have low : (2 : Int) ≤ slot.val := by omega
  have header := basicHeaderNamed mask low (by omega)
  rw [parsedId, if_neg (by omega)] at header
  exact header

theorem packetBytesHead (proto : RtmpProto) {table : ChannelTable} {slot : Fin 64} {pac : Packet}
    (current : proto.channelId = slot.val) (form : 2 ≤ slot.val)
    (positive : 1 ≤ proto.writeChunkSize) (framed : Framed pac) (used : (table slot).used = true)
    (timerRelative : Bool) :
    ∃ head body n, packetBytes proto slot pac timerRelative = head ++ body ∧
      Head table slot (sentChannel (chosenMask (proto.channelsOut slot) pac.sized) (table slot)
        (onWireAt (sentTime timerRelative (openedChannel (proto.channelsOut slot)) pac.sized) pac.sized))
        head ∧
      Layout proto.writeChunkSize pac.data
        (List.replicate n (UInt8.ofInt (channelContinue * 64 + proto.channelId))) body := by
  have mask := chosenMaskBound (proto.channelsOut slot) pac.sized
  have small := slot.isLt
  have head := Head.mk (basicHeaderShort mask form) used (fieldBytesLength _
    (sentTime timerRelative (openedChannel (proto.channelsOut slot)) pac.sized) pac.sized)
  rw [receivedTimed mask framed] at head
  obtain ⟨n, layout⟩ := chunkBytesLayout proto (by omega) positive (pac.data.length + 1) pac.data
    (Nat.lt_succ_self _)
  refine ⟨_, _, n, ?_, head, layout⟩
  unfold packetBytes
  dsimp only
  rw [fieldBytesSent mask, current, List.append_assoc]

theorem packetBytesMessage (proto : RtmpProto) {table : ChannelTable} {slot : Fin 64} {pac : Packet}
    (current : proto.channelId = slot.val) (form : 2 ≤ slot.val)
    (positive : 1 ≤ proto.writeChunkSize) (sendable : Sendable pac)
    (used : (table slot).used = true) {channel : Channel}
    (arrived : sentChannel (chosenMask (proto.channelsOut slot) pac.sized) (table slot)
      (onWire pac.sized) = channel)
    (size : channel.size = pac.data.length) (dataType : channel.dataType = pac.channel.dataType)
    (timer : channel.timer = pac.channel.timer) :
    Message proto.writeChunkSize table slot channel pac.data (packetBytes proto slot pac false) := by
  obtain ⟨head, body, n, bytes, header, layout⟩ :=
    packetBytesHead proto current form positive sendable.framed used false
  obtain ⟨timerLow, timerHigh, typeLow, _, short⟩ := sendable
  have same : onWireAt pac.channel.timer pac.sized = onWire pac.sized := by
    rw [onWireAt, Int.emod_eq_of_lt timerLow (by omega)]
    rfl
  have sent : sentTime false (openedChannel (proto.channelsOut slot)) pac.sized = pac.channel.timer := rfl
  rw [sent, same, arrived] at header
  have plain : addcodeWidth channel = 0 := by rw [addcodeWidth, if_neg (by omega)]
  have none : ([] : Bytes).length = addcodeWidth channel := plain.symm
  have opened := Opened.mk header (by unfold maxPacketSize; omega) none
  have message := Message.mk opened (.chunked (by omega) (by omega) layout)
  rw [List.append_nil, ← bytes] at message
  exact message

theorem packetBytesLength {proto : RtmpProto} {slot : Fin 64} (pac : Packet)
    (current : proto.channelId = slot.val) (positive : 1 ≤ proto.writeChunkSize)
    (timerRelative : Bool) :
    (packetBytes proto slot pac timerRelative).length =
      1 + fieldWidth (chosenMask (proto.channelsOut slot) pac.sized) +
        wireLength proto.writeChunkSize pac.data.length := by
  have small := slot.isLt
  obtain ⟨n, layout⟩ := chunkBytesLayout proto (by omega) positive (pac.data.length + 1) pac.data
    (Nat.lt_succ_self _)
  have header : ∀ m, (basicHeader m proto.channelId).length = 1 := by
    intro m
    rw [basicHeader, if_neg (by omega), if_neg (by omega)]
    rfl
  unfold packetBytes
  dsimp only
  rw [List.length_append, List.length_append, header, fieldBytesLength, layoutWire positive layout,
    Nat.add_assoc]

theorem fieldWidthBound (packetMask : Nat) : fieldWidth packetMask ≤ 11 := by
  unfold fieldWidth
  split
  · decide
  · split
    · decide
    · split <;> decide

theorem wireLengthBound (c n : Nat) : wireLength c n ≤ 2 * n := by
  have := Nat.div_le_self (n - 1) c
  unfold wireLength sepCount
  omega

theorem writePacketFresh (proto : RtmpProto) {slot : Fin 64} {pac : Packet}
    (named : pac.channelId = slot.val) (current : proto.channelId = slot.val) (form : 2 ≤ slot.val)
    (positive : 1 ≤ proto.writeChunkSize) (short : pac.data.length ≤ 32767) (timerRelative : Bool) :
    ∃ told pb, rtmpPacketWritePacket proto (rtmpWbInit 1024) pac timerRelative =
        .ok (told, packetSent proto slot pac, pb) ∧
      rtmpWbGetValue pb = packetBytes proto slot pac timerRelative := by
  obtain ⟨write, same, writes⟩ := writesPacket proto pac timerRelative slot named (by omega) positive
  have total := packetBytesLength pac current positive timerRelative
  have fields := fieldWidthBound (chosenMask (proto.channelsOut slot) pac.sized)
  have body := wireLengthBound proto.writeChunkSize pac.data.length
  obtain ⟨pb, ok, held⟩ := writes.room (rtmpWbInit 1024) [] (holdsInit (by decide)) (by
    rw [List.length_nil, total]
    omega)
  refine ⟨rtmpWbTell pb, pb, ?_, held.content⟩
  rw [same, ok, Fallible.okBind]

end Rushkit
