import Rushkit.AmfUnpack
import Rushkit.Feed
import Rushkit.Library.Binary64

/-! The default packet callbacks (`protocol.c`) and the replies they send. The clock
is read where a timer is computed; `now` is what it shows. -/
namespace Rushkit
open Amf

def cString (s : String) : Bytes := s.toList.map fun c => UInt8.ofNat c.toNat

def int64 (x : Int) : Int := x.bmod (2 ^ 64)

theorem int64Same {x : Int} (low : -9223372036854775808 ≤ x) (high : x < 9223372036854775808) :
    int64 x = x := Int.bmod_eq_of_le_mul_two (by omega) (by omega)

def Amf.AV.stringT : AV → Bytes
  | .string content => content
  | _ => []

def Amf.AV.numberT : AV → BitVec 64
  | .number bits => bits
  | _ => 0

def amfStringEqual (strV : AV) (other : Bytes) : Res Bool := do
  check .amfStringEqual (strV.type = amfString)
  .ok (decide (strV.stringT = other))

-- The channel record of every packet the library builds; its size is set by the writer.
def ownChannel (timer dataType : Int) : Channel := { initChannel with timer, dataType }

-- `amf_new_string` and `_amf_new_table` copy what they are given into a block of the pool.
def newBlock (asked : List Nat) (size : Nat) : Res (List Nat) := do
  store (rtPool asked size) size
  .ok (size :: asked)

def newBlocks (asked : List Nat) (sizes : List Nat) : Res (List Nat) := sizes.foldlM newBlock asked

def returnArguments (requestId : Int) (retVal : AV) : List AV :=
  [.string (cString "_result"), .number (Binary64.ofInt requestId), .nil, retVal]

-- `asked` are the earlier requests made of the pool.
def rtmpProtoPacketReturn (table : MethodTable) (asked : List Nat) (proto : RtmpProto)
    (channelId requestId : Int) (retVal : AV) (now : Int) : Res RtmpProto := do
  let asked ← newBlock asked (cString "_result").length
  let (timer, proto) ← rtmpPacketGetLastTimer proto channelId now
  let data ← amfPackArguments (rtPool asked) (returnArguments requestId retVal)
  let resultPac : Packet := ⟨channelId, ownChannel timer pacInvoke, data⟩
  if 0 < data.length then rtmpProtoSendPacket table proto resultPac false else .ok proto

def connectReply : AV :=
  .hash [⟨cString "level", .string (cString "status")⟩,
    ⟨cString "code", .string (cString "NetConnection.Connect.Success")⟩,
    ⟨cString "description", .string (cString "Connection Succeeded.")⟩]

def connectBlocks : List Nat :=
  [(cString "status").length, (cString "NetConnection.Connect.Success").length,
    (cString "Connection Succeeded.").length, 3 * tableElemSize]

section InOrder
variable {asked : List Nat} (inOrder : rtPoolLeft asked = none)
include inOrder

theorem poolInOrder : rtPool asked = rtPoolAlloc := by
  funext size
  rw [rtPool, inOrder]

theorem newBlockInOrder {size : Nat} (small : size < 2147481600) :
    newBlock asked size = .ok (size :: asked) ∧ rtPoolLeft (size :: asked) = none := by
  refine ⟨?_, ?_⟩
  · rw [newBlock, poolInOrder inOrder, storeRoom (rtPoolAllocServes.mpr small)]
    rfl
  · rw [rtPoolLeft, inOrder]
    exact trunkLeftSmall small

theorem newBlocksInOrder {sizes : List Nat} (small : ∀ size ∈ sizes, size < 2147481600) :
    ∃ asked', newBlocks asked sizes = .ok asked' ∧ rtPoolLeft asked' = none := by
  induction sizes generalizing asked with
  | nil => exact ⟨asked, rfl, inOrder⟩
  | cons size sizes ih =>
    obtain ⟨first, others⟩ := List.forall_mem_cons.mp small
    obtain ⟨made, still⟩ := newBlockInOrder inOrder first
    obtain ⟨asked', rest, last⟩ := ih still others
    refine ⟨asked', ?_, last⟩
    rw [newBlocks, List.foldlM_cons, made]
    exact rest

end InOrder

def raiseRequestId (proto : RtmpProto) (requestId : Int) : RtmpProto :=
  if proto.nextRequestId < int64 (requestId + 1) then
    { proto with nextRequestId := int64 (requestId + 1) }
  else proto

-- A missing `on_amf_call` is only logged.
def callBack (table : MethodTable) (proto : RtmpProto) (channelId requestId : Int)
    (methodName : AV) (args : List AV) : Res RtmpProto :=
  match table.onAmfCall with
  | some onAmfCall => onAmfCall proto channelId requestId methodName (int32 args.length) args
  | none => .ok proto

def defaultOnPacketInvoke (table : MethodTable) (now : Int) : PacketCallback := fun proto pac => do
  let pap := amfApAlloc rtPool pac.data pac.data.length
  let (methodNameV, pap) ← amfApReadNext pap
  check .defaultOnPacketInvoke (methodNameV.type = amfString)
  let (requestIdV, pap) ← amfApReadNext pap
  check .defaultOnPacketInvoke (requestIdV.type = amfNumber)
  let requestId := Binary64.toInt64 requestIdV.numberT
  let result ← amfStringEqual methodNameV (cString "_result")
  let proto := if result then proto else raiseRequestId proto requestId
  let (_, pap) ← amfApReadNext pap
  let (args, pap) ← amfApReadArguments pap
  let connect ← amfStringEqual methodNameV (cString "connect")
  if connect then do
    let asked ← newBlocks pap.asked connectBlocks
    rtmpProtoPacketReturn table asked proto pac.channelId requestId connectReply now
  else callBack table proto pac.channelId requestId methodNameV args

-- Of a short payload the bytes behind it are read, too. Only the block of `last_data` is exchanged.
def defaultOnPacketChunkSize (table : MethodTable) : PacketCallback := fun proto pac => do
  let chunkSize ← unpackInt (pac.data ++ table.behind pac)
  if proto.lastData.length ≤ sizeT chunkSize then .ok { proto with lastDataRoom := sizeT chunkSize }
  else .ok proto

-- The fourth byte is the first of a `PACKET` for channel 2.
example : (defaultOnPacketChunkSize bareTable rtmpProtoInit ⟨2, ⟨true, 0, 3, 1, 0⟩, [0, 0, 0]⟩).map
    RtmpProto.lastDataRoom = .ok 2 := by decide

def defaultOnPacketBytesRead : PacketCallback := fun proto pac => do
  check .defaultOnPacketBytesRead (pac.data.length = 4)
  let _ ← unpackInt pac.data
  .ok proto

def defaultOnPacketPing (table : MethodTable) (now : Int) : PacketCallback := fun proto pac => do
  let (timer, proto) ← rtmpPacketGetLastTimer proto pac.channelId now
  rtmpProtoSendPacket table proto ⟨pac.channelId, ownChannel timer pacPing, pac.data⟩ false

def handOn (callback : Option PacketCallback) : PacketCallback := fun proto pac =>
  match callback with
  | some callback => callback proto pac
  | none => .ok proto

def defaultOnPacket (table : MethodTable) : PacketCallback := fun proto pac =>
  if pac.channel.dataType = pacChunkSize then handOn table.onPacketChunkSize proto pac
  else if pac.channel.dataType = pacInvalid then handOn table.onPacketInvalid proto pac
  else if pac.channel.dataType = pacBytesRead then handOn table.onPacketBytesRead proto pac
  else if pac.channel.dataType = pacPing then handOn table.onPacketPing proto pac
  else if pac.channel.dataType = pacInvoke then handOn table.onPacketInvoke proto pac
  else if pac.channel.dataType = pacAudio then handOn table.onPacketAudio proto pac
  else if pac.channel.dataType = pacVideo then handOn table.onPacketVideo proto pac
  else .ok proto

end Rushkit
