import Rushkit.Service

/-! The Python bindings (`py_amf.c`, `pyrushkit.c`): Python objects as AMF values, and what
arrives of them at another Python program. -/
namespace Rushkit
open Amf Dialogue Interleaving ReadBuffer

inductive PyObj where
  | none
  | int (value : Int)
  | float (bits : BitVec 64)
  | bool (value : Bool)
  | str (content : Bytes)
  | list (elems : List PyObj)
  | dict (items : List (PyObj × PyObj))

/- `fresh` is what allocated memory holds before anything is stored there, at each place
inside the object. An object of another type, or a key that is no string, leaves it there. -/
mutual
def py2Av (fresh : List Nat → AkTableElem AV) (place : List Nat) (dest : AV) : PyObj → AV
  | .dict items => .hash (pydict2Hash fresh place 0 items)
  | .list elems => .array (pylist2Array fresh place 0 elems)
  | .str content => .string content
  | .bool value => .boolean (if value then 1 else 0)
  | .float bits => .number bits
  | _ => dest
def pydict2Hash (fresh : List Nat → AkTableElem AV) (place : List Nat) (i : Nat) :
    List (PyObj × PyObj) → List (AkTableElem AV)
  | [] => []
  | (.str key, value) :: rest =>
    ⟨key, py2Av fresh (i :: place) (fresh (i :: place)).value value⟩ :: pydict2Hash fresh place (i + 1) rest
  | _ :: rest => fresh (i :: place) :: pydict2Hash fresh place (i + 1) rest
def pylist2Array (fresh : List Nat → AkTableElem AV) (place : List Nat) (i : Nat) : List PyObj → List AV
  | [] => []
  | elem :: rest =>
    py2Av fresh (i :: place) (fresh (i :: place)).value elem :: pylist2Array fresh place (i + 1) rest
end

-- The dictionary is filled and then dropped.
def avTable2Py (_ : List (AkTableElem AV)) : PyObj := .none

mutual
def av2Py : AV → PyObj
  | .number bits => .float bits
  | .boolean value => .int value.toNat
  | .string content => .str content
  | .assocArray elements => avTable2Py elements
  | .hash elements => avTable2Py elements
  | .array elements => .list (avList2Py elements)
  | .link value => .int value.toInt
  | .plain _ => .none
def avList2Py : List AV → List PyObj
  | [] => []
  | value :: rest => av2Py value :: avList2Py rest
end

-- Objects that every place of the value is made from, with 16-bit lengths.
mutual
def Carriable : PyObj → Prop
  | .dict items => ItemsCarriable items
  | .list elems => ObjectsCarriable elems
  | .str content => content.length ≤ 32767
  | .bool _ => True
  | .float _ => True
  | _ => False
def ItemsCarriable : List (PyObj × PyObj) → Prop
  | [] => True
  | (.str key, value) :: rest => key.length ≤ 32767 ∧ Carriable value ∧ ItemsCarriable rest
  | _ :: _ => False
def ObjectsCarriable : List PyObj → Prop
  | [] => True
  | elem :: rest => Carriable elem ∧ ObjectsCarriable rest
end

-- A truth value arrives as a number, and a dictionary does not arrive.
mutual
def crossed : PyObj → PyObj
  | .bool value => .int (if value then 1 else 0)
  | .dict _ => .none
  | .list elems => .list (crossedAll elems)
  | obj => obj
def crossedAll : List PyObj → List PyObj
  | [] => []
  | elem :: rest => crossed elem :: crossedAll rest
end

section Values
variable (fresh : List Nat → AkTableElem AV)

theorem py2AvTyped (place : List Nat) (dest : AV) {obj : PyObj} (carriable : Carriable obj) :
    (py2Av fresh place dest obj).type ≠ amfEnd := by
  cases obj with
  | none | int value => exact carriable.elim
  | float bits | bool value | str content | list elems | dict items =>
    simp only [py2Av, AV.type]
    decide

mutual
theorem py2AvEncodable : (obj : PyObj) → Carriable obj → (place : List Nat) → (dest : AV) →
    Amf.Encodable (py2Av fresh place dest obj)
  | .dict items, carriable, place, _ => by
    simp only [py2Av, Amf.Encodable]
    exact pydict2HashEncodable items carriable place 0
  | .list elems, carriable, place, _ => by
    simp only [py2Av, Amf.Encodable]
    exact pylist2ArrayEncodable elems carriable place 0
  | .str _, carriable, _, _ => carriable
  | .bool _, _, _, _ | .float _, _, _, _ => trivial
theorem pydict2HashEncodable : (items : List (PyObj × PyObj)) → ItemsCarriable items → (place : List Nat) →
    (i : Nat) → ElemsEncodable (pydict2Hash fresh place i items)
  | [], _, _, _ => trivial
  | (.str key, value) :: rest, carriable, place, i => by
    rw [pydict2Hash]
    exact ⟨carriable.1, py2AvTyped fresh _ _ carriable.2.1, py2AvEncodable value carriable.2.1 _ _,
      pydict2HashEncodable rest carriable.2.2 place (i + 1)⟩
theorem pylist2ArrayEncodable : (elems : List PyObj) → ObjectsCarriable elems → (place : List Nat) →
    (i : Nat) → ValuesEncodable (pylist2Array fresh place i elems)
  | [], _, _, _ => trivial
  | elem :: rest, carriable, place, i => by
    rw [pylist2Array]
    exact ⟨py2AvEncodable elem carriable.1 _ _, pylist2ArrayEncodable rest carriable.2 place (i + 1)⟩
end

mutual
theorem py2AvCrossed : (obj : PyObj) → Carriable obj → (place : List Nat) → (dest : AV) →
    av2Py (py2Av fresh place dest obj) = crossed obj
  | .dict _, _, _, _ => rfl
  | .list elems, carriable, place, _ => by
    rw [py2Av, av2Py, crossed, pylist2ArrayCrossed elems carriable place 0]
  | .str _, _, _, _ | .float _, _, _, _ | .bool true, _, _, _ | .bool false, _, _, _ => rfl
theorem pylist2ArrayCrossed : (elems : List PyObj) → ObjectsCarriable elems → (place : List Nat) → (i : Nat) →
    avList2Py (pylist2Array fresh place i elems) = crossedAll elems
  | [], _, _, _ => rfl
  | elem :: rest, carriable, place, i => by
    rw [pylist2Array, avList2Py, crossedAll, py2AvCrossed elem carriable.1,
      pylist2ArrayCrossed rest carriable.2 place (i + 1)]
end

end Values

-- `handleInvoke` is the method of the responder.
def onPyAmfCall (handleInvoke : RtmpProto → Int → PyObj → PyObj → Res RtmpProto) :
    RtmpProto → Int → Int → AV → Int → List AV → Res RtmpProto :=
  fun proto _ reqid methodName argc args =>
    handleInvoke proto reqid (av2Py methodName) (.list (avList2Py (args.take argc.toNat)))

def pyTable (handleInvoke : RtmpProto → Int → PyObj → PyObj → Res RtmpProto) : MethodTable :=
  { bareTable with onAmfCall := some (onPyAmfCall handleInvoke) }

-- The pool is new; what `py_2_av` takes from it is small where the result fits into a packet.
def amfReturn (fresh : List Nat → AkTableElem AV) (table : MethodTable) (proto : RtmpProto) (reqid : Int)
    (retv : PyObj) (now : Int) : Res RtmpProto :=
  rtmpProtoPacketReturn table [] proto 3 reqid (py2Av fresh [] (fresh []).value retv) now

def myAmfCall (fresh : List Nat → AkTableElem AV) (table : MethodTable) (proto : RtmpProto) (methodName : Bytes)
    (args : List PyObj) (now : Int) : Res (Int × RtmpProto) :=
  rtmpProtoCall table proto methodName (pylist2Array fresh [] 0 args) now

theorem basicHeaderWidth {packetMask : Nat} {channelId : Int} {basic : Bytes}
    (named : BasicHeader packetMask channelId basic) : basic.length ≤ 3 := by
  cases named <;> simp

theorem openedWidth {table : ChannelTable} {slot : Fin 64} {channel : Channel} {head : Bytes}
    (opened : Opened table slot channel head) : head.length ≤ 18 := by
  cases opened with
  | mk header small width =>
    cases header with
    | @mk packetMask slot basic fields named used room =>
      have first := basicHeaderWidth named
      have rest := fieldWidthBound packetMask
      unfold addcodeWidth at width
      simp only [List.length_append]
      split at width <;> omega

theorem messageWidth {chunk : Nat} (positive : 1 ≤ chunk) {table : ChannelTable} {slot : Fin 64} {channel : Channel}
    {data wire : Bytes} (message : Message chunk table slot channel data wire) :
    wire.length ≤ 18 + wireLength chunk data.length := by
  cases message with
  | mk opened payload =>
    have header := openedWidth opened
    rw [List.length_append]
    cases payload with
    | chunked typed size layout =>
      have body := layoutWire positive layout
      omega
    | untyped zero four room =>
      unfold wireLength
      omega

theorem blockDelivered (table : MethodTable) {proto b : RtmpProto} (between : Between proto)
    (same : SameReader proto b) {block : Bytes} {pac : Packet} {b' : RtmpProto} (reads : ReadsMessage b block pac b')
    (fits : block.length ≤ bufferSz) {slot : Fin 64} (named : pac.channelId = slot.val) :
    ∃ inside, Entered (fed proto block) inside slot pac.channel ∧
      receiveData table proto block = deliver table inside pac >>= fun returned =>
        .ok (rtmpPacketReset returned, [pac]) := by
  obtain ⟨other, channel, data, message, rfl, _⟩ := reads
  have entry : other = slot := Fin.ext (by dsimp only at named; omega)
  subst entry
  rw [← same.1, ← same.2] at message
  have some := messageNonempty message
  have stored := betweenFed between fits
  have unread : (rtmpRbInit block).unread = block ++ [] := by rw [unreadInit, List.append_nil]
  obtain ⟨dataBuffer, _, _, step⟩ :=
    @feedPacketMessage table (fed proto block) stored other channel data block [] message (rtmpRbInit block) unread
  have entered := enteredReceived (fed proto block) other channel 6 (headMask block) dataBuffer
  generalize received (fed proto block) other channel 6 (headMask block) dataBuffer = inside at step entered
  refine ⟨inside, entered, ?_⟩
  have more : (rtmpRbInit block).unread ≠ [] := by
    rw [unreadInit]
    exact List.ne_nil_of_length_pos some
  rw [receiveDataFed _ between.lastData between.readBuffer some fits, feedLoopPacket stored more rfl, step]
  cases deliver table inside ⟨other.val, channel, data⟩ with
  | error e => rfl
  | ok returned =>
    have done : ((rtmpRbInit block).skip block.length).unread = [] := unreadSkipAppend _ unread
    have needs : ((rtmpRbInit block).skip block.length).needMore = 0 := rfl
    simp only [Fallible.okBind, feedLoopEnd done, saveNothing _ needs]

theorem speaksBlock {c : Nat} (positive : 1 ≤ c) {proto proto' peer : RtmpProto} (synced : Synced c proto peer)
    {pac : Packet} (speaks : Speaks (wire c) proto proto' [pac]) : ∃ block peer',
      proto'.written = proto.written ++ [block] ∧ ReadsMessage peer block pac peer' ∧
      block.length ≤ 18 + wireLength c pac.data.length := by
  obtain ⟨blocks, peer', written, transcript, _⟩ := speaks peer synced
  cases transcript with
  | @cons _ _ _ block _ _ _ reads rest =>
    cases rest
    refine ⟨block, peer', written, reads, ?_⟩
    obtain ⟨slot, channel, data, message, rfl, _⟩ := reads
    have width := messageWidth (synced.chunkIn ▸ positive) message
    rw [synced.chunkIn] at width
    exact width

section Crossing
variable {c : Nat} {caller callee : RtmpProto} (between : Between callee)
  (handleInvoke : RtmpProto → Int → PyObj → PyObj → Res RtmpProto) (now : Int)
include between

theorem callHanded {peer peer' : RtmpProto} (same : SameReader callee peer) {methodName : Bytes} {requestId : Int}
    {args : List AV} (encodable : ValuesEncodable args) (other : methodName ≠ cString "connect")
    (short : (callData methodName requestId args).length ≤ 32767) {block : Bytes} {timer : Int}
    (reads : ReadsMessage peer block (ownPacket 3 timer pacInvoke (callData methodName requestId args)).heard peer')
    (fits : block.length ≤ bufferSz) : ∃ inside,
      receiveData (rtmpProtoMethodTableInit (pyTable handleInvoke) now) callee block =
        handleInvoke inside (Binary64.toInt64 (Binary64.ofInt requestId)) (.str methodName) (.list (avList2Py args))
          >>= fun returned => .ok (rtmpPacketReset returned,
            [(ownPacket 3 timer pacInvoke (callData methodName requestId args)).heard]) := by
  have named : (ownPacket 3 timer pacInvoke (callData methodName requestId args)).heard.channelId = (3 : Fin 64).val :=
    rfl
  obtain ⟨inside, entered, received⟩ :=
    blockDelivered (rtmpProtoMethodTableInit (pyTable handleInvoke) now) between same reads fits named
  have dispatched : deliver (rtmpProtoMethodTableInit (pyTable handleInvoke) now) inside
      (ownPacket 3 timer pacInvoke (callData methodName requestId args)).heard =
    defaultOnPacketInvoke (pyTable handleInvoke) now inside
      (ownPacket 3 timer pacInvoke (callData methodName requestId args)).heard := rfl
  obtain ⟨asked, read, _⟩ := readInvocationPacked encodable short
  have count : int32 args.length = args.length := by
    have fewer := valuesCount args
    rw [callData, packValuesLength, callValues, valuesPackSize, valuesPackSize, valuesPackSize] at short
    exact int32Same (by omega) (by omega)
  refine ⟨afterInvocation inside methodName (Binary64.toInt64 (Binary64.ofInt requestId)), ?_⟩
  have packed : readInvocation (ownPacket 3 timer pacInvoke (callData methodName requestId args)).heard.data =
    .ok ((methodName, Binary64.toInt64 (Binary64.ofInt requestId), args), asked) := read
  rw [received, dispatched, invokeReads, packed, Fallible.okBind, if_neg other]
  show (handleInvoke _ _ _ (.list (avList2Py (args.take (int32 args.length).toNat))) >>= _) = _
  rw [count, Int.toNat_natCast, List.take_length]
  rfl

variable (positive : 1 ≤ c) (synced : Synced c caller callee)
include positive synced

theorem spokenHanded {caller' : RtmpProto} {methodName : Bytes} {requestId timer : Int} {args : List AV}
    (speaks : Speaks (wire c) caller caller'
      [(ownPacket 3 timer pacInvoke (callData methodName requestId args)).heard])
    (encodable : ValuesEncodable args) (other : methodName ≠ cString "connect")
    (short : (callData methodName requestId args).length ≤ 32767)
    (room : 18 + wireLength c (callData methodName requestId args).length ≤ bufferSz) :
    ∃ block inside pac, caller'.written = caller.written ++ [block] ∧
      receiveData (rtmpProtoMethodTableInit (pyTable handleInvoke) now) callee block =
        handleInvoke inside (Binary64.toInt64 (Binary64.ofInt requestId)) (.str methodName) (.list (avList2Py args))
          >>= fun returned => .ok (rtmpPacketReset returned, [pac]) := by
  obtain ⟨block, peer', written, reads, width⟩ := speaksBlock positive synced speaks
  obtain ⟨inside, handed⟩ :=
    callHanded between handleInvoke now ⟨rfl, rfl⟩ encodable other short reads (width.trans room)
  exact ⟨block, inside, _, written, handed⟩

variable {table : MethodTable} (writes : table.onWriteData = true) (fresh : List Nat → AkTableElem AV)
  (current : caller.channelId = 3) {sent : Int} (timely : Timely sent caller)
include writes current timely

theorem pythonCall {methodName : Bytes} (other : methodName ≠ cString "connect") {args : List PyObj}
    (carriable : ObjectsCarriable args) {data : Bytes}
    (payload : data = callData methodName caller.nextRequestId (pylist2Array fresh [] 0 args))
    (short : data.length ≤ 32767) (room : 18 + wireLength c data.length ≤ bufferSz) :
    ∃ caller' block inside pac,
      myAmfCall fresh table caller methodName args sent = .ok (caller.nextRequestId, caller') ∧
      caller'.written = caller.written ++ [block] ∧
      receiveData (rtmpProtoMethodTableInit (pyTable handleInvoke) now) callee block =
        handleInvoke inside (Binary64.toInt64 (Binary64.ofInt caller.nextRequestId)) (.str methodName)
          (.list (crossedAll args)) >>= fun returned => .ok (rtmpPacketReset returned, [pac]) := by
  subst payload
  have three : Exchanged 3 := .inr rfl
  obtain ⟨caller', called, replies, _⟩ :=
    callReplies writes positive synced.chunkOut three current timely rfl short
  have encodable := pylist2ArrayEncodable fresh args carriable [] 0
  obtain ⟨block, inside, pac, written, handed⟩ :=
    spokenHanded between handleInvoke now positive synced replies.speaks encodable other short room
  rw [pylist2ArrayCrossed fresh args carriable] at handed
  exact ⟨caller', block, inside, pac, called, written, handed⟩

theorem pythonReturn {retv : PyObj} (carriable : Carriable retv) {reqid : Int} {data : Bytes}
    (payload : data = resultData reqid (py2Av fresh [] (fresh []).value retv))
    (short : data.length ≤ 32767) (room : 18 + wireLength c data.length ≤ bufferSz) :
    ∃ caller' block inside pac, amfReturn fresh table caller reqid retv sent = .ok caller' ∧
      caller'.written = caller.written ++ [block] ∧
      receiveData (rtmpProtoMethodTableInit (pyTable handleInvoke) now) callee block =
        handleInvoke inside (Binary64.toInt64 (Binary64.ofInt reqid)) (.str (cString "_result"))
          (.list [crossed retv]) >>= fun returned => .ok (rtmpPacketReset returned, [pac]) := by
  subst payload
  have three : Exchanged 3 := .inr rfl
  obtain ⟨caller', returned, replies, _⟩ :=
    resultReplies writes positive synced.chunkOut three current timely (rfl : rtPoolLeft [] = none) short
  have encodable : ValuesEncodable [py2Av fresh [] (fresh []).value retv] :=
    ⟨py2AvEncodable fresh retv carriable _ _, trivial⟩
  obtain ⟨block, inside, pac, written, handed⟩ :=
    spokenHanded between handleInvoke now positive synced replies.speaks encodable (by decide) short room
  rw [avList2Py, py2AvCrossed fresh retv carriable] at handed
  exact ⟨caller', block, inside, pac, returned, written, handed⟩

end Crossing

def inHandler : RtmpProto := { rtmpProtoInit with channelId := 3 }

theorem fiveTimely : Timely 5 inHandler :=
  fun _ _ => (by decide : (0 : Int) ≤ 5 ∧ (5 : Int) ≤ 0 + 0xfffffe)

theorem pythonCallMixed : ∃ caller' block inside pac,
    myAmfCall (fun _ => ⟨[], .nil⟩) bareTable inHandler (cString "show") [.list [.bool true, .float 0], .dict []] 5 =
      .ok (inHandler.nextRequestId, caller') ∧
    caller'.written = inHandler.written ++ [block] ∧
    receiveData (rtmpProtoMethodTableInit (pyTable fun proto _ _ _ => .ok proto) 9) openProto block =
      (.ok inside : Res RtmpProto) >>= fun returned => .ok (rtmpPacketReset returned, [pac]) := by
  have synced : Synced 128 inHandler openProto := syncedFrame openReads rfl rfl
  exact pythonCall openListening.between (fun proto _ _ _ => .ok proto) 9 (by decide) synced rfl _ rfl fiveTimely
    (by decide) ⟨⟨trivial, trivial, trivial⟩, trivial, trivial⟩ rfl (by decide) (by decide)

theorem pythonReturnNumber : ∃ caller' block inside pac,
    amfReturn (fun _ => ⟨[], .nil⟩) bareTable inHandler 7 (.float 0) 5 = .ok caller' ∧
    caller'.written = inHandler.written ++ [block] ∧
    receiveData (rtmpProtoMethodTableInit (pyTable fun proto _ _ _ => .ok proto) 9) openProto block =
      (.ok inside : Res RtmpProto) >>= fun returned => .ok (rtmpPacketReset returned, [pac]) := by
  have synced : Synced 128 inHandler openProto := syncedFrame openReads rfl rfl
  have carriable : Carriable (.float 0) := trivial
  exact pythonReturn openListening.between (fun proto _ _ _ => .ok proto) 9 (by decide) synced rfl _ rfl fiveTimely
    carriable rfl (by decide) (by decide)

end Rushkit
