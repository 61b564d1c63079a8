import Rushkit.Bindings
import Rushkit.Sessions
import Rushkit.SideEffects

/-! What a connection may send and when, and its counts of the bytes received and sent. -/
namespace Rushkit
open Amf Dialogue Frame Interleaving ReadBuffer

-- The record that a block is fed to.
def blockStored (proto : RtmpProto) (data : Bytes) : RtmpProto :=
  { proto with
    readBuffer := storeAt (storeAt proto.readBuffer 0 proto.lastData) proto.lastData.length data
    lastData := [] }

theorem receiveFeeds {table : MethodTable} {proto proto' : RtmpProto} {data : Bytes} {pacs : List Packet}
    (h : receiveData table proto data = .ok (proto', pacs)) :
    (data = [] ∧ proto' = blockStored proto data) ∨
      rtmpProtoFeed table (blockStored proto data) data.length = .ok (proto', pacs) := by
  have unfolded : (if (data.length : Int) ≤ bufferSz - (proto.lastData.length : Int) then
      (if 0 < data.length then rtmpProtoFeed table (blockStored proto data) data.length
        else .ok (blockStored proto data, []))
      else .error .overWrite) = (.ok (proto', pacs) : Res (RtmpProto × List Packet)) := h
  split at unfolded
  · split at unfolded
    · exact .inr unfolded
    · rename_i none
      cases Except.ok.inj unfolded
      exact .inl ⟨List.eq_nil_of_length_eq_zero (by omega), rfl⟩
  · contradiction

theorem receiveFits {table : MethodTable} {proto proto' : RtmpProto} (saved : proto.lastData = []) {data : Bytes}
    {pacs : List Packet} (h : receiveData table proto data = .ok (proto', pacs)) : data.length ≤ bufferSz := by
  by_contra large
  simp only [receiveData, rtmpProtoPrepareBuffer, putLastData, saved, List.length_nil, storeNothing] at h
  rw [if_neg (by omega)] at h
  contradiction

def blockFed (proto : RtmpProto) (data : Bytes) : RtmpProto :=
  { blockStored proto data with numUpBytes := int32 (proto.numUpBytes + data.length) }

theorem receiveLoops {table : MethodTable} {proto proto' : RtmpProto} {data : Bytes} {pacs : List Packet}
    (h : receiveData table proto data = .ok (proto', pacs)) : (data = [] ∧ proto' = blockStored proto data) ∨
      ∃ fuel pb last pb', feedLoop table fuel (blockFed proto data) pb = .ok (last, pacs, pb') ∧
        (proto' = last ∨ proto' = { last with lastData := pb'.unread }) := by
  rcases receiveFeeds h with none | fed
  · exact .inl none
  · unfold rtmpProtoFeed at fed
    split at fed
    · obtain ⟨⟨last, pacs, pb'⟩, loop, rest⟩ := Fallible.bindOk.mp fed
      obtain ⟨saved, save, rest⟩ := Fallible.bindOk.mp rest
      cases Except.ok.inj rest
      exact .inr ⟨_, _, last, pb', loop, saveStep save⟩
    · contradiction

theorem idleLoop {table : MethodTable} (fuel : Nat) {proto proto' : RtmpProto} {pb pb' : ReadBuffer}
    {pacs : List Packet} (idle : proto.channelId = 0) (h : feedLoop table fuel proto pb = .ok (proto', pacs, pb')) :
    proto'.channelId = 0 := by
  induction fuel generalizing proto pb pacs with
  | zero => contradiction
  | succ fuel ih =>
    unfold feedLoop at h
    split at h
    · split at h
      · obtain ⟨⟨next, rest⟩, step, h⟩ := Fallible.bindOk.mp h
        exact ih ((keptConnect step).channelId.trans idle) h
      · obtain ⟨⟨next, rest⟩, step, h⟩ := Fallible.bindOk.mp h
        exact ih ((keptShake step).channelId.trans idle) h
      · obtain ⟨⟨next, rest⟩, step, h⟩ := Fallible.bindOk.mp h
        exact ih ((keptAckBack step).channelId.trans idle) h
      · obtain ⟨⟨next, pac, rest⟩, step, h⟩ := Fallible.bindOk.mp h
        obtain ⟨⟨last, later, after⟩, loop, h⟩ := Fallible.bindOk.mp h
        cases Except.ok.inj h
        obtain ⟨inside, returned, _, _, rfl⟩ := feedStep step
        have reset : (rtmpPacketReset returned).channelId = 0 := rfl
        exact ih reset loop
      · contradiction
    · cases Except.ok.inj h
      exact idle

theorem idleReceive {table : MethodTable} {proto proto' : RtmpProto} {data : Bytes} {pacs : List Packet}
    (idle : proto.channelId = 0) (h : receiveData table proto data = .ok (proto', pacs)) : proto'.channelId = 0 := by
  have stored : (blockFed proto data).channelId = 0 := idle
  rcases receiveLoops h with ⟨_, rfl⟩ | ⟨fuel, pb, last, pb', loop, same⟩
  · exact idle
  · have done := idleLoop fuel stored loop
    rcases same with rfl | rfl
    · exact done
    · exact done

theorem idleRun {program : Int → MethodTable} {proto last : RtmpProto} {blocks : List (Int × Bytes)}
    {pacs : List Packet} (idle : proto.channelId = 0) (run : receiveTimed program proto blocks = .ok (last, pacs)) :
    last.channelId = 0 := by
  induction blocks generalizing proto pacs with
  | nil =>
    cases Except.ok.inj run
    exact idle
  | cons block blocks ih =>
    obtain ⟨now, data⟩ := block
    obtain ⟨⟨mid, early⟩, first, run⟩ := Fallible.bindOk.mp run
    obtain ⟨⟨last', later⟩, rest, same⟩ := Fallible.bindOk.mp run
    cases Except.ok.inj same
    exact ih (idleReceive idle first) rest

/- On channel 2, with the count of received bytes as the payload. -/
def bytesReadPacket (proto : RtmpProto) : Packet :=
  ⟨2, ownChannel 0 pacBytesRead, Rushkit.packLong (BitVec.ofInt 32 proto.numUpBytes)⟩

def rtmpProtoSendBytesRead (table : MethodTable) (proto : RtmpProto) : Res RtmpProto :=
  rtmpProtoSendPacket table proto (bytesReadPacket proto) false

theorem sendIllegal (table : MethodTable) (proto : RtmpProto) (illegal : proto.channelId < 2) (pac : Packet)
    (timerRelative : Bool) : ∃ e, rtmpProtoSendPacket table proto pac timerRelative = .error e := by
  cases written : rtmpPacketWritePacket proto (rtmpWbInit 1024) pac timerRelative with
  | error e => exact ⟨e, by rw [rtmpProtoSendPacket, written]; rfl⟩
  | ok r =>
    obtain ⟨slot, entry, _⟩ := Fallible.bindOk.mp written
    rw [writePacketIllegal proto _ pac timerRelative slot (tableEntryOk.mp entry) illegal] at written
    contradiction

theorem timerChannel {proto timed : RtmpProto} {fn now timer : Int}
    (h : rtmpPacketGetLastTimer proto fn now = .ok (timer, timed)) : timed.channelId = proto.channelId := by
  simp only [rtmpPacketGetLastTimer, Fallible.bindOk] at h
  obtain ⟨_, _, _, _, last⟩ := h
  cases Except.ok.inj last
  rfl

theorem callIllegal (table : MethodTable) {proto : RtmpProto} (illegal : proto.channelId < 2) (methodName : Bytes)
    (args : List AV) (now : Int) : ∃ e, rtmpProtoCall table proto methodName args now = .error e := by
  cases called : rtmpProtoCall table proto methodName args now with
  | error e => exact ⟨e, rfl⟩
  | ok r =>
    obtain ⟨⟨requestId, pac, raised⟩, packet, called⟩ := Fallible.bindOk.mp called
    obtain ⟨sent, send, _⟩ := Fallible.bindOk.mp called
    obtain ⟨⟨timer, timed⟩, timing, packet⟩ := Fallible.bindOk.mp packet
    obtain ⟨data, _, packet⟩ := Fallible.bindOk.mp packet
    cases Except.ok.inj packet
    have channel := timerChannel timing
    obtain ⟨e, fails⟩ := sendIllegal table { timed with nextRequestId := int64 (timed.nextRequestId + 1) }
      (channel.trans_lt illegal) ⟨3, ownChannel timer pacInvoke, data⟩ false
    rw [fails] at send
    contradiction

theorem returnIllegal (table : MethodTable) (asked : List Nat) {proto : RtmpProto} (illegal : proto.channelId < 2)
    (channelId requestId : Int) (retVal : AV) (now : Int) :
    ∃ e, rtmpProtoPacketReturn table asked proto channelId requestId retVal now = .error e := by
  cases returned : rtmpProtoPacketReturn table asked proto channelId requestId retVal now with
  | error e => exact ⟨e, rfl⟩
  | ok proto' =>
    obtain ⟨asked', _, returned⟩ := Fallible.bindOk.mp returned
    obtain ⟨⟨timer, timed⟩, timing, returned⟩ := Fallible.bindOk.mp returned
    obtain ⟨data, payload, returned⟩ := Fallible.bindOk.mp returned
    have some : 0 < data.length := by
      unfold amfPackArguments at payload
      dsimp only at payload
      split at payload
      · contradiction
      · obtain ⟨_, _, payload⟩ := Fallible.bindOk.mp payload
        cases Except.ok.inj payload
        exact resultSome requestId retVal
    have channel := timerChannel timing
    obtain ⟨e, fails⟩ :=
      sendIllegal table timed (channel.trans_lt illegal) ⟨channelId, ownChannel timer pacInvoke, data⟩ false
    dsimp only at returned
    rw [if_pos some, fails] at returned
    contradiction

theorem idleSends {program : Int → MethodTable} {blocks : List (Int × Bytes)} {pacs : List Packet} {proto : RtmpProto}
    (run : receiveTimed program rtmpProtoInit blocks = .ok (proto, pacs)) (table : MethodTable) (now : Int) :
    (∀ pac timerRelative, ∃ e, rtmpProtoSendPacket table proto pac timerRelative = .error e) ∧
    (∃ e, rtmpProtoSendBytesRead table proto = .error e) ∧
    (∀ methodName args, ∃ e, rtmpProtoCall table proto methodName args now = .error e) ∧
    ∀ asked channelId requestId retVal,
      ∃ e, rtmpProtoPacketReturn table asked proto channelId requestId retVal now = .error e := by
  have idle : proto.channelId = 0 := idleRun rfl run
  have illegal : proto.channelId < 2 := by omega
  exact ⟨sendIllegal table proto illegal, sendIllegal table proto illegal _ false,
    fun methodName args => callIllegal table illegal methodName args now,
    fun asked channelId requestId retVal => returnIllegal table asked illegal channelId requestId retVal now⟩

-- What has been written and not counted, and what has been received.
def account (proto : RtmpProto) : Int × Int := (unbooked proto, proto.numUpBytes)

section Steps
variable {table : MethodTable} (writes : table.onWriteData = true)

theorem chunkSizeAccount (table : MethodTable) (pac : Packet) :
    Leaves account fun proto => defaultOnPacketChunkSize table proto pac := by
  intro proto proto' h
  simp only [defaultOnPacketChunkSize, Fallible.bindOk] at h
  obtain ⟨size, _, h⟩ := h
  split at h
  · cases Except.ok.inj h
    rfl
  · cases Except.ok.inj h
    rfl

theorem timerAccount {proto timed : RtmpProto} {fn now timer : Int}
    (h : rtmpPacketGetLastTimer proto fn now = .ok (timer, timed)) : account timed = account proto := by
  simp only [rtmpPacketGetLastTimer, Fallible.bindOk] at h
  obtain ⟨_, _, _, _, last⟩ := h
  cases Except.ok.inj last
  rfl

include writes

theorem writeAccount (proto : RtmpProto) (data : Bytes) :
    account (protoWriteData table proto data) = account proto :=
  Prod.ext (bookedWrite table writes proto data) rfl

theorem sendAccount (pac : Packet) (timerRelative : Bool) :
    Leaves account fun proto => rtmpProtoSendPacket table proto pac timerRelative := by
  intro proto proto' h
  simp only [rtmpProtoSendPacket, rtmpPacketWritePacket, Fallible.bindOk] at h
  obtain ⟨_, ⟨_, _, _, _, _, _, _, _, written⟩, _, _, _, _, last⟩ := h
  cases Except.ok.inj written
  cases Except.ok.inj last
  exact writeAccount writes _ _

theorem returnAccount (asked : List Nat) (channelId requestId : Int) (retVal : AV) (now : Int) :
    Leaves account fun proto => rtmpProtoPacketReturn table asked proto channelId requestId retVal now :=
  leavesValue _ fun asked => leavesAfter (fun timer proto => do
      let data ← amfPackArguments (rtPool asked) (returnArguments requestId retVal)
      if 0 < data.length then
        rtmpProtoSendPacket table proto ⟨channelId, ownChannel timer pacInvoke, data⟩ false
      else .ok proto)
    timerAccount fun _ => leavesValue _ fun _ => leavesIf (sendAccount writes _ false) leavesOk

theorem pingAccount (now : Int) (pac : Packet) : Leaves account fun proto => defaultOnPacketPing table now proto pac :=
  leavesAfter (fun timer proto =>
      rtmpProtoSendPacket table proto ⟨pac.channelId, ownChannel timer pacPing, pac.data⟩ false)
    timerAccount fun _ => sendAccount writes _ false

variable (application : ApplicationLeaves account table) (now : Int)
include application

theorem invokeAccount (pac : Packet) : Leaves account fun proto => defaultOnPacketInvoke table now proto pac := by
  intro proto proto' h
  obtain ⟨methodName, bits, args, raised, raise, rest⟩ := invokeSteps h
  have same : account raised = account proto := by
    rcases raise with rfl | rfl
    · rfl
    · unfold raiseRequestId
      split
      · rfl
      · rfl
  rw [← same]
  rcases rest with ⟨asked, reply⟩ | called
  · exact returnAccount writes asked _ _ _ now reply
  · exact callBackLeaves application _ _ _ _ called

theorem deliverAccount (pac : Packet) :
    Leaves account fun proto => deliver (rtmpProtoMethodTableInit table now) proto pac := by
  have chunkSize : Leaves account fun proto => handOn (some (defaultOnPacketChunkSize table)) proto pac :=
    chunkSizeAccount table pac
  have ping : Leaves account fun proto => handOn (some (defaultOnPacketPing table now)) proto pac :=
    pingAccount writes now pac
  have invoke : Leaves account fun proto => handOn (some (defaultOnPacketInvoke table now)) proto pac :=
    invokeAccount writes application now pac
  intro proto proto' h
  have dispatched : defaultOnPacket (rtmpProtoMethodTableInit table now) proto pac = .ok proto' := h
  rw [defaultOnPacket] at dispatched
  revert dispatched
  exact leavesIf chunkSize <| leavesIf (handOnLeaves pac fun f set => application.invalid f set pac) <|
    leavesIf (bytesReadLeaves pac) <| leavesIf ping <| leavesIf invoke <|
    leavesIf (handOnLeaves pac fun f set => application.audio f set pac) <|
    leavesIf (handOnLeaves pac fun f set => application.video f set pac) leavesOk

end Steps

section Rounds
variable {table : MethodTable} (writes : table.onWriteData = true) (reader : ApplicationLeaves readerHalf table)
  (application : ApplicationLeaves account table) (now : Int)
include writes reader application

theorem accountLoop (fuel : Nat) {proto proto' : RtmpProto} {pb pb' : ReadBuffer} {pacs : List Packet}
    (steady : Steady proto)
    (h : feedLoop (rtmpProtoMethodTableInit table now) fuel proto pb = .ok (proto', pacs, pb')) :
    account proto' = account proto := by
  have shakes : (rtmpProtoMethodTableInit table now).onWriteData = true := writes
  have leaves : LeavesReader (rtmpProtoMethodTableInit table now) := defaultLeaves reader now
  induction fuel generalizing proto pb pacs with
  | zero => contradiction
  | succ fuel ih =>
    unfold feedLoop at h
    split at h
    · split at h
      · obtain ⟨⟨next, rest⟩, step, h⟩ := Fallible.bindOk.mp h
        have after := ih (steadyConnect steady step).1 h
        obtain ⟨_, _, rfl⟩ := connectStep step
        exact after
      · obtain ⟨⟨next, rest⟩, step, h⟩ := Fallible.bindOk.mp h
        have after := ih (steadyShake steady step).1 h
        obtain ⟨_, _, _, _, rfl | ⟨_, rfl⟩⟩ := shakeStep step
        · exact after.trans ((writeAccount shakes _ _).trans (writeAccount shakes proto _))
        · exact after
      · obtain ⟨⟨next, rest⟩, step, h⟩ := Fallible.bindOk.mp h
        have after := ih (steadyAckBack steady step).1 h
        obtain ⟨_, _, rfl | ⟨_, rfl⟩⟩ := ackStep step
        · exact after
        · exact after
      · obtain ⟨⟨next, pac, rest⟩, step, h⟩ := Fallible.bindOk.mp h
        obtain ⟨⟨last, later, last'⟩, loop, h⟩ := Fallible.bindOk.mp h
        cases Except.ok.inj h
        have after := ih (steadyPacket steady leaves step).1 loop
        obtain ⟨inside, returned, read, called, rfl⟩ := feedStep step
        have chunk := steady.readChunkSize
        obtain ⟨state, packetMask, slot, _, channel, dataBuffer, entered, _⟩ :=
          getPacketOk steady.state (by omega) (by omega) read
        have before : account inside = account proto := by
          rw [entered]
          rfl
        have reset : account (rtmpPacketReset returned) = account returned := rfl
        have handled := deliverAccount writes application now pac called
        exact after.trans (reset.trans (handled.trans before))
      · contradiction
    · cases Except.ok.inj h
      rfl

theorem accountReceive {proto proto' : RtmpProto} {data : Bytes} {pacs : List Packet} (steady : Steady proto)
    (h : receiveData (rtmpProtoMethodTableInit table now) proto data = .ok (proto', pacs)) :
    Steady proto' ∧ unbooked proto' = unbooked proto ∧
      int32 proto'.numUpBytes = int32 (proto.numUpBytes + data.length) := by
  refine ⟨steadyReceive (defaultLeaves reader now) steady h, ?_⟩
  have capacity : data.length ≤ bufferSz := receiveFits steady.lastData h
  rcases Nat.eq_zero_or_pos data.length with none | some
  · have empty := List.eq_nil_of_length_eq_zero none
    subst empty
    rw [receiveNothing _ steady.lastData] at h
    cases Except.ok.inj h
    exact ⟨rfl, by simp⟩
  · have block := storeAtStart proto.readBuffer data (by rw [steady.readBuffer]; exact capacity)
    have stored : Steady (fed proto data) :=
      ⟨steady.state, rfl, block.2.trans steady.readBuffer, steady.readChunkSize⟩
    rw [receiveDataFed _ steady.lastData steady.readBuffer some capacity] at h
    obtain ⟨⟨next, later, after⟩, loop, h⟩ := Fallible.bindOk.mp h
    obtain ⟨saved, save, h⟩ := Fallible.bindOk.mp h
    cases Except.ok.inj h
    obtain ⟨down, up⟩ := Prod.mk.inj (accountLoop writes reader application now _ stored loop)
    have counted : int32 next.numUpBytes = int32 (proto.numUpBytes + data.length) := by
      rw [up]
      exact Int.bmod_bmod
    rcases saveStep save with rfl | rfl
    · exact ⟨down, counted⟩
    · exact ⟨down, counted⟩

end Rounds

section Runs
variable {program : Int → MethodTable} (writes : ∀ now, (program now).onWriteData = true)
  (reader : ∀ now, ApplicationLeaves readerHalf (program now))
  (application : ∀ now, ApplicationLeaves account (program now))
include writes reader application

theorem accountRun {proto last : RtmpProto} {blocks : List (Int × Bytes)} {pacs : List Packet} (steady : Steady proto)
    (run : receiveTimed program proto blocks = .ok (last, pacs)) : unbooked last = unbooked proto ∧
      int32 last.numUpBytes = int32 (proto.numUpBytes + (blocks.map Prod.snd).flatten.length) := by
  induction blocks generalizing proto pacs with
  | nil =>
    cases Except.ok.inj run
    exact ⟨rfl, by simp⟩
  | cons block blocks ih =>
    obtain ⟨now, data⟩ := block
    obtain ⟨⟨mid, early⟩, first, run⟩ := Fallible.bindOk.mp run
    obtain ⟨⟨last', later⟩, rest, same⟩ := Fallible.bindOk.mp run
    cases Except.ok.inj same
    obtain ⟨steady', down, up⟩ := accountReceive (writes now) (reader now) (application now) now steady first
    obtain ⟨down', up'⟩ := ih steady' rest
    refine ⟨down'.trans down, ?_⟩
    rw [up', List.map_cons, List.flatten_cons, List.length_append, Nat.cast_add, ← Int.add_assoc]
    exact Int.add_bmod_eq_add_bmod_right _ up

theorem accounts {proto : RtmpProto} {blocks : List (Int × Bytes)} {pacs : List Packet}
    (run : receiveTimed program rtmpProtoInit blocks = .ok (proto, pacs)) :
    int32 proto.numUpBytes = int32 (blocks.map Prod.snd).flatten.length ∧
    int32 proto.numDownBytes = int32 proto.written.flatten.length := by
  have steady : Steady rtmpProtoInit := ⟨rfl, rfl, List.length_replicate, rfl⟩
  obtain ⟨down, up⟩ := accountRun writes reader application steady run
  refine ⟨?_, ?_⟩
  · rw [up]
    show int32 (0 + _) = _
    rw [Int.zero_add]
  · have none : int32 (proto.numDownBytes - proto.written.flatten.length) = 0 := down
    exact Int.bmod_eq_bmod_iff_bmod_sub_eq_zero.mpr none

end Runs

theorem cutsReceived : ∃ proto, receiveTimed (fun _ => bareTable) rtmpProtoInit openingCuts = .ok (proto, []) := by
  have writes : ∀ now, ((fun _ => bareTable : Int → MethodTable) now).onWriteData = true := fun _ => rfl
  obtain ⟨proto, received, _⟩ := openingTimed writes zerosLength zerosLength cutsNonempty openingInit
    (cutsOpening ▸ List.prefix_refl _)
  exact ⟨proto, received⟩

theorem openedSendsNothing : ∃ proto,
    receiveTimed (fun _ => bareTable) rtmpProtoInit openingCuts = .ok (proto, []) ∧
    ∃ e, rtmpProtoSendBytesRead bareTable proto = .error e := by
  obtain ⟨proto, received⟩ := cutsReceived
  exact ⟨proto, received, (idleSends received bareTable 9).2.1⟩

theorem openedAccounts : ∃ proto,
    receiveTimed (fun _ => bareTable) rtmpProtoInit openingCuts = .ok (proto, []) ∧
    int32 proto.numUpBytes = int32 (openingCuts.map Prod.snd).flatten.length ∧
    int32 proto.numDownBytes = int32 proto.written.flatten.length := by
  obtain ⟨proto, received⟩ := cutsReceived
  exact ⟨proto, received, accounts (fun _ => rfl) (fun _ => bareLeaves readerHalf) (fun _ => bareLeaves account) received⟩

end Rushkit
