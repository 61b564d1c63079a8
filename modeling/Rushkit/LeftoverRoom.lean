import Rushkit.ChunkSize
import Rushkit.SideEffects

/-! The block for saved bytes over whole connections. Every announced chunk size replaces
it, and only some sizes leave the room that `rtmp_proto_feed` counts on. -/
namespace Rushkit
open ReadBuffer Frame

def Roomy (proto : RtmpProto) : Prop := 128 ≤ proto.lastDataRoom

-- What the room is for: no header that is cut off is copied beyond the block.
theorem roomySaves {proto : RtmpProto} : Roomy proto ↔ ∀ pb, saveLastData proto pb ≠ .error .overWrite := by
  constructor
  · intro roomy pb overflow
    unfold saveLastData at overflow
    split at overflow
    · by_cases small : rtmpRbGetSpace pb ≤ 128
      · rw [checkTrue small, Fallible.okBind] at overflow
        rw [spaceUnread] at small
        unfold Roomy at roomy
        rw [if_pos (by omega)] at overflow
        contradiction
      · rw [checkFalse small, Fallible.errorBind] at overflow
        cases overflow
    · cases overflow
  · intro saves
    by_contra cramped
    unfold Roomy at cramped
    let pb : ReadBuffer := { rtmpRbInit (List.replicate 128 0) with needMore := 1 }
    have unread : pb.unread.length = 128 := List.length_replicate
    have space : rtmpRbGetSpace pb = 128 := (spaceUnread pb).trans (congrArg Nat.cast unread)
    refine saves pb ?_
    have more : pb.needMore > 0 := Int.zero_lt_one
    rw [saveLastData, if_pos more, checkTrue (Int.le_of_eq space), Fallible.okBind, unread, if_neg cramped]

-- The value that the packet of a round announces, if it announces one.
def announcedIn (behind : Packet → Bytes) (proto : RtmpProto) (pb : ReadBuffer) : List Int :=
  if proto.pkgSt = 3 then
    match rtmpPacketGetPacket proto pb with
    | .ok (pac, _, _) =>
      if pac.channel.dataType = pacChunkSize then
        match unpackInt (pac.data ++ behind pac) with
        | .ok chunkSize => [chunkSize]
        | .error _ => []
      else []
    | .error _ => []
  else []

/- The states of a connection between two rounds, all the states before, and the sizes
announced, with the latest first. In a round the clock may show anything, and any bytes may
lie behind a payload. -/
inductive Trail (table : MethodTable) :
    RtmpProto → ReadBuffer → List RtmpProto → List Int → Prop where
  | start : Trail table rtmpProtoInit (rtmpRbInit []) [rtmpProtoInit] []
  | round {proto proto' : RtmpProto} {pb pb' : ReadBuffer} {visited : List RtmpProto}
      {announced : List Int} (before : Trail table proto pb visited announced) (goes : Goes pb) (now : Int)
      (behind : Packet → Bytes) (round : Round (rtmpProtoMethodTableInit { table with behind } now) proto pb proto' pb') :
      Trail table proto' pb' (proto' :: visited) (announcedIn behind proto pb ++ announced)
  | received {proto saved : RtmpProto} {pb : ReadBuffer} {visited : List RtmpProto}
      {announced : List Int} {data : Bytes} (before : Trail table proto pb visited announced)
      (left : ¬ Goes pb) (save : saveLastData proto pb = .ok saved) (some : data ≠ [])
      (fits : saved.lastData.length + data.length ≤ bufferSz) :
      Trail table (stored saved data) (storedBuffer saved data) (stored saved data :: visited) announced
  | elsewhere {proto proto' : RtmpProto} {pb : ReadBuffer} {visited : List RtmpProto}
      {announced : List Int} (before : Trail table proto pb visited announced)
      (kept : InputKept proto proto') (room : proto'.lastDataRoom = proto.lastDataRoom) :
      Trail table proto' pb (proto' :: visited) announced

def leftover (proto : RtmpProto) : Bytes × Nat := (proto.lastData, proto.lastDataRoom)

theorem leftoverFree : OutputFree leftover := ⟨fun _ _ => rfl, fun _ _ _ _ => rfl⟩

theorem leftoverCounter (proto : RtmpProto) (requestId : Int) :
    leftover (raiseRequestId proto requestId) = leftover proto := by
  unfold raiseRequestId
  split <;> rfl

theorem unpackIntRange {buf : Bytes} {n : Int} (h : unpackInt buf = .ok n) :
    -2147483648 ≤ n ∧ n < 2147483648 := by
  unfold unpackInt at h
  split at h
  · cases Except.ok.inj h
    have low := BitVec.le_toInt (ofHostBytes 32 (loadData (buf.take 4)))
    have high := BitVec.toInt_lt (x := ofHostBytes 32 (loadData (buf.take 4)))
    omega
  · contradiction

theorem sizeRoomy {n : Int} (low : -2147483648 ≤ n) (high : n < 2147483648) :
    128 ≤ sizeT n ↔ n < 0 ∨ 128 ≤ n := by
  rcases lt_or_ge n 0 with negative | positive
  · rw [sizeTNegative negative (by omega)]
    omega
  · rw [sizeTSame positive (by omega)]
    omega

theorem announcementTaken {table : MethodTable} {proto : RtmpProto} (saved : proto.lastData = []) {pac : Packet}
    {n : Int} (announced : unpackInt (pac.data ++ table.behind pac) = .ok n) :
    defaultOnPacketChunkSize table proto pac = .ok { proto with lastDataRoom := sizeT n } := by
  have fits : proto.lastData.length ≤ sizeT n := by
    rw [saved]
    exact Nat.zero_le _
  rw [defaultOnPacketChunkSize, announced, Fallible.okBind, if_pos fits]

section Rounds
variable {table : MethodTable} (application : ApplicationLeaves leftover table) {now : Int}
  {proto proto' : RtmpProto} {pb pb' : ReadBuffer} (saved : proto.lastData = [])
include application saved

theorem packetLeftover (phase : proto.pkgSt = 3) {pac : Packet}
    (step : feedPacket (rtmpProtoMethodTableInit table now) proto pb = .ok (proto', pac, pb')) :
    proto'.lastData = [] ∧ ((announcedIn table.behind proto pb = [] ∧ proto'.lastDataRoom = proto.lastDataRoom) ∨
      ∃ n, announcedIn table.behind proto pb = [n] ∧ (Roomy proto' ↔ n < 0 ∨ 128 ≤ n)) := by
  obtain ⟨inside, returned, read, called, rfl⟩ := feedStep step
  have frame : leftover inside = leftover proto := by
    rw [(getPacketParsed read).frame]
    rfl
  have insideSaved : inside.lastData = [] := (congrArg Prod.fst frame).trans saved
  by_cases announces : pac.channel.dataType = pacChunkSize
  · have handled : defaultOnPacketChunkSize table inside pac = .ok returned := by
      rw [← called, deliver]
      show _ = defaultOnPacket _ inside pac
      rw [defaultOnPacket, if_pos announces]
      rfl
    obtain ⟨n, announced, _⟩ := Fallible.bindOk.mp handled
    rw [announcementTaken insideSaved announced] at handled
    cases Except.ok.inj handled
    obtain ⟨low, high⟩ := unpackIntRange announced
    refine ⟨insideSaved, .inr ⟨n, ?_, sizeRoomy low high⟩⟩
    rw [announcedIn, if_pos phase, read]
    dsimp only
    rw [if_pos announces, announced]
  · have same := deliverLeaves leftoverFree leftoverCounter application now announces called
    have whole : leftover returned = leftover proto := same.trans frame
    refine ⟨(congrArg Prod.fst whole).trans saved, .inl ⟨?_, congrArg Prod.snd whole⟩⟩
    rw [announcedIn, if_pos phase, read]
    exact if_neg announces

theorem roundLeftover (round : Round (rtmpProtoMethodTableInit table now) proto pb proto' pb') :
    proto'.lastData = [] ∧ ((announcedIn table.behind proto pb = [] ∧ proto'.lastDataRoom = proto.lastDataRoom) ∨
      ∃ n, announcedIn table.behind proto pb = [n] ∧ (Roomy proto' ↔ n < 0 ∨ 128 ≤ n)) := by
  have silent (same : leftover proto' = leftover proto) (phase : proto.pkgSt ≠ 3) :
      proto'.lastData = [] ∧ announcedIn table.behind proto pb = [] ∧ proto'.lastDataRoom = proto.lastDataRoom :=
    ⟨(congrArg Prod.fst same).trans saved, if_neg phase, congrArg Prod.snd same⟩
  cases round with
  | connect phase step =>
    obtain ⟨_, _, rfl⟩ := connectStep step
    exact (silent rfl (by omega)).imp_right .inl
  | handShake phase step =>
    obtain ⟨_, _, _, _, rfl | ⟨_, rfl⟩⟩ := shakeStep step
    · exact (silent rfl (by omega)).imp_right .inl
    · exact (silent rfl (by omega)).imp_right .inl
  | ackBack phase step =>
    obtain ⟨_, _, rfl | ⟨_, rfl⟩⟩ := ackStep step
    · exact (silent rfl (by omega)).imp_right .inl
    · exact (silent rfl (by omega)).imp_right .inl
  | packet pac phase step => exact packetLeftover application saved phase step

end Rounds

theorem leavesBehind {table : MethodTable} (application : ApplicationLeaves leftover table)
    (behind : Packet → Bytes) : ApplicationLeaves leftover { table with behind } :=
  ⟨application.amfCall, application.invalid, application.audio, application.video⟩

theorem saveRoom {proto saved : RtmpProto} {pb : ReadBuffer} (save : saveLastData proto pb = .ok saved) :
    saved.lastDataRoom = proto.lastDataRoom := by
  rcases saveStep save with rfl | rfl
  · rfl
  · rfl

theorem roomKept {proto next : RtmpProto} {visited : List RtmpProto} (here : proto ∈ visited)
    (room : next.lastDataRoom = proto.lastDataRoom) :
    (∀ s ∈ next :: visited, Roomy s) ↔ ∀ s ∈ visited, Roomy s := by
  rw [List.forall_mem_cons, and_iff_right_iff_imp]
  intro all
  rw [Roomy, room]
  exact all proto here

theorem trailRoom {table : MethodTable} (application : ApplicationLeaves leftover table)
    {proto : RtmpProto} {pb : ReadBuffer} {visited : List RtmpProto} {announced : List Int}
    (trail : Trail table proto pb visited announced) :
    proto.lastData = [] ∧ proto ∈ visited ∧
      ((∀ s ∈ visited, Roomy s) ↔ ∀ n ∈ announced, n < 0 ∨ 128 ≤ n) := by
  induction trail with
  | start =>
    have room : Roomy rtmpProtoInit := Nat.le_refl 128
    exact ⟨rfl, List.mem_singleton_self _, by simp [room]⟩
  | round before goes now behind round ih =>
    obtain ⟨saved, here, same⟩ := ih
    obtain ⟨saved', ⟨none, room⟩ | ⟨n, one, room⟩⟩ := roundLeftover (leavesBehind application behind) saved round
    · rw [none, List.nil_append]
      exact ⟨saved', List.mem_cons_self, (roomKept here room).trans same⟩
    · rw [one, List.singleton_append, List.forall_mem_cons, List.forall_mem_cons]
      exact ⟨saved', List.mem_cons_self, and_congr room same⟩
  | @received proto saved _ _ _ data before left save some fits ih =>
    obtain ⟨_, here, same⟩ := ih
    have room := saveRoom save
    have kept : (stored saved data).lastDataRoom = proto.lastDataRoom := room
    exact ⟨rfl, List.mem_cons_self, (roomKept here kept).trans same⟩
  | elsewhere before kept room ih =>
    obtain ⟨saved, here, same⟩ := ih
    exact ⟨kept.lastData.trans saved, List.mem_cons_self, (roomKept here room).trans same⟩

theorem loopTrail {table : MethodTable} (now : Int) (fuel : Nat) {proto last : RtmpProto}
    {pb pb' : ReadBuffer} {visited : List RtmpProto} {announced : List Int} {pacs : List Packet}
    (trail : Trail table proto pb visited announced)
    (loop : feedLoop (rtmpProtoMethodTableInit table now) fuel proto pb = .ok (last, pacs, pb')) :
    ∃ visited' announced', Trail table last pb' visited' announced' ∧
      (pacs = [] → announced' = announced) := by
  induction fuel generalizing proto pb visited announced pacs with
  | zero => contradiction
  | succ fuel ih =>
    by_cases goes : Goes pb
    · obtain ⟨next, rest, later, round, loop, silent⟩ := loopRound _ goes loop
      obtain ⟨visited', announced', after, same⟩ := ih (.round trail goes now table.behind round) loop
      refine ⟨visited', announced', after, fun none => ?_⟩
      obtain ⟨phase, none⟩ := silent none
      rw [same none, announcedIn, if_neg phase, List.nil_append]
    · rw [feedLoop, if_neg goes] at loop
      cases Except.ok.inj loop
      exact ⟨visited, announced, trail, fun _ => rfl⟩

theorem leftoverRoom {table : MethodTable} (application : ApplicationLeaves leftover table)
    {proto : RtmpProto} {pb : ReadBuffer} {visited : List RtmpProto} {announced : List Int}
    (trail : Trail table proto pb visited announced) :
    (∀ s ∈ visited, Roomy s) ↔ ∀ n ∈ announced, n < 0 ∨ 128 ≤ n :=
  (trailRoom application trail).2.2

theorem announcementRound {start : RtmpProto} (settled : Settled start) (phase : start.pkgSt = 3)
    (channels : start.channelsIn = rtmpProtoInit.channelsIn) (now : Int) (data : Bytes)
    (four : data.length = 4) {n : Int} (announced : unpackInt data = .ok n) :
    ∃ last pb', Round (rtmpProtoMethodTableInit bareTable now) start (rtmpRbInit (announcement data)) last pb' ∧
      announcedIn packetBehind start (rtmpRbInit (announcement data)) = [n] ∧ last.lastDataRoom = sizeT n := by
  obtain ⟨packetMask, dataBuffer, pb', read⟩ := announcementRead settled channels data four
  have saved : (received start 2 ⟨true, 0, 4, 1, 0⟩ 6 packetMask dataBuffer).lastData = [] := settled.lastData
  have value : announcedIn packetBehind start (rtmpRbInit (announcement data)) = [n] := by
    rw [announcedIn, if_pos phase, read]
    dsimp only
    rw [if_pos (by decide), unpackIntAppend announced]
  generalize received start 2 ⟨true, 0, 4, 1, 0⟩ 6 packetMask dataBuffer = inside at read saved
  have called : deliver (rtmpProtoMethodTableInit bareTable now) inside ⟨2, ⟨true, 0, 4, 1, 0⟩, data⟩ =
      .ok { inside with lastDataRoom := sizeT n } := announcementTaken saved (unpackIntAppend announced _)
  have step : feedPacket (rtmpProtoMethodTableInit bareTable now) start (rtmpRbInit (announcement data)) =
      .ok (rtmpPacketReset { inside with lastDataRoom := sizeT n }, ⟨2, ⟨true, 0, 4, 1, 0⟩, data⟩, pb') := by
    rw [feedPacket, read, Fallible.okBind]
    dsimp only
    rw [called, Fallible.okBind]
  exact ⟨_, _, .packet _ phase step, value, rfl⟩

theorem openedTrail : ∃ proto pb visited, Trail bareTable proto pb visited [] ∧ Settled proto ∧
    ¬ Goes pb ∧ pb.needMore = 0 ∧ proto.pkgSt = 3 ∧ proto.channelsIn = rtmpProtoInit.channelsIn := by
  have leaves : LeavesReader (rtmpProtoMethodTableInit bareTable 0) := (defaultPassive bareApplication 0).kept
  have writes : (rtmpProtoMethodTableInit bareTable 0).onWriteData = true := rfl
  obtain ⟨opening, fuel, proto, pb, some, fits, loop, phase, channels⟩ := openingLoop writes
  have room : rtmpProtoInit.lastData.length + opening.length ≤ bufferSz := by
    show 0 + opening.length ≤ bufferSz
    omega
  obtain ⟨run, left⟩ := loopRun _ (.received .start startLeft rfl some room) loop
  obtain ⟨visited, none, trail, silent⟩ := loopTrail 0 _ (.received .start startLeft rfl some room) loop
  rw [silent rfl] at trail
  obtain ⟨settled, needs⟩ := settledRun leaves run settledInit rfl
  exact ⟨proto, pb, visited, trail, settled, left, needs, phase, channels⟩

theorem announcedTrail (data : Bytes) (four : data.length = 4) {n : Int}
    (announced : unpackInt data = .ok n) :
    ∃ proto pb visited, Trail bareTable proto pb (proto :: visited) [n] ∧ proto.lastDataRoom = sizeT n := by
  obtain ⟨proto, pb, visited, trail, settled, left, needs, phase, channels⟩ := openedTrail
  have save := saveNothing proto needs
  have size : (announcement data).length = 16 := by
    rw [announcement, List.length_append, four]
    rfl
  have small : (announcement data).length ≤ bufferSz := by
    rw [size]
    decide
  have stays : proto.lastData.length + (announcement data).length ≤ bufferSz := by
    rw [settled.lastData, List.length_nil, Nat.zero_add]
    exact small
  have nonempty : announcement data ≠ [] := List.cons_ne_nil _ _
  have trail := trail.received left save nonempty stays
  obtain ⟨before, buffer⟩ := settledStored settled _ small
  rw [buffer] at trail
  obtain ⟨last, pb', round, value, grown⟩ := announcementRound before phase channels 0 data four announced
  have goes : Goes (rtmpRbInit (announcement data)) := by
    refine ⟨?_, rfl⟩
    rw [spaceUnread, unreadInit, size]
    decide
  have trail := trail.round goes 0 packetBehind round
  rw [value] at trail
  exact ⟨_, _, _, trail, grown⟩

theorem leftoverRoomKept : ∃ proto pb visited, Trail bareTable proto pb (proto :: visited) [256] ∧
    ∀ s ∈ proto :: visited, Roomy s := by
  have announced : unpackInt [0, 0, 1, 0] = .ok 256 := by decide
  obtain ⟨proto, pb, visited, trail, _⟩ := announcedTrail [0, 0, 1, 0] rfl announced
  exact ⟨proto, pb, visited, trail, (leftoverRoom (bareLeaves leftover) trail).mpr (by decide)⟩

-- A peer that announces one byte gets a block of one byte.
theorem announcedByteCramps : ∃ proto pb visited, Trail bareTable proto pb (proto :: visited) [1] ∧
    proto.lastDataRoom = 1 ∧ ¬ Roomy proto := by
  have announced : unpackInt [0, 0, 0, 1] = .ok 1 := by decide
  obtain ⟨proto, pb, visited, trail, room⟩ := announcedTrail [0, 0, 0, 1] rfl announced
  have one : proto.lastDataRoom = 1 := room
  refine ⟨proto, pb, visited, trail, one, ?_⟩
  rw [Roomy, one]
  decide

end Rushkit
