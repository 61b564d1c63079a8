import Rushkit.Segmentation

/-! Single rounds of the loop of `rtmp_proto_feed`: the states of a connection between
them, on any run of received blocks, and what all of these states have in common. -/
namespace Rushkit
open ReadBuffer

abbrev Goes (pb : ReadBuffer) : Prop := 0 < rtmpRbGetSpace pb ∧ pb.needMore = 0

inductive Round (table : MethodTable) (proto : RtmpProto) (pb : ReadBuffer) (proto' : RtmpProto)
    (pb' : ReadBuffer) : Prop where
  | connect (phase : proto.pkgSt = 0) (step : onConnect proto pb = .ok (proto', pb'))
  | handShake (phase : proto.pkgSt = 1) (step : onHandShake table proto pb = .ok (proto', pb'))
  | ackBack (phase : proto.pkgSt = 2) (step : onAckBack proto pb = .ok (proto', pb'))
  | packet (pac : Packet) (phase : proto.pkgSt = 3)
      (step : feedPacket table proto pb = .ok (proto', pac, pb'))

-- The record and the buffer with which the loop starts on a received block.
def stored (proto : RtmpProto) (data : Bytes) : RtmpProto :=
  let (buffer, _, proto) := rtmpProtoPrepareBuffer proto
  { proto with
    readBuffer := storeAt proto.readBuffer buffer data
    numUpBytes := int32 (proto.numUpBytes + data.length) }

def storedBuffer (proto : RtmpProto) (data : Bytes) : ReadBuffer :=
  rtmpRbInit ((stored proto data).readBuffer.take data.length)

structure InputKept (proto proto' : RtmpProto) : Prop extends ReaderKept proto proto' where
  tmpBuf : proto'.tmpBuf = proto.tmpBuf
  ackBackLen : proto'.ackBackLen = proto.ackBackLen

/- The states of a connection between two rounds, with the buffer the loop is at. A
block may be received once the loop is left; the reader stands still while others move. -/
inductive Run (table : MethodTable) (start : RtmpProto) (first : ReadBuffer) :
    RtmpProto → ReadBuffer → Prop where
  | start : Run table start first start first
  | round {proto proto' : RtmpProto} {pb pb' : ReadBuffer} (before : Run table start first proto pb)
      (goes : Goes pb) (round : Round table proto pb proto' pb') : Run table start first proto' pb'
  | received {proto saved : RtmpProto} {pb : ReadBuffer} {data : Bytes}
      (before : Run table start first proto pb) (left : ¬ Goes pb)
      (save : saveLastData proto pb = .ok saved) (some : data ≠ [])
      (fits : saved.lastData.length + data.length ≤ bufferSz) :
      Run table start first (stored saved data) (storedBuffer saved data)
  | elsewhere {proto proto' : RtmpProto} {pb : ReadBuffer} (before : Run table start first proto pb)
      (kept : InputKept proto proto') : Run table start first proto' pb

def Reached (table : MethodTable) (proto : RtmpProto) : Prop :=
  ∃ pb, Run table rtmpProtoInit (rtmpRbInit []) proto pb

theorem roundLoop (table : MethodTable) {proto proto' : RtmpProto} {pb pb' : ReadBuffer}
    (goes : Goes pb) (round : Round table proto pb proto' pb') (fuel : Nat) :
    ∃ early, feedLoop table (fuel+1) proto pb = feedLoop table fuel proto' pb' >>= fun r =>
      .ok (r.1, early ++ r.2.1, r.2.2) := by
  have whole (x : Res (RtmpProto × List Packet × ReadBuffer)) :
      (x >>= fun r => .ok (r.1, [] ++ r.2.1, r.2.2)) = x := by cases x <;> rfl
  rw [feedLoop, if_pos goes]
  cases round with
  | connect phase step | handShake phase step | ackBack phase step =>
    refine ⟨[], ?_⟩
    simp only [phase, step, Fallible.okBind, whole]
  | packet pac phase step =>
    refine ⟨[pac], ?_⟩
    simp only [phase, step, Fallible.okBind, List.cons_append, List.nil_append]

theorem loopRound (table : MethodTable) {proto last : RtmpProto} {pb pb' : ReadBuffer}
    (goes : Goes pb) {fuel : Nat} {pacs : List Packet}
    (loop : feedLoop table (fuel+1) proto pb = .ok (last, pacs, pb')) :
    ∃ next rest later, Round table proto pb next rest ∧
      feedLoop table fuel next rest = .ok (last, later, pb') ∧
      (pacs = [] → proto.pkgSt ≠ 3 ∧ later = []) := by
  rw [feedLoop, if_pos goes] at loop
  split at loop
  · rename_i phase
    obtain ⟨⟨next, rest⟩, step, loop⟩ := Fallible.bindOk.mp loop
    exact ⟨next, rest, pacs, .connect phase step, loop, fun none => ⟨by omega, none⟩⟩
  · rename_i phase
    obtain ⟨⟨next, rest⟩, step, loop⟩ := Fallible.bindOk.mp loop
    exact ⟨next, rest, pacs, .handShake phase step, loop, fun none => ⟨by omega, none⟩⟩
  · rename_i phase
    obtain ⟨⟨next, rest⟩, step, loop⟩ := Fallible.bindOk.mp loop
    exact ⟨next, rest, pacs, .ackBack phase step, loop, fun none => ⟨by omega, none⟩⟩
  · rename_i phase
    obtain ⟨⟨next, pac, rest⟩, step, loop⟩ := Fallible.bindOk.mp loop
    obtain ⟨⟨_, later, _⟩, loop, same⟩ := Fallible.bindOk.mp loop
    cases Except.ok.inj same
    exact ⟨next, rest, later, .packet pac phase step, loop, fun none => absurd none (List.cons_ne_nil pac later)⟩
  · contradiction

theorem loopRun {table : MethodTable} {start proto last : RtmpProto} {first pb pb' : ReadBuffer}
    (fuel : Nat) {pacs : List Packet} (run : Run table start first proto pb)
    (loop : feedLoop table fuel proto pb = .ok (last, pacs, pb')) :
    Run table start first last pb' ∧ ¬ Goes pb' := by
  induction fuel generalizing proto pb pacs with
  | zero => contradiction
  | succ fuel ih =>
    by_cases goes : Goes pb
    · obtain ⟨next, rest, later, round, loop, _⟩ := loopRound table goes loop
      exact ih (.round run goes round) loop
    · rw [feedLoop, if_neg goes] at loop
      cases Except.ok.inj loop
      exact ⟨run, goes⟩

structure Settled (proto : RtmpProto) : Prop extends Steady proto where
  pkgSt : proto.pkgSt ≤ 3
  used : ∀ slot : Fin 64, (proto.channelsIn slot).used = true ↔ slot.val < 4
  capacity : proto.pkgSt ≤ 1 → (shakeBuffer proto).capacity = handshakeSize
  space : proto.pkgSt ≤ 1 → 0 < rtmpFwbGetSpace (shakeBuffer proto)
  ackBackLen : proto.pkgSt ≤ 2 → 0 < proto.ackBackLen

theorem settledInit : Settled rtmpProtoInit where
  state := rfl
  lastData := rfl
  readBuffer := List.length_replicate
  readChunkSize := rfl
  pkgSt := Nat.zero_le 3
  used slot := by
    rw [channelsInInit]
    dsimp only
    split
    · rename_i low
      exact iff_of_true rfl low
    · rename_i high
      exact iff_of_false Bool.false_ne_true high
  capacity _ := rfl
  space _ := by decide
  ackBackLen _ := by decide

theorem settledKept {proto proto' : RtmpProto} (settled : Settled proto)
    (kept : InputKept proto proto') : Settled proto' := by
  have shake : shakeBuffer proto' = shakeBuffer proto := by rw [shakeBuffer, kept.tmpBuf]; rfl
  constructor
  · exact ⟨kept.state.trans settled.state, kept.lastData.trans settled.lastData,
      (congrArg List.length kept.readBuffer).trans settled.readBuffer,
      kept.readChunkSize.trans settled.readChunkSize⟩
  all_goals simp only [kept.pkgSt, kept.channelsIn, kept.ackBackLen, shake]
  · exact settled.pkgSt
  · exact settled.used
  · exact settled.capacity
  · exact settled.space
  · exact settled.ackBackLen

theorem prepareNothing {proto : RtmpProto} (saved : proto.lastData = []) :
    rtmpProtoPrepareBuffer proto = (0, ((bufferSz : Nat) : Int), proto) := by
  simp only [rtmpProtoPrepareBuffer, putLastData, saved, storeNothing, List.length_nil]
  rw [← saved]
  rfl

theorem settledStored {proto : RtmpProto} (settled : Settled proto) (data : Bytes)
    (fits : data.length ≤ bufferSz) :
    Settled (stored proto data) ∧ storedBuffer proto data = rtmpRbInit data := by
  have saved := settled.lastData
  have block := storeAtStart proto.readBuffer data (by rw [settled.readBuffer]; exact fits)
  have same : stored proto data = fed proto data := by
    simp only [stored, prepareNothing saved, fed]
    rw [← saved]
  rw [storedBuffer, same]
  refine ⟨⟨⟨settled.state, rfl, block.2.trans settled.readBuffer, settled.readChunkSize⟩,
    settled.pkgSt, settled.used, settled.capacity, settled.space, settled.ackBackLen⟩, ?_⟩
  exact congrArg rtmpRbInit block.1

theorem settledAck {proto : RtmpProto} (steady : Steady proto) (phase : proto.pkgSt = 2)
    (used : ∀ slot : Fin 64, (proto.channelsIn slot).used = true ↔ slot.val < 4)
    (ackBackLen : 0 < proto.ackBackLen) : Settled proto :=
  ⟨steady, by omega, used, by omega, by omega, fun _ => ackBackLen⟩

theorem settledPackets {proto : RtmpProto} (steady : Steady proto) (phase : proto.pkgSt = 3)
    (used : ∀ slot : Fin 64, (proto.channelsIn slot).used = true ↔ slot.val < 4) : Settled proto :=
  ⟨steady, by omega, used, by omega, by omega, by omega⟩

theorem shakeKept {proto : RtmpProto} {tmpBuf : FixBuffer} (capacity : tmpBuf.capacity = handshakeSize) :
    shakeBuffer { proto with tmpBuf } = tmpBuf := by
  have some : ¬ tmpBuf.capacity = 0 := by rw [capacity]; decide
  exact if_neg some

section Steps
variable {table : MethodTable} {proto proto' : RtmpProto} {pb pb' : ReadBuffer}
  (settled : Settled proto)
include settled

theorem settledConnect (phase : proto.pkgSt = 0) (step : onConnect proto pb = .ok (proto', pb')) :
    Settled proto' := by
  have steady := (steadyConnect settled.toSteady step).1
  obtain ⟨_, _, rfl⟩ := connectStep step
  exact ⟨steady, by simp, settled.used, fun _ => settled.capacity (by omega),
    fun _ => settled.space (by omega), fun _ => settled.ackBackLen (by omega)⟩

theorem settledShake (phase : proto.pkgSt = 1) (step : onHandShake table proto pb = .ok (proto', pb')) :
    Settled proto' := by
  have steady := (steadyShake settled.toSteady step).1
  have capacity := settled.capacity (by omega)
  have ackBackLen := settled.ackBackLen (by omega)
  obtain ⟨_, tmpBuf, _, write, rfl | ⟨more, rfl⟩⟩ := shakeStep step
  · refine settledAck steady ?_ settled.used ackBackLen
    show proto.pkgSt + 1 = 2
    rw [phase]
  · have room := (fwbWriteCapacity write).trans capacity
    refine ⟨steady, settled.pkgSt, settled.used, fun _ => ?_, fun _ => ?_, fun _ => ackBackLen⟩
    · rw [shakeKept room]
      exact room
    · rw [shakeKept room]
      omega

theorem settledAckBack (phase : proto.pkgSt = 2) (step : onAckBack proto pb = .ok (proto', pb')) :
    Settled proto' := by
  have steady := (steadyAckBack settled.toSteady step).1
  obtain ⟨_, _, rfl | ⟨more, rfl⟩⟩ := ackStep step
  · refine settledPackets steady ?_ settled.used
    show proto.pkgSt + 1 = 3
    rw [phase]
  · exact settledAck steady phase settled.used more

theorem settledPacket (leaves : LeavesReader table) (phase : proto.pkgSt = 3) {pac : Packet}
    (step : feedPacket table proto pb = .ok (proto', pac, pb')) : Settled proto' := by
  have steady := (steadyPacket settled.toSteady leaves step).1
  have chunk := settled.readChunkSize
  obtain ⟨inside, returned, read, called, rfl⟩ := feedStep step
  obtain ⟨_, mask, slot, fields, channel, _, rfl, record, used, _⟩ :=
    getPacketOk settled.state (by omega) (by omega) read
  have kept := leaves called
  refine settledPackets steady (kept.pkgSt.trans phase) fun other => ?_
  have entry : returned.channelsIn = Function.update proto.channelsIn slot channel := kept.channelsIn
  show (returned.channelsIn other).used = true ↔ _
  rw [entry, ← settled.used other]
  rcases eq_or_ne other slot with rfl | apart
  · rw [Function.update_self, record, receivedUsed]
  · rw [Function.update_of_ne apart]

theorem settledRound (leaves : LeavesReader table) (round : Round table proto pb proto' pb') :
    Settled proto' ∧ pb'.needMore = pb.needMore := by
  cases round with
  | connect phase step => exact ⟨settledConnect settled phase step, (steadyConnect settled.toSteady step).2⟩
  | handShake phase step => exact ⟨settledShake settled phase step, (steadyShake settled.toSteady step).2⟩
  | ackBack phase step => exact ⟨settledAckBack settled phase step, (steadyAckBack settled.toSteady step).2⟩
  | packet pac phase step =>
    exact ⟨settledPacket settled leaves phase step, (steadyPacket settled.toSteady leaves step).2⟩

end Steps

theorem settledRun {table : MethodTable} (leaves : LeavesReader table) {start proto : RtmpProto}
    {first pb : ReadBuffer} (run : Run table start first proto pb) (settled : Settled start)
    (needs : first.needMore = 0) : Settled proto ∧ pb.needMore = 0 := by
  induction run with
  | start => exact ⟨settled, needs⟩
  | round before goes round ih =>
    obtain ⟨after, same⟩ := settledRound ih.1 leaves round
    exact ⟨after, same.trans ih.2⟩
  | @received _ saved pb data before left save some fits ih =>
    rw [saveNothing _ ih.2] at save
    cases Except.ok.inj save
    obtain ⟨after, buffer⟩ := settledStored ih.1 data (by omega)
    rw [buffer]
    exact ⟨after, rfl⟩
  | elsewhere before kept ih => exact ⟨settledKept ih.1 kept, ih.2⟩

theorem reachedSettled {table : MethodTable} (leaves : LeavesReader table) {proto : RtmpProto}
    (reached : Reached table proto) : Settled proto := by
  obtain ⟨pb, run⟩ := reached
  exact (settledRun leaves run settledInit rfl).1

theorem openingLoop {table : MethodTable} (writes : table.onWriteData = true) :
    ∃ opening fuel proto pb, opening ≠ [] ∧ opening.length ≤ bufferSz ∧
      feedLoop table fuel (stored rtmpProtoInit opening) (storedBuffer rtmpProtoInit opening) =
        .ok (proto, [], pb) ∧ proto.pkgSt = 3 ∧ proto.channelsIn = rtmpProtoInit.channelsIn := by
  have size : (clientOpening (List.replicate handshakeSize 0) (List.replicate handshakeSize 0)).length =
      openingSize := by
    simp only [clientOpening, openingSize, List.length_cons, List.length_append, List.length_replicate]
    omega
  have first : ∃ rest, clientOpening (List.replicate handshakeSize 0) (List.replicate handshakeSize 0) =
      3 :: rest := ⟨_, rfl⟩
  generalize clientOpening _ _ = opening at size first
  have some : opening ≠ [] := by
    obtain ⟨rest, rfl⟩ := first
    exact List.cons_ne_nil 3 rest
  have whole : openingSize ≤ bufferSz := by decide
  obtain ⟨settled, buffer⟩ := settledStored settledInit opening (by omega)
  have shaken : Shaken [] (stored rtmpProtoInit opening) :=
    ⟨rfl, rfl, rfl, rfl, rfl, rfl, settled.readBuffer, rfl⟩
  obtain ⟨proto, pb, loop, done, _⟩ := handshakeLoop writes first size (opening.length + 1) shaken
    (rtmpRbInit opening) (List.prefix_refl _) rfl (Nat.lt_succ_self _)
  rw [unreadInit, List.nil_append] at done
  rw [← buffer] at loop
  refine ⟨opening, _, proto, pb, some, by omega, loop, ?_, done.channelsIn⟩
  rw [done.pkgSt, stage, size]
  decide

theorem startLeft : ¬ Goes (rtmpRbInit []) := by simp [Goes, rtmpRbGetSpace, rtmpRbInit]

theorem openedRun {table : MethodTable} (writes : table.onWriteData = true) :
    ∃ proto pb, Run table rtmpProtoInit (rtmpRbInit []) proto pb ∧ ¬ Goes pb ∧ proto.pkgSt = 3 ∧
      proto.channelsIn = rtmpProtoInit.channelsIn := by
  obtain ⟨opening, fuel, proto, pb, some, fits, loop, phase, channels⟩ := openingLoop writes
  have room : rtmpProtoInit.lastData.length + opening.length ≤ bufferSz := by
    show 0 + opening.length ≤ bufferSz
    omega
  obtain ⟨after, left⟩ := loopRun _ (.received .start startLeft rfl some room) loop
  exact ⟨proto, pb, after, left, phase, channels⟩

theorem reachedOpened : ∃ proto, Reached bareTable proto ∧ proto.pkgSt = 3 ∧
    proto.channelsIn = rtmpProtoInit.channelsIn := by
  have writes : bareTable.onWriteData = true := rfl
  obtain ⟨proto, pb, run, _, phase, channels⟩ := openedRun writes
  exact ⟨proto, ⟨pb, run⟩, phase, channels⟩

theorem receivedRun {table : MethodTable} (leaves : LeavesReader table) {proto : RtmpProto}
    {pb : ReadBuffer} (run : Run table rtmpProtoInit (rtmpRbInit []) proto pb) (left : ¬ Goes pb)
    {data : Bytes} (some : data ≠ []) (fits : data.length ≤ bufferSz) :
    Run table rtmpProtoInit (rtmpRbInit []) (stored proto data) (rtmpRbInit data) := by
  obtain ⟨settled, needs⟩ := settledRun leaves run settledInit rfl
  have save := saveNothing proto needs
  have room : proto.lastData.length + data.length ≤ bufferSz := by
    rw [settled.lastData, List.length_nil]
    omega
  have after := Run.received run left save some room
  rw [(settledStored settled data fits).2] at after
  exact after

end Rushkit
