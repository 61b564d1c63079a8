import Rushkit.Feed

/-! The handshake as a function of the bytes received. Stage, collected bytes, countdown
and answer are those of the prefix, wherever the blocks were cut. -/
namespace Rushkit
open ReadBuffer

def openingSize : Nat := 1 + handshakeSize + handshakeSize

def stage (p : Bytes) : Nat :=
  if p.length = 0 then 0
  else if p.length < 1 + handshakeSize then 1
  else if p.length < openingSize then 2
  else 3

def collected (p : Bytes) : Bytes :=
  if p.length < 1 + handshakeSize then p.drop 1 else []

def collectedRoom (p : Bytes) : Nat :=
  if 2 ≤ p.length ∧ p.length < 1 + handshakeSize then handshakeSize else 0

def ackRemaining (p : Bytes) : Int :=
  if 1 + handshakeSize ≤ p.length ∧ p.length < openingSize then openingSize - p.length
  else handshakeSize

def answered (p : Bytes) : List Bytes :=
  if 1 + handshakeSize ≤ p.length then [handshakeAck, (p.drop 1).take handshakeSize] else []

structure Shaken (p : Bytes) (proto : RtmpProto) : Prop where
  pkgSt : proto.pkgSt = stage p
  content : proto.tmpBuf.content = collected p
  capacity : proto.tmpBuf.capacity = collectedRoom p
  ackBackLen : proto.ackBackLen = ackRemaining p
  written : proto.written = answered p
  lastData : proto.lastData = []
  readBuffer : proto.readBuffer.length = bufferSz
  channelsIn : proto.channelsIn = rtmpProtoInit.channelsIn

section Prefixes
variable {p : Bytes}

theorem stageShaking (some : 1 ≤ p.length) (within : p.length < 1 + handshakeSize) :
    stage p = 1 := by
  rw [stage, if_neg (by omega), if_pos within]

theorem stageAcking (shook : 1 + handshakeSize ≤ p.length) (within : p.length < openingSize) :
    stage p = 2 := by
  rw [stage, if_neg (by omega), if_neg (by omega), if_pos within]

theorem stageOpened (whole : openingSize ≤ p.length) : stage p = 3 := by
  have size : openingSize = 1 + handshakeSize + handshakeSize := rfl
  rw [stage, if_neg (by omega), if_neg (by omega), if_neg (by omega)]

theorem collectedShook (shook : 1 + handshakeSize ≤ p.length) : collected p = [] := by
  rw [collected, if_neg (by omega)]

theorem roomShook (shook : 1 + handshakeSize ≤ p.length) : collectedRoom p = 0 := by
  rw [collectedRoom, if_neg (by omega)]

theorem remainingShaking (within : p.length < 1 + handshakeSize) :
    ackRemaining p = handshakeSize := by
  rw [ackRemaining, if_neg (by omega)]

theorem remainingAcking (shook : 1 + handshakeSize ≤ p.length) (within : p.length < openingSize) :
    ackRemaining p = openingSize - p.length := by
  rw [ackRemaining, if_pos ⟨shook, within⟩]

theorem answeredShaking (within : p.length < 1 + handshakeSize) : answered p = [] := by
  rw [answered, if_neg (by omega)]

theorem answeredShook (shook : 1 + handshakeSize ≤ p.length) (taken : Bytes) :
    answered (p ++ taken) = answered p := by
  have later : 1 + handshakeSize ≤ (p ++ taken).length := by
    rw [List.length_append]
    omega
  have first : ((p ++ taken).drop 1).take handshakeSize = (p.drop 1).take handshakeSize := by
    rw [List.drop_append_of_le_length (by omega), List.take_append_of_le_length]
    rw [List.length_drop]
    omega
  rw [answered, answered, if_pos shook, if_pos later, first]

end Prefixes

theorem shakenInit : Shaken [] rtmpProtoInit :=
  ⟨rfl, rfl, rfl, rfl, rfl, rfl, List.length_replicate, rfl⟩

theorem handshakeAckBytes : handshakeAck = [3, 0, 0, 0, 1] ++ List.replicate 1532 0 := by
  unfold handshakeAck
  generalize List.replicate 1532 (0 : UInt8) = zeros
  rfl

section Rounds
variable {table : MethodTable} {p : Bytes} {proto : RtmpProto} (shaken : Shaken p proto)
  (pb : ReadBuffer)
include shaken

theorem connectRound (start : p = []) {rest : Bytes} (unread : pb.unread = 3 :: rest) :
    ∃ proto', onConnect proto pb = .ok (proto', pb.skip 1) ∧ Shaken [3] proto' := by
  subst start
  have read := readTake pb 1
  rw [Nat.cast_one, unread] at read
  refine ⟨{ proto with pkgSt := 1 }, ?_, ⟨rfl, shaken.content, shaken.capacity, shaken.ackBackLen,
    shaken.written, shaken.lastData, shaken.readBuffer, shaken.channelsIn⟩⟩
  rw [onConnect, read, Fallible.okBind]
  rfl

theorem shakeSpace (some : 1 ≤ p.length) (within : p.length < 1 + handshakeSize) :
    (shakeBuffer proto).content = p.drop 1 ∧ (shakeBuffer proto).capacity = handshakeSize ∧
      rtmpFwbGetSpace (shakeBuffer proto) = (1 + handshakeSize - p.length : Nat) := by
  have content := shaken.content
  have capacity := shaken.capacity
  unfold collected at content
  unfold collectedRoom at capacity
  rw [if_pos within] at content
  have fresh : (shakeBuffer proto).content = p.drop 1 ∧
      (shakeBuffer proto).capacity = handshakeSize := by
    unfold shakeBuffer
    split
    · rename_i empty
      split at capacity
      · rw [capacity] at empty
        contradiction
      · have one : p.length = 1 := by omega
        have none : p.drop 1 = [] := List.drop_eq_nil_of_le (by omega)
        rw [none]
        exact ⟨rfl, rfl⟩
    · rename_i filled
      split at capacity
      · exact ⟨content, capacity⟩
      · contradiction
  refine ⟨fresh.1, fresh.2, ?_⟩
  unfold rtmpFwbGetSpace
  rw [fresh.1, fresh.2, List.length_drop]
  omega

theorem shakeRound (writes : table.onWriteData = true) (some : 1 ≤ p.length)
    (within : p.length < 1 + handshakeSize) (more : pb.unread ≠ []) :
    ∃ proto', onHandShake table proto pb = .ok (proto', pb.skip (1 + handshakeSize - p.length)) ∧
      Shaken (p ++ pb.unread.take (1 + handshakeSize - p.length)) proto' := by
  obtain ⟨content, capacity, space⟩ := shakeSpace shaken some within
  have left := List.length_pos_of_ne_nil more
  have read := readTake pb (1 + handshakeSize - p.length)
  rw [← space] at read
  have size := List.length_take (i := 1 + handshakeSize - p.length) (l := pb.unread)
  generalize pb.unread.take (1 + handshakeSize - p.length) = taken at read size ⊢
  obtain ⟨filled, write, whole, fewer⟩ := fwbWriteRoom (shakeBuffer proto) taken (by omega)
  have room := (fwbWriteCapacity write).trans capacity
  have gathered : filled.content = (p ++ taken).drop 1 := by
    rw [whole, content, List.drop_append_of_le_length some]
  have total : (p ++ taken).length = p.length + taken.length := List.length_append
  have stageNow := shaken.pkgSt.trans (stageShaking some within)
  have answeredNow := shaken.written.trans (answeredShaking within)
  have remaining := shaken.ackBackLen.trans (remainingShaking within)
  have checked : check .onHandShake
      (proto.tmpBuf.capacity = 0 → (shakeBuffer proto).capacity = handshakeSize) = .ok () :=
    checkTrue fun _ => capacity
  simp only [onHandShake, checked, read, write, Fallible.okBind]
  split
  · rename_i full
    have complete : (p ++ taken).length = 1 + handshakeSize := by omega
    have shake : (rtmpFwbGetValue filled).length = handshakeSize := by
      unfold rtmpFwbGetValue
      rw [gathered, List.length_drop, complete]
      rfl
    rw [checkTrue shake, Fallible.okBind]
    have shook : 1 + handshakeSize ≤ (p ++ taken).length := Nat.le_of_eq complete.symm
    have before : (p ++ taken).length < openingSize := by
      unfold openingSize
      omega
    refine ⟨_, rfl, ⟨?_, (collectedShook shook).symm, (roomShook shook).symm, ?_, ?_,
      shaken.lastData, shaken.readBuffer, shaken.channelsIn⟩⟩
    · show proto.pkgSt + 1 = _
      rw [stageNow, stageAcking shook before]
    · refine remaining.trans ?_
      rw [remainingAcking shook before, complete]
      rfl
    · have first : filled.content.take handshakeSize = filled.content :=
        List.take_of_length_le (Nat.le_of_eq shake)
      rw [answered, if_pos (by omega), ← gathered, first]
      simp only [protoWriteData, writes, if_true, answeredNow]
      rfl
  · rename_i open'
    have short : (p ++ taken).length < 1 + handshakeSize := by omega
    refine ⟨_, rfl, ⟨?_, ?_, ?_, ?_, ?_, shaken.lastData, shaken.readBuffer, shaken.channelsIn⟩⟩
    · exact stageNow.trans (stageShaking (by omega) short).symm
    · rw [collected, if_pos short]
      exact gathered
    · rw [collectedRoom, if_pos ⟨by omega, short⟩]
      exact room
    · exact remaining.trans (remainingShaking short).symm
    · exact answeredNow.trans (answeredShaking short).symm

theorem ackRound (some : 1 + handshakeSize ≤ p.length) (within : p.length < openingSize)
    (more : pb.unread ≠ []) :
    ∃ proto', onAckBack proto pb = .ok (proto', pb.skip (openingSize - p.length)) ∧
      Shaken (p ++ pb.unread.take (openingSize - p.length)) proto' := by
  have left := List.length_pos_of_ne_nil more
  have countdown := shaken.ackBackLen.trans (remainingAcking some within)
  have stageNow := shaken.pkgSt.trans (stageAcking some within)
  have read := readTake pb (openingSize - p.length)
  rw [Nat.cast_sub (Nat.le_of_lt within), ← countdown] at read
  have size := List.length_take (i := openingSize - p.length) (l := pb.unread)
  generalize pb.unread.take (openingSize - p.length) = taken at read size ⊢
  have total : (p ++ taken).length = p.length + taken.length := List.length_append
  have shook : 1 + handshakeSize ≤ (p ++ taken).length := by omega
  -- Only the countdown, and at its end the stage, differ from the record before.
  have moved {next : RtmpProto} (kept : next = { proto with
      pkgSt := next.pkgSt, ackBackLen := next.ackBackLen })
      (stage' : next.pkgSt = stage (p ++ taken))
      (remaining : next.ackBackLen = ackRemaining (p ++ taken)) : Shaken (p ++ taken) next := by
    rw [kept]
    refine ⟨stage', ?_, ?_, remaining, ?_, shaken.lastData, shaken.readBuffer, shaken.channelsIn⟩
    · exact shaken.content.trans ((collectedShook some).trans (collectedShook shook).symm)
    · exact shaken.capacity.trans ((roomShook some).trans (roomShook shook).symm)
    · exact shaken.written.trans (answeredShook some taken).symm
  simp only [onAckBack, read, Fallible.okBind]
  split
  · rename_i done
    refine ⟨_, rfl, moved rfl ?_ ?_⟩
    · show proto.pkgSt + 1 = _
      rw [stageNow, stageOpened (by omega)]
    · rw [ackRemaining, if_neg (by omega)]
  · rename_i open'
    have before : (p ++ taken).length < openingSize := by omega
    refine ⟨_, rfl, moved rfl ?_ ?_⟩
    · exact stageNow.trans (stageAcking shook before).symm
    · rw [remainingAcking shook before]
      show proto.ackBackLen - _ = _
      omega

end Rounds

section Runs
variable {table : MethodTable} (writes : table.onWriteData = true) {opening : Bytes}
  (first : ∃ rest, opening = 3 :: rest) (size : opening.length = openingSize)
include writes first size

theorem handshakeLoop (fuel : Nat) {p : Bytes} {proto : RtmpProto} (shaken : Shaken p proto)
    (pb : ReadBuffer) (within : p ++ pb.unread <+: opening) (needs : pb.needMore = 0)
    (enough : pb.unread.length < fuel) :
    ∃ proto' pb', feedLoop table fuel proto pb = .ok (proto', [], pb') ∧
      Shaken (p ++ pb.unread) proto' ∧ pb'.needMore = 0 := by
  induction fuel generalizing p proto pb with
  | zero => omega
  | succ fuel ih =>
    have space := spaceUnread pb
    rcases eq_or_ne pb.unread [] with empty | more
    · refine ⟨proto, pb, ?_, by rw [empty, List.append_nil]; exact shaken, needs⟩
      rw [feedLoop, if_neg]
      rw [space, empty]
      exact fun h => absurd h.1 (by decide)
    have left := List.length_pos_of_ne_nil more
    have bound := within.length_le
    rw [List.length_append, size] at bound
    have test : 0 < rtmpRbGetSpace pb ∧ pb.needMore = 0 := ⟨by rw [space]; omega, needs⟩
    -- What is left of the round's goal once a stage has consumed `n` bytes.
    have continues (n : Nat) (positive : 1 ≤ n) {next : RtmpProto}
        (moved : Shaken (p ++ pb.unread.take n) next) :
        ∃ proto' pb', feedLoop table fuel next (pb.skip n) = .ok (proto', [], pb') ∧
          Shaken (p ++ pb.unread) proto' ∧ pb'.needMore = 0 := by
      have rest := unreadSkip pb n
      have joined : p ++ pb.unread.take n ++ (pb.skip n).unread = p ++ pb.unread := by
        rw [rest, List.append_assoc, List.take_append_drop]
      have fewer : (pb.skip n).unread.length < fuel := by
        rw [rest, List.length_drop]
        omega
      have later := ih moved (pb.skip n) (by rw [joined]; exact within) needs fewer
      rw [joined] at later
      exact later
    rw [feedLoop, if_pos test]
    rcases Nat.eq_zero_or_pos p.length with none | some
    · have start := List.eq_nil_of_length_eq_zero none
      subst start
      obtain ⟨rest, opens⟩ := first
      obtain ⟨tail, whole⟩ := within
      rw [List.nil_append, opens] at whole
      obtain ⟨s, unread⟩ : ∃ s, pb.unread = 3 :: s := by
        cases bytes : pb.unread with
        | nil => exact absurd bytes more
        | cons b s =>
          rw [bytes, List.cons_append, List.cons.injEq] at whole
          exact ⟨s, by rw [whole.1]⟩
      obtain ⟨next, round, moved⟩ := connectRound shaken pb rfl unread
      have one : ([] : Bytes) ++ pb.unread.take 1 = [3] := by rw [unread]; rfl
      rw [shaken.pkgSt]
      show ∃ proto' pb', (onConnect proto pb >>= fun r => feedLoop table fuel r.1 r.2) = _ ∧ _
      rw [round, Fallible.okBind]
      exact continues 1 (Nat.le_refl 1) (by rw [one]; exact moved)
    rcases Nat.lt_or_ge p.length (1 + handshakeSize) with shaking | shook
    · obtain ⟨next, round, moved⟩ := shakeRound shaken pb writes some shaking more
      have here : proto.pkgSt = 1 := by
        rw [shaken.pkgSt, stageShaking some shaking]
      rw [here]
      show ∃ proto' pb', (onHandShake table proto pb >>= fun r => feedLoop table fuel r.1 r.2) = _ ∧ _
      rw [round, Fallible.okBind]
      exact continues _ (by omega) moved
    · obtain ⟨next, round, moved⟩ := ackRound shaken pb shook (by omega) more
      have here : proto.pkgSt = 2 := by
        rw [shaken.pkgSt, stageAcking shook (by omega)]
      rw [here]
      show ∃ proto' pb', (onAckBack proto pb >>= fun r => feedLoop table fuel r.1 r.2) = _ ∧ _
      rw [round, Fallible.okBind]
      exact continues _ (by omega) moved

theorem handshakeData {p data : Bytes} {proto : RtmpProto} (shaken : Shaken p proto)
    (nonempty : data ≠ []) (within : p ++ data <+: opening) :
    ∃ proto', receiveData table proto data = .ok (proto', []) ∧ Shaken (p ++ data) proto' := by
  have left := List.length_pos_of_ne_nil nonempty
  have bound := within.length_le
  rw [List.length_append, size] at bound
  have fits : data.length ≤ bufferSz := by
    have whole : openingSize ≤ bufferSz := by decide
    omega
  have stored : Shaken p (fed proto data) := by
    refine ⟨shaken.pkgSt, shaken.content, shaken.capacity, shaken.ackBackLen, shaken.written, rfl, ?_,
      shaken.channelsIn⟩
    exact (storeAtStart proto.readBuffer data (by rw [shaken.readBuffer]; exact fits)).2.trans
      shaken.readBuffer
  obtain ⟨proto', pb', loop, moved, needs⟩ := handshakeLoop writes first size (2 * data.length + 2)
    stored (rtmpRbInit data) within rfl (by rw [unreadInit]; omega)
  refine ⟨proto', ?_, moved⟩
  rw [receiveDataFed table shaken.lastData shaken.readBuffer left fits, loop, Fallible.okBind]
  dsimp only
  rw [saveNothing _ needs, Fallible.okBind]

theorem handshakeRun (cuts : List Bytes) (nonempty : ∀ data ∈ cuts, data ≠ []) {p : Bytes}
    {proto : RtmpProto} (shaken : Shaken p proto) (within : p ++ cuts.flatten <+: opening) :
    ∃ proto', receiveAllData table proto cuts = .ok (proto', []) ∧
      Shaken (p ++ cuts.flatten) proto' := by
  induction cuts generalizing p proto with
  | nil => exact ⟨proto, rfl, by rw [List.flatten_nil, List.append_nil]; exact shaken⟩
  | cons data cuts ih =>
    rw [List.flatten_cons, ← List.append_assoc] at within
    have here : p ++ data <+: opening := (List.prefix_append _ _).trans within
    obtain ⟨next, received, moved⟩ :=
      handshakeData writes first size shaken (nonempty data List.mem_cons_self) here
    obtain ⟨proto', rest, done⟩ := ih (fun d h => nonempty d (List.mem_cons_of_mem data h)) moved within
    refine ⟨proto', ?_, by rw [List.flatten_cons, ← List.append_assoc]; exact done⟩
    simp only [receiveAllData, received, rest, Fallible.okBind, List.append_nil]

end Runs

def clientOpening (c1 c2 : Bytes) : Bytes := 3 :: (c1 ++ c2)

theorem handshake {table : MethodTable} (writes : table.onWriteData = true) {c1 c2 : Bytes}
    (size1 : c1.length = handshakeSize) (size2 : c2.length = handshakeSize) {cuts : List Bytes}
    (nonempty : ∀ data ∈ cuts, data ≠ []) (within : cuts.flatten <+: clientOpening c1 c2) :
    ∃ proto, receiveAllData table rtmpProtoInit cuts = .ok (proto, []) ∧
      proto.pkgSt = stage cuts.flatten ∧
      proto.tmpBuf.content = collected cuts.flatten ∧
      proto.ackBackLen = ackRemaining cuts.flatten ∧
      proto.written = (if cuts.flatten.length < 1537 then []
        else [[3, 0, 0, 0, 1] ++ List.replicate 1532 0, c1]) ∧
      (proto.pkgSt = 3 ↔ cuts.flatten.length = 3073) := by
  have size : (clientOpening c1 c2).length = openingSize := by
    unfold clientOpening openingSize
    rw [List.length_cons, List.length_append]
    omega
  obtain ⟨proto, received, shaken⟩ :=
    handshakeRun writes ⟨_, rfl⟩ size cuts nonempty shakenInit within
  rw [List.nil_append] at shaken
  refine ⟨proto, received, shaken.pkgSt, shaken.content, shaken.ackBackLen, ?_, ?_⟩
  · rw [shaken.written, answered]
    split
    · rename_i answering
      have echoed : (cuts.flatten.drop 1).take handshakeSize = c1 := by
        obtain ⟨rest, whole⟩ := within
        have same := congrArg (fun l => (l.drop 1).take handshakeSize) whole
        rw [List.drop_append_of_le_length (by omega), List.take_append_of_le_length (by
          rw [List.length_drop]; omega)] at same
        rw [same]
        unfold clientOpening
        rw [List.drop_succ_cons, List.drop_zero, ← size1, List.take_left]
      have late : ¬ cuts.flatten.length < 1537 := Nat.not_lt.mpr answering
      rw [if_neg late, echoed, handshakeAckBytes]
    · rename_i early
      have soon : cuts.flatten.length < 1537 := Nat.not_le.mp early
      rw [if_pos soon]
  · have bound := within.length_le
    rw [size] at bound
    rw [shaken.pkgSt, stage]
    unfold openingSize handshakeSize at *
    split
    · omega
    · split
      · omega
      · split <;> omega

-- The second block ends the client's first 1536 bytes and begins the others.
def threeBlocks : List Bytes := [3 :: List.replicate 1000 0, List.replicate 1000 0, List.replicate 1072 0]

theorem handshakeThreeBlocks : ∃ proto, receiveAllData bareTable rtmpProtoInit threeBlocks = .ok (proto, []) ∧
    proto.pkgSt = 3 ∧ proto.written = [[3, 0, 0, 0, 1] ++ List.replicate 1532 0, List.replicate 1536 0] := by
  have writes : bareTable.onWriteData = true := rfl
  have whole : threeBlocks.flatten = clientOpening (List.replicate 1536 0) (List.replicate 1536 0) := by
    simp only [threeBlocks, clientOpening, List.flatten_cons, List.flatten_nil, List.append_nil,
      List.cons_append, List.replicate_append_replicate]
  have total : threeBlocks.flatten.length = 3073 := by
    simp only [whole, clientOpening, List.length_cons, List.length_append, List.length_replicate]
  have nonempty : ∀ data ∈ threeBlocks, data ≠ [] := by
    intro data member
    simp only [threeBlocks, List.mem_cons, List.not_mem_nil, or_false] at member
    rcases member with rfl | rfl | rfl
    · exact List.cons_ne_nil _ _
    · exact List.ne_nil_of_length_eq_add_one List.length_replicate
    · exact List.ne_nil_of_length_eq_add_one List.length_replicate
  have size : (List.replicate 1536 (0 : UInt8)).length = handshakeSize := List.length_replicate
  have within : threeBlocks.flatten <+: clientOpening (List.replicate 1536 0) (List.replicate 1536 0) :=
    whole ▸ List.prefix_refl _
  obtain ⟨proto, received, _, _, _, answers, opened⟩ := handshake writes size size nonempty within
  rw [total, if_neg (by decide)] at answers
  exact ⟨proto, received, opened.mpr total, answers⟩

end Rushkit
