import Rushkit.Library.Restarting
import Rushkit.ReaderReturns

/-! `rtmp_proto_feed_data` and the bytes its feeds run the parser over, against the
grammar of what a feed takes in; and what a feed replays of bytes saved before it. -/
namespace Rushkit
open ReadBuffer Fallible

/- `len` starts as the length of `data`; `cap` is a `size_t` and positive where it is
compared with it. With the result come the buffers of the feeds, in order. -/
def feedDataLoop (table : MethodTable) (data : Bytes) :
    Nat → RtmpProto → Int → Res (RtmpProto × List Bytes)
  | 0, _, _ => .error .hang
  | fuel+1, proto, len =>
    if 0 < len then
      let (_, room, proto) := rtmpProtoPrepareBuffer proto
      let cap := if len < room then len else room
      if data.length < cap then .error .overRead
      else if proto.readBuffer.length < cap then .error .overWrite
      else do
        let proto := { proto with readBuffer := storeAt proto.readBuffer 0 (data.take cap.toNat) }
        let buffer := proto.readBuffer.take cap.toNat
        let (proto, _) ← rtmpProtoFeed table proto cap.toNat
        let (proto, buffers) ← feedDataLoop table data fuel proto (len - cap)
        .ok (proto, buffer :: buffers)
    else .ok (proto, [])

def rtmpProtoFeedData (table : MethodTable) (proto : RtmpProto) (data : Bytes) :
    Res (RtmpProto × List Bytes) :=
  feedDataLoop table data (data.length + 1) proto data.length

/- The bytes of one round of a feed, with what is left behind them and the record after
it: a piece or the rest of a handshake block, a complete message, or a header that is refused. -/
inductive Part (table : MethodTable) (proto : RtmpProto) : Bytes → Bytes → RtmpProto → Prop where
  | connect (rest : Bytes) (phase : proto.pkgSt = 0) :
      Part table proto (3 :: rest) rest { proto with pkgSt := 1 }
  | shaking {s : Bytes} {tmpBuf : FixBuffer} (phase : proto.pkgSt = 1)
      (short : proto.tmpBuf.content.length + s.length < handshakeSize)
      (content : tmpBuf.content = proto.tmpBuf.content ++ s) (capacity : tmpBuf.capacity = handshakeSize) :
      Part table proto s [] { proto with tmpBuf }
  | shaken {front : Bytes} (rest : Bytes) (phase : proto.pkgSt = 1)
      (whole : proto.tmpBuf.content.length + front.length = handshakeSize) :
      Part table proto (front ++ rest) rest
        { protoWriteData table (protoWriteData table proto handshakeAck) (proto.tmpBuf.content ++ front) with
          tmpBuf := rtmpFwbInit
          pkgSt := 2 }
  | acking {s : Bytes} (phase : proto.pkgSt = 2) (short : (s.length : Int) < proto.ackBackLen) :
      Part table proto s [] { proto with ackBackLen := proto.ackBackLen - s.length }
  | acked {front : Bytes} (rest : Bytes) (phase : proto.pkgSt = 2)
      (whole : (front.length : Int) = proto.ackBackLen) :
      Part table proto (front ++ rest) rest { proto with ackBackLen := handshakeSize, pkgSt := 3 }
  | message {slot : Fin 64} {channel : Channel} {data wire : Bytes} {dataBuffer : FixBuffer}
      {mid : RtmpProto} (rest : Bytes) (phase : proto.pkgSt = 3)
      (message : Message proto.readChunkSize proto.channelsIn slot channel data wire)
      (content : dataBuffer.content = data) (capacity : dataBuffer.capacity = channel.size.toNat)
      (called : deliver table (received proto slot channel 6 (headMask wire) dataBuffer)
        ⟨slot.val, channel, data⟩ = .ok mid) :
      Part table proto (wire ++ rest) rest (rtmpPacketReset mid)
  | refused {slot : Fin 64} {channel : Channel} {data s : Bytes} {mid : RtmpProto}
      (phase : proto.pkgSt = 3) (refused : Refused proto.channelsIn slot channel data s)
      (called : deliver table (parsingOn proto slot channel 4 (headMask s))
        ⟨slot.val, { channel with dataType := pacInvalid }, data⟩ = .ok mid) :
      Part table proto s [] (rtmpPacketReset mid)

inductive Takes (table : MethodTable) : RtmpProto → Bytes → RtmpProto → Prop where
  | nil (proto : RtmpProto) : Takes table proto [] proto
  | cons {proto mid proto' : RtmpProto} {s rest : Bytes} (some : s ≠ [])
      (part : Part table proto s rest mid) (later : Takes table mid rest proto') :
      Takes table proto s proto'

section Handshakes
variable {proto : RtmpProto} (settled : Settled proto)
include settled

theorem shakeCollected (phase : proto.pkgSt = 1) : (shakeBuffer proto).content = proto.tmpBuf.content ∧
    (shakeBuffer proto).capacity = handshakeSize ∧
    rtmpFwbGetSpace (shakeBuffer proto) = handshakeSize - proto.tmpBuf.content.length ∧
    proto.tmpBuf.content.length < handshakeSize := by
  have capacity := settled.capacity (Nat.le_of_eq phase)
  have space := settled.space (Nat.le_of_eq phase)
  have content : (shakeBuffer proto).content = proto.tmpBuf.content := by
    unfold shakeBuffer
    split
    · rename_i empty
      have fits := proto.tmpBuf.fits
      exact (List.eq_nil_of_length_eq_zero (by omega)).symm
    · rfl
  unfold rtmpFwbGetSpace at space ⊢
  rw [content, capacity] at space ⊢
  exact ⟨rfl, rfl, rfl, by omega⟩

theorem shakeRead (phase : proto.pkgSt = 1) (pb : ReadBuffer) : ∃ tmpBuf,
    rtmpRbRead pb (rtmpFwbGetSpace (shakeBuffer proto)) =
      .ok (pb.unread.take (handshakeSize - proto.tmpBuf.content.length),
        pb.skip (handshakeSize - proto.tmpBuf.content.length)) ∧
    rtmpFwbWrite (shakeBuffer proto) (pb.unread.take (handshakeSize - proto.tmpBuf.content.length)) = .ok tmpBuf ∧
    tmpBuf.content = proto.tmpBuf.content ++ pb.unread.take (handshakeSize - proto.tmpBuf.content.length) ∧
    tmpBuf.capacity = handshakeSize := by
  obtain ⟨content, capacity, space, room⟩ := shakeCollected settled phase
  have read := readTake pb (handshakeSize - proto.tmpBuf.content.length)
  rw [Nat.cast_sub (Nat.le_of_lt room), ← space] at read
  have taken := List.length_take_le (handshakeSize - proto.tmpBuf.content.length) pb.unread
  obtain ⟨tmpBuf, write, whole, _⟩ := fwbWriteRoom (shakeBuffer proto)
    (pb.unread.take (handshakeSize - proto.tmpBuf.content.length)) (by omega)
  exact ⟨tmpBuf, read, write, content ▸ whole, (fwbWriteCapacity write).trans capacity⟩

theorem shakingRound (table : MethodTable) {pb : ReadBuffer} (phase : proto.pkgSt = 1)
    (short : proto.tmpBuf.content.length + pb.unread.length < handshakeSize) : ∃ tmpBuf pb',
    onHandShake table proto pb = .ok ({ proto with tmpBuf }, pb') ∧ pb'.unread = [] ∧
    tmpBuf.content = proto.tmpBuf.content ++ pb.unread ∧ tmpBuf.capacity = handshakeSize := by
  obtain ⟨tmpBuf, read, write, content, capacity⟩ := shakeRead settled phase pb
  have all : pb.unread.take (handshakeSize - proto.tmpBuf.content.length) = pb.unread :=
    List.take_of_length_le (by omega)
  rw [all] at content
  have open' : ¬ rtmpFwbGetSpace tmpBuf ≤ 0 := by
    rw [rtmpFwbGetSpace, capacity, content, List.length_append]
    omega
  have checked : check .onHandShake (proto.tmpBuf.capacity = 0 → (shakeBuffer proto).capacity = handshakeSize) =
    .ok () := checkTrue fun _ => (shakeCollected settled phase).2.1
  refine ⟨tmpBuf, pb.skip (handshakeSize - proto.tmpBuf.content.length), ?_, ?_, content, capacity⟩
  · simp only [onHandShake, checked, read, write, okBind, if_neg open']
  · rw [unreadSkip, List.drop_eq_nil_of_le (by omega)]

theorem shakenRound {table : MethodTable} {pb : ReadBuffer} (phase : proto.pkgSt = 1) {front rest : Bytes}
    (unread : pb.unread = front ++ rest)
    (whole : proto.tmpBuf.content.length + front.length = handshakeSize) :
    onHandShake table proto pb =
      .ok ({ protoWriteData table (protoWriteData table proto handshakeAck) (proto.tmpBuf.content ++ front) with
        tmpBuf := rtmpFwbInit
        pkgSt := 2 }, pb.skip front.length) := by
  obtain ⟨tmpBuf, read, write, content, capacity⟩ := shakeRead settled phase pb
  have missing : handshakeSize - proto.tmpBuf.content.length = front.length := by omega
  rw [missing, unread, List.take_left] at read write content
  have full : rtmpFwbGetSpace tmpBuf ≤ 0 := by
    rw [rtmpFwbGetSpace, capacity, content, List.length_append]
    omega
  have value : rtmpFwbGetValue tmpBuf = proto.tmpBuf.content ++ front := content
  have size : (rtmpFwbGetValue tmpBuf).length = handshakeSize := by rw [value, List.length_append, whole]
  have checked : check .onHandShake (proto.tmpBuf.capacity = 0 → (shakeBuffer proto).capacity = handshakeSize) =
    .ok () := checkTrue fun _ => (shakeCollected settled phase).2.1
  have next : (protoWriteData table (protoWriteData table proto handshakeAck) (rtmpFwbGetValue tmpBuf)).pkgSt + 1 = 2 :=
    congrArg (· + 1) phase
  simp only [onHandShake, checked, read, write, okBind, if_pos full, checkTrue size]
  rw [next, value]

omit settled in
theorem ackingRound {pb : ReadBuffer} (short : (pb.unread.length : Int) < proto.ackBackLen) : ∃ pb',
    onAckBack proto pb = .ok ({ proto with ackBackLen := proto.ackBackLen - pb.unread.length }, pb') ∧
    pb'.unread = [] := by
  obtain ⟨n, count⟩ := Int.eq_ofNat_of_zero_le (show 0 ≤ proto.ackBackLen by omega)
  have read := readTake pb n
  rw [← count, List.take_of_length_le (by omega)] at read
  refine ⟨pb.skip n, ?_, by rw [unreadSkip, List.drop_eq_nil_of_le (by omega)]⟩
  simp only [onAckBack, read, okBind]
  rw [if_neg (by omega)]

omit settled in
theorem ackedRound {pb : ReadBuffer} (phase : proto.pkgSt = 2) {front rest : Bytes} (unread : pb.unread = front ++ rest)
    (whole : (front.length : Int) = proto.ackBackLen) : onAckBack proto pb =
      .ok ({ proto with ackBackLen := handshakeSize, pkgSt := 3 }, pb.skip front.length) := by
  have read := readTake pb front.length
  rw [unread, List.take_left, whole] at read
  simp only [onAckBack, read, okBind]
  rw [if_pos (by omega), phase]

end Handshakes

section Rounds
variable {table : MethodTable} {proto : RtmpProto} (settled : Settled proto)
include settled

theorem roundPart {proto' : RtmpProto} {pb pb' : ReadBuffer} (some : pb.unread ≠ [])
    (round : Round table proto pb proto' pb') : Part table proto pb.unread pb'.unread proto' := by
  have chunk := settled.readChunkSize
  cases round with
  | connect phase step =>
    rcases unread : pb.unread with _ | ⟨first, rest⟩
    · exact absurd unread some
    have read := readTake pb 1
    rw [Nat.cast_one, unread] at read
    simp only [onConnect, read, okBind, bindOk] at step
    obtain ⟨_, three, last⟩ := step
    cases last
    have opens : first = 3 := checkHolds three
    rw [unreadSkip, unread, opens]
    exact .connect rest phase
  | handShake phase step =>
    obtain ⟨_, _, _, room⟩ := shakeCollected settled phase
    rcases prefixSplit (handshakeSize - proto.tmpBuf.content.length) pb.unread with
      short | ⟨front, rest, size, unread⟩
    · obtain ⟨tmpBuf, q, step', done, content, capacity⟩ :=
        shakingRound settled table phase (show _ + pb.unread.length < _ by omega)
      rw [step] at step'
      cases step'
      rw [done]
      exact .shaking phase (by omega) content capacity
    · have whole : proto.tmpBuf.content.length + front.length = handshakeSize := by omega
      rw [shakenRound settled phase unread whole] at step
      cases step
      rw [unreadSkipAppend pb unread, unread]
      exact .shaken rest phase whole
  | ackBack phase step =>
    have positive := settled.ackBackLen (Nat.le_of_eq phase)
    rcases prefixSplit proto.ackBackLen.toNat pb.unread with short | ⟨front, rest, size, unread⟩
    · have fewer : (pb.unread.length : Int) < proto.ackBackLen := by omega
      obtain ⟨q, step', done⟩ := ackingRound fewer
      rw [step] at step'
      cases step'
      rw [done]
      exact .acking phase fewer
    · have whole : (front.length : Int) = proto.ackBackLen := by omega
      rw [ackedRound phase unread whole] at step
      cases step
      rw [unreadSkipAppend pb unread, unread]
      exact .acked rest phase whole
  | packet pac phase step =>
    simp only [feedPacket, bindOk] at step
    obtain ⟨⟨got, inside, after⟩, read, mid, called, last⟩ := step
    cases last
    have positive : 1 ≤ proto.readChunkSize := by omega
    have fits : proto.readChunkSize + 1 < 2147483648 := by omega
    rcases (getPacketComplete settled.state positive fits pb).mp ⟨_, read⟩ with
      ⟨slot, channel, data, refused⟩ | ⟨slot, channel, data, wire, rest, message, unread⟩
    · obtain ⟨_, _, read'⟩ := getPacketRefused settled.state refused rfl
      rw [read] at read'
      cases read'
      rw [unreadSkip, List.drop_length]
      exact .refused phase refused called
    · obtain ⟨_, dataBuffer, _, content, capacity, read'⟩ :=
        getPacketMessage settled.state fits message unread
      rw [read] at read'
      cases read'
      rw [unread, headMaskAppend (messageNonempty message)] at called
      rw [unreadSkipAppend pb unread, unread]
      exact .message rest phase message content capacity called

theorem partRound {s rest : Bytes} {mid : RtmpProto} (part : Part table proto s rest mid)
    {pb : ReadBuffer} (unread : pb.unread = s) :
    ∃ pb', Round table proto pb mid pb' ∧ pb'.unread = rest := by
  have chunk := settled.readChunkSize
  cases part with
  | connect rest phase =>
    have read := readTake pb 1
    rw [Nat.cast_one, unread] at read
    refine ⟨pb.skip 1, .connect phase ?_, by rw [unreadSkip, unread]; rfl⟩
    rw [onConnect, read, okBind]
    rfl
  | @shaking _ tmpBuf phase short content capacity =>
    rw [← unread] at short content
    obtain ⟨other, pb', step, done, content', capacity'⟩ := shakingRound settled table phase short
    cases fixBufferSame (content'.trans content.symm) (capacity'.trans capacity.symm)
    exact ⟨pb', .handShake phase step, done⟩
  | shaken rest phase whole =>
    exact ⟨_, .handShake phase (shakenRound settled phase unread whole), unreadSkipAppend pb unread⟩
  | acking phase short =>
    rw [← unread] at short ⊢
    obtain ⟨pb', step, done⟩ := ackingRound short
    exact ⟨pb', .ackBack phase step, done⟩
  | acked rest phase whole =>
    exact ⟨_, .ackBack phase (ackedRound phase unread whole), unreadSkipAppend pb unread⟩
  | @message slot channel data wire dataBuffer mid rest phase message content capacity called =>
    obtain ⟨_, other, _, content', capacity', read⟩ :=
      getPacketMessage settled.state (by omega) message unread
    have same := fixBufferSame (content'.trans content.symm) (capacity'.trans capacity.symm)
    rw [unread, headMaskAppend (messageNonempty message), same] at read
    have step : feedPacket table proto pb =
        .ok (rtmpPacketReset mid, ⟨slot.val, channel, data⟩, pb.skip wire.length) := by
      simp only [feedPacket, read, okBind, called]
    exact ⟨_, .packet _ phase step, unreadSkipAppend pb unread⟩
  | @refused slot channel data s mid phase refused called =>
    obtain ⟨_, _, read⟩ := getPacketRefused settled.state refused unread
    have step : feedPacket table proto pb = .ok (rtmpPacketReset mid,
        ⟨slot.val, { channel with dataType := pacInvalid }, data⟩, pb.skip s.length) := by
      simp only [feedPacket, read, okBind, called]
    exact ⟨_, .packet _ phase step, by rw [unreadSkip, unread, List.drop_length]⟩

theorem partShorter {s rest : Bytes} {mid : RtmpProto} (some : s ≠ [])
    (part : Part table proto s rest mid) : rest.length < s.length := by
  have left := List.length_pos_of_ne_nil some
  cases part with
  | connect rest phase => simp
  | shaking phase short content capacity => simpa using left
  | shaken rest phase whole =>
    have room := (shakeCollected settled phase).2.2.2
    simp only [List.length_append]
    omega
  | acking phase short => simpa using left
  | acked rest phase whole =>
    have positive := settled.ackBackLen (Nat.le_of_eq phase)
    simp only [List.length_append]
    omega
  | message rest phase message =>
    have := messageNonempty message
    simp only [List.length_append]
    omega
  | refused phase refused called => simpa using left

end Rounds

section Feeds
variable {table : MethodTable} (leaves : LeavesReader table)
include leaves

theorem loopTakes (fuel : Nat) {proto proto' : RtmpProto} {pb pb' : ReadBuffer} {pacs : List Packet}
    (settled : Settled proto) (needs : pb.needMore = 0)
    (loop : feedLoop table fuel proto pb = .ok (proto', pacs, pb')) :
    Takes table proto pb.unread proto' := by
  induction fuel generalizing proto pb pacs with
  | zero => cases loop
  | succ fuel ih =>
    rcases eq_or_ne pb.unread [] with empty | some
    · rw [feedLoopEnd empty] at loop
      cases loop
      rw [empty]
      exact .nil _
    have goes : Goes pb := by
      refine ⟨?_, needs⟩
      rw [spaceUnread]
      exact Int.natCast_pos.mpr (List.length_pos_of_ne_nil some)
    obtain ⟨next, rest, later, round, loop, _⟩ := loopRound table goes loop
    obtain ⟨ready, still⟩ := settledRound settled leaves round
    exact .cons some (roundPart settled some round) (ih ready (still.trans needs) loop)

theorem takesLoop {proto proto' : RtmpProto} {s : Bytes} (takes : Takes table proto s proto')
    (settled : Settled proto) {pb : ReadBuffer} (unread : pb.unread = s) (needs : pb.needMore = 0)
    (fuel : Nat) (enough : s.length < fuel) :
    ∃ pacs pb', feedLoop table fuel proto pb = .ok (proto', pacs, pb') ∧ pb'.needMore = 0 := by
  induction takes generalizing pb fuel with
  | nil proto =>
    obtain ⟨fuel, rfl⟩ : ∃ n, fuel = n + 1 := ⟨fuel - 1, by omega⟩
    exact ⟨[], pb, feedLoopEnd unread fuel, needs⟩
  | @cons proto mid proto' s rest some part later ih =>
    obtain ⟨fuel, rfl⟩ : ∃ n, fuel = n + 1 := ⟨fuel - 1, by omega⟩
    have shorter := partShorter settled some part
    obtain ⟨q, round, left⟩ := partRound settled part unread
    obtain ⟨ready, still⟩ := settledRound settled leaves round
    obtain ⟨pacs, pb', loop, done⟩ := ih ready left (still.trans needs) fuel (by omega)
    have goes : Goes pb := by
      refine ⟨?_, needs⟩
      rw [spaceUnread, unread]
      exact Int.natCast_pos.mpr (List.length_pos_of_ne_nil some)
    obtain ⟨early, same⟩ := roundLoop table goes round fuel
    refine ⟨early ++ pacs, pb', ?_, done⟩
    rw [same, loop, okBind]

theorem settledLoop {proto proto' : RtmpProto} {pb pb' : ReadBuffer} {pacs : List Packet} {fuel : Nat}
    (settled : Settled proto) (needs : pb.needMore = 0)
    (loop : feedLoop table fuel proto pb = .ok (proto', pacs, pb')) :
    Settled proto' ∧ pb'.needMore = 0 :=
  settledRun leaves (loopRun fuel .start loop).1 settled needs

theorem takesSettled {proto proto' : RtmpProto} {s : Bytes} (takes : Takes table proto s proto')
    (settled : Settled proto) : Settled proto' := by
  induction takes with
  | nil => exact settled
  | cons some part later ih =>
    obtain ⟨_, round, _⟩ := partRound settled part (unreadInit _)
    exact ih (settledRound settled leaves round).1

theorem feedTakes {proto proto' : RtmpProto} (settled : Settled proto) {data : Bytes}
    (fits : data.length ≤ bufferSz) :
    (∃ pacs, rtmpProtoFeed table { proto with readBuffer := storeAt proto.readBuffer 0 data }
      data.length = .ok (proto', pacs)) ↔ Takes table (stored proto data) data proto' := by
  have block := storeAtStart proto.readBuffer data (by rw [settled.readBuffer]; exact fits)
  have within : data.length ≤ (storeAt proto.readBuffer 0 data).length := by
    rw [block.2, settled.readBuffer]
    exact fits
  have ready := (settledStored settled data fits).1
  have start : stored proto data = { proto with
      readBuffer := storeAt proto.readBuffer 0 data
      numUpBytes := int32 (proto.numUpBytes + data.length) } := by
    simp only [stored, prepareNothing settled.lastData]
  rw [start] at ready ⊢
  simp only [rtmpProtoFeed, if_pos within, block.1]
  constructor
  · rintro ⟨pacs, feed⟩
    simp only [bindOk] at feed
    obtain ⟨⟨last, later, pb'⟩, loop, saved, save, same⟩ := feed
    have needs := (settledLoop leaves ready rfl loop).2
    rw [saveNothing _ needs] at save
    cases save
    cases same
    exact loopTakes leaves _ ready rfl loop
  · intro takes
    obtain ⟨pacs, pb', loop, needs⟩ := takesLoop leaves takes ready (unreadInit data) rfl
      (2 * data.length + 2) (by omega)
    refine ⟨pacs, ?_⟩
    simp only [loop, okBind]
    rw [saveNothing _ needs, okBind]

inductive TakesAll (table : MethodTable) : RtmpProto → List Bytes → RtmpProto → Prop where
  | nil (proto : RtmpProto) : TakesAll table proto [] proto
  | cons {proto mid proto' : RtmpProto} {block : Bytes} {rest : List Bytes}
      (takes : Takes table (stored proto block) block mid) (later : TakesAll table mid rest proto') :
      TakesAll table proto (block :: rest) proto'

omit leaves in
theorem feedDataRound {proto : RtmpProto} (settled : Settled proto) {data : Bytes} {n : Nat}
    (some : 0 < n) (within : n ≤ data.length) (fuel : Nat) :
    feedDataLoop table data (fuel + 1) proto n =
      (rtmpProtoFeed table { proto with
        readBuffer := storeAt proto.readBuffer 0 (data.take (min n bufferSz)) }
        (data.take (min n bufferSz)).length >>= fun r =>
      feedDataLoop table data fuel r.1 ((n - min n bufferSz : Nat) : Int) >>= fun r =>
        .ok (r.1, data.take (min n bufferSz) :: r.2)) := by
  have size : (data.take (min n bufferSz)).length = min n bufferSz := by rw [List.length_take]; omega
  have block := storeAtStart proto.readBuffer (data.take (min n bufferSz))
    (by rw [settled.readBuffer, size]; omega)
  have room : (if (n : Int) < ((bufferSz : Nat) : Int) then (n : Int) else ((bufferSz : Nat) : Int)) =
      ((min n bufferSz : Nat) : Int) := by
    split <;> omega
  have left : (n : Int) - ((min n bufferSz : Nat) : Int) = ((n - min n bufferSz : Nat) : Int) := by omega
  rw [size] at block ⊢
  rw [feedDataLoop, if_pos (by omega), prepareNothing settled.lastData]
  simp only [room, left, Int.toNat_natCast, block.1]
  rw [if_neg (by omega), if_neg (by rw [settled.readBuffer]; omega)]

theorem feedDataTakes {proto proto' : RtmpProto} (settled : Settled proto) {data : Bytes} (fuel : Nat)
    {n : Nat} (within : n ≤ data.length) (enough : n < fuel) {buffers : List Bytes} :
    feedDataLoop table data fuel proto n = .ok (proto', buffers) ↔
      TakesAll table proto (Restarting.blocks bufferSz data fuel n) proto' ∧
        buffers = Restarting.blocks bufferSz data fuel n := by
  induction fuel generalizing proto n buffers with
  | zero => omega
  | succ fuel ih =>
    rcases Nat.eq_zero_or_pos n with rfl | some
    · rw [feedDataLoop, if_neg (by decide), Restarting.blocks, if_neg (Nat.lt_irrefl 0)]
      constructor
      · intro same
        cases same
        exact ⟨.nil _, rfl⟩
      · rintro ⟨takes, rfl⟩
        cases takes
        rfl
    have positive : 1 ≤ min n bufferSz := Nat.le_min.mpr ⟨some, by decide⟩
    have fits : (data.take (min n bufferSz)).length ≤ bufferSz := by
      rw [List.length_take]
      omega
    have fewer : n - min n bufferSz ≤ data.length := by omega
    have shorter : n - min n bufferSz < fuel := by omega
    have next {mid : RtmpProto} (takes : Takes table (stored proto (data.take (min n bufferSz)))
        (data.take (min n bufferSz)) mid) : Settled mid :=
      takesSettled leaves takes (settledStored settled _ fits).1
    rw [feedDataRound settled some within, Restarting.blocks, if_pos some]
    simp only [bindOk]
    constructor
    · rintro ⟨⟨mid, pacs⟩, feed, ⟨last, later⟩, loop, same⟩
      have takes := (feedTakes leaves settled fits).mp ⟨pacs, feed⟩
      cases same
      obtain ⟨all, rfl⟩ := (ih (next takes) fewer shorter).mp loop
      exact ⟨.cons takes all, rfl⟩
    · rintro ⟨all, rfl⟩
      cases all with
      | @cons _ mid _ _ _ takes all =>
        obtain ⟨pacs, feed⟩ := (feedTakes leaves settled fits).mpr takes
        exact ⟨_, feed, _, (ih (next takes) fewer shorter).mpr ⟨all, rfl⟩, rfl⟩

end Feeds

-- The blocks that are fed of `data`: each is taken from its start.
def fedBlocks (data : Bytes) : List Bytes := Restarting.blocks bufferSz data (data.length + 1) data.length

theorem feedDataFed {table : MethodTable} (leaves : LeavesReader table) {proto proto' : RtmpProto}
    (settled : Settled proto) (data : Bytes) {buffers : List Bytes} :
    rtmpProtoFeedData table proto data = .ok (proto', buffers) ↔
      TakesAll table proto (fedBlocks data) proto' ∧ buffers = fedBlocks data :=
  feedDataTakes leaves settled (data.length + 1) (Nat.le_refl _) (Nat.lt_succ_self _)

theorem feedDataDelivers {table : MethodTable} (leaves : LeavesReader table) {proto : RtmpProto}
    (reached : Reached table proto) (data : Bytes) :
    (∃ proto' buffers, rtmpProtoFeedData table proto data = .ok (proto', buffers) ∧
      buffers.flatten = data) ↔
    (∃ proto', TakesAll table proto (fedBlocks data) proto') ∧ data.drop bufferSz <+: data := by
  have settled := reachedSettled leaves reached
  have positive : 1 ≤ bufferSz := by decide
  have whole := Restarting.blocksWhole positive (Nat.le_succ data.length)
  constructor
  · rintro ⟨proto', buffers, fed, same⟩
    obtain ⟨all, rfl⟩ := (feedDataFed leaves settled data).mp fed
    exact ⟨⟨proto', all⟩, whole.mp same⟩
  · rintro ⟨⟨proto', all⟩, period⟩
    exact ⟨proto', _, (feedDataFed leaves settled data).mpr ⟨all, rfl⟩, whole.mpr period⟩

def swallowing : Bytes := [2, 0, 0, 0, 0, 128, 0, 4, 0, 0, 0, 0]

theorem swallowed {proto : RtmpProto} (settled : Settled proto) (phase : proto.pkgSt = 3) (rest : Bytes) :
    ∃ mid, Takes bareTable proto (swallowing ++ rest) mid ∧ Settled mid ∧ mid.pkgSt = 3 := by
  have used : (proto.channelsIn 2).used = true := (settled.used 2).mpr (by decide)
  have header := newHead (Nat.le_refl 2) used [0, 0, 0, 0, 128, 0, 4, 0, 0, 0, 0] rfl
  have refused := Refused.mk rest header (Int.le_refl 32768)
  have takes : Takes bareTable proto (swallowing ++ rest) _ :=
    .cons (List.cons_ne_nil 2 _) (.refused phase refused rfl) (.nil _)
  exact ⟨_, takes, takesSettled barePassive.kept takes settled, phase⟩

def firstBlock : Bytes := swallowing ++ List.replicate 8180 0

theorem firstBlockSize : firstBlock.length = bufferSz := by
  rw [firstBlock, List.length_append, List.length_replicate]
  rfl

theorem twoBlocksFed {second : Bytes} (size : second.length = bufferSz) :
    fedBlocks (firstBlock ++ second) = [firstBlock, firstBlock] := by
  have total : (firstBlock ++ second).length = bufferSz + bufferSz := by
    rw [List.length_append, firstBlockSize, size]
  have first : (firstBlock ++ second).take bufferSz = firstBlock := by rw [← firstBlockSize, List.take_left]
  have some : 0 < bufferSz := by decide
  obtain ⟨fuel, enough⟩ : ∃ n, bufferSz + bufferSz + 1 = n + 3 := ⟨16382, by decide⟩
  rw [fedBlocks, total, enough]
  generalize bufferSz = c at *
  simp only [Restarting.blocks, Nat.min_eq_right (Nat.le_add_right c c), Nat.add_sub_cancel, first,
    Nat.min_self, Nat.sub_self, if_pos some, if_pos (Nat.add_pos_left some c), if_neg (Nat.lt_irrefl 0)]

theorem twoBlocksTaken {proto : RtmpProto} (settled : Settled proto) (phase : proto.pkgSt = 3) :
    ∃ last, TakesAll bareTable proto [firstBlock, firstBlock] last := by
  have takes {proto : RtmpProto} (settled : Settled proto) (phase : proto.pkgSt = 3) :=
    swallowed (settledStored settled firstBlock (Nat.le_of_eq firstBlockSize)).1 phase (List.replicate 8180 0)
  obtain ⟨mid, first, ready, still⟩ := takes settled phase
  obtain ⟨last, second, _⟩ := takes ready still
  exact ⟨last, .cons first (.cons second (.nil last))⟩

theorem repeatedBlock : ∃ proto, Reached bareTable proto ∧ proto.pkgSt = 3 ∧ ∃ proto' buffers,
    rtmpProtoFeedData bareTable proto (firstBlock ++ firstBlock) = .ok (proto', buffers) ∧
      buffers.flatten = firstBlock ++ firstBlock := by
  obtain ⟨proto, reached, phase, _⟩ := reachedOpened
  obtain ⟨last, taken⟩ := twoBlocksTaken (reachedSettled barePassive.kept reached) phase
  have period : (firstBlock ++ firstBlock).drop bufferSz = firstBlock := by rw [← firstBlockSize, List.drop_left]
  refine ⟨proto, reached, phase, (feedDataDelivers barePassive.kept reached (firstBlock ++ firstBlock)).mpr ?_⟩
  rw [twoBlocksFed firstBlockSize, period]
  exact ⟨⟨last, taken⟩, List.prefix_append firstBlock firstBlock⟩

def twoBlocks : Bytes := firstBlock ++ List.replicate 8192 1

theorem secondBlockLost : ∃ proto, Reached bareTable proto ∧ proto.pkgSt = 3 ∧ ∃ proto' buffers,
    rtmpProtoFeedData bareTable proto twoBlocks = .ok (proto', buffers) ∧
      buffers.flatten ≠ twoBlocks := by
  obtain ⟨proto, reached, phase, _⟩ := reachedOpened
  have settled := reachedSettled barePassive.kept reached
  obtain ⟨last, taken⟩ := twoBlocksTaken settled phase
  have blocks : fedBlocks twoBlocks = [firstBlock, firstBlock] := twoBlocksFed List.length_replicate
  rw [← blocks] at taken
  refine ⟨proto, reached, phase, last, _,
    (feedDataFed barePassive.kept settled twoBlocks).mpr ⟨taken, rfl⟩, fun whole => ?_⟩
  rw [blocks, twoBlocks, List.flatten_cons, List.flatten_cons, List.flatten_nil, List.append_nil] at whole
  have heads : 2 :: (swallowing.tail ++ List.replicate 8180 0) = 1 :: List.replicate 8191 1 :=
    List.append_cancel_left whole
  cases (List.cons.inj heads).1

inductive Rounds (table : MethodTable) (start : RtmpProto) (first : ReadBuffer) :
    RtmpProto → ReadBuffer → Prop where
  | start : Rounds table start first start first
  | round {proto proto' : RtmpProto} {pb pb' : ReadBuffer}
      (before : Rounds table start first proto pb) (goes : Goes pb)
      (round : Round table proto pb proto' pb') : Rounds table start first proto' pb'

theorem roundLastData {table : MethodTable} (leaves : LeavesReader table) {proto proto' : RtmpProto}
    {pb pb' : ReadBuffer} (round : Round table proto pb proto' pb') : proto'.lastData = proto.lastData := by
  cases round with
  | connect phase step =>
    simp only [onConnect, bindOk] at step
    obtain ⟨_, _, _, _, last⟩ := step
    cases last
    rfl
  | handShake phase step =>
    simp only [onHandShake, bindOk] at step
    obtain ⟨_, _, _, _, _, _, step⟩ := step
    split at step
    · simp only [bindOk] at step
      obtain ⟨_, _, last⟩ := step
      cases last
      rfl
    · cases step
      rfl
  | ackBack phase step =>
    simp only [onAckBack, bindOk] at step
    obtain ⟨_, _, step⟩ := step
    split at step <;> cases step <;> rfl
  | packet pac phase step =>
    simp only [feedPacket, bindOk] at step
    obtain ⟨⟨got, inside, after⟩, read, mid, called, last⟩ := step
    cases last
    have kept := (leaves called).lastData
    rw [(getPacketParsed read).frame] at kept
    exact kept

theorem storedReplay {proto : RtmpProto} {data : Bytes} (block : proto.readBuffer.length = bufferSz)
    (fits : proto.lastData.length + data.length ≤ bufferSz) :
    (storedBuffer proto data).buf = (proto.lastData ++ data).take data.length := by
  have saved := storeAtStart proto.readBuffer proto.lastData (by omega)
  show (storeAt (storeAt proto.readBuffer 0 proto.lastData) proto.lastData.length data).take data.length = _
  rw [storeAt, saved.1, List.take_append_of_le_length]
  rw [List.length_append]
  exact Nat.le_add_left _ _

theorem leftoverReplayed {table : MethodTable} (leaves : LeavesReader table) {proto : RtmpProto}
    (block : proto.readBuffer.length = bufferSz) {data : Bytes}
    (fits : proto.lastData.length + data.length ≤ bufferSz) :
    ((storedBuffer proto data).buf = proto.lastData ++ data ∧ ∀ {proto' pb'},
      Rounds table (stored proto data) (storedBuffer proto data) proto' pb' → proto'.lastData = []) ↔
    proto.lastData = [] := by
  have buffer := storedReplay block fits
  constructor
  · rintro ⟨whole, _⟩
    have sizes := congrArg List.length (buffer.symm.trans whole)
    rw [List.length_take, List.length_append] at sizes
    exact List.eq_nil_of_length_eq_zero (by omega)
  · intro none
    rw [buffer, none, List.nil_append, List.take_length]
    refine ⟨rfl, fun rounds => ?_⟩
    induction rounds with
    | start => rfl
    | round before goes round ih => exact (roundLastData leaves round).trans ih

theorem leftoverNone : ∃ proto, Reached bareTable proto ∧ proto.pkgSt = 3 ∧
    (storedBuffer proto (pingWire ++ pingWire)).buf = proto.lastData ++ (pingWire ++ pingWire) ∧
    ∀ {proto' pb'}, Rounds bareTable (stored proto (pingWire ++ pingWire))
      (storedBuffer proto (pingWire ++ pingWire)) proto' pb' → proto'.lastData = [] := by
  obtain ⟨proto, reached, phase, _⟩ := reachedOpened
  have settled := reachedSettled barePassive.kept reached
  have saved : proto.lastData.length = 0 := by rw [settled.lastData, List.length_nil]
  have fits : proto.lastData.length + (pingWire ++ pingWire).length ≤ bufferSz := by
    rw [saved]
    decide
  exact ⟨proto, reached, phase, (leftoverReplayed barePassive.kept settled.readBuffer fits).mpr settled.lastData⟩

def savedByte : RtmpProto := { rtmpProtoInit with pkgSt := 3, lastData := [2] }

theorem leftoverLost : savedByte.lastData.length ≤ 128 ∧
    (storedBuffer savedByte pingWire.tail).buf ≠ savedByte.lastData ++ pingWire.tail := by
  have size : savedByte.readBuffer.length = bufferSz := List.length_replicate
  rw [storedReplay size (by decide)]
  decide

end Rushkit
