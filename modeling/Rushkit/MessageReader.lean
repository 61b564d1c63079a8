import Rushkit.Message

/-! The packet reader against the grammar: what `rtmp_packet_get_packet` does with a
message, and with each way of not being one. -/
namespace Rushkit
open Interleaving ReadBuffer

theorem loopAdvance {proto proto' : RtmpProto} {pb pb' : ReadBuffer}
    (step : packetStep proto pb = .ok (none, proto', pb')) (fuel : Nat) :
    packetLoop (fuel+1) proto pb = packetLoop fuel proto' pb' := by
  simp only [packetLoop, step, Fallible.okBind]

theorem loopDone {proto proto' : RtmpProto} {pb pb' : ReadBuffer} {pac : Packet}
    (step : packetStep proto pb = .ok (some pac, proto', pb')) (fuel : Nat) :
    packetLoop (fuel+1) proto pb = .ok (pac, proto', pb') := by
  simp only [packetLoop, step, Fallible.okBind]

theorem loopFault {proto : RtmpProto} {pb : ReadBuffer} {e : Fault}
    (step : packetStep proto pb = .error e) (fuel : Nat) :
    packetLoop (fuel+1) proto pb = .error e := by
  simp only [packetLoop, step, Fallible.errorBind]

-- With `s` left to read the step only notes that more is needed.
def Stalls (proto : RtmpProto) (s : Bytes) : Prop :=
  ∀ pb : ReadBuffer, pb.unread = s → ∃ pb', packetStep proto pb = .ok (none, proto, pb') ∧
    pb'.unread = s ∧ 0 < pb'.needMore

theorem stallsHang {proto : RtmpProto} {s : Bytes} (stalls : Stalls proto s) (fuel : Nat)
    (pb : ReadBuffer) (unread : pb.unread = s) : packetLoop fuel proto pb = .error .hang := by
  induction fuel generalizing pb with
  | zero => rfl
  | succ fuel ih =>
    obtain ⟨pb', step, left, _⟩ := stalls pb unread
    rw [loopAdvance step, ih pb' left]

theorem shortAsk (pb : ReadBuffer) {n : Nat} (short : pb.unread.length < n) :
    ∃ pb', rtmpRbAssertSize pb n = (false, pb') ∧ pb'.unread = pb.unread ∧ 0 < pb'.needMore := by
  obtain ⟨refused, more, same⟩ := assertSizeShort pb short
  exact ⟨(rtmpRbAssertSize pb n).2, by rw [← refused], same, more⟩

def parsing (proto : RtmpProto) (state packetMask : Nat) (channelId : Int) : RtmpProto :=
  { proto with state, packetMask, channelId, dataBuffer := rtmpFwbInit }

@[simp] theorem parsingMask (proto : RtmpProto) (state packetMask : Nat) (channelId : Int) :
    (parsing proto state packetMask channelId).packetMask = packetMask := rfl

@[simp] theorem parsingChannel (proto : RtmpProto) (state packetMask : Nat) (channelId : Int) :
    (parsing proto state packetMask channelId).channelId = channelId := rfl

@[simp] theorem parsingChannelsIn (proto : RtmpProto) (state packetMask : Nat) (channelId : Int) :
    (parsing proto state packetMask channelId).channelsIn = proto.channelsIn := rfl

theorem stepStart {proto : RtmpProto} (fresh : proto.state = 0) (pb : ReadBuffer) :
    packetStep proto pb = .ok (none, parsing proto 1 0 0, pb) := by
  rw [packetStep, fresh]
  rfl

theorem stepFirst (proto : RtmpProto) {pb : ReadBuffer} {first : UInt8} {rest : Bytes}
    (unread : pb.unread = first :: rest) :
    packetStep (parsing proto 1 0 0) pb =
      .ok (none, parsing proto 2 (first.toNat / 64) (first.toNat % 64 : Nat), pb.skip 1) := by
  have read := readEAppend pb (s := [first]) unread (n := 1) rfl
  show getR1 (parsing proto 1 0 0) pb = _
  simp only [getR1, read, Fallible.okBind]
  rfl

theorem parseForm (proto : RtmpProto) {packetMask : Nat} {channelId : Int} {basic : Bytes}
    (named : BasicHeader packetMask channelId basic) {pb : ReadBuffer} {rest : Bytes}
    (unread : pb.unread = basic ++ rest) :
    ∃ form, getR1 proto pb = .ok (none, { proto with
        packetMask, channelId := form, state := proto.state + 1 }, pb.skip 1) ∧
      getR2 { proto with packetMask, channelId := form, state := proto.state + 1 } (pb.skip 1) =
        .ok (none, { proto with packetMask, channelId, state := proto.state + 2 },
          pb.skip basic.length) := by
  have first (b : UInt8) (tail : Bytes) (front : pb.unread = b :: tail) :
      getR1 proto pb = .ok (none, { proto with
        packetMask := b.toNat / 64
        channelId := (b.toNat % 64 : Nat)
        state := proto.state + 1 }, pb.skip 1) := by
    have read := readEAppend pb (s := [b]) front (n := 1) rfl
    simp only [getR1, read, Fallible.okBind]
    rfl
  cases named with
  | short b form =>
    refine ⟨_, first b rest unread, ?_⟩
    rw [getR2, if_neg (by dsimp only; omega), if_neg (by dsimp only; omega)]
    rfl
  | middle b c form =>
    refine ⟨_, first b _ unread, ?_⟩
    have left : (pb.skip 1).unread = c :: rest := unreadSkipAppend pb (s := [b]) unread
    have enough : rtmpRbAssertSize (pb.skip 1) 1 = (true, pb.skip 1) :=
      assertSizeEnough _ (n := 1) (by rw [left]; simp)
    have read := readEAppend (pb.skip 1) (s := [c]) left (n := 1) rfl
    rw [getR2, if_pos (by dsimp only; omega), enough]
    simp only [rtmpRbReadByteE, read, Fallible.okBind, skipSkip]
    rfl
  | long b c d form =>
    refine ⟨_, first b _ unread, ?_⟩
    have left : (pb.skip 1).unread = c :: d :: rest := unreadSkipAppend pb (s := [b]) unread
    have enough : rtmpRbAssertSize (pb.skip 1) 2 = (true, pb.skip 1) :=
      assertSizeEnough _ (n := 2) (by rw [left]; simp)
    have read := readEAppend (pb.skip 1) (s := [c, d]) left (n := 2) rfl
    rw [getR2, if_neg (by dsimp only; omega), if_pos (by dsimp only; omega), enough]
    simp only [rtmpRbReadShortE, read, Fallible.okBind, skipSkip]
    rfl

theorem stepForm (proto : RtmpProto) {packetMask : Nat} {channelId : Int} {basic : Bytes}
    (named : BasicHeader packetMask channelId basic) {pb : ReadBuffer} {rest : Bytes}
    (unread : pb.unread = basic ++ rest) :
    ∃ form, packetStep (parsing proto 1 0 0) pb =
        .ok (none, parsing proto 2 packetMask form, pb.skip 1) ∧
      packetStep (parsing proto 2 packetMask form) (pb.skip 1) =
        .ok (none, parsing proto 3 packetMask channelId, pb.skip basic.length) :=
  parseForm (parsing proto 1 0 0) named unread

theorem stallsForm (proto : RtmpProto) (packetMask form : Nat) (byteForm : form < 2) {s : Bytes}
    (short : s.length < form + 1) : Stalls (parsing proto 2 packetMask form) s := by
  intro pb unread
  subst unread
  obtain ⟨pb', refused, same, more⟩ := shortAsk pb short
  refine ⟨pb', ?_, same, more⟩
  show getR2 _ _ = _
  match form, byteForm with
  | 0, _ =>
    have asked : rtmpRbAssertSize pb 1 = (false, pb') := refused
    rw [getR2, if_pos (by rfl), asked]
  | 1, _ =>
    have asked : rtmpRbAssertSize pb 2 = (false, pb') := refused
    rw [getR2, if_neg (by rw [parsingChannel]; omega), if_pos (by rfl), asked]

theorem loopForm {proto : RtmpProto} (fresh : proto.state = 0) {first : UInt8} {rest : Bytes}
    (form : first.toNat % 64 < 2) (short : rest.length < first.toNat % 64 + 1) {pb : ReadBuffer}
    (unread : pb.unread = first :: rest) (fuel : Nat) : packetLoop (fuel+2) proto pb = .error .hang := by
  rw [loopAdvance (stepStart fresh pb), loopAdvance (stepFirst proto unread)]
  exact stallsHang (stallsForm proto _ _ form short) _ _ (unreadSkipAppend pb (s := [first]) unread)

theorem loopBasicHeader {proto : RtmpProto} (fresh : proto.state = 0) {packetMask : Nat}
    {channelId : Int} {basic : Bytes} (named : BasicHeader packetMask channelId basic)
    {pb : ReadBuffer} {rest : Bytes} (unread : pb.unread = basic ++ rest) (fuel : Nat) :
    packetLoop (fuel+3) proto pb =
      packetLoop fuel (parsing proto 3 packetMask channelId) (pb.skip basic.length) := by
  obtain ⟨form, first, second⟩ := stepForm proto named unread
  rw [loopAdvance (stepStart fresh pb), loopAdvance first, loopAdvance second]

theorem mediumIntAppend {fields : Bytes} (wide : 3 ≤ fields.length) (rest : Bytes) :
    mediumInt ((fields ++ rest).take 3) = mediumInt fields := by
  match fields with
  | a :: b :: c :: _ => rfl

theorem readMedium (pb : ReadBuffer) (enough : 3 ≤ pb.unread.length) :
    rtmpRbReadMediumIntE pb = .ok (mediumInt pb.unread, pb.skip 3) := by
  have read : rtmpRbReadE pb 3 = _ := readESkip pb 3 enough
  have same := mediumIntAppend enough []
  rw [List.append_nil] at same
  simp only [rtmpRbReadMediumIntE, read, Fallible.okBind, same]

theorem readByte (pb : ReadBuffer) (enough : 1 ≤ pb.unread.length) :
    rtmpRbReadByteE pb = .ok (pb.unread.getD 0 0, pb.skip 1) := by
  have read : rtmpRbReadE pb 1 = _ := readESkip pb 1 enough
  simp only [rtmpRbReadByteE, read, Fallible.okBind]
  cases pb.unread <;> rfl

theorem readInt (pb : ReadBuffer) (enough : 4 ≤ pb.unread.length) :
    rtmpRbReadIntE pb = .ok (wireInt (pb.unread.take 4), pb.skip 4) := by
  have read : rtmpRbReadE pb 4 = _ := readESkip pb 4 enough
  simp only [rtmpRbReadIntE, read, Fallible.okBind, wireInt]

theorem readFieldsArrived {packetMask : Nat} (mask : packetMask ≤ 3) (pchannel : Channel)
    {pb : ReadBuffer} {fields rest : Bytes} (width : fields.length = fieldWidth packetMask)
    (unread : pb.unread = fields ++ rest) :
    readFields packetMask pchannel pb =
      .ok (some (receivedChannel packetMask pchannel fields), pb.skip fields.length) := by
  have enough : rtmpRbAssertSize pb fields.length = (true, pb) :=
    assertSizeEnough pb (by rw [unread, List.length_append]; omega)
  match packetMask, mask with
  | 0, _ =>
    match fields, width with
    | [a, b, c, d, e, f, g, h, i, j, k], _ =>
      have whole : rtmpRbAssertSize pb 11 = (true, pb) := enough
      rw [readFields, if_pos (by decide), whole]
      simp only [readMedium, readByte, readInt, unreadSkip, unread, skipSkip, Fallible.okBind,
        List.cons_append, List.nil_append, List.drop_succ_cons, List.drop_zero, List.length_cons,
        Nat.le_add_left]
      rfl
  | 1, _ =>
    match fields, width with
    | [a, b, c, d, e, f, g], _ =>
      have whole : rtmpRbAssertSize pb 7 = (true, pb) := enough
      rw [readFields, if_neg (by decide), if_pos (by decide), whole]
      simp only [readMedium, readByte, unreadSkip, unread, skipSkip, Fallible.okBind,
        List.cons_append, List.nil_append, List.drop_succ_cons, List.drop_zero, List.length_cons,
        Nat.le_add_left]
      rfl
  | 2, _ =>
    match fields, width with
    | [a, b, c], _ =>
      have whole : rtmpRbAssertSize pb 3 = (true, pb) := enough
      rw [readFields, if_neg (by decide), if_neg (by decide), if_pos (by decide), whole]
      simp only [readMedium, unread, Fallible.okBind, List.cons_append, List.nil_append,
        List.length_cons, Nat.le_add_left]
      rfl
  | 3, _ =>
    match fields, width with
    | [], _ =>
      rw [readFields, if_neg (by decide), if_neg (by decide), if_neg (by decide), List.length_nil,
        skipZero]
      rfl

theorem readFieldsShort {packetMask : Nat} (mask : packetMask ≤ 3) (pchannel : Channel)
    {pb : ReadBuffer} (short : pb.unread.length < fieldWidth packetMask) :
    ∃ pb', readFields packetMask pchannel pb = .ok (none, pb') ∧ pb'.unread = pb.unread ∧
      0 < pb'.needMore := by
  obtain ⟨pb', refused, same, more⟩ := shortAsk pb short
  refine ⟨pb', ?_, same, more⟩
  match packetMask, mask with
  | 0, _ =>
    have asked : rtmpRbAssertSize pb 11 = (false, pb') := refused
    rw [readFields, if_pos (by decide), asked]
  | 1, _ =>
    have asked : rtmpRbAssertSize pb 7 = (false, pb') := refused
    rw [readFields, if_neg (by decide), if_pos (by decide), asked]
  | 2, _ =>
    have asked : rtmpRbAssertSize pb 3 = (false, pb') := refused
    rw [readFields, if_neg (by decide), if_neg (by decide), if_pos (by decide), asked]
  | 3, _ => contradiction

theorem getChannelUsed {proto : RtmpProto} {slot : Fin 64} (used : (proto.channelsIn slot).used = true)
    (state packetMask : Nat) :
    rtmpProtoGetChannel (parsing proto state packetMask slot.val) = .ok slot :=
  getChannelOk rfl used

def parsingOn (proto : RtmpProto) (slot : Fin 64) (channel : Channel) (state packetMask : Nat) :
    RtmpProto :=
  parsing (setChannelIn proto slot channel) state packetMask slot.val

theorem setParsing (proto : RtmpProto) (slot : Fin 64) (channel : Channel) (state packetMask : Nat) :
    setChannelIn (parsing proto state packetMask slot.val) slot channel =
      parsingOn proto slot channel state packetMask := rfl

theorem channelParsingOn (proto : RtmpProto) (slot : Fin 64) (channel : Channel)
    (state packetMask : Nat) : (parsingOn proto slot channel state packetMask).channelsIn slot = channel := by
  unfold parsingOn parsing setChannelIn
  exact Function.update_self _ _ _

theorem getChannelOn {proto : RtmpProto} {slot : Fin 64} {channel : Channel}
    (used : channel.used = true) (state packetMask : Nat) :
    rtmpProtoGetChannel (parsingOn proto slot channel state packetMask) = .ok slot :=
  getChannelOk rfl (by rw [channelParsingOn]; exact used)

theorem stepLow (proto : RtmpProto) (packetMask : Nat) {channelId : Int} (low : channelId < 64)
    (pb : ReadBuffer) : packetStep (parsing proto 3 packetMask channelId) pb =
      .ok (none, parsing proto 4 packetMask channelId, pb) := by
  show getR3 _ _ = _
  rw [getR3, checkTrue (by rw [parsingChannel]; exact low), Fallible.okBind]
  rfl

theorem stepNumber (proto : RtmpProto) (packetMask : Nat) (slot : Fin 64) (pb : ReadBuffer) :
    packetStep (parsing proto 3 packetMask slot.val) pb =
      .ok (none, parsing proto 4 packetMask slot.val, pb) :=
  stepLow proto packetMask (Int.ofNat_lt.mpr slot.isLt) pb

theorem stepFields {proto : RtmpProto} {packetMask : Nat} (mask : packetMask ≤ 3) {slot : Fin 64}
    (used : (proto.channelsIn slot).used = true) {pb : ReadBuffer} {fields rest : Bytes}
    (width : fields.length = fieldWidth packetMask) (unread : pb.unread = fields ++ rest)
    (small : (receivedChannel packetMask (proto.channelsIn slot) fields).size < maxPacketSize) :
    packetStep (parsing proto 4 packetMask slot.val) pb =
      .ok (none, parsingOn proto slot (receivedChannel packetMask (proto.channelsIn slot) fields) 5
        packetMask, pb.skip fields.length) := by
  have read := readFieldsArrived mask (proto.channelsIn slot) width unread
  show getR4 _ _ = _
  simp only [getR4, getChannelUsed used, parsingMask, parsingChannelsIn, read, Fallible.okBind]
  rw [if_neg (by omega)]
  rfl

theorem invalidPacketOn {proto : RtmpProto} {slot : Fin 64} {channel : Channel}
    (used : channel.used = true) (state packetMask : Nat) (data : Bytes) :
    newInvalidPacket (parsingOn proto slot channel state packetMask) data =
      .ok ⟨slot.val, { channel with dataType := pacInvalid }, data⟩ := by
  rw [newInvalidPacket, getChannelOn used, Fallible.okBind, channelParsingOn]
  rfl

theorem stepRefused {proto : RtmpProto} {packetMask : Nat} (mask : packetMask ≤ 3) {slot : Fin 64}
    (used : (proto.channelsIn slot).used = true) {pb : ReadBuffer} {fields rest : Bytes}
    (width : fields.length = fieldWidth packetMask) (unread : pb.unread = fields ++ rest)
    (large : maxPacketSize ≤ (receivedChannel packetMask (proto.channelsIn slot) fields).size) :
    packetStep (parsing proto 4 packetMask slot.val) pb =
      .ok (some ⟨slot.val, { receivedChannel packetMask (proto.channelsIn slot) fields with
          dataType := pacInvalid }, rest⟩,
        parsingOn proto slot (receivedChannel packetMask (proto.channelsIn slot) fields) 4 packetMask,
        pb.skip (fields.length + rest.length)) := by
  have read := readFieldsArrived mask (proto.channelsIn slot) width unread
  have left := unreadSkipAppend pb unread
  have all := readEAppend (pb.skip fields.length) (s := rest) (t := [])
    (by rw [left, List.append_nil]) (n := rtmpRbGetSpace (pb.skip fields.length))
    (by rw [spaceUnread, left])
  have stillUsed := (receivedUsed packetMask (proto.channelsIn slot) fields).trans used
  show getR4 _ _ = _
  simp only [getR4, getChannelUsed used, parsingMask, parsingChannelsIn, read, Fallible.okBind]
  rw [if_pos large, all, Fallible.okBind, setParsing, invalidPacketOn stillUsed, Fallible.okBind, skipSkip]

theorem stallsFields {proto : RtmpProto} {packetMask : Nat} (mask : packetMask ≤ 3) {slot : Fin 64}
    (used : (proto.channelsIn slot).used = true) {s : Bytes} (short : s.length < fieldWidth packetMask) :
    Stalls (parsing proto 4 packetMask slot.val) s := by
  intro pb unread
  subst unread
  obtain ⟨pb', read, same, more⟩ := readFieldsShort mask (proto.channelsIn slot) short
  refine ⟨pb', ?_, same, more⟩
  show getR4 _ _ = _
  simp only [getR4, getChannelUsed used, parsingMask, parsingChannelsIn, read, Fallible.okBind]

theorem stepAddcode {proto : RtmpProto} {slot : Fin 64} {channel : Channel}
    (used : channel.used = true) {pb : ReadBuffer} {addcode rest : Bytes}
    (width : addcode.length = addcodeWidth channel) (unread : pb.unread = addcode ++ rest)
    (packetMask : Nat) :
    packetStep (parsingOn proto slot channel 5 packetMask) pb =
      .ok (none, { parsingOn proto slot channel 6 packetMask with
        dataBuffer := rtmpFwbReset channel.size }, pb.skip addcode.length) := by
  have arrived : readAddcode channel pb = .ok (true, pb.skip addcode.length) := by
    unfold addcodeWidth at width
    unfold readAddcode
    split
    · rename_i extended
      rw [if_pos extended] at width
      have enough : rtmpRbAssertSize pb 4 = (true, pb) :=
        assertSizeEnough pb (n := 4) (by rw [unread, List.length_append]; omega)
      have read := readInt pb (by rw [unread, List.length_append]; omega)
      rw [enough]
      simp only [read, Fallible.okBind, width]
    · rename_i plain
      rw [if_neg plain] at width
      rw [width, skipZero]
  show getR5 _ _ = _
  simp only [getR5, getChannelOn used, channelParsingOn, arrived, Fallible.okBind, if_true]
  rfl

theorem stallsAddcode {proto : RtmpProto} {slot : Fin 64} {channel : Channel}
    (used : channel.used = true) {s : Bytes} (short : s.length < addcodeWidth channel)
    (packetMask : Nat) : Stalls (parsingOn proto slot channel 5 packetMask) s := by
  intro pb unread
  subst unread
  unfold addcodeWidth at short
  split at short
  · rename_i extended
    obtain ⟨pb', refused, same, more⟩ := shortAsk pb short
    have asked : rtmpRbAssertSize pb 4 = (false, pb') := refused
    refine ⟨pb', ?_, same, more⟩
    show getR5 _ _ = _
    simp only [getR5, getChannelOn used, channelParsingOn, readAddcode, if_pos extended, asked,
      Fallible.okBind]
    rfl
  · contradiction

theorem chunkTest {c : Nat} (fits : c + 1 < 2147483648) : int32 (c + 1) = c + 1 :=
  int32Same (by omega) (by omega)

theorem readLayout {c : Nat} (fits : c + 1 < 2147483648) {data seps body rest : Bytes}
    (layout : Layout c data seps body) (dataBuffer : FixBuffer)
    (space : rtmpFwbGetSpace dataBuffer = data.length) (pb : ReadBuffer)
    (unread : pb.unread = body ++ rest) (fuel : Nat) (enough : body.length < fuel) :
    ∃ mid midPb filled, readChunks c 1 fuel dataBuffer pb = .ok (mid, midPb) ∧
      readRemainder mid midPb = .ok (filled, pb.skip body.length) ∧
      filled.content = dataBuffer.content ++ data ∧ filled.capacity = dataBuffer.capacity := by
  induction layout generalizing dataBuffer pb fuel with
  | last data short =>
    obtain ⟨fuel, rfl⟩ : ∃ n, fuel = n + 1 := ⟨fuel - 1, by omega⟩
    have stop : readChunks c 1 (fuel+1) dataBuffer pb = .ok (dataBuffer, pb) := by
      rw [readChunks, chunkTest fits, if_neg (by omega)]
    rcases Nat.eq_zero_or_pos data.length with none | some
    · have empty := List.eq_nil_of_length_eq_zero none
      subst empty
      refine ⟨_, _, dataBuffer, stop, ?_, (List.append_nil _).symm, rfl⟩
      rw [readRemainder, if_neg (by omega), List.length_nil, skipZero]
    · have read := readEAppend pb unread space
      obtain ⟨filled, write, content, _⟩ := fwbWriteRoom dataBuffer data (by omega)
      refine ⟨_, _, filled, stop, ?_, content, fwbWriteCapacity write⟩
      rw [readRemainder, if_pos (by omega)]
      simp only [read, write, Fallible.okBind]
  | @more block data seps wire sep full nonempty layout ih =>
    obtain ⟨fuel, rfl⟩ : ∃ n, fuel = n + 1 := ⟨fuel - 1, by omega⟩
    have some := List.length_pos_of_ne_nil nonempty
    rw [List.length_append] at space
    rw [List.length_append, List.length_cons] at enough
    rw [List.append_assoc, List.cons_append] at unread
    have trunk := readEAppend pb unread (n := c) (by rw [full])
    have left := unreadSkipAppend pb unread
    obtain ⟨grown, write, content, fewer⟩ := fwbWriteRoom dataBuffer block (by omega)
    have header := readEAppend (pb.skip block.length) (s := [sep]) left (n := 1) rfl
    have left' := unreadSkipAppend (pb.skip block.length) (s := [sep]) left
    obtain ⟨mid, midPb, filled, loop, remainder, whole, room⟩ := ih grown (by omega) _ left' fuel (by omega)
    refine ⟨mid, midPb, filled, ?_, ?_, ?_, room.trans (fwbWriteCapacity write)⟩
    · rw [readChunks, chunkTest fits, if_pos (by omega)]
      simp only [trunk, write, header, Fallible.okBind, loop]
    · have total : block.length + ([sep].length + wire.length) = (block ++ sep :: wire).length := by
        simp only [List.length_append, List.length_cons, List.length_nil]
        omega
      rw [remainder, skipSkip, skipSkip, total]
    · rw [whole, content, List.append_assoc]

theorem readTruncated {c : Nat} (positive : 1 ≤ c) (fits : c + 1 < 2147483648) (fuel : Nat)
    (size : Nat) (dataBuffer : FixBuffer) (space : rtmpFwbGetSpace dataBuffer = size)
    (pb : ReadBuffer) (short : pb.unread.length < wireLength c size)
    (enough : pb.unread.length < fuel) :
    (readChunks c 1 fuel dataBuffer pb >>= fun r => readRemainder r.1 r.2) =
      .error (.assertion .rtmpRbReadE) := by
  induction fuel generalizing size dataBuffer pb with
  | zero => omega
  | succ fuel ih =>
    rcases Nat.lt_or_ge c size with more | last
    · rw [readChunks, chunkTest fits, if_pos (by omega)]
      rcases Nat.lt_or_ge pb.unread.length c with few | block
      · rw [readEShort pb (by omega), Fallible.errorBind, Fallible.errorBind]
      · rw [readESkip pb c block, Fallible.okBind]
        have full : (pb.unread.take c).length = c := by rw [List.length_take]; omega
        obtain ⟨grown, write, _, fewer⟩ := fwbWriteRoom dataBuffer (pb.unread.take c) (by omega)
        dsimp only
        rw [write, Fallible.okBind]
        have left : (pb.skip c).unread.length = pb.unread.length - c := by
          rw [unreadSkip, List.length_drop]
        rcases Nat.lt_or_ge (pb.skip c).unread.length 1 with none | one
        · rw [readEShort _ (by omega), Fallible.errorBind, Fallible.errorBind]
        · have header := readESkip (pb.skip c) 1 one
          rw [Nat.cast_one] at header
          rw [header, Fallible.okBind]
          have count := sepCountMore (n := size - c) positive (by omega)
          rw [Nat.add_sub_cancel' (by omega)] at count
          simp only [wireLength, count] at short
          have fewerLeft : ((pb.skip c).skip 1).unread.length = pb.unread.length - c - 1 := by
            rw [unreadSkip, List.length_drop, left]
          dsimp only
          exact ih (size - c) grown (by omega) _ (by rw [wireLength]; omega) (by omega)
    · rw [wireLength, sepCountShort last positive] at short
      rw [readChunks, chunkTest fits, if_neg (by omega), Fallible.okBind]
      dsimp only
      rw [readRemainder, if_pos (by omega), readEShort pb (by omega), Fallible.errorBind]

theorem oneHeaderByte (slot : Fin 64) : 1 + countHeaderBytes slot.val = 1 := by
  have := slot.isLt
  rw [countHeaderBytes, if_pos (by omega)]
  rfl

def headMask (s : Bytes) : Nat := (s.headD 0).toNat / 64

-- The record handed to the callback: the payload is still in the data buffer.
def received (proto : RtmpProto) (slot : Fin 64) (channel : Channel) (state packetMask : Nat)
    (dataBuffer : FixBuffer) : RtmpProto :=
  { parsingOn proto slot channel state packetMask with dataBuffer }

theorem getPacketOn {proto : RtmpProto} {slot : Fin 64} {channel : Channel}
    (used : channel.used = true) (state packetMask : Nat) (dataBuffer : FixBuffer) :
    getPacket (received proto slot channel state packetMask dataBuffer) =
      .ok ⟨slot.val, channel, dataBuffer.content⟩ := by
  have found : rtmpProtoGetChannel (received proto slot channel state packetMask dataBuffer) = .ok slot :=
    getChannelOn used state packetMask
  rw [getPacket, found, Fallible.okBind]
  show Except.ok (⟨slot.val, (parsingOn proto slot channel state packetMask).channelsIn slot, _⟩ : Packet) = _
  rw [channelParsingOn]
  rfl

theorem fwbResetSpace (cap : Int) : rtmpFwbGetSpace (rtmpFwbReset cap) = cap.toNat := by
  simp [rtmpFwbGetSpace, rtmpFwbReset]

section Payloads
variable (proto : RtmpProto) (slot : Fin 64) {channel : Channel} (used : channel.used = true)
  (packetMask : Nat)
include used

theorem stepTyped (typed : 0 < channel.dataType) (dataBuffer : FixBuffer) (pb : ReadBuffer) :
    packetStep (received proto slot channel 6 packetMask dataBuffer) pb =
      (readChunks proto.readChunkSize 1 (pb.buf.length + 1) dataBuffer pb >>= fun r =>
        readRemainder r.1 r.2) >>= fun r => .ok (some ⟨slot.val, channel, r.1.content⟩,
          received proto slot channel 6 packetMask r.1, r.2) := by
  have found : rtmpProtoGetChannel (received proto slot channel 6 packetMask dataBuffer) = .ok slot :=
    getChannelOn used 6 packetMask
  have record : (received proto slot channel 6 packetMask dataBuffer).channelsIn slot = channel :=
    channelParsingOn proto slot channel 6 packetMask
  have byte := oneHeaderByte slot
  show getR6 _ _ = _
  simp only [getR6, found, record, if_pos typed, Fallible.okBind, bind_assoc]
  show (readChunks proto.readChunkSize (1 + countHeaderBytes slot.val) _ dataBuffer pb >>= fun r =>
    readRemainder r.1 r.2 >>= fun r =>
      getPacket (received proto slot channel 6 packetMask r.1) >>= fun pack =>
        .ok (some pack, received proto slot channel 6 packetMask r.1, r.2)) = _
  simp only [byte, getPacketOn used, Fallible.okBind]

theorem stepPayload (fits : proto.readChunkSize + 1 < 2147483648) {data body : Bytes}
    (payload : Payload proto.readChunkSize channel data body) {pb : ReadBuffer} {rest : Bytes}
    (unread : pb.unread = body ++ rest) :
    ∃ dataBuffer, dataBuffer.content = data ∧ dataBuffer.capacity = channel.size.toNat ∧
      packetStep (received proto slot channel 6 packetMask (rtmpFwbReset channel.size)) pb =
        .ok (some ⟨slot.val, channel, data⟩, received proto slot channel 6 packetMask dataBuffer,
          pb.skip body.length) := by
  have space := fwbResetSpace channel.size
  cases payload with
  | chunked typed size layout =>
    have within : body.length < pb.buf.length + 1 := by
      have sizes := congrArg List.length unread
      have block : pb.unread.length ≤ pb.buf.length := by
        unfold ReadBuffer.unread
        rw [List.length_drop]
        omega
      rw [List.length_append] at sizes
      omega
    obtain ⟨mid, midPb, filled, loop, remainder, content, capacity⟩ := readLayout fits layout
      (rtmpFwbReset channel.size) (by rw [space, size]) pb unread _ within
    have whole : filled.content = data := content
    refine ⟨filled, whole, capacity, ?_⟩
    rw [stepTyped proto slot used packetMask typed, loop, Fallible.okBind, remainder, Fallible.okBind, whole]
  | untyped zero four room =>
    have found : rtmpProtoGetChannel (received proto slot channel 6 packetMask
      (rtmpFwbReset channel.size)) = .ok slot := getChannelOn used 6 packetMask
    have record : (received proto slot channel 6 packetMask
      (rtmpFwbReset channel.size)).channelsIn slot = channel :=
        channelParsingOn proto slot channel 6 packetMask
    have asked : rtmpRbAssertSize pb 4 = (true, pb) :=
      assertSizeEnough pb (n := 4) (by rw [unread, List.length_append]; omega)
    have read := readEAppend pb unread (n := 4) (by omega)
    obtain ⟨filled, write, content, _⟩ := fwbWriteRoom (rtmpFwbReset channel.size) data (by omega)
    have whole : filled.content = data := content
    refine ⟨filled, whole, fwbWriteCapacity write, ?_⟩
    show getR6 _ _ = _
    simp only [getR6, found, record, if_neg zero, asked, read, Fallible.okBind]
    show (rtmpFwbWrite (rtmpFwbReset channel.size) data >>= fun b =>
      getPacket (received proto slot channel 6 packetMask b) >>= fun pack =>
        .ok (some pack, received proto slot channel 6 packetMask b, pb.skip data.length)) = _
    rw [write, Fallible.okBind, getPacketOn used, Fallible.okBind, whole]

theorem stepTruncated (positive : 1 ≤ proto.readChunkSize)
    (fits : proto.readChunkSize + 1 < 2147483648) (typed : 0 < channel.dataType) {pb : ReadBuffer}
    (short : pb.unread.length < wireLength proto.readChunkSize channel.size.toNat) :
    packetStep (received proto slot channel 6 packetMask (rtmpFwbReset channel.size)) pb =
      .error (.assertion .rtmpRbReadE) := by
  have block : pb.unread.length < pb.buf.length + 1 := by
    unfold ReadBuffer.unread
    rw [List.length_drop]
    omega
  rw [stepTyped proto slot used packetMask typed, readTruncated positive fits _ channel.size.toNat _
    (fwbResetSpace channel.size) pb short block, Fallible.errorBind]

theorem stepCramped (zero : ¬ 0 < channel.dataType) {pb : ReadBuffer}
    (arrived : 4 ≤ pb.unread.length) (room : channel.size < 4) :
    packetStep (received proto slot channel 6 packetMask (rtmpFwbReset channel.size)) pb =
      .error (.assertion .rtmpFwbWrite) := by
  have found : rtmpProtoGetChannel (received proto slot channel 6 packetMask
    (rtmpFwbReset channel.size)) = .ok slot := getChannelOn used 6 packetMask
  have record : (received proto slot channel 6 packetMask
    (rtmpFwbReset channel.size)).channelsIn slot = channel :=
      channelParsingOn proto slot channel 6 packetMask
  have asked : rtmpRbAssertSize pb 4 = (true, pb) := assertSizeEnough pb (n := 4) arrived
  have read : rtmpRbReadE pb 4 = .ok (pb.unread.take 4, pb.skip 4) := readESkip pb 4 arrived
  have space := fwbResetSpace channel.size
  have full : rtmpFwbWrite (rtmpFwbReset channel.size) (pb.unread.take 4) =
      .error (.assertion .rtmpFwbWrite) :=
    fwbWriteFull _ _ (by rw [space, List.length_take]; omega)
  show getR6 _ _ = _
  simp only [getR6, found, record, if_neg zero, asked, read, Fallible.okBind]
  show (rtmpFwbWrite (rtmpFwbReset channel.size) (pb.unread.take 4) >>= _) = _
  rw [full, Fallible.errorBind]

theorem stallsUntyped (zero : ¬ 0 < channel.dataType) {s : Bytes} (short : s.length < 4)
    (dataBuffer : FixBuffer) : Stalls (received proto slot channel 6 packetMask dataBuffer) s := by
  intro pb unread
  subst unread
  have found : rtmpProtoGetChannel (received proto slot channel 6 packetMask dataBuffer) = .ok slot :=
    getChannelOn used 6 packetMask
  have record : (received proto slot channel 6 packetMask dataBuffer).channelsIn slot = channel :=
    channelParsingOn proto slot channel 6 packetMask
  obtain ⟨pb', refused, same, more⟩ := shortAsk pb short
  have asked : rtmpRbAssertSize pb 4 = (false, pb') := refused
  refine ⟨pb', ?_, same, more⟩
  show getR6 _ _ = _
  simp only [getR6, found, record, if_neg zero, asked, Fallible.okBind]

end Payloads

section Buffers
variable {proto : RtmpProto} (fresh : proto.state = 0) {pb : ReadBuffer}
include fresh

omit fresh in
theorem basicHeaderMask {packetMask : Nat} {channelId : Int} {basic : Bytes}
    (named : BasicHeader packetMask channelId basic) (rest : Bytes) :
    headMask (basic ++ rest) = packetMask := by
  cases named with
  | short first form | middle first b form | long first a b form => rfl

theorem loopHead {slot : Fin 64} {channel : Channel} {head rest : Bytes}
    (header : Head proto.channelsIn slot channel head) (unread : pb.unread = head ++ rest)
    (small : channel.size < maxPacketSize) :
    ∃ fields, channel = receivedChannel (headMask pb.unread) (proto.channelsIn slot) fields ∧
      rtmpPacketGetPacket proto pb =
        packetLoop 2 (parsingOn proto slot channel 5 (headMask pb.unread)) (pb.skip head.length) := by
  cases header with
  | @mk packetMask _ basic fields named used width =>
    rw [List.append_assoc] at unread
    have left := unreadSkipAppend pb unread
    have mask := (basicHeaderNonempty named).2
    have first : headMask pb.unread = packetMask := by rw [unread, basicHeaderMask named]
    refine ⟨fields, by rw [first], ?_⟩
    rw [first, rtmpPacketGetPacket, loopBasicHeader fresh named unread,
      loopAdvance (stepNumber proto packetMask slot _),
      loopAdvance (stepFields mask used width left small), skipSkip, List.length_append]

theorem loopOpened {slot : Fin 64} {channel : Channel} {head rest : Bytes}
    (opened : Opened proto.channelsIn slot channel head) (unread : pb.unread = head ++ rest) :
    channel.used = true ∧ ∃ fields,
      channel = receivedChannel (headMask pb.unread) (proto.channelsIn slot) fields ∧
      rtmpPacketGetPacket proto pb =
        packetLoop 1 (received proto slot channel 6 (headMask pb.unread) (rtmpFwbReset channel.size))
          (pb.skip head.length) := by
  cases opened with
  | mk header small width =>
    rw [List.append_assoc] at unread
    have left := unreadSkipAppend pb unread
    have used := (headUsed header).1
    obtain ⟨fields, record, loop⟩ := loopHead fresh header unread small
    refine ⟨used, fields, record, ?_⟩
    rw [loop, loopAdvance (stepAddcode used width left _), skipSkip, List.length_append]
    rfl

theorem getPacketMessage (fits : proto.readChunkSize + 1 < 2147483648) {slot : Fin 64}
    {channel : Channel} {data wire rest : Bytes}
    (message : Message proto.readChunkSize proto.channelsIn slot channel data wire)
    (unread : pb.unread = wire ++ rest) :
    ∃ fields dataBuffer,
      channel = receivedChannel (headMask pb.unread) (proto.channelsIn slot) fields ∧
      dataBuffer.content = data ∧ dataBuffer.capacity = channel.size.toNat ∧
      rtmpPacketGetPacket proto pb = .ok (⟨slot.val, channel, data⟩,
        received proto slot channel 6 (headMask pb.unread) dataBuffer, pb.skip wire.length) := by
  cases message with
  | mk opened payload =>
    rw [List.append_assoc] at unread
    have left := unreadSkipAppend pb unread
    obtain ⟨used, fields, record, loop⟩ := loopOpened fresh opened unread
    obtain ⟨dataBuffer, content, capacity, step⟩ := stepPayload proto _ used _ fits payload left
    refine ⟨fields, dataBuffer, record, content, capacity, ?_⟩
    rw [loop, loopDone step, skipSkip, List.length_append]

theorem getPacketRefused {slot : Fin 64} {channel : Channel} {data s : Bytes}
    (refused : Refused proto.channelsIn slot channel data s) (unread : pb.unread = s) :
    ∃ fields, channel = receivedChannel (headMask s) (proto.channelsIn slot) fields ∧
      rtmpPacketGetPacket proto pb = .ok (⟨slot.val, { channel with dataType := pacInvalid }, data⟩,
        parsingOn proto slot channel 4 (headMask s), pb.skip s.length) := by
  cases refused with
  | mk rest header large =>
    cases header with
    | @mk packetMask _ basic fields named used width =>
      rw [List.append_assoc] at unread
      have left := unreadSkipAppend pb unread
      have mask := (basicHeaderNonempty named).2
      rw [List.append_assoc, basicHeaderMask named]
      refine ⟨fields, rfl, ?_⟩
      rw [rtmpPacketGetPacket, loopBasicHeader fresh named unread,
        loopAdvance (stepNumber proto packetMask slot _),
        loopDone (stepRefused mask used width left large), skipSkip, List.length_append,
        List.length_append]

theorem getPacketStarved {s : Bytes} (starved : Starved proto.channelsIn s) (unread : pb.unread = s) :
    rtmpPacketGetPacket proto pb = .error .hang := by
  cases starved with
  | middle first form => exact loopForm fresh (by omega) (by simp) unread 5
  | long first rest form short => exact loopForm fresh (by omega) (by omega) unread 5
  | @fields packetMask slot basic rest named used short =>
    have left := unreadSkipAppend pb unread
    have mask := (basicHeaderNonempty named).2
    rw [rtmpPacketGetPacket, loopBasicHeader fresh named unread,
      loopAdvance (stepNumber proto packetMask slot _)]
    exact stallsHang (stallsFields mask used short) _ _ left
  | addcode rest header small short =>
    have left := unreadSkipAppend pb unread
    obtain ⟨fields, record, loop⟩ := loopHead fresh header unread small
    rw [loop]
    exact stallsHang (stallsAddcode (headUsed header).1 short _) _ _ left
  | @untyped slot _ _ rest opened zero short =>
    have left := unreadSkipAppend pb unread
    obtain ⟨used, fields, record, loop⟩ := loopOpened fresh opened unread
    rw [loop]
    exact stallsHang (stallsUntyped proto slot used _ zero short _) _ _ left

/- The faults of the read path: its assertions, and leaving the channel table. -/
def ReadFault (e : Fault) : Prop :=
  e = .assertion .rtmpRbReadE ∨ e = .assertion .rtmpFwbWrite ∨ e = .assertion .getR3 ∨
    e = .assertion .rtmpProtoGetChannel ∨ e = .overRead

omit fresh in
theorem unusableFault {channelId : Int} (unusable : Unusable proto.channelsIn channelId)
    (packetMask fuel : Nat) (pb : ReadBuffer) :
    ∃ e, packetLoop (fuel+2) (parsing proto 3 packetMask channelId) pb = .error e ∧ ReadFault e := by
  rcases lt_or_ge channelId 64 with low | high
  case inr =>
    refine ⟨_, loopFault ?_ _, .inr (.inr (.inl rfl))⟩
    show getR3 _ _ = _
    rw [getR3, checkFalse (by rw [parsingChannel]; omega), Fallible.errorBind]
  rw [loopAdvance (stepLow proto packetMask low pb)]
  rcases lt_or_ge channelId 0 with negative | inside
  · refine ⟨.overRead, loopFault ?_ _, .inr (.inr (.inr (.inr rfl)))⟩
    show getR4 _ _ = _
    rw [getR4, rtmpProtoGetChannel, checkTrue (by rw [parsingChannel]; exact low), Fallible.okBind,
      parsingChannel, tableEntryOutside (by omega), Fallible.errorBind, Fallible.errorBind]
  · obtain ⟨slot, named⟩ : ∃ slot : Fin 64, channelId = slot.val :=
      ⟨⟨channelId.toNat, by omega⟩, (Int.toNat_of_nonneg inside).symm⟩
    have unused := unusable slot named
    refine ⟨_, loopFault ?_ _, .inr (.inr (.inr (.inl rfl)))⟩
    show getR4 _ _ = _
    rw [getR4, rtmpProtoGetChannel, checkTrue (by rw [parsingChannel]; exact low), Fallible.okBind,
      parsingChannel, tableEntryOk.mpr named, Fallible.okBind, parsingChannelsIn,
      checkFalse (by rw [unused]; exact Bool.false_ne_true), Fallible.errorBind, Fallible.errorBind]

theorem getPacketRejected (positive : 1 ≤ proto.readChunkSize)
    (fits : proto.readChunkSize + 1 < 2147483648) {s : Bytes}
    (rejected : Rejected proto.readChunkSize proto.channelsIn s) (unread : pb.unread = s) :
    ∃ e, rtmpPacketGetPacket proto pb = .error e ∧ ReadFault e := by
  cases rejected with
  | @channel packetMask channelId basic rest named unusable =>
    rw [rtmpPacketGetPacket, loopBasicHeader fresh named unread]
    exact unusableFault unusable packetMask 2 _
  | @truncated slot _ _ rest opened typed short =>
    have left := unreadSkipAppend pb unread
    obtain ⟨used, fields, record, loop⟩ := loopOpened fresh opened unread
    have step := stepTruncated proto slot used (headMask pb.unread) positive fits typed
      (by rw [left]; exact short)
    exact ⟨_, by rw [loop, loopFault step], .inl rfl⟩
  | @cramped slot _ _ rest opened zero arrived room =>
    have left := unreadSkipAppend pb unread
    obtain ⟨used, fields, record, loop⟩ := loopOpened fresh opened unread
    have step := stepCramped proto slot used (headMask pb.unread) zero (by rw [left]; exact arrived) room
    exact ⟨_, by rw [loop, loopFault step], .inr (.inl rfl)⟩

theorem getPacketEmpty (empty : pb.unread = []) :
    rtmpPacketGetPacket proto pb = .error (.assertion .rtmpRbReadE) := by
  have step : packetStep (parsing proto 1 0 0) pb = .error (.assertion .rtmpRbReadE) := by
    show getR1 _ _ = _
    rw [getR1, readEShort pb (by rw [empty]; exact Int.zero_lt_one), Fallible.errorBind]
  rw [rtmpPacketGetPacket, loopAdvance (stepStart fresh pb), loopFault step]

theorem getPacketOk (positive : 1 ≤ proto.readChunkSize)
    (fits : proto.readChunkSize + 1 < 2147483648) {got : Packet} {proto' : RtmpProto}
    {pb' : ReadBuffer} (ok : rtmpPacketGetPacket proto pb = .ok (got, proto', pb')) :
    ∃ state packetMask slot fields channel dataBuffer,
      proto' = received proto slot channel state packetMask dataBuffer ∧
      channel = receivedChannel packetMask (proto.channelsIn slot) fields ∧
      (proto.channelsIn slot).used = true ∧ got.channelId = slot.val ∧
      (got.channel = channel ∨ got.channel = { channel with dataType := pacInvalid }) ∧
      ∃ n, pb' = pb.skip n := by
  rcases eq_or_ne pb.unread [] with empty | nonempty
  · rw [getPacketEmpty fresh empty] at ok
    contradiction
  rcases messageCases proto.readChunkSize positive proto.channelsIn pb.unread nonempty with
    starved | rejected | ⟨slot, channel, data, refused⟩ | ⟨slot, channel, data, wire, rest, message, unread⟩
  · rw [getPacketStarved fresh starved rfl] at ok
    contradiction
  · obtain ⟨e, fails, _⟩ := getPacketRejected fresh positive fits rejected rfl
    rw [fails] at ok
    contradiction
  · obtain ⟨fields, record, read⟩ := getPacketRefused fresh refused rfl
    rw [read] at ok
    cases Except.ok.inj ok
    exact ⟨4, _, slot, fields, channel, rtmpFwbInit, rfl, record, refusedUsed refused, rfl,
      .inr rfl, _, rfl⟩
  · obtain ⟨fields, dataBuffer, record, _, _, read⟩ := getPacketMessage fresh fits message unread
    rw [read] at ok
    cases Except.ok.inj ok
    exact ⟨6, _, slot, fields, channel, dataBuffer, rfl, record, messageUsed message, rfl,
      .inl rfl, _, rfl⟩

end Buffers

end Rushkit
