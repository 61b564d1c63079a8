import Rushkit.Segmentation

/-! When the packet reader of a feed stays within its assertions. They are its only
bounds checks, so the bytes of the peer decide. -/
namespace Rushkit
open ReadBuffer

-- The calls of the packet reader that one feed makes, from the first one on.
inductive ReaderCall (table : MethodTable) :
    RtmpProto → ReadBuffer → RtmpProto → ReadBuffer → Prop where
  | here {proto : RtmpProto} {pb : ReadBuffer} (more : 0 < rtmpRbGetSpace pb ∧ pb.needMore = 0)
      (phase : proto.pkgSt = 3) : ReaderCall table proto pb proto pb
  | later {proto next last : RtmpProto} {pb rest final : ReadBuffer} {pac : Packet}
      (more : 0 < rtmpRbGetSpace pb ∧ pb.needMore = 0) (phase : proto.pkgSt = 3)
      (step : feedPacket table proto pb = .ok (next, pac, rest))
      (call : ReaderCall table next rest last final) : ReaderCall table proto pb last final

-- No call made for the block fails an assertion of the read path or leaves its tables.
def ReaderSafe (table : MethodTable) (proto : RtmpProto) (data : Bytes) : Prop :=
  ∀ proto' pb e, ReaderCall table (fed proto data) (rtmpRbInit data) proto' pb →
    rtmpPacketGetPacket proto' pb = .error e → ¬ ReadFault e

/- Behind no run of messages that the callback has taken does the block go on with a
message that is rejected. -/
def NeverRejected (table : MethodTable) (proto : RtmpProto) (data : Bytes) : Prop :=
  ∀ front rest proto' pacs, Handled table (fed proto data) front proto' pacs →
    data = front.flatten ++ rest → ¬ Rejected proto'.readChunkSize proto'.channelsIn rest

theorem rejectedNonempty {chunk : Nat} {table : ChannelTable} {s : Bytes}
    (rejected : Rejected chunk table s) : s ≠ [] := by
  have lengthen {head rest : Bytes} (some : 1 ≤ head.length) : head ++ rest ≠ [] :=
    List.append_ne_nil_of_left_ne_nil (List.ne_nil_of_length_pos some) rest
  cases rejected with
  | channel rest named unusable => exact lengthen (basicHeaderNonempty named).1
  | truncated rest opened typed short => exact lengthen (openedNonempty opened)
  | cramped rest opened zero arrived room => exact lengthen (openedNonempty opened)

theorem callMore {table : MethodTable} {proto proto' : RtmpProto} {pb pb' : ReadBuffer}
    (call : ReaderCall table proto pb proto' pb') : pb'.unread ≠ [] := by
  induction call with
  | here more phase =>
    intro empty
    rw [spaceUnread, empty] at more
    exact absurd more.1 (Int.lt_irrefl 0)
  | later more phase step call ih => exact ih

section Calls
variable {table : MethodTable} (leaves : LeavesReader table)
include leaves

theorem callHandled {proto proto' : RtmpProto} {pb pb' : ReadBuffer} (between : Between proto)
    (call : ReaderCall table proto pb proto' pb') :
    ∃ front pacs, Handled table proto front proto' pacs ∧
      pb.unread = front.flatten ++ pb'.unread ∧ Between proto' := by
  induction call with
  | here more phase => exact ⟨[], [], .nil _, rfl, between⟩
  | @later proto next last pb rest final pac more phase step call ih =>
    have nonempty := callMore (.here more phase : ReaderCall table _ _ _ _)
    rcases messageCases proto.readChunkSize between.positive proto.channelsIn pb.unread nonempty with
      starved | rejected | ⟨slot, channel, data, refused⟩ | ⟨slot, channel, data, wire, tail, message, unread⟩
    · rw [feedPacket, getPacketStarved between.state starved rfl, Fallible.errorBind] at step
      contradiction
    · obtain ⟨e, fails, _⟩ :=
        getPacketRejected between.state between.positive between.fits rejected rfl
      rw [feedPacket, fails, Fallible.errorBind] at step
      contradiction
    · obtain ⟨_, _, read⟩ := getPacketRefused between.state refused rfl
      rw [feedPacket, read, Fallible.okBind] at step
      obtain ⟨returned, called, step⟩ := Fallible.bindOk.mp step
      cases Except.ok.inj step
      have done : (pb.skip pb.unread.length).unread = [] := by
        rw [unreadSkip, List.drop_length]
      cases call with
      | here again | later again phase' =>
        rw [spaceUnread, done] at again
        exact absurd again.1 (Int.lt_irrefl 0)
    · obtain ⟨dataBuffer, content, capacity, feeds⟩ := feedPacketMessage between message unread
      rw [feeds] at step
      obtain ⟨returned, called, step⟩ := Fallible.bindOk.mp step
      cases Except.ok.inj step
      obtain ⟨front, pacs, handled, split, between'⟩ := ih (betweenCalled leaves between called).1
      refine ⟨wire :: front, _, .cons message content capacity called handled, ?_, between'⟩
      rw [unreadSkipAppend pb unread] at split
      rw [unread, split, List.flatten_cons, List.append_assoc]

theorem handledCall {proto proto' : RtmpProto} {front : List Bytes} {pacs : List Packet}
    (handled : Handled table proto front proto' pacs) (between : Between proto) {rest : Bytes}
    (some : rest ≠ []) {pb : ReadBuffer} (unread : pb.unread = front.flatten ++ rest)
    (needs : pb.needMore = 0) :
    ∃ pb', ReaderCall table proto pb proto' pb' ∧ pb'.unread = rest := by
  have more {s : Bytes} {pb : ReadBuffer} (unread : pb.unread = s ++ rest) (needs : pb.needMore = 0) :
      0 < rtmpRbGetSpace pb ∧ pb.needMore = 0 := by
    have left := List.length_pos_of_ne_nil some
    refine ⟨?_, needs⟩
    rw [spaceUnread, unread, List.length_append]
    omega
  induction handled generalizing pb with
  | nil proto => exact ⟨pb, .here (more unread needs) between.pkgSt, unread⟩
  | cons message content capacity called rest' ih =>
    have test := more unread needs
    rw [List.flatten_cons, List.append_assoc] at unread
    obtain ⟨other, content', capacity', feeds⟩ := feedPacketMessage between message unread
    have same := fixBufferSame (content'.trans content.symm) (capacity'.trans capacity.symm)
    rw [same, called, Fallible.okBind] at feeds
    obtain ⟨pb', call, left⟩ :=
      ih (betweenCalled leaves between called).1 (unreadSkipAppend pb unread) needs
    exact ⟨pb', .later test between.pkgSt feeds call, left⟩

theorem receiveRejected {proto proto' : RtmpProto} {data rest : Bytes} {front : List Bytes}
    {pacs : List Packet} (between : Between proto) (some : data ≠ []) (bounded : data.length ≤ bufferSz)
    (handled : Handled table (fed proto data) front proto' pacs) (split : data = front.flatten ++ rest)
    (rejected : Rejected proto'.readChunkSize proto'.channelsIn rest) :
    ∃ e, receiveData table proto data = .error e ∧ ReadFault e := by
  have stored := betweenFed between bounded
  have between' := handledBetween leaves handled stored
  have count := handledLength handled
  have unread : (rtmpRbInit data).unread = front.flatten ++ rest := split
  have left := unreadSkipAppend _ unread
  obtain ⟨e, fails, fault⟩ :=
    getPacketRejected between'.state between'.positive between'.fits rejected left
  have total := congrArg List.length split
  rw [List.length_append] at total
  obtain ⟨spare, fuel⟩ : ∃ n, 2 * data.length + 2 = front.length + (n + 1) :=
    ⟨2 * data.length + 1 - front.length, by omega⟩
  have more : ((rtmpRbInit data).skip front.flatten.length).unread ≠ [] := by
    rw [left]
    exact rejectedNonempty rejected
  have rounds := handledRounds leaves handled stored (spare + 1) unread rfl
  rw [feedLoopPacket between' more rfl, feedPacket, fails] at rounds
  refine ⟨e, ?_, fault⟩
  rw [receiveDataFed table between.lastData between.readBuffer (List.length_pos_of_ne_nil some) bounded,
    fuel, rounds]
  rfl

end Calls

theorem readerSafety {table : MethodTable} (leaves : LeavesReader table) {proto : RtmpProto}
    (before : Fed table proto) (phase : proto.pkgSt = 3) {data : Bytes}
    (bounded : data.length ≤ bufferSz) :
    ReaderSafe table proto data ↔ NeverRejected table proto data := by
  have between := betweenFed (steadyBetween (fedSteady leaves before) phase) bounded
  have start : (rtmpRbInit data).unread = data := rfl
  constructor
  · intro safe front rest proto' pacs handled split rejected
    have between' := handledBetween leaves handled between
    obtain ⟨pb, call, unread⟩ := handledCall leaves handled between (rejectedNonempty rejected)
      (start.trans split) (needMoreInit data)
    obtain ⟨e, fails, fault⟩ :=
      getPacketRejected between'.state between'.positive between'.fits rejected unread
    exact safe _ _ _ call fails fault
  · intro accepted proto' pb e call fails fault
    obtain ⟨front, pacs, handled, split, between'⟩ := callHandled leaves between call
    rcases messageCases proto'.readChunkSize between'.positive proto'.channelsIn pb.unread (callMore call)
      with starved | rejected | ⟨_, _, _, refused⟩ | ⟨_, _, _, wire, rest, message, unread⟩
    · rw [getPacketStarved between'.state starved rfl] at fails
      cases Except.error.inj fails
      rcases fault with h | h | h | h | h <;> contradiction
    · exact accepted front pb.unread proto' pacs handled split rejected
    · obtain ⟨_, _, read⟩ := getPacketRefused between'.state refused rfl
      rw [read] at fails
      contradiction
    · obtain ⟨_, _, _, _, _, read⟩ := getPacketMessage between'.state between'.fits message unread
      rw [read] at fails
      contradiction

theorem handledPackets {table : MethodTable} (leaves : LeavesReader table) {proto proto' : RtmpProto}
    {front : List Bytes} {pacs : List Packet} (handled : Handled table proto front proto' pacs)
    (between : Between proto) {wires : List Bytes}
    (packets : Packets proto.readChunkSize proto.channelsIn wires) {rest : Bytes}
    (split : wires.flatten = front.flatten ++ rest) :
    ∃ back, Packets proto'.readChunkSize proto'.channelsIn back ∧ back.flatten = rest := by
  induction handled generalizing wires with
  | nil proto => exact ⟨wires, packets, split⟩
  | @cons proto proto₁ _ slot channel data wire front _ _ message content capacity called rest' ih =>
    rw [List.flatten_cons, List.append_assoc] at split
    cases packets with
    | nil =>
      have none := congrArg List.length split
      have some := messageNonempty message
      rw [List.length_append, List.flatten_nil, List.length_nil] at none
      omega
    | cons message' remaining =>
      rw [List.flatten_cons] at split
      obtain ⟨rfl, rfl, rfl⟩ := messageUnique between message' message split
      obtain ⟨between', chunk, channels⟩ := betweenCalled leaves between called
      rw [← chunk, ← channels] at remaining
      exact ih between' remaining (List.append_cancel_left split)

theorem packetsAccepted {table : MethodTable} (leaves : LeavesReader table) {proto : RtmpProto}
    (between : Between proto) {wires : List Bytes} (bounded : wires.flatten.length ≤ bufferSz)
    (packets : Packets proto.readChunkSize proto.channelsIn wires) :
    NeverRejected table proto wires.flatten := by
  intro front rest proto' pacs handled split rejected
  have stored := betweenFed between bounded
  have between' := handledBetween leaves handled stored
  obtain ⟨back, left, rfl⟩ := handledPackets leaves handled stored packets split
  cases left with
  | nil => exact rejectedNonempty rejected rfl
  | @cons _ _ _ _ wire wires message remaining =>
    have unread : (rtmpRbInit (wire :: wires).flatten).unread = wire ++ wires.flatten := rfl
    obtain ⟨_, _, _, _, _, read⟩ := getPacketMessage between'.state between'.fits message unread
    obtain ⟨e, fails, _⟩ := getPacketRejected between'.state between'.positive between'.fits rejected
      (unreadInit _)
    rw [read] at fails
    contradiction

theorem pingSafe : ∃ proto, Fed bareTable proto ∧ proto.pkgSt = 3 ∧
    ReaderSafe bareTable proto pingWire := by
  obtain ⟨proto, before, between, _, channels⟩ := opened
  have accepted := packetsAccepted barePassive.kept between (by decide) (pingPackets (channelTwoUsed channels) 1)
  exact ⟨proto, before, between.pkgSt,
    (readerSafety barePassive.kept before between.pkgSt (by decide)).mpr accepted⟩

theorem channelFourAborts : ∃ proto, Fed bareTable proto ∧ proto.pkgSt = 3 ∧
    ¬ ReaderSafe bareTable proto [4] ∧
    ∃ e, receiveData bareTable proto [4] = .error e ∧ ReadFault e := by
  obtain ⟨proto, before, between, chunk, channels⟩ := opened
  have bounded : ([4] : Bytes).length ≤ bufferSz := by decide
  have stored := betweenFed between bounded
  have unusable : Unusable (fed proto [4]).channelsIn 4 := by
    intro slot named
    have four : slot = 4 := Fin.ext (by omega)
    show (proto.channelsIn slot).used = false
    rw [channels, channelsInInit, four]
    rfl
  have rejected : Rejected (fed proto [4]).readChunkSize (fed proto [4]).channelsIn [4] :=
    .channel [] (BasicHeader.short 4 (by decide)) unusable
  obtain ⟨e, fails, fault⟩ := getPacketRejected stored.state stored.positive stored.fits rejected
    (unreadInit _)
  have aborts := receiveRejected barePassive.kept between (List.cons_ne_nil _ _) bounded (.nil _) rfl rejected
  have more : 0 < rtmpRbGetSpace (rtmpRbInit [4]) ∧ (rtmpRbInit [4]).needMore = 0 := ⟨by decide, rfl⟩
  exact ⟨proto, before, between.pkgSt,
    fun safe => safe _ _ e (.here more between.pkgSt) fails fault, aborts⟩

end Rushkit
