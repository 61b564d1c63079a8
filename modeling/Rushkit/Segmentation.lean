import Rushkit.FeedRun
import Rushkit.Handshake

/-! Cutting the bytes of a run of packets into received blocks. Nothing is kept of a
packet between two feeds, so the cuts must fall between packets. -/
namespace Rushkit
open ReadBuffer

-- The encodings of consecutive packets, each on the table the ones before it leave.
inductive Packets (chunk : Nat) : ChannelTable → List Bytes → Prop where
  | nil (table : ChannelTable) : Packets chunk table []
  | cons {table : ChannelTable} {slot : Fin 64} {channel : Channel} {data wire : Bytes}
      {wires : List Bytes} (message : Message chunk table slot channel data wire)
      (rest : Packets chunk (Function.update table slot channel) wires) :
      Packets chunk table (wire :: wires)

def WholeBlocks (wires cuts : List Bytes) : Prop :=
  ∃ groups : List (List Bytes), groups.flatten = wires ∧ cuts = groups.map List.flatten

theorem firstWhole {wire data : Bytes} {wires cuts : List Bytes}
    (blocks : WholeBlocks (wire :: wires) (data :: cuts)) (some : data ≠ []) :
    wire.length ≤ data.length := by
  obtain ⟨groups, whole, split⟩ := blocks
  cases groups with
  | nil => contradiction
  | cons group groups =>
    obtain ⟨rfl, _⟩ := List.cons.inj split
    cases group with
    | nil => contradiction
    | cons first group =>
      obtain ⟨rfl, _⟩ := List.cons.inj whole
      rw [List.flatten_cons, List.length_append]
      exact Nat.le_add_right first.length _

theorem messageUnique {proto : RtmpProto} (between : Between proto) {slot slot' : Fin 64}
    {channel channel' : Channel} {data data' wire wire' s s' : Bytes}
    (message : Message proto.readChunkSize proto.channelsIn slot channel data wire)
    (message' : Message proto.readChunkSize proto.channelsIn slot' channel' data' wire')
    (same : wire ++ s = wire' ++ s') : slot = slot' ∧ channel = channel' ∧ wire = wire' := by
  obtain ⟨_, _, _, _, _, read⟩ :=
    getPacketMessage between.state between.fits message (unreadInit (wire ++ s))
  obtain ⟨_, _, _, _, _, read'⟩ :=
    getPacketMessage between.state between.fits message' ((unreadInit (wire ++ s)).trans same)
  rw [read] at read'
  have results := Except.ok.inj read'
  have named : ((slot.val : Nat) : Int) = slot'.val := congrArg (fun r => r.1.channelId) results
  have record : channel = channel' := congrArg (fun r => r.1.channel) results
  have left := congrArg (fun r => r.2.2.unread.length) results
  have total := congrArg List.length same
  simp only [unreadSkip, unreadInit, List.length_drop, List.length_append] at left total
  have size : wire.length = wire'.length := by omega
  exact ⟨Fin.ext (by omega), record, (List.append_inj same size).1⟩

theorem prefixFails {proto : RtmpProto} (between : Between proto) {slot : Fin 64}
    {channel : Channel} {data front back : Bytes}
    (message : Message proto.readChunkSize proto.channelsIn slot channel data (front ++ back))
    (some : front ≠ []) (missing : back ≠ []) {pb : ReadBuffer} (unread : pb.unread = front) :
    ∃ e, rtmpPacketGetPacket proto pb = .error e := by
  have whole : (rtmpRbInit (front ++ back)).unread = (front ++ back) ++ [] := (List.append_nil _).symm
  obtain ⟨_, _, _, _, _, read⟩ := getPacketMessage between.state between.fits message whole
  rcases messageCases proto.readChunkSize between.positive proto.channelsIn front some with
    starved | rejected | ⟨_, _, tail, refused⟩ | ⟨_, _, _, wire, rest, shorter, rfl⟩
  · exact ⟨_, getPacketStarved between.state starved unread⟩
  · obtain ⟨e, fails, _⟩ := getPacketRejected between.state between.positive between.fits rejected unread
    exact ⟨e, fails⟩
  · -- A refused header would have refused the whole packet.
    cases refused with
    | mk _ header large =>
      have swallowed := Refused.mk (tail ++ back) header large
      rw [← List.append_assoc] at swallowed
      obtain ⟨_, _, read'⟩ := getPacketRefused between.state swallowed (unreadInit _)
      rw [read] at read'
      have states : 6 = 4 := congrArg (fun r => r.2.1.state) (Except.ok.inj read')
      contradiction
  · -- A whole packet in front would be the packet itself.
    have again : wire ++ rest ++ back ++ [] = wire ++ (rest ++ back) := by
      rw [List.append_nil, List.append_assoc]
    obtain ⟨_, _, same⟩ := messageUnique between message shorter again
    have lengths := congrArg List.length same
    have size := List.length_pos_of_ne_nil missing
    simp only [List.length_append] at lengths
    omega

theorem prefixSplits {data wire tail : Bytes} (within : data <+: wire ++ tail) :
    (∃ rest, data = wire ++ rest ∧ rest <+: tail) ∨ ∃ back, back ≠ [] ∧ wire = data ++ back := by
  rcases List.prefix_or_prefix_of_prefix within (List.prefix_append wire tail) with
    ⟨back, short⟩ | ⟨rest, long⟩
  · rcases eq_or_ne back [] with rfl | missing
    · refine .inl ⟨[], ?_, List.nil_prefix⟩
      rw [← short, List.append_nil, List.append_nil]
    · exact .inr ⟨back, missing, short.symm⟩
  · subst long
    exact .inl ⟨rest, rfl, (List.prefix_append_right_inj wire).mp within⟩

theorem packetsEnd {chunk : Nat} {table : ChannelTable} {wires : List Bytes}
    (packets : Packets chunk table wires) (empty : wires.flatten = []) : wires = [] := by
  cases packets with
  | nil => rfl
  | cons message rest =>
    have some := messageNonempty message
    have none := congrArg List.length empty
    rw [List.flatten_cons, List.length_append, List.length_nil] at none
    omega

section Blocks
variable {table : MethodTable} (passive : Passive table)
include passive

theorem loopWhole {wires : List Bytes} {proto proto' : RtmpProto} (between : Between proto)
    (packets : Packets proto.readChunkSize proto.channelsIn wires) (fuel : Nat) {pb pb' : ReadBuffer}
    {data : Bytes} {pacs : List Packet} (unread : pb.unread = data) (within : data <+: wires.flatten)
    (needs : pb.needMore = 0) (loop : feedLoop table fuel proto pb = .ok (proto', pacs, pb')) :
    ∃ front back, wires = front ++ back ∧ data = front.flatten ∧
      Handled table proto front proto' pacs ∧
      Packets proto'.readChunkSize proto'.channelsIn back ∧ pb'.needMore = 0 := by
  induction wires generalizing proto fuel pb data pacs with
  | nil =>
    have empty : data = [] := List.prefix_nil.mp within
    subst empty
    cases fuel with
    | zero => contradiction
    | succ fuel =>
      rw [feedLoopEnd unread] at loop
      cases Except.ok.inj loop
      exact ⟨[], [], rfl, rfl, .nil _, packets, needs⟩
  | cons wire wires ih =>
    cases fuel with
    | zero => contradiction
    | succ fuel =>
      rcases eq_or_ne data [] with rfl | nonempty
      · rw [feedLoopEnd unread] at loop
        cases Except.ok.inj loop
        exact ⟨[], wire :: wires, rfl, rfl, .nil _, packets, needs⟩
      rw [feedLoopPacket between (by rw [unread]; exact nonempty) needs] at loop
      obtain ⟨⟨next, pac, rest⟩, step, loop⟩ := Fallible.bindOk.mp loop
      obtain ⟨⟨last, later, after⟩, rounds, same⟩ := Fallible.bindOk.mp loop
      cases Except.ok.inj same
      rw [List.flatten_cons] at within
      cases packets with
      | @cons _ slot channel content _ _ message remaining =>
        rcases prefixSplits within with ⟨rest', rfl, later'⟩ | ⟨back, missing, rfl⟩
        · obtain ⟨dataBuffer, content', capacity, feeds⟩ := feedPacketMessage between message unread
          rw [feeds] at step
          obtain ⟨returned, called, step⟩ := Fallible.bindOk.mp step
          cases Except.ok.inj step
          obtain ⟨between', chunk, channels⟩ := betweenCalled passive.kept between called
          rw [← chunk, ← channels] at remaining
          obtain ⟨front, back, rfl, rfl, handled, left, done⟩ := ih between' remaining fuel
            (unreadSkipAppend pb unread) later' needs rounds
          exact ⟨wire :: front, back, rfl, rfl, .cons message content' capacity called handled, left, done⟩
        · obtain ⟨e, fails⟩ := prefixFails between message nonempty missing unread
          rw [feedPacket, fails, Fallible.errorBind] at step
          contradiction

omit passive in
theorem fedInput {proto : RtmpProto} (between : Between proto) (data : Bytes) :
    fed proto data = withInput proto (storeAt proto.readBuffer 0 data)
      (int32 (proto.numUpBytes + data.length)) := by
  have saved := between.lastData
  cases proto
  cases saved
  rfl

theorem receiveHandled {proto mid : RtmpProto} (between : Between proto) {wires : List Bytes}
    {pacs : List Packet} (handled : Handled table proto wires mid pacs) (some : wires.flatten ≠ [])
    (bounded : wires.flatten.length ≤ bufferSz) :
    ∃ readBuffer numUpBytes, Between (withInput mid readBuffer numUpBytes) ∧
      receiveData table proto wires.flatten = .ok (withInput mid readBuffer numUpBytes, pacs) := by
  have moved := handledInput passive handled (storeAt proto.readBuffer 0 wires.flatten)
    (int32 (proto.numUpBytes + wires.flatten.length))
  rw [← fedInput between] at moved
  have stored := betweenFed between bounded
  obtain ⟨pb', loop, needs⟩ := handledLoop passive.kept moved stored
    (2 * wires.flatten.length + 2) (unreadInit _) (needMoreInit _) (by omega)
  refine ⟨storeAt proto.readBuffer 0 wires.flatten, int32 (proto.numUpBytes + wires.flatten.length),
    handledBetween passive.kept moved stored, ?_⟩
  rw [receiveDataFed table between.lastData between.readBuffer (List.length_pos_of_ne_nil some) bounded,
    loop, Fallible.okBind]
  dsimp only
  rw [saveNothing _ needs, Fallible.okBind]

theorem receiveWhole {proto proto' : RtmpProto} (between : Between proto) {wires : List Bytes}
    (packets : Packets proto.readChunkSize proto.channelsIn wires) {data : Bytes} {pacs : List Packet}
    (some : data ≠ []) (bounded : data.length ≤ bufferSz) (within : data <+: wires.flatten)
    (received : receiveData table proto data = .ok (proto', pacs)) :
    ∃ front back, wires = front ++ back ∧ data = front.flatten ∧
      Handled table (fed proto data) front proto' pacs ∧ Between proto' ∧
      Packets proto'.readChunkSize proto'.channelsIn back := by
  rw [receiveDataFed table between.lastData between.readBuffer (List.length_pos_of_ne_nil some)
    bounded] at received
  obtain ⟨⟨next, later, after⟩, loop, received⟩ := Fallible.bindOk.mp received
  obtain ⟨saved, save, last⟩ := Fallible.bindOk.mp received
  cases Except.ok.inj last
  have stored := betweenFed between bounded
  obtain ⟨front, back, whole, here, handled, left, needs⟩ :=
    loopWhole passive stored packets _ (unreadInit _) within (needMoreInit _) loop
  dsimp only at save
  rw [saveNothing _ needs] at save
  cases Except.ok.inj save
  exact ⟨front, back, whole, here, handled, handledBetween passive.kept handled stored, left⟩

theorem receiveGroups (groups : List (List Bytes)) {proto proto' : RtmpProto} (between : Between proto)
    {pacs : List Packet} (handled : Handled table proto groups.flatten proto' pacs)
    (some : ∀ group ∈ groups, group.flatten ≠ [])
    (bounded : ∀ group ∈ groups, group.flatten.length ≤ bufferSz) :
    ∃ last, receiveAllData table proto (groups.map List.flatten) = .ok (last, pacs) := by
  induction groups generalizing proto proto' pacs with
  | nil =>
    cases handled with
    | nil => exact ⟨proto, rfl⟩
  | cons group groups ih =>
    rw [List.flatten_cons] at handled
    obtain ⟨mid, early, late, first, second, rfl⟩ := handledAppend handled
    obtain ⟨readBuffer, numUpBytes, between', received⟩ := receiveHandled passive between first
      (some group List.mem_cons_self) (bounded group List.mem_cons_self)
    obtain ⟨last, rest⟩ := ih between'
      (handledInput passive second readBuffer numUpBytes)
      (fun g h => some g (List.mem_cons_of_mem group h))
      (fun g h => bounded g (List.mem_cons_of_mem group h))
    refine ⟨last, ?_⟩
    simp only [List.map_cons, receiveAllData, received, rest, Fallible.okBind]

theorem cutsWhole (cuts : List Bytes) {wires : List Bytes} {proto last : RtmpProto}
    (between : Between proto) (packets : Packets proto.readChunkSize proto.channelsIn wires)
    {pacs : List Packet} (cut : cuts.flatten = wires.flatten) (nonempty : ∀ data ∈ cuts, data ≠ [])
    (bounded : ∀ data ∈ cuts, data.length ≤ bufferSz)
    (received : receiveAllData table proto cuts = .ok (last, pacs)) : WholeBlocks wires cuts := by
  induction cuts generalizing wires proto pacs with
  | nil =>
    have empty := packetsEnd packets cut.symm
    exact ⟨[], by rw [empty]; rfl, rfl⟩
  | cons data cuts ih =>
    simp only [receiveAllData, Fallible.bindOk] at received
    obtain ⟨⟨next, early⟩, here, ⟨after, late⟩, rest, same⟩ := received
    cases Except.ok.inj same
    have within : data <+: wires.flatten := by
      rw [← cut, List.flatten_cons]
      exact List.prefix_append data cuts.flatten
    obtain ⟨front, back, rfl, rfl, handled, between', left⟩ := receiveWhole passive between packets
      (nonempty data List.mem_cons_self) (bounded data List.mem_cons_self) within here
    rw [List.flatten_cons, List.flatten_append] at cut
    obtain ⟨groups, rfl, rfl⟩ := ih between' left (List.append_cancel_left cut)
      (fun d h => nonempty d (List.mem_cons_of_mem _ h))
      (fun d h => bounded d (List.mem_cons_of_mem _ h)) rest
    exact ⟨front :: groups, rfl, rfl⟩

end Blocks

theorem segmentation {table : MethodTable} (passive : Passive table) {proto : RtmpProto}
    (between : Between proto) {wires : List Bytes}
    (packets : Packets proto.readChunkSize proto.channelsIn wires)
    (bounded : wires.flatten.length ≤ bufferSz) {whole : RtmpProto} {pacs : List Packet}
    (single : receiveData table proto wires.flatten = .ok (whole, pacs)) {cuts : List Bytes}
    (cut : cuts.flatten = wires.flatten) (nonempty : ∀ data ∈ cuts, data ≠ []) :
    (∃ last, receiveAllData table proto cuts = .ok (last, pacs)) ↔ WholeBlocks wires cuts := by
  have within (data : Bytes) (h : data ∈ cuts) : data.length ≤ bufferSz := by
    have part := (List.sublist_flatten_of_mem h).length_le
    rw [cut] at part
    omega
  constructor
  · rintro ⟨last, received⟩
    exact cutsWhole passive cuts between packets cut nonempty within received
  · rintro ⟨groups, rfl, rfl⟩
    have some (group : List Bytes) (h : group ∈ groups) := nonempty _ (List.mem_map_of_mem h)
    have fits (group : List Bytes) (h : group ∈ groups) := within _ (List.mem_map_of_mem h)
    rcases eq_or_ne groups.flatten.flatten [] with empty | more
    · rw [empty, receiveNothing table between.lastData] at single
      cases Except.ok.inj single
      cases groups with
      | nil => exact ⟨proto, rfl⟩
      | cons group groups =>
        rw [List.flatten_cons, List.flatten_append, List.append_eq_nil_iff] at empty
        exact absurd empty.1 (some group List.mem_cons_self)
    · obtain ⟨front, back, split, here, handled, _, left⟩ :=
        receiveWhole passive between packets more bounded (List.prefix_refl _) single
      have missing : back.flatten = [] := by
        rw [split, List.flatten_append] at here
        exact List.append_right_eq_self.mp here
      have none := packetsEnd left missing
      rw [none, List.append_nil] at split
      rw [← split] at handled
      have moved := handledInput passive handled proto.readBuffer proto.numUpBytes
      rw [fedInput between] at moved
      exact receiveGroups passive groups between moved some fits

theorem barePassive : Passive bareTable where
  kept called := by
    cases Except.ok.inj called
    exact ⟨rfl, rfl, rfl, rfl, rfl, rfl⟩
  blind _ _ _ _ := rfl

theorem opened : ∃ proto, Fed bareTable proto ∧ Between proto ∧
    proto.readChunkSize = 128 ∧ proto.channelsIn = rtmpProtoInit.channelsIn := by
  have zeros : (List.replicate handshakeSize (0 : UInt8)).length = handshakeSize := List.length_replicate
  have size : (clientOpening (List.replicate handshakeSize 0) (List.replicate handshakeSize 0)).length =
      openingSize := by
    unfold clientOpening openingSize
    rw [List.length_cons, List.length_append, zeros]
    omega
  have some : clientOpening (List.replicate handshakeSize 0) (List.replicate handshakeSize 0) ≠ [] :=
    List.cons_ne_nil _ _
  have writes : bareTable.onWriteData = true := rfl
  obtain ⟨proto, received, shaken⟩ :=
    handshakeData writes ⟨_, rfl⟩ size shakenInit some (List.prefix_refl _)
  have fed := Fed.data .init received
  have steady := fedSteady barePassive.kept fed
  have phase : proto.pkgSt = 3 := by
    rw [shaken.pkgSt, List.nil_append, stage, size]
    decide
  exact ⟨proto, fed, steadyBetween steady phase, steady.readChunkSize, shaken.channelsIn⟩

def pingWire : Bytes := [2, 0, 0, 0, 0, 0, 0, 4, 0, 0, 0, 0]

def pingChannel : Channel := ⟨true, 0, 0, pacPing, 0⟩

theorem pingMessage {chunk : Nat} {table : ChannelTable}
    (used : (table 2).used = true) : Message chunk table 2 pingChannel [] pingWire := by
  have header : Head table 2 (receivedChannel 0 (table 2) [0, 0, 0, 0, 0, 0, 4, 0, 0, 0, 0]) pingWire :=
    .mk (BasicHeader.short 2 (by decide)) used rfl
  have record : receivedChannel 0 (table 2) [0, 0, 0, 0, 0, 0, 4, 0, 0, 0, 0] = pingChannel := by
    have new : 0 = channelNew := rfl
    rw [receivedChannel, if_pos new, used]
    rfl
  rw [record] at header
  have opens : Opened table 2 pingChannel (pingWire ++ []) := .mk header (by decide) rfl
  have payload : Payload chunk pingChannel [] [] :=
    .chunked (by decide) rfl (.last [] (Nat.zero_le chunk))
  exact .mk opens payload

theorem pingHandled {proto : RtmpProto} (used : (proto.channelsIn 2).used = true) (n : Nat) :
    ∃ proto', Handled bareTable proto (List.replicate n pingWire) proto'
      (List.replicate n ⟨2, pingChannel, []⟩) := by
  induction n generalizing proto with
  | zero => exact ⟨proto, .nil proto⟩
  | succ n ih =>
    have message : Message proto.readChunkSize proto.channelsIn 2 pingChannel [] pingWire := pingMessage used
    have called : deliver bareTable (received proto 2 pingChannel 6 (headMask pingWire) ⟨[], 0, Nat.zero_le 0⟩)
        ⟨2, pingChannel, []⟩ = .ok (received proto 2 pingChannel 6 (headMask pingWire) ⟨[], 0, Nat.zero_le 0⟩) := rfl
    have still : ((rtmpPacketReset (received proto 2 pingChannel 6 (headMask pingWire)
        ⟨[], 0, Nat.zero_le 0⟩)).channelsIn 2).used = true := by
      show (Function.update proto.channelsIn 2 pingChannel 2).used = true
      rw [Function.update_self]
      rfl
    obtain ⟨proto', later⟩ := ih still
    exact ⟨proto', .cons message rfl rfl called later⟩

theorem pingPackets {chunk : Nat} {table : ChannelTable} (used : (table 2).used = true) (n : Nat) :
    Packets chunk table (List.replicate n pingWire) := by
  induction n generalizing table with
  | zero => exact .nil table
  | succ n ih =>
    refine .cons (pingMessage used) (ih ?_)
    rw [Function.update_self]
    rfl

theorem channelTwoUsed {proto : RtmpProto} (channels : proto.channelsIn = rtmpProtoInit.channelsIn) :
    (proto.channelsIn 2).used = true := by
  rw [channels, channelsInInit]
  rfl

theorem pingWhole : ∃ proto last, Fed bareTable proto ∧
    receiveAllData bareTable proto [pingWire, pingWire] =
      .ok (last, [⟨2, pingChannel, []⟩, ⟨2, pingChannel, []⟩]) := by
  obtain ⟨proto, fed, between, _, channels⟩ := opened
  have used := channelTwoUsed channels
  obtain ⟨proto', handled⟩ := pingHandled used 2
  obtain ⟨_, _, _, single⟩ := receiveHandled barePassive between handled (by decide) (by decide)
  have blocks : WholeBlocks [pingWire, pingWire] [pingWire, pingWire] := ⟨[[pingWire], [pingWire]], rfl, rfl⟩
  obtain ⟨last, received⟩ := (segmentation barePassive between (pingPackets used 2) (by decide)
    single rfl (by decide)).mpr blocks
  exact ⟨proto, last, fed, received⟩

theorem cutPingHangs : ∃ proto, Fed bareTable proto ∧ Between proto ∧
    Packets proto.readChunkSize proto.channelsIn [pingWire] ∧
    (∃ last, receiveData bareTable proto pingWire = .ok (last, [⟨2, pingChannel, []⟩])) ∧
    ¬ ∃ last pacs, receiveAllData bareTable proto [pingWire.take 1, pingWire.drop 1] = .ok (last, pacs) := by
  obtain ⟨proto, fed, between, _, channels⟩ := opened
  have used := channelTwoUsed channels
  have packets : Packets proto.readChunkSize proto.channelsIn [pingWire] := pingPackets used 1
  obtain ⟨proto', handled⟩ := pingHandled used 1
  obtain ⟨_, _, _, single⟩ := receiveHandled barePassive between handled (by decide) (by decide)
  refine ⟨proto, fed, between, packets, ⟨_, single⟩, ?_⟩
  rintro ⟨last, pacs, received⟩
  have cut : [pingWire.take 1, pingWire.drop 1].flatten = [pingWire].flatten := rfl
  have blocks := cutsWhole barePassive _ between packets cut (by decide) (by decide) received
  exact absurd (firstWhole blocks (by decide)) (by decide)

end Rushkit
