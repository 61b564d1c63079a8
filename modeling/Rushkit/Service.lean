import Rushkit.Conversation
import Rushkit.InboundMessage
import Rushkit.Payloads

/-! Which blocks a connection gets through: those whose packets its callbacks can take.
What they are answered with is that of a conversation. -/
namespace Rushkit
open Amf Dialogue ReadBuffer

/- A packet no callback fails on, when the application takes these calls. The arguments of a call
leave the pool in order for what is sent in reply. -/
inductive Serviced (takes : Bytes → List AV → Prop) (pac : Packet) : Prop where
  | ping (type : pac.channel.dataType = pacPing)
  | bytesRead (type : pac.channel.dataType = pacBytesRead) (four : pac.data.length = 4)
  | chunkSize (type : pac.channel.dataType = pacChunkSize) (four : 4 ≤ pac.data.length)
  | invoke {methodName : Bytes} {requestId : Int} {args : List AV} {asked : List Nat}
      (type : pac.channel.dataType = pacInvoke)
      (read : readInvocation pac.data = .ok ((methodName, requestId, args), asked))
      (inOrder : rtPoolLeft asked = none) (taken : methodName = cString "connect" ∨ takes methodName args)
  | other (type : pac.channel.dataType ∉ [pacPing, pacBytesRead, pacChunkSize, pacInvoke])

theorem packedServiced {takes : Bytes → List AV → Prop} {pac : Packet} {methodName : Bytes} {requestId : Int}
    {args : List AV} (type : pac.channel.dataType = pacInvoke) (data : pac.data = callData methodName requestId args)
    (encodable : ValuesEncodable args) (short : (callData methodName requestId args).length ≤ 32767)
    (taken : methodName = cString "connect" ∨ takes methodName args) : Serviced takes pac := by
  obtain ⟨asked, read, inOrder⟩ := readInvocationPacked encodable short
  rw [← callData, ← data] at read
  exact .invoke type read inOrder taken

def Returning (c : Nat) (now : Int) (slot : Fin 64) (step : RtmpProto → Res RtmpProto) : Prop :=
  ∀ proto : RtmpProto, proto.channelId = slot.val → proto.writeChunkSize = c → Timely now proto →
    ∃ proto', step proto = .ok proto'

/- No callback of the application fails, but for the calls it does not take. -/
structure Reliable (c : Nat) (now : Int) (on : Fin 64 → Prop) (takes : Bytes → List AV → Prop)
    (table : MethodTable) : Prop where
  invoked : ∀ {slot}, on slot → ∀ requestId methodName args, takes methodName args → Returning c now slot
    fun proto => callBack table proto slot.val requestId (.string methodName) args
  handed : ∀ {slot}, on slot → ∀ pac : Packet, pac.channelId = slot.val →
    ∀ callback ∈ [table.onPacketInvalid, table.onPacketAudio, table.onPacketVideo],
      Returning c now slot fun proto => handOn callback proto pac

def takesAll (_ : Bytes) (_ : List AV) : Prop := True

theorem returningOk {c : Nat} {now : Int} {slot : Fin 64} : Returning c now slot .ok :=
  fun proto _ _ _ => ⟨proto, rfl⟩

theorem bareReliable (c : Nat) (now : Int) : Reliable c now Exchanged takesAll bareTable where
  invoked _ _ _ _ _ := returningOk
  handed _ pac _ callback member := by
    have none : callback = none := by simpa [bareTable] using member
    subst none
    exact returningOk

theorem unpackIntOk {data : Bytes} (four : 4 ≤ data.length) : ∃ n, unpackInt data = .ok n := by
  rw [unpackInt, if_pos four]
  exact ⟨_, rfl⟩

theorem chunkSizeReturns (table : MethodTable) (proto : RtmpProto) {pac : Packet} (four : 4 ≤ pac.data.length) :
    ∃ proto', defaultOnPacketChunkSize table proto pac = .ok proto' := by
  have enough : 4 ≤ (pac.data ++ table.behind pac).length := by
    rw [List.length_append]
    omega
  obtain ⟨n, read⟩ := unpackIntOk enough
  rw [defaultOnPacketChunkSize, read, Fallible.okBind]
  split
  · exact ⟨_, rfl⟩
  · exact ⟨_, rfl⟩

theorem bytesReadReturns (proto : RtmpProto) {pac : Packet} (four : pac.data.length = 4) :
    ∃ proto', defaultOnPacketBytesRead proto pac = .ok proto' := by
  obtain ⟨n, read⟩ := unpackIntOk four.ge
  rw [defaultOnPacketBytesRead, checkTrue four, read]
  exact ⟨proto, rfl⟩

section Deliver
variable {c : Nat} (positive : 1 ≤ c) {now : Int} {on : Fin 64 → Prop} {takes : Bytes → List AV → Prop}
  {application : Application} {table : MethodTable} (obeys : Obeys c now on application table) (reliable : Reliable c now on takes table)
  {slot : Fin 64} (opened : on slot) {pac : Packet} (named : pac.channelId = slot.val) {proto : RtmpProto}
  (current : proto.channelId = slot.val) (chunk : proto.writeChunkSize = c) (timely : Timely now proto)
include positive obeys reliable opened named current chunk timely

theorem invokeReturns {methodName : Bytes} {requestId : Int} {args : List AV} {asked : List Nat}
    (read : readInvocation pac.data = .ok ((methodName, requestId, args), asked))
    (inOrder : rtPoolLeft asked = none) (taken : methodName = cString "connect" ∨ takes methodName args) :
    ∃ proto', defaultOnPacketInvoke table now proto pac = .ok proto' := by
  have before : Replies c now proto (afterInvocation proto methodName requestId) [] :=
    invokedAfter proto methodName requestId
  have timely := tickedTimely timely before.ticked
  have current := before.channelId.trans current
  have chunk := before.writeChunkSize.trans chunk
  rw [invokeReads, named, read, Fallible.okBind]
  by_cases connect : methodName = cString "connect"
  · obtain ⟨asked', blocks, still⟩ := newBlocksInOrder inOrder (by decide : ∀ size ∈ connectBlocks, size < 2147481600)
    obtain ⟨after, handled, _⟩ := resultReplies obeys.writes positive chunk (obeys.within opened) current timely still
      (connectShort requestId)
    rw [if_pos connect, blocks, Fallible.okBind]
    exact ⟨after, handled⟩
  · rw [if_neg connect]
    exact reliable.invoked opened requestId methodName args (taken.resolve_left connect) _ current chunk timely

theorem deliverReturns (serviced : Serviced takes pac)
    (short : pac.channel.dataType = pacInvalid ∨ pac.data.length ≤ 32767) :
    ∃ proto', deliver (rtmpProtoMethodTableInit table now) proto pac = .ok proto' := by
  have handed (callback : Option PacketCallback)
      (member : callback ∈ [table.onPacketInvalid, table.onPacketAudio, table.onPacketVideo]) :
      ∃ proto', handOn callback proto pac = .ok proto' :=
    reliable.handed opened pac named callback member proto current chunk timely
  show ∃ proto', defaultOnPacket (rtmpProtoMethodTableInit table now) proto pac = .ok proto'
  unfold defaultOnPacket
  cases serviced with
  | ping type =>
    rw [type] at short ⊢
    obtain ⟨after, handled, _⟩ := pingReplies obeys.writes positive chunk (obeys.within opened) current timely named
      (short.resolve_left (by decide))
    exact ⟨after, handled⟩
  | bytesRead type four =>
    rw [type]
    exact bytesReadReturns proto four
  | chunkSize type four =>
    rw [type]
    exact chunkSizeReturns table proto four
  | invoke type read inOrder taken =>
    rw [type]
    exact invokeReturns positive obeys reliable opened named current chunk timely read inOrder taken
  | other type =>
    simp only [List.mem_cons, List.not_mem_nil, or_false, not_or] at type
    obtain ⟨notPing, notBytesRead, notChunkSize, notInvoke⟩ := type
    rw [if_neg notChunkSize, if_neg notBytesRead, if_neg notPing, if_neg notInvoke]
    split
    · exact handed table.onPacketInvalid (by simp)
    split
    · exact handed table.onPacketAudio (by simp)
    split
    · exact handed table.onPacketVideo (by simp)
    · exact ⟨proto, rfl⟩

end Deliver

theorem transcriptFits {b b' : RtmpProto} {wires : List Bytes} {pacs : List Packet}
    (transcript : Transcript ReadsMessage b wires pacs b') : wires.length ≤ wires.flatten.length := by
  induction transcript with
  | nil => exact Nat.le_refl 0
  | cons first later ih =>
    obtain ⟨slot, channel, data, message, _, _⟩ := first
    have some := messageNonempty message
    rw [List.flatten_cons, List.length_append, List.length_cons]
    omega

-- What a reader goes on with: the records of its channels, and how messages are cut.
def SameReader (proto b : RtmpProto) : Prop :=
  proto.readChunkSize = b.readChunkSize ∧ proto.channelsIn = b.channelsIn

section Blocks
variable {c : Nat} (positive : 1 ≤ c) {now : Int} {on : Fin 64 → Prop} {takes : Bytes → List AV → Prop}
  {application : Application} {table : MethodTable} (obeys : Obeys c now on application table) (reliable : Reliable c now on takes table)
  {proto b b' : RtmpProto} (listening : Listening c proto) (timely : Timely now proto)
  (same : SameReader proto b)
include positive obeys reliable listening timely same

theorem packetServed {wire rest : Bytes} {pac : Packet} (reads : ReadsMessage b wire pac b')
    (exchange : Within on pac) (serviced : Serviced takes pac) {pb : ReadBuffer} (unread : pb.unread = wire ++ rest) :
    ∃ proto', feedPacket (rtmpProtoMethodTableInit table now) proto pb = .ok (proto', pac, pb.skip wire.length) ∧
      SameReader proto' b' := by
  obtain ⟨slot, channel, data, message, rfl, rfl⟩ := reads
  obtain ⟨other, opened, named⟩ := exchange
  have entry : other = slot := Fin.ext (by dsimp only at named; omega)
  subst entry
  rw [← same.1, ← same.2] at message
  have short := messageShort message
  obtain ⟨dataBuffer, _, _, step⟩ := @feedPacketMessage (rtmpProtoMethodTableInit table now) proto
    listening.between other channel data wire rest message pb unread
  have entered := enteredReceived proto other channel 6 (headMask wire) dataBuffer
  generalize received proto other channel 6 (headMask wire) dataBuffer = inside at step entered
  have chunk := entered.writeChunkSize.trans listening.chunk
  have timely' := enteredTimely entered timely
  obtain ⟨returned, called⟩ := deliverReturns positive obeys reliable opened named entered.current chunk timely'
    serviced (.inr short)
  obtain ⟨packets, _, replies⟩ :=
    deliverResponds positive obeys opened named (.inr short) entered.current chunk timely' called
  have tables := replies.kept.channelsIn.trans entered.channelsIn
  rw [same.2] at tables
  rw [step, called]
  exact ⟨rtmpPacketReset returned, rfl, (replies.kept.readChunkSize.trans entered.readChunkSize).trans same.1, tables⟩

theorem loopServed {wires : List Bytes} {pacs : List Packet} (transcript : Transcript ReadsMessage b wires pacs b')
    (exchange : ∀ pac ∈ pacs, Within on pac) (serviced : ∀ pac ∈ pacs, Serviced takes pac) {fuel : Nat}
    (enough : wires.length < fuel) {pb : ReadBuffer} (unread : pb.unread = wires.flatten) (needs : pb.needMore = 0) :
    ∃ proto' pb', feedLoop (rtmpProtoMethodTableInit table now) fuel proto pb = .ok (proto', pacs, pb') ∧
      SameReader proto' b' := by
  induction transcript generalizing proto pb fuel with
  | nil b =>
    obtain ⟨spare, rfl⟩ : ∃ n, fuel = n + 1 := ⟨fuel - 1, by omega⟩
    exact ⟨proto, pb, feedLoopEnd unread spare, same⟩
  | @cons b b₁ b₂ wire pac wires pacs first later ih =>
    obtain ⟨spare, rfl⟩ : ∃ n, fuel = n + 1 := ⟨fuel - 1, by omega⟩
    obtain ⟨mine, others⟩ := List.forall_mem_cons.mp exchange
    obtain ⟨now', rest⟩ := List.forall_mem_cons.mp serviced
    rw [List.flatten_cons] at unread
    rw [List.length_cons] at enough
    have some : pb.unread ≠ [] := by
      obtain ⟨slot, channel, data, message, _, _⟩ := first
      rw [unread]
      exact List.append_ne_nil_of_left_ne_nil (List.ne_nil_of_length_pos (messageNonempty message)) _
    obtain ⟨next, step, same'⟩ := packetServed positive obeys reliable listening timely same first mine now' unread
    obtain ⟨packets, turn, ticked, _⟩ := answerPacket positive obeys listening timely mine step
    obtain ⟨proto', pb', loop, after⟩ := ih turn.listening (tickedTimely timely ticked) same' others rest
      (by omega : wires.length < spare) (unreadSkipAppend pb unread) needs
    refine ⟨proto', pb', ?_, after⟩
    rw [feedLoopPacket listening.between some needs, step, Fallible.okBind]
    dsimp only
    rw [loop]
    rfl

theorem blockServed {wires : List Bytes} {pacs : List Packet} (transcript : Transcript ReadsMessage b wires pacs b')
    (exchange : ∀ pac ∈ pacs, Within on pac) (serviced : ∀ pac ∈ pacs, Serviced takes pac)
    (fits : wires.flatten.length ≤ bufferSz) :
    ∃ proto', receiveData (rtmpProtoMethodTableInit table now) proto wires.flatten = .ok (proto', pacs) ∧
      SameReader proto' b' := by
  have between := listening.between
  have count := transcriptFits transcript
  rcases Nat.eq_zero_or_pos wires.flatten.length with none | some
  · have empty : wires = [] := List.eq_nil_of_length_eq_zero (by omega)
    subst empty
    cases transcript
    exact ⟨_, receiveNothing _ between.lastData, same⟩
  · have stored : Listening c (fed proto wires.flatten) := ⟨betweenFed between fits, listening.chunk⟩
    have enough : wires.length < 2 * wires.flatten.length + 2 := by omega
    obtain ⟨proto', pb', loop, after⟩ := loopServed positive obeys reliable stored timely same transcript exchange
      serviced enough (unreadInit _) rfl
    obtain ⟨_, _, _, needs⟩ := answerLoop positive obeys _ stored timely exchange loop
    rw [receiveDataFed _ between.lastData between.readBuffer some fits, loop, Fallible.okBind, saveNothing _ needs]
    exact ⟨proto', rfl, after⟩

end Blocks

-- Every block holds whole messages, as a reader with the records of `b` finds them.
inductive Carried : RtmpProto → List (Int × Bytes) → List Packet → RtmpProto → Prop where
  | nil (b : RtmpProto) : Carried b [] [] b
  | cons {b mid last : RtmpProto} (now : Int) {wires : List Bytes} {pacs more : List Packet}
      {blocks : List (Int × Bytes)} (transcript : Transcript ReadsMessage b wires pacs mid)
      (fits : wires.flatten.length ≤ bufferSz) (rest : Carried mid blocks more last) :
      Carried b ((now, wires.flatten) :: blocks) (pacs ++ more) last

theorem runServed {c : Nat} (positive : 1 ≤ c) {on : Fin 64 → Prop} {takes : Bytes → List AV → Prop}
    {application : Application} {program : Int → MethodTable} (obeys : ∀ now, Obeys c now on application (program now))
    (reliable : ∀ now, Reliable c now on takes (program now)) {proto b last : RtmpProto}
    {blocks : List (Int × Bytes)} {pacs : List Packet} (carried : Carried b blocks pacs last)
    (listening : Listening c proto) (paced : Paced proto (blocks.map Prod.fst)) (same : SameReader proto b)
    (exchange : ∀ pac ∈ pacs, Within on pac) (serviced : ∀ pac ∈ pacs, Serviced takes pac) :
    ∃ proto', receiveTimed program proto blocks = .ok (proto', pacs) ∧ SameReader proto' last := by
  induction carried generalizing proto with
  | nil b => exact ⟨proto, rfl, same⟩
  | @cons b mid last now wires pacs more blocks transcript fits rest ih =>
    obtain ⟨mine, others⟩ := List.forall_mem_append.mp exchange
    obtain ⟨now', later⟩ := List.forall_mem_append.mp serviced
    have timely := paced.reach now List.mem_cons_self
    obtain ⟨next, received, same'⟩ :=
      blockServed positive (obeys now) (reliable now) listening timely same transcript mine now' fits
    obtain ⟨answers, turn, ticked⟩ := answerBlock positive (obeys now) listening timely mine received
    obtain ⟨proto', run, after⟩ := ih turn.listening (pacedLater paced ticked) same' others later
    refine ⟨proto', ?_, after⟩
    rw [receiveTimed, received, Fallible.okBind]
    dsimp only
    rw [run]
    rfl

section Runs
variable {c : Nat} (positive : 1 ≤ c) {on : Fin 64 → Prop} {takes : Bytes → List AV → Prop} {application : Application}
  {program : Int → MethodTable} (obeys : ∀ now, Obeys c now on application (program now))
  {proto : RtmpProto} {blocks : List (Int × Bytes)} {pacs : List Packet} (listening : Listening c proto)
  (paced : Paced proto (blocks.map Prod.fst)) (exchange : ∀ pac ∈ pacs, Within on pac)
include positive obeys listening paced exchange

theorem runServiced (reliable : ∀ now, Reliable c now on takes (program now)) {last : RtmpProto}
    (carried : Carried proto blocks pacs last) (serviced : ∀ pac ∈ pacs, Serviced takes pac) :
    ∃ proto', receiveTimed program proto blocks = .ok (proto', pacs) := by
  obtain ⟨proto', received, _⟩ := runServed positive obeys reliable carried listening paced ⟨rfl, rfl⟩ exchange serviced
  exact ⟨proto', received⟩

theorem conversation (fits : c + 1 < 2147483648) {last : RtmpProto}
    (received : receiveTimed program proto blocks = .ok (last, pacs)) : ∃ answers,
      List.Forall₂ (Answered application) pacs answers ∧ Heard c proto last answers.flatten ∧
      ∀ slot, int32 (last.lastTimers slot) = int32 (proto.lastTimers slot + timers slot answers.flatten) := by
  obtain ⟨answers, turn⟩ := conversationTurn positive obeys received listening paced exchange
  exact ⟨answers, turn.answered, spokenHeard fits turn.utters.speaks, turn.utters.clock⟩

end Runs

def openProto : RtmpProto := { rtmpProtoInit with pkgSt := 3 }

theorem openListening : Listening 128 openProto :=
  ⟨⟨rfl, rfl, rfl, List.length_replicate, by decide, by decide⟩, rfl⟩

theorem syncedReader {c : Nat} {a b b' : RtmpProto} (synced : Synced c a b) (same : SameReader b' b)
    (state : b'.state = 0) : Synced c a b' where
  chunkOut := synced.chunkOut
  chunkIn := same.1.trans synced.chunkIn
  between := state
  usedOut := synced.usedOut
  usedIn slot h := by rw [same.2]; exact synced.usedIn slot h
  records slot h f := by rw [same.2]; exact synced.records slot h f
  streamId := synced.streamId

theorem openReads : Synced 128 rtmpProtoInit openProto := syncedReader (syncedInit 128) ⟨rfl, rfl⟩ rfl

theorem openWrites : Synced 128 openProto (receiver 128) := syncedFrame (syncedInit 128) rfl rfl

theorem freshPaced (proto : RtmpProto) (fresh : proto.lastTimers = rtmpProtoInit.lastTimers) {times : List Int}
    (sorted : times.Pairwise (· ≤ ·)) (reach : ∀ now ∈ times, 0 ≤ now ∧ now ≤ 0xfffffe) : Paced proto times := by
  refine ⟨sorted, fun now member slot _ => ?_⟩
  rw [fresh]
  show 0 ≤ now ∧ now ≤ 0 + 0xfffffe
  have bounds := reach now member
  omega

theorem newReads {b : RtmpProto} {slot : Fin 64} (form : 2 ≤ slot.val) (used : (b.channelsIn slot).used = true)
    (fields : Bytes) (width : fields.length = 11) {channel : Channel}
    (record : receivedChannel channelNew initChannel fields = channel) (small : channel.size < maxPacketSize)
    (plain : addcodeWidth channel = 0) (typed : 0 < channel.dataType) {data : Bytes}
    (size : data.length = channel.size.toNat) (one : data.length ≤ b.readChunkSize) :
    ReadsMessage b (UInt8.ofNat slot.val :: fields ++ data) ⟨slot.val, channel, data⟩
      (setChannelIn (rtmpPacketReset b) slot channel) := by
  have header := newHead form used fields width
  have same : receivedChannel channelNew (b.channelsIn slot) fields = channel := by
    rw [← record]
    simp only [receivedChannel, if_pos, used]
    rfl
  rw [same] at header
  have opened : Opened b.channelsIn slot channel (UInt8.ofNat slot.val :: fields ++ []) :=
    .mk header small plain.symm
  rw [List.append_nil] at opened
  exact ⟨slot, channel, data, .mk opened (.chunked typed size (.last data one)), rfl, rfl⟩

def onePing : Packet := ⟨2, ⟨true, 0, 1, 4, 0⟩, [9]⟩

def onePingWire : Bytes := [2, 0, 0, 0, 0, 0, 1, 4, 0, 0, 0, 0, 9]

theorem pingWithin : ∀ pac ∈ [onePing] ++ [], Within Exchanged pac := by
  simp only [List.append_nil, List.mem_singleton, forall_eq]
  exact ⟨2, .inl rfl, rfl⟩

theorem pingCarried {b : RtmpProto} (same : SameReader b rtmpProtoInit) :
    ∃ last, Carried b [(5, [onePingWire].flatten)] ([onePing] ++ []) last := by
  have used : (b.channelsIn 2).used = true := by
    rw [same.2]
    decide
  have one : ([9] : Bytes).length ≤ b.readChunkSize := by
    rw [same.1]
    decide
  have reads := newReads (Nat.le_refl 2) used [0, 0, 0, 0, 0, 1, 4, 0, 0, 0, 0] rfl rfl (by decide) rfl (by decide) rfl
    one
  exact ⟨_, .cons 5 (.cons reads (.nil _)) (by decide) (.nil _)⟩

theorem pingPaced : Paced openProto ([(5, [onePingWire].flatten)].map Prod.fst) :=
  freshPaced openProto rfl (List.pairwise_singleton _ _) (by simp)

theorem pingServiced : ∀ pac ∈ [onePing] ++ [], Serviced takesAll pac := by
  simp only [List.append_nil, List.mem_singleton, forall_eq]
  exact .ping rfl

theorem pingReceived : ∃ last, receiveTimed (fun _ => bareTable) openProto [(5, [onePingWire].flatten)] =
    .ok (last, [onePing] ++ []) := by
  obtain ⟨last, carried⟩ := pingCarried (b := openProto) ⟨rfl, rfl⟩
  obtain ⟨proto', received, _⟩ := runServed (Nat.le_of_ble_eq_true rfl) (bareObeys 128) (bareReliable 128)
    carried openListening pingPaced ⟨rfl, rfl⟩ pingWithin pingServiced
  exact ⟨proto', received⟩

theorem runServicedPing : ∃ proto', receiveTimed (fun _ => bareTable) openProto [(5, [onePingWire].flatten)] =
    .ok (proto', [onePing] ++ []) := by
  obtain ⟨last, carried⟩ := pingCarried (b := openProto) ⟨rfl, rfl⟩
  exact runServiced (Nat.le_of_ble_eq_true rfl) (bareObeys 128) openListening pingPaced pingWithin
    (bareReliable 128) carried pingServiced

theorem conversationPing : ∃ last answers, Synced 128 openProto (receiver 128) ∧
    List.Forall₂ (Answered silentApplication) ([onePing] ++ []) answers ∧
    Heard 128 openProto last answers.flatten ∧
    ∀ slot, int32 (last.lastTimers slot) = int32 (openProto.lastTimers slot + timers slot answers.flatten) := by
  obtain ⟨last, received⟩ := pingReceived
  obtain ⟨answers, each, heard, clock⟩ := conversation (Nat.le_of_ble_eq_true rfl) (bareObeys 128) openListening
    pingPaced pingWithin (by decide) received
  exact ⟨last, answers, openWrites, each, heard, clock⟩

end Rushkit
