import Rushkit.Library.Mailboxes
import Rushkit.Server

/-! Two ends that write to each other whenever they like. What one has written is on the way
until the other reads some of it, and the two are read in any order. -/
namespace Rushkit
open Amf Dialogue Mailboxes

-- The program at one end, with what it does when it is called.
structure Endpoint where
  chunk : Nat
  on : Fin 64 → Prop
  takes : Bytes → List AV → Prop
  application : Application
  program : Int → MethodTable
  positive : 1 ≤ chunk
  obeys : ∀ now, Obeys chunk now on application (program now)
  reliable : ∀ now, Reliable chunk now on takes (program now)

-- Every block in flight is what one call of `on_write_data` was given.
structure Peers where
  proto : Bool → RtmpProto
  inFlight : Bool → List Bytes
  handled : Bool → List Packet

def boxes (ends : Peers) (waiting : Bool → List Packet) : Boxes Packet := ⟨ends.handled, waiting⟩

-- One end is left with `proto'` when it has read `count` blocks and handled the packets in them.
def arrived (ends : Peers) (party : Bool) (count : Nat) (proto' : RtmpProto) (pacs : List Packet) : Peers where
  proto := Function.update ends.proto party proto'
  inFlight := Function.update (Function.update ends.inFlight party ((ends.inFlight party).drop count)) (!party)
    (ends.inFlight (!party) ++ proto'.written.drop (ends.proto party).written.length)
  handled := Function.update ends.handled party (ends.handled party ++ pacs)

-- The blocks are read in one piece.
def arrive (program : Bool → Int → MethodTable) (ends : Peers) (party : Bool) (now : Int) (count : Nat) : Res Peers := do
  let (proto', pacs) ← receiveData (rtmpProtoMethodTableInit (program party now) now) (ends.proto party)
    ((ends.inFlight party).take count).flatten
  .ok (arrived ends party count proto' pacs)

section Arrived
variable (ends : Peers) (party : Bool) (count : Nat) (proto' : RtmpProto) (pacs : List Packet)

@[simp] theorem arrivedProto : (arrived ends party count proto' pacs).proto party = proto' :=
  Function.update_self _ _ _

@[simp] theorem arrivedProtoOther : (arrived ends party count proto' pacs).proto (!party) = ends.proto (!party) :=
  Function.update_of_ne (Bool.self_ne_not party).symm _ _

@[simp] theorem arrivedInFlight :
    (arrived ends party count proto' pacs).inFlight party = (ends.inFlight party).drop count :=
  (Function.update_of_ne (Bool.self_ne_not party) _ _).trans (Function.update_self _ _ _)

@[simp] theorem arrivedInFlightOther : (arrived ends party count proto' pacs).inFlight (!party) =
    ends.inFlight (!party) ++ proto'.written.drop (ends.proto party).written.length :=
  Function.update_self _ _ _

end Arrived

structure Readable (ends : Peers) (party : Bool) (now : Int) (count : Nat) : Prop where
  fits : ((ends.inFlight party).take count).flatten.length ≤ bufferSz
  timely : Timely now (ends.proto party)

inductive Arrives (program : Bool → Int → MethodTable) (ends ends' : Peers) : Prop where
  | read {party : Bool} {now : Int} {count : Nat} (readable : Readable ends party now count)
      (arrives : arrive program ends party now count = .ok ends')

def Understood (endpoint : Endpoint) (pac : Packet) : Prop := Within endpoint.on pac ∧ Serviced endpoint.takes pac

-- What either end answers to a packet it can take is one that the other can take.
def Understanding (endpoints : Bool → Endpoint) : Prop :=
  ∀ party pac answers, Understood (endpoints party) pac → Answered (endpoints party).application pac answers →
    ∀ answer ∈ answers, Understood (endpoints (!party)) answer

-- The reader finds these packets in the blocks, and is then in step with the writer.
def OnTheWay (c : Nat) (writer reader : RtmpProto) (blocks : List Bytes) (pacs : List Packet) : Prop :=
  ∃ peer, Transcript ReadsMessage reader blocks pacs peer ∧ Synced c writer peer

structure JoinedAt (endpoints : Bool → Endpoint) (ends : Peers) (waiting : Bool → List Packet) (party : Bool) :
    Prop where
  listening : Listening (endpoints party).chunk (ends.proto party)
  onTheWay : OnTheWay (endpoints (!party)).chunk (ends.proto (!party)) (ends.proto party) (ends.inFlight party)
    (waiting party)
  understood : ∀ pac ∈ waiting party, Understood (endpoints party) pac

def Joined (endpoints : Bool → Endpoint) (ends : Peers) (waiting : Bool → List Packet) : Prop :=
  ∀ party, JoinedAt endpoints ends waiting party

theorem transcriptSame {b b₂ b' : RtmpProto} {wires : List Bytes} {pacs : List Packet} (same : SameReader b₂ b)
    (between : b₂.state = 0) (transcript : Transcript ReadsMessage b wires pacs b') :
    ∃ b₂', Transcript ReadsMessage b₂ wires pacs b₂' ∧ SameReader b₂' b' ∧ b₂'.state = 0 := by
  induction transcript generalizing b₂ with
  | nil => exact ⟨b₂, .nil b₂, same, between⟩
  | @cons b _ _ wire pac _ _ first _ ih =>
    obtain ⟨slot, channel, data, message, named, rfl⟩ := first
    rw [← same.1, ← same.2] at message
    have next : SameReader (setChannelIn (rtmpPacketReset b₂) slot channel)
        (setChannelIn (rtmpPacketReset b) slot channel) := by
      refine ⟨same.1, ?_⟩
      show Function.update b₂.channelsIn slot channel = Function.update b.channelsIn slot channel
      rw [same.2]
    obtain ⟨b₂', later, final, done⟩ := ih next rfl
    exact ⟨b₂', .cons ⟨slot, channel, data, message, named, rfl⟩ later, final, done⟩

theorem onTheWaySame {c : Nat} {writer reader mid peer : RtmpProto} {blocks : List Bytes} {pacs : List Packet}
    (same : SameReader reader mid) (between : reader.state = 0)
    (transcript : Transcript ReadsMessage mid blocks pacs peer) (synced : Synced c writer peer) :
    OnTheWay c writer reader blocks pacs := by
  obtain ⟨peer', later, agrees, state⟩ := transcriptSame same between transcript
  exact ⟨peer', later, syncedReader synced agrees state⟩

theorem onTheWaySpeaks {c : Nat} {writer writer' reader : RtmpProto} {blocks : List Bytes} {pacs more : List Packet}
    (way : OnTheWay c writer reader blocks pacs) (speaks : Speaks (wire c) writer writer' more) :
    OnTheWay c writer' reader (blocks ++ writer'.written.drop writer.written.length) (pacs ++ more) := by
  obtain ⟨peer, front, synced⟩ := way
  obtain ⟨written, peer', out, back, synced'⟩ := speaks peer synced
  have new : writer'.written.drop writer.written.length = written := by
    have appended : writer'.written = writer.written ++ written := out
    rw [appended, List.drop_left]
  rw [new]
  exact ⟨peer', transcriptAppend front back, synced'⟩

section Reading
variable {endpoints : Bool → Endpoint} (understanding : Understanding endpoints) {ends : Peers}
  {waiting : Bool → List Packet} (joined : Joined endpoints ends waiting)
include understanding joined

theorem readJoined {party : Bool} {now : Int} {count : Nat} (readable : Readable ends party now count) :
    ∃ ends' waiting' replies, arrive (fun party => (endpoints party).program) ends party now count = .ok ends' ∧
      List.Forall₂ (Answered (endpoints party).application) ((waiting party).take count) replies ∧
      boxes ends' waiting' = took (boxes ends waiting) party ((waiting party).take count) ((waiting party).drop count)
        replies.flatten ∧
      Joined endpoints ends' waiting' := by
  obtain ⟨listening, ⟨peer, transcript, synced⟩, understood⟩ := joined party
  obtain ⟨mid, front, back⟩ := transcriptSplit transcript count
  have each : ∀ pac ∈ (waiting party).take count, Understood (endpoints party) pac :=
    fun pac member => understood pac (List.mem_of_mem_take member)
  obtain ⟨proto', received, same⟩ := blockServed (endpoints party).positive ((endpoints party).obeys now)
    ((endpoints party).reliable now) listening readable.timely ⟨rfl, rfl⟩ front (fun pac member => (each pac member).1)
    (fun pac member => (each pac member).2) readable.fits
  obtain ⟨replies, turn, _⟩ := answerBlock (endpoints party).positive ((endpoints party).obeys now) listening
    readable.timely (fun pac member => (each pac member).1) received
  have answerable : ∀ answer ∈ replies.flatten, Understood (endpoints (!party)) answer :=
    repliesGood (understanding party) turn.answered each
  refine ⟨arrived ends party count proto' ((waiting party).take count),
    (took (boxes ends waiting) party ((waiting party).take count) ((waiting party).drop count) replies.flatten).waiting,
    replies, ?_, turn.answered, rfl, ?_⟩
  · simp only [arrive, received, Fallible.okBind]
  · intro other
    rcases Bool.eq_or_eq_not other party with rfl | rfl
    · refine ⟨?_, ?_, ?_⟩
      · rw [arrivedProto]
        exact turn.listening
      · rw [arrivedProto, arrivedProtoOther, arrivedInFlight, tookWaiting]
        exact onTheWaySame same turn.listening.between.state back synced
      · rw [tookWaiting]
        exact fun pac member => understood pac (List.mem_of_mem_drop member)
    · obtain ⟨theirs, way, others⟩ := joined (!party)
      rw [Bool.not_not] at way
      refine ⟨?_, ?_, ?_⟩
      · rw [arrivedProtoOther]
        exact theirs
      · rw [Bool.not_not, arrivedProto, arrivedProtoOther, arrivedInFlightOther, tookWaitingOther]
        exact onTheWaySpeaks way turn.utters.speaks
      · rw [tookWaitingOther]
        exact List.forall_mem_append.mpr ⟨others, answerable⟩

end Reading

abbrev Session (program : Bool → Int → MethodTable) : Peers → Peers → Prop := Relation.ReflTransGen (Arrives program)

section Runs
variable {endpoints : Bool → Endpoint} (understanding : Understanding endpoints) {start ends : Peers}
  {waiting : Bool → List Packet} (joined : Joined endpoints start waiting)
  (run : Session (fun party => (endpoints party).program) start ends)
include understanding joined run

theorem runJoined : ∃ waiting', Joined endpoints ends waiting' ∧
    Traffic (fun party => Answered (endpoints party).application) (boxes start waiting) (boxes ends waiting') := by
  induction run with
  | refl => exact ⟨waiting, joined, .refl⟩
  | tail _ step ih =>
    obtain ⟨waiting', middle, before⟩ := ih
    obtain ⟨readable, arrives⟩ := step
    obtain ⟨ends', waiting'', replies, served, replied, taken, after⟩ := readJoined understanding middle readable
    cases Except.ok.inj (served.symm.trans arrives)
    refine ⟨waiting'', after, before.tail ?_⟩
    rw [taken]
    exact .take _ (List.take_append_drop _ _).symm replied

theorem duplex : ∃ waiting' taken replies,
    (∀ party, OnTheWay (endpoints (!party)).chunk (ends.proto (!party)) (ends.proto party) (ends.inFlight party)
      (waiting' party)) ∧
    (∀ party, Posted (fun party => Answered (endpoints party).application) (boxes start waiting)
      (boxes ends waiting') taken replies party) ∧
    ∀ {party now count}, Readable ends party now count →
      ∃ ends', arrive (fun party => (endpoints party).program) ends party now count = .ok ends' := by
  obtain ⟨waiting', after, abstract⟩ := runJoined understanding joined run
  obtain ⟨taken, replies, posted⟩ := trafficPosted abstract
  refine ⟨waiting', taken, replies, fun party => (after party).onTheWay, posted, ?_⟩
  intro party now count readable
  obtain ⟨ends', _, _, arrives, _⟩ := readJoined understanding after readable
  exact ⟨ends', arrives⟩

def pings (pac : Packet) : Nat := if pac.channel.dataType = pacPing then 1 else 0

omit understanding joined run in
theorem pingsAnswered {application : Application} (quiet : ∀ pac answers, pac.channel.dataType ≠ pacPing →
    Answered application pac answers → ∀ answer ∈ answers, answer.channel.dataType ≠ pacPing)
    (pac : Packet) (answers : List Packet) (answered : Answered application pac answers) :
    weigh pings answers = pings pac := by
  by_cases ping : pac.channel.dataType = pacPing
  · obtain ⟨slot, named, answer⟩ := answered
    have one : pings pac = 1 := if_pos ping
    cases answer with
    | pong timer type =>
      rw [one]
      rfl
    | connected timer type read | invoked type read other sent | invalid type sent | audio type sent
      | video type sent => rw [ping] at type; contradiction
    | silent type => exact absurd ping type.1
  · have none : pings pac = 0 := if_neg ping
    rw [none]
    exact weighNothing fun answer member => if_neg (quiet pac answers ping answered answer member)

theorem pingsEndless (quiet : ∀ party pac answers, pac.channel.dataType ≠ pacPing →
    Answered (endpoints party).application pac answers → ∀ answer ∈ answers, answer.channel.dataType ≠ pacPing) :
    ∃ waiting', (∀ party, OnTheWay (endpoints (!party)).chunk (ends.proto (!party)) (ends.proto party)
        (ends.inFlight party) (waiting' party)) ∧
      load pings (boxes ends waiting') = load pings (boxes start waiting) ∧
      (0 < load pings (boxes start waiting) → ∃ party, ends.inFlight party ≠ []) := by
  obtain ⟨waiting', after, abstract⟩ := runJoined understanding joined run
  have same : load pings (boxes ends waiting') = load pings (boxes start waiting) :=
    trafficLoad (fun party => pingsAnswered (quiet party)) abstract
  refine ⟨waiting', fun party => (after party).onTheWay, same, fun some => ?_⟩
  by_contra idle
  push Not at idle
  have nothing (party : Bool) : waiting' party = [] := by
    obtain ⟨_, transcript, _⟩ := (after party).onTheWay
    rw [idle party] at transcript
    generalize waiting' party = pacs at transcript
    cases transcript
    rfl
  have empty : load pings (boxes ends waiting') = 0 := by
    simp only [load, boxes, nothing]
    rfl
  omega

end Runs

theorem obeysFewer {c : Nat} {now : Int} {on fewer : Fin 64 → Prop} {application : Application} {table : MethodTable}
    (obeys : Obeys c now on application table) (among : ∀ {slot}, fewer slot → on slot) :
    Obeys c now fewer application table where
  writes := obeys.writes
  within opened := obeys.within (among opened)
  invoked opened := obeys.invoked (among opened)
  invalid opened := obeys.invalid (among opened)
  audio opened := obeys.audio (among opened)
  video opened := obeys.video (among opened)

theorem reliableFewer {c : Nat} {now : Int} {on fewer : Fin 64 → Prop} {takes : Bytes → List AV → Prop}
    {table : MethodTable} (reliable : Reliable c now on takes table) (among : ∀ {slot}, fewer slot → on slot) :
    Reliable c now fewer takes table where
  invoked opened := reliable.invoked (among opened)
  handed opened := reliable.handed (among opened)

def serverEndpoint (host : Host) : Endpoint where
  chunk := 128
  on := onThree
  takes := serverTakes
  application := serverApplication host
  program := serverTable host
  positive := by decide
  obeys := serverObeys host (by decide)
  reliable := serverReliable host (by decide)

def callerEndpoint : Endpoint where
  chunk := 128
  on := onThree
  takes := takesAll
  application := silentApplication
  program _ := bareTable
  positive := by decide
  obeys now := obeysFewer (bareObeys 128 now) .inr
  reliable now := reliableFewer (bareReliable 128 now) .inr

def callerAndServer (host : Host) (party : Bool) : Endpoint := if party then serverEndpoint host else callerEndpoint

-- An invoke of this method, packed by the library.
def Invoking (slot : Fin 64) (methodName : Bytes) (pac : Packet) : Prop :=
  pac.channelId = slot.val ∧ pac.channel.dataType = pacInvoke ∧
    ∃ requestId args, pac.data = callData methodName requestId args ∧ ValuesEncodable args ∧
      (callData methodName requestId args).length ≤ 32767

theorem resultInvoking (slot : Fin 64) (timer requestId : Int) {retVal : AV} (encodable : Amf.Encodable retVal)
    (short : (resultData requestId retVal).length ≤ 32767) :
    Invoking slot (cString "_result") (ownPacket slot timer pacInvoke (resultData requestId retVal)).heard :=
  ⟨rfl, rfl, requestId, [retVal], rfl, ⟨encodable, trivial⟩, short⟩

theorem greetingInvoking (slot : Fin 64) (timer callId : Int) :
    Invoking slot (cString "greeting") (ownPacket slot timer pacInvoke (greetingData callId)).heard := by
  have greeting := greetingShort callId
  have word : ValuesEncodable [.string (cString "hihi")] := ⟨stringEncodable (by decide), trivial⟩
  exact ⟨rfl, rfl, callId, _, rfl, word, greeting.trans_le (by decide)⟩

theorem invokingUnderstood {endpoint : Endpoint} {slot : Fin 64} {methodName : Bytes} {pac : Packet}
    (opened : endpoint.on slot) (takes : ∀ args, endpoint.takes methodName args)
    (invoking : Invoking slot methodName pac) : Understood endpoint pac := by
  obtain ⟨named, type, requestId, args, data, encodable, short⟩ := invoking
  exact ⟨⟨slot, opened, named⟩, packedServiced type data encodable short (.inr (takes args))⟩

theorem serverSends {host : Host} {slot : Fin 64} {requestId : Int} {methodName : Bytes} {args : List AV}
    {packets : List Packet} (sent : serverInvoked host slot requestId methodName args packets) :
    packets = [] ∨ methodName = cString "add" ∧ ∃ result greeting, packets = [result, greeting] ∧
      Invoking slot (cString "_result") result ∧ Invoking slot (cString "greeting") greeting := by
  unfold serverInvoked at sent
  split at sent
  case isTrue add =>
    obtain ⟨v1, v2, more, timer, callTimer, callId, _, rfl⟩ := sent
    have sum := sumShort host requestId v1 v2
    exact .inr ⟨add, _, _, rfl, resultInvoking slot timer requestId (numberEncodable _) (sum.trans_le (by decide)),
      greetingInvoking slot callTimer callId⟩
  case isFalse => exact .inl sent

-- The answers of the library and of an application that sends only when it is called.
inductive Speaking (sends : Fin 64 → Int → Bytes → List AV → List Packet → Prop) (slot : Fin 64) (pac : Packet) :
    List Packet → Prop where
  | pong {answer : Packet} (type : pac.channel.dataType = pacPing) (named : answer.channelId = slot.val)
      (ping : answer.channel.dataType = pacPing) : Speaking sends slot pac [answer]
  | connected {answer : Packet} {requestId : Int} {args : List AV} (type : pac.channel.dataType = pacInvoke)
      (read : invocation pac.data = .ok (cString "connect", requestId, args))
      (result : Invoking slot (cString "_result") answer) : Speaking sends slot pac [answer]
  | called {methodName : Bytes} {requestId : Int} {args : List AV} {answers : List Packet}
      (type : pac.channel.dataType = pacInvoke) (read : invocation pac.data = .ok (methodName, requestId, args))
      (other : methodName ≠ cString "connect") (sent : sends slot requestId methodName args answers) :
      Speaking sends slot pac answers
  | nothing : Speaking sends slot pac []

theorem answeredSpeaking {sends : Fin 64 → Int → Bytes → List AV → List Packet → Prop} {pac : Packet}
    {answers : List Packet} (answered : Answered { silentApplication with invoked := sends } pac answers) :
    ∃ slot : Fin 64, pac.channelId = slot.val ∧ Speaking sends slot pac answers := by
  obtain ⟨slot, named, answer⟩ := answered
  refine ⟨slot, named, ?_⟩
  cases answer with
  | pong timer type => exact .pong type rfl rfl
  | connected timer type read =>
    exact .connected type read (resultInvoking slot timer _ connectEncodable (connectShort _))
  | invoked type read other sent => exact .called type read other sent
  | invalid type sent | audio type sent | video type sent =>
    cases sent
    exact .nothing
  | silent type => exact .nothing

def sends (host : Host) (party : Bool) : Fin 64 → Int → Bytes → List AV → List Packet → Prop :=
  if party then serverInvoked host else silentApplication.invoked

theorem partySpeaks {host : Host} {party : Bool} {pac : Packet} {answers : List Packet}
    (answered : Answered (callerAndServer host party).application pac answers) :
    ∃ slot : Fin 64, pac.channelId = slot.val ∧ Speaking (sends host party) slot pac answers := by
  cases party with
  | true => exact answeredSpeaking answered
  | false => exact answeredSpeaking answered

theorem partySends {host : Host} {party : Bool} {slot : Fin 64} {requestId : Int} {methodName : Bytes} {args : List AV}
    {packets : List Packet} (sent : sends host party slot requestId methodName args packets) :
    packets = [] ∨ methodName = cString "add" ∧ ∃ result greeting, packets = [result, greeting] ∧
      Invoking slot (cString "_result") result ∧ Invoking slot (cString "greeting") greeting := by
  cases party with
  | true => exact serverSends sent
  | false => exact .inl sent

theorem otherTakes (host : Host) (party : Bool) {methodName : Bytes} (other : methodName ≠ cString "add")
    (args : List AV) : (callerAndServer host party).takes methodName args := by
  cases party with
  | true => exact fun add => absurd add other
  | false => trivial

theorem serverUnderstanding (host : Host) : Understanding (callerAndServer host) := by
  intro party pac answers understood answered
  obtain ⟨⟨other, opened, named⟩, _⟩ := understood
  obtain ⟨slot, same, speaking⟩ := partySpeaks answered
  have three : (callerAndServer host (!party)).on slot := by
    have entry : other = slot := Fin.ext (by omega)
    subst entry
    cases party <;> exact opened
  have heard {methodName : Bytes} {answer : Packet} (apart : methodName ≠ cString "add")
      (invoking : Invoking slot methodName answer) : Understood (callerAndServer host (!party)) answer :=
    invokingUnderstood three (otherTakes host (!party) apart) invoking
  cases speaking with
  | pong type named ping =>
    simp only [List.mem_singleton, forall_eq]
    exact ⟨⟨slot, three, named⟩, .ping ping⟩
  | connected type read result =>
    simp only [List.mem_singleton, forall_eq]
    exact heard (by decide) result
  | called type read differs sent =>
    rcases partySends sent with rfl | ⟨_, result, greeting, rfl, returned, greeted⟩
    · simp
    · simp only [List.mem_cons, List.not_mem_nil, or_false, forall_eq_or_imp, forall_eq]
      exact ⟨heard (by decide) returned, heard (by decide) greeted⟩
  | nothing => simp

theorem serverQuiet (host : Host) (party : Bool) (pac : Packet) (answers : List Packet)
    (other : pac.channel.dataType ≠ pacPing)
    (answered : Answered (callerAndServer host party).application pac answers) :
    ∀ answer ∈ answers, answer.channel.dataType ≠ pacPing := by
  obtain ⟨slot, _, speaking⟩ := partySpeaks answered
  have quiet {methodName : Bytes} {answer : Packet} (invoking : Invoking slot methodName answer) :
      answer.channel.dataType ≠ pacPing := by
    rw [invoking.2.1]
    decide
  cases speaking with
  | pong type named ping => exact absurd type other
  | connected type read result =>
    simp only [List.mem_singleton, forall_eq]
    exact quiet result
  | called type read differs sent =>
    rcases partySends sent with rfl | ⟨_, result, greeting, rfl, returned, greeted⟩
    · simp
    · simp only [List.mem_cons, List.not_mem_nil, or_false, forall_eq_or_imp, forall_eq]
      exact ⟨quiet returned, quiet greeted⟩
  | nothing => simp

-- One more than the packets a call can lead to.
def methodRank (methodName : Bytes) : Nat :=
  if methodName = cString "connect" then 2 else if methodName = cString "add" then 3 else 1

def rank (pac : Packet) : Nat :=
  if pac.channel.dataType = pacInvoke then
    match invocation pac.data with
    | .ok (methodName, _, _) => methodRank methodName
    | .error _ => 1
  else 1

theorem methodRankBounds (methodName : Bytes) : 1 ≤ methodRank methodName ∧ methodRank methodName ≤ 3 := by
  unfold methodRank
  split
  · decide
  · split <;> decide

theorem rankBounds (pac : Packet) : 1 ≤ rank pac ∧ rank pac ≤ 3 := by
  unfold rank
  split
  · split
    · exact methodRankBounds _
    · decide
  · decide

theorem rankWeight (pacs : List Packet) : pacs.length ≤ weigh rank pacs ∧ weigh rank pacs ≤ 3 * pacs.length := by
  induction pacs with
  | nil => exact ⟨Nat.le_refl 0, Nat.le_refl 0⟩
  | cons pac pacs ih =>
    have first := rankBounds pac
    have whole : weigh rank (pac :: pacs) = rank pac + weigh rank pacs := rfl
    rw [whole, List.length_cons]
    omega

theorem rankInvoke {pac : Packet} {methodName : Bytes} {requestId : Int} {args : List AV}
    (type : pac.channel.dataType = pacInvoke) (read : invocation pac.data = .ok (methodName, requestId, args)) :
    rank pac = methodRank methodName := by
  rw [rank, if_pos type, read]

theorem rankInvoking {slot : Fin 64} {methodName : Bytes} {pac : Packet} (invoking : Invoking slot methodName pac) :
    rank pac = methodRank methodName := by
  obtain ⟨_, type, requestId, args, data, encodable, short⟩ := invoking
  have read := invocationPacked encodable short
  rw [← callData, ← data] at read
  exact rankInvoke type read

theorem serverLighter (host : Host) (party : Bool) (pac : Packet) (answers : List Packet)
    (other : pac.channel.dataType ≠ pacPing)
    (answered : Answered (callerAndServer host party).application pac answers) : weigh rank answers < rank pac := by
  obtain ⟨slot, _, speaking⟩ := partySpeaks answered
  cases speaking with
  | pong type named ping => exact absurd type other
  | @connected answer requestId args type read result =>
    have one : weigh rank [answer] = rank answer := Nat.add_zero _
    rw [one, rankInvoke type read, rankInvoking result]
    decide
  | called type read differs sent =>
    rcases partySends sent with rfl | ⟨add, result, greeting, rfl, returned, greeted⟩
    · exact (rankBounds pac).1
    · have two : weigh rank [result, greeting] = rank result + (rank greeting + 0) := rfl
      rw [two, rankInvoke type read, rankInvoking returned, rankInvoking greeted, add]
      decide
  | nothing => exact (rankBounds pac).1

theorem joinedWeight {endpoints : Bool → Endpoint} {ends : Peers} {waiting : Bool → List Packet}
    (joined : Joined endpoints ends waiting) :
    (ends.inFlight true).length + (ends.inFlight false).length ≤ weigh rank (waiting true) + weigh rank (waiting false) ∧
    weigh rank (waiting true) + weigh rank (waiting false) ≤
      3 * ((ends.inFlight true).length + (ends.inFlight false).length) := by
  have bounds (party : Bool) : (ends.inFlight party).length ≤ weigh rank (waiting party) ∧
      weigh rank (waiting party) ≤ 3 * (ends.inFlight party).length := by
    obtain ⟨_, transcript, _⟩ := (joined party).onTheWay
    rw [transcriptLength transcript]
    exact rankWeight (waiting party)
  have server := bounds true
  have caller := bounds false
  omega

theorem settles (host : Host) {start ends : Peers} {waiting : Bool → List Packet}
    (joined : Joined (callerAndServer host) start waiting)
    (quiet : ∀ party, ∀ pac ∈ waiting party, pac.channel.dataType ≠ pacPing)
    (run : Session (fun party => (callerAndServer host party).program) start ends) :
    (ends.handled true).length + (ends.handled false).length +
        ((ends.inFlight true).length + (ends.inFlight false).length) ≤
      (start.handled true).length + (start.handled false).length +
        3 * ((start.inFlight true).length + (start.inFlight false).length) := by
  obtain ⟨waiting', after, abstract⟩ := runJoined (serverUnderstanding host) joined run
  obtain ⟨_, bound⟩ := trafficSettles (serverQuiet host) (serverLighter host) quiet abstract
  simp only [handledCount, load, boxes] at bound
  have before := joinedWeight joined
  have later := joinedWeight after
  omega

def openOn (slot : Fin 64) : RtmpProto := { openProto with channelId := slot.val }

-- The caller has sent one packet to an open connection of the server, while it handled one there.
def dialled (slot : Fin 64) (pac : Packet) : Peers where
  proto party := if party then openProto else
    rtmpPacketReset (protoWriteData bareTable (packetSent (openOn slot) slot pac) (packetBytes (openOn slot) slot pac false))
  inFlight party := if party then [packetBytes (openOn slot) slot pac false] else []
  handled _ := []

def toServer (pac : Packet) (party : Bool) : List Packet := if party then [pac.heard] else []

theorem dialledJoined (host : Host) {pac : Packet} (spoken : Spoken 3 pac) (serviced : Serviced serverTakes pac.heard) :
    Joined (callerAndServer host) (dialled 3 pac) (toServer pac) := by
  have positive : 1 ≤ 128 := Nat.le_of_ble_eq_true rfl
  have synced : Synced 128 (openOn 3) openProto := syncedFrame openReads rfl rfl
  intro party
  cases party with
  | true =>
    obtain ⟨peer, reads, after⟩ := packetRead (openOn 3) spoken rfl positive synced
    refine ⟨openListening, ⟨peer, .cons reads (.nil peer), syncedFrame after rfl rfl⟩, ?_⟩
    simp only [toServer, if_true, List.mem_singleton, forall_eq]
    exact ⟨⟨3, rfl, spoken.named⟩, serviced⟩
  | false =>
    have quiet : Synced 128 openProto ((dialled 3 pac).proto false) :=
      syncedReader openWrites ⟨rfl, rfl⟩ rfl
    have between := openListening.between
    refine ⟨⟨⟨between.pkgSt, rfl, between.lastData, between.readBuffer, between.positive, between.fits⟩, rfl⟩,
      ⟨_, .nil _, quiet⟩, ?_⟩
    simp [toServer]

theorem dialledReadable {pac : Packet} (short : (packetBytes (openOn 3) 3 pac false).length ≤ bufferSz) :
    Readable (dialled 3 pac) true 5 1 where
  fits := by simpa [dialled] using short
  timely _ _ := (by decide : (0 : Int) ≤ 5 ∧ (5 : Int) ≤ 0 + 0xfffffe)

theorem dialledRead (host : Host) {pac : Packet} (spoken : Spoken 3 pac) (serviced : Serviced serverTakes pac.heard)
    (short : (packetBytes (openOn 3) 3 pac false).length ≤ bufferSz) :
    ∃ ends, Session (fun party => (callerAndServer host party).program) (dialled 3 pac) ends ∧
      ends.handled true = [pac.heard] := by
  have readable := dialledReadable short
  obtain ⟨ends, waiting', _, arrives, _, taken, _⟩ :=
    readJoined (serverUnderstanding host) (dialledJoined host spoken serviced) readable
  have handled : ends.handled true = (boxes ends waiting').handled true := rfl
  exact ⟨ends, .single ⟨readable, arrives⟩, by rw [handled, taken, tookHandled]; rfl⟩

def threePing : Packet := ⟨3, ⟨true, 0, 1, 4, 0⟩, [9]⟩

def connectPacket : Packet := ⟨3, ownChannel 0 pacInvoke, callData (cString "connect") 1 []⟩

theorem connectSpoken : Spoken 3 connectPacket := by
  have exchanged : Exchanged 3 := .inr rfl
  exact ownSpoken exchanged pacInvoke (by decide) (by decide) (by decide) (Int.le_refl 0) (by decide)

theorem connectServiced : Serviced serverTakes connectPacket.heard := by
  have none : ValuesEncodable [] := trivial
  have short : (callData (cString "connect") 1 []).length ≤ 32767 := by decide
  exact packedServiced rfl rfl none short (.inl rfl)

theorem threePingSpoken : Spoken 3 threePing :=
  ⟨.inr rfl, rfl, ⟨by decide, by decide, by decide, by decide, by decide⟩, rfl, rfl⟩

theorem duplexConnect : ∃ ends, ends.handled true = [connectPacket.heard] ∧ ∃ waiting' taken replies,
    (∀ party, OnTheWay (callerAndServer plainHost (!party)).chunk (ends.proto (!party)) (ends.proto party)
      (ends.inFlight party) (waiting' party)) ∧
    (∀ party, Posted (fun party => Answered (callerAndServer plainHost party).application)
      (boxes (dialled 3 connectPacket) (toServer connectPacket)) (boxes ends waiting') taken replies party) ∧
    ∀ {party now count}, Readable ends party now count →
      ∃ ends', arrive (fun party => (callerAndServer plainHost party).program) ends party now count = .ok ends' := by
  obtain ⟨ends, run, handled⟩ := dialledRead plainHost connectSpoken connectServiced (by decide)
  exact ⟨ends, handled, duplex (serverUnderstanding plainHost) (dialledJoined plainHost connectSpoken connectServiced) run⟩

theorem pingsEndlessOne : ∃ ends, ends.handled true = [threePing.heard] ∧ ∃ waiting',
    (∀ party, OnTheWay (callerAndServer plainHost (!party)).chunk (ends.proto (!party)) (ends.proto party)
      (ends.inFlight party) (waiting' party)) ∧
    load pings (boxes ends waiting') = load pings (boxes (dialled 3 threePing) (toServer threePing)) ∧
    (0 < load pings (boxes (dialled 3 threePing) (toServer threePing)) → ∃ party, ends.inFlight party ≠ []) := by
  have serviced : Serviced serverTakes threePing.heard := .ping rfl
  obtain ⟨ends, run, handled⟩ := dialledRead plainHost threePingSpoken serviced (by decide)
  exact ⟨ends, handled, pingsEndless (serverUnderstanding plainHost)
    (dialledJoined plainHost threePingSpoken serviced) run (serverQuiet plainHost)⟩

theorem settlesConnect : ∃ ends : Peers, ends.handled true = [connectPacket.heard] ∧
    (ends.handled true).length + (ends.handled false).length +
        ((ends.inFlight true).length + (ends.inFlight false).length) ≤
      ((dialled 3 connectPacket).handled true).length + ((dialled 3 connectPacket).handled false).length +
        3 * (((dialled 3 connectPacket).inFlight true).length +
          ((dialled 3 connectPacket).inFlight false).length) := by
  obtain ⟨ends, run, handled⟩ := dialledRead plainHost connectSpoken connectServiced (by decide)
  refine ⟨ends, handled, settles plainHost (dialledJoined plainHost connectSpoken connectServiced) ?_ run⟩
  intro party pac member
  cases party with
  | true =>
    cases List.mem_singleton.mp member
    exact (by decide : pacInvoke ≠ pacPing)
  | false => contradiction

end Rushkit
