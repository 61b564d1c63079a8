import Rushkit.Service

/-! The server of `aux`: its `_on_amf_call` (`connection.cpp`) adds two numbers, returns the
sum and calls the client back. -/
namespace Rushkit
open Amf

/- `number` is what `value.number_t` shows of any value, `nan` which of the bit patterns that
are no number a sum without a value has, and `stop` how the process ends at a failed assertion
of the server. -/
structure Host where
  number : AV → BitVec 64
  numberOf : ∀ bits, number (.number bits) = bits
  nan : BitVec 64 → BitVec 64 → BitVec 64
  stop : Fault

def Host.sum (host : Host) (v1 v2 : AV) : BitVec 64 := Binary64.add host.nan (host.number v1) (host.number v2)

-- Sending only asks the table for `on_write_data`; a pool in order serves like a fresh one.
def onAmfCall (host : Host) (now : Int) :
    RtmpProto → Int → Int → AV → Int → List AV → Res RtmpProto :=
  fun proto channelId requestId methodNameV argc argv => do
    let add ← amfStringEqual methodNameV (cString "add")
    if add then
      if argc = 2 then
        match argv with
        | v1 :: v2 :: _ => do
          let resultV := AV.number (host.sum v1 v2)
          let proto ← rtmpProtoPacketReturn bareTable [] proto channelId requestId resultV now
          let (_, proto) ← rtmpProtoCall bareTable proto (cString "greeting") [.string (cString "hihi")] now
          .ok proto
        | _ => .error .overRead
      else .error host.stop
    else .ok proto

def serverTable (host : Host) (now : Int) : MethodTable :=
  { bareTable with onAmfCall := some (onAmfCall host now) }

def onThree (slot : Fin 64) : Prop := slot.val = 3

def serverTakes (methodName : Bytes) (args : List AV) : Prop :=
  methodName = cString "add" → int32 args.length = 2

def sumData (host : Host) (requestId : Int) (v1 v2 : AV) : Bytes :=
  resultData requestId (.number (host.sum v1 v2))

def greetingData (requestId : Int) : Bytes :=
  callData (cString "greeting") requestId [.string (cString "hihi")]

def serverInvoked (host : Host) (slot : Fin 64) (requestId : Int) (methodName : Bytes) (args : List AV)
    (packets : List Packet) : Prop :=
  if methodName = cString "add" then ∃ v1 v2 more timer callTimer callId, args = v1 :: v2 :: more ∧
    packets = [(ownPacket slot timer pacInvoke (sumData host requestId v1 v2)).heard,
      (ownPacket slot callTimer pacInvoke (greetingData callId)).heard]
  else packets = []

def serverApplication (host : Host) : Application :=
  { silentApplication with invoked := serverInvoked host }

theorem sumShort (host : Host) (requestId : Int) (v1 v2 : AV) : (sumData host requestId v1 v2).length = 29 := by
  rw [sumData, resultData, packValuesLength]
  rfl

theorem greetingShort (requestId : Int) : (greetingData requestId).length = 28 := by
  rw [greetingData, callData, packValuesLength]
  rfl

section Callback
variable {c : Nat} (positive : 1 ≤ c) {now : Int} {slot : Fin 64} (three : onThree slot) {proto : RtmpProto}
  (current : proto.channelId = slot.val) (chunk : proto.writeChunkSize = c) (timely : Timely now proto)
include positive three current chunk timely

theorem addReturns (host : Host) (requestId : Int) (v1 v2 : AV) (more : List AV) :
    ∃ proto' timer callTimer callId, onAmfCall host now proto slot.val requestId (.string (cString "add")) 2
        (v1 :: v2 :: more) = .ok proto' ∧
      Replies c now proto proto' [(ownPacket slot timer pacInvoke (sumData host requestId v1 v2)).heard,
        (ownPacket slot callTimer pacInvoke (greetingData callId)).heard] := by
  have writes : bareTable.onWriteData = true := rfl
  have exchanged : Exchanged slot := .inr three
  have sum := sumShort host requestId v1 v2
  have greeting := greetingShort proto.nextRequestId
  have short : (resultData requestId (.number (host.sum v1 v2))).length ≤ 32767 := by
    rw [← sumData]
    omega
  obtain ⟨mid, returned, first, counter⟩ :=
    resultReplies writes positive chunk exchanged current timely (rfl : rtPoolLeft [] = none) short
  rw [← counter] at greeting
  obtain ⟨proto', called, second, _⟩ := callReplies writes positive (first.writeChunkSize.trans chunk) exchanged
    (first.channelId.trans current) (tickedTimely timely first.ticked) three
    (by rw [← greetingData]; omega :
      (callData (cString "greeting") mid.nextRequestId [.string (cString "hihi")]).length ≤ 32767)
  refine ⟨proto', _, _, mid.nextRequestId, ?_, repliesThen first second⟩
  simp only [onAmfCall, stringEqual, Fallible.okBind, decide_true, if_true, returned, called]

end Callback

theorem twoArguments {args : List AV} (two : int32 args.length = 2) : ∃ v1 v2 more, args = v1 :: v2 :: more := by
  cases args with
  | nil => simp [int32] at two
  | cons v1 args =>
    cases args with
    | nil => simp [int32] at two
    | cons v2 more => exact ⟨v1, v2, more, rfl⟩

theorem serverObeys (host : Host) {c : Nat} (positive : 1 ≤ c) (now : Int) :
    Obeys c now onThree (serverApplication host) (serverTable host now) where
  writes := rfl
  within three := .inr three
  invoked {slot} three requestId methodName args := by
    intro proto proto' current chunk timely h
    have called : onAmfCall host now proto slot.val requestId (.string methodName) (int32 args.length) args =
      .ok proto' := h
    by_cases add : methodName = cString "add"
    · subst add
      by_cases two : int32 args.length = 2
      · obtain ⟨v1, v2, more, rfl⟩ := twoArguments two
        obtain ⟨after, timer, callTimer, callId, handled, replies⟩ :=
          addReturns positive three current chunk timely host requestId v1 v2 more
        rw [two, handled] at called
        cases Except.ok.inj called
        refine ⟨_, ?_, replies⟩
        simp only [serverApplication, serverInvoked, if_true]
        exact ⟨v1, v2, more, timer, callTimer, callId, rfl, rfl⟩
      · simp [onAmfCall, stringEqual, Fallible.okBind, two] at called
    · simp only [onAmfCall, stringEqual, Fallible.okBind, add, decide_false, Bool.false_eq_true, if_false] at called
      cases Except.ok.inj called
      exact ⟨[], by simp [serverApplication, serverInvoked, add], repliesRefl proto⟩
  invalid _ _ _ := respondsSilent
  audio _ _ _ := respondsSilent
  video _ _ _ := respondsSilent

theorem serverReliable (host : Host) {c : Nat} (positive : 1 ≤ c) (now : Int) :
    Reliable c now onThree serverTakes (serverTable host now) where
  invoked {slot} three requestId methodName args takes := by
    intro proto current chunk timely
    show ∃ proto', onAmfCall host now proto slot.val requestId (.string methodName) (int32 args.length) args =
      .ok proto'
    by_cases add : methodName = cString "add"
    · have two := takes add
      subst add
      obtain ⟨v1, v2, more, rfl⟩ := twoArguments two
      obtain ⟨after, _, _, _, handled, _⟩ :=
        addReturns positive three current chunk timely host requestId v1 v2 more
      rw [two]
      exact ⟨after, handled⟩
    · exact ⟨proto, by simp [onAmfCall, stringEqual, Fallible.okBind, add]⟩
  handed _ _ _ callback member := by
    have none : callback = none := by simpa [serverTable, bareTable] using member
    subst none
    exact returningOk

/- A call that one packet holds and that the server does not stop at. -/
structure Call where
  requestId : Int
  methodName : Bytes
  arguments : List AV
  short : (callData methodName requestId arguments).length ≤ 32767
  encodable : ValuesEncodable arguments
  two : methodName = cString "add" → int32 arguments.length = 2

-- The call as it is received, with any header.
structure Call.Made (call : Call) (pac : Packet) : Prop where
  three : pac.channelId = 3
  type : pac.channel.dataType = pacInvoke
  data : pac.data = callData call.methodName call.requestId call.arguments

-- The id as a `double` brings it over.
def Call.carriedId (call : Call) : Int := Binary64.toInt64 (Binary64.ofInt call.requestId)

-- What the peer's handler reads in the packet.
def Invokes (pac : Packet) (methodName : Bytes) (requestId : Int) (arguments : List AV) : Prop :=
  pac.channelId = 3 ∧ pac.channel.dataType = pacInvoke ∧ invocation pac.data = .ok (methodName, requestId, arguments)

inductive CallServed (host : Host) (call : Call) : List Packet → Prop where
  | connected {result : Packet} (connect : call.methodName = cString "connect")
      (returned : Invokes result (cString "_result") call.carriedId [connectReply]) : CallServed host call [result]
  | added {result greeting : Packet} {v1 v2 : AV} {callId : Int}
      (add : call.methodName = cString "add") (given : call.arguments = [v1, v2])
      (returned : Invokes result (cString "_result") call.carriedId [.number (host.sum v1 v2)])
      (greeted : Invokes greeting (cString "greeting") callId [.string (cString "hihi")]) :
      CallServed host call [result, greeting]
  | silent (other : call.methodName ≠ cString "connect" ∧ call.methodName ≠ cString "add") : CallServed host call []

theorem resultRead {requestId : Int} {retVal : AV} (encodable : Amf.Encodable retVal)
    (short : (resultData requestId retVal).length ≤ 32767) : invocation (resultData requestId retVal) =
      .ok (cString "_result", Binary64.toInt64 (Binary64.ofInt requestId), [retVal]) :=
  invocationPacked ⟨encodable, trivial⟩ short

theorem stringEncodable {content : Bytes} (small : content.length ≤ 32767) : Amf.Encodable (.string content) := small

theorem numberEncodable (bits : BitVec 64) : Amf.Encodable (.number bits) := trivial

theorem connectEncodable : Amf.Encodable connectReply :=
  ⟨by decide, by decide, stringEncodable (by decide), by decide, by decide, stringEncodable (by decide), by decide,
    by decide, stringEncodable (by decide), trivial⟩

theorem answerRead (call : Call) {retVal : AV} (encodable : Amf.Encodable retVal)
    (short : (resultData call.carriedId retVal).length ≤ 32767) {slot : Fin 64} (three : (slot.val : Int) = 3)
    (timer : Int) : Invokes (ownPacket slot timer pacInvoke (resultData call.carriedId retVal)).heard
      (cString "_result") call.carriedId [retVal] := by
  have read := resultRead encodable short
  rw [Call.carriedId, Binary64.toInt64Again] at read
  exact ⟨three, rfl, read⟩

theorem Call.pair (call : Call) (add : call.methodName = cString "add") : call.arguments.length = 2 := by
  have two := call.two add
  have short := call.short
  have count := valuesCount call.arguments
  rw [callData, packValuesLength, callValues, valuesPackSize, valuesPackSize, valuesPackSize] at short
  rw [int32Same (by omega) (by omega)] at two
  omega

section Calls
variable {host : Host} {call : Call} {pac : Packet} (made : call.Made pac)
include made

theorem madeWithin : Within onThree pac := ⟨3, rfl, made.three⟩

theorem madeServiced : Serviced serverTakes pac :=
  packedServiced made.type made.data call.encodable call.short (.inr call.two)

theorem callServed {packets : List Packet} (answered : Answered (serverApplication host) pac packets) :
    CallServed host call packets := by
  obtain ⟨slot, named, answers⟩ := answered
  have three : (slot.val : Int) = 3 := named.symm.trans made.three
  have isInvoke := made.type
  have reads : invocation pac.data = .ok (call.methodName, call.carriedId, call.arguments) := by
    rw [made.data]
    exact invocationPacked call.encodable call.short
  cases answers with
  | pong timer type | invalid type | audio type | video type =>
    rw [isInvoke] at type
    contradiction
  | silent type => exact absurd isInvoke type.2.1
  | connected timer type read =>
    obtain ⟨name, same⟩ := Prod.mk.inj (Except.ok.inj (reads.symm.trans read))
    obtain ⟨rfl, _⟩ := Prod.mk.inj same
    exact .connected name (answerRead call connectEncodable (connectShort _) three timer)
  | invoked type read other sent =>
    obtain ⟨name, same⟩ := Prod.mk.inj (Except.ok.inj (reads.symm.trans read))
    obtain ⟨rfl, given⟩ := Prod.mk.inj same
    rw [← name] at sent other
    simp only [serverApplication, serverInvoked] at sent
    split at sent
    case isTrue add =>
      obtain ⟨v1, v2, more, timer, callTimer, callId, two, rfl⟩ := sent
      have sum := sumShort host call.carriedId v1 v2
      have greeting := greetingShort callId
      have word : ValuesEncodable [.string (cString "hihi")] := ⟨stringEncodable (by decide), trivial⟩
      have read : invocation (greetingData callId) = .ok (cString "greeting",
        Binary64.toInt64 (Binary64.ofInt callId), [.string (cString "hihi")]) :=
        invocationPacked word (greeting.trans_le (by decide))
      have pair := call.pair add
      rw [given, two] at pair
      obtain rfl : more = [] := List.eq_nil_of_length_eq_zero (by simpa using pair)
      exact .added add (given.trans two) (answerRead call (numberEncodable _) (sum.trans_le (by decide)) three timer)
        ⟨three, rfl, read⟩
    case isFalse add =>
      subst sent
      exact .silent ⟨other, add⟩

end Calls

theorem callsServed {host : Host} {calls : List Call} {pacs : List Packet} {answers : List (List Packet)}
    (made : List.Forall₂ Call.Made calls pacs) (answered : List.Forall₂ (Answered (serverApplication host)) pacs answers) :
    List.Forall₂ (CallServed host) calls answers := by
  induction made generalizing answers with
  | nil =>
    cases answered
    exact .nil
  | cons first rest ih =>
    cases answered with
    | cons answer others => exact .cons (callServed first answer) (ih others)

theorem callsMade {calls : List Call} {pacs : List Packet} (made : List.Forall₂ Call.Made calls pacs) :
    ∀ pac ∈ pacs, Within onThree pac ∧ Serviced serverTakes pac := by
  induction made with
  | nil => exact fun _ none => absurd none List.not_mem_nil
  | cons first rest ih => exact List.forall_mem_cons.mpr ⟨⟨madeWithin first, madeServiced first⟩, ih⟩

theorem serverCalls (host : Host) {c : Nat} (positive : 1 ≤ c) (fits : c + 1 < 2147483648) {proto last : RtmpProto}
    (listening : Listening c proto) {blocks : List (Int × Bytes)} (paced : Paced proto (blocks.map Prod.fst))
    {pacs : List Packet} (carried : Carried proto blocks pacs last) {calls : List Call}
    (made : List.Forall₂ Call.Made calls pacs) :
    ∃ proto' answers, receiveTimed (serverTable host) proto blocks = .ok (proto', pacs) ∧
      List.Forall₂ (CallServed host) calls answers ∧ Heard c proto proto' answers.flatten := by
  have each := callsMade made
  have within : ∀ pac ∈ pacs, Within onThree pac := fun pac member => (each pac member).1
  obtain ⟨proto', received, _⟩ := runServed positive (serverObeys host positive) (serverReliable host positive) carried
    listening paced ⟨rfl, rfl⟩ within fun pac member => (each pac member).2
  obtain ⟨answers, turn⟩ := conversationTurn positive (serverObeys host positive) received listening paced within
  exact ⟨proto', answers, received, callsServed made turn.answered, spokenHeard fits turn.utters.speaks⟩

def plainHost : Host where
  number v := match v with
    | .number bits => bits
    | _ => 0
  numberOf _ := rfl
  nan v1 _ := v1
  stop := .overRead

def connectCall : Call where
  requestId := 1
  methodName := cString "connect"
  arguments := []
  short := by decide
  encodable := trivial
  two := by decide

def addCall : Call where
  requestId := 2
  methodName := cString "add"
  arguments := [.number (Binary64.ofInt 2), .number (Binary64.ofInt 3)]
  short := by decide
  encodable := ⟨numberEncodable _, numberEncodable _, trivial⟩
  two _ := rfl

-- A call on channel 3 with all the fields in its header.
def callWire (call : Call) (size : UInt8) : Bytes :=
  3 :: [0, 0, 0, 0, 0, size, 20, 0, 0, 0, 0] ++ callData call.methodName call.requestId call.arguments

theorem callReads {b : RtmpProto} (used : (b.channelsIn 3).used = true) (chunk : b.readChunkSize = 128) (call : Call)
    {size : UInt8} (length : (callData call.methodName call.requestId call.arguments).length = size.toNat)
    (small : size.toNat ≤ 128) : ∃ pac b', ReadsMessage b (callWire call size) pac b' ∧ call.Made pac ∧
      (b'.channelsIn 3).used = true ∧ b'.readChunkSize = 128 := by
  let channel : Channel := ⟨true, 0, size.toNat, pacInvoke, 0⟩
  have record : receivedChannel channelNew initChannel [0, 0, 0, 0, 0, size, 20, 0, 0, 0, 0] = channel := by
    simp [channel, receivedChannel, initChannel, mediumInt]
    decide
  have fits : channel.size < maxPacketSize := by
    show (size.toNat : Int) < 32 * 1024
    omega
  have typed : 0 < channel.dataType := (by decide : 0 < pacInvoke)
  have one : (callData call.methodName call.requestId call.arguments).length ≤ b.readChunkSize := by omega
  have reads : ReadsMessage b (callWire call size) ⟨(3 : Fin 64).val, channel, _⟩
      (setChannelIn (rtmpPacketReset b) 3 channel) :=
    newReads (by decide) used _ rfl record fits rfl typed length one
  refine ⟨_, _, reads, ⟨rfl, rfl, rfl⟩, ?_, chunk⟩
  rw [setChannelInSlot]

theorem serverAdds : ∃ pacs proto' answers,
    receiveTimed (serverTable plainHost) openProto [(5, [callWire connectCall 20].flatten),
      (12, [callWire addCall 34].flatten)] = .ok (proto', pacs) ∧
    List.Forall₂ (CallServed plainHost) [connectCall, addCall] answers ∧ Heard 128 openProto proto' answers.flatten := by
  have positive : 1 ≤ 128 := Nat.le_of_ble_eq_true rfl
  obtain ⟨connect, b, first, connects, used, chunk⟩ :=
    @callReads openProto (by decide) rfl connectCall 20 (by decide) (by decide)
  obtain ⟨add, last, second, adds, _⟩ := @callReads b used chunk addCall 34 (by decide) (by decide)
  have carried : Carried openProto [(5, [callWire connectCall 20].flatten), (12, [callWire addCall 34].flatten)]
      ([connect] ++ ([add] ++ [])) last :=
    .cons 5 (.cons first (.nil b)) (by decide) (.cons 12 (.cons second (.nil last)) (by decide) (.nil last))
  have paced : Paced openProto ([(5, [callWire connectCall 20].flatten), (12, [callWire addCall 34].flatten)].map Prod.fst) :=
    freshPaced openProto rfl (by simp) (by simp)
  exact ⟨_, serverCalls plainHost positive (by decide) openListening paced carried
    (.cons connects (.cons adds .nil))⟩

end Rushkit
