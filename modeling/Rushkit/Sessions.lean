import Rushkit.Connections

/-! Whole sessions: the handshake of a fresh connection, and what is received and answered
after it. -/
namespace Rushkit
open Amf Dialogue Population

structure Untouched (proto proto' : RtmpProto) : Prop extends Kept proto proto' where
  lastTimers : proto'.lastTimers = proto.lastTimers
  nextRequestId : proto'.nextRequestId = proto.nextRequestId

theorem untouchedThen {proto proto₁ proto₂ : RtmpProto} (first : Untouched proto proto₁)
    (second : Untouched proto₁ proto₂) : Untouched proto proto₂ where
  readChunkSize := second.readChunkSize.trans first.readChunkSize
  writeChunkSize := second.writeChunkSize.trans first.writeChunkSize
  state := second.state.trans first.state
  packetMask := second.packetMask.trans first.packetMask
  channelId := second.channelId.trans first.channelId
  channelsIn := second.channelsIn.trans first.channelsIn
  channelsOut := second.channelsOut.trans first.channelsOut
  dataBuffer := second.dataBuffer.trans first.dataBuffer
  lastTimers := second.lastTimers.trans first.lastTimers
  nextRequestId := second.nextRequestId.trans first.nextRequestId

section Silence
variable {table : MethodTable}

theorem silentLoop (fuel : Nat) {proto proto' : RtmpProto} {pb pb' : ReadBuffer}
    (h : feedLoop table fuel proto pb = .ok (proto', [], pb')) : Untouched proto proto' := by
  induction fuel generalizing proto pb with
  | zero => contradiction
  | succ fuel ih =>
    unfold feedLoop at h
    split at h
    · split at h
      · obtain ⟨⟨next, rest⟩, step, h⟩ := Fallible.bindOk.mp h
        obtain ⟨_, _, rfl⟩ := connectStep step
        exact untouchedThen ⟨keptConnect step, rfl, rfl⟩ (ih h)
      · obtain ⟨⟨next, rest⟩, step, h⟩ := Fallible.bindOk.mp h
        have kept := keptShake step
        obtain ⟨_, _, _, _, rfl | ⟨_, rfl⟩⟩ := shakeStep step
        · exact untouchedThen ⟨kept, rfl, rfl⟩ (ih h)
        · exact untouchedThen ⟨kept, rfl, rfl⟩ (ih h)
      · obtain ⟨⟨next, rest⟩, step, h⟩ := Fallible.bindOk.mp h
        have kept := keptAckBack step
        obtain ⟨_, _, rfl | ⟨_, rfl⟩⟩ := ackStep step
        · exact untouchedThen ⟨kept, rfl, rfl⟩ (ih h)
        · exact untouchedThen ⟨kept, rfl, rfl⟩ (ih h)
      · obtain ⟨_, _, h⟩ := Fallible.bindOk.mp h
        obtain ⟨_, _, h⟩ := Fallible.bindOk.mp h
        cases Except.ok.inj h
      · contradiction
    · cases Except.ok.inj h
      exact ⟨⟨rfl, rfl, rfl, rfl, rfl, rfl, rfl, rfl⟩, rfl, rfl⟩

theorem silentReceive {proto proto' : RtmpProto} {data : Bytes} (saved : proto.lastData = [])
    (block : proto.readBuffer.length = bufferSz) (nonempty : data ≠ []) (fits : data.length ≤ bufferSz)
    (h : receiveData table proto data = .ok (proto', [])) : Untouched proto proto' := by
  rw [receiveDataFed table saved block (List.length_pos_of_ne_nil nonempty) fits] at h
  obtain ⟨⟨next, pacs, after⟩, loop, h⟩ := Fallible.bindOk.mp h
  obtain ⟨kept, save, h⟩ := Fallible.bindOk.mp h
  cases Except.ok.inj h
  have stored : Untouched proto (fed proto data) := ⟨⟨rfl, rfl, rfl, rfl, rfl, rfl, rfl, rfl⟩, rfl, rfl⟩
  have fed := untouchedThen stored (silentLoop _ loop)
  rcases saveStep save with rfl | rfl
  · exact fed
  · exact untouchedThen fed ⟨⟨rfl, rfl, rfl, rfl, rfl, rfl, rfl, rfl⟩, rfl, rfl⟩

end Silence

-- A connection that has taken these bytes of a client's opening, and no packet.
structure Opening (p : Bytes) (proto : RtmpProto) : Prop where
  shaken : Shaken p proto
  untouched : Untouched rtmpProtoInit proto

theorem openingInit : Opening [] rtmpProtoInit :=
  ⟨shakenInit, ⟨⟨rfl, rfl, rfl, rfl, rfl, rfl, rfl, rfl⟩, rfl, rfl⟩⟩

section Opened
variable {program : Int → MethodTable} (writes : ∀ now, (program now).onWriteData = true) {c1 c2 : Bytes}
  (size1 : c1.length = handshakeSize) (size2 : c2.length = handshakeSize)
include writes size1 size2

theorem openingTimed {cuts : List (Int × Bytes)} (nonempty : ∀ cut ∈ cuts, cut.2 ≠ []) {p : Bytes}
    {proto : RtmpProto} (opening : Opening p proto)
    (within : p ++ (cuts.map Prod.snd).flatten <+: clientOpening c1 c2) :
    ∃ proto', receiveTimed program proto cuts = .ok (proto', []) ∧
      Opening (p ++ (cuts.map Prod.snd).flatten) proto' := by
  have size : (clientOpening c1 c2).length = openingSize := by
    unfold clientOpening openingSize
    rw [List.length_cons, List.length_append]
    omega
  induction cuts generalizing p proto with
  | nil => exact ⟨proto, rfl, by simpa using opening⟩
  | cons cut cuts ih =>
    obtain ⟨now, data⟩ := cut
    obtain ⟨some, others⟩ := List.forall_mem_cons.mp nonempty
    rw [List.map_cons, List.flatten_cons, ← List.append_assoc] at within ⊢
    have front := (List.prefix_append (p ++ data) _).trans within
    have fits : data.length ≤ bufferSz := by
      have bound := front.length_le
      have whole : openingSize ≤ bufferSz := by decide
      rw [List.length_append] at bound
      omega
    have table : (rtmpProtoMethodTableInit (program now) now).onWriteData = true := writes now
    obtain ⟨next, received, shaken⟩ := handshakeData table ⟨_, rfl⟩ size opening.shaken some front
    have silent := silentReceive opening.shaken.lastData opening.shaken.readBuffer some fits received
    obtain ⟨last, later, done⟩ := ih others ⟨shaken, untouchedThen opening.untouched silent⟩ within
    exact ⟨last, by simp only [receiveTimed, received, Fallible.okBind, later]; rfl, done⟩

omit writes in
theorem openedListening {proto : RtmpProto} (opening : Opening (clientOpening c1 c2) proto) :
    Listening 128 proto := by
  obtain ⟨shaken, untouched⟩ := opening
  have phase : stage (clientOpening c1 c2) = 3 := by
    have size : (clientOpening c1 c2).length = openingSize := by
      unfold clientOpening openingSize
      rw [List.length_cons, List.length_append]
      omega
    rw [stage, size]
    decide
  have read : proto.readChunkSize = 128 := untouched.readChunkSize
  exact ⟨⟨shaken.pkgSt.trans phase, untouched.state, shaken.lastData, shaken.readBuffer, by omega, by omega⟩,
    untouched.writeChunkSize⟩

end Opened

theorem openingSame {p : Bytes} {proto : RtmpProto} (opening : Opening p proto) : SameReader proto rtmpProtoInit :=
  ⟨opening.untouched.readChunkSize, opening.untouched.channelsIn⟩

theorem openingPaced {p : Bytes} {proto : RtmpProto} (opening : Opening p proto) {times : List Int}
    (paced : Paced rtmpProtoInit times) : Paced proto times where
  sorted := paced.sorted
  reach now member slot exchanged := by
    rw [opening.untouched.lastTimers]
    exact paced.reach now member slot exchanged

theorem timedAppend (program : Int → MethodTable) (proto : RtmpProto) (cuts blocks : List (Int × Bytes)) :
    receiveTimed program proto (cuts ++ blocks) = receiveTimed program proto cuts >>= fun r =>
      receiveTimed program r.1 blocks >>= fun later => .ok (later.1, r.2 ++ later.2) := by
  induction cuts generalizing proto with
  | nil =>
    rw [List.nil_append, receiveTimed, Fallible.okBind]
    cases receiveTimed program proto blocks with
    | error e => rfl
    | ok later => rfl
  | cons cut cuts ih =>
    obtain ⟨now, data⟩ := cut
    simp only [List.cons_append, receiveTimed, ih, bind_assoc, Fallible.okBind, List.append_assoc]

theorem openedWrites {p : Bytes} {proto : RtmpProto} (opening : Opening p proto) : Synced 128 proto (receiver 128) :=
  syncedFrame (syncedInit 128) opening.untouched.channelsOut opening.untouched.writeChunkSize

theorem openedWritten {c1 c2 : Bytes} (size1 : c1.length = handshakeSize) (size2 : c2.length = handshakeSize)
    {proto : RtmpProto} (opening : Opening (clientOpening c1 c2) proto) : proto.written = [handshakeAck, c1] := by
  have size : 1 + handshakeSize ≤ (clientOpening c1 c2).length := by
    rw [clientOpening, List.length_cons, List.length_append]
    omega
  have echoed : ((clientOpening c1 c2).drop 1).take handshakeSize = c1 := by
    rw [clientOpening, List.drop_succ_cons, List.drop_zero, ← size1, List.take_left]
  rw [opening.shaken.written, answered, if_pos size, echoed]

section Session
variable {on : Fin 64 → Prop} {takes : Bytes → List AV → Prop} {application : Application}
  {program : Int → MethodTable} (obeys : ∀ now, Obeys 128 now on application (program now))
  (reliable : ∀ now, Reliable 128 now on takes (program now)) {c1 c2 : Bytes} (size1 : c1.length = handshakeSize)
  (size2 : c2.length = handshakeSize) {cuts : List (Int × Bytes)} (nonempty : ∀ cut ∈ cuts, cut.2 ≠ [])
  (whole : (cuts.map Prod.snd).flatten = clientOpening c1 c2) {blocks : List (Int × Bytes)} {pacs : List Packet}
  {last : RtmpProto} (carried : Carried rtmpProtoInit blocks pacs last)
  (paced : Paced rtmpProtoInit (blocks.map Prod.fst)) (exchange : ∀ pac ∈ pacs, Within on pac)
  (serviced : ∀ pac ∈ pacs, Serviced takes pac)
include obeys reliable size1 size2 nonempty whole carried paced exchange serviced

theorem openedServed : ∃ server server', receiveTimed program rtmpProtoInit cuts = .ok (server, []) ∧
    Opening (clientOpening c1 c2) server ∧ receiveTimed program server blocks = .ok (server', pacs) := by
  obtain ⟨server, received, opening⟩ := openingTimed (fun now => (obeys now).writes) size1 size2 nonempty openingInit
    (whole ▸ List.prefix_refl _)
  rw [List.nil_append, whole] at opening
  obtain ⟨server', run, _⟩ := runServed (Nat.le_of_ble_eq_true rfl) obeys reliable carried
    (openedListening size1 size2 opening) (openingPaced opening paced) (openingSame opening) exchange serviced
  exact ⟨server, server', received, opening, run⟩

theorem session : ∃ server server' answers, receiveTimed program rtmpProtoInit cuts = .ok (server, []) ∧
    server.written = [handshakeAck, c1] ∧ Synced 128 server (receiver 128) ∧
    receiveTimed program server blocks = .ok (server', pacs) ∧ List.Forall₂ (Answered application) pacs answers ∧
    Heard 128 server server' answers.flatten := by
  obtain ⟨server, server', received, opening, run⟩ :=
    openedServed obeys reliable size1 size2 nonempty whole carried paced exchange serviced
  obtain ⟨answers, turn⟩ := conversationTurn (Nat.le_of_ble_eq_true rfl) obeys run
    (openedListening size1 size2 opening) (openingPaced opening paced) exchange
  exact ⟨server, server', answers, received, openedWritten size1 size2 opening, openedWrites opening, run,
    turn.answered, spokenHeard (by decide) turn.utters.speaks⟩

end Session

/- The blocks of one client: part of its opening, or all of it and then whole messages. -/
inductive Visited (on : Fin 64 → Prop) : List (Int × Bytes) → List Packet → Prop where
  | shaking {c1 c2 : Bytes} (size1 : c1.length = handshakeSize) (size2 : c2.length = handshakeSize)
      {cuts : List (Int × Bytes)} (nonempty : ∀ cut ∈ cuts, cut.2 ≠ [])
      (within : (cuts.map Prod.snd).flatten <+: clientOpening c1 c2) : Visited on cuts []
  | opened {c1 c2 : Bytes} (size1 : c1.length = handshakeSize) (size2 : c2.length = handshakeSize)
      {cuts : List (Int × Bytes)} (nonempty : ∀ cut ∈ cuts, cut.2 ≠ [])
      (whole : (cuts.map Prod.snd).flatten = clientOpening c1 c2) {blocks : List (Int × Bytes)}
      {pacs : List Packet} {last : RtmpProto} (carried : Carried rtmpProtoInit blocks pacs last)
      (paced : Paced rtmpProtoInit (blocks.map Prod.fst)) (exchange : ∀ pac ∈ pacs, Within on pac) :
      Visited on (cuts ++ blocks) pacs

section Survival
variable {on : Fin 64 → Prop} {takes : Bytes → List AV → Prop} {application : Application}
  {program : Int → MethodTable} (obeys : ∀ now, Obeys 128 now on application (program now))
  (reliable : ∀ now, Reliable 128 now on takes (program now))
include obeys reliable

theorem visitGoes {blocks : List (Int × Bytes)} {pacs : List Packet} (visited : Visited on blocks pacs)
    (serviced : ∀ pac ∈ pacs, Serviced takes pac) : ∃ r, receiveTimed program rtmpProtoInit blocks = .ok r := by
  have writes : ∀ now, (program now).onWriteData = true := fun now => (obeys now).writes
  cases visited with
  | shaking size1 size2 nonempty within =>
    obtain ⟨proto, received, _⟩ := openingTimed writes size1 size2 nonempty openingInit within
    exact ⟨_, received⟩
  | opened size1 size2 nonempty whole carried paced exchange =>
    obtain ⟨server, server', received, _, run⟩ :=
      openedServed obeys reliable size1 size2 nonempty whole carried paced exchange serviced
    rw [timedAppend, received, Fallible.okBind, run]
    exact ⟨_, rfl⟩

theorem serverSurvives {stop : Fault} {events : List Event} {pacs : Nat → List Packet}
    (each : ∀ client, Visited on (served client events) (pacs client))
    (serviced : ∀ client, ∀ pac ∈ pacs client, Serviced takes pac)
    (reads : ∀ client, readFails client events = false) :
    ∃ server, eventLoop stop program serverInit events = .ok server :=
  (loopGoes stop program events).mpr fun client =>
    ⟨visitGoes obeys reliable (each client) (serviced client), reads client⟩

end Survival

def zeros : Bytes := List.replicate handshakeSize 0

theorem zerosLength : zeros.length = handshakeSize := List.length_replicate

def openingCuts : List (Int × Bytes) := [(3, clientOpening zeros zeros)]

theorem cutsNonempty : ∀ cut ∈ openingCuts, cut.2 ≠ [] := by simp [openingCuts, clientOpening]

theorem cutsOpening : (openingCuts.map Prod.snd).flatten = clientOpening zeros zeros := by simp [openingCuts]

theorem guestCarried : ∃ last, Carried rtmpProtoInit [(5, [onePingWire].flatten)] ([onePing] ++ []) last :=
  pingCarried ⟨rfl, rfl⟩

theorem guestPaced : Paced rtmpProtoInit ([((5 : Int), [onePingWire].flatten)].map Prod.fst) :=
  freshPaced rtmpProtoInit rfl (by simp) (by simp)

theorem sessionPing : ∃ server server' answers, receiveTimed (fun _ => bareTable) rtmpProtoInit openingCuts =
      .ok (server, []) ∧
    server.written = [handshakeAck, zeros] ∧ Synced 128 server (receiver 128) ∧
    receiveTimed (fun _ => bareTable) server [(5, [onePingWire].flatten)] = .ok (server', [onePing] ++ []) ∧
    List.Forall₂ (Answered silentApplication) ([onePing] ++ []) answers ∧ Heard 128 server server' answers.flatten := by
  obtain ⟨last, carried⟩ := guestCarried
  exact session (bareObeys 128) (bareReliable 128) zerosLength zerosLength cutsNonempty cutsOpening carried guestPaced
    pingWithin pingServiced

def guests : List Event :=
  [.acceptable 5, .acceptable 6, .readable 0 3 (some (clientOpening zeros zeros)), .readable 1 4 (some []),
    .readable 0 5 (some [onePingWire].flatten)]

def guestPackets (client : Nat) : List Packet := if client = 0 then [onePing] ++ [] else []

theorem guestsServed : ∃ server, eventLoop .overRead (fun _ => bareTable) serverInit guests = .ok server := by
  have absent : Visited Exchanged [] [] := .shaking zerosLength zerosLength (by simp) List.nil_prefix
  have quiet (client : Nat) : own (client + 2) (signals 0 1 guests) = [] := by simp [guests, signals, own]
  have each (client : Nat) : Visited Exchanged (served client guests) (guestPackets client) := by
    rcases client with _ | _ | client
    · obtain ⟨last, carried⟩ := guestCarried
      exact .opened zerosLength zerosLength cutsNonempty cutsOpening carried guestPaced pingWithin
    · exact absent
    · rw [served, quiet]
      exact absent
  refine serverSurvives (bareObeys 128) (bareReliable 128) each (fun client pac member => ?_) fun client => ?_
  · rcases client with _ | client
    · exact pingServiced pac member
    · exact absurd member List.not_mem_nil
  · rcases client with _ | _ | client
    · rfl
    · rfl
    · rw [readFails, quiet]
      rfl

end Rushkit
