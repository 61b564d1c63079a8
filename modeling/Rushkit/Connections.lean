import Rushkit.Handshake
import Rushkit.Library.Population
import Rushkit.Service

/-! The event loop of `aux` (`main.cpp`): it accepts clients and feeds every connection what
it has read. The connections are listed by their ids (`connection.cpp`). -/
namespace Rushkit
open Population

structure Connection where
  connId : Int
  fd : Int
  proto : RtmpProto

/- What a `Connection*` points to, before `new` and after `delete` too. -/
inductive Phase where
  | awaited
  | live (conn : Connection)
  | deleted

/- The pointers are the numbers `0`, `1`, .. in the order in which they are made. -/
structure Server where
  nextConnectionId : Int
  connectionMap : Int → Option Nat
  clients : Nat → Phase
  made : Nat

/- `read` is `none` where the call fails. -/
inductive Event where
  | acceptable (clientFd : Int)
  | readable (client : Nat) (now : Int) (read : Option Bytes)

def serverInit : Server := ⟨1, fun _ => none, fun _ => .awaited, 0⟩

def connectionGet (server : Server) (connId : Int) : Option Nat := server.connectionMap connId

def newConnection (server : Server) (clientFd : Int) : Server where
  nextConnectionId := int32 (server.nextConnectionId + 1)
  connectionMap := Function.update server.connectionMap server.nextConnectionId (some server.made)
  clients := Function.update server.clients server.made (.live ⟨server.nextConnectionId, clientFd, rtmpProtoInit⟩)
  made := server.made + 1

def deleteConnection (server : Server) (client : Nat) (conn : Connection) : Server :=
  { server with
    connectionMap := Function.update server.connectionMap conn.connId none
    clients := Function.update server.clients client .deleted }

def onAccept (server : Server) (clientFd : Int) : Server :=
  if clientFd < 0 then server else newConnection server clientFd

section Events
variable (stop : Fault)

/- `Connection::receiveData`, with what `read` gives. `stop` is how the process ends at a failed
assertion: -1 is compared with the capacity as a `size_t`, which is more than any capacity. -/
def connectionReceiveData (table : MethodTable) (conn : Connection) : Option Bytes → Res (Int × Connection)
  | none => .error stop
  | some [] => .ok (0, conn)
  | some data => do
    let (proto, _) ← receiveData table conn.proto data
    .ok (data.length, { conn with proto })

-- No event is registered for a client that is not live.
def onRtmpRead (table : MethodTable) (server : Server) (client : Nat) (read : Option Bytes) : Res Server :=
  match server.clients client with
  | .live conn => do
    let (len, conn) ← connectionReceiveData stop table conn read
    if len ≤ 0 then .ok (deleteConnection server client conn)
    else .ok { server with clients := Function.update server.clients client (.live conn) }
  | _ => .ok server

def onEvent (program : Int → MethodTable) (server : Server) : Event → Res Server
  | .acceptable clientFd => .ok (onAccept server clientFd)
  | .readable client now read => onRtmpRead stop (rtmpProtoMethodTableInit (program now) now) server client read

def eventLoop (program : Int → MethodTable) : Server → List Event → Res Server
  | server, [] => .ok server
  | server, event :: events => onEvent stop program server event >>= fun server => eventLoop program server events

end Events

inductive Signal where
  | opened (connId fd : Int)
  | readable (now : Int) (read : Option Bytes)

def signals : Nat → Int → List Event → List (Nat × Signal)
  | _, _, [] => []
  | made, next, .acceptable clientFd :: events =>
    if clientFd < 0 then signals made next events
    else (made, .opened next clientFd) :: signals (made + 1) (int32 (next + 1)) events
  | made, next, .readable client now read :: events => (client, .readable now read) :: signals made next events

def onSignal (stop : Fault) (program : Int → MethodTable) : Phase → Signal → Res Phase
  | _, .opened connId fd => .ok (.live ⟨connId, fd, rtmpProtoInit⟩)
  | .live conn, .readable now read => do
    let (len, conn) ← connectionReceiveData stop (rtmpProtoMethodTableInit (program now) now) conn read
    .ok (if len ≤ 0 then .deleted else .live conn)
  | phase, .readable _ _ => .ok phase

-- The blocks up to the read that deletes the connection.
def taken : List Signal → List (Int × Bytes)
  | .readable now (some (byte :: more)) :: rest => (now, byte :: more) :: taken rest
  | _ => []

def visit : List Signal → List (Int × Bytes)
  | [] => []
  | .opened _ _ :: rest => taken rest
  | .readable _ _ :: rest => visit rest

-- The reads come to one that fails before they come to one that brings nothing.
def breaks : List Signal → Bool
  | .readable _ (some (_ :: _)) :: rest => breaks rest
  | .readable _ none :: _ => true
  | _ => false

def visitBreaks : List Signal → Bool
  | [] => false
  | .opened _ _ :: rest => breaks rest
  | .readable _ _ :: rest => visitBreaks rest

-- A read fails on a connection that the client has not closed.
def readFails (client : Nat) (events : List Event) : Bool := visitBreaks (own client (signals 0 1 events))

-- What the loop has fed to the connection of a client.
def served (client : Nat) (events : List Event) : List (Int × Bytes) :=
  visit (own client (signals 0 1 events))

theorem loopActs (stop : Fault) (program : Int → MethodTable) (server : Server) (events : List Event) :
    (eventLoop stop program server events).map Server.clients =
      acts (onSignal stop program) server.clients (signals server.made server.nextConnectionId events) := by
  induction events generalizing server with
  | nil => rfl
  | cons event events ih =>
    rw [eventLoop, Fallible.bindMap]
    cases event with
    | acceptable clientFd =>
      rw [onEvent, Fallible.okBind, ih, onAccept, signals]
      split
      · rfl
      · rfl
    | readable client now read =>
      rw [onEvent, signals, acts, onRtmpRead]
      cases phase : server.clients client with
      | awaited | deleted =>
        rw [onSignal, Fallible.okBind, Fallible.okBind, ← phase, Function.update_eq_self]
        · exact ih server
        all_goals simp
      | live conn =>
        simp only [onSignal]
        cases connectionReceiveData stop (rtmpProtoMethodTableInit (program now) now) conn read with
        | error e => rfl
        | ok r =>
          simp only [Fallible.okBind]
          split
          · exact ih _
          · exact ih _

-- What a connection does with its signals is what it does with these blocks.
structure Alone (stop : Fault) (program : Int → MethodTable) (phase : Phase) (inputs : List Signal)
    (proto : RtmpProto) (blocks : List (Int × Bytes)) (broken : Bool) : Prop where
  goes : (∃ phase', runs (onSignal stop program) phase inputs = .ok phase') ↔
    (∃ r, receiveTimed program proto blocks = .ok r) ∧ broken = false
  live : ∀ {conn}, runs (onSignal stop program) phase inputs = .ok (.live conn) →
    ∃ pacs, receiveTimed program proto blocks = .ok (conn.proto, pacs)

def Reading (signal : Signal) : Prop := ∃ now read, signal = .readable now read

section Signals
variable {stop : Fault} {program : Int → MethodTable}

theorem aloneStep {phase phase' : Phase} {signal : Signal} {inputs : List Signal} {proto : RtmpProto}
    {blocks : List (Int × Bytes)} {broken : Bool} (step : onSignal stop program phase signal = .ok phase')
    (alone : Alone stop program phase' inputs proto blocks broken) :
    Alone stop program phase (signal :: inputs) proto blocks broken := by
  have same : runs (onSignal stop program) phase (signal :: inputs) = runs (onSignal stop program) phase' inputs := by
    rw [runs, step, Fallible.okBind]
  exact ⟨by rw [same]; exact alone.goes, fun h => alone.live (same ▸ h)⟩

theorem deletedAlone (proto : RtmpProto) {inputs : List Signal} (reading : ∀ signal ∈ inputs, Reading signal) :
    Alone stop program .deleted inputs proto [] false := by
  induction inputs with
  | nil => exact ⟨iff_of_true ⟨_, rfl⟩ ⟨⟨_, rfl⟩, rfl⟩, fun h => by cases Except.ok.inj h⟩
  | cons signal inputs ih =>
    obtain ⟨⟨now, read, rfl⟩, others⟩ := List.forall_mem_cons.mp reading
    exact aloneStep rfl (ih others)

theorem liveAlone {inputs : List Signal} (reading : ∀ signal ∈ inputs, Reading signal) (conn : Connection) :
    Alone stop program (.live conn) inputs conn.proto (taken inputs) (breaks inputs) := by
  induction inputs generalizing conn with
  | nil =>
    refine ⟨iff_of_true ⟨_, rfl⟩ ⟨⟨_, rfl⟩, rfl⟩, fun h => ?_⟩
    cases Phase.live.inj (Except.ok.inj h)
    exact ⟨[], rfl⟩
  | cons signal inputs ih =>
    obtain ⟨⟨now, read, rfl⟩, others⟩ := List.forall_mem_cons.mp reading
    match read with
    | none =>
      have stops : runs (onSignal stop program) (.live conn) (.readable now none :: inputs) = .error stop := rfl
      refine ⟨by simp [stops, breaks], fun h => ?_⟩
      rw [stops] at h
      contradiction
    | some [] => exact aloneStep rfl (deletedAlone conn.proto others)
    | some (byte :: more) =>
      have fed : ¬ (((byte :: more).length : Int) ≤ 0) := by
        rw [List.length_cons]
        omega
      cases received : receiveData (rtmpProtoMethodTableInit (program now) now) conn.proto (byte :: more) with
      | error e =>
        have stops : runs (onSignal stop program) (.live conn) (.readable now (some (byte :: more)) :: inputs) =
            .error e := by
          simp only [runs, onSignal, connectionReceiveData, received, Fallible.errorBind]
        refine ⟨?_, fun h => ?_⟩
        · simp [stops, taken, receiveTimed, received]
        · rw [stops] at h
          contradiction
      | ok r =>
        obtain ⟨proto, pacs⟩ := r
        obtain ⟨goes, live⟩ := ih others { conn with proto }
        have goesOn : runs (onSignal stop program) (.live conn) (.readable now (some (byte :: more)) :: inputs) =
            runs (onSignal stop program) (.live { conn with proto }) inputs := by
          simp only [runs, onSignal, connectionReceiveData, received, Fallible.okBind, if_neg fed]
        refine ⟨?_, fun h => ?_⟩
        · rw [goesOn, goes, taken, breaks]
          simp only [receiveTimed, received, Fallible.okBind]
          refine and_congr_left' ?_
          constructor
          · rintro ⟨⟨last, later⟩, rest⟩
            exact ⟨(last, pacs ++ later), by rw [rest]; rfl⟩
          · rintro ⟨_, whole⟩
            obtain ⟨⟨last, later⟩, rest, _⟩ := Fallible.bindOk.mp whole
            exact ⟨(last, later), rest⟩
        · rw [goesOn] at h
          obtain ⟨later, rest⟩ := live h
          exact ⟨pacs ++ later, by rw [taken]; simp only [receiveTimed, received, Fallible.okBind, rest]⟩

theorem signalsReading {client made : Nat} (earlier : client < made) (next : Int) (events : List Event) :
    ∀ signal ∈ own client (signals made next events), Reading signal := by
  induction events generalizing made next with
  | nil => simp [signals]
  | cons event events ih =>
    cases event with
    | acceptable clientFd =>
      rw [signals]
      split
      · exact ih earlier next
      · rw [ownOther (by omega)]
        exact ih (by omega) _
    | readable other now read =>
      rw [signals]
      by_cases same : other = client
      · subst same
        rw [ownMine]
        exact List.forall_mem_cons.mpr ⟨⟨now, read, rfl⟩, ih earlier next⟩
      · rw [ownOther same]
        exact ih earlier next

theorem awaitedAlone {client made : Nat} (later : made ≤ client) (next : Int) (events : List Event) :
    Alone stop program .awaited (own client (signals made next events)) rtmpProtoInit
      (visit (own client (signals made next events))) (visitBreaks (own client (signals made next events))) := by
  induction events generalizing made next with
  | nil => exact ⟨iff_of_true ⟨_, rfl⟩ ⟨⟨_, rfl⟩, rfl⟩, fun h => by cases Except.ok.inj h⟩
  | cons event events ih =>
    cases event with
    | acceptable clientFd =>
      rw [signals]
      split
      · exact ih later next
      by_cases same : made = client
      · subst same
        rw [ownMine]
        exact aloneStep rfl (liveAlone (signalsReading (Nat.lt_succ_self _) _ events) ⟨next, clientFd, rtmpProtoInit⟩)
      · rw [ownOther same]
        exact ih (by omega) _
    | readable other now read =>
      rw [signals]
      by_cases same : other = client
      · subst same
        rw [ownMine]
        exact aloneStep rfl (ih later next)
      · rw [ownOther same]
        exact ih later next

end Signals

section Loop
variable (stop : Fault) (program : Int → MethodTable) (events : List Event)

theorem clientAlone (client : Nat) : Alone stop program (serverInit.clients client) (own client (signals 0 1 events))
    rtmpProtoInit (served client events) (readFails client events) :=
  awaitedAlone (Nat.zero_le client) 1 events

theorem loopGoes : (∃ server, eventLoop stop program serverInit events = .ok server) ↔
    ∀ client, (∃ r, receiveTimed program rtmpProtoInit (served client events) = .ok r) ∧
      readFails client events = false := by
  have acted := loopActs stop program serverInit events
  constructor
  · rintro ⟨server, run⟩ client
    rw [run] at acted
    exact (clientAlone stop program events client).goes.mp ⟨_, actsRuns acted.symm client⟩
  · intro each
    obtain ⟨all, together⟩ := runsActs fun client => (clientAlone stop program events client).goes.mpr (each client)
    cases run : eventLoop stop program serverInit events with
    | ok server => exact ⟨server, rfl⟩
    | error e =>
      rw [run] at acted
      exact absurd (acted.trans together) (by simp [Except.map])

theorem serverIsolation :
    ((∃ server, eventLoop stop program serverInit events = .ok server) ↔
      ∀ client, (∃ r, receiveTimed program rtmpProtoInit (served client events) = .ok r) ∧
        readFails client events = false) ∧
    ∀ {server client conn}, eventLoop stop program serverInit events = .ok server → server.clients client = .live conn →
      ∃ pacs, receiveTimed program rtmpProtoInit (served client events) = .ok (conn.proto, pacs) := by
  refine ⟨loopGoes stop program events, fun {server client conn} run live => ?_⟩
  have acted := loopActs stop program serverInit events
  rw [run] at acted
  have mine := actsRuns acted.symm client
  rw [live] at mine
  exact (clientAlone stop program events client).live mine

end Loop

-- How often a client has been accepted.
def accepts (events : List Event) : Nat :=
  (events.filter fun event => match event with
    | .acceptable clientFd => 0 ≤ clientFd
    | .readable _ _ _ => false).length

structure Registered (server : Server) : Prop where
  next : server.nextConnectionId = server.made + 1
  ids : ∀ {client conn}, server.clients client = .live conn → conn.connId = client + 1 ∧ client < server.made
  listed : ∀ connId client, connectionGet server connId = some client ↔
    ∃ conn, server.clients client = .live conn ∧ conn.connId = connId

theorem registeredInit : Registered serverInit where
  next := rfl
  ids h := by contradiction
  listed connId client := ⟨fun h => by contradiction, fun ⟨_, h, _⟩ => by contradiction⟩

theorem registeredNew {server : Server} (registered : Registered server) (clientFd : Int)
    (few : server.made < 2147483646) : Registered (newConnection server clientFd) where
  next := by
    simp only [newConnection, registered.next]
    rw [int32Same (by omega) (by omega)]
    push_cast
    rfl
  ids {client conn} live := by
    simp only [newConnection] at live ⊢
    rcases eq_or_ne client server.made with rfl | other
    · rw [Function.update_self] at live
      cases Phase.live.inj live
      exact ⟨registered.next, by omega⟩
    · rw [Function.update_of_ne other] at live
      have old := registered.ids live
      exact ⟨old.1, by omega⟩
  listed connId client := by
    have next := registered.next
    have before := registered.listed connId client
    simp only [connectionGet, newConnection] at before ⊢
    rcases eq_or_ne client server.made with rfl | other
    · rw [Function.update_self]
      rcases eq_or_ne connId server.nextConnectionId with rfl | different
      · rw [Function.update_self]
        exact iff_of_true rfl ⟨_, rfl, rfl⟩
      · rw [Function.update_of_ne different, before]
        constructor
        · rintro ⟨conn, live, _⟩
          exact absurd (registered.ids live).2 (Nat.lt_irrefl _)
        · rintro ⟨conn, live, same⟩
          cases Phase.live.inj live
          exact absurd same.symm different
    · rw [Function.update_of_ne other]
      rcases eq_or_ne connId server.nextConnectionId with rfl | different
      · rw [Function.update_self]
        refine iff_of_false (fun h => other (Option.some.inj h).symm) ?_
        rintro ⟨conn, live, same⟩
        have id := (registered.ids live).1
        omega
      · rw [Function.update_of_ne different]
        exact before

theorem registeredDelete {server : Server} (registered : Registered server) {client : Nat} {conn : Connection}
    (live : server.clients client = .live conn) : Registered (deleteConnection server client conn) where
  next := registered.next
  ids {other conn'} live' := by
    simp only [deleteConnection] at live' ⊢
    rcases eq_or_ne other client with rfl | different
    · rw [Function.update_self] at live'
      contradiction
    · rw [Function.update_of_ne different] at live'
      exact registered.ids live'
  listed connId other := by
    have before := registered.listed connId other
    have mine := registered.ids live
    simp only [connectionGet, deleteConnection] at before ⊢
    rcases eq_or_ne other client with rfl | different
    · rw [Function.update_self]
      refine iff_of_false (fun h => ?_) (fun ⟨_, h, _⟩ => by contradiction)
      rcases eq_or_ne connId conn.connId with rfl | apart
      · rw [Function.update_self] at h
        contradiction
      · rw [Function.update_of_ne apart] at h
        obtain ⟨conn', live', same⟩ := before.mp h
        cases Phase.live.inj (live.symm.trans live')
        exact apart same.symm
    · rw [Function.update_of_ne different]
      rcases eq_or_ne connId conn.connId with rfl | apart
      · rw [Function.update_self]
        refine iff_of_false (fun h => by contradiction) ?_
        rintro ⟨conn', live', same⟩
        have theirs := registered.ids live'
        omega
      · rw [Function.update_of_ne apart]
        exact before

theorem registeredFed {server : Server} (registered : Registered server) {client : Nat} {conn : Connection}
    (live : server.clients client = .live conn) (proto : RtmpProto) :
    Registered { server with clients := Function.update server.clients client (.live { conn with proto }) } where
  next := registered.next
  ids {other conn'} live' := by
    have mine := registered.ids live
    dsimp only at live'
    rcases eq_or_ne other client with rfl | different
    · rw [Function.update_self] at live'
      cases Phase.live.inj live'
      exact mine
    · rw [Function.update_of_ne different] at live'
      exact registered.ids live'
  listed connId other := by
    refine (registered.listed connId other).trans ?_
    dsimp only
    rcases eq_or_ne other client with rfl | different
    · rw [Function.update_self]
      constructor
      · rintro ⟨conn', live', same⟩
        cases Phase.live.inj (live.symm.trans live')
        exact ⟨_, rfl, same⟩
      · rintro ⟨conn', live', same⟩
        cases Phase.live.inj live'
        exact ⟨conn, live, same⟩
    · rw [Function.update_of_ne different]

theorem receiveStep {stop : Fault} {table : MethodTable} {conn conn' : Connection} {read : Option Bytes} {len : Int}
    (h : connectionReceiveData stop table conn read = .ok (len, conn')) : ∃ proto, conn' = { conn with proto } := by
  unfold connectionReceiveData at h
  split at h
  · contradiction
  · cases Except.ok.inj h
    exact ⟨conn.proto, rfl⟩
  · obtain ⟨r, _, h⟩ := Fallible.bindOk.mp h
    cases Except.ok.inj h
    exact ⟨r.1, rfl⟩

theorem registeredRead {stop : Fault} {table : MethodTable} {server server' : Server} (registered : Registered server)
    {client : Nat} {read : Option Bytes} (h : onRtmpRead stop table server client read = .ok server') :
    Registered server' ∧ server'.made = server.made := by
  unfold onRtmpRead at h
  split at h
  · rename_i conn live
    obtain ⟨⟨len, conn'⟩, received, h⟩ := Fallible.bindOk.mp h
    obtain ⟨proto, rfl⟩ := receiveStep received
    dsimp only at h
    split at h
    · cases Except.ok.inj h
      have deleted : Registered (deleteConnection server client conn) := registeredDelete registered live
      exact ⟨deleted, rfl⟩
    · cases Except.ok.inj h
      exact ⟨registeredFed registered live proto, rfl⟩
  · cases Except.ok.inj h
    exact ⟨registered, rfl⟩

theorem registeredLoop {stop : Fault} {program : Int → MethodTable} {server server' : Server} (registered : Registered server)
    {events : List Event} (few : server.made + accepts events < 2147483647)
    (run : eventLoop stop program server events = .ok server') : Registered server' := by
  induction events generalizing server with
  | nil =>
    cases Except.ok.inj run
    exact registered
  | cons event events ih =>
    obtain ⟨next, step, later⟩ := Fallible.bindOk.mp run
    cases event with
    | acceptable clientFd =>
      cases Except.ok.inj step
      unfold onAccept at later
      split at later
      · rename_i failed
        have same : accepts (.acceptable clientFd :: events) = accepts events := by
          simp [accepts, Int.not_le.mpr failed]
        exact ih registered (same ▸ few) later
      · rename_i accepted
        have more : accepts (.acceptable clientFd :: events) = accepts events + 1 := by
          simp [accepts, Int.not_lt.mp accepted]
        have count : (newConnection server clientFd).made = server.made + 1 := rfl
        exact ih (registeredNew registered clientFd (by omega)) (by omega) later
    | readable client now read =>
      obtain ⟨kept, count⟩ := registeredRead registered step
      exact ih kept (count ▸ few) later

theorem connectionsListed {stop : Fault} {program : Int → MethodTable} {events : List Event}
    (few : accepts events < 2147483647) {server : Server} (run : eventLoop stop program serverInit events = .ok server) :
    (∀ connId client, connectionGet server connId = some client ↔
      ∃ conn, server.clients client = .live conn ∧ conn.connId = connId) ∧
    ∀ {client conn}, server.clients client = .live conn → conn.connId = client + 1 := by
  have registered := registeredLoop registeredInit ((Nat.zero_add _).trans_lt few) run
  exact ⟨registered.listed, fun live => (registered.ids live).1⟩

-- The second client leaves; its id is not given to the third.
def visitors : List Event :=
  [.acceptable 5, .acceptable 6, .readable 1 9 (some []), .acceptable (-1), .acceptable 6]

theorem visitorsListed : ∃ server, eventLoop .overRead (fun _ => bareTable) serverInit visitors = .ok server ∧
    connectionGet server 2 = none ∧
    (∀ connId client, connectionGet server connId = some client ↔
      ∃ conn, server.clients client = .live conn ∧ conn.connId = connId) ∧
    ∀ {client conn}, server.clients client = .live conn → conn.connId = client + 1 := by
  have few : accepts visitors < 2147483647 := by decide
  obtain ⟨server, run, gone⟩ : ∃ server, eventLoop .overRead (fun _ => bareTable) serverInit visitors = .ok server ∧
    connectionGet server 2 = none := ⟨_, rfl, rfl⟩
  exact ⟨server, run, gone, connectionsListed few run⟩

end Rushkit
