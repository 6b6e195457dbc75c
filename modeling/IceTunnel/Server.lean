import IceTunnel.Connection
import IceTunnel.Datagrams
import IceTunnel.Foundation.Runs

/-!
`Server` and `UdpListener` of `server.h` and `server.cpp`.  Listeners and connections
have the numbers that `++lastObjectIndex` gave them.  A `TcpListener` only appears
through the clients it accepts.
-/

namespace IceTunnel

/-- `Address::data`, empty without an address. -/
abbrev Address := List UInt8

structure UdpListener where
  udpAddress : Address
  tcpAddress : Address
  connections : Std.ExtTreeMap Address Nat
  eventClose : Event
  /-- `socket.sourceClose` is ready. -/
  closeReady : Bool
  wasError : Bool

/-- A connection with the listener and the address it was created with. -/
structure Client where
  udpListener : Nat
  udpAddress : Address
  connection : Connection

structure Server where
  config : Config
  udpReceivePacketSize : Int
  udpInitialSendIntervalUs : Int
  lastObjectIndex : Nat
  udpListeners : Std.ExtTreeMap Nat UdpListener
  connections : Std.ExtTreeMap Nat Client
  udpSummaryConnectionsSendIntervalUs : Int
  /-- The sockets connected to the `tcpAddress` of a listener, with the client's address.
  The code keeps no such record. -/
  opened : List (Nat × Address)

namespace Server

variable (s : Server)

/-- A server that has done nothing yet. -/
def blank (config : Config) (udpReceivePacketSize udpInitialSendIntervalUs : Int) : Server :=
  { config := config
    udpReceivePacketSize := udpReceivePacketSize
    udpInitialSendIntervalUs := udpInitialSendIntervalUs
    lastObjectIndex := 0
    udpListeners := ∅
    connections := ∅
    udpSummaryConnectionsSendIntervalUs := 0
    opened := [] }

/-- The intervals of the connections that `getUdpInitialIntervalUs` looks at. -/
def activeIntervals : List Int :=
  (s.connections.values.filter fun client => !client.connection.isNoMoreDataWillBeSent).map
    fun client => client.connection.udpSendIntervalUs

def getUdpInitialIntervalUs : Int :=
  let summarySpeed : Rat :=
    (s.activeIntervals.map fun interval => 1 / ((max 10 interval : Int) : Rat)).sum
  let count := s.activeIntervals.length
  if count > 0 then
    let summarySpeed := max summarySpeed (1 / 4 / s.udpInitialSendIntervalUs)
    let interval := ⌈((count + 1 : Nat) : Rat) / summarySpeed⌉
    let interval := if interval > s.config.udpResendUs.tdiv 3 then s.config.udpResendUs.tdiv 3 else interval
    if interval < s.udpInitialSendIntervalUs.tdiv 2 then s.udpInitialSendIntervalUs.tdiv 2 else interval
  else s.udpInitialSendIntervalUs

/-- `createUdpListener`, and the number of the listener. -/
def createUdpListener (udpAddress tcpAddress : Address) : Server × Nat :=
  let index := s.lastObjectIndex + 1
  let listener : UdpListener :=
    { udpAddress := udpAddress
      tcpAddress := tcpAddress
      connections := ∅
      eventClose := ({} : Event).setTime 0 false
      closeReady := false
      wasError := false }
  ({ s with
    lastObjectIndex := index
    udpListeners := s.udpListeners.insert index listener }, index)

def onUdpListenerClosed (index : Nat) (error : Bool) : Server :=
  match s.udpListeners[index]? with
  | none => s
  | some listener =>
      let s := { s with udpListeners := s.udpListeners.erase index }
      if error && !listener.tcpAddress.isEmpty then
        (s.createUdpListener listener.udpAddress listener.tcpAddress).1
      else s

/-- `createConnection`, and the number of the connection unless the result is `NULL`. -/
def createConnection (listenerIndex : Nat) (udpAddress : Address) (io : Io) : Server × Option Nat :=
  let index := s.lastObjectIndex + 1
  match s.udpListeners[listenerIndex]? with
  | none => (s, none)
  | some listener =>
      if udpAddress ∈ listener.connections then ({ s with lastObjectIndex := index }, none)
      else
        let connection := Connection.new s.config s.getUdpInitialIntervalUs
          s.udpSummaryConnectionsSendIntervalUs io
        ({ s with
          lastObjectIndex := index
          udpSummaryConnectionsSendIntervalUs := connection.udpSummaryConnectionsSendIntervalUs
          connections := s.connections.insert index ⟨listenerIndex, udpAddress, connection⟩
          udpListeners := s.udpListeners.insert listenerIndex { listener with
            connections := listener.connections.insert udpAddress index } }, some index)

/-- `onConnectionClosed`, with the destructor of the connection. -/
def onConnectionClosed (index : Nat) : Server :=
  match s.connections[index]? with
  | none => s
  | some client =>
      let s := { s with
        connections := s.connections.erase index
        udpSummaryConnectionsSendIntervalUs :=
          s.udpSummaryConnectionsSendIntervalUs - client.connection.udpSendIntervalUs }
      match s.udpListeners[client.udpListener]? with
      | none => s
      | some listener =>
          let connections :=
            if listener.connections[client.udpAddress]? = some index then
              listener.connections.erase client.udpAddress
            else listener.connections
          let s := { s with udpListeners :=
            s.udpListeners.insert client.udpListener { listener with connections := connections } }
          if listener.tcpAddress.isEmpty then s.onUdpListenerClosed client.udpListener false else s

/-- The connection as it runs in the server, which keeps the sum for all. -/
def attach (client : Client) : Connection :=
  { client.connection with
    udpSummaryConnectionsSendIntervalUs := s.udpSummaryConnectionsSendIntervalUs }

/-- A connection makes a move. -/
def moveConnection (index : Nat) (m : Connection.Move) : Option Server :=
  s.connections[index]?.bind fun client =>
    ((s.attach client).step m).map fun connection =>
      let s := { s with
        connections := s.connections.insert index { client with connection := connection }
        udpSummaryConnectionsSendIntervalUs := connection.udpSummaryConnectionsSendIntervalUs }
      if connection.deleted then s.onConnectionClosed index else s

/-- A new connection goes on with the packet that it was created for. -/
def openConnection (listenerIndex : Nat) (udpAddress : Address) (packet : Packet) (io : Io) :
    Option Server :=
  match { s with opened := s.opened ++ [(listenerIndex, udpAddress)] }.createConnection
      listenerIndex udpAddress io with
  | (s, none) => some s
  | (s, some index) =>
      s.connections[index]?.bind fun client =>
        s.moveConnection index (.udpRead packet client.connection.io)

/-- `UdpListener::handle` for a datagram that came from an address. -/
def receive (listenerIndex : Nat) (udpAddress : Address) (bytes : List UInt8) (io : Io) :
    Option Server :=
  s.udpListeners[listenerIndex]?.bind fun listener =>
    let packet := ({} : Packet).receive s.udpReceivePacketSize bytes
    if listener.closeReady then none
    else if udpAddress.isEmpty || !packet.checkCrc32 then some s
    else
      match listener.connections[udpAddress]? with
      | some index => s.moveConnection index (.udpRead packet io)
      | none =>
          if !listener.tcpAddress.isEmpty && packet.getType.isNumbered then
            s.openConnection listenerIndex udpAddress packet io
          else some s

/-- `TcpListener::handle` for a client it has accepted. -/
def accept (udpAddress : Address) (io : Io) : Server :=
  let (s, listenerIndex) := s.createUdpListener [] []
  (s.createConnection listenerIndex udpAddress io).1

/-- `UdpListener::handle` for `eventClose`. -/
def closeListener (index : Nat) : Option Server :=
  s.udpListeners[index]?.bind fun listener =>
    if listener.closeReady && listener.eventClose.isEnabled then
      if listener.connections.isEmpty then some (s.onUdpListenerClosed index listener.wasError)
      else some { s with udpListeners :=
        s.udpListeners.insert index { listener with eventClose := listener.eventClose.disable } }
    else none

/-- The socket of a listener is closed. -/
def failListener (index : Nat) (error : Bool) : Option Server :=
  s.udpListeners[index]?.map fun listener =>
    { s with udpListeners :=
      s.udpListeners.insert index { listener with closeReady := true, wasError := listener.wasError || error } }

/-- One thing that can happen to a server. -/
inductive Move
  | listen (udpAddress tcpAddress : Address)
  | accept (udpAddress : Address) (io : Io)
  | failListener (index : Nat) (error : Bool)
  | closeListener (index : Nat)
  | receive (listenerIndex : Nat) (udpAddress : Address) (bytes : List UInt8) (io : Io)
  | raise (index : Nat) (event : EventName) (timeUs : Nat) (io : Io)

def step (s : Server) : Move → Option Server
  | .listen udpAddress tcpAddress => some (s.createUdpListener udpAddress tcpAddress).1
  | .accept udpAddress io => some (s.accept udpAddress io)
  | .failListener index error => s.failListener index error
  | .closeListener index => s.closeListener index
  | .receive listenerIndex udpAddress bytes io => s.receive listenerIndex udpAddress bytes io
  | .raise index event timeUs io => s.moveConnection index (.raise event timeUs io)

/-- The connection that is there and the move it makes. -/
def target : Move → Option (Nat × Connection.Move)
  | .receive listenerIndex udpAddress bytes io =>
      (s.udpListeners[listenerIndex]?.bind fun listener => listener.connections[udpAddress]?).map
        fun index => (index, .udpRead (({} : Packet).receive s.udpReceivePacketSize bytes) io)
  | .raise index event timeUs io => some (index, .raise event timeUs io)
  | _ => none

section Steps

/-- What `main` sets before the server runs. -/
def parameters : Config × Int × Int :=
  (s.config, s.udpReceivePacketSize, s.udpInitialSendIntervalUs)

variable {s}

theorem onUdpListenerClosed_parameters (index : Nat) (error : Bool) :
    (s.onUdpListenerClosed index error).parameters = s.parameters := by
  simp only [onUdpListenerClosed]
  split
  · rfl
  · split <;> rfl

theorem onConnectionClosed_parameters (index : Nat) :
    (s.onConnectionClosed index).parameters = s.parameters := by
  simp only [onConnectionClosed]
  split
  · rfl
  · split
    · rfl
    · split
      · rw [onUdpListenerClosed_parameters]
        rfl
      · rfl

theorem createConnection_parameters (listenerIndex : Nat) (udpAddress : Address) (io : Io) :
    (s.createConnection listenerIndex udpAddress io).1.parameters = s.parameters := by
  simp only [createConnection]
  split
  · rfl
  · split <;> rfl

theorem moveConnection_parameters {index : Nat} {m : Connection.Move} {t : Server}
    (h : s.moveConnection index m = some t) : t.parameters = s.parameters := by
  simp only [moveConnection, Option.bind_eq_some_iff, Option.map_eq_some_iff] at h
  obtain ⟨client, -, d, -, rfl⟩ := h
  split
  · rw [onConnectionClosed_parameters]
    rfl
  · rfl

theorem onUdpListenerClosed_connections (index : Nat) (error : Bool) :
    (s.onUdpListenerClosed index error).connections = s.connections := by
  simp only [onUdpListenerClosed]
  split
  · rfl
  · split <;> rfl

theorem onConnectionClosed_connections (index : Nat) :
    (s.onConnectionClosed index).connections = s.connections.erase index := by
  cases hclient : s.connections[index]? with
  | none =>
      simp only [onConnectionClosed, hclient]
      apply Std.ExtTreeMap.ext_getElem?
      intro other
      rw [Std.ExtTreeMap.getElem?_erase]
      split
      · rename_i heq
        rw [← Std.LawfulEqCmp.compare_eq_iff_eq.mp heq, hclient]
      · rfl
  | some client =>
      simp only [onConnectionClosed, hclient]
      split
      · rfl
      · split
        · rw [onUdpListenerClosed_connections]
        · rfl

theorem createConnection_new {listenerIndex : Nat} {listener : UdpListener} {udpAddress : Address}
    (hlistener : s.udpListeners[listenerIndex]? = some listener)
    (hnew : listener.connections[udpAddress]? = none) (io : Io) :
    ∃ (created : Server) (index : Nat),
      s.createConnection listenerIndex udpAddress io = (created, some index) := by
  have hmem : udpAddress ∉ listener.connections := by
    rw [Std.ExtTreeMap.mem_iff_isSome_getElem?, hnew]
    exact Bool.false_ne_true
  simp only [createConnection, hlistener, if_neg hmem]
  exact ⟨_, _, rfl⟩

/-- What a listener does with a datagram: nothing when it is damaged, else it goes to the
connection under the address, or to a new one if it is numbered. -/
theorem receive_cases {listenerIndex : Nat} {udpAddress : Address} {bytes : List UInt8} {io : Io}
    {t : Server} (h : s.receive listenerIndex udpAddress bytes io = some t) :
    ∃ listener, s.udpListeners[listenerIndex]? = some listener ∧ listener.closeReady = false ∧
      let packet := ({} : Packet).receive s.udpReceivePacketSize bytes
      ((udpAddress.isEmpty || !packet.checkCrc32) = true ∧ t = s) ∨
      (udpAddress.isEmpty || !packet.checkCrc32) = false ∧
        ((∃ index, listener.connections[udpAddress]? = some index ∧
            s.moveConnection index (.udpRead packet io) = some t) ∨
          listener.connections[udpAddress]? = none ∧
            ((listener.tcpAddress ≠ [] ∧ packet.getType.isNumbered = true ∧
                ∃ (created : Server) (index : Nat) (io' : Io),
                  { s with opened := s.opened ++ [(listenerIndex, udpAddress)] }.createConnection
                    listenerIndex udpAddress io = (created, some index) ∧
                  created.moveConnection index (.udpRead packet io') = some t) ∨
              (!listener.tcpAddress.isEmpty && packet.getType.isNumbered) = false ∧ t = s)) := by
  simp only [receive, Option.bind_eq_some_iff, Option.ite_none_left_eq_some, Bool.not_eq_true] at h
  obtain ⟨listener, hlistener, hready, heq⟩ := h
  refine ⟨listener, hlistener, hready, ?_⟩
  intro packet
  split at heq
  · rename_i hbad
    exact .inl ⟨hbad, (Option.some.inj heq).symm⟩
  · rename_i hgood
    refine .inr ⟨Bool.not_eq_true _ ▸ hgood, ?_⟩
    split at heq
    · rename_i index hindex
      exact .inl ⟨index, hindex, heq⟩
    · rename_i hnone
      refine .inr ⟨hnone, ?_⟩
      split at heq
      · rename_i hopen
        simp only [Bool.and_eq_true, Bool.not_eq_true', List.isEmpty_eq_false_iff] at hopen
        refine .inl ⟨hopen.1, hopen.2, ?_⟩
        let s' : Server := { s with opened := s.opened ++ [(listenerIndex, udpAddress)] }
        obtain ⟨created, index, hcreated⟩ := createConnection_new (s := s') hlistener hnone io
        rw [openConnection, hcreated] at heq
        obtain ⟨client, -, hfirst⟩ := Option.bind_eq_some_iff.mp heq
        exact ⟨created, index, _, hcreated, hfirst⟩
      · rename_i hclosed
        exact .inr ⟨Bool.not_eq_true _ ▸ hclosed, (Option.some.inj heq).symm⟩

theorem step_cases {m : Move} {t : Server} (h : s.step m = some t) :
    (t.parameters = s.parameters ∧ t.connections = s.connections) ∨
      (∃ index move, s.target m = some (index, move) ∧ s.moveConnection index move = some t) ∨
      ∃ (s' : Server) (listenerIndex : Nat) (udpAddress : Address) (io : Io),
        s'.parameters = s.parameters ∧ s'.connections = s.connections ∧
        ((s'.createConnection listenerIndex udpAddress io).1 = t ∨
          ∃ (created : Server) (index : Nat) (packet : Packet) (io' : Io),
            s'.createConnection listenerIndex udpAddress io = (created, some index) ∧
            packet.getType.isNumbered = true ∧
            created.moveConnection index (.udpRead packet io') = some t) := by
  cases m with
  | listen udpAddress tcpAddress =>
      obtain rfl := Option.some.inj h
      exact .inl ⟨rfl, rfl⟩
  | accept udpAddress io =>
      obtain rfl := Option.some.inj h
      exact .inr (.inr ⟨(s.createUdpListener [] []).1, _, _, io, rfl, rfl, .inl rfl⟩)
  | failListener index error =>
      simp only [step, failListener, Option.map_eq_some_iff] at h
      obtain ⟨listener, -, rfl⟩ := h
      exact .inl ⟨rfl, rfl⟩
  | closeListener index =>
      simp only [step, closeListener, Option.bind_eq_some_iff, Option.ite_none_right_eq_some] at h
      obtain ⟨listener, -, -, heq⟩ := h
      split at heq
      · obtain rfl := Option.some.inj heq
        exact .inl ⟨onUdpListenerClosed_parameters _ _, onUdpListenerClosed_connections _ _⟩
      · obtain rfl := Option.some.inj heq
        exact .inl ⟨rfl, rfl⟩
  | «raise» index event timeUs io => exact .inr (.inl ⟨index, .raise event timeUs io, rfl, h⟩)
  | receive listenerIndex udpAddress bytes io =>
      obtain ⟨listener, hlistener, -, ⟨-, rfl⟩ | ⟨-, ⟨index, hindex, hmoved⟩ |
        ⟨-, ⟨-, hnumbered, created, index, io', hcreated, hfirst⟩ | ⟨-, rfl⟩⟩⟩⟩ := receive_cases h
      · exact .inl ⟨rfl, rfl⟩
      · refine .inr (.inl ⟨index, _, ?_, hmoved⟩)
        simp only [target, hlistener, Option.bind_some, hindex, Option.map_some]
      · exact .inr (.inr ⟨{ s with opened := s.opened ++ [(listenerIndex, udpAddress)] }, listenerIndex,
          udpAddress, io, rfl, rfl, .inr ⟨created, index, _, io', hcreated, hnumbered, hfirst⟩⟩)
      · exact .inl ⟨rfl, rfl⟩

theorem step_parameters {m : Move} {t : Server} (h : s.step m = some t) :
    t.parameters = s.parameters := by
  rcases step_cases h with ⟨hkept, -⟩ | ⟨index, move, -, hmoved⟩ |
    ⟨s', listenerIndex, udpAddress, io, hkept, -, rfl | ⟨created, index, packet, io', hcreation, -, hmoved⟩⟩
  · exact hkept
  · exact moveConnection_parameters hmoved
  · rw [createConnection_parameters, hkept]
  · have hcreated := s'.createConnection_parameters listenerIndex udpAddress io
    rw [hcreation] at hcreated
    rw [moveConnection_parameters hmoved, ← hkept]
    exact hcreated

end Steps

section Each

/-- What holds of every connection. -/
def Each (P : Connection → Prop) : Prop :=
  ∀ (index : Nat) (client : Client), s.connections[index]? = some client → P client.connection

/-- The move of a connection that is there meets the condition. -/
def EachTarget (ok : Connection → Connection.Move → Prop) (m : Move) : Prop :=
  ∀ x ∈ s.target m, ∀ client ∈ s.connections[x.1]?, ok (s.attach client) x.2

instance (ok : Connection → Connection.Move → Prop) [∀ c m, Decidable (ok c m)] (m : Move) :
    Decidable (s.EachTarget ok m) :=
  inferInstanceAs (Decidable (∀ _ ∈ _, ∀ _ ∈ _, _))

variable {s} {P : Connection → Prop}

theorem Each.insert (h : s.Each P) {index : Nat} {client : Client} (hclient : P client.connection)
    {t : Server} (ht : t.connections = s.connections.insert index client) : t.Each P := by
  intro other found hfound
  rw [ht, Std.ExtTreeMap.getElem?_insert] at hfound
  split at hfound
  · rwa [← Option.some.inj hfound]
  · exact h other found hfound

theorem Each.erase (h : s.Each P) {index : Nat} {t : Server}
    (ht : t.connections = s.connections.erase index) : t.Each P := by
  intro other found hfound
  rw [ht, Std.ExtTreeMap.getElem?_erase] at hfound
  split at hfound
  · cases hfound
  · exact h other found hfound

theorem Each.of_eq (h : s.Each P) {t : Server} (ht : t.connections = s.connections) : t.Each P := by
  intro index client hclient
  exact h index client (ht ▸ hclient)

theorem Each.moveConnection (h : s.Each P) {index : Nat} {m : Connection.Move} {t : Server}
    (hmove : ∀ client d, s.connections[index]? = some client → (s.attach client).step m = some d → P d)
    (hstep : s.moveConnection index m = some t) : t.Each P := by
  simp only [Server.moveConnection, Option.bind_eq_some_iff, Option.map_eq_some_iff] at hstep
  obtain ⟨client, hclient, d, hd, rfl⟩ := hstep
  have hinsert : Each { s with
      connections := s.connections.insert index { client with connection := d }
      udpSummaryConnectionsSendIntervalUs := d.udpSummaryConnectionsSendIntervalUs } P :=
    h.insert (hmove client d hclient hd) rfl
  split
  · exact hinsert.erase (onConnectionClosed_connections index)
  · exact hinsert

theorem createConnection_cases (listenerIndex : Nat) (udpAddress : Address) (io : Io) :
    (s.createConnection listenerIndex udpAddress io).1.connections = s.connections ∧
        (s.createConnection listenerIndex udpAddress io).2 = none ∨
      ∃ index client, s.createConnection listenerIndex udpAddress io =
          ((s.createConnection listenerIndex udpAddress io).1, some index) ∧
        (s.createConnection listenerIndex udpAddress io).1.connections =
          s.connections.insert index client ∧
        client.connection = Connection.new s.config s.getUdpInitialIntervalUs
          s.udpSummaryConnectionsSendIntervalUs io := by
  simp only [createConnection]
  split
  · exact .inl ⟨rfl, rfl⟩
  · split
    · exact .inl ⟨rfl, rfl⟩
    · exact .inr ⟨_, _, rfl, rfl, rfl⟩

theorem Each.createConnection (h : s.Each P)
    (hnew : ∀ sum io, P (Connection.new s.config s.getUdpInitialIntervalUs sum io))
    (listenerIndex : Nat) (udpAddress : Address) (io : Io) :
    (s.createConnection listenerIndex udpAddress io).1.Each P := by
  rcases s.createConnection_cases listenerIndex udpAddress io with
    ⟨heq, -⟩ | ⟨index, client, -, heq, hclient⟩
  · exact h.of_eq heq
  · apply h.insert _ heq
    rw [hclient]
    exact hnew _ _

/-- A step adds new connections and moves those that are there. -/
theorem Each.step {ok : Connection → Connection.Move → Prop}
    (hattach : ∀ (c : Connection) sum, P c → P { c with udpSummaryConnectionsSendIntervalUs := sum })
    (hnew : ∀ sum io, P (Connection.new s.config s.getUdpInitialIntervalUs sum io))
    (hmove : ∀ c m d, P c → ok c m → c.step m = some d → P d)
    (hfirst : ∀ c (packet : Packet) io, packet.getType.isNumbered = true → ok c (.udpRead packet io))
    (h : s.Each P) {m : Move} (hok : s.EachTarget ok m) {t : Server} (hstep : s.step m = some t) :
    t.Each P := by
  rcases step_cases hstep with ⟨-, hkept⟩ | ⟨index, move, htarget, hmoved⟩ |
    ⟨s', listenerIndex, udpAddress, io, hparameters, hconnections, hcreated⟩
  · exact h.of_eq hkept
  · apply h.moveConnection _ hmoved
    intro client d hclient hd
    exact hmove _ _ _ (hattach _ _ (h _ _ hclient)) (hok _ htarget client hclient) hd
  · have hnew' : ∀ sum io, P (Connection.new s'.config s'.getUdpInitialIntervalUs sum io) := by
      have hconfig : s'.config = s.config := congrArg (·.1) hparameters
      have hinitial : s'.udpInitialSendIntervalUs = s.udpInitialSendIntervalUs :=
        congrArg (·.2.2) hparameters
      intro sum io
      unfold getUdpInitialIntervalUs activeIntervals
      rw [hconnections, hconfig, hinitial]
      exact hnew sum io
    have heach := (h.of_eq hconnections).createConnection hnew' listenerIndex udpAddress io
    rcases hcreated with rfl | ⟨created, index, packet, io', hcreation, hnumbered, hmoved⟩
    · exact heach
    · rw [hcreation] at heach
      apply heach.moveConnection _ hmoved
      intro client d hclient hd
      exact hmove _ _ _ (hattach _ _ (heach _ _ hclient)) (hfirst _ _ _ hnumbered) hd

end Each

end Server

end IceTunnel
