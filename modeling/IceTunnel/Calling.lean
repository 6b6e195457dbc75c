import IceTunnel.Parting
import IceTunnel.Registry

namespace IceTunnel

/-- The session sends no numbered packet any more. -/
def Session.Ended (s : Session) : Prop :=
  s.udpConnected = false ∨
    (s.tcpConnected = false ∧ s.tcpReceivedData = [] ∧ s.udpSentPackets = ∅)

instance (s : Session) : Decidable s.Ended :=
  decidable_of_iff (s.udpConnected = false ∨
    (s.tcpConnected = false ∧ s.tcpReceivedData = [] ∧ s.udpSentPackets.isEmpty = true))
    (by rw [Session.Ended, Std.ExtTreeMap.isEmpty_iff])

namespace Protocol

variable {N : Packet → Prop} {e e' : Endpoint}

theorem ended_step (hsound : e.Sound) (h : e.Ended) (hstep : Step N e e') :
    e'.Ended ∧ ∃ actions, e'.sendHistory = e.sendHistory ++ actions ∧
      ∀ action ∈ actions, action.Quiet := by
  rcases h with hudp | ⟨htcp, hdata, hsent⟩
  · obtain ⟨actions, hactions, hquiet⟩ := sendHistory_step hstep
    exact ⟨.inl (udpClosed_step hstep hudp).1, actions, hactions, hquiet hudp⟩
  · have hnothing : ∃ actions, e.sendHistory = e.sendHistory ++ actions ∧
        ∀ action ∈ actions, action.Quiet := ⟨[], (List.append_nil _).symm, by simp⟩
    cases hstep with
    | read bytes hopen => simp [htcp] at hopen
    | readUnused bytes hopen => simp [htcp] at hopen
    | discard => exact ⟨.inr ⟨htcp, rfl, hsent⟩, hnothing⟩
    | create payload rest _ _ heq hpayload =>
        rw [hdata] at heq
        exact absurd (List.append_eq_nil_iff.mp heq.symm).1 hpayload
    | close type hopen => simp [htcp] at hopen
    | hangUp hopen => simp [htcp] at hopen
    | skipClosing packet _ _ hopen => simp [htcp] at hopen
    | skipClosingUnused packet _ _ hopen => simp [htcp] at hopen
    | offerConfirmation packet _ hmem =>
        refine ⟨.inr ⟨htcp, hdata, hsent⟩, [.writeto packet.wire], rfl, ?_⟩
        rw [List.forall_mem_singleton]
        exact Connection.queue_not_numbered hsound packet hmem
    | offer index packet _ hpacket => simp [hsent] at hpacket
    | transmit index packet timeUs measureIndex hpacket => simp [hsent] at hpacket
    | resend index packet hpacket => simp [hsent] at hpacket
    | eraseComplete index packet hpacket => simp [hsent] at hpacket
    | forget index packet confirmation _ _ _ _ hpacket => simp [hsent] at hpacket
    | byeBye =>
        refine ⟨.inr ⟨htcp, hdata, hsent⟩, [.byeBye e.byeByePacket.wire e.udpSentPackets.keys], rfl, ?_⟩
        rw [List.forall_mem_singleton, hsent]
        rfl
    | closeUdp => exact ⟨.inl rfl, hnothing⟩
    | _ => exact ⟨.inr ⟨htcp, hdata, hsent⟩, hnothing⟩

/-- What a session that has ended still sends is not numbered. -/
theorem ended_steps (hsound : e.Sound) (h : e.Ended) (hsteps : Steps N e e') :
    e'.Ended ∧ ∃ actions, e'.sendHistory = e.sendHistory ++ actions ∧
      ∀ action ∈ actions, action.Quiet := by
  have hall := Runs.chain_invariant (R := Step N)
    (I := fun x => x.Sound ∧ x.Ended ∧ ∃ actions, x.sendHistory = e.sendHistory ++ actions ∧
      ∀ action ∈ actions, action.Quiet) (fun x y hx hxy => ?_) hsteps
    ⟨hsound, h, [], (List.append_nil _).symm, by simp⟩
  · exact hall.2
  · obtain ⟨hsoundX, hended, actions, hactions, hquiet⟩ := hx
    obtain ⟨hendedY, new, hnew, hquietN⟩ := ended_step hsoundX hended hxy
    refine ⟨hsoundX.step hxy, hendedY, actions ++ new, ?_, ?_⟩
    · rw [hnew, hactions, List.append_assoc]
    · rw [List.forall_mem_append]
      exact ⟨hquiet, hquietN⟩

end Protocol

namespace Connection

/-- The datagrams that a handler got the socket to take. -/
def written (io : Io) (c d : Connection) : List Packet :=
  if io.udpWritten > 0 then d.transmitted.drop c.transmitted.length else []

variable {c d : Connection}

theorem ended_of_step {m : Move} (hsound : c.toEndpoint.Sound) (h : c.Ended) (hm : c.step m = some d)
    (io : Io) : d.Ended ∧ ∀ p ∈ written io c d, p.getType.isNumbered = false := by
  obtain ⟨hended, actions, hactions, hquiet⟩ :=
    Protocol.ended_steps (N := fun _ => True) hsound h (step_refines hm fun _ _ => trivial)
  refine ⟨hended, fun p hp => ?_⟩
  have htransmitted : d.transmitted = c.transmitted ++ actions.filterMap SendAction.transmitted? := by
    rw [Sender.transmitted, hactions, List.filterMap_append]
    rfl
  rw [written, htransmitted, List.drop_left] at hp
  split at hp
  · obtain ⟨action, haction, heq⟩ := List.mem_filterMap.mp hp
    cases action with
    | writeto packet =>
        obtain rfl := Option.some.inj heq
        exact hquiet _ haction
    | _ => cases heq
  · cases hp

theorem not_deleted_of_step {m : Move} (hm : c.step m = some d) : c.deleted = false := by
  cases m with
  | «raise» event timeUs io => exact (of_step_raise hm).1
  | udpRead packet io => exact (of_step_udpRead hm).1

theorem handle_deleted (c : Connection) {event : EventName} (hevent : event ≠ .close)
    (plannedTimeUs : Int) : (c.handle event plannedTimeUs).deleted = c.deleted := by
  cases event with
  | tcpRead => exact c.tcpRead_frame.2.1
  | tcpWrite => exact c.tcpWrite_frame.2.1
  | tcpClose => exact (c.tcpClose_frame _).2.1
  | udpWrite =>
      simp only [handle, udpWrite]
      split
      · rfl
      · split
        · exact (c.udpWriteConfirmation_frame _ _ _).2.1
        · split
          · simp only [udpWritePacket]
            split
            · split
              · split
                · refine (closeIfUdpFinished_frame _).2.1.trans ?_
                  simp
                · split <;> simp
              · split <;> simp
            · split <;> rfl
          · rfl
  | udpClose => exact c.udpClose_frame.2.1
  | buildUdpPackets => exact (c.buildUdpPackets_frame true).2.1
  | buildConfirmations => exact c.buildConfirmations_frame.1
  | buildByeBye => exact c.buildByeBye_frame.1
  | udpResend => exact c.udpResend_frame.2.1
  | udpCloseWait => exact c.closeIfUdpFinished_frame.2.1
  | close => exact absurd rfl hevent

theorem udpRead_deleted (c : Connection) (packet : Packet) : (c.udpRead packet).deleted = c.deleted := by
  simp only [udpRead]
  split
  · rfl
  · refine (closeIfUdpFinished_frame _).2.1.trans ?_
    split
    · exact (c.udpReadConfirmation_frame packet).1
    · split
      · exact (c.udpReadPacket_frame packet).1
      · split
        · exact (c.udpReadByeBye_frame packet).1
        · rfl

theorem step_deleted {m : Move} (hm : c.step m = some d)
    (hclose : ∀ timeUs io, m ≠ .raise .close timeUs io) : d.deleted = false := by
  have hdeleted := not_deleted_of_step hm
  cases m with
  | «raise» event timeUs io =>
      obtain ⟨-, -, -, rfl⟩ := of_step_raise hm
      have hevent : event ≠ .close := by
        rintro rfl
        exact hclose timeUs io rfl
      exact (handle_deleted (({ c with io := io } : Connection).disable event) hevent _).trans hdeleted
  | udpRead packet io =>
      obtain ⟨-, rfl⟩ := of_step_udpRead hm
      exact (udpRead_deleted _ _).trans hdeleted

end Connection

namespace Server

variable {s t : Server} {index listenerIndex : Nat} {udpAddress : Address}

theorem moveConnection_registeredAt {m : Connection.Move} (h : s.moveConnection index m = some t)
    (hclose : ∀ timeUs io, m ≠ .raise .close timeUs io) :
    t.opened = s.opened ∧ t.registeredAt = s.registeredAt := by
  simp only [moveConnection, Option.bind_eq_some_iff, Option.map_eq_some_iff] at h
  obtain ⟨client, -, d, hd, rfl⟩ := h
  rw [Connection.step_deleted hd hclose]
  exact ⟨rfl, rfl⟩

theorem onUdpListenerClosed_opened (index : Nat) (error : Bool) :
    (s.onUdpListenerClosed index error).opened = s.opened := by
  simp only [onUdpListenerClosed]
  split
  · rfl
  · split <;> rfl

theorem onConnectionClosed_opened (index : Nat) : (s.onConnectionClosed index).opened = s.opened := by
  simp only [onConnectionClosed]
  split
  · rfl
  · split
    · rfl
    · split
      · rw [onUdpListenerClosed_opened]
      · rfl

theorem moveConnection_opened {m : Connection.Move} (h : s.moveConnection index m = some t) :
    t.opened = s.opened := by
  simp only [moveConnection, Option.bind_eq_some_iff, Option.map_eq_some_iff] at h
  obtain ⟨client, -, d, -, rfl⟩ := h
  split
  · rw [onConnectionClosed_opened]
  · rfl

theorem receive_opened {bytes : List UInt8} {io : Io}
    (h : s.receive listenerIndex udpAddress bytes io = some t) :
    (t.opened = s.opened ∧ t.registeredAt = s.registeredAt) ∨
      (s.registeredAt (listenerIndex, udpAddress) = none ∧
        (({} : Packet).receive s.udpReceivePacketSize bytes).getType.isNumbered = true ∧
        t.opened = s.opened ++ [(listenerIndex, udpAddress)] ∧
        t.registeredAt (listenerIndex, udpAddress) ≠ none) := by
  obtain ⟨listener, hlistener, -, ⟨-, rfl⟩ | ⟨-, ⟨index, -, hmoved⟩ |
    ⟨hnone, ⟨-, hnumbered, created, index, io', hcreated, hfirst⟩ | ⟨-, rfl⟩⟩⟩⟩ := receive_cases h
  · exact .inl ⟨rfl, rfl⟩
  · exact .inl (moveConnection_registeredAt hmoved (by rintro _ _ ⟨⟩))
  · refine .inr ⟨by rw [registeredAt_of_listener hlistener, hnone], hnumbered, ?_⟩
    have hnew : udpAddress ∉ listener.connections := by
      rw [Std.ExtTreeMap.mem_iff_isSome_getElem?, hnone]
      exact Bool.false_ne_true
    let s' : Server := { s with opened := s.opened ++ [(listenerIndex, udpAddress)] }
    obtain ⟨connection, -, heq⟩ := createConnection_eq (s := s') hlistener hnew io
    rw [heq] at hcreated
    obtain ⟨rfl, -⟩ := Prod.mk.inj hcreated
    obtain ⟨hopened, hregistered⟩ := moveConnection_registeredAt hfirst (by rintro _ _ ⟨⟩)
    refine ⟨hopened, ?_⟩
    rw [hregistered]
    simp [registeredAt]
  · exact .inl ⟨rfl, rfl⟩

end Server

/-- A client and the server it calls, with the datagrams that are on their way. -/
structure Call where
  server : Server
  client : Connection
  /-- The listener that the client sends to, and the address it sends from. -/
  place : Nat × Address
  toServer : List Packet
  toClient : List Packet

namespace Call

inductive Move
  /-- A round of `doEvents(timeUs)` raises an event of the client. -/
  | client (event : EventName) (timeUs : Nat) (io : Io)
  /-- The same for a connection of the server. -/
  | server (index : Nat) (event : EventName) (timeUs : Nat) (io : Io)
  /-- The `n`-th datagram on the way to the server arrives. -/
  | toServer (n : Nat) (io : Io)
  | toClient (n : Nat) (io : Io)
  /-- The `n`-th datagram on the way to the server is lost. -/
  | loseToServer (n : Nat)
  | loseToClient (n : Nat)

/-- What a connection of the server got its socket to take, unless it is gone. -/
def answered (io : Io) (s t : Server) (index : Nat) : List Packet :=
  match s.connections[index]?, t.connections[index]? with
  | some c, some d => Connection.written io c.connection d.connection
  | _, _ => []

def step (x : Call) : Move → Option Call
  | .client event timeUs io =>
      (x.client.step (.raise event timeUs io)).map fun d =>
        { x with client := d, toServer := x.toServer ++ Connection.written io x.client d }
  | .server index event timeUs io =>
      (x.server.step (.raise index event timeUs io)).map fun t =>
        { x with server := t, toClient := x.toClient ++ answered io x.server t index }
  | .toServer n io =>
      x.toServer[n]?.bind fun datagram =>
        (x.server.step (.receive x.place.1 x.place.2 datagram.data io)).map fun t =>
          { x with server := t, toServer := x.toServer.eraseIdx n }
  | .toClient n io =>
      x.toClient[n]?.bind fun datagram =>
        (x.client.step (.udpRead datagram io)).map fun d =>
          { x with client := d, toClient := x.toClient.eraseIdx n }
  | .loseToServer n => some { x with toServer := x.toServer.eraseIdx n }
  | .loseToClient n => some { x with toClient := x.toClient.eraseIdx n }

/-- A new client, and a server with one listener. -/
def Initial (receivePacketSize : Int) (x : Call) : Prop :=
  ∃ (config clientConfig : Config) (intervalUs : Int) (udpAddress tcpAddress clientAddress : Address),
    let listening := (Server.blank config receivePacketSize intervalUs).createUdpListener udpAddress
      tcpAddress
    x.server = listening.1 ∧ x.place = (listening.2, clientAddress) ∧
      Connection.Initial clientConfig x.client ∧ x.toServer = [] ∧ x.toClient = []

/-- Nothing numbered is to come from the client. -/
def Over (x : Call) : Prop :=
  x.client.Ended ∧ ∀ p ∈ x.toServer, p.getType.isNumbered = false

instance (x : Call) : Decidable x.Over :=
  inferInstanceAs (Decidable (_ ∧ _))

/-- A connection of the server is destroyed only when nothing numbered is to come from the
client, or when the client is gone too. -/
def Waits (x : Call) : Move → Prop
  | .server _ event _ _ => event = .close → x.client.deleted = true ∨ x.Over
  | _ => True

instance (x : Call) (m : Move) : Decidable (x.Waits m) :=
  match m with
  | .client _ _ _ => .isTrue trivial
  | .server _ event _ _ => inferInstanceAs (Decidable (event = .close → _))
  | .toServer _ _ => .isTrue trivial
  | .toClient _ _ => .isTrue trivial
  | .loseToServer _ => .isTrue trivial
  | .loseToClient _ => .isTrue trivial

/-- While the client lives, TCP was opened once at most and is not opened again. -/
structure Once (x : Call) : Prop where
  size : 5 ≤ x.server.udpReceivePacketSize
  sound : x.client.toEndpoint.Sound
  opened : x.client.deleted = false → x.server.opened = [] ∨
    (x.server.opened = [x.place] ∧ (x.server.registeredAt x.place ≠ none ∨ x.Over))

variable {x y : Call}

theorem Over.of_step {m : Connection.Move} {d : Connection} {packets : List Packet} (h : x.Over)
    (hsound : x.client.toEndpoint.Sound) (hd : x.client.step m = some d) (io : Io)
    (hpackets : ∀ p ∈ packets, p ∈ x.toServer ∨ p ∈ Connection.written io x.client d) :
    d.Ended ∧ ∀ p ∈ packets, p.getType.isNumbered = false := by
  obtain ⟨hended, hwritten⟩ := Connection.ended_of_step hsound h.1 hd io
  refine ⟨hended, fun p hp => ?_⟩
  rcases hpackets p hp with hold | hnew
  · exact h.2 p hold
  · exact hwritten p hnew

theorem Once.of_client {m : Connection.Move} {d : Connection} (h : x.Once)
    (hd : x.client.step m = some d) (io : Io) (hclient : y.client = d) (hserver : y.server = x.server)
    (hplace : y.place = x.place)
    (hpackets : ∀ p ∈ y.toServer, p ∈ x.toServer ∨ p ∈ Connection.written io x.client d) :
    y.Once := by
  refine ⟨by rw [hserver]; exact h.size, by rw [hclient]; exact Connection.sound_step h.sound hd, ?_⟩
  intro _
  rw [hserver, hplace]
  rcases h.opened (Connection.not_deleted_of_step hd) with hnone | ⟨hopened, hregistered | hover⟩
  · exact .inl hnone
  · exact .inr ⟨hopened, .inl hregistered⟩
  · obtain ⟨hended, hnumbered⟩ := hover.of_step h.sound hd io hpackets
    refine .inr ⟨hopened, .inr ⟨?_, hnumbered⟩⟩
    rw [hclient]
    exact hended

theorem Once.of_lost (h : x.Once) (hclient : y.client = x.client) (hserver : y.server = x.server)
    (hplace : y.place = x.place) (hpackets : ∀ p ∈ y.toServer, p ∈ x.toServer) : y.Once := by
  refine ⟨by rw [hserver]; exact h.size, by rw [hclient]; exact h.sound, fun halive => ?_⟩
  rw [hclient] at halive
  rw [hserver, hplace]
  rcases h.opened halive with hnone | ⟨hopened, hregistered | ⟨hended, hnumbered⟩⟩
  · exact .inl hnone
  · exact .inr ⟨hopened, .inl hregistered⟩
  · refine .inr ⟨hopened, .inr ⟨?_, fun p hp => hnumbered p (hpackets p hp)⟩⟩
    rw [hclient]
    exact hended

theorem Once.step {m : Move} (h : x.Once) (hok : x.Waits m) (hm : x.step m = some y) : y.Once := by
  cases m with
  | client event timeUs io =>
      obtain ⟨d, hd, rfl⟩ := Option.map_eq_some_iff.mp hm
      exact h.of_client hd io rfl rfl rfl fun p hp => List.mem_append.mp hp
  | toClient n io =>
      obtain ⟨datagram, -, hrest⟩ := Option.bind_eq_some_iff.mp hm
      obtain ⟨d, hd, rfl⟩ := Option.map_eq_some_iff.mp hrest
      exact h.of_client hd io rfl rfl rfl fun p hp => .inl hp
  | loseToServer n =>
      obtain rfl := Option.some.inj hm
      exact h.of_lost rfl rfl rfl fun p hp => List.mem_of_mem_eraseIdx hp
  | loseToClient n =>
      obtain rfl := Option.some.inj hm
      exact h.of_lost rfl rfl rfl fun p hp => hp
  | server index event timeUs io =>
      obtain ⟨t, ht, rfl⟩ := Option.map_eq_some_iff.mp hm
      have hsize : t.udpReceivePacketSize = x.server.udpReceivePacketSize :=
        congrArg (·.2.1) (Server.step_parameters ht)
      refine ⟨by simp only [hsize]; exact h.size, h.sound, fun halive => ?_⟩
      simp only [Server.moveConnection_opened ht]
      refine (h.opened halive).imp_right fun ⟨hopened, hplace⟩ => ⟨hopened, ?_⟩
      by_cases hevent : event = .close
      · have hover := (hok hevent).resolve_left (by rw [halive]; decide)
        exact .inr hover
      · have hkept := (Server.moveConnection_registeredAt ht (by rintro _ _ ⟨⟩; exact hevent rfl)).2
        simp only [hkept]
        exact hplace
  | toServer n io =>
      obtain ⟨datagram, hdatagram, hrest⟩ := Option.bind_eq_some_iff.mp hm
      obtain ⟨t, ht, rfl⟩ := Option.map_eq_some_iff.mp hrest
      have hsize : t.udpReceivePacketSize = x.server.udpReceivePacketSize :=
        congrArg (·.2.1) (Server.step_parameters ht)
      refine ⟨by simp only [hsize]; exact h.size, h.sound, fun halive => ?_⟩
      rcases Server.receive_opened ht with ⟨hsame, hkept⟩ | ⟨hfree, hnumbered, hnew, hregistered⟩
      · simp only [hsame, hkept]
        refine (h.opened halive).imp_right fun ⟨hopened, hplace⟩ => ⟨hopened, ?_⟩
        exact hplace.imp_right fun hover => ⟨hover.1, fun p hp => hover.2 p (List.mem_of_mem_eraseIdx hp)⟩
      · rcases h.opened halive with hnone | ⟨-, hplace | hover⟩
        · refine .inr ⟨?_, .inl hregistered⟩
          simp only [hnew, hnone, List.nil_append]
        · exact absurd hfree hplace
        · -- What is on its way is not numbered, so it opens nothing.
          rw [Packet.receive_getType _ _ _ h.size datagram rfl,
            hover.2 datagram (List.mem_of_getElem? hdatagram)] at hnumbered
          cases hnumbered

theorem once_initial {receivePacketSize : Int} (hsize : 5 ≤ receivePacketSize)
    (h : Initial receivePacketSize x) : x.Once := by
  obtain ⟨config, clientConfig, intervalUs, udpAddress, tcpAddress, clientAddress, hserver, -, hclient,
    -⟩ := h
  refine ⟨?_, Connection.sound_initial hclient, fun _ => .inl ?_⟩
  · rw [hserver]
    exact hsize
  · rw [hserver]
    rfl

/-- The listener opens one TCP connection for the client at most, as long as no connection
is destroyed while something numbered is to come from the client. -/
theorem opened_le_one {receivePacketSize : Int} (hsize : 5 ≤ receivePacketSize)
    (h : Runs.Reachable (Initial receivePacketSize) step Waits x) (halive : x.client.deleted = false) :
    x.server.opened.length ≤ 1 := by
  have honce := h.invariant (fun _ => once_initial hsize) (fun _ _ _ hx hok hm => hx.step hok hm)
  rcases honce.opened halive with hnone | ⟨hopened, -⟩
  · rw [hnone]
    exact Nat.zero_le 1
  · rw [hopened]
    exact le_refl 1

/-- A client and a server with the same parameters, constructed at time 0. -/
def fresh : Call :=
  let listening := (Server.blank Config.small 64 10).createUdpListener [0] [1]
  { server := listening.1
    client := Connection.new Config.small 10 0 (Io.steady 0)
    place := (listening.2, [2])
    toServer := []
    toClient := [] }

theorem initial_fresh : Initial 64 fresh :=
  ⟨Config.small, Config.small, 10, [0], [1], [2], rfl, rfl, ⟨10, 0, Io.steady 0, rfl⟩, rfl, rfl⟩

/-- The client opens the connection, and TCP closes at the server. -/
def openRun : List Move :=
  [.client .udpWrite 0 (Io.steady 0),
    .toServer 0 (Io.steady 5),
    .server 2 .udpWrite 10 (Io.steady 10),
    .server 2 .tcpClose 20 (Io.steady 20),
    .server 2 .udpWrite 30 (Io.steady 30),
    .toClient 0 (Io.steady 35),
    .toClient 0 (Io.steady 35)]

/-- The client closes too, and the server waits for `eventUdpCloseWait`. -/
def patientRun : List Move :=
  openRun ++
    [.client .tcpWrite 36 (Io.steady 36),
      .client .udpWrite 46 (Io.steady 46),
      .toServer 0 (Io.steady 50),
      .client .buildConfirmations 136 (Io.steady 136),
      .client .udpWrite 146 (Io.steady 146),
      .server 2 .buildConfirmations 150 (Io.steady 150),
      .server 2 .udpWrite 160 (Io.steady 160),
      .toClient 0 (Io.steady 165),
      .client .buildByeBye 165 (Io.steady 165),
      .client .udpWrite 175 (Io.steady 175),
      .toServer 0 (Io.steady 180),
      .server 2 .buildByeBye 180 (Io.steady 180),
      .server 2 .udpWrite 190 (Io.steady 190),
      .server 2 .udpCloseWait 100000 (Io.steady 100000),
      .server 2 .close 100001 (Io.steady 100001),
      .toServer 0 (Io.steady 100002)]

def patientState : Option Call :=
  Runs.run step Waits fresh patientRun

theorem patientState_isSome : patientState.isSome = true := by
  decide +kernel

theorem opened_le_one_patientRun :
    ∃ x, Runs.Reachable (Initial 64) step Waits x ∧ x.client.deleted = false ∧
      x.server.connections.isEmpty = true ∧ x.server.opened.length ≤ 1 := by
  have hreachable : Runs.Reachable (Initial 64) step Waits (patientState.get patientState_isSome) :=
    .of_run (.start initial_fresh) (Option.some_get patientState_isSome).symm
  have halive : (patientState.get patientState_isSome).client.deleted = false := by
    decide +kernel
  refine ⟨_, hreachable, halive, ?_, opened_le_one (by decide) hreachable halive⟩
  decide +kernel

/-- TCP is slow at the client, which confirms the server's Bye packet before it gets to it.
The server is done then, and the client's Bye packet comes too late. -/
def slowRun : List Move :=
  openRun ++
    [.server 2 .buildConfirmations 105 (Io.steady 105),
      .server 2 .udpWrite 115 (Io.steady 115),
      .toClient 0 (Io.steady 120),
      .client .buildByeBye 120 (Io.steady 120),
      .client .udpWrite 130 (Io.steady 130),
      .toServer 0 (Io.steady 132),
      .client .buildConfirmations 135 (Io.steady 135),
      .client .udpWrite 145 (Io.steady 145),
      .toServer 0 (Io.steady 150),
      .server 2 .buildByeBye 150 (Io.steady 150),
      .server 2 .udpWrite 160 (Io.steady 160),
      .server 2 .close 161 (Io.steady 161),
      .client .tcpWrite 1000 (Io.steady 1000),
      .client .udpWrite 1010 (Io.steady 1010),
      .toServer 0 (Io.steady 1015)]

theorem slowRun_isSome : (Runs.run step Runs.anyMove fresh slowRun).isSome = true := by
  decide +kernel

/-- The Bye packet opens a second TCP connection. -/
theorem opened_twice_slowRun :
    ∃ x, Runs.Reachable (Initial 64) step Runs.anyMove x ∧ x.client.deleted = false ∧
      x.server.opened = [x.place, x.place] := by
  have hreachable : Runs.Reachable (Initial 64) step Runs.anyMove
      ((Runs.run step Runs.anyMove fresh slowRun).get slowRun_isSome) :=
    .of_run (.start initial_fresh) (Option.some_get slowRun_isSome).symm
  refine ⟨_, hreachable, ?_⟩
  decide +kernel

end Call

end IceTunnel
