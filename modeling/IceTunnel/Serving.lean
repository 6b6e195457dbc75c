import IceTunnel.Places
import IceTunnel.Stream

/-!
Two running programs and one tunnel between them.  Each program is a whole server: it has
listeners and other connections, and gets whatever anybody sends to it.  The tunnel is a
place on each side, and what happens there is what two endpoints of the protocol do.
-/

namespace IceTunnel

theorem Packet.wire_receive {datagram : Packet} {receivePacketSize : Int}
    (hfits : (datagram.data.length : Int) ≤ receivePacketSize) (hwire : datagram.wire = datagram) :
    (({} : Packet).receive receivePacketSize datagram.data).wire = datagram := by
  rw [Packet.wire, Packet.receive_data, Packet.cutOff_of_le _ _ hfits]
  exact hwire

namespace Protocol

variable {N : Packet → Prop} {e e' : Endpoint}

theorem receiveHistory_step (hstep : Step N e e') : e.receiveHistory <+: e'.receiveHistory := by
  cases hstep with
  | skip packet fake =>
      rw [Receiver.skip_receiveHistory]
      exact List.prefix_append _ _
  | skipClosing packet =>
      rw [Receiver.skip_receiveHistory]
      exact List.prefix_append _ _
  | skipClosingUnused packet =>
      rw [Receiver.skip_receiveHistory]
      exact List.prefix_append _ _
  | write packet size =>
      rw [Receiver.write_receiveHistory]
      exact List.prefix_append _ _
  | accept packet =>
      obtain ⟨masterIndex, finalIndex, heq, -⟩ := e.toReceiver.accept_eq packet
      rw [heq]
      exact List.prefix_append _ _
  | confirm payload => exact List.prefix_append _ _
  | prune index => rw [Receiver.pruneKey_receiveHistory]
  | acceptByeBye packet => exact List.prefix_append _ _
  | _ => exact List.prefix_refl _

theorem receiveHistory_steps (hsteps : Steps N e e') : e.receiveHistory <+: e'.receiveHistory :=
  Runs.chain_invariant (I := fun x => e.receiveHistory <+: x.receiveHistory)
    (fun _ _ hprefix hstep => hprefix.trans (receiveHistory_step hstep)) hsteps (List.prefix_refl _)

end Protocol

/-- A running program, one of its places, and what the connections at the place have done. -/
structure Process where
  server : Server
  place : Nat × Address
  sendHistory : List SendAction
  receiveHistory : List ReceiveAction

namespace Process

variable {p q : Process} {e : Endpoint} {m : Server.Move} {N : Packet → Prop}

/-- All packets that went out of the place. -/
def transmitted (p : Process) : List Packet :=
  p.sendHistory.filterMap SendAction.transmitted?

/-- All bytes that were taken from the TCP sockets of the place. -/
def taken (p : Process) : List UInt8 :=
  p.sendHistory.flatMap SendAction.taken

/-- All bytes that were handed to the TCP sockets of the place. -/
def handed (p : Process) : List UInt8 :=
  p.receiveHistory.flatMap ReceiveAction.handed

def sentAt (s : Server) (place : Nat × Address) : List SendAction :=
  (s.endpointAt place).elim [] fun e => e.sendHistory

def receivedAt (s : Server) (place : Nat × Address) : List ReceiveAction :=
  (s.endpointAt place).elim [] fun e => e.receiveHistory

def step (p : Process) (m : Server.Move) : Option Process :=
  (p.server.step m).map fun t =>
    { server := t
      place := p.place
      sendHistory := p.sendHistory ++
        (sentAt t p.place).drop (sentAt p.server p.place).length
      receiveHistory := p.receiveHistory ++
        (receivedAt t p.place).drop (receivedAt p.server p.place).length }

/-- TCP was opened for the place once at most. -/
def Once (p : Process) : Prop :=
  p.server.opened.count p.place ≤ 1

instance (p : Process) : Decidable p.Once :=
  inferInstanceAs (Decidable (_ ≤ _))

/-- The place has gone as the endpoint has: it waits for its connection, has it, or had it. -/
inductive Plays (p : Process) (e : Endpoint) : Prop
  | waiting : p.server.endpointAt p.place = none → p.sendHistory = [] → p.receiveHistory = [] →
      e = .initial p.server.config → Plays p e
  | playing : p.server.endpointAt p.place = some e → p.server.Used p.place →
      p.sendHistory = e.sendHistory → p.receiveHistory = e.receiveHistory → Plays p e
  | gone : p.server.endpointAt p.place = none → p.server.Used p.place →
      p.sendHistory = e.sendHistory → p.receiveHistory = e.receiveHistory → Plays p e

theorem Plays.transmitted_eq (h : p.Plays e) : p.transmitted = e.transmitted := by
  cases h with
  | waiting hnone hsent hreceived he =>
      rw [transmitted, hsent, he]
      rfl
  | playing hsome hused hsent => rw [transmitted, hsent, Sender.transmitted]
  | gone hnone hused hsent => rw [transmitted, hsent, Sender.transmitted]

theorem Plays.taken_eq (h : p.Plays e) : p.taken = e.taken := by
  cases h with
  | waiting hnone hsent hreceived he =>
      rw [taken, hsent, he]
      rfl
  | playing hsome hused hsent => rw [taken, hsent, Sender.taken]
  | gone hnone hused hsent => rw [taken, hsent, Sender.taken]

theorem Plays.receiveHistory_eq (h : p.Plays e) : p.receiveHistory = e.receiveHistory := by
  cases h with
  | waiting hnone hsent hreceived he =>
      rw [hreceived, he]
      rfl
  | playing hsome hused hsent hreceived => exact hreceived
  | gone hnone hused hsent hreceived => exact hreceived

theorem Plays.handed_eq (h : p.Plays e) : p.handed = e.handed := by
  rw [handed, h.receiveHistory_eq, Receiver.handed]

theorem Plays.eq_of_endpointAt (h : p.Plays e) {e' : Endpoint}
    (he : p.server.endpointAt p.place = some e') : e = e' := by
  cases h with
  | waiting hnone =>
      rw [hnone] at he
      cases he
  | playing hsome => exact Option.some.inj (hsome.symm.trans he)
  | gone hnone =>
      rw [hnone] at he
      cases he

theorem step_eq (hstep : p.step m = some q) : p.server.step m = some q.server ∧ q.place = p.place ∧
    q.sendHistory = p.sendHistory ++
      (sentAt q.server p.place).drop (sentAt p.server p.place).length ∧
    q.receiveHistory = p.receiveHistory ++
      (receivedAt q.server p.place).drop (receivedAt p.server p.place).length := by
  obtain ⟨t, ht, rfl⟩ := Option.map_eq_some_iff.mp hstep
  exact ⟨ht, rfl, rfl, rfl⟩

/-- The endpoint does in protocol steps what the program does at the place. -/
theorem Plays.step (hregistered : p.server.Registered) (h : p.Plays e) (hok : Server.Resolved m)
    (hstep : p.step m = some q) (honce : q.Once)
    (hnet : ∀ bytes io, m = .receive p.place.1 p.place.2 bytes io →
      (({} : Packet).receive p.server.udpReceivePacketSize bytes).checkCrc32 = true →
        N (({} : Packet).receive p.server.udpReceivePacketSize bytes).wire) :
    q.Plays e ∨ ∃ e', q.Plays e' ∧ q.server.endpointAt q.place = some e' ∧ Protocol.Steps N e e' := by
  obtain ⟨hserver, hplace, hsent, hreceived⟩ := step_eq hstep
  have hgrows := Server.Grows.step hserver
  have hconfig : q.server.config = p.server.config := congrArg (·.1) (Server.step_parameters hserver)
  rw [sentAt, sentAt] at hsent
  rw [receivedAt, receivedAt] at hreceived
  rw [Once, hplace] at honce
  cases hregistered.goes_step hok hserver hnet with
  | absent hbefore hafter =>
      simp only [hbefore, hafter, Option.elim_none, List.drop_nil, List.append_nil] at hsent hreceived
      rw [← hplace] at hafter
      left
      cases h with
      | waiting hnone hempty hempty' he =>
          refine .waiting hafter (hsent.trans hempty) (hreceived.trans hempty') ?_
          rw [hconfig, he]
      | playing hsome =>
          rw [hbefore] at hsome
          cases hsome
      | gone hnone hused hhistory hhistory' =>
          rw [← hplace] at hused
          exact .gone hafter (hused.grows hgrows) (hsent.trans hhistory) (hreceived.trans hhistory')
  | moved before e' hbefore hafter hsteps =>
      obtain rfl := h.eq_of_endpointAt hbefore
      simp only [hbefore, hafter, Option.elim_some] at hsent hreceived
      obtain ⟨actions, hactions, -⟩ := Protocol.sendHistory_steps hsteps
      obtain ⟨actions', hactions'⟩ := Protocol.receiveHistory_steps hsteps
      cases h with
      | waiting hnone =>
          rw [hbefore] at hnone
          cases hnone
      | playing hsome hused hhistory hhistory' =>
          rw [hhistory, hactions, List.drop_left, ← hactions] at hsent
          rw [hhistory', ← hactions', List.drop_left, hactions'] at hreceived
          rw [← hplace] at hused hafter
          exact .inr ⟨e', .playing hafter (hused.grows hgrows) hsent hreceived, hafter, hsteps⟩
      | gone hnone =>
          rw [hbefore] at hnone
          cases hnone
  | closed before hbefore hafter =>
      obtain rfl := h.eq_of_endpointAt hbefore
      simp only [hafter, Option.elim_none, List.drop_nil, List.append_nil] at hsent hreceived
      rw [← hplace] at hafter
      left
      cases h with
      | waiting hnone =>
          rw [hbefore] at hnone
          cases hnone
      | playing hsome hused hhistory hhistory' =>
          rw [← hplace] at hused
          exact .gone hafter (hused.grows hgrows) (hsent.trans hhistory) (hreceived.trans hhistory')
      | gone hnone =>
          rw [hbefore] at hnone
          cases hnone
  | opened e' hbefore hafter hsteps husedAfter hagain =>
      simp only [hbefore, hafter, Option.elim_none, Option.elim_some, List.length_nil,
        List.drop_zero] at hsent hreceived
      cases h with
      | waiting hnone hempty hempty' he =>
          rw [hempty, List.nil_append] at hsent
          rw [hempty', List.nil_append] at hreceived
          rw [← he] at hsteps
          rw [← hplace] at hafter husedAfter
          exact .inr ⟨e', .playing hafter husedAfter hsent hreceived, hafter, hsteps⟩
      | playing hsome hused =>
          have := hagain hused
          omega
      | gone hnone hused =>
          have := hagain hused
          omega

/-- What comes from the place and passes the test was sent there by the peer, and fits. -/
def Genuine (p peer : Process) : Server.Move → Prop
  | .receive listenerIndex udpAddress bytes _ => (listenerIndex, udpAddress) = p.place →
      (({} : Packet).receive p.server.udpReceivePacketSize bytes).checkCrc32 = true →
        (bytes.length : Int) ≤ p.server.udpReceivePacketSize ∧
          ∃ datagram ∈ peer.transmitted, datagram.data = bytes
  | _ => True

instance (p peer : Process) (m : Server.Move) : Decidable (p.Genuine peer m) :=
  match m with
  | .listen _ _ => .isTrue trivial
  | .accept _ _ => .isTrue trivial
  | .failListener _ _ => .isTrue trivial
  | .closeListener _ => .isTrue trivial
  | .receive _ _ _ _ => inferInstanceAs (Decidable (_ = _ → _ = _ → _ ∧ _))
  | .raise _ _ _ _ => .isTrue trivial

instance (m : Server.Move) : Decidable (Server.Resolved m) :=
  match m with
  | .listen _ tcpAddress => inferInstanceAs (Decidable (tcpAddress ≠ []))
  | .accept _ _ => .isTrue trivial
  | .failListener _ _ => .isTrue trivial
  | .closeListener _ => .isTrue trivial
  | .receive _ _ _ _ => .isTrue trivial
  | .raise _ _ _ _ => .isTrue trivial

end Process

/-- The programs on both sides. -/
abbrev Processes := Side → Process

namespace Processes

open Tunnel (Endpoints ProtocolStep)

/-- A connection of the tunnel makes fewer than `INT_MAX` packets. -/
def update (x : Processes) (side : Side) (p : Process) : Option Processes :=
  if ∀ e ∈ p.server.endpointAt p.place, e.udpNextSendIndex < intMax then
    some (Function.update x side p)
  else none

/-- One of the programs does something. -/
def step (x : Processes) (m : Side × Server.Move) : Option Processes :=
  ((x m.1).step m.2).bind (x.update m.1)

/-- Two programs that have done nothing yet. -/
def Initial (config : Side → Config) (x : Processes) : Prop :=
  ∀ side, ∃ (udpReceivePacketSize udpInitialSendIntervalUs : Int) (place : Nat × Address),
    x side = ⟨.blank (config side) udpReceivePacketSize udpInitialSendIntervalUs, place, [], []⟩

/-- Nobody forges datagrams of the two.  They may be lost, doubled, delayed, reordered and
damaged, and everybody else may send anything. -/
def Allowed (x : Processes) (m : Side × Server.Move) : Prop :=
  Server.Resolved m.2 ∧ (x m.1).Genuine (x m.1.other) m.2

instance (x : Processes) (m : Side × Server.Move) : Decidable (x.Allowed m) :=
  inferInstanceAs (Decidable (_ ∧ _))

abbrev Reachable (config : Side → Config) : Processes → Prop :=
  Runs.Reachable (Initial config) step Allowed

/-- The links of both servers are right, and while TCP was opened once at most on each side
the two places play a tunnel. -/
structure Play (x : Processes) (y : Endpoints) : Prop where
  registered : ∀ side, (x side).server.Registered
  plays : (∀ side, (x side).Once) → ∀ side, (x side).Plays (y side)

variable {config : Side → Config} {x x' : Processes} {y : Endpoints} {m : Side × Server.Move}

theorem step_eq_some (h : x.step m = some x') : ∃ q, (x m.1).step m.2 = some q ∧
    (∀ e, q.server.endpointAt q.place = some e → e.udpNextSendIndex < intMax) ∧
    x' = Function.update x m.1 q := by
  obtain ⟨q, hq, hupdate⟩ := Option.bind_eq_some_iff.mp h
  simp only [update, Option.ite_none_right_eq_some, Option.some.injEq] at hupdate
  exact ⟨q, hq, fun e he => hupdate.1 e he, hupdate.2.symm⟩

theorem Once.of_step {p q : Process} {m : Server.Move} (hstep : p.step m = some q) (h : q.Once) :
    p.Once := by
  obtain ⟨hserver, hplace, -⟩ := Process.step_eq hstep
  rw [Process.Once, hplace] at h
  exact ((Server.Grows.step hserver).opened_grows.sublist.count_le _).trans h

theorem inFlight_of_genuine {side : Side} (h : ∀ side, (x side).Plays (y side)) {move : Server.Move}
    (hgenuine : (x side).Genuine (x side.other) move) {bytes : List UInt8} {io : Io}
    (hmove : move = .receive (x side).place.1 (x side).place.2 bytes io)
    (hchecked : (({} : Packet).receive (x side).server.udpReceivePacketSize bytes).checkCrc32 = true) :
    y.InFlight side (({} : Packet).receive (x side).server.udpReceivePacketSize bytes).wire := by
  subst hmove
  obtain ⟨hfits, datagram, hdatagram, rfl⟩ := hgenuine rfl hchecked
  rw [(h side.other).transmitted_eq] at hdatagram
  rw [Packet.wire_receive hfits (Sender.wire_of_mem_transmitted hdatagram)]
  exact hdatagram

theorem Play.step (h : Play x y) (hok : x.Allowed m) (hstep : x.step m = some x') :
    ∃ y', Relation.ReflTransGen ProtocolStep y y' ∧ Play x' y' := by
  obtain ⟨side, move⟩ := m
  obtain ⟨q, hq, hlt, rfl⟩ := step_eq_some hstep
  obtain ⟨hresolved, hgenuine⟩ := hok
  have hregistered : ∀ a, (Function.update x side q a).server.Registered := by
    intro a
    by_cases ha : a = side
    · subst ha
      rw [Function.update_self]
      exact (h.registered a).step hresolved (Process.step_eq hq).1
    · rw [Function.update_of_ne ha]
      exact h.registered a
  by_cases honce : ∀ a, (Function.update x side q a).Once
  · have hself := honce side
    rw [Function.update_self] at hself
    have hbefore : ∀ a, (x a).Once := by
      intro a
      by_cases ha : a = side
      · subst ha
        exact Once.of_step hq hself
      · have hother := honce a
        rwa [Function.update_of_ne ha] at hother
    have hplays := h.plays hbefore
    have hothers : ∀ (e : Endpoint), q.Plays e →
        ∀ a, (Function.update x side q a).Plays (Function.update y side e a) := by
      intro e he a
      by_cases ha : a = side
      · subst ha
        rwa [Function.update_self, Function.update_self]
      · rw [Function.update_of_ne ha, Function.update_of_ne ha]
        exact hplays a
    rcases (hplays side).step (N := y.InFlight side) (h.registered side) hresolved hq hself
      (fun bytes io hmove => inFlight_of_genuine hplays hgenuine hmove) with
      hsame | ⟨e, he, hendpoint, hsteps⟩
    · refine ⟨y, .refl, hregistered, fun _ => ?_⟩
      have hall := hothers _ hsame
      rwa [Function.update_eq_self] at hall
    · exact ⟨_, Tunnel.protocolSteps_of_steps hsteps (hlt e hendpoint), hregistered,
        fun _ => hothers e he⟩
  · exact ⟨y, .refl, hregistered, fun hall => absurd hall honce⟩

theorem play_initial (h : Initial config x) : Play x fun side => .initial (config side) := by
  refine ⟨fun side => ?_, fun _ side => ?_⟩
  · obtain ⟨size, intervalUs, place, heq⟩ := h side
    rw [heq]
    exact Life.registered_initial (l := ⟨_, false⟩) ⟨config side, size, intervalUs, rfl⟩
  · obtain ⟨size, intervalUs, place, heq⟩ := h side
    rw [heq]
    exact .waiting (by simp [Server.endpointAt, Server.registeredAt, Server.blank]) rfl rfl rfl

/-- Two running programs simulate a tunnel. -/
theorem simulates (config : Side → Config) : Runs.Simulates (Initial config) step Allowed
    (· = fun side => .initial (config side)) ProtocolStep Play :=
  ⟨fun _ h => ⟨_, rfl, play_initial h⟩, fun _ _ _ _ h hok hm => h.step hok hm⟩

/-- What two programs do at their places is what two endpoints of the protocol do that talk
to each other and to nobody else. -/
theorem exists_endpoints (h : Reachable config x) (honce : ∀ side, (x side).Once) :
    ∃ y : Endpoints,
      Relation.ReflTransGen ProtocolStep (fun side => .initial (config side)) y ∧
      ∀ side, (x side).transmitted = (y side).transmitted ∧ (x side).taken = (y side).taken ∧
        (x side).receiveHistory = (y side).receiveHistory ∧
        ∀ e, (x side).server.endpointAt (x side).place = some e → y side = e := by
  obtain ⟨start, y, rfl, hchain, hplay⟩ := (simulates config).exists_of_reachable h
  have hplays := hplay.plays honce
  exact ⟨y, hchain, fun side => ⟨(hplays side).transmitted_eq, (hplays side).taken_eq,
    (hplays side).receiveHistory_eq, fun _ => (hplays side).eq_of_endpointAt⟩⟩

theorem streaming_start (config : Side → Config) :
    Tunnel.Streaming fun side => .initial (config side) := by
  let t : Tunnel := fun side => Connection.new (config side) 10 0 (Io.steady 0)
  have ht : Tunnel.Initial config t := fun side => ⟨10, 0, Io.steady 0, rfl⟩
  have hstart : t.endpoints = fun side => .initial (config side) :=
    funext fun side => Tunnel.endpoints_initial ht side
  rw [← hstart]
  exact Tunnel.streaming_initial ht

/-- What one program hands to TCP at its place is a prefix of what the other takes from TCP
at its own, and all of it once the closing packet was passed on. -/
theorem handed_prefix_of_taken (h : Reachable config x) (honce : ∀ side, (x side).Once) (side : Side) :
    (x side).handed <+: (x side.other).taken ∧
      ∀ packet, .consume packet false ∈ (x side).receiveHistory → packet.getType.isClosing = true →
        (x side).handed = (x side.other).taken := by
  obtain ⟨y, hstreaming, hplay⟩ := (simulates config).exists_invariant
    (fun _ hstart => hstart ▸ streaming_start config) (fun _ _ => Tunnel.Streaming.step) h
  have hplays := hplay.plays honce
  rw [(hplays side).handed_eq, (hplays side.other).taken_eq, (hplays side).receiveHistory_eq]
  exact ⟨hstreaming.handed_prefix side, hstreaming.handed_of_closing side⟩

/-- Two programs with small buffers; the client's listener will have the number 1, and so
will the server's. -/
def blank : Processes
  | .client => ⟨.blank .small 1000 10, (1, [9]), [], []⟩
  | .server => ⟨.blank .small 1000 10, (1, [7]), [], []⟩

theorem initial_blank : Initial (fun _ => .small) blank := by
  intro side
  cases side with
  | client => exact ⟨1000, 10, (1, [9]), rfl⟩
  | server => exact ⟨1000, 10, (1, [7]), rfl⟩

/-- The `n`-th numbered datagram of the client. -/
def datagram (type : PacketType) (index : Int) (payload : List UInt8) : List UInt8 :=
  (Packet.datagram type index payload).data

/-- The client reads three bytes and closes, and its datagrams arrive in disorder and twice.
Somebody else calls the server too, and a damaged datagram comes from the client. -/
def crowdedRun : List (Side × Server.Move) :=
  [(.client, .accept [9] (Io.steady 0)),
    (.server, .listen [0] [1]),
    (.server, .receive 1 [8] (datagram .hello 0 []) (Io.steady 0)),
    (.client, .raise 2 .tcpRead 0 { Io.steady 0 with tcpBytes := [1, 2, 3] }),
    (.client, .raise 2 .tcpClose 1 (Io.steady 1)),
    (.client, .raise 2 .udpWrite 1 (Io.steady 1)),
    (.client, .raise 2 .udpWrite 10 (Io.steady 10)),
    (.client, .raise 2 .udpWrite 20 (Io.steady 20)),
    (.server, .receive 1 [7] [0, 0, 0, 0, 2, 1, 0, 0, 0, 6] (Io.steady 20)),
    (.server, .receive 1 [7] (datagram .hello 0 []) (Io.steady 21)),
    (.server, .receive 1 [7] (datagram .bye 2 []) (Io.steady 22)),
    (.server, .receive 1 [7] (datagram .bye 2 []) (Io.steady 22)),
    (.server, .receive 1 [8] (datagram .data 1 [6]) (Io.steady 23)),
    (.server, .receive 1 [7] (datagram .data 1 [1, 2, 3]) (Io.steady 23)),
    (.server, .raise 3 .tcpWrite 24 (Io.steady 24)),
    (.server, .raise 3 .tcpWrite 25 (Io.steady 25))]

theorem crowdedRun_isSome : (Runs.run step Allowed blank crowdedRun).isSome = true := by
  decide +kernel

def crowded : Processes :=
  (Runs.run step Allowed blank crowdedRun).get crowdedRun_isSome

theorem reachable_crowded : Reachable (fun _ => .small) crowded :=
  .of_run (.start initial_blank) (Option.some_get crowdedRun_isSome).symm

theorem once_crowded : ∀ side, (crowded side).Once := by
  intro side
  cases side with
  | client => decide +kernel
  | server => decide +kernel

theorem exists_endpoints_crowded : ∃ y : Endpoints,
    Relation.ReflTransGen ProtocolStep (fun _ => .initial .small) y ∧
      (crowded .client).transmitted = (y .client).transmitted := by
  obtain ⟨y, hchain, hsame⟩ := exists_endpoints reachable_crowded once_crowded
  exact ⟨y, hchain, (hsame .client).1⟩

theorem handed_prefix_of_taken_crowded :
    (crowded .server).handed = [1, 2, 3] ∧ (crowded .server).handed = (crowded .client).taken := by
  refine ⟨by decide +kernel, ?_⟩
  exact (handed_prefix_of_taken reachable_crowded once_crowded .server).2 (.datagram .bye 2 [])
    (by decide +kernel) (by decide +kernel)

end Processes

end IceTunnel
