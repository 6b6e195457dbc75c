import IceTunnel.Serving

/-!
A tunnel of which only one direction is trusted.  The sending program may get anything
from the network, and the receiving program may open the connection again and again: what
each connection hands to TCP still begins what the sender took from TCP.
-/

namespace IceTunnel

/-- The endpoint as `udpClose` would leave it.  Its records stay. -/
def Endpoint.hungUp (e : Endpoint) : Endpoint :=
  { e with
    udpConnected := false
    tcpReceivedData := []
    udpConfirmationPackets := []
    udpSentPackets := ∅ }

theorem Endpoint.Sound.hungUp {e : Endpoint} (h : e.Sound) : e.hungUp.Sound :=
  h.step (N := fun _ => False) (.closeUdp e)

namespace Protocol

variable {N : Packet → Prop} {e e' : Endpoint}

theorem handed_eq_of_tcpClosed (htcp : e.tcpConnected = false) (hstep : Step N e e') :
    e'.handed = e.handed ∧ e'.tcpConnected = false := by
  cases hstep with
  | close type => exact ⟨rfl, rfl⟩
  | hangUp => exact ⟨rfl, rfl⟩
  | skip packet fake => exact ⟨by simp, htcp⟩
  | skipClosing packet => exact ⟨by simp, rfl⟩
  | skipClosingUnused packet => exact ⟨by simp, rfl⟩
  | write packet size hnext hopen =>
      rw [htcp] at hopen
      cases hopen
  | accept packet => exact ⟨by simp, htcp⟩
  | confirm payload =>
      refine ⟨?_, htcp⟩
      simp [ReceiveAction.handed]
  | prune index => exact ⟨by simp, htcp⟩
  | acceptByeBye packet =>
      refine ⟨?_, htcp⟩
      simp [ReceiveAction.handed]
  | _ => exact ⟨rfl, htcp⟩

end Protocol

namespace Tunnel

variable {N : Packet → Prop} {sender receiver e e' : Endpoint}

/-- What a receiver has, comes from the sender, whatever the sender itself has heard. -/
structure Fed (sender receiver : Endpoint) : Prop where
  sound : receiver.Sound
  accepted_created : ∀ p ∈ receiver.accepted, p ∈ sender.created
  handed_payloads : receiver.handed <+: payloads sender.created
  handing : receiver.tcpConnected = true → Handing sender.hungUp receiver

/-- A sender that has hung up waits for no confirmations. -/
theorem Fed.linked (h : Fed sender receiver) : Linked sender.hungUp receiver :=
  ⟨h.accepted_created, fun hopen => by cases hopen⟩

theorem fed_initial (sender : Endpoint) (config : Config) : Fed sender (.initial config) := by
  refine ⟨Endpoint.sound_initial _, ?_, List.nil_prefix, fun _ => ⟨List.nil_prefix, fun _ => ?_, ?_⟩⟩
  · simp [Endpoint.initial, Endpoint.blank, Receiver.accepted]
  · exact ⟨[], by simp [Endpoint.initial, Endpoint.blank, Receiver.handed, payloads], fun _ => rfl,
      by simp [Endpoint.initial, Endpoint.blank]⟩
  · simp [Endpoint.initial, Endpoint.blank]

theorem Fed.of_sender (hsound : sender.Sound) (hlt : sender.udpNextSendIndex < intMax)
    (h : Fed sender receiver) (hcreated : sender.created <+: e.created) : Fed e receiver := by
  have hmaster := master_le_next hsound.hungUp hlt h.sound h.linked
  have hnext := h.sound.receiving.next_le
  have hlength := hsound.sending.wellFormed.next_eq
  refine ⟨h.sound, fun p hp => hcreated.subset (h.accepted_created p hp),
    h.handed_payloads.trans (payloads_mono hcreated), fun htcp => ?_⟩
  have hhanding := h.handing htcp
  obtain ⟨done, hhanded, hnone, hsome⟩ := hhanding.handed_open htcp
  obtain ⟨more, hmore⟩ := hcreated
  refine ⟨hhanding.handed_payloads.trans (payloads_mono ⟨more, hmore⟩),
    fun _ => ⟨done, ?_, hnone, fun p hp => ?_⟩, fun p hp hclosing => ?_⟩
  · change receiver.handed = payloads (e.created.take _) ++ done
    rw [← hmore, List.take_append_of_le_length]
    · exact hhanded
    · change receiver.udpReceivedMasterIndex ≤ sender.udpNextSendIndex at hmaster
      omega
  · obtain ⟨q, hq, hdata⟩ := hsome p hp
    change sender.created[_]? = some q at hq
    refine ⟨q, ?_, hdata⟩
    change e.created[_]? = some q
    rw [← hmore, List.getElem?_append_left (List.getElem?_eq_some_iff.mp hq).1]
    exact hq
  · rw [(hhanding.consumed_closing p hp hclosing).1] at htcp
    cases htcp

/-- While TCP is open, the receiver hands over what the next packet carries. -/
theorem Fed.of_open (hsound : sender.Sound) (hlt : sender.udpNextSendIndex < intMax)
    (h : Fed sender e) (htcp : e.tcpConnected = true)
    (hnet : ∀ p, N p → p ∈ sender.transmitted) (hstep : Protocol.Step N e e') :
    e'.handed <+: payloads sender.created ∧
      (e'.tcpConnected = true → Handing sender.hungUp e') := by
  have hhanding := h.handing htcp
  have hall : Handing sender.hungUp e' → e'.handed <+: payloads sender.created ∧
      (e'.tcpConnected = true → Handing sender.hungUp e') :=
    fun hnew => ⟨hnew.handed_payloads, fun _ => hnew⟩
  cases hstep with
  | close type => exact ⟨h.handed_payloads, fun hopen => by cases hopen⟩
  | hangUp => exact ⟨h.handed_payloads, fun hopen => by cases hopen⟩
  | skip packet fake hnext hfake hskip =>
      exact hall (handing_skip hsound.hungUp hlt h.sound h.linked hhanding hnext hfake hskip)
  | skipClosing packet =>
      refine ⟨?_, fun hopen => by cases hopen⟩
      rw [Receiver.skip_handed]
      exact h.handed_payloads
  | skipClosingUnused packet =>
      refine ⟨?_, fun hopen => by cases hopen⟩
      rw [Receiver.skip_handed]
      exact h.handed_payloads
  | write packet size hnext _ htype hpos hsize =>
      exact hall (handing_write hsound.hungUp hlt h.sound h.linked hhanding hnext htcp htype hpos hsize)
  | accept packet hp hwire hudp haccepts hnew =>
      obtain ⟨-, -, -, hnumbered⟩ := Session.acceptsPacket_eq_true haccepts
      have hcreated := (created_of_transmitted hsound (hnet packet hp)).1 hnumbered
      exact hall (handing_accept hsound.hungUp hlt h.sound hhanding hcreated hnew)
  | confirm payload =>
      have hrecord := handing_record hhanding (.confirm (e.confirmation payload).wire) rfl (by simp)
      exact hall ⟨hrecord.handed_payloads, hrecord.handed_open, hrecord.consumed_closing⟩
  | prune index hindex => exact hall (handing_prune hhanding hindex)
  | acceptByeBye packet => exact hall (handing_record hhanding _ rfl (by simp))
  | _ => exact hall ⟨hhanding.handed_payloads, hhanding.handed_open, hhanding.consumed_closing⟩

theorem Fed.step (hsound : sender.Sound) (hlt : sender.udpNextSendIndex < intMax) (h : Fed sender e)
    (hnet : ∀ p, N p → p ∈ sender.transmitted) (hstep : Protocol.Step N e e') : Fed sender e' := by
  have haccepted : ∀ p ∈ e'.accepted, p ∈ sender.created := by
    intro p hp
    rcases (Protocol.mem_accepted hstep).2 p hp with hold | ⟨hnew, hnumbered⟩
    · exact h.accepted_created p hold
    · exact (created_of_transmitted hsound (hnet p hnew)).1 hnumbered
  by_cases htcp : e.tcpConnected = true
  · obtain ⟨hhanded, hhanding⟩ := h.of_open hsound hlt htcp hnet hstep
    exact ⟨h.sound.step hstep, haccepted, hhanded, hhanding⟩
  · obtain ⟨hhanded, hclosed⟩ := Protocol.handed_eq_of_tcpClosed (Bool.not_eq_true _ ▸ htcp) hstep
    refine ⟨h.sound.step hstep, haccepted, ?_, fun hopen => ?_⟩
    · rw [hhanded]
      exact h.handed_payloads
    · rw [hclosed] at hopen
      cases hopen

theorem Fed.steps (hsound : sender.Sound) (hlt : sender.udpNextSendIndex < intMax) (h : Fed sender e)
    (hnet : ∀ p, N p → p ∈ sender.transmitted) (hsteps : Protocol.Steps N e e') : Fed sender e' :=
  Runs.chain_invariant (fun _ _ hx hstep => hx.step hsound hlt hnet hstep) hsteps h

end Tunnel

namespace Processes

open Tunnel (Fed)

/-- The receiving program hears nothing forged in the name of the sending one.  What the
sending program hears is up to the network. -/
def Trusting (receiver : Side) (x : Processes) (m : Side × Server.Move) : Prop :=
  Server.Resolved m.2 ∧
    (m.1 = receiver → (x receiver).Genuine (x receiver.other) m.2)

instance (receiver : Side) (x : Processes) (m : Side × Server.Move) :
    Decidable (Trusting receiver x m) :=
  inferInstanceAs (Decidable (_ ∧ _))

/-- The sending program plays an endpoint, and the connection that the receiving program has
now is fed by it. -/
structure Feeds (receiver : Side) (x : Processes) (y : Endpoint) : Prop where
  registered : ∀ side, (x side).server.Registered
  sound : y.Sound
  next_lt : y.udpNextSendIndex < intMax
  plays : (x receiver.other).Once → (x receiver.other).Plays y
  fed : (x receiver.other).Once → ∀ e,
    (x receiver).server.endpointAt (x receiver).place = some e → Fed y e

variable {config : Side → Config} {receiver : Side} {x x' : Processes} {y : Endpoint}
  {m : Side × Server.Move}

theorem Feeds.of_receiver (h : Feeds receiver x y) {move : Server.Move}
    (hresolved : Server.Resolved move)
    (hgenuine : (x receiver).Genuine (x receiver.other) move) {q : Process}
    (hq : (x receiver).step move = some q) : Feeds receiver (Function.update x receiver q) y := by
  obtain ⟨hserver, hplace, -⟩ := Process.step_eq hq
  have hother : Function.update x receiver q receiver.other = x receiver.other :=
    Function.update_of_ne receiver.other_ne _ _
  refine ⟨fun a => ?_, h.sound, h.next_lt, by rw [hother]; exact h.plays, ?_⟩
  · by_cases ha : a = receiver
    · subst ha
      rw [Function.update_self]
      exact (h.registered a).step hresolved hserver
    · rw [Function.update_of_ne ha]
      exact h.registered a
  · rw [hother, Function.update_self]
    intro honce e he
    have hnet : ∀ bytes io, move = .receive (x receiver).place.1 (x receiver).place.2 bytes io →
        (({} : Packet).receive (x receiver).server.udpReceivePacketSize bytes).checkCrc32 = true →
          (({} : Packet).receive (x receiver).server.udpReceivePacketSize bytes).wire ∈ y.transmitted := by
      rintro bytes io rfl hchecked
      obtain ⟨hfits, datagram, hdatagram, rfl⟩ := hgenuine rfl hchecked
      rw [(h.plays honce).transmitted_eq] at hdatagram
      rw [Packet.wire_receive hfits (Sender.wire_of_mem_transmitted hdatagram)]
      exact hdatagram
    rw [hplace] at he
    cases (h.registered receiver).goes_step (N := (· ∈ y.transmitted)) hresolved hserver hnet with
    | absent hbefore hafter =>
        rw [hafter] at he
        cases he
    | moved before e' hbefore hafter hsteps =>
        obtain rfl := Option.some.inj (hafter.symm.trans he)
        exact (h.fed honce before hbefore).steps h.sound h.next_lt (fun _ hp => hp) hsteps
    | closed before hbefore hafter =>
        rw [hafter] at he
        cases he
    | opened e' hbefore hafter hsteps =>
        -- Once again or not, the connection begins from nothing.
        obtain rfl := Option.some.inj (hafter.symm.trans he)
        exact (Tunnel.fed_initial y _).steps h.sound h.next_lt (fun _ hp => hp) hsteps

theorem Feeds.of_sender (h : Feeds receiver x y) {move : Server.Move}
    (hresolved : Server.Resolved move) {q : Process}
    (hq : (x receiver.other).step move = some q)
    (hlt : ∀ e, q.server.endpointAt q.place = some e → e.udpNextSendIndex < intMax) :
    ∃ y', Relation.ReflTransGen (Protocol.Step fun _ => True) y y' ∧
      Feeds receiver (Function.update x receiver.other q) y' := by
  obtain ⟨hserver, hplace, -⟩ := Process.step_eq hq
  have hself : Function.update x receiver.other q receiver = x receiver :=
    Function.update_of_ne receiver.ne_other _ _
  have hregistered : ∀ a, (Function.update x receiver.other q a).server.Registered := by
    intro a
    by_cases ha : a = receiver.other
    · subst ha
      rw [Function.update_self]
      exact (h.registered _).step hresolved hserver
    · rw [Function.update_of_ne ha]
      exact h.registered a
  by_cases honce : q.Once
  · have hbefore := Once.of_step hq honce
    rcases (h.plays hbefore).step (N := fun _ => True) (h.registered _) hresolved hq honce
      (fun _ _ _ _ => trivial) with hsame | ⟨e, he, hendpoint, hsteps⟩
    · refine ⟨y, .refl, hregistered, h.sound, h.next_lt, fun _ => ?_, ?_⟩
      · rwa [Function.update_self]
      · rw [hself]
        exact fun _ => h.fed hbefore
    · refine ⟨e, hsteps, hregistered, h.sound.steps hsteps, hlt e hendpoint, fun _ => ?_, ?_⟩
      · rwa [Function.update_self]
      · rw [hself]
        intro _ receiving hreceiving
        refine (h.fed hbefore receiving hreceiving).of_sender h.sound h.next_lt ?_
        exact Runs.chain_invariant (I := fun z => y.created <+: z.created)
          (fun _ _ hprefix hstep => hprefix.trans (Protocol.created_prefix hstep)) hsteps
          (List.prefix_refl _)
  · refine ⟨y, .refl, hregistered, h.sound, h.next_lt, ?_, ?_⟩
    all_goals
      rw [Function.update_self]
      exact fun hall => absurd hall honce

theorem feeds_initial (h : Initial config x) :
    Feeds receiver x (.initial (config receiver.other)) := by
  have hplay := play_initial h
  have honce : ∀ side, (x side).Once := by
    intro side
    obtain ⟨size, intervalUs, place, heq⟩ := h side
    rw [heq]
    exact Nat.zero_le 1
  refine ⟨hplay.registered, Endpoint.sound_initial _, (by decide : (1 : Int) < intMax),
    fun _ => hplay.plays honce _, ?_⟩
  intro _ e he
  obtain ⟨size, intervalUs, place, heq⟩ := h receiver
  rw [heq] at he
  simp [Server.endpointAt, Server.registeredAt, Server.blank] at he

theorem simulates_sender (config : Side → Config) (receiver : Side) :
    Runs.Simulates (Initial config) step (Trusting receiver)
      (· = .initial (config receiver.other)) (Protocol.Step fun _ => True) (Feeds receiver) := by
  refine ⟨fun _ h => ⟨_, rfl, feeds_initial h⟩, ?_⟩
  rintro x ⟨side, move⟩ x' y h ⟨hresolved, hgenuine⟩ hm
  obtain ⟨q, hq, hlt, rfl⟩ := step_eq_some hm
  rcases Side.eq_or_eq_other receiver side with rfl | rfl
  · exact ⟨y, .refl, h.of_receiver hresolved (hgenuine rfl) hq⟩
  · exact h.of_sender hresolved hq hlt

/-- Every connection that a listener opens for a client hands to TCP a prefix of what the
client took from TCP: also when it is not the first one for the client, and also when the
client hears what nobody sent. -/
theorem handed_prefix_of_trusting {config : Side → Config} {receiver : Side} {x : Processes}
    (h : Runs.Reachable (Initial config) step (Trusting receiver) x)
    (honce : (x receiver.other).Once) (e : Endpoint)
    (he : (x receiver).server.endpointAt (x receiver).place = some e) :
    e.handed <+: (x receiver.other).taken := by
  obtain ⟨y, ⟨-, hconserving⟩, hfeeds⟩ := (simulates_sender config receiver).exists_invariant
    (I := fun y => y.Sound ∧ y.Conserving)
    (fun _ hstart => hstart ▸ ⟨Endpoint.sound_initial _,
      (streaming_start config).conserving receiver.other⟩)
    (fun _ _ hy hstep => ⟨hy.1.step hstep, Protocol.conserving_step hy.1.sending hy.2 hstep⟩) h
  rw [(hfeeds.plays honce).taken_eq]
  exact (hfeeds.fed honce e he).handed_payloads.trans hconserving.payloads_taken

/-- The server forgets the client and opens TCP for it again, and the client hears a packet
that nobody sent. -/
def forgottenRun : List (Side × Server.Move) :=
  [(.client, .accept [9] (Io.steady 0)),
    (.server, .listen [0] [1]),
    (.client, .raise 2 .tcpRead 0 { Io.steady 0 with tcpBytes := [1, 2, 3] }),
    (.client, .raise 2 .tcpClose 1 (Io.steady 1)),
    (.client, .raise 2 .udpWrite 1 (Io.steady 1)),
    (.client, .raise 2 .udpWrite 10 (Io.steady 10)),
    (.server, .receive 1 [7] (datagram .hello 0 []) (Io.steady 15)),
    (.client, .receive 1 [9] (datagram .data 0 [5]) (Io.steady 15)),
    (.server, .raise 2 .tcpWrite 16 (Io.steady 16)),
    (.server, .raise 2 .udpClose 17 (Io.steady 17)),
    (.server, .raise 2 .close 18 (Io.steady 18)),
    (.server, .receive 1 [7] (datagram .data 1 [1, 2, 3]) (Io.steady 20)),
    (.server, .receive 1 [7] (datagram .hello 0 []) (Io.steady 21)),
    (.server, .raise 3 .tcpWrite 22 (Io.steady 22))]

theorem forgottenRun_isSome : (Runs.run step (Trusting .server) blank forgottenRun).isSome = true := by
  decide +kernel

def forgotten : Processes :=
  (Runs.run step (Trusting .server) blank forgottenRun).get forgottenRun_isSome

theorem endpointAt_forgotten_isSome :
    ((forgotten .server).server.endpointAt (forgotten .server).place).isSome = true := by
  decide +kernel

theorem handed_prefix_of_trusting_forgotten :
    ¬(forgotten .server).Once ∧ ∃ e, (forgotten .server).server.endpointAt (forgotten .server).place =
      some e ∧ e.handed = [1, 2, 3] ∧ e.handed <+: (forgotten .client).taken := by
  have hreachable : Runs.Reachable (Initial fun _ => .small) step (Trusting .server) forgotten :=
    .of_run (.start initial_blank) (Option.some_get forgottenRun_isSome).symm
  have hsome := (Option.some_get endpointAt_forgotten_isSome).symm
  refine ⟨by decide +kernel, _, hsome, by decide +kernel, ?_⟩
  exact handed_prefix_of_trusting hreachable (by decide +kernel) _ hsome

end Processes

end IceTunnel
