import IceTunnel.Soundness
import IceTunnel.Tunnel

namespace IceTunnel

namespace Protocol

variable {N : Packet → Prop} {e e' : Endpoint}

theorem created_prefix (hstep : Step N e e') : e.created <+: e'.created := by
  cases hstep with
  | read bytes =>
      change e.created <+: (e.toSender.record (.read bytes)).created
      simp [SendAction.created?]
  | create payload rest =>
      change e.created <+: (e.toSender.push e.udpResendCount .data payload).created
      simp
  | readUnused bytes => simp [SendAction.created?]
  | close type => simp
  | skipClosing packet => simp
  | offerConfirmation packet => simp [SendAction.created?]
  | offer index packet => simp [SendAction.created?]
  | byeBye => simp [SendAction.created?]
  | _ => exact List.prefix_refl _

theorem mem_accepted (hstep : Step N e e') :
    (∀ p ∈ e.accepted, p ∈ e'.accepted) ∧
      ∀ p ∈ e'.accepted, p ∈ e.accepted ∨ (N p ∧ p.getType.isNumbered = true) := by
  cases hstep with
  | skip packet fake => simp +contextual
  | skipClosing packet => simp +contextual
  | skipClosingUnused packet => simp +contextual
  | write packet size => simp +contextual
  | accept packet hnet hwire hudp haccepts hnew =>
      obtain ⟨-, -, -, htype⟩ := Session.acceptsPacket_eq_true haccepts
      simp only [Receiver.accept_accepted, hwire, List.mem_append, List.mem_singleton]
      refine ⟨fun p hp => .inl hp, ?_⟩
      rintro p (hp | rfl)
      · exact .inl hp
      · exact .inr ⟨hnet, htype⟩
  | confirm payload => simp +contextual [ReceiveAction.accepted?]
  | prune index => simp +contextual
  | acceptByeBye packet => simp +contextual [ReceiveAction.accepted?]
  | _ => exact ⟨fun _ hp => hp, fun _ hp => .inl hp⟩

/-- A packet leaves `udpSentPackets` only because a Confirmation packet names it. -/
theorem forgotten (hwellFormed : e.toSender.WellFormed) (hstep : Step N e e')
    (hudp : e'.udpConnected = true) {index : Int}
    (hindex : index < e'.udpNextSendIndex) (hforgotten : index ∉ e'.udpSentPackets) :
    (e.udpConnected = true ∧ index < e.udpNextSendIndex ∧ index ∉ e.udpSentPackets) ∨
      ∃ confirmation, N confirmation ∧ confirmation.getType = .confirmation ∧
        confirmation.Confirms index := by
  have hinsert : ∀ {key : Int} {p : Packet}, index ∉ e.udpSentPackets.insert key p →
      index ≠ key ∧ index ∉ e.udpSentPackets := by
    intro key p hmem
    simp only [Std.ExtTreeMap.mem_insert, compare_eq_iff_eq, not_or] at hmem
    exact ⟨Ne.symm hmem.1, hmem.2⟩
  cases hstep with
  | create payload rest hopen =>
      obtain ⟨hne, hmem⟩ := hinsert hforgotten
      simp only [Sender.push] at hindex
      exact .inl ⟨hopen, by omega, hmem⟩
  | close type htcp hopen =>
      obtain ⟨hne, hmem⟩ := hinsert hforgotten
      simp only [Sender.push] at hindex
      exact .inl ⟨hopen, by omega, hmem⟩
  | skipClosing packet hnext hclosing htcp hopen =>
      obtain ⟨hne, hmem⟩ := hinsert hforgotten
      simp only [Sender.push] at hindex
      exact .inl ⟨hopen, by omega, hmem⟩
  | transmit key packet timeUs measureIndex =>
      exact .inl ⟨hudp, hindex, (hinsert hforgotten).2⟩
  | resend key packet => exact .inl ⟨hudp, hindex, (hinsert hforgotten).2⟩
  | eraseComplete key packet hpacket hcomplete =>
      have hconfirmed := hwellFormed.sent_unconfirmed key packet hpacket
      simp [Packet.isComplete, hconfirmed] at hcomplete
  | forget key packet confirmation hnet hopen htype hconfirms hpacket =>
      by_cases hkey : index = key
      · exact .inr ⟨confirmation, hnet, htype, hkey ▸ hconfirms⟩
      · simp only [Std.ExtTreeMap.mem_erase, compare_eq_iff_eq, ne_eq] at hforgotten
        exact .inl ⟨hopen, hindex, fun hmem => hforgotten ⟨Ne.symm hkey, hmem⟩⟩
  | closeUdp => cases hudp
  | _ => exact .inl ⟨hudp, hindex, hforgotten⟩

end Protocol

namespace Tunnel

/-- The stream from a sender to a receiver. -/
structure Linked (sender receiver : Endpoint) : Prop where
  accepted_created : ∀ p ∈ receiver.accepted, p ∈ sender.created
  forgotten_accepted : sender.udpConnected = true → ∀ index : Int, 0 ≤ index →
    index < sender.udpNextSendIndex → index ∉ sender.udpSentPackets →
    ∃ p ∈ receiver.accepted, p.getIndex = index

/-- What holds of two honest peers. -/
structure Honest (x : Endpoints) : Prop where
  sound : ∀ side, (x side).Sound
  next_lt : ∀ side, (x side).udpNextSendIndex < intMax
  linked : ∀ side, Linked (x side.other) (x side)

theorem created_of_transmitted {e : Endpoint} (h : e.Sound) {p : Packet} (hp : p ∈ e.transmitted) :
    (p.getType.isNumbered = true → p ∈ e.created) ∧
      (p.getType = .confirmation → p ∈ e.confirmations) := by
  rcases h.transmitting.transmitted_encoded p hp with hcreated | hconfirmation | hbyeBye
  · refine ⟨fun _ => hcreated, fun htype => ?_⟩
    obtain ⟨i, hi⟩ := List.mem_iff_getElem?.mp hcreated
    obtain ⟨type, payload, hnumbered, -, -, rfl⟩ := h.sending.wellFormed.created_eq i p hi
    rw [Packet.datagram_getType _ _ (PacketType.ofByte_toByte_of_isNumbered hnumbered)] at htype
    rw [htype] at hnumbered
    cases hnumbered
  · refine ⟨fun hnumbered => ?_, fun _ => hconfirmation⟩
    rw [h.acknowledging.confirmation_type p hconfirmation] at hnumbered
    cases hnumbered
  · have htype := h.acknowledging.byeBye_type p hbyeBye
    refine ⟨fun hnumbered => ?_, fun hconfirmation => ?_⟩
    · rw [htype] at hnumbered
      cases hnumbered
    · rw [htype] at hconfirmation
      cases hconfirmation

/-- What was received in sequence was created. -/
theorem master_le_next {sender receiver : Endpoint} (hsender : sender.Sound) (hlt : sender.udpNextSendIndex < intMax)
    (hreceiver : receiver.Sound) (hlinked : Linked sender receiver) :
    receiver.udpReceivedMasterIndex ≤ sender.udpNextSendIndex := by
  by_contra hgt
  have hnext := hsender.sending.wellFormed.next_eq
  obtain ⟨p, hp, hindex⟩ := hreceiver.receiving.covered (receiver.udpReceivedMasterIndex - 1)
    (by omega) (by omega)
  obtain ⟨i, hi⟩ := List.mem_iff_getElem?.mp (hlinked.accepted_created p hp)
  have hsame := hsender.sending.wellFormed.getIndex_created hlt hi
  have hlength := (List.getElem?_eq_some_iff.mp hi).1
  omega

theorem linked_receiver {N : Packet → Prop} {sender e e' : Endpoint} (hsound : sender.Sound)
    (h : Linked sender e) (hnet : ∀ p, N p → p ∈ sender.transmitted)
    (hstep : Protocol.Step N e e') : Linked sender e' := by
  obtain ⟨hold, hnew⟩ := Protocol.mem_accepted hstep
  refine ⟨fun p hp => ?_, fun hudp index h0 hindex hforgotten => ?_⟩
  · rcases hnew p hp with hp | ⟨hp, hnumbered⟩
    · exact h.accepted_created p hp
    · exact (created_of_transmitted hsound (hnet p hp)).1 hnumbered
  · obtain ⟨p, hp, hsame⟩ := h.forgotten_accepted hudp index h0 hindex hforgotten
    exact ⟨p, hold p hp, hsame⟩

theorem linked_sender {N : Packet → Prop} {e e' receiver : Endpoint} (he : e.Sound)
    (hsound : receiver.Sound) (h : Linked e receiver) (hnet : ∀ p, N p → p ∈ receiver.transmitted)
    (hstep : Protocol.Step N e e') : Linked e' receiver := by
  refine ⟨fun p hp => ?_, fun hudp index h0 hindex hforgotten => ?_⟩
  · exact (Protocol.created_prefix hstep).subset (h.accepted_created p hp)
  · rcases Protocol.forgotten he.sending.wellFormed hstep hudp hindex hforgotten with
      ⟨hopen, hlt, hmem⟩ | ⟨confirmation, hp, htype, hconfirms⟩
    · exact h.forgotten_accepted hopen index h0 hlt hmem
    · have hbuilt := (created_of_transmitted hsound (hnet _ hp)).2 htype
      exact hsound.acknowledging.confirmation_accepted _ hbuilt index h0 hconfirms

theorem Honest.step {x y : Endpoints} (h : Honest x) (hstep : ProtocolStep x y) : Honest y := by
  obtain ⟨side, e, hstep, hlt⟩ := hstep
  have hsound := (h.sound side).step hstep
  refine ⟨fun a => ?_, fun a => ?_, fun a => ?_⟩
  · rcases Side.eq_or_eq_other side a with rfl | rfl
    · simpa using hsound
    · simpa using h.sound side.other
  · rcases Side.eq_or_eq_other side a with rfl | rfl
    · simpa using hlt
    · simpa using h.next_lt side.other
  · rcases Side.eq_or_eq_other side a with rfl | rfl
    · simpa using linked_receiver (h.sound a.other) (h.linked a) (fun _ hp => hp) hstep
    · have hlinked := h.linked side.other
      rw [Side.other_other] at hlinked
      simpa using linked_sender (h.sound side) (h.sound side.other) hlinked (fun _ hp => hp) hstep

theorem endpoints_initial {config : Side → Config} {t : Tunnel} (h : Initial config t)
    (side : Side) : t.endpoints side = .initial (config side) := by
  obtain ⟨intervalUs, summaryUs, io, hside⟩ := h side
  rw [endpoints, hside, Connection.new_toEndpoint]

theorem honest_initial {config : Side → Config} {t : Tunnel} (h : Initial config t) :
    Honest t.endpoints := by
  have hendpoint := endpoints_initial h
  refine ⟨fun side => ?_, fun side => ?_, fun side => ?_⟩
  · rw [hendpoint]
    exact Endpoint.sound_initial _
  · rw [hendpoint]
    exact (by decide : (1 : Int) < intMax)
  · rw [hendpoint, hendpoint]
    refine ⟨?_, fun _ index h0 hlt hforgotten => ?_⟩
    · simp [Endpoint.initial, Endpoint.blank, Receiver.accepted]
    · simp only [Endpoint.initial, Endpoint.blank, Sender.push] at hlt hforgotten
      have hzero : index = 0 := by omega
      simp [hzero] at hforgotten

theorem Reachable.honest {config : Side → Config} {t : Tunnel} (h : Reachable config t) :
    Honest t.endpoints :=
  Runs.Reachable.invariant_of_refines (fun _ => honest_initial)
    (fun _ _ _ _ _ hm => step_refines hm) (fun _ _ => Honest.step) h

theorem Reachable.toConfig {config : Side → Config} {t : Tunnel} (h : Reachable config t)
    (side : Side) : (t side).toConfig = config side := by
  have hall := Runs.Reachable.invariant_of_refines
    (I := fun x : Endpoints => ∀ side, (x side).toConfig = config side)
    (fun _ ht side => by rw [endpoints_initial ht]; rfl)
    (fun _ _ _ _ _ hm => step_refines hm)
    (fun x y hx hstep => by
      obtain ⟨side, e, hstep, -⟩ := hstep
      intro a
      rcases Side.eq_or_eq_other side a with rfl | rfl
      · simpa using (Protocol.toConfig_eq hstep).trans (hx a)
      · simpa using hx side.other) h
  exact hall side

/-- A packet that is not in `udpSentPackets` any more was accepted by the peer. -/
theorem accepted_of_not_mem_sent {config : Side → Config} {t : Tunnel} (h : Reachable config t)
    (side : Side) (hudp : (t side).udpConnected = true) (i : Nat)
    (hi : (i : Int) < (t side).udpNextSendIndex) (hsent : (i : Int) ∉ (t side).udpSentPackets) :
    ∃ p ∈ (t side.other).accepted, (t side).created[i]? = some p := by
  have honest := h.honest
  have hlinked := honest.linked side.other
  rw [Side.other_other] at hlinked
  obtain ⟨p, hp, hindex⟩ := hlinked.forgotten_accepted hudp i (Int.natCast_nonneg i) hi hsent
  exact ⟨p, hp, (honest.sound side).sending.wellFormed.created_of_mem (honest.next_lt side)
    (hlinked.accepted_created p hp) hindex⟩

/-- The server confirms the Hello packet of the client. -/
def helloRun : List Move :=
  [.raise .client .udpWrite 0 (Io.steady 0),
    .deliver .server 0 (Io.steady 5),
    .raise .server .buildConfirmations 105 (Io.steady 105),
    .raise .server .udpWrite 106 (Io.steady 106),
    .deliver .client 0 (Io.steady 110)]

theorem helloRun_isSome : (play Config.small helloRun).isSome = true := by
  decide +kernel

theorem accepted_of_not_mem_sent_helloRun :
    ∃ t, Reachable (fun _ => Config.small) t ∧ (0 : Int) ∉ (t .client).udpSentPackets ∧
      ∃ p ∈ (t .server).accepted, (t .client).created[0]? = some p := by
  have hreachable := Reachable.of_play (Option.some_get helloRun_isSome).symm
  refine ⟨_, hreachable, by decide +kernel, ?_⟩
  exact accepted_of_not_mem_sent hreachable .client (by decide +kernel) 0 (by decide +kernel)
    (by decide +kernel)

end Tunnel

end IceTunnel
