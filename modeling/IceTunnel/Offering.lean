import IceTunnel.Lingering
import IceTunnel.Parting
import IceTunnel.Resending

namespace IceTunnel

namespace Outgoing

/-- The packets marked sent are among `sent`. -/
def Offered (sent : List Packet) (x : Outgoing) : Prop :=
  ∀ (index : Int) (p : Packet), x.udpSentPackets[index]? = some p →
    index < x.udpNextSendIndex ∧ (p.sent = true → p.wire ∈ sent)

variable {sent sent' : List Packet} {x y : Outgoing} {Arming : Prop} {Rated : Int → Int → Prop}
  {Read : Int → Prop}

theorem Offered.mono (h : x.Offered sent) (hsub : sent ⊆ sent') : x.Offered sent' :=
  fun index p hp => (h index p hp).imp_right fun hoffered hsent => hsub (hoffered hsent)

theorem Offered.of_same (h : x.Offered sent) (hsame : x.SamePackets y) : y.Offered sent := by
  obtain ⟨-, hnext, hpackets⟩ := hsame
  rw [Offered, hnext, hpackets]
  exact h

theorem offered_step (h : x.Offered sent) (hstep : Step Arming Rated Read x y) : y.Offered sent := by
  cases hstep with
  | push type payload hudp =>
      intro index p hp
      rw [Std.ExtTreeMap.getElem?_insert] at hp
      split at hp
      · rename_i hindex
        rw [compare_eq_iff_eq] at hindex
        have hnone : x.udpSentPackets[x.udpNextSendIndex]? = none := by
          rw [Option.eq_none_iff_forall_ne_some]
          intro other hother
          have hlt := (h _ other hother).1
          omega
        rw [Std.ExtTreeMap.getD_eq_getD_getElem?, hnone, Option.getD_none] at hp
        rw [← Option.some.inj hp]
        exact ⟨by simp only; omega, nofun⟩
      · obtain ⟨hlt, hoffered⟩ := h index p hp
        exact ⟨by simp only; omega, hoffered⟩
  | resend other lost timeUs hlost =>
      intro index p hp
      rw [Std.ExtTreeMap.getElem?_insert] at hp
      split at hp
      · rename_i hindex
        rw [compare_eq_iff_eq] at hindex
        rw [← Option.some.inj hp, ← hindex]
        exact ⟨(h other lost hlost).1, nofun⟩
      · exact h index p hp
  | forget other =>
      intro index p hp
      rw [Std.ExtTreeMap.getElem?_erase] at hp
      split at hp
      · cases hp
      · exact h index p hp
  | close =>
      intro index p hp
      rw [Std.ExtTreeMap.getElem?_empty] at hp
      cases hp
  | _ => exact h

theorem offered_steps (h : x.Offered sent) (hsteps : Steps Arming Rated Read x y) : y.Offered sent :=
  Runs.chain_invariant (R := Step Arming Rated Read) (I := Offered sent) (fun _ _ => offered_step)
    hsteps h

end Outgoing

namespace Connection

open Outgoing

variable {c d : Connection}

section UdpWrite

variable (plannedTimeUs index : Int) (packet : Packet) (packets : List Packet)

theorem udpWritePacket_toEndpoint (hconfirmed : packet.confirmed = false) (htaken : c.Takes packet) :
    (c.udpWritePacket plannedTimeUs index packet).toEndpoint = { c.toEndpoint with
      toSender := { c.toSender.record (.writeto packet.wire) with
        udpSentPackets := c.udpSentPackets.insert index
          { packet with sent := true, sentTimeUs := c.nowUs, measureIndex := c.udpSendMeasureIndex }
        udpPacketsToSendCount := c.udpPacketsToSendCount - 1 } } := by
  have htakenD : c.io.udpWritten > 0 ∨ packet.getRawSize = 0 := htaken
  rw [udpWritePacket_eq c _ _ _ hconfirmed]
  simp only [if_pos htakenD]
  split <;> simp [markSent_toEndpoint, Sender.record, nowUs]

theorem udpWriteConfirmation_toEndpoint (hudp : c.udpConnected = true)
    (hsent : (unsent c.udpSentPackets).Nonempty) (htaken : c.Takes packet) :
    (c.udpWriteConfirmation plannedTimeUs packet packets).toEndpoint = { c.toEndpoint with
      toSender := c.toSender.record (.writeto packet.wire)
      udpConfirmationPackets := packets } := by
  have htakenD : c.io.udpWritten > 0 ∨ packet.getRawSize = 0 := htaken
  simp only [udpWriteConfirmation, if_pos htakenD]
  split
  · rename_i hfinished
    have hempty := (isUdpFinished_finishable _ hfinished (by simpa using hudp)).sent_empty
    simp only [onUdpSentBufferChanged_toEndpoint] at hempty
    obtain ⟨index, hindex⟩ := hsent
    obtain ⟨p, hp, -⟩ := (mem_unsent _).mp hindex
    rw [show c.udpSentPackets = ∅ from hempty] at hp
    simp at hp
  · split <;> simp

end UdpWrite

theorem mem_transmitted_of_datagram (hsound : c.toEndpoint.Sound) {index : Int} {packet : Packet}
    (plannedTimeUs : Int) (hdatagram : c.datagram = some (some index))
    (hpacket : c.udpSentPackets[index]? = some packet) :
    packet.wire ∈ (c.udpWrite plannedTimeUs).transmitted := by
  obtain ⟨offered, hoffer, htaken⟩ := Option.bind_eq_some_iff.mp hdatagram
  simp only [Option.ite_none_right_eq_some, Option.some.injEq] at htaken
  obtain ⟨htaken, hindex⟩ := htaken
  simp only [offer] at hoffer
  split at hoffer
  · cases hoffer
  · rename_i hudp
    split at hoffer
    · cases hoffer
      cases hindex
    · rename_i hqueue
      obtain ⟨entry, hfirst, rfl⟩ := Option.map_eq_some_iff.mp hoffer
      obtain ⟨first, q⟩ := entry
      obtain rfl := Option.some.inj hindex
      have hq := (c.firstUnsent_eq_some hfirst).1
      obtain rfl := Option.some.inj (hpacket.symm.trans hq)
      have hconfirmed := hsound.sending.wellFormed.sent_unconfirmed _ _ hq
      have hwrite : c.udpWrite plannedTimeUs = c.udpWritePacket plannedTimeUs first packet := by
        simp only [udpWrite, if_neg hudp, hqueue, hfirst]
      rw [hwrite, udpWritePacket_toEndpoint _ _ _ hconfirmed htaken]
      change packet.wire ∈ (c.toSender.record (.writeto packet.wire)).transmitted
      simp [SendAction.transmitted?, Packet.wire]

theorem udpWrite_offered (hsound : c.toEndpoint.Sound) (h : c.outgoing.Offered c.transmitted)
    (plannedTimeUs : Int) :
    (c.udpWrite plannedTimeUs).outgoing.Offered (c.udpWrite plannedTimeUs).transmitted := by
  obtain ⟨actions, hactions, -⟩ :=
    Protocol.sendHistory_steps (c.udpWrite_steps (N := fun _ => True) plannedTimeUs)
  have hsub : c.transmitted ⊆ (c.udpWrite plannedTimeUs).transmitted := by
    rw [Sender.transmitted, Sender.transmitted, hactions, List.filterMap_append]
    exact List.subset_append_left _ _
  rcases c.udpWrite_outgoing plannedTimeUs with
    ⟨-, hend⟩ | ⟨sent, x, y, hdatagram, htransmits, hquiet, hend⟩
  · rcases hend with hend | ⟨-, hend⟩
    · exact (h.mono hsub).of_same (by rw [hend]; exact ⟨rfl, rfl, rfl⟩)
    · exact (h.mono hsub).of_same (by rw [hend]; exact ⟨rfl, rfl, rfl⟩)
  · have hx : x.Offered (c.udpWrite plannedTimeUs).transmitted := by
      cases sent with
      | none =>
          rw [show x = _ from htransmits]
          exact (h.mono hsub).of_same ⟨rfl, rfl, rfl⟩
      | some index =>
          obtain ⟨packet, hpacket, -, rfl⟩ := htransmits
          have hmem := mem_transmitted_of_datagram hsound plannedTimeUs hdatagram hpacket
          intro other p hp
          rw [Std.ExtTreeMap.getElem?_insert] at hp
          split at hp
          · rename_i hindex
            rw [compare_eq_iff_eq] at hindex
            rw [← Option.some.inj hp, ← hindex]
            exact ⟨(h index packet hpacket).1, fun _ => hmem⟩
          · exact (h.mono hsub) other p hp
    have hy := offered_steps hx hquiet
    rcases hend with hend | hend
    · exact hy.of_same (by rw [hend]; exact ⟨rfl, rfl, rfl⟩)
    · exact hy.of_same (by rw [hend]; exact ⟨rfl, rfl, rfl⟩)

theorem offered_of_step (hsound : c.toEndpoint.Sound) (h : c.outgoing.Offered c.transmitted)
    {m : Move} (hm : c.step m = some d) : d.outgoing.Offered d.transmitted := by
  obtain ⟨actions, hactions, -⟩ :=
    Protocol.sendHistory_steps (step_refines (N := fun _ => True) hm fun _ _ => trivial)
  have hsub : c.transmitted ⊆ d.transmitted := by
    rw [Sender.transmitted, Sender.transmitted, hactions, List.filterMap_append]
    exact List.subset_append_left _ _
  cases m with
  | «raise» event timeUs io =>
      obtain ⟨-, -, -, rfl⟩ := of_step_raise hm
      let c₀ := ({ c with io := io } : Connection).disable event
      have hc₀ : c.outgoing.SamePackets c₀.outgoing := ⟨rfl, rfl, rfl⟩
      by_cases hwrite : event = .udpWrite
      · subst hwrite
        exact udpWrite_offered (c := c₀) hsound (h.of_same hc₀) _
      · have hsteps : Steps True (fun _ _ => True) (fun _ => True) c₀.outgoing
            (c₀.handle event (c.events event).timeUs).outgoing :=
          c₀.handle_outgoing hwrite _ (fun _ => trivial) trivial
            fun _ _ => resendsMeet_of_forall _ (fun _ _ => trivial) _ _
        exact offered_steps ((h.mono hsub).of_same hc₀) hsteps
  | udpRead packet io =>
      obtain ⟨-, rfl⟩ := of_step_udpRead hm
      let c₀ : Connection := { c with io := io }
      have hsteps : Steps True (fun _ _ => True) (fun _ => True) c₀.outgoing
          (c₀.udpRead packet.wire).outgoing :=
        c₀.udpRead_outgoing packet.wire fun _ _ => confirmsMeet_of_forall _ (fun _ _ => trivial) _
      have hc₀ : c.outgoing.SamePackets c₀.outgoing := ⟨rfl, rfl, rfl⟩
      exact offered_steps ((h.mono hsub).of_same hc₀) hsteps

variable {config : Config}

theorem offered_initial (h : Initial config c) : c.outgoing.Offered c.transmitted := by
  obtain ⟨intervalUs, summaryUs, io, rfl⟩ := h
  have hend := new_toEndpoint config intervalUs summaryUs io
  intro index p hp
  change (new config intervalUs summaryUs io).udpSentPackets[index]? = some p at hp
  change index < (new config intervalUs summaryUs io).udpNextSendIndex ∧ _
  rw [hend] at hp ⊢
  simp only [Endpoint.initial, Endpoint.blank, Sender.push, Std.ExtTreeMap.getElem?_insert,
    Std.ExtTreeMap.getElem?_empty, Option.ite_none_right_eq_some, compare_eq_iff_eq] at hp ⊢
  obtain ⟨hindex, hp⟩ := hp
  rw [← Option.some.inj hp]
  refine ⟨by omega, fun hsent => ?_⟩
  simp [Std.ExtTreeMap.getD_eq_getD_getElem?] at hsent

theorem offered (h : Runs.Reachable (Initial config) step Runs.anyMove c) :
    c.outgoing.Offered c.transmitted := by
  induction h with
  | start hinit => exact offered_initial hinit
  | next hreach _ hm ih => exact offered_of_step (sound hreach) ih hm

end Connection

namespace Session

/-- What waits for `udpWrite`. -/
def backlog (s : Session) : Nat :=
  s.udpConfirmationPackets.length + (unsent s.udpSentPackets).card

/-- From `s` to `s'` only the sending half has done something, and nothing was read. -/
structure Relays (s s' : Session) : Prop where
  config_eq : s'.toConfig = s.toConfig
  ends_eq : s'.toEnds = s.toEnds
  receiver_eq : s'.toReceiver = s.toReceiver
  taken_eq : s'.taken = s.taken

theorem Relays.refl (s : Session) : s.Relays s :=
  ⟨rfl, rfl, rfl, rfl⟩

theorem Relays.trans {s s' s'' : Session} (h : s.Relays s') (h' : s'.Relays s'') : s.Relays s'' :=
  ⟨h'.config_eq.trans h.config_eq, h'.ends_eq.trans h.ends_eq, h'.receiver_eq.trans h.receiver_eq,
    h'.taken_eq.trans h.taken_eq⟩

end Session

namespace Connection

variable {c : Connection}

section Sending

theorem exists_firstUnsent (h : (unsent c.udpSentPackets).Nonempty) :
    ∃ (index : Int) (packet : Packet), c.firstUnsent = some (index, packet) := by
  cases hfirst : c.firstUnsent with
  | some entry => exact ⟨entry.1, entry.2, rfl⟩
  | none =>
      obtain ⟨index, hindex⟩ := h
      obtain ⟨p, hp, hsent⟩ := (mem_unsent _).mp hindex
      have hall := List.find?_eq_none.mp hfirst (index, p)
        (Std.ExtTreeMap.mem_toList_iff_getElem?_eq_some.mpr hp)
      simp [hsent] at hall

/-- Each call of `udpWrite` leaves less to send, while the socket takes what it is offered. -/
theorem udpWrite_relays (hsound : c.toEndpoint.Sound) (hudp : c.udpConnected = true)
    (hwritten : 0 < c.io.udpWritten) (hunsent : (unsent c.udpSentPackets).Nonempty)
    (plannedTimeUs : Int) :
    c.Relays (c.udpWrite plannedTimeUs).toSession ∧
      (c.udpWrite plannedTimeUs).tcpReceivedData = c.tcpReceivedData ∧
      (c.udpWrite plannedTimeUs).backlog < c.backlog := by
  cases hqueue : c.udpConfirmationPackets with
  | cons packet packets =>
      have hwrite : c.udpWrite plannedTimeUs = c.udpWriteConfirmation plannedTimeUs packet packets := by
        simp only [udpWrite, hudp, hqueue, Bool.not_true, Bool.false_eq_true, if_false]
      have hend := udpWriteConfirmation_toEndpoint plannedTimeUs packet packets hudp hunsent
        (.inl hwritten)
      rw [hwrite, hend]
      refine ⟨⟨rfl, rfl, rfl, by simp [SendAction.taken]⟩, rfl, ?_⟩
      simp only [Session.backlog, Sender.record, hqueue, List.length_cons]
      omega
  | nil =>
      obtain ⟨index, packet, hfirst⟩ := exists_firstUnsent hunsent
      obtain ⟨hpacket, hsent⟩ := c.firstUnsent_eq_some hfirst
      have hconfirmed := hsound.sending.wellFormed.sent_unconfirmed _ _ hpacket
      have hwrite : c.udpWrite plannedTimeUs = c.udpWritePacket plannedTimeUs index packet := by
        simp only [udpWrite, hudp, hqueue, hfirst, Bool.not_true, Bool.false_eq_true, if_false]
      have hmem : index ∈ unsent c.udpSentPackets := (mem_unsent _).mpr ⟨packet, hpacket, hsent⟩
      rw [hwrite, udpWritePacket_toEndpoint plannedTimeUs index packet hconfirmed (.inl hwritten)]
      refine ⟨⟨rfl, rfl, rfl, ?_⟩, rfl, ?_⟩
      · change (c.toSender.record (.writeto packet.wire)).taken = c.taken
        simp [SendAction.taken]
      · simp only [Session.backlog]
        rw [unsent_insert_of_sent _ rfl]
        have hless := Finset.card_erase_lt_of_mem hmem
        omega

theorem buildUdpPacketsLoop_taken (flush : Bool) (fuel : Nat) (rest : List UInt8) :
    (buildUdpPacketsLoop flush fuel rest c).1.taken = c.taken ∧
      (buildUdpPacketsLoop flush fuel rest c).1.udpNextSendIndex ≤ c.udpNextSendIndex + rest.length := by
  induction fuel generalizing rest c with
  | zero => exact ⟨rfl, by simp only [buildUdpPacketsLoop]; omega⟩
  | succ fuel ih =>
      simp only [buildUdpPacketsLoop]
      split
      · exact ⟨rfl, by simp only; omega⟩
      · rename_i hrest
        split
        · exact ⟨rfl, by simp only; omega⟩
        · rename_i hsize
          have hlength : rest.length ≠ 0 := by simpa using hrest
          generalize hn : (min (rest.length : Int) c.udpSendPacketSize).toNat = n
          have hpos : 1 ≤ n := by
            simp only [Bool.or_eq_true, decide_eq_true_eq, not_or] at hsize
            omega
          obtain ⟨htaken, hnext⟩ := ih (c := ((c.push .data (rest.take n)).setEventUdpWrite).onUdpSentBufferChanged
            (rest.take n).length) (rest.drop n)
          simp only [onUdpSentBufferChanged_toEndpoint, setEventUdpWrite_toEndpoint, push_toEndpoint,
            Sender.push_taken, Sender.push_udpNextSendIndex, List.length_drop] at htaken hnext
          exact ⟨htaken, by omega⟩

theorem buildUdpPackets_relays (hsound : (c.buildUdpPackets true).toEndpoint.Sound)
    (hudp : c.udpConnected = true) :
    c.Relays (c.buildUdpPackets true).toSession ∧ (c.buildUdpPackets true).tcpReceivedData = [] ∧
      (c.buildUdpPackets true).udpNextSendIndex ≤ c.udpNextSendIndex + c.tcpReceivedData.length := by
  have hbuild : ∀ d : Connection, (d.buildReceivedData true).taken = d.taken ∧
      (d.buildReceivedData true).udpNextSendIndex ≤ d.udpNextSendIndex + d.tcpReceivedData.length := by
    intro d
    have hloop := buildUdpPacketsLoop_taken (c := d) true d.tcpReceivedData.length d.tcpReceivedData
    simp only [buildReceivedData]
    split <;> split <;> exact hloop
  have hall : (c.buildUdpPackets true).taken = c.taken ∧ (c.buildUdpPackets true).udpNextSendIndex ≤
      c.udpNextSendIndex + c.tcpReceivedData.length := by
    simp only [buildUdpPackets, hudp, Bool.not_true, Bool.false_eq_true, if_false]
    split
    · obtain ⟨htaken, hnext⟩ := hbuild { c with tcpReceivedData := [] }
      exact ⟨htaken, hnext.trans (by simp)⟩
    · exact hbuild c
  have hdata := Protocol.received_eq_nil_of_flushed hsound.sending (c.buildUdpPackets_flushed hudp)
  obtain ⟨s, hs⟩ := c.buildUdpPackets_toEndpoint true
  refine ⟨⟨?_, ?_, ?_, hall.1⟩, hdata, hall.2⟩
  · rw [hs]
  · rw [hs]
  · rw [hs]

end Sending

end Connection

end IceTunnel
