import IceTunnel.Peers

namespace IceTunnel

/-- `tcpWrite` has passed every packet below `tcpNextSendIndex`. -/
def Receiver.Passed (r : Receiver) : Prop :=
  ∀ index : Int, 0 ≤ index → index < r.tcpNextSendIndex →
    ∃ (p : Packet) (fake : Bool), .consume p fake ∈ r.receiveHistory ∧ p.getIndex = index

namespace Receiver

variable {r : Receiver} {p q : Packet}

theorem Passed.consume (h : r.Passed) (fake : Bool) (hindex : q.getIndex = r.tcpNextSendIndex) :
    (r.consume q fake).Passed := by
  intro index h0 hlt
  simp only [Receiver.consume] at hlt ⊢
  by_cases hlast : index = r.tcpNextSendIndex
  · exact ⟨_, fake, List.mem_append_right _ (List.mem_singleton_self _),
      hindex.trans hlast.symm⟩
  · obtain ⟨a, fake', hmem, hsame⟩ := h index h0 (by omega)
    exact ⟨a, fake', List.mem_append_left _ hmem, hsame⟩

theorem Passed.record (h : r.Passed) (action : ReceiveAction) : (r.record action).Passed := by
  intro index h0 hlt
  obtain ⟨a, fake, hmem, hsame⟩ := h index h0 hlt
  exact ⟨a, fake, by simp [hmem], hsame⟩

theorem Passed.skip (h : r.Passed) (fake : Bool) (hindex : p.getIndex = r.tcpNextSendIndex) :
    (r.skip p fake).Passed := by
  simp only [Receiver.skip]
  split
  · exact Passed.consume (r := { r with udpReceiveBufferSize := r.udpReceiveBufferSize - .ofInt p.getSize })
      h fake hindex
  · exact h.consume fake hindex

theorem Passed.write (h : r.Passed) {size : Nat} (hpos : 0 < size) (hsize : size ≤ p.getData.length)
    (hindex : p.getIndex = r.tcpNextSendIndex) : (r.write p size).Passed := by
  have hrecord := h.record (.write (p.getData.take size))
  simp only [Receiver.write]
  split
  · refine Passed.consume (r := { r.record (.write (p.getData.take size)) with
      udpReceivedPackets := r.udpReceivedPackets.insert r.tcpNextSendIndex (p.erasePayload size)
      udpReceiveBufferSize := r.udpReceiveBufferSize - .ofInt size }) hrecord false ?_
    rw [Packet.erasePayload_getIndex hpos hsize]
    exact hindex
  · exact hrecord

end Receiver

namespace Protocol

variable {N : Packet → Prop} {e e' : Endpoint}

theorem getIndex_of_isNext (h : e.toReceiver.WellFormed) {packet : Packet}
    (hnext : e.IsNext packet) : packet.getIndex = e.tcpNextSendIndex := by
  obtain ⟨q, -, hindex, hsame, -⟩ := h.key_accepted _ packet hnext.2
  omega

theorem passed_step (h : e.toReceiver.WellFormed) (hpassed : e.Passed) (hstep : Step N e e') :
    e'.Passed := by
  cases hstep with
  | skip packet fake hnext => exact hpassed.skip fake (getIndex_of_isNext h hnext)
  | skipClosing packet hnext => exact hpassed.skip false (getIndex_of_isNext h hnext)
  | skipClosingUnused packet hnext => exact hpassed.skip false (getIndex_of_isNext h hnext)
  | write packet size hnext htcp htype hpos hsize =>
      exact hpassed.write hpos hsize (getIndex_of_isNext h hnext)
  | accept packet =>
      obtain ⟨masterIndex, finalIndex, heq, -⟩ := e.toReceiver.accept_eq packet
      intro index h0 hlt
      simp only [heq] at hlt ⊢
      obtain ⟨a, fake, hmem, hsame⟩ := hpassed index h0 hlt
      exact ⟨a, fake, List.mem_append_left _ hmem, hsame⟩
  | confirm payload => exact hpassed.record _
  | prune key =>
      intro index h0 hlt
      simp only [Receiver.pruneKey_tcpNextSendIndex, Receiver.pruneKey_receiveHistory] at hlt ⊢
      exact hpassed index h0 hlt
  | acceptByeBye packet => exact hpassed.record _
  | _ => exact hpassed

/-- Only `isUdpFinished()` sets `finished`. -/
theorem finished_eq (hstep : Step N e e') :
    e'.finished = e.finished ∨
      (e.udpConnected = true ∧ e.Finishable ∧ e'.finished = some e.toSession ∧
        e'.toSession = e.toSession) := by
  cases hstep with
  | finish hudp hfinishable => exact .inr ⟨hudp, hfinishable, rfl, rfl⟩
  | _ => exact .inl rfl

end Protocol

namespace Tunnel

/-- The session `s` had nothing left to do, and its peer accepted all of it. -/
structure Graceful (s : Session) (peer : Endpoint) : Prop where
  tcpConnected : s.tcpConnected = false
  tcpReceivedData : s.tcpReceivedData = []
  closing_last : ∃ (packets : List Packet) (last : Packet), s.created = packets ++ [last] ∧
    last.getType.isClosing = true ∧ last.getIndex + 1 = s.udpNextSendIndex ∧
    ∀ p ∈ packets, p.getType.isClosing = false
  accepted : ∀ p ∈ s.created, p ∈ peer.accepted
  passed : ∀ p ∈ s.accepted, p.getIndex < s.udpReceivedMasterIndex →
    ∃ (q : Packet) (fake : Bool), .consume q fake ∈ s.receiveHistory ∧ q.getIndex = p.getIndex
  confirmed : ∀ p ∈ s.accepted, p.getIndex < s.udpReceivedMasterIndex →
    ∃ q ∈ s.confirmations, q.Confirms p.getIndex

variable {e peer : Endpoint}

theorem graceful_of_finishable (he : e.Sound) (hpassed : e.Passed) (hlt : e.udpNextSendIndex < intMax)
    (hpeer : peer.Sound) (hltPeer : peer.udpNextSendIndex < intMax) (hlinked : Linked e peer)
    (hback : Linked peer e) (hudp : e.udpConnected = true) (hfinishable : e.Finishable) :
    Graceful e.toSession peer := by
  obtain ⟨hmore, -, hconfirmed, hnext⟩ := hfinishable
  simp only [Session.isNoMoreDataWillBeSent, Bool.and_eq_true, Bool.or_eq_true, Bool.not_eq_true',
    beq_iff_eq, List.isEmpty_iff, Std.ExtTreeMap.isEmpty_iff] at hmore
  obtain ⟨⟨hclosed, hdata⟩, hsent⟩ := hmore
  have hmaster := master_le_next hpeer hltPeer he hback
  have htcp : e.tcpConnected = false := by
    rcases hclosed with htcp | hfinal
    · exact htcp
    · exact he.concluded.tcpConnected he.receiving (by omega) hnext
  have hwellFormed := he.sending.wellFormed
  have hlength := hwellFormed.next_eq
  constructor
  · exact htcp
  · exact hdata
  · obtain ⟨last, hlast, hclosing⟩ := he.sending.closing_created htcp hudp
    have hsplit := List.dropLast_append_getLast? last hlast
    have hfull : e.created.dropLast.length + 1 = e.created.length := by
      rw [← hsplit]
      simp
    have hindex : e.created[e.created.dropLast.length]? = some last := by
      rw [← hsplit]
      simp
    refine ⟨e.created.dropLast, last, hsplit.symm, hclosing, ?_, fun p hp => ?_⟩
    · rw [hwellFormed.getIndex_created hlt hindex]
      omega
    · by_contra hnot
      obtain ⟨i, hi⟩ := List.mem_iff_getElem?.mp hp
      have hlt := (List.getElem?_eq_some_iff.mp hi).1
      have hcreated : e.created[i]? = some p := by
        rw [← hsplit, List.getElem?_append_left hlt]
        exact hi
      have := (he.sending.closing_last i p hcreated (by simpa using hnot)).1
      omega
  · intro p hp
    obtain ⟨i, hi⟩ := List.mem_iff_getElem?.mp hp
    have hiLt := (List.getElem?_eq_some_iff.mp hi).1
    obtain ⟨q, hq, hsame⟩ := hlinked.forgotten_accepted hudp i (Int.natCast_nonneg i) (by omega)
      (by simp [hsent])
    have hcreated := hwellFormed.created_of_mem hlt (hlinked.accepted_created q hq) hsame
    obtain rfl := Option.some.inj (hi.symm.trans hcreated)
    exact hq
  · intro p hp hbelow
    exact hpassed p.getIndex (he.receiving.accepted_kept p hp).1 (by omega)
  · intro p hp hbelow
    have h0 := (he.receiving.accepted_kept p hp).1
    rcases he.acknowledging.confirmed_master with hzero | ⟨q, hq, hsame⟩
    · omega
    · exact ⟨q, hq, .inl (by omega)⟩

/-- What is known of the endpoints that have finished. -/
structure Finished (x : Endpoints) : Prop where
  honest : Honest x
  passed : ∀ side, (x side).Passed
  graceful : ∀ side s, (x side).finished = some s →
    Graceful s (x side.other) ∧ (x side).created = s.created

theorem Finished.step {x y : Endpoints} (h : Finished x) (hstep : ProtocolStep x y) :
    Finished y := by
  refine ⟨h.honest.step hstep, ?_, ?_⟩
  all_goals
    obtain ⟨side, e, hside, hlt⟩ := hstep
    intro a
  · rcases Side.eq_or_eq_other side a with rfl | rfl
    · simpa using Protocol.passed_step (h.honest.sound a).receiving (h.passed a) hside
    · simpa using h.passed side.other
  · intro s hs
    rcases Side.eq_or_eq_other side a with rfl | rfl
    · simp only [Function.update_self] at hs
      simp only [Function.update_self, Function.update_of_ne a.other_ne]
      have hlinked := h.honest.linked a.other
      rw [Side.other_other] at hlinked
      rcases Protocol.finished_eq hside with hsame | ⟨hudp, hfinishable, hnew, hsession⟩
      · obtain ⟨hgraceful, hcreated⟩ := h.graceful a s (hsame.symm.trans hs)
        refine ⟨hgraceful, ?_⟩
        obtain ⟨packets, last, hsplit, hclosing, -⟩ := hgraceful.closing_last
        rw [Protocol.created_eq_of_closing (h.honest.sound a).sending ?_ hside, hcreated]
        exact ⟨last, by simp [hcreated, hsplit], hclosing⟩
      · obtain rfl := Option.some.inj (hnew.symm.trans hs)
        refine ⟨?_, by rw [hsession]⟩
        exact graceful_of_finishable (h.honest.sound a) (h.passed a) (h.honest.next_lt a)
          (h.honest.sound a.other) (h.honest.next_lt a.other) hlinked (h.honest.linked a) hudp
          hfinishable
    · simp only [Function.update_of_ne side.other_ne] at hs
      simp only [Function.update_of_ne side.other_ne, Side.other_other, Function.update_self]
      obtain ⟨hgraceful, hcreated⟩ := h.graceful side.other s hs
      rw [Side.other_other] at hgraceful
      exact ⟨{ hgraceful with
        accepted := fun p hp => (Protocol.mem_accepted hside).1 p (hgraceful.accepted p hp) }, hcreated⟩

theorem finished_initial {config : Side → Config} {t : Tunnel} (h : Initial config t) :
    Finished t.endpoints := by
  refine ⟨honest_initial h, fun side => ?_, fun side s hs => ?_⟩
  · rw [endpoints_initial h]
    exact fun index h0 hlt => absurd hlt (not_lt.mpr h0)
  · rw [endpoints_initial h] at hs
    cases hs

/-- Whoever closes because `isUdpFinished()` returned true loses nothing. -/
theorem graceful_of_finished {config : Side → Config} {t : Tunnel} (h : Reachable config t)
    (side : Side) (s : Session) (hs : (t side).finished = some s) :
    Graceful s (t side.other).toEndpoint ∧ (t side).created = s.created :=
  (Runs.Reachable.invariant_of_refines (fun _ => finished_initial)
    (fun _ _ _ _ _ hm => step_refines hm) (fun _ _ => Finished.step) h).graceful side s hs

/-- Both TCP sides close at once, and the closing exchange runs without loss. -/
def gracefulRun : List Move :=
  List.flatten
    [both (.raise · .udpWrite 0 (Io.steady 0)),
      both (.deliver · 0 (Io.steady 5)),
      both (.raise · .tcpClose 6 (Io.steady 6)),
      both (.raise · .udpWrite 20 (Io.steady 20)),
      both (.deliver · 1 (Io.steady 25)),
      both (.raise · .buildConfirmations 105 (Io.steady 105)),
      both (.raise · .udpWrite 115 (Io.steady 115)),
      both (.deliver · 2 (Io.steady 120)),
      both (.raise · .buildByeBye 120 (Io.steady 120)),
      both (.raise · .udpWrite 130 (Io.steady 130)),
      both (.deliver · 3 (Io.steady 135)),
      both (.raise · .udpCloseWait 4140 (Io.steady 4140))]

theorem gracefulRun_isSome : (play Config.small gracefulRun).isSome = true := by
  decide +kernel

theorem gracefulRun_finished :
    (((play Config.small gracefulRun).get gracefulRun_isSome) .client).finished.isSome = true := by
  decide +kernel

theorem graceful_of_finished_gracefulRun :
    ∃ t s, Reachable (fun _ => Config.small) t ∧ (t .client).finished = some s ∧
      Graceful s (t .server).toEndpoint := by
  have hreachable := Reachable.of_play (Option.some_get gracefulRun_isSome).symm
  have hfinished := (Option.some_get gracefulRun_finished).symm
  exact ⟨_, _, hreachable, hfinished, (graceful_of_finished hreachable .client _ hfinished).1⟩

end Tunnel

end IceTunnel
