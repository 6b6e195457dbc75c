import IceTunnel.Waking

namespace IceTunnel

open Connection (indicesOf mem_indicesOf)

namespace Receiver

/-- The last packet with data is all that TCP has to take, TCP takes all of it, and
no packet closes the TCP side. -/
def Drained (r : Receiver) (accepted : Nat) : Prop :=
  ∀ index ∈ indicesOf (r.tcpNextSendIndex, r.udpReceivedMasterIndex),
    ∀ packet ∈ r.udpReceivedPackets[index]?, packet.getType.isClosing = false ∧
      (packet.getType = .data → 0 < packet.getSize →
        index + 1 = r.udpReceivedMasterIndex ∧ packet.getSize ≤ accepted)

instance (r : Receiver) (accepted : Nat) : Decidable (r.Drained accepted) := by
  unfold Drained
  infer_instance

variable {r : Receiver} {packet : Packet} {accepted : Nat}

theorem drained_of_le (h : r.udpReceivedMasterIndex ≤ r.tcpNextSendIndex) : r.Drained accepted := by
  intro index hindex
  have hrange := mem_indicesOf.mp hindex
  omega

theorem drained_skip_iff (hpacket : r.udpReceivedPackets[r.tcpNextSendIndex]? = some packet)
    (hclosing : packet.getType.isClosing = false)
    (hempty : packet.getType ≠ .data ∨ packet.getSize ≤ 0) :
    (r.skip packet false).Drained accepted ↔ r.Drained accepted := by
  simp only [Drained, mem_indicesOf, skip_tcpNextSendIndex, skip_udpReceivedMasterIndex]
  constructor
  · rintro h index ⟨hnext, hmaster⟩ p hp
    by_cases hfirst : index = r.tcpNextSendIndex
    · rw [hfirst, hpacket] at hp
      obtain rfl := Option.some.inj hp
      exact ⟨hclosing, fun hdata hsize => (hempty.elim (· hdata) (not_le.mpr hsize)).elim⟩
    · apply h index ⟨by omega, hmaster⟩ p
      rw [skip_other _ _ _ hfirst]
      exact hp
  · rintro h index ⟨hnext, hmaster⟩ p hp
    have hother : index ≠ r.tcpNextSendIndex := by omega
    rw [skip_other _ _ _ hother] at hp
    exact h index ⟨by omega, hmaster⟩ p hp

theorem drained_data_iff (hpacket : r.udpReceivedPackets[r.tcpNextSendIndex]? = some packet)
    (hnext : r.tcpNextSendIndex < r.udpReceivedMasterIndex) (hdata : packet.getType = .data)
    (hsize : 0 < packet.getSize) :
    r.Drained accepted ↔
      r.tcpNextSendIndex + 1 = r.udpReceivedMasterIndex ∧ packet.getSize ≤ accepted := by
  simp only [Drained, mem_indicesOf]
  constructor
  · intro h
    exact (h _ ⟨le_refl _, hnext⟩ packet hpacket).2 hdata hsize
  · rintro ⟨hlast, hle⟩ index ⟨hfirst, hmaster⟩ p hp
    have heq : index = r.tcpNextSendIndex := by omega
    rw [heq, hpacket] at hp
    obtain rfl := Option.some.inj hp
    refine ⟨?_, fun _ _ => ⟨by omega, hle⟩⟩
    rw [hdata]
    rfl

theorem write_done_iff {size : Nat} (hpos : 0 < size) (hsize : size ≤ packet.getData.length) :
    (r.write packet size).tcpNextSendIndex =
      if size = packet.getData.length then r.tcpNextSendIndex + 1 else r.tcpNextSendIndex := by
  have hrest : (packet.erasePayload size).getSize = packet.getData.length - size := by
    rw [Packet.getSize_eq, Packet.erasePayload_getData hpos hsize, List.length_drop]
    omega
  rw [write_eq]
  by_cases hall : size = packet.getData.length
  · rw [if_pos hall, if_pos (by omega)]
    rfl
  · rw [if_neg hall, if_neg (by omega)]
    rfl

end Receiver

namespace Connection

/-- With the UDP side down the TCP side is open only while TCP has packets to take. -/
def Pending (c : Connection) : Prop :=
  c.udpConnected = false → c.tcpConnected = true →
    c.tcpNextSendIndex < c.udpReceivedMasterIndex

/-- With the UDP side down there is an event that goes on with the end of the
connection, or it is over. -/
def WindsDown (c : Connection) : Prop :=
  c.udpConnected = false →
    (c.tcpConnected = false ∧ (c.isEnabled .close = true ∨ c.deleted = true)) ∨
      (c.tcpConnected = true ∧ c.tcpNextSendIndex < c.udpReceivedMasterIndex ∧
        c.isEnabled .tcpWrite = true)

instance (c : Connection) : Decidable c.WindsDown := by
  unfold WindsDown
  infer_instance

/-- The moves after which a connection without its UDP side waits for nothing: TCP
takes all that was received, and none of it closes the TCP side. -/
def Strands (c : Connection) : Move → Prop
  | .raise .tcpWrite _ io =>
      c.udpConnected = false ∧ c.tcpConnected = true ∧ c.toReceiver.Drained io.tcpAccepted
  | _ => False

instance (c : Connection) (m : Move) : Decidable (c.Strands m) := by
  cases m with
  | «raise» event timeUs io => cases event <;> (unfold Strands; infer_instance)
  | udpRead packet io => exact .isFalse id

variable {c d : Connection}

theorem windsDown_iff_pending (hwrite : c.Awake .tcpWrite) (hclose : c.Awake .close) :
    c.WindsDown ↔ c.Pending := by
  constructor
  · intro h hudp htcp
    rcases h hudp with ⟨hclosed, -⟩ | ⟨-, hlt, -⟩
    · rw [htcp] at hclosed
      cases hclosed
    · exact hlt
  · intro h hudp
    cases htcp : c.tcpConnected with
    | false =>
        cases hdeleted : c.deleted with
        | false => exact .inl ⟨rfl, .inl (hclose ⟨htcp, hudp, hdeleted⟩)⟩
        | true => exact .inl ⟨rfl, .inr rfl⟩
    | true =>
        have hlt := h hudp htcp
        exact .inr ⟨rfl, hlt, hwrite ⟨htcp, hlt⟩⟩

theorem pending_of_open (hudp : c.udpConnected = true) : c.Pending := by
  intro hclosed
  rw [hudp] at hclosed
  cases hclosed

theorem pending_of_udpClosed (h : d.UdpClosed) : d.Pending := by
  intro hudp htcp
  obtain ⟨e, hopen, rfl⟩ := h hudp
  rw [udpClose_toEndpoint e hopen] at htcp ⊢
  simp only [Bool.and_eq_true, decide_eq_true_eq] at htcp
  exact htcp.2

section TcpWrite

variable (c)

theorem tcpWriteData_le_iff {packet : Packet} (hnext : c.tcpNextSendIndex < c.udpReceivedMasterIndex)
    (hsize : 0 < packet.getSize) :
    (c.tcpWriteData packet).udpReceivedMasterIndex ≤ (c.tcpWriteData packet).tcpNextSendIndex ↔
      c.tcpNextSendIndex + 1 = c.udpReceivedMasterIndex ∧ packet.getSize ≤ c.io.tcpAccepted := by
  have hlength := Packet.getSize_eq packet
  have hmoved : ∀ e : Connection, (if e.tcpNextSendIndex < e.udpReceivedMasterIndex then
      e.setTimeRelativeNow .tcpWrite 0 else e).toEndpoint = e.toEndpoint := by
    intro e
    split <;> rfl
  simp only [tcpWriteData, hmoved]
  split
  · rename_i hpos
    have hdone := c.toReceiver.write_done_iff hpos (min_le_right _ packet.getData.length)
    simp only [hdone, Receiver.write_udpReceivedMasterIndex]
    split <;> omega
  · rename_i hpos
    omega

/-- The loop of `tcpWrite` gets to the end without a closing packet just where
everything is taken. -/
theorem tcpWriteLoop_drained_iff {fuel : Nat} (hfuel : c.tcpWriteFuel ≤ fuel)
    (hwellFormed : c.toReceiver.WellFormed) :
    ((tcpWriteLoop false fuel c).2 = false ∧
      (tcpWriteLoop false fuel c).1.udpReceivedMasterIndex ≤
        (tcpWriteLoop false fuel c).1.tcpNextSendIndex) ↔
      c.toReceiver.Drained c.io.tcpAccepted := by
  induction fuel generalizing c with
  | zero =>
      have hle : c.udpReceivedMasterIndex ≤ c.tcpNextSendIndex := by
        simp only [tcpWriteFuel] at hfuel
        omega
      exact iff_of_true ⟨rfl, hle⟩ (Receiver.drained_of_le hle)
  | succ fuel ih =>
      simp only [tcpWriteLoop]
      split
      · rename_i hlt
        split
        · rename_i hnone
          have hmem := hwellFormed.filled _ (le_refl _) hlt
          rw [Std.ExtTreeMap.mem_iff_isSome_getElem?, hnone] at hmem
          cases hmem
        · rename_i packet hpacket
          split
          · rename_i hskip
            simp only [Bool.false_or, Bool.or_eq_true, decide_eq_true_eq] at hskip
            split
            · rename_i hclosing
              simp only [Bool.not_false, Bool.true_and] at hclosing
              refine iff_of_false (fun h => by cases h.1) fun h => ?_
              have hopen := (h _ (mem_indicesOf.mpr ⟨le_refl _, hlt⟩) packet hpacket).1
              rw [hclosing] at hopen
              cases hopen
            · rename_i hclosing
              simp only [Bool.not_false, Bool.true_and, Bool.not_eq_true] at hclosing
              rw [← Receiver.drained_skip_iff hpacket hclosing hskip]
              refine ih { c with toReceiver := c.toReceiver.skip packet false } ?_
                (hwellFormed.skip false hpacket hlt)
              simp only [tcpWriteFuel, Receiver.skip_udpReceivedMasterIndex,
                Receiver.skip_tcpNextSendIndex] at hfuel ⊢
              omega
          · rename_i hdata
            simp only [Bool.false_or, Bool.or_eq_true, decide_eq_true_eq, not_or, ne_eq, not_not,
              not_le] at hdata
            rw [Receiver.drained_data_iff hpacket hlt hdata.1 hdata.2,
              ← c.tcpWriteData_le_iff hlt hdata.2]
            exact and_iff_right rfl
      · rename_i hle
        rw [not_lt] at hle
        exact iff_of_true ⟨rfl, hle⟩ (Receiver.drained_of_le hle)

theorem tcpWrite_pending_iff (hwellFormed : c.toReceiver.WellFormed) (hudp : c.udpConnected = false)
    (htcp : c.tcpConnected = true) :
    c.tcpWrite.Pending ↔ ¬c.toReceiver.Drained c.io.tcpAccepted := by
  have hloop := c.tcpWriteLoop_drained_iff (le_refl _) hwellFormed
  obtain ⟨r, hr, -⟩ := c.tcpWriteLoop_toEndpoint false c.tcpWriteFuel
  simp only [tcpWrite, htcp, Bool.not_true, Bool.false_eq_true, if_false]
  rw [← hloop]
  generalize tcpWriteLoop false c.tcpWriteFuel c = result at hr
  obtain ⟨e, closing⟩ := result
  simp only at hr ⊢
  cases closing with
  | true =>
      refine iff_of_true (fun _ hopen => ?_) fun h => by cases h.1
      rw [if_pos rfl, (tcpClose_ends _ false).1] at hopen
      cases hopen
  | false =>
      have hudpE : e.udpConnected = false := by rw [hr]; exact hudp
      have htcpE : e.tcpConnected = true := by rw [hr]; exact htcp
      simp only [Bool.false_eq_true, if_false, true_and, not_le]
      exact ⟨fun h => h hudpE htcpE, fun h _ _ => h⟩

end TcpWrite

theorem Pending.handle (h : c.Pending) (hudp : c.udpConnected = false) {event : EventName}
    (hevent : event ≠ .tcpWrite) (plannedTimeUs : Int) : (c.handle event plannedTimeUs).Pending := by
  cases event with
  | tcpRead =>
      obtain ⟨s, hs⟩ := c.tcpRead_toEndpoint
      simp only [Connection.handle, Pending, hs]
      exact h
  | tcpWrite => exact absurd rfl hevent
  | tcpClose =>
      intro _ htcp
      rw [Connection.handle, (c.tcpClose_ends _).1] at htcp
      cases htcp
  | udpCloseWait =>
      rcases c.closeIfUdpFinished_eq with ⟨-, heq⟩ | ⟨-, finished, heq⟩
      · rw [Connection.handle, heq]
        exact h
      · rw [Connection.handle, heq]
        simp only [udpClose, hudp, Bool.not_false, if_true]
        exact h
  | close => exact h
  | _ =>
      simp only [Connection.handle, udpWrite, udpClose, Connection.buildUdpPackets,
        Connection.buildConfirmations, buildByeBye, udpResend, hudp, Bool.not_false, if_true]
      exact h

/-- Exactly the moves that strand a connection leave it with nothing to wait for. -/
theorem step_pending_iff (hwellFormed : c.toReceiver.WellFormed) (h : c.Pending) {m : Move}
    (hm : c.step m = some d) : d.Pending ↔ ¬c.Strands m := by
  cases m with
  | «raise» event timeUs io =>
      obtain ⟨-, -, -, rfl⟩ := of_step_raise hm
      let e : Connection := ({ c with io := io } : Connection).disable event
      have hpending : e.Pending := h
      cases hudp : c.udpConnected with
      | true =>
          have hclosed := e.handle_udpClosed event (c.events event).timeUs hudp
          refine iff_of_true (pending_of_udpClosed hclosed) fun hstrands => ?_
          cases event <;> simp [Strands, hudp] at hstrands
      | false =>
          by_cases hevent : event = .tcpWrite
          · subst hevent
            cases htcp : c.tcpConnected with
            | false =>
                have hsame : e.tcpWrite = e := by
                  have hclosed : (!e.tcpConnected) = true := by
                    change (!c.tcpConnected) = true
                    rw [htcp]
                    rfl
                  rw [tcpWrite, if_pos hclosed]
                refine iff_of_true ?_ fun hstrands => by simp [Strands, htcp] at hstrands
                change e.tcpWrite.Pending
                rw [hsame]
                exact hpending
            | true =>
                have hiff := e.tcpWrite_pending_iff hwellFormed hudp htcp
                simp only [Strands, hudp, htcp, true_and]
                exact hiff
          · refine iff_of_true (hpending.handle hudp hevent _) fun hstrands => ?_
            cases event <;> first | exact absurd rfl hevent | exact hstrands
  | udpRead packet io =>
      obtain ⟨-, rfl⟩ := of_step_udpRead hm
      refine iff_of_true ?_ id
      cases hudp : c.udpConnected with
      | true => exact pending_of_udpClosed (udpRead_udpClosed packet.wire hudp)
      | false =>
          have hsame : ({ c with io := io } : Connection).udpRead packet.wire = { c with io := io } := by
            simp [udpRead, hudp]
          rw [hsame]
          exact h

theorem pending_initial {config : Config} (h : Initial config c) : c.Pending := by
  obtain ⟨intervalUs, summaryUs, io, rfl⟩ := h
  apply pending_of_open
  rw [new_toEndpoint]
  rfl

/-- A connection that is never stranded winds down once its UDP side is down. -/
theorem windsDown_of_not_strands {config : Config}
    (h : Runs.Reachable (Initial config) step (fun c m => ¬c.Strands m) c) : c.WindsDown := by
  have hpending : c.Pending := by
    induction h with
    | start hinit => exact pending_initial hinit
    | next hreach hok hm ih => exact (step_pending_iff (sound hreach).receiving ih hm).mpr hok
  exact (windsDown_iff_pending (awake_of_timed (.inl rfl) h) (awake_of_timed (.inr rfl) h)).mpr
    hpending

/-- Two packets arrive, the second with data, and then the tunnel is closed. -/
def severedRun : List Move :=
  [.udpRead (.datagram .hello 0 []) (Io.steady 0),
    .udpRead (.datagram .data 1 [7, 8]) (Io.steady 0),
    .raise .udpClose 0 (Io.steady 0)]

/-- TCP takes one byte of the two. -/
def slowlyRun : List Move :=
  severedRun ++ [.raise .tcpWrite 0 { Io.steady 0 with tcpAccepted := 1 }]

/-- TCP takes both bytes. -/
def strandedRun : List Move :=
  severedRun ++ [.raise .tcpWrite 0 (Io.steady 0)]

theorem slowlyRun_isSome :
    (Runs.run step (fun c m => ¬c.Strands m) (fresh Config.small) slowlyRun).isSome = true := by
  decide +kernel

theorem windsDown_of_not_strands_slowlyRun :
    ((Runs.run step (fun c m => ¬c.Strands m) (fresh Config.small) slowlyRun).get
      slowlyRun_isSome).WindsDown :=
  windsDown_of_not_strands (.of_run (.start ⟨10, 0, Io.steady 0, rfl⟩)
    (Option.some_get slowlyRun_isSome).symm)

theorem strandedRun_isSome : (play Config.small strandedRun).isSome = true := by
  decide +kernel

/-- TCP has everything, the tunnel is gone, and the TCP side stays open. -/
theorem not_windsDown_strandedRun :
    ∃ c, Runs.Reachable (Initial Config.small) step Runs.anyMove c ∧ c.udpConnected = false ∧
      ¬c.WindsDown := by
  refine ⟨(play Config.small strandedRun).get strandedRun_isSome, ?_, ?_⟩
  · exact reachable_of_play (Option.some_get strandedRun_isSome).symm
  · decide +kernel

end Connection

end IceTunnel
