import IceTunnel.Calling
import IceTunnel.Waking

namespace IceTunnel

namespace Protocol

variable {N : Packet → Prop} {e e' : Endpoint}

theorem tcpClosed_step (hstep : Step N e e') (htcp : e.tcpConnected = false) :
    e'.tcpConnected = false := by
  cases hstep with
  | close type hopen => rfl
  | hangUp hopen => rfl
  | skipClosing packet => rfl
  | skipClosingUnused packet => rfl
  | _ => exact htcp

end Protocol

namespace Session

/-- Both sides are closed. -/
def Shut (s : Session) : Prop :=
  s.tcpConnected = false ∧ s.udpConnected = false

end Session

namespace Connection

variable (c d : Connection)

/-- From `c` to `d`, `eventClose` is set only where both sides are closed. -/
def Shuts : Prop :=
  d.isEnabled .close = true → c.isEnabled .close = true ∨ d.Shut

variable {c d} {e : Connection}

theorem shuts_of_eq (h : d.isEnabled .close = c.isEnabled .close) : c.Shuts d := by
  intro henabled
  rw [h] at henabled
  exact .inl henabled

theorem Shuts.of_eq (h : d.Shuts e) (heq : d.isEnabled .close = c.isEnabled .close) : c.Shuts e := by
  intro henabled
  rw [← heq]
  exact h henabled

section Closing

theorem tcpClose_shuts (error : Bool) : c.Shuts (c.tcpClose error) := by
  obtain ⟨htcpD, hudpD⟩ := c.tcpClose_ends error
  cases hudp : c.udpConnected with
  | false => exact fun _ => .inr ⟨htcpD, hudpD.trans hudp⟩
  | true =>
      cases htcp : c.tcpConnected with
      | false =>
          apply shuts_of_eq
          simp [tcpClose, htcp]
      | true =>
          let c₀ := ({ c with tcpConnected := false }.disable .tcpRead).disable .tcpWrite
          have hfake := (c₀.tcpWriteFake_frame).2.2.2 .close
          have hbuild := (c₀.tcpWriteFake.buildUdpPackets_frame true).2.2 .close (by decide)
            (by decide) (by decide)
          have hc₀ : c₀.isEnabled .close = c.isEnabled .close := by
            rw [isEnabled_disable_of_ne _ _ (by decide), isEnabled_disable_of_ne _ _ (by decide)]
            rfl
          have hclose : c.tcpClose error = (((c₀.tcpWriteFake.buildUdpPackets true).push
              (if error then .disconnect else .bye) []).onUdpSentBufferChanged 0).setEventUdpWrite := by
            simp [tcpClose, htcp, hudp, c₀]
          apply shuts_of_eq
          rw [hclose, isEnabled_setEventUdpWrite_of_ne _ (by decide),
            isEnabled_onUdpSentBufferChanged _ _ (by decide), isEnabled_push, hbuild, hfake, hc₀]

theorem udpClose_shuts : c.Shuts c.udpClose := by
  cases hudp : c.udpConnected with
  | false =>
      apply shuts_of_eq
      simp [udpClose, hudp]
  | true =>
      have hdrop : c.dropUdp.isEnabled .close = c.isEnabled .close :=
        (c.dropUdp_frame).2.2 .close (by decide) (by decide) (by decide) (by decide) (by decide)
      rw [udpClose_eq c hudp]
      split
      · rename_i htcp
        refine fun _ => .inr ⟨?_, ?_⟩
        · rw [setTimeRelativeNow_toEndpoint, dropUdp_toEndpoint]
          simpa using htcp
        · rw [setTimeRelativeNow_toEndpoint, dropUdp_toEndpoint]
      · split
        · exact (tcpClose_shuts false).of_eq hdrop
        · exact shuts_of_eq hdrop

theorem closeIfUdpFinished_shuts : c.Shuts c.closeIfUdpFinished := by
  rcases c.closeIfUdpFinished_eq with ⟨-, heq⟩ | ⟨-, finished, heq⟩
  · rw [heq]
    exact shuts_of_eq rfl
  · rw [heq]
    exact udpClose_shuts (c := { c with finished := finished })

end Closing

section Handlers

theorem tcpWrite_shuts : c.Shuts c.tcpWrite := by
  have hloop := (c.tcpWriteLoop_frame false c.tcpWriteFuel).2.2.2 .close (by decide)
  simp only [tcpWrite]
  split
  · exact shuts_of_eq rfl
  · split
    · exact (tcpClose_shuts false).of_eq hloop
    · exact shuts_of_eq hloop

theorem udpWriteConfirmation_shuts (plannedTimeUs : Int) (packet : Packet) (packets : List Packet) :
    c.Shuts (c.udpWriteConfirmation plannedTimeUs packet packets) := by
  have hsent : ∀ d : Connection, ({ d.onUdpSentBufferChanged (-packet.getSize) with
      udpConfirmationPackets := packets } : Connection).isEnabled .close = d.isEnabled .close :=
    fun d => d.isEnabled_onUdpSentBufferChanged _ (by decide)
  simp only [udpWriteConfirmation]
  split
  · split
    · exact closeIfUdpFinished_shuts.of_eq (hsent _)
    · split
      · exact shuts_of_eq ((isEnabled_setTime_of_ne _ _ _ (by decide)).trans (hsent _))
      · exact shuts_of_eq (hsent _)
  · exact shuts_of_eq (isEnabled_setTime_of_ne _ _ _ (by decide))

theorem udpWrite_shuts (hsound : c.toEndpoint.Sound) (plannedTimeUs : Int) :
    c.Shuts (c.udpWrite plannedTimeUs) := by
  simp only [udpWrite]
  split
  · exact shuts_of_eq rfl
  · split
    · exact udpWriteConfirmation_shuts _ _ _
    · split
      · rename_i index packet hfirst
        have hconfirmed := hsound.sending.wellFormed.sent_unconfirmed index packet
          (c.firstUnsent_eq_some hfirst).1
        exact shuts_of_eq ((c.udpWritePacket_frame plannedTimeUs index packet hconfirmed).2.2 .close
          (by decide) (by decide))
      · exact shuts_of_eq rfl

theorem udpResend_shuts : c.Shuts c.udpResend := by
  simp only [udpResend]
  split
  · exact shuts_of_eq rfl
  · refine udpResendLoop_invariant c.nowUs (I := fun d => d.isEnabled .close = c.isEnabled .close)
      (fun _ => shuts_of_eq) (fun d index packet hd _ => ?_) (fun d laterUs hd => ?_)
      (fun d hd => udpClose_shuts.of_eq hd) _ rfl
    · rw [isEnabled_setEventUdpWrite_of_ne _ (by decide)]
      exact hd
    · rw [isEnabled_setTime_of_ne _ _ _ (by decide)]
      exact hd

/-- The handlers other than that of `eventClose`. -/
theorem handle_shuts (hsound : c.toEndpoint.Sound) {event : EventName} (hother : event ≠ .close)
    (plannedTimeUs : Int) : c.Shuts (c.handle event plannedTimeUs) := by
  cases event with
  | tcpRead => exact shuts_of_eq (c.tcpRead_frame.2.2 .close (by decide) (by decide) (by decide))
  | tcpWrite => exact tcpWrite_shuts
  | tcpClose => exact tcpClose_shuts _
  | udpWrite => exact udpWrite_shuts hsound plannedTimeUs
  | udpClose => exact udpClose_shuts
  | buildUdpPackets =>
      have hframe := (c.buildUdpPackets_frame true).2.2
      exact shuts_of_eq (hframe .close (by decide) (by decide) (by decide))
  | buildConfirmations =>
      exact shuts_of_eq (c.buildConfirmations_frame.2 .close (by decide) (by decide) (by decide))
  | buildByeBye =>
      exact shuts_of_eq (c.buildByeBye_frame.2 .close (by decide) (by decide) (by decide))
  | udpResend => exact udpResend_shuts
  | udpCloseWait => exact closeIfUdpFinished_shuts
  | close => exact absurd rfl hother

theorem udpRead_shuts (packet : Packet) : c.Shuts (c.udpRead packet) := by
  simp only [udpRead]
  split
  · exact shuts_of_eq rfl
  · apply closeIfUdpFinished_shuts.of_eq
    split
    · exact (c.udpReadConfirmation_frame packet).2 .close (by decide) (by decide) (by decide)
    · split
      · exact (c.udpReadPacket_frame packet).2.2.2 .close (by decide) (by decide) (by decide)
      · split
        · exact (c.udpReadByeBye_frame packet).2.2.2 .close (by decide) (by decide) (by decide)
        · rfl

end Handlers

/-- `eventClose` is set, and the connection deleted, only with both sides closed. -/
structure ClosesLast (c : Connection) : Prop where
  shut : c.isEnabled .close = true ∨ c.deleted = true → c.Shut
  deleted : c.deleted = true → c.isEnabled .close = false

variable {config : Config}

theorem closesLast_initial (h : Initial config c) : c.ClosesLast := by
  obtain ⟨intervalUs, summaryUs, io, rfl⟩ := h
  have henabled : (new config intervalUs summaryUs io).isEnabled .close = false :=
    isEnabled_new config intervalUs summaryUs io (by decide) (by decide) (by decide) (by decide)
  have hdeleted : (new config intervalUs summaryUs io).deleted = false := by
    simp [new]
  exact ⟨by simp [henabled, hdeleted], by simp [henabled]⟩

theorem shut_of_step {m : Move} (hm : c.step m = some d) (h : c.Shut) : d.Shut :=
  Runs.chain_invariant (I := fun e : Endpoint => e.Shut)
    (fun _ _ hx hxy => ⟨Protocol.tcpClosed_step hxy hx.1, (Protocol.udpClosed_step hxy hx.2).1⟩)
    (step_refines (N := fun _ => True) hm fun _ _ => trivial) h

theorem ClosesLast.step (hsound : c.toEndpoint.Sound) (h : c.ClosesLast) {m : Move}
    (hm : c.step m = some d) : d.ClosesLast := by
  have hnot := not_deleted_of_step hm
  have hopen : ∀ e : Connection, e.deleted = c.deleted → c.Shuts e → (c.Shut → e.Shut) →
      e.ClosesLast := by
    intro e hdeleted hshuts hkept
    rw [hnot] at hdeleted
    refine ⟨?_, by simp [hdeleted]⟩
    rintro (henabled | hgone)
    · exact (hshuts henabled).elim (fun hset => hkept (h.shut (.inl hset))) id
    · rw [hdeleted] at hgone
      cases hgone
  cases m with
  | «raise» event timeUs io =>
      have hkept := shut_of_step hm
      obtain ⟨-, henabled, -, rfl⟩ := of_step_raise hm
      by_cases hclose : event = .close
      · subst hclose
        exact ⟨fun _ => hkept (h.shut (.inl henabled)), fun _ => isEnabled_disable_self _ _⟩
      · let c₀ := ({ c with io := io } : Connection).disable event
        have hshuts : c₀.Shuts (c₀.handle event (c.events event).timeUs) :=
          handle_shuts (c := c₀) hsound hclose _
        exact hopen _ (handle_deleted c₀ hclose _)
          (hshuts.of_eq (isEnabled_disable_of_ne _ _ (Ne.symm hclose))) hkept
  | udpRead packet io =>
      have hkept := shut_of_step hm
      obtain ⟨-, rfl⟩ := of_step_udpRead hm
      exact hopen _ (udpRead_deleted _ _) ((udpRead_shuts packet.wire).of_eq rfl) hkept

theorem closesLast (h : Runs.Reachable (Initial config) Connection.step Runs.anyMove c) :
    c.ClosesLast := by
  induction h with
  | start hinit => exact closesLast_initial hinit
  | next hreach _ hm ih => exact ih.step (sound hreach) hm

/-- A connection waits for its deletion just when both sides are closed, and is deleted
only then. -/
theorem close_scheduled_iff (h : Runs.Reachable (Initial config) Connection.step Runs.anyMove c) :
    (c.isEnabled .close = true ↔
        c.tcpConnected = false ∧ c.udpConnected = false ∧ c.deleted = false) ∧
      (c.deleted = true → c.tcpConnected = false ∧ c.udpConnected = false) := by
  have hlast := closesLast h
  refine ⟨⟨fun henabled => ?_, fun hshut => ?_⟩, fun hdeleted => hlast.shut (.inr hdeleted)⟩
  · obtain ⟨htcp, hudp⟩ := hlast.shut (.inl henabled)
    refine ⟨htcp, hudp, ?_⟩
    cases hdeleted : c.deleted with
    | false => rfl
    | true =>
        rw [hlast.deleted hdeleted] at henabled
        cases henabled
  · exact awake_of_timed (.inr rfl) h hshut

/-- First TCP hangs up, then the listener goes away. -/
def shutRun : List Move :=
  [.raise .tcpClose 0 (Io.steady 0), .raise .udpClose 1 (Io.steady 1)]

theorem shutRun_isSome : (play Config.small shutRun).isSome = true := by
  decide +kernel

theorem close_scheduled_iff_shutRun :
    ((play Config.small shutRun).get shutRun_isSome).isEnabled .close = true :=
  (close_scheduled_iff (reachable_of_play (Option.some_get shutRun_isSome).symm)).1.mpr
    (by decide +kernel)

end Connection

end IceTunnel
