import IceTunnel.Evaluating
import IceTunnel.Ledger

namespace IceTunnel

namespace Connection

open MeasureWindow

variable (c : Connection)

def window : MeasureWindow :=
  c.toPacing.window

/-- The report of a Confirmation packet that names an index. -/
def confirmReport (index : Int) : List Report :=
  match c.udpSentPackets[index]? with
  | none => []
  | some packet =>
      if packet.confirmed then [] else [⟨true, packet.measureIndex, packet.getSize⟩]

/-- The reports of a Confirmation packet with these indices. -/
def confirmReports : List Int → Connection → List Report
  | [], _ => []
  | index :: indices, c => c.confirmReport index ++ confirmReports indices (c.confirmPacket index)

/-- The reports of `udpResend` over these keys, up to the one at which it closes. -/
def resendReports (timeUs : Int) : List Int → Connection → List Report
  | [], _ => []
  | index :: indices, c =>
      match c.udpSentPackets[index]? with
      | none => resendReports timeUs indices c
      | some packet =>
          if packet.sent then
            if packet.sentTimeUs + c.udpResendUs ≤ timeUs then
              if packet.remainResendCount > 0 then
                ⟨false, packet.measureIndex, packet.getSize⟩ ::
                  resendReports timeUs indices (udpResendLoop timeUs [index] c)
              else []
            else resendReports timeUs indices (udpResendLoop timeUs [index] c)
          else resendReports timeUs indices c

/-- The calls of `onUdpDelivered` of a move. -/
def reports : Move → List Report
  | .raise event _ io =>
      if event = .udpResend ∧ c.udpConnected = true then
        let c := ({ c with io := io } : Connection).disable .udpResend
        resendReports c.nowUs c.udpSentPackets.keys c.tick
      else []
  | .udpRead packet io =>
      if c.udpConnected = true ∧ packet.wire.getType = .confirmation then
        let c : Connection := { c with io := io }
        confirmReports (c.confirmedIndices packet.wire) c
      else []

section Parts

theorem window_congr {d : Connection} (h : d.ledger.toPacing.window = c.ledger.toPacing.window) :
    d.window = c.window := h

@[simp] theorem setTime_window (name : EventName) (timeUs : Int) :
    (c.setTime name timeUs).window = c.window := rfl

@[simp] theorem disable_window (name : EventName) : (c.disable name).window = c.window := rfl

@[simp] theorem tick_window : c.tick.window = c.window := rfl

@[simp] theorem setTimeRelativeNow_window (name : EventName) (timeUs : Int) :
    (c.setTimeRelativeNow name timeUs).window = c.window := rfl

@[simp] theorem push_window (type : PacketType) (payload : List UInt8) :
    (c.push type payload).window = c.window := rfl

@[simp] theorem onUdpSentBufferChanged_window (sizeIncrement : Int) :
    (c.onUdpSentBufferChanged sizeIncrement).window = c.window := by
  apply window_congr
  rw [onUdpSentBufferChanged_ledger]

@[simp] theorem setEventUdpWrite_window : c.setEventUdpWrite.window = c.window := by
  obtain ⟨timeUs, -, heq⟩ := c.setEventUdpWrite_ledger
  apply window_congr
  rw [heq]
  rfl

@[simp] theorem tcpWriteFake_window : c.tcpWriteFake.window = c.window := by
  apply window_congr
  rw [tcpWriteFake_ledger]

@[simp] theorem tcpWriteLoop_window (fake : Bool) (fuel : Nat) :
    (tcpWriteLoop fake fuel c).1.window = c.window := by
  apply window_congr
  rw [tcpWriteLoop_ledger]

end Parts

section Quiet

theorem buildUdpPacketsLoop_window (flush : Bool) (fuel : Nat) (rest : List UInt8) :
    (buildUdpPacketsLoop flush fuel rest c).1.window = c.window := by
  induction fuel generalizing rest c with
  | zero => rfl
  | succ fuel ih =>
      simp only [buildUdpPacketsLoop]
      split
      · rfl
      · split
        · rfl
        · simp only [ih, onUdpSentBufferChanged_window, setEventUdpWrite_window, push_window]

theorem buildReceivedData_window (flush : Bool) : (c.buildReceivedData flush).window = c.window := by
  have hloop := c.buildUdpPacketsLoop_window flush c.tcpReceivedData.length c.tcpReceivedData
  simp only [buildReceivedData]
  split <;> split <;> exact hloop

@[simp] theorem buildUdpPackets_window (flush : Bool) : (c.buildUdpPackets flush).window = c.window := by
  simp only [buildUdpPackets]
  split
  · rfl
  · split
    · exact buildReceivedData_window { c with tcpReceivedData := [] } flush
    · exact c.buildReceivedData_window flush

theorem tcpRead_window : c.tcpRead.window = c.window := by
  simp only [tcpRead]
  split
  · rfl
  · rw [onUdpSentBufferChanged_window]
    split
    · rfl
    · split
      · rw [buildUdpPackets_window]
        rfl
      · rfl

@[simp] theorem tcpClose_window (error : Bool) : (c.tcpClose error).window = c.window := by
  simp only [tcpClose]
  split
  · rfl
  · split
    · rfl
    · rw [setEventUdpWrite_window, onUdpSentBufferChanged_window, push_window, buildUdpPackets_window,
        tcpWriteFake_window]
      rfl

theorem tcpWrite_window : c.tcpWrite.window = c.window := by
  simp only [tcpWrite]
  split
  · rfl
  · split
    · rw [tcpClose_window, tcpWriteLoop_window]
    · rw [tcpWriteLoop_window]

@[simp] theorem udpClose_window : c.udpClose.window = c.window := by
  have hdrop : c.dropUdp.window = c.window := by
    apply window_congr
    rw [dropUdp_ledger]
  cases hudp : c.udpConnected with
  | false => simp only [udpClose, hudp, Bool.not_false, if_true]
  | true =>
      rw [udpClose_eq c hudp]
      split
      · exact hdrop
      · split
        · rw [tcpClose_window]
          exact hdrop
        · exact hdrop

@[simp] theorem closeIfUdpFinished_window : c.closeIfUdpFinished.window = c.window := by
  rcases c.closeIfUdpFinished_eq with ⟨-, heq⟩ | ⟨-, finished, heq⟩
  · rw [heq]
  · rw [heq, udpClose_window]
    rfl

theorem udpWriteConfirmation_window (plannedTimeUs : Int) (packet : Packet) (packets : List Packet) :
    (c.udpWriteConfirmation plannedTimeUs packet packets).window = c.window := by
  let d : Connection := { c with
    toSender := c.toSender.record (.writeto packet.wire), udpLastSentUs := plannedTimeUs }
  have hsent := d.onUdpSentBufferChanged_window (-packet.getSize)
  simp only [udpWriteConfirmation]
  split
  · split
    · rw [closeIfUdpFinished_window]
      exact hsent
    · split <;> exact hsent
  · rfl

@[simp] theorem dropConfirmations_window : c.dropConfirmations.window = c.window := by
  apply window_congr
  simp only [dropConfirmations, foldl_onUdpSentBufferChanged_ledger]
  rfl

@[simp] theorem foldl_pushConfirmation_window (payloads : List (List UInt8)) :
    (payloads.foldl pushConfirmation c).window = c.window := by
  induction payloads generalizing c with
  | nil => rfl
  | cons payload payloads ih =>
      rw [List.foldl_cons, ih, pushConfirmation, onUdpSentBufferChanged_window]
      rfl

theorem buildConfirmations_window : c.buildConfirmations.window = c.window := by
  have hqueue := c.dropConfirmations.foldl_pushConfirmation_window
    c.dropConfirmations.confirmationPayloads
  rw [dropConfirmations_window] at hqueue
  simp only [buildConfirmations]
  split
  · rfl
  · generalize c.dropConfirmations.confirmationPayloads.foldl pushConfirmation c.dropConfirmations = d
      at hqueue ⊢
    have hpace := setEventUdpWrite_window { d with udpConfirmedMasterIndex := d.udpReceivedMasterIndex }
    split <;> exact hpace.trans hqueue

theorem buildByeBye_window : c.buildByeBye.window = c.window := by
  let d : Connection := { c with
    udpConfirmationPackets := c.udpConfirmationPackets ++ [c.byeByePacket]
    toSender := c.toSender.record (.byeBye c.byeByePacket.wire c.udpSentPackets.keys) }
  have hpace : (d.onUdpSentBufferChanged c.byeByePacket.getSize).setEventUdpWrite.window = c.window := by
    rw [setEventUdpWrite_window, onUdpSentBufferChanged_window]
    rfl
  simp only [buildByeBye]
  split
  · rfl
  · split <;> exact hpace

theorem udpReadPacket_window (packet : Packet) : (c.udpReadPacket packet).window = c.window := by
  apply window_congr
  rw [udpReadPacket_ledger]

theorem udpReadByeBye_window (packet : Packet) : (c.udpReadByeBye packet).window = c.window := by
  have hdrop := dropConfirmations_window (({ c with
    remainConfirmationResendCount := 0
    toReceiver := c.toReceiver.record (.byeBye packet.wire) } : Connection).disable
      .buildConfirmations)
  simp only [udpReadByeBye]
  split <;> exact hdrop

end Quiet

section Reports

theorem onUdpDelivered_report (success : Bool) (packet : Packet) :
    c.window.onUdpDelivered ⟨success, packet.measureIndex, packet.getSize⟩ =
      some (c.onUdpDelivered success packet.measureIndex packet.getSize).window :=
  onUdpDelivered_window c.toPacing c.toConfig ⟨success, packet.measureIndex, packet.getSize⟩

theorem confirmPacket_window (index : Int) :
    (c.confirmReport index).foldlM MeasureWindow.onUdpDelivered c.window =
      some (c.confirmPacket index).window := by
  cases hpacket : c.udpSentPackets[index]? with
  | none =>
      simp only [confirmReport, confirmPacket, hpacket]
      rfl
  | some packet =>
      have hledger := c.confirmPacket_ledger hpacket
      cases hconfirmed : packet.confirmed with
      | true =>
          have hsame : (c.confirmPacket index).window = c.window := by
            apply window_congr
            rw [hledger, hconfirmed]
            rfl
          simp only [confirmReport, hpacket, hconfirmed, if_true, hsame]
          rfl
      | false =>
          have hreport : (c.confirmPacket index).window =
              (c.onUdpDelivered true packet.measureIndex packet.getSize).window := by
            apply window_congr
            rw [hledger, hconfirmed]
            rfl
          simp only [confirmReport, hpacket, hconfirmed, Bool.false_eq_true, if_false,
            List.foldlM_cons, onUdpDelivered_report, hreport]
          rfl

theorem foldl_confirmPacket_window (indices : List Int) :
    (confirmReports indices c).foldlM MeasureWindow.onUdpDelivered c.window =
      some (indices.foldl confirmPacket c).window := by
  induction indices generalizing c with
  | nil => rfl
  | cons index indices ih =>
      rw [confirmReports, List.foldlM_append, confirmPacket_window, List.foldl_cons, ← ih]
      rfl

theorem udpReadConfirmation_window (packet : Packet) :
    (confirmReports (c.confirmedIndices packet) c).foldlM MeasureWindow.onUdpDelivered c.window =
      some (c.udpReadConfirmation packet).window := by
  rw [foldl_confirmPacket_window, udpReadConfirmation_eq]
  simp only
  split <;> split <;> rfl

theorem udpResendLoop_window (timeUs : Int) (indices : List Int) :
    (resendReports timeUs indices c).foldlM MeasureWindow.onUdpDelivered c.window =
      some (udpResendLoop timeUs indices c).window := by
  induction indices generalizing c with
  | nil => rfl
  | cons index indices ih =>
      rcases c.udpResendLoop_cons timeUs index with
        ⟨hunsent, heq⟩ | ⟨packet, hpacket, hsent, ⟨htime, hremain, heq⟩ | ⟨htime, hremain, heq⟩ |
          ⟨htime, heq⟩⟩
      · have hreports : resendReports timeUs (index :: indices) c = resendReports timeUs indices c := by
          rw [resendReports]
          cases hpacket : c.udpSentPackets[index]? with
          | none => rfl
          | some packet => simp only [hunsent packet hpacket, Bool.false_eq_true, if_false]
        rw [hreports, heq]
        exact ih c
      · have hnext := heq []
        rw [udpResendLoop] at hnext
        have hlost := c.onUdpDelivered_report false packet
        simp only [resendReports, hpacket, hsent, htime, hremain, if_true, List.foldlM_cons, hlost,
          hnext, heq]
        have hrest := ih (c.markLost index packet).setEventUdpWrite
        rw [setEventUdpWrite_window] at hrest
        exact hrest
      · simp only [resendReports, hpacket, hsent, htime, hremain, if_true, if_false, heq,
          udpClose_window]
        rfl
      · have hnext := heq []
        rw [udpResendLoop] at hnext
        simp only [resendReports, hpacket, hsent, htime, if_true, if_false, hnext, heq]
        exact ih (c.setTime .udpResend (packet.sentTimeUs + c.udpResendUs))

theorem udpResend_window (hudp : c.udpConnected = true) :
    (resendReports c.nowUs c.udpSentPackets.keys c.tick).foldlM MeasureWindow.onUdpDelivered c.window =
      some c.udpResend.window := by
  simp only [udpResend, hudp, Bool.not_true, Bool.false_eq_true, if_false]
  exact c.tick.udpResendLoop_window c.nowUs c.udpSentPackets.keys

theorem udpRead_window (packet : Packet) (hudp : c.udpConnected = true) :
    (if packet.getType = .confirmation then confirmReports (c.confirmedIndices packet) c
      else []).foldlM MeasureWindow.onUdpDelivered c.window = some (c.udpRead packet).window := by
  simp only [udpRead, hudp, Bool.not_true, Bool.false_eq_true, if_false, closeIfUdpFinished_window]
  split
  · exact c.udpReadConfirmation_window packet
  · split
    · rw [udpReadPacket_window]
      rfl
    · split
      · rw [udpReadByeBye_window]
        rfl
      · rfl

end Reports

section Sent

theorem onUdpSent_window (intervalUs size : Int) :
    c.window.Sends (c.onUdpSent c.udpSendMeasureIndex intervalUs size).window := by
  refine ⟨c.toPacing, c.toConfig, intervalUs, size, c.nowUs, c.nowUs_nonneg, rfl, ?_⟩
  have hledger := c.onUdpSent_ledger c.udpSendMeasureIndex intervalUs size
  exact (congrArg (fun l : Ledger => l.toPacing.window) hledger).symm

theorem markSent_window (plannedTimeUs index : Int) (packet : Packet) :
    c.window.Sends (c.markSent plannedTimeUs index packet).window := by
  let d : Connection := { c.tick with
    udpSentPackets := c.udpSentPackets.insert index
      { packet with sent := true, sentTimeUs := c.nowUs, measureIndex := c.udpSendMeasureIndex }
    udpLastSentUs := plannedTimeUs }
  exact d.onUdpSent_window d.udpSendIntervalUs packet.getSize

theorem udpWritePacket_window (plannedTimeUs index : Int) (packet : Packet) :
    (c.udpWritePacket plannedTimeUs index packet).window = c.window ∨
      c.window.Sends (c.udpWritePacket plannedTimeUs index packet).window := by
  let d : Connection := { c with toSender := c.toSender.record (.writeto packet.wire) }
  have hsent : c.window.Sends (d.markSent plannedTimeUs index packet).window :=
    d.markSent_window plannedTimeUs index packet
  have herased : ((d.markSent plannedTimeUs index packet).eraseSent index packet).window =
      (d.markSent plannedTimeUs index packet).window := by
    apply window_congr
    rw [eraseSent_ledger]
  simp only [udpWritePacket]
  split
  · refine .inr ?_
    split
    · split
      · rw [closeIfUdpFinished_window]
        exact herased ▸ hsent
      · split <;> exact herased ▸ hsent
    · split <;> exact hsent
  · split <;> exact .inl rfl

theorem udpWrite_window (plannedTimeUs : Int) :
    (c.udpWrite plannedTimeUs).window = c.window ∨ c.window.Sends (c.udpWrite plannedTimeUs).window := by
  simp only [udpWrite]
  split
  · exact .inl rfl
  · split
    · exact .inl (c.udpWriteConfirmation_window plannedTimeUs _ _)
    · split
      · exact c.udpWritePacket_window plannedTimeUs _ _
      · exact .inl rfl

end Sent

theorem handle_window (event : EventName) (plannedTimeUs : Int)
    (hreports : ¬(event = .udpResend ∧ c.udpConnected = true)) :
    (c.handle event plannedTimeUs).window = c.window ∨
      c.window.Sends (c.handle event plannedTimeUs).window := by
  cases event with
  | tcpRead => exact .inl c.tcpRead_window
  | tcpWrite => exact .inl c.tcpWrite_window
  | tcpClose => exact .inl (c.tcpClose_window c.io.tcpWasError)
  | udpWrite => exact c.udpWrite_window plannedTimeUs
  | udpClose => exact .inl c.udpClose_window
  | buildUdpPackets => exact .inl (c.buildUdpPackets_window true)
  | buildConfirmations => exact .inl c.buildConfirmations_window
  | buildByeBye => exact .inl c.buildByeBye_window
  | udpResend =>
      have hudp : c.udpConnected = false := by
        rw [← Bool.not_eq_true]
        exact fun hopen => hreports ⟨rfl, hopen⟩
      simp only [handle, udpResend, hudp, Bool.not_false, if_true, true_or]
  | udpCloseWait => exact .inl c.closeIfUdpFinished_window
  | close => exact .inl rfl

theorem step_window {c d : Connection} {m : Move} (h : c.step m = some d) :
    ∃ w, (c.reports m).foldlM MeasureWindow.onUdpDelivered c.window = some w ∧
      (d.window = w ∨ w.Sends d.window) := by
  cases m with
  | udpRead packet io =>
      obtain ⟨-, rfl⟩ := of_step_udpRead h
      let c' : Connection := { c with io := io }
      refine ⟨(c'.udpRead packet.wire).window, ?_, .inl rfl⟩
      cases hudp : c.udpConnected with
      | true =>
          have hread := c'.udpRead_window packet.wire hudp
          simp only [reports, hudp, true_and]
          exact hread
      | false =>
          have hsame : c'.udpRead packet.wire = c' := by
            simp only [udpRead, c', hudp, Bool.not_false, if_true]
          rw [hsame]
          simp only [reports, hudp, Bool.false_eq_true, false_and, if_false]
          rfl
  | «raise» event timeUs io =>
      obtain ⟨-, -, -, rfl⟩ := of_step_raise h
      let c' : Connection := ({ c with io := io } : Connection).disable event
      by_cases hreports : event = .udpResend ∧ c.udpConnected = true
      · obtain ⟨rfl, hudp⟩ := hreports
        refine ⟨c'.udpResend.window, ?_, .inl rfl⟩
        simp only [reports, hudp, and_self, if_true]
        exact c'.udpResend_window hudp
      · have hnone : c.reports (.raise event timeUs io) = [] := if_neg hreports
        rw [hnone]
        exact ⟨c.window, rfl, c'.handle_window event _ hreports⟩

end Connection

/-- A connection, and the measures that have been evaluated, in turn. -/
structure Observed where
  connection : Connection
  evaluated : List Int

namespace Observed

open Connection

def step (o : Observed) (m : Move) : Option Observed :=
  (o.connection.step m).map fun c =>
    { connection := c
      evaluated := o.evaluated ++
        MeasureWindow.evaluations (o.connection.reports m) o.connection.window }

def Initial (config : Config) (o : Observed) : Prop :=
  Connection.Initial config o.connection ∧ o.evaluated = []

variable {config : Config} {o : Observed}

theorem exists_observed {c : Connection}
    (h : Runs.Reachable (Connection.Initial config) Connection.step Runs.anyMove c) :
    ∃ evaluated, Runs.Reachable (Initial config) step Runs.anyMove ⟨c, evaluated⟩ := by
  induction h with
  | start hc => exact ⟨[], .start ⟨hc, rfl⟩⟩
  | @next c d m _ _ hm ih =>
      obtain ⟨evaluated, hobserved⟩ := ih
      have hnext : step ⟨c, evaluated⟩ m = some
          ⟨d, evaluated ++ MeasureWindow.evaluations (c.reports m) c.window⟩ := by
        rw [step, hm, Option.map_some]
      exact ⟨_, hobserved.next trivial hnext⟩

theorem sound_initial (h : Initial config o) : o.connection.window.Sound o.evaluated := by
  obtain ⟨⟨intervalUs, summaryUs, io, hnew⟩, hempty⟩ := h
  have hwindow : o.connection.window =
      { udpSendMeasureIndex := 0
        udpSendMeasures := (∅ : Std.ExtTreeMap Int Measure).insert 0 { beginUs := io.nowUs.head } } := by
    rw [hnew]
    exact congrArg (fun l : Ledger => l.toPacing.window) (new_ledger config intervalUs summaryUs io)
  rw [hwindow, hempty]
  refine ⟨⟨⟨_, Std.ExtTreeMap.getElem?_insert_self, rfl, le_refl 0⟩, fun i m hm hi => ?_⟩,
    fun k hk => (List.not_mem_nil hk).elim, List.nodup_nil⟩
  rw [Std.ExtTreeMap.getElem?_insert, if_neg (by simpa using Ne.symm hi),
    Std.ExtTreeMap.getElem?_empty] at hm
  cases hm

theorem sound_step {d : Observed} {m : Move} (h : o.connection.window.Sound o.evaluated)
    (hstep : o.step m = some d) : d.connection.window.Sound d.evaluated := by
  obtain ⟨c, hc, rfl⟩ := Option.map_eq_some_iff.mp hstep
  obtain ⟨w, hw, hsound⟩ := h.reports (o.connection.reports m)
  obtain ⟨w', hw', hlast⟩ := step_window hc
  obtain rfl := Option.some.inj (hw.symm.trans hw')
  rcases hlast with heq | hsends
  · simp only [heq]
    exact hsound
  · exact hsound.sends hsends

theorem sound (h : Runs.Reachable (Initial config) step Runs.anyMove o) :
    o.connection.window.Sound o.evaluated :=
  h.invariant (I := fun o => o.connection.window.Sound o.evaluated) (fun _ ho => sound_initial ho)
    fun _ _ _ ho _ hm => sound_step ho hm

/-- Ten bytes are sent and confirmed while the clock goes back. -/
def evaluatedMoves : List Move :=
  [.raise .udpWrite 8 (Io.steady 8),
    .raise .tcpRead 9 { Io.steady 9 with tcpBytes := List.replicate 10 7 },
    .raise .udpWrite 20 (Io.steady 6),
    .udpRead (.datagram .confirmation 2 []) (Io.steady 4)]

end Observed

end IceTunnel
