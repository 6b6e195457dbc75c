import IceTunnel.Refinement

namespace IceTunnel.Connection

variable (c : Connection)

section TcpWrite

variable (fake : Bool) (fuel : Nat)

theorem tcpWriteData_toEndpoint (packet : Packet) :
    ∃ r : Receiver, (c.tcpWriteData packet).toEndpoint = { c.toEndpoint with toReceiver := r } ∧
      r.udpReceivedMasterIndex = c.udpReceivedMasterIndex ∧
      r.udpReceivedFinalIndex = c.udpReceivedFinalIndex ∧
      r.udpConfirmedMasterIndex = c.udpConfirmedMasterIndex ∧
      c.tcpNextSendIndex ≤ r.tcpNextSendIndex := by
  simp only [tcpWriteData]
  generalize min c.io.tcpAccepted packet.getData.length = size
  by_cases hsize : size > 0
  · have hle := c.toReceiver.write_tcpNextSendIndex packet size
    simp only [if_pos hsize]
    split <;> exact ⟨c.toReceiver.write packet size, rfl, by simp, by simp, by simp, by omega⟩
  · simp only [if_neg hsize]
    split <;> exact ⟨c.toReceiver, rfl, rfl, rfl, rfl, le_refl _⟩

theorem tcpWriteData_frame (packet : Packet) :
    (c.tcpWriteData packet).toCountdown = c.toCountdown ∧
      (c.tcpWriteData packet).toPacing = c.toPacing ∧
      (c.tcpWriteData packet).deleted = c.deleted ∧
      ∀ name, name ≠ .tcpWrite → (c.tcpWriteData packet).isEnabled name = c.isEnabled name := by
  simp only [tcpWriteData]
  by_cases hsize : min c.io.tcpAccepted packet.getData.length > 0
  · simp only [if_pos hsize]
    split
    · exact ⟨rfl, rfl, rfl, fun name hname => isEnabled_setTimeRelativeNow_of_ne _ _ _ hname⟩
    · exact ⟨rfl, rfl, rfl, fun _ _ => rfl⟩
  · simp only [if_neg hsize]
    split
    · exact ⟨rfl, rfl, rfl, fun name hname => isEnabled_setTimeRelativeNow_of_ne _ _ _ hname⟩
    · exact ⟨rfl, rfl, rfl, fun _ _ => rfl⟩

/-- The loop of `tcpWrite` changes the receiving half, and no index but
`tcpNextSendIndex`. -/
theorem tcpWriteLoop_toEndpoint :
    ∃ r : Receiver, (tcpWriteLoop fake fuel c).1.toEndpoint = { c.toEndpoint with toReceiver := r } ∧
      r.udpReceivedMasterIndex = c.udpReceivedMasterIndex ∧
      r.udpReceivedFinalIndex = c.udpReceivedFinalIndex ∧
      r.udpConfirmedMasterIndex = c.udpConfirmedMasterIndex ∧
      c.tcpNextSendIndex ≤ r.tcpNextSendIndex := by
  induction fuel generalizing c with
  | zero => exact ⟨c.toReceiver, rfl, rfl, rfl, rfl, le_refl _⟩
  | succ fuel ih =>
      simp only [tcpWriteLoop]
      split
      · split
        · exact ⟨c.toReceiver, rfl, rfl, rfl, rfl, le_refl _⟩
        · rename_i packet hpacket
          split
          · split
            · exact ⟨c.toReceiver.skip packet fake, rfl, by simp, by simp, by simp, by simp⟩
            · obtain ⟨r, hr, hmaster, hfinal, hconfirmed, hle⟩ :=
                ih { c with toReceiver := c.toReceiver.skip packet fake }
              refine ⟨r, hr, by simpa using hmaster, by simpa using hfinal,
                by simpa using hconfirmed, ?_⟩
              simp only [Receiver.skip_tcpNextSendIndex] at hle
              omega
          · exact c.tcpWriteData_toEndpoint packet
      · exact ⟨c.toReceiver, rfl, rfl, rfl, rfl, le_refl _⟩

theorem tcpWriteLoop_frame :
    (tcpWriteLoop fake fuel c).1.toCountdown = c.toCountdown ∧
      (tcpWriteLoop fake fuel c).1.toPacing = c.toPacing ∧
      (tcpWriteLoop fake fuel c).1.deleted = c.deleted ∧
      ∀ name, name ≠ .tcpWrite →
        (tcpWriteLoop fake fuel c).1.isEnabled name = c.isEnabled name := by
  induction fuel generalizing c with
  | zero => exact ⟨rfl, rfl, rfl, fun _ _ => rfl⟩
  | succ fuel ih =>
      simp only [tcpWriteLoop]
      split
      · split
        · exact ⟨rfl, rfl, rfl, fun _ _ => rfl⟩
        · rename_i packet hpacket
          split
          · split
            · exact ⟨rfl, rfl, rfl, fun _ _ => rfl⟩
            · exact ih { c with toReceiver := c.toReceiver.skip packet fake }
          · exact c.tcpWriteData_frame packet
      · exact ⟨rfl, rfl, rfl, fun _ _ => rfl⟩

theorem tcpWriteLoop_fake_isEnabled (name : EventName) :
    (tcpWriteLoop true fuel c).1.isEnabled name = c.isEnabled name := by
  induction fuel generalizing c with
  | zero => rfl
  | succ fuel ih =>
      simp only [tcpWriteLoop, Bool.true_or, if_true, Bool.not_true, Bool.false_and,
        Bool.false_eq_true, if_false]
      split
      · split
        · rfl
        · exact ih _
      · rfl

theorem tcpWriteFake_frame :
    c.tcpWriteFake.toCountdown = c.toCountdown ∧ c.tcpWriteFake.toPacing = c.toPacing ∧
      c.tcpWriteFake.deleted = c.deleted ∧
      ∀ name, c.tcpWriteFake.isEnabled name = c.isEnabled name := by
  simp only [tcpWriteFake]
  split
  · exact ⟨rfl, rfl, rfl, fun _ => rfl⟩
  · obtain ⟨hcountdown, hpacing, hdeleted, -⟩ := c.tcpWriteLoop_frame true c.tcpWriteFuel
    exact ⟨hcountdown, hpacing, hdeleted, c.tcpWriteLoop_fake_isEnabled _⟩

end TcpWrite

section BuildUdpPackets

variable (flush : Bool)

theorem buildUdpPacketsLoop_frame (fuel : Nat) (rest : List UInt8) :
    (buildUdpPacketsLoop flush fuel rest c).1.toCountdown = c.toCountdown ∧
      (buildUdpPacketsLoop flush fuel rest c).1.deleted = c.deleted ∧
      ∀ name, name ≠ .udpWrite → name ≠ .tcpRead →
        (buildUdpPacketsLoop flush fuel rest c).1.isEnabled name = c.isEnabled name := by
  induction fuel generalizing rest c with
  | zero => exact ⟨rfl, rfl, fun _ _ _ => rfl⟩
  | succ fuel ih =>
      simp only [buildUdpPacketsLoop]
      split
      · exact ⟨rfl, rfl, fun _ _ _ => rfl⟩
      · split
        · exact ⟨rfl, rfl, fun _ _ _ => rfl⟩
        · generalize (min (rest.length : Int) c.udpSendPacketSize).toNat = n
          obtain ⟨hcountdown, hdeleted, hevents⟩ := ih (((c.push .data
            (rest.take n)).setEventUdpWrite).onUdpSentBufferChanged (rest.take n).length)
            (rest.drop n)
          refine ⟨by simpa using hcountdown, by simpa using hdeleted, fun name hudp htcp => ?_⟩
          simpa [hudp, htcp] using hevents name hudp htcp

theorem buildReceivedData_frame :
    (c.buildReceivedData flush).toCountdown = c.toCountdown ∧
      (c.buildReceivedData flush).deleted = c.deleted ∧
      ∀ name, name ≠ .udpWrite → name ≠ .tcpRead → name ≠ .buildUdpPackets →
        (c.buildReceivedData flush).isEnabled name = c.isEnabled name := by
  obtain ⟨hcountdown, hdeleted, hevents⟩ := c.buildUdpPacketsLoop_frame flush
    c.tcpReceivedData.length c.tcpReceivedData
  have hrest : ∀ (d : Connection) (rest : List UInt8) (name : EventName),
      ({ d with tcpReceivedData := rest } : Connection).isEnabled name = d.isEnabled name :=
    fun _ _ _ => rfl
  simp only [buildReceivedData]
  split <;> split
  all_goals
    refine ⟨by simpa using hcountdown, by simpa using hdeleted, fun name hudp htcp hbuild => ?_⟩
    simpa [hbuild, hrest] using hevents name hudp htcp

theorem buildUdpPackets_frame :
    (c.buildUdpPackets flush).toCountdown = c.toCountdown ∧
      (c.buildUdpPackets flush).deleted = c.deleted ∧
      ∀ name, name ≠ .udpWrite → name ≠ .tcpRead → name ≠ .buildUdpPackets →
        (c.buildUdpPackets flush).isEnabled name = c.isEnabled name := by
  simp only [buildUdpPackets]
  split
  · exact ⟨rfl, rfl, fun _ _ _ _ => rfl⟩
  · split
    · exact buildReceivedData_frame { c with tcpReceivedData := [] } flush
    · exact c.buildReceivedData_frame flush

theorem buildReceivedData_nil (hdata : c.tcpReceivedData = []) :
    (c.buildReceivedData flush).toEndpoint = c.toEndpoint := by
  simp only [buildReceivedData, buildUdpPacketsLoop, hdata, List.length_nil, or_true, if_true,
    disable_toEndpoint]
  rw [← hdata]

theorem buildUdpPackets_nil (hdata : c.tcpReceivedData = []) :
    (c.buildUdpPackets flush).toEndpoint = c.toEndpoint := by
  simp only [buildUdpPackets]
  split
  · rfl
  · split
    · rw [buildReceivedData_nil { c with tcpReceivedData := [] } flush rfl, ← hdata]
    · exact c.buildReceivedData_nil flush hdata

theorem buildUdpPackets_final (hudp : c.udpConnected = true)
    (hfinal : c.udpReceivedFinalIndex = c.udpReceivedMasterIndex) :
    (c.buildUdpPackets flush).toEndpoint = { c.toEndpoint with tcpReceivedData := [] } := by
  simp only [buildUdpPackets, hudp, Bool.not_true, Bool.false_eq_true, if_false, hfinal, if_true]
  exact buildReceivedData_nil { c with tcpReceivedData := [] } flush rfl

theorem buildUdpPackets_toEndpoint :
    ∃ s : Sender, (c.buildUdpPackets flush).toEndpoint = { c.toEndpoint with toSender := s } := by
  obtain ⟨s, hs, -⟩ := c.buildUdpPackets_steps (N := fun _ => True) flush
  exact ⟨s, hs⟩

theorem buildUdpPackets_byeByes : (c.buildUdpPackets flush).byeByes = c.byeByes := by
  have hloop : ∀ (fuel : Nat) (rest : List UInt8) (c : Connection),
      (buildUdpPacketsLoop flush fuel rest c).1.byeByes = c.byeByes := by
    intro fuel
    induction fuel with
    | zero => exact fun _ _ => rfl
    | succ fuel ih =>
        intro rest c
        simp only [buildUdpPacketsLoop]
        split
        · rfl
        · split
          · rfl
          · rw [ih]
            simp
  have hbuild : ∀ c : Connection, (c.buildReceivedData flush).byeByes = c.byeByes := by
    intro c
    refine Eq.trans ?_ (hloop c.tcpReceivedData.length c.tcpReceivedData c)
    simp only [buildReceivedData]
    split <;> split <;> rfl
  simp only [buildUdpPackets]
  split
  · rfl
  · split
    · exact hbuild _
    · exact hbuild c

end BuildUdpPackets

theorem tcpRead_toEndpoint :
    ∃ s : Sender, c.tcpRead.toEndpoint = { c.toEndpoint with toSender := s } := by
  simp only [tcpRead]
  split
  · exact ⟨c.toSender, rfl⟩
  · simp only [onUdpSentBufferChanged_toEndpoint]
    split
    · exact ⟨c.toSender, rfl⟩
    · split
      · obtain ⟨s, hs⟩ := buildUdpPackets_toEndpoint { c with toSender :=
          { c.toSender.record (.read (c.io.tcpBytes.take c.udpSendPacketSize.toNat)) with
            tcpReceivedData :=
              c.tcpReceivedData ++ c.io.tcpBytes.take c.udpSendPacketSize.toNat } } false
        exact ⟨s, hs⟩
      · exact ⟨_, rfl⟩

section Closing

theorem tcpClose_frame (error : Bool) :
    (c.tcpClose error).toCountdown = c.toCountdown ∧
      (c.tcpClose error).deleted = c.deleted ∧
      ∀ name, name ≠ .tcpRead → name ≠ .tcpWrite → name ≠ .udpWrite → name ≠ .buildUdpPackets →
        name ≠ .close → (c.tcpClose error).isEnabled name = c.isEnabled name := by
  simp only [tcpClose]
  split
  · exact ⟨rfl, rfl, fun _ _ _ _ _ _ => rfl⟩
  · let c₀ := ({ c with tcpConnected := false }.disable .tcpRead).disable .tcpWrite
    have hc₀ : ∀ name, name ≠ .tcpRead → name ≠ .tcpWrite → c₀.isEnabled name = c.isEnabled name := by
      intro name htcpRead htcpWrite
      rw [isEnabled_disable_of_ne _ _ htcpWrite, isEnabled_disable_of_ne _ _ htcpRead]
      rfl
    split
    · refine ⟨rfl, rfl, fun name htcpRead htcpWrite _ _ hclose => ?_⟩
      rw [isEnabled_setTimeRelativeNow_of_ne _ _ _ hclose]
      exact hc₀ name htcpRead htcpWrite
    · obtain ⟨hcountdownF, -, hdeletedF, heventsF⟩ := c₀.tcpWriteFake_frame
      obtain ⟨hcountdownB, hdeletedB, heventsB⟩ := c₀.tcpWriteFake.buildUdpPackets_frame true
      simp only [setEventUdpWrite_toCountdown, onUdpSentBufferChanged_toCountdown, push_toCountdown,
        setEventUdpWrite_deleted, onUdpSentBufferChanged_deleted, push_deleted]
      refine ⟨hcountdownB.trans hcountdownF, hdeletedB.trans hdeletedF,
        fun name htcpRead htcpWrite hudpWrite hbuild _ => ?_⟩
      rw [isEnabled_setEventUdpWrite_of_ne _ hudpWrite, isEnabled_onUdpSentBufferChanged _ _ htcpRead,
        isEnabled_push, heventsB name hudpWrite htcpRead hbuild, heventsF name]
      exact hc₀ name htcpRead htcpWrite

theorem tcpClose_ends (error : Bool) :
    (c.tcpClose error).tcpConnected = false ∧ (c.tcpClose error).udpConnected = c.udpConnected := by
  cases htcp : c.tcpConnected with
  | false => simp [tcpClose, htcp]
  | true =>
      cases hudp : c.udpConnected with
      | false => simp [tcpClose, htcp, hudp]
      | true =>
          obtain ⟨s, r, hend, -⟩ := c.tcpClose_toEndpoint (N := fun _ => True) error htcp hudp
          simp [hend, hudp]

theorem tcpClose_byeByes (error : Bool) : (c.tcpClose error).byeByes = c.byeByes := by
  simp only [tcpClose]
  split
  · rfl
  · split
    · rfl
    · obtain ⟨r, hr, -⟩ := tcpWriteFake_steps (N := fun _ => True)
        (({ c with tcpConnected := false }.disable .tcpRead).disable .tcpWrite)
      simp [buildUdpPackets_byeByes, hr]

theorem tcpClose_toEndpoint_of_udpClosed (error : Bool) (hudp : c.udpConnected = false) :
    (c.tcpClose error).toEndpoint = { c.toEndpoint with tcpConnected := false } := by
  cases htcp : c.tcpConnected with
  | false =>
      simp only [tcpClose, htcp, Bool.not_false, if_true]
      rw [← htcp]
  | true => simp [tcpClose, htcp, hudp]

theorem isEnabled_close_tcpClose (error : Bool) (htcp : c.tcpConnected = true)
    (hudp : c.udpConnected = false) : (c.tcpClose error).isEnabled .close = true := by
  simp only [tcpClose, htcp, hudp, Bool.not_true, Bool.not_false, Bool.false_eq_true, if_false,
    if_true, disable_toEndpoint]
  exact isEnabled_setTimeRelativeNow_self _ _ _ (le_refl 0)

/-- What `udpClose` does before it looks at the TCP side. -/
def dropUdp : Connection :=
  let c := { c with udpConnected := false }
  let c := (((c.disable .buildUdpPackets).disable .buildConfirmations).disable .udpResend)
  let c := (c.disable .tcpRead).disable .udpWrite
  let c := { c with tcpReceivedData := [], udpConfirmationPackets := [], udpSentPackets := ∅ }
  c.onUdpSentBufferChanged (-c.udpSentBufferSize).toInt

theorem dropUdp_toEndpoint : c.dropUdp.toEndpoint = { c.toEndpoint with
    udpConnected := false
    tcpReceivedData := []
    udpConfirmationPackets := []
    udpSentPackets := ∅ } := by
  simp [dropUdp]

theorem dropUdp_frame :
    c.dropUdp.toCountdown = c.toCountdown ∧ c.dropUdp.deleted = c.deleted ∧
      ∀ name, name ≠ .tcpRead → name ≠ .udpWrite → name ≠ .buildUdpPackets →
        name ≠ .buildConfirmations → name ≠ .udpResend →
        c.dropUdp.isEnabled name = c.isEnabled name := by
  refine ⟨by simp [dropUdp], by simp [dropUdp],
    fun name htcp hudp hbuild hconfirm hresend => ?_⟩
  simp only [dropUdp]
  rw [isEnabled_onUdpSentBufferChanged _ _ htcp]
  change ((((((({ c with udpConnected := false } : Connection).disable .buildUdpPackets).disable
    .buildConfirmations).disable .udpResend).disable .tcpRead).disable .udpWrite).isEnabled name) = _
  rw [isEnabled_disable_of_ne _ _ hudp, isEnabled_disable_of_ne _ _ htcp,
    isEnabled_disable_of_ne _ _ hresend, isEnabled_disable_of_ne _ _ hconfirm,
    isEnabled_disable_of_ne _ _ hbuild]
  rfl

theorem udpClose_eq (hudp : c.udpConnected = true) :
    c.udpClose =
      if !c.tcpConnected then c.dropUdp.setTimeRelativeNow .close 0
      else if c.tcpNextSendIndex ≥ c.udpReceivedMasterIndex then c.dropUdp.tcpClose false
      else c.dropUdp := by
  have hend := c.dropUdp_toEndpoint
  have htcp : c.dropUdp.tcpConnected = c.tcpConnected := by rw [hend]
  have hnext : c.dropUdp.tcpNextSendIndex = c.tcpNextSendIndex := by rw [hend]
  have hmaster : c.dropUdp.udpReceivedMasterIndex = c.udpReceivedMasterIndex := by rw [hend]
  have hdef : c.udpClose =
      if !c.dropUdp.tcpConnected then c.dropUdp.setTimeRelativeNow .close 0
      else if c.dropUdp.tcpNextSendIndex ≥ c.dropUdp.udpReceivedMasterIndex then
        c.dropUdp.tcpClose false
      else c.dropUdp := by
    simp only [udpClose, hudp, Bool.not_true, Bool.false_eq_true, if_false]
    rfl
  rw [hdef, htcp, hnext, hmaster]

theorem udpClose_toEndpoint (hudp : c.udpConnected = true) :
    c.udpClose.toEndpoint = { c.toEndpoint with
      tcpConnected := c.tcpConnected && decide (c.tcpNextSendIndex < c.udpReceivedMasterIndex)
      udpConnected := false
      tcpReceivedData := []
      udpConfirmationPackets := []
      udpSentPackets := ∅ } := by
  have hend := c.dropUdp_toEndpoint
  rw [udpClose_eq c hudp]
  cases htcp : c.tcpConnected with
  | false => simp [hend, htcp]
  | true =>
      by_cases hnext : c.tcpNextSendIndex < c.udpReceivedMasterIndex
      · simp [hnext, not_le.mpr hnext, hend, htcp]
      · have hclose := c.dropUdp.tcpClose_toEndpoint_of_udpClosed false (by rw [hend])
        simp [hnext, not_lt.mp hnext, hclose, hend]

theorem udpClose_frame :
    c.udpClose.toCountdown = c.toCountdown ∧ c.udpClose.deleted = c.deleted ∧
      ∀ name, name ≠ .tcpRead → name ≠ .tcpWrite → name ≠ .udpWrite → name ≠ .buildUdpPackets →
        name ≠ .buildConfirmations → name ≠ .udpResend → name ≠ .close →
        c.udpClose.isEnabled name = c.isEnabled name := by
  cases hudp : c.udpConnected with
  | false => simp [udpClose, hudp]
  | true =>
      obtain ⟨hcountdown, hdeleted, hevents⟩ := c.dropUdp_frame
      obtain ⟨hcountdownC, hdeletedC, heventsC⟩ := c.dropUdp.tcpClose_frame false
      rw [udpClose_eq c hudp]
      split
      · refine ⟨hcountdown, hdeleted, fun name h₁ _ h₃ h₄ h₅ h₆ h₇ => ?_⟩
        rw [isEnabled_setTimeRelativeNow_of_ne _ _ _ h₇]
        exact hevents name h₁ h₃ h₄ h₅ h₆
      · split
        · refine ⟨hcountdownC.trans hcountdown, hdeletedC.trans hdeleted,
            fun name h₁ h₂ h₃ h₄ h₅ h₆ h₇ => ?_⟩
          rw [heventsC name h₁ h₂ h₃ h₄ h₇]
          exact hevents name h₁ h₃ h₄ h₅ h₆
        · exact ⟨hcountdown, hdeleted, fun name h₁ _ h₃ h₄ h₅ h₆ _ => hevents name h₁ h₃ h₄ h₅ h₆⟩

theorem isEnabled_close_udpClose (hudp : c.udpConnected = true)
    (htcp : c.udpClose.tcpConnected = false) : c.udpClose.isEnabled .close = true := by
  rw [udpClose_toEndpoint c hudp] at htcp
  rw [udpClose_eq c hudp]
  split
  · exact isEnabled_setTimeRelativeNow_self _ _ _ (le_refl 0)
  · rename_i hopen
    simp only [Bool.not_eq_true', Bool.not_eq_false] at hopen
    simp only [hopen, Bool.true_and, decide_eq_false_iff_not, not_lt] at htcp
    rw [if_pos htcp]
    exact isEnabled_close_tcpClose _ _ (by rw [dropUdp_toEndpoint, hopen]) (by rw [dropUdp_toEndpoint])

theorem isUdpFinished_iff (hudp : c.udpConnected = true) :
    c.isUdpFinished = true ↔ c.Finishable ∧ c.remainConfirmationResendCount ≤ 0 ∧
      c.remainByeByeResendCount ≤ 0 ∧ c.isEnabled .udpCloseWait = false := by
  simp only [isUdpFinished, hudp, Bool.not_true, Bool.false_eq_true, if_false, Bool.and_eq_true,
    decide_eq_true_eq, List.isEmpty_iff, Bool.not_eq_true', Session.Finishable, ge_iff_le, and_assoc]
  rfl

theorem closeIfUdpFinished_eq :
    (c.isUdpFinished = false ∧ c.closeIfUdpFinished = c) ∨
      (c.isUdpFinished = true ∧ ∃ finished : Option Session,
        c.closeIfUdpFinished = { c with finished := finished }.udpClose) := by
  simp only [closeIfUdpFinished]
  split
  · rename_i hfinished
    exact .inr ⟨hfinished, _, rfl⟩
  · rename_i hfinished
    exact .inl ⟨by simpa using hfinished, rfl⟩

theorem udpClose_udpConnected : c.udpClose.udpConnected = false := by
  cases hudp : c.udpConnected with
  | false => simp [udpClose, hudp]
  | true => rw [udpClose_toEndpoint c hudp]

/-- The UDP side is down as `udpClose` leaves it. -/
def UdpClosed (d : Connection) : Prop :=
  d.udpConnected = false → ∃ e : Connection, e.udpConnected = true ∧ d = e.udpClose

theorem udpClosed_of_open {d : Connection} (h : d.udpConnected = true) : d.UdpClosed := by
  intro hclosed
  rw [h] at hclosed
  cases hclosed

theorem closeIfUdpFinished_udpClosed (hudp : c.udpConnected = true) :
    c.closeIfUdpFinished.UdpClosed := by
  rcases c.closeIfUdpFinished_eq with ⟨-, heq⟩ | ⟨-, finished, heq⟩
  · rw [heq]
    exact udpClosed_of_open hudp
  · exact fun _ => ⟨{ c with finished := finished }, hudp, heq⟩

theorem isEnabled_buildConfirmations_udpClose (hudp : c.udpConnected = true) :
    c.udpClose.isEnabled .buildConfirmations = false := by
  have hdropped : c.dropUdp.isEnabled .buildConfirmations = false := by
    simp only [dropUdp]
    rw [isEnabled_onUdpSentBufferChanged _ _ (by decide : EventName.buildConfirmations ≠ .tcpRead)]
    change (((((({ c with udpConnected := false } : Connection).disable .buildUdpPackets).disable
      .buildConfirmations).disable .udpResend).disable .tcpRead).disable .udpWrite).isEnabled
        .buildConfirmations = false
    rw [isEnabled_disable_of_ne _ _ (by decide), isEnabled_disable_of_ne _ _ (by decide),
      isEnabled_disable_of_ne _ _ (by decide)]
    exact isEnabled_disable_self _ _
  rw [udpClose_eq c hudp]
  split
  · rw [isEnabled_setTimeRelativeNow_of_ne _ _ _ (by decide)]
    exact hdropped
  · split
    · have hevents := (c.dropUdp.tcpClose_frame false).2.2 .buildConfirmations
      exact (hevents nofun nofun nofun nofun nofun).trans hdropped
    · exact hdropped

theorem udpClose_sendHistory : c.udpClose.sendHistory = c.sendHistory := by
  cases hudp : c.udpConnected with
  | false => simp [udpClose, hudp]
  | true => rw [udpClose_toEndpoint c hudp]

theorem closeIfUdpFinished_frame :
    c.closeIfUdpFinished.toCountdown = c.toCountdown ∧
      c.closeIfUdpFinished.deleted = c.deleted ∧
      ∀ name, name ≠ .tcpRead → name ≠ .tcpWrite → name ≠ .udpWrite → name ≠ .buildUdpPackets →
        name ≠ .buildConfirmations → name ≠ .udpResend → name ≠ .close →
        c.closeIfUdpFinished.isEnabled name = c.isEnabled name := by
  rcases c.closeIfUdpFinished_eq with ⟨-, heq⟩ | ⟨-, finished, heq⟩
  · rw [heq]
    exact ⟨rfl, rfl, fun _ _ _ _ _ _ _ _ => rfl⟩
  · rw [heq]
    exact udpClose_frame { c with finished := finished }

theorem closeIfUdpFinished_cases :
    c.closeIfUdpFinished = c ∨
      (c.closeIfUdpFinished.udpConnected = false ∧
        c.closeIfUdpFinished.sendHistory = c.sendHistory) := by
  rcases c.closeIfUdpFinished_eq with ⟨-, heq⟩ | ⟨-, finished, heq⟩
  · exact .inl heq
  · rw [heq]
    exact .inr ⟨udpClose_udpConnected _, udpClose_sendHistory _⟩

theorem closeIfUdpFinished_sendHistory : c.closeIfUdpFinished.sendHistory = c.sendHistory := by
  rcases c.closeIfUdpFinished_cases with heq | ⟨-, hhistory⟩
  · rw [heq]
  · exact hhistory

theorem closeIfUdpFinished_of_open (hopen : c.closeIfUdpFinished.udpConnected = true) :
    c.closeIfUdpFinished = c := by
  rcases c.closeIfUdpFinished_cases with heq | ⟨hclosed, -⟩
  · exact heq
  · rw [hclosed] at hopen
    cases hopen

end Closing

section Transmitting

variable (plannedTimeUs index : Int) (packet : Packet)

/-- A complete packet leaves `udpSentPackets`. -/
def eraseSent : Connection :=
  let c := c.onUdpSentBufferChanged (-packet.getSize)
  { c with udpSentPackets := c.udpSentPackets.erase index }

/-- `packet.sent = true;` and the bookkeeping around it. -/
def markSent : Connection :=
  let packet := { packet with
    sent := true, sentTimeUs := c.nowUs, measureIndex := c.udpSendMeasureIndex }
  let c := { c.tick with
    udpSentPackets := c.udpSentPackets.insert index packet
    udpLastSentUs := plannedTimeUs }
  let c := c.onUdpSent c.udpSendMeasureIndex c.udpSendIntervalUs packet.getSize
  { c with udpPacketsToSendCount := c.udpPacketsToSendCount - 1 }

theorem markSent_toEndpoint : (c.markSent plannedTimeUs index packet).toEndpoint =
    { c.toEndpoint with
      udpSentPackets := c.udpSentPackets.insert index
        { packet with sent := true, sentTimeUs := c.nowUs, measureIndex := c.udpSendMeasureIndex }
      udpPacketsToSendCount := c.udpPacketsToSendCount - 1 } := by
  simp [markSent]

theorem markSent_frame :
    (c.markSent plannedTimeUs index packet).toCountdown = c.toCountdown ∧
      (c.markSent plannedTimeUs index packet).deleted = c.deleted ∧
      ∀ name, (c.markSent plannedTimeUs index packet).isEnabled name = c.isEnabled name := by
  refine ⟨by simp [markSent], by simp [markSent], fun name => ?_⟩
  change (onUdpSent _ _ _ _).isEnabled name = _
  rw [isEnabled_onUdpSent]
  rfl

/-- A packet of `udpSentPackets` is not confirmed, so it stays there when it is sent. -/
theorem udpWritePacket_eq (hconfirmed : packet.confirmed = false) :
    c.udpWritePacket plannedTimeUs index packet =
      let d := { c with toSender := c.toSender.record (.writeto packet.wire) }
      if d.io.udpWritten > 0 ∨ packet.getRawSize = 0 then
        let d := d.markSent plannedTimeUs index packet
        let d := d.setTimeRelativeNow .udpResend d.udpResendUs
        if d.udpPacketsToSendCount > 0 then
          d.setTime .udpWrite (d.udpLastSentUs + d.udpSendIntervalUs)
        else d
      else if d.udpPacketsToSendCount > 0 then
        d.setTime .udpWrite (d.udpLastSentUs + d.udpSendIntervalUs)
      else d := by
  have hcomplete : ∀ timeUs measureIndex : Int, ({ packet with
      sent := true, sentTimeUs := timeUs, measureIndex := measureIndex } : Packet).isComplete =
        false := by
    intro timeUs measureIndex
    simp [Packet.isComplete, hconfirmed]
  simp only [udpWritePacket, hcomplete, Bool.false_eq_true, if_false]
  rfl

end Transmitting

section Resending

/-- `udpResend` marks a packet unsent and reports it lost. -/
def markLost (index : Int) (packet : Packet) : Connection :=
  let packet := { packet with
    sent := false, remainResendCount := packet.remainResendCount - 1 }
  let c := { c with
    udpPacketsToSendCount := c.udpPacketsToSendCount + 1
    udpSentPackets := c.udpSentPackets.insert index packet }
  c.onUdpDelivered false packet.measureIndex packet.getSize

theorem udpResendLoop_cons (timeUs index : Int) :
    ((∀ packet, c.udpSentPackets[index]? = some packet → packet.sent = false) ∧
      ∀ indices, udpResendLoop timeUs (index :: indices) c = udpResendLoop timeUs indices c) ∨
    ∃ packet, c.udpSentPackets[index]? = some packet ∧ packet.sent = true ∧
      ((packet.sentTimeUs + c.udpResendUs ≤ timeUs ∧ packet.remainResendCount > 0 ∧
          ∀ indices, udpResendLoop timeUs (index :: indices) c =
            udpResendLoop timeUs indices (c.markLost index packet).setEventUdpWrite) ∨
        (packet.sentTimeUs + c.udpResendUs ≤ timeUs ∧ ¬packet.remainResendCount > 0 ∧
          ∀ indices, udpResendLoop timeUs (index :: indices) c = c.udpClose) ∨
        (¬packet.sentTimeUs + c.udpResendUs ≤ timeUs ∧
          ∀ indices, udpResendLoop timeUs (index :: indices) c =
            udpResendLoop timeUs indices
              (c.setTime .udpResend (packet.sentTimeUs + c.udpResendUs)))) := by
  cases hpacket : c.udpSentPackets[index]? with
  | none => exact .inl ⟨nofun, fun indices => by simp only [udpResendLoop, hpacket]⟩
  | some packet =>
      cases hsent : packet.sent with
      | false =>
          refine .inl ⟨fun p hp => ?_, fun indices => ?_⟩
          · rw [← Option.some.inj hp]
            exact hsent
          · simp only [udpResendLoop, hpacket, hsent, Bool.false_eq_true, if_false]
      | true =>
          refine .inr ⟨packet, rfl, hsent, ?_⟩
          by_cases htime : packet.sentTimeUs + c.udpResendUs ≤ timeUs
          · by_cases hremain : packet.remainResendCount > 0
            · refine .inl ⟨htime, hremain, fun indices => ?_⟩
              simp only [udpResendLoop, hpacket, hsent, htime, hremain, if_true]
              rfl
            · refine .inr (.inl ⟨htime, hremain, fun indices => ?_⟩)
              simp only [udpResendLoop, hpacket, hsent, htime, hremain, if_true, if_false]
          · refine .inr (.inr ⟨htime, fun indices => ?_⟩)
            simp only [udpResendLoop, hpacket, hsent, htime, if_true, if_false]

/-- What every turn of the loop keeps holds up to its end, or up to `udpClose`. -/
theorem udpResendLoop_invariant {I E : Connection → Prop} (timeUs : Int)
    (hend : ∀ d, I d → E d)
    (hlost : ∀ d index packet, I d → d.udpSentPackets[index]? = some packet →
      I (d.markLost index packet).setEventUdpWrite)
    (hlater : ∀ d laterUs, I d → I (d.setTime .udpResend laterUs))
    (hclose : ∀ d, I d → E d.udpClose) (indices : List Int) {d : Connection} (h : I d) :
    E (udpResendLoop timeUs indices d) := by
  induction indices generalizing d with
  | nil => exact hend d h
  | cons index indices ih =>
      rcases d.udpResendLoop_cons timeUs index with
        ⟨-, heq⟩ | ⟨packet, hpacket, -, ⟨-, -, heq⟩ | ⟨-, -, heq⟩ | ⟨-, heq⟩⟩
      · rw [heq]
        exact ih h
      · rw [heq]
        exact ih (hlost d index packet h hpacket)
      · rw [heq]
        exact hclose d h
      · rw [heq]
        exact ih (hlater d _ h)

theorem markLost_toEndpoint (index : Int) (packet : Packet) :
    (c.markLost index packet).toEndpoint = { c.toEndpoint with
      udpPacketsToSendCount := c.udpPacketsToSendCount + 1
      udpSentPackets := c.udpSentPackets.insert index
        { packet with sent := false, remainResendCount := packet.remainResendCount - 1 } } := rfl

end Resending

section Storing

variable (packet : Packet)

/-- What `udpRead` does with a packet it does not have yet. -/
def storePacket : Connection :=
  let c := { c with toReceiver := c.toReceiver.accept packet }.tcpWriteFake
  let c := if c.tcpNextSendIndex < c.udpReceivedMasterIndex then c.setTimeRelativeNow .tcpWrite 0
    else c
  if c.udpReceivedMasterIndex ≥ c.udpReceivedFinalIndex then
    c.setTimeRelativeNow .udpCloseWait (c.udpResendUs * c.udpResendCount + c.udpResendUs)
  else c

/-- The end of the data branch of `udpRead`. -/
def rearm : Connection :=
  let c := { c with remainConfirmationResendCount := c.confirmationResendCount }
  c.setTimeRelativeNow .buildConfirmations c.buildConfirmationsUs

theorem udpReadPacket_eq : c.udpReadPacket packet =
    (if packet.getIndex ∈ c.udpReceivedPackets then c else c.storePacket packet).rearm := rfl

theorem storePacket_toEndpoint : (c.storePacket packet).toEndpoint =
    ({ c with toReceiver := c.toReceiver.accept packet } : Connection).tcpWriteFake.toEndpoint := by
  simp only [storePacket]
  split <;> split <;> rfl

theorem udpReadPacket_of_open {c : Connection} {packet : Packet} (htcp : c.tcpConnected = true)
    (hnew : packet.getIndex ∉ c.udpReceivedPackets) :
    (c.udpReadPacket packet).toEndpoint =
        { c.toEndpoint with toReceiver := c.toReceiver.accept packet } ∧
      (c.udpReadPacket packet).remainConfirmationResendCount = c.confirmationResendCount := by
  have hstored : (c.storePacket packet).toEndpoint =
      { c.toEndpoint with toReceiver := c.toReceiver.accept packet } := by
    rw [storePacket_toEndpoint, tcpWriteFake,
      if_pos (show ({ c with toReceiver := c.toReceiver.accept packet } :
        Connection).tcpConnected = true from htcp)]
  have hcount : (c.storePacket packet).confirmationResendCount = c.confirmationResendCount := by
    rw [hstored]
  rw [udpReadPacket_eq, if_neg hnew]
  exact ⟨hstored, hcount⟩

theorem udpReadPacket_toEndpoint :
    ∃ r : Receiver, (c.udpReadPacket packet).toEndpoint = { c.toEndpoint with toReceiver := r } := by
  rw [udpReadPacket_eq]
  split
  · exact ⟨c.toReceiver, rfl⟩
  · obtain ⟨r, hr, -⟩ := tcpWriteFake_steps (N := fun _ => True)
      { c with toReceiver := c.toReceiver.accept packet }
    exact ⟨r, (c.storePacket_toEndpoint packet).trans hr⟩

theorem storePacket_frame :
    (c.storePacket packet).toCountdown = c.toCountdown ∧
      (c.storePacket packet).toPacing = c.toPacing ∧
      (c.storePacket packet).deleted = c.deleted ∧
      ∀ name, name ≠ .tcpWrite → name ≠ .udpCloseWait →
        (c.storePacket packet).isEnabled name = c.isEnabled name := by
  obtain ⟨hcountdown, hpacing, hdeleted, hevents⟩ :=
    tcpWriteFake_frame { c with toReceiver := c.toReceiver.accept packet }
  generalize hd : ({ c with toReceiver := c.toReceiver.accept packet } : Connection).tcpWriteFake = d
    at hcountdown hpacing hdeleted hevents
  simp only [storePacket, hd]
  split <;> split
  all_goals
    refine ⟨hcountdown, hpacing, hdeleted, fun name htcpWrite hcloseWait => ?_⟩
    have hname : d.isEnabled name = c.isEnabled name := hevents name
    simpa only [ne_eq, htcpWrite, hcloseWait, not_false_eq_true,
      isEnabled_setTimeRelativeNow_of_ne] using hname

end Storing

section Reading

variable {c : Connection} {p : Packet}

theorem isUdpFinished_of_remain (hopen : c.udpConnected = true)
    (hremain : 1 ≤ c.remainConfirmationResendCount) : c.isUdpFinished = false := by
  have hnot : ¬c.remainConfirmationResendCount ≤ 0 := by omega
  simp [isUdpFinished, hopen, hnot]

theorem closeIfUdpFinished_of_unfinished (h : c.isUdpFinished = false) :
    c.closeIfUdpFinished = c := by
  rw [closeIfUdpFinished, h]
  rfl

theorem udpRead_of_numbered (hopen : c.udpConnected = true) (hnumbered : p.getType.isNumbered = true) :
    c.udpRead p = if c.toSession.acceptsPacket p = true then (c.udpReadPacket p).closeIfUdpFinished
      else c.closeIfUdpFinished := by
  have hconfirmation : p.getType ≠ .confirmation := by
    intro htype
    rw [htype] at hnumbered
    cases hnumbered
  have hbyeBye : c.toSession.acceptsByeBye p = false := by
    cases htype : p.getType <;> simp_all [Session.acceptsByeBye, PacketType.isNumbered]
  simp only [udpRead, hopen, Bool.not_true, Bool.false_eq_true, if_false, hconfirmation, hbyeBye]
  split <;> rfl

end Reading

section Confirming

theorem dropConfirmations_frame :
    c.dropConfirmations.toCountdown = c.toCountdown ∧ c.dropConfirmations.toPacing = c.toPacing ∧
      c.dropConfirmations.deleted = c.deleted ∧
      ∀ name, name ≠ .tcpRead → c.dropConfirmations.isEnabled name = c.isEnabled name := by
  have hfold : ∀ (packets : List Packet) (c : Connection),
      (packets.foldl (fun c packet => c.onUdpSentBufferChanged (-packet.getSize)) c).toCountdown =
          c.toCountdown ∧
        (packets.foldl (fun c packet => c.onUdpSentBufferChanged (-packet.getSize)) c).toPacing =
          c.toPacing ∧
        (packets.foldl (fun c packet => c.onUdpSentBufferChanged (-packet.getSize)) c).deleted =
          c.deleted ∧
        ∀ name, name ≠ .tcpRead →
          (packets.foldl (fun c packet => c.onUdpSentBufferChanged (-packet.getSize)) c).isEnabled
            name = c.isEnabled name := by
    intro packets
    induction packets with
    | nil => exact fun c => ⟨rfl, rfl, rfl, fun _ _ => rfl⟩
    | cons packet packets ih =>
        intro c
        obtain ⟨hcountdown, hpacing, hdeleted, hevents⟩ :=
          ih (c.onUdpSentBufferChanged (-packet.getSize))
        refine ⟨by simpa using hcountdown, by simpa using hpacing, by simpa using hdeleted,
          fun name hname => ?_⟩
        simpa [hname] using hevents name hname
  exact hfold _ { c with
    udpConfirmationPackets := c.udpConfirmationPackets.filter (·.getType ≠ .confirmation) }

theorem foldl_pushConfirmation_frame (payloads : List (List UInt8)) :
    (payloads.foldl pushConfirmation c).toCountdown = c.toCountdown ∧
      (payloads.foldl pushConfirmation c).toPacing = c.toPacing ∧
      (payloads.foldl pushConfirmation c).deleted = c.deleted ∧
      ∀ name, name ≠ .tcpRead →
        (payloads.foldl pushConfirmation c).isEnabled name = c.isEnabled name := by
  induction payloads generalizing c with
  | nil => exact ⟨rfl, rfl, rfl, fun _ _ => rfl⟩
  | cons payload payloads ih =>
      obtain ⟨hcountdown, hpacing, hdeleted, hevents⟩ := ih (c.pushConfirmation payload)
      refine ⟨hcountdown.trans ?_, hpacing.trans ?_, hdeleted.trans ?_,
        fun name hname => (hevents name hname).trans ?_⟩
      · simp [pushConfirmation]
      · simp [pushConfirmation]
      · simp [pushConfirmation]
      · simp only [pushConfirmation, isEnabled_onUdpSentBufferChanged _ _ hname]
        rfl

/-- The receiving half when the Confirmation packets are queued. -/
def settled : Receiver :=
  { c.toReceiver with
    udpConfirmedMasterIndex := c.udpReceivedMasterIndex
    receiveHistory := c.receiveHistory ++
      c.confirmationPayloads.map fun payload => .confirm (c.confirmation payload).wire }

theorem buildConfirmations_toEndpoint_eq (hudp : c.udpConnected = true) :
    c.buildConfirmations.toEndpoint = { c.toEndpoint with
      udpConfirmationPackets := c.udpConfirmationPackets.filter (·.getType ≠ .confirmation) ++
        c.confirmationPayloads.map c.confirmation
      toReceiver := c.settled.prune } := by
  have hpushed := c.dropConfirmations.foldl_pushConfirmation_toEndpoint
    c.dropConfirmations.confirmationPayloads
  have hpayloads : c.dropConfirmations.confirmationPayloads = c.confirmationPayloads := by
    simp only [dropConfirmations_toEndpoint, Session.confirmationPayloads]
  have hencoded : c.dropConfirmations.confirmation = c.confirmation := by
    funext payload
    simp only [dropConfirmations_toEndpoint, Session.confirmation]
  rw [hpayloads, hencoded] at hpushed
  simp only [buildConfirmations, hudp, Bool.not_true, Bool.false_eq_true, if_false]
  rw [hpayloads]
  generalize c.confirmationPayloads.foldl pushConfirmation c.dropConfirmations = d at hpushed
  rw [dropConfirmations_toEndpoint] at hpushed
  split <;> simp [hpushed, settled]

theorem buildConfirmations_toEndpoint (hudp : c.udpConnected = true) :
    ∃ (r : Receiver) (packets : List Packet), c.buildConfirmations.toEndpoint =
        { c.toEndpoint with toReceiver := r, udpConfirmationPackets := packets } ∧
      packets ≠ [] ∧ r.tcpNextSendIndex = c.tcpNextSendIndex ∧
      r.udpReceivedMasterIndex = c.udpReceivedMasterIndex ∧
      r.udpReceivedFinalIndex = c.udpReceivedFinalIndex ∧
      r.udpConfirmedMasterIndex = c.udpReceivedMasterIndex := by
  obtain ⟨payload, hpayload⟩ := c.toSession.exists_mem_confirmationPayloads
  refine ⟨_, _, c.buildConfirmations_toEndpoint_eq hudp, ?_, Receiver.prune_indices _⟩
  have hmem := List.mem_map_of_mem (f := c.confirmation) hpayload
  exact List.append_ne_nil_of_right_ne_nil _ (List.ne_nil_of_mem hmem)

theorem confirmPacket_toEndpoint (index : Int) :
    ∃ count : Int, (c.confirmPacket index).toEndpoint = { c.toEndpoint with
      udpSentPackets := c.udpSentPackets.erase index
      udpPacketsToSendCount := count } := by
  simp only [confirmPacket]
  split
  · rename_i hnone
    have herase : c.udpSentPackets.erase index = c.udpSentPackets := by
      ext key value
      rw [Std.ExtTreeMap.getElem?_erase]
      split
      · rename_i hkey
        obtain rfl := compare_eq_iff_eq.mp hkey
        simp [hnone]
      · rfl
    exact ⟨c.udpPacketsToSendCount, by rw [herase]⟩
  · rename_i packet hpacket
    refine ⟨if packet.sent then c.udpPacketsToSendCount else c.udpPacketsToSendCount - 1, ?_⟩
    cases packet.sent <;> cases packet.confirmed <;> simp

theorem confirmPacket_frame (index : Int) :
    (c.confirmPacket index).toCountdown = c.toCountdown ∧
      (c.confirmPacket index).deleted = c.deleted ∧
      ∀ name, name ≠ .tcpRead → (c.confirmPacket index).isEnabled name = c.isEnabled name := by
  simp only [confirmPacket]
  split
  · exact ⟨rfl, rfl, fun _ _ => rfl⟩
  · rename_i packet hpacket
    refine ⟨?_, ?_, fun name hname => ?_⟩
    · cases packet.sent <;> cases packet.confirmed <;> simp
    · cases packet.sent <;> cases packet.confirmed <;> simp
    · change (onUdpSentBufferChanged _ (-packet.getSize)).isEnabled name = _
      rw [isEnabled_onUdpSentBufferChanged _ _ hname]
      cases packet.sent <;> cases packet.confirmed <;> rfl

theorem foldl_confirmPacket_toEndpoint (indices : List Int) :
    ∃ (packets : Std.ExtTreeMap Int Packet) (count : Int),
      (indices.foldl confirmPacket c).toEndpoint = { c.toEndpoint with
        udpSentPackets := packets
        udpPacketsToSendCount := count } ∧
      ∀ (index : Int) (packet : Packet), packets[index]? = some packet →
        c.udpSentPackets[index]? = some packet ∧ index ∉ indices := by
  induction indices generalizing c with
  | nil => exact ⟨_, _, rfl, fun _ _ h => ⟨h, by simp⟩⟩
  | cons index indices ih =>
      obtain ⟨packets, count, heq, hkept⟩ := ih (c.confirmPacket index)
      obtain ⟨countC, hconfirm⟩ := c.confirmPacket_toEndpoint index
      refine ⟨packets, count, by simp [heq, hconfirm], fun key packet hpacket => ?_⟩
      obtain ⟨hold, hnot⟩ := hkept key packet hpacket
      simp only [hconfirm, Std.ExtTreeMap.getElem?_erase] at hold
      split at hold
      · cases hold
      · rename_i hne
        refine ⟨hold, fun hmem => ?_⟩
        rcases List.mem_cons.mp hmem with hkey | hmem
        · exact hne (compare_eq_iff_eq.mpr hkey.symm)
        · exact hnot hmem

theorem foldl_confirmPacket_frame (indices : List Int) :
    (indices.foldl confirmPacket c).toCountdown = c.toCountdown ∧
      (indices.foldl confirmPacket c).deleted = c.deleted ∧
      ∀ name, name ≠ .tcpRead →
        (indices.foldl confirmPacket c).isEnabled name = c.isEnabled name := by
  induction indices generalizing c with
  | nil => exact ⟨rfl, rfl, fun _ _ => rfl⟩
  | cons index indices ih =>
      obtain ⟨hcountdown, hdeleted, hevents⟩ := c.confirmPacket_frame index
      obtain ⟨hcountdownR, hdeletedR, heventsR⟩ := ih (c.confirmPacket index)
      exact ⟨hcountdownR.trans hcountdown, hdeletedR.trans hdeleted,
        fun name hname => (heventsR name hname).trans (hevents name hname)⟩

/-- The indices that a Confirmation packet removes. -/
def confirmedIndices (packet : Packet) : List Int :=
  c.udpSentPackets.keys.takeWhile (· < packet.getIndex) ++ packet.confirmedRanges.flatMap indicesOf

theorem udpReadConfirmation_eq (packet : Packet) :
    c.udpReadConfirmation packet =
      let d := (c.confirmedIndices packet).foldl confirmPacket c
      let d := if d.udpPacketsToSendCount ≥ d.udpSentPackets.size then d.disable .udpResend else d
      if d.isNoMoreDataWillBeSent && !c.isNoMoreDataWillBeSent then
        { d with remainByeByeResendCount := d.confirmationResendCount }.setTimeRelativeNow
          .buildByeBye 0
      else d := by
  simp only [udpReadConfirmation, confirmedIndices, List.foldl_append, List.foldl_flatMap]

end Confirming

section Frames

theorem tcpRead_frame :
    c.tcpRead.toCountdown = c.toCountdown ∧ c.tcpRead.deleted = c.deleted ∧
      ∀ name, name ≠ .tcpRead → name ≠ .udpWrite → name ≠ .buildUdpPackets →
        c.tcpRead.isEnabled name = c.isEnabled name := by
  simp only [tcpRead]
  split
  · exact ⟨rfl, rfl, fun _ _ _ _ => rfl⟩
  · simp only [onUdpSentBufferChanged_toCountdown, onUdpSentBufferChanged_deleted]
    generalize c.io.tcpBytes.take c.udpSendPacketSize.toNat = bytes
    split
    · exact ⟨rfl, rfl, fun name htcpRead _ _ => isEnabled_onUdpSentBufferChanged _ _ htcpRead⟩
    · split
      · obtain ⟨hcountdown, hdeleted, hevents⟩ := buildUdpPackets_frame
          { c with toSender := { c.toSender.record (.read bytes) with
              tcpReceivedData := c.tcpReceivedData ++ bytes } } false
        refine ⟨hcountdown, hdeleted, fun name htcpRead hudpWrite hbuild => ?_⟩
        rw [isEnabled_onUdpSentBufferChanged _ _ htcpRead]
        exact hevents name hudpWrite htcpRead hbuild
      · exact ⟨rfl, rfl, fun name htcpRead _ _ => isEnabled_onUdpSentBufferChanged _ _ htcpRead⟩

theorem tcpWrite_frame :
    c.tcpWrite.toCountdown = c.toCountdown ∧ c.tcpWrite.deleted = c.deleted ∧
      ∀ name, name ≠ .tcpRead → name ≠ .tcpWrite → name ≠ .udpWrite → name ≠ .buildUdpPackets →
        name ≠ .close → c.tcpWrite.isEnabled name = c.isEnabled name := by
  obtain ⟨hcountdown, -, hdeleted, hevents⟩ := c.tcpWriteLoop_frame false c.tcpWriteFuel
  simp only [tcpWrite]
  split
  · exact ⟨rfl, rfl, fun _ _ _ _ _ _ => rfl⟩
  · split
    · obtain ⟨hcountdownC, hdeletedC, heventsC⟩ :=
        (tcpWriteLoop false c.tcpWriteFuel c).1.tcpClose_frame false
      exact ⟨hcountdownC.trans hcountdown, hdeletedC.trans hdeleted,
        fun name h₁ h₂ h₃ h₄ h₅ => (heventsC name h₁ h₂ h₃ h₄ h₅).trans (hevents name h₂)⟩
    · exact ⟨hcountdown, hdeleted, fun name _ h₂ _ _ _ => hevents name h₂⟩

theorem udpWriteConfirmation_frame (plannedTimeUs : Int) (packet : Packet) (packets : List Packet) :
    (c.udpWriteConfirmation plannedTimeUs packet packets).toCountdown = c.toCountdown ∧
      (c.udpWriteConfirmation plannedTimeUs packet packets).deleted = c.deleted ∧
      ∀ name, name ≠ .tcpRead → name ≠ .tcpWrite → name ≠ .udpWrite → name ≠ .buildUdpPackets →
        name ≠ .buildConfirmations → name ≠ .udpResend → name ≠ .close →
        (c.udpWriteConfirmation plannedTimeUs packet packets).isEnabled name = c.isEnabled name := by
  have hsent : ∀ (d : Connection) (name : EventName), name ≠ .tcpRead →
      ({ d.onUdpSentBufferChanged (-packet.getSize) with
        udpConfirmationPackets := packets } : Connection).isEnabled name = d.isEnabled name := by
    intro d name hname
    change (d.onUdpSentBufferChanged (-packet.getSize)).isEnabled name = _
    rw [isEnabled_onUdpSentBufferChanged _ _ hname]
  simp only [udpWriteConfirmation]
  split
  · split
    · refine ⟨(closeIfUdpFinished_frame _).1.trans (by simp),
        (closeIfUdpFinished_frame _).2.1.trans (by simp), fun name h₁ h₂ h₃ h₄ h₅ h₆ h₇ => ?_⟩
      rw [(closeIfUdpFinished_frame _).2.2 name h₁ h₂ h₃ h₄ h₅ h₆ h₇, hsent _ _ h₁]
      rfl
    · split
      · refine ⟨by simp, by simp, fun name h₁ _ h₃ _ _ _ _ => ?_⟩
        rw [isEnabled_setTime_of_ne _ _ _ h₃, hsent _ _ h₁]
        rfl
      · refine ⟨by simp, by simp, fun name h₁ _ _ _ _ _ _ => ?_⟩
        rw [hsent _ _ h₁]
        rfl
  · refine ⟨rfl, rfl, fun name _ _ h₃ _ _ _ _ => ?_⟩
    rw [isEnabled_setTime_of_ne _ _ _ h₃]
    rfl

theorem udpWritePacket_frame (plannedTimeUs index : Int) (packet : Packet)
    (hconfirmed : packet.confirmed = false) :
    (c.udpWritePacket plannedTimeUs index packet).toCountdown = c.toCountdown ∧
      (c.udpWritePacket plannedTimeUs index packet).deleted = c.deleted ∧
      ∀ name, name ≠ .udpWrite → name ≠ .udpResend →
        (c.udpWritePacket plannedTimeUs index packet).isEnabled name = c.isEnabled name := by
  rw [udpWritePacket_eq c _ _ _ hconfirmed]
  simp only
  obtain ⟨hcountdown, hdeleted, hevents⟩ := markSent_frame
    { c with toSender := c.toSender.record (.writeto packet.wire) } plannedTimeUs index packet
  have hrecord : ∀ name, ({ c with toSender := c.toSender.record (.writeto packet.wire) } :
      Connection).isEnabled name = c.isEnabled name := fun _ => rfl
  split
  · split
    · refine ⟨by simp [hcountdown], by simp [hdeleted], fun name hudpWrite hudpResend => ?_⟩
      rw [isEnabled_setTime_of_ne _ _ _ hudpWrite, isEnabled_setTimeRelativeNow_of_ne _ _ _ hudpResend,
        hevents name, hrecord]
    · refine ⟨by simp [hcountdown], by simp [hdeleted], fun name hudpWrite hudpResend => ?_⟩
      rw [isEnabled_setTimeRelativeNow_of_ne _ _ _ hudpResend, hevents name, hrecord]
  · split
    · refine ⟨rfl, rfl, fun name hudpWrite _ => ?_⟩
      rw [isEnabled_setTime_of_ne _ _ _ hudpWrite, hrecord]
    · exact ⟨rfl, rfl, fun name _ _ => hrecord name⟩

theorem udpWrite_frame (plannedTimeUs : Int)
    (hunconfirmed : ∀ (index : Int) (p : Packet), c.udpSentPackets[index]? = some p →
      p.confirmed = false) :
    (c.udpWrite plannedTimeUs).toCountdown = c.toCountdown ∧
      (c.udpWrite plannedTimeUs).deleted = c.deleted ∧
      ∀ name, name ≠ .tcpRead → name ≠ .tcpWrite → name ≠ .udpWrite → name ≠ .buildUdpPackets →
        name ≠ .buildConfirmations → name ≠ .udpResend → name ≠ .close →
        (c.udpWrite plannedTimeUs).isEnabled name = c.isEnabled name := by
  simp only [udpWrite]
  split
  · exact ⟨rfl, rfl, fun _ _ _ _ _ _ _ _ => rfl⟩
  · split
    · exact c.udpWriteConfirmation_frame _ _ _
    · split
      · rename_i index packet hfirst
        obtain ⟨hcountdown, hdeleted, hevents⟩ := c.udpWritePacket_frame plannedTimeUs index packet
          (hunconfirmed index packet (c.firstUnsent_eq_some hfirst).1)
        exact ⟨hcountdown, hdeleted, fun name _ _ h₃ _ _ h₆ _ => hevents name h₃ h₆⟩
      · exact ⟨rfl, rfl, fun _ _ _ _ _ _ _ _ => rfl⟩

/-- What `buildConfirmations` does before it counts its round. -/
def confirmAll : Connection :=
  let c := c.dropConfirmations
  let c := c.confirmationPayloads.foldl pushConfirmation c
  let c := { c with udpConfirmedMasterIndex := c.udpReceivedMasterIndex }.setEventUdpWrite
  { c with toReceiver := c.toReceiver.prune }

theorem buildConfirmations_eq (hudp : c.udpConnected = true) :
    c.buildConfirmations =
      let d := { c.confirmAll with
        remainConfirmationResendCount := c.confirmAll.remainConfirmationResendCount - 1 }
      if d.remainConfirmationResendCount > 0 then
        d.setTimeRelativeNow .buildConfirmations d.buildConfirmationsUs
      else d := by
  simp only [buildConfirmations, hudp, Bool.not_true, Bool.false_eq_true, if_false]
  rfl

theorem confirmAll_frame :
    c.confirmAll.toCountdown = c.toCountdown ∧ c.confirmAll.deleted = c.deleted ∧
      c.confirmAll.isEnabled .udpWrite = true ∧
      ∀ name, name ≠ .tcpRead → name ≠ .udpWrite →
        c.confirmAll.isEnabled name = c.isEnabled name := by
  obtain ⟨hcountdownD, -, hdeletedD, heventsD⟩ := c.dropConfirmations_frame
  obtain ⟨hcountdownP, -, hdeletedP, heventsP⟩ := c.dropConfirmations.foldl_pushConfirmation_frame
    c.dropConfirmations.confirmationPayloads
  simp only [confirmAll]
  generalize c.dropConfirmations.confirmationPayloads.foldl pushConfirmation c.dropConfirmations = d
    at hcountdownP hdeletedP heventsP
  have hprune : ∀ (e : Connection) (r : Receiver) (name : EventName),
      ({ e with toReceiver := r } : Connection).isEnabled name = e.isEnabled name :=
    fun _ _ _ => rfl
  refine ⟨by simp [hcountdownP, hcountdownD], by simp [hdeletedP, hdeletedD], ?_,
    fun name htcpRead hudpWrite => ?_⟩
  · rw [hprune]
    exact isEnabled_setEventUdpWrite _
  · rw [hprune, isEnabled_setEventUdpWrite_of_ne _ hudpWrite]
    exact (heventsP name htcpRead).trans (heventsD name htcpRead)

theorem buildConfirmations_frame :
    c.buildConfirmations.deleted = c.deleted ∧
      ∀ name, name ≠ .tcpRead → name ≠ .udpWrite → name ≠ .buildConfirmations →
        c.buildConfirmations.isEnabled name = c.isEnabled name := by
  cases hudp : c.udpConnected with
  | false => simp [buildConfirmations, hudp]
  | true =>
      obtain ⟨-, hdeleted, -, hevents⟩ := c.confirmAll_frame
      rw [buildConfirmations_eq c hudp]
      simp only
      split
      · refine ⟨hdeleted, fun name htcpRead hudpWrite hconfirm => ?_⟩
        rw [isEnabled_setTimeRelativeNow_of_ne _ _ _ hconfirm]
        exact hevents name htcpRead hudpWrite
      · exact ⟨hdeleted, fun name htcpRead hudpWrite _ => hevents name htcpRead hudpWrite⟩

theorem buildConfirmations_toCountdown (hudp : c.udpConnected = true) :
    c.buildConfirmations.toCountdown = { c.toCountdown with
      remainConfirmationResendCount := c.remainConfirmationResendCount - 1 } := by
  rw [buildConfirmations_eq c hudp, ← (c.confirmAll_frame).1]
  simp only
  split <;> rfl

/-- What `buildByeBye` does before it counts its round. -/
def queueByeBye : Connection :=
  let packet := c.byeByePacket
  let c := { c with
    udpConfirmationPackets := c.udpConfirmationPackets ++ [packet]
    toSender := c.toSender.record (.byeBye packet.wire c.udpSentPackets.keys) }
  (c.onUdpSentBufferChanged packet.getSize).setEventUdpWrite

theorem buildByeBye_eq (hudp : c.udpConnected = true) :
    c.buildByeBye =
      let d := { c.queueByeBye with
        remainByeByeResendCount := c.queueByeBye.remainByeByeResendCount - 1 }
      if d.remainByeByeResendCount > 0 then
        d.setTimeRelativeNow .buildByeBye d.buildConfirmationsUs
      else d := by
  simp only [buildByeBye, hudp, Bool.not_true, Bool.false_eq_true, if_false]
  rfl

theorem queueByeBye_frame :
    c.queueByeBye.toCountdown = c.toCountdown ∧ c.queueByeBye.deleted = c.deleted ∧
      c.queueByeBye.isEnabled .udpWrite = true ∧
      ∀ name, name ≠ .tcpRead → name ≠ .udpWrite →
        c.queueByeBye.isEnabled name = c.isEnabled name := by
  refine ⟨by simp [queueByeBye], by simp [queueByeBye], by simp [queueByeBye],
    fun name htcpRead hudpWrite => ?_⟩
  simp only [queueByeBye]
  rw [isEnabled_setEventUdpWrite_of_ne _ hudpWrite, isEnabled_onUdpSentBufferChanged _ _ htcpRead]
  rfl

theorem buildByeBye_frame :
    c.buildByeBye.deleted = c.deleted ∧
      ∀ name, name ≠ .tcpRead → name ≠ .udpWrite → name ≠ .buildByeBye →
        c.buildByeBye.isEnabled name = c.isEnabled name := by
  cases hudp : c.udpConnected with
  | false => simp [buildByeBye, hudp]
  | true =>
      obtain ⟨-, hdeleted, -, hevents⟩ := c.queueByeBye_frame
      rw [buildByeBye_eq c hudp]
      simp only
      split
      · refine ⟨hdeleted, fun name htcpRead hudpWrite hbyeBye => ?_⟩
        rw [isEnabled_setTimeRelativeNow_of_ne _ _ _ hbyeBye]
        exact hevents name htcpRead hudpWrite
      · exact ⟨hdeleted, fun name htcpRead hudpWrite _ => hevents name htcpRead hudpWrite⟩

theorem udpResendLoop_frame (timeUs : Int) (indices : List Int) :
    (udpResendLoop timeUs indices c).toCountdown = c.toCountdown ∧
      (udpResendLoop timeUs indices c).deleted = c.deleted ∧
      ∀ name, name ≠ .tcpRead → name ≠ .tcpWrite → name ≠ .udpWrite → name ≠ .buildUdpPackets →
        name ≠ .buildConfirmations → name ≠ .udpResend → name ≠ .close →
        (udpResendLoop timeUs indices c).isEnabled name = c.isEnabled name := by
  refine udpResendLoop_invariant timeUs
    (I := fun d => d.toCountdown = c.toCountdown ∧ d.deleted = c.deleted ∧
      ∀ name, name ≠ .tcpRead → name ≠ .tcpWrite → name ≠ .udpWrite → name ≠ .buildUdpPackets →
        name ≠ .buildConfirmations → name ≠ .udpResend → name ≠ .close →
        d.isEnabled name = c.isEnabled name)
    (fun _ hd => hd) (fun d index packet hd _ => ?_) (fun d laterUs hd => ?_) (fun d hd => ?_) indices
    ⟨rfl, rfl, fun _ _ _ _ _ _ _ _ => rfl⟩
  · obtain ⟨hcountdown, hdeleted, hevents⟩ := hd
    refine ⟨by rwa [setEventUdpWrite_toCountdown], by rwa [setEventUdpWrite_deleted],
      fun name h₁ h₂ h₃ h₄ h₅ h₆ h₇ => ?_⟩
    rw [isEnabled_setEventUdpWrite_of_ne _ h₃]
    exact hevents name h₁ h₂ h₃ h₄ h₅ h₆ h₇
  · obtain ⟨hcountdown, hdeleted, hevents⟩ := hd
    refine ⟨hcountdown, hdeleted, fun name h₁ h₂ h₃ h₄ h₅ h₆ h₇ => ?_⟩
    rw [isEnabled_setTime_of_ne _ _ _ h₆]
    exact hevents name h₁ h₂ h₃ h₄ h₅ h₆ h₇
  · obtain ⟨hcountdown, hdeleted, hevents⟩ := hd
    obtain ⟨hcountdownU, hdeletedU, heventsU⟩ := d.udpClose_frame
    refine ⟨hcountdownU.trans hcountdown, hdeletedU.trans hdeleted,
      fun name h₁ h₂ h₃ h₄ h₅ h₆ h₇ => ?_⟩
    rw [heventsU name h₁ h₂ h₃ h₄ h₅ h₆ h₇]
    exact hevents name h₁ h₂ h₃ h₄ h₅ h₆ h₇

theorem udpResendLoop_sendHistory (timeUs : Int) (indices : List Int) :
    (udpResendLoop timeUs indices c).sendHistory = c.sendHistory := by
  refine udpResendLoop_invariant timeUs (I := fun d => d.sendHistory = c.sendHistory)
    (fun _ hd => hd) (fun d index packet hd _ => ?_) (fun _ _ hd => hd) (fun d hd => ?_) indices rfl
  · rw [setEventUdpWrite_toEndpoint, markLost_toEndpoint]
    exact hd
  · exact d.udpClose_sendHistory.trans hd

theorem udpResend_frame :
    c.udpResend.toCountdown = c.toCountdown ∧ c.udpResend.deleted = c.deleted ∧
      ∀ name, name ≠ .tcpRead → name ≠ .tcpWrite → name ≠ .udpWrite → name ≠ .buildUdpPackets →
        name ≠ .buildConfirmations → name ≠ .udpResend → name ≠ .close →
        c.udpResend.isEnabled name = c.isEnabled name := by
  simp only [udpResend]
  split
  · exact ⟨rfl, rfl, fun _ _ _ _ _ _ _ _ => rfl⟩
  · exact udpResendLoop_frame c.tick c.nowUs c.udpSentPackets.keys

theorem udpReadConfirmation_frame (packet : Packet) :
    (c.udpReadConfirmation packet).deleted = c.deleted ∧
      ∀ name, name ≠ .tcpRead → name ≠ .udpResend → name ≠ .buildByeBye →
        (c.udpReadConfirmation packet).isEnabled name = c.isEnabled name := by
  obtain ⟨-, hdeleted, hevents⟩ := c.foldl_confirmPacket_frame (c.confirmedIndices packet)
  have hremain : ∀ (e : Connection) (count : Int) (name : EventName),
      ({ e with remainByeByeResendCount := count } : Connection).isEnabled name =
        e.isEnabled name := fun _ _ _ => rfl
  rw [udpReadConfirmation_eq]
  simp only
  split <;> split
  all_goals
    refine ⟨hdeleted, fun name htcpRead hresend hbyeBye => ?_⟩
    simpa only [ne_eq, hresend, hbyeBye, not_false_eq_true, isEnabled_setTimeRelativeNow_of_ne,
      isEnabled_disable_of_ne, hremain] using hevents name htcpRead

theorem udpReadPacket_frame (packet : Packet) :
    (c.udpReadPacket packet).deleted = c.deleted ∧
      (c.udpReadPacket packet).toPacing = c.toPacing ∧
      (c.udpReadPacket packet).remainByeByeResendCount = c.remainByeByeResendCount ∧
      ∀ name, name ≠ .tcpWrite → name ≠ .udpCloseWait → name ≠ .buildConfirmations →
        (c.udpReadPacket packet).isEnabled name = c.isEnabled name := by
  obtain ⟨hcountdown, hpacing, hdeleted, hevents⟩ := c.storePacket_frame packet
  have hrearm : ∀ (d : Connection) (name : EventName), name ≠ .buildConfirmations →
      d.rearm.isEnabled name = d.isEnabled name := fun d name hname =>
    isEnabled_setTimeRelativeNow_of_ne _ _ _ hname
  rw [udpReadPacket_eq]
  split
  · exact ⟨rfl, rfl, rfl, fun name _ _ hname => hrearm c name hname⟩
  · exact ⟨hdeleted, hpacing, congrArg (·.remainByeByeResendCount) hcountdown,
      fun name h₁ h₂ h₃ => (hrearm _ name h₃).trans (hevents name h₁ h₂)⟩

theorem udpReadByeBye_frame (packet : Packet) :
    (c.udpReadByeBye packet).deleted = c.deleted ∧
      (c.udpReadByeBye packet).toPacing = c.toPacing ∧
      (c.udpReadByeBye packet).remainByeByeResendCount = c.remainByeByeResendCount ∧
      ∀ name, name ≠ .tcpRead → name ≠ .udpCloseWait → name ≠ .buildConfirmations →
        (c.udpReadByeBye packet).isEnabled name = c.isEnabled name := by
  simp only [udpReadByeBye]
  generalize hb : ({ c with
    remainConfirmationResendCount := 0
    toReceiver := c.toReceiver.record (.byeBye packet.wire) } : Connection).disable
      .buildConfirmations = b
  obtain ⟨hcountdown, hpacing, hdeleted, hevents⟩ := b.dropConfirmations_frame
  have hbase : b.deleted = c.deleted ∧ b.toPacing = c.toPacing ∧
      b.remainByeByeResendCount = c.remainByeByeResendCount := by
    rw [← hb]
    exact ⟨rfl, rfl, rfl⟩
  have hevent : ∀ name, name ≠ .buildConfirmations → b.isEnabled name = c.isEnabled name := by
    intro name hname
    rw [← hb, isEnabled_disable_of_ne _ _ hname]
    rfl
  split
  · refine ⟨hdeleted.trans hbase.1, hpacing.trans hbase.2.1,
      (congrArg (·.remainByeByeResendCount) hcountdown).trans hbase.2.2, fun name h₁ h₂ h₃ => ?_⟩
    rw [isEnabled_setTimeRelativeNow_of_ne _ _ _ h₂, hevents name h₁, hevent name h₃]
  · exact ⟨hdeleted.trans hbase.1, hpacing.trans hbase.2.1,
      (congrArg (·.remainByeByeResendCount) hcountdown).trans hbase.2.2,
      fun name h₁ _ h₃ => (hevents name h₁).trans (hevent name h₃)⟩

end Frames

section UdpClosed

variable {c}

theorem udpWrite_udpClosed (plannedTimeUs : Int) (hudp : c.udpConnected = true) :
    (c.udpWrite plannedTimeUs).UdpClosed := by
  simp only [udpWrite, hudp, Bool.not_true, Bool.false_eq_true, if_false]
  split
  · simp only [udpWriteConfirmation]
    split
    · split
      · apply closeIfUdpFinished_udpClosed
        simp [hudp]
      · split <;> exact udpClosed_of_open (by simp [hudp])
    · exact udpClosed_of_open hudp
  · split
    · simp only [udpWritePacket]
      split
      · split
        · split
          · apply closeIfUdpFinished_udpClosed
            simp [hudp]
          · split <;> exact udpClosed_of_open (by simp [hudp])
        · split <;> exact udpClosed_of_open (by simp [hudp])
      · split <;> exact udpClosed_of_open hudp
    · exact udpClosed_of_open hudp

theorem udpResendLoop_udpClosed (timeUs : Int) (indices : List Int) (hudp : c.udpConnected = true) :
    (udpResendLoop timeUs indices c).UdpClosed := by
  refine udpResendLoop_invariant timeUs (I := fun d => d.udpConnected = true)
    (fun d hd => udpClosed_of_open hd) (fun d index packet hd _ => ?_) (fun _ _ hd => hd)
    (fun d hd _ => ⟨d, hd, rfl⟩) indices hudp
  rw [setEventUdpWrite_toEndpoint, markLost_toEndpoint]
  exact hd

theorem udpRead_udpClosed (packet : Packet) (hudp : c.udpConnected = true) :
    (c.udpRead packet).UdpClosed := by
  have hopen : ∀ d : Connection, d.udpConnected = c.udpConnected →
      d.closeIfUdpFinished.UdpClosed :=
    fun d hd => closeIfUdpFinished_udpClosed _ (hd.trans hudp)
  simp only [udpRead, hudp, Bool.not_true, Bool.false_eq_true, if_false]
  apply hopen
  split
  · obtain ⟨packets, count, hend, -⟩ :=
      c.foldl_confirmPacket_toEndpoint (c.confirmedIndices packet)
    rw [udpReadConfirmation_eq]
    simp only
    split <;> split <;> simp [hend]
  · split
    · obtain ⟨r, hr⟩ := c.udpReadPacket_toEndpoint packet
      rw [hr]
    · split
      · simp only [udpReadByeBye]
        split <;> simp [dropConfirmations_toEndpoint]
      · rfl

/-- Every handler that brings the UDP side down does it through `udpClose`. -/
theorem handle_udpClosed (event : EventName) (plannedTimeUs : Int) (hudp : c.udpConnected = true) :
    (c.handle event plannedTimeUs).UdpClosed := by
  cases event with
  | tcpRead =>
      obtain ⟨s, hs⟩ := c.tcpRead_toEndpoint
      apply udpClosed_of_open
      rw [handle, hs]
      exact hudp
  | tcpWrite =>
      obtain ⟨r, hr, -⟩ := c.tcpWriteLoop_toEndpoint false c.tcpWriteFuel
      apply udpClosed_of_open
      simp only [handle, tcpWrite]
      split
      · exact hudp
      · split
        · rw [(tcpClose_ends _ false).2, hr]
          exact hudp
        · rw [hr]
          exact hudp
  | tcpClose => exact udpClosed_of_open ((c.tcpClose_ends c.io.tcpWasError).2.trans hudp)
  | udpWrite => exact udpWrite_udpClosed plannedTimeUs hudp
  | udpClose => exact fun _ => ⟨c, hudp, rfl⟩
  | buildUdpPackets =>
      obtain ⟨s, hs⟩ := c.buildUdpPackets_toEndpoint true
      apply udpClosed_of_open
      rw [handle, hs]
      exact hudp
  | buildConfirmations =>
      apply udpClosed_of_open
      rw [handle, buildConfirmations_toEndpoint_eq c hudp]
      exact hudp
  | buildByeBye =>
      apply udpClosed_of_open
      rw [handle, buildByeBye_eq c hudp]
      simp only
      split <;> simp [queueByeBye, hudp]
  | udpResend =>
      simp only [handle, udpResend, hudp, Bool.not_true, Bool.false_eq_true, if_false]
      exact udpResendLoop_udpClosed _ _ hudp
  | udpCloseWait => exact closeIfUdpFinished_udpClosed c hudp
  | close => exact udpClosed_of_open hudp

end UdpClosed

end IceTunnel.Connection
