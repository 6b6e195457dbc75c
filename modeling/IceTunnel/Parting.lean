import Mathlib.Data.Int.Range
import IceTunnel.Handlers
import IceTunnel.Peers

namespace IceTunnel

/-- Neither a new packet nor one sent again, and no ByeBye before its time. -/
def SendAction.Quiet : SendAction → Prop
  | read _ => True
  | create _ => False
  | writeto packet => packet.getType.isNumbered = false
  | byeBye _ unconfirmed => unconfirmed = []

namespace Session

/-- Every ByeBye was built with nothing unconfirmed, and only quiet actions follow
the first one. -/
structure Parted (s : Session) : Prop where
  unconfirmed : ∀ packet unconfirmed, .byeBye packet unconfirmed ∈ s.sendHistory → unconfirmed = []
  quiet : s.sendHistory.Pairwise fun a b => a.byeBye?.isSome = true → b.Quiet

/-- `tcpWrite` gets to a Bye or Disconnect packet before any byte for TCP. -/
def WritesThrough (s : Session) : Prop :=
  ∃ index ∈ s.udpReceivedPackets.keys,
    s.tcpNextSendIndex ≤ index ∧ index < s.udpReceivedMasterIndex ∧
      s.udpReceivedPackets[index]?.any (·.getType.isClosing) = true ∧
      ∀ other, s.tcpNextSendIndex ≤ other → other < index →
        s.udpReceivedPackets[other]?.any (fun p => p.getType ≠ .data ∨ p.getSize ≤ 0) = true

instance (s : Session) : Decidable s.WritesThrough :=
  inferInstanceAs (Decidable (∃ index ∈ _, _))

end Session

namespace Protocol

variable {N : Packet → Prop} {e e' : Endpoint}

/-- No action is ever revoked, and without a UDP side all new ones are quiet. -/
theorem sendHistory_step (hstep : Step N e e') :
    ∃ actions, e'.sendHistory = e.sendHistory ++ actions ∧
      (e.udpConnected = false → ∀ action ∈ actions, action.Quiet) := by
  cases hstep with
  | read bytes htcp hudp => exact ⟨_, rfl, by simp [SendAction.Quiet]⟩
  | readUnused bytes => exact ⟨_, rfl, by simp [SendAction.Quiet]⟩
  | create payload rest hudp => exact ⟨_, rfl, by simp [hudp]⟩
  | close type htcp hudp => exact ⟨_, rfl, by simp [hudp]⟩
  | skipClosing packet hnext hclosing htcp hudp => exact ⟨_, rfl, by simp [hudp]⟩
  | offerConfirmation packet hudp => exact ⟨_, rfl, by simp [hudp]⟩
  | offer index packet hudp => exact ⟨_, rfl, by simp [hudp]⟩
  | byeBye hudp => exact ⟨_, rfl, by simp [hudp]⟩
  | _ => exact ⟨[], (List.append_nil _).symm, by simp⟩

theorem sendHistory_steps (hsteps : Steps N e e') :
    ∃ actions, e'.sendHistory = e.sendHistory ++ actions ∧
      (e.udpConnected = false → e'.udpConnected = false ∧ ∀ action ∈ actions, action.Quiet) := by
  refine Runs.chain_invariant (I := fun x => ∃ actions, x.sendHistory = e.sendHistory ++ actions ∧
    (e.udpConnected = false → x.udpConnected = false ∧ ∀ action ∈ actions, action.Quiet))
    (fun x y hx hxy => ?_) hsteps ⟨[], (List.append_nil _).symm, by simp⟩
  obtain ⟨actions, hactions, hquiet⟩ := hx
  obtain ⟨new, hnew, hquietN⟩ := sendHistory_step hxy
  refine ⟨actions ++ new, by rw [hnew, hactions, List.append_assoc], fun hudp => ?_⟩
  obtain ⟨hclosed, hall⟩ := hquiet hudp
  refine ⟨(udpClosed_step hxy hclosed).1, fun action haction => ?_⟩
  rcases List.mem_append.mp haction with haction | haction
  · exact hall action haction
  · exact hquietN hclosed action haction

end Protocol

namespace Connection

variable (c : Connection)

/-- A ByeBye packet is scheduled or was built. -/
def Parting : Prop :=
  c.isEnabled .buildByeBye = true ∨ c.byeByes ≠ []

instance : Decidable c.Parting :=
  inferInstanceAs (Decidable (_ ∨ _))

/-- The handler of this event runs `tcpClose` while both sides are up. -/
def ClosesTcp (event : EventName) : Prop :=
  c.tcpConnected = true ∧ c.udpConnected = true ∧
    (event = .tcpClose ∨ (event = .tcpWrite ∧ c.WritesThrough))

instance (event : EventName) : Decidable (c.ClosesTcp event) :=
  inferInstanceAs (Decidable (_ ∧ _))

/-- The move does not close TCP after a ByeBye packet is scheduled. -/
def KeepsParting (c : Connection) : Move → Prop
  | .raise event _ _ => ¬(c.Parting ∧ c.ClosesTcp event)
  | .udpRead _ _ => True

instance (m : Move) : Decidable (c.KeepsParting m) :=
  match m with
  | .raise event _ _ => inferInstanceAs (Decidable ¬(c.Parting ∧ c.ClosesTcp event))
  | .udpRead _ _ => .isTrue trivial

/-- The loop of `tcpWrite(false)` closes TCP only when it gets to a closing packet. -/
theorem writesThrough_of_tcpWriteLoop (fuel : Nat) (h : (tcpWriteLoop false fuel c).2 = true) :
    c.WritesThrough := by
  induction fuel generalizing c with
  | zero => cases h
  | succ fuel ih =>
      simp only [tcpWriteLoop, Bool.false_or, Bool.not_false, Bool.true_and] at h
      split at h
      · rename_i hmaster
        split at h
        · cases h
        · rename_i packet hpacket
          have hkey := Std.ExtTreeMap.mem_keys.mpr
            (Std.ExtTreeMap.mem_iff_isSome_getElem?.mpr (Option.isSome_of_eq_some hpacket))
          split at h
          · rename_i hskip
            split at h
            · rename_i hclosing
              exact ⟨c.tcpNextSendIndex, hkey, le_refl _, hmaster, by simpa [hpacket] using hclosing,
                fun other hge hlt => absurd hlt (not_lt.mpr hge)⟩
            · obtain ⟨index, hindex, hge, hlt, hclosing, hbetween⟩ := ih _ h
              simp only [Receiver.skip_tcpNextSendIndex, Receiver.skip_udpReceivedMasterIndex]
                at hge hlt hbetween
              have hother : ∀ {other : Int}, c.tcpNextSendIndex + 1 ≤ other →
                  (c.toReceiver.skip packet false).udpReceivedPackets[other]? =
                    c.udpReceivedPackets[other]? := fun hle =>
                Receiver.skip_other _ _ _ (by omega)
              refine ⟨index, ?_, by omega, hlt, by rwa [hother hge] at hclosing,
                fun other hle hless => ?_⟩
              · rw [Std.ExtTreeMap.mem_keys, Std.ExtTreeMap.mem_iff_isSome_getElem?] at hindex ⊢
                rwa [hother hge] at hindex
              · by_cases hfirst : other = c.tcpNextSendIndex
                · rw [hfirst]
                  simpa [hpacket] using hskip
                · rw [← hother (by omega)]
                  exact hbetween other (by omega) hless
          · cases h
      · cases h

/-- From `c` to `d` nothing but quiet actions happened, and still nothing is to be sent. -/
structure Quietly (c d : Connection) : Prop where
  history : ∃ actions, d.sendHistory = c.sendHistory ++ actions ∧ ∀ action ∈ actions, action.Quiet
  noMore : d.udpConnected = true → d.isNoMoreDataWillBeSent = true

section Quiet

variable {c} {d : Connection}

theorem Quietly.of_eq (hmore : c.isNoMoreDataWillBeSent = true) (h : d.toEndpoint = c.toEndpoint) :
    Quietly c d :=
  ⟨⟨[], by simp [h], by simp⟩, fun _ => by rw [isNoMoreDataWillBeSent, h]; exact hmore⟩

theorem Quietly.of_receiver (hmore : c.isNoMoreDataWillBeSent = true) {r : Receiver}
    (h : d.toEndpoint = { c.toEndpoint with toReceiver := r })
    (hmaster : r.udpReceivedMasterIndex = c.udpReceivedMasterIndex)
    (hfinal : r.udpReceivedFinalIndex = c.udpReceivedFinalIndex) : Quietly c d := by
  refine ⟨⟨[], by simp [h], by simp⟩, fun _ => ?_⟩
  simpa only [isNoMoreDataWillBeSent, Session.isNoMoreDataWillBeSent, h, hmaster, hfinal] using hmore

theorem Quietly.closeIfUdpFinished (h : Quietly c d) : Quietly c d.closeIfUdpFinished := by
  rcases d.closeIfUdpFinished_cases with heq | ⟨hudp, hhistory⟩
  · rw [heq]
    exact h
  · refine ⟨?_, fun hopen => ?_⟩
    · rw [hhistory]
      exact h.history
    · rw [hudp] at hopen
      cases hopen

theorem isNoMoreDataWillBeSent_iff : c.isNoMoreDataWillBeSent = true ↔
    (c.tcpConnected = false ∨ c.udpReceivedFinalIndex = c.udpReceivedMasterIndex) ∧
      c.tcpReceivedData = [] ∧ c.udpSentPackets = ∅ := by
  simp [isNoMoreDataWillBeSent, Session.isNoMoreDataWillBeSent, and_assoc]

theorem tcpRead_quietly (hudp : c.udpConnected = true) (hmore : c.isNoMoreDataWillBeSent = true) :
    Quietly c c.tcpRead := by
  obtain ⟨hclosed, hdata, hsent⟩ := isNoMoreDataWillBeSent_iff.mp hmore
  cases htcp : c.tcpConnected with
  | false => exact .of_eq hmore (by simp [tcpRead, htcp])
  | true =>
      have hfinal := hclosed.resolve_left (by simp [htcp])
      simp only [tcpRead, htcp, hudp, Bool.not_true, Bool.false_eq_true, if_false, if_true]
      generalize c.io.tcpBytes.take c.udpSendPacketSize.toNat = bytes
      by_cases hbytes : bytes = []
      · exact .of_eq hmore (by simp [hbytes])
      · have hbuild := buildUdpPackets_final { c with
          toSender := { c.toSender.record (.read bytes) with
            tcpReceivedData := c.tcpReceivedData ++ bytes } } false hudp hfinal
        rw [if_neg hbytes]
        refine ⟨⟨[.read bytes], ?_, by simp [SendAction.Quiet]⟩, fun _ => ?_⟩
        · rw [onUdpSentBufferChanged_toEndpoint]
          exact (congrArg (·.sendHistory) hbuild)
        · rw [isNoMoreDataWillBeSent, onUdpSentBufferChanged_toEndpoint]
          refine (congrArg (·.isNoMoreDataWillBeSent) hbuild).trans ?_
          simp [Session.isNoMoreDataWillBeSent, Sender.record, hfinal, hsent]

theorem tcpWrite_quietly (hmore : c.isNoMoreDataWillBeSent = true) (hudp : c.udpConnected = true)
    (hkeeps : ¬c.ClosesTcp .tcpWrite) : Quietly c c.tcpWrite := by
  cases htcp : c.tcpConnected with
  | false => exact .of_eq hmore (by simp [tcpWrite, htcp])
  | true =>
      obtain ⟨r, hr, hmaster, hfinal, -⟩ := c.tcpWriteLoop_toEndpoint false c.tcpWriteFuel
      have hopen : (tcpWriteLoop false c.tcpWriteFuel c).2 = false := by
        by_contra hclosing
        exact hkeeps ⟨htcp, hudp, .inr ⟨rfl, c.writesThrough_of_tcpWriteLoop c.tcpWriteFuel
          (by simpa using hclosing)⟩⟩
      refine .of_receiver hmore (r := r) ?_ hmaster hfinal
      simp [tcpWrite, htcp, hopen, hr]

theorem udpWrite_quietly (hmore : c.isNoMoreDataWillBeSent = true)
    (hqueue : ∀ packet ∈ c.udpConfirmationPackets, packet.wire.getType.isNumbered = false)
    (plannedTimeUs : Int) : Quietly c (c.udpWrite plannedTimeUs) := by
  have hsent := (isNoMoreDataWillBeSent_iff.mp hmore).2.2
  simp only [udpWrite]
  split
  · exact .of_eq hmore rfl
  · split
    · rename_i packet packets hqueued
      have hpacket := hqueue packet (by simp [hqueued])
      have hrecord : ∀ d : Connection, d.toEndpoint = { c.toEndpoint with
          toSender := c.toSender.record (.writeto packet.wire)
          udpConfirmationPackets := d.udpConfirmationPackets } → Quietly c d := by
        intro d hd
        refine ⟨⟨[.writeto packet.wire], by rw [hd]; rfl, by simpa [SendAction.Quiet] using hpacket⟩,
          fun _ => ?_⟩
        rw [isNoMoreDataWillBeSent, hd]
        exact hmore
      simp only [udpWriteConfirmation]
      split
      · split
        · exact (hrecord _ (by simp)).closeIfUdpFinished
        · split <;> exact hrecord _ (by simp)
      · exact hrecord _ (by simp)
    · have hnone : c.firstUnsent = none := by simp [firstUnsent, hsent]
      rw [hnone]
      exact .of_eq hmore rfl

theorem buildConfirmations_quietly (hmore : c.isNoMoreDataWillBeSent = true) :
    Quietly c c.buildConfirmations := by
  cases hudp : c.udpConnected with
  | false => exact .of_eq hmore (by simp [buildConfirmations, hudp])
  | true =>
      obtain ⟨r, packets, heq, -, -, hmaster, hfinal, -⟩ := c.buildConfirmations_toEndpoint hudp
      refine ⟨⟨[], by simp [heq], by simp⟩, fun _ => ?_⟩
      simpa only [isNoMoreDataWillBeSent, Session.isNoMoreDataWillBeSent, heq, hmaster, hfinal]
        using hmore

theorem buildByeBye_quietly (hmore : c.isNoMoreDataWillBeSent = true) :
    Quietly c c.buildByeBye := by
  have hsent := (isNoMoreDataWillBeSent_iff.mp hmore).2.2
  have hrecord : ∀ d : Connection, d.toEndpoint = { c.toEndpoint with
      toSender := c.toSender.record (.byeBye c.byeByePacket.wire c.udpSentPackets.keys)
      udpConfirmationPackets := c.udpConfirmationPackets ++ [c.byeByePacket] } → Quietly c d := by
    intro d hd
    refine ⟨⟨[.byeBye c.byeByePacket.wire c.udpSentPackets.keys], by rw [hd]; rfl,
      by simp [SendAction.Quiet, hsent]⟩, fun _ => ?_⟩
    rw [isNoMoreDataWillBeSent, hd]
    exact hmore
  simp only [buildByeBye]
  split
  · exact .of_eq hmore rfl
  · split <;> exact hrecord _ (by simp)

theorem udpReadConfirmation_quietly (hmore : c.isNoMoreDataWillBeSent = true) (packet : Packet) :
    Quietly c (c.udpReadConfirmation packet) := by
  obtain ⟨hclosed, hdata, hsent⟩ := isNoMoreDataWillBeSent_iff.mp hmore
  obtain ⟨packets, count, heq, hkept⟩ := c.foldl_confirmPacket_toEndpoint (c.confirmedIndices packet)
  have hpackets : packets = c.udpSentPackets := by
    ext index p
    rw [hsent, Std.ExtTreeMap.getElem?_empty]
    constructor
    · intro hp
      have := (hkept index p hp).1
      simp [hsent] at this
    · intro hp
      cases hp
  rw [hpackets] at heq
  have hend : ∀ d : Connection, d.toEndpoint = { c.toEndpoint with udpPacketsToSendCount := count } →
      Quietly c d := by
    intro d hd
    refine ⟨⟨[], by simp [hd], by simp⟩, fun _ => ?_⟩
    rw [isNoMoreDataWillBeSent, hd]
    exact hmore
  rw [udpReadConfirmation_eq]
  simp only
  split <;> split <;> exact hend _ heq

theorem udpReadPacket_quietly (hmore : c.isNoMoreDataWillBeSent = true) (packet : Packet)
    (haccepts : c.acceptsPacket packet = true) : Quietly c (c.udpReadPacket packet) := by
  obtain ⟨hmaster, hfinal, -⟩ := Session.acceptsPacket_eq_true haccepts
  obtain ⟨hclosed, hdata, hsent⟩ := isNoMoreDataWillBeSent_iff.mp hmore
  obtain ⟨r, hr⟩ := c.udpReadPacket_toEndpoint packet
  refine ⟨⟨[], by simp [hr], by simp⟩, fun _ => ?_⟩
  rw [isNoMoreDataWillBeSent_iff, hr]
  exact ⟨.inl (hclosed.resolve_right (by omega)), hdata, hsent⟩

theorem udpReadByeBye_quietly (hmore : c.isNoMoreDataWillBeSent = true) (packet : Packet) :
    Quietly c (c.udpReadByeBye packet) := by
  have hend : ∀ d : Connection, d.toEndpoint = { c.toEndpoint with
      toReceiver := c.toReceiver.record (.byeBye packet.wire)
      udpConfirmationPackets :=
        c.udpConfirmationPackets.filter (·.getType ≠ .confirmation) } → Quietly c d := by
    intro d hd
    refine ⟨⟨[], by simp [hd], by simp⟩, fun _ => ?_⟩
    rw [isNoMoreDataWillBeSent, hd]
    exact hmore
  simp only [udpReadByeBye]
  split <;> exact hend _ (by simp [dropConfirmations_toEndpoint])

theorem udpRead_quietly (hmore : c.isNoMoreDataWillBeSent = true) (packet : Packet) :
    Quietly c (c.udpRead packet) := by
  simp only [udpRead]
  split
  · exact .of_eq hmore rfl
  · refine Quietly.closeIfUdpFinished ?_
    split
    · exact udpReadConfirmation_quietly hmore packet
    · split
      · rename_i haccepts
        exact udpReadPacket_quietly hmore packet haccepts
      · split
        · exact udpReadByeBye_quietly hmore packet
        · exact .of_eq hmore rfl

/-- A connection with nothing more to send stays like that and is quiet, unless a
handler closes TCP. -/
theorem handle_quietly (hmore : c.isNoMoreDataWillBeSent = true) (hudp : c.udpConnected = true)
    (hqueue : ∀ packet ∈ c.udpConfirmationPackets, packet.wire.getType.isNumbered = false)
    (event : EventName) (plannedTimeUs : Int) (hkeeps : ¬c.ClosesTcp event) :
    Quietly c (c.handle event plannedTimeUs) := by
  obtain ⟨hclosed, hdata, hsent⟩ := isNoMoreDataWillBeSent_iff.mp hmore
  cases event with
  | tcpRead => exact tcpRead_quietly hudp hmore
  | tcpWrite => exact tcpWrite_quietly hmore hudp hkeeps
  | tcpClose =>
      have htcp : c.tcpConnected = false := by
        by_contra hopen
        exact hkeeps ⟨by simpa using hopen, hudp, .inl rfl⟩
      exact .of_eq hmore (by simp [handle, tcpClose, htcp])
  | udpWrite => exact udpWrite_quietly hmore hqueue plannedTimeUs
  | udpClose =>
      refine ⟨⟨[], by simp [handle, udpClose_sendHistory], by simp⟩, fun hopen => ?_⟩
      rw [handle, udpClose_udpConnected] at hopen
      cases hopen
  | buildUdpPackets => exact .of_eq hmore (c.buildUdpPackets_nil true hdata)
  | buildConfirmations => exact buildConfirmations_quietly hmore
  | buildByeBye => exact buildByeBye_quietly hmore
  | udpResend =>
      have hkeys : c.udpSentPackets.keys = [] := by simp [hsent]
      exact .of_eq hmore (by simp [handle, udpResend, hudp, hkeys, udpResendLoop])
  | udpCloseWait => exact Quietly.closeIfUdpFinished (.of_eq hmore rfl)
  | close => exact .of_eq hmore rfl

end Quiet

section Scheduling

theorem tcpRead_byeByes : c.tcpRead.byeByes = c.byeByes := by
  simp only [tcpRead]
  split
  · rfl
  · rw [onUdpSentBufferChanged_toEndpoint]
    split
    · rfl
    · split
      · rw [buildUdpPackets_byeByes]
        simp [Sender.record, Sender.byeByes, SendAction.byeBye?]
      · simp [SendAction.byeBye?]

theorem tcpWrite_byeByes : c.tcpWrite.byeByes = c.byeByes := by
  obtain ⟨r, hr, -⟩ := c.tcpWriteLoop_toEndpoint false c.tcpWriteFuel
  simp only [tcpWrite]
  split
  · rfl
  · split
    · rw [tcpClose_byeByes, hr]
    · rw [hr]

theorem closeIfUdpFinished_byeByes : c.closeIfUdpFinished.byeByes = c.byeByes := by
  simp only [Sender.byeByes, closeIfUdpFinished_sendHistory]

theorem udpWriteConfirmation_byeByes (plannedTimeUs : Int) (packet : Packet) (packets : List Packet) :
    (c.udpWriteConfirmation plannedTimeUs packet packets).byeByes = c.byeByes := by
  simp only [udpWriteConfirmation]
  split
  · split
    · simp [closeIfUdpFinished_byeByes, SendAction.byeBye?]
    · split <;> simp [SendAction.byeBye?]
  · simp [SendAction.byeBye?]

theorem udpWrite_byeByes (hwellFormed : c.toSender.WellFormed) (plannedTimeUs : Int) :
    (c.udpWrite plannedTimeUs).byeByes = c.byeByes := by
  simp only [udpWrite]
  split
  · rfl
  · split
    · exact c.udpWriteConfirmation_byeByes plannedTimeUs _ _
    · split
      · rename_i index packet hfirst
        obtain ⟨hpacket, -⟩ := c.firstUnsent_eq_some hfirst
        rw [udpWritePacket_eq c _ _ _ (hwellFormed.sent_unconfirmed index packet hpacket)]
        simp only
        split
        · split <;> simp [markSent_toEndpoint, Sender.record, Sender.byeByes, SendAction.byeBye?]
        · split <;> simp [SendAction.byeBye?]
      · rfl

theorem buildConfirmations_byeByes : c.buildConfirmations.byeByes = c.byeByes := by
  cases hudp : c.udpConnected with
  | false => simp [buildConfirmations, hudp]
  | true =>
      obtain ⟨r, packets, heq, -⟩ := c.buildConfirmations_toEndpoint hudp
      simp only [heq]

theorem udpResend_byeByes : c.udpResend.byeByes = c.byeByes := by
  simp only [udpResend]
  split
  · rfl
  · simp only [Sender.byeByes, udpResendLoop_sendHistory, tick_toEndpoint]

theorem handle_byeByes (hwellFormed : c.toSender.WellFormed) {event : EventName}
    (hevent : event ≠ .buildByeBye) (plannedTimeUs : Int) :
    (c.handle event plannedTimeUs).byeByes = c.byeByes := by
  cases event with
  | tcpRead => exact c.tcpRead_byeByes
  | tcpWrite => exact c.tcpWrite_byeByes
  | tcpClose => exact c.tcpClose_byeByes _
  | udpWrite => exact c.udpWrite_byeByes hwellFormed plannedTimeUs
  | udpClose => simp only [handle, Sender.byeByes, udpClose_sendHistory]
  | buildUdpPackets => exact c.buildUdpPackets_byeByes true
  | buildConfirmations => exact c.buildConfirmations_byeByes
  | buildByeBye => exact absurd rfl hevent
  | udpResend => exact c.udpResend_byeByes
  | udpCloseWait => exact c.closeIfUdpFinished_byeByes
  | close => rfl

theorem udpRead_sendHistory (packet : Packet) : (c.udpRead packet).sendHistory = c.sendHistory := by
  simp only [udpRead]
  split
  · rfl
  · rw [closeIfUdpFinished_sendHistory]
    split
    · obtain ⟨packets, count, heq, -⟩ :=
        c.foldl_confirmPacket_toEndpoint (c.confirmedIndices packet)
      rw [udpReadConfirmation_eq]
      simp only
      split <;> split <;> simp [heq]
    · split
      · obtain ⟨r, hr⟩ := c.udpReadPacket_toEndpoint packet
        rw [hr]
      · split
        · simp only [udpReadByeBye]
          split <;> simp [dropConfirmations_toEndpoint]
        · rfl

theorem handle_isEnabled_buildByeBye (hwellFormed : c.toSender.WellFormed) {event : EventName}
    (hevent : event ≠ .buildByeBye) (plannedTimeUs : Int) :
    (c.handle event plannedTimeUs).isEnabled .buildByeBye = c.isEnabled .buildByeBye := by
  cases event with
  | tcpRead => exact c.tcpRead_frame.2.2 _ nofun nofun nofun
  | tcpWrite => exact c.tcpWrite_frame.2.2 _ nofun nofun nofun nofun nofun
  | tcpClose => exact (c.tcpClose_frame _).2.2 _ nofun nofun nofun nofun nofun
  | udpWrite =>
      exact (c.udpWrite_frame _ hwellFormed.sent_unconfirmed).2.2 _ nofun nofun nofun nofun nofun
        nofun nofun
  | udpClose => exact c.udpClose_frame.2.2 _ nofun nofun nofun nofun nofun nofun nofun
  | buildUdpPackets => exact (c.buildUdpPackets_frame true).2.2 _ nofun nofun nofun
  | buildConfirmations => exact c.buildConfirmations_frame.2 _ nofun nofun nofun
  | buildByeBye => exact absurd rfl hevent
  | udpResend => exact c.udpResend_frame.2.2 _ nofun nofun nofun nofun nofun nofun nofun
  | udpCloseWait => exact c.closeIfUdpFinished_frame.2.2 _ nofun nofun nofun nofun nofun nofun nofun
  | close => rfl

theorem udpRead_schedules (packet : Packet)
    (h : (c.udpRead packet).isEnabled .buildByeBye = true)
    (hudp : (c.udpRead packet).udpConnected = true) :
    c.isEnabled .buildByeBye = true ∨ (c.udpRead packet).isNoMoreDataWillBeSent = true := by
  simp only [udpRead] at h hudp ⊢
  split at h
  · exact .inl h
  · rename_i hopen
    rw [if_neg hopen] at hudp ⊢
    rw [closeIfUdpFinished_of_open _ hudp] at h ⊢
    split at h
    · rename_i htype
      rw [if_pos htype]
      obtain ⟨-, -, hevents⟩ := c.foldl_confirmPacket_frame (c.confirmedIndices packet)
      rw [udpReadConfirmation_eq] at h ⊢
      simp only at h ⊢
      generalize (c.confirmedIndices packet).foldl confirmPacket c = d at h hevents ⊢
      have hname : (if d.udpPacketsToSendCount ≥ d.udpSentPackets.size then d.disable .udpResend
          else d).isEnabled .buildByeBye = c.isEnabled .buildByeBye := by
        rw [← hevents .buildByeBye (by decide)]
        split
        · exact isEnabled_disable_of_ne _ _ (by decide)
        · rfl
      generalize (if d.udpPacketsToSendCount ≥ d.udpSentPackets.size then d.disable .udpResend
        else d) = e at h hname ⊢
      split at h
      · rename_i hmore
        rw [if_pos hmore]
        exact .inr (Bool.and_eq_true_iff.mp hmore).1
      · exact .inl (hname.symm.trans h)
    · left
      split at h
      · rwa [(c.udpReadPacket_frame packet).2.2.2 .buildByeBye (by decide) (by decide) (by decide)] at h
      · split at h
        · rwa [(c.udpReadByeBye_frame packet).2.2.2 .buildByeBye (by decide) (by decide) (by decide)] at h
        · exact h

end Scheduling

/-- A connection that has scheduled a ByeBye packet has nothing more to send. -/
structure Promising (c : Connection) : Prop where
  sound : c.toEndpoint.Sound
  noMore : c.udpConnected = true → c.Parting → c.isNoMoreDataWillBeSent = true
  parted : c.Parted

theorem queue_not_numbered {e : Endpoint} (h : e.Sound) :
    ∀ packet ∈ e.udpConfirmationPackets, packet.wire.getType.isNumbered = false := by
  intro packet hpacket
  rcases h.transmitting.queue_encoded packet hpacket with hmem | hmem
  · rw [h.acknowledging.confirmation_type _ hmem]
    rfl
  · rw [h.acknowledging.byeBye_type _ hmem]
    rfl

variable {c} {d : Connection}

theorem Promising.step_of_not_parting {m : Move} (h : c.Promising)
    (hparting : ¬c.Parting) (hm : c.step m = some d) : d.Promising := by
  obtain ⟨hdisabled, hnone⟩ := not_or.mp hparting
  have hwellFormed := h.sound.sending.wellFormed
  have hsound := sound_step h.sound hm
  have hend : d.byeByes = [] ∧ (d.udpConnected = true → d.isEnabled .buildByeBye = true →
      d.isNoMoreDataWillBeSent = true) := by
    cases m with
    | «raise» event timeUs io =>
        obtain ⟨-, henabled, -, rfl⟩ := of_step_raise hm
        have hevent : event ≠ .buildByeBye := fun heq => hdisabled (heq ▸ henabled)
        refine ⟨?_, fun _ hscheduled => absurd ?_ hdisabled⟩
        · exact (handle_byeByes (({ c with io := io } : Connection).disable event) hwellFormed hevent
            _).trans (not_not.mp hnone)
        · rw [«raise», handle_isEnabled_buildByeBye (({ c with io := io } : Connection).disable event)
            hwellFormed hevent, isEnabled_disable_of_ne _ _ hevent.symm] at hscheduled
          exact hscheduled
    | udpRead packet io =>
        obtain ⟨-, rfl⟩ := of_step_udpRead hm
        refine ⟨?_, fun hudp hscheduled => ?_⟩
        · simp only [Sender.byeByes, udpRead_sendHistory]
          exact not_not.mp hnone
        · exact (udpRead_schedules { c with io := io } packet.wire hscheduled hudp).resolve_left
            hdisabled
  obtain ⟨hbyeByes, hscheduled⟩ := hend
  have hno : ∀ action ∈ d.sendHistory, action.byeBye?.isSome = false := by
    intro action haction
    have := List.filterMap_eq_nil_iff.mp hbyeByes action haction
    simp [this]
  refine ⟨hsound, fun hudp hparting => ?_, ?_, ?_⟩
  · exact hscheduled hudp (hparting.resolve_right (not_not.mpr hbyeByes))
  · intro packet unconfirmed hmem
    cases hno _ hmem
  · refine List.Pairwise.imp_of_mem ?_ (List.pairwise_of_forall fun _ _ => trivial)
    intro a b ha _ _ hbyeBye
    rw [hno a ha] at hbyeBye
    cases hbyeBye

theorem Promising.step_of_quietly (h : c.Promising) (hsound : d.toEndpoint.Sound)
    (hquiet : Quietly c d) : d.Promising := by
  obtain ⟨actions, hactions, hall⟩ := hquiet.history
  refine ⟨hsound, fun hudp _ => hquiet.noMore hudp, ?_, ?_⟩
  · intro packet unconfirmed hmem
    rw [hactions, List.mem_append] at hmem
    rcases hmem with hmem | hmem
    · exact h.parted.unconfirmed packet unconfirmed hmem
    · exact hall _ hmem
  · rw [hactions, List.pairwise_append]
    exact ⟨h.parted.quiet, List.Pairwise.imp_of_mem (fun _ hb _ _ => hall _ hb)
      (List.pairwise_of_forall fun _ _ => trivial), fun a _ b hb _ => hall b hb⟩

theorem Promising.step {m : Move} (h : c.Promising) (hkeeps : c.KeepsParting m)
    (hm : c.step m = some d) : d.Promising := by
  have hsound := sound_step h.sound hm
  by_cases hparting : c.Parting
  · cases hudp : c.udpConnected with
    | false =>
        obtain ⟨actions, hactions, hquiet⟩ := Protocol.sendHistory_steps
          (step_refines (N := fun _ => True) hm fun _ _ => trivial)
        obtain ⟨hclosed, hall⟩ := hquiet hudp
        refine h.step_of_quietly hsound ⟨⟨actions, hactions, hall⟩, fun hopen => ?_⟩
        rw [hclosed] at hopen
        cases hopen
    | true =>
        have hmore := h.noMore hudp hparting
        refine h.step_of_quietly hsound ?_
        cases m with
        | «raise» event timeUs io =>
            simp only [Connection.step, Option.ite_none_right_eq_some, Option.some.injEq] at hm
            obtain ⟨-, rfl⟩ := hm
            have hquiet := handle_quietly (c := ({ c with io := io } : Connection).disable event)
              hmore hudp (queue_not_numbered h.sound) event (c.events event).timeUs
              fun hcloses => hkeeps ⟨hparting, hcloses⟩
            exact ⟨hquiet.history, hquiet.noMore⟩
        | udpRead packet io =>
            simp only [Connection.step, Option.ite_none_left_eq_some, Option.some.injEq] at hm
            obtain ⟨-, rfl⟩ := hm
            have hquiet := udpRead_quietly (c := { c with io := io }) hmore packet.wire
            exact ⟨hquiet.history, hquiet.noMore⟩
  · exact h.step_of_not_parting hparting hm

end Connection

namespace Protocol

variable {N : Packet → Prop} {e e' : Endpoint}

theorem mem_byeBye (hstep : Step N e e') {p : Packet} (hp : .byeBye p ∈ e'.receiveHistory) :
    .byeBye p ∈ e.receiveHistory ∨ ∃ q, N q ∧ q.getType = .byeBye ∧ p = q.wire := by
  cases hstep with
  | skip packet fake =>
      rw [Receiver.skip_receiveHistory] at hp
      exact .inl (by simpa using hp)
  | skipClosing packet =>
      rw [Receiver.skip_receiveHistory] at hp
      exact .inl (by simpa using hp)
  | skipClosingUnused packet =>
      rw [Receiver.skip_receiveHistory] at hp
      exact .inl (by simpa using hp)
  | write packet size =>
      rw [Receiver.write_receiveHistory] at hp
      left
      split at hp <;> simpa using hp
  | accept packet =>
      obtain ⟨masterIndex, finalIndex, heq, -⟩ := e.toReceiver.accept_eq packet
      rw [heq] at hp
      exact .inl (by simpa using hp)
  | confirm payload => exact .inl (by simpa using hp)
  | prune index =>
      rw [Receiver.pruneKey_receiveHistory] at hp
      exact .inl hp
  | acceptByeBye packet hnet hudp haccepts =>
      simp only [Receiver.mem_record_receiveHistory, ReceiveAction.byeBye.injEq] at hp
      simp only [Session.acceptsByeBye, Bool.and_eq_true, decide_eq_true_eq] at haccepts
      exact hp.imp_right fun heq => ⟨packet, hnet, haccepts.1.1, heq⟩
  | _ => exact .inl hp

theorem byeByes_subset (hstep : Step N e e') {p : Packet} (hp : p ∈ e.byeByes) :
    p ∈ e'.byeByes := by
  obtain ⟨actions, hactions, -⟩ := sendHistory_step hstep
  simp only [Sender.byeByes, hactions, List.filterMap_append, List.mem_append]
  exact .inl hp

end Protocol

namespace Tunnel

/-- Every ByeBye packet that a side took was built by the other side. -/
structure Bidden (x : Endpoints) : Prop where
  honest : Honest x
  built : ∀ side p, .byeBye p ∈ (x side).receiveHistory → p ∈ (x side.other).byeByes

theorem Bidden.step {x y : Endpoints} (h : Bidden x) (hstep : ProtocolStep x y) : Bidden y := by
  refine ⟨h.honest.step hstep, ?_⟩
  obtain ⟨side, e, hside, hlt⟩ := hstep
  intro a p hp
  rcases Side.eq_or_eq_other side a with rfl | rfl
  · simp only [Function.update_self, Function.update_of_ne a.other_ne] at hp ⊢
    rcases Protocol.mem_byeBye hside hp with hold | ⟨q, hq, htype, rfl⟩
    · exact h.built a p hold
    · rw [Sender.wire_of_mem_transmitted hq]
      have hsound := h.honest.sound a.other
      have hnumbered : q.getType.isNumbered = false := by rw [htype]; rfl
      rcases hsound.transmitting.transmitted_encoded q hq with hcreated | hconfirmation | hbyeBye
      · obtain ⟨i, hi⟩ := List.mem_iff_getElem?.mp hcreated
        obtain ⟨type, payload, hpacket, -, -, rfl⟩ := hsound.sending.wellFormed.created_eq i q hi
        rw [Packet.datagram_getType _ _ (PacketType.ofByte_toByte_of_isNumbered hpacket),
          hpacket] at hnumbered
        cases hnumbered
      · rw [hsound.acknowledging.confirmation_type q hconfirmation] at htype
        cases htype
      · exact hbyeBye
  · simp only [Function.update_of_ne side.other_ne, Side.other_other, Function.update_self]
      at hp ⊢
    have hold := h.built side.other p hp
    rw [Side.other_other] at hold
    exact Protocol.byeByes_subset hside hold

theorem bidden_initial {config : Side → Config} {t : Tunnel} (h : Initial config t) :
    Bidden t.endpoints := by
  refine ⟨honest_initial h, fun side p hp => ?_⟩
  rw [endpoints_initial h] at hp
  cases hp

/-- The runs in which no side closes TCP after it has scheduled a ByeBye packet. -/
abbrev ReachableParting (config : Side → Config) : Tunnel → Prop :=
  Runs.Reachable (Initial config) step (EachSide Connection.KeepsParting)

theorem promising_initial {config : Config} {c : Connection}
    (h : Connection.Initial config c) : c.Promising := by
  have hsound := Connection.sound_initial h
  obtain ⟨intervalUs, summaryUs, io, rfl⟩ := h
  have hbyeByes : (Connection.new config intervalUs summaryUs io).byeByes = [] := by
    rw [Connection.new_toEndpoint]
    rfl
  have hdisabled : (Connection.new config intervalUs summaryUs io).isEnabled .buildByeBye = false :=
    Connection.isEnabled_new _ _ _ _ nofun nofun nofun nofun
  refine ⟨hsound, fun _ hparting => ?_, ?_, ?_⟩
  · rcases hparting with henabled | hbuilt
    · rw [hdisabled] at henabled
      cases henabled
    · exact absurd hbyeByes hbuilt
  · intro packet unconfirmed hmem
    rw [Connection.new_toEndpoint] at hmem
    simp [Endpoint.initial, Endpoint.blank, Sender.push] at hmem
  · rw [Connection.new_toEndpoint]
    simp [Endpoint.initial, Endpoint.blank, Sender.push]

/-- A ByeBye packet keeps its promise in every run in which no side closes TCP after
it has scheduled one: nothing was unconfirmed when it was built, nothing was sent after
it, and whoever took it had confirmed everything below its index. -/
theorem parted_of_keepsParting {config : Side → Config} {t : Tunnel} (h : ReachableParting config t)
    (side : Side) :
    (t side).Parted ∧
      ∀ packet, .byeBye packet ∈ (t side.other).receiveHistory →
        ∀ index < packet.getIndex, index ∉ (t side).udpSentPackets := by
  have hpromising := Runs.Reachable.invariant (fun _ => promising_initial)
    (fun _ _ _ hc hok hm => Connection.Promising.step hc hok hm) (reachable_side h side)
  refine ⟨hpromising.parted, fun packet hpacket index _ hmem => ?_⟩
  have hbidden := Runs.Reachable.invariant_of_refines (fun _ => bidden_initial)
    (fun _ _ _ _ _ hm => step_refines hm) (fun _ _ => Bidden.step) h
  have hbuilt := hbidden.built side.other packet hpacket
  rw [Side.other_other] at hbuilt
  have hempty : (t side).udpSentPackets = ∅ := by
    cases hudp : (t side).udpConnected with
    | false => exact (hpromising.sound.sending.unconnected hudp).2
    | true =>
        exact (Connection.isNoMoreDataWillBeSent_iff.mp (hpromising.noMore hudp
          (.inr (List.ne_nil_of_mem hbuilt)))).2.2
  simp [hempty] at hmem

/-- The server closes, and its Bye packet and its Confirmation packet leave the client
with nothing to confirm and nothing to send. -/
def scheduledRun : List Move :=
  [.raise .client .udpWrite 0 (Io.steady 0),
    .raise .server .udpWrite 0 (Io.steady 0),
    .raise .server .tcpClose 6 (Io.steady 6),
    .raise .server .udpWrite 20 (Io.steady 20),
    .deliver .client 0 (Io.steady 25),
    .deliver .client 1 (Io.steady 25),
    .deliver .server 0 (Io.steady 25),
    .raise .server .buildConfirmations 125 (Io.steady 125),
    .raise .server .udpWrite 135 (Io.steady 135),
    .deliver .client 2 (Io.steady 140)]

/-- The client builds its ByeBye packet. -/
def byeByeRun : List Move :=
  scheduledRun ++ [.raise .client .buildByeBye 140 (Io.steady 140)]

/-- The client hands the server's Bye packet to TCP first, and closes it. -/
def hastyRun : List Move :=
  scheduledRun ++
    [.raise .client .tcpWrite 140 (Io.steady 140),
      .raise .client .buildByeBye 140 (Io.steady 140)]

def byeByeState : Option Tunnel :=
  Runs.run step (EachSide Connection.KeepsParting) (fresh Config.small) byeByeRun

theorem byeByeState_isSome : byeByeState.isSome = true := by
  decide +kernel

theorem parted_of_keepsParting_byeByeRun :
    ∃ t, ReachableParting (fun _ => Config.small) t ∧ (t .client).byeByes ≠ [] ∧
      (t .client).Parted := by
  have hreachable : ReachableParting (fun _ => Config.small) (byeByeState.get byeByeState_isSome) :=
    Runs.Reachable.of_run (.start fun _ => ⟨10, 0, Io.steady 0, rfl⟩)
      (Option.some_get byeByeState_isSome).symm
  exact ⟨_, hreachable, by decide +kernel, (parted_of_keepsParting hreachable .client).1⟩

theorem hastyRun_isSome : (play Config.small hastyRun).isSome = true := by
  decide +kernel

/-- A ByeBye packet with an unconfirmed Bye packet below its index. -/
theorem unconfirmed_hastyRun :
    ∃ (t : Tunnel) (packet : Packet), Reachable (fun _ => Config.small) t ∧
      .byeBye packet [1] ∈ (t .client).sendHistory ∧ packet.getIndex = 2 ∧
      (1 : Int) ∈ (t .client).udpSentPackets := by
  have hreachable := Reachable.of_play (Option.some_get hastyRun_isSome).symm
  refine ⟨_, .datagram .byeBye 2 [], hreachable, ?_⟩
  decide +kernel

end Tunnel

end IceTunnel
