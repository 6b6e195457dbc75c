import IceTunnel.Completing
import IceTunnel.Parting
import IceTunnel.Reordering
import IceTunnel.Waking

namespace IceTunnel

namespace Connection

/-- Nothing that `isUdpFinished()` waits for is left without a handler: TCP is passed by
once it is closed, and what is not confirmed is going to be. -/
structure Attentive (c : Connection) : Prop where
  passed : c.tcpConnected = false → c.udpReceivedMasterIndex ≤ c.tcpNextSendIndex
  answering : c.udpConfirmedMasterIndex < c.udpReceivedMasterIndex → c.remainConfirmationResendCount > 0

/-- The same while the UDP side is up. -/
def Attends (c : Connection) : Prop :=
  c.udpConnected = true → c.Attentive

variable {c d : Connection}

theorem Attentive.of_same (h : c.Attentive) (htcp : d.tcpConnected = c.tcpConnected)
    (hreceiver : d.toReceiver = c.toReceiver)
    (hcount : d.remainConfirmationResendCount = c.remainConfirmationResendCount) : d.Attentive := by
  obtain ⟨hpassed, hanswering⟩ := h
  refine ⟨?_, ?_⟩
  · rw [htcp, hreceiver]
    exact hpassed
  · rw [hcount, hreceiver]
    exact hanswering

theorem attends_of_closed (h : c.udpConnected = false) : c.Attends := by
  intro hudp
  rw [h] at hudp
  cases hudp

theorem Attends.closeIfUdpFinished (h : c.Attends) : c.closeIfUdpFinished.Attends := by
  rcases c.closeIfUdpFinished_eq with ⟨-, heq⟩ | ⟨-, finished, heq⟩
  · rw [heq]
    exact h
  · rw [heq]
    exact attends_of_closed (udpClose_udpConnected _)

variable (c)

theorem tcpWriteFake_passed (hwellFormed : c.toReceiver.WellFormed) (htcp : c.tcpConnected = false) :
    c.tcpWriteFake.tcpNextSendIndex = c.udpReceivedMasterIndex ∧
      c.tcpWriteFake.udpReceivedMasterIndex = c.udpReceivedMasterIndex ∧
      c.tcpWriteFake.udpConfirmedMasterIndex = c.udpConfirmedMasterIndex := by
  have hfake : c.tcpWriteFake = (tcpWriteLoop true c.tcpWriteFuel c).1 := by
    rw [tcpWriteFake, htcp]
    rfl
  have hpassed := tcpWriteLoop_fake_passedAll hwellFormed (le_refl c.tcpWriteFuel)
  obtain ⟨r, hr, -, -, hconfirmed, -⟩ := c.tcpWriteLoop_toEndpoint true c.tcpWriteFuel
  rw [hfake]
  refine ⟨hpassed.next_eq, hpassed.master_eq, ?_⟩
  rw [hr]
  exact hconfirmed

theorem tcpClose_passed (error : Bool) (hwellFormed : c.toReceiver.WellFormed)
    (htcp : c.tcpConnected = true) (hudp : c.udpConnected = true) :
    (c.tcpClose error).tcpNextSendIndex = c.udpReceivedMasterIndex ∧
      (c.tcpClose error).udpReceivedMasterIndex = c.udpReceivedMasterIndex ∧
      (c.tcpClose error).udpConfirmedMasterIndex = c.udpConfirmedMasterIndex := by
  let c₀ := ({ c with tcpConnected := false }.disable .tcpRead).disable .tcpWrite
  have hclose : c.tcpClose error = (((c₀.tcpWriteFake.buildUdpPackets true).push
      (if error then .disconnect else .bye) []).onUdpSentBufferChanged 0).setEventUdpWrite := by
    simp [tcpClose, htcp, hudp, c₀]
  obtain ⟨s, hs⟩ := c₀.tcpWriteFake.buildUdpPackets_toEndpoint true
  have hreceiver : (c.tcpClose error).toReceiver = c₀.tcpWriteFake.toReceiver := by
    rw [hclose, setEventUdpWrite_toEndpoint, onUdpSentBufferChanged_toEndpoint, push_toEndpoint, hs]
  rw [hreceiver]
  exact c₀.tcpWriteFake_passed hwellFormed rfl

theorem tcpClose_attends (error : Bool) (hwellFormed : c.toReceiver.WellFormed) (h : c.Attends) :
    (c.tcpClose error).Attends := by
  intro hudp
  rw [(c.tcpClose_ends error).2] at hudp
  obtain ⟨hcountdown, -⟩ := c.tcpClose_frame error
  cases htcp : c.tcpConnected with
  | false =>
      simp only [tcpClose, htcp, Bool.not_false, if_true]
      exact h hudp
  | true =>
      obtain ⟨hnext, hmaster, hconfirmed⟩ := c.tcpClose_passed error hwellFormed htcp hudp
      refine ⟨fun _ => ?_, fun hlt => ?_⟩
      · rw [hnext, hmaster]
      · rw [hcountdown]
        rw [hmaster, hconfirmed] at hlt
        exact (h hudp).answering hlt

theorem tcpRead_attends (h : c.Attends) : c.tcpRead.Attends := by
  obtain ⟨s, hs⟩ := c.tcpRead_toEndpoint
  obtain ⟨hcountdown, -⟩ := c.tcpRead_frame
  intro hudp
  rw [hs] at hudp
  exact (h hudp).of_same (by rw [hs]) (by rw [hs]) (by rw [hcountdown])

theorem tcpWriteLoop_wellFormed (fuel : Nat) (hsound : c.toEndpoint.Sound) (htcp : c.tcpConnected = true) :
    (tcpWriteLoop false fuel c).1.toReceiver.WellFormed := by
  obtain ⟨hopen, hclose⟩ := c.tcpWriteLoop_steps (N := fun _ => True) fuel htcp
  cases hclosing : (tcpWriteLoop false fuel c).2 with
  | false => exact (hsound.steps (hopen hclosing)).receiving
  | true =>
      obtain ⟨e, packet, hsteps, -, hnext, -, heq⟩ := hclose hclosing
      rw [heq]
      exact (hsound.steps hsteps).receiving.skip false hnext.2 hnext.1

theorem tcpWrite_attends (hsound : c.toEndpoint.Sound) (h : c.Attends) : c.tcpWrite.Attends := by
  cases htcp : c.tcpConnected with
  | false =>
      simp only [tcpWrite, htcp, Bool.not_false, if_true]
      exact h
  | true =>
      obtain ⟨r, hr, hmaster, -, hconfirmed, -⟩ := c.tcpWriteLoop_toEndpoint false c.tcpWriteFuel
      obtain ⟨hcountdown, -⟩ := c.tcpWriteLoop_frame false c.tcpWriteFuel
      have hwellFormed := c.tcpWriteLoop_wellFormed c.tcpWriteFuel hsound htcp
      have hloop : (tcpWriteLoop false c.tcpWriteFuel c).1.Attends := by
        intro hudp
        rw [hr] at hudp
        refine ⟨fun hclosed => ?_, fun hlt => ?_⟩
        · rw [hr, htcp] at hclosed
          cases hclosed
        · rw [hcountdown]
          rw [hr, hmaster, hconfirmed] at hlt
          exact (h hudp).answering hlt
      simp only [tcpWrite, htcp, Bool.not_true, Bool.false_eq_true, if_false]
      split
      · exact tcpClose_attends _ false hwellFormed hloop
      · exact hloop

theorem Attends.of_same {d : Connection} (h : c.Attends) (htcp : d.tcpConnected = c.tcpConnected)
    (hudp : d.udpConnected = c.udpConnected) (hreceiver : d.toReceiver = c.toReceiver)
    (hcount : d.remainConfirmationResendCount = c.remainConfirmationResendCount) : d.Attends := by
  intro hopen
  rw [hudp] at hopen
  exact (h hopen).of_same htcp hreceiver hcount

theorem udpWriteConfirmation_attends (plannedTimeUs : Int) (packet : Packet) (packets : List Packet)
    (h : c.Attends) : (c.udpWriteConfirmation plannedTimeUs packet packets).Attends := by
  have hwritten : ∀ d : Connection, d.toEndpoint = { c.toEndpoint with
      toSender := c.toSender.record (.writeto packet.wire)
      udpConfirmationPackets := d.udpConfirmationPackets } →
      d.toCountdown = c.toCountdown → d.Attends := by
    intro d hd hcountdown
    exact h.of_same c (by rw [hd]) (by rw [hd]) (by rw [hd]) (by rw [hcountdown])
  simp only [udpWriteConfirmation]
  split
  · split
    · exact (hwritten _ (by simp) (by simp)).closeIfUdpFinished
    · split <;> exact hwritten _ (by simp) (by simp)
  · exact hwritten _ (by simp) (by simp)

theorem udpWritePacket_attends (plannedTimeUs index : Int) (packet : Packet)
    (hconfirmed : packet.confirmed = false) (h : c.Attends) :
    (c.udpWritePacket plannedTimeUs index packet).Attends := by
  obtain ⟨hcountdown, -⟩ := c.udpWritePacket_frame plannedTimeUs index packet hconfirmed
  have hend : ∃ s : Sender, (c.udpWritePacket plannedTimeUs index packet).toEndpoint =
      { c.toEndpoint with toSender := s } := by
    rw [udpWritePacket_eq c _ _ _ hconfirmed]
    simp only
    split <;> split
    all_goals
      simp only [setTime_toEndpoint, setTimeRelativeNow_toEndpoint, markSent_toEndpoint]
      exact ⟨_, rfl⟩
  obtain ⟨s, hs⟩ := hend
  exact h.of_same c (by rw [hs]) (by rw [hs]) (by rw [hs]) (by rw [hcountdown])

theorem udpWrite_attends (plannedTimeUs : Int) (hsound : c.toEndpoint.Sound) (h : c.Attends) :
    (c.udpWrite plannedTimeUs).Attends := by
  simp only [udpWrite]
  split
  · exact h
  · split
    · exact c.udpWriteConfirmation_attends _ _ _ h
    · split
      · rename_i index packet hfirst
        obtain ⟨hpacket, -⟩ := c.firstUnsent_eq_some hfirst
        exact c.udpWritePacket_attends _ _ _
          (hsound.sending.wellFormed.sent_unconfirmed index packet hpacket) h
      · exact h

theorem buildUdpPackets_attends (h : c.Attends) : (c.buildUdpPackets true).Attends := by
  obtain ⟨s, hs⟩ := c.buildUdpPackets_toEndpoint true
  obtain ⟨hcountdown, -⟩ := c.buildUdpPackets_frame true
  exact h.of_same c (by rw [hs]) (by rw [hs]) (by rw [hs]) (by rw [hcountdown])

/-- The round that counts down confirms everything. -/
theorem buildConfirmations_attends (h : c.Attends) : c.buildConfirmations.Attends := by
  cases hudp : c.udpConnected with
  | false =>
      simp only [buildConfirmations, hudp, Bool.not_false, if_true]
      exact h
  | true =>
      obtain ⟨r, packets, hend, -, hnext, hmaster, -, hconfirmed⟩ := c.buildConfirmations_toEndpoint hudp
      intro _
      refine ⟨fun hclosed => ?_, fun hlt => ?_⟩
      · rw [hend] at hclosed ⊢
        rw [hmaster, hnext]
        exact (h hudp).passed hclosed
      · rw [hend, hmaster, hconfirmed] at hlt
        exact absurd hlt (lt_irrefl _)

theorem buildByeBye_attends (h : c.Attends) : c.buildByeBye.Attends := by
  have hqueued : ∀ d : Connection, d.toEndpoint = { c.toEndpoint with
      toSender := c.toSender.record (.byeBye c.byeByePacket.wire c.udpSentPackets.keys)
      udpConfirmationPackets := c.udpConfirmationPackets ++ [c.byeByePacket] } →
      d.remainConfirmationResendCount = c.remainConfirmationResendCount → d.Attends := by
    intro d hd hcount
    exact h.of_same c (by rw [hd]) (by rw [hd]) (by rw [hd]) hcount
  simp only [buildByeBye]
  split
  · exact h
  · split <;> exact hqueued _ (by simp) (by simp)

theorem udpResendLoop_attends (timeUs : Int) (indices : List Int) (h : c.Attends) :
    (udpResendLoop timeUs indices c).Attends := by
  refine udpResendLoop_invariant timeUs (fun _ hd => hd) (fun d index packet hd _ => ?_)
    (fun d _ hd => hd.of_same d rfl rfl rfl rfl) (fun d _ => ?_) indices h
  · refine hd.of_same d ?_ ?_ ?_ ?_
    · rw [setEventUdpWrite_toEndpoint, markLost_toEndpoint]
    · rw [setEventUdpWrite_toEndpoint, markLost_toEndpoint]
    · rw [setEventUdpWrite_toEndpoint, markLost_toEndpoint]
    · rw [setEventUdpWrite_toCountdown]
      rfl
  · exact attends_of_closed d.udpClose_udpConnected

theorem udpResend_attends (h : c.Attends) : c.udpResend.Attends := by
  simp only [udpResend]
  split
  · exact h
  · exact udpResendLoop_attends c.tick _ _ (h.of_same c rfl rfl rfl rfl)

theorem handle_attends (event : EventName) (plannedTimeUs : Int) (hsound : c.toEndpoint.Sound)
    (h : c.Attends) : (c.handle event plannedTimeUs).Attends := by
  cases event with
  | tcpRead => exact c.tcpRead_attends h
  | tcpWrite => exact c.tcpWrite_attends hsound h
  | tcpClose => exact c.tcpClose_attends _ hsound.receiving h
  | udpWrite => exact c.udpWrite_attends _ hsound h
  | udpClose => exact attends_of_closed c.udpClose_udpConnected
  | buildUdpPackets => exact c.buildUdpPackets_attends h
  | buildConfirmations => exact c.buildConfirmations_attends h
  | buildByeBye => exact c.buildByeBye_attends h
  | udpResend => exact c.udpResend_attends h
  | udpCloseWait => exact h.closeIfUdpFinished
  | close => exact h.of_same c rfl rfl rfl rfl

section Reading

variable (packet : Packet)

theorem udpReadConfirmation_attends (h : c.Attends) : (c.udpReadConfirmation packet).Attends := by
  obtain ⟨packets, count, hend, -⟩ := c.foldl_confirmPacket_toEndpoint (c.confirmedIndices packet)
  obtain ⟨hcountdown, -⟩ := c.foldl_confirmPacket_frame (c.confirmedIndices packet)
  have hfolded : ((c.confirmedIndices packet).foldl confirmPacket c).Attends :=
    h.of_same c (by rw [hend]) (by rw [hend]) (by rw [hend]) (by rw [hcountdown])
  rw [udpReadConfirmation_eq]
  simp only
  split <;> split
  all_goals exact hfolded.of_same _ rfl rfl rfl rfl

theorem udpReadPacket_attends (hwire : packet.wire = packet) (hsound : c.toEndpoint.Sound)
    (hcount : 1 ≤ c.confirmationResendCount) (haccepts : c.toSession.acceptsPacket packet = true)
    (h : c.Attends) : (c.udpReadPacket packet).Attends := by
  by_cases hmem : packet.getIndex ∈ c.udpReceivedPackets
  · obtain ⟨hend, hremain⟩ := c.udpReadPacket_of_mem hmem
    intro hudp
    rw [hend] at hudp
    refine ⟨?_, fun _ => ?_⟩
    · rw [hend]
      exact (h hudp).passed
    · rw [hremain]
      omega
  · obtain ⟨hmaster, hfinal, -⟩ := Session.acceptsPacket_eq_true haccepts
    obtain ⟨r, hend, hremain, hpassed⟩ :=
      udpReadPacket_of_new hsound.receiving hwire hmaster hfinal hmem
    intro _
    refine ⟨fun hclosed => ?_, fun _ => ?_⟩
    · rw [hend] at hclosed ⊢
      rw [if_neg (by rw [hclosed]; decide)] at hpassed
      exact (hpassed.master_eq.trans hpassed.next_eq.symm).le
    · rw [hremain]
      omega

theorem udpReadByeBye_attends (hconfirmed : c.udpReceivedMasterIndex ≤ c.udpConfirmedMasterIndex)
    (h : c.Attends) : (c.udpReadByeBye packet).Attends := by
  have hread : ∀ d : Connection, d.toEndpoint = { c.toEndpoint with
      toReceiver := c.toReceiver.record (.byeBye packet.wire)
      udpConfirmationPackets :=
        c.udpConfirmationPackets.filter (·.getType ≠ .confirmation) } → d.Attends := by
    intro d hd hudp
    rw [hd] at hudp
    refine ⟨?_, ?_⟩
    · rw [hd]
      exact (h hudp).passed
    · rw [hd]
      intro hlt
      exact absurd (lt_of_lt_of_le hlt hconfirmed) (lt_irrefl _)
  simp only [udpReadByeBye]
  split <;> exact hread _ (by simp [dropConfirmations_toEndpoint])

theorem udpRead_attends (hwire : packet.wire = packet) (hsound : c.toEndpoint.Sound)
    (hcount : 1 ≤ c.confirmationResendCount)
    (hkeeps : c.udpConnected = true → c.toSession.acceptsByeBye packet = true →
      c.udpReceivedMasterIndex ≤ c.udpConfirmedMasterIndex)
    (h : c.Attends) : (c.udpRead packet).Attends := by
  cases hudp : c.udpConnected with
  | false =>
      simp only [udpRead, hudp, Bool.not_false, if_true]
      exact h
  | true =>
      simp only [udpRead, hudp, Bool.not_true, Bool.false_eq_true, if_false]
      apply Attends.closeIfUdpFinished
      split
      · exact c.udpReadConfirmation_attends packet h
      · split
        · rename_i haccepts
          exact c.udpReadPacket_attends packet hwire hsound hcount haccepts h
        · split
          · rename_i hbyeBye
            exact c.udpReadByeBye_attends packet (hkeeps hudp hbyeBye) h
          · exact h

end Reading

section Runs

/-- The move is a ByeBye packet, and not all that was received is confirmed. -/
def Cancels (c : Connection) : Move → Prop
  | .raise _ _ _ => False
  | .udpRead packet _ => c.udpConnected = true ∧ c.toSession.acceptsByeBye packet.wire = true ∧
      c.udpConfirmedMasterIndex < c.udpReceivedMasterIndex

instance (m : Move) : Decidable (c.Cancels m) :=
  match m with
  | .raise _ _ _ => .isFalse id
  | .udpRead packet _ => inferInstanceAs (Decidable (_ ∧ c.toSession.acceptsByeBye packet.wire = true ∧ _))

variable {c} {config : Config}

theorem step_attends {m : Move} (hsound : c.toEndpoint.Sound) (hcount : 1 ≤ c.confirmationResendCount)
    (hkeeps : ¬c.Cancels m) (hm : c.step m = some d) (h : c.Attends) : d.Attends := by
  cases m with
  | «raise» event timeUs io =>
      obtain ⟨-, -, -, rfl⟩ := of_step_raise hm
      exact handle_attends (({ c with io := io } : Connection).disable event) _ _ hsound
        (h.of_same c rfl rfl rfl rfl)
  | udpRead packet io =>
      obtain ⟨-, rfl⟩ := of_step_udpRead hm
      refine udpRead_attends { c with io := io } _ packet.wire_wire hsound hcount ?_
        (h.of_same c rfl rfl rfl rfl)
      intro hudp hbyeBye
      by_contra hlt
      exact hkeeps ⟨hudp, hbyeBye, not_le.mp hlt⟩

theorem attends_initial (h : Initial config c) : c.Attends := by
  obtain ⟨intervalUs, summaryUs, io, rfl⟩ := h
  intro _
  constructor
  · rw [new_toEndpoint]
    exact fun _ => le_refl _
  · rw [new_toEndpoint]
    exact fun hlt => absurd hlt (lt_irrefl _)

theorem attends (hcount : 1 ≤ config.confirmationResendCount)
    (h : Runs.Reachable (Initial config) step (fun c m => ¬c.Cancels m) c) : c.Attends := by
  induction h with
  | start hinitial => exact attends_initial hinitial
  | next hreachable hkeeps hm ih =>
      refine step_attends (sound hreachable) ?_ hkeeps hm ih
      rw [toConfig_eq hreachable]
      exact hcount

/-- A timer is set that works towards the end of a connection without TCP. -/
def Lingers (c : Connection) : Prop :=
  c.isEnabled .udpWrite = true ∨ c.isEnabled .udpResend = true ∨
    c.isEnabled .buildConfirmations = true ∨ c.isEnabled .buildByeBye = true ∨
    c.isEnabled .udpCloseWait = true

instance : Decidable c.Lingers :=
  inferInstanceAs (Decidable (_ ∨ _))

/-- Whatever an unfinished connection without TCP waits for, an event is enabled. -/
theorem lingers_of_awake (hsound : c.toEndpoint.Sound) (hattends : c.Attends)
    (hawake : ∀ name ∈ [EventName.udpWrite, .udpResend, .buildConfirmations, .buildByeBye], c.Awake name)
    (htcp : c.tcpConnected = false) (hudp : c.udpConnected = true)
    (hunfinished : c.isUdpFinished = false) : c.Lingers := by
  by_contra hnone
  simp only [Lingers, not_or, Bool.not_eq_true] at hnone
  obtain ⟨hudpWrite, hudpResend, hconfirmations, hbyeBye, hcloseWait⟩ := hnone
  have hidle : ∀ name ∈ [EventName.udpWrite, .udpResend, .buildConfirmations, .buildByeBye],
      c.isEnabled name = false → ¬c.Needs name := by
    intro name hname hdisabled hneeds
    rw [hawake name hname hneeds] at hdisabled
    cases hdisabled
  have hwritten := hidle _ (by decide) hudpWrite
  have hresent := hidle _ (by decide) hudpResend
  have hconfirmed := hidle _ (by decide) hconfirmations
  have hparted := hidle _ (by decide) hbyeBye
  simp only [Needs, hudp, true_and, not_or, not_lt] at hwritten hresent hconfirmed hparted
  -- A packet is either sent or not, so none is left.
  have hsent : c.udpSentPackets = ∅ := by
    rw [Std.ExtTreeMap.eq_empty_iff_forall_not_mem]
    intro index hmem
    rw [Std.ExtTreeMap.mem_iff_isSome_getElem?, Option.isSome_iff_exists] at hmem
    obtain ⟨p, hp⟩ := hmem
    cases hp' : p.sent with
    | false => exact hwritten.1 ⟨index, p, hp, hp'⟩
    | true => exact hresent ⟨index, p, hp, hp'⟩
  have hdata : c.tcpReceivedData = [] := by
    by_contra hdata
    have hopen := (hsound.sending.received_open hdata).1
    rw [htcp] at hopen
    cases hopen
  have hmore : c.isNoMoreDataWillBeSent = true := by
    simp [isNoMoreDataWillBeSent, Session.isNoMoreDataWillBeSent, htcp, hdata, hsent]
  have hanswered : c.udpReceivedMasterIndex ≤ c.udpConfirmedMasterIndex := by
    by_contra hlt
    have hremain := (hattends hudp).answering (not_le.mp hlt)
    omega
  have hfinished : c.isUdpFinished = true :=
    (c.isUdpFinished_iff hudp).mpr ⟨⟨hmore, not_not.mp hwritten.2, hanswered,
      (hattends hudp).passed htcp⟩, hconfirmed, hparted, hcloseWait⟩
  rw [hunfinished] at hfinished
  cases hfinished

end Runs

end Connection

namespace Tunnel

/-- The runs of two connections whose first interval is not negative, in which no ByeBye
packet reaches a side that has not confirmed all it received. -/
abbrev ReachableAttending (config : Side → Config) : Tunnel → Prop :=
  Runs.Reachable (fun t => ∀ side, Connection.Begun (config side) (t side)) step
    (EachSide fun c m => ¬c.Cancels m)

def attendingState : Option Tunnel :=
  Runs.run step (EachSide fun c m => ¬c.Cancels m) (fresh Config.small) byeByeRun

theorem attendingState_isSome : attendingState.isSome = true := by
  decide +kernel

theorem begun_fresh (side : Side) : Connection.Begun Config.small (fresh Config.small side) := by
  refine ⟨⟨10, 0, Io.steady 0, rfl⟩, ?_⟩
  change 0 ≤ (Connection.new Config.small 10 0 (Io.steady 0)).udpSendIntervalUs
  decide +kernel

/-- The client closes TCP with a ByeBye packet scheduled.  The server takes that packet
and the Bye packet numbered below it, before it confirms the latter. -/
def cancelledRun : List Move :=
  hastyRun ++
    [.raise .client .udpWrite 150 (Io.steady 150),
      .raise .client .udpWrite 160 (Io.steady 160),
      .deliver .server 2 (Io.steady 165),
      .deliver .server 1 (Io.steady 165),
      .raise .client .buildConfirmations 300 (Io.steady 300),
      .raise .client .udpWrite 310 (Io.steady 310),
      .deliver .server 3 (Io.steady 320),
      .raise .server .buildByeBye 320 (Io.steady 320),
      .raise .server .udpWrite 340 (Io.steady 340),
      .raise .server .udpCloseWait 100000 (Io.steady 100000)]

theorem cancelledRun_isSome : (play Config.small cancelledRun).isSome = true := by
  decide +kernel

end Tunnel

end IceTunnel
