import IceTunnel.Handlers
import IceTunnel.Peers

namespace IceTunnel

namespace Connection

variable (c : Connection) {packet : Packet}

/-- The connection is about to confirm the packet with this index. -/
def Confirming (index : Int) : Prop :=
  (∃ q ∈ c.udpConfirmationPackets, q.getType = .confirmation ∧ q.Confirms index) ∨
    (0 < c.remainConfirmationResendCount ∧ c.isEnabled .buildConfirmations = true)

instance (index : Int) : Decidable (c.Confirming index) :=
  inferInstanceAs (Decidable (_ ∨ _))

/-- The time that `udpRead` gives to the event of `buildConfirmations` for a packet it
lets in.  The clock is read when the packet is stored. -/
def confirmationTimeUs (packet : Packet) : Int :=
  (if packet.getIndex ∈ c.udpReceivedPackets then c else c.storePacket packet).nowUs +
    c.buildConfirmationsUs

/-- The packet is new to the sequence and in the window, and the event of
`buildConfirmations` does not stay disabled. -/
def Rearms (packet : Packet) : Prop :=
  c.udpReceivedMasterIndex ≤ packet.getIndex ∧
    packet.getIndex - c.tcpNextSendIndex ≤ c.receiveWindow ∧
    (c.isEnabled .buildConfirmations = true ∨ 0 ≤ c.confirmationTimeUs packet)

instance (packet : Packet) : Decidable (c.Rearms packet) :=
  inferInstanceAs (Decidable (_ ∧ _))

theorem rearm_isEnabled_iff : c.rearm.isEnabled .buildConfirmations = true ↔
    c.isEnabled .buildConfirmations = true ∨ 0 ≤ c.nowUs + c.buildConfirmationsUs := by
  show (((c.setTime .buildConfirmations (c.nowUs + c.buildConfirmationsUs)).tick).isEnabled
    .buildConfirmations = true) ↔ _
  rw [isEnabled_tick, isEnabled_setTime_self]

theorem confirming_rearm_iff (hresend : 0 < c.confirmationResendCount) (index : Int) :
    c.rearm.Confirming index ↔ c.Confirming index ∨
      c.isEnabled .buildConfirmations = true ∨ 0 ≤ c.nowUs + c.buildConfirmationsUs := by
  have hqueue : c.rearm.udpConfirmationPackets = c.udpConfirmationPackets := rfl
  have hremain : 0 < c.rearm.remainConfirmationResendCount := hresend
  simp only [Confirming, hqueue, hremain, true_and, rearm_isEnabled_iff]
  constructor
  · rintro (hconfirms | harmed)
    · exact .inl (.inl hconfirms)
    · exact .inr harmed
  · rintro ((hconfirms | ⟨-, henabled⟩) | harmed)
    · exact .inl hconfirms
    · exact .inr (.inl henabled)
    · exact .inr harmed

theorem confirming_udpReadPacket_iff (hresend : 0 < c.confirmationResendCount) (index : Int) :
    (c.udpReadPacket packet).Confirming index ↔ c.Confirming index ∨
      c.isEnabled .buildConfirmations = true ∨ 0 ≤ c.confirmationTimeUs packet := by
  rw [udpReadPacket_eq, confirmationTimeUs]
  split
  · exact c.confirming_rearm_iff hresend index
  · obtain ⟨hcountdown, -, -, hevents⟩ := c.storePacket_frame packet
    obtain ⟨r, hr, -⟩ := tcpWriteFake_steps (N := fun _ => True)
      { c with toReceiver := c.toReceiver.accept packet }
    have hend := (c.storePacket_toEndpoint packet).trans hr
    have hconfirmations := hevents .buildConfirmations (by decide) (by decide)
    have hsame : (c.storePacket packet).Confirming index ↔ c.Confirming index := by
      simp only [Confirming, hend, hcountdown, hconfirmations]
    have hconfig : (c.storePacket packet).toConfig = c.toConfig := by rw [hend]
    rw [confirming_rearm_iff _ (by rwa [hconfig]), hsame, hconfig, hconfirmations]

theorem confirming_closeIfUdpFinished (hudp : c.udpConnected = true) (index : Int) :
    c.closeIfUdpFinished.Confirming index ↔ c.Confirming index := by
  rcases c.closeIfUdpFinished_eq with ⟨-, heq⟩ | ⟨hfinished, finished, heq⟩
  · rw [heq]
  · obtain ⟨⟨-, hqueue, -⟩, hremain, -⟩ := (c.isUdpFinished_iff hudp).mp hfinished
    have hend := udpClose_toEndpoint { c with finished := finished } hudp
    have hcountdown := (udpClose_frame { c with finished := finished }).1
    rw [heq]
    simp only [Confirming, hend, hcountdown, hqueue, List.not_mem_nil, false_and, exists_false,
      false_or]
    constructor <;> exact fun h => absurd h.1 (not_lt.mpr hremain)

theorem confirming_udpRead_iff (hudp : c.udpConnected = true)
    (hnumbered : packet.getType.isNumbered = true) (hresend : 0 < c.confirmationResendCount)
    (haccepts : c.acceptsPacket packet = true ↔ c.udpReceivedMasterIndex ≤ packet.getIndex ∧
      packet.getIndex - c.tcpNextSendIndex ≤ c.receiveWindow) :
    (c.udpRead packet).Confirming packet.getIndex ↔
      c.Confirming packet.getIndex ∨ c.Rearms packet := by
  have hconfirmation : packet.getType ≠ .confirmation := by
    intro htype
    rw [htype] at hnumbered
    cases hnumbered
  have hbyeBye : c.acceptsByeBye packet = false := by
    have htype : packet.getType ≠ .byeBye := by
      intro htype
      rw [htype] at hnumbered
      cases hnumbered
    simp [Session.acceptsByeBye, htype]
  simp only [udpRead, hudp, Bool.not_true, Bool.false_eq_true, if_false, hconfirmation, hbyeBye]
  by_cases hlet : c.acceptsPacket packet = true
  · obtain ⟨hmaster, hwindow⟩ := haccepts.mp hlet
    obtain ⟨r, hr⟩ := c.udpReadPacket_toEndpoint packet
    have hopen : (c.udpReadPacket packet).udpConnected = true := by
      rw [hr, hudp]
    rw [if_pos hlet, confirming_closeIfUdpFinished _ hopen, c.confirming_udpReadPacket_iff hresend]
    simp only [Rearms, hmaster, hwindow, true_and]
  · have hnot : ¬c.Rearms packet := fun hrearms => hlet (haccepts.mpr ⟨hrearms.1, hrearms.2.1⟩)
    rw [if_neg hlet, confirming_closeIfUdpFinished c hudp]
    exact ⟨.inl, fun h => h.resolve_right hnot⟩

end Connection

namespace Tunnel

/-- Between honest peers a packet is accepted when it is in the window and not below the
master index. -/
theorem acceptsPacket_iff {sender receiver : Endpoint} (hsender : sender.Sound)
    (hlt : sender.udpNextSendIndex < intMax) (hreceiver : receiver.Sound)
    (hlinked : Linked sender receiver) {packet : Packet} (hpacket : packet ∈ sender.created) :
    receiver.acceptsPacket packet = true ↔ receiver.udpReceivedMasterIndex ≤ packet.getIndex ∧
      packet.getIndex - receiver.tcpNextSendIndex ≤ receiver.receiveWindow := by
  refine ⟨fun haccepts => ?_, fun ⟨hmaster, hwindow⟩ => ?_⟩
  · obtain ⟨hmaster, -, hwindow, -⟩ := Session.acceptsPacket_eq_true haccepts
    exact ⟨hmaster, hwindow⟩
  have hwellFormed := hsender.sending.wellFormed
  have hnext := hwellFormed.next_eq
  obtain ⟨i, hi⟩ := List.mem_iff_getElem?.mp hpacket
  have hindex := hwellFormed.getIndex_created hlt hi
  have hlength := (List.getElem?_eq_some_iff.mp hi).1
  have hfinal : packet.getIndex < receiver.udpReceivedFinalIndex := by
    by_cases hopen : receiver.udpReceivedFinalIndex = intMax
    · omega
    · obtain ⟨hend, q, hq, hclosing, hlast⟩ := hreceiver.receiving.final_closing hopen
      obtain ⟨j, hj⟩ := List.mem_iff_getElem?.mp (hlinked.accepted_created q hq)
      have hsame := hwellFormed.getIndex_created hlt hj
      have hclosed := (hsender.sending.closing_last j q hj hclosing).1
      omega
  obtain ⟨type, payload, hnumbered, hhello, -, rfl⟩ := hwellFormed.created_eq i packet hi
  have htype := Packet.datagram_getType i payload (PacketType.ofByte_toByte_of_isNumbered hnumbered)
  simp only [Session.acceptsPacket, htype, ge_iff_le, hmaster, hfinal, hwindow, decide_true,
    Bool.true_and, Bool.or_eq_true, Bool.and_eq_true, decide_eq_true_eq]
  cases type with
  | hello => exact .inl (.inl (.inl ⟨rfl, by rw [hindex, hhello rfl]; rfl⟩))
  | bye => exact .inl (.inl (.inr rfl))
  | disconnect => exact .inl (.inr rfl)
  | data => exact .inr rfl
  | _ => cases hnumbered

/-- The server's only Confirmation packet is lost, and the client sends its Hello
packet again. -/
def lostRun : List Move :=
  [.raise .client .udpWrite 0 (Io.steady 0),
    .deliver .server 0 (Io.steady 5),
    .raise .server .buildConfirmations 105 (Io.steady 105),
    .raise .server .udpWrite 106 (Io.steady 106),
    .raise .client .udpResend 3000 (Io.steady 3000),
    .raise .client .udpWrite 3010 (Io.steady 3010)]

theorem lostRun_isSome : (play Config.small lostRun).isSome = true := by
  decide +kernel

theorem lostRun_deliver_isSome :
    (step ((play Config.small lostRun).get lostRun_isSome)
      (.deliver .server 1 (Io.steady 3020))).isSome = true := by
  decide +kernel

end Tunnel

end IceTunnel
