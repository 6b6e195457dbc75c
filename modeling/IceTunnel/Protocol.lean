import Mathlib.Logic.Relation
import IceTunnel.Endpoint

/-!
The protocol as a relation on endpoints: the things one endpoint can do, without
the order in which the handlers do them and without timers.  The handlers refine
it, so what every step keeps holds in every run.
-/

namespace IceTunnel

namespace Session

/-- `tcpReceivedData` is flushed.  With no payload to send at a time, nothing was
ever read. -/
def Flushed (s : Session) : Prop :=
  s.tcpReceivedData = [] ∨ s.udpSendPacketSize ≤ 0

/-- The part of `isUdpFinished` that the protocol state decides. -/
def Finishable (s : Session) : Prop :=
  s.isNoMoreDataWillBeSent = true ∧ s.udpConfirmationPackets = []
    ∧ s.udpReceivedMasterIndex ≤ s.udpConfirmedMasterIndex
    ∧ s.udpReceivedMasterIndex ≤ s.tcpNextSendIndex

theorem Finishable.sent_empty {s : Session} (h : s.Finishable) : s.udpSentPackets = ∅ := by
  obtain ⟨hmore, -⟩ := h
  simp only [isNoMoreDataWillBeSent, Bool.and_eq_true, Std.ExtTreeMap.isEmpty_iff] at hmore
  exact hmore.2

/-- `packet` is the one `tcpWrite` looks at. -/
def IsNext (s : Session) (packet : Packet) : Prop :=
  s.tcpNextSendIndex < s.udpReceivedMasterIndex
    ∧ s.udpReceivedPackets[s.tcpNextSendIndex]? = some packet

end Session

namespace Protocol

/-- One step of an endpoint to which the network can deliver the packets in `N`. -/
inductive Step (N : Packet → Prop) : Endpoint → Endpoint → Prop
  /-- `tcpRead` takes bytes. -/
  | read (e : Endpoint) (bytes : List UInt8) :
      e.tcpConnected = true → e.udpConnected = true →
      bytes.length ≤ e.udpSendPacketSize.toNat →
      Step N e { e with toSender :=
        { e.toSender.record (.read bytes) with tcpReceivedData := e.tcpReceivedData ++ bytes } }
  /-- `tcpRead` takes bytes and drops them. -/
  | readUnused (e : Endpoint) (bytes : List UInt8) :
      e.tcpConnected = true → e.udpConnected = false →
      Step N e { e with toSender := e.toSender.record (.read bytes) }
  /-- `buildUdpPackets` drops what the peer does not want any more. -/
  | discard (e : Endpoint) :
      e.udpConnected = true → e.udpReceivedFinalIndex = e.udpReceivedMasterIndex →
      Step N e { e with tcpReceivedData := [] }
  /-- `buildUdpPackets` encodes a packet. -/
  | create (e : Endpoint) (payload rest : List UInt8) :
      e.udpConnected = true → e.udpReceivedFinalIndex ≠ e.udpReceivedMasterIndex →
      e.tcpReceivedData = payload ++ rest → payload ≠ [] →
      Step N e { e with toSender :=
        { e.toSender.push e.udpResendCount .data payload with tcpReceivedData := rest } }
  /-- `tcpClose` encodes the last packet. -/
  | close (e : Endpoint) (type : PacketType) :
      e.tcpConnected = true → e.udpConnected = true → e.Flushed → type.isClosing = true →
      Step N e { e with
        tcpConnected := false
        toSender := e.toSender.push e.udpResendCount type [] }
  /-- `tcpClose` after `udpClose`. -/
  | hangUp (e : Endpoint) :
      e.tcpConnected = true → e.udpConnected = false →
      Step N e { e with tcpConnected := false }
  /-- `tcpWrite` passes a packet with nothing to hand to TCP. -/
  | skip (e : Endpoint) (packet : Packet) (fake : Bool) :
      e.IsNext packet → fake = !e.tcpConnected →
      (fake = true ∨ (packet.getType ≠ .data ∨ packet.getSize ≤ 0)
        ∧ packet.getType.isClosing = false) →
      Step N e { e with toReceiver := e.toReceiver.skip packet fake }
  /-- `tcpWrite` passes a Bye or Disconnect packet, and `tcpClose` follows. -/
  | skipClosing (e : Endpoint) (packet : Packet) :
      e.IsNext packet → packet.getType.isClosing = true →
      e.tcpConnected = true → e.udpConnected = true → e.Flushed →
      Step N e { e with
        tcpConnected := false
        toSender := e.toSender.push e.udpResendCount .bye []
        toReceiver := e.toReceiver.skip packet false }
  /-- The same after `udpClose`. -/
  | skipClosingUnused (e : Endpoint) (packet : Packet) :
      e.IsNext packet → packet.getType.isClosing = true →
      e.tcpConnected = true → e.udpConnected = false →
      Step N e { e with
        tcpConnected := false
        toReceiver := e.toReceiver.skip packet false }
  /-- `tcpWrite` hands bytes to TCP. -/
  | write (e : Endpoint) (packet : Packet) (size : Nat) :
      e.IsNext packet → e.tcpConnected = true → packet.getType = .data →
      0 < size → size ≤ packet.getData.length →
      Step N e { e with toReceiver := e.toReceiver.write packet size }
  /-- `udpWrite` passes a Confirmation or ByeBye packet to `writeto`. -/
  | offerConfirmation (e : Endpoint) (packet : Packet) :
      e.udpConnected = true → packet ∈ e.udpConfirmationPackets →
      Step N e { e with toSender := e.toSender.record (.writeto packet.wire) }
  /-- `udpWrite` is done with it. -/
  | dequeue (e : Endpoint) (packet : Packet) (packets : List Packet) :
      e.udpConfirmationPackets = packet :: packets →
      Step N e { e with udpConfirmationPackets := packets }
  /-- `udpWrite` passes a packet of `udpSentPackets` to `writeto`. -/
  | offer (e : Endpoint) (index : Int) (packet : Packet) :
      e.udpConnected = true → e.udpSentPackets[index]? = some packet →
      Step N e { e with toSender := e.toSender.record (.writeto packet.wire) }
  /-- `udpWrite` marks it sent. -/
  | transmit (e : Endpoint) (index : Int) (packet : Packet) (timeUs measureIndex : Int) :
      e.udpSentPackets[index]? = some packet → packet.sent = false →
      Step N e { e with
        udpSentPackets := e.udpSentPackets.insert index
          { packet with sent := true, sentTimeUs := timeUs, measureIndex := measureIndex }
        udpPacketsToSendCount := e.udpPacketsToSendCount - 1 }
  /-- `udpResend` marks it unsent. -/
  | resend (e : Endpoint) (index : Int) (packet : Packet) :
      e.udpSentPackets[index]? = some packet → packet.sent = true →
      Step N e { e with
        udpSentPackets := e.udpSentPackets.insert index
          { packet with sent := false, remainResendCount := packet.remainResendCount - 1 }
        udpPacketsToSendCount := e.udpPacketsToSendCount + 1 }
  /-- `udpWrite` erases a packet that was confirmed before it was sent. -/
  | eraseComplete (e : Endpoint) (index : Int) (packet : Packet) :
      e.udpSentPackets[index]? = some packet → packet.isComplete = true →
      Step N e { e with udpSentPackets := e.udpSentPackets.erase index }
  /-- `udpRead` erases a packet that a Confirmation packet names. -/
  | forget (e : Endpoint) (index : Int) (packet confirmation : Packet) :
      N confirmation → e.udpConnected = true → confirmation.getType = .confirmation →
      confirmation.Confirms index → e.udpSentPackets[index]? = some packet →
      Step N e { e with
        udpSentPackets := e.udpSentPackets.erase index
        udpPacketsToSendCount :=
          if packet.sent then e.udpPacketsToSendCount else e.udpPacketsToSendCount - 1 }
  /-- `udpRead` stores a packet. -/
  | accept (e : Endpoint) (packet : Packet) :
      N packet → packet.wire = packet → e.udpConnected = true →
      e.acceptsPacket packet = true → packet.getIndex ∉ e.udpReceivedPackets →
      Step N e { e with toReceiver := e.toReceiver.accept packet }
  /-- The queued Confirmation packets are dropped. -/
  | dropConfirmations (e : Endpoint) :
      Step N e { e with udpConfirmationPackets :=
        e.udpConfirmationPackets.filter (·.getType ≠ .confirmation) }
  /-- `buildConfirmations` encodes a Confirmation packet. -/
  | confirm (e : Endpoint) (payload : List UInt8) :
      e.udpConnected = true → payload ∈ e.confirmationPayloads →
      Step N e { e with
        udpConfirmationPackets := e.udpConfirmationPackets ++ [e.confirmation payload]
        toReceiver := e.toReceiver.record (.confirm (e.confirmation payload).wire) }
  /-- `buildConfirmations` moves `udpConfirmedMasterIndex`. -/
  | settle (e : Endpoint) (payload : List UInt8) :
      e.udpConnected = true → (e.confirmation payload).wire ∈ e.confirmations →
      Step N e { e with udpConfirmedMasterIndex := e.udpReceivedMasterIndex }
  /-- `buildConfirmations` marks a packet confirmed, and erases it if TCP has it. -/
  | prune (e : Endpoint) (index : Int) :
      index < e.tcpNextSendIndex →
      Step N e { e with toReceiver := e.toReceiver.pruneKey index }
  /-- `buildByeBye` encodes a ByeBye packet. -/
  | byeBye (e : Endpoint) :
      e.udpConnected = true →
      Step N e { e with
        udpConfirmationPackets := e.udpConfirmationPackets ++ [e.byeByePacket]
        toSender := e.toSender.record (.byeBye e.byeByePacket.wire e.udpSentPackets.keys) }
  /-- `udpRead` takes the peer's ByeBye packet. -/
  | acceptByeBye (e : Endpoint) (packet : Packet) :
      N packet → e.udpConnected = true → e.acceptsByeBye packet = true →
      Step N e { e with toReceiver := e.toReceiver.record (.byeBye packet.wire) }
  /-- `isUdpFinished()` lets the endpoint close. -/
  | finish (e : Endpoint) :
      e.udpConnected = true → e.Finishable →
      Step N e { e with finished := some e.toSession }
  /-- `udpClose`. -/
  | closeUdp (e : Endpoint) :
      Step N e { e with
        udpConnected := false
        tcpReceivedData := []
        udpConfirmationPackets := []
        udpSentPackets := ∅ }

/-- A sequence of steps. -/
abbrev Steps (N : Packet → Prop) : Endpoint → Endpoint → Prop :=
  Relation.ReflTransGen (Step N)

variable {N : Packet → Prop} {e e' : Endpoint}

theorem udpNextSendIndex_le (hstep : Step N e e') : e.udpNextSendIndex ≤ e'.udpNextSendIndex := by
  cases hstep with
  | create payload rest => exact Int.le.intro 1 rfl
  | close type => exact Int.le.intro 1 rfl
  | skipClosing packet => exact Int.le.intro 1 rfl
  | _ => exact le_refl _

theorem udpClosed_step (hstep : Step N e e') (hudp : e.udpConnected = false) :
    e'.udpConnected = false ∧ e'.udpNextSendIndex = e.udpNextSendIndex := by
  cases hstep with
  | create payload rest hopen => simp [hudp] at hopen
  | close type htcp hopen => simp [hudp] at hopen
  | skipClosing packet hnext hclosing htcp hopen => simp [hudp] at hopen
  | closeUdp => exact ⟨rfl, rfl⟩
  | _ => exact ⟨hudp, rfl⟩

theorem udpReceivedMasterIndex_le (hstep : Step N e e') :
    e.udpReceivedMasterIndex ≤ e'.udpReceivedMasterIndex := by
  cases hstep with
  | accept packet =>
      obtain ⟨masterIndex, finalIndex, heq, hle, -⟩ := e.toReceiver.accept_eq packet
      simp only [heq]
      exact hle
  | skip packet fake => simp
  | skipClosing packet => simp
  | skipClosingUnused packet => simp
  | write packet size => simp
  | prune index => simp
  | _ => exact le_refl _

theorem tcpNextSendIndex_le (hstep : Step N e e') :
    e.tcpNextSendIndex ≤ e'.tcpNextSendIndex := by
  cases hstep with
  | accept packet =>
      obtain ⟨masterIndex, finalIndex, heq, -⟩ := e.toReceiver.accept_eq packet
      simp only [heq]
      exact le_refl _
  | skip packet fake => simp
  | skipClosing packet => simp
  | skipClosingUnused packet => simp
  | write packet size =>
      have hnext := e.toReceiver.write_tcpNextSendIndex packet size
      simp only
      omega
  | prune index => simp
  | _ => exact le_refl _

theorem toConfig_eq (hstep : Step N e e') : e'.toConfig = e.toConfig := by
  cases hstep <;> rfl

end Protocol

end IceTunnel
