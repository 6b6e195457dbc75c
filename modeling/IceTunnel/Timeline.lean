import IceTunnel.Outgoing

namespace IceTunnel

namespace Outgoing

/-- The end of `udpWrite`: the next datagram is due after the last one. -/
def rearmed (x : Outgoing) : Outgoing :=
  { x with eventUdpWrite := x.eventUdpWrite.setTime (x.udpLastSentUs + x.udpSendIntervalUs) false }

/-- Changes that neither call `setEventUdpWrite` nor `onUdpDelivered` nor resend. -/
abbrev Quiet : Outgoing → Outgoing → Prop :=
  Steps False (fun _ _ => False) fun _ => False

end Outgoing

namespace Connection

open Outgoing

variable (c : Connection)

/-- What `udpWrite` passes to `writeto`, with its index if it is from `udpSentPackets`. -/
def offer : Option (Option Int × Packet) :=
  if !c.udpConnected then none
  else
    match c.udpConfirmationPackets with
    | packet :: _ => some (none, packet)
    | [] => c.firstUnsent.map fun entry => (some entry.1, entry.2)

/-- `size > 0 || packet.getRawSize() == 0` -/
def Takes (packet : Packet) : Prop :=
  c.io.udpWritten > 0 ∨ packet.getRawSize = 0

instance (packet : Packet) : Decidable (c.Takes packet) :=
  inferInstanceAs (Decidable (_ ∨ _))

/-- The datagram that `udpWrite` sends successfully. -/
def datagram : Option (Option Int) :=
  c.offer.bind fun offered => if c.Takes offered.2 then some offered.1 else none

/-- `writeto` does not take what it is offered. -/
def Refused : Prop :=
  ∃ offered ∈ c.offer, ¬c.Takes offered.2

/-- What `udpWrite` does to the packets and the clock where a datagram was sent. -/
def Transmits (plannedTimeUs : Int) : Option Int → Outgoing → Prop
  | none, x => x = { c.outgoing with udpLastSentUs := plannedTimeUs }
  | some index, x => ∃ packet, c.udpSentPackets[index]? = some packet ∧ packet.sent = false ∧
      x = { c.outgoing with
        udpSentPackets := c.udpSentPackets.insert index
          { packet with sent := true, sentTimeUs := c.nowUs, measureIndex := c.udpSendMeasureIndex }
        udpLastSentUs := plannedTimeUs
        readings := c.outgoing.readings.tail }

instance : Decidable c.Refused :=
  inferInstanceAs (Decidable (∃ offered ∈ c.offer, ¬c.Takes offered.2))

theorem rearmed_setTime : (c.setTime .udpWrite (c.udpLastSentUs + c.udpSendIntervalUs)).outgoing =
    c.outgoing.rearmed :=
  c.setTime_udpWrite_outgoing _

theorem udpWriteConfirmation_outgoing (plannedTimeUs : Int) (packet : Packet) (packets : List Packet)
    (htaken : c.Takes packet) :
    ∃ y, Quiet { c.outgoing with udpLastSentUs := plannedTimeUs } y ∧
      ((c.udpWriteConfirmation plannedTimeUs packet packets).outgoing = y ∨
        (c.udpWriteConfirmation plannedTimeUs packet packets).outgoing = y.rearmed) := by
  let d : Connection := { c with
    toSender := c.toSender.record (.writeto packet.wire), udpLastSentUs := plannedTimeUs }
  let sent : Connection := { d.onUdpSentBufferChanged (-packet.getSize) with
    udpConfirmationPackets := packets }
  have hsent : Quiet { c.outgoing with udpLastSentUs := plannedTimeUs } sent.outgoing :=
    d.onUdpSentBufferChanged_outgoing _
  have htakenD : c.io.udpWritten > 0 ∨ packet.getRawSize = 0 := htaken
  simp only [udpWriteConfirmation, if_pos htakenD]
  split
  · exact ⟨_, hsent.trans sent.closeIfUdpFinished_outgoing, .inl rfl⟩
  · split
    · exact ⟨_, hsent, .inr (rearmed_setTime _)⟩
    · exact ⟨_, hsent, .inl rfl⟩

theorem udpWritePacket_outgoing (plannedTimeUs : Int) {index : Int} {packet : Packet}
    (hpacket : c.udpSentPackets[index]? = some packet) (hsent : packet.sent = false)
    (htaken : c.Takes packet) :
    ∃ x y, c.Transmits plannedTimeUs (some index) x ∧ Quiet x y ∧
      ((c.udpWritePacket plannedTimeUs index packet).outgoing = y ∨
        (c.udpWritePacket plannedTimeUs index packet).outgoing = y.rearmed) := by
  have hresend : EventName.udpResend ≠ .udpWrite := nofun
  let d : Connection := ({ c with toSender := c.toSender.record (.writeto packet.wire) } :
    Connection).markSent plannedTimeUs index packet
  let x : Outgoing := { c.outgoing with
    udpSentPackets := c.udpSentPackets.insert index
      { packet with sent := true, sentTimeUs := c.nowUs, measureIndex := c.udpSendMeasureIndex }
    udpLastSentUs := plannedTimeUs
    readings := c.outgoing.readings.tail }
  let marked : Connection := { ({ c with toSender := c.toSender.record (.writeto packet.wire) } :
      Connection).tick with
    udpSentPackets := x.udpSentPackets
    udpLastSentUs := plannedTimeUs }
  have hd : Quiet x d.outgoing := marked.onUdpSent_outgoing c.udpSendIntervalUs packet.getSize
  refine ⟨x, ?_⟩
  have herased : Quiet x (d.eraseSent index packet).outgoing :=
    (hd.trans (d.onUdpSentBufferChanged_outgoing _)).tail (.forget _ index)
  have hrearmed : ∀ (e : Connection), Quiet x e.outgoing →
      ∃ y, c.Transmits plannedTimeUs (some index) x ∧ Quiet x y ∧
        ((if e.udpPacketsToSendCount > 0 then
          e.setTime .udpWrite (e.udpLastSentUs + e.udpSendIntervalUs) else e).outgoing = y ∨
        (if e.udpPacketsToSendCount > 0 then
          e.setTime .udpWrite (e.udpLastSentUs + e.udpSendIntervalUs) else e).outgoing = y.rearmed) := by
    intro e he
    refine ⟨e.outgoing, ⟨packet, hpacket, hsent, rfl⟩, he, ?_⟩
    split
    · exact .inr e.rearmed_setTime
    · exact .inl rfl
  have htakenD : c.io.udpWritten > 0 ∨ packet.getRawSize = 0 := htaken
  simp only [udpWritePacket, if_pos htakenD]
  split
  · split
    · exact ⟨_, ⟨packet, hpacket, hsent, rfl⟩,
        herased.trans (d.eraseSent index packet).closeIfUdpFinished_outgoing, .inl rfl⟩
    · exact hrearmed _ herased
  · exact hrearmed _ (hd.trans (d.setTimeRelativeNow_outgoing _ hresend))

/-- What `udpWrite` does: nothing, try again later, or send. -/
theorem udpWrite_outgoing (plannedTimeUs : Int) :
    (c.datagram = none ∧ ((c.udpWrite plannedTimeUs).outgoing = c.outgoing ∨
        c.Refused ∧ (c.udpWrite plannedTimeUs).outgoing = c.outgoing.rearmed)) ∨
      ∃ sent x y, c.datagram = some sent ∧ c.Transmits plannedTimeUs sent x ∧ Quiet x y ∧
        ((c.udpWrite plannedTimeUs).outgoing = y ∨ (c.udpWrite plannedTimeUs).outgoing = y.rearmed) := by
  cases hudp : c.udpConnected with
  | false =>
      refine .inl ⟨by simp [datagram, offer, hudp], .inl ?_⟩
      simp [udpWrite, hudp]
  | true =>
      cases hqueue : c.udpConfirmationPackets with
      | cons packet packets =>
          have hoffer : c.offer = some (none, packet) := by simp [offer, hudp, hqueue]
          have hwrite : c.udpWrite plannedTimeUs = c.udpWriteConfirmation plannedTimeUs packet packets := by
            simp [udpWrite, hudp, hqueue]
          rw [hwrite]
          by_cases htaken : c.Takes packet
          · obtain ⟨y, hquiet, hend⟩ := c.udpWriteConfirmation_outgoing plannedTimeUs packet packets htaken
            exact .inr ⟨none, _, y, by simp [datagram, hoffer, htaken], rfl, hquiet, hend⟩
          · have hrefused : ¬(c.io.udpWritten > 0 ∨ packet.getRawSize = 0) := htaken
            refine .inl ⟨by simp [datagram, hoffer, htaken], .inr ⟨⟨_, hoffer, htaken⟩, ?_⟩⟩
            simp only [udpWriteConfirmation, if_neg hrefused]
            exact rearmed_setTime { c with toSender := c.toSender.record (.writeto packet.wire) }
      | nil =>
          cases hfirst : c.firstUnsent with
          | none =>
              refine .inl ⟨by simp [datagram, offer, hudp, hqueue, hfirst], .inl ?_⟩
              simp [udpWrite, hudp, hqueue, hfirst]
          | some entry =>
              obtain ⟨index, packet⟩ := entry
              obtain ⟨hpacket, hsent⟩ := c.firstUnsent_eq_some hfirst
              have hoffer : c.offer = some (some index, packet) := by
                simp [offer, hudp, hqueue, hfirst]
              have hwrite : c.udpWrite plannedTimeUs = c.udpWritePacket plannedTimeUs index packet := by
                simp [udpWrite, hudp, hqueue, hfirst]
              rw [hwrite]
              by_cases htaken : c.Takes packet
              · obtain ⟨x, y, htransmits, hquiet, hend⟩ :=
                  c.udpWritePacket_outgoing plannedTimeUs hpacket hsent htaken
                exact .inr ⟨some index, x, y, by simp [datagram, hoffer, htaken], htransmits, hquiet, hend⟩
              · have hrefused : ¬(c.io.udpWritten > 0 ∨ packet.getRawSize = 0) := htaken
                refine .inl ⟨by simp [datagram, hoffer, htaken], ?_⟩
                simp only [udpWritePacket, if_neg hrefused]
                split
                · exact .inr ⟨⟨_, hoffer, htaken⟩,
                    rearmed_setTime { c with toSender := c.toSender.record (.writeto packet.wire) }⟩
                · exact .inl rfl

theorem new_outgoing (config : Config) (intervalUs summaryUs : Int) (io : Io) :
    ∃ n : Nat, (new config intervalUs summaryUs io).outgoing =
      { toConfig := config
        udpConnected := true
        udpNextSendIndex := 1
        udpSentPackets := (Endpoint.initial config).udpSentPackets
        udpLastSentUs := 0
        udpSendIntervalUs := intervalUs
        eventUdpWrite := ⟨io.nowUs.get n⟩
        readings := io.nowUs.drop (n + 3) } := by
  have hclose : EventName.tcpClose ≠ .udpWrite := nofun
  have hudpClose : EventName.udpClose ≠ .udpWrite := nofun
  simp only [new]
  generalize hd : onUdpSentBufferChanged _ 0 = d
  have hend : d.outgoing = _ ∨ d.outgoing = _ := hd ▸ onUdpSentBufferChanged_outgoing_eq _ 0
  simp only [setTimeRelativeNow, tick_outgoing, setTime_outgoing _ _ hclose, setTime_outgoing _ _ hudpClose,
    setTime_udpWrite_outgoing]
  have hnow : d.nowUs = d.outgoing.readings.head := rfl
  rw [hnow]
  rcases hend with hend | hend
  · rw [hend]
    exact ⟨1, rfl⟩
  · rw [hend]
    exact ⟨2, rfl⟩

end Connection

/-- A datagram that `writeto` has taken. -/
structure Transmission where
  /-- The time at which `udpWrite` is called. -/
  calledUs : Nat
  /-- What the clock reads first after `writeto`. -/
  readUs : Nat
  /-- The index of a packet of `udpSentPackets`. -/
  index : Option Int
  deriving DecidableEq, Repr

/-- A connection, the time, and what it has sent, the last datagram first.  The code keeps
no such record. -/
structure Timeline where
  connection : Connection
  timeUs : Nat
  sent : List Transmission

namespace Timeline

/-- A handler is called at a time, in the round of a time before, and is done at a time. -/
inductive Move
  | call (event : EventName) (roundUs atUs doneUs : Nat) (io : Io)
  | udpRead (packet : Packet) (atUs doneUs : Nat) (io : Io)

/-- The clock does not run backwards while the handler runs. -/
def Move.Timely : Move → Prop
  | .call _ _ atUs doneUs io => ∀ n, atUs ≤ io.nowUs.get n ∧ io.nowUs.get n ≤ doneUs
  | .udpRead _ atUs doneUs io => ∀ n, atUs ≤ io.nowUs.get n ∧ io.nowUs.get n ≤ doneUs

/-- The move of the connection alone. -/
def Move.toMove : Move → Connection.Move
  | .call event roundUs _ _ io => .raise event roundUs io
  | .udpRead packet _ _ io => .udpRead packet io

/-- Handlers are called in any order, but that of `eventUdpWrite` not before its time. -/
def step (s : Timeline) : Move → Option Timeline
  | .call event roundUs atUs doneUs io =>
      if s.connection.deleted = false ∧ s.timeUs ≤ atUs ∧ roundUs ≤ atUs ∧ atUs ≤ doneUs ∧
          (event = .udpWrite → s.connection.isEnabled .udpWrite = true ∧
            (s.connection.events .udpWrite).timeUs ≤ roundUs) then
        let c := { s.connection with io := io }
        let sent := if event = .udpWrite then c.datagram.toList else []
        some ⟨c.raise event, doneUs, sent.map (Transmission.mk atUs io.nowUs.head) ++ s.sent⟩
      else none
  | .udpRead packet atUs doneUs io =>
      if s.connection.deleted = false ∧ s.timeUs ≤ atUs ∧ atUs ≤ doneUs then
        some ⟨({ s.connection with io := io } : Connection).udpRead packet.wire, doneUs, s.sent⟩
      else none

/-- The constructor runs at the time `startUs`. -/
def Initial (config : Config) (intervalUs : Int) (startUs : Nat) (s : Timeline) : Prop :=
  ∃ (summaryUs : Int) (io : Io) (doneUs : Nat),
    (∀ n, startUs ≤ io.nowUs.get n ∧ io.nowUs.get n ≤ doneUs) ∧
      s = ⟨.new config intervalUs summaryUs io, doneUs, []⟩

/-- A call that takes no time, with bytes from TCP. -/
def Move.steady (event : EventName) (timeUs : Nat) (tcpBytes : List UInt8) : Move :=
  .call event timeUs timeUs timeUs { Io.steady timeUs with tcpBytes := tcpBytes }

theorem Move.timely_steady (event : EventName) (timeUs : Nat) (tcpBytes : List UInt8) :
    (Move.steady event timeUs tcpBytes).Timely :=
  fun _ => ⟨le_refl _, le_refl _⟩

/-- The connection as the constructor leaves it, at the time 1000 with the interval 10. -/
def fresh (config : Config) : Timeline :=
  ⟨.new config 10 0 (Io.steady 1000), 1000, []⟩

theorem fresh_initial (config : Config) : Initial config 10 1000 (fresh config) :=
  ⟨0, Io.steady 1000, 1000, fun _ => ⟨le_refl _, le_refl _⟩, rfl⟩

end Timeline

end IceTunnel
