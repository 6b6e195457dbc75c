import IceTunnel.Handlers
import IceTunnel.Peers

namespace IceTunnel

namespace Connection

variable (c : Connection)

theorem udpClose_udpNextSendIndex : c.udpClose.udpNextSendIndex = c.udpNextSendIndex := by
  cases hudp : c.udpConnected with
  | false => simp [udpClose, hudp]
  | true => rw [udpClose_toEndpoint c hudp]

theorem closeIfUdpFinished_udpNextSendIndex :
    c.closeIfUdpFinished.udpNextSendIndex = c.udpNextSendIndex := by
  rcases c.closeIfUdpFinished_eq with ⟨-, heq⟩ | ⟨-, finished, heq⟩
  · rw [heq]
  · rw [heq, udpClose_udpNextSendIndex]

theorem udpWrite_udpNextSendIndex (plannedTimeUs : Int) :
    (c.udpWrite plannedTimeUs).udpNextSendIndex = c.udpNextSendIndex := by
  simp only [udpWrite]
  split
  · rfl
  · split
    · simp only [udpWriteConfirmation]
      split
      · split
        · simp [closeIfUdpFinished_udpNextSendIndex, Sender.record]
        · split <;> simp [Sender.record]
      · simp [Sender.record]
    · split
      · simp only [udpWritePacket]
        split
        · split
          · split
            · simp [closeIfUdpFinished_udpNextSendIndex, Sender.record]
            · split <;> simp [Sender.record]
          · split <;> simp [Sender.record]
        · split <;> simp [Sender.record]
      · rfl

theorem buildConfirmations_udpNextSendIndex :
    c.buildConfirmations.udpNextSendIndex = c.udpNextSendIndex := by
  simp only [buildConfirmations]
  split
  · rfl
  · split <;> simp [foldl_pushConfirmation_toEndpoint, dropConfirmations_toEndpoint]

theorem buildByeBye_udpNextSendIndex : c.buildByeBye.udpNextSendIndex = c.udpNextSendIndex := by
  simp only [buildByeBye]
  split
  · rfl
  · split <;> simp [Sender.record]

theorem udpResendLoop_udpNextSendIndex (timeUs : Int) (indices : List Int) :
    (udpResendLoop timeUs indices c).udpNextSendIndex = c.udpNextSendIndex := by
  refine udpResendLoop_invariant timeUs (I := fun d => d.udpNextSendIndex = c.udpNextSendIndex)
    (fun _ hd => hd) (fun d index packet hd _ => ?_) (fun _ _ hd => hd) (fun d hd => ?_) indices rfl
  · rw [setEventUdpWrite_toEndpoint, markLost_toEndpoint]
    exact hd
  · exact d.udpClose_udpNextSendIndex.trans hd

theorem udpRead_udpNextSendIndex (packet : Packet) :
    (c.udpRead packet).udpNextSendIndex = c.udpNextSendIndex := by
  simp only [udpRead]
  split
  · rfl
  · rw [closeIfUdpFinished_udpNextSendIndex]
    split
    · obtain ⟨packets, count, heq, -⟩ :=
        c.foldl_confirmPacket_toEndpoint (c.confirmedIndices packet)
      rw [udpReadConfirmation_eq]
      simp only
      split <;> split <;> simp [heq]
    · split
      · obtain ⟨r, hr, -⟩ := tcpWriteFake_steps (N := fun _ => True)
          { c with toReceiver := c.toReceiver.accept packet }
        simp only [udpReadPacket]
        split
        · rfl
        · split <;> split <;> simp [hr]
      · split
        · simp only [udpReadByeBye]
          split <;> simp [dropConfirmations_toEndpoint]
        · rfl

theorem step_udpConnected_or {d : Connection} {m : Move} (h : c.step m = some d) :
    d.udpConnected = c.udpConnected ∨ d.udpNextSendIndex = c.udpNextSendIndex := by
  cases m with
  | udpRead packet io =>
      obtain ⟨-, rfl⟩ := of_step_udpRead h
      exact .inr (udpRead_udpNextSendIndex _ _)
  | «raise» event timeUs io =>
      obtain ⟨-, -, -, rfl⟩ := of_step_raise h
      generalize hb : ({ c with io := io } : Connection).disable event = b
      have hend : b.toEndpoint = c.toEndpoint := by rw [← hb, disable_toEndpoint]
      have hudp : c.udpConnected = b.udpConnected := by rw [hend]
      have hnext : c.udpNextSendIndex = b.udpNextSendIndex := by rw [hend]
      rw [«raise», hb, hudp, hnext]
      cases event with
      | tcpRead =>
          left
          simp only [handle, tcpRead]
          split
          · rfl
          · rw [onUdpSentBufferChanged_toEndpoint]
            split
            · rfl
            · split
              · obtain ⟨s, hs⟩ := buildUdpPackets_toEndpoint
                  { b with toSender :=
                    { b.toSender.record (.read (b.io.tcpBytes.take b.udpSendPacketSize.toNat)) with
                      tcpReceivedData :=
                        b.tcpReceivedData ++ b.io.tcpBytes.take b.udpSendPacketSize.toNat } } false
                exact congrArg (·.udpConnected) hs
              · rfl
      | tcpWrite =>
          left
          obtain ⟨r, hr, -⟩ := b.tcpWriteLoop_toEndpoint false b.tcpWriteFuel
          simp only [handle, tcpWrite]
          split
          · rfl
          · split
            · rw [(tcpClose_ends _ false).2, hr]
            · rw [hr]
      | tcpClose => exact .inl (b.tcpClose_ends b.io.tcpWasError).2
      | udpWrite => exact .inr (b.udpWrite_udpNextSendIndex _)
      | udpClose => exact .inr b.udpClose_udpNextSendIndex
      | buildUdpPackets =>
          obtain ⟨s, hs⟩ := b.buildUdpPackets_toEndpoint true
          exact .inl (congrArg (·.udpConnected) hs)
      | buildConfirmations => exact .inr b.buildConfirmations_udpNextSendIndex
      | buildByeBye => exact .inr b.buildByeBye_udpNextSendIndex
      | udpResend =>
          right
          simp only [handle, udpResend]
          split
          · rfl
          · exact udpResendLoop_udpNextSendIndex _ _ _
      | udpCloseWait => exact .inr b.closeIfUdpFinished_udpNextSendIndex
      | close => exact .inl rfl

end Connection

namespace Session

/-- The greatest key of `udpSentPackets` less the least one. -/
def keySpan (s : Session) : Int :=
  s.udpSentPackets.keys.getLastD 0 - s.udpSentPackets.keys.headD 0

/-- The key span is within the configured send buffer. -/
def Spanned (s : Session) : Prop :=
  s.keySpan ≤ s.udpMaxSentBufferSize.tdiv s.udpSendPacketSize

instance (s : Session) : Decidable s.Spanned :=
  inferInstanceAs (Decidable (_ ≤ _))

theorem sub_le_keySpan (s : Session) {first last : Int} (hfirst : first ∈ s.udpSentPackets)
    (hlast : last ∈ s.udpSentPackets) : last - first ≤ s.keySpan := by
  have hmin : s.udpSentPackets.keys.headD 0 ≤ first := SortedKeys.headD_keys_le hfirst
  have hmax : last ≤ s.udpSentPackets.keys.getLastD 0 := SortedKeys.le_getLastD_keys hlast
  simp only [keySpan]
  omega

end Session

namespace Tunnel

section Streams

variable {sender receiver : Endpoint}

/-- The packet that the receiver waits for is still in the sender's hands. -/
theorem master_mem_sent (hsender : sender.Sound) (hlt : sender.udpNextSendIndex < intMax)
    (hreceiver : receiver.Sound) (hlinked : Linked sender receiver)
    (hudp : sender.udpConnected = true)
    (hmaster : receiver.udpReceivedMasterIndex < sender.udpNextSendIndex) :
    receiver.udpReceivedMasterIndex ∈ sender.udpSentPackets := by
  by_contra hforgotten
  have hreceiving := hreceiver.receiving
  have hle := hreceiving.next_le
  have h0 := hreceiving.next_nonneg
  obtain ⟨p, hp, hindex⟩ := hlinked.forgotten_accepted hudp _ (by omega) hmaster hforgotten
  have hkept : receiver.udpReceivedMasterIndex ∈ receiver.udpReceivedPackets := by
    rcases (hreceiving.accepted_kept p hp).2.2 with hpassed | hmem
    · omega
    · rwa [hindex] at hmem
  have hfinal := hreceiving.gap hkept
  -- The stream ended there, so the sender made no further packet.
  obtain ⟨-, q, hq, hclosing, hlast⟩ := hreceiving.final_closing (by omega)
  obtain ⟨i, hi⟩ := List.mem_iff_getElem?.mp (hlinked.accepted_created q hq)
  have hsame := hsender.sending.wellFormed.getIndex_created hlt hi
  have hend := (hsender.sending.closing_last i q hi hclosing).1
  have hnext := hsender.sending.wellFormed.next_eq
  omega

theorem last_mem_sent {e : Endpoint} (hsender : sender.Sound)
    (hlt : sender.udpNextSendIndex < intMax) (hlinked : Linked sender receiver)
    (he : e.Sound) (hlinkedE : Linked e receiver)
    (hudp : e.udpConnected = true) (hgrown : sender.udpNextSendIndex < e.udpNextSendIndex) :
    e.udpNextSendIndex - 1 ∈ e.udpSentPackets := by
  by_contra hforgotten
  have hnextE := he.sending.wellFormed.next_eq
  have hnext := hsender.sending.wellFormed.next_eq
  obtain ⟨p, hp, hindex⟩ := hlinkedE.forgotten_accepted hudp (e.udpNextSendIndex - 1) (by omega)
    (by omega) hforgotten
  obtain ⟨i, hi⟩ := List.mem_iff_getElem?.mp (hlinked.accepted_created p hp)
  have hsame := hsender.sending.wellFormed.getIndex_created hlt hi
  have hlength := (List.getElem?_eq_some_iff.mp hi).1
  omega

end Streams

/-- Both senders keep their key spans within their send buffers. -/
def Spanned (t : Tunnel) : Prop :=
  ∀ side, (t side).Spanned

instance (t : Tunnel) : Decidable t.Spanned :=
  decidable_of_iff ((t .client).Spanned ∧ (t .server).Spanned)
    ⟨fun h side => by cases side; exacts [h.1, h.2], fun h => ⟨h .client, h .server⟩⟩

/-- The runs of two connections with the same parameters that keep their key spans
within their send buffers as long as they run. -/
abbrev ReachableSpanned (config : Config) : Tunnel → Prop :=
  Runs.Reachable (Initial fun _ => config) step fun t _ => t.Spanned

/-- No side has created more than the send buffer holds past what the other side
has received in sequence. -/
def Leading (t : Tunnel) : Prop :=
  ∀ side, (t side).udpNextSendIndex - 1 - (t side.other).udpReceivedMasterIndex ≤
    (t side).udpMaxSentBufferSize.tdiv (t side).udpSendPacketSize

theorem Leading.step {config : Side → Config} {t t' : Tunnel} {m : Move} (h : Reachable config t)
    (hleading : t.Leading) (hm : t.step m = some t') (hspanned : t'.Spanned) : t'.Leading := by
  have honest := h.honest
  have hnext' : Reachable config t' := .next h trivial hm
  have honest' := hnext'.honest
  obtain ⟨side, move, c, hc, hlt, rfl, hnet⟩ := step_eq_some hm
  have hsteps := Connection.step_refines hc hnet
  have hconfig := Connection.toConfig_of_step hc
  intro a
  rcases Side.eq_or_eq_other side a with rfl | rfl
  · have hspan := hspanned a
    have hlinked := honest.linked a.other
    have hlinked' := honest'.linked a.other
    have hpeer := honest'.sound a.other
    have hsender := honest'.sound a
    have hlt' := honest'.next_lt a
    simp only [endpoints, Side.other_other, Function.update_self,
      Function.update_of_ne a.other_ne] at hlinked hlinked' hpeer hspan hsender hlt' ⊢
    by_cases hsame : c.udpNextSendIndex = (t a).udpNextSendIndex
    · rw [hsame, hconfig]
      exact hleading a
    · have hgrown : (t a).udpNextSendIndex ≤ c.udpNextSendIndex :=
        Runs.chain_invariant (I := fun e => (t a).udpNextSendIndex ≤ e.udpNextSendIndex)
          (fun _ _ hx hstep => hx.trans (Protocol.udpNextSendIndex_le hstep)) hsteps (le_refl _)
      have hudp : c.udpConnected = true := by
        rcases Connection.step_udpConnected_or (t a) hc with hopen | hnext
        · rw [hopen]
          by_contra hclosed
          have hend := Runs.chain_invariant
            (I := fun e => e.udpConnected = false ∧ e.udpNextSendIndex = (t a).udpNextSendIndex)
            (fun _ _ hx hstep => by
              obtain ⟨hudp, hnext⟩ := Protocol.udpClosed_step hstep hx.1
              exact ⟨hudp, hnext.trans hx.2⟩) hsteps ⟨by simpa using hclosed, rfl⟩
          exact hsame hend.2
        · exact absurd hnext hsame
      have hmaster := master_le_next (honest.sound a) (honest.next_lt a) (honest.sound a.other) hlinked
      simp only [endpoints] at hmaster
      have hfirst := master_mem_sent hsender hlt' hpeer hlinked' hudp (by omega)
      have hlast := last_mem_sent (honest.sound a) (honest.next_lt a) hlinked hsender hlinked' hudp
        (by simp only [endpoints]; omega)
      exact le_trans (c.toSession.sub_le_keySpan hfirst hlast) hspan
  · have hmaster : (t side).udpReceivedMasterIndex ≤ c.udpReceivedMasterIndex :=
      Runs.chain_invariant (I := fun e => (t side).udpReceivedMasterIndex ≤ e.udpReceivedMasterIndex)
        (fun _ _ hx hstep => hx.trans (Protocol.udpReceivedMasterIndex_le hstep)) hsteps (le_refl _)
    have hold := hleading side.other
    simp only [Side.other_other, Function.update_self, Function.update_of_ne side.other_ne] at hold ⊢
    omega

theorem leading_initial {config : Side → Config} {t : Tunnel} (h : Initial config t)
    (hspanned : t.Spanned) : t.Leading := by
  intro side
  have hside : (t side).toEndpoint = .initial (config side) := endpoints_initial h side
  have hother : (t side.other).toEndpoint = .initial (config side.other) :=
    endpoints_initial h side.other
  have hspan := hspanned side
  have hzero : (0 : Int) ∈ (t side).udpSentPackets := by
    rw [hside]
    simp [Endpoint.initial, Endpoint.blank, Sender.push]
  have hle := le_trans ((t side).toSession.sub_le_keySpan hzero hzero) hspan
  have hnext : (t side).udpNextSendIndex = 1 := by
    rw [hside]
    rfl
  have hmaster : (t side.other).udpReceivedMasterIndex = 0 := by
    rw [hother]
    rfl
  omega

theorem ReachableSpanned.reachable {config : Config} {t : Tunnel} (h : ReachableSpanned config t) :
    Reachable (fun _ => config) t :=
  h.any

theorem ReachableSpanned.leading {config : Config} {t : Tunnel} (h : ReachableSpanned config t)
    (hspanned : t.Spanned) : t.Leading := by
  induction h with
  | start ht => exact leading_initial ht hspanned
  | next hs hok hm ih => exact (ih hok).step (ReachableSpanned.reachable hs) hm hspanned

/-- A datagram is never further ahead of what the receiver has in sequence than the
send buffer holds, so it is in the receiver's window unless TCP is behind by more
than the window leaves. -/
theorem transmitted_within_window {config : Config} {t : Tunnel} (h : ReachableSpanned config t)
    (hspanned : t.Spanned) (hsame : config.udpMaxSentBufferSize = config.udpMaxReceiveBufferSize)
    (side : Side) (packet : Packet) (hpacket : packet ∈ (t side.other).transmitted)
    (hnumbered : packet.getType.isNumbered = true) :
    packet.getIndex - (t side).udpReceivedMasterIndex ≤
        config.udpMaxReceiveBufferSize.tdiv config.udpSendPacketSize ∧
      ((t side).udpReceivedMasterIndex - (t side).tcpNextSendIndex ≤
          (2 * config.udpMaxReceiveBufferSize).tdiv config.udpSendPacketSize -
            config.udpMaxReceiveBufferSize.tdiv config.udpSendPacketSize →
        packet.getIndex - (t side).tcpNextSendIndex ≤
          (2 * (t side).udpMaxReceiveBufferSize).tdiv (t side).udpSendPacketSize) := by
  have honest := h.reachable.honest
  have hleading := h.leading hspanned side.other
  have hconfig := h.reachable.toConfig side.other
  have hsender := honest.sound side.other
  obtain ⟨i, hi⟩ := List.mem_iff_getElem?.mp ((created_of_transmitted hsender hpacket).1 hnumbered)
  have hindex := hsender.sending.wellFormed.getIndex_created (honest.next_lt side.other) hi
  have hlength := (List.getElem?_eq_some_iff.mp hi).1
  have hnext := hsender.sending.wellFormed.next_eq
  simp only [endpoints] at hindex hlength hnext
  rw [hconfig, Side.other_other, hsame] at hleading
  rw [h.reachable.toConfig side]
  constructor <;> omega

/-- A send buffer and a receive buffer of one packet. -/
def narrow : Config :=
  { Config.small with udpMaxSentBufferSize := 10, udpMaxReceiveBufferSize := 10 }

/-- The `n`-th packet of the client is sent and confirmed. -/
def confirmedRound (n : Nat) : List Move :=
  let timeUs := 1000 * n
  [.raise .client .udpWrite (timeUs + 100) (Io.steady (timeUs + 100)),
    .deliver .server n (Io.steady (timeUs + 200)),
    .raise .server .buildConfirmations (timeUs + 500) (Io.steady (timeUs + 500)),
    .raise .server .udpWrite (timeUs + 600) (Io.steady (timeUs + 600)),
    .deliver .client n (Io.steady (timeUs + 700))]

/-- The client reads a full packet. -/
def readRound (n : Nat) : Move :=
  .raise .client .tcpRead (1000 * n) { Io.steady (1000 * n) with tcpBytes := List.replicate 10 7 }

/-- The server's TCP socket takes nothing, while everything is confirmed. -/
def slowRun : List Move :=
  confirmedRound 0 ++
    .raise .server .tcpWrite 1000 { Io.steady 1000 with tcpAccepted := 0 } ::
      [1, 2, 3].flatMap (fun n => readRound n :: confirmedRound n) ++
        [readRound 4, .raise .client .udpWrite 4100 (Io.steady 4100)]

/-- The state that `slowRun` ends in, with a check of the key spans on the way. -/
def slowState : Option Tunnel :=
  Runs.run step (fun t _ => t.Spanned) (fresh narrow) slowRun

theorem slowState_isSome : slowState.isSome = true := by
  decide +kernel

theorem reachableSpanned_slowState : ReachableSpanned narrow (slowState.get slowState_isSome) :=
  Runs.Reachable.of_run (.start fun _ => ⟨10, 0, Io.steady 0, rfl⟩)
    (Option.some_get slowState_isSome).symm

/-- The slow reader's packet is within the send buffer's reach. -/
theorem transmitted_within_window_slowRun :
    ∃ t, ReachableSpanned narrow t ∧ t.Spanned ∧
      (Packet.datagram .data 4 (List.replicate 10 7)).getIndex - (t .server).udpReceivedMasterIndex ≤
        narrow.udpMaxReceiveBufferSize.tdiv narrow.udpSendPacketSize := by
  refine ⟨_, reachableSpanned_slowState, by decide +kernel, ?_⟩
  exact (transmitted_within_window reachableSpanned_slowState (by decide +kernel) rfl .server _
    (by decide +kernel) (by decide +kernel)).1

/-- A slow reader makes the server discard the packet it waits for. -/
theorem window_exceeded_slowRun :
    ∃ (t : Tunnel) (packet : Packet), ReachableSpanned narrow t ∧ t.Spanned ∧
      narrow.udpMaxSentBufferSize = narrow.udpMaxReceiveBufferSize ∧
      packet ∈ (t .client).transmitted ∧ packet.getType = .data ∧
      (t .server).udpConnected = true ∧ packet.getIndex = (t .server).udpReceivedMasterIndex ∧
      (t .server).acceptsPacket packet = false ∧
      ¬packet.getIndex - (t .server).tcpNextSendIndex ≤
        (2 * (t .server).udpMaxReceiveBufferSize).tdiv (t .server).udpSendPacketSize := by
  refine ⟨_, .datagram .data 4 (List.replicate 10 7), reachableSpanned_slowState, ?_⟩
  decide +kernel

end Tunnel

end IceTunnel
