import IceTunnel.Foundation.SortedKeys
import IceTunnel.Receiving

namespace IceTunnel

namespace Session

variable {s : Session}

theorem confirmation_wire (payload : List UInt8) :
    (s.confirmation payload).wire =
      .datagram .confirmation s.udpReceivedMasterIndex payload :=
  Packet.encode_wire _ _ _ _

theorem key_bounds (h : s.toReceiver.WellFormed) {index : Int}
    (hindex : index ∈ s.udpReceivedPackets) : 0 ≤ index ∧ index < intMax := by
  obtain ⟨p, hp⟩ := Option.isSome_iff_exists.mp (Std.ExtTreeMap.mem_iff_isSome_getElem?.mp hindex)
  obtain ⟨q, hq, hsame, -⟩ := h.key_accepted index p hp
  obtain ⟨h0, hlt, -⟩ := h.accepted_kept q hq
  omega

theorem keyRuns_received_bounds (h : s.toReceiver.WellFormed) :
    ∀ run ∈ Packet.keyRuns (s.udpReceivedPackets.keys.dropWhile (· < s.udpReceivedMasterIndex)),
      s.udpReceivedMasterIndex ≤ run.1 ∧ run.1 ≤ run.2 ∧ run.2 < 2 ^ 31 := by
  intro run hrun
  have hkeys : ∀ key ∈ s.udpReceivedPackets.keys.dropWhile (· < s.udpReceivedMasterIndex),
      s.udpReceivedMasterIndex ≤ key ∧ key < intMax := by
    intro key hkey
    obtain ⟨hle, hmem⟩ := (SortedKeys.mem_dropWhile_keys _).mp hkey
    exact ⟨hle, (key_bounds h hmem).2⟩
  obtain ⟨hfirst, horder, hlast⟩ := Packet.keyRuns_bounds hkeys run hrun
  simp only [intMax] at hlast
  omega

/-- The ranges of the Confirmation packets, read as `udpRead` reads them, are runs
of received keys. -/
theorem mem_of_confirmedRanges (h : s.toReceiver.WellFormed) {payload : List UInt8}
    (hpayload : payload ∈ s.confirmationPayloads) {range : Int × Int}
    (hrange : range ∈ Packet.rangesFrom payload.length s.udpReceivedMasterIndex payload)
    {index : Int} (hfirst : range.1 ≤ index) (hlast : index < range.2) :
    index ∈ s.udpReceivedPackets := by
  have hmaster := le_trans h.next_nonneg h.next_le
  obtain ⟨n, -, hdecode⟩ := Packet.packRuns_decode
    (Packet.walks_empty s.udpReceivedMasterIndex s.udpSendPacketSize) hmaster hmaster
    (keyRuns_received_bounds h)
  have hmem : range ∈ [] ++ (Packet.keyRuns
      (s.udpReceivedPackets.keys.dropWhile (· < s.udpReceivedMasterIndex))).take n := by
    rw [← hdecode]
    exact List.mem_flatMap.mpr ⟨payload, hpayload, hrange⟩
  have hkey := (Packet.mem_keyRuns _ index).mp
    ⟨range, List.mem_of_mem_take (by simpa using hmem), hfirst, hlast⟩
  exact ((SortedKeys.mem_dropWhile_keys _).mp hkey).2

/-- A Confirmation packet names accepted packets only. -/
theorem accepted_of_confirms (h : s.toReceiver.WellFormed) {payload : List UInt8}
    (hpayload : payload ∈ s.confirmationPayloads) {index : Int} (h0 : 0 ≤ index)
    (hconfirms : (s.confirmation payload).wire.Confirms index) :
    ∃ p ∈ s.accepted, p.getIndex = index := by
  have hmaster := le_trans h.next_nonneg h.next_le
  have hmax := le_trans h.master_le h.final_le
  simp only [intMax] at hmax
  have hindex : (Packet.datagram .confirmation s.udpReceivedMasterIndex payload).getIndex =
      s.udpReceivedMasterIndex :=
    Packet.datagram_getIndex _ _ hmaster (by omega)
  rw [confirmation_wire] at hconfirms
  rcases hconfirms with hbelow | ⟨range, hrange, hfirst, hlast⟩
  · rw [hindex] at hbelow
    exact h.covered index h0 hbelow
  · rw [Packet.confirmedRanges, Packet.datagram_getData, hindex] at hrange
    have hmem := mem_of_confirmedRanges h hpayload hrange hfirst hlast
    obtain ⟨p, hp⟩ := Option.isSome_iff_exists.mp (Std.ExtTreeMap.mem_iff_isSome_getElem?.mp hmem)
    obtain ⟨q, hq, hsame, -⟩ := h.key_accepted index p hp
    exact ⟨q, hq, hsame⟩

/-- The Confirmation packets built so far. -/
structure Acknowledging (s : Session) : Prop where
  confirmation_type : ∀ p ∈ s.confirmations, p.getType = .confirmation
  confirmation_accepted : ∀ p ∈ s.confirmations, ∀ index : Int, 0 ≤ index → p.Confirms index →
    ∃ q ∈ s.accepted, q.getIndex = index
  confirmed_master : s.udpConfirmedMasterIndex = 0 ∨
    ∃ p ∈ s.confirmations, p.getIndex = s.udpConfirmedMasterIndex
  byeBye_type : ∀ p ∈ s.byeByes, p.getType = .byeBye

end Session

namespace Protocol

variable {N : Packet → Prop} {e e' : Endpoint}

theorem acknowledging_receiver (h : e.Acknowledging) {r : Receiver}
    (hconfirmations : r.confirmations = e.confirmations)
    (haccepted : ∀ p ∈ e.accepted, p ∈ r.accepted)
    (hmaster : r.udpConfirmedMasterIndex = e.udpConfirmedMasterIndex) :
    Session.Acknowledging { e.toSession with toReceiver := r } := by
  refine ⟨?_, ?_, ?_, h.byeBye_type⟩
  · rw [hconfirmations]
    exact h.confirmation_type
  · rw [hconfirmations]
    intro p hp index h0 hindex
    obtain ⟨q, hq, hsame⟩ := h.confirmation_accepted p hp index h0 hindex
    exact ⟨q, haccepted q hq, hsame⟩
  · rw [hconfirmations, hmaster]
    exact h.confirmed_master

theorem acknowledging_sender (h : e.Acknowledging) {s : Sender} (hbyeByes : s.byeByes = e.byeByes) :
    Session.Acknowledging { e.toSession with toSender := s } := by
  refine ⟨h.confirmation_type, h.confirmation_accepted, h.confirmed_master, ?_⟩
  rw [hbyeByes]
  exact h.byeBye_type

theorem acknowledging_step (hr : e.toReceiver.WellFormed) (h : e.Acknowledging)
    (hstep : Step N e e') : e'.Acknowledging := by
  have hmaster := le_trans hr.next_nonneg hr.next_le
  have hmax := le_trans hr.master_le hr.final_le
  simp only [intMax] at hmax
  cases hstep with
  | read bytes =>
      have hs := acknowledging_sender h (s := e.toSender.record (.read bytes)) (by simp [SendAction.byeBye?])
      exact ⟨hs.confirmation_type, hs.confirmation_accepted, hs.confirmed_master, hs.byeBye_type⟩
  | readUnused bytes => exact acknowledging_sender h (by simp [SendAction.byeBye?])
  | create payload rest =>
      have hs := acknowledging_sender h (s := e.toSender.push e.udpResendCount .data payload)
        (Sender.push_byeByes _ _ _ _)
      exact ⟨hs.confirmation_type, hs.confirmation_accepted, hs.confirmed_master, hs.byeBye_type⟩
  | close type =>
      have hs := acknowledging_sender h (s := e.toSender.push e.udpResendCount type [])
        (Sender.push_byeByes _ _ _ _)
      exact ⟨hs.confirmation_type, hs.confirmation_accepted, hs.confirmed_master, hs.byeBye_type⟩
  | skip packet fake => exact acknowledging_receiver h (by simp) (by simp) (by simp)
  | skipClosing packet =>
      have hs := acknowledging_sender h (s := e.toSender.push e.udpResendCount .bye [])
        (Sender.push_byeByes _ _ _ _)
      have hr := acknowledging_receiver h (r := e.toReceiver.skip packet false)
        (by simp) (by simp) (by simp)
      exact ⟨hr.confirmation_type, hr.confirmation_accepted, hr.confirmed_master, hs.byeBye_type⟩
  | skipClosingUnused packet =>
      have hr := acknowledging_receiver h (r := e.toReceiver.skip packet false)
        (by simp) (by simp) (by simp)
      exact ⟨hr.confirmation_type, hr.confirmation_accepted, hr.confirmed_master, hr.byeBye_type⟩
  | write packet size => exact acknowledging_receiver h (by simp) (by simp) (by simp)
  | offerConfirmation packet => exact acknowledging_sender h (by simp [SendAction.byeBye?])
  | offer index packet => exact acknowledging_sender h (by simp [SendAction.byeBye?])
  | accept packet =>
      obtain ⟨masterIndex, finalIndex, heq, -⟩ := e.toReceiver.accept_eq packet
      refine acknowledging_receiver h (by simp) (fun p hp => by simp [hp]) ?_
      rw [heq]
  | confirm payload hudp hpayload =>
      have htype : (e.confirmation payload).wire.getType = .confirmation := by
        rw [Session.confirmation_wire]
        exact Packet.datagram_getType _ _ rfl
      refine ⟨?_, ?_, ?_, h.byeBye_type⟩
      · intro p hp
        simp only [Receiver.record_confirmations, List.mem_append, ReceiveAction.confirmation?,
          Option.toList_some, List.mem_singleton] at hp
        rcases hp with hp | rfl
        · exact h.confirmation_type p hp
        · exact htype
      · intro p hp index h0 hindex
        simp only [Receiver.record_confirmations, List.mem_append, ReceiveAction.confirmation?,
          Option.toList_some, List.mem_singleton] at hp
        simp only [Receiver.record_accepted, ReceiveAction.accepted?, Option.toList_none,
          List.append_nil]
        rcases hp with hp | rfl
        · exact h.confirmation_accepted p hp index h0 hindex
        · exact Session.accepted_of_confirms hr hpayload h0 hindex
      · rcases h.confirmed_master with hzero | ⟨p, hp, hsame⟩
        · exact .inl hzero
        · exact .inr ⟨p, by simp [hp], hsame⟩
  | settle payload hudp hmem =>
      refine ⟨h.confirmation_type, h.confirmation_accepted, .inr ⟨_, hmem, ?_⟩, h.byeBye_type⟩
      rw [Session.confirmation_wire]
      exact Packet.datagram_getIndex _ _ hmaster (by omega)
  | prune index =>
      refine acknowledging_receiver h (by simp) (by simp) ?_
      simp only [Receiver.pruneKey]
      split
      · rfl
      · split <;> rfl
  | byeBye hudp =>
      refine ⟨h.confirmation_type, h.confirmation_accepted, h.confirmed_master, fun p hp => ?_⟩
      simp only [Sender.record_byeByes, List.mem_append, SendAction.byeBye?, Option.toList_some,
        List.mem_singleton] at hp
      rcases hp with hp | rfl
      · exact h.byeBye_type p hp
      · rw [Packet.wire_getType, Session.byeByePacket]
        exact Packet.encode_getType _ _ _ rfl
  | acceptByeBye packet =>
      exact acknowledging_receiver h (by simp [ReceiveAction.confirmation?])
        (fun p hp => by simp [hp]) rfl
  | _ => exact ⟨h.confirmation_type, h.confirmation_accepted, h.confirmed_master, h.byeBye_type⟩

end Protocol

end IceTunnel
