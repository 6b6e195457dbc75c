import Mathlib.Data.Finset.Card
import IceTunnel.Sending

namespace IceTunnel

/-- The keys of the packets that are not sent. -/
def unsent (packets : Std.ExtTreeMap Int Packet) : Finset Int :=
  packets.keys.toFinset.filter fun key => (packets[key]?.any fun p => !p.sent) = true

section Unsent

variable (packets : Std.ExtTreeMap Int Packet) {key : Int} {p : Packet}

theorem mem_unsent : key ∈ unsent packets ↔ ∃ p, packets[key]? = some p ∧ p.sent = false := by
  simp only [unsent, Finset.mem_filter, List.mem_toFinset, Std.ExtTreeMap.mem_keys,
    Std.ExtTreeMap.mem_iff_isSome_getElem?]
  cases packets[key]? <;> simp

theorem unsent_insert_of_not_sent (h : p.sent = false) :
    unsent (packets.insert key p) = insert key (unsent packets) := by
  ext other
  simp only [mem_unsent, Finset.mem_insert, Std.ExtTreeMap.getElem?_insert, compare_eq_iff_eq]
  by_cases hkey : key = other
  · simp [hkey, h]
  · simp [hkey, Ne.symm hkey]

theorem unsent_insert_of_sent (h : p.sent = true) :
    unsent (packets.insert key p) = (unsent packets).erase key := by
  ext other
  simp only [mem_unsent, Finset.mem_erase, Std.ExtTreeMap.getElem?_insert, compare_eq_iff_eq]
  by_cases hkey : key = other
  · simp [hkey, h]
  · simp [hkey, Ne.symm hkey]

theorem unsent_erase : unsent (packets.erase key) = (unsent packets).erase key := by
  ext other
  simp only [mem_unsent, Finset.mem_erase, Std.ExtTreeMap.getElem?_erase, compare_eq_iff_eq]
  by_cases hkey : key = other
  · simp [hkey]
  · simp [hkey, Ne.symm hkey]

theorem sent_eq_false_of_size_le (h : packets.size ≤ (unsent packets).card)
    (hp : packets[key]? = some p) : p.sent = false := by
  have hcard : packets.keys.toFinset.card ≤ (unsent packets).card :=
    le_trans (List.toFinset_card_le _) (by rwa [Std.ExtTreeMap.length_keys])
  have hall := Finset.eq_of_subset_of_card_le (Finset.filter_subset _ _) hcard
  have hmem : key ∈ packets.keys.toFinset := by
    rw [List.mem_toFinset, Std.ExtTreeMap.mem_keys, Std.ExtTreeMap.mem_iff_isSome_getElem?, hp]
    rfl
  rw [← hall] at hmem
  obtain ⟨q, hq, hsent⟩ := (mem_unsent packets).mp hmem
  rw [Option.some.inj (hp.symm.trans hq)]
  exact hsent

end Unsent

/-- The count is right while the UDP side is up. -/
def Session.Counting (s : Session) : Prop :=
  s.udpConnected = true → s.udpPacketsToSendCount = (unsent s.udpSentPackets).card

namespace Protocol

variable {N : Packet → Prop} {e e' : Endpoint}

theorem card_unsent_push (h : e.Sending) (udpResendCount : Int) (type : PacketType)
    (payload : List UInt8) :
    ((unsent (e.toSender.push udpResendCount type payload).udpSentPackets).card : Int) =
      (unsent e.udpSentPackets).card + 1 := by
  have hnew := h.wellFormed.next_not_sent
  have hnot : e.udpNextSendIndex ∉ unsent e.udpSentPackets := by
    rw [mem_unsent]
    rintro ⟨p, hp, -⟩
    rw [hnew] at hp
    cases hp
  simp only [Sender.push]
  rw [unsent_insert_of_not_sent, Finset.card_insert_of_notMem hnot]
  · rfl
  · simp [Std.ExtTreeMap.getD_eq_getD_getElem?, hnew]

theorem counting_step (hsending : e.Sending) (h : e.Counting) (hstep : Step N e e') :
    e'.Counting := by
  cases hstep with
  | create payload rest hudp =>
      intro _
      have hcard := card_unsent_push hsending e.udpResendCount .data payload
      have hcount := h hudp
      simp only [Sender.push] at hcard ⊢
      omega
  | close type htcp hudp =>
      intro _
      have hcard := card_unsent_push hsending e.udpResendCount type []
      have hcount := h hudp
      simp only [Sender.push] at hcard ⊢
      omega
  | skipClosing packet hnext hclosing htcp hudp =>
      intro _
      have hcard := card_unsent_push hsending e.udpResendCount .bye []
      have hcount := h hudp
      simp only [Sender.push] at hcard ⊢
      omega
  | transmit index packet timeUs measureIndex hpacket hsent =>
      intro hudp
      have hmem : index ∈ unsent e.udpSentPackets := (mem_unsent _).mpr ⟨packet, hpacket, hsent⟩
      have hpos := Finset.card_pos.mpr ⟨index, hmem⟩
      have hcount := h hudp
      change e.udpPacketsToSendCount - 1 = ((unsent (e.udpSentPackets.insert index _)).card : Int)
      rw [unsent_insert_of_sent _ (by rfl), Finset.card_erase_of_mem hmem]
      omega
  | resend index packet hpacket hsent =>
      intro hudp
      have hnot : index ∉ unsent e.udpSentPackets := by
        rw [mem_unsent]
        rintro ⟨p, hp, hunsent⟩
        rw [← Option.some.inj (hpacket.symm.trans hp), hsent] at hunsent
        cases hunsent
      have hcount := h hudp
      change e.udpPacketsToSendCount + 1 = ((unsent (e.udpSentPackets.insert index _)).card : Int)
      rw [unsent_insert_of_not_sent _ (by rfl), Finset.card_insert_of_notMem hnot]
      omega
  | eraseComplete index packet hpacket hcomplete =>
      have hconfirmed := hsending.wellFormed.sent_unconfirmed index packet hpacket
      simp [Packet.isComplete, hconfirmed] at hcomplete
  | forget index packet confirmation hnet hudp htype hconfirms hpacket =>
      intro _
      have hcount := h hudp
      simp only [unsent_erase]
      cases hsent : packet.sent with
      | false =>
          have hmem : index ∈ unsent e.udpSentPackets := (mem_unsent _).mpr ⟨packet, hpacket, hsent⟩
          have hpos := Finset.card_pos.mpr ⟨index, hmem⟩
          simp only [Finset.card_erase_of_mem hmem, Bool.false_eq_true, if_false]
          omega
      | true =>
          have hnot : index ∉ unsent e.udpSentPackets := by
            rw [mem_unsent]
            rintro ⟨p, hp, hunsent⟩
            rw [← Option.some.inj (hpacket.symm.trans hp), hsent] at hunsent
            cases hunsent
          simpa only [Finset.erase_eq_of_notMem hnot, if_true] using hcount
  | closeUdp =>
      intro hudp
      cases hudp
  | _ => exact h

end Protocol

end IceTunnel
