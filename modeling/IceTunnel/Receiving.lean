import Mathlib.Data.Finset.Card
import IceTunnel.Protocol

namespace IceTunnel

namespace Receiver

/-- The indices are in order, the map holds what was accepted and not yet passed
on, and the final index is the end of the stream. -/
structure Consistent (r : Receiver) : Prop where
  next_nonneg : 0 ≤ r.tcpNextSendIndex
  next_le : r.tcpNextSendIndex ≤ r.udpReceivedMasterIndex
  master_le : r.udpReceivedMasterIndex ≤ r.udpReceivedFinalIndex
  final_le : r.udpReceivedFinalIndex ≤ intMax
  confirmed_nonneg : 0 ≤ r.udpConfirmedMasterIndex
  confirmed_le : r.udpConfirmedMasterIndex ≤ r.udpReceivedMasterIndex
  key_sent : ∀ (index : Int) (p : Packet), r.udpReceivedPackets[index]? = some p →
    (p.sent = true ↔ index < r.tcpNextSendIndex)
  filled : ∀ index : Int, r.tcpNextSendIndex ≤ index → index < r.udpReceivedMasterIndex →
    index ∈ r.udpReceivedPackets
  key_accepted : ∀ (index : Int) (p : Packet), r.udpReceivedPackets[index]? = some p →
    ∃ q ∈ r.accepted, q.getIndex = index ∧ q.getIndex = p.getIndex ∧ q.getType = p.getType ∧
      (r.tcpNextSendIndex < index → q.getData = p.getData)
  accepted_kept : ∀ q ∈ r.accepted, 0 ≤ q.getIndex ∧ q.getIndex < intMax ∧
    (q.getIndex < r.tcpNextSendIndex ∨ q.getIndex ∈ r.udpReceivedPackets)
  accepted_nodup : (r.accepted.map Packet.getIndex).Nodup
  covered : ∀ index : Int, 0 ≤ index → index < r.udpReceivedMasterIndex →
    ∃ q ∈ r.accepted, q.getIndex = index
  final_closing : r.udpReceivedFinalIndex ≠ intMax →
    r.udpReceivedFinalIndex = r.udpReceivedMasterIndex ∧
      ∃ q ∈ r.accepted, q.getType.isClosing = true ∧ q.getIndex + 1 = r.udpReceivedFinalIndex
  closing_final : ∀ q ∈ r.accepted, q.getType.isClosing = true →
    q.getIndex < r.udpReceivedMasterIndex → r.udpReceivedFinalIndex = q.getIndex + 1

/-- The master index has also moved as far as it can. -/
structure WellFormed (r : Receiver) : Prop extends Consistent r where
  gap : r.udpReceivedMasterIndex ∈ r.udpReceivedPackets →
    r.udpReceivedMasterIndex = r.udpReceivedFinalIndex

namespace Consistent

variable {r : Receiver}

theorem accepted_unique (h : r.Consistent) {p q : Packet} (hp : p ∈ r.accepted)
    (hq : q ∈ r.accepted) (hindex : p.getIndex = q.getIndex) : p = q :=
  List.inj_on_of_nodup_map h.accepted_nodup hp hq hindex

theorem moveMaster (h : r.Consistent) {packet : Packet}
    (hpacket : r.udpReceivedPackets[r.udpReceivedMasterIndex]? = some packet)
    (hfinal : r.udpReceivedMasterIndex < r.udpReceivedFinalIndex) :
    { r with
      udpReceivedMasterIndex := r.udpReceivedMasterIndex + 1
      udpReceivedFinalIndex := if packet.getType.isClosing then r.udpReceivedMasterIndex + 1
        else r.udpReceivedFinalIndex }.Consistent := by
  have hnext := h.next_le
  have hle := h.final_le
  have hconfirmed := h.confirmed_le
  obtain ⟨q, hq, hqindex, -, hqtype, -⟩ := h.key_accepted _ packet hpacket
  have hopen : r.udpReceivedFinalIndex = intMax := by
    by_contra hne
    have := (h.final_closing hne).1
    omega
  constructor
  · exact h.next_nonneg
  · simp only
    omega
  · simp only
    split <;> omega
  · simp only
    split <;> omega
  · exact h.confirmed_nonneg
  · simp only
    omega
  · exact h.key_sent
  · intro index hindex hmaster
    by_cases hlast : index = r.udpReceivedMasterIndex
    · rw [hlast]
      exact Std.ExtTreeMap.mem_iff_isSome_getElem?.mpr (by simp [hpacket])
    · exact h.filled index hindex (by simp only at hmaster; omega)
  · exact h.key_accepted
  · exact h.accepted_kept
  · exact h.accepted_nodup
  · intro index h0 hindex
    by_cases hlast : index = r.udpReceivedMasterIndex
    · exact ⟨q, hq, by omega⟩
    · exact h.covered index h0 (by simp only at hindex; omega)
  · intro hne
    simp only at hne ⊢
    split
    · rename_i hclosing
      exact ⟨rfl, q, hq, by rw [hqtype]; exact hclosing, by omega⟩
    · rename_i hclosing
      simp only [hclosing] at hne
      exact absurd hopen hne
  · intro p hp hclosing hindex
    simp only at hindex ⊢
    by_cases hlast : p.getIndex = r.udpReceivedMasterIndex
    · have heq := h.accepted_unique hp hq (by omega)
      rw [← hqtype, ← heq, if_pos hclosing, hlast]
    · have := h.closing_final p hp hclosing (by omega)
      omega

/-- How many keys the loop of `udpRead` can still pass. -/
def ahead (r : Receiver) : Nat :=
  (r.udpReceivedPackets.keys.toFinset.filter (r.udpReceivedMasterIndex ≤ ·)).card

/-- The loop of `udpRead` stops at a gap or at the final index. -/
theorem advance (h : r.Consistent) {fuel : Nat} (hfuel : ahead r ≤ fuel) :
    (Receiver.advance fuel r).WellFormed := by
  induction fuel generalizing r with
  | zero =>
      rw [Receiver.advance]
      refine ⟨h, fun hmem => ?_⟩
      have hcard : 0 < ahead r := by
        rw [ahead, Finset.card_pos]
        exact ⟨r.udpReceivedMasterIndex, by simpa using hmem⟩
      omega
  | succ fuel ih =>
      simp only [Receiver.advance]
      split
      · rename_i hnone
        refine ⟨h, fun hmem => ?_⟩
        rw [Std.ExtTreeMap.mem_iff_isSome_getElem?, hnone] at hmem
        cases hmem
      · rename_i packet hpacket
        split
        · rename_i hfinal
          refine ih (h.moveMaster hpacket hfinal) ?_
          have hlt : (r.udpReceivedPackets.keys.toFinset.filter
              (r.udpReceivedMasterIndex + 1 ≤ ·)).card < ahead r := by
            apply Finset.card_lt_card
            rw [Finset.ssubset_iff_of_subset]
            · refine ⟨r.udpReceivedMasterIndex, ?_, by simp⟩
              simpa using Std.ExtTreeMap.mem_iff_isSome_getElem?.mpr (by simp [hpacket])
            · intro index hindex
              simp only [Finset.mem_filter] at hindex ⊢
              exact ⟨hindex.1, by omega⟩
          simp only [ahead] at hfuel hlt ⊢
          omega
        · rename_i hfinal
          exact ⟨h, fun _ => by have := h.master_le; omega⟩

end Consistent

namespace WellFormed

variable {r : Receiver}

theorem setBufferSize (h : r.WellFormed) (size : Int32) :
    { r with udpReceiveBufferSize := size }.WellFormed :=
  { h with }

theorem settle (h : r.WellFormed) :
    { r with udpConfirmedMasterIndex := r.udpReceivedMasterIndex }.WellFormed :=
  { h with
    confirmed_nonneg := le_trans h.next_nonneg h.next_le
    confirmed_le := le_refl _ }

theorem record (h : r.WellFormed) (action : ReceiveAction) (haction : action.accepted? = none) :
    (r.record action).WellFormed := by
  have hsame : (r.record action).accepted = r.accepted := by simp [haction]
  exact
    { h with
      key_accepted := by rw [hsame]; exact h.key_accepted
      accepted_kept := by rw [hsame]; exact h.accepted_kept
      accepted_nodup := by rw [hsame]; exact h.accepted_nodup
      covered := by rw [hsame]; exact h.covered
      final_closing := by rw [hsame]; exact h.final_closing
      closing_final := by rw [hsame]; exact h.closing_final }

theorem insert (h : r.WellFormed) {index : Int} {p q : Packet}
    (hp : r.udpReceivedPackets[index]? = some p) (htype : q.getType = p.getType)
    (hindex : q.getIndex = p.getIndex) (hsent : q.sent = p.sent)
    (hdata : r.tcpNextSendIndex < index → q.getData = p.getData) :
    { r with udpReceivedPackets := r.udpReceivedPackets.insert index q }.WellFormed := by
  have hmem : ∀ other : Int, other ∈ r.udpReceivedPackets.insert index q ↔
      other ∈ r.udpReceivedPackets := by
    intro other
    simp only [Std.ExtTreeMap.mem_insert, compare_eq_iff_eq]
    constructor
    · rintro (rfl | hother)
      · exact Std.ExtTreeMap.mem_iff_isSome_getElem?.mpr (by simp [hp])
      · exact hother
    · exact .inr
  exact
    { h with
      key_sent := by
        intro other p' hp'
        simp only [Std.ExtTreeMap.getElem?_insert, compare_eq_iff_eq] at hp'
        split at hp'
        · rename_i heq
          obtain rfl := Option.some.inj hp'
          rw [hsent, ← heq]
          exact h.key_sent index p hp
        · exact h.key_sent other p' hp'
      filled := fun other hnext hmaster => (hmem other).mpr (h.filled other hnext hmaster)
      key_accepted := by
        intro other p' hp'
        simp only [Std.ExtTreeMap.getElem?_insert, compare_eq_iff_eq] at hp'
        split at hp'
        · rename_i heq
          obtain rfl := Option.some.inj hp'
          subst heq
          obtain ⟨a, ha, haindex, hasame, hatype, hadata⟩ := h.key_accepted index p hp
          exact ⟨a, ha, haindex, by rw [hindex]; exact hasame, by rw [htype]; exact hatype,
            fun hlt => by rw [hdata hlt]; exact hadata hlt⟩
        · exact h.key_accepted other p' hp'
      accepted_kept := by
        intro a ha
        obtain ⟨h0, hmax, hkept⟩ := h.accepted_kept a ha
        exact ⟨h0, hmax, hkept.imp_right (hmem _).mpr⟩
      gap := fun hmaster => h.gap ((hmem _).mp hmaster) }

theorem consume (h : r.WellFormed) {p q : Packet} (fake : Bool)
    (hp : r.udpReceivedPackets[r.tcpNextSendIndex]? = some p)
    (hmaster : r.tcpNextSendIndex < r.udpReceivedMasterIndex)
    (htype : q.getType = p.getType) (hindex : q.getIndex = p.getIndex) :
    (r.consume q fake).WellFormed := by
  have hnonneg := h.next_nonneg
  have hother : ∀ (index : Int), index ≠ r.tcpNextSendIndex →
      (r.consume q fake).udpReceivedPackets[index]? = r.udpReceivedPackets[index]? :=
    fun _ hne => r.consume_other q fake hne
  have hself : ∀ p' : Packet, (r.consume q fake).udpReceivedPackets[r.tcpNextSendIndex]? = some p' →
      p' = { q with sent := true } := by
    intro p' hp'
    simp only [Receiver.consume] at hp'
    split at hp'
    · simp at hp'
    · simpa using hp'.symm
  have hmem : ∀ (index : Int), index ≠ r.tcpNextSendIndex →
      (index ∈ (r.consume q fake).udpReceivedPackets ↔ index ∈ r.udpReceivedPackets) := by
    intro index hne
    rw [Std.ExtTreeMap.mem_iff_isSome_getElem?, Std.ExtTreeMap.mem_iff_isSome_getElem?,
      hother index hne]
  have haccepted := r.consume_accepted q fake
  constructor
  · constructor
    · simp only [Receiver.consume]
      omega
    · simp only [Receiver.consume]
      omega
    · exact h.master_le
    · exact h.final_le
    · exact h.confirmed_nonneg
    · exact h.confirmed_le
    · intro index p' hp'
      simp only [Receiver.consume]
      by_cases hlast : index = r.tcpNextSendIndex
      · rw [hlast] at hp'
        rw [hself p' hp', hlast]
        simp
      · rw [hother index hlast] at hp'
        rw [h.key_sent index p' hp']
        omega
    · intro index hnext hindex
      simp only [Receiver.consume] at hnext hindex
      exact (hmem index (by omega)).mpr (h.filled index (by omega) hindex)
    · intro index p' hp'
      rw [haccepted]
      by_cases hlast : index = r.tcpNextSendIndex
      · rw [hlast] at hp' ⊢
        obtain ⟨a, ha, haindex, hasame, hatype, -⟩ := h.key_accepted _ p hp
        rw [hself p' hp']
        refine ⟨a, ha, haindex, hasame.trans hindex.symm, hatype.trans htype.symm, fun hlt => ?_⟩
        simp only [Receiver.consume] at hlt
        omega
      · rw [hother index hlast] at hp'
        obtain ⟨a, ha, haindex, hasame, hatype, hadata⟩ := h.key_accepted index p' hp'
        refine ⟨a, ha, haindex, hasame, hatype, fun hlt => hadata ?_⟩
        simp only [Receiver.consume] at hlt
        omega
    · rw [haccepted]
      intro a ha
      obtain ⟨h0, hmax, hkept⟩ := h.accepted_kept a ha
      refine ⟨h0, hmax, ?_⟩
      simp only [Receiver.consume] at hmem ⊢
      by_cases hlast : a.getIndex = r.tcpNextSendIndex
      · exact .inl (by omega)
      · rcases hkept with hkept | hkept
        · exact .inl (by omega)
        · exact .inr ((hmem _ hlast).mpr hkept)
    · rw [haccepted]
      exact h.accepted_nodup
    · rw [haccepted]
      exact h.covered
    · rw [haccepted]
      exact h.final_closing
    · rw [haccepted]
      exact h.closing_final
  · intro hmaster'
    have hne : r.udpReceivedMasterIndex ≠ r.tcpNextSendIndex := by omega
    exact h.gap ((hmem _ hne).mp hmaster')

theorem skip (h : r.WellFormed) {p : Packet} (fake : Bool)
    (hp : r.udpReceivedPackets[r.tcpNextSendIndex]? = some p)
    (hmaster : r.tcpNextSendIndex < r.udpReceivedMasterIndex) : (r.skip p fake).WellFormed := by
  simp only [Receiver.skip]
  split
  · exact (h.setBufferSize _).consume fake hp hmaster rfl rfl
  · exact h.consume fake hp hmaster rfl rfl

theorem write (h : r.WellFormed) {p : Packet} {size : Nat}
    (hp : r.udpReceivedPackets[r.tcpNextSendIndex]? = some p)
    (hmaster : r.tcpNextSendIndex < r.udpReceivedMasterIndex)
    (hpos : 0 < size) (hsize : size ≤ p.getData.length) : (r.write p size).WellFormed := by
  have htype := Packet.erasePayload_getType hpos hsize
  have hindex := Packet.erasePayload_getIndex hpos hsize
  have hinsert := h.insert (q := p.erasePayload size) hp htype hindex rfl (by omega)
  have hrecord := (hinsert.setBufferSize (r.udpReceiveBufferSize - Int32.ofInt size)).record
    (.write (p.getData.take size)) rfl
  simp only [Receiver.write]
  split
  · exact hrecord.consume false Std.ExtTreeMap.getElem?_insert_self hmaster rfl rfl
  · exact hrecord

theorem pruneKey (h : r.WellFormed) {index : Int} (hindex : index < r.tcpNextSendIndex) :
    (r.pruneKey index).WellFormed := by
  have hnext := h.next_le
  simp only [Receiver.pruneKey]
  split
  · exact h
  · rename_i p hp
    split
    · refine WellFormed.setBufferSize (r := { r with
        udpReceivedPackets := r.udpReceivedPackets.erase index }) ?_ _
      have hother : ∀ (other : Int) (p' : Packet), (r.udpReceivedPackets.erase index)[other]? = some p' →
          r.udpReceivedPackets[other]? = some p' := by
        intro other p' hp'
        rw [Std.ExtTreeMap.getElem?_erase] at hp'
        split at hp'
        · cases hp'
        · exact hp'
      have hmem : ∀ (other : Int), r.tcpNextSendIndex ≤ other →
          other ∈ r.udpReceivedPackets → other ∈ r.udpReceivedPackets.erase index := by
        intro other hle hmem
        simp only [Std.ExtTreeMap.mem_erase, compare_eq_iff_eq, ne_eq]
        exact ⟨by omega, hmem⟩
      exact
        { h with
          key_sent := fun other p' hp' => h.key_sent other p' (hother other p' hp')
          filled := fun other hle hlt => hmem other hle (h.filled other hle hlt)
          key_accepted := fun other p' hp' => h.key_accepted other p' (hother other p' hp')
          accepted_kept := by
            intro a ha
            obtain ⟨h0, hmax, hkept⟩ := h.accepted_kept a ha
            refine ⟨h0, hmax, ?_⟩
            simp only
            by_cases hlt : a.getIndex < r.tcpNextSendIndex
            · exact .inl hlt
            · rcases hkept with hkept | hkept
              · exact .inl hkept
              · exact .inr (hmem _ (by omega) hkept)
          gap := by
            intro hmaster
            simp only [Std.ExtTreeMap.mem_erase] at hmaster
            exact h.gap hmaster.2 }
    · exact h.insert hp rfl rfl rfl fun _ => rfl

theorem accept (h : r.WellFormed) {p : Packet} (hwire : p.wire = p)
    (hmaster : r.udpReceivedMasterIndex ≤ p.getIndex) (hfinal : p.getIndex < r.udpReceivedFinalIndex)
    (hnew : p.getIndex ∉ r.udpReceivedPackets) : (r.accept p).WellFormed := by
  have hnext := h.next_le
  have hnonneg := h.next_nonneg
  have hmax := h.final_le
  have hsent : p.sent = false := by rw [← hwire]; rfl
  have hopen : r.udpReceivedFinalIndex = intMax := by
    by_contra hne
    have := (h.final_closing hne).1
    omega
  have haccepted : ∀ q : Packet,
      q ∈ ({ r with
        udpReceivedPackets := r.udpReceivedPackets.insert p.getIndex p
        udpReceiveBufferSize := r.udpReceiveBufferSize + .ofInt p.getSize
        receiveHistory := r.receiveHistory ++ [.accept p.wire] } : Receiver).accepted ↔
      q ∈ r.accepted ∨ q = p := by
    simp [Receiver.accepted, ReceiveAction.accepted?, hwire]
  have hmem : ∀ index : Int, index ∈ r.udpReceivedPackets →
      index ∈ r.udpReceivedPackets.insert p.getIndex p :=
    fun index hindex => by simp [hindex]
  refine Consistent.advance (r := { r with
    udpReceivedPackets := r.udpReceivedPackets.insert p.getIndex p
    udpReceiveBufferSize := r.udpReceiveBufferSize + .ofInt p.getSize
    receiveHistory := r.receiveHistory ++ [.accept p.wire] }) ?_ ?_
  · exact
      { h with
        key_sent := by
          intro index q hq
          simp only [Std.ExtTreeMap.getElem?_insert, compare_eq_iff_eq] at hq
          split at hq
          · obtain rfl := Option.some.inj hq
            simp only [hsent, Bool.false_eq_true, false_iff]
            omega
          · exact h.key_sent index q hq
        filled := fun index hle hlt => hmem index (h.filled index hle hlt)
        key_accepted := by
          intro index q hq
          simp only [Std.ExtTreeMap.getElem?_insert, compare_eq_iff_eq] at hq
          split at hq
          · rename_i hindex
            obtain rfl := Option.some.inj hq
            exact ⟨p, (haccepted p).mpr (.inr rfl), hindex, rfl, rfl, fun _ => rfl⟩
          · obtain ⟨a, ha, hrest⟩ := h.key_accepted index q hq
            exact ⟨a, (haccepted a).mpr (.inl ha), hrest⟩
        accepted_kept := by
          intro a ha
          rcases (haccepted a).mp ha with ha | rfl
          · obtain ⟨h0, hlt, hkept⟩ := h.accepted_kept a ha
            exact ⟨h0, hlt, hkept.imp_right (hmem _)⟩
          · exact ⟨by omega, by omega, .inr (by simp)⟩
        accepted_nodup := by
          simp only [Receiver.accepted, List.filterMap_append, List.map_append]
          refine List.Nodup.append h.accepted_nodup (by simp [ReceiveAction.accepted?]) ?_
          intro index hold hlast
          simp only [ReceiveAction.accepted?, List.filterMap_cons, List.filterMap_nil, List.map_cons,
            List.map_nil, List.mem_singleton, Packet.wire_getIndex] at hlast
          obtain ⟨a, ha, rfl⟩ := List.mem_map.mp hold
          obtain ⟨-, -, hkept⟩ := h.accepted_kept a ha
          rcases hkept with hkept | hkept
          · omega
          · exact hnew (hlast ▸ hkept)
        covered := by
          intro index h0 hlt
          obtain ⟨a, ha, hindex⟩ := h.covered index h0 hlt
          exact ⟨a, (haccepted a).mpr (.inl ha), hindex⟩
        final_closing := fun hne => absurd hopen hne
        closing_final := by
          intro a ha hclosing hlt
          simp only at hlt
          rcases (haccepted a).mp ha with ha | rfl
          · exact h.closing_final a ha hclosing hlt
          · omega }
  · refine le_trans (Finset.card_filter_le _ _) (le_trans (List.toFinset_card_le _) ?_)
    rw [Std.ExtTreeMap.length_keys]

end WellFormed

theorem wellFormed_blank (config : Config) : (Endpoint.blank config).toReceiver.WellFormed := by
  have hempty : (Endpoint.blank config).udpReceivedPackets = ∅ := rfl
  have haccepted : (Endpoint.blank config).accepted = [] := rfl
  have hmaster : (Endpoint.blank config).udpReceivedMasterIndex = 0 := rfl
  constructor
  · constructor
    · exact le_refl _
    · exact le_refl _
    · exact (by decide : (0 : Int) ≤ intMax)
    · exact le_refl _
    · exact le_refl _
    · exact le_refl _
    · simp [hempty]
    · intro index hnext hindex
      exact absurd hindex (not_lt.mpr hnext)
    · simp [hempty]
    · simp [haccepted]
    · simp [haccepted]
    · intro index h0 hindex
      exact absurd hindex (not_lt.mpr h0)
    · exact fun hne => absurd rfl hne
    · simp [haccepted]
  · intro hmem
    simp [hempty] at hmem

end Receiver

namespace Session

theorem acceptsPacket_eq_true {s : Session} {packet : Packet}
    (h : s.acceptsPacket packet = true) :
    s.udpReceivedMasterIndex ≤ packet.getIndex ∧ packet.getIndex < s.udpReceivedFinalIndex ∧
      packet.getIndex - s.tcpNextSendIndex ≤
        s.receiveWindow ∧
      packet.getType.isNumbered = true := by
  simp only [acceptsPacket, Bool.and_eq_true, Bool.or_eq_true, decide_eq_true_eq] at h
  obtain ⟨⟨⟨hmaster, hfinal⟩, hwindow⟩, htype⟩ := h
  refine ⟨hmaster, hfinal, hwindow, ?_⟩
  rcases htype with ((⟨htype, -⟩ | htype) | htype) | htype <;> simp [htype, PacketType.isNumbered]

/-- TCP is closed when it gets past a closing packet. -/
def Concluded (s : Session) : Prop :=
  ∀ p ∈ s.accepted, p.getType.isClosing = true → p.getIndex < s.tcpNextSendIndex →
    s.tcpConnected = false

theorem Concluded.tcpConnected {s : Session} (h : s.Concluded) (hr : s.toReceiver.WellFormed)
    (hfinal : s.udpReceivedFinalIndex ≠ intMax)
    (hnext : s.udpReceivedMasterIndex ≤ s.tcpNextSendIndex) : s.tcpConnected = false := by
  obtain ⟨hend, p, hp, hclosing, hindex⟩ := hr.final_closing hfinal
  exact h p hp hclosing (by omega)

end Session

namespace Protocol

variable {N : Packet → Prop} {e e' : Endpoint}

theorem receiving_step (h : e.toReceiver.WellFormed) (hstep : Step N e e') :
    e'.toReceiver.WellFormed := by
  cases hstep with
  | skip packet fake hnext => exact h.skip fake hnext.2 hnext.1
  | skipClosing packet hnext => exact h.skip false hnext.2 hnext.1
  | skipClosingUnused packet hnext => exact h.skip false hnext.2 hnext.1
  | write packet size hnext htcp htype hpos hsize => exact h.write hnext.2 hnext.1 hpos hsize
  | accept packet hnet hwire hudp haccepts hnew =>
      obtain ⟨hmaster, hfinal, -⟩ := Session.acceptsPacket_eq_true haccepts
      exact h.accept hwire hmaster hfinal hnew
  | confirm payload => exact h.record _ rfl
  | settle payload => exact h.settle
  | prune index hindex => exact h.pruneKey hindex
  | acceptByeBye packet => exact h.record _ rfl
  | _ => exact h

theorem concluded_step (h : e.toReceiver.WellFormed) (hconcluded : e.Concluded)
    (hstep : Step N e e') : e'.Concluded := by
  have hlast : ∀ {packet q : Packet}, e.IsNext packet → packet.getType.isClosing = false →
      q ∈ e.accepted → q.getType.isClosing = true → q.getIndex < e.tcpNextSendIndex + 1 →
      e.tcpConnected = false := by
    intro packet q hnext hopen hq hclosing hlt
    obtain ⟨a, ha, haindex, -, hatype, -⟩ := h.key_accepted _ packet hnext.2
    by_cases hindex : q.getIndex = e.tcpNextSendIndex
    · rw [h.accepted_unique hq ha (by omega), hatype, hopen] at hclosing
      cases hclosing
    · exact hconcluded q hq hclosing (by omega)
  cases hstep with
  | close type => exact fun _ _ _ _ => rfl
  | hangUp => exact fun _ _ _ _ => rfl
  | skip packet fake hnext hfake hskip =>
      intro q hq hclosing hlt
      simp only [Receiver.skip_accepted, Receiver.skip_tcpNextSendIndex] at hq hlt
      rcases hskip with rfl | ⟨-, hopen⟩
      · simpa using hfake
      · exact hlast hnext hopen hq hclosing hlt
  | skipClosing packet => exact fun _ _ _ _ => rfl
  | skipClosingUnused packet => exact fun _ _ _ _ => rfl
  | write packet size hnext htcp htype hpos hsize =>
      intro q hq hclosing hlt
      rw [Receiver.write_accepted] at hq
      have hmove := e.toReceiver.write_tcpNextSendIndex packet size
      exact hlast hnext (by rw [htype]; rfl) hq hclosing (by simp only at hlt; omega)
  | accept packet hnet hwire hudp haccepts hnew =>
      obtain ⟨hmaster, -⟩ := Session.acceptsPacket_eq_true haccepts
      obtain ⟨masterIndex, finalIndex, heq, -⟩ := e.toReceiver.accept_eq packet
      have hnext := h.next_le
      intro q hq hclosing hlt
      rw [Receiver.accept_accepted, hwire, List.mem_append, List.mem_singleton] at hq
      simp only [heq] at hlt
      rcases hq with hq | rfl
      · exact hconcluded q hq hclosing hlt
      · omega
  | confirm payload => simpa [Session.Concluded, ReceiveAction.accepted?] using hconcluded
  | prune index => simpa [Session.Concluded] using hconcluded
  | acceptByeBye packet => simpa [Session.Concluded, ReceiveAction.accepted?] using hconcluded
  | _ => exact hconcluded

end Protocol

end IceTunnel
