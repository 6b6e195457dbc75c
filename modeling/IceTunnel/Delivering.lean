import IceTunnel.Ending
import IceTunnel.Offering
import IceTunnel.Reordering
import IceTunnel.Stream
import IceTunnel.Window

namespace IceTunnel

/-- The window of a side that has nothing left for TCP lets the next packet in. -/
def Config.Admits (config : Config) : Prop :=
  0 ≤ config.receiveWindow

instance (config : Config) : Decidable config.Admits :=
  inferInstanceAs (Decidable (_ ≤ _))

namespace Session

/-- From `s` to `s'` only the receiving half has done something. -/
structure Absorbs (s s' : Session) : Prop where
  config_eq : s'.toConfig = s.toConfig
  ends_eq : s'.toEnds = s.toEnds
  sender_eq : s'.toSender = s.toSender

theorem Absorbs.refl (s : Session) : s.Absorbs s :=
  ⟨rfl, rfl, rfl⟩

theorem Absorbs.trans {s s' s'' : Session} (h : s.Absorbs s') (h' : s'.Absorbs s'') : s.Absorbs s'' :=
  ⟨h'.config_eq.trans h.config_eq, h'.ends_eq.trans h.ends_eq, h'.sender_eq.trans h.sender_eq⟩

end Session

namespace Connection

variable {c : Connection}

section Receiving

/-- The loop of `tcpWrite` hands bytes over, or gets to the end of what was received or to the
end of the stream. -/
theorem tcpWriteLoop_moves {fuel : Nat} (hfuel : c.tcpWriteFuel ≤ fuel)
    (hwellFormed : c.toReceiver.WellFormed) (haccepted : 0 < c.io.tcpAccepted) :
    c.handed.length < (tcpWriteLoop false fuel c).1.handed.length ∧
        (tcpWriteLoop false fuel c).2 = false ∨
      (tcpWriteLoop false fuel c).1.handed = c.handed ∧ ((tcpWriteLoop false fuel c).2 = true ∨
        c.udpReceivedMasterIndex ≤ (tcpWriteLoop false fuel c).1.tcpNextSendIndex) := by
  induction fuel generalizing c with
  | zero =>
      simp only [tcpWriteFuel] at hfuel
      exact .inr ⟨rfl, .inr (by simp only [tcpWriteLoop]; omega)⟩
  | succ fuel ih =>
      simp only [tcpWriteLoop, Bool.false_or, Bool.not_false, Bool.true_and]
      split
      · rename_i hlt
        split
        · rename_i hnone
          have hmem := hwellFormed.filled _ (le_refl _) hlt
          rw [Std.ExtTreeMap.mem_iff_isSome_getElem?, hnone] at hmem
          cases hmem
        · rename_i packet hpacket
          split
          · split
            · exact .inr ⟨c.toReceiver.skip_handed packet false, .inl rfl⟩
            · have hrest := ih (c := { c with toReceiver := c.toReceiver.skip packet false })
                (by simp only [tcpWriteFuel, Receiver.skip_udpReceivedMasterIndex,
                      Receiver.skip_tcpNextSendIndex] at hfuel ⊢; omega)
                (hwellFormed.skip false hpacket hlt) haccepted
              simpa only [Receiver.skip_handed, Receiver.skip_udpReceivedMasterIndex] using hrest
          · rename_i hdata
            simp only [Bool.or_eq_true, decide_eq_true_eq, not_or, not_not, not_le] at hdata
            have hlength : 0 < packet.getData.length := by
              have hsize := hdata.2
              simp only [Packet.getSize] at hsize
              split at hsize
              · simp only [Packet.getData, List.length_drop]
                omega
              · omega
            have hpos : min c.io.tcpAccepted packet.getData.length > 0 := by omega
            refine .inl ⟨?_, rfl⟩
            simp only [tcpWriteData, if_pos hpos]
            split
            all_goals
              simp only [setTimeRelativeNow_toEndpoint, Receiver.write_handed, List.length_append,
                List.length_take]
              omega
      · rename_i hge
        exact .inr ⟨rfl, .inr (not_lt.mp hge)⟩

theorem tcpWrite_absorbs (hwellFormed : c.toReceiver.WellFormed) (htcp : c.tcpConnected = true)
    (haccepted : 0 < c.io.tcpAccepted) (hopen : (tcpWriteLoop false c.tcpWriteFuel c).2 = false) :
    c.Absorbs c.tcpWrite.toSession ∧ c.tcpWrite.udpReceivedMasterIndex = c.udpReceivedMasterIndex ∧
      (c.handed.length < c.tcpWrite.handed.length ∨ c.tcpWrite.handed = c.handed ∧
        c.udpReceivedMasterIndex ≤ c.tcpWrite.tcpNextSendIndex) := by
  have hwrite : c.tcpWrite = (tcpWriteLoop false c.tcpWriteFuel c).1 := by
    simp only [tcpWrite, htcp, Bool.not_true, Bool.false_eq_true, if_false, hopen]
  obtain ⟨r, hr, hmaster, -⟩ := c.tcpWriteLoop_toEndpoint false c.tcpWriteFuel
  have hmoves := tcpWriteLoop_moves (le_refl c.tcpWriteFuel) hwellFormed haccepted
  rw [hopen, ← hwrite] at hmoves
  rw [← hwrite] at hr
  refine ⟨⟨by rw [hr], by rw [hr], by rw [hr]⟩, by rw [hr]; exact hmaster, ?_⟩
  rcases hmoves with ⟨hlonger, -⟩ | ⟨hsame, hclosed | hend⟩
  · exact .inl hlonger
  · cases hclosed
  · exact .inr ⟨hsame, hend⟩

theorem master_lt_accept {r : Receiver} (h : r.WellFormed) {p : Packet} (hwire : p.wire = p)
    (hindex : p.getIndex = r.udpReceivedMasterIndex)
    (hfinal : r.udpReceivedMasterIndex < r.udpReceivedFinalIndex)
    (hnew : p.getIndex ∉ r.udpReceivedPackets) :
    r.udpReceivedMasterIndex < (r.accept p).udpReceivedMasterIndex := by
  have hgap := (h.accept hwire (by omega) (by omega) hnew).gap
  obtain ⟨masterIndex, finalIndex, heq, hle, hsame⟩ := r.accept_eq p
  rw [heq] at hgap ⊢
  simp only at hgap ⊢
  refine lt_of_le_of_ne hle fun hstays => ?_
  have hend := hsame hstays.symm
  have hmaster := hgap (by rw [← hstays, Std.ExtTreeMap.mem_insert, hindex]; exact .inl (compare_eq_iff_eq.mpr rfl))
  omega

theorem udpRead_absorbs (hwellFormed : c.toReceiver.WellFormed) (htcp : c.tcpConnected = true)
    (hudp : c.udpConnected = true) {p : Packet} (hwire : p.wire = p)
    (haccepts : c.acceptsPacket p = true) (hindex : p.getIndex = c.udpReceivedMasterIndex) :
    c.Absorbs (c.udpRead p).toSession ∧ (c.udpRead p).handed = c.handed ∧
      c.udpReceivedMasterIndex < (c.udpRead p).udpReceivedMasterIndex := by
  obtain ⟨hmaster, hfinal, -, hnumbered⟩ := Session.acceptsPacket_eq_true haccepts
  have hnew : p.getIndex ∉ c.udpReceivedPackets := by
    intro hmem
    rw [hindex] at hmem
    have hend := hwellFormed.gap hmem
    omega
  have htype : p.getType ≠ .confirmation := by
    intro htype
    rw [htype] at hnumbered
    cases hnumbered
  have hmoved := master_lt_accept hwellFormed hwire hindex (by omega) hnew
  obtain ⟨r, hr, -, haccepted⟩ := udpReadPacket_of_new hwellFormed hwire hmaster hfinal hnew
  rw [if_pos htcp] at haccepted
  subst haccepted
  have hnext : (c.toReceiver.accept p).tcpNextSendIndex = c.tcpNextSendIndex := by
    obtain ⟨masterIndex, finalIndex, heq, -⟩ := c.toReceiver.accept_eq p
    rw [heq]
  have hread : c.udpRead p = (c.udpReadPacket p).closeIfUdpFinished := by
    simp only [udpRead, hudp, htype, haccepts, Bool.not_true, Bool.false_eq_true, if_false, if_true]
  have hopen : (c.udpReadPacket p).closeIfUdpFinished = c.udpReadPacket p := by
    rcases (c.udpReadPacket p).closeIfUdpFinished_eq with ⟨-, heq⟩ | ⟨hfinished, -⟩
    · exact heq
    · have hle := ((c.udpReadPacket p).isUdpFinished_finishable hfinished
        (by rw [hr]; exact hudp)).2.2.2
      have hnextC := hwellFormed.next_le
      rw [hr] at hle
      simp only [hnext] at hle
      omega
  rw [hread, hopen, hr]
  exact ⟨⟨rfl, rfl, rfl⟩, c.toReceiver.accept_handed p, hmoved⟩

end Receiving

end Connection

namespace Tunnel

/-- The runs of two connections whose first interval is not negative. -/
abbrev ReachableBegun (config : Side → Config) : Tunnel → Prop :=
  Runs.Reachable (fun t => ∀ side, Connection.Begun (config side) (t side)) step Runs.anyMove

variable {config : Side → Config} {t : Tunnel} {side : Side}

theorem ReachableBegun.reachable (h : ReachableBegun config t) : Reachable config t :=
  h.weaken fun _ hbegin side => (hbegin side).1

theorem ReachableBegun.begun (h : ReachableBegun config t) (side : Side) :
    Runs.Reachable (Connection.Begun (config side)) Connection.step Runs.anyMove (t side) :=
  reachable_side_of (h.mono fun _ _ _ _ _ => trivial) side

theorem ReachableBegun.not_deleted (h : ReachableBegun config t) (hudp : (t side).udpConnected = true) :
    (t side).deleted = false := by
  have hlast := Connection.closesLast ((h.begun side).weaken fun _ hbegin => hbegin.1)
  cases hdeleted : (t side).deleted with
  | false => rfl
  | true =>
      have hshut := (hlast.shut (.inr hdeleted)).2
      rw [hudp] at hshut
      cases hshut

section Moves

theorem leads_raise (hdeleted : (t side).deleted = false) {event : EventName}
    (henabled : (t side).isEnabled event = true) (io : Io) {d : Connection}
    (hd : ({ t side with io := io } : Connection).raise event = d) (hlt : d.udpNextSendIndex < intMax) :
    Runs.Leads step t (Function.update t side d) := by
  obtain ⟨timeUs, hstep⟩ := Connection.exists_raise hdeleted henabled io
  refine Runs.Leads.of_step (m := .raise side event timeUs io) ?_
  rw [step, hstep, hd, Option.bind_some, update, if_pos hlt]

theorem leads_deliver (hdeleted : (t side).deleted = false) {p : Packet}
    (hp : p ∈ (t side.other).transmitted) (io : Io) {d : Connection}
    (hd : ({ t side with io := io } : Connection).udpRead p = d) (hlt : d.udpNextSendIndex < intMax) :
    Runs.Leads step t (Function.update t side d) := by
  obtain ⟨n, hn⟩ := List.mem_iff_getElem?.mp hp
  refine Runs.Leads.of_step (m := .deliver side n io) ?_
  rw [step, hn, Option.bind_some, Connection.step, if_neg (by simp [hdeleted]),
    Sender.wire_of_mem_transmitted hp, hd, Option.bind_some, update, if_pos hlt]

end Moves

section Sending

theorem ReachableBegun.isEnabled (htimely : ∀ side, (config side).Timely)
    (h : ReachableBegun config t) {name : EventName} (hneeds : (t side).Needs name) :
    (t side).isEnabled name = true :=
  have times := htimely side
  Connection.awake_of_begun times.udpResendUs times.buildConfirmationsUs
    (fun _ => times.buildUdpPacketsUs) (h.begun side) hneeds

theorem exists_packed (htimely : ∀ side, (config side).Timely) (h : ReachableBegun config t)
    (hudp : (t side).udpConnected = true)
    (hroom : (t side).udpNextSendIndex + (t side).tcpReceivedData.length < intMax) :
    ∃ u, Runs.Leads step t u ∧ u side.other = t side.other ∧ (t side).Relays (u side).toSession ∧
      (u side).tcpReceivedData = [] := by
  by_cases hdata : (t side).tcpReceivedData = []
  · exact ⟨t, .refl, rfl, .refl _, hdata⟩
  · have henabled : (t side).isEnabled .buildUdpPackets = true :=
      ReachableBegun.isEnabled htimely h ⟨hudp, hdata⟩
    have hdeleted := h.not_deleted hudp
    let c₀ := ({ t side with io := Io.steady 0 } : Connection).disable .buildUdpPackets
    obtain ⟨timeUs, hstep⟩ := Connection.exists_raise hdeleted henabled (Io.steady 0)
    have hsound : (c₀.buildUdpPackets true).toEndpoint.Sound :=
      Connection.sound_step (h.reachable.honest.sound side) hstep
    obtain ⟨hrelays, hnone, hnext⟩ := Connection.buildUdpPackets_relays (c := c₀) hsound hudp
    refine ⟨_, leads_raise hdeleted henabled (Io.steady 0) rfl (lt_of_le_of_lt hnext hroom), ?_, ?_, ?_⟩
    · rw [Function.update_of_ne side.other_ne]
    · rw [Function.update_self]
      exact hrelays
    · rw [Function.update_self]
      exact hnone

/-- Where a packet is unsent, `udpWrite` can take a step towards it. -/
theorem exists_less_backlog (htimely : ∀ side, (config side).Timely) (h : ReachableBegun config t)
    (hudp : (t side).udpConnected = true) (hunsent : (unsent (t side).udpSentPackets).Nonempty) :
    ∃ u, Runs.Leads step t u ∧ u side.other = t side.other ∧ (t side).Relays (u side).toSession ∧
      (u side).tcpReceivedData = (t side).tcpReceivedData ∧ (u side).backlog < (t side).backlog := by
  obtain ⟨index, hindex⟩ := hunsent
  obtain ⟨p, hp, hnot⟩ := (mem_unsent _).mp hindex
  have henabled : (t side).isEnabled .udpWrite = true :=
    ReachableBegun.isEnabled htimely h ⟨hudp, .inl ⟨index, p, hp, hnot⟩⟩
  let c₀ := ({ t side with io := Io.steady 0 } : Connection).disable .udpWrite
  let plannedTimeUs := ((t side).events .udpWrite).timeUs
  have hwritten : 0 < c₀.io.udpWritten := Nat.succ_pos 999
  obtain ⟨hrelays, hsame, hless⟩ := Connection.udpWrite_relays (c := c₀)
    (h.reachable.honest.sound side) hudp hwritten ⟨index, hindex⟩ plannedTimeUs
  have hnext : (c₀.udpWrite plannedTimeUs).udpNextSendIndex < intMax := by
    rw [Connection.udpWrite_udpNextSendIndex]
    exact h.reachable.honest.next_lt side
  refine ⟨_, leads_raise (h.not_deleted hudp) henabled (Io.steady 0)
    (d := c₀.udpWrite plannedTimeUs) rfl hnext, Function.update_of_ne side.other_ne _ _, ?_⟩
  rw [Function.update_self]
  exact ⟨hrelays, hsame, hless⟩

theorem exists_offered (htimely : ∀ side, (config side).Timely) (h : ReachableBegun config t)
    (hudp : (t side).udpConnected = true)
    (hroom : (t side).udpNextSendIndex + (t side).tcpReceivedData.length < intMax) :
    ∃ u, Runs.Leads step t u ∧ u side.other = t side.other ∧ (t side).Relays (u side).toSession ∧
      (u side).tcpReceivedData = [] ∧ ∀ (index : Int) (p : Packet),
        (u side).udpSentPackets[index]? = some p → p.wire ∈ (u side).transmitted := by
  let I : Tunnel → Prop := fun u => ReachableBegun config u ∧ u side.other = t side.other ∧
    (t side).Relays (u side).toSession ∧ (u side).tcpReceivedData = []
  have hcloser : ∀ u, I u → ¬¬(unsent (u side).udpSentPackets).Nonempty →
      ∃ v, Runs.Leads step u v ∧ I v ∧ (v side).backlog < (u side).backlog := by
    rintro u ⟨hu, hother, hrelays, hdata⟩ hunsent
    obtain ⟨v, hleads, hotherV, hrelaysV, hsame, hless⟩ := exists_less_backlog htimely hu
      ((congrArg Ends.udpConnected hrelays.ends_eq).trans hudp) (not_not.mp hunsent)
    exact ⟨v, hleads, ⟨hu.leads hleads, hotherV.trans hother, hrelays.trans hrelaysV,
      hsame.trans hdata⟩, hless⟩
  obtain ⟨v, hpacked, hother, hrelays, hdata⟩ := exists_packed htimely h hudp hroom
  obtain ⟨u, hleads, ⟨hu, hotherU, hrelaysU, hdataU⟩, hsent⟩ := Runs.Leads.of_closer
    (fun u : Tunnel => (u side).backlog) hcloser ⟨h.leads hpacked, hother, hrelays, hdata⟩
  refine ⟨u, hpacked.trans hleads, hotherU, hrelaysU, hdataU, fun index p hp => ?_⟩
  have hoffered := Connection.offered ((hu.begun side).weaken fun _ hbegin => hbegin.1)
  refine (hoffered index p hp).2 ?_
  by_contra hnot
  exact hsent ⟨index, (mem_unsent _).mpr ⟨p, hp, by simpa using hnot⟩⟩

end Sending

section Receiving

theorem master_lt_next_of_missing (h : Reachable config t) (hudp : (t side.other).udpConnected = true)
    (htcp : (t side).tcpConnected = true) (hdata : (t side.other).tcpReceivedData = [])
    (hmissing : (t side).handed ≠ (t side.other).taken)
    (hdone : (t side).udpReceivedMasterIndex ≤ (t side).tcpNextSendIndex) :
    (t side).udpReceivedMasterIndex < (t side.other).udpNextSendIndex := by
  have hstreaming := h.streaming
  have honest := hstreaming.honest
  have hback := honest.linked side.other
  rw [Side.other_other] at hback
  have hopen : (t side.other).udpReceivedFinalIndex ≠ (t side.other).udpReceivedMasterIndex :=
    final_ne_master (honest.sound side.other) (honest.sound side) (honest.next_lt side) hback htcp
  have htaken : (t side.other).taken = payloads (t side.other).created ++ (t side.other).tcpReceivedData :=
    (hstreaming.conserving side.other).open_stream hudp hopen
  have hnext : (t side.other).udpNextSendIndex = (t side.other).created.length :=
    (honest.sound side.other).sending.wellFormed.next_eq
  obtain ⟨done, hhanded, hnone, hsome⟩ := (hstreaming.handing side).handed_open htcp
  change (t side).handed = payloads ((t side.other).created.take (t side).tcpNextSendIndex.toNat) ++
    done at hhanded
  change (t side).udpReceivedPackets[(t side).tcpNextSendIndex]? = none → done = [] at hnone
  by_contra hge
  have hlength : (t side.other).created.length ≤ (t side).tcpNextSendIndex.toNat := by omega
  have hnothing : done = [] := by
    apply hnone
    rw [Option.eq_none_iff_forall_ne_some]
    intro p hp
    obtain ⟨q, hq, -⟩ := hsome p hp
    exact absurd (List.getElem?_eq_some_iff.mp hq).1 (not_lt.mpr hlength)
  apply hmissing
  rw [hhanded, htaken, hdata, hnothing, List.take_of_length_le hlength]

theorem final_of_done (h : Reachable config t) (htcp : (t side).tcpConnected = true)
    (hdone : (t side).udpReceivedMasterIndex ≤ (t side).tcpNextSendIndex) :
    (t side).udpReceivedFinalIndex = intMax := by
  have hsound := h.honest.sound side
  by_contra hne
  have hclosed : (t side).tcpConnected = false :=
    hsound.concluded.tcpConnected hsound.receiving hne hdone
  rw [htcp] at hclosed
  cases hclosed

/-- The next packet has been sent, and is let in when it comes again. -/
theorem exists_deliverable (h : Reachable config t) (hadmits : (config side).Admits)
    (hudp : (t side.other).udpConnected = true) (htcp : (t side).tcpConnected = true)
    (hoffered : ∀ (index : Int) (p : Packet), (t side.other).udpSentPackets[index]? = some p →
      p.wire ∈ (t side.other).transmitted)
    (hmore : (t side).udpReceivedMasterIndex < (t side.other).udpNextSendIndex)
    (hdone : (t side).udpReceivedMasterIndex ≤ (t side).tcpNextSendIndex) :
    ∃ p ∈ (t side.other).transmitted, p.getIndex = (t side).udpReceivedMasterIndex ∧
      (t side).acceptsPacket p = true := by
  have honest := h.honest
  have hsound := honest.sound side
  have hsender := honest.sound side.other
  have hlinked := honest.linked side
  have hlt : (t side.other).udpNextSendIndex < intMax := honest.next_lt side.other
  have hfinal := final_of_done h htcp hdone
  have hnextle : (t side).tcpNextSendIndex ≤ (t side).udpReceivedMasterIndex :=
    hsound.receiving.next_le
  obtain ⟨i, hi⟩ := Int.eq_ofNat_of_zero_le hsound.receiving.next_nonneg
  have hi : (t side).tcpNextSendIndex = i := hi
  have hmaster : (t side).udpReceivedMasterIndex = i := by omega
  have hlength : i < (t side.other).created.length := by
    have hnext : (t side.other).udpNextSendIndex = (t side.other).created.length :=
      hsender.sending.wellFormed.next_eq
    omega
  obtain ⟨type, payload, hnumbered, hhello, -, hp⟩ :=
    hsender.sending.wellFormed.created_eq i _ (List.getElem?_eq_getElem hlength)
  have hcreated : (t side.other).created[i]? = some (.datagram type i payload) := by
    rw [List.getElem?_eq_getElem hlength]
    exact congrArg some hp
  have hindex : (Packet.datagram type i payload).getIndex = i :=
    hsender.sending.wellFormed.getIndex_created hlt hcreated
  have htype : (Packet.datagram type i payload).getType = type :=
    Packet.datagram_getType _ _ (PacketType.ofByte_toByte_of_isNumbered hnumbered)
  refine ⟨.datagram type i payload, ?_, by rw [hindex, hmaster], ?_⟩
  · by_cases hmem : (i : Int) ∈ (t side.other).udpSentPackets
    · obtain ⟨p, hp⟩ := Option.isSome_iff_exists.mp (Std.ExtTreeMap.mem_iff_isSome_getElem?.mp hmem)
      obtain ⟨j, hj, hwire⟩ := hsender.sending.wellFormed.sent_created i p hp
      obtain rfl : i = j := by omega
      rw [Option.some.inj (hcreated.symm.trans hwire)]
      exact hoffered i p hp
    · exfalso
      obtain ⟨q, hq, hqindex⟩ := hlinked.forgotten_accepted hudp i (Int.natCast_nonneg i)
        (by rw [← hmaster]; exact hmore) hmem
      obtain ⟨-, -, hkept⟩ := hsound.receiving.accepted_kept q hq
      rw [hqindex] at hkept
      change (i : Int) < (t side).tcpNextSendIndex ∨ (i : Int) ∈ (t side).udpReceivedPackets at hkept
      rw [← hmaster] at hkept
      rcases hkept with hpassed | hwaiting
      · omega
      · have hend : (t side).udpReceivedMasterIndex = (t side).udpReceivedFinalIndex :=
          hsound.receiving.gap hwaiting
        omega
  · have hconfig := h.toConfig side
    simp only [Session.acceptsPacket, hindex, htype, hmaster, hfinal, hi, hconfig, ge_iff_le, le_refl,
      decide_true, Bool.true_and, sub_self, Bool.and_eq_true, Bool.or_eq_true, decide_eq_true_eq]
    refine ⟨⟨by omega, hadmits⟩, ?_⟩
    cases type with
    | hello => exact .inl (.inl (.inl ⟨rfl, by rw [hhello rfl]; rfl⟩))
    | bye => exact .inl (.inl (.inr rfl))
    | disconnect => exact .inl (.inr rfl)
    | data => exact .inr rfl
    | _ => cases hnumbered

theorem tcpWriteLoop_of_missing (h : Reachable config t) {c : Connection}
    (hend : c.toEndpoint = (t side).toEndpoint) (htcp : (t side).tcpConnected = true)
    (hmissing : (t side).handed ≠ (t side.other).taken) (haccepted : 0 < c.io.tcpAccepted) :
    (Connection.tcpWriteLoop false c.tcpWriteFuel c).2 = false := by
  have hstreaming := h.streaming
  have hwellFormed : c.toReceiver.WellFormed := by
    rw [hend]
    exact (hstreaming.honest.sound side).receiving
  rw [← Bool.not_eq_true]
  intro hclosing
  obtain ⟨d, packet, hsteps, htcpD, hnext, htype, heq⟩ :=
    (c.tcpWriteLoop_steps (N := t.endpoints.InFlight side) c.tcpWriteFuel
      (by rw [hend]; exact htcp)).2 hclosing
  obtain ⟨r, hr, -⟩ := c.tcpWriteLoop_toEndpoint false c.tcpWriteFuel
  have hhanded : d.handed = c.handed := by
    have hmoves := c.tcpWriteLoop_moves (le_refl _) hwellFormed haccepted
    rw [hclosing, heq] at hmoves
    rcases hmoves with ⟨-, hopen⟩ | ⟨hsame, -⟩
    · cases hopen
    · exact (d.toReceiver.skip_handed packet false).symm.trans hsame
  have hsender : d.toSender = c.toSender := by
    have hboth := congrArg (fun e : Endpoint => e.toSender) (heq ▸ hr)
    exact hboth
  have hlt : d.udpNextSendIndex < intMax := by
    rw [hsender, hend]
    exact hstreaming.honest.next_lt side
  rw [hend] at hsteps
  have hstopped := Runs.chain_invariant (fun _ _ hx hxy => Streaming.step hx hxy)
    (protocolSteps_of_steps (x := t.endpoints) hsteps hlt) hstreaming
  have hother : Function.update t.endpoints side d.toEndpoint side.other = (t side.other).toEndpoint :=
    Function.update_of_ne side.other_ne _ _
  have hself : Function.update t.endpoints side d.toEndpoint side = d.toEndpoint :=
    Function.update_self _ _ _
  have hlinked := hstopped.honest.linked side
  have hback := hstopped.honest.linked side.other
  have hhanding := hstopped.handing side
  have hsound := hstopped.honest.sound side
  rw [hself, hother] at hlinked hhanding
  rw [Side.other_other, hself, hother] at hback
  rw [hself] at hsound
  have hall := (handed_eq_taken (hstreaming.honest.sound side.other)
    (hstreaming.honest.next_lt side.other) (hstreaming.conserving side.other) hsound hlt hlinked hback
    hhanding hnext htype htcpD).2
  apply hmissing
  rw [← hend, ← hhanded]
  exact hall

/-- How far the receiving side is behind: the bytes and the packets it still lacks. -/
def lag (t : Tunnel) (side : Side) : Nat :=
  ((t side.other).taken.length - (t side).handed.length) +
    2 * ((t side.other).udpNextSendIndex - (t side).udpReceivedMasterIndex).toNat +
    if (t side).tcpNextSendIndex < (t side).udpReceivedMasterIndex then 1 else 0

/-- While bytes are missing, TCP takes some, or the next packet arrives. -/
theorem exists_less_lag (h : ReachableBegun config t) (hadmits : (config side).Admits)
    (hudp : ∀ a, (t a).udpConnected = true) (htcp : (t side).tcpConnected = true)
    (hdata : (t side.other).tcpReceivedData = [])
    (hoffered : ∀ (index : Int) (p : Packet), (t side.other).udpSentPackets[index]? = some p →
      p.wire ∈ (t side.other).transmitted)
    (hmissing : (t side).handed ≠ (t side.other).taken) :
    ∃ u, Runs.Leads step t u ∧ u side.other = t side.other ∧ (t side).Absorbs (u side).toSession ∧
      lag u side < lag t side := by
  have honest := h.reachable.honest
  have hsound : (t side).toEndpoint.Sound := honest.sound side
  have hdeleted := h.not_deleted (hudp side)
  have hlt : (t side).udpNextSendIndex < intMax := honest.next_lt side
  by_cases hpending : (t side).tcpNextSendIndex < (t side).udpReceivedMasterIndex
  · have henabled : (t side).isEnabled .tcpWrite = true :=
      Connection.awake_of_timed (.inl rfl) ((h.begun side).weaken fun _ hbegin => hbegin.1)
        ⟨htcp, hpending⟩
    let c₀ := ({ t side with io := Io.steady 0 } : Connection).disable .tcpWrite
    have haccepted : 0 < c₀.io.tcpAccepted := Nat.succ_pos 999
    obtain ⟨habsorbs, hmaster, hmoves⟩ := Connection.tcpWrite_absorbs (c := c₀) hsound.receiving htcp
      haccepted (tcpWriteLoop_of_missing h.reachable rfl htcp hmissing haccepted)
    have hleads := leads_raise hdeleted henabled (Io.steady 0) (d := c₀.tcpWrite) rfl
      (by rw [habsorbs.sender_eq]; exact hlt)
    have hstreaming := (ReachableBegun.reachable (h.leads hleads)).streaming
    have hprefix := (hstreaming.handed_prefix side).length_le
    rw [endpoints, endpoints, Function.update_self, Function.update_of_ne side.other_ne] at hprefix
    refine ⟨_, hleads, Function.update_of_ne side.other_ne _ _, ?_⟩
    simp only [lag, Function.update_self, Function.update_of_ne side.other_ne, if_pos hpending]
    refine ⟨habsorbs, ?_⟩
    rw [show c₀.tcpWrite.udpReceivedMasterIndex = (t side).udpReceivedMasterIndex from hmaster]
    rcases hmoves with hlonger | ⟨hsame, hend⟩
    · change (t side).handed.length < _ at hlonger
      split <;> omega
    · change (t side).udpReceivedMasterIndex ≤ _ at hend
      rw [show c₀.tcpWrite.handed = (t side).handed from hsame, if_neg (not_lt.mpr hend)]
      omega
  · have hdone := not_lt.mp hpending
    have hmore := master_lt_next_of_missing h.reachable (hudp side.other) htcp hdata hmissing hdone
    obtain ⟨p, hp, hindex, haccepts⟩ :=
      exists_deliverable h.reachable hadmits (hudp side.other) htcp hoffered hmore hdone
    let c₀ : Connection := { t side with io := Io.steady 0 }
    obtain ⟨habsorbs, hhanded, hmaster⟩ := Connection.udpRead_absorbs (c := c₀) hsound.receiving htcp
      (hudp side) (Sender.wire_of_mem_transmitted hp) haccepts hindex
    have hleads := leads_deliver hdeleted hp (Io.steady 0) (d := c₀.udpRead p) rfl
      (by rw [habsorbs.sender_eq]; exact hlt)
    refine ⟨_, hleads, Function.update_of_ne side.other_ne _ _, ?_⟩
    simp only [lag, Function.update_self, Function.update_of_ne side.other_ne, if_neg hpending, hhanded]
    refine ⟨habsorbs, ?_⟩
    change (t side).udpReceivedMasterIndex < _ at hmaster
    change (t side.other).taken.length - (t side).handed.length + _ + _ < _
    split <;> omega

end Receiving

/-- One of the two streams can be completed, while the other one stays as it is. -/
theorem exists_delivered (side : Side) (htimely : ∀ side, (config side).Timely)
    (h : ReachableBegun config t) (hadmits : (config side).Admits) (hudp : ∀ a, (t a).udpConnected = true)
    (hroom : (t side.other).udpNextSendIndex + (t side.other).tcpReceivedData.length < intMax) :
    ∃ u, Runs.Leads step t u ∧ (t side.other).Relays (u side.other).toSession ∧
      (t side).Absorbs (u side).toSession ∧
      ((t side).tcpConnected = true → (u side).handed = (t side.other).taken) := by
  by_cases htcp : (t side).tcpConnected = true
  · obtain ⟨v, hoffers, hside, hrelays, hdata, hoffered⟩ :=
      exists_offered htimely h (hudp side.other) hroom
    rw [Side.other_other] at hside
    let I : Tunnel → Prop := fun u => ReachableBegun config u ∧ u side.other = v side.other ∧
      (v side).Absorbs (u side).toSession
    have hcloser : ∀ u, I u → ¬(u side).handed = (u side.other).taken →
        ∃ w, Runs.Leads step u w ∧ I w ∧ lag w side < lag u side := by
      rintro u ⟨hu, hother, habsorbs⟩ hmissing
      have hudpU : ∀ a, (u a).udpConnected = true := by
        intro a
        rcases Side.eq_or_eq_other side a with rfl | rfl
        · exact (congrArg Ends.udpConnected habsorbs.ends_eq).trans (hside ▸ hudp a)
        · rw [hother]
          exact (congrArg Ends.udpConnected hrelays.ends_eq).trans (hudp side.other)
      have htcpU : (u side).tcpConnected = true :=
        (congrArg Ends.tcpConnected habsorbs.ends_eq).trans (hside ▸ htcp)
      obtain ⟨w, hleads, hotherW, habsorbsW, hless⟩ := exists_less_lag hu hadmits hudpU htcpU
        (by rw [hother]; exact hdata) (by rw [hother]; exact hoffered) hmissing
      exact ⟨w, hleads, ⟨hu.leads hleads, hotherW.trans hother, habsorbs.trans habsorbsW⟩, hless⟩
    obtain ⟨u, hleads, ⟨hu, hother, habsorbs⟩, hall⟩ := Runs.Leads.of_closer (fun u => lag u side) hcloser
      ⟨h.leads hoffers, rfl, .refl _⟩
    rw [hside] at habsorbs
    refine ⟨u, hoffers.trans hleads, by rw [hother]; exact hrelays, habsorbs, fun _ => ?_⟩
    rw [hall, hother, hrelays.taken_eq]
  · exact ⟨t, .refl, .refl _, .refl _, fun hopen => absurd hopen htcp⟩

/-- Three bytes are read, and the Hello packet is on its way. -/
def startedRun : List Move :=
  [.raise .client .tcpRead 0 { Io.steady 0 with tcpBytes := [1, 2, 3] },
    .raise .client .udpWrite 1 (Io.steady 1)]

theorem startedRun_isSome : (play Config.small startedRun).isSome = true := by
  decide +kernel

end Tunnel

end IceTunnel
