import IceTunnel.Peers

namespace IceTunnel

/-- The bytes that packets carry. -/
def payloads (packets : List Packet) : List UInt8 :=
  packets.flatMap Packet.getData

@[simp] theorem payloads_append (packets packets' : List Packet) :
    payloads (packets ++ packets') = payloads packets ++ payloads packets' :=
  List.flatMap_append

@[simp] theorem payloads_datagram (type : PacketType) (index : Int) (payload : List UInt8) :
    payloads [.datagram type index payload] = payload := by
  simp [payloads]

theorem payloads_take_succ {packets : List Packet} {i : Nat} {p : Packet}
    (h : packets[i]? = some p) :
    payloads (packets.take (i + 1)) = payloads (packets.take i) ++ p.getData := by
  rw [List.take_add_one, h, payloads_append]
  simp [payloads]

theorem payloads_mono {packets packets' : List Packet} (h : packets <+: packets') :
    payloads packets <+: payloads packets' := by
  obtain ⟨rest, rfl⟩ := h
  simp

/-- The bytes taken from TCP are in packets or still in `tcpReceivedData`, unless
the peer's stream has ended: then the peer wants no more. -/
structure Session.Conserving (s : Session) : Prop where
  payloads_taken : payloads s.created <+: s.taken
  open_stream : s.udpConnected = true → s.udpReceivedFinalIndex ≠ s.udpReceivedMasterIndex →
    s.taken = payloads s.created ++ s.tcpReceivedData
  closed_stream : (∃ p ∈ s.created, p.getType.isClosing = true) →
    s.udpReceivedFinalIndex = s.udpReceivedMasterIndex ∨ s.taken = payloads s.created

namespace Protocol

variable {N : Packet → Prop} {e e' : Endpoint}

theorem conserving_push_closing {type : PacketType} (hsending : e.Sending) (h : e.Conserving)
    (hudp : e.udpConnected = true) (hflushed : e.Flushed) {r : Receiver}
    (hmaster : r.udpReceivedMasterIndex = e.udpReceivedMasterIndex)
    (hfinal : r.udpReceivedFinalIndex = e.udpReceivedFinalIndex) :
    Session.Conserving { e.toSession with
      tcpConnected := false
      toSender := e.toSender.push e.udpResendCount type []
      toReceiver := r } := by
  have hdata := received_eq_nil_of_flushed hsending hflushed
  have hopen := h.open_stream hudp
  constructor
  · simpa using h.payloads_taken
  · simpa [hmaster, hfinal] using fun _ => hopen
  · intro _
    simp only [hmaster, hfinal, Sender.push_taken, Sender.push_created, payloads_append,
      payloads_datagram, List.append_nil]
    by_cases hend : e.udpReceivedFinalIndex = e.udpReceivedMasterIndex
    · exact .inl hend
    · rw [hdata, List.append_nil] at hopen
      exact .inr (hopen hend)

theorem conserving_step (hsending : e.Sending) (h : e.Conserving) (hstep : Step N e e') :
    e'.Conserving := by
  have hclosed := tcpConnected_of_closing hsending
  -- A step that neither reads nor creates, and leaves an open stream open only.
  have hstay : ∀ {s : Session}, s.created = e.created → s.taken = e.taken →
      s.tcpReceivedData = e.tcpReceivedData → s.udpConnected = e.udpConnected →
      s.udpReceivedFinalIndex = e.udpReceivedFinalIndex →
      s.udpReceivedMasterIndex = e.udpReceivedMasterIndex → s.Conserving := by
    intro s hcreated htaken hdata hudp hfinal hmaster
    constructor
    · rw [hcreated, htaken]
      exact h.payloads_taken
    · rw [hcreated, htaken, hdata, hudp, hfinal, hmaster]
      exact h.open_stream
    · rw [hcreated, htaken, hfinal, hmaster]
      exact h.closed_stream
  cases hstep with
  | read bytes htcp hudp hsize =>
      have hcreated : (e.toSender.record (.read bytes)).created = e.created := by
        simp [SendAction.created?]
      have htaken : (e.toSender.record (.read bytes)).taken = e.taken ++ bytes := by
        simp [SendAction.taken]
      constructor
      · change payloads (e.toSender.record (.read bytes)).created <+:
          (e.toSender.record (.read bytes)).taken
        rw [hcreated, htaken]
        exact h.payloads_taken.trans (List.prefix_append _ _)
      · intro hopen hfinal
        change (e.toSender.record (.read bytes)).taken =
          payloads (e.toSender.record (.read bytes)).created ++ (e.tcpReceivedData ++ bytes)
        rw [hcreated, htaken, h.open_stream hopen hfinal, List.append_assoc]
      · intro hclosing
        change ∃ p ∈ (e.toSender.record (.read bytes)).created, p.getType.isClosing = true at hclosing
        rw [hcreated] at hclosing
        rw [hclosed hclosing] at htcp
        cases htcp
  | readUnused bytes htcp hudp =>
      have hcreated : (e.toSender.record (.read bytes)).created = e.created := by
        simp [SendAction.created?]
      constructor
      · simpa [SendAction.created?, SendAction.taken] using
          h.payloads_taken.trans (List.prefix_append _ _)
      · intro hopen
        simp only [hudp] at hopen
        cases hopen
      · intro hclosing
        simp only [hcreated] at hclosing
        rw [hclosed hclosing] at htcp
        cases htcp
  | discard hudp hfinal =>
      exact ⟨h.payloads_taken, fun _ hopen => absurd hfinal hopen, h.closed_stream⟩
  | create payload rest hudp hfinal hdata hpayload =>
      have hopen := h.open_stream hudp hfinal
      have hcreated := e.toSender.push_created e.udpResendCount .data payload
      have htaken : (e.toSender.push e.udpResendCount .data payload).taken =
          payloads (e.toSender.push e.udpResendCount .data payload).created ++ rest := by
        simp [hopen, hdata]
      refine ⟨⟨rest, htaken.symm⟩, fun _ _ => htaken, fun hclosing => ?_⟩
      obtain ⟨p, hp, htype⟩ := hclosing
      change p ∈ (e.toSender.push e.udpResendCount .data payload).created at hp
      rw [hcreated, List.mem_append, List.mem_singleton] at hp
      rcases hp with hp | rfl
      · have htcp := (hsending.received_open (by simp [hdata, hpayload])).1
        rw [hclosed ⟨p, hp, htype⟩] at htcp
        cases htcp
      · rw [Packet.datagram_getType _ _ rfl] at htype
        cases htype
  | close type htcp hudp hflushed hclosing =>
      exact conserving_push_closing hsending h hudp hflushed rfl rfl
  | skipClosing packet hnext hclosing htcp hudp hflushed =>
      exact conserving_push_closing hsending h hudp hflushed (by simp) (by simp)
  | skip packet fake => exact hstay rfl rfl rfl rfl (by simp) (by simp)
  | skipClosingUnused packet => exact hstay rfl rfl rfl rfl (by simp) (by simp)
  | write packet size => exact hstay rfl rfl rfl rfl (by simp) (by simp)
  | offerConfirmation packet =>
      exact hstay (by simp [SendAction.created?]) (by simp [SendAction.taken]) rfl rfl rfl rfl
  | offer index packet =>
      exact hstay (by simp [SendAction.created?]) (by simp [SendAction.taken]) rfl rfl rfl rfl
  | byeBye =>
      exact hstay (by simp [SendAction.created?]) (by simp [SendAction.taken]) rfl rfl rfl rfl
  | accept packet hnet hwire hudp haccepts hnew =>
      obtain ⟨hmaster, hfinal, -⟩ := Session.acceptsPacket_eq_true haccepts
      have hopen := h.open_stream hudp (by omega)
      refine ⟨h.payloads_taken, fun _ _ => hopen, fun hclosing => ?_⟩
      rcases h.closed_stream hclosing with hend | htaken
      · omega
      · exact .inr htaken
  | prune index => exact hstay rfl rfl rfl rfl (by simp) (by simp)
  | closeUdp => exact ⟨h.payloads_taken, (fun hopen => by cases hopen), h.closed_stream⟩
  | _ => exact hstay rfl rfl rfl rfl rfl rfl

end Protocol

namespace Tunnel

/-- How far a receiver has come: `done` are the bytes of the packet at
`tcpNextSendIndex` that TCP has already. -/
structure Handing (sender receiver : Endpoint) : Prop where
  handed_payloads : receiver.handed <+: payloads sender.created
  handed_open : receiver.tcpConnected = true → ∃ done : List UInt8,
    receiver.handed = payloads (sender.created.take receiver.tcpNextSendIndex.toNat) ++ done ∧
    (receiver.udpReceivedPackets[receiver.tcpNextSendIndex]? = none → done = []) ∧
    ∀ p, receiver.udpReceivedPackets[receiver.tcpNextSendIndex]? = some p →
      ∃ q, sender.created[receiver.tcpNextSendIndex.toNat]? = some q ∧ q.getData = done ++ p.getData
  consumed_closing : ∀ p, .consume p false ∈ receiver.receiveHistory →
    p.getType.isClosing = true → receiver.tcpConnected = false ∧
      (∃ q ∈ sender.created, q.getType.isClosing = true) ∧ receiver.handed = sender.taken

variable {N : Packet → Prop} {sender receiver e e' : Endpoint}

theorem created_of_key (hsender : sender.Sound) (hlt : sender.udpNextSendIndex < intMax)
    (hreceiver : receiver.Sound) (hlinked : Linked sender receiver) {i : Nat} {p : Packet}
    (hp : receiver.udpReceivedPackets[(i : Int)]? = some p) :
    ∃ q, sender.created[i]? = some q ∧ q.getType = p.getType ∧
      (receiver.tcpNextSendIndex < i → q.getData = p.getData) := by
  obtain ⟨q, hq, hindex, -, htype, hdata⟩ := hreceiver.receiving.key_accepted _ p hp
  exact ⟨q, hsender.sending.wellFormed.created_of_mem hlt (hlinked.accepted_created q hq) hindex,
    htype, hdata⟩

theorem payloads_of_closing (hsender : sender.Sound) {i : Nat} {q : Packet}
    (hq : sender.created[i]? = some q) (hclosing : q.getType.isClosing = true) :
    payloads sender.created = payloads (sender.created.take i) ∧ q.getData = [] := by
  have hdata : q.getData = [] := by
    refine hsender.sending.wellFormed.getData_created hq fun htype => ?_
    rw [htype] at hclosing
    cases hclosing
  have hlast := (hsender.sending.closing_last i q hq hclosing).1
  refine ⟨?_, hdata⟩
  have hsucc := payloads_take_succ hq
  rwa [hlast, List.take_length, hdata, List.append_nil] at hsucc

theorem taken_eq_of_tcpClosed (htcp : e.tcpConnected = false) (hstep : Protocol.Step N e e') :
    e'.taken = e.taken := by
  cases hstep with
  | read bytes hopen =>
      rw [htcp] at hopen
      cases hopen
  | readUnused bytes hopen =>
      rw [htcp] at hopen
      cases hopen
  | create payload rest => exact e.toSender.push_taken e.udpResendCount .data payload
  | close type => simp
  | skipClosing packet => simp
  | offerConfirmation packet => simp [SendAction.taken]
  | offer index packet => simp [SendAction.taken]
  | byeBye => simp [SendAction.taken]
  | _ => rfl

theorem handing_sender (hsound : e.Sound) (hlt : e.udpNextSendIndex < intMax)
    (hreceiver : receiver.Sound) (hlinked : Linked e receiver) (h : Handing e receiver)
    (hstep : Protocol.Step N e e') : Handing e' receiver := by
  have hcreated := Protocol.created_prefix hstep
  have hmaster := master_le_next hsound hlt hreceiver hlinked
  have hnext := hreceiver.receiving.next_le
  have hlength := hsound.sending.wellFormed.next_eq
  refine ⟨h.handed_payloads.trans (payloads_mono hcreated), fun htcp => ?_, fun p hp hclosing => ?_⟩
  · obtain ⟨done, hhanded, hnone, hsome⟩ := h.handed_open htcp
    obtain ⟨more, hmore⟩ := hcreated
    refine ⟨done, ?_, hnone, fun p hp => ?_⟩
    · rw [hhanded, ← hmore, List.take_append_of_le_length (by omega)]
    · obtain ⟨q, hq, hdata⟩ := hsome p hp
      refine ⟨q, ?_, hdata⟩
      rw [← hmore, List.getElem?_append_left (List.getElem?_eq_some_iff.mp hq).1]
      exact hq
  · obtain ⟨htcp, ⟨q, hq, hqclosing⟩, hhanded⟩ := h.consumed_closing p hp hclosing
    have hclosed := Protocol.tcpConnected_of_closing hsound.sending ⟨q, hq, hqclosing⟩
    rw [taken_eq_of_tcpClosed hclosed hstep]
    exact ⟨htcp, ⟨q, hcreated.subset hq, hqclosing⟩, hhanded⟩

/-- A packet is done with: the next one is whole. -/
theorem handed_open_next (hsender : sender.Sound) (hlt : sender.udpNextSendIndex < intMax)
    (hreceiver : receiver.Sound) (hlinked : Linked sender receiver) {i : Nat} {q : Packet}
    (hi : receiver.tcpNextSendIndex = i) (hq : sender.created[i]? = some q) {r : Receiver}
    (hnext : r.tcpNextSendIndex = receiver.tcpNextSendIndex + 1)
    (hkeys : ∀ index : Int, index ≠ i → r.udpReceivedPackets[index]? = receiver.udpReceivedPackets[index]?)
    (hhanded : r.handed = payloads (sender.created.take i) ++ q.getData) :
    ∃ done : List UInt8,
      r.handed = payloads (sender.created.take r.tcpNextSendIndex.toNat) ++ done ∧
      (r.udpReceivedPackets[r.tcpNextSendIndex]? = none → done = []) ∧
      ∀ p, r.udpReceivedPackets[r.tcpNextSendIndex]? = some p →
        ∃ q, sender.created[r.tcpNextSendIndex.toNat]? = some q ∧ q.getData = done ++ p.getData := by
  have hsucc : r.tcpNextSendIndex = ((i + 1 : Nat) : Int) := by omega
  rw [hsucc, Int.toNat_natCast]
  refine ⟨[], ?_, fun _ => rfl, fun p hp => ?_⟩
  · rw [hhanded, payloads_take_succ hq, List.append_nil]
  · rw [hkeys _ (by omega)] at hp
    obtain ⟨a, ha, -, hdata⟩ := created_of_key hsender hlt hreceiver hlinked hp
    exact ⟨a, ha, by rw [List.nil_append]; exact hdata (by omega)⟩

theorem prefix_of_handed {packets : List Packet} {i : Nat} {handed done rest : List UInt8} {q : Packet}
    (hhanded : handed = payloads (packets.take i) ++ done) (hq : packets[i]? = some q)
    (hdata : q.getData = done ++ rest) : handed <+: payloads packets := by
  refine List.IsPrefix.trans ⟨rest, ?_⟩ (payloads_mono (List.take_prefix (i + 1) packets))
  rw [payloads_take_succ hq, hdata, hhanded, List.append_assoc]

theorem handing_record (h : Handing sender e) (action : ReceiveAction)
    (hhanded : action.handed = []) (hconsume : ∀ p, .consume p false ≠ action) :
    Handing sender { e with toReceiver := e.toReceiver.record action } := by
  refine ⟨?_, ?_, fun p hp hclosing => ?_⟩
  · simpa only [Receiver.record_handed, hhanded, List.append_nil] using h.handed_payloads
  · simpa only [Receiver.record_handed, hhanded, List.append_nil, Receiver.record_tcpNextSendIndex,
      Receiver.record_udpReceivedPackets] using h.handed_open
  · rw [Receiver.mem_record_receiveHistory] at hp
    rcases hp with hp | hp
    · simpa only [Receiver.record_handed, hhanded, List.append_nil] using
        h.consumed_closing p hp hclosing
    · exact absurd hp (hconsume p)

/-- The peer's stream cannot have ended while its TCP side is open. -/
theorem final_ne_master (hsender : sender.Sound) (hsound : e.Sound)
    (hlt : e.udpNextSendIndex < intMax) (hback : Linked e sender) (htcp : e.tcpConnected = true) :
    sender.udpReceivedFinalIndex ≠ sender.udpReceivedMasterIndex := by
  intro hend
  have hmaster := master_le_next hsound hlt hsender hback
  obtain ⟨-, q, hq, hclosing, -⟩ := hsender.receiving.final_closing (by omega)
  have hclosed := Protocol.tcpConnected_of_closing hsound.sending
    ⟨q, hback.accepted_created q hq, hclosing⟩
  rw [htcp] at hclosed
  cases hclosed

theorem handed_eq_taken (hsender : sender.Sound) (hlt : sender.udpNextSendIndex < intMax)
    (hconserving : sender.Conserving) (hsound : e.Sound) (hlt' : e.udpNextSendIndex < intMax)
    (hlinked : Linked sender e) (hback : Linked e sender) (h : Handing sender e) {packet : Packet}
    (hnext : e.IsNext packet) (hclosing : packet.getType.isClosing = true)
    (htcp : e.tcpConnected = true) :
    (∃ q ∈ sender.created, q.getType.isClosing = true) ∧ e.handed = sender.taken := by
  obtain ⟨i, hi⟩ := Int.eq_ofNat_of_zero_le hsound.receiving.next_nonneg
  obtain ⟨hmaster, hpacket⟩ := hnext
  obtain ⟨done, hhanded, -, hsome⟩ := h.handed_open htcp
  rw [hi] at hpacket hsome
  rw [hi, Int.toNat_natCast] at hhanded
  obtain ⟨q, hq, htype, -⟩ := created_of_key hsender hlt hsound hlinked hpacket
  rw [← htype] at hclosing
  obtain ⟨a, ha, hdata⟩ := hsome packet hpacket
  rw [Int.toNat_natCast] at ha
  obtain rfl := Option.some.inj (hq.symm.trans ha)
  obtain ⟨hall, hempty⟩ := payloads_of_closing hsender hq hclosing
  have hmem : ∃ q ∈ sender.created, q.getType.isClosing = true :=
    ⟨q, List.mem_of_getElem? hq, hclosing⟩
  refine ⟨hmem, ?_⟩
  rw [hempty] at hdata
  rw [hhanded, (List.append_eq_nil_iff.mp hdata.symm).1, List.append_nil, ← hall]
  rcases hconserving.closed_stream hmem with hend | htaken
  · exact absurd hend (final_ne_master hsender hsound hlt' hback htcp)
  · exact htaken.symm

theorem handing_skip (hsender : sender.Sound) (hlt : sender.udpNextSendIndex < intMax)
    (hsound : e.Sound) (hlinked : Linked sender e) (h : Handing sender e) {packet : Packet} {fake : Bool}
    (hnext : e.IsNext packet) (hfake : fake = !e.tcpConnected)
    (hskip : fake = true ∨ (packet.getType ≠ .data ∨ packet.getSize ≤ 0) ∧
      packet.getType.isClosing = false) :
    Handing sender { e with toReceiver := e.toReceiver.skip packet fake } := by
  obtain ⟨i, hi⟩ := Int.eq_ofNat_of_zero_le hsound.receiving.next_nonneg
  obtain ⟨hmaster, hpacket⟩ := hnext
  rw [hi] at hpacket
  refine ⟨by simpa using h.handed_payloads, fun htcp => ?_, fun p hp hclosing => ?_⟩
  · have htcpE : e.tcpConnected = true := htcp
    obtain ⟨done, hhanded, -, hsome⟩ := h.handed_open htcp
    rw [hi, Int.toNat_natCast] at hhanded hsome
    obtain ⟨q, hq, hdata⟩ := hsome packet hpacket
    obtain ⟨a, ha, htype, -⟩ := created_of_key hsender hlt hsound hlinked hpacket
    obtain rfl := Option.some.inj (hq.symm.trans ha)
    have hempty : packet.getData = [] := by
      rcases hskip with hfakeTrue | ⟨htypeOrSize, -⟩
      · simp [hfakeTrue, htcpE] at hfake
      · rcases htypeOrSize with htypeNe | hsize
        · have hnil := hsender.sending.wellFormed.getData_created hq (by rwa [htype])
          rw [hnil] at hdata
          exact (List.append_eq_nil_iff.mp hdata.symm).2
        · rw [Packet.getSize_eq] at hsize
          exact List.length_eq_zero_iff.mp (by omega)
    refine handed_open_next hsender hlt hsound hlinked hi hq (by simp)
      (fun index hne => Receiver.skip_other _ _ _ (by omega)) ?_
    rw [Receiver.skip_handed, hhanded, hdata, hempty, List.append_nil]
  · simp only [Receiver.skip_receiveHistory, List.mem_append, List.mem_singleton,
      ReceiveAction.consume.injEq] at hp
    simp only [Receiver.skip_handed]
    rcases hp with hp | ⟨rfl, rfl⟩
    · exact h.consumed_closing p hp hclosing
    · rcases hskip with hfakeTrue | ⟨-, hnotClosing⟩
      · cases hfakeTrue
      · rw [Packet.wire_getType, hnotClosing] at hclosing
        cases hclosing

theorem handing_write (hsender : sender.Sound) (hlt : sender.udpNextSendIndex < intMax)
    (hsound : e.Sound) (hlinked : Linked sender e) (h : Handing sender e) {packet : Packet} {size : Nat}
    (hnext : e.IsNext packet) (htcp : e.tcpConnected = true) (htype : packet.getType = .data)
    (hpos : 0 < size) (hsize : size ≤ packet.getData.length) :
    Handing sender { e with toReceiver := e.toReceiver.write packet size } := by
  obtain ⟨i, hi⟩ := Int.eq_ofNat_of_zero_le hsound.receiving.next_nonneg
  obtain ⟨hmaster, hpacket⟩ := hnext
  obtain ⟨done, hhanded, -, hsome⟩ := h.handed_open htcp
  rw [hi] at hpacket
  rw [hi, Int.toNat_natCast] at hhanded hsome
  obtain ⟨q, hq, hdata⟩ := hsome packet hpacket
  have hrest := Packet.erasePayload_getData hpos hsize
  have hhandedWrite : (e.toReceiver.write packet size).handed =
      payloads (sender.created.take i) ++ (done ++ packet.getData.take size) := by
    rw [Receiver.write_handed, hhanded, List.append_assoc]
  have hsplit : q.getData = (done ++ packet.getData.take size) ++
      (packet.erasePayload size).getData := by
    rw [hdata, hrest, List.append_assoc, List.take_append_drop]
  refine ⟨prefix_of_handed hhandedWrite hq hsplit, fun _ => ?_, fun p hp hclosing => ?_⟩
  · by_cases hdone : (packet.erasePayload size).getSize ≤ 0
    · have hempty : (packet.erasePayload size).getData = [] := by
        rw [Packet.getSize_eq] at hdone
        exact List.length_eq_zero_iff.mp (by omega)
      rw [hempty, List.append_nil] at hsplit
      refine handed_open_next hsender hlt hsound hlinked hi hq ?_ (fun index hne => ?_) ?_
      · simp only [Receiver.write, if_pos hdone, Receiver.consume]
      · simp only [Receiver.write, if_pos hdone]
        rw [Receiver.consume_other _ _ _ (by simp only; omega)]
        rw [Std.ExtTreeMap.getElem?_insert, if_neg (by simp only [compare_eq_iff_eq]; omega)]
      · rw [hhandedWrite, hsplit]
    · refine ⟨done ++ packet.getData.take size, ?_, ?_, ?_⟩
      · simpa only [Receiver.write, if_neg hdone, hi, Int.toNat_natCast] using hhandedWrite
      · simp [Receiver.write, if_neg hdone]
      · simp only [Receiver.write, if_neg hdone, Std.ExtTreeMap.getElem?_insert_self, hi,
          Int.toNat_natCast, Option.some.injEq]
        rintro p rfl
        exact ⟨q, hq, hsplit⟩
  · rw [Receiver.write_receiveHistory, List.mem_append] at hp
    rcases hp with hp | hp
    · rw [(h.consumed_closing p hp hclosing).1] at htcp
      cases htcp
    · rcases List.mem_cons.mp hp with hp | hp
      · cases hp
      · split at hp
        · obtain ⟨rfl, -⟩ := ReceiveAction.consume.inj (List.mem_singleton.mp hp)
          rw [Packet.wire_getType, Packet.erasePayload_getType hpos hsize, htype] at hclosing
          cases hclosing
        · cases hp

theorem handing_accept (hsender : sender.Sound) (hlt : sender.udpNextSendIndex < intMax)
    (hsound : e.Sound) (h : Handing sender e) {packet : Packet} (hcreated : packet ∈ sender.created)
    (hnew : packet.getIndex ∉ e.udpReceivedPackets) :
    Handing sender { e with toReceiver := e.toReceiver.accept packet } := by
  obtain ⟨i, hi⟩ := Int.eq_ofNat_of_zero_le hsound.receiving.next_nonneg
  obtain ⟨masterIndex, finalIndex, heq, -⟩ := e.toReceiver.accept_eq packet
  refine ⟨by simpa using h.handed_payloads, fun htcp => ?_, fun p hp hclosing => ?_⟩
  · obtain ⟨done, hhanded, hnone, hsome⟩ := h.handed_open htcp
    rw [hi, Int.toNat_natCast] at hhanded hsome
    simp only [Receiver.accept_handed]
    refine ⟨done, ?_, ?_, ?_⟩
    · simpa only [heq, hi, Int.toNat_natCast] using hhanded
    · intro hmissing
      simp only [heq, Std.ExtTreeMap.getElem?_insert] at hmissing
      split at hmissing
      · cases hmissing
      · exact hnone hmissing
    · intro p hp
      simp only [heq, hi, Std.ExtTreeMap.getElem?_insert, compare_eq_iff_eq] at hp
      simp only [heq, hi, Int.toNat_natCast]
      split at hp
      · rename_i hindex
        obtain rfl := Option.some.inj hp
        rw [Std.ExtTreeMap.mem_iff_isSome_getElem?, hindex, Option.not_isSome_iff_eq_none] at hnew
        exact ⟨packet, hsender.sending.wellFormed.created_of_mem hlt hcreated hindex,
          by rw [hnone (by rw [hi]; exact hnew), List.nil_append]⟩
      · exact hsome p hp
  · have hhistory : .consume p false ∈ e.receiveHistory := by
      simpa [heq] using hp
    simpa using h.consumed_closing p hhistory hclosing

theorem handing_prune (h : Handing sender e) {index : Int} (hindex : index < e.tcpNextSendIndex) :
    Handing sender { e with toReceiver := e.toReceiver.pruneKey index } := by
  have hkey : (e.toReceiver.pruneKey index).udpReceivedPackets[e.tcpNextSendIndex]? =
      e.udpReceivedPackets[e.tcpNextSendIndex]? := by
    simp only [Receiver.pruneKey]
    split
    · rfl
    · split
      · rw [Std.ExtTreeMap.getElem?_erase, if_neg (by simp only [compare_eq_iff_eq]; omega)]
      · rw [Std.ExtTreeMap.getElem?_insert, if_neg (by simp only [compare_eq_iff_eq]; omega)]
  refine ⟨by simpa using h.handed_payloads, fun htcp => ?_, fun p hp hclosing => ?_⟩
  · simpa only [Receiver.pruneKey_handed, Receiver.pruneKey_tcpNextSendIndex, hkey]
      using h.handed_open htcp
  · rw [Receiver.pruneKey_receiveHistory] at hp
    simpa using h.consumed_closing p hp hclosing

theorem handing_receiver (hsender : sender.Sound) (hlt : sender.udpNextSendIndex < intMax)
    (hconserving : sender.Conserving) (hsound : e.Sound) (hlt' : e.udpNextSendIndex < intMax)
    (hlinked : Linked sender e) (hback : Linked e sender) (h : Handing sender e)
    (hnet : ∀ p, N p → p ∈ sender.transmitted) (hstep : Protocol.Step N e e') :
    Handing sender e' := by
  have hpayloads := h.handed_payloads
  have hconsumed := h.consumed_closing
  have hall : ∀ packet : Packet, e.IsNext packet → packet.getType.isClosing = true →
      e.tcpConnected = true →
      (∃ q ∈ sender.created, q.getType.isClosing = true) ∧ e.handed = sender.taken :=
    fun _ => handed_eq_taken hsender hlt hconserving hsound hlt' hlinked hback h
  cases hstep with
  | close type => exact ⟨hpayloads, (fun hopen => by cases hopen), fun p hp hclosing => ⟨rfl, (hconsumed p hp hclosing).2⟩⟩
  | hangUp => exact ⟨hpayloads, (fun hopen => by cases hopen), fun p hp hclosing => ⟨rfl, (hconsumed p hp hclosing).2⟩⟩
  | skip packet fake hnext hfake hskip =>
      exact handing_skip hsender hlt hsound hlinked h hnext hfake hskip
  | skipClosing packet hnext htype htcp hudp hflushed =>
      refine ⟨by simpa using hpayloads, (fun hopen => by cases hopen), fun p hp hclosing => ⟨rfl, ?_⟩⟩
      simp only [Receiver.skip_handed]
      exact hall packet hnext htype htcp
  | skipClosingUnused packet hnext htype htcp hudp =>
      refine ⟨by simpa using hpayloads, (fun hopen => by cases hopen), fun p hp hclosing => ⟨rfl, ?_⟩⟩
      simp only [Receiver.skip_handed]
      exact hall packet hnext htype htcp
  | write packet size hnext htcp htype hpos hsize =>
      exact handing_write hsender hlt hsound hlinked h hnext htcp htype hpos hsize
  | accept packet hp hwire hudp haccepts hnew =>
      obtain ⟨-, -, -, hnumbered⟩ := Session.acceptsPacket_eq_true haccepts
      have hcreated := (created_of_transmitted hsender (hnet packet hp)).1 hnumbered
      exact handing_accept hsender hlt hsound h hcreated hnew
  | confirm payload =>
      have hrecord := handing_record h (.confirm (e.confirmation payload).wire) rfl (by simp)
      exact ⟨hrecord.handed_payloads, hrecord.handed_open, hrecord.consumed_closing⟩
  | prune index hindex => exact handing_prune h hindex
  | acceptByeBye packet => exact handing_record h _ rfl (by simp)
  | _ => exact ⟨hpayloads, h.handed_open, hconsumed⟩

/-- What holds of the two streams between honest peers. -/
structure Streaming (x : Endpoints) : Prop where
  honest : Honest x
  conserving : ∀ side, (x side).Conserving
  handing : ∀ side, Handing (x side.other) (x side)

theorem Streaming.step {x y : Endpoints} (h : Streaming x) (hstep : ProtocolStep x y) :
    Streaming y := by
  refine ⟨h.honest.step hstep, ?_, ?_⟩
  all_goals
    obtain ⟨side, e, hside, hlt⟩ := hstep
    intro a
  · rcases Side.eq_or_eq_other side a with rfl | rfl
    · simpa using Protocol.conserving_step (h.honest.sound a).sending (h.conserving a) hside
    · simpa using h.conserving side.other
  · rcases Side.eq_or_eq_other side a with rfl | rfl
    · have hback := h.honest.linked a.other
      rw [Side.other_other] at hback
      simpa using handing_receiver (h.honest.sound a.other) (h.honest.next_lt a.other)
        (h.conserving a.other) (h.honest.sound a) (h.honest.next_lt a) (h.honest.linked a) hback
        (h.handing a) (fun _ hp => hp) hside
    · have hlinked := h.honest.linked side.other
      have hhanding := h.handing side.other
      rw [Side.other_other] at hlinked hhanding
      simpa using handing_sender (h.honest.sound side) (h.honest.next_lt side)
        (h.honest.sound side.other) hlinked hhanding hside

theorem streaming_initial {config : Side → Config} {t : Tunnel} (h : Initial config t) :
    Streaming t.endpoints := by
  have htaken : ∀ config : Config, (Endpoint.initial config).taken = [] := fun _ => rfl
  have hpayloads : ∀ config : Config, payloads (Endpoint.initial config).created = [] := by
    intro config
    rw [Endpoint.initial, Sender.push_created, payloads_append, payloads_datagram]
    rfl
  have hdata : ∀ config : Config, (Endpoint.initial config).tcpReceivedData = [] := fun _ => rfl
  have hhanded : ∀ config : Config, (Endpoint.initial config).handed = [] := fun _ => rfl
  have hkeys : ∀ config : Config, (Endpoint.initial config).udpReceivedPackets = ∅ := fun _ => rfl
  have hnext : ∀ config : Config, (Endpoint.initial config).tcpNextSendIndex = 0 := fun _ => rfl
  have hhistory : ∀ config : Config, (Endpoint.initial config).receiveHistory = [] := fun _ => rfl
  refine ⟨honest_initial h, fun side => ?_, fun side => ?_⟩
  · rw [endpoints_initial h]
    refine ⟨?_, fun _ _ => ?_, fun _ => .inr ?_⟩
    · rw [hpayloads, htaken]
    · rw [hpayloads, htaken, hdata, List.append_nil]
    · rw [hpayloads, htaken]
  · rw [endpoints_initial h, endpoints_initial h]
    refine ⟨?_, fun _ => ⟨[], ?_, fun _ => rfl, fun p hp => ?_⟩, fun p hp => ?_⟩
    · rw [hhanded]
      exact List.nil_prefix
    · simp [hhanded, hnext, payloads]
    · simp [hkeys] at hp
    · simp [hhistory] at hp

theorem Reachable.streaming {config : Side → Config} {t : Tunnel} (h : Reachable config t) :
    Streaming t.endpoints :=
  Runs.Reachable.invariant_of_refines (fun _ => streaming_initial)
    (fun _ _ _ _ _ hm => step_refines hm) (fun _ _ => Streaming.step) h

theorem Streaming.handed_prefix {x : Endpoints} (h : Streaming x) (side : Side) :
    (x side).handed <+: (x side.other).taken :=
  (h.handing side).handed_payloads.trans (h.conserving side.other).payloads_taken

theorem Streaming.handed_of_closing {x : Endpoints} (h : Streaming x) (side : Side)
    (packet : Packet) (hpacket : .consume packet false ∈ (x side).receiveHistory)
    (hclosing : packet.getType.isClosing = true) : (x side).handed = (x side.other).taken :=
  ((h.handing side).consumed_closing packet hpacket hclosing).2.2

/-- What a side has handed to TCP is a prefix of what the other side has taken
from TCP, and all of it once the closing packet was passed on. -/
theorem handed_prefix_taken {config : Side → Config} {t : Tunnel} (h : Reachable config t)
    (side : Side) :
    (t side).handed <+: (t side.other).taken ∧
      ∀ packet, .consume packet false ∈ (t side).receiveHistory →
        packet.getType.isClosing = true → (t side).handed = (t side.other).taken :=
  ⟨h.streaming.handed_prefix side, h.streaming.handed_of_closing side⟩

/-- The client reads three bytes and closes; the server gets all of it. -/
def closingRun : List Move :=
  [.raise .client .tcpRead 0 { Io.steady 0 with tcpBytes := [1, 2, 3] },
    .raise .client .tcpClose 1 (Io.steady 1),
    .raise .client .udpWrite 1 (Io.steady 1),
    .raise .client .udpWrite 10 (Io.steady 10),
    .raise .client .udpWrite 20 (Io.steady 20),
    .deliver .server 0 (Io.steady 21),
    .deliver .server 2 (Io.steady 22),
    .deliver .server 1 (Io.steady 23),
    .raise .server .tcpWrite 24 (Io.steady 24),
    .raise .server .tcpWrite 25 (Io.steady 25)]

theorem closingRun_isSome : (play Config.small closingRun).isSome = true := by
  decide +kernel

theorem handed_prefix_taken_closingRun :
    ∃ t, Reachable (fun _ => Config.small) t ∧ (t .server).handed = [1, 2, 3] ∧
      (t .server).handed = (t .client).taken := by
  have hreachable := Reachable.of_play (Option.some_get closingRun_isSome).symm
  refine ⟨_, hreachable, by decide +kernel, ?_⟩
  exact (handed_prefix_taken hreachable .server).2 (.datagram .bye 2 []) (by decide +kernel)
    (by decide +kernel)

end Tunnel

end IceTunnel
