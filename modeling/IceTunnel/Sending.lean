import IceTunnel.Protocol

namespace IceTunnel

namespace Sender

/-- The packets are numbered in the order of their creation, and `udpSentPackets`
holds some of them, none confirmed. -/
structure WellFormed (s : Sender) : Prop where
  next_eq : s.udpNextSendIndex = s.created.length
  created_eq : ∀ (i : Nat) (p : Packet), s.created[i]? = some p →
    ∃ (type : PacketType) (payload : List UInt8), type.isNumbered = true ∧
      (type = .hello → i = 0) ∧ (type ≠ .data → payload = []) ∧ p = .datagram type i payload
  sent_created : ∀ (index : Int) (p : Packet), s.udpSentPackets[index]? = some p →
    ∃ i : Nat, index = i ∧ s.created[i]? = some p.wire
  sent_unconfirmed : ∀ (index : Int) (p : Packet), s.udpSentPackets[index]? = some p →
    p.confirmed = false

namespace WellFormed

variable {s : Sender}

theorem lt_next (h : s.WellFormed) {index : Int} {p : Packet}
    (hp : s.udpSentPackets[index]? = some p) : 0 ≤ index ∧ index < s.udpNextSendIndex := by
  obtain ⟨i, rfl, hcreated⟩ := h.sent_created index p hp
  have hlt := (List.getElem?_eq_some_iff.mp hcreated).1
  have hnext := h.next_eq
  omega

theorem getIndex_created (h : s.WellFormed) (hlt : s.udpNextSendIndex < intMax) {i : Nat} {p : Packet}
    (hp : s.created[i]? = some p) : p.getIndex = i := by
  obtain ⟨type, payload, -, -, -, rfl⟩ := h.created_eq i p hp
  have hi := (List.getElem?_eq_some_iff.mp hp).1
  have hnext := h.next_eq
  simp only [intMax] at hlt
  exact Packet.datagram_getIndex _ _ (by omega) (by omega)

theorem created_of_mem (h : s.WellFormed) (hlt : s.udpNextSendIndex < intMax) {p : Packet}
    (hp : p ∈ s.created) {i : Nat} (hindex : p.getIndex = i) : s.created[i]? = some p := by
  obtain ⟨j, hj⟩ := List.mem_iff_getElem?.mp hp
  have hsame := h.getIndex_created hlt hj
  have heq : j = i := by omega
  rw [← heq]
  exact hj

theorem getData_created (h : s.WellFormed) {i : Nat} {p : Packet} (hp : s.created[i]? = some p)
    (htype : p.getType ≠ .data) : p.getData = [] := by
  obtain ⟨type, payload, hnumbered, -, hdata, rfl⟩ := h.created_eq i p hp
  rw [Packet.datagram_getType _ _ (PacketType.ofByte_toByte_of_isNumbered hnumbered)] at htype
  rw [Packet.datagram_getData, hdata htype]

theorem next_not_sent (h : s.WellFormed) : s.udpSentPackets[s.udpNextSendIndex]? = none := by
  rw [Option.eq_none_iff_forall_ne_some]
  intro p hp
  have := h.lt_next hp
  omega

theorem push (h : s.WellFormed) (udpResendCount : Int) {type : PacketType}
    {payload : List UInt8} (hnumbered : type.isNumbered = true)
    (hhello : type = .hello → s.udpNextSendIndex = 0) (hdata : type ≠ .data → payload = []) :
    (s.push udpResendCount type payload).WellFormed := by
  have hnext := h.next_eq
  constructor
  · simp only [push_udpNextSendIndex, push_created, List.length_append, List.length_singleton]
    omega
  · intro i p hp
    rw [push_created, List.getElem?_append] at hp
    split at hp
    · exact h.created_eq i p hp
    · rename_i hi
      rw [List.getElem?_singleton] at hp
      split at hp
      · rename_i hlast
        have hindex : i = s.created.length := by omega
        refine ⟨type, payload, hnumbered, fun hs => ?_, hdata, ?_⟩
        · have := hhello hs
          omega
        · rw [hindex, ← hnext]
          exact (Option.some.inj hp).symm
      · cases hp
  · intro index p hp
    simp only [Sender.push, Std.ExtTreeMap.getElem?_insert, compare_eq_iff_eq] at hp
    split at hp
    · rename_i hindex
      obtain rfl := Option.some.inj hp
      refine ⟨s.created.length, by omega, ?_⟩
      have hwire := Packet.encode_wire (s.udpSentPackets.getD s.udpNextSendIndex {}) type
        s.udpNextSendIndex payload
      rw [push_created, List.getElem?_concat_length, ← hwire]
      simp only [Packet.wire]
    · obtain ⟨i, hi, hcreated⟩ := h.sent_created index p hp
      refine ⟨i, hi, ?_⟩
      rw [push_created, List.getElem?_append_left (List.getElem?_eq_some_iff.mp hcreated).1]
      exact hcreated
  · intro index p hp
    simp only [Sender.push, Std.ExtTreeMap.getElem?_insert, compare_eq_iff_eq] at hp
    split at hp
    · obtain rfl := Option.some.inj hp
      simp only [Packet.encode_confirmed, Std.ExtTreeMap.getD_eq_getD_getElem?,
        h.next_not_sent, Option.getD_none]
    · exact h.sent_unconfirmed index p hp

theorem record (h : s.WellFormed) {action : SendAction} (haction : action.created? = none) :
    (s.record action).WellFormed := by
  have hcreated : (s.record action).created = s.created := by simp [haction]
  constructor
  · rw [hcreated]
    exact h.next_eq
  · rw [hcreated]
    exact h.created_eq
  · rw [hcreated]
    exact h.sent_created
  · exact h.sent_unconfirmed

theorem insert (h : s.WellFormed) {index : Int} {p q : Packet} (count : Int)
    (hp : s.udpSentPackets[index]? = some p) (hdata : q.wire = p.wire)
    (hconfirmed : q.confirmed = p.confirmed) :
    { s with
      udpSentPackets := s.udpSentPackets.insert index q
      udpPacketsToSendCount := count }.WellFormed := by
  constructor
  · exact h.next_eq
  · exact h.created_eq
  · intro other r hr
    simp only [Std.ExtTreeMap.getElem?_insert, compare_eq_iff_eq] at hr
    split at hr
    · rename_i hindex
      obtain rfl := Option.some.inj hr
      obtain ⟨i, hi, hcreated⟩ := h.sent_created index p hp
      exact ⟨i, by omega, by rw [hdata]; exact hcreated⟩
    · exact h.sent_created other r hr
  · intro other r hr
    simp only [Std.ExtTreeMap.getElem?_insert, compare_eq_iff_eq] at hr
    split at hr
    · obtain rfl := Option.some.inj hr
      rw [hconfirmed]
      exact h.sent_unconfirmed index p hp
    · exact h.sent_unconfirmed other r hr

theorem erase (h : s.WellFormed) (index count : Int) :
    { s with
      udpSentPackets := s.udpSentPackets.erase index
      udpPacketsToSendCount := count }.WellFormed := by
  have hmem : ∀ (other : Int) (p : Packet), (s.udpSentPackets.erase index)[other]? = some p →
      s.udpSentPackets[other]? = some p := by
    intro other p hp
    rw [Std.ExtTreeMap.getElem?_erase] at hp
    split at hp
    · cases hp
    · exact hp
  exact ⟨h.next_eq, h.created_eq, fun other p hp => h.sent_created other p (hmem other p hp),
    fun other p hp => h.sent_unconfirmed other p (hmem other p hp)⟩

theorem setReceivedData (h : s.WellFormed) (bytes : List UInt8) :
    { s with tcpReceivedData := bytes }.WellFormed :=
  ⟨h.next_eq, h.created_eq, h.sent_created, h.sent_unconfirmed⟩

theorem clear (h : s.WellFormed) :
    { s with tcpReceivedData := [], udpSentPackets := ∅ }.WellFormed :=
  ⟨h.next_eq, h.created_eq, by simp, by simp⟩

end WellFormed

end Sender

namespace Session

/-- How the last packet, the TCP side and the bytes not yet packed go together. -/
structure Sending (s : Session) : Prop where
  wellFormed : s.toSender.WellFormed
  closing_last : ∀ (i : Nat) (p : Packet), s.created[i]? = some p →
    p.getType.isClosing = true → i + 1 = s.created.length ∧ s.tcpConnected = false
  closing_created : s.tcpConnected = false → s.udpConnected = true →
    ∃ p, s.created.getLast? = some p ∧ p.getType.isClosing = true
  received_size : s.tcpReceivedData ≠ [] → 0 < s.udpSendPacketSize
  received_open : s.tcpReceivedData ≠ [] → s.tcpConnected = true ∧ s.udpConnected = true
  unconnected : s.udpConnected = false →
    s.udpConfirmationPackets = [] ∧ s.udpSentPackets = ∅

/-- Every datagram is a packet of `udpSentPackets`, a Confirmation or a ByeBye. -/
structure Transmitting (s : Session) : Prop where
  queue_encoded : ∀ p ∈ s.udpConfirmationPackets, p.wire ∈ s.confirmations ∨ p.wire ∈ s.byeByes
  transmitted_encoded : ∀ p ∈ s.transmitted,
    p ∈ s.created ∨ p ∈ s.confirmations ∨ p ∈ s.byeByes

end Session

namespace Protocol

variable {N : Packet → Prop} {e e' : Endpoint}

theorem received_eq_nil_of_flushed (h : e.Sending) (hflushed : e.Flushed) :
    e.tcpReceivedData = [] := by
  by_contra hdata
  have hsize := h.received_size hdata
  rcases hflushed with hnil | hsmall
  · exact hdata hnil
  · omega

theorem sending_of_created {s s' : Session} (h : s.Sending) (hwellFormed : s'.WellFormed)
    (hcreated : s'.created = s.created) (htcp : s'.tcpConnected = s.tcpConnected)
    (hudp : s'.udpConnected = s.udpConnected)
    (hsize : s'.udpSendPacketSize = s.udpSendPacketSize)
    (hdata : s'.tcpReceivedData = s.tcpReceivedData ∨ s'.tcpReceivedData = [])
    (hunconnected : s.udpConnected = false →
      s'.udpConfirmationPackets = [] ∧ s'.udpSentPackets = ∅) : s'.Sending := by
  have hsame : s'.tcpReceivedData ≠ [] → s.tcpReceivedData ≠ [] := by
    rcases hdata with hdata | hdata <;> simp [hdata]
  constructor
  · exact hwellFormed
  · rw [hcreated, htcp]
    exact h.closing_last
  · rw [hcreated, htcp, hudp]
    exact h.closing_created
  · rw [hsize]
    exact fun hne => h.received_size (hsame hne)
  · rw [htcp, hudp]
    exact fun hne => h.received_open (hsame hne)
  · rw [hudp]
    exact hunconnected

theorem sending_record (h : e.Sending) (action : SendAction) (haction : action.created? = none) :
    Session.Sending { e.toSession with toSender := e.toSender.record action } :=
  sending_of_created h (h.wellFormed.record haction) (by simp [haction]) rfl rfl rfl (.inl rfl)
    h.unconnected

theorem sending_push_closing {type : PacketType} (h : e.Sending)
    (hclosing : type.isClosing = true) (hudp : e.udpConnected = true) (hflushed : e.Flushed)
    (htcp : e.tcpConnected = true) (r : Receiver) :
    Session.Sending { e.toSession with
      tcpConnected := false
      toSender := e.toSender.push e.udpResendCount type []
      toReceiver := r } := by
  have hnumbered : type.isNumbered = true := by cases type <;> simp_all [PacketType.isClosing,
    PacketType.isNumbered]
  have hhello : type ≠ .hello := by rintro rfl; simp [PacketType.isClosing] at hclosing
  have hdata := received_eq_nil_of_flushed h hflushed
  constructor
  · exact h.wellFormed.push _ hnumbered (fun ht => absurd ht hhello) fun _ => rfl
  · intro i p hp hp'
    refine ⟨?_, rfl⟩
    simp only [Sender.push_created] at hp ⊢
    rw [List.getElem?_append] at hp
    split at hp
    · obtain ⟨-, hopen⟩ := h.closing_last i p hp hp'
      rw [htcp] at hopen
      cases hopen
    · obtain ⟨hi, -⟩ := List.getElem?_eq_some_iff.mp hp
      simp only [List.length_append, List.length_singleton] at hi ⊢
      omega
  · intro _ _
    refine ⟨.datagram type e.udpNextSendIndex [],
      by simp only [Sender.push_created, List.getLast?_concat], ?_⟩
    rw [Packet.datagram_getType _ _ (PacketType.ofByte_toByte_of_isNumbered hnumbered)]
    exact hclosing
  · exact fun hne => absurd hdata hne
  · exact fun hne => absurd hdata hne
  · intro hclosed
    simp only [hudp] at hclosed
    cases hclosed

theorem sending_step (h : e.Sending) (hstep : Step N e e') : e'.Sending := by
  cases hstep with
  | read bytes htcp hudp hsize =>
      have hrecord := sending_record h (.read bytes) rfl
      refine ⟨hrecord.wellFormed.setReceivedData _, hrecord.closing_last, hrecord.closing_created,
        fun hne => ?_, fun _ => ⟨htcp, hudp⟩, hrecord.unconnected⟩
      by_cases hold : e.tcpReceivedData = []
      · have hnew : bytes ≠ [] := by simpa [hold] using hne
        have := List.length_pos_iff.mpr hnew
        simp only
        omega
      · exact h.received_size hold
  | readUnused bytes htcp hudp => exact sending_record h _ rfl
  | discard hudp hfinal =>
      exact sending_of_created h (h.wellFormed.setReceivedData _) rfl rfl rfl rfl (.inr rfl)
        h.unconnected
  | create payload rest hudp hfinal hdata hpayload =>
      have hne : e.tcpReceivedData ≠ [] := by simp [hdata, hpayload]
      obtain ⟨htcp, -⟩ := h.received_open hne
      constructor
      · exact (h.wellFormed.push _ rfl (by simp) (by simp)).setReceivedData _
      · intro i p hp hclosing
        change (e.toSender.push e.udpResendCount .data payload).created[i]? = some p at hp
        rw [Sender.push_created, List.getElem?_append] at hp
        split at hp
        · obtain ⟨-, hopen⟩ := h.closing_last i p hp hclosing
          rw [htcp] at hopen
          cases hopen
        · rw [List.getElem?_singleton] at hp
          split at hp
          · obtain rfl := Option.some.inj hp
            rw [Packet.datagram_getType _ _ (by decide)] at hclosing
            cases hclosing
          · cases hp
      · intro hclosed
        simp only [htcp] at hclosed
        cases hclosed
      · exact fun _ => h.received_size hne
      · exact fun _ => h.received_open hne
      · intro hclosed
        simp only [hudp] at hclosed
        cases hclosed
  | close type htcp hudp hflushed hclosing =>
      exact sending_push_closing h hclosing hudp hflushed htcp e.toReceiver
  | hangUp htcp hudp =>
      refine ⟨h.wellFormed, fun i p hp hclosing => ⟨(h.closing_last i p hp hclosing).1, rfl⟩,
        fun _ hopen => ?_, h.received_size, fun hne => ?_, h.unconnected⟩
      · simp only [hudp] at hopen
        cases hopen
      · have := (h.received_open hne).2
        rw [hudp] at this
        cases this
  | skipClosing packet hnext hclosing htcp hudp hflushed =>
      exact sending_push_closing h rfl hudp hflushed htcp _
  | skipClosingUnused packet hnext hclosing htcp hudp =>
      refine ⟨h.wellFormed, fun i p hp hclosing => ⟨(h.closing_last i p hp hclosing).1, rfl⟩,
        fun _ hopen => ?_, h.received_size, fun hne => ?_, h.unconnected⟩
      · simp only [hudp] at hopen
        cases hopen
      · have := (h.received_open hne).2
        rw [hudp] at this
        cases this
  | offerConfirmation packet hudp hpacket => exact sending_record h _ rfl
  | offer index packet hudp hpacket => exact sending_record h _ rfl
  | transmit index packet timeUs measureIndex hpacket hsent =>
      refine sending_of_created h (h.wellFormed.insert _ hpacket rfl rfl) rfl rfl rfl rfl (.inl rfl)
        fun hclosed => ?_
      simp [(h.unconnected hclosed).2] at hpacket
  | resend index packet hpacket hsent =>
      refine sending_of_created h (h.wellFormed.insert _ hpacket rfl rfl) rfl rfl rfl rfl (.inl rfl)
        fun hclosed => ?_
      simp [(h.unconnected hclosed).2] at hpacket
  | eraseComplete index packet hpacket hcomplete =>
      refine sending_of_created h (h.wellFormed.erase index e.udpPacketsToSendCount) rfl rfl rfl rfl
        (.inl rfl) fun hclosed => ?_
      simp [(h.unconnected hclosed).2] at hpacket
  | forget index packet confirmation hnet hudp htype hconfirms hpacket =>
      refine sending_of_created h (h.wellFormed.erase index _) rfl rfl rfl rfl
        (.inl rfl) fun hclosed => ?_
      simp [(h.unconnected hclosed).2] at hpacket
  | byeBye hudp =>
      refine sending_of_created h (h.wellFormed.record rfl) (by simp [SendAction.created?]) rfl rfl rfl
        (.inl rfl) fun hclosed => ?_
      rw [hudp] at hclosed
      cases hclosed
  | closeUdp =>
      exact ⟨h.wellFormed.clear, h.closing_last, by simp, by simp, by simp, fun _ => ⟨rfl, rfl⟩⟩
  | dequeue packet packets hqueue =>
      refine sending_of_created h h.wellFormed rfl rfl rfl rfl (.inl rfl) fun hclosed => ?_
      simp [(h.unconnected hclosed).1] at hqueue
  | dropConfirmations =>
      refine sending_of_created h h.wellFormed rfl rfl rfl rfl (.inl rfl) fun hclosed => ?_
      simp [h.unconnected hclosed]
  | confirm payload hudp hpayload =>
      refine sending_of_created h h.wellFormed rfl rfl rfl rfl (.inl rfl) fun hclosed => ?_
      rw [hudp] at hclosed
      cases hclosed
  | _ => exact ⟨h.wellFormed, h.closing_last, h.closing_created, h.received_size, h.received_open,
      h.unconnected⟩

/-- A sender with a closing packet reads no more. -/
theorem tcpConnected_of_closing (h : e.Sending)
    (hclosing : ∃ p ∈ e.created, p.getType.isClosing = true) : e.tcpConnected = false := by
  obtain ⟨p, hp, htype⟩ := hclosing
  obtain ⟨i, hi⟩ := List.mem_iff_getElem?.mp hp
  exact (h.closing_last i p hi htype).2

theorem created_eq_of_closing (h : e.Sending)
    (hclosing : ∃ p ∈ e.created, p.getType.isClosing = true) (hstep : Step N e e') :
    e'.created = e.created := by
  have htcp := tcpConnected_of_closing h hclosing
  cases hstep with
  | read bytes hopen =>
      rw [htcp] at hopen
      cases hopen
  | readUnused bytes hopen =>
      rw [htcp] at hopen
      cases hopen
  | create payload rest hudp hfinal hdata hpayload =>
      have hopen := (h.received_open (by simp [hdata, hpayload])).1
      rw [htcp] at hopen
      cases hopen
  | close type hopen =>
      rw [htcp] at hopen
      cases hopen
  | skipClosing packet hnext htype hopen =>
      rw [htcp] at hopen
      cases hopen
  | offerConfirmation packet => simp [SendAction.created?]
  | offer index packet => simp [SendAction.created?]
  | byeBye => simp [SendAction.created?]
  | _ => rfl

theorem transmitting_record (h : e.Transmitting) (action : SendAction)
    (haction : ∀ p, action.transmitted? = some p →
      p ∈ e.created ∨ p ∈ e.confirmations ∨ p ∈ e.byeByes) :
    Session.Transmitting { e.toSession with toSender := e.toSender.record action } := by
  obtain ⟨hqueue, htransmitted⟩ := h
  constructor
  · intro p hp
    rcases hqueue p hp with hp | hp
    · exact .inl hp
    · exact .inr (by simp [hp])
  · intro p hp
    simp only [Sender.record_transmitted, List.mem_append, Option.mem_toList] at hp
    have hold : p ∈ e.created ∨ p ∈ e.confirmations ∨ p ∈ e.byeByes := by
      rcases hp with hp | hp
      · exact htransmitted p hp
      · exact haction p hp
    rcases hold with hp | hp | hp
    · exact .inl (by simp [hp])
    · exact .inr (.inl hp)
    · exact .inr (.inr (by simp [hp]))

theorem transmitting_receiver (h : e.Transmitting) {r : Receiver}
    (hr : r.confirmations = e.confirmations) :
    Session.Transmitting { e.toSession with toReceiver := r } := by
  obtain ⟨hqueue, htransmitted⟩ := h
  exact ⟨by simpa only [hr] using hqueue, by simpa only [hr] using htransmitted⟩

theorem transmitting_push (h : e.Transmitting) (udpResendCount : Int) (type : PacketType)
    (payload : List UInt8) :
    Session.Transmitting
      { e.toSession with toSender := e.toSender.push udpResendCount type payload } := by
  obtain ⟨hqueue, htransmitted⟩ := h
  refine ⟨by simpa only [Sender.push_byeByes] using hqueue, fun p hp => ?_⟩
  simp only [Sender.push_transmitted] at hp
  rcases htransmitted p hp with hp | hp | hp
  · exact .inl (by simp [hp])
  · exact .inr (.inl hp)
  · exact .inr (.inr (by simpa only [Sender.push_byeByes] using hp))

theorem transmitting_step (hsending : e.Sending) (h : e.Transmitting) (hstep : Step N e e') :
    e'.Transmitting := by
  cases hstep with
  | read bytes =>
      have hrecord := transmitting_record h (.read bytes) (by simp [SendAction.transmitted?])
      exact ⟨hrecord.queue_encoded, hrecord.transmitted_encoded⟩
  | readUnused bytes => exact transmitting_record h _ (by simp [SendAction.transmitted?])
  | create payload rest hudp hfinal hdata hpayload =>
      have hpush := transmitting_push h e.udpResendCount .data payload
      exact ⟨hpush.queue_encoded, hpush.transmitted_encoded⟩
  | close type htcp hudp hflushed hclosing =>
      have hpush := transmitting_push h e.udpResendCount type []
      exact ⟨hpush.queue_encoded, hpush.transmitted_encoded⟩
  | skip packet fake => exact transmitting_receiver h (by simp)
  | skipClosing packet hnext hclosing htcp hudp hflushed =>
      have hpush := transmitting_push h e.udpResendCount .bye []
      have hskip := transmitting_receiver (e := { e with toSender := e.push e.udpResendCount .bye [] })
        hpush (r := e.toReceiver.skip packet false) (by simp)
      exact ⟨hskip.queue_encoded, hskip.transmitted_encoded⟩
  | skipClosingUnused packet =>
      have hskip := transmitting_receiver h (r := e.toReceiver.skip packet false) (by simp)
      exact ⟨hskip.queue_encoded, hskip.transmitted_encoded⟩
  | write packet size => exact transmitting_receiver h (by simp)
  | offerConfirmation packet hudp hpacket =>
      refine transmitting_record h _ fun p hp => ?_
      obtain rfl := Option.some.inj hp
      exact .inr (h.queue_encoded packet hpacket)
  | dequeue packet packets hqueue =>
      refine ⟨fun p hp => h.queue_encoded p ?_, h.transmitted_encoded⟩
      rw [hqueue]
      exact List.mem_cons_of_mem _ hp
  | offer index packet hudp hpacket =>
      refine transmitting_record h _ fun p hp => ?_
      obtain rfl := Option.some.inj hp
      obtain ⟨i, -, hcreated⟩ := hsending.wellFormed.sent_created index packet hpacket
      exact .inl (List.mem_of_getElem? hcreated)
  | accept packet => exact transmitting_receiver h (by simp)
  | dropConfirmations =>
      exact ⟨fun p hp => h.queue_encoded p (List.mem_of_mem_filter hp), h.transmitted_encoded⟩
  | confirm payload hudp hpayload =>
      constructor
      · intro p hp
        simp only [List.mem_append, List.mem_singleton] at hp
        rcases hp with hp | rfl
        · rcases h.queue_encoded p hp with hp | hp
          · exact .inl (by simp [hp])
          · exact .inr hp
        · exact .inl (by simp [ReceiveAction.confirmation?])
      · intro p hp
        rcases h.transmitted_encoded p hp with hp | hp | hp
        · exact .inl hp
        · exact .inr (.inl (by simp [hp]))
        · exact .inr (.inr hp)
  | prune index => exact transmitting_receiver h (by simp)
  | byeBye hudp =>
      have hrecord := transmitting_record h (.byeBye e.byeByePacket.wire e.udpSentPackets.keys)
        (by simp [SendAction.transmitted?])
      refine ⟨fun p hp => ?_, hrecord.transmitted_encoded⟩
      simp only [List.mem_append, List.mem_singleton] at hp
      rcases hp with hp | rfl
      · exact hrecord.queue_encoded p hp
      · exact .inr (by simp [SendAction.byeBye?])
  | acceptByeBye packet => exact transmitting_receiver h (by simp [ReceiveAction.confirmation?])
  | closeUdp => exact ⟨by simp, h.transmitted_encoded⟩
  | _ => exact ⟨h.queue_encoded, h.transmitted_encoded⟩

end Protocol

end IceTunnel
