import IceTunnel.Buffering

namespace IceTunnel

/-- A finished endpoint has no TCP side any more, unless it ran out of indices. -/
theorem Endpoint.Sound.tcpConnected_of_finishable {e : Endpoint} (h : e.Sound)
    (hlt : e.udpReceivedMasterIndex < intMax) (hfinishable : e.Finishable) :
    e.tcpConnected = false := by
  obtain ⟨hmore, -, -, hnext⟩ := hfinishable
  simp only [Session.isNoMoreDataWillBeSent, Bool.and_eq_true, Bool.or_eq_true, Bool.not_eq_true',
    beq_iff_eq] at hmore
  rcases hmore.1.1 with htcp | hfinal
  · exact htcp
  · exact h.concluded.tcpConnected h.receiving (by omega) hnext

namespace Connection

variable (c : Connection)

/-- An open connection that is not finished. -/
def Unfinished : Prop :=
  c.udpConnected = true → c.isUdpFinished = false

variable {c}

theorem isUdpFinished_congr {d : Connection} (hend : d.toEndpoint = c.toEndpoint)
    (hcountdown : d.toCountdown = c.toCountdown)
    (hevent : d.isEnabled .udpCloseWait = c.isEnabled .udpCloseWait) :
    d.isUdpFinished = c.isUdpFinished := by
  simp only [isUdpFinished, isNoMoreDataWillBeSent, hend, hcountdown, hevent]

theorem Unfinished.congr {d : Connection} (h : c.Unfinished) (hend : d.toEndpoint = c.toEndpoint)
    (hcountdown : d.toCountdown = c.toCountdown)
    (hevent : d.isEnabled .udpCloseWait = c.isEnabled .udpCloseWait) : d.Unfinished := by
  intro hudp
  rw [isUdpFinished_congr hend hcountdown hevent]
  apply h
  rw [← hudp, hend]

theorem unfinished_of_not (h : c.udpConnected = true → ¬c.Finishable) : c.Unfinished := by
  intro hudp
  rw [Bool.eq_false_iff]
  intro hfinished
  exact h hudp (c.isUdpFinished_finishable hfinished hudp)

theorem unfinished_of_sent (index : Int) {p : Packet} (h : c.udpSentPackets[index]? = some p) :
    c.Unfinished := by
  apply unfinished_of_not
  intro _ hfinishable
  rw [hfinishable.sent_empty] at h
  simp at h

theorem unfinished_of_queue (h : c.udpConfirmationPackets ≠ []) : c.Unfinished :=
  unfinished_of_not fun _ hfinishable => h hfinishable.2.1

variable (c)

theorem unfinished_closeIfUdpFinished : c.closeIfUdpFinished.Unfinished := by
  rcases c.closeIfUdpFinished_eq with ⟨hopen, heq⟩ | ⟨-, finished, heq⟩
  · rw [heq]
    exact fun _ => hopen
  · rw [heq]
    intro hudp
    rw [udpClose_udpConnected] at hudp
    cases hudp

theorem tcpRead_unfinished (h : c.Unfinished) (hsound : c.tcpRead.toEndpoint.Sound)
    (hlt : c.tcpRead.udpReceivedMasterIndex < intMax) : c.tcpRead.Unfinished := by
  cases htcp : c.tcpConnected with
  | false =>
      simp only [tcpRead, htcp]
      exact h
  | true =>
      obtain ⟨s, hs⟩ := c.tcpRead_toEndpoint
      apply unfinished_of_not
      intro _ hfinishable
      have hclosed := hsound.tcpConnected_of_finishable hlt hfinishable
      rw [hs] at hclosed
      exact absurd (htcp.symm.trans hclosed) (by decide)

/-- `tcpClose` leaves a packet behind. -/
theorem tcpClose_unfinished (error : Bool) (htcp : c.tcpConnected = true) :
    (c.tcpClose error).Unfinished := by
  cases hudp : c.udpConnected with
  | false =>
      intro hopen
      rw [(c.tcpClose_ends error).2, hudp] at hopen
      cases hopen
  | true =>
      obtain ⟨s, r, hend, -⟩ := c.tcpClose_toEndpoint (N := fun _ => True) error htcp hudp
      apply unfinished_of_sent s.udpNextSendIndex
      rw [hend]
      exact Std.ExtTreeMap.getElem?_insert_self

theorem tcpWrite_unfinished (h : c.Unfinished) (hsound : c.tcpWrite.toEndpoint.Sound)
    (hlt : c.tcpWrite.udpReceivedMasterIndex < intMax) : c.tcpWrite.Unfinished := by
  cases htcp : c.tcpConnected with
  | false =>
      simp only [tcpWrite, htcp]
      exact h
  | true =>
      obtain ⟨r, hr, -⟩ := c.tcpWriteLoop_toEndpoint false c.tcpWriteFuel
      have hopen : (tcpWriteLoop false c.tcpWriteFuel c).1.tcpConnected = true := by
        rw [hr]
        exact htcp
      simp only [tcpWrite, htcp, Bool.not_true, Bool.false_eq_true, if_false] at hsound hlt ⊢
      split
      · exact tcpClose_unfinished _ false hopen
      · rename_i hclosing
        rw [if_neg hclosing] at hsound hlt
        apply unfinished_of_not
        intro _ hfinishable
        have hclosed := hsound.tcpConnected_of_finishable hlt hfinishable
        exact absurd (hopen.symm.trans hclosed) (by decide)

theorem udpWritePacket_unfinished (plannedTimeUs index : Int) (packet : Packet)
    (hpacket : c.udpSentPackets[index]? = some packet) (hconfirmed : packet.confirmed = false) :
    (c.udpWritePacket plannedTimeUs index packet).Unfinished := by
  have hsent : ∀ d : Connection, d.udpSentPackets[index]? ≠ none → d.Unfinished := by
    intro d hd
    obtain ⟨p, hp⟩ := Option.ne_none_iff_exists'.mp hd
    exact unfinished_of_sent _ hp
  apply hsent
  rw [udpWritePacket_eq c _ _ _ hconfirmed]
  simp only
  split <;> split
  all_goals
    simp only [setTime_toEndpoint, setTimeRelativeNow_toEndpoint, markSent_toEndpoint,
      Std.ExtTreeMap.getElem?_insert_self, Sender.record, hpacket]
    exact Option.some_ne_none _

theorem udpWrite_unfinished (plannedTimeUs : Int) (h : c.Unfinished)
    (hsound : c.toEndpoint.Sound) : (c.udpWrite plannedTimeUs).Unfinished := by
  simp only [udpWrite]
  split
  · exact h
  · split
    · rename_i packet packets hqueue
      simp only [udpWriteConfirmation]
      split
      · split
        · exact unfinished_closeIfUdpFinished _
        · rename_i hopen
          rw [Bool.not_eq_true] at hopen
          split
          · exact fun _ => (isUdpFinished_congr rfl rfl
              (isEnabled_setTime_of_ne _ _ _ (by decide))).trans hopen
          · exact fun _ => hopen
      · apply unfinished_of_queue
        rw [setTime_toEndpoint]
        simp [hqueue]
    · split
      · rename_i index packet hfirst
        obtain ⟨hpacket, -⟩ := c.firstUnsent_eq_some hfirst
        exact c.udpWritePacket_unfinished _ _ _ hpacket
          (hsound.sending.wellFormed.sent_unconfirmed index packet hpacket)
      · exact h

theorem buildUdpPackets_unfinished (h : c.Unfinished) (hsound : c.toEndpoint.Sound)
    (hsound' : (c.buildUdpPackets true).toEndpoint.Sound)
    (hlt : (c.buildUdpPackets true).udpReceivedMasterIndex < intMax) :
    (c.buildUdpPackets true).Unfinished := by
  intro hudp
  rw [Bool.eq_false_iff]
  intro hfinished
  obtain ⟨hcountdown, -, hevents⟩ := c.buildUdpPackets_frame true
  obtain ⟨s, hs⟩ := c.buildUdpPackets_toEndpoint true
  have hclosed := hsound'.tcpConnected_of_finishable hlt (isUdpFinished_finishable _ hfinished hudp)
  rw [hs] at hclosed
  have hdata : c.tcpReceivedData = [] := by
    by_contra hdata
    exact absurd ((hsound.sending.received_open hdata).1.symm.trans hclosed) (by decide)
  have hsame := h.congr (c.buildUdpPackets_nil true hdata) hcountdown
    (hevents _ (by decide) (by decide) (by decide)) hudp
  exact absurd (hfinished.symm.trans hsame) (by decide)

theorem buildConfirmations_unfinished (h : c.Unfinished) : c.buildConfirmations.Unfinished := by
  cases hudp : c.udpConnected with
  | false =>
      simp only [buildConfirmations, hudp]
      exact h
  | true =>
      obtain ⟨r, packets, hend, hne, -⟩ := c.buildConfirmations_toEndpoint hudp
      apply unfinished_of_queue
      rw [hend]
      exact hne

theorem buildByeBye_unfinished (h : c.Unfinished) : c.buildByeBye.Unfinished := by
  simp only [buildByeBye]
  split
  · exact h
  · apply unfinished_of_queue
    split <;> simp

theorem udpResendLoop_mem (timeUs : Int) (indices : List Int) {index : Int}
    (hmem : index ∈ c.udpSentPackets) (hudp : (udpResendLoop timeUs indices c).udpConnected = true) :
    index ∈ (udpResendLoop timeUs indices c).udpSentPackets := by
  refine udpResendLoop_invariant timeUs (I := fun d => index ∈ d.udpSentPackets)
    (E := fun d => d.udpConnected = true → index ∈ d.udpSentPackets)
    (fun d hd _ => hd) (fun d first packet hd _ => ?_) (fun _ _ hd => hd) (fun d _ hopen => ?_) indices
    hmem hudp
  · rw [setEventUdpWrite_toEndpoint, markLost_toEndpoint]
    exact Std.ExtTreeMap.mem_insert.mpr (.inr hd)
  · rw [udpClose_udpConnected] at hopen
    cases hopen

theorem udpResend_unfinished (h : c.Unfinished) : c.udpResend.Unfinished := by
  simp only [udpResend]
  split
  · exact h
  · by_cases hempty : c.udpSentPackets = ∅
    · rw [hempty]
      exact h
    · intro hudp
      obtain ⟨index, hmem⟩ : ∃ index, index ∈ c.udpSentPackets := by
        by_contra hnone
        apply hempty
        rw [Std.ExtTreeMap.eq_empty_iff_forall_not_mem]
        exact fun index hindex => hnone ⟨index, hindex⟩
      have hkept := c.tick.udpResendLoop_mem c.nowUs c.udpSentPackets.keys hmem hudp
      rw [Std.ExtTreeMap.mem_iff_isSome_getElem?, Option.isSome_iff_exists] at hkept
      obtain ⟨p, hp⟩ := hkept
      exact unfinished_of_sent _ hp hudp

theorem handle_unfinished (event : EventName) (plannedTimeUs : Int)
    (h : event ≠ .udpCloseWait → c.Unfinished) (hsound : c.toEndpoint.Sound)
    (hlt : (c.handle event plannedTimeUs).udpReceivedMasterIndex < intMax) :
    (c.handle event plannedTimeUs).Unfinished := by
  have hsound' : (c.handle event plannedTimeUs).toEndpoint.Sound :=
    hsound.steps (handle_steps (N := fun _ => True) c event plannedTimeUs)
  cases event with
  | tcpRead => exact c.tcpRead_unfinished (h (by decide)) hsound' hlt
  | tcpWrite => exact c.tcpWrite_unfinished (h (by decide)) hsound' hlt
  | tcpClose =>
      cases htcp : c.tcpConnected with
      | false =>
          simp only [handle, tcpClose, htcp]
          exact h (by decide)
      | true => exact c.tcpClose_unfinished _ htcp
  | udpWrite => exact c.udpWrite_unfinished _ (h (by decide)) hsound
  | udpClose =>
      intro hudp
      rw [handle, udpClose_udpConnected] at hudp
      cases hudp
  | buildUdpPackets => exact c.buildUdpPackets_unfinished (h (by decide)) hsound hsound' hlt
  | buildConfirmations => exact c.buildConfirmations_unfinished (h (by decide))
  | buildByeBye => exact c.buildByeBye_unfinished (h (by decide))
  | udpResend => exact c.udpResend_unfinished (h (by decide))
  | udpCloseWait => exact c.unfinished_closeIfUdpFinished
  | close => exact (h (by decide)).congr rfl rfl rfl

theorem udpRead_unfinished (packet : Packet) : (c.udpRead packet).Unfinished := by
  cases hudp : c.udpConnected with
  | false =>
      intro hopen
      simp [udpRead, hudp] at hopen
  | true =>
      simp only [udpRead, hudp, Bool.not_true, Bool.false_eq_true, if_false]
      exact unfinished_closeIfUdpFinished _

theorem step_unfinished {c d : Connection} {m : Move} (hsound : c.toEndpoint.Sound)
    (h : c.Unfinished) (hm : c.step m = some d) (hlt : d.udpReceivedMasterIndex < intMax) :
    d.Unfinished := by
  cases m with
  | «raise» event timeUs io =>
      obtain ⟨-, -, -, rfl⟩ := of_step_raise hm
      apply handle_unfinished
      · intro hevent
        exact h.congr rfl rfl (isEnabled_disable_of_ne { c with io := io } event hevent.symm)
      · exact hsound
      · exact hlt
  | udpRead packet io =>
      obtain ⟨-, rfl⟩ := of_step_udpRead hm
      exact udpRead_unfinished _ _

theorem unfinished_initial {config : Config} {c : Connection} (h : Initial config c) :
    c.Unfinished := by
  obtain ⟨intervalUs, summaryUs, io, rfl⟩ := h
  apply unfinished_of_sent 0
  rw [new_toEndpoint]
  exact Std.ExtTreeMap.getElem?_insert_self

theorem unfinished {config : Config} {c : Connection}
    (h : Runs.Reachable (Initial config) step Runs.anyMove c)
    (hlt : c.udpReceivedMasterIndex < intMax) : c.Unfinished := by
  induction h with
  | start hinitial => exact unfinished_initial hinitial
  | next hreachable _ hm ih =>
      have hle := (advances (sound hreachable) hm).master_le
      exact step_unfinished (sound hreachable) (ih (lt_of_le_of_lt hle hlt)) hm hlt

/-- The places that poll `isUdpFinished()` miss nothing, while there are indices left
to receive at. -/
theorem isUdpFinished_eq_false {config : Config} {c : Connection}
    (h : Runs.Reachable (Initial config) step Runs.anyMove c) (hudp : c.udpConnected = true)
    (hlt : c.udpReceivedMasterIndex < intMax) : c.isUdpFinished = false :=
  unfinished h hlt hudp

theorem isUdpFinished_eq_false_readingRun :
    ((play Config.small readingRun).get readingRun_isSome).isUdpFinished = false :=
  isUdpFinished_eq_false (reachable_of_play (Option.some_get readingRun_isSome).symm)
    (by decide +kernel) (by decide +kernel)

section Exhausting

/-- All is acknowledged, `master` packets came in sequence and TCP has passed the
first `next` of them. -/
structure Idle (next master : Int) (c : Connection) : Prop where
  config : c.toConfig = .small
  tcpConnected : c.tcpConnected = true
  udpConnected : c.udpConnected = true
  deleted : c.deleted = false
  byeBye : c.remainByeByeResendCount = 0
  next_eq : c.tcpNextSendIndex = next
  master_eq : c.udpReceivedMasterIndex = master
  final_eq : c.udpReceivedFinalIndex = intMax
  data : c.tcpReceivedData = []
  sent : c.udpSentPackets = ∅
  queue : ∀ p ∈ c.udpConfirmationPackets, p.getType = .confirmation
  keys : ∀ key ∈ c.udpReceivedPackets, key < master

/-- A packet with nothing in it. -/
def emptyPacket (index : Int) : Packet :=
  .datagram .data index []

theorem accept_next (r : Receiver) (packet : Packet) (hindex : packet.getIndex = r.udpReceivedMasterIndex)
    (hfinal : r.udpReceivedMasterIndex < r.udpReceivedFinalIndex)
    (hclosing : packet.getType.isClosing = false)
    (hkeys : ∀ key ∈ r.udpReceivedPackets, key < r.udpReceivedMasterIndex) :
    r.accept packet = { r with
      udpReceivedPackets := r.udpReceivedPackets.insert packet.getIndex packet
      udpReceiveBufferSize := r.udpReceiveBufferSize + .ofInt packet.getSize
      receiveHistory := r.receiveHistory ++ [.accept packet.wire]
      udpReceivedMasterIndex := r.udpReceivedMasterIndex + 1 } := by
  have hnew : packet.getIndex ∉ r.udpReceivedPackets := by
    intro hmem
    have hlt := hkeys _ hmem
    omega
  have hstop : ∀ (fuel : Nat) (r' : Receiver),
      r'.udpReceivedPackets[r'.udpReceivedMasterIndex]? = none → Receiver.advance fuel r' = r' := by
    intro fuel r' hnone
    cases fuel with
    | zero => rfl
    | succ fuel => simp only [Receiver.advance, hnone]
  have hgap : (r.udpReceivedPackets.insert packet.getIndex packet)[r.udpReceivedMasterIndex + 1]? =
      none := by
    apply Std.ExtTreeMap.getElem?_eq_none
    rw [Std.ExtTreeMap.mem_insert, compare_eq_iff_eq]
    rintro (hmem | hmem)
    · omega
    · have hlt := hkeys _ hmem
      omega
  have hsize : (r.udpReceivedPackets.insert packet.getIndex packet).size =
      r.udpReceivedPackets.size + 1 := by
    rw [Std.ExtTreeMap.size_insert, if_neg (by rwa [Std.ExtTreeMap.contains_iff_mem])]
  have hpacket : (r.udpReceivedPackets.insert packet.getIndex packet)[r.udpReceivedMasterIndex]? =
      some packet := by
    rw [← hindex, Std.ExtTreeMap.getElem?_insert_self]
  simp only [Receiver.accept, hsize, Receiver.advance, hpacket, hfinal, if_true, hclosing,
    Bool.false_eq_true, if_false]
  exact hstop _ _ hgap

variable {n : Int} {c : Connection}

theorem Idle.replace {next master next' master' : Int} {d : Connection} (h : Idle next master c)
    (r : Receiver) (packets : List Packet)
    (hend : d.toEndpoint = { c.toEndpoint with toReceiver := r, udpConfirmationPackets := packets })
    (hdeleted : d.deleted = c.deleted)
    (hbyeBye : d.remainByeByeResendCount = c.remainByeByeResendCount)
    (hnext : r.tcpNextSendIndex = next') (hmaster : r.udpReceivedMasterIndex = master')
    (hfinal : r.udpReceivedFinalIndex = intMax)
    (hqueue : ∀ p ∈ packets, p.getType = .confirmation)
    (hkeys : ∀ key ∈ r.udpReceivedPackets, key < master') : Idle next' master' d := by
  constructor
  · rw [hend, h.config]
  · rw [hend, h.tcpConnected]
  · rw [hend, h.udpConnected]
  · rw [hdeleted, h.deleted]
  · rw [hbyeBye, h.byeBye]
  · rw [hend, hnext]
  · rw [hend, hmaster]
  · rw [hend, hfinal]
  · rw [hend, h.data]
  · rw [hend, h.sent]
  · rw [hend]
    exact hqueue
  · rw [hend]
    exact hkeys

theorem Idle.congr {next master : Int} {d : Connection} (h : Idle next master c)
    (hend : d.toEndpoint = c.toEndpoint) (hcountdown : d.toCountdown = c.toCountdown)
    (hdeleted : d.deleted = c.deleted) : Idle next master d :=
  h.replace c.toReceiver c.udpConfirmationPackets hend hdeleted
    (congrArg Countdown.remainByeByeResendCount hcountdown) h.next_eq h.master_eq h.final_eq h.queue
    h.keys

theorem Idle.closeIfUdpFinished {next master : Int} (h : Idle next master c) (hlt : next < master) :
    c.closeIfUdpFinished = c := by
  rcases c.closeIfUdpFinished_eq with ⟨-, heq⟩ | ⟨hfinished, -⟩
  · exact heq
  · have hle := (c.isUdpFinished_finishable hfinished h.udpConnected).2.2.2
    rw [h.next_eq, h.master_eq] at hle
    omega

theorem Idle.acceptsPacket (h : Idle n n c) (hlt : n < intMax) {packet : Packet}
    (htype : packet.getType = .data) (hindex : packet.getIndex = n) :
    c.toSession.acceptsPacket packet = true ∧ packet.getIndex ∉ c.udpReceivedPackets := by
  constructor
  · have hwindow : 0 ≤ Config.small.receiveWindow := by decide
    simp only [Session.acceptsPacket, hindex, htype, h.master_eq, h.final_eq, h.next_eq, h.config]
    simp [hlt, hwindow]
  · intro hmem
    have hkey := h.keys _ hmem
    omega

theorem Idle.accept (h : Idle n n c) (hlt : n < intMax) {packet : Packet}
    (htype : packet.getType = .data) (hindex : packet.getIndex = n) :
    Idle n (n + 1) { c with toReceiver := c.toReceiver.accept packet } ∧
      (c.toReceiver.accept packet).udpReceivedPackets[n]? = some packet := by
  have haccept := accept_next c.toReceiver packet (by rw [hindex, h.master_eq])
    (by rw [h.master_eq, h.final_eq]; exact hlt) (by rw [htype]; rfl)
    (by rw [h.master_eq]; exact h.keys)
  constructor
  · refine { h with next_eq := ?_, master_eq := ?_, final_eq := ?_, keys := ?_ }
    · simp only [haccept, h.next_eq]
    · simp only [haccept, h.master_eq]
    · simp only [haccept, h.final_eq]
    · simp only [haccept, Std.ExtTreeMap.mem_insert, compare_eq_iff_eq]
      rintro key (rfl | hmem)
      · omega
      · have hkey := h.keys key hmem
        omega
  · simp only [haccept, hindex, Std.ExtTreeMap.getElem?_insert_self]

theorem Idle.storePacket_eq (h : Idle n n c) (hlt : n < intMax) {packet : Packet}
    (htype : packet.getType = .data) (hindex : packet.getIndex = n) :
    c.storePacket packet =
      let armed := ({ c with toReceiver := c.toReceiver.accept packet } :
        Connection).setTimeRelativeNow .tcpWrite 0
      if armed.udpReceivedMasterIndex ≥ armed.udpReceivedFinalIndex then
        armed.setTimeRelativeNow .udpCloseWait (armed.udpResendUs * armed.udpResendCount +
          armed.udpResendUs)
      else armed := by
  let stored : Connection := { c with toReceiver := c.toReceiver.accept packet }
  have hstored : Idle n (n + 1) stored := (h.accept hlt htype hindex).1
  have hfake : stored.tcpWriteFake = stored := by
    simp only [tcpWriteFake, hstored.tcpConnected, if_true]
  have hpending : stored.tcpNextSendIndex < stored.udpReceivedMasterIndex := by
    rw [hstored.next_eq, hstored.master_eq]
    omega
  simp only [storePacket]
  rw [show ({ c with toReceiver := c.toReceiver.accept packet } : Connection).tcpWriteFake = stored
    from hfake, if_pos hpending]

theorem Idle.receive (h : Idle n n c) (h0 : 0 ≤ n) (hlt : n < intMax) :
    let d := ({ c with io := Io.steady 0 } : Connection).udpRead (emptyPacket n)
    Idle n (n + 1) d ∧ d.udpReceivedPackets[n]? = some (emptyPacket n) ∧
      d.remainConfirmationResendCount = 1 ∧ d.isEnabled .tcpWrite = true ∧
      d.isEnabled .buildConfirmations = true ∧
      (n + 1 = intMax → d.isEnabled .udpCloseWait = true) := by
  let b : Connection := { c with io := Io.steady 0 }
  have hb : Idle n n b := h.congr rfl rfl rfl
  have htype : (emptyPacket n).getType = .data := Packet.datagram_getType _ _ rfl
  have hindex : (emptyPacket n).getIndex = n :=
    Packet.datagram_getIndex _ _ h0 (by simp only [intMax] at hlt; omega)
  generalize emptyPacket n = packet at htype hindex ⊢
  obtain ⟨haccepts, hnew⟩ := hb.acceptsPacket hlt htype hindex
  let stored : Connection := { b with toReceiver := b.toReceiver.accept packet }
  obtain ⟨hstored, hthere⟩ : Idle n (n + 1) stored ∧ stored.udpReceivedPackets[n]? = some packet :=
    hb.accept hlt htype hindex
  let armed : Connection := stored.setTimeRelativeNow .tcpWrite 0
  have hstore : b.storePacket packet =
      if armed.udpReceivedMasterIndex ≥ armed.udpReceivedFinalIndex then
        armed.setTimeRelativeNow .udpCloseWait (armed.udpResendUs * armed.udpResendCount +
          armed.udpResendUs)
      else armed := hb.storePacket_eq hlt htype hindex
  have hframe := b.storePacket_frame packet
  have hend : (b.storePacket packet).toEndpoint = stored.toEndpoint := by
    rw [hstore]
    split <;> rfl
  have hrearmed : Idle n (n + 1) (b.storePacket packet).rearm := by
    exact hstored.replace stored.toReceiver stored.udpConfirmationPackets hend
      hframe.2.2.1 (show (b.storePacket packet).remainByeByeResendCount = _ by rw [hframe.1])
      hstored.next_eq
      hstored.master_eq hstored.final_eq hstored.queue hstored.keys
  have hread : b.udpRead packet = (b.storePacket packet).rearm := by
    simp only [udpRead, hb.udpConnected, Bool.not_true, Bool.false_eq_true, if_false, htype, haccepts,
      if_true, reduceCtorEq, udpReadPacket_eq, hnew]
    exact hrearmed.closeIfUdpFinished (by omega)
  have hconfig : (b.storePacket packet).toConfig = .small := by rw [hend, hstored.config]
  have hevent : ∀ name, name ≠ .buildConfirmations →
      (b.storePacket packet).rearm.isEnabled name = (b.storePacket packet).isEnabled name :=
    fun name hname => isEnabled_setTimeRelativeNow_of_ne _ _ _ hname
  have htimes : armed.toConfig = .small := hstored.config
  change Idle n (n + 1) (b.udpRead packet) ∧ _
  rw [hread]
  refine ⟨hrearmed, ?_, ?_, ?_, ?_, fun hlast => ?_⟩
  · change (b.storePacket packet).udpReceivedPackets[n]? = _
    rw [hend]
    exact hthere
  · change (b.storePacket packet).confirmationResendCount = 1
    rw [hconfig]
    rfl
  · rw [hevent _ (by decide), hstore]
    have harmed : armed.isEnabled .tcpWrite = true :=
      isEnabled_setTimeRelativeNow_self _ _ _ (le_refl 0)
    split
    · rw [isEnabled_setTimeRelativeNow_of_ne _ _ _ (by decide)]
      exact harmed
    · exact harmed
  · apply isEnabled_setTimeRelativeNow_self
    change 0 ≤ (b.storePacket packet).buildConfirmationsUs
    rw [hconfig]
    decide
  · rw [hevent _ (by decide), hstore, if_pos]
    · apply isEnabled_setTimeRelativeNow_self
      rw [htimes]
      decide
    · change stored.udpReceivedFinalIndex ≤ stored.udpReceivedMasterIndex
      rw [hstored.final_eq, hstored.master_eq, hlast]

theorem Idle.pass (h : Idle n (n + 1) c)
    (hpacket : c.udpReceivedPackets[n]? = some (emptyPacket n)) :
    let d := ({ c with io := Io.steady 0 } : Connection).raise .tcpWrite
    Idle (n + 1) (n + 1) d ∧ d.toCountdown = c.toCountdown ∧
      d.udpConfirmationPackets = c.udpConfirmationPackets ∧
      d.udpConfirmedMasterIndex = c.udpConfirmedMasterIndex ∧
      d.isEnabled .udpCloseWait = c.isEnabled .udpCloseWait := by
  let b : Connection := ({ c with io := Io.steady 0 } : Connection).disable .tcpWrite
  have hb : Idle n (n + 1) b := h.congr rfl rfl rfl
  have htype : (emptyPacket n).getType = .data := Packet.datagram_getType _ _ rfl
  have hsize : (emptyPacket n).getSize ≤ 0 := by
    rw [Packet.getSize_eq, emptyPacket, Packet.datagram_getData]
    rfl
  have hpacketB : b.udpReceivedPackets[b.tcpNextSendIndex]? = some (emptyPacket n) := by
    rw [hb.next_eq]
    exact hpacket
  generalize emptyPacket n = packet at htype hsize hpacketB
  have hfuel : b.tcpWriteFuel = 1 := by
    rw [tcpWriteFuel, hb.next_eq, hb.master_eq]
    omega
  have hpending : b.tcpNextSendIndex < b.udpReceivedMasterIndex := by
    rw [hb.next_eq, hb.master_eq]
    omega
  have hwrite : b.tcpWrite = { b with toReceiver := b.toReceiver.skip packet false } := by
    simp only [tcpWrite, hb.tcpConnected, Bool.not_true, Bool.false_eq_true, if_false, hfuel,
      tcpWriteLoop, hpending, if_true, hpacketB, hsize, decide_true, Bool.or_true, Bool.not_false,
      Bool.true_and, htype, PacketType.isClosing]
  change Idle (n + 1) (n + 1) b.tcpWrite ∧ _
  have hd : ({ c with io := Io.steady 0 } : Connection).raise .tcpWrite = b.tcpWrite := rfl
  rw [hd, hwrite]
  refine ⟨{ hb with next_eq := ?_, master_eq := ?_, final_eq := ?_, keys := ?_ }, rfl, rfl, ?_, ?_⟩
  · rw [Receiver.skip_tcpNextSendIndex, hb.next_eq]
  · rw [Receiver.skip_udpReceivedMasterIndex, hb.master_eq]
  · rw [Receiver.skip_udpReceivedFinalIndex, hb.final_eq]
  · intro key hkey
    by_cases hne : key = b.tcpNextSendIndex
    · rw [hb.next_eq] at hne
      omega
    · rw [Std.ExtTreeMap.mem_iff_isSome_getElem?, Receiver.skip_other _ _ _ hne,
        ← Std.ExtTreeMap.mem_iff_isSome_getElem?] at hkey
      exact hb.keys key hkey
  · exact Receiver.skip_udpConfirmedMasterIndex _ _ _
  · exact isEnabled_disable_of_ne { c with io := Io.steady 0 } _ (by decide)

theorem Idle.confirm {next master : Int} (h : Idle next master c) (hnext : next ≤ master) :
    let d := ({ c with io := Io.steady 0 } : Connection).raise .buildConfirmations
    Idle next master d ∧ d.udpConfirmedMasterIndex = master ∧
      (∀ index, next ≤ index → d.udpReceivedPackets[index]? = c.udpReceivedPackets[index]?) ∧
      d.isEnabled .udpCloseWait = c.isEnabled .udpCloseWait ∧
      d.isEnabled .tcpWrite = c.isEnabled .tcpWrite := by
  let b : Connection := ({ c with io := Io.steady 0 } : Connection).disable .buildConfirmations
  have hb : Idle next master b := h.congr rfl rfl rfl
  have hend := b.buildConfirmations_toEndpoint_eq hb.udpConnected
  have hcountdown := b.buildConfirmations_toCountdown hb.udpConnected
  obtain ⟨hdeleted, hevents⟩ := b.buildConfirmations_frame
  obtain ⟨hnextR, hmaster, hfinal, hconfirmed⟩ := Receiver.prune_indices b.settled
  have hdisabled : ∀ name, name ≠ .buildConfirmations → b.isEnabled name = c.isEnabled name :=
    fun name hname => isEnabled_disable_of_ne { c with io := Io.steady 0 } _ hname
  change Idle next master b.buildConfirmations ∧
    b.buildConfirmations.udpConfirmedMasterIndex = master ∧
    (∀ index, next ≤ index →
      b.buildConfirmations.udpReceivedPackets[index]? = c.udpReceivedPackets[index]?) ∧
    b.buildConfirmations.isEnabled .udpCloseWait = c.isEnabled .udpCloseWait ∧
    b.buildConfirmations.isEnabled .tcpWrite = c.isEnabled .tcpWrite
  generalize b.buildConfirmations = d at hend hcountdown hdeleted hevents ⊢
  have hkept : ∀ index, next ≤ index →
      d.udpReceivedPackets[index]? = c.udpReceivedPackets[index]? := by
    intro index hle
    rw [hend]
    apply Receiver.prune_of_le
    change b.tcpNextSendIndex ≤ index
    rw [hb.next_eq]
    exact hle
  refine ⟨?_, ?_, hkept, ?_, ?_⟩
  · apply hb.replace _ _ hend hdeleted (by rw [hcountdown]) (hnextR.trans hb.next_eq)
      (hmaster.trans hb.master_eq) (hfinal.trans hb.final_eq)
    · intro p hp
      rcases List.mem_append.mp hp with hp | hp
      · exact hb.queue p (List.mem_filter.mp hp).1
      · obtain ⟨payload, -, rfl⟩ := List.mem_map.mp hp
        exact Packet.encode_getType _ _ _ rfl
    · intro key hkey
      by_cases hle : next ≤ key
      · have hsame := hkept key hle
        rw [hend] at hsame
        rw [Std.ExtTreeMap.mem_iff_isSome_getElem?, hsame,
          ← Std.ExtTreeMap.mem_iff_isSome_getElem?] at hkey
        exact h.keys key hkey
      · omega
  · rw [hend]
    exact hconfirmed.trans hb.master_eq
  · rw [hevents _ (by decide) (by decide) (by decide), hdisabled _ (by decide)]
  · rw [hevents _ (by decide) (by decide) (by decide), hdisabled _ (by decide)]

theorem Idle.byeByeRead {next : Int} (h : Idle next intMax c) (hnext : next < intMax)
    (hwait : c.isEnabled .udpCloseWait = true) :
    let d := ({ c with io := Io.steady 0 } : Connection).udpRead (.datagram .byeBye intMax [])
    Idle next intMax d ∧ d.udpConfirmationPackets = [] ∧ d.remainConfirmationResendCount = 0 ∧
      d.udpConfirmedMasterIndex = c.udpConfirmedMasterIndex ∧
      d.udpReceivedPackets = c.udpReceivedPackets ∧ d.isEnabled .udpCloseWait = true ∧
      d.isEnabled .tcpWrite = c.isEnabled .tcpWrite := by
  let b : Connection := { c with io := Io.steady 0 }
  have hb : Idle next intMax b := h.congr rfl rfl rfl
  have htype : (Packet.datagram .byeBye intMax []).getType = .byeBye :=
    Packet.datagram_getType _ _ rfl
  have hindex : (Packet.datagram .byeBye intMax []).getIndex = intMax :=
    Packet.datagram_getIndex _ _ (by decide) (by decide)
  generalize Packet.datagram .byeBye intMax [] = packet at htype hindex ⊢
  have hrefused : b.toSession.acceptsPacket packet = false := by
    simp [Session.acceptsPacket, htype]
  have haccepts : b.toSession.acceptsByeBye packet = true := by
    simp [Session.acceptsByeBye, htype, hindex, hb.master_eq, hb.final_eq]
  have hend : (b.udpReadByeBye packet).toEndpoint = { b.toEndpoint with
      toReceiver := b.toReceiver.record (.byeBye packet.wire)
      udpConfirmationPackets := [] } := by
    have hfilter : b.udpConfirmationPackets.filter (·.getType ≠ .confirmation) = [] := by
      rw [List.filter_eq_nil_iff]
      exact fun p hp => by simp [hb.queue p hp]
    rw [← hfilter]
    simp only [udpReadByeBye]
    split <;> simp [dropConfirmations_toEndpoint]
  obtain ⟨hdeleted, -, hbyeBye, hevents⟩ := b.udpReadByeBye_frame packet
  have hcount : (b.udpReadByeBye packet).remainConfirmationResendCount = 0 := by
    simp only [udpReadByeBye]
    split
    all_goals
      simp only [setTimeRelativeNow_toCountdown, (dropConfirmations_frame _).1, disable_toCountdown]
  have harmed : (b.udpReadByeBye packet).isEnabled .udpCloseWait = true := by
    simp only [udpReadByeBye]
    split
    · apply isEnabled_setTimeRelativeNow_self
      simp only [dropConfirmations_toEndpoint, disable_toEndpoint, hb.config]
      decide
    · rename_i hclosed
      rw [(dropConfirmations_frame _).2.2.2 _ (by decide), isEnabled_disable_of_ne _ _ (by decide)]
        at hclosed
      exact absurd hwait hclosed
  have hidle : Idle next intMax (b.udpReadByeBye packet) :=
    hb.replace _ _ hend hdeleted hbyeBye hb.next_eq hb.master_eq hb.final_eq (by simp) hb.keys
  have hread : b.udpRead packet = b.udpReadByeBye packet := by
    simp only [udpRead, hb.udpConnected, Bool.not_true, Bool.false_eq_true, if_false, htype, hrefused,
      haccepts, if_true, reduceCtorEq]
    exact hidle.closeIfUdpFinished hnext
  change Idle next intMax (b.udpRead packet) ∧ _
  rw [show ({ c with io := Io.steady 0 } : Connection).udpRead packet = b.udpRead packet from rfl,
    hread]
  refine ⟨hidle, ?_, hcount, ?_, ?_, harmed, hevents _ (by decide) (by decide) (by decide)⟩
  · rw [hend]
  · rw [hend]
    rfl
  · rw [hend]
    rfl

/-- Hello is confirmed. -/
def helloRun : List Move :=
  [.udpRead (.datagram .confirmation 1 []) (Io.steady 0)]

theorem helloRun_isSome : (play Config.small helloRun).isSome = true := by
  decide +kernel

theorem idle_helloRun : Idle 0 0 ((play Config.small helloRun).get helloRun_isSome) := by
  constructor
  case sent =>
    rw [← Std.ExtTreeMap.isEmpty_iff]
    decide +kernel
  case keys =>
    have hempty : ((play Config.small helloRun).get helloRun_isSome).udpReceivedPackets.isEmpty =
        true := by
      decide +kernel
    rw [Std.ExtTreeMap.isEmpty_iff.mp hempty]
    simp
  all_goals decide +kernel

theorem exists_idle (n : Nat) (hlt : (n : Int) < intMax) :
    ∃ c, Runs.Reachable (Initial Config.small) step Runs.anyMove c ∧ Idle n n c := by
  induction n with
  | zero => exact ⟨_, reachable_of_play (Option.some_get helloRun_isSome).symm, idle_helloRun⟩
  | succ n ih =>
      obtain ⟨c, hreachable, hidle⟩ := ih (by omega)
      obtain ⟨hreceived, hpacket, -, hwrite, -⟩ := hidle.receive (Int.natCast_nonneg n) (by omega)
      obtain ⟨timeUs, hraise⟩ := exists_raise hreceived.deleted hwrite (Io.steady 0)
      have hread : c.step (.udpRead (emptyPacket n) (Io.steady 0)) =
          some (({ c with io := Io.steady 0 } : Connection).udpRead (emptyPacket n)) := by
        rw [step, if_neg (by rw [hidle.deleted]; decide)]
        rfl
      refine ⟨_, .next (.next hreachable trivial hread) trivial hraise, ?_⟩
      rw [Nat.cast_succ]
      exact (hreceived.pass hpacket).1

/-- With the last index there is, the stream ends while TCP still has a packet to take,
and then nothing polls any more. -/
theorem isUdpFinished_exhausted :
    ∃ c, Runs.Reachable (Initial Config.small) step Runs.anyMove c ∧ c.udpConnected = true ∧
      c.isUdpFinished = true := by
  obtain ⟨c₀, hreach₀, hidle₀⟩ := exists_idle (intMax - 1).toNat (by decide)
  have hn : (((intMax - 1).toNat : Nat) : Int) = intMax - 1 := by decide
  rw [hn] at hidle₀
  have hudpRead : ∀ {next master : Int} {c : Connection} (packet : Packet), Idle next master c →
      packet.wire = packet → c.step (.udpRead packet (Io.steady 0)) =
        some (({ c with io := Io.steady 0 } : Connection).udpRead packet) := by
    intro next master c packet hidle hwire
    rw [step, if_neg (by rw [hidle.deleted]; decide), hwire]
  -- the last packet
  obtain ⟨hidle₁, hpacket₁, -, hwrite₁, hbuild₁, hwait₁⟩ := hidle₀.receive (by decide) (by decide)
  have hreach₁ := hreach₀.next trivial (hudpRead (emptyPacket (intMax - 1)) hidle₀ rfl)
  rw [Int.sub_add_cancel] at hidle₁
  replace hwait₁ := hwait₁ (by decide)
  generalize ({ c₀ with io := Io.steady 0 } : Connection).udpRead (emptyPacket (intMax - 1)) = c₁
    at hidle₁ hpacket₁ hwrite₁ hbuild₁ hwait₁ hreach₁
  -- is confirmed
  obtain ⟨timeUs, hraise₁⟩ := exists_raise hidle₁.deleted hbuild₁ (Io.steady 0)
  obtain ⟨hidle₂, hmaster₂, hkept₂, hwait₂, hwrite₂⟩ := hidle₁.confirm (by decide)
  have hreach₂ := hreach₁.next trivial hraise₁
  have hpacket₂ := (hkept₂ (intMax - 1) (le_refl _)).trans hpacket₁
  generalize ({ c₁ with io := Io.steady 0 } : Connection).raise .buildConfirmations = c₂
    at hidle₂ hmaster₂ hpacket₂ hwait₂ hwrite₂ hreach₂
  -- and a ByeBye packet cancels the confirmation.
  obtain ⟨hidle₃, hqueue₃, hcount₃, hmaster₃, hkept₃, hwait₃, hwrite₃⟩ :=
    hidle₂.byeByeRead (by decide) (hwait₂.trans hwait₁)
  have hreach₃ := hreach₂.next trivial (hudpRead (.datagram .byeBye intMax []) hidle₂ rfl)
  generalize ({ c₂ with io := Io.steady 0 } : Connection).udpRead (.datagram .byeBye intMax []) = c₃
    at hidle₃ hqueue₃ hcount₃ hmaster₃ hkept₃ hwait₃ hwrite₃ hreach₃
  -- The last poll comes too early
  obtain ⟨timeUs, hraise₃⟩ := exists_raise hidle₃.deleted hwait₃ (Io.steady 0)
  let c₄ : Connection := ({ c₃ with io := Io.steady 0 } : Connection).disable .udpCloseWait
  have hidle₄ : Idle (intMax - 1) intMax c₄ := hidle₃.congr rfl rfl rfl
  have hpoll : ({ c₃ with io := Io.steady 0 } : Connection).raise .udpCloseWait = c₄ :=
    hidle₄.closeIfUdpFinished (by decide)
  have hreach₄ := hreach₃.next trivial (hpoll ▸ hraise₃)
  -- for the packet that TCP takes after it.
  have hwrite₄ : c₄.isEnabled .tcpWrite = true := by
    have hsame : c₄.isEnabled .tcpWrite = c₃.isEnabled .tcpWrite :=
      isEnabled_disable_of_ne { c₃ with io := Io.steady 0 } _ (by decide)
    rw [hsame, hwrite₃, hwrite₂, hwrite₁]
  have hpacket₄ : c₄.udpReceivedPackets[intMax - 1]? = some (emptyPacket (intMax - 1)) := by
    change c₃.udpReceivedPackets[intMax - 1]? = _
    rw [hkept₃, hpacket₂]
  obtain ⟨timeUs, hraise₄⟩ := exists_raise hidle₄.deleted hwrite₄ (Io.steady 0)
  obtain ⟨hidle₅, hcountdown₅, hqueue₅, hmaster₅, hwait₅⟩ := hidle₄.pass hpacket₄
  refine ⟨_, hreach₄.next trivial hraise₄, hidle₅.udpConnected, ?_⟩
  rw [isUdpFinished_iff _ hidle₅.udpConnected]
  refine ⟨⟨?_, ?_, ?_, ?_⟩, ?_, ?_, ?_⟩
  · simp only [Session.isNoMoreDataWillBeSent, hidle₅.final_eq, hidle₅.master_eq, hidle₅.data,
      hidle₅.sent]
    simp
  · rw [hqueue₅]
    exact hqueue₃
  · rw [hmaster₅, hidle₅.master_eq]
    exact le_of_eq (hmaster₃.trans hmaster₂).symm
  · rw [hidle₅.master_eq, hidle₅.next_eq]
  · rw [hcountdown₅]
    exact le_of_eq hcount₃
  · rw [hidle₅.byeBye]
  · rw [hwait₅]
    exact isEnabled_disable_self _ _

end Exhausting

end Connection

end IceTunnel
