import IceTunnel.Accounting

namespace IceTunnel

open Totals

namespace Receiver

variable {r : Receiver} {p : Packet}

theorem consume_total (fake : Bool) {q : Packet} (hq : r.udpReceivedPackets[r.tcpNextSendIndex]? = some q) :
    total Packet.getSize (r.consume p fake).udpReceivedPackets =
      total Packet.getSize r.udpReceivedPackets - q.getSize +
        if p.confirmed then 0 else p.getSize := by
  simp only [consume, Packet.isComplete, Bool.true_and]
  split
  · rw [total_erase, hq, weigh_some, add_zero]
  · rw [total_insert, hq, weigh_some]
    rfl

/-- The counter is what an `int` keeps of the size of the packets in the buffer. -/
def Buffered (r : Receiver) : Prop :=
  r.udpReceiveBufferSize = .ofInt (total Packet.getSize r.udpReceivedPackets)

theorem Buffered.size_add (h : r.Buffered) {size sum : Int}
    (hsum : sum = total Packet.getSize r.udpReceivedPackets + size) :
    r.udpReceiveBufferSize + .ofInt size = .ofInt sum := by
  rw [show r.udpReceiveBufferSize = _ from h, hsum, Int32.ofInt_add]

theorem Buffered.size_sub (h : r.Buffered) {size sum : Int}
    (hsum : sum = total Packet.getSize r.udpReceivedPackets - size) :
    r.udpReceiveBufferSize - .ofInt size = .ofInt sum := by
  rw [show r.udpReceiveBufferSize = _ from h, hsum, Int32.ofInt_sub]

theorem Buffered.size_toInt (h : r.Buffered)
    (hlt : total Packet.getSize r.udpReceivedPackets < 2 ^ 31) :
    r.udpReceiveBufferSize.toInt = total Packet.getSize r.udpReceivedPackets := by
  have hnonneg := total_getSize_nonneg r.udpReceivedPackets
  rw [show r.udpReceiveBufferSize = _ from h]
  exact Int32.toInt_ofInt_of_le (by omega) hlt

theorem Buffered.skip (h : r.Buffered) (fake : Bool)
    (hp : r.udpReceivedPackets[r.tcpNextSendIndex]? = some p) : (r.skip p fake).Buffered := by
  have htotal := consume_total (p := p) fake hp
  rw [Buffered]
  cases hconfirmed : p.confirmed with
  | false =>
      simp only [hconfirmed, Bool.false_eq_true, if_false, sub_add_cancel] at htotal
      simp only [Receiver.skip, hconfirmed, Bool.false_eq_true, if_false]
      rw [htotal]
      exact h
  | true =>
      simp only [hconfirmed, if_true] at htotal
      have hskip : (r.skip p fake).udpReceivedPackets = (r.consume p fake).udpReceivedPackets := by
        simp only [Receiver.skip, hconfirmed, if_true]
        rfl
      rw [hskip, htotal]
      simp only [Receiver.skip, hconfirmed, if_true, Receiver.consume]
      exact h.size_sub (by omega)

/-- The packet after `tcpSocket->write` has accepted `size` bytes of it. -/
def takeBytes (r : Receiver) (packet : Packet) (size : Nat) : Receiver :=
  { r with
    udpReceivedPackets := r.udpReceivedPackets.insert r.tcpNextSendIndex (packet.erasePayload size)
    udpReceiveBufferSize := r.udpReceiveBufferSize - .ofInt size
    receiveHistory := r.receiveHistory ++ [.write (packet.getData.take size)] }

theorem write_eq (packet : Packet) (size : Nat) : r.write packet size =
    if (packet.erasePayload size).getSize ≤ 0 then
      (r.takeBytes packet size).consume (packet.erasePayload size) false
    else r.takeBytes packet size := rfl

theorem Buffered.write (h : r.Buffered) {size : Nat} (hpos : 0 < size)
    (hsize : size ≤ p.getData.length)
    (hp : r.udpReceivedPackets[r.tcpNextSendIndex]? = some p) : (r.write p size).Buffered := by
  have hrest : (p.erasePayload size).getSize = p.getSize - size := by
    rw [Packet.getSize_eq, Packet.getSize_eq, Packet.erasePayload_getData hpos hsize,
      List.length_drop]
    omega
  have hnonneg : 0 ≤ (p.erasePayload size).getSize := by
    rw [Packet.getSize_eq]
    exact Int.natCast_nonneg _
  have hwritten : (r.takeBytes p size).Buffered := by
    apply h.size_sub
    simp only [takeBytes, total_insert, hp, weigh_some, hrest]
    omega
  rw [write_eq]
  split
  · rename_i hempty
    have htotal := consume_total (r := r.takeBytes p size) (p := p.erasePayload size) false
      Std.ExtTreeMap.getElem?_insert_self
    have hsame : ((r.takeBytes p size).consume (p.erasePayload size) false).udpReceiveBufferSize =
        (r.takeBytes p size).udpReceiveBufferSize := rfl
    rw [Buffered] at hwritten ⊢
    rw [hsame, hwritten, htotal]
    congr 1
    split <;> omega
  · exact hwritten

theorem Buffered.pruneKey (h : r.Buffered) (key : Int) : (r.pruneKey key).Buffered := by
  simp only [Receiver.pruneKey]
  split
  · exact h
  · rename_i packet hpacket
    split
    · apply h.size_sub
      simp only [total_erase, hpacket, weigh_some]
      rfl
    · refine h.trans (congrArg Int32.ofInt ?_)
      simp only [total_insert, hpacket, weigh_some]
      change _ = _ - packet.getSize + packet.getSize
      omega

theorem Buffered.accept (h : r.Buffered) (hnew : p.getIndex ∉ r.udpReceivedPackets) :
    (r.accept p).Buffered := by
  obtain ⟨masterIndex, finalIndex, heq, -⟩ := r.accept_eq p
  rw [heq]
  apply h.size_add
  simp only [total_insert, Std.ExtTreeMap.getElem?_eq_none hnew, weigh_none]
  omega

theorem mem_of_mem_skip (fake : Bool) (hp : r.udpReceivedPackets[r.tcpNextSendIndex]? = some p)
    {index : Int} (h : index ∈ (r.skip p fake).udpReceivedPackets) : index ∈ r.udpReceivedPackets := by
  by_cases hindex : index = r.tcpNextSendIndex
  · rw [hindex, Std.ExtTreeMap.mem_iff_isSome_getElem?, hp]
    rfl
  · rwa [Std.ExtTreeMap.mem_iff_isSome_getElem?, skip_other _ _ _ hindex,
      ← Std.ExtTreeMap.mem_iff_isSome_getElem?] at h

theorem mem_of_mem_write (size : Nat) (hp : r.udpReceivedPackets[r.tcpNextSendIndex]? = some p)
    {index : Int} (h : index ∈ (r.write p size).udpReceivedPackets) :
    index ∈ r.udpReceivedPackets := by
  by_cases hindex : index = r.tcpNextSendIndex
  · rw [hindex, Std.ExtTreeMap.mem_iff_isSome_getElem?, hp]
    rfl
  · have hother : (r.takeBytes p size).udpReceivedPackets[index]? = r.udpReceivedPackets[index]? := by
      simp [takeBytes, Std.ExtTreeMap.getElem?_insert, Ne.symm hindex]
    rw [Std.ExtTreeMap.mem_iff_isSome_getElem?] at h ⊢
    rw [write_eq] at h
    split at h
    · rwa [consume_other (r.takeBytes p size) _ _ hindex, hother] at h
    · rwa [hother] at h

theorem mem_of_mem_pruneKey {key index : Int} (h : index ∈ (r.pruneKey key).udpReceivedPackets) :
    index ∈ r.udpReceivedPackets := by
  by_cases hindex : index = key
  · simp only [pruneKey] at h
    split at h
    · exact h
    · rename_i packet hpacket
      rw [hindex, Std.ExtTreeMap.mem_iff_isSome_getElem?, hpacket]
      rfl
  · rwa [Std.ExtTreeMap.mem_iff_isSome_getElem?, pruneKey_other _ hindex,
      ← Std.ExtTreeMap.mem_iff_isSome_getElem?] at h

/-- A packet that TCP has goes with the round of `buildConfirmations` that confirms it. -/
theorem foldl_pruneKey_none {keys : List Int} {index : Int}
    (hsent : ∀ packet, r.udpReceivedPackets[index]? = some packet → packet.sent = true)
    (hmaster : index < r.udpReceivedMasterIndex) (hmem : index ∈ keys ∨
      r.udpReceivedPackets[index]? = none) :
    (keys.foldl pruneKey r).udpReceivedPackets[index]? = none := by
  induction keys generalizing r with
  | nil => simpa using hmem
  | cons key keys ih =>
      rw [List.foldl_cons]
      by_cases hkey : index = key
      · have hnone : (r.pruneKey key).udpReceivedPackets[index]? = none := by
          subst hkey
          simp only [pruneKey]
          split
          · assumption
          · rename_i packet hpacket
            simp only [Packet.isComplete, hsent packet hpacket, hmaster, decide_true, Bool.and_true,
              if_true, Std.ExtTreeMap.getElem?_erase_self]
        apply ih
        · rintro packet hpacket
          rw [hnone] at hpacket
          cases hpacket
        · rwa [pruneKey_udpReceivedMasterIndex]
        · exact .inr hnone
      · have hother := r.pruneKey_other hkey
        apply ih
        · rw [hother]
          exact hsent
        · rwa [pruneKey_udpReceivedMasterIndex]
        · rcases hmem with hmem | hnone
          · exact .inl ((List.mem_cons.mp hmem).resolve_left hkey)
          · exact .inr (hother.trans hnone)

theorem not_mem_prune {index : Int} (hnext : index < r.tcpNextSendIndex)
    (hmaster : r.tcpNextSendIndex ≤ r.udpReceivedMasterIndex)
    (hsent : ∀ packet, r.udpReceivedPackets[index]? = some packet → packet.sent = true) :
    index ∉ r.prune.udpReceivedPackets := by
  have hnone : r.prune.udpReceivedPackets[index]? = none := by
    apply foldl_pruneKey_none hsent
    · omega
    · by_cases hmem : index ∈ r.udpReceivedPackets
      · exact .inl ((SortedKeys.mem_takeWhile_keys _).mpr ⟨hnext, hmem⟩)
      · exact .inr (Std.ExtTreeMap.getElem?_eq_none hmem)
  rw [Std.ExtTreeMap.mem_iff_isSome_getElem?, hnone]
  exact Bool.false_ne_true

end Receiver

namespace Session

/-- No packet is buffered that lies too far ahead of TCP. -/
def InWindow (s : Session) : Prop :=
  ∀ index ∈ s.udpReceivedPackets, index ≤ s.tcpNextSendIndex + s.receiveWindow

theorem InWindow.of_receiver {s : Session} (h : s.InWindow) {r : Receiver}
    (hnext : s.tcpNextSendIndex ≤ r.tcpNextSendIndex)
    (hmem : ∀ index ∈ r.udpReceivedPackets, index ∈ s.udpReceivedPackets) :
    InWindow { s with toReceiver := r } := by
  intro index hindex
  have hle := h index (hmem index hindex)
  change index ≤ r.tcpNextSendIndex + s.receiveWindow
  omega

end Session

namespace Protocol

variable {N : Packet → Prop} {e e' : Endpoint}

theorem buffered_step (h : e.Buffered) (hstep : Step N e e') : e'.Buffered := by
  cases hstep with
  | skip packet fake hnext => exact h.skip fake hnext.2
  | skipClosing packet hnext => exact h.skip false hnext.2
  | skipClosingUnused packet hnext => exact h.skip false hnext.2
  | write packet size hnext htcp htype hpos hsize => exact h.write hpos hsize hnext.2
  | accept packet hnet hwire hudp haccepts hnew => exact h.accept hnew
  | prune index => exact h.pruneKey index
  | _ => exact h

theorem inWindow_step (h : e.InWindow) (hstep : Step N e e') : e'.InWindow := by
  have hnext := tcpNextSendIndex_le hstep
  cases hstep with
  | skip packet fake hpacket =>
      exact h.of_receiver hnext fun _ => Receiver.mem_of_mem_skip fake hpacket.2
  | skipClosing packet hpacket =>
      exact h.of_receiver hnext fun _ => Receiver.mem_of_mem_skip false hpacket.2
  | skipClosingUnused packet hpacket =>
      exact h.of_receiver hnext fun _ => Receiver.mem_of_mem_skip false hpacket.2
  | write packet size hpacket =>
      exact h.of_receiver hnext fun _ => Receiver.mem_of_mem_write size hpacket.2
  | prune index => exact h.of_receiver hnext fun _ => Receiver.mem_of_mem_pruneKey
  | accept packet hnet hwire hudp haccepts hnew =>
      obtain ⟨-, -, hwindow, -⟩ := Session.acceptsPacket_eq_true haccepts
      obtain ⟨masterIndex, finalIndex, heq, -⟩ := e.toReceiver.accept_eq packet
      intro index hindex
      simp only [heq, Std.ExtTreeMap.mem_insert, compare_eq_iff_eq] at hindex
      have hsame : (e.toReceiver.accept packet).tcpNextSendIndex = e.tcpNextSendIndex := by
        rw [heq]
      change index ≤ (e.toReceiver.accept packet).tcpNextSendIndex + _
      rw [hsame]
      rcases hindex with rfl | hindex
      · change packet.getIndex ≤ e.tcpNextSendIndex + e.receiveWindow
        omega
      · exact h index hindex
  | _ => exact h

theorem udpConfirmedMasterIndex_le (hsound : e.Sound) (hstep : Step N e e') :
    e.udpConfirmedMasterIndex ≤ e'.udpConfirmedMasterIndex := by
  cases hstep with
  | settle payload => exact hsound.receiving.confirmed_le
  | accept packet =>
      obtain ⟨masterIndex, finalIndex, heq, -⟩ := e.toReceiver.accept_eq packet
      simp only [heq]
      exact le_refl _
  | skip packet fake => simp
  | skipClosing packet => simp
  | skipClosingUnused packet => simp
  | write packet size => simp
  | prune index => simp
  | _ => exact le_refl _

end Protocol

namespace Connection

/-- What the receiving half looks like, whatever has arrived. -/
structure Receiving (c : Connection) : Prop where
  next_le : c.tcpNextSendIndex ≤ c.udpReceivedMasterIndex
  master_le : c.udpReceivedMasterIndex ≤ c.udpReceivedFinalIndex
  confirmed_le : c.udpConfirmedMasterIndex ≤ c.udpReceivedMasterIndex
  filled : ∀ index : Int, c.tcpNextSendIndex ≤ index → index < c.udpReceivedMasterIndex →
    index ∈ c.udpReceivedPackets
  gap : c.udpReceivedMasterIndex ∈ c.udpReceivedPackets →
    c.udpReceivedMasterIndex = c.udpReceivedFinalIndex
  numbered : ∀ (index : Int) (p : Packet), c.udpReceivedPackets[index]? = some p →
    0 ≤ index ∧ p.getIndex = index ∧ (p.sent = true ↔ index < c.tcpNextSendIndex) ∧
      index ≤ c.tcpNextSendIndex + c.receiveWindow
  window_eq : -2 ^ 30 ≤ c.udpMaxReceiveBufferSize → c.udpMaxReceiveBufferSize < 2 ^ 30 →
    c.receiveWindow = (2 * c.udpMaxReceiveBufferSize).tdiv c.udpSendPacketSize
  size_eq : c.udpReceiveBufferSize = .ofInt (total Packet.getSize c.udpReceivedPackets)
  size_toInt : total Packet.getSize c.udpReceivedPackets < 2 ^ 31 →
    c.udpReceiveBufferSize.toInt = total Packet.getSize c.udpReceivedPackets

/-- What a move does to the indices. -/
structure Advances (c d : Connection) : Prop where
  master_le : c.udpReceivedMasterIndex ≤ d.udpReceivedMasterIndex
  confirmed_le : c.udpConfirmedMasterIndex ≤ d.udpConfirmedMasterIndex
  next_le : c.tcpNextSendIndex ≤ d.tcpNextSendIndex

variable {config : Config} {c d : Connection}

theorem buffered (h : Runs.Reachable (Initial config) step Runs.anyMove c) : c.Buffered := by
  refine h.invariant_of_refines (f := toEndpoint) (I := fun e => e.Buffered) ?_
    (fun _ _ _ _ _ hm => step_refines hm fun _ _ => trivial) fun _ _ => Protocol.buffered_step
  rintro c ⟨intervalUs, summaryUs, io, rfl⟩
  rw [new_toEndpoint]
  exact congrArg Int32.ofInt (total_empty _).symm

theorem inWindow (h : Runs.Reachable (Initial config) step Runs.anyMove c) : c.InWindow := by
  refine h.invariant_of_refines (f := toEndpoint) (I := fun e => e.InWindow) ?_
    (fun _ _ _ _ _ hm => step_refines hm fun _ _ => trivial) fun _ _ => Protocol.inWindow_step
  rintro c ⟨intervalUs, summaryUs, io, rfl⟩
  rw [new_toEndpoint]
  intro index hindex
  simp [Endpoint.initial, Endpoint.blank] at hindex

theorem receiving (h : Runs.Reachable (Initial config) step Runs.anyMove c) : c.Receiving := by
  have hsound := (sound h).receiving
  refine ⟨hsound.next_le, hsound.master_le, hsound.confirmed_le, hsound.filled, hsound.gap,
    fun index p hp => ?_, Config.receiveWindow_of_lt, buffered h, (buffered h).size_toInt⟩
  have hmem : index ∈ c.udpReceivedPackets := by
    rw [Std.ExtTreeMap.mem_iff_isSome_getElem?, hp]
    rfl
  obtain ⟨q, -, hindex, hsame, -⟩ := hsound.key_accepted index p hp
  exact ⟨(Session.key_bounds hsound hmem).1, hsame.symm.trans hindex, hsound.key_sent index p hp,
    inWindow h index hmem⟩

theorem advances (h : c.toEndpoint.Sound) {m : Move} (hm : c.step m = some d) : c.Advances d := by
  have hsteps : Protocol.Steps (fun _ => True) c.toEndpoint d.toEndpoint :=
    step_refines hm fun _ _ => trivial
  have hkeep : ∀ x y : Endpoint, x.Sound → Protocol.Step (fun _ => True) x y → y.Sound :=
    fun _ _ hx hxy => hx.step hxy
  constructor
  · exact Runs.chain_le (fun e : Endpoint => e.udpReceivedMasterIndex) hkeep
      (fun _ _ _ => Protocol.udpReceivedMasterIndex_le) hsteps h
  · exact Runs.chain_le (fun e : Endpoint => e.udpConfirmedMasterIndex) hkeep
      (fun _ _ => Protocol.udpConfirmedMasterIndex_le) hsteps h
  · exact Runs.chain_le (fun e : Endpoint => e.tcpNextSendIndex) hkeep
      (fun _ _ _ => Protocol.tcpNextSendIndex_le) hsteps h

theorem handle_unconfirming (event : EventName) (plannedTimeUs : Int)
    (h : c.udpConnected = false → c.isEnabled .buildConfirmations = false)
    (hudp : (c.handle event plannedTimeUs).udpConnected = false) :
    (c.handle event plannedTimeUs).isEnabled .buildConfirmations = false := by
  cases hopen : c.udpConnected with
  | true =>
      obtain ⟨e, he, heq⟩ := c.handle_udpClosed event plannedTimeUs hopen hudp
      rw [heq]
      exact e.isEnabled_buildConfirmations_udpClose he
  | false =>
      refine Eq.trans ?_ (h hopen)
      cases event with
      | tcpRead => exact c.tcpRead_frame.2.2 _ nofun nofun nofun
      | tcpWrite => exact c.tcpWrite_frame.2.2 _ nofun nofun nofun nofun nofun
      | tcpClose =>
          exact (c.tcpClose_frame c.io.tcpWasError).2.2 _ nofun nofun nofun nofun nofun
      | buildUdpPackets => exact (c.buildUdpPackets_frame true).2.2 _ nofun nofun nofun
      | udpCloseWait =>
          rcases c.closeIfUdpFinished_eq with ⟨-, heq⟩ | ⟨-, finished, heq⟩
          · rw [handle, heq]
          · simp only [handle, heq, udpClose, hopen, Bool.not_false, if_true]
            rfl
      | close => rfl
      | udpWrite => simp only [handle, udpWrite, hopen, Bool.not_false, if_true]
      | udpClose => simp only [handle, udpClose, hopen, Bool.not_false, if_true]
      | buildConfirmations =>
          simp only [handle, buildConfirmations, hopen, Bool.not_false, if_true]
      | buildByeBye => simp only [handle, buildByeBye, hopen, Bool.not_false, if_true]
      | udpResend => simp only [handle, udpResend, hopen, Bool.not_false, if_true]

theorem unconfirming (h : Runs.Reachable (Initial config) step Runs.anyMove c)
    (hudp : c.udpConnected = false) : c.isEnabled .buildConfirmations = false := by
  revert hudp
  refine h.invariant (I := fun c => c.udpConnected = false →
    c.isEnabled .buildConfirmations = false) ?_ ?_
  · rintro c ⟨intervalUs, summaryUs, io, rfl⟩ -
    exact isEnabled_new config intervalUs summaryUs io nofun nofun nofun nofun
  · rintro c m d hc - hm hudp
    cases m with
    | «raise» event timeUs io =>
        obtain ⟨-, -, -, rfl⟩ := of_step_raise hm
        refine handle_unconfirming event _ (fun hopen => ?_) hudp
        by_cases hevent : event = .buildConfirmations
        · rw [hevent]
          exact isEnabled_disable_self _ _
        · rw [isEnabled_disable_of_ne _ _ (Ne.symm hevent)]
          exact hc hopen
    | udpRead packet io =>
        obtain ⟨-, rfl⟩ := of_step_udpRead hm
        cases hopen : c.udpConnected with
        | true =>
            obtain ⟨e, he, heq⟩ := udpRead_udpClosed (c := { c with io := io }) packet.wire hopen hudp
            rw [heq]
            exact e.isEnabled_buildConfirmations_udpClose he
        | false =>
            simp only [udpRead, hopen, Bool.not_false, if_true]
            exact hc hopen

theorem buildConfirmations_pruned (h : c.toReceiver.WellFormed) (hudp : c.udpConnected = true)
    {index : Int} (hindex : index ∈ c.buildConfirmations.udpReceivedPackets) :
    c.buildConfirmations.tcpNextSendIndex ≤ index := by
  obtain ⟨r, packets, hend, -, hnext, -⟩ := c.buildConfirmations_toEndpoint hudp
  have hnextD : c.buildConfirmations.tcpNextSendIndex = c.tcpNextSendIndex := by rw [hend, hnext]
  rw [hnextD, ← not_lt]
  rw [buildConfirmations_toEndpoint_eq c hudp] at hindex
  intro hlt
  exact Receiver.not_mem_prune (r := c.settled) hlt h.next_le
    (fun packet hpacket => (h.key_sent index packet hpacket).mpr hlt) hindex

/-- The receiving half keeps its shape in every run, and its indices never decrease. -/
theorem receiving_and_advances (h : Runs.Reachable (Initial config) step Runs.anyMove c) :
    c.Receiving ∧ ∀ (m : Move) (d : Connection), c.step m = some d → c.Advances d ∧
      ∀ timeUs io, m = .raise .buildConfirmations timeUs io →
        ∀ index ∈ d.udpReceivedPackets, d.tcpNextSendIndex ≤ index := by
  refine ⟨receiving h, fun m d hm => ⟨advances (sound h) hm, ?_⟩⟩
  rintro timeUs io rfl index hindex
  obtain ⟨-, henabled, -, rfl⟩ := of_step_raise hm
  have hudp : c.udpConnected = true := by
    by_contra hclosed
    rw [Bool.not_eq_true] at hclosed
    rw [unconfirming h hclosed] at henabled
    cases henabled
  exact buildConfirmations_pruned
    (c := ({ c with io := io } : Connection).disable .buildConfirmations) (sound h).receiving hudp
    hindex

theorem receiving_and_advances_readingRun :
    let c := (play Config.small readingRun).get readingRun_isSome
    c.Receiving ∧ ∀ (m : Move) (d : Connection), c.step m = some d → c.Advances d :=
  have h := receiving_and_advances (reachable_of_play (Option.some_get readingRun_isSome).symm)
  ⟨h.1, fun m d hm => (h.2 m d hm).1⟩

section Flooding

/-- A buffer of 32 MiB is allowed, in which 65536 packets may be ahead of TCP. -/
def roomy : Config :=
  { Config.small with udpSendPacketSize := 1024, udpMaxReceiveBufferSize := 33554432 }

/-- Hello is missing, and the first `n` Data packets after it wait, each as large as a datagram
can be. -/
structure Flooded (n : Nat) (c : Connection) : Prop where
  reachable : Runs.Reachable (Initial roomy) step Runs.anyMove c
  tcpConnected : c.tcpConnected = true
  udpConnected : c.udpConnected = true
  deleted : c.deleted = false
  next_eq : c.tcpNextSendIndex = 0
  master_eq : c.udpReceivedMasterIndex = 0
  final_eq : c.udpReceivedFinalIndex = intMax
  keys : ∀ key ∈ c.udpReceivedPackets, 1 ≤ key ∧ key ≤ n
  total_eq : total Packet.getSize c.udpReceivedPackets = 65498 * n

theorem exists_large {index : Int} (hpos : 0 ≤ index) (hlt : index < 2147483648) :
    ∃ p : Packet, p.wire = p ∧ p.getType = .data ∧ p.getIndex = index ∧ p.getSize = 65498 := by
  obtain ⟨bytes, hbytes⟩ : ∃ bytes : List UInt8, bytes.length = 65498 :=
    ⟨List.replicate 65498 7, List.length_replicate⟩
  refine ⟨Packet.datagram .data index bytes, Packet.wire_wire _,
    Packet.datagram_getType _ _ rfl, Packet.datagram_getIndex _ _ hpos hlt, ?_⟩
  rw [Packet.getSize_eq, Packet.datagram_getData, hbytes]
  rfl

theorem Flooded.not_mem {n : Nat} (h : Flooded n c) : (n : Int) + 1 ∉ c.udpReceivedPackets := by
  intro hmem
  have hbounds := h.keys _ hmem
  omega

theorem Flooded.acceptsPacket {n : Nat} (h : Flooded n c) (hn : n < 65536) {p : Packet}
    (htype : p.getType = .data) (hindex : p.getIndex = n + 1) :
    c.toSession.acceptsPacket p = true := by
  have hwindow : c.receiveWindow = 65536 := by
    rw [show c.toConfig = roomy from toConfig_eq h.reachable]
    decide
  simp only [Session.acceptsPacket, hwindow, hindex, htype, h.next_eq, h.master_eq, h.final_eq,
    intMax, Bool.and_eq_true, Bool.or_eq_true, decide_eq_true_eq]
  refine ⟨⟨⟨?_, ?_⟩, ?_⟩, .inr trivial⟩ <;> omega

theorem Flooded.step_eq {n : Nat} (h : Flooded n c) (hn : n < 65536) {p : Packet}
    (hwire : p.wire = p) (htype : p.getType = .data) (hindex : p.getIndex = n + 1) :
    c.step (.udpRead p (Io.steady 0)) =
      some (({ c with io := Io.steady 0 } : Connection).udpReadPacket p) := by
  let a : Connection := { c with io := Io.steady 0 }
  have hudp : a.udpConnected = true := h.udpConnected
  have haccepts : a.toSession.acceptsPacket p = true := h.acceptsPacket hn htype hindex
  obtain ⟨hend, hremain⟩ := udpReadPacket_of_open (c := a) h.tcpConnected (hindex ▸ h.not_mem)
  have hread : a.udpRead p.wire = a.udpReadPacket p := by
    rw [hwire, udpRead_of_numbered hudp (by rw [htype]; rfl), if_pos haccepts]
    apply closeIfUdpFinished_of_unfinished
    apply isUdpFinished_of_remain
    · rw [hend]
      exact hudp
    · rw [hremain, show a.toConfig = roomy from toConfig_eq (c := c) h.reachable]
      decide
  rw [← hread, step, if_neg (by rw [h.deleted]; decide)]

theorem Flooded.receive {n : Nat} (h : Flooded n c) (hn : n < 65536) : ∃ d, Flooded (n + 1) d := by
  obtain ⟨p, hwire, htype, hindex, hsize⟩ :=
    exists_large (by omega : (0 : Int) ≤ n + 1) (by omega)
  let a : Connection := { c with io := Io.steady 0 }
  have hnew : p.getIndex ∉ a.udpReceivedPackets := hindex ▸ h.not_mem
  have hgap : a.udpReceivedMasterIndex ∉ a.udpReceivedPackets.insert p.getIndex p := by
    have hmaster : a.udpReceivedMasterIndex = 0 := h.master_eq
    rw [Std.ExtTreeMap.mem_insert, compare_eq_iff_eq]
    rintro (hself | hmem)
    · omega
    · have hbounds := h.keys _ hmem
      omega
  have haccept : a.toReceiver.accept p = { a.toReceiver with
      udpReceivedPackets := a.udpReceivedPackets.insert p.getIndex p
      udpReceiveBufferSize := a.udpReceiveBufferSize + .ofInt p.getSize
      receiveHistory := a.receiveHistory ++ [.accept p.wire] } :=
    Receiver.advance_of_gap hgap _
  obtain ⟨hend, -⟩ := udpReadPacket_of_open (c := a) h.tcpConnected hnew
  refine ⟨a.udpReadPacket p, ?_⟩
  constructor
  case reachable => exact h.reachable.next trivial (h.step_eq hn hwire htype hindex)
  case deleted =>
    rw [udpReadPacket_eq, if_neg hnew]
    exact (a.storePacket_frame p).2.2.1.trans h.deleted
  all_goals rw [hend]
  case tcpConnected => exact h.tcpConnected
  case udpConnected => exact h.udpConnected
  all_goals rw [haccept]
  case next_eq => exact h.next_eq
  case master_eq => exact h.master_eq
  case final_eq => exact h.final_eq
  case keys =>
    intro key hkey
    rw [Std.ExtTreeMap.mem_insert, compare_eq_iff_eq] at hkey
    obtain hself | hkey := hkey
    · omega
    · have hbounds := h.keys key hkey
      omega
  case total_eq =>
    have htotal : total Packet.getSize a.udpReceivedPackets = 65498 * n := h.total_eq
    simp only [total_insert, Std.ExtTreeMap.getElem?_eq_none hnew, weigh_none, hsize]
    omega

theorem flooded_zero : Flooded 0 (fresh roomy) := by
  have hempty : (fresh roomy).udpReceivedPackets = ∅ := by
    rw [← Std.ExtTreeMap.isEmpty_iff]
    decide +kernel
  constructor
  case reachable => exact .start ⟨10, 0, Io.steady 0, rfl⟩
  case keys => simp [hempty]
  case total_eq => simp [hempty]
  all_goals decide +kernel

theorem exists_flooded (n : Nat) (hn : n ≤ 65536) : ∃ c, Flooded n c := by
  induction n with
  | zero => exact ⟨_, flooded_zero⟩
  | succ n ih =>
      obtain ⟨c, hc⟩ := ih (by omega)
      exact hc.receive (by omega)

/-- 32788 Data packets wait behind Hello, and no `int` counts their bytes. -/
theorem udpReceiveBufferSize_overflows : ∃ c : Connection,
    Runs.Reachable (Initial roomy) step Runs.anyMove c ∧
      c.udpReceiveBufferSize.toInt ≠ total Packet.getSize c.udpReceivedPackets := by
  obtain ⟨c, hc⟩ := exists_flooded 32788 (by decide)
  refine ⟨c, hc.reachable, fun heq => ?_⟩
  have hlt := Int32.toInt_lt c.udpReceiveBufferSize
  have htotal := hc.total_eq
  omega

end Flooding

end Connection

end IceTunnel
