import IceTunnel.Ledger

namespace IceTunnel

open Totals

theorem total_getSize_nonneg (map : Std.ExtTreeMap Int Packet) : 0 ≤ total Packet.getSize map := by
  apply total_nonneg
  intro index p hp
  rw [Packet.getSize_eq]
  exact Int.natCast_nonneg _

namespace Ledger

/-- The size of what is buffered. -/
def bufferedSize (l : Ledger) : Int :=
  total Packet.getSize l.udpSentPackets + sizeOfAll l.udpConfirmationPackets

/-- The counter is what an `int` keeps of the size of what is buffered. -/
structure Balanced (l : Ledger) : Prop where
  lt_next : ∀ (index : Int) (p : Packet), l.udpSentPackets[index]? = some p →
    index < l.udpNextSendIndex
  size_eq : l.udpSentBufferSize = .ofInt l.bufferedSize
  closed : l.udpConnected = false →
    l.udpSentPackets = ∅ ∧ l.udpConfirmationPackets = [] ∧ l.udpSentBufferSize = 0

theorem sizeOfAll_append (packets packets' : List Packet) :
    sizeOfAll (packets ++ packets') = sizeOfAll packets + sizeOfAll packets' := by
  simp only [sizeOfAll, List.map_append, List.sum_append]

theorem sizeOfAll_filter (packets : List Packet) (keep : Packet → Bool) :
    sizeOfAll packets = sizeOfAll (packets.filter keep) +
      sizeOfAll (packets.filter fun p => !keep p) := by
  induction packets with
  | nil => rfl
  | cons packet packets ih =>
      simp only [sizeOfAll] at ih
      cases hkeep : keep packet with
      | true =>
          simp only [sizeOfAll, List.filter_cons, hkeep, Bool.not_true, Bool.false_eq_true, if_true,
            if_false, List.map_cons, List.sum_cons]
          omega
      | false =>
          simp only [sizeOfAll, List.filter_cons, hkeep, Bool.not_false, Bool.false_eq_true, if_true,
            if_false, List.map_cons, List.sum_cons]
          omega

variable {R : Ledger → Bool → Packet → Prop} {l l' : Ledger}

theorem Balanced.size_add (h : l.Balanced) {size sum : Int} (hsum : sum = l.bufferedSize + size) :
    l.udpSentBufferSize + .ofInt size = .ofInt sum := by
  rw [h.size_eq, hsum, Int32.ofInt_add]

theorem Balanced.size_sub (h : l.Balanced) {size sum : Int} (hsum : sum = l.bufferedSize - size) :
    l.udpSentBufferSize - .ofInt size = .ofInt sum := by
  rw [h.size_eq, hsum, Int32.ofInt_sub]

theorem sizeOfAll_nonneg (packets : List Packet) : 0 ≤ sizeOfAll packets := by
  apply List.sum_nonneg
  simp only [List.mem_map, forall_exists_index, and_imp]
  rintro _ p - rfl
  rw [Packet.getSize_eq]
  exact Int.natCast_nonneg _

theorem Balanced.size_toInt (h : l.Balanced) (hlt : l.bufferedSize < 2 ^ 31) :
    l.udpSentBufferSize.toInt = l.bufferedSize := by
  have hqueue := sizeOfAll_nonneg l.udpConfirmationPackets
  have hsent := total_getSize_nonneg l.udpSentPackets
  rw [h.size_eq]
  exact Int32.toInt_ofInt_of_le (by rw [bufferedSize]; omega) hlt

theorem Balanced.replace (h : l.Balanced) {index : Int} {p q : Packet}
    (hp : l.udpSentPackets[index]? = some p) (hsize : q.getSize = p.getSize) (pacing : Pacing) :
    ({ l with
      udpSentPackets := l.udpSentPackets.insert index q
      toPacing := pacing } : Ledger).Balanced := by
  constructor
  · intro other r hr
    simp only [Std.ExtTreeMap.getElem?_insert, compare_eq_iff_eq] at hr
    split at hr
    · rename_i hindex
      rw [← hindex]
      exact h.lt_next index p hp
    · exact h.lt_next other r hr
  · refine h.size_eq.trans (congrArg Int32.ofInt ?_)
    simp only [bufferedSize, total_insert, hp, weigh_some, hsize]
    omega
  · intro hudp
    rw [(h.closed hudp).1] at hp
    simp at hp

theorem Balanced.remove (h : l.Balanced) {index : Int} {p : Packet}
    (hp : l.udpSentPackets[index]? = some p) (pacing : Pacing) :
    ({ l with
      udpSentPackets := l.udpSentPackets.erase index
      udpSentBufferSize := l.udpSentBufferSize - .ofInt p.getSize
      toPacing := pacing } : Ledger).Balanced := by
  constructor
  · intro other r hr
    simp only [Std.ExtTreeMap.getElem?_erase] at hr
    split at hr
    · cases hr
    · exact h.lt_next other r hr
  · apply h.size_sub
    simp only [bufferedSize, total_erase, hp, weigh_some]
    omega
  · intro hudp
    rw [(h.closed hudp).1] at hp
    simp at hp

theorem Balanced.next_not_sent (h : l.Balanced) : l.udpSentPackets[l.udpNextSendIndex]? = none := by
  rw [Option.eq_none_iff_forall_ne_some]
  intro p hp
  exact absurd (h.lt_next _ p hp) (lt_irrefl _)

theorem Balanced.step (h : l.Balanced) (hstep : Step R l l') : l'.Balanced := by
  cases hstep with
  | push type payload hudp =>
      have hnone := h.next_not_sent
      have hsize := Packet.encode_getSize (l.udpSentPackets.getD l.udpNextSendIndex {}) type
        l.udpNextSendIndex payload
      generalize (l.udpSentPackets.getD l.udpNextSendIndex {}).encode type l.udpNextSendIndex
        payload = q at hsize ⊢
      have hpushed : ({ q with remainResendCount := l.udpResendCount } : Packet).getSize =
        payload.length := hsize
      refine ⟨fun index p hp => ?_, ?_, fun hclosed => ?_⟩
      · simp only [Std.ExtTreeMap.getElem?_insert, compare_eq_iff_eq] at hp
        split at hp
        · simp only
          omega
        · have hlt := h.lt_next index p hp
          simp only
          omega
      · apply h.size_add
        simp only [bufferedSize, total_insert, hnone, weigh_none, hpushed]
        omega
      · simp [hudp] at hclosed
  | pace timeUs htime => exact ⟨h.lt_next, h.size_eq, h.closed⟩
  | enqueue packet hudp =>
      refine ⟨h.lt_next, ?_, fun hclosed => ?_⟩
      · apply h.size_add
        rw [bufferedSize, sizeOfAll_append, bufferedSize]
        simp only [sizeOfAll, List.map_cons, List.map_nil, List.sum_cons, List.sum_nil]
        omega
      · simp [hudp] at hclosed
  | dequeue packet packets hqueue =>
      refine ⟨h.lt_next, ?_, fun hclosed => ?_⟩
      · apply h.size_sub
        simp only [bufferedSize, hqueue, sizeOfAll, List.map_cons, List.sum_cons]
        omega
      · rw [(h.closed hclosed).2.1] at hqueue
        cases hqueue
  | dropConfirmations =>
      refine ⟨h.lt_next, ?_, fun hclosed => ?_⟩
      · apply h.size_sub
        have hsplit := sizeOfAll_filter l.udpConfirmationPackets (·.getType ≠ .confirmation)
        simp only [bufferedSize, ne_eq, decide_not, Bool.not_not] at hsplit ⊢
        omega
      · obtain ⟨hempty, hqueue, hsize⟩ := h.closed hclosed
        refine ⟨hempty, ?_, ?_⟩
        · rw [hqueue]
          rfl
        · rw [hqueue, hsize]
          rfl
  | transmit index packet timeUs measureUs hpacket hsent htime =>
      apply h.replace hpacket
      rfl
  | eraseComplete index packet hpacket hcomplete => exact h.remove hpacket l.toPacing
  | resend index packet hpacket hsent hreport =>
      apply h.replace hpacket
      rfl
  | forget index packet hpacket hreport => exact h.remove hpacket _
  | close => exact ⟨by simp, by simp [bufferedSize, sizeOfAll], fun _ => ⟨rfl, rfl, rfl⟩⟩

end Ledger

namespace Connection

/-- What the sending side knows about itself. -/
structure Accounting (c : Connection) : Prop where
  toSend_eq : c.udpConnected = true →
    c.udpPacketsToSendCount = (unsent c.udpSentPackets).card
  unconfirmed : ∀ (index : Int) (p : Packet), c.udpSentPackets[index]? = some p →
    p.confirmed = false
  numbered : ∀ (index : Int) (p : Packet), c.udpSentPackets[index]? = some p →
    0 ≤ index ∧ index < c.udpNextSendIndex ∧ p.getIndex = index
  size_eq : c.udpSentBufferSize =
    .ofInt (total Packet.getSize c.udpSentPackets + sizeOfAll c.udpConfirmationPackets)
  size_toInt : total Packet.getSize c.udpSentPackets + sizeOfAll c.udpConfirmationPackets < 2 ^ 31 →
    c.udpSentBufferSize.toInt =
      total Packet.getSize c.udpSentPackets + sizeOfAll c.udpConfirmationPackets
  closed : c.udpConnected = false →
    c.udpSentPackets = ∅ ∧ c.udpConfirmationPackets = [] ∧ c.udpSentBufferSize = 0

theorem new_ledger (config : Config) (intervalUs summaryUs : Int) (io : Io) :
    (new config intervalUs summaryUs io).ledger =
      { toConfig := config
        udpLastSentUs := 0
        udpSendIntervalUs := intervalUs
        udpSendIntervalUsFloat := intervalUs
        udpSendMeasureIndex := 0
        udpSendMeasures := (∅ : Std.ExtTreeMap Int Measure).insert 0 { beginUs := io.nowUs.head }
        udpSummaryConnectionsSendIntervalUs := summaryUs + intervalUs
        udpConnected := true
        udpNextSendIndex := 1
        udpSentPackets := (Endpoint.initial config).udpSentPackets
        udpConfirmationPackets := []
        udpSentBufferSize := 0 } := by
  simp only [new, setTimeRelativeNow_ledger, onUdpSentBufferChanged_ledger]
  rfl

theorem ledger_initial {config : Config} {c : Connection} (h : Initial config c) :
    ∃ intervalUs summaryUs nowUs : Int, c.ledger =
      { toConfig := config
        udpLastSentUs := 0
        udpSendIntervalUs := intervalUs
        udpSendIntervalUsFloat := intervalUs
        udpSendMeasureIndex := 0
        udpSendMeasures := (∅ : Std.ExtTreeMap Int Measure).insert 0 { beginUs := nowUs }
        udpSummaryConnectionsSendIntervalUs := summaryUs + intervalUs
        udpConnected := true
        udpNextSendIndex := 1
        udpSentPackets := (Endpoint.initial config).udpSentPackets
        udpConfirmationPackets := []
        udpSentBufferSize := 0 } := by
  obtain ⟨intervalUs, summaryUs, io, rfl⟩ := h
  exact ⟨intervalUs, summaryUs, io.nowUs.head, new_ledger _ _ _ _⟩

theorem balanced_initial {config : Config} {c : Connection} (h : Initial config c) :
    c.ledger.Balanced := by
  have hsound := (sound_initial h).sending.wellFormed
  obtain ⟨intervalUs, summaryUs, nowUs, heq⟩ := ledger_initial h
  have hmap : c.udpSentPackets = (Endpoint.initial config).udpSentPackets :=
    congrArg Ledger.udpSentPackets heq
  have hnext : c.udpNextSendIndex = 1 := congrArg Ledger.udpNextSendIndex heq
  have hqueue : c.udpConfirmationPackets = [] := congrArg Ledger.udpConfirmationPackets heq
  have hsize : c.udpSentBufferSize = 0 := congrArg Ledger.udpSentBufferSize heq
  have hopen : c.udpConnected = true := congrArg Ledger.udpConnected heq
  refine ⟨fun index p hp => (hsound.lt_next hp).2, ?_, fun hclosed => ?_⟩
  · change c.udpSentBufferSize = .ofInt (total Packet.getSize c.udpSentPackets +
      sizeOfAll c.udpConfirmationPackets)
    rw [hmap, hqueue, hsize]
    simp only [Endpoint.initial, Endpoint.blank, Sender.push, total_insert, total_empty,
      Std.ExtTreeMap.getElem?_empty, weigh_none]
    have hhello := Packet.encode_getSize ((∅ : Std.ExtTreeMap Int Packet).getD 0 {}) .hello 0 []
    generalize ((∅ : Std.ExtTreeMap Int Packet).getD 0 {}).encode .hello 0 [] = q at hhello ⊢
    have hpushed : ({ q with remainResendCount := config.udpResendCount } : Packet).getSize = 0 :=
      hhello
    rw [hpushed]
    rfl
  · exact absurd (hopen.symm.trans hclosed) (by decide)

theorem balanced {config : Config} {ok : Connection → Move → Prop} {c : Connection}
    (h : Runs.Reachable (Initial config) step ok c) : c.ledger.Balanced :=
  h.invariant_of_refines (fun _ => balanced_initial)
    (fun _ _ _ _ _ => step_entries (reportsMeet_anyReport _ _)) fun _ _ hl => hl.step

theorem sound {config : Config} {ok : Connection → Move → Prop} {c : Connection}
    (h : Runs.Reachable (Initial config) step ok c) : c.toEndpoint.Sound :=
  h.invariant (fun _ => sound_initial) fun _ _ _ hc _ => sound_step hc

/-- The books balance in every run, whatever the peer sends. -/
theorem accounting {config : Config} {c : Connection}
    (h : Runs.Reachable (Initial config) step Runs.anyMove c) (hlt : c.udpNextSendIndex < intMax) :
    c.Accounting := by
  have hsound := sound h
  have hbalanced := balanced h
  have hwellFormed := hsound.sending.wellFormed
  refine ⟨hsound.counting, hwellFormed.sent_unconfirmed, fun index p hp => ?_, hbalanced.size_eq,
    hbalanced.size_toInt, hbalanced.closed⟩
  obtain ⟨hnonneg, hnext⟩ := hwellFormed.lt_next hp
  obtain ⟨i, rfl, hcreated⟩ := hwellFormed.sent_created index p hp
  have hindex := hwellFormed.getIndex_created hlt hcreated
  rw [Packet.wire_getIndex] at hindex
  exact ⟨hnonneg, hnext, hindex⟩

/-- A connection that starts at time 0. -/
def fresh (config : Config) : Connection :=
  new config 10 0 (Io.steady 0)

/-- The run of a fresh connection along a list of moves. -/
def play (config : Config) (moves : List Move) : Option Connection :=
  Runs.run step Runs.anyMove (fresh config) moves

theorem reachable_of_play {config : Config} {moves : List Move} {c : Connection}
    (h : play config moves = some c) :
    Runs.Reachable (Initial config) step Runs.anyMove c :=
  .of_run (.start ⟨10, 0, Io.steady 0, rfl⟩) h

theorem exists_raise {c : Connection} {event : EventName} (hdeleted : c.deleted = false)
    (h : c.isEnabled event = true) (io : Io) :
    ∃ timeUs : Nat, c.step (.raise event timeUs io) = some ({ c with io := io }.raise event) := by
  refine ⟨(c.events event).timeUs.toNat, ?_⟩
  rw [step, if_pos ⟨hdeleted, h, Int.self_le_toNat _⟩]

/-- Hello is sent, and 25 bytes are read in two pieces. -/
def readingRun : List Move :=
  [.raise .udpWrite 0 (Io.steady 0),
    .raise .tcpRead 10 { Io.steady 10 with tcpBytes := List.replicate 10 7 },
    .raise .tcpRead 20 { Io.steady 20 with tcpBytes := List.replicate 10 7 }]

theorem readingRun_isSome : (play Config.small readingRun).isSome = true := by
  decide +kernel

theorem accounting_readingRun :
    ((play Config.small readingRun).get readingRun_isSome).Accounting :=
  accounting (reachable_of_play (Option.some_get readingRun_isSome).symm) (by decide +kernel)

section Piling

variable {c : Connection}

theorem onUdpSentBufferChanged_endFirst (c : Connection) (sizeIncrement : Int)
    (h : c.udpSentPackets.isEmpty = false) :
    (c.onUdpSentBufferChanged sizeIncrement).io.endFirst = c.io.endFirst.tail := by
  simp only [onUdpSentBufferChanged, tickEnd, h]
  split <;> rfl

theorem buildUdpPacketsLoop_whole {bytes : List UInt8}
    (hlength : (bytes.length : Int) = c.udpSendPacketSize) (hpos : 0 < c.udpSendPacketSize) :
    buildUdpPacketsLoop false bytes.length bytes c =
      ((c.push .data bytes).setEventUdpWrite.onUdpSentBufferChanged bytes.length, []) := by
  have hne : bytes ≠ [] := List.ne_nil_of_length_pos (by omega)
  have hstop : ∀ (fuel : Nat) (d : Connection), buildUdpPacketsLoop false fuel [] d = (d, []) := by
    rintro (_ | fuel) d <;> rfl
  have hwhole : ¬((!false && decide (min (bytes.length : Int) c.udpSendPacketSize <
      c.udpSendPacketSize)) || decide (min (bytes.length : Int) c.udpSendPacketSize ≤ 0)) =
      true := by
    simp only [hlength, min_self, lt_irrefl, decide_false, Bool.and_false, Bool.false_or,
      decide_eq_true_eq, not_le]
    exact hpos
  have hsize : (min (bytes.length : Int) c.udpSendPacketSize).toNat = bytes.length := by omega
  obtain ⟨fuel, hfuel⟩ : ∃ fuel, bytes.length = fuel + 1 := ⟨bytes.length - 1, by omega⟩
  rw [show buildUdpPacketsLoop false bytes.length bytes c =
    buildUdpPacketsLoop false (fuel + 1) bytes c by rw [hfuel], buildUdpPacketsLoop,
    if_neg (by simpa using hne)]
  simp only [if_neg hwhole, hsize, List.take_length, List.drop_length]
  exact hstop fuel _

theorem buildUdpPackets_whole (hudp : c.udpConnected = true)
    (hfinal : c.udpReceivedFinalIndex ≠ c.udpReceivedMasterIndex)
    (hlength : (c.tcpReceivedData.length : Int) = c.udpSendPacketSize)
    (hpos : 0 < c.udpSendPacketSize) :
    c.buildUdpPackets false =
      ({ (c.push .data c.tcpReceivedData).setEventUdpWrite.onUdpSentBufferChanged
          c.tcpReceivedData.length with tcpReceivedData := [] } : Connection).disable
        .buildUdpPackets := by
  simp only [buildUdpPackets, hudp, Bool.not_true, Bool.false_eq_true, if_false, if_neg hfinal,
    buildReceivedData, buildUdpPacketsLoop_whole hlength hpos, or_true, if_true]

theorem tcpRead_whole (htcp : c.tcpConnected = true) (hudp : c.udpConnected = true)
    (hfinal : c.udpReceivedFinalIndex ≠ c.udpReceivedMasterIndex) (hdata : c.tcpReceivedData = [])
    (hlength : (c.io.tcpBytes.length : Int) = c.udpSendPacketSize) (hpos : 0 < c.udpSendPacketSize) :
    ∃ b : Connection, c.tcpRead = b.onUdpSentBufferChanged 0 ∧
      b.toEndpoint = { c.toEndpoint with toSender :=
        { (c.toSender.record (.read c.io.tcpBytes)).push c.udpResendCount .data c.io.tcpBytes with
          tcpReceivedData := [] } } ∧
      b.udpSendIntervalUs = c.udpSendIntervalUs ∧ b.deleted = c.deleted ∧
      b.io.endFirst = c.io.endFirst.tail := by
  have hne : c.io.tcpBytes ≠ [] := List.ne_nil_of_length_pos (by omega)
  have htake : c.io.tcpBytes.take c.udpSendPacketSize.toNat = c.io.tcpBytes :=
    List.take_of_length_le (by omega)
  let read : Connection := { c with toSender :=
    { c.toSender.record (.read c.io.tcpBytes) with tcpReceivedData := c.io.tcpBytes } }
  let pushed : Connection := (read.push .data c.io.tcpBytes).setEventUdpWrite
  let turn : Connection := pushed.onUdpSentBufferChanged c.io.tcpBytes.length
  have hbuilt : read.buildUdpPackets false =
      ({ turn with tcpReceivedData := [] } : Connection).disable .buildUdpPackets :=
    buildUdpPackets_whole hudp hfinal hlength hpos
  refine ⟨({ turn with tcpReceivedData := [] } : Connection).disable .buildUdpPackets, ?_, ?_, ?_,
    ?_, ?_⟩
  · rw [← hbuilt]
    simp only [tcpRead, htcp, Bool.not_true, Bool.false_eq_true, if_false, htake, if_neg hne,
      show (c.toSender.record (.read c.io.tcpBytes)).tcpReceivedData = [] from hdata,
      List.nil_append]
    rw [if_pos (show _ = true from hudp)]
  · show { turn.toEndpoint with tcpReceivedData := [] } = _
    rw [show turn.toEndpoint = (read.push .data c.io.tcpBytes).toEndpoint by
      simp only [turn, pushed, onUdpSentBufferChanged_toEndpoint, setEventUdpWrite_toEndpoint]]
    rfl
  · show turn.udpSendIntervalUs = _
    simp only [turn, pushed, onUdpSentBufferChanged_toPacing, setEventUdpWrite]
    split <;> rfl
  · show turn.deleted = _
    simp only [turn, pushed, onUdpSentBufferChanged_deleted, setEventUdpWrite_deleted]
    rfl
  · show turn.io.endFirst = _
    have hpushed : pushed.udpSentPackets.isEmpty = false := by
      simp only [pushed, setEventUdpWrite_toEndpoint]
      exact Std.ExtTreeMap.isEmpty_eq_false_iff.mpr Std.ExtTreeMap.insert_ne_empty
    have hio : pushed.io.endFirst = c.io.endFirst := by
      simp only [pushed, setEventUdpWrite]
      split <;> rfl
    rw [← hio]
    exact onUdpSentBufferChanged_endFirst pushed _ hpushed

/-- A whole packet has 60000 bytes, and a send buffer of 2 GiB is allowed. -/
def bulky : Config :=
  { Config.small with udpSendPacketSize := 60000, udpMaxSentBufferSize := 2147483647 }

/-- `n` whole packets, none of which is Hello. -/
structure Pile (n : Nat) (packets : Std.ExtTreeMap Int Packet) : Prop where
  size : packets.size = n
  keys : ∀ key ∈ packets, 1 ≤ key
  total_eq : total Packet.getSize packets = 60000 * n

theorem pile_empty : Pile 0 ∅ :=
  ⟨Std.ExtTreeMap.size_empty, by simp, by simp⟩

theorem Pile.insert {n : Nat} {packets : Std.ExtTreeMap Int Packet} (h : Pile n packets)
    {key : Int} {packet : Packet} (hkey : 1 ≤ key) (hnew : packets[key]? = none)
    (hsize : packet.getSize = 60000) : Pile (n + 1) (packets.insert key packet) := by
  constructor
  case size =>
    rw [Std.ExtTreeMap.size_insert, Std.ExtTreeMap.contains_eq_isSome_getElem?, hnew,
      Option.isSome_none, if_neg (by decide), h.size]
  case keys =>
    intro other hother
    rw [Std.ExtTreeMap.mem_insert, compare_eq_iff_eq] at hother
    obtain rfl | hother := hother
    · exact hkey
    · exact h.keys other hother
  case total_eq =>
    rw [total_insert, hnew, h.total_eq, hsize]
    simp only [weigh_none]
    omega

/-- Hello is confirmed, and `n` whole packets are not. -/
structure Piled (n : Nat) (c : Connection) : Prop where
  reachable : Runs.Reachable (Initial bulky) step Runs.anyMove c
  tcpConnected : c.tcpConnected = true
  udpConnected : c.udpConnected = true
  deleted : c.deleted = false
  final : c.udpReceivedFinalIndex ≠ c.udpReceivedMasterIndex
  data : c.tcpReceivedData = []
  next_eq : c.udpNextSendIndex = n + 1
  interval : c.udpSendIntervalUs = 10
  pile : Pile n c.udpSentPackets
  armed : c.isEnabled .tcpRead = true

theorem sentCount_le_of_pile {n : Nat} (hio : c.io.endFirst = (Io.steady 0).endFirst)
    (h : Pile (n + 1) c.udpSentPackets) : c.sentCount ≤ n := by
  have hlength : c.udpSentPackets.keys.length = n + 1 := by
    rw [Std.ExtTreeMap.length_keys, h.size]
  simp only [sentCount, hio]
  cases hmap : c.udpSentPackets.keys with
  | nil =>
      rw [hmap] at hlength
      cases hlength
  | cons first keys =>
      have hfirst := h.keys first (Std.ExtTreeMap.mem_keys.mp (hmap ▸ List.mem_cons_self))
      rw [hmap] at hlength
      show ((first :: keys).length : Int) - first ≤ n
      omega

theorem push_udpSentPackets (s : Sender) (udpResendCount : Int) (payload : List UInt8) :
    ∃ p : Packet, p.getSize = payload.length ∧
      (s.push udpResendCount .data payload).udpSentPackets =
        s.udpSentPackets.insert s.udpNextSendIndex p := by
  have hsize := Packet.encode_getSize (s.udpSentPackets.getD s.udpNextSendIndex {}) .data
    s.udpNextSendIndex payload
  simp only [Sender.push]
  generalize (s.udpSentPackets.getD s.udpNextSendIndex {}).encode .data s.udpNextSendIndex payload =
    packet at hsize ⊢
  exact ⟨{ packet with remainResendCount := udpResendCount }, hsize, rfl⟩

theorem Piled.read {n : Nat} (h : Piled n c) (hn : n ≤ 35791) : ∃ d, Piled (n + 1) d := by
  obtain ⟨bytes, hbytes⟩ : ∃ bytes : List UInt8, bytes.length = 60000 :=
    ⟨List.replicate 60000 7, List.length_replicate⟩
  obtain ⟨timeUs, hstep⟩ := exists_raise h.deleted h.armed { Io.steady 0 with tcpBytes := bytes }
  let a : Connection :=
    ({ c with io := { Io.steady 0 with tcpBytes := bytes } } : Connection).disable .tcpRead
  have hconfig : c.toConfig = bulky := toConfig_eq h.reachable
  have hwhole : c.udpSendPacketSize = 60000 := congrArg (·.udpSendPacketSize) hconfig
  obtain ⟨b, hread, hend, hinterval, hdeleted, hio⟩ := tcpRead_whole (c := a) h.tcpConnected
    h.udpConnected h.final h.data ((congrArg Int.ofNat hbytes).trans hwhole.symm)
    (hwhole ▸ (by decide : (0 : Int) < 60000))
  have hreach : Runs.Reachable (Initial bulky) step Runs.anyMove (b.onUdpSentBufferChanged 0) := by
    rw [← hread]
    exact h.reachable.next trivial hstep
  have hnew : c.udpSentPackets[c.udpNextSendIndex]? = none := (balanced h.reachable).next_not_sent
  obtain ⟨p, hsize, hpush⟩ := push_udpSentPackets (a.toSender.record (.read bytes))
    a.udpResendCount bytes
  have hmap : b.udpSentPackets = c.udpSentPackets.insert c.udpNextSendIndex p := by
    rw [hend]
    exact hpush
  have hpile : Pile (n + 1) b.udpSentPackets := by
    have hposition := h.next_eq
    rw [hmap]
    exact h.pile.insert (by omega) hnew (hsize.trans (congrArg Int.ofNat hbytes))
  have hlimit : b.maxCount = 35791 := by
    have hbulky : b.toConfig = bulky := by
      rw [hend]
      exact hconfig
    simp only [maxCount, hinterval]
    rw [show a.udpSendIntervalUs = 10 from h.interval, hbulky]
    decide
  have hleft : b.sentCount ≤ b.maxCount := by
    have hsent := sentCount_le_of_pile (c := b) (by rw [hio]; rfl) hpile
    omega
  refine ⟨b.onUdpSentBufferChanged 0, ?_⟩
  have hsame : (b.onUdpSentBufferChanged 0).toEndpoint = b.toEndpoint :=
    onUdpSentBufferChanged_toEndpoint _ _
  constructor
  case reachable => exact hreach
  case armed => exact (isEnabled_tcpRead_onUdpSentBufferChanged b 0).mpr hleft
  case deleted =>
    rw [onUdpSentBufferChanged_deleted, hdeleted]
    exact h.deleted
  case interval =>
    rw [onUdpSentBufferChanged_toPacing, hinterval]
    exact h.interval
  all_goals rw [hsame]
  case pile => exact hpile
  all_goals rw [hend]
  case tcpConnected => exact h.tcpConnected
  case udpConnected => exact h.udpConnected
  case final => exact h.final
  case next_eq =>
    show c.udpNextSendIndex + 1 = _
    have hposition := h.next_eq
    omega

/-- Hello is confirmed at once. -/
def confirmedRun : List Move :=
  [.udpRead (Packet.datagram .confirmation 1 []) (Io.steady 0)]

theorem confirmedRun_isSome : (play bulky confirmedRun).isSome = true := by
  decide +kernel

theorem piled_zero : Piled 0 ((play bulky confirmedRun).get confirmedRun_isSome) := by
  have hempty : ((play bulky confirmedRun).get confirmedRun_isSome).udpSentPackets = ∅ := by
    rw [← Std.ExtTreeMap.isEmpty_iff]
    decide +kernel
  constructor
  case reachable => exact reachable_of_play (Option.some_get confirmedRun_isSome).symm
  case pile => exact hempty ▸ pile_empty
  all_goals decide +kernel

theorem exists_piled (n : Nat) (hn : n ≤ 35792) : ∃ c, Piled n c := by
  induction n with
  | zero => exact ⟨_, piled_zero⟩
  | succ n ih =>
      obtain ⟨c, hc⟩ := ih (by omega)
      exact hc.read (by omega)

/-- 35792 whole packets of 60000 bytes wait, and no `int` counts their bytes. -/
theorem udpSentBufferSize_overflows : ∃ c : Connection,
    Runs.Reachable (Initial bulky) step Runs.anyMove c ∧ c.udpNextSendIndex < intMax ∧
      c.udpConnected = true ∧
      c.udpSentBufferSize.toInt ≠
        total Packet.getSize c.udpSentPackets + sizeOfAll c.udpConfirmationPackets := by
  obtain ⟨c, hc⟩ := exists_piled 35792 (le_refl _)
  refine ⟨c, hc.reachable, ?_, hc.udpConnected, fun heq => ?_⟩
  · rw [hc.next_eq]
    decide
  · have hlt := Int32.toInt_lt c.udpSentBufferSize
    have hnonneg := Ledger.sizeOfAll_nonneg c.udpConfirmationPackets
    have htotal := hc.pile.total_eq
    omega

end Piling

end Connection

end IceTunnel
