import IceTunnel.Pacing
import IceTunnel.Peers

namespace IceTunnel

open Totals

namespace Pacing

variable (p : Pacing) (config : Config)

/-- The payload of a packet in flight that measure `i` counts. -/
def inFlight (i : Int) (packet : Packet) : Int :=
  if packet.sent = true ∧ packet.measureIndex = i then packet.getSize else 0

/-- Every measure counts at least the transmissions that are reported and those
that are still in flight. -/
structure Measured (p : Pacing) (packets : Std.ExtTreeMap Int Packet) : Prop where
  current_nonneg : 0 ≤ p.udpSendMeasureIndex
  key_le : ∀ (i : Int) (m : Measure), p.udpSendMeasures[i]? = some m → i ≤ p.udpSendMeasureIndex
  stamp_le : ∀ (index : Int) (packet : Packet), packets[index]? = some packet →
    packet.measureIndex ≤ p.udpSendMeasureIndex
  reported : ∀ (i : Int) (m : Measure), p.udpSendMeasures[i]? = some m →
    m.successSize + m.failSize + total (inFlight i) packets ≤ m.size

theorem getSize_nonneg (packet : Packet) : 0 ≤ packet.getSize := by
  rw [Packet.getSize_eq]
  exact Int.natCast_nonneg _

theorem inFlight_nonneg (i : Int) (packet : Packet) : 0 ≤ inFlight i packet := by
  simp only [inFlight]
  split
  · exact getSize_nonneg packet
  · exact le_refl 0

section Invariant

variable {p config} {packets packets' : Std.ExtTreeMap Int Packet}

theorem Measured.of_le (h : p.Measured packets)
    (hstamp : ∀ (index : Int) (packet : Packet), packets'[index]? = some packet →
      packet.measureIndex ≤ p.udpSendMeasureIndex)
    (hle : ∀ i, total (inFlight i) packets' ≤ total (inFlight i) packets) :
    p.Measured packets' := by
  refine ⟨h.current_nonneg, h.key_le, hstamp, fun i m hm => ?_⟩
  have hreported := h.reported i m hm
  have hless := hle i
  omega

/-- What is reported is not in flight any more. -/
theorem Measured.delivered (h : p.Measured packets)
    (hstamp : ∀ (index : Int) (packet : Packet), packets'[index]? = some packet →
      packet.measureIndex ≤ p.udpSendMeasureIndex)
    (hle : ∀ i, total (inFlight i) packets' ≤ total (inFlight i) packets)
    (success : Bool) (measureIndex size : Int)
    (hsize : ∀ m, p.udpSendMeasures[measureIndex]? = some m →
      total (inFlight measureIndex) packets' + size ≤ total (inFlight measureIndex) packets) :
    (p.onUdpDelivered config success measureIndex size).Measured packets' := by
  cases hm : p.udpSendMeasures[measureIndex]? with
  | none =>
      rw [onUdpDelivered_of_none _ _ _ _ _ hm]
      exact h.of_le hstamp hle
  | some m =>
      have hmeasures := p.onUdpDelivered_measures config success measureIndex size hm
      constructor
      · rw [onUdpDelivered_udpSendMeasureIndex]
        exact h.current_nonneg
      · intro i n hn
        rw [onUdpDelivered_udpSendMeasureIndex]
        rw [hmeasures] at hn
        split_ifs at hn with hgone hsame
        · rw [hsame]
          exact h.key_le _ m hm
        · exact h.key_le i n hn
      · intro index packet hpacket
        rw [onUdpDelivered_udpSendMeasureIndex]
        exact hstamp index packet hpacket
      · intro i n hn
        rw [hmeasures] at hn
        split_ifs at hn with hgone hsame
        · obtain rfl := Option.some.inj hn
          have hreported := h.reported measureIndex m hm
          have hflight := hsize m hm
          rw [Measure.report_sum, Measure.report_size, hsame]
          omega
        · have hreported := h.reported i n hn
          have hless := hle i
          omega

theorem Measured.count (h : p.Measured packets)
    (hstamp : ∀ (index : Int) (packet : Packet), packets'[index]? = some packet →
      packet.measureIndex ≤ p.udpSendMeasureIndex)
    {m n : Measure} (hm : p.udpSendMeasures[p.udpSendMeasureIndex]? = some m) {size : Int}
    (hsum : n.successSize + n.failSize = m.successSize + m.failSize) (hsize : n.size = m.size + size)
    (hle : ∀ i, i ≠ p.udpSendMeasureIndex →
      total (inFlight i) packets' ≤ total (inFlight i) packets)
    (hcurrent : total (inFlight p.udpSendMeasureIndex) packets' ≤
      total (inFlight p.udpSendMeasureIndex) packets + size) :
    ({ p with udpSendMeasures := p.udpSendMeasures.insert p.udpSendMeasureIndex n } :
      Pacing).Measured packets' := by
  refine ⟨h.current_nonneg, fun i k hk => ?_, hstamp, fun i k hk => ?_⟩
  all_goals simp only [Std.ExtTreeMap.getElem?_insert, compare_eq_iff_eq] at hk
  · split at hk
    · rename_i hi
      exact le_of_eq hi.symm
    · exact h.key_le i k hk
  · split at hk
    · rename_i hi
      obtain rfl := Option.some.inj hk
      have hreported := h.reported _ m hm
      subst hi
      omega
    · rename_i hi
      have hreported := h.reported i k hk
      have hless := hle i (Ne.symm hi)
      omega

theorem Measured.next_none (h : p.Measured packets) :
    p.udpSendMeasures[p.udpSendMeasureIndex + 1]? = none := by
  rw [Option.eq_none_iff_forall_ne_some]
  intro m hm
  have hkey := h.key_le _ m hm
  omega

theorem Measured.total_next (h : p.Measured packets) :
    total (inFlight (p.udpSendMeasureIndex + 1)) packets = 0 := by
  apply total_eq_zero
  intro index packet hpacket
  have hle := h.stamp_le index packet hpacket
  rw [inFlight, if_neg]
  omega

theorem Measured.openNext (h : p.Measured packets) {n : Measure}
    (hsum : n.successSize + n.failSize ≤ n.size) :
    ({ p with
      udpSendMeasureIndex := p.udpSendMeasureIndex + 1
      udpSendMeasures := p.udpSendMeasures.insert (p.udpSendMeasureIndex + 1) n } :
      Pacing).Measured packets := by
  refine ⟨?_, fun i k hk => ?_, fun index packet hpacket => ?_, fun i k hk => ?_⟩
  · have hnonneg := h.current_nonneg
    show 0 ≤ p.udpSendMeasureIndex + 1
    omega
  · simp only [Std.ExtTreeMap.getElem?_insert, compare_eq_iff_eq] at hk ⊢
    split at hk
    · omega
    · have hkey := h.key_le i k hk
      omega
  · have hstamped := h.stamp_le index packet hpacket
    show packet.measureIndex ≤ p.udpSendMeasureIndex + 1
    omega
  · simp only [Std.ExtTreeMap.getElem?_insert, compare_eq_iff_eq] at hk
    split at hk
    · rename_i hi
      obtain rfl := Option.some.inj hk
      subst hi
      rw [h.total_next]
      omega
    · exact h.reported i k hk

theorem Measured.sent (h : p.Measured packets)
    (hstamp : ∀ (index : Int) (packet : Packet), packets'[index]? = some packet →
      packet.measureIndex ≤ p.udpSendMeasureIndex)
    (intervalUs size timeUs : Int)
    (hle : ∀ i, i ≠ p.udpSendMeasureIndex →
      total (inFlight i) packets' ≤ total (inFlight i) packets)
    (hcurrent : total (inFlight p.udpSendMeasureIndex) packets' ≤
      total (inFlight p.udpSendMeasureIndex) packets + size) :
    ((p.onUdpSent config p.udpSendMeasureIndex intervalUs size timeUs).getD p).Measured packets' := by
  cases hsent : p.onUdpSent config p.udpSendMeasureIndex intervalUs size timeUs with
  | none =>
      rw [Option.getD_none]
      refine ⟨h.current_nonneg, h.key_le, hstamp, fun i m hm => ?_⟩
      have hother : i ≠ p.udpSendMeasureIndex := by
        rintro rfl
        simp only [onUdpSent, hm, ne_eq, not_true_eq_false, if_false, Option.map_some,
          reduceCtorEq] at hsent
      have hreported := h.reported i m hm
      have hless := hle i hother
      omega
  | some q =>
      rw [Option.getD_some]
      obtain ⟨m, hm, rfl | rfl⟩ := onUdpSent_eq_some hsent
      · exact h.count hstamp hm rfl rfl hle hcurrent
      · let closed : Measure := { m with
          endUs := timeUs
          count := m.count + 1
          size := m.size + size
          summaryIntervalUs := m.summaryIntervalUs + intervalUs }
        refine (h.count (n := closed) hstamp hm rfl rfl hle hcurrent).openNext ?_
        have hcurrent_ne : p.udpSendMeasureIndex ≠ p.udpSendMeasureIndex + 1 := by omega
        simp only [Std.ExtTreeMap.getD_eq_getD_getElem?, Std.ExtTreeMap.getElem?_insert,
          compare_eq_iff_eq, hcurrent_ne, h.next_none, if_false, Option.getD_none]
        decide

end Invariant

end Pacing

namespace Ledger

open Pacing

/-- The report is the only one of its transmission: a packet that waits to be sent
again has been reported lost already. -/
def ReportedOnce (l : Ledger) (success : Bool) (packet : Packet) : Prop :=
  success = true → packet.sent = false → 0 < packet.getSize →
    packet.measureIndex ∉ l.udpSendMeasures

instance (l : Ledger) (success : Bool) (packet : Packet) :
    Decidable (l.ReportedOnce success packet) :=
  inferInstanceAs (Decidable (_ → _ → _ → ¬_))

/-- A measure that the report completes has nothing else in flight, and it has not heard of
more than was sent. -/
def ResolvesAll (l : Ledger) (success : Bool) (packet : Packet) : Prop :=
  ∀ m, l.udpSendMeasures[packet.measureIndex]? = some m →
    let resolved := m.report success packet.getSize
    resolved.successSize + resolved.failSize ≤ resolved.size ∧
      (resolved.IsResolved → total (inFlight packet.measureIndex) l.udpSentPackets =
        inFlight packet.measureIndex packet)

variable {l l' : Ledger}

theorem resolvesAll (h : l.toPacing.Measured l.udpSentPackets) {success : Bool} {packet : Packet}
    (hreports : l.Reports success packet) (honce : l.ReportedOnce success packet) :
    l.ResolvesAll success packet := by
  intro m hm
  obtain ⟨index, hpacket, hlost⟩ := hreports
  have hreported := h.reported _ m hm
  have hflight := le_total (fun _ packet' _ => inFlight_nonneg packet.measureIndex packet') hpacket
  have hsize : inFlight packet.measureIndex packet = packet.getSize := by
    rw [inFlight]
    split
    · rfl
    · rename_i hnot
      have hunsent : packet.sent = false := by simpa using hnot
      have hsuccess : success = true := by
        by_contra hfail
        rw [Bool.not_eq_true] at hfail
        rw [hlost hfail] at hunsent
        cases hunsent
      have hempty : ¬0 < packet.getSize := by
        intro hpos
        apply honce hsuccess hunsent hpos
        rw [Std.ExtTreeMap.mem_iff_isSome_getElem?, hm]
        rfl
      have hnonneg := getSize_nonneg packet
      omega
  simp only [Measure.IsResolved, Measure.report_sum, Measure.report_size]
  omega

theorem stamp_insert (h : l.toPacing.Measured l.udpSentPackets) {index : Int} {q : Packet}
    (hq : q.measureIndex ≤ l.udpSendMeasureIndex) (other : Int) (packet : Packet)
    (hpacket : (l.udpSentPackets.insert index q)[other]? = some packet) :
    packet.measureIndex ≤ l.udpSendMeasureIndex := by
  simp only [Std.ExtTreeMap.getElem?_insert] at hpacket
  split at hpacket
  · rwa [← Option.some.inj hpacket]
  · exact h.stamp_le other packet hpacket

theorem stamp_erase (h : l.toPacing.Measured l.udpSentPackets) (index other : Int) (packet : Packet)
    (hpacket : (l.udpSentPackets.erase index)[other]? = some packet) :
    packet.measureIndex ≤ l.udpSendMeasureIndex := by
  simp only [Std.ExtTreeMap.getElem?_erase] at hpacket
  split at hpacket
  · cases hpacket
  · exact h.stamp_le other packet hpacket

theorem measured_step (hbalanced : l.Balanced) (h : l.toPacing.Measured l.udpSentPackets)
    (hstep : Step ReportedOnce l l') : l'.toPacing.Measured l'.udpSentPackets := by
  cases hstep with
  | push type payload hudp =>
      have hnone := hbalanced.next_not_sent
      rw [Std.ExtTreeMap.getD_eq_getD_getElem?, hnone, Option.getD_none, Packet.encode_eq]
      generalize (({} : Packet).encode type l.udpNextSendIndex payload).data = data
      refine h.of_le (stamp_insert h h.current_nonneg) fun i => ?_
      rw [total_insert, hnone, weigh_none, inFlight, if_neg]
      · omega
      · simp
  | pace timeUs htime => exact ⟨h.current_nonneg, h.key_le, h.stamp_le, h.reported⟩
  | enqueue packet hudp => exact h
  | dequeue packet packets hqueue => exact h
  | dropConfirmations => exact h
  | transmit index packet timeUs measureUs hpacket hsent htime =>
      have hold : ∀ i, inFlight i packet = 0 := by
        intro i
        rw [inFlight, if_neg]
        simp [hsent]
      refine h.sent (stamp_insert h (le_refl _)) _ _ _ (fun i hi => ?_) ?_
      · rw [total_insert, hpacket, weigh_some, hold, inFlight, if_neg]
        · omega
        · simp [Ne.symm hi]
      · rw [total_insert, hpacket, weigh_some, hold, inFlight, if_pos ⟨rfl, rfl⟩]
        have hsize : ({ packet with
          sent := true, sentTimeUs := timeUs, measureIndex := l.udpSendMeasureIndex } :
            Packet).getSize = packet.getSize := rfl
        omega
  | eraseComplete index packet hpacket hcomplete =>
      refine h.of_le (stamp_erase h index) fun i => ?_
      have hnonneg := inFlight_nonneg i packet
      rw [total_erase, hpacket, weigh_some]
      omega
  | resend index packet hpacket hsent hreport =>
      let lost : Packet := { packet with
        sent := false, remainResendCount := packet.remainResendCount - 1 }
      have hnew : ∀ i, inFlight i lost = 0 := by
        intro i
        rw [inFlight, if_neg]
        simp [lost]
      refine h.delivered (stamp_insert h (q := lost) (h.stamp_le index packet hpacket))
        (fun i => ?_) _ _ _ ?_
      · have hnonneg := inFlight_nonneg i packet
        rw [total_insert, hpacket, weigh_some, hnew]
        omega
      · intro _ _
        rw [total_insert, hpacket, weigh_some, hnew, inFlight, if_pos ⟨hsent, rfl⟩]
        omega
  | forget index packet hpacket hreport =>
      have hle : ∀ i, total (inFlight i) (l.udpSentPackets.erase index) ≤
          total (inFlight i) l.udpSentPackets := by
        intro i
        have hnonneg := inFlight_nonneg i packet
        rw [total_erase, hpacket, weigh_some]
        omega
      simp only
      split
      · exact h.of_le (stamp_erase h index) hle
      · rename_i hconfirmed
        refine h.delivered (stamp_erase h index) hle _ _ _ fun m hm => ?_
        have honce := hreport (by simpa using hconfirmed) rfl
        have hsize := getSize_nonneg packet
        rw [total_erase, hpacket, weigh_some, inFlight]
        split
        · omega
        · rename_i hnot
          have hunsent : packet.sent = false := by simpa using hnot
          have hempty : ¬0 < packet.getSize := by
            intro hpos
            apply honce hunsent hpos
            rw [Std.ExtTreeMap.mem_iff_isSome_getElem?, hm]
            rfl
          omega
  | close =>
      refine h.of_le (by simp) fun i => ?_
      rw [total_empty]
      exact total_nonneg fun _ packet _ => inFlight_nonneg i packet

end Ledger

namespace Connection

open Pacing

/-- The move reports no transmission twice. -/
def ReportsOnce (c : Connection) (m : Move) : Prop :=
  c.ReportsMeet Ledger.ReportedOnce m

instance (c : Connection) (m : Move) : Decidable (c.ReportsOnce m) :=
  inferInstanceAs (Decidable (c.ReportsMeet Ledger.ReportedOnce m))

theorem measured_initial {config : Config} {c : Connection} (h : Initial config c) :
    c.toPacing.Measured c.udpSentPackets := by
  obtain ⟨intervalUs, summaryUs, nowUs, heq⟩ := ledger_initial h
  have hpacing : c.toPacing = _ := congrArg Ledger.toPacing heq
  have hmap : c.udpSentPackets = (Endpoint.initial config).udpSentPackets :=
    congrArg Ledger.udpSentPackets heq
  rw [hpacing, hmap]
  simp only [Endpoint.initial, Endpoint.blank, Sender.push]
  rw [Std.ExtTreeMap.getD_eq_getD_getElem?, Std.ExtTreeMap.getElem?_empty, Option.getD_none,
    Packet.encode_eq]
  generalize (({} : Packet).encode .hello 0 []).data = data
  constructor
  · exact le_refl 0
  · intro i m hm
    simp only [Std.ExtTreeMap.getElem?_insert, compare_eq_iff_eq, Std.ExtTreeMap.getElem?_empty] at hm
    split at hm
    · rename_i hi
      exact le_of_eq hi.symm
    · cases hm
  · intro index packet hpacket
    simp only [Std.ExtTreeMap.getElem?_insert, Std.ExtTreeMap.getElem?_empty] at hpacket
    split at hpacket
    · rw [← Option.some.inj hpacket]
    · cases hpacket
  · intro i m hm
    simp only [Std.ExtTreeMap.getElem?_insert, compare_eq_iff_eq, Std.ExtTreeMap.getElem?_empty] at hm
    split at hm
    · rw [← Option.some.inj hm, total_insert, Std.ExtTreeMap.getElem?_empty]
      simp [inFlight]
    · cases hm

theorem measured {config : Config} {c : Connection}
    (h : Runs.Reachable (Initial config) step ReportsOnce c) :
    c.toPacing.Measured c.udpSentPackets := by
  have hboth := h.invariant_of_refines
    (I := fun l : Ledger => l.Balanced ∧ l.toPacing.Measured l.udpSentPackets)
    (fun _ hc => ⟨balanced_initial hc, measured_initial hc⟩)
    (fun _ _ _ _ hok hm => step_entries hok hm)
    fun _ _ hl hstep => ⟨hl.1.step hstep, Ledger.measured_step hl.1 hl.2 hstep⟩
  exact hboth.2

end Connection

namespace Tunnel

/-- The runs in which no Confirmation packet reports a transmission that has been
reported lost. -/
abbrev ReachableOnce (config : Side → Config) : Tunnel → Prop :=
  Runs.Reachable (Initial config) step (EachSide Connection.ReportsOnce)

theorem of_measured {c : Connection} (h : c.toPacing.Measured c.udpSentPackets) {i : Int}
    {m : Measure} (hm : c.udpSendMeasures[i]? = some m) :
    m.successSize + m.failSize ≤ m.size ∧
      (m.size ≤ m.successSize + m.failSize → ∀ (index : Int) (packet : Packet),
        c.udpSentPackets[index]? = some packet → packet.sent = true →
          packet.measureIndex = i → packet.getSize = 0) := by
  have hreported := h.reported i m hm
  have hnonneg := total_nonneg fun (_ : Int) packet
    (_ : c.udpSentPackets[_]? = some packet) => Pacing.inFlight_nonneg i packet
  refine ⟨by omega, fun hall index packet hpacket hsent hstamp => ?_⟩
  have hle := le_total (fun _ packet _ => Pacing.inFlight_nonneg i packet) hpacket
  have hsize := Pacing.getSize_nonneg packet
  rw [Pacing.inFlight, if_pos ⟨hsent, hstamp⟩] at hle
  omega

/-- The client sends ten bytes, and the server confirms them. -/
def measuredRun : List Move :=
  [.raise .client .udpWrite 0 (Io.steady 0),
    .raise .client .tcpRead 1 { Io.steady 1 with tcpBytes := List.replicate 10 7 },
    .raise .client .udpWrite 10 (Io.steady 10),
    .deliver .server 0 (Io.steady 20),
    .deliver .server 1 (Io.steady 21),
    .raise .server .buildConfirmations 120 (Io.steady 120),
    .raise .server .udpWrite 121 (Io.steady 121)]

/-- The Confirmation packet arrives in time. -/
def confirmedRun : List Move :=
  measuredRun ++ [.deliver .client 0 (Io.steady 130)]

/-- The Confirmation packet arrives after `udpResend` has given the packets up. -/
def lateRun : List Move :=
  measuredRun ++ [.raise .client .udpResend 3010 (Io.steady 3010), .deliver .client 0 (Io.steady 3015)]

def confirmedState : Option Tunnel :=
  Runs.run step (EachSide Connection.ReportsOnce) (fresh Config.small) confirmedRun

theorem confirmedState_isSome : confirmedState.isSome = true := by
  decide +kernel

theorem lateRun_isSome : (play Config.small lateRun).isSome = true := by
  decide +kernel

end Tunnel

end IceTunnel
