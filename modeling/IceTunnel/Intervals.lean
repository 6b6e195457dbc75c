import IceTunnel.Pacing
import IceTunnel.Server

namespace IceTunnel

theorem Config.maxIntervalUs_pos {config : Config} (h : 3 ≤ config.udpResendUs) :
    0 < config.udpResendUs.tdiv 3 := by
  rw [Int.tdiv_eq_ediv_of_nonneg (by omega)]
  omega

theorem one_le_roundHalfAway_iff {q : Rat} (h : 0 ≤ q) : 1 ≤ roundHalfAway q ↔ 1 / 2 ≤ q := by
  rw [roundHalfAway, if_pos h, Int.le_floor]
  constructor
  · intro hle
    push_cast at hle
    linarith
  · intro hle
    push_cast
    linarith

namespace Measure

/-- The share of the payload that arrived, over the share that has to arrive. -/
def successShare (m : Measure) (config : Config) : Rat :=
  (m.successSize : Rat) / m.size / (1 - config.udpMaxSendLossPercent / 100)

/-- The packets were sent with intervals of hardly more than 1 on average, hardly slower
than that, and hardly any of them was lost. -/
def Hurried (m : Measure) (config : Config) : Prop :=
  let maxIntervalUs := config.udpResendUs.tdiv 3
  let summaryIntervalUs := m.summaryIntervalUs * (2 * maxIntervalUs - 1)
  m.endUs - m.beginUs ≤ 2 * (m.summaryIntervalUs + m.count) ∧
    summaryIntervalUs < 2 * (maxIntervalUs * m.count) ∧
    (m.failSize ≤ 0 ∨ (summaryIntervalUs : Rat) < m.successShare config * (maxIntervalUs * m.count : Int))

instance (m : Measure) (config : Config) : Decidable (m.Hurried config) :=
  inferInstanceAs (Decidable (_ ∧ _ ∧ _))

section Interval

variable {m : Measure} {config : Config}

theorem speedAmplifier_pos (m : Measure) (config : Config) : 0 < m.speedAmplifier config := by
  simp only [speedAmplifier]
  split_ifs <;> linarith

theorem lt_clamp_iff {x q : Rat} (hx : 1 ≤ x) :
    x < (let q := if q < 1 / 2 then 1 / 2 else q
      if q > 2 then 2 else q) ↔ x < 2 ∧ x < q := by
  simp only
  split_ifs with hlow hhigh hhigh
  · norm_num at hhigh
  · constructor
    · intro hlt
      linarith
    · rintro ⟨-, hlt⟩
      linarith
  · constructor
    · intro hlt
      exact ⟨hlt, hlt.trans hhigh⟩
    · rintro ⟨hlt, -⟩
      exact hlt
  · constructor
    · intro hlt
      exact ⟨hlt.trans_le (not_lt.mp hhigh), hlt⟩
    · rintro ⟨-, hlt⟩
      exact hlt

/-- The amplifier gets over a bound from 1 on only without the guard on the actual intervals. -/
theorem lt_speedAmplifier_iff {x : Rat} (hx : 1 ≤ x) :
    x < m.speedAmplifier config ↔
      ((m.endUs : Rat) - m.beginUs) / m.count ≤ ((m.summaryIntervalUs : Rat) / m.count + 1) * 2 ∧
        x < 2 ∧ (m.failSize ≤ 0 ∨ x < m.successShare config) := by
  have hdef : m.speedAmplifier config =
      let speedAmplifier : Rat := if m.failSize ≤ 0 then 2 else m.successShare config
      let speedAmplifier : Rat := if speedAmplifier > 1 ∧ ((m.endUs : Rat) - m.beginUs) / m.count >
          ((m.summaryIntervalUs : Rat) / m.count + 1) * 2 then 1 else speedAmplifier
      let speedAmplifier : Rat := if speedAmplifier < 1 / 2 then 1 / 2 else speedAmplifier
      if speedAmplifier > 2 then 2 else speedAmplifier := rfl
  rw [hdef]
  generalize ((m.endUs : Rat) - m.beginUs) / m.count = actualIntervalUs
  generalize ((m.summaryIntervalUs : Rat) / m.count + 1) * 2 = slowUs
  generalize m.successShare config = share
  simp only
  rw [lt_clamp_iff hx]
  rcases le_or_gt actualIntervalUs slowUs with hfast | hslow
  · have hguard : ∀ q : Rat, ¬(q > 1 ∧ actualIntervalUs > slowUs) := fun q hq => not_lt.mpr hfast hq.2
    simp only [hguard, if_false, hfast, true_and]
    split
    · rename_i hfail
      simp only [hfail, true_or, and_true, and_self]
    · rename_i hfail
      simp only [hfail, false_or]
  · simp only [not_le.mpr hslow, false_and, iff_false, not_and, not_lt, hslow, and_true]
    intro _
    generalize (if m.failSize ≤ 0 then 2 else share) = q
    split
    · exact hx
    · rename_i hguard
      exact (not_lt.mp hguard).trans hx

variable (hcount : 0 < m.count) (hsummary : m.count ≤ m.summaryIntervalUs)
  (hresend : 3 ≤ config.udpResendUs)

include hcount hsummary hresend

/-- The free interval is rounded to zero when the amplifier is large. -/
theorem half_le_freeInterval_iff :
    1 / 2 ≤ m.freeInterval config ↔ m.speedAmplifier config ≤
      (m.summaryIntervalUs * (2 * config.udpResendUs.tdiv 3 - 1) : Int) /
        (config.udpResendUs.tdiv 3 * m.count : Int) := by
  have hspeed := m.speedAmplifier_pos config
  have hcount' : (0 : Rat) < m.count := by exact_mod_cast hcount
  have hsummary' : (0 : Rat) < m.summaryIntervalUs := by exact_mod_cast hcount.trans_le hsummary
  have hmaxInt := Config.maxIntervalUs_pos hresend
  have hmax : (0 : Rat) < (config.udpResendUs.tdiv 3 : Int) := by exact_mod_cast hmaxInt
  have hfree : m.freeInterval config = m.summaryIntervalUs * (config.udpResendUs.tdiv 3 : Int) /
      (m.speedAmplifier config * m.count * (config.udpResendUs.tdiv 3 : Int) + m.summaryIntervalUs) := by
    simp only [freeInterval]
    field_simp
  rw [hfree, le_div_iff₀ (by positivity), le_div_iff₀ (by exact_mod_cast Int.mul_pos hmaxInt hcount)]
  push_cast
  constructor <;> intro h <;> linarith

/-- A hurried measure, and no other, gives an interval that is rounded to zero. -/
theorem one_le_interval_iff :
    1 ≤ roundHalfAway (m.interval config) ↔ ¬m.Hurried config := by
  have hmaxInt := Config.maxIntervalUs_pos hresend
  have hcount' : (0 : Rat) < m.count := by exact_mod_cast hcount
  have hprod : (0 : Rat) < (config.udpResendUs.tdiv 3 * m.count : Int) := by
    exact_mod_cast Int.mul_pos hmaxInt hcount
  have hmax : (1 : Rat) ≤ (config.udpResendUs.tdiv 3 : Int) := by exact_mod_cast hmaxInt
  have hone : (1 : Rat) ≤ (m.summaryIntervalUs * (2 * config.udpResendUs.tdiv 3 - 1) : Int) /
      (config.udpResendUs.tdiv 3 * m.count : Int) := by
    rw [one_le_div hprod]
    have hle : config.udpResendUs.tdiv 3 * m.count ≤
        m.summaryIntervalUs * (2 * config.udpResendUs.tdiv 3 - 1) := by nlinarith
    exact_mod_cast hle
  have hhalf : 1 / 2 ≤ m.interval config ↔ 1 / 2 ≤ m.freeInterval config := by
    rw [interval_eq, le_min_iff, le_max_iff]
    constructor
    · rintro ⟨hfree | hlow, -⟩
      · exact hfree
      · norm_num at hlow
    · intro hfree
      exact ⟨.inl hfree, by linarith⟩
  rw [one_le_roundHalfAway_iff (m.interval_nonneg (by omega)), hhalf,
    half_le_freeInterval_iff hcount hsummary hresend, ← not_lt, not_iff_not,
    lt_speedAmplifier_iff hone, Hurried]
  have hactual : ((m.endUs : Rat) - m.beginUs) / m.count ≤ ((m.summaryIntervalUs : Rat) / m.count + 1) * 2 ↔
      m.endUs - m.beginUs ≤ 2 * (m.summaryIntervalUs + m.count) := by
    rw [div_le_iff₀ hcount']
    have hright : ((m.summaryIntervalUs : Rat) / m.count + 1) * 2 * m.count =
        (2 * (m.summaryIntervalUs + m.count) : Int) := by
      push_cast
      field_simp
    rw [hright]
    exact_mod_cast Iff.rfl
  rw [hactual, div_lt_iff₀ hprod, div_lt_iff₀ hprod]
  exact_mod_cast Iff.rfl

end Interval

end Measure

namespace Ledger

/-- The report resolves no hurried measure. -/
def Unhurried (l : Ledger) (success : Bool) (packet : Packet) : Prop :=
  ∀ m ∈ l.udpSendMeasures[packet.measureIndex]?,
    let m := m.report success packet.getSize
    m.IsResolved → ¬m.Hurried l.toConfig

instance (l : Ledger) (success : Bool) (packet : Packet) :
    Decidable (l.Unhurried success packet) :=
  inferInstanceAs (Decidable (∀ _ ∈ _, _ → ¬_))

/-- What `onUdpSentBufferChanged` divides by, before the report and after it. -/
def Divides (l : Ledger) (success : Bool) (packet : Packet) : Prop :=
  1 ≤ l.udpSendIntervalUs ∧
    1 ≤ (l.toPacing.onUdpDelivered l.toConfig success packet.measureIndex packet.getSize
      ).udpSendIntervalUs

instance (l : Ledger) (success : Bool) (packet : Packet) :
    Decidable (l.Divides success packet) :=
  inferInstanceAs (Decidable (_ ∧ _))

/-- Packets are sent with intervals of at least 1. -/
structure Steady (l : Ledger) : Prop where
  resend : 3 ≤ l.udpResendUs
  interval : 1 ≤ l.udpSendIntervalUs
  measures : ∀ (i : Int) (m : Measure), l.udpSendMeasures[i]? = some m → m.count ≤ m.summaryIntervalUs

section Steady

variable {l l' : Ledger}

theorem Steady.divides (h : l.Steady) (success : Bool) (packet : Packet)
    (hcalm : l.Unhurried success packet) : l.Divides success packet := by
  refine ⟨h.interval, ?_⟩
  cases hm : l.udpSendMeasures[packet.measureIndex]? with
  | none =>
      rw [Pacing.onUdpDelivered_of_none _ _ _ _ _ hm]
      exact h.interval
  | some m =>
      rw [Pacing.onUdpDelivered_of_some _ _ _ _ _ hm]
      simp only
      split
      · rename_i hresolved
        have hreport : (m.report success packet.getSize).count = m.count ∧
            (m.report success packet.getSize).summaryIntervalUs = m.summaryIntervalUs := by
          cases success <;> exact ⟨rfl, rfl⟩
        have hsummary : (m.report success packet.getSize).count ≤
            (m.report success packet.getSize).summaryIntervalUs := by
          rw [hreport.1, hreport.2]
          exact h.measures _ m hm
        exact (Measure.one_le_interval_iff hresolved.2.2.1 hsummary h.resend).mpr (hcalm m hm hresolved)
      · exact h.interval

theorem Steady.delivered (h : l.Steady) (success : Bool) (packet : Packet)
    (hcalm : l.Unhurried success packet) (i : Int) (m : Measure)
    (hm : (l.toPacing.onUdpDelivered l.toConfig success packet.measureIndex packet.getSize
      ).udpSendMeasures[i]? = some m) : m.count ≤ m.summaryIntervalUs := by
  cases hreported : l.udpSendMeasures[packet.measureIndex]? with
  | none =>
      rw [Pacing.onUdpDelivered_of_none _ _ _ _ _ hreported] at hm
      exact h.measures i m hm
  | some reported =>
      rw [Pacing.onUdpDelivered_measures _ _ _ _ _ hreported] at hm
      split_ifs at hm
      · rw [← Option.some.inj hm]
        have hkept := h.measures _ reported hreported
        cases success <;> exact hkept
      · exact h.measures i m hm

theorem Steady.sent (h : l.Steady) (size timeUs i : Int) (m : Measure)
    (hm : ((l.toPacing.onUdpSent l.toConfig l.udpSendMeasureIndex l.udpSendIntervalUs size timeUs
      ).getD l.toPacing).udpSendMeasures[i]? = some m) : m.count ≤ m.summaryIntervalUs := by
  have hinterval := h.interval
  cases hsent : l.toPacing.onUdpSent l.toConfig l.udpSendMeasureIndex l.udpSendIntervalUs size timeUs with
  | none =>
      rw [hsent, Option.getD_none] at hm
      exact h.measures i m hm
  | some q =>
      rw [hsent, Option.getD_some] at hm
      obtain ⟨current, hcurrent, rfl | rfl⟩ := Pacing.onUdpSent_eq_some hsent
      all_goals
        have hkept := h.measures _ current hcurrent
        simp only [Std.ExtTreeMap.getElem?_insert, Std.ExtTreeMap.getD_eq_getD_getElem?] at hm
      · split at hm
        · rw [← Option.some.inj hm]
          simp only
          omega
        · exact h.measures i m hm
      · split at hm
        · rw [← Option.some.inj hm]
          simp only
          split
          · simp only [Option.getD_some]
            omega
          · cases hnext : l.udpSendMeasures[l.udpSendMeasureIndex + 1]? with
            | none => exact le_refl 0
            | some next => exact h.measures _ next hnext
        · split at hm
          · rw [← Option.some.inj hm]
            simp only
            omega
          · exact h.measures i m hm

theorem Steady.step (h : l.Steady) (hstep : Step Unhurried l l') : l'.Steady := by
  cases hstep with
  | transmit index packet timeUs measureUs =>
      refine ⟨h.resend, ?_, h.sent packet.getSize measureUs⟩
      obtain ⟨measureIndex, measures, heq⟩ := onUdpSent_getD l.toPacing l.toConfig
        l.udpSendIntervalUs packet.getSize measureUs
      rw [heq]
      exact h.interval
  | resend index packet hpacket hsent hcalm =>
      exact ⟨h.resend, (h.divides false packet hcalm).2, h.delivered false packet hcalm⟩
  | forget index packet hpacket hcalm =>
      simp only
      split
      · exact ⟨h.resend, h.interval, h.measures⟩
      · rename_i hconfirmed
        have hcalm := hcalm (by simpa using hconfirmed)
        exact ⟨h.resend, (h.divides true packet hcalm).2, h.delivered true packet hcalm⟩
  | _ => exact ⟨h.resend, h.interval, h.measures⟩

end Steady

end Ledger

namespace Server

open Ledger

variable {s t : Server}

theorem getUdpInitialIntervalUs_pos (hinitial : 2 ≤ s.udpInitialSendIntervalUs)
    (hresend : 3 ≤ s.config.udpResendUs) : 1 ≤ s.getUdpInitialIntervalUs := by
  have hmax := Config.maxIntervalUs_pos hresend
  unfold getUdpInitialIntervalUs
  simp only
  split
  · generalize hspeed : max (s.activeIntervals.map fun interval => 1 / ((max 10 interval : Int) : Rat)).sum
      (1 / 4 / (s.udpInitialSendIntervalUs : Rat)) = summarySpeed
    have hpos : 0 < summarySpeed := by
      have hinitial' : (0 : Rat) < s.udpInitialSendIntervalUs := by exact_mod_cast (by omega)
      rw [← hspeed]
      exact lt_max_of_lt_right (by positivity)
    have hceil : 0 < ⌈((s.activeIntervals.length + 1 : Nat) : Rat) / summarySpeed⌉ := by
      rw [Int.ceil_pos]
      positivity
    split_ifs <;> omega
  · omega

/-- The move of a connection resolves no hurried measure. -/
def Unhurried (s : Server) (m : Move) : Prop :=
  s.EachTarget (fun c move => c.ReportsMeet Ledger.Unhurried move) m

instance (s : Server) (m : Move) : Decidable (s.Unhurried m) :=
  inferInstanceAs (Decidable (s.EachTarget _ m))

/-- The rates that a server starts with. -/
structure Rated (s : Server) : Prop where
  initial : 2 ≤ s.udpInitialSendIntervalUs
  resend : 3 ≤ s.config.udpResendUs
  loss_nonneg : 0 ≤ s.config.udpMaxSendLossPercent
  loss_lt : s.config.udpMaxSendLossPercent < 100

theorem steady_step (h : s.Rated ∧ s.Each fun c => c.ledger.Steady) {m : Move} (hcalm : s.Unhurried m)
    (hstep : s.step m = some t) : t.Rated ∧ t.Each fun c => c.ledger.Steady := by
  obtain ⟨hrated, hsteady⟩ := h
  have hparameters := step_parameters hstep
  have hconfig : t.config = s.config := congrArg (·.1) hparameters
  have hinitial : t.udpInitialSendIntervalUs = s.udpInitialSendIntervalUs :=
    congrArg (·.2.2) hparameters
  constructor
  · constructor
    · rw [hinitial]
      exact hrated.initial
    · rw [hconfig]
      exact hrated.resend
    · rw [hconfig]
      exact hrated.loss_nonneg
    · rw [hconfig]
      exact hrated.loss_lt
  · refine Each.step (fun c sum hc => ?_) (fun sum io => ?_) (fun c m d hc hok hm => ?_)
      (fun c packet io hnumbered _ htype => ?_) hsteady hcalm hstep
    · exact ⟨hc.resend, hc.interval, hc.measures⟩
    · rw [Connection.new_ledger]
      refine ⟨hrated.resend, getUdpInitialIntervalUs_pos hrated.initial hrated.resend, ?_⟩
      intro i measure hmeasure
      simp only [Std.ExtTreeMap.getElem?_insert, Std.ExtTreeMap.getElem?_empty] at hmeasure
      split at hmeasure
      · exact le_of_eq (Option.some.inj hmeasure ▸ rfl)
      · cases hmeasure
    · exact Runs.chain_invariant (fun _ _ hl hentry => hl.step hentry)
        (Connection.step_entries hok hm) hc
    · rw [htype] at hnumbered
      cases hnumbered

/-- Without hurried measures no connection of a server has the interval zero, and none
divides by zero within a move. -/
theorem one_le_udpSendIntervalUs {config : Config} {udpReceivePacketSize udpInitialSendIntervalUs : Int}
    (hrated : (blank config udpReceivePacketSize udpInitialSendIntervalUs).Rated)
    (h : Runs.Reachable (· = blank config udpReceivePacketSize udpInitialSendIntervalUs) step
      Unhurried s) :
    (s.Each fun c => 1 ≤ c.udpSendIntervalUs) ∧
      ∀ m, s.Unhurried m → s.EachTarget (fun c move => c.ReportsMeet Ledger.Divides move) m := by
  have hsteady := h.invariant (I := fun s => s.Rated ∧ s.Each fun c => c.ledger.Steady)
    (by
      rintro _ rfl
      exact ⟨hrated, fun index client hclient => by simp [blank] at hclient⟩)
    fun _ _ _ hs hcalm hstep => steady_step hs hcalm hstep
  refine ⟨fun index client hclient => (hsteady.2 index client hclient).interval, ?_⟩
  intro m hcalm x hx client hclient
  refine (hcalm x hx client hclient).strengthen _ (I := Ledger.Steady)
    (fun _ _ hl hentry => hl.step hentry) (fun _ success packet hl _ => hl.divides success packet) ?_
  have hledger := hsteady.2 x.1 client hclient
  exact ⟨hledger.resend, hledger.interval, hledger.measures⟩

/-- Every packet with a payload makes a measure of its own. -/
def hurriedConfig : Config :=
  { Config.small with udpMaxSentMeasureSize := 1 }

/-- The Confirmation packet that confirms all indices below its own. -/
def confirmAll (index : Int) : List UInt8 :=
  (Packet.datagram .confirmation index []).data

/-- One packet is sent and confirmed at once. -/
def steadyRun : List Move :=
  [.accept [1] (Io.steady 0),
    .raise 2 .udpWrite 0 (Io.steady 0),
    .raise 2 .tcpRead 1 { Io.steady 1 with tcpBytes := List.replicate 10 7 },
    .raise 2 .udpWrite 2 (Io.steady 2),
    .receive 1 [1] (confirmAll 2) (Io.steady 3)]

def steadyState : Option Server :=
  Runs.run step Unhurried (blank hurriedConfig 100 2) steadyRun

theorem steadyState_isSome : steadyState.isSome = true := by
  decide +kernel

theorem rated_hurriedConfig : (blank hurriedConfig 100 2).Rated :=
  ⟨by decide, by decide, by decide +kernel, by decide +kernel⟩

/-- The interval 2 becomes 1. -/
theorem one_le_udpSendIntervalUs_steadyRun :
    ∃ s : Server, Runs.Reachable (· = blank hurriedConfig 100 2) step Unhurried s ∧
      s.connections[2]?.map (·.connection.udpSendIntervalUs) = some 1 ∧
      s.Each fun c => 1 ≤ c.udpSendIntervalUs := by
  have hreachable : Runs.Reachable (· = blank hurriedConfig 100 2) step Unhurried
      (steadyState.get steadyState_isSome) :=
    .of_run (.start rfl) (Option.some_get steadyState_isSome).symm
  have hinterval : (steadyState.get steadyState_isSome).connections[2]?.map
      (·.connection.udpSendIntervalUs) = some 1 := by
    decide +kernel
  exact ⟨_, hreachable, hinterval, (one_le_udpSendIntervalUs rated_hurriedConfig hreachable).1⟩

/-- One more packet is sent right after. -/
def hurriedRun : List Move :=
  steadyRun ++
    [.raise 2 .tcpRead 4 { Io.steady 4 with tcpBytes := List.replicate 10 7 },
      .raise 2 .udpWrite 5 (Io.steady 5)]

/-- And confirmed at once. -/
def hurriedMove : Move :=
  .receive 1 [1] (confirmAll 3) (Io.steady 6)

def hurriedState : Option Server :=
  Runs.run step Runs.anyMove (blank hurriedConfig 100 2) hurriedRun

theorem hurriedState_isSome : hurriedState.isSome = true := by
  decide +kernel

theorem hurriedMove_isSome :
    ((hurriedState.get hurriedState_isSome).step hurriedMove).isSome = true := by
  decide +kernel

/-- The interval becomes zero, and the handler divides by it. -/
theorem udpSendIntervalUs_hurriedRun :
    (blank hurriedConfig 100 2).Rated ∧
      ∃ s t : Server, Runs.Reachable (· = blank hurriedConfig 100 2) step Runs.anyMove s ∧
        s.step hurriedMove = some t ∧
        ¬(s.EachTarget (fun c move => c.ReportsMeet Ledger.Divides move) hurriedMove) ∧
        t.connections[2]?.map (·.connection.udpSendIntervalUs) = some 0 := by
  have hreachable : Runs.Reachable (· = blank hurriedConfig 100 2) step Runs.anyMove
      (hurriedState.get hurriedState_isSome) :=
    .of_run (.start rfl) (Option.some_get hurriedState_isSome).symm
  have hdivides : ¬((hurriedState.get hurriedState_isSome).EachTarget
      (fun c move => c.ReportsMeet Ledger.Divides move) hurriedMove) := by
    decide +kernel
  have hinterval : (((hurriedState.get hurriedState_isSome).step hurriedMove).get
      hurriedMove_isSome).connections[2]?.map (·.connection.udpSendIntervalUs) = some 0 := by
    decide +kernel
  exact ⟨rated_hurriedConfig, _, _, hreachable, (Option.some_get hurriedMove_isSome).symm,
    hdivides, hinterval⟩

end Server

end IceTunnel
