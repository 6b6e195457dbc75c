import Mathlib.Algebra.Order.Floor.Ring
import IceTunnel.Accounting

namespace IceTunnel

namespace Measure

/-- What `onUdpDelivered` adds to a measure. -/
def report (m : Measure) (success : Bool) (size : Int) : Measure :=
  if success then { m with successSize := m.successSize + size }
  else { m with failSize := m.failSize + size }

/-- The test of `onUdpDelivered`: the measure is evaluated now. -/
def IsResolved (m : Measure) : Prop :=
  m.beginUs ≥ 0 ∧ m.endUs ≥ m.beginUs ∧ m.count > 0 ∧ m.successSize + m.failSize ≥ m.size

instance (m : Measure) : Decidable m.IsResolved :=
  inferInstanceAs (Decidable (_ ∧ _))

@[simp] theorem report_size (m : Measure) (success : Bool) (size : Int) :
    (m.report success size).size = m.size := by
  cases success <;> rfl

theorem report_sum (m : Measure) (success : Bool) (size : Int) :
    (m.report success size).successSize + (m.report success size).failSize =
      m.successSize + m.failSize + size := by
  cases success <;> simp only [report, Bool.false_eq_true, if_true, if_false] <;> omega

/-- The `speedAmplifier` that `onUdpDelivered` ends up with. -/
def speedAmplifier (m : Measure) (config : Config) : Rat :=
  let intervalUs : Rat := m.summaryIntervalUs / m.count
  let actualIntervalUs : Rat := ((m.endUs : Rat) - m.beginUs) / m.count
  let speedAmplifier : Rat :=
    (m.successSize : Rat) / m.size / (1 - config.udpMaxSendLossPercent / 100)
  let speedAmplifier := if m.failSize ≤ 0 then 2 else speedAmplifier
  let speedAmplifier :=
    if speedAmplifier > 1 ∧ actualIntervalUs > (intervalUs + 1) * 2 then 1 else speedAmplifier
  let speedAmplifier := if speedAmplifier < 1 / 2 then 1 / 2 else speedAmplifier
  if speedAmplifier > 2 then 2 else speedAmplifier

/-- The `udpSendIntervalUsFloat` that `onUdpDelivered` takes from a measure. -/
def interval (m : Measure) (config : Config) : Rat :=
  let maxIntervalUs : Rat := config.udpResendUs.tdiv 3
  let interval : Rat := (m.summaryIntervalUs : Rat) / m.count / m.speedAmplifier config
  let interval := interval / (1 + 1 / maxIntervalUs * interval)
  let interval := if interval < 1 / 10 then 1 / 10 else interval
  if interval > maxIntervalUs then maxIntervalUs else interval

end Measure

namespace Pacing

variable (p : Pacing) (config : Config)

/-- A measure is evaluated: its interval is taken, and it goes with all before it. -/
def evaluate (measureIndex : Int) (m : Measure) : Pacing :=
  { p with
    udpSummaryConnectionsSendIntervalUs := p.udpSummaryConnectionsSendIntervalUs -
      p.udpSendIntervalUs + roundHalfAway (m.interval config)
    udpSendIntervalUs := roundHalfAway (m.interval config)
    udpSendIntervalUsFloat := m.interval config
    udpSendMeasures := (p.udpSendMeasures.keys.takeWhile (· ≤ measureIndex)).reverse.foldl
      (fun measures key => measures.erase key) p.udpSendMeasures }

section Delivered

variable (success : Bool) (measureIndex size : Int)

theorem onUdpDelivered_of_none (h : p.udpSendMeasures[measureIndex]? = none) :
    p.onUdpDelivered config success measureIndex size = p := by
  simp only [onUdpDelivered, h]

theorem onUdpDelivered_of_some {m : Measure} (h : p.udpSendMeasures[measureIndex]? = some m) :
    p.onUdpDelivered config success measureIndex size =
      let m := m.report success size
      let p := { p with udpSendMeasures := p.udpSendMeasures.insert measureIndex m }
      if m.IsResolved then p.evaluate config measureIndex m else p := by
  simp only [onUdpDelivered, h]
  rfl

@[simp] theorem onUdpDelivered_udpSendMeasureIndex :
    (p.onUdpDelivered config success measureIndex size).udpSendMeasureIndex =
      p.udpSendMeasureIndex := by
  cases h : p.udpSendMeasures[measureIndex]? with
  | none => rw [onUdpDelivered_of_none _ _ _ _ _ h]
  | some m =>
      rw [onUdpDelivered_of_some _ _ _ _ _ h]
      simp only
      split <;> rfl

theorem onUdpDelivered_udpLastSentUs :
    (p.onUdpDelivered config success measureIndex size).udpLastSentUs = p.udpLastSentUs := by
  cases h : p.udpSendMeasures[measureIndex]? with
  | none => rw [onUdpDelivered_of_none _ _ _ _ _ h]
  | some m =>
      rw [onUdpDelivered_of_some _ _ _ _ _ h]
      simp only
      split <;> rfl

theorem onUdpDelivered_measures {m : Measure} (h : p.udpSendMeasures[measureIndex]? = some m)
    (i : Int) :
    (p.onUdpDelivered config success measureIndex size).udpSendMeasures[i]? =
      if (m.report success size).IsResolved ∧ i ≤ measureIndex then none
      else if i = measureIndex then some (m.report success size)
      else p.udpSendMeasures[i]? := by
  rw [onUdpDelivered_of_some _ _ _ _ _ h]
  simp only
  split
  · rename_i hresolved
    simp only [evaluate, SortedKeys.getElem?_foldl_erase, List.mem_reverse, hresolved, true_and,
      SortedKeys.mem_takeWhile_keys_le]
    by_cases hle : i ≤ measureIndex
    · simp only [hle, true_and, if_true, ite_eq_left_iff]
      intro hnot
      exact Std.ExtTreeMap.getElem?_eq_none hnot
    · have hne : i ≠ measureIndex := by
        rintro rfl
        exact hle (le_refl i)
      simp only [hle, hne, false_and, if_false, Std.ExtTreeMap.getElem?_insert, compare_eq_iff_eq,
        Ne.symm hne]
  · rename_i hopen
    simp only [hopen, false_and, if_false, Std.ExtTreeMap.getElem?_insert, compare_eq_iff_eq]
    by_cases hi : i = measureIndex
    · simp only [hi, if_true]
    · simp only [hi, Ne.symm hi, if_false]

end Delivered

section Sent

variable {p config} {q : Pacing} {intervalUs size timeUs : Int}

theorem onUdpSent_eq_some
    (h : p.onUdpSent config p.udpSendMeasureIndex intervalUs size timeUs = some q) :
    ∃ m, p.udpSendMeasures[p.udpSendMeasureIndex]? = some m ∧
      let m := { m with
        count := m.count + 1
        size := m.size + size
        summaryIntervalUs := m.summaryIntervalUs + intervalUs }
      let next := p.udpSendMeasureIndex + 1
      let measures := p.udpSendMeasures.insert p.udpSendMeasureIndex { m with endUs := timeUs }
      q = { p with udpSendMeasures := p.udpSendMeasures.insert p.udpSendMeasureIndex m } ∨
        q = { p with
          udpSendMeasureIndex := next
          udpSendMeasures :=
            measures.insert next { measures.getD next {} with beginUs := timeUs } } := by
  simp only [onUdpSent, ne_eq, not_true_eq_false, if_false, Option.map_eq_some_iff] at h
  obtain ⟨m, hm, hq⟩ := h
  refine ⟨m, hm, ?_⟩
  split at hq
  · exact .inr hq.symm
  · exact .inl hq.symm

end Sent

end Pacing

theorem roundHalfAway_nonneg {q : Rat} (h : 0 ≤ q) : 0 ≤ roundHalfAway q := by
  rw [roundHalfAway, if_pos h]
  apply Int.floor_nonneg.mpr
  linarith

namespace Measure

/-- The interval before it is clamped. -/
def freeInterval (m : Measure) (config : Config) : Rat :=
  let maxIntervalUs : Rat := config.udpResendUs.tdiv 3
  let interval : Rat := (m.summaryIntervalUs : Rat) / m.count / m.speedAmplifier config
  interval / (1 + 1 / maxIntervalUs * interval)

theorem interval_eq (m : Measure) (config : Config) :
    m.interval config = min (max (m.freeInterval config) (1 / 10)) (config.udpResendUs.tdiv 3 : Int) := by
  have hlow : (if m.freeInterval config < 1 / 10 then 1 / 10 else m.freeInterval config) =
      max (m.freeInterval config) (1 / 10) := by
    split
    · rename_i hlt
      exact (max_eq_right hlt.le).symm
    · rename_i hge
      exact (max_eq_left (not_lt.mp hge)).symm
  have hdef : m.interval config =
      if (if m.freeInterval config < 1 / 10 then 1 / 10 else m.freeInterval config) >
          ((config.udpResendUs.tdiv 3 : Int) : Rat) then ((config.udpResendUs.tdiv 3 : Int) : Rat)
      else if m.freeInterval config < 1 / 10 then 1 / 10 else m.freeInterval config := rfl
  rw [hdef, hlow]
  split
  · rename_i hgt
    exact (min_eq_right hgt.le).symm
  · rename_i hle
    exact (min_eq_left (not_lt.mp hle)).symm

theorem interval_nonneg (m : Measure) {config : Config} (h : 0 ≤ config.udpResendUs) :
    0 ≤ m.interval config := by
  have hmax : (0 : Rat) ≤ (config.udpResendUs.tdiv 3 : Int) := by
    exact_mod_cast Int.tdiv_nonneg h (by decide)
  rw [interval_eq]
  exact le_min (le_max_of_le_right (by norm_num)) hmax

end Measure

namespace Ledger

/-- The next time to send at is not negative. -/
structure Paced (l : Ledger) : Prop where
  resend_nonneg : 0 ≤ l.udpResendUs
  last_nonneg : 0 ≤ l.udpLastSentUs
  interval_nonneg : 0 ≤ l.udpSendIntervalUs

variable {R : Ledger → Bool → Packet → Prop} {l l' : Ledger}

theorem onUdpDelivered_interval_nonneg {p : Pacing} {config : Config} (hresend : 0 ≤ config.udpResendUs)
    (h : 0 ≤ p.udpSendIntervalUs) (success : Bool) (measureIndex size : Int) :
    0 ≤ (p.onUdpDelivered config success measureIndex size).udpSendIntervalUs := by
  cases hm : p.udpSendMeasures[measureIndex]? with
  | none =>
      rw [Pacing.onUdpDelivered_of_none _ _ _ _ _ hm]
      exact h
  | some m =>
      rw [Pacing.onUdpDelivered_of_some _ _ _ _ _ hm]
      simp only
      split
      · exact roundHalfAway_nonneg (Measure.interval_nonneg _ hresend)
      · exact h

theorem onUdpSent_getD (p : Pacing) (config : Config) (intervalUs size timeUs : Int) :
    ∃ (index : Int) (measures : Std.ExtTreeMap Int Measure),
      (p.onUdpSent config p.udpSendMeasureIndex intervalUs size timeUs).getD p =
        { p with udpSendMeasureIndex := index, udpSendMeasures := measures } := by
  cases h : p.onUdpSent config p.udpSendMeasureIndex intervalUs size timeUs with
  | none => exact ⟨_, _, rfl⟩
  | some q =>
      obtain ⟨m, -, rfl | rfl⟩ := Pacing.onUdpSent_eq_some h
      · exact ⟨_, _, rfl⟩
      · exact ⟨_, _, rfl⟩

theorem Paced.step (h : l.Paced) (hstep : Step R l l') : l'.Paced := by
  obtain ⟨hresend, hlast, hinterval⟩ := h
  cases hstep with
  | pace timeUs htime =>
      refine ⟨hresend, ?_, hinterval⟩
      change 0 ≤ timeUs
      omega
  | transmit index packet timeUs measureUs =>
      obtain ⟨measureIndex, measures, heq⟩ := onUdpSent_getD l.toPacing l.toConfig
        l.udpSendIntervalUs packet.getSize measureUs
      rw [heq]
      exact ⟨hresend, hlast, hinterval⟩
  | resend index packet =>
      refine ⟨hresend, ?_, onUdpDelivered_interval_nonneg hresend hinterval _ _ _⟩
      rw [Pacing.onUdpDelivered_udpLastSentUs]
      exact hlast
  | forget index packet =>
      simp only
      split
      · exact ⟨hresend, hlast, hinterval⟩
      · refine ⟨hresend, ?_, onUdpDelivered_interval_nonneg hresend hinterval _ _ _⟩
        rw [Pacing.onUdpDelivered_udpLastSentUs]
        exact hlast
  | _ => exact ⟨hresend, hlast, hinterval⟩

end Ledger

end IceTunnel
