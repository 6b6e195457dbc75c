import IceTunnel.Foundation.SortedKeys
import IceTunnel.Pacing

/-!
The measures of a connection, with the iterators of `onUdpDelivered`: the current measure
is opened by `onUdpSent` and closed by it, and the others are evaluated when all that they
count has been reported.
-/

namespace IceTunnel

/-- The measures, of which `udpSendMeasureIndex` is the current one. -/
structure MeasureWindow where
  udpSendMeasureIndex : Int
  udpSendMeasures : Std.ExtTreeMap Int Measure

/-- The arguments of a call of `onUdpDelivered`. -/
structure Report where
  success : Bool
  measureIndex : Int
  size : Int
  deriving DecidableEq

def Pacing.window (p : Pacing) : MeasureWindow :=
  { udpSendMeasureIndex := p.udpSendMeasureIndex
    udpSendMeasures := p.udpSendMeasures }

namespace MeasureWindow

/-- The erase loop of `onUdpDelivered` with the iterator `i`.  Each turn erases the entry that
`i--` leaves, and the last one is that at `begin()`.  An iterator that is no entry of the map,
and one that is moved before `begin()`, make the result `none`. -/
def eraseLoop : Nat → Int → Std.ExtTreeMap Int Measure → Option (Std.ExtTreeMap Int Measure)
  | 0, _, _ => none
  | fuel + 1, i, measures =>
      if i ∈ measures then
        if measures.minKey? = some i then some (measures.erase i)
        else
          (SortedKeys.previous? measures i).bind fun previous =>
            eraseLoop fuel previous (measures.erase i)
      else none

variable (w : MeasureWindow) (report : Report)

/-- What `onUdpDelivered` does to the measures. -/
def onUdpDelivered : Option MeasureWindow :=
  match w.udpSendMeasures[report.measureIndex]? with
  | none => some w
  | some m =>
      let m := m.report report.success report.size
      let measures := w.udpSendMeasures.insert report.measureIndex m
      if m.IsResolved then
        (eraseLoop measures.size report.measureIndex measures).map fun measures =>
          { w with udpSendMeasures := measures }
      else some { w with udpSendMeasures := measures }

/-- `onUdpDelivered` takes the branch that evaluates the measure. -/
def evaluates : Bool :=
  (w.udpSendMeasures[report.measureIndex]?).any fun m =>
    decide (m.report report.success report.size).IsResolved

/-- The measures that a sequence of reports evaluates, in turn. -/
def evaluations : List Report → MeasureWindow → List Int
  | [], _ => []
  | report :: reports, w =>
      (if w.evaluates report then [report.measureIndex] else []) ++
        evaluations reports ((w.onUdpDelivered report).getD w)

/-- The loop erases the entry of the iterator and all before it, and ends at `begin()`. -/
theorem eraseLoop_eq {fuel : Nat} {i : Int} {measures : Std.ExtTreeMap Int Measure}
    (hi : i ∈ measures) (hfuel : measures.size ≤ fuel) :
    ∃ erased, eraseLoop fuel i measures = some erased ∧
      ∀ k, erased[k]? = if k ≤ i then none else measures[k]? := by
  induction fuel generalizing i measures with
  | zero =>
      have hpos := List.length_pos_of_mem (Std.ExtTreeMap.mem_keys.mpr hi)
      rw [Std.ExtTreeMap.length_keys] at hpos
      omega
  | succ fuel ih =>
      rw [eraseLoop, if_pos hi]
      split
      · rename_i hbegin
        exact ⟨_, rfl, SortedKeys.getElem?_erase_first hbegin⟩
      · rename_i hbegin
        cases hprevious : SortedKeys.previous? measures i with
        | none =>
            have hleast := SortedKeys.of_previous?_eq_none hprevious
            refine absurd ?_ hbegin
            rw [Std.ExtTreeMap.minKey?_eq_some_iff_mem_and_forall]
            exact ⟨hi, fun k hk => Int.isLE_compare.mpr (hleast k hk)⟩
        | some previous =>
            obtain ⟨hmem, hlt, -⟩ := SortedKeys.of_previous?_eq_some hprevious
            have hrest : previous ∈ measures.erase i := by
              rw [Std.ExtTreeMap.mem_erase]
              exact ⟨by simpa using (ne_of_lt hlt).symm, hmem⟩
            have hless : (measures.erase i).size ≤ fuel := by
              rw [Std.ExtTreeMap.size_erase, if_pos (Std.ExtTreeMap.contains_iff_mem.mpr hi)]
              omega
            obtain ⟨erased, herased, hall⟩ := ih hrest hless
            refine ⟨erased, herased, fun k => ?_⟩
            rw [hall]
            exact SortedKeys.getElem?_erase_previous hprevious k

section Delivered

variable {w report}

theorem onUdpDelivered_of_none (h : w.udpSendMeasures[report.measureIndex]? = none) :
    w.onUdpDelivered report = some w ∧ w.evaluates report = false := by
  constructor
  · simp only [onUdpDelivered, h]
  · simp only [evaluates, h, Option.any_none]

theorem onUdpDelivered_of_some {m : Measure} (h : w.udpSendMeasures[report.measureIndex]? = some m) :
    ∃ measures, w.onUdpDelivered report = some { w with udpSendMeasures := measures } ∧
      w.evaluates report = decide (m.report report.success report.size).IsResolved ∧
      ∀ i, measures[i]? =
        if (m.report report.success report.size).IsResolved ∧ i ≤ report.measureIndex then none
        else if i = report.measureIndex then some (m.report report.success report.size)
        else w.udpSendMeasures[i]? := by
  have hevaluates : w.evaluates report = decide (m.report report.success report.size).IsResolved := by
    simp only [evaluates, h, Option.any_some]
  have hinsert : ∀ i, (w.udpSendMeasures.insert report.measureIndex
      (m.report report.success report.size))[i]? =
        if i = report.measureIndex then some (m.report report.success report.size)
        else w.udpSendMeasures[i]? := by
    intro i
    simp only [Std.ExtTreeMap.getElem?_insert, compare_eq_iff_eq, eq_comm (a := i)]
  simp only [onUdpDelivered, h, hevaluates]
  by_cases hresolved : (m.report report.success report.size).IsResolved
  · have hmem : report.measureIndex ∈ w.udpSendMeasures.insert report.measureIndex
        (m.report report.success report.size) := Std.ExtTreeMap.mem_insert_self
    obtain ⟨erased, herased, hall⟩ := eraseLoop_eq hmem (le_refl _)
    refine ⟨erased, ?_, trivial, fun i => ?_⟩
    · rw [if_pos hresolved, herased, Option.map_some]
    · rw [hall, hinsert]
      simp only [hresolved, true_and]
  · refine ⟨_, if_neg hresolved, trivial, fun i => ?_⟩
    rw [hinsert]
    simp only [hresolved, false_and, if_false]

theorem onUdpDelivered_window (p : Pacing) (config : Config) (report : Report) :
    p.window.onUdpDelivered report =
      some (p.onUdpDelivered config report.success report.measureIndex report.size).window := by
  have hindex := p.onUdpDelivered_udpSendMeasureIndex config report.success report.measureIndex
    report.size
  cases hm : p.udpSendMeasures[report.measureIndex]? with
  | none =>
      rw [Pacing.onUdpDelivered_of_none _ _ _ _ _ hm]
      exact (onUdpDelivered_of_none (w := p.window) hm).1
  | some m =>
      obtain ⟨measures, heq, -, hall⟩ := onUdpDelivered_of_some (w := p.window) hm
      have hmeasures : measures =
          (p.onUdpDelivered config report.success report.measureIndex report.size).udpSendMeasures := by
        apply Std.ExtTreeMap.ext_getElem?
        intro i
        rw [hall, p.onUdpDelivered_measures config _ _ _ hm]
        rfl
      rw [heq, hmeasures]
      simp only [Pacing.window, hindex]

end Delivered

/-- The current measure is open, and those before it are closed. -/
structure Consistent (w : MeasureWindow) : Prop where
  current : ∃ m, w.udpSendMeasures[w.udpSendMeasureIndex]? = some m ∧ m.endUs = -1 ∧ 0 ≤ m.count
  closed : ∀ i m, w.udpSendMeasures[i]? = some m → i ≠ w.udpSendMeasureIndex →
    i < w.udpSendMeasureIndex ∧ 0 ≤ m.endUs ∧ 0 < m.count

/-- The measure is gone, and those that are left came after it. -/
def Passed (w : MeasureWindow) (k : Int) : Prop :=
  k < w.udpSendMeasureIndex ∧ ∀ i ∈ w.udpSendMeasures, k < i

/-- The report makes the loop erase the measure and all before it, but not the current one. -/
def Erases (w : MeasureWindow) (report : Report) : Prop :=
  report.measureIndex < w.udpSendMeasureIndex ∧
    ∃ measures, w.onUdpDelivered report = some { w with udpSendMeasures := measures } ∧
      w.udpSendMeasureIndex ∈ measures ∧
      ∀ i, measures[i]? = if i ≤ report.measureIndex then none else w.udpSendMeasures[i]?

/-- Some of the measures, opened and closed as they were. -/
structure Keeps (w w' : MeasureWindow) : Prop where
  index : w'.udpSendMeasureIndex = w.udpSendMeasureIndex
  measures : ∀ (i : Int) (m' : Measure), w'.udpSendMeasures[i]? = some m' →
    ∃ m : Measure, w.udpSendMeasures[i]? = some m ∧ m'.endUs = m.endUs ∧ m'.count = m.count

/-- A packet of the current measure is sent at a time that is not negative. -/
def Sends (w w' : MeasureWindow) : Prop :=
  ∃ (p : Pacing) (config : Config) (intervalUs size timeUs : Int), 0 ≤ timeUs ∧ p.window = w ∧
    ((p.onUdpSent config p.udpSendMeasureIndex intervalUs size timeUs).getD p).window = w'

/-- The state of the measures, and those that have been evaluated. -/
structure Sound (w : MeasureWindow) (evaluated : List Int) : Prop where
  consistent : w.Consistent
  passed : ∀ k ∈ evaluated, w.Passed k
  nodup : evaluated.Nodup

section Invariant

variable {w w' : MeasureWindow} {report : Report}

theorem Consistent.mem (h : w.Consistent) : w.udpSendMeasureIndex ∈ w.udpSendMeasures := by
  obtain ⟨m, hm, -⟩ := h.current
  rw [Std.ExtTreeMap.mem_iff_isSome_getElem?, hm]
  rfl

theorem Keeps.mem (h : w.Keeps w') {i : Int} (hi : i ∈ w'.udpSendMeasures) : i ∈ w.udpSendMeasures := by
  obtain ⟨m', hm'⟩ := Option.isSome_iff_exists.mp (Std.ExtTreeMap.mem_iff_isSome_getElem?.mp hi)
  obtain ⟨m, hm, -⟩ := h.measures i m' hm'
  rw [Std.ExtTreeMap.mem_iff_isSome_getElem?, hm]
  rfl

theorem mem_of_evaluates (h : w.evaluates report = true) :
    report.measureIndex ∈ w.udpSendMeasures := by
  cases hm : w.udpSendMeasures[report.measureIndex]? with
  | none =>
      rw [(onUdpDelivered_of_none hm).2] at h
      cases h
  | some m =>
      rw [Std.ExtTreeMap.mem_iff_isSome_getElem?, hm]
      rfl

theorem onUdpDelivered_keeps (w : MeasureWindow) (report : Report) :
    ∃ w', w.onUdpDelivered report = some w' ∧ w.Keeps w' ∧
      (w.evaluates report = false → ∀ i ∈ w.udpSendMeasures, i ∈ w'.udpSendMeasures) := by
  cases hm : w.udpSendMeasures[report.measureIndex]? with
  | none =>
      refine ⟨w, (onUdpDelivered_of_none hm).1, ⟨rfl, fun i m' hm' => ?_⟩, fun _ i hi => hi⟩
      exact ⟨m', hm', rfl, rfl⟩
  | some m =>
      obtain ⟨measures, heq, hdecide, hall⟩ := onUdpDelivered_of_some hm
      refine ⟨_, heq, ⟨rfl, fun i m' hm' => ?_⟩, fun hevaluates i hi => ?_⟩
      · rw [hall] at hm'
        split_ifs at hm' with hgone hi
        · obtain rfl := Option.some.inj hm'
          subst hi
          refine ⟨m, hm, ?_⟩
          cases report.success <;> exact ⟨rfl, rfl⟩
        · exact ⟨m', hm', rfl, rfl⟩
      · rw [hdecide, decide_eq_false_iff_not] at hevaluates
        rw [Std.ExtTreeMap.mem_iff_isSome_getElem?] at hi ⊢
        rw [hall, if_neg fun hgone => hevaluates hgone.1]
        split
        · rfl
        · exact hi

/-- An open measure is not evaluated. -/
theorem Consistent.lt_of_resolved (h : w.Consistent) {i : Int} {m : Measure} {success : Bool}
    {size : Int} (hm : w.udpSendMeasures[i]? = some m) (hresolved : (m.report success size).IsResolved) :
    i < w.udpSendMeasureIndex := by
  by_cases hi : i = w.udpSendMeasureIndex
  · obtain ⟨current, hcurrent, hopen, -⟩ := h.current
    rw [hi, hcurrent] at hm
    obtain rfl := Option.some.inj hm
    obtain ⟨hbegin, hend, -⟩ := hresolved
    have hsame : (current.report success size).endUs = current.endUs := by
      cases success <;> rfl
    omega
  · exact (h.closed i m hm hi).1

theorem Consistent.erases (h : w.Consistent) (hevaluates : w.evaluates report = true) :
    w.Erases report := by
  cases hm : w.udpSendMeasures[report.measureIndex]? with
  | none =>
      rw [(onUdpDelivered_of_none hm).2] at hevaluates
      cases hevaluates
  | some m =>
      obtain ⟨measures, heq, hdecide, hall⟩ := onUdpDelivered_of_some hm
      rw [hdecide, decide_eq_true_eq] at hevaluates
      have hlt := h.lt_of_resolved hm hevaluates
      have hexact : ∀ i, measures[i]? =
          if i ≤ report.measureIndex then none else w.udpSendMeasures[i]? := by
        intro i
        rw [hall]
        simp only [hevaluates, true_and]
        split
        · rfl
        · rename_i hgt
          rw [if_neg]
          rintro rfl
          exact hgt (le_refl _)
      refine ⟨hlt, measures, heq, ?_, hexact⟩
      rw [Std.ExtTreeMap.mem_iff_isSome_getElem?, hexact, if_neg (not_le.mpr hlt),
        ← Std.ExtTreeMap.mem_iff_isSome_getElem?]
      exact h.mem

theorem Consistent.of_keeps (h : w.Consistent) (hkeeps : w.Keeps w')
    (hmem : w.udpSendMeasureIndex ∈ w'.udpSendMeasures) : w'.Consistent := by
  constructor
  · obtain ⟨m', hm'⟩ := Option.isSome_iff_exists.mp (Std.ExtTreeMap.mem_iff_isSome_getElem?.mp hmem)
    obtain ⟨m, hm, hend, hcount⟩ := hkeeps.measures _ m' hm'
    obtain ⟨current, hcurrent, hopen, hnonneg⟩ := h.current
    obtain rfl := Option.some.inj (hcurrent.symm.trans hm)
    exact ⟨m', hkeeps.index ▸ hm', hend.trans hopen, hcount ▸ hnonneg⟩
  · intro i m' hm' hi
    rw [hkeeps.index] at hi ⊢
    obtain ⟨m, hm, hend, hcount⟩ := hkeeps.measures i m' hm'
    rw [hend, hcount]
    exact h.closed i m hm hi

theorem Passed.of_keeps {k : Int} (h : w.Passed k) (hkeeps : w.Keeps w') : w'.Passed k :=
  ⟨hkeeps.index ▸ h.1, fun i hi => h.2 i (hkeeps.mem hi)⟩

theorem Sound.delivered {evaluated : List Int} (h : w.Sound evaluated) (report : Report) :
    ∃ w', w.onUdpDelivered report = some w' ∧
      w'.Sound (evaluated ++ if w.evaluates report then [report.measureIndex] else []) := by
  obtain ⟨hconsistent, hpassed, hnodup⟩ := h
  obtain ⟨w', heq, hkeeps, hsame⟩ := w.onUdpDelivered_keeps report
  refine ⟨w', heq, ?_⟩
  cases hevaluates : w.evaluates report with
  | false =>
      rw [if_neg (by decide), List.append_nil]
      have hcurrent := hsame hevaluates _ hconsistent.mem
      exact ⟨hconsistent.of_keeps hkeeps hcurrent, fun k hk => (hpassed k hk).of_keeps hkeeps, hnodup⟩
  | true =>
      obtain ⟨hlt, measures, heq', hcurrent, hall⟩ := hconsistent.erases hevaluates
      obtain rfl := Option.some.inj (heq.symm.trans heq')
      refine ⟨hconsistent.of_keeps hkeeps hcurrent, fun k hk => ?_, ?_⟩
      · rcases List.mem_append.mp hk with hk | hk
        · exact (hpassed k hk).of_keeps hkeeps
        · obtain rfl := List.mem_singleton.mp hk
          refine ⟨hlt, fun i hi => ?_⟩
          rw [Std.ExtTreeMap.mem_iff_isSome_getElem?, hall] at hi
          split at hi
          · cases hi
          · rename_i hgt
            exact not_le.mp hgt
      · -- The measure was still there, and the passed ones were not.
        have hthere := mem_of_evaluates hevaluates
        rw [if_pos rfl, List.nodup_append]
        refine ⟨hnodup, List.nodup_singleton _, ?_⟩
        rintro k hk l hl rfl
        obtain rfl := List.mem_singleton.mp hl
        exact lt_irrefl _ ((hpassed _ hk).2 _ hthere)

theorem Sound.reports {evaluated : List Int} (h : w.Sound evaluated) (reports : List Report) :
    ∃ w', reports.foldlM onUdpDelivered w = some w' ∧
      w'.Sound (evaluated ++ evaluations reports w) := by
  induction reports generalizing w evaluated with
  | nil =>
      rw [evaluations, List.append_nil]
      exact ⟨w, rfl, h⟩
  | cons report reports ih =>
      obtain ⟨k, hk, hnext⟩ := h.delivered report
      obtain ⟨w', hw', hsound⟩ := ih hnext
      refine ⟨w', ?_, ?_⟩
      · rw [List.foldlM_cons, hk]
        exact hw'
      · rw [evaluations, hk, Option.getD_some, ← List.append_assoc]
        exact hsound

theorem Consistent.le (h : w.Consistent) {i : Int} (hi : i ∈ w.udpSendMeasures) :
    i ≤ w.udpSendMeasureIndex := by
  obtain ⟨m, hm⟩ := Option.isSome_iff_exists.mp (Std.ExtTreeMap.mem_iff_isSome_getElem?.mp hi)
  by_cases heq : i = w.udpSendMeasureIndex
  · exact heq.le
  · exact (h.closed i m hm heq).1.le

theorem Sound.count {evaluated : List Int} (h : w.Sound evaluated) {m : Measure}
    (hopen : m.endUs = -1) (hcount : 0 ≤ m.count) :
    Sound { w with udpSendMeasures := w.udpSendMeasures.insert w.udpSendMeasureIndex m } evaluated := by
  obtain ⟨hconsistent, hpassed, hnodup⟩ := h
  refine ⟨⟨⟨m, Std.ExtTreeMap.getElem?_insert_self, hopen, hcount⟩, fun i n hn hi => ?_⟩, fun k hk => ?_,
    hnodup⟩
  · rw [Std.ExtTreeMap.getElem?_insert, if_neg (by simpa using Ne.symm hi)] at hn
    exact hconsistent.closed i n hn hi
  · obtain ⟨hbefore, hafter⟩ := hpassed k hk
    refine ⟨hbefore, fun i hi => ?_⟩
    rcases Std.ExtTreeMap.mem_insert.mp hi with heq | hi
    · rw [← compare_eq_iff_eq.mp heq]
      exact hbefore
    · exact hafter i hi

theorem Sound.close {evaluated : List Int} (h : w.Sound evaluated) {m n : Measure}
    (hend : 0 ≤ m.endUs) (hcount : 0 < m.count) (hopen : n.endUs = -1) (hnew : 0 ≤ n.count) :
    Sound
      { udpSendMeasureIndex := w.udpSendMeasureIndex + 1
        udpSendMeasures := (w.udpSendMeasures.insert w.udpSendMeasureIndex m).insert
          (w.udpSendMeasureIndex + 1) n } evaluated := by
  obtain ⟨hconsistent, hpassed, hnodup⟩ := h
  refine ⟨⟨⟨n, Std.ExtTreeMap.getElem?_insert_self, hopen, hnew⟩, fun i k hk hi => ?_⟩, fun k hk => ?_,
    hnodup⟩
  · simp only at hk hi ⊢
    rw [Std.ExtTreeMap.getElem?_insert, if_neg (by simpa using Ne.symm hi),
      Std.ExtTreeMap.getElem?_insert] at hk
    split at hk
    · rename_i heq
      rw [← Option.some.inj hk, ← compare_eq_iff_eq.mp heq]
      exact ⟨by omega, hend, hcount⟩
    · rename_i hne
      obtain ⟨hlt, hclosed⟩ := hconsistent.closed i k hk fun heq =>
        hne (compare_eq_iff_eq.mpr heq.symm)
      exact ⟨by omega, hclosed⟩
  · obtain ⟨hbefore, hafter⟩ := hpassed k hk
    refine ⟨by simp only; omega, fun i hi => ?_⟩
    rcases Std.ExtTreeMap.mem_insert.mp hi with heq | hi
    · have hnext := compare_eq_iff_eq.mp heq
      omega
    · rcases Std.ExtTreeMap.mem_insert.mp hi with heq | hi
      · rw [← compare_eq_iff_eq.mp heq]
        exact hbefore
      · exact hafter i hi

theorem Sound.sends {evaluated : List Int} (h : w.Sound evaluated) (hsends : w.Sends w') :
    w'.Sound evaluated := by
  obtain ⟨p, config, intervalUs, size, timeUs, htime, rfl, rfl⟩ := hsends
  obtain ⟨current, hcurrent, hopen, hcount⟩ := h.consistent.current
  change p.udpSendMeasures[p.udpSendMeasureIndex]? = some current at hcurrent
  cases hsent : p.onUdpSent config p.udpSendMeasureIndex intervalUs size timeUs with
  | none => exact h
  | some q =>
      obtain ⟨m, hm, rfl | rfl⟩ := Pacing.onUdpSent_eq_some hsent
      · obtain rfl := Option.some.inj (hcurrent.symm.trans hm)
        refine h.count (m := { current with
          count := current.count + 1
          size := current.size + size
          summaryIntervalUs := current.summaryIntervalUs + intervalUs }) hopen ?_
        change 0 ≤ current.count + 1
        omega
      · obtain rfl := Option.some.inj (hcurrent.symm.trans hm)
        have hnew : p.udpSendMeasures[p.udpSendMeasureIndex + 1]? = none := by
          apply Std.ExtTreeMap.getElem?_eq_none
          intro hmem
          have hle : p.udpSendMeasureIndex + 1 ≤ p.udpSendMeasureIndex := h.consistent.le hmem
          omega
        have hne : p.udpSendMeasureIndex ≠ p.udpSendMeasureIndex + 1 := by omega
        refine h.close (m := { current with
          count := current.count + 1
          size := current.size + size
          summaryIntervalUs := current.summaryIntervalUs + intervalUs
          endUs := timeUs }) htime ?_ ?_ ?_
        · change 0 < current.count + 1
          omega
        · simp only [Std.ExtTreeMap.getD_eq_getD_getElem?, Std.ExtTreeMap.getElem?_insert,
            compare_eq_iff_eq, hne, if_false, hnew, Option.getD_none]
        · simp only [Std.ExtTreeMap.getD_eq_getD_getElem?, Std.ExtTreeMap.getElem?_insert,
            compare_eq_iff_eq, hne, if_false, hnew, Option.getD_none]
          exact le_refl 0

end Invariant

end MeasureWindow

end IceTunnel
