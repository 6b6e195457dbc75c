import IceTunnel.Foundation.Schedules
import IceTunnel.Timeline

namespace IceTunnel

namespace Event

theorem timeUs_setTime (e : Event) (timeUs : Int) :
    (e.setTime timeUs false).timeUs = timeUs ∨
      e.isEnabled = true ∧ (e.setTime timeUs false).timeUs = e.timeUs := by
  simp only [setTime, isEnabled, decide_eq_true_eq, Bool.false_eq_true, false_or]
  split
  · rename_i hsame
    exact .inl hsame
  · split
    · exact .inl rfl
    · rename_i hkept
      exact .inr ⟨by omega, rfl⟩

end Event

namespace Outgoing

/-- With `n` datagrams sent, the next one is not due before its time on the schedule. -/
structure Scheduled (startUs intervalUs : Int) (n : Nat) (x : Outgoing) : Prop where
  interval_eq : x.udpSendIntervalUs = intervalUs
  planned_le : x.eventUdpWrite.isEnabled = true → startUs + n * intervalUs ≤ x.eventUdpWrite.timeUs
  readings_le : ∀ i, startUs ≤ (x.readings.get i : Int)

/-- What `setEventUdpWrite` would plan is on the schedule. -/
def OnTime (startUs intervalUs : Int) (n : Nat) (x : Outgoing) : Prop :=
  startUs + n * intervalUs ≤ x.udpLastSentUs + x.udpSendIntervalUs

variable {startUs intervalUs : Int} {n : Nat} {x y : Outgoing} {Rated : Int → Int → Prop}
  {Read : Int → Prop}

theorem scheduled_quiet
    (hrate : ∀ old new, Rated old new → new = old)
    (h : x.Scheduled startUs intervalUs n ∧ (x.OnTime startUs intervalUs n ∨ n = 0))
    (hstep : Step False Rated Read x y) :
    y.Scheduled startUs intervalUs n ∧ (y.OnTime startUs intervalUs n ∨ n = 0) := by
  obtain ⟨hscheduled, htime⟩ := h
  obtain ⟨hinterval, hplanned, hreadings⟩ := hscheduled
  cases hstep with
  | tick => exact ⟨⟨hinterval, hplanned, fun i => hreadings (i + 1)⟩, htime⟩
  | push type payload hudp => exact ⟨⟨hinterval, hplanned, hreadings⟩, htime⟩
  | advance harm => exact harm.elim
  | arm lastUs harm => exact harm.elim
  | rate interval hrated =>
      rw [hrate _ _ hrated]
      exact ⟨⟨hinterval, hplanned, hreadings⟩, htime⟩
  | resend index packet timeUs => exact ⟨⟨hinterval, hplanned, hreadings⟩, htime⟩
  | forget index => exact ⟨⟨hinterval, hplanned, hreadings⟩, htime⟩
  | close =>
      refine ⟨⟨hinterval, fun henabled => ?_, hreadings⟩, htime⟩
      rw [Event.isEnabled_disable] at henabled
      cases henabled

/-- `setEventUdpWrite` keeps to the schedule if it finds the event disabled, or
`udpLastSentUs` on time. -/
theorem scheduled_arming
    (hrate : ∀ old new, Rated old new → new = old)
    (h : x.Scheduled startUs intervalUs n ∧
      (x.OnTime startUs intervalUs n ∨ n = 0 ∧ x.eventUdpWrite.isEnabled = false))
    (hstep : Step True Rated Read x y) :
    y.Scheduled startUs intervalUs n ∧
      (y.OnTime startUs intervalUs n ∨ n = 0 ∧ y.eventUdpWrite.isEnabled = false) := by
  obtain ⟨hscheduled, htime⟩ := h
  obtain ⟨hinterval, hplanned, hreadings⟩ := hscheduled
  cases hstep with
  | tick => exact ⟨⟨hinterval, hplanned, fun i => hreadings (i + 1)⟩, htime⟩
  | push type payload hudp => exact ⟨⟨hinterval, hplanned, hreadings⟩, htime⟩
  | advance _ henabled =>
      have hon : x.OnTime startUs intervalUs n := by
        refine htime.resolve_right fun hcold => ?_
        rw [hcold.2] at henabled
        cases henabled
      refine ⟨⟨hinterval, fun _ => ?_, hreadings⟩, .inl hon⟩
      rcases x.eventUdpWrite.timeUs_setTime (x.udpLastSentUs + x.udpSendIntervalUs) with heq | ⟨-, heq⟩
      · simp only [heq]
        exact hon
      · simp only [heq]
        exact hplanned henabled
  | arm lastUs _ hdisabled hlast =>
      have hreading := hreadings 0
      have hhead : (x.readings.head : Int) = x.readings.get 0 := rfl
      have hon : startUs + n * intervalUs ≤ lastUs + x.udpSendIntervalUs := by
        rcases htime with hon | ⟨rfl, -⟩
        · unfold OnTime at hon
          omega
        · simp only [Nat.cast_zero, Int.zero_mul]
          omega
      refine ⟨⟨hinterval, fun _ => ?_, fun i => hreadings (i + 1)⟩, .inl hon⟩
      rcases x.eventUdpWrite.timeUs_setTime (lastUs + x.udpSendIntervalUs) with heq | ⟨henabled, -⟩
      · simp only [heq]
        exact hon
      · rw [hdisabled] at henabled
        cases henabled
  | rate interval hrated =>
      rw [hrate _ _ hrated]
      exact ⟨⟨hinterval, hplanned, hreadings⟩, htime⟩
  | resend index packet timeUs => exact ⟨⟨hinterval, hplanned, hreadings⟩, htime⟩
  | forget index => exact ⟨⟨hinterval, hplanned, hreadings⟩, htime⟩
  | close =>
      refine ⟨⟨hinterval, fun henabled => ?_, hreadings⟩, ?_⟩
      · rw [Event.isEnabled_disable] at henabled
        cases henabled
      · exact htime.imp_right fun hcold => ⟨hcold.1, Event.isEnabled_disable _⟩

theorem steps_quiet (hrate : ∀ old new, Rated old new → new = old)
    (hscheduled : x.Scheduled startUs intervalUs n) (htime : x.OnTime startUs intervalUs n ∨ n = 0)
    (hsteps : Steps False Rated Read x y) :
    y.Scheduled startUs intervalUs n ∧ (y.OnTime startUs intervalUs n ∨ n = 0) :=
  Runs.chain_invariant (I := fun z => z.Scheduled startUs intervalUs n ∧
    (z.OnTime startUs intervalUs n ∨ n = 0)) (fun _ _ => scheduled_quiet hrate) hsteps ⟨hscheduled, htime⟩

theorem steps_arming (hrate : ∀ old new, Rated old new → new = old)
    (hscheduled : x.Scheduled startUs intervalUs n)
    (htime : x.OnTime startUs intervalUs n ∨ n = 0 ∧ x.eventUdpWrite.isEnabled = false)
    (hsteps : Steps True Rated Read x y) :
    y.Scheduled startUs intervalUs n ∧ (y.OnTime startUs intervalUs n ∨ n = 0) := by
  have hdone := Runs.chain_invariant (I := fun z => z.Scheduled startUs intervalUs n ∧
    (z.OnTime startUs intervalUs n ∨ n = 0 ∧ z.eventUdpWrite.isEnabled = false))
    (fun _ _ => scheduled_arming hrate) hsteps ⟨hscheduled, htime⟩
  exact ⟨hdone.1, hdone.2.imp_right And.left⟩

theorem scheduled_rearmed (hscheduled : x.Scheduled startUs intervalUs n)
    (htime : x.OnTime startUs intervalUs n) : x.rearmed.Scheduled startUs intervalUs n := by
  obtain ⟨hinterval, hplanned, hreadings⟩ := hscheduled
  refine ⟨hinterval, fun _ => ?_, hreadings⟩
  rcases x.eventUdpWrite.timeUs_setTime (x.udpLastSentUs + x.udpSendIntervalUs) with heq | ⟨henabled, heq⟩
  · simp only [rearmed, heq]
    exact htime
  · simp only [rearmed, heq]
    exact hplanned henabled

theorem Scheduled.disable (h : x.Scheduled startUs intervalUs n) (m : Nat) :
    { x with eventUdpWrite := x.eventUdpWrite.disable }.Scheduled startUs intervalUs m := by
  refine ⟨h.interval_eq, fun henabled => ?_, h.readings_le⟩
  rw [Event.isEnabled_disable] at henabled
  cases henabled

theorem onTime_sent {plannedTimeUs : Int} (hinterval : x.udpSendIntervalUs = intervalUs)
    (hlast : x.udpLastSentUs = plannedTimeUs) (hplanned : startUs + n * intervalUs ≤ plannedTimeUs) :
    x.OnTime startUs intervalUs (n + 1) := by
  unfold OnTime
  rw [hinterval, hlast]
  push_cast
  linarith

theorem Scheduled.reread (h : x.Scheduled startUs intervalUs n) {readings : Stream' Nat}
    (hreadings : ∀ i, startUs ≤ (readings.get i : Int)) :
    { x with readings := readings }.Scheduled startUs intervalUs n :=
  ⟨h.interval_eq, h.planned_le, hreadings⟩

end Outgoing

namespace Timeline

open Connection Outgoing

/-- The measurements leave the interval as it is. -/
def KeepsInterval (s : Timeline) (m : Move) : Prop :=
  s.connection.ReportsMeet (RatedReport fun old new => new = old) m.toMove

/-- No handler that reckons with `udpLastSentUs` finds `eventUdpWrite` armed for later than
an interval after it. -/
def Punctual (s : Timeline) : Move → Prop
  | .call event _ _ _ io =>
      let c := ({ s.connection with io := io } : Connection).disable event
      c.Reckons event ∨ event = .udpWrite ∧ c.Refused →
        (s.connection.events .udpWrite).timeUs ≤ c.udpLastSentUs + c.udpSendIntervalUs
  | .udpRead .. => True

/-- What holds at any time after the start at `startUs` with the interval `intervalUs`. -/
structure OnSchedule (startUs : Nat) (intervalUs : Int) (s : Timeline) : Prop where
  scheduled : s.connection.outgoing.Scheduled startUs intervalUs s.sent.length
  onTime : s.connection.outgoing.OnTime startUs intervalUs s.sent.length ∨ s.sent.length = 0
  late : Schedules.Late startUs intervalUs (s.sent.map Transmission.calledUs)
  start_le : startUs ≤ s.timeUs

instance (s : Timeline) (m : Move) : Decidable (s.KeepsInterval m) :=
  inferInstanceAs (Decidable (s.connection.ReportsMeet _ _))

instance (s : Timeline) (m : Move) : Decidable (s.Punctual m) :=
  match m with
  | .call _ _ _ _ _ => inferInstanceAs (Decidable (_ → _))
  | .udpRead .. => .isTrue trivial

variable {config : Config} {intervalUs : Int} {startUs : Nat} {s t : Timeline}

theorem onSchedule_initial (h : Initial config intervalUs startUs s) : OnSchedule startUs intervalUs s := by
  obtain ⟨summaryUs, io, doneUs, hreadings, rfl⟩ := h
  obtain ⟨n, hnew⟩ := Connection.new_outgoing config intervalUs summaryUs io
  refine ⟨?_, .inr rfl, trivial, ?_⟩
  · rw [hnew]
    refine ⟨rfl, fun _ => ?_, fun i => ?_⟩
    · simp only [List.length_nil, Nat.cast_zero, Int.zero_mul, Int.add_zero]
      exact_mod_cast (hreadings n).1
    · exact_mod_cast (hreadings (i + (n + 3))).1
  · have := hreadings 0
    exact this.1.trans this.2

theorem onSchedule_call (h : OnSchedule startUs intervalUs s) {event : EventName} (hother : event ≠ .udpWrite)
    {roundUs atUs doneUs : Nat} {io : Io} (hreadings : ∀ n, startUs ≤ io.nowUs.get n)
    (hkeeps : s.KeepsInterval (.call event roundUs atUs doneUs io))
    (hpunctual : s.Punctual (.call event roundUs atUs doneUs io)) (htime : startUs ≤ doneUs) :
    OnSchedule startUs intervalUs
      ⟨({ s.connection with io := io } : Connection).raise event, doneUs, s.sent⟩ := by
  let c := ({ s.connection with io := io } : Connection).disable event
  have hc : c.outgoing = { s.connection.outgoing with readings := io.nowUs } :=
    disable_outgoing _ hother
  have hscheduled : c.outgoing.Scheduled startUs intervalUs s.sent.length := by
    rw [hc]
    exact h.scheduled.reread fun n => by exact_mod_cast hreadings n
  have hon : c.outgoing.OnTime startUs intervalUs s.sent.length ∨ s.sent.length = 0 := by
    rw [hc]
    exact h.onTime
  have hmeets : event = .udpResend → c.udpConnected = true →
      ResendsMeet (RatedReport fun old new => new = old) c.nowUs c.udpSentPackets.keys c.tick := by
    rintro rfl
    exact hkeeps rfl
  let plannedTimeUs := (s.connection.events event).timeUs
  suffices hfinal : (c.handle event plannedTimeUs).outgoing.Scheduled startUs intervalUs s.sent.length ∧
      ((c.handle event plannedTimeUs).outgoing.OnTime startUs intervalUs s.sent.length ∨
        s.sent.length = 0) from
    ⟨hfinal.1, hfinal.2, h.late, htime⟩
  by_cases hreckons : c.Reckons event
  · have hplanned := hpunctual (.inl hreckons)
    have hready : c.outgoing.OnTime startUs intervalUs s.sent.length ∨
        s.sent.length = 0 ∧ c.outgoing.eventUdpWrite.isEnabled = false := by
      cases henabled : c.outgoing.eventUdpWrite.isEnabled with
      | true =>
          have hlate := hscheduled.planned_le henabled
          rw [hc] at hlate ⊢
          exact .inl (hlate.trans hplanned)
      | false => exact hon.imp_right fun hnone => ⟨hnone, rfl⟩
    have hsteps : Steps True (fun old new => new = old) (fun _ => True) c.outgoing
        (c.handle event plannedTimeUs).outgoing :=
      c.handle_outgoing hother plannedTimeUs (fun _ => trivial) trivial hmeets
    exact steps_arming (fun _ _ hsame => hsame) hscheduled hready hsteps
  · have hsteps : Steps False (fun old new => new = old) (fun _ => True) c.outgoing
        (c.handle event plannedTimeUs).outgoing :=
      c.handle_outgoing hother plannedTimeUs hreckons trivial hmeets
    exact steps_quiet (fun _ _ hsame => hsame) hscheduled hon hsteps

theorem onSchedule_udpRead (h : OnSchedule startUs intervalUs s) {packet : Packet} {atUs doneUs : Nat}
    {io : Io} (hreadings : ∀ n, startUs ≤ io.nowUs.get n)
    (hkeeps : s.KeepsInterval (.udpRead packet atUs doneUs io)) (htime : startUs ≤ doneUs) :
    OnSchedule startUs intervalUs
      ⟨({ s.connection with io := io } : Connection).udpRead packet.wire, doneUs, s.sent⟩ := by
  let c : Connection := { s.connection with io := io }
  have hscheduled : c.outgoing.Scheduled startUs intervalUs s.sent.length :=
    h.scheduled.reread fun n => by exact_mod_cast hreadings n
  have hsteps : Steps False (fun old new => new = old) (fun _ => True) c.outgoing
      (c.udpRead packet.wire).outgoing :=
    c.udpRead_outgoing packet.wire hkeeps
  have hdone := steps_quiet (fun _ _ hsame => hsame) hscheduled h.onTime hsteps
  exact ⟨hdone.1, hdone.2, h.late, htime⟩

theorem onSchedule_udpWrite (h : OnSchedule startUs intervalUs s) {roundUs atUs doneUs : Nat} {io : Io}
    (hreadings : ∀ n, startUs ≤ io.nowUs.get n)
    (hpunctual : s.Punctual (.call .udpWrite roundUs atUs doneUs io)) (htime : startUs ≤ doneUs)
    (henabled : s.connection.isEnabled .udpWrite = true)
    (hdue : (s.connection.events .udpWrite).timeUs ≤ atUs) :
    OnSchedule startUs intervalUs
      ⟨({ s.connection with io := io } : Connection).raise .udpWrite, doneUs,
        (({ s.connection with io := io } : Connection).datagram.toList).map
          (Transmission.mk atUs io.nowUs.head) ++ s.sent⟩ := by
  let plannedTimeUs := (s.connection.events .udpWrite).timeUs
  let c := ({ s.connection with io := io } : Connection).disable .udpWrite
  have hdatagram : ({ s.connection with io := io } : Connection).datagram = c.datagram := rfl
  have hplanned : startUs + s.sent.length * intervalUs ≤ plannedTimeUs :=
    h.scheduled.planned_le henabled
  have hc : c.outgoing = { s.connection.outgoing with
      readings := io.nowUs, eventUdpWrite := (s.connection.events .udpWrite).disable } :=
    disable_udpWrite_outgoing _
  have hscheduled : ∀ n, c.outgoing.Scheduled startUs intervalUs n := by
    intro n
    rw [hc]
    exact (h.scheduled.reread fun i => by exact_mod_cast hreadings i).disable n
  have hon : c.outgoing.OnTime startUs intervalUs s.sent.length ∨ s.sent.length = 0 := by
    rw [hc]
    exact h.onTime
  rw [hdatagram]
  rcases c.udpWrite_outgoing plannedTimeUs with
    ⟨hnone, hend | ⟨hrefused, hend⟩⟩ | ⟨index, x, y, hsent, htransmits, hquiet, hend⟩
  · rw [hnone]
    refine ⟨?_, ?_, h.late, htime⟩
    · change (c.udpWrite plannedTimeUs).outgoing.Scheduled startUs intervalUs s.sent.length
      rw [hend]
      exact hscheduled _
    · change (c.udpWrite plannedTimeUs).outgoing.OnTime startUs intervalUs s.sent.length ∨ _
      rw [hend]
      exact hon
  · have hlast : c.outgoing.OnTime startUs intervalUs s.sent.length := by
      have hready : plannedTimeUs ≤ c.udpLastSentUs + c.udpSendIntervalUs := hpunctual (.inr ⟨rfl, hrefused⟩)
      exact hplanned.trans hready
    rw [hnone]
    refine ⟨?_, .inl ?_, h.late, htime⟩
    · change (c.udpWrite plannedTimeUs).outgoing.Scheduled startUs intervalUs s.sent.length
      rw [hend]
      exact scheduled_rearmed (hscheduled _) hlast
    · change (c.udpWrite plannedTimeUs).outgoing.OnTime startUs intervalUs s.sent.length
      rw [hend]
      exact hlast
  · have hnext : x.Scheduled startUs intervalUs (s.sent.length + 1) ∧
        x.OnTime startUs intervalUs (s.sent.length + 1) := by
      obtain ⟨hinterval, hlate, hread⟩ := hscheduled (s.sent.length + 1)
      cases index with
      | none =>
          rw [show x = _ from htransmits]
          exact ⟨⟨hinterval, hlate, hread⟩, onTime_sent hinterval rfl hplanned⟩
      | some index =>
          obtain ⟨packet, -, -, rfl⟩ := htransmits
          exact ⟨⟨hinterval, hlate, fun i => hread (i + 1)⟩, onTime_sent hinterval rfl hplanned⟩
    obtain ⟨hy, hlast⟩ := steps_quiet (fun _ _ hfalse => hfalse.elim) hnext.1 (.inl hnext.2) hquiet
    have hlast := hlast.resolve_right (Nat.succ_ne_zero _)
    rw [hsent]
    refine ⟨?_, .inl ?_, ⟨?_, h.late⟩, htime⟩
    · change (c.udpWrite plannedTimeUs).outgoing.Scheduled startUs intervalUs (s.sent.length + 1)
      rcases hend with hend | hend
      · rw [hend]
        exact hy
      · rw [hend]
        exact scheduled_rearmed hy hlast
    · change (c.udpWrite plannedTimeUs).outgoing.OnTime startUs intervalUs (s.sent.length + 1)
      rcases hend with hend | hend
      · rw [hend]
        exact hlast
      · rw [hend]
        exact hlast
    · rw [List.length_map]
      exact hplanned.trans (by exact_mod_cast hdue)

theorem onSchedule_step (h : OnSchedule startUs intervalUs s) {m : Move} (htimely : m.Timely)
    (hkeeps : s.KeepsInterval m) (hpunctual : s.Punctual m) (hstep : s.step m = some t) :
    OnSchedule startUs intervalUs t := by
  have hstart := h.start_le
  cases m with
  | call event roundUs atUs doneUs io =>
      simp only [step] at hstep
      split at hstep
      · rename_i hcall
        obtain ⟨-, hnow, hround, hdone, hdue⟩ := hcall
        cases hstep
        have hreadings : ∀ n, startUs ≤ io.nowUs.get n :=
          fun n => (hstart.trans hnow).trans (htimely n).1
        have htime : startUs ≤ doneUs := (hstart.trans hnow).trans hdone
        split
        · rename_i hevent
          subst hevent
          obtain ⟨henabled, hplanned⟩ := hdue rfl
          have hround : (roundUs : Int) ≤ atUs := by exact_mod_cast hround
          exact onSchedule_udpWrite h hreadings hpunctual htime henabled (hplanned.trans hround)
        · rename_i hother
          exact onSchedule_call h hother hreadings hkeeps hpunctual htime
      · cases hstep
  | udpRead packet atUs doneUs io =>
      simp only [step] at hstep
      split at hstep
      · rename_i hcall
        obtain ⟨-, hnow, hdone⟩ := hcall
        cases hstep
        exact onSchedule_udpRead h (fun n => (hstart.trans hnow).trans (htimely n).1) hkeeps
          ((hstart.trans hnow).trans hdone)
      · cases hstep

/-- While the interval stays the same, no more datagrams are sent than fit into the time
that has passed, and one. -/
theorem spaced_of_punctual (hreachable : Runs.Reachable (Initial config intervalUs startUs) step
      (fun s m => m.Timely ∧ s.KeepsInterval m ∧ s.Punctual m) s)
    (hinterval : 0 < intervalUs) (timeUs : Nat) (htime : startUs ≤ timeUs) :
    (((s.sent.map Transmission.calledUs).filter (· ≤ timeUs)).length : Rat) ≤
      1 + ((timeUs : Rat) - startUs) / intervalUs := by
  have hschedule : OnSchedule startUs intervalUs s :=
    hreachable.invariant (fun _ => onSchedule_initial)
      fun _ _ _ hs hok hstep => onSchedule_step hs hok.1 hok.2.1 hok.2.2 hstep
  have htime : (startUs : Int) ≤ timeUs := by exact_mod_cast htime
  have hrate := hschedule.late.length_filter_le_rate hinterval htime
  exact_mod_cast hrate

/-- The Hello packet goes first, a packet with bytes from TCP after it. -/
def punctualRun : List Move :=
  [.steady .udpWrite 1000 [], .steady .tcpRead 1000 (List.replicate 10 7), .steady .udpWrite 1010 []]

/-- The bytes from TCP come before `eventUdpWrite` is handled the first time. -/
def hastyRun : List Move :=
  [.steady .tcpRead 1000 (List.replicate 10 7), .steady .udpWrite 1000 [], .steady .udpWrite 1000 []]

theorem punctualRun_isSome :
    (Runs.run step (fun s m => s.KeepsInterval m ∧ s.Punctual m) (fresh .small) punctualRun).isSome = true := by
  decide +kernel

theorem spaced_punctualRun : ∃ s : Timeline, s.sent.length = 2 ∧
    (((s.sent.map Transmission.calledUs).filter (· ≤ 1010)).length : Rat) ≤ 1 + (1010 - 1000) / 10 := by
  have htimely : ∀ m ∈ punctualRun, m.Timely := by
    simp only [punctualRun, List.forall_mem_cons, Move.timely_steady, true_and, List.not_mem_nil,
      false_implies, implies_true]
  have hreachable := Runs.Reachable.of_run_forall (.start (fresh_initial .small)) htimely
    (Option.some_get punctualRun_isSome).symm
  have hsent : ((Runs.run step (fun s m => s.KeepsInterval m ∧ s.Punctual m) (fresh .small) punctualRun).get
      punctualRun_isSome).sent.length = 2 := by decide +kernel
  have hspaced := spaced_of_punctual hreachable (by decide) 1010 (by decide)
  refine ⟨_, hsent, ?_⟩
  exact_mod_cast hspaced

theorem hastyRun_isSome :
    (Runs.run step (fun s m => s.KeepsInterval m ∧ (s.connection.step m.toMove).isSome = true)
      (fresh .small) hastyRun).isSome = true := by
  decide +kernel

/-- Two datagrams are sent at the time of the start, though every handler is called by
its own event. -/
theorem not_spaced_hastyRun :
    ∃ s : Timeline, Runs.Reachable (Initial .small 10 1000) step
        (fun s m => m.Timely ∧ s.KeepsInterval m ∧ (s.connection.step m.toMove).isSome = true) s ∧
      ¬(((s.sent.map Transmission.calledUs).filter (· ≤ 1000)).length : Rat) ≤ 1 + ((1000 : Rat) - 1000) / 10 := by
  have htimely : ∀ m ∈ hastyRun, m.Timely := by
    simp only [hastyRun, List.forall_mem_cons, Move.timely_steady, true_and, List.not_mem_nil,
      false_implies, implies_true]
  have hreachable := Runs.Reachable.of_run_forall (.start (fresh_initial .small)) htimely
    (Option.some_get hastyRun_isSome).symm
  have hsent : ((((Runs.run step
      (fun s m => s.KeepsInterval m ∧ (s.connection.step m.toMove).isSome = true) (fresh .small) hastyRun).get
      hastyRun_isSome).sent.map Transmission.calledUs).filter (· ≤ 1000)).length = 2 := by decide +kernel
  refine ⟨_, hreachable, fun hspaced => ?_⟩
  rw [hsent] at hspaced
  norm_num at hspaced

end Timeline

end IceTunnel
