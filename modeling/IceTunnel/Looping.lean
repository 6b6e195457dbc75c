import Mathlib.Algebra.BigOperators.Ring.Finset
import IceTunnel.Foundation.Schedules
import IceTunnel.Membership

/-!
The loop of `Server::run`: `Server::step` lets `doEvents` make a round and sleeps in
`Group::poll` until the next event or the next report of the kernel.
-/

namespace IceTunnel

/-- The durations that `Server::step` is given, and how late `epoll_wait` may return. -/
structure Loop.Config where
  stepUs : Int
  latencyUs : Int

/-- What a call of `Server::step` meets. -/
structure Loop.Reading where
  beginUs : Int
  /-- The results of `rand()` in `doEvents`. -/
  rand : Stream' Nat
  /-- What the handlers do. -/
  handlers : Stream' (List Events.Op)
  pollBeginUs : Int
  /-- The result of `rand()` in `poll`. -/
  pollRand : Nat
  /-- What `poll` sets the sources to; `none` when `epoll_wait` fails. -/
  reports : Option (List (Nat × Bool))

/-- A server between two calls of `Server::step`, with what the last one did. -/
structure Loop where
  events : Events
  beginUs : Int
  pollBeginUs : Int
  /-- The events as `doEvents` left them. -/
  waiting : Events
  turns : List Events.Turn
  durationUs : Int
  durationMs : Int
  failed : Bool

namespace Loop

/-- The duration that `Group::poll` passes to `epoll_wait`. -/
def durationMsOf (durationUs : Int) (rand : Nat) : Int :=
  let durationUs := if durationUs < 0 then 0 else durationUs
  (durationUs + (rand % 1000 : Nat)).tdiv 1000

/-- The time at which `Server::step` wants to go on. -/
def nextUsOf (beginUs stepUs nextUs : Int) : Int :=
  if nextUs < 0 ∨ nextUs > beginUs + stepUs then beginUs + stepUs else nextUs

/-- What `poll` does with the reports. -/
def notify (events : Events) (reports : Option (List (Nat × Bool))) : Option Events :=
  (events.states ((reports.getD []).map fun (source, value) => .setSourceReady source value)).map
    fun states => states.getLast?.getD events

variable (config : Config) (manager : Nat)

/-- `Server::step`. -/
def step (l : Loop) (m : Reading) : Option Loop :=
  (l.events.doEvents manager m.beginUs m.rand m.handlers).bind fun (waiting, turns, nextUs) =>
    let durationUs := max 0 (nextUsOf m.beginUs config.stepUs nextUs - m.pollBeginUs)
    (notify waiting m.reports).map fun events =>
      { events := events
        beginUs := m.beginUs
        pollBeginUs := m.pollBeginUs
        waiting := waiting
        turns := turns
        durationUs := durationUs
        durationMs := durationMsOf durationUs m.pollRand
        failed := m.reports.isNone }

/-- The clock does not run backwards, and `poll` returns in time; after a failure it waits for
another millisecond. -/
def Punctual (l : Loop) (m : Reading) : Prop :=
  l.pollBeginUs ≤ m.beginUs ∧ m.beginUs ≤ m.pollBeginUs ∧
    m.beginUs ≤ l.pollBeginUs + 1000 * l.durationMs + (if l.failed then 1000 else 0) + config.latencyUs

/-- No call has been made. -/
def Initial (l : Loop) : Prop :=
  l.events.WellFormed ∧ l.waiting = l.events ∧ l.beginUs = l.pollBeginUs ∧ l.durationUs = 0 ∧
    l.durationMs = 0

abbrev Reachable : Loop → Prop :=
  Runs.Reachable Initial (step config manager) (Punctual config)

variable {config manager} {l l' : Loop} {m : Reading}

section Poll

theorem durationMsOf_eq {durationUs : Int} (h : 0 ≤ durationUs) (rand : Nat) :
    durationMsOf durationUs rand = Schedules.dither 1000 durationUs.toNat rand := by
  obtain ⟨n, rfl⟩ := Int.eq_ofNat_of_zero_le h
  simp only [durationMsOf, if_neg (not_lt.mpr h), Int.toNat_natCast, Schedules.dither]
  rw [← Int.natCast_add, Int.tdiv_eq_ediv_of_nonneg (Int.natCast_nonneg _)]
  rfl

theorem durationMsOf_lt {durationUs : Int} (h : 0 ≤ durationUs) (rand : Nat) :
    1000 * durationMsOf durationUs rand < durationUs + 1000 := by
  have hlt := Schedules.mul_dither_lt durationUs.toNat rand (n := 1000) (by decide)
  rw [durationMsOf_eq h]
  omega

/-- On the average it does not oversleep. -/
theorem sum_durationMsOf {durationUs : Int} (h : 0 ≤ durationUs) :
    ∑ rand ∈ Finset.range 1000, durationMsOf durationUs rand = durationUs := by
  have hsum := Schedules.sum_dither durationUs.toNat (n := 1000) (by decide)
  calc
    _ = ∑ rand ∈ Finset.range 1000, (Schedules.dither 1000 durationUs.toNat rand : Int) :=
      Finset.sum_congr rfl fun rand _ => durationMsOf_eq h rand
    _ = durationUs.toNat := by rw [← Nat.cast_sum, hsum]
    _ = durationUs := Int.toNat_of_nonneg h

end Poll

section Step

/-- The server does not want to sleep longer than a waiting event allows. -/
theorem nextUsOf_le {events : Events} {nextUs : Int} (h : events.IsNextTime manager nextUs)
    (beginUs stepUs : Int) {event : Nat} (hready : events.IsReady manager event) {node : Node}
    (hnode : node ∈ events.nodes[event]?) : nextUsOf beginUs stepUs nextUs ≤ node.timeUs := by
  rcases h with ⟨hnone, -⟩ | ⟨⟨first, ⟨node', hnode', -, -, henabled⟩, node'', hnode'', htime⟩, hall⟩
  · exact absurd hready (hnone event)
  · obtain rfl := Option.some.inj (hnode'.symm.trans hnode'')
    have hnonneg : 0 ≤ node'.timeUs := by simpa [Event.isEnabled] using henabled
    have hle := hall event hready node hnode
    simp only [nextUsOf]
    split <;> omega

theorem nextUsOf_le_step (beginUs stepUs nextUs : Int) : nextUsOf beginUs stepUs nextUs ≤ beginUs + stepUs := by
  simp only [nextUsOf]
  split <;> omega

theorem notify_wellFormed {events : Events} (h : events.WellFormed) (reports : Option (List (Nat × Bool))) :
    ∃ events', notify events reports = some events' ∧ events'.WellFormed := by
  obtain ⟨states, hstates, hlast⟩ := h.states
    ((reports.getD []).map fun (source, value) => .setSourceReady source value)
  exact ⟨_, by rw [notify, hstates, Option.map_some], hlast⟩

theorem exists_step (config : Config) (manager : Nat) (h : l.events.WellFormed) (m : Reading) :
    ∃ l' nextUs, l.step config manager m = some l' ∧ l'.events.WellFormed ∧
      l.events.Round manager m.beginUs l'.waiting l'.turns nextUs ∧ l'.beginUs = m.beginUs ∧
      l'.pollBeginUs = m.pollBeginUs ∧
      l'.durationUs = max 0 (nextUsOf m.beginUs config.stepUs nextUs - m.pollBeginUs) ∧
      l'.durationMs = durationMsOf l'.durationUs m.pollRand := by
  obtain ⟨waiting, turns, nextUs, hround, hcorrect⟩ := h.round manager m.beginUs m.rand m.handlers
  obtain ⟨events, hnotify, hevents⟩ := notify_wellFormed hcorrect.wellFormed m.reports
  let durationUs := max 0 (nextUsOf m.beginUs config.stepUs nextUs - m.pollBeginUs)
  refine ⟨⟨events, m.beginUs, m.pollBeginUs, waiting, turns, durationUs,
    durationMsOf durationUs m.pollRand, m.reports.isNone⟩, nextUs, ?_, hevents, hcorrect, rfl, rfl, rfl, rfl⟩
  simp only [step, hround, Option.bind_some, hnotify, Option.map_some, durationUs]

end Step

/-- The sleep ends before a waiting event, or the next step, is late by a millisecond. -/
structure Asleep (config : Config) (manager : Nat) (l : Loop) : Prop where
  wellFormed : l.events.WellFormed
  waiting : ∀ event, l.waiting.IsReady manager event → ∀ node ∈ l.waiting.nodes[event]?,
    l.pollBeginUs + 1000 * l.durationMs < max node.timeUs l.pollBeginUs + 1000
  stepping : l.pollBeginUs + 1000 * l.durationMs < max (l.beginUs + config.stepUs) l.pollBeginUs + 1000

theorem asleep_initial (h : Initial l) : l.Asleep config manager := by
  obtain ⟨hwellFormed, -, -, -, hduration⟩ := h
  refine ⟨hwellFormed, fun event _ node _ => ?_, ?_⟩
  · rw [hduration]
    omega
  · rw [hduration]
    omega

theorem Asleep.step (h : l.Asleep config manager) (hstep : l.step config manager m = some l') :
    l'.Asleep config manager := by
  obtain ⟨l'', nextUs, hl'', hwellFormed, hround, hbegin, hpoll, hduration, hms⟩ :=
    exists_step config manager h.wellFormed m
  obtain rfl := Option.some.inj (hl''.symm.trans hstep)
  have hlt := durationMsOf_lt (hduration ▸ le_max_left _ _ : 0 ≤ l''.durationUs) m.pollRand
  rw [← hms] at hlt
  have hstepUs := nextUsOf_le_step m.beginUs config.stepUs nextUs
  refine ⟨hwellFormed, fun event hready node hnode => ?_, ?_⟩
  · have hle := nextUsOf_le hround.nextTime m.beginUs config.stepUs hready hnode
    omega
  · omega

theorem asleep (h : Reachable config manager l) : l.Asleep config manager :=
  h.invariant (fun _ hinit => asleep_initial hinit) fun _ _ _ hl _ hm => hl.step hm

/-- A call of `Server::step` after a sleep: no event is served late, early or not at all. -/
structure InTime (config : Config) (manager : Nat) (l : Loop) (m : Reading) (l' : Loop) : Prop where
  /-- The server is awake when an event that waited for its time is due, but for a millisecond
  and what the kernel adds, -/
  woken : ∀ event, l.waiting.IsReady manager event → ∀ node ∈ l.waiting.nodes[event]?,
    m.beginUs < max node.timeUs l.pollBeginUs + 1000 + (if l.failed then 1000 else 0) + config.latencyUs
  /-- and it wakes at the latest after the duration of a step. -/
  stepped : m.beginUs < max (l.beginUs + config.stepUs) l.pollBeginUs + 1000 +
    (if l.failed then 1000 else 0) + config.latencyUs
  /-- The first of the events that are due are raised now, unless a handler takes one out, -/
  raised : ∀ event, l.events.IsFirst manager m.beginUs event → event ∈ l'.turns.map Events.Turn.event ∨
    ∃ turn ∈ l'.turns, ∃ k ∈ turn.states, k.isActive event = false
  /-- and no others. -/
  due : ∀ turn ∈ l'.turns, l.events.IsFirst manager m.beginUs turn.event
  /-- The rounding to milliseconds takes as much as it gives. -/
  exact : ∑ rand ∈ Finset.range 1000, durationMsOf l'.durationUs rand = l'.durationUs

/-- The server serves its events in time. -/
theorem inTime (h : Reachable config manager l) (hm : l.Punctual config m) :
    ∃ l', l.step config manager m = some l' ∧ InTime config manager l m l' := by
  have hasleep := asleep h
  obtain ⟨l', nextUs, hstep, -, hround, -, -, hduration, -⟩ :=
    exists_step config manager hasleep.wellFormed m
  obtain ⟨-, -, hlate⟩ := hm
  refine ⟨l', hstep, ?_, ?_, ?_, hround.first, sum_durationMsOf (hduration ▸ le_max_left _ _)⟩
  · intro event hready node hnode
    have hlt := hasleep.waiting event hready node hnode
    split at hlate <;> simp_all only [if_true] <;> omega
  · have hlt := hasleep.stepping
    split at hlate <;> simp_all only [if_true] <;> omega
  · intro event hfirst
    by_cases hmem : event ∈ l'.turns.map Events.Turn.event
    · exact .inl hmem
    · exact .inr (hround.stopped event hfirst hmem)

/-- A server that has the sample events and has made no call. -/
def started (events : Events) : Loop :=
  { events := events
    beginUs := 0
    pollBeginUs := 0
    waiting := events
    turns := []
    durationUs := 0
    durationMs := 0
    failed := false }

def sampleConfig : Config :=
  { stepUs := 2000000
    latencyUs := 50 }

/-- The round takes four microseconds, and `epoll_wait` fails after it. -/
def sampleReading : Reading :=
  { beginUs := 3
    rand := fun n => n
    handlers := Events.sampleHandlers
    pollBeginUs := 7
    pollRand := 999
    reports := none }

theorem step_sample : ((Events.blank.states Events.sampleOps).bind fun states =>
    (started (states.getLast?.getD Events.blank)).step sampleConfig 0 sampleReading).map
      (fun l => (l.turns.map Events.Turn.event, l.durationUs, l.durationMs)) = some ([2], 0, 0) := by
  decide +kernel

theorem inTime_sample :
    ∃ l l', l.step sampleConfig 0 sampleReading = some l' ∧ l'.turns.map Events.Turn.event = [2] ∧
      InTime sampleConfig 0 l sampleReading l' := by
  obtain ⟨states, hstates, hw⟩ := Events.wellFormed_blank.states Events.sampleOps
  have hreachable : Reachable sampleConfig 0 (started (states.getLast?.getD Events.blank)) :=
    .start ⟨hw, rfl, rfl, rfl, rfl⟩
  have hpunctual : (started (states.getLast?.getD Events.blank)).Punctual sampleConfig sampleReading := by
    simp [Punctual, started, sampleConfig, sampleReading]
  obtain ⟨l', hstep, hcorrect⟩ := inTime hreachable hpunctual
  have hsample := step_sample
  rw [hstates, Option.bind_some, hstep, Option.map_some, Option.some.injEq, Prod.mk.injEq] at hsample
  exact ⟨_, l', hstep, hsample.1, hcorrect⟩

end Loop

end IceTunnel
