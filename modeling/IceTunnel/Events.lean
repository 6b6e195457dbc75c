import Mathlib.Data.Stream.Defs
import Std.Data.ExtTreeMap.Lemmas
import IceTunnel.Connection
import IceTunnel.Foundation.Chains

/-!
The intrusive lists of `event.h` and `event.cpp`: the events, sources and managers in
memory, what handlers do to them, and `Manager::doEvents`.  Objects are numbered.  A loop
takes at most one turn for every event there is; one that does not end by then, a dangling
pointer and a failed `assert` make the result `none`.
-/

namespace IceTunnel

open Chains

/-- Where a list of `LinkRaise` starts: `events` in `doEvents`, or `shuffle[i].first`. -/
inductive RaiseRoot
  | events
  | first (i : Nat)
  deriving DecidableEq

/-- An `Event` without its links. -/
structure Node extends Event where
  handler : Option Nat := none
  manager : Option Nat := none
  priority : Int := 0
  ready : Bool := false
  deriving DecidableEq

/-- The events, the sources with their `ready`, and the links of the three types. -/
structure Events where
  nodes : Std.ExtTreeMap Nat Node
  sources : Std.ExtTreeMap Nat Bool
  linkReady : Memory Nat Nat
  linkRaise : Memory RaiseRoot Nat
  linkSource : Memory Nat Nat

namespace Events

variable (h : Events)

/-- No events and no sources. -/
def blank : Events :=
  { nodes := ∅
    sources := ∅
    linkReady := ⟨fun _ => none, fun _ => none⟩
    linkRaise := ⟨fun _ => none, fun _ => none⟩
    linkSource := ⟨fun _ => none, fun _ => none⟩ }

section Event

variable (event : Nat)

def updateReady : Events :=
  match h.nodes[event]? with
  | none => h
  | some node =>
      if node.ready && node.isEnabled then
        match node.manager with
        | none => h
        | some manager =>
            if (h.linkReady.previousNext event).isNone then
              { h with linkReady := h.linkReady.link event (.root manager) }
            else h
      else
        { h with
          linkReady := h.linkReady.unlink event
          linkRaise := h.linkRaise.unlink event }

def setReady (value : Bool) : Events :=
  match h.nodes[event]? with
  | none => h
  | some node =>
      if node.ready ≠ value then
        updateReady { h with nodes := h.nodes.insert event { node with ready := value } } event
      else h

def setTime (timeUs : Int) (force : Bool) : Events :=
  match h.nodes[event]? with
  | none => h
  | some node =>
      if node.timeUs = timeUs then h
      else if force ∨ (node.timeUs > timeUs ∧ timeUs ≥ 0) ∨ node.timeUs < 0 then
        updateReady { h with nodes := h.nodes.insert event { node with timeUs := timeUs } } event
      else h

def disable : Events :=
  h.setTime event (-1) true

/-- `Event::unlink()`. -/
def unlink : Events :=
  match h.nodes[event]? with
  | none => h
  | some node =>
      { h with
        nodes := h.nodes.insert event { priority := node.priority }
        linkReady := h.linkReady.unlink event
        linkRaise := h.linkRaise.unlink event
        linkSource := h.linkSource.unlink event }

/-- `Event::init`, with a source or without. -/
def init (handler manager : Nat) (source : Option Nat) (priority : Int) : Events :=
  match h.nodes[event]? with
  | none => h
  | some _ =>
      let node : Node := { handler := some handler, manager := some manager, priority := priority }
      let h := h.unlink event
      let h := { h with nodes := h.nodes.insert event node }
      match source with
      | none => h.setReady event true
      | some source =>
          setReady { h with linkSource := h.linkSource.link event (.root source) } event
            (h.sources.getD source false)

end Event

section Source

variable (source : Nat)

/-- The loop of `Source::setReady`. -/
def setReadyLoop (value : Bool) : Nat → Option Nat → Events → Option Events
  | _, none, h => some h
  | 0, some _, _ => none
  | fuel + 1, some event, h =>
      if event ∈ h.nodes then
        let h := h.setReady event value
        setReadyLoop value fuel (h.linkSource.load (.next event)) h
      else none

def setSourceReady (value : Bool) : Option Events :=
  match h.sources[source]? with
  | none => some h
  | some ready =>
      if ready = value then some h
      else
        setReadyLoop value h.nodes.size (h.linkSource.load (.root source))
          { h with sources := h.sources.insert source value }

/-- The loop of `Source::~Source`. -/
def unlinkLoop : Nat → Option Nat → Events → Option Events
  | _, none, h => some h
  | 0, some _, _ => none
  | fuel + 1, some event, h =>
      if event ∈ h.nodes then
        let h := { h with linkSource := h.linkSource.unlink event }
        unlinkLoop fuel (h.linkSource.load (.root source)) h
      else none

end Source

/-- What a handler can do.  It does not name an object that is not there, or construct one
in the place of another: such an item does nothing. -/
inductive Op
  | construct (event : Nat)
  | init (event handler manager : Nat) (source : Option Nat) (priority : Int)
  | destroy (event : Nat)
  | setTime (event : Nat) (timeUs : Int) (force : Bool)
  | disable (event : Nat)
  | constructSource (source : Nat)
  | setSourceReady (source : Nat) (value : Bool)
  | destroySource (source : Nat)

def apply (h : Events) : Op → Option Events
  | .construct event => some (if event ∈ h.nodes then h else { h with nodes := h.nodes.insert event {} })
  | .init event handler manager source priority =>
      some (if source.all (· ∈ h.sources) then h.init event handler manager source priority else h)
  | .destroy event =>
      let h := h.unlink event
      some { h with nodes := h.nodes.erase event }
  | .setTime event timeUs force => some (h.setTime event timeUs force)
  | .disable event => some (h.disable event)
  | .constructSource source =>
      some (if source ∈ h.sources then h else { h with sources := h.sources.insert source false })
  | .setSourceReady source value => h.setSourceReady source value
  | .destroySource source =>
      if source ∈ h.sources then
        (h.setSourceReady source false).bind fun h =>
          (unlinkLoop source h.nodes.size (h.linkSource.load (.root source)) h).map fun h =>
            { h with sources := h.sources.erase source }
      else some h

/-- The states after each of the operations. -/
def states (h : Events) : List Op → Option (List Events)
  | [] => some []
  | op :: ops => (h.apply op).bind fun h => (states h ops).map fun hs => h :: hs

section DoEvents

variable (manager : Nat) (timeUs : Int)

/-- `Event *events = NULL`. -/
def clearEvents : Events :=
  { h with linkRaise := h.linkRaise.store (.root .events) none }

/-- The first loop of `doEvents`: it links the due events and counts them. -/
def collectLoop : Nat → Option Nat → Events × Nat × Int → Option (Events × Nat × Int)
  | _, none, collected => some collected
  | 0, some _, _ => none
  | fuel + 1, some event, (h, count, priority) =>
      h.nodes[event]?.bind fun node =>
        let collected :=
          if node.timeUs ≤ timeUs then
            let priority :=
              if (h.linkRaise.load (.root .events)).isNone then node.priority
              else if priority < node.priority then node.priority
              else priority
            if node.priority = priority then
              ({ h with linkRaise := h.linkRaise.link event (.root .events) }, count + 1, priority)
            else (h, count, priority)
          else (h, count, priority)
        collectLoop fuel (collected.1.linkReady.load (.next event)) collected

/-- The second loop: it unlinks the events of a lower priority. -/
def skipLoop (priority : Int) : Nat → Option Nat → Events × Nat → Option (Events × Nat)
  | _, none, skipped => some skipped
  | 0, some _, _ => none
  | fuel + 1, some event, (h, count) =>
      h.nodes[event]?.bind fun node =>
        let next := h.linkRaise.load (.next event)
        if node.priority = priority then skipLoop priority fuel next (h, count)
        else skipLoop priority fuel next
          ({ h with linkRaise := h.linkRaise.unlink event }, count - 1)

/-- `shuffle.clear()` and `shuffle.resize(count)`: all its pointers are `NULL`. -/
def clearShuffle : Events :=
  { h with linkRaise := { h.linkRaise with
    load := fun place =>
      match place with
      | .root (.first _) => none
      | _ => h.linkRaise.load place } }

/-- The third loop: every event goes to one end of a random list.  `second` has the
`shuffle[i].second`, and `rand` the results of `rand()` from here on. -/
def shuffleLoop (size : Nat) : Nat → Option Nat → Events × (Nat → Option Nat) → Stream' Nat →
    Option (Events × (Nat → Option Nat))
  | _, none, shuffled, _ => some shuffled
  | 0, some _, _, _ => none
  | fuel + 1, some event, (h, second), rand =>
      let next := h.linkRaise.load (.next event)
      let i := rand.head % size
      let item : Place RaiseRoot Nat := .root (.first i)
      if size = 0 then none
      else if (h.linkRaise.load item).isNone then
        shuffleLoop size fuel next ({ h with linkRaise := h.linkRaise.link event item },
          Function.update second i (some event)) rand.tail
      else if rand.tail.head % 2 ≠ 0 then
        shuffleLoop size fuel next ({ h with linkRaise := h.linkRaise.link event item }, second)
          rand.tail.tail
      else
        (second i).bind fun last =>
          shuffleLoop size fuel next ({ h with linkRaise := h.linkRaise.link event (.next last) },
            Function.update second i (some event)) rand.tail.tail

/-- The fourth loop: the lists are joined, from `shuffle[i]` on. -/
def joinLoop (second : Nat → Option Nat) : Nat → Nat → Events × Place RaiseRoot Nat →
    Option (Events × Place RaiseRoot Nat)
  | 0, _, joined => some joined
  | rest + 1, i, (h, lastNext) =>
      if (h.linkRaise.load (.root (.first i))).isSome then
        (second i).bind fun last =>
          joinLoop second rest (i + 1)
            ({ h with linkRaise := h.linkRaise.splice lastNext (.root (.first i)) }, .next last)
      else joinLoop second rest (i + 1) (h, lastNext)

/-- A call of `raise()`: the event, the time that its handler gets, and the states after
each operation of the handler. -/
structure Turn where
  event : Nat
  plannedTimeUs : Int
  states : List Events

/-- The last loop: it raises the events.  `handlers` has what the handlers do. -/
def raiseLoop : Nat → Option Nat → Events → Stream' (List Op) → Option (Events × List Turn)
  | _, none, h, _ => some (h, [])
  | 0, some _, _, _ => none
  | fuel + 1, some event, h, handlers =>
      h.nodes[event]?.bind fun node =>
        if node.ready && node.isEnabled then
          let h := h.disable event
          (h.states (if node.handler.isSome then handlers.head else [])).bind fun states =>
            let h := states.getLast?.getD h
            (raiseLoop fuel (h.linkRaise.load (.root .events)) h handlers.tail).map fun (h, turns) =>
              (h, ⟨event, node.timeUs, states⟩ :: turns)
        else none

/-- The search for the next time. -/
def nextTimeLoop : Nat → Option Nat → Events → Int → Option Int
  | _, none, _, nextTime => some nextTime
  | 0, some _, _, _ => none
  | fuel + 1, some event, h, nextTime =>
      h.nodes[event]?.bind fun node =>
        nextTimeLoop fuel (h.linkReady.load (.next event)) h
          (if node.timeUs < nextTime then node.timeUs else nextTime)

def nextTime : Option Int :=
  match h.linkReady.load (.root manager) with
  | none => some (-1)
  | some event =>
      h.nodes[event]?.bind fun node => nextTimeLoop h.nodes.size (some event) h node.timeUs

/-- Up to the raise loop: the events to raise are linked, and this many they are. -/
def selectEvents (rand : Stream' Nat) : Option (Events × Nat) :=
  let h := h.clearEvents
  (collectLoop timeUs h.nodes.size (h.linkReady.load (.root manager)) (h, 0, 0)).bind
    fun (h, count, priority) =>
  (skipLoop priority h.nodes.size (h.linkRaise.load (.root .events)) (h, count)).bind
    fun (h, count) =>
  (shuffleLoop count h.nodes.size (h.linkRaise.load (.root .events))
    (h.clearShuffle, fun _ => none) rand).bind fun (h, second) =>
  if (h.linkRaise.load (.root .events)).isNone then
    (joinLoop second count 0 (h, .root .events)).map fun (h, _) => (h, count)
  else none

/-- `Manager::doEvents`, with the calls it makes. -/
def doEvents (rand : Stream' Nat) (handlers : Stream' (List Op)) :
    Option (Events × List Turn × Int) :=
  (h.selectEvents manager timeUs rand).bind fun (h, count) =>
    (raiseLoop count (h.linkRaise.load (.root .events)) h handlers).bind fun (h, turns) =>
      (h.nextTime manager).map fun nextTimeUs => (h, turns, nextTimeUs)

end DoEvents

end Events

end IceTunnel
