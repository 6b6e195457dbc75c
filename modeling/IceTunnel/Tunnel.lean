import Mathlib.Data.List.FinRange
import IceTunnel.Foundation.Runs
import IceTunnel.Soundness

/-!
Two connections that talk to each other.  The network hands a side any datagram
the other side has ever passed to `writeto`: it may lose, duplicate, reorder and
delay them.
-/

namespace IceTunnel

inductive Side
  | client
  | server
  deriving DecidableEq, Repr

namespace Side

def other : Side → Side
  | client => server
  | server => client

@[simp] theorem other_other (side : Side) : side.other.other = side := by
  cases side <;> rfl

@[simp] theorem other_ne (side : Side) : side.other ≠ side := by
  cases side <;> decide

@[simp] theorem ne_other (side : Side) : side ≠ side.other := by
  cases side <;> decide

theorem eq_or_eq_other (side a : Side) : a = side ∨ a = side.other := by
  cases side <;> cases a <;> simp [other]

end Side

abbrev Tunnel := Side → Connection

namespace Tunnel

inductive Move
  /-- A round of `doEvents(timeUs)` raises an event. -/
  | «raise» (side : Side) (event : EventName) (timeUs : Nat) (io : Io)
  /-- The `n`-th datagram of the other side arrives. -/
  | deliver (side : Side) (n : Nat) (io : Io)

/-- A side makes fewer than `INT_MAX` packets: an `int` numbers them, and
`INT_MAX` means that the end is not in sight. -/
def update (t : Tunnel) (side : Side) (c : Connection) : Option Tunnel :=
  if c.udpNextSendIndex < intMax then some (Function.update t side c) else none

def step (t : Tunnel) : Move → Option Tunnel
  | .raise side event timeUs io =>
      ((t side).step (.raise event timeUs io)).bind (t.update side)
  | .deliver side n io =>
      (t side.other).transmitted[n]?.bind fun datagram =>
        ((t side).step (.udpRead datagram io)).bind (t.update side)

/-- Two fresh connections. -/
def Initial (config : Side → Config) (t : Tunnel) : Prop :=
  ∀ side, Connection.Initial (config side) (t side)

abbrev Reachable (config : Side → Config) : Tunnel → Prop :=
  Runs.Reachable (Initial config) step Runs.anyMove

/-- Two connections with the same parameters, constructed at time 0. -/
def fresh (config : Config) : Tunnel :=
  fun _ => Connection.new config 10 0 (Io.steady 0)

/-- The same move at both sides. -/
def both (move : Side → Move) : List Move :=
  [move .client, move .server]

/-- The run of two fresh connections along a list of moves. -/
def play (config : Config) (moves : List Move) : Option Tunnel :=
  Runs.run step Runs.anyMove (fresh config) moves

theorem Reachable.of_play {config : Config} {moves : List Move} {t : Tunnel}
    (h : play config moves = some t) : Reachable (fun _ => config) t :=
  Runs.Reachable.of_run (.start fun _ => ⟨10, 0, Io.steady 0, rfl⟩) h

/-- The protocol states of both sides. -/
abbrev Endpoints := Side → Endpoint

def endpoints (t : Tunnel) : Endpoints :=
  fun side => (t side).toEndpoint

/-- The datagrams that can reach a side. -/
def Endpoints.InFlight (x : Endpoints) (side : Side) (packet : Packet) : Prop :=
  packet ∈ (x side.other).transmitted

theorem Endpoints.inFlight_update (x : Endpoints) (side : Side) (e : Endpoint) :
    Endpoints.InFlight (Function.update x side e) side = x.InFlight side := by
  funext packet
  simp only [InFlight, Function.update_of_ne side.other_ne]

/-- One protocol step of one side. -/
inductive ProtocolStep (x : Endpoints) : Endpoints → Prop
  | mk (side : Side) (e : Endpoint) :
      Protocol.Step (x.InFlight side) (x side) e → e.udpNextSendIndex < intMax →
      ProtocolStep x (Function.update x side e)

theorem step_eq_some {t t' : Tunnel} {m : Move} (h : t.step m = some t') :
    ∃ (side : Side) (move : Connection.Move) (c : Connection),
      (t side).step move = some c ∧ c.udpNextSendIndex < intMax ∧
      t' = Function.update t side c ∧
      ∀ packet, move.Delivers packet → t.endpoints.InFlight side packet := by
  have hupdate : ∀ {side : Side} {c : Connection}, t.update side c = some t' →
      c.udpNextSendIndex < intMax ∧ t' = Function.update t side c := by
    intro side c hc
    simp only [update, Option.ite_none_right_eq_some, Option.some.injEq] at hc
    exact ⟨hc.1, hc.2.symm⟩
  cases m with
  | «raise» side event timeUs io =>
      obtain ⟨c, hc, hupdated⟩ := Option.bind_eq_some_iff.mp h
      obtain ⟨hlt, ht⟩ := hupdate hupdated
      refine ⟨side, _, c, hc, hlt, ht, fun packet hpacket => ?_⟩
      obtain ⟨datagram, io', hmove, -⟩ := hpacket
      cases hmove
  | deliver side n io =>
      obtain ⟨datagram, hdatagram, hrest⟩ := Option.bind_eq_some_iff.mp h
      obtain ⟨c, hc, hupdated⟩ := Option.bind_eq_some_iff.mp hrest
      obtain ⟨hlt, ht⟩ := hupdate hupdated
      refine ⟨side, _, c, hc, hlt, ht, fun packet hpacket => ?_⟩
      obtain ⟨datagram', io', hmove, rfl⟩ := hpacket
      cases hmove
      have hmem := List.mem_of_getElem? hdatagram
      simp only [Endpoints.InFlight, endpoints, Sender.wire_of_mem_transmitted hmem]
      exact hmem

/-- What a move does at which side. -/
def sideMove (t : Tunnel) : Move → Option (Side × Connection.Move)
  | .raise side event timeUs io => some (side, .raise event timeUs io)
  | .deliver side n io =>
      (t side.other).transmitted[n]?.map fun datagram => (side, .udpRead datagram io)

/-- The side that makes the move meets the condition `ok` on single connections. -/
def EachSide (ok : Connection → Connection.Move → Prop) (t : Tunnel) (m : Move) : Prop :=
  ∀ made ∈ t.sideMove m, ok (t made.1) made.2

instance {ok : Connection → Connection.Move → Prop} [∀ c m, Decidable (ok c m)] (t : Tunnel)
    (m : Move) : Decidable (EachSide ok t m) :=
  decidable_of_iff ((t.sideMove m).all fun made => decide (ok (t made.1) made.2)) <| by
    cases h : t.sideMove m <;> simp [EachSide, h]

theorem sideMove_of_step {t t' : Tunnel} {m : Move} (h : t.step m = some t') :
    ∃ (side : Side) (move : Connection.Move) (c : Connection), t.sideMove m = some (side, move) ∧
      (t side).step move = some c ∧ t' = Function.update t side c := by
  cases m with
  | «raise» side event timeUs io =>
      obtain ⟨c, hc, hupdated⟩ := Option.bind_eq_some_iff.mp h
      simp only [update, Option.ite_none_right_eq_some, Option.some.injEq] at hupdated
      exact ⟨side, _, c, rfl, hc, hupdated.2.symm⟩
  | deliver side n io =>
      obtain ⟨datagram, hdatagram, hrest⟩ := Option.bind_eq_some_iff.mp h
      obtain ⟨c, hc, hupdated⟩ := Option.bind_eq_some_iff.mp hrest
      simp only [update, Option.ite_none_right_eq_some, Option.some.injEq] at hupdated
      exact ⟨side, _, c, by rw [sideMove, hdatagram]; rfl, hc, hupdated.2.symm⟩

/-- A run of the tunnel is a run of each of its connections. -/
theorem reachable_side_of {init : Side → Connection → Prop}
    {ok : Connection → Connection.Move → Prop} {t : Tunnel}
    (h : Runs.Reachable (fun t : Tunnel => ∀ side, init side (t side)) step (EachSide ok) t)
    (side : Side) : Runs.Reachable (init side) Connection.step ok (t side) := by
  induction h with
  | start ht => exact .start (ht side)
  | next hs hok hm ih =>
      obtain ⟨a, move, c, hmove, hc, rfl⟩ := sideMove_of_step hm
      by_cases hside : side = a
      · subst hside
        rw [Function.update_self]
        exact .next ih (hok _ hmove) hc
      · rwa [Function.update_of_ne hside]

theorem reachable_side {config : Side → Config} {ok : Connection → Connection.Move → Prop}
    {t : Tunnel} (h : Runs.Reachable (Initial config) step (EachSide ok) t) (side : Side) :
    Runs.Reachable (Connection.Initial (config side)) Connection.step ok (t side) :=
  reachable_side_of h side

theorem protocolSteps_of_steps {x : Endpoints} {side : Side} {e : Endpoint}
    (h : Protocol.Steps (x.InFlight side) (x side) e) (hlt : e.udpNextSendIndex < intMax) :
    Relation.ReflTransGen ProtocolStep x (Function.update x side e) := by
  induction h with
  | refl => rw [Function.update_eq_self]
  | tail hsteps hlast ih =>
      rename_i d e
      have hle := Protocol.udpNextSendIndex_le hlast
      refine (ih (by omega)).tail ?_
      have hstep := ProtocolStep.mk (x := Function.update x side d) side e
      rw [Function.update_idem] at hstep
      refine hstep ?_ hlt
      rw [Endpoints.inFlight_update, Function.update_self]
      exact hlast

/-- Every move of a tunnel is a sequence of protocol steps. -/
theorem step_refines {t t' : Tunnel} {m : Move} (h : t.step m = some t') :
    Relation.ReflTransGen ProtocolStep t.endpoints t'.endpoints := by
  obtain ⟨side, move, c, hc, hlt, rfl, hnet⟩ := step_eq_some h
  have hsteps := protocolSteps_of_steps (x := t.endpoints) (Connection.step_refines hc hnet) hlt
  have heq : Tunnel.endpoints (Function.update t side c) =
      Function.update t.endpoints side c.toEndpoint := by
    funext a
    simp only [endpoints, Function.update_apply]
    split <;> rfl
  rw [heq]
  exact hsteps

end Tunnel

end IceTunnel
