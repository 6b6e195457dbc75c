import Mathlib.Logic.Relation
import Mathlib.Order.Basic

/-!
Runs of a system that is given by a partial step function: `step s m = none`
when the move `m` is not possible in the state `s`.  What such runs keep, what they can
still reach, and what follows them.
-/

namespace IceTunnel.Runs

variable {σ τ μ : Type*}

/-- The states at the end of the runs that start in `init` and whose moves all
meet the condition `ok`. -/
inductive Reachable (init : σ → Prop) (step : σ → μ → Option σ) (ok : σ → μ → Prop) : σ → Prop
  | start {s : σ} : init s → Reachable init step ok s
  | next {s t : σ} {m : μ} :
      Reachable init step ok s → ok s m → step s m = some t → Reachable init step ok t

/-- The condition that every move meets. -/
def anyMove (_ : σ) (_ : μ) : Prop := True

variable {init : σ → Prop} {step : σ → μ → Option σ} {ok : σ → μ → Prop}

theorem Reachable.invariant {I : σ → Prop} (hinit : ∀ s, init s → I s)
    (hstep : ∀ s m t, I s → ok s m → step s m = some t → I t) {s : σ}
    (h : Reachable init step ok s) : I s := by
  induction h with
  | start hs => exact hinit _ hs
  | next _ hok hm ih => exact hstep _ _ _ ih hok hm

theorem Reachable.mono {ok' : σ → μ → Prop} (hok : ∀ s m, ok s m → ok' s m) {s : σ}
    (h : Reachable init step ok s) : Reachable init step ok' s := by
  induction h with
  | start hs => exact .start hs
  | next _ hm hstep ih => exact .next ih (hok _ _ hm) hstep

theorem Reachable.weaken {init' : σ → Prop} (hinit : ∀ s, init s → init' s) {s : σ}
    (h : Reachable init step ok s) : Reachable init' step ok s := by
  induction h with
  | start hs => exact .start (hinit _ hs)
  | next _ hm hstep ih => exact .next ih hm hstep

theorem Reachable.any {s : σ} (h : Reachable init step ok s) :
    Reachable init step anyMove s :=
  h.mono fun _ _ _ => trivial

/-- The run along a list of moves, checking the condition before each. -/
def run (step : σ → μ → Option σ) (ok : σ → μ → Prop) [∀ s m, Decidable (ok s m)] :
    σ → List μ → Option σ
  | s, [] => some s
  | s, m :: ms => if ok s m then (step s m).bind fun t => run step ok t ms else none

instance (s : σ) (m : μ) : Decidable (anyMove s m) := .isTrue trivial

theorem Reachable.of_run [∀ s m, Decidable (ok s m)] {s t : σ} {ms : List μ}
    (hs : Reachable init step ok s) (h : run step ok s ms = some t) :
    Reachable init step ok t := by
  induction ms generalizing s with
  | nil =>
      cases h
      exact hs
  | cons m ms ih =>
      rw [run] at h
      split at h
      · rename_i hok
        obtain ⟨u, hu, hrun⟩ := Option.bind_eq_some_iff.mp h
        exact ih (.next hs hok hu) hrun
      · cases h

theorem Reachable.of_run_forall {P : μ → Prop} [∀ s m, Decidable (ok s m)] {s t : σ} {ms : List μ}
    (hs : Reachable init step (fun s m => P m ∧ ok s m) s) (hP : ∀ m ∈ ms, P m)
    (h : run step ok s ms = some t) : Reachable init step (fun s m => P m ∧ ok s m) t := by
  induction ms generalizing s with
  | nil =>
      cases h
      exact hs
  | cons m ms ih =>
      rw [List.forall_mem_cons] at hP
      rw [run] at h
      split at h
      · rename_i hok
        obtain ⟨u, hu, hrun⟩ := Option.bind_eq_some_iff.mp h
        exact ih (.next hs ⟨hP.1, hok⟩ hu) hP.2 hrun
      · cases h

theorem chain_invariant {R : τ → τ → Prop} {I : τ → Prop} (hR : ∀ x y, I x → R x y → I y)
    {x y : τ} (h : Relation.ReflTransGen R x y) (hx : I x) : I y := by
  induction h with
  | refl => exact hx
  | tail _ hlast ih => exact hR _ _ ih hlast

/-- What no step of a relation lowers in the states that an invariant describes, no
chain of its steps lowers. -/
theorem chain_le {α : Type*} [Preorder α] {R : τ → τ → Prop} {I : τ → Prop} (f : τ → α)
    (hI : ∀ x y, I x → R x y → I y) (hR : ∀ x y, I x → R x y → f x ≤ f y) {x y : τ}
    (h : Relation.ReflTransGen R x y) (hx : I x) : f x ≤ f y := by
  induction h with
  | refl => exact le_refl _
  | tail hchain hlast ih => exact le_trans ih (hR _ _ (chain_invariant hI hchain hx) hlast)

/-- A system whose steps are sequences of steps of a relation keeps what the
relation keeps. -/
theorem Reachable.invariant_of_refines {f : σ → τ} {R : τ → τ → Prop} {I : τ → Prop}
    (hinit : ∀ s, init s → I (f s))
    (hrefines : ∀ s m t, Reachable init step ok s → ok s m → step s m = some t →
      Relation.ReflTransGen R (f s) (f t))
    (hR : ∀ x y, I x → R x y → I y) {s : σ} (h : Reachable init step ok s) : I (f s) := by
  induction h with
  | start hs => exact hinit _ hs
  | next hs hok hm ih => exact chain_invariant hR (hrefines _ _ _ hs hok hm) ih

section Progress

/-- A run from the first state ends in the second one. -/
abbrev Leads (step : σ → μ → Option σ) : σ → σ → Prop :=
  Relation.ReflTransGen fun s t => ∃ m, step s m = some t

variable {s t : σ}

theorem Leads.of_step {m : μ} (h : step s m = some t) : Leads step s t :=
  .single ⟨m, h⟩

theorem Reachable.leads (h : Reachable init step anyMove s) (hleads : Leads step s t) :
    Reachable init step anyMove t := by
  induction hleads with
  | refl => exact h
  | tail _ hlast ih =>
      obtain ⟨m, hm⟩ := hlast
      exact .next ih trivial hm

/-- Where every state short of the goal leads to one with a smaller measure, every state
leads to the goal. -/
theorem Leads.of_closer {I G : σ → Prop} (f : σ → Nat)
    (hcloser : ∀ s, I s → ¬G s → ∃ t, Leads step s t ∧ I t ∧ f t < f s) (h : I s) :
    ∃ t, Leads step s t ∧ I t ∧ G t := by
  induction hn : f s using Nat.strongRecOn generalizing s with
  | ind n ih =>
      by_cases hgoal : G s
      · exact ⟨s, .refl, h, hgoal⟩
      · obtain ⟨t, hleads, ht, hlt⟩ := hcloser s h hgoal
        obtain ⟨u, hrest, hu⟩ := ih (f t) (hn ▸ hlt) ht rfl
        exact ⟨u, hleads.trans hrest, hu⟩

end Progress

section Simulation

/-- Every start of the system is related to a start of the relation, and every step from
related states ends in related states. -/
structure Simulates (init : σ → Prop) (step : σ → μ → Option σ) (ok : σ → μ → Prop)
    (start : τ → Prop) (R : τ → τ → Prop) (rel : σ → τ → Prop) : Prop where
  exists_start : ∀ s, init s → ∃ x, start x ∧ rel s x
  exists_chain : ∀ s m t x, rel s x → ok s m → step s m = some t →
    ∃ y, Relation.ReflTransGen R x y ∧ rel t y

variable {start : τ → Prop} {R : τ → τ → Prop} {rel : σ → τ → Prop}

/-- Every run of the system is followed by a chain of steps of the relation. -/
theorem Simulates.exists_of_reachable (h : Simulates init step ok start R rel) {s : σ}
    (hs : Reachable init step ok s) :
    ∃ x y, start x ∧ Relation.ReflTransGen R x y ∧ rel s y := by
  induction hs with
  | start hinit =>
      obtain ⟨x, hx, hrel⟩ := h.exists_start _ hinit
      exact ⟨x, x, hx, .refl, hrel⟩
  | next hreach hok hm ih =>
      obtain ⟨x, y, hx, hchain, hrel⟩ := ih
      obtain ⟨z, hlast, hrel'⟩ := h.exists_chain _ _ _ y hrel hok hm
      exact ⟨x, z, hx, hchain.trans hlast, hrel'⟩

theorem Simulates.exists_invariant (h : Simulates init step ok start R rel) {I : τ → Prop}
    (hstart : ∀ x, start x → I x) (hR : ∀ x y, I x → R x y → I y) {s : σ}
    (hs : Reachable init step ok s) : ∃ y, I y ∧ rel s y := by
  obtain ⟨x, y, hx, hchain, hrel⟩ := h.exists_of_reachable hs
  exact ⟨y, chain_invariant hR hchain (hstart x hx), hrel⟩

end Simulation

end IceTunnel.Runs
