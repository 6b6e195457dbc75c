import Mathlib.Data.Fintype.Basic

/-!
Edge-triggered reports: conditions that come and go, and a watcher who is told about them
only when one of them has begun to hold.
-/

namespace IceTunnel

/-- Which conditions hold, and whether a report about them is due. -/
structure Edges (ι : Type*) where
  level : ι → Bool
  pending : Bool

namespace Edges

variable {ι : Type*} {e : Edges ι} {seen seen' : ι → Prop}

/-- A report has the conditions as they are now. -/
def reported (e : Edges ι) : Edges ι :=
  { e with pending := false }

/-- The watcher has noticed what holds, or will be told. -/
def Noticed (e : Edges ι) (seen : ι → Prop) : Prop :=
  e.pending = false → ∀ i, e.level i = true → seen i

theorem Noticed.forget (h : e.Noticed seen) (hseen : ∀ i, e.level i = true → seen i → seen' i) :
    e.Noticed seen' :=
  fun hpending i hi => hseen i hi (h hpending i hi)

/-- Some condition begins to hold. -/
def Rises (before after : ι → Bool) : Prop :=
  ∃ i, before i = false ∧ after i = true

variable [Fintype ι]

instance (before after : ι → Bool) : Decidable (Rises before after) :=
  inferInstanceAs (Decidable (∃ i, before i = false ∧ after i = true))

/-- The watcher starts with a report if there is anything to tell. -/
def watch (level : ι → Bool) : Edges ι :=
  ⟨level, decide (Rises (fun _ => false) level)⟩

/-- The conditions change.  A report may become due without a need. -/
def change (e : Edges ι) (level : ι → Bool) (spurious : Bool) : Edges ι :=
  ⟨level, e.pending || spurious || decide (Rises e.level level)⟩

theorem noticed_watch (level : ι → Bool) (seen : ι → Prop) : (watch level).Noticed seen := by
  intro hpending i hi
  exact absurd ⟨i, rfl, hi⟩ (of_decide_eq_false hpending)

theorem Noticed.change (h : e.Noticed seen) (level : ι → Bool) (spurious : Bool) :
    (e.change level spurious).Noticed seen := by
  intro hpending i hi
  simp only [Edges.change, Bool.or_eq_false_iff, decide_eq_false_iff_not] at hpending
  obtain ⟨⟨hbefore, -⟩, hrises⟩ := hpending
  refine h hbefore i ?_
  by_contra hlow
  exact hrises ⟨i, Bool.not_eq_true _ ▸ hlow, hi⟩

end Edges

end IceTunnel
