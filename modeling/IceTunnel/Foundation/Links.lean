import Mathlib.Logic.Basic

/-!
Two indices of the same links: what the one says of a key, the other says of the place.
-/

namespace IceTunnel.Links

variable {κ ι : Type*}

/-- The key points at the place exactly when the place points at the key. -/
def Inverse (forth : κ → Option ι) (back : ι → Option κ) : Prop :=
  ∀ (key : κ) (place : ι), forth key = some place ↔ back place = some key

variable {forth forth' : κ → Option ι} {back back' : ι → Option κ} {key : κ} {place : ι}

theorem Inverse.link (h : Inverse forth back) (hkey : forth key = none) (hplace : back place = none)
    (hforth : forth' key = some place) (hback : back' place = some key)
    (hkeys : ∀ other, other ≠ key → forth' other = forth other)
    (hplaces : ∀ other, other ≠ place → back' other = back other) : Inverse forth' back' := by
  intro k i
  by_cases hk : k = key
  · subst hk
    rw [hforth]
    constructor
    · rintro heq
      rw [← Option.some.inj heq, hback]
    · intro hi
      by_cases hplaced : i = place
      · rw [hplaced]
      · rw [hplaces i hplaced, ← h, hkey] at hi
        cases hi
  · rw [hkeys k hk, h]
    by_cases hi : i = place
    · subst hi
      rw [hplace, hback]
      constructor
      · intro hnone
        cases hnone
      · intro heq
        exact absurd (Option.some.inj heq).symm hk
    · rw [hplaces i hi]

theorem Inverse.unlink (h : Inverse forth back) (hlinked : forth key = some place)
    (hforth : forth' key = none) (hback : back' place = none)
    (hkeys : ∀ other, other ≠ key → forth' other = forth other)
    (hplaces : ∀ other, other ≠ place → back' other = back other) : Inverse forth' back' := by
  have hplace : back place = some key := (h key place).mp hlinked
  intro k i
  by_cases hk : k = key
  · subst hk
    rw [hforth]
    constructor
    · intro hnone
      cases hnone
    · intro hi
      by_cases hplaced : i = place
      · rw [hplaced, hback] at hi
        cases hi
      · rw [hplaces i hplaced, ← h, hlinked] at hi
        exact absurd (Option.some.inj hi).symm hplaced
  · rw [hkeys k hk, h]
    by_cases hi : i = place
    · subst hi
      rw [hplace, hback]
      constructor
      · intro heq
        exact absurd (Option.some.inj heq).symm hk
      · intro hnone
        cases hnone
    · rw [hplaces i hi]

end IceTunnel.Links
