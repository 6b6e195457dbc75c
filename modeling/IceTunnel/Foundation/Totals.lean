import Mathlib.Algebra.BigOperators.Group.Finset.Basic
import Mathlib.Algebra.BigOperators.Group.Finset.Piecewise
import Mathlib.Algebra.Order.BigOperators.Group.Finset
import Mathlib.Data.Int.Order.Basic
import Std.Data.ExtTreeMap.Lemmas

namespace IceTunnel.Totals

variable {β : Type*} (weight : β → Int)

/-- The weight of an entry that may be missing. -/
def weigh (entry : Option β) : Int :=
  entry.elim 0 weight

@[simp] theorem weigh_none : weigh weight none = 0 := rfl
@[simp] theorem weigh_some (value : β) : weigh weight (some value) = weight value := rfl

/-- The sum over all entries. -/
def total (map : Std.ExtTreeMap Int β) : Int :=
  ∑ key ∈ map.keys.toFinset, weigh weight map[key]?

variable (map : Std.ExtTreeMap Int β) (key : Int)

@[simp] theorem total_empty : total weight (∅ : Std.ExtTreeMap Int β) = 0 := by
  simp [total]

section Update

variable {κ : Type*} [Ord κ] [Std.TransOrd κ] [Std.LawfulEqOrd κ] [DecidableEq κ]
variable (map map' : Std.ExtTreeMap κ β)

theorem sum_keys_eq (keys : Finset κ) (h : ∀ key, key ∈ map → key ∈ keys) :
    ∑ key ∈ map.keys.toFinset, weigh weight map[key]? = ∑ key ∈ keys, weigh weight map[key]? := by
  apply Finset.sum_subset
  · intro key hkey
    exact h key (Std.ExtTreeMap.mem_keys.mp (List.mem_toFinset.mp hkey))
  · intro key _ hnot
    rw [List.mem_toFinset, Std.ExtTreeMap.mem_keys] at hnot
    rw [Std.ExtTreeMap.getElem?_eq_none hnot, weigh_none]

theorem sum_keys_of_update (key : κ) (h : ∀ other, other ≠ key → map'[other]? = map[other]?) :
    ∑ key ∈ map'.keys.toFinset, weigh weight map'[key]? =
      ∑ key ∈ map.keys.toFinset, weigh weight map[key]? - weigh weight map[key]? +
        weigh weight map'[key]? := by
  let keys := insert key (map.keys.toFinset ∪ map'.keys.toFinset)
  have hmem : key ∈ keys := Finset.mem_insert_self _ _
  have hold := sum_keys_eq weight map keys fun other hother =>
    Finset.mem_insert_of_mem (Finset.mem_union_left _
      (List.mem_toFinset.mpr (Std.ExtTreeMap.mem_keys.mpr hother)))
  have hnew := sum_keys_eq weight map' keys fun other hother =>
    Finset.mem_insert_of_mem (Finset.mem_union_right _
      (List.mem_toFinset.mpr (Std.ExtTreeMap.mem_keys.mpr hother)))
  have hrest : ∑ other ∈ keys.erase key, weigh weight map'[other]? =
      ∑ other ∈ keys.erase key, weigh weight map[other]? := by
    apply Finset.sum_congr rfl
    intro other hother
    rw [h other (Finset.ne_of_mem_erase hother)]
  rw [hold, hnew, ← Finset.sum_erase_add _ _ hmem, ← Finset.sum_erase_add _ _ hmem, hrest]
  omega

end Update

theorem total_of_update {map map' : Std.ExtTreeMap Int β} {key : Int}
    (h : ∀ other, other ≠ key → map'[other]? = map[other]?) :
    total weight map' = total weight map - weigh weight map[key]? + weigh weight map'[key]? :=
  sum_keys_of_update weight map map' key h

theorem total_insert (value : β) : total weight (map.insert key value) =
    total weight map - weigh weight map[key]? + weight value := by
  have hother : ∀ other, other ≠ key → (map.insert key value)[other]? = map[other]? := by
    intro other hother
    rw [Std.ExtTreeMap.getElem?_insert, if_neg (by simpa [compare_eq_iff_eq] using hother.symm)]
  rw [total_of_update weight hother, Std.ExtTreeMap.getElem?_insert_self, weigh_some]

theorem total_erase : total weight (map.erase key) =
    total weight map - weigh weight map[key]? := by
  have hother : ∀ other, other ≠ key → (map.erase key)[other]? = map[other]? := by
    intro other hother
    rw [Std.ExtTreeMap.getElem?_erase, if_neg (by simpa [compare_eq_iff_eq] using hother.symm)]
  rw [total_of_update weight hother, Std.ExtTreeMap.getElem?_erase_self, weigh_none, add_zero]

variable {weight map}

theorem total_nonneg (h : ∀ (key : Int) (value : β), map[key]? = some value → 0 ≤ weight value) :
    0 ≤ total weight map := by
  apply Finset.sum_nonneg
  intro key _
  cases hvalue : map[key]? with
  | none => exact le_refl 0
  | some value => exact h key value hvalue

theorem total_eq_zero (h : ∀ (key : Int) (value : β), map[key]? = some value → weight value = 0) :
    total weight map = 0 := by
  apply Finset.sum_eq_zero
  intro key _
  cases hvalue : map[key]? with
  | none => rfl
  | some value => exact h key value hvalue

theorem le_total (h : ∀ (key : Int) (value : β), map[key]? = some value → 0 ≤ weight value) {key : Int}
    {value : β} (hvalue : map[key]? = some value) : weight value ≤ total weight map := by
  have herase := total_erase weight map key
  have hrest : 0 ≤ total weight (map.erase key) := by
    apply total_nonneg
    intro other value hother
    rw [Std.ExtTreeMap.getElem?_erase] at hother
    split at hother
    · cases hother
    · exact h other value hother
  rw [hvalue, weigh_some] at herase
  omega

end IceTunnel.Totals
