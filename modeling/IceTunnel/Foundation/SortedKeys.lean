import Mathlib.Data.List.Pairwise
import Mathlib.Data.List.TakeWhile
import Mathlib.Order.Lattice
import Mathlib.Order.Basic
import Mathlib.Data.Int.Order.Basic
import Std.Data.ExtTreeMap.Lemmas

namespace IceTunnel.SortedKeys

section Lists

variable {α : Type*} [LinearOrder α] {keys : List α} {bound : α} {below : α → Bool}

theorem mem_takeWhile_of_pairwise (h : keys.Pairwise (· < ·))
    (hbelow : ∀ key, below key = true ↔ key < bound) (key : α) :
    key ∈ keys.takeWhile below ↔ key < bound ∧ key ∈ keys := by
  induction keys with
  | nil => simp
  | cons first keys ih =>
      obtain ⟨hfirst, htail⟩ := List.pairwise_cons.mp h
      rw [List.takeWhile_cons]
      split
      · rename_i hlt
        rw [List.mem_cons, ih htail, List.mem_cons]
        constructor
        · rintro (rfl | ⟨hkey, hmem⟩)
          · exact ⟨(hbelow _).mp hlt, .inl rfl⟩
          · exact ⟨hkey, .inr hmem⟩
        · rintro ⟨hkey, rfl | hmem⟩
          · exact .inl rfl
          · exact .inr ⟨hkey, hmem⟩
      · rename_i hge
        rw [hbelow] at hge
        constructor
        · intro hmem
          cases hmem
        · rintro ⟨hkey, hmem⟩
          rcases List.mem_cons.mp hmem with rfl | hmem
          · exact absurd hkey hge
          · exact absurd (lt_trans (hfirst key hmem) hkey) hge

theorem mem_dropWhile_of_pairwise (h : keys.Pairwise (· < ·))
    (hbelow : ∀ key, below key = true ↔ key < bound) (key : α) :
    key ∈ keys.dropWhile below ↔ bound ≤ key ∧ key ∈ keys := by
  induction keys with
  | nil => simp
  | cons first keys ih =>
      obtain ⟨hfirst, htail⟩ := List.pairwise_cons.mp h
      rw [List.dropWhile_cons]
      split
      · rename_i hlt
        rw [hbelow] at hlt
        rw [ih htail, List.mem_cons]
        constructor
        · rintro ⟨hkey, hmem⟩
          exact ⟨hkey, .inr hmem⟩
        · rintro ⟨hkey, rfl | hmem⟩
          · exact absurd hlt (not_lt.mpr hkey)
          · exact ⟨hkey, hmem⟩
      · rename_i hge
        rw [hbelow, not_lt] at hge
        constructor
        · intro hmem
          refine ⟨?_, hmem⟩
          rcases List.mem_cons.mp hmem with rfl | hmem
          · exact hge
          · exact le_trans hge (hfirst key hmem).le
        · exact fun h => h.2

theorem headD_le_of_pairwise (h : keys.Pairwise (· < ·)) {key fallback : α} (hmem : key ∈ keys) :
    keys.headD fallback ≤ key := by
  have hle := (h.imp fun {_ _} hlt => le_of_lt hlt).rel_head hmem
  rwa [List.headD_eq_head?_getD, List.head?_eq_some_head (List.ne_nil_of_mem hmem),
    Option.getD_some]

theorem le_getLastD_of_pairwise (h : keys.Pairwise (· < ·)) {key fallback : α} (hmem : key ∈ keys) :
    key ≤ keys.getLastD fallback := by
  have hle := (h.imp fun {_ _} hlt => le_of_lt hlt).rel_getLast hmem
  rwa [List.getLastD_eq_getLast?, List.getLast?_eq_some_getLast (List.ne_nil_of_mem hmem),
    Option.getD_some]

end Lists

section Maps

variable {β : Type*} (map : Std.ExtTreeMap Int β)

theorem pairwise_keys : map.keys.Pairwise (· < ·) := by
  have h : map.keys.Pairwise fun a b => compare a b = .lt := Std.ExtTreeMap.ordered_keys
  exact h.imp fun hlt => Int.compare_eq_lt.mp hlt

theorem mem_takeWhile_keys {bound key : Int} :
    key ∈ map.keys.takeWhile (· < bound) ↔ key < bound ∧ key ∈ map := by
  refine (mem_takeWhile_of_pairwise (pairwise_keys map) (fun _ => decide_eq_true_iff) key).trans ?_
  rw [Std.ExtTreeMap.mem_keys]

theorem mem_takeWhile_keys_le {bound key : Int} :
    key ∈ map.keys.takeWhile (· ≤ bound) ↔ key ≤ bound ∧ key ∈ map := by
  have hbelow : ∀ key : Int, decide (key ≤ bound) = true ↔ key < bound + 1 := by
    intro key
    rw [decide_eq_true_iff, Int.lt_add_one_iff]
  refine (mem_takeWhile_of_pairwise (pairwise_keys map) hbelow key).trans ?_
  rw [Std.ExtTreeMap.mem_keys, Int.lt_add_one_iff]

theorem mem_dropWhile_keys {bound key : Int} :
    key ∈ map.keys.dropWhile (· < bound) ↔ bound ≤ key ∧ key ∈ map := by
  refine (mem_dropWhile_of_pairwise (pairwise_keys map) (fun _ => decide_eq_true_iff) key).trans ?_
  rw [Std.ExtTreeMap.mem_keys]

theorem getElem?_foldl_erase (keys : List Int) (key : Int) :
    (keys.foldl (fun map key => map.erase key) map)[key]? =
      if key ∈ keys then none else map[key]? := by
  induction keys generalizing map with
  | nil => simp
  | cons first keys ih =>
      rw [List.foldl_cons, ih, Std.ExtTreeMap.getElem?_erase]
      by_cases hmem : key ∈ keys
      · simp [hmem]
      · by_cases hfirst : first = key
        · simp [hfirst]
        · simp [hmem, Ne.symm hfirst, hfirst]

variable {map} {key fallback : Int}

theorem headD_keys_le (h : key ∈ map) : map.keys.headD fallback ≤ key :=
  headD_le_of_pairwise (pairwise_keys map) (Std.ExtTreeMap.mem_keys.mpr h)

theorem le_getLastD_keys (h : key ∈ map) : key ≤ map.keys.getLastD fallback :=
  le_getLastD_of_pairwise (pairwise_keys map) (Std.ExtTreeMap.mem_keys.mpr h)

theorem headD_keys_mem (h : map.keys ≠ []) : map.keys.headD fallback ∈ map := by
  rw [← Std.ExtTreeMap.mem_keys, List.headD_eq_head?_getD, List.head?_eq_some_head h]
  exact List.head_mem h

theorem getLastD_keys_mem (h : map.keys ≠ []) : map.keys.getLastD fallback ∈ map := by
  rw [← Std.ExtTreeMap.mem_keys, List.getLastD_eq_getLast?, List.getLast?_eq_some_getLast h]
  exact List.getLast_mem h

/-- The key before `key`: where `--` moves an iterator. -/
def previous? (map : Std.ExtTreeMap Int β) (key : Int) : Option Int :=
  (map.keys.takeWhile (· < key)).getLast?

theorem of_previous?_eq_some {previous : Int} (h : previous? map key = some previous) :
    previous ∈ map ∧ previous < key ∧ ∀ other ∈ map, other < key → other ≤ previous := by
  have hin := List.mem_of_getLast? h
  obtain ⟨hlt, hmem⟩ := (mem_takeWhile_keys map).mp hin
  refine ⟨hmem, hlt, fun other hother hbelow => ?_⟩
  have hsorted := (pairwise_keys map).sublist (List.takeWhile_sublist (· < key))
  have hle : other ≤ (map.keys.takeWhile (· < key)).getLastD previous :=
    le_getLastD_of_pairwise hsorted ((mem_takeWhile_keys map).mpr ⟨hbelow, hother⟩)
  rwa [List.getLastD_eq_getLast?, ← previous?, h, Option.getD_some] at hle

theorem of_previous?_eq_none (h : previous? map key = none) : ∀ other ∈ map, key ≤ other := by
  intro other hother
  by_contra hlt
  have hin := (mem_takeWhile_keys map).mpr ⟨not_le.mp hlt, hother⟩
  rw [List.getLast?_eq_none_iff.mp h] at hin
  cases hin

theorem getElem?_erase_ite (map : Std.ExtTreeMap Int β) (key other : Int) :
    (map.erase key)[other]? = if other = key then none else map[other]? := by
  simp only [Std.ExtTreeMap.getElem?_erase, compare_eq_iff_eq, eq_comm (a := other)]

theorem getElem?_erase_first (h : map.minKey? = some key) (other : Int) :
    (map.erase key)[other]? = if other ≤ key then none else map[other]? := by
  obtain ⟨-, hleast⟩ := Std.ExtTreeMap.minKey?_eq_some_iff_mem_and_forall.mp h
  rw [getElem?_erase_ite]
  by_cases hother : other ≤ key
  · rw [if_pos hother]
    split
    · rfl
    · apply Std.ExtTreeMap.getElem?_eq_none
      intro hmem
      have hle := Int.isLE_compare.mp (hleast other hmem)
      omega
  · rw [if_neg hother, if_neg]
    omega

theorem getElem?_erase_previous {previous : Int} (h : previous? map key = some previous)
    (other : Int) : (if other ≤ previous then none else (map.erase key)[other]?) =
      if other ≤ key then none else map[other]? := by
  obtain ⟨-, hlt, hbetween⟩ := of_previous?_eq_some h
  rw [getElem?_erase_ite]
  by_cases hother : other ≤ key
  · rw [if_pos hother]
    split
    · rfl
    · split
      · rfl
      · apply Std.ExtTreeMap.getElem?_eq_none
        intro hmem
        have hle := hbetween other hmem (by omega)
        omega
  · rw [if_neg hother, if_neg, if_neg]
    · omega
    · omega

end Maps

end IceTunnel.SortedKeys
