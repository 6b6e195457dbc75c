import Mathlib.Data.List.Sort

namespace IceTunnel.StableSorting

variable {α : Type*} (key : α → Nat)

/-- The order of the keys. -/
def byKey (a b : α) : Bool :=
  decide (key a ≤ key b)

variable {key} {xs : List α}

theorem byKey_trans (a b c : α) (hab : byKey key a b = true) (hbc : byKey key b c = true) :
    byKey key a c = true :=
  decide_eq_true ((of_decide_eq_true hab).trans (of_decide_eq_true hbc))

theorem byKey_total (a b : α) : (byKey key a b || byKey key b a) = true := by
  rw [Bool.or_eq_true]
  exact (le_total (key a) (key b)).imp decide_eq_true decide_eq_true

theorem pairwise_mergeSort (xs : List α) :
    (xs.mergeSort (byKey key)).Pairwise fun a b => key a ≤ key b :=
  (List.pairwise_mergeSort byKey_trans byKey_total xs).imp of_decide_eq_true

theorem filter_lt_succ (h : xs.Pairwise fun a b => key a ≤ key b) (n : Nat) :
    xs.filter (fun x => decide (key x < n + 1)) =
      xs.filter (fun x => decide (key x < n)) ++ xs.filter fun x => decide (key x = n) := by
  induction xs with
  | nil => rfl
  | cons x xs ih =>
      obtain ⟨hfirst, hrest⟩ := List.pairwise_cons.mp h
      have htail := ih hrest
      simp only [List.filter_cons, decide_eq_true_eq]
      rcases Nat.lt_trichotomy (key x) n with hlt | heq | hgt
      · rw [if_pos (Nat.lt_succ_of_lt hlt), if_pos hlt, if_neg (Nat.ne_of_lt hlt), htail]
        rfl
      · have hnone : xs.filter (fun y => decide (key y < n)) = [] := by
          rw [List.filter_eq_nil_iff]
          intro y hy hlt
          have hle := hfirst y hy
          have hlt := of_decide_eq_true hlt
          omega
        rw [hnone, List.nil_append] at htail
        rw [if_pos (by omega), if_neg (by omega), if_pos heq, hnone, htail]
        rfl
      · rw [if_neg (by omega), if_neg (by omega), if_neg (by omega), htail]

theorem flatMap_range (h : xs.Pairwise fun a b => key a ≤ key b) (n : Nat) :
    (List.range n).flatMap (fun k => xs.filter fun x => decide (key x = k)) =
      xs.filter fun x => decide (key x < n) := by
  induction n with
  | zero => simp
  | succ n ih =>
      rw [List.range_succ, List.flatMap_append, ih, List.flatMap_singleton, filter_lt_succ h]

theorem filter_mergeSort (xs : List α) (k : Nat) :
    (xs.mergeSort (byKey key)).filter (fun x => decide (key x = k)) =
      xs.filter fun x => decide (key x = k) := by
  have hsame : (xs.filter fun x => decide (key x = k)).Pairwise fun a b => byKey key a b = true := by
    apply List.pairwise_of_forall_mem_list
    intro a ha b hb
    have hka := of_decide_eq_true (List.mem_filter.mp ha).2
    have hkb := of_decide_eq_true (List.mem_filter.mp hb).2
    exact decide_eq_true (hka.trans hkb.symm).le
  have hsub := List.sublist_mergeSort byKey_trans byKey_total hsame List.filter_sublist
  have hfilter := hsub.filter fun x => decide (key x = k)
  rw [List.filter_filter] at hfilter
  simp only [Bool.and_self] at hfilter
  refine (hfilter.eq_of_length ?_).symm
  exact ((List.mergeSort_perm xs (byKey key)).filter _).length_eq.symm

/-- Going through the keys sorts. -/
theorem flatMap_filter_eq_mergeSort {n : Nat} (h : ∀ x ∈ xs, key x < n) :
    (List.range n).flatMap (fun k => xs.filter fun x => decide (key x = k)) =
      xs.mergeSort (byKey key) := by
  have hsorted : (xs.mergeSort (byKey key)).Pairwise fun a b => key a ≤ key b :=
    pairwise_mergeSort xs
  have hsort := flatMap_range hsorted n
  simp only [filter_mergeSort] at hsort
  rw [hsort, List.filter_eq_self]
  intro x hx
  exact decide_eq_true (h x ((List.mergeSort_perm xs (byKey key)).mem_iff.mp hx))

end IceTunnel.StableSorting
