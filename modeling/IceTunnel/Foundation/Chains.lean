import Mathlib.Data.List.Nodup
import Mathlib.Data.Set.Basic
import Mathlib.Logic.Function.Basic

/-!
Lists linked through their nodes: a node has a pointer to the next node and the address
of the pointer that leads to it, so that it can leave its list without knowing the list.
-/

namespace IceTunnel.Chains

/-- A place for a pointer to a node: the start of a list, or in a node. -/
inductive Place (ρ ν : Type*)
  | root (r : ρ)
  | next (n : ν)
  deriving DecidableEq

structure Memory (ρ ν : Type*) where
  load : Place ρ ν → Option ν
  previousNext : ν → Option (Place ρ ν)

variable {ρ ν : Type*}

theorem root_ne_next (r : ρ) (n : ν) : (.root r : Place ρ ν) ≠ .next n := nofun

/-- The place where the list `ns` that starts at `p` ends. -/
def endOf : Place ρ ν → List ν → Place ρ ν
  | p, [] => p
  | _, n :: ns => endOf (.next n) ns

@[simp] theorem endOf_nil (p : Place ρ ν) : endOf p [] = p := rfl

@[simp] theorem endOf_cons (p : Place ρ ν) (n : ν) (ns : List ν) :
    endOf p (n :: ns) = endOf (.next n) ns := rfl

theorem endOf_append (p : Place ρ ν) (xs ys : List ν) :
    endOf p (xs ++ ys) = endOf (endOf p xs) ys := by
  induction xs generalizing p with
  | nil => rfl
  | cons x xs ih => exact ih (.next x)

theorem endOf_of_getLast? (p : Place ρ ν) {ns : List ν} {n : ν} (h : ns.getLast? = some n) :
    endOf p ns = .next n := by
  obtain ⟨xs, rfl⟩ := List.getLast?_eq_some_iff.mp h
  rw [endOf_append, endOf_cons, endOf_nil]

theorem endOf_cases (p : Place ρ ν) (ns : List ν) :
    endOf p ns = p ∨ ∃ n ∈ ns, endOf p ns = .next n := by
  induction ns generalizing p with
  | nil => exact .inl rfl
  | cons n ns ih =>
      rcases ih (.next n) with heq | ⟨k, hk, heq⟩
      · exact .inr ⟨n, List.mem_cons_self, heq⟩
      · exact .inr ⟨k, List.mem_cons_of_mem _ hk, heq⟩

/-- The places of a list that hold a pointer to one of its nodes. -/
def places : Place ρ ν → List ν → List (Place ρ ν)
  | _, [] => []
  | p, n :: ns => p :: places (.next n) ns

theorem mem_places {p q : Place ρ ν} {ns : List ν} (h : q ∈ places p ns) :
    q = p ∨ ∃ n ∈ ns, q = .next n := by
  induction ns generalizing p with
  | nil => cases h
  | cons n ns ih =>
      rcases List.mem_cons.mp h with rfl | htail
      · exact .inl rfl
      · rcases ih htail with rfl | ⟨k, hk, rfl⟩
        · exact .inr ⟨n, List.mem_cons_self, rfl⟩
        · exact .inr ⟨k, List.mem_cons_of_mem _ hk, rfl⟩

theorem endOf_not_mem_places {p : Place ρ ν} {ns : List ν} (hnodup : ns.Nodup)
    (hp : ∀ n ∈ ns, p ≠ .next n) : endOf p ns ∉ places p ns := by
  induction ns generalizing p with
  | nil => exact List.not_mem_nil
  | cons n ns ih =>
      obtain ⟨hn, hns⟩ := List.nodup_cons.mp hnodup
      have hstart : ∀ k ∈ ns, (.next n : Place ρ ν) ≠ .next k := by
        rintro k hk heq
        exact hn (Place.next.inj heq ▸ hk)
      rw [endOf_cons, places, List.mem_cons, not_or]
      refine ⟨?_, ih hns hstart⟩
      rcases endOf_cases (.next n : Place ρ ν) ns with heq | ⟨k, hk, heq⟩
      · rw [heq]
        exact (hp n List.mem_cons_self).symm
      · rw [heq]
        exact (hp k (List.mem_cons_of_mem _ hk)).symm

namespace Memory

/-- Nodes in a row from a place on. -/
def Segment (m : Memory ρ ν) : Place ρ ν → List ν → Prop
  | _, [] => True
  | p, n :: ns => m.load p = some n ∧ m.previousNext n = some p ∧ m.Segment (.next n) ns

/-- The list that starts at a place. -/
def Chain (m : Memory ρ ν) (p : Place ρ ν) (ns : List ν) : Prop :=
  m.Segment p ns ∧ m.load (endOf p ns) = none

variable {m m' : Memory ρ ν}

theorem segment_append {p : Place ρ ν} {xs ys : List ν} :
    m.Segment p (xs ++ ys) ↔ m.Segment p xs ∧ m.Segment (endOf p xs) ys := by
  induction xs generalizing p with
  | nil => simp only [List.nil_append, Segment, true_and, endOf_nil]
  | cons x xs ih => simp only [List.cons_append, Segment, ih, endOf_cons, and_assoc]

theorem Segment.congr {p : Place ρ ν} {ns : List ν} (h : m.Segment p ns)
    (hload : ∀ q ∈ places p ns, m'.load q = m.load q)
    (hprevious : ∀ n ∈ ns, m'.previousNext n = m.previousNext n) : m'.Segment p ns := by
  induction ns generalizing p with
  | nil => trivial
  | cons n ns ih =>
      obtain ⟨hp, hn, hns⟩ := h
      refine ⟨?_, ?_, ih hns ?_ ?_⟩
      · rw [hload p List.mem_cons_self, hp]
      · rw [hprevious n List.mem_cons_self, hn]
      · exact fun q hq => hload q (List.mem_cons_of_mem _ hq)
      · exact fun k hk => hprevious k (List.mem_cons_of_mem _ hk)

theorem Chain.congr {p : Place ρ ν} {ns : List ν} (h : m.Chain p ns)
    (hp : m'.load p = m.load p)
    (hns : ∀ n ∈ ns, m'.load (.next n) = m.load (.next n) ∧ m'.previousNext n = m.previousNext n) :
    m'.Chain p ns := by
  refine ⟨h.1.congr (fun q hq => ?_) fun n hn => (hns n hn).2, ?_⟩
  · rcases mem_places hq with rfl | ⟨n, hn, rfl⟩
    · exact hp
    · exact (hns n hn).1
  · rcases endOf_cases p ns with heq | ⟨n, hn, heq⟩
    · rw [heq, hp, ← heq]
      exact h.2
    · rw [heq, (hns n hn).1, ← heq]
      exact h.2

theorem Chain.head {p : Place ρ ν} {ns : List ν} (h : m.Chain p ns) : m.load p = ns.head? := by
  cases ns with
  | nil => exact h.2
  | cons n ns => exact h.1.1

theorem Chain.tail {p : Place ρ ν} {n : ν} {ns : List ν} (h : m.Chain p (n :: ns)) :
    m.Chain (.next n) ns :=
  ⟨h.1.2.2, h.2⟩

theorem Chain.move {p q : Place ρ ν} {ns : List ν} (h : m.Chain q ns)
    (hp : m'.load p = m.load q)
    (hload : ∀ n ∈ ns, m'.load (.next n) = m.load (.next n))
    (hhead : ∀ n, ns.head? = some n → m'.previousNext n = some p)
    (htail : ∀ n ∈ ns.tail, m'.previousNext n = m.previousNext n) : m'.Chain p ns := by
  cases ns with
  | nil => exact ⟨trivial, hp.trans h.2⟩
  | cons n ns =>
      have hrest : m'.Chain (.next n) ns :=
        h.tail.congr (hload n List.mem_cons_self) fun k hk =>
          ⟨hload k (List.mem_cons_of_mem _ hk), htail k hk⟩
      exact ⟨⟨hp.trans h.1.1, hhead n rfl, hrest.1⟩, hrest.2⟩

theorem chain_append {p : Place ρ ν} {xs ys : List ν} :
    m.Chain p (xs ++ ys) ↔ m.Segment p xs ∧ m.Chain (endOf p xs) ys := by
  simp only [Chain, segment_append, endOf_append, and_assoc]

section Operations

variable [DecidableEq ρ] [DecidableEq ν]

/-- `*p = n`. -/
def store (m : Memory ρ ν) (p : Place ρ ν) (n : Option ν) : Memory ρ ν :=
  { m with load := Function.update m.load p n }

/-- `if (n) n->previousNext = p`. -/
def setPrevious (m : Memory ρ ν) (n : Option ν) (p : Option (Place ρ ν)) : Memory ρ ν :=
  match n with
  | none => m
  | some n => { m with previousNext := Function.update m.previousNext n p }

/-- The node leaves its list. -/
def unlink (m : Memory ρ ν) (n : ν) : Memory ρ ν :=
  match m.previousNext n with
  | none => m
  | some p =>
      let next := m.load (.next n)
      (((m.store p next).setPrevious next (some p)).setPrevious (some n) none).store (.next n) none

/-- The node enters a list at a place. -/
def link (m : Memory ρ ν) (n : ν) (p : Place ρ ν) : Memory ρ ν :=
  let m := if (m.previousNext n).isSome then m.unlink n else m
  let next := m.load p
  (((m.setPrevious (some n) (some p)).store (.next n) next).setPrevious next (some (.next n))).store
    p (some n)

/-- The list that starts at `q` moves to the place `p`.  `q` still points to it. -/
def splice (m : Memory ρ ν) (p q : Place ρ ν) : Memory ρ ν :=
  (m.store p (m.load q)).setPrevious (m.load q) (some p)

@[simp] theorem store_load (m : Memory ρ ν) (p q : Place ρ ν) (n : Option ν) :
    (m.store p n).load q = if q = p then n else m.load q :=
  Function.update_apply ..

@[simp] theorem store_previousNext (m : Memory ρ ν) (p : Place ρ ν) (n : Option ν) :
    (m.store p n).previousNext = m.previousNext := rfl

omit [DecidableEq ρ] in
@[simp] theorem setPrevious_load (m : Memory ρ ν) (n : Option ν) (p : Option (Place ρ ν)) :
    (m.setPrevious n p).load = m.load := by
  cases n <;> rfl

omit [DecidableEq ρ] in
@[simp] theorem setPrevious_previousNext (m : Memory ρ ν) (n : Option ν) (p : Option (Place ρ ν))
    (k : ν) : (m.setPrevious n p).previousNext k = if some k = n then p else m.previousNext k := by
  cases n with
  | none => rfl
  | some n => simp only [setPrevious, Function.update_apply, Option.some.injEq]

theorem unlink_of_none {n : ν} (h : m.previousNext n = none) : m.unlink n = m := by
  simp only [unlink, h]

theorem unlink_load {n : ν} {p : Place ρ ν} (h : m.previousNext n = some p) (q : Place ρ ν) :
    (m.unlink n).load q =
      if q = .next n then none else if q = p then m.load (.next n) else m.load q := by
  simp only [unlink, h, store_load, setPrevious_load]

theorem unlink_previousNext {n : ν} {p : Place ρ ν} (h : m.previousNext n = some p) (k : ν) :
    (m.unlink n).previousNext k =
      if k = n then none else if some k = m.load (.next n) then some p else m.previousNext k := by
  simp only [unlink, h, store_previousNext, setPrevious_previousNext, Option.some.injEq]

theorem link_of_none {n : ν} (h : m.previousNext n = none) (p : Place ρ ν) :
    m.link n p = (((m.setPrevious (some n) (some p)).store (.next n) (m.load p)).setPrevious (m.load p)
      (some (.next n))).store p (some n) := by
  simp only [link, h, Option.isSome_none, Bool.false_eq_true, if_false]

theorem link_eq (n : ν) (p : Place ρ ν) : m.link n p = (m.unlink n).link n p := by
  cases h : m.previousNext n with
  | none => rw [unlink_of_none h]
  | some q =>
      have hfree : (m.unlink n).previousNext n = none := by
        rw [unlink_previousNext h, if_pos rfl]
      rw [link_of_none hfree]
      simp only [link, h, Option.isSome_some, if_true]

end Operations

/-- The memory holds the lists that start at the roots in `S`, and nothing else is linked. -/
structure Represents (m : Memory ρ ν) (S : Set ρ) (L : ρ → List ν) : Prop where
  chain : ∀ r ∈ S, m.Chain (.root r) (L r)
  empty : ∀ r, r ∉ S → L r = []
  nodup : ∀ r, (L r).Nodup
  disjoint : ∀ r r' n, n ∈ L r → n ∈ L r' → r = r'
  free : ∀ n, (∀ r, n ∉ L r) → m.previousNext n = none ∧ m.load (.next n) = none

section Represents

variable {S : Set ρ} {L : ρ → List ν}

theorem Represents.mem_root (h : m.Represents S L) {r : ρ} {n : ν} (hn : n ∈ L r) : r ∈ S := by
  by_contra hr
  rw [h.empty r hr] at hn
  cases hn

theorem Represents.not_mem (h : m.Represents S L) {r r' : ρ} (hr : r' ≠ r) {n : ν} (hn : n ∈ L r) :
    n ∉ L r' :=
  fun hn' => hr (h.disjoint _ _ n hn' hn)

theorem Represents.split (h : m.Represents S L) {r : ρ} {n : ν} (hn : n ∈ L r) :
    ∃ xs ys, L r = xs ++ n :: ys ∧ m.Segment (.root r) xs ∧
      m.previousNext n = some (endOf (.root r) xs) ∧ m.Chain (.next n) ys := by
  obtain ⟨xs, ys, heq⟩ := List.append_of_mem hn
  have hchain := h.chain r (h.mem_root hn)
  rw [heq, chain_append] at hchain
  exact ⟨xs, ys, heq, hchain.1, hchain.2.1.2.1, hchain.2.tail⟩

theorem Represents.previousNext_eq_none (h : m.Represents S L) {n : ν} :
    m.previousNext n = none ↔ ∀ r, n ∉ L r := by
  constructor
  · intro hnone r hn
    obtain ⟨xs, ys, -, -, hsome, -⟩ := h.split hn
    rw [hnone] at hsome
    cases hsome
  · exact fun hn => (h.free n hn).1

/-- Every pointer to a node has its way back. -/
structure Doubly (m : Memory ρ ν) : Prop where
  previous : ∀ n p, m.previousNext n = some p → m.load p = some n
  next : ∀ n k, m.load (.next n) = some k → m.previousNext k = some (.next n)

theorem Represents.doubly (h : m.Represents S L) : m.Doubly := by
  constructor
  · intro n p hp
    by_cases hfree : ∀ r, n ∉ L r
    · rw [(h.free n hfree).1] at hp
      cases hp
    · push Not at hfree
      obtain ⟨r, hn⟩ := hfree
      obtain ⟨xs, ys, heq, -, hprevious, -⟩ := h.split hn
      have hchain := h.chain r (h.mem_root hn)
      rw [heq, chain_append] at hchain
      rw [hprevious] at hp
      exact Option.some.inj hp ▸ hchain.2.head
  · intro n k hk
    by_cases hfree : ∀ r, n ∉ L r
    · rw [(h.free n hfree).2] at hk
      cases hk
    · push Not at hfree
      obtain ⟨r, hn⟩ := hfree
      obtain ⟨xs, ys, -, -, -, hys⟩ := h.split hn
      rw [hys.head] at hk
      obtain ⟨zs, rfl⟩ := List.head?_eq_some_iff.mp hk
      exact hys.1.2.1

theorem next_ne_endOf {r : ρ} {xs : List ν} {n : ν} (hn : n ∉ xs) :
    (.next n : Place ρ ν) ≠ endOf (.root r) xs := by
  rcases endOf_cases (.root r : Place ρ ν) xs with heq | ⟨k, hk, heq⟩
  · rw [heq]
    exact (root_ne_next r n).symm
  · rw [heq]
    rintro hnext
    exact hn (Place.next.inj hnext ▸ hk)

theorem root_ne_endOf {r r' : ρ} (hr : r' ≠ r) (xs : List ν) :
    (.root r' : Place ρ ν) ≠ endOf (.root r) xs := by
  rcases endOf_cases (.root r : Place ρ ν) xs with heq | ⟨k, hk, heq⟩
  · rw [heq]
    rintro hroot
    exact hr (Place.root.inj hroot)
  · rw [heq]
    exact root_ne_next r' k

theorem ne_endOf_of_mem_places {r : ρ} {xs : List ν} (hxs : xs.Nodup) {q : Place ρ ν}
    (hq : q ∈ places (.root r) xs) : q ≠ endOf (.root r) xs := by
  rintro rfl
  exact endOf_not_mem_places hxs (fun n _ => root_ne_next r n) hq

/-- The places of a list lead away from nodes that are not in it. -/
theorem next_ne_of_mem_places {r : ρ} {xs : List ν} {n : ν} (hn : n ∉ xs) {q : Place ρ ν}
    (hq : q ∈ places (.root r) xs) : q ≠ .next n := by
  rcases mem_places hq with rfl | ⟨k, hk, rfl⟩
  · exact root_ne_next r n
  · rintro hkn
    exact hn (Place.next.inj hkn ▸ hk)

theorem ne_head?_of_not_mem {ys : List ν} {k : ν} (hk : k ∉ ys) : some k ≠ ys.head? :=
  fun hfirst => hk (List.mem_of_mem_head? hfirst.symm)

theorem ne_head?_of_mem_tail {ys : List ν} (hys : ys.Nodup) {k : ν} (hk : k ∈ ys.tail) :
    some k ≠ ys.head? := by
  cases ys with
  | nil => cases hk
  | cons y ys =>
      rintro hfirst
      obtain rfl := Option.some.inj hfirst
      exact (List.nodup_cons.mp hys).1 hk

theorem represents_empty (S : Set ρ) :
    (⟨fun _ => none, fun _ => none⟩ : Memory ρ ν).Represents S fun _ => [] := by
  constructor
  · exact fun _ _ => ⟨trivial, rfl⟩
  · exact fun _ _ => rfl
  · exact fun _ => List.nodup_nil
  · intro _ _ _ hn
    cases hn
  · exact fun _ _ => ⟨rfl, rfl⟩

theorem Represents.restrict (h : m.Represents S L) {T : Set ρ} (hT : T ⊆ S)
    (hempty : ∀ r, r ∉ T → L r = []) : m.Represents T L :=
  ⟨fun r hr => h.chain r (hT hr), hempty, h.nodup, h.disjoint, h.free⟩

theorem Represents.clear (h : m.Represents S L) {T : Set ρ} (hempty : ∀ r ∈ T, L r = [])
    (hroot : ∀ r ∈ T, m'.load (.root r) = none)
    (hkept : ∀ r, r ∉ T → m'.load (.root r) = m.load (.root r))
    (hnext : ∀ n, m'.load (.next n) = m.load (.next n))
    (hprevious : m'.previousNext = m.previousNext) : m'.Represents (S ∪ T) L := by
  constructor
  · intro r hr
    by_cases hrT : r ∈ T
    · rw [hempty r hrT]
      exact ⟨trivial, hroot r hrT⟩
    · have hrS : r ∈ S := hr.resolve_right hrT
      exact (h.chain r hrS).congr (hkept r hrT) fun n _ => ⟨hnext n, congrFun hprevious n⟩
  · intro r hr
    exact h.empty r fun hrS => hr (.inl hrS)
  · exact h.nodup
  · exact h.disjoint
  · intro n hn
    rw [hnext, hprevious]
    exact h.free n hn

/-- One list is written anew.  The lists of the roots that are given up go into it, and
what belongs to the other lists stays. -/
theorem Represents.rewrite (h : m.Represents S L) {T : Set ρ} (hT : T ⊆ S) {L' : ρ → List ν} {r : ρ}
    (hchain : m'.Chain (.root r) (L' r)) (hnodup : (L' r).Nodup)
    (hother : ∀ r₁ ∈ T, r₁ ≠ r → L' r₁ = L r₁) (hempty : ∀ r₁, r₁ ∉ T → L' r₁ = [])
    (hnew : ∀ k ∈ L' r, ∀ r₁ ∈ T, r₁ ≠ r → k ∉ L r₁)
    (hmoved : ∀ r₁, r₁ ∉ T → ∀ k ∈ L r₁, k ∈ L' r)
    (hgone : ∀ k ∈ L r, k ∉ L' r → m'.previousNext k = none ∧ m'.load (.next k) = none)
    (hroot : ∀ r₁ ∈ T, r₁ ≠ r → m'.load (.root r₁) = m.load (.root r₁))
    (hkept : ∀ k, k ∉ L r → k ∉ L' r →
      m'.load (.next k) = m.load (.next k) ∧ m'.previousNext k = m.previousNext k) :
    m'.Represents T L' := by
  have hmem : ∀ r₁ k, k ∈ L' r₁ → r₁ = r ∨ (r₁ ∈ T ∧ r₁ ≠ r ∧ k ∈ L r₁) := by
    intro r₁ k hk
    by_cases hr₁ : r₁ ∈ T
    · by_cases hrr : r₁ = r
      · exact .inl hrr
      · exact .inr ⟨hr₁, hrr, hother r₁ hr₁ hrr ▸ hk⟩
    · rw [hempty r₁ hr₁] at hk
      cases hk
  constructor
  · intro r₁ hr₁
    by_cases hrr : r₁ = r
    · rw [hrr]
      exact hchain
    · rw [hother r₁ hr₁ hrr]
      refine (h.chain r₁ (hT hr₁)).congr (hroot r₁ hr₁ hrr) fun k hk => ?_
      exact hkept k (h.not_mem (Ne.symm hrr) hk) fun hk' => hnew k hk' r₁ hr₁ hrr hk
  · exact hempty
  · intro r₁
    by_cases hr₁ : r₁ ∈ T
    · by_cases hrr : r₁ = r
      · rw [hrr]
        exact hnodup
      · rw [hother r₁ hr₁ hrr]
        exact h.nodup r₁
    · rw [hempty r₁ hr₁]
      exact List.nodup_nil
  · intro r₁ r₂ k hk₁ hk₂
    rcases hmem r₁ k hk₁ with rfl | ⟨hr₁, hne₁, hL₁⟩
    · rcases hmem r₂ k hk₂ with rfl | ⟨hr₂, hne₂, hL₂⟩
      · rfl
      · exact absurd hL₂ (hnew k hk₁ r₂ hr₂ hne₂)
    · rcases hmem r₂ k hk₂ with rfl | ⟨-, -, hL₂⟩
      · exact absurd hL₁ (hnew k hk₂ r₁ hr₁ hne₁)
      · exact h.disjoint r₁ r₂ k hL₁ hL₂
  · intro k hk
    by_cases hkr : k ∈ L r
    · exact hgone k hkr (hk r)
    · have hkL : ∀ r₁, k ∉ L r₁ := by
        intro r₁ hk₁
        by_cases hr₁ : r₁ ∈ T
        · have hrr : r₁ ≠ r := by
            rintro rfl
            exact hkr hk₁
          exact hk r₁ (hother r₁ hr₁ hrr ▸ hk₁)
        · exact hk r (hmoved r₁ hr₁ k hk₁)
      obtain ⟨hload, hprevious⟩ := hkept k hkr (hk r)
      rw [hload, hprevious]
      exact h.free k hkL

variable [DecidableEq ρ] [DecidableEq ν]

theorem Chain.unlink {r : ρ} {xs ys : List ν} {n : ν} (h : m.Chain (.root r) (xs ++ n :: ys))
    (hnodup : (xs ++ n :: ys).Nodup) : (m.unlink n).Chain (.root r) (xs ++ ys) := by
  rw [chain_append] at h
  obtain ⟨hxs, hn⟩ := h
  have hprevious := hn.1.2.1
  have hys := hn.tail
  have hhead := hys.head
  rw [List.nodup_append, List.nodup_cons] at hnodup
  obtain ⟨hnodupX, ⟨hnY, hnodupY⟩, hne⟩ := hnodup
  have hnX : n ∉ xs := fun hmem => hne n hmem n List.mem_cons_self rfl
  rw [chain_append]
  constructor
  · refine hxs.congr (fun q hq => ?_) fun k hk => ?_
    · rw [unlink_load hprevious, if_neg (next_ne_of_mem_places hnX hq),
        if_neg (ne_endOf_of_mem_places hnodupX hq)]
    · have hkY : k ∉ ys := fun hmem => hne k hk k (List.mem_cons_of_mem _ hmem) rfl
      rw [unlink_previousNext hprevious, if_neg, hhead, if_neg (ne_head?_of_not_mem hkY)]
      rintro rfl
      exact hnX hk
  · apply hys.move
    · rw [unlink_load hprevious, if_neg (next_ne_endOf hnX).symm, if_pos rfl]
    · intro k hk
      have hkX : k ∉ xs := fun hmem => hne k hmem k (List.mem_cons_of_mem _ hk) rfl
      rw [unlink_load hprevious, if_neg, if_neg (next_ne_endOf hkX)]
      rintro hkn
      exact hnY (Place.next.inj hkn ▸ hk)
    · intro k hk
      rw [unlink_previousNext hprevious, if_neg, if_pos (by rw [hhead, hk])]
      rintro rfl
      exact hnY (List.mem_of_mem_head? hk)
    · intro k hk
      have hkY := List.mem_of_mem_tail hk
      rw [unlink_previousNext hprevious, if_neg, hhead, if_neg (ne_head?_of_mem_tail hnodupY hk)]
      rintro rfl
      exact hnY hkY

theorem Represents.unlink (h : m.Represents S L) (n : ν) :
    (m.unlink n).Represents S fun r => (L r).erase n := by
  by_cases hfree : ∀ r, n ∉ L r
  · have hL : (fun r => (L r).erase n) = L := funext fun r => List.erase_of_not_mem (hfree r)
    rw [unlink_of_none (h.free n hfree).1, hL]
    exact h
  · obtain ⟨r, hn⟩ : ∃ r, n ∈ L r := by
      by_contra hnone
      exact hfree fun r hr => hnone ⟨r, hr⟩
    obtain ⟨xs, ys, heq, -, hprevious, hys⟩ := h.split hn
    have hhead := hys.head
    have hnodup := h.nodup r
    have hchain := h.chain r (h.mem_root hn)
    rw [heq] at hnodup hchain
    have hnX : n ∉ xs := fun hmem =>
      (List.nodup_append.mp hnodup).2.2 n hmem n List.mem_cons_self rfl
    have herase : (L r).erase n = xs ++ ys := by
      rw [heq, List.erase_append_right _ hnX, List.erase_cons_head]
    refine h.rewrite subset_rfl (r := r) ?_ ((h.nodup r).erase n) ?_ ?_ ?_ ?_ ?_ ?_ ?_
    · rw [herase]
      exact hchain.unlink hnodup
    · exact fun r₁ _ hrr => List.erase_of_not_mem (h.not_mem hrr hn)
    · intro r₁ hr₁
      simp only [h.empty r₁ hr₁, List.erase_nil]
    · exact fun k hk r₁ _ hrr => h.not_mem hrr (List.mem_of_mem_erase hk)
    · intro r₁ hr₁ k hk
      rw [h.empty r₁ hr₁] at hk
      cases hk
    · intro k hk hkerase
      obtain rfl : k = n := by
        by_contra hkn
        exact hkerase ((List.mem_erase_of_ne hkn).mpr hk)
      rw [unlink_load hprevious, unlink_previousNext hprevious, if_pos rfl, if_pos rfl]
      exact ⟨rfl, rfl⟩
    · intro r₁ _ hrr
      rw [unlink_load hprevious, if_neg (root_ne_next r₁ n), if_neg (root_ne_endOf hrr xs)]
    · intro k hk _
      rw [heq, List.mem_append, List.mem_cons, not_or, not_or] at hk
      rw [unlink_load hprevious, unlink_previousNext hprevious, if_neg (next_ne_endOf hk.1),
        if_neg (fun hkn => hk.2.1 (Place.next.inj hkn)), if_neg hk.2.1, hhead,
        if_neg (ne_head?_of_not_mem hk.2.2)]
      exact ⟨rfl, rfl⟩

section Link

variable {r : ρ} {xs ys : List ν} {n : ν}

theorem Chain.link_load (hys : m.Chain (endOf (.root r) xs) ys) (hfree : m.previousNext n = none)
    (q : Place ρ ν) : (m.link n (endOf (.root r) xs)).load q =
      if q = endOf (.root r) xs then some n else if q = .next n then ys.head? else m.load q := by
  rw [link_of_none hfree, hys.head]
  simp only [store_load, setPrevious_load]

theorem Chain.link_previousNext (hys : m.Chain (endOf (.root r) xs) ys)
    (hfree : m.previousNext n = none) (k : ν) :
    (m.link n (endOf (.root r) xs)).previousNext k =
      if some k = ys.head? then some (.next n)
      else if k = n then some (endOf (.root r) xs) else m.previousNext k := by
  rw [link_of_none hfree, hys.head]
  simp only [store_previousNext, setPrevious_previousNext, Option.some.injEq]

theorem Chain.link (h : m.Chain (.root r) (xs ++ ys)) (hfree : m.previousNext n = none)
    (hnodup : (xs ++ n :: ys).Nodup) :
    (m.link n (endOf (.root r) xs)).Chain (.root r) (xs ++ n :: ys) := by
  rw [chain_append] at h
  obtain ⟨hxs, hys⟩ := h
  rw [List.nodup_append, List.nodup_cons] at hnodup
  obtain ⟨hnodupX, ⟨hnY, hnodupY⟩, hne⟩ := hnodup
  have hnX : n ∉ xs := fun hmem => hne n hmem n List.mem_cons_self rfl
  have hmoved : (m.link n (endOf (.root r) xs)).Chain (.next n) ys := by
    apply hys.move
    · rw [hys.link_load hfree, if_neg (next_ne_endOf hnX), if_pos rfl, hys.head]
    · intro k hk
      have hkX : k ∉ xs := fun hmem => hne k hmem k (List.mem_cons_of_mem _ hk) rfl
      rw [hys.link_load hfree, if_neg (next_ne_endOf hkX), if_neg]
      rintro hkn
      exact hnY (Place.next.inj hkn ▸ hk)
    · intro k hk
      rw [hys.link_previousNext hfree, if_pos hk.symm]
    · intro k hk
      rw [hys.link_previousNext hfree, if_neg (ne_head?_of_mem_tail hnodupY hk), if_neg]
      rintro rfl
      exact hnY (List.mem_of_mem_tail hk)
  rw [chain_append]
  refine ⟨hxs.congr (fun q hq => ?_) fun k hk => ?_, ⟨?_, ?_, hmoved.1⟩, hmoved.2⟩
  · rw [hys.link_load hfree, if_neg (ne_endOf_of_mem_places hnodupX hq),
      if_neg (next_ne_of_mem_places hnX hq)]
  · have hkY : k ∉ ys := fun hmem => hne k hk k (List.mem_cons_of_mem _ hmem) rfl
    rw [hys.link_previousNext hfree, if_neg (ne_head?_of_not_mem hkY), if_neg]
    rintro rfl
    exact hnX hk
  · rw [hys.link_load hfree, if_pos rfl]
  · rw [hys.link_previousNext hfree, if_neg (ne_head?_of_not_mem hnY), if_pos rfl]

theorem Represents.link (h : m.Represents S L) (hn : ∀ r, n ∉ L r) (hr : r ∈ S)
    (heq : L r = xs ++ ys) :
    (m.link n (endOf (.root r) xs)).Represents S (Function.update L r (xs ++ n :: ys)) := by
  have hfree := (h.free n hn).1
  have hchain := h.chain r hr
  have hnodup := List.nodup_middle.mpr (List.nodup_cons.mpr ⟨heq ▸ hn r, heq ▸ h.nodup r⟩)
  rw [heq] at hchain
  have hys := (chain_append.mp hchain).2
  have hself : Function.update L r (xs ++ n :: ys) r = xs ++ n :: ys := Function.update_self _ _ _
  have hmem : ∀ k, k ∈ xs ++ n :: ys ↔ k = n ∨ k ∈ L r := by
    intro k
    rw [heq, List.mem_append, List.mem_cons, List.mem_append]
    tauto
  refine h.rewrite subset_rfl (r := r) ?_ ?_ ?_ ?_ ?_ ?_ ?_ ?_ ?_
  · rw [hself]
    exact hchain.link hfree hnodup
  · rw [hself]
    exact hnodup
  · exact fun r₁ _ hrr => Function.update_of_ne hrr _ _
  · intro r₁ hr₁
    have hrr : r₁ ≠ r := by
      rintro rfl
      exact hr₁ hr
    rw [Function.update_of_ne hrr]
    exact h.empty r₁ hr₁
  · intro k hk r₁ _ hrr
    rw [hself, hmem] at hk
    rcases hk with rfl | hk
    · exact hn r₁
    · exact h.not_mem hrr hk
  · intro r₁ hr₁ k hk
    rw [h.empty r₁ hr₁] at hk
    cases hk
  · intro k hk hk'
    rw [hself, hmem] at hk'
    exact absurd (.inr hk) hk'
  · intro r₁ _ hrr
    rw [hys.link_load hfree, if_neg (root_ne_endOf hrr xs), if_neg (root_ne_next r₁ n)]
  · intro k hk hk'
    rw [hself, hmem, not_or] at hk'
    rw [heq, List.mem_append, not_or] at hk
    rw [hys.link_load hfree, hys.link_previousNext hfree, if_neg (next_ne_endOf hk.1),
      if_neg (fun hkn => hk'.1 (Place.next.inj hkn)), if_neg (ne_head?_of_not_mem hk.2),
      if_neg hk'.1]
    exact ⟨rfl, rfl⟩

end Link

section Splice

variable {r r' : ρ} {xs ys : List ν}

theorem Chain.splice_load (hys : m.Chain (.root r') ys) (p q : Place ρ ν) :
    (m.splice p (.root r')).load q = if q = p then ys.head? else m.load q := by
  simp only [Memory.splice, setPrevious_load, store_load, hys.head]

theorem Chain.splice_previousNext (hys : m.Chain (.root r') ys) (p : Place ρ ν) (k : ν) :
    (m.splice p (.root r')).previousNext k =
      if some k = ys.head? then some p else m.previousNext k := by
  simp only [Memory.splice, setPrevious_previousNext, store_previousNext, hys.head]

theorem Chain.splice (hxs : m.Chain (.root r) xs) (hys : m.Chain (.root r') ys)
    (hnodup : (xs ++ ys).Nodup) :
    (m.splice (endOf (.root r) xs) (.root r')).Chain (.root r) (xs ++ ys) := by
  rw [List.nodup_append] at hnodup
  obtain ⟨hnodupX, hnodupY, hne⟩ := hnodup
  rw [chain_append]
  constructor
  · refine hxs.1.congr (fun q hq => ?_) fun k hk => ?_
    · rw [hys.splice_load, if_neg (ne_endOf_of_mem_places hnodupX hq)]
    · rw [hys.splice_previousNext, if_neg (ne_head?_of_not_mem fun hmem => hne k hk k hmem rfl)]
  · apply hys.move
    · rw [hys.splice_load, if_pos rfl, hys.head]
    · intro k hk
      rw [hys.splice_load, if_neg (next_ne_endOf fun hmem => hne k hmem k hk rfl)]
    · intro k hk
      rw [hys.splice_previousNext, if_pos hk.symm]
    · intro k hk
      rw [hys.splice_previousNext, if_neg (ne_head?_of_mem_tail hnodupY hk)]

theorem Represents.splice (h : m.Represents S L) (hrr : r ≠ r') (hr : r ∈ S) (hr' : r' ∈ S) :
    (m.splice (endOf (.root r) (L r)) (.root r')).Represents (S \ {r'})
      (Function.update (Function.update L r (L r ++ L r')) r' []) := by
  have hxs := h.chain r hr
  have hys := h.chain r' hr'
  have hnodup : (L r ++ L r').Nodup :=
    List.nodup_append.mpr ⟨h.nodup r, h.nodup r', fun a ha b hb hab =>
      h.not_mem hrr.symm ha (hab ▸ hb)⟩
  have hself : Function.update (Function.update L r (L r ++ L r')) r' [] r = L r ++ L r' := by
    rw [Function.update_of_ne hrr, Function.update_self]
  refine h.rewrite (fun _ hr₁ => hr₁.1) (r := r) ?_ ?_ ?_ ?_ ?_ ?_ ?_ ?_ ?_
  · rw [hself]
    exact hxs.splice hys hnodup
  · rw [hself]
    exact hnodup
  · rintro r₁ ⟨-, hne⟩ hr₁
    rw [Function.update_of_ne hne, Function.update_of_ne hr₁]
  · intro r₁ hr₁
    by_cases hrr₁ : r₁ = r'
    · rw [hrr₁, Function.update_self]
    · have hS : r₁ ∉ S := fun hS => hr₁ ⟨hS, hrr₁⟩
      have hne : r₁ ≠ r := by
        rintro rfl
        exact hS hr
      rw [Function.update_of_ne hrr₁, Function.update_of_ne hne]
      exact h.empty r₁ hS
  · rintro k hk r₁ ⟨-, hne⟩ hr₁
    rw [hself, List.mem_append] at hk
    rcases hk with hk | hk
    · exact h.not_mem hr₁ hk
    · exact h.not_mem hne hk
  · intro r₁ hr₁ k hk
    have hrr₁ : r₁ = r' := by
      by_contra hne
      exact hr₁ ⟨h.mem_root hk, hne⟩
    rw [hself, List.mem_append]
    exact .inr (hrr₁ ▸ hk)
  · intro k hk hk'
    rw [hself, List.mem_append] at hk'
    exact absurd (.inl hk) hk'
  · rintro r₁ - hr₁
    rw [hys.splice_load, if_neg (root_ne_endOf hr₁ _)]
  · intro k hk hk'
    rw [hself, List.mem_append, not_or] at hk'
    rw [hys.splice_load, hys.splice_previousNext, if_neg (next_ne_endOf hk),
      if_neg (ne_head?_of_not_mem hk'.2)]
    exact ⟨rfl, rfl⟩

end Splice

end Represents

end Memory

end IceTunnel.Chains
