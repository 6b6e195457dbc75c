import Mathlib.Data.List.Perm.Subperm
import IceTunnel.Events

namespace IceTunnel.Events

open Chains

/-- `getReady() && isEnabled()`. -/
def isActive (h : Events) (event : Nat) : Bool :=
  h.nodes[event]?.any fun node => node.ready && node.isEnabled

/-- The event belongs into the list of the manager. -/
def IsReady (h : Events) (manager event : Nat) : Prop :=
  ∃ node, h.nodes[event]? = some node ∧ node.manager = some manager ∧ node.ready = true ∧
    node.isEnabled = true

/-- The links are lists of events that exist: those of the managers have the ready and
enabled events, and those at the roots in `S`, for `LinkRaise`, are given by `L`. -/
structure Linked (h : Events) (S : Set RaiseRoot) (L : RaiseRoot → List Nat) : Prop where
  ready : ∃ R, h.linkReady.Represents Set.univ R ∧
    ∀ manager event, event ∈ R manager ↔ h.IsReady manager event
  raise : h.linkRaise.Represents S L
  active : ∀ r event, event ∈ L r → h.isActive event = true
  source : ∃ R, h.linkSource.Represents Set.univ R ∧
    ∀ source event, event ∈ R source → event ∈ h.nodes

section Operations

variable {h g : Events} {S : Set RaiseRoot} {L : RaiseRoot → List Nat} {event : Nat}

theorem isActive_of_isReady {manager : Nat} (hready : h.IsReady manager event) :
    h.isActive event = true := by
  obtain ⟨node, hnode, -, hflag, henabled⟩ := hready
  simp only [isActive, hnode, Option.any_some, hflag, henabled, Bool.and_self]

theorem mem_of_isActive (hactive : h.isActive event = true) : event ∈ h.nodes := by
  rw [Std.ExtTreeMap.mem_iff_isSome_getElem?]
  cases hnode : h.nodes[event]? with
  | none =>
      simp only [isActive, hnode, Option.any_none, Bool.false_eq_true] at hactive
  | some node => rfl

theorem isActive_congr {x : Nat} (heq : g.nodes[x]? = h.nodes[x]?) : g.isActive x = h.isActive x := by
  rw [isActive, isActive, heq]

theorem isReady_congr {manager x : Nat} (heq : g.nodes[x]? = h.nodes[x]?) :
    g.IsReady manager x ↔ h.IsReady manager x := by
  rw [IsReady, IsReady, heq]

theorem Linked.erase_eq (hl : h.Linked S L) (hsame : ∀ x, x ≠ event → g.nodes[x]? = h.nodes[x]?)
    (hidle : g.isActive event = false) (r : RaiseRoot) :
    (L r).erase event = (L r).filter g.isActive := by
  rw [(hl.raise.nodup r).erase_eq_filter]
  apply List.filter_congr
  intro x hx
  by_cases heq : x = event
  · rw [heq, hidle]
    simp
  · rw [isActive_congr (hsame x heq), hl.active r x hx]
    simp [heq]

theorem Linked.filter_eq (hl : h.Linked S L) (hkept : ∀ x, h.isActive x = true → g.isActive x = true)
    (r : RaiseRoot) : (L r).filter g.isActive = L r :=
  List.filter_eq_self.mpr fun x hx => hkept x (hl.active r x hx)

theorem Linked.drop (hl : h.Linked S L) (event : Nat) {node : Node}
    (hidle : (node.ready && node.isEnabled) = false) :
    Linked { h with
      nodes := h.nodes.insert event node
      linkReady := h.linkReady.unlink event
      linkRaise := h.linkRaise.unlink event } S fun r => (L r).erase event := by
  obtain ⟨R, hR, hmem⟩ := hl.ready
  obtain ⟨Q, hQ, hnodes⟩ := hl.source
  have hsame : ∀ x, x ≠ event → (h.nodes.insert event node)[x]? = h.nodes[x]? := by
    intro x hx
    rw [Std.ExtTreeMap.getElem?_insert, if_neg (by simpa using Ne.symm hx)]
  have hself : (h.nodes.insert event node)[event]? = some node := Std.ExtTreeMap.getElem?_insert_self
  constructor
  · refine ⟨_, hR.unlink event, fun manager x => ?_⟩
    by_cases hx : x = event
    · subst hx
      constructor
      · intro hin
        exact absurd hin (hR.nodup manager).not_mem_erase
      · rintro ⟨node', hnode', -, hflag, henabled⟩
        obtain rfl := Option.some.inj (hself.symm.trans hnode')
        rw [hflag, henabled] at hidle
        cases hidle
    · rw [List.mem_erase_of_ne hx, hmem]
      exact (isReady_congr (hsame x hx)).symm
  · exact hl.raise.unlink event
  · intro r x hx
    obtain ⟨hne, hin⟩ := (hl.raise.nodup r).mem_erase_iff.mp hx
    rw [isActive_congr (h := h) (hsame x hne)]
    exact hl.active r x hin
  · refine ⟨Q, hQ, fun source x hx => ?_⟩
    exact Std.ExtTreeMap.mem_insert.mpr (.inr (hnodes source x hx))

section Untouched

variable (h event)

@[simp] theorem updateReady_nodes : (h.updateReady event).nodes = h.nodes := by
  simp only [updateReady]
  repeat' split
  all_goals rfl

@[simp] theorem updateReady_sources : (h.updateReady event).sources = h.sources := by
  simp only [updateReady]
  repeat' split
  all_goals rfl

@[simp] theorem updateReady_linkSource : (h.updateReady event).linkSource = h.linkSource := by
  simp only [updateReady]
  repeat' split
  all_goals rfl

end Untouched

/-- An event that became active is in the list of its manager: it was there before, or it
is linked now. -/
theorem Linked.relink (hl : h.Linked S L) {old : Node} (hold : h.nodes[event]? = some old)
    (hother : ∀ manager x, x ≠ event → (g.IsReady manager x ↔ h.IsReady manager x))
    (hevent : ∀ manager, g.IsReady manager event ↔ old.manager = some manager)
    (hnone : old.manager = none → g.linkReady = h.linkReady)
    (hsome : ∀ manager, old.manager = some manager → g.linkReady =
      if (h.linkReady.previousNext event).isNone then h.linkReady.link event (.root manager)
      else h.linkReady) :
    ∃ R, g.linkReady.Represents Set.univ R ∧ ∀ manager x, x ∈ R manager ↔ g.IsReady manager x := by
  obtain ⟨R, hR, hmem⟩ := hl.ready
  have hmemOld : ∀ manager, event ∈ R manager → old.manager = some manager := by
    intro manager hmanager
    obtain ⟨node', hnode', hm, -⟩ := (hmem manager event).mp hmanager
    obtain rfl := Option.some.inj (hold.symm.trans hnode')
    exact hm
  -- The lists stay as they are where the event is in all that it belongs to.
  have hkeep : g.linkReady = h.linkReady → (∀ manager, old.manager = some manager → event ∈ R manager) →
      ∃ R, g.linkReady.Represents Set.univ R ∧ ∀ manager x, x ∈ R manager ↔ g.IsReady manager x := by
    intro hlink hlinked
    refine ⟨R, hlink ▸ hR, fun manager x => ?_⟩
    by_cases hx : x = event
    · subst hx
      rw [hevent]
      exact ⟨hmemOld manager, hlinked manager⟩
    · rw [hother manager x hx]
      exact hmem manager x
  cases hm : old.manager with
  | none =>
      apply hkeep (hnone hm)
      intro manager hmanager
      rw [hm] at hmanager
      cases hmanager
  | some manager =>
      have hlink := hsome manager hm
      cases hprevious : h.linkReady.previousNext event with
      | none =>
          rw [hprevious, Option.isNone_none, if_pos rfl] at hlink
          have hfree := hR.previousNext_eq_none.mp hprevious
          refine ⟨_, hlink ▸ hR.link hfree (Set.mem_univ manager) (List.nil_append _).symm,
            fun manager' x => ?_⟩
          by_cases hx : x = event
          · subst hx
            rw [hevent, hm]
            by_cases heq : manager' = manager
            · subst heq
              simp
            · rw [Function.update_of_ne heq]
              simp only [hfree manager', Option.some.injEq, false_iff]
              exact Ne.symm heq
          · rw [hother manager' x hx, ← hmem manager' x]
            by_cases heq : manager' = manager
            · subst heq
              simp [hx]
            · rw [Function.update_of_ne heq]
      | some place =>
          rw [hprevious, Option.isNone_some, if_neg (by decide)] at hlink
          apply hkeep hlink
          intro manager' hmanager'
          by_contra hnot
          have hfree := hR.previousNext_eq_none.mpr fun r hr => hnot (by
            have hr' := hmemOld r hr
            rw [hmanager'] at hr'
            rwa [Option.some.inj hr'])
          rw [hprevious] at hfree
          cases hfree

theorem Linked.updateReady (hl : h.Linked S L) {old node : Node}
    (hold : h.nodes[event]? = some old) (hmanager : node.manager = old.manager)
    (hg : g = Events.updateReady { h with nodes := h.nodes.insert event node } event) :
    g.Linked S fun r => (L r).filter g.isActive := by
  have hself : (h.nodes.insert event node)[event]? = some node := Std.ExtTreeMap.getElem?_insert_self
  have hnodes : g.nodes = h.nodes.insert event node := by
    rw [hg, updateReady_nodes]
  have hsame : ∀ x, x ≠ event → g.nodes[x]? = h.nodes[x]? := by
    intro x hx
    rw [hnodes, Std.ExtTreeMap.getElem?_insert, if_neg (by simpa using Ne.symm hx)]
  cases hactive : node.ready && node.isEnabled with
  | false =>
      have hidle : g.isActive event = false := by
        rw [isActive, hnodes, hself]
        exact hactive
      have heq : g = { h with
          nodes := h.nodes.insert event node
          linkReady := h.linkReady.unlink event
          linkRaise := h.linkRaise.unlink event } := by
        rw [hg, Events.updateReady, hself]
        simp only [hactive, Bool.false_eq_true, if_false]
      have hlists : (fun r => (L r).filter g.isActive) = fun r => (L r).erase event :=
        funext fun r => (hl.erase_eq hsame hidle r).symm
      rw [hlists, heq]
      exact hl.drop event hactive
  | true =>
      have hrunning : g.isActive event = true := by
        rw [isActive, hnodes, hself]
        exact hactive
      have hkept : ∀ x, h.isActive x = true → g.isActive x = true := by
        intro x hx
        by_cases heq : x = event
        · rw [heq]
          exact hrunning
        · rw [isActive_congr (hsame x heq)]
          exact hx
      have hflags := (Bool.and_eq_true _ _).mp hactive
      have hevent : ∀ manager, g.IsReady manager event ↔ old.manager = some manager := by
        intro manager
        rw [IsReady, hnodes, hself]
        constructor
        · rintro ⟨node', hnode', hm, -⟩
          obtain rfl := Option.some.inj hnode'
          rw [← hmanager, hm]
        · intro hm
          exact ⟨node, rfl, hmanager.trans hm, hflags.1, hflags.2⟩
      have hready : ∃ R, g.linkReady.Represents Set.univ R ∧
          ∀ manager x, x ∈ R manager ↔ g.IsReady manager x := by
        refine hl.relink hold (fun manager x hx => isReady_congr (hsame x hx)) hevent ?_ ?_
        · intro hm
          rw [hg, Events.updateReady, hself]
          simp only [hactive, if_true, hmanager, hm]
        · intro manager hm
          rw [hg, Events.updateReady, hself]
          simp only [hactive, if_true, hmanager, hm]
          split <;> rfl
      have hraise : g.linkRaise = h.linkRaise := by
        rw [hg, Events.updateReady, hself]
        simp only [hactive, if_true]
        repeat' split
        all_goals rfl
      obtain ⟨Q, hQ, hin⟩ := hl.source
      have hlists : (fun r => (L r).filter g.isActive) = L := funext (hl.filter_eq hkept)
      rw [hlists]
      refine ⟨hready, hraise ▸ hl.raise, fun r x hx => hkept x (hl.active r x hx), Q, ?_, ?_⟩
      · rw [hg, updateReady_linkSource]
        exact hQ
      · intro source x hx
        rw [hnodes]
        exact Std.ExtTreeMap.mem_insert.mpr (.inr (hin source x hx))

theorem Linked.trans {k : Events} (hk : k.Linked S fun r => ((L r).filter g.isActive).filter k.isActive)
    (hactive : ∀ r, ∀ x ∈ L r, k.isActive x = true → g.isActive x = true) :
    k.Linked S fun r => (L r).filter k.isActive := by
  have hlists : (fun r => ((L r).filter g.isActive).filter k.isActive) =
      fun r => (L r).filter k.isActive := by
    funext r
    rw [List.filter_filter]
    apply List.filter_congr
    intro x hx
    cases hkx : k.isActive x with
    | false => rfl
    | true => rw [hactive r x hx hkx, Bool.and_self]
  rwa [hlists] at hk

theorem Linked.self (hl : h.Linked S L) : h.Linked S fun r => (L r).filter h.isActive := by
  have hlists : (fun r => (L r).filter h.isActive) = L := funext (hl.filter_eq fun _ hx => hx)
  rwa [hlists]

theorem Linked.setReady (hl : h.Linked S L) (event : Nat) (value : Bool) :
    (h.setReady event value).Linked S fun r => (L r).filter (h.setReady event value).isActive := by
  cases hnode : h.nodes[event]? with
  | none =>
      simp only [Events.setReady, hnode]
      exact hl.self
  | some node =>
      by_cases hready : node.ready = value
      · simp only [Events.setReady, hnode, hready, ne_eq, not_true_eq_false, if_false]
        exact hl.self
      · have hmanager : ({ node with ready := value } : Node).manager = node.manager := rfl
        apply hl.updateReady hnode hmanager
        simp only [Events.setReady, hnode, ne_eq, hready, not_false_eq_true, if_true]

theorem Linked.setTime (hl : h.Linked S L) (timeUs : Int) (force : Bool) :
    (h.setTime event timeUs force).Linked S fun r =>
      (L r).filter (h.setTime event timeUs force).isActive := by
  cases hnode : h.nodes[event]? with
  | none =>
      simp only [Events.setTime, hnode]
      exact hl.self
  | some node =>
      by_cases hsame : node.timeUs = timeUs
      · simp only [Events.setTime, hnode, hsame, if_true]
        exact hl.self
      · by_cases hset : force ∨ (node.timeUs > timeUs ∧ timeUs ≥ 0) ∨ node.timeUs < 0
        · have hmanager : ({ node with timeUs := timeUs } : Node).manager = node.manager := rfl
          apply hl.updateReady hnode hmanager
          simp only [Events.setTime, hnode, hsame, hset, if_false, if_true]
        · simp only [Events.setTime, hnode, hsame, hset, if_false]
          exact hl.self

section Nodes

variable (h event)

theorem setReady_nodes (value : Bool) (x : Nat) : (h.setReady event value).nodes[x]? =
    (h.nodes[x]?).map fun node => if x = event then { node with ready := value } else node := by
  simp only [Events.setReady]
  split
  · rename_i hnone
    by_cases hx : x = event
    · rw [hx, hnone]
      rfl
    · simp [hx]
  · rename_i node hnode
    split
    · rw [updateReady_nodes, Std.ExtTreeMap.getElem?_insert]
      by_cases hx : x = event
      · subst hx
        simp [hnode]
      · simp [hx, Ne.symm hx]
    · rename_i hready
      by_cases hx : x = event
      · subst hx
        simp only [ne_eq, not_not] at hready
        simp [hnode, ← hready]
      · simp [hx]

@[simp] theorem setReady_linkSource (value : Bool) :
    (h.setReady event value).linkSource = h.linkSource := by
  simp only [Events.setReady]
  repeat' split
  · rfl
  · rw [updateReady_linkSource]
  · rfl

theorem disable_nodes (x : Nat) : (h.disable event).nodes[x]? =
    (h.nodes[x]?).map fun node => if x = event then { node with timeUs := -1 } else node := by
  simp only [disable, Events.setTime]
  split
  · rename_i hnone
    by_cases hx : x = event
    · rw [hx, hnone]
      rfl
    · simp [hx]
  · rename_i node hnode
    simp only [true_or, if_true]
    split
    · rename_i htime
      by_cases hx : x = event
      · subst hx
        simp [hnode, ← htime]
      · simp [hx]
    · rw [updateReady_nodes, Std.ExtTreeMap.getElem?_insert]
      by_cases hx : x = event
      · subst hx
        simp [hnode]
      · simp [hx, Ne.symm hx]

end Nodes

theorem Linked.setNode (hl : h.Linked S L) (hevent : h.isActive event = false) {node : Node}
    (hidle : (node.ready && node.isEnabled) = false) :
    Linked { h with nodes := h.nodes.insert event node } S L := by
  obtain ⟨R, hR, hmem⟩ := hl.ready
  obtain ⟨Q, hQ, hin⟩ := hl.source
  have hself : (h.nodes.insert event node)[event]? = some node := Std.ExtTreeMap.getElem?_insert_self
  have hsame : ∀ x, x ≠ event → (h.nodes.insert event node)[x]? = h.nodes[x]? := by
    intro x hx
    rw [Std.ExtTreeMap.getElem?_insert, if_neg (by simpa using Ne.symm hx)]
  refine ⟨⟨R, hR, fun manager x => ?_⟩, hl.raise, fun r x hx => ?_, Q, hQ, fun source x hx => ?_⟩
  · rw [hmem]
    by_cases hx : x = event
    · subst hx
      constructor
      · intro hready
        rw [isActive_of_isReady hready] at hevent
        cases hevent
      · rintro ⟨node', hnode', -, hflag, henabled⟩
        obtain rfl := Option.some.inj (hself.symm.trans hnode')
        rw [hflag, henabled] at hidle
        cases hidle
    · exact (isReady_congr (hsame x hx)).symm
  · have hne : x ≠ event := by
      rintro rfl
      rw [hl.active r x hx] at hevent
      cases hevent
    rw [isActive_congr (h := h) (hsame x hne)]
    exact hl.active r x hx
  · exact Std.ExtTreeMap.mem_insert.mpr (.inr (hin source x hx))

theorem Linked.withSource (hl : h.Linked S L) {m : Memory Nat Nat} {Q : Nat → List Nat}
    (hm : m.Represents Set.univ Q) (hin : ∀ source x, x ∈ Q source → x ∈ h.nodes) :
    Linked { h with linkSource := m } S L :=
  ⟨hl.ready, hl.raise, hl.active, Q, hm, hin⟩

theorem Linked.withSources (hl : h.Linked S L) (sources : Std.ExtTreeMap Nat Bool) :
    Linked { h with sources := sources } S L :=
  ⟨hl.ready, hl.raise, hl.active, hl.source⟩

section Unlink

variable (h event)

theorem unlink_nodes_of_ne {x : Nat} (hx : x ≠ event) : (h.unlink event).nodes[x]? = h.nodes[x]? := by
  simp only [Events.unlink]
  split
  · rfl
  · rw [Std.ExtTreeMap.getElem?_insert, if_neg (by simpa using Ne.symm hx)]

theorem unlink_isActive : (h.unlink event).isActive event = false := by
  simp only [isActive, Events.unlink]
  split
  · rename_i hnone
    rw [hnone]
    rfl
  · rw [Std.ExtTreeMap.getElem?_insert_self]
    rfl

end Unlink

theorem Linked.unlink (hl : h.Linked S L) (event : Nat) :
    (h.unlink event).Linked S fun r => (L r).filter (h.unlink event).isActive := by
  have hlists : (fun r => (L r).filter (h.unlink event).isActive) = fun r => (L r).erase event := by
    funext r
    exact (hl.erase_eq (fun x hx => h.unlink_nodes_of_ne event hx) (h.unlink_isActive event) r).symm
  cases hnode : h.nodes[event]? with
  | none =>
      have heq : h.unlink event = h := by
        simp only [Events.unlink, hnode]
      rw [heq]
      exact hl.self
  | some node =>
      obtain ⟨Q, hQ, hin⟩ := hl.source
      have heq : h.unlink event = { h with
          nodes := h.nodes.insert event { priority := node.priority }
          linkReady := h.linkReady.unlink event
          linkRaise := h.linkRaise.unlink event
          linkSource := h.linkSource.unlink event } := by
        simp only [Events.unlink, hnode]
      rw [hlists, heq]
      have hidle : (({ priority := node.priority } : Node).ready &&
          ({ priority := node.priority } : Node).isEnabled) = false := rfl
      have hdropped := hl.drop event hidle
      refine hdropped.withSource (hQ.unlink event) ?_
      intro source x hx
      exact Std.ExtTreeMap.mem_insert.mpr (.inr (hin source x (List.mem_of_mem_erase hx)))

theorem Linked.unlink_source (hl : h.Linked S L) (event : Nat) :
    ∃ Q, (h.unlink event).linkSource.Represents Set.univ Q ∧
      (∀ source x, x ∈ Q source → x ∈ (h.unlink event).nodes) ∧ ∀ source, event ∉ Q source := by
  obtain ⟨Q, hQ, hin⟩ := hl.source
  cases hnode : h.nodes[event]? with
  | none =>
      have heq : h.unlink event = h := by
        simp only [Events.unlink, hnode]
      rw [heq]
      refine ⟨Q, hQ, hin, fun source hx => ?_⟩
      have hsome := hin source event hx
      rw [Std.ExtTreeMap.mem_iff_isSome_getElem?, hnode] at hsome
      cases hsome
  | some node =>
      simp only [Events.unlink, hnode]
      refine ⟨_, hQ.unlink event, fun source x hx => ?_, fun source => (hQ.nodup source).not_mem_erase⟩
      exact Std.ExtTreeMap.mem_insert.mpr (.inr (hin source x (List.mem_of_mem_erase hx)))

theorem Linked.destroy (hl : h.Linked S L) :
    Linked { h.unlink event with nodes := (h.unlink event).nodes.erase event } S fun r =>
      (L r).filter (h.unlink event).isActive := by
  have hidle := h.unlink_isActive event
  obtain ⟨Q, hQ, hin, hfree⟩ := hl.unlink_source event
  obtain ⟨⟨R, hR, hmem⟩, hraise, hactive, -⟩ := hl.unlink event
  have hsame : ∀ x, x ≠ event →
      ((h.unlink event).nodes.erase event)[x]? = (h.unlink event).nodes[x]? := by
    intro x hx
    rw [Std.ExtTreeMap.getElem?_erase, if_neg (by simpa using Ne.symm hx)]
  refine ⟨⟨R, hR, fun manager x => ?_⟩, hraise, fun r x hx => ?_, Q, hQ, fun source x hx => ?_⟩
  · rw [hmem]
    by_cases hx : x = event
    · subst hx
      constructor
      · intro hready
        rw [isActive_of_isReady hready] at hidle
        cases hidle
      · rintro ⟨node', hnode', -⟩
        rw [Std.ExtTreeMap.getElem?_erase_self] at hnode'
        cases hnode'
    · exact (isReady_congr (hsame x hx)).symm
  · have hne : x ≠ event := by
      rintro rfl
      rw [hactive r x hx] at hidle
      cases hidle
    rw [isActive_congr (h := h.unlink event) (hsame x hne)]
    exact hactive r x hx
  · have hne : event ≠ x := by
      rintro rfl
      exact hfree source hx
    exact Std.ExtTreeMap.mem_erase.mpr ⟨by simpa using hne, hin source x hx⟩

theorem Linked.init (hl : h.Linked S L) (handler manager : Nat) (source : Option Nat) (priority : Int) :
    (h.init event handler manager source priority).Linked S fun r =>
      (L r).filter (h.init event handler manager source priority).isActive := by
  cases hnode : h.nodes[event]? with
  | none =>
      simp only [Events.init, hnode]
      exact hl.self
  | some old =>
      let node : Node := { handler := some handler, manager := some manager, priority := priority }
      let g : Events := { h.unlink event with nodes := (h.unlink event).nodes.insert event node }
      have hg : g.Linked S fun r => (L r).filter (h.unlink event).isActive :=
        (hl.unlink event).setNode (h.unlink_isActive event) rfl
      have hgself : g.nodes[event]? = some node := Std.ExtTreeMap.getElem?_insert_self
      -- The time is -1 until the next `setTime`.
      have hready : ∀ (k : Events) (value : Bool), k.nodes = g.nodes → k.Linked S
          (fun r => (L r).filter (h.unlink event).isActive) →
          (k.setReady event value).Linked S fun r => (L r).filter (k.setReady event value).isActive := by
        intro k value hnodes hk
        refine (hk.setReady event value).trans fun r x _ hx => ?_
        rw [isActive, setReady_nodes, hnodes] at hx
        by_cases heq : x = event
        · subst heq
          rw [hgself] at hx
          simp [node, Event.isEnabled] at hx
        · have hkept : g.nodes[x]? = (h.unlink event).nodes[x]? := by
            rw [Std.ExtTreeMap.getElem?_insert, if_neg (by simpa using Ne.symm heq)]
          simpa [isActive, heq, hkept] using hx
      cases source with
      | none =>
          simp only [Events.init, hnode]
          exact hready g true rfl hg
      | some source =>
          let k : Events := { g with linkSource := g.linkSource.link event (.root source) }
          have heq : h.init event handler manager (some source) priority =
              k.setReady event (g.sources.getD source false) := by
            simp only [Events.init, hnode]
            rfl
          obtain ⟨Q, hQ, hin, hfree⟩ := hl.unlink_source event
          rw [heq]
          apply hready k _ rfl
          refine hg.withSource (hQ.link hfree (Set.mem_univ source) (List.nil_append _).symm) ?_
          intro source' x hx
          apply Std.ExtTreeMap.mem_insert.mpr
          by_cases hsource : source' = source
          · subst hsource
            rw [Function.update_self, List.nil_append, List.mem_cons] at hx
            rcases hx with rfl | hx
            · exact .inl (Std.ReflCmp.compare_self)
            · exact .inr (hin source' x hx)
          · rw [Function.update_of_ne hsource] at hx
            exact .inr (hin source' x hx)

theorem length_le_size {events : List Nat} (hnodup : events.Nodup)
    (hin : ∀ x ∈ events, x ∈ h.nodes) : events.length ≤ h.nodes.size := by
  have hsub : events ⊆ h.nodes.keys := fun x hx => Std.ExtTreeMap.mem_keys.mpr (hin x hx)
  rw [← Std.ExtTreeMap.length_keys]
  exact (List.Nodup.subperm hnodup hsub).length_le

theorem Linked.setReadyLoop (hl : h.Linked S L) (value : Bool) {fuel : Nat} {place : Place Nat Nat}
    {events : List Nat} (hchain : h.linkSource.Chain place events)
    (hin : ∀ x ∈ events, x ∈ h.nodes) (hfuel : events.length ≤ fuel) :
    ∃ g, Events.setReadyLoop value fuel (h.linkSource.load place) h = some g ∧
      (g.Linked S fun r => (L r).filter g.isActive) ∧
      ∀ x, g.nodes[x]? =
        (h.nodes[x]?).map fun node => if x ∈ events then { node with ready := value } else node := by
  induction events generalizing h L fuel place with
  | nil =>
      refine ⟨h, ?_, hl.self, fun x => ?_⟩
      · rw [hchain.head]
        cases fuel <;> rfl
      · simp
  | cons event events ih =>
      cases fuel with
      | zero => cases hfuel
      | succ fuel =>
          let k := h.setReady event value
          have hk := hl.setReady event value
          have hsource : k.linkSource = h.linkSource := h.setReady_linkSource event value
          have hnodes := h.setReady_nodes event value
          have hkin : ∀ x ∈ events, x ∈ k.nodes := by
            intro x hx
            have hmem := hin x (List.mem_cons_of_mem _ hx)
            rw [Std.ExtTreeMap.mem_iff_isSome_getElem?] at hmem ⊢
            rw [hnodes, Option.isSome_map]
            exact hmem
          obtain ⟨g, hg, hlinked, hgnodes⟩ := ih hk (hsource ▸ hchain.tail) hkin
            (Nat.le_of_succ_le_succ hfuel)
          have hboth : ∀ x, g.nodes[x]? = (h.nodes[x]?).map fun node =>
              if x ∈ event :: events then { node with ready := value } else node := by
            intro x
            rw [hgnodes, hnodes, Option.map_map]
            congr 1
            funext node
            by_cases hx : x = event
            · simp [hx]
            · simp [hx]
          refine ⟨g, ?_, hlinked.trans fun r x hx hactive => ?_, hboth⟩
          · rw [hchain.head, List.head?_cons, Events.setReadyLoop, if_pos (hin event List.mem_cons_self)]
            exact hg
          · have hold := hl.active r x hx
            rw [isActive, hboth] at hactive
            rw [isActive] at hold ⊢
            rw [hnodes]
            cases hnode : h.nodes[x]? with
            | none =>
                rw [hnode] at hold
                cases hold
            | some node =>
                rw [hnode] at hold hactive
                by_cases heq : x = event
                · simpa [heq] using hactive
                · simpa [heq] using hold

theorem Linked.setSourceReady (hl : h.Linked S L) (source : Nat) (value : Bool) :
    ∃ g, h.setSourceReady source value = some g ∧ g.Linked S fun r => (L r).filter g.isActive := by
  simp only [Events.setSourceReady]
  split
  · exact ⟨h, rfl, hl.self⟩
  · split
    · exact ⟨h, rfl, hl.self⟩
    · obtain ⟨Q, hQ, hin⟩ := hl.source
      have hset := hl.withSources (h.sources.insert source value)
      have hchain := hQ.chain source (Set.mem_univ source)
      obtain ⟨g, hg, hlinked, -⟩ := hset.setReadyLoop value hchain (hin source)
        (length_le_size (hQ.nodup source) (hin source))
      exact ⟨g, hg, hlinked⟩

theorem Linked.unlinkLoop (hl : h.Linked S L) {source fuel : Nat} {events : List Nat}
    {Q : Nat → List Nat} (hQ : h.linkSource.Represents Set.univ Q)
    (hin : ∀ source x, x ∈ Q source → x ∈ h.nodes) (hevents : Q source = events)
    (hfuel : events.length ≤ fuel) :
    ∃ g, Events.unlinkLoop source fuel (h.linkSource.load (.root source)) h = some g ∧
      g.Linked S L ∧ g.nodes = h.nodes := by
  have hhead := (hQ.chain source (Set.mem_univ source)).head
  induction events generalizing h Q fuel with
  | nil =>
      rw [hevents, List.head?_nil] at hhead
      refine ⟨h, ?_, hl, rfl⟩
      rw [hhead]
      cases fuel <;> rfl
  | cons event events ih =>
      rw [hevents, List.head?_cons] at hhead
      cases fuel with
      | zero => cases hfuel
      | succ fuel =>
          have hnext := hQ.unlink event
          have hnextIn : ∀ source x, x ∈ (Q source).erase event → x ∈ h.nodes :=
            fun source x hx => hin source x (List.mem_of_mem_erase hx)
          obtain ⟨g, hg, hlinked, hnodes⟩ := ih (hl.withSource hnext hnextIn) hnext hnextIn
            (by rw [hevents, List.erase_cons_head]) (Nat.le_of_succ_le_succ hfuel)
            (hnext.chain source (Set.mem_univ source)).head
          have hmem : event ∈ h.nodes := hin source event (by rw [hevents]; exact List.mem_cons_self)
          refine ⟨g, ?_, hlinked, hnodes⟩
          rw [hhead, Events.unlinkLoop, if_pos hmem]
          exact hg

/-- An operation of a handler keeps the links, and takes off the raise lists what it
makes inactive. -/
theorem Linked.apply (hl : h.Linked S L) (op : Op) :
    ∃ g, h.apply op = some g ∧ g.Linked S fun r => (L r).filter g.isActive := by
  cases op with
  | construct event =>
      simp only [Events.apply, Option.some.injEq, exists_eq_left']
      split
      · exact hl.self
      · rename_i hnew
        refine (hl.setNode ?_ rfl).self
        rw [isActive, Std.ExtTreeMap.getElem?_eq_none hnew]
        rfl
  | init event handler manager source priority =>
      simp only [Events.apply, Option.some.injEq, exists_eq_left']
      split
      · exact hl.init handler manager source priority
      · exact hl.self
  | destroy event =>
      simp only [Events.apply, Option.some.injEq, exists_eq_left']
      refine hl.destroy.self.trans fun r x _ hactive => ?_
      by_cases hx : x = event
      · rw [isActive, hx, Std.ExtTreeMap.getElem?_erase_self] at hactive
        cases hactive
      · rw [isActive, Std.ExtTreeMap.getElem?_erase, if_neg (by simpa using Ne.symm hx)] at hactive
        exact hactive
  | setTime event timeUs force =>
      simp only [Events.apply, Option.some.injEq, exists_eq_left']
      exact hl.setTime timeUs force
  | disable event =>
      simp only [Events.apply, Option.some.injEq, exists_eq_left']
      exact hl.setTime (-1) true
  | constructSource source =>
      simp only [Events.apply, Option.some.injEq, exists_eq_left']
      split
      · exact hl.self
      · exact (hl.withSources _).self
  | setSourceReady source value => exact hl.setSourceReady source value
  | destroySource source =>
      simp only [Events.apply]
      split
      · obtain ⟨g, hg, hlinked⟩ := hl.setSourceReady source false
        obtain ⟨Q, hQ, hin⟩ := hlinked.source
        obtain ⟨k, hk, hunlinked, hnodes⟩ := hlinked.unlinkLoop hQ hin rfl
          (length_le_size (hQ.nodup source) (hin source))
        refine ⟨{ k with sources := k.sources.erase source }, ?_, ?_⟩
        · rw [hg, Option.bind_some, hk, Option.map_some]
        · refine (hunlinked.withSources (k.sources.erase source)).self.trans fun r x _ hactive => ?_
          have hsame : k.isActive x = g.isActive x := isActive_congr (by rw [hnodes])
          rw [← hsame]
          exact hactive
      · exact ⟨h, rfl, hl.self⟩

theorem Linked.states (hl : h.Linked S L) (ops : List Op) :
    ∃ states, h.states ops = some states ∧ (states.getLast?.getD h).Linked S fun r =>
      (L r).filter fun x => states.all fun g => g.isActive x := by
  induction ops generalizing h L with
  | nil =>
      refine ⟨[], rfl, ?_⟩
      simp only [List.all_nil, List.filter_true]
      exact hl
  | cons op ops ih =>
      obtain ⟨g, hg, hlinked⟩ := hl.apply op
      obtain ⟨states, hstates, hlast⟩ := ih hlinked
      refine ⟨g :: states, ?_, ?_⟩
      · simp only [Events.states, hg, Option.bind_some, hstates, Option.map_some]
      · have hlists : (fun r => (L r).filter fun x => (g :: states).all fun g => g.isActive x) =
            fun r => ((L r).filter g.isActive).filter fun x => states.all fun g => g.isActive x := by
          funext r
          rw [List.filter_filter]
          apply List.filter_congr
          intro x _
          rw [List.all_cons, Bool.and_comm]
        rw [hlists, List.getLast?_cons, Option.getD_some]
        exact hlast

end Operations

/-- The calls that raise the events of a list: an event that is inactive after an operation
of a handler is not called any more. -/
inductive Follows : List Nat → List Turn → Prop
  | nil : Follows [] []
  | cons {event : Nat} {events : List Nat} {plannedTimeUs : Int} {states : List Events}
      {turns : List Turn} :
      Follows (events.filter fun x => states.all fun g => g.isActive x) turns →
      Follows (event :: events) (⟨event, plannedTimeUs, states⟩ :: turns)

section Follows

variable {events : List Nat} {turns : List Turn}

theorem Follows.sublist (h : Follows events turns) : (turns.map Turn.event).Sublist events := by
  induction h with
  | nil => exact .slnil
  | cons _ ih => exact (ih.trans List.filter_sublist).cons_cons _

theorem Follows.stopped (h : Follows events turns) {event : Nat} (hevent : event ∈ events)
    (hnot : event ∉ turns.map Turn.event) :
    ∃ turn ∈ turns, ∃ g ∈ turn.states, g.isActive event = false := by
  induction h with
  | nil => cases hevent
  | @cons first events plannedTimeUs states turns _ ih =>
      rw [List.map_cons, List.mem_cons, not_or] at hnot
      have htail := (List.mem_cons.mp hevent).resolve_left hnot.1
      by_cases hall : (states.all fun g => g.isActive event) = true
      · obtain ⟨turn, hturn, hstopped⟩ := ih (List.mem_filter.mpr ⟨htail, hall⟩) hnot.2
        exact ⟨turn, List.mem_cons_of_mem _ hturn, hstopped⟩
      · rw [Bool.not_eq_true, List.all_eq_false] at hall
        obtain ⟨g, hg, hidle⟩ := hall
        exact ⟨_, List.mem_cons_self, g, hg, by simpa using hidle⟩

theorem Follows.active (h : Follows events turns) {before after : List Turn} {turn : Turn}
    (heq : turns = before ++ turn :: after) :
    ∀ earlier ∈ before, ∀ g ∈ earlier.states, g.isActive turn.event = true := by
  induction h generalizing before with
  | nil =>
      have hnil := congrArg List.length heq
      simp at hnil
  | @cons first events plannedTimeUs states turns hfollows ih =>
      cases before with
      | nil =>
          intro earlier hearlier
          cases hearlier
      | cons earliest before =>
          rw [List.cons_append, List.cons.injEq] at heq
          obtain ⟨rfl, hrest⟩ := heq
          intro earlier hearlier g hg
          rcases List.mem_cons.mp hearlier with rfl | hlater
          · have hmem : turn.event ∈ turns.map Turn.event := by
              rw [hrest]
              simp
            have hfilter := List.of_mem_filter (hfollows.sublist.subset hmem)
            exact List.all_eq_true.mp hfilter g hg
          · exact ih hrest earlier hlater g hg

end Follows

section Select

variable {h : Events} {L : RaiseRoot → List Nat}

/-- The priority of an event. -/
def priority (h : Events) (event : Nat) : Int :=
  (h.nodes[event]?.map Node.priority).getD 0

/-- The event is ready, enabled and due. -/
def IsDue (h : Events) (manager : Nat) (timeUs : Int) (event : Nat) : Prop :=
  h.IsReady manager event ∧ ∃ node ∈ h.nodes[event]?, node.timeUs ≤ timeUs

/-- The event is due, and none that is due has a higher priority. -/
def IsFirst (h : Events) (manager : Nat) (timeUs : Int) (event : Nat) : Prop :=
  h.IsDue manager timeUs event ∧
    ∀ other, h.IsDue manager timeUs other → h.priority other ≤ h.priority event

theorem Linked.withRaise {S : Set RaiseRoot} (hl : h.Linked S L) {m : Memory RaiseRoot Nat}
    {S' : Set RaiseRoot} {L' : RaiseRoot → List Nat} (hm : m.Represents S' L')
    (hactive : ∀ r x, x ∈ L' r → h.isActive x = true) :
    Linked { h with linkRaise := m } S' L' :=
  ⟨hl.ready, hm, hactive, hl.source⟩

theorem Linked.mem_iff (hl : h.Linked {.events} L) (x : Nat) : (∃ r, x ∈ L r) ↔ x ∈ L .events := by
  refine ⟨fun ⟨r, hx⟩ => ?_, fun hx => ⟨.events, hx⟩⟩
  by_cases hevents : r = .events
  · rwa [← hevents]
  · rw [hl.raise.empty r hevents] at hx
    cases hx

theorem Linked.push (hl : h.Linked {.events} L) {event : Nat} (hactive : h.isActive event = true)
    (hfree : event ∉ L .events) :
    Linked { h with linkRaise := h.linkRaise.link event (.root .events) } {.events}
      (Function.update L .events (event :: L .events)) := by
  have hnew : ∀ r, event ∉ L r := fun r hr => hfree ((hl.mem_iff event).mp ⟨r, hr⟩)
  have hlink := hl.raise.link hnew (r := .events) rfl (List.nil_append (L .events)).symm
  rw [endOf_nil, List.nil_append] at hlink
  refine hl.withRaise hlink fun r x hx => ?_
  by_cases hevents : r = .events
  · rw [hevents, Function.update_self] at hx
    rcases List.mem_cons.mp hx with rfl | hx
    · exact hactive
    · exact hl.active _ x hx
  · rw [Function.update_of_ne hevents] at hx
    exact hl.active r x hx

/-- What the first loop has collected among the events it has seen. -/
structure Collected (h : Events) (timeUs : Int) (seen events : List Nat) (count : Nat)
    (priority : Int) : Prop where
  length : events.length = count
  due : ∀ x ∈ events, x ∈ seen ∧ ∃ node ∈ h.nodes[x]?, node.timeUs ≤ timeUs
  highest : ∀ x ∈ seen, ∀ node ∈ h.nodes[x]?, node.timeUs ≤ timeUs →
    node.priority ≤ priority ∧ (node.priority = priority → x ∈ events) ∧ events ≠ []
  attained : events ≠ [] → ∃ x ∈ events, h.priority x = priority

theorem Collected.congr {g : Events} {timeUs : Int} {seen events : List Nat} {count : Nat}
    {priority : Int} (hc : Collected h timeUs seen events count priority) (hnodes : g.nodes = h.nodes) :
    Collected g timeUs seen events count priority := by
  obtain ⟨hlength, hdue, hhighest, hattained⟩ := hc
  refine ⟨hlength, ?_, ?_, ?_⟩
  · rw [hnodes]
    exact hdue
  · rw [hnodes]
    exact hhighest
  · simp only [Events.priority, hnodes]
    exact hattained

theorem Collected.pass {timeUs : Int} {seen events : List Nat} {count : Nat} {priority : Int}
    (hc : Collected h timeUs seen events count priority) {event : Nat} {node : Node}
    (hnode : h.nodes[event]? = some node)
    (hlow : node.timeUs ≤ timeUs → node.priority < priority ∧ events ≠ []) :
    Collected h timeUs (seen ++ [event]) events count priority := by
  refine ⟨hc.length, fun x hx => ?_, fun x hx node' hnode' hdue => ?_, hc.attained⟩
  · obtain ⟨hseen, hdue⟩ := hc.due x hx
    exact ⟨List.mem_append_left _ hseen, hdue⟩
  · rcases List.mem_append.mp hx with hx | hx
    · exact hc.highest x hx node' hnode' hdue
    · obtain rfl := List.mem_singleton.mp hx
      obtain rfl := Option.some.inj (hnode.symm.trans hnode')
      obtain ⟨hlt, hne⟩ := hlow hdue
      exact ⟨hlt.le, fun heq => absurd heq hlt.ne, hne⟩

theorem Collected.take {timeUs : Int} {seen events : List Nat} {count : Nat} {priority : Int}
    (hc : Collected h timeUs seen events count priority) {event : Nat} {node : Node}
    (hnode : h.nodes[event]? = some node) (hdue : node.timeUs ≤ timeUs)
    (hhigh : events = [] ∨ priority ≤ node.priority) :
    Collected h timeUs (seen ++ [event]) (event :: events) (count + 1) node.priority := by
  refine ⟨?_, fun x hx => ?_, fun x hx node' hnode' hdue' => ?_, fun _ => ?_⟩
  · rw [List.length_cons, hc.length]
  · rcases List.mem_cons.mp hx with rfl | hx
    · exact ⟨List.mem_append_right _ List.mem_cons_self, node, hnode, hdue⟩
    · obtain ⟨hseen, hx⟩ := hc.due x hx
      exact ⟨List.mem_append_left _ hseen, hx⟩
  · rcases List.mem_append.mp hx with hx | hx
    · obtain ⟨hle, hin, hne⟩ := hc.highest x hx node' hnode' hdue'
      have hhigh := hhigh.resolve_left hne
      refine ⟨hle.trans hhigh, fun heq => ?_, List.cons_ne_nil _ _⟩
      exact List.mem_cons_of_mem _ (hin (le_antisymm hle (heq ▸ hhigh)))
    · obtain rfl := List.mem_singleton.mp hx
      obtain rfl := Option.some.inj (hnode.symm.trans hnode')
      exact ⟨le_refl _, fun _ => List.mem_cons_self, List.cons_ne_nil _ _⟩
  · refine ⟨event, List.mem_cons_self, ?_⟩
    rw [Events.priority, hnode, Option.map_some, Option.getD_some]

/-- The first loop goes through the list of the manager. -/
theorem Linked.collectLoop (hl : h.Linked {.events} L) (timeUs : Int) {place : Place Nat Nat}
    {seen rest : List Nat} (hchain : h.linkReady.Chain place rest)
    (hactive : ∀ x ∈ rest, h.isActive x = true) (hnodup : (seen ++ rest).Nodup) {fuel : Nat}
    (hfuel : rest.length ≤ fuel) {count : Nat} {priority : Int}
    (hc : Collected h timeUs seen (L .events) count priority) :
    ∃ g count' priority' L', Events.collectLoop timeUs fuel (h.linkReady.load place)
        (h, count, priority) = some (g, count', priority') ∧
      g.Linked {.events} L' ∧ g.nodes = h.nodes ∧
      Collected g timeUs (seen ++ rest) (L' .events) count' priority' := by
  induction rest generalizing h L place seen fuel count priority with
  | nil =>
      refine ⟨h, count, priority, L, ?_, hl, rfl, ?_⟩
      · rw [hchain.head]
        cases fuel <;> rfl
      · rw [List.append_nil]
        exact hc
  | cons event rest ih =>
      cases fuel with
      | zero => cases hfuel
      | succ fuel =>
          have hfuel := Nat.le_of_succ_le_succ hfuel
          obtain ⟨node, hnode⟩ := Option.isSome_iff_exists.mp (Std.ExtTreeMap.mem_iff_isSome_getElem?.mp
            (mem_of_isActive (hactive event List.mem_cons_self)))
          have hrest : ∀ x ∈ rest, h.isActive x = true := fun x hx =>
            hactive x (List.mem_cons_of_mem _ hx)
          have hnodup' : ((seen ++ [event]) ++ rest).Nodup := by
            rwa [List.append_assoc, List.singleton_append]
          have happend : seen ++ event :: rest = (seen ++ [event]) ++ rest := by
            rw [List.append_assoc, List.singleton_append]
          have hempty : (h.linkRaise.load (.root .events)).isNone = true ↔ L .events = [] := by
            rw [(hl.raise.chain .events rfl).head, Option.isNone_iff_eq_none, List.head?_eq_none_iff]
          have hstep : Events.collectLoop timeUs (fuel + 1) (h.linkReady.load place)
              (h, count, priority) = Events.collectLoop timeUs (fuel + 1) (some event)
                (h, count, priority) := by
            rw [hchain.head, List.head?_cons]
          have hpass : (node.timeUs ≤ timeUs → node.priority < priority ∧ L .events ≠ []) →
              ∃ g count' priority' L', Events.collectLoop timeUs fuel (h.linkReady.load (.next event))
                  (h, count, priority) = some (g, count', priority') ∧
                g.Linked {.events} L' ∧ g.nodes = h.nodes ∧
                Collected g timeUs ((seen ++ [event]) ++ rest) (L' .events) count' priority' :=
            fun hlow => ih hl hchain.tail hrest hnodup' hfuel (hc.pass hnode hlow)
          rw [happend, hstep, Events.collectLoop, hnode, Option.bind_some]
          by_cases hdue : node.timeUs ≤ timeUs
          · by_cases hhigh : L .events = [] ∨ priority ≤ node.priority
            · have hbest : (if (h.linkRaise.load (.root .events)).isNone then node.priority
                  else if priority < node.priority then node.priority else priority) = node.priority := by
                rw [ite_eq_left_iff, hempty]
                intro hne
                have hle := hhigh.resolve_left hne
                split <;> omega
              have hfree : event ∉ L .events := fun hr =>
                (List.nodup_append.mp hnodup).2.2 event (hc.due event hr).1 event
                  List.mem_cons_self rfl
              have hlinked := hl.push (hactive event List.mem_cons_self) hfree
              obtain ⟨g, count', priority', L', hg, hgl, hnodes, hgc⟩ :=
                ih hlinked hchain.tail hrest hnodup' hfuel (by
                  rw [Function.update_self]
                  exact (hc.take hnode hdue hhigh).congr rfl)
              refine ⟨g, count', priority', L', ?_, hgl, hnodes, hgc⟩
              simp only [hdue, if_true, hbest]
              exact hg
            · rw [not_or, not_le] at hhigh
              have hbest : (if (h.linkRaise.load (.root .events)).isNone then node.priority
                  else if priority < node.priority then node.priority else priority) = priority := by
                rw [if_neg (fun hnil => hhigh.1 (hempty.mp hnil)), if_neg (by omega)]
              have hne : node.priority ≠ priority := hhigh.2.ne
              simp only [hdue, if_true, hbest, hne, if_false]
              exact hpass fun _ => ⟨hhigh.2, hhigh.1⟩
          · simp only [hdue, if_false]
            exact hpass fun hdue' => absurd hdue' hdue

theorem Linked.skipLoop (hl : h.Linked {.events} L) (priority : Int) {kept rest : List Nat}
    (hevents : L .events = kept ++ rest) {fuel : Nat} (hfuel : rest.length ≤ fuel) :
    ∃ g L', Events.skipLoop priority fuel rest.head? (h, (L .events).length) =
        some (g, (L' .events).length) ∧
      g.Linked {.events} L' ∧ g.nodes = h.nodes ∧
      L' .events = kept ++ rest.filter fun x => h.priority x = priority := by
  induction rest generalizing h L kept fuel with
  | nil =>
      refine ⟨h, L, ?_, hl, rfl, by rw [hevents, List.filter_nil]⟩
      cases fuel <;> rfl
  | cons event rest ih =>
      cases fuel with
      | zero => cases hfuel
      | succ fuel =>
          have hfuel := Nat.le_of_succ_le_succ hfuel
          have hmem : event ∈ L .events := by
            rw [hevents]
            exact List.mem_append_right _ List.mem_cons_self
          obtain ⟨node, hnode⟩ := Option.isSome_iff_exists.mp
            (Std.ExtTreeMap.mem_iff_isSome_getElem?.mp (mem_of_isActive (hl.active _ event hmem)))
          have hpriority : h.priority event = node.priority := by
            rw [Events.priority, hnode, Option.map_some, Option.getD_some]
          have hchain := hl.raise.chain .events rfl
          have hnodup := hl.raise.nodup .events
          rw [hevents, Memory.chain_append] at hchain
          rw [hevents] at hnodup
          have hnext : h.linkRaise.load (.next event) = rest.head? := hchain.2.tail.head
          rw [List.head?_cons, Events.skipLoop, hnode, Option.bind_some, hnext]
          by_cases hsame : node.priority = priority
          · have hkept : L .events = (kept ++ [event]) ++ rest := by
              rw [hevents, List.append_assoc, List.singleton_append]
            obtain ⟨g, L', hg, hgl, hnodes, hL'⟩ := ih hl hkept hfuel
            refine ⟨g, L', ?_, hgl, hnodes, ?_⟩
            · rw [if_pos hsame]
              exact hg
            · rw [hL', List.filter_cons_of_pos (by simpa [hpriority] using hsame), List.append_assoc,
                List.singleton_append]
          · have hnot : event ∉ kept := fun hkept =>
              (List.nodup_append.mp hnodup).2.2 event hkept event List.mem_cons_self rfl
            have herase : (L .events).erase event = kept ++ rest := by
              rw [hevents, List.erase_append_right _ hnot, List.erase_cons_head]
            have hunlinked := hl.withRaise (hl.raise.unlink event) fun r x hx =>
              hl.active r x (List.mem_of_mem_erase hx)
            obtain ⟨g, L', hg, hgl, hnodes, hL'⟩ := ih hunlinked herase hfuel
            refine ⟨g, L', ?_, hgl, hnodes, ?_⟩
            · rw [if_neg hsame, ← hg, List.length_erase_of_mem hmem]
            · rw [hL', List.filter_cons_of_neg (by simpa [hpriority] using hsame)]
              rfl

theorem Linked.clearShuffle (hl : h.Linked {.events} L) : h.clearShuffle.Linked Set.univ L := by
  have hunion : ({.events} : Set RaiseRoot) ∪ {r | r ≠ .events} = Set.univ :=
    Set.eq_univ_of_forall fun r => em (r = .events)
  have hcleared : h.clearShuffle.linkRaise.Represents ({.events} ∪ {r | r ≠ .events}) L := by
    refine hl.raise.clear (fun r hr => hl.raise.empty r hr) (fun r hr => ?_) (fun r hr => ?_)
      (fun _ => rfl) rfl
    · cases r with
      | events => exact absurd rfl hr
      | first i => rfl
    · cases r with
      | events => rfl
      | first i => exact absurd (nofun : RaiseRoot.first i ≠ .events) hr
  rw [hunion] at hcleared
  exact hl.withRaise hcleared hl.active

theorem events_ne_first (i : Nat) : (.events : RaiseRoot) ≠ .first i := nofun

theorem Linked.shuffle (hl : h.Linked Set.univ L) {event : Nat} {rest : List Nat}
    (hevents : L .events = event :: rest) (i : Nat) {xs ys : List Nat} (hL : L (.first i) = xs ++ ys) :
    Linked { h with linkRaise := h.linkRaise.link event (endOf (.root (.first i)) xs) } Set.univ
      (Function.update (Function.update L .events rest) (.first i) (xs ++ event :: ys)) := by
  have hmem : event ∈ L .events := by
    rw [hevents]
    exact List.mem_cons_self
  have hothers : ∀ r, r ≠ .events → (L r).erase event = L r := fun r hr =>
    List.erase_of_not_mem (hl.raise.not_mem hr hmem)
  have hlists : (fun r => (L r).erase event) = Function.update L .events rest := by
    funext r
    by_cases hr : r = .events
    · subst hr
      rw [Function.update_self, hevents, List.erase_cons_head]
    · rw [Function.update_of_ne hr, hothers r hr]
  have hunlinked := hl.raise.unlink event
  have hfree : ∀ r, event ∉ (L r).erase event := fun r => (hl.raise.nodup r).not_mem_erase
  have hfirst : (L (.first i)).erase event = xs ++ ys := by
    rw [hothers (.first i) (events_ne_first i).symm, hL]
  have hlinked := hunlinked.link hfree (Set.mem_univ (.first i)) hfirst
  rw [← Memory.link_eq, hlists] at hlinked
  refine hl.withRaise hlinked fun r x hx => ?_
  by_cases hfirst : r = .first i
  · subst hfirst
    rw [Function.update_self, List.mem_append, List.mem_cons] at hx
    rcases hx with hx | rfl | hx
    · exact hl.active (.first i) x (by rw [hL]; exact List.mem_append_left _ hx)
    · exact hl.active .events x hmem
    · exact hl.active (.first i) x (by rw [hL]; exact List.mem_append_right _ hx)
  · rw [Function.update_of_ne hfirst] at hx
    by_cases hr : r = .events
    · subst hr
      rw [Function.update_self] at hx
      exact hl.active .events x (by rw [hevents]; exact List.mem_cons_of_mem _ hx)
    · rw [Function.update_of_ne hr] at hx
      exact hl.active r x hx

theorem exists_mem_shuffle {event : Nat} {rest : List Nat} (hevents : L .events = event :: rest)
    {i : Nat} {xs ys : List Nat} (hL : L (.first i) = xs ++ ys) (x : Nat) :
    (∃ r, x ∈ Function.update (Function.update L .events rest) (.first i) (xs ++ event :: ys) r) ↔
      ∃ r, x ∈ L r := by
  constructor
  · rintro ⟨r, hx⟩
    by_cases hfirst : r = .first i
    · rw [hfirst, Function.update_self, List.mem_append, List.mem_cons] at hx
      rcases hx with hx | rfl | hx
      · exact ⟨.first i, by rw [hL]; exact List.mem_append_left _ hx⟩
      · exact ⟨.events, by rw [hevents]; exact List.mem_cons_self⟩
      · exact ⟨.first i, by rw [hL]; exact List.mem_append_right _ hx⟩
    · rw [Function.update_of_ne hfirst] at hx
      by_cases hr : r = .events
      · rw [hr, Function.update_self] at hx
        exact ⟨.events, by rw [hevents]; exact List.mem_cons_of_mem _ hx⟩
      · rw [Function.update_of_ne hr] at hx
        exact ⟨r, hx⟩
  · rintro ⟨r, hx⟩
    have hitem : x = event ∨ x ∈ xs ++ ys → x ∈ xs ++ event :: ys := by
      simp only [List.mem_append, List.mem_cons]
      tauto
    by_cases hfirst : r = .first i
    · refine ⟨.first i, ?_⟩
      rw [Function.update_self]
      exact hitem (.inr (hL ▸ hfirst ▸ hx))
    · by_cases hr : r = .events
      · rw [hr, hevents] at hx
        rcases List.mem_cons.mp hx with hx | hx
        · refine ⟨.first i, ?_⟩
          rw [Function.update_self]
          exact hitem (.inl hx)
        · refine ⟨.events, ?_⟩
          rwa [Function.update_of_ne (events_ne_first i), Function.update_self]
      · refine ⟨r, ?_⟩
        rwa [Function.update_of_ne hfirst, Function.update_of_ne hr]

/-- `shuffle[i].second` is the last event of the list of `shuffle[i].first`, and there are
`size` lists. -/
structure Shuffled (second : Nat → Option Nat) (size : Nat) (L : RaiseRoot → List Nat) : Prop where
  second : ∀ i, second i = (L (.first i)).getLast?
  size : ∀ i, size ≤ i → L (.first i) = []

theorem Shuffled.update {second : Nat → Option Nat} {size i : Nat} (hs : Shuffled second size L)
    (hi : i < size) {rest events : List Nat} {last : Option Nat} (hlast : events.getLast? = last) :
    Shuffled (Function.update second i last) size
      (Function.update (Function.update L .events rest) (.first i) events) := by
  constructor
  · intro j
    by_cases hj : j = i
    · rw [hj, Function.update_self, Function.update_self, hlast]
    · have hfirst : RaiseRoot.first j ≠ .first i := fun heq => hj (RaiseRoot.first.inj heq)
      rw [Function.update_of_ne hj, Function.update_of_ne hfirst,
        Function.update_of_ne (events_ne_first j).symm, hs.second]
  · intro j hj
    have hfirst : RaiseRoot.first j ≠ .first i := fun heq => by
      have heq := RaiseRoot.first.inj heq
      omega
    rw [Function.update_of_ne hfirst, Function.update_of_ne (events_ne_first j).symm, hs.size j hj]

/-- The third loop leaves no event in `events`. -/
theorem Linked.shuffleLoop (hl : h.Linked Set.univ L) {second : Nat → Option Nat} {size : Nat}
    (hs : Shuffled second size L) {rest : List Nat} (hevents : L .events = rest)
    (hsize : rest = [] ∨ 0 < size) {fuel : Nat} (hfuel : rest.length ≤ fuel) (rand : Stream' Nat) :
    ∃ g second' L', Events.shuffleLoop size fuel rest.head? (h, second) rand = some (g, second') ∧
      g.Linked Set.univ L' ∧ g.nodes = h.nodes ∧ Shuffled second' size L' ∧ L' .events = [] ∧
      ∀ x, (∃ r, x ∈ L' r) ↔ ∃ r, x ∈ L r := by
  induction rest generalizing h L second fuel rand with
  | nil =>
      refine ⟨h, second, L, ?_, hl, rfl, hs, hevents, fun _ => Iff.rfl⟩
      cases fuel <;> rfl
  | cons event rest ih =>
      cases fuel with
      | zero => cases hfuel
      | succ fuel =>
          have hfuel := Nat.le_of_succ_le_succ hfuel
          have hpos : 0 < size := hsize.resolve_left (List.cons_ne_nil _ _)
          have hchain := hl.raise.chain .events (Set.mem_univ _)
          rw [hevents] at hchain
          have hnext : h.linkRaise.load (.next event) = rest.head? := hchain.tail.head
          generalize hi : rand.head % size = i
          have hlt : i < size := hi ▸ Nat.mod_lt _ hpos
          have hitem := (hl.raise.chain (.first i) (Set.mem_univ _)).head
          -- The event goes between two parts of the list.
          have hmoved : ∀ (xs ys : List Nat) (last : Option Nat) (rand' : Stream' Nat),
              L (.first i) = xs ++ ys → (xs ++ event :: ys).getLast? = last →
              ∃ g second' L', Events.shuffleLoop size fuel rest.head?
                  ({ h with linkRaise := h.linkRaise.link event (endOf (.root (.first i)) xs) },
                    Function.update second i last) rand' = some (g, second') ∧
                g.Linked Set.univ L' ∧ g.nodes = h.nodes ∧ Shuffled second' size L' ∧
                L' .events = [] ∧ ∀ x, (∃ r, x ∈ L' r) ↔ ∃ r, x ∈ L r := by
            intro xs ys last rand' hL hlast
            have hevents' : Function.update (Function.update L .events rest) (.first i)
                (xs ++ event :: ys) .events = rest := by
              rw [Function.update_of_ne (events_ne_first i), Function.update_self]
            obtain ⟨g, second', L', hg, hgl, hnodes, hsL', hL', hmem⟩ :=
              ih (hl.shuffle hevents i hL) (hs.update hlt hlast) hevents' (.inr hpos) hfuel rand'
            refine ⟨g, second', L', hg, hgl, hnodes, hsL', hL', fun x => (hmem x).trans ?_⟩
            exact exists_mem_shuffle hevents hL x
          rw [List.head?_cons, Events.shuffleLoop]
          simp only [hi, hnext, if_neg hpos.ne']
          split
          · rename_i hnone
            have hnil : L (.first i) = [] := by
              rwa [hitem, Option.isNone_iff_eq_none, List.head?_eq_none_iff] at hnone
            exact hmoved [] [] (some event) rand.tail hnil rfl
          · rename_i hsome
            split
            · have hlast : ([] ++ event :: L (.first i)).getLast? = second i := by
                rw [hs.second, List.nil_append, List.getLast?_cons]
                cases hlast : (L (.first i)).getLast? with
                | none =>
                    rw [List.getLast?_eq_none_iff] at hlast
                    rw [hitem, hlast] at hsome
                    exact absurd rfl hsome
                | some last => rfl
              have hfront := hmoved [] (L (.first i)) (second i) rand.tail.tail rfl hlast
              rwa [Function.update_eq_self] at hfront
            · cases hlast : (L (.first i)).getLast? with
              | none =>
                  rw [List.getLast?_eq_none_iff] at hlast
                  rw [hitem, hlast] at hsome
                  exact absurd rfl hsome
              | some last =>
                  have hback := hmoved (L (.first i)) [] (some event) rand.tail.tail
                    (List.append_nil _).symm List.getLast?_concat
                  rw [hs.second, hlast, Option.bind_some]
                  rwa [endOf_of_getLast? _ hlast] at hback

/-- `events` and the lists of `shuffle[i]` and after it. -/
def rootsFrom (i : Nat) : Set RaiseRoot :=
  {r | ∀ j, r = .first j → i ≤ j}

theorem rootsFrom_succ (i : Nat) : rootsFrom i \ {.first i} = rootsFrom (i + 1) := by
  ext r
  constructor
  · rintro ⟨hr, hne⟩ j rfl
    have hle := hr j rfl
    have hji : j ≠ i := fun heq => hne (by rw [heq]; rfl)
    omega
  · intro hr
    refine ⟨fun j hj => (Nat.le_succ i).trans (hr j hj), ?_⟩
    rintro rfl
    exact absurd (hr i rfl) (Nat.not_succ_le_self i)

theorem Linked.join {i : Nat} (hl : h.Linked (rootsFrom i) L) :
    Linked { h with linkRaise :=
        h.linkRaise.splice (endOf (.root .events) (L .events)) (.root (.first i)) } (rootsFrom (i + 1))
      (Function.update (Function.update L .events (L .events ++ L (.first i))) (.first i) []) := by
  have hspliced := hl.raise.splice (events_ne_first i) (fun j hj => absurd hj (events_ne_first j))
    (fun j hj => (RaiseRoot.first.inj hj).le)
  rw [rootsFrom_succ] at hspliced
  refine hl.withRaise hspliced fun r x hx => ?_
  by_cases hfirst : r = .first i
  · rw [hfirst, Function.update_self] at hx
    cases hx
  · rw [Function.update_of_ne hfirst] at hx
    by_cases hr : r = .events
    · rw [hr, Function.update_self, List.mem_append] at hx
      rcases hx with hx | hx
      · exact hl.active .events x hx
      · exact hl.active (.first i) x hx
    · rw [Function.update_of_ne hr] at hx
      exact hl.active r x hx

theorem exists_mem_join (i x : Nat) :
    (∃ r, x ∈ Function.update (Function.update L .events (L .events ++ L (.first i))) (.first i) [] r)
      ↔ ∃ r, x ∈ L r := by
  constructor
  · rintro ⟨r, hx⟩
    by_cases hfirst : r = .first i
    · rw [hfirst, Function.update_self] at hx
      cases hx
    · rw [Function.update_of_ne hfirst] at hx
      by_cases hr : r = .events
      · rw [hr, Function.update_self] at hx
        exact (List.mem_append.mp hx).elim (fun hx => ⟨_, hx⟩) fun hx => ⟨_, hx⟩
      · rw [Function.update_of_ne hr] at hx
        exact ⟨r, hx⟩
  · rintro ⟨r, hx⟩
    have hevents : ∀ hmem : x ∈ L .events ++ L (.first i), ∃ r, x ∈ Function.update (Function.update L
        .events (L .events ++ L (.first i))) (.first i) [] r := by
      intro hmem
      refine ⟨.events, ?_⟩
      rwa [Function.update_of_ne (events_ne_first i), Function.update_self]
    by_cases hfirst : r = .first i
    · exact hevents (List.mem_append_right _ (hfirst ▸ hx))
    · by_cases hr : r = .events
      · exact hevents (List.mem_append_left _ (hr ▸ hx))
      · refine ⟨r, ?_⟩
        rwa [Function.update_of_ne hfirst, Function.update_of_ne hr]

theorem Linked.joinLoop {i : Nat} (hl : h.Linked (rootsFrom i) L) {second : Nat → Option Nat}
    (hs : ∀ j, i ≤ j → second j = (L (.first j)).getLast?) (rest : Nat) :
    ∃ g place L', Events.joinLoop second rest i (h, endOf (.root .events) (L .events)) =
        some (g, place) ∧
      g.Linked (rootsFrom (i + rest)) L' ∧ g.nodes = h.nodes ∧
      (∀ j, i + rest ≤ j → L' (.first j) = L (.first j)) ∧
      ∀ x, (∃ r, x ∈ L' r) ↔ ∃ r, x ∈ L r := by
  induction rest generalizing h L i with
  | zero => exact ⟨h, _, L, rfl, hl, rfl, fun _ _ => rfl, fun _ => Iff.rfl⟩
  | succ rest ih =>
      have hsum : i + (rest + 1) = (i + 1) + rest := by omega
      have hhead := (hl.raise.chain (.first i) fun j hj => (RaiseRoot.first.inj hj).le).head
      rw [hsum, Events.joinLoop]
      cases hfirst : L (.first i) with
      | nil =>
          have hrestricted := hl.withRaise (hl.raise.restrict (T := rootsFrom (i + 1))
            (fun r hr j hj => (Nat.le_succ i).trans (hr j hj)) fun r hr => by
              by_cases hri : r = .first i
              · rw [hri, hfirst]
              · refine hl.raise.empty r fun hin => hr fun j hj => ?_
                have hle := hin j hj
                have hne : j ≠ i := fun heq => hri (by rw [hj, heq])
                omega) hl.active
          obtain ⟨g, place, L', hg, hgl, hnodes, hkept, hmem⟩ := ih hrestricted fun j hj =>
            hs j ((Nat.le_succ i).trans hj)
          refine ⟨g, place, L', ?_, hgl, hnodes, hkept, hmem⟩
          rw [hhead, hfirst, if_neg (by simp)]
          exact hg
      | cons event events =>
          obtain ⟨last, hlast⟩ : ∃ last, (L (.first i)).getLast? = some last := by
            rw [hfirst, List.getLast?_cons]
            exact ⟨_, rfl⟩
          have hevents : Function.update (Function.update L .events (L .events ++ L (.first i)))
              (.first i) [] .events = L .events ++ L (.first i) := by
            rw [Function.update_of_ne (events_ne_first i), Function.update_self]
          have hfirsts : ∀ j, i + 1 ≤ j → Function.update (Function.update L .events
              (L .events ++ L (.first i))) (.first i) [] (.first j) = L (.first j) := by
            intro j hj
            have hne : RaiseRoot.first j ≠ .first i := fun heq => by
              have heq := RaiseRoot.first.inj heq
              omega
            rw [Function.update_of_ne hne, Function.update_of_ne (events_ne_first j).symm]
          obtain ⟨g, place, L', hg, hgl, hnodes, hkept, hmem⟩ := ih hl.join fun j hj => by
            rw [hfirsts j hj]
            exact hs j ((Nat.le_succ i).trans hj)
          refine ⟨g, place, L', ?_, hgl, hnodes, fun j hj => ?_, fun x => (hmem x).trans ?_⟩
          · rw [hhead, hfirst, List.head?_cons, if_pos (by rfl), hs i (le_refl i), hlast,
              Option.bind_some, ← endOf_of_getLast? (endOf (.root .events) (L .events)) hlast,
              ← endOf_append, ← hevents]
            exact hg
          · rw [hkept j hj, hfirsts j (by omega)]
          · exact exists_mem_join i x

/-- The events and their links between two calls of `doEvents`. -/
def WellFormed (h : Events) : Prop :=
  h.Linked ∅ fun _ => []

theorem Collected.isFirst {g : Events} {timeUs : Int} {seen events : List Nat} {count : Nat}
    {priority : Int} (hc : Collected g timeUs seen events count priority) (hnodes : g.nodes = h.nodes)
    {manager : Nat} (hseen : ∀ x, x ∈ seen ↔ h.IsReady manager x) (x : Nat) :
    (x ∈ events ∧ g.priority x = priority) ↔ h.IsFirst manager timeUs x := by
  have hc := hc.congr (g := h) hnodes.symm
  have hsame : g.priority x = h.priority x := by rw [Events.priority, Events.priority, hnodes]
  have hof : ∀ y, ∀ node ∈ h.nodes[y]?, h.priority y = node.priority := by
    intro y node hnode
    rw [Events.priority, Option.mem_def.mp hnode, Option.map_some, Option.getD_some]
  have hdue : ∀ y ∈ events, h.IsDue manager timeUs y := fun y hy =>
    ⟨(hseen y).mp (hc.due y hy).1, (hc.due y hy).2⟩
  rw [hsame]
  constructor
  · rintro ⟨hx, hpriority⟩
    refine ⟨hdue x hx, fun other hother => ?_⟩
    obtain ⟨hready, node, hnode, htime⟩ := hother
    rw [hpriority, hof other node hnode]
    exact (hc.highest other ((hseen other).mpr hready) node hnode htime).1
  · rintro ⟨⟨hready, node, hnode, htime⟩, hbest⟩
    obtain ⟨hle, hin, hne⟩ := hc.highest x ((hseen x).mpr hready) node hnode htime
    obtain ⟨y, hy, hpriority⟩ := hc.attained hne
    have hge := hbest y (hdue y hy)
    rw [hpriority, hof x node hnode] at hge
    have heq := le_antisymm hle hge
    exact ⟨hin heq, (hof x node hnode).trans heq⟩

theorem WellFormed.clearEvents (hw : h.WellFormed) : h.clearEvents.Linked {.events} fun _ => [] := by
  have hcleared : (h.linkRaise.store (.root .events) none).Represents (∅ ∪ {.events}) fun _ => [] := by
    refine hw.raise.clear (fun _ _ => rfl) (fun r hr => ?_) (fun r hr => ?_) (fun n => ?_) rfl
    · rw [Memory.store_load, if_pos (congrArg Place.root hr)]
    · rw [Memory.store_load, if_neg fun heq => hr (Place.root.inj heq)]
    · rw [Memory.store_load, if_neg (root_ne_next _ n).symm]
  rw [Set.empty_union] at hcleared
  exact hw.withRaise hcleared fun r x hx => (List.not_mem_nil hx).elim

theorem WellFormed.selectEvents (hw : h.WellFormed) (manager : Nat) (timeUs : Int)
    (rand : Stream' Nat) :
    ∃ g count L, h.selectEvents manager timeUs rand = some (g, count) ∧ g.Linked {.events} L ∧
      (L .events).length ≤ count ∧ ∀ x, x ∈ L .events ↔ h.IsFirst manager timeUs x := by
  have hstart := hw.clearEvents
  obtain ⟨R, hR, hmem⟩ := hstart.ready
  have hactive : ∀ x ∈ R manager, h.clearEvents.isActive x = true := fun x hx =>
    isActive_of_isReady ((hmem manager x).mp hx)
  have hnodup : ([] ++ R manager).Nodup := hR.nodup manager
  have hnone : Collected h.clearEvents timeUs [] [] 0 0 :=
    ⟨rfl, fun x hx => (List.not_mem_nil hx).elim, fun x hx => (List.not_mem_nil hx).elim,
      fun hne => absurd rfl hne⟩
  obtain ⟨g₁, count, priority, L₁, hg₁, hl₁, hnodes₁, hc₁⟩ := hstart.collectLoop timeUs
    (hR.chain manager (Set.mem_univ manager)) hactive hnodup
    (length_le_size (hR.nodup manager) fun x hx => mem_of_isActive (hactive x hx)) hnone
  rw [List.nil_append] at hc₁
  have hlength : ∀ (k : Events) (S : Set RaiseRoot) (L : RaiseRoot → List Nat), k.Linked S L →
      (L .events).length ≤ k.nodes.size := fun k S L hk =>
    length_le_size (hk.raise.nodup .events) fun x hx => mem_of_isActive (hk.active _ x hx)
  have hcount : (L₁ .events).length = count := hc₁.length
  have hevents₁ : L₁ .events = [] ++ L₁ .events := rfl
  obtain ⟨g₂, L₂, hg₂, hl₂, hnodes₂, hL₂⟩ := hl₁.skipLoop priority hevents₁ (hlength _ _ _ hl₁)
  rw [List.nil_append] at hL₂
  have hshuffled : Shuffled (fun _ => none) (L₂ .events).length L₂ := by
    have hempty : ∀ i, L₂ (.first i) = [] := fun i =>
      hl₂.raise.empty (.first i) (events_ne_first i).symm
    exact ⟨fun i => by rw [hempty]; rfl, fun i _ => hempty i⟩
  have hsize : L₂ .events = [] ∨ 0 < (L₂ .events).length := by
    rw [List.length_pos_iff]
    exact em _
  obtain ⟨g₃, second, L₃, hg₃, hl₃, -, hs₃, hL₃, hmem₃⟩ := hl₂.clearShuffle.shuffleLoop hshuffled
    rfl hsize (hlength _ _ _ hl₂) rand
  have hfrom : rootsFrom 0 = Set.univ := Set.eq_univ_of_forall fun r j _ => Nat.zero_le j
  obtain ⟨g₄, place, L₄, hg₄, hl₄, -, hkept₄, hmem₄⟩ := Linked.joinLoop (i := 0)
    (hfrom ▸ hl₃) (fun j _ => hs₃.second j) (L₂ .events).length
  rw [Nat.zero_add] at hl₄ hkept₄
  have hrest₄ : ∀ r, r ∉ ({.events} : Set RaiseRoot) → L₄ r = [] := by
    intro r hr
    cases r with
    | events => exact absurd rfl hr
    | first j =>
        by_cases hj : (L₂ .events).length ≤ j
        · rw [hkept₄ j hj]
          exact hs₃.size j hj
        · exact hl₄.raise.empty _ fun hin => hj (hin j rfl)
  have hl := hl₄.withRaise (hl₄.raise.restrict (T := {.events}) (fun r hr j hj => by
    have hevents : r = .events := hr
    rw [hevents] at hj
    exact absurd hj (events_ne_first j)) hrest₄) hl₄.active
  have hmem₂ : ∀ x, x ∈ L₂ .events ↔ h.IsFirst manager timeUs x := by
    intro x
    have hfirst := hc₁.isFirst hnodes₁ (hmem manager) x
    change _ ↔ h.clearEvents.IsFirst manager timeUs x
    rw [← hfirst, hL₂, List.mem_filter, decide_eq_true_eq]
  have hsame : ∀ x, x ∈ L₄ .events ↔ x ∈ L₂ .events := by
    intro x
    rw [← hl.mem_iff, hmem₄, hmem₃, hl₂.mem_iff]
  refine ⟨g₄, (L₂ .events).length, L₄, ?_, hl, ?_, fun x => (hsame x).trans (hmem₂ x)⟩
  · have hhead₁ := (hl₁.raise.chain .events rfl).head
    have hhead₂ := (hl₂.raise.chain .events rfl).head
    have hhead₃ := (hl₃.raise.chain .events (Set.mem_univ _)).head
    rw [hL₃, endOf_nil] at hg₄
    rw [hcount] at hg₂
    rw [hL₃, List.head?_nil] at hhead₃
    simp only [Events.selectEvents, hg₁, Option.bind_some, hhead₁, hg₂, hhead₂, hg₃, hhead₃,
      Option.isNone_none, if_true, hg₄, Option.map_some]
  · have hsub : L₄ .events ⊆ L₂ .events := fun x hx => (hsame x).mp hx
    exact (List.Nodup.subperm (hl₄.raise.nodup .events) hsub).length_le

end Select

section Round

variable {h : Events} {S : Set RaiseRoot} {L : RaiseRoot → List Nat}

theorem Linked.disable_head (hl : h.Linked S L) {event : Nat} {events : List Nat}
    (hevents : L .events = event :: events) :
    (L .events).filter (h.disable event).isActive = events := by
  have hsame : ∀ x, x ≠ event → (h.disable event).nodes[x]? = h.nodes[x]? := by
    intro x hx
    rw [disable_nodes]
    simp only [hx, if_false, Option.map_id']
  have hidle : (h.disable event).isActive event = false := by
    rw [isActive, disable_nodes]
    cases h.nodes[event]? with
    | none => rfl
    | some node => simp [Event.isEnabled]
  rw [← hl.erase_eq hsame hidle, hevents, List.erase_cons_head]

/-- The raise loop calls the events of the list until none is left. -/
theorem Linked.raiseLoop (hl : h.Linked S L) (hS : .events ∈ S) {fuel : Nat}
    (hfuel : (L .events).length ≤ fuel) (handlers : Stream' (List Op)) :
    ∃ g turns, Events.raiseLoop fuel (h.linkRaise.load (.root .events)) h handlers = some (g, turns) ∧
      Follows (L .events) turns ∧ ∃ L', g.Linked S L' ∧ L' .events = [] := by
  have hhead := (hl.raise.chain .events hS).head
  induction fuel generalizing h L handlers with
  | zero =>
      have hnil := List.length_eq_zero_iff.mp (Nat.le_zero.mp hfuel)
      rw [hnil] at hhead ⊢
      exact ⟨h, [], by rw [hhead]; rfl, .nil, L, hl, hnil⟩
  | succ fuel ih =>
      cases hevents : L .events with
      | nil =>
          rw [hevents] at hhead
          exact ⟨h, [], by rw [hhead]; rfl, .nil, L, hl, hevents⟩
      | cons event events =>
          have hactive := hl.active .events event (by rw [hevents]; exact List.mem_cons_self)
          obtain ⟨node, hnode, hflags⟩ : ∃ node, h.nodes[event]? = some node ∧
              (node.ready && node.isEnabled) = true := by
            cases hnode : h.nodes[event]? with
            | none =>
                rw [isActive, hnode] at hactive
                cases hactive
            | some node =>
                rw [isActive, hnode] at hactive
                exact ⟨node, rfl, hactive⟩
          have hdisabled : (h.disable event).Linked S fun r => (L r).filter (h.disable event).isActive :=
            hl.setTime (-1) true
          have hrest := hl.disable_head hevents
          obtain ⟨states, hstates, hlast⟩ :=
            hdisabled.states (if node.handler.isSome then handlers.head else [])
          have hlength : (((L .events).filter (h.disable event).isActive).filter fun x =>
              states.all fun g => g.isActive x).length ≤ fuel := by
            rw [hrest]
            rw [hevents] at hfuel
            exact (List.length_filter_le _ _).trans (Nat.le_of_succ_le_succ hfuel)
          obtain ⟨g, turns, hg, hfollows, hfinal⟩ := ih hlast hlength handlers.tail
            (hlast.raise.chain .events hS).head
          rw [hrest] at hfollows
          refine ⟨g, ⟨event, node.timeUs, states⟩ :: turns, ?_, .cons hfollows, hfinal⟩
          rw [hhead, hevents, List.head?_cons, Events.raiseLoop, hnode, Option.bind_some, if_pos hflags]
          simp only [hstates, Option.bind_some, hg, Option.map_some]

theorem nextTimeLoop_eq {fuel : Nat} {place : Place Nat Nat} {events : List Nat}
    (hchain : h.linkReady.Chain place events) (hin : ∀ x ∈ events, x ∈ h.nodes)
    (hfuel : events.length ≤ fuel) (start : Int) :
    ∃ least, nextTimeLoop fuel (h.linkReady.load place) h start = some least ∧ least ≤ start ∧
      (∀ x ∈ events, ∀ node ∈ h.nodes[x]?, least ≤ node.timeUs) ∧
      (least = start ∨ ∃ x ∈ events, ∃ node ∈ h.nodes[x]?, node.timeUs = least) := by
  induction events generalizing fuel place start with
  | nil =>
      refine ⟨start, ?_, le_refl _, fun x hx => (List.not_mem_nil hx).elim, .inl rfl⟩
      rw [hchain.head]
      cases fuel <;> rfl
  | cons event events ih =>
      cases fuel with
      | zero => cases hfuel
      | succ fuel =>
          obtain ⟨node, hnode⟩ := Option.isSome_iff_exists.mp
            (Std.ExtTreeMap.mem_iff_isSome_getElem?.mp (hin event List.mem_cons_self))
          obtain ⟨least, hleast, hstart, hall, hfound⟩ := ih hchain.tail
            (fun x hx => hin x (List.mem_cons_of_mem _ hx)) (Nat.le_of_succ_le_succ hfuel)
            (if node.timeUs < start then node.timeUs else start)
          refine ⟨least, ?_, ?_, ?_, ?_⟩
          · rw [hchain.head, List.head?_cons, nextTimeLoop, hnode, Option.bind_some]
            exact hleast
          · split at hstart <;> omega
          · intro x hx node' hnode'
            rcases List.mem_cons.mp hx with rfl | hx
            · obtain rfl := Option.some.inj (hnode.symm.trans hnode')
              split at hstart <;> omega
            · exact hall x hx node' hnode'
          · rcases hfound with heq | ⟨x, hx, node', hnode', heq⟩
            · split at heq
              · exact .inr ⟨event, List.mem_cons_self, node, hnode, heq.symm⟩
              · exact .inl heq
            · exact .inr ⟨x, List.mem_cons_of_mem _ hx, node', hnode', heq⟩

/-- The time of the next event of a manager. -/
def IsNextTime (h : Events) (manager : Nat) (nextTimeUs : Int) : Prop :=
  ((∀ event, ¬h.IsReady manager event) ∧ nextTimeUs = -1) ∨
    ((∃ event, h.IsReady manager event ∧ ∃ node ∈ h.nodes[event]?, node.timeUs = nextTimeUs) ∧
      ∀ event, h.IsReady manager event → ∀ node ∈ h.nodes[event]?, nextTimeUs ≤ node.timeUs)

theorem Linked.nextTime (hl : h.Linked S L) (manager : Nat) :
    ∃ nextTimeUs, h.nextTime manager = some nextTimeUs ∧ h.IsNextTime manager nextTimeUs := by
  obtain ⟨R, hR, hmem⟩ := hl.ready
  have hchain := hR.chain manager (Set.mem_univ manager)
  have hin : ∀ x ∈ R manager, x ∈ h.nodes := fun x hx =>
    mem_of_isActive (isActive_of_isReady ((hmem manager x).mp hx))
  have hhead := hchain.head
  cases hevents : R manager with
  | nil =>
      refine ⟨-1, ?_, .inl ⟨fun event hready => ?_, rfl⟩⟩
      · rw [hevents, List.head?_nil] at hhead
        simp only [Events.nextTime, hhead]
      · rw [← hmem, hevents] at hready
        cases hready
  | cons event events =>
      have hfirst : event ∈ R manager := by
        rw [hevents]
        exact List.mem_cons_self
      obtain ⟨node, hnode⟩ := Option.isSome_iff_exists.mp
        (Std.ExtTreeMap.mem_iff_isSome_getElem?.mp (hin event hfirst))
      obtain ⟨least, hleast, -, hall, hfound⟩ := nextTimeLoop_eq hchain hin
        (length_le_size (hR.nodup manager) hin) node.timeUs
      refine ⟨least, ?_, .inr ⟨?_, fun x hx => hall x ((hmem manager x).mpr hx)⟩⟩
      · rw [hhead, hevents, List.head?_cons] at hleast
        rw [hevents, List.head?_cons] at hhead
        simp only [Events.nextTime, hhead, hnode, Option.bind_some]
        exact hleast
      · rcases hfound with heq | ⟨x, hx, node', hnode', heq⟩
        · exact ⟨event, (hmem manager event).mp hfirst, node, hnode, heq.symm⟩
        · exact ⟨x, (hmem manager x).mp hx, node', hnode', heq⟩

/-- A call of `doEvents`: the calls it makes, and what it returns. -/
structure Round (h : Events) (manager : Nat) (timeUs : Int) (g : Events) (turns : List Turn)
    (nextTimeUs : Int) : Prop where
  /-- Only the first of the due events are raised, -/
  first : ∀ turn ∈ turns, h.IsFirst manager timeUs turn.event
  /-- each at most once, -/
  once : (turns.map Turn.event).Nodup
  /-- and not at all when the handler of another one has made it inactive, -/
  active : ∀ before turn after, turns = before ++ turn :: after →
    ∀ earlier ∈ before, ∀ k ∈ earlier.states, k.isActive turn.event = true
  /-- but only then. -/
  stopped : ∀ event, h.IsFirst manager timeUs event → event ∉ turns.map Turn.event →
    ∃ turn ∈ turns, ∃ k ∈ turn.states, k.isActive event = false
  nextTime : g.IsNextTime manager nextTimeUs
  wellFormed : g.WellFormed

theorem WellFormed.round (hw : h.WellFormed) (manager : Nat) (timeUs : Int) (rand : Stream' Nat)
    (handlers : Stream' (List Op)) :
    ∃ g turns nextTimeUs, h.doEvents manager timeUs rand handlers = some (g, turns, nextTimeUs) ∧
      Round h manager timeUs g turns nextTimeUs := by
  obtain ⟨k, count, L, hk, hkl, hcount, hmem⟩ := hw.selectEvents manager timeUs rand
  obtain ⟨g, turns, hg, hfollows, L', hgl, hL'⟩ := hkl.raiseLoop rfl hcount handlers
  obtain ⟨nextTimeUs, hnext, hleast⟩ := hgl.nextTime manager
  refine ⟨g, turns, nextTimeUs, ?_, ?_, ?_, ?_, ?_, hleast, ?_⟩
  · simp only [doEvents, hk, Option.bind_some, hg, hnext, Option.map_some]
  · intro turn hturn
    exact (hmem _).mp (hfollows.sublist.subset (List.mem_map_of_mem hturn))
  · exact (hkl.raise.nodup .events).sublist hfollows.sublist
  · exact fun before turn after heq => hfollows.active heq
  · exact fun event hfirst hnot => hfollows.stopped ((hmem event).mpr hfirst) hnot
  · have hempty : L' = fun _ => [] := by
      funext r
      by_cases hr : r = .events
      · rw [hr, hL']
      · exact hgl.raise.empty r hr
    subst hempty
    exact hgl.withRaise (hgl.raise.restrict (Set.empty_subset _) fun _ _ => rfl) hgl.active

/-- `doEvents` ends, without a failed `assert`, and makes a round. -/
theorem doEvents_round (hw : h.WellFormed) (manager : Nat) (timeUs : Int) (rand : Stream' Nat)
    (handlers : Stream' (List Op)) :
    ∃ g turns nextTimeUs, h.doEvents manager timeUs rand handlers = some (g, turns, nextTimeUs) ∧
      Round h manager timeUs g turns nextTimeUs :=
  hw.round manager timeUs rand handlers

theorem wellFormed_blank : blank.WellFormed := by
  refine ⟨⟨_, Memory.represents_empty _, fun manager event => ?_⟩, Memory.represents_empty _,
    fun r x hx => (List.not_mem_nil hx).elim, ⟨_, Memory.represents_empty _, fun source x hx =>
      (List.not_mem_nil hx).elim⟩⟩
  refine ⟨fun hx => (List.not_mem_nil hx).elim, fun ⟨node, hnode, _⟩ => ?_⟩
  rw [blank, Std.ExtTreeMap.getElem?_empty] at hnode
  cases hnode

theorem WellFormed.states (hw : h.WellFormed) (ops : List Op) :
    ∃ states, h.states ops = some states ∧ (states.getLast?.getD h).WellFormed := by
  obtain ⟨states, hstates, hlast⟩ := Linked.states hw ops
  exact ⟨states, hstates, hlast⟩

/-- Four events of which two are due with the highest priority, and one more that is due. -/
def sampleOps : List Op :=
  [.construct 1, .init 1 1 0 none 0, .construct 2, .init 2 1 0 none 1, .construct 3,
    .constructSource 0, .init 3 1 0 (some 0) 1, .setSourceReady 0 true, .construct 4,
    .init 4 1 0 none 2, .setTime 1 0 false, .setTime 2 1 false, .setTime 3 2 false,
    .setTime 4 9 false]

/-- The first handler that runs makes the source of event 3 not ready, and then ready again. -/
def sampleHandlers : Stream' (List Op) := fun n =>
  if n = 0 then [.setSourceReady 0 false, .setSourceReady 0 true] else []

theorem doEvents_sample : ((blank.states sampleOps).bind fun states =>
    (states.getLast?.getD blank).doEvents 0 3 (fun n => n) sampleHandlers).map
      (fun (_, turns, nextTimeUs) => (turns.map Turn.event, nextTimeUs)) = some ([2], 0) := by
  decide +kernel

/-- The event whose source was not ready for a while is not raised. -/
theorem doEvents_round_sample :
    ∃ h g turns nextTimeUs,
      h.doEvents 0 3 (fun n => n) sampleHandlers = some (g, turns, nextTimeUs) ∧
      turns.map Turn.event = [2] ∧ nextTimeUs = 0 ∧ Round h 0 3 g turns nextTimeUs := by
  obtain ⟨states, hstates, hw⟩ := wellFormed_blank.states sampleOps
  obtain ⟨g, turns, nextTimeUs, hround, hcorrect⟩ :=
    doEvents_round hw 0 3 (fun n => n) sampleHandlers
  have hsample := doEvents_sample
  rw [hstates, Option.bind_some, hround, Option.map_some, Option.some.injEq, Prod.mk.injEq] at hsample
  exact ⟨_, g, turns, nextTimeUs, hround, hsample.1, hsample.2, hcorrect⟩

end Round

end IceTunnel.Events
