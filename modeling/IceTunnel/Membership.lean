import IceTunnel.Rounds
import IceTunnel.Foundation.Runs

namespace IceTunnel.Events

open Chains

/-- The event and the source exist and have the same `ready`. -/
def Agrees (h : Events) (source event : Nat) : Prop :=
  ∃ node, h.nodes[event]? = some node ∧ h.sources[source]? = some node.ready

/-- The lists of the sources have events that agree with them. -/
structure Sourced (h : Events) (Q : Nat → List Nat) : Prop where
  represents : h.linkSource.Represents Set.univ Q
  agrees : ∀ source event, event ∈ Q source → h.Agrees source event

section Operations

variable {h g : Events} {Q : Nat → List Nat} {event : Nat}

theorem Agrees.mem {source : Nat} (hagrees : h.Agrees source event) : event ∈ h.nodes := by
  obtain ⟨node, hnode, -⟩ := hagrees
  rw [Std.ExtTreeMap.mem_iff_isSome_getElem?, hnode]
  rfl

theorem Agrees.congr {source : Nat} (hagrees : h.Agrees source event)
    (hnodes : (g.nodes[event]?).map Node.ready = (h.nodes[event]?).map Node.ready)
    (hsources : g.sources[source]? = h.sources[source]?) : g.Agrees source event := by
  obtain ⟨node, hnode, hsource⟩ := hagrees
  rw [hnode, Option.map_some] at hnodes
  obtain ⟨node', hnode', hready⟩ := Option.map_eq_some_iff.mp hnodes
  exact ⟨node', hnode', by rw [hsources, hsource, hready]⟩

theorem Sourced.frame (hs : h.Sourced Q) (hlink : g.linkSource = h.linkSource)
    (hnodes : ∀ source x, x ∈ Q source →
      (g.nodes[x]?).map Node.ready = (h.nodes[x]?).map Node.ready)
    (hsources : ∀ source x, x ∈ Q source → g.sources[source]? = h.sources[source]?) :
    g.Sourced Q := by
  refine ⟨hlink ▸ hs.represents, fun source x hx => ?_⟩
  exact (hs.agrees source x hx).congr (hnodes source x hx) (hsources source x hx)

theorem Sourced.setNodes (hs : h.Sourced Q) (hfree : ∀ source, event ∉ Q source)
    {nodes : Std.ExtTreeMap Nat Node} (hnodes : ∀ x, x ≠ event → nodes[x]? = h.nodes[x]?) :
    Sourced { h with nodes := nodes } Q := by
  refine hs.frame rfl (fun source x hx => ?_) fun _ _ _ => rfl
  have hne : x ≠ event := by
    rintro rfl
    exact hfree source hx
  change (nodes[x]?).map Node.ready = _
  rw [hnodes x hne]

theorem setTime_ready (h : Events) (event : Nat) (timeUs : Int) (force : Bool) (x : Nat) :
    ((h.setTime event timeUs force).nodes[x]?).map Node.ready = (h.nodes[x]?).map Node.ready := by
  simp only [setTime]
  split
  · rfl
  · rename_i node hnode
    split
    · rfl
    · split
      · rw [updateReady_nodes, Std.ExtTreeMap.getElem?_insert]
        by_cases hx : x = event
        · subst hx
          simp [hnode]
        · simp [Ne.symm hx]
      · rfl

theorem Sourced.setTime (hs : h.Sourced Q) (event : Nat) (timeUs : Int) (force : Bool) :
    (h.setTime event timeUs force).Sourced Q := by
  apply hs.frame
  · simp only [Events.setTime]
    repeat' split
    all_goals simp only [updateReady_linkSource]
  · exact fun _ x _ => h.setTime_ready event timeUs force x
  · intro source x _
    simp only [Events.setTime]
    repeat' split
    all_goals simp only [updateReady_sources]

theorem Sourced.unlink (hs : h.Sourced Q) (event : Nat) :
    ∃ Q', (h.unlink event).Sourced Q' ∧ ∀ source, event ∉ Q' source := by
  cases hnode : h.nodes[event]? with
  | none =>
      have heq : h.unlink event = h := by
        simp only [Events.unlink, hnode]
      rw [heq]
      refine ⟨Q, hs, fun source hx => ?_⟩
      have hmem := (hs.agrees source event hx).mem
      rw [Std.ExtTreeMap.mem_iff_isSome_getElem?, hnode] at hmem
      cases hmem
  | some node =>
      refine ⟨fun source => (Q source).erase event, ⟨?_, fun source x hx => ?_⟩,
        fun source => (hs.represents.nodup source).not_mem_erase⟩
      · simp only [Events.unlink, hnode]
        exact hs.represents.unlink event
      · obtain ⟨hne, hin⟩ := (hs.represents.nodup source).mem_erase_iff.mp hx
        refine (hs.agrees source x hin).congr ?_ ?_
        · rw [h.unlink_nodes_of_ne event hne]
        · simp only [Events.unlink, hnode]

@[simp] theorem setReady_sources (h : Events) (event : Nat) (value : Bool) :
    (h.setReady event value).sources = h.sources := by
  simp only [setReady]
  repeat' split
  · rfl
  · rw [updateReady_sources]
  · rfl

theorem Sourced.setReady (hs : h.Sourced Q) (hfree : ∀ source, event ∉ Q source) (value : Bool) :
    (h.setReady event value).Sourced Q := by
  apply hs.frame (h.setReady_linkSource event value)
  · intro source x hx
    have hne : x ≠ event := by
      rintro rfl
      exact hfree source hx
    rw [setReady_nodes]
    simp only [hne, if_false, Option.map_id']
  · intro source x _
    rw [setReady_sources]

theorem Sourced.link (hs : h.Sourced Q) (hfree : ∀ source, event ∉ Q source) {node : Node}
    (hnode : h.nodes[event]? = some node) {source : Nat} {value : Bool}
    (hsource : h.sources[source]? = some value) :
    ∃ Q', Sourced (Events.setReady { h with
      linkSource := h.linkSource.link event (.root source) } event value) Q' := by
  have hlink := Events.setReady_linkSource { h with
    linkSource := h.linkSource.link event (.root source) } event value
  have hsources := Events.setReady_sources { h with
    linkSource := h.linkSource.link event (.root source) } event value
  have hnodes := Events.setReady_nodes { h with
    linkSource := h.linkSource.link event (.root source) } event value
  generalize Events.setReady { h with
    linkSource := h.linkSource.link event (.root source) } event value = g at hlink hsources hnodes
  have hrepresents : g.linkSource.Represents Set.univ
      (Function.update Q source ([] ++ event :: Q source)) := by
    rw [hlink]
    exact hs.represents.link hfree (Set.mem_univ source) (List.nil_append _).symm
  have hother : ∀ source' x, x ∈ Q source' → g.Agrees source' x := by
    intro source' x hin
    have hne : x ≠ event := by
      rintro rfl
      exact hfree source' hin
    refine (hs.agrees source' x hin).congr ?_ ?_
    · rw [hnodes]
      simp only [hne, if_false, Option.map_id']
    · rw [hsources]
  refine ⟨_, hrepresents, fun source' x hx => ?_⟩
  by_cases heq : source' = source
  · subst heq
    rw [Function.update_self, List.nil_append] at hx
    rcases List.mem_cons.mp hx with rfl | hin
    · refine ⟨{ node with ready := value }, ?_, ?_⟩
      · rw [hnodes]
        simp only [hnode, Option.map_some, if_true]
      · rw [hsources]
        exact hsource
    · exact hother source' x hin
  · rw [Function.update_of_ne heq] at hx
    exact hother source' x hx

theorem Sourced.init (hs : h.Sourced Q) (handler manager : Nat) {source : Option Nat}
    (hsource : source.all (· ∈ h.sources) = true) (priority : Int) :
    ∃ Q', (h.init event handler manager source priority).Sourced Q' := by
  cases hnode : h.nodes[event]? with
  | none =>
      simp only [Events.init, hnode]
      exact ⟨Q, hs⟩
  | some old =>
      let node : Node := { handler := some handler, manager := some manager, priority := priority }
      let g : Events := { h.unlink event with nodes := (h.unlink event).nodes.insert event node }
      obtain ⟨Q', hunlinked, hfree⟩ := hs.unlink event
      have hg : g.Sourced Q' := hunlinked.setNodes hfree fun x hx => by
        rw [Std.ExtTreeMap.getElem?_insert, if_neg (by simpa using Ne.symm hx)]
      cases source with
      | none =>
          simp only [Events.init, hnode]
          exact ⟨Q', hg.setReady hfree true⟩
      | some source =>
          have hsources : g.sources = h.sources := by
            simp only [g, Events.unlink, hnode]
          have hmem : source ∈ h.sources := by simpa using hsource
          have hvalue : g.sources[source]? = some (g.sources.getD source false) := by
            rw [hsources, Std.ExtTreeMap.getD_eq_getD_getElem?]
            obtain ⟨value, hvalue⟩ := Option.isSome_iff_exists.mp
              (Std.ExtTreeMap.mem_iff_isSome_getElem?.mp hmem)
            rw [hvalue, Option.getD_some]
          simp only [Events.init, hnode]
          exact hg.link hfree Std.ExtTreeMap.getElem?_insert_self hvalue

theorem setReadyLoop_frame {value : Bool} {fuel : Nat} {place : Option Nat}
    (hg : setReadyLoop value fuel place h = some g) :
    g.linkSource = h.linkSource ∧ g.sources = h.sources := by
  induction fuel generalizing h place with
  | zero =>
      cases place with
      | none =>
          obtain rfl := Option.some.inj hg
          exact ⟨rfl, rfl⟩
      | some event => cases hg
  | succ fuel ih =>
      cases place with
      | none =>
          obtain rfl := Option.some.inj hg
          exact ⟨rfl, rfl⟩
      | some event =>
          rw [setReadyLoop] at hg
          split at hg
          · obtain ⟨hlink, hsources⟩ := ih hg
            rw [setReady_linkSource] at hlink
            rw [setReady_sources] at hsources
            exact ⟨hlink, hsources⟩
          · cases hg

theorem Sourced.setSourceReady {S : Set RaiseRoot} {L : RaiseRoot → List Nat} (hs : h.Sourced Q)
    (hl : h.Linked S L) {source : Nat} {value : Bool}
    (hg : h.setSourceReady source value = some g) : g.Sourced Q := by
  simp only [Events.setSourceReady] at hg
  split at hg
  · obtain rfl := Option.some.inj hg
    exact hs
  · split at hg
    · obtain rfl := Option.some.inj hg
      exact hs
    · have hin : ∀ x ∈ Q source, x ∈ h.nodes := fun x hx => (hs.agrees source x hx).mem
      obtain ⟨g', hg', -, hnodes⟩ := (hl.withSources (h.sources.insert source value)).setReadyLoop
        value (hs.represents.chain source (Set.mem_univ source)) hin
        (length_le_size (hs.represents.nodup source) hin)
      obtain rfl := Option.some.inj (hg.symm.trans hg')
      obtain ⟨hlink, hsources⟩ := setReadyLoop_frame hg
      refine ⟨hlink ▸ hs.represents, fun source' x hx => ?_⟩
      obtain ⟨node, hnode, hsource⟩ := hs.agrees source' x hx
      by_cases heq : source' = source
      · subst heq
        refine ⟨{ node with ready := value }, ?_, ?_⟩
        · rw [hnodes, hnode, Option.map_some, if_pos hx]
        · rw [hsources, Std.ExtTreeMap.getElem?_insert_self]
      · refine ⟨node, ?_, ?_⟩
        · rw [hnodes, hnode, Option.map_some, if_neg (hs.represents.not_mem (Ne.symm heq) hx)]
        · rw [hsources, Std.ExtTreeMap.getElem?_insert, if_neg (by simpa using Ne.symm heq)]
          exact hsource

theorem Sourced.unlinkLoop (hs : h.Sourced Q) {source fuel : Nat}
    (hg : Events.unlinkLoop source fuel (h.linkSource.load (.root source)) h = some g) :
    ∃ Q', g.Sourced Q' ∧ Q' source = [] := by
  have hhead := (hs.represents.chain source (Set.mem_univ source)).head
  have hend : h.linkSource.load (.root source) = none → Q source = [] := by
    intro hnone
    rw [hhead] at hnone
    exact List.head?_eq_none_iff.mp hnone
  induction fuel generalizing h Q with
  | zero =>
      cases hplace : h.linkSource.load (.root source) with
      | none =>
          rw [hplace] at hg
          obtain rfl := Option.some.inj hg
          exact ⟨Q, hs, hend hplace⟩
      | some event =>
          rw [hplace] at hg
          cases hg
  | succ fuel ih =>
      cases hplace : h.linkSource.load (.root source) with
      | none =>
          rw [hplace] at hg
          obtain rfl := Option.some.inj hg
          exact ⟨Q, hs, hend hplace⟩
      | some event =>
          rw [hplace, Events.unlinkLoop] at hg
          split at hg
          · have hnext : Sourced { h with linkSource := h.linkSource.unlink event } fun source =>
                (Q source).erase event :=
              ⟨hs.represents.unlink event, fun source' x hx =>
                hs.agrees source' x (List.mem_of_mem_erase hx)⟩
            have hhead' := (hnext.represents.chain source (Set.mem_univ source)).head
            refine ih hnext hg hhead' fun hnone => ?_
            rw [hhead'] at hnone
            exact List.head?_eq_none_iff.mp hnone
          · cases hg

theorem Sourced.apply {S : Set RaiseRoot} {L : RaiseRoot → List Nat} (hs : h.Sourced Q)
    (hl : h.Linked S L) {op : Op} (hg : h.apply op = some g) : ∃ Q', g.Sourced Q' := by
  cases op with
  | construct event =>
      obtain rfl := Option.some.inj hg
      split
      · exact ⟨Q, hs⟩
      · rename_i hnew
        have hfree : ∀ source, event ∉ Q source := fun source hx =>
          hnew (hs.agrees source event hx).mem
        refine ⟨Q, hs.setNodes hfree fun x hx => ?_⟩
        rw [Std.ExtTreeMap.getElem?_insert, if_neg (by simpa using Ne.symm hx)]
  | init event handler manager source priority =>
      obtain rfl := Option.some.inj hg
      split
      · rename_i hsource
        exact hs.init handler manager hsource priority
      · exact ⟨Q, hs⟩
  | destroy event =>
      obtain rfl := Option.some.inj hg
      obtain ⟨Q', hunlinked, hfree⟩ := hs.unlink event
      refine ⟨Q', hunlinked.setNodes hfree fun x hx => ?_⟩
      rw [Std.ExtTreeMap.getElem?_erase, if_neg (by simpa using Ne.symm hx)]
  | setTime event timeUs force =>
      obtain rfl := Option.some.inj hg
      exact ⟨Q, hs.setTime event timeUs force⟩
  | disable event =>
      obtain rfl := Option.some.inj hg
      exact ⟨Q, hs.setTime event (-1) true⟩
  | constructSource source =>
      obtain rfl := Option.some.inj hg
      split
      · exact ⟨Q, hs⟩
      · rename_i hnew
        refine ⟨Q, hs.frame rfl (fun _ _ _ => rfl) fun source' x hx => ?_⟩
        have hne : source ≠ source' := by
          rintro rfl
          obtain ⟨node, -, hsource⟩ := hs.agrees source x hx
          rw [Std.ExtTreeMap.getElem?_eq_none hnew] at hsource
          cases hsource
        change (h.sources.insert source false)[source']? = _
        rw [Std.ExtTreeMap.getElem?_insert, if_neg (by simpa using hne)]
  | setSourceReady source value => exact ⟨Q, hs.setSourceReady hl hg⟩
  | destroySource source =>
      simp only [Events.apply] at hg
      split at hg
      · obtain ⟨k, hk, hrest⟩ := Option.bind_eq_some_iff.mp hg
        obtain ⟨k', hk', rfl⟩ := Option.map_eq_some_iff.mp hrest
        obtain ⟨Q', hs', hempty⟩ := (hs.setSourceReady hl hk).unlinkLoop hk'
        refine ⟨Q', hs'.frame rfl (fun _ _ _ => rfl) fun source' x hx => ?_⟩
        have hne : source ≠ source' := by
          rintro rfl
          rw [hempty] at hx
          cases hx
        change (k'.sources.erase source)[source']? = _
        rw [Std.ExtTreeMap.getElem?_erase, if_neg (by simpa using hne)]
      · obtain rfl := Option.some.inj hg
        exact ⟨Q, hs⟩

end Operations

/-- Nothing differs but the links of `LinkRaise`. -/
def Relinks (h g : Events) : Prop :=
  ∃ m, g = { h with linkRaise := m }

section Select

variable {h g k : Events} {timeUs : Int}

theorem Relinks.refl (h : Events) : h.Relinks h :=
  ⟨h.linkRaise, rfl⟩

theorem Relinks.trans (hg : h.Relinks g) (hk : g.Relinks k) : h.Relinks k := by
  obtain ⟨m, rfl⟩ := hg
  obtain ⟨m', rfl⟩ := hk
  exact ⟨m', rfl⟩

theorem collectLoop_relinks {fuel : Nat} {place : Option Nat} {collected collected' : Events × Nat × Int}
    (hg : collectLoop timeUs fuel place collected = some collected') :
    collected.1.Relinks collected'.1 := by
  induction fuel generalizing place collected with
  | zero =>
      cases place with
      | none =>
          cases hg
          exact .refl _
      | some event => cases hg
  | succ fuel ih =>
      cases place with
      | none =>
          cases hg
          exact .refl _
      | some event =>
          obtain ⟨node, -, hrest⟩ := Option.bind_eq_some_iff.mp hg
          refine .trans ?_ (ih hrest)
          by_cases hdue : node.timeUs ≤ timeUs
          · simp only [hdue, if_true]
            repeat' split
            all_goals exact ⟨_, rfl⟩
          · simp only [hdue, if_false]
            exact .refl _

theorem skipLoop_relinks {priority : Int} {fuel : Nat} {place : Option Nat} {count count' : Nat}
    (hg : skipLoop priority fuel place (h, count) = some (g, count')) : h.Relinks g := by
  induction fuel generalizing h place count with
  | zero =>
      cases place with
      | none =>
          cases hg
          exact .refl _
      | some event => cases hg
  | succ fuel ih =>
      cases place with
      | none =>
          cases hg
          exact .refl _
      | some event =>
          obtain ⟨node, -, hrest⟩ := Option.bind_eq_some_iff.mp hg
          dsimp only at hrest
          split at hrest
          · exact ih hrest
          · exact .trans ⟨_, rfl⟩ (ih hrest)

theorem shuffleLoop_relinks {size fuel : Nat} {place : Option Nat} {second second' : Nat → Option Nat}
    {rand : Stream' Nat}
    (hg : shuffleLoop size fuel place (h, second) rand = some (g, second')) : h.Relinks g := by
  induction fuel generalizing h place second rand with
  | zero =>
      cases place with
      | none =>
          cases hg
          exact .refl _
      | some event => cases hg
  | succ fuel ih =>
      cases place with
      | none =>
          cases hg
          exact .refl _
      | some event =>
          simp only [shuffleLoop] at hg
          split at hg
          · cases hg
          · split at hg
            · exact .trans ⟨_, rfl⟩ (ih hg)
            · split at hg
              · exact .trans ⟨_, rfl⟩ (ih hg)
              · obtain ⟨last, -, hrest⟩ := Option.bind_eq_some_iff.mp hg
                exact .trans ⟨_, rfl⟩ (ih hrest)

theorem joinLoop_relinks {second : Nat → Option Nat} {rest i : Nat} {place place' : Place RaiseRoot Nat}
    (hg : joinLoop second rest i (h, place) = some (g, place')) : h.Relinks g := by
  induction rest generalizing h place i with
  | zero =>
      cases hg
      exact .refl _
  | succ rest ih =>
      simp only [joinLoop] at hg
      split at hg
      · obtain ⟨last, -, hrest⟩ := Option.bind_eq_some_iff.mp hg
        exact .trans ⟨_, rfl⟩ (ih hrest)
      · exact ih hg

theorem selectEvents_relinks {manager : Nat} {rand : Stream' Nat} {count : Nat}
    (hg : h.selectEvents manager timeUs rand = some (g, count)) : h.Relinks g := by
  obtain ⟨⟨g₁, count₁, priority⟩, h₁, hg⟩ := Option.bind_eq_some_iff.mp hg
  obtain ⟨⟨g₂, count₂⟩, h₂, hg⟩ := Option.bind_eq_some_iff.mp hg
  obtain ⟨⟨g₃, second⟩, h₃, hg⟩ := Option.bind_eq_some_iff.mp hg
  dsimp only at hg
  split at hg
  · obtain ⟨⟨g₄, place⟩, h₄, heq⟩ := Option.map_eq_some_iff.mp hg
    obtain ⟨rfl, rfl⟩ := Prod.mk.inj heq
    have hcleared : h.Relinks h.clearEvents := ⟨_, rfl⟩
    have hshuffle : g₂.Relinks g₂.clearShuffle := ⟨_, rfl⟩
    exact hcleared.trans <| (collectLoop_relinks h₁).trans <| (skipLoop_relinks h₂).trans <|
      hshuffle.trans <| (shuffleLoop_relinks h₃).trans (joinLoop_relinks h₄)
  · cases hg

end Select

/-- What happens to events: an operation, a call of `raise()` up to the handler, whose
operations come next, or a call of `doEvents` up to the raise loop. -/
inductive Move
  | op (op : Op)
  | raise (event : Nat)
  | select (manager : Nat) (timeUs : Int) (rand : Stream' Nat)

/-- A call of `doEvents` begins when no other has events to raise. -/
def step (h : Events) : Move → Option Events
  | .op op => h.apply op
  | .raise event => some (h.disable event)
  | .select manager timeUs rand =>
      if (h.linkRaise.load (.root .events)).isNone then
        (h.selectEvents manager timeUs rand).map Prod.fst
      else none

/-- The lists of the managers, the list of `doEvents` and those of the sources. -/
structure Consistent (h : Events) (R : Nat → List Nat) (L : RaiseRoot → List Nat)
    (Q : Nat → List Nat) : Prop where
  /-- All links belong to lists, which end, and none has an event twice. -/
  listReady : h.linkReady.Represents Set.univ R
  events : h.linkRaise.Represents {.events} L
  list : h.linkSource.Represents Set.univ Q
  /-- The pointers of each link type lead back. -/
  doublyReady : h.linkReady.Doubly
  doublyRaise : h.linkRaise.Doubly
  doublySource : h.linkSource.Doubly
  /-- No list has a destroyed event. -/
  alive : ∀ event, (∃ manager, event ∈ R manager) ∨ (∃ r, event ∈ L r) ∨ (∃ source, event ∈ Q source) →
    event ∈ h.nodes
  ready : ∀ manager event, event ∈ R manager ↔ h.IsReady manager event
  active : ∀ event ∈ L .events, h.isActive event = true
  agrees : ∀ source event, event ∈ Q source → h.Agrees source event

section Run

variable {h g : Events} {L : RaiseRoot → List Nat} {Q : Nat → List Nat}

theorem Linked.consistent_of_sourced (hl : h.Linked {.events} L) (hs : h.Sourced Q) :
    ∃ R, h.Consistent R L Q := by
  obtain ⟨R, hR, hmem⟩ := hl.ready
  refine ⟨R, hR, hl.raise, hs.represents, hR.doubly, hl.raise.doubly, hs.represents.doubly, ?_, hmem,
    hl.active .events, hs.agrees⟩
  rintro event (⟨manager, hin⟩ | ⟨r, hin⟩ | ⟨source, hin⟩)
  · exact mem_of_isActive (isActive_of_isReady ((hmem manager event).mp hin))
  · exact mem_of_isActive (hl.active r event hin)
  · exact (hs.agrees source event hin).mem

/-- When the list of `doEvents` is empty no event is to be raised. -/
theorem Linked.wellFormed (hl : h.Linked {.events} L)
    (hempty : (h.linkRaise.load (.root .events)).isNone = true) : h.WellFormed := by
  have hnil : L = fun _ => [] := by
    funext r
    by_cases hr : r = .events
    · subst hr
      rw [(hl.raise.chain .events rfl).head, Option.isNone_iff_eq_none] at hempty
      exact List.head?_eq_none_iff.mp hempty
    · exact hl.raise.empty r hr
  subst hnil
  exact hl.withRaise (hl.raise.restrict (Set.empty_subset _) fun _ _ => rfl) hl.active

theorem Linked.step (hl : h.Linked {.events} L) (hs : h.Sourced Q) {m : Move}
    (hg : h.step m = some g) : (∃ L', g.Linked {.events} L') ∧ ∃ Q', g.Sourced Q' := by
  cases m with
  | op op =>
      obtain ⟨k, hk, hlinked⟩ := hl.apply op
      obtain rfl := Option.some.inj (hk.symm.trans hg)
      exact ⟨⟨_, hlinked⟩, hs.apply hl hg⟩
  | raise event =>
      obtain rfl := Option.some.inj hg
      exact ⟨⟨_, hl.setTime (-1) true⟩, Q, hs.setTime event (-1) true⟩
  | select manager timeUs rand =>
      simp only [Events.step] at hg
      split at hg
      · rename_i hempty
        obtain ⟨k, count, L', hk, hlinked, -⟩ := (hl.wellFormed hempty).selectEvents manager timeUs rand
        rw [hk, Option.map_some] at hg
        obtain rfl := Option.some.inj hg
        refine ⟨⟨L', hlinked⟩, Q, ?_⟩
        obtain ⟨m, heq⟩ := selectEvents_relinks hk
        rw [heq]
        exact hs.frame rfl (fun _ _ _ => rfl) fun _ _ _ => rfl
      · cases hg

/-- The states that operations, raised events and calls of `doEvents` lead to. -/
def Occurs : Events → Prop :=
  Runs.Reachable (· = blank) step Runs.anyMove

theorem Occurs.invariant (hoccurs : h.Occurs) : (∃ L, h.Linked {.events} L) ∧ ∃ Q, h.Sourced Q := by
  refine Runs.Reachable.invariant (I := fun g => (∃ L, g.Linked {.events} L) ∧ ∃ Q, g.Sourced Q)
    (fun g hg => ?_) (fun g m k hinv _ hk => ?_) hoccurs
  · subst hg
    refine ⟨⟨_, wellFormed_blank.withRaise (Memory.represents_empty ({.events} : Set RaiseRoot)) ?_⟩, _,
      Memory.represents_empty _, ?_⟩
    · exact fun _ _ hx => (List.not_mem_nil hx).elim
    · exact fun _ _ hx => (List.not_mem_nil hx).elim
  · obtain ⟨⟨L, hl⟩, Q, hs⟩ := hinv
    exact hl.step hs hk

/-- The lists are consistent after every operation, and the next one is possible: its loops
end and meet no destroyed event. -/
theorem consistent_of_occurs (hoccurs : h.Occurs) :
    (∃ R L Q, h.Consistent R L Q) ∧ ∀ op, ∃ g, h.apply op = some g := by
  obtain ⟨⟨L, hl⟩, Q, hs⟩ := hoccurs.invariant
  obtain ⟨R, hconsistent⟩ := hl.consistent_of_sourced hs
  refine ⟨⟨R, L, Q, hconsistent⟩, fun op => ?_⟩
  obtain ⟨g, hg, -⟩ := hl.apply op
  exact ⟨g, hg⟩

/-- Events 2 and 3 are to be raised: event 2 is, and its handler destroys event 3. -/
def sampleMoves : List Move :=
  sampleOps.map .op ++ [.select 0 3 fun n => n, .raise 2, .op (.setSourceReady 0 false),
    .op (.destroy 3)]

theorem consistent_of_occurs_sample : ∃ h : Events, h.linkRaise.load (.root .events) = none ∧
    h.linkReady.load (.root 0) = some 4 ∧ 3 ∉ h.nodes ∧
    (∃ R L Q, h.Consistent R L Q) ∧ ∀ op, ∃ g, h.apply op = some g := by
  have hsample : (Runs.run step Runs.anyMove blank sampleMoves).map (fun h =>
      (h.linkRaise.load (.root .events), h.linkReady.load (.root 0), decide (3 ∈ h.nodes))) =
      some (none, some 4, false) := by
    decide +kernel
  obtain ⟨h, hrun, heq⟩ := Option.map_eq_some_iff.mp hsample
  obtain ⟨hevents, hrest⟩ := Prod.mk.inj heq
  obtain ⟨hready, hgone⟩ := Prod.mk.inj hrest
  refine ⟨h, hevents, hready, of_decide_eq_false hgone, ?_⟩
  exact consistent_of_occurs (Runs.Reachable.of_run (.start rfl) hrun)

theorem Occurs.next (hoccurs : h.Occurs) {m : Move} (hg : h.step m = some g) : g.Occurs :=
  Runs.Reachable.next hoccurs trivial hg

theorem Occurs.states (hoccurs : h.Occurs) {ops : List Op} {states : List Events}
    (hstates : h.states ops = some states) :
    (∀ k ∈ states, k.Occurs) ∧ (states.getLast?.getD h).Occurs := by
  induction ops generalizing h states with
  | nil =>
      obtain rfl := Option.some.inj hstates
      exact ⟨fun k hk => (List.not_mem_nil hk).elim, hoccurs⟩
  | cons op ops ih =>
      obtain ⟨g, hg, hrest⟩ := Option.bind_eq_some_iff.mp hstates
      obtain ⟨rest, hops, rfl⟩ := Option.map_eq_some_iff.mp hrest
      have hnext : g.Occurs := hoccurs.next (m := .op op) hg
      obtain ⟨hall, hlast⟩ := ih hnext hops
      rw [List.getLast?_cons, Option.getD_some]
      exact ⟨List.forall_mem_cons.mpr ⟨hnext, hall⟩, hlast⟩

theorem Occurs.raiseLoop (hoccurs : h.Occurs) {fuel : Nat} {place : Option Nat}
    {handlers : Stream' (List Op)} {turns : List Turn}
    (hg : Events.raiseLoop fuel place h handlers = some (g, turns)) :
    g.Occurs ∧ ∀ turn ∈ turns, ∀ k ∈ turn.states, k.Occurs := by
  induction fuel generalizing h place handlers turns with
  | zero =>
      cases place with
      | none =>
          cases hg
          exact ⟨hoccurs, fun turn hturn => (List.not_mem_nil hturn).elim⟩
      | some event => cases hg
  | succ fuel ih =>
      cases place with
      | none =>
          cases hg
          exact ⟨hoccurs, fun turn hturn => (List.not_mem_nil hturn).elim⟩
      | some event =>
          obtain ⟨node, -, hrest⟩ := Option.bind_eq_some_iff.mp hg
          split at hrest
          · obtain ⟨states, hstates, hrest⟩ := Option.bind_eq_some_iff.mp hrest
            obtain ⟨⟨g', later⟩, hlater, heq⟩ := Option.map_eq_some_iff.mp hrest
            obtain ⟨rfl, rfl⟩ := Prod.mk.inj heq
            have hraised : (h.disable event).Occurs := hoccurs.next (m := .raise event) rfl
            obtain ⟨hall, hlast⟩ := hraised.states hstates
            obtain ⟨hfinal, hturns⟩ := ih hlast hlater
            exact ⟨hfinal, List.forall_mem_cons.mpr ⟨hall, hturns⟩⟩
          · cases hrest

theorem Occurs.doEvents (hoccurs : h.Occurs) (hempty : (h.linkRaise.load (.root .events)).isNone = true)
    {manager : Nat} {timeUs nextTimeUs : Int} {rand : Stream' Nat} {handlers : Stream' (List Op)}
    {turns : List Turn}
    (hg : h.doEvents manager timeUs rand handlers = some (g, turns, nextTimeUs)) :
    g.Occurs ∧ ∀ turn ∈ turns, ∀ k ∈ turn.states, k.Occurs := by
  obtain ⟨⟨k, count⟩, hk, hrest⟩ := Option.bind_eq_some_iff.mp hg
  obtain ⟨⟨g', turns'⟩, hraise, hrest⟩ := Option.bind_eq_some_iff.mp hrest
  obtain ⟨next, -, heq⟩ := Option.map_eq_some_iff.mp hrest
  cases heq
  have hselected : k.Occurs := by
    apply hoccurs.next (m := .select manager timeUs rand)
    simp only [Events.step, hempty, if_true, hk, Option.map_some]
  exact hselected.raiseLoop hraise

end Run

end IceTunnel.Events
