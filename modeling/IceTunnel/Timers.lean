import IceTunnel.Membership

/-!
What the lists of `event.h` are for: timers that wait for a source, without any pointers.
Whether a timer is ready is not stored but looked up at its source.
-/

namespace IceTunnel

/-- What a timer waits for. -/
inductive Attachment
  /-- It is not raised until it is initialised. -/
  | detached
  | always
  | source (source : Nat)
  deriving DecidableEq

structure Timer extends Event where
  handler : Option Nat := none
  manager : Option Nat := none
  priority : Int := 0
  attached : Attachment := .detached
  deriving DecidableEq

structure Timers where
  nodes : Std.ExtTreeMap Nat Timer
  sources : Std.ExtTreeMap Nat Bool

namespace Timers

variable (t : Timers)

def blank : Timers :=
  ⟨∅, ∅⟩

def ready : Attachment → Bool
  | .detached => false
  | .always => true
  | .source source => t.sources.getD source false

/-- The event that stands for a timer. -/
def node (timer : Timer) : Node :=
  { toEvent := timer.toEvent
    handler := timer.handler
    manager := timer.manager
    priority := timer.priority
    ready := t.ready timer.attached }

def apply : Events.Op → Timers
  | .construct event =>
      if event ∈ t.nodes then t else { t with nodes := t.nodes.insert event {} }
  | .init event handler manager source priority =>
      if event ∈ t.nodes ∧ source.all (· ∈ t.sources) = true then
        let timer : Timer :=
          { handler := some handler
            manager := some manager
            priority := priority
            attached := source.elim .always .source }
        { t with nodes := t.nodes.insert event timer }
      else t
  | .destroy event => { t with nodes := t.nodes.erase event }
  | .setTime event timeUs force =>
      { t with nodes := t.nodes.modify event fun timer =>
        { timer with toEvent := timer.toEvent.setTime timeUs force } }
  | .disable event =>
      { t with nodes := t.nodes.modify event fun timer => { timer with toEvent := timer.toEvent.disable } }
  | .constructSource source =>
      if source ∈ t.sources then t else { t with sources := t.sources.insert source false }
  | .setSourceReady source value =>
      if source ∈ t.sources then { t with sources := t.sources.insert source value } else t
  | .destroySource source =>
      if source ∈ t.sources then
        { nodes := t.nodes.map fun _ timer =>
            if timer.attached = .source source then { timer with attached := .detached } else timer
          sources := t.sources.erase source }
      else t

/-- Choosing the events to raise changes nothing. -/
def step : Events.Move → Timers
  | .op op => t.apply op
  | .raise event => t.apply (.disable event)
  | .select _ _ _ => t

/-- The timer waits for the source. -/
def Attached (source event : Nat) : Prop :=
  ∃ timer ∈ t.nodes[event]?, timer.attached = .source source

/-- The timer may be raised by the manager once its time has come. -/
def Waits (manager event : Nat) : Prop :=
  ∃ timer ∈ t.nodes[event]?, timer.manager = some manager ∧ timer.isEnabled = true ∧
    t.ready timer.attached = true

end Timers

namespace Events

/-- The events, sources and lists of the sources are those of the timers. -/
structure Shows (h : Events) (t : Timers) (Q : Nat → List Nat) : Prop where
  nodes : ∀ event : Nat, h.nodes[event]? = t.nodes[event]?.map t.node
  sources : ∀ source : Nat, h.sources[source]? = t.sources[source]?
  represents : h.linkSource.Represents Set.univ Q
  attached : ∀ source event, event ∈ Q source ↔ t.Attached source event
  known : ∀ source event, t.Attached source event → source ∈ t.sources

section Operations

variable {h g : Events} {t : Timers} {Q : Nat → List Nat} {event : Nat}

theorem setTime_nodes (h : Events) (event : Nat) (timeUs : Int) (force : Bool) (x : Nat) :
    (h.setTime event timeUs force).nodes[x]? = (h.nodes[x]?).map fun node =>
      if x = event then { node with toEvent := node.toEvent.setTime timeUs force } else node := by
  simp only [Events.setTime]
  split
  · rename_i hnone
    by_cases hx : x = event
    · rw [hx, hnone]
      rfl
    · simp [hx]
  · rename_i node hnode
    have hself (changed : Event) (heq : node.toEvent.setTime timeUs force = changed) :
        (h.nodes.insert event { node with toEvent := changed })[x]? = (h.nodes[x]?).map fun node =>
          if x = event then { node with toEvent := node.toEvent.setTime timeUs force } else node := by
      rw [Std.ExtTreeMap.getElem?_insert]
      by_cases hx : x = event
      · subst hx
        simp [hnode, heq]
      · simp [hx, Ne.symm hx]
    have hsame (heq : node.toEvent.setTime timeUs force = node.toEvent) :
        h.nodes[x]? = (h.nodes[x]?).map fun node =>
          if x = event then { node with toEvent := node.toEvent.setTime timeUs force } else node := by
      by_cases hx : x = event
      · subst hx
        simp [hnode, heq]
      · simp [hx]
    split
    · rename_i htime
      exact hsame (by rw [Event.setTime, if_pos htime])
    · rename_i htime
      split
      · rename_i hearlier
        rw [updateReady_nodes]
        exact hself _ (by rw [Event.setTime, if_neg htime, if_pos hearlier])
      · rename_i hlater
        exact hsame (by rw [Event.setTime, if_neg htime, if_neg hlater])

theorem setTime_sources (h : Events) (event : Nat) (timeUs : Int) (force : Bool) :
    (h.setTime event timeUs force).sources = h.sources ∧
      (h.setTime event timeUs force).linkSource = h.linkSource := by
  simp only [Events.setTime]
  split
  · exact ⟨rfl, rfl⟩
  · split
    · exact ⟨rfl, rfl⟩
    · split
      · exact ⟨updateReady_sources _ _, updateReady_linkSource _ _⟩
      · exact ⟨rfl, rfl⟩

theorem Shows.mem_nodes (hs : h.Shows t Q) (event : Nat) : event ∈ h.nodes ↔ event ∈ t.nodes := by
  rw [Std.ExtTreeMap.mem_iff_isSome_getElem?, Std.ExtTreeMap.mem_iff_isSome_getElem?, hs.nodes,
    Option.isSome_map]

theorem Shows.mem_sources (hs : h.Shows t Q) (source : Nat) : source ∈ h.sources ↔ source ∈ t.sources := by
  rw [Std.ExtTreeMap.mem_iff_isSome_getElem?, Std.ExtTreeMap.mem_iff_isSome_getElem?, hs.sources]

theorem attached_congr {t' : Timers} {x : Nat} (hx : t'.nodes[x]? = t.nodes[x]?) (source : Nat) :
    t'.Attached source x ↔ t.Attached source x := by
  rw [Timers.Attached, Timers.Attached, hx]

theorem attached_insert_self {timer : Timer} (source : Nat) :
    Timers.Attached { t with nodes := t.nodes.insert event timer } source event ↔
      timer.attached = .source source := by
  rw [Timers.Attached, show (t.nodes.insert event timer)[event]? = some timer from
    Std.ExtTreeMap.getElem?_insert_self]
  constructor
  · rintro ⟨_, ⟨⟩, heq⟩
    exact heq
  · exact fun heq => ⟨timer, rfl, heq⟩

theorem attached_insert_of_ne {timer : Timer} {x : Nat} (hx : x ≠ event) (source : Nat) :
    Timers.Attached { t with nodes := t.nodes.insert event timer } source x ↔ t.Attached source x :=
  attached_congr (by rw [Std.ExtTreeMap.getElem?_insert, if_neg (by simpa using Ne.symm hx)]) source

theorem Shows.attached_mem (hs : h.Shows t Q) {source x : Nat} (hx : x ∈ Q source) : x ∈ h.nodes := by
  obtain ⟨timer, htimer, -⟩ := (hs.attached source x).mp hx
  rw [hs.mem_nodes, Std.ExtTreeMap.mem_iff_isSome_getElem?, Option.mem_def.mp htimer]
  rfl

theorem Shows.setTime (hs : h.Shows t Q) (event : Nat) (timeUs : Int) (force : Bool) :
    (h.setTime event timeUs force).Shows (t.apply (.setTime event timeUs force)) Q := by
  obtain ⟨hsources, hlink⟩ := setTime_sources h event timeUs force
  have hnodes (x : Nat) : (t.apply (.setTime event timeUs force)).nodes[x]? =
      t.nodes[x]?.map fun timer =>
        if x = event then { timer with toEvent := timer.toEvent.setTime timeUs force } else timer := by
    simp only [Timers.apply, Std.ExtTreeMap.getElem?_modify, compare_eq_iff_eq]
    by_cases hx : event = x
    · subst hx
      simp
    · simp [hx, Ne.symm hx]
  have hattached (source x : Nat) :
      (t.apply (.setTime event timeUs force)).Attached source x ↔ t.Attached source x := by
    simp only [Timers.Attached, hnodes, Option.mem_def, Option.map_eq_some_iff]
    constructor
    · rintro ⟨_, ⟨timer, htimer, rfl⟩, hsource⟩
      refine ⟨timer, htimer, ?_⟩
      split at hsource <;> exact hsource
    · rintro ⟨timer, htimer, hsource⟩
      refine ⟨_, ⟨timer, htimer, rfl⟩, ?_⟩
      split <;> exact hsource
  refine ⟨fun x => ?_, fun source => ?_, hlink ▸ hs.represents, fun source x => ?_, fun source x hin => ?_⟩
  · rw [setTime_nodes, hs.nodes, hnodes, Option.map_map, Option.map_map]
    congr 1
    funext timer
    simp only [Function.comp_apply]
    split <;> rfl
  · rw [hsources, hs.sources]
    rfl
  · rw [hattached, hs.attached]
  · exact hs.known source x ((hattached source x).mp hin)

theorem Shows.construct (hs : h.Shows t Q) (hnew : event ∉ h.nodes) :
    Shows { h with nodes := h.nodes.insert event {} } { t with nodes := t.nodes.insert event {} } Q := by
  have hattached (source x : Nat) :
      Timers.Attached { t with nodes := t.nodes.insert event {} } source x ↔ t.Attached source x := by
    by_cases hx : x = event
    · subst hx
      rw [attached_insert_self]
      refine iff_of_false nofun fun hin => ?_
      exact hnew (hs.attached_mem ((hs.attached source x).mpr hin))
    · exact attached_insert_of_ne hx source
  refine ⟨fun x => ?_, hs.sources, hs.represents, fun source x => ?_, fun source x hin => ?_⟩
  · rw [Std.ExtTreeMap.getElem?_insert, Std.ExtTreeMap.getElem?_insert]
    split
    · rfl
    · exact hs.nodes x
  · rw [hattached, hs.attached]
  · exact hs.known source x ((hattached source x).mp hin)

theorem Shows.unlink (hs : h.Shows t Q) (event : Nat) :
    (h.unlink event).linkSource.Represents Set.univ (fun source => (Q source).erase event) ∧
      (h.unlink event).sources = h.sources := by
  cases hnode : h.nodes[event]? with
  | none =>
      have hfree : (fun source => (Q source).erase event) = Q := by
        funext source
        refine List.erase_of_not_mem fun hin => ?_
        have hmem := hs.attached_mem hin
        rw [Std.ExtTreeMap.mem_iff_isSome_getElem?, hnode] at hmem
        cases hmem
      simp only [Events.unlink, hnode]
      refine ⟨?_, trivial⟩
      rw [hfree]
      exact hs.represents
  | some node =>
      simp only [Events.unlink, hnode]
      exact ⟨hs.represents.unlink event, trivial⟩

theorem Shows.mem_erase (hs : h.Shows t Q) {event source x : Nat} :
    x ∈ (Q source).erase event ↔ x ≠ event ∧ t.Attached source x := by
  rw [(hs.represents.nodup source).mem_erase_iff, hs.attached]

theorem Shows.destroy (hs : h.Shows t Q) (event : Nat) :
    Shows { h.unlink event with nodes := (h.unlink event).nodes.erase event } (t.apply (.destroy event))
      fun source => (Q source).erase event := by
  obtain ⟨hrepresents, hsources⟩ := hs.unlink event
  have hattached (source x : Nat) :
      (t.apply (.destroy event)).Attached source x ↔ x ≠ event ∧ t.Attached source x := by
    by_cases hx : x = event
    · subst hx
      refine ⟨?_, fun hin => absurd rfl hin.1⟩
      rintro ⟨timer, htimer, -⟩
      rw [Timers.apply, Option.mem_def, Std.ExtTreeMap.getElem?_erase_self] at htimer
      cases htimer
    · rw [attached_congr (t := t) (by
        rw [Timers.apply, Std.ExtTreeMap.getElem?_erase, if_neg (by simpa using Ne.symm hx)])]
      exact (and_iff_right hx).symm
  refine ⟨fun x => ?_, fun source => ?_, hrepresents, fun source x => ?_, fun source x hin => ?_⟩
  · rw [Timers.apply, Std.ExtTreeMap.getElem?_erase, Std.ExtTreeMap.getElem?_erase]
    split
    · rfl
    · rename_i hx
      rw [h.unlink_nodes_of_ne event fun heq => hx (compare_eq_iff_eq.mpr heq.symm)]
      exact hs.nodes x
  · exact (congrArg (fun m : Std.ExtTreeMap Nat Bool => m[source]?) hsources).trans (hs.sources source)
  · rw [hs.mem_erase, hattached]
  · exact hs.known source x ((hattached source x).mp hin).2

/-- The timer that `init` makes. -/
def initialised (handler manager : Nat) (source : Option Nat) (priority : Int) : Timer :=
  { handler := some handler
    manager := some manager
    priority := priority
    attached := source.elim .always .source }

theorem init_nodes (hevent : event ∈ h.nodes) (handler manager : Nat) (source : Option Nat)
    (priority : Int) (x : Nat) : (h.init event handler manager source priority).nodes[x]? =
      if x = event then some
        { handler := some handler
          manager := some manager
          priority := priority
          ready := source.elim true fun source => h.sources.getD source false }
      else h.nodes[x]? := by
  obtain ⟨node, hnode⟩ := Option.isSome_iff_exists.mp (Std.ExtTreeMap.mem_iff_isSome_getElem?.mp hevent)
  have hsources : (h.unlink event).sources = h.sources := by
    simp only [Events.unlink, hnode]
  have hother (hx : x ≠ event) : (h.unlink event).nodes[x]? = h.nodes[x]? := h.unlink_nodes_of_ne event hx
  cases source with
  | none =>
      simp only [Events.init, hnode, setReady_nodes, Std.ExtTreeMap.getElem?_insert, compare_eq_iff_eq]
      by_cases hx : x = event
      · subst hx
        simp
      · simp [hx, Ne.symm hx, hother hx]
  | some source =>
      simp only [Events.init, hnode, setReady_nodes, Std.ExtTreeMap.getElem?_insert, compare_eq_iff_eq,
        hsources]
      by_cases hx : x = event
      · subst hx
        simp
      · simp [hx, Ne.symm hx, hother hx]

theorem initialised_attached {handler manager : Nat} {source : Option Nat} {priority : Int} (s : Nat) :
    (initialised handler manager source priority).attached = .source s ↔ source = some s := by
  cases source with
  | none => simp [initialised]
  | some source => simp [initialised]

theorem Shows.ready_eq (hs : h.Shows t Q) (source : Nat) :
    h.sources.getD source false = t.sources.getD source false := by
  rw [Std.ExtTreeMap.getD_eq_getD_getElem?, Std.ExtTreeMap.getD_eq_getD_getElem?, hs.sources]

theorem Shows.init_nodes (hs : h.Shows t Q) (hevent : event ∈ h.nodes) (handler manager : Nat)
    (source : Option Nat) (priority : Int) (x : Nat) :
    (h.init event handler manager source priority).nodes[x]? =
      (t.nodes.insert event (initialised handler manager source priority))[x]?.map t.node := by
  rw [Events.init_nodes hevent, Std.ExtTreeMap.getElem?_insert]
  by_cases hx : x = event
  · subst hx
    rw [if_pos rfl, if_pos (by simp), Option.map_some]
    cases source with
    | none => rfl
    | some source =>
        rw [Option.elim_some, hs.ready_eq]
        rfl
  · rw [if_neg hx, if_neg (by simpa using Ne.symm hx)]
    exact hs.nodes x

theorem Shows.init_link (hs : h.Shows t Q) (hevent : event ∈ h.nodes) (handler manager : Nat)
    (source : Option Nat) (priority : Int) :
    (h.init event handler manager source priority).sources = h.sources ∧
      ∃ Q', (h.init event handler manager source priority).linkSource.Represents Set.univ Q' ∧
        ∀ s x, x ∈ Q' s ↔ if x = event then source = some s else t.Attached s x := by
  obtain ⟨node, hnode⟩ := Option.isSome_iff_exists.mp (Std.ExtTreeMap.mem_iff_isSome_getElem?.mp hevent)
  obtain ⟨hrepresents, hsources⟩ := hs.unlink event
  have hfree (s : Nat) : event ∉ (Q s).erase event := (hs.represents.nodup s).not_mem_erase
  cases source with
  | none =>
      simp only [Events.init, hnode, setReady_linkSource, setReady_sources]
      refine ⟨hsources, _, hrepresents, fun s x => ?_⟩
      split
      · rename_i hx
        rw [hx]
        exact iff_of_false (hfree s) (Option.some_ne_none s).symm
      · rename_i hx
        rw [hs.mem_erase]
        exact and_iff_right hx
  | some source =>
      have hlinked := hrepresents.link hfree (Set.mem_univ source) (List.nil_append _).symm
      simp only [Events.init, hnode, setReady_linkSource, setReady_sources]
      refine ⟨hsources, _, hlinked, fun s x => ?_⟩
      have hother : x ∈ (Q s).erase event ↔ x ≠ event ∧ t.Attached s x := hs.mem_erase
      by_cases hsame : s = source
      · subst hsame
        rw [Function.update_self, List.nil_append, List.mem_cons, hother]
        by_cases hx : x = event <;> simp [hx]
      · have hne : ¬some source = some s := fun heq => hsame (Option.some.inj heq).symm
        rw [Function.update_of_ne hsame, hother]
        by_cases hx : x = event <;> simp [hx, hne]

theorem Shows.init (hs : h.Shows t Q) (hevent : event ∈ h.nodes) (handler manager : Nat)
    {source : Option Nat} (hsource : source.all (· ∈ h.sources) = true) (priority : Int) :
    ∃ Q', (h.init event handler manager source priority).Shows
      { t with nodes := t.nodes.insert event (initialised handler manager source priority) } Q' := by
  obtain ⟨hsources, Q', hrepresents, hmem⟩ := hs.init_link hevent handler manager source priority
  have hattached (s x : Nat) : Timers.Attached
      { t with nodes := t.nodes.insert event (initialised handler manager source priority) } s x ↔
        if x = event then source = some s else t.Attached s x := by
    split
    · rename_i hx
      rw [hx, attached_insert_self, initialised_attached]
    · rename_i hx
      exact attached_insert_of_ne hx s
  refine ⟨Q', hs.init_nodes hevent handler manager source priority, fun s => ?_, hrepresents,
    fun s x => (hmem s x).trans (hattached s x).symm, fun s x hin => ?_⟩
  · rw [hsources]
    exact hs.sources s
  · rw [hattached] at hin
    split at hin
    · subst hin
      exact (hs.mem_sources s).mp (by simpa using hsource)
    · exact hs.known s x hin

theorem Shows.setSources (hs : h.Shows t Q) (source : Nat) {sources sources' : Std.ExtTreeMap Nat Bool}
    (hfree : ∀ x, ¬ t.Attached source x) (hsame : ∀ other, other ≠ source → sources'[other]? = t.sources[other]?)
    (heq : ∀ other : Nat, sources[other]? = sources'[other]?) :
    Shows { h with sources := sources } { t with sources := sources' } Q := by
  have hother {s x : Nat} (hin : t.Attached s x) : s ≠ source := by
    rintro rfl
    exact hfree x hin
  refine ⟨fun x => (hs.nodes x).trans ?_, heq, hs.represents, hs.attached, fun s x hin => ?_⟩
  · cases htimer : t.nodes[x]? with
    | none => rfl
    | some timer =>
        simp only [Option.map_some, Timers.node]
        congr 2
        cases hattached : timer.attached with
        | source s =>
            simp only [Timers.ready, Std.ExtTreeMap.getD_eq_getD_getElem?]
            rw [hsame s (hother ⟨timer, htimer, hattached⟩)]
        | _ => rfl
  · have hmem := hs.known s x hin
    rw [Std.ExtTreeMap.mem_iff_isSome_getElem?] at hmem ⊢
    rw [hsame s (hother hin)]
    exact hmem

theorem getElem?_sources_insert (source : Nat) (value : Bool) (s : Nat) :
    (t.sources.insert source value)[s]? = if s = source then some value else t.sources[s]? := by
  rw [Std.ExtTreeMap.getElem?_insert]
  simp only [compare_eq_iff_eq, @eq_comm _ source s]

theorem Shows.attached_iff (hs : h.Shows t Q) {x : Nat} {timer : Timer}
    (htimer : t.nodes[x]? = some timer) (source : Nat) :
    x ∈ Q source ↔ timer.attached = .source source := by
  rw [hs.attached, Timers.Attached, htimer]
  constructor
  · rintro ⟨_, ⟨⟩, heq⟩
    exact heq
  · exact fun heq => ⟨timer, rfl, heq⟩

theorem ready_setSource (source : Nat) (value : Bool) (attached : Attachment) :
    Timers.ready { t with sources := t.sources.insert source value } attached =
      if attached = .source source then value else t.ready attached := by
  cases attached with
  | source s =>
      simp only [Timers.ready, Std.ExtTreeMap.getD_eq_getD_getElem?, getElem?_sources_insert,
        Attachment.source.injEq]
      split <;> rfl
  | _ => rfl

theorem Shows.nodes_setSource (hs : h.Shows t Q) (source : Nat) (value : Bool) (x : Nat) :
    t.nodes[x]?.map (Timers.node { t with sources := t.sources.insert source value }) =
      (h.nodes[x]?).map fun node => if x ∈ Q source then { node with ready := value } else node := by
  rw [hs.nodes]
  cases htimer : t.nodes[x]? with
  | none => rfl
  | some timer =>
      simp only [Option.map_some, Timers.node, ready_setSource, hs.attached_iff htimer]
      split <;> rfl

theorem Shows.node_ready (hs : h.Shows t Q) {source x : Nat} {ready : Bool} {node : Node}
    (hx : x ∈ Q source) (hready : h.sources[source]? = some ready)
    (hnode : h.nodes[x]? = some node) : node.ready = ready := by
  obtain ⟨timer, htimer, hattached⟩ := (hs.attached source x).mp hx
  have hshown := (hs.nodes x).symm.trans hnode
  rw [Option.mem_def.mp htimer, Option.map_some, Option.some.injEq] at hshown
  rw [← hshown]
  simp only [Timers.node, hattached, Timers.ready, Std.ExtTreeMap.getD_eq_getD_getElem?]
  rw [← hs.sources, hready, Option.getD_some]

theorem Shows.setSource_same (hs : h.Shows t Q) {source : Nat} {value : Bool}
    (hready : h.sources[source]? = some value) :
    h.Shows { t with sources := t.sources.insert source value } Q := by
  refine ⟨fun x => ?_, fun s => ?_, hs.represents, hs.attached, fun s x hin => ?_⟩
  · refine Eq.trans ?_ (hs.nodes_setSource source value x).symm
    cases hnode : h.nodes[x]? with
    | none => rfl
    | some node =>
        rw [Option.map_some]
        split
        · rename_i hin
          rw [← hs.node_ready hin hready hnode]
        · rfl
  · rw [getElem?_sources_insert]
    split
    · rename_i heq
      rw [heq, hready]
    · exact hs.sources s
  · exact Std.ExtTreeMap.mem_insert.mpr (.inr (hs.known s x hin))

theorem Shows.setSourceReady {S : Set RaiseRoot} {L : RaiseRoot → List Nat} (hs : h.Shows t Q)
    (hl : h.Linked S L) {source : Nat} {value : Bool} (hg : h.setSourceReady source value = some g) :
    g.Shows (t.apply (.setSourceReady source value)) Q := by
  simp only [Events.setSourceReady] at hg
  simp only [Timers.apply, ← hs.mem_sources, Std.ExtTreeMap.mem_iff_isSome_getElem?]
  split at hg
  · rename_i hnone
    cases hg
    rw [hnone]
    exact hs
  · rename_i ready hready
    rw [hready, Option.isSome_some, if_pos rfl]
    split at hg
    · rename_i hsame
      cases hg
      exact hs.setSource_same (hsame ▸ hready)
    · obtain ⟨g', hg', -, hnodes⟩ := (hl.withSources (h.sources.insert source value)).setReadyLoop
        value (hs.represents.chain source (Set.mem_univ source)) (fun x => hs.attached_mem)
        (length_le_size (hs.represents.nodup source) fun x => hs.attached_mem)
      cases hg.symm.trans hg'
      obtain ⟨hlink, hsources⟩ := setReadyLoop_frame hg
      refine ⟨fun x => ?_, fun s => ?_, hlink ▸ hs.represents, hs.attached, fun s x hin => ?_⟩
      · rw [hnodes]
        exact (hs.nodes_setSource source value x).symm
      · rw [hsources, getElem?_sources_insert, Std.ExtTreeMap.getElem?_insert]
        simp only [compare_eq_iff_eq, @eq_comm _ source s, hs.sources]
      · exact Std.ExtTreeMap.mem_insert.mpr (.inr (hs.known s x hin))

/-- The loop of `Source::~Source` empties the list of the source and no other. -/
theorem unlinkLoop_represents (hQ : h.linkSource.Represents Set.univ Q) {source fuel : Nat}
    (hg : Events.unlinkLoop source fuel (h.linkSource.load (.root source)) h = some g) :
    ∃ m, g = { h with linkSource := m } ∧ m.Represents Set.univ (Function.update Q source []) := by
  have hhead := (hQ.chain source (Set.mem_univ source)).head
  have hend (hnone : h.linkSource.load (.root source) = none) :
      ∃ m, h = { h with linkSource := m } ∧ m.Represents Set.univ (Function.update Q source []) := by
    rw [hnone] at hhead
    refine ⟨h.linkSource, rfl, ?_⟩
    rw [← List.head?_eq_none_iff.mp hhead.symm, Function.update_eq_self]
    exact hQ
  induction fuel generalizing h Q with
  | zero =>
      cases hplace : h.linkSource.load (.root source) with
      | none =>
          rw [hplace] at hg
          obtain rfl := Option.some.inj hg
          exact hend hplace
      | some event =>
          rw [hplace] at hg
          cases hg
  | succ fuel ih =>
      cases hplace : h.linkSource.load (.root source) with
      | none =>
          rw [hplace] at hg
          obtain rfl := Option.some.inj hg
          exact hend hplace
      | some event =>
          rw [hplace, Events.unlinkLoop] at hg
          split at hg
          · have hnext := hQ.unlink event
            have hin : event ∈ Q source := List.mem_of_mem_head? (hhead.symm.trans hplace)
            have hrest : Function.update (fun s => (Q s).erase event) source [] =
                Function.update Q source [] := by
              funext s
              by_cases hsame : s = source
              · rw [hsame, Function.update_self, Function.update_self]
              · rw [Function.update_of_ne hsame, Function.update_of_ne hsame]
                exact List.erase_of_not_mem (hQ.not_mem hsame hin)
            have hhead' := (hnext.chain source (Set.mem_univ source)).head
            have hfinal := ih (h := { h with linkSource := h.linkSource.unlink event }) hnext hg hhead'
              fun hnone => ⟨h.linkSource.unlink event, rfl, by
                rw [← List.head?_eq_none_iff.mp (hhead'.symm.trans hnone), Function.update_eq_self]
                exact hnext⟩
            obtain ⟨m, hm, hrepresents⟩ := hfinal
            exact ⟨m, hm, hrest ▸ hrepresents⟩
          · cases hg

/-- The timers of a source wait for nothing any more, and it is gone. -/
def detach (t : Timers) (source : Nat) : Timers :=
  { nodes := t.nodes.map fun _ timer =>
      if timer.attached = .source source then { timer with attached := .detached } else timer
    sources := t.sources.erase source }

theorem detach_nodes (source x : Nat) : (detach t source).nodes[x]? = t.nodes[x]?.map fun timer =>
    if timer.attached = .source source then { timer with attached := .detached } else timer :=
  Std.ExtTreeMap.getElem?_map

theorem detach_sources (source s : Nat) :
    (detach t source).sources[s]? = if s = source then none else t.sources[s]? := by
  rw [detach, Std.ExtTreeMap.getElem?_erase]
  simp only [compare_eq_iff_eq, @eq_comm _ source s]

theorem attached_detach (source s x : Nat) :
    (detach t source).Attached s x ↔ s ≠ source ∧ t.Attached s x := by
  simp only [Timers.Attached, detach_nodes, Option.mem_def, Option.map_eq_some_iff]
  constructor
  · rintro ⟨_, ⟨timer, htimer, rfl⟩, heq⟩
    split at heq
    · cases heq
    · rename_i hother
      refine ⟨?_, timer, htimer, heq⟩
      rintro rfl
      exact hother heq
  · rintro ⟨hne, timer, htimer, heq⟩
    refine ⟨timer, ⟨timer, htimer, if_neg ?_⟩, heq⟩
    rw [heq]
    exact fun hsame => hne (Attachment.source.inj hsame)

theorem node_detach (source : Nat) (timer : Timer) :
    (detach t source).node
        (if timer.attached = .source source then { timer with attached := .detached } else timer) =
      Timers.node { t with sources := t.sources.insert source false } timer := by
  split
  · rename_i hsame
    simp only [Timers.node, ready_setSource, if_pos hsame]
    rfl
  · rename_i hother
    simp only [Timers.node, ready_setSource, if_neg hother]
    congr 1
    cases hattached : timer.attached with
    | source s =>
        have hne : s ≠ source := by
          rintro rfl
          exact hother hattached
        simp only [Timers.ready, Std.ExtTreeMap.getD_eq_getD_getElem?]
        rw [detach_sources, if_neg hne]
    | _ => rfl

theorem Shows.destroySource {S : Set RaiseRoot} {L : RaiseRoot → List Nat} (hs : h.Shows t Q)
    (hl : h.Linked S L) {source : Nat} (hg : h.apply (.destroySource source) = some g) :
    ∃ Q', g.Shows (t.apply (.destroySource source)) Q' := by
  simp only [Events.apply] at hg
  simp only [Timers.apply, ← hs.mem_sources]
  split at hg
  · rename_i hmem
    rw [if_pos hmem]
    obtain ⟨k, hk, hrest⟩ := Option.bind_eq_some_iff.mp hg
    obtain ⟨k', hk', rfl⟩ := Option.map_eq_some_iff.mp hrest
    have hshown := hs.setSourceReady hl hk
    simp only [Timers.apply, ← hs.mem_sources, if_pos hmem] at hshown
    obtain ⟨m, rfl, hrepresents⟩ := unlinkLoop_represents hshown.represents hk'
    change ∃ Q', Shows _ (detach t source) Q'
    refine ⟨Function.update Q source [], fun x => ?_, fun s => ?_, hrepresents, fun s x => ?_,
      fun s x hin => ?_⟩
    · refine (hshown.nodes x).trans ?_
      rw [detach_nodes, Option.map_map]
      congr 1
      funext timer
      exact (node_detach source timer).symm
    · rw [detach_sources, Std.ExtTreeMap.getElem?_erase]
      simp only [compare_eq_iff_eq, @eq_comm _ source s]
      split
      · rfl
      · rename_i hne
        refine (hshown.sources s).trans ?_
        rw [getElem?_sources_insert, if_neg hne]
    · rw [attached_detach]
      by_cases hsame : s = source
      · subst hsame
        rw [Function.update_self]
        exact iff_of_false List.not_mem_nil fun hin => hin.1 rfl
      · rw [Function.update_of_ne hsame, hs.attached]
        exact (and_iff_right hsame).symm
    · obtain ⟨hne, hbefore⟩ := (attached_detach source s x).mp hin
      rw [Std.ExtTreeMap.mem_iff_isSome_getElem?, detach_sources, if_neg hne,
        ← Std.ExtTreeMap.mem_iff_isSome_getElem?]
      exact hs.known s x hbefore
  · rename_i hmem
    rw [if_neg hmem]
    cases hg
    exact ⟨Q, hs⟩

theorem Shows.apply {S : Set RaiseRoot} {L : RaiseRoot → List Nat} (hs : h.Shows t Q) (hl : h.Linked S L)
    {op : Op} (hg : h.apply op = some g) : ∃ Q', g.Shows (t.apply op) Q' := by
  cases op with
  | construct event =>
      cases hg
      simp only [Timers.apply, ← hs.mem_nodes]
      split
      · exact ⟨Q, hs⟩
      · rename_i hnew
        exact ⟨Q, hs.construct hnew⟩
  | init event handler manager source priority =>
      cases hg
      have hknown : source.all (· ∈ h.sources) = source.all (· ∈ t.sources) := by
        cases source with
        | none => rfl
        | some source => exact decide_eq_decide.mpr (hs.mem_sources source)
      simp only [Timers.apply, ← hs.mem_nodes, ← hknown]
      by_cases hevent : event ∈ h.nodes
      · split
        · rename_i hsource
          rw [if_pos ⟨hevent, hsource⟩]
          exact hs.init hevent handler manager hsource priority
        · rename_i hsource
          rw [if_neg fun hin => hsource hin.2]
          exact ⟨Q, hs⟩
      · have hnone : h.init event handler manager source priority = h := by
          simp only [Events.init, Std.ExtTreeMap.getElem?_eq_none hevent]
        rw [hnone, ite_self, if_neg fun hin => hevent hin.1]
        exact ⟨Q, hs⟩
  | destroy event =>
      cases hg
      exact ⟨_, hs.destroy event⟩
  | setTime event timeUs force =>
      cases hg
      exact ⟨Q, hs.setTime event timeUs force⟩
  | disable event =>
      cases hg
      exact ⟨Q, hs.setTime event (-1) true⟩
  | constructSource source =>
      cases hg
      simp only [Timers.apply, ← hs.mem_sources]
      split
      · exact ⟨Q, hs⟩
      · rename_i hnew
        have hinsert (other : Nat) : (h.sources.insert source false)[other]? =
            (t.sources.insert source false)[other]? := by
          rw [Std.ExtTreeMap.getElem?_insert, Std.ExtTreeMap.getElem?_insert, hs.sources]
        refine ⟨Q, hs.setSources source (fun x hin => ?_) (fun other hne => ?_) hinsert⟩
        · exact hnew ((hs.mem_sources source).mpr (hs.known source x hin))
        · rw [Std.ExtTreeMap.getElem?_insert, if_neg (by simpa using Ne.symm hne)]
  | setSourceReady source value => exact ⟨Q, hs.setSourceReady hl hg⟩
  | destroySource source => exact hs.destroySource hl hg

theorem Shows.step {L : RaiseRoot → List Nat} (hs : h.Shows t Q) (hl : h.Linked {.events} L) {m : Move}
    (hg : h.step m = some g) : ∃ Q', g.Shows (t.step m) Q' := by
  cases m with
  | op op => exact hs.apply hl hg
  | raise event =>
      cases hg
      exact ⟨Q, hs.setTime event (-1) true⟩
  | select manager timeUs rand =>
      simp only [Events.step] at hg
      split at hg
      · obtain ⟨⟨k, count⟩, hk, rfl⟩ := Option.map_eq_some_iff.mp hg
        obtain ⟨m, rfl⟩ := selectEvents_relinks hk
        exact ⟨Q, hs.nodes, hs.sources, hs.represents, hs.attached, hs.known⟩
      · cases hg

theorem shows_blank : blank.Shows .blank fun _ => [] := by
  have hnone (source event : Nat) : ¬ Timers.blank.Attached source event := by
    rintro ⟨timer, htimer, -⟩
    cases htimer
  exact ⟨fun _ => rfl, fun _ => rfl, Chains.Memory.represents_empty _,
    fun source event => ⟨fun hin => absurd hin List.not_mem_nil, fun hin => absurd hin (hnone source event)⟩,
    fun source event hin => absurd hin (hnone source event)⟩

theorem Shows.isReady_iff (hs : h.Shows t Q) (manager event : Nat) :
    h.IsReady manager event ↔ t.Waits manager event := by
  constructor
  · rintro ⟨node, hnode, hmanager, hready, henabled⟩
    obtain ⟨timer, htimer, rfl⟩ := Option.map_eq_some_iff.mp ((hs.nodes event).symm.trans hnode)
    exact ⟨timer, htimer, hmanager, henabled, hready⟩
  · rintro ⟨timer, htimer, hmanager, henabled, hready⟩
    refine ⟨t.node timer, ?_, hmanager, hready, henabled⟩
    rw [hs.nodes, Option.mem_def.mp htimer, Option.map_some]

theorem Shows.run (hs : h.Shows t Q) (hoccurs : h.Occurs) {ms : List Move}
    (hrun : Runs.run Events.step Runs.anyMove h ms = some g) :
    g.Occurs ∧ ∃ Q', g.Shows (ms.foldl Timers.step t) Q' := by
  induction ms generalizing h t Q with
  | nil =>
      cases hrun
      exact ⟨hoccurs, Q, hs⟩
  | cons m ms ih =>
      rw [Runs.run, if_pos (show Runs.anyMove h m from trivial)] at hrun
      obtain ⟨k, hk, hrest⟩ := Option.bind_eq_some_iff.mp hrun
      obtain ⟨⟨L, hl⟩, -⟩ := hoccurs.invariant
      obtain ⟨Q', hshown⟩ := hs.step hl hk
      exact ih hshown (hoccurs.next hk) hrest

end Operations

section Run

variable {h : Events} {ms : List Move}

/-- After any moves the events are the timers after the same moves: an event is in the list of a
manager when its timer waits there, and in the list of the source that it is attached to. -/
theorem shows_of_run (hrun : Runs.run step Runs.anyMove blank ms = some h) :
    (∀ event : Nat, h.nodes[event]? =
        (ms.foldl Timers.step .blank).nodes[event]?.map (ms.foldl Timers.step .blank).node) ∧
      (∀ source : Nat, h.sources[source]? = (ms.foldl Timers.step .blank).sources[source]?) ∧
      (∃ R, h.linkReady.Represents Set.univ R ∧
        ∀ manager event, event ∈ R manager ↔ (ms.foldl Timers.step .blank).Waits manager event) ∧
      ∃ Q, h.linkSource.Represents Set.univ Q ∧
        ∀ source event, event ∈ Q source ↔ (ms.foldl Timers.step .blank).Attached source event := by
  obtain ⟨hoccurs, Q, hs⟩ := shows_blank.run (.start rfl) hrun
  obtain ⟨⟨L, hl⟩, -⟩ := hoccurs.invariant
  obtain ⟨R, hrepresents, hmem⟩ := hl.ready
  refine ⟨hs.nodes, hs.sources, ⟨R, hrepresents, fun manager event => ?_⟩, Q, hs.represents, hs.attached⟩
  rw [hmem, hs.isReady_iff]

theorem shows_of_run_sample : ∃ h, Runs.run step Runs.anyMove blank sampleMoves = some h ∧
    ∃ R, h.linkReady.Represents Set.univ R ∧
      ∀ manager event, event ∈ R manager ↔ (sampleMoves.foldl Timers.step .blank).Waits manager event := by
  have hsample : (Runs.run step Runs.anyMove blank sampleMoves).isSome = true := by
    decide +kernel
  obtain ⟨h, hrun⟩ := Option.isSome_iff_exists.mp hsample
  exact ⟨h, hrun, (shows_of_run hrun).2.2.1⟩

end Run

end Events

end IceTunnel
