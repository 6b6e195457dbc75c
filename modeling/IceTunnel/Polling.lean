import IceTunnel.Sockets

/-!
`Socket::Group` with the sockets that are alive.  Sockets are numbered; a number that is not
in use stands for the pointer to a socket that has been deleted.
-/

namespace IceTunnel

/-- A descriptor in the epoll set. -/
structure Registration where
  /-- `event.data.ptr`. -/
  socket : Nat
  edges : Edges EpollFlag

/-- `epoll_wait` has something to tell about the descriptor. -/
def Registration.Due (r : Registration) : Prop :=
  r.edges.pending = true ∧ ∃ flag, r.edges.level flag = true

instance (r : Registration) : Decidable r.Due :=
  inferInstanceAs (Decidable (_ ∧ _))

structure Group where
  /-- `internal->events.size()`. -/
  events : Int
  count : Int
  sockets : Std.ExtTreeMap Nat Socket
  /-- The epoll set, which the kernel keeps. -/
  registered : Std.ExtTreeMap Int Registration

/-- What `::accept` answers. -/
inductive Accepted
  | client (opened : Opened)
  | again
  | failed

namespace Group

variable (g : Group)

def blank : Group :=
  ⟨1000, 0, ∅, ∅⟩

/-- A socket changes.  When it gives up its descriptor, that leaves the epoll set. -/
def put (index : Nat) (old new : Socket) : Group :=
  { g with
    sockets := g.sockets.insert index new
    registered := if 0 ≤ old.fd ∧ new.fd < 0 then g.registered.erase old.fd else g.registered }

/-- A function of a socket is called. -/
def update (index : Nat) (f : Socket → Socket) : Option Group :=
  g.sockets[index]?.map fun s => g.put index s (f s)

/-- The constructor of a socket. -/
def create (index : Nat) (type : SocketType) (connected : Bool) (opened : Opened) : Group :=
  let s := Socket.new type connected opened
  { g with
    count := g.count + 1
    sockets := g.sockets.insert index s
    registered :=
      if 0 ≤ s.fd then g.registered.insert s.fd ⟨index, .watch opened.events⟩ else g.registered }

/-- The destructor of a socket. -/
def destroy (index : Nat) : Option Group :=
  (g.update index fun s => s.close false).map fun g =>
    { g with
      count := g.count - 1
      sockets := g.sockets.erase index }

/-- A new TCP socket is connected at once. -/
def client (index : Nat) (opened : Opened) : Option Group :=
  (g.create index .tcp false opened).update index Socket.connect

def accept (index client : Nat) : Accepted → Option Group
  | .again => g.update index fun s => { s with sourceRead := false }
  | .failed => g.update index id
  | .client opened =>
      g.sockets[index]?.bind fun s =>
        let g := g.create client s.type true opened
        if (Socket.new s.type true opened).sourceClose then g.destroy client else some g

/-- The conditions of a descriptor change. -/
def change (fd : Int) (events : EpollFlag → Bool) (spurious : Bool) : Group :=
  { g with registered :=
      g.registered.modify fd fun r => { r with edges := r.edges.change events spurious } }

/-- The size of `internal->events` when `epoll_wait` is called. -/
def maxEvents : Int :=
  if g.events < 3 * g.count then 6 * g.count else g.events

/-- `epoll_wait` reports these descriptors. -/
def report (reports : List Int) : Group :=
  { g with registered :=
      g.registered.map fun fd r => if fd ∈ reports then { r with edges := r.edges.reported } else r }

/-- The entries of `internal->events`. -/
def entries (reports : List Int) : List (Nat × (EpollFlag → Bool)) :=
  reports.filterMap fun fd => g.registered[fd]?.map fun r => (r.socket, r.edges.level)

/-- The loop of `poll`.  A pointer to a deleted socket makes it `none`. -/
def notifyAll : List (Nat × (EpollFlag → Bool)) → Group → Option Group
  | [], g => some g
  | (socket, events) :: rest, g =>
      (g.update socket fun s => s.notify events).bind (notifyAll rest)

/-- `poll`, where `epoll_wait` fails or reports some descriptors. -/
def poll : Option (List Int) → Option Group
  | none => some { g with events := g.maxEvents }
  | some reports =>
      notifyAll (g.entries reports) { g.report reports with events := g.maxEvents }

inductive Move
  | create (index : Nat) (type : SocketType) (opened : Opened)
  | client (index : Nat) (opened : Opened)
  | accept (index client : Nat) (answer : Accepted)
  | op (index : Nat) (op : Socket.Op)
  | destroy (index : Nat)
  | change (fd : Int) (events : EpollFlag → Bool) (spurious : Bool)
  | poll (reports : Option (List Int))

/-- The socket whose owner makes the move. -/
def Move.uses : Move → Option Nat
  | .accept index _ _ => some index
  | .op index _ => some index
  | .destroy index => some index
  | _ => none

def step (g : Group) : Move → Option Group
  | .create index type opened => some (g.create index type false opened)
  | .client index opened => g.client index opened
  | .accept index client answer => g.accept index client answer
  | .op index op => g.update index fun s => s.apply op
  | .destroy index => g.destroy index
  | .change fd events spurious => some (g.change fd events spurious)
  | .poll reports => g.poll reports

/-- The allocator and the kernel give out what is not in use. -/
def Fresh (index : Nat) (opened : Opened) : Prop :=
  index ∉ g.sockets ∧ opened.fd ∉ g.registered

/-- The socket is open and does not have the event. -/
def Blocked (index : Nat) (flag : EpollFlag) : Prop :=
  ∃ s ∈ g.sockets[index]?, ∃ r ∈ g.registered[s.fd]?, r.edges.level flag = false

/-- What `epoll_wait` may report: everything that is due, as far as there is room. -/
structure Reports (reports : List Int) : Prop where
  nodup : reports.Nodup
  due : ∀ fd ∈ reports, ∃ r ∈ g.registered[fd]?, r.Due
  length_le : reports.length ≤ g.maxEvents
  complete : reports.length = g.maxEvents ∨
    ∀ fd ∈ g.registered.keys, (∃ r ∈ g.registered[fd]?, r.Due) → fd ∈ reports

instance (index : Nat) (flag : EpollFlag) : Decidable (g.Blocked index flag) :=
  inferInstanceAs (Decidable (∃ s ∈ g.sockets[index]?, ∃ r ∈ g.registered[s.fd]?, _ = false))

instance (reports : List Int) : Decidable (g.Reports reports) :=
  decidable_of_iff (reports.Nodup ∧ (∀ fd ∈ reports, ∃ r ∈ g.registered[fd]?, r.Due) ∧
      reports.length ≤ g.maxEvents ∧ (reports.length = g.maxEvents ∨
        ∀ fd ∈ g.registered.keys, (∃ r ∈ g.registered[fd]?, r.Due) → fd ∈ reports))
    ⟨fun ⟨h₁, h₂, h₃, h₄⟩ => ⟨h₁, h₂, h₃, h₄⟩, fun h => ⟨h.nodup, h.due, h.length_le, h.complete⟩⟩

/-- What the kernel may answer. -/
def Allowed (g : Group) : Move → Prop
  | .create index _ opened => g.Fresh index opened
  | .client index opened => g.Fresh index opened
  | .accept _ client (.client opened) => g.Fresh client opened ∧ 0 ≤ opened.fd
  | .accept index _ .again => g.Blocked index .epollIn
  | .accept _ _ .failed => True
  | .op index op => ∀ flag ∈ op.blocked, g.Blocked index flag
  | .destroy _ => True
  | .change _ _ _ => True
  | .poll none => True
  | .poll (some reports) => g.Reports reports

instance (index : Nat) (opened : Opened) : Decidable (g.Fresh index opened) :=
  inferInstanceAs (Decidable (_ ∧ _))

instance (g : Group) (m : Move) : Decidable (g.Allowed m) :=
  match m with
  | .create index _ opened => inferInstanceAs (Decidable (g.Fresh index opened))
  | .client index opened => inferInstanceAs (Decidable (g.Fresh index opened))
  | .accept _ client (.client opened) => inferInstanceAs (Decidable (g.Fresh client opened ∧ 0 ≤ opened.fd))
  | .accept index _ .again => inferInstanceAs (Decidable (g.Blocked index .epollIn))
  | .accept _ _ .failed => .isTrue trivial
  | .op index op => inferInstanceAs (Decidable (∀ flag ∈ op.blocked, g.Blocked index flag))
  | .destroy _ => .isTrue trivial
  | .change _ _ _ => .isTrue trivial
  | .poll none => .isTrue trivial
  | .poll (some reports) => inferInstanceAs (Decidable (g.Reports reports))

variable {g}

/-- Something holds of every descriptor in the epoll set and its socket. -/
def Each (g : Group) (P : Registration → Socket → Prop) : Prop :=
  ∀ (fd : Int) (r : Registration) (s : Socket), g.registered[fd]? = some r →
    g.sockets[r.socket]? = some s → P r s

/-- The epoll set has the descriptors of the sockets that are open, each with its socket. -/
structure Sound (g : Group) : Prop where
  socket_of : ∀ (fd : Int) (r : Registration), g.registered[fd]? = some r →
    0 ≤ fd ∧ ∃ s, g.sockets[r.socket]? = some s ∧ s.fd = fd
  registration_of : ∀ (index : Nat) (s : Socket), g.sockets[index]? = some s → 0 ≤ s.fd →
    ∃ r, g.registered[s.fd]? = some r ∧ r.socket = index
  wellFormed : ∀ (index : Nat) (s : Socket), g.sockets[index]? = some s → s.WellFormed
  count_eq : g.count = g.sockets.size

section Changes

variable {index : Nat} {s t : Socket}

theorem mem_of_getElem? (hs : g.sockets[index]? = some s) : index ∈ g.sockets := by
  rw [Std.ExtTreeMap.mem_iff_isSome_getElem?, hs]
  rfl

theorem put_sockets (s t : Socket) (other : Nat) :
    (g.put index s t).sockets[other]? = if other = index then some t else g.sockets[other]? := by
  rw [put, Std.ExtTreeMap.getElem?_insert]
  simp only [compare_eq_iff_eq, @eq_comm _ index other]

theorem put_size (hs : g.sockets[index]? = some s) (t : Socket) :
    (g.put index s t).sockets.size = g.sockets.size := by
  rw [put, Std.ExtTreeMap.size_insert, if_pos (Std.ExtTreeMap.contains_iff_mem.mpr (mem_of_getElem? hs))]

theorem put_registered (hst : s.Keeps t) (fd : Int) : (g.put index s t).registered[fd]? =
    if fd = s.fd ∧ t.fd ≠ fd then (if 0 ≤ fd then none else g.registered[fd]?) else g.registered[fd]? := by
  have hfd := hst.fd
  simp only [put]
  split
  · rename_i hgone
    rw [Std.ExtTreeMap.getElem?_erase]
    simp only [compare_eq_iff_eq]
    split
    · rename_i heq
      rw [if_pos ⟨heq.symm, by omega⟩, if_pos (by omega)]
    · rename_i hne
      rw [if_neg fun h => hne h.1.symm]
  · rename_i hkept
    split
    · rw [if_neg (by omega)]
    · rfl

theorem Sound.registered_put (h : g.Sound) (hst : s.Keeps t) {fd : Int} {r : Registration} : (g.put index s t).registered[fd]? = some r ↔
      g.registered[fd]? = some r ∧ (fd = s.fd → t.fd = s.fd) := by
  rw [put_registered hst]
  split
  · rename_i hgone
    constructor
    · intro hr
      split at hr
      · cases hr
      · rename_i hneg
        exact absurd (h.socket_of _ _ hr).1 hneg
    · rintro ⟨-, hkept⟩
      exact absurd (hgone.1 ▸ hkept hgone.1) hgone.2
  · rename_i hkept
    refine ⟨fun hr => ⟨hr, fun heq => ?_⟩, fun hr => hr.1⟩
    by_contra hne
    exact hkept ⟨heq, heq ▸ hne⟩

theorem Sound.put (h : g.Sound) (hs : g.sockets[index]? = some s) (hst : s.Keeps t) :
    (g.put index s t).Sound := by
  refine ⟨fun fd r hr => ?_, fun other found hfound hfd => ?_, fun other found hfound => ?_, ?_⟩
  · rw [h.registered_put hst] at hr
    obtain ⟨hfd, owner, howner, heq⟩ := h.socket_of fd r hr.1
    refine ⟨hfd, ?_⟩
    rw [put_sockets]
    split
    · rename_i hself
      rw [hself, hs] at howner
      cases howner
      exact ⟨t, rfl, (hr.2 heq.symm).trans heq⟩
    · exact ⟨owner, howner, heq⟩
  · rw [put_sockets] at hfound
    split at hfound
    · rename_i hself
      cases hfound
      have hkept : t.fd = s.fd := hst.fd.resolve_right (not_lt.mpr hfd)
      obtain ⟨r, hr, hptr⟩ := h.registration_of index s hs (hkept ▸ hfd)
      refine ⟨r, (h.registered_put hst).mpr ⟨hkept ▸ hr, fun _ => hkept⟩, hptr.trans hself.symm⟩
    · rename_i hother
      obtain ⟨r, hr, hptr⟩ := h.registration_of other found hfound hfd
      refine ⟨r, (h.registered_put hst).mpr ⟨hr, fun heq => ?_⟩, hptr⟩
      obtain ⟨r', hr', hptr'⟩ := h.registration_of index s hs (heq ▸ hfd)
      rw [heq, hr'] at hr
      cases hr
      exact absurd (hptr.symm.trans hptr') hother
  · rw [put_sockets] at hfound
    split at hfound
    · cases hfound
      exact hst.wellFormed
    · exact h.wellFormed other found hfound
  · rw [put_size hs]
    exact h.count_eq

theorem Sound.each_put {P : Registration → Socket → Prop} (h : g.Sound)
    (hs : g.sockets[index]? = some s) (hst : s.Keeps t)
    (hP : g.Each fun r s => r.socket ≠ index → P r s)
    (hnew : ∀ r, g.registered[s.fd]? = some r → r.socket = index → P r t) :
    (g.put index s t).Each P := by
  intro fd r found hr hfound
  rw [h.registered_put hst] at hr
  rw [put_sockets] at hfound
  split at hfound
  · rename_i hself
    cases hfound
    obtain ⟨-, owner, howner, heq⟩ := h.socket_of fd r hr.1
    rw [hself, hs] at howner
    cases howner
    exact hnew r (heq ▸ hr.1) hself
  · rename_i hother
    exact hP fd r found hr.1 hfound hother

theorem Sound.update {P : Registration → Socket → Prop} (h : g.Sound) {f : Socket → Socket} {g' : Group}
    (hf : ∀ s, g.sockets[index]? = some s → s.WellFormed → s.Keeps (f s)) (hP : g.Each P)
    (hnew : ∀ r s, g.sockets[index]? = some s → g.registered[s.fd]? = some r → P r s → P r (f s))
    (hg : g.update index f = some g') : g'.Sound ∧ g'.Each P := by
  obtain ⟨s, hs, rfl⟩ := Option.map_eq_some_iff.mp hg
  have hst := hf s hs (h.wellFormed index s hs)
  refine ⟨h.put hs hst, h.each_put hs hst (fun fd r s hr hs _ => hP fd r s hr hs) fun r hr hptr => ?_⟩
  exact hnew r s hs hr (hP s.fd r s hr (hptr ▸ hs))

theorem Sound.erase (h : g.Sound) (hs : g.sockets[index]? = some s) (hfd : s.fd < 0) :
    Sound { g with count := g.count - 1, sockets := g.sockets.erase index } := by
  have hsockets (other : Nat) : (g.sockets.erase index)[other]? =
      if other = index then none else g.sockets[other]? := by
    rw [Std.ExtTreeMap.getElem?_erase]
    simp only [compare_eq_iff_eq, @eq_comm _ index other]
  refine ⟨fun fd r hr => ?_, fun other found hfound => ?_, fun other found hfound => ?_, ?_⟩
  · obtain ⟨hpos, owner, howner, heq⟩ := h.socket_of fd r hr
    refine ⟨hpos, owner, ?_, heq⟩
    rw [hsockets, if_neg, howner]
    intro hself
    rw [hself, hs] at howner
    cases howner
    omega
  · rw [hsockets] at hfound
    split at hfound
    · cases hfound
    · exact h.registration_of other found hfound
  · rw [hsockets] at hfound
    split at hfound
    · cases hfound
    · exact h.wellFormed other found hfound
  · have hmem := mem_of_getElem? hs
    have hpos : 0 < g.sockets.size := by
      rw [← Std.ExtTreeMap.length_keys]
      exact List.length_pos_of_mem (Std.ExtTreeMap.mem_keys.mpr hmem)
    have hcount := h.count_eq
    show g.count - 1 = (g.sockets.erase index).size
    rw [Std.ExtTreeMap.size_erase, if_pos (Std.ExtTreeMap.contains_iff_mem.mpr hmem)]
    omega

theorem Sound.destroy {P : Registration → Socket → Prop} (h : g.Sound) (hP : g.Each P) {g' : Group}
    (hg : g.destroy index = some g') : g'.Sound ∧ g'.Each P := by
  simp only [Group.destroy, Group.update, Option.map_map, Option.map_eq_some_iff, Function.comp_apply] at hg
  obtain ⟨s, hs, rfl⟩ := hg
  have hst := (s.becomes_close false).toKeeps
  have hself : (g.put index s (s.close false)).sockets[index]? = some (s.close false) := by
    rw [put_sockets, if_pos rfl]
  refine ⟨(h.put hs hst).erase hself (s.close_fd_lt false), fun fd r found hr hfound => ?_⟩
  rw [Std.ExtTreeMap.getElem?_erase] at hfound
  split at hfound
  · cases hfound
  · rename_i hother
    rw [put_sockets, if_neg fun heq => hother (compare_eq_iff_eq.mpr heq.symm)] at hfound
    have hkept : (g.put index s (s.close false)).registered[fd]? = some r := hr
    exact hP fd r found ((h.registered_put hst).mp hkept).1 hfound

end Changes

section Creation

variable {index : Nat} {type : SocketType} {connected : Bool} {opened : Opened}

theorem create_sockets (g : Group) (index : Nat) (type : SocketType) (connected : Bool) (opened : Opened)
    (other : Nat) : (g.create index type connected opened).sockets[other]? =
      if other = index then some (.new type connected opened) else g.sockets[other]? := by
  rw [create, Std.ExtTreeMap.getElem?_insert]
  simp only [compare_eq_iff_eq, @eq_comm _ index other]

theorem create_registered (g : Group) (index : Nat) (type : SocketType) (connected : Bool)
    (opened : Opened) (fd : Int) : (g.create index type connected opened).registered[fd]? =
      if 0 ≤ fd ∧ fd = (Socket.new type connected opened).fd then some ⟨index, .watch opened.events⟩
      else g.registered[fd]? := by
  simp only [create]
  split
  · rename_i hopen
    rw [Std.ExtTreeMap.getElem?_insert]
    simp only [compare_eq_iff_eq]
    split
    · rename_i heq
      rw [if_pos ⟨heq ▸ hopen, heq.symm⟩]
    · rename_i hne
      rw [if_neg fun heq => hne heq.2.symm]
  · rename_i hclosed
    rw [if_neg]
    rintro ⟨hopen, heq⟩
    exact hclosed (heq ▸ hopen)

theorem Sound.create {P : Registration → Socket → Prop} (h : g.Sound) (hfresh : g.Fresh index opened)
    (type : SocketType) (connected : Bool) (hP : g.Each P)
    (hnew : ∀ t : Socket, P ⟨index, .watch opened.events⟩ t) :
    (g.create index type connected opened).Sound ∧ (g.create index type connected opened).Each P := by
  have hformed := Socket.wellFormed_new type connected opened
  have hfree (fd : Int) (hfd : 0 ≤ fd) (heq : fd = (Socket.new type connected opened).fd) :
      g.registered[fd]? = none := by
    have hfd' : fd = opened.fd := by
      have := Socket.new_fd type connected opened
      omega
    rw [hfd']
    exact Std.ExtTreeMap.getElem?_eq_none hfresh.2
  have hother (fd : Int) (r : Registration) (hr : g.registered[fd]? = some r) : r.socket ≠ index := by
    obtain ⟨-, owner, howner, -⟩ := h.socket_of fd r hr
    rintro heq
    exact hfresh.1 (mem_of_getElem? (heq ▸ howner))
  refine ⟨⟨fun fd r hr => ?_, fun other found hfound hfd => ?_, fun other found hfound => ?_, ?_⟩,
    fun fd r found hr hfound => ?_⟩
  · rw [create_registered] at hr
    rw [create_sockets]
    split at hr
    · rename_i hself
      cases hr
      exact ⟨hself.1, _, if_pos rfl, hself.2.symm⟩
    · rw [if_neg (hother fd r hr)]
      exact h.socket_of fd r hr
  · rw [create_sockets] at hfound
    rw [create_registered]
    split at hfound
    · rename_i hself
      cases hfound
      rw [if_pos ⟨hfd, rfl⟩]
      exact ⟨_, rfl, hself.symm⟩
    · obtain ⟨r, hr, hptr⟩ := h.registration_of other found hfound hfd
      rw [if_neg fun hself => ?_]
      · exact ⟨r, hr, hptr⟩
      · rw [hfree _ hself.1 hself.2] at hr
        cases hr
  · rw [create_sockets] at hfound
    split at hfound
    · cases hfound
      exact hformed
    · exact h.wellFormed other found hfound
  · have hcount := h.count_eq
    show g.count + 1 = (g.sockets.insert index _).size
    rw [Std.ExtTreeMap.size_insert, if_neg fun hmem => hfresh.1 (Std.ExtTreeMap.contains_iff_mem.mp hmem)]
    omega
  · rw [create_registered] at hr
    rw [create_sockets] at hfound
    split at hr
    · cases hr
      exact hnew found
    · rw [if_neg (hother fd r hr)] at hfound
      exact hP fd r found hr hfound

end Creation

section Reports

theorem Sound.relabel {f : Int → Registration → Registration} {g' : Group} (h : g.Sound)
    (hf : ∀ fd r, (f fd r).socket = r.socket) (hsockets : g'.sockets = g.sockets)
    (hcount : g'.count = g.count)
    (hregistered : ∀ fd : Int, g'.registered[fd]? = g.registered[fd]?.map (f fd)) : g'.Sound := by
  refine ⟨fun fd r hr => ?_, fun index s hs hfd => ?_, fun index s hs => ?_, ?_⟩
  · rw [hregistered] at hr
    obtain ⟨before, hbefore, rfl⟩ := Option.map_eq_some_iff.mp hr
    rw [hf, hsockets]
    exact h.socket_of fd before hbefore
  · rw [hsockets] at hs
    obtain ⟨r, hr, hptr⟩ := h.registration_of index s hs hfd
    rw [hregistered, hr]
    exact ⟨_, rfl, (hf _ _).trans hptr⟩
  · rw [hsockets] at hs
    exact h.wellFormed index s hs
  · rw [hsockets, hcount, h.count_eq]

theorem Each.relabel {P : Registration → Socket → Prop} {f : Int → Registration → Registration} {g' : Group}
    (hf : ∀ fd r, (f fd r).socket = r.socket) (hsockets : g'.sockets = g.sockets)
    (hregistered : ∀ fd : Int, g'.registered[fd]? = g.registered[fd]?.map (f fd))
    (hP : ∀ (fd : Int) (r : Registration) (s : Socket), g.registered[fd]? = some r →
      g.sockets[r.socket]? = some s → P (f fd r) s) : g'.Each P := by
  intro fd r s hr hs
  rw [hregistered] at hr
  obtain ⟨before, hbefore, rfl⟩ := Option.map_eq_some_iff.mp hr
  rw [hf, hsockets] at hs
  exact hP fd before s hbefore hs

theorem change_registered (g : Group) (fd : Int) (events : EpollFlag → Bool) (spurious : Bool)
    (other : Int) : (g.change fd events spurious).registered[other]? = g.registered[other]?.map fun r =>
      if other = fd then { r with edges := r.edges.change events spurious } else r := by
  rw [change, Std.ExtTreeMap.getElem?_modify]
  simp only [compare_eq_iff_eq]
  split
  · rename_i heq
    subst heq
    simp only [if_true]
  · rename_i hne
    simp only [if_neg (Ne.symm hne), Option.map_id_fun', id_eq]

theorem report_registered (g : Group) (reports : List Int) (fd : Int) :
    (g.report reports).registered[fd]? = g.registered[fd]?.map fun r =>
      if fd ∈ reports then { r with edges := r.edges.reported } else r := by
  rw [report, Std.ExtTreeMap.getElem?_map]

theorem Sound.size_le (h : g.Sound) {fds : List Int} (hnodup : fds.Nodup)
    (hfds : ∀ fd ∈ fds, fd ∈ g.registered) : (fds.length : Int) ≤ g.count := by
  let ptr (fd : Int) : Nat := (g.registered[fd]?.map Registration.socket).getD 0
  have hptr (fd : Int) (hfd : fd ∈ fds) : ∃ s, g.sockets[ptr fd]? = some s ∧ s.fd = fd := by
    have hr := Std.ExtTreeMap.getElem?_eq_some_getElem (hfds fd hfd)
    obtain ⟨-, s, hs, heq⟩ := h.socket_of fd _ hr
    refine ⟨s, ?_, heq⟩
    rw [show ptr fd = _ from congrArg (fun o => (Option.map Registration.socket o).getD 0) hr]
    exact hs
  have hinj : ∀ fd ∈ fds, ∀ fd' ∈ fds, ptr fd = ptr fd' → fd = fd' := by
    intro fd hfd fd' hfd' heq
    obtain ⟨s, hs, rfl⟩ := hptr fd hfd
    obtain ⟨s', hs', rfl⟩ := hptr fd' hfd'
    rw [heq, hs'] at hs
    cases hs
    rfl
  have hsub : fds.map ptr ⊆ g.sockets.keys := by
    intro index hindex
    obtain ⟨fd, hfd, rfl⟩ := List.mem_map.mp hindex
    obtain ⟨s, hs, -⟩ := hptr fd hfd
    exact Std.ExtTreeMap.mem_keys.mpr (mem_of_getElem? hs)
  have hle := ((hnodup.map_on hinj).subperm hsub).length_le
  rw [List.length_map, Std.ExtTreeMap.length_keys] at hle
  rw [h.count_eq]
  exact_mod_cast hle

/-- The buffer is large enough: `epoll_wait` reports everything that is due. -/
theorem Sound.complete (h : g.Sound) {reports : List Int} (hreports : g.Reports reports) {fd : Int}
    {r : Registration} (hr : g.registered[fd]? = some r) (hdue : r.Due) : fd ∈ reports := by
  have hmem {x : Int} {y : Registration} (hy : g.registered[x]? = some y) : x ∈ g.registered := by
    rw [Std.ExtTreeMap.mem_iff_isSome_getElem?, hy]
    rfl
  rcases hreports.complete with hfull | hall
  · by_contra hout
    have hnodup : (fd :: reports).Nodup := List.nodup_cons.mpr ⟨hout, hreports.nodup⟩
    have hle := h.size_le hnodup ?_
    · rw [List.length_cons] at hle
      simp only [maxEvents] at hfull
      split at hfull <;> omega
    · rw [List.forall_mem_cons]
      refine ⟨hmem hr, fun other hother => ?_⟩
      obtain ⟨r', hr', -⟩ := hreports.due other hother
      exact hmem hr'
  · exact hall fd (Std.ExtTreeMap.mem_keys.mpr (hmem hr)) ⟨r, hr, hdue⟩

/-- The owner of the socket has been told of everything that holds. -/
def Told (r : Registration) (s : Socket) : Prop :=
  ∀ flag, r.edges.level flag = true → s.Seen flag

theorem Sound.notifyAll (h : g.Sound) {entries : List (Nat × (EpollFlag → Bool))}
    (hptr : ∀ entry ∈ entries, entry.1 ∈ g.sockets)
    (hlevel : g.Each fun r _ => ∀ entry ∈ entries, entry.1 = r.socket → entry.2 = r.edges.level)
    (htold : g.Each fun r s => Told r s ∨ ∃ entry ∈ entries, entry.1 = r.socket) :
    ∃ t, notifyAll entries g = some t ∧ t.Sound ∧ t.Each Told := by
  induction entries generalizing g with
  | nil => exact ⟨g, rfl, h, fun fd r s hr hs => (htold fd r s hr hs).resolve_right (by rintro ⟨_, ⟨⟩, _⟩)⟩
  | cons entry rest ih =>
      obtain ⟨socket, events⟩ := entry
      obtain ⟨s, hs⟩ := Option.isSome_iff_exists.mp
        (Std.ExtTreeMap.mem_iff_isSome_getElem?.mp (hptr _ List.mem_cons_self))
      have hst := ((h.wellFormed socket s hs).notify events).toKeeps
      have hput := h.put hs hst
      have hrest := ih hput (fun entry hentry => ?_) ?_ ?_
      · obtain ⟨t, ht, hresult⟩ := hrest
        refine ⟨t, ?_, hresult⟩
        rw [Group.notifyAll, Group.update, hs, Option.map_some, Option.bind_some, ht]
      · exact Std.ExtTreeMap.mem_insert.mpr (.inr (hptr entry (List.mem_cons_of_mem _ hentry)))
      · refine h.each_put hs hst (fun fd r s' hr hs' _ entry hentry => ?_) fun r hr heq entry hentry => ?_
        · exact hlevel fd r s' hr hs' entry (List.mem_cons_of_mem _ hentry)
        · exact hlevel _ r s hr (heq ▸ hs) entry (List.mem_cons_of_mem _ hentry)
      · refine h.each_put hs hst (fun fd r s' hr hs' hother => ?_) fun r hr heq => .inl fun flag hflag => ?_
        · refine (htold fd r s' hr hs').imp_right ?_
          rintro ⟨entry, hentry, heq⟩
          refine ⟨entry, (List.mem_cons.mp hentry).resolve_left ?_, heq⟩
          rintro rfl
          exact hother heq.symm
        · have hevents := hlevel _ r s hr (heq ▸ hs) _ List.mem_cons_self heq.symm
          exact (h.wellFormed socket s hs).seen_notify ((congrFun hevents flag).trans hflag)

/-- The owner has been told, or the next `epoll_wait` reports the descriptor. -/
def Watched (r : Registration) (s : Socket) : Prop :=
  r.edges.Noticed s.Seen

theorem Sound.poll (h : g.Sound) (hwatched : g.Each Watched) {reports : List Int}
    (hreports : g.Reports reports) :
    ∃ t, g.poll (some reports) = some t ∧ t.Sound ∧ t.Each Told := by
  have hlabel (fd : Int) (r : Registration) :
      (if fd ∈ reports then { r with edges := r.edges.reported } else r).socket = r.socket := by
    split <;> rfl
  have hlevel (fd : Int) (r : Registration) :
      (if fd ∈ reports then { r with edges := r.edges.reported } else r).edges.level = r.edges.level := by
    split <;> rfl
  have hentry {entry : Nat × (EpollFlag → Bool)} (hmem : entry ∈ g.entries reports) :
      ∃ fd ∈ reports, ∃ r, g.registered[fd]? = some r ∧ (r.socket, r.edges.level) = entry := by
    obtain ⟨fd, hfd, heq⟩ := List.mem_filterMap.mp hmem
    exact ⟨fd, hfd, Option.map_eq_some_iff.mp heq⟩
  let reported : Group := { g.report reports with events := g.maxEvents }
  have hregistered : ∀ fd : Int, reported.registered[fd]? = g.registered[fd]?.map fun r =>
      if fd ∈ reports then { r with edges := r.edges.reported } else r := g.report_registered reports
  have hsockets : reported.sockets = g.sockets := rfl
  have hreported : reported.Sound := h.relabel hlabel hsockets rfl hregistered
  refine hreported.notifyAll (fun entry hmem => ?_)
    (.relabel hlabel hsockets hregistered fun fd r s hr hs entry hmem heq => ?_)
    (.relabel hlabel hsockets hregistered fun fd r s hr hs => ?_)
  · obtain ⟨fd, -, r, hr, rfl⟩ := hentry hmem
    obtain ⟨-, s, hs, -⟩ := h.socket_of fd r hr
    exact mem_of_getElem? hs
  · obtain ⟨fd', -, r', hr', rfl⟩ := hentry hmem
    obtain ⟨-, s', hs', rfl⟩ := h.socket_of fd' r' hr'
    obtain ⟨-, s'', hs'', rfl⟩ := h.socket_of fd r hr
    have hsame : r'.socket = r.socket := heq.trans (hlabel _ r)
    rw [hsame, hs''] at hs'
    cases hs'
    rw [hlevel, Option.some.inj (hr.symm.trans hr')]
  · rw [hlabel]
    by_cases hfd : fd ∈ reports
    · exact .inr ⟨_, List.mem_filterMap.mpr ⟨fd, hfd, by rw [hr]; rfl⟩, rfl⟩
    · refine .inl fun flag hflag => ?_
      rw [hlevel] at hflag
      refine hwatched fd r s hr hs ?_ flag hflag
      by_contra hpending
      exact hfd (h.complete hreports hr ⟨Bool.not_eq_false _ ▸ hpending, flag, hflag⟩)

theorem Told.watched {r : Registration} {s : Socket} (h : Told r s) : Watched r s :=
  fun _ => h

end Reports

section Steps

/-- The invariant of the program and the kernel together. -/
structure Attended (g : Group) : Prop extends Sound g where
  watched : g.Each Watched

theorem Blocked.level_eq_false {index : Nat} {flag : EpollFlag} (h : g.Blocked index flag) {s : Socket}
    {r : Registration} (hs : g.sockets[index]? = some s) (hr : g.registered[s.fd]? = some r) :
    r.edges.level flag = false := by
  obtain ⟨s', hs', r', hr', hlevel⟩ := h
  cases hs.symm.trans hs'
  cases hr.symm.trans hr'
  exact hlevel

theorem Attended.update {index : Nat} {f : Socket → Socket} {g' : Group} (h : g.Attended)
    (hf : ∀ s, g.sockets[index]? = some s → s.WellFormed → s.Keeps (f s))
    (hseen : ∀ r s flag, g.sockets[index]? = some s → g.registered[s.fd]? = some r →
      r.edges.level flag = true → s.Seen flag → (f s).Seen flag)
    (hg : g.update index f = some g') : g'.Attended := by
  obtain ⟨hsound, hwatched⟩ := h.toSound.update hf h.watched
    (fun r s hs hr hw => hw.forget fun flag => hseen r s flag hs hr) hg
  exact ⟨hsound, hwatched⟩

theorem Attended.create {index : Nat} {opened : Opened} (h : g.Attended)
    (hfresh : g.Fresh index opened) (type : SocketType) (connected : Bool) :
    (g.create index type connected opened).Attended := by
  obtain ⟨hsound, hwatched⟩ := h.toSound.create hfresh type connected h.watched fun t =>
    Edges.noticed_watch opened.events t.Seen
  exact ⟨hsound, hwatched⟩

theorem Attended.client {index : Nat} {opened : Opened} {g' : Group} (h : g.Attended)
    (hfresh : g.Fresh index opened) (hg : g.client index opened = some g') : g'.Attended := by
  -- nothing about the new descriptor has been reported before `connect`
  have hother : g.Each fun r s =>
      Watched r s ∧ (r.socket = index → ∀ seen, r.edges.Noticed seen) := by
    refine fun fd r s hr hs => ⟨h.watched fd r s hr hs, ?_⟩
    rintro rfl
    exact absurd (mem_of_getElem? hs) hfresh.1
  obtain ⟨hsound, hcreated⟩ := h.toSound.create hfresh .tcp false hother fun t =>
    ⟨Edges.noticed_watch opened.events t.Seen, fun _ seen => Edges.noticed_watch opened.events seen⟩
  obtain ⟨s, hs, rfl⟩ := Option.map_eq_some_iff.mp hg
  have hst := (hsound.wellFormed index s hs).connect
  refine ⟨hsound.put hs hst, hsound.each_put hs hst (fun fd r found hr hfound _ => ?_) fun r hr hptr => ?_⟩
  · exact (hcreated fd r found hr hfound).1
  · exact (hcreated s.fd r s hr (hptr ▸ hs)).2 hptr _

theorem Attended.destroy {index : Nat} {g' : Group} (h : g.Attended)
    (hg : g.destroy index = some g') : g'.Attended := by
  obtain ⟨hsound, hwatched⟩ := h.toSound.destroy h.watched hg
  exact ⟨hsound, hwatched⟩

theorem Attended.accept {index client : Nat} {answer : Accepted} {g' : Group} (h : g.Attended)
    (hok : g.Allowed (.accept index client answer)) (hg : g.accept index client answer = some g') :
    g'.Attended := by
  cases answer with
  | again =>
      have hbecomes {s : Socket} (hs : s.WellFormed) : s.Becomes { s with sourceRead := false } :=
        hs.withReady (fun _ => rfl) hs.write
      refine h.update (fun s _ hformed => (hbecomes hformed).toKeeps) (fun r s flag hs hr hlevel hseen => ?_) hg
      refine (hbecomes (h.wellFormed index s hs)).seen hseen ?_ fun _ => .inl rfl
      rintro rfl
      rw [hok.level_eq_false hs hr] at hlevel
      cases hlevel
  | failed =>
      exact h.update (fun s _ hformed => hformed.becomes.toKeeps) (fun _ _ _ _ _ _ => id) hg
  | client opened =>
      obtain ⟨s, -, hg⟩ := Option.bind_eq_some_iff.mp hg
      have hcreated := h.create hok.1 s.type true
      split at hg
      · exact hcreated.destroy hg
      · cases hg
        exact hcreated

theorem Attended.change (h : g.Attended) (fd : Int) (events : EpollFlag → Bool) (spurious : Bool) :
    (g.change fd events spurious).Attended := by
  have hlabel (fd' : Int) (r : Registration) :
      (if fd' = fd then { r with edges := r.edges.change events spurious } else r).socket = r.socket := by
    split <;> rfl
  have hregistered := g.change_registered fd events spurious
  have hsockets : (g.change fd events spurious).sockets = g.sockets := rfl
  refine ⟨h.toSound.relabel hlabel hsockets rfl hregistered,
    .relabel hlabel hsockets hregistered fun fd' r s hr hs => ?_⟩
  split
  · exact (h.watched fd' r s hr hs).change events spurious
  · exact h.watched fd' r s hr hs

theorem Attended.step {m : Move} {g' : Group} (h : g.Attended) (hok : g.Allowed m)
    (hg : g.step m = some g') : g'.Attended := by
  cases m with
  | create index type opened =>
      cases hg
      exact h.create hok type false
  | client index opened => exact h.client hok hg
  | accept index client answer => exact h.accept hok hg
  | op index op =>
      refine h.update (fun s _ hformed => (hformed.apply op).toKeeps) (fun r s flag hs hr hlevel hseen => ?_) hg
      refine (h.wellFormed index s hs).seen_apply (fun hblocked => ?_) hseen
      rw [(hok flag hblocked).level_eq_false hs hr] at hlevel
      cases hlevel
  | destroy index => exact h.destroy hg
  | change fd events spurious =>
      cases hg
      exact h.change fd events spurious
  | poll reports =>
      cases reports with
      | none =>
          cases hg
          exact ⟨⟨h.socket_of, h.registration_of, h.wellFormed, h.count_eq⟩, h.watched⟩
      | some reports =>
          obtain ⟨t, ht, hsound, htold⟩ := h.toSound.poll h.watched hok
          cases hg.symm.trans ht
          exact ⟨hsound, fun fd r s hr hs => (htold fd r s hr hs).watched⟩

theorem attended_blank : blank.Attended := by
  refine ⟨⟨fun fd r hr => ?_, fun index s hs => ?_, fun index s hs => ?_, rfl⟩, fun fd r s hr => ?_⟩
  · cases hr
  · cases hs
  · cases hs
  · cases hr

end Steps

/-- The groups in the runs of the program with a kernel that answers as it may. -/
abbrev Reachable : Group → Prop :=
  Runs.Reachable (· = blank) step Allowed

theorem Reachable.attended (h : Reachable g) : g.Attended :=
  Runs.Reachable.invariant (fun _ hs => hs ▸ attended_blank) (fun _ _ _ hi hok hg => hi.step hok hg) h

/-- No pointer in the epoll set is dangling, and no open socket is missing from it. -/
theorem registered_iff (h : Reachable g) (fd : Int) (index : Nat) :
    (∃ r, g.registered[fd]? = some r ∧ r.socket = index) ↔
      ∃ s, g.sockets[index]? = some s ∧ s.fd = fd ∧ s.sourceClose = false := by
  have hsound := h.attended.toSound
  constructor
  · rintro ⟨r, hr, rfl⟩
    obtain ⟨hfd, s, hs, heq⟩ := hsound.socket_of fd r hr
    refine ⟨s, hs, heq, ?_⟩
    rw [← Bool.not_eq_true, ← (hsound.wellFormed r.socket s hs).fd_iff]
    omega
  · rintro ⟨s, hs, rfl, hopen⟩
    rw [← Bool.not_eq_true, ← (hsound.wellFormed index s hs).fd_iff, not_lt] at hopen
    exact hsound.registration_of index s hs hopen

/-- No wake-up is lost: whatever an open socket is ready for, its owner knows of it already or
the next `epoll_wait` reports it. -/
theorem due_or_told (h : Reachable g) {index : Nat} {s : Socket} (hs : g.sockets[index]? = some s)
    (hopen : s.sourceClose = false) :
    ∃ r, g.registered[s.fd]? = some r ∧ r.socket = index ∧ (r.Due ∨ Told r s) := by
  have hattended := h.attended
  have hfd : 0 ≤ s.fd := by
    rw [← Bool.not_eq_true, ← (hattended.wellFormed index s hs).fd_iff, not_lt] at hopen
    exact hopen
  obtain ⟨r, hr, rfl⟩ := hattended.registration_of index s hs hfd
  refine ⟨r, hr, rfl, ?_⟩
  cases hpending : r.edges.pending with
  | false => exact .inr (hattended.watched s.fd r s hr hs hpending)
  | true =>
      by_cases hready : ∃ flag, r.edges.level flag = true
      · exact .inl ⟨hpending, hready⟩
      · exact .inr fun flag hflag => absurd ⟨flag, hflag⟩ hready

/-- `poll` never follows a dangling pointer, and afterwards every open socket has been told of
everything. -/
theorem poll_tells (h : Reachable g) {reports : List Int} (hreports : g.Reports reports) :
    ∃ t, g.poll (some reports) = some t ∧
      ∀ (index : Nat) (s : Socket), t.sockets[index]? = some s → s.sourceClose = false →
        ∃ r, t.registered[s.fd]? = some r ∧ r.socket = index ∧ Told r s := by
  have hattended := h.attended
  obtain ⟨t, ht, hsound, htold⟩ := hattended.toSound.poll hattended.watched hreports
  refine ⟨t, ht, fun index s hs hopen => ?_⟩
  rw [← Bool.not_eq_true, ← (hsound.wellFormed index s hs).fd_iff, not_lt] at hopen
  obtain ⟨r, hr, rfl⟩ := hsound.registration_of index s hs hopen
  exact ⟨r, hr, rfl, htold s.fd r s hr hs⟩

section Passive

variable {index : Nat} {g' : Group}

/-- Nobody connects or closes the socket. -/
def Move.Spares (index : Nat) : Move → Prop
  | .client other _ => other ≠ index
  | .accept _ other (.client _) => other ≠ index
  | .op other call => other = index → call.isDatagram = true
  | _ => True

theorem update_sockets {f : Socket → Socket} {other : Nat} (hg : g.update other f = some g') (index : Nat) :
    g'.sockets[index]? = if index = other then g.sockets[index]?.map f else g.sockets[index]? := by
  obtain ⟨s, hs, rfl⟩ := Option.map_eq_some_iff.mp hg
  rw [put_sockets]
  split
  · rename_i heq
    rw [heq, hs, Option.map_some]
  · rfl

theorem destroy_sockets {other : Nat} (hg : g.destroy other = some g') (index : Nat) :
    g'.sockets[index]? = if index = other then none else g.sockets[index]? := by
  obtain ⟨closed, hclosed, rfl⟩ := Option.map_eq_some_iff.mp hg
  rw [Std.ExtTreeMap.getElem?_erase]
  simp only [compare_eq_iff_eq, @eq_comm _ other index]
  split
  · rfl
  · rename_i hne
    rw [update_sockets hclosed, if_neg hne]

theorem accept_sockets {other client : Nat} {answer : Accepted}
    (hspares : (Move.accept other client answer).Spares index) (hg : g.accept other client answer = some g') : g'.sockets[index]? = g.sockets[index]? ∨
      ∃ s, g.sockets[index]? = some s ∧ g'.sockets[index]? = some { s with sourceRead := false } := by
  cases answer with
  | again =>
      rw [update_sockets hg]
      split
      · rename_i heq
        cases g.sockets[index]? with
        | none => exact .inl rfl
        | some s => exact .inr ⟨s, rfl, rfl⟩
      · exact .inl rfl
  | failed =>
      rw [update_sockets hg, Option.map_id_fun, id_eq, ite_self]
      exact .inl rfl
  | client opened =>
      obtain ⟨s, -, hg⟩ := Option.bind_eq_some_iff.mp hg
      have hother : index ≠ client := Ne.symm hspares
      refine .inl ?_
      split at hg
      · rw [destroy_sockets hg, if_neg hother, create_sockets, if_neg hother]
      · cases hg
        rw [create_sockets, if_neg hother]

theorem notifyAll_sockets {entries : List (Nat × (EpollFlag → Bool))} {I : Option Socket → Prop}
    (hI : ∀ s events, I (some s) → I (some (s.notify events))) (hg : notifyAll entries g = some g')
    (h : I g.sockets[index]?) : I g'.sockets[index]? := by
  induction entries generalizing g with
  | nil =>
      cases hg
      exact h
  | cons entry rest ih =>
      obtain ⟨socket, events⟩ := entry
      obtain ⟨u, hu, hrest⟩ := Option.bind_eq_some_iff.mp hg
      refine ih hrest ?_
      rw [update_sockets hu]
      split
      · cases hs : g.sockets[index]? with
        | none =>
            rw [hs] at h
            exact h
        | some s =>
            rw [hs] at h
            exact hI s events h
      · exact h

theorem sockets_step {I : Option Socket → Prop} {m : Move} (hspares : m.Spares index)
    (hread : ∀ s, I (some s) → I (some { s with sourceRead := false }))
    (happly : ∀ s op, op.isDatagram = true → I (some s) → I (some (s.apply op)))
    (hnotify : ∀ s events, I (some s) → I (some (s.notify events)))
    (hnew : ∀ type opened, m = .create index type opened → I (some (.new type false opened)))
    (hnone : m = .destroy index → I none) (hg : g.step m = some g')
    (h : I g.sockets[index]?) : I g'.sockets[index]? := by
  cases m with
  | create other type opened =>
      cases hg
      rw [create_sockets]
      split
      · rename_i heq
        exact hnew type opened (by rw [heq])
      · exact h
  | client other opened =>
      rw [update_sockets hg, if_neg (Ne.symm hspares), create_sockets, if_neg (Ne.symm hspares)]
      exact h
  | accept other client answer =>
      rcases accept_sockets hspares hg with heq | ⟨s, hs, heq⟩
      · exact heq ▸ h
      · rw [hs] at h
        exact heq ▸ hread s h
  | op other op =>
      rw [update_sockets hg]
      split
      · rename_i heq
        cases hs : g.sockets[index]? with
        | none =>
            rw [hs] at h
            exact h
        | some s =>
            rw [hs] at h
            exact happly s op (hspares heq.symm) h
      · exact h
  | destroy other =>
      rw [destroy_sockets hg]
      split
      · rename_i heq
        exact hnone (by rw [heq])
      · exact h
  | change fd events spurious =>
      cases hg
      exact h
  | poll reports =>
      cases reports with
      | none =>
          cases hg
          exact h
      | some reports => exact notifyAll_sockets hnotify hg h

theorem passive_step {m : Move} (hspares : m.Spares index) (hg : g.step m = some g')
    (h : ∀ s ∈ g.sockets[index]?, s.Passive) : ∀ s ∈ g'.sockets[index]?, s.Passive := by
  refine sockets_step (I := fun o => ∀ s ∈ o, s.Passive) hspares ?_ ?_ ?_ ?_ ?_ hg h
  · rintro s hI _ ⟨⟩
    exact (hI s rfl).ready (fun _ => rfl) (hI s rfl).write
  · rintro s op hop hI _ ⟨⟩
    exact (hI s rfl).apply hop
  · rintro s events hI _ ⟨⟩
    exact (hI s rfl).notify events
  · rintro type opened - _ ⟨⟩
    exact Socket.passive_new type opened
  · rintro - _ ⟨⟩

theorem exists_passive_step {m : Move} (hspares : m.Spares index) (hkept : m ≠ .destroy index)
    (hg : g.step m = some g') (h : ∃ s ∈ g.sockets[index]?, s.Passive) :
    ∃ s ∈ g'.sockets[index]?, s.Passive := by
  refine sockets_step (I := fun o => ∃ s ∈ o, s.Passive) hspares ?_ ?_ ?_ ?_ ?_ hg h
  · rintro s ⟨_, ⟨⟩, hpassive⟩
    exact ⟨_, rfl, hpassive.ready (fun _ => rfl) hpassive.write⟩
  · rintro s op hop ⟨_, ⟨⟩, hpassive⟩
    exact ⟨_, rfl, hpassive.apply hop⟩
  · rintro s events ⟨_, ⟨⟩, hpassive⟩
    exact ⟨_, rfl, hpassive.notify events⟩
  · rintro type opened -
    exact ⟨_, rfl, Socket.passive_new type opened⟩
  · exact fun heq => absurd heq hkept

/-- Nobody else can get at a socket. -/
theorem spares_of_allowed {m : Move} (hok : g.Allowed m) (huses : index ∉ m.uses)
    (hmem : index ∈ g.sockets) : m.Spares index := by
  cases m with
  | client other opened =>
      rintro rfl
      exact hok.1 hmem
  | accept other client answer =>
      cases answer with
      | client opened =>
          rintro rfl
          exact hok.1.1 hmem
      | _ => trivial
  | op other op => exact fun heq => absurd (congrArg some heq) huses
  | _ => trivial

/-- A socket that its owner only uses for datagrams or for clients is never closed without an
error, whatever the kernel answers. -/
theorem error_of_sourceClose
    (h : Runs.Reachable (· = blank) step (fun _ m => m.Spares index) g) {s : Socket}
    (hs : g.sockets[index]? = some s) (hclosed : s.sourceClose = true) : s.error = true := by
  have hpassive : ∀ s ∈ g.sockets[index]?, s.Passive := by
    refine Runs.Reachable.invariant (I := fun g => ∀ s ∈ g.sockets[index]?, s.Passive)
      ?_ (fun _ _ _ hI hspares hg => passive_step hspares hg hI) h
    rintro _ rfl _ ⟨⟩
  have hhalves := (hpassive s hs).halves
  rw [hclosed, eq_comm, Bool.and_eq_true] at hhalves
  exact (hpassive s hs).error hhalves.2

end Passive

/-- Exactly these flags. -/
def flags (flags : List EpollFlag) (flag : EpollFlag) : Bool :=
  decide (flag ∈ flags)

/-- The socket of a `UdpListener` fails. -/
def failedRun : List Move :=
  [.create 0 .udp ⟨3, true, true, flags [.epollOut]⟩, .poll (some [3]), .op 0 (.readfrom .again),
    .change 3 (flags [.epollErr]) false, .poll (some [3])]

instance (index : Nat) (m : Move) : Decidable (m.Spares index) :=
  match m with
  | .create _ _ _ => .isTrue trivial
  | .client other _ => inferInstanceAs (Decidable (other ≠ index))
  | .accept _ other (.client _) => inferInstanceAs (Decidable (other ≠ index))
  | .accept _ _ .again => .isTrue trivial
  | .accept _ _ .failed => .isTrue trivial
  | .op other call => inferInstanceAs (Decidable (other = index → call.isDatagram = true))
  | .destroy _ => .isTrue trivial
  | .change _ _ _ => .isTrue trivial
  | .poll _ => .isTrue trivial

theorem failedRun_isSome :
    (Runs.run step (fun _ m => m.Spares 0) blank failedRun).isSome = true := by
  decide +kernel

theorem error_of_sourceClose_failedRun : ∃ s,
    ((Runs.run step (fun _ m => m.Spares 0) blank failedRun).get failedRun_isSome).sockets[0]? = some s ∧
      s.sourceClose = true ∧ s.error = true := by
  have hs : ((Runs.run step (fun _ m => m.Spares 0) blank failedRun).get failedRun_isSome).sockets[0]? =
      some ⟨.udp, -1, false, true, false, false, true, true, true⟩ := by decide +kernel
  exact ⟨_, hs, rfl, error_of_sourceClose
    (.of_run (.start rfl) (Option.some_get failedRun_isSome).symm) hs rfl⟩

/-- A listener has accepted a client, which has sent something and hung up since, and a second
client waits. -/
def servingRun : List Move :=
  [.create 0 .tcp ⟨3, true, true, flags [.epollOut, .epollHup]⟩, .poll (some [3]),
    .change 3 (flags []) false, .change 3 (flags [.epollIn]) false, .poll (some [3]),
    .accept 0 1 (.client ⟨4, true, true, flags [.epollOut]⟩), .change 3 (flags []) false,
    .accept 0 2 .again, .poll (some [4]), .change 3 (flags [.epollIn]) false,
    .change 4 (flags [.epollIn, .epollOut, .epollRdhup]) false]

theorem servingRun_isSome : (Runs.run step Allowed blank servingRun).isSome = true := by
  decide +kernel

def serving : Group :=
  (Runs.run step Allowed blank servingRun).get servingRun_isSome

theorem reachable_serving : Reachable serving :=
  .of_run (.start rfl) (Option.some_get servingRun_isSome).symm

theorem registered_iff_serving : (∃ r, serving.registered[(4 : Int)]? = some r ∧ r.socket = 1) ↔
    ∃ s, serving.sockets[1]? = some s ∧ s.fd = 4 ∧ s.sourceClose = false :=
  registered_iff reachable_serving 4 1

/-- The second client is still to be reported. -/
theorem due_or_told_serving : serving.registered[(3 : Int)]?.any (fun r => decide r.Due) = true ∧
    ∃ r, serving.registered[(3 : Int)]? = some r ∧ r.socket = 0 ∧
      (r.Due ∨ Told r ⟨.tcp, 3, false, false, false, false, false, false, false⟩) := by
  have hs : serving.sockets[0]? = some ⟨.tcp, 3, false, false, false, false, false, false, false⟩ := by
    decide +kernel
  exact ⟨by decide +kernel, due_or_told reachable_serving hs rfl⟩

theorem poll_tells_serving : ∃ t, serving.poll (some [3, 4]) = some t ∧
    ∀ (index : Nat) (s : Socket), t.sockets[index]? = some s → s.sourceClose = false →
      ∃ r, t.registered[s.fd]? = some r ∧ r.socket = index ∧ Told r s :=
  poll_tells reachable_serving (by decide +kernel)

end Group

end IceTunnel
