import IceTunnel.Foundation.Totals
import IceTunnel.Places
import IceTunnel.Polling

namespace IceTunnel

structure TcpListener where
  tcpAddress : Address
  udpAddress : Address
  /-- The number of `socket`. -/
  socket : Nat
  eventRead : Event
  eventClose : Event

/-- `accept` returns a client. -/
def Accepted.returns : Accepted → Bool
  | .client opened => !(Socket.new .tcp true opened).sourceClose
  | .again => false
  | .failed => false

/-- A server with its `tcpListeners`, and the sockets of the program. -/
structure Host where
  server : Server
  group : Group
  tcpListeners : Std.ExtTreeMap Nat TcpListener
  /-- The addresses that `main` asked for.  The code keeps no such record. -/
  requested : List (Address × Address)

namespace Host

variable (h : Host)

/-- `createTcpListener`, with the constructor of the listener. -/
def createTcpListener (tcpAddress udpAddress : Address) (socket : Nat) (opened : Opened) (nowUs : Nat) :
    Host :=
  let index := h.server.lastObjectIndex + 1
  let listener : TcpListener :=
    { tcpAddress := tcpAddress
      udpAddress := udpAddress
      socket := socket
      eventRead := ({} : Event).setTime nowUs false
      eventClose := ({} : Event).setTime nowUs false }
  { h with
    server := { h.server with lastObjectIndex := index }
    group := h.group.create socket .tcp false opened
    tcpListeners := h.tcpListeners.insert index listener }

/-- `onTcpListenerClosed`, with the destructor of the listener. -/
def onTcpListenerClosed (index : Nat) (error : Bool) (socket : Nat) (opened : Opened) (nowUs : Nat) :
    Option Host :=
  h.tcpListeners[index]?.bind fun listener =>
    (h.group.destroy listener.socket).map fun group =>
      let h := { h with group := group, tcpListeners := h.tcpListeners.erase index }
      if error && !listener.udpAddress.isEmpty then
        h.createTcpListener listener.tcpAddress listener.udpAddress socket opened nowUs
      else h

/-- `TcpListener::handle` for `eventRead`. -/
def handleRead (index client : Nat) (answer : Accepted) (nowUs : Nat) (io : Io) : Option Host :=
  h.tcpListeners[index]?.bind fun listener =>
    h.group.sockets[listener.socket]?.bind fun s =>
      if listener.eventRead.isEnabled && s.sourceRead then
        (h.group.accept listener.socket client answer).map fun group =>
          { h with
            group := group
            tcpListeners := h.tcpListeners.insert index
              { listener with eventRead := listener.eventRead.disable.setTime nowUs false }
            server := if answer.returns then h.server.accept listener.udpAddress io else h.server }
      else none

/-- `TcpListener::handle` for `eventClose`. -/
def handleClose (index socket : Nat) (opened : Opened) (nowUs : Nat) : Option Host :=
  h.tcpListeners[index]?.bind fun listener =>
    h.group.sockets[listener.socket]?.bind fun s =>
      if listener.eventClose.isEnabled && s.sourceClose then
        h.onTcpListenerClosed index s.error socket opened nowUs
      else none

inductive Move
  | listen (tcpAddress udpAddress : Address) (socket : Nat) (opened : Opened) (nowUs : Nat)
  | read (index client : Nat) (answer : Accepted) (nowUs : Nat) (io : Io)
  | close (index socket : Nat) (opened : Opened) (nowUs : Nat)
  | group (m : Group.Move)
  | server (m : Server.Move)

def step (h : Host) : Move → Option Host
  | .listen tcpAddress udpAddress socket opened nowUs =>
      some (createTcpListener { h with requested := h.requested ++ [(tcpAddress, udpAddress)] }
        tcpAddress udpAddress socket opened nowUs)
  | .read index client answer nowUs io => h.handleRead index client answer nowUs io
  | .close index socket opened nowUs => h.handleClose index socket opened nowUs
  | .group m => (h.group.step m).map fun group => { h with group := group }
  | .server m => (h.server.step m).map fun server => { h with server := server }

/-- Nobody but the listener touches its socket. -/
def Foreign (m : Group.Move) : Prop :=
  ∀ index ∈ h.tcpListeners.keys, ∀ listener ∈ h.tcpListeners[index]?,
    listener.socket ∉ m.uses

/-- The addresses are resolved, pointers are fresh and the kernel answers as it may. -/
def Allowed (h : Host) : Move → Prop
  | .listen _ udpAddress socket opened _ => udpAddress ≠ [] ∧ h.group.Fresh socket opened
  | .read index client answer _ _ => ∀ listener ∈ h.tcpListeners[index]?,
      h.group.Allowed (.accept listener.socket client answer)
  | .close index socket opened _ => ∀ listener ∈ h.tcpListeners[index]?,
      ∀ group ∈ h.group.destroy listener.socket, group.Fresh socket opened
  | .group m => h.group.Allowed m ∧ h.Foreign m
  | .server (.accept _ _) => False
  | .server _ => True

instance (m : Group.Move) : Decidable (h.Foreign m) :=
  inferInstanceAs (Decidable (∀ index ∈ h.tcpListeners.keys, ∀ listener ∈ h.tcpListeners[index]?, _ ∉ _))

instance (h : Host) (m : Move) : Decidable (h.Allowed m) :=
  match m with
  | .listen _ udpAddress socket opened _ =>
      inferInstanceAs (Decidable (udpAddress ≠ [] ∧ h.group.Fresh socket opened))
  | .read index client answer _ _ => inferInstanceAs (Decidable (∀ listener ∈ h.tcpListeners[index]?,
      h.group.Allowed (.accept listener.socket client answer)))
  | .close index socket opened _ => inferInstanceAs (Decidable (∀ listener ∈ h.tcpListeners[index]?,
      ∀ group ∈ h.group.destroy listener.socket, group.Fresh socket opened))
  | .group m => inferInstanceAs (Decidable (h.group.Allowed m ∧ h.Foreign m))
  | .server (.accept _ _) => .isFalse id
  | .server (.listen _ _) => .isTrue trivial
  | .server (.failListener _ _) => .isTrue trivial
  | .server (.closeListener _) => .isTrue trivial
  | .server (.receive _ _ _ _) => .isTrue trivial
  | .server (.raise _ _ _ _) => .isTrue trivial

/-- How many listeners there are from an address to an address. -/
def listenersFor (addresses : Address × Address) : Int :=
  ∑ index ∈ h.tcpListeners.keys.toFinset,
    Totals.weigh (fun listener => if (listener.tcpAddress, listener.udpAddress) = addresses then 1 else 0)
      h.tcpListeners[index]?

/-- What `Server::step` returns when there are no test listeners. -/
def running : Bool :=
  !h.tcpListeners.isEmpty || !h.server.udpListeners.isEmpty || !h.server.connections.isEmpty

variable {h}

/-- A listener that is going to be called: its socket is open, or has failed and is to be
replaced. -/
structure Listens (g : Group) (listener : TcpListener) : Prop where
  udpAddress_ne : listener.udpAddress ≠ []
  socket : ∃ s ∈ g.sockets[listener.socket]?, s.Passive
  eventRead : listener.eventRead.isEnabled = true
  eventClose : listener.eventClose.isEnabled = true

/-- The listeners have sockets of their own. -/
structure Listening (h : Host) : Prop where
  attended : h.group.Attended
  listens : ∀ (index : Nat) (listener : TcpListener), h.tcpListeners[index]? = some listener →
    Listens h.group listener
  distinct : ∀ (index other : Nat) (listener found : TcpListener),
    h.tcpListeners[index]? = some listener → h.tcpListeners[other]? = some found →
      listener.socket = found.socket → index = other
  index_le : ∀ index ∈ h.tcpListeners, index ≤ h.server.lastObjectIndex

/-- They are the ones that `main` asked for. -/
structure Sound (h : Host) : Prop extends Listening h where
  requested : ∀ addresses, h.listenersFor addresses = h.requested.count addresses

theorem isEnabled_setTime (e : Event) (nowUs : Nat) : (e.setTime nowUs false).isEnabled = true :=
  (e.isEnabled_setTime nowUs).mpr (.inr (Int.natCast_nonneg nowUs))

section Steps

variable {index : Nat} {listener : TcpListener} {g : Group} {h' : Host}

theorem Listens.of_group (hl : Listens h.group listener)
    (hkept : (∃ s ∈ h.group.sockets[listener.socket]?, s.Passive) →
      ∃ s ∈ g.sockets[listener.socket]?, s.Passive) : Listens g listener :=
  ⟨hl.udpAddress_ne, hkept hl.socket, hl.eventRead, hl.eventClose⟩

theorem listenersFor_of_update (index : Nat) (hsame : ∀ other, other ≠ index →
    h'.tcpListeners[other]? = h.tcpListeners[other]?) (addresses : Address × Address) :
    h'.listenersFor addresses = h.listenersFor addresses -
      Totals.weigh (fun l => if (l.tcpAddress, l.udpAddress) = addresses then 1 else 0) h.tcpListeners[index]? +
      Totals.weigh (fun l => if (l.tcpAddress, l.udpAddress) = addresses then 1 else 0) h'.tcpListeners[index]? :=
  Totals.sum_keys_of_update _ _ _ index hsame

theorem mem_tcpListeners (hl : h.tcpListeners[index]? = some listener) : index ∈ h.tcpListeners := by
  rw [Std.ExtTreeMap.mem_iff_isSome_getElem?, hl]
  rfl

theorem Listening.createTcpListener (hs : h.Listening) (tcpAddress : Address) {udpAddress : Address}
    {socket : Nat} {opened : Opened} (hudp : udpAddress ≠ []) (hfresh : h.group.Fresh socket opened) (nowUs : Nat) :
    (h.createTcpListener tcpAddress udpAddress socket opened nowUs).Listening ∧
      ∀ addresses, (h.createTcpListener tcpAddress udpAddress socket opened nowUs).listenersFor addresses =
        h.listenersFor addresses + if (tcpAddress, udpAddress) = addresses then 1 else 0 := by
  have hnew : h.server.lastObjectIndex + 1 ∉ h.tcpListeners := by
    intro hmem
    have hle := hs.index_le _ hmem
    omega
  have hsockets := Group.create_sockets h.group socket .tcp false opened
  have hlisteners (other : Nat) :
      (h.createTcpListener tcpAddress udpAddress socket opened nowUs).tcpListeners[other]? =
        if other = h.server.lastObjectIndex + 1 then
          some ⟨tcpAddress, udpAddress, socket, ({} : Event).setTime nowUs false,
            ({} : Event).setTime nowUs false⟩
        else h.tcpListeners[other]? := by
    rw [Host.createTcpListener, Std.ExtTreeMap.getElem?_insert]
    simp only [compare_eq_iff_eq, @eq_comm _ (h.server.lastObjectIndex + 1) other]
  have hother {other : Nat} {found : TcpListener} (hfound : h.tcpListeners[other]? = some found) :
      found.socket ≠ socket := by
    obtain ⟨s, hsocket, -⟩ := (hs.listens other found hfound).socket
    rintro heq
    exact hfresh.1 (Group.mem_of_getElem? (heq ▸ hsocket))
  refine ⟨⟨hs.attended.create hfresh .tcp false, fun other found hfound => ?_,
    fun first second listener found hlistener hfound hsame => ?_, fun other hmem => ?_⟩, fun addresses => ?_⟩
  · rw [hlisteners] at hfound
    split at hfound
    · cases hfound
      exact ⟨hudp, ⟨_, (hsockets socket).trans (if_pos rfl), Socket.passive_new .tcp opened⟩,
        isEnabled_setTime _ _, isEnabled_setTime _ _⟩
    · refine (hs.listens other found hfound).of_group fun hsocket => ?_
      rw [show (h.createTcpListener tcpAddress udpAddress socket opened nowUs).group =
        h.group.create socket .tcp false opened from rfl, hsockets, if_neg (hother hfound)]
      exact hsocket
  · rw [hlisteners] at hlistener hfound
    split at hlistener <;> split at hfound
    · rename_i hfirst hsecond
      exact hfirst.trans hsecond.symm
    · cases hlistener
      exact absurd hsame.symm (hother hfound)
    · cases hfound
      exact absurd hsame (hother hlistener)
    · exact hs.distinct first second listener found hlistener hfound hsame
  · rcases Std.ExtTreeMap.mem_insert.mp hmem with heq | hold
    · exact (compare_eq_iff_eq.mp heq).ge
    · exact (hs.index_le other hold).trans (Nat.le_succ _)
  · rw [listenersFor_of_update (h := h) (h.server.lastObjectIndex + 1) fun other hne => ?_]
    · rw [hlisteners, if_pos rfl, Std.ExtTreeMap.getElem?_eq_none hnew, Totals.weigh_none,
        Totals.weigh_some, Int.sub_zero]
    · rw [hlisteners, if_neg hne]

theorem Listening.erase (hs : h.Listening) (hl : h.tcpListeners[index]? = some listener)
    (hg : h.group.destroy listener.socket = some g) :
    Listening { h with group := g, tcpListeners := h.tcpListeners.erase index } ∧
      ∀ addresses, listenersFor { h with group := g, tcpListeners := h.tcpListeners.erase index } addresses =
        h.listenersFor addresses -
          if (listener.tcpAddress, listener.udpAddress) = addresses then 1 else 0 := by
  have hlisteners (other : Nat) : (h.tcpListeners.erase index)[other]? =
      if other = index then none else h.tcpListeners[other]? := by
    rw [Std.ExtTreeMap.getElem?_erase]
    simp only [compare_eq_iff_eq, @eq_comm _ index other]
  have hkept {other : Nat} {found : TcpListener}
      (hfound : (h.tcpListeners.erase index)[other]? = some found) :
      other ≠ index ∧ h.tcpListeners[other]? = some found := by
    rw [hlisteners] at hfound
    split at hfound
    · cases hfound
    · rename_i hne
      exact ⟨hne, hfound⟩
  refine ⟨⟨hs.attended.destroy hg, fun other found hfound => ?_,
    fun first second l l' hfirst hsecond hsame => ?_, fun other hmem => ?_⟩, fun addresses => ?_⟩
  · obtain ⟨hne, hfound⟩ := hkept hfound
    refine (hs.listens other found hfound).of_group fun hsocket => ?_
    rw [Group.destroy_sockets hg, if_neg fun heq => hne (hs.distinct other index found listener hfound hl heq)]
    exact hsocket
  · exact hs.distinct first second l l' (hkept hfirst).2 (hkept hsecond).2 hsame
  · exact hs.index_le other (Std.ExtTreeMap.mem_of_mem_erase hmem)
  · rw [listenersFor_of_update (h := h) index fun other hne => ?_]
    · rw [hl, show ({ h with group := g, tcpListeners := h.tcpListeners.erase index } : Host).tcpListeners =
        h.tcpListeners.erase index from rfl, hlisteners, if_pos rfl, Totals.weigh_none, Totals.weigh_some,
        Int.add_zero]
    · exact (hlisteners other).trans (if_neg hne)

/-- A listener whose socket has failed is replaced by one for the same addresses. -/
theorem Sound.onTcpListenerClosed (hs : h.Sound) (hl : h.tcpListeners[index]? = some listener)
    {socket : Nat} {opened : Opened} {nowUs : Nat}
    (hfresh : ∀ g ∈ h.group.destroy listener.socket, g.Fresh socket opened)
    (hstep : h.onTcpListenerClosed index true socket opened nowUs = some h') : h'.Sound := by
  simp only [Host.onTcpListenerClosed, hl, Option.bind_some, Option.map_eq_some_iff] at hstep
  obtain ⟨g, hg, heq⟩ := hstep
  have hudp := (hs.listens index listener hl).udpAddress_ne
  obtain ⟨herased, hfewer⟩ := hs.toListening.erase hl hg
  obtain ⟨hcreated, hmore⟩ := herased.createTcpListener listener.tcpAddress hudp
    (hfresh g hg) nowUs
  rw [if_pos (by simpa using hudp)] at heq
  cases heq
  refine ⟨hcreated, fun addresses => ?_⟩
  rw [hmore, hfewer, Int.sub_add_cancel]
  exact hs.requested addresses

theorem Listens.error (hl : Listens g listener) {s : Socket} (hs : g.sockets[listener.socket]? = some s)
    (hclosed : s.sourceClose = true) : s.error = true := by
  obtain ⟨found, hfound, hpassive⟩ := hl.socket
  cases hs.symm.trans hfound
  have hhalves := hpassive.halves
  rw [hclosed, eq_comm, Bool.and_eq_true] at hhalves
  exact hpassive.error hhalves.2

theorem Sound.handleRead (hs : h.Sound) {client : Nat} {answer : Accepted} {nowUs : Nat} {io : Io}
    (hok : h.Allowed (.read index client answer nowUs io))
    (hstep : h.handleRead index client answer nowUs io = some h') : h'.Sound := by
  obtain ⟨listener, hl, hstep⟩ := Option.bind_eq_some_iff.mp hstep
  obtain ⟨s, -, hstep⟩ := Option.bind_eq_some_iff.mp hstep
  simp only [Option.ite_none_right_eq_some, Option.map_eq_some_iff] at hstep
  obtain ⟨-, g, hg, rfl⟩ := hstep
  have hallowed := hok listener hl
  have hkept {other : Nat} {found : TcpListener} (hfound : h.tcpListeners[other]? = some found) :
      Listens g found := by
    have hlistens := hs.listens other found hfound
    refine hlistens.of_group (Group.exists_passive_step (m := .accept listener.socket client answer) ?_
      nofun hg)
    cases answer with
    | client opened =>
        obtain ⟨found', hsocket, -⟩ := hlistens.socket
        rintro rfl
        exact hallowed.1.1 (Group.mem_of_getElem? hsocket)
    | _ => trivial
  let again : TcpListener :=
    { listener with eventRead := listener.eventRead.disable.setTime nowUs false }
  have hlisteners (other : Nat) : (h.tcpListeners.insert index again)[other]? =
      if other = index then some again else h.tcpListeners[other]? := by
    rw [Std.ExtTreeMap.getElem?_insert]
    simp only [compare_eq_iff_eq, @eq_comm _ index other]
  have hsame {other : Nat} {found : TcpListener}
      (hfound : (h.tcpListeners.insert index again)[other]? = some found) :
      ∃ before, h.tcpListeners[other]? = some before ∧ before.socket = found.socket ∧ Listens g found := by
    rw [hlisteners] at hfound
    split at hfound
    · rename_i heq
      cases hfound
      have hlistens := hkept hl
      exact ⟨listener, heq ▸ hl, rfl, hlistens.udpAddress_ne, hlistens.socket, isEnabled_setTime _ _,
        hlistens.eventClose⟩
    · exact ⟨found, hfound, rfl, hkept hfound⟩
  refine ⟨⟨hs.attended.accept hallowed hg, fun other found hfound => ?_,
    fun first second l l' hfirst hsecond hequal => ?_, fun other hmem => ?_⟩, fun addresses => ?_⟩
  · obtain ⟨-, -, -, hlistens⟩ := hsame hfound
    exact hlistens
  · obtain ⟨before, hbefore, hsocket, -⟩ := hsame hfirst
    obtain ⟨before', hbefore', hsocket', -⟩ := hsame hsecond
    exact hs.distinct first second before before' hbefore hbefore' (by rw [hsocket, hsocket', hequal])
  · have hle : other ≤ h.server.lastObjectIndex := by
      rcases Std.ExtTreeMap.mem_insert.mp hmem with heq | hold
      · exact compare_eq_iff_eq.mp heq ▸ hs.index_le index (mem_tcpListeners hl)
      · exact hs.index_le other hold
    have hgrows := Server.Grows.step (s := h.server) (m := .accept listener.udpAddress io) rfl
    refine hle.trans ?_
    simp only
    split
    · exact hgrows.last_le
    · exact Nat.le_refl _
  · refine (listenersFor_of_update (h := h) index (fun other hne => ?_) addresses).trans ?_
    · exact (hlisteners other).trans (if_neg hne)
    · simp only [hl, Std.ExtTreeMap.getElem?_insert_self, Totals.weigh_some]
      exact (Int.sub_add_cancel _ _).trans (hs.requested addresses)

theorem Sound.step (hs : h.Sound) {m : Move} (hok : h.Allowed m) (hstep : h.step m = some h') :
    h'.Sound := by
  cases m with
  | listen tcpAddress udpAddress socket opened nowUs =>
      cases hstep
      obtain ⟨hcreated, hmore⟩ := Listening.createTcpListener
        (h := { h with requested := h.requested ++ [(tcpAddress, udpAddress)] })
        ⟨hs.attended, hs.listens, hs.distinct, hs.index_le⟩ tcpAddress hok.1 hok.2 nowUs
      refine ⟨hcreated, fun addresses => (hmore addresses).trans ?_⟩
      show h.listenersFor addresses + _ = ((h.requested ++ [(tcpAddress, udpAddress)]).count addresses : Int)
      rw [hs.requested, List.count_append, List.count_singleton]
      push_cast
      rw [beq_eq_decide]
      split <;> simp_all
  | read index client answer nowUs io => exact hs.handleRead hok hstep
  | close index socket opened nowUs =>
      obtain ⟨listener, hl, hstep⟩ := Option.bind_eq_some_iff.mp hstep
      obtain ⟨s, hsocket, hstep⟩ := Option.bind_eq_some_iff.mp hstep
      simp only [Option.ite_none_right_eq_some, Bool.and_eq_true] at hstep
      obtain ⟨⟨-, hclosed⟩, hstep⟩ := hstep
      rw [(hs.listens index listener hl).error hsocket hclosed] at hstep
      exact hs.onTcpListenerClosed hl (hok listener hl) hstep
  | group m =>
      obtain ⟨g, hg, rfl⟩ := Option.map_eq_some_iff.mp hstep
      refine ⟨⟨hs.attended.step hok.1 hg, fun index listener hl => ?_, hs.distinct, hs.index_le⟩, hs.requested⟩
      have hforeign := hok.2 index (Std.ExtTreeMap.mem_keys.mpr (mem_tcpListeners hl)) listener hl
      have hlistens := hs.listens index listener hl
      refine hlistens.of_group (Group.exists_passive_step ?_ ?_ hg)
      · obtain ⟨s, hsocket, -⟩ := hlistens.socket
        exact Group.spares_of_allowed hok.1 hforeign (Group.mem_of_getElem? hsocket)
      · rintro rfl
        exact hforeign rfl
  | server m =>
      obtain ⟨server, hserver, rfl⟩ := Option.map_eq_some_iff.mp hstep
      refine ⟨⟨hs.attended, hs.listens, hs.distinct, fun index hmem => ?_⟩, hs.requested⟩
      exact (hs.index_le index hmem).trans (Server.Grows.step hserver).last_le

theorem sound_initial (server : Server) : Sound ⟨server, .blank, ∅, []⟩ := by
  refine ⟨⟨Group.attended_blank, fun index listener hl => ?_, fun index other listener found hl => ?_,
    fun index hmem => ?_⟩, fun addresses => ?_⟩
  · cases hl
  · cases hl
  · exact absurd hmem Std.ExtTreeMap.not_mem_empty
  · rfl

end Steps

/-- The hosts in the runs of the program. -/
abbrev Reachable (server : Server) : Host → Prop :=
  Runs.Reachable (· = ⟨server, .blank, ∅, []⟩) step Allowed

theorem Reachable.sound {server : Server} (hreach : Reachable server h) : h.Sound :=
  Runs.Reachable.invariant (fun _ heq => heq ▸ sound_initial server)
    (fun _ _ _ hs hok hstep => hs.step hok hstep) hreach

/-- The listeners are those that `main` asked for, however often their sockets fail, and the
server runs on. -/
theorem listenersFor_eq {server : Server} (hreach : Reachable server h) :
    (∀ addresses, h.listenersFor addresses = h.requested.count addresses) ∧
      (h.requested ≠ [] → h.running = true) := by
  have hcount := hreach.sound.requested
  refine ⟨hcount, fun hne => ?_⟩
  obtain ⟨addresses, hmem⟩ := List.exists_mem_of_ne_nil _ hne
  have hpos := List.count_pos_iff.mpr hmem
  cases hempty : h.tcpListeners.isEmpty with
  | false =>
      rw [running, hempty]
      rfl
  | true =>
      have hzero : h.listenersFor addresses = 0 := by
        rw [listenersFor, Std.ExtTreeMap.isEmpty_iff.mp hempty]
        rfl
      rw [hcount] at hzero
      omega

/-- A listener never goes deaf: its socket has failed and `eventClose` is going to replace it, or
`eventRead` waits for the socket and hears of every client, now or after the next `epoll_wait`. -/
theorem hears {server : Server} (hreach : Reachable server h) {index : Nat} {listener : TcpListener}
    (hl : h.tcpListeners[index]? = some listener) :
    ∃ s, h.group.sockets[listener.socket]? = some s ∧
      (s.sourceClose = true ∧ s.error = true ∧ listener.eventClose.isEnabled = true ∨
        s.sourceClose = false ∧ listener.eventRead.isEnabled = true ∧
          ∃ r, h.group.registered[s.fd]? = some r ∧ r.socket = listener.socket ∧
            (r.edges.level .epollIn = true → s.sourceRead = true ∨ r.Due)) := by
  have hs := hreach.sound
  have hlistens := hs.listens index listener hl
  obtain ⟨s, hsocket, hpassive⟩ := hlistens.socket
  refine ⟨s, hsocket, ?_⟩
  cases hclosed : s.sourceClose with
  | true => exact .inl ⟨rfl, hlistens.error hsocket hclosed, hlistens.eventClose⟩
  | false =>
      refine .inr ⟨rfl, hlistens.eventRead, ?_⟩
      have hfd : 0 ≤ s.fd := by
        rw [← not_lt, hpassive.fd_iff, hclosed]
        exact Bool.false_ne_true
      obtain ⟨r, hr, hptr⟩ := hs.attended.registration_of listener.socket s hsocket hfd
      refine ⟨r, hr, hptr, fun hready => ?_⟩
      cases hpending : r.edges.pending with
      | true => exact .inr ⟨hpending, _, hready⟩
      | false =>
          refine .inl ((hs.attended.watched s.fd r s hr (hptr ▸ hsocket) hpending _ hready).resolve_right ?_)
          -- a passive socket whose reading half is closed is closed
          intro hread
          have hhalves := hpassive.halves
          rw [hread, hpassive.closeWrite hread, hclosed] at hhalves
          exact Bool.false_ne_true hhalves

/-- Nothing has happened. -/
def idle : Host :=
  ⟨.blank .small 1000 10, .blank, ∅, []⟩

/-- The first socket cannot be created and is replaced; a second listener fails later, after the
first one has accepted a client. -/
def failingRun : List Move :=
  [.listen [1] [2] 0 ⟨-1, true, true, Group.flags []⟩ 5,
    .close 1 0 ⟨3, true, true, Group.flags [.epollOut, .epollHup]⟩ 6,
    .listen [1] [2] 1 ⟨4, true, true, Group.flags [.epollOut, .epollHup]⟩ 7,
    .group (.poll (some [3, 4])), .group (.change 3 (Group.flags []) false),
    .group (.change 3 (Group.flags [.epollIn]) false), .group (.poll (some [3])),
    .read 2 5 (.client ⟨5, true, true, Group.flags [.epollOut]⟩) 9 (Io.steady 9),
    .group (.change 4 (Group.flags [.epollErr]) false), .group (.poll (some [4, 5]))]

theorem failingRun_isSome : (Runs.run step Allowed idle failingRun).isSome = true := by
  decide +kernel

def failing : Host :=
  (Runs.run step Allowed idle failingRun).get failingRun_isSome

theorem reachable_failing : Reachable (.blank .small 1000 10) failing :=
  .of_run (.start rfl) (Option.some_get failingRun_isSome).symm

theorem listenersFor_eq_failing : failing.listenersFor ([1], [2]) = 2 ∧ failing.running = true := by
  have hrequested : failing.requested = [([1], [2]), ([1], [2])] := by decide +kernel
  obtain ⟨hcount, hrunning⟩ := listenersFor_eq reachable_failing
  refine ⟨?_, hrunning ?_⟩
  · rw [hcount, hrequested]
    rfl
  · rw [hrequested]
    exact List.cons_ne_nil _ _

/-- The listener of the failed socket waits for `eventClose`. -/
theorem hears_failing : ∃ listener, failing.tcpListeners[3]? = some listener ∧
    ∃ s, failing.group.sockets[listener.socket]? = some s ∧
      (s.sourceClose = true ∧ s.error = true ∧ listener.eventClose.isEnabled = true ∨
        s.sourceClose = false ∧ listener.eventRead.isEnabled = true ∧
          ∃ r, failing.group.registered[s.fd]? = some r ∧ r.socket = listener.socket ∧
            (r.edges.level .epollIn = true → s.sourceRead = true ∨ r.Due)) := by
  have hl : failing.tcpListeners[3]?.isSome = true := by decide +kernel
  exact ⟨_, (Option.some_get hl).symm, hears reachable_failing (Option.some_get hl).symm⟩

end Host

end IceTunnel
