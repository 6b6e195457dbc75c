import IceTunnel.Calling

namespace IceTunnel

namespace Server

/-- The protocol state of the connection that is registered at a place. -/
def endpointAt (s : Server) (place : Nat × Address) : Option Endpoint :=
  (s.registeredAt place).bind fun index =>
    s.connections[index]?.map fun client => client.connection.toEndpoint

section Lookup

variable {s t : Server} {place : Nat × Address}

theorem Linked.endpointAt_eq_some_iff (h : s.Linked) {e : Endpoint} :
    s.endpointAt place = some e ↔ ∃ (index : Nat) (client : Client),
      s.connections[index]? = some client ∧ (client.udpListener, client.udpAddress) = place ∧
        client.connection.toEndpoint = e := by
  simp only [endpointAt, Option.bind_eq_some_iff, Option.map_eq_some_iff]
  constructor
  · rintro ⟨index, hindex, client, hclient, rfl⟩
    have hplace := (h.inverse _ _).mpr hindex
    rw [placeOf_of_client hclient] at hplace
    exact ⟨index, client, hclient, Option.some.inj hplace, rfl⟩
  · rintro ⟨index, client, hclient, rfl, rfl⟩
    exact ⟨index, (h.inverse _ _).mp (placeOf_of_client hclient), client, hclient, rfl⟩

theorem Linked.endpointAt_of_client (h : s.Linked) {index : Nat} {client : Client}
    (hclient : s.connections[index]? = some client) :
    s.endpointAt (client.udpListener, client.udpAddress) = some client.connection.toEndpoint :=
  h.endpointAt_eq_some_iff.mpr ⟨index, client, hclient, rfl, rfl⟩

theorem Linked.index_eq (h : s.Linked) {i j : Nat} (hi : s.placeOf i = some place)
    (hj : s.placeOf j = some place) : i = j :=
  Option.some.inj (((h.inverse _ _).mp hi).symm.trans ((h.inverse _ _).mp hj))

theorem Linked.endpointAt_eq (h : s.Linked) (ht : t.Linked)
    (hkept : ∀ (index : Nat) (client : Client), (client.udpListener, client.udpAddress) = place →
      (t.connections[index]? = some client ↔ s.connections[index]? = some client)) :
    t.endpointAt place = s.endpointAt place := by
  apply Option.ext
  intro e
  rw [h.endpointAt_eq_some_iff, ht.endpointAt_eq_some_iff]
  constructor
  · rintro ⟨index, client, hclient, hplace, he⟩
    exact ⟨index, client, (hkept index client hplace).mp hclient, hplace, he⟩
  · rintro ⟨index, client, hclient, hplace, he⟩
    exact ⟨index, client, (hkept index client hplace).mpr hclient, hplace, he⟩

end Lookup

section Moves

variable {s t : Server} {place : Nat × Address} {index : Nat} {m : Connection.Move}

theorem moveConnection_connections (h : s.moveConnection index m = some t) :
    ∃ client d, s.connections[index]? = some client ∧ (s.attach client).step m = some d ∧
      t.connections[index]? =
        (if d.deleted then none else some { client with connection := d }) ∧
      ∀ other, other ≠ index → t.connections[other]? = s.connections[other]? := by
  simp only [moveConnection, Option.bind_eq_some_iff, Option.map_eq_some_iff] at h
  obtain ⟨client, hclient, d, hd, rfl⟩ := h
  refine ⟨client, d, hclient, hd, ?_, fun other hother => ?_⟩
  · split
    · rw [onConnectionClosed_connections, Std.ExtTreeMap.getElem?_erase_self]
    · rw [Std.ExtTreeMap.getElem?_insert_self]
  · have hne : compare index other ≠ .eq := by
      simpa [compare_eq_iff_eq] using hother.symm
    split
    · rw [onConnectionClosed_connections, Std.ExtTreeMap.getElem?_erase, if_neg hne,
        Std.ExtTreeMap.getElem?_insert, if_neg hne]
    · rw [Std.ExtTreeMap.getElem?_insert, if_neg hne]

theorem Registered.moveConnection_endpointAt (h : s.Registered)
    (hmove : s.moveConnection index m = some t) (place : Nat × Address) :
    (s.placeOf index ≠ some place ∧ t.endpointAt place = s.endpointAt place) ∨
      ∃ c d : Connection, s.placeOf index = some place ∧ s.endpointAt place = some c.toEndpoint ∧
        c.step m = some d ∧ t.endpointAt place = if d.deleted then none else some d.toEndpoint := by
  have ht := (h.moveConnection hmove).toLinked
  obtain ⟨client, d, hclient, hd, hself, hothers⟩ := moveConnection_connections hmove
  have hplaceOf := placeOf_of_client hclient
  by_cases hplace : (client.udpListener, client.udpAddress) = place
  · rw [hplace] at hplaceOf
    refine .inr ⟨s.attach client, d, hplaceOf, ?_, hd, ?_⟩
    · rw [← hplace]
      exact h.toLinked.endpointAt_of_client hclient
    · split
      · rename_i hdeleted
        rw [if_pos hdeleted] at hself
        rw [Option.eq_none_iff_forall_ne_some]
        intro e he
        obtain ⟨other, found, hfound, hsame, -⟩ := ht.endpointAt_eq_some_iff.mp he
        have hother : other ≠ index := by
          rintro rfl
          rw [hself] at hfound
          cases hfound
        rw [hothers other hother] at hfound
        have hplaceOther := placeOf_of_client hfound
        rw [hsame] at hplaceOther
        exact hother (h.index_eq hplaceOther hplaceOf)
      · rename_i hdeleted
        rw [if_neg hdeleted] at hself
        rw [← hplace]
        exact ht.endpointAt_of_client hself
  · refine .inl ⟨?_, h.toLinked.endpointAt_eq ht fun other found hfound => ?_⟩
    · rw [hplaceOf]
      exact fun heq => hplace (Option.some.inj heq)
    · by_cases hother : other = index
      · subst hother
        rw [hself, hclient]
        constructor
        · intro heq
          split at heq
          · cases heq
          · obtain rfl := Option.some.inj heq
            exact absurd hfound hplace
        · intro heq
          obtain rfl := Option.some.inj heq
          exact absurd hfound hplace
      · rw [hothers other hother]

theorem Linked.createConnection_endpointAt {listenerIndex : Nat} {listener : UdpListener}
    {udpAddress : Address} (h : s.Linked) (hlistener : s.udpListeners[listenerIndex]? = some listener)
    (hnew : udpAddress ∉ listener.connections) (io : Io) :
    (s.createConnection listenerIndex udpAddress io).1.endpointAt (listenerIndex, udpAddress) =
        some (.initial s.config) ∧
      ∀ place, place ≠ (listenerIndex, udpAddress) →
        (s.createConnection listenerIndex udpAddress io).1.endpointAt place = s.endpointAt place := by
  have ht := h.createConnection hlistener hnew io
  have hnone := (h.not_mem_of_lt (Nat.lt_succ_self s.lastObjectIndex)).1
  let client : Client := ⟨listenerIndex, udpAddress, Connection.new s.config s.getUdpInitialIntervalUs
    s.udpSummaryConnectionsSendIntervalUs io⟩
  have hconnections : (s.createConnection listenerIndex udpAddress io).1.connections =
      s.connections.insert (s.lastObjectIndex + 1) client := by
    simp only [Server.createConnection, hlistener, if_neg hnew]
    rfl
  have hclient : (s.createConnection listenerIndex udpAddress io).1.connections[
      s.lastObjectIndex + 1]? = some client := by
    rw [hconnections, Std.ExtTreeMap.getElem?_insert_self]
  constructor
  · have hendpoint := ht.endpointAt_of_client hclient
    rwa [Connection.new_toEndpoint] at hendpoint
  · intro place hplace
    refine h.endpointAt_eq ht fun index found hfound => ?_
    rw [hconnections, Std.ExtTreeMap.getElem?_insert]
    split
    · rename_i heq
      rw [← Std.LawfulEqCmp.compare_eq_iff_eq.mp heq, hnone]
      constructor
      · intro hsame
        obtain rfl := Option.some.inj hsame
        exact absurd hfound.symm hplace
      · intro hsame
        cases hsame
    · rfl

end Moves

section Growth

/-- A server gives new numbers and keeps its records, and its old listeners keep what they
are for. -/
structure Grows (s t : Server) : Prop where
  last_le : s.lastObjectIndex ≤ t.lastObjectIndex
  opened_grows : s.opened <+: t.opened
  tcpAddress_eq : ∀ (index : Nat) (listener : UdpListener), index ≤ s.lastObjectIndex →
    t.udpListeners[index]? = some listener →
      ∃ old, s.udpListeners[index]? = some old ∧ old.tcpAddress = listener.tcpAddress

variable {s t u : Server} {index listenerIndex : Nat} {listener : UdpListener}

theorem Grows.of_eq (hlast : t.lastObjectIndex = s.lastObjectIndex) (hopened : t.opened = s.opened)
    (hlisteners : t.udpListeners = s.udpListeners) : s.Grows t := by
  refine ⟨hlast.symm.le, by rw [hopened], fun index listener _ hlistener => ?_⟩
  exact ⟨listener, hlisteners ▸ hlistener, rfl⟩

theorem Grows.trans (h : s.Grows t) (h' : t.Grows u) : s.Grows u := by
  refine ⟨h.last_le.trans h'.last_le, h.opened_grows.trans h'.opened_grows, ?_⟩
  intro index listener hindex hlistener
  obtain ⟨between, hbetween, heq⟩ := h'.tcpAddress_eq index listener (hindex.trans h.last_le) hlistener
  obtain ⟨old, hold, heq'⟩ := h.tcpAddress_eq index between hindex hbetween
  exact ⟨old, hold, heq'.trans heq⟩

theorem Grows.of_insert {changed : UdpListener} (ht : t.udpListeners = s.udpListeners.insert index changed)
    (hlistener : s.udpListeners[index]? = some listener)
    (hsame : changed.tcpAddress = listener.tcpAddress) (hlast : s.lastObjectIndex ≤ t.lastObjectIndex)
    (hopened : t.opened = s.opened) : s.Grows t := by
  refine ⟨hlast, by rw [hopened], fun other found _ hfound => ?_⟩
  rw [ht, Std.ExtTreeMap.getElem?_insert] at hfound
  split at hfound
  · rename_i heq
    obtain rfl := Option.some.inj hfound
    rw [← Std.LawfulEqCmp.compare_eq_iff_eq.mp heq]
    exact ⟨listener, hlistener, hsame.symm⟩
  · exact ⟨found, hfound, rfl⟩

theorem grows_createUdpListener (s : Server) (udpAddress tcpAddress : Address) :
    s.Grows (s.createUdpListener udpAddress tcpAddress).1 := by
  refine ⟨Nat.le_succ _, List.prefix_refl _, fun index listener hindex hlistener => ?_⟩
  simp only [createUdpListener, Std.ExtTreeMap.getElem?_insert] at hlistener
  rw [if_neg (by simp only [compare_eq_iff_eq]; omega)] at hlistener
  exact ⟨listener, hlistener, rfl⟩

theorem grows_onUdpListenerClosed (s : Server) (index : Nat) (error : Bool) :
    s.Grows (s.onUdpListenerClosed index error) := by
  have herased : s.Grows { s with udpListeners := s.udpListeners.erase index } := by
    refine ⟨le_refl _, List.prefix_refl _, fun other found _ hfound => ?_⟩
    simp only [Std.ExtTreeMap.getElem?_erase] at hfound
    split at hfound
    · cases hfound
    · exact ⟨found, hfound, rfl⟩
  simp only [onUdpListenerClosed]
  split
  · exact .of_eq rfl rfl rfl
  · split
    · exact herased.trans (grows_createUdpListener _ _ _)
    · exact herased

theorem grows_createConnection (s : Server) (listenerIndex : Nat) (udpAddress : Address) (io : Io) :
    s.Grows (s.createConnection listenerIndex udpAddress io).1 := by
  simp only [createConnection]
  split
  · exact .of_eq rfl rfl rfl
  · rename_i listener hlistener
    split
    · exact ⟨Nat.le_succ _, List.prefix_refl _, fun index found _ hfound => ⟨found, hfound, rfl⟩⟩
    · exact .of_insert rfl hlistener rfl (Nat.le_succ _) rfl

theorem grows_onConnectionClosed (s : Server) (index : Nat) : s.Grows (s.onConnectionClosed index) := by
  simp only [onConnectionClosed]
  split
  · exact .of_eq rfl rfl rfl
  · split
    · exact .of_eq rfl rfl rfl
    · rename_i listener hlistener
      split
      · refine Grows.trans ?_ (grows_onUdpListenerClosed _ _ _)
        exact .of_insert rfl hlistener rfl (le_refl _) rfl
      · exact .of_insert rfl hlistener rfl (le_refl _) rfl

theorem grows_moveConnection {m : Connection.Move} (h : s.moveConnection index m = some t) :
    s.Grows t := by
  simp only [moveConnection, Option.bind_eq_some_iff, Option.map_eq_some_iff] at h
  obtain ⟨client, -, d, -, rfl⟩ := h
  split
  · refine Grows.trans ?_ (grows_onConnectionClosed _ _)
    exact .of_eq rfl rfl rfl
  · exact .of_eq rfl rfl rfl

theorem Grows.step {m : Move} (h : s.step m = some t) : s.Grows t := by
  cases m with
  | listen udpAddress tcpAddress =>
      obtain rfl := Option.some.inj h
      exact grows_createUdpListener _ _ _
  | accept udpAddress io =>
      obtain rfl := Option.some.inj h
      exact (grows_createUdpListener _ _ _).trans (grows_createConnection _ _ _ _)
  | failListener index error =>
      simp only [Server.step, failListener, Option.map_eq_some_iff] at h
      obtain ⟨listener, hlistener, rfl⟩ := h
      exact .of_insert rfl hlistener rfl (le_refl _) rfl
  | closeListener index =>
      simp only [Server.step, closeListener, Option.bind_eq_some_iff, Option.ite_none_right_eq_some] at h
      obtain ⟨listener, hlistener, -, heq⟩ := h
      split at heq
      · obtain rfl := Option.some.inj heq
        exact grows_onUdpListenerClosed _ _ _
      · obtain rfl := Option.some.inj heq
        exact .of_insert rfl hlistener rfl (le_refl _) rfl
  | «raise» index event timeUs io => exact grows_moveConnection h
  | receive listenerIndex udpAddress bytes io =>
      obtain ⟨listener, -, -, ⟨-, rfl⟩ | ⟨-, ⟨index, -, hmoved⟩ |
        ⟨-, ⟨-, -, created, index, io', hcreated, hfirst⟩ | ⟨-, rfl⟩⟩⟩⟩ := receive_cases h
      · exact .of_eq rfl rfl rfl
      · exact grows_moveConnection hmoved
      · have hrecord : s.Grows { s with opened := s.opened ++ [(listenerIndex, udpAddress)] } :=
          ⟨le_refl _, List.prefix_append _ _, fun _ found _ hfound => ⟨found, hfound, rfl⟩⟩
        have hcreation := grows_createConnection
          { s with opened := s.opened ++ [(listenerIndex, udpAddress)] } listenerIndex udpAddress io
        rw [hcreated] at hcreation
        exact (hrecord.trans hcreation).trans (grows_moveConnection hfirst)
      · exact .of_eq rfl rfl rfl

end Growth

section Uses

variable {s t : Server} {place : Nat × Address}

/-- A connection was created at the place: as a client's, or for a numbered packet. -/
def Used (s : Server) (place : Nat × Address) : Prop :=
  place.1 ≤ s.lastObjectIndex ∧ (place ∈ s.opened ∨
    ∀ listener, s.udpListeners[place.1]? = some listener → listener.tcpAddress = [])

theorem Used.grows (h : s.Used place) (hgrows : s.Grows t) : t.Used place := by
  refine ⟨h.1.trans hgrows.last_le, h.2.imp (fun hmem => hgrows.opened_grows.subset hmem) ?_⟩
  intro hclient listener hlistener
  obtain ⟨old, hold, heq⟩ := hgrows.tcpAddress_eq _ _ h.1 hlistener
  rw [← heq]
  exact hclient old hold

/-- What a step can do at a place, where the network delivers the packets in `N`. -/
inductive Goes (N : Packet → Prop) (place : Nat × Address) (s t : Server) : Prop
  | absent : s.endpointAt place = none → t.endpointAt place = none → Goes N place s t
  | moved (e e' : Endpoint) : s.endpointAt place = some e → t.endpointAt place = some e' →
      Protocol.Steps N e e' → Goes N place s t
  | closed (e : Endpoint) : s.endpointAt place = some e → t.endpointAt place = none → Goes N place s t
  /-- In a place that was used before, TCP is opened for the second time. -/
  | opened (e : Endpoint) : s.endpointAt place = none → t.endpointAt place = some e →
      Protocol.Steps N (.initial s.config) e → t.Used place →
      (s.Used place → 2 ≤ t.opened.count place) → Goes N place s t

variable {N : Packet → Prop}

theorem Goes.of_eq (h : t.endpointAt place = s.endpointAt place) : Goes N place s t := by
  cases hs : s.endpointAt place with
  | none => exact .absent hs (h.trans hs)
  | some e => exact .moved e e hs (h.trans hs) .refl

theorem Registered.goes_moveConnection (h : s.Registered) {index : Nat} {m : Connection.Move}
    (hmove : s.moveConnection index m = some t)
    (hnet : s.placeOf index = some place → ∀ packet, m.Delivers packet → N packet) :
    Goes N place s t := by
  rcases h.moveConnection_endpointAt hmove place with ⟨-, heq⟩ | ⟨c, d, hplace, hc, hd, ht⟩
  · exact .of_eq heq
  · by_cases hdeleted : d.deleted = true
    · rw [if_pos hdeleted] at ht
      exact .closed _ hc ht
    · rw [if_neg hdeleted] at ht
      exact .moved _ _ hc ht (Connection.step_refines hd (hnet hplace))

theorem Registered.goes_receive (h : s.Registered) {listenerIndex index : Nat} {udpAddress : Address}
    {listener : UdpListener} (hlistener : s.udpListeners[listenerIndex]? = some listener)
    (hindex : listener.connections[udpAddress]? = some index) {packet : Packet} {io : Io}
    (hmove : s.moveConnection index (.udpRead packet io) = some t)
    (hnet : place = (listenerIndex, udpAddress) → N packet.wire) : Goes N place s t := by
  refine h.goes_moveConnection hmove fun hplace delivered hdelivered => ?_
  obtain ⟨datagram, io', heq, rfl⟩ := hdelivered
  obtain ⟨rfl, -⟩ := Connection.Move.udpRead.inj heq
  have hregistered : s.registeredAt (listenerIndex, udpAddress) = some index := by
    rw [registeredAt_of_listener hlistener, hindex]
  rw [← h.inverse, hplace] at hregistered
  exact hnet (Option.some.inj hregistered)

theorem Registered.goes_open (h : s.Registered) {listenerIndex index : Nat} {udpAddress : Address}
    {listener : UdpListener} (hlistener : s.udpListeners[listenerIndex]? = some listener)
    (hnone : listener.connections[udpAddress]? = none) (hserver : listener.tcpAddress ≠ [])
    {packet : Packet} {io io' : Io} {created : Server}
    (hcreated : { s with opened := s.opened ++ [(listenerIndex, udpAddress)] }.createConnection
      listenerIndex udpAddress io = (created, some index))
    (hfirst : created.moveConnection index (.udpRead packet io') = some t)
    (hnet : place = (listenerIndex, udpAddress) → N packet.wire) : Goes N place s t := by
  have hnew : udpAddress ∉ listener.connections := by
    rw [Std.ExtTreeMap.mem_iff_isSome_getElem?, hnone]
    exact Bool.false_ne_true
  have hregistered := h.openConnection hlistener hserver hnone hcreated
  let s' : Server := { s with opened := s.opened ++ [(listenerIndex, udpAddress)] }
  have h' : s'.Linked := ⟨h.inverse, h.connection_le, h.listener_le, h.sum_eq⟩
  obtain ⟨hself, hothers⟩ := h'.createConnection_endpointAt hlistener hnew io
  obtain ⟨connection, -, heq⟩ := createConnection_eq (s := s') hlistener hnew io
  rw [hcreated] at hself hothers
  have hplaceOf : created.placeOf index = some (listenerIndex, udpAddress) := by
    rw [heq] at hcreated
    obtain ⟨rfl, hindex⟩ := Prod.mk.inj hcreated
    obtain rfl := Option.some.inj hindex
    simp only [placeOf, Std.ExtTreeMap.getElem?_insert_self, Option.map_some]
  by_cases hplace : place = (listenerIndex, udpAddress)
  · have hmem := Std.ExtTreeMap.mem_iff_isSome_getElem?.mpr (Option.isSome_of_eq_some hlistener)
    have hopened : t.opened = s.opened ++ [place] := by
      rw [moveConnection_opened hfirst, hplace]
      rw [heq] at hcreated
      obtain ⟨rfl, -⟩ := Prod.mk.inj hcreated
      rfl
    have hle : place.1 ≤ t.lastObjectIndex := by
      have hgrows := grows_createConnection s' listenerIndex udpAddress io
      rw [hcreated] at hgrows
      rw [hplace]
      exact (h.listener_le _ hmem).trans (hgrows.trans (grows_moveConnection hfirst)).last_le
    have hbefore : s.endpointAt place = none := by
      rw [hplace, endpointAt, registeredAt_of_listener hlistener, hnone, Option.bind_none]
    obtain ⟨e, he, hsteps⟩ : ∃ e, t.endpointAt place = some e ∧
        Protocol.Steps N (.initial s.config) e := by
      rw [hplace] at hbefore ⊢
      rcases hregistered.moveConnection_endpointAt hfirst (listenerIndex, udpAddress) with
        ⟨-, hsame⟩ | ⟨c, d, -, hc, hd, ht⟩
      · exact ⟨_, hsame.trans hself, .refl⟩
      · rw [Connection.step_deleted hd (by rintro _ _ ⟨⟩), if_neg Bool.false_ne_true] at ht
        rw [hself] at hc
        refine ⟨_, ht, ?_⟩
        rw [Option.some.inj hc]
        refine Connection.step_refines hd fun delivered hdelivered => ?_
        obtain ⟨datagram, io'', hmove, rfl⟩ := hdelivered
        obtain ⟨rfl, -⟩ := Connection.Move.udpRead.inj hmove
        exact hnet hplace
    refine .opened e hbefore he hsteps ⟨hle, .inl ?_⟩ fun hused => ?_
    · rw [hopened]
      exact List.mem_append_right _ List.mem_cons_self
    · have hmem : place ∈ s.opened := by
        refine hused.2.resolve_right fun hclient => hserver (hclient listener ?_)
        rw [hplace]
        exact hlistener
      have hcount := List.count_pos_iff.mpr hmem
      rw [hopened, List.count_append, List.count_singleton_self]
      omega
  · rcases hregistered.moveConnection_endpointAt hfirst place with
      ⟨-, hsame⟩ | ⟨c, d, hother, -⟩
    · exact .of_eq (hsame.trans (hothers place hplace))
    · rw [hplaceOf] at hother
      exact absurd (Option.some.inj hother).symm hplace

theorem Registered.goes_accept (h : s.Registered) (udpAddress : Address) (io : Io) :
    Goes N place s (s.accept udpAddress io) := by
  obtain ⟨listener, hlistener, hempty, hclient⟩ := s.createUdpListener_self [] []
  have hnew : udpAddress ∉ listener.connections := by
    rw [hempty]
    exact Std.ExtTreeMap.not_mem_empty
  have hlinked := h.toLinked.createUdpListener [] []
  have hbetween : (s.createUdpListener [] []).1.endpointAt place = s.endpointAt place :=
    h.toLinked.endpointAt_eq hlinked fun _ _ _ => Iff.rfl
  obtain ⟨hself, hothers⟩ := hlinked.createConnection_endpointAt hlistener hnew io
  have hgrows := grows_createConnection (s.createUdpListener [] []).1 (s.createUdpListener [] []).2
    udpAddress io
  change Goes N place s ((s.createUdpListener [] []).1.createConnection (s.createUdpListener [] []).2
    udpAddress io).1
  by_cases hplace : place = ((s.createUdpListener [] []).2, udpAddress)
  · have hnumber : place.1 = s.lastObjectIndex + 1 := by
      rw [hplace]
      rfl
    refine .opened (.initial s.config) ?_ ?_ .refl ⟨?_, .inr fun found hfound => ?_⟩ fun hused => ?_
    · rw [endpointAt, registeredAt, hnumber,
        (h.not_mem_of_lt (Nat.lt_succ_self s.lastObjectIndex)).2]
      rfl
    · rw [hplace]
      exact hself
    · rw [hnumber]
      exact hgrows.last_le
    · rw [hplace] at hfound
      obtain ⟨old, hold, heq⟩ := hgrows.tcpAddress_eq _ found (le_refl _) hfound
      obtain rfl := Option.some.inj (hlistener.symm.trans hold)
      rw [← heq, hclient]
    · have := hused.1
      omega
  · exact .of_eq ((hothers place hplace).trans hbetween)

/-- What a step of a server does at a place. -/
theorem Registered.goes_step (h : s.Registered) {m : Move} (hok : Resolved m)
    (hstep : s.step m = some t)
    (hnet : ∀ bytes io, m = .receive place.1 place.2 bytes io →
      (({} : Packet).receive s.udpReceivePacketSize bytes).checkCrc32 = true →
        N (({} : Packet).receive s.udpReceivePacketSize bytes).wire) : Goes N place s t := by
  have hkept : t.connections = s.connections → Goes N place s t := fun heq =>
    .of_eq (h.toLinked.endpointAt_eq (h.step hok hstep).toLinked fun _ _ _ => by rw [heq])
  cases m with
  | listen udpAddress tcpAddress =>
      obtain rfl := Option.some.inj hstep
      exact hkept rfl
  | accept udpAddress io =>
      obtain rfl := Option.some.inj hstep
      exact h.goes_accept udpAddress io
  | failListener index error =>
      simp only [Server.step, failListener, Option.map_eq_some_iff] at hstep
      obtain ⟨listener, -, rfl⟩ := hstep
      exact hkept rfl
  | closeListener index =>
      simp only [Server.step, closeListener, Option.bind_eq_some_iff,
        Option.ite_none_right_eq_some] at hstep
      obtain ⟨listener, -, -, heq⟩ := hstep
      split at heq
      · obtain rfl := Option.some.inj heq
        exact hkept (onUdpListenerClosed_connections _ _)
      · obtain rfl := Option.some.inj heq
        exact hkept rfl
  | «raise» index event timeUs io =>
      refine h.goes_moveConnection hstep fun _ packet hdelivered => ?_
      obtain ⟨datagram, io', heq, -⟩ := hdelivered
      cases heq
  | receive listenerIndex udpAddress bytes io =>
      obtain ⟨listener, hlistener, -, ⟨-, rfl⟩ | ⟨hgood, ⟨index, hindex, hmoved⟩ |
        ⟨hnone, ⟨hserver, -, created, index, io', hcreated, hfirst⟩ | ⟨-, rfl⟩⟩⟩⟩ :=
          receive_cases hstep
      · exact hkept rfl
      · simp only [Bool.or_eq_false_iff, Bool.not_eq_false'] at hgood
        refine h.goes_receive hlistener hindex hmoved fun hplace => ?_
        subst hplace
        exact hnet bytes io rfl hgood.2
      · simp only [Bool.or_eq_false_iff, Bool.not_eq_false'] at hgood
        refine h.goes_open hlistener hnone hserver hcreated hfirst fun hplace => ?_
        subst hplace
        exact hnet bytes io rfl hgood.2
      · exact hkept rfl

end Uses

end Server

end IceTunnel
