import IceTunnel.Foundation.Links
import IceTunnel.Pacing
import IceTunnel.Server

namespace IceTunnel

namespace Ledger

theorem summary_step {R : Ledger → Bool → Packet → Prop} {l l' : Ledger} (hstep : Step R l l') :
    l'.udpSummaryConnectionsSendIntervalUs - l'.udpSendIntervalUs =
      l.udpSummaryConnectionsSendIntervalUs - l.udpSendIntervalUs := by
  have hdelivered : ∀ (success : Bool) (measureIndex size : Int),
      (l.toPacing.onUdpDelivered l.toConfig success measureIndex size).udpSummaryConnectionsSendIntervalUs -
          (l.toPacing.onUdpDelivered l.toConfig success measureIndex size).udpSendIntervalUs =
        l.udpSummaryConnectionsSendIntervalUs - l.udpSendIntervalUs := by
    intro success measureIndex size
    cases hm : l.udpSendMeasures[measureIndex]? with
    | none => rw [Pacing.onUdpDelivered_of_none _ _ _ _ _ hm]
    | some m =>
        rw [Pacing.onUdpDelivered_of_some _ _ _ _ _ hm]
        simp only
        split
        · simp only [Pacing.evaluate]
          omega
        · rfl
  cases hstep with
  | transmit index packet timeUs measureUs =>
      obtain ⟨measureIndex, measures, heq⟩ := onUdpSent_getD l.toPacing l.toConfig
        l.udpSendIntervalUs packet.getSize measureUs
      rw [heq]
  | resend index packet => exact hdelivered _ _ _
  | forget index packet =>
      simp only
      split
      · rfl
      · exact hdelivered _ _ _
  | _ => rfl

end Ledger

namespace Connection

theorem summary_step {c d : Connection} {m : Move} (h : c.step m = some d) :
    d.udpSummaryConnectionsSendIntervalUs - d.udpSendIntervalUs =
      c.udpSummaryConnectionsSendIntervalUs - c.udpSendIntervalUs := by
  have hentries := step_entries (reportsMeet_anyReport c m) h
  exact Runs.chain_invariant (I := fun l : Ledger => l.udpSummaryConnectionsSendIntervalUs -
      l.udpSendIntervalUs = c.udpSummaryConnectionsSendIntervalUs - c.udpSendIntervalUs)
    (fun _ _ hl hstep => (Ledger.summary_step hstep).trans hl) hentries rfl

end Connection

/-- A listener with one connection. -/
def UdpListener.Single (listener : UdpListener) : Prop :=
  ∃ (udpAddress : Address) (index : Nat), listener.connections =
    (∅ : Std.ExtTreeMap Address Nat).insert udpAddress index

theorem UdpListener.Single.erase {listener : UdpListener} {udpAddress : Address} {index : Nat}
    (hsingle : listener.Single) (hindex : listener.connections[udpAddress]? = some index) :
    listener.connections.erase udpAddress = ∅ := by
  obtain ⟨single, singleIndex, heq⟩ := hsingle
  rw [heq, Std.ExtTreeMap.getElem?_insert] at hindex
  have hsame : compare single udpAddress = .eq := by
    by_contra hne
    rw [if_neg hne] at hindex
    simp at hindex
  obtain rfl := Std.LawfulEqCmp.compare_eq_iff_eq.mp hsame
  apply Std.ExtTreeMap.ext_getElem?
  intro other
  rw [heq, Std.ExtTreeMap.getElem?_erase, Std.ExtTreeMap.getElem?_insert]
  split
  · simp
  · rfl

namespace Server

/-- Where a connection says that it is registered. -/
def placeOf (s : Server) (index : Nat) : Option (Nat × Address) :=
  s.connections[index]?.map fun client => (client.udpListener, client.udpAddress)

/-- What is registered in a listener under an address. -/
def registeredAt (s : Server) (place : Nat × Address) : Option Nat :=
  s.udpListeners[place.1]?.bind fun listener => listener.connections[place.2]?

/-- The sum over the connections that there are. -/
def sumOfIntervals (s : Server) : Int :=
  ∑ index ∈ s.connections.keys.toFinset,
    Totals.weigh (fun client : Client => client.connection.udpSendIntervalUs) s.connections[index]?

/-- Connections and listeners point at each other, and the books are right. -/
structure Linked (s : Server) : Prop where
  inverse : Links.Inverse s.placeOf s.registeredAt
  connection_le : ∀ index ∈ s.connections, index ≤ s.lastObjectIndex
  listener_le : ∀ index ∈ s.udpListeners, index ≤ s.lastObjectIndex
  sum_eq : s.udpSummaryConnectionsSendIntervalUs = s.sumOfIntervals

/-- A listener without `tcpAddress` belongs to one connection. -/
structure Registered (s : Server) : Prop extends Linked s where
  single : ∀ (index : Nat) (listener : UdpListener), s.udpListeners[index]? = some listener →
    listener.tcpAddress = [] → listener.Single

section Links

variable {s t : Server}

theorem registeredAt_of_listener {index : Nat} {listener : UdpListener}
    (h : s.udpListeners[index]? = some listener) (udpAddress : Address) :
    s.registeredAt (index, udpAddress) = listener.connections[udpAddress]? := by
  simp only [registeredAt, h, Option.bind_some]

theorem placeOf_of_client {index : Nat} {client : Client} (h : s.connections[index]? = some client) :
    s.placeOf index = some (client.udpListener, client.udpAddress) := by
  simp only [placeOf, h, Option.map_some]

theorem Linked.listener (h : s.Linked) {index : Nat} {client : Client}
    (hclient : s.connections[index]? = some client) :
    ∃ listener, s.udpListeners[client.udpListener]? = some listener ∧
      listener.connections[client.udpAddress]? = some index := by
  have hplace := (h.inverse _ _).mp (placeOf_of_client hclient)
  exact Option.bind_eq_some_iff.mp hplace

theorem Linked.client (h : s.Linked) {index listenerIndex : Nat} {listener : UdpListener}
    {udpAddress : Address} (hlistener : s.udpListeners[listenerIndex]? = some listener)
    (hindex : listener.connections[udpAddress]? = some index) :
    ∃ client, s.connections[index]? = some client ∧ client.udpListener = listenerIndex ∧
      client.udpAddress = udpAddress := by
  have hplace : s.placeOf index = some (listenerIndex, udpAddress) := by
    rw [h.inverse, registeredAt_of_listener hlistener, hindex]
  obtain ⟨client, hclient, heq⟩ := Option.map_eq_some_iff.mp hplace
  exact ⟨client, hclient, congrArg Prod.fst heq, congrArg Prod.snd heq⟩

theorem Linked.of_eq (h : s.Linked) (hplace : t.placeOf = s.placeOf)
    (hregistered : t.registeredAt = s.registeredAt)
    (hconnection : ∀ index ∈ t.connections, index ≤ t.lastObjectIndex)
    (hlistener : ∀ index ∈ t.udpListeners, index ≤ t.lastObjectIndex)
    (hsum : t.udpSummaryConnectionsSendIntervalUs = t.sumOfIntervals) : t.Linked := by
  refine ⟨?_, hconnection, hlistener, hsum⟩
  rw [hplace, hregistered]
  exact h.inverse

end Links

section Operations

variable {s t : Server} {index listenerIndex : Nat} {listener listener' : UdpListener}
  {udpAddress : Address}

theorem Linked.not_mem_of_lt (h : s.Linked) (hindex : s.lastObjectIndex < index) :
    s.connections[index]? = none ∧ s.udpListeners[index]? = none := by
  constructor
  · apply Std.ExtTreeMap.getElem?_eq_none
    intro hmem
    exact absurd (h.connection_le index hmem) (by omega)
  · apply Std.ExtTreeMap.getElem?_eq_none
    intro hmem
    exact absurd (h.listener_le index hmem) (by omega)

theorem mem_insert_le {β : Type} {map : Std.ExtTreeMap Nat β} {last last' key : Nat} {value : β}
    (h : ∀ index ∈ map, index ≤ last) (hle : last ≤ last') (hkey : key ≤ last') :
    ∀ index ∈ map.insert key value, index ≤ last' := by
  intro index hindex
  rcases Std.ExtTreeMap.mem_insert.mp hindex with heq | hmem
  · rw [← Std.LawfulEqCmp.compare_eq_iff_eq.mp heq]
    exact hkey
  · exact le_trans (h index hmem) hle

theorem Linked.createUdpListener (h : s.Linked) (udpAddress tcpAddress : Address) :
    (s.createUdpListener udpAddress tcpAddress).1.Linked := by
  have hnone := (h.not_mem_of_lt (Nat.lt_succ_self s.lastObjectIndex)).2
  refine h.of_eq rfl ?_ ?_ ?_ h.sum_eq
  · funext place
    simp only [registeredAt, Server.createUdpListener, Std.ExtTreeMap.getElem?_insert,
      compare_eq_iff_eq]
    split
    · rename_i heq
      rw [← heq, hnone]
      simp
    · rfl
  · intro index hindex
    exact le_trans (h.connection_le index hindex) (Nat.le_succ _)
  · exact mem_insert_le h.listener_le (Nat.le_succ _) (le_refl _)

theorem Linked.onUdpListenerClosed (h : s.Linked) (hlistener : s.udpListeners[index]? = some listener)
    (hempty : listener.connections = ∅) (error : Bool) : (s.onUdpListenerClosed index error).Linked := by
  have hclosed : Linked { s with udpListeners := s.udpListeners.erase index } := by
    refine h.of_eq rfl ?_ h.connection_le ?_ h.sum_eq
    · funext place
      simp only [registeredAt, Std.ExtTreeMap.getElem?_erase, compare_eq_iff_eq]
      split
      · rename_i heq
        rw [← heq, hlistener, Option.bind_some, hempty]
        simp
      · rfl
    · intro other hother
      exact h.listener_le other (Std.ExtTreeMap.mem_of_mem_erase hother)
  simp only [Server.onUdpListenerClosed, hlistener]
  split
  · exact hclosed.createUdpListener _ _
  · exact hclosed

theorem Linked.replaceListener (h : s.Linked) (hlistener : s.udpListeners[index]? = some listener)
    (hkept : listener'.connections = listener.connections) :
    Linked { s with udpListeners := s.udpListeners.insert index listener' } := by
  refine h.of_eq rfl ?_ h.connection_le ?_ h.sum_eq
  · funext place
    simp only [registeredAt, Std.ExtTreeMap.getElem?_insert, compare_eq_iff_eq]
    split
    · rename_i heq
      rw [← heq, hlistener, Option.bind_some, Option.bind_some, hkept]
    · rfl
  · have hmem := Std.ExtTreeMap.mem_iff_isSome_getElem?.mpr (Option.isSome_of_eq_some hlistener)
    exact mem_insert_le h.listener_le (le_refl _) (h.listener_le index hmem)

theorem Linked.replaceConnection (h : s.Linked) {client : Client}
    (hclient : s.connections[index]? = some client) {connection : Connection}
    (hsum : connection.udpSummaryConnectionsSendIntervalUs - connection.udpSendIntervalUs =
      s.udpSummaryConnectionsSendIntervalUs - client.connection.udpSendIntervalUs) :
    Linked { s with
      connections := s.connections.insert index { client with connection := connection }
      udpSummaryConnectionsSendIntervalUs := connection.udpSummaryConnectionsSendIntervalUs } := by
  refine h.of_eq ?_ rfl ?_ h.listener_le ?_
  · funext other
    simp only [placeOf, Std.ExtTreeMap.getElem?_insert, compare_eq_iff_eq]
    split
    · rename_i heq
      rw [← heq, hclient, Option.map_some, Option.map_some]
    · rfl
  · have hmem := Std.ExtTreeMap.mem_iff_isSome_getElem?.mpr (Option.isSome_of_eq_some hclient)
    exact mem_insert_le h.connection_le (le_refl _) (h.connection_le index hmem)
  · have hupdate := Totals.sum_keys_of_update
      (fun client : Client => client.connection.udpSendIntervalUs) s.connections
      (s.connections.insert index { client with connection := connection }) index
      fun other hother => by
        rw [Std.ExtTreeMap.getElem?_insert, if_neg (by simpa [compare_eq_iff_eq] using hother.symm)]
    have hold := h.sum_eq
    rw [Std.ExtTreeMap.getElem?_insert_self, hclient, Totals.weigh_some, Totals.weigh_some] at hupdate
    simp only [sumOfIntervals] at hold ⊢
    rw [hupdate, ← hold]
    simp only
    omega

theorem createConnection_eq (hlistener : s.udpListeners[listenerIndex]? = some listener)
    (hnew : udpAddress ∉ listener.connections) (io : Io) :
    ∃ connection : Connection,
      connection.udpSummaryConnectionsSendIntervalUs =
        s.udpSummaryConnectionsSendIntervalUs + connection.udpSendIntervalUs ∧
      s.createConnection listenerIndex udpAddress io = ({ s with
        lastObjectIndex := s.lastObjectIndex + 1
        udpSummaryConnectionsSendIntervalUs := connection.udpSummaryConnectionsSendIntervalUs
        connections := s.connections.insert (s.lastObjectIndex + 1)
          ⟨listenerIndex, udpAddress, connection⟩
        udpListeners := s.udpListeners.insert listenerIndex { listener with
          connections := listener.connections.insert udpAddress (s.lastObjectIndex + 1) } },
        some (s.lastObjectIndex + 1)) := by
  let connection := Connection.new s.config s.getUdpInitialIntervalUs
    s.udpSummaryConnectionsSendIntervalUs io
  have hledger := Connection.new_ledger s.config s.getUdpInitialIntervalUs
    s.udpSummaryConnectionsSendIntervalUs io
  have hsum : connection.udpSummaryConnectionsSendIntervalUs =
      s.udpSummaryConnectionsSendIntervalUs + s.getUdpInitialIntervalUs :=
    congrArg (fun l : Ledger => l.udpSummaryConnectionsSendIntervalUs) hledger
  have hinterval : connection.udpSendIntervalUs = s.getUdpInitialIntervalUs :=
    congrArg (fun l : Ledger => l.udpSendIntervalUs) hledger
  refine ⟨connection, by rw [hsum, hinterval], ?_⟩
  simp only [createConnection, hlistener, if_neg hnew]
  rfl

theorem Linked.createConnection (h : s.Linked)
    (hlistener : s.udpListeners[listenerIndex]? = some listener)
    (hnew : udpAddress ∉ listener.connections) (io : Io) :
    (s.createConnection listenerIndex udpAddress io).1.Linked := by
  obtain ⟨connection, hsum, heq⟩ := createConnection_eq hlistener hnew io
  have hnone := (h.not_mem_of_lt (Nat.lt_succ_self s.lastObjectIndex)).1
  have hfree : s.registeredAt (listenerIndex, udpAddress) = none := by
    rw [registeredAt_of_listener hlistener]
    exact Std.ExtTreeMap.getElem?_eq_none hnew
  have hplace : s.placeOf (s.lastObjectIndex + 1) = none := by
    rw [placeOf, hnone, Option.map_none]
  rw [heq]
  refine ⟨h.inverse.link hplace hfree ?_ ?_ ?_ ?_, ?_, ?_, ?_⟩
  · simp [placeOf]
  · simp [registeredAt]
  · intro other hother
    simp only [placeOf, Std.ExtTreeMap.getElem?_insert, compare_eq_iff_eq, if_neg hother.symm]
  · rintro ⟨otherListener, otherAddress⟩ hother
    simp only [registeredAt, Std.ExtTreeMap.getElem?_insert, compare_eq_iff_eq]
    split
    · rename_i hsame
      subst hsame
      have haddress : compare udpAddress otherAddress ≠ .eq := by
        intro hsame
        exact hother (by rw [Std.LawfulEqCmp.compare_eq_iff_eq.mp hsame])
      rw [hlistener, Option.bind_some, Option.bind_some, Std.ExtTreeMap.getElem?_insert,
        if_neg haddress]
    · rfl
  · exact mem_insert_le h.connection_le (Nat.le_succ _) (le_refl _)
  · have hmem := Std.ExtTreeMap.mem_iff_isSome_getElem?.mpr (Option.isSome_of_eq_some hlistener)
    exact mem_insert_le h.listener_le (Nat.le_succ _) (le_trans (h.listener_le _ hmem) (Nat.le_succ _))
  · have hupdate := Totals.sum_keys_of_update
      (fun client : Client => client.connection.udpSendIntervalUs) s.connections
      (s.connections.insert (s.lastObjectIndex + 1) ⟨listenerIndex, udpAddress, connection⟩)
      (s.lastObjectIndex + 1) fun other hother => by
        rw [Std.ExtTreeMap.getElem?_insert, if_neg (by simpa [compare_eq_iff_eq] using hother.symm)]
    have hold := h.sum_eq
    rw [Std.ExtTreeMap.getElem?_insert_self, hnone, Totals.weigh_some, Totals.weigh_none] at hupdate
    simp only [sumOfIntervals] at hold ⊢
    rw [hupdate, ← hold, hsum]
    simp only
    omega

theorem Linked.eraseConnection (h : s.Linked) {client : Client}
    (hclient : s.connections[index]? = some client)
    (hlistener : s.udpListeners[client.udpListener]? = some listener) :
    Linked { s with
      connections := s.connections.erase index
      udpSummaryConnectionsSendIntervalUs :=
        s.udpSummaryConnectionsSendIntervalUs - client.connection.udpSendIntervalUs
      udpListeners := s.udpListeners.insert client.udpListener { listener with
        connections := listener.connections.erase client.udpAddress } } := by
  refine ⟨h.inverse.unlink (placeOf_of_client hclient) ?_ ?_ ?_ ?_, ?_, ?_, ?_⟩
  · simp [placeOf]
  · simp [registeredAt]
  · intro other hother
    simp only [placeOf, Std.ExtTreeMap.getElem?_erase, compare_eq_iff_eq, if_neg hother.symm]
  · rintro ⟨otherListener, otherAddress⟩ hother
    simp only [registeredAt, Std.ExtTreeMap.getElem?_insert, compare_eq_iff_eq]
    split
    · rename_i hsame
      subst hsame
      have haddress : compare client.udpAddress otherAddress ≠ .eq := by
        intro hsame
        exact hother (by rw [Std.LawfulEqCmp.compare_eq_iff_eq.mp hsame])
      rw [hlistener, Option.bind_some, Option.bind_some, Std.ExtTreeMap.getElem?_erase,
        if_neg haddress]
    · rfl
  · intro other hother
    exact h.connection_le other (Std.ExtTreeMap.mem_of_mem_erase hother)
  · have hmem := Std.ExtTreeMap.mem_iff_isSome_getElem?.mpr (Option.isSome_of_eq_some hlistener)
    exact mem_insert_le h.listener_le (le_refl _) (h.listener_le _ hmem)
  · have hupdate := Totals.sum_keys_of_update
      (fun client : Client => client.connection.udpSendIntervalUs) s.connections
      (s.connections.erase index) index fun other hother => by
        rw [Std.ExtTreeMap.getElem?_erase, if_neg (by simpa [compare_eq_iff_eq] using hother.symm)]
    have hold := h.sum_eq
    rw [Std.ExtTreeMap.getElem?_erase_self, hclient, Totals.weigh_some, Totals.weigh_none] at hupdate
    simp only [sumOfIntervals] at hold ⊢
    rw [hupdate, ← hold, add_zero]

/-- What `onConnectionClosed` leaves: the connection is gone, and with it a listener
that belonged to it. -/
theorem onConnectionClosed_eq (h : s.Linked) {client : Client}
    (hclient : s.connections[index]? = some client)
    (hlistener : s.udpListeners[client.udpListener]? = some listener) :
    s.onConnectionClosed index =
      let t : Server := { s with
        connections := s.connections.erase index
        udpSummaryConnectionsSendIntervalUs :=
          s.udpSummaryConnectionsSendIntervalUs - client.connection.udpSendIntervalUs
        udpListeners := s.udpListeners.insert client.udpListener { listener with
          connections := listener.connections.erase client.udpAddress } }
      if listener.tcpAddress = [] then t.onUdpListenerClosed client.udpListener false else t := by
  obtain ⟨listener', hlistener', hindex⟩ := h.listener hclient
  obtain rfl := Option.some.inj (hlistener.symm.trans hlistener')
  simp only [onConnectionClosed, hclient, hlistener, hindex, if_true, List.isEmpty_iff]

theorem Registered.of_insert (h : s.Registered) (ht : t.Linked)
    (hlisteners : t.udpListeners = s.udpListeners.insert index listener)
    (hsingle : listener.tcpAddress = [] → listener.Single) : t.Registered := by
  refine ⟨ht, fun other found hfound hempty => ?_⟩
  rw [hlisteners, Std.ExtTreeMap.getElem?_insert] at hfound
  split at hfound
  · obtain rfl := Option.some.inj hfound
    exact hsingle hempty
  · exact h.single other found hfound hempty

theorem Registered.replaceListener (h : s.Registered)
    (hlistener : s.udpListeners[index]? = some listener)
    (hkept : listener'.connections = listener.connections)
    (haddress : listener'.tcpAddress = listener.tcpAddress) :
    Registered { s with udpListeners := s.udpListeners.insert index listener' } := by
  refine h.of_insert (h.toLinked.replaceListener hlistener hkept) rfl fun hempty => ?_
  rw [haddress] at hempty
  obtain ⟨udpAddress, only, heq⟩ := h.single index listener hlistener hempty
  exact ⟨udpAddress, only, hkept.trans heq⟩

theorem Registered.of_erase (h : s.Registered) (ht : t.Linked)
    (hlisteners : ∀ (other : Nat) (found : UdpListener), t.udpListeners[other]? = some found →
      s.udpListeners[other]? = some found) : t.Registered :=
  ⟨ht, fun other found hfound => h.single other found (hlisteners other found hfound)⟩

theorem Registered.onConnectionClosed (h : s.Registered) (index : Nat) :
    (s.onConnectionClosed index).Registered := by
  cases hclient : s.connections[index]? with
  | none =>
      simp only [Server.onConnectionClosed, hclient]
      exact h
  | some client =>
      obtain ⟨listener, hlistener, hindex⟩ := h.listener hclient
      have herased := h.eraseConnection hclient hlistener
      rw [onConnectionClosed_eq h.toLinked hclient hlistener]
      simp only
      split
      · rename_i hempty
        have hgone := (h.single _ _ hlistener hempty).erase hindex
        have hinserted := Std.ExtTreeMap.getElem?_insert_self (t := s.udpListeners)
          (k := client.udpListener) (v := { listener with
            connections := listener.connections.erase client.udpAddress })
        have hclosed := herased.onUdpListenerClosed hinserted hgone false
        refine h.of_erase hclosed fun other found hfound => ?_
        simp only [Server.onUdpListenerClosed, hinserted, Bool.false_and, Bool.false_eq_true,
          if_false, Std.ExtTreeMap.getElem?_erase, Std.ExtTreeMap.getElem?_insert] at hfound
        split at hfound
        · cases hfound
        · exact hfound
      · rename_i hserver
        exact h.of_insert herased rfl fun hempty => absurd hempty hserver

theorem Registered.moveConnection (h : s.Registered) {m : Connection.Move}
    (hstep : s.moveConnection index m = some t) : t.Registered := by
  simp only [Server.moveConnection, Option.bind_eq_some_iff, Option.map_eq_some_iff] at hstep
  obtain ⟨client, hclient, d, hd, rfl⟩ := hstep
  have hmoved : Registered { s with
      connections := s.connections.insert index { client with connection := d }
      udpSummaryConnectionsSendIntervalUs := d.udpSummaryConnectionsSendIntervalUs } :=
    ⟨h.replaceConnection hclient (Connection.summary_step hd), h.single⟩
  split
  · exact hmoved.onConnectionClosed index
  · exact hmoved

theorem Registered.onUdpListenerClosed (h : s.Registered)
    (hlistener : s.udpListeners[index]? = some listener) (hempty : listener.connections = ∅)
    (error : Bool) : (s.onUdpListenerClosed index error).Registered := by
  have hclosed := h.toLinked.onUdpListenerClosed hlistener hempty error
  have herased : ∀ (other : Nat) (found : UdpListener),
      (s.udpListeners.erase index)[other]? = some found → s.udpListeners[other]? = some found := by
    intro other found hfound
    rw [Std.ExtTreeMap.getElem?_erase] at hfound
    split at hfound
    · cases hfound
    · exact hfound
  simp only [Server.onUdpListenerClosed, hlistener] at hclosed ⊢
  split at hclosed
  · rename_i hserver
    rw [if_pos hserver]
    simp only [Bool.and_eq_true, Bool.not_eq_true', List.isEmpty_eq_false_iff] at hserver
    refine ⟨hclosed, fun other found hfound hempty => ?_⟩
    simp only [createUdpListener, Std.ExtTreeMap.getElem?_insert] at hfound
    split at hfound
    · obtain rfl := Option.some.inj hfound
      exact absurd hempty hserver.2
    · exact h.single other found (herased other found hfound) hempty
  · rename_i hserver
    rw [if_neg hserver]
    exact h.of_erase hclosed herased

end Operations

/-- What `main` and the tests do: `Address::fromString` never leaves an address empty. -/
def Resolved : Move → Prop
  | .listen _ tcpAddress => tcpAddress ≠ []
  | _ => True

/-- The call of `createConnection` that a step makes: in which state, for which listener
and with which address. -/
def creation (s : Server) : Move → Option (Server × Nat × Address)
  | .accept udpAddress _ =>
      some ((s.createUdpListener [] []).1, (s.createUdpListener [] []).2, udpAddress)
  | .receive listenerIndex udpAddress bytes _ =>
      s.udpListeners[listenerIndex]?.bind fun listener =>
        let packet := ({} : Packet).receive s.udpReceivePacketSize bytes
        if listener.closeReady || (udpAddress.isEmpty || !packet.checkCrc32) then none
        else if listener.connections[udpAddress]?.isSome then none
        else if !listener.tcpAddress.isEmpty && packet.getType.isNumbered then
          some ({ s with opened := s.opened ++ [(listenerIndex, udpAddress)] }, listenerIndex, udpAddress)
        else none
  | _ => none

section Steps

variable {s t : Server} {m : Move}

theorem createUdpListener_self (udpAddress tcpAddress : Address) :
    ∃ listener, (s.createUdpListener udpAddress tcpAddress).1.udpListeners[
        (s.createUdpListener udpAddress tcpAddress).2]? = some listener ∧
      listener.connections = ∅ ∧ listener.tcpAddress = tcpAddress :=
  ⟨_, Std.ExtTreeMap.getElem?_insert_self, rfl, rfl⟩

/-- Every call of `createConnection` is made with an address that is not registered. -/
theorem creation_new {call : Server × Nat × Address} (h : s.creation m = some call) :
    ∃ listener, call.1.udpListeners[call.2.1]? = some listener ∧
      call.2.2 ∉ listener.connections := by
  cases m with
  | accept udpAddress io =>
      obtain rfl := Option.some.inj h
      obtain ⟨listener, hlistener, hempty, -⟩ := s.createUdpListener_self [] []
      refine ⟨listener, hlistener, ?_⟩
      rw [hempty]
      exact Std.ExtTreeMap.not_mem_empty
  | receive listenerIndex udpAddress bytes io =>
      simp only [creation, Option.bind_eq_some_iff, Option.ite_none_left_eq_some,
        Option.ite_none_right_eq_some] at h
      obtain ⟨listener, hlistener, -, hnew, -, heq⟩ := h
      obtain rfl := Option.some.inj heq
      refine ⟨listener, hlistener, ?_⟩
      rw [Std.ExtTreeMap.mem_iff_isSome_getElem?]
      exact hnew
  | _ => cases h

/-- A step that makes no such call adds no connection, and one that makes it goes on with
what the call gives. -/
theorem step_creation (h : s.step m = some t) :
    s.creation m = none ∧ (∀ index ∈ t.connections, index ∈ s.connections) ∨
      ∃ (s' : Server) (listenerIndex : Nat) (udpAddress : Address) (io : Io),
        s.creation m = some (s', listenerIndex, udpAddress) ∧
        ((s'.createConnection listenerIndex udpAddress io).1 = t ∨
          ∃ (created : Server) (index : Nat) (packet : Packet) (io' : Io),
            s'.createConnection listenerIndex udpAddress io = (created, some index) ∧
            created.moveConnection index (.udpRead packet io') = some t) := by
  have hmoved : ∀ (index : Nat) (move : Connection.Move), s.moveConnection index move = some t →
      ∀ other ∈ t.connections, other ∈ s.connections := by
    intro index move hmove other hother
    simp only [moveConnection, Option.bind_eq_some_iff, Option.map_eq_some_iff] at hmove
    obtain ⟨client, hclient, d, -, rfl⟩ := hmove
    have hmem := Std.ExtTreeMap.mem_iff_isSome_getElem?.mpr (Option.isSome_of_eq_some hclient)
    have hinsert : other ∈ s.connections.insert index { client with connection := d } := by
      split at hother
      · rw [onConnectionClosed_connections] at hother
        exact Std.ExtTreeMap.mem_of_mem_erase hother
      · exact hother
    rcases Std.ExtTreeMap.mem_insert.mp hinsert with heq | hkept
    · rwa [← Std.LawfulEqCmp.compare_eq_iff_eq.mp heq]
    · exact hkept
  cases m with
  | listen udpAddress tcpAddress =>
      obtain rfl := Option.some.inj h
      exact .inl ⟨rfl, fun _ hindex => hindex⟩
  | accept udpAddress io =>
      obtain rfl := Option.some.inj h
      exact .inr ⟨_, _, _, io, rfl, .inl rfl⟩
  | failListener index error =>
      simp only [step, failListener, Option.map_eq_some_iff] at h
      obtain ⟨listener, -, rfl⟩ := h
      exact .inl ⟨rfl, fun _ hindex => hindex⟩
  | closeListener index =>
      simp only [step, closeListener, Option.bind_eq_some_iff, Option.ite_none_right_eq_some] at h
      obtain ⟨listener, -, -, heq⟩ := h
      refine .inl ⟨rfl, ?_⟩
      split at heq
      · obtain rfl := Option.some.inj heq
        rw [onUdpListenerClosed_connections]
        exact fun _ hindex => hindex
      · obtain rfl := Option.some.inj heq
        exact fun _ hindex => hindex
  | «raise» index event timeUs io => exact .inl ⟨rfl, hmoved _ _ h⟩
  | receive listenerIndex udpAddress bytes io =>
      obtain ⟨listener, hlistener, hready, ⟨hbad, rfl⟩ | ⟨hgood, ⟨index, hindex, hmoved'⟩ |
        ⟨hnone, ⟨hserver, hnumbered, created, index, io', hcreated, hfirst⟩ | ⟨hclosed, rfl⟩⟩⟩⟩ :=
          receive_cases h
      · refine .inl ⟨?_, fun _ hindex => hindex⟩
        simp only [creation, hlistener, Option.bind_some, hbad, Bool.or_true, if_true]
      · refine .inl ⟨?_, hmoved _ _ hmoved'⟩
        simp only [creation, hlistener, Option.bind_some, hindex, Option.isSome_some, if_true, ite_self]
      · refine .inr ⟨{ s with opened := s.opened ++ [(listenerIndex, udpAddress)] }, listenerIndex,
          udpAddress, io, ?_, .inr ⟨created, index, _, io', hcreated, hfirst⟩⟩
        have hopen : (!listener.tcpAddress.isEmpty) = true := by
          simp [hserver]
        simp only [creation, hlistener, Option.bind_some, hready, hgood, hnone, hopen, hnumbered,
          Bool.or_self, Bool.false_eq_true, if_false, Option.isSome_none, Bool.and_self, if_true]
      · refine .inl ⟨?_, fun _ hindex => hindex⟩
        simp only [creation, hlistener, Option.bind_some, hclosed, Bool.false_eq_true, if_false, ite_self]

theorem Registered.accept (h : s.Registered) (udpAddress : Address) (io : Io) :
    (s.accept udpAddress io).Registered := by
  obtain ⟨listener, hlistener, hempty, -⟩ := s.createUdpListener_self [] []
  have hnew : udpAddress ∉ listener.connections := by
    rw [hempty]
    exact Std.ExtTreeMap.not_mem_empty
  have hlinked := (h.toLinked.createUdpListener [] []).createConnection hlistener hnew io
  obtain ⟨connection, -, heq⟩ := createConnection_eq hlistener hnew io
  refine ⟨hlinked, fun other found hfound => ?_⟩
  change ((s.createUdpListener [] []).1.createConnection (s.createUdpListener [] []).2 udpAddress
    io).1.udpListeners[other]? = some found at hfound
  rw [heq] at hfound
  simp only [createUdpListener, Std.ExtTreeMap.getElem?_insert] at hfound
  split at hfound
  · obtain rfl := Option.some.inj hfound
    rintro -
    exact ⟨udpAddress, _, by rw [hempty]⟩
  · exact h.single other found hfound

theorem Registered.openConnection (h : s.Registered) {listenerIndex index : Nat}
    {listener : UdpListener} (hlistener : s.udpListeners[listenerIndex]? = some listener)
    (hserver : listener.tcpAddress ≠ []) {udpAddress : Address}
    (hnone : listener.connections[udpAddress]? = none) {io : Io} {created : Server}
    (hcreation : { s with opened := s.opened ++ [(listenerIndex, udpAddress)] }.createConnection
      listenerIndex udpAddress io = (created, some index)) : created.Registered := by
  have hnew : udpAddress ∉ listener.connections := by
    rw [Std.ExtTreeMap.mem_iff_isSome_getElem?, hnone]
    exact Bool.false_ne_true
  let s' : Server := { s with opened := s.opened ++ [(listenerIndex, udpAddress)] }
  have h' : s'.Registered := ⟨⟨h.inverse, h.connection_le, h.listener_le, h.sum_eq⟩, h.single⟩
  have hlistener' : s'.udpListeners[listenerIndex]? = some listener := hlistener
  have hlinked := h'.toLinked.createConnection hlistener' hnew io
  obtain ⟨connection, -, heq⟩ := createConnection_eq hlistener' hnew io
  rw [heq] at hlinked hcreation
  obtain ⟨rfl, -⟩ := Prod.mk.inj hcreation
  exact h'.of_insert hlinked rfl fun hempty => absurd hempty hserver

theorem Registered.step (h : s.Registered) (hok : Resolved m) (hstep : s.step m = some t) :
    t.Registered := by
  cases m with
  | listen udpAddress tcpAddress =>
      obtain rfl := Option.some.inj hstep
      refine h.of_insert (h.toLinked.createUdpListener _ _) rfl fun hempty => ?_
      exact absurd hempty hok
  | accept udpAddress io =>
      obtain rfl := Option.some.inj hstep
      exact h.accept udpAddress io
  | failListener index error =>
      simp only [Server.step, failListener, Option.map_eq_some_iff] at hstep
      obtain ⟨listener, hlistener, rfl⟩ := hstep
      exact h.replaceListener hlistener rfl rfl
  | closeListener index =>
      simp only [Server.step, closeListener, Option.bind_eq_some_iff,
        Option.ite_none_right_eq_some] at hstep
      obtain ⟨listener, hlistener, -, heq⟩ := hstep
      split at heq
      · rename_i hempty
        obtain rfl := Option.some.inj heq
        exact h.onUdpListenerClosed hlistener (Std.ExtTreeMap.isEmpty_iff.mp hempty) _
      · obtain rfl := Option.some.inj heq
        exact h.replaceListener hlistener rfl rfl
  | «raise» index event timeUs io => exact h.moveConnection hstep
  | receive listenerIndex udpAddress bytes io =>
      obtain ⟨listener, hlistener, -, ⟨-, rfl⟩ | ⟨-, ⟨index, -, hmoved⟩ |
        ⟨hnone, ⟨hserver, -, created, index, io', hcreated, hfirst⟩ | ⟨-, rfl⟩⟩⟩⟩ :=
          receive_cases hstep
      · exact h
      · exact h.moveConnection hmoved
      · exact (h.openConnection hlistener hserver hnone hcreated).moveConnection hfirst
      · exact h

end Steps

end Server

/-- A server up to the end of its destructor. -/
structure Life where
  server : Server
  /-- `~Server` has begun. -/
  destroyed : Bool

namespace Life

/-- What can happen to a server, and the steps of its destructor. -/
inductive Move
  | run (m : Server.Move)
  | destroy
  | destroyConnection (index : Nat)
  | destroyListener (index : Nat)

/-- The loops of `~Server` take whatever comes first in their set of pointers. -/
def step (l : Life) : Move → Option Life
  | .run m => if l.destroyed then none else (l.server.step m).map fun s => ⟨s, false⟩
  | .destroy => some ⟨l.server, true⟩
  | .destroyConnection index =>
      if l.destroyed = true ∧ index ∈ l.server.connections then
        some ⟨l.server.onConnectionClosed index, true⟩
      else none
  | .destroyListener index =>
      if l.destroyed = true ∧ l.server.connections.isEmpty = true ∧ index ∈ l.server.udpListeners then
        some ⟨l.server.onUdpListenerClosed index false, true⟩
      else none

def Initial (l : Life) : Prop :=
  ∃ (config : Config) (udpReceivePacketSize udpInitialSendIntervalUs : Int),
    l = ⟨.blank config udpReceivePacketSize udpInitialSendIntervalUs, false⟩

/-- Listeners have addresses that `Address::fromString` gave. -/
def Resolved (_ : Life) : Move → Prop
  | .run m => Server.Resolved m
  | _ => True

variable {l l' : Life} {m : Move}

theorem registered_initial (h : l.Initial) : l.server.Registered := by
  obtain ⟨config, udpReceivePacketSize, udpInitialSendIntervalUs, rfl⟩ := h
  refine ⟨⟨fun index place => ?_, fun index hindex => ?_, fun index hindex => ?_, rfl⟩,
    fun index listener hlistener => ?_⟩
  · simp [Server.placeOf, Server.registeredAt, Server.blank]
  · exact absurd hindex Std.ExtTreeMap.not_mem_empty
  · exact absurd hindex Std.ExtTreeMap.not_mem_empty
  · simp [Server.blank] at hlistener

theorem registered_step (h : l.server.Registered) (hok : l.Resolved m) (hstep : l.step m = some l') :
    l'.server.Registered := by
  cases m with
  | run m =>
      simp only [step, Option.ite_none_left_eq_some, Option.map_eq_some_iff] at hstep
      obtain ⟨-, s, hs, rfl⟩ := hstep
      exact h.step hok hs
  | destroy =>
      obtain rfl := Option.some.inj hstep
      exact h
  | destroyConnection index =>
      simp only [step, Option.ite_none_right_eq_some] at hstep
      obtain ⟨-, heq⟩ := hstep
      obtain rfl := Option.some.inj heq
      exact h.onConnectionClosed index
  | destroyListener index =>
      simp only [step, Option.ite_none_right_eq_some] at hstep
      obtain ⟨⟨-, hnobody, hmem⟩, heq⟩ := hstep
      obtain rfl := Option.some.inj heq
      obtain ⟨listener, hlistener⟩ := Option.isSome_iff_exists.mp
        (Std.ExtTreeMap.mem_iff_isSome_getElem?.mp hmem)
      have hempty : listener.connections = ∅ := by
        apply Std.ExtTreeMap.ext_getElem?
        intro udpAddress
        rw [Std.ExtTreeMap.getElem?_empty, Option.eq_none_iff_forall_ne_some]
        intro other hother
        obtain ⟨client, hclient, -⟩ := h.client hlistener hother
        rw [Std.ExtTreeMap.isEmpty_iff.mp hnobody] at hclient
        simp at hclient
      exact h.onUdpListenerClosed hlistener hempty false

theorem registered (h : Runs.Reachable Initial step Resolved l) : l.server.Registered :=
  h.invariant (fun _ => registered_initial) fun _ _ _ hl hok => registered_step hl hok

end Life

namespace Server

/-- What the owners of the raw pointers in a server rely on. -/
structure Consistent (s : Server) : Prop where
  /-- A connection is registered in its listener under its address. -/
  listener : ∀ (index : Nat) (client : Client), s.connections[index]? = some client →
    ∃ listener, s.udpListeners[client.udpListener]? = some listener ∧
      listener.connections[client.udpAddress]? = some index
  /-- A listener only has connections that are alive. -/
  live : ∀ (listenerIndex : Nat) (listener : UdpListener), s.udpListeners[listenerIndex]? = some listener →
    ∀ (udpAddress : Address) (index : Nat), listener.connections[udpAddress]? = some index →
      index ∈ s.connections
  /-- A listener without `tcpAddress` has exactly one connection. -/
  single : ∀ (listenerIndex : Nat) (listener : UdpListener),
    s.udpListeners[listenerIndex]? = some listener → listener.tcpAddress = [] →
      ∃! index : Nat, ∃ client : Client, s.connections[index]? = some client ∧ client.udpListener = listenerIndex
  /-- No step calls `createConnection` with an address that is registered, so none sees `NULL`. -/
  creation : ∀ (m : Move) (s' : Server) (listenerIndex : Nat) (udpAddress : Address),
    s.creation m = some (s', listenerIndex, udpAddress) →
      s'.registeredAt (listenerIndex, udpAddress) = none ∧
        ∀ io, (s'.createConnection listenerIndex udpAddress io).2 ≠ none
  sum : s.udpSummaryConnectionsSendIntervalUs = s.sumOfIntervals

theorem Registered.toConsistent {s : Server} (h : s.Registered) : s.Consistent := by
  refine ⟨fun _ _ => h.listener, ?_, ?_, ?_, h.sum_eq⟩
  · intro listenerIndex listener hlistener udpAddress index hindex
    obtain ⟨client, hclient, -⟩ := h.client hlistener hindex
    exact Std.ExtTreeMap.mem_iff_isSome_getElem?.mpr (Option.isSome_of_eq_some hclient)
  · intro listenerIndex listener hlistener hempty
    obtain ⟨udpAddress, index, hsingle⟩ := h.single listenerIndex listener hlistener hempty
    have hindex : listener.connections[udpAddress]? = some index := by
      rw [hsingle, Std.ExtTreeMap.getElem?_insert_self]
    obtain ⟨client, hclient, hplace, -⟩ := h.client hlistener hindex
    refine ⟨index, ⟨client, hclient, hplace⟩, ?_⟩
    rintro other ⟨otherClient, hother, rfl⟩
    obtain ⟨found, hfound, hregistered⟩ := h.listener hother
    obtain rfl := Option.some.inj (hlistener.symm.trans hfound)
    rw [hsingle, Std.ExtTreeMap.getElem?_insert] at hregistered
    split at hregistered
    · exact (Option.some.inj hregistered).symm
    · simp at hregistered
  · intro m s' listenerIndex udpAddress hcreation
    obtain ⟨listener, hlistener, hnew⟩ := creation_new hcreation
    refine ⟨?_, fun io => ?_⟩
    · rw [registeredAt_of_listener hlistener]
      exact Std.ExtTreeMap.getElem?_eq_none hnew
    · obtain ⟨connection, -, heq⟩ := createConnection_eq hlistener hnew io
      rw [heq]
      exact Option.some_ne_none _

end Server

namespace Life

/-- The registry is consistent in every state of every server, also while it is destroyed. -/
theorem consistent {l : Life} (h : Runs.Reachable Initial step Resolved l) : l.server.Consistent :=
  (registered h).toConsistent

instance (l : Life) (m : Move) : Decidable (l.Resolved m) :=
  match m with
  | .run (.listen _ tcpAddress) => inferInstanceAs (Decidable (tcpAddress ≠ []))
  | .run (.accept _ _) => .isTrue trivial
  | .run (.failListener _ _) => .isTrue trivial
  | .run (.closeListener _) => .isTrue trivial
  | .run (.receive _ _ _ _) => .isTrue trivial
  | .run (.raise _ _ _ _) => .isTrue trivial
  | .destroy => .isTrue trivial
  | .destroyConnection _ => .isTrue trivial
  | .destroyListener _ => .isTrue trivial

/-- A client on each side, and the first of them is destroyed. -/
def destroyedRun : List Move :=
  [.run (.listen [1] [2]), .run (.accept [1] (Io.steady 0)),
    .run (.receive 1 [3] (Packet.datagram .hello 0 []).data (Io.steady 0)),
    .destroy, .destroyConnection 3]

def blank : Life :=
  ⟨.blank .small 1000 10, false⟩

theorem destroyedRun_isSome : (Runs.run step Resolved blank destroyedRun).isSome = true := by
  decide +kernel

theorem consistent_destroyedRun :
    ((Runs.run step Resolved blank destroyedRun).get destroyedRun_isSome).server.Consistent :=
  consistent (.of_run (.start ⟨.small, 1000, 10, rfl⟩) (Option.some_get destroyedRun_isSome).symm)

end Life

end IceTunnel
