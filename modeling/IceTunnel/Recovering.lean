import IceTunnel.Registry

namespace IceTunnel

namespace Server

/-- A failed listener that has nobody left is still going to be handled. -/
def Recoverable (s : Server) : Prop :=
  ∀ (index : Nat) (listener : UdpListener), s.udpListeners[index]? = some listener →
    listener.tcpAddress ≠ [] → listener.closeReady = true → listener.connections.isEmpty = true →
      listener.eventClose.isEnabled = true

/-- The handler of `eventClose` is only called when the listener has nobody left. -/
def Patient (s : Server) : Move → Prop
  | .closeListener index => ∀ listener ∈ s.udpListeners[index]?,
      listener.tcpAddress ≠ [] → listener.connections.isEmpty = true
  | _ => True

instance (s : Server) (m : Move) : Decidable (s.Patient m) :=
  match m with
  | .closeListener index => inferInstanceAs (Decidable (∀ listener ∈ s.udpListeners[index]?, _ → _))
  | .listen _ _ => .isTrue trivial
  | .accept _ _ => .isTrue trivial
  | .failListener _ _ => .isTrue trivial
  | .receive _ _ _ _ => .isTrue trivial
  | .raise _ _ _ _ => .isTrue trivial

instance (m : Move) : Decidable (Resolved m) :=
  match m with
  | .listen _ tcpAddress => inferInstanceAs (Decidable (tcpAddress ≠ []))
  | .accept _ _ => .isTrue trivial
  | .failListener _ _ => .isTrue trivial
  | .closeListener _ => .isTrue trivial
  | .receive _ _ _ _ => .isTrue trivial
  | .raise _ _ _ _ => .isTrue trivial

/-- Every listener of `t` waits for its `eventClose`, or is one of `s` whose timer is as it was. -/
def Awaits (s t : Server) : Prop :=
  ∀ (index : Nat) (listener' : UdpListener), t.udpListeners[index]? = some listener' →
    listener'.eventClose.isEnabled = true ∨
      ∃ listener, s.udpListeners[index]? = some listener ∧
        listener'.tcpAddress = listener.tcpAddress ∧ listener'.eventClose = listener.eventClose

section Timers

variable {s t u : Server} {index : Nat} {listener : UdpListener}

theorem Awaits.refl (s : Server) : s.Awaits s :=
  fun _ listener hlistener => .inr ⟨listener, hlistener, rfl, rfl⟩

theorem Awaits.of_eq (h : t.udpListeners = s.udpListeners) : s.Awaits t :=
  fun _ listener hlistener => .inr ⟨listener, h ▸ hlistener, rfl, rfl⟩

theorem Awaits.trans (h : s.Awaits t) (h' : t.Awaits u) : s.Awaits u := by
  intro index found hfound
  rcases h' index found hfound with henabled | ⟨between, hbetween, haddress, htimer⟩
  · exact .inl henabled
  · rcases h index between hbetween with henabled | ⟨listener, hlistener, haddress', htimer'⟩
    · exact .inl (htimer ▸ henabled)
    · exact .inr ⟨listener, hlistener, haddress.trans haddress', htimer.trans htimer'⟩

theorem Awaits.insert (ht : t.udpListeners = s.udpListeners.insert index listener)
    (h : listener.eventClose.isEnabled = true ∨ ∃ old, s.udpListeners[index]? = some old ∧
      listener.tcpAddress = old.tcpAddress ∧ listener.eventClose = old.eventClose) : s.Awaits t := by
  intro other found hfound
  rw [ht, Std.ExtTreeMap.getElem?_insert] at hfound
  split at hfound
  · rename_i heq
    obtain rfl := Option.some.inj hfound
    obtain rfl := Std.LawfulEqCmp.compare_eq_iff_eq.mp heq
    exact h
  · exact .inr ⟨found, hfound, rfl, rfl⟩

theorem Awaits.erase (ht : t.udpListeners = s.udpListeners.erase index) : s.Awaits t := by
  intro other found hfound
  rw [ht, Std.ExtTreeMap.getElem?_erase] at hfound
  split at hfound
  · cases hfound
  · exact .inr ⟨found, hfound, rfl, rfl⟩

theorem awaits_createUdpListener (udpAddress tcpAddress : Address) :
    s.Awaits (s.createUdpListener udpAddress tcpAddress).1 :=
  .insert rfl (.inl rfl)

theorem awaits_onUdpListenerClosed (index : Nat) (error : Bool) :
    s.Awaits (s.onUdpListenerClosed index error) := by
  simp only [onUdpListenerClosed]
  split
  · exact .refl s
  · have herased : s.Awaits { s with udpListeners := s.udpListeners.erase index } := .erase rfl
    split
    · exact herased.trans (awaits_createUdpListener _ _)
    · exact herased

theorem awaits_createConnection (listenerIndex : Nat) (udpAddress : Address) (io : Io) :
    s.Awaits (s.createConnection listenerIndex udpAddress io).1 := by
  simp only [createConnection]
  split
  · exact .refl s
  · rename_i listener hlistener
    split
    · exact .of_eq rfl
    · exact .insert rfl (.inr ⟨listener, hlistener, rfl, rfl⟩)

theorem awaits_onConnectionClosed (index : Nat) : s.Awaits (s.onConnectionClosed index) := by
  simp only [onConnectionClosed]
  split
  · exact .refl s
  · rename_i client hclient
    split
    · exact .of_eq rfl
    · rename_i listener hlistener
      have hinsert : ∀ connections : Std.ExtTreeMap Address Nat,
          s.Awaits { s with
            connections := s.connections.erase index
            udpSummaryConnectionsSendIntervalUs :=
              s.udpSummaryConnectionsSendIntervalUs - client.connection.udpSendIntervalUs
            udpListeners := s.udpListeners.insert client.udpListener
              { listener with connections := connections } } :=
        fun connections => .insert rfl (.inr ⟨listener, hlistener, rfl, rfl⟩)
      split
      · exact (hinsert _).trans (awaits_onUdpListenerClosed _ _)
      · exact hinsert _

theorem awaits_moveConnection {m : Connection.Move} (h : s.moveConnection index m = some t) :
    s.Awaits t := by
  simp only [moveConnection, Option.bind_eq_some_iff, Option.map_eq_some_iff] at h
  obtain ⟨client, -, d, -, rfl⟩ := h
  have hmoved : s.Awaits { s with
      connections := s.connections.insert index { client with connection := d }
      udpSummaryConnectionsSendIntervalUs := d.udpSummaryConnectionsSendIntervalUs } := .of_eq rfl
  split
  · exact hmoved.trans (awaits_onConnectionClosed index)
  · exact hmoved

/-- Only the handler of `eventClose` spends it. -/
theorem awaits_step {m : Move} (hother : ∀ index, m ≠ .closeListener index)
    (h : s.step m = some t) : s.Awaits t := by
  cases m with
  | listen udpAddress tcpAddress =>
      obtain rfl := Option.some.inj h
      exact awaits_createUdpListener _ _
  | accept udpAddress io =>
      obtain rfl := Option.some.inj h
      exact (awaits_createUdpListener _ _).trans (awaits_createConnection _ _ _)
  | failListener index error =>
      simp only [step, failListener, Option.map_eq_some_iff] at h
      obtain ⟨listener, hlistener, rfl⟩ := h
      exact .insert rfl (.inr ⟨listener, hlistener, rfl, rfl⟩)
  | closeListener index => exact absurd rfl (hother index)
  | «raise» index event timeUs io => exact awaits_moveConnection h
  | receive listenerIndex udpAddress bytes io =>
      obtain ⟨listener, -, -, ⟨-, rfl⟩ | ⟨-, ⟨index, -, hmoved⟩ |
        ⟨-, ⟨-, -, created, index, io', hcreated, hfirst⟩ | ⟨-, rfl⟩⟩⟩⟩ := receive_cases h
      · exact .refl t
      · exact awaits_moveConnection hmoved
      · let s' : Server := { s with opened := s.opened ++ [(listenerIndex, udpAddress)] }
        have hopened := s'.awaits_createConnection listenerIndex udpAddress io
        rw [hcreated] at hopened
        exact Awaits.trans hopened (awaits_moveConnection hfirst)
      · exact .refl t

/-- Every listener of `main` waits for its `eventClose`. -/
def Waiting (s : Server) : Prop :=
  ∀ (index : Nat) (listener : UdpListener), s.udpListeners[index]? = some listener →
    listener.tcpAddress ≠ [] → listener.eventClose.isEnabled = true

theorem Waiting.of_awaits (h : s.Waiting) (ht : s.Awaits t) : t.Waiting := by
  intro index found hfound haddress
  rcases ht index found hfound with henabled | ⟨listener, hlistener, hsame, htimer⟩
  · exact henabled
  · rw [htimer]
    exact h index listener hlistener (hsame ▸ haddress)

theorem Waiting.step (h : s.Waiting) {m : Move} (hpatient : s.Patient m) (hstep : s.step m = some t) :
    t.Waiting := by
  by_cases hclose : ∃ index, m = .closeListener index
  · obtain ⟨index, rfl⟩ := hclose
    simp only [Server.step, closeListener, Option.bind_eq_some_iff,
      Option.ite_none_right_eq_some] at hstep
    obtain ⟨listener, hlistener, -, heq⟩ := hstep
    split at heq
    · obtain rfl := Option.some.inj heq
      exact h.of_awaits (awaits_onUdpListenerClosed _ _)
    · rename_i hsomebody
      obtain rfl := Option.some.inj heq
      intro other found hfound haddress
      rw [Std.ExtTreeMap.getElem?_insert] at hfound
      split at hfound
      · obtain rfl := Option.some.inj hfound
        exact absurd (hpatient listener hlistener haddress) hsomebody
      · exact h other found hfound haddress
  · exact h.of_awaits (awaits_step (fun index heq => hclose ⟨index, heq⟩) hstep)

theorem closeListener_recreates (hlistener : s.udpListeners[index]? = some listener)
    (hlast : index ≤ s.lastObjectIndex) (hready : listener.closeReady = true)
    (haddress : listener.tcpAddress ≠ []) (hempty : listener.connections.isEmpty = true)
    (henabled : listener.eventClose.isEnabled = true) :
    ∃ t, s.step (.closeListener index) = some t ∧ t.udpListeners[index]? = none ∧
      (listener.wasError = true → ∃ listener', t.udpListeners[t.lastObjectIndex]? = some listener' ∧
        listener'.udpAddress = listener.udpAddress ∧ listener'.tcpAddress = listener.tcpAddress ∧
        listener'.closeReady = false) := by
  refine ⟨s.onUdpListenerClosed index listener.wasError, ?_, ?_, fun herror => ?_⟩
  · simp only [Server.step, closeListener, hlistener, Option.bind_some, hready, henabled,
      Bool.and_self, hempty, if_true]
  · simp only [onUdpListenerClosed, hlistener]
    split
    · rw [createUdpListener, Std.ExtTreeMap.getElem?_insert, if_neg, Std.ExtTreeMap.getElem?_erase_self]
      simp only [compare_eq_iff_eq]
      omega
    · exact Std.ExtTreeMap.getElem?_erase_self
  · have hrecreate : (listener.wasError && !listener.tcpAddress.isEmpty) = true := by
      simp [herror, haddress]
    simp only [onUdpListenerClosed, hlistener, if_pos hrecreate]
    exact ⟨_, Std.ExtTreeMap.getElem?_insert_self, rfl, rfl, rfl⟩

end Timers

/-- As long as the handler of `eventClose` finds nobody, every listener that has failed and
has nobody left will be removed, and recreated after an error. -/
theorem recoverable_of_patient {config : Config} {udpReceivePacketSize udpInitialSendIntervalUs : Int}
    {s : Server} (h : Runs.Reachable (· = blank config udpReceivePacketSize udpInitialSendIntervalUs)
      step (fun s m => Resolved m ∧ s.Patient m) s) :
    s.Recoverable ∧ ∀ (index : Nat) (listener : UdpListener),
      s.udpListeners[index]? = some listener → listener.tcpAddress ≠ [] →
      listener.closeReady = true → listener.connections.isEmpty = true →
        ∃ t, s.step (.closeListener index) = some t ∧ t.udpListeners[index]? = none ∧
          (listener.wasError = true → ∃ listener', t.udpListeners[t.lastObjectIndex]? = some listener' ∧
            listener'.udpAddress = listener.udpAddress ∧ listener'.tcpAddress = listener.tcpAddress ∧
            listener'.closeReady = false) := by
  have hinvariant : s.Registered ∧ s.Waiting := by
    refine h.invariant (I := fun s : Server => s.Registered ∧ s.Waiting) ?_ ?_
    · rintro s rfl
      refine ⟨Life.registered_initial (l := ⟨_, false⟩) ⟨_, _, _, rfl⟩, ?_⟩
      intro index listener hlistener
      simp [blank] at hlistener
    · rintro s m t ⟨hregistered, hwaiting⟩ ⟨hresolved, hpatient⟩ hstep
      exact ⟨hregistered.step hresolved hstep, hwaiting.step hpatient hstep⟩
  obtain ⟨hregistered, hwaiting⟩ := hinvariant
  refine ⟨fun index listener hlistener haddress _ _ => hwaiting index listener hlistener haddress, ?_⟩
  intro index listener hlistener haddress hready hempty
  have hmem := Std.ExtTreeMap.mem_iff_isSome_getElem?.mpr (Option.isSome_of_eq_some hlistener)
  exact closeListener_recreates hlistener (hregistered.listener_le index hmem) hready haddress hempty
    (hwaiting index listener hlistener haddress)

/-- A listener fails, and its only client closes before its `eventClose` is handled. -/
def patientRun : List Move :=
  [.listen [1] [2], .receive 1 [3] (Packet.datagram .hello 0 []).data (Io.steady 0),
    .failListener 1 true, .raise 2 .tcpWrite 0 (Io.steady 0),
    .raise 2 .udpClose 0 (Io.steady 0), .raise 2 .close 0 (Io.steady 0)]

theorem patientRun_isSome : (Runs.run step (fun s m => Resolved m ∧ s.Patient m)
    (blank .small 1000 10) patientRun).isSome = true := by
  decide +kernel

theorem recoverable_patientRun : ((Runs.run step (fun s m => Resolved m ∧ s.Patient m)
    (blank .small 1000 10) patientRun).get patientRun_isSome).Recoverable :=
  (recoverable_of_patient (.of_run (.start rfl) (Option.some_get patientRun_isSome).symm)).1

/-- The same, but its `eventClose` is handled first. -/
def deadRun : List Move :=
  [.listen [1] [2], .receive 1 [3] (Packet.datagram .hello 0 []).data (Io.steady 0),
    .failListener 1 true, .closeListener 1, .raise 2 .tcpWrite 0 (Io.steady 0),
    .raise 2 .udpClose 0 (Io.steady 0), .raise 2 .close 0 (Io.steady 0)]

theorem deadRun_isSome : (Runs.run step (fun _ m => Resolved m)
    (blank .small 1000 10) deadRun).isSome = true := by
  decide +kernel

/-- The listener is left behind, with nothing that would ever recreate it. -/
theorem not_recoverable_deadRun :
    ∃ s : Server, Runs.Reachable (· = blank .small 1000 10) step (fun _ m => Resolved m) s ∧
      ¬s.Recoverable := by
  refine ⟨_, .of_run (.start rfl) (Option.some_get deadRun_isSome).symm, fun hrecoverable => ?_⟩
  have hdead : (((Runs.run step (fun _ m => Resolved m) (blank .small 1000 10) deadRun).get
      deadRun_isSome).udpListeners[1]?.any fun listener => !listener.tcpAddress.isEmpty &&
        listener.closeReady && listener.connections.isEmpty && !listener.eventClose.isEnabled) = true := by
    decide +kernel
  rw [Option.any_eq_true] at hdead
  simp only [Bool.and_eq_true, Bool.not_eq_true', List.isEmpty_eq_false_iff] at hdead
  obtain ⟨listener, hlistener, ⟨⟨haddress, hready⟩, hempty⟩, hdisabled⟩ := hdead
  have henabled := hrecoverable 1 listener hlistener haddress hready hempty
  rw [hdisabled] at henabled
  cases henabled

end Server

end IceTunnel
