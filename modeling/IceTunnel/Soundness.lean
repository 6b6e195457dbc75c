import IceTunnel.Acknowledging
import IceTunnel.Counting
import IceTunnel.Foundation.Runs
import IceTunnel.Refinement

namespace IceTunnel

theorem Sender.wellFormed_initial (config : Config) :
    (Endpoint.initial config).toSender.WellFormed := by
  refine Sender.WellFormed.push ?_ _ rfl (fun _ => rfl) fun _ => rfl
  exact ⟨rfl, by simp [Endpoint.blank, Sender.created], by simp [Endpoint.blank],
    by simp [Endpoint.blank]⟩

/-- What holds of an endpoint by itself. -/
structure Endpoint.Sound (e : Endpoint) : Prop where
  sending : e.Sending
  transmitting : e.Transmitting
  receiving : e.toReceiver.WellFormed
  concluded : e.Concluded
  acknowledging : e.Acknowledging
  counting : e.Counting

theorem Endpoint.Sound.step {N : Packet → Prop} {e e' : Endpoint} (h : e.Sound)
    (hstep : Protocol.Step N e e') : e'.Sound :=
  ⟨Protocol.sending_step h.sending hstep,
    Protocol.transmitting_step h.sending h.transmitting hstep,
    Protocol.receiving_step h.receiving hstep,
    Protocol.concluded_step h.receiving h.concluded hstep,
    Protocol.acknowledging_step h.receiving h.acknowledging hstep,
    Protocol.counting_step h.sending h.counting hstep⟩

theorem Endpoint.sound_initial (config : Config) : (Endpoint.initial config).Sound := by
  have hcreated : (Endpoint.initial config).created = [.datagram .hello 0 []] := by
    rw [Endpoint.initial, Sender.push_created]
    rfl
  constructor
  · refine ⟨Sender.wellFormed_initial config, ?_, nofun, ?_, ?_, nofun⟩
    · intro i p hp hclosing
      rw [hcreated] at hp
      obtain rfl := List.mem_singleton.mp (List.mem_of_getElem? hp)
      rw [Packet.datagram_getType _ _ rfl] at hclosing
      cases hclosing
    · exact fun hne => absurd rfl hne
    · exact fun hne => absurd rfl hne
  · exact ⟨by simp [Endpoint.initial, Endpoint.blank],
      by simp [Endpoint.initial, Endpoint.blank, Sender.push, Sender.transmitted,
        SendAction.transmitted?]⟩
  · exact Receiver.wellFormed_blank config
  · simp [Session.Concluded, Endpoint.initial, Endpoint.blank, Receiver.accepted]
  · exact ⟨by simp [Endpoint.initial, Endpoint.blank, Receiver.confirmations],
      by simp [Endpoint.initial, Endpoint.blank, Receiver.confirmations], .inl rfl,
      by simp [Endpoint.initial, Endpoint.blank, Sender.push, Sender.byeByes, SendAction.byeBye?]⟩
  · intro _
    simp only [Endpoint.initial, Endpoint.blank, Sender.push]
    rw [unsent_insert_of_not_sent _ (by simp)]
    rfl

theorem Endpoint.Sound.steps {N : Packet → Prop} {e e' : Endpoint} (h : e.Sound)
    (hsteps : Protocol.Steps N e e') : e'.Sound :=
  Runs.chain_invariant (fun _ _ hx hxy => hx.step hxy) hsteps h

namespace Connection

/-- Connections with these parameters, before anything happened to them. -/
def Initial (config : Config) (c : Connection) : Prop :=
  ∃ (intervalUs summaryUs : Int) (io : Io), c = new config intervalUs summaryUs io

theorem sound_initial {config : Config} {c : Connection} (h : Initial config c) :
    c.toEndpoint.Sound := by
  obtain ⟨intervalUs, summaryUs, io, rfl⟩ := h
  rw [new_toEndpoint]
  exact Endpoint.sound_initial config

theorem sound_step {c d : Connection} {m : Move} (h : c.toEndpoint.Sound) (hm : c.step m = some d) :
    d.toEndpoint.Sound :=
  h.steps (step_refines hm fun _ hp => hp)

theorem toConfig_eq {config : Config} {ok : Connection → Move → Prop} {c : Connection}
    (h : Runs.Reachable (Initial config) step ok c) : c.toConfig = config := by
  refine h.invariant (I := fun d : Connection => d.toConfig = config) ?_
    fun _ _ _ hd _ hm => (toConfig_of_step hm).trans hd
  rintro c ⟨intervalUs, summaryUs, io, rfl⟩
  rw [new_toEndpoint]
  rfl

end Connection

end IceTunnel
