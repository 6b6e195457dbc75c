import IceTunnel.Timeline

namespace IceTunnel

/-- What a packet has left and when it was sent agree with its transmissions. -/
structure Tally (config : Config) (clockUs : Int) (times : List Transmission) (packet : Packet) : Prop where
  unconfirmed : packet.confirmed = false
  length_add : times.length + packet.remainResendCount =
    config.udpResendCount + if packet.sent then 1 else 0
  remain_le : packet.remainResendCount ≤ config.udpResendCount
  le_remain : min config.udpResendCount 0 ≤ packet.remainResendCount
  sentTime_eq : packet.sent = true → ∃ last ∈ times.head?, (last.readUs : Int) = packet.sentTimeUs
  waited : packet.sent = false → ∀ last ∈ times.head?, last.readUs + config.udpResendUs ≤ clockUs

/-- One transmission begins at least `resendUs` after the other has ended. -/
def Apart (resendUs : Int) (later earlier : Transmission) : Prop :=
  earlier.readUs + resendUs ≤ later.calledUs

namespace Tally

variable {config : Config} {clockUs laterUs : Int} {times : List Transmission} {packet : Packet}

theorem later (h : Tally config clockUs times packet) (hle : clockUs ≤ laterUs) :
    Tally config laterUs times packet :=
  { h with waited := fun hsent last hlast => (h.waited hsent last hlast).trans hle }

theorem encode (type : PacketType) (index : Int) (payload : List UInt8) : Tally config clockUs []
    { ({} : Packet).encode type index payload with remainResendCount := config.udpResendCount } := by
  rw [Packet.encode_eq]
  exact ⟨rfl, by simp, le_refl _, min_le_left _ _, nofun, fun _ _ hlast => by cases hlast⟩

theorem resend (h : Tally config clockUs times packet) (hsent : packet.sent = true)
    (htime : packet.sentTimeUs + config.udpResendUs ≤ clockUs) (hremain : packet.remainResendCount > 0) :
    Tally config clockUs times
      { packet with sent := false, remainResendCount := packet.remainResendCount - 1 } := by
  have hlength := h.length_add
  have hle := h.remain_le
  rw [if_pos hsent] at hlength
  refine ⟨h.unconfirmed, ?_, ?_, ?_, nofun, ?_⟩
  · simp only [Bool.false_eq_true, if_false]
    omega
  · simp only
    omega
  · simp only
    omega
  · intro _ last hlast
    obtain ⟨other, hother, heq⟩ := h.sentTime_eq hsent
    cases Option.mem_unique hlast hother
    rw [heq]
    exact htime

theorem send (h : Tally config clockUs times packet) (hsent : packet.sent = false) {new : Transmission}
    {measureIndex : Int} : Tally config laterUs (new :: times)
      { packet with sent := true, sentTimeUs := new.readUs, measureIndex := measureIndex } := by
  have hlength := h.length_add
  simp only [hsent, Bool.false_eq_true, if_false] at hlength
  refine ⟨h.unconfirmed, ?_, h.remain_le, h.le_remain, fun _ => ⟨new, rfl, rfl⟩, nofun⟩
  rw [List.length_cons, if_pos rfl]
  push_cast
  omega

theorem length_lt (h : Tally config clockUs times packet) (hsent : packet.sent = false) :
    (times.length : Int) < max config.udpResendCount 0 + 1 := by
  have hlength := h.length_add
  have hle := h.le_remain
  simp only [hsent, Bool.false_eq_true, if_false] at hlength
  omega

theorem length_eq (h : Tally config clockUs times packet) (hsent : packet.sent = true)
    (hremain : ¬packet.remainResendCount > 0) :
    (times.length : Int) = max config.udpResendCount 0 + 1 := by
  have hlength := h.length_add
  have hle := h.remain_le
  have hge := h.le_remain
  rw [if_pos hsent] at hlength
  omega

end Tally

namespace Outgoing

/-- What holds of the packets with the number `index` once `times` are their transmissions. -/
structure Tracked (config : Config) (clockUs index : Int) (times : List Transmission) (x : Outgoing) :
    Prop where
  config_eq : x.toConfig = config
  length_le : (times.length : Int) ≤ max config.udpResendCount 0 + 1
  spaced : times.IsChain (Apart config.udpResendUs)
  fresh : x.udpNextSendIndex ≤ index → times = []
  held : ∀ packet, x.udpSentPackets[index]? = some packet →
    index < x.udpNextSendIndex ∧ Tally config clockUs times packet

variable {config : Config} {clockUs laterUs index : Int} {times : List Transmission} {x y : Outgoing}
  {Arming : Prop} {Rated : Int → Int → Prop} {Read : Int → Prop}

theorem Tracked.later (h : x.Tracked config clockUs index times) (hle : clockUs ≤ laterUs) :
    x.Tracked config laterUs index times :=
  { h with held := fun packet hpacket => (h.held packet hpacket).imp_right fun htally => htally.later hle }

theorem step_of_quiet (hstep : Step False (fun _ _ => False) (fun _ => False) x y) :
    Step Arming Rated Read x y := by
  cases hstep with
  | tick => exact .tick x
  | push type payload hudp => exact .push x type payload hudp
  | advance harm => exact harm.elim
  | arm lastUs harm => exact harm.elim
  | rate interval hrated => exact hrated.elim
  | resend index packet timeUs hpacket hsent hread => exact hread.elim
  | forget index => exact .forget x index
  | close => exact .close x

theorem steps_of_quiet (hquiet : Quiet x y) : Steps Arming Rated Read x y :=
  Relation.ReflTransGen.mono (fun _ _ => step_of_quiet) x y hquiet

/-- The two states have the same packets. -/
structure SamePackets (x y : Outgoing) : Prop where
  config_eq : y.toConfig = x.toConfig
  next_eq : y.udpNextSendIndex = x.udpNextSendIndex
  packets_eq : y.udpSentPackets = x.udpSentPackets

theorem Tracked.of_same (h : x.Tracked config clockUs index times) (hsame : x.SamePackets y) :
    y.Tracked config clockUs index times := by
  obtain ⟨hconfig, hnext, hpackets⟩ := hsame
  refine ⟨hconfig.trans h.config_eq, h.length_le, h.spaced, fun hle => h.fresh (hnext ▸ hle), ?_⟩
  rw [hpackets, hnext]
  exact h.held

theorem tracked_step (hread : ∀ timeUs, Read timeUs → timeUs ≤ clockUs)
    (h : x.Tracked config clockUs index times) (hstep : Step Arming Rated Read x y) :
    y.Tracked config clockUs index times := by
  cases hstep with
  | tick => exact h.of_same ⟨rfl, rfl, rfl⟩
  | advance => exact h.of_same ⟨rfl, rfl, rfl⟩
  | arm => exact h.of_same ⟨rfl, rfl, rfl⟩
  | rate => exact h.of_same ⟨rfl, rfl, rfl⟩
  | push type payload hudp =>
      refine ⟨h.config_eq, h.length_le, h.spaced, fun hle => h.fresh (by simp only at hle; omega),
        fun packet hpacket => ?_⟩
      simp only [Std.ExtTreeMap.getElem?_insert, compare_eq_iff_eq] at hpacket
      split at hpacket
      · rename_i hindex
        have hnone : x.udpSentPackets[x.udpNextSendIndex]? = none := by
          rw [Option.eq_none_iff_forall_ne_some, hindex]
          intro other hother
          have := (h.held other hother).1
          omega
        rw [Std.ExtTreeMap.getD_eq_getD_getElem?, hnone, Option.getD_none] at hpacket
        rw [← Option.some.inj hpacket, h.fresh (by omega), h.config_eq]
        exact ⟨by simp only; omega, .encode type _ payload⟩
      · have hheld := h.held packet hpacket
        exact ⟨by simp only; omega, hheld.2⟩
  | resend other lost timeUs hlost hsent htime hdue hremain =>
      refine ⟨h.config_eq, h.length_le, h.spaced, h.fresh, fun packet hpacket => ?_⟩
      simp only [Std.ExtTreeMap.getElem?_insert, compare_eq_iff_eq] at hpacket
      split at hpacket
      · rename_i hindex
        rw [hindex] at hlost
        have hheld := h.held lost hlost
        rw [h.config_eq] at hdue
        rw [← Option.some.inj hpacket]
        exact ⟨hheld.1, hheld.2.resend hsent (hdue.trans (hread timeUs htime)) hremain⟩
      · exact h.held packet hpacket
  | forget other =>
      refine ⟨h.config_eq, h.length_le, h.spaced, h.fresh, fun packet hpacket => ?_⟩
      simp only [Std.ExtTreeMap.getElem?_erase, compare_eq_iff_eq] at hpacket
      split at hpacket
      · cases hpacket
      · exact h.held packet hpacket
  | close =>
      refine ⟨h.config_eq, h.length_le, h.spaced, h.fresh, fun packet hpacket => ?_⟩
      rw [Std.ExtTreeMap.getElem?_empty] at hpacket
      cases hpacket

theorem tracked_steps (hread : ∀ timeUs, Read timeUs → timeUs ≤ clockUs)
    (h : x.Tracked config clockUs index times) (hsteps : Steps Arming Rated Read x y) :
    y.Tracked config clockUs index times :=
  Runs.chain_invariant (R := Step Arming Rated Read) (I := fun z => z.Tracked config clockUs index times)
    (fun _ _ => tracked_step hread) hsteps h

/-- A number that was given to a packet that is not kept any more. -/
def Gone (index : Int) (x : Outgoing) : Prop :=
  index < x.udpNextSendIndex ∧ x.udpSentPackets[index]? = none

theorem Gone.of_same (h : x.Gone index) (hsame : x.SamePackets y) : y.Gone index := by
  obtain ⟨-, hnext, hpackets⟩ := hsame
  rw [Gone, hnext, hpackets]
  exact h

theorem gone_step (h : x.Gone index) (hstep : Step Arming Rated Read x y) : y.Gone index := by
  obtain ⟨hindex, hnone⟩ := h
  cases hstep with
  | tick => exact ⟨hindex, hnone⟩
  | advance => exact ⟨hindex, hnone⟩
  | arm => exact ⟨hindex, hnone⟩
  | rate => exact ⟨hindex, hnone⟩
  | push type payload hudp =>
      refine ⟨by simp only; omega, ?_⟩
      rw [Std.ExtTreeMap.getElem?_insert, if_neg (by rw [compare_eq_iff_eq]; omega)]
      exact hnone
  | resend other lost timeUs hlost =>
      refine ⟨hindex, ?_⟩
      rw [Std.ExtTreeMap.getElem?_insert, if_neg]
      · exact hnone
      · rw [compare_eq_iff_eq]
        rintro rfl
        rw [hnone] at hlost
        cases hlost
  | forget other =>
      refine ⟨hindex, ?_⟩
      rw [Std.ExtTreeMap.getElem?_erase]
      split
      · rfl
      · exact hnone
  | close => exact ⟨hindex, Std.ExtTreeMap.getElem?_empty⟩

theorem gone_steps (h : x.Gone index) (hsteps : Steps Arming Rated Read x y) : y.Gone index :=
  Runs.chain_invariant (R := Step Arming Rated Read) (I := Gone index) (fun _ _ => gone_step) hsteps h

theorem next_le_step (hstep : Step Arming Rated Read x y) : x.udpNextSendIndex ≤ y.udpNextSendIndex := by
  cases hstep with
  | push type payload hudp =>
      simp only
      omega
  | _ => exact le_refl _

end Outgoing

namespace Connection

open Outgoing

variable {c : Connection} {config : Config} {clockUs laterUs index : Int} {sent : List Transmission}

/-- The transmissions of the packet with the number `index`. -/
def timesOf (index : Int) (sent : List Transmission) : List Transmission :=
  sent.filter fun transmission => transmission.index = some index

theorem timesOf_cons_self (new : Transmission) (h : new.index = some index) :
    timesOf index (new :: sent) = new :: timesOf index sent := by
  rw [timesOf, List.filter_cons, if_pos (decide_eq_true h), timesOf]

theorem timesOf_cons_of_ne (new : Transmission) (h : new.index ≠ some index) :
    timesOf index (new :: sent) = timesOf index sent := by
  rw [timesOf, List.filter_cons, if_neg (by rwa [decide_eq_true_eq]), timesOf]

theorem tracked_transmits (h : c.outgoing.Tracked config clockUs index (timesOf index sent))
    {plannedTimeUs : Int} {new : Transmission} {x : Outgoing}
    (htransmits : c.Transmits plannedTimeUs new.index x) (hread : (new.readUs : Int) = c.nowUs)
    (hcalled : clockUs ≤ new.calledUs) (hlater : clockUs ≤ laterUs) :
    x.Tracked config laterUs index (timesOf index (new :: sent)) := by
  cases hindex : new.index with
  | none =>
      rw [hindex] at htransmits
      rw [show x = _ from htransmits, timesOf_cons_of_ne new (by rw [hindex]; exact nofun)]
      exact (h.later hlater).of_same ⟨rfl, rfl, rfl⟩
  | some other =>
      rw [hindex] at htransmits
      obtain ⟨packet, hpacket, hsent, rfl⟩ := htransmits
      by_cases hsame : other = index
      · subst hsame
        obtain ⟨hlt, htally⟩ := h.held packet hpacket
        rw [timesOf_cons_self new hindex]
        refine ⟨h.config_eq, ?_, ?_, ?_, ?_⟩
        · have hroom := htally.length_lt hsent
          rw [List.length_cons]
          push_cast
          omega
        · rw [List.isChain_cons]
          exact ⟨fun last hlast => (htally.waited hsent last hlast).trans hcalled, h.spaced⟩
        · intro hle
          simp only at hle
          omega
        · intro other hother
          simp only [Std.ExtTreeMap.getElem?_insert_self, Option.some.injEq] at hother
          rw [← hother, ← hread]
          exact ⟨hlt, htally.send hsent⟩
      · have hkept := h.later hlater
        rw [timesOf_cons_of_ne new (by rw [hindex]; simpa using hsame)]
        refine ⟨hkept.config_eq, hkept.length_le, hkept.spaced, hkept.fresh, fun p hp => ?_⟩
        rw [Std.ExtTreeMap.getElem?_insert, if_neg (by rwa [compare_eq_iff_eq])] at hp
        exact hkept.held p hp

theorem gone_transmits (h : c.outgoing.Gone index) {plannedTimeUs : Int} {new : Transmission} {x : Outgoing}
    (htransmits : c.Transmits plannedTimeUs new.index x) :
    x.Gone index ∧ timesOf index (new :: sent) = timesOf index sent := by
  cases hindex : new.index with
  | none =>
      rw [hindex] at htransmits
      rw [show x = _ from htransmits]
      exact ⟨h, timesOf_cons_of_ne new (by rw [hindex]; exact nofun)⟩
  | some other =>
      rw [hindex] at htransmits
      obtain ⟨packet, hpacket, -, rfl⟩ := htransmits
      have hother : other ≠ index := by
        rintro rfl
        rw [show c.udpSentPackets[other]? = none from h.2] at hpacket
        cases hpacket
      refine ⟨⟨h.1, ?_⟩, timesOf_cons_of_ne new (by rw [hindex]; simpa using hother)⟩
      rw [Std.ExtTreeMap.getElem?_insert, if_neg (by rwa [compare_eq_iff_eq])]
      exact h.2

theorem transmits_next {plannedTimeUs : Int} {transmitted : Option Int} {x : Outgoing}
    (htransmits : c.Transmits plannedTimeUs transmitted x) : x.udpNextSendIndex = c.udpNextSendIndex := by
  cases transmitted with
  | none =>
      rw [show x = _ from htransmits]
      rfl
  | some other =>
      obtain ⟨packet, -, -, rfl⟩ := htransmits
      rfl

theorem udpResendLoop_closed (timeUs : Int) (indices : List Int) (hudp : c.udpConnected = true)
    (hclosed : (udpResendLoop timeUs indices c).udpConnected = false) :
    ∃ (index : Int) (packet : Packet), c.udpSentPackets[index]? = some packet ∧ packet.sent = true ∧
      packet.sentTimeUs + c.udpResendUs ≤ timeUs ∧ ¬packet.remainResendCount > 0 := by
  induction indices generalizing c with
  | nil =>
      rw [udpResendLoop, hudp] at hclosed
      cases hclosed
  | cons index indices ih =>
      rcases c.udpResendLoop_cons timeUs index with
        ⟨-, heq⟩ | ⟨packet, hpacket, hsent, ⟨-, -, heq⟩ | ⟨htime, hremain, -⟩ | ⟨-, heq⟩⟩
      · exact ih hudp (by rwa [heq] at hclosed)
      · rw [heq] at hclosed
        generalize hd : (c.markLost index packet).setEventUdpWrite = d at hclosed
        have hlost : d.toEndpoint = (c.markLost index packet).toEndpoint := by
          rw [← hd, setEventUdpWrite_toEndpoint]
        rw [markLost_toEndpoint] at hlost
        have hopen := congrArg (fun e : Endpoint => e.udpConnected) hlost
        have hconfig : d.udpResendUs = _ := congrArg (fun e : Endpoint => e.udpResendUs) hlost
        have hmap : d.udpSentPackets = _ := congrArg (fun e : Endpoint => e.udpSentPackets) hlost
        obtain ⟨other, p, hp, hpsent, htime, hremain⟩ := ih (hopen.trans hudp) hclosed
        simp only [hmap, Std.ExtTreeMap.getElem?_insert, compare_eq_iff_eq] at hp
        rw [hconfig] at htime
        split at hp
        · rw [← Option.some.inj hp] at hpsent
          cases hpsent
        · exact ⟨other, p, hp, hpsent, htime, hremain⟩
      · exact ⟨index, packet, hpacket, hsent, htime, hremain⟩
      · exact ih (c := c.setTime .udpResend _) hudp (by rwa [heq] at hclosed)

end Connection

namespace Timeline

open Connection Outgoing

variable {config : Config} {intervalUs : Int} {startUs : Nat} {s t : Timeline}

/-- The transmissions of the packet with the number `index`, the last one first. -/
def transmissions (s : Timeline) (index : Int) : List Transmission :=
  timesOf index s.sent

/-- The handlers never run backwards in time. -/
abbrev Reachable (config : Config) (intervalUs : Int) (startUs : Nat) : Timeline → Prop :=
  Runs.Reachable (Initial config intervalUs startUs) step fun _ m => m.Timely

/-- The rest of a run. -/
abbrev Continues (s : Timeline) : Timeline → Prop :=
  Runs.Reachable (· = s) step fun _ m => m.Timely

theorem step_outgoing {m : Move} (htimely : m.Timely) (hstep : s.step m = some t) :
    ∃ x y, Steps True (fun _ _ => True) (· ≤ (t.timeUs : Int)) x y ∧ y.SamePackets t.connection.outgoing ∧
      s.timeUs ≤ t.timeUs ∧
      (t.sent = s.sent ∧ s.connection.outgoing.SamePackets x ∨
        ∃ (c : Connection) (plannedTimeUs : Int) (new : Transmission), t.sent = new :: s.sent ∧
          s.connection.outgoing.SamePackets c.outgoing ∧ c.Transmits plannedTimeUs new.index x ∧
          (new.readUs : Int) = c.nowUs ∧ s.timeUs ≤ new.calledUs) := by
  cases m with
  | call event roundUs atUs doneUs io =>
      simp only [step] at hstep
      split at hstep
      · rename_i hcall
        obtain ⟨-, hnow, -, hdone, -⟩ := hcall
        cases hstep
        let c := ({ s.connection with io := io } : Connection).disable event
        let plannedTimeUs := (s.connection.events event).timeUs
        split
        · rename_i hevent
          subst hevent
          have hdatagram : ({ s.connection with io := io } : Connection).datagram = c.datagram := rfl
          rw [hdatagram]
          rcases c.udpWrite_outgoing plannedTimeUs with
            ⟨hnone, hend⟩ | ⟨index, x, y, hsent, htransmits, hquiet, hend⟩
          · rw [hnone]
            refine ⟨c.outgoing, c.outgoing, .refl, ?_, hnow.trans hdone, .inl ⟨rfl, rfl, rfl, rfl⟩⟩
            change c.outgoing.SamePackets (c.udpWrite plannedTimeUs).outgoing
            rcases hend with hend | ⟨-, hend⟩
            · rw [hend]
              exact ⟨rfl, rfl, rfl⟩
            · rw [hend]
              exact ⟨rfl, rfl, rfl⟩
          · rw [hsent]
            refine ⟨x, y, steps_of_quiet hquiet, ?_, hnow.trans hdone, .inr ⟨c, plannedTimeUs,
              ⟨atUs, io.nowUs.head, index⟩, rfl, ⟨rfl, rfl, rfl⟩, htransmits, rfl, hnow⟩⟩
            change y.SamePackets (c.udpWrite plannedTimeUs).outgoing
            rcases hend with hend | hend
            · rw [hend]
              exact ⟨rfl, rfl, rfl⟩
            · rw [hend]
              exact ⟨rfl, rfl, rfl⟩
        · rename_i hother
          have hread : c.nowUs ≤ doneUs := Int.ofNat_le.mpr (htimely 0).2
          have hsteps : Steps True (fun _ _ => True) (· ≤ (doneUs : Int)) c.outgoing
              (c.handle event plannedTimeUs).outgoing :=
            c.handle_outgoing hother plannedTimeUs (fun _ => trivial) hread
              fun _ _ => resendsMeet_of_forall _ (fun _ _ => trivial) _ _
          exact ⟨_, _, hsteps, ⟨rfl, rfl, rfl⟩, hnow.trans hdone, .inl ⟨rfl, rfl, rfl, rfl⟩⟩
      · cases hstep
  | udpRead packet atUs doneUs io =>
      simp only [step] at hstep
      split at hstep
      · rename_i hcall
        obtain ⟨-, hnow, hdone⟩ := hcall
        cases hstep
        let c : Connection := { s.connection with io := io }
        have hsteps : Steps True (fun _ _ => True) (· ≤ (doneUs : Int)) c.outgoing
            (c.udpRead packet.wire).outgoing :=
          c.udpRead_outgoing packet.wire fun _ _ => confirmsMeet_of_forall _ (fun _ _ => trivial) _
        exact ⟨_, _, hsteps, ⟨rfl, rfl, rfl⟩, hnow.trans hdone, .inl ⟨rfl, rfl, rfl, rfl⟩⟩
      · cases hstep

/-- What holds of the packets and the transmissions so far. -/
def Tracks (config : Config) (s : Timeline) : Prop :=
  ∀ index, s.connection.outgoing.Tracked config s.timeUs index (s.transmissions index)

theorem tracks_initial (h : Initial config intervalUs startUs s) : s.Tracks config := by
  obtain ⟨summaryUs, io, doneUs, -, rfl⟩ := h
  intro index
  obtain ⟨n, hnew⟩ := Connection.new_outgoing config intervalUs summaryUs io
  rw [hnew]
  refine ⟨rfl, ?_, .nil, fun _ => rfl, fun packet hpacket => ?_⟩
  · simp only [transmissions, timesOf, List.filter_nil, List.length_nil]
    omega
  · have hhello : (Endpoint.initial config).udpSentPackets = (∅ : Std.ExtTreeMap Int Packet).insert 0
        { ((∅ : Std.ExtTreeMap Int Packet).getD 0 {}).encode .hello 0 [] with
          remainResendCount := config.udpResendCount } := rfl
    simp only [hhello, Std.ExtTreeMap.getElem?_insert, compare_eq_iff_eq, Std.ExtTreeMap.getElem?_empty]
      at hpacket
    split at hpacket
    · rename_i hindex
      rw [← Option.some.inj hpacket, Std.ExtTreeMap.getD_eq_getD_getElem?, Std.ExtTreeMap.getElem?_empty]
      exact ⟨by simp only; omega, .encode .hello 0 []⟩
    · cases hpacket

theorem tracks_step (h : s.Tracks config) {m : Move} (htimely : m.Timely) (hstep : s.step m = some t) :
    t.Tracks config := by
  intro index
  obtain ⟨x, y, hsteps, hsame, hlater, hcases⟩ := step_outgoing htimely hstep
  have hlater : (s.timeUs : Int) ≤ t.timeUs := Int.ofNat_le.mpr hlater
  have hx : x.Tracked config t.timeUs index (t.transmissions index) := by
    rcases hcases with ⟨hsent, hx⟩ | ⟨c, plannedTimeUs, new, hsent, hc, htransmits, hread, hcalled⟩
    · rw [transmissions, hsent]
      exact ((h index).later hlater).of_same hx
    · rw [transmissions, hsent]
      exact tracked_transmits ((h index).of_same hc) htransmits hread (Int.ofNat_le.mpr hcalled) hlater
  exact (tracked_steps (fun _ hle => hle) hx hsteps).of_same hsame

theorem Reachable.tracks (h : Reachable config intervalUs startUs s) : s.Tracks config :=
  h.invariant (fun _ => tracks_initial) fun _ _ _ hs hok hstep => tracks_step hs hok hstep

theorem gone_move {m : Move} {index : Int} (htimely : m.Timely) (hstep : s.step m = some t)
    (h : s.connection.outgoing.Gone index) :
    t.connection.outgoing.Gone index ∧ t.transmissions index = s.transmissions index := by
  obtain ⟨x, y, hsteps, hsame, -, hcases⟩ := step_outgoing htimely hstep
  have hx : x.Gone index ∧ t.transmissions index = s.transmissions index := by
    rcases hcases with ⟨hsent, hx⟩ | ⟨c, plannedTimeUs, new, hsent, hc, htransmits, -, -⟩
    · rw [transmissions, hsent]
      exact ⟨h.of_same hx, rfl⟩
    · rw [transmissions, hsent]
      exact gone_transmits (h.of_same hc) htransmits
  exact ⟨(gone_steps hx.1 hsteps).of_same hsame, hx.2⟩

theorem Continues.gone {index : Int} (hrun : s.Continues t) (h : s.connection.outgoing.Gone index) :
    t.connection.outgoing.Gone index ∧ t.transmissions index = s.transmissions index :=
  hrun.invariant (I := fun u => u.connection.outgoing.Gone index ∧
      u.transmissions index = s.transmissions index)
    (fun u hu => by rw [hu]; exact ⟨h, rfl⟩)
    fun _ _ _ hu hok hstep => by
      have hmove := gone_move hok hstep hu.1
      exact ⟨hmove.1, hmove.2.trans hu.2⟩

theorem next_le_move {m : Move} (htimely : m.Timely) (hstep : s.step m = some t) :
    s.connection.udpNextSendIndex ≤ t.connection.udpNextSendIndex := by
  obtain ⟨x, y, hsteps, hsame, -, hcases⟩ := step_outgoing htimely hstep
  have hxy : x.udpNextSendIndex ≤ y.udpNextSendIndex :=
    Runs.chain_le (I := fun _ => True) (fun z : Outgoing => z.udpNextSendIndex) (fun _ _ _ _ => trivial)
      (fun _ _ _ => next_le_step) hsteps trivial
  have hx : x.udpNextSendIndex = s.connection.udpNextSendIndex := by
    rcases hcases with ⟨-, hx⟩ | ⟨c, plannedTimeUs, new, -, hc, htransmits, -, -⟩
    · exact hx.next_eq
    · rw [transmits_next htransmits]
      exact hc.next_eq
  have hy : t.connection.udpNextSendIndex = y.udpNextSendIndex := hsame.next_eq
  omega

theorem Continues.next_le (hrun : s.Continues t) :
    s.connection.udpNextSendIndex ≤ t.connection.udpNextSendIndex :=
  hrun.invariant (I := fun u => s.connection.udpNextSendIndex ≤ u.connection.udpNextSendIndex)
    (fun u hu => by rw [hu])
    fun _ _ _ hu hok hstep => hu.trans (next_le_move hok hstep)

/-- What `udpResend` finds where it closes. -/
theorem Tracks.given_up (h : s.Tracks config) {roundUs atUs doneUs : Nat} {io : Io}
    (hstep : s.step (.call .udpResend roundUs atUs doneUs io) = some t)
    (hudp : s.connection.udpConnected = true) (hclosed : t.connection.udpConnected = false) :
    ∃ (index : Int) (packet : Packet), s.connection.udpSentPackets[index]? = some packet ∧
      packet.confirmed = false ∧
      ((s.transmissions index).length : Int) = max config.udpResendCount 0 + 1 ∧
      ∃ last ∈ (s.transmissions index).head?, (last.readUs : Int) + config.udpResendUs ≤ io.nowUs.head := by
  simp only [step] at hstep
  split at hstep
  · cases hstep
    let c := ({ s.connection with io := io } : Connection).disable .udpResend
    have hopen : c.udpConnected = true := hudp
    have hloop : c.udpResend = udpResendLoop c.nowUs c.udpSentPackets.keys c.tick := by
      rw [udpResend, if_neg]
      simp [hopen]
    have hdone : (udpResendLoop c.nowUs c.udpSentPackets.keys c.tick).udpConnected = false := by
      rw [← hloop]
      exact hclosed
    obtain ⟨index, packet, hpacket, hsent, htime, hremain⟩ := udpResendLoop_closed (c := c.tick) _ _ hopen hdone
    have hconfig : c.tick.toConfig = config := (h index).config_eq
    obtain ⟨-, htally⟩ := (h index).held packet hpacket
    obtain ⟨last, hlast, heq⟩ := htally.sentTime_eq hsent
    rw [hconfig] at htime
    refine ⟨index, packet, hpacket, htally.unconfirmed, htally.length_eq hsent hremain, last, hlast, ?_⟩
    rw [heq]
    exact htime
  · cases hstep

/-- A packet is sent a bounded number of times, with time for an answer in between, never
after it is gone, and is given up only when the last answer has not come. -/
theorem resends_bounded (h : Reachable config intervalUs startUs s) :
    (∀ index, ((s.transmissions index).length : Int) ≤ max config.udpResendCount 0 + 1 ∧
      (s.transmissions index).IsChain (Apart config.udpResendUs)) ∧
    (∀ (t u : Timeline) (index : Int), s.Continues t → t.Continues u →
      index ∈ s.connection.udpSentPackets → index ∉ t.connection.udpSentPackets →
        u.transmissions index = t.transmissions index) ∧
    ∀ (roundUs atUs doneUs : Nat) (io : Io) (t : Timeline),
      s.step (.call .udpResend roundUs atUs doneUs io) = some t →
      s.connection.udpConnected = true → t.connection.udpConnected = false →
        ∃ (index : Int) (packet : Packet), s.connection.udpSentPackets[index]? = some packet ∧
          packet.confirmed = false ∧
          ((s.transmissions index).length : Int) = max config.udpResendCount 0 + 1 ∧
          ∃ last ∈ (s.transmissions index).head?,
            (last.readUs : Int) + config.udpResendUs ≤ io.nowUs.head := by
  have htracks := h.tracks
  refine ⟨fun index => ⟨(htracks index).length_le, (htracks index).spaced⟩, ?_, ?_⟩
  · intro t u index hst htu hheld hnot
    obtain ⟨packet, hpacket⟩ := Option.isSome_iff_exists.mp (Std.ExtTreeMap.mem_iff_isSome_getElem?.mp hheld)
    have hlt : index < s.connection.udpNextSendIndex := ((htracks index).held packet hpacket).1
    have hgone : t.connection.outgoing.Gone index :=
      ⟨hlt.trans_le (Continues.next_le hst), Std.ExtTreeMap.getElem?_eq_none hnot⟩
    exact (Continues.gone htu hgone).2
  · intro roundUs atUs doneUs io t hstep hudp hclosed
    exact htracks.given_up hstep hudp hclosed

/-- The Hello packet is sent three times, and the time for an answer passes. -/
def unansweredRun : List Move :=
  [.steady .udpWrite 1000 [], .steady .udpResend 4000 [], .steady .udpWrite 4000 [],
    .steady .udpResend 7000 [], .steady .udpWrite 7000 []]

theorem unansweredRun_isSome :
    (Runs.run step Runs.anyMove (fresh .small) unansweredRun).isSome = true := by
  decide +kernel

/-- Three transmissions are as many as the Hello packet may have. -/
theorem resends_bounded_unansweredRun : ∃ s : Timeline, (s.transmissions 0).length = 3 ∧
    ((s.transmissions 0).length : Int) ≤ max Config.small.udpResendCount 0 + 1 := by
  have htimely : ∀ m ∈ unansweredRun, m.Timely := by
    simp only [unansweredRun, List.forall_mem_cons, Move.timely_steady, true_and, List.not_mem_nil,
      false_implies, implies_true]
  have hreachable := Runs.Reachable.of_run_forall (.start (fresh_initial .small)) htimely
    (Option.some_get unansweredRun_isSome).symm
  have hlength : (((Runs.run step Runs.anyMove (fresh .small) unansweredRun).get
      unansweredRun_isSome).transmissions 0).length = 3 := by decide +kernel
  exact ⟨_, hlength, ((resends_bounded (hreachable.mono fun _ _ => And.left)).1 0).1⟩

theorem negativeRun_isSome : (Runs.run step Runs.anyMove
    (fresh { Config.small with udpResendCount := -1 }) [.steady .udpWrite 1000 []]).isSome = true := by
  decide +kernel

/-- A packet is sent once, however little `udpResendCount` is. -/
theorem not_resends_bounded_negativeRun :
    ∃ (config : Config) (s : Timeline), Reachable config 10 1000 s ∧
      ¬((s.transmissions 0).length : Int) ≤ config.udpResendCount + 1 := by
  have htimely : ∀ m ∈ [Move.steady .udpWrite 1000 []], m.Timely := by
    simp only [List.forall_mem_cons, Move.timely_steady, true_and, List.not_mem_nil,
      false_implies, implies_true]
  have hreachable := Runs.Reachable.of_run_forall
    (.start (fresh_initial { Config.small with udpResendCount := -1 })) htimely
    (Option.some_get negativeRun_isSome).symm
  have hlength : (((Runs.run step Runs.anyMove (fresh { Config.small with udpResendCount := -1 })
      [.steady .udpWrite 1000 []]).get negativeRun_isSome).transmissions 0).length = 1 := by decide +kernel
  refine ⟨_, _, hreachable.mono fun _ _ => And.left, ?_⟩
  rw [hlength]
  decide

end Timeline

end IceTunnel
