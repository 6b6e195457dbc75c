import IceTunnel.Buffering
import IceTunnel.Pacing

namespace IceTunnel

/-- No duration of the configuration is negative. -/
structure Config.Timely (config : Config) : Prop where
  udpResendUs : 0 ≤ config.udpResendUs
  buildConfirmationsUs : 0 ≤ config.buildConfirmationsUs
  buildUdpPacketsUs : 0 ≤ config.buildUdpPacketsUs

namespace Connection

/-- There is something to do for the handler of the event. -/
def Needs (c : Connection) : EventName → Prop
  | .tcpWrite => c.tcpConnected = true ∧ c.tcpNextSendIndex < c.udpReceivedMasterIndex
  | .udpWrite => c.udpConnected = true ∧
      ((∃ (index : Int) (p : Packet), c.udpSentPackets[index]? = some p ∧ p.sent = false) ∨
        c.udpConfirmationPackets ≠ [])
  | .buildUdpPackets => c.udpConnected = true ∧ c.tcpReceivedData ≠ []
  | .buildConfirmations => c.udpConnected = true ∧ c.remainConfirmationResendCount > 0
  | .buildByeBye => c.udpConnected = true ∧ c.remainByeByeResendCount > 0
  | .udpResend => c.udpConnected = true ∧
      ∃ (index : Int) (p : Packet), c.udpSentPackets[index]? = some p ∧ p.sent = true
  | .close => c.tcpConnected = false ∧ c.udpConnected = false ∧ c.deleted = false
  | _ => False

/-- The event is enabled where it is needed. -/
def Awake (c : Connection) (name : EventName) : Prop :=
  c.Needs name → c.isEnabled name = true

variable {c d : Connection} {name : EventName}

theorem Awake.of (h : c.Awake name) (hneeds : d.Needs name → c.Needs name)
    (hevent : d.isEnabled name = c.isEnabled name) : d.Awake name := by
  intro hneed
  rw [hevent]
  exact h (hneeds hneed)

theorem Awake.congr (h : c.Awake name) (hend : d.toEndpoint = c.toEndpoint)
    (hcountdown : d.toCountdown = c.toCountdown) (hdeleted : d.deleted = c.deleted)
    (hevent : d.isEnabled name = c.isEnabled name) : d.Awake name := by
  apply h.of _ hevent
  cases name <;> simp only [Needs, hend, hcountdown, hdeleted] <;> exact id

theorem Awake.receiver (h : c.Awake name) (hname : name ≠ .tcpWrite) {r : Receiver}
    (hend : d.toEndpoint = { c.toEndpoint with toReceiver := r })
    (hcountdown : d.toCountdown = c.toCountdown) (hdeleted : d.deleted = c.deleted)
    (hevent : d.isEnabled name = c.isEnabled name) : d.Awake name := by
  apply h.of _ hevent
  cases name <;> simp only [Needs, hend, hcountdown, hdeleted] <;> first | exact id | exact absurd rfl hname

theorem Awake.sender (h : c.Awake name) (hudpWrite : name ≠ .udpWrite) (hresend : name ≠ .udpResend)
    (hbuild : name ≠ .buildUdpPackets) {s : Sender}
    (hend : d.toEndpoint = { c.toEndpoint with toSender := s })
    (hcountdown : d.toCountdown = c.toCountdown) (hdeleted : d.deleted = c.deleted)
    (hevent : d.isEnabled name = c.isEnabled name) : d.Awake name := by
  apply h.of _ hevent
  cases name <;> simp only [Needs, hend, hcountdown, hdeleted] <;> first | exact id | contradiction

theorem awake_of_udpClosed (hudp : c.udpConnected = false) (htcpWrite : name ≠ .tcpWrite)
    (hclose : name ≠ .close) : c.Awake name := by
  intro hneed
  cases name <;> simp_all [Needs]

theorem awake_tcpRead : c.Awake .tcpRead := False.elim
theorem awake_tcpClose : c.Awake .tcpClose := False.elim
theorem awake_udpClose : c.Awake .udpClose := False.elim
theorem awake_udpCloseWait : c.Awake .udpCloseWait := False.elim

/-- No packet is unsent when the count says so. -/
theorem not_unsent (hcounting : c.Counting) (hudp : c.udpConnected = true)
    (hcount : ¬c.udpPacketsToSendCount > 0) {index : Int} {p : Packet}
    (hp : c.udpSentPackets[index]? = some p) : p.sent = true := by
  by_contra hsent
  rw [Bool.not_eq_true] at hsent
  have hmem := (mem_unsent c.udpSentPackets).mpr ⟨p, hp, hsent⟩
  have hpos := Finset.card_pos.mpr ⟨index, hmem⟩
  have heq := hcounting hudp
  omega

variable (c)

section TcpWrite

theorem awake_of_pending : (if c.tcpNextSendIndex < c.udpReceivedMasterIndex then
    c.setTimeRelativeNow .tcpWrite 0 else c).Awake .tcpWrite := by
  split
  · exact fun _ => isEnabled_setTimeRelativeNow_self _ _ _ (le_refl 0)
  · rename_i hdone
    exact fun hneed => absurd hneed.2 hdone

theorem tcpWriteLoop_awake {fuel : Nat} (hfuel : c.tcpWriteFuel ≤ fuel)
    (hwellFormed : c.toReceiver.WellFormed) (hopen : (tcpWriteLoop false fuel c).2 = false) :
    (tcpWriteLoop false fuel c).1.Awake .tcpWrite := by
  induction fuel generalizing c with
  | zero =>
      rintro ⟨-, hlt⟩
      simp only [tcpWriteFuel, tcpWriteLoop] at hfuel hlt
      omega
  | succ fuel ih =>
      simp only [tcpWriteLoop] at hopen ⊢
      split
      · rename_i hlt
        rw [if_pos hlt] at hopen
        split
        · rename_i hnone
          have hmem := hwellFormed.filled _ (le_refl _) hlt
          rw [Std.ExtTreeMap.mem_iff_isSome_getElem?, hnone] at hmem
          cases hmem
        · rename_i packet hpacket
          simp only [hpacket] at hopen
          split
          · rename_i hskip
            rw [if_pos hskip] at hopen
            split
            · rename_i hclosing
              rw [if_pos hclosing] at hopen
              cases hopen
            · rename_i hclosing
              rw [if_neg hclosing] at hopen
              apply ih _ _ (hwellFormed.skip false hpacket hlt) hopen
              simp only [tcpWriteFuel, Receiver.skip_udpReceivedMasterIndex,
                Receiver.skip_tcpNextSendIndex] at hfuel ⊢
              omega
          · exact awake_of_pending _
      · rename_i hle
        exact fun hneed => absurd hneed.2 hle

end TcpWrite

section BuildUdpPackets

variable (flush : Bool)

theorem push_needs_udpResend (type : PacketType) (payload : List UInt8)
    (h : (c.push type payload).Needs .udpResend) : c.Needs .udpResend := by
  obtain ⟨hudp, index, p, hp, hsent⟩ := h
  refine ⟨hudp, ?_⟩
  simp only [push_toEndpoint, Sender.push, Std.ExtTreeMap.getElem?_insert, compare_eq_iff_eq] at hp
  split at hp
  · obtain rfl := Option.some.inj hp
    simp only [Packet.encode_sent, Std.ExtTreeMap.getD_eq_getD_getElem?] at hsent
    cases hold : c.udpSentPackets[c.udpNextSendIndex]? with
    | none => simp [hold] at hsent
    | some q => exact ⟨_, q, hold, by simpa [hold] using hsent⟩
  · exact ⟨index, p, hp, hsent⟩

theorem buildUdpPacketsLoop_awake (fuel : Nat) (rest : List UInt8)
    (hname : name = .udpWrite ∨ name = .udpResend) (h : c.Awake name) :
    (buildUdpPacketsLoop flush fuel rest c).1.Awake name := by
  induction fuel generalizing rest c with
  | zero => exact h
  | succ fuel ih =>
      simp only [buildUdpPacketsLoop]
      split
      · exact h
      · split
        · exact h
        · apply ih
          rcases hname with rfl | rfl
          · intro _
            rw [isEnabled_onUdpSentBufferChanged _ _ (by decide)]
            exact isEnabled_setEventUdpWrite _
          · refine h.of (fun hneed => ?_) ?_
            · apply push_needs_udpResend c .data
              simpa [Needs] using hneed
            · rw [isEnabled_onUdpSentBufferChanged _ _ (by decide),
                isEnabled_setEventUdpWrite_of_ne _ (by decide), isEnabled_push]

theorem buildReceivedData_awake (htime : name = .buildUdpPackets → 0 ≤ c.buildUdpPacketsUs)
    (h : name ≠ .buildUdpPackets → c.Awake name) : (c.buildReceivedData flush).Awake name := by
  obtain ⟨s, hs, -⟩ := c.buildReceivedData_steps (N := fun _ => True) flush
  obtain ⟨hcountdown, hdeleted, hevents⟩ := c.buildReceivedData_frame flush
  by_cases hbuild : name = .buildUdpPackets
  · subst hbuild
    obtain ⟨s', hs', -⟩ := c.buildUdpPacketsLoop_steps (N := fun _ => True) flush
      c.tcpReceivedData.length c.tcpReceivedData
    simp only [buildReceivedData]
    generalize (buildUdpPacketsLoop flush c.tcpReceivedData.length c.tcpReceivedData c).2 = rest
    split
    · rename_i hrest
      rintro ⟨-, hdata⟩
      split at hdata <;> exact absurd hrest hdata
    · intro _
      apply isEnabled_setTimeRelativeNow_self
      split <;> simpa [hs'] using htime rfl
  by_cases hname : name = .udpWrite ∨ name = .udpResend
  · have hloop := c.buildUdpPacketsLoop_awake flush c.tcpReceivedData.length c.tcpReceivedData hname
      (h hbuild)
    refine hloop.of (fun hneed => ?_) ?_
    · rcases hname with rfl | rfl
      all_goals
        simp only [buildReceivedData] at hneed
        split at hneed <;> split at hneed <;> exact hneed
    · have hdisable : ∀ e : Connection, (e.disable .buildUdpPackets).isEnabled name =
          e.isEnabled name := fun e => isEnabled_disable_of_ne e _ hbuild
      have hset : ∀ (e : Connection) (timeUs : Int),
          (e.setTimeRelativeNow .buildUdpPackets timeUs).isEnabled name = e.isEnabled name :=
        fun e timeUs => isEnabled_setTimeRelativeNow_of_ne e _ timeUs hbuild
      simp only [buildReceivedData]
      split <;> split
      · exact hdisable _
      · rfl
      · exact (hset _ _).trans (hdisable _)
      · exact hset _ _
  · rw [not_or] at hname
    by_cases hread : name = .tcpRead
    · rw [hread]
      exact awake_tcpRead
    · exact (h hbuild).sender hname.1 hname.2 hbuild hs hcountdown hdeleted
        (hevents name hname.1 hread hbuild)

theorem buildUdpPackets_awake (htime : name = .buildUdpPackets → 0 ≤ c.buildUdpPacketsUs)
    (h : name ≠ .buildUdpPackets → c.Awake name) : (c.buildUdpPackets flush).Awake name := by
  simp only [buildUdpPackets]
  split
  · rename_i hudp
    rw [Bool.not_eq_true'] at hudp
    by_cases hbuild : name = .buildUdpPackets
    · rw [hbuild]
      exact awake_of_udpClosed hudp (by decide) (by decide)
    · exact h hbuild
  · split
    · refine buildReceivedData_awake _ flush htime ?_
      intro hbuild
      exact (h hbuild).of (by cases name <;> first | exact id | contradiction) rfl
    · exact c.buildReceivedData_awake flush htime h

theorem tcpRead_awake (htime : name = .buildUdpPackets → 0 ≤ c.buildUdpPacketsUs)
    (h : c.Awake name) : c.tcpRead.Awake name := by
  by_cases hread : name = .tcpRead
  · rw [hread]
    exact awake_tcpRead
  simp only [tcpRead]
  split
  · exact h
  · have hchanged : ∀ d : Connection, d.Awake name → (d.onUdpSentBufferChanged 0).Awake name :=
      fun d hd => hd.congr (by simp) (by simp) (by simp) (isEnabled_onUdpSentBufferChanged _ _ hread)
    apply hchanged
    split
    · exact h
    · split
      · refine buildUdpPackets_awake _ false htime ?_
        intro hbuild
        exact h.of (by cases name <;> first | exact id | contradiction) rfl
      · exact h.of (by cases name <;> exact id) rfl

end BuildUdpPackets

section Closing

theorem tcpWriteFake_awake (h : c.Awake name) (hname : name ≠ .tcpWrite) :
    c.tcpWriteFake.Awake name := by
  obtain ⟨r, hr, -⟩ := c.tcpWriteFake_steps (N := fun _ => True)
  obtain ⟨hcountdown, -, hdeleted, hevents⟩ := c.tcpWriteFake_frame
  exact h.receiver hname hr hcountdown hdeleted (hevents name)

theorem flush_awake (hname : name = .udpResend ∨ name = .buildUdpPackets)
    (htime : name = .buildUdpPackets → 0 ≤ c.buildUdpPacketsUs) (h : c.Awake name) :
    ((({ c with tcpConnected := false }.disable .tcpRead).disable .tcpWrite).tcpWriteFake.buildUdpPackets
      true).Awake name := by
  let b := ({ c with tcpConnected := false }.disable .tcpRead).disable .tcpWrite
  have hb : b.Awake name := by
    refine h.of ?_ ?_
    · rcases hname with rfl | rfl <;> exact id
    · rcases hname with rfl | rfl
      all_goals
        rw [isEnabled_disable_of_ne _ _ (by decide), isEnabled_disable_of_ne _ _ (by decide)]
        rfl
  have hfake : b.tcpWriteFake.Awake name :=
    b.tcpWriteFake_awake hb (by rcases hname with rfl | rfl <;> decide)
  have hconfig : b.tcpWriteFake.buildUdpPacketsUs = c.buildUdpPacketsUs := by
    obtain ⟨r, hr, -⟩ := b.tcpWriteFake_steps (N := fun _ => True)
    rw [hr]
    rfl
  exact buildUdpPackets_awake _ true (fun hbuild => hconfig ▸ htime hbuild) fun _ => hfake

theorem pushLast_awake (type : PacketType)
    (hname : name = .udpWrite ∨ name = .udpResend ∨ name = .buildUdpPackets)
    (h : name ≠ .udpWrite → c.Awake name) :
    ((c.push type []).onUdpSentBufferChanged 0).setEventUdpWrite.Awake name := by
  have hevent : ∀ name, name ≠ .udpWrite → name ≠ .tcpRead →
      ((c.push type []).onUdpSentBufferChanged 0).setEventUdpWrite.isEnabled name =
        c.isEnabled name := by
    intro name hudpWrite hread
    rw [isEnabled_setEventUdpWrite_of_ne _ hudpWrite, isEnabled_onUdpSentBufferChanged _ _ hread,
      isEnabled_push]
  rcases hname with rfl | rfl | rfl
  · exact fun _ => isEnabled_setEventUdpWrite _
  · refine (h (by decide)).of (fun hneed => ?_) (hevent _ (by decide) (by decide))
    apply push_needs_udpResend c type []
    simpa [Needs] using hneed
  · refine (h (by decide)).of (fun hneed => ?_) (hevent _ (by decide) (by decide))
    simpa [Needs] using hneed

theorem tcpClose_awake (error : Bool) (htime : name = .buildUdpPackets → 0 ≤ c.buildUdpPacketsUs)
    (h : name ≠ .tcpWrite → c.Awake name) : (c.tcpClose error).Awake name := by
  obtain ⟨hcountdown, hdeleted, hevents⟩ := c.tcpClose_frame error
  obtain ⟨htcpD, hudpD⟩ := c.tcpClose_ends error
  by_cases hwrite : name = .tcpWrite
  · subst hwrite
    rintro ⟨htcp, -⟩
    rw [htcpD] at htcp
    cases htcp
  cases htcp : c.tcpConnected with
  | false =>
      simp only [tcpClose, htcp]
      exact h hwrite
  | true =>
      cases hudp : c.udpConnected with
      | false =>
          by_cases hclose : name = .close
          · rw [hclose]
            exact fun _ => c.isEnabled_close_tcpClose error htcp hudp
          · exact awake_of_udpClosed (hudpD.trans hudp) hwrite hclose
      | true =>
          have hlast : name = .udpWrite ∨ name = .udpResend ∨ name = .buildUdpPackets →
              (c.tcpClose error).Awake name := by
            intro hname
            have hpushed := pushLast_awake _ (if error then .disconnect else .bye) hname
              fun hudpWrite => c.flush_awake (hname.resolve_left hudpWrite) htime (h hwrite)
            have heq : c.tcpClose error = _ := (if_neg (by simp [htcp])).trans (if_neg (by simp [hudp]))
            rw [heq]
            exact hpushed
          cases name with
          | udpWrite => exact hlast (.inl rfl)
          | udpResend => exact hlast (.inr (.inl rfl))
          | buildUdpPackets => exact hlast (.inr (.inr rfl))
          | buildConfirmations =>
              refine (h hwrite).of ?_
                (hevents _ (by decide) (by decide) (by decide) (by decide) (by decide))
              simp only [Needs, hudpD, hcountdown]
              exact id
          | buildByeBye =>
              refine (h hwrite).of ?_
                (hevents _ (by decide) (by decide) (by decide) (by decide) (by decide))
              simp only [Needs, hudpD, hcountdown]
              exact id
          | close =>
              rintro ⟨-, hclosed, -⟩
              rw [hudpD, hudp] at hclosed
              cases hclosed
          | tcpWrite => exact absurd rfl hwrite
          | _ => exact False.elim

theorem dropUdp_awake (h : c.Awake .tcpWrite) : c.dropUdp.Awake .tcpWrite := by
  refine h.of ?_ (c.dropUdp_frame.2.2 _ (by decide) (by decide) (by decide) (by decide) (by decide))
  simp only [Needs, dropUdp_toEndpoint]
  exact id

theorem udpClose_awake (h : c.udpConnected = false ∨ name = .tcpWrite → c.Awake name) :
    c.udpClose.Awake name := by
  cases hudp : c.udpConnected with
  | false =>
      simp only [udpClose, hudp]
      exact h (.inl hudp)
  | true =>
      by_cases hwrite : name = .tcpWrite
      · subst hwrite
        have hdropped := c.dropUdp_awake (h (.inr rfl))
        rw [udpClose_eq c hudp]
        split
        · exact hdropped.of id (isEnabled_setTimeRelativeNow_of_ne _ _ _ (by decide))
        · split
          · rintro ⟨htcp, -⟩
            rw [(c.dropUdp.tcpClose_ends false).1] at htcp
            cases htcp
          · exact hdropped
      · by_cases hclose : name = .close
        · rw [hclose]
          exact fun hneed => c.isEnabled_close_udpClose hudp hneed.1
        · exact awake_of_udpClosed c.udpClose_udpConnected hwrite hclose

theorem closeIfUdpFinished_awake (h : c.Awake name) : c.closeIfUdpFinished.Awake name := by
  rcases c.closeIfUdpFinished_eq with ⟨-, heq⟩ | ⟨-, finished, heq⟩
  · rw [heq]
    exact h
  · rw [heq]
    apply udpClose_awake
    exact fun _ => h.of (by cases name <;> exact id) rfl

theorem tcpWrite_awake (htime : name = .buildUdpPackets → 0 ≤ c.buildUdpPacketsUs)
    (hwellFormed : c.toReceiver.WellFormed) (h : name ≠ .tcpWrite → c.Awake name) : c.tcpWrite.Awake name := by
  obtain ⟨r, hr, -⟩ := c.tcpWriteLoop_toEndpoint false c.tcpWriteFuel
  obtain ⟨hcountdown, -, hdeleted, hevents⟩ := c.tcpWriteLoop_frame false c.tcpWriteFuel
  have hloop : name ≠ .tcpWrite → (tcpWriteLoop false c.tcpWriteFuel c).1.Awake name :=
    fun hname => (h hname).receiver hname hr hcountdown hdeleted (hevents name hname)
  simp only [tcpWrite]
  split
  · rename_i htcp
    by_cases hwrite : name = .tcpWrite
    · subst hwrite
      rintro ⟨hopen, -⟩
      simp [hopen] at htcp
    · exact h hwrite
  · split
    · apply tcpClose_awake _ _ _ hloop
      rw [hr]
      exact htime
    · rename_i hopen
      by_cases hwrite : name = .tcpWrite
      · subst hwrite
        exact c.tcpWriteLoop_awake (le_refl _) hwellFormed (by simpa using hopen)
      · exact hloop hwrite

end Closing

section UdpWrite

variable (plannedTimeUs : Int)

theorem markSent_pacing (index : Int) (packet : Packet) :
    (c.markSent plannedTimeUs index packet).udpLastSentUs = plannedTimeUs ∧
      (c.markSent plannedTimeUs index packet).udpSendIntervalUs = c.udpSendIntervalUs := by
  have hsent : ∀ (d : Connection) (size : Int),
      (d.onUdpSent d.udpSendMeasureIndex d.udpSendIntervalUs size).udpLastSentUs = d.udpLastSentUs ∧
        (d.onUdpSent d.udpSendMeasureIndex d.udpSendIntervalUs size).udpSendIntervalUs =
          d.udpSendIntervalUs := by
    intro d size
    simp only [onUdpSent]
    split
    · exact ⟨rfl, rfl⟩
    · rename_i pacing hpacing
      obtain ⟨m, -, rfl | rfl⟩ := Pacing.onUdpSent_eq_some hpacing
      · exact ⟨rfl, rfl⟩
      · exact ⟨rfl, rfl⟩
  exact hsent { c.tick with
    udpSentPackets := c.udpSentPackets.insert index { packet with
      sent := true, sentTimeUs := c.nowUs, measureIndex := c.udpSendMeasureIndex }
    udpLastSentUs := plannedTimeUs } packet.getSize

variable {plannedTimeUs}

theorem nextSend_awake {more : Prop} [Decidable more] (hcounting : c.Counting)
    (hmore : c.udpConfirmationPackets ≠ [] ∨ c.udpPacketsToSendCount > 0 → more)
    (htime : name = .udpWrite → 0 ≤ c.udpLastSentUs + c.udpSendIntervalUs)
    (h : name ≠ .udpWrite → c.Awake name) :
    (if more then c.setTime .udpWrite (c.udpLastSentUs + c.udpSendIntervalUs) else c).Awake name := by
  by_cases hname : name = .udpWrite
  · subst hname
    split
    · intro _
      rw [isEnabled_setTime_self]
      exact .inr (htime rfl)
    · rename_i hnone
      rintro ⟨hudp, ⟨index, p, hp, hsent⟩ | hqueue⟩
      · rw [not_unsent hcounting hudp (fun hcount => hnone (hmore (.inr hcount))) hp] at hsent
        cases hsent
      · exact absurd (hmore (.inl hqueue)) hnone
  · split
    · exact (h hname).of id (isEnabled_setTime_of_ne _ _ _ hname)
    · exact h hname

theorem udpWriteConfirmation_awake {packet : Packet} {packets : List Packet}
    (hplanned : 0 ≤ plannedTimeUs) (hpaced : name = .udpWrite → c.ledger.Paced)
    (hcounting : c.Counting) (h : name ≠ .udpWrite → c.Awake name) :
    (c.udpWriteConfirmation plannedTimeUs packet packets).Awake name := by
  by_cases hread : name = .tcpRead
  · rw [hread]
    exact awake_tcpRead
  have hinterval : name = .udpWrite → 0 ≤ c.udpSendIntervalUs := fun hname =>
    (hpaced hname).interval_nonneg
  simp only [udpWriteConfirmation]
  split
  · let d : Connection := { ({ c with
      toSender := c.toSender.record (.writeto packet.wire)
      udpLastSentUs := plannedTimeUs } : Connection).onUdpSentBufferChanged (-packet.getSize) with
        udpConfirmationPackets := packets }
    have hend : d.toEndpoint = { c.toEndpoint with
        toSender := c.toSender.record (.writeto packet.wire)
        udpConfirmationPackets := packets } := by
      simp [d]
    have hpacing : d.toPacing = { c.toPacing with udpLastSentUs := plannedTimeUs } := by
      simp [d]
    have hd : name ≠ .udpWrite → d.Awake name := by
      intro hname
      refine (h hname).of ?_ (isEnabled_onUdpSentBufferChanged _ _ hread)
      have hcountdown : d.toCountdown = c.toCountdown := by simp [d]
      have hdeleted : d.deleted = c.deleted := by simp [d]
      cases name <;> simp only [Needs, hend, hcountdown, hdeleted] <;> first | exact id | contradiction
    change Awake (if d.isUdpFinished then d.closeIfUdpFinished
      else if packets ≠ [] ∨ d.udpPacketsToSendCount > 0 then
        d.setTime .udpWrite (d.udpLastSentUs + d.udpSendIntervalUs)
      else d) name
    split
    · rename_i hfinished
      by_cases hname : name = .udpWrite
      · rcases d.closeIfUdpFinished_eq with ⟨hopen, -⟩ | ⟨-, finished, heq⟩
        · exact absurd (hfinished.symm.trans hopen) (by decide)
        · rw [heq, hname]
          exact awake_of_udpClosed (udpClose_udpConnected _) (by decide) (by decide)
      · exact closeIfUdpFinished_awake _ (hd hname)
    · refine d.nextSend_awake ?_ id (fun hname => ?_) hd
      · rw [hend]
        exact hcounting
      · rw [hpacing]
        exact Int.add_nonneg hplanned (hinterval hname)
  · by_cases hname : name = .udpWrite
    · subst hname
      intro _
      have hlast := (hpaced rfl).last_nonneg
      rw [isEnabled_setTime_self]
      exact .inr (Int.add_nonneg hlast (hinterval rfl))
    · refine (h hname).of ?_ (isEnabled_setTime_of_ne _ _ _ hname)
      cases name <;> exact id

theorem markSent_awake {index : Int} {packet : Packet} (hname : name ≠ .udpWrite)
    (hresend : name ≠ .udpResend) (h : c.Awake name) :
    (c.markSent plannedTimeUs index packet).Awake name := by
  obtain ⟨hcountdown, hdeleted, hevents⟩ := c.markSent_frame plannedTimeUs index packet
  have hend := c.markSent_toEndpoint plannedTimeUs index packet
  refine h.of ?_ (hevents name)
  cases name <;> simp only [Needs, hend, hcountdown, hdeleted] <;> first | exact id | contradiction

theorem udpWritePacket_awake {index : Int} {packet : Packet} (hconfirmed : packet.confirmed = false)
    (hplanned : 0 ≤ plannedTimeUs)
    (hpaced : name = .udpWrite ∨ name = .udpResend → c.ledger.Paced)
    (hcounting : (c.udpWritePacket plannedTimeUs index packet).Counting)
    (hudp : c.udpConnected = true) (hqueue : c.udpConfirmationPackets = [])
    (h : name ≠ .udpWrite → c.Awake name) :
    (c.udpWritePacket plannedTimeUs index packet).Awake name := by
  have hinterval : name = .udpWrite → 0 ≤ c.udpSendIntervalUs := fun hname =>
    (hpaced (.inl hname)).interval_nonneg
  have hlast : name = .udpWrite → 0 ≤ c.udpLastSentUs := fun hname =>
    (hpaced (.inl hname)).last_nonneg
  rw [udpWritePacket_eq c _ _ _ hconfirmed] at hcounting ⊢
  simp only at hcounting ⊢
  generalize hd : ({ c with toSender := c.toSender.record (.writeto packet.wire) } : Connection) = d
    at hcounting ⊢
  have hdAwake : name ≠ .udpWrite → d.Awake name := by
    rw [← hd]
    exact fun hname => (h hname).of (by cases name <;> exact id) rfl
  have hdudp : d.udpConnected = true := by rw [← hd]; exact hudp
  have hdqueue : d.udpConfirmationPackets = [] := by rw [← hd]; exact hqueue
  have hdlast : name = .udpWrite → 0 ≤ d.udpLastSentUs := by rw [← hd]; exact hlast
  have hdinterval : name = .udpWrite → 0 ≤ d.udpSendIntervalUs := by rw [← hd]; exact hinterval
  have hdresend : name = .udpResend → 0 ≤ d.udpResendUs := by
    rw [← hd]
    exact fun hname => (hpaced (.inr hname)).resend_nonneg
  have hrest : ∀ e : Connection, e.udpConfirmationPackets = [] →
      (name = .udpWrite → 0 ≤ e.udpLastSentUs + e.udpSendIntervalUs) →
      (name ≠ .udpWrite → e.Awake name) →
      (if e.udpPacketsToSendCount > 0 then
        e.setTime .udpWrite (e.udpLastSentUs + e.udpSendIntervalUs) else e).Counting →
      (if e.udpPacketsToSendCount > 0 then
        e.setTime .udpWrite (e.udpLastSentUs + e.udpSendIntervalUs) else e).Awake name := by
    intro e hqueueE htimeE hawakeE hcountingE
    refine e.nextSend_awake ?_ (fun hmore => hmore.resolve_left (absurd hqueueE)) htimeE hawakeE
    split at hcountingE <;> exact hcountingE
  split
  · rename_i hsent
    rw [if_pos hsent] at hcounting
    obtain ⟨hlastM, hintervalM⟩ := d.markSent_pacing plannedTimeUs index packet
    have hend := d.markSent_toEndpoint plannedTimeUs index packet
    apply hrest _ _ _ _ hcounting
    · rw [setTimeRelativeNow_toEndpoint, hend]
      exact hdqueue
    · exact fun hname => Int.add_nonneg (hplanned.trans_eq hlastM.symm)
        ((hdinterval hname).trans_eq hintervalM.symm)
    · intro hname
      by_cases hresend : name = .udpResend
      · subst hresend
        intro _
        apply isEnabled_setTimeRelativeNow_self
        rw [hend]
        exact hdresend rfl
      · exact (d.markSent_awake hname hresend (hdAwake hname)).of id
          (isEnabled_setTimeRelativeNow_of_ne _ _ _ hresend)
  · rename_i hfailed
    rw [if_neg hfailed] at hcounting
    subst hd
    exact hrest _ hdqueue (fun hname => Int.add_nonneg (hdlast hname) (hdinterval hname)) hdAwake
      hcounting

theorem udpWrite_awake (hsound : c.toEndpoint.Sound)
    (hplanned : 0 ≤ plannedTimeUs)
    (hpaced : name = .udpWrite ∨ name = .udpResend → c.ledger.Paced)
    (h : name ≠ .udpWrite → c.Awake name) : (c.udpWrite plannedTimeUs).Awake name := by
  have hcounting : (c.udpWrite plannedTimeUs).Counting :=
    (hsound.steps (c.udpWrite_steps (N := fun _ => True) plannedTimeUs)).counting
  simp only [udpWrite] at hcounting ⊢
  split
  · rename_i hudp
    rw [Bool.not_eq_true'] at hudp
    by_cases hname : name = .udpWrite
    · rw [hname]
      exact awake_of_udpClosed hudp (by decide) (by decide)
    · exact h hname
  · rename_i hudp
    rw [if_neg hudp] at hcounting
    have hopen : c.udpConnected = true := by simpa using hudp
    split
    · exact c.udpWriteConfirmation_awake hplanned (fun hname => hpaced (.inl hname))
        hsound.counting h
    · rename_i hqueue
      simp only [hqueue] at hcounting
      split
      · rename_i index packet hfirst
        simp only [hfirst] at hcounting
        obtain ⟨hpacket, -⟩ := c.firstUnsent_eq_some hfirst
        exact c.udpWritePacket_awake (hsound.sending.wellFormed.sent_unconfirmed index packet hpacket)
          hplanned hpaced hcounting hopen hqueue h
      · rename_i hnone
        by_cases hname : name = .udpWrite
        · subst hname
          rintro ⟨-, ⟨index, p, hp, hsent⟩ | hne⟩
          · have hmem := Std.ExtTreeMap.mem_toList_iff_getElem?_eq_some.mpr hp
            have hall := List.find?_eq_none.mp hnone _ hmem
            simp [hsent] at hall
          · exact absurd hqueue hne
        · exact h hname

end UdpWrite

section Confirming

theorem buildConfirmations_awake
    (htime : name = .buildConfirmations → 0 ≤ c.buildConfirmationsUs)
    (h : name ≠ .buildConfirmations → c.Awake name) : c.buildConfirmations.Awake name := by
  cases hudp : c.udpConnected with
  | false =>
      have heq : c.buildConfirmations = c := by simp [buildConfirmations, hudp]
      rw [heq]
      by_cases hname : name = .buildConfirmations
      · rw [hname]
        exact awake_of_udpClosed hudp (by decide) (by decide)
      · exact h hname
  | true =>
      obtain ⟨r, packets, hend, -, hnext, hmaster, -⟩ := c.buildConfirmations_toEndpoint hudp
      have hcountdown := c.buildConfirmations_toCountdown hudp
      obtain ⟨hdeleted, hevents⟩ := c.buildConfirmations_frame
      cases name with
      | buildConfirmations =>
          rintro ⟨-, hremain⟩
          rw [hcountdown] at hremain
          have hpos : c.confirmAll.remainConfirmationResendCount - 1 > 0 := by
            rw [(c.confirmAll_frame).1]
            exact hremain
          have hconfig : c.confirmAll.toConfig = c.toConfig := by
            simp [confirmAll, foldl_pushConfirmation_toEndpoint, dropConfirmations_toEndpoint]
          rw [buildConfirmations_eq c hudp]
          simp only [hpos, if_true]
          apply isEnabled_setTimeRelativeNow_self
          rw [hconfig]
          exact htime rfl
      | udpWrite =>
          intro _
          have hset := (c.confirmAll_frame).2.2.1
          rw [buildConfirmations_eq c hudp]
          simp only
          split
          · rw [isEnabled_setTimeRelativeNow_of_ne _ _ _ (by decide)]
            exact hset
          · exact hset
      | tcpWrite =>
          refine (h (by decide)).of ?_ (hevents _ (by decide) (by decide) (by decide))
          simp only [Needs, hend, hnext, hmaster]
          exact id
      | buildUdpPackets =>
          refine (h (by decide)).of ?_ (hevents _ (by decide) (by decide) (by decide))
          simp only [Needs, hend]
          exact id
      | buildByeBye =>
          refine (h (by decide)).of ?_ (hevents _ (by decide) (by decide) (by decide))
          simp only [Needs, hend, hcountdown]
          exact id
      | udpResend =>
          refine (h (by decide)).of ?_ (hevents _ (by decide) (by decide) (by decide))
          simp only [Needs, hend]
          exact id
      | close =>
          refine (h (by decide)).of ?_ (hevents _ (by decide) (by decide) (by decide))
          simp only [Needs, hend, hdeleted]
          exact id
      | _ => exact False.elim

theorem buildByeBye_awake (htime : name = .buildByeBye → 0 ≤ c.buildConfirmationsUs)
    (h : name ≠ .buildByeBye → c.Awake name) : c.buildByeBye.Awake name := by
  cases hudp : c.udpConnected with
  | false =>
      have heq : c.buildByeBye = c := by simp [buildByeBye, hudp]
      rw [heq]
      by_cases hname : name = .buildByeBye
      · rw [hname]
        exact awake_of_udpClosed hudp (by decide) (by decide)
      · exact h hname
  | true =>
      obtain ⟨hcountdown, hdeleted, hset, hevents⟩ := c.queueByeBye_frame
      have hend : c.queueByeBye.toEndpoint = { c.toEndpoint with
          udpConfirmationPackets := c.udpConfirmationPackets ++ [c.byeByePacket]
          toSender := c.toSender.record (.byeBye c.byeByePacket.wire c.udpSentPackets.keys) } := by
        simp [queueByeBye]
      have hqueued : name ≠ .buildByeBye → c.queueByeBye.Awake name := by
        intro hbyeBye
        cases name with
        | udpWrite => exact fun _ => hset
        | buildByeBye => exact absurd rfl hbyeBye
        | tcpRead => exact awake_tcpRead
        | _ =>
            refine (h hbyeBye).of ?_ (hevents _ (by decide) (by decide))
            simp only [Needs, hend, hcountdown, hdeleted]
            exact id
      rw [buildByeBye_eq c hudp]
      simp only
      by_cases hname : name = .buildByeBye
      · subst hname
        split
        · intro _
          apply isEnabled_setTimeRelativeNow_self
          rw [hend]
          exact htime rfl
        · rename_i hdone
          exact fun hneed => absurd hneed.2 hdone
      · have hcounted := (hqueued hname).of (d := { c.queueByeBye with
          remainByeByeResendCount := c.queueByeBye.remainByeByeResendCount - 1 })
          (by cases name <;> first | exact id | contradiction) rfl
        split
        · exact hcounted.of id (isEnabled_setTimeRelativeNow_of_ne _ _ _ hname)
        · exact hcounted

end Confirming

section Resending

theorem udpResendLoop_awake {timeUs : Int} (htime : 0 ≤ timeUs) (indices : List Int)
    (h : name ≠ .udpResend → c.Awake name)
    (hpending : name = .udpResend → c.isEnabled .udpResend = true ∨
      ∀ (index : Int) (p : Packet), c.udpSentPackets[index]? = some p → p.sent = true →
        index ∈ indices) : (udpResendLoop timeUs indices c).Awake name := by
  induction indices generalizing c with
  | nil =>
      by_cases hname : name = .udpResend
      · subst hname
        rintro ⟨-, index, p, hp, hsent⟩
        rcases hpending rfl with henabled | hall
        · exact henabled
        · cases hall index p hp hsent
      · exact h hname
  | cons index indices ih =>
      rcases c.udpResendLoop_cons timeUs index with ⟨hunsent, heq⟩ |
        ⟨packet, hpacket, hsent, ⟨-, -, heq⟩ | ⟨-, -, heq⟩ | ⟨hlater, heq⟩⟩
      · rw [heq]
        refine ih c h fun hname => (hpending hname).imp_right fun hall other p hp hsentP => ?_
        refine (List.mem_cons.mp (hall other p hp hsentP)).resolve_left ?_
        rintro rfl
        rw [hunsent p hp] at hsentP
        cases hsentP
      · rw [heq]
        have hend := c.markLost_toEndpoint index packet
        refine ih _ (fun hname => ?_) fun hname => ?_
        · cases name with
          | udpWrite => exact fun _ => isEnabled_setEventUdpWrite _
          | udpResend => exact absurd rfl hname
          | _ =>
              refine (h hname).of ?_ (isEnabled_setEventUdpWrite_of_ne _ nofun)
              simp only [Needs, setEventUdpWrite_toEndpoint, hend, setEventUdpWrite_toCountdown,
                setEventUdpWrite_deleted]
              exact id
        · rw [isEnabled_setEventUdpWrite_of_ne _ (by decide)]
          refine (hpending hname).imp id fun hall other p hp hsentP => ?_
          rw [setEventUdpWrite_toEndpoint, hend] at hp
          simp only [Std.ExtTreeMap.getElem?_insert, compare_eq_iff_eq] at hp
          split at hp
          · rw [← Option.some.inj hp] at hsentP
            cases hsentP
          · rename_i hne
            exact (List.mem_cons.mp (hall other p hp hsentP)).resolve_left (Ne.symm hne)
      · rw [heq]
        apply udpClose_awake
        rintro (hudp | rfl)
        · by_cases hname : name = .udpResend
          · rw [hname]
            exact awake_of_udpClosed hudp nofun nofun
          · exact h hname
        · exact h nofun
      · rw [heq]
        refine ih _ (fun hname => (h hname).of id (isEnabled_setTime_of_ne _ _ _ hname)) fun _ => ?_
        left
        rw [isEnabled_setTime_self]
        right
        omega

theorem udpResend_awake (h : name ≠ .udpResend → c.Awake name) : c.udpResend.Awake name := by
  simp only [udpResend]
  split
  · rename_i hudp
    rw [Bool.not_eq_true'] at hudp
    by_cases hname : name = .udpResend
    · rw [hname]
      exact awake_of_udpClosed hudp (by decide) (by decide)
    · exact h hname
  · refine udpResendLoop_awake c.tick c.nowUs_nonneg _ (fun hname => (h hname).of id rfl) fun _ => ?_
    right
    intro index p hp _
    rw [Std.ExtTreeMap.mem_keys, Std.ExtTreeMap.mem_iff_isSome_getElem?]
    exact Option.isSome_of_eq_some hp

end Resending

section UdpRead

variable (packet : Packet)

/-- The timer of `udpResend` is disabled only where no packet is sent. -/
theorem udpReadConfirmation_awake (hcounting : (c.udpReadConfirmation packet).Counting)
    (hudp : c.udpConnected = true) (h : c.Awake name) : (c.udpReadConfirmation packet).Awake name := by
  by_cases hread : name = .tcpRead
  · rw [hread]
    exact awake_tcpRead
  obtain ⟨packets, count, hend, hkept⟩ := c.foldl_confirmPacket_toEndpoint (c.confirmedIndices packet)
  obtain ⟨hcountdown, hdeleted, hevents⟩ :=
    c.foldl_confirmPacket_frame (c.confirmedIndices packet)
  rw [udpReadConfirmation_eq] at hcounting ⊢
  generalize (c.confirmedIndices packet).foldl confirmPacket c = d
    at hend hcountdown hdeleted hevents hcounting ⊢
  simp only at hcounting ⊢
  have hd : d.Awake name := by
    refine h.of ?_ (hevents name hread)
    simp only [Needs, hend, hcountdown, hdeleted]
    cases name with
    | udpWrite =>
        rintro ⟨-, ⟨index, p, hp, hsent⟩ | hne⟩
        · exact ⟨hudp, .inl ⟨index, p, (hkept index p hp).1, hsent⟩⟩
        · exact ⟨hudp, .inr hne⟩
    | udpResend =>
        rintro ⟨-, index, p, hp, hsent⟩
        exact ⟨hudp, index, p, (hkept index p hp).1, hsent⟩
    | _ => exact id
  have hdudp : d.udpConnected = true := by rw [hend]; exact hudp
  have hcountingD : d.Counting := by
    split at hcounting <;> split at hcounting <;> exact hcounting
  -- The same connection with or without the timer of `udpResend`.
  have hresend : (if d.udpPacketsToSendCount ≥ d.udpSentPackets.size then d.disable .udpResend
      else d).Awake name := by
    split
    · rename_i hsize
      by_cases hname : name = .udpResend
      · subst hname
        rintro ⟨-, index, p, hp, hsent⟩
        rw [hcountingD hdudp] at hsize
        rw [sent_eq_false_of_size_le _ (by exact_mod_cast hsize) hp] at hsent
        cases hsent
      · exact hd.of id (isEnabled_disable_of_ne _ _ hname)
    · exact hd
  generalize (if d.udpPacketsToSendCount ≥ d.udpSentPackets.size then d.disable .udpResend
    else d) = e at hresend ⊢
  split
  · by_cases hname : name = .buildByeBye
    · subst hname
      exact fun _ => isEnabled_setTimeRelativeNow_self _ _ _ (le_refl 0)
    · refine hresend.of ?_ (isEnabled_setTimeRelativeNow_of_ne _ _ _ hname)
      cases name <;> first | exact id | contradiction
  · exact hresend

theorem storePacket_awake (h : c.Awake name) : (c.storePacket packet).Awake name := by
  obtain ⟨hcountdown, -, hdeleted, hevents⟩ := c.storePacket_frame packet
  obtain ⟨r, hr, -⟩ := tcpWriteFake_steps (N := fun _ => True)
    { c with toReceiver := c.toReceiver.accept packet }
  by_cases hname : name = .tcpWrite
  · subst hname
    simp only [storePacket]
    generalize ({ c with toReceiver := c.toReceiver.accept packet } : Connection).tcpWriteFake = b
    have hpending := b.awake_of_pending
    generalize (if b.tcpNextSendIndex < b.udpReceivedMasterIndex then
      b.setTimeRelativeNow .tcpWrite 0 else b) = d at hpending ⊢
    split
    · exact hpending.of id (isEnabled_setTimeRelativeNow_of_ne _ _ _ (by decide))
    · exact hpending
  · by_cases hwait : name = .udpCloseWait
    · rw [hwait]
      exact awake_udpCloseWait
    · exact h.receiver hname ((c.storePacket_toEndpoint packet).trans hr) hcountdown hdeleted
        (hevents name hname hwait)

theorem udpReadPacket_awake (htime : name = .buildConfirmations → 0 ≤ c.buildConfirmationsUs)
    (h : c.Awake name) : (c.udpReadPacket packet).Awake name := by
  have hrearm : ∀ d : Connection, d.buildConfirmationsUs = c.buildConfirmationsUs →
      d.Awake name → d.rearm.Awake name := by
    intro d hconfig hd
    by_cases hname : name = .buildConfirmations
    · subst hname
      intro _
      apply isEnabled_setTimeRelativeNow_self
      rw [hconfig]
      exact htime rfl
    · refine hd.of ?_ (isEnabled_setTimeRelativeNow_of_ne _ _ _ hname)
      cases name <;> first | exact id | contradiction
  rw [udpReadPacket_eq]
  apply hrearm
  · split
    · rfl
    · obtain ⟨r, hr, -⟩ := tcpWriteFake_steps (N := fun _ => True)
        { c with toReceiver := c.toReceiver.accept packet }
      rw [storePacket_toEndpoint, hr]
  · split
    · exact h
    · exact c.storePacket_awake packet h

theorem udpReadByeBye_awake (h : c.Awake name) : (c.udpReadByeBye packet).Awake name := by
  by_cases hread : name = .tcpRead
  · rw [hread]
    exact awake_tcpRead
  by_cases hwait : name = .udpCloseWait
  · rw [hwait]
    exact awake_udpCloseWait
  simp only [udpReadByeBye]
  generalize hb : ({ c with
    remainConfirmationResendCount := 0
    toReceiver := c.toReceiver.record (.byeBye packet.wire) } : Connection).disable
      .buildConfirmations = b
  obtain ⟨hcountdown, -, hdeleted, hevents⟩ := b.dropConfirmations_frame
  have hend := b.dropConfirmations_toEndpoint
  have hbAwake : b.Awake name := by
    rw [← hb]
    by_cases hname : name = .buildConfirmations
    · subst hname
      rintro ⟨-, hremain⟩
      exact absurd hremain (lt_irrefl (0 : Int))
    · refine h.of ?_ (isEnabled_disable_of_ne _ _ hname)
      cases name <;> first | exact id | contradiction
  have hdropped : b.dropConfirmations.Awake name := by
    refine hbAwake.of ?_ (hevents name hread)
    simp only [Needs, hend, hcountdown, hdeleted]
    cases name with
    | udpWrite =>
        rintro ⟨hudp, hunsent | hne⟩
        · exact ⟨hudp, .inl hunsent⟩
        · refine ⟨hudp, .inr ?_⟩
          intro hnil
          simp [hnil] at hne
    | _ => exact id
  split
  · exact hdropped.of id (isEnabled_setTimeRelativeNow_of_ne _ _ _ hwait)
  · exact hdropped

theorem udpRead_awake (hsound : c.toEndpoint.Sound)
    (htime : name = .buildConfirmations → 0 ≤ c.buildConfirmationsUs) (h : c.Awake name) :
    (c.udpRead packet).Awake name := by
  simp only [udpRead]
  split
  · exact h
  · rename_i hudp
    have hopen : c.udpConnected = true := by simpa using hudp
    apply closeIfUdpFinished_awake
    split
    · rename_i htype
      apply udpReadConfirmation_awake _ _ _ hopen h
      have hsteps := c.udpReadConfirmation_steps (N := fun _ => True) packet trivial hopen htype
      exact (hsound.steps hsteps).counting
    · split
      · exact c.udpReadPacket_awake packet htime h
      · split
        · exact c.udpReadByeBye_awake packet h
        · exact h

end UdpRead

section Runs

/-- The times that the event is set to are not negative. -/
def Timed (c : Connection) : EventName → Prop
  | .buildUdpPackets => 0 ≤ c.buildUdpPacketsUs
  | .buildConfirmations | .buildByeBye => 0 ≤ c.buildConfirmationsUs
  | .udpWrite | .udpResend => c.ledger.Paced
  | _ => True

/-- Every handler leaves its own event enabled where there is more to do, and no other
event disabled where it is needed. -/
theorem handle_awake (hsound : c.toEndpoint.Sound) (htimed : c.Timed name) {event : EventName}
    {plannedTimeUs : Int} (hplanned : 0 ≤ plannedTimeUs)
    (h : name ≠ event → c.Awake name) : (c.handle event plannedTimeUs).Awake name := by
  have hbuild : name = .buildUdpPackets → 0 ≤ c.buildUdpPacketsUs := by
    rintro rfl
    exact htimed
  cases event with
  | tcpRead =>
      apply c.tcpRead_awake hbuild
      by_cases hname : name = .tcpRead
      · rw [hname]
        exact awake_tcpRead
      · exact h hname
  | tcpWrite => exact c.tcpWrite_awake hbuild hsound.receiving h
  | tcpClose =>
      apply c.tcpClose_awake _ hbuild
      intro _
      by_cases hname : name = .tcpClose
      · rw [hname]
        exact awake_tcpClose
      · exact h hname
  | udpWrite =>
      apply c.udpWrite_awake hsound hplanned _ h
      rintro (rfl | rfl) <;> exact htimed
  | udpClose =>
      apply c.udpClose_awake
      intro _
      by_cases hname : name = .udpClose
      · rw [hname]
        exact awake_udpClose
      · exact h hname
  | buildUdpPackets => exact c.buildUdpPackets_awake true hbuild h
  | buildConfirmations =>
      apply c.buildConfirmations_awake _ h
      rintro rfl
      exact htimed
  | buildByeBye =>
      apply c.buildByeBye_awake _ h
      rintro rfl
      exact htimed
  | udpResend => exact c.udpResend_awake h
  | udpCloseWait =>
      apply c.closeIfUdpFinished_awake
      by_cases hname : name = .udpCloseWait
      · rw [hname]
        exact awake_udpCloseWait
      · exact h hname
  | close =>
      by_cases hname : name = .close
      · subst hname
        rintro ⟨-, -, hdeleted⟩
        cases hdeleted
      · refine (h hname).of ?_ rfl
        cases name <;> first | exact id | contradiction

variable {c}

theorem step_awake (hsound : c.toEndpoint.Sound) (htimed : c.Timed name) {m : Move}
    (hm : c.step m = some d) (h : c.Awake name) : d.Awake name := by
  cases m with
  | «raise» event timeUs io =>
      obtain ⟨-, henabled, -, rfl⟩ := of_step_raise hm
      simp only [isEnabled, Event.isEnabled, decide_eq_true_eq] at henabled
      have htimedD : (({ c with io := io } : Connection).disable event).Timed name := by
        cases name <;> exact htimed
      exact handle_awake (({ c with io := io } : Connection).disable event) hsound htimedD henabled
        fun hname => h.of id (isEnabled_disable_of_ne _ _ hname)
  | udpRead packet io =>
      obtain ⟨-, rfl⟩ := of_step_udpRead hm
      apply udpRead_awake { c with io := io } packet.wire hsound
      · rintro rfl
        exact htimed
      · exact h.of id rfl

/-- Connections whose first interval is not negative, before anything happened to them. -/
def Begun (config : Config) (c : Connection) : Prop :=
  Initial config c ∧ 0 ≤ c.udpSendIntervalUs

variable {config : Config}

theorem paced_initial (hresend : 0 ≤ config.udpResendUs) (h : Begun config c) : c.ledger.Paced := by
  obtain ⟨hinitial, hinterval⟩ := h
  obtain ⟨intervalUs, summaryUs, nowUs, heq⟩ := ledger_initial hinitial
  constructor
  · rw [heq]
    exact hresend
  · rw [heq]
  · exact hinterval

theorem paced {ok : Connection → Move → Prop} (hresend : 0 ≤ config.udpResendUs)
    (h : Runs.Reachable (Begun config) step ok c) : c.ledger.Paced :=
  h.invariant_of_refines (fun _ => paced_initial hresend)
    (fun _ _ _ _ _ => step_entries (reportsMeet_anyReport _ _)) fun _ _ => Ledger.Paced.step

theorem awake_initial (h : Initial config c) : c.Awake name := by
  obtain ⟨intervalUs, summaryUs, io, rfl⟩ := h
  have hend := new_toEndpoint config intervalUs summaryUs io
  have hcountdown : (new config intervalUs summaryUs io).toCountdown = ⟨0, 0⟩ := by
    simp [new]
  cases name with
  | udpWrite => exact fun _ => isEnabled_udpWrite_new config intervalUs summaryUs io
  | udpResend =>
      rintro ⟨-, index, p, hp, hsent⟩
      rw [hend] at hp
      simp only [Endpoint.initial, Endpoint.blank, Sender.push, Std.ExtTreeMap.getElem?_insert,
        Std.ExtTreeMap.getElem?_empty] at hp
      split at hp
      · rw [← Option.some.inj hp] at hsent
        simp [Std.ExtTreeMap.getD_eq_getD_getElem?] at hsent
      · cases hp
  | _ =>
      simp [Awake, Needs, hend, hcountdown, Endpoint.initial, Endpoint.blank]

/-- No wake-up is lost, where no time to wait for is negative. -/
theorem awake_of_begun {ok : Connection → Move → Prop} (hresend : 0 ≤ config.udpResendUs)
    (hconfirm : 0 ≤ config.buildConfirmationsUs)
    (hbuild : name = .buildUdpPackets → 0 ≤ config.buildUdpPacketsUs)
    (h : Runs.Reachable (Begun config) step ok c) : c.Awake name := by
  induction h with
  | start hinit => exact awake_initial hinit.1
  | next hreach _ hm ih =>
      have hreached := hreach.weaken fun _ hinit => hinit.1
      have hpaced := paced hresend hreach
      refine step_awake (sound hreached) ?_ hm ih
      rw [← toConfig_eq hreached] at hconfirm hbuild
      cases name with
      | buildUdpPackets => exact hbuild rfl
      | buildConfirmations => exact hconfirm
      | buildByeBye => exact hconfirm
      | udpWrite => exact hpaced
      | udpResend => exact hpaced
      | _ => trivial

theorem awake_of_timed {ok : Connection → Move → Prop}
    (hname : name = .tcpWrite ∨ name = .close)
    (h : Runs.Reachable (Initial config) step ok c) : c.Awake name := by
  induction h with
  | start hinit => exact awake_initial hinit
  | next hreach _ hm ih =>
      refine step_awake (sound hreach) ?_ hm ih
      rcases hname with rfl | rfl <;> trivial

/-- Confirmations that are due before they can be. -/
def overdueConfig : Config :=
  { Config.small with buildConfirmationsUs := -1 }

/-- A packet arrives that is to be confirmed. -/
def overdueRun : List Move :=
  [.udpRead (.datagram .hello 0 []) (Io.steady 0)]

theorem overdueRun_isSome : (play overdueConfig overdueRun).isSome = true := by
  decide +kernel

end Runs

end Connection

end IceTunnel
