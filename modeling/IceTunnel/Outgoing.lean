import IceTunnel.Pacing

namespace IceTunnel

/-- The fields of a `Connection` that say when it sends what. -/
structure Outgoing extends Config where
  udpConnected : Bool
  udpNextSendIndex : Int
  udpSentPackets : Std.ExtTreeMap Int Packet
  udpLastSentUs : Int
  udpSendIntervalUs : Int
  eventUdpWrite : Event
  readings : Stream' Nat

namespace Outgoing

/-- A change outside `udpWrite`.  `Arming` holds if the handler calls `setEventUdpWrite`,
the interval changes as `Rated` allows, and `Read` holds of the time `udpResend` has read. -/
inductive Step (Arming : Prop) (Rated : Int → Int → Prop) (Read : Int → Prop) :
    Outgoing → Outgoing → Prop
  | tick (x : Outgoing) : Step Arming Rated Read x { x with readings := x.readings.tail }
  | push (x : Outgoing) (type : PacketType) (payload : List UInt8) :
      x.udpConnected = true →
      Step Arming Rated Read x { x with
        udpSentPackets := x.udpSentPackets.insert x.udpNextSendIndex
          { (x.udpSentPackets.getD x.udpNextSendIndex {}).encode type x.udpNextSendIndex payload with
            remainResendCount := x.udpResendCount }
        udpNextSendIndex := x.udpNextSendIndex + 1 }
  /-- `setEventUdpWrite` where the event is enabled. -/
  | advance (x : Outgoing) :
      Arming → x.eventUdpWrite.isEnabled = true →
      Step Arming Rated Read x { x with
        eventUdpWrite := x.eventUdpWrite.setTime (x.udpLastSentUs + x.udpSendIntervalUs) false }
  /-- `setEventUdpWrite` where it is not. -/
  | arm (x : Outgoing) (lastUs : Int) :
      Arming → x.eventUdpWrite.isEnabled = false →
      lastUs = max x.udpLastSentUs (x.readings.head - x.udpSendIntervalUs) →
      Step Arming Rated Read x { x with
        readings := x.readings.tail
        udpLastSentUs := lastUs
        eventUdpWrite := x.eventUdpWrite.setTime (lastUs + x.udpSendIntervalUs) false }
  /-- `onUdpDelivered`. -/
  | rate (x : Outgoing) (intervalUs : Int) :
      Rated x.udpSendIntervalUs intervalUs →
      Step Arming Rated Read x { x with udpSendIntervalUs := intervalUs }
  /-- `udpResend` marks a packet unsent. -/
  | resend (x : Outgoing) (index : Int) (packet : Packet) (timeUs : Int) :
      x.udpSentPackets[index]? = some packet → packet.sent = true → Read timeUs →
      packet.sentTimeUs + x.udpResendUs ≤ timeUs → packet.remainResendCount > 0 →
      Step Arming Rated Read x { x with
        udpSentPackets := x.udpSentPackets.insert index
          { packet with sent := false, remainResendCount := packet.remainResendCount - 1 } }
  | forget (x : Outgoing) (index : Int) :
      Step Arming Rated Read x { x with udpSentPackets := x.udpSentPackets.erase index }
  /-- `udpClose`. -/
  | close (x : Outgoing) :
      Step Arming Rated Read x { x with
        udpConnected := false
        udpSentPackets := ∅
        eventUdpWrite := x.eventUdpWrite.disable }

/-- A sequence of changes. -/
abbrev Steps (Arming : Prop) (Rated : Int → Int → Prop) (Read : Int → Prop) :
    Outgoing → Outgoing → Prop :=
  Relation.ReflTransGen (Step Arming Rated Read)

end Outgoing

namespace Connection

open Outgoing

variable (c : Connection)

def outgoing : Outgoing :=
  { toConfig := c.toConfig
    udpConnected := c.udpConnected
    udpNextSendIndex := c.udpNextSendIndex
    udpSentPackets := c.udpSentPackets
    udpLastSentUs := c.udpLastSentUs
    udpSendIntervalUs := c.udpSendIntervalUs
    eventUdpWrite := c.events .udpWrite
    readings := c.io.nowUs }

section Parts

variable {name : EventName} (timeUs : Int)

theorem setTime_outgoing (h : name ≠ .udpWrite) : (c.setTime name timeUs).outgoing = c.outgoing := by
  simp only [outgoing, setTime, Function.update_of_ne h.symm]

theorem setTime_udpWrite_outgoing : (c.setTime .udpWrite timeUs).outgoing =
    { c.outgoing with eventUdpWrite := c.outgoing.eventUdpWrite.setTime timeUs false } := by
  simp only [outgoing, setTime, Function.update_self]

theorem disable_outgoing (h : name ≠ .udpWrite) : (c.disable name).outgoing = c.outgoing := by
  simp only [outgoing, disable, Function.update_of_ne h.symm]

theorem disable_udpWrite_outgoing : (c.disable .udpWrite).outgoing =
    { c.outgoing with eventUdpWrite := c.outgoing.eventUdpWrite.disable } := by
  simp only [outgoing, disable, Function.update_self]

theorem tick_outgoing : c.tick.outgoing = { c.outgoing with readings := c.outgoing.readings.tail } := rfl

theorem tickEnd_outgoing : c.tickEnd.outgoing = c.outgoing := by
  simp only [tickEnd]
  split <;> rfl

variable {Arming : Prop} {Rated : Int → Int → Prop} {Read : Int → Prop}

theorem setTimeRelativeNow_outgoing (h : name ≠ .udpWrite) :
    Steps Arming Rated Read c.outgoing (c.setTimeRelativeNow name timeUs).outgoing := by
  rw [setTimeRelativeNow, tick_outgoing, setTime_outgoing _ _ h]
  exact .single (.tick _)

theorem onUdpSentBufferChanged_outgoing_eq (sizeIncrement : Int) :
    (c.onUdpSentBufferChanged sizeIncrement).outgoing = c.outgoing ∨
      (c.onUdpSentBufferChanged sizeIncrement).outgoing = c.tick.outgoing := by
  have hname : EventName.tcpRead ≠ .udpWrite := nofun
  let d : Connection := { c with udpSentBufferSize := c.udpSentBufferSize + Int32.ofInt sizeIncrement }
  have hd : d.tickEnd.outgoing = c.outgoing := d.tickEnd_outgoing
  simp only [onUdpSentBufferChanged]
  split
  · rw [setTimeRelativeNow, tick_outgoing, setTime_outgoing _ _ hname, hd]
    exact .inr rfl
  · rw [disable_outgoing _ hname, hd]
    exact .inl rfl

theorem onUdpSentBufferChanged_outgoing (sizeIncrement : Int) :
    Steps Arming Rated Read c.outgoing (c.onUdpSentBufferChanged sizeIncrement).outgoing := by
  rcases c.onUdpSentBufferChanged_outgoing_eq sizeIncrement with heq | heq
  · rw [heq]
  · rw [heq]
    exact .single (.tick c.outgoing)

theorem onUdpSent_outgoing (intervalUs size : Int) :
    Steps Arming Rated Read c.outgoing (c.onUdpSent c.udpSendMeasureIndex intervalUs size).outgoing := by
  simp only [onUdpSent]
  split
  · exact .refl
  · rename_i pacing hpacing
    obtain ⟨m, -, rfl | rfl⟩ := Pacing.onUdpSent_eq_some hpacing
    · exact .single (.tick c.outgoing)
    · exact .single (.tick c.outgoing)

theorem setEventUdpWrite_outgoing (h : Arming) :
    Steps Arming Rated Read c.outgoing c.setEventUdpWrite.outgoing := by
  simp only [setEventUdpWrite, setTime_udpWrite_outgoing]
  cases henabled : c.isEnabled .udpWrite with
  | true => exact .single (.advance c.outgoing h henabled)
  | false => exact .single (.arm c.outgoing _ h henabled rfl)

end Parts

section Reckoning

/-- `buildUdpPackets` has the bytes of a packet. -/
def BuildsPacket (flush : Bool) (data : List UInt8) : Prop :=
  c.udpConnected = true ∧ c.udpReceivedFinalIndex ≠ c.udpReceivedMasterIndex ∧
    data ≠ [] ∧ 0 < c.udpSendPacketSize ∧ (flush = true ∨ c.udpSendPacketSize ≤ data.length)

/-- The handler calls `setEventUdpWrite`, which reckons with `udpLastSentUs`. -/
def Reckons : EventName → Prop
  | .tcpRead =>
      let bytes := c.io.tcpBytes.take c.udpSendPacketSize.toNat
      c.tcpConnected = true ∧ bytes ≠ [] ∧ c.BuildsPacket false (c.tcpReceivedData ++ bytes)
  | .tcpWrite => c.tcpConnected = true ∧ c.udpConnected = true ∧
      (tcpWriteLoop false c.tcpWriteFuel c).2 = true
  | .tcpClose => c.tcpConnected = true ∧ c.udpConnected = true
  | .buildUdpPackets => c.BuildsPacket true c.tcpReceivedData
  | .buildConfirmations => c.udpConnected = true
  | .buildByeBye => c.udpConnected = true
  | .udpResend => c.udpConnected = true ∧ ∃ entry ∈ c.udpSentPackets.toList, entry.2.sent = true ∧
      entry.2.sentTimeUs + c.udpResendUs ≤ c.nowUs ∧ entry.2.remainResendCount > 0
  | _ => False

instance (flush : Bool) (data : List UInt8) : Decidable (c.BuildsPacket flush data) :=
  inferInstanceAs (Decidable (_ ∧ _))

instance (event : EventName) : Decidable (c.Reckons event) :=
  match event with
  | .tcpRead => inferInstanceAs (Decidable (_ ∧ _))
  | .tcpWrite => inferInstanceAs (Decidable (_ ∧ _))
  | .tcpClose => inferInstanceAs (Decidable (_ ∧ _))
  | .udpWrite => .isFalse id
  | .udpClose => .isFalse id
  | .buildUdpPackets => inferInstanceAs (Decidable (c.BuildsPacket true c.tcpReceivedData))
  | .buildConfirmations => inferInstanceAs (Decidable (_ = _))
  | .buildByeBye => inferInstanceAs (Decidable (_ = _))
  | .udpResend => inferInstanceAs (Decidable (_ ∧ _))
  | .udpCloseWait => .isFalse id
  | .close => .isFalse id

end Reckoning

section Handlers

variable {Arming : Prop} {Rated : Int → Int → Prop} {Read : Int → Prop}

theorem push_outgoing (type : PacketType) (payload : List UInt8) (hudp : c.udpConnected = true) :
    Steps Arming Rated Read c.outgoing (c.push type payload).outgoing :=
  .single (.push c.outgoing type payload hudp)

theorem buildUdpPacketsLoop_outgoing (flush : Bool) (fuel : Nat) (rest : List UInt8)
    (hudp : c.udpConnected = true)
    (harm : rest ≠ [] → 0 < c.udpSendPacketSize →
      (flush = true ∨ c.udpSendPacketSize ≤ rest.length) → Arming) :
    Steps Arming Rated Read c.outgoing (buildUdpPacketsLoop flush fuel rest c).1.outgoing := by
  induction fuel generalizing rest c with
  | zero => exact .refl
  | succ fuel ih =>
      simp only [buildUdpPacketsLoop]
      split
      · exact .refl
      · rename_i hrest
        split
        · exact .refl
        · rename_i hsize
          have hdata : rest ≠ [] := fun hnil => hrest (by rw [hnil]; rfl)
          have hlength : 0 < (rest.length : Int) := by
            have := List.length_pos_iff.mpr hdata
            omega
          have harming : Arming := by
            simp only [Bool.or_eq_true, Bool.and_eq_true, Bool.not_eq_true', decide_eq_true_eq,
              not_or, not_and] at hsize
            refine harm hdata (by omega) ?_
            cases flush with
            | true => exact .inl rfl
            | false =>
                have hshort := hsize.1 rfl
                exact .inr (by omega)
          generalize (min (rest.length : Int) c.udpSendPacketSize).toNat = n
          let d := (c.push .data (rest.take n)).setEventUdpWrite
          have hd : Steps Arming Rated Read c.outgoing d.outgoing :=
            (c.push_outgoing .data (rest.take n) hudp).trans (setEventUdpWrite_outgoing _ harming)
          refine (hd.trans (d.onUdpSentBufferChanged_outgoing (rest.take n).length)).trans ?_
          apply ih
          · simpa [d] using hudp
          · exact fun _ _ _ => harming

theorem buildReceivedData_outgoing (flush : Bool) (hudp : c.udpConnected = true)
    (harm : c.tcpReceivedData ≠ [] → 0 < c.udpSendPacketSize →
      (flush = true ∨ c.udpSendPacketSize ≤ c.tcpReceivedData.length) → Arming) :
    Steps Arming Rated Read c.outgoing (c.buildReceivedData flush).outgoing := by
  have hname : EventName.buildUdpPackets ≠ .udpWrite := nofun
  have hloop : Steps Arming Rated Read c.outgoing
      (buildUdpPacketsLoop flush c.tcpReceivedData.length c.tcpReceivedData c).1.outgoing :=
    c.buildUdpPacketsLoop_outgoing flush _ _ hudp harm
  simp only [buildReceivedData]
  generalize buildUdpPacketsLoop flush c.tcpReceivedData.length c.tcpReceivedData c = built at hloop ⊢
  let d : Connection := { built.1 with tcpReceivedData := built.2 }
  have hd : Steps Arming Rated Read c.outgoing d.outgoing := hloop
  have hdisabled : (d.disable .buildUdpPackets).outgoing = d.outgoing := d.disable_outgoing hname
  have hrearmed : ∀ e : Connection, e.outgoing = d.outgoing →
      Steps Arming Rated Read c.outgoing
        (if built.2 = [] then e else e.setTimeRelativeNow .buildUdpPackets e.buildUdpPacketsUs).outgoing := by
    intro e he
    split
    · rw [he]
      exact hd
    · refine hd.trans ?_
      rw [← he]
      exact e.setTimeRelativeNow_outgoing _ hname
  apply hrearmed
  split
  · exact hdisabled
  · rfl

theorem buildUdpPackets_outgoing (flush : Bool) (harm : c.BuildsPacket flush c.tcpReceivedData → Arming) :
    Steps Arming Rated Read c.outgoing (c.buildUdpPackets flush).outgoing := by
  simp only [buildUdpPackets]
  split
  · exact .refl
  · rename_i hudp
    simp only [Bool.not_eq_true', Bool.not_eq_false] at hudp
    split
    · exact buildReceivedData_outgoing { c with tcpReceivedData := [] } flush hudp
        fun hdata => absurd rfl hdata
    · rename_i hfinal
      exact c.buildReceivedData_outgoing flush hudp
        fun hdata hsize hfull => harm ⟨hudp, hfinal, hdata, hsize, hfull⟩

theorem tcpRead_outgoing (harm : c.Reckons .tcpRead → Arming) :
    Steps Arming Rated Read c.outgoing c.tcpRead.outgoing := by
  simp only [tcpRead]
  split
  · exact .refl
  · rename_i htcp
    simp only [Bool.not_eq_true', Bool.not_eq_false] at htcp
    refine Relation.ReflTransGen.trans ?_ (onUdpSentBufferChanged_outgoing _ 0)
    split
    · exact .refl
    · rename_i hbytes
      split
      · exact buildUdpPackets_outgoing { c with toSender :=
          { c.toSender.record (.read (c.io.tcpBytes.take c.udpSendPacketSize.toNat)) with
            tcpReceivedData :=
              c.tcpReceivedData ++ c.io.tcpBytes.take c.udpSendPacketSize.toNat } } false
          fun hbuilds => harm ⟨htcp, hbytes, hbuilds⟩
      · exact .refl

theorem tcpWriteData_outgoing (packet : Packet) :
    Steps Arming Rated Read c.outgoing (c.tcpWriteData packet).outgoing := by
  have hname : EventName.tcpWrite ≠ .udpWrite := nofun
  simp only [tcpWriteData]
  generalize min c.io.tcpAccepted packet.getData.length = size
  let d : Connection := { c with toReceiver := c.toReceiver.write packet size }
  by_cases hsize : size > 0
  · simp only [if_pos hsize]
    split
    · exact d.setTimeRelativeNow_outgoing 0 hname
    · exact .refl
  · simp only [if_neg hsize]
    split
    · exact c.setTimeRelativeNow_outgoing 0 hname
    · exact .refl

theorem tcpWriteLoop_outgoing (fake : Bool) (fuel : Nat) :
    Steps Arming Rated Read c.outgoing (tcpWriteLoop fake fuel c).1.outgoing := by
  induction fuel generalizing c with
  | zero => exact .refl
  | succ fuel ih =>
      simp only [tcpWriteLoop]
      split
      · split
        · exact .refl
        · rename_i packet hpacket
          split
          · split
            · exact .refl
            · exact ih { c with toReceiver := c.toReceiver.skip packet fake }
          · exact c.tcpWriteData_outgoing packet
      · exact .refl

theorem tcpWriteFake_outgoing : Steps Arming Rated Read c.outgoing c.tcpWriteFake.outgoing := by
  simp only [tcpWriteFake]
  split
  · exact .refl
  · exact c.tcpWriteLoop_outgoing true _

theorem tcpClose_outgoing (error : Bool) (harm : c.tcpConnected = true → c.udpConnected = true → Arming) :
    Steps Arming Rated Read c.outgoing (c.tcpClose error).outgoing := by
  have hread : EventName.tcpRead ≠ .udpWrite := nofun
  have hwrite : EventName.tcpWrite ≠ .udpWrite := nofun
  have hclose : EventName.close ≠ .udpWrite := nofun
  let c₀ := ({ c with tcpConnected := false }.disable .tcpRead).disable .tcpWrite
  have hc₀ : c₀.outgoing = c.outgoing := by
    rw [disable_outgoing _ hwrite, disable_outgoing _ hread]
    rfl
  simp only [tcpClose]
  split
  · exact .refl
  · rename_i htcp
    simp only [Bool.not_eq_true', Bool.not_eq_false] at htcp
    rw [← hc₀]
    split
    · exact c₀.setTimeRelativeNow_outgoing 0 hclose
    · rename_i hudp
      simp only [disable_toEndpoint, Bool.not_eq_true', Bool.not_eq_false] at hudp
      have harming : Arming := harm htcp hudp
      obtain ⟨s, hs⟩ := c₀.tcpWriteFake.buildUdpPackets_toEndpoint true
      obtain ⟨r, hr, -⟩ := c₀.tcpWriteFake_steps (N := fun _ => True)
      have hopen : (c₀.tcpWriteFake.buildUdpPackets true).udpConnected = true := by
        rw [hs, hr]
        exact hudp
      let d := (c₀.tcpWriteFake.buildUdpPackets true).push (if error then .disconnect else .bye) []
      have hd : Steps Arming Rated Read c₀.outgoing d.outgoing :=
        (c₀.tcpWriteFake_outgoing.trans (buildUdpPackets_outgoing _ true fun _ => harming)).trans
          (push_outgoing _ _ [] hopen)
      exact (hd.trans (d.onUdpSentBufferChanged_outgoing 0)).trans (setEventUdpWrite_outgoing _ harming)

theorem tcpWrite_outgoing (harm : c.Reckons .tcpWrite → Arming) :
    Steps Arming Rated Read c.outgoing c.tcpWrite.outgoing := by
  have hloop : Steps Arming Rated Read c.outgoing (tcpWriteLoop false c.tcpWriteFuel c).1.outgoing :=
    c.tcpWriteLoop_outgoing false _
  simp only [tcpWrite]
  split
  · exact .refl
  · rename_i htcp
    simp only [Bool.not_eq_true', Bool.not_eq_false] at htcp
    split
    · rename_i hclosing
      refine hloop.trans (tcpClose_outgoing _ false fun _ hudp => harm ⟨htcp, ?_, hclosing⟩)
      obtain ⟨r, hr, -⟩ := c.tcpWriteLoop_toEndpoint false c.tcpWriteFuel
      rwa [hr] at hudp
    · exact hloop

theorem udpClose_outgoing : Steps Arming Rated Read c.outgoing c.udpClose.outgoing := by
  cases hudp : c.udpConnected with
  | false =>
      simp only [udpClose, hudp]
      exact .refl
  | true =>
      have hclose : EventName.close ≠ .udpWrite := by decide
      have hdropped : Steps Arming Rated Read c.outgoing c.dropUdp.outgoing := by
        let d := (((({ c with udpConnected := false } : Connection).disable .buildUdpPackets).disable
          .buildConfirmations).disable .udpResend).disable .tcpRead
        have hd : d.outgoing = { c.outgoing with udpConnected := false } := by
          simp [d, outgoing, disable, Function.update]
        let e : Connection := { d.disable .udpWrite with
          tcpReceivedData := [], udpConfirmationPackets := [], udpSentPackets := ∅ }
        have he : e.outgoing = { c.outgoing with
            udpConnected := false
            udpSentPackets := ∅
            eventUdpWrite := c.outgoing.eventUdpWrite.disable } := by
          have hdisabled : e.outgoing = { (d.disable .udpWrite).outgoing with udpSentPackets := ∅ } := rfl
          rw [hdisabled, disable_udpWrite_outgoing, hd]
        refine Relation.ReflTransGen.trans ?_ (onUdpSentBufferChanged_outgoing e (-c.udpSentBufferSize).toInt)
        rw [he]
        exact .single (.close c.outgoing)
      rw [udpClose_eq c hudp]
      split
      · exact hdropped.trans (setTimeRelativeNow_outgoing _ 0 hclose)
      · split
        · refine hdropped.trans (tcpClose_outgoing _ false fun _ hopen => ?_)
          rw [dropUdp_toEndpoint] at hopen
          cases hopen
        · exact hdropped

theorem closeIfUdpFinished_outgoing :
    Steps Arming Rated Read c.outgoing c.closeIfUdpFinished.outgoing := by
  rcases c.closeIfUdpFinished_eq with ⟨-, heq⟩ | ⟨-, finished, heq⟩
  · rw [heq]
  · rw [heq]
    exact udpClose_outgoing { c with finished := finished }

theorem foldl_onUdpSentBufferChanged_outgoing (packets : List Packet) :
    Steps Arming Rated Read c.outgoing
      (packets.foldl (fun c packet => c.onUdpSentBufferChanged (-packet.getSize)) c).outgoing := by
  induction packets generalizing c with
  | nil => exact .refl
  | cons packet packets ih => exact (c.onUdpSentBufferChanged_outgoing _).trans (ih _)

theorem dropConfirmations_outgoing :
    Steps Arming Rated Read c.outgoing c.dropConfirmations.outgoing :=
  foldl_onUdpSentBufferChanged_outgoing { c with
    udpConfirmationPackets := c.udpConfirmationPackets.filter (·.getType ≠ .confirmation) } _

theorem foldl_pushConfirmation_outgoing (payloads : List (List UInt8)) :
    Steps Arming Rated Read c.outgoing (payloads.foldl pushConfirmation c).outgoing := by
  induction payloads generalizing c with
  | nil => exact .refl
  | cons payload payloads ih =>
      refine Relation.ReflTransGen.trans ?_ (ih (c.pushConfirmation payload))
      exact onUdpSentBufferChanged_outgoing { c with
        udpConfirmationPackets := c.udpConfirmationPackets ++ [c.confirmation payload]
        toReceiver := c.toReceiver.record (.confirm (c.confirmation payload).wire) } _

theorem buildConfirmations_outgoing (harm : c.udpConnected = true → Arming) :
    Steps Arming Rated Read c.outgoing c.buildConfirmations.outgoing := by
  cases hudp : c.udpConnected with
  | false =>
      simp only [buildConfirmations, hudp]
      exact .refl
  | true =>
      have hname : EventName.buildConfirmations ≠ .udpWrite := by decide
      let d := c.dropConfirmations.confirmationPayloads.foldl pushConfirmation c.dropConfirmations
      have hqueue : Steps Arming Rated Read c.outgoing d.outgoing :=
        c.dropConfirmations_outgoing.trans (c.dropConfirmations.foldl_pushConfirmation_outgoing _)
      let settled : Connection := { d with udpConfirmedMasterIndex := d.udpReceivedMasterIndex }
      have hset : Steps Arming Rated Read settled.outgoing settled.setEventUdpWrite.outgoing :=
        settled.setEventUdpWrite_outgoing (harm hudp)
      have hpruned : c.confirmAll.outgoing = settled.setEventUdpWrite.outgoing := by
        rw [confirmAll]
        rfl
      have hall : Steps Arming Rated Read c.outgoing c.confirmAll.outgoing := by
        rw [hpruned]
        exact hqueue.trans hset
      rw [buildConfirmations_eq c hudp]
      simp only
      split
      · exact hall.trans (setTimeRelativeNow_outgoing _ _ hname)
      · exact hall

theorem buildByeBye_outgoing (harm : c.udpConnected = true → Arming) :
    Steps Arming Rated Read c.outgoing c.buildByeBye.outgoing := by
  cases hudp : c.udpConnected with
  | false =>
      simp only [buildByeBye, hudp]
      exact .refl
  | true =>
      have hname : EventName.buildByeBye ≠ .udpWrite := by decide
      let d : Connection := { c with
        udpConfirmationPackets := c.udpConfirmationPackets ++ [c.byeByePacket]
        toSender := c.toSender.record (.byeBye c.byeByePacket.wire c.udpSentPackets.keys) }
      have hall : Steps Arming Rated Read c.outgoing c.queueByeBye.outgoing :=
        (d.onUdpSentBufferChanged_outgoing c.byeByePacket.getSize).trans
          (setEventUdpWrite_outgoing _ (harm hudp))
      rw [buildByeBye_eq c hudp]
      simp only
      split
      · exact hall.trans (setTimeRelativeNow_outgoing _ _ hname)
      · exact hall

/-- What is reported to `onUdpDelivered` changes the interval as `Rated` allows. -/
def RatedReport (Rated : Int → Int → Prop) (l : Ledger) (success : Bool) (packet : Packet) : Prop :=
  Rated l.udpSendIntervalUs
    (l.toPacing.onUdpDelivered l.toConfig success packet.measureIndex packet.getSize).udpSendIntervalUs

instance (Rated : Int → Int → Prop) [∀ old new, Decidable (Rated old new)] (l : Ledger) (success : Bool)
    (packet : Packet) : Decidable (RatedReport Rated l success packet) :=
  inferInstanceAs (Decidable (Rated _ _))

theorem onUdpDelivered_outgoing {success : Bool} {packet : Packet}
    (hrated : RatedReport Rated c.ledger success packet) :
    Steps Arming Rated Read c.outgoing
      (c.onUdpDelivered success packet.measureIndex packet.getSize).outgoing := by
  have hkept : (c.toPacing.onUdpDelivered c.toConfig success packet.measureIndex
      packet.getSize).udpLastSentUs = c.udpLastSentUs := Pacing.onUdpDelivered_udpLastSentUs _ _ _ _ _
  have heq : (c.onUdpDelivered success packet.measureIndex packet.getSize).outgoing =
      { c.outgoing with udpSendIntervalUs := (c.toPacing.onUdpDelivered c.toConfig success
        packet.measureIndex packet.getSize).udpSendIntervalUs } := by
    simp only [outgoing, onUdpDelivered, hkept]
  rw [heq]
  exact .single (.rate c.outgoing _ hrated)

theorem udpResendLoop_outgoing (timeUs : Int) (indices : List Int)
    (hmeets : ResendsMeet (RatedReport Rated) timeUs indices c) (hread : Read timeUs)
    (harm : ∀ (index : Int) (packet : Packet), c.udpSentPackets[index]? = some packet →
      packet.sent = true → packet.sentTimeUs + c.udpResendUs ≤ timeUs →
        packet.remainResendCount > 0 → Arming) :
    Steps Arming Rated Read c.outgoing (udpResendLoop timeUs indices c).outgoing := by
  have hname : EventName.udpResend ≠ .udpWrite := nofun
  induction indices generalizing c with
  | nil => exact .refl
  | cons index indices ih =>
      obtain ⟨hfirst, hrest⟩ := hmeets
      rcases c.udpResendLoop_cons timeUs index with
        ⟨-, heq⟩ | ⟨packet, hpacket, hsent, ⟨htime, hremain, heq⟩ | ⟨-, -, heq⟩ | ⟨-, heq⟩⟩
      · rw [heq] at hrest ⊢
        exact ih c hrest harm
      · have harming : Arming := harm index packet hpacket hsent htime hremain
        rw [heq] at hrest ⊢
        let lost : Packet := { packet with sent := false, remainResendCount := packet.remainResendCount - 1 }
        let d : Connection := { c with
          udpPacketsToSendCount := c.udpPacketsToSendCount + 1
          udpSentPackets := c.udpSentPackets.insert index lost }
        have hreport : RatedReport Rated d.ledger false lost := hfirst packet hpacket hsent htime hremain
        have hresend : Steps Arming Rated Read c.outgoing d.outgoing :=
          .single (.resend c.outgoing index packet timeUs hpacket hsent hread htime hremain)
        have hlost : Steps Arming Rated Read c.outgoing (c.markLost index packet).outgoing :=
          hresend.trans (d.onUdpDelivered_outgoing hreport)
        refine (hlost.trans (setEventUdpWrite_outgoing _ harming)).trans (ih _ hrest ?_)
        exact fun _ _ _ _ _ _ => harming
      · rw [heq]
        exact c.udpClose_outgoing
      · rw [heq] at hrest ⊢
        let d := c.setTime .udpResend (packet.sentTimeUs + c.udpResendUs)
        have hd : d.outgoing = c.outgoing := c.setTime_outgoing _ hname
        rw [← hd]
        exact ih d hrest harm

theorem udpResend_outgoing (harm : c.Reckons .udpResend → Arming) (hread : Read c.nowUs)
    (hmeets : c.udpConnected = true →
      ResendsMeet (RatedReport Rated) c.nowUs c.udpSentPackets.keys c.tick) :
    Steps Arming Rated Read c.outgoing c.udpResend.outgoing := by
  simp only [udpResend]
  split
  · exact .refl
  · rename_i hudp
    simp only [Bool.not_eq_true', Bool.not_eq_false] at hudp
    refine .head (.tick c.outgoing) ?_
    apply c.tick.udpResendLoop_outgoing _ _ (hmeets hudp) hread
    intro index packet hpacket hsent htime hremain
    refine harm ⟨hudp, (index, packet), ?_, hsent, htime, hremain⟩
    exact Std.ExtTreeMap.mem_toList_iff_getElem?_eq_some.mpr hpacket

theorem confirmPacket_outgoing (index : Int)
    (hmeets : ∀ packet ∈ c.udpSentPackets[index]?, packet.confirmed = false →
      RatedReport Rated c.ledger true packet) :
    Steps Arming Rated Read c.outgoing (c.confirmPacket index).outgoing := by
  cases hpacket : c.udpSentPackets[index]? with
  | none =>
      simp only [confirmPacket, hpacket]
      exact .refl
  | some packet =>
      let d := if !packet.confirmed then
          c.onUdpDelivered true packet.measureIndex packet.getSize
        else c
      have hd : Steps Arming Rated Read c.outgoing d.outgoing := by
        cases hconfirmed : packet.confirmed with
        | true =>
            simp only [d, hconfirmed]
            exact .refl
        | false =>
            simp only [d, hconfirmed]
            exact c.onUdpDelivered_outgoing (hmeets packet hpacket hconfirmed)
      let e := if !packet.sent then { d with udpPacketsToSendCount := d.udpPacketsToSendCount - 1 } else d
      have he : e.outgoing = d.outgoing := by
        simp only [e]
        split <;> rfl
      have hchanged : Steps Arming Rated Read c.outgoing
          (e.onUdpSentBufferChanged (-packet.getSize)).outgoing := by
        refine hd.trans ?_
        rw [← he]
        exact e.onUdpSentBufferChanged_outgoing _
      simp only [confirmPacket, hpacket]
      exact hchanged.tail (.forget _ index)

theorem foldl_confirmPacket_outgoing (indices : List Int)
    (hmeets : ConfirmsMeet (RatedReport Rated) indices c) :
    Steps Arming Rated Read c.outgoing (indices.foldl confirmPacket c).outgoing := by
  induction indices generalizing c with
  | nil => exact .refl
  | cons index indices ih => exact (c.confirmPacket_outgoing index hmeets.1).trans (ih _ hmeets.2)

theorem udpReadConfirmation_outgoing (packet : Packet)
    (hmeets : ConfirmsMeet (RatedReport Rated) (c.confirmedIndices packet) c) :
    Steps Arming Rated Read c.outgoing (c.udpReadConfirmation packet).outgoing := by
  have hresend : EventName.udpResend ≠ .udpWrite := nofun
  have hbyeBye : EventName.buildByeBye ≠ .udpWrite := nofun
  have hfold : Steps Arming Rated Read c.outgoing
      ((c.confirmedIndices packet).foldl confirmPacket c).outgoing :=
    c.foldl_confirmPacket_outgoing _ hmeets
  rw [udpReadConfirmation_eq]
  generalize (c.confirmedIndices packet).foldl confirmPacket c = d at hfold
  have hdisabled : (d.disable .udpResend).outgoing = d.outgoing := d.disable_outgoing hresend
  have hbyeByes : ∀ e : Connection, e.outgoing = d.outgoing →
      Steps Arming Rated Read c.outgoing (if e.isNoMoreDataWillBeSent && !c.isNoMoreDataWillBeSent then
        { e with remainByeByeResendCount := e.confirmationResendCount }.setTimeRelativeNow .buildByeBye 0
      else e).outgoing := by
    intro e he
    split
    · refine hfold.trans ?_
      rw [← he]
      exact setTimeRelativeNow_outgoing { e with
        remainByeByeResendCount := e.confirmationResendCount } 0 hbyeBye
    · rw [he]
      exact hfold
  apply hbyeByes
  split
  · exact hdisabled
  · rfl

theorem udpReadPacket_outgoing (packet : Packet) :
    Steps Arming Rated Read c.outgoing (c.udpReadPacket packet).outgoing := by
  have hwrite : EventName.tcpWrite ≠ .udpWrite := nofun
  have hwait : EventName.udpCloseWait ≠ .udpWrite := nofun
  have hconfirm : EventName.buildConfirmations ≠ .udpWrite := nofun
  let d : Connection := { c with toReceiver := c.toReceiver.accept packet }
  have hfake : Steps Arming Rated Read c.outgoing d.tcpWriteFake.outgoing := d.tcpWriteFake_outgoing
  have hstore : Steps Arming Rated Read c.outgoing (c.storePacket packet).outgoing := by
    have hclosing : ∀ e : Connection, Steps Arming Rated Read c.outgoing e.outgoing →
        Steps Arming Rated Read c.outgoing (if e.udpReceivedMasterIndex ≥ e.udpReceivedFinalIndex then
          e.setTimeRelativeNow .udpCloseWait (e.udpResendUs * e.udpResendCount + e.udpResendUs)
        else e).outgoing := by
      intro e he
      split
      · exact he.trans (e.setTimeRelativeNow_outgoing _ hwait)
      · exact he
    apply hclosing
    split
    · exact hfake.trans (setTimeRelativeNow_outgoing _ 0 hwrite)
    · exact hfake
  have hrearm : ∀ e : Connection, Steps Arming Rated Read e.outgoing e.rearm.outgoing :=
    fun e => setTimeRelativeNow_outgoing { e with
      remainConfirmationResendCount := e.confirmationResendCount } e.buildConfirmationsUs hconfirm
  rw [udpReadPacket_eq]
  split
  · exact hrearm c
  · exact hstore.trans (hrearm _)

theorem udpReadByeBye_outgoing (packet : Packet) :
    Steps Arming Rated Read c.outgoing (c.udpReadByeBye packet).outgoing := by
  have hwait : EventName.udpCloseWait ≠ .udpWrite := nofun
  have hconfirm : EventName.buildConfirmations ≠ .udpWrite := nofun
  let d : Connection := { c with
    remainConfirmationResendCount := 0
    toReceiver := c.toReceiver.record (.byeBye packet.wire) }
  have hdropped : Steps Arming Rated Read c.outgoing
      (d.disable .buildConfirmations).dropConfirmations.outgoing := by
    have hd : (d.disable .buildConfirmations).outgoing = c.outgoing := d.disable_outgoing hconfirm
    rw [← hd]
    exact dropConfirmations_outgoing _
  simp only [udpReadByeBye]
  split
  · exact hdropped.trans (setTimeRelativeNow_outgoing _ _ hwait)
  · exact hdropped

theorem udpRead_outgoing (packet : Packet)
    (hmeets : c.udpConnected = true → packet.getType = .confirmation →
      ConfirmsMeet (RatedReport Rated) (c.confirmedIndices packet) c) :
    Steps Arming Rated Read c.outgoing (c.udpRead packet).outgoing := by
  simp only [udpRead]
  split
  · exact .refl
  · rename_i hudp
    simp only [Bool.not_eq_true', Bool.not_eq_false] at hudp
    refine Relation.ReflTransGen.trans ?_ (closeIfUdpFinished_outgoing _)
    split
    · rename_i htype
      exact c.udpReadConfirmation_outgoing packet (hmeets hudp htype)
    · split
      · exact c.udpReadPacket_outgoing packet
      · split
        · exact c.udpReadByeBye_outgoing packet
        · exact .refl

theorem handle_outgoing {event : EventName} (hother : event ≠ .udpWrite) (plannedTimeUs : Int)
    (harm : c.Reckons event → Arming) (hread : Read c.nowUs)
    (hmeets : event = .udpResend → c.udpConnected = true →
      ResendsMeet (RatedReport Rated) c.nowUs c.udpSentPackets.keys c.tick) :
    Steps Arming Rated Read c.outgoing (c.handle event plannedTimeUs).outgoing := by
  cases event with
  | tcpRead => exact c.tcpRead_outgoing harm
  | tcpWrite => exact c.tcpWrite_outgoing harm
  | tcpClose => exact c.tcpClose_outgoing _ fun htcp hudp => harm ⟨htcp, hudp⟩
  | udpWrite => exact absurd rfl hother
  | udpClose => exact c.udpClose_outgoing
  | buildUdpPackets => exact c.buildUdpPackets_outgoing true harm
  | buildConfirmations => exact c.buildConfirmations_outgoing harm
  | buildByeBye => exact c.buildByeBye_outgoing harm
  | udpResend => exact c.udpResend_outgoing harm hread (hmeets rfl)
  | udpCloseWait => exact c.closeIfUdpFinished_outgoing
  | close => exact .refl

end Handlers

end Connection

end IceTunnel
