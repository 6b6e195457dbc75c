import IceTunnel.Foundation.Totals
import IceTunnel.Handlers
import IceTunnel.Soundness

/-!
The books of the sending side: the packets in flight, the bytes they take, the
measures they are counted in.  The handlers are sequences of a few kinds of
entries, so what every entry keeps holds in every run.
-/

namespace IceTunnel

/-- The fields of a `Connection` that the sending side keeps its books with. -/
structure Ledger extends Config, Pacing where
  udpConnected : Bool
  udpNextSendIndex : Int
  udpSentPackets : Std.ExtTreeMap Int Packet
  udpConfirmationPackets : List Packet
  udpSentBufferSize : Int32

/-- The sum of `getSize()` over a list of packets. -/
def sizeOfAll (packets : List Packet) : Int :=
  (packets.map Packet.getSize).sum

namespace Ledger

/-- One entry.  What it reports to `onUdpDelivered` meets `R`. -/
inductive Step (R : Ledger → Bool → Packet → Prop) : Ledger → Ledger → Prop
  /-- A packet enters `udpSentPackets`. -/
  | push (l : Ledger) (type : PacketType) (payload : List UInt8) :
      l.udpConnected = true →
      Step R l { l with
        udpSentPackets := l.udpSentPackets.insert l.udpNextSendIndex
          { (l.udpSentPackets.getD l.udpNextSendIndex {}).encode type l.udpNextSendIndex payload with
            remainResendCount := l.udpResendCount }
        udpNextSendIndex := l.udpNextSendIndex + 1
        udpSentBufferSize := l.udpSentBufferSize + .ofInt payload.length }
  /-- `udpLastSentUs` becomes a planned time, or is raised. -/
  | pace (l : Ledger) (timeUs : Int) :
      l.udpLastSentUs ≤ timeUs ∨ 0 ≤ timeUs →
      Step R l { l with udpLastSentUs := timeUs }
  /-- A Confirmation or ByeBye packet is queued. -/
  | enqueue (l : Ledger) (packet : Packet) :
      l.udpConnected = true →
      Step R l { l with
        udpConfirmationPackets := l.udpConfirmationPackets ++ [packet]
        udpSentBufferSize := l.udpSentBufferSize + .ofInt packet.getSize }
  /-- The first packet of the queue is sent. -/
  | dequeue (l : Ledger) (packet : Packet) (packets : List Packet) :
      l.udpConfirmationPackets = packet :: packets →
      Step R l { l with
        udpConfirmationPackets := packets
        udpSentBufferSize := l.udpSentBufferSize - .ofInt packet.getSize }
  /-- The Confirmation packets of the queue are dropped. -/
  | dropConfirmations (l : Ledger) :
      Step R l { l with
        udpConfirmationPackets := l.udpConfirmationPackets.filter (·.getType ≠ .confirmation)
        udpSentBufferSize := l.udpSentBufferSize -
          .ofInt (sizeOfAll (l.udpConfirmationPackets.filter (·.getType = .confirmation))) }
  /-- `udpWrite` has sent a packet. -/
  | transmit (l : Ledger) (index : Int) (packet : Packet) (timeUs measureUs : Int) :
      l.udpSentPackets[index]? = some packet → packet.sent = false → 0 ≤ timeUs →
      Step R l { l with
        udpSentPackets := l.udpSentPackets.insert index
          { packet with sent := true, sentTimeUs := timeUs, measureIndex := l.udpSendMeasureIndex }
        toPacing := (l.toPacing.onUdpSent l.toConfig l.udpSendMeasureIndex l.udpSendIntervalUs
          packet.getSize measureUs).getD l.toPacing }
  /-- `udpWrite` erases a packet that was confirmed before it was sent. -/
  | eraseComplete (l : Ledger) (index : Int) (packet : Packet) :
      l.udpSentPackets[index]? = some packet → packet.isComplete = true →
      Step R l { l with
        udpSentPackets := l.udpSentPackets.erase index
        udpSentBufferSize := l.udpSentBufferSize - .ofInt packet.getSize }
  /-- `udpResend` reports a packet lost. -/
  | resend (l : Ledger) (index : Int) (packet : Packet) :
      l.udpSentPackets[index]? = some packet → packet.sent = true → R l false packet →
      Step R l { l with
        udpSentPackets := l.udpSentPackets.insert index
          { packet with sent := false, remainResendCount := packet.remainResendCount - 1 }
        toPacing := l.toPacing.onUdpDelivered l.toConfig false packet.measureIndex packet.getSize }
  /-- `udpRead` reports a packet delivered. -/
  | forget (l : Ledger) (index : Int) (packet : Packet) :
      l.udpSentPackets[index]? = some packet →
      (packet.confirmed = false → R l true packet) →
      Step R l { l with
        udpSentPackets := l.udpSentPackets.erase index
        udpSentBufferSize := l.udpSentBufferSize - .ofInt packet.getSize
        toPacing :=
          if packet.confirmed then l.toPacing
          else l.toPacing.onUdpDelivered l.toConfig true packet.measureIndex packet.getSize }
  /-- `udpClose`. -/
  | close (l : Ledger) :
      Step R l { l with
        udpConnected := false
        udpSentPackets := ∅
        udpConfirmationPackets := []
        udpSentBufferSize := 0 }

/-- A sequence of entries. -/
abbrev Steps (R : Ledger → Bool → Packet → Prop) : Ledger → Ledger → Prop :=
  Relation.ReflTransGen (Step R)

/-- A packet of the map is reported, as lost only while it is in flight. -/
def Reports (l : Ledger) (success : Bool) (packet : Packet) : Prop :=
  ∃ index : Int, l.udpSentPackets[index]? = some packet ∧ (success = false → packet.sent = true)

/-- Any report is fine. -/
def anyReport (_ : Ledger) (_ : Bool) (_ : Packet) : Prop := True

end Ledger

namespace Connection

open Ledger

variable (c : Connection)

def ledger : Ledger :=
  { toConfig := c.toConfig
    toPacing := c.toPacing
    udpConnected := c.udpConnected
    udpNextSendIndex := c.udpNextSendIndex
    udpSentPackets := c.udpSentPackets
    udpConfirmationPackets := c.udpConfirmationPackets
    udpSentBufferSize := c.udpSentBufferSize }

section Reports

variable (R : Ledger → Bool → Packet → Prop)

/-- The reports that a Confirmation packet with these indices makes meet `R`. -/
def ConfirmsMeet : List Int → Connection → Prop
  | [], _ => True
  | index :: indices, c =>
      (∀ packet ∈ c.udpSentPackets[index]?, packet.confirmed = false → R c.ledger true packet)
        ∧ ConfirmsMeet indices (c.confirmPacket index)

/-- The reports that `udpResend` makes over these keys meet `R`. -/
def ResendsMeet (timeUs : Int) : List Int → Connection → Prop
  | [], _ => True
  | index :: indices, c =>
      (∀ packet ∈ c.udpSentPackets[index]?, packet.sent = true →
        packet.sentTimeUs + c.udpResendUs ≤ timeUs → packet.remainResendCount > 0 →
          R c.ledger false packet)
        ∧ ResendsMeet timeUs indices (udpResendLoop timeUs [index] c)

/-- The reports that a move makes meet `R`. -/
def ReportsMeet : Move → Prop
  | .raise event _ io =>
      event = .udpResend → c.udpConnected = true →
        let c := ({ c with io := io } : Connection).disable .udpResend
        ResendsMeet R c.nowUs c.udpSentPackets.keys c.tick
  | .udpRead packet io =>
      c.udpConnected = true → packet.getType = .confirmation →
        let c : Connection := { c with io := io }
        ConfirmsMeet R (c.confirmedIndices packet.wire) c

section Decidable

variable [∀ l success packet, Decidable (R l success packet)]

instance decidableConfirmsMeet :
    (indices : List Int) → (c : Connection) → Decidable (ConfirmsMeet R indices c)
  | [], _ => .isTrue trivial
  | index :: indices, c =>
      have := decidableConfirmsMeet indices (c.confirmPacket index)
      inferInstanceAs (Decidable (_ ∧ _))

instance decidableResendsMeet (timeUs : Int) :
    (indices : List Int) → (c : Connection) → Decidable (ResendsMeet R timeUs indices c)
  | [], _ => .isTrue trivial
  | index :: indices, c =>
      have := decidableResendsMeet timeUs indices (udpResendLoop timeUs [index] c)
      inferInstanceAs (Decidable (_ ∧ _))

instance (m : Move) : Decidable (c.ReportsMeet R m) :=
  match m with
  | .raise event _ _ => inferInstanceAs (Decidable (event = .udpResend → _ → ResendsMeet R _ _ _))
  | .udpRead _ _ => inferInstanceAs (Decidable (_ → _ → ConfirmsMeet R _ _))

end Decidable

variable {R}

theorem confirmsMeet_of_forall (hR : ∀ l packet, R l true packet) (indices : List Int) :
    ConfirmsMeet R indices c := by
  induction indices generalizing c with
  | nil => trivial
  | cons index indices ih => exact ⟨fun packet _ _ => hR _ packet, ih _⟩

theorem resendsMeet_of_forall (hR : ∀ l packet, R l false packet) (timeUs : Int)
    (indices : List Int) : ResendsMeet R timeUs indices c := by
  induction indices generalizing c with
  | nil => trivial
  | cons index indices ih => exact ⟨fun packet _ _ _ _ => hR _ packet, ih _⟩

theorem reportsMeet_anyReport (m : Move) : c.ReportsMeet anyReport m := by
  cases m with
  | «raise» event timeUs io =>
      exact fun _ _ => resendsMeet_of_forall _ (fun _ _ => trivial) _ _
  | udpRead packet io =>
      exact fun _ _ => confirmsMeet_of_forall _ (fun _ _ => trivial) _

end Reports

section Parts

@[simp] theorem setTime_ledger (name : EventName) (timeUs : Int) :
    (c.setTime name timeUs).ledger = c.ledger := rfl

@[simp] theorem disable_ledger (name : EventName) : (c.disable name).ledger = c.ledger := rfl

@[simp] theorem tick_ledger : c.tick.ledger = c.ledger := rfl

@[simp] theorem setTimeRelativeNow_ledger (name : EventName) (timeUs : Int) :
    (c.setTimeRelativeNow name timeUs).ledger = c.ledger := rfl

@[simp] theorem tickEnd_ledger : c.tickEnd.ledger = c.ledger := by
  simp only [tickEnd]
  split <;> rfl

@[simp] theorem onUdpSentBufferChanged_ledger (sizeIncrement : Int) :
    (c.onUdpSentBufferChanged sizeIncrement).ledger =
      { c.ledger with udpSentBufferSize := c.ledger.udpSentBufferSize + Int32.ofInt sizeIncrement } := by
  simp only [onUdpSentBufferChanged]
  split
  · rw [setTimeRelativeNow_ledger, tickEnd_ledger]
    rfl
  · rw [disable_ledger, tickEnd_ledger]
    rfl

theorem onUdpSentBufferChanged_neg_ledger (size : Int) :
    (c.onUdpSentBufferChanged (-size)).ledger =
      { c.ledger with udpSentBufferSize := c.ledger.udpSentBufferSize - Int32.ofInt size } := by
  rw [onUdpSentBufferChanged_ledger, Int32.ofInt_neg, Int32.sub_eq_add_neg]

theorem eraseSent_ledger (index : Int) (packet : Packet) :
    (c.eraseSent index packet).ledger = { c.ledger with
      udpSentPackets := c.ledger.udpSentPackets.erase index
      udpSentBufferSize := c.ledger.udpSentBufferSize - .ofInt packet.getSize } := by
  let d := c.onUdpSentBufferChanged (-packet.getSize)
  change { d.ledger with udpSentPackets := d.ledger.udpSentPackets.erase index } = _
  rw [onUdpSentBufferChanged_neg_ledger]

theorem setEventUdpWrite_ledger : ∃ timeUs, c.udpLastSentUs ≤ timeUs ∧
    c.setEventUdpWrite.ledger = { c.ledger with udpLastSentUs := timeUs } := by
  simp only [setEventUdpWrite, setTime_ledger]
  split
  · exact ⟨_, le_max_left _ _, rfl⟩
  · exact ⟨_, le_refl _, rfl⟩

theorem setEventUdpWrite_entries {R : Ledger → Bool → Packet → Prop} :
    Steps R c.ledger c.setEventUdpWrite.ledger := by
  obtain ⟨timeUs, hle, heq⟩ := c.setEventUdpWrite_ledger
  rw [heq]
  exact .single (Step.pace c.ledger timeUs (.inl hle))

theorem onUdpSent_ledger (measureIndex intervalUs size : Int) :
    (c.onUdpSent measureIndex intervalUs size).ledger =
      { c.ledger with toPacing := (c.toPacing.onUdpSent c.toConfig measureIndex intervalUs size
          c.nowUs).getD c.toPacing } := by
  simp only [onUdpSent]
  split
  · rename_i hnone
    rw [hnone]
    rfl
  · rename_i pacing hsome
    rw [hsome]
    rfl

end Parts

section Handlers

variable {R : Ledger → Bool → Packet → Prop}

theorem buildUdpPacketsLoop_entries (flush : Bool) (fuel : Nat) (rest : List UInt8)
    (hudp : c.udpConnected = true) :
    Steps R c.ledger (buildUdpPacketsLoop flush fuel rest c).1.ledger := by
  induction fuel generalizing rest c with
  | zero => exact .refl
  | succ fuel ih =>
      simp only [buildUdpPacketsLoop]
      split
      · exact .refl
      · split
        · exact .refl
        · generalize (min (rest.length : Int) c.udpSendPacketSize).toNat = n
          obtain ⟨timeUs, hle, hpace⟩ := (c.push .data (rest.take n)).setEventUdpWrite_ledger
          have hpushed : Steps R c.ledger (((c.push .data (rest.take n)).setEventUdpWrite
              ).onUdpSentBufferChanged (rest.take n).length).ledger := by
            rw [onUdpSentBufferChanged_ledger, hpace]
            have hpush := Step.push (R := R) c.ledger .data (rest.take n) hudp
            exact (Relation.ReflTransGen.single hpush).tail (Step.pace _ timeUs (.inl hle))
          apply hpushed.trans
          apply ih
          simpa using hudp

theorem buildReceivedData_entries (flush : Bool) (hudp : c.udpConnected = true) :
    Steps R c.ledger (c.buildReceivedData flush).ledger := by
  have hloop := c.buildUdpPacketsLoop_entries (R := R) flush c.tcpReceivedData.length
    c.tcpReceivedData hudp
  simp only [buildReceivedData]
  split <;> split <;> exact hloop

theorem buildUdpPackets_entries (flush : Bool) :
    Steps R c.ledger (c.buildUdpPackets flush).ledger := by
  simp only [buildUdpPackets]
  split
  · exact .refl
  · rename_i hudp
    simp only [Bool.not_eq_true', Bool.not_eq_false] at hudp
    split
    · exact buildReceivedData_entries { c with tcpReceivedData := [] } flush hudp
    · exact c.buildReceivedData_entries flush hudp

theorem onUdpSentBufferChanged_zero_ledger : (c.onUdpSentBufferChanged 0).ledger = c.ledger := by
  rw [onUdpSentBufferChanged_ledger]
  exact congrArg (fun size => { c.ledger with udpSentBufferSize := size }) (Int32.add_zero _)

theorem tcpRead_entries : Steps R c.ledger c.tcpRead.ledger := by
  simp only [tcpRead]
  split
  · exact .refl
  · rw [onUdpSentBufferChanged_zero_ledger]
    split
    · exact .refl
    · split
      · exact buildUdpPackets_entries { c with toSender :=
          { c.toSender.record (.read (c.io.tcpBytes.take c.udpSendPacketSize.toNat)) with
            tcpReceivedData :=
              c.tcpReceivedData ++ c.io.tcpBytes.take c.udpSendPacketSize.toNat } } false
      · exact .refl

theorem tcpWriteData_ledger (packet : Packet) : (c.tcpWriteData packet).ledger = c.ledger := by
  simp only [tcpWriteData]
  by_cases hsize : min c.io.tcpAccepted packet.getData.length > 0
  · simp only [if_pos hsize]
    split <;> rfl
  · simp only [if_neg hsize]
    split <;> rfl

theorem tcpWriteLoop_ledger (fake : Bool) (fuel : Nat) :
    (tcpWriteLoop fake fuel c).1.ledger = c.ledger := by
  induction fuel generalizing c with
  | zero => rfl
  | succ fuel ih =>
      simp only [tcpWriteLoop]
      split
      · split
        · rfl
        · rename_i packet hpacket
          split
          · split
            · rfl
            · exact ih { c with toReceiver := c.toReceiver.skip packet fake }
          · exact c.tcpWriteData_ledger packet
      · rfl

theorem tcpWriteFake_ledger : c.tcpWriteFake.ledger = c.ledger := by
  simp only [tcpWriteFake]
  split
  · rfl
  · exact c.tcpWriteLoop_ledger true _

theorem tcpClose_entries (error : Bool) : Steps R c.ledger (c.tcpClose error).ledger := by
  simp only [tcpClose]
  split
  · exact .refl
  · split
    · exact .refl
    · rename_i hudp
      simp only [disable_toEndpoint, Bool.not_eq_true', Bool.not_eq_false] at hudp
      let c₀ := ({ c with tcpConnected := false }.disable .tcpRead).disable .tcpWrite
      have hbuild := c₀.tcpWriteFake.buildUdpPackets_entries (R := R) true
      obtain ⟨s, hs⟩ := c₀.tcpWriteFake.buildUdpPackets_toEndpoint true
      obtain ⟨r, hr, -⟩ := c₀.tcpWriteFake_steps (N := fun _ => True)
      have hopen : (c₀.tcpWriteFake.buildUdpPackets true).udpConnected = true := by
        rw [hs, hr]
        exact hudp
      rw [tcpWriteFake_ledger] at hbuild
      have hpush := Step.push (R := R) (c₀.tcpWriteFake.buildUdpPackets true).ledger
        (if error then .disconnect else .bye) [] hopen
      refine (hbuild.tail hpush).trans ?_
      have hpace := setEventUdpWrite_entries (R := R) (((c₀.tcpWriteFake.buildUdpPackets true).push
        (if error then .disconnect else .bye) []).onUdpSentBufferChanged 0)
      rw [onUdpSentBufferChanged_ledger] at hpace
      exact hpace

theorem tcpWrite_entries : Steps R c.ledger c.tcpWrite.ledger := by
  have hloop := c.tcpWriteLoop_ledger false c.tcpWriteFuel
  simp only [tcpWrite]
  split
  · exact .refl
  · split
    · have hclose := (tcpWriteLoop false c.tcpWriteFuel c).1.tcpClose_entries (R := R) false
      rwa [hloop] at hclose
    · rw [hloop]

theorem dropUdp_ledger : c.dropUdp.ledger = { c.ledger with
    udpConnected := false
    udpSentPackets := ∅
    udpConfirmationPackets := []
    udpSentBufferSize := 0 } := by
  simp only [dropUdp, onUdpSentBufferChanged_ledger]
  change ({ c.ledger with
    udpConnected := false
    udpSentPackets := ∅
    udpConfirmationPackets := []
    udpSentBufferSize := c.udpSentBufferSize + Int32.ofInt (-c.udpSentBufferSize).toInt } : Ledger) = _
  rw [Int32.ofInt_toInt, Int32.add_right_neg]

theorem udpClose_entries : Steps R c.ledger c.udpClose.ledger := by
  cases hudp : c.udpConnected with
  | false =>
      simp only [udpClose, hudp]
      exact .refl
  | true =>
      have hclose := Step.close (R := R) c.ledger
      rw [← dropUdp_ledger] at hclose
      rw [udpClose_eq c hudp]
      split
      · exact .single hclose
      · split
        · exact .head hclose (c.dropUdp.tcpClose_entries false)
        · exact .single hclose

theorem closeIfUdpFinished_entries : Steps R c.ledger c.closeIfUdpFinished.ledger := by
  rcases c.closeIfUdpFinished_eq with ⟨-, heq⟩ | ⟨-, finished, heq⟩
  · rw [heq]
  · rw [heq]
    exact udpClose_entries { c with finished := finished }

theorem udpWriteConfirmation_entries (plannedTimeUs : Int) (packet : Packet)
    (packets : List Packet) (hqueue : c.udpConfirmationPackets = packet :: packets)
    (hplanned : 0 ≤ plannedTimeUs) :
    Steps R c.ledger (c.udpWriteConfirmation plannedTimeUs packet packets).ledger := by
  have hpace := Step.pace (R := R) c.ledger plannedTimeUs (.inr hplanned)
  have hdequeue := Step.dequeue (R := R) { c.ledger with udpLastSentUs := plannedTimeUs } packet
    packets hqueue
  let d : Connection := { c with
    toSender := c.toSender.record (.writeto packet.wire), udpLastSentUs := plannedTimeUs }
  let sent : Connection := { d.onUdpSentBufferChanged (-packet.getSize) with
    udpConfirmationPackets := packets }
  have hsent : Steps R c.ledger sent.ledger := by
    have hledger : sent.ledger = { (d.onUdpSentBufferChanged (-packet.getSize)).ledger with
      udpConfirmationPackets := packets } := rfl
    rw [hledger, onUdpSentBufferChanged_neg_ledger]
    exact (Relation.ReflTransGen.single hpace).tail hdequeue
  simp only [udpWriteConfirmation]
  split
  · split
    · exact hsent.trans sent.closeIfUdpFinished_entries
    · split <;> exact hsent
  · exact .refl

theorem udpWritePacket_entries (plannedTimeUs index : Int) (packet : Packet)
    (hpacket : c.udpSentPackets[index]? = some packet) (hsent : packet.sent = false)
    (hplanned : 0 ≤ plannedTimeUs) :
    Steps R c.ledger (c.udpWritePacket plannedTimeUs index packet).ledger := by
  let sent : Packet := { packet with
    sent := true, sentTimeUs := c.nowUs, measureIndex := c.udpSendMeasureIndex }
  let d : Connection := ({ c with toSender := c.toSender.record (.writeto packet.wire) } :
    Connection).markSent plannedTimeUs index packet
  have hsteps : Steps R c.ledger d.ledger := by
    have hpace := Step.pace (R := R) c.ledger plannedTimeUs (.inr hplanned)
    have htransmit := Step.transmit (R := R) { c.ledger with udpLastSentUs := plannedTimeUs } index
      packet c.nowUs c.tick.nowUs hpacket hsent c.nowUs_nonneg
    have hledger : d.ledger = (({ ({ c with
        toSender := c.toSender.record (.writeto packet.wire) } : Connection).tick with
        udpSentPackets := c.udpSentPackets.insert index sent
        udpLastSentUs := plannedTimeUs } : Connection).onUdpSent c.udpSendMeasureIndex
          c.udpSendIntervalUs packet.getSize).ledger := rfl
    rw [hledger, onUdpSent_ledger]
    exact (Relation.ReflTransGen.single hpace).tail htransmit
  have hmap : d.udpSentPackets[index]? = some sent := by
    rw [markSent_toEndpoint]
    exact Std.ExtTreeMap.getElem?_insert_self
  simp only [udpWritePacket]
  split
  · split
    · rename_i hcomplete
      have herase := Step.eraseComplete (R := R) d.ledger index sent hmap hcomplete
      have herased : Steps R c.ledger (d.eraseSent index packet).ledger := by
        rw [eraseSent_ledger]
        exact hsteps.tail herase
      split
      · exact herased.trans (d.eraseSent index packet).closeIfUdpFinished_entries
      · split <;> exact herased
    · split <;> exact hsteps
  · split <;> exact .refl

theorem udpWrite_entries (plannedTimeUs : Int) (hplanned : 0 ≤ plannedTimeUs) :
    Steps R c.ledger (c.udpWrite plannedTimeUs).ledger := by
  simp only [udpWrite]
  split
  · exact .refl
  · split
    · rename_i packet packets hqueue
      exact c.udpWriteConfirmation_entries plannedTimeUs packet packets hqueue hplanned
    · split
      · rename_i index packet hfirst
        obtain ⟨hpacket, hsent⟩ := c.firstUnsent_eq_some hfirst
        exact c.udpWritePacket_entries plannedTimeUs index packet hpacket hsent hplanned
      · exact .refl

theorem foldl_onUdpSentBufferChanged_ledger (packets : List Packet) :
    (packets.foldl (fun c packet => c.onUdpSentBufferChanged (-packet.getSize)) c).ledger =
      { c.ledger with
        udpSentBufferSize := c.ledger.udpSentBufferSize - .ofInt (sizeOfAll packets) } := by
  induction packets generalizing c with
  | nil =>
      exact congrArg (fun size => { c.ledger with udpSentBufferSize := size })
        (Int32.sub_zero _).symm
  | cons packet packets ih =>
      rw [List.foldl_cons, ih, onUdpSentBufferChanged_neg_ledger]
      simp only [sizeOfAll, List.map_cons, List.sum_cons, Int32.ofInt_add, Ledger.mk.injEq, true_and]
      rw [Int32.sub_sub]

theorem dropConfirmations_entries : Steps R c.ledger c.dropConfirmations.ledger := by
  have hdrop := Step.dropConfirmations (R := R) c.ledger
  simp only [dropConfirmations, foldl_onUdpSentBufferChanged_ledger]
  exact .single hdrop

theorem foldl_pushConfirmation_entries (payloads : List (List UInt8))
    (hudp : c.udpConnected = true) :
    Steps R c.ledger (payloads.foldl pushConfirmation c).ledger := by
  induction payloads generalizing c with
  | nil => exact .refl
  | cons payload payloads ih =>
      have henqueue := Step.enqueue (R := R) c.ledger (c.confirmation payload) hudp
      have hledger : (c.pushConfirmation payload).ledger = { c.ledger with
          udpConfirmationPackets := c.udpConfirmationPackets ++ [c.confirmation payload]
          udpSentBufferSize := c.udpSentBufferSize + .ofInt (c.confirmation payload).getSize } := by
        simp only [pushConfirmation, onUdpSentBufferChanged_ledger]
        rfl
      rw [List.foldl_cons]
      refine .head ?_ (ih (c.pushConfirmation payload) ?_)
      · rw [hledger]
        exact henqueue
      · rw [pushConfirmation_toEndpoint]
        exact hudp

theorem buildConfirmations_entries : Steps R c.ledger c.buildConfirmations.ledger := by
  simp only [buildConfirmations]
  split
  · exact .refl
  · rename_i hudp
    simp only [Bool.not_eq_true', Bool.not_eq_false] at hudp
    have hudpD : c.dropConfirmations.udpConnected = true := by
      rw [dropConfirmations_toEndpoint]
      exact hudp
    have hqueue := c.dropConfirmations_entries (R := R).trans
      (foldl_pushConfirmation_entries c.dropConfirmations c.dropConfirmations.confirmationPayloads hudpD)
    generalize c.dropConfirmations.confirmationPayloads.foldl pushConfirmation c.dropConfirmations = d
      at hqueue
    have hpace := setEventUdpWrite_entries (R := R)
      { d with udpConfirmedMasterIndex := d.udpReceivedMasterIndex }
    split <;> exact hqueue.trans hpace

theorem buildByeBye_entries : Steps R c.ledger c.buildByeBye.ledger := by
  simp only [buildByeBye]
  split
  · exact .refl
  · rename_i hudp
    simp only [Bool.not_eq_true', Bool.not_eq_false] at hudp
    have henqueue := Step.enqueue (R := R) c.ledger c.byeByePacket hudp
    let d : Connection := { c with
      udpConfirmationPackets := c.udpConfirmationPackets ++ [c.byeByePacket]
      toSender := c.toSender.record (.byeBye c.byeByePacket.wire c.udpSentPackets.keys) }
    have hpace := (d.onUdpSentBufferChanged c.byeByePacket.getSize).setEventUdpWrite_entries (R := R)
    rw [onUdpSentBufferChanged_ledger] at hpace
    split <;> exact .head henqueue hpace

theorem udpResendLoop_entries (timeUs : Int) (indices : List Int)
    (hmeets : ResendsMeet R timeUs indices c) :
    Steps R c.ledger (udpResendLoop timeUs indices c).ledger := by
  induction indices generalizing c with
  | nil => exact .refl
  | cons index indices ih =>
      obtain ⟨hfirst, hrest⟩ := hmeets
      rcases c.udpResendLoop_cons timeUs index with
        ⟨-, heq⟩ | ⟨packet, hpacket, hsent, ⟨htime, hremain, heq⟩ | ⟨-, -, heq⟩ | ⟨-, heq⟩⟩
      · rw [heq] at hrest ⊢
        exact ih c hrest
      · have hresend := Step.resend (R := R) c.ledger index packet hpacket hsent
          (hfirst packet hpacket hsent htime hremain)
        rw [heq] at hrest ⊢
        exact .head hresend ((setEventUdpWrite_entries _).trans (ih _ hrest))
      · rw [heq]
        exact c.udpClose_entries
      · rw [heq] at hrest ⊢
        exact ih (c.setTime .udpResend (packet.sentTimeUs + c.udpResendUs)) hrest

theorem udpResend_entries
    (hmeets : c.udpConnected = true → ResendsMeet R c.nowUs c.udpSentPackets.keys c.tick) :
    Steps R c.ledger c.udpResend.ledger := by
  simp only [udpResend]
  split
  · exact .refl
  · rename_i hudp
    simp only [Bool.not_eq_true', Bool.not_eq_false] at hudp
    exact c.tick.udpResendLoop_entries _ _ (hmeets hudp)

theorem confirmPacket_ledger {index : Int} {packet : Packet}
    (hpacket : c.udpSentPackets[index]? = some packet) :
    (c.confirmPacket index).ledger = { c.ledger with
      udpSentPackets := c.udpSentPackets.erase index
      udpSentBufferSize := c.udpSentBufferSize - .ofInt packet.getSize
      toPacing :=
        if packet.confirmed then c.toPacing
        else c.toPacing.onUdpDelivered c.toConfig true packet.measureIndex packet.getSize } := by
  have heq : c.confirmPacket index =
      eraseSent (let c := if !packet.confirmed then
          c.onUdpDelivered true packet.measureIndex packet.getSize
        else c
      if !packet.sent then { c with udpPacketsToSendCount := c.udpPacketsToSendCount - 1 }
      else c) index packet := by
    simp only [confirmPacket, hpacket, eraseSent]
  rw [heq, eraseSent_ledger]
  cases packet.sent <;> cases packet.confirmed <;> rfl

theorem confirmPacket_entries (index : Int)
    (hmeets : ∀ packet ∈ c.udpSentPackets[index]?, packet.confirmed = false →
      R c.ledger true packet) :
    Steps R c.ledger (c.confirmPacket index).ledger := by
  cases hpacket : c.udpSentPackets[index]? with
  | none =>
      simp only [confirmPacket, hpacket]
      exact .refl
  | some packet =>
      rw [c.confirmPacket_ledger hpacket]
      exact .single (Step.forget c.ledger index packet hpacket (hmeets packet hpacket))

theorem foldl_confirmPacket_entries (indices : List Int) (hmeets : ConfirmsMeet R indices c) :
    Steps R c.ledger (indices.foldl confirmPacket c).ledger := by
  induction indices generalizing c with
  | nil => exact .refl
  | cons index indices ih =>
      exact (c.confirmPacket_entries index hmeets.1).trans (ih _ hmeets.2)

theorem udpReadConfirmation_entries (packet : Packet)
    (hmeets : ConfirmsMeet R (c.confirmedIndices packet) c) :
    Steps R c.ledger (c.udpReadConfirmation packet).ledger := by
  have hfold := c.foldl_confirmPacket_entries _ hmeets
  rw [udpReadConfirmation_eq]
  simp only
  split <;> split <;> exact hfold

theorem udpReadPacket_ledger (packet : Packet) :
    (c.udpReadPacket packet).ledger = c.ledger := by
  have hstore : (c.storePacket packet).ledger = c.ledger := by
    have hfake := tcpWriteFake_ledger { c with toReceiver := c.toReceiver.accept packet }
    simp only [storePacket]
    split <;> split <;> exact hfake
  rw [udpReadPacket_eq]
  split
  · rfl
  · exact hstore

theorem udpReadByeBye_entries (packet : Packet) :
    Steps R c.ledger (c.udpReadByeBye packet).ledger := by
  have hdrop := dropConfirmations_entries (R := R) (({ c with
    remainConfirmationResendCount := 0
    toReceiver := c.toReceiver.record (.byeBye packet.wire) } : Connection).disable
      .buildConfirmations)
  simp only [udpReadByeBye]
  split <;> exact hdrop

theorem udpRead_entries (packet : Packet)
    (hmeets : c.udpConnected = true → packet.getType = .confirmation →
      ConfirmsMeet R (c.confirmedIndices packet) c) :
    Steps R c.ledger (c.udpRead packet).ledger := by
  simp only [udpRead]
  split
  · exact .refl
  · rename_i hudp
    simp only [Bool.not_eq_true', Bool.not_eq_false] at hudp
    refine Relation.ReflTransGen.trans ?_ (closeIfUdpFinished_entries _)
    split
    · rename_i htype
      exact c.udpReadConfirmation_entries packet (hmeets hudp htype)
    · split
      · rw [udpReadPacket_ledger]
      · split
        · exact c.udpReadByeBye_entries packet
        · exact .refl

theorem handle_entries (event : EventName) (plannedTimeUs : Int) (hplanned : 0 ≤ plannedTimeUs)
    (hmeets : event = .udpResend → c.udpConnected = true →
      ResendsMeet R c.nowUs c.udpSentPackets.keys c.tick) :
    Steps R c.ledger (c.handle event plannedTimeUs).ledger := by
  cases event with
  | tcpRead => exact c.tcpRead_entries
  | tcpWrite => exact c.tcpWrite_entries
  | tcpClose => exact c.tcpClose_entries c.io.tcpWasError
  | udpWrite => exact c.udpWrite_entries plannedTimeUs hplanned
  | udpClose => exact c.udpClose_entries
  | buildUdpPackets => exact c.buildUdpPackets_entries true
  | buildConfirmations => exact c.buildConfirmations_entries
  | buildByeBye => exact c.buildByeBye_entries
  | udpResend => exact c.udpResend_entries (hmeets rfl)
  | udpCloseWait => exact c.closeIfUdpFinished_entries
  | close => exact .refl

section Strengthen

variable {R' : Ledger → Bool → Packet → Prop} {I : Ledger → Prop}
  (hI : ∀ l l', I l → Step R l l' → I l') (hR : ∀ l success packet, I l →
    l.Reports success packet → R l success packet → R' l success packet)

include hI hR

/-- Reports also meet what an invariant of the entries adds to their condition. -/
theorem ConfirmsMeet.strengthen {indices : List Int} (hmeets : ConfirmsMeet R indices c)
    (h : I c.ledger) : ConfirmsMeet R' indices c := by
  induction indices generalizing c with
  | nil => trivial
  | cons index indices ih =>
      have hentries := c.confirmPacket_entries index hmeets.1
      refine ⟨fun packet hpacket hconfirmed => ?_, ?_⟩
      · exact hR _ _ _ h ⟨index, hpacket, nofun⟩ (hmeets.1 packet hpacket hconfirmed)
      · exact ih _ hmeets.2 (Runs.chain_invariant hI hentries h)

theorem ResendsMeet.strengthen {timeUs : Int} {indices : List Int}
    (hmeets : ResendsMeet R timeUs indices c) (h : I c.ledger) :
    ResendsMeet R' timeUs indices c := by
  induction indices generalizing c with
  | nil => trivial
  | cons index indices ih =>
      have hentries := c.udpResendLoop_entries timeUs [index] ⟨hmeets.1, trivial⟩
      refine ⟨fun packet hpacket hsent htime hremain => ?_, ?_⟩
      · exact hR _ _ _ h ⟨index, hpacket, fun _ => hsent⟩
          (hmeets.1 packet hpacket hsent htime hremain)
      · exact ih _ hmeets.2 (Runs.chain_invariant hI hentries h)

theorem ReportsMeet.strengthen {m : Move} (hmeets : c.ReportsMeet R m) (h : I c.ledger) :
    c.ReportsMeet R' m := by
  cases m with
  | «raise» event timeUs io =>
      rintro hevent hudp
      exact (hmeets hevent hudp).strengthen _ hI hR h
  | udpRead packet io =>
      rintro hudp htype
      exact (hmeets hudp htype).strengthen _ hI hR h

end Strengthen

/-- A step of a connection is a sequence of entries. -/
theorem step_entries {c d : Connection} {m : Move} (hmeets : c.ReportsMeet R m)
    (h : c.step m = some d) : Steps R c.ledger d.ledger := by
  cases m with
  | «raise» event timeUs io =>
      obtain ⟨-, henabled, -, rfl⟩ := of_step_raise h
      simp only [isEnabled, Event.isEnabled, decide_eq_true_eq] at henabled
      apply handle_entries (({ c with io := io } : Connection).disable event) event _ henabled
      rintro rfl hudp
      exact hmeets rfl hudp
  | udpRead packet io =>
      obtain ⟨-, rfl⟩ := of_step_udpRead h
      exact udpRead_entries { c with io := io } packet.wire hmeets

end Handlers

end Connection

end IceTunnel
