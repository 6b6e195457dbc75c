import IceTunnel.Waking
import IceTunnel.Walking
import IceTunnel.Window

namespace IceTunnel

/-- Where the value read through `udpSentPackets.end()` lets TCP be read, the greatest key
would have done so too. -/
def EndRead.Fits (r : EndRead) : Prop :=
  r.value - r.first ≤ r.maxCount → r.last - r.first ≤ r.maxCount

instance (r : EndRead) : Decidable r.Fits :=
  inferInstanceAs (Decidable (_ → _))

namespace Session

variable {s s' : Session}

theorem keySpan_nonneg : 0 ≤ s.keySpan := by
  cases hkeys : s.udpSentPackets.keys with
  | nil => simp [keySpan, hkeys]
  | cons first keys =>
      have hmem : first ∈ s.udpSentPackets := by
        rw [← Std.ExtTreeMap.mem_keys, hkeys]
        exact List.mem_cons_self
      have hle := s.sub_le_keySpan hmem hmem
      omega

theorem keySpan_le (h : ∀ key ∈ s'.udpSentPackets, key ∈ s.udpSentPackets) :
    s'.keySpan ≤ s.keySpan := by
  cases hkeys : s'.udpSentPackets.keys with
  | nil =>
      have hzero : s'.keySpan = 0 := by simp [keySpan, hkeys]
      rw [hzero]
      exact keySpan_nonneg
  | cons first keys =>
      have hne : s'.udpSentPackets.keys ≠ [] := by simp [hkeys]
      exact s.sub_le_keySpan (h _ (SortedKeys.headD_keys_mem hne))
        (h _ (SortedKeys.getLastD_keys_mem hne))

end Session

namespace Connection

/-- While what is read through `end()` fits, TCP is read only within the configured send
buffer; and these reads are among those made so far. -/
structure Guarded (reads : List EndRead) (c : Connection) : Prop where
  reads_sub : reads ⊆ c.endReads
  keySpan_le : (∀ r ∈ c.endReads, r.Fits) → c.isEnabled .tcpRead = true →
    c.keySpan ≤ c.udpMaxSentBufferSize.tdiv c.udpSendPacketSize

variable {reads : List EndRead} {c d : Connection}

theorem Guarded.of (h : c.Guarded reads) (hreads : d.endReads = c.endReads)
    (hevent : d.isEnabled .tcpRead = c.isEnabled .tcpRead) (hconfig : d.toConfig = c.toConfig)
    (hkeys : ∀ key ∈ d.udpSentPackets, key ∈ c.udpSentPackets) : d.Guarded reads := by
  refine ⟨hreads ▸ h.reads_sub, fun hfits henabled => ?_⟩
  rw [hreads] at hfits
  rw [hevent] at henabled
  rw [hconfig]
  exact (Session.keySpan_le hkeys).trans (h.keySpan_le hfits henabled)

/-- The reading through `end()`, if there is one. -/
def nextEndRead (c : Connection) : List EndRead :=
  if c.udpSentPackets.isEmpty then [] else [c.endRead]

theorem onUdpSentBufferChanged_endReads (sizeIncrement : Int) :
    (c.onUdpSentBufferChanged sizeIncrement).endReads = c.endReads ++ c.nextEndRead := by
  simp only [onUdpSentBufferChanged, tickEnd, nextEndRead]
  split <;> split
  · exact (List.append_nil _).symm
  · rfl
  · exact (List.append_nil _).symm
  · rfl

/-- A reading that fits keeps TCP from being read beyond the limit, and no other does. -/
theorem keySpan_le_iff_nextEndRead (c : Connection) :
    (c.sentCount ≤ c.maxCount → c.keySpan ≤ c.maxCount) ↔ ∀ r ∈ c.nextEndRead, r.Fits := by
  cases hkeys : c.udpSentPackets.keys with
  | nil =>
      have hempty : c.udpSentPackets.isEmpty = true := by
        rw [← Std.ExtTreeMap.isEmpty_keys, hkeys]
        rfl
      simp [sentCount, Session.keySpan, nextEndRead, hkeys, hempty]
  | cons first keys =>
      have hempty : ¬c.udpSentPackets.isEmpty = true := by
        rw [← Std.ExtTreeMap.isEmpty_keys, hkeys]
        exact Bool.false_ne_true
      simp only [nextEndRead, if_neg hempty, List.mem_singleton, forall_eq, EndRead.Fits, endRead,
        sentCount, Session.keySpan, hkeys]
      exact Iff.rfl

theorem guarded_onUdpSentBufferChanged (h : reads ⊆ c.endReads) (sizeIncrement : Int) :
    (c.onUdpSentBufferChanged sizeIncrement).Guarded reads := by
  have hreads := c.onUdpSentBufferChanged_endReads sizeIncrement
  refine ⟨?_, fun hfits henabled => ?_⟩
  · rw [hreads]
    exact List.subset_append_of_subset_left _ h
  · rw [isEnabled_tcpRead_onUdpSentBufferChanged] at henabled
    rw [hreads] at hfits
    rw [onUdpSentBufferChanged_toEndpoint]
    have hspan := c.keySpan_le_iff_nextEndRead.mpr fun r hr => hfits r (List.mem_append_right _ hr)
    exact (hspan henabled).trans (min_le_right _ _)

section Parts

theorem Guarded.setTimeRelativeNow (h : c.Guarded reads) {name : EventName} (hname : name ≠ .tcpRead)
    (timeUs : Int) : (c.setTimeRelativeNow name timeUs).Guarded reads :=
  h.of rfl (isEnabled_setTimeRelativeNow_of_ne _ _ _ hname.symm) rfl fun _ => id

theorem Guarded.setTime (h : c.Guarded reads) {name : EventName} (hname : name ≠ .tcpRead)
    (timeUs : Int) : (c.setTime name timeUs).Guarded reads :=
  h.of rfl (isEnabled_setTime_of_ne _ _ _ hname.symm) rfl fun _ => id

theorem Guarded.disable (h : c.Guarded reads) (name : EventName) : (c.disable name).Guarded reads := by
  by_cases hname : name = .tcpRead
  · subst hname
    refine ⟨h.reads_sub, fun _ henabled => ?_⟩
    rw [isEnabled_disable_self] at henabled
    cases henabled
  · exact h.of rfl (isEnabled_disable_of_ne _ _ (Ne.symm hname)) rfl fun _ => id

theorem setEventUdpWrite_endReads (c : Connection) : c.setEventUdpWrite.endReads = c.endReads := by
  simp only [Connection.setEventUdpWrite]
  split <;> rfl

theorem Guarded.setEventUdpWrite (h : c.Guarded reads) : c.setEventUdpWrite.Guarded reads := by
  refine h.of (setEventUdpWrite_endReads c) (isEnabled_setEventUdpWrite_of_ne _ (by decide)) ?_ ?_
  · rw [setEventUdpWrite_toEndpoint]
  · rw [setEventUdpWrite_toEndpoint]
    exact fun _ => id

theorem guarded_push (h : reads ⊆ c.endReads) (type : PacketType) (payload : List UInt8)
    (sizeIncrement : Int) :
    ((c.push type payload).setEventUdpWrite.onUdpSentBufferChanged sizeIncrement).Guarded reads := by
  apply guarded_onUdpSentBufferChanged
  rw [setEventUdpWrite_endReads]
  exact h

end Parts

section Building

variable (flush : Bool)

theorem Guarded.buildUdpPacketsLoop (h : c.Guarded reads) (fuel : Nat) (rest : List UInt8) :
    (buildUdpPacketsLoop flush fuel rest c).1.Guarded reads := by
  induction fuel generalizing rest c with
  | zero => exact h
  | succ fuel ih =>
      simp only [Connection.buildUdpPacketsLoop]
      split
      · exact h
      · split
        · exact h
        · exact ih (guarded_push h.reads_sub _ _ _) _

theorem Guarded.buildReceivedData (h : c.Guarded reads) : (c.buildReceivedData flush).Guarded reads := by
  have hloop := h.buildUdpPacketsLoop flush c.tcpReceivedData.length c.tcpReceivedData
  have hrest : ∀ (d : Connection) (rest : List UInt8), d.Guarded reads →
      ({ d with tcpReceivedData := rest } : Connection).Guarded reads :=
    fun _ _ hd => hd.of rfl rfl rfl fun _ => id
  simp only [Connection.buildReceivedData]
  split <;> split
  · exact (hrest _ _ hloop).disable _
  · exact hrest _ _ hloop
  · exact ((hrest _ _ hloop).disable _).setTimeRelativeNow (by decide) _
  · exact (hrest _ _ hloop).setTimeRelativeNow (by decide) _

theorem Guarded.buildUdpPackets (h : c.Guarded reads) : (c.buildUdpPackets flush).Guarded reads := by
  simp only [Connection.buildUdpPackets]
  split
  · exact h
  · split
    · have hdropped : ({ c with tcpReceivedData := [] } : Connection).Guarded reads :=
        h.of rfl rfl rfl fun _ => id
      exact hdropped.buildReceivedData flush
    · exact h.buildReceivedData flush

theorem Guarded.tcpRead (h : c.Guarded reads) : c.tcpRead.Guarded reads := by
  simp only [Connection.tcpRead]
  split
  · exact h
  · apply guarded_onUdpSentBufferChanged
    split
    · exact h.reads_sub
    · split
      · refine (Guarded.buildUdpPackets false ?_).reads_sub
        exact h.of rfl rfl rfl fun _ => id
      · exact h.reads_sub

end Building

section Passing

theorem Guarded.receiver (h : c.Guarded reads) (r : Receiver) :
    ({ c with toReceiver := r } : Connection).Guarded reads :=
  h.of rfl rfl rfl fun _ => id

theorem Guarded.tcpWriteData (h : c.Guarded reads) (packet : Packet) : (c.tcpWriteData packet).Guarded reads := by
  simp only [Connection.tcpWriteData]
  generalize min c.io.tcpAccepted packet.getData.length = size
  by_cases hsize : size > 0
  · simp only [if_pos hsize]
    split
    · exact (h.receiver _).setTimeRelativeNow (by decide) _
    · exact h.receiver _
  · simp only [if_neg hsize]
    split
    · exact h.setTimeRelativeNow (by decide) _
    · exact h

theorem Guarded.tcpWriteLoop (h : c.Guarded reads) (fake : Bool) (fuel : Nat) :
    (tcpWriteLoop fake fuel c).1.Guarded reads := by
  induction fuel generalizing c with
  | zero => exact h
  | succ fuel ih =>
      simp only [Connection.tcpWriteLoop]
      split
      · split
        · exact h
        · split
          · split
            · exact h.receiver _
            · exact ih (h.receiver _)
          · exact h.tcpWriteData _
      · exact h

theorem Guarded.tcpWriteFake (h : c.Guarded reads) : c.tcpWriteFake.Guarded reads := by
  simp only [Connection.tcpWriteFake]
  split
  · exact h
  · exact h.tcpWriteLoop true _

theorem Guarded.tcpClose (h : c.Guarded reads) (error : Bool) : (c.tcpClose error).Guarded reads := by
  have hclosed : ((({ c with tcpConnected := false } : Connection).disable .tcpRead).disable
      .tcpWrite).Guarded reads := by
    have hends : ({ c with tcpConnected := false } : Connection).Guarded reads :=
      h.of rfl rfl rfl fun _ => id
    exact (hends.disable _).disable _
  simp only [Connection.tcpClose]
  split
  · exact h
  · split
    · exact hclosed.setTimeRelativeNow (by decide) _
    · have hbuilt := (hclosed.tcpWriteFake.buildUdpPackets true).reads_sub
      apply Guarded.setEventUdpWrite
      apply guarded_onUdpSentBufferChanged
      exact hbuilt

theorem Guarded.tcpWrite (h : c.Guarded reads) : c.tcpWrite.Guarded reads := by
  have hloop := h.tcpWriteLoop false c.tcpWriteFuel
  simp only [Connection.tcpWrite]
  split
  · exact h
  · split
    · exact hloop.tcpClose false
    · exact hloop

theorem Guarded.udpClose (h : c.Guarded reads) : c.udpClose.Guarded reads := by
  cases hudp : c.udpConnected with
  | false =>
      simp only [Connection.udpClose, hudp, Bool.not_false, if_true]
      exact h
  | true =>
      have hdropped : c.dropUdp.Guarded reads := by
        apply guarded_onUdpSentBufferChanged
        exact h.reads_sub
      rw [udpClose_eq c hudp]
      split
      · exact hdropped.setTimeRelativeNow (by decide) _
      · split
        · exact hdropped.tcpClose false
        · exact hdropped

theorem Guarded.closeIfUdpFinished (h : c.Guarded reads) : c.closeIfUdpFinished.Guarded reads := by
  rcases c.closeIfUdpFinished_eq with ⟨-, heq⟩ | ⟨-, finished, heq⟩
  · rw [heq]
    exact h
  · rw [heq]
    have hfinished : ({ c with finished := finished } : Connection).Guarded reads :=
      h.of rfl rfl rfl fun _ => id
    exact hfinished.udpClose

end Passing

section Transmitting

theorem mem_insert_of_mem {map : Std.ExtTreeMap Int Packet} {index : Int} {p : Packet}
    (hp : map[index]? = some p) (q : Packet) (key : Int) : key ∈ map.insert index q ↔ key ∈ map := by
  rw [Std.ExtTreeMap.mem_insert, compare_eq_iff_eq]
  constructor
  · rintro (rfl | hkey)
    · exact Std.ExtTreeMap.mem_iff_isSome_getElem?.mpr (Option.isSome_of_eq_some hp)
    · exact hkey
  · exact .inr

theorem Guarded.udpWriteConfirmation (h : c.Guarded reads) (plannedTimeUs : Int) (packet : Packet)
    (packets : List Packet) : (c.udpWriteConfirmation plannedTimeUs packet packets).Guarded reads := by
  have hsent : ∀ d : Connection, reads ⊆ d.endReads →
      ({ d.onUdpSentBufferChanged (-packet.getSize) with
        udpConfirmationPackets := packets } : Connection).Guarded reads := by
    intro d hd
    exact (guarded_onUdpSentBufferChanged hd (-packet.getSize)).of rfl rfl rfl fun _ => id
  let sent : Connection := { c with
    toSender := c.toSender.record (.writeto packet.wire), udpLastSentUs := plannedTimeUs }
  have hrecorded : ({ c with toSender := c.toSender.record (.writeto packet.wire) } :
      Connection).Guarded reads := h.of rfl rfl rfl fun _ => id
  simp only [Connection.udpWriteConfirmation]
  split
  · split
    · exact (hsent sent h.reads_sub).closeIfUdpFinished
    · split
      · exact (hsent sent h.reads_sub).setTime (by decide) _
      · exact hsent sent h.reads_sub
  · exact hrecorded.setTime (by decide) _

theorem Guarded.markSent (h : c.Guarded reads) (plannedTimeUs : Int) {index : Int} {packet : Packet}
    (hpacket : c.udpSentPackets[index]? = some packet) :
    (c.markSent plannedTimeUs index packet).Guarded reads := by
  have hsent : ∀ (d : Connection) (measureIndex intervalUs size : Int),
      (d.onUdpSent measureIndex intervalUs size).endReads = d.endReads := by
    intro d measureIndex intervalUs size
    simp only [onUdpSent]
    split <;> rfl
  refine h.of (hsent _ _ _ _) ((c.markSent_frame plannedTimeUs index packet).2.2 _) ?_ ?_
  · rw [markSent_toEndpoint]
  · intro key hkey
    rw [markSent_toEndpoint] at hkey
    exact (mem_insert_of_mem hpacket _ key).mp hkey

theorem Guarded.udpWritePacket (h : c.Guarded reads) (plannedTimeUs : Int) {index : Int} {packet : Packet}
    (hpacket : c.udpSentPackets[index]? = some packet) (hconfirmed : packet.confirmed = false) :
    (c.udpWritePacket plannedTimeUs index packet).Guarded reads := by
  have hrecorded : ({ c with toSender := c.toSender.record (.writeto packet.wire) } :
      Connection).Guarded reads := h.of rfl rfl rfl fun _ => id
  rw [udpWritePacket_eq c plannedTimeUs index packet hconfirmed]
  simp only
  split
  · have hmarked := hrecorded.markSent plannedTimeUs hpacket
    split
    · exact (hmarked.setTimeRelativeNow (by decide) _).setTime (by decide) _
    · exact hmarked.setTimeRelativeNow (by decide) _
  · split
    · exact hrecorded.setTime (by decide) _
    · exact hrecorded

theorem Guarded.udpWrite (h : c.Guarded reads) (hwellFormed : c.toSender.WellFormed) (plannedTimeUs : Int) :
    (c.udpWrite plannedTimeUs).Guarded reads := by
  simp only [Connection.udpWrite]
  split
  · exact h
  · split
    · exact h.udpWriteConfirmation _ _ _
    · split
      · rename_i index packet hfirst
        have hpacket := (c.firstUnsent_eq_some hfirst).1
        exact h.udpWritePacket _ hpacket (hwellFormed.sent_unconfirmed index packet hpacket)
      · exact h

theorem Guarded.dropConfirmations (h : c.Guarded reads) : c.dropConfirmations.Guarded reads := by
  have hfold : ∀ (packets : List Packet) (d : Connection), d.Guarded reads →
      (packets.foldl (fun c packet => c.onUdpSentBufferChanged (-packet.getSize)) d).Guarded reads := by
    intro packets
    induction packets with
    | nil => exact fun _ hd => hd
    | cons packet packets ih =>
        exact fun d hd => ih _ (guarded_onUdpSentBufferChanged hd.reads_sub _)
  apply hfold
  exact h.of rfl rfl rfl fun _ => id

theorem Guarded.foldl_pushConfirmation (h : c.Guarded reads) (payloads : List (List UInt8)) :
    (payloads.foldl pushConfirmation c).Guarded reads := by
  induction payloads generalizing c with
  | nil => exact h
  | cons payload payloads ih =>
      apply ih
      apply guarded_onUdpSentBufferChanged
      exact h.reads_sub

theorem Guarded.buildConfirmations (h : c.Guarded reads) : c.buildConfirmations.Guarded reads := by
  cases hudp : c.udpConnected with
  | false =>
      simp only [Connection.buildConfirmations, hudp, Bool.not_false, if_true]
      exact h
  | true =>
      have hqueued := h.dropConfirmations.foldl_pushConfirmation
        c.dropConfirmations.confirmationPayloads
      have hall : c.confirmAll.Guarded reads := by
        simp only [confirmAll]
        generalize c.dropConfirmations.confirmationPayloads.foldl pushConfirmation
          c.dropConfirmations = d at hqueued
        have hsettled : ({ d with udpConfirmedMasterIndex := d.udpReceivedMasterIndex } :
            Connection).Guarded reads := hqueued.of rfl rfl rfl fun _ => id
        exact hsettled.setEventUdpWrite.receiver _
      have hcounted : ({ c.confirmAll with
          remainConfirmationResendCount := c.confirmAll.remainConfirmationResendCount - 1 } :
          Connection).Guarded reads := hall.of rfl rfl rfl fun _ => id
      rw [buildConfirmations_eq c hudp]
      simp only
      split
      · exact hcounted.setTimeRelativeNow (by decide) _
      · exact hcounted

theorem Guarded.buildByeBye (h : c.Guarded reads) : c.buildByeBye.Guarded reads := by
  cases hudp : c.udpConnected with
  | false =>
      simp only [Connection.buildByeBye, hudp, Bool.not_false, if_true]
      exact h
  | true =>
      have hqueued : c.queueByeBye.Guarded reads := by
        apply Guarded.setEventUdpWrite
        apply guarded_onUdpSentBufferChanged
        exact h.reads_sub
      have hcounted : ({ c.queueByeBye with
          remainByeByeResendCount := c.queueByeBye.remainByeByeResendCount - 1 } :
          Connection).Guarded reads := hqueued.of rfl rfl rfl fun _ => id
      rw [buildByeBye_eq c hudp]
      simp only
      split
      · exact hcounted.setTimeRelativeNow (by decide) _
      · exact hcounted

theorem Guarded.udpResendLoop (h : c.Guarded reads) (timeUs : Int) (indices : List Int) :
    (udpResendLoop timeUs indices c).Guarded reads := by
  refine udpResendLoop_invariant timeUs (fun _ hd => hd) (fun d index packet hd hpacket => ?_)
    (fun d laterUs hd => hd.setTime (by decide) laterUs) (fun d hd => hd.udpClose) indices h
  have hlost : (d.markLost index packet).Guarded reads :=
    hd.of rfl rfl rfl fun key hkey => (mem_insert_of_mem hpacket _ key).mp hkey
  exact hlost.setEventUdpWrite

theorem Guarded.udpResend (h : c.Guarded reads) : c.udpResend.Guarded reads := by
  simp only [Connection.udpResend]
  split
  · exact h
  · have hticked : c.tick.Guarded reads := h.of rfl rfl rfl fun _ => id
    exact hticked.udpResendLoop _ _

end Transmitting

section Receiving

theorem Guarded.confirmPacket (h : c.Guarded reads) (index : Int) : (c.confirmPacket index).Guarded reads := by
  simp only [Connection.confirmPacket]
  split
  · exact h
  · have herased : ∀ (d : Connection) (size : Int), reads ⊆ d.endReads →
        ({ d.onUdpSentBufferChanged size with
          udpSentPackets := (d.onUdpSentBufferChanged size).udpSentPackets.erase index } :
          Connection).Guarded reads := by
      intro d size hd
      refine (guarded_onUdpSentBufferChanged hd size).of rfl rfl rfl fun key hkey => ?_
      rw [Std.ExtTreeMap.mem_erase] at hkey
      exact hkey.2
    apply herased
    split <;> split <;> exact h.reads_sub

theorem Guarded.foldl_confirmPacket (h : c.Guarded reads) (indices : List Int) :
    (indices.foldl Connection.confirmPacket c).Guarded reads := by
  induction indices generalizing c with
  | nil => exact h
  | cons index indices ih => exact ih (h.confirmPacket index)

theorem Guarded.udpReadConfirmation (h : c.Guarded reads) (packet : Packet) :
    (c.udpReadConfirmation packet).Guarded reads := by
  have hfold := h.foldl_confirmPacket (c.confirmedIndices packet)
  rw [udpReadConfirmation_eq]
  simp only
  generalize (c.confirmedIndices packet).foldl Connection.confirmPacket c = d at hfold
  have hresend : (if d.udpPacketsToSendCount ≥ d.udpSentPackets.size then d.disable .udpResend
      else d).Guarded reads := by
    split
    · exact hfold.disable _
    · exact hfold
  generalize (if d.udpPacketsToSendCount ≥ d.udpSentPackets.size then d.disable .udpResend
    else d) = e at hresend
  split
  · have hcounted : ({ e with remainByeByeResendCount := e.confirmationResendCount } :
        Connection).Guarded reads := hresend.of rfl rfl rfl fun _ => id
    exact hcounted.setTimeRelativeNow (by decide) _
  · exact hresend

theorem Guarded.storePacket (h : c.Guarded reads) (packet : Packet) : (c.storePacket packet).Guarded reads := by
  have hfake := (h.receiver (c.toReceiver.accept packet)).tcpWriteFake
  simp only [Connection.storePacket]
  split <;> split
  · exact (hfake.setTimeRelativeNow (by decide) _).setTimeRelativeNow (by decide) _
  · exact hfake.setTimeRelativeNow (by decide) _
  · exact hfake.setTimeRelativeNow (by decide) _
  · exact hfake

theorem Guarded.udpReadPacket (h : c.Guarded reads) (packet : Packet) :
    (c.udpReadPacket packet).Guarded reads := by
  have hrearm : ∀ d : Connection, d.Guarded reads → d.rearm.Guarded reads := by
    intro d hd
    have hcounted : ({ d with remainConfirmationResendCount := d.confirmationResendCount } :
        Connection).Guarded reads := hd.of rfl rfl rfl fun _ => id
    exact hcounted.setTimeRelativeNow (by decide) _
  rw [udpReadPacket_eq]
  apply hrearm
  split
  · exact h
  · exact h.storePacket packet

theorem Guarded.udpReadByeBye (h : c.Guarded reads) (packet : Packet) :
    (c.udpReadByeBye packet).Guarded reads := by
  have hread : ({ c with
      remainConfirmationResendCount := 0
      toReceiver := c.toReceiver.record (.byeBye packet.wire) } : Connection).Guarded reads :=
    h.of rfl rfl rfl fun _ => id
  have hdropped := (hread.disable .buildConfirmations).dropConfirmations
  simp only [Connection.udpReadByeBye]
  split
  · exact hdropped.setTimeRelativeNow (by decide) _
  · exact hdropped

theorem Guarded.udpRead (h : c.Guarded reads) (packet : Packet) : (c.udpRead packet).Guarded reads := by
  simp only [Connection.udpRead]
  split
  · exact h
  · apply Guarded.closeIfUdpFinished
    split
    · exact h.udpReadConfirmation packet
    · split
      · exact h.udpReadPacket packet
      · split
        · exact h.udpReadByeBye packet
        · exact h

end Receiving

theorem Guarded.handle (h : c.Guarded reads) (hwellFormed : c.toSender.WellFormed) (event : EventName)
    (plannedTimeUs : Int) : (c.handle event plannedTimeUs).Guarded reads := by
  cases event with
  | tcpRead => exact h.tcpRead
  | tcpWrite => exact h.tcpWrite
  | tcpClose => exact h.tcpClose _
  | udpWrite => exact h.udpWrite hwellFormed plannedTimeUs
  | udpClose => exact h.udpClose
  | buildUdpPackets => exact h.buildUdpPackets true
  | buildConfirmations => exact h.buildConfirmations
  | buildByeBye => exact h.buildByeBye
  | udpResend => exact h.udpResend
  | udpCloseWait => exact h.closeIfUdpFinished
  | close => exact h.of rfl rfl rfl fun _ => id

section Supply

/-- The packets that can still be made without reading TCP: one of the bytes that wait,
and the last one. -/
def spare (c : Connection) : Int :=
  (if c.tcpReceivedData = [] then 0 else 1) + (if c.tcpConnected then 1 else 0)

/-- While the UDP side stays up, nothing is made or read. -/
def Keeps (c d : Connection) : Prop :=
  d.udpConnected = true → d.tcpReceivedData = c.tcpReceivedData ∧
    d.tcpConnected = c.tcpConnected ∧ d.udpNextSendIndex = c.udpNextSendIndex

theorem spare_nonneg : 0 ≤ c.spare := by
  simp only [spare]
  split <;> split <;> decide

theorem spare_le : c.spare ≤ 2 := by
  simp only [spare]
  split <;> split <;> decide

theorem Keeps.closeIfUdpFinished (h : c.Keeps d) : c.Keeps d.closeIfUdpFinished := by
  rcases d.closeIfUdpFinished_eq with ⟨-, heq⟩ | ⟨-, finished, heq⟩
  · rw [heq]
    exact h
  · rw [heq]
    intro hudp
    rw [udpClose_udpConnected] at hudp
    cases hudp

theorem keeps_udpClose (c d : Connection) : c.Keeps d.udpClose := by
  intro hudp
  rw [udpClose_udpConnected] at hudp
  cases hudp

variable (c)

theorem udpWrite_keeps (plannedTimeUs : Int) : c.Keeps (c.udpWrite plannedTimeUs) := by
  simp only [udpWrite]
  split
  · exact fun _ => ⟨rfl, rfl, rfl⟩
  · split
    · simp only [udpWriteConfirmation]
      split
      · split
        · apply Keeps.closeIfUdpFinished
          exact fun _ => by simp [Sender.record]
        · split <;> exact fun _ => by simp [Sender.record]
      · exact fun _ => by simp [Sender.record]
    · split
      · simp only [udpWritePacket]
        split
        · split
          · split
            · apply Keeps.closeIfUdpFinished
              exact fun _ => by simp [Sender.record]
            · split <;> exact fun _ => by simp [Sender.record]
          · split <;> exact fun _ => by simp [Sender.record]
        · split <;> exact fun _ => by simp [Sender.record]
      · exact fun _ => ⟨rfl, rfl, rfl⟩

theorem buildConfirmations_keeps : c.Keeps c.buildConfirmations := by
  rw [Keeps]
  cases hudp : c.udpConnected with
  | false => simp [buildConfirmations, hudp]
  | true => simp [buildConfirmations_toEndpoint_eq c hudp]

theorem buildByeBye_keeps : c.Keeps c.buildByeBye := by
  simp only [buildByeBye]
  split
  · exact fun _ => ⟨rfl, rfl, rfl⟩
  · split <;> exact fun _ => by simp [Sender.record]

theorem udpResendLoop_keeps (timeUs : Int) (indices : List Int) :
    c.Keeps (udpResendLoop timeUs indices c) := by
  refine udpResendLoop_invariant timeUs (I := fun d => c.Keeps d) (fun _ hd => hd)
    (fun d index packet hd _ => ?_) (fun _ _ hd => hd) (fun d _ => keeps_udpClose c d) indices
    fun _ => ⟨rfl, rfl, rfl⟩
  rw [Keeps, setEventUdpWrite_toEndpoint, markLost_toEndpoint]
  exact hd

theorem udpResend_keeps : c.Keeps c.udpResend := by
  simp only [udpResend]
  split
  · exact fun _ => ⟨rfl, rfl, rfl⟩
  · exact udpResendLoop_keeps c.tick _ _

theorem udpRead_keeps (packet : Packet) : c.Keeps (c.udpRead packet) := by
  simp only [udpRead]
  split
  · exact fun _ => ⟨rfl, rfl, rfl⟩
  · apply Keeps.closeIfUdpFinished
    split
    · obtain ⟨packets, count, heq, -⟩ :=
        c.foldl_confirmPacket_toEndpoint (c.confirmedIndices packet)
      rw [udpReadConfirmation_eq]
      simp only
      split <;> split <;> exact fun _ => by simp [heq]
    · split
      · obtain ⟨r, hr⟩ := c.udpReadPacket_toEndpoint packet
        exact fun _ => by simp [hr]
      · split
        · simp only [udpReadByeBye]
          split <;> exact fun _ => by simp [dropConfirmations_toEndpoint]
        · exact fun _ => ⟨rfl, rfl, rfl⟩

section Building

variable (flush : Bool)

theorem buildUdpPacketsLoop_next_le (hsize : 0 < c.udpSendPacketSize) (fuel : Nat)
    {rest : List UInt8} {k : Nat} (hrest : (rest.length : Int) ≤ k * c.udpSendPacketSize) :
    (buildUdpPacketsLoop flush fuel rest c).1.udpNextSendIndex ≤ c.udpNextSendIndex + k := by
  induction fuel generalizing rest c k with
  | zero => exact Int.le.intro k rfl
  | succ fuel ih =>
      simp only [buildUdpPacketsLoop]
      split
      · exact Int.le.intro k rfl
      · rename_i hempty
        split
        · exact Int.le.intro k rfl
        · have hpos : 0 < rest.length := by
            rw [List.length_pos_iff]
            simpa using hempty
          cases k with
          | zero => omega
          | succ k =>
              have hsum : ((k + 1 : Nat) : Int) * c.udpSendPacketSize =
                  k * c.udpSendPacketSize + c.udpSendPacketSize := by
                rw [Nat.cast_succ, Int.add_mul, Int.one_mul]
              have hnonneg : 0 ≤ (k : Int) * c.udpSendPacketSize :=
                Int.mul_nonneg (Int.natCast_nonneg k) hsize.le
              generalize hn : (min (rest.length : Int) c.udpSendPacketSize).toNat = n
              let turn := ((c.push .data (rest.take n)).setEventUdpWrite).onUdpSentBufferChanged
                (rest.take n).length
              have hconfig : turn.udpSendPacketSize = c.udpSendPacketSize := by simp [turn]
              have hnext : turn.udpNextSendIndex = c.udpNextSendIndex + 1 := by simp [turn]
              have hdropped : ((rest.drop n).length : Int) ≤ k * turn.udpSendPacketSize := by
                rw [hconfig, List.length_drop]
                omega
              have hturn := ih turn (hconfig ▸ hsize) hdropped
              change (buildUdpPacketsLoop flush fuel (rest.drop n) turn).1.udpNextSendIndex ≤ _
              push_cast
              omega

theorem buildUdpPacketsLoop_rest_lt (hsize : 0 < c.udpSendPacketSize) {fuel : Nat} {rest : List UInt8}
    (hfuel : rest.length ≤ fuel) :
    ((buildUdpPacketsLoop flush fuel rest c).2.length : Int) < c.udpSendPacketSize := by
  induction fuel generalizing rest c with
  | zero =>
      simp only [buildUdpPacketsLoop]
      omega
  | succ fuel ih =>
      simp only [buildUdpPacketsLoop]
      split
      · rename_i hempty
        rw [List.isEmpty_iff.mp hempty]
        exact hsize
      · rename_i hempty
        have hpos : 0 < rest.length := by
          rw [List.length_pos_iff]
          simpa using hempty
        split
        · rename_i hstop
          simp only [Bool.or_eq_true, Bool.and_eq_true, Bool.not_eq_true', decide_eq_true_eq] at hstop
          change (rest.length : Int) < _
          omega
        · generalize hn : (min (rest.length : Int) c.udpSendPacketSize).toNat = n
          let turn := ((c.push .data (rest.take n)).setEventUdpWrite).onUdpSentBufferChanged
            (rest.take n).length
          have hconfig : turn.udpSendPacketSize = c.udpSendPacketSize := by simp [turn]
          have hdropped : (rest.drop n).length ≤ fuel := by
            rw [List.length_drop]
            omega
          have hturn := ih turn (hconfig ▸ hsize) hdropped
          rwa [hconfig] at hturn

theorem buildUdpPackets_supply (hsize : 0 < c.udpSendPacketSize) (hudp : c.udpConnected = true)
    {k : Nat} (hdata : (c.tcpReceivedData.length : Int) ≤ k * c.udpSendPacketSize) :
    (c.buildUdpPackets flush).udpNextSendIndex ≤ c.udpNextSendIndex + k ∧
      ((c.buildUdpPackets flush).tcpReceivedData.length : Int) < c.udpSendPacketSize := by
  by_cases hfinal : c.udpReceivedFinalIndex = c.udpReceivedMasterIndex
  · rw [c.buildUdpPackets_final flush hudp hfinal]
    exact ⟨Int.le.intro k rfl, hsize⟩
  · have hnext := c.buildUdpPacketsLoop_next_le flush hsize c.tcpReceivedData.length hdata
    have hrest := c.buildUdpPacketsLoop_rest_lt flush hsize (le_refl c.tcpReceivedData.length)
    simp only [buildUdpPackets, hudp, Bool.not_true, Bool.false_eq_true, if_false, hfinal,
      buildReceivedData]
    split <;> split <;> exact ⟨hnext, hrest⟩

end Building

end Supply

section Handling

variable (c)

/-- A flush makes one packet at most. -/
theorem buildUdpPackets_flush_supply (hudp : c.udpConnected = true)
    (hdata : c.tcpReceivedData ≠ [] → (c.tcpReceivedData.length : Int) < c.udpSendPacketSize) :
    (c.buildUdpPackets true).udpNextSendIndex + (c.buildUdpPackets true).spare ≤
        c.udpNextSendIndex + c.spare ∧
      (c.buildUdpPackets true).tcpReceivedData = [] := by
  by_cases hnil : c.tcpReceivedData = []
  · have hend := c.buildUdpPackets_nil true hnil
    simp only [spare, hend, hnil]
    exact ⟨le_refl _, trivial⟩
  · have hlt := hdata hnil
    have hsize : 0 < c.udpSendPacketSize := by omega
    have hone : (c.tcpReceivedData.length : Int) ≤ (1 : Nat) * c.udpSendPacketSize := by
      rw [Nat.cast_one, Int.one_mul]
      exact hlt.le
    obtain ⟨hnext, -⟩ := c.buildUdpPackets_supply true hsize hudp hone
    obtain ⟨s, hs⟩ := c.buildUdpPackets_toEndpoint true
    have hflushed : (c.buildUdpPackets true).tcpReceivedData = [] := by
      rcases c.buildUdpPackets_flushed hudp with hempty | hle
      · exact hempty
      · rw [hs] at hle
        exact absurd hsize (not_lt.mpr hle)
    have htcp : (c.buildUdpPackets true).tcpConnected = c.tcpConnected := by rw [hs]
    refine ⟨?_, hflushed⟩
    simp only [spare, hflushed, htcp, hnil, if_true, if_false]
    push_cast at hnext
    omega

theorem tcpClose_supply (error : Bool) (hudp : c.udpConnected = true)
    (hdata : c.tcpReceivedData ≠ [] → (c.tcpReceivedData.length : Int) < c.udpSendPacketSize) :
    (c.tcpClose error).udpNextSendIndex + (c.tcpClose error).spare ≤
        c.udpNextSendIndex + c.spare ∧
      ((c.tcpClose error).tcpReceivedData = [] ∨
        (c.tcpClose error).tcpReceivedData = c.tcpReceivedData) := by
  cases htcp : c.tcpConnected with
  | false =>
      have hsame : c.tcpClose error = c := by simp [tcpClose, htcp]
      rw [hsame]
      exact ⟨le_refl _, .inr rfl⟩
  | true =>
      let b := (({ c with tcpConnected := false }.disable .tcpRead).disable .tcpWrite).tcpWriteFake
      obtain ⟨r, hr, -⟩ := tcpWriteFake_steps (N := fun _ => True)
        (({ c with tcpConnected := false }.disable .tcpRead).disable .tcpWrite)
      have hb : b.toEndpoint = { c.toEndpoint with tcpConnected := false, toReceiver := r } := hr
      obtain ⟨hnext, hempty⟩ := b.buildUdpPackets_flush_supply (by rw [hb]; exact hudp)
        (by rw [hb]; exact hdata)
      obtain ⟨s, hs⟩ := b.buildUdpPackets_toEndpoint true
      have heq : c.tcpClose error = (((b.buildUdpPackets true).push
          (if error then .disconnect else .bye) []).onUdpSentBufferChanged 0).setEventUdpWrite := by
        simp [tcpClose, htcp, hudp, b]
      have hend : (c.tcpClose error).toEndpoint = { (b.buildUdpPackets true).toEndpoint with
          toSender := (b.buildUdpPackets true).toSender.push (b.buildUdpPackets true).udpResendCount
            (if error then .disconnect else .bye) [] } := by
        rw [heq, setEventUdpWrite_toEndpoint, onUdpSentBufferChanged_toEndpoint, push_toEndpoint]
      have htcpB : (b.buildUdpPackets true).tcpConnected = false := by rw [hs, hb]
      have hdataC : (c.tcpClose error).tcpReceivedData = [] := by
        rw [hend]
        exact hempty
      refine ⟨?_, .inl hdataC⟩
      simp only [spare, hb, hempty, htcpB, hdataC, (c.tcpClose_ends error).1, htcp, if_true,
        Bool.false_eq_true, if_false] at hnext ⊢
      rw [hend, Sender.push_udpNextSendIndex]
      split at hnext <;> split <;> first | omega | contradiction

theorem handle_supply (hudp : c.udpConnected = true) {event : EventName} (hevent : event ≠ .tcpRead)
    (plannedTimeUs : Int)
    (hdata : c.tcpReceivedData ≠ [] → (c.tcpReceivedData.length : Int) < c.udpSendPacketSize)
    (hopen : (c.handle event plannedTimeUs).udpConnected = true) :
    (c.handle event plannedTimeUs).udpNextSendIndex + (c.handle event plannedTimeUs).spare ≤
        c.udpNextSendIndex + c.spare ∧
      ((c.handle event plannedTimeUs).tcpReceivedData = [] ∨
        (c.handle event plannedTimeUs).tcpReceivedData = c.tcpReceivedData) := by
  have hkeeps : ∀ d : Connection, c.Keeps d → d.udpConnected = true →
      d.udpNextSendIndex + d.spare ≤ c.udpNextSendIndex + c.spare ∧
        (d.tcpReceivedData = [] ∨ d.tcpReceivedData = c.tcpReceivedData) := by
    intro d hd hopenD
    obtain ⟨hdataD, htcpD, hnextD⟩ := hd hopenD
    simp only [spare, hdataD, htcpD, hnextD]
    exact ⟨le_refl _, .inr trivial⟩
  cases event with
  | tcpRead => exact absurd rfl hevent
  | tcpWrite =>
      obtain ⟨r, hr, -⟩ := c.tcpWriteLoop_toEndpoint false c.tcpWriteFuel
      simp only [handle, tcpWrite]
      generalize tcpWriteLoop false c.tcpWriteFuel c = result at hr
      have hnext : result.1.udpNextSendIndex = c.udpNextSendIndex := by rw [hr]
      have hspare : result.1.spare = c.spare := by simp only [spare, hr]
      have hsame : result.1.tcpReceivedData = c.tcpReceivedData := by rw [hr]
      have hclose := result.1.tcpClose_supply false (by rw [hr]; exact hudp) (by rw [hr]; exact hdata)
      rw [hnext, hspare, hsame] at hclose
      split
      · exact ⟨le_refl _, .inr rfl⟩
      · split
        · exact hclose
        · rw [hnext, hspare]
          exact ⟨le_refl _, .inr hsame⟩
  | tcpClose => exact c.tcpClose_supply c.io.tcpWasError hudp hdata
  | udpWrite => exact hkeeps _ (c.udpWrite_keeps plannedTimeUs) hopen
  | udpClose => exact hkeeps _ (keeps_udpClose c c) hopen
  | buildUdpPackets =>
      obtain ⟨hnext, hempty⟩ := c.buildUdpPackets_flush_supply hudp hdata
      exact ⟨hnext, .inl hempty⟩
  | buildConfirmations => exact hkeeps _ c.buildConfirmations_keeps hopen
  | buildByeBye => exact hkeeps _ c.buildByeBye_keeps hopen
  | udpResend => exact hkeeps _ c.udpResend_keeps hopen
  | udpCloseWait =>
      have hclosed : c.Keeps c.closeIfUdpFinished := Keeps.closeIfUdpFinished fun _ => ⟨rfl, rfl, rfl⟩
      exact hkeeps _ hclosed hopen
  | close => exact ⟨le_refl _, .inr rfl⟩

theorem tcpRead_toEndpoint_of_nothing (h : ¬(c.tcpConnected = true ∧ c.io.tcpBytes ≠ [])) :
    c.tcpRead.toEndpoint = c.toEndpoint := by
  rw [tcpRead]
  split
  · rfl
  · rename_i htcp
    have hnone : c.io.tcpBytes = [] := by
      by_contra hne
      exact h ⟨by simpa using htcp, hne⟩
    simp only [hnone, List.take_nil, if_true, onUdpSentBufferChanged_toEndpoint]

theorem tcpRead_supply (hudp : c.udpConnected = true) (htcp : c.tcpConnected = true)
    (hdata : c.tcpReceivedData ≠ [] → (c.tcpReceivedData.length : Int) < c.udpSendPacketSize) :
    c.tcpRead.udpNextSendIndex ≤ c.udpNextSendIndex + 2 ∧
      (c.tcpRead.tcpReceivedData ≠ [] →
        (c.tcpRead.tcpReceivedData.length : Int) < c.udpSendPacketSize) := by
  simp only [tcpRead, htcp, Bool.not_true, Bool.false_eq_true, if_false,
    onUdpSentBufferChanged_toEndpoint]
  generalize hbytes : c.io.tcpBytes.take c.udpSendPacketSize.toNat = bytes
  split
  · exact ⟨Int.le.intro 2 rfl, hdata⟩
  · rename_i hne
    have hlength : bytes.length ≤ c.udpSendPacketSize.toNat := by
      rw [← hbytes]
      exact List.length_take_le _ _
    have hpos : 0 < bytes.length := List.length_pos_iff.mpr hne
    have hsize : 0 < c.udpSendPacketSize := by omega
    have hsum : ((c.tcpReceivedData ++ bytes).length : Int) ≤ (2 : Nat) * c.udpSendPacketSize := by
      rw [List.length_append]
      push_cast
      by_cases hnil : c.tcpReceivedData = []
      · rw [hnil]
        simp only [List.length_nil]
        omega
      · have hlt := hdata hnil
        omega
    obtain ⟨hnext, hrest⟩ := buildUdpPackets_supply
      ({ c with toSender :=
        { c.toSender.record (.read bytes) with tcpReceivedData := c.tcpReceivedData ++ bytes } })
      false hsize hudp hsum
    exact ⟨hnext, fun _ => hrest⟩

end Handling

/-- As long as nothing arrives, `udpSentPackets` keeps its keys and gets the new ones. -/
theorem mem_sent_of_steps {e e' : Endpoint} (hsound : e.Sound)
    (hsteps : Protocol.Steps (fun _ => False) e e') (hudp : e'.udpConnected = true) (key : Int) :
    key ∈ e'.udpSentPackets ↔
      key ∈ e.udpSentPackets ∨ (e.udpNextSendIndex ≤ key ∧ key < e'.udpNextSendIndex) := by
  have hpush : ∀ (f : Endpoint) (type : PacketType) (payload : List UInt8),
      (∀ key, key ∈ f.udpSentPackets ↔
        key ∈ e.udpSentPackets ∨ (e.udpNextSendIndex ≤ key ∧ key < f.udpNextSendIndex)) →
      e.udpNextSendIndex ≤ f.udpNextSendIndex →
      ∀ key, key ∈ (f.toSender.push f.udpResendCount type payload).udpSentPackets ↔
        key ∈ e.udpSentPackets ∨ (e.udpNextSendIndex ≤ key ∧ key < f.udpNextSendIndex + 1) := by
    intro f type payload hf hle key
    simp only [Sender.push, Std.ExtTreeMap.mem_insert, compare_eq_iff_eq, hf]
    constructor
    · rintro (rfl | hold | hnew)
      · exact .inr ⟨hle, Int.lt_succ _⟩
      · exact .inl hold
      · exact .inr ⟨hnew.1, by omega⟩
    · rintro (hold | hnew)
      · exact .inr (.inl hold)
      · by_cases hlast : f.udpNextSendIndex = key
        · exact .inl hlast
        · exact .inr (.inr ⟨hnew.1, by omega⟩)
  have hchain := Runs.chain_invariant (I := fun f => f.Sound ∧
      e.udpNextSendIndex ≤ f.udpNextSendIndex ∧
      (f.udpConnected = true → ∀ key, key ∈ f.udpSentPackets ↔
        key ∈ e.udpSentPackets ∨ (e.udpNextSendIndex ≤ key ∧ key < f.udpNextSendIndex)))
    (fun f f' hf hstep => ?_) hsteps ⟨hsound, le_refl _, fun _ key => by simp⟩
  · exact hchain.2.2 hudp key
  · obtain ⟨hsoundF, hle, hkeys⟩ := hf
    refine ⟨hsoundF.step hstep, hle.trans (Protocol.udpNextSendIndex_le hstep), fun hopen => ?_⟩
    cases hstep with
    | create payload rest => exact hpush f _ _ (hkeys hopen) hle
    | close type => exact hpush f _ _ (hkeys hopen) hle
    | skipClosing packet => exact hpush f _ _ (hkeys hopen) hle
    | transmit index packet timeUs measureIndex hpacket =>
        intro key
        rw [mem_insert_of_mem hpacket]
        exact hkeys hopen key
    | resend index packet hpacket =>
        intro key
        rw [mem_insert_of_mem hpacket]
        exact hkeys hopen key
    | eraseComplete index packet hpacket hcomplete =>
        have hconfirmed := hsoundF.sending.wellFormed.sent_unconfirmed index packet hpacket
        simp [Packet.isComplete, hconfirmed] at hcomplete
    | forget index packet confirmation hnet => exact hnet.elim
    | closeUdp => cases hopen
    | _ => exact hkeys hopen

/-- The send buffer has room, but for the packets that can be made without reading. -/
structure Throttled (c : Connection) : Prop where
  data_lt : c.tcpReceivedData ≠ [] → (c.tcpReceivedData.length : Int) < c.udpSendPacketSize
  span_le : ∀ key ∈ c.udpSentPackets, c.udpNextSendIndex - 1 - key + c.spare ≤
    max (c.udpMaxSentBufferSize.tdiv c.udpSendPacketSize + 4) 1

theorem Throttled.keySpan_le (h : c.Throttled) (hwellFormed : c.toSender.WellFormed) :
    c.keySpan ≤ max (c.udpMaxSentBufferSize.tdiv c.udpSendPacketSize + 4) 1 := by
  cases hkeys : c.udpSentPackets.keys with
  | nil =>
      simp only [Session.keySpan, hkeys, List.getLastD_nil, List.headD_nil]
      omega
  | cons first keys =>
      have hne : c.udpSentPackets.keys ≠ [] := by simp [hkeys]
      have hlast : c.udpSentPackets.keys.getLastD 0 ∈ c.udpSentPackets :=
        SortedKeys.getLastD_keys_mem hne
      obtain ⟨p, hp⟩ := Option.isSome_iff_exists.mp (Std.ExtTreeMap.mem_iff_isSome_getElem?.mp hlast)
      have hlt := (hwellFormed.lt_next hp).2
      have hspan := h.span_le (c.udpSentPackets.keys.headD 0) (SortedKeys.headD_keys_mem hne)
      have hspare := c.spare_nonneg
      simp only [Session.keySpan]
      omega

theorem udpRead_sent {packet : Packet} (htype : packet.getType ≠ .confirmation)
    (hopen : (c.udpRead packet).udpConnected = true) :
    (c.udpRead packet).udpSentPackets = c.udpSentPackets := by
  have hclose : ∀ d : Connection, d.udpSentPackets = c.udpSentPackets →
      d.closeIfUdpFinished.udpConnected = true →
      d.closeIfUdpFinished.udpSentPackets = c.udpSentPackets := by
    intro d hd hopenD
    rcases d.closeIfUdpFinished_eq with ⟨-, heq⟩ | ⟨-, finished, heq⟩
    · rw [heq]
      exact hd
    · rw [heq, udpClose_udpConnected] at hopenD
      cases hopenD
  simp only [udpRead, htype, if_false] at hopen ⊢
  split at hopen
  · rename_i hudp
    rw [if_pos hudp]
  · rename_i hudp
    rw [if_neg hudp]
    refine hclose _ ?_ hopen
    split
    · obtain ⟨r, hr⟩ := c.udpReadPacket_toEndpoint packet
      rw [hr]
    · split
      · simp only [udpReadByeBye]
        split <;> simp [dropConfirmations_toEndpoint]
      · rfl

/-- TCP is not read while packets confirmed out of turn hide from the key span how far the
next index is ahead of the least key. -/
def Unhidden (c : Connection) : Move → Prop
  | .raise .tcpRead _ io => io.tcpBytes ≠ [] → ∀ key ∈ c.udpSentPackets.keys,
      c.udpNextSendIndex - 1 ∈ c.udpSentPackets ∨
        c.udpNextSendIndex - 1 - key ≤ c.udpMaxSentBufferSize.tdiv c.udpSendPacketSize
  | _ => True

instance (c : Connection) (m : Move) : Decidable (c.Unhidden m) := by
  unfold Unhidden
  split <;> infer_instance

section Steps

variable {m : Move}

theorem udpConnected_of_step (hm : c.step m = some d) (hudp : d.udpConnected = true) :
    c.udpConnected = true := by
  by_contra hclosed
  rw [Bool.not_eq_true] at hclosed
  have hend := Runs.chain_invariant (I := fun e => e.udpConnected = false)
    (fun _ _ he hstep => (Protocol.udpClosed_step hstep he).1)
    (step_refines (N := fun _ => True) hm fun _ _ => trivial) hclosed
  rw [hudp] at hend
  cases hend

theorem Guarded.step (h : c.Guarded []) (hsound : c.toEndpoint.Sound) (hm : c.step m = some d) :
    d.Guarded c.endReads := by
  cases m with
  | «raise» event timeUs io =>
      simp only [Connection.step, Option.ite_none_right_eq_some, Option.some.injEq] at hm
      obtain ⟨-, rfl⟩ := hm
      have hread : ({ c with io := io } : Connection).Guarded c.endReads :=
        ⟨List.Subset.refl _, h.keySpan_le⟩
      exact (hread.disable event).handle hsound.sending.wellFormed event _
  | udpRead packet io =>
      simp only [Connection.step, Option.ite_none_left_eq_some, Option.some.injEq] at hm
      obtain ⟨-, rfl⟩ := hm
      have hread : ({ c with io := io } : Connection).Guarded c.endReads :=
        ⟨List.Subset.refl _, h.keySpan_le⟩
      exact hread.udpRead packet.wire

theorem Throttled.tcpRead (hbuffer : 0 ≤ c.udpMaxSentBufferSize.tdiv c.udpSendPacketSize)
    (hroom : ∀ key ∈ c.udpSentPackets,
      c.udpNextSendIndex - 1 - key ≤ c.udpMaxSentBufferSize.tdiv c.udpSendPacketSize)
    (hconfig : d.toConfig = c.toConfig)
    (hkeys : ∀ key, key ∈ d.udpSentPackets ↔ key ∈ c.udpSentPackets ∨
      c.udpNextSendIndex ≤ key ∧ key < d.udpNextSendIndex)
    (hbound : d.udpNextSendIndex ≤ c.udpNextSendIndex + 2)
    (hdata : d.tcpReceivedData ≠ [] → (d.tcpReceivedData.length : Int) < c.udpSendPacketSize) :
    d.Throttled := by
  have hspare : d.spare ≤ 2 := d.spare_le
  refine ⟨by rw [hconfig]; exact hdata, fun key hkey => ?_⟩
  rw [hconfig]
  rcases (hkeys key).mp hkey with hold | hnew
  · have hle := hroom key hold
    omega
  · omega

theorem Throttled.of_supply (h : c.Throttled) (hconfig : d.toConfig = c.toConfig)
    (hkeys : ∀ key, key ∈ d.udpSentPackets ↔ key ∈ c.udpSentPackets ∨
      c.udpNextSendIndex ≤ key ∧ key < d.udpNextSendIndex)
    (hsum : d.udpNextSendIndex + d.spare ≤ c.udpNextSendIndex + c.spare)
    (hdata : d.tcpReceivedData = [] ∨ d.tcpReceivedData = c.tcpReceivedData) : d.Throttled := by
  refine ⟨?_, fun key hkey => ?_⟩
  · rw [hconfig]
    rcases hdata with hnil | hsame
    · exact fun hne => absurd hnil hne
    · rw [hsame]
      exact h.data_lt
  · rw [hconfig]
    rcases (hkeys key).mp hkey with hold | hnew
    · have hspan := h.span_le key hold
      omega
    · have hspare : c.spare ≤ 2 := c.spare_le
      omega

theorem Throttled.raise (h : c.Throttled) (hguarded : c.Guarded [])
    (hfits : ∀ r ∈ c.endReads, r.Fits) (hsound : c.toEndpoint.Sound)
    {event : EventName} {timeUs : Nat} {io : Io} (hok : c.Unhidden (.raise event timeUs io))
    (hm : c.step (.raise event timeUs io) = some d) (hudp : d.udpConnected = true) :
    d.Throttled := by
  have hopen := udpConnected_of_step hm hudp
  have hconfig := toConfig_of_step hm
  obtain ⟨-, henabled, -, hd⟩ := of_step_raise hm
  let b : Connection := ({ c with io := io } : Connection).disable event
  have hhandle : b.handle event (c.events event).timeUs = d := hd.symm
  have hsteps := hhandle ▸ b.handle_steps (N := fun _ => False) event (c.events event).timeUs
  have hkeys := mem_sent_of_steps (e := b.toEndpoint) hsound hsteps hudp
  by_cases hevent : event = .tcpRead
  · subst hevent
    by_cases hread : c.tcpConnected = true ∧ io.tcpBytes ≠ []
    · obtain ⟨hnextD, hdataD⟩ := b.tcpRead_supply hopen hread.1 h.data_lt
      rw [show b.tcpRead = d from hhandle] at hnextD hdataD
      have hspan := hguarded.keySpan_le hfits henabled
      refine Throttled.tcpRead (c.toSession.keySpan_nonneg.trans hspan) (fun key hkey => ?_) hconfig
        hkeys hnextD hdataD
      rcases hok hread.2 key (Std.ExtTreeMap.mem_keys.mpr hkey) with hlast | hroom
      · exact (c.toSession.sub_le_keySpan hkey hlast).trans hspan
      · exact hroom
    · have hsame : d.toEndpoint = c.toEndpoint := by
        rw [← show b.tcpRead = d from hhandle]
        exact b.tcpRead_toEndpoint_of_nothing hread
      refine h.of_supply hconfig hkeys ?_ ?_
      · simp only [spare, hsame]
        exact le_refl _
      · rw [hsame]
        exact .inr rfl
  · have hhandled := b.handle_supply hopen hevent (c.events event).timeUs h.data_lt
    rw [hhandle] at hhandled
    obtain ⟨hsum, hdata⟩ := hhandled hudp
    exact h.of_supply hconfig hkeys hsum hdata

theorem mem_sent_of_udpRead {packet : Packet} (hopen : c.udpConnected = true)
    (hudp : (c.udpRead packet).udpConnected = true) {key : Int}
    (hkey : key ∈ (c.udpRead packet).udpSentPackets) : key ∈ c.udpSentPackets := by
  by_cases htype : packet.getType = .confirmation
  · rw [Std.ExtTreeMap.mem_iff_isSome_getElem?, udpRead_removed hopen htype] at hkey
    split at hkey
    · cases hkey
    · exact Std.ExtTreeMap.mem_iff_isSome_getElem?.mpr hkey
  · rwa [udpRead_sent htype hudp] at hkey

theorem Throttled.udpRead (h : c.Throttled) {packet : Packet} {io : Io}
    (hm : c.step (.udpRead packet io) = some d) (hudp : d.udpConnected = true) : d.Throttled := by
  have hopen := udpConnected_of_step hm hudp
  have hconfig := toConfig_of_step hm
  simp only [Connection.step, Option.ite_none_left_eq_some, Option.some.injEq] at hm
  obtain ⟨-, rfl⟩ := hm
  obtain ⟨hdata, htcp, hnext⟩ := udpRead_keeps { c with io := io } packet.wire hudp
  have hspare : (({ c with io := io } : Connection).udpRead packet.wire).spare = c.spare := by
    simp only [spare, hdata, htcp]
  refine ⟨?_, fun key hkey => ?_⟩
  · rw [hconfig, hdata]
    exact h.data_lt
  · rw [hconfig, hnext, hspare]
    exact h.span_le key (mem_sent_of_udpRead (c := { c with io := io }) hopen hudp hkey)

end Steps

section Runs

variable {config : Config}

theorem guarded_initial (h : Initial config c) : c.Guarded [] := by
  obtain ⟨intervalUs, summaryUs, io, rfl⟩ := h
  simp only [new]
  refine Guarded.setTimeRelativeNow (Guarded.setTimeRelativeNow (Guarded.setTimeRelativeNow ?_
    (by decide) 0) (by decide) 0) (by decide) 0
  exact guarded_onUdpSentBufferChanged (List.nil_subset _) 0

theorem throttled_initial (h : Initial config c) : c.Throttled := by
  obtain ⟨intervalUs, summaryUs, io, rfl⟩ := h
  have hend := new_toEndpoint config intervalUs summaryUs io
  have hmem : ∀ key, key ∈ (Endpoint.initial config).udpSentPackets ↔ key = 0 := by
    intro key
    simp only [Endpoint.initial, Endpoint.blank, Sender.push, Std.ExtTreeMap.mem_insert,
      compare_eq_iff_eq, Std.ExtTreeMap.not_mem_empty, or_false]
    exact eq_comm
  refine ⟨fun hne => ?_, fun key hkey => ?_⟩
  · rw [hend] at hne
    exact absurd rfl hne
  · rw [hend, hmem] at hkey
    rw [hkey, spare, hend]
    simp only [Endpoint.initial, Endpoint.blank, Sender.push, if_true]
    omega

variable {ok : Connection → Move → Prop}

theorem guarded (h : Runs.Reachable (Initial config) step ok c) : c.Guarded [] := by
  induction h with
  | start hinit => exact guarded_initial hinit
  | next hreach _ hm ih => exact ⟨List.nil_subset _, (ih.step (sound hreach) hm).keySpan_le⟩

theorem throttled (h : Runs.Reachable (Initial config) step Unhidden c)
    (hfits : ∀ r ∈ c.endReads, r.Fits) (hudp : c.udpConnected = true) : c.Throttled := by
  induction h with
  | start hinit => exact throttled_initial hinit
  | @next b d m hreach hok hm ih =>
      have hguarded := guarded hreach
      have hsound := sound hreach
      have hearlier : ∀ r ∈ b.endReads, r.Fits := fun r hr =>
        hfits r ((hguarded.step hsound hm).reads_sub hr)
      have hthrottled := ih hearlier (udpConnected_of_step hm hudp)
      cases m with
      | «raise» event timeUs io =>
          exact hthrottled.raise hguarded hearlier hsound hok hm hudp
      | udpRead packet io => exact hthrottled.udpRead hm hudp

/-- The key span stays within the configured send buffer, but for the packets that are
made without reading TCP; and one call of `onUdpSentBufferChanged` holds TCP back as it should
if and only if the value it reads fits. -/
theorem keySpan_le_of_fits
    (hbuffer : -3 ≤ config.udpMaxSentBufferSize.tdiv config.udpSendPacketSize)
    (h : Runs.Reachable (Initial config) step Unhidden c) (hfits : ∀ r ∈ c.endReads, r.Fits)
    (hudp : c.udpConnected = true) :
    c.keySpan ≤ config.udpMaxSentBufferSize.tdiv config.udpSendPacketSize + 4 ∧
      ∀ (d : Connection) (sizeIncrement : Int),
        ((d.onUdpSentBufferChanged sizeIncrement).isEnabled .tcpRead = true →
          d.keySpan ≤ d.maxCount) ↔ ∀ r ∈ d.nextEndRead, r.Fits := by
  refine ⟨?_, fun d sizeIncrement => ?_⟩
  · have hle := (throttled h hfits hudp).keySpan_le (sound h).sending.wellFormed
    rw [toConfig_eq h] at hle
    omega
  · rw [isEnabled_tcpRead_onUdpSentBufferChanged]
    exact d.keySpan_le_iff_nextEndRead

/-- Three full packets are read, and the first of them and Hello are confirmed. -/
def smoothRun : List Move :=
  [.raise .tcpRead 0 { Io.steady 0 with tcpBytes := List.replicate 10 7 },
    .raise .tcpRead 0 { Io.steady 0 with tcpBytes := List.replicate 10 7 },
    .udpRead (.datagram .confirmation 2 []) (Io.steady 0),
    .raise .tcpRead 0 { Io.steady 0 with tcpBytes := List.replicate 10 7 }]

theorem smoothRun_isSome :
    (Runs.run step Unhidden (fresh Config.small) smoothRun).isSome = true := by
  decide +kernel

theorem keySpan_le_of_fits_smoothRun :
    ((Runs.run step Unhidden (fresh Config.small) smoothRun).get smoothRun_isSome).keySpan ≤
      10 + 4 :=
  (keySpan_le_of_fits (by decide)
    (.of_run (.start ⟨10, 0, Io.steady 0, rfl⟩) (Option.some_get smoothRun_isSome).symm)
    (by decide +kernel) (by decide +kernel)).1

/-- `tcpRead` gets a full packet. -/
def fullRead : Move :=
  .raise .tcpRead 0 { Io.steady 0 with tcpBytes := List.replicate 10 7 }

/-- The first packets are confirmed, the later ones are not. -/
def unthrottledRun : List Move :=
  fullRead :: .udpRead (.datagram .confirmation 2 []) (Io.steady 0) ::
    (List.replicate 4 fullRead ++ .udpRead (.datagram .confirmation 6 []) (Io.steady 0) ::
      List.replicate 8 fullRead)

theorem unthrottledRun_isSome : (play Tunnel.narrow unthrottledRun).isSome = true := by
  decide +kernel

/-- The number of keys, which libstdc++ keeps where `end()` points, is no key: TCP is read
far beyond the configured send buffer. -/
theorem keySpan_unthrottledRun :
    ∃ c, Runs.Reachable (Initial Tunnel.narrow) step Runs.anyMove c ∧ c.udpConnected = true ∧
      ¬c.keySpan ≤ Tunnel.narrow.udpMaxSentBufferSize.tdiv Tunnel.narrow.udpSendPacketSize + 4 := by
  refine ⟨(play Tunnel.narrow unthrottledRun).get unthrottledRun_isSome, ?_, ?_⟩
  · exact reachable_of_play (Option.some_get unthrottledRun_isSome).symm
  · decide +kernel

end Runs

end Connection

end IceTunnel
