import IceTunnel.Foundation.Runs
import IceTunnel.Foundation.SortedKeys
import IceTunnel.Frames
import IceTunnel.Protocol

/-!
Every handler of a `Connection` is a sequence of protocol steps.
-/

namespace IceTunnel.Connection

open Protocol

variable {N : Packet → Prop} (c : Connection)

section Sending

/-- The loop of `buildUdpPackets` changes the sending half only, and is a
sequence of steps of every endpoint with that sending half. -/
theorem buildUdpPacketsLoop_steps (flush : Bool) (fuel : Nat) (rest : List UInt8) :
    ∃ s : Sender, (buildUdpPacketsLoop flush fuel rest c).1.toEndpoint =
        { c.toEndpoint with toSender := { s with tcpReceivedData := c.tcpReceivedData } } ∧
      s.tcpReceivedData = (buildUdpPacketsLoop flush fuel rest c).2 ∧
      ∀ e : Endpoint, e.toConfig = c.toConfig → e.udpConnected = true →
        (rest ≠ [] → e.udpReceivedFinalIndex ≠ e.udpReceivedMasterIndex) →
        e.toSender = { c.toSender with tcpReceivedData := rest } →
        Steps N e { e with toSender := s } := by
  have hstay : ∀ (c : Connection) (rest : List UInt8), ∃ s : Sender, c.toEndpoint =
        { c.toEndpoint with toSender := { s with tcpReceivedData := c.tcpReceivedData } } ∧
      s.tcpReceivedData = rest ∧
      ∀ e : Endpoint, e.toConfig = c.toConfig → e.udpConnected = true →
        (rest ≠ [] → e.udpReceivedFinalIndex ≠ e.udpReceivedMasterIndex) →
        e.toSender = { c.toSender with tcpReceivedData := rest } →
        Steps N e { e with toSender := s } :=
    fun c rest => ⟨{ c.toSender with tcpReceivedData := rest }, rfl, rfl,
      fun e _ _ _ hsender => by rw [← hsender]⟩
  induction fuel generalizing rest c with
  | zero => exact hstay c rest
  | succ fuel ih =>
      simp only [buildUdpPacketsLoop]
      split
      · exact hstay c rest
      · rename_i hrest
        split
        · exact hstay c rest
        · rename_i hsize
          simp only [Bool.or_eq_true, Bool.and_eq_true, Bool.not_eq_true', decide_eq_true_eq,
            not_or, not_le] at hsize
          simp only [List.isEmpty_iff] at hrest
          generalize hn : (min (rest.length : Int) c.udpSendPacketSize).toNat = n
          have hpayload : rest.take n ≠ [] := by
            simp only [ne_eq, List.take_eq_nil_iff, hrest, or_false]
            omega
          obtain ⟨s, hs, hdata, hsteps⟩ := ih
            (((c.push .data (rest.take n)).setEventUdpWrite).onUdpSentBufferChanged
              (rest.take n).length) (rest.drop n)
          refine ⟨s, by simpa [Sender.push] using hs, hdata, fun e hconfig hudp hfinal hsender => ?_⟩
          have hcreate := Step.create (N := N) e (rest.take n) (rest.drop n) hudp
            (hfinal hrest) (by rw [hsender, List.take_append_drop]) hpayload
          refine Relation.ReflTransGen.head hcreate (hsteps _ ?_ hudp (fun _ => hfinal hrest) ?_)
          · simpa using hconfig
          · simp [hsender, hconfig, Sender.push]

theorem buildReceivedData_steps (flush : Bool) :
    ∃ s : Sender, (c.buildReceivedData flush).toEndpoint = { c.toEndpoint with toSender := s } ∧
      ∀ e : Endpoint, e.toConfig = c.toConfig → e.udpConnected = true →
        (c.tcpReceivedData ≠ [] → e.udpReceivedFinalIndex ≠ e.udpReceivedMasterIndex) →
        e.toSender = c.toSender → Steps N e { e with toSender := s } := by
  obtain ⟨s, hs, hdata, hsteps⟩ := c.buildUdpPacketsLoop_steps (N := N) flush
    c.tcpReceivedData.length c.tcpReceivedData
  refine ⟨s, ?_, hsteps⟩
  simp only [buildReceivedData]
  split <;> split <;> simp [hs, ← hdata]

theorem buildUdpPackets_steps (flush : Bool) :
    ∃ s : Sender, (c.buildUdpPackets flush).toEndpoint = { c.toEndpoint with toSender := s } ∧
      ∀ e : Endpoint, e.toConfig = c.toConfig → e.udpConnected = c.udpConnected →
        e.udpReceivedFinalIndex = c.udpReceivedFinalIndex →
        e.udpReceivedMasterIndex = c.udpReceivedMasterIndex →
        e.toSender = c.toSender → Steps N e { e with toSender := s } := by
  simp only [buildUdpPackets]
  split
  · exact ⟨c.toSender, rfl, fun e _ _ _ _ hsender => by rw [← hsender]⟩
  · rename_i hudp
    simp only [Bool.not_eq_true', Bool.not_eq_false] at hudp
    split
    · rename_i hfinal
      obtain ⟨s, hs, hsteps⟩ :=
        { c with tcpReceivedData := [] }.buildReceivedData_steps (N := N) flush
      refine ⟨s, by simpa using hs, fun e hconfig hudpE hfinalE hmasterE hsender => ?_⟩
      have hdiscard := Step.discard (N := N) e (by rw [hudpE, hudp]) (by rw [hfinalE, hmasterE, hfinal])
      exact .head hdiscard (hsteps _ hconfig (by rw [hudpE, hudp]) (by simp) (by rw [hsender]))
    · rename_i hfinal
      obtain ⟨s, hs, hsteps⟩ := c.buildReceivedData_steps (N := N) flush
      exact ⟨s, hs, fun e hconfig hudpE hfinalE hmasterE hsender =>
        hsteps e hconfig (by rw [hudpE, hudp]) (fun _ => by rwa [hfinalE, hmasterE]) hsender⟩

theorem buildUdpPacketsLoop_flush (fuel : Nat) (rest : List UInt8) (hfuel : rest.length ≤ fuel) :
    (buildUdpPacketsLoop true fuel rest c).2 = [] ∨ c.udpSendPacketSize ≤ 0 := by
  induction fuel generalizing rest c with
  | zero =>
      have hrest : rest = [] := List.length_eq_zero_iff.mp (by omega)
      exact .inl (by simp [buildUdpPacketsLoop, hrest])
  | succ fuel ih =>
      simp only [buildUdpPacketsLoop, Bool.not_true, Bool.false_and, Bool.false_or,
        decide_eq_true_eq]
      split
      · rename_i hrest
        exact .inl (List.isEmpty_iff.mp hrest)
      · split
        · rename_i hrest hsize
          have hlength : rest.length ≠ 0 := by simpa using hrest
          exact .inr (by omega)
        · rename_i hrest hsize
          have hlength : rest.length ≠ 0 := by simpa using hrest
          generalize hn : (min (rest.length : Int) c.udpSendPacketSize).toNat = n
          have hdrop : (rest.drop n).length ≤ fuel := by
            rw [List.length_drop]
            omega
          simpa using ih (((c.push .data (rest.take n)).setEventUdpWrite).onUdpSentBufferChanged
            (rest.take n).length) (rest.drop n) hdrop

theorem buildReceivedData_flushed : (c.buildReceivedData true).Flushed := by
  obtain ⟨s, hs, hdata, -⟩ := c.buildUdpPacketsLoop_steps (N := fun _ => True) true
    c.tcpReceivedData.length c.tcpReceivedData
  have hflush := c.buildUdpPacketsLoop_flush _ _ (le_refl c.tcpReceivedData.length)
  simp only [Session.Flushed, buildReceivedData]
  split <;> split <;> simpa [hs] using hflush

theorem buildUdpPackets_flushed (hudp : c.udpConnected = true) :
    (c.buildUdpPackets true).Flushed := by
  simp only [buildUdpPackets, hudp, Bool.not_true, Bool.false_eq_true, if_false]
  split
  · exact buildReceivedData_flushed _
  · exact buildReceivedData_flushed _

theorem tcpRead_steps : Steps N c.toEndpoint c.tcpRead.toEndpoint := by
  simp only [tcpRead]
  split
  · exact .refl
  · rename_i htcp
    simp only [Bool.not_eq_true', Bool.not_eq_false] at htcp
    simp only [onUdpSentBufferChanged_toEndpoint]
    split
    · exact .refl
    · split
      · rename_i hudp
        let d := { c with toSender := c.toSender.record (.read (c.io.tcpBytes.take
          c.udpSendPacketSize.toNat)) }
        have hread := Step.read (N := N) c.toEndpoint
          (c.io.tcpBytes.take c.udpSendPacketSize.toNat) htcp hudp (List.length_take_le _ _)
        obtain ⟨s, hs, hsteps⟩ := buildUdpPackets_steps (N := N)
          { d with tcpReceivedData := d.tcpReceivedData ++
            c.io.tcpBytes.take c.udpSendPacketSize.toNat } false
        rw [hs]
        exact .head hread (hsteps _ rfl rfl rfl rfl rfl)
      · rename_i hudp
        exact .single (Step.readUnused (N := N) c.toEndpoint _ htcp (by simpa using hudp))

end Sending

section Receiving

/-- The loop of `tcpWrite(true)` changes the receiving half only, and is a
sequence of steps of every endpoint with that receiving half and a closed TCP
side. -/
theorem tcpWriteLoop_fake_steps (fuel : Nat) :
    ∃ r : Receiver, (tcpWriteLoop true fuel c).1.toEndpoint = { c.toEndpoint with toReceiver := r } ∧
      r.udpReceivedFinalIndex = c.udpReceivedFinalIndex ∧
      r.udpReceivedMasterIndex = c.udpReceivedMasterIndex ∧
      ∀ e : Endpoint, e.tcpConnected = false → e.toReceiver = c.toReceiver →
        Steps N e { e with toReceiver := r } := by
  have hstay : ∀ c : Connection, ∃ r : Receiver,
      c.toEndpoint = { c.toEndpoint with toReceiver := r } ∧
      r.udpReceivedFinalIndex = c.udpReceivedFinalIndex ∧
      r.udpReceivedMasterIndex = c.udpReceivedMasterIndex ∧
      ∀ e : Endpoint, e.tcpConnected = false → e.toReceiver = c.toReceiver →
        Steps N e { e with toReceiver := r } :=
    fun c => ⟨c.toReceiver, rfl, rfl, rfl, fun e _ hreceiver => by rw [← hreceiver]⟩
  induction fuel generalizing c with
  | zero => exact hstay c
  | succ fuel ih =>
      simp only [tcpWriteLoop]
      split
      · rename_i hmaster
        split
        · exact hstay c
        · rename_i packet hpacket
          simp only [Bool.true_or, if_true, Bool.not_true, Bool.false_and, Bool.false_eq_true,
            if_false]
          obtain ⟨r, hr, hfinal, hmasterR, hsteps⟩ :=
            ih { c with toReceiver := c.toReceiver.skip packet true }
          refine ⟨r, hr, by simpa using hfinal, by simpa using hmasterR,
            fun e htcp hreceiver => ?_⟩
          have hnext : e.IsNext packet := by
            simp only [Session.IsNext, hreceiver]
            exact ⟨hmaster, hpacket⟩
          have hskip := Step.skip (N := N) e packet true hnext (by simp [htcp]) (.inl rfl)
          exact .head hskip (hsteps _ htcp (by simp only [hreceiver]))
      · exact hstay c

theorem tcpWriteFake_steps :
    ∃ r : Receiver, c.tcpWriteFake.toEndpoint = { c.toEndpoint with toReceiver := r } ∧
      r.udpReceivedFinalIndex = c.udpReceivedFinalIndex ∧
      r.udpReceivedMasterIndex = c.udpReceivedMasterIndex ∧
      ∀ e : Endpoint, e.tcpConnected = false → e.toReceiver = c.toReceiver →
        Steps N e { e with toReceiver := r } := by
  simp only [tcpWriteFake]
  split
  · exact ⟨c.toReceiver, rfl, rfl, rfl, fun e _ hreceiver => by rw [← hreceiver]⟩
  · exact c.tcpWriteLoop_fake_steps _

theorem tcpWriteData_steps (packet : Packet) (hnext : c.IsNext packet)
    (htcp : c.tcpConnected = true) (hdata : packet.getType = .data) :
    Steps N c.toEndpoint (c.tcpWriteData packet).toEndpoint := by
  have hle : min c.io.tcpAccepted packet.getData.length ≤ packet.getData.length :=
    Nat.min_le_right _ _
  simp only [tcpWriteData]
  generalize min c.io.tcpAccepted packet.getData.length = size at hle ⊢
  by_cases hsize : size > 0
  · have hwrite := Step.write (N := N) c.toEndpoint packet size hnext htcp hdata hsize hle
    simp only [if_pos hsize]
    split <;> exact .single hwrite
  · simp only [if_neg hsize]
    split <;> exact .refl

theorem tcpWriteLoop_steps (fuel : Nat) (htcp : c.tcpConnected = true) :
    ((tcpWriteLoop false fuel c).2 = false →
        Steps N c.toEndpoint (tcpWriteLoop false fuel c).1.toEndpoint) ∧
      ((tcpWriteLoop false fuel c).2 = true → ∃ (d : Connection) (packet : Packet),
        Steps N c.toEndpoint d.toEndpoint ∧ d.tcpConnected = true ∧
        d.IsNext packet ∧ packet.getType.isClosing = true ∧
        (tcpWriteLoop false fuel c).1 = { d with toReceiver := d.toReceiver.skip packet false }) := by
  induction fuel generalizing c with
  | zero => exact ⟨fun _ => .refl, by simp [tcpWriteLoop]⟩
  | succ fuel ih =>
      simp only [tcpWriteLoop, Bool.false_or, Bool.not_false, Bool.true_and]
      split
      · rename_i hmaster
        split
        · exact ⟨fun _ => .refl, by simp⟩
        · rename_i packet hpacket
          have hnext : c.IsNext packet := ⟨hmaster, hpacket⟩
          split
          · rename_i hskip
            split
            · rename_i hclosing
              exact ⟨by simp, fun _ => ⟨c, packet, .refl, htcp, hnext, hclosing, rfl⟩⟩
            · rename_i hclosing
              have hstep := Step.skip (N := N) c.toEndpoint packet false hnext (by simp [htcp])
                (.inr ⟨by simpa using hskip, by simpa using hclosing⟩)
              obtain ⟨hopen, hclose⟩ := ih { c with toReceiver := c.toReceiver.skip packet false } htcp
              refine ⟨fun h => .head hstep (hopen h), fun h => ?_⟩
              obtain ⟨d, last, hsteps, hd⟩ := hclose h
              exact ⟨d, last, .head hstep hsteps, hd⟩
          · rename_i hdata
            simp only [Bool.or_eq_true, decide_eq_true_eq, not_or, not_not, not_le] at hdata
            exact ⟨fun _ => c.tcpWriteData_steps packet hnext htcp hdata.1, by simp⟩
      · exact ⟨fun _ => .refl, by simp⟩

end Receiving

section Closing

/-- `tcpClose` while the UDP side is up: the drained receiving half and the flushed
sending half. -/
theorem tcpClose_toEndpoint (error : Bool) (htcp : c.tcpConnected = true)
    (hudp : c.udpConnected = true) :
    ∃ (s : Sender) (r : Receiver), (c.tcpClose error).toEndpoint =
        { c.toEndpoint with
          tcpConnected := false
          toSender := s.push c.udpResendCount (if error then .disconnect else .bye) []
          toReceiver := r } ∧
      (s.tcpReceivedData = [] ∨ c.udpSendPacketSize ≤ 0) ∧
      (∀ e : Endpoint, e.toConfig = c.toConfig → e.udpConnected = true →
        e.udpReceivedFinalIndex = c.udpReceivedFinalIndex →
        e.udpReceivedMasterIndex = c.udpReceivedMasterIndex →
        e.toSender = c.toSender → Steps N e { e with toSender := s }) ∧
      (∀ e : Endpoint, e.tcpConnected = false → e.toReceiver = c.toReceiver →
        Steps N e { e with toReceiver := r }) := by
  let c₀ := ({ c with tcpConnected := false }.disable .tcpRead).disable .tcpWrite
  obtain ⟨r, hr, hfinal, hmaster, hdrain⟩ := c₀.tcpWriteFake_steps (N := N)
  obtain ⟨s, hs, hbuild⟩ := c₀.tcpWriteFake.buildUdpPackets_steps (N := N) true
  have hflushed := c₀.tcpWriteFake.buildUdpPackets_flushed (by rw [hr]; exact hudp)
  simp only [Session.Flushed, hs] at hflushed
  rw [hr] at hflushed
  have hclose : c.tcpClose error = (((c₀.tcpWriteFake.buildUdpPackets true).push
      (if error then .disconnect else .bye) []).onUdpSentBufferChanged 0).setEventUdpWrite := by
    simp [tcpClose, htcp, hudp, c₀]
  refine ⟨s, r, ?_, hflushed, ?_, hdrain⟩
  · rw [hclose, setEventUdpWrite_toEndpoint, onUdpSentBufferChanged_toEndpoint, push_toEndpoint,
      hs, hr]
    rfl
  · intro e hconfig hudpE hfinalE hmasterE hsender
    rw [hr] at hbuild
    exact hbuild e hconfig (hudpE.trans hudp.symm) (hfinalE.trans hfinal.symm)
      (hmasterE.trans hmaster.symm) hsender

theorem tcpClose_steps (error : Bool) : Steps N c.toEndpoint (c.tcpClose error).toEndpoint := by
  cases htcp : c.tcpConnected with
  | false =>
      simp only [tcpClose, htcp]
      exact .refl
  | true =>
      cases hudp : c.udpConnected with
      | false =>
          have hclose := Step.hangUp (N := N) c.toEndpoint htcp hudp
          simp only [tcpClose, htcp, hudp, disable_toEndpoint, Bool.not_true, Bool.not_false,
            Bool.false_eq_true, if_true, if_false, setTimeRelativeNow_toEndpoint]
          exact .single (by simpa only [hudp] using hclose)
      | true =>
          obtain ⟨s, r, hend, hflushed, hbuild, hdrain⟩ := c.tcpClose_toEndpoint (N := N) error htcp hudp
          have hcreate := hbuild c.toEndpoint rfl hudp rfl rfl rfl
          have hclose := Step.close (N := N) { c.toEndpoint with toSender := s }
            (if error then .disconnect else .bye) htcp hudp hflushed
            (by cases error <;> rfl)
          rw [hend]
          exact (hcreate.tail hclose).trans (hdrain _ rfl rfl)

theorem tcpWrite_steps : Steps N c.toEndpoint c.tcpWrite.toEndpoint := by
  cases htcp : c.tcpConnected with
  | false =>
      simp only [tcpWrite, htcp]
      exact .refl
  | true =>
      obtain ⟨hopen, hclose⟩ := c.tcpWriteLoop_steps (N := N) c.tcpWriteFuel htcp
      simp only [tcpWrite, htcp, Bool.not_true, Bool.false_eq_true, if_false]
      split
      · rename_i hclosing
        obtain ⟨d, packet, hsteps, htcpD, hnext, htype, hlast⟩ := hclose hclosing
        rw [hlast]
        cases hudp : d.udpConnected with
        | false =>
            have hskip := Step.skipClosingUnused (N := N) d.toEndpoint packet hnext htype htcpD hudp
            simp only [tcpClose, htcpD, hudp, Bool.not_true, Bool.not_false,
              Bool.false_eq_true, if_true, if_false, setTimeRelativeNow_toEndpoint, disable_toEndpoint]
            exact hsteps.tail (by simpa only [hudp] using hskip)
        | true =>
            obtain ⟨s, r, hend, hflushed, hbuild, hdrain⟩ := tcpClose_toEndpoint (N := N)
              { d with toReceiver := d.toReceiver.skip packet false } false htcpD hudp
            have hcreate := hbuild d.toEndpoint rfl hudp (by simp) (by simp) rfl
            have hskip := Step.skipClosing (N := N) { d.toEndpoint with toSender := s }
              packet hnext htype htcpD hudp hflushed
            rw [hend]
            exact ((hsteps.trans hcreate).tail hskip).trans (hdrain _ rfl rfl)
      · rename_i hclosing
        exact hopen (by simpa using hclosing)

theorem udpClose_steps : Steps N c.toEndpoint c.udpClose.toEndpoint := by
  simp only [udpClose]
  split
  · exact .refl
  · have hclose := Step.closeUdp (N := N) c.toEndpoint
    split
    · exact .single (by simpa using hclose)
    · split
      · refine Relation.ReflTransGen.trans (.single ?_) (tcpClose_steps _ false)
        simpa using hclose
      · exact .single (by simpa using hclose)

theorem isUdpFinished_finishable (hfinished : c.isUdpFinished = true)
    (hudp : c.udpConnected = true) : c.Finishable := by
  simp only [isUdpFinished, hudp, Bool.not_true, Bool.false_eq_true, if_false, Bool.and_eq_true,
    decide_eq_true_eq, List.isEmpty_iff] at hfinished
  obtain ⟨⟨⟨⟨⟨⟨hmore, hqueue⟩, hconfirmed⟩, hnext⟩, -⟩, -⟩, -⟩ := hfinished
  exact ⟨hmore, hqueue, hconfirmed, hnext⟩

theorem closeIfUdpFinished_steps : Steps N c.toEndpoint c.closeIfUdpFinished.toEndpoint := by
  simp only [closeIfUdpFinished]
  split
  · rename_i hfinished
    refine Relation.ReflTransGen.trans ?_ (udpClose_steps _)
    split
    · rename_i hudp
      exact .single (.finish c.toEndpoint hudp (c.isUdpFinished_finishable hfinished hudp))
    · exact .refl
  · exact .refl

end Closing

section Transmitting

theorem firstUnsent_eq_some {index : Int} {packet : Packet}
    (h : c.firstUnsent = some (index, packet)) :
    c.udpSentPackets[index]? = some packet ∧ packet.sent = false := by
  have hmem := List.mem_of_find?_eq_some h
  have hsent := List.find?_some h
  exact ⟨Std.ExtTreeMap.mem_toList_iff_getElem?_eq_some.mp hmem, by simpa using hsent⟩

theorem udpWriteConfirmation_steps (plannedTimeUs : Int) (packet : Packet) (packets : List Packet)
    (hudp : c.udpConnected = true) (hqueue : c.udpConfirmationPackets = packet :: packets) :
    Steps N c.toEndpoint (c.udpWriteConfirmation plannedTimeUs packet packets).toEndpoint := by
  have hoffer := Step.offerConfirmation (N := N) c.toEndpoint packet hudp (by simp [hqueue])
  refine .head hoffer ?_
  simp only [udpWriteConfirmation]
  split
  · have hdequeue := Step.dequeue (N := N)
      { c.toEndpoint with toSender := c.toSender.record (.writeto packet.wire) } packet packets hqueue
    split
    · exact .head (by simpa using hdequeue) (closeIfUdpFinished_steps _)
    · split <;> exact .single (by simpa using hdequeue)
  · exact .refl

theorem udpWritePacket_steps (plannedTimeUs index : Int) (packet : Packet)
    (hudp : c.udpConnected = true) (hpacket : c.udpSentPackets[index]? = some packet)
    (hsent : packet.sent = false) :
    Steps N c.toEndpoint (c.udpWritePacket plannedTimeUs index packet).toEndpoint := by
  have hoffer := Step.offer (N := N) c.toEndpoint index packet hudp hpacket
  refine .head hoffer ?_
  simp only [udpWritePacket]
  split
  · have htransmit := Step.transmit (N := N)
      { c.toEndpoint with toSender := c.toSender.record (.writeto packet.wire) } index packet
      c.nowUs c.udpSendMeasureIndex hpacket hsent
    split
    · rename_i hcomplete
      have herase := Step.eraseComplete (N := N)
        { c.toEndpoint with
          udpSentPackets := c.udpSentPackets.insert index
            { packet with sent := true, sentTimeUs := c.nowUs, measureIndex := c.udpSendMeasureIndex }
          udpPacketsToSendCount := c.udpPacketsToSendCount - 1
          sendHistory := c.sendHistory ++ [.writeto packet.wire] }
        index _ Std.ExtTreeMap.getElem?_insert_self hcomplete
      refine .head htransmit ?_
      split
      · exact .head (by simpa [Sender.record, nowUs] using herase) (closeIfUdpFinished_steps _)
      · split <;> exact .single (by simpa [Sender.record, nowUs] using herase)
    · split <;> exact .single (by simpa [nowUs] using htransmit)
  · split <;> exact .refl

theorem udpWrite_steps (plannedTimeUs : Int) :
    Steps N c.toEndpoint (c.udpWrite plannedTimeUs).toEndpoint := by
  simp only [udpWrite]
  split
  · exact .refl
  · rename_i hudp
    simp only [Bool.not_eq_true', Bool.not_eq_false] at hudp
    split
    · rename_i packet packets hqueue
      exact c.udpWriteConfirmation_steps plannedTimeUs packet packets hudp hqueue
    · split
      · rename_i index packet hfirst
        obtain ⟨hpacket, hsent⟩ := c.firstUnsent_eq_some hfirst
        exact c.udpWritePacket_steps plannedTimeUs index packet hudp hpacket hsent
      · exact .refl

theorem udpResendLoop_steps (timeUs : Int) (indices : List Int) :
    Steps N c.toEndpoint (udpResendLoop timeUs indices c).toEndpoint := by
  induction indices generalizing c with
  | nil => exact .refl
  | cons index indices ih =>
      simp only [udpResendLoop]
      split
      · exact ih c
      · rename_i packet hpacket
        split
        · rename_i hsent
          split
          · split
            · have hresend := Step.resend (N := N) c.toEndpoint index packet hpacket hsent
              exact .head (by simpa using hresend) (ih _)
            · exact c.udpClose_steps
          · exact ih (c.setTime .udpResend (packet.sentTimeUs + c.udpResendUs))
        · exact ih c

theorem udpResend_steps : Steps N c.toEndpoint c.udpResend.toEndpoint := by
  simp only [udpResend]
  split
  · exact .refl
  · exact udpResendLoop_steps c.tick c.nowUs _

end Transmitting

section Confirming

theorem foldl_onUdpSentBufferChanged_toEndpoint (packets : List Packet) :
    (packets.foldl (fun c packet => c.onUdpSentBufferChanged (-packet.getSize)) c).toEndpoint =
      c.toEndpoint := by
  induction packets generalizing c with
  | nil => rfl
  | cons packet packets ih => rw [List.foldl_cons, ih, onUdpSentBufferChanged_toEndpoint]

theorem dropConfirmations_toEndpoint :
    c.dropConfirmations.toEndpoint = { c.toEndpoint with
      udpConfirmationPackets := c.udpConfirmationPackets.filter (·.getType ≠ .confirmation) } := by
  simp only [dropConfirmations, foldl_onUdpSentBufferChanged_toEndpoint]

theorem pushConfirmation_toEndpoint (payload : List UInt8) :
    (c.pushConfirmation payload).toEndpoint = { c.toEndpoint with
      udpConfirmationPackets := c.udpConfirmationPackets ++ [c.confirmation payload]
      toReceiver := c.toReceiver.record (.confirm (c.confirmation payload).wire) } := by
  simp only [pushConfirmation, onUdpSentBufferChanged_toEndpoint]

theorem foldl_pushConfirmation_toEndpoint (payloads : List (List UInt8)) :
    (payloads.foldl pushConfirmation c).toEndpoint = { c.toEndpoint with
      udpConfirmationPackets := c.udpConfirmationPackets ++ payloads.map c.confirmation
      receiveHistory := c.receiveHistory ++
        payloads.map (fun payload => .confirm (c.confirmation payload).wire) } := by
  induction payloads generalizing c with
  | nil => simp
  | cons payload payloads ih =>
      rw [List.foldl_cons, ih]
      simp [pushConfirmation_toEndpoint, Receiver.record, Session.confirmation]

theorem foldl_pushConfirmation_steps (payloads : List (List UInt8)) (hudp : c.udpConnected = true)
    (hpayloads : ∀ payload ∈ payloads, payload ∈ c.confirmationPayloads) :
    Steps N c.toEndpoint (payloads.foldl pushConfirmation c).toEndpoint := by
  induction payloads generalizing c with
  | nil => exact .refl
  | cons payload payloads ih =>
      have hconfirm := Step.confirm (N := N) c.toEndpoint payload hudp (hpayloads payload (by simp))
      rw [← pushConfirmation_toEndpoint] at hconfirm
      refine .head hconfirm (ih _ ?_ fun other hmem => ?_)
      · simpa [pushConfirmation_toEndpoint] using hudp
      · simpa [pushConfirmation_toEndpoint, Receiver.record, Session.confirmationPayloads] using
          hpayloads other (by simp [hmem])

theorem prune_steps (e : Endpoint) : Steps N e { e with toReceiver := e.toReceiver.prune } := by
  have hfold : ∀ (keys : List Int) (e : Endpoint), (∀ key ∈ keys, key < e.tcpNextSendIndex) →
      Steps N e { e with toReceiver := keys.foldl Receiver.pruneKey e.toReceiver } := by
    intro keys
    induction keys with
    | nil => exact fun e _ => .refl
    | cons key keys ih =>
        intro e hkeys
        refine .head (Step.prune e key (hkeys key (by simp))) ?_
        refine ih { e with toReceiver := e.toReceiver.pruneKey key } fun other hmem => ?_
        simpa only [Receiver.pruneKey_tcpNextSendIndex] using hkeys other (by simp [hmem])
  exact hfold _ e fun key hmem => ((SortedKeys.mem_takeWhile_keys _).mp hmem).1

theorem buildConfirmations_steps : Steps N c.toEndpoint c.buildConfirmations.toEndpoint := by
  simp only [buildConfirmations]
  split
  · exact .refl
  · rename_i hudp
    simp only [Bool.not_eq_true', Bool.not_eq_false] at hudp
    have hdrop := Step.dropConfirmations (N := N) c.toEndpoint
    rw [← dropConfirmations_toEndpoint] at hdrop
    have hudpD : c.dropConfirmations.udpConnected = true := by
      simpa [dropConfirmations_toEndpoint] using hudp
    refine .head hdrop ?_
    refine Relation.ReflTransGen.trans (foldl_pushConfirmation_steps c.dropConfirmations
      c.dropConfirmations.confirmationPayloads hudpD fun _ h => h) ?_
    have hpushed := c.dropConfirmations.foldl_pushConfirmation_toEndpoint
      c.dropConfirmations.confirmationPayloads
    obtain ⟨payload, hpayload⟩ := c.dropConfirmations.toSession.exists_mem_confirmationPayloads
    have hsettle := Step.settle (N := N)
      (c.dropConfirmations.confirmationPayloads.foldl pushConfirmation c.dropConfirmations).toEndpoint
      payload (by simpa [hpushed] using hudpD)
      (by
        simp only [hpushed, Receiver.confirmations, List.filterMap_append, List.mem_append,
          List.mem_filterMap, List.mem_map]
        exact .inr ⟨_, ⟨payload, hpayload, rfl⟩, rfl⟩)
    refine .head hsettle ((prune_steps _).trans ?_)
    split
    · simp only [setTimeRelativeNow_toEndpoint, setEventUdpWrite_toEndpoint]
      exact .refl
    · simp only [setEventUdpWrite_toEndpoint]
      exact .refl

theorem buildByeBye_steps : Steps N c.toEndpoint c.buildByeBye.toEndpoint := by
  simp only [buildByeBye]
  split
  · exact .refl
  · rename_i hudp
    simp only [Bool.not_eq_true', Bool.not_eq_false] at hudp
    have hbyeBye := Step.byeBye (N := N) c.toEndpoint hudp
    split <;> exact .single (by simpa using hbyeBye)

theorem confirmPacket_steps (confirmation : Packet) (index : Int) (hnet : N confirmation)
    (hudp : c.udpConnected = true) (htype : confirmation.getType = .confirmation)
    (hconfirms : confirmation.Confirms index) :
    Steps N c.toEndpoint (c.confirmPacket index).toEndpoint := by
  simp only [confirmPacket]
  split
  · exact .refl
  · rename_i packet hpacket
    have hforget := Step.forget (N := N) c.toEndpoint index packet confirmation hnet hudp htype
      hconfirms hpacket
    refine .single ?_
    cases hsent : packet.sent <;> cases hconfirmed : packet.confirmed <;>
      simpa [hsent] using hforget

theorem confirmPacket_udpConnected (index : Int) :
    (c.confirmPacket index).udpConnected = c.udpConnected := by
  simp only [confirmPacket]
  split
  · rfl
  · split <;> split <;> simp

theorem foldl_confirmPacket_udpConnected (indices : List Int) :
    (indices.foldl confirmPacket c).udpConnected = c.udpConnected := by
  induction indices generalizing c with
  | nil => rfl
  | cons index indices ih => rw [List.foldl_cons, ih, confirmPacket_udpConnected]

theorem foldl_confirmPacket_steps (confirmation : Packet) (indices : List Int)
    (hnet : N confirmation) (hudp : c.udpConnected = true)
    (htype : confirmation.getType = .confirmation)
    (hconfirms : ∀ index ∈ indices, confirmation.Confirms index) :
    Steps N c.toEndpoint (indices.foldl confirmPacket c).toEndpoint := by
  induction indices generalizing c with
  | nil => exact .refl
  | cons index indices ih =>
      refine (c.confirmPacket_steps confirmation index hnet hudp htype
        (hconfirms index (by simp))).trans (ih _ ?_ fun other hmem => hconfirms other (by simp [hmem]))
      rw [confirmPacket_udpConnected, hudp]

theorem mem_indicesOf {range : Int × Int} {index : Int} :
    index ∈ indicesOf range ↔ range.1 ≤ index ∧ index < range.2 := by
  simp only [indicesOf, List.mem_map, List.mem_range]
  constructor
  · rintro ⟨i, hi, rfl⟩
    omega
  · intro h
    exact ⟨(index - range.1).toNat, by omega, by omega⟩

theorem foldl_ranges_steps (confirmation : Packet) (ranges : List (Int × Int))
    (hnet : N confirmation) (hudp : c.udpConnected = true)
    (htype : confirmation.getType = .confirmation)
    (hranges : ∀ range ∈ ranges, range ∈ confirmation.confirmedRanges) :
    Steps N c.toEndpoint
      (ranges.foldl (fun c range => (indicesOf range).foldl confirmPacket c) c).toEndpoint := by
  induction ranges generalizing c with
  | nil => exact .refl
  | cons range ranges ih =>
      refine (c.foldl_confirmPacket_steps confirmation (indicesOf range) hnet hudp htype
        fun index hindex => ?_).trans (ih _ ?_ fun other hmem => hranges other (by simp [hmem]))
      · exact .inr ⟨range, hranges range (by simp), mem_indicesOf.mp hindex⟩
      · rw [foldl_confirmPacket_udpConnected, hudp]

theorem udpReadConfirmation_steps (packet : Packet) (hnet : N packet)
    (hudp : c.udpConnected = true) (htype : packet.getType = .confirmation) :
    Steps N c.toEndpoint (c.udpReadConfirmation packet).toEndpoint := by
  have hbelow := c.foldl_confirmPacket_steps (N := N) packet
    (c.udpSentPackets.keys.takeWhile (· < packet.getIndex)) hnet hudp htype
    fun index hindex => .inl ((SortedKeys.mem_takeWhile_keys _).mp hindex).1
  have hranges := foldl_ranges_steps (N := N)
    ((c.udpSentPackets.keys.takeWhile (· < packet.getIndex)).foldl confirmPacket c) packet
    packet.confirmedRanges hnet (by rw [foldl_confirmPacket_udpConnected, hudp]) htype fun _ h => h
  refine (hbelow.trans hranges).trans ?_
  simp only [udpReadConfirmation]
  split <;> split <;> exact .refl

theorem udpReadPacket_steps (packet : Packet) (hnet : N packet) (hwire : packet.wire = packet)
    (hudp : c.udpConnected = true)
    (haccepts : c.toSession.acceptsPacket packet = true) :
    Steps N c.toEndpoint (c.udpReadPacket packet).toEndpoint := by
  simp only [udpReadPacket]
  split
  · exact .refl
  · rename_i hmem
    have haccept := Step.accept (N := N) c.toEndpoint packet hnet hwire hudp haccepts hmem
    obtain ⟨r, hr, -, -, hdrain⟩ :=
      tcpWriteFake_steps (N := N) { c with toReceiver := c.toReceiver.accept packet }
    refine .head haccept ?_
    have hsteps : Steps N
        ({ c with toReceiver := c.toReceiver.accept packet } : Connection).toEndpoint
        ({ c with toReceiver := c.toReceiver.accept packet } : Connection).tcpWriteFake.toEndpoint := by
      cases htcp : c.tcpConnected with
      | false =>
          rw [hr]
          exact hdrain _ htcp rfl
      | true =>
          simp only [tcpWriteFake, htcp]
          exact .refl
    refine hsteps.trans ?_
    split <;> split <;> exact .refl

theorem udpReadByeBye_steps (packet : Packet) (hnet : N packet) (hudp : c.udpConnected = true)
    (haccepts : c.toSession.acceptsByeBye packet = true) :
    Steps N c.toEndpoint (c.udpReadByeBye packet).toEndpoint := by
  have hbyeBye := Step.acceptByeBye (N := N) c.toEndpoint packet hnet hudp haccepts
  have hdrop := Step.dropConfirmations (N := N)
    { c.toEndpoint with toReceiver := c.toReceiver.record (.byeBye packet.wire) }
  refine .head hbyeBye (.single ?_)
  simp only [udpReadByeBye]
  split <;> simpa [dropConfirmations_toEndpoint] using hdrop

theorem udpRead_steps (packet : Packet) (hnet : N packet) (hwire : packet.wire = packet) :
    Steps N c.toEndpoint (c.udpRead packet).toEndpoint := by
  simp only [udpRead]
  split
  · exact .refl
  · rename_i hudp
    simp only [Bool.not_eq_true', Bool.not_eq_false] at hudp
    refine Relation.ReflTransGen.trans ?_ (closeIfUdpFinished_steps _)
    split
    · rename_i htype
      exact c.udpReadConfirmation_steps packet hnet hudp htype
    · split
      · rename_i haccepts
        exact c.udpReadPacket_steps packet hnet hwire hudp haccepts
      · split
        · rename_i haccepts
          exact c.udpReadByeBye_steps packet hnet hudp haccepts
        · exact .refl

end Confirming

theorem handle_steps (event : EventName) (plannedTimeUs : Int) :
    Steps N c.toEndpoint (c.handle event plannedTimeUs).toEndpoint := by
  cases event with
  | tcpRead => exact c.tcpRead_steps
  | tcpWrite => exact c.tcpWrite_steps
  | tcpClose => exact c.tcpClose_steps c.io.tcpWasError
  | udpWrite => exact c.udpWrite_steps plannedTimeUs
  | udpClose => exact c.udpClose_steps
  | buildUdpPackets =>
      obtain ⟨s, hs, hsteps⟩ := c.buildUdpPackets_steps (N := N) true
      simp only [handle, hs]
      exact hsteps _ rfl rfl rfl rfl rfl
  | buildConfirmations => exact c.buildConfirmations_steps
  | buildByeBye => exact c.buildByeBye_steps
  | udpResend => exact c.udpResend_steps
  | udpCloseWait => exact c.closeIfUdpFinished_steps
  | close => exact .refl

/-- The packets a move can deliver. -/
def Move.Delivers (m : Move) (packet : Packet) : Prop :=
  ∃ (datagram : Packet) (io : Io), m = .udpRead datagram io ∧ packet = datagram.wire

/-- Every step of a connection is a sequence of protocol steps. -/
theorem step_refines {c d : Connection} {m : Move} (h : c.step m = some d)
    (hnet : ∀ packet, m.Delivers packet → N packet) : Steps N c.toEndpoint d.toEndpoint := by
  cases m with
  | «raise» event timeUs io =>
      obtain ⟨-, -, -, rfl⟩ := of_step_raise h
      exact handle_steps (({ c with io := io } : Connection).disable event) event _
  | udpRead packet io =>
      obtain ⟨-, rfl⟩ := of_step_udpRead h
      exact udpRead_steps { c with io := io } packet.wire (hnet _ ⟨packet, io, rfl, rfl⟩)
        packet.wire_wire

theorem toConfig_of_step {c d : Connection} {m : Move} (h : c.step m = some d) :
    d.toConfig = c.toConfig :=
  Runs.chain_invariant (I := fun e => e.toConfig = c.toConfig)
    (fun _ _ he hstep => (Protocol.toConfig_eq hstep).trans he)
    (step_refines (N := fun _ => True) h fun _ _ => trivial) rfl

end IceTunnel.Connection
