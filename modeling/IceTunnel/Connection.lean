import Mathlib.Algebra.Order.Floor.Defs
import Mathlib.Data.Rat.Floor
import Mathlib.Data.Stream.Defs
import IceTunnel.Endpoint

/-!
The timer of an `Event`, without the intrusive lists that only decide in which order the
due events of a round are raised, and `Connection` of `connection.h` and `connection.cpp`.
Each definition carries the name of the member function it follows.  A handler is a function
of the connection; what it asks of its surroundings is answered by `Io`.
-/

namespace IceTunnel

/-- The planned time of an `Event`; it is disabled while the time is negative. -/
structure Event where
  timeUs : Int := -1
  deriving DecidableEq, Repr

namespace Event

def isEnabled (e : Event) : Bool :=
  decide (0 ≤ e.timeUs)

/-- `Event::setTime`: without `force` an enabled event only moves to an earlier
time. -/
def setTime (e : Event) (timeUs : Int) (force : Bool) : Event :=
  if e.timeUs = timeUs then e
  else if force ∨ (e.timeUs > timeUs ∧ timeUs ≥ 0) ∨ e.timeUs < 0 then { timeUs := timeUs }
  else e

def disable (e : Event) : Event :=
  e.setTime (-1) true

@[simp] theorem isEnabled_disable (e : Event) : e.disable.isEnabled = false := by
  simp only [disable, setTime]
  split <;> simp_all [isEnabled]

theorem isEnabled_setTime (e : Event) (timeUs : Int) :
    (e.setTime timeUs false).isEnabled = true ↔ e.isEnabled = true ∨ 0 ≤ timeUs := by
  simp only [setTime, isEnabled, decide_eq_true_eq, Bool.false_eq_true, false_or]
  split
  · omega
  · split
    · simp only
      omega
    · omega

end Event

/-- The events a `Connection` owns. -/
inductive EventName
  | tcpRead
  | tcpWrite
  | tcpClose
  | udpWrite
  | udpClose
  | buildUdpPackets
  | buildConfirmations
  | buildByeBye
  | udpResend
  | udpCloseWait
  | close
  deriving DecidableEq, Repr

structure Measure where
  beginUs : Int := -1
  endUs : Int := -1
  count : Int := 0
  size : Int := 0
  successSize : Int := 0
  failSize : Int := 0
  summaryIntervalUs : Int := 0
  deriving DecidableEq, Repr

/-- What a handler gets from outside: the readings of `Platform::nowUs()`, the
values that reading through `udpSentPackets.end()` yields (the map's keys are all
they could depend on), and the answers of the sockets. -/
structure Io where
  nowUs : Stream' Nat
  endFirst : Stream' (List Int → Int)
  tcpBytes : List UInt8
  tcpAccepted : Nat
  udpWritten : Nat
  tcpWasError : Bool

/-- Surroundings in which the clock stands still, nothing comes from TCP and the
sockets take what they are given.  Reading through `end()` gives the number of
keys, as the header node of libstdc++ does. -/
def Io.steady (timeUs : Nat) : Io :=
  { nowUs := Stream'.const timeUs
    endFirst := Stream'.const fun keys => keys.length
    tcpBytes := []
    tcpAccepted := 1000
    udpWritten := 1000
    tcpWasError := false }

/-- The rounds of Confirmation and ByeBye packets still to build. -/
structure Countdown where
  remainConfirmationResendCount : Int
  remainByeByeResendCount : Int
  deriving DecidableEq, Repr

/-- The rate control of a connection. -/
structure Pacing where
  udpLastSentUs : Int
  udpSendIntervalUs : Int
  udpSendIntervalUsFloat : Rat
  udpSendMeasureIndex : Int
  udpSendMeasures : Std.ExtTreeMap Int Measure
  /-- The server's sum over its connections. -/
  udpSummaryConnectionsSendIntervalUs : Int

/-- A value read through `udpSentPackets.end()`, with the least and the greatest key of the
map at that time.  The code keeps no such record. -/
structure EndRead where
  value : Int
  first : Int
  last : Int
  maxCount : Int
  deriving DecidableEq, Repr

structure Connection extends Endpoint, Countdown, Pacing where
  udpSentBufferSize : Int32
  endReads : List EndRead
  events : EventName → Event
  deleted : Bool
  io : Io

/-- `round`: halves go away from zero. -/
def roundHalfAway (q : Rat) : Int :=
  if 0 ≤ q then ⌊q + 1 / 2⌋ else -⌊-q + 1 / 2⌋

namespace Pacing

/-- `Connection::onUdpSent` at the time `timeUs`. -/
def onUdpSent (p : Pacing) (config : Config) (measureIndex intervalUs size timeUs : Int) :
    Option Pacing :=
  if measureIndex ≠ p.udpSendMeasureIndex then none
  else
    p.udpSendMeasures[p.udpSendMeasureIndex]?.map fun m =>
      let m := { m with
        count := m.count + 1
        size := m.size + size
        summaryIntervalUs := m.summaryIntervalUs + intervalUs }
      if m.size ≥ config.udpMaxSentMeasureSize
          ∨ timeUs - m.beginUs ≥ config.udpMaxSentMeasureUs then
        let measures := p.udpSendMeasures.insert p.udpSendMeasureIndex { m with endUs := timeUs }
        let next := p.udpSendMeasureIndex + 1
        { p with
          udpSendMeasureIndex := next
          udpSendMeasures := measures.insert next { measures.getD next {} with beginUs := timeUs } }
      else { p with udpSendMeasures := p.udpSendMeasures.insert p.udpSendMeasureIndex m }

/-- `Connection::onUdpDelivered`. -/
def onUdpDelivered (p : Pacing) (config : Config) (success : Bool) (measureIndex size : Int) :
    Pacing :=
  match p.udpSendMeasures[measureIndex]? with
  | none => p
  | some m =>
      let m :=
        if success then { m with successSize := m.successSize + size }
        else { m with failSize := m.failSize + size }
      let p := { p with udpSendMeasures := p.udpSendMeasures.insert measureIndex m }
      if m.beginUs ≥ 0 ∧ m.endUs ≥ m.beginUs ∧ m.count > 0
          ∧ m.successSize + m.failSize ≥ m.size then
        let durationUs : Rat := m.endUs - m.beginUs
        let intervalUs : Rat := m.summaryIntervalUs / m.count
        let actualIntervalUs : Rat := durationUs / m.count
        let successPart : Rat := m.successSize / m.size
        let speedAmplifier : Rat := successPart / (1 - config.udpMaxSendLossPercent / 100)
        let speedAmplifier := if m.failSize ≤ 0 then 2 else speedAmplifier
        let speedAmplifier :=
          if speedAmplifier > 1 ∧ actualIntervalUs > (intervalUs + 1) * 2 then 1 else speedAmplifier
        let speedAmplifier := if speedAmplifier < 1 / 2 then 1 / 2 else speedAmplifier
        let speedAmplifier := if speedAmplifier > 2 then 2 else speedAmplifier
        let interval := intervalUs / speedAmplifier
        let maxIntervalUs : Rat := config.udpResendUs.tdiv 3
        let addSpeed := 1 / maxIntervalUs
        let interval := interval / (1 + addSpeed * interval)
        let interval := if interval < 1 / 10 then 1 / 10 else interval
        let interval := if interval > maxIntervalUs then maxIntervalUs else interval
        let udpSendIntervalUs := roundHalfAway interval
        -- The erase loop walks from the measure back to the first one.
        let closed := (p.udpSendMeasures.keys.takeWhile (· ≤ measureIndex)).reverse
        { p with
          udpSummaryConnectionsSendIntervalUs :=
            p.udpSummaryConnectionsSendIntervalUs - p.udpSendIntervalUs + udpSendIntervalUs
          udpSendIntervalUs := udpSendIntervalUs
          udpSendIntervalUsFloat := interval
          udpSendMeasures := closed.foldl (fun measures key => measures.erase key) p.udpSendMeasures }
      else p

end Pacing

namespace Connection

def isEnabled (c : Connection) (name : EventName) : Bool :=
  (c.events name).isEnabled

def setTime (c : Connection) (name : EventName) (timeUs : Int) : Connection :=
  { c with events := Function.update c.events name ((c.events name).setTime timeUs false) }

def disable (c : Connection) (name : EventName) : Connection :=
  { c with events := Function.update c.events name (c.events name).disable }

/-- `Platform::nowUs()`. -/
def nowUs (c : Connection) : Int :=
  c.io.nowUs.head

/-- The reading `nowUs` gave is spent. -/
def tick (c : Connection) : Connection :=
  { c with io.nowUs := c.io.nowUs.tail }

def setTimeRelativeNow (c : Connection) (name : EventName) (timeUs : Int) : Connection :=
  (c.setTime name (c.nowUs + timeUs)).tick

def isNoMoreDataWillBeSent (c : Connection) : Bool :=
  c.toSession.isNoMoreDataWillBeSent

def isUdpFinished (c : Connection) : Bool :=
  if !c.udpConnected then true
  else
    c.isNoMoreDataWillBeSent
      && c.udpConfirmationPackets.isEmpty
      && c.udpConfirmedMasterIndex ≥ c.udpReceivedMasterIndex
      && c.tcpNextSendIndex ≥ c.udpReceivedMasterIndex
      && c.remainConfirmationResendCount ≤ 0
      && c.remainByeByeResendCount ≤ 0
      && !c.isEnabled .udpCloseWait

/-- The `count` of `onUdpSentBufferChanged`. -/
def sentCount (c : Connection) : Int :=
  match c.udpSentPackets.keys with
  | [] => 0
  | first :: keys => c.io.endFirst.head (first :: keys) - first

/-- The `maxCount` of `onUdpSentBufferChanged`. -/
def maxCount (c : Connection) : Int :=
  min ((10 * 1000000 : Int).tdiv c.udpSendIntervalUs)
    (c.udpMaxSentBufferSize.tdiv c.udpSendPacketSize)

def endRead (c : Connection) : EndRead :=
  { value := c.io.endFirst.head c.udpSentPackets.keys
    first := c.udpSentPackets.keys.headD 0
    last := c.udpSentPackets.keys.getLastD 0
    maxCount := c.maxCount }

/-- The reading through `udpSentPackets.end()`, if there was one, is spent. -/
def tickEnd (c : Connection) : Connection :=
  if c.udpSentPackets.isEmpty then c
  else { c with io.endFirst := c.io.endFirst.tail, endReads := c.endReads ++ [c.endRead] }

def onUdpSentBufferChanged (c : Connection) (sizeIncrement : Int) : Connection :=
  let c := { c with udpSentBufferSize := c.udpSentBufferSize + Int32.ofInt sizeIncrement }
  if c.sentCount ≤ c.maxCount then c.tickEnd.setTimeRelativeNow .tcpRead 0
  else c.tickEnd.disable .tcpRead

/-- The clock is read only when the measure is there. -/
def onUdpSent (c : Connection) (measureIndex intervalUs size : Int) : Connection :=
  match c.toPacing.onUdpSent c.toConfig measureIndex intervalUs size c.nowUs with
  | none => c
  | some pacing => { c.tick with toPacing := pacing }

def onUdpDelivered (c : Connection) (success : Bool) (measureIndex size : Int) : Connection :=
  { c with toPacing := c.toPacing.onUdpDelivered c.toConfig success measureIndex size }

def setEventUdpWrite (c : Connection) : Connection :=
  let c :=
    if !c.isEnabled .udpWrite then
      { c.tick with udpLastSentUs := max c.udpLastSentUs (c.nowUs - c.udpSendIntervalUs) }
    else c
  c.setTime .udpWrite (c.udpLastSentUs + c.udpSendIntervalUs)

/-- A packet enters `udpSentPackets`, as in the constructor, `buildUdpPackets` and
`tcpClose`. -/
def push (c : Connection) (type : PacketType) (payload : List UInt8) : Connection :=
  { c with toSender := c.toSender.push c.udpResendCount type payload }

/-- The loop of `buildUdpPackets` over the bytes from position `i` on, and the
bytes it leaves. -/
def buildUdpPacketsLoop (flush : Bool) : Nat → List UInt8 → Connection → Connection × List UInt8
  | 0, rest, c => (c, rest)
  | fuel + 1, rest, c =>
      if rest.isEmpty then (c, rest)
      else
        let size := min (rest.length : Int) c.udpSendPacketSize
        if (!flush && size < c.udpSendPacketSize) || size ≤ 0 then (c, rest)
        else
          let payload := rest.take size.toNat
          let c := (c.push .data payload).setEventUdpWrite
          let c := c.onUdpSentBufferChanged payload.length
          buildUdpPacketsLoop flush fuel (rest.drop size.toNat) c

/-- `buildUdpPackets` from its loop on.  Every packet takes a byte at least, so the
number of bytes is enough fuel. -/
def buildReceivedData (c : Connection) (flush : Bool) : Connection :=
  let size := c.tcpReceivedData.length
  let (c, rest) := buildUdpPacketsLoop flush size c.tcpReceivedData c
  let c := { c with tcpReceivedData := rest }
  let c := if rest.length < size ∨ rest = [] then c.disable .buildUdpPackets else c
  if rest = [] then c
  else c.setTimeRelativeNow .buildUdpPackets c.buildUdpPacketsUs

def buildUdpPackets (c : Connection) (flush : Bool) : Connection :=
  if !c.udpConnected then c
  else if c.udpReceivedFinalIndex = c.udpReceivedMasterIndex then
    { c with tcpReceivedData := [] }.buildReceivedData flush
  else c.buildReceivedData flush

def tcpRead (c : Connection) : Connection :=
  if !c.tcpConnected then c
  else
    let bytes := c.io.tcpBytes.take c.udpSendPacketSize.toNat
    let c :=
      if bytes = [] then c
      else
        let c := { c with toSender := c.toSender.record (.read bytes) }
        if c.udpConnected then
          { c with tcpReceivedData := c.tcpReceivedData ++ bytes }.buildUdpPackets false
        else c
    c.onUdpSentBufferChanged 0

/-- The last part of the loop of `tcpWrite`, for a Data packet. -/
def tcpWriteData (c : Connection) (packet : Packet) : Connection :=
  let size := min c.io.tcpAccepted packet.getData.length
  let c := if size > 0 then { c with toReceiver := c.toReceiver.write packet size } else c
  if c.tcpNextSendIndex < c.udpReceivedMasterIndex then c.setTimeRelativeNow .tcpWrite 0 else c

/-- The loop of `tcpWrite`, and whether it was left through `tcpClose(); return;`. -/
def tcpWriteLoop (fake : Bool) : Nat → Connection → Connection × Bool
  | 0, c => (c, false)
  | fuel + 1, c =>
      if c.tcpNextSendIndex < c.udpReceivedMasterIndex then
        match c.udpReceivedPackets[c.tcpNextSendIndex]? with
        | none => (c, false)
        | some packet =>
            if fake || packet.getType ≠ .data || packet.getSize ≤ 0 then
              let c := { c with toReceiver := c.toReceiver.skip packet fake }
              if !fake && packet.getType.isClosing then (c, true)
              else tcpWriteLoop fake fuel c
            else (c.tcpWriteData packet, false)
      else (c, false)

/-- Every `continue` moves `tcpNextSendIndex`, so the distance to the master index
is enough fuel. -/
def tcpWriteFuel (c : Connection) : Nat :=
  (c.udpReceivedMasterIndex - c.tcpNextSendIndex).toNat

/-- `tcpWrite(true)`. -/
def tcpWriteFake (c : Connection) : Connection :=
  if c.tcpConnected then c else (tcpWriteLoop true c.tcpWriteFuel c).1

def tcpClose (c : Connection) (error : Bool) : Connection :=
  if !c.tcpConnected then c
  else
    let c := { c with tcpConnected := false }
    let c := (c.disable .tcpRead).disable .tcpWrite
    if !c.udpConnected then c.setTimeRelativeNow .close 0
    else
      let c := c.tcpWriteFake.buildUdpPackets true
      let c := c.push (if error then .disconnect else .bye) []
      (c.onUdpSentBufferChanged 0).setEventUdpWrite

/-- `tcpWrite(false)`. -/
def tcpWrite (c : Connection) : Connection :=
  if !c.tcpConnected then c
  else
    let (c, closing) := tcpWriteLoop false c.tcpWriteFuel c
    if closing then c.tcpClose false else c

def udpClose (c : Connection) : Connection :=
  if !c.udpConnected then c
  else
    let c := { c with udpConnected := false }
    let c := (((c.disable .buildUdpPackets).disable .buildConfirmations).disable .udpResend)
    let c := (c.disable .tcpRead).disable .udpWrite
    let c := { c with tcpReceivedData := [], udpConfirmationPackets := [], udpSentPackets := ∅ }
    let c := c.onUdpSentBufferChanged (-c.udpSentBufferSize).toInt
    if !c.tcpConnected then c.setTimeRelativeNow .close 0
    else if c.tcpNextSendIndex ≥ c.udpReceivedMasterIndex then c.tcpClose false
    else c

/-- `if (isUdpFinished()) udpClose();` -/
def closeIfUdpFinished (c : Connection) : Connection :=
  if c.isUdpFinished then
    let finished := if c.udpConnected then some c.toSession else c.finished
    { c with finished := finished }.udpClose
  else c

/-- The first packet of `udpSentPackets` that is not sent. -/
def firstUnsent (c : Connection) : Option (Int × Packet) :=
  c.udpSentPackets.toList.find? fun entry => !entry.2.sent

/-- The part of `udpWrite` for Confirmation and ByeBye packets. -/
def udpWriteConfirmation (c : Connection) (plannedTimeUs : Int) (packet : Packet)
    (packets : List Packet) : Connection :=
  let c := { c with toSender := c.toSender.record (.writeto packet.wire) }
  if c.io.udpWritten > 0 ∨ packet.getRawSize = 0 then
    let c := { c with udpLastSentUs := plannedTimeUs }
    let c := c.onUdpSentBufferChanged (-packet.getSize)
    let c := { c with udpConfirmationPackets := packets }
    if c.isUdpFinished then c.closeIfUdpFinished
    else if packets ≠ [] ∨ c.udpPacketsToSendCount > 0 then
      c.setTime .udpWrite (c.udpLastSentUs + c.udpSendIntervalUs)
    else c
  else c.setTime .udpWrite (c.udpLastSentUs + c.udpSendIntervalUs)

/-- The part of `udpWrite` for the first unsent packet. -/
def udpWritePacket (c : Connection) (plannedTimeUs : Int) (index : Int) (packet : Packet) :
    Connection :=
  let c := { c with toSender := c.toSender.record (.writeto packet.wire) }
  if c.io.udpWritten > 0 ∨ packet.getRawSize = 0 then
    let packet := { packet with
      sent := true, sentTimeUs := c.nowUs, measureIndex := c.udpSendMeasureIndex }
    let c := { c.tick with
      udpSentPackets := c.udpSentPackets.insert index packet
      udpLastSentUs := plannedTimeUs }
    let c := c.onUdpSent c.udpSendMeasureIndex c.udpSendIntervalUs packet.getSize
    let c := { c with udpPacketsToSendCount := c.udpPacketsToSendCount - 1 }
    if packet.isComplete then
      -- "packet was confirmed before sent"
      let c := c.onUdpSentBufferChanged (-packet.getSize)
      let c := { c with udpSentPackets := c.udpSentPackets.erase index }
      if c.isUdpFinished then c.closeIfUdpFinished
      else if c.udpPacketsToSendCount > 0 then
        c.setTime .udpWrite (c.udpLastSentUs + c.udpSendIntervalUs)
      else c
    else
      let c := c.setTimeRelativeNow .udpResend c.udpResendUs
      if c.udpPacketsToSendCount > 0 then
        c.setTime .udpWrite (c.udpLastSentUs + c.udpSendIntervalUs)
      else c
  else if c.udpPacketsToSendCount > 0 then
    c.setTime .udpWrite (c.udpLastSentUs + c.udpSendIntervalUs)
  else c

def udpWrite (c : Connection) (plannedTimeUs : Int) : Connection :=
  if !c.udpConnected then c
  else
    match c.udpConfirmationPackets with
    | packet :: packets => c.udpWriteConfirmation plannedTimeUs packet packets
    | [] =>
        match c.firstUnsent with
        | some (index, packet) => c.udpWritePacket plannedTimeUs index packet
        | none => c

/-- The loop that drops the queued Confirmation packets. -/
def dropConfirmations (c : Connection) : Connection :=
  let dropped := c.udpConfirmationPackets.filter (·.getType = .confirmation)
  let c := { c with
    udpConfirmationPackets := c.udpConfirmationPackets.filter (·.getType ≠ .confirmation) }
  dropped.foldl (fun c packet => c.onUdpSentBufferChanged (-packet.getSize)) c

def pushConfirmation (c : Connection) (payload : List UInt8) : Connection :=
  let packet := c.confirmation payload
  let c := { c with
    udpConfirmationPackets := c.udpConfirmationPackets ++ [packet]
    toReceiver := c.toReceiver.record (.confirm packet.wire) }
  c.onUdpSentBufferChanged packet.getSize

def buildConfirmations (c : Connection) : Connection :=
  if !c.udpConnected then c
  else
    let c := c.dropConfirmations
    let c := c.confirmationPayloads.foldl pushConfirmation c
    let c := { c with udpConfirmedMasterIndex := c.udpReceivedMasterIndex }.setEventUdpWrite
    let c := { c with toReceiver := c.toReceiver.prune }
    let c := { c with remainConfirmationResendCount := c.remainConfirmationResendCount - 1 }
    if c.remainConfirmationResendCount > 0 then
      c.setTimeRelativeNow .buildConfirmations c.buildConfirmationsUs
    else c

def buildByeBye (c : Connection) : Connection :=
  if !c.udpConnected then c
  else
    let packet := c.byeByePacket
    let c := { c with
      udpConfirmationPackets := c.udpConfirmationPackets ++ [packet]
      toSender := c.toSender.record (.byeBye packet.wire c.udpSentPackets.keys) }
    let c := (c.onUdpSentBufferChanged packet.getSize).setEventUdpWrite
    let c := { c with remainByeByeResendCount := c.remainByeByeResendCount - 1 }
    if c.remainByeByeResendCount > 0 then
      c.setTimeRelativeNow .buildByeBye c.buildConfirmationsUs
    else c

/-- The loop of `udpResend` over the remaining keys. -/
def udpResendLoop (timeUs : Int) : List Int → Connection → Connection
  | [], c => c
  | index :: indices, c =>
      match c.udpSentPackets[index]? with
      | none => udpResendLoop timeUs indices c
      | some packet =>
          if packet.sent then
            if packet.sentTimeUs + c.udpResendUs ≤ timeUs then
              if packet.remainResendCount > 0 then
                let packet := { packet with
                  sent := false, remainResendCount := packet.remainResendCount - 1 }
                let c := { c with
                  udpPacketsToSendCount := c.udpPacketsToSendCount + 1
                  udpSentPackets := c.udpSentPackets.insert index packet }
                let c := c.onUdpDelivered false packet.measureIndex packet.getSize
                udpResendLoop timeUs indices c.setEventUdpWrite
              else
                -- "remote udp host don't answers"
                c.udpClose
            else udpResendLoop timeUs indices (c.setTime .udpResend (packet.sentTimeUs + c.udpResendUs))
          else udpResendLoop timeUs indices c

def udpResend (c : Connection) : Connection :=
  if !c.udpConnected then c
  else udpResendLoop c.nowUs c.udpSentPackets.keys c.tick

/-- What both loops of the Confirmation branch do to a packet they find. -/
def confirmPacket (c : Connection) (index : Int) : Connection :=
  match c.udpSentPackets[index]? with
  | none => c
  | some packet =>
      let c := if !packet.confirmed then c.onUdpDelivered true packet.measureIndex packet.getSize else c
      let c := if !packet.sent then
          { c with udpPacketsToSendCount := c.udpPacketsToSendCount - 1 }
        else c
      -- `sent` and `confirmed` are both set now, so the packet is complete.
      let c := c.onUdpSentBufferChanged (-packet.getSize)
      { c with udpSentPackets := c.udpSentPackets.erase index }

/-- The indices `first..last-1` that the range loop visits. -/
def indicesOf (range : Int × Int) : List Int :=
  (List.range (range.2 - range.1).toNat).map fun (i : Nat) => range.1 + i

def udpReadConfirmation (c : Connection) (packet : Packet) : Connection :=
  let prevNoMoreDataWillBeSent := c.isNoMoreDataWillBeSent
  let c := (c.udpSentPackets.keys.takeWhile (· < packet.getIndex)).foldl confirmPacket c
  let c := packet.confirmedRanges.foldl (fun c range => (indicesOf range).foldl confirmPacket c) c
  let c := if c.udpPacketsToSendCount ≥ c.udpSentPackets.size then c.disable .udpResend else c
  if c.isNoMoreDataWillBeSent && !prevNoMoreDataWillBeSent then
    { c with remainByeByeResendCount := c.confirmationResendCount }.setTimeRelativeNow .buildByeBye 0
  else c

def udpReadPacket (c : Connection) (packet : Packet) : Connection :=
  let c :=
    if packet.getIndex ∈ c.udpReceivedPackets then c
    else
      let c := { c with toReceiver := c.toReceiver.accept packet }.tcpWriteFake
      let c := if c.tcpNextSendIndex < c.udpReceivedMasterIndex then c.setTimeRelativeNow .tcpWrite 0
        else c
      if c.udpReceivedMasterIndex ≥ c.udpReceivedFinalIndex then
        c.setTimeRelativeNow .udpCloseWait (c.udpResendUs * c.udpResendCount + c.udpResendUs)
      else c
  let c := { c with remainConfirmationResendCount := c.confirmationResendCount }
  c.setTimeRelativeNow .buildConfirmations c.buildConfirmationsUs

def udpReadByeBye (c : Connection) (packet : Packet) : Connection :=
  let c := { c with
    remainConfirmationResendCount := 0
    toReceiver := c.toReceiver.record (.byeBye packet.wire) }
  let c := (c.disable .buildConfirmations).dropConfirmations
  if c.isEnabled .udpCloseWait then
    c.setTimeRelativeNow .udpCloseWait
      ((c.udpResendUs * c.confirmationResendCount).tdiv 3 + c.udpResendUs)
  else c

def udpRead (c : Connection) (packet : Packet) : Connection :=
  if !c.udpConnected then c
  else
    let c :=
      if packet.getType = .confirmation then c.udpReadConfirmation packet
      else if c.toSession.acceptsPacket packet then c.udpReadPacket packet
      else if c.toSession.acceptsByeBye packet then c.udpReadByeBye packet
      else c
    c.closeIfUdpFinished

/-- `Connection::handle`. -/
def handle (c : Connection) (event : EventName) (plannedTimeUs : Int) : Connection :=
  match event with
  | .tcpRead => c.tcpRead
  | .tcpWrite => c.tcpWrite
  | .tcpClose => c.tcpClose c.io.tcpWasError
  | .udpWrite => c.udpWrite plannedTimeUs
  | .udpClose => c.udpClose
  | .buildUdpPackets => c.buildUdpPackets true
  | .buildConfirmations => c.buildConfirmations
  | .buildByeBye => c.buildByeBye
  | .udpResend => c.udpResend
  | .udpCloseWait => c.closeIfUdpFinished
  | .close => { c with deleted := true }

/-- `Event::raise`: the event is disabled before its handler runs. -/
def raise (c : Connection) (event : EventName) : Connection :=
  (c.disable event).handle event (c.events event).timeUs

/-- The constructor. -/
def new (config : Config) (udpInitialSendIntervalUs udpSummaryConnectionsSendIntervalUs : Int)
    (io : Io) : Connection :=
  let c : Connection :=
    { toEndpoint := .blank config
      remainConfirmationResendCount := 0
      remainByeByeResendCount := 0
      udpLastSentUs := 0
      udpSendIntervalUs := udpInitialSendIntervalUs
      udpSendIntervalUsFloat := udpInitialSendIntervalUs
      udpSendMeasureIndex := 0
      udpSendMeasures := ∅
      udpSummaryConnectionsSendIntervalUs := udpSummaryConnectionsSendIntervalUs
      udpSentBufferSize := 0
      endReads := []
      events := fun _ => {}
      deleted := false
      io := io }
  let c := { c.tick with
    udpSendMeasures := c.udpSendMeasures.insert c.udpSendMeasureIndex { beginUs := c.nowUs }
    udpSummaryConnectionsSendIntervalUs :=
      c.udpSummaryConnectionsSendIntervalUs + c.udpSendIntervalUs }
  let c := (c.push .hello []).onUdpSentBufferChanged 0
  let c := c.setTimeRelativeNow .udpWrite 0
  let c := c.setTimeRelativeNow .tcpClose 0
  c.setTimeRelativeNow .udpClose 0

/-- One thing that can happen to a connection: a round of `doEvents(timeUs)`
raises one of its events, or its listener hands it a packet. -/
inductive Move
  | raise (event : EventName) (timeUs : Nat) (io : Io)
  | udpRead (packet : Packet) (io : Io)

def step (c : Connection) : Move → Option Connection
  | .raise event timeUs io =>
      if c.deleted = false ∧ c.isEnabled event = true ∧ (c.events event).timeUs ≤ timeUs then
        some ({ c with io := io }.raise event)
      else none
  | .udpRead packet io =>
      if c.deleted then none else some ({ c with io := io }.udpRead packet.wire)

end Connection

end IceTunnel
