import IceTunnel.Foundation.SortedKeys
import IceTunnel.Confirmation

/-!
The protocol state of a `Connection`: the two packet maps, the queue of
Confirmation and ByeBye packets and the indices that `connection.h` declares,
without the timers and the rate control.  `std::map<int, Packet>` is
`Std.ExtTreeMap Int Packet`.
-/

namespace IceTunnel

/-- `INT_MAX`, the `udpReceivedFinalIndex` of a stream with no end in sight. -/
def intMax : Int := 2147483647

/-- The parameters a `Connection` is constructed with. -/
structure Config where
  udpSendPacketSize : Int
  udpMaxSentBufferSize : Int
  udpMaxReceiveBufferSize : Int
  udpMaxSentMeasureSize : Int
  udpResendCount : Int
  confirmationResendCount : Int
  udpMaxSendLossPercent : Rat
  udpResendUs : Int
  buildConfirmationsUs : Int
  buildUdpPacketsUs : Int
  udpMaxSentMeasureUs : Int
  deriving DecidableEq, Repr

/-- `2*udpMaxReceiveBufferSize/udpSendPacketSize`: how far ahead of TCP a packet is let in.  The
product is an `int`. -/
def Config.receiveWindow (config : Config) : Int :=
  (wrap32 (2 * config.udpMaxReceiveBufferSize)).tdiv config.udpSendPacketSize

theorem Config.receiveWindow_of_lt {config : Config} (hlow : -2 ^ 30 ≤ config.udpMaxReceiveBufferSize)
    (hhigh : config.udpMaxReceiveBufferSize < 2 ^ 30) :
    config.receiveWindow = (2 * config.udpMaxReceiveBufferSize).tdiv config.udpSendPacketSize := by
  rw [receiveWindow, wrap32_of_lt (by omega) (by omega)]

/-- Small buffers and short times. -/
def Config.small : Config :=
  { udpSendPacketSize := 10
    udpMaxSentBufferSize := 100
    udpMaxReceiveBufferSize := 100
    udpMaxSentMeasureSize := 1000
    udpResendCount := 2
    confirmationResendCount := 1
    udpMaxSendLossPercent := 5
    udpResendUs := 3000
    buildConfirmationsUs := 100
    buildUdpPacketsUs := 100
    udpMaxSentMeasureUs := 100000 }

structure Ends where
  tcpConnected : Bool
  udpConnected : Bool
  deriving DecidableEq, Repr

/-- What the sending half of a connection has done.  The code keeps no such
record. -/
inductive SendAction
  /-- `tcpSocket->read` returned these bytes. -/
  | read (bytes : List UInt8)
  /-- A packet was encoded into `udpSentPackets`. -/
  | create (packet : Packet)
  /-- A packet was passed to `writeto`. -/
  | writeto (packet : Packet)
  /-- `buildByeBye` encoded a packet while these indices were unconfirmed. -/
  | byeBye (packet : Packet) (unconfirmed : List Int)
  deriving DecidableEq, Repr

/-- What the receiving half of a connection has done. -/
inductive ReceiveAction
  /-- `tcpSocket->write` accepted these bytes. -/
  | write (bytes : List UInt8)
  /-- A packet was inserted into `udpReceivedPackets`. -/
  | accept (packet : Packet)
  /-- `tcpWrite(fake)` moved past a packet. -/
  | consume (packet : Packet) (fake : Bool)
  /-- `buildConfirmations` encoded a Confirmation packet. -/
  | confirm (packet : Packet)
  /-- A ByeBye packet cancelled the outstanding confirmations. -/
  | byeBye (packet : Packet)
  deriving DecidableEq, Repr

structure Sender where
  udpNextSendIndex : Int
  udpPacketsToSendCount : Int
  tcpReceivedData : List UInt8
  udpSentPackets : Std.ExtTreeMap Int Packet
  sendHistory : List SendAction

structure Receiver where
  tcpNextSendIndex : Int
  udpReceivedMasterIndex : Int
  udpConfirmedMasterIndex : Int
  udpReceivedFinalIndex : Int
  udpReceiveBufferSize : Int32
  udpReceivedPackets : Std.ExtTreeMap Int Packet
  receiveHistory : List ReceiveAction

/-- The fields of a `Connection` that the protocol is about. -/
structure Session extends Config, Ends, Sender, Receiver where
  udpConfirmationPackets : List Packet

/-- A session, and what it was when `isUdpFinished()` let it close. -/
structure Endpoint extends Session where
  finished : Option Session

/-- An endpoint before its constructor has encoded the Hello packet. -/
def Endpoint.blank (config : Config) : Endpoint :=
  { toConfig := config
    tcpConnected := true
    udpConnected := true
    udpNextSendIndex := 0
    udpPacketsToSendCount := 0
    tcpReceivedData := []
    udpSentPackets := ∅
    sendHistory := []
    tcpNextSendIndex := 0
    udpReceivedMasterIndex := 0
    udpConfirmedMasterIndex := 0
    udpReceivedFinalIndex := intMax
    udpReceiveBufferSize := 0
    udpReceivedPackets := ∅
    receiveHistory := []
    udpConfirmationPackets := []
    finished := none }

namespace SendAction

def taken : SendAction → List UInt8
  | read bytes => bytes
  | _ => []

def created? : SendAction → Option Packet
  | create packet => some packet
  | _ => none

def transmitted? : SendAction → Option Packet
  | writeto packet => some packet.wire
  | _ => none

def byeBye? : SendAction → Option Packet
  | byeBye packet _ => some packet
  | _ => none

end SendAction

namespace ReceiveAction

def handed : ReceiveAction → List UInt8
  | write bytes => bytes
  | _ => []

def accepted? : ReceiveAction → Option Packet
  | accept packet => some packet
  | _ => none

def confirmation? : ReceiveAction → Option Packet
  | confirm packet => some packet
  | _ => none

end ReceiveAction

namespace Sender

/-- All bytes `tcpRead` has taken from the TCP socket. -/
def taken (s : Sender) : List UInt8 :=
  s.sendHistory.flatMap SendAction.taken

/-- All packets created, in the order of their indices. -/
def created (s : Sender) : List Packet :=
  s.sendHistory.filterMap SendAction.created?

/-- All packets passed to `writeto`. -/
def transmitted (s : Sender) : List Packet :=
  s.sendHistory.filterMap SendAction.transmitted?

def byeByes (s : Sender) : List Packet :=
  s.sendHistory.filterMap SendAction.byeBye?

def record (s : Sender) (action : SendAction) : Sender :=
  { s with sendHistory := s.sendHistory ++ [action] }

/-- A new packet in `udpSentPackets`. -/
def push (s : Sender) (udpResendCount : Int) (type : PacketType) (payload : List UInt8) : Sender :=
  let packet := (s.udpSentPackets.getD s.udpNextSendIndex {}).encode type s.udpNextSendIndex payload
  { s with
    udpSentPackets := s.udpSentPackets.insert s.udpNextSendIndex
      { packet with remainResendCount := udpResendCount }
    udpNextSendIndex := s.udpNextSendIndex + 1
    udpPacketsToSendCount := s.udpPacketsToSendCount + 1
    sendHistory := s.sendHistory ++ [.create packet.wire] }

theorem wire_of_mem_transmitted {s : Sender} {p : Packet} (h : p ∈ s.transmitted) : p.wire = p := by
  obtain ⟨action, -, haction⟩ := List.mem_filterMap.mp h
  cases action with
  | writeto packet =>
      obtain rfl := Option.some.inj haction
      rfl
  | _ => cases haction

section Histories

variable (s : Sender) (action : SendAction) (udpResendCount : Int) (type : PacketType)
  (payload : List UInt8)

@[simp] theorem record_taken : (s.record action).taken = s.taken ++ action.taken := by
  simp [record, taken]

@[simp] theorem record_created :
    (s.record action).created = s.created ++ action.created?.toList := by
  simp only [record, created, List.filterMap_append]
  cases h : action.created? <;> simp [h]

@[simp] theorem record_transmitted :
    (s.record action).transmitted = s.transmitted ++ action.transmitted?.toList := by
  simp only [record, transmitted, List.filterMap_append]
  cases h : action.transmitted? <;> simp [h]

@[simp] theorem record_byeByes :
    (s.record action).byeByes = s.byeByes ++ action.byeBye?.toList := by
  simp only [record, byeByes, List.filterMap_append]
  cases h : action.byeBye? <;> simp [h]

@[simp] theorem push_taken : (s.push udpResendCount type payload).taken = s.taken := by
  simp [push, taken, SendAction.taken]

@[simp] theorem push_created : (s.push udpResendCount type payload).created =
    s.created ++ [Packet.datagram type s.udpNextSendIndex payload] := by
  simp [push, created, SendAction.created?, Packet.encode_wire]

@[simp] theorem push_transmitted :
    (s.push udpResendCount type payload).transmitted = s.transmitted := by
  simp [push, transmitted, SendAction.transmitted?]

@[simp] theorem push_byeByes : (s.push udpResendCount type payload).byeByes = s.byeByes := by
  simp [push, byeByes, SendAction.byeBye?]

@[simp] theorem push_udpNextSendIndex :
    (s.push udpResendCount type payload).udpNextSendIndex = s.udpNextSendIndex + 1 := rfl

@[simp] theorem push_tcpReceivedData :
    (s.push udpResendCount type payload).tcpReceivedData = s.tcpReceivedData := rfl

end Histories

end Sender

namespace Receiver

/-- All bytes `tcpWrite` has handed to the TCP socket. -/
def handed (r : Receiver) : List UInt8 :=
  r.receiveHistory.flatMap ReceiveAction.handed

def accepted (r : Receiver) : List Packet :=
  r.receiveHistory.filterMap ReceiveAction.accepted?

def confirmations (r : Receiver) : List Packet :=
  r.receiveHistory.filterMap ReceiveAction.confirmation?

def record (r : Receiver) (action : ReceiveAction) : Receiver :=
  { r with receiveHistory := r.receiveHistory ++ [action] }

/-- The loop of `udpRead` that moves `udpReceivedMasterIndex` over the packets
received in sequence. -/
def advance : Nat → Receiver → Receiver
  | 0, r => r
  | fuel + 1, r =>
      match r.udpReceivedPackets[r.udpReceivedMasterIndex]? with
      | none => r
      | some packet =>
          if r.udpReceivedMasterIndex < r.udpReceivedFinalIndex then
            let masterIndex := r.udpReceivedMasterIndex + 1
            let finalIndex := if packet.getType.isClosing then masterIndex else r.udpReceivedFinalIndex
            advance fuel
              { r with udpReceivedMasterIndex := masterIndex, udpReceivedFinalIndex := finalIndex }
          else r

theorem advance_of_gap {r : Receiver} (h : r.udpReceivedMasterIndex ∉ r.udpReceivedPackets)
    (fuel : Nat) : advance fuel r = r := by
  cases fuel with
  | zero => rfl
  | succ fuel => rw [advance, Std.ExtTreeMap.getElem?_eq_none h]

/-- The part of the data branch of `udpRead` that stores a new packet.  Every
turn of the loop passes one key, so the size of the map is enough fuel. -/
def accept (r : Receiver) (packet : Packet) : Receiver :=
  let udpReceivedPackets := r.udpReceivedPackets.insert packet.getIndex packet
  advance udpReceivedPackets.size
    { r with
      udpReceivedPackets := udpReceivedPackets
      udpReceiveBufferSize := r.udpReceiveBufferSize + .ofInt packet.getSize
      receiveHistory := r.receiveHistory ++ [.accept packet.wire] }

/-- `tcpWrite` is done with the packet at `tcpNextSendIndex`: `sent = true;`, the
erasure of a complete packet and `++tcpNextSendIndex;`. -/
def consume (r : Receiver) (packet : Packet) (fake : Bool) : Receiver :=
  let packet := { packet with sent := true }
  { r with
    udpReceivedPackets :=
      if packet.isComplete then r.udpReceivedPackets.erase r.tcpNextSendIndex
      else r.udpReceivedPackets.insert r.tcpNextSendIndex packet
    tcpNextSendIndex := r.tcpNextSendIndex + 1
    receiveHistory := r.receiveHistory ++ [.consume packet.wire fake] }

/-- The branch of `tcpWrite` for packets with nothing to hand to TCP. -/
def skip (r : Receiver) (packet : Packet) (fake : Bool) : Receiver :=
  let r := if packet.confirmed then
      { r with udpReceiveBufferSize := r.udpReceiveBufferSize - .ofInt packet.getSize }
    else r
  r.consume packet fake

/-- `tcpSocket->write` has accepted the first `size` bytes of the payload. -/
def write (r : Receiver) (packet : Packet) (size : Nat) : Receiver :=
  let rest := packet.erasePayload size
  let r := { r with
    udpReceivedPackets := r.udpReceivedPackets.insert r.tcpNextSendIndex rest
    udpReceiveBufferSize := r.udpReceiveBufferSize - .ofInt size
    receiveHistory := r.receiveHistory ++ [.write (packet.getData.take size)] }
  if rest.getSize ≤ 0 then r.consume rest false else r

/-- One turn of the last loop of `buildConfirmations`. -/
def pruneKey (r : Receiver) (key : Int) : Receiver :=
  match r.udpReceivedPackets[key]? with
  | none => r
  | some packet =>
      let packet := { packet with confirmed := decide (key < r.udpReceivedMasterIndex) }
      if packet.isComplete then
        { r with
          udpReceivedPackets := r.udpReceivedPackets.erase key
          udpReceiveBufferSize := r.udpReceiveBufferSize - .ofInt packet.getSize }
      else { r with udpReceivedPackets := r.udpReceivedPackets.insert key packet }

/-- The last loop of `buildConfirmations`, over the keys below `tcpNextSendIndex`. -/
def prune (r : Receiver) : Receiver :=
  (r.udpReceivedPackets.keys.takeWhile (· < r.tcpNextSendIndex)).foldl pruneKey r

section Histories

variable (r : Receiver) (action : ReceiveAction)

@[simp] theorem record_handed : (r.record action).handed = r.handed ++ action.handed := by
  simp [record, handed]

@[simp] theorem record_accepted :
    (r.record action).accepted = r.accepted ++ action.accepted?.toList := by
  simp only [record, accepted, List.filterMap_append]
  cases h : action.accepted? <;> simp [h]

@[simp] theorem record_tcpNextSendIndex :
    (r.record action).tcpNextSendIndex = r.tcpNextSendIndex := rfl

@[simp] theorem record_udpReceivedPackets :
    (r.record action).udpReceivedPackets = r.udpReceivedPackets := rfl

@[simp] theorem mem_record_receiveHistory (other : ReceiveAction) :
    other ∈ (r.record action).receiveHistory ↔ other ∈ r.receiveHistory ∨ other = action := by
  simp [record]

@[simp] theorem record_confirmations :
    (r.record action).confirmations = r.confirmations ++ action.confirmation?.toList := by
  simp only [record, confirmations, List.filterMap_append]
  cases h : action.confirmation? <;> simp [h]

end Histories

section Indices

variable (r : Receiver) (packet : Packet)

@[simp] theorem skip_udpReceivedMasterIndex (fake : Bool) :
    (r.skip packet fake).udpReceivedMasterIndex = r.udpReceivedMasterIndex := by
  simp only [skip, consume]
  split <;> rfl

@[simp] theorem skip_udpConfirmedMasterIndex (fake : Bool) :
    (r.skip packet fake).udpConfirmedMasterIndex = r.udpConfirmedMasterIndex := by
  simp only [skip, consume]
  split <;> rfl

@[simp] theorem skip_udpReceivedFinalIndex (fake : Bool) :
    (r.skip packet fake).udpReceivedFinalIndex = r.udpReceivedFinalIndex := by
  simp only [skip, consume]
  split <;> rfl

@[simp] theorem skip_tcpNextSendIndex (fake : Bool) :
    (r.skip packet fake).tcpNextSendIndex = r.tcpNextSendIndex + 1 := by
  simp only [skip, consume]
  split <;> rfl

@[simp] theorem write_udpReceivedMasterIndex (size : Nat) :
    (r.write packet size).udpReceivedMasterIndex = r.udpReceivedMasterIndex := by
  simp only [write, consume]
  split <;> rfl

@[simp] theorem write_udpConfirmedMasterIndex (size : Nat) :
    (r.write packet size).udpConfirmedMasterIndex = r.udpConfirmedMasterIndex := by
  simp only [write, consume]
  split <;> rfl

theorem write_tcpNextSendIndex (size : Nat) :
    (r.write packet size).tcpNextSendIndex = r.tcpNextSendIndex ∨
      (r.write packet size).tcpNextSendIndex = r.tcpNextSendIndex + 1 := by
  simp only [write, consume]
  split
  · exact .inr rfl
  · exact .inl rfl

@[simp] theorem write_udpReceivedFinalIndex (size : Nat) :
    (r.write packet size).udpReceivedFinalIndex = r.udpReceivedFinalIndex := by
  simp only [write, consume]
  split <;> rfl

/-- The loop of `udpRead` moves the master and the final index only. -/
theorem advance_eq (fuel : Nat) : ∃ masterIndex finalIndex : Int,
    advance fuel r = { r with
      udpReceivedMasterIndex := masterIndex
      udpReceivedFinalIndex := finalIndex } ∧
    r.udpReceivedMasterIndex ≤ masterIndex ∧
    (masterIndex = r.udpReceivedMasterIndex → finalIndex = r.udpReceivedFinalIndex) := by
  induction fuel generalizing r with
  | zero => exact ⟨_, _, rfl, le_refl _, fun _ => rfl⟩
  | succ fuel ih =>
      simp only [advance]
      split
      · exact ⟨_, _, rfl, le_refl _, fun _ => rfl⟩
      · split
        · obtain ⟨masterIndex, finalIndex, heq, hle, -⟩ := ih _
          rw [heq]
          exact ⟨masterIndex, finalIndex, rfl, by simp only at hle; omega,
            fun h => by simp only at hle; omega⟩
        · exact ⟨_, _, rfl, le_refl _, fun _ => rfl⟩

@[simp] theorem advance_receiveHistory (fuel : Nat) :
    (advance fuel r).receiveHistory = r.receiveHistory := by
  obtain ⟨masterIndex, finalIndex, heq, -⟩ := r.advance_eq fuel
  rw [heq]

theorem accept_eq : ∃ masterIndex finalIndex : Int,
    r.accept packet = { r with
      udpReceivedMasterIndex := masterIndex
      udpReceivedFinalIndex := finalIndex
      udpReceivedPackets := r.udpReceivedPackets.insert packet.getIndex packet
      udpReceiveBufferSize := r.udpReceiveBufferSize + .ofInt packet.getSize
      receiveHistory := r.receiveHistory ++ [.accept packet.wire] } ∧
    r.udpReceivedMasterIndex ≤ masterIndex ∧
    (masterIndex = r.udpReceivedMasterIndex → finalIndex = r.udpReceivedFinalIndex) := by
  obtain ⟨masterIndex, finalIndex, heq, hle, hsame⟩ := advance_eq
    { r with
      udpReceivedPackets := r.udpReceivedPackets.insert packet.getIndex packet
      udpReceiveBufferSize := r.udpReceiveBufferSize + .ofInt packet.getSize
      receiveHistory := r.receiveHistory ++ [.accept packet.wire] }
    (r.udpReceivedPackets.insert packet.getIndex packet).size
  exact ⟨masterIndex, finalIndex, by simp only [accept, heq], hle, hsame⟩

@[simp] theorem accept_confirmations : (r.accept packet).confirmations = r.confirmations := by
  simp [accept, confirmations, ReceiveAction.confirmation?]

@[simp] theorem accept_accepted : (r.accept packet).accepted = r.accepted ++ [packet.wire] := by
  simp [accept, accepted, ReceiveAction.accepted?]

@[simp] theorem accept_handed : (r.accept packet).handed = r.handed := by
  simp [accept, handed, ReceiveAction.handed]

@[simp] theorem consume_confirmations (fake : Bool) :
    (r.consume packet fake).confirmations = r.confirmations := by
  simp [consume, confirmations, ReceiveAction.confirmation?]

@[simp] theorem consume_accepted (fake : Bool) :
    (r.consume packet fake).accepted = r.accepted := by
  simp [consume, accepted, ReceiveAction.accepted?]

@[simp] theorem consume_handed (fake : Bool) : (r.consume packet fake).handed = r.handed := by
  simp [consume, handed, ReceiveAction.handed]

theorem consume_other (fake : Bool) {index : Int} (h : index ≠ r.tcpNextSendIndex) :
    (r.consume packet fake).udpReceivedPackets[index]? = r.udpReceivedPackets[index]? := by
  simp only [consume]
  split
  · rw [Std.ExtTreeMap.getElem?_erase, if_neg (by simpa [compare_eq_iff_eq] using h.symm)]
  · rw [Std.ExtTreeMap.getElem?_insert, if_neg (by simpa [compare_eq_iff_eq] using h.symm)]

theorem skip_other (fake : Bool) {index : Int} (h : index ≠ r.tcpNextSendIndex) :
    (r.skip packet fake).udpReceivedPackets[index]? = r.udpReceivedPackets[index]? := by
  simp only [skip]
  split
  · exact consume_other _ _ _ h
  · exact consume_other _ _ _ h

theorem skip_receiveHistory (fake : Bool) :
    (r.skip packet fake).receiveHistory = r.receiveHistory ++ [.consume packet.wire fake] := by
  simp only [skip, consume]
  split <;> rfl

theorem write_receiveHistory (size : Nat) :
    (r.write packet size).receiveHistory = r.receiveHistory ++
      .write (packet.getData.take size) ::
        if (packet.erasePayload size).getSize ≤ 0
          then [.consume (packet.erasePayload size).wire false] else [] := by
  simp only [write, consume]
  split
  · simp [Packet.wire]
  · rfl

@[simp] theorem skip_confirmations (fake : Bool) :
    (r.skip packet fake).confirmations = r.confirmations := by
  simp only [skip, consume_confirmations]
  split <;> rfl

@[simp] theorem skip_accepted (fake : Bool) : (r.skip packet fake).accepted = r.accepted := by
  simp only [skip, consume_accepted]
  split <;> rfl

@[simp] theorem skip_handed (fake : Bool) : (r.skip packet fake).handed = r.handed := by
  simp only [skip, consume_handed]
  split <;> rfl

@[simp] theorem write_confirmations (size : Nat) :
    (r.write packet size).confirmations = r.confirmations := by
  simp only [write]
  split <;> simp [consume, confirmations, ReceiveAction.confirmation?]

@[simp] theorem write_accepted (size : Nat) : (r.write packet size).accepted = r.accepted := by
  simp only [write]
  split <;> simp [consume, accepted, ReceiveAction.accepted?]

@[simp] theorem write_handed (size : Nat) :
    (r.write packet size).handed = r.handed ++ packet.getData.take size := by
  simp only [write]
  split <;> simp [consume, handed, ReceiveAction.handed]

@[simp] theorem pruneKey_receiveHistory (key : Int) :
    (r.pruneKey key).receiveHistory = r.receiveHistory := by
  simp only [pruneKey]
  split
  · rfl
  · split <;> rfl

@[simp] theorem pruneKey_tcpNextSendIndex (key : Int) :
    (r.pruneKey key).tcpNextSendIndex = r.tcpNextSendIndex := by
  simp only [pruneKey]
  split
  · rfl
  · split <;> rfl

@[simp] theorem pruneKey_udpReceivedMasterIndex (key : Int) :
    (r.pruneKey key).udpReceivedMasterIndex = r.udpReceivedMasterIndex := by
  simp only [pruneKey]
  split
  · rfl
  · split <;> rfl

@[simp] theorem pruneKey_udpReceivedFinalIndex (key : Int) :
    (r.pruneKey key).udpReceivedFinalIndex = r.udpReceivedFinalIndex := by
  simp only [pruneKey]
  split
  · rfl
  · split <;> rfl

@[simp] theorem pruneKey_udpConfirmedMasterIndex (key : Int) :
    (r.pruneKey key).udpConfirmedMasterIndex = r.udpConfirmedMasterIndex := by
  simp only [pruneKey]
  split
  · rfl
  · split <;> rfl

@[simp] theorem pruneKey_confirmations (key : Int) :
    (r.pruneKey key).confirmations = r.confirmations := by
  simp [confirmations]

@[simp] theorem pruneKey_accepted (key : Int) : (r.pruneKey key).accepted = r.accepted := by
  simp [accepted]

@[simp] theorem pruneKey_handed (key : Int) : (r.pruneKey key).handed = r.handed := by
  simp [handed]

theorem pruneKey_other {key index : Int} (h : index ≠ key) :
    (r.pruneKey key).udpReceivedPackets[index]? = r.udpReceivedPackets[index]? := by
  simp only [pruneKey]
  split
  · rfl
  · split
    · simp [Std.ExtTreeMap.getElem?_erase, h.symm]
    · simp [Std.ExtTreeMap.getElem?_insert, h.symm]

theorem foldl_pruneKey_other {keys : List Int} {index : Int} (h : index ∉ keys) :
    (keys.foldl pruneKey r).udpReceivedPackets[index]? = r.udpReceivedPackets[index]? := by
  induction keys generalizing r with
  | nil => rfl
  | cons key keys ih =>
      rw [List.mem_cons, not_or] at h
      rw [List.foldl_cons, ih _ h.2, pruneKey_other _ h.1]

theorem prune_of_le {index : Int} (h : r.tcpNextSendIndex ≤ index) :
    r.prune.udpReceivedPackets[index]? = r.udpReceivedPackets[index]? := by
  apply foldl_pruneKey_other
  rw [SortedKeys.mem_takeWhile_keys]
  omega

theorem prune_indices :
    r.prune.tcpNextSendIndex = r.tcpNextSendIndex ∧
      r.prune.udpReceivedMasterIndex = r.udpReceivedMasterIndex ∧
      r.prune.udpReceivedFinalIndex = r.udpReceivedFinalIndex ∧
      r.prune.udpConfirmedMasterIndex = r.udpConfirmedMasterIndex := by
  simp only [prune]
  generalize r.udpReceivedPackets.keys.takeWhile (· < r.tcpNextSendIndex) = keys
  induction keys generalizing r with
  | nil => exact ⟨rfl, rfl, rfl, rfl⟩
  | cons key keys ih =>
      have hrest := ih (r.pruneKey key)
      simp only [pruneKey_tcpNextSendIndex, pruneKey_udpReceivedMasterIndex,
        pruneKey_udpReceivedFinalIndex, pruneKey_udpConfirmedMasterIndex] at hrest
      exact hrest

end Indices

end Receiver

namespace Session

def isNoMoreDataWillBeSent (s : Session) : Bool :=
  (!s.tcpConnected || s.udpReceivedFinalIndex == s.udpReceivedMasterIndex)
    && s.tcpReceivedData.isEmpty
    && s.udpSentPackets.isEmpty

/-- The test of the data branch of `udpRead`. -/
def acceptsPacket (s : Session) (packet : Packet) : Bool :=
  packet.getIndex ≥ s.udpReceivedMasterIndex
    && packet.getIndex < s.udpReceivedFinalIndex
    && packet.getIndex - s.tcpNextSendIndex ≤ s.receiveWindow
    && ((packet.getType = .hello && packet.getIndex = 0)
      || packet.getType = .bye
      || packet.getType = .disconnect
      || packet.getType = .data)

/-- The test of the ByeBye branch of `udpRead`. -/
def acceptsByeBye (s : Session) (packet : Packet) : Bool :=
  packet.getType = .byeBye
    && packet.getIndex = s.udpReceivedMasterIndex
    && packet.getIndex = s.udpReceivedFinalIndex

/-- The payloads of the Confirmation packets that `buildConfirmations` encodes. -/
def confirmationPayloads (s : Session) : List (List UInt8) :=
  Packet.packRuns s.udpReceivedMasterIndex s.udpSendPacketSize
    s.udpReceivedMasterIndex ⟨[], s.udpSendPacketSize⟩
    (Packet.keyRuns (s.udpReceivedPackets.keys.dropWhile (· < s.udpReceivedMasterIndex)))

theorem exists_mem_confirmationPayloads (s : Session) :
    ∃ payload, payload ∈ s.confirmationPayloads :=
  List.exists_mem_of_ne_nil _ (Packet.packRuns_ne_nil _ _ _ _ _)

def confirmation (s : Session) (payload : List UInt8) : Packet :=
  ({} : Packet).encode .confirmation s.udpReceivedMasterIndex payload

def byeByePacket (s : Session) : Packet :=
  ({} : Packet).encode .byeBye s.udpNextSendIndex []

end Session

/-- An endpoint with its Hello packet. -/
def Endpoint.initial (config : Config) : Endpoint :=
  { Endpoint.blank config with
    toSender := (Endpoint.blank config).toSender.push config.udpResendCount .hello [] }

end IceTunnel
