import IceTunnel.Connection

namespace IceTunnel.Connection

variable (c : Connection)

section Timers

variable (name : EventName) (timeUs : Int)

@[simp] theorem setTime_toEndpoint : (c.setTime name timeUs).toEndpoint = c.toEndpoint := rfl
@[simp] theorem setTime_toCountdown : (c.setTime name timeUs).toCountdown = c.toCountdown := rfl
@[simp] theorem setTime_toPacing : (c.setTime name timeUs).toPacing = c.toPacing := rfl
@[simp] theorem setTime_deleted : (c.setTime name timeUs).deleted = c.deleted := rfl

@[simp] theorem isEnabled_setTime_self :
    (c.setTime name timeUs).isEnabled name = true ↔ c.isEnabled name = true ∨ 0 ≤ timeUs := by
  simp only [isEnabled, setTime, Function.update_self]
  exact Event.isEnabled_setTime _ _

@[simp] theorem isEnabled_setTime_of_ne {other : EventName} (h : other ≠ name) :
    (c.setTime name timeUs).isEnabled other = c.isEnabled other := by
  simp only [isEnabled, setTime, Function.update_of_ne h]

@[simp] theorem disable_toEndpoint : (c.disable name).toEndpoint = c.toEndpoint := rfl
@[simp] theorem disable_toCountdown : (c.disable name).toCountdown = c.toCountdown := rfl
@[simp] theorem disable_toPacing : (c.disable name).toPacing = c.toPacing := rfl
@[simp] theorem disable_deleted : (c.disable name).deleted = c.deleted := rfl
@[simp] theorem disable_io : (c.disable name).io = c.io := rfl

@[simp] theorem isEnabled_disable_self : (c.disable name).isEnabled name = false := by
  simp only [isEnabled, disable, Function.update_self, Event.isEnabled_disable]

@[simp] theorem isEnabled_disable_of_ne {other : EventName} (h : other ≠ name) :
    (c.disable name).isEnabled other = c.isEnabled other := by
  simp only [isEnabled, disable, Function.update_of_ne h]

@[simp] theorem tick_toEndpoint : c.tick.toEndpoint = c.toEndpoint := rfl
@[simp] theorem tick_toCountdown : c.tick.toCountdown = c.toCountdown := rfl
@[simp] theorem tick_toPacing : c.tick.toPacing = c.toPacing := rfl
@[simp] theorem tick_events : c.tick.events = c.events := rfl
@[simp] theorem tick_deleted : c.tick.deleted = c.deleted := rfl
@[simp] theorem isEnabled_tick : c.tick.isEnabled name = c.isEnabled name := rfl

theorem nowUs_nonneg : 0 ≤ c.nowUs :=
  Int.natCast_nonneg _

@[simp] theorem setTimeRelativeNow_toEndpoint :
    (c.setTimeRelativeNow name timeUs).toEndpoint = c.toEndpoint := rfl
@[simp] theorem setTimeRelativeNow_toCountdown :
    (c.setTimeRelativeNow name timeUs).toCountdown = c.toCountdown := rfl
@[simp] theorem setTimeRelativeNow_toPacing :
    (c.setTimeRelativeNow name timeUs).toPacing = c.toPacing := rfl
@[simp] theorem setTimeRelativeNow_deleted :
    (c.setTimeRelativeNow name timeUs).deleted = c.deleted := rfl

theorem isEnabled_setTimeRelativeNow_self (h : 0 ≤ timeUs) :
    (c.setTimeRelativeNow name timeUs).isEnabled name = true := by
  have hnow := c.nowUs_nonneg
  simp only [setTimeRelativeNow, isEnabled_tick, isEnabled_setTime_self]
  omega

@[simp] theorem isEnabled_setTimeRelativeNow_of_ne {other : EventName} (h : other ≠ name) :
    (c.setTimeRelativeNow name timeUs).isEnabled other = c.isEnabled other := by
  simp only [setTimeRelativeNow, isEnabled_tick, isEnabled_setTime_of_ne _ _ _ h]

end Timers

section SendBuffer

variable (sizeIncrement : Int)

@[simp] theorem tickEnd_toEndpoint : c.tickEnd.toEndpoint = c.toEndpoint := by
  simp only [tickEnd]
  split <;> rfl

@[simp] theorem tickEnd_toCountdown : c.tickEnd.toCountdown = c.toCountdown := by
  simp only [tickEnd]
  split <;> rfl

@[simp] theorem tickEnd_toPacing : c.tickEnd.toPacing = c.toPacing := by
  simp only [tickEnd]
  split <;> rfl

@[simp] theorem tickEnd_deleted : c.tickEnd.deleted = c.deleted := by
  simp only [tickEnd]
  split <;> rfl

@[simp] theorem isEnabled_tickEnd (name : EventName) :
    c.tickEnd.isEnabled name = c.isEnabled name := by
  simp only [tickEnd]
  split <;> rfl

@[simp] theorem onUdpSentBufferChanged_toEndpoint :
    (c.onUdpSentBufferChanged sizeIncrement).toEndpoint = c.toEndpoint := by
  simp only [onUdpSentBufferChanged]
  split <;> simp

@[simp] theorem onUdpSentBufferChanged_toCountdown :
    (c.onUdpSentBufferChanged sizeIncrement).toCountdown = c.toCountdown := by
  simp only [onUdpSentBufferChanged]
  split <;> simp

@[simp] theorem onUdpSentBufferChanged_toPacing :
    (c.onUdpSentBufferChanged sizeIncrement).toPacing = c.toPacing := by
  simp only [onUdpSentBufferChanged]
  split <;> simp

@[simp] theorem onUdpSentBufferChanged_deleted :
    (c.onUdpSentBufferChanged sizeIncrement).deleted = c.deleted := by
  simp only [onUdpSentBufferChanged]
  split <;> simp

@[simp] theorem isEnabled_onUdpSentBufferChanged {name : EventName} (h : name ≠ .tcpRead) :
    (c.onUdpSentBufferChanged sizeIncrement).isEnabled name = c.isEnabled name := by
  simp only [onUdpSentBufferChanged]
  split <;> simp only [ne_eq, h, not_false_eq_true, isEnabled_setTimeRelativeNow_of_ne,
    isEnabled_disable_of_ne, isEnabled_tickEnd] <;> rfl

theorem isEnabled_tcpRead_onUdpSentBufferChanged :
    (c.onUdpSentBufferChanged sizeIncrement).isEnabled .tcpRead = true ↔
      c.sentCount ≤ c.maxCount := by
  simp only [onUdpSentBufferChanged]
  split
  · rename_i hle
    exact iff_of_true (isEnabled_setTimeRelativeNow_self _ _ _ (le_refl 0)) hle
  · rename_i hlt
    rw [isEnabled_disable_self]
    exact iff_of_false (by decide) hlt

end SendBuffer

section RateControl

variable (measureIndex intervalUs size : Int)

@[simp] theorem onUdpSent_toEndpoint :
    (c.onUdpSent measureIndex intervalUs size).toEndpoint = c.toEndpoint := by
  simp only [onUdpSent]
  split <;> rfl

@[simp] theorem onUdpSent_toCountdown :
    (c.onUdpSent measureIndex intervalUs size).toCountdown = c.toCountdown := by
  simp only [onUdpSent]
  split <;> rfl

@[simp] theorem onUdpSent_deleted :
    (c.onUdpSent measureIndex intervalUs size).deleted = c.deleted := by
  simp only [onUdpSent]
  split <;> rfl

@[simp] theorem isEnabled_onUdpSent (name : EventName) :
    (c.onUdpSent measureIndex intervalUs size).isEnabled name = c.isEnabled name := by
  simp only [onUdpSent]
  split <;> rfl

variable (success : Bool)

@[simp] theorem onUdpDelivered_toEndpoint :
    (c.onUdpDelivered success measureIndex size).toEndpoint = c.toEndpoint := rfl
@[simp] theorem onUdpDelivered_toCountdown :
    (c.onUdpDelivered success measureIndex size).toCountdown = c.toCountdown := rfl
@[simp] theorem onUdpDelivered_deleted :
    (c.onUdpDelivered success measureIndex size).deleted = c.deleted := rfl
@[simp] theorem isEnabled_onUdpDelivered (name : EventName) :
    (c.onUdpDelivered success measureIndex size).isEnabled name = c.isEnabled name := rfl

end RateControl

section UdpWrite

@[simp] theorem setEventUdpWrite_toEndpoint : c.setEventUdpWrite.toEndpoint = c.toEndpoint := by
  simp only [setEventUdpWrite, setTime_toEndpoint]
  split <;> rfl

@[simp] theorem setEventUdpWrite_toCountdown : c.setEventUdpWrite.toCountdown = c.toCountdown := by
  simp only [setEventUdpWrite, setTime_toCountdown]
  split <;> rfl

@[simp] theorem setEventUdpWrite_deleted : c.setEventUdpWrite.deleted = c.deleted := by
  simp only [setEventUdpWrite, setTime_deleted]
  split <;> rfl

/-- The time is never negative, since `udpLastSentUs` was just raised. -/
@[simp] theorem isEnabled_setEventUdpWrite : c.setEventUdpWrite.isEnabled .udpWrite = true := by
  have hnow := c.nowUs_nonneg
  simp only [setEventUdpWrite, isEnabled_setTime_self]
  split
  · right
    simp only [tick_toPacing]
    omega
  · rename_i henabled
    left
    simpa using henabled

@[simp] theorem isEnabled_setEventUdpWrite_of_ne {name : EventName} (h : name ≠ .udpWrite) :
    c.setEventUdpWrite.isEnabled name = c.isEnabled name := by
  simp only [setEventUdpWrite, isEnabled_setTime_of_ne _ _ _ h]
  split <;> rfl

end UdpWrite

section Push

variable (type : PacketType) (payload : List UInt8)

@[simp] theorem push_toCountdown : (c.push type payload).toCountdown = c.toCountdown := rfl
@[simp] theorem push_deleted : (c.push type payload).deleted = c.deleted := rfl
@[simp] theorem isEnabled_push (name : EventName) :
    (c.push type payload).isEnabled name = c.isEnabled name := rfl

@[simp] theorem push_toEndpoint :
    (c.push type payload).toEndpoint =
      { c.toEndpoint with toSender := c.toSender.push c.udpResendCount type payload } := rfl

end Push

section Steps

variable {c} {d : Connection} {io : Io}

theorem of_step_raise {event : EventName} {timeUs : Nat} (h : c.step (.raise event timeUs io) = some d) :
    c.deleted = false ∧ c.isEnabled event = true ∧ (c.events event).timeUs ≤ timeUs ∧
      d = ({ c with io := io } : Connection).raise event := by
  simp only [step, Option.ite_none_right_eq_some, Option.some.injEq] at h
  obtain ⟨⟨hdeleted, henabled, htime⟩, rfl⟩ := h
  exact ⟨hdeleted, henabled, htime, rfl⟩

theorem of_step_udpRead {packet : Packet} (h : c.step (.udpRead packet io) = some d) :
    c.deleted = false ∧ d = ({ c with io := io } : Connection).udpRead packet.wire := by
  simp only [step, Option.ite_none_left_eq_some, Option.some.injEq, Bool.not_eq_true] at h
  obtain ⟨hdeleted, rfl⟩ := h
  exact ⟨hdeleted, rfl⟩

end Steps

theorem isEnabled_new (config : Config) (intervalUs summaryUs : Int) (io : Io) {name : EventName}
    (htcpRead : name ≠ .tcpRead) (hudpWrite : name ≠ .udpWrite) (htcpClose : name ≠ .tcpClose)
    (hudpClose : name ≠ .udpClose) : (new config intervalUs summaryUs io).isEnabled name = false := by
  simp only [new]
  rw [isEnabled_setTimeRelativeNow_of_ne _ _ _ hudpClose,
    isEnabled_setTimeRelativeNow_of_ne _ _ _ htcpClose,
    isEnabled_setTimeRelativeNow_of_ne _ _ _ hudpWrite,
    isEnabled_onUdpSentBufferChanged _ _ htcpRead]
  rfl

theorem isEnabled_udpWrite_new (config : Config) (intervalUs summaryUs : Int) (io : Io) :
    (new config intervalUs summaryUs io).isEnabled .udpWrite = true := by
  have htcpClose : EventName.udpWrite ≠ .tcpClose := nofun
  have hudpClose : EventName.udpWrite ≠ .udpClose := nofun
  simp only [new]
  rw [isEnabled_setTimeRelativeNow_of_ne _ _ _ hudpClose,
    isEnabled_setTimeRelativeNow_of_ne _ _ _ htcpClose]
  exact isEnabled_setTimeRelativeNow_self _ _ _ (le_refl 0)

theorem new_toEndpoint (config : Config) (intervalUs summaryUs : Int) (io : Io) :
    (new config intervalUs summaryUs io).toEndpoint = .initial config := by
  simp only [new, setTimeRelativeNow_toEndpoint, onUdpSentBufferChanged_toEndpoint, push_toEndpoint]
  rfl

end IceTunnel.Connection
