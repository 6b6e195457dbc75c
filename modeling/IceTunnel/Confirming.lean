import IceTunnel.Accounting

namespace IceTunnel

namespace Connection

theorem indicesOf_self (index : Int) : indicesOf (index, index) = [] := by
  simp [indicesOf]

theorem indicesOf_succ {first last : Int} (h : first ≤ last) :
    indicesOf (first, last + 1) = indicesOf (first, last) ++ [last] := by
  have hlength : (last + 1 - first).toNat = (last - first).toNat + 1 := by omega
  have hlast : first + ((last - first).toNat : Int) = last := by omega
  simp only [indicesOf, hlength, List.range_succ, List.map_append, List.map_cons, List.map_nil, hlast]

theorem flatMap_runsFrom {first last : Int} (h : first ≤ last) (keys : List Int) :
    (Packet.runsFrom first last keys).flatMap indicesOf = indicesOf (first, last) ++ keys := by
  induction keys generalizing first last with
  | nil => simp [Packet.runsFrom]
  | cons key keys ih =>
      rw [Packet.runsFrom]
      split
      · rename_i hkey
        rw [ih (by omega), indicesOf_succ h, hkey]
        simp
      · rw [List.flatMap_cons, ih (by omega), indicesOf_succ (le_refl key), indicesOf_self]
        simp

theorem flatMap_keyRuns (keys : List Int) : (Packet.keyRuns keys).flatMap indicesOf = keys := by
  cases keys with
  | nil => rfl
  | cons key keys =>
      rw [Packet.keyRuns, flatMap_runsFrom (by omega), indicesOf_succ (le_refl key), indicesOf_self]
      rfl

end Connection

open Connection

namespace Session

/-- The Confirmation packets that wait to be sent. -/
def queuedConfirmations (s : Session) : List Packet :=
  s.udpConfirmationPackets.filter (·.getType = .confirmation)

/-- The queued packets that are no Confirmation packets. -/
def queuedOthers (s : Session) : List Packet :=
  s.udpConfirmationPackets.filter (·.getType ≠ .confirmation)

/-- The indices that the queued Confirmation packets name, the way `udpRead` decodes
them. -/
def namedIndices (s : Session) : List Int :=
  s.queuedConfirmations.flatMap fun packet => packet.confirmedRanges.flatMap indicesOf

/-- The queued Confirmation packets name what is received behind the master index. -/
structure Confirmed (s : Session) : Prop where
  queued : s.queuedConfirmations ≠ []
  getIndex : ∀ p ∈ s.queuedConfirmations, p.getIndex = s.udpReceivedMasterIndex
  size_le : ∀ p ∈ s.queuedConfirmations, p.getSize ≤ s.udpSendPacketSize
  consumed : ∀ p ∈ s.queuedConfirmations, p.unconsumed = []
  once : s.namedIndices.Nodup
  mem_iff : ∀ index : Int, index ∈ s.namedIndices ↔
    index ∈ s.udpReceivedPackets ∧ s.udpReceivedMasterIndex ≤ index

variable {s : Session}

theorem confirmation_getType (payload : List UInt8) :
    (s.confirmation payload).getType = .confirmation :=
  Packet.encode_getType _ _ _ rfl

theorem namedIndices_confirmationPayloads (h : s.toReceiver.WellFormed)
    (hsize : 10 ≤ s.udpSendPacketSize) :
    (s.confirmationPayloads.map s.confirmation).flatMap
        (fun packet => packet.confirmedRanges.flatMap indicesOf) =
      s.udpReceivedPackets.keys.dropWhile (· < s.udpReceivedMasterIndex) := by
  have hmaster := le_trans h.next_nonneg h.next_le
  have hmax := le_trans h.master_le h.final_le
  simp only [intMax] at hmax
  obtain ⟨n, hn, hdecode⟩ := Packet.packRuns_decode (Packet.walks_empty _ s.udpSendPacketSize) hmaster
    hmaster (keyRuns_received_bounds h)
  rw [List.nil_append, List.take_of_length_le (hn hsize)] at hdecode
  have hranges : ∀ payload : List UInt8, (s.confirmation payload).confirmedRanges =
      Packet.rangesFrom payload.length s.udpReceivedMasterIndex payload := by
    intro payload
    rw [Packet.confirmedRanges, confirmation, Packet.encode_getData,
      Packet.encode_getIndex_of_lt _ _ _ hmaster (by omega)]
  simp only [List.flatMap_map, hranges]
  rw [← List.flatMap_assoc, confirmationPayloads, hdecode, flatMap_keyRuns]

end Session

namespace Connection

variable {c : Connection}

theorem buildConfirmations_queue (hudp : c.udpConnected = true) :
    c.buildConfirmations.queuedConfirmations = c.confirmationPayloads.map c.confirmation ∧
      c.buildConfirmations.queuedOthers = c.queuedOthers := by
  have hend := c.buildConfirmations_toEndpoint_eq hudp
  have hnew : ∀ p ∈ c.confirmationPayloads.map c.confirmation, p.getType = .confirmation := by
    rintro p hp
    obtain ⟨payload, -, rfl⟩ := List.mem_map.mp hp
    exact Session.confirmation_getType payload
  simp only [Session.queuedConfirmations, Session.queuedOthers, hend, List.filter_append,
    List.filter_filter]
  constructor
  · have hold : ∀ p ∈ c.udpConfirmationPackets,
        ¬(decide (p.getType = .confirmation) && decide (p.getType ≠ .confirmation)) = true := by
      simp
    rw [List.filter_eq_nil_iff.mpr hold, List.nil_append, List.filter_eq_self.mpr]
    exact fun p hp => decide_eq_true (hnew p hp)
  · have hnone : (c.confirmationPayloads.map c.confirmation).filter
        (·.getType ≠ .confirmation) = [] := by
      rw [List.filter_eq_nil_iff]
      exact fun p hp => by simp [hnew p hp]
    rw [hnone, List.append_nil]
    simp only [Bool.and_self]

theorem buildConfirmations_confirmed (h : c.toReceiver.WellFormed) (hudp : c.udpConnected = true)
    (hsize : 10 ≤ c.udpSendPacketSize) : c.buildConfirmations.Confirmed := by
  have hend := c.buildConfirmations_toEndpoint_eq hudp
  have hmaster := le_trans h.next_nonneg h.next_le
  have hmax := le_trans h.master_le h.final_le
  simp only [intMax] at hmax
  obtain ⟨hqueue, -⟩ := buildConfirmations_queue hudp
  have hmasterD : c.buildConfirmations.udpReceivedMasterIndex = c.udpReceivedMasterIndex := by
    rw [hend]
    exact (Receiver.prune_indices _).2.1
  have hsizeD : c.buildConfirmations.udpSendPacketSize = c.udpSendPacketSize := by rw [hend]
  have hnamed : c.buildConfirmations.namedIndices =
      c.udpReceivedPackets.keys.dropWhile (· < c.udpReceivedMasterIndex) := by
    rw [Session.namedIndices, hqueue]
    exact c.toSession.namedIndices_confirmationPayloads h hsize
  have hpayload : ∀ payload ∈ c.confirmationPayloads, payload.length ≤ c.udpSendPacketSize ∧
      Packet.unconsumedFrom payload.length payload = [] := by
    intro payload hmem
    exact Packet.packRuns_payload (Packet.packed_empty (by omega)) (by omega) hmaster hmaster
      (Session.keyRuns_received_bounds h) hmem
  constructor
  · obtain ⟨payload, hmem⟩ := c.toSession.exists_mem_confirmationPayloads
    rw [hqueue]
    exact List.ne_nil_of_mem (List.mem_map_of_mem hmem)
  · rw [hqueue, hmasterD]
    rintro p hp
    obtain ⟨payload, -, rfl⟩ := List.mem_map.mp hp
    exact Packet.encode_getIndex_of_lt _ _ _ hmaster (by omega)
  · rw [hqueue, hsizeD]
    rintro p hp
    obtain ⟨payload, hmem, rfl⟩ := List.mem_map.mp hp
    rw [Session.confirmation, Packet.encode_getSize]
    exact (hpayload payload hmem).1
  · rw [hqueue]
    rintro p hp
    obtain ⟨payload, hmem, rfl⟩ := List.mem_map.mp hp
    rw [Packet.unconsumed, Session.confirmation, Packet.encode_getData]
    exact (hpayload payload hmem).2
  · rw [hnamed]
    have hsorted := (SortedKeys.pairwise_keys c.udpReceivedPackets).sublist
      (List.dropWhile_sublist (· < c.udpReceivedMasterIndex))
    exact hsorted.imp fun hlt => ne_of_lt hlt
  · intro index
    rw [hnamed, hmasterD, SortedKeys.mem_dropWhile_keys, and_comm]
    apply and_congr_left
    intro hle
    have hkept : c.buildConfirmations.udpReceivedPackets[index]? = c.udpReceivedPackets[index]? := by
      rw [hend]
      apply Receiver.prune_of_le
      exact le_trans h.next_le hle
    rw [Std.ExtTreeMap.mem_iff_isSome_getElem?, Std.ExtTreeMap.mem_iff_isSome_getElem?, hkept]

/-- Whatever has arrived in whatever order, `buildConfirmations` says exactly that. -/
theorem confirmed_of_raise {config : Config} {d : Connection}
    (h : Runs.Reachable (Initial config) step Runs.anyMove c) (hudp : c.udpConnected = true)
    (hsize : 10 ≤ c.udpSendPacketSize) {timeUs : Nat} {io : Io}
    (hm : c.step (.raise .buildConfirmations timeUs io) = some d) :
    d.Confirmed ∧ d.queuedOthers = c.queuedOthers := by
  obtain ⟨-, -, -, rfl⟩ := of_step_raise hm
  let b := ({ c with io := io } : Connection).disable .buildConfirmations
  constructor
  · exact buildConfirmations_confirmed (c := b) (sound h).receiving hudp hsize
  · exact (buildConfirmations_queue (c := b) hudp).2

/-- Three packets arrive with gaps between them. -/
def gapRun : List Move :=
  [.udpRead (.datagram .data 2 [1]) (Io.steady 0),
    .udpRead (.datagram .data 5 [2]) (Io.steady 0),
    .udpRead (.datagram .data 3 [3]) (Io.steady 0)]

theorem gapRun_isSome : (play Config.small gapRun).isSome = true := by
  decide +kernel

theorem gapRun_confirms_isSome : (((play Config.small gapRun).get gapRun_isSome).step
    (.raise .buildConfirmations 100 (Io.steady 100))).isSome = true := by
  decide +kernel

theorem confirmed_of_raise_gapRun : ∃ c d : Connection,
    c.step (.raise .buildConfirmations 100 (Io.steady 100)) = some d ∧ d.Confirmed ∧
      d.queuedOthers = c.queuedOthers :=
  ⟨_, _, (Option.some_get gapRun_confirms_isSome).symm,
    confirmed_of_raise (reachable_of_play (Option.some_get gapRun_isSome).symm)
      (by decide +kernel) (by decide +kernel) (Option.some_get gapRun_confirms_isSome).symm⟩

end Connection

end IceTunnel
