import IceTunnel.Accounting
import IceTunnel.Datagrams
import IceTunnel.Peers

namespace IceTunnel

namespace Packet

/-- The packet passes its test and shows these fields. -/
structure Decodes (p : Packet) (type : PacketType) (index : Int) (payload : List UInt8) : Prop where
  checked : p.checkCrc32 = true
  type_eq : p.getType = type
  index_eq : p.getIndex = index
  size_eq : p.getSize = payload.length
  data_eq : p.getData = payload

theorem Decodes.of_data_eq {p q : Packet} {type : PacketType} {index : Int} {payload : List UInt8}
    (h : p.Decodes type index payload) (hdata : q.data = p.data) : q.Decodes type index payload := by
  have hbytes : ∀ offset size, q.getBytes offset size = p.getBytes offset size := by
    intro offset size
    rw [getBytes, getBytes, hdata]
  constructor
  · rw [checkCrc32, getCrc32, hbytes, hdata]
    exact h.checked
  · rw [getType, hbytes]
    exact h.type_eq
  · unfold getIndex
    rw [hbytes]
    exact h.index_eq
  · rw [getSize, hdata]
    exact h.size_eq
  · rw [getData, hdata]
    exact h.data_eq

theorem decodes_encode (sender : Packet) {type : PacketType} (htype : .ofByte type.toByte = type)
    {index : Int} (hlow : -2 ^ 31 ≤ index) (hhigh : index < 2 ^ 31) (payload : List UInt8) :
    (sender.encode type index payload).Decodes type index payload := by
  refine ⟨encode_checkCrc32 _ _ _ _, encode_getType _ _ _ htype, ?_, encode_getSize _ _ _ _,
    encode_getData _ _ _ _⟩
  rw [encode_getIndex]
  exact Int.bmod_eq_of_le (by omega) (by omega)

theorem Decodes.receive {p : Packet} {type : PacketType} {index : Int} {payload : List UInt8}
    (h : p.Decodes type index payload) (receiver : Packet) {receivePacketSize : Int}
    (hsize : p.getRawSize ≤ receivePacketSize) :
    (receiver.receive receivePacketSize p.data).Decodes type index payload := by
  apply h.of_data_eq
  rw [receive_data, cutOff_of_le _ _ hsize]

end Packet

namespace Connection

variable {config : Config} {c d : Connection}

theorem created_prefix_of_run (h : Runs.Reachable (· = c) step Runs.anyMove d) :
    c.created <+: d.created := by
  refine Runs.Reachable.invariant_of_refines (f := fun e : Connection => e.toEndpoint)
    (I := fun e => c.created <+: e.created) (R := Protocol.Step fun _ => True) ?_ ?_ ?_ h
  · rintro e rfl
    exact List.prefix_refl _
  · exact fun _ _ _ _ _ hm => step_refines hm fun _ _ => trivial
  · exact fun _ _ hprefix hstep => hprefix.trans (Protocol.created_prefix hstep)

/-- A packet that waits for its confirmation keeps the bytes it was encoded with. -/
theorem data_of_run (h : Runs.Reachable (Initial config) step Runs.anyMove c)
    (hrun : Runs.Reachable (· = c) step Runs.anyMove d) {index : Int} {p q : Packet}
    (hp : c.udpSentPackets[index]? = some p) (hq : d.udpSentPackets[index]? = some q) :
    q.data = p.data := by
  have hsound := sound h
  have hsoundD : d.toEndpoint.Sound :=
    Runs.Reachable.invariant (by rintro e rfl; exact hsound)
      (fun _ _ _ he _ hm => sound_step he hm) hrun
  obtain ⟨i, rfl, hcreated⟩ := hsound.sending.wellFormed.sent_created index p hp
  obtain ⟨j, hij, hcreatedD⟩ := hsoundD.sending.wellFormed.sent_created _ q hq
  obtain rfl : i = j := by omega
  obtain ⟨rest, hrest⟩ := created_prefix_of_run hrun
  rw [← hrest, List.getElem?_append_left (List.getElem?_eq_some_iff.mp hcreated).1, hcreated,
    Option.some.injEq] at hcreatedD
  have hdata := congrArg Packet.data hcreatedD
  exact hdata.symm

theorem exists_encode_of_sent (h : Runs.Reachable (Initial config) step Runs.anyMove c)
    {index : Int} {p : Packet} (hp : c.udpSentPackets[index]? = some p) :
    ∃ type payload, type.isNumbered = true ∧ 0 ≤ index ∧
      ∀ sender : Packet, p.data = (sender.encode type index payload).data := by
  have hsound := sound h
  obtain ⟨i, rfl, hcreated⟩ := hsound.sending.wellFormed.sent_created index p hp
  obtain ⟨type, payload, hnumbered, -, -, hdatagram⟩ :=
    hsound.sending.wellFormed.created_eq i p.wire hcreated
  refine ⟨type, payload, hnumbered, by omega, fun sender => ?_⟩
  have hdata := congrArg Packet.data hdatagram
  rw [← Packet.encode_wire sender] at hdata
  exact hdata

/-- Encoded, written, received and decoded, with any buffers on both sides; and a packet
that is written again decodes to the same. -/
theorem encode_roundTrip :
    (∀ (sender receiver : Packet) (code : UInt8) (index : Int) (payload : List UInt8) (m : Int),
      -2 ^ 31 ≤ index → index < 2 ^ 31 →
        (sender.encode (.ofByte code) index payload).getRawSize ≤ m →
          (receiver.receive m (sender.encode (.ofByte code) index payload).data).Decodes
            (.ofByte code) index payload) ∧
      ∀ (config : Config) (c : Connection), Runs.Reachable (Initial config) step Runs.anyMove c →
        ∀ (index : Int) (p : Packet), c.udpSentPackets[index]? = some p → index < 2 ^ 31 →
          ∃ (type : PacketType) (payload : List UInt8), type.isNumbered = true ∧
            (∀ sender : Packet, p.data = (sender.encode type index payload).data) ∧
            ∀ (d : Connection), Runs.Reachable (· = c) step Runs.anyMove d →
              ∀ q, d.udpSentPackets[index]? = some q → ∀ (receiver : Packet) (m : Int),
                q.getRawSize ≤ m → (receiver.receive m q.wire.data).Decodes type index payload := by
  constructor
  · intro sender receiver code index payload m hlow hhigh hsize
    have htype : PacketType.ofByte (PacketType.ofByte code).toByte = .ofByte code := by
      rw [PacketType.toByte_ofByte]
    exact (Packet.decodes_encode sender htype hlow hhigh payload).receive receiver hsize
  · intro config c h index p hp hhigh
    obtain ⟨type, payload, hnumbered, hnonneg, hencoded⟩ := exists_encode_of_sent h hp
    refine ⟨type, payload, hnumbered, hencoded, ?_⟩
    intro d hrun q hq receiver m hsize
    have hdata := data_of_run h hrun hp hq
    have hdecodes := Packet.decodes_encode {} (PacketType.ofByte_toByte_of_isNumbered hnumbered)
      (by omega) hhigh payload
    apply Packet.Decodes.receive (hdecodes.of_data_eq ?_) receiver hsize
    rw [hdata, hencoded]

/-- A short packet in a buffer that held a longer one. -/
theorem encode_roundTrip_reused :
    ((({ data := [1, 2, 3, 4, 5, 6, 7, 8, 9, 10, 11, 12, 13] } : Packet).receive 12
      (({ data := [9, 9, 9, 9, 9, 9, 9, 9, 9, 9, 9] } : Packet).encode (.ofByte 2) 300 [7]).data).Decodes
        (.ofByte 2) 300 [7]) :=
  encode_roundTrip.1 { data := [9, 9, 9, 9, 9, 9, 9, 9, 9, 9, 9] }
    { data := [1, 2, 3, 4, 5, 6, 7, 8, 9, 10, 11, 12, 13] } 2 300 [7] 12 (by decide) (by decide)
    (by decide +kernel)

end Connection

end IceTunnel
