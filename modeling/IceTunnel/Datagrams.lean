import IceTunnel.Packet

namespace IceTunnel.Packet

/-- The static `checkCrc32(data, size)`. -/
def checkRawCrc32 (data : List UInt8) : Bool :=
  data.length > 4 && UInt32.ofNat (wordOfBytes (data.take 4)) == crc32 (data.drop 4) 0

/-- `Socket::readfrom` into the packet's bytes: what does not fit is cut off, and the
size that `MSG_TRUNC` reports is that of the whole datagram. -/
def readfrom (p : Packet) (bytes : List UInt8) : Packet × Int :=
  ({ p with data := bytes.take p.data.length ++ p.data.drop bytes.length }, bytes.length)

/-- The lines of `UdpListener::handle` around `readfrom`. -/
def receive (p : Packet) (receivePacketSize : Int) (bytes : List UInt8) : Packet :=
  let p := p.setRawSize receivePacketSize
  let (p, size) := p.readfrom bytes
  p.setRawSize size

/-- The datagram as `receivePacket` holds it: zeros stand for what was cut off. -/
def cutOff (receivePacketSize : Int) (bytes : List UInt8) : List UInt8 :=
  bytes.take receivePacketSize.toNat ++ List.replicate (bytes.length - receivePacketSize.toNat) 0

/-- The first four bytes are the CRC of the others. -/
def IsSealed (bytes : List UInt8) : Prop :=
  UInt32.ofNat (wordOfBytes (bytes.take 4)) = crc32 (bytes.drop 4) 0

instance (bytes : List UInt8) : Decidable (IsSealed bytes) :=
  inferInstanceAs (Decidable (_ = _))

section Receive

variable (p : Packet) (receivePacketSize : Int) (bytes : List UInt8)

theorem receive_data : (p.receive receivePacketSize bytes).data = cutOff receivePacketSize bytes := by
  simp only [receive, readfrom, setRawSize, resize_length, Int.toNat_natCast, cutOff]
  generalize receivePacketSize.toNat = n
  have hlength : (resize p.data n).length = n := resize_length _ _
  by_cases hfits : bytes.length ≤ n
  · rw [List.take_of_length_le hfits, resize_append_of_length rfl, Nat.sub_eq_zero_of_le hfits,
      List.replicate_zero, List.append_nil]
  · rw [List.drop_of_length_le (by omega), List.append_nil, resize, List.length_take,
      Nat.min_eq_left (by omega), List.take_take, Nat.min_eq_right (by omega)]

@[simp] theorem cutOff_length : (cutOff receivePacketSize bytes).length = bytes.length := by
  simp only [cutOff, List.length_append, List.length_take, List.length_replicate]
  omega

theorem cutOff_of_le (h : (bytes.length : Int) ≤ receivePacketSize) :
    cutOff receivePacketSize bytes = bytes := by
  rw [cutOff, List.take_of_length_le (by omega), Nat.sub_eq_zero_of_le (by omega),
    List.replicate_zero, List.append_nil]

/-- Only what is cut off may lose its type. -/
theorem receive_getType (h : 5 ≤ receivePacketSize) (q : Packet) (hq : q.data = bytes) :
    (p.receive receivePacketSize bytes).getType = q.getType := by
  obtain ⟨n, hn⟩ := Int.eq_ofNat_of_zero_le (by omega : 0 ≤ receivePacketSize - 5)
  have hsize : receivePacketSize.toNat = n + 5 := by omega
  simp only [getType, getBytes, receive_data, cutOff_length, hq]
  split
  · rename_i hlong
    rw [cutOff, hsize, List.drop_append_of_le_length (by simp; omega), List.drop_take,
      List.take_append_of_le_length (by simp; omega), List.take_take, Nat.min_eq_left (by omega)]
  · rfl

end Receive

section Check

variable {p : Packet} {bytes : List UInt8}

/-- Without a whole CRC there is nothing to check, and the check passes. -/
theorem checkCrc32_of_short (h : p.data.length < 4) : p.checkCrc32 = true := by
  rw [checkCrc32, getCrc32, getBytes, if_neg (by omega), List.drop_of_length_le (by omega)]
  decide

theorem checkCrc32_iff (h : 4 ≤ p.data.length) : p.checkCrc32 = true ↔ IsSealed p.data := by
  rw [checkCrc32, getCrc32, getBytes, if_pos (by omega), List.drop_zero, beq_iff_eq, IsSealed]

theorem checkRawCrc32_iff : checkRawCrc32 bytes = true ↔ 4 < bytes.length ∧ IsSealed bytes := by
  rw [checkRawCrc32, Bool.and_eq_true, decide_eq_true_eq, beq_iff_eq, IsSealed]

/-- The two checks differ on what is not longer than the CRC and passes the first. -/
theorem checkCrc32_eq_checkRawCrc32_iff : p.checkCrc32 = checkRawCrc32 p.data ↔
    4 < p.data.length ∨ p.data.length = 4 ∧ ¬IsSealed p.data := by
  rw [Bool.eq_iff_iff, checkRawCrc32_iff]
  rcases Nat.lt_trichotomy p.data.length 4 with hlt | heq | hgt
  · simp only [checkCrc32_of_short hlt, true_iff]
    omega
  · rw [checkCrc32_iff (by omega)]
    simp only [heq, Nat.lt_irrefl, false_and, false_or, true_and, iff_false]
  · rw [checkCrc32_iff (by omega)]
    simp only [hgt, true_and, true_or]

end Check

section Encode

variable {p : Packet}

theorem bytesOfWord_wordOfBytes {bytes : List UInt8} (h : bytes.length = 4) :
    bytesOfWord (wordOfBytes bytes) = bytes := by
  obtain ⟨a, b, c, d, rfl⟩ := List.length_eq_four.mp h
  have ha := a.toNat_lt
  have hb := b.toNat_lt
  have hc := c.toNat_lt
  have hd := d.toNat_lt
  simp only [wordOfBytes, bytesOfWord, List.cons.injEq, and_true, ← UInt8.toNat_inj,
    UInt8.toNat_ofNat']
  refine ⟨?_, ?_, ?_, ?_⟩ <;> omega

theorem bmod_emod_word {n : Nat} (h : n < 2 ^ 32) : Int.bmod n (2 ^ 32) % 2 ^ 32 = n := by
  rw [Int.bmod_def]
  split <;> omega

theorem wordOfBytes_lt {bytes : List UInt8} (h : bytes.length = 4) :
    wordOfBytes bytes < 2 ^ 32 := by
  obtain ⟨a, b, c, d, rfl⟩ := List.length_eq_four.mp h
  have ha := a.toNat_lt
  have hb := b.toNat_lt
  have hc := c.toNat_lt
  have hd := d.toNat_lt
  simp only [wordOfBytes]
  omega

theorem encode_of_isSealed (h : 9 ≤ p.data.length) (hsealed : IsSealed p.data) (q : Packet) :
    (q.encode p.getType p.getIndex p.getData).data = p.data := by
  have hword : ((p.data.drop 5).take 4).length = 4 := by
    rw [List.length_take, List.length_drop]
    omega
  have htype : p.getType.toByte = (p.data.drop 4).headD 0 := by
    rw [getType, PacketType.toByte_ofByte, getBytes, if_pos (by omega)]
    cases p.data.drop 4 <;> rfl
  have hindex : bytesOfWord (p.getIndex % 2 ^ 32).toNat = (p.data.drop 5).take 4 := by
    have hread : p.getBytes 5 4 = (p.data.drop 5).take 4 := by
      rw [getBytes, if_pos (by omega)]
    unfold getIndex
    rw [hread, bmod_emod_word (wordOfBytes_lt hword), Int.toNat_natCast,
      bytesOfWord_wordOfBytes hword]
  have hbody : p.getType.toByte :: (bytesOfWord (p.getIndex % 2 ^ 32).toNat ++ p.getData) =
      p.data.drop 4 := by
    have hdata : p.getData = (p.data.drop 5).drop 4 := by rw [getData, List.drop_drop]
    rw [hindex, hdata, List.take_append_drop, htype]
    cases hdrop : p.data.drop 4 with
    | nil =>
        have := congrArg List.length hdrop
        simp only [List.length_drop, List.length_nil] at this
        omega
    | cons byte bytes =>
        have htail : p.data.drop 5 = bytes := by
          have hstep : p.data.drop 5 = (p.data.drop 4).drop 1 := by rw [List.drop_drop]
          rw [hstep, hdrop]
          rfl
        rw [htail]
        rfl
  have hfront : (p.data.take 4).length = 4 := by
    rw [List.length_take]
    omega
  rw [IsSealed] at hsealed
  rw [encode_data, hbody, ← hsealed, UInt32.toNat_ofNat', Nat.mod_eq_of_lt (wordOfBytes_lt hfront),
    bytesOfWord_wordOfBytes hfront, List.take_append_drop]

theorem isSealed_encode (q : Packet) (type : PacketType) (index : Int) (payload : List UInt8) :
    IsSealed (q.encode type index payload).data := by
  have hlength := encode_length q type index payload
  rw [← checkCrc32_iff (by omega)]
  exact encode_checkCrc32 q type index payload

end Encode

/-- The test of `UdpListener::handle` accepts the datagrams that `encode` makes, as what
they were, and the two checks of `packet.h` agree on it. -/
structure AcceptedExactly (p : Packet) (receivePacketSize : Int) (bytes : List UInt8) : Prop where
  accepted_iff : (p.receive receivePacketSize bytes).checkCrc32 = true ↔
    ∃ (q : Packet) (type : PacketType) (index : Int) (payload : List UInt8),
      (q.encode type index payload).data = bytes
  reencoded : (p.receive receivePacketSize bytes).checkCrc32 = true →
    9 ≤ bytes.length ∧ ∀ q : Packet,
      let r := p.receive receivePacketSize bytes
      (q.encode r.getType r.getIndex r.getData).data = bytes
  agreed : ({ data := bytes } : Packet).checkCrc32 = checkRawCrc32 bytes

/-- The datagrams on which the test does what it should. -/
theorem acceptedExactly_iff (p : Packet) (receivePacketSize : Int) (bytes : List UInt8) :
    p.AcceptedExactly receivePacketSize bytes ↔
      (9 ≤ bytes.length ∧ (cutOff receivePacketSize bytes = bytes ∨
        ¬IsSealed bytes ∧ ¬IsSealed (cutOff receivePacketSize bytes))) ∨
      (4 ≤ bytes.length ∧ bytes.length < 9 ∧ ¬IsSealed (cutOff receivePacketSize bytes) ∧
        (bytes.length = 4 → ¬IsSealed bytes)) := by
  have hdata := p.receive_data receivePacketSize bytes
  have hlength := cutOff_length receivePacketSize bytes
  have hagreed := checkCrc32_eq_checkRawCrc32_iff (p := { data := bytes })
  have hchecked : 4 ≤ bytes.length → ((p.receive receivePacketSize bytes).checkCrc32 = true ↔
      IsSealed (cutOff receivePacketSize bytes)) := by
    intro hlong
    rw [checkCrc32_iff (by rw [hdata]; omega), hdata]
  simp only at hagreed
  constructor
  · intro h
    have hlong : 4 ≤ bytes.length := by
      have := hagreed.mp h.agreed
      omega
    rw [← hchecked hlong]
    by_cases hheader : 9 ≤ bytes.length
    · refine .inl ⟨hheader, ?_⟩
      by_cases hcut : cutOff receivePacketSize bytes = bytes
      · exact .inl hcut
      · have hrejected : ¬(p.receive receivePacketSize bytes).checkCrc32 = true := by
          intro hvalid
          apply hcut
          have hsealed := (hchecked hlong).mp hvalid
          rw [← hdata] at hsealed
          have hfields := encode_of_isSealed (by rw [hdata]; omega) hsealed {}
          rw [← hdata, ← hfields]
          exact (h.reencoded hvalid).2 {}
        refine .inr ⟨fun hsealed => hrejected (h.accepted_iff.mpr ?_), hrejected⟩
        exact ⟨{}, _, _, _, encode_of_isSealed (p := { data := bytes }) hheader hsealed {}⟩
    · refine .inr ⟨hlong, by omega, fun hvalid => hheader (h.reencoded hvalid).1, fun hfour => ?_⟩
      exact ((hagreed.mp h.agreed).resolve_left (by omega)).2
  · rintro (⟨hheader, hcut | ⟨hbytes, hrejected⟩⟩ | ⟨hlong, hshort, hrejected, hfour⟩)
    · rw [hcut] at hchecked hdata
      refine ⟨?_, fun hvalid => ⟨hheader, fun q => ?_⟩, hagreed.mpr (.inl (by omega))⟩
      · rw [hchecked (by omega)]
        constructor
        · intro hsealed
          exact ⟨{}, _, _, _, encode_of_isSealed (p := { data := bytes }) hheader hsealed {}⟩
        · rintro ⟨q, type, index, payload, rfl⟩
          exact isSealed_encode q type index payload
      · have hsealed := (hchecked (by omega)).mp hvalid
        rw [← hdata] at hheader hsealed
        exact (encode_of_isSealed hheader hsealed q).trans hdata
    · rw [← hchecked (by omega)] at hrejected
      refine ⟨iff_of_false hrejected ?_, fun hvalid => absurd hvalid hrejected,
        hagreed.mpr (.inl (by omega))⟩
      rintro ⟨q, type, index, payload, rfl⟩
      exact hbytes (isSealed_encode q type index payload)
    · rw [← hchecked hlong] at hrejected
      refine ⟨iff_of_false hrejected ?_, fun hvalid => absurd hvalid hrejected, hagreed.mpr ?_⟩
      · rintro ⟨q, type, index, payload, rfl⟩
        have := encode_length q type index payload
        omega
      · by_cases hsize : bytes.length = 4
        · exact .inr ⟨hsize, hfour hsize⟩
        · exact .inl (by omega)

/-- The empty datagram passes the test, as a Hello packet does. -/
theorem not_acceptedExactly_nil : ¬({} : Packet).AcceptedExactly (1024 * 1024) [] := by
  intro h
  have hvalid : (({} : Packet).receive (1024 * 1024) []).checkCrc32 = true := by
    apply checkCrc32_of_short
    rw [receive_data, cutOff_length]
    decide
  have hsize := (h.reencoded hvalid).1
  exact absurd hsize (by decide)

end IceTunnel.Packet
