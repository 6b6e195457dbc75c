import IceTunnel.Server
import IceTunnel.Foundation.ShiftRegister

namespace IceTunnel

namespace Packet

open ShiftRegister (leading difference IsBurst)

def polynomial : BitVec 32 := 0x04C11DB7

/-- The bits of a byte string, the most significant bit of each byte first. -/
def bitsOf (bytes : List UInt8) : List Bool :=
  bytes.flatMap fun byte => leading byte.toBitVec 8

/-- The CRC bit by bit. -/
def bitwiseCrc32 (data : List UInt8) (previousCrc32 : UInt32) : UInt32 :=
  UInt32.ofBitVec
    (ShiftRegister.run polynomial (previousCrc32 ^^^ 0xFFFFFFFF).toBitVec (bitsOf data)) ^^^ 0xFFFFFFFF

section Table

theorem crc32Table_getD (index : UInt8) : (crc32Table.getD index.toNat 0).toBitVec =
    ShiftRegister.run polynomial 0#32 (leading index.toBitVec 8) := by
  have hentries : ∀ n : Fin (2 ^ 8), (crc32Table.getD n.val 0).toBitVec =
      ShiftRegister.run polynomial 0#32 (leading (BitVec.ofFin n) 8) := by decide +kernel
  exact hentries index.toBitVec.toFin

@[simp] theorem leading_length {w : Nat} (s : BitVec w) (n : Nat) : (leading s n).length = n := by
  rw [leading, List.length_map, List.length_range]

theorem index_toNat (crc : UInt32) (p : UInt8) :
    (p.toUInt32 ^^^ ((crc >>> 24) &&& 0xff)).toNat = (p ^^^ (crc >>> 24).toUInt8).toNat := by
  have hlow : ((crc >>> 24) &&& 0xff).toNat = (crc >>> 24).toUInt8.toNat := by
    rw [UInt32.toNat_and, UInt32.toNat_toUInt8]
    exact Nat.and_two_pow_sub_one_eq_mod _ 8
  rw [UInt32.toNat_xor, UInt8.toNat_xor, hlow, UInt8.toNat_toUInt32]

theorem difference_leading (crc : UInt32) (p : UInt8) :
    difference (leading p.toBitVec 8) (leading crc.toBitVec 8) =
      leading (p ^^^ (crc >>> 24).toUInt8).toBitVec 8 := by
  apply List.ext_getElem
  · simp [difference]
  · intro i hi _
    have hlt : i < 8 := by simpa [difference] using hi
    simp only [difference, leading, List.getElem_zipWith, List.getElem_map, List.getElem_range,
      UInt8.toBitVec_xor, BitVec.getMsbD_xor]
    congr 1
    have hshift : (crc.toBitVec >>> (UInt32.toBitVec 24 % 32)).getLsbD (8 - 1 - i) =
        crc.toBitVec.getLsbD (24 + (8 - 1 - i)) := BitVec.getLsbD_ushiftRight ..
    rw [UInt32.toBitVec_toUInt8, UInt32.toBitVec_shiftRight, BitVec.getMsbD_eq_getLsbD,
      BitVec.getMsbD_eq_getLsbD, BitVec.getLsbD_setWidth, hshift, decide_eq_true hlt,
      decide_eq_true (by omega : i < 32), decide_eq_true (by omega : 8 - 1 - i < 8),
      (by omega : 24 + (8 - 1 - i) = 32 - 1 - i)]
    rfl

theorem tableStep_toBitVec (crc : UInt32) (p : UInt8) :
    (crc32Table.getD (p.toUInt32 ^^^ ((crc >>> 24) &&& 0xff)).toNat 0 ^^^ (crc <<< 8)).toBitVec =
      ShiftRegister.run polynomial crc.toBitVec (leading p.toBitVec 8) := by
  rw [ShiftRegister.run_eq_table, leading_length, difference_leading, ← crc32Table_getD, index_toNat]
  rfl

theorem crc32_toBitVec (data : List UInt8) (previousCrc32 : UInt32) :
    (crc32 data previousCrc32 ^^^ 0xFFFFFFFF).toBitVec =
      ShiftRegister.run polynomial (previousCrc32 ^^^ 0xFFFFFFFF).toBitVec (bitsOf data) := by
  rw [crc32, UInt32.xor_assoc, UInt32.xor_self, UInt32.xor_zero]
  generalize previousCrc32 ^^^ 0xFFFFFFFF = crc
  induction data generalizing crc with
  | nil => rfl
  | cons p data ih =>
      rw [List.foldl_cons, ih, tableStep_toBitVec, ← ShiftRegister.run_append]
      rfl

theorem crc32_eq_bitwiseCrc32 (data : List UInt8) (previousCrc32 : UInt32) :
    crc32 data previousCrc32 = bitwiseCrc32 data previousCrc32 := by
  rw [bitwiseCrc32, ← crc32_toBitVec, UInt32.ofBitVec_toBitVec, UInt32.xor_assoc, UInt32.xor_self,
    UInt32.xor_zero]

theorem crc32_append (x y : List UInt8) (c : UInt32) :
    crc32 (x ++ y) c = crc32 y (crc32 x c) := by
  simp only [crc32, List.foldl_append, UInt32.xor_assoc, UInt32.xor_self, UInt32.xor_zero]

/-- `currentCrc32` of the benchmark, after the chunks that came one by one. -/
def chunkedCrc32 (chunks : List (List UInt8)) (currentCrc32 : UInt32) : UInt32 :=
  chunks.foldl (fun currentCrc32 chunk => crc32 chunk currentCrc32) currentCrc32

theorem chunkedCrc32_eq (chunks : List (List UInt8)) (c : UInt32) :
    chunkedCrc32 chunks c = crc32 chunks.flatten c := by
  induction chunks generalizing c with
  | nil =>
      simp only [chunkedCrc32, List.foldl_nil, List.flatten_nil, crc32, UInt32.xor_assoc,
        UInt32.xor_self, UInt32.xor_zero]
  | cons chunk chunks ih =>
      rw [List.flatten_cons, crc32_append, ← ih]
      rfl

/-- The table computes the CRC, and it does so in chunks of any sizes. -/
theorem crc32_bitwise_and_composes :
    (∀ s c, crc32 s c = bitwiseCrc32 s c) ∧
      (∀ x y c, crc32 (x ++ y) c = crc32 y (crc32 x c)) ∧
      ∀ sent received c, sent.flatten = received.flatten →
        chunkedCrc32 sent c = chunkedCrc32 received c := by
  refine ⟨crc32_eq_bitwiseCrc32, crc32_append, ?_⟩
  intro sent received c hsame
  rw [chunkedCrc32_eq, chunkedCrc32_eq, hsame]

theorem crc32_bitwise_and_composes_split :
    chunkedCrc32 [[1, 2], [3]] 0 = chunkedCrc32 [[1], [], [2, 3]] 0 :=
  crc32_bitwise_and_composes.2.2 [[1, 2], [3]] [[1], [], [2, 3]] 0 rfl

end Table

section Damage

/-- A copy of a datagram that has kept its length, with the wrong bits within 32
consecutive ones behind the CRC or all in the CRC. -/
structure Damaged (original bytes : List UInt8) : Prop where
  length_eq : bytes.length = original.length
  ne : bytes ≠ original
  confined : bytes.take 4 = original.take 4 ∧
      IsBurst 32 (bitsOf (bytes.drop 4)) (bitsOf (original.drop 4)) ∨
    bytes.drop 4 = original.drop 4

theorem leading_injective {x y : UInt8} (h : leading x.toBitVec 8 = leading y.toBitVec 8) : x = y := by
  apply UInt8.toBitVec_inj.mp
  apply BitVec.eq_of_getMsbD_eq
  intro i hi
  have hbit := congrArg (·[i]?) h
  simpa [leading, hi] using hbit

theorem bitsOf_injective : Function.Injective bitsOf := by
  intro x
  induction x with
  | nil =>
      intro y h
      cases y with
      | nil => rfl
      | cons q y => simp [bitsOf, leading] at h
  | cons p x ih =>
      intro y h
      cases y with
      | nil => simp [bitsOf, leading] at h
      | cons q y =>
          simp only [bitsOf, List.flatMap_cons] at h
          obtain ⟨hbyte, hrest⟩ := List.append_inj h (by simp)
          rw [leading_injective hbyte, ih hrest]

theorem bitsOf_length (bytes : List UInt8) : (bitsOf bytes).length = 8 * bytes.length := by
  induction bytes with
  | nil => rfl
  | cons p bytes ih =>
      rw [bitsOf, List.flatMap_cons, List.length_append, leading_length, ← bitsOf, ih,
        List.length_cons]
      omega

theorem eq_of_crc32_eq_of_isBurst {x y : List UInt8} {c : UInt32} (hlength : x.length = y.length)
    (hburst : IsBurst 32 (bitsOf x) (bitsOf y)) (h : crc32 x c = crc32 y c) : x = y := by
  have hpoly : polynomial.getLsbD 0 = true := by decide
  have hbits : (bitsOf x).length = (bitsOf y).length := by
    rw [bitsOf_length, bitsOf_length, hlength]
  have hrun := crc32_toBitVec y c
  rw [← h, crc32_toBitVec] at hrun
  exact bitsOf_injective (ShiftRegister.eq_of_run_eq_of_isBurst hpoly (by decide) hbits hburst hrun)

theorem Damaged.not_isSealed {original bytes : List UInt8} (h : Damaged original bytes)
    (hlong : 4 ≤ original.length) (horiginal : IsSealed original) : ¬IsSealed bytes := by
  intro hsealed
  rw [IsSealed] at horiginal hsealed
  have hlength := h.length_eq
  apply h.ne
  rw [← List.take_append_drop 4 bytes, ← List.take_append_drop 4 original]
  rcases h.confined with ⟨hfront, hburst⟩ | hback
  · rw [hfront, horiginal] at hsealed
    rw [hfront, eq_of_crc32_eq_of_isBurst (by simp [hlength]) hburst hsealed.symm]
  · rw [hback, ← horiginal] at hsealed
    have hword : wordOfBytes (bytes.take 4) = wordOfBytes (original.take 4) := by
      have hnat := congrArg UInt32.toNat hsealed
      rw [UInt32.toNat_ofNat', UInt32.toNat_ofNat',
        Nat.mod_eq_of_lt (wordOfBytes_lt (by simp; omega)),
        Nat.mod_eq_of_lt (wordOfBytes_lt (by simp; omega))] at hnat
      exact hnat
    rw [hback, ← bytesOfWord_wordOfBytes (by simp; omega : (bytes.take 4).length = 4), hword,
      bytesOfWord_wordOfBytes (by simp; omega)]

end Damage

end Packet

namespace Server

open Packet (Damaged)

theorem receive_of_not_isSealed {s t : Server} {bytes : List UInt8}
    (hsealed : ¬Packet.IsSealed bytes) (hlong : 4 ≤ bytes.length)
    (hfits : (bytes.length : Int) ≤ s.udpReceivePacketSize) {listenerIndex : Nat}
    {udpAddress : Address} {io : Io} (h : s.receive listenerIndex udpAddress bytes io = some t) :
    t = s := by
  have hdata : (({} : Packet).receive s.udpReceivePacketSize bytes).data = bytes := by
    rw [Packet.receive_data, Packet.cutOff_of_le _ _ hfits]
  have hrejected : (({} : Packet).receive s.udpReceivePacketSize bytes).checkCrc32 = false := by
    rw [Bool.eq_false_iff, Ne, Packet.checkCrc32_iff (by rw [hdata]; exact hlong), hdata]
    exact hsealed
  simp only [receive, hrejected, Bool.not_false, Bool.or_true, if_true, Option.bind_eq_some_iff,
    Option.ite_none_left_eq_some, Option.some.injEq] at h
  obtain ⟨listener, -, -, rfl⟩ := h
  rfl

/-- No damaged datagram passes the test, in any packet; a listener that can hold it drops
it, and no listener hands on its bytes. -/
theorem damaged_not_delivered (sender : Packet) (type : PacketType) (index : Int)
    (payload : List UInt8) {bytes : List UInt8}
    (h : Damaged (sender.encode type index payload).data bytes) :
    (∀ p : Packet, p.data = bytes → p.checkCrc32 = false) ∧
      Packet.checkRawCrc32 bytes = false ∧
      (∀ (p : Packet) (receivePacketSize : Int),
        (p.receive receivePacketSize bytes).checkCrc32 = true →
          (p.receive receivePacketSize bytes).data ≠ bytes) ∧
      ∀ (s t : Server) (listenerIndex : Nat) (udpAddress : Address) (io : Io),
        (bytes.length : Int) ≤ s.udpReceivePacketSize →
          s.receive listenerIndex udpAddress bytes io = some t → t = s := by
  have hlength := Packet.encode_length sender type index payload
  have hlong : 4 ≤ bytes.length := by
    rw [h.length_eq]
    omega
  have hsealed : ¬Packet.IsSealed bytes :=
    h.not_isSealed (by omega) (Packet.isSealed_encode sender type index payload)
  have hrejected : ∀ p : Packet, p.data = bytes → p.checkCrc32 = false := by
    intro p hp
    rw [Bool.eq_false_iff, Ne, Packet.checkCrc32_iff (by rw [hp]; exact hlong), hp]
    exact hsealed
  refine ⟨hrejected, ?_, ?_, ?_⟩
  · rw [Bool.eq_false_iff, Ne, Packet.checkRawCrc32_iff]
    exact fun hraw => hsealed hraw.2
  · intro p receivePacketSize hvalid hdata
    rw [hrejected _ hdata] at hvalid
    cases hvalid
  · intro s t listenerIndex udpAddress io hfits hreceive
    exact receive_of_not_isSealed hsealed hlong hfits hreceive

/-- A datagram and its copy with a wrong bit in the payload. -/
def sentBytes : List UInt8 :=
  (({} : Packet).encode .data 7 [1, 2]).data

def wrongBytes : List UInt8 :=
  sentBytes.set 10 3

theorem damaged_wrongBytes : Damaged sentBytes wrongBytes := by
  refine ⟨by decide +kernel, by decide +kernel, .inl ⟨by decide +kernel, ?_⟩⟩
  exact ShiftRegister.isBurst_of_agree 24 (by decide +kernel) (by decide +kernel)
    (by decide +kernel)

theorem damaged_not_delivered_wrongBytes : Packet.checkRawCrc32 wrongBytes = false :=
  (damaged_not_delivered {} .data 7 [1, 2] damaged_wrongBytes).2.1

/-- A Hello packet with a byte behind its header, and its copy with a wrong bit in that byte. -/
def helloBytes : List UInt8 :=
  (({} : Packet).encode .hello 0 [0]).data

def wrongHello : List UInt8 :=
  helloBytes.set 9 1

/-- A listener for 9 bytes cuts off what is wrong, puts a zero in its place and opens a
connection. -/
theorem delivered_wrongHello : Damaged helloBytes wrongHello ∧
    (Runs.run step Runs.anyMove (blank .small 9 10) [.listen [1] [2],
      .receive 1 [3] wrongHello (Io.steady 0)]).map (fun s =>
        s.connections.values.map (·.connection.udpReceivedMasterIndex)) = some [1] := by
  refine ⟨⟨by decide +kernel, by decide +kernel, .inl ⟨by decide +kernel, ?_⟩⟩, by decide +kernel⟩
  exact ShiftRegister.isBurst_of_agree 16 (by decide +kernel) (by decide +kernel)
    (by decide +kernel)

end Server

end IceTunnel
