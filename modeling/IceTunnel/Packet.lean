import Mathlib.Algebra.Group.Int.Defs
import Mathlib.Algebra.Group.Nat.Defs
import Mathlib.Data.List.Basic
import Mathlib.Tactic.Common

/-!
The datagram of `packet.h` and `packet.cpp`: a growing byte vector with a nine
byte header (CRC, type, index) in front of the payload, and the bookkeeping the
two endpoints of a tunnel keep beside it.
-/

namespace IceTunnel

/-- What an `int` keeps of the result of its arithmetic, where an overflow wraps. -/
def wrap32 (n : Int) : Int :=
  (Int32.ofInt n).toInt

theorem wrap32_of_lt {n : Int} (hlow : -2 ^ 31 ≤ n) (hhigh : n < 2 ^ 31) : wrap32 n = n :=
  Int32.toInt_ofInt_of_le hlow hhigh

@[simp] theorem wrap32_add_wrap32 (n m : Int) : wrap32 (n + wrap32 m) = wrap32 (n + m) := by
  simp only [wrap32, Int32.ofInt_add, Int32.ofInt_toInt]

/-- `Packet::Type`.  The cast in `getType` keeps any byte, so the values above
`ByeBye` are possible too. -/
inductive PacketType
  | hello
  | bye
  | data
  | confirmation
  | disconnect
  | byeBye
  | other (code : UInt8)
  deriving DecidableEq, Repr

namespace PacketType

def ofByte (code : UInt8) : PacketType :=
  if code = 0 then hello
  else if code = 1 then bye
  else if code = 2 then data
  else if code = 3 then confirmation
  else if code = 4 then disconnect
  else if code = 5 then byeBye
  else other code

def toByte : PacketType → UInt8
  | hello => 0
  | bye => 1
  | data => 2
  | confirmation => 3
  | disconnect => 4
  | byeBye => 5
  | other code => code

theorem toByte_ofByte (code : UInt8) : (ofByte code).toByte = code := by
  unfold ofByte
  split_ifs <;> simp_all [toByte]

/-- The types that close a stream. -/
def isClosing : PacketType → Bool
  | bye | disconnect => true
  | _ => false

/-- The types whose packets live in `udpSentPackets`: they are numbered,
retransmitted and confirmed. -/
def isNumbered : PacketType → Bool
  | hello | bye | data | disconnect => true
  | _ => false

theorem ofByte_toByte_of_isNumbered {type : PacketType} (h : type.isNumbered) :
    ofByte type.toByte = type := by
  cases type <;> simp_all [isNumbered, ofByte, toByte]

end PacketType

/-- `Packet`. -/
structure Packet where
  sent : Bool := false
  sentTimeUs : Int := 0
  measureIndex : Int := 0
  remainResendCount : Int := 0
  confirmed : Bool := false
  data : List UInt8 := []
  deriving DecidableEq, Repr

namespace Packet

def isComplete (p : Packet) : Bool :=
  p.sent && p.confirmed

/-- `std::vector<char>::resize`. -/
def resize (data : List UInt8) (size : Nat) : List UInt8 :=
  data.take size ++ List.replicate (size - data.length) 0

/-- `Packet::get<T>` for a `T` of `size` bytes, as the bytes read: `T()` past
the end of the data. -/
def getBytes (p : Packet) (offset size : Nat) : List UInt8 :=
  if offset + size ≤ p.data.length then (p.data.drop offset).take size
  else List.replicate size 0

/-- `Packet::set<T>`, given the bytes of the value. -/
def setBytes (p : Packet) (offset : Nat) (value : List UInt8) : Packet :=
  let data :=
    if p.data.length < offset + value.length then resize p.data (offset + value.length)
    else p.data
  { p with data := data.take offset ++ value ++ data.drop (offset + value.length) }

/-- The bytes of an `unsigned int`, least significant first. -/
def bytesOfWord (n : Nat) : List UInt8 :=
  [UInt8.ofNat n, UInt8.ofNat (n / 2 ^ 8), UInt8.ofNat (n / 2 ^ 16), UInt8.ofNat (n / 2 ^ 24)]

def wordOfBytes : List UInt8 → Nat
  | [] => 0
  | b :: bytes => b.toNat + 2 ^ 8 * wordOfBytes bytes

def getCrc32 (p : Packet) : UInt32 :=
  UInt32.ofNat (wordOfBytes (p.getBytes 0 4))

def setCrc32 (p : Packet) (value : UInt32) : Packet :=
  p.setBytes 0 (bytesOfWord value.toNat)

def getType (p : Packet) : PacketType :=
  PacketType.ofByte ((p.getBytes 4 1).headD 0)

def setType (p : Packet) (value : PacketType) : Packet :=
  p.setBytes 4 [value.toByte]

/-- `unsigned int` read back as `int`. -/
def getIndex (p : Packet) : Int :=
  Int.bmod (wordOfBytes (p.getBytes 5 4)) (2 ^ 32)

def setIndex (p : Packet) (value : Int) : Packet :=
  p.setBytes 5 (bytesOfWord (value % 2 ^ 32).toNat)

def getData (p : Packet) : List UInt8 :=
  p.data.drop 9

def getSize (p : Packet) : Int :=
  if p.data.length > 9 then (p.data.length : Int) - 9 else 0

def getRawSize (p : Packet) : Int :=
  p.data.length

def setData (p : Packet) (payload : List UInt8) : Packet :=
  { p with data := (resize p.data (9 + payload.length)).take 9 ++ payload }

/-- `setRawData(NULL, size)`. -/
def setRawSize (p : Packet) (size : Int) : Packet :=
  { p with data := resize p.data size.toNat }

/-- The first `size` bytes of the payload are erased from `data`. -/
def erasePayload (p : Packet) (size : Nat) : Packet :=
  { p with data := p.data.take 9 ++ p.data.drop (9 + size) }

def crc32Table : List UInt32 := [
  0x00000000, 0x04C11DB7, 0x09823B6E, 0x0D4326D9, 0x130476DC, 0x17C56B6B,
  0x1A864DB2, 0x1E475005, 0x2608EDB8, 0x22C9F00F, 0x2F8AD6D6, 0x2B4BCB61,
  0x350C9B64, 0x31CD86D3, 0x3C8EA00A, 0x384FBDBD, 0x4C11DB70, 0x48D0C6C7,
  0x4593E01E, 0x4152FDA9, 0x5F15ADAC, 0x5BD4B01B, 0x569796C2, 0x52568B75,
  0x6A1936C8, 0x6ED82B7F, 0x639B0DA6, 0x675A1011, 0x791D4014, 0x7DDC5DA3,
  0x709F7B7A, 0x745E66CD, 0x9823B6E0, 0x9CE2AB57, 0x91A18D8E, 0x95609039,
  0x8B27C03C, 0x8FE6DD8B, 0x82A5FB52, 0x8664E6E5, 0xBE2B5B58, 0xBAEA46EF,
  0xB7A96036, 0xB3687D81, 0xAD2F2D84, 0xA9EE3033, 0xA4AD16EA, 0xA06C0B5D,
  0xD4326D90, 0xD0F37027, 0xDDB056FE, 0xD9714B49, 0xC7361B4C, 0xC3F706FB,
  0xCEB42022, 0xCA753D95, 0xF23A8028, 0xF6FB9D9F, 0xFBB8BB46, 0xFF79A6F1,
  0xE13EF6F4, 0xE5FFEB43, 0xE8BCCD9A, 0xEC7DD02D, 0x34867077, 0x30476DC0,
  0x3D044B19, 0x39C556AE, 0x278206AB, 0x23431B1C, 0x2E003DC5, 0x2AC12072,
  0x128E9DCF, 0x164F8078, 0x1B0CA6A1, 0x1FCDBB16, 0x018AEB13, 0x054BF6A4,
  0x0808D07D, 0x0CC9CDCA, 0x7897AB07, 0x7C56B6B0, 0x71159069, 0x75D48DDE,
  0x6B93DDDB, 0x6F52C06C, 0x6211E6B5, 0x66D0FB02, 0x5E9F46BF, 0x5A5E5B08,
  0x571D7DD1, 0x53DC6066, 0x4D9B3063, 0x495A2DD4, 0x44190B0D, 0x40D816BA,
  0xACA5C697, 0xA864DB20, 0xA527FDF9, 0xA1E6E04E, 0xBFA1B04B, 0xBB60ADFC,
  0xB6238B25, 0xB2E29692, 0x8AAD2B2F, 0x8E6C3698, 0x832F1041, 0x87EE0DF6,
  0x99A95DF3, 0x9D684044, 0x902B669D, 0x94EA7B2A, 0xE0B41DE7, 0xE4750050,
  0xE9362689, 0xEDF73B3E, 0xF3B06B3B, 0xF771768C, 0xFA325055, 0xFEF34DE2,
  0xC6BCF05F, 0xC27DEDE8, 0xCF3ECB31, 0xCBFFD686, 0xD5B88683, 0xD1799B34,
  0xDC3ABDED, 0xD8FBA05A, 0x690CE0EE, 0x6DCDFD59, 0x608EDB80, 0x644FC637,
  0x7A089632, 0x7EC98B85, 0x738AAD5C, 0x774BB0EB, 0x4F040D56, 0x4BC510E1,
  0x46863638, 0x42472B8F, 0x5C007B8A, 0x58C1663D, 0x558240E4, 0x51435D53,
  0x251D3B9E, 0x21DC2629, 0x2C9F00F0, 0x285E1D47, 0x36194D42, 0x32D850F5,
  0x3F9B762C, 0x3B5A6B9B, 0x0315D626, 0x07D4CB91, 0x0A97ED48, 0x0E56F0FF,
  0x1011A0FA, 0x14D0BD4D, 0x19939B94, 0x1D528623, 0xF12F560E, 0xF5EE4BB9,
  0xF8AD6D60, 0xFC6C70D7, 0xE22B20D2, 0xE6EA3D65, 0xEBA91BBC, 0xEF68060B,
  0xD727BBB6, 0xD3E6A601, 0xDEA580D8, 0xDA649D6F, 0xC423CD6A, 0xC0E2D0DD,
  0xCDA1F604, 0xC960EBB3, 0xBD3E8D7E, 0xB9FF90C9, 0xB4BCB610, 0xB07DABA7,
  0xAE3AFBA2, 0xAAFBE615, 0xA7B8C0CC, 0xA379DD7B, 0x9B3660C6, 0x9FF77D71,
  0x92B45BA8, 0x9675461F, 0x8832161A, 0x8CF30BAD, 0x81B02D74, 0x857130C3,
  0x5D8A9099, 0x594B8D2E, 0x5408ABF7, 0x50C9B640, 0x4E8EE645, 0x4A4FFBF2,
  0x470CDD2B, 0x43CDC09C, 0x7B827D21, 0x7F436096, 0x7200464F, 0x76C15BF8,
  0x68860BFD, 0x6C47164A, 0x61043093, 0x65C52D24, 0x119B4BE9, 0x155A565E,
  0x18197087, 0x1CD86D30, 0x029F3D35, 0x065E2082, 0x0B1D065B, 0x0FDC1BEC,
  0x3793A651, 0x3352BBE6, 0x3E119D3F, 0x3AD08088, 0x2497D08D, 0x2056CD3A,
  0x2D15EBE3, 0x29D4F654, 0xC5A92679, 0xC1683BCE, 0xCC2B1D17, 0xC8EA00A0,
  0xD6AD50A5, 0xD26C4D12, 0xDF2F6BCB, 0xDBEE767C, 0xE3A1CBC1, 0xE760D676,
  0xEA23F0AF, 0xEEE2ED18, 0xF0A5BD1D, 0xF464A0AA, 0xF9278673, 0xFDE69BC4,
  0x89B8FD09, 0x8D79E0BE, 0x803AC667, 0x84FBDBD0, 0x9ABC8BD5, 0x9E7D9662,
  0x933EB0BB, 0x97FFAD0C, 0xAFB010B1, 0xAB710D06, 0xA6322BDF, 0xA2F33668,
  0xBCB4666D, 0xB8757BDA, 0xB5365D03, 0xB1F740B4]

/-- `Packet::crc32`. -/
def crc32 (data : List UInt8) (previousCrc32 : UInt32) : UInt32 :=
  let crc := data.foldl
    (fun (crc : UInt32) p =>
      crc32Table.getD (p.toUInt32 ^^^ ((crc >>> 24) &&& 0xff)).toNat 0 ^^^ (crc <<< 8))
    (previousCrc32 ^^^ 0xFFFFFFFF)
  crc ^^^ 0xFFFFFFFF

def applyCrc32 (p : Packet) : Packet :=
  p.setCrc32 (crc32 (p.data.drop 4) 0)

/-- The member `checkCrc32`.  Below four bytes the length argument is negative,
and the loop over `drop 4 = []` is empty as the one over a negative length is. -/
def checkCrc32 (p : Packet) : Bool :=
  p.getCrc32 == crc32 (p.data.drop 4) 0

def encode (p : Packet) (type : PacketType) (index : Int) (payload : List UInt8) : Packet :=
  (((p.setType type).setIndex index).setData payload).applyCrc32

/-- What `writeto(getRawData(), getRawSize())` puts on the wire: the bytes,
without the bookkeeping. -/
def wire (p : Packet) : Packet :=
  { data := p.data }

/-- The datagram that `encode` writes into a packet, whatever the packet held. -/
def datagram (type : PacketType) (index : Int) (payload : List UInt8) : Packet :=
  (({} : Packet).encode type index payload).wire

/-! The bytes of an encoded packet, whatever the packet held before. -/

@[simp] theorem bytesOfWord_length (n : Nat) : (bytesOfWord n).length = 4 := rfl

theorem wordOfBytes_bytesOfWord {n : Nat} (h : n < 2 ^ 32) :
    wordOfBytes (bytesOfWord n) = n := by
  simp only [bytesOfWord, wordOfBytes, UInt8.toNat_ofNat']
  omega

@[simp] theorem resize_length (data : List UInt8) (size : Nat) :
    (resize data size).length = size := by
  simp only [resize, List.length_append, List.length_take, List.length_replicate]
  omega

/-- Writing at `offset` leaves what a resize to `offset` leaves in front. -/
theorem setBytes_data (p : Packet) (offset : Nat) (value : List UInt8) :
    ∃ suffix, (p.setBytes offset value).data = resize p.data offset ++ value ++ suffix := by
  simp only [setBytes]
  refine ⟨_, congrArg (· ++ value ++ _) ?_⟩
  split
  · simp only [resize]
    by_cases h : offset ≤ p.data.length
    · rw [List.take_append_of_le_length (by simp; omega), List.take_take,
        Nat.min_eq_left (by omega)]
      simp [Nat.sub_eq_zero_of_le h]
    · rw [List.take_append, List.take_take, List.take_replicate, List.length_take]
      simp only [Nat.not_le] at h
      congr 1
      · rw [List.take_of_length_le (by omega), List.take_of_length_le (by omega)]
      · congr 1
        omega
  · rename_i h
    simp [resize, Nat.sub_eq_zero_of_le (by omega : offset ≤ p.data.length)]

theorem resize_append_of_length {xs : List UInt8} {size : Nat} (h : xs.length = size)
    (ys : List UInt8) : resize (xs ++ ys) size = xs := by
  subst h
  simp [resize]

theorem resize_take_append {xs : List UInt8} (ys : List UInt8) {n : Nat}
    (h : xs.length ≤ n) : (resize (xs ++ ys) n).take xs.length = xs := by
  rw [resize, List.take_append_of_le_length
      (by simp only [List.length_take, List.length_append]; omega),
    List.take_take, Nat.min_eq_left h, List.take_left]

/-- The layout of an encoded packet. -/
theorem encode_data (p : Packet) (type : PacketType) (index : Int) (payload : List UInt8) :
    (p.encode type index payload).data =
      bytesOfWord (crc32 (type.toByte :: (bytesOfWord (index % 2 ^ 32).toNat ++ payload)) 0).toNat ++
        type.toByte :: (bytesOfWord (index % 2 ^ 32).toNat ++ payload) := by
  let word := bytesOfWord (index % 2 ^ 32).toNat
  let front := resize p.data 4 ++ [type.toByte] ++ word
  have hfront : front.length = 9 := by simp [front, word]
  obtain ⟨rest, hrest⟩ : ∃ rest, ((p.setType type).setIndex index).data = front ++ rest := by
    obtain ⟨suffix, htype⟩ := setBytes_data p 4 [type.toByte]
    obtain ⟨suffix', hindex⟩ := setBytes_data (p.setType type) 5 word
    refine ⟨suffix', ?_⟩
    rw [setIndex, hindex, setType, htype,
      resize_append_of_length (by simp : (resize p.data 4 ++ [type.toByte]).length = 5)]
  have hdata : (((p.setType type).setIndex index).setData payload).data = front ++ payload := by
    have htake := resize_take_append rest (by omega : front.length ≤ 9 + payload.length)
    rw [hfront] at htake
    rw [setData, hrest, htake]
  have hdrop : (front ++ payload).drop 4 = type.toByte :: (word ++ payload) := by
    have hlength : (resize p.data 4).length = 4 := resize_length _ _
    simp only [front, List.append_assoc]
    rw [List.drop_append_of_le_length (by omega), List.drop_of_length_le (by omega)]
    rfl
  have hlarge : ¬ (front ++ payload).length < 0 + (4 : Nat) := by
    simp only [List.length_append, hfront]
    omega
  simp only [encode, applyCrc32, setCrc32, setBytes, hdata, bytesOfWord_length, hdrop, if_neg hlarge,
    List.take_zero, List.nil_append, Nat.zero_add]
  rfl

theorem encode_length (p : Packet) (type : PacketType) (index : Int) (payload : List UInt8) :
    (p.encode type index payload).data.length = 9 + payload.length := by
  rw [encode_data]
  simp [bytesOfWord]
  omega

theorem encode_getType (p : Packet) {type : PacketType} (index : Int) (payload : List UInt8)
    (h : PacketType.ofByte type.toByte = type) :
    (p.encode type index payload).getType = type := by
  have hlength := encode_length p type index payload
  have hbyte : (p.encode type index payload).getBytes 4 1 = [type.toByte] := by
    rw [getBytes, if_pos (by omega), encode_data]
    generalize (crc32 _ 0).toNat = crc
    rfl
  rw [getType, hbyte]
  exact h

theorem getIndex_of_word {p : Packet} {index : Int}
    (h : (wordOfBytes (p.getBytes 5 4) : Int) = index % 2 ^ 32) :
    p.getIndex = Int.bmod index (2 ^ 32) := by
  unfold getIndex
  rw [h]
  exact Int.emod_bmod index 4294967296

theorem encode_getIndex (p : Packet) (type : PacketType) (index : Int) (payload : List UInt8) :
    (p.encode type index payload).getIndex = Int.bmod index (2 ^ 32) := by
  have hlength := encode_length p type index payload
  have hbytes : (p.encode type index payload).getBytes 5 4 =
      bytesOfWord (index % 2 ^ 32).toNat := by
    rw [getBytes, if_pos (by omega), encode_data]
    generalize (crc32 _ 0).toNat = crc
    rfl
  apply getIndex_of_word
  rw [hbytes, wordOfBytes_bytesOfWord (by omega)]
  omega

theorem encode_getIndex_of_lt (p : Packet) (type : PacketType) {index : Int}
    (payload : List UInt8) (h0 : 0 ≤ index) (h : index < 2 ^ 31) :
    (p.encode type index payload).getIndex = index := by
  rw [encode_getIndex]
  exact Int.bmod_eq_of_le (by omega) (by omega)

theorem encode_getData (p : Packet) (type : PacketType) (index : Int) (payload : List UInt8) :
    (p.encode type index payload).getData = payload := by
  rw [getData, encode_data]
  generalize (crc32 _ 0).toNat = crc
  rfl

theorem getSize_eq (p : Packet) : p.getSize = p.getData.length := by
  simp only [getSize, getData, List.length_drop]
  split <;> omega

theorem encode_getSize (p : Packet) (type : PacketType) (index : Int) (payload : List UInt8) :
    (p.encode type index payload).getSize = payload.length := by
  rw [getSize_eq, encode_getData]

theorem encode_checkCrc32 (p : Packet) (type : PacketType) (index : Int) (payload : List UInt8) :
    (p.encode type index payload).checkCrc32 = true := by
  have hlength := encode_length p type index payload
  have hword : ∀ w : UInt32, UInt32.ofNat (wordOfBytes (bytesOfWord w.toNat)) = w := by
    intro w
    rw [wordOfBytes_bytesOfWord w.toNat_lt, UInt32.ofNat_toNat]
  rw [checkCrc32, getCrc32, getBytes, if_pos (by omega), encode_data]
  simp only [beq_iff_eq]
  exact hword _

@[simp] theorem wire_getType (p : Packet) : p.wire.getType = p.getType := rfl
@[simp] theorem wire_getIndex (p : Packet) : p.wire.getIndex = p.getIndex := rfl
@[simp] theorem wire_getData (p : Packet) : p.wire.getData = p.getData := rfl
@[simp] theorem wire_wire (p : Packet) : p.wire.wire = p.wire := rfl

@[simp] theorem encode_confirmed (p : Packet) (type : PacketType) (index : Int)
    (payload : List UInt8) : (p.encode type index payload).confirmed = p.confirmed := by
  simp only [encode, applyCrc32, setCrc32, setData, setIndex, setType, setBytes]

@[simp] theorem encode_sent (p : Packet) (type : PacketType) (index : Int)
    (payload : List UInt8) : (p.encode type index payload).sent = p.sent := by
  simp only [encode, applyCrc32, setCrc32, setData, setIndex, setType, setBytes]

theorem encode_eq (p : Packet) (type : PacketType) (index : Int) (payload : List UInt8) :
    p.encode type index payload = { p with data := (p.encode type index payload).data } := by
  simp only [encode, applyCrc32, setCrc32, setData, setIndex, setType, setBytes]

theorem encode_wire (p : Packet) (type : PacketType) (index : Int) (payload : List UInt8) :
    (p.encode type index payload).wire = datagram type index payload := by
  simp only [datagram, wire, encode_data]

theorem datagram_getType {type : PacketType} (index : Int) (payload : List UInt8)
    (h : PacketType.ofByte type.toByte = type) : (datagram type index payload).getType = type :=
  encode_getType _ _ _ h

theorem datagram_getIndex (type : PacketType) {index : Int} (payload : List UInt8)
    (h0 : 0 ≤ index) (h : index < 2 ^ 31) : (datagram type index payload).getIndex = index :=
  encode_getIndex_of_lt _ _ _ h0 h

@[simp] theorem datagram_getData (type : PacketType) (index : Int) (payload : List UInt8) :
    (datagram type index payload).getData = payload :=
  encode_getData _ _ _ _

theorem getBytes_of_header {p q : Packet} (h : p.data.take 9 = q.data.take 9)
    (hp : 9 ≤ p.data.length) (hq : 9 ≤ q.data.length) {offset size : Nat} (hend : offset + size ≤ 9) :
    p.getBytes offset size = q.getBytes offset size := by
  have hread : ∀ r : Packet, 9 ≤ r.data.length →
      r.getBytes offset size = ((r.data.take 9).drop offset).take size := by
    intro r hr
    rw [getBytes, if_pos (by omega), List.drop_take, List.take_take,
      Nat.min_eq_left (by omega)]
  rw [hread p hp, hread q hq, h]

section ErasePayload

variable {p : Packet} {size : Nat}

theorem erasePayload_header (hsize : 0 < size) (h : size ≤ p.getData.length) :
    (p.erasePayload size).data.take 9 = p.data.take 9 ∧ 9 ≤ (p.erasePayload size).data.length ∧
      9 ≤ p.data.length := by
  simp only [getData, List.length_drop] at h
  have hlength : (p.data.take 9).length = 9 := by
    rw [List.length_take]
    omega
  refine ⟨?_, ?_, by omega⟩
  · rw [erasePayload, List.take_append_of_le_length (by omega), List.take_take, Nat.min_self]
  · simp only [erasePayload, List.length_append]
    omega

theorem erasePayload_getType (hsize : 0 < size) (h : size ≤ p.getData.length) :
    (p.erasePayload size).getType = p.getType := by
  obtain ⟨hheader, hrest, hfull⟩ := erasePayload_header hsize h
  have hbyte : (p.erasePayload size).getBytes 4 1 = p.getBytes 4 1 :=
    getBytes_of_header hheader hrest hfull (by omega)
  rw [getType, hbyte, getType]

theorem erasePayload_getIndex (hsize : 0 < size) (h : size ≤ p.getData.length) :
    (p.erasePayload size).getIndex = p.getIndex := by
  obtain ⟨hheader, hrest, hfull⟩ := erasePayload_header hsize h
  have hbytes : (p.erasePayload size).getBytes 5 4 = p.getBytes 5 4 :=
    getBytes_of_header hheader hrest hfull (by omega)
  exact congrArg (fun bytes => Int.bmod (wordOfBytes bytes) (2 ^ 32)) hbytes

theorem erasePayload_getData (hsize : 0 < size) (h : size ≤ p.getData.length) :
    (p.erasePayload size).getData = p.getData.drop size := by
  simp only [getData, List.length_drop] at h
  have hlength : (p.data.take 9).length = 9 := by
    rw [List.length_take]
    omega
  rw [getData, erasePayload, getData, List.drop_append_of_le_length (by omega),
    List.drop_of_length_le (by omega), List.nil_append, List.drop_drop]

end ErasePayload

end Packet

end IceTunnel
