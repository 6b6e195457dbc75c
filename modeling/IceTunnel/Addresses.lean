import IceTunnel.Foundation.Decimals
import IceTunnel.Params
import Mathlib.Data.List.Lex
import Mathlib.Data.Prod.Lex
import Mathlib.Data.Fintype.Basic
import Mathlib.Tactic.FinCases

namespace IceTunnel

/-- `sockaddr_in`, with the port in the order of the host. -/
structure SockaddrIn where
  sin_family : UInt16
  sin_port : UInt16
  sin_addr : Fin 4 → UInt8

namespace SockaddrIn

/-- The bytes of an address in memory, which end with `sin_zero`. -/
def bytes (addr : SockaddrIn) : Address :=
  [UInt8.ofNat addr.sin_family.toNat, UInt8.ofNat (addr.sin_family.toNat / 256),
    UInt8.ofNat (addr.sin_port.toNat / 256), UInt8.ofNat addr.sin_port.toNat]
    ++ List.ofFn addr.sin_addr ++ List.replicate 8 0

/-- The address that has these bytes, with zeros after them. -/
def ofBytes (data : Address) : SockaddrIn :=
  let byte (i : Nat) : UInt8 := data.getD i 0
  { sin_family := UInt16.ofNat (256 * (byte 1).toNat + (byte 0).toNat)
    sin_port := UInt16.ofNat (256 * (byte 2).toNat + (byte 3).toNat)
    sin_addr := fun i => byte (4 + i) }

end SockaddrIn

namespace Address

/-- `memcmp` of as many bytes as both have. -/
def memcmp : List UInt8 → List UInt8 → Int
  | a :: as, b :: bs => if a = b then memcmp as bs else (a.toNat : Int) - b.toNat
  | _, _ => 0

/-- `operator<`. -/
def less (a b : Address) : Bool :=
  if a.length < b.length then true
  else if b.length < a.length then false
  else if a.isEmpty then false
  else decide (memcmp a b < 0)

/-- `operator==`. -/
def equals (a b : Address) : Bool :=
  if a.length ≠ b.length then false
  else if a.isEmpty then true
  else decide (memcmp a b = 0)

/-- The `long` nearest to a number. -/
def ofLong (value : Int) : Int :=
  max (-2 ^ 63) (min value (2 ^ 63 - 1))

def atoll (text : String) : Int :=
  ofLong (((Decimals.scan text.toList).map Prod.fst).getD 0)

def atoi (text : String) : Int :=
  (atoll text).bmod (2 ^ 32)

def AF_INET : UInt16 := 2

/-- The host and the port of an address. -/
def split (address : List Char) : List Char × List Char :=
  if ':' ∈ address then
    (address.takeWhile (· != ':'), (address.dropWhile (· != ':')).tail)
  else ("0.0.0.0".toList, address)

def isIp (host : List Char) : Bool :=
  host.all fun c => c == '.' || c.isDigit

/-- `sscanf` with `%d.%d.%d.%d` into four zeros. -/
def scanIp (host : List Char) : Fin 4 → UInt8 := fun i =>
  UInt8.ofInt (ofLong ((Decimals.scanFields '.' 4 host).getD i 0))

/-- `fromString`, which always returns `true`.  The name service has the first address of a
host, if any. -/
def fromString (gethostbyname : String → Option (Fin 4 → UInt8)) (address : String) : Address :=
  let (host, port) := split address.toList
  let resolved := if isIp host then none else gethostbyname (String.ofList host)
  SockaddrIn.bytes
    { sin_family := AF_INET
      sin_port := UInt16.ofInt (atoi (String.ofList port))
      sin_addr := resolved.getD (scanIp host) }

def inet_ntoa (addr : Fin 4 → UInt8) : String :=
  ".".intercalate ((List.ofFn addr).map fun byte => byte.toNat.repr)

def toString (a : Address) : String :=
  let addr := SockaddrIn.ofBytes a
  inet_ntoa addr.sin_addr ++ ":" ++ addr.sin_port.toNat.repr

/-- The library of the handlers of the command line. -/
def library (gethostbyname : String → Option (Fin 4 → UInt8)) (atof : String → Rat) : Library :=
  { atoi := atoi
    atoll := atoll
    atof := atof
    fromString := fun address => some (fromString gethostbyname address) }

section Order

variable {a b : Address}

/-- What the order of addresses goes by. -/
def key (a : Address) : ℕ ×ₗ List ℕ :=
  toLex (a.length, a.map UInt8.toNat)

theorem key_injective : Function.Injective key := by
  intro a b h
  have hbytes := congrArg (fun key => (ofLex key).2) h
  exact List.map_injective_iff.mpr (fun _ _ => UInt8.toNat_inj.mp) hbytes

theorem memcmp_eq_zero_iff (h : a.length = b.length) : memcmp a b = 0 ↔ a = b := by
  induction a generalizing b with
  | nil =>
      obtain rfl := List.length_eq_zero_iff.mp h.symm
      simp [memcmp]
  | cons x xs ih =>
      cases b with
      | nil => exact absurd h (by simp)
      | cons y ys =>
          rw [memcmp, List.cons.injEq]
          split
          · rename_i heq
            rw [ih (by simpa using h), and_iff_right heq]
          · rename_i hne
            rw [sub_eq_zero, Nat.cast_inj, UInt8.toNat_inj]
            tauto

theorem memcmp_lt_zero_iff (h : a.length = b.length) :
    memcmp a b < 0 ↔ a.map UInt8.toNat < b.map UInt8.toNat := by
  induction a generalizing b with
  | nil =>
      obtain rfl := List.length_eq_zero_iff.mp h.symm
      simp [memcmp]
  | cons x xs ih =>
      cases b with
      | nil => exact absurd h (by simp)
      | cons y ys =>
          rw [memcmp, List.map_cons, List.map_cons, List.cons_lt_cons_iff, UInt8.toNat_inj]
          split
          · rename_i heq
            rw [ih (by simpa using h), heq]
            simp
          · rename_i hne
            rw [sub_neg, Nat.cast_lt]
            simp [hne]

theorem less_iff : less a b = true ↔ key a < key b := by
  rw [less, key, key, Prod.Lex.toLex_lt_toLex]
  rcases lt_trichotomy a.length b.length with hlt | heq | hgt
  · simp [hlt]
  · rw [heq, if_neg (lt_irrefl _), if_neg (lt_irrefl _), ← memcmp_lt_zero_iff heq]
    cases a with
    | nil => simp [memcmp]
    | cons x xs => simp
  · simp [hgt, hgt.not_gt, hgt.ne']

theorem equals_iff : equals a b = true ↔ a = b := by
  rw [equals]
  by_cases heq : a.length = b.length
  · rw [if_neg (not_not.mpr heq), ← memcmp_eq_zero_iff heq]
    cases a with
    | nil => simp [memcmp]
    | cons x xs => simp
  · rw [if_pos heq]
    simp only [Bool.false_eq_true, false_iff]
    exact fun h => heq (congrArg List.length h)

/-- `operator<` is a strict order, and the addresses that it does not tell apart are those that
`operator==` finds equal, which have the same bytes. -/
theorem less_strict (a b c : Address) :
    less a a = false ∧ (less a b = true → less b c = true → less a c = true) ∧
      (less a b = false ∧ less b a = false ↔ equals a b = true) ∧ (equals a b = true ↔ a = b) := by
  refine ⟨?_, fun hab hbc => ?_, ?_, equals_iff⟩
  · rw [← Bool.not_eq_true, less_iff]
    exact lt_irrefl _
  · rw [less_iff] at hab hbc ⊢
    exact hab.trans hbc
  · rw [← Bool.not_eq_true, ← Bool.not_eq_true, less_iff, less_iff, equals_iff, not_lt, not_lt,
      ← key_injective.eq_iff]
    exact ⟨fun h => le_antisymm h.2 h.1, fun h => ⟨h.ge, h.le⟩⟩

end Order

section Text

variable {gethostbyname : String → Option (Fin 4 → UInt8)}

/-- Numbers as in a dotted address. -/
def dotted (ns : List Nat) : String :=
  ".".intercalate (ns.map Nat.repr)

theorem inet_ntoa_eq (addr : Fin 4 → UInt8) :
    inet_ntoa addr = dotted ((List.ofFn addr).map UInt8.toNat) := by
  rw [dotted, List.map_map]
  rfl

theorem dotted_toList (ns : List Nat) :
    (dotted ns).toList = ['.'].intercalate (ns.map (Nat.toDigits 10)) := by
  rw [dotted, String.toList_intercalate, List.map_map]
  congr 2
  funext n
  exact Nat.toList_repr

theorem isIp_dotted (ns : List Nat) : isIp (dotted ns).toList = true := by
  rw [dotted_toList]
  induction ns with
  | nil => rfl
  | cons n ns ih =>
      have hdigits : isIp (Nat.toDigits 10 n) = true := by
        rw [isIp, List.all_eq_true]
        intro c hc
        rw [Nat.isDigit_of_mem_toDigits (by decide) (by decide) hc, Bool.or_true]
      cases ns with
      | nil => rwa [List.map_cons, List.map_nil, List.intercalate_singleton]
      | cons m ns =>
          simp only [List.map_cons, List.intercalate_cons_cons] at ih ⊢
          rw [isIp, List.all_append, List.all_append]
          rw [isIp] at hdigits ih
          rw [hdigits, ih]
          rfl

theorem split_append {host : List Char} (hhost : isIp host = true) (port : List Char) :
    split (host ++ ':' :: port) = (host, port) := by
  have hcolon : ∀ c ∈ host, (c != ':') = true := by
    rintro c hc
    rw [bne_iff_ne]
    rintro rfl
    exact absurd (List.all_eq_true.mp hhost _ hc) (by decide)
  rw [split, if_pos (by simp), List.takeWhile_append_of_pos hcolon,
    List.dropWhile_append_of_pos hcolon]
  simp

theorem atoll_repr (n : Nat) : atoll n.repr = ofLong n := by
  have hscan := Decimals.scan_toDigits (n := n) Decimals.ends_nil
  rw [List.append_nil] at hscan
  rw [atoll, Nat.toList_repr, hscan]
  rfl

theorem scanIp_dotted (ns : Fin 4 → Nat) :
    scanIp (dotted (List.ofFn ns)).toList = fun i => UInt8.ofInt (ofLong (ns i)) := by
  have hscan := Decimals.scanFields_intercalate '.' (by decide) (List.ofFn ns)
  rw [List.length_ofFn, ← dotted_toList] at hscan
  funext i
  rw [scanIp, hscan, List.getD_eq_getElem?_getD, List.getElem?_map, List.getElem?_ofFn,
    dif_pos i.isLt]
  rfl

theorem ofInt_bmod (value : Int) : UInt16.ofInt (value.bmod (2 ^ 32)) = UInt16.ofInt value := by
  have hmod : value.bmod (2 ^ 32) % 2 ^ 16 = value % 2 ^ 16 := by
    rw [Int.bmod_def]
    split <;> omega
  rw [UInt16.ofInt, hmod, UInt16.ofInt]

/-- Numbers of any size in a text are cut off, not refused. -/
theorem fromString_dotted (ns : Fin 4 → Nat) (port : Nat) :
    fromString gethostbyname (dotted (List.ofFn ns) ++ ":" ++ port.repr) = SockaddrIn.bytes
      { sin_family := AF_INET
        sin_port := UInt16.ofInt (ofLong port)
        sin_addr := fun i => UInt8.ofInt (ofLong (ns i)) } := by
  have hsplit : split (dotted (List.ofFn ns) ++ ":" ++ port.repr).toList =
      ((dotted (List.ofFn ns)).toList, port.repr.toList) := by
    rw [String.toList_append, String.toList_append, List.append_assoc]
    exact split_append (isIp_dotted _) _
  simp only [fromString, hsplit, isIp_dotted, if_true, Option.getD_none, String.ofList_toList, atoi,
    atoll_repr, scanIp_dotted, ofInt_bmod]

theorem ofLong_of_lt {n : Nat} (h : n < 2 ^ 63) : ofLong n = n := by
  rw [ofLong]
  omega

theorem toString_eq (a : Address) :
    a.toString = dotted (List.ofFn fun i => ((SockaddrIn.ofBytes a).sin_addr i).toNat) ++ ":" ++
      (SockaddrIn.ofBytes a).sin_port.toNat.repr := by
  rw [toString, inet_ntoa_eq, List.map_ofFn]
  rfl

theorem fromString_toString (a : Address) : fromString gethostbyname a.toString =
    SockaddrIn.bytes { SockaddrIn.ofBytes a with sin_family := AF_INET } := by
  have hport := (SockaddrIn.ofBytes a).sin_port.toNat_lt
  have hbyte (i : Fin 4) := ((SockaddrIn.ofBytes a).sin_addr i).toNat_lt
  rw [toString_eq, fromString_dotted, ofLong_of_lt (by omega)]
  congr 2
  · have hnat : ((SockaddrIn.ofBytes a).sin_port.toNat % 2 ^ 16 : Int).toNat =
        (SockaddrIn.ofBytes a).sin_port.toNat := by omega
    rw [UInt16.ofInt, hnat, UInt16.ofNat_toNat]
  · funext i
    have hlt := hbyte i
    have hnat : (((SockaddrIn.ofBytes a).sin_addr i).toNat % 2 ^ 8 : Int).toNat =
        ((SockaddrIn.ofBytes a).sin_addr i).toNat := by omega
    rw [ofLong_of_lt (by omega), UInt8.ofInt, hnat, UInt8.ofNat_toNat]

theorem ofNat_bytes (n : Nat) :
    UInt16.ofNat (256 * (UInt8.ofNat (n / 256)).toNat + (UInt8.ofNat n).toNat) = UInt16.ofNat n := by
  rw [← UInt16.toNat_inj, UInt16.toNat_ofNat', UInt16.toNat_ofNat', UInt8.toNat_ofNat',
    UInt8.toNat_ofNat']
  omega

theorem ofBytes_bytes (addr : SockaddrIn) : SockaddrIn.ofBytes addr.bytes = addr := by
  obtain ⟨family, port, ip⟩ := addr
  simp only [SockaddrIn.ofBytes, SockaddrIn.mk.injEq]
  refine ⟨?_, ?_, ?_⟩
  · exact (ofNat_bytes _).trans UInt16.ofNat_toNat
  · exact (ofNat_bytes _).trans UInt16.ofNat_toNat
  · funext i
    fin_cases i <;> rfl

theorem ofBytes_fromString (address : String) :
    (SockaddrIn.ofBytes (fromString gethostbyname address)).bytes =
        fromString gethostbyname address ∧
      (SockaddrIn.ofBytes (fromString gethostbyname address)).sin_family = AF_INET := by
  rw [fromString, ofBytes_bytes]
  exact ⟨rfl, rfl⟩

/-- Printing is stable: an address that comes from a text is parsed again from the text that it is
printed as, whatever the name service has to say, and so is every printed text. -/
theorem fromString_toString_fromString
    (gethostbyname gethostbyname' : String → Option (Fin 4 → UInt8)) (address : String)
    (a : Address) :
    fromString gethostbyname' (fromString gethostbyname address).toString =
        fromString gethostbyname address ∧
      (fromString gethostbyname a.toString).toString = a.toString := by
  obtain ⟨hbytes, hfamily⟩ : _ ∧ (SockaddrIn.ofBytes (fromString gethostbyname address)).sin_family =
      AF_INET := ofBytes_fromString address
  constructor
  · rw [fromString_toString, ← hfamily]
    exact hbytes
  · rw [fromString_toString, toString_eq, toString_eq a, ofBytes_bytes]

end Text

end Address

end IceTunnel
