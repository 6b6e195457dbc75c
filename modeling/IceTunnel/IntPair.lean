import IceTunnel.Foundation.Base128
import IceTunnel.Packet

namespace IceTunnel.Packet

/-- The loop `while(bits > 7 && (a & (1 << (bits-1))) == 0) --bits;`. -/
def significantBits (a : Nat) : Nat → Nat
  | 0 => 0
  | bits + 1 => if bits + 1 > 7 && !a.testBit bits then significantBits a bits else bits + 1

/-- `bytesA` and `bytesB`: the number of groups of an `int`. -/
def groupCount (a : Nat) : Nat :=
  (significantBits a 32 - 1) / 7 + 1

/-- The loop `for(int i = bytes - 1; i >= 0; --i, ++c)`. -/
def packGroups (a : Nat) : Nat → List UInt8
  | 0 => []
  | i + 1 => UInt8.ofNat ((0x7f &&& (a >>> (i * 7))) ||| (if i ≠ 0 then 0x80 else 0)) :: packGroups a i

/-- The two reference arguments of `packIntPair`: what has been written below
`data`, and the bytes still free. -/
structure PackBuffer where
  written : List UInt8
  size : Int
  deriving DecidableEq, Repr

/-- `none` is the result `false`: neither argument has changed. -/
def packIntPair (a b : Int) (buffer : PackBuffer) : Option PackBuffer :=
  if a < 0 ∨ b < 0 then none
  else
    let bytesA := groupCount a.toNat
    let bytesB := groupCount b.toNat
    if (bytesA + bytesB : Int) > buffer.size then none
    else some
      { written := buffer.written ++ packGroups a.toNat bytesA ++ packGroups b.toNat bytesB
        size := buffer.size - (bytesA + bytesB) }

/-- One of the two loops of `unpackIntPair`, with the 32-bit shift of `int`. -/
def unpackInt (a : UInt32) (i : Nat) : List UInt8 → Option (UInt32 × List UInt8)
  | [] => none
  | c :: rest =>
      let a := (a <<< 7) ||| (c &&& 0x7f).toUInt32
      if c &&& 0x80 = 0 then some (a, rest)
      else if a.toNat ≥ 2 ^ 31 ∨ i ≥ 5 then none
      else unpackInt a (i + 1) rest

/-- What `unpackIntPair` returns and leaves in its reference arguments. -/
structure Unpacked where
  success : Bool
  a : Int
  b : Int
  data : List UInt8
  deriving DecidableEq, Repr

def unpackIntPair (data : List UInt8) : Unpacked :=
  match unpackInt 0 0 data with
  | none => ⟨false, 0, 0, data⟩
  | some (a, rest) =>
      match unpackInt 0 0 rest with
      | none => ⟨false, 0, 0, data⟩
      | some (b, rest') =>
          ⟨true, Int.bmod a.toNat (2 ^ 32), Int.bmod b.toNat (2 ^ 32), rest'⟩

theorem packGroups_eq_encode (a n : Nat) : packGroups a n = Base128.encode a n := by
  induction n with
  | zero => rfl
  | succ n ih =>
      rw [packGroups, Base128.encode, ih]
      congr 2
      have hmask : 0x7f &&& (a >>> (n * 7)) = a / 128 ^ n % 128 := by
        rw [Nat.and_comm, Nat.shiftRight_eq_div_pow, Nat.mul_comm, Nat.pow_mul]
        exact Nat.and_two_pow_sub_one_eq_mod _ 7
      rw [hmask]
      by_cases hn : n = 0
      · simp [hn]
      · have hlt : a / 128 ^ n % 128 < 2 ^ 7 := Nat.mod_lt _ (by decide)
        rw [if_pos hn, if_neg hn, Nat.or_comm]
        have := Nat.two_pow_add_eq_or_of_lt hlt 1
        simp only [Nat.mul_one] at this
        change 2 ^ 7 ||| a / 128 ^ n % 128 = a / 128 ^ n % 128 + 128
        omega

theorem lt_two_pow_significantBits {a n : Nat} (h : a < 2 ^ n) :
    a < 2 ^ significantBits a n := by
  induction n with
  | zero => simpa [significantBits] using h
  | succ n ih =>
      rw [significantBits]
      split
      · rename_i hskip
        simp only [Bool.and_eq_true, Bool.not_eq_true', decide_eq_true_eq] at hskip
        apply ih
        by_contra hge
        rw [Nat.testBit_eq_decide_div_mod_eq] at hskip
        have hdiv : a / 2 ^ n = 1 := by
          rw [pow_succ] at h
          exact Nat.div_eq_of_lt_le (by omega) (by omega)
        simp [hdiv] at hskip
      · exact h

theorem significantBits_le (a n : Nat) : significantBits a n ≤ n := by
  induction n with
  | zero => rfl
  | succ n ih =>
      rw [significantBits]
      split <;> omega

theorem groupCount_pos (a : Nat) : 0 < groupCount a :=
  Nat.succ_pos _

theorem groupCount_le {a : Nat} : groupCount a ≤ 5 := by
  have := significantBits_le a 32
  unfold groupCount
  omega

theorem lt_pow_groupCount {a : Nat} (h : a < 2 ^ 31) : a < 128 ^ groupCount a := by
  have hbits := lt_two_pow_significantBits (a := a) (n := 32) (by omega)
  calc
    a < 2 ^ significantBits a 32 := hbits
    _ ≤ 2 ^ (7 * groupCount a) := by
      apply Nat.pow_le_pow_right (by decide)
      unfold groupCount
      omega
    _ = 128 ^ groupCount a := by rw [Nat.pow_mul]

theorem shiftGroup_toNat {a : UInt32} (h : a.toNat * 128 < 2 ^ 32) (c : UInt8) :
    ((a <<< 7) ||| (c &&& 0x7f).toUInt32).toNat = a.toNat * 128 + c.toNat % 128 := by
  have hlow : ((c &&& 0x7f).toUInt32).toNat = c.toNat % 128 := by
    rw [UInt8.toNat_toUInt32, UInt8.toNat_and]
    exact Nat.and_two_pow_sub_one_eq_mod _ 7
  have hhigh : (a <<< 7).toNat = 2 ^ 7 * a.toNat := by
    rw [UInt32.toNat_shiftLeft, Nat.shiftLeft_eq]
    have : (7 : UInt32).toNat % 32 = 7 := rfl
    rw [this]
    omega
  rw [UInt32.toNat_or, hhigh, hlow]
  rw [← Nat.two_pow_add_eq_or_of_lt (by omega : c.toNat % 128 < 2 ^ 7)]
  omega

theorem isLastGroup_iff (c : UInt8) : c &&& 0x80 = 0 ↔ c.toNat < 128 := by
  have htop : ∀ n : Fin 256, n.val &&& 128 = 0 ↔ n.val < 128 := by decide +kernel
  rw [← UInt8.toNat_inj, UInt8.toNat_and]
  exact htop ⟨c.toNat, c.toNat_lt⟩

/-- While no number reaches the sign bit, the 32-bit loop reads as `Base128` does. -/
theorem unpackInt_of_read {bytes : List UInt8} {a : UInt32} {i limit : Nat}
    (hlimit : i + limit = 5) (hvalue : (Base128.read a.toNat limit bytes).1 < 2 ^ 31) :
    unpackInt a i bytes = (Base128.read a.toNat limit bytes).2.map fun rest =>
      (UInt32.ofNat (Base128.read a.toNat limit bytes).1, rest) := by
  induction bytes generalizing a i limit with
  | nil => rfl
  | cons c bytes ih =>
      have hgroup := Base128.le_read_cons a.toNat limit c bytes
      have hnext := shiftGroup_toNat (by omega : a.toNat * 128 < 2 ^ 32) c
      rw [unpackInt]
      by_cases hlast : c.toNat < 128
      · rw [if_pos ((isLastGroup_iff c).mpr hlast), Base128.read_last hlast, ← hnext,
          UInt32.ofNat_toNat]
        rfl
      · rw [if_neg (mt (isLastGroup_iff c).mp hlast)]
        cases limit with
        | zero =>
            rw [if_pos (.inr (by omega)), Base128.read_cut hlast]
            rfl
        | succ limit =>
            rw [if_neg (by omega), Base128.read_more hlast, ← hnext]
            rw [Base128.read_more hlast, ← hnext] at hvalue
            exact ih (by omega) hvalue

theorem read_packGroups {a : Nat} (h : a < 2 ^ 31) (rest : List UInt8) :
    Base128.read 0 5 (packGroups a (groupCount a) ++ rest) = (a, some rest) := by
  obtain ⟨n, hn⟩ := Nat.exists_eq_succ_of_ne_zero (groupCount_pos a).ne'
  have hcount := groupCount_le (a := a)
  have hlt := lt_pow_groupCount h
  rw [hn] at hcount hlt ⊢
  have hdecode := Base128.decode_encode_append a n 0 rest
  rw [Nat.zero_mul, Nat.zero_add, Nat.mod_eq_of_lt hlt] at hdecode
  rw [packGroups_eq_encode]
  apply Base128.read_of_decode hdecode
  simp only [List.length_append, Base128.encode_length]
  omega

theorem unpackInt_packGroups {a : Nat} (h : a < 2 ^ 31) (rest : List UInt8) :
    unpackInt 0 0 (packGroups a (groupCount a) ++ rest) = some (UInt32.ofNat a, rest) := by
  have hread : Base128.read (0 : UInt32).toNat 5 (packGroups a (groupCount a) ++ rest) =
      (a, some rest) := read_packGroups h rest
  have hvalue : (Base128.read (0 : UInt32).toNat 5 (packGroups a (groupCount a) ++ rest)).1 <
      2 ^ 31 := by rwa [hread]
  rw [unpackInt_of_read rfl hvalue, hread]
  rfl

theorem unpackIntPair_of_packIntPair {a b : Int} {buffer buffer' : PackBuffer}
    (ha : a < 2 ^ 31) (hb : b < 2 ^ 31) (h : packIntPair a b buffer = some buffer') :
    ∃ bytes, buffer'.written = buffer.written ++ bytes ∧
      ∀ rest, unpackIntPair (bytes ++ rest) = ⟨true, a, b, rest⟩ := by
  unfold packIntPair at h
  split at h
  · cases h
  rename_i hsign
  simp only at h
  split at h
  · cases h
  simp only [Option.some.injEq] at h
  subst h
  refine ⟨packGroups a.toNat (groupCount a.toNat) ++ packGroups b.toNat (groupCount b.toNat), ?_, ?_⟩
  · simp
  intro rest
  have hnat : ∀ {n : Int}, ¬ n < 0 → n < 2 ^ 31 →
      Int.bmod (UInt32.ofNat n.toNat).toNat (2 ^ 32) = n := by
    intro n h0 hlt
    rw [UInt32.toNat_ofNat', Nat.mod_eq_of_lt (by omega), Int.toNat_of_nonneg (by omega)]
    exact Int.bmod_eq_of_le (by omega) (by omega)
  unfold unpackIntPair
  simp only [List.append_assoc]
  rw [unpackInt_packGroups (by omega)]
  simp only
  rw [unpackInt_packGroups (by omega)]
  simp only [hnat (fun h => hsign (Or.inl h)) ha, hnat (fun h => hsign (Or.inr h)) hb]

end IceTunnel.Packet
