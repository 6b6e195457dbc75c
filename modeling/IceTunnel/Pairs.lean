import IceTunnel.IntPair

/-!
Streams of pairs: `packIntPair` called again and again on one buffer, `unpackIntPair` on
what it wrote, and which inputs `unpackIntPair` decodes as it should.
-/

namespace IceTunnel.Packet

/-- The bytes of a buffer with the two reference arguments that walk it: the offset of
`data` and the `size` behind it. -/
structure Span where
  bytes : List UInt8
  data : Nat
  size : Int
  deriving DecidableEq, Repr

namespace Span

/-- `size` bytes behind `data` are in the buffer. -/
def Fits (s : Span) : Prop :=
  0 ≤ s.size ∧ s.data + s.size ≤ s.bytes.length

/-- The span behind some bytes written at `data`. -/
def write (s : Span) (bytes : List UInt8) : Span :=
  { bytes := s.bytes.take s.data ++ bytes ++ s.bytes.drop (s.data + bytes.length)
    data := s.data + bytes.length
    size := s.size - bytes.length }

/-- The span as the rest of the model sees it. -/
def view (s : Span) : PackBuffer :=
  { written := s.bytes.take s.data
    size := s.size }

end Span

/-- The loop `*c = ..., ++c`.  `none` is a write past the end of the buffer. -/
def storeBytes : List UInt8 → List UInt8 → Nat → Option (List UInt8 × Nat)
  | [], buffer, c => some (buffer, c)
  | byte :: bytes, buffer, c =>
      if c < buffer.length then storeBytes bytes (buffer.set c byte) (c + 1) else none

/-- `packIntPair` with its writes to memory, and its result. -/
def packIntPairInto (a b : Int) (s : Span) : Option (Bool × Span) :=
  if a < 0 ∨ b < 0 then some (false, s)
  else
    let bytesA := groupCount a.toNat
    let bytesB := groupCount b.toNat
    if (bytesA + bytesB : Int) > s.size then some (false, s)
    else
      (storeBytes (packGroups a.toNat bytesA) s.bytes s.data).bind fun (buffer, c) =>
        (storeBytes (packGroups b.toNat bytesB) buffer c).map fun (buffer, c) =>
          (true, { bytes := buffer, data := c, size := s.size - (bytesA + bytesB) })

/-- Calls of `packIntPair` until one of them fails, and the pairs packed. -/
def packPairs : List (Int × Int) → Span → Option (List (Int × Int) × Span)
  | [], s => some ([], s)
  | (a, b) :: pairs, s =>
      (packIntPairInto a b s).bind fun (success, s) =>
        if success then (packPairs pairs s).map fun (packed, s) => ((a, b) :: packed, s)
        else some ([], s)

/-- Calls of `unpackIntPair` until one of them fails: the pairs and the last result. -/
def unpackPairs : Nat → List UInt8 → List (Int × Int) × Option Unpacked
  | 0, _ => ([], none)
  | fuel + 1, data =>
      let pair := unpackIntPair data
      if pair.success then
        let (pairs, last) := unpackPairs fuel pair.data
        ((pair.a, pair.b) :: pairs, last)
      else ([], some pair)

def encodePair (pair : Int × Int) : List UInt8 :=
  packGroups pair.1.toNat (groupCount pair.1.toNat) ++ packGroups pair.2.toNat (groupCount pair.2.toNat)

def encodePairs (pairs : List (Int × Int)) : List UInt8 :=
  pairs.flatMap encodePair

/-- The numbers that an `int` holds and `packIntPair` takes. -/
def Packable (pair : Int × Int) : Prop :=
  (0 ≤ pair.1 ∧ pair.1 < 2 ^ 31) ∧ (0 ≤ pair.2 ∧ pair.2 < 2 ^ 31)

section Pack

variable {s : Span}

theorem packGroups_length (a n : Nat) : (packGroups a n).length = n := by
  rw [packGroups_eq_encode, Base128.encode_length]

theorem encodePair_length (pair : Int × Int) : (encodePair pair).length =
    groupCount pair.1.toNat + groupCount pair.2.toNat := by
  rw [encodePair, List.length_append, packGroups_length, packGroups_length]

theorem storeBytes_append (front : List UInt8) {bytes old : List UInt8}
    (h : old.length = bytes.length) (back : List UInt8) :
    storeBytes bytes (front ++ old ++ back) front.length =
      some (front ++ bytes ++ back, front.length + bytes.length) := by
  induction bytes generalizing front old with
  | nil =>
      obtain rfl := List.length_eq_zero_iff.mp h
      rfl
  | cons byte bytes ih =>
      cases old with
      | nil => cases h
      | cons first old =>
          have hset : (front ++ first :: old ++ back).set front.length byte =
              (front ++ [byte]) ++ old ++ back := by
            rw [List.append_assoc, List.set_append_right _ _ (Nat.le_refl _), Nat.sub_self]
            simp
          have hnext := ih (front ++ [byte]) (Nat.succ.inj h)
          rw [storeBytes, if_pos (by simp), hset]
          rw [List.length_append, List.length_singleton] at hnext
          rw [hnext]
          simp only [List.append_assoc, List.singleton_append, List.length_cons]
          congr 2
          omega

theorem storeBytes_eq (hfits : s.Fits) {bytes : List UInt8} (h : (bytes.length : Int) ≤ s.size) :
    storeBytes bytes s.bytes s.data = some ((s.write bytes).bytes, (s.write bytes).data) := by
  obtain ⟨-, hroom⟩ := hfits
  have hfront : (s.bytes.take s.data).length = s.data := by
    rw [List.length_take]
    omega
  have hold : ((s.bytes.drop s.data).take bytes.length).length = bytes.length := by
    rw [List.length_take, List.length_drop]
    omega
  have hsplit : s.bytes = s.bytes.take s.data ++ (s.bytes.drop s.data).take bytes.length ++
      s.bytes.drop (s.data + bytes.length) := by
    rw [List.append_assoc, ← List.drop_drop, List.take_append_drop, List.take_append_drop]
  have hstore := storeBytes_append (s.bytes.take s.data) hold (s.bytes.drop (s.data + bytes.length))
  rw [← hsplit, hfront] at hstore
  exact hstore

theorem Span.Fits.write (hfits : s.Fits) {bytes : List UInt8} (h : (bytes.length : Int) ≤ s.size) :
    (s.write bytes).Fits := by
  obtain ⟨-, hroom⟩ := hfits
  refine ⟨by simp only [Span.write]; omega, ?_⟩
  simp only [Span.write, List.length_append, List.length_take, List.length_drop]
  omega

theorem Span.Fits.view_write (hfits : s.Fits) {bytes : List UInt8}
    (h : (bytes.length : Int) ≤ s.size) : (s.write bytes).view =
      { written := s.view.written ++ bytes
        size := s.size - bytes.length } := by
  obtain ⟨-, hroom⟩ := hfits
  have hwritten : (s.bytes.take s.data ++ bytes).length = s.data + bytes.length := by
    rw [List.length_append, List.length_take]
    omega
  simp only [Span.view, Span.write]
  rw [List.take_left' hwritten]

theorem Span.Fits.write_write (hfits : s.Fits) {x y : List UInt8}
    (hx : (x.length : Int) ≤ s.size) : (s.write x).write y = s.write (x ++ y) := by
  obtain ⟨-, hroom⟩ := hfits
  have hfront : (s.bytes.take s.data).length = s.data := by
    rw [List.length_take]
    omega
  have hwritten : (s.bytes.take s.data ++ x).length = s.data + x.length := by
    rw [List.length_append, hfront]
  have hback : (s.bytes.take s.data ++ x ++ s.bytes.drop (s.data + x.length)).drop
      (s.data + x.length + y.length) = s.bytes.drop (s.data + (x.length + y.length)) := by
    rw [← hwritten, List.drop_length_add_append, List.drop_drop, hwritten, Nat.add_assoc]
  simp only [Span.write, List.length_append, Span.mk.injEq]
  refine ⟨?_, by omega, by omega⟩
  rw [hback, List.take_append_of_le_length (by omega), List.take_of_length_le (by omega),
    List.append_assoc (s.bytes.take s.data) x y]

theorem packIntPairInto_eq (hfits : s.Fits) (a b : Int) : packIntPairInto a b s =
    if 0 ≤ a ∧ 0 ≤ b ∧ ((encodePair (a, b)).length : Int) ≤ s.size then
      some (true, s.write (encodePair (a, b)))
    else some (false, s) := by
  have hlength := encodePair_length (a, b)
  simp only at hlength
  by_cases hsign : a < 0 ∨ b < 0
  · rw [packIntPairInto, if_pos hsign, if_neg (by omega)]
  · simp only [packIntPairInto, if_neg hsign]
    by_cases hroom : ((encodePair (a, b)).length : Int) ≤ s.size
    · rw [if_neg (by omega), if_pos (by omega),
        storeBytes_eq hfits (by rw [packGroups_length]; omega), Option.bind_some,
        storeBytes_eq (hfits.write (by rw [packGroups_length]; omega))
          (by simp only [Span.write, packGroups_length]; omega),
        Option.map_some, hfits.write_write (by rw [packGroups_length]; omega)]
      simp only [Span.write, encodePair, List.length_append, packGroups_length]
      rfl
    · rw [if_pos (by omega), if_neg (by omega)]

theorem packIntPair_view (hfits : s.Fits) (a b : Int) : packIntPair a b s.view =
    (packIntPairInto a b s).bind fun (success, t) => if success then some t.view else none := by
  have hlength := encodePair_length (a, b)
  simp only at hlength
  rw [packIntPairInto_eq hfits]
  by_cases hsign : a < 0 ∨ b < 0
  · rw [packIntPair, if_pos hsign, if_neg (by omega)]
    rfl
  · simp only [packIntPair, if_neg hsign]
    by_cases hroom : ((encodePair (a, b)).length : Int) ≤ s.size
    · rw [if_neg (by simp only [Span.view]; omega), if_pos (by omega), Option.bind_some, if_pos rfl,
        hfits.view_write hroom, hlength]
      simp only [encodePair, List.append_assoc, Span.view]
      rfl
    · rw [if_pos (by simp only [Span.view]; omega), if_neg (by omega)]
      rfl

end Pack

section Stream

variable {s : Span}

theorem Span.write_nil (s : Span) : s.write [] = s := by
  simp only [Span.write, List.append_nil, List.length_nil, Nat.add_zero, List.take_append_drop,
    Nat.cast_zero, Int.sub_zero]

theorem Span.Fits.take_drop_write (hfits : s.Fits) (bytes : List UInt8) :
    ((s.write bytes).bytes.drop s.data).take ((s.write bytes).data - s.data) = bytes := by
  obtain ⟨hsize, hroom⟩ := hfits
  have hfront : (s.bytes.take s.data).length = s.data := by
    rw [List.length_take]
    omega
  simp only [Span.write]
  rw [List.append_assoc, List.drop_left' hfront, Nat.add_sub_cancel_left, List.take_left]

@[simp] theorem encodePairs_cons (pair : Int × Int) (pairs : List (Int × Int)) :
    encodePairs (pair :: pairs) = encodePair pair ++ encodePairs pairs := rfl

theorem unpackIntPair_encodePair {pair : Int × Int} (h : Packable pair) (rest : List UInt8) :
    unpackIntPair (encodePair pair ++ rest) = ⟨true, pair.1, pair.2, rest⟩ := by
  obtain ⟨⟨ha, ha'⟩, ⟨hb, hb'⟩⟩ := h
  have hpack : packIntPair pair.1 pair.2 ⟨[], (encodePair pair).length⟩ = some ⟨encodePair pair, 0⟩ := by
    have hlength := encodePair_length pair
    simp only [packIntPair, if_neg (by omega : ¬(pair.1 < 0 ∨ pair.2 < 0))]
    rw [if_neg (by omega), hlength]
    simp [encodePair]
  obtain ⟨bytes, hwritten, hunpack⟩ := unpackIntPair_of_packIntPair ha' hb' hpack
  obtain rfl : encodePair pair = bytes := hwritten
  exact hunpack rest

theorem packPairs_eq (hfits : s.Fits) {pairs : List (Int × Int)}
    (hpairs : ∀ pair ∈ pairs, Packable pair) :
    ∃ packed, packPairs pairs s = some (packed, s.write (encodePairs packed)) ∧ packed <+: pairs ∧
      ((encodePairs packed).length : Int) ≤ s.size ∧
      ∀ front, front <+: pairs → ((encodePairs front).length : Int) ≤ s.size → front <+: packed := by
  induction pairs generalizing s with
  | nil =>
      refine ⟨[], ?_, List.nil_prefix, hfits.1, fun front hfront _ => hfront⟩
      rw [packPairs, encodePairs, List.flatMap_nil, Span.write_nil]
  | cons pair pairs ih =>
      obtain ⟨a, b⟩ := pair
      obtain ⟨⟨ha, -⟩, ⟨hb, -⟩⟩ := hpairs (a, b) List.mem_cons_self
      by_cases hroom : ((encodePair (a, b)).length : Int) ≤ s.size
      · obtain ⟨packed, hpacked, horder, hsize, hlongest⟩ :=
          ih (hfits.write hroom) fun pair hpair => hpairs pair (List.mem_cons_of_mem _ hpair)
        have hrest : (s.write (encodePair (a, b))).size = s.size - (encodePair (a, b)).length := rfl
        refine ⟨(a, b) :: packed, ?_, (List.cons_prefix_cons).mpr ⟨rfl, horder⟩, ?_, ?_⟩
        · rw [packPairs, packIntPairInto_eq hfits, if_pos ⟨ha, hb, hroom⟩, encodePairs_cons,
            ← hfits.write_write hroom]
          simp only [Option.bind_some, if_true, hpacked, Option.map_some]
        · rw [encodePairs_cons, List.length_append]
          omega
        · intro front hfront hfrontSize
          cases front with
          | nil => exact List.nil_prefix
          | cons first front =>
              obtain ⟨rfl, hrestFront⟩ := List.cons_prefix_cons.mp hfront
              rw [encodePairs_cons, List.length_append] at hfrontSize
              exact List.cons_prefix_cons.mpr ⟨rfl, hlongest front hrestFront (by omega)⟩
      · refine ⟨[], ?_, List.nil_prefix, hfits.1, fun front hfront hfrontSize => ?_⟩
        · rw [packPairs, packIntPairInto_eq hfits, if_neg (fun h => hroom h.2.2), encodePairs,
            List.flatMap_nil, Span.write_nil]
          rfl
        · cases front with
          | nil => exact List.nil_prefix
          | cons first front =>
              obtain ⟨rfl, -⟩ := List.cons_prefix_cons.mp hfront
              rw [encodePairs_cons, List.length_append] at hfrontSize
              omega

theorem unpackPairs_encodePairs {packed : List (Int × Int)} (hpacked : ∀ pair ∈ packed, Packable pair)
    {fuel : Nat} (hfuel : packed.length < fuel) :
    unpackPairs fuel (encodePairs packed) = (packed, some ⟨false, 0, 0, []⟩) := by
  induction packed generalizing fuel with
  | nil =>
      obtain ⟨fuel, rfl⟩ := Nat.exists_eq_succ_of_ne_zero (Nat.ne_zero_of_lt hfuel)
      rfl
  | cons pair packed ih =>
      obtain ⟨fuel, rfl⟩ := Nat.exists_eq_succ_of_ne_zero (Nat.ne_zero_of_lt hfuel)
      have hrest := ih (fun pair hpair => hpacked pair (List.mem_cons_of_mem _ hpair))
        (Nat.lt_of_succ_lt_succ hfuel)
      rw [unpackPairs, encodePairs_cons, unpackIntPair_encodePair (hpacked pair List.mem_cons_self)]
      simp only [if_true, hrest]

/-- What becomes of a list of pairs that go into a span one by one, and of the bytes. -/
structure PackedStream (pairs : List (Int × Int)) (s : Span) (packed : List (Int × Int)) (t : Span) :
    Prop where
  packs : packPairs pairs s = some (packed, t)
  writes : t = s.write (encodePairs packed)
  in_order : packed <+: pairs
  fits : t.Fits
  longest : ∀ front, front <+: pairs → ((encodePairs front).length : Int) ≤ s.size → front <+: packed
  unpacks : ∀ fuel, packed.length < fuel →
    unpackPairs fuel ((t.bytes.drop s.data).take (t.data - s.data)) =
      (packed, some ⟨false, 0, 0, []⟩)

/-- The pairs that fit go in and come out again, and a call that fails changes nothing. -/
theorem packedStream (pairs : List (Int × Int)) (hpairs : ∀ pair ∈ pairs, Packable pair) (s : Span)
    (hfits : s.Fits) :
    (∃ packed t, PackedStream pairs s packed t) ∧
      ∀ (a b : Int) (t : Span), t.Fits → packIntPairInto a b t =
        if 0 ≤ a ∧ 0 ≤ b ∧ ((encodePair (a, b)).length : Int) ≤ t.size then
          some (true, t.write (encodePair (a, b)))
        else some (false, t) := by
  refine ⟨?_, fun a b t ht => packIntPairInto_eq ht a b⟩
  obtain ⟨packed, hpacks, horder, hsize, hlongest⟩ := packPairs_eq hfits hpairs
  refine ⟨packed, _, hpacks, rfl, horder, hfits.write hsize, hlongest, ?_⟩
  intro fuel hfuel
  rw [hfits.take_drop_write]
  exact unpackPairs_encodePairs (fun pair hpair => hpairs pair (horder.subset hpair)) hfuel

/-- The second pair does not fit. -/
theorem packedStream_two : ∃ packed t, PackedStream [(0, 127), (128, 1)] ⟨[7, 7, 7, 7, 7], 1, 4⟩ packed t :=
  (packedStream [(0, 127), (128, 1)] (by unfold Packable; decide) ⟨[7, 7, 7, 7, 7], 1, 4⟩
    (by unfold Span.Fits; decide)).1

end Stream

section Decode

/-- What the number read so far is worth after each group that another one follows. -/
def continued (acc : Nat) : List UInt8 → List Nat
  | [] => []
  | byte :: bytes =>
      if byte.toNat < 128 then []
      else (acc * 128 + byte.toNat % 128) :: continued (acc * 128 + byte.toNat % 128) bytes

/-- The 32 bits of a number have their sign bit clear. -/
def SignClear (n : Nat) : Prop :=
  n % 2 ^ 32 < 2 ^ 31

instance (n : Nat) : Decidable (SignClear n) :=
  inferInstanceAs (Decidable (_ < _))

/-- The input spells two numbers in six groups at most, one of them is too large for an
`int`, and no group that another one follows leaves the sign bit set. -/
def OverflowsUnnoticed (data : List UInt8) : Prop :=
  match Base128.read 0 5 data with
  | (_, none) => False
  | (a, some rest) =>
      match Base128.read 0 5 rest with
      | (_, none) => False
      | (b, some _) => (2 ^ 31 ≤ a ∨ 2 ^ 31 ≤ b) ∧
          (∀ n ∈ continued 0 data, SignClear n) ∧ ∀ n ∈ continued 0 rest, SignClear n

/-- A pair that `unpackIntPair` returns is the one that the bytes it consumed spell, and
without one it changes nothing. -/
structure DecodesSoundly (data : List UInt8) : Prop where
  of_success : (unpackIntPair data).success = true →
    (0 ≤ (unpackIntPair data).a ∧ (unpackIntPair data).a < 2 ^ 31) ∧
    (0 ≤ (unpackIntPair data).b ∧ (unpackIntPair data).b < 2 ^ 31) ∧
    (∃ rest, Base128.decode 0 data = some ((unpackIntPair data).a.toNat, rest) ∧
      Base128.decode 0 rest = some ((unpackIntPair data).b.toNat, (unpackIntPair data).data)) ∧
    (∃ consumed, data = consumed ++ (unpackIntPair data).data ∧ 2 ≤ consumed.length)
  of_failure : (unpackIntPair data).success = false →
    (unpackIntPair data).a = 0 ∧ (unpackIntPair data).b = 0 ∧ (unpackIntPair data).data = data

theorem shiftGroup_ofNat (acc : Nat) (c : UInt8) :
    ((UInt32.ofNat acc) <<< 7) ||| (c &&& 0x7f).toUInt32 =
      UInt32.ofNat (acc * 128 + c.toNat % 128) := by
  have hlow : ((c &&& 0x7f).toUInt32).toNat = c.toNat % 128 := by
    rw [UInt8.toNat_toUInt32, UInt8.toNat_and]
    exact Nat.and_two_pow_sub_one_eq_mod _ 7
  have hhigh : ((UInt32.ofNat acc) <<< 7).toNat = 2 ^ 7 * (acc % 2 ^ 25) := by
    rw [UInt32.toNat_shiftLeft, UInt32.toNat_ofNat', Nat.shiftLeft_eq]
    have : (7 : UInt32).toNat % 32 = 7 := rfl
    rw [this]
    omega
  apply UInt32.toNat_inj.mp
  rw [UInt32.toNat_or, hhigh, hlow, UInt32.toNat_ofNat',
    ← Nat.two_pow_add_eq_or_of_lt (by omega : c.toNat % 128 < 2 ^ 7)]
  omega

/-- The 32-bit loop reads a number to its end unless it sees the sign bit. -/
theorem unpackInt_eq (acc : Nat) {i limit : Nat} (hlimit : i + limit = 5) (bytes : List UInt8) :
    unpackInt (UInt32.ofNat acc) i bytes =
      if ∀ n ∈ continued acc bytes, SignClear n then
        (Base128.read acc limit bytes).2.map fun rest =>
          (UInt32.ofNat (Base128.read acc limit bytes).1, rest)
      else none := by
  induction bytes generalizing acc i limit with
  | nil => exact (if_pos (by simp [continued])).symm
  | cons c bytes ih =>
      rw [unpackInt, continued]
      simp only [shiftGroup_ofNat]
      by_cases hlast : c.toNat < 128
      · rw [if_pos ((isLastGroup_iff c).mpr hlast), if_pos hlast, if_pos (by simp),
          Base128.read_last hlast]
        rfl
      · rw [if_neg (mt (isLastGroup_iff c).mp hlast), if_neg hlast, UInt32.toNat_ofNat']
        cases limit with
        | zero =>
            rw [if_pos (.inr (by omega)), Base128.read_cut hlast, Option.map_none, ite_self]
        | succ limit =>
            rw [Base128.read_more hlast]
            have hnext : i + 1 + limit = 5 := by omega
            by_cases hclear : SignClear (acc * 128 + c.toNat % 128)
            · rw [if_neg (by unfold SignClear at hclear; omega), ih _ hnext]
              simp only [List.forall_mem_cons, hclear, true_and]
            · rw [if_pos (.inl (by unfold SignClear at hclear; omega)), if_neg]
              intro hall
              exact hclear (hall _ List.mem_cons_self)

theorem unpackIntPair_eq (data : List UInt8) : unpackIntPair data =
    match Base128.read 0 5 data with
    | (_, none) => ⟨false, 0, 0, data⟩
    | (a, some rest) =>
        match Base128.read 0 5 rest with
        | (_, none) => ⟨false, 0, 0, data⟩
        | (b, some rest') =>
            if (∀ n ∈ continued 0 data, SignClear n) ∧ ∀ n ∈ continued 0 rest, SignClear n then
              ⟨true, Int.bmod (UInt32.ofNat a).toNat (2 ^ 32), Int.bmod (UInt32.ofNat b).toNat (2 ^ 32),
                rest'⟩
            else ⟨false, 0, 0, data⟩ := by
  have hlimit : 0 + 5 = 5 := rfl
  have hzero : ∀ bytes : List UInt8, unpackInt 0 0 bytes = _ := unpackInt_eq 0 hlimit
  rw [unpackIntPair, hzero]
  rcases Base128.read 0 5 data with ⟨a, _ | rest⟩
  · simp only [Option.map_none, ite_self]
  · simp only [Option.map_some]
    by_cases hfirst : ∀ n ∈ continued 0 data, SignClear n
    · rw [if_pos hfirst]
      simp only [hzero]
      rcases Base128.read 0 5 rest with ⟨b, _ | rest'⟩
      · simp only [Option.map_none, ite_self]
      · simp only [Option.map_some]
        by_cases hsecond : ∀ n ∈ continued 0 rest, SignClear n
        · rw [if_pos hsecond, if_pos ⟨hfirst, hsecond⟩]
        · rw [if_neg hsecond, if_neg (fun h => hsecond h.2)]
    · rw [if_neg hfirst]
      rcases Base128.read 0 5 rest with ⟨b, _ | rest'⟩
      · rfl
      · exact (if_neg (fun h => hfirst h.1)).symm

/-- The word as an `int` is the number exactly if the number fits. -/
theorem bmod_word_iff (n : Nat) :
    ((0 ≤ Int.bmod (UInt32.ofNat n).toNat (2 ^ 32) ∧
        Int.bmod (UInt32.ofNat n).toNat (2 ^ 32) < 2 ^ 31) ∧
      n = (Int.bmod (UInt32.ofNat n).toNat (2 ^ 32)).toNat) ↔ n < 2 ^ 31 := by
  constructor
  · omega
  · intro h
    have hfits : Int.bmod (UInt32.ofNat n).toNat (2 ^ 32) = n := by
      rw [UInt32.toNat_ofNat', Nat.mod_eq_of_lt (by omega)]
      exact Int.bmod_eq_of_le (by omega) (by omega)
    rw [hfits]
    omega

/-- `unpackIntPair` decodes what it should but for the numbers whose overflow it misses. -/
theorem decodesSoundly_iff (data : List UInt8) :
    DecodesSoundly data ↔ ¬OverflowsUnnoticed data := by
  have hpair := unpackIntPair_eq data
  rw [OverflowsUnnoticed]
  rcases hread : Base128.read 0 5 data with ⟨a, _ | rest⟩
  · simp only [hread] at hpair
    refine iff_of_true ⟨fun h => ?_, fun _ => ?_⟩ not_false
    · rw [hpair] at h
      cases h
    · rw [hpair]
      exact ⟨rfl, rfl, rfl⟩
  · simp only [hread] at hpair ⊢
    rcases hread' : Base128.read 0 5 rest with ⟨b, _ | rest'⟩
    · simp only [hread'] at hpair
      refine iff_of_true ⟨fun h => ?_, fun _ => ?_⟩ not_false
      · rw [hpair] at h
        cases h
      · rw [hpair]
        exact ⟨rfl, rfl, rfl⟩
    · simp only [hread'] at hpair ⊢
      by_cases hclear : (∀ n ∈ continued 0 data, SignClear n) ∧ ∀ n ∈ continued 0 rest, SignClear n
      · rw [if_pos hclear] at hpair
        have hdecode := Base128.decode_of_read hread
        have hdecode' := Base128.decode_of_read hread'
        rw [and_iff_left hclear, not_or, Nat.not_le, Nat.not_le]
        constructor
        · intro h
          obtain ⟨ha, hb, ⟨rest'', hfirst, hsecond⟩, -⟩ := h.of_success (by rw [hpair])
          simp only [hpair] at ha hb hfirst hsecond
          rw [hdecode, Option.some.injEq, Prod.mk.injEq] at hfirst
          obtain ⟨hfirst, rfl⟩ := hfirst
          rw [hdecode', Option.some.injEq, Prod.mk.injEq] at hsecond
          exact ⟨(bmod_word_iff a).mp ⟨ha, hfirst⟩, (bmod_word_iff b).mp ⟨hb, hsecond.1⟩⟩
        · rintro ⟨ha, hb⟩
          obtain ⟨ha, hfirst⟩ := (bmod_word_iff a).mpr ha
          obtain ⟨hb, hsecond⟩ := (bmod_word_iff b).mpr hb
          obtain ⟨groups, hgroups, hfront⟩ := Base128.exists_append_of_decode hdecode
          obtain ⟨groups', hgroups', hback⟩ := Base128.exists_append_of_decode hdecode'
          have hconsumed : 2 ≤ (groups ++ groups').length := by
            have hpos := List.length_pos_iff.mpr hgroups
            have hpos' := List.length_pos_iff.mpr hgroups'
            rw [List.length_append]
            omega
          refine ⟨fun _ => ?_, fun h => ?_⟩
          · simp only [hpair]
            refine ⟨ha, hb, ⟨rest, ?_, ?_⟩, groups ++ groups', ?_, hconsumed⟩
            · rw [hdecode, ← hfirst]
            · rw [hdecode', ← hsecond]
            · rw [hfront, hback, List.append_assoc]
          · rw [hpair] at h
            cases h
      · rw [if_neg hclear] at hpair
        refine iff_of_true ⟨fun h => ?_, fun _ => ?_⟩ (fun h => hclear h.2)
        · rw [hpair] at h
          cases h
        · rw [hpair]
          exact ⟨rfl, rfl, rfl⟩

/-- The first number is `2 ^ 31`, and comes back as the least `int`. -/
theorem not_decodesSoundly_signBit :
    unpackIntPair [0x88, 0x80, 0x80, 0x80, 0x00, 0x00] = ⟨true, -2 ^ 31, 0, []⟩ ∧
      ¬DecodesSoundly [0x88, 0x80, 0x80, 0x80, 0x00, 0x00] := by
  have hpair : unpackIntPair [0x88, 0x80, 0x80, 0x80, 0x00, 0x00] = ⟨true, -2 ^ 31, 0, []⟩ := by
    decide +kernel
  refine ⟨hpair, fun h => ?_⟩
  have hsign := (h.of_success (by rw [hpair])).1.1
  rw [hpair] at hsign
  exact absurd hsign (by decide)

end Decode

end IceTunnel.Packet
