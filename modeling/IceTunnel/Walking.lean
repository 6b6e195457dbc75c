import IceTunnel.Accounting

/-!
What a Confirmation packet can do to the code that walks it, whoever sent it: the
arithmetic of `unpackIntPair` and of the walk in `udpRead`, done in `int`.
-/

namespace IceTunnel

/-- The value of an expression of type `int`, unless it overflows. -/
def int32 (n : Int) : Option Int :=
  if -2 ^ 31 ≤ n ∧ n < 2 ^ 31 then some n else none

namespace Packet

/-- One of the two loops of `unpackIntPair`: `none` is an overflow, `some none` the
result `false`. -/
def unpackIntChecked (a : Int) (i : Nat) : List UInt8 → Option (Option (Int × List UInt8))
  | [] => some none
  | c :: rest =>
      (int32 (a * 2 ^ 7)).bind fun shifted =>
        -- The shift has made room for the group, so `|` adds it.
        let a := shifted + (c &&& 0x7f).toNat
        if c &&& 0x80 = 0 then some (some (a, rest))
        else if a < 0 ∨ i ≥ 5 then some none
        else unpackIntChecked a (i + 1) rest

/-- `unpackIntPair`, unless it overflows. -/
def unpackIntPairChecked (data : List UInt8) : Option Unpacked :=
  (unpackIntChecked 0 0 data).bind fun
    | none => some ⟨false, 0, 0, data⟩
    | some (a, rest) =>
        (unpackIntChecked 0 0 rest).bind fun
          | none => some ⟨false, 0, 0, data⟩
          | some (b, rest') => some ⟨true, a, b, rest'⟩

/-- The walk of `udpRead`, unless it overflows. -/
def rangesFromChecked : Nat → Int → List UInt8 → Option (List (Int × Int))
  | 0, _, _ => some []
  | fuel + 1, currentIndex, data =>
      (unpackIntPairChecked data).bind fun pair =>
        if pair.success then
          (int32 (pair.a + pair.b)).bind fun sum =>
            (int32 (currentIndex + sum)).bind fun currentIndex =>
              (int32 (currentIndex - pair.b)).bind fun first =>
                (rangesFromChecked fuel currentIndex pair.data).map ((first, currentIndex) :: ·)
        else some []

def confirmedRangesChecked (p : Packet) : Option (List (Int × Int)) :=
  rangesFromChecked p.getData.length p.getIndex p.getData

/-- The numbers that a payload spells, in groups of seven bits and six groups at most,
and the pairs of them that are complete. -/
structure Spelled where
  numbers : List Nat
  pairs : List (Nat × Nat)

def spell : Nat → List UInt8 → Spelled
  | 0, _ => ⟨[], []⟩
  | fuel + 1, data =>
      match Base128.read 0 5 data with
      | (a, none) => ⟨[a], []⟩
      | (a, some rest) =>
          match Base128.read 0 5 rest with
          | (b, none) => ⟨[a, b], []⟩
          | (b, some rest') =>
              let spelled := spell fuel rest'
              ⟨a :: b :: spelled.numbers, (a, b) :: spelled.pairs⟩

def spelled (p : Packet) : Spelled :=
  spell p.getData.length p.getData

/-- How far the pairs take the walk. -/
def Spelled.distance (s : Spelled) : Nat :=
  (s.pairs.map fun pair => pair.1 + pair.2).sum

/-- How many indices the pairs name. -/
def Spelled.covered (s : Spelled) : Nat :=
  (s.pairs.map Prod.snd).sum

section Unpack

variable {data : List UInt8}

theorem int32_of_lt {n : Int} (hlow : -2 ^ 31 ≤ n) (hhigh : n < 2 ^ 31) : int32 n = some n :=
  if_pos ⟨hlow, hhigh⟩

theorem eq_of_int32 {n m : Int} (h : int32 n = some m) : m = n :=
  (Option.some.inj (Option.ite_none_right_eq_some.mp h).2).symm

theorem wrap32_of_int32 {n m : Int} (h : int32 n = some m) : wrap32 n = m := by
  have hbounds := (Option.ite_none_right_eq_some.mp h).1
  rw [eq_of_int32 h, wrap32_of_lt hbounds.1 hbounds.2]

theorem int32_of_ge {n : Int} (h : 2 ^ 31 ≤ n) : int32 n = none :=
  if_neg (by omega)

theorem unpackIntChecked_eq {bytes : List UInt8} {a i limit : Nat} (hlimit : i + limit = 5)
    (ha : a < 2 ^ 31) : unpackIntChecked a i bytes =
      if (Base128.read a limit bytes).1 < 2 ^ 31 then
        some ((Base128.read a limit bytes).2.map fun rest =>
          (((Base128.read a limit bytes).1 : Int), rest))
      else none := by
  induction bytes generalizing a i limit with
  | nil => exact (if_pos ha).symm
  | cons c bytes ih =>
      have hlow : (c &&& 0x7f).toNat = c.toNat % 128 := by
        rw [UInt8.toNat_and]
        exact Nat.and_two_pow_sub_one_eq_mod _ 7
      have hgroup := Base128.le_read_cons a limit c bytes
      rw [unpackIntChecked]
      by_cases hfits : a * 128 < 2 ^ 31
      · have hshift : int32 ((a : Int) * 2 ^ 7) = some ((a : Int) * 2 ^ 7) :=
          int32_of_lt (by omega) (by omega)
        have hnext : (a : Int) * 2 ^ 7 + ((c.toNat % 128 : Nat) : Int) =
            ((a * 128 + c.toNat % 128 : Nat) : Int) := by
          omega
        have hsmall : a * 128 + c.toNat % 128 < 2 ^ 31 := by omega
        rw [hshift, Option.bind_some, hlow, hnext]
        by_cases hlast : c.toNat < 128
        · rw [if_pos ((isLastGroup_iff c).mpr hlast), Base128.read_last hlast, if_pos hsmall]
          rfl
        · rw [if_neg (mt (isLastGroup_iff c).mp hlast)]
          cases limit with
          | zero =>
              rw [if_pos (.inr (by omega)), Base128.read_cut hlast, if_pos hsmall]
              rfl
          | succ limit =>
              rw [if_neg (by omega), Base128.read_more hlast]
              exact ih (by omega) hsmall
      · rw [int32_of_ge (by omega), Option.bind_none, if_neg (by omega)]

theorem bmod_ofNat_of_lt {n : Nat} (h : n < 2 ^ 31) :
    Int.bmod (UInt32.ofNat n).toNat (2 ^ 32) = n := by
  rw [UInt32.toNat_ofNat', Nat.mod_eq_of_lt (by omega)]
  exact Int.bmod_eq_of_le (by omega) (by omega)

theorem unpackIntChecked_zero (bytes : List UInt8) : unpackIntChecked 0 0 bytes =
    if (Base128.read 0 5 bytes).1 < 2 ^ 31 then
      some ((Base128.read 0 5 bytes).2.map fun rest => (((Base128.read 0 5 bytes).1 : Int), rest))
    else none :=
  unpackIntChecked_eq (a := 0) rfl (by decide)

theorem unpackInt_zero {bytes : List UInt8} (h : (Base128.read 0 5 bytes).1 < 2 ^ 31) :
    unpackInt 0 0 bytes = (Base128.read 0 5 bytes).2.map fun rest =>
      (UInt32.ofNat (Base128.read 0 5 bytes).1, rest) :=
  unpackInt_of_read (a := 0) rfl h

theorem unpackIntPairChecked_eq : unpackIntPairChecked data =
    match Base128.read 0 5 data with
    | (a, none) => if a < 2 ^ 31 then some ⟨false, 0, 0, data⟩ else none
    | (a, some rest) =>
        if a < 2 ^ 31 then
          match Base128.read 0 5 rest with
          | (b, none) => if b < 2 ^ 31 then some ⟨false, 0, 0, data⟩ else none
          | (b, some rest') => if b < 2 ^ 31 then some ⟨true, a, b, rest'⟩ else none
        else none := by
  have hfirst := unpackIntChecked_zero data
  rw [unpackIntPairChecked]
  rcases hread : Base128.read 0 5 data with ⟨a, _ | rest⟩
  · simp only [hread, Option.map_none] at hfirst
    rw [hfirst]
    by_cases ha : a < 2 ^ 31
    · simp only [if_pos ha, Option.bind_some]
    · simp only [if_neg ha, Option.bind_none]
  · simp only [hread, Option.map_some] at hfirst
    rw [hfirst]
    by_cases ha : a < 2 ^ 31
    · have hsecond := unpackIntChecked_zero rest
      simp only [if_pos ha, Option.bind_some]
      rcases hread' : Base128.read 0 5 rest with ⟨b, _ | rest'⟩
      · simp only [hread', Option.map_none] at hsecond
        rw [hsecond]
        by_cases hb : b < 2 ^ 31
        · simp only [if_pos hb, Option.bind_some]
        · simp only [if_neg hb, Option.bind_none]
      · simp only [hread', Option.map_some] at hsecond
        rw [hsecond]
        by_cases hb : b < 2 ^ 31
        · simp only [if_pos hb, Option.bind_some]
        · simp only [if_neg hb, Option.bind_none]
    · simp only [if_neg ha, Option.bind_none]

/-- Without overflow the code decodes what its 32-bit model does. -/
theorem unpackIntPair_of_checked {pair : Unpacked} (h : unpackIntPairChecked data = some pair) :
    unpackIntPair data = pair := by
  rw [unpackIntPairChecked_eq] at h
  rw [unpackIntPair]
  rcases hread : Base128.read 0 5 data with ⟨a, _ | rest⟩
  · simp only [hread, Option.ite_none_right_eq_some, Option.some.injEq] at h
    rw [unpackInt_zero (by rw [hread]; exact h.1), hread]
    exact h.2
  · simp only [hread, Option.ite_none_right_eq_some] at h
    obtain ⟨ha, h⟩ := h
    rw [unpackInt_zero (by rw [hread]; exact ha), hread]
    simp only [Option.map_some]
    rcases hread' : Base128.read 0 5 rest with ⟨b, _ | rest'⟩
    · simp only [hread', Option.ite_none_right_eq_some, Option.some.injEq] at h
      rw [unpackInt_zero (by rw [hread']; exact h.1), hread']
      exact h.2
    · simp only [hread', Option.ite_none_right_eq_some, Option.some.injEq] at h
      rw [unpackInt_zero (by rw [hread']; exact h.1), hread']
      simp only [Option.map_some, bmod_ofNat_of_lt ha, bmod_ofNat_of_lt h.1]
      exact h.2

end Unpack

section Walk

variable {currentIndex : Int}

theorem turn_isSome_iff {a b : Nat} {rest : Int → Option (List (Int × Int))}
    (hlow : -2 ^ 31 ≤ currentIndex) :
    ((int32 ((a : Int) + b)).bind fun sum => (int32 (currentIndex + sum)).bind fun currentIndex =>
        (int32 (currentIndex - b)).bind fun first =>
          (rest currentIndex).map ((first, currentIndex) :: ·)).isSome = true ↔
      a + b < 2 ^ 31 ∧ currentIndex + (a + b : Nat) < 2 ^ 31 ∧
        (rest (currentIndex + (a + b : Nat))).isSome = true := by
  by_cases hsum : a + b < 2 ^ 31
  · have hadd : int32 ((a : Int) + b) = some ((a + b : Nat) : Int) := int32_of_lt (by omega) (by omega)
    rw [hadd, Option.bind_some]
    by_cases hnext : currentIndex + (a + b : Nat) < 2 ^ 31
    · rw [int32_of_lt (by omega) hnext, Option.bind_some, int32_of_lt (by omega) (by omega),
        Option.bind_some, Option.isSome_map]
      simp only [hsum, hnext, true_and]
    · rw [int32_of_ge (by omega), Option.bind_none]
      simp only [hnext, false_and, and_false, Option.isSome_none, Bool.false_eq_true]
  · rw [int32_of_ge (by omega), Option.bind_none]
    simp only [hsum, false_and, Option.isSome_none, Bool.false_eq_true]

/-- The walk overflows when a number is too large, or a pair, or the way they go
together. -/
theorem rangesFromChecked_isSome_iff (fuel : Nat) (data : List UInt8)
    (hlow : -2 ^ 31 ≤ currentIndex) (hhigh : currentIndex < 2 ^ 31) :
    (rangesFromChecked fuel currentIndex data).isSome = true ↔
      (∀ n ∈ (spell fuel data).numbers, n < 2 ^ 31) ∧
        (∀ pair ∈ (spell fuel data).pairs, pair.1 + pair.2 < 2 ^ 31) ∧
        currentIndex + (spell fuel data).distance < 2 ^ 31 := by
  induction fuel generalizing currentIndex data with
  | zero =>
      simp only [rangesFromChecked, spell, Spelled.distance, List.map_nil, List.sum_nil]
      simpa using hhigh
  | succ fuel ih =>
      rw [rangesFromChecked, unpackIntPairChecked_eq, spell]
      rcases Base128.read 0 5 data with ⟨a, _ | rest⟩
      · simp only [Spelled.distance, List.map_nil, List.sum_nil, List.mem_singleton, forall_eq,
          List.not_mem_nil, false_implies, implies_true, true_and]
        by_cases ha : a < 2 ^ 31
        · simp only [if_pos ha, Option.bind_some, Bool.false_eq_true, if_false, Option.isSome_some,
            true_iff]
          exact ⟨ha, by simpa using hhigh⟩
        · simp only [if_neg ha, Option.bind_none, Option.isSome_none, Bool.false_eq_true, false_iff]
          exact fun h => ha h.1
      · simp only
        rcases Base128.read 0 5 rest with ⟨b, _ | rest'⟩
        · simp only [Spelled.distance, List.map_nil, List.sum_nil, List.mem_cons, List.not_mem_nil,
            or_false, forall_eq_or_imp, forall_eq, false_implies, implies_true, true_and]
          by_cases hboth : a < 2 ^ 31 ∧ b < 2 ^ 31
          · simp only [if_pos hboth.1, if_pos hboth.2, Option.bind_some, Bool.false_eq_true, if_false,
              Option.isSome_some, true_iff]
            exact ⟨hboth, by simpa using hhigh⟩
          · rw [← ite_and, if_neg hboth]
            simp only [Option.bind_none, Option.isSome_none, Bool.false_eq_true, false_iff]
            exact fun h => hboth h.1
        · simp only
          have hdistance : (Spelled.mk (a :: b :: (spell fuel rest').numbers)
              ((a, b) :: (spell fuel rest').pairs)).distance =
                a + b + (spell fuel rest').distance := by
            simp only [Spelled.distance, List.map_cons, List.sum_cons]
          rw [hdistance]
          simp only [List.mem_cons, forall_eq_or_imp]
          by_cases hboth : a < 2 ^ 31 ∧ b < 2 ^ 31
          · rw [if_pos hboth.1, if_pos hboth.2, Option.bind_some, if_pos rfl, turn_isSome_iff hlow]
            constructor
            · rintro ⟨hsum, hnext, hrest⟩
              obtain ⟨hnumbers, hpairs, hlast⟩ := (ih rest' (by omega) hnext).mp hrest
              exact ⟨⟨hboth.1, hboth.2, hnumbers⟩, ⟨hsum, hpairs⟩, by omega⟩
            · rintro ⟨⟨-, -, hnumbers⟩, ⟨hsum, hpairs⟩, hlast⟩
              have hnext : currentIndex + (a + b : Nat) < 2 ^ 31 := by omega
              exact ⟨hsum, hnext, (ih rest' (by omega) hnext).mpr ⟨hnumbers, hpairs, by omega⟩⟩
          · rw [← ite_and, if_neg hboth]
            simp only [Option.bind_none, Option.isSome_none, Bool.false_eq_true, false_iff]
            exact fun h => hboth ⟨h.1.1, h.1.2.1⟩

theorem rangesFrom_of_checked {fuel : Nat} {data : List UInt8} {ranges : List (Int × Int)}
    (h : rangesFromChecked fuel currentIndex data = some ranges) :
    rangesFrom fuel currentIndex data = ranges ∧ ranges.length = (spell fuel data).pairs.length ∧
      (ranges.flatMap Connection.indicesOf).length = (spell fuel data).covered := by
  induction fuel generalizing currentIndex data ranges with
  | zero =>
      obtain rfl := Option.some.inj h
      exact ⟨rfl, rfl, rfl⟩
  | succ fuel ih =>
      rw [rangesFromChecked, Option.bind_eq_some_iff] at h
      obtain ⟨pair, hpair, h⟩ := h
      rw [rangesFrom, unpackIntPair_of_checked hpair]
      rw [unpackIntPairChecked_eq] at hpair
      rw [spell]
      rcases hread : Base128.read 0 5 data with ⟨a, _ | rest⟩
      · simp only [hread, Option.ite_none_right_eq_some, Option.some.injEq] at hpair
        obtain ⟨-, rfl⟩ := hpair
        obtain rfl := Option.some.inj h
        exact ⟨rfl, rfl, rfl⟩
      · simp only [hread, Option.ite_none_right_eq_some] at hpair
        obtain ⟨-, hpair⟩ := hpair
        simp only
        rcases hread' : Base128.read 0 5 rest with ⟨b, _ | rest'⟩
        · simp only [hread', Option.ite_none_right_eq_some, Option.some.injEq] at hpair
          obtain ⟨-, rfl⟩ := hpair
          obtain rfl := Option.some.inj h
          exact ⟨rfl, rfl, rfl⟩
        · simp only [hread', Option.ite_none_right_eq_some, Option.some.injEq] at hpair
          obtain ⟨-, rfl⟩ := hpair
          simp only [if_true, Option.bind_eq_some_iff, Option.map_eq_some_iff] at h ⊢
          obtain ⟨sum, hsum, next, hnext, first, hfirst, tail, htail, rfl⟩ := h
          rw [wrap32_of_int32 hsum, wrap32_of_int32 hnext, wrap32_of_int32 hfirst]
          obtain ⟨hranges, hlength, hcovered⟩ := ih htail
          refine ⟨by rw [hranges], by simp only [List.length_cons, hlength], ?_⟩
          have hwidth : next - first = b := by rw [eq_of_int32 hfirst]; omega
          simp only [List.flatMap_cons, List.length_append, hcovered, Connection.indicesOf,
            List.length_map, List.length_range, hwidth, Int.toNat_natCast, Spelled.covered,
            List.map_cons, List.sum_cons]

/-- The packet spells numbers and pairs that fit, its walk ends where an `int` can, and
it names no more indices than the connection has made and the payload has bytes. -/
structure Modest (p : Packet) (udpNextSendIndex : Int) : Prop where
  numbers_lt : ∀ n ∈ p.spelled.numbers, n < 2 ^ 31
  pairs_lt : ∀ pair ∈ p.spelled.pairs, pair.1 + pair.2 < 2 ^ 31
  end_lt : p.getIndex + p.spelled.distance < 2 ^ 31
  covered_le : (p.spelled.covered + p.spelled.pairs.length : Nat) ≤ udpNextSendIndex + p.getSize

/-- The bytes take the walk from `masterIndex` to `prevIndex` without overflow. -/
def Walkable (masterIndex : Int) (written : List UInt8) (prevIndex : Int) : Prop :=
  ∃ n ≤ written.length, ∀ fuel rest, (rangesFromChecked fuel prevIndex rest).isSome = true →
    (rangesFromChecked (n + fuel) masterIndex (written ++ rest)).isSome = true

theorem walkable_nil (masterIndex : Int) : Walkable masterIndex [] masterIndex :=
  ⟨0, le_refl _, fun fuel _ h => by rwa [Nat.zero_add]⟩

theorem Walkable.isSome {masterIndex prevIndex : Int} {written : List UInt8}
    (h : Walkable masterIndex written prevIndex) :
    (rangesFromChecked written.length masterIndex written).isSome = true := by
  obtain ⟨n, hle, hwalk⟩ := h
  have hend : (rangesFromChecked (written.length - n) prevIndex []).isSome = true := by
    cases written.length - n with
    | zero => rfl
    | succ fuel => rfl
  have hall := hwalk _ _ hend
  rwa [Nat.add_sub_cancel' hle, List.append_nil] at hall

theorem unpackIntPairChecked_packIntPair {a b : Int} {buffer buffer' : PackBuffer}
    (ha : a < 2 ^ 31) (hb : b < 2 ^ 31) (h : packIntPair a b buffer = some buffer') :
    0 ≤ a ∧ ∃ bytes, bytes ≠ [] ∧ buffer'.written = buffer.written ++ bytes ∧
      ∀ rest, unpackIntPairChecked (bytes ++ rest) = some ⟨true, a, b, rest⟩ := by
  unfold packIntPair at h
  rw [Option.ite_none_left_eq_some] at h
  obtain ⟨hsign, h⟩ := h
  simp only [Option.ite_none_left_eq_some, Option.some.injEq] at h
  obtain ⟨-, rfl⟩ := h
  refine ⟨by omega,
    packGroups a.toNat (groupCount a.toNat) ++ packGroups b.toNat (groupCount b.toNat), ?_,
    List.append_assoc _ _ _, fun rest => ?_⟩
  · have hpos := groupCount_pos a.toNat
    refine List.append_ne_nil_of_left_ne_nil (List.ne_nil_of_length_pos ?_) _
    rwa [packGroups_eq_encode, Base128.encode_length]
  · rw [unpackIntPairChecked_eq, List.append_assoc, read_packGroups (by omega)]
    simp only [read_packGroups (show b.toNat < 2 ^ 31 by omega)]
    rw [if_pos (by omega), if_pos (by omega), Int.toNat_of_nonneg (by omega),
      Int.toNat_of_nonneg (by omega)]

theorem Walkable.packIntPair {masterIndex prevIndex first last : Int} {buffer buffer' : PackBuffer}
    (h : Walkable masterIndex buffer.written prevIndex) (hprev : 0 ≤ prevIndex) (hfirst : 0 ≤ first)
    (horder : first ≤ last) (hlast : last < 2 ^ 31)
    (hpack : packIntPair (first - prevIndex) (last - first) buffer = some buffer') :
    Walkable masterIndex buffer'.written last := by
  obtain ⟨hstart, bytes, hbytes, hwritten, hunpack⟩ :=
    unpackIntPairChecked_packIntPair (by omega) (by omega) hpack
  obtain ⟨n, hle, hwalk⟩ := h
  have hlength := List.length_pos_of_ne_nil hbytes
  rw [hwritten]
  refine ⟨n + 1, by rw [List.length_append]; omega, fun fuel rest hrest => ?_⟩
  rw [List.append_assoc, Nat.add_assoc, Nat.add_comm 1 fuel]
  apply hwalk
  have hsum : int32 (first - prevIndex + (last - first)) = some (last - prevIndex) := by
    rw [int32_of_lt (by omega) (by omega)]
    congr 1
    omega
  have hend : int32 (prevIndex + (last - prevIndex)) = some last := by
    rw [int32_of_lt (by omega) (by omega), add_sub_cancel]
  have hbegin : int32 (last - (last - first)) = some first := by
    rw [int32_of_lt (by omega) (by omega), sub_sub_cancel]
  simp only [rangesFromChecked, hunpack, Option.bind_some, if_true, hsum, hend, hbegin,
    Option.isSome_map]
  exact hrest

theorem isSome_of_mem_packRuns {masterIndex size prevIndex : Int} {buffer : PackBuffer}
    {runs : List (Int × Int)} (h : Walkable masterIndex buffer.written prevIndex)
    (hmaster : 0 ≤ masterIndex) (hprev : 0 ≤ prevIndex)
    (hruns : ∀ run ∈ runs, masterIndex ≤ run.1 ∧ run.1 ≤ run.2 ∧ run.2 < 2 ^ 31)
    {payload : List UInt8} (hpayload : payload ∈ packRuns masterIndex size prevIndex buffer runs) :
    (rangesFromChecked payload.length masterIndex payload).isSome = true := by
  induction runs generalizing prevIndex buffer with
  | nil =>
      rw [packRuns, List.mem_singleton] at hpayload
      rw [hpayload]
      exact h.isSome
  | cons run runs ih =>
      obtain ⟨first, last⟩ := run
      obtain ⟨⟨hfirst, horder, hlast⟩, hrest⟩ := List.forall_mem_cons.mp hruns
      rw [packRuns] at hpayload
      cases hpack : packIntPair (first - prevIndex) (last - first) buffer with
      | some buffer' =>
          rw [hpack] at hpayload
          exact ih (h.packIntPair hprev (by omega) horder hlast hpack) (by omega) hrest hpayload
      | none =>
          simp only [hpack, List.mem_cons] at hpayload
          rcases hpayload with rfl | hpayload
          · exact h.isSome
          · cases hfresh : packIntPair (first - masterIndex) (last - first) ⟨[], size⟩ with
            | some buffer' =>
                simp only [hfresh] at hpayload
                exact ih ((walkable_nil masterIndex).packIntPair hmaster (by omega) horder hlast
                  hfresh) (by omega) hrest hpayload
            | none =>
                simp only [hfresh, List.mem_singleton] at hpayload
                rw [hpayload]
                rfl

theorem getIndex_bounds (p : Packet) : -2 ^ 31 ≤ p.getIndex ∧ p.getIndex < 2 ^ 31 := by
  have hlow := Int.le_bmod (x := (wordOfBytes (p.getBytes 5 4) : Int)) (m := 2 ^ 32) (by decide)
  have hhigh := Int.bmod_lt (x := (wordOfBytes (p.getBytes 5 4) : Int)) (m := 2 ^ 32) (by decide)
  unfold getIndex
  constructor
  · omega
  · omega

/-- The turns of the two loops that walk the ranges. -/
def turns (p : Packet) : Nat :=
  p.confirmedRanges.length + (p.confirmedRanges.flatMap Connection.indicesOf).length

end Walk

end Packet

theorem Session.confirmation_isSome {s : Session} (h : s.toReceiver.WellFormed)
    {payload : List UInt8} (hpayload : payload ∈ s.confirmationPayloads) :
    (s.confirmation payload).wire.confirmedRangesChecked.isSome = true := by
  have hmaster := le_trans h.next_nonneg h.next_le
  have hmax := le_trans h.master_le h.final_le
  simp only [intMax] at hmax
  rw [Session.confirmation_wire, Packet.confirmedRangesChecked, Packet.datagram_getData,
    Packet.datagram_getIndex _ _ hmaster (by omega)]
  exact Packet.isSome_of_mem_packRuns (Packet.walkable_nil _) hmaster hmaster
    (Session.keyRuns_received_bounds h) hpayload

/-- All Confirmation packets built so far can be walked. -/
def Receiver.ConfirmsInInt (r : Receiver) : Prop :=
  ∀ p ∈ r.confirmations, p.confirmedRangesChecked.isSome = true

theorem Protocol.confirmsInInt_step {N : Packet → Prop} {e e' : Endpoint}
    (hr : e.toReceiver.WellFormed) (h : e.ConfirmsInInt) (hstep : Protocol.Step N e e') :
    e'.ConfirmsInInt := by
  have hsame : ∀ {r : Receiver}, r.confirmations = e.confirmations → r.ConfirmsInInt :=
    fun hr p hp => h p (hr ▸ hp)
  cases hstep with
  | skip packet fake => exact hsame (by simp)
  | skipClosing packet => exact hsame (by simp)
  | skipClosingUnused packet => exact hsame (by simp)
  | write packet size => exact hsame (by simp)
  | accept packet => exact hsame (by simp)
  | confirm payload hudp hpayload =>
      intro p hp
      simp only [Receiver.record_confirmations, List.mem_append, ReceiveAction.confirmation?,
        Option.toList_some, List.mem_singleton] at hp
      rcases hp with hp | rfl
      · exact h p hp
      · exact Session.confirmation_isSome hr hpayload
  | prune index => exact hsame (by simp)
  | acceptByeBye packet => exact hsame (by simp [ReceiveAction.confirmation?])
  | _ => exact h

namespace Connection

variable {c : Connection}

theorem confirmsInInt {config : Config} (h : Runs.Reachable (Initial config) step Runs.anyMove c) :
    c.ConfirmsInInt := by
  have hboth : c.toEndpoint.Sound ∧ c.toEndpoint.ConfirmsInInt := by
    refine h.invariant_of_refines (f := toEndpoint) (I := fun e => e.Sound ∧ e.ConfirmsInInt) ?_
      (fun _ _ _ _ _ hm => step_refines hm fun _ _ => trivial) fun x y hx hstep =>
        ⟨hx.1.step hstep, Protocol.confirmsInInt_step hx.1.receiving hx.2 hstep⟩
    rintro c hinitial
    refine ⟨sound_initial hinitial, ?_⟩
    obtain ⟨intervalUs, summaryUs, io, rfl⟩ := hinitial
    rw [new_toEndpoint]
    intro p hp
    simp [Endpoint.initial, Endpoint.blank, Receiver.confirmations] at hp
  exact hboth.2

theorem getElem?_foldl_confirmPacket (c : Connection) (indices : List Int) (index : Int) :
    (indices.foldl confirmPacket c).udpSentPackets[index]? =
      if index ∈ indices then none else c.udpSentPackets[index]? := by
  induction indices generalizing c with
  | nil => simp
  | cons first indices ih =>
      obtain ⟨count, hend⟩ := c.confirmPacket_toEndpoint first
      rw [List.foldl_cons, ih, hend]
      simp only [List.mem_cons, Std.ExtTreeMap.getElem?_erase, compare_eq_iff_eq]
      by_cases hindex : index ∈ indices
      · simp only [hindex, or_true, if_true]
      · by_cases hfirst : first = index
        · simp only [hfirst, true_or, if_true, hindex, if_false]
        · simp only [hindex, or_false, Ne.symm hfirst, hfirst, if_false]

theorem getElem?_udpReadConfirmation (c : Connection) (packet : Packet) (index : Int) :
    (c.udpReadConfirmation packet).udpSentPackets[index]? =
      if packet.Confirms index then none else c.udpSentPackets[index]? := by
  have hfold := c.getElem?_foldl_confirmPacket (c.confirmedIndices packet) index
  have hsame : (c.udpReadConfirmation packet).udpSentPackets =
      ((c.confirmedIndices packet).foldl confirmPacket c).udpSentPackets := by
    rw [udpReadConfirmation_eq]
    simp only
    split <;> split <;> rfl
  rw [hsame, hfold]
  by_cases hmem : index ∈ c.udpSentPackets
  · have hiff : index ∈ c.confirmedIndices packet ↔ packet.Confirms index := by
      simp only [confirmedIndices, List.mem_append, SortedKeys.mem_takeWhile_keys, hmem, and_true,
        List.mem_flatMap, mem_indicesOf, Packet.Confirms]
    simp only [hiff]
  · rw [Std.ExtTreeMap.getElem?_eq_none hmem, ite_self, ite_self]

/-- The Confirmation branch does what it should with the packet, and no more. -/
structure Harmless (c : Connection) (packet : Packet) (io : Io) : Prop where
  no_overflow : packet.confirmedRangesChecked.isSome = true
  turns_le : (packet.turns : Int) ≤ c.udpNextSendIndex + packet.getSize
  removed : ∀ index : Int,
    (({ c with io := io } : Connection).udpRead packet.wire).udpSentPackets[index]? =
      if packet.Confirms index then none else c.udpSentPackets[index]?
  accounted : c.Accounting → (({ c with io := io } : Connection).udpRead packet.wire).Accounting

theorem udpRead_removed (hudp : c.udpConnected = true) {packet : Packet}
    (htype : packet.getType = .confirmation) (index : Int) :
    (c.udpRead packet).udpSentPackets[index]? =
      if packet.Confirms index then none else c.udpSentPackets[index]? := by
  rw [← getElem?_udpReadConfirmation]
  simp only [udpRead, hudp, Bool.not_true, Bool.false_eq_true, if_false, htype, if_true]
  generalize hd : c.udpReadConfirmation packet = d
  rcases d.closeIfUdpFinished_eq with ⟨-, heq⟩ | ⟨hfinished, finished, heq⟩
  · rw [heq]
  · rw [heq]
    cases hopen : d.udpConnected with
    | false => simp only [udpClose, hopen, Bool.not_false, if_true]
    | true =>
        have hfinishable : d.Finishable := d.isUdpFinished_finishable hfinished hopen
        rw [udpClose_toEndpoint { d with finished := finished } hopen, hfinishable.sent_empty]

theorem udpRead_accounting (hsound : c.toEndpoint.Sound) (hbalanced : c.ledger.Balanced)
    (hudp : c.udpConnected = true) {packet : Packet} (htype : packet.getType = .confirmation)
    (hwire : packet.wire = packet) (h : c.Accounting) : (c.udpRead packet).Accounting := by
  have hsteps := c.udpRead_steps (N := fun _ => True) packet trivial hwire
  have hsoundD := hsound.steps hsteps
  have hentries : Ledger.Steps Ledger.anyReport c.ledger (c.udpRead packet).ledger :=
    c.udpRead_entries packet fun _ _ => confirmsMeet_of_forall _ (fun _ _ => trivial) _
  have hbalancedD := Runs.chain_invariant (I := Ledger.Balanced)
    (fun _ _ hl hstep => hl.step hstep) hentries hbalanced
  refine ⟨hsoundD.counting, hsoundD.sending.wellFormed.sent_unconfirmed, fun index p hp => ?_,
    hbalancedD.size_eq, hbalancedD.size_toInt, hbalancedD.closed⟩
  have hlt := (hsoundD.sending.wellFormed.lt_next hp).2
  rw [udpRead_removed hudp htype] at hp
  split at hp
  · cases hp
  · obtain ⟨hnonneg, -, hindex⟩ := h.numbered index p hp
    exact ⟨hnonneg, hlt, hindex⟩

variable {config : Config}

/-- A Confirmation packet is harmless exactly when it is modest. -/
theorem harmless_iff_modest (h : Runs.Reachable (Initial config) step Runs.anyMove c)
    (hudp : c.udpConnected = true) {packet : Packet} (htype : packet.getType = .confirmation)
    (io : Io) :
    c.Harmless packet io ↔ packet.Modest c.udpNextSendIndex := by
  obtain ⟨hlow, hhigh⟩ := packet.getIndex_bounds
  have hoverflow := Packet.rangesFromChecked_isSome_iff packet.getData.length packet.getData hlow hhigh
  have hturns : packet.confirmedRangesChecked.isSome = true →
      packet.turns = packet.spelled.covered + packet.spelled.pairs.length := by
    intro hsome
    obtain ⟨ranges, hranges⟩ := Option.isSome_iff_exists.mp hsome
    obtain ⟨heq, hlength, hcovered⟩ := Packet.rangesFrom_of_checked hranges
    rw [Packet.turns, Packet.confirmedRanges, heq, hlength, hcovered, Nat.add_comm]
    rfl
  constructor
  · intro hharmless
    obtain ⟨hnumbers, hpairs, hend⟩ := hoverflow.mp hharmless.no_overflow
    refine ⟨hnumbers, hpairs, hend, ?_⟩
    rw [← hturns hharmless.no_overflow]
    exact hharmless.turns_le
  · intro hmodest
    have hsome := hoverflow.mpr ⟨hmodest.numbers_lt, hmodest.pairs_lt, hmodest.end_lt⟩
    have hsound : c.toEndpoint.Sound := sound h
    have hbalanced : c.ledger.Balanced := balanced h
    have htypeWire : packet.wire.getType = .confirmation := htype
    refine ⟨hsome, ?_, udpRead_removed (c := { c with io := io }) hudp htypeWire, ?_⟩
    · rw [hturns hsome]
      exact hmodest.covered_le
    · rintro ⟨htoSend, hunconfirmed, hnumbered, hsize, htoInt, hclosed⟩
      exact udpRead_accounting (c := { c with io := io }) hsound hbalanced hudp htypeWire rfl
        ⟨htoSend, hunconfirmed, hnumbered, hsize, htoInt, hclosed⟩

/-- The Hello packet of a fresh connection is confirmed. -/
theorem harmless_iff_modest_fresh :
    (fresh Config.small).Harmless (.datagram .confirmation 1 []) (Io.steady 0) ↔
      (Packet.datagram .confirmation 1 []).Modest (fresh Config.small).udpNextSendIndex :=
  harmless_iff_modest (.start ⟨10, 0, Io.steady 0, rfl⟩) (by decide +kernel) (by decide +kernel)
    (Io.steady 0)

/-- Two numbers of 31 bits and one of a single bit. -/
def immodestPacket : Packet :=
  .datagram .confirmation 0 [0x87, 0xff, 0xff, 0xff, 0x7f, 0x01]

theorem not_harmless_immodestPacket :
    ∃ c, Runs.Reachable (Initial Config.small) step Runs.anyMove c ∧ c.udpConnected = true ∧
      immodestPacket.getType = .confirmation ∧ ¬c.Harmless immodestPacket (Io.steady 0) := by
  refine ⟨fresh Config.small, .start ⟨10, 0, Io.steady 0, rfl⟩, by decide +kernel, by decide +kernel,
    fun h => ?_⟩
  have hoverflow : immodestPacket.confirmedRangesChecked = none := by decide +kernel
  have hsome := h.no_overflow
  rw [hoverflow] at hsome
  cases hsome

end Connection

end IceTunnel
