import IceTunnel.IntPair

namespace IceTunnel.Packet

/-- The inner loop of `buildConfirmations`, inside the run `begin..end`. -/
def runsFrom (first last : Int) : List Int → List (Int × Int)
  | [] => [(first, last)]
  | key :: keys =>
      if key = last then runsFrom first (last + 1) keys
      else (first, last) :: runsFrom key (key + 1) keys

/-- The runs of consecutive keys, in order, as half-open intervals. -/
def keyRuns : List Int → List (Int × Int)
  | [] => []
  | key :: keys => runsFrom key (key + 1) keys

/-- The payloads of the packets that `buildConfirmations` pushes, in order.  A
run that does not fit goes to a fresh packet, with its distance counted from the
master index again. -/
def packRuns (masterIndex size : Int) (prevIndex : Int) (buffer : PackBuffer) :
    List (Int × Int) → List (List UInt8)
  | [] => [buffer.written]
  | (first, last) :: runs =>
      match packIntPair (first - prevIndex) (last - first) buffer with
      | some buffer' => packRuns masterIndex size last buffer' runs
      | none =>
          buffer.written ::
            match packIntPair (first - masterIndex) (last - first) ⟨[], size⟩ with
            | some buffer' => packRuns masterIndex size last buffer' runs
            -- "cannot encode confirmation"
            | none => [[]]

theorem packRuns_ne_nil (masterIndex size prevIndex : Int) (buffer : PackBuffer)
    (runs : List (Int × Int)) : packRuns masterIndex size prevIndex buffer runs ≠ [] := by
  induction runs generalizing prevIndex buffer with
  | nil => simp [packRuns]
  | cons run runs ih =>
      rw [packRuns]
      split
      · exact ih _ _
      · simp

/-- The ranges that `udpRead` walks: `while(unpackIntPair(a, b, data, size))`.  The sums are
those of an `int`. -/
def rangesFrom : Nat → Int → List UInt8 → List (Int × Int)
  | 0, _, _ => []
  | fuel + 1, currentIndex, data =>
      let pair := unpackIntPair data
      if pair.success then
        let currentIndex := wrap32 (currentIndex + wrap32 (pair.a + pair.b))
        (wrap32 (currentIndex - pair.b), currentIndex) :: rangesFrom fuel currentIndex pair.data
      else []

/-- Every turn of the loop consumes a byte, so the length of the payload is
enough fuel. -/
def confirmedRanges (p : Packet) : List (Int × Int) :=
  rangesFrom p.getData.length p.getIndex p.getData

/-- The bytes left when `unpackIntPair` fails. -/
def unconsumedFrom : Nat → List UInt8 → List UInt8
  | 0, data => data
  | fuel + 1, data =>
      let pair := unpackIntPair data
      if pair.success then unconsumedFrom fuel pair.data else data

/-- What `udpRead` warns about: `if (size)` after the loop. -/
def unconsumed (p : Packet) : List UInt8 :=
  unconsumedFrom p.getData.length p.getData

/-- The index is one that the Confirmation packet `p` makes `udpRead` remove. -/
def Confirms (p : Packet) (index : Int) : Prop :=
  index < p.getIndex ∨ ∃ range ∈ p.confirmedRanges, range.1 ≤ index ∧ index < range.2

instance (p : Packet) (index : Int) : Decidable (p.Confirms index) :=
  inferInstanceAs (Decidable (_ ∨ _))

theorem mem_runsFrom {first last : Int} (h : first < last) (keys : List Int) (index : Int) :
    (∃ run ∈ runsFrom first last keys, run.1 ≤ index ∧ index < run.2) ↔
      (first ≤ index ∧ index < last) ∨ index ∈ keys := by
  induction keys generalizing first last with
  | nil => simp [runsFrom]
  | cons key keys ih =>
      rw [runsFrom]
      split
      · rename_i hkey
        rw [ih (by omega), List.mem_cons]
        constructor
        · rintro (hindex | hindex)
          · omega
          · exact Or.inr (Or.inr hindex)
        · rintro (hindex | hindex | hindex)
          · omega
          · omega
          · exact Or.inr hindex
      · simp only [List.mem_cons, exists_eq_or_imp, ih (by omega : key < key + 1)]
        constructor
        · rintro (hindex | hindex | hindex)
          · exact Or.inl hindex
          · exact Or.inr (Or.inl (by omega))
          · exact Or.inr (Or.inr hindex)
        · rintro (hindex | hindex | hindex)
          · exact Or.inl hindex
          · exact Or.inr (Or.inl (by omega))
          · exact Or.inr (Or.inr hindex)

theorem mem_keyRuns (keys : List Int) (index : Int) :
    (∃ run ∈ keyRuns keys, run.1 ≤ index ∧ index < run.2) ↔ index ∈ keys := by
  cases keys with
  | nil => simp [keyRuns]
  | cons key keys =>
      rw [keyRuns, mem_runsFrom (by omega), List.mem_cons]
      constructor
      · rintro (h | h)
        · exact Or.inl (by omega)
        · exact Or.inr h
      · rintro (h | h)
        · exact Or.inl (by omega)
        · exact Or.inr h

theorem runsFrom_bounds {first last : Int} {keys : List Int} {lower upper : Int}
    (hfirst : lower ≤ first) (horder : first < last) (hlast : last ≤ upper)
    (hkeys : ∀ key ∈ keys, lower ≤ key ∧ key < upper) :
    ∀ run ∈ runsFrom first last keys, lower ≤ run.1 ∧ run.1 < run.2 ∧ run.2 ≤ upper := by
  induction keys generalizing first last with
  | nil => simp [runsFrom, hfirst, horder, hlast]
  | cons key keys ih =>
      have hkey := hkeys key (by simp)
      have htail : ∀ key ∈ keys, lower ≤ key ∧ key < upper :=
        fun key hmem => hkeys key (by simp [hmem])
      rw [runsFrom]
      split
      · exact ih hfirst (by omega) (by omega) htail
      · intro run hrun
        rcases List.mem_cons.mp hrun with rfl | hrun
        · exact ⟨hfirst, horder, hlast⟩
        · exact ih (by omega) (by omega) (by omega) htail run hrun

theorem keyRuns_bounds {keys : List Int} {lower upper : Int}
    (h : ∀ key ∈ keys, lower ≤ key ∧ key < upper) :
    ∀ run ∈ keyRuns keys, lower ≤ run.1 ∧ run.1 < run.2 ∧ run.2 ≤ upper := by
  cases keys with
  | nil => simp [keyRuns]
  | cons key keys =>
      have hkey := h key (by simp)
      exact runsFrom_bounds (by omega) (by omega) (by omega) fun key hmem => h key (by simp [hmem])

/-- The bytes in `buffer` take the walk from the master index through `runs` to
`prevIndex`. -/
def Walks (masterIndex : Int) (buffer : PackBuffer) (runs : List (Int × Int))
    (prevIndex : Int) : Prop :=
  runs.length ≤ buffer.written.length ∧ ∀ fuel rest,
    rangesFrom (runs.length + fuel) masterIndex (buffer.written ++ rest) =
      runs ++ rangesFrom fuel prevIndex rest

theorem walks_empty (masterIndex size : Int) : Walks masterIndex ⟨[], size⟩ [] masterIndex := by
  simp [Walks]

theorem walks_packIntPair {masterIndex prevIndex first last : Int} {buffer buffer' : PackBuffer}
    {runs : List (Int × Int)} (h : Walks masterIndex buffer runs prevIndex)
    (hprev : 0 ≤ prevIndex) (hfirst : 0 ≤ first) (horder : first ≤ last) (hlast : last < 2 ^ 31)
    (hpack : packIntPair (first - prevIndex) (last - first) buffer = some buffer') :
    Walks masterIndex buffer' (runs ++ [(first, last)]) last := by
  obtain ⟨bytes, hwritten, hunpack⟩ := unpackIntPair_of_packIntPair (by omega) (by omega) hpack
  obtain ⟨hlength, hwalk⟩ := h
  have hbytes : 0 < bytes.length := by
    rcases bytes with _ | ⟨byte, bytes⟩
    · have := hunpack []
      simp [unpackIntPair, unpackInt] at this
    · simp
  refine ⟨by simp only [hwritten, List.length_append, List.length_singleton]; omega, ?_⟩
  intro fuel rest
  have hstep : rangesFrom (fuel + 1) prevIndex (bytes ++ rest) =
      (first, last) :: rangesFrom fuel last rest := by
    rw [rangesFrom]
    simp only [hunpack rest, if_true]
    have hend : prevIndex + (first - prevIndex + (last - first)) = last := by omega
    rw [wrap32_add_wrap32, hend, wrap32_of_lt (by omega) hlast, sub_sub_cancel,
      wrap32_of_lt (by omega) (by omega)]
  rw [hwritten, List.append_assoc, List.length_append, List.length_singleton,
    Nat.add_assoc, Nat.add_comm 1 fuel, hwalk, hstep, List.append_assoc]
  rfl

theorem rangesFrom_written {masterIndex prevIndex : Int} {buffer : PackBuffer}
    {runs : List (Int × Int)} (h : Walks masterIndex buffer runs prevIndex) :
    rangesFrom buffer.written.length masterIndex buffer.written = runs := by
  obtain ⟨hlength, hwalk⟩ := h
  have hfuel := hwalk (buffer.written.length - runs.length) []
  rw [Nat.add_sub_cancel' hlength, List.append_nil] at hfuel
  rw [hfuel]
  cases buffer.written.length - runs.length <;> simp [rangesFrom, unpackIntPair, unpackInt]

/-- Two numbers of at most five groups fit a fresh buffer. -/
theorem packIntPair_fresh {a b size : Int} (ha : 0 ≤ a) (hb : 0 ≤ b) (hsize : 10 ≤ size) :
    ∃ buffer, packIntPair a b ⟨[], size⟩ = some buffer := by
  have hcountA := groupCount_le (a := a.toNat)
  have hcountB := groupCount_le (a := b.toNat)
  unfold packIntPair
  rw [if_neg (by omega)]
  simp only
  rw [if_neg (by omega)]
  exact ⟨_, rfl⟩

/-- Reading the packets back one after the other gives the runs again, in order
and each once.  Only packets of fewer than ten bytes can lose the last of them. -/
theorem packRuns_decode {masterIndex size prevIndex : Int} {buffer : PackBuffer}
    {done runs : List (Int × Int)} (hwalk : Walks masterIndex buffer done prevIndex)
    (hmaster : 0 ≤ masterIndex) (hprev : 0 ≤ prevIndex)
    (hruns : ∀ run ∈ runs, masterIndex ≤ run.1 ∧ run.1 ≤ run.2 ∧ run.2 < 2 ^ 31) :
    ∃ n, (10 ≤ size → runs.length ≤ n) ∧
      (packRuns masterIndex size prevIndex buffer runs).flatMap
        (fun payload => rangesFrom payload.length masterIndex payload) = done ++ runs.take n := by
  induction runs generalizing prevIndex buffer done with
  | nil => exact ⟨0, by simp, by simp [packRuns, rangesFrom_written hwalk]⟩
  | cons run runs ih =>
      obtain ⟨first, last⟩ := run
      obtain ⟨hfirst, horder, hlast⟩ := hruns (first, last) (by simp)
      simp only at hfirst horder hlast
      have htail : ∀ run ∈ runs, masterIndex ≤ run.1 ∧ run.1 ≤ run.2 ∧ run.2 < 2 ^ 31 :=
        fun run hmem => hruns run (by simp [hmem])
      rw [packRuns]
      cases hpack : packIntPair (first - prevIndex) (last - first) buffer with
      | some buffer' =>
          have hnext := walks_packIntPair hwalk hprev (by omega) horder hlast hpack
          obtain ⟨n, hn, hdecode⟩ := ih hnext (by omega) htail
          exact ⟨n + 1, fun h => by simpa using hn h, by simp [hdecode]⟩
      | none =>
          simp only [List.flatMap_cons, rangesFrom_written hwalk]
          cases hfresh : packIntPair (first - masterIndex) (last - first) ⟨[], size⟩ with
          | some buffer' =>
              have hnext := walks_packIntPair (walks_empty masterIndex size) hmaster (by omega)
                horder hlast hfresh
              obtain ⟨n, hn, hdecode⟩ := ih hnext (by omega) htail
              exact ⟨n + 1, fun h => by simpa using hn h, by simp [hdecode]⟩
          | none =>
              refine ⟨0, fun h => ?_, by simp [rangesFrom]⟩
              obtain ⟨buffer', hbuffer⟩ := packIntPair_fresh (a := first - masterIndex)
                (b := last - first) (by omega) (by omega) h
              rw [hfresh] at hbuffer
              cases hbuffer

/-- The bytes in `buffer` are a sequence of `n` pairs, and fit the packet. -/
def Packed (size : Int) (buffer : PackBuffer) (n : Nat) : Prop :=
  buffer.written.length + buffer.size = size ∧ 0 ≤ buffer.size ∧ n ≤ buffer.written.length ∧
    ∀ fuel rest, unconsumedFrom (n + fuel) (buffer.written ++ rest) = unconsumedFrom fuel rest

theorem packed_empty {size : Int} (h : 0 ≤ size) : Packed size ⟨[], size⟩ 0 := by
  simp [Packed, h]

theorem packed_packIntPair {size a b : Int} {buffer buffer' : PackBuffer} {n : Nat}
    (h : Packed size buffer n) (ha : a < 2 ^ 31) (hb : b < 2 ^ 31)
    (hpack : packIntPair a b buffer = some buffer') : Packed size buffer' (n + 1) := by
  obtain ⟨hsum, hfree, hlength, hwalk⟩ := h
  obtain ⟨bytes, hwritten, hunpack⟩ := unpackIntPair_of_packIntPair ha hb hpack
  have hbytes : 0 < bytes.length := by
    rcases bytes with _ | ⟨byte, bytes⟩
    · have := hunpack []
      simp [unpackIntPair, unpackInt] at this
    · simp
  have hsize : buffer'.written.length + buffer'.size = size ∧ 0 ≤ buffer'.size := by
    unfold packIntPair at hpack
    split at hpack
    · cases hpack
    simp only at hpack
    split at hpack
    · cases hpack
    · rename_i hfits
      obtain rfl := Option.some.inj hpack
      simp only [List.length_append, packGroups_eq_encode, Base128.encode_length]
      omega
  refine ⟨hsize.1, hsize.2, by simp only [hwritten, List.length_append]; omega, ?_⟩
  intro fuel rest
  have hstep : unconsumedFrom (fuel + 1) (bytes ++ rest) = unconsumedFrom fuel rest := by
    rw [unconsumedFrom]
    simp only [hunpack rest, if_true]
  rw [hwritten, List.append_assoc, Nat.add_assoc, Nat.add_comm 1 fuel, hwalk, hstep]

theorem unconsumedFrom_written {size : Int} {buffer : PackBuffer} {n : Nat}
    (h : Packed size buffer n) :
    unconsumedFrom buffer.written.length buffer.written = [] := by
  obtain ⟨-, -, hlength, hwalk⟩ := h
  have hfuel := hwalk (buffer.written.length - n) []
  rw [Nat.add_sub_cancel' hlength, List.append_nil] at hfuel
  rw [hfuel]
  cases buffer.written.length - n <;> simp [unconsumedFrom, unpackIntPair, unpackInt]

theorem packRuns_payload {masterIndex size prevIndex : Int} {buffer : PackBuffer} {n : Nat}
    {runs : List (Int × Int)} (h : Packed size buffer n) (hsize : 0 ≤ size)
    (hmaster : 0 ≤ masterIndex) (hprev : 0 ≤ prevIndex)
    (hruns : ∀ run ∈ runs, masterIndex ≤ run.1 ∧ run.1 ≤ run.2 ∧ run.2 < 2 ^ 31)
    {payload : List UInt8} (hpayload : payload ∈ packRuns masterIndex size prevIndex buffer runs) :
    payload.length ≤ size ∧ unconsumedFrom payload.length payload = [] := by
  have hwritten : ∀ {buffer : PackBuffer} {n : Nat}, Packed size buffer n →
      buffer.written.length ≤ size ∧ unconsumedFrom buffer.written.length buffer.written = [] := by
    intro buffer n hpacked
    have hsum := hpacked.1
    have hfree := hpacked.2.1
    exact ⟨by omega, unconsumedFrom_written hpacked⟩
  induction runs generalizing prevIndex buffer n with
  | nil =>
      rw [packRuns, List.mem_singleton] at hpayload
      rw [hpayload]
      exact hwritten h
  | cons run runs ih =>
      obtain ⟨first, last⟩ := run
      obtain ⟨hfirst, horder, hlast⟩ := hruns (first, last) (by simp)
      simp only at hfirst horder hlast
      have htail : ∀ run ∈ runs, masterIndex ≤ run.1 ∧ run.1 ≤ run.2 ∧ run.2 < 2 ^ 31 :=
        fun run hmem => hruns run (by simp [hmem])
      rw [packRuns] at hpayload
      cases hpack : packIntPair (first - prevIndex) (last - first) buffer with
      | some buffer' =>
          simp only [hpack] at hpayload
          exact ih (packed_packIntPair h (by omega) (by omega) hpack) (by omega) htail hpayload
      | none =>
          simp only [hpack, List.mem_cons] at hpayload
          rcases hpayload with rfl | hpayload
          · exact hwritten h
          · cases hfresh : packIntPair (first - masterIndex) (last - first) ⟨[], size⟩ with
            | some buffer' =>
                simp only [hfresh] at hpayload
                exact ih (packed_packIntPair (packed_empty hsize) (by omega) (by omega) hfresh)
                  (by omega) htail hpayload
            | none =>
                simp only [hfresh, List.mem_singleton] at hpayload
                rw [hpayload]
                exact hwritten (packed_empty hsize)

end IceTunnel.Packet
