import IceTunnel.Completing
import IceTunnel.Walking

namespace IceTunnel

namespace Receiver

/-- What `tcpWrite(true)` leaves of a packet it passes. -/
def pass (p : Packet) : Option Packet :=
  if p.confirmed then none else some { p with sent := true }

/-- The packet of an index: the one held before, or else one of those read. -/
def Offers (r : Receiver) (packets : List Packet) (index : Int) (p : Packet) : Prop :=
  r.udpReceivedPackets[index]? = some p ∨
    index ∉ r.udpReceivedPackets ∧ p ∈ packets ∧ p.getIndex = index

/-- What becomes of it when TCP has been sent all below `next`. -/
def passed (r : Receiver) (next index : Int) (p : Packet) : Option Packet :=
  if r.tcpNextSendIndex ≤ index ∧ index < next then pass p else some p

/-- `x` is what `r` has become with these packets, in any order. -/
structure Received (r : Receiver) (tcpConnected : Bool) (packets : List Packet) (x : Receiver) :
    Prop where
  wellFormed : x.WellFormed
  next_le : r.tcpNextSendIndex ≤ x.tcpNextSendIndex
  master_le : r.udpReceivedMasterIndex ≤ x.udpReceivedMasterIndex
  accepted_iff : ∀ q, q ∈ x.accepted ↔
    q ∈ r.accepted ∨ q ∈ packets ∧ q.getIndex ∉ r.udpReceivedPackets
  entry_iff : ∀ index q, x.udpReceivedPackets[index]? = some q ↔
    ∃ p, r.Offers packets index p ∧ r.passed x.tcpNextSendIndex index p = some q
  next_eq : x.tcpNextSendIndex =
    if tcpConnected = true ∨ ∀ p ∈ packets, p.getIndex ∈ r.udpReceivedPackets then
      r.tcpNextSendIndex
    else x.udpReceivedMasterIndex

section Determined

variable {x y : Receiver}

theorem WellFormed.final_le_of_accepted (hx : x.WellFormed) (hy : y.WellFormed)
    (h : ∀ q ∈ x.accepted, q ∈ y.accepted)
    (hmaster : x.udpReceivedMasterIndex ≤ y.udpReceivedMasterIndex) :
    y.udpReceivedFinalIndex ≤ x.udpReceivedFinalIndex := by
  by_cases hfinal : x.udpReceivedFinalIndex = intMax
  · rw [hfinal]
    exact hy.final_le
  · obtain ⟨hend, q, hq, hclosing, hindex⟩ := hx.final_closing hfinal
    have hsame := hy.closing_final q (h q hq) hclosing (by omega)
    omega

theorem WellFormed.master_le_of_accepted (hx : x.WellFormed) (hy : y.WellFormed)
    (h : ∀ q, q ∈ x.accepted ↔ q ∈ y.accepted) :
    y.udpReceivedMasterIndex ≤ x.udpReceivedMasterIndex := by
  by_contra hlt
  have hnonneg : 0 ≤ x.udpReceivedMasterIndex := le_trans hx.next_nonneg hx.next_le
  obtain ⟨q, hq, hindex⟩ := hy.covered x.udpReceivedMasterIndex hnonneg (by omega)
  obtain ⟨-, -, hkept⟩ := hx.accepted_kept q ((h q).mpr hq)
  have hmem : x.udpReceivedMasterIndex ∈ x.udpReceivedPackets := by
    have hnext := hx.next_le
    rw [← hindex]
    exact hkept.resolve_left (by omega)
  have hend := hx.gap hmem
  have hfinal := hx.final_le_of_accepted hy (fun q hq => (h q).mp hq) (by omega)
  have hle := hy.master_le
  omega

/-- The same packets in whatever order leave the same. -/
theorem Received.eq {r : Receiver} {tcpConnected : Bool} {packets packets' : List Packet}
    (hx : r.Received tcpConnected packets x) (hy : r.Received tcpConnected packets' y)
    (hsame : ∀ p, p ∈ packets ↔ p ∈ packets') :
    x.udpReceivedPackets = y.udpReceivedPackets ∧
      x.udpReceivedMasterIndex = y.udpReceivedMasterIndex ∧
      x.udpReceivedFinalIndex = y.udpReceivedFinalIndex ∧
      x.tcpNextSendIndex = y.tcpNextSendIndex := by
  have haccepted : ∀ q, q ∈ x.accepted ↔ q ∈ y.accepted := by
    intro q
    rw [hx.accepted_iff, hy.accepted_iff, hsame]
  have hmaster : x.udpReceivedMasterIndex = y.udpReceivedMasterIndex :=
    le_antisymm (hy.wellFormed.master_le_of_accepted hx.wellFormed fun q => (haccepted q).symm)
      (hx.wellFormed.master_le_of_accepted hy.wellFormed haccepted)
  have hfinal : x.udpReceivedFinalIndex = y.udpReceivedFinalIndex :=
    le_antisymm
      (hy.wellFormed.final_le_of_accepted hx.wellFormed (fun q => (haccepted q).mpr) (by omega))
      (hx.wellFormed.final_le_of_accepted hy.wellFormed (fun q => (haccepted q).mp) (by omega))
  have hnext : x.tcpNextSendIndex = y.tcpNextSendIndex := by
    rw [hx.next_eq, hy.next_eq, hmaster]
    simp only [hsame]
  refine ⟨?_, hmaster, hfinal, hnext⟩
  apply Std.ExtTreeMap.ext_getElem?
  intro index
  apply Option.ext
  intro q
  rw [hx.entry_iff, hy.entry_iff, hnext]
  simp only [Offers, hsame]

end Determined

section Extend

variable {r x y : Receiver} {tcpConnected : Bool} {packets : List Packet} {p : Packet}

theorem Received.refl (h : r.WellFormed) (tcpConnected : Bool) : r.Received tcpConnected [] r := by
  refine ⟨h, le_refl _, le_refl _, fun q => by simp, fun index q => ?_, by simp⟩
  have hpassed : ∀ p, r.passed r.tcpNextSendIndex index p = some p := fun p => if_neg (by omega)
  simp [Offers, hpassed]

theorem Received.again (hx : r.Received tcpConnected packets x)
    (h : p ∈ packets ∨ p.getIndex ∈ r.udpReceivedPackets) :
    r.Received tcpConnected (packets ++ [p]) x := by
  have hmem : ∀ q, q.getIndex ∉ r.udpReceivedPackets → (q ∈ packets ++ [p] ↔ q ∈ packets) := by
    intro q hq
    rw [List.mem_append, List.mem_singleton]
    constructor
    · rintro (hq' | rfl)
      · exact hq'
      · exact h.resolve_right hq
    · exact .inl
  refine ⟨hx.wellFormed, hx.next_le, hx.master_le, fun q => ?_, fun index q => ?_, ?_⟩
  · rw [hx.accepted_iff]
    by_cases hq : q.getIndex ∈ r.udpReceivedPackets
    · simp only [hq, not_true_eq_false, and_false]
    · rw [hmem q hq]
  · rw [hx.entry_iff]
    have hoffers : ∀ q, r.Offers (packets ++ [p]) index q ↔ r.Offers packets index q := by
      intro q
      refine or_congr_right (and_congr_right fun hindex => ?_)
      constructor
      · rintro ⟨hq, rfl⟩
        exact ⟨(hmem q hindex).mp hq, rfl⟩
      · rintro ⟨hq, rfl⟩
        exact ⟨(hmem q hindex).mpr hq, rfl⟩
    simp only [hoffers]
  · rw [hx.next_eq]
    congr 1
    rw [eq_iff_iff]
    refine or_congr_right ⟨fun hall q hq => ?_, fun hall q hq => hall q (by simp [hq])⟩
    rcases List.mem_append.mp hq with hq | hq
    · exact hall q hq
    · obtain rfl := List.mem_singleton.mp hq
      exact h.elim (hall q) id

theorem Received.mem_of_offers (hx : r.Received tcpConnected packets x) {index : Int}
    (hindex : x.tcpNextSendIndex ≤ index) {q : Packet} (hq : r.Offers packets index q) :
    x.udpReceivedPackets[index]? = some q := by
  rw [hx.entry_iff]
  exact ⟨q, hq, if_neg (by omega)⟩

theorem passed_passed {next : Int} (hr : r.tcpNextSendIndex ≤ x.tcpNextSendIndex)
    (hx : x.tcpNextSendIndex ≤ next) (index : Int) (q : Packet) :
    (r.passed x.tcpNextSendIndex index q).bind (x.passed next index) = r.passed next index q := by
  by_cases hearly : r.tcpNextSendIndex ≤ index ∧ index < x.tcpNextSendIndex
  · have hstays : x.passed next index = some := funext fun v => if_neg (by omega)
    have hpassed : r.passed next index q = pass q := if_pos (by omega)
    rw [hstays, Option.bind_fun_some, hpassed]
    exact if_pos hearly
  · have hthere : r.passed x.tcpNextSendIndex index q = some q := if_neg hearly
    rw [hthere, Option.bind_some]
    exact if_congr (by omega) rfl rfl

theorem passed_congr (next : Int) {index : Int}
    (h : r.tcpNextSendIndex ≤ index ↔ x.tcpNextSendIndex ≤ index) (q : Packet) :
    r.passed next index q = x.passed next index q := by
  simp only [passed, h]

theorem Received.not_offers (hx : r.Received tcpConnected packets x)
    (hmaster : x.udpReceivedMasterIndex ≤ p.getIndex) (hnew : p.getIndex ∉ x.udpReceivedPackets)
    (q : Packet) : ¬r.Offers packets p.getIndex q := by
  intro hq
  have hxnext := hx.wellFormed.next_le
  have hthere := hx.mem_of_offers (by omega) hq
  rw [Std.ExtTreeMap.mem_iff_isSome_getElem?, hthere] at hnew
  exact hnew rfl

theorem not_mem_of_not_offers (h : ∀ q, ¬r.Offers packets p.getIndex q) :
    p.getIndex ∉ r.udpReceivedPackets := by
  intro hmem
  obtain ⟨q, hq⟩ := Option.isSome_iff_exists.mp (Std.ExtTreeMap.mem_iff_isSome_getElem?.mp hmem)
  exact h q (.inl hq)

theorem offers_append_self (h : ∀ q, ¬r.Offers packets p.getIndex q) (q : Packet) :
    r.Offers (packets ++ [p]) p.getIndex q ↔ q = p := by
  constructor
  · rintro (hq | ⟨hold, hq, hsame⟩)
    · exact absurd (.inl hq) (h q)
    · rcases List.mem_append.mp hq with hq | hq
      · exact absurd (.inr ⟨hold, hq, hsame⟩) (h q)
      · exact List.mem_singleton.mp hq
  · rintro rfl
    exact .inr ⟨not_mem_of_not_offers h, by simp, rfl⟩

theorem offers_append_of_ne {index : Int} (hindex : p.getIndex ≠ index) (q : Packet) :
    r.Offers (packets ++ [p]) index q ↔ r.Offers packets index q := by
  refine or_congr_right (and_congr_right fun _ => ?_)
  rw [List.mem_append, List.mem_singleton]
  constructor
  · rintro ⟨hq | rfl, hsame⟩
    · exact ⟨hq, hsame⟩
    · exact absurd hsame hindex
  · rintro ⟨hq, hsame⟩
    exact ⟨.inl hq, hsame⟩

theorem Received.extend_entry (hx : r.Received tcpConnected packets x)
    (hmaster : x.udpReceivedMasterIndex ≤ p.getIndex) (hnew : p.getIndex ∉ x.udpReceivedPackets)
    {next : Int} (hnext : x.tcpNextSendIndex ≤ next) (index : Int) (q : Packet) :
    ((x.udpReceivedPackets.insert p.getIndex p)[index]?).bind (x.passed next index) = some q ↔
      ∃ p', r.Offers (packets ++ [p]) index p' ∧ r.passed next index p' = some q := by
  have habsent := hx.not_offers hmaster hnew
  rw [Std.ExtTreeMap.getElem?_insert]
  by_cases hindex : p.getIndex = index
  · subst hindex
    have hlow : r.tcpNextSendIndex ≤ p.getIndex ↔ x.tcpNextSendIndex ≤ p.getIndex := by
      have hrx := hx.next_le
      have hxnext := hx.wellFormed.next_le
      omega
    rw [if_pos (compare_eq_iff_eq.mpr rfl), Option.bind_some]
    simp only [offers_append_self habsent, exists_eq_left, passed_congr next hlow]
  · simp only [compare_eq_iff_eq, hindex, if_false, offers_append_of_ne hindex,
      Option.bind_eq_some_iff, hx.entry_iff]
    constructor
    · rintro ⟨v, ⟨q', hq', hv⟩, hq⟩
      refine ⟨q', hq', ?_⟩
      rw [← passed_passed hx.next_le hnext, hv]
      exact hq
    · rintro ⟨q', hq', hq⟩
      rw [← passed_passed hx.next_le hnext, Option.bind_eq_some_iff] at hq
      obtain ⟨v, hv, hq⟩ := hq
      exact ⟨v, ⟨q', hq', hv⟩, hq⟩

theorem Received.extend (hx : r.Received tcpConnected packets x)
    (hmaster : x.udpReceivedMasterIndex ≤ p.getIndex) (hnew : p.getIndex ∉ x.udpReceivedPackets)
    (hy : y.WellFormed) (hle : x.udpReceivedMasterIndex ≤ y.udpReceivedMasterIndex)
    (haccepted : y.accepted = x.accepted ++ [p])
    (hnext : y.tcpNextSendIndex =
      if tcpConnected = true then x.tcpNextSendIndex else y.udpReceivedMasterIndex)
    (hentry : ∀ index, y.udpReceivedPackets[index]? =
      ((x.udpReceivedPackets.insert p.getIndex p)[index]?).bind (x.passed y.tcpNextSendIndex index)) :
    r.Received tcpConnected (packets ++ [p]) y := by
  have hold := not_mem_of_not_offers (hx.not_offers hmaster hnew)
  have hnextLe : x.tcpNextSendIndex ≤ y.tcpNextSendIndex := by
    have hxnext := hx.wellFormed.next_le
    rw [hnext]
    split <;> omega
  refine ⟨hy, le_trans hx.next_le hnextLe, le_trans hx.master_le hle, fun q => ?_,
    fun index q => ?_, ?_⟩
  · rw [haccepted, List.mem_append, List.mem_append, List.mem_singleton, hx.accepted_iff]
    constructor
    · rintro ((hq | ⟨hq, hfree⟩) | rfl)
      · exact .inl hq
      · exact .inr ⟨.inl hq, hfree⟩
      · exact .inr ⟨.inr rfl, hold⟩
    · rintro (hq | ⟨hq | rfl, hfree⟩)
      · exact .inl (.inl hq)
      · exact .inl (.inr ⟨hq, hfree⟩)
      · exact .inr rfl
  · rw [hentry]
    exact hx.extend_entry hmaster hnew hnextLe index q
  · have hnotAll : ¬∀ q ∈ packets ++ [p], q.getIndex ∈ r.udpReceivedPackets :=
      fun hall => hold (hall p (by simp))
    rw [hnext]
    cases tcpConnected with
    | true =>
        have hkept := hx.next_eq
        simp only [true_or, if_true] at hkept ⊢
        exact hkept
    | false => simp only [Bool.false_eq_true, false_or, if_false, if_neg hnotAll]

end Extend

section Skip

variable {r : Receiver} {p : Packet}

theorem skip_getElem? (hp : r.udpReceivedPackets[r.tcpNextSendIndex]? = some p) (index : Int) :
    (r.skip p true).udpReceivedPackets[index]? =
      (r.udpReceivedPackets[index]?).bind (r.passed (r.tcpNextSendIndex + 1) index) := by
  by_cases hindex : index = r.tcpNextSendIndex
  · subst hindex
    have hpassed : r.passed (r.tcpNextSendIndex + 1) r.tcpNextSendIndex p = pass p := if_pos (by omega)
    rw [hp, Option.bind_some, hpassed, pass]
    simp only [skip, consume, Packet.isComplete, Bool.true_and]
    cases hconfirmed : p.confirmed with
    | true => simp
    | false => simp
  · have hpassed : r.passed (r.tcpNextSendIndex + 1) index = some :=
      funext fun q => if_neg (by omega)
    rw [skip_other _ _ _ hindex, hpassed, Option.bind_fun_some]

/-- `y` is what `tcpWrite(true)` leaves of `r`. -/
structure PassedAll (r y : Receiver) : Prop where
  wellFormed : y.WellFormed
  master_eq : y.udpReceivedMasterIndex = r.udpReceivedMasterIndex
  next_eq : y.tcpNextSendIndex = r.udpReceivedMasterIndex
  accepted_eq : y.accepted = r.accepted
  entry_eq : ∀ index : Int, y.udpReceivedPackets[index]? =
    (r.udpReceivedPackets[index]?).bind (r.passed r.udpReceivedMasterIndex index)

theorem WellFormed.passedAll (h : r.WellFormed)
    (hnext : r.tcpNextSendIndex = r.udpReceivedMasterIndex) : r.PassedAll r := by
  refine ⟨h, rfl, hnext, rfl, fun index => ?_⟩
  have hpassed : r.passed r.udpReceivedMasterIndex index = some := funext fun q => if_neg (by omega)
  rw [hpassed, Option.bind_fun_some]

theorem PassedAll.of_skip {y : Receiver} (hp : r.udpReceivedPackets[r.tcpNextSendIndex]? = some p)
    (hmore : r.tcpNextSendIndex < r.udpReceivedMasterIndex) (h : (r.skip p true).PassedAll y) :
    r.PassedAll y := by
  obtain ⟨hwellFormed, hmaster, hnext, haccepted, hentry⟩ := h
  rw [skip_udpReceivedMasterIndex] at hmaster hnext hentry
  rw [skip_accepted] at haccepted
  refine ⟨hwellFormed, hmaster, hnext, haccepted, fun index => ?_⟩
  have hskip : (r.skip p true).tcpNextSendIndex = r.tcpNextSendIndex + 1 :=
    r.skip_tcpNextSendIndex p true
  rw [hentry, skip_getElem? hp, Option.bind_assoc]
  congr 1
  funext q
  rw [← hskip]
  exact passed_passed (by omega) (by omega) index q

end Skip

section Accept

variable {r x y : Receiver} {packets : List Packet} {p : Packet}

theorem Received.accept (hx : r.Received true packets x) (hwire : p.wire = p)
    (hmaster : x.udpReceivedMasterIndex ≤ p.getIndex) (hfinal : p.getIndex < x.udpReceivedFinalIndex)
    (hnew : p.getIndex ∉ x.udpReceivedPackets) :
    r.Received true (packets ++ [p]) (x.accept p) := by
  have haccepted := x.accept_accepted p
  rw [hwire] at haccepted
  obtain ⟨masterIndex, finalIndex, heq, hle, -⟩ := x.accept_eq p
  refine hx.extend hmaster hnew (hx.wellFormed.accept hwire hmaster hfinal hnew) ?_ haccepted ?_
    fun index => ?_
  · rw [heq]
    exact hle
  · rw [heq]
    rfl
  · have hpassed : x.passed (x.accept p).tcpNextSendIndex index = some :=
      funext fun q => if_neg (by rw [heq]; simp only; omega)
    rw [hpassed, Option.bind_fun_some, heq]

theorem Received.passedAll (hx : r.Received false packets x) (hwire : p.wire = p)
    (hmaster : x.udpReceivedMasterIndex ≤ p.getIndex) (hnew : p.getIndex ∉ x.udpReceivedPackets)
    (hy : (x.accept p).PassedAll y) : r.Received false (packets ++ [p]) y := by
  have haccepted := x.accept_accepted p
  rw [hwire] at haccepted
  obtain ⟨masterIndex, finalIndex, heq, hle, -⟩ := x.accept_eq p
  refine hx.extend hmaster hnew hy.wellFormed ?_ (hy.accepted_eq.trans haccepted) ?_
    fun index => ?_
  · rw [hy.master_eq, heq]
    exact hle
  · rw [hy.next_eq, hy.master_eq]
    rfl
  · have hmap : (x.accept p).udpReceivedPackets = x.udpReceivedPackets.insert p.getIndex p := by
      rw [heq]
    have hnext : (x.accept p).tcpNextSendIndex = x.tcpNextSendIndex := by rw [heq]
    have hpassed : (x.accept p).passed (x.accept p).udpReceivedMasterIndex index =
        x.passed (x.accept p).udpReceivedMasterIndex index :=
      funext fun q => passed_congr _ (by rw [hnext]) q
    rw [hy.entry_eq, hy.next_eq, hmap, hpassed]

end Accept

end Receiver

namespace Connection

variable {c : Connection}

theorem tcpWriteLoop_fake_passedAll {fuel : Nat} (h : c.toReceiver.WellFormed)
    (hfuel : (c.udpReceivedMasterIndex - c.tcpNextSendIndex).toNat ≤ fuel) :
    c.toReceiver.PassedAll (tcpWriteLoop true fuel c).1.toReceiver := by
  have hle := h.next_le
  induction fuel generalizing c with
  | zero => exact h.passedAll (by omega)
  | succ fuel ih =>
      by_cases hmore : c.tcpNextSendIndex < c.udpReceivedMasterIndex
      · obtain ⟨packet, hpacket⟩ := Option.isSome_iff_exists.mp
          (Std.ExtTreeMap.mem_iff_isSome_getElem?.mp (h.filled _ (le_refl _) hmore))
        have hskip : (c.toReceiver.skip packet true).WellFormed := h.skip true hpacket hmore
        have hnext := c.toReceiver.skip_tcpNextSendIndex packet true
        have hmaster := c.toReceiver.skip_udpReceivedMasterIndex packet true
        simp only [tcpWriteLoop, if_pos hmore, hpacket, Bool.true_or, if_true, Bool.not_true,
          Bool.false_and, Bool.false_eq_true, if_false]
        refine Receiver.PassedAll.of_skip hpacket hmore ?_
        apply @ih { c with toReceiver := c.toReceiver.skip packet true } hskip
        · simp only [hnext, hmaster]
          omega
        · exact hskip.next_le
      · simp only [tcpWriteLoop, if_neg hmore]
        exact h.passedAll (by omega)

end Connection

/-- Packets of an honest peer within the receive window of a session: numbered from the
Hello packet on, one for each index, and a closing packet is the last.  Some may have been
received long ago. -/
structure Drawn (s : Session) (packets : List Packet) : Prop where
  numbered : ∀ p ∈ packets, p.getType.isNumbered = true
  hello_first : ∀ p ∈ packets, p.getType = .hello → p.getIndex = 0
  unique : ∀ p ∈ packets, ∀ q ∈ packets, p.getIndex = q.getIndex → p = q
  closing_last : ∀ p ∈ packets, ∀ q ∈ packets, q.getType.isClosing = true → p.getIndex ≤ q.getIndex
  window : ∀ p ∈ packets, p.getIndex < s.udpReceivedFinalIndex ∧
    p.getIndex - s.tcpNextSendIndex ≤ s.receiveWindow

/-- And no closing packet that waits for its turn in the session comes before one of them. -/
structure Continues (s : Session) (packets : List Packet) : Prop extends Drawn s packets where
  waiting_last : ∀ p ∈ packets, ∀ index q, s.udpReceivedPackets[index]? = some q →
    q.getType.isClosing = true → s.udpReceivedMasterIndex ≤ index → p.getIndex ≤ index

namespace Connection

variable {c x : Connection} {packets rest : List Packet} {p : Packet}

/-- The packets that are not behind the master index. -/
def ahead (c : Connection) (packets : List Packet) : List Packet :=
  packets.filter fun p => c.udpReceivedMasterIndex ≤ p.getIndex

theorem mem_ahead : p ∈ c.ahead packets ↔ p ∈ packets ∧ c.udpReceivedMasterIndex ≤ p.getIndex := by
  simp only [ahead, List.mem_filter, decide_eq_true_eq]

theorem ahead_append_of_le (hmaster : c.udpReceivedMasterIndex ≤ p.getIndex) :
    c.ahead (packets ++ [p]) = c.ahead packets ++ [p] := by
  rw [ahead, List.filter_append, List.filter_singleton, decide_eq_true hmaster]
  rfl

theorem ahead_append_of_lt (hmaster : p.getIndex < c.udpReceivedMasterIndex) :
    c.ahead (packets ++ [p]) = c.ahead packets := by
  rw [ahead, List.filter_append, List.filter_singleton, decide_eq_false (not_le.mpr hmaster)]
  exact List.append_nil _

/-- `x` is what `c` has become with these packets, in any order. -/
structure Reading (c : Connection) (packets : List Packet) (x : Connection) : Prop where
  received : c.toReceiver.Received c.tcpConnected (c.ahead packets) x.toReceiver
  config_eq : x.toConfig = c.toConfig
  ends_eq : x.toEnds = c.toEnds
  unfinished : x.isUdpFinished = false

theorem Reading.acceptsPacket_iff (h : c.Reading packets x) (hdrawn : Continues c.toSession rest)
    (hp : p ∈ rest) : x.toSession.acceptsPacket p = true ↔
      x.udpReceivedMasterIndex ≤ p.getIndex ∧ p.getIndex < x.udpReceivedFinalIndex := by
  refine ⟨fun haccepts => ?_, fun ⟨hmaster, hfinal⟩ => ?_⟩
  · obtain ⟨hmaster, hfinal, -⟩ := Session.acceptsPacket_eq_true haccepts
    exact ⟨hmaster, hfinal⟩
  · have hnext := h.received.next_le
    obtain ⟨-, hwindow⟩ := hdrawn.window p hp
    rw [← h.config_eq] at hwindow
    have hroom : p.getIndex - x.tcpNextSendIndex ≤ x.receiveWindow := by omega
    have hnumbered := hdrawn.numbered p hp
    have hhello := hdrawn.hello_first p hp
    simp only [Session.acceptsPacket, Bool.and_eq_true, Bool.or_eq_true, decide_eq_true_eq]
    refine ⟨⟨⟨hmaster, hfinal⟩, hroom⟩, ?_⟩
    cases htype : p.getType <;> simp_all [PacketType.isNumbered]

theorem Reading.mem_of_not_accepts (h : c.Reading packets x) (hc : c.toReceiver.WellFormed)
    (hdrawn : Continues c.toSession rest) (hsub : ∀ q ∈ packets, q ∈ rest) (hp : p ∈ rest)
    (hmaster : c.udpReceivedMasterIndex ≤ p.getIndex)
    (hrefused : ¬x.toSession.acceptsPacket p = true) :
    p ∈ c.ahead packets ∨ p.getIndex ∈ c.udpReceivedPackets := by
  have hx := h.received.wellFormed
  obtain ⟨hfinal, -⟩ := hdrawn.window p hp
  have hnext := hc.next_le
  have hmax := hc.final_le
  rw [h.acceptsPacket_iff hdrawn hp, not_and_or] at hrefused
  rcases hrefused with hbelow | habove
  · obtain ⟨q, hq, hindex⟩ := hx.covered p.getIndex
      (by have := hc.next_nonneg; omega) (by omega)
    rw [h.received.accepted_iff] at hq
    rcases hq with hq | ⟨hq, -⟩
    · obtain ⟨-, -, hkept⟩ := hc.accepted_kept q hq
      rw [← hindex]
      exact .inr (hkept.resolve_left (by omega))
    · left
      rw [hdrawn.unique p hp q (hsub q (mem_ahead.mp hq).1) hindex.symm]
      exact hq
  · obtain ⟨hend, q, hq, hclosing, hlast⟩ := hx.final_closing (by omega)
    exfalso
    rw [h.received.accepted_iff] at hq
    rcases hq with hq | ⟨hq, -⟩
    · by_cases hpassed : q.getIndex < c.udpReceivedMasterIndex
      · have := hc.closing_final q hq hclosing hpassed
        omega
      · obtain ⟨-, -, hkept⟩ := hc.accepted_kept q hq
        have hmem := hkept.resolve_left (by omega)
        obtain ⟨v, hv⟩ := Option.isSome_iff_exists.mp (Std.ExtTreeMap.mem_iff_isSome_getElem?.mp hmem)
        obtain ⟨a, ha, haindex, -, htype, -⟩ := hc.key_accepted q.getIndex v hv
        rw [hc.accepted_unique ha hq haindex] at htype
        have := hdrawn.waiting_last p hp q.getIndex v hv (by rw [← htype]; exact hclosing) (by omega)
        omega
    · have := hdrawn.closing_last p hp q (hsub q (mem_ahead.mp hq).1) hclosing
      omega

theorem Reading.mem_of_mem (h : c.Reading packets x) (hdrawn : Continues c.toSession rest)
    (hsub : ∀ q ∈ packets, q ∈ rest) (hp : p ∈ rest) (hmem : p.getIndex ∈ x.udpReceivedPackets) :
    p ∈ c.ahead packets ∨ p.getIndex ∈ c.udpReceivedPackets := by
  obtain ⟨q, hq⟩ := Option.isSome_iff_exists.mp (Std.ExtTreeMap.mem_iff_isSome_getElem?.mp hmem)
  obtain ⟨v, hoffers, -⟩ := (h.received.entry_iff _ _).mp hq
  rcases hoffers with hv | ⟨-, hv, hindex⟩
  · right
    rw [Std.ExtTreeMap.mem_iff_isSome_getElem?, hv]
    rfl
  · left
    rw [hdrawn.unique p hp v (hsub v (mem_ahead.mp hv).1) hindex.symm]
    exact hv

theorem udpReadPacket_of_mem (hmem : p.getIndex ∈ x.udpReceivedPackets) :
    (x.udpReadPacket p).toEndpoint = x.toEndpoint ∧
      (x.udpReadPacket p).remainConfirmationResendCount = x.confirmationResendCount := by
  simp only [udpReadPacket, if_pos hmem]
  exact ⟨rfl, rfl⟩

theorem udpReadPacket_of_new (h : x.toReceiver.WellFormed) (hwire : p.wire = p)
    (hmaster : x.udpReceivedMasterIndex ≤ p.getIndex) (hfinal : p.getIndex < x.udpReceivedFinalIndex)
    (hnew : p.getIndex ∉ x.udpReceivedPackets) :
    ∃ r : Receiver, (x.udpReadPacket p).toEndpoint = { x.toEndpoint with toReceiver := r } ∧
      (x.udpReadPacket p).remainConfirmationResendCount = x.confirmationResendCount ∧
      if x.tcpConnected = true then r = x.toReceiver.accept p
      else (x.toReceiver.accept p).PassedAll r := by
  let d : Connection := { x with toReceiver := x.toReceiver.accept p }
  have hread : (x.udpReadPacket p).toEndpoint = d.tcpWriteFake.toEndpoint ∧
      (x.udpReadPacket p).remainConfirmationResendCount = d.tcpWriteFake.confirmationResendCount := by
    have hstored := x.storePacket_toEndpoint p
    rw [udpReadPacket_eq, if_neg hnew]
    exact ⟨hstored, congrArg (fun e : Endpoint => e.confirmationResendCount) hstored⟩
  obtain ⟨r, hr, -⟩ := d.tcpWriteFake_steps (N := fun _ => True)
  refine ⟨r, by rw [hread.1, hr], by rw [hread.2, hr], ?_⟩
  split
  · rename_i htcp
    have hopen := (udpReadPacket_of_open htcp hnew).1
    rw [hread.1, hr] at hopen
    exact congrArg (fun e : Endpoint => e.toReceiver) hopen
  · rename_i htcp
    have hfake : d.tcpWriteFake = (tcpWriteLoop true d.tcpWriteFuel d).1 := by
      have hd : d.tcpConnected = false := by simpa using htcp
      rw [tcpWriteFake, hd]
      rfl
    have hpassed := tcpWriteLoop_fake_passedAll (c := d) (h.accept hwire hmaster hfinal hnew)
      (le_refl d.tcpWriteFuel)
    rw [← hfake, hr] at hpassed
    exact hpassed

theorem Reading.reread (h : c.Reading packets x) (hopen : x.udpConnected = true)
    (hcount : 1 ≤ x.confirmationResendCount) {d : Connection} {r : Receiver}
    (hend : d.toEndpoint = { x.toEndpoint with toReceiver := r })
    (hremain : d.remainConfirmationResendCount = x.confirmationResendCount)
    (hmaster : c.udpReceivedMasterIndex ≤ p.getIndex)
    (hr : c.toReceiver.Received c.tcpConnected (c.ahead packets ++ [p]) r) :
    c.Reading (packets ++ [p]) d.closeIfUdpFinished := by
  have hopenD : d.udpConnected = true := by
    rw [hend]
    exact hopen
  have hunfinished := isUdpFinished_of_remain hopenD (by rw [hremain]; exact hcount)
  rw [closeIfUdpFinished_of_unfinished hunfinished]
  refine ⟨?_, ?_, ?_, hunfinished⟩
  · rw [hend, ahead_append_of_le hmaster]
    exact hr
  · rw [hend]
    exact h.config_eq
  · rw [hend]
    exact h.ends_eq

theorem Reading.receive (h : c.Reading packets x) (hopen : x.udpConnected = true)
    (hcount : 1 ≤ x.confirmationResendCount) (hwire : p.wire = p)
    (hmaster : x.udpReceivedMasterIndex ≤ p.getIndex) (hfinal : p.getIndex < x.udpReceivedFinalIndex)
    (hnew : p.getIndex ∉ x.udpReceivedPackets) :
    c.Reading (packets ++ [p]) (x.udpReadPacket p).closeIfUdpFinished := by
  have htcp : x.tcpConnected = c.tcpConnected := congrArg Ends.tcpConnected h.ends_eq
  have hreceived := h.received
  obtain ⟨r, hend, hremain, hr⟩ :=
    udpReadPacket_of_new hreceived.wellFormed hwire hmaster hfinal hnew
  rw [htcp] at hr
  refine h.reread hopen hcount hend hremain (le_trans hreceived.master_le hmaster) ?_
  cases hclosed : c.tcpConnected with
  | true =>
      simp only [hclosed, if_true] at hr
      rw [hclosed] at hreceived
      rw [hr]
      exact hreceived.accept hwire hmaster hfinal hnew
  | false =>
      simp only [hclosed, Bool.false_eq_true, if_false] at hr
      rw [hclosed] at hreceived
      exact hreceived.passedAll hwire hmaster hnew hr

theorem Reading.refuse (h : c.Reading packets x) (hc : c.toReceiver.WellFormed)
    (hdrawn : Continues c.toSession rest) (hsub : ∀ q ∈ packets, q ∈ rest) (hp : p ∈ rest)
    (hrefused : ¬x.toSession.acceptsPacket p = true) :
    c.Reading (packets ++ [p]) x.closeIfUdpFinished := by
  rw [closeIfUdpFinished_of_unfinished h.unfinished]
  refine ⟨?_, h.config_eq, h.ends_eq, h.unfinished⟩
  rcases lt_or_ge p.getIndex c.udpReceivedMasterIndex with hbehind | hmaster
  · rw [ahead_append_of_lt hbehind]
    exact h.received
  · rw [ahead_append_of_le hmaster]
    exact h.received.again (h.mem_of_not_accepts hc hdrawn hsub hp hmaster hrefused)

theorem Reading.read (h : c.Reading packets x) (hc : c.toReceiver.WellFormed)
    (hopen : c.udpConnected = true) (hcount : 1 ≤ c.confirmationResendCount)
    (hdrawn : Continues c.toSession rest) (hsub : ∀ q ∈ packets, q ∈ rest) (hp : p ∈ rest)
    (hwire : p.wire = p) : c.Reading (packets ++ [p]) (x.udpRead p) := by
  have hxopen : x.udpConnected = true := (congrArg Ends.udpConnected h.ends_eq).trans hopen
  have hxcount : 1 ≤ x.confirmationResendCount := by
    rw [show x.confirmationResendCount = c.confirmationResendCount from
      congrArg Config.confirmationResendCount h.config_eq]
    exact hcount
  rw [udpRead_of_numbered hxopen (hdrawn.numbered p hp)]
  split
  · rename_i haccepts
    obtain ⟨hmaster, hfinal⟩ := (h.acceptsPacket_iff hdrawn hp).mp haccepts
    by_cases hmem : p.getIndex ∈ x.udpReceivedPackets
    · obtain ⟨hend, hremain⟩ := udpReadPacket_of_mem hmem
      exact h.reread hxopen hxcount hend hremain (le_trans h.received.master_le hmaster)
        (h.received.again (h.mem_of_mem hdrawn hsub hp hmem))
    · exact h.receive hxopen hxcount hwire hmaster hfinal hmem
  · rename_i hrefused
    exact h.refuse hc hdrawn hsub hp hrefused

/-- The packets as they come off the wire. -/
def wires (reads : List (Packet × Io)) : List Packet :=
  reads.map fun read => read.1.wire

theorem wires_cons (read : Packet × Io) (reads : List (Packet × Io)) :
    wires (read :: reads) = read.1.wire :: wires reads := rfl

/-- Calls of `udpRead` one after another. -/
def readAll (c : Connection) (reads : List (Packet × Io)) : Connection :=
  reads.foldl (fun c read => ({ c with io := read.2 } : Connection).udpRead read.1.wire) c

theorem readAll_cons (c : Connection) (read : Packet × Io) (reads : List (Packet × Io)) :
    c.readAll (read :: reads) =
      (({ c with io := read.2 } : Connection).udpRead read.1.wire).readAll reads := rfl

theorem readAll_steps (c : Connection) (reads : List (Packet × Io)) :
    Protocol.Steps (fun _ => True) c.toEndpoint (c.readAll reads).toEndpoint := by
  induction reads generalizing c with
  | nil => exact .refl
  | cons read reads ih =>
      have hread : Protocol.Steps (fun _ => True) c.toEndpoint
          (({ c with io := read.2 } : Connection).udpRead read.1.wire).toEndpoint :=
        udpRead_steps { c with io := read.2 } read.1.wire trivial read.1.wire_wire
      exact hread.trans (ih _)

theorem Reading.readAll (h : c.Reading packets x) (hc : c.toReceiver.WellFormed)
    (hopen : c.udpConnected = true) (hcount : 1 ≤ c.confirmationResendCount)
    (hdrawn : Continues c.toSession rest) (hsub : ∀ q ∈ packets, q ∈ rest)
    {reads : List (Packet × Io)} (hreads : ∀ q ∈ wires reads, q ∈ rest) :
    c.Reading (packets ++ wires reads) (x.readAll reads) := by
  induction reads generalizing x packets with
  | nil =>
      rw [wires, List.map_nil, List.append_nil]
      exact h
  | cons read reads ih =>
      have hfirst : read.1.wire ∈ rest := hreads _ List.mem_cons_self
      have hio : c.Reading packets { x with io := read.2 } :=
        ⟨h.received, h.config_eq, h.ends_eq, h.unfinished⟩
      have hread := hio.read hc hopen hcount hdrawn hsub hfirst read.1.wire_wire
      have hsplit : packets ++ wires (read :: reads) = packets ++ [read.1.wire] ++ wires reads := by
        rw [wires_cons, List.append_assoc, List.singleton_append]
      rw [hsplit]
      apply ih hread
      · intro q hq
        rcases List.mem_append.mp hq with hq | hq
        · exact hsub q hq
        · rw [List.mem_singleton.mp hq]
          exact hfirst
      · exact fun q hq => hreads q (List.mem_cons_of_mem _ hq)

theorem closeIfUdpFinished_toReceiver (c : Connection) :
    c.closeIfUdpFinished.toReceiver = c.toReceiver := by
  have hclose : ∀ d : Connection, d.udpClose.toReceiver = d.toReceiver := by
    intro d
    cases hopen : d.udpConnected with
    | false => simp only [udpClose, hopen, Bool.not_false, if_true]
    | true => rw [d.udpClose_toEndpoint hopen]
  rcases c.closeIfUdpFinished_eq with ⟨-, heq⟩ | ⟨-, finished, heq⟩
  · rw [heq]
  · rw [heq, hclose]

/-- Packets behind the master index change nothing in the receiving half, even if the
connection is finished with the first of them. -/
theorem readAll_behind {reads : List (Packet × Io)}
    (h : ∀ p ∈ wires reads, p.getType.isNumbered = true ∧ p.getIndex < c.udpReceivedMasterIndex) :
    (c.readAll reads).toReceiver = c.toReceiver := by
  induction reads generalizing c with
  | nil => rfl
  | cons read reads ih =>
      obtain ⟨⟨hnumbered, hbehind⟩, hrest⟩ := List.forall_mem_cons.mp h
      have hread : (({ c with io := read.2 } : Connection).udpRead read.1.wire).toReceiver =
          c.toReceiver := by
        cases hopen : c.udpConnected with
        | false => simp only [udpRead, hopen, Bool.not_false, if_true]
        | true =>
            have hrefused : ¬c.toSession.acceptsPacket read.1.wire = true := fun haccepts =>
              absurd (Session.acceptsPacket_eq_true haccepts).1 (not_le.mpr hbehind)
            rw [udpRead_of_numbered (c := { c with io := read.2 }) hopen hnumbered, if_neg hrefused]
            exact closeIfUdpFinished_toReceiver { c with io := read.2 }
      rw [readAll_cons, ih (by rw [hread]; exact hrest), hread]

/-- What the two runs are compared in. -/
structure SameReceived (x y : Connection) : Prop where
  packets_eq : x.udpReceivedPackets = y.udpReceivedPackets
  master_eq : x.udpReceivedMasterIndex = y.udpReceivedMasterIndex
  final_eq : x.udpReceivedFinalIndex = y.udpReceivedFinalIndex
  next_eq : x.tcpNextSendIndex = y.tcpNextSendIndex
  size_eq : x.udpReceiveBufferSize = y.udpReceiveBufferSize

variable {config : Config}

theorem behind_of_isUdpFinished (h : Runs.Reachable (Initial config) step Runs.anyMove c)
    (hopen : c.udpConnected = true) (hfinished : c.isUdpFinished = true)
    {reads : List (Packet × Io)} (hdrawn : Drawn c.toSession (wires reads)) :
    ∀ p ∈ wires reads, p.getType.isNumbered = true ∧ p.getIndex < c.udpReceivedMasterIndex := by
  have hc : c.toReceiver.WellFormed := (sound h).receiving
  have hmaster : ¬c.udpReceivedMasterIndex < intMax := by
    intro hlt
    rw [unfinished h hlt hopen] at hfinished
    cases hfinished
  have hfinal := hc.final_le
  intro p hp
  have hlt := (hdrawn.window p hp).1
  exact ⟨hdrawn.numbered p hp, by omega⟩

theorem sameReceived_readAll (h : Runs.Reachable (Initial config) step Runs.anyMove c)
    (hopen : c.udpConnected = true) (hcount : 1 ≤ c.confirmationResendCount)
    {reads reads' : List (Packet × Io)} (hdrawn : Continues c.toSession (wires reads))
    (hsame : ∀ p, p ∈ wires reads ↔ p ∈ wires reads') :
    SameReceived (c.readAll reads) (c.readAll reads') := by
  have hc : c.toReceiver.WellFormed := (sound h).receiving
  cases hfinished : c.isUdpFinished with
  | true =>
      have hbehind := behind_of_isUdpFinished h hopen hfinished hdrawn.toDrawn
      have hx := readAll_behind hbehind
      have hy := readAll_behind fun p hp => hbehind p ((hsame p).mpr hp)
      constructor <;> rw [hx, hy]
  | false =>
      have hstart : c.Reading [] c := ⟨.refl hc _, rfl, rfl, hfinished⟩
      have hx := hstart.readAll hc hopen hcount hdrawn nofun fun q hq => hq
      have hy := hstart.readAll hc hopen hcount hdrawn nofun fun q hq => (hsame q).mpr hq
      obtain ⟨hpackets, hmaster, hfinal, hnext⟩ := hx.received.eq hy.received fun p => by
        simp only [List.nil_append, mem_ahead, hsame]
      have hbuffered : ∀ reads, (c.readAll reads).Buffered := fun reads =>
        Runs.chain_invariant (I := fun e : Endpoint => e.Buffered)
          (fun _ _ => Protocol.buffered_step) (c.readAll_steps reads) (buffered h)
      refine ⟨hpackets, hmaster, hfinal, hnext, ?_⟩
      rw [hbuffered reads, hbuffered reads', hpackets]

section Confirmations

/-- The count of the packets to send, also when the UDP side is closed. -/
def Counted (c : Connection) : Prop :=
  c.udpPacketsToSendCount = (unsent c.udpSentPackets).card

theorem closeIfUdpFinished_counted {d : Connection} (hcounting : d.Counting) (hopen : d.udpConnected = true) :
    d.closeIfUdpFinished.Counted := by
  rcases d.closeIfUdpFinished_eq with ⟨-, heq⟩ | ⟨hfinished, finished, heq⟩
  · rw [heq]
    exact hcounting hopen
  · have hempty := (d.isUdpFinished_finishable hfinished hopen).sent_empty
    have hcount := hcounting hopen
    have hend := udpClose_toEndpoint { d with finished := finished } hopen
    rw [hempty] at hcount
    rw [heq, Counted, hend]
    exact hcount

theorem udpRead_counted (hsound : c.toEndpoint.Sound) (hcounted : c.Counted)
    (htype : p.getType = .confirmation) : (c.udpRead p).Counted := by
  cases hopen : c.udpConnected with
  | false =>
      rw [udpRead, hopen]
      exact hcounted
  | true =>
      have hsteps : Protocol.Steps (fun _ => True) c.toEndpoint (c.udpReadConfirmation p).toEndpoint :=
        c.udpReadConfirmation_steps p trivial hopen htype
      have hopenD : (c.udpReadConfirmation p).udpConnected = true := by
        obtain ⟨packets, count, hend, -⟩ := c.foldl_confirmPacket_toEndpoint (c.confirmedIndices p)
        rw [udpReadConfirmation_eq]
        simp only
        split <;> split <;> simp [hend, hopen]
      simp only [udpRead, hopen, Bool.not_true, Bool.false_eq_true, if_false, htype, if_true]
      exact closeIfUdpFinished_counted (hsound.steps hsteps).counting hopenD

/-- The packets that some confirmation of the list names are gone. -/
theorem readAll_confirmations (hsound : c.toEndpoint.Sound) (hcounted : c.Counted)
    {reads : List (Packet × Io)} (htype : ∀ p ∈ wires reads, p.getType = .confirmation) :
    (c.readAll reads).Counted ∧ ∀ (index : Int) (p : Packet),
      (c.readAll reads).udpSentPackets[index]? = some p ↔
        c.udpSentPackets[index]? = some p ∧ ∀ q ∈ wires reads, ¬q.Confirms index := by
  induction reads generalizing c with
  | nil =>
      refine ⟨hcounted, fun index p => ⟨fun hp => ⟨hp, nofun⟩, fun h => h.1⟩⟩
  | cons read reads ih =>
      obtain ⟨htypeRead, htypeReads⟩ := List.forall_mem_cons.mp htype
      have hsteps : Protocol.Steps (fun _ => True) c.toEndpoint
          (({ c with io := read.2 } : Connection).udpRead read.1.wire).toEndpoint :=
        udpRead_steps { c with io := read.2 } read.1.wire trivial read.1.wire_wire
      have hcountedRead : (({ c with io := read.2 } : Connection).udpRead read.1.wire).Counted :=
        udpRead_counted (c := { c with io := read.2 }) hsound hcounted htypeRead
      obtain ⟨hcountedAll, hsent⟩ := ih (hsound.steps hsteps) hcountedRead htypeReads
      rw [readAll_cons]
      refine ⟨hcountedAll, fun index p => ?_⟩
      have hfirst : (({ c with io := read.2 } : Connection).udpRead read.1.wire).udpSentPackets[index]? =
          some p ↔ c.udpSentPackets[index]? = some p ∧ ¬read.1.wire.Confirms index := by
        cases hopen : c.udpConnected with
        | false =>
            have hempty := (hsound.sending.unconnected hopen).2
            have hsame : (({ c with io := read.2 } : Connection).udpRead read.1.wire).udpSentPackets =
                c.udpSentPackets := by
              simp only [udpRead, hopen, Bool.not_false, if_true]
            rw [hsame, hempty]
            simp
        | true =>
            rw [udpRead_removed (c := { c with io := read.2 }) hopen htypeRead]
            split
            · rename_i hconfirms
              simp [hconfirms]
            · rename_i hconfirms
              simp [hconfirms]
      rw [hsent, hfirst, and_assoc]
      rw [wires_cons, List.forall_mem_cons]

end Confirmations

/-- What was received, and which packets are still unconfirmed, is a matter of which
packets came and not of their order or number.  The confirmations are those of a peer,
whatever it has received, and no walk of theirs overflows. -/
theorem readAll_insensitive (h : Runs.Reachable (Initial config) step Runs.anyMove c)
    (hopen : c.udpConnected = true) (hcount : 1 ≤ c.confirmationResendCount) :
    (∀ reads reads' : List (Packet × Io), Continues c.toSession (wires reads) →
      (∀ p, p ∈ wires reads ↔ p ∈ wires reads') →
        SameReceived (c.readAll reads) (c.readAll reads')) ∧
      ∀ (peerConfig : Config) (peer : Connection),
        Runs.Reachable (Initial peerConfig) step Runs.anyMove peer →
        ∀ reads reads' : List (Packet × Io), (∀ p ∈ wires reads, p ∈ peer.confirmations) →
          (∀ p, p ∈ wires reads ↔ p ∈ wires reads') →
            (∀ p ∈ wires reads, p.confirmedRangesChecked.isSome = true) ∧
              (c.readAll reads).udpSentPackets = (c.readAll reads').udpSentPackets ∧
              (c.readAll reads).udpPacketsToSendCount =
                (c.readAll reads').udpPacketsToSendCount := by
  refine ⟨fun reads reads' hdrawn hsame => sameReceived_readAll h hopen hcount hdrawn hsame, ?_⟩
  intro peerConfig peer hpeer reads reads' hproduced hsame
  have hpeerSound : peer.toEndpoint.Sound := sound hpeer
  have hsound : c.toEndpoint.Sound := sound h
  have hcounted : c.Counted := hsound.counting hopen
  have htype : ∀ p ∈ wires reads, p.getType = .confirmation :=
    fun p hp => hpeerSound.acknowledging.confirmation_type p (hproduced p hp)
  obtain ⟨hcountedX, hsentX⟩ := readAll_confirmations hsound hcounted htype
  obtain ⟨hcountedY, hsentY⟩ := readAll_confirmations hsound hcounted fun p hp =>
    htype p ((hsame p).mpr hp)
  have hsent : (c.readAll reads).udpSentPackets = (c.readAll reads').udpSentPackets := by
    apply Std.ExtTreeMap.ext_getElem?
    intro index
    apply Option.ext
    intro p
    rw [hsentX, hsentY]
    simp only [hsame]
  refine ⟨fun p hp => confirmsInInt hpeer p (hproduced p hp), hsent, ?_⟩
  rw [hcountedX, hcountedY, hsent]

/-- The first two packets of a stream. -/
def firstReads : List (Packet × Io) :=
  [(.datagram .hello 0 [], Io.steady 0), (.datagram .data 1 [7], Io.steady 0)]

theorem readAll_insensitive_firstReads :
    SameReceived ((fresh Config.small).readAll firstReads)
      ((fresh Config.small).readAll (firstReads.reverse ++ firstReads)) := by
  refine (readAll_insensitive (.start ⟨10, 0, Io.steady 0, rfl⟩) (by decide +kernel)
    (by decide +kernel)).1 firstReads (firstReads.reverse ++ firstReads) ?_ ?_
  · refine ⟨⟨?_, ?_, ?_, ?_, ?_⟩, ?_⟩
    · decide +kernel
    · decide +kernel
    · decide +kernel
    · decide +kernel
    · decide +kernel
    · intro p hp index q hq
      have hempty : (new Config.small 10 0 (Io.steady 0)).udpReceivedPackets = ∅ := rfl
      rw [hempty] at hq
      simp at hq
  · intro p
    simp only [firstReads, wires, List.map_cons, List.map_nil, List.reverse_cons, List.reverse_nil,
      List.nil_append, List.cons_append, List.mem_cons, List.not_mem_nil, or_false]
    tauto

/-- A closing packet is behind a Hello that is still to come. -/
def byeWaiting : Connection :=
  (play .small [.udpRead (.datagram .bye 1 []) (Io.steady 0)]).get (by decide +kernel)

def lateReads : List (Packet × Io) :=
  [(.datagram .hello 0 [], Io.steady 0), (.datagram .data 2 [7], Io.steady 0)]

/-- What waits in the buffer counts: the Bye, once it is in sequence, shuts the Data out. -/
theorem readAll_sensitive :
    ∃ (c : Connection) (reads reads' : List (Packet × Io)),
      Runs.Reachable (Initial Config.small) step Runs.anyMove c ∧
        c.udpConnected = true ∧ 1 ≤ c.confirmationResendCount ∧
        Drawn c.toSession (wires reads) ∧ (∀ p, p ∈ wires reads ↔ p ∈ wires reads') ∧
        reads.Perm reads' ∧ ¬SameReceived (c.readAll reads) (c.readAll reads') := by
  have hreach : Runs.Reachable (Initial Config.small) step Runs.anyMove byeWaiting :=
    reachable_of_play (Option.some_get _).symm
  refine ⟨byeWaiting, lateReads, lateReads.reverse, hreach, by decide +kernel, by decide +kernel,
    ⟨?_, ?_, ?_, ?_, ?_⟩, ?_, (List.reverse_perm _).symm, ?_⟩
  · decide +kernel
  · decide +kernel
  · decide +kernel
  · decide +kernel
  · decide +kernel
  · intro p
    simp [lateReads, wires, or_comm]
  · intro hsame
    have hsize : (byeWaiting.readAll lateReads).udpReceiveBufferSize =
        (byeWaiting.readAll lateReads.reverse).udpReceiveBufferSize := hsame.size_eq
    revert hsize
    decide +kernel

end Connection

end IceTunnel
