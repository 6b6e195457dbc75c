import Mathlib.Data.List.Basic
import Mathlib.Tactic.Common

/-!
Division by a polynomial over the field of two elements, as a shift register does it:
the message enters bit by bit, most significant first, and what stays in the register
is the remainder.
-/

namespace IceTunnel.ShiftRegister

variable {w : Nat} (poly : BitVec w)

/-- The register takes one bit of the message. -/
def feed (s : BitVec w) (bit : Bool) : BitVec w :=
  s <<< 1 ^^^ if s.msb ^^ bit then poly else 0#w

/-- The register takes the message. -/
def run (s : BitVec w) (bits : List Bool) : BitVec w :=
  bits.foldl (feed poly) s

/-- The first `n` bits of the register, most significant first. -/
def leading (s : BitVec w) (n : Nat) : List Bool :=
  (List.range n).map s.getMsbD

/-- The bits in which two messages differ. -/
def difference (xs ys : List Bool) : List Bool :=
  List.zipWith xor xs ys

/-- All bits in which the messages differ are among `width` consecutive ones. -/
def IsBurst (width : Nat) (xs ys : List Bool) : Prop :=
  ∃ start, ∀ i, xs[i]? ≠ ys[i]? → start ≤ i ∧ i < start + width

@[simp] theorem run_nil (s : BitVec w) : run poly s [] = s := rfl

@[simp] theorem run_cons (s : BitVec w) (bit : Bool) (bits : List Bool) :
    run poly s (bit :: bits) = run poly (feed poly s bit) bits := rfl

theorem run_append (s : BitVec w) (xs ys : List Bool) :
    run poly s (xs ++ ys) = run poly (run poly s xs) ys :=
  List.foldl_append

section Linear

variable (s t : BitVec w)

theorem feed_xor (x y : Bool) :
    feed poly (s ^^^ t) (x ^^ y) = feed poly s x ^^^ feed poly t y := by
  have hgate : (if (s ^^^ t).msb ^^ (x ^^ y) then poly else 0#w) =
      (if s.msb ^^ x then poly else 0#w) ^^^ if t.msb ^^ y then poly else 0#w := by
    rw [BitVec.msb_xor]
    cases s.msb <;> cases t.msb <;> cases x <;> cases y <;> simp
  rw [feed, feed, feed, hgate, BitVec.shiftLeft_xor_distrib]
  ac_rfl

theorem run_xor {xs ys : List Bool} (h : xs.length = ys.length) :
    run poly (s ^^^ t) (difference xs ys) = run poly s xs ^^^ run poly t ys := by
  induction xs generalizing s t ys with
  | nil =>
      obtain rfl : ys = [] := List.length_eq_zero_iff.mp h.symm
      rfl
  | cons x xs ih =>
      cases ys with
      | nil => cases h
      | cons y ys =>
          have hstep := ih (feed poly s x) (feed poly t y) (Nat.succ.inj h)
          rw [← feed_xor] at hstep
          exact hstep

end Linear

section Table

theorem leading_succ (s : BitVec w) (n : Nat) : leading s (n + 1) = s.msb :: leading (s <<< 1) n := by
  rw [leading, List.range_succ_eq_map, List.map_cons, List.map_map, BitVec.msb]
  congr 1
  apply List.map_congr_left
  intro i _
  exact (BitVec.getMsbD_shiftLeft ..).symm

theorem run_leading (s : BitVec w) (n : Nat) : run poly s (leading s n) = s <<< n := by
  induction n generalizing s with
  | zero => exact (BitVec.shiftLeft_zero s).symm
  | succ n ih =>
      have hfeed : feed poly s s.msb = s <<< 1 := by
        rw [feed, Bool.xor_self, if_neg Bool.false_ne_true, BitVec.xor_zero]
      rw [leading_succ, run_cons, hfeed, ih, ← BitVec.shiftLeft_add, Nat.add_comm]

/-- Several bits at once: the register is shifted, and what the leading bits and the
message make of an empty register is added. -/
theorem run_eq_table (s : BitVec w) (bits : List Bool) :
    run poly s bits =
      run poly 0#w (difference bits (leading s bits.length)) ^^^ s <<< bits.length := by
  have hlength : bits.length = (leading s bits.length).length := by simp [leading]
  have hsum := run_xor poly s s hlength
  rw [BitVec.xor_self, run_leading] at hsum
  rw [hsum, BitVec.xor_assoc, BitVec.xor_self, BitVec.xor_zero]

end Table

section Burst

variable {poly}

/-- No bit can be lost in a register whose polynomial has a last bit: an empty register
has seen the bits it held before, and nothing else. -/
theorem getMsbD_of_run_eq_zero (hpoly : poly.getLsbD 0 = true) {s : BitVec w} {bits : List Bool}
    (hlength : bits.length ≤ w) (h : run poly s bits = 0#w) :
    ∀ i < w, s.getMsbD i = bits.getD i false := by
  induction bits generalizing s with
  | nil =>
      intro i _
      rw [show s = 0#w from h]
      simp
  | cons bit bits ih =>
      have hw : 0 < w := Nat.lt_of_lt_of_le (Nat.succ_pos _) hlength
      rw [List.length_cons] at hlength
      have hrest := ih (by omega) h
      have hgate : (s.msb ^^ bit) = false := by
        by_contra hne
        rw [Bool.not_eq_false] at hne
        have hshifted : (s <<< 1).getMsbD (w - 1) = false := by
          rw [BitVec.getMsbD_shiftLeft, BitVec.getMsbD_of_ge _ _ (by omega)]
        have hfed : poly.getMsbD (w - 1) = true := by
          rw [BitVec.getMsbD_eq_getLsbD, Nat.sub_self, hpoly, decide_eq_true (by omega)]
          rfl
        have hlast := hrest (w - 1) (by omega)
        rw [List.getD_eq_getElem?_getD, List.getElem?_eq_none (by omega), feed, if_pos hne,
          BitVec.getMsbD_xor, hshifted, hfed] at hlast
        cases hlast
      rw [feed, hgate, if_neg Bool.false_ne_true, BitVec.xor_zero] at hrest
      intro i hi
      cases i with
      | zero => simpa [BitVec.msb] using hgate
      | succ i =>
          have hshift := hrest i (by omega)
          rw [BitVec.getMsbD_shiftLeft] at hshift
          exact hshift

theorem eq_false_of_run_eq_zero (hpoly : poly.getLsbD 0 = true) {bits : List Bool}
    (hlength : bits.length ≤ w) (h : run poly 0#w bits = 0#w) : ∀ bit ∈ bits, bit = false := by
  intro bit hbit
  obtain ⟨i, hi, rfl⟩ := List.getElem_of_mem hbit
  have hzero := getMsbD_of_run_eq_zero hpoly hlength h i (by omega)
  rw [List.getD_eq_getElem?_getD, List.getElem?_eq_getElem hi, BitVec.getMsbD_zero] at hzero
  exact hzero.symm

theorem feed_injective (hpoly : poly.getLsbD 0 = true) (hw : 0 < w) (bit : Bool) :
    Function.Injective (feed poly · bit) := by
  intro s t h
  have hzero : run poly (s ^^^ t) [false] = 0#w := by
    have hsum := feed_xor poly s t bit bit
    rw [Bool.xor_self] at hsum
    rw [run_cons, run_nil, hsum, show feed poly s bit = feed poly t bit from h, BitVec.xor_self]
  have hlength : [false].length ≤ w := hw
  have hbits := getMsbD_of_run_eq_zero hpoly hlength hzero
  apply BitVec.xor_eq_zero_iff.mp
  apply BitVec.eq_of_getMsbD_eq
  intro i hi
  rw [hbits i hi, BitVec.getMsbD_zero]
  cases i <;> rfl

theorem run_injective (hpoly : poly.getLsbD 0 = true) (hw : 0 < w) (bits : List Bool) :
    Function.Injective (run poly · bits) := by
  induction bits with
  | nil => exact Function.injective_id
  | cons bit bits ih => exact ih.comp (feed_injective hpoly hw bit)

theorem isBurst_of_agree {width : Nat} (start : Nat) {xs ys : List Bool} (hxs : xs.length ≤ start + width)
    (hys : ys.length ≤ start + width) (hagree : ∀ i < start, xs[i]? = ys[i]?) :
    IsBurst width xs ys := by
  refine ⟨start, fun i hne => ⟨?_, ?_⟩⟩
  · by_contra hlt
    exact hne (hagree i (by omega))
  · by_contra hge
    apply hne
    rw [List.getElem?_eq_none (by omega), List.getElem?_eq_none (by omega)]

/-- Two messages that differ in a burst no longer than the register leave different
remainders. -/
theorem eq_of_run_eq_of_isBurst (hpoly : poly.getLsbD 0 = true) (hw : 0 < w) {s : BitVec w}
    {xs ys : List Bool} (hlength : xs.length = ys.length) (hburst : IsBurst w xs ys)
    (h : run poly s xs = run poly s ys) : xs = ys := by
  obtain ⟨start, hburst⟩ := hburst
  have hfront : xs.take start = ys.take start := by
    apply List.ext_getElem?
    intro i
    rw [List.getElem?_take, List.getElem?_take]
    split
    · by_contra hne
      have := hburst i hne
      omega
    · rfl
  have hback : (xs.drop start).drop w = (ys.drop start).drop w := by
    apply List.ext_getElem?
    intro i
    simp only [List.drop_drop, List.getElem?_drop]
    by_contra hne
    have := hburst _ hne
    omega
  have hsplit : ∀ zs : List Bool,
      zs = zs.take start ++ ((zs.drop start).take w ++ (zs.drop start).drop w) := by
    intro zs
    rw [List.take_append_drop, List.take_append_drop]
  have hmiddle : (xs.drop start).take w = (ys.drop start).take w := by
    have hsame : ((xs.drop start).take w).length = ((ys.drop start).take w).length := by
      simp only [List.length_take, List.length_drop, hlength]
    rw [hsplit xs, hsplit ys, ← hfront, ← hback, run_append, run_append, run_append, run_append] at h
    have hrun := run_injective hpoly hw _ h
    have hzero := run_xor poly (run poly s (xs.take start)) (run poly s (xs.take start)) hsame
    rw [hrun, BitVec.xor_self, BitVec.xor_self] at hzero
    have hfalse := eq_false_of_run_eq_zero hpoly
      (by simp only [difference, List.length_zipWith, List.length_take]; omega) hzero
    apply List.ext_getElem hsame
    intro i hi hi'
    have hmem : xor ((xs.drop start).take w)[i] ((ys.drop start).take w)[i] = false := by
      apply hfalse
      rw [difference, List.mem_iff_getElem]
      exact ⟨i, by rw [List.length_zipWith]; omega, by rw [List.getElem_zipWith]⟩
    exact bne_eq_false_iff_eq.mp hmem
  rw [hsplit xs, hsplit ys, hfront, hmiddle, hback]

end Burst

end IceTunnel.ShiftRegister
