import Mathlib.Data.Int.Order.Basic
import Mathlib.Data.List.Basic

namespace IceTunnel.Decimals

/-- `isspace` in the C locale. -/
def isSpace (c : Char) : Bool :=
  c == ' ' || ('\t' ≤ c && c ≤ '\r')

/-- The digits at the beginning of a text, and the text behind them. -/
def scanDigits (text : List Char) : Option (Nat × List Char) :=
  let digits := text.takeWhile Char.isDigit
  if digits.isEmpty then none
  else some (Nat.ofDigitChars 10 digits 0, text.dropWhile Char.isDigit)

/-- A number with white space and a sign before it. -/
def scan (text : List Char) : Option (Int × List Char) :=
  let text := text.dropWhile isSpace
  if text.head? = some '-' then
    (scanDigits text.tail).map fun (value, rest) => (-(value : Int), rest)
  else
    (scanDigits (if text.head? = some '+' then text.tail else text)).map
      fun (value, rest) => ((value : Int), rest)

/-- Numbers with a separator between them, at most so many.  What is no number ends it. -/
def scanFields (separator : Char) : Nat → List Char → List Int
  | 0, _ => []
  | count + 1, text =>
      match scan text with
      | none => []
      | some (value, rest) =>
          if rest.head? = some separator then value :: scanFields separator count rest.tail
          else [value]

/-- The text does not go on with a digit. -/
def Ends (text : List Char) : Prop :=
  ∀ c ∈ text.head?, c.isDigit = false

variable {n : Nat} {rest : List Char}

theorem ends_nil : Ends [] :=
  nofun

theorem ends_cons {c : Char} (h : c.isDigit = false) (text : List Char) : Ends (c :: text) := by
  rintro _ ⟨⟩
  exact h

theorem scanDigits_toDigits (hrest : Ends rest) :
    scanDigits (Nat.toDigits 10 n ++ rest) = some (n, rest) := by
  have hdigits : ∀ c ∈ Nat.toDigits 10 n, c.isDigit = true := fun c hc =>
    Nat.isDigit_of_mem_toDigits (by decide) (by decide) hc
  have htake : rest.takeWhile Char.isDigit = [] := by
    cases rest with
    | nil => rfl
    | cons c text => exact List.takeWhile_cons_of_neg (by rw [hrest c rfl]; exact Bool.false_ne_true)
  have hdrop : rest.dropWhile Char.isDigit = rest := by
    cases rest with
    | nil => rfl
    | cons c text => exact List.dropWhile_cons_of_neg (by rw [hrest c rfl]; exact Bool.false_ne_true)
  have hne : (Nat.toDigits 10 n).isEmpty = false := by
    rw [List.isEmpty_eq_false_iff]
    exact Nat.toDigits_ne_nil
  simp only [scanDigits]
  rw [List.takeWhile_append_of_pos hdigits, List.dropWhile_append_of_pos hdigits, htake, hdrop,
    List.append_nil, hne, Nat.ofDigitChars_ten_toDigits]
  rfl

theorem isSpace_of_isDigit {c : Char} (h : c.isDigit = true) : isSpace c = false := by
  rw [Char.isDigit_iff_toNat] at h
  rw [← Bool.not_eq_true, isSpace]
  simp only [Bool.or_eq_true, beq_iff_eq, Bool.and_eq_true, decide_eq_true_eq,
    Char.le_def, UInt32.le_iff_toNat_le, not_or, not_and]
  constructor
  · rintro rfl
    exact absurd h.1 (by decide)
  · intro _ hle
    exact absurd (Nat.le_trans h.1 hle) (by decide)

theorem scan_toDigits (hrest : Ends rest) :
    scan (Nat.toDigits 10 n ++ rest) = some ((n : Int), rest) := by
  obtain ⟨c, text, htext⟩ := List.exists_cons_of_ne_nil (Nat.toDigits_ne_nil (n := n) (b := 10))
  have hdigit : c.isDigit = true := by
    refine Nat.isDigit_of_mem_toDigits (b := 10) (n := n) (by decide) (by decide) ?_
    rw [htext]
    exact List.mem_cons_self
  have hminus : c ≠ '-' := by
    rintro rfl
    exact absurd hdigit (by decide)
  have hplus : c ≠ '+' := by
    rintro rfl
    exact absurd hdigit (by decide)
  have hdropped : (Nat.toDigits 10 n ++ rest).dropWhile isSpace = Nat.toDigits 10 n ++ rest := by
    rw [htext, List.cons_append]
    exact List.dropWhile_cons_of_neg (by rw [isSpace_of_isDigit hdigit]; exact Bool.false_ne_true)
  have hhead : (Nat.toDigits 10 n ++ rest).head? = some c := by
    rw [htext, List.cons_append, List.head?_cons]
  simp only [scan]
  rw [hdropped, hhead, if_neg (by simpa using hminus), if_neg (by simpa using hplus),
    scanDigits_toDigits hrest]
  rfl

theorem scanFields_intercalate (separator : Char) (hseparator : separator.isDigit = false)
    (ns : List Nat) :
    scanFields separator ns.length ([separator].intercalate (ns.map (Nat.toDigits 10))) =
      ns.map Int.ofNat := by
  induction ns with
  | nil => rfl
  | cons n ns ih =>
      cases ns with
      | nil =>
          have hscan := scan_toDigits (n := n) ends_nil
          rw [List.append_nil] at hscan
          simp only [List.length_singleton, List.map_cons, List.map_nil,
            List.intercalate_singleton, scanFields, hscan, List.head?_nil, reduceCtorEq, if_false]
          rfl
      | cons m ns =>
          have hscan := fun text => scan_toDigits (n := n) (ends_cons hseparator text)
          simp only [List.map_cons, List.intercalate_cons_cons, List.length_cons] at ih ⊢
          rw [scanFields]
          simp only [List.append_assoc, List.singleton_append, hscan, List.head?_cons, if_true,
            List.tail_cons, ih]
          rfl

end IceTunnel.Decimals
