import Mathlib.Data.List.Basic
import Mathlib.Tactic.Common
import Mathlib.Tactic.Ring

/-!
Numbers as groups of seven bits, most significant group first, where every
group but the last carries a continuation bit.
-/

namespace IceTunnel.Base128

/-- The lowest `n` groups of `a`. -/
def encode (a : Nat) : Nat → List UInt8
  | 0 => []
  | n + 1 =>
      UInt8.ofNat (a / 128 ^ n % 128 + if n = 0 then 0 else 128) :: encode a n

/-- The number at the front of `bytes`, behind the groups already collected in
`acc`, and the bytes after it. -/
def decode (acc : Nat) : List UInt8 → Option (Nat × List UInt8)
  | [] => none
  | byte :: bytes =>
      if byte.toNat < 128 then some (acc * 128 + byte.toNat % 128, bytes)
      else decode (acc * 128 + byte.toNat % 128) bytes

/-- The number that `limit + 1` groups spell at most, behind the groups collected in
`acc`, and the bytes after it if it ends there. -/
def read (acc limit : Nat) : List UInt8 → Nat × Option (List UInt8)
  | [] => (acc, none)
  | byte :: bytes =>
      let acc := acc * 128 + byte.toNat % 128
      if byte.toNat < 128 then (acc, some bytes)
      else
        match limit with
        | 0 => (acc, none)
        | limit + 1 => read acc limit bytes
termination_by structural bytes => bytes

@[simp] theorem encode_length (a n : Nat) : (encode a n).length = n := by
  induction n with
  | zero => rfl
  | succ n ih => simp [encode, ih]

theorem decode_encode_append (a n acc : Nat) (rest : List UInt8) :
    decode acc (encode a (n + 1) ++ rest) =
      some (acc * 128 ^ (n + 1) + a % 128 ^ (n + 1), rest) := by
  induction n generalizing acc with
  | zero =>
      have hbyte : (UInt8.ofNat (a % 128)).toNat = a % 128 := by
        rw [UInt8.toNat_ofNat']
        omega
      simp only [encode, pow_zero, Nat.div_one, if_true, Nat.add_zero, List.cons_append,
        List.nil_append, decode, hbyte, if_pos (Nat.mod_lt a (by decide : 0 < 128)), Nat.mod_mod]
      rfl
  | succ n ih =>
      have hgroup : a / 128 ^ (n + 1) % 128 < 128 := Nat.mod_lt _ (by decide)
      have hbyte : (UInt8.ofNat (a / 128 ^ (n + 1) % 128 + 128)).toNat =
          a / 128 ^ (n + 1) % 128 + 128 := by
        rw [UInt8.toNat_ofNat']
        omega
      rw [encode, List.cons_append, decode, if_neg (Nat.succ_ne_zero n), hbyte,
        if_neg (by omega), ih]
      have hmod : (a / 128 ^ (n + 1) % 128 + 128) % 128 = a / 128 ^ (n + 1) % 128 := by omega
      have hsplit : a % 128 ^ (n + 1 + 1) =
          128 ^ (n + 1) * (a / 128 ^ (n + 1) % 128) + a % 128 ^ (n + 1) := by
        rw [pow_succ 128 (n + 1), Nat.mod_mul, Nat.add_comm]
      rw [hmod, hsplit]
      congr 2
      ring

theorem length_lt_of_decode {acc value : Nat} {bytes rest : List UInt8}
    (h : decode acc bytes = some (value, rest)) : rest.length < bytes.length := by
  induction bytes generalizing acc with
  | nil => simp [decode] at h
  | cons byte bytes ih =>
      rw [decode] at h
      split at h
      · simp only [Option.some.injEq, Prod.mk.injEq] at h
        simp [h.2]
      · have := ih h
        simp only [List.length_cons]
        omega

section Read

variable {byte : UInt8}

theorem read_last (h : byte.toNat < 128) (acc limit : Nat) (bytes : List UInt8) :
    read acc limit (byte :: bytes) = (acc * 128 + byte.toNat % 128, some bytes) :=
  if_pos h

theorem read_cut (h : ¬byte.toNat < 128) (acc : Nat) (bytes : List UInt8) :
    read acc 0 (byte :: bytes) = (acc * 128 + byte.toNat % 128, none) :=
  if_neg h

theorem read_more (h : ¬byte.toNat < 128) (acc limit : Nat) (bytes : List UInt8) :
    read acc (limit + 1) (byte :: bytes) = read (acc * 128 + byte.toNat % 128) limit bytes :=
  if_neg h

theorem le_read (acc limit : Nat) (bytes : List UInt8) : acc ≤ (read acc limit bytes).1 := by
  induction bytes generalizing acc limit with
  | nil => exact le_refl acc
  | cons byte bytes ih =>
      by_cases hlast : byte.toNat < 128
      · rw [read_last hlast]
        simp only
        omega
      · cases limit with
        | zero =>
            rw [read_cut hlast]
            simp only
            omega
        | succ limit =>
            have hle := ih (acc * 128 + byte.toNat % 128) limit
            rw [read_more hlast]
            omega

theorem le_read_cons (acc limit : Nat) (byte : UInt8) (bytes : List UInt8) :
    acc * 128 + byte.toNat % 128 ≤ (read acc limit (byte :: bytes)).1 := by
  by_cases hlast : byte.toNat < 128
  · rw [read_last hlast]
  · cases limit with
    | zero => rw [read_cut hlast]
    | succ limit =>
        rw [read_more hlast]
        exact le_read _ _ _

theorem decode_of_read {acc limit value : Nat} {bytes rest : List UInt8}
    (h : read acc limit bytes = (value, some rest)) : decode acc bytes = some (value, rest) := by
  induction bytes generalizing acc limit with
  | nil => cases h
  | cons byte bytes ih =>
      rw [decode]
      by_cases hlast : byte.toNat < 128
      · rw [read_last hlast, Prod.mk.injEq, Option.some.injEq] at h
        rw [if_pos hlast, h.1, h.2]
      · rw [if_neg hlast]
        cases limit with
        | zero =>
            rw [read_cut hlast] at h
            cases h
        | succ limit =>
            rw [read_more hlast] at h
            exact ih h

theorem read_of_decode {acc limit value : Nat} {bytes rest : List UInt8}
    (h : decode acc bytes = some (value, rest)) (hlength : bytes.length ≤ rest.length + limit + 1) :
    read acc limit bytes = (value, some rest) := by
  induction bytes generalizing acc limit with
  | nil => cases h
  | cons byte bytes ih =>
      rw [decode] at h
      by_cases hlast : byte.toNat < 128
      · rw [if_pos hlast, Option.some.injEq, Prod.mk.injEq] at h
        rw [read_last hlast, h.1, h.2]
      · rw [if_neg hlast] at h
        have hshort := length_lt_of_decode h
        rw [List.length_cons] at hlength
        obtain ⟨limit, rfl⟩ : ∃ n, limit = n + 1 := ⟨limit - 1, by omega⟩
        rw [read_more hlast]
        exact ih h (by omega)

end Read

theorem exists_append_of_decode {acc value : Nat} {bytes rest : List UInt8}
    (h : decode acc bytes = some (value, rest)) : ∃ groups, groups ≠ [] ∧ bytes = groups ++ rest := by
  induction bytes generalizing acc with
  | nil => cases h
  | cons byte bytes ih =>
      rw [decode] at h
      split at h
      · simp only [Option.some.injEq, Prod.mk.injEq] at h
        exact ⟨[byte], List.cons_ne_nil _ _, by rw [h.2]; rfl⟩
      · obtain ⟨groups, -, heq⟩ := ih h
        exact ⟨byte :: groups, List.cons_ne_nil _ _, by rw [heq]; rfl⟩

end IceTunnel.Base128
