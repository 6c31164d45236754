import Mathlib.Data.Nat.Bitwise
import Mathlib.Tactic.Common
import Mathlib.Tactic.Ring

/-! # Numbers in groups of seven bits

A number is written lowest group first, a byte for each group; every byte but the last has its
high bit set. `IsNumber` recognises such bytes whether or not they are the shortest ones, so a
text of several numbers can be taken apart in one way only.
-/

namespace Base128

/-- The shortest bytes of a number. -/
def encode (number : ℕ) : List UInt8 :=
  if number < 128 then [UInt8.ofNat number]
  else UInt8.ofNat (number % 128 + 128) :: encode (number / 128)
termination_by number
decreasing_by omega

/-- Bytes of one number: the last one, and only the last one, is below 128. -/
def IsNumber : List UInt8 → Prop
  | [] => False
  | byte :: rest => if byte.toNat < 128 then rest = [] else IsNumber rest

instance decidableIsNumber : DecidablePred IsNumber
  | [] => inferInstanceAs (Decidable False)
  | byte :: rest =>
    if low : byte.toNat < 128 then
      decidable_of_iff (rest = []) (by simp [IsNumber, low])
    else
      @decidable_of_iff _ (IsNumber rest) (by simp [IsNumber, low]) (decidableIsNumber rest)

/-- The number that the groups of some bytes make up. -/
def value : List UInt8 → ℕ
  | [] => 0
  | byte :: rest => byte.toNat % 128 + 128 * value rest

theorem encode_of_lt {number : ℕ} (low : number < 128) : encode number = [UInt8.ofNat number] := by
  rw [encode, if_pos low]

theorem encode_of_le {number : ℕ} (high : 128 ≤ number) :
    encode number = UInt8.ofNat (number % 128 + 128) :: encode (number / 128) := by
  rw [encode, if_neg (by omega)]

theorem isNumber_cons_of_lt {byte : UInt8} {rest : List UInt8} (low : byte.toNat < 128) :
    IsNumber (byte :: rest) ↔ rest = [] := by
  simp [IsNumber, low]

theorem isNumber_cons_of_le {byte : UInt8} {rest : List UInt8} (high : 128 ≤ byte.toNat) :
    IsNumber (byte :: rest) ↔ IsNumber rest := by
  simp [IsNumber, show ¬byte.toNat < 128 by omega]

theorem IsNumber.ne_nil {bytes : List UInt8} (number : IsNumber bytes) : bytes ≠ [] := by
  intro empty
  subst empty
  exact number

theorem IsNumber.length_pos {bytes : List UInt8} (number : IsNumber bytes) : 0 < bytes.length :=
  List.length_pos_iff.mpr number.ne_nil

theorem toNat_ofNat_of_lt {number : ℕ} (fits : number < 256) :
    (UInt8.ofNat number).toNat = number := by
  rw [UInt8.toNat_ofNat']
  exact Nat.mod_eq_of_lt fits

theorem isNumber_encode (number : ℕ) : IsNumber (encode number) := by
  induction number using Nat.strongRecOn with
  | ind number ih =>
    by_cases low : number < 128
    · rw [encode_of_lt low,
        isNumber_cons_of_lt (by rw [toNat_ofNat_of_lt (by omega)]; exact low)]
    · rw [encode_of_le (by omega),
        isNumber_cons_of_le (by rw [toNat_ofNat_of_lt (by omega)]; omega)]
      exact ih _ (by omega)

theorem value_encode (number : ℕ) : value (encode number) = number := by
  induction number using Nat.strongRecOn with
  | ind number ih =>
    by_cases low : number < 128
    · rw [encode_of_lt low, value, value, toNat_ofNat_of_lt (by omega)]
      omega
    · rw [encode_of_le (by omega), value, toNat_ofNat_of_lt (by omega), ih _ (by omega)]
      omega

/-- A number below `128 ^ groups` needs at most that many bytes. -/
theorem length_encode_le {number groups : ℕ} (fits : number < 128 ^ (groups + 1)) :
    (encode number).length ≤ groups + 1 := by
  induction groups generalizing number with
  | zero =>
    rw [encode_of_lt (by omega)]
    simp
  | succ groups ih =>
    by_cases low : number < 128
    · rw [encode_of_lt low]
      simp
    · rw [encode_of_le (by omega), List.length_cons]
      have smaller : number / 128 < 128 ^ (groups + 1) := by
        apply Nat.div_lt_of_lt_mul
        rw [← pow_succ']
        exact fits
      have short := ih smaller
      omega

/-! ## Groups in 64-bit words -/

theorem toNat_and_127 (byte : UInt8) : (byte &&& 0x7F).toUInt64.toNat = byte.toNat % 128 := by
  rw [UInt8.toNat_toUInt64, UInt8.toNat_and]
  exact Nat.and_two_pow_sub_one_eq_mod byte.toNat 7

theorem and_128_eq_zero_iff (byte : UInt8) : byte &&& 0x80 = 0 ↔ byte.toNat < 128 := by
  have small := byte.toNat_lt
  have bit : byte.toNat &&& 2 ^ 7 = byte.toNat / 2 ^ 7 % 2 * 2 ^ 7 := by
    rw [Nat.and_two_pow, Nat.toNat_testBit]
  rw [← UInt8.toNat_inj, UInt8.toNat_and]
  change byte.toNat &&& 2 ^ 7 = 0 ↔ _
  rw [bit]
  omega

/-- Putting a group above the bits that are set adds it, up to the bits that fall off. -/
theorem toNat_or_shiftLeft {word group : UInt64} {shift : ℕ} (fits : shift < 64)
    (low : word.toNat < 2 ^ shift) :
    (word ||| (group <<< UInt64.ofNat shift)).toNat =
      (word.toNat + 2 ^ shift * group.toNat) % 2 ^ 64 := by
  have amount : (UInt64.ofNat shift).toNat % 64 = shift := by
    rw [UInt64.toNat_ofNat']
    omega
  have wide : (2 : ℕ) ^ 64 = 2 ^ shift * 2 ^ (64 - shift) := by
    rw [← pow_add, show shift + (64 - shift) = 64 by omega]
  have kept : word.toNat % 2 ^ shift = word.toNat := Nat.mod_eq_of_lt low
  rw [UInt64.toNat_or, UInt64.toNat_shiftLeft, amount, Nat.shiftLeft_eq, Nat.or_comm, wide,
    Nat.mul_comm group.toNat, Nat.mul_mod_mul_left, ← Nat.two_pow_add_eq_or_of_lt low,
    Nat.mod_mul, Nat.add_mul_mod_self_left, kept, Nat.add_mul_div_left _ _ (Nat.two_pow_pos shift),
    Nat.div_eq_of_lt low, Nat.zero_add, Nat.add_comm]

end Base128
