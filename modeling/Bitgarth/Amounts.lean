import Mathlib.Algebra.Order.Ring.Int
import Mathlib.Tactic.Common
import Bitgarth.Foundation.Fallible

/-! # Amounts, checked arithmetic and split storage

An unsigned amount is a 128-bit number of smallest units. The database keeps it in
two signed columns, the quotient and the remainder by `globalSplitDivisor`;
`decodeUnsigned_encodeUnsigned` reads back what was written.
-/

namespace Bitgarth.Amounts

/-- A database error, known by its message. -/
structure DbError where
  message : String
deriving DecidableEq, Repr

def i64Min : ℤ := -9223372036854775808
def i64Max : ℤ := 9223372036854775807
def i128Min : ℤ := -170141183460469231731687303715884105728
def i128Max : ℤ := 170141183460469231731687303715884105727
def u128Max : ℕ := 340282366920938463463374607431768211455

/-- `i128::checked_add`. -/
def checkedAdd (left right : ℤ) : Option ℤ :=
  if i128Min ≤ left + right ∧ left + right ≤ i128Max then some (left + right) else none

/-- `i128::checked_sub`. -/
def checkedSub (left right : ℤ) : Option ℤ :=
  if i128Min ≤ left - right ∧ left - right ≤ i128Max then some (left - right) else none

theorem checkedAdd_eq_some {left right total : ℤ} :
    checkedAdd left right = some total ↔
      total = left + right ∧ i128Min ≤ total ∧ total ≤ i128Max := by
  unfold checkedAdd
  split <;> rename_i bounded
  · simp only [Option.some.injEq]
    constructor
    · rintro rfl
      exact ⟨rfl, bounded⟩
    · rintro ⟨rfl, _⟩
      rfl
  · simp only [reduceCtorEq, false_iff]
    rintro ⟨rfl, inside⟩
    exact bounded inside

theorem checkedSub_eq_some {left right total : ℤ} :
    checkedSub left right = some total ↔
      total = left - right ∧ i128Min ≤ total ∧ total ≤ i128Max := by
  unfold checkedSub
  split <;> rename_i bounded
  · simp only [Option.some.injEq]
    constructor
    · rintro rfl
      exact ⟨rfl, bounded⟩
    · rintro ⟨rfl, _⟩
      rfl
  · simp only [reduceCtorEq, false_iff]
    rintro ⟨rfl, inside⟩
    exact bounded inside

/-- A number of smallest units that fits in 128 bits. -/
structure UnsignedAmount where
  value : ℕ
  fits : value ≤ u128Max
deriving DecidableEq, Repr

namespace UnsignedAmount

/-- The zero amount. -/
def zero : UnsignedAmount := ⟨0, Nat.zero_le _⟩

/-- `u128::try_from` on a signed number, wrapped as an amount. -/
def tryFromSigned (value : ℤ) : Option UnsignedAmount :=
  if fits : 0 ≤ value ∧ value.toNat ≤ u128Max then some ⟨value.toNat, fits.2⟩ else none

/-- `i128::try_from` on the value of an amount. -/
def trySigned (amount : UnsignedAmount) : Option ℤ :=
  if (amount.value : ℤ) ≤ i128Max then some amount.value else none

@[ext]
theorem ext {left right : UnsignedAmount} (same : left.value = right.value) : left = right := by
  cases left
  cases right
  cases same
  rfl

@[simp]
theorem zero_value : zero.value = 0 := rfl

theorem tryFromSigned_eq_some {value : ℤ} {amount : UnsignedAmount} :
    tryFromSigned value = some amount ↔ (amount.value : ℤ) = value := by
  unfold tryFromSigned
  split <;> rename_i fits
  · simp only [Option.some.injEq]
    constructor
    · rintro rfl
      exact Int.toNat_of_nonneg fits.1
    · intro same
      ext
      simp only [← same, Int.toNat_natCast]
  · simp only [reduceCtorEq, false_iff]
    rintro rfl
    exact fits ⟨Int.natCast_nonneg _, by simpa using amount.fits⟩

theorem tryFromSigned_isSome {value : ℤ} (nonnegative : 0 ≤ value) (bounded : value ≤ i128Max) :
    ∃ amount, tryFromSigned value = some amount := by
  refine ⟨⟨value.toNat, ?_⟩, tryFromSigned_eq_some.mpr (Int.toNat_of_nonneg nonnegative)⟩
  unfold i128Max at bounded
  unfold u128Max
  omega

theorem trySigned_eq_some {amount : UnsignedAmount} {value : ℤ} :
    amount.trySigned = some value ↔ value = amount.value ∧ value ≤ i128Max := by
  unfold trySigned
  split <;> rename_i bounded
  · simp only [Option.some.injEq]
    constructor
    · rintro rfl
      exact ⟨rfl, bounded⟩
    · rintro ⟨rfl, _⟩
      rfl
  · simp only [reduceCtorEq, false_iff]
    rintro ⟨rfl, inside⟩
    exact bounded inside

end UnsignedAmount

/-! ## Split storage -/

inductive AmountError where
  | negativeNotAllowed (value : ℤ)
  | parseError (input reason : String)
  | invalidSplitHi (hi : ℤ)
  | invalidSplitLo (lo divisor : ℤ)
  | overflow
deriving DecidableEq, Repr

/-- The text an amount error displays. -/
def AmountError.display : AmountError → String
  | negativeNotAllowed value => "amount must be non-negative, got " ++ toString value
  | parseError input reason => "failed to parse amount '" ++ input ++ "': " ++ reason
  | invalidSplitHi hi => "split hi must be non-negative, got " ++ toString hi
  | invalidSplitLo lo divisor =>
    "split lo must be in range [0, " ++ toString divisor ++ "), got " ++ toString lo
  | overflow => "amount overflow"

def globalSplitDivisor : ℤ := 1000000000000000000

/-- The two stored columns of an amount. -/
structure AmountSplitParts where
  hi : ℤ
  lo : ℤ
deriving DecidableEq, Repr

/-- `i64::try_from` on a part of an amount. -/
def tryI64 (value : ℤ) : Except AmountError ℤ :=
  if i64Min ≤ value ∧ value ≤ i64Max then .ok value else .error .overflow

/-- Quotient and remainder by the divisor, each in a signed 64-bit column. -/
def encodeMagnitude (magnitude : ℕ) : Except AmountError AmountSplitParts := do
  let hi ← tryI64 (magnitude / globalSplitDivisor)
  let lo ← tryI64 (magnitude % globalSplitDivisor)
  return { hi, lo }

/-- `AmountSplitConfig::encode_unsigned` at the global divisor. -/
def encodeUnsigned (amount : UnsignedAmount) : Except AmountError AmountSplitParts :=
  encodeMagnitude amount.value

/-- Reassemble an amount from its two columns. -/
def decodeUnsigned (hi lo : ℤ) : Except AmountError UnsignedAmount :=
  if hi < 0 then
    .error (.invalidSplitHi hi)
  else if ¬ (0 ≤ lo ∧ lo < globalSplitDivisor) then
    .error (.invalidSplitLo lo globalSplitDivisor)
  else
    match UnsignedAmount.tryFromSigned (hi * globalSplitDivisor + lo) with
    | some amount => .ok amount
    | none => .error .overflow

/-- `split_unsigned_amount`, naming the field in its error. -/
def splitUnsignedAmount (amount : UnsignedAmount) (fieldName : String) :
    Except DbError AmountSplitParts :=
  (encodeUnsigned amount).mapError fun err =>
    ⟨"Failed to split " ++ fieldName ++ ": " ++ err.display⟩

/-- `split_signed_balance_delta`: the magnitude of a delta and whether it is negative. -/
def splitSignedBalanceDelta (delta : ℤ) : Except DbError (AmountSplitParts × Bool) := do
  let parts ← (encodeMagnitude delta.natAbs).mapError fun err =>
    ⟨"Failed to split balance_delta: " ++ err.display⟩
  return (parts, delta < 0)

/-- `parse_split_amount`, naming the field in its error. -/
def parseSplitAmount (hi lo : ℤ) (fieldName : String) : Except DbError UnsignedAmount :=
  (decodeUnsigned hi lo).mapError fun err =>
    ⟨"Invalid " ++ fieldName ++ " split amount from DB: " ++ err.display⟩

theorem tryI64_eq_ok {value part : ℤ} :
    tryI64 value = .ok part ↔ part = value ∧ i64Min ≤ value ∧ value ≤ i64Max := by
  unfold tryI64
  split <;> rename_i bounded
  · simp only [Except.ok.injEq]
    exact ⟨fun same => ⟨same.symm, bounded⟩, fun found => found.1.symm⟩
  · simp only [reduceCtorEq, false_iff]
    exact fun found => bounded found.2

theorem encodeUnsigned_eq_ok {amount : UnsignedAmount} {parts : AmountSplitParts}
    (encoded : encodeUnsigned amount = .ok parts) :
    parts.hi = amount.value / globalSplitDivisor ∧
      parts.lo = amount.value % globalSplitDivisor := by
  unfold encodeUnsigned encodeMagnitude at encoded
  obtain ⟨hi, hiFits, encoded⟩ := Fallible.bind_eq_ok.mp encoded
  obtain ⟨lo, loFits, encoded⟩ := Fallible.bind_eq_ok.mp encoded
  rw [Fallible.pure_eq_ok] at encoded
  subst encoded
  exact ⟨(tryI64_eq_ok.mp hiFits).1, (tryI64_eq_ok.mp loFits).1⟩

/-- **Split storage reads back what it wrote.** -/
theorem decodeUnsigned_encodeUnsigned {amount : UnsignedAmount} {parts : AmountSplitParts}
    (encoded : encodeUnsigned amount = .ok parts) :
    decodeUnsigned parts.hi parts.lo = .ok amount := by
  obtain ⟨hiEq, loEq⟩ := encodeUnsigned_eq_ok encoded
  unfold globalSplitDivisor at hiEq loEq
  have hiNonnegative : 0 ≤ parts.hi := by omega
  have loBounds : 0 ≤ parts.lo ∧ parts.lo < globalSplitDivisor := by
    unfold globalSplitDivisor
    omega
  have whole : parts.hi * globalSplitDivisor + parts.lo = amount.value := by
    unfold globalSplitDivisor
    omega
  have parsed : UnsignedAmount.tryFromSigned (parts.hi * globalSplitDivisor + parts.lo) =
      some amount := UnsignedAmount.tryFromSigned_eq_some.mpr whole.symm
  unfold decodeUnsigned
  rw [if_neg (not_lt.mpr hiNonnegative), if_neg (not_not.mpr loBounds), parsed]

theorem parseSplitAmount_splitUnsignedAmount {amount : UnsignedAmount}
    {parts : AmountSplitParts} {writtenField readField : String}
    (written : splitUnsignedAmount amount writtenField = .ok parts) :
    parseSplitAmount parts.hi parts.lo readField = .ok amount := by
  have encoded := Fallible.mapError_eq_ok.mp written
  exact Fallible.mapError_eq_ok.mpr (decodeUnsigned_encodeUnsigned encoded)

end Bitgarth.Amounts
