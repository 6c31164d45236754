import Bitgarth.Foundation.TwoLimbs
import Bitgarth.Store.LedgerBuild

/-! # Split amounts

An amount is kept in two signed 64-bit columns as two limbs to the base `globalSplitDivisor`. An
amount that is split is read back, and columns that are read split into themselves, so the pairs
are ordered as the amounts are. A signed delta keeps its magnitude this way beside a sign. Columns
summed each on its own are read as the sum of the amounts, unless that sum itself does not split.
-/

namespace Bitgarth.Store

open Amounts Fallible

/-- Two columns of signed 64-bit integers. -/
structure StoredSplit where
  hi : ℤ
  lo : ℤ
  hiFits : i64Min ≤ hi ∧ hi ≤ i64Max
  loFits : i64Min ≤ lo ∧ lo ≤ i64Max

/-- `signed_balance_delta_from_split`: a signed delta from its magnitude and its sign. -/
def signedBalanceDeltaFromSplit (hi lo : ℤ) (negative : Bool) : Except DbError ℤ := do
  let magnitude ← parseSplitAmount hi lo "balance_delta"
  let raw := magnitude.value
  if negative = true ∧ (raw : ℤ) = i128Max + 1 then
    return i128Min
  match magnitude.trySigned with
  | some signed => return if negative = true then -signed else signed
  | none => .error ⟨"balance_delta magnitude exceeds i128 range"⟩

theorem globalSplitDivisor_pos : 0 < globalSplitDivisor := by decide

/-! ## One pair -/

section Pair

variable {amount other : UnsignedAmount} {hi lo otherHi otherLo : ℤ}

theorem decodeUnsigned_eq_ok_iff :
    decodeUnsigned hi lo = .ok amount ↔ 0 ≤ hi ∧ TwoLimbs.Reduced globalSplitDivisor lo ∧
      (amount.value : ℤ) = TwoLimbs.value globalSplitDivisor hi lo := by
  unfold decodeUnsigned
  by_cases negative : hi < 0
  · rw [if_pos negative]
    simp only [reduceCtorEq, false_iff]
    exact fun ⟨nonnegative, _⟩ => absurd negative (not_lt.mpr nonnegative)
  rw [if_neg negative]
  by_cases reduced : 0 ≤ lo ∧ lo < globalSplitDivisor
  · rw [if_neg (not_not.mpr reduced)]
    have isValue := @UnsignedAmount.tryFromSigned_eq_some
      (hi * globalSplitDivisor + lo) amount
    constructor
    · intro decoded
      refine ⟨not_lt.mp negative, reduced, isValue.mp ?_⟩
      split at decoded
      · rename_i found parsed
        rw [parsed, Except.ok.inj decoded]
      · cases decoded
    · rintro ⟨_, _, same⟩
      rw [isValue.mpr same]
  · rw [if_pos reduced]
    simp only [reduceCtorEq, false_iff]
    exact fun ⟨_, inside, _⟩ => reduced inside

theorem parseSplitAmount_eq_ok_iff {fieldName : String} :
    parseSplitAmount hi lo fieldName = .ok amount ↔
      0 ≤ hi ∧ TwoLimbs.Reduced globalSplitDivisor lo ∧
        (amount.value : ℤ) = TwoLimbs.value globalSplitDivisor hi lo :=
  mapError_eq_ok.trans decodeUnsigned_eq_ok_iff

theorem encodeMagnitude_eq_ok_iff {magnitude : ℕ} {parts : AmountSplitParts} :
    encodeMagnitude magnitude = .ok parts ↔
      (magnitude : ℤ) / globalSplitDivisor ≤ i64Max ∧
        parts = { hi := magnitude / globalSplitDivisor, lo := magnitude % globalSplitDivisor } := by
  have reduced : TwoLimbs.Reduced globalSplitDivisor (magnitude % globalSplitDivisor) :=
    TwoLimbs.reduced_emod globalSplitDivisor_pos
  have nonnegative : 0 ≤ (magnitude : ℤ) / globalSplitDivisor :=
    Int.ediv_nonneg (Int.natCast_nonneg _) globalSplitDivisor_pos.le
  have below : globalSplitDivisor ≤ i64Max := by decide
  have least : i64Min ≤ 0 := by decide
  unfold encodeMagnitude
  constructor
  · intro encoded
    obtain ⟨high, highFits, encoded⟩ := bind_eq_ok.mp encoded
    obtain ⟨low, lowFits, encoded⟩ := bind_eq_ok.mp encoded
    rw [pure_eq_ok] at encoded
    obtain ⟨isHigh, _, bounded⟩ := tryI64_eq_ok.mp highFits
    obtain ⟨isLow, _⟩ := tryI64_eq_ok.mp lowFits
    exact ⟨bounded, by rw [← encoded, isHigh, isLow]⟩
  · rintro ⟨bounded, isParts⟩
    apply bind_eq_ok.mpr
    refine ⟨_, tryI64_eq_ok.mpr ⟨rfl, least.trans nonnegative, bounded⟩, ?_⟩
    apply bind_eq_ok.mpr
    refine ⟨_, tryI64_eq_ok.mpr
      ⟨rfl, least.trans reduced.1, reduced.2.le.trans below⟩, ?_⟩
    rw [pure_eq_ok, isParts]

theorem splitUnsignedAmount_eq_ok_iff {parts : AmountSplitParts} {fieldName : String} :
    splitUnsignedAmount amount fieldName = .ok parts ↔
      (amount.value : ℤ) / globalSplitDivisor ≤ i64Max ∧ parts =
        { hi := amount.value / globalSplitDivisor, lo := amount.value % globalSplitDivisor } :=
  mapError_eq_ok.trans encodeMagnitude_eq_ok_iff

theorem parseSplitAmount_of_encodeMagnitude {magnitude : ℕ} {parts : AmountSplitParts}
    {fieldName : String} (encoded : encodeMagnitude magnitude = .ok parts)
    (isMagnitude : amount.value = magnitude) :
    parseSplitAmount parts.hi parts.lo fieldName = .ok amount := by
  obtain ⟨_, rfl⟩ := encodeMagnitude_eq_ok_iff.mp encoded
  apply parseSplitAmount_eq_ok_iff.mpr
  refine ⟨Int.ediv_nonneg (Int.natCast_nonneg _) globalSplitDivisor_pos.le,
    TwoLimbs.reduced_emod globalSplitDivisor_pos, ?_⟩
  rw [TwoLimbs.value_ediv_emod, isMagnitude]

theorem splitUnsignedAmount_parseSplitAmount {columns : StoredSplit}
    {readField writtenField : String}
    (parsed : parseSplitAmount columns.hi columns.lo readField = .ok amount) :
    splitUnsignedAmount amount writtenField = .ok { hi := columns.hi, lo := columns.lo } := by
  obtain ⟨_, reduced, isValue⟩ := parseSplitAmount_eq_ok_iff.mp parsed
  apply splitUnsignedAmount_eq_ok_iff.mpr
  rw [isValue, TwoLimbs.value_ediv reduced, TwoLimbs.value_emod reduced]
  exact ⟨columns.hiFits.2, rfl⟩

theorem parseSplitAmount_lt_iff {leftField rightField : String}
    (parsed : parseSplitAmount hi lo leftField = .ok amount)
    (otherParsed : parseSplitAmount otherHi otherLo rightField = .ok other) :
    amount.value < other.value ↔ toLex (hi, lo) < toLex (otherHi, otherLo) := by
  obtain ⟨_, reduced, isValue⟩ := parseSplitAmount_eq_ok_iff.mp parsed
  obtain ⟨_, otherReduced, otherIsValue⟩ := parseSplitAmount_eq_ok_iff.mp otherParsed
  rw [← TwoLimbs.value_lt_value_iff reduced otherReduced, ← isValue, ← otherIsValue]
  exact Nat.cast_lt.symm

/-- **A signed delta that splits is read back.** -/
theorem signedBalanceDeltaFromSplit_splitSignedBalanceDelta {delta : ℤ}
    {parts : AmountSplitParts} {negative : Bool}
    (written : splitSignedBalanceDelta delta = .ok (parts, negative)) :
    signedBalanceDeltaFromSplit parts.hi parts.lo negative = .ok delta := by
  obtain ⟨found, encoded, written⟩ := bind_eq_ok.mp written
  obtain ⟨rfl, isNegative⟩ := Prod.mk.inj (pure_eq_ok.mp written).symm
  replace encoded := mapError_eq_ok.mp encoded
  obtain ⟨bounded, _⟩ := encodeMagnitude_eq_ok_iff.mp encoded
  -- The high limb of the largest magnitudes of a signed 128-bit number does not fit.
  have fits : (delta.natAbs : ℤ) ≤ i128Max := by
    unfold globalSplitDivisor i64Max at bounded
    unfold i128Max
    omega
  let magnitude : UnsignedAmount := ⟨delta.natAbs, by unfold u128Max; unfold i128Max at fits; omega⟩
  have signed : magnitude.trySigned = some (delta.natAbs : ℤ) :=
    UnsignedAmount.trySigned_eq_some.mpr ⟨rfl, fits⟩
  apply bind_eq_ok.mpr
  refine ⟨magnitude, parseSplitAmount_of_encodeMagnitude encoded rfl, ?_⟩
  have small : ¬ (negative = true ∧ ((magnitude.value : ℕ) : ℤ) = i128Max + 1) := by
    rintro ⟨_, same⟩
    have below : (magnitude.value : ℤ) ≤ i128Max := fits
    omega
  rw [if_neg small, signed, pure_eq_ok, isNegative]
  by_cases sign : delta < 0
  · rw [decide_eq_true sign, if_pos rfl]
    omega
  · rw [decide_eq_false sign, if_neg Bool.false_ne_true]
    omega

end Pair

/-! ## Summed columns -/

section Sums

variable {hiSum loSum : ℤ} {amount : UnsignedAmount} {fieldName : String}

theorem normalizeSplitSums_eq (high : 0 ≤ hiSum) (low : 0 ≤ loSum) :
    normalizeSplitSums hiSum loSum =
      if hiSum + loSum / globalSplitDivisor ≤ i64Max then
        .ok { hi := hiSum + loSum / globalSplitDivisor, lo := loSum % globalSplitDivisor }
      else .error .overflow := by
  have reduced : TwoLimbs.Reduced globalSplitDivisor (loSum % globalSplitDivisor) :=
    TwoLimbs.reduced_emod globalSplitDivisor_pos
  have carried : 0 ≤ loSum / globalSplitDivisor := Int.ediv_nonneg low globalSplitDivisor_pos.le
  have below : globalSplitDivisor ≤ i64Max := by decide
  have least : i64Min ≤ 0 := by decide
  have lowPart : tryI64 (loSum % globalSplitDivisor) = .ok (loSum % globalSplitDivisor) :=
    tryI64_eq_ok.mpr ⟨rfl, least.trans reduced.1, reduced.2.le.trans below⟩
  unfold normalizeSplitSums
  rw [if_neg (not_lt.mpr high), if_neg (not_lt.mpr low), lowPart]
  by_cases fits : hiSum + loSum / globalSplitDivisor ≤ i64Max
  · rw [tryI64, if_pos ⟨least.trans (add_nonneg high carried), fits⟩, if_pos fits]
    rfl
  · rw [tryI64, if_neg fun inside => fits inside.2, if_neg fits]
    rfl

theorem parseSplitSumAmount_eq_ok_iff (high : 0 ≤ hiSum) (low : 0 ≤ loSum) :
    parseSplitSumAmount hiSum loSum fieldName = .ok amount ↔
      hiSum + loSum / globalSplitDivisor ≤ i64Max ∧
        (amount.value : ℤ) = TwoLimbs.value globalSplitDivisor hiSum loSum := by
  have carried : 0 ≤ loSum / globalSplitDivisor := Int.ediv_nonneg low globalSplitDivisor_pos.le
  unfold parseSplitSumAmount parseSplitSum
  rw [mapError_eq_ok, normalizeSplitSums_eq high low]
  split <;> rename_i fits
  · refine decodeUnsigned_eq_ok_iff.trans ?_
    rw [TwoLimbs.value_carry]
    constructor
    · rintro ⟨_, _, isValue⟩
      exact ⟨fits, isValue⟩
    · rintro ⟨_, isValue⟩
      exact ⟨add_nonneg high carried, TwoLimbs.reduced_emod globalSplitDivisor_pos, isValue⟩
  · constructor
    · intro decoded
      cases decoded
    · rintro ⟨inside, _⟩
      exact absurd inside fits

theorem parseSplitSumAmount_of_overflow (high : 0 ≤ hiSum) (low : 0 ≤ loSum)
    (large : ¬ hiSum + loSum / globalSplitDivisor ≤ i64Max) :
    parseSplitSumAmount hiSum loSum fieldName =
      .error ⟨"Invalid " ++ fieldName ++ " split sum from DB: " ++
        AmountError.overflow.display⟩ := by
  unfold parseSplitSumAmount parseSplitSum
  rw [normalizeSplitSums_eq high low, if_neg large]
  rfl

theorem sumColumn_eq_ok_iff {column : List (Option ℤ)} {total : ℤ} :
    sumColumn column = .ok total ↔
      column.reduceOption.sum ≤ i64Max ∧ total = column.reduceOption.sum := by
  unfold sumColumn
  split <;> rename_i fits
  · simp only [Except.ok.injEq, fits, true_and]
    exact eq_comm
  · simp only [reduceCtorEq, fits, false_and]

theorem sumColumn_map_some_eq_ok_iff {α : Type} {rows : List α} {column : α → ℤ} {total : ℤ} :
    sumColumn (rows.map fun row => some (column row)) = .ok total ↔
      (rows.map column).sum ≤ i64Max ∧ total = (rows.map column).sum := by
  have numbers : (rows.map fun row => some (column row)).reduceOption = rows.map column := by
    induction rows with
    | nil => rfl
    | cons row rows ih => rw [List.map_cons, List.reduceOption_cons_of_some, ih, List.map_cons]
  rw [sumColumn_eq_ok_iff, numbers]

theorem sum_of_mapM_parseSplitAmount {rows : List StoredSplit} {amounts : List UnsignedAmount}
    (parsed : rows.mapM (fun row => parseSplitAmount row.hi row.lo fieldName) = .ok amounts) :
    0 ≤ (rows.map (·.hi)).sum ∧ 0 ≤ (rows.map (·.lo)).sum ∧
      ((amounts.map UnsignedAmount.value).sum : ℤ) = TwoLimbs.value globalSplitDivisor
        (rows.map (·.hi)).sum (rows.map (·.lo)).sum := by
  have each := mapM_eq_ok_iff_forall₂.mp parsed
  clear parsed
  induction each with
  | nil => exact ⟨le_rfl, le_rfl, rfl⟩
  | cons isRead _ ih =>
    obtain ⟨high, reduced, isValue⟩ := parseSplitAmount_eq_ok_iff.mp isRead
    obtain ⟨highs, lows, total⟩ := ih
    simp only [List.map_cons, List.sum_cons]
    refine ⟨add_nonneg high highs, add_nonneg reduced.1 lows, ?_⟩
    rw [Nat.cast_add, isValue, total]
    unfold TwoLimbs.value
    rw [add_mul]
    exact add_add_add_comm _ _ _ _

/-- **Summed columns are read as the sum of the amounts**, or are an overflow where that sum does
not split. -/
theorem parseSplitSumAmount_sumColumn {rows : List StoredSplit} {amounts : List UnsignedAmount}
    {sumField : String}
    (parsed : rows.mapM (fun row => parseSplitAmount row.hi row.lo fieldName) = .ok amounts)
    (hiColumn : sumColumn (rows.map fun row => some row.hi) = .ok hiSum)
    (loColumn : sumColumn (rows.map fun row => some row.lo) = .ok loSum) :
    (((amounts.map UnsignedAmount.value).sum : ℤ) / globalSplitDivisor ≤ i64Max →
      ∃ total, parseSplitSumAmount hiSum loSum sumField = .ok total ∧
        total.value = (amounts.map UnsignedAmount.value).sum) ∧
    (i64Max < ((amounts.map UnsignedAmount.value).sum : ℤ) / globalSplitDivisor →
      parseSplitSumAmount hiSum loSum sumField =
        .error ⟨"Invalid " ++ sumField ++ " split sum from DB: " ++
          AmountError.overflow.display⟩) := by
  obtain ⟨high, low, total⟩ := sum_of_mapM_parseSplitAmount parsed
  rw [sumColumn_map_some_eq_ok_iff] at hiColumn loColumn
  rw [← hiColumn.2, ← loColumn.2] at total
  rw [← hiColumn.2] at high
  rw [← loColumn.2] at low
  have isQuotient : ((amounts.map UnsignedAmount.value).sum : ℤ) / globalSplitDivisor =
      hiSum + loSum / globalSplitDivisor := by
    rw [total, ← TwoLimbs.value_carry,
      TwoLimbs.value_ediv (TwoLimbs.reduced_emod globalSplitDivisor_pos)]
  rw [isQuotient]
  constructor
  · intro fits
    have within : (amounts.map UnsignedAmount.value).sum ≤ u128Max := by
      rw [← isQuotient] at fits
      unfold globalSplitDivisor i64Max at fits
      unfold u128Max
      omega
    refine ⟨⟨_, within⟩, ?_, rfl⟩
    exact (parseSplitSumAmount_eq_ok_iff high low).mpr ⟨fits, total⟩
  · intro large
    exact parseSplitSumAmount_of_overflow high low (not_le.mpr large)

end Sums

/-- **Split storage is faithful, canonical, ordered and summable.** -/
theorem splitStorage_faithful (writtenField readField : String) :
    (∀ (amount : UnsignedAmount) (parts : AmountSplitParts),
      splitUnsignedAmount amount writtenField = .ok parts →
        parseSplitAmount parts.hi parts.lo readField = .ok amount) ∧
    (∀ (columns : StoredSplit) (amount : UnsignedAmount),
      parseSplitAmount columns.hi columns.lo readField = .ok amount →
        splitUnsignedAmount amount writtenField = .ok { hi := columns.hi, lo := columns.lo }) ∧
    (∀ (left right : StoredSplit) (amount other : UnsignedAmount),
      parseSplitAmount left.hi left.lo readField = .ok amount →
        parseSplitAmount right.hi right.lo readField = .ok other →
          (amount.value < other.value ↔ toLex (left.hi, left.lo) < toLex (right.hi, right.lo))) ∧
    (∀ (delta : ℤ) (parts : AmountSplitParts) (negative : Bool),
      splitSignedBalanceDelta delta = .ok (parts, negative) →
        signedBalanceDeltaFromSplit parts.hi parts.lo negative = .ok delta) ∧
    ∀ (rows : List StoredSplit) (amounts : List UnsignedAmount) (hiSum loSum : ℤ),
      rows.mapM (fun row => parseSplitAmount row.hi row.lo readField) = .ok amounts →
      sumColumn (rows.map fun row => some row.hi) = .ok hiSum →
      sumColumn (rows.map fun row => some row.lo) = .ok loSum →
        (((amounts.map UnsignedAmount.value).sum : ℤ) / globalSplitDivisor ≤ i64Max →
          ∃ total, parseSplitSumAmount hiSum loSum readField = .ok total ∧
            total.value = (amounts.map UnsignedAmount.value).sum) ∧
        (i64Max < ((amounts.map UnsignedAmount.value).sum : ℤ) / globalSplitDivisor →
          parseSplitSumAmount hiSum loSum readField =
            .error ⟨"Invalid " ++ readField ++ " split sum from DB: " ++
              AmountError.overflow.display⟩) := by
  refine ⟨?_, ?_, ?_, ?_, ?_⟩
  · intro amount parts written
    exact parseSplitAmount_splitUnsignedAmount written
  · intro columns amount parsed
    exact splitUnsignedAmount_parseSplitAmount parsed
  · intro left right amount other parsed otherParsed
    exact parseSplitAmount_lt_iff parsed otherParsed
  · intro delta parts negative written
    exact signedBalanceDeltaFromSplit_splitSignedBalanceDelta written
  · intro rows amounts hiSum loSum parsed hiColumn loColumn
    exact parseSplitSumAmount_sumColumn parsed hiColumn loColumn

/-- The largest high limb, and a low limb of one after the largest low limb. -/
def carriedRows : List StoredSplit :=
  [{ hi := i64Max, lo := 999999999999999999, hiFits := by decide, loFits := by decide },
    { hi := 0, lo := 1, hiFits := by decide, loFits := by decide }]

/-- The columns of `carriedRows` fit, and their sum does not split. -/
theorem not_parseSplitSumAmount_sumColumn :
    ¬ ∀ (readField : String) (rows : List StoredSplit) (amounts : List UnsignedAmount)
      (hiSum loSum : ℤ),
      rows.mapM (fun row => parseSplitAmount row.hi row.lo readField) = .ok amounts →
      sumColumn (rows.map fun row => some row.hi) = .ok hiSum →
      sumColumn (rows.map fun row => some row.lo) = .ok loSum →
        ∃ total, parseSplitSumAmount hiSum loSum readField = .ok total ∧
          total.value = (amounts.map UnsignedAmount.value).sum := by
  intro always
  have found := always "owned_output_total" carriedRows
    [⟨9223372036854775807999999999999999999, by decide⟩, ⟨1, by decide⟩]
    i64Max globalSplitDivisor (by decide +kernel) (by decide +kernel) (by decide +kernel)
  obtain ⟨total, parsed, _⟩ := found
  have overflow : parseSplitSumAmount i64Max globalSplitDivisor "owned_output_total" =
      .error ⟨"Invalid owned_output_total split sum from DB: amount overflow"⟩ := by
    decide +kernel
  rw [overflow] at parsed
  cases parsed

/-- An amount, a gain and a loss, and low limbs that carry. -/
theorem splitStorage_faithful_carried :
    parseSplitAmount 1 500000000000000000 "value_amount" =
        .ok ⟨1500000000000000000, by decide⟩ ∧
      signedBalanceDeltaFromSplit 0 7 true = .ok (-7) ∧
      ∃ total, parseSplitSumAmount 1 1000000000000000001 "value_amount" = .ok total ∧
        total.value = 2000000000000000001 := by
  have faithful := splitStorage_faithful "value_amount" "value_amount"
  refine ⟨?_, ?_, ?_⟩
  · exact faithful.1 ⟨1500000000000000000, by decide⟩ ⟨1, 500000000000000000⟩
      (by decide +kernel)
  · exact faithful.2.2.2.1 (-7) ⟨0, 7⟩ true (by decide +kernel)
  · let rows : List StoredSplit :=
      [{ hi := 0, lo := 999999999999999999, hiFits := by decide, loFits := by decide },
        { hi := 1, lo := 2, hiFits := by decide, loFits := by decide }]
    exact (faithful.2.2.2.2 rows
      [⟨999999999999999999, by decide⟩, ⟨1000000000000000002, by decide⟩]
      1 1000000000000000001 (by decide +kernel) (by decide +kernel) (by decide +kernel)).1
      (by decide +kernel)

end Bitgarth.Store
