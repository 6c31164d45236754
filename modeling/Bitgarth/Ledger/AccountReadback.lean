import Bitgarth.Ledger.AccountBalances
import Bitgarth.Ledger.StoredRows

/-! # Reading back account-model balances

The rebuild settles account-model entries by a key with a transfer index that puts
missing numbers last; the balance queries order rows without the index and with missing
numbers as zero. `load_eq_lastSettled_closing_iff` says exactly when both orders end in
the same balance.
-/

namespace Bitgarth.Ledger

open Amounts RowSelection

/-- Among the settled entries inside the time condition, `row` comes last in settle order. -/
def IsLastToSettle (inside : ℤ → Prop) (entries : List LedgerBuildEntry)
    (row : LedgerBuildEntry) : Prop :=
  (row ∈ entries ∧ row.Settled ∧ inside row.occurredAt) ∧
    ∀ other ∈ entries, other.Settled → inside other.occurredAt →
      other.settleKey ≤ row.settleKey

/-- Two rows show one balance: the deltas settled between them cancel, or neither balance
is above zero. -/
def SameBalance (entries : List LedgerBuildEntry) (opening : Option OpeningBalance)
    (left right : LedgerBuildEntry) : Prop :=
  sumWhere (fun entry => SettledThrough left entry ∧ ¬ SettledThrough right entry)
      (·.balanceDelta) entries =
    sumWhere (fun entry => SettledThrough right entry ∧ ¬ SettledThrough left entry)
      (·.balanceDelta) entries ∨
  openingRunning opening + sumWhere (SettledThrough left) (·.balanceDelta) entries ≤ 0 ∧
    openingRunning opening + sumWhere (SettledThrough right) (·.balanceDelta) entries ≤ 0

section Readback

variable {toRfc3339 : ℤ → String} {within : String → Prop} {inside : ℤ → Prop}
  {entries written : List LedgerBuildEntry} {opening : Option OpeningBalance}
  {table stored : List LedgerRow} {accountId : String}

theorem sum_settledThrough_congr {left right : LedgerBuildEntry}
    (same : left.cleared = right.cleared) :
    sumWhere (SettledThrough left) (·.balanceDelta) entries =
      sumWhere (SettledThrough right) (·.balanceDelta) entries := by
  have key : left.settleKey = right.settleKey :=
    (congrArg LedgerBuildEntry.settleKey same :)
  apply sumWhere_congr
  intro entry _
  simp only [SettledThrough, key]

theorem isLastToSettle_of_map_cleared {left right : List LedgerBuildEntry}
    (same : left.map LedgerBuildEntry.cleared = right.map LedgerBuildEntry.cleared)
    {row : LedgerBuildEntry} (last : IsLastToSettle inside left row) :
    ∃ twin, IsLastToSettle inside right twin ∧ twin.cleared = row.cleared := by
  have timeEq : ∀ {one two : LedgerBuildEntry}, one.cleared = two.cleared →
      one.occurredAt = two.occurredAt :=
    fun equal => (congrArg LedgerBuildEntry.occurredAt equal :)
  have keyEq : ∀ {one two : LedgerBuildEntry}, one.cleared = two.cleared →
      one.settleKey = two.settleKey :=
    fun equal => (congrArg LedgerBuildEntry.settleKey equal :)
  obtain ⟨⟨member, settled, due⟩, greatest⟩ := last
  obtain ⟨twin, twinMember, equal⟩ := mem_of_map_cleared same member
  refine ⟨twin, ⟨⟨twinMember, (settled_iff_of_cleared_eq equal).mpr settled,
    timeEq equal ▸ due⟩, ?_⟩, equal⟩
  intro other otherMember otherSettled otherDue
  obtain ⟨original, originalMember, originalEqual⟩ := mem_of_map_cleared same.symm otherMember
  rw [keyEq equal, ← keyEq originalEqual]
  exact greatest original originalMember
    ((settled_iff_of_cleared_eq originalEqual).mpr otherSettled)
    (timeEq originalEqual ▸ otherDue)

theorem sameBalance_iff {left right : LedgerBuildEntry} :
    SameBalance entries opening left right ↔
      max 0 (openingRunning opening +
          sumWhere (SettledThrough left) (·.balanceDelta) entries) =
        max 0 (openingRunning opening +
          sumWhere (SettledThrough right) (·.balanceDelta) entries) := by
  unfold SameBalance
  rw [← sumWhere_eq_iff]
  omega

theorem closing_eq_iff_sameBalance (distinct : (entries.map (·.txHash)).Nodup)
    (assigned : assignClosingBalances entries opening = .ok written)
    {left right : LedgerBuildEntry} (leftMember : left ∈ written) (leftSettled : left.Settled)
    (rightMember : right ∈ written) (rightSettled : right.Settled) :
    left.closingBalance = right.closingBalance ↔ SameBalance entries opening left right := by
  obtain ⟨leftClosing, leftEq, leftValue⟩ :=
    closing_eq_settled_through distinct assigned leftMember leftSettled
  obtain ⟨rightClosing, rightEq, rightValue⟩ :=
    closing_eq_settled_through distinct assigned rightMember rightSettled
  rw [sameBalance_iff, leftEq, rightEq, Option.some.injEq, ← leftValue, ← rightValue,
    Nat.cast_inj]
  exact ⟨fun same => by rw [same], UnsignedAmount.ext⟩

theorem sameBalance_congr {left right leftTwin rightTwin : LedgerBuildEntry}
    (leftSame : left.cleared = leftTwin.cleared) (rightSame : right.cleared = rightTwin.cleared) :
    SameBalance entries opening left right ↔ SameBalance entries opening leftTwin rightTwin := by
  rw [sameBalance_iff, sameBalance_iff, sum_settledThrough_congr leftSame,
    sum_settledThrough_congr rightSame]

theorem loadBalance_eq_lastSettled_iff [DecidablePred within]
    (distinct : (entries.map (·.txHash)).Nodup)
    (assigned : assignClosingBalances entries opening = .ok written)
    (replaced :
      replaceAccountTransactionLedgerEntries toRfc3339 table accountId written = .ok stored)
    (fieldName : String) :
    (∀ last, IsLastToSettle inside written last →
      loadBalance stored accountId within fieldName = .ok last.closingBalance) ↔
      ∀ last, IsLastToSettle inside entries last →
        ∃ row, IsLatestSettled toRfc3339 within entries row ∧
          SameBalance entries opening row last := by
  have same := assignClosingBalances_map_cleared assigned
  have distinctWritten : (written.map (·.txHash)).Nodup := map_txHash_eq same ▸ distinct
  have complete : ∀ entry ∈ written, entry.Settled → entry.closingBalance.isSome := by
    intro entry member settled
    obtain ⟨closing, closingEq, _⟩ := closing_eq_settled_through distinct assigned member settled
    rw [closingEq]
    rfl
  have reads := @loadBalance_replaced toRfc3339 accountId written table stored within _
    distinctWritten complete replaced fieldName
  constructor
  · intro returns last isLast
    obtain ⟨twin, twinLast, twinEqual⟩ := isLastToSettle_of_map_cleared same.symm isLast
    have found := returns twin twinLast
    by_cases someLatest : ∃ row, IsLatestSettled toRfc3339 within written row
    · obtain ⟨row, rowLatest⟩ := someLatest
      rw [reads.1 row rowLatest, Except.ok.injEq] at found
      obtain ⟨original, originalLatest, originalEqual⟩ :=
        isLatestSettled_of_map_cleared same rowLatest
      refine ⟨original, originalLatest, (sameBalance_congr originalEqual twinEqual.symm).mpr ?_⟩
      exact (closing_eq_iff_sameBalance distinct assigned rowLatest.1.1 rowLatest.1.2.1
        twinLast.1.1 twinLast.1.2.1).mp found
    · have nothing := reads.2 fun row rowLatest => someLatest ⟨row, rowLatest⟩
      rw [found, Except.ok.injEq] at nothing
      have present := complete twin twinLast.1.1 twinLast.1.2.1
      rw [nothing] at present
      exact absurd present (by decide)
  · intro agree last isLast
    obtain ⟨original, originalLast, originalEqual⟩ := isLastToSettle_of_map_cleared same isLast
    obtain ⟨row, rowLatest, balance⟩ := agree original originalLast
    obtain ⟨twin, twinLatest, twinEqual⟩ := isLatestSettled_of_map_cleared same.symm rowLatest
    rw [reads.1 twin twinLatest, Except.ok.injEq]
    refine (closing_eq_iff_sameBalance distinct assigned twinLatest.1.1 twinLatest.1.2.1
      isLast.1.1 isLast.1.2.1).mpr ?_
    exact (sameBalance_congr twinEqual.symm originalEqual).mp balance

/-- **When a balance query agrees with the settlement.** As of an instant, before an instant
and without a bound, the query returns the closing balance of the last entry to settle in
range exactly when the entry it reads shows the same balance. -/
theorem load_eq_lastSettled_closing_iff (distinct : (entries.map (·.txHash)).Nodup)
    (assigned : assignClosingBalances entries opening = .ok written)
    (replaced :
      replaceAccountTransactionLedgerEntries toRfc3339 table accountId written = .ok stored) :
    (∀ asOf, (∀ last, IsLastToSettle (· ≤ asOf) written last →
        loadBalanceAsOfDate toRfc3339 stored accountId asOf = .ok last.closingBalance) ↔
      ∀ last, IsLastToSettle (· ≤ asOf) entries last →
        ∃ row, IsLatestSettled toRfc3339 (· ≤ toRfc3339 asOf) entries row ∧
          SameBalance entries opening row last) ∧
    (∀ before, (∀ last, IsLastToSettle (· < before) written last →
        loadBalanceBeforeDate toRfc3339 stored accountId before = .ok last.closingBalance) ↔
      ∀ last, IsLastToSettle (· < before) entries last →
        ∃ row, IsLatestSettled toRfc3339 (· < toRfc3339 before) entries row ∧
          SameBalance entries opening row last) ∧
    ((∀ last, IsLastToSettle (fun _ => True) written last →
        loadAccountOverallBalance stored accountId = .ok last.closingBalance) ↔
      ∀ last, IsLastToSettle (fun _ => True) entries last →
        ∃ row, IsLatestSettled toRfc3339 (fun _ => True) entries row ∧
          SameBalance entries opening row last) :=
  ⟨fun _ => loadBalance_eq_lastSettled_iff distinct assigned replaced _,
    fun _ => loadBalance_eq_lastSettled_iff distinct assigned replaced _,
    loadBalance_eq_lastSettled_iff distinct assigned replaced _⟩

end Readback

/-! ## A block that ends in an internal transfer -/

/-- In one block of 1 January 2024 a transaction with a nonce brings 10 and one seen
only through internal transfers, so without a nonce, brings 3 more. -/
def nonceThenInternal : List LedgerBuildEntry :=
  [{ LedgerBuildEntry.confirmedRow "a0" 100 1704067200000000000 10 [] with
      nonce := some 7, minTransferIndex := some 0 },
    { LedgerBuildEntry.confirmedRow "b0" 100 1704067200000000000 3 [] with
      minTransferIndex := some 1 }]

/-- The entries with their closing balances, 10 and then 13. -/
def nonceThenInternalWritten : List LedgerBuildEntry :=
  (assignClosingBalances nonceThenInternal none).toOption.getD []

/-- The rows stored for them. -/
def nonceThenInternalRows : List LedgerRow :=
  (replaceAccountTransactionLedgerEntries newYearText [] "account"
    nonceThenInternalWritten).toOption.getD []

private theorem nonceThenInternal_assigned :
    assignClosingBalances nonceThenInternal none = .ok nonceThenInternalWritten := by
  decide +kernel

private theorem nonceThenInternal_replaced :
    replaceAccountTransactionLedgerEntries newYearText [] "account" nonceThenInternalWritten =
      .ok nonceThenInternalRows := by
  decide +kernel

/-- The last entry to settle closes with 13, and the balance read is 10. -/
theorem loadBalanceAsOfDate_ne_lastSettled :
    ¬ ∀ (toRfc3339 : ℤ → String) (entries written : List LedgerBuildEntry)
        (opening : Option OpeningBalance) (table stored : List LedgerRow) (accountId : String),
      (entries.map (·.txHash)).Nodup → assignClosingBalances entries opening = .ok written →
      replaceAccountTransactionLedgerEntries toRfc3339 table accountId written = .ok stored →
      ∀ asOf last, IsLastToSettle (· ≤ asOf) written last →
        loadBalanceAsOfDate toRfc3339 stored accountId asOf = .ok last.closingBalance := by
  intro agrees
  have read := agrees newYearText nonceThenInternal nonceThenInternalWritten none []
    nonceThenInternalRows "account" (by decide) nonceThenInternal_assigned
    nonceThenInternal_replaced 1704067200000000000
    { LedgerBuildEntry.confirmedRow "b0" 100 1704067200000000000 3 [] with
      minTransferIndex := some 1, closingBalance := some ⟨13, by decide⟩ }
    ⟨by decide +kernel, by decide +kernel⟩
  revert read
  decide +kernel

/-- The characterization at `nonceThenInternal`, without a bound. -/
theorem loadAccountOverallBalance_nonceThenInternal :
    (∀ last, IsLastToSettle (fun _ => True) nonceThenInternalWritten last →
        loadAccountOverallBalance nonceThenInternalRows "account" = .ok last.closingBalance) ↔
      ∀ last, IsLastToSettle (fun _ => True) nonceThenInternal last →
        ∃ row, IsLatestSettled newYearText (fun _ => True) nonceThenInternal row ∧
          SameBalance nonceThenInternal none row last :=
  (load_eq_lastSettled_closing_iff (by decide) nonceThenInternal_assigned
    nonceThenInternal_replaced).2.2

end Bitgarth.Ledger
