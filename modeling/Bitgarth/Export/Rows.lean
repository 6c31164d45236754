import Mathlib.Data.Prod.Lex
import Mathlib.Data.List.Sort
import Bitgarth.Calendar
import Bitgarth.Ledger.Entry

/-! # Exported rows

An account is exported from its ledger rows and the balance assertions of its user or
provider. `compareExportTransactions` puts ledger rows first, in the order of the
settlement key, and assertions after them by date (`insertionSort_exportLe`).
-/

namespace Bitgarth.Export

open Amounts Ledger

inductive ExportEngineError where
  | query (message : String)
  | format (message : String)
  | io (message : String)
  | invariant (message : String)
deriving DecidableEq, Repr

/-- A ledger row prepared for export. -/
structure AggregatedAccountTransaction where
  accountId : String
  txHash : String
  direction : AccountTransactionDirection
  status : ChainTransactionStatus
  balanceDelta : ℤ
  fee : UnsignedAmount
  occurredAt : ℤ
  blockHeight : Option ℤ
  nonce : Option ℤ
  minTransferIndex : Option ℤ
  closingBalance : Option UnsignedAmount
deriving DecidableEq, Repr

/-- The calendar date of a ledger row. -/
def AggregatedAccountTransaction.date (row : AggregatedAccountTransaction) : ℤ :=
  Calendar.dateOf row.occurredAt

/-- The calendar year of a ledger row. -/
def AggregatedAccountTransaction.year (row : AggregatedAccountTransaction) : ℤ :=
  Calendar.yearOf row.date

inductive BalanceAssertionSource where
  | manual
  | api
deriving DecidableEq, Repr

/-- A balance assertion, dated by the number of days since 1 January 1970. -/
structure CustomBalanceAssertionRenderRow where
  assertionId : String
  assertedOn : ℤ
  assertedBalance : UnsignedAmount
  note : Option String
  source : BalanceAssertionSource
deriving DecidableEq, Repr

inductive ExportAccountTransaction where
  | native (transaction : AggregatedAccountTransaction)
  | manualAssertion (assertion : CustomBalanceAssertionRenderRow)
deriving DecidableEq, Repr

/-- `WHERE` clause of the export query: confirmed rows, and failed rows that paid a fee. -/
def IsExported (entry : LedgerBuildEntry) : Prop :=
  entry.status = .confirmed ∨
    entry.status = .failed ∧ entry.balanceDelta < 0 ∧
      ∃ fee ∈ entry.fee.toList, fee.value ≠ 0

instance (entry : LedgerBuildEntry) : Decidable (IsExported entry) :=
  inferInstanceAs (Decidable (_ ∨ _))

/-- The exported row of a stored entry; an absent fee is zero. -/
def exportRow (accountId : String) (entry : LedgerBuildEntry) : AggregatedAccountTransaction where
  accountId := accountId
  txHash := entry.txHash
  direction := entry.direction
  status := entry.status
  balanceDelta := entry.balanceDelta
  fee := entry.fee.getD UnsignedAmount.zero
  occurredAt := entry.occurredAt
  blockHeight := entry.blockHeight
  nonce := entry.nonce
  minTransferIndex := entry.minTransferIndex
  closingBalance := entry.closingBalance

/-! ## Order of exported rows -/

/-- Order of ledger rows: a missing number reads as the greatest one. -/
def AggregatedAccountTransaction.settleKey (transaction : AggregatedAccountTransaction) :
    ℤ ×ₗ ℤ ×ₗ ℤ ×ₗ ℤ ×ₗ String :=
  toLex (transaction.occurredAt, toLex (transaction.blockHeight.getD i64Max,
    toLex (transaction.nonce.getD i64Max,
      toLex (transaction.minTransferIndex.getD i64Max, transaction.txHash))))

/-- Order of assertions. -/
def CustomBalanceAssertionRenderRow.dateKey (assertion : CustomBalanceAssertionRenderRow) :
    ℤ ×ₗ String :=
  toLex (assertion.assertedOn, assertion.assertionId)

/-- `compare_export_transactions` does not put `left` after `right`. -/
def exportLe : ExportAccountTransaction → ExportAccountTransaction → Prop
  | .native left, .native right => left.settleKey ≤ right.settleKey
  | .manualAssertion left, .manualAssertion right => left.dateKey ≤ right.dateKey
  | .native _, .manualAssertion _ => True
  | .manualAssertion _, .native _ => False

instance : DecidableRel exportLe
  | .native left, .native right =>
    inferInstanceAs (Decidable (left.settleKey ≤ right.settleKey))
  | .manualAssertion left, .manualAssertion right =>
    inferInstanceAs (Decidable (left.dateKey ≤ right.dateKey))
  | .native _, .manualAssertion _ => inferInstanceAs (Decidable True)
  | .manualAssertion _, .native _ => inferInstanceAs (Decidable False)

/-- The ledger rows among the exported rows. -/
def natives (transactions : List ExportAccountTransaction) : List AggregatedAccountTransaction :=
  transactions.filterMap fun transaction =>
    match transaction with
    | .native native => some native
    | .manualAssertion _ => none

/-- The assertions among the exported rows. -/
def assertions (transactions : List ExportAccountTransaction) :
    List CustomBalanceAssertionRenderRow :=
  transactions.filterMap fun transaction =>
    match transaction with
    | .native _ => none
    | .manualAssertion assertion => some assertion

/-- Ledger rows in settlement order. -/
def sortNatives (rows : List AggregatedAccountTransaction) : List AggregatedAccountTransaction :=
  rows.insertionSort fun left right => left.settleKey ≤ right.settleKey

/-- Assertions in date order. -/
def sortAssertions (rows : List CustomBalanceAssertionRenderRow) :
    List CustomBalanceAssertionRenderRow :=
  rows.insertionSort fun left right => left.dateKey ≤ right.dateKey

/-- Ledger rows followed by assertions. -/
def assemble (rows : List AggregatedAccountTransaction)
    (rest : List CustomBalanceAssertionRenderRow) : List ExportAccountTransaction :=
  rows.map .native ++ rest.map .manualAssertion

@[simp]
theorem natives_assemble (rows : List AggregatedAccountTransaction)
    (rest : List CustomBalanceAssertionRenderRow) : natives (assemble rows rest) = rows := by
  simp [natives, assemble, List.filterMap_map]

@[simp]
theorem assertions_assemble (rows : List AggregatedAccountTransaction)
    (rest : List CustomBalanceAssertionRenderRow) : assertions (assemble rows rest) = rest := by
  simp [assertions, assemble, List.filterMap_map]

theorem natives_perm_of_listed {rows : List AggregatedAccountTransaction}
    {transactions : List ExportAccountTransaction}
    (listed : transactions.Perm (rows.map .native)) :
    (natives transactions).Perm rows ∧ assertions transactions = [] := by
  have onlyNatives : assemble rows [] = rows.map .native := by simp [assemble]
  rw [← onlyNatives] at listed
  constructor
  · have found : (natives transactions).Perm (natives (assemble rows [])) := listed.filterMap _
    rwa [natives_assemble] at found
  · have found : (assertions transactions).Perm (assertions (assemble rows [])) :=
      listed.filterMap _
    rw [assertions_assemble] at found
    exact found.eq_nil

theorem orderedInsert_native (row : AggregatedAccountTransaction)
    (rows : List AggregatedAccountTransaction) (rest : List CustomBalanceAssertionRenderRow) :
    (assemble rows rest).orderedInsert exportLe (.native row) =
      assemble (rows.orderedInsert (fun left right => left.settleKey ≤ right.settleKey) row)
        rest := by
  unfold assemble
  induction rows with
  | nil =>
    cases rest with
    | nil => rfl
    | cons first rest => simp [exportLe]
  | cons first rows ih =>
    by_cases before : row.settleKey ≤ first.settleKey
    · simp [exportLe, before]
    · simpa [exportLe, before] using ih

theorem orderedInsert_manualAssertion (row : CustomBalanceAssertionRenderRow)
    (rows : List AggregatedAccountTransaction) (rest : List CustomBalanceAssertionRenderRow) :
    (assemble rows rest).orderedInsert exportLe (.manualAssertion row) =
      assemble rows
        (rest.orderedInsert (fun left right => left.dateKey ≤ right.dateKey) row) := by
  unfold assemble
  induction rows with
  | nil =>
    induction rest with
    | nil => rfl
    | cons first rest ih =>
      by_cases before : row.dateKey ≤ first.dateKey
      · simp [exportLe, before]
      · simpa [exportLe, before] using ih
  | cons first rows ih => simpa [exportLe] using ih

/-- **The order of exported rows.** Ledger rows come first, then assertions. -/
theorem insertionSort_exportLe (transactions : List ExportAccountTransaction) :
    transactions.insertionSort exportLe =
      assemble (sortNatives (natives transactions)) (sortAssertions (assertions transactions)) := by
  induction transactions with
  | nil => rfl
  | cons first rest ih =>
    rw [List.insertionSort_cons, ih]
    cases first with
    | native row => exact orderedInsert_native row _ _
    | manualAssertion row => exact orderedInsert_manualAssertion row _ _

end Bitgarth.Export
