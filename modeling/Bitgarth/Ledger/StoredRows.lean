import Mathlib.Data.Prod.Lex
import Bitgarth.Foundation.RowSelection
import Bitgarth.Ledger.Entry

/-! # Stored ledger rows and balance queries

A rebuild replaces the stored rows of its account. The balance queries order settled
rows by time text, height, nonce and hash and read the closing balance of the last
one; `loadBalance_of_isLatestSettled` identifies that row among the stored entries.
Instants are stored as text by the parameter `toRfc3339`.
-/

namespace Bitgarth.Ledger

open Amounts RowSelection

/-- The columns of a stored ledger row. -/
structure LedgerRow where
  accountId : String
  chainTransactionId : String
  txHash : String
  status : ChainTransactionStatus
  occurredAt : String
  firstSeenAt : String
  blockHeight : Option ℤ
  nonce : Option ℤ
  minTransferIndex : Option ℤ
  txType : AccountTransactionDirection
  fromAddresses : List String
  toAddresses : List String
  valueAmount : AmountSplitParts
  feeAmount : Option AmountSplitParts
  closingBalance : Option AmountSplitParts
  balanceDelta : AmountSplitParts
  balanceDeltaNegative : Bool
deriving DecidableEq, Repr

/-- Split an amount that may be absent into two columns that may be null. -/
def splitOptionalAmount (amount : Option UnsignedAmount) (fieldName : String) :
    Except DbError (Option AmountSplitParts) :=
  match amount with
  | some value => do
      let parts ← splitUnsignedAmount value fieldName
      return some parts
  | none => .ok none

section Storage

variable (toRfc3339 : ℤ → String)

/-- The row one entry is inserted as. -/
def storeEntry (accountId : String) (entry : LedgerBuildEntry) : Except DbError LedgerRow := do
  let valueAmount ← splitUnsignedAmount entry.value "value_amount"
  let feeAmount ← splitOptionalAmount entry.fee "fee_amount"
  let closingBalance ← splitOptionalAmount entry.closingBalance "closing_balance"
  let (balanceDelta, balanceDeltaNegative) ← splitSignedBalanceDelta entry.balanceDelta
  return {
    accountId
    chainTransactionId := entry.chainTransactionId
    txHash := entry.txHash
    status := entry.status
    occurredAt := toRfc3339 entry.occurredAt
    firstSeenAt := toRfc3339 entry.firstSeenAt
    blockHeight := entry.blockHeight
    nonce := entry.nonce
    minTransferIndex := entry.minTransferIndex
    txType := entry.direction
    fromAddresses := entry.fromAddresses
    toAddresses := entry.toAddresses
    valueAmount
    feeAmount
    closingBalance
    balanceDelta
    balanceDeltaNegative }

/-- `replace_account_transaction_ledger_entries_conn`: the table it commits. -/
def replaceAccountTransactionLedgerEntries (table : List LedgerRow) (accountId : String)
    (entries : List LedgerBuildEntry) : Except DbError (List LedgerRow) := do
  let rows ← entries.mapM (storeEntry toRfc3339 accountId)
  return table.filter (fun row => row.accountId ≠ accountId) ++ rows

/-- `ORDER BY` key of the balance queries. -/
def LedgerRow.readKey (row : LedgerRow) : String ×ₗ ℤ ×ₗ ℤ ×ₗ String :=
  toLex (row.occurredAt, toLex (row.blockHeight.getD 0, toLex (row.nonce.getD 0, row.txHash)))

/-- The rows a balance query considers, for a condition on the time column. -/
def settledRows (table : List LedgerRow) (accountId : String) (within : String → Prop)
    [DecidablePred within] : List LedgerRow :=
  table.filter fun row => row.accountId = accountId ∧
    (row.status = .confirmed ∨ row.status = .failed) ∧ within row.occurredAt ∧
    row.closingBalance.isSome

/-- The balance queries: the closing balance of the last considered row. -/
def loadBalance (table : List LedgerRow) (accountId : String) (within : String → Prop)
    [DecidablePred within] (fieldName : String) : Except DbError (Option UnsignedAmount) :=
  match latest LedgerRow.readKey (settledRows table accountId within) with
  | none => .ok none
  | some row =>
    match row.closingBalance with
    | none => .ok none
    | some parts => do
        let balance ← parseSplitAmount parts.hi parts.lo fieldName
        return some balance

/-- `load_account_overall_balance`. -/
def loadAccountOverallBalance (table : List LedgerRow) (accountId : String) :
    Except DbError (Option UnsignedAmount) :=
  loadBalance table accountId (fun _ => True) "overall_balance"

/-- `load_balance_as_of_date`. -/
def loadBalanceAsOfDate (table : List LedgerRow) (accountId : String) (asOf : ℤ) :
    Except DbError (Option UnsignedAmount) :=
  loadBalance table accountId (· ≤ toRfc3339 asOf) "balance_as_of_date"

/-- `load_balance_before_date`. -/
def loadBalanceBeforeDate (table : List LedgerRow) (accountId : String) (before : ℤ) :
    Except DbError (Option UnsignedAmount) :=
  loadBalance table accountId (· < toRfc3339 before) "balance_before_date"

/-! ## The row a query reads -/

/-- The `ORDER BY` key an entry is stored under. -/
def LedgerBuildEntry.readKey (entry : LedgerBuildEntry) : String ×ₗ ℤ ×ₗ ℤ ×ₗ String :=
  toLex (toRfc3339 entry.occurredAt,
    toLex (entry.blockHeight.getD 0, toLex (entry.nonce.getD 0, entry.txHash)))

/-- Among the settled entries inside the time condition, `row` is stored under the
greatest key. -/
def IsLatestSettled (within : String → Prop) (entries : List LedgerBuildEntry)
    (row : LedgerBuildEntry) : Prop :=
  (row ∈ entries ∧ row.Settled ∧ within (toRfc3339 row.occurredAt)) ∧
    ∀ other ∈ entries, other.Settled → within (toRfc3339 other.occurredAt) →
      other.readKey toRfc3339 ≤ row.readKey toRfc3339

/-- What a stored row keeps of its entry. -/
structure StoredAs (accountId : String) (entry : LedgerBuildEntry) (row : LedgerRow) : Prop where
  account : row.accountId = accountId
  status : row.status = entry.status
  key : row.readKey = entry.readKey toRfc3339
  occurredAt : row.occurredAt = toRfc3339 entry.occurredAt
  closing : (∀ parts, row.closingBalance = some parts → ∃ closing,
      entry.closingBalance = some closing ∧ ∀ fieldName,
        parseSplitAmount parts.hi parts.lo fieldName = .ok closing) ∧
    row.closingBalance.isSome = entry.closingBalance.isSome

variable {toRfc3339} {accountId : String} {entries : List LedgerBuildEntry}
  {table stored : List LedgerRow} {within : String → Prop} [DecidablePred within]

theorem storeEntry_storedAs {entry : LedgerBuildEntry} {row : LedgerRow}
    (done : storeEntry toRfc3339 accountId entry = .ok row) :
    StoredAs toRfc3339 accountId entry row := by
  unfold storeEntry at done
  obtain ⟨valueAmount, _, done⟩ := Fallible.bind_eq_ok.mp done
  obtain ⟨feeAmount, _, done⟩ := Fallible.bind_eq_ok.mp done
  obtain ⟨closingBalance, split, done⟩ := Fallible.bind_eq_ok.mp done
  obtain ⟨delta, _, done⟩ := Fallible.bind_eq_ok.mp done
  rw [Fallible.pure_eq_ok] at done
  subst done
  refine ⟨rfl, rfl, rfl, rfl, ?_⟩
  cases balance : entry.closingBalance with
  | none =>
    simp only [splitOptionalAmount, balance, Except.ok.injEq] at split
    subst split
    simp
  | some closing =>
    simp only [splitOptionalAmount, balance] at split
    obtain ⟨parts, encoded, split⟩ := Fallible.bind_eq_ok.mp split
    rw [Fallible.pure_eq_ok] at split
    subst split
    refine ⟨fun found same => ⟨closing, rfl, fun fieldName => ?_⟩, rfl⟩
    rw [Option.some.injEq] at same
    subst same
    exact parseSplitAmount_splitUnsignedAmount encoded

theorem settledRows_replaced
    (done : replaceAccountTransactionLedgerEntries toRfc3339 table accountId entries = .ok stored) :
    (∀ row ∈ settledRows stored accountId within, ∃ entry ∈ entries,
      StoredAs toRfc3339 accountId entry row ∧ entry.Settled ∧
        within (toRfc3339 entry.occurredAt)) ∧
      ∀ entry ∈ entries, entry.Settled → within (toRfc3339 entry.occurredAt) →
        entry.closingBalance.isSome → ∃ row ∈ settledRows stored accountId within,
          StoredAs toRfc3339 accountId entry row := by
  unfold replaceAccountTransactionLedgerEntries at done
  obtain ⟨rows, inserted, done⟩ := Fallible.bind_eq_ok.mp done
  rw [Fallible.pure_eq_ok] at done
  subst done
  obtain ⟨forward, backward⟩ := Fallible.mem_of_mapM_eq_ok inserted
  constructor
  · intro row member
    simp only [settledRows, List.mem_filter, List.mem_append, decide_eq_true_eq] at member
    obtain ⟨listed, account, status, inside, _⟩ := member
    have inRows : row ∈ rows := by
      rcases listed with kept | inserted
      · exact absurd account (by simpa using kept.2)
      · exact inserted
    obtain ⟨entry, entryMember, done⟩ := backward row inRows
    have storedAs := storeEntry_storedAs done
    refine ⟨entry, entryMember, storedAs, ?_, storedAs.occurredAt ▸ inside⟩
    rwa [storedAs.status] at status
  · intro entry member settled inside present
    obtain ⟨row, inRows, done⟩ := forward entry member
    have storedAs := storeEntry_storedAs done
    refine ⟨row, ?_, storedAs⟩
    simp only [settledRows, List.mem_filter, List.mem_append, decide_eq_true_eq]
    refine ⟨.inr inRows, storedAs.account, ?_, storedAs.occurredAt ▸ inside, ?_⟩
    · rw [storedAs.status]
      exact settled
    · rw [storedAs.closing.2]
      exact present

theorem readKey_injOn (distinct : (entries.map (·.txHash)).Nodup) {left right : LedgerBuildEntry}
    (leftMember : left ∈ entries) (rightMember : right ∈ entries)
    (same : left.readKey toRfc3339 = right.readKey toRfc3339) : left = right := by
  refine List.inj_on_of_nodup_map distinct leftMember rightMember ?_
  simp only [LedgerBuildEntry.readKey, EmbeddingLike.apply_eq_iff_eq, Prod.mk.injEq] at same
  exact same.2.2.2

omit [DecidablePred within] in
theorem isLatestSettled_of_map_cleared {left right : List LedgerBuildEntry}
    (same : left.map LedgerBuildEntry.cleared = right.map LedgerBuildEntry.cleared)
    {row : LedgerBuildEntry} (latestRow : IsLatestSettled toRfc3339 within left row) :
    ∃ twin, IsLatestSettled toRfc3339 within right twin ∧ twin.cleared = row.cleared := by
  have timeEq : ∀ {one two : LedgerBuildEntry}, one.cleared = two.cleared →
      one.occurredAt = two.occurredAt :=
    fun equal => (congrArg LedgerBuildEntry.occurredAt equal :)
  have keyEq : ∀ {one two : LedgerBuildEntry}, one.cleared = two.cleared →
      one.readKey toRfc3339 = two.readKey toRfc3339 :=
    fun equal => (congrArg (LedgerBuildEntry.readKey toRfc3339) equal :)
  obtain ⟨⟨member, settled, inside⟩, greatest⟩ := latestRow
  obtain ⟨twin, twinMember, equal⟩ := mem_of_map_cleared same member
  refine ⟨twin, ⟨⟨twinMember, (settled_iff_of_cleared_eq equal).mpr settled, timeEq equal ▸ inside⟩,
    ?_⟩, equal⟩
  intro other otherMember otherSettled otherInside
  obtain ⟨original, originalMember, originalEqual⟩ := mem_of_map_cleared same.symm otherMember
  rw [keyEq equal, ← keyEq originalEqual]
  exact greatest original originalMember
    ((settled_iff_of_cleared_eq originalEqual).mpr otherSettled)
    (timeEq originalEqual ▸ otherInside)

/-- **The row a balance query reads.** After a replacement in which every settled entry has
a closing balance, a query returns the closing balance of the latest settled entry inside
its time condition, and none when there is no such entry. -/
theorem loadBalance_replaced (distinct : (entries.map (·.txHash)).Nodup)
    (complete : ∀ entry ∈ entries, entry.Settled → entry.closingBalance.isSome)
    (done : replaceAccountTransactionLedgerEntries toRfc3339 table accountId entries = .ok stored)
    (fieldName : String) :
    (∀ row, IsLatestSettled toRfc3339 within entries row →
      loadBalance stored accountId within fieldName = .ok row.closingBalance) ∧
      ((∀ row, ¬ IsLatestSettled toRfc3339 within entries row) →
        loadBalance stored accountId within fieldName = .ok none) := by
  obtain ⟨fromRow, fromEntry⟩ :=
    @settledRows_replaced toRfc3339 accountId entries table stored within _ done
  -- The stored row of greatest key belongs to the latest settled entry.
  have greatest : ∀ row, latest LedgerRow.readKey (settledRows stored accountId within) =
      some row → ∃ entry, IsLatestSettled toRfc3339 within entries entry ∧
        StoredAs toRfc3339 accountId entry row := by
    intro row found
    obtain ⟨member, upper⟩ := latest_spec found
    obtain ⟨entry, entryMember, storedAs, settled, inside⟩ := fromRow row member
    refine ⟨entry, ⟨⟨entryMember, settled, inside⟩, ?_⟩, storedAs⟩
    intro other otherMember otherSettled otherInside
    obtain ⟨otherRow, otherRowMember, otherStored⟩ := fromEntry other otherMember otherSettled
      otherInside (complete other otherMember otherSettled)
    rw [← otherStored.key, ← storedAs.key]
    exact upper otherRow otherRowMember
  have unique : ∀ left right, IsLatestSettled toRfc3339 within entries left →
      IsLatestSettled toRfc3339 within entries right → left = right := by
    intro left right leftLatest rightLatest
    have same : left.readKey toRfc3339 = right.readKey toRfc3339 := le_antisymm
      (rightLatest.2 left leftLatest.1.1 leftLatest.1.2.1 leftLatest.1.2.2)
      (leftLatest.2 right rightLatest.1.1 rightLatest.1.2.1 rightLatest.1.2.2)
    exact readKey_injOn distinct leftLatest.1.1 rightLatest.1.1 same
  constructor
  · intro row rowLatest
    unfold loadBalance
    cases found : latest LedgerRow.readKey (settledRows stored accountId within) with
    | none =>
      obtain ⟨stray, strayMember, _⟩ := fromEntry row rowLatest.1.1 rowLatest.1.2.1
        rowLatest.1.2.2 (complete row rowLatest.1.1 rowLatest.1.2.1)
      rw [latest_eq_none_iff.mp found] at strayMember
      exact absurd strayMember List.not_mem_nil
    | some storedRow =>
      obtain ⟨entry, entryLatest, storedAs⟩ := greatest storedRow found
      rw [unique row entry rowLatest entryLatest]
      have present := complete entry entryLatest.1.1 entryLatest.1.2.1
      rw [← storedAs.closing.2] at present
      obtain ⟨parts, columns⟩ := Option.isSome_iff_exists.mp present
      obtain ⟨closing, closingEq, parsed⟩ := storedAs.closing.1 parts columns
      simp only [columns, parsed fieldName, closingEq]
      rfl
  · intro absent
    unfold loadBalance
    cases found : latest LedgerRow.readKey (settledRows stored accountId within) with
    | none => rfl
    | some storedRow =>
      obtain ⟨entry, entryLatest, _⟩ := greatest storedRow found
      exact absurd entryLatest (absent entry)

end Storage

/-- The text 1 January 2024 is stored under. -/
def newYearText (_ : ℤ) : String := "2024-01-01T00:00:00+00:00"

end Bitgarth.Ledger
