import Bitgarth.Foundation.Paging
import Bitgarth.Ledger.AccountReadback
import Bitgarth.Text

/-! # Pages of an account's transactions

A page is one `LIMIT … OFFSET …` of the stored rows that match the filters. The ascending pages
read missing numbers as the greatest ones, as the settlement does, and the descending pages read
them as zero; `pages_partition_iff` says exactly when the pages list the matching entries in settle
order, and in its reverse.
-/

namespace Bitgarth.Ledger

open Amounts Fallible Paging RowSelection Text

inductive AccountTransactionTableKind where
  | pending
  | confirmed
deriving DecidableEq, Repr

inductive TransactionSortDirection where
  | ascending
  | descending
deriving DecidableEq, Repr

structure TransactionFilters where
  status : List ChainTransactionStatus
  fromDate : Option ℤ
  toDate : Option ℤ
deriving DecidableEq, Repr

def u32Max : ℕ := 4294967295
def u64Max : ℕ := 18446744073709551615

def AccountTransactionTableKind.defaultStatuses :
    AccountTransactionTableKind → List ChainTransactionStatus
  | pending => [.pending, .dropped]
  | confirmed => [.confirmed, .failed]

def statusesForKind (kind : AccountTransactionTableKind) (filters : TransactionFilters) :
    List ChainTransactionStatus :=
  if filters.status.isEmpty then kind.defaultStatuses
  else filters.status.filter (· ∈ kind.defaultStatuses)

/-- `ORDER BY` of the confirmed rows, oldest first. -/
def LedgerRow.ascendingKey (row : LedgerRow) : String ×ₗ ℤ ×ₗ ℤ ×ₗ ℤ ×ₗ String :=
  toLex (row.occurredAt, toLex (row.blockHeight.getD i64Max, toLex (row.nonce.getD i64Max,
    toLex (row.minTransferIndex.getD i64Max, row.txHash))))

/-- `ORDER BY` of the confirmed rows, newest first. -/
def LedgerRow.descendingKey (row : LedgerRow) : String ×ₗ ℤ ×ₗ ℤ ×ₗ ℤ ×ₗ String :=
  toLex (row.occurredAt, toLex (row.blockHeight.getD 0, toLex (row.nonce.getD 0,
    toLex (row.minTransferIndex.getD 0, row.txHash))))

/-- `ORDER BY` of the pending rows. -/
def LedgerRow.pendingKey (row : LedgerRow) : String ×ₗ ℤ ×ₗ String :=
  toLex (row.firstSeenAt, toLex (row.nonce.getD i64Max, row.txHash))

def orderedRows (kind : AccountTransactionTableKind) (sort : TransactionSortDirection)
    (rows : List LedgerRow) : List LedgerRow :=
  match kind, sort with
  | .pending, _ => rows.insertionSort fun left right => left.pendingKey ≤ right.pendingKey
  | .confirmed, .ascending =>
    rows.insertionSort fun left right => left.ascendingKey ≤ right.ascendingKey
  | .confirmed, .descending =>
    rows.insertionSort fun left right => right.descendingKey ≤ left.descendingKey

/-- A row as a page shows it. -/
structure AccountTransactionLedgerRow (Reliability : Type) where
  txHash : String
  status : ChainTransactionStatus
  direction : AccountTransactionDirection
  occurredAt : ℤ
  fromAddresses : List String
  toAddresses : List String
  value : UnsignedAmount
  fee : Option UnsignedAmount
  closingBalance : Option UnsignedAmount
  balanceReliability : Reliability
deriving DecidableEq, Repr

structure AccountTransactionLedgerPage (Reliability : Type) where
  page : ℕ
  pageSize : ℕ
  total : ℕ
  rows : List (AccountTransactionLedgerRow Reliability)
deriving DecidableEq, Repr

/-- `decode_address_list`, of the strings that the column holds. -/
def decodeAddressList (values : List String) : List String :=
  values.filter fun value => !(trim value).isEmpty

/-- Two columns that are both null or both present. -/
def parseOptionalParts (parts : Option AmountSplitParts) (fieldName : String) :
    Except DbError (Option UnsignedAmount) :=
  match parts with
  | none => .ok none
  | some parts => do
      let amount ← parseSplitAmount parts.hi parts.lo fieldName
      .ok (some amount)

section Queries

variable {Reliability : Type} (toRfc3339 : ℤ → String) (parseDatetime : String → Option ℤ)
  (withPendingState : Reliability → Reliability)

/-- The stored rows of an account that match the filters. -/
def selectedRows (table : List LedgerRow) (accountId : String)
    (kind : AccountTransactionTableKind) (filters : TransactionFilters) : List LedgerRow :=
  table.filter fun row => row.accountId = accountId ∧ row.status ∈ statusesForKind kind filters ∧
    (∀ date ∈ filters.fromDate, toRfc3339 date ≤ row.occurredAt) ∧
    ∀ date ∈ filters.toDate, row.occurredAt ≤ toRfc3339 date

def pageTotalForKind (table : List LedgerRow) (accountId : String)
    (kind : AccountTransactionTableKind) (filters : TransactionFilters) : Except DbError ℕ :=
  if (statusesForKind kind filters).isEmpty then .ok 0
  else
    let total := (selectedRows toRfc3339 table accountId kind filters).length
    if total ≤ u32Max then .ok total else .error ⟨"transaction total out of range"⟩

/-- A stored row read for a page. -/
def decodeRow (accountBalanceReliability : Reliability) (row : LedgerRow) :
    Except DbError (AccountTransactionLedgerRow Reliability) := do
  let occurredAt ←
    match parseDatetime row.occurredAt with
    | some instant => .ok instant
    | none => .error ⟨"Invalid occurred_at in DB"⟩
  let value ← parseSplitAmount row.valueAmount.hi row.valueAmount.lo "value_amount"
  let fee ← parseOptionalParts row.feeAmount "fee_amount"
  let closingBalance ← parseOptionalParts row.closingBalance "closing_balance"
  .ok {
    txHash := row.txHash
    status := row.status
    direction := row.txType
    occurredAt
    fromAddresses := decodeAddressList row.fromAddresses
    toAddresses := decodeAddressList row.toAddresses
    value
    fee
    closingBalance
    balanceReliability :=
      if row.status = .pending then withPendingState accountBalanceReliability
      else accountBalanceReliability }

def loadPageRows (table : List LedgerRow) (accountId : String)
    (kind : AccountTransactionTableKind) (page pageSize : ℕ) (sort : TransactionSortDirection)
    (filters : TransactionFilters) (accountBalanceReliability : Reliability) :
    Except DbError (List (AccountTransactionLedgerRow Reliability)) :=
  let offset := min ((page - 1) * pageSize) u64Max
  if i64Max < offset then .error ⟨"Transaction paging offset exceeds supported range"⟩
  else if (statusesForKind kind filters).isEmpty then .ok []
  else
    (((orderedRows kind sort (selectedRows toRfc3339 table accountId kind filters)).drop
      offset).take pageSize).mapM
        (decodeRow parseDatetime withPendingState accountBalanceReliability)

def loadPage (table : List LedgerRow) (accountId : String) (kind : AccountTransactionTableKind)
    (page pageSize : ℕ) (sort : TransactionSortDirection) (filters : TransactionFilters)
    (accountBalanceReliability : Reliability) :
    Except DbError (AccountTransactionLedgerPage Reliability) := do
  let total ← pageTotalForKind toRfc3339 table accountId kind filters
  let rows ← loadPageRows toRfc3339 parseDatetime withPendingState table accountId kind page
    pageSize sort filters accountBalanceReliability
  .ok { page, pageSize, total, rows }

/-- The confirmed pages from the first to the given one, loaded one after the other. -/
def confirmedPages (table : List LedgerRow) (accountId : String) (count pageSize : ℕ)
    (sort : TransactionSortDirection) (filters : TransactionFilters)
    (accountBalanceReliability : Reliability) :
    Except DbError (List (AccountTransactionLedgerPage Reliability)) :=
  (List.range count).mapM fun index =>
    loadPage toRfc3339 parseDatetime withPendingState table accountId .confirmed (index + 1)
      pageSize sort filters accountBalanceReliability

end Queries

/-! ## Entries and their pages -/

/-- A confirmed or failed entry that the filters ask for. -/
def LedgerBuildEntry.Matches (filters : TransactionFilters) (entry : LedgerBuildEntry) : Prop :=
  entry.Settled ∧ (filters.status = [] ∨ entry.status ∈ filters.status) ∧
    (∀ date ∈ filters.fromDate, date ≤ entry.occurredAt) ∧
    ∀ date ∈ filters.toDate, entry.occurredAt ≤ date

instance (filters : TransactionFilters) :
    DecidablePred (LedgerBuildEntry.Matches filters) :=
  fun _ => inferInstanceAs (Decidable (_ ∧ _))

/-- The matching entries in the settle order of all. -/
def matchingEntries (filters : TransactionFilters) (entries : List LedgerBuildEntry) :
    List LedgerBuildEntry :=
  ((settledOrder entries).map Prod.fst).filter fun entry => entry.Matches filters

/-- A settled entry as a page shows it. -/
def shownRow {Reliability : Type} (accountBalanceReliability : Reliability)
    (entry : LedgerBuildEntry) : AccountTransactionLedgerRow Reliability where
  txHash := entry.txHash
  status := entry.status
  direction := entry.direction
  occurredAt := entry.occurredAt
  fromAddresses := decodeAddressList entry.fromAddresses
  toAddresses := decodeAddressList entry.toAddresses
  value := entry.value
  fee := entry.fee
  closingBalance := entry.closingBalance
  balanceReliability := accountBalanceReliability

section Stored

variable (toRfc3339 : ℤ → String)

/-- The condition of the query, on the text that an entry is stored under. -/
def LedgerBuildEntry.Selected (filters : TransactionFilters) (entry : LedgerBuildEntry) : Prop :=
  entry.status ∈ statusesForKind .confirmed filters ∧
    (∀ date ∈ filters.fromDate, toRfc3339 date ≤ toRfc3339 entry.occurredAt) ∧
    ∀ date ∈ filters.toDate, toRfc3339 entry.occurredAt ≤ toRfc3339 date

instance (filters : TransactionFilters) :
    DecidablePred (LedgerBuildEntry.Selected toRfc3339 filters) :=
  fun _ => inferInstanceAs (Decidable (_ ∧ _))

/-- The key an entry is stored under, oldest first. -/
def LedgerBuildEntry.ascendingKey (entry : LedgerBuildEntry) :
    String ×ₗ ℤ ×ₗ ℤ ×ₗ ℤ ×ₗ String :=
  toLex (toRfc3339 entry.occurredAt, toLex (entry.blockHeight.getD i64Max,
    toLex (entry.nonce.getD i64Max, toLex (entry.minTransferIndex.getD i64Max, entry.txHash))))

/-- The key an entry is stored under, newest first. -/
def LedgerBuildEntry.descendingKey (entry : LedgerBuildEntry) :
    String ×ₗ ℤ ×ₗ ℤ ×ₗ ℤ ×ₗ String :=
  toLex (toRfc3339 entry.occurredAt, toLex (entry.blockHeight.getD 0,
    toLex (entry.nonce.getD 0, toLex (entry.minTransferIndex.getD 0, entry.txHash))))

/-- What makes the pages list the matching entries: their number fits, the stored texts are read
back and compare with the bounds as the instants do, and every two matching entries compare by
either key as they do in settle order. -/
structure PagesAgree (parseDatetime : String → Option ℤ) (filters : TransactionFilters)
    (entries : List LedgerBuildEntry) : Prop where
  count : (matchingEntries filters entries).length ≤ u32Max
  bounds : ∀ entry ∈ entries, entry.Selected toRfc3339 filters ↔ entry.Matches filters
  readable : ∀ entry ∈ entries, entry.Matches filters →
    parseDatetime (toRfc3339 entry.occurredAt) = some entry.occurredAt
  ascending : ∀ left ∈ entries, ∀ right ∈ entries, left.Matches filters → right.Matches filters →
    (left.settleKey < right.settleKey ↔
      left.ascendingKey toRfc3339 < right.ascendingKey toRfc3339)
  descending : ∀ left ∈ entries, ∀ right ∈ entries, left.Matches filters → right.Matches filters →
    (left.settleKey < right.settleKey ↔
      left.descendingKey toRfc3339 < right.descendingKey toRfc3339)

/-- The pages of an account hold the matching entries, each once, in settle order or in its
reverse, and each page reports their number. -/
structure PagesPartition {Reliability : Type} (parseDatetime : String → Option ℤ)
    (withPendingState : Reliability → Reliability) (stored : List LedgerRow) (accountId : String)
    (entries : List LedgerBuildEntry) (filters : TransactionFilters) (pageSize : ℕ)
    (reliability : Reliability) : Prop where
  total : pageTotalForKind toRfc3339 stored accountId .confirmed filters =
    .ok (matchingEntries filters entries).length
  ascending : ∀ count, (matchingEntries filters entries).length ≤ count * pageSize →
    count * pageSize ≤ i64Max → ∃ pages,
      confirmedPages toRfc3339 parseDatetime withPendingState stored accountId count pageSize
        .ascending filters reliability = .ok pages ∧
      pages.flatMap (·.rows) = (matchingEntries filters entries).map (shownRow reliability) ∧
      ∀ page ∈ pages, page.total = (matchingEntries filters entries).length
  descending : ∀ count, (matchingEntries filters entries).length ≤ count * pageSize →
    count * pageSize ≤ i64Max → ∃ pages,
      confirmedPages toRfc3339 parseDatetime withPendingState stored accountId count pageSize
        .descending filters reliability = .ok pages ∧
      pages.flatMap (·.rows) =
        ((matchingEntries filters entries).map (shownRow reliability)).reverse ∧
      ∀ page ∈ pages, page.total = (matchingEntries filters entries).length

end Stored

/-! ## The pages of a query -/

section Queries

variable {Reliability : Type} {toRfc3339 : ℤ → String} {parseDatetime : String → Option ℤ}
  {withPendingState : Reliability → Reliability} {table : List LedgerRow} {accountId : String}
  {filters : TransactionFilters} {sort : TransactionSortDirection} {reliability : Reliability}
  {pageSize count total : ℕ}

theorem selectedRows_of_isEmpty (none : (statusesForKind .confirmed filters).isEmpty = true) :
    selectedRows toRfc3339 table accountId .confirmed filters = [] := by
  refine List.filter_eq_nil_iff.mpr fun row _ => ?_
  rw [List.isEmpty_iff.mp none]
  simp

theorem pageTotalForKind_eq_ok :
    pageTotalForKind toRfc3339 table accountId .confirmed filters = .ok total ↔
      (selectedRows toRfc3339 table accountId .confirmed filters).length = total ∧
        total ≤ u32Max := by
  unfold pageTotalForKind
  split
  · next none =>
      rw [selectedRows_of_isEmpty none, Except.ok.injEq]
      constructor
      · intro zero
        exact ⟨zero, zero ▸ Nat.zero_le _⟩
      · exact And.left
  · dsimp only
    split
    · next fits =>
        rw [Except.ok.injEq]
        exact ⟨fun same => ⟨same, same ▸ fits⟩, And.left⟩
    · next large =>
        refine iff_of_false nofun ?_
        rintro ⟨same, fits⟩
        exact large (same ▸ fits)

theorem loadPageRows_eq {index : ℕ} (fits : ((index * pageSize : ℕ) : ℤ) ≤ i64Max) :
    loadPageRows toRfc3339 parseDatetime withPendingState table accountId .confirmed (index + 1)
        pageSize sort filters reliability =
      (slice pageSize (orderedRows .confirmed sort
        (selectedRows toRfc3339 table accountId .confirmed filters)) index).mapM
          (decodeRow parseDatetime withPendingState reliability) := by
  have unbounded : min ((index + 1 - 1) * pageSize) u64Max = index * pageSize := by
    rw [Nat.add_sub_cancel]
    unfold i64Max at fits
    exact min_eq_left (by unfold u64Max; omega)
  unfold loadPageRows
  dsimp only
  rw [unbounded, if_neg (not_lt.mpr fits)]
  split
  · next none =>
      rw [selectedRows_of_isEmpty none]
      cases sort with
      | ascending => simp [slice, orderedRows, pure, Except.pure]
      | descending => simp [slice, orderedRows, pure, Except.pure]
  · rfl

theorem confirmedPages_eq_ok {rows : List (AccountTransactionLedgerRow Reliability)}
    (isTotal : pageTotalForKind toRfc3339 table accountId .confirmed filters = .ok total)
    (fits : ((count * pageSize : ℕ) : ℤ) ≤ i64Max) :
    (∃ pages, confirmedPages toRfc3339 parseDatetime withPendingState table accountId count
          pageSize sort filters reliability = .ok pages ∧ pages.flatMap (·.rows) = rows) ↔
      ((orderedRows .confirmed sort
        (selectedRows toRfc3339 table accountId .confirmed filters)).take (count * pageSize)).mapM
          (decodeRow parseDatetime withPendingState reliability) = .ok rows := by
  rw [← flatMap_slice]
  refine mapM_chunks fun index member found => ?_
  have early : index * pageSize ≤ count * pageSize :=
    Nat.mul_le_mul_right _ (List.mem_range.mp member).le
  have fitsHere : ((index * pageSize : ℕ) : ℤ) ≤ i64Max := (Int.ofNat_le.mpr early).trans fits
  rw [← loadPageRows_eq fitsHere]
  unfold loadPage
  rw [isTotal]
  constructor
  · rintro ⟨page, loaded, isFound⟩
    obtain ⟨_, -, done⟩ := bind_eq_ok.mp loaded
    obtain ⟨read, isRead, done⟩ := bind_eq_ok.mp done
    obtain rfl := Except.ok.inj done
    rw [isRead, ← isFound]
  · intro isRead
    refine ⟨⟨index + 1, pageSize, total, found⟩, ?_, rfl⟩
    rw [isRead]
    rfl

theorem total_of_mem_confirmedPages {pages : List (AccountTransactionLedgerPage Reliability)}
    (loaded : confirmedPages toRfc3339 parseDatetime withPendingState table accountId count
      pageSize sort filters reliability = .ok pages)
    (isTotal : pageTotalForKind toRfc3339 table accountId .confirmed filters = .ok total)
    {page : AccountTransactionLedgerPage Reliability} (member : page ∈ pages) :
    page.total = total := by
  obtain ⟨index, -, made⟩ := (mem_of_mapM_eq_ok loaded).2 page member
  obtain ⟨_, isRead, done⟩ := bind_eq_ok.mp made
  obtain ⟨_, -, done⟩ := bind_eq_ok.mp done
  obtain rfl := Except.ok.inj done
  exact Except.ok.inj (isRead.symm.trans isTotal)

end Queries

/-! ## Stored entries -/

section Entries

variable {Reliability : Type} {toRfc3339 : ℤ → String} {parseDatetime : String → Option ℤ}
  {withPendingState : Reliability → Reliability} {table stored : List LedgerRow}
  {accountId : String} {filters : TransactionFilters} {reliability : Reliability}
  {entries : List LedgerBuildEntry} {entry : LedgerBuildEntry} {row : LedgerRow}

theorem parseOptionalParts_splitOptionalAmount {amount : Option UnsignedAmount}
    {parts : Option AmountSplitParts} {writtenField readField : String}
    (written : splitOptionalAmount amount writtenField = .ok parts) :
    parseOptionalParts parts readField = .ok amount := by
  cases amount with
  | none =>
    cases written
    rfl
  | some value =>
    obtain ⟨split, isSplit, done⟩ := bind_eq_ok.mp written
    rw [pure_eq_ok] at done
    subst done
    unfold parseOptionalParts
    dsimp only
    rw [parseSplitAmount_splitUnsignedAmount isSplit]
    rfl

theorem decodeRow_eq_ok (settled : entry.Settled)
    (written : storeEntry toRfc3339 accountId entry = .ok row)
    {shown : AccountTransactionLedgerRow Reliability} :
    decodeRow parseDatetime withPendingState reliability row = .ok shown ↔
      ∃ instant, parseDatetime (toRfc3339 entry.occurredAt) = some instant ∧
        shown = { shownRow reliability entry with occurredAt := instant } := by
  obtain ⟨value, isValue, done⟩ := bind_eq_ok.mp written
  obtain ⟨fee, isFee, done⟩ := bind_eq_ok.mp done
  obtain ⟨closing, isClosing, done⟩ := bind_eq_ok.mp done
  obtain ⟨delta, -, done⟩ := bind_eq_ok.mp done
  rw [pure_eq_ok] at done
  subst done
  have active : entry.status ≠ .pending := by
    intro pending
    rcases settled with confirmed | failed
    · rw [confirmed] at pending
      cases pending
    · rw [failed] at pending
      cases pending
  unfold decodeRow
  dsimp only
  rw [parseSplitAmount_splitUnsignedAmount isValue, parseOptionalParts_splitOptionalAmount isFee,
    parseOptionalParts_splitOptionalAmount isClosing, if_neg active]
  cases parseDatetime (toRfc3339 entry.occurredAt) with
  | none => exact iff_of_false nofun fun ⟨_, unread, _⟩ => nomatch unread
  | some instant =>
    constructor
    · intro read
      exact ⟨instant, rfl, (Except.ok.inj read).symm⟩
    · rintro ⟨_, same, isShown⟩
      rw [isShown, ← Option.some.inj same]
      rfl

theorem mem_statusesForKind_confirmed {status : ChainTransactionStatus} :
    status ∈ statusesForKind .confirmed filters ↔
      (status = .confirmed ∨ status = .failed) ∧
        (filters.status = [] ∨ status ∈ filters.status) := by
  unfold statusesForKind
  split
  · next none =>
      rw [List.isEmpty_iff.mp none]
      simp [AccountTransactionTableKind.defaultStatuses]
  · next some' =>
      rw [List.isEmpty_iff] at some'
      simp [AccountTransactionTableKind.defaultStatuses, some', and_comm]

theorem LedgerBuildEntry.Selected.settled (selected : entry.Selected toRfc3339 filters) :
    entry.Settled :=
  (mem_statusesForKind_confirmed.mp selected.1).1

theorem exists_rowOf
    (replaced : replaceAccountTransactionLedgerEntries toRfc3339 table accountId entries =
      .ok stored) :
    ∃ rowOf : LedgerBuildEntry → LedgerRow,
      (∀ entry ∈ entries, storeEntry toRfc3339 accountId entry = .ok (rowOf entry)) ∧
      stored = table.filter (fun row => row.accountId ≠ accountId) ++ entries.map rowOf := by
  obtain ⟨rows, inserted, done⟩ := bind_eq_ok.mp replaced
  rw [pure_eq_ok] at done
  have anyRow : Nonempty LedgerRow :=
    ⟨⟨"", "", "", .pending, "", "", none, none, none, .incoming, [], [], ⟨0, 0⟩, none, none,
      ⟨0, 0⟩, false⟩⟩
  have each : ∀ entry, ∃ row, entry ∈ entries →
      storeEntry toRfc3339 accountId entry = .ok row := by
    intro entry
    by_cases member : entry ∈ entries
    · obtain ⟨row, -, written⟩ := (mem_of_mapM_eq_ok inserted).1 entry member
      exact ⟨row, fun _ => written⟩
    · exact ⟨anyRow.some, fun present => absurd present member⟩
  obtain ⟨rowOf, writes⟩ := Classical.skolem.mp each
  refine ⟨rowOf, writes, ?_⟩
  have rowsEq : rows = entries.map rowOf :=
    Except.ok.inj (inserted.symm.trans (mapM_eq_ok_map writes))
  rw [← done, rowsEq]

variable {rowOf : LedgerBuildEntry → LedgerRow}

theorem columns_storeEntry (written : storeEntry toRfc3339 accountId entry = .ok row) :
    row.accountId = accountId ∧ row.status = entry.status ∧
      row.occurredAt = toRfc3339 entry.occurredAt ∧
      row.ascendingKey = entry.ascendingKey toRfc3339 ∧
      row.descendingKey = entry.descendingKey toRfc3339 := by
  obtain ⟨_, -, done⟩ := bind_eq_ok.mp written
  obtain ⟨_, -, done⟩ := bind_eq_ok.mp done
  obtain ⟨_, -, done⟩ := bind_eq_ok.mp done
  obtain ⟨_, -, done⟩ := bind_eq_ok.mp done
  rw [pure_eq_ok] at done
  subst done
  exact ⟨rfl, rfl, rfl, rfl, rfl⟩

theorem selectedRows_stored
    (writes : ∀ entry ∈ entries, storeEntry toRfc3339 accountId entry = .ok (rowOf entry)) :
    selectedRows toRfc3339
        (table.filter (fun row => row.accountId ≠ accountId) ++ entries.map rowOf) accountId
        .confirmed filters =
      (entries.filter fun entry => entry.Selected toRfc3339 filters).map rowOf := by
  have others : (table.filter fun row => row.accountId ≠ accountId).filter (fun row =>
      row.accountId = accountId ∧ row.status ∈ statusesForKind .confirmed filters ∧
        (∀ date ∈ filters.fromDate, toRfc3339 date ≤ row.occurredAt) ∧
        ∀ date ∈ filters.toDate, row.occurredAt ≤ toRfc3339 date) = [] := by
    refine List.filter_eq_nil_iff.mpr fun row member matched => ?_
    have apart := of_decide_eq_true (List.mem_filter.mp member).2
    exact apart (of_decide_eq_true matched).1
  unfold selectedRows
  rw [List.filter_append, others, List.nil_append, List.filter_map]
  refine congrArg (List.map rowOf) (List.filter_congr fun entry member => ?_)
  obtain ⟨account, status, occurred, -⟩ := columns_storeEntry (writes entry member)
  refine decide_eq_decide.mpr ?_
  rw [account, status, occurred]
  exact ⟨And.right, fun selected => ⟨rfl, selected⟩⟩

theorem orderedRows_ascending
    (writes : ∀ entry ∈ entries, storeEntry toRfc3339 accountId entry = .ok (rowOf entry)) :
    orderedRows .confirmed .ascending
        ((entries.filter fun entry => entry.Selected toRfc3339 filters).map rowOf) =
      ((entries.filter fun entry => entry.Selected toRfc3339 filters).insertionSort
        fun left right =>
          left.ascendingKey toRfc3339 ≤ right.ascendingKey toRfc3339).map rowOf := by
  refine (List.map_insertionSort _ _ rowOf _ fun left isLeft right isRight => ?_).symm
  obtain ⟨-, -, -, leftKey, -⟩ := columns_storeEntry (writes left (List.mem_of_mem_filter isLeft))
  obtain ⟨-, -, -, rightKey, -⟩ :=
    columns_storeEntry (writes right (List.mem_of_mem_filter isRight))
  rw [leftKey, rightKey]

theorem keys_nodup {A B C D : Type} (key : LedgerBuildEntry → A ×ₗ B ×ₗ C ×ₗ D ×ₗ String)
    (isHash : ∀ entry, (ofLex (ofLex (ofLex (ofLex (key entry)).2).2).2).2 = entry.txHash)
    (distinct : (entries.map (·.txHash)).Nodup) : (entries.map key).Nodup := by
  refine List.Nodup.of_map (fun key => (ofLex (ofLex (ofLex (ofLex key).2).2).2).2) ?_
  rw [List.map_map]
  exact (congrArg (fun hash => (entries.map hash).Nodup) (funext isHash)).mpr distinct

theorem filter_hashes_nodup (distinct : (entries.map (·.txHash)).Nodup)
    (kept : LedgerBuildEntry → Bool) :
    ((entries.filter kept).map (·.txHash)).Nodup :=
  distinct.sublist (List.filter_sublist.map _)

theorem orderedRows_descending (distinct : (entries.map (·.txHash)).Nodup)
    (writes : ∀ entry ∈ entries, storeEntry toRfc3339 accountId entry = .ok (rowOf entry)) :
    orderedRows .confirmed .descending
        ((entries.filter fun entry => entry.Selected toRfc3339 filters).map rowOf) =
      (((entries.filter fun entry => entry.Selected toRfc3339 filters).insertionSort
        fun left right =>
          left.descendingKey toRfc3339 ≤ right.descendingKey toRfc3339).reverse).map rowOf := by
  rw [← insertionSort_descending (keys_nodup _ (fun _ => rfl) (filter_hashes_nodup distinct _))]
  refine (List.map_insertionSort _ _ rowOf _ fun left isLeft right isRight => ?_).symm
  obtain ⟨-, -, -, -, leftKey⟩ := columns_storeEntry (writes left (List.mem_of_mem_filter isLeft))
  obtain ⟨-, -, -, -, rightKey⟩ :=
    columns_storeEntry (writes right (List.mem_of_mem_filter isRight))
  rw [leftKey, rightKey]

theorem matchingEntries_eq (distinct : (entries.map (·.txHash)).Nodup) :
    matchingEntries filters entries =
      (entries.filter fun entry => entry.Matches filters).insertionSort
        fun left right => left.settleKey ≤ right.settleKey := by
  refine (insertionSort_eq ?_ ?_).symm
  · have settled : ((settledOrder entries).map Prod.fst).Perm
        (entries.filter fun entry => entry.Settled) := by
      unfold settledOrder
      refine ((List.perm_insertionSort _ _).map Prod.fst).trans (List.Perm.of_eq ?_)
      conv_rhs => rw [← List.zipIdx_map_fst 0 entries, List.filter_map]
      rfl
    refine (settled.filter _).trans (List.Perm.of_eq ?_)
    rw [List.filter_filter]
    refine List.filter_congr fun entry _ => ?_
    rw [← Bool.decide_and]
    exact decide_eq_decide.mpr ⟨And.left, fun matched => ⟨matched, matched.1⟩⟩
  · have ascending : ((settledOrder entries).map Prod.fst).Pairwise
        fun left right => left.settleKey < right.settleKey :=
      List.pairwise_map.mpr (settledOrder_ascending distinct)
    exact ascending.filter _

theorem mapM_decodeRow_eq_ok {listed shown : List LedgerBuildEntry}
    (distinct : (entries.map (·.txHash)).Nodup)
    (writes : ∀ entry ∈ entries, storeEntry toRfc3339 accountId entry = .ok (rowOf entry))
    (isListed : ∀ entry ∈ listed, entry ∈ entries ∧ entry.Settled)
    (isShown : ∀ entry ∈ shown, entry ∈ entries) :
    (listed.map rowOf).mapM (decodeRow parseDatetime withPendingState reliability) =
        .ok (shown.map (shownRow reliability)) ↔
      listed = shown ∧
        ∀ entry ∈ listed, parseDatetime (toRfc3339 entry.occurredAt) = some entry.occurredAt := by
  rw [mapM_eq_ok_iff_forall₂, List.forall₂_map_left_iff, List.forall₂_map_right_iff]
  induction listed generalizing shown with
  | nil =>
    rw [List.forall₂_nil_left_iff]
    exact ⟨fun empty => ⟨empty.symm, List.forall_mem_nil _⟩, fun both => both.1.symm⟩
  | cons first rest ih =>
    obtain ⟨⟨firstIn, settled⟩, restIn⟩ := List.forall_mem_cons.mp isListed
    cases shown with
    | nil =>
      rw [List.forall₂_nil_right_iff]
      exact iff_of_false (List.cons_ne_nil _ _) fun both => List.cons_ne_nil _ _ both.1
    | cons other others =>
      obtain ⟨otherIn, othersIn⟩ := List.forall_mem_cons.mp isShown
      rw [List.forall₂_cons, ih restIn othersIn, decodeRow_eq_ok settled (writes first firstIn),
        List.forall_mem_cons, List.cons.injEq]
      constructor
      · rintro ⟨⟨instant, read, same⟩, sameRest, readRest⟩
        have hash : other.txHash = first.txHash :=
          congrArg AccountTransactionLedgerRow.txHash same
        obtain rfl := List.inj_on_of_nodup_map distinct otherIn firstIn hash
        have time : other.occurredAt = instant :=
          congrArg AccountTransactionLedgerRow.occurredAt same
        exact ⟨⟨rfl, sameRest⟩, time ▸ read, readRest⟩
      · rintro ⟨⟨same, sameRest⟩, read, readRest⟩
        subst same
        exact ⟨⟨_, read, rfl⟩, sameRest, readRest⟩

theorem confirmedPages_shown_iff {sort : TransactionSortDirection} {pageSize count total : ℕ}
    {listed shown : List LedgerBuildEntry} (distinct : (entries.map (·.txHash)).Nodup)
    (writes : ∀ entry ∈ entries, storeEntry toRfc3339 accountId entry = .ok (rowOf entry))
    (ordered : orderedRows .confirmed sort
      (selectedRows toRfc3339 stored accountId .confirmed filters) = listed.map rowOf)
    (isTotal : pageTotalForKind toRfc3339 stored accountId .confirmed filters = .ok total)
    (fits : ((count * pageSize : ℕ) : ℤ) ≤ i64Max) (enough : listed.length ≤ count * pageSize)
    (isListed : ∀ entry ∈ listed, entry ∈ entries ∧ entry.Settled)
    (isShown : ∀ entry ∈ shown, entry ∈ entries) :
    (∃ pages, confirmedPages toRfc3339 parseDatetime withPendingState stored accountId count
          pageSize sort filters reliability = .ok pages ∧
        pages.flatMap (·.rows) = shown.map (shownRow reliability)) ↔
      listed = shown ∧
        ∀ entry ∈ listed, parseDatetime (toRfc3339 entry.occurredAt) = some entry.occurredAt := by
  rw [confirmedPages_eq_ok isTotal fits, ordered,
    List.take_of_length_le (by rwa [List.length_map]),
    mapM_decodeRow_eq_ok distinct writes isListed isShown]

theorem mem_matchingEntries (distinct : (entries.map (·.txHash)).Nodup) :
    entry ∈ matchingEntries filters entries ↔ entry ∈ entries ∧ entry.Matches filters := by
  rw [matchingEntries_eq distinct, (List.perm_insertionSort _ _).mem_iff, List.mem_filter,
    decide_eq_true_eq]

theorem length_matchingEntries (distinct : (entries.map (·.txHash)).Nodup) :
    (matchingEntries filters entries).length =
      (entries.filter fun entry => entry.Matches filters).length := by
  rw [matchingEntries_eq distinct, (List.perm_insertionSort _ _).length_eq]

theorem pagesAgree_of_partition (distinct : (entries.map (·.txHash)).Nodup)
    (writes : ∀ entry ∈ entries, storeEntry toRfc3339 accountId entry = .ok (rowOf entry))
    (isStored : stored = table.filter (fun row => row.accountId ≠ accountId) ++ entries.map rowOf)
    {pageSize : ℕ} (positive : 1 ≤ pageSize) (small : pageSize ≤ u32Max)
    (pages : PagesPartition toRfc3339 parseDatetime withPendingState stored accountId entries
      filters pageSize reliability) : PagesAgree toRfc3339 parseDatetime filters entries := by
  have selected : selectedRows toRfc3339 stored accountId .confirmed filters =
      (entries.filter fun entry => entry.Selected toRfc3339 filters).map rowOf :=
    isStored ▸ selectedRows_stored writes
  obtain ⟨sameCount, fitsTotal⟩ := pageTotalForKind_eq_ok.mp pages.total
  rw [selected, List.length_map] at sameCount
  -- one page more than needed covers all rows, far below the range of offsets
  have enough : (matchingEntries filters entries).length ≤
      ((matchingEntries filters entries).length / pageSize + 1) * pageSize := by
    rw [Nat.mul_comm]
    exact (Nat.lt_mul_div_succ _ positive).le
  have fits : ((((matchingEntries filters entries).length / pageSize + 1) * pageSize : ℕ) : ℤ) ≤
      i64Max := by
    have bound := Nat.div_mul_le_self (matchingEntries filters entries).length pageSize
    rw [Nat.add_mul, Nat.one_mul]
    unfold u32Max at fitsTotal small
    unfold i64Max
    omega
  have members {ordered : List LedgerBuildEntry} (perm : ordered.Perm
      (entries.filter fun entry => entry.Selected toRfc3339 filters)) :
      (∀ entry ∈ ordered, entry ∈ entries ∧ entry.Settled) ∧
        ordered.length = (matchingEntries filters entries).length := by
    refine ⟨fun entry member => ?_, perm.length_eq.trans sameCount⟩
    obtain ⟨present, isSelected⟩ := List.mem_filter.mp (perm.mem_iff.mp member)
    exact ⟨present, (of_decide_eq_true isSelected).settled⟩
  have sorted := members (List.perm_insertionSort
    (fun left right : LedgerBuildEntry =>
      left.ascendingKey toRfc3339 ≤ right.ascendingKey toRfc3339) _)
  have reversed := members ((List.reverse_perm _).trans (List.perm_insertionSort
    (fun left right : LedgerBuildEntry =>
      left.descendingKey toRfc3339 ≤ right.descendingKey toRfc3339) _))
  obtain ⟨ascendingPages, loaded, held, -⟩ := pages.ascending _ enough fits
  obtain ⟨sameAscending, readable⟩ := (confirmedPages_shown_iff distinct writes
    (by rw [selected, orderedRows_ascending writes]) pages.total fits
    (sorted.2.trans_le enough) sorted.1
    fun entry member => ((mem_matchingEntries distinct).mp member).1).mp
      ⟨ascendingPages, loaded, held⟩
  obtain ⟨descendingPages, loaded, held, -⟩ := pages.descending _ enough fits
  rw [← List.map_reverse] at held
  obtain ⟨sameDescending, -⟩ := (confirmedPages_shown_iff distinct writes
    (by rw [selected, orderedRows_descending distinct writes]) pages.total fits
    (reversed.2.trans_le enough) reversed.1
    fun entry member => ((mem_matchingEntries distinct).mp (List.mem_reverse.mp member)).1).mp
      ⟨descendingPages, loaded, held⟩
  have bounds : ∀ entry ∈ entries, entry.Selected toRfc3339 filters ↔ entry.Matches filters := by
    intro entry present
    have listed : entry ∈ entries.filter (fun entry => entry.Selected toRfc3339 filters) ↔
        entry ∈ matchingEntries filters entries := by
      rw [← sameAscending, (List.perm_insertionSort _ _).mem_iff]
    rw [List.mem_filter, mem_matchingEntries distinct, decide_eq_true_eq] at listed
    exact ⟨fun isSelected => (listed.mp ⟨present, isSelected⟩).2,
      fun isMatch => (listed.mpr ⟨present, isMatch⟩).2⟩
  have sameEntries : (entries.filter fun entry => entry.Selected toRfc3339 filters) =
      entries.filter fun entry => entry.Matches filters :=
    List.filter_congr fun entry member => decide_eq_decide.mpr (bounds entry member)
  have distinctMatching := filter_hashes_nodup distinct fun entry => entry.Matches filters
  rw [sameEntries, matchingEntries_eq distinct] at sameAscending sameDescending
  have ascending := (insertionSort_eq_iff (keys_nodup _ (fun _ => rfl) distinctMatching)
    (keys_nodup _ (fun _ => rfl) distinctMatching)).mp sameAscending.symm
  have descending := (insertionSort_eq_iff (keys_nodup _ (fun _ => rfl) distinctMatching)
    (keys_nodup _ (fun _ => rfl) distinctMatching)).mp (List.reverse_injective sameDescending).symm
  have kept {entry : LedgerBuildEntry} (present : entry ∈ entries)
      (isMatch : entry.Matches filters) :
      entry ∈ entries.filter fun entry => entry.Matches filters :=
    List.mem_filter.mpr ⟨present, decide_eq_true isMatch⟩
  refine ⟨fitsTotal, bounds, ?_, ?_, ?_⟩
  · intro entry present isMatch
    refine readable entry ?_
    rw [(List.perm_insertionSort _ _).mem_iff, List.mem_filter, decide_eq_true_eq]
    exact ⟨present, (bounds entry present).mpr isMatch⟩
  · exact fun left isLeft right isRight leftMatch rightMatch =>
      ascending left (kept isLeft leftMatch) right (kept isRight rightMatch)
  · exact fun left isLeft right isRight leftMatch rightMatch =>
      descending left (kept isLeft leftMatch) right (kept isRight rightMatch)

theorem partition_of_pagesAgree (distinct : (entries.map (·.txHash)).Nodup)
    (writes : ∀ entry ∈ entries, storeEntry toRfc3339 accountId entry = .ok (rowOf entry))
    (isStored : stored = table.filter (fun row => row.accountId ≠ accountId) ++ entries.map rowOf)
    (agree : PagesAgree toRfc3339 parseDatetime filters entries) (pageSize : ℕ) :
    PagesPartition toRfc3339 parseDatetime withPendingState stored accountId entries filters
      pageSize reliability := by
  have sameEntries : (entries.filter fun entry => entry.Selected toRfc3339 filters) =
      entries.filter fun entry => entry.Matches filters :=
    List.filter_congr fun entry member => decide_eq_decide.mpr (agree.bounds entry member)
  have selected : selectedRows toRfc3339 stored accountId .confirmed filters =
      (entries.filter fun entry => entry.Selected toRfc3339 filters).map rowOf :=
    isStored ▸ selectedRows_stored writes
  have isTotal : pageTotalForKind toRfc3339 stored accountId .confirmed filters =
      .ok (matchingEntries filters entries).length := by
    rw [pageTotalForKind_eq_ok, selected, List.length_map, sameEntries,
      ← length_matchingEntries distinct]
    exact ⟨rfl, agree.count⟩
  have distinctMatching := filter_hashes_nodup distinct fun entry => entry.Matches filters
  have inEntries {entry : LedgerBuildEntry}
      (member : entry ∈ entries.filter fun entry => entry.Matches filters) :
      entry ∈ entries ∧ entry.Matches filters := by
    rw [List.mem_filter, decide_eq_true_eq] at member
    exact member
  have sameAscending : (entries.filter fun entry => entry.Selected toRfc3339 filters).insertionSort
      (fun left right => left.ascendingKey toRfc3339 ≤ right.ascendingKey toRfc3339) =
        matchingEntries filters entries := by
    rw [sameEntries, matchingEntries_eq distinct]
    refine ((insertionSort_eq_iff (keys_nodup _ (fun _ => rfl) distinctMatching)
      (keys_nodup _ (fun _ => rfl) distinctMatching)).mpr ?_).symm
    intro left isLeft right isRight
    exact agree.ascending left (inEntries isLeft).1 right (inEntries isRight).1
      (inEntries isLeft).2 (inEntries isRight).2
  have sameDescending : (entries.filter fun entry => entry.Selected toRfc3339 filters).insertionSort
      (fun left right => left.descendingKey toRfc3339 ≤ right.descendingKey toRfc3339) =
        matchingEntries filters entries := by
    rw [sameEntries, matchingEntries_eq distinct]
    refine ((insertionSort_eq_iff (keys_nodup _ (fun _ => rfl) distinctMatching)
      (keys_nodup _ (fun _ => rfl) distinctMatching)).mpr ?_).symm
    intro left isLeft right isRight
    exact agree.descending left (inEntries isLeft).1 right (inEntries isRight).1
      (inEntries isLeft).2 (inEntries isRight).2
  have isShown : ∀ entry ∈ matchingEntries filters entries, entry ∈ entries ∧ entry.Settled := by
    intro entry member
    obtain ⟨present, isMatch⟩ := (mem_matchingEntries distinct).mp member
    exact ⟨present, isMatch.1⟩
  have readable : ∀ entry ∈ matchingEntries filters entries,
      parseDatetime (toRfc3339 entry.occurredAt) = some entry.occurredAt := by
    intro entry member
    obtain ⟨present, isMatch⟩ := (mem_matchingEntries distinct).mp member
    exact agree.readable entry present isMatch
  refine ⟨isTotal, ?_, ?_⟩
  · intro count enough fits
    obtain ⟨pages, loaded, held⟩ := (@confirmedPages_shown_iff _ _ _ withPendingState _ _ _
      reliability _ _ _ _ _ _ _ _ distinct writes
      (by rw [selected, orderedRows_ascending writes, sameAscending]) isTotal fits enough isShown
      fun entry member => (isShown entry member).1).mpr ⟨rfl, readable⟩
    exact ⟨pages, loaded, held, fun page member =>
      total_of_mem_confirmedPages loaded isTotal member⟩
  · intro count enough fits
    obtain ⟨pages, loaded, held⟩ := (@confirmedPages_shown_iff _ _ _ withPendingState _ _ _
      reliability _ _ _ _ _ _ _ _ distinct writes
      (by rw [selected, orderedRows_descending distinct writes, sameDescending]) isTotal fits
      (by rwa [List.length_reverse])
      (fun entry member => isShown entry (List.mem_reverse.mp member))
      fun entry member => (isShown entry (List.mem_reverse.mp member)).1).mpr
        ⟨rfl, fun entry member => readable entry (List.mem_reverse.mp member)⟩
    rw [List.map_reverse] at held
    exact ⟨pages, loaded, held, fun page member =>
      total_of_mem_confirmedPages loaded isTotal member⟩

/-- **When the pages partition the ledger.** Whatever an account's ledger holds and the filters
are, and for every page size, the confirmed pages hold each matching entry once and nothing else,
as many as the reported total, the ascending ones in settle order and the descending ones in its
reverse, exactly when the entries agree as `PagesAgree` says. -/
theorem pages_partition_iff (distinct : (entries.map (·.txHash)).Nodup)
    (replaced : replaceAccountTransactionLedgerEntries toRfc3339 table accountId entries =
      .ok stored) {pageSize : ℕ} (positive : 1 ≤ pageSize) (small : pageSize ≤ u32Max) :
    PagesPartition toRfc3339 parseDatetime withPendingState stored accountId entries filters
        pageSize reliability ↔
      PagesAgree toRfc3339 parseDatetime filters entries := by
  obtain ⟨rowOf, writes, isStored⟩ := exists_rowOf replaced
  exact ⟨pagesAgree_of_partition distinct writes isStored positive small,
    fun agree => partition_of_pagesAgree distinct writes isStored agree pageSize⟩

end Entries

/-! ## One block, two orders -/

/-- The text of 1 January 2024, read. -/
def readNewYear (_ : String) : Option ℤ := some 1704067200000000000

def noFilters : TransactionFilters := ⟨[], none, none⟩

private theorem nonceThenInternal_stored :
    replaceAccountTransactionLedgerEntries newYearText [] "account" nonceThenInternal =
      .ok ((replaceAccountTransactionLedgerEntries newYearText [] "account"
        nonceThenInternal).toOption.getD []) := by
  decide +kernel

/-- The equivalence for two entries of one block. -/
theorem pages_partition_nonceThenInternal :
    PagesPartition newYearText readNewYear (id : Unit → Unit)
        ((replaceAccountTransactionLedgerEntries newYearText [] "account"
          nonceThenInternal).toOption.getD []) "account" nonceThenInternal noFilters 25 () ↔
      PagesAgree newYearText readNewYear noFilters nonceThenInternal :=
  pages_partition_iff (by decide) nonceThenInternal_stored (by decide) (by decide)

/-- The entry without a nonce settles last, and comes last on the descending page too. -/
theorem not_pages_partition :
    ¬∀ (toRfc3339 : ℤ → String) (parseDatetime : String → Option ℤ)
        (entries : List LedgerBuildEntry) (table stored : List LedgerRow) (accountId : String)
        (filters : TransactionFilters) (pageSize : ℕ),
      (entries.map (·.txHash)).Nodup →
      replaceAccountTransactionLedgerEntries toRfc3339 table accountId entries = .ok stored →
      1 ≤ pageSize → pageSize ≤ u32Max →
      PagesPartition toRfc3339 parseDatetime (id : Unit → Unit) stored accountId entries filters
        pageSize () := by
  intro partitions
  have pages := partitions newYearText readNewYear nonceThenInternal [] _ "account" noFilters 25
    (by decide) nonceThenInternal_stored (by decide) (by decide)
  obtain ⟨rowOf, writes, isStored⟩ := exists_rowOf nonceThenInternal_stored
  have agree := pagesAgree_of_partition (by decide) writes isStored (by decide) (by decide) pages
  have descending := agree.descending
  unfold nonceThenInternal at descending
  have first := descending _ List.mem_cons_self _ (List.mem_cons_of_mem _ List.mem_cons_self)
    (by decide) (by decide)
  revert first
  decide +kernel

end Bitgarth.Ledger
