import Bitgarth.Store.Reconciliation

/-! # Reconciling account transactions

A record of an account-model transaction writes its chain row and its transfers: each is known
by the key the provider gives it, and the keys the record excludes are deleted. The account
ledgers that lose a transfer are rebuilt in the same SQL transaction; the rebuild touches none
of the tables here, so it is a parameter that may fail.
-/

namespace Bitgarth.Store

open Amounts Ledger KeyedTable

open Sync (SyncedAssetId)

/-! ## Transfer keys -/

/-- The identity a provider gives a transfer within its transaction. -/
structure ProviderTransferKey where
  text : String
deriving DecidableEq, Repr

namespace ProviderTransferKey

def normal : ProviderTransferKey := ⟨"normal"⟩

/-- The key of an internal transfer, from its trimmed trace id. -/
def fromInternalTraceId (traceId : String) : Option ProviderTransferKey :=
  if traceId = "" then none else some ⟨"internal:" ++ traceId⟩

def isNormal (key : ProviderTransferKey) : Bool :=
  key.text = "normal"

def internalTraceId (key : ProviderTransferKey) : Option (List Char) :=
  if "internal:".toList.isPrefixOf key.text.toList then
    some (key.text.toList.drop "internal:".toList.length)
  else
    none

end ProviderTransferKey

/-- The number of a nonempty list of decimal digits. -/
def parseDigits (digits : List Char) : Option ℤ :=
  if digits ≠ [] ∧ digits.all Char.isDigit = true then
    some (digits.foldl (fun number digit => 10 * number + (digit.toNat - '0'.toNat : ℕ)) 0)
  else
    none

/-- `str::parse::<i64>`. -/
def parseI64 (text : List Char) : Option ℤ :=
  let number := match text with
    | '+' :: digits => parseDigits digits
    | '-' :: digits => (parseDigits digits).map fun number => -number
    | digits => parseDigits digits
  number.filter fun number => i64Min ≤ number ∧ number ≤ i64Max

/-- The key a transfer had before providers' keys were stored. -/
def legacyProviderTransferKey (key : ProviderTransferKey) : Option String :=
  if key.isNormal then
    some "legacy:0"
  else do
    let traceId ← key.internalTraceId
    let lastSegment := (traceId.splitOn '_').getLastD traceId
    let oldIndex ← (parseI64 lastSegment).filter fun number => 0 ≤ number
    if oldIndex + 1 ≤ i64Max then
      some ("legacy:" ++ toString (oldIndex + 1))
    else
      none

/-! ## Records -/

structure SyncAccountTransferRecord where
  providerTransferKey : ProviderTransferKey
  transferIndex : ℤ
  transferKind : TransferKind
  fromAddress : Option String
  toAddress : Option String
  valueAmount : UnsignedAmount
deriving DecidableEq, Repr

/-- An account transaction to reconcile; the block time is in seconds. -/
structure SyncAccountTransactionRecord where
  txHash : String
  status : ChainTransactionStatus
  blockHeight : Option ℤ
  blockHash : Option String
  blockTime : Option ℤ
  feeAmount : Option UnsignedAmount
  nonce : Option ℤ
  transfers : List SyncAccountTransferRecord
  excludedTransferKeys : List ProviderTransferKey
deriving DecidableEq, Repr

def SyncAccountTransactionRecord.key (record : SyncAccountTransactionRecord)
    (assetId : SyncedAssetId) (network : Network) : TxKey where
  assetId
  network
  txHash := record.txHash

/-! ## Writes -/

section Writes

variable (toRfc3339 : ℤ → String) (addresses : List AddressRow) (key : TxKey)

/-- The two columns of a fee, `hi` first. -/
def accountFeeColumns (feeAmount : Option UnsignedAmount) :
    Except DbError (Option ℤ × Option ℤ) :=
  match feeAmount with
  | none => .ok (none, none)
  | some value => do
      let parts ← splitUnsignedAmount value "fee_amount"
      return (some parts.hi, some parts.lo)

/-- The row `upsert_account_chain_transaction` writes. -/
def accountChainTransactionRow (record : SyncAccountTransactionRecord) :
    Except DbError ChainTransactionRow := do
  let (feeAmountHi, feeAmountLo) ← accountFeeColumns record.feeAmount
  checkNonnegative [record.blockHeight, record.nonce] "Failed to upsert account chain transaction"
  return {
    key
    status := record.status
    blockHeight := record.blockHeight
    blockHash := record.blockHash
    blockTime := record.blockTime.map toRfc3339
    feeAmountLo
    feeAmountHi
    nonce := record.nonce }

/-- Delete the transfer of a key. -/
def deleteTransfer (providerTransferKey : String) (table : List AccountTransferRow) :
    List AccountTransferRow :=
  table.filter fun row => row.key ≠ (key, providerTransferKey)

/-- The row a transfer with a tracked end is stored as. -/
def accountTransferRow (fromAddressId toAddressId : Option String)
    (transfer : SyncAccountTransferRecord) : Except DbError AccountTransferRow := do
  let valueParts ← splitUnsignedAmount transfer.valueAmount "value_amount"
  checkNonnegative [some transfer.transferIndex] "Failed to upsert account transfer"
  return {
    txKey := key
    providerTransferKey := transfer.providerTransferKey.text
    transferIndex := transfer.transferIndex
    transferKind := transfer.transferKind
    fromAddress := transfer.fromAddress
    fromAddressId
    toAddress := transfer.toAddress
    toAddressId
    valueAmountHi := valueParts.hi
    valueAmountLo := valueParts.lo }

/-- The transfers without the legacy row of a key. -/
def retireLegacyTransfer (providerTransferKey : ProviderTransferKey)
    (table : List AccountTransferRow) : List AccountTransferRow :=
  (legacyProviderTransferKey providerTransferKey).elim table fun legacy =>
    deleteTransfer key legacy table

/-- One transfer: its legacy row is retired; it is stored when an end is tracked, otherwise
deleted. -/
def upsertAccountTransfer (table : List AccountTransferRow)
    (transfer : SyncAccountTransferRecord) : Except DbError (List AccountTransferRow) :=
  let table := retireLegacyTransfer key transfer.providerTransferKey table
  let fromAddressId := resolveOwnedAddressId addresses transfer.fromAddress
  let toAddressId := resolveOwnedAddressId addresses transfer.toAddress
  if fromAddressId = none ∧ toAddressId = none then
    .ok (deleteTransfer key transfer.providerTransferKey.text table)
  else do
    let row ← accountTransferRow key fromAddressId toAddressId transfer
    return upsert AccountTransferRow.key replaceRow row table

/-- `upsert_account_transfers`. -/
def upsertAccountTransfers (transfers : List SyncAccountTransferRecord)
    (table : List AccountTransferRow) : Except DbError (List AccountTransferRow) :=
  transfers.foldlM (upsertAccountTransfer addresses key) table

/-! ## Exclusions -/

/-- The accounts of the ends of some transfers, none of which may be null. -/
def transferOwners (rows : List AccountTransferRow) : Except DbError (List String) :=
  (rows.flatMap fun row => addresses.filter fun address =>
    some address.id = row.fromAddressId ∨ some address.id = row.toAddressId).mapM fun address =>
      match address.accountId with
      | none => .error ⟨"Failed to read excluded transfer owners: Invalid column type Null"⟩
      | some accountId => .ok accountId

/-- What exclusions leave: the transfers, how many were removed, and the accounts to rebuild. -/
structure ExclusionState where
  transfers : List AccountTransferRow
  removedTransfers : ℕ
  accountsToRebuild : List String

/-- Delete the transfer of one candidate key. -/
def excludeCandidate (state : ExclusionState) (candidate : String) :
    Except DbError ExclusionState := do
  let removed := state.transfers.filter fun row => row.key = (key, candidate)
  let accountIds ← transferOwners addresses removed
  return {
    transfers := deleteTransfer key candidate state.transfers
    removedTransfers := state.removedTransfers + removed.length
    accountsToRebuild := state.accountsToRebuild ∪ accountIds }

/-- The keys an exclusion deletes: its own and the legacy one. -/
def exclusionCandidates (excluded : ProviderTransferKey) : List String :=
  excluded.text :: (legacyProviderTransferKey excluded).toList

end Writes

/-! ## One record -/

structure AccountReconcileOutcome where
  tables : TransactionTables
  inserted : Bool
  updated : Bool

section Reconcile

variable (toRfc3339 : ℤ → String) (addresses : List AddressRow)
  (rebuild : TransactionTables → String → Except DbError Unit) (assetId : SyncedAssetId)
  (network : Network)

/-- `reconcile_account_transaction_tx`. -/
def reconcileAccountTransactionTx (record : SyncAccountTransactionRecord)
    (db : TransactionTables) : Except DbError AccountReconcileOutcome := do
  let key := record.key assetId network
  let existing := find ChainTransactionRow.key db.chainTransactions key
  let current ← accountChainTransactionRow toRfc3339 key record
  let chainTransactions :=
    upsert ChainTransactionRow.key replaceRow current db.chainTransactions
  if ∃ excluded ∈ record.excludedTransferKeys,
      excluded ∈ record.transfers.map SyncAccountTransferRecord.providerTransferKey then
    .error ⟨"Account transfer identity cannot be both retained and excluded"⟩
  else do
    let transfers ← upsertAccountTransfers addresses key record.transfers db.accountTransfers
    let state ← (record.excludedTransferKeys.flatMap exclusionCandidates).foldlM
      (excludeCandidate addresses key)
      { transfers, removedTransfers := 0, accountsToRebuild := [] }
    let (tables, deleted) := executeChainCleanup key
      { db with chainTransactions, accountTransfers := state.transfers }
    state.accountsToRebuild.forM (rebuild tables)
    if deleted then
      return { tables, inserted := false, updated := false }
    else
      return {
        tables
        inserted := existing.isNone
        updated := existing.any (· ≠ current) || 0 < state.removedTransfers }

end Reconcile

end Bitgarth.Store
