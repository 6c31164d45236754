import Mathlib.Data.Finset.Basic
import Mathlib.Data.Finset.Union
import Mathlib.Data.List.Sort
import Bitgarth.Store.Tables

/-! # Reconciling Bitcoin transactions

A record replaces what is stored of its transaction: the chain row, the inputs and outputs of
tracked addresses, and the unspent outputs with their spent links. Each record is one SQL
transaction, so an error leaves the tables as they were. What a record contradicts of a
confirmed transaction is named for the invalidation of coverage proofs. Instants are stored as
text by the parameter `toRfc3339`.
-/

namespace Bitgarth.Store

open Amounts Ledger KeyedTable

open Sync (SyncedAssetId)

/-! ## Columns -/

/-- `CHECK (column >= 0)` on columns that may be null. -/
def checkNonnegative (columns : List (Option ℤ)) (failure : String) : Except DbError Unit :=
  if ∀ column ∈ columns, ∀ number ∈ column, 0 ≤ number then
    .ok ()
  else
    .error ⟨failure ++ ": CHECK constraint failed"⟩

def splitI64Amount (value : ℤ) (fieldName : String) : Except DbError AmountSplitParts :=
  match UnsignedAmount.tryFromSigned value with
  | none => .error ⟨"Invalid " ++ fieldName ++ ": " ++
    (AmountError.negativeNotAllowed value).display⟩
  | some amount => splitUnsignedAmount amount fieldName

/-- The two columns of an amount that may be absent, `hi` first. -/
def splitOptionalI64Amount (value : Option ℤ) (fieldName : String) :
    Except DbError (Option ℤ × Option ℤ) :=
  match value with
  | none => .ok (none, none)
  | some value => do
      let parts ← splitI64Amount value fieldName
      return (some parts.hi, some parts.lo)

/-! ## Snapshots -/

structure CoverageInvalidationTargets where
  addressIds : Finset String
  accountIds : Finset String
deriving DecidableEq

def CoverageInvalidationTargets.empty : CoverageInvalidationTargets where
  addressIds := ∅
  accountIds := ∅

def CoverageInvalidationTargets.unionWith (left right : CoverageInvalidationTargets) :
    CoverageInvalidationTargets where
  addressIds := left.addressIds ∪ right.addressIds
  accountIds := left.accountIds ∪ right.accountIds

/-- What is stored of a transaction; inputs and outputs come with the account of their
address. -/
structure ExistingTransactionSnapshot where
  chain : ChainTransactionRow
  inputs : List (TransactionInputRow × String)
  outputs : List (TransactionOutputRow × String)
deriving DecidableEq

/-- `JOIN digital_asset_addresses`, reading an account id that must not be null. -/
def joinAccounts {Row : Type} (addresses : List AddressRow) (addressId : Row → String) :
    List Row → Except DbError (List (Row × String))
  | [] => .ok []
  | row :: rest =>
    match addresses.find? fun address => address.id = addressId row with
    | none => joinAccounts addresses addressId rest
    | some address =>
      match address.accountId with
      | none => .error ⟨"Failed to read owned snapshot: Invalid column type Null"⟩
      | some accountId => do
          let joined ← joinAccounts addresses addressId rest
          return (row, accountId) :: joined

/-- The stored inputs of a transaction, by index. -/
def TransactionTables.inputsOf (db : TransactionTables) (key : TxKey) : List TransactionInputRow :=
  (db.transactionInputs.filter fun row => row.txKey = key).mergeSort
    fun left right => left.inputIndex ≤ right.inputIndex

/-- The stored outputs of a transaction, by index. -/
def TransactionTables.outputsOf (db : TransactionTables) (key : TxKey) :
    List TransactionOutputRow :=
  (db.transactionOutputs.filter fun row => row.txKey = key).mergeSort
    fun left right => left.outputIndex ≤ right.outputIndex

def loadExistingTransactionSnapshot (addresses : List AddressRow) (db : TransactionTables)
    (key : TxKey) : Except DbError (Option ExistingTransactionSnapshot) :=
  match find ChainTransactionRow.key db.chainTransactions key with
  | none => .ok none
  | some chain => do
      let inputs ← joinAccounts addresses TransactionInputRow.addressId (db.inputsOf key)
      let outputs ← joinAccounts addresses TransactionOutputRow.addressId (db.outputsOf key)
      return some { chain, inputs, outputs }

/-- The addresses and accounts of a snapshot. -/
def ExistingTransactionSnapshot.ownedTargets (snapshot : ExistingTransactionSnapshot) :
    CoverageInvalidationTargets where
  addressIds := (snapshot.inputs.map (·.1.addressId) ++
    snapshot.outputs.map (·.1.addressId)).toFinset
  accountIds := (snapshot.inputs.map (·.2) ++ snapshot.outputs.map (·.2)).toFinset

/-- Whether a confirmed transaction is no longer what it was. -/
def contradicts (before : ExistingTransactionSnapshot) :
    Option ExistingTransactionSnapshot → Bool
  | none => true
  | some after =>
    after.chain.status ≠ .confirmed || after.chain.blockHeight.isNone ||
      before.chain.blockHeight ≠ after.chain.blockHeight ||
      before.chain.blockHash ≠ after.chain.blockHash ||
      before.chain.blockTime ≠ after.chain.blockTime ||
      before.chain.feeAmountLo ≠ after.chain.feeAmountLo ||
      before.chain.feeAmountHi ≠ after.chain.feeAmountHi ||
      before.inputs ≠ after.inputs || before.outputs ≠ after.outputs

def coverageInvalidationForChange (before after : Option ExistingTransactionSnapshot) :
    CoverageInvalidationTargets :=
  match before.filter fun snapshot => snapshot.chain.status = .confirmed with
  | none => .empty
  | some before =>
    if contradicts before after then
      match after with
      | none => before.ownedTargets
      | some after => before.ownedTargets.unionWith after.ownedTargets
    else
      .empty

/-! ## Upserts -/

section Upserts

variable (toRfc3339 : ℤ → String) (addresses : List AddressRow) (key : TxKey)

/-- The row `upsert_chain_transaction` writes. -/
def chainTransactionRow (record : SyncTransactionRecord) : ChainTransactionRow where
  key
  status := record.status
  blockHeight := record.blockHeight
  blockHash := record.blockHash
  blockTime := record.blockTime.map toRfc3339
  feeAmountLo := record.feeAmount
  feeAmountHi := some 0
  nonce := none

def upsertChainTransaction (record : SyncTransactionRecord) (table : List ChainTransactionRow) :
    Except DbError (List ChainTransactionRow) := do
  checkNonnegative [record.blockHeight, record.feeAmount] "Failed to upsert chain transaction"
  return upsert ChainTransactionRow.key replaceRow (chainTransactionRow toRfc3339 key record) table

/-- The row an input of a tracked address is stored as. -/
def transactionInputRow (addressId : String) (input : SyncTransactionInputRecord) :
    Except DbError TransactionInputRow := do
  let (valueHi, valueLo) ← splitOptionalI64Amount input.valueAmount "value_amount"
  checkNonnegative [some input.inputIndex, some input.prevOutputIndex]
    "Failed to upsert transaction input"
  return {
    txKey := key
    inputIndex := input.inputIndex
    prevTxHash := input.prevTxHash
    prevOutputIndex := input.prevOutputIndex
    addressId
    valueAmountHi := valueHi
    valueAmountLo := valueLo }

/-- One input: stored when its address is tracked, otherwise deleted. -/
def upsertTransactionInput (table : List TransactionInputRow)
    (input : SyncTransactionInputRecord) : Except DbError (List TransactionInputRow) :=
  match resolveOwnedAddressId addresses input.prevAddress with
  | none => .ok (table.filter fun row => row.key ≠ (key, input.inputIndex))
  | some addressId => do
      let row ← transactionInputRow key addressId input
      return upsert TransactionInputRow.key replaceRow row table

/-- `upsert_transaction_inputs`: prune the indices that do not come in, then each input. -/
def upsertTransactionInputs (inputs : List SyncTransactionInputRecord)
    (table : List TransactionInputRow) : Except DbError (List TransactionInputRow) :=
  inputs.foldlM (upsertTransactionInput addresses key)
    (table.filter fun row =>
      row.txKey ≠ key ∨ row.inputIndex ∈ inputs.map SyncTransactionInputRecord.inputIndex)

/-- The row an output of a tracked address is stored as. -/
def transactionOutputRow (addressId : String) (output : SyncTransactionOutputRecord) :
    Except DbError TransactionOutputRow := do
  let valueParts ← splitI64Amount output.valueAmount "value_amount"
  checkNonnegative [some output.outputIndex] "Failed to upsert transaction output"
  return {
    txKey := key
    outputIndex := output.outputIndex
    addressId
    rawAddress := output.rawAddress
    scriptPubkeyHex := output.scriptPubkeyHex
    valueAmountHi := valueParts.hi
    valueAmountLo := valueParts.lo }

/-- One output: stored when its address is tracked, otherwise deleted. -/
def upsertTransactionOutput (table : List TransactionOutputRow)
    (output : SyncTransactionOutputRecord) : Except DbError (List TransactionOutputRow) :=
  match resolveOwnedAddressId addresses output.rawAddress with
  | none => .ok (table.filter fun row => row.key ≠ (key, output.outputIndex))
  | some addressId => do
      let row ← transactionOutputRow key addressId output
      return upsert TransactionOutputRow.key replaceRow row table

/-- `upsert_transaction_outputs`. -/
def upsertTransactionOutputs (outputs : List SyncTransactionOutputRecord)
    (table : List TransactionOutputRow) : Except DbError (List TransactionOutputRow) :=
  outputs.foldlM (upsertTransactionOutput addresses key)
    (table.filter fun row =>
      row.txKey ≠ key ∨ row.outputIndex ∈ outputs.map SyncTransactionOutputRecord.outputIndex)

end Upserts

/-! ## Cleanup -/

/-- Whether a transaction has no input, output or transfer left. -/
def TransactionTables.isOrphan (db : TransactionTables) (key : TxKey) : Bool :=
  db.transactionInputs.all (fun row => row.txKey ≠ key) &&
    db.transactionOutputs.all (fun row => row.txKey ≠ key) &&
    db.accountTransfers.all (fun row => row.txKey ≠ key)

/-- `execute_chain_cleanup_for_marked_candidates` with one candidate: drop its unowned
transfers, then its chain row when nothing is left; whether that row was deleted. -/
def executeChainCleanup (key : TxKey) (db : TransactionTables) : TransactionTables × Bool :=
  let db := { db with
    accountTransfers := db.accountTransfers.filter fun row =>
      ¬ (row.txKey = key ∧ row.fromAddressId = none ∧ row.toAddressId = none) }
  if db.isOrphan key then
    ({ db with chainTransactions := db.chainTransactions.filter fun row => row.key ≠ key },
      db.chainTransactions.any fun row => row.key = key)
  else
    (db, false)

/-! ## Unspent outputs -/

/-- The first stored input of an outpoint, with a chain row. -/
def findSpendingTxHash (db : TransactionTables) (outpoint : TxKey × ℤ) : Option String :=
  (db.transactionInputs.find? fun row =>
    row.outpoint = outpoint ∧
      (find ChainTransactionRow.key db.chainTransactions row.txKey).isSome).map (·.txKey.txHash)

/-- The merge of an upserted unspent output, which keeps its spent link. -/
def mergeUtxo (old incoming : UtxoRow) : UtxoRow :=
  { incoming with spentByTxHash := old.spentByTxHash }

/-- Set the spent link of an outpoint. -/
def linkUtxo (outpoint : TxKey × ℤ) (spender : String) (row : UtxoRow) : UtxoRow :=
  if row.key = outpoint then { row with spentByTxHash := some spender } else row

/-- Set the spent link of an outpoint that has none. -/
def linkUnspentUtxo (outpoint : TxKey × ℤ) (spender : String) (row : UtxoRow) : UtxoRow :=
  if row.key = outpoint ∧ row.spentByTxHash = none then
    { row with spentByTxHash := some spender }
  else
    row

/-- Mark the outputs of a dropped transaction. -/
def dropUtxo (key : TxKey) (row : UtxoRow) : UtxoRow :=
  if row.txKey = key then { row with status := .dropped } else row

/-- The row an output of a tracked address is listed as. -/
def utxoRow (key : TxKey) (status : ChainTransactionStatus) (addressId : String)
    (output : SyncTransactionOutputRecord) : Except DbError UtxoRow := do
  let valueParts ← splitI64Amount output.valueAmount "value_amount"
  checkNonnegative [some output.outputIndex] "Failed to upsert UTXO"
  if status = .failed then
    .error ⟨"Failed to upsert UTXO: CHECK constraint failed"⟩
  else
    return {
      txKey := key
      outputIndex := output.outputIndex
      addressId
      valueAmountHi := valueParts.hi
      valueAmountLo := valueParts.lo
      status
      replacedByTxHash := none
      spentByTxHash := none }

section Utxos

variable (addresses : List AddressRow) (db : TransactionTables) (key : TxKey)
  (record : SyncTransactionRecord)

/-- One output: listed, and linked to a transaction stored earlier that spends it. -/
def reconcileUtxoOutput (utxos : List UtxoRow) (output : SyncTransactionOutputRecord) :
    Except DbError (List UtxoRow) :=
  match resolveOwnedAddressId addresses output.rawAddress with
  | none => .ok utxos
  | some addressId => do
      let row ← utxoRow key record.status addressId output
      let utxos := upsert UtxoRow.key mergeUtxo row utxos
      match findSpendingTxHash db (key, output.outputIndex) with
      | none => return utxos
      | some spender => return utxos.map (linkUnspentUtxo (key, output.outputIndex) spender)

/-- `reconcile_utxos_for_transaction`. -/
def reconcileUtxosForTransaction (utxos : List UtxoRow) : Except DbError (List UtxoRow) := do
  let utxos ← record.outputs.foldlM (reconcileUtxoOutput addresses db key record) utxos
  let utxos := record.inputs.foldl (fun utxos input =>
    utxos.map (linkUtxo (input.outpoint key.assetId key.network) record.txHash)) utxos
  if record.status = .dropped then
    return utxos.map (dropUtxo key)
  else
    return utxos

end Utxos

/-! ## One record -/

/-- The key of a record. -/
def SyncTransactionRecord.key (record : SyncTransactionRecord) (assetId : SyncedAssetId)
    (network : Network) : TxKey where
  assetId
  network
  txHash := record.txHash

structure ReconcileOutcome where
  tables : TransactionTables
  inserted : Bool
  updated : Bool
  coverageInvalidation : CoverageInvalidationTargets

section Reconcile

variable (toRfc3339 : ℤ → String) (addresses : List AddressRow) (assetId : SyncedAssetId)
  (network : Network)

/-- What a record writes, and whether its chain row was deleted as an orphan. -/
def writeTransaction (record : SyncTransactionRecord) (db : TransactionTables) :
    Except DbError (TransactionTables × Bool) := do
  let key := record.key assetId network
  let chainTransactions ← upsertChainTransaction toRfc3339 key record db.chainTransactions
  let transactionInputs ←
    upsertTransactionInputs addresses key record.inputs db.transactionInputs
  let transactionOutputs ←
    upsertTransactionOutputs addresses key record.outputs db.transactionOutputs
  let (cleaned, deleted) := executeChainCleanup key
    { db with chainTransactions, transactionInputs, transactionOutputs }
  let utxos ← reconcileUtxosForTransaction addresses cleaned key record cleaned.utxos
  return ({ cleaned with utxos }, deleted)

/-- `apply_transaction_reconciliation`. -/
def applyTransactionReconciliation (record : SyncTransactionRecord) (db : TransactionTables) :
    Except DbError ReconcileOutcome := do
  let key := record.key assetId network
  let existing ← loadExistingTransactionSnapshot addresses db key
  let (tables, deleted) ← writeTransaction toRfc3339 addresses assetId network record db
  let current ← loadExistingTransactionSnapshot addresses tables key
  let coverageInvalidation := coverageInvalidationForChange existing current
  if deleted then
    return { tables, inserted := false, updated := false, coverageInvalidation }
  else
    return {
      tables
      inserted := existing.isNone
      updated := existing.isSome && current.isSome && existing ≠ current
      coverageInvalidation }

end Reconcile

/-! ## Batches -/

structure TransactionSyncReconcileSummary where
  newTxCount : ℕ
  updatedTxCount : ℕ
  coverageInvalidation : CoverageInvalidationTargets

def TransactionSyncReconcileSummary.default : TransactionSyncReconcileSummary where
  newTxCount := 0
  updatedTxCount := 0
  coverageInvalidation := .empty

/-- `TransactionCount::saturating_add`. -/
def saturatingAdd (left right : ℕ) : ℕ := min (left + right) (2 ^ 32 - 1)

/-- `merge_reconcile_summary`. -/
def TransactionSyncReconcileSummary.merge (total summary : TransactionSyncReconcileSummary) :
    TransactionSyncReconcileSummary where
  newTxCount := saturatingAdd total.newTxCount summary.newTxCount
  updatedTxCount := saturatingAdd total.updatedTxCount summary.updatedTxCount
  coverageInvalidation := total.coverageInvalidation.unionWith summary.coverageInvalidation

/-- The summary of one record. -/
def ReconcileOutcome.summary (outcome : ReconcileOutcome) : TransactionSyncReconcileSummary where
  newTxCount := if outcome.inserted then 1 else 0
  updatedTxCount := if outcome.updated then 1 else 0
  coverageInvalidation := outcome.coverageInvalidation

def reconcileLockBatchSize : ℕ := 250

/-- Faults of the database outside the tables: of one record, whose SQL transaction is rolled
back, or of the lock of one batch. -/
structure StoreFaults where
  record : ℕ → SyncTransactionRecord → Option DbError
  lock : ℕ → Option DbError

section Batches

variable (toRfc3339 : ℤ → String) (addresses : List AddressRow) (assetId : SyncedAssetId)
  (network : Network) (faults : StoreFaults)

/-- The records of one batch up to the first that fails, with the batch so far. -/
def reconcileBatch (batch : ℕ) : List SyncTransactionRecord → TransactionTables →
    TransactionSyncReconcileSummary →
      TransactionTables × TransactionSyncReconcileSummary × Option DbError
  | [], db, summary => (db, summary, none)
  | record :: rest, db, summary =>
    match faults.record batch record with
    | some error => (db, summary, some error)
    | none =>
      match applyTransactionReconciliation toRfc3339 addresses assetId network record db with
      | .error error => (db, summary, some error)
      | .ok outcome => reconcileBatch batch rest outcome.tables (summary.merge outcome.summary)

/-- The batches up to the first that fails. -/
def reconcileBatches : ℕ → List (List SyncTransactionRecord) → TransactionTables →
    TransactionSyncReconcileSummary →
      TransactionTables × TransactionSyncReconcileSummary × Option DbError
  | _, [], db, total => (db, total, none)
  | batch, records :: rest, db, total =>
    match faults.lock batch with
    | some error => (db, total, some error)
    | none =>
      match reconcileBatch toRfc3339 addresses assetId network faults batch records db
          .default with
      | (db, summary, none) => reconcileBatches (batch + 1) rest db (total.merge summary)
      | (db, summary, some error) => (db, total.merge summary, some error)

/-- `reconcile_address_transactions_preserving_invalidation`: the summary of what was committed
comes with an error as well. -/
def reconcileAddressTransactionsPreservingInvalidation (records : List SyncTransactionRecord)
    (db : TransactionTables) :
    TransactionTables × TransactionSyncReconcileSummary × Option DbError :=
  reconcileBatches toRfc3339 addresses assetId network faults 0
    (records.toChunks reconcileLockBatchSize) db .default

end Batches

end Bitgarth.Store
