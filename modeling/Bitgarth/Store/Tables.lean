import Bitgarth.Foundation.KeyedTable
import Bitgarth.Ledger.Entry
import Bitgarth.Sync.Gate

/-! # Transaction tables

The tables of a user database that reconciliation writes. A row is known by the key its table
keeps unique; row ids and timestamps are left out. Rows stand in the order they were first
inserted, the order in which a scan without `ORDER BY` finds them.
-/

namespace Bitgarth.Store

open Amounts Ledger KeyedTable

open Sync (SyncedAssetId)

inductive Network where
  | mainnet
  | testnet
  | signet
  | regtest
deriving DecidableEq, Repr

/-- A row of `digital_asset_addresses`. -/
structure AddressRow where
  id : String
  accountId : Option String
  assetId : SyncedAssetId
  network : Network
  address : String
  addressNormalized : String
deriving DecidableEq, Repr

/-- The key of a chain transaction. -/
structure TxKey where
  assetId : SyncedAssetId
  network : Network
  txHash : String
deriving DecidableEq, Repr

/-- The key is of an asset and network. -/
def TxKey.InScope (key : TxKey) (assetId : SyncedAssetId) (network : Network) : Prop :=
  key.assetId = assetId ∧ key.network = network

instance (key : TxKey) (assetId : SyncedAssetId) (network : Network) :
    Decidable (key.InScope assetId network) :=
  inferInstanceAs (Decidable (_ ∧ _))

/-- A row of `chain_transactions`. -/
structure ChainTransactionRow where
  key : TxKey
  status : ChainTransactionStatus
  blockHeight : Option ℤ
  blockHash : Option String
  blockTime : Option String
  feeAmountLo : Option ℤ
  feeAmountHi : Option ℤ
  nonce : Option ℤ
deriving DecidableEq, Repr

/-- A row of `transaction_inputs`. -/
structure TransactionInputRow where
  txKey : TxKey
  inputIndex : ℤ
  prevTxHash : String
  prevOutputIndex : ℤ
  addressId : String
  valueAmountHi : Option ℤ
  valueAmountLo : Option ℤ
deriving DecidableEq, Repr

/-- A row of `transaction_outputs`. -/
structure TransactionOutputRow where
  txKey : TxKey
  outputIndex : ℤ
  addressId : String
  rawAddress : Option String
  scriptPubkeyHex : String
  valueAmountHi : ℤ
  valueAmountLo : ℤ
deriving DecidableEq, Repr

/-- A row of `utxos`. -/
structure UtxoRow where
  txKey : TxKey
  outputIndex : ℤ
  addressId : String
  valueAmountHi : ℤ
  valueAmountLo : ℤ
  status : ChainTransactionStatus
  replacedByTxHash : Option String
  spentByTxHash : Option String
deriving DecidableEq, Repr

inductive TransferKind where
  | normal
  | internal
  | selfDestruct
deriving DecidableEq, Repr

/-- A row of `account_transfers`. -/
structure AccountTransferRow where
  txKey : TxKey
  providerTransferKey : String
  transferIndex : ℤ
  transferKind : TransferKind
  fromAddress : Option String
  fromAddressId : Option String
  toAddress : Option String
  toAddressId : Option String
  valueAmountHi : ℤ
  valueAmountLo : ℤ
deriving DecidableEq, Repr

def TransactionInputRow.key (row : TransactionInputRow) : TxKey × ℤ := (row.txKey, row.inputIndex)

def TransactionOutputRow.key (row : TransactionOutputRow) : TxKey × ℤ :=
  (row.txKey, row.outputIndex)

def UtxoRow.key (row : UtxoRow) : TxKey × ℤ := (row.txKey, row.outputIndex)

def AccountTransferRow.key (row : AccountTransferRow) : TxKey × String :=
  (row.txKey, row.providerTransferKey)

structure TransactionTables where
  chainTransactions : List ChainTransactionRow
  transactionInputs : List TransactionInputRow
  transactionOutputs : List TransactionOutputRow
  utxos : List UtxoRow
  accountTransfers : List AccountTransferRow
deriving DecidableEq, Repr

/-- The unique constraints of the tables. -/
structure TransactionTables.Unique (db : TransactionTables) : Prop where
  chainTransactions : Keyed ChainTransactionRow.key db.chainTransactions
  transactionInputs : Keyed TransactionInputRow.key db.transactionInputs
  transactionOutputs : Keyed TransactionOutputRow.key db.transactionOutputs
  utxos : Keyed UtxoRow.key db.utxos
  accountTransfers : Keyed AccountTransferRow.key db.accountTransfers

/-- The tables of a new database. -/
def emptyTables : TransactionTables where
  chainTransactions := []
  transactionInputs := []
  transactionOutputs := []
  utxos := []
  accountTransfers := []

theorem emptyTables_unique : emptyTables.Unique :=
  ⟨List.nodup_nil, List.nodup_nil, List.nodup_nil, List.nodup_nil, List.nodup_nil⟩

/-- Two tables hold the same rows. -/
structure TransactionTables.SameRows (left right : TransactionTables) : Prop where
  chainTransactions : ∀ row, row ∈ left.chainTransactions ↔ row ∈ right.chainTransactions
  transactionInputs : ∀ row, row ∈ left.transactionInputs ↔ row ∈ right.transactionInputs
  transactionOutputs : ∀ row, row ∈ left.transactionOutputs ↔ row ∈ right.transactionOutputs
  utxos : ∀ row, row ∈ left.utxos ↔ row ∈ right.utxos
  accountTransfers : ∀ row, row ∈ left.accountTransfers ↔ row ∈ right.accountTransfers

/-- Replace a row by the incoming one. -/
def replaceRow {Row : Type} (_ incoming : Row) : Row := incoming

/-! ## Records to reconcile -/

structure SyncTransactionInputRecord where
  inputIndex : ℤ
  prevTxHash : String
  prevOutputIndex : ℤ
  prevAddress : Option String
  valueAmount : Option ℤ
deriving DecidableEq, Repr

structure SyncTransactionOutputRecord where
  outputIndex : ℤ
  rawAddress : Option String
  scriptPubkeyHex : String
  valueAmount : ℤ
deriving DecidableEq, Repr

/-- A Bitcoin transaction to reconcile; the block time is in seconds. -/
structure SyncTransactionRecord where
  txHash : String
  status : ChainTransactionStatus
  blockHeight : Option ℤ
  blockHash : Option String
  blockTime : Option ℤ
  feeAmount : Option ℤ
  inputs : List SyncTransactionInputRecord
  outputs : List SyncTransactionOutputRecord
deriving DecidableEq, Repr

/-- The outpoint an input spends, in the scope of its transaction. -/
def SyncTransactionInputRecord.outpoint (input : SyncTransactionInputRecord)
    (assetId : SyncedAssetId) (network : Network) : TxKey × ℤ :=
  ({ assetId, network, txHash := input.prevTxHash }, input.prevOutputIndex)

/-- The outpoint a stored input spends. -/
def TransactionInputRow.outpoint (row : TransactionInputRow) : TxKey × ℤ :=
  ({ row.txKey with txHash := row.prevTxHash }, row.prevOutputIndex)

/-! ## Ownership -/

/-- `resolve_owned_address_id`: the first row with the address text, whatever its scope. -/
def resolveOwnedAddressId (addresses : List AddressRow) (rawAddress : Option String) :
    Option String :=
  rawAddress.bind fun text => (addresses.find? fun row => row.address = text).map (·.id)

/-- An account has an address. -/
def Owns (addresses : List AddressRow) (accountId addressId : String) : Prop :=
  ∃ address ∈ addresses, address.id = addressId ∧ address.accountId = some accountId

instance (addresses : List AddressRow) (accountId addressId : String) :
    Decidable (Owns addresses accountId addressId) :=
  inferInstanceAs (Decidable (∃ address ∈ addresses, _))

end Bitgarth.Store
