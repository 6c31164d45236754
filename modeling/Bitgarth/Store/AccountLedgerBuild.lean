import Bitgarth.Foundation.RowSelection
import Bitgarth.Store.LedgerBuild

/-! # Building ledger entries from stored transfers

The entries of an account-model account: one for each transaction of its asset and network with a
transfer from or to one of its addresses. The transfers of a transaction are summed, and the fee
counts where the account sent the transaction itself.
-/

namespace Bitgarth.Store

open Amounts Ledger KeyedTable Fallible Text

/-- `add_amount`. -/
def addAmount (accumulator value : UnsignedAmount) (fieldName : String) :
    Except DbError UnsignedAmount :=
  if fits : accumulator.value + value.value ≤ u128Max then
    .ok ⟨accumulator.value + value.value, fits⟩
  else
    .error ⟨"Overflow while summing " ++ fieldName ++ ": " ++ AmountError.overflow.display⟩

theorem addAmount_eq_ok {accumulator value total : UnsignedAmount} {fieldName : String} :
    addAmount accumulator value fieldName = .ok total ↔
      total.value = accumulator.value + value.value := by
  unfold addAmount
  split <;> rename_i fits
  · rw [Except.ok.injEq, UnsignedAmount.ext_iff]
    exact eq_comm
  · simp only [reduceCtorEq, false_iff]
    intro same
    exact fits (same ▸ total.fits)

/-- The transfers of one transaction, summed so far. -/
structure AggregatedAccountTx where
  chainTransactionId : String
  txHash : String
  status : ChainTransactionStatus
  blockHeight : Option ℤ
  blockTime : Option ℤ
  nonce : Option ℤ
  firstSeenAt : ℤ
  updatedAt : ℤ
  minTransferIndex : ℤ
  hasFromOwned : Bool
  hasOwnedNormalSender : Bool
  hasToOwned : Bool
  incomingTotal : UnsignedAmount
  outgoingTotal : UnsignedAmount
  selfTransferTotal : UnsignedAmount
  fee : Option UnsignedAmount
  fromAddresses : List String
  toAddresses : List String
deriving DecidableEq, Repr

/-- A row of the account model query: a transfer with its chain row, and which of its ends the
account owns. -/
structure AccountModelRow where
  chain : ChainTransactionRow
  transferIndex : ℤ
  isNormalSenderTransfer : Bool
  fromAddress : Option String
  toAddress : Option String
  valueAmountHi : ℤ
  valueAmountLo : ℤ
  fromOwned : Bool
  toOwned : Bool
deriving DecidableEq, Repr

/-- The transfer a provider calls the transaction's own. -/
def AccountTransferRow.isNormalSenderTransfer (row : AccountTransferRow) : Bool :=
  row.providerTransferKey = "normal" ||
    (row.providerTransferKey = "legacy:0" && row.transferKind = .normal)

/-- The text of an address that is not blank. -/
def shownAddress (address : Option String) : List String :=
  (address.filter fun text => ! isBlank text).toList

/-- Insertion into a sorted set. -/
def insertAddresses (addresses : List String) (address : Option String) : List String :=
  (addresses ++ shownAddress address).dedup.insertionSort (· ≤ ·)

section Rows

variable (addresses : List AddressRow) (account : AccountMeta) (db : TransactionTables)

/-- An end of a transfer is at an address of the account. -/
def OwnsTransferEnd (addressId : Option String) : Prop :=
  ∃ id ∈ addressId, Owns addresses account.accountId id

instance (addressId : Option String) : Decidable (OwnsTransferEnd addresses account addressId) :=
  inferInstanceAs (Decidable (∃ id ∈ addressId, _))

/-- A transfer joined with its chain row. -/
def accountModelRow (row : AccountTransferRow) (chain : ChainTransactionRow) : AccountModelRow where
  chain
  transferIndex := row.transferIndex
  isNormalSenderTransfer := row.isNormalSenderTransfer
  fromAddress := row.fromAddress
  toAddress := row.toAddress
  valueAmountHi := row.valueAmountHi
  valueAmountLo := row.valueAmountLo
  fromOwned := OwnsTransferEnd addresses account row.fromAddressId
  toOwned := OwnsTransferEnd addresses account row.toAddressId

/-- The transfers of the account, with their chain rows. -/
def ownedTransfers : List AccountTransferRow :=
  db.accountTransfers.filter fun row =>
    row.txKey.InScope account.assetId account.network ∧
      (OwnsTransferEnd addresses account row.fromAddressId ∨
        OwnsTransferEnd addresses account row.toAddressId)

def joinChain (row : AccountTransferRow) : Option AccountModelRow :=
  (find ChainTransactionRow.key db.chainTransactions row.txKey).map
    (accountModelRow addresses account row)

/-- The rows of the query, by creation, hash and index. -/
def accountModelRows (columns : TxKey → ChainTransactionColumns) : List AccountModelRow :=
  ((ownedTransfers addresses account db).filterMap (joinChain addresses account db)).insertionSort
    fun left right =>
      (columns left.chain.key).createdAt < (columns right.chain.key).createdAt ∨
        ((columns left.chain.key).createdAt = (columns right.chain.key).createdAt ∧
          (left.chain.key.txHash < right.chain.key.txHash ∨
            (left.chain.key.txHash = right.chain.key.txHash ∧
              left.transferIndex ≤ right.transferIndex)))

end Rows

section Build

variable (parseDatetime : String → Except DbError ℤ) (columns : TxKey → ChainTransactionColumns)

/-- The aggregate a first row of a transaction starts. -/
def newAggregate (row : AccountModelRow) (blockTime : Option ℤ) (fee : Option UnsignedAmount) :
    AggregatedAccountTx where
  chainTransactionId := (columns row.chain.key).id
  txHash := row.chain.key.txHash
  status := row.chain.status
  blockHeight := row.chain.blockHeight
  blockTime
  nonce := row.chain.nonce
  firstSeenAt := (columns row.chain.key).createdAt
  updatedAt := (columns row.chain.key).updatedAt
  minTransferIndex := row.transferIndex
  hasFromOwned := false
  hasOwnedNormalSender := false
  hasToOwned := false
  incomingTotal := UnsignedAmount.zero
  outgoingTotal := UnsignedAmount.zero
  selfTransferTotal := UnsignedAmount.zero
  fee
  fromAddresses := []
  toAddresses := []

/-- Add an amount where a condition holds. -/
def addWhen (condition : Bool) (accumulator value : UnsignedAmount) (fieldName : String) :
    Except DbError UnsignedAmount :=
  if condition then addAmount accumulator value fieldName else .ok accumulator

/-- An aggregate with one more row. -/
def AggregatedAccountTx.add (aggregated : AggregatedAccountTx) (row : AccountModelRow)
    (value : UnsignedAmount) : Except DbError AggregatedAccountTx := do
  let incomingTotal ← addWhen row.toOwned aggregated.incomingTotal value "incoming_total"
  let outgoingTotal ← addWhen row.fromOwned aggregated.outgoingTotal value "outgoing_total"
  let selfTransferTotal ← addWhen (row.fromOwned && row.toOwned) aggregated.selfTransferTotal value
    "self_transfer_total"
  return { aggregated with
    minTransferIndex := min aggregated.minTransferIndex row.transferIndex
    hasFromOwned := aggregated.hasFromOwned || row.fromOwned
    hasOwnedNormalSender :=
      aggregated.hasOwnedNormalSender || (row.fromOwned && row.isNormalSenderTransfer)
    hasToOwned := aggregated.hasToOwned || row.toOwned
    incomingTotal
    outgoingTotal
    selfTransferTotal
    fromAddresses := insertAddresses aggregated.fromAddresses row.fromAddress
    toAddresses := insertAddresses aggregated.toAddresses row.toAddress }

/-- One row of the query, filed under its transaction hash. -/
def aggregateRow (byHash : List AggregatedAccountTx) (row : AccountModelRow) :
    Except DbError (List AggregatedAccountTx) :=
  if isBlank row.chain.key.txHash = true then
    .error ⟨"Invalid account model ledger row: empty tx_hash"⟩
  else do
    let blockTime ← readBlockTime parseDatetime row.chain
    let value ← parseSplitAmount row.valueAmountHi row.valueAmountLo "value_amount"
    let fee ← parseOptionalSplitAmount row.chain.feeAmountHi row.chain.feeAmountLo "fee_amount"
    let existing := find AggregatedAccountTx.txHash byHash row.chain.key.txHash
    let aggregated ← (existing.getD (newAggregate columns row blockTime fee)).add row value
    return upsert AggregatedAccountTx.txHash (fun _ incoming => incoming) aggregated byHash

def AggregatedAccountTx.direction (aggregated : AggregatedAccountTx) :
    AccountTransactionDirection :=
  if aggregated.hasFromOwned && aggregated.hasToOwned then
    .selfTransfer
  else if aggregated.hasFromOwned then
    .outgoing
  else
    .incoming

/-- The change of the balance, with the fee where the account sent the transaction. -/
def AggregatedAccountTx.balanceDelta (aggregated : AggregatedAccountTx)
    (fee : Option UnsignedAmount) : Except DbError ℤ := do
  let incoming ← toSignedAmount aggregated.incomingTotal "incoming_total"
  let outgoing ← toSignedAmount aggregated.outgoingTotal "outgoing_total"
  let fee ← match fee with
    | none => .ok 0
    | some fee => toSignedAmount fee "fee_amount"
  if aggregated.status = .failed then
    return if aggregated.hasOwnedNormalSender then -fee else 0
  else if aggregated.hasOwnedNormalSender then
    match checkedSub (incoming - outgoing) fee with
    | some delta => .ok delta
    | none => .error ⟨"Signed underflow while applying account fee"⟩
  else
    return incoming - outgoing

/-- The entry of one transaction. -/
def AggregatedAccountTx.entry (aggregated : AggregatedAccountTx) :
    Except DbError LedgerBuildEntry := do
  let fee := if aggregated.hasOwnedNormalSender then aggregated.fee else none
  let balanceDelta ← aggregated.balanceDelta fee
  return {
    chainTransactionId := aggregated.chainTransactionId
    txHash := aggregated.txHash
    status := aggregated.status
    occurredAt :=
      if aggregated.status = .confirmed ∨ aggregated.status = .failed then
        aggregated.blockTime.getD aggregated.updatedAt
      else
        aggregated.firstSeenAt
    firstSeenAt := aggregated.firstSeenAt
    blockHeight := aggregated.blockHeight
    nonce := aggregated.nonce
    minTransferIndex := some aggregated.minTransferIndex
    direction := aggregated.direction
    value := match aggregated.direction with
      | .incoming => aggregated.incomingTotal
      | .outgoing => aggregated.outgoingTotal
      | .selfTransfer => aggregated.selfTransferTotal
    fee
    balanceDelta
    closingBalance := none
    sameBlockParentHashes := []
    fromAddresses := aggregated.fromAddresses
    toAddresses := aggregated.toAddresses }

/-- `account_model_entries`, the transactions in the order of their first rows. -/
def accountModelEntries (addresses : List AddressRow) (account : AccountMeta)
    (db : TransactionTables) : Except DbError (List LedgerBuildEntry) := do
  let byHash ← (accountModelRows addresses account db columns).foldlM
    (aggregateRow parseDatetime columns) []
  byHash.mapM AggregatedAccountTx.entry

end Build

end Bitgarth.Store
