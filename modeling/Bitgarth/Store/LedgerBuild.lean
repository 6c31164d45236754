import Mathlib.Data.List.Dedup
import Bitgarth.Store.MempoolMapper
import Bitgarth.Store.TransactionWrites

/-! # Building ledger entries from stored transactions

The entries of a UTXO-model account: one for each chain row of its asset and network with an
input or output at one of its addresses. Amounts are decoded from their split columns, the fee
only where the account has an owned input. The row id and the instants of the chain row are read
from `columns`, and `parseDatetime` reads a stored block time.
-/

namespace Bitgarth.Store

open Amounts Ledger KeyedTable Fallible Text

open Sync (SyncedAssetId)

/-! ## Amount columns -/

/-- How `{:?}` shows an optional column. -/
def debugColumn : Option ℤ → String
  | none => "None"
  | some number => "Some(" ++ toString number ++ ")"

/-- `parse_optional_split_amount`: both columns or none. -/
def parseOptionalSplitAmount (hi lo : Option ℤ) (fieldName : String) :
    Except DbError (Option UnsignedAmount) :=
  match hi, lo with
  | none, none => .ok none
  | some hi, some lo => some <$> parseSplitAmount hi lo fieldName
  | hi, lo => .error ⟨"Invalid " ++ fieldName ++ " split amount from DB: " ++
      (AmountError.parseError ("hi=" ++ debugColumn hi ++ ",lo=" ++ debugColumn lo)
        "split amount parts must be both present or both absent").display⟩

/-- Carry the summed low parts into the high part. -/
def normalizeSplitSums (hiSum loSum : ℤ) : Except AmountError AmountSplitParts :=
  if hiSum < 0 then
    .error (.invalidSplitHi hiSum)
  else if loSum < 0 then
    .error (.invalidSplitLo loSum globalSplitDivisor)
  else do
    let hi ← tryI64 (hiSum + loSum / globalSplitDivisor)
    let lo ← tryI64 (loSum % globalSplitDivisor)
    return { hi, lo }

def parseSplitSum (hiSum loSum : ℤ) : Except AmountError UnsignedAmount := do
  let normalized ← normalizeSplitSums hiSum loSum
  decodeUnsigned normalized.hi normalized.lo

def parseSplitSumAmount (hiSum loSum : ℤ) (fieldName : String) : Except DbError UnsignedAmount :=
  (parseSplitSum hiSum loSum).mapError fun err =>
    ⟨"Invalid " ++ fieldName ++ " split sum from DB: " ++ err.display⟩

/-- `COALESCE(SUM(column), 0)`: nulls are skipped, and the sum must fit a column. -/
def sumColumn (column : List (Option ℤ)) : Except DbError ℤ :=
  if column.reduceOption.sum ≤ i64Max then
    .ok column.reduceOption.sum
  else
    .error ⟨"Failed to map UTXO ledger row: integer overflow"⟩

def toSignedAmount (value : UnsignedAmount) (fieldName : String) : Except DbError ℤ :=
  match value.trySigned with
  | some signed => .ok signed
  | none => .error ⟨"Amount " ++ fieldName ++ " exceeds i128 range"⟩

theorem toSignedAmount_eq_ok {value : UnsignedAmount} {fieldName : String} {signed : ℤ} :
    toSignedAmount value fieldName = .ok signed ↔ signed = value.value ∧ signed ≤ i128Max := by
  rw [← UnsignedAmount.trySigned_eq_some]
  unfold toSignedAmount
  cases value.trySigned with
  | none => simp
  | some found => simp

/-! ## Flows -/

structure ClassifiedLedgerFlow where
  direction : AccountTransactionDirection
  value : UnsignedAmount

/-- The amount less another, or zero. -/
def saturatingSub (left : UnsignedAmount) (right : ℕ) : UnsignedAmount :=
  ⟨left.value - right, (Nat.sub_le _ _).trans left.fits⟩

def classifyUtxoLedgerFlow (ownedInputTotal ownedOutputTotal : UnsignedAmount)
    (fee : Option UnsignedAmount) : ClassifiedLedgerFlow :=
  let externalOutflow := saturatingSub (saturatingSub ownedInputTotal ownedOutputTotal.value)
    (fee.elim 0 UnsignedAmount.value)
  if 0 < ownedInputTotal.value ∧ (0 < externalOutflow.value ∨ ¬ 0 < ownedOutputTotal.value) then
    { direction := .outgoing, value := externalOutflow }
  else if 0 < ownedInputTotal.value ∧ 0 < ownedOutputTotal.value then
    { direction := .selfTransfer, value := ownedOutputTotal }
  else
    { direction := .incoming, value := ownedOutputTotal }

/-! ## Entries -/

/-- An account with its asset and network. -/
structure AccountMeta where
  accountId : String
  assetId : SyncedAssetId
  network : Network
deriving DecidableEq, Repr

/-- The columns of a chain row that the tables here leave out, its instants parsed. -/
structure ChainTransactionColumns where
  id : String
  createdAt : ℤ
  updatedAt : ℤ

section Build

variable (parseDatetime : String → Except DbError ℤ)
  (columns : TxKey → ChainTransactionColumns) (addresses : List AddressRow)
  (account : AccountMeta) (db : TransactionTables)

/-- The inputs of a transaction at addresses of the account. -/
def ownedInputs (key : TxKey) : List TransactionInputRow :=
  db.transactionInputs.filter fun row =>
    row.txKey = key ∧ Owns addresses account.accountId row.addressId

/-- The outputs of a transaction at addresses of the account. -/
def ownedOutputs (key : TxKey) : List TransactionOutputRow :=
  db.transactionOutputs.filter fun row =>
    row.txKey = key ∧ Owns addresses account.accountId row.addressId

/-- The account has an input or output of a transaction. -/
def HasOwnedEnd (key : TxKey) : Prop :=
  ownedInputs addresses account db key ≠ [] ∨ ownedOutputs addresses account db key ≠ []

instance (key : TxKey) : Decidable (HasOwnedEnd addresses account db key) :=
  inferInstanceAs (Decidable (_ ∨ _))

/-- `load_utxo_owned_addresses_for_tx`. -/
def loadUtxoOwnedAddresses (addressIds : List String) : List String :=
  ((addresses.filter fun address =>
    address.accountId = some account.accountId ∧ address.id ∈ addressIds).map
      (·.address)).dedup.mergeSort.filter fun address => ¬ isBlank address = true

/-- `load_same_block_parent_hashes_for_account`, for one child. -/
def sameBlockParentHashes (child : ChainTransactionRow) : List String :=
  (((db.transactionInputs.filter fun row => row.txKey = child.key).map (·.prevTxHash)).filter
    fun prevTxHash =>
      child.status = .confirmed ∧ child.blockHeight.isSome ∧
        HasOwnedEnd addresses account db child.key ∧
          HasOwnedEnd addresses account db { child.key with txHash := prevTxHash } ∧
            ∃ parent ∈ find ChainTransactionRow.key db.chainTransactions
                { child.key with txHash := prevTxHash },
              parent.status = .confirmed ∧ parent.blockHeight = child.blockHeight).dedup.mergeSort

/-- The column sums of a transaction, high part first. -/
structure OwnedSums where
  outputHi : ℤ
  outputLo : ℤ
  inputHi : ℤ
  inputLo : ℤ

/-- The sums over the owned inputs and outputs of a transaction. -/
def ownedSums (key : TxKey) : Except DbError OwnedSums := do
  let outputs := ownedOutputs addresses account db key
  let inputs := ownedInputs addresses account db key
  let outputHi ← sumColumn (outputs.map fun row => some row.valueAmountHi)
  let outputLo ← sumColumn (outputs.map fun row => some row.valueAmountLo)
  let inputHi ← sumColumn (inputs.map (·.valueAmountHi))
  let inputLo ← sumColumn (inputs.map (·.valueAmountLo))
  return { outputHi, outputLo, inputHi, inputLo }

/-- The fee, read where the account has an owned input. -/
def ownedFee (chain : ChainTransactionRow) (ownedInputTotal : UnsignedAmount) :
    Except DbError (Option UnsignedAmount) :=
  if 0 < ownedInputTotal.value then
    parseOptionalSplitAmount chain.feeAmountHi chain.feeAmountLo "fee_amount"
  else
    .ok none

/-- The stored block time of a chain row, when it has one. -/
def readBlockTime (chain : ChainTransactionRow) : Except DbError (Option ℤ) :=
  match chain.blockTime with
  | none => .ok none
  | some text => some <$> (parseDatetime text).mapError fun err =>
    ⟨"Invalid block_time in DB: " ++ err.message⟩

/-- The entry of one chain row. -/
def utxoModelEntry (chain : ChainTransactionRow) : Except DbError LedgerBuildEntry := do
  let sums ← ownedSums addresses account db chain.key
  if isBlank chain.key.txHash = true then
    .error ⟨"Invalid UTXO ledger row: empty tx_hash"⟩
  else do
    let blockTime ← readBlockTime parseDatetime chain
    let ownedOutputTotal ← parseSplitSumAmount sums.outputHi sums.outputLo "owned_output_total"
    let ownedInputTotal ← parseSplitSumAmount sums.inputHi sums.inputLo "owned_input_total"
    let fee ← ownedFee chain ownedInputTotal
    let classified := classifyUtxoLedgerFlow ownedInputTotal ownedOutputTotal fee
    let incoming ← toSignedAmount ownedOutputTotal "owned_output_total"
    let outgoing ← toSignedAmount ownedInputTotal "owned_input_total"
    let balanceDelta ← match checkedSub incoming outgoing with
      | some delta => .ok delta
      | none => .error ⟨"Signed underflow while building UTXO balance delta"⟩
    return {
      chainTransactionId := (columns chain.key).id
      txHash := chain.key.txHash
      status := chain.status
      occurredAt :=
        if chain.status = .confirmed ∨ chain.status = .failed then
          blockTime.getD (columns chain.key).updatedAt
        else
          (columns chain.key).createdAt
      firstSeenAt := (columns chain.key).createdAt
      blockHeight := chain.blockHeight
      nonce := chain.nonce
      minTransferIndex := none
      direction := classified.direction
      value := classified.value
      fee
      balanceDelta := if chain.status = .failed then 0 else balanceDelta
      closingBalance := none
      sameBlockParentHashes := sameBlockParentHashes addresses account db chain
      fromAddresses := loadUtxoOwnedAddresses addresses account
        ((ownedInputs addresses account db chain.key).map (·.addressId))
      toAddresses := loadUtxoOwnedAddresses addresses account
        ((ownedOutputs addresses account db chain.key).map (·.addressId)) }

/-- The chain rows of the account, by creation and hash. -/
def utxoModelRows : List ChainTransactionRow :=
  (db.chainTransactions.filter fun row =>
    row.key.InScope account.assetId account.network ∧
      HasOwnedEnd addresses account db row.key).mergeSort fun left right =>
        (columns left.key).createdAt < (columns right.key).createdAt ∨
          ((columns left.key).createdAt = (columns right.key).createdAt ∧
            left.key.txHash ≤ right.key.txHash)

/-- `utxo_model_entries`. -/
def utxoModelEntries : Except DbError (List LedgerBuildEntry) :=
  (utxoModelRows columns addresses account db).mapM
    (utxoModelEntry parseDatetime columns addresses account db)

end Build

end Bitgarth.Store
