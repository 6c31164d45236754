import Mathlib.Data.String.Basic
import Bitgarth.Store.AccountReconciliation
import Bitgarth.Store.MempoolMapper

/-! # Mapping Etherscan transactions

The rows of the two Etherscan endpoints, normal and internal, are gathered by transaction hash;
each gathered transaction becomes a record to reconcile. Checking and checksumming an address
hashes it, so it is a parameter that may fail.
-/

namespace Bitgarth.Store

open Amounts Ledger KeyedTable Text

/-- A row of the `txlist` endpoint. -/
structure EtherscanNormalTx where
  hash : String
  blockNumber : String
  timeStamp : String
  fromAddress : String
  toAddress : String
  value : String
  gasPrice : String
  gasUsed : String
  isError : String
  txreceiptStatus : String
  nonce : String
deriving DecidableEq, Repr

/-- A row of the `txlistinternal` endpoint. -/
structure EtherscanInternalTx where
  hash : String
  blockNumber : String
  timeStamp : String
  fromAddress : String
  toAddress : String
  value : String
  isError : String
  callType : String
  traceId : String
deriving DecidableEq, Repr

/-! ## Fields -/

/-- The text without the `0x` of a hexadecimal number. -/
def stripHexPrefix (text : String) : String :=
  match text.toList with
  | '0' :: 'x' :: digits => String.ofList digits
  | '0' :: 'X' :: digits => String.ofList digits
  | _ => text

def parseEtherscanTxHash (rawHash : String) : Except ParseError String :=
  parseTxHash "tx hash" (stripHexPrefix (trim rawHash))

/-- `raw.trim().parse::<i64>()`. -/
def parseEtherscanI64 (raw fieldName : String) : Except ParseError ℤ :=
  match parseI64 (trim raw).toList with
  | none => .error ⟨fieldName ++ " parse error"⟩
  | some parsed => .ok parsed

/-- `str::parse::<u128>`, as an amount. -/
def parseU128 (text : List Char) : Option UnsignedAmount :=
  let number := match text with
    | '+' :: digits => parseDigits digits
    | digits => parseDigits digits
  number.bind UnsignedAmount.tryFromSigned

def parseEtherscanDecimalU128 (raw fieldName : String) : Except ParseError UnsignedAmount :=
  match parseU128 (trim raw).toList with
  | none => .error ⟨fieldName ++ " parse error"⟩
  | some parsed => .ok parsed

/-- A block number; the provider writes zero for a pending transaction. -/
def parseEtherscanBlockHeight (raw : String) : Except ParseError (Option ℤ) := do
  let parsed ← parseEtherscanI64 raw "block_number"
  let normalized ← parseNonNegative parsed "block_number"
  return if normalized = 0 then none else some normalized

def parseEtherscanNonce (raw : String) : Except ParseError (Option ℤ) :=
  if isBlank raw then
    .ok none
  else do
    let parsed ← parseEtherscanI64 raw "nonce"
    let normalized ← parseNonNegative parsed "nonce"
    return some normalized

def parseEtherscanBlockTime (raw : String) : Except ParseError (Option ℤ) :=
  if isBlank raw then
    .ok none
  else do
    let seconds ← parseEtherscanI64 raw "timestamp"
    parseBlockTime (some seconds)

/-- `gas_used * gas_price`, checked. -/
def parseEtherscanFeeAmount (gasUsedRaw gasPriceRaw : String) :
    Except ParseError UnsignedAmount := do
  let gasUsed ← parseEtherscanDecimalU128 gasUsedRaw "gas_used"
  let gasPrice ← parseEtherscanDecimalU128 gasPriceRaw "gas_price"
  match UnsignedAmount.tryFromSigned (gasUsed.value * gasPrice.value : ℕ) with
  | none => .error ⟨"fee overflow while multiplying gas_used*gas_price"⟩
  | some total => .ok total

def flagIsTrue (raw : String) : Bool :=
  trim raw = "1" || toAsciiLowercase (trim raw) = "true"

def mapEtherscanNormalStatus (raw : EtherscanNormalTx) :
    Except ParseError ChainTransactionStatus := do
  let blockHeight ← parseEtherscanBlockHeight raw.blockNumber
  if blockHeight.isNone then
    return .pending
  else if flagIsTrue raw.isError || trim raw.txreceiptStatus = "0" then
    return .failed
  else
    return .confirmed

def mapEtherscanInternalStatus (raw : EtherscanInternalTx) :
    Except ParseError ChainTransactionStatus := do
  let blockHeight ← parseEtherscanBlockHeight raw.blockNumber
  if blockHeight.isNone then
    return .pending
  else if flagIsTrue raw.isError then
    return .failed
  else
    return .confirmed

def mapInternalTransferKind (rawCallType : String) : TransferKind :=
  let normalized := toAsciiLowercase (trim rawCallType)
  if normalized = "selfdestruct" ∨ normalized = "suicide" then .selfDestruct else .internal

/-! ## Rows -/

/-- What a provider row says of its transaction, with its transfer. -/
structure EtherscanRow where
  txHash : String
  status : ChainTransactionStatus
  blockHeight : Option ℤ
  blockTime : Option ℤ
  transfer : SyncAccountTransferRecord
deriving DecidableEq, Repr

/-- A normal row also knows the fee and the nonce. -/
structure EtherscanNormalRow extends EtherscanRow where
  feeAmount : UnsignedAmount
  nonce : Option ℤ
deriving DecidableEq, Repr

section Rows

variable (parseEthAddress : String → Except ParseError String)

/-- A blank address is none; another is written with its checksum. -/
def parseEtherscanAddress (raw : String) : Except ParseError (Option String) :=
  if isBlank raw then .ok none else some <$> parseEthAddress (trim raw)

def parseEtherscanNormalRow (raw : EtherscanNormalTx) : Except ParseError EtherscanNormalRow := do
  let txHash ← parseEtherscanTxHash raw.hash
  let status ← mapEtherscanNormalStatus raw
  let blockHeight ← parseEtherscanBlockHeight raw.blockNumber
  let blockTime ← parseEtherscanBlockTime raw.timeStamp
  let feeAmount ← parseEtherscanFeeAmount raw.gasUsed raw.gasPrice
  let nonce ← parseEtherscanNonce raw.nonce
  let fromAddress ← parseEtherscanAddress parseEthAddress raw.fromAddress
  let toAddress ← parseEtherscanAddress parseEthAddress raw.toAddress
  let valueAmount ← parseEtherscanDecimalU128 raw.value "value"
  return {
    txHash, status, blockHeight, blockTime, feeAmount, nonce
    transfer := {
      providerTransferKey := .normal
      transferIndex := 0
      transferKind := .normal
      fromAddress, toAddress, valueAmount } }

def parseEtherscanInternalRow (raw : EtherscanInternalTx) : Except ParseError EtherscanRow := do
  let txHash ← parseEtherscanTxHash raw.hash
  let status ← mapEtherscanInternalStatus raw
  let blockHeight ← parseEtherscanBlockHeight raw.blockNumber
  let blockTime ← parseEtherscanBlockTime raw.timeStamp
  let fromAddress ← parseEtherscanAddress parseEthAddress raw.fromAddress
  let toAddress ← parseEtherscanAddress parseEthAddress raw.toAddress
  let valueAmount ← parseEtherscanDecimalU128 raw.value "value"
  match ProviderTransferKey.fromInternalTraceId (trim raw.traceId) with
  | none => .error ⟨"etherscan internal trace_id cannot be empty"⟩
  | some providerTransferKey => return {
      txHash, status, blockHeight, blockTime
      transfer := {
        providerTransferKey
        transferIndex := 0
        transferKind := mapInternalTransferKind raw.callType
        fromAddress, toAddress, valueAmount } }

end Rows

/-! ## Gathering by hash -/

def mergeInternalStatus (current incoming : ChainTransactionStatus) : ChainTransactionStatus :=
  match current, incoming with
  | .confirmed, _ | _, .confirmed => .confirmed
  | .pending, _ | _, .pending => .pending
  | .failed, _ | _, .failed => .failed
  | .dropped, .dropped => .dropped

/-- `max_optional_i64`, and `latest_optional_time` on seconds. -/
def maxOptional (lhs rhs : Option ℤ) : Option ℤ :=
  match lhs, rhs with
  | some left, some right => some (max left right)
  | some left, none => some left
  | none, some right => some right
  | none, none => none

structure EtherscanAggregatedTx where
  txHash : String
  status : ChainTransactionStatus
  hasNormal : Bool
  blockHeight : Option ℤ
  blockTime : Option ℤ
  feeAmount : Option UnsignedAmount
  nonce : Option ℤ
  transfers : List (SyncAccountTransferRecord × ChainTransactionStatus)
deriving DecidableEq, Repr

/-- The key of a gathered transfer. -/
def aggregatedKey (entry : SyncAccountTransferRecord × ChainTransactionStatus) :
    ProviderTransferKey :=
  entry.1.providerTransferKey

/-- `upsert_aggregated_transfer`. -/
def upsertAggregatedTransfer (transfers : List (SyncAccountTransferRecord × ChainTransactionStatus))
    (entry : SyncAccountTransferRecord × ChainTransactionStatus) :
    List (SyncAccountTransferRecord × ChainTransactionStatus) :=
  upsert aggregatedKey (fun _ incoming => incoming) entry transfers

namespace EtherscanAggregatedTx

/-- A transaction first seen in a normal row. -/
def ofNormal (row : EtherscanNormalRow) : EtherscanAggregatedTx where
  txHash := row.txHash
  status := row.status
  hasNormal := true
  blockHeight := row.blockHeight
  blockTime := row.blockTime
  feeAmount := some row.feeAmount
  nonce := row.nonce
  transfers := []

/-- A transaction first seen in an internal row. -/
def ofInternal (row : EtherscanRow) : EtherscanAggregatedTx where
  txHash := row.txHash
  status := row.status
  hasNormal := false
  blockHeight := row.blockHeight
  blockTime := row.blockTime
  feeAmount := none
  nonce := none
  transfers := []

def addNormal (aggregated : EtherscanAggregatedTx) (row : EtherscanNormalRow) :
    EtherscanAggregatedTx where
  txHash := aggregated.txHash
  status := row.status
  hasNormal := true
  blockHeight := maxOptional aggregated.blockHeight row.blockHeight
  blockTime := maxOptional aggregated.blockTime row.blockTime
  feeAmount := aggregated.feeAmount.or (some row.feeAmount)
  nonce := aggregated.nonce.or row.nonce
  transfers := upsertAggregatedTransfer aggregated.transfers (row.transfer, row.status)

def addInternal (aggregated : EtherscanAggregatedTx) (row : EtherscanRow) :
    EtherscanAggregatedTx :=
  { aggregated with
    status := if aggregated.hasNormal then aggregated.status
      else mergeInternalStatus aggregated.status row.status
    blockHeight := maxOptional aggregated.blockHeight row.blockHeight
    blockTime := maxOptional aggregated.blockTime row.blockTime
    transfers := upsertAggregatedTransfer aggregated.transfers (row.transfer, row.status) }

end EtherscanAggregatedTx

/-- One normal row of the loop. -/
def aggregateNormal (byHash : List EtherscanAggregatedTx) (row : EtherscanNormalRow) :
    List EtherscanAggregatedTx :=
  upsert EtherscanAggregatedTx.txHash (fun old _ => old.addNormal row)
    ((EtherscanAggregatedTx.ofNormal row).addNormal row) byHash

/-- One internal row of the loop. -/
def aggregateInternal (byHash : List EtherscanAggregatedTx) (row : EtherscanRow) :
    List EtherscanAggregatedTx :=
  upsert EtherscanAggregatedTx.txHash (fun old _ => old.addInternal row)
    ((EtherscanAggregatedTx.ofInternal row).addInternal row) byHash

/-! ## Records -/

/-- The order transfers are displayed in: the normal one, then by key. -/
def displayLe (left right : SyncAccountTransferRecord) : Bool :=
  match left.providerTransferKey.isNormal, right.providerTransferKey.isNormal with
  | true, false => true
  | false, true => false
  | _, _ => left.providerTransferKey.text ≤ right.providerTransferKey.text

/-- Number the internal transfers from an index on; a normal one has index zero. -/
def numberTransfers : ℤ → List SyncAccountTransferRecord → List SyncAccountTransferRecord
  | _, [] => []
  | nextInternalIndex, transfer :: rest =>
    if transfer.providerTransferKey.isNormal then
      { transfer with transferIndex := 0 } :: numberTransfers nextInternalIndex rest
    else
      { transfer with transferIndex := nextInternalIndex } ::
        numberTransfers (min (nextInternalIndex + 1) i64Max) rest

def assignTransferDisplayIndices (transfers : List SyncAccountTransferRecord) :
    List SyncAccountTransferRecord :=
  numberTransfers 1 (transfers.mergeSort displayLe)

namespace EtherscanAggregatedTx

/-- A failed transfer of a confirmed transaction is excluded. -/
def excludes (aggregated : EtherscanAggregatedTx)
    (entry : SyncAccountTransferRecord × ChainTransactionStatus) : Bool :=
  aggregated.status = .confirmed ∧ entry.2 = .failed

/-- The record of a gathered transaction. -/
def toRecord (aggregated : EtherscanAggregatedTx) : SyncAccountTransactionRecord where
  txHash := aggregated.txHash
  status := aggregated.status
  blockHeight := aggregated.blockHeight
  blockHash := none
  blockTime := aggregated.blockTime
  feeAmount := aggregated.feeAmount
  nonce := aggregated.nonce
  transfers := assignTransferDisplayIndices
    ((aggregated.transfers.filter fun entry => ¬ aggregated.excludes entry).map Prod.fst)
  excludedTransferKeys := (aggregated.transfers.filter aggregated.excludes).map aggregatedKey

end EtherscanAggregatedTx

def mapEtherscanTransactions (parseEthAddress : String → Except ParseError String)
    (normalTransactions : List EtherscanNormalTx)
    (internalTransactions : List EtherscanInternalTx) :
    Except ParseError (List SyncAccountTransactionRecord) := do
  let normalRows ← normalTransactions.mapM (parseEtherscanNormalRow parseEthAddress)
  let internalRows ← internalTransactions.mapM (parseEtherscanInternalRow parseEthAddress)
  let byHash := internalRows.foldl aggregateInternal (normalRows.foldl aggregateNormal [])
  return (byHash.mergeSort fun left right => left.txHash ≤ right.txHash).map
    EtherscanAggregatedTx.toRecord

end Bitgarth.Store
