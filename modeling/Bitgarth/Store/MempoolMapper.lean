import Mathlib.Data.List.Range
import Mathlib.Data.List.ReduceOption
import Bitgarth.Foundation.Fallible
import Bitgarth.Store.Tables
import Bitgarth.Text

/-! # Mapping Mempool transactions

A page of the provider's address transactions becomes records to reconcile. Inputs and outputs
are numbered by their position; a coinbase input, which names no outpoint, is left out.
-/

namespace Bitgarth.Store

open Ledger Fallible Text

structure MempoolTransactionStatus where
  confirmed : Bool
  blockHeight : Option ℤ
  blockHash : Option String
  blockTime : Option ℤ
deriving DecidableEq, Repr

structure MempoolPrevOut where
  scriptpubkeyAddress : Option String
  value : ℤ
deriving DecidableEq, Repr

structure MempoolInput where
  txid : Option String
  vout : Option ℤ
  prevout : Option MempoolPrevOut
deriving DecidableEq, Repr

structure MempoolOutput where
  scriptpubkey : String
  scriptpubkeyAddress : Option String
  value : ℤ
deriving DecidableEq, Repr

structure MempoolAddressTransaction where
  txid : String
  vin : List MempoolInput
  vout : List MempoolOutput
  fee : Option ℤ
  status : MempoolTransactionStatus
deriving DecidableEq, Repr

/-- `UserTransactionMonitorError::Parse`. -/
structure ParseError where
  message : String
deriving DecidableEq, Repr

def mapStatus (raw : MempoolTransactionStatus) : ChainTransactionStatus :=
  if raw.confirmed then .confirmed else .pending

/-- `TxHash::parse`: 64 hexadecimal digits, kept in lower case. -/
def parseTxHash (context raw : String) : Except ParseError String :=
  let trimmed := trim raw
  if trimmed.utf8ByteSize ≠ 64 then
    .error ⟨context ++ " parse error: tx hash must be 64 hex chars, got length " ++
      toString trimmed.utf8ByteSize⟩
  else if trimmed.toList.all isAsciiHexDigit = true then
    .ok (toAsciiLowercase trimmed)
  else
    .error ⟨context ++ " parse error: tx hash contains non-hex characters"⟩

/-- `parse_optional_address`: a blank address is none. -/
def parseOptionalAddress (rawAddress : Option String) : Option String :=
  (rawAddress.filter fun value => ¬ isBlank value = true).map trim

/-- The seconds `Utc.timestamp_opt` accepts. -/
def isTimestamp (seconds : ℤ) : Prop :=
  -8334601228800 ≤ seconds ∧ seconds ≤ 8210266876799

instance (seconds : ℤ) : Decidable (isTimestamp seconds) :=
  inferInstanceAs (Decidable (_ ∧ _))

def parseBlockTime (rawBlockTime : Option ℤ) : Except ParseError (Option ℤ) :=
  match rawBlockTime with
  | none => .ok none
  | some seconds =>
    if isTimestamp seconds then
      .ok (some seconds)
    else
      .error ⟨"invalid block timestamp: " ++ toString seconds⟩

def parseNonNegative (value : ℤ) (fieldName : String) : Except ParseError ℤ :=
  if value < 0 then
    .error ⟨fieldName ++ " cannot be negative: " ++ toString value⟩
  else
    .ok value

def parseOptionalNonNegative (value : Option ℤ) (fieldName : String) :
    Except ParseError (Option ℤ) :=
  match value with
  | none => .ok none
  | some value => some <$> parseNonNegative value fieldName

/-- One input with its position; none when it names no outpoint. -/
def mapMempoolInput (positioned : MempoolInput × ℕ) :
    Except ParseError (Option SyncTransactionInputRecord) :=
  let (vin, position) := positioned
  match vin.txid, vin.vout with
  | some prevTxidRaw, some prevOutputIndex => do
      let prevTxHash ← parseTxHash "prev tx hash" prevTxidRaw
      let prevOutputIndex ← parseNonNegative prevOutputIndex "prev_output_index"
      let valueAmount ←
        parseOptionalNonNegative (vin.prevout.map MempoolPrevOut.value) "input value"
      let prevAddress := parseOptionalAddress (vin.prevout.bind MempoolPrevOut.scriptpubkeyAddress)
      return some { inputIndex := position, prevTxHash, prevOutputIndex, prevAddress, valueAmount }
  | _, _ => .ok none

/-- One output with its position. -/
def mapMempoolOutput (positioned : MempoolOutput × ℕ) :
    Except ParseError SyncTransactionOutputRecord :=
  let (vout, position) := positioned
  if isBlank vout.scriptpubkey = true then
    .error ⟨"output script_pubkey cannot be empty"⟩
  else do
    let valueAmount ← parseNonNegative vout.value "output value"
    let rawAddress := parseOptionalAddress vout.scriptpubkeyAddress
    return {
      outputIndex := position
      rawAddress
      scriptPubkeyHex := vout.scriptpubkey
      valueAmount }

def mapMempoolTransaction (raw : MempoolAddressTransaction) :
    Except ParseError SyncTransactionRecord := do
  let txHash ← parseTxHash "tx hash" raw.txid
  let blockTime ← parseBlockTime raw.status.blockTime
  let feeAmount ← parseOptionalNonNegative raw.fee "fee"
  let inputs ← raw.vin.zipIdx.mapM mapMempoolInput
  let outputs ← raw.vout.zipIdx.mapM mapMempoolOutput
  return {
    txHash
    status := mapStatus raw.status
    blockHeight := raw.status.blockHeight
    blockHash := raw.status.blockHash
    blockTime
    feeAmount
    inputs := inputs.reduceOption
    outputs }

def mapMempoolTransactions (rawTransactions : List MempoolAddressTransaction) :
    Except ParseError (List SyncTransactionRecord) :=
  rawTransactions.mapM mapMempoolTransaction

/-! ## What is accepted -/

theorem isBlank_of_parseTxHash {context raw hash : String}
    (parsed : parseTxHash context raw = .ok hash) : isBlank hash = false := by
  unfold parseTxHash at parsed
  dsimp only at parsed
  split at parsed <;> rename_i length
  · cases parsed
  · split at parsed <;> rename_i digits
    · obtain rfl := Except.ok.inj parsed
      rw [ne_eq, Decidable.not_not] at length
      unfold isBlank toAsciiLowercase
      rw [String.toList_ofList, List.all_map, List.all_eq_false]
      cases characters : (trim raw).toList with
      | nil =>
        have empty : trim raw = "" := String.toList_eq_nil_iff.mp characters
        rw [empty] at length
        cases length
      | cons first rest =>
        rw [characters, List.all_cons, Bool.and_eq_true] at digits
        refine ⟨first, List.mem_cons_self, ?_⟩
        rw [Function.comp_apply, isWhiteSpace_toLower_of_isAsciiHexDigit digits.1]
        exact Bool.false_ne_true
    · cases parsed

theorem parseOptionalNonNegative_eq_ok {value result : Option ℤ} {fieldName : String}
    (parsed : parseOptionalNonNegative value fieldName = .ok result) :
    result = value ∧ ∀ number ∈ result, 0 ≤ number := by
  cases value with
  | none =>
    obtain rfl := Except.ok.inj parsed
    exact ⟨rfl, fun _ member => absurd member (Option.not_mem_none _)⟩
  | some number =>
    unfold parseOptionalNonNegative parseNonNegative at parsed
    dsimp only at parsed
    split at parsed <;> rename_i sign
    · cases parsed
    · obtain rfl := Except.ok.inj parsed
      exact ⟨rfl, fun _ member => Option.some.inj member ▸ not_lt.mp sign⟩

theorem mapMempoolTransaction_spec {raw : MempoolAddressTransaction}
    {record : SyncTransactionRecord} (mapped : mapMempoolTransaction raw = .ok record) :
    isBlank record.txHash = false ∧ record.feeAmount = raw.fee ∧
      ∀ fee ∈ record.feeAmount, 0 ≤ fee := by
  obtain ⟨txHash, hashParsed, mapped⟩ := bind_eq_ok.mp mapped
  obtain ⟨blockTime, _, mapped⟩ := bind_eq_ok.mp mapped
  obtain ⟨feeAmount, feeParsed, mapped⟩ := bind_eq_ok.mp mapped
  obtain ⟨inputs, _, mapped⟩ := bind_eq_ok.mp mapped
  obtain ⟨outputs, _, mapped⟩ := bind_eq_ok.mp mapped
  rw [pure_eq_ok] at mapped
  subst mapped
  exact ⟨isBlank_of_parseTxHash hashParsed, parseOptionalNonNegative_eq_ok feeParsed⟩

theorem mapMempoolInput_index {positioned : MempoolInput × ℕ} {input : SyncTransactionInputRecord}
    (mapped : mapMempoolInput positioned = .ok (some input)) :
    input.inputIndex = positioned.2 := by
  obtain ⟨vin, position⟩ := positioned
  unfold mapMempoolInput at mapped
  dsimp only at mapped
  split at mapped
  · obtain ⟨_, _, mapped⟩ := bind_eq_ok.mp mapped
    obtain ⟨_, _, mapped⟩ := bind_eq_ok.mp mapped
    obtain ⟨_, _, mapped⟩ := bind_eq_ok.mp mapped
    obtain rfl := Option.some.inj (pure_eq_ok.mp mapped)
    rfl
  · cases Except.ok.inj mapped

theorem mapMempoolOutput_index {positioned : MempoolOutput × ℕ}
    {output : SyncTransactionOutputRecord}
    (mapped : mapMempoolOutput positioned = .ok output) : output.outputIndex = positioned.2 := by
  obtain ⟨vout, position⟩ := positioned
  unfold mapMempoolOutput at mapped
  dsimp only at mapped
  split at mapped
  · cases mapped
  · obtain ⟨_, _, mapped⟩ := bind_eq_ok.mp mapped
    obtain rfl := pure_eq_ok.mp mapped
    rfl

theorem sublist_of_mapM_eq_ok {Raw Mapped : Type} {step : Raw → Except ParseError (Option Mapped)}
    {position : Raw → ℤ} {index : Mapped → ℤ}
    (keeps : ∀ raw mapped, step raw = .ok (some mapped) → index mapped = position raw)
    {raws : List Raw} {results : List (Option Mapped)} (done : raws.mapM step = .ok results) :
    (results.reduceOption.map index).Sublist (raws.map position) := by
  induction raws generalizing results with
  | nil =>
    rw [List.mapM_nil, pure_eq_ok] at done
    subst done
    exact .slnil
  | cons raw rest ih =>
    rw [List.mapM_cons] at done
    obtain ⟨first, head, done⟩ := bind_eq_ok.mp done
    obtain ⟨later, tail, done⟩ := bind_eq_ok.mp done
    rw [pure_eq_ok] at done
    subst done
    cases first with
    | none =>
      rw [List.reduceOption_cons_of_none, List.map_cons]
      exact (ih tail).cons _
    | some mapped =>
      rw [List.reduceOption_cons_of_some, List.map_cons, List.map_cons, keeps raw mapped head]
      exact (ih tail).cons_cons _

theorem nodup_positions {Raw : Type} (raws : List Raw) :
    (raws.zipIdx.map fun positioned => (positioned.2 : ℤ)).Nodup := by
  have ofRange : (raws.zipIdx.map fun positioned => (positioned.2 : ℤ)) =
      (List.range' 0 raws.length).map fun position : ℕ => (position : ℤ) := by
    rw [← List.zipIdx_map_snd, List.map_map]
    rfl
  rw [ofRange]
  exact List.Nodup.map (fun _ _ same => Int.ofNat.inj same) List.nodup_range'

theorem mapMempoolTransaction_nodup {raw : MempoolAddressTransaction}
    {record : SyncTransactionRecord} (mapped : mapMempoolTransaction raw = .ok record) :
    (record.inputs.map SyncTransactionInputRecord.inputIndex).Nodup ∧
      (record.outputs.map SyncTransactionOutputRecord.outputIndex).Nodup := by
  obtain ⟨_, _, mapped⟩ := bind_eq_ok.mp mapped
  obtain ⟨_, _, mapped⟩ := bind_eq_ok.mp mapped
  obtain ⟨_, _, mapped⟩ := bind_eq_ok.mp mapped
  obtain ⟨inputs, inputsMapped, mapped⟩ := bind_eq_ok.mp mapped
  obtain ⟨outputs, outputsMapped, mapped⟩ := bind_eq_ok.mp mapped
  rw [pure_eq_ok] at mapped
  subst mapped
  constructor
  · have kept : (inputs.reduceOption.map SyncTransactionInputRecord.inputIndex).Sublist
        (raw.vin.zipIdx.map fun positioned => (positioned.2 : ℤ)) :=
      sublist_of_mapM_eq_ok (fun _ _ => mapMempoolInput_index) inputsMapped
    exact kept.nodup (nodup_positions raw.vin)
  · have positions : outputs.map SyncTransactionOutputRecord.outputIndex =
        raw.vout.zipIdx.map fun positioned => (positioned.2 : ℤ) :=
      map_eq_of_mapM_eq_ok outputsMapped fun _ _ => mapMempoolOutput_index
    rw [positions]
    exact nodup_positions raw.vout

end Bitgarth.Store
