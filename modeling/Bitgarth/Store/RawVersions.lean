import Bitgarth.Store.EtherscanRecords

/-! # Retained Etherscan rows

Each provider row is kept as the bytes it came in, one chain of versions for each source
connection and identity: the transaction hash, for an internal row with the trace id. A page is
retained first; then the newest heads of the hashes it touches, whatever page and connection they
came from, are mapped and reconciled. Decoding the bytes is a parameter.
-/

namespace Bitgarth.Store

open Amounts Ledger KeyedTable Text

open Sync (SyncedAssetId)

/-! ## Versions -/

/-- A row of `raw_etherscan_normal_transaction_versions` or of its internal counterpart. -/
structure RawVersion (Identity : Type) where
  rawVersionId : String
  sourceConnectionId : String
  network : Network
  identity : Identity
  payloadBytes : String
  createdAt : ℤ
  supersedesRawVersionId : Option String
deriving DecidableEq, Repr

section Versions

variable {Identity : Type} [DecidableEq Identity]

/-- No version supersedes it. -/
def isHead (versions : List (RawVersion Identity)) (version : RawVersion Identity) : Bool :=
  versions.all fun newer => newer.supersedesRawVersionId ≠ some version.rawVersionId

/-- `load_current_raw_etherscan_normal_tx_head` and its internal counterpart. -/
def loadCurrentRawHead (versions : List (RawVersion Identity)) (sourceConnectionId : String)
    (identity : Identity) : Option (RawVersion Identity) :=
  versions.find? fun version =>
    version.sourceConnectionId = sourceConnectionId ∧ version.identity = identity ∧
      isHead versions version = true

/-- `load_all_current_raw_etherscan_normal_transaction_heads_conn` and its internal counterpart. -/
def loadAllCurrentRawHeads (versions : List (RawVersion Identity)) : List (RawVersion Identity) :=
  versions.filter (isHead versions)

/-- Retain a version: reuse the current head when it has the same bytes, supersede it when not. -/
def insertRawVersion (versions : List (RawVersion Identity)) (request : RawVersion Identity) :
    Except DbError (List (RawVersion Identity)) :=
  let currentHead := loadCurrentRawHead versions request.sourceConnectionId request.identity
  if ∃ head ∈ currentHead, head.payloadBytes = request.payloadBytes then
    .ok versions
  else if request.rawVersionId ∈ versions.map RawVersion.rawVersionId then
    .error ⟨"Failed to insert raw etherscan transaction version"⟩
  else
    .ok (versions ++
      [{ request with supersedesRawVersionId := currentHead.map RawVersion.rawVersionId }])

/-- The newer of two heads of one identity, by creation time and then by id. -/
def keepNewer (old head : RawVersion Identity) : RawVersion Identity :=
  if old.createdAt < head.createdAt ∨
      old.createdAt = head.createdAt ∧ old.rawVersionId < head.rawVersionId then
    head
  else
    old

/-- The newest head of each identity, in the order of identities. -/
def newestHeads (le : Identity → Identity → Bool) (heads : List (RawVersion Identity)) :
    List (RawVersion Identity) :=
  (heads.foldl (fun newest head => upsert RawVersion.identity keepNewer head newest) []).mergeSort
    fun left right => le left.identity right.identity

end Versions

/-! ## Parsing a retained row -/

/-- `UserTransactionMonitorError`, as far as ingestion and mapping raise it. -/
inductive MonitorError where
  | db (error : DbError)
  | parse (error : ParseError)
deriving DecidableEq, Repr

/-- The hash of a row as ingestion reads it: it strips a lower-case `0x` only, and trims after. -/
def parseRetainedTxHash (rawHash : String) : Except ParseError String :=
  match rawHash.toList with
  | '0' :: 'x' :: digits => parseTxHash "invalid tx hash" (String.ofList digits)
  | _ => parseTxHash "invalid tx hash" rawHash

/-- `EtherscanTraceId::parse`. -/
def parseTraceId (raw : String) : Except DbError String :=
  if trim raw = "" then .error ⟨"etherscan trace id cannot be empty"⟩ else .ok (trim raw)

/-- `parse_persisted_raw_etherscan_normal_transaction`. -/
def parsePersistedRawEtherscanNormalTransaction
    (decode : String → Except String EtherscanNormalTx) (rawVersionId expectedTxHash : String)
    (payloadBytes : String) : Except String EtherscanNormalTx :=
  match decode payloadBytes with
  | .error err => .error ("raw etherscan normal transaction version " ++ rawVersionId ++
      " failed JSON deserialization: " ++ err)
  | .ok transaction =>
    match parseRetainedTxHash transaction.hash with
    | .error err => .error ("invalid etherscan normal tx hash: " ++ err.message)
    | .ok parsedTxHash =>
      if parsedTxHash ≠ expectedTxHash then
        .error ("raw etherscan normal transaction version " ++ rawVersionId ++
          " tx hash mismatch: stored " ++ expectedTxHash ++ ", parsed " ++ parsedTxHash)
      else
        .ok transaction

/-- `parse_persisted_raw_etherscan_internal_transaction`; an identity is a hash and a trace id. -/
def parsePersistedRawEtherscanInternalTransaction
    (decode : String → Except String EtherscanInternalTx) (rawVersionId : String)
    (expected : String × String) (payloadBytes : String) : Except String EtherscanInternalTx :=
  match decode payloadBytes with
  | .error err => .error ("raw etherscan internal transaction version " ++ rawVersionId ++
      " failed JSON deserialization: " ++ err)
  | .ok transaction =>
    match parseRetainedTxHash transaction.hash with
    | .error err => .error ("invalid etherscan internal tx hash: " ++ err.message)
    | .ok parsedTxHash =>
      if parsedTxHash ≠ expected.1 then
        .error ("raw etherscan internal transaction version " ++ rawVersionId ++
          " tx hash mismatch: stored " ++ expected.1 ++ ", parsed " ++ parsedTxHash)
      else
        match parseTraceId transaction.traceId with
        | .error err => .error ("invalid etherscan internal trace id: " ++ err.message)
        | .ok parsedTraceId =>
          if parsedTraceId ≠ expected.2 then
            .error ("raw etherscan internal transaction version " ++ rawVersionId ++
              " trace id mismatch: stored " ++ expected.2 ++ ", parsed " ++ parsedTraceId)
          else
            .ok transaction

/-- The identity of a normal row. -/
def identifyNormal (row : EtherscanNormalTx) : Except MonitorError String :=
  (parseRetainedTxHash row.hash).mapError .parse

/-- The identity of an internal row. -/
def identifyInternal (row : EtherscanInternalTx) : Except MonitorError (String × String) := do
  let txHash ← (parseRetainedTxHash row.hash).mapError .parse
  let traceId ← (parseTraceId row.traceId).mapError .db
  return (txHash, traceId)

/-- What the two endpoints differ in. -/
structure EtherscanEndpoint (Row Identity : Type) where
  label : String
  hash : Row → String
  dedupKey : Row → String
  identify : Row → Except MonitorError Identity
  txHash : Identity → String
  le : Identity → Identity → Bool
  decode : String → Except String Row
  parsePersisted : String → Identity → String → Except String Row

def normalEndpoint (decode : String → Except String EtherscanNormalTx) :
    EtherscanEndpoint EtherscanNormalTx String where
  label := "normal"
  hash := EtherscanNormalTx.hash
  dedupKey := EtherscanNormalTx.hash
  identify := identifyNormal
  txHash := id
  le := fun left right => left ≤ right
  decode
  parsePersisted := parsePersistedRawEtherscanNormalTransaction decode

def internalEndpoint (decode : String → Except String EtherscanInternalTx) :
    EtherscanEndpoint EtherscanInternalTx (String × String) where
  label := "internal"
  hash := EtherscanInternalTx.hash
  dedupKey := fun row => row.hash ++ ":" ++ row.traceId
  identify := identifyInternal
  txHash := Prod.fst
  le := fun left right => left.1 < right.1 ∨ left.1 = right.1 ∧ left.2 ≤ right.2
  decode
  parsePersisted := parsePersistedRawEtherscanInternalTransaction decode

/-! ## Ingesting a page -/

/-- A fetched row, with the id its version would get. -/
structure EtherscanFetchedItem (Row : Type) where
  candidateRawVersionId : String
  parsed : Row
  rawJsonBytes : String
deriving DecidableEq, Repr

structure EtherscanPageIngestionRequest where
  sourceConnectionId : String
  network : Network
  observedAt : ℤ
deriving DecidableEq, Repr

section Ingestion

variable {Row Identity : Type} [DecidableEq Identity] (endpoint : EtherscanEndpoint Row Identity)

/-- One item of the ingestion loop, with its position in the page. -/
def ingestItem (request : EtherscanPageIngestionRequest)
    (state : List (RawVersion Identity) × List Row) (item : EtherscanFetchedItem Row × ℕ) :
    Except MonitorError (List (RawVersion Identity) × List Row) := do
  let identity ← endpoint.identify item.1.parsed
  if item.1.rawJsonBytes = "" then
    .error (.db ⟨"exact payload bytes cannot be empty"⟩)
  else
    match endpoint.parsePersisted item.1.candidateRawVersionId identity item.1.rawJsonBytes with
    | .error errorMessage => .error (.parse ⟨"etherscan " ++ endpoint.label ++ " page item " ++
        toString item.2 ++ " failed parse: " ++ errorMessage⟩)
    | .ok transaction => do
        let versions ← (insertRawVersion state.1 {
          rawVersionId := item.1.candidateRawVersionId
          sourceConnectionId := request.sourceConnectionId
          network := request.network
          identity
          payloadBytes := item.1.rawJsonBytes
          createdAt := request.observedAt
          supersedesRawVersionId := none }).mapError .db
        return (versions, state.2 ++ [transaction])

/-- `ingest_etherscan_normal_page` and `ingest_etherscan_internal_page`: the versions, and the
rows of the page. -/
def ingestEtherscanPage (request : EtherscanPageIngestionRequest)
    (items : List (EtherscanFetchedItem Row)) (versions : List (RawVersion Identity)) :
    Except MonitorError (List (RawVersion Identity) × List Row) :=
  items.zipIdx.foldlM (ingestItem endpoint request) (versions, [])

/-- `dedup_etherscan_txs`: the first row of each key. -/
def dedupEtherscanTxs (items : List Row) : List Row :=
  items.foldl (fun kept item =>
    if endpoint.dedupKey item ∈ kept.map endpoint.dedupKey then kept else kept ++ [item]) []

/-- The retained rows of the touched hashes: the newest of each identity. -/
def retainedRows (network : Network) (touchedHashes : List String)
    (versions : List (RawVersion Identity)) : Except MonitorError (List Row) :=
  (newestHeads endpoint.le ((loadAllCurrentRawHeads versions).filter fun head =>
    head.network = network ∧ endpoint.txHash head.identity ∈ touchedHashes)).mapM fun head =>
      (endpoint.parsePersisted head.rawVersionId head.identity head.payloadBytes).mapError fun _ =>
        .parse ⟨"Failed to parse retained Etherscan " ++ endpoint.label ++ " head"⟩

end Ingestion

/-! ## Processing a page -/

/-- The retained versions, and the tables reconciliation writes. -/
structure EtherscanStore where
  normalVersions : List (RawVersion String)
  internalVersions : List (RawVersion (String × String))
  tables : TransactionTables
deriving DecidableEq

/-- One page of both endpoints, with the times they are observed at. -/
structure EtherscanPageSet where
  normalItems : List (EtherscanFetchedItem EtherscanNormalTx)
  internalItems : List (EtherscanFetchedItem EtherscanInternalTx)
  normalObservedAt : ℤ
  internalObservedAt : ℤ

section Pages

variable (parseEthAddress : String → Except ParseError String)
  (decodeNormal : String → Except String EtherscanNormalTx)
  (decodeInternal : String → Except String EtherscanInternalTx)

def mapRetainedEtherscanTouchedHashes (network : Network) (touchedHashes : List String)
    (store : EtherscanStore) : Except MonitorError (List SyncAccountTransactionRecord) :=
  if touchedHashes = [] then
    .ok []
  else do
    let normals ←
      retainedRows (normalEndpoint decodeNormal) network touchedHashes store.normalVersions
    let internals ←
      retainedRows (internalEndpoint decodeInternal) network touchedHashes store.internalVersions
    (mapEtherscanTransactions parseEthAddress normals internals).mapError .parse

variable (toRfc3339 : ℤ → String) (addresses : List AddressRow)
  (rebuild : TransactionTables → String → Except DbError Unit) (assetId : SyncedAssetId)
  (network : Network) (sourceConnectionId : String)

/-- `reconcile_account_transactions`, without its counts. -/
def reconcileAccountTransactions (records : List SyncAccountTransactionRecord)
    (tables : TransactionTables) : Except DbError TransactionTables :=
  records.foldlM (fun tables record =>
    AccountReconcileOutcome.tables <$>
      reconcileAccountTransactionTx toRfc3339 addresses rebuild assetId network record tables)
    tables

/-- The part of `run_etherscan_iteration` that handles a fetched page set. -/
def processEtherscanPage (store : EtherscanStore) (page : EtherscanPageSet) :
    Except MonitorError EtherscanStore := do
  let (normalVersions, normalTxs) ← ingestEtherscanPage (normalEndpoint decodeNormal)
    { sourceConnectionId, network, observedAt := page.normalObservedAt } page.normalItems
    store.normalVersions
  let (internalVersions, internalTxs) ← ingestEtherscanPage (internalEndpoint decodeInternal)
    { sourceConnectionId, network, observedAt := page.internalObservedAt } page.internalItems
    store.internalVersions
  let pageRecords ← (mapEtherscanTransactions parseEthAddress
    (dedupEtherscanTxs (normalEndpoint decodeNormal) normalTxs)
    (dedupEtherscanTxs (internalEndpoint decodeInternal) internalTxs)).mapError .parse
  let store := { store with normalVersions, internalVersions }
  let mappedTransactions ← mapRetainedEtherscanTouchedHashes parseEthAddress decodeNormal
    decodeInternal network (pageRecords.map SyncAccountTransactionRecord.txHash) store
  let tables ← (reconcileAccountTransactions toRfc3339 addresses rebuild assetId network
    mappedTransactions store.tables).mapError .db
  return { store with tables }

end Pages

end Bitgarth.Store
