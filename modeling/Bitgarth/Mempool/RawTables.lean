import Mathlib.Data.List.Dedup
import Bitgarth.Foundation.Reachability
import Bitgarth.Store.RawVersions

/-! # Raw Mempool tables

Each transaction of a page is retained as a version with the bytes it came in, then the page is
committed with the observations of its versions. A call may stop between the two. Old runs are
cleaned up with what they observed, and whenever the database is opened the heads are repaired from
the observations that are left.
-/

namespace Bitgarth.Mempool

open Store

inductive SyncRunStatus where
  | started
  | completedSuccess (completedAt : ℤ)
  | completedFailure (completedAt : ℤ)
deriving DecidableEq, Repr

/-- A row of `sync_runs`. Times are in nanoseconds. -/
structure SyncRun where
  syncRunId : String
  sourceConnectionId : String
  status : SyncRunStatus
  startedAt : ℤ
deriving DecidableEq, Repr

inductive MempoolPageKind where
  | firstPage
  | paginatedAfterConfirmed
deriving DecidableEq, Repr

structure MempoolPageObservationMetadata where
  addressId : String
  scanStartRunId : Option String
  pageKind : MempoolPageKind
  requestedCursor : Option String
  returnedLastConfirmedCursor : Option String
  itemCount : ℕ
deriving DecidableEq, Repr

/-- A row of `raw_observation_sets`. -/
structure RawObservationSet where
  rawObservationSetId : String
  syncRunId : String
  metadata : MempoolPageObservationMetadata
  observedAt : ℤ
deriving DecidableEq, Repr

/-- A row of `raw_mempool_transaction_observations`. -/
structure RawMempoolTransactionObservation where
  observationId : String
  syncRunId : String
  sourceConnectionId : String
  rawObservationSetId : String
  rawVersionId : String
  pageItemIndex : ℕ
  observedAt : ℤ
deriving DecidableEq, Repr

/-- A version is of a transaction id. -/
structure RawTables where
  runs : List SyncRun := []
  versions : List (RawVersion String) := []
  sets : List RawObservationSet := []
  observations : List RawMempoolTransactionObservation := []
deriving DecidableEq

/-! ## Retention -/

def nanosPerHour : ℤ := 3600000000000

def SyncRun.ageAnchor (run : SyncRun) : ℤ :=
  match run.status with
  | .started => run.startedAt
  | .completedSuccess completedAt | .completedFailure completedAt => completedAt

def selectPrunableSyncRunIds (candidates : List SyncRun) (successfulCutoff failureCutoff : ℤ) :
    List String :=
  (candidates.filter fun candidate =>
    match candidate.status with
    | .completedSuccess _ => candidate.ageAnchor < successfulCutoff
    | .completedFailure _ | .started => candidate.ageAnchor < failureCutoff).map SyncRun.syncRunId

/-- The runs that a cleanup deletes. -/
def RawTables.prunable (tables : RawTables) (completedAt : ℤ) (retentionDays : ℕ) : List String :=
  selectPrunableSyncRunIds tables.runs (completedAt - retentionDays * (24 * nanosPerHour))
    (completedAt - 24 * nanosPerHour)

/-- Runs are deleted with the sets and observations that refer to them. -/
def RawTables.cleanupRawSyncHistory (tables : RawTables) (completedAt : ℤ) (retentionDays : ℕ) :
    RawTables :=
  let prunable := tables.prunable completedAt retentionDays
  let sets := tables.sets.filter (·.syncRunId ∉ prunable)
  { tables with
    runs := tables.runs.filter (·.syncRunId ∉ prunable)
    sets
    observations := tables.observations.filter fun observation =>
      observation.syncRunId ∉ prunable ∧
        observation.rawObservationSetId ∈ sets.map RawObservationSet.rawObservationSetId }

/-! ## Versions -/

inductive RawVersionWriteOutcome where
  | insertedNewHead
  | reusedCurrentHead
deriving DecidableEq, Repr

structure InsertedRawMempoolTransactionVersion where
  rawVersionId : String
  writeOutcome : RawVersionWriteOutcome
deriving DecidableEq, Repr

/-- `insert_raw_mempool_tx_version`; the lookup of the head is that of the Etherscan tables. -/
def insertRawMempoolTxVersion (versions : List (RawVersion String)) (request : RawVersion String) :
    Except Amounts.DbError (List (RawVersion String) × InsertedRawMempoolTransactionVersion) :=
  let currentHead := loadCurrentRawHead versions request.sourceConnectionId request.identity
  match currentHead.filter (·.payloadBytes = request.payloadBytes) with
  | some head => .ok (versions, ⟨head.rawVersionId, .reusedCurrentHead⟩)
  | none =>
    if request.rawVersionId ∈ versions.map RawVersion.rawVersionId then
      .error ⟨"Failed to insert raw mempool transaction version"⟩
    else
      .ok (versions ++
        [{ request with supersedesRawVersionId := currentHead.map RawVersion.rawVersionId }],
        ⟨request.rawVersionId, .insertedNewHead⟩)

structure LegacyMempoolHeadRepairCandidate where
  sourceConnectionId : String
  network : Network
  txid : String
  payloadBytes : String
  observedAt : ℤ
  currentHeadRawVersionId : String
deriving DecidableEq, Repr

namespace RawTables

/-- The observations with the versions they observed. -/
def observed (tables : RawTables) :
    List (RawMempoolTransactionObservation × RawVersion String) :=
  tables.observations.filterMap fun observation =>
    (tables.versions.find? (·.rawVersionId = observation.rawVersionId)).map fun version =>
      (observation, version)

/-- `ORDER BY o.observed_at DESC, o.created_at DESC, o.id DESC`; a row is created when it is
observed. -/
def laterObserved (old new : RawMempoolTransactionObservation × RawVersion String) :
    RawMempoolTransactionObservation × RawVersion String :=
  if old.1.observedAt < new.1.observedAt ∨
      old.1.observedAt = new.1.observedAt ∧ old.1.observationId < new.1.observationId then new
  else old

/-- The observation of a transaction with rank 1. -/
def latestObserved (tables : RawTables) (sourceConnectionId txid : String) :
    Option (RawMempoolTransactionObservation × RawVersion String) :=
  (tables.observed.filter fun row =>
    row.1.sourceConnectionId = sourceConnectionId ∧ row.2.identity = txid).foldl
      (fun latest row => some (latest.elim row (laterObserved · row))) none

/-- The partitions of the ranked observations. -/
def observedKeys (tables : RawTables) : List (String × String) :=
  (tables.observed.map fun row => (row.1.sourceConnectionId, row.2.identity)).dedup

/-- A transaction whose latest observation is not of the bytes of its head. -/
def headRepairCandidate (tables : RawTables) (key : String × String) :
    Option LegacyMempoolHeadRepairCandidate :=
  match loadCurrentRawHead tables.versions key.1 key.2, tables.latestObserved key.1 key.2 with
  | some head, some (observation, version) =>
    if version.payloadBytes ≠ head.payloadBytes then
      some ⟨key.1, version.network, key.2, version.payloadBytes, observation.observedAt,
        head.rawVersionId⟩
    else none
  | _, _ => none

def loadLegacyMempoolHeadRepairCandidates (tables : RawTables) :
    List LegacyMempoolHeadRepairCandidate :=
  tables.observedKeys.filterMap tables.headRepairCandidate

/-- The version that repairs a head. -/
def repairedVersion (candidate : LegacyMempoolHeadRepairCandidate) (repairedRawVersionId : String) :
    RawVersion String :=
  ⟨repairedRawVersionId, candidate.sourceConnectionId, candidate.network, candidate.txid,
    candidate.payloadBytes, candidate.observedAt, some candidate.currentHeadRawVersionId⟩

/-- `repair_legacy_mempool_head_rebuild_contract`, with the ids of the new versions. -/
def repairLegacyMempoolHeadRebuildContract (tables : RawTables) (ids : List String) : RawTables :=
  { tables with
    versions := tables.versions ++
      List.zipWith repairedVersion tables.loadLegacyMempoolHeadRepairCandidates ids }

end RawTables

/-! ## Ingestion -/

/-- A page whose versions are being retained. -/
structure PageCall where
  syncRunId : String
  sourceConnectionId : String
  observedAt : ℤ
  rawVersionIds : List String
deriving DecidableEq, Repr

/-- `ingested` are the source connections, transaction ids and bytes that were retained, the last
one first. -/
structure IngestionSystem where
  tables : RawTables := {}
  calls : List PageCall := []
  ingested : List ((String × String) × String) := []

inductive IngestionStep where
  | startRun (run : SyncRun)
  | completeRun (syncRunId : String) (status : SyncRunStatus)
  | beginPage (syncRunId sourceConnectionId : String) (observedAt : ℤ)
  | ingestItem (call : PageCall) (request : RawVersion String)
  | commitPage (call : PageCall) (rawObservationSetId : String)
      (metadata : MempoolPageObservationMetadata) (observationIds : List String)
  | stop (call : PageCall)
  | cleanup (completedAt : ℤ) (retentionDays : ℕ)
  | repair (ids : List String)

namespace IngestionSystem

/-- `record_raw_mempool_page_observation`: the rows of one page. -/
def recordPage (tables : RawTables) (call : PageCall) (rawObservationSetId : String)
    (metadata : MempoolPageObservationMetadata) (observationIds : List String) : RawTables :=
  { tables with
    sets := tables.sets ++ [⟨rawObservationSetId, call.syncRunId, metadata, call.observedAt⟩]
    observations := tables.observations ++
      (observationIds.zip call.rawVersionIds).mapIdx fun pageItemIndex ids =>
        ⟨ids.1, call.syncRunId, call.sourceConnectionId, rawObservationSetId, ids.2, pageItemIndex,
          call.observedAt⟩ }

/-- The keys of the page tables: new ids, an existing run, and no version twice. -/
def PageFits (tables : RawTables) (call : PageCall) (rawObservationSetId : String)
    (observationIds : List String) : Prop :=
  call.syncRunId ∈ tables.runs.map SyncRun.syncRunId ∧
  rawObservationSetId ∉ tables.sets.map RawObservationSet.rawObservationSetId ∧
  observationIds.length = call.rawVersionIds.length ∧ observationIds.Nodup ∧
  (∀ id ∈ observationIds,
    id ∉ tables.observations.map RawMempoolTransactionObservation.observationId) ∧
  call.rawVersionIds.Nodup

instance (tables : RawTables) (call : PageCall) (rawObservationSetId : String)
    (observationIds : List String) :
    Decidable (PageFits tables call rawObservationSetId observationIds) :=
  inferInstanceAs (Decidable (_ ∧ _ ∧ _ ∧ _ ∧ _ ∧ _))

def run (system : IngestionSystem) : IngestionStep → Option IngestionSystem
  | .startRun started =>
    if started.status = .started ∧
        started.syncRunId ∉ system.tables.runs.map SyncRun.syncRunId then
      some { system with tables := { system.tables with runs := system.tables.runs ++ [started] } }
    else none
  | .completeRun syncRunId status =>
    if status ≠ .started ∧ syncRunId ∈ system.tables.runs.map SyncRun.syncRunId then
      some { system with tables := { system.tables with
        runs := system.tables.runs.map fun run =>
          if run.syncRunId = syncRunId then { run with status } else run } }
    else none
  | .beginPage syncRunId sourceConnectionId observedAt =>
    some { system with calls := ⟨syncRunId, sourceConnectionId, observedAt, []⟩ :: system.calls }
  | .ingestItem call request =>
    if call ∈ system.calls ∧ request.sourceConnectionId = call.sourceConnectionId ∧
        request.createdAt = call.observedAt then
      match insertRawMempoolTxVersion system.tables.versions request with
      | .error _ => none
      | .ok (versions, inserted) => some { system with
          tables := { system.tables with versions }
          calls := { call with rawVersionIds := call.rawVersionIds ++ [inserted.rawVersionId] } ::
            system.calls.erase call
          ingested := ((request.sourceConnectionId, request.identity), request.payloadBytes) ::
            system.ingested }
    else none
  | .commitPage call rawObservationSetId metadata observationIds =>
    if call ∈ system.calls ∧ PageFits system.tables call rawObservationSetId observationIds then
      some { system with
        tables := recordPage system.tables call rawObservationSetId metadata observationIds
        calls := system.calls.erase call }
    else none
  | .stop call => some { system with calls := system.calls.erase call }
  | .cleanup completedAt retentionDays =>
    some { system with tables := system.tables.cleanupRawSyncHistory completedAt retentionDays }
  | .repair ids =>
    if ids.length = system.tables.loadLegacyMempoolHeadRepairCandidates.length ∧ ids.Nodup ∧
        ∀ id ∈ ids, id ∉ system.tables.versions.map RawVersion.rawVersionId then
      some { system with tables := system.tables.repairLegacyMempoolHeadRebuildContract ids }
    else none

/-- The bytes of a transaction that were retained last. -/
def lastIngested (system : IngestionSystem) (key : String × String) : Option String :=
  (system.ingested.find? (·.1 = key)).map Prod.snd

end IngestionSystem

end Bitgarth.Mempool
