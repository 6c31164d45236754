import Mathlib.Data.List.Count
import Bitgarth.Foundation.KeyedTable
import Bitgarth.Sync.Gate
import Mathlib.Algebra.Group.Nat.Defs

/-! # The task manager

A table of background jobs by key. A trigger starts a run of its job, or is merged into the one
pending run while the job is running; a completion starts the pending run. A schedule tick
refreshes which users have a job and triggers the jobs that are due.
-/

namespace Bitgarth.Tasks

open KeyedTable
open Bitgarth.Sync (TriggerSource)

inductive JobId where
  | sessionCleanup
  | traceCleanup
  | inactiveUserCleanup
  | userTransactionMonitor
  | priceHistoryReconciliation
deriving DecidableEq, Repr

inductive JobKey (UserId : Type) where
  | app (jobId : JobId)
  | user (jobId : JobId) (userId : UserId)
deriving DecidableEq, Repr

def JobKey.jobId {UserId : Type} : JobKey UserId → JobId
  | app jobId => jobId
  | user jobId _ => jobId

/-- A key whose job is registered by its first trigger. -/
def JobKey.isDynamic {UserId : Type} : JobKey UserId → Bool
  | user .userTransactionMonitor _ => true
  | user .priceHistoryReconciliation _ => true
  | _ => false

inductive TransactionSyncScope (AccountId AddressId : Type) where
  | user
  | account (accountId : AccountId)
  | address (addressId : AddressId)
deriving DecidableEq, Repr

inductive PriceHistoryReconciliationReason where
  | login
  | priceFetchingEnabled
deriving DecidableEq, Repr

/-- The retention of a trace cleanup is in hours. -/
inductive TriggerParams (RunId AccountId AddressId : Type) where
  | sessionCleanup
  | traceCleanup (retention : ℕ)
  | inactiveUserCleanup (batchLimit : ℕ)
  | userTransactionMonitor (runId : RunId) (scope : TransactionSyncScope AccountId AddressId)
  | priceHistoryReconciliation (reason : PriceHistoryReconciliationReason)
deriving DecidableEq, Repr

structure TriggerRequest (UserId RunId AccountId AddressId : Type) where
  key : JobKey UserId
  source : TriggerSource
  params : TriggerParams RunId AccountId AddressId
deriving DecidableEq, Repr

inductive TriggerEnqueueResult (RunId : Type) where
  | acceptedStarted (runId : Option RunId)
  | acceptedQueued (runId : Option RunId)
  | rejectedInvalidKey
  | rejectedShuttingDown
deriving DecidableEq, Repr

def TriggerEnqueueResult.isAccepted {RunId : Type} : TriggerEnqueueResult RunId → Bool
  | acceptedStarted _ => true
  | acceptedQueued _ => true
  | _ => false

/-- Durations and instants in seconds. -/
structure JobDefinition where
  interval : ℕ
  scheduled : Bool
deriving DecidableEq, Repr

structure JobState (UserId RunId AccountId AddressId : Type) where
  definition : JobDefinition
  running : Bool
  pending : Option (TriggerRequest UserId RunId AccountId AddressId)
  nextDueAt : ℕ
deriving DecidableEq, Repr

/-- What the freshness of a user's accounts decides, without the reasons. -/
inductive AutomaticSyncDecision where
  | enqueueNow
  | keepScheduled (nextDueIn : ℕ)
  | skip
deriving DecidableEq, Repr

structure FailureEpisode where
  nextRetry : ℕ
  lastWarning : ℕ
  attempts : ℕ
deriving DecidableEq, Repr

structure EligibilityRefresh where
  failure : Option FailureEpisode := none
deriving DecidableEq, Repr

namespace EligibilityRefresh

def ready (refresh : EligibilityRefresh) (now : ℕ) : Bool :=
  refresh.failure.all fun failure => failure.nextRetry ≤ now

/-- The attempts that are reported, if they are. -/
def failed (refresh : EligibilityRefresh) (now : ℕ) : Option ℕ × EligibilityRefresh :=
  match refresh.failure with
  | none => (some 1, ⟨some ⟨now + 30, now, 1⟩⟩)
  | some failure =>
    let attempts := min (failure.attempts + 1) (2 ^ 64 - 1)
    if 300 ≤ now - failure.lastWarning then (some attempts, ⟨some ⟨now + 30, now, attempts⟩⟩)
    else (none, ⟨some ⟨now + 30, failure.lastWarning, attempts⟩⟩)

end EligibilityRefresh

structure JobExecutionSuccess where
  summary : String
  nextDueHint : Option ℕ
deriving DecidableEq, Repr

/-- How the body of a job ends. -/
inductive JobOutcome where
  | returned (result : Except String JobExecutionSuccess)
  | panicked (message : String)
deriving DecidableEq

structure JobCompletion (UserId RunId AccountId AddressId : Type) where
  request : TriggerRequest UserId RunId AccountId AddressId
  result : Except String JobExecutionSuccess
deriving DecidableEq

def userTransactionMonitorInterval : ℕ := 300

def sessionCleanupInterval : ℕ := 30 * 60

def traceCleanupInterval : ℕ := 60 * 60

def inactiveUserCleanupInterval : ℕ := 24 * 60 * 60

def traceRetentionHours : ℕ := 24

def defaultBatchLimit : ℕ := 100

section Triggers

variable {UserId RunId AccountId AddressId : Type}

namespace TriggerParams

/-- `none` is the `unreachable!` of a job that is not scheduled. -/
def forScheduledJob (newRunId : RunId) :
    JobId → Option (TriggerParams RunId AccountId AddressId)
  | .sessionCleanup => some .sessionCleanup
  | .traceCleanup => some (.traceCleanup traceRetentionHours)
  | .inactiveUserCleanup => some (.inactiveUserCleanup defaultBatchLimit)
  | .userTransactionMonitor => some (.userTransactionMonitor newRunId .user)
  | .priceHistoryReconciliation => none

def matchesJob : TriggerParams RunId AccountId AddressId → JobId → Bool
  | .sessionCleanup, .sessionCleanup => true
  | .traceCleanup _, .traceCleanup => true
  | .inactiveUserCleanup _, .inactiveUserCleanup => true
  | .userTransactionMonitor _ _, .userTransactionMonitor => true
  | .priceHistoryReconciliation _, .priceHistoryReconciliation => true
  | _, _ => false

/-- `transaction_sync_run_id_for_params`. -/
def transactionSyncRunId : TriggerParams RunId AccountId AddressId → Option RunId
  | .userTransactionMonitor runId _ => some runId
  | _ => none

end TriggerParams

def canonicalizePendingRequest (request : TriggerRequest UserId RunId AccountId AddressId) :
    TriggerRequest UserId RunId AccountId AddressId :=
  match request.params with
  | .userTransactionMonitor runId _ =>
    { request with params := .userTransactionMonitor runId .user }
  | _ => request

structure TriggerTransition (UserId RunId AccountId AddressId : Type) where
  shouldStartNow : Bool
  runningAfter : Bool
  pendingAfter : Option (TriggerRequest UserId RunId AccountId AddressId)
  enqueueResult : TriggerEnqueueResult RunId

def computeTriggerTransition (running : Bool)
    (pending : Option (TriggerRequest UserId RunId AccountId AddressId))
    (request : TriggerRequest UserId RunId AccountId AddressId) :
    TriggerTransition UserId RunId AccountId AddressId :=
  if running then
    let pendingRequest := canonicalizePendingRequest (pending.getD request)
    { shouldStartNow := false
      runningAfter := true
      pendingAfter := some pendingRequest
      enqueueResult := .acceptedQueued pendingRequest.params.transactionSyncRunId }
  else
    { shouldStartNow := true
      runningAfter := true
      pendingAfter := none
      enqueueResult := .acceptedStarted request.params.transactionSyncRunId }

def automaticSyncRequest (userId : UserId) (source : TriggerSource) (newRunId : RunId) :
    TriggerRequest UserId RunId AccountId AddressId where
  key := .user .userTransactionMonitor userId
  source := source
  params := .userTransactionMonitor newRunId .user

/-- The report of a run, with a panic of its body as an error. -/
def runJobAndReportCompletion (request : TriggerRequest UserId RunId AccountId AddressId) :
    JobOutcome → JobCompletion UserId RunId AccountId AddressId
  | .returned result => { request, result }
  | .panicked message => { request, result := .error ("Job join failure: " ++ message) }

end Triggers

/-! ## The manager -/

/-- The jobs in the order they were inserted. -/
structure TaskManager (UserId RunId AccountId AddressId : Type) where
  jobs : List (JobKey UserId × JobState UserId RunId AccountId AddressId) := []
  eligibilityRefresh : EligibilityRefresh := {}
  shuttingDown : Bool := false
deriving DecidableEq

section Manager

variable {UserId RunId AccountId AddressId : Type} [DecidableEq UserId]

namespace TaskManager

def job (manager : TaskManager UserId RunId AccountId AddressId) (key : JobKey UserId) :
    Option (JobState UserId RunId AccountId AddressId) :=
  (find Prod.fst manager.jobs key).map Prod.snd

def insert (manager : TaskManager UserId RunId AccountId AddressId) (key : JobKey UserId)
    (interval : ℕ) (scheduled : Bool) (now : ℕ) : TaskManager UserId RunId AccountId AddressId :=
  { manager with
    jobs := manager.jobs ++ [(key,
      { definition := { interval, scheduled }
        running := false
        pending := none
        nextDueAt := now + interval })] }

/-- What `get_mut` changes. -/
def modify (manager : TaskManager UserId RunId AccountId AddressId) (key : JobKey UserId)
    (update : JobState UserId RunId AccountId AddressId →
      JobState UserId RunId AccountId AddressId) : TaskManager UserId RunId AccountId AddressId :=
  { manager with
    jobs := manager.jobs.map fun row => if row.1 = key then (row.1, update row.2) else row }

/-- `register_static_app_jobs` of a new manager, on the hosted channel or another one. -/
def new (hosted : Bool) (now : ℕ) : TaskManager UserId RunId AccountId AddressId :=
  let manager := (({} : TaskManager UserId RunId AccountId AddressId).insert
    (.app .sessionCleanup) sessionCleanupInterval true now).insert
      (.app .traceCleanup) traceCleanupInterval true now
  if hosted then
    manager.insert (.app .inactiveUserCleanup) inactiveUserCleanupInterval true now
  else manager

/-- Whether a job was inserted. -/
def insertUserTransactionJobIfMissing (manager : TaskManager UserId RunId AccountId AddressId)
    (userId : UserId) (now : ℕ) : Bool × TaskManager UserId RunId AccountId AddressId :=
  if (manager.job (.user .userTransactionMonitor userId)).isSome then (false, manager)
  else (true, manager.insert (.user .userTransactionMonitor userId)
    userTransactionMonitorInterval true now)

def insertPriceHistoryReconciliationJobIfMissing
    (manager : TaskManager UserId RunId AccountId AddressId) (userId : UserId) (now : ℕ) :
    Bool × TaskManager UserId RunId AccountId AddressId :=
  if (manager.job (.user .priceHistoryReconciliation userId)).isSome then (false, manager)
  else (true, manager.insert (.user .priceHistoryReconciliation userId)
    userTransactionMonitorInterval false now)

def ensureDynamicJobExists (manager : TaskManager UserId RunId AccountId AddressId)
    (key : JobKey UserId) (now : ℕ) : Bool × TaskManager UserId RunId AccountId AddressId :=
  if (manager.job key).isSome then (true, manager)
  else
    match key with
    | .user .userTransactionMonitor userId =>
      let (_, manager) := manager.insertUserTransactionJobIfMissing userId now
      ((manager.job key).isSome, manager)
    | .user .priceHistoryReconciliation userId =>
      let (_, manager) := manager.insertPriceHistoryReconciliationJobIfMissing userId now
      ((manager.job key).isSome, manager)
    | _ => (false, manager)

/-- The answer, the manager and the run that is started. `signalled` is the process-wide flag
that `shutdown` sets before it sends its command. -/
def applyTrigger (manager : TaskManager UserId RunId AccountId AddressId) (signalled : Bool)
    (request : TriggerRequest UserId RunId AccountId AddressId) (now : ℕ) :
    TriggerEnqueueResult RunId × TaskManager UserId RunId AccountId AddressId ×
      Option (TriggerRequest UserId RunId AccountId AddressId) :=
  if manager.shuttingDown || signalled then (.rejectedShuttingDown, manager, none)
  else
    let (exists_, manager) := manager.ensureDynamicJobExists request.key now
    if !exists_ then (.rejectedInvalidKey, manager, none)
    else
      match manager.job request.key with
      | none => (.rejectedInvalidKey, manager, none)
      | some state =>
        if !request.params.matchesJob request.key.jobId then
          (.rejectedInvalidKey, manager, none)
        else
          let transition := computeTriggerTransition state.running state.pending request
          (transition.enqueueResult,
            manager.modify request.key fun state =>
              { state with running := transition.runningAfter, pending := transition.pendingAfter },
            if transition.shouldStartNow then some request else none)

/-- The manager, and the pending run that is started. -/
def handleJobCompletion (manager : TaskManager UserId RunId AccountId AddressId)
    (signalled : Bool) (completion : JobCompletion UserId RunId AccountId AddressId) (now : ℕ) :
    TaskManager UserId RunId AccountId AddressId ×
      Option (TriggerRequest UserId RunId AccountId AddressId) :=
  match manager.job completion.request.key with
  | none => (manager, none)
  | some state =>
    let nextDueAt :=
      match completion.result with
      | .ok success => success.nextDueHint.elim state.nextDueAt fun interval => now + interval
      | .error _ => state.nextDueAt
    let started := if manager.shuttingDown || signalled then none else state.pending
    (manager.modify completion.request.key fun state =>
      { state with running := started.isSome, pending := none, nextDueAt }, started)

/-- The handling of the shutdown command. -/
def shutdown (manager : TaskManager UserId RunId AccountId AddressId) :
    TaskManager UserId RunId AccountId AddressId :=
  { manager with
    shuttingDown := true
    jobs := manager.jobs.map fun row => (row.1, { row.2 with pending := none }) }

/-! ## Schedule ticks -/

/-- A user who became eligible gets a job, with a trigger where there is work to do. -/
def restoreUser (now : ℕ) (decision : UserId → AutomaticSyncDecision) (newRunId : UserId → RunId)
    (refreshed : TaskManager UserId RunId AccountId AddressId ×
      List (TriggerRequest UserId RunId AccountId AddressId)) (userId : UserId) :
    TaskManager UserId RunId AccountId AddressId ×
      List (TriggerRequest UserId RunId AccountId AddressId) :=
  let (inserted, manager) := refreshed.1.insertUserTransactionJobIfMissing userId now
  if !inserted then (manager, refreshed.2)
  else
    match decision userId with
    | .enqueueNow => (manager, refreshed.2 ++
        [automaticSyncRequest userId .autoSessionRestore (newRunId userId)])
    | .keepScheduled nextDueIn => (manager.modify (.user .userTransactionMonitor userId)
        fun state => { state with nextDueAt := now + nextDueIn }, refreshed.2)
    | .skip => (manager, refreshed.2)

/-- Jobs of users who are no longer eligible are dropped unless they are busy. -/
def retainEligible (manager : TaskManager UserId RunId AccountId AddressId)
    (eligible : List UserId) : TaskManager UserId RunId AccountId AddressId :=
  { manager with
    jobs := manager.jobs.filter fun row =>
      match row.1 with
      | .user .userTransactionMonitor userId =>
        userId ∈ eligible || row.2.running || row.2.pending.isSome
      | _ => true }

/-- `sync_user_transaction_jobs_with`, with what its two loaders return. -/
def syncUserTransactionJobsWith (manager : TaskManager UserId RunId AccountId AddressId) (now : ℕ)
    (loadOpen loadSessions : Except String (List UserId))
    (decision : UserId → AutomaticSyncDecision) (newRunId : UserId → RunId) :
    TaskManager UserId RunId AccountId AddressId ×
      List (TriggerRequest UserId RunId AccountId AddressId) :=
  if !manager.eligibilityRefresh.ready now then (manager, [])
  else
    match loadOpen, loadSessions with
    | .ok openUsers, .ok loggedInUsers =>
      let eligible := openUsers.dedup.filter fun userId => userId ∈ loggedInUsers
      let (manager, requests) := eligible.foldl (restoreUser now decision newRunId)
        ({ manager with eligibilityRefresh := {} }, [])
      (manager.retainEligible eligible, requests)
    | _, _ =>
      ({ manager with eligibilityRefresh := (manager.eligibilityRefresh.failed now).2 }, [])

def dueKeys (manager : TaskManager UserId RunId AccountId AddressId) (now : ℕ) :
    List (JobKey UserId) :=
  (manager.jobs.filter fun row => row.2.definition.scheduled ∧ row.2.nextDueAt ≤ now).map Prod.fst

/-- One due job is scheduled anew, and triggered unless it is a monitor without work to do. -/
def collectKey (now : ℕ) (decision : UserId → AutomaticSyncDecision)
    (newRunId : JobKey UserId → RunId)
    (collected : TaskManager UserId RunId AccountId AddressId ×
      List (TriggerRequest UserId RunId AccountId AddressId)) (key : JobKey UserId) :
    Option (TaskManager UserId RunId AccountId AddressId ×
      List (TriggerRequest UserId RunId AccountId AddressId)) :=
  if (collected.1.job key).isNone then some collected
  else
    let manager := collected.1.modify key fun state =>
      { state with nextDueAt := now + state.definition.interval }
    match key with
    | .user .userTransactionMonitor userId =>
      match decision userId with
      | .enqueueNow => some (manager, collected.2 ++
          [automaticSyncRequest userId .autoFreshness (newRunId key)])
      | .keepScheduled nextDueIn => some (manager.modify key fun state =>
        { state with nextDueAt := now + nextDueIn }, collected.2)
      | .skip => some (manager, collected.2)
    | _ =>
      (TriggerParams.forScheduledJob (newRunId key) key.jobId).map fun params =>
        (manager, collected.2 ++ [{ key, source := .schedule, params }])

/-- The due jobs, in the order in which the table yields their keys. -/
def collectDue (manager : TaskManager UserId RunId AccountId AddressId) (now : ℕ)
    (keys : List (JobKey UserId)) (decision : UserId → AutomaticSyncDecision)
    (newRunId : JobKey UserId → RunId) : Option (TaskManager UserId RunId AccountId AddressId ×
      List (TriggerRequest UserId RunId AccountId AddressId)) :=
  keys.foldlM (collectKey now decision newRunId) (manager, [])

end TaskManager

end Manager

end Bitgarth.Tasks
