import Bitgarth.Foundation.Reachability
import Bitgarth.Tasks.Flights

/-! # Runs of the task manager

The manager with the runs it has spawned and the reports they send, in any order of triggers,
ticks, completions and the shutdown. A tick is taken apart at its triggers, since the flag of the
shutdown may be set between two of them.
-/

namespace Bitgarth.Tasks

open KeyedTable Reachability

section Model

variable (UserId RunId AccountId AddressId : Type)

/-- A trigger and its answer, the lengths of the histories when it was given, and the table before
and after it. -/
structure Answer where
  request : TriggerRequest UserId RunId AccountId AddressId
  result : TriggerEnqueueResult RunId
  started : ℕ
  handled : ℕ
  before : List (JobKey UserId × JobState UserId RunId AccountId AddressId)
  after : List (JobKey UserId × JobState UserId RunId AccountId AddressId)

/-- What a tick has still to trigger, before and after the collection of the due jobs. -/
inductive TickPhase where
  | idle
  | restoring (now : ℕ) (requests : List (TriggerRequest UserId RunId AccountId AddressId))
  | applying (requests : List (TriggerRequest UserId RunId AccountId AddressId))
deriving DecidableEq

/-- `signalled` is the process-wide flag of the shutdown. `started`, `handled` and `answers` are
histories, and `shutdownAt` is how many runs had started at the first shutdown command. -/
structure TaskSystem where
  manager : TaskManager UserId RunId AccountId AddressId
  signalled : Bool := false
  tick : TickPhase UserId RunId AccountId AddressId := .idle
  executing : List (TriggerRequest UserId RunId AccountId AddressId) := []
  reported : List (JobCompletion UserId RunId AccountId AddressId) := []
  started : List (TriggerRequest UserId RunId AccountId AddressId) := []
  handled : List (JobCompletion UserId RunId AccountId AddressId) := []
  answers : List (Answer UserId RunId AccountId AddressId) := []
  shutdownAt : Option ℕ := none

inductive TaskStep where
  | enqueue (request : TriggerRequest UserId RunId AccountId AddressId) (now : ℕ)
  | tick (now : ℕ) (loadOpen loadSessions : Except String (List UserId))
      (decision : UserId → AutomaticSyncDecision) (newRunId : UserId → RunId)
  | collectDue (keys : List (JobKey UserId)) (decision : UserId → AutomaticSyncDecision)
      (newRunId : JobKey UserId → RunId)
  | applyNext (now : ℕ)
  | finish (request : TriggerRequest UserId RunId AccountId AddressId) (outcome : JobOutcome)
  | complete (completion : JobCompletion UserId RunId AccountId AddressId) (now : ℕ)
  | shutdown
  | signal

end Model

section Steps

variable {UserId RunId AccountId AddressId : Type} [DecidableEq UserId] [DecidableEq RunId]
  [DecidableEq AccountId] [DecidableEq AddressId]

def TickPhase.requests : TickPhase UserId RunId AccountId AddressId →
    List (TriggerRequest UserId RunId AccountId AddressId)
  | idle => []
  | restoring _ requests => requests
  | applying requests => requests

namespace TaskSystem

def new (hosted : Bool) (now : ℕ) : TaskSystem UserId RunId AccountId AddressId where
  manager := .new hosted now

/-- The runs that are spawned or whose report is not handled yet. -/
def inProgress (system : TaskSystem UserId RunId AccountId AddressId) :
    List (TriggerRequest UserId RunId AccountId AddressId) :=
  system.executing ++ system.reported.map (·.request)

/-- `start_job_run`, where a run is started. -/
def start (system : TaskSystem UserId RunId AccountId AddressId)
    (manager : TaskManager UserId RunId AccountId AddressId)
    (run : Option (TriggerRequest UserId RunId AccountId AddressId)) :
    TaskSystem UserId RunId AccountId AddressId :=
  { system with
    manager
    executing := run.toList ++ system.executing
    started := system.started ++ run.toList }

def trigger (system : TaskSystem UserId RunId AccountId AddressId)
    (request : TriggerRequest UserId RunId AccountId AddressId) (now : ℕ) :
    TaskSystem UserId RunId AccountId AddressId :=
  let (result, manager, run) := system.manager.applyTrigger system.signalled request now
  { system.start manager run with
    answers := system.answers ++ [{
      request, result
      started := system.started.length
      handled := system.handled.length
      before := system.manager.jobs
      after := manager.jobs }] }

/-- What a step does where it can be taken. The manager handles one command or tick at a time. -/
def run (system : TaskSystem UserId RunId AccountId AddressId) :
    TaskStep UserId RunId AccountId AddressId →
      Option (TaskSystem UserId RunId AccountId AddressId)
  | .enqueue request now =>
    match system.tick with
    | .idle => some (system.trigger request now)
    | _ => none
  | .tick now loadOpen loadSessions decision newRunId =>
    match system.tick with
    | .idle =>
      if system.manager.shuttingDown || system.signalled then none
      else
        let (manager, requests) := system.manager.syncUserTransactionJobsWith now loadOpen
          loadSessions decision newRunId
        some { system with manager, tick := .restoring now requests }
    | _ => none
  | .collectDue keys decision newRunId =>
    match system.tick with
    | .restoring now [] =>
      if keys.Perm (system.manager.dueKeys now) then
        (system.manager.collectDue now keys decision newRunId).map fun collected =>
          { system with manager := collected.1, tick := .applying collected.2 }
      else none
    | _ => none
  | .applyNext now =>
    match system.tick with
    | .restoring start (request :: rest) =>
      some { system.trigger request now with tick := .restoring start rest }
    | .applying (request :: rest) =>
      some { system.trigger request now with tick := .applying rest }
    | .applying [] => some { system with tick := .idle }
    | _ => none
  | .finish request outcome =>
    if request ∈ system.executing then
      some { system with
        executing := system.executing.erase request
        reported := runJobAndReportCompletion request outcome :: system.reported }
    else none
  | .complete completion now =>
    if system.tick = .idle ∧ completion ∈ system.reported then
      let (manager, run) := system.manager.handleJobCompletion system.signalled completion now
      some { system.start manager run with
        reported := system.reported.erase completion
        handled := system.handled ++ [completion] }
    else none
  | .shutdown =>
    match system.tick with
    | .idle => some { system with
        manager := system.manager.shutdown
        shutdownAt := system.shutdownAt.or (some system.started.length) }
    | _ => none
  | .signal => some { system with signalled := true }

end TaskSystem

end Steps

/-! ## What the answers promise -/

section Promises

variable {UserId RunId AccountId AddressId : Type}

/-- A synchronisation of a user includes those of all their accounts and addresses. -/
def TransactionSyncScope.Includes (wider scope : TransactionSyncScope AccountId AddressId) :
    Prop :=
  wider = .user ∨ wider = scope

def TriggerParams.scope : TriggerParams RunId AccountId AddressId →
    Option (TransactionSyncScope AccountId AddressId)
  | .userTransactionMonitor _ scope => some scope
  | _ => none

def TriggerParams.Covers (wider params : TriggerParams RunId AccountId AddressId) : Prop :=
  ∀ scope ∈ params.scope, ∃ widened ∈ wider.scope, widened.Includes scope

def TriggerEnqueueResult.runId : TriggerEnqueueResult RunId → Option RunId
  | acceptedStarted runId => runId
  | acceptedQueued runId => runId
  | _ => none

/-- The run of the answered trigger: of its job, with the id of the answer, and with its scope. -/
structure Answer.ServedBy (answer : Answer UserId RunId AccountId AddressId)
    (run : TriggerRequest UserId RunId AccountId AddressId) : Prop where
  key : run.key = answer.request.key
  runId : answer.result.runId = run.params.transactionSyncRunId
  covers : run.params.Covers answer.request.params

variable [DecidableEq UserId]

/-- The run has started since the answer, the manager is shut down, or the run is pending while
the run that was in progress at the answer still is. -/
def Answer.Kept (answer : Answer UserId RunId AccountId AddressId)
    (system : TaskSystem UserId RunId AccountId AddressId) : Prop :=
  (∃ run ∈ system.started.drop answer.started, answer.ServedBy run) ∨
    (system.manager.shuttingDown || system.signalled) = true ∨
    ∃ pending, system.manager.flight answer.request.key = ⟨true, some pending⟩ ∧
      answer.ServedBy pending ∧ answer.started ≤ system.started.length ∧
        ∀ completion ∈ system.handled.drop answer.handled,
        completion.request.key ≠ answer.request.key

/-- Pending runs are those of their running job, and have been widened. -/
structure PendingFits (manager : TaskManager UserId RunId AccountId AddressId) (key : JobKey UserId)
    (pending : TriggerRequest UserId RunId AccountId AddressId) : Prop where
  running : (manager.flight key).running = true
  ofKey : pending.key = key
  isMatch : pending.params.matchesJob key.jobId = true
  canonical : canonicalizePendingRequest pending = pending

structure TaskSystem.Secure (system : TaskSystem UserId RunId AccountId AddressId) : Prop where
  wellFormed : system.manager.WellFormed
  counted : ∀ key, system.inProgress.countP (·.key = key) =
    (system.manager.flight key).running.toNat
  pending : ∀ key, ∀ pending ∈ (system.manager.flight key).pending,
    PendingFits system.manager key pending
  tick : ∀ request ∈ system.tick.requests, request.params.matchesJob request.key.jobId = true
  answered : ∀ answer ∈ system.answers, answer.result.isAccepted = true → answer.Kept system
  stopped : ∀ count ∈ system.shutdownAt, system.manager.shuttingDown = true ∧
    system.started.length = count

variable {system after : TaskSystem UserId RunId AccountId AddressId}
  {answer : Answer UserId RunId AccountId AddressId}
  {request : TriggerRequest UserId RunId AccountId AddressId}

/-! ## Scopes -/

omit [DecidableEq UserId] in
theorem canonicalizePendingRequest_canonical :
    canonicalizePendingRequest (canonicalizePendingRequest request) =
      canonicalizePendingRequest request := by
  obtain ⟨key, source, params⟩ := request
  cases params with
  | _ => rfl

omit [DecidableEq UserId] in
theorem key_canonicalizePendingRequest :
    (canonicalizePendingRequest request).key = request.key := by
  obtain ⟨key, source, params⟩ := request
  cases params with
  | _ => rfl

omit [DecidableEq UserId] in
theorem matchesJob_canonicalizePendingRequest {jobId : JobId} :
    (canonicalizePendingRequest request).params.matchesJob jobId =
      request.params.matchesJob jobId := by
  obtain ⟨key, source, params⟩ := request
  cases params with
  | userTransactionMonitor runId scope =>
    cases jobId with
    | _ => rfl
  | _ => rfl

theorem covers_refl (params : TriggerParams RunId AccountId AddressId) : params.Covers params :=
  fun scope isScope => ⟨scope, isScope, .inr rfl⟩

omit [DecidableEq UserId] in
theorem covers_canonicalizePendingRequest {jobId : JobId}
    {params : TriggerParams RunId AccountId AddressId}
    (first : request.params.matchesJob jobId = true) (second : params.matchesJob jobId = true) :
    (canonicalizePendingRequest request).params.Covers params := by
  obtain ⟨key, source, wider⟩ := request
  intro scope isScope
  cases params with
  | userTransactionMonitor runId own =>
    cases jobId with
    | userTransactionMonitor =>
      cases wider with
      | userTransactionMonitor other its => exact ⟨.user, rfl, .inl rfl⟩
      | _ => cases first
    | _ => cases second
  | _ => cases isScope

/-! ## Answers -/

theorem Answer.Kept.mono (kept : answer.Kept system)
    {started : List (TriggerRequest UserId RunId AccountId AddressId)}
    {handled : List (JobCompletion UserId RunId AccountId AddressId)}
    (isStarted : after.started = system.started ++ started)
    (isHandled : after.handled = system.handled ++ handled)
    (closed : (system.manager.shuttingDown || system.signalled) = true →
      (after.manager.shuttingDown || after.signalled) = true)
    (waits : ∀ pending, system.manager.flight answer.request.key = ⟨true, some pending⟩ →
      (after.manager.shuttingDown || after.signalled) = true ∨ pending ∈ started ∨
        after.manager.flight answer.request.key = ⟨true, some pending⟩ ∧
          ∀ completion ∈ handled, completion.request.key ≠ answer.request.key) :
    answer.Kept after := by
  rcases kept with ⟨run, isRun, serves⟩ | isClosed | ⟨pending, isPending, serves, known, unhandled⟩
  · refine .inl ⟨run, ?_, serves⟩
    rw [isStarted, List.drop_append]
    exact List.mem_append_left _ isRun
  · exact .inr (.inl (closed isClosed))
  · rcases waits pending isPending with isClosed | starts | ⟨stays, others⟩
    · exact .inr (.inl isClosed)
    · refine .inl ⟨pending, ?_, serves⟩
      rw [isStarted, List.drop_append, Nat.sub_eq_zero_of_le known]
      exact List.mem_append_right _ starts
    · refine .inr (.inr ⟨pending, stays, serves, ?_, ?_⟩)
      · rw [isStarted, List.length_append]
        exact Nat.le_add_right_of_le known
      · intro completion member
        rw [isHandled, List.drop_append] at member
        rcases List.mem_append.mp member with earlier | later
        · exact unhandled completion earlier
        · exact others completion (List.mem_of_mem_drop later)

/-! ## What steps keep -/

namespace TaskSystem

omit [DecidableEq UserId] in
theorem inProgress_start (manager : TaskManager UserId RunId AccountId AddressId)
    (run : Option (TriggerRequest UserId RunId AccountId AddressId)) :
    (system.start manager run).inProgress = run.toList ++ system.inProgress :=
  List.append_assoc _ _ _

theorem Secure.refresh (secure : system.Secure)
    {manager : TaskManager UserId RunId AccountId AddressId}
    {tick : TickPhase UserId RunId AccountId AddressId}
    (refreshes : system.manager.Refreshes manager)
    (isMatch : ∀ request ∈ tick.requests, request.params.matchesJob request.key.jobId = true) :
    ({ system with manager, tick } : TaskSystem UserId RunId AccountId AddressId).Secure := by
  have same : manager.flight = system.manager.flight := funext refreshes.flight
  refine ⟨refreshes.wellFormed, ?_, ?_, isMatch, ?_, ?_⟩
  · intro key
    rw [same]
    exact secure.counted key
  · intro key pending isPending
    rw [same] at isPending
    obtain ⟨running, ofKey, fits, canonical⟩ := secure.pending key pending isPending
    exact ⟨same ▸ running, ofKey, fits, canonical⟩
  · intro answer member isAccepted
    refine (secure.answered answer member isAccepted).mono (List.append_nil _).symm
      (List.append_nil _).symm ?_ ?_
    · rw [refreshes.shuttingDown]
      exact id
    · intro pending isPending
      refine .inr (.inr ⟨same ▸ isPending, ?_⟩)
      exact fun _ member => absurd member List.not_mem_nil
  · intro count isCount
    rw [refreshes.shuttingDown]
    exact secure.stopped count isCount

theorem Secure.reject (secure : system.Secure)
    {manager : TaskManager UserId RunId AccountId AddressId}
    (refreshes : system.manager.Refreshes manager) (rejected : answer.result.isAccepted = false) :
    ({ system.start manager none with answers := system.answers ++ [answer] } :
      TaskSystem UserId RunId AccountId AddressId).Secure := by
  have refreshed := secure.refresh refreshes secure.tick
  refine ⟨refreshed.wellFormed, refreshed.counted, ?_, refreshed.tick, ?_, ?_⟩
  · intro key pending isPending
    obtain ⟨running, ofKey, fits, canonical⟩ := refreshed.pending key pending isPending
    exact ⟨running, ofKey, fits, canonical⟩
  · intro other member isAccepted
    rcases List.mem_append.mp member with earlier | isLast
    · refine (refreshed.answered other earlier isAccepted).mono rfl (List.append_nil _).symm id ?_
      intro pending isPending
      exact .inr (.inr ⟨isPending, fun _ member => absurd member List.not_mem_nil⟩)
    · rw [List.mem_singleton.mp isLast, rejected] at isAccepted
      cases isAccepted
  · intro count isCount
    obtain ⟨isShuttingDown, isLength⟩ := refreshed.stopped count isCount
    refine ⟨isShuttingDown, ?_⟩
    dsimp only [start]
    rw [Option.toList_none, List.append_nil]
    exact isLength

theorem Secure.startRun (secure : system.Secure)
    {manager : TaskManager UserId RunId AccountId AddressId}
    (accepting : (system.manager.shuttingDown || system.signalled) = false)
    (idle : (system.manager.flight request.key).running = false)
    (flight : manager.flight = Function.update system.manager.flight request.key ⟨true, none⟩)
    (wellFormed : manager.WellFormed) (serves : answer.ServedBy request)
    (isNew : answer.started = system.started.length) :
    ({ system.start manager (some request) with answers := system.answers ++ [answer] } :
      TaskSystem UserId RunId AccountId AddressId).Secure := by
  refine ⟨wellFormed, ?_, ?_, secure.tick, ?_, ?_⟩
  · intro key
    have count : List.countP (fun found => decide (found.key = key))
        ([request] ++ system.inProgress) = (manager.flight key).running.toNat := by
      rw [List.countP_append, secure.counted, flight]
      by_cases same : key = request.key
      · subst same
        rw [Function.update_self, idle, List.countP_singleton, if_pos (decide_eq_true rfl)]
        rfl
      · rw [Function.update_of_ne same, List.countP_singleton, if_neg, Nat.zero_add]
        exact fun isKey => same (of_decide_eq_true isKey).symm
    exact (congrArg _ (inProgress_start manager (some request))).trans count
  · intro key pending isPending
    dsimp only [start] at isPending
    rw [flight] at isPending
    by_cases same : key = request.key
    · subst same
      rw [Function.update_self] at isPending
      cases isPending
    · rw [Function.update_of_ne same] at isPending
      obtain ⟨running, ofKey, fits, canonical⟩ := secure.pending key pending isPending
      refine ⟨?_, ofKey, fits, canonical⟩
      dsimp only [start]
      rw [flight, Function.update_of_ne same]
      exact running
  · intro other member isAccepted
    rcases List.mem_append.mp member with earlier | isLast
    · refine (secure.answered other earlier isAccepted).mono rfl (List.append_nil _).symm ?_ ?_
      · intro isClosed
        rw [accepting] at isClosed
        cases isClosed
      · intro pending isPending
        have different : other.request.key ≠ request.key := by
          intro same
          rw [same] at isPending
          rw [isPending] at idle
          cases idle
        refine .inr (.inr ⟨?_, fun _ member => absurd member List.not_mem_nil⟩)
        dsimp only [start]
        rw [flight, Function.update_of_ne different]
        exact isPending
    · rw [List.mem_singleton.mp isLast]
      refine .inl ⟨request, ?_, serves⟩
      dsimp only [start]
      rw [isNew, List.drop_left]
      exact List.mem_singleton_self request
  · intro count isCount
    obtain ⟨isShuttingDown, -⟩ := secure.stopped count isCount
    rw [isShuttingDown] at accepting
    cases accepting

theorem Secure.queueRun (secure : system.Secure)
    {manager : TaskManager UserId RunId AccountId AddressId}
    {pending : TriggerRequest UserId RunId AccountId AddressId}
    (isMatch : request.params.matchesJob request.key.jobId = true)
    (running : (system.manager.flight request.key).running = true)
    (isPending : pending = canonicalizePendingRequest
      ((system.manager.flight request.key).pending.getD request))
    (flight : manager.flight =
      Function.update system.manager.flight request.key ⟨true, some pending⟩)
    (shuttingDown : manager.shuttingDown = system.manager.shuttingDown)
    (wellFormed : manager.WellFormed) (isRequest : answer.request = request)
    (isResult : answer.result = .acceptedQueued pending.params.transactionSyncRunId)
    (isNew : answer.started = system.started.length)
    (isHandled : answer.handled = system.handled.length) :
    ({ system.start manager none with answers := system.answers ++ [answer] } :
      TaskSystem UserId RunId AccountId AddressId).Secure := by
  -- What was pending fits its job and is widened already, so it stays as it is.
  have stays : ∀ old ∈ (system.manager.flight request.key).pending, pending = old := by
    intro old isOld
    rw [isPending, isOld, Option.getD_some]
    exact (secure.pending request.key old isOld).canonical
  have fits : pending.key = request.key ∧ pending.params.matchesJob request.key.jobId = true := by
    cases isOld : (system.manager.flight request.key).pending with
    | none =>
      rw [isPending, isOld, Option.getD_none, key_canonicalizePendingRequest,
        matchesJob_canonicalizePendingRequest]
      exact ⟨rfl, isMatch⟩
    | some old =>
      obtain ⟨-, ofKey, oldMatch, -⟩ := secure.pending request.key old isOld
      rw [stays old isOld]
      exact ⟨ofKey, oldMatch⟩
  have canonical : canonicalizePendingRequest pending = pending := by
    rw [isPending, canonicalizePendingRequest_canonical]
  have serves : answer.ServedBy pending := by
    refine ⟨isRequest ▸ fits.1, ?_, ?_⟩
    · rw [isResult]
      rfl
    · rw [isRequest, ← canonical]
      exact covers_canonicalizePendingRequest fits.2 isMatch
  refine ⟨wellFormed, ?_, ?_, secure.tick, ?_, ?_⟩
  · intro key
    refine (secure.counted key).trans ?_
    dsimp only [start]
    rw [flight]
    by_cases same : key = request.key
    · subst same
      rw [Function.update_self, running]
    · rw [Function.update_of_ne same]
  · intro key found isFound
    dsimp only [start] at isFound
    rw [flight] at isFound
    by_cases same : key = request.key
    · subst same
      rw [Function.update_self] at isFound
      obtain rfl := Option.some.inj isFound
      refine ⟨?_, fits.1, fits.2, canonical⟩
      dsimp only [start]
      rw [flight, Function.update_self]
    · rw [Function.update_of_ne same] at isFound
      obtain ⟨isRunning, ofKey, foundMatch, isCanonical⟩ := secure.pending key found isFound
      refine ⟨?_, ofKey, foundMatch, isCanonical⟩
      dsimp only [start]
      rw [flight, Function.update_of_ne same]
      exact isRunning
  · intro other member isAccepted
    rcases List.mem_append.mp member with earlier | isLast
    · refine (secure.answered other earlier isAccepted).mono rfl (List.append_nil _).symm ?_ ?_
      · dsimp only [start]
        rw [shuttingDown]
        exact id
      · intro old isOld
        refine .inr (.inr ⟨?_, fun _ member => absurd member List.not_mem_nil⟩)
        dsimp only [start]
        rw [flight]
        by_cases same : other.request.key = request.key
        · rw [same, Function.update_self]
          rw [same] at isOld
          rw [stays old (isOld ▸ rfl)]
        · rw [Function.update_of_ne same]
          exact isOld
    · rw [List.mem_singleton.mp isLast]
      refine .inr (.inr ⟨pending, ?_, serves, ?_, ?_⟩)
      · dsimp only [start]
        rw [isRequest, flight, Function.update_self]
      · dsimp only [start]
        rw [isNew, List.length_append]
        exact Nat.le_add_right _ _
      · dsimp only [start]
        rw [isHandled, List.drop_length]
        exact fun _ member => absurd member List.not_mem_nil
  · intro count isCount
    obtain ⟨isShuttingDown, isLength⟩ := secure.stopped count isCount
    refine ⟨shuttingDown.trans isShuttingDown, ?_⟩
    dsimp only [start]
    rw [Option.toList_none, List.append_nil]
    exact isLength

theorem Secure.trigger (secure : system.Secure)
    (request : TriggerRequest UserId RunId AccountId AddressId) (now : ℕ) :
    (system.trigger request now).Secure := by
  have triggered := @TaskManager.triggered_applyTrigger _ _ _ _ _ _ now system.signalled request
    secure.wellFormed
  unfold TaskSystem.trigger
  generalize system.manager.applyTrigger system.signalled request now = applied at triggered ⊢
  cases triggered with
  | shuttingDown isShuttingDown => exact secure.reject secure.wellFormed.refreshes rfl
  | invalid refreshes => exact secure.reject refreshes rfl
  | started accepting isMatch idle flight _ wellFormed =>
    exact secure.startRun accepting idle flight wellFormed
      ⟨rfl, rfl, covers_refl _⟩ rfl
  | queued isMatch running isPending flight shuttingDown wellFormed =>
    exact secure.queueRun isMatch running isPending flight shuttingDown wellFormed rfl rfl rfl rfl

theorem Secure.running_of_inProgress (secure : system.Secure)
    (member : request ∈ system.inProgress) :
    (system.manager.flight request.key).running = true := by
  have positive : 0 < system.inProgress.countP (·.key = request.key) :=
    List.countP_pos_iff.mpr ⟨request, member, decide_eq_true rfl⟩
  rw [secure.counted] at positive
  cases isRunning : (system.manager.flight request.key).running with
  | true => rfl
  | false =>
    rw [isRunning] at positive
    exact absurd positive (Nat.lt_irrefl 0)

theorem Secure.running_of_reported (secure : system.Secure)
    {completion : JobCompletion UserId RunId AccountId AddressId}
    (member : completion ∈ system.reported) :
    (system.manager.flight completion.request.key).running = true :=
  secure.running_of_inProgress (List.mem_append_right _ (List.mem_map_of_mem member))

theorem Secure.shutdown (secure : system.Secure) :
    ({ system with
      manager := system.manager.shutdown
      shutdownAt := system.shutdownAt.or (some system.started.length) } :
        TaskSystem UserId RunId AccountId AddressId).Secure := by
  refine ⟨secure.wellFormed.shutdown, ?_, ?_, secure.tick, ?_, ?_⟩
  · intro key
    dsimp only
    rw [TaskManager.flight_shutdown]
    exact secure.counted key
  · intro key pending isPending
    dsimp only at isPending
    rw [TaskManager.flight_shutdown] at isPending
    cases isPending
  · exact fun _ _ _ => .inr (.inl rfl)
  · intro count isCount
    refine ⟨rfl, ?_⟩
    cases isStopped : system.shutdownAt with
    | none =>
      dsimp only at isCount
      rw [isStopped] at isCount
      exact Option.some.inj isCount
    | some earlier =>
      dsimp only at isCount
      rw [isStopped] at isCount
      obtain rfl := Option.some.inj isCount
      exact (secure.stopped earlier isStopped).2

theorem Secure.signal (secure : system.Secure) :
    ({ system with signalled := true } : TaskSystem UserId RunId AccountId AddressId).Secure := by
  refine ⟨secure.wellFormed, secure.counted, ?_, secure.tick, ?_, secure.stopped⟩
  · intro key pending isPending
    obtain ⟨running, ofKey, fits, canonical⟩ := secure.pending key pending isPending
    exact ⟨running, ofKey, fits, canonical⟩
  · exact fun _ _ _ => .inr (.inl (Bool.or_true _))

theorem secure_new (hosted : Bool) (now : ℕ) :
    (new hosted now : TaskSystem UserId RunId AccountId AddressId).Secure := by
  obtain ⟨wellFormed, flight⟩ := @TaskManager.new_spec UserId RunId AccountId AddressId _ hosted now
  refine ⟨wellFormed, ?_, ?_, ?_, ?_, ?_⟩
  · intro key
    exact (congrArg (fun flight => Bool.toNat (Flight.running flight)) (flight key)).symm
  · intro key pending isPending
    have isFlight : (new hosted now : TaskSystem UserId RunId AccountId AddressId).manager.flight
      key = {} := flight key
    rw [isFlight] at isPending
    cases isPending
  · exact fun _ member => absurd member List.not_mem_nil
  · exact fun _ member => absurd member List.not_mem_nil
  · exact fun _ isCount => nomatch isCount

variable [DecidableEq RunId] [DecidableEq AccountId] [DecidableEq AddressId]

theorem Secure.finish (secure : system.Secure) (member : request ∈ system.executing)
    (outcome : JobOutcome) :
    ({ system with
      executing := system.executing.erase request
      reported := runJobAndReportCompletion request outcome :: system.reported } :
        TaskSystem UserId RunId AccountId AddressId).Secure := by
  refine ⟨secure.wellFormed, ?_, ?_, secure.tick, ?_, secure.stopped⟩
  · intro key
    have isRequest : (runJobAndReportCompletion request outcome).request = request := by
      cases outcome with
      | _ => rfl
    rw [← secure.counted, inProgress, inProgress]
    dsimp only
    rw [List.map_cons, isRequest]
    apply List.Perm.countP_eq
    exact List.perm_middle.trans ((List.perm_cons_erase member).symm.append_right _)
  · intro key pending isPending
    obtain ⟨running, ofKey, fits, canonical⟩ := secure.pending key pending isPending
    exact ⟨running, ofKey, fits, canonical⟩
  · intro answer isAnswer isAccepted
    refine (secure.answered answer isAnswer isAccepted).mono (List.append_nil _).symm
      (List.append_nil _).symm id ?_
    intro pending isPending
    exact .inr (.inr ⟨isPending, fun _ member => absurd member List.not_mem_nil⟩)

theorem Secure.complete (secure : system.Secure)
    {completion : JobCompletion UserId RunId AccountId AddressId}
    (member : completion ∈ system.reported)
    {manager : TaskManager UserId RunId AccountId AddressId}
    {run : Option (TriggerRequest UserId RunId AccountId AddressId)}
    (isRun : run = if system.manager.shuttingDown || system.signalled then none
      else (system.manager.flight completion.request.key).pending)
    (flight : manager.flight = Function.update system.manager.flight completion.request.key
      { running := run.isSome, pending := none })
    (shuttingDown : manager.shuttingDown = system.manager.shuttingDown)
    (wellFormed : manager.WellFormed) :
    ({ system.start manager run with
      reported := system.reported.erase completion
      handled := system.handled ++ [completion] } :
        TaskSystem UserId RunId AccountId AddressId).Secure := by
  have running := secure.running_of_reported member
  have ofKey : ∀ started ∈ run, started.key = completion.request.key := by
    intro started isStarted
    rw [isRun] at isStarted
    split at isStarted
    · cases isStarted
    · exact (secure.pending _ started isStarted).ofKey
  refine ⟨wellFormed, ?_, ?_, secure.tick, ?_, ?_⟩
  · intro key
    have before := secure.counted key
    have others : system.inProgress.Perm
        (completion.request :: (system.executing ++
          (system.reported.erase completion).map (·.request))) := by
      refine List.Perm.trans ?_ List.perm_middle
      refine List.Perm.append_left _ ?_
      exact (List.perm_cons_erase member).map (·.request)
    rw [others.countP_eq, List.countP_cons] at before
    have isList : ({ system.start manager run with
        reported := system.reported.erase completion
        handled := system.handled ++ [completion] } :
          TaskSystem UserId RunId AccountId AddressId).inProgress =
        run.toList ++ (system.executing ++ (system.reported.erase completion).map (·.request)) :=
      List.append_assoc _ _ _
    rw [isList, List.countP_append]
    dsimp only [start]
    rw [flight]
    by_cases same : key = completion.request.key
    · subst same
      rw [running, if_pos (decide_eq_true rfl)] at before
      rw [Function.update_self, Nat.add_right_cancel before, Nat.add_zero]
      cases run with
      | none => rfl
      | some started =>
        rw [Option.toList_some, List.countP_singleton,
          if_pos (decide_eq_true (ofKey started rfl))]
        rfl
    · rw [if_neg fun isKey => same (of_decide_eq_true isKey).symm, Nat.add_zero] at before
      rw [Function.update_of_ne same, before]
      have uncounted : List.countP (fun found => decide (found.key = key)) run.toList = 0 := by
        rw [List.countP_eq_zero]
        intro started isStarted isKey
        have isStarted := ofKey started (Option.mem_toList.mp isStarted)
        exact same ((of_decide_eq_true isKey).symm.trans isStarted)
      rw [uncounted, Nat.zero_add]
  · intro key pending isPending
    dsimp only [start] at isPending
    rw [flight] at isPending
    by_cases same : key = completion.request.key
    · subst same
      rw [Function.update_self] at isPending
      cases isPending
    · rw [Function.update_of_ne same] at isPending
      obtain ⟨isRunning, isKey, fits, canonical⟩ := secure.pending key pending isPending
      refine ⟨?_, isKey, fits, canonical⟩
      dsimp only [start]
      rw [flight, Function.update_of_ne same]
      exact isRunning
  · intro answer isAnswer isAccepted
    refine (secure.answered answer isAnswer isAccepted).mono rfl rfl ?_ ?_
    · dsimp only [start]
      rw [shuttingDown]
      exact id
    · intro pending isPending
      dsimp only [start]
      rw [shuttingDown, flight]
      by_cases same : answer.request.key = completion.request.key
      · rw [same] at isPending
        cases isClosed : system.manager.shuttingDown || system.signalled with
        | true => exact .inl rfl
        | false =>
          refine .inr (.inl ?_)
          rw [isRun, isClosed, if_neg Bool.false_ne_true, isPending]
          exact List.mem_singleton_self pending
      · refine .inr (.inr ⟨?_, ?_⟩)
        · rw [Function.update_of_ne same]
          exact isPending
        · intro found isFound
          rw [List.mem_singleton.mp isFound]
          exact Ne.symm same
  · intro count isCount
    obtain ⟨isShuttingDown, isLength⟩ := secure.stopped count isCount
    refine ⟨shuttingDown.trans isShuttingDown, ?_⟩
    dsimp only [start]
    rw [isRun, isShuttingDown, Bool.true_or, if_pos rfl, Option.toList_none, List.append_nil]
    exact isLength

/-- What a step that was taken has done. -/
inductive Taken (system : TaskSystem UserId RunId AccountId AddressId) :
    TaskStep UserId RunId AccountId AddressId → TaskSystem UserId RunId AccountId AddressId → Prop
  | triggered {step : TaskStep UserId RunId AccountId AddressId}
      {request : TriggerRequest UserId RunId AccountId AddressId} {now : ℕ}
      {tick : TickPhase UserId RunId AccountId AddressId}
      (asked : step = .enqueue request now ∨ request ∈ system.tick.requests)
      (rest : ∀ found ∈ tick.requests, found ∈ system.tick.requests) :
      Taken system step { system.trigger request now with tick }
  | refreshed {step : TaskStep UserId RunId AccountId AddressId}
      {manager : TaskManager UserId RunId AccountId AddressId}
      {tick : TickPhase UserId RunId AccountId AddressId}
      (collects : system.manager.Collects (manager, tick.requests)) :
      Taken system step { system with manager, tick }
  | finished {request : TriggerRequest UserId RunId AccountId AddressId} {outcome : JobOutcome}
      (isExecuting : request ∈ system.executing) :
      Taken system (.finish request outcome) { system with
        executing := system.executing.erase request
        reported := runJobAndReportCompletion request outcome :: system.reported }
  | completed {completion : JobCompletion UserId RunId AccountId AddressId} {now : ℕ}
      (isReported : completion ∈ system.reported) :
      Taken system (.complete completion now) {
        system.start (system.manager.handleJobCompletion system.signalled completion now).1
          (system.manager.handleJobCompletion system.signalled completion now).2 with
        reported := system.reported.erase completion
        handled := system.handled ++ [completion] }
  | shutdown : Taken system .shutdown { system with
      manager := system.manager.shutdown
      shutdownAt := system.shutdownAt.or (some system.started.length) }
  | signal : Taken system .signal { system with signalled := true }

theorem Secure.taken (secure : system.Secure) {step : TaskStep UserId RunId AccountId AddressId}
    (taken : system.run step = some after) : Taken system step after := by
  cases step with
  | enqueue request now =>
    simp only [TaskSystem.run] at taken
    split at taken
    · cases taken
      exact .triggered (.inl rfl) fun _ isFound => isFound
    · cases taken
  | tick now loadOpen loadSessions decision newRunId =>
    simp only [TaskSystem.run] at taken
    split at taken
    · obtain ⟨-, taken⟩ := Option.ite_none_left_eq_some.mp taken
      cases taken
      exact .refreshed (TaskManager.collects_syncUserTransactionJobs secure.wellFormed loadOpen
        loadSessions newRunId)
    · cases taken
  | collectDue keys decision newRunId =>
    simp only [TaskSystem.run] at taken
    split at taken
    · obtain ⟨-, taken⟩ := Option.ite_none_right_eq_some.mp taken
      obtain ⟨collected, isCollected, rfl⟩ := Option.map_eq_some_iff.mp taken
      exact .refreshed (TaskManager.collects_collectDue secure.wellFormed isCollected)
    · cases taken
  | applyNext now =>
    simp only [TaskSystem.run] at taken
    split at taken
    · rename_i isTick
      cases taken
      exact .triggered (.inr (isTick ▸ List.mem_cons_self))
        fun found isFound => isTick ▸ List.mem_cons_of_mem _ isFound
    · rename_i isTick
      cases taken
      exact .triggered (.inr (isTick ▸ List.mem_cons_self))
        fun found isFound => isTick ▸ List.mem_cons_of_mem _ isFound
    · cases taken
      exact .refreshed ⟨secure.wellFormed.refreshes, fun _ member => absurd member List.not_mem_nil⟩
    · cases taken
  | finish request outcome =>
    obtain ⟨isExecuting, rfl⟩ := Option.ite_some_none_eq_some.mp taken
    exact .finished isExecuting
  | complete completion now =>
    obtain ⟨⟨-, isReported⟩, rfl⟩ := Option.ite_some_none_eq_some.mp taken
    exact .completed isReported
  | shutdown =>
    simp only [TaskSystem.run] at taken
    split at taken
    · cases taken
      exact .shutdown
    · cases taken
  | signal =>
    cases taken
    exact .signal

/-- Triggers, ticks, outcomes and completions keep the invariant. -/
theorem Secure.run (secure : system.Secure) {step : TaskStep UserId RunId AccountId AddressId}
    (taken : system.run step = some after) : after.Secure := by
  cases secure.taken taken with
  | @triggered _ request now _ _ rest =>
    have triggered := secure.trigger request now
    exact triggered.refresh triggered.wellFormed.refreshes fun found isFound =>
      secure.tick found (rest found isFound)
  | refreshed collects => exact secure.refresh collects.1 collects.2
  | @finished _ outcome isExecuting => exact secure.finish isExecuting outcome
  | @completed completion now isReported =>
    have isSome := TaskManager.isSome_job (.inl (secure.running_of_reported isReported))
    obtain ⟨manager, run, isHandled, isRun, flight, shuttingDown, wellFormed⟩ :=
      @TaskManager.handleJobCompletion_spec _ _ _ _ _ _ now system.signalled
        secure.wellFormed completion isSome
    rw [isHandled]
    exact secure.complete isReported isRun flight shuttingDown wellFormed
  | shutdown => exact secure.shutdown
  | signal => exact secure.signal

/-! ## Safety -/

/-- Jobs that run or have a pending run stay in the table. -/
def KeepsBusy (before after : TaskSystem UserId RunId AccountId AddressId) : Prop :=
  ∀ key, ∀ state ∈ before.manager.job key, (state.running = true ∨ state.pending.isSome) →
    (after.manager.job key).isSome

/-- What holds at every moment: single flight, answers that are kept, rejections without an
effect, and no start after the shutdown. -/
structure Safe (system : TaskSystem UserId RunId AccountId AddressId) : Prop where
  single : ∀ key, system.inProgress.countP (·.key = key) ≤ 1
  inTable : ∀ request ∈ system.inProgress, ∃ state ∈ system.manager.job request.key,
    state.running = true
  pending : ∀ key, ∀ state ∈ system.manager.job key, ∀ pending ∈ state.pending,
    state.running = true ∧ pending.key = key
  answered : ∀ answer ∈ system.answers, answer.result.isAccepted = true → answer.Kept system
  rejected : ∀ answer ∈ system.answers, answer.result.isAccepted = false →
    answer.after = answer.before
  stopped : ∀ count ∈ system.shutdownAt, system.started.length = count

/-- No trigger from outside has the parameters of another job and registers the job of its key. -/
def RegistersNothing (step : TaskStep UserId RunId AccountId AddressId)
    (system : TaskSystem UserId RunId AccountId AddressId) : Prop :=
  ∀ request now, step = .enqueue request now →
    system.manager.registers system.signalled request = false

/-! ## Steps of the table -/

omit [DecidableEq RunId] [DecidableEq AccountId] [DecidableEq AddressId] in
theorem keepsBusy_of_flight
    (busy : ∀ key, (system.manager.flight key).running = true ∨
      (system.manager.flight key).pending.isSome → (after.manager.flight key).running = true ∨
        (after.manager.flight key).pending.isSome) : system.KeepsBusy after := by
  intro key state isState isBusy
  apply TaskManager.isSome_job
  apply busy key
  rw [TaskManager.flight_of_job isState]
  exact isBusy

omit [DecidableEq RunId] [DecidableEq AccountId] [DecidableEq AddressId] in
theorem keepsBusy_of_refreshes (refreshes : system.manager.Refreshes after.manager) :
    system.KeepsBusy after := by
  refine keepsBusy_of_flight fun key isBusy => ?_
  rw [refreshes.flight]
  exact isBusy

omit [DecidableEq RunId] [DecidableEq AccountId] [DecidableEq AddressId] in
theorem Secure.keepsBusy_trigger (secure : system.Secure)
    (request : TriggerRequest UserId RunId AccountId AddressId) (now : ℕ)
    (isTrigger : after.manager = (system.trigger request now).manager) :
    system.KeepsBusy after := by
  have triggered := @TaskManager.triggered_applyTrigger _ _ _ _ _ _ now system.signalled request
    secure.wellFormed
  have isManager : after.manager =
      (system.manager.applyTrigger system.signalled request now).2.1 := isTrigger
  generalize system.manager.applyTrigger system.signalled request now =
    applied at triggered isManager
  refine keepsBusy_of_flight fun key isBusy => ?_
  rw [isManager]
  cases triggered with
  | shuttingDown isShuttingDown => exact isBusy
  | invalid refreshes =>
    dsimp only
    rw [refreshes.flight]
    exact isBusy
  | started accepting isMatch idle flight =>
    dsimp only
    rw [flight]
    by_cases same : key = request.key
    · subst same
      rw [Function.update_self]
      exact .inl rfl
    · rw [Function.update_of_ne same]
      exact isBusy
  | queued isMatch running isPending flight =>
    dsimp only
    rw [flight]
    by_cases same : key = request.key
    · subst same
      rw [Function.update_self]
      exact .inl rfl
    · rw [Function.update_of_ne same]
      exact isBusy

omit [DecidableEq RunId] [DecidableEq AccountId] [DecidableEq AddressId] in
theorem isSome_job_handleJobCompletion {manager : TaskManager UserId RunId AccountId AddressId}
    {signalled : Bool} {completion : JobCompletion UserId RunId AccountId AddressId} {now : ℕ}
    {key : JobKey UserId} (isSome : (manager.job key).isSome) :
    ((manager.handleJobCompletion signalled completion now).1.job key).isSome := by
  unfold TaskManager.handleJobCompletion
  split
  · exact isSome
  · dsimp only
    rw [TaskManager.job_modify]
    split
    · rw [Option.isSome_map]
      exact isSome
    · exact isSome

theorem Secure.keepsBusy (secure : system.Secure)
    {step : TaskStep UserId RunId AccountId AddressId} (taken : system.run step = some after) :
    system.KeepsBusy after := by
  cases secure.taken taken with
  | triggered => exact secure.keepsBusy_trigger _ _ rfl
  | refreshed collects => exact keepsBusy_of_refreshes collects.1
  | finished | signal => exact keepsBusy_of_flight fun _ isBusy => isBusy
  | completed =>
    intro key state isState _
    exact isSome_job_handleJobCompletion (isState ▸ rfl)
  | shutdown =>
    intro key state isState _
    dsimp only
    rw [TaskManager.job_shutdown, isState]
    rfl

/-! ## Rejections -/

/-- Rejected triggers left the table as it was. -/
def Rejects (system : TaskSystem UserId RunId AccountId AddressId) : Prop :=
  ∀ answer ∈ system.answers, answer.result.isAccepted = false → answer.after = answer.before

omit [DecidableEq RunId] [DecidableEq AccountId] [DecidableEq AddressId] in
theorem Rejects.trigger (rejects : system.Rejects) (now : ℕ)
    (registers : system.manager.registers system.signalled request = false) :
    (system.trigger request now).Rejects := by
  intro answer member isRejected
  rcases List.mem_append.mp member with earlier | isLast
  · exact rejects answer earlier isRejected
  · rw [List.mem_singleton.mp isLast] at isRejected ⊢
    exact (TaskManager.jobs_applyTrigger_of_rejected isRejected).mpr registers

omit [DecidableEq RunId] [DecidableEq AccountId] [DecidableEq AddressId] in
theorem registers_of_matchesJob {manager : TaskManager UserId RunId AccountId AddressId}
    {signalled : Bool} (isMatch : request.params.matchesJob request.key.jobId = true) :
    manager.registers signalled request = false := by
  rw [TaskManager.registers, isMatch, Bool.not_true, Bool.and_false]

theorem Secure.rejects (secure : system.Secure) (rejects : system.Rejects)
    {step : TaskStep UserId RunId AccountId AddressId} (nothing : RegistersNothing step system)
    (taken : system.run step = some after) : after.Rejects := by
  cases secure.taken taken with
  | @triggered _ request now _ asked =>
    refine rejects.trigger now (asked.elim (fun isStep => nothing request now isStep) ?_)
    exact fun member => registers_of_matchesJob (secure.tick request member)
  | _ => exact rejects

/-! ## Safety of runs -/

omit [DecidableEq RunId] [DecidableEq AccountId] [DecidableEq AddressId] in
theorem Secure.safe (secure : system.Secure) (rejects : system.Rejects) : system.Safe := by
  refine ⟨?_, ?_, ?_, secure.answered, rejects, fun count isCount =>
    (secure.stopped count isCount).2⟩
  · intro key
    rw [secure.counted]
    exact Bool.toNat_le _
  · intro request member
    have isRunning := secure.running_of_inProgress member
    obtain ⟨state, isState⟩ :=
      Option.isSome_iff_exists.mp (TaskManager.isSome_job (.inl isRunning))
    rw [TaskManager.flight_of_job isState] at isRunning
    exact ⟨state, isState, isRunning⟩
  · intro key state isState pending isPending
    have isFlight := TaskManager.flight_of_job isState
    obtain ⟨isRunning, ofKey, -, -⟩ :=
      secure.pending key pending (by rw [isFlight]; exact isPending)
    rw [isFlight] at isRunning
    exact ⟨isRunning, ofKey⟩

/-- Whatever triggers, ticks, completions and shutdowns come in whatever order. -/
theorem task_manager_safe {hosted : Bool} {start : ℕ}
    (reached : Reached (fun step before after => TaskSystem.run before step = some after)
      RegistersNothing (new hosted start) system) :
    system.Safe ∧ ∀ step after, system.run step = some after → system.KeepsBusy after := by
  have invariant : system.Secure ∧ system.Rejects := by
    refine @Reached.invariant _ _ _ _ _ _ reached (fun system => system.Secure ∧ system.Rejects)
      ⟨secure_new hosted start, fun _ member => absurd member List.not_mem_nil⟩ ?_
    intro step before after holds nothing taken
    exact ⟨holds.1.run taken, holds.1.rejects holds.2 nothing taken⟩
  exact ⟨invariant.1.safe invariant.2, fun _ _ taken => invariant.1.keepsBusy taken⟩

/-- Whatever triggers come, also with the parameters of another job, no two runs of a job are in
progress at once, and no tick asks for the parameters of a job that is not scheduled. -/
theorem single_and_ticks_of_reached {hosted : Bool} {start : ℕ}
    {meets : TaskStep UserId RunId AccountId AddressId →
      TaskSystem UserId RunId AccountId AddressId → Prop}
    (reached : Reached (fun step before after => TaskSystem.run before step = some after) meets
      (new hosted start) system) :
    (∀ key, system.inProgress.countP (·.key = key) ≤ 1) ∧
      ∀ now (keys : List (JobKey UserId)) decision newRunId,
        keys.Perm (system.manager.dueKeys now) →
          (system.manager.collectDue now keys decision newRunId).isSome := by
  have secure : system.Secure := by
    apply @Reached.invariant _ _ _ _ _ _ reached Secure (secure_new hosted start)
    intro step before after secure _ taken
    exact secure.run taken
  refine ⟨?_, ?_⟩
  · intro key
    rw [secure.counted]
    exact Bool.toNat_le _
  · intro now keys decision newRunId due
    exact TaskManager.isSome_collectDue secure.wellFormed (fun _ member => due.mem_iff.mp member)
      newRunId

end TaskSystem

end Promises

/-! ## Runs -/

/-- A monitor of a user is triggered twice while it runs, and shut down after its second run. -/
def monitoredUser : List (TaskStep ℕ ℕ ℕ ℕ) :=
  let request (runId : ℕ) (scope : TransactionSyncScope ℕ ℕ) : TriggerRequest ℕ ℕ ℕ ℕ :=
    ⟨.user .userTransactionMonitor 1, .manualInternal, .userTransactionMonitor runId scope⟩
  [.enqueue (request 10 (.account 5)) 3, .enqueue (request 11 (.account 5)) 4,
    .enqueue (request 12 (.address 6)) 5, .finish (request 10 (.account 5)) (.panicked "lost"),
    .complete ⟨request 10 (.account 5), .error "Job join failure: lost"⟩ 6, .signal, .shutdown]

/-- The later triggers are both answered with the run that starts for all of the user. -/
theorem task_manager_safe_monitoredUser :
    ∃ system : TaskSystem ℕ ℕ ℕ ℕ, system.Safe ∧
      system.answers.map (·.result) =
        [.acceptedStarted (some 10), .acceptedQueued (some 11), .acceptedQueued (some 11)] ∧
      system.started.map (·.params) =
        [.userTransactionMonitor 10 (.account 5), .userTransactionMonitor 11 .user] := by
  have nothing : ∀ step ∈ monitoredUser, ∀ system, TaskSystem.RegistersNothing step system := by
    intro step member system request now isTrigger
    apply TaskSystem.registers_of_matchesJob
    simp only [monitoredUser, List.mem_cons, List.not_mem_nil, or_false] at member
    rcases member with rfl | rfl | rfl | rfl | rfl | rfl | rfl
    all_goals
      cases isTrigger
      try rfl
  refine ⟨_, (@TaskSystem.task_manager_safe _ _ _ _ _ _ _ _ _ false 0
    (Reached.foldlM monitoredUser .start nothing rfl)).1, rfl, rfl⟩

/-- A trigger with the parameters of another job is rejected, and its job stays registered. -/
theorem not_safe_mismatched :
    ∃ system : TaskSystem ℕ ℕ ℕ ℕ,
      Reached (fun step before after => TaskSystem.run before step = some after)
        (fun _ _ => True) (TaskSystem.new false 0) system ∧ ¬ system.Safe := by
  refine ⟨_, @Reached.step _ _ _ _ _ _ _ (.enqueue
    ⟨.user .userTransactionMonitor 1, .manualInternal, .sessionCleanup⟩ 3) .start trivial rfl, ?_⟩
  intro safe
  have unchanged := safe.rejected _ List.mem_cons_self rfl
  exact absurd (congrArg List.length unchanged) (by decide)

theorem single_and_ticks_of_reached_mismatched :
    ∃ system : TaskSystem ℕ ℕ ℕ ℕ,
      (system.manager.collectDue 1000 (system.manager.dueKeys 1000) (fun _ => .skip)
        fun _ => 0).isSome := by
  refine ⟨_, (TaskSystem.single_and_ticks_of_reached (Reached.foldlM [.enqueue
    ⟨.user .userTransactionMonitor 1, .manualInternal, .sessionCleanup⟩ 3]
    (@Reached.start _ _ _ (fun _ _ => True) (TaskSystem.new false 0)) (fun _ _ _ => trivial)
    rfl)).2 1000 _ _ _ (.refl _)⟩

end Bitgarth.Tasks
