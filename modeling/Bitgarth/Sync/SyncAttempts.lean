import Mathlib.Data.List.Induction
import Bitgarth.Amounts
import Bitgarth.Foundation.Reachability
import Bitgarth.Sync.Gate

/-! # The persisted sync state of an address over its attempts

Each attempt writes the row of its address when it starts, may write an observation, and writes
its end. `keepsLastSuccess_iff` says for which runs of attempts, stopped anywhere, the row keeps
the tip of the latest successful observation: starting an attempt clears it.
-/

namespace Bitgarth.Sync

open Amounts Fallible

/-- A row of `transaction_sync_state`; instants are nanoseconds since the Unix epoch. -/
structure TransactionSyncStateRow where
  lastRunId : String
  lastStartedAt : ℤ
  lastCompletedAt : Option ℤ
  lastResult : TransactionSyncResult
  lastError : Option String
  lastTipHeight : Option ℕ
  newTxCount : ℕ
  updatedTxCount : ℕ
  reportedTxCount : Option ℕ
  apiConfirmedBalance : Option AmountSplitParts
  apiConfirmedBalanceObservedAt : Option ℤ
  consecutiveFailureCount : ℕ
  createdAt : ℤ
  updatedAt : ℤ
deriving DecidableEq, Repr

structure MempoolAddressObservationSuccess where
  confirmedTxCount : ℕ
  confirmedBalance : Option UnsignedAmount
  tipHeight : ℕ
  observedAt : ℤ
deriving DecidableEq, Repr

structure AddressSyncSuccess where
  runId : String
  startedAt : ℤ
  completedAt : ℤ
  lastTipHeight : ℕ
  newTxCount : ℕ
  updatedTxCount : ℕ
  apiConfirmedBalance : Option UnsignedAmount
deriving DecidableEq, Repr

/-- What is inserted for an address without a row. -/
structure AddressSyncCompletion where
  runId : String
  startedAt : ℤ
  completedAt : ℤ
  result : TransactionSyncResult
  lastError : Option String
  lastTipHeight : Option ℕ
  newTxCount : ℕ
  updatedTxCount : ℕ
  apiConfirmedBalance : Option UnsignedAmount
deriving DecidableEq, Repr

def AddressSyncCompletion.fromSuccess (success : AddressSyncSuccess) : AddressSyncCompletion where
  runId := success.runId
  startedAt := success.startedAt
  completedAt := success.completedAt
  result := .success
  lastError := none
  lastTipHeight := some success.lastTipHeight
  newTxCount := success.newTxCount
  updatedTxCount := success.updatedTxCount
  apiConfirmedBalance := success.apiConfirmedBalance

def AddressSyncCompletion.fromFailure (runId : String) (startedAt completedAt : ℤ)
    (error : String) : AddressSyncCompletion where
  runId := runId
  startedAt := startedAt
  completedAt := completedAt
  result := .failure
  lastError := some error
  lastTipHeight := none
  newTxCount := 0
  updatedTxCount := 0
  apiConfirmedBalance := none

/-! ## Writes of the row -/

/-- `split_api_confirmed_balance` of a balance, if there is one. -/
def splitApiConfirmedBalance (balance : Option UnsignedAmount) :
    Except DbError (Option AmountSplitParts) :=
  balance.mapM fun amount => splitUnsignedAmount amount "api_confirmed_balance"

/-- `mark_address_sync_started`: an upsert. -/
def markAddressSyncStarted (runId : String) (startedAt : ℤ) :
    Option TransactionSyncStateRow → TransactionSyncStateRow
  | none => {
      lastRunId := runId
      lastStartedAt := startedAt
      lastCompletedAt := none
      lastResult := .success
      lastError := none
      lastTipHeight := none
      newTxCount := 0
      updatedTxCount := 0
      reportedTxCount := none
      apiConfirmedBalance := none
      apiConfirmedBalanceObservedAt := none
      consecutiveFailureCount := 0
      createdAt := startedAt
      updatedAt := startedAt }
  | some row => { row with
      lastRunId := runId
      lastStartedAt := startedAt
      lastCompletedAt := none
      lastError := none
      lastTipHeight := none
      newTxCount := 0
      updatedTxCount := 0
      updatedAt := startedAt }

def persistMempoolAddressObservationSuccess (observation : MempoolAddressObservationSuccess)
    (row : Option TransactionSyncStateRow) : Except DbError TransactionSyncStateRow := do
  let balance ← splitApiConfirmedBalance observation.confirmedBalance
  match row with
  | none => .error ⟨"Failed to persist successful mempool address observation: " ++
      "sync state row missing"⟩
  | some row => return { row with
      lastCompletedAt := some observation.observedAt
      lastResult := .success
      lastError := none
      lastTipHeight := some observation.tipHeight
      reportedTxCount := some observation.confirmedTxCount
      apiConfirmedBalance := balance
      apiConfirmedBalanceObservedAt := balance.map fun _ => observation.observedAt
      consecutiveFailureCount := 0
      updatedAt := observation.observedAt }

def insertAddressSyncCompletion (completion : AddressSyncCompletion) :
    Except DbError TransactionSyncStateRow := do
  let balance ← splitApiConfirmedBalance completion.apiConfirmedBalance
  return {
    lastRunId := completion.runId
    lastStartedAt := completion.startedAt
    lastCompletedAt := some completion.completedAt
    lastResult := completion.result
    lastError := completion.lastError
    lastTipHeight := completion.lastTipHeight
    newTxCount := completion.newTxCount
    updatedTxCount := completion.updatedTxCount
    reportedTxCount := none
    apiConfirmedBalance := balance
    apiConfirmedBalanceObservedAt := balance.map fun _ => completion.completedAt
    consecutiveFailureCount := 0
    createdAt := completion.startedAt
    updatedAt := completion.completedAt }

def markAddressSyncCompletedSuccess (success : AddressSyncSuccess)
    (row : Option TransactionSyncStateRow) : Except DbError TransactionSyncStateRow := do
  let balance ← splitApiConfirmedBalance success.apiConfirmedBalance
  match row with
  | none => insertAddressSyncCompletion (.fromSuccess success)
  | some row => return { row with
      lastRunId := success.runId
      lastStartedAt := success.startedAt
      lastCompletedAt := some success.completedAt
      lastResult := .success
      lastError := none
      lastTipHeight := some success.lastTipHeight
      newTxCount := success.newTxCount
      updatedTxCount := success.updatedTxCount
      apiConfirmedBalance := balance.or row.apiConfirmedBalance
      apiConfirmedBalanceObservedAt :=
        if balance.isSome then some success.completedAt else row.apiConfirmedBalanceObservedAt
      consecutiveFailureCount := 0
      updatedAt := success.completedAt }

def markAddressSyncCompletedFailure (runId : String) (startedAt failedAt : ℤ) (error : String)
    (countAsAddressFailure : Bool) (row : Option TransactionSyncStateRow) :
    Except DbError TransactionSyncStateRow :=
  match row with
  | none => do
      let inserted ← insertAddressSyncCompletion (.fromFailure runId startedAt failedAt error)
      return { inserted with consecutiveFailureCount := if countAsAddressFailure then 1 else 0 }
  | some row => .ok { row with
      lastRunId := runId
      lastStartedAt := startedAt
      lastCompletedAt := some failedAt
      lastResult := .failure
      lastError := some error
      newTxCount := 0
      updatedTxCount := 0
      consecutiveFailureCount :=
        if countAsAddressFailure then row.consecutiveFailureCount + 1
        else row.consecutiveFailureCount
      updatedAt := failedAt }

/-! ## What each write does to the tip -/

section Tips

variable {row : Option TransactionSyncStateRow} {written : TransactionSyncStateRow}

@[simp]
theorem lastTipHeight_markAddressSyncStarted (runId : String) (startedAt : ℤ) :
    (markAddressSyncStarted runId startedAt row).lastTipHeight = none := by
  cases row <;> rfl

theorem lastTipHeight_persistMempoolAddressObservationSuccess
    {observation : MempoolAddressObservationSuccess}
    (done : persistMempoolAddressObservationSuccess observation row = .ok written) :
    written.lastTipHeight = some observation.tipHeight := by
  obtain ⟨balance, _, done⟩ := bind_eq_ok.mp done
  cases row with
  | none => cases done
  | some row => rw [← pure_eq_ok.mp done]

theorem lastTipHeight_insertAddressSyncCompletion {completion : AddressSyncCompletion}
    (done : insertAddressSyncCompletion completion = .ok written) :
    written.lastTipHeight = completion.lastTipHeight := by
  obtain ⟨balance, _, done⟩ := bind_eq_ok.mp done
  rw [← pure_eq_ok.mp done]

theorem lastTipHeight_markAddressSyncCompletedSuccess {success : AddressSyncSuccess}
    (done : markAddressSyncCompletedSuccess success row = .ok written) :
    written.lastTipHeight = some success.lastTipHeight := by
  obtain ⟨balance, _, done⟩ := bind_eq_ok.mp done
  cases row with
  | none => exact lastTipHeight_insertAddressSyncCompletion done
  | some row => rw [← pure_eq_ok.mp done]

theorem lastTipHeight_markAddressSyncCompletedFailure {runId error : String}
    {startedAt failedAt : ℤ} {countAsAddressFailure : Bool}
    (done : markAddressSyncCompletedFailure runId startedAt failedAt error countAsAddressFailure
      row = .ok written) :
    written.lastTipHeight = row.bind TransactionSyncStateRow.lastTipHeight := by
  cases row with
  | none =>
    obtain ⟨inserted, isInserted, done⟩ := bind_eq_ok.mp done
    rw [← pure_eq_ok.mp done]
    exact lastTipHeight_insertAddressSyncCompletion isInserted
  | some row => rw [← Except.ok.inj done, Option.bind_some]

end Tips

/-! ## Attempts -/

/-- `is_first_sync`. -/
def isFirstSync : Option ℕ → Bool
  | none => true
  | some height => height = 0

/-- What the gate keeps of an address in memory. -/
structure LoadedAddress where
  lastCompletedAt : Option ℤ
  lastResult : Option TransactionSyncResult
  lastTipHeight : Option ℕ
deriving DecidableEq, Repr

/-- Load an address with its row, if it has one. -/
def loadAddress (row : Option TransactionSyncStateRow) : LoadedAddress where
  lastCompletedAt := row.bind TransactionSyncStateRow.lastCompletedAt
  lastResult := row.map TransactionSyncStateRow.lastResult
  lastTipHeight := row.bind TransactionSyncStateRow.lastTipHeight

/-- How far the gate is with an attempt. -/
inductive AttemptPhase where
  | idle
  | iterating (runId : String) (startedAt : ℤ)
  | succeeded (success : AddressSyncSuccess)
  | failed (runId : String) (startedAt : ℤ)
  | failureHandled
deriving DecidableEq, Repr

/-- The row, the copy in memory and, for the statements only, the tip last observed. -/
structure AttemptState where
  row : Option TransactionSyncStateRow
  address : LoadedAddress
  phase : AttemptPhase
  observedTip : Option ℕ
deriving DecidableEq, Repr

/-- An address never synced. -/
def AttemptState.initial : AttemptState where
  row := none
  address := loadAddress none
  phase := .idle
  observedTip := none

/-- What the gate does next; a reload comes after any stop of the process, and between cycles. -/
inductive AttemptStep where
  | start (runId : String) (startedAt : ℤ)
  | observe (observation : MempoolAddressObservationSuccess)
  | succeed (summary : SyncIterationResult) (apiConfirmedBalance : Option UnsignedAmount)
  | fail
  | completeSuccess
  | completeSuccessError
  | completeFailure (failedAt : ℤ) (error : String) (countAsAddressFailure persisted : Bool)
  | reload
deriving DecidableEq, Repr

/-- A step, where the gate makes it and the database takes it. -/
def attemptStep : AttemptStep → AttemptState → Option AttemptState
  | .start runId startedAt, state =>
    match state.phase with
    | .idle | .failureHandled => some { state with
        row := some (markAddressSyncStarted runId startedAt state.row)
        phase := .iterating runId startedAt }
    | _ => none
  | .observe observation, state =>
    match state.phase with
    | .iterating _ _ =>
      (persistMempoolAddressObservationSuccess observation state.row).toOption.map fun row =>
        { state with row := some row, observedTip := some observation.tipHeight }
    | _ => none
  | .succeed summary apiConfirmedBalance, state =>
    match state.phase with
    | .iterating runId startedAt => some { state with
        phase := .succeeded {
          runId, startedAt
          completedAt := summary.completedAt
          lastTipHeight := summary.tipHeight
          newTxCount := summary.newTxCount
          updatedTxCount := summary.updatedTxCount
          apiConfirmedBalance } }
    | _ => none
  | .fail, state =>
    match state.phase with
    | .iterating runId startedAt => some { state with phase := .failed runId startedAt }
    | _ => none
  | .completeSuccess, state =>
    match state.phase with
    | .succeeded success =>
      (markAddressSyncCompletedSuccess success state.row).toOption.map fun row =>
        { row := some row
          address := {
            lastCompletedAt := some success.completedAt
            lastResult := some .success
            lastTipHeight := some success.lastTipHeight }
          phase := .idle
          observedTip := some success.lastTipHeight }
    | _ => none
  | .completeSuccessError, state =>
    match state.phase with
    | .succeeded success => some { state with phase := .failed success.runId success.startedAt }
    | _ => none
  | .completeFailure failedAt error countAsAddressFailure persisted, state =>
    match state.phase with
    | .failed runId startedAt =>
      let written := markAddressSyncCompletedFailure runId startedAt failedAt error
        countAsAddressFailure state.row
      some { state with
        -- an error of the write is logged only
        row := match persisted, written with
          | true, .ok row => some row
          | _, _ => state.row
        address := { state.address with
          lastCompletedAt := some failedAt
          lastResult := some .failure }
        phase := .failureHandled }
    | _ => none
  | .reload, state => some { state with address := loadAddress state.row, phase := .idle }

/-- The row has the tip of the latest successful observation, so a reload takes no synced address
for a new one; after a handled failure the copy in memory has that tip too. -/
structure KeepsLastSuccess (state : AttemptState) : Prop where
  persisted : (loadAddress state.row).lastTipHeight = state.observedTip
  notFirst : ∀ tip, state.observedTip = some tip → 0 < tip →
    isFirstSync (loadAddress state.row).lastTipHeight = false
  agrees : state.phase = .failureHandled →
    state.address.lastTipHeight = (loadAddress state.row).lastTipHeight

/-- Neither the start of an attempt nor the handling of its failure follows an observation. -/
def AttemptStep.BeforeObservation (step : AttemptStep) (state : AttemptState) : Prop :=
  match step with
  | .start _ _ | .completeFailure _ _ _ _ => state.observedTip = none
  | _ => True

/-- The steps of an attempt as a relation. -/
def AttemptStep.Next (step : AttemptStep) (state after : AttemptState) : Prop :=
  attemptStep step state = some after

/-- An attempt is under way. -/
def AttemptPhase.Running : AttemptPhase → Prop
  | .idle | .failureHandled => False
  | .iterating _ _ | .succeeded _ | .failed _ _ => True

theorem AttemptPhase.Running.ne_failureHandled {phase : AttemptPhase} (running : phase.Running) :
    phase ≠ .failureHandled := by
  rintro rfl
  exact running.elim

/-- What holds while attempts start and fail before the first observation only. -/
structure AttemptInvariant (state : AttemptState) : Prop where
  persisted : (loadAddress state.row).lastTipHeight = state.observedTip
  unobserved : state.observedTip = none → state.address.lastTipHeight = none
  running : state.phase.Running → state.row.isSome ∧ state.address.lastTipHeight = none
  handled : state.phase = .failureHandled → state.observedTip = none

theorem AttemptInvariant.keepsLastSuccess {state : AttemptState}
    (invariant : AttemptInvariant state) : KeepsLastSuccess state := by
  refine ⟨invariant.persisted, ?_, ?_⟩
  · intro tip observed positive
    rw [invariant.persisted, observed]
    simpa [isFirstSync] using positive.ne'
  · intro handled
    have none := invariant.handled handled
    rw [invariant.persisted, invariant.unobserved none, none]

/-- What a step does to the tips. -/
inductive TipEffect (state : AttemptState) : AttemptStep → AttemptState → Prop where
  | started (runId : String) (startedAt : ℤ) :
      TipEffect state (.start runId startedAt) { state with
        row := some (markAddressSyncStarted runId startedAt state.row)
        phase := .iterating runId startedAt }
  | observed (observation : MempoolAddressObservationSuccess) (row : TransactionSyncStateRow)
      (running : state.phase.Running) (tip : row.lastTipHeight = some observation.tipHeight) :
      TipEffect state (.observe observation) { state with
        row := some row
        observedTip := some observation.tipHeight }
  | moved {step : AttemptStep} (phase : AttemptPhase) (running : state.phase.Running)
      (stillRunning : phase.Running) (allowed : step.BeforeObservation state) :
      TipEffect state step { state with phase }
  | completed (success : AddressSyncSuccess) (row : TransactionSyncStateRow)
      (address : LoadedAddress) (tip : row.lastTipHeight = some success.lastTipHeight) :
      TipEffect state .completeSuccess ⟨some row, address, .idle, some success.lastTipHeight⟩
  | handled (failedAt : ℤ) (error : String) (countAsAddressFailure persisted : Bool)
      (row : Option TransactionSyncStateRow) (running : state.phase.Running)
      (tip : (loadAddress row).lastTipHeight = (loadAddress state.row).lastTipHeight) :
      TipEffect state (.completeFailure failedAt error countAsAddressFailure persisted)
        { state with
          row
          address := { state.address with
            lastCompletedAt := some failedAt
            lastResult := some .failure }
          phase := .failureHandled }
  | reloaded :
      TipEffect state .reload { state with address := loadAddress state.row, phase := .idle }

theorem tipEffect_of_next {step : AttemptStep} {state after : AttemptState}
    (taken : step.Next state after) : TipEffect state step after := by
  unfold AttemptStep.Next at taken
  cases step with
  | start runId startedAt =>
    dsimp only [attemptStep] at taken
    split at taken
    · exact Option.some.inj taken ▸ .started runId startedAt
    · exact Option.some.inj taken ▸ .started runId startedAt
    · cases taken
  | observe observation =>
    dsimp only [attemptStep] at taken
    split at taken <;> rename_i phase
    · obtain ⟨row, written, rfl⟩ := Option.map_eq_some_iff.mp taken
      exact .observed observation row (by rw [phase]; trivial)
        (lastTipHeight_persistMempoolAddressObservationSuccess (toOption_eq_some.mp written))
    · cases taken
  | succeed summary apiConfirmedBalance =>
    dsimp only [attemptStep] at taken
    split at taken <;> rename_i phase
    · exact Option.some.inj taken ▸ .moved _ (by rw [phase]; trivial) trivial trivial
    · cases taken
  | fail =>
    dsimp only [attemptStep] at taken
    split at taken <;> rename_i phase
    · exact Option.some.inj taken ▸ .moved _ (by rw [phase]; trivial) trivial trivial
    · cases taken
  | completeSuccess =>
    dsimp only [attemptStep] at taken
    split at taken
    · obtain ⟨row, written, rfl⟩ := Option.map_eq_some_iff.mp taken
      exact .completed _ row _
        (lastTipHeight_markAddressSyncCompletedSuccess (toOption_eq_some.mp written))
    · cases taken
  | completeSuccessError =>
    dsimp only [attemptStep] at taken
    split at taken <;> rename_i phase
    · exact Option.some.inj taken ▸ .moved _ (by rw [phase]; trivial) trivial trivial
    · cases taken
  | completeFailure failedAt error countAsAddressFailure persisted =>
    dsimp only [attemptStep] at taken
    split at taken <;> rename_i phase
    · refine Option.some.inj taken ▸ .handled failedAt error countAsAddressFailure persisted _
        (by rw [phase]; trivial) ?_
      split <;> rename_i written
      · exact lastTipHeight_markAddressSyncCompletedFailure written
      · rfl
    · cases taken
  | reload => exact Option.some.inj taken ▸ .reloaded

theorem attemptInvariant_initial : AttemptInvariant .initial := by
  refine ⟨rfl, fun _ => rfl, fun running => running.elim, fun handled => ?_⟩
  cases handled

/-- A step keeps the invariant before the first observation, and the last success only there. -/
theorem AttemptInvariant.step {step : AttemptStep} {state after : AttemptState}
    (invariant : AttemptInvariant state) (taken : step.Next state after) :
    (step.BeforeObservation state → AttemptInvariant after) ∧
      (KeepsLastSuccess after → step.BeforeObservation state) := by
  have unobserved := invariant.unobserved
  cases tipEffect_of_next taken with
  | started runId startedAt =>
    refine ⟨fun before => ?_, fun keeps => ?_⟩
    · refine ⟨?_, unobserved, fun _ => ⟨rfl, unobserved before⟩, nofun⟩
      rw [before]
      exact lastTipHeight_markAddressSyncStarted runId startedAt
    · exact keeps.persisted.symm.trans (lastTipHeight_markAddressSyncStarted runId startedAt)
  | observed observation row running tip =>
    have inMemory := (invariant.running running).2
    exact ⟨fun _ => ⟨tip, nofun, fun _ => ⟨rfl, inMemory⟩,
      fun handled => absurd handled running.ne_failureHandled⟩, fun _ => trivial⟩
  | moved phase running stillRunning allowed =>
    exact ⟨fun _ => ⟨invariant.persisted, unobserved, fun _ => invariant.running running,
      fun handled => absurd handled stillRunning.ne_failureHandled⟩, fun _ => allowed⟩
  | completed success row address tip =>
    exact ⟨fun _ => ⟨tip, nofun, fun running => running.elim, nofun⟩, fun _ => trivial⟩
  | handled failedAt error countAsAddressFailure persisted row running tip =>
    have inMemory := (invariant.running running).2
    refine ⟨fun before => ?_, fun keeps => ?_⟩
    · exact ⟨tip.trans invariant.persisted, unobserved, fun running => running.elim,
        fun _ => before⟩
    · have agrees := keeps.agrees rfl
      have persisted := keeps.persisted
      exact persisted.symm.trans (agrees.symm.trans inMemory)
  | reloaded =>
    refine ⟨fun _ => ⟨invariant.persisted, fun none => ?_, fun running => running.elim, nofun⟩,
      fun _ => trivial⟩
    exact invariant.persisted.trans none

/-- The row keeps the last success in every state of a run exactly while no attempt starts after
an observation, and no failure is handled after one. -/
theorem keepsLastSuccess_iff {state : AttemptState}
    (reached : Reachability.Reached AttemptStep.Next AttemptStep.BeforeObservation .initial state) :
    KeepsLastSuccess state ∧ ∀ step after, AttemptStep.Next step state after →
      (KeepsLastSuccess after ↔ step.BeforeObservation state) := by
  have invariant : AttemptInvariant state :=
    reached.invariant attemptInvariant_initial fun step state after invariant before taken =>
      (invariant.step taken).1 before
  refine ⟨invariant.keepsLastSuccess, fun step after taken => ⟨(invariant.step taken).2, ?_⟩⟩
  exact fun before => ((invariant.step taken).1 before).keepsLastSuccess

/-! ## A second attempt that fails -/

/-- A run of steps. -/
def attemptSteps (steps : List AttemptStep) : Option AttemptState :=
  steps.foldlM (fun state step => attemptStep step state) .initial

theorem reached_of_attemptSteps {steps : List AttemptStep} {final : AttemptState}
    (done : attemptSteps steps = some final) :
    Reachability.Reached AttemptStep.Next (fun _ _ => True) .initial final := by
  unfold attemptSteps at done
  induction steps using List.reverseRecOn generalizing final with
  | nil => exact Option.some.inj done ▸ .start
  | append_singleton earlier last ih =>
    rw [List.foldlM_append] at done
    obtain ⟨state, before, taken⟩ := Option.bind_eq_some_iff.mp done
    obtain ⟨after, step, isFinal⟩ := Option.bind_eq_some_iff.mp taken
    exact Option.some.inj isFinal ▸ .step (ih before) trivial step

/-- An observation of an address at height 100. -/
def observedAt100 : MempoolAddressObservationSuccess where
  confirmedTxCount := 3
  confirmedBalance := none
  tipHeight := 100
  observedAt := 1

/-- The first attempt, stopped after its observation. -/
theorem keepsLastSuccess_firstObservation :
    ∃ state, attemptSteps [.start "run-1" 0, .observe observedAt100] = some state ∧
      KeepsLastSuccess state ∧ ∀ step after, AttemptStep.Next step state after →
        (KeepsLastSuccess after ↔ step.BeforeObservation state) := by
  let startedState : AttemptState := { AttemptState.initial with
    row := some (markAddressSyncStarted "run-1" 0 none)
    phase := .iterating "run-1" 0 }
  have started : AttemptStep.Next (.start "run-1" 0) .initial startedState := rfl
  have before : AttemptStep.BeforeObservation (.start "run-1" 0) .initial := rfl
  have reached := Reachability.Reached.step .start before started
  obtain ⟨state, taken⟩ : ∃ state, attemptStep (.observe observedAt100) startedState =
      some state := ⟨_, rfl⟩
  have observing : AttemptStep.BeforeObservation (.observe observedAt100) startedState := trivial
  exact ⟨state, taken, keepsLastSuccess_iff (.step reached observing taken)⟩

/-- The iteration it belongs to. -/
def summaryAt100 : SyncIterationResult where
  observedActivity := true
  newTxCount := 3
  updatedTxCount := 0
  apiConfirmedBalance := none
  completedAt := 2
  tipHeight := 100

/-- An attempt that succeeds, and one whose iteration fails. -/
def succeedThenFail : List AttemptStep :=
  [.start "run-1" 0, .observe observedAt100, .succeed summaryAt100 none, .completeSuccess,
    .start "run-2" 3, .fail, .completeFailure 4 "connection refused" true true]

/-- The failed attempt leaves the row without a tip, and the copy in memory at height 100. -/
theorem not_keepsLastSuccess_succeedThenFail :
    ∃ state, Reachability.Reached AttemptStep.Next (fun _ _ => True) .initial state ∧
      state.observedTip = some 100 ∧ state.address.lastTipHeight = some 100 ∧
      isFirstSync (loadAddress state.row).lastTipHeight = true ∧ ¬ KeepsLastSuccess state := by
  have tips : (attemptSteps succeedThenFail).map (fun state =>
      (state.observedTip, state.address.lastTipHeight, (loadAddress state.row).lastTipHeight)) =
        some (some 100, some 100, none) := by
    decide
  obtain ⟨state, done, tips⟩ := Option.map_eq_some_iff.mp tips
  obtain ⟨observed, inMemory, reloaded⟩ : _ ∧ _ ∧ _ := by simpa using tips
  refine ⟨state, reached_of_attemptSteps done, observed, inMemory, by rw [reloaded]; rfl, ?_⟩
  intro keeps
  have same := keeps.persisted
  rw [reloaded, observed] at same
  cases same

end Bitgarth.Sync
