import Mathlib.Logic.Function.Basic
import Bitgarth.Tasks.TaskManager

/-! # Flights of jobs

The flight of a job is whether it runs and what is pending, which a job that is not in the table
has neither of. Refreshing who is eligible and what is due leaves every flight (`Refreshes`).
-/

namespace Bitgarth.Tasks

open KeyedTable
open Bitgarth.Sync (TriggerSource)

structure Flight (UserId RunId AccountId AddressId : Type) where
  running : Bool := false
  pending : Option (TriggerRequest UserId RunId AccountId AddressId) := none

variable {UserId RunId AccountId AddressId : Type} [DecidableEq UserId]

namespace TaskManager

def flight (manager : TaskManager UserId RunId AccountId AddressId) (key : JobKey UserId) :
    Flight UserId RunId AccountId AddressId :=
  (manager.job key).elim {} fun state => { running := state.running, pending := state.pending }

/-- A key has one job, and no price history job is scheduled. -/
structure WellFormed (manager : TaskManager UserId RunId AccountId AddressId) : Prop where
  keyed : Keyed Prod.fst manager.jobs
  scheduled : ∀ row ∈ manager.jobs, row.2.definition.scheduled = true →
    row.1.jobId ≠ .priceHistoryReconciliation

/-- A change of the table that leaves what runs and what is pending. -/
structure Refreshes (before after : TaskManager UserId RunId AccountId AddressId) : Prop where
  flight : ∀ key, after.flight key = before.flight key
  shuttingDown : after.shuttingDown = before.shuttingDown
  wellFormed : after.WellFormed

variable {manager after : TaskManager UserId RunId AccountId AddressId} {key other : JobKey UserId}
  {now : ℕ} {signalled : Bool} {request : TriggerRequest UserId RunId AccountId AddressId}
  {update : JobState UserId RunId AccountId AddressId →
    JobState UserId RunId AccountId AddressId}
  {decision : UserId → AutomaticSyncDecision}

theorem WellFormed.refreshes (wellFormed : manager.WellFormed) : Refreshes manager manager :=
  ⟨fun _ => rfl, rfl, wellFormed⟩

theorem Refreshes.trans {last : TaskManager UserId RunId AccountId AddressId}
    (first : Refreshes manager after) (second : Refreshes after last) : Refreshes manager last :=
  ⟨fun key => (second.flight key).trans (first.flight key),
    second.shuttingDown.trans first.shuttingDown, second.wellFormed⟩

theorem flight_of_job {state : JobState UserId RunId AccountId AddressId}
    (isJob : manager.job key = some state) :
    manager.flight key = { running := state.running, pending := state.pending } := by
  rw [flight, isJob]
  rfl

theorem flight_of_isNone (absent : manager.job key = none) : manager.flight key = {} := by
  rw [flight, absent]
  rfl

theorem isSome_job (busy : (manager.flight key).running = true ∨
    (manager.flight key).pending.isSome) : (manager.job key).isSome := by
  cases isJob : manager.job key with
  | some state => rfl
  | none =>
    rw [flight_of_isNone isJob] at busy
    rcases busy with running | pending
    · cases running
    · cases pending

/-! ## Changes of the table -/

theorem job_insert (interval : ℕ) (scheduled : Bool) :
    (manager.insert key interval scheduled now).job other =
      (manager.job other).or (if key = other then
        some { definition := { interval, scheduled }, running := false, pending := none,
               nextDueAt := now + interval } else none) := by
  unfold job insert find
  dsimp only
  rw [List.find?_append, Option.map_or]
  congr 1
  by_cases same : key = other
  · simp [same]
  · simp [same]

theorem refreshes_insert (wellFormed : manager.WellFormed) (absent : manager.job key = none)
    {interval : ℕ} {scheduled : Bool}
    (isScheduled : scheduled = true → key.jobId ≠ .priceHistoryReconciliation) :
    Refreshes manager (manager.insert key interval scheduled now) := by
  refine ⟨?_, rfl, ⟨?_, ?_⟩⟩
  · intro other
    unfold flight
    rw [job_insert]
    cases isJob : manager.job other with
    | some state => rfl
    | none =>
      rw [Option.none_or]
      split
      · rfl
      · rfl
  · unfold Keyed insert
    rw [List.map_append, List.nodup_append]
    refine ⟨wellFormed.keyed, List.nodup_singleton _, ?_⟩
    intro found isFound last isLast same
    obtain rfl := List.mem_singleton.mp isLast
    obtain ⟨row, member, isKey⟩ := List.mem_map.mp isFound
    exact find_eq_none_iff.mp (Option.map_eq_none_iff.mp absent) row member (isKey.trans same)
  · intro row member isSet
    rcases List.mem_append.mp member with isOld | isNew
    · exact wellFormed.scheduled row isOld isSet
    · rw [List.mem_singleton.mp isNew] at isSet ⊢
      exact isScheduled isSet

theorem job_modify : (manager.modify key update).job other =
    if other = key then (manager.job other).map update else manager.job other := by
  unfold job modify
  dsimp only
  rw [find_map fun row => by split <;> rfl]
  cases isFound : find Prod.fst manager.jobs other with
  | none => simp
  | some row =>
    have isKey : row.1 = other := find_eq_some_key isFound
    rw [Option.map_some, Option.map_some, isKey]
    split <;> rfl

theorem WellFormed.modify (wellFormed : manager.WellFormed)
    (keeps : ∀ state, (update state).definition = state.definition) :
    (manager.modify key update).WellFormed := by
  refine ⟨wellFormed.keyed.map fun row => by split <;> rfl, ?_⟩
  intro row member isScheduled
  obtain ⟨old, isOld, rfl⟩ := List.mem_map.mp member
  split at isScheduled
  · rename_i isKey
    rw [if_pos isKey]
    rw [keeps] at isScheduled
    exact wellFormed.scheduled old isOld isScheduled
  · rename_i other
    rw [if_neg other]
    exact wellFormed.scheduled old isOld isScheduled

theorem flight_modify {running : Bool}
    {pending : Option (TriggerRequest UserId RunId AccountId AddressId)}
    (isSome : (manager.job key).isSome)
    (sets : ∀ state, (update state).running = running ∧ (update state).pending = pending) :
    (manager.modify key update).flight = Function.update manager.flight key
      { running, pending } := by
  funext other
  by_cases same : other = key
  · subst same
    obtain ⟨state, isState⟩ := Option.isSome_iff_exists.mp isSome
    rw [Function.update_self, flight, job_modify, if_pos rfl, isState]
    obtain ⟨rfl, rfl⟩ := sets state
    rfl
  · rw [Function.update_of_ne same, flight, job_modify, if_neg same]
    rfl

/-- A change of when a job is due. -/
theorem refreshes_modify (wellFormed : manager.WellFormed)
    (keeps : ∀ state, (update state).definition = state.definition ∧
      (update state).running = state.running ∧ (update state).pending = state.pending) :
    Refreshes manager (manager.modify key update) := by
  refine ⟨?_, rfl, wellFormed.modify fun state => (keeps state).1⟩
  intro other
  unfold flight
  rw [job_modify]
  split
  · cases manager.job other with
    | none => rfl
    | some state =>
      obtain ⟨-, running, pending⟩ := keeps state
      rw [Option.map_some, Option.elim_some, Option.elim_some, running, pending]
  · rfl

theorem refreshes_retainEligible (wellFormed : manager.WellFormed) (eligible : List UserId) :
    Refreshes manager (manager.retainEligible eligible) := by
  refine ⟨?_, rfl, ⟨wellFormed.keyed.filter _, ?_⟩⟩
  · intro key
    unfold flight job retainEligible
    dsimp only
    rw [find_filter wellFormed.keyed]
    cases isFound : find Prod.fst manager.jobs key with
    | none => rfl
    | some row =>
      rw [Option.filter_some]
      split
      · split
        · rfl
        · -- A row that is dropped is idle.
          rename_i dropped
          simp only [Bool.or_eq_true, not_or, Bool.not_eq_true, Option.isSome_eq_false_iff,
            Option.isNone_iff_eq_none] at dropped
          rw [Option.map_some, Option.elim_some, dropped.1.2, dropped.2]
          rfl
      · rfl
  · exact fun row member => wellFormed.scheduled row (List.mem_filter.mp member).1

/-! ## Ticks -/

theorem insertUserTransactionJob_refreshes (wellFormed : manager.WellFormed) (userId : UserId) :
    Refreshes manager (manager.insertUserTransactionJobIfMissing userId now).2 := by
  unfold insertUserTransactionJobIfMissing
  split
  · exact wellFormed.refreshes
  · rename_i absent
    apply refreshes_insert wellFormed (Option.not_isSome_iff_eq_none.mp absent)
    exact fun _ => JobId.noConfusion

theorem insertPriceHistoryJob_refreshes (wellFormed : manager.WellFormed) (userId : UserId) :
    Refreshes manager (manager.insertPriceHistoryReconciliationJobIfMissing userId now).2 := by
  unfold insertPriceHistoryReconciliationJobIfMissing
  split
  · exact wellFormed.refreshes
  · rename_i absent
    apply refreshes_insert wellFormed (Option.not_isSome_iff_eq_none.mp absent)
    exact fun scheduled => absurd scheduled Bool.false_ne_true

/-- The table is refreshed, and what is to be triggered has the parameters of its job. -/
def Collects (manager : TaskManager UserId RunId AccountId AddressId)
    (collected : TaskManager UserId RunId AccountId AddressId ×
      List (TriggerRequest UserId RunId AccountId AddressId)) : Prop :=
  Refreshes manager collected.1 ∧
    ∀ request ∈ collected.2, request.params.matchesJob request.key.jobId = true

theorem Collects.append {collected : TaskManager UserId RunId AccountId AddressId ×
      List (TriggerRequest UserId RunId AccountId AddressId)}
    (collects : manager.Collects collected)
    (refreshes : Refreshes manager after)
    (isMatch : request.params.matchesJob request.key.jobId = true) :
    manager.Collects (after, collected.2 ++ [request]) := by
  refine ⟨refreshes, ?_⟩
  intro found member
  rcases List.mem_append.mp member with earlier | isLast
  · exact collects.2 found earlier
  · rw [List.mem_singleton.mp isLast]
    exact isMatch

theorem Collects.restoreUser {newRunId : UserId → RunId}
    {collected : TaskManager UserId RunId AccountId AddressId ×
      List (TriggerRequest UserId RunId AccountId AddressId)}
    (collects : manager.Collects collected)
    (userId : UserId) : manager.Collects (restoreUser now decision newRunId collected userId) := by
  have inserted := collects.1.trans
    (@insertUserTransactionJob_refreshes _ _ _ _ _ _ now collects.1.wellFormed userId)
  unfold TaskManager.restoreUser
  dsimp only
  split
  · exact ⟨inserted, collects.2⟩
  · split
    · exact collects.append inserted rfl
    · refine ⟨inserted.trans ?_, collects.2⟩
      dsimp only
      apply refreshes_modify inserted.wellFormed
      exact fun _ => ⟨rfl, rfl, rfl⟩
    · exact ⟨inserted, collects.2⟩

/-- An eligibility refresh. -/
theorem collects_syncUserTransactionJobs (wellFormed : manager.WellFormed)
    (loadOpen loadSessions : Except String (List UserId)) (newRunId : UserId → RunId) :
    manager.Collects (manager.syncUserTransactionJobsWith now loadOpen loadSessions decision
      newRunId) := by
  have nothing (refresh : EligibilityRefresh) :
      manager.Collects ({ manager with eligibilityRefresh := refresh }, []) :=
    ⟨⟨fun _ => rfl, rfl, ⟨wellFormed.keyed, wellFormed.scheduled⟩⟩,
      fun _ member => absurd member List.not_mem_nil⟩
  have restored (eligible : List UserId)
      {collected : TaskManager UserId RunId AccountId AddressId ×
        List (TriggerRequest UserId RunId AccountId AddressId)}
      (collects : manager.Collects collected) : manager.Collects
        (eligible.foldl (TaskManager.restoreUser now decision newRunId) collected) := by
    induction eligible generalizing collected with
    | nil => exact collects
    | cons userId rest ih => exact ih (collects.restoreUser userId)
  unfold syncUserTransactionJobsWith
  split
  · exact nothing manager.eligibilityRefresh
  · split
    · rename_i openUsers loggedInUsers
      have collects := restored (openUsers.dedup.filter fun userId => userId ∈ loggedInUsers)
        (nothing {})
      exact ⟨collects.1.trans (refreshes_retainEligible collects.1.wellFormed _), collects.2⟩
    · exact nothing _

theorem matchesJob_forScheduledJob {jobId : JobId} {newRunId : RunId}
    {params : TriggerParams RunId AccountId AddressId}
    (isParams : TriggerParams.forScheduledJob newRunId jobId = some params) :
    params.matchesJob jobId = true := by
  cases jobId with
  | priceHistoryReconciliation => cases isParams
  | _ =>
    cases isParams
    rfl

theorem Collects.collectKey {newRunId : JobKey UserId → RunId}
    {collected next : TaskManager UserId RunId AccountId AddressId ×
      List (TriggerRequest UserId RunId AccountId AddressId)}
    (collects : manager.Collects collected)
    (isNext : collectKey now decision newRunId collected key = some next) :
    manager.Collects next := by
  have modified : Refreshes manager (collected.1.modify key fun state =>
      { state with nextDueAt := now + state.definition.interval }) := by
    refine collects.1.trans (refreshes_modify collects.1.wellFormed ?_)
    exact fun _ => ⟨rfl, rfl, rfl⟩
  unfold TaskManager.collectKey at isNext
  dsimp only at isNext
  split at isNext
  · cases isNext
    exact collects
  · split at isNext
    · split at isNext
      · cases isNext
        exact collects.append modified rfl
      · cases isNext
        refine ⟨modified.trans ?_, collects.2⟩
        dsimp only
        apply refreshes_modify modified.wellFormed
        exact fun _ => ⟨rfl, rfl, rfl⟩
      · cases isNext
        exact ⟨modified, collects.2⟩
    · obtain ⟨params, isParams, rfl⟩ := Option.map_eq_some_iff.mp isNext
      exact collects.append modified (matchesJob_forScheduledJob isParams)

theorem Collects.foldlM {newRunId : JobKey UserId → RunId} {keys : List (JobKey UserId)}
    {collected last : TaskManager UserId RunId AccountId AddressId ×
      List (TriggerRequest UserId RunId AccountId AddressId)}
    (collects : manager.Collects collected)
    (isLast : keys.foldlM (TaskManager.collectKey now decision newRunId) collected = some last) :
    manager.Collects last := by
  induction keys generalizing collected with
  | nil =>
    cases isLast
    exact collects
  | cons key rest ih =>
    obtain ⟨next, isNext, isLast⟩ := Option.bind_eq_some_iff.mp isLast
    exact ih (collects.collectKey isNext) isLast

theorem collects_collectDue (wellFormed : manager.WellFormed) {keys : List (JobKey UserId)}
    {newRunId : JobKey UserId → RunId}
    {collected : TaskManager UserId RunId AccountId AddressId ×
      List (TriggerRequest UserId RunId AccountId AddressId)}
    (isCollected : manager.collectDue now keys decision newRunId = some collected) :
    manager.Collects collected := by
  have nothing : manager.Collects (manager, []) :=
    ⟨wellFormed.refreshes, fun _ member => absurd member List.not_mem_nil⟩
  exact nothing.foldlM isCollected

theorem isSome_collectDue (wellFormed : manager.WellFormed) {keys : List (JobKey UserId)}
    (due : ∀ key ∈ keys, key ∈ manager.dueKeys now) (newRunId : JobKey UserId → RunId) :
    (manager.collectDue now keys decision newRunId).isSome := by
  have scheduled : ∀ key ∈ keys, key.jobId ≠ .priceHistoryReconciliation := by
    intro key member
    obtain ⟨row, isRow, rfl⟩ := List.mem_map.mp (due key member)
    obtain ⟨isRow, isDue⟩ := List.mem_filter.mp isRow
    exact wellFormed.scheduled row isRow (of_decide_eq_true isDue).1
  unfold collectDue
  clear due
  generalize (manager, ([] : List (TriggerRequest UserId RunId AccountId AddressId))) = collected
  induction keys generalizing collected with
  | nil => rfl
  | cons key rest ih =>
    have isNext : (collectKey now decision newRunId collected key).isSome := by
      unfold collectKey
      split
      · rfl
      · split
        · split <;> rfl
        · rw [Option.isSome_map]
          have isScheduled := scheduled key List.mem_cons_self
          cases isJob : key.jobId with
          | priceHistoryReconciliation => exact absurd isJob isScheduled
          | _ => rfl
    obtain ⟨next, isNext⟩ := Option.isSome_iff_exists.mp isNext
    rw [List.foldlM_cons, isNext]
    exact ih (fun key later => scheduled key (List.mem_cons_of_mem _ later)) next

/-! ## Triggers, completions and the shutdown -/

theorem ensureDynamicJobExists_refreshes (wellFormed : manager.WellFormed) (key : JobKey UserId)
    (now : ℕ) : Refreshes manager (manager.ensureDynamicJobExists key now).2 := by
  unfold ensureDynamicJobExists
  split
  · exact wellFormed.refreshes
  · split
    · exact insertUserTransactionJob_refreshes wellFormed _
    · exact insertPriceHistoryJob_refreshes wellFormed _
    · exact wellFormed.refreshes

/-- What a trigger does: it is rejected, starts a run, or is merged into what is pending. -/
inductive Triggered (manager : TaskManager UserId RunId AccountId AddressId) (signalled : Bool)
    (request : TriggerRequest UserId RunId AccountId AddressId) :
    TriggerEnqueueResult RunId × TaskManager UserId RunId AccountId AddressId ×
      Option (TriggerRequest UserId RunId AccountId AddressId) → Prop where
  | shuttingDown (isShuttingDown : (manager.shuttingDown || signalled) = true) :
      Triggered manager signalled request (.rejectedShuttingDown, manager, none)
  | invalid {after : TaskManager UserId RunId AccountId AddressId}
      (refreshes : Refreshes manager after) :
      Triggered manager signalled request (.rejectedInvalidKey, after, none)
  | started {after : TaskManager UserId RunId AccountId AddressId}
      (accepting : (manager.shuttingDown || signalled) = false)
      (isMatch : request.params.matchesJob request.key.jobId = true)
      (idle : (manager.flight request.key).running = false)
      (flight : after.flight =
        Function.update manager.flight request.key { running := true, pending := none })
      (shuttingDown : after.shuttingDown = manager.shuttingDown) (wellFormed : after.WellFormed) :
      Triggered manager signalled request
        (.acceptedStarted request.params.transactionSyncRunId, after, some request)
  | queued {after : TaskManager UserId RunId AccountId AddressId}
      {pending : TriggerRequest UserId RunId AccountId AddressId}
      (isMatch : request.params.matchesJob request.key.jobId = true)
      (running : (manager.flight request.key).running = true)
      (isPending : pending = canonicalizePendingRequest
        ((manager.flight request.key).pending.getD request))
      (flight : after.flight = Function.update manager.flight request.key
        { running := true, pending := some pending })
      (shuttingDown : after.shuttingDown = manager.shuttingDown) (wellFormed : after.WellFormed) :
      Triggered manager signalled request
        (.acceptedQueued pending.params.transactionSyncRunId, after, none)

theorem triggered_applyTrigger (wellFormed : manager.WellFormed) :
    manager.Triggered signalled request (manager.applyTrigger signalled request now) := by
  have ensured := ensureDynamicJobExists_refreshes wellFormed request.key now
  unfold applyTrigger
  split
  · exact .shuttingDown ‹_›
  · rename_i accepting
    dsimp only
    split
    · exact .invalid ensured
    · split
      · exact .invalid ensured
      · rename_i state isState
        split
        · exact .invalid ensured
        · rename_i matched
          have isMatch : request.params.matchesJob request.key.jobId = true := by
            simpa using matched
          have isFlight := ensured.flight request.key
          rw [flight_of_job isState] at isFlight
          have modified {running : Bool}
              {pending : Option (TriggerRequest UserId RunId AccountId AddressId)} :
              ((manager.ensureDynamicJobExists request.key now).2.modify request.key fun state =>
                { state with running := running, pending := pending }).flight =
                  Function.update manager.flight request.key { running, pending } := by
            refine (@flight_modify _ _ _ _ _ (manager.ensureDynamicJobExists request.key now).2
              request.key _ running pending ?_ fun _ => ⟨rfl, rfl⟩).trans ?_
            · rw [isState]
              rfl
            · rw [funext ensured.flight]
          have after {running : Bool}
              {pending : Option (TriggerRequest UserId RunId AccountId AddressId)} :
              ((manager.ensureDynamicJobExists request.key now).2.modify request.key fun state =>
                { state with running := running, pending := pending }).WellFormed :=
            ensured.wellFormed.modify fun _ => rfl
          unfold computeTriggerTransition
          split
          · rename_i running
            refine .queued isMatch ?_ ?_ modified ensured.shuttingDown after
            · rw [← isFlight]
              exact running
            · rw [← isFlight]
          · rename_i idle
            refine .started (Bool.eq_false_iff.mpr accepting) isMatch ?_ modified
              ensured.shuttingDown after
            rw [← isFlight]
            exact Bool.eq_false_iff.mpr idle

/-- A trigger with the parameters of another job that registers the dynamic job of its key. -/
def registers (manager : TaskManager UserId RunId AccountId AddressId) (signalled : Bool)
    (request : TriggerRequest UserId RunId AccountId AddressId) : Bool :=
  !(manager.shuttingDown || signalled) && (manager.job request.key).isNone &&
    request.key.isDynamic && !request.params.matchesJob request.key.jobId

theorem ensureDynamicJobExists_of_isDynamic (absent : manager.job key = none)
    (isDynamic : key.isDynamic = true) (now : ℕ) :
    ∃ after, manager.ensureDynamicJobExists key now = (true, after) ∧ (after.job key).isSome ∧
      after.jobs ≠ manager.jobs := by
  have inserted (interval : ℕ) (scheduled : Bool) :
      ((manager.insert key interval scheduled now).job key).isSome ∧
        (manager.insert key interval scheduled now).jobs ≠ manager.jobs := by
    rw [job_insert, absent, if_pos rfl]
    refine ⟨rfl, fun same => ?_⟩
    have longer := congrArg List.length same
    unfold insert at longer
    rw [List.length_append, List.length_singleton] at longer
    omega
  have missing : ¬ (none : Option (JobState UserId RunId AccountId AddressId)).isSome = true :=
    Bool.false_ne_true
  unfold ensureDynamicJobExists
  rw [absent, if_neg missing]
  cases key with
  | app jobId => cases isDynamic
  | user jobId userId =>
    cases jobId with
    | userTransactionMonitor =>
      dsimp only
      rw [insertUserTransactionJobIfMissing, absent, if_neg missing]
      obtain ⟨isSome, longer⟩ := inserted userTransactionMonitorInterval true
      exact ⟨_, Prod.ext isSome rfl, isSome, longer⟩
    | priceHistoryReconciliation =>
      dsimp only
      rw [insertPriceHistoryReconciliationJobIfMissing, absent, if_neg missing]
      obtain ⟨isSome, longer⟩ := inserted userTransactionMonitorInterval false
      exact ⟨_, Prod.ext isSome rfl, isSome, longer⟩
    | _ => cases isDynamic

theorem ensureDynamicJobExists_of_isStatic (absent : manager.job key = none)
    (isStatic : key.isDynamic = false) (now : ℕ) :
    manager.ensureDynamicJobExists key now = (false, manager) := by
  unfold ensureDynamicJobExists
  rw [absent]
  cases key with
  | app jobId => rfl
  | user jobId userId =>
    cases jobId with
    | userTransactionMonitor => cases isStatic
    | priceHistoryReconciliation => cases isStatic
    | _ => rfl

theorem applyTrigger_of_job (accepting : (manager.shuttingDown || signalled) = false)
    (ensured : manager.ensureDynamicJobExists request.key now = (true, after))
    (isSome : (after.job request.key).isSome) :
    (manager.applyTrigger signalled request now).1.isAccepted = true ∨
      request.params.matchesJob request.key.jobId = false ∧
        manager.applyTrigger signalled request now = (.rejectedInvalidKey, after, none) := by
  obtain ⟨state, isState⟩ := Option.isSome_iff_exists.mp isSome
  simp only [applyTrigger, accepting, ensured, isState, Bool.false_eq_true, if_false,
    Bool.not_true]
  cases request.params.matchesJob request.key.jobId with
  | false => exact .inr ⟨rfl, rfl⟩
  | true =>
    refine .inl ?_
    unfold computeTriggerTransition
    cases state.running with
    | false => rfl
    | true => rfl

theorem jobs_applyTrigger_of_rejected
    (rejected : (manager.applyTrigger signalled request now).1.isAccepted = false) :
    (manager.applyTrigger signalled request now).2.1.jobs = manager.jobs ↔
      manager.registers signalled request = false := by
  unfold registers
  cases isShuttingDown : manager.shuttingDown || signalled with
  | true =>
    rw [applyTrigger, isShuttingDown]
    exact iff_of_true rfl rfl
  | false =>
    cases isJob : manager.job request.key with
    | some state =>
      have ensured : manager.ensureDynamicJobExists request.key now = (true, manager) := by
        unfold ensureDynamicJobExists
        exact if_pos (isJob ▸ rfl)
      rcases applyTrigger_of_job isShuttingDown ensured (isJob ▸ rfl) with accepted | invalid
      · rw [accepted] at rejected
        cases rejected
      · rw [invalid.2]
        exact iff_of_true rfl rfl
    | none =>
      cases isDynamic : request.key.isDynamic with
      | false =>
        rw [applyTrigger, isShuttingDown,
          ensureDynamicJobExists_of_isStatic isJob isDynamic]
        exact iff_of_true rfl rfl
      | true =>
        obtain ⟨after, ensured, isSome, longer⟩ :=
          ensureDynamicJobExists_of_isDynamic isJob isDynamic now
        rcases applyTrigger_of_job isShuttingDown ensured isSome with accepted | invalid
        · rw [accepted] at rejected
          cases rejected
        · obtain ⟨mismatched, isApplied⟩ := invalid
          rw [isApplied, mismatched]
          exact iff_of_false longer Bool.noConfusion

theorem handleJobCompletion_spec (wellFormed : manager.WellFormed)
    {completion : JobCompletion UserId RunId AccountId AddressId}
    (isSome : (manager.job completion.request.key).isSome) :
    ∃ after started, manager.handleJobCompletion signalled completion now = (after, started) ∧
      (started = if manager.shuttingDown || signalled then none
        else (manager.flight completion.request.key).pending) ∧
      after.flight = Function.update manager.flight completion.request.key
        { running := started.isSome, pending := none } ∧
      after.shuttingDown = manager.shuttingDown ∧ after.WellFormed := by
  obtain ⟨state, isState⟩ := Option.isSome_iff_exists.mp isSome
  unfold handleJobCompletion
  rw [isState]
  refine ⟨_, _, rfl, ?_, ?_, rfl, wellFormed.modify fun _ => rfl⟩
  · rw [flight_of_job isState]
  · exact flight_modify isSome fun _ => ⟨rfl, rfl⟩

theorem job_shutdown : manager.shutdown.job key =
    (manager.job key).map fun state => { state with pending := none } := by
  unfold job shutdown
  dsimp only
  have found := @find_map _ (JobKey UserId) _ Prod.fst manager.jobs key
    (fun row => (row.1, { row.2 with pending := none })) fun _ => rfl
  rw [found, Option.map_map, Option.map_map]
  rfl

theorem flight_shutdown : manager.shutdown.flight key =
    { running := (manager.flight key).running, pending := none } := by
  unfold flight
  rw [job_shutdown]
  cases manager.job key with
  | none => rfl
  | some state => rfl

omit [DecidableEq UserId] in
theorem WellFormed.shutdown (wellFormed : manager.WellFormed) : manager.shutdown.WellFormed := by
  refine ⟨wellFormed.keyed.map fun _ => rfl, ?_⟩
  intro row member isScheduled
  obtain ⟨old, isOld, rfl⟩ := List.mem_map.mp member
  exact wellFormed.scheduled old isOld isScheduled

/-! ## A new manager -/

theorem new_spec (hosted : Bool) (now : ℕ) :
    (new hosted now : TaskManager UserId RunId AccountId AddressId).WellFormed ∧
      ∀ key, (new hosted now : TaskManager UserId RunId AccountId AddressId).flight key = {} := by
  have empty : ({} : TaskManager UserId RunId AccountId AddressId).WellFormed :=
    ⟨List.nodup_nil, fun _ member => absurd member List.not_mem_nil⟩
  have first := @refreshes_insert _ _ _ _ _ _ (.app .sessionCleanup) now empty rfl
    sessionCleanupInterval true fun _ => JobId.noConfusion
  have second := first.trans (@refreshes_insert _ _ _ _ _ _ (.app .traceCleanup) now
    first.wellFormed rfl traceCleanupInterval true fun _ => JobId.noConfusion)
  unfold new
  dsimp only
  split
  · have third := second.trans (@refreshes_insert _ _ _ _ _ _ (.app .inactiveUserCleanup) now
      second.wellFormed rfl inactiveUserCleanupInterval true fun _ => JobId.noConfusion)
    exact ⟨third.wellFormed, third.flight⟩
  · exact ⟨second.wellFormed, second.flight⟩

end TaskManager

end Bitgarth.Tasks
