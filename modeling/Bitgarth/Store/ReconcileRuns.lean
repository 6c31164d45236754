import Bitgarth.Foundation.Reachability
import Bitgarth.Store.TransactionWrites

/-! # Runs of committed records

Whatever the batches and the faults, what a call commits is a prefix of its records in order,
and its summary names exactly the coverage those records invalidate, also when it fails. A
property that each committed record keeps is then kept by every call.
-/

namespace Bitgarth.Store

open Amounts Ledger KeyedTable Fallible Reachability

open Sync (SyncedAssetId)

section Targets

variable {left right third : CoverageInvalidationTargets}

theorem CoverageInvalidationTargets.ext (addresses : left.addressIds = right.addressIds)
    (accounts : left.accountIds = right.accountIds) : left = right := by
  cases left
  cases right
  cases addresses
  cases accounts
  rfl

@[simp]
theorem CoverageInvalidationTargets.empty_unionWith :
    CoverageInvalidationTargets.empty.unionWith left = left :=
  CoverageInvalidationTargets.ext (Finset.empty_union _) (Finset.empty_union _)

@[simp]
theorem CoverageInvalidationTargets.unionWith_empty :
    left.unionWith CoverageInvalidationTargets.empty = left :=
  CoverageInvalidationTargets.ext (Finset.union_empty _) (Finset.union_empty _)

theorem CoverageInvalidationTargets.unionWith_assoc :
    (left.unionWith right).unionWith third = left.unionWith (right.unionWith third) :=
  CoverageInvalidationTargets.ext (Finset.union_assoc _ _ _) (Finset.union_assoc _ _ _)

end Targets

section Runs

variable (toRfc3339 : ℤ → String) (addresses : List AddressRow) (assetId : SyncedAssetId)
  (network : Network)

/-- Records committed one after the other, with what they invalidate. -/
inductive CommittedRun : List SyncTransactionRecord → TransactionTables → TransactionTables →
    CoverageInvalidationTargets → Prop where
  | nil (db : TransactionTables) : CommittedRun [] db db .empty
  | cons {record : SyncTransactionRecord} {rest : List SyncTransactionRecord}
      {db tables : TransactionTables} {outcome : ReconcileOutcome}
      {targets : CoverageInvalidationTargets}
      (committed : applyTransactionReconciliation toRfc3339 addresses assetId network record db =
        .ok outcome)
      (later : CommittedRun rest outcome.tables tables targets) :
      CommittedRun (record :: rest) db tables (outcome.coverageInvalidation.unionWith targets)

variable {toRfc3339 addresses assetId network}

theorem of_applyTransactionReconciliation {record : SyncTransactionRecord}
    {db : TransactionTables} {outcome : ReconcileOutcome}
    (done : applyTransactionReconciliation toRfc3339 addresses assetId network record db =
      .ok outcome) :
    RecordAccepted addresses assetId network record ∧
      outcome.tables = writtenTables toRfc3339 addresses assetId network record db ∧
      ∃ existing current,
        loadExistingTransactionSnapshot addresses db (record.key assetId network) =
            .ok existing ∧
          loadExistingTransactionSnapshot addresses outcome.tables
            (record.key assetId network) = .ok current ∧
          outcome.coverageInvalidation = coverageInvalidationForChange existing current := by
  unfold applyTransactionReconciliation at done
  dsimp only at done
  obtain ⟨existing, loaded, done⟩ := bind_eq_ok.mp done
  obtain ⟨⟨tables, deleted⟩, wrote, done⟩ := bind_eq_ok.mp done
  obtain ⟨current, reloaded, done⟩ := bind_eq_ok.mp done
  obtain ⟨accepted, isTables, _⟩ := writeTransaction_eq_ok.mp wrote
  split at done
  all_goals
    rw [pure_eq_ok] at done
    subst done
    exact ⟨accepted, isTables.symm, existing, current, loaded, reloaded, rfl⟩

/-- A run goes on where another ended. -/
theorem CommittedRun.append {first second : List SyncTransactionRecord}
    {db middle tables : TransactionTables} {left right : CoverageInvalidationTargets}
    (before : CommittedRun toRfc3339 addresses assetId network first db middle left)
    (after : CommittedRun toRfc3339 addresses assetId network second middle tables right) :
    CommittedRun toRfc3339 addresses assetId network (first ++ second) db tables
      (left.unionWith right) := by
  induction before with
  | nil db =>
    rw [CoverageInvalidationTargets.empty_unionWith]
    exact after
  | cons committed _ ih =>
    rw [CoverageInvalidationTargets.unionWith_assoc]
    exact .cons committed (ih after)

/-- What each committed record keeps, a run keeps. -/
theorem CommittedRun.invariant {holds : TransactionTables → Prop}
    {records : List SyncTransactionRecord} {db tables : TransactionTables}
    {targets : CoverageInvalidationTargets}
    (run : CommittedRun toRfc3339 addresses assetId network records db tables targets)
    (step : ∀ record ∈ records, ∀ db outcome, holds db →
      applyTransactionReconciliation toRfc3339 addresses assetId network record db = .ok outcome →
        holds outcome.tables)
    (start : holds db) : holds tables := by
  induction run with
  | nil db => exact start
  | cons committed _ ih =>
    rw [List.forall_mem_cons] at step
    exact ih step.2 (step.1 _ _ start committed)

variable {faults : StoreFaults}

theorem reconcileBatch_committed {batch : ℕ} {records : List SyncTransactionRecord}
    {db tables : TransactionTables} {start summary : TransactionSyncReconcileSummary}
    {failure : Option DbError}
    (done : reconcileBatch toRfc3339 addresses assetId network faults batch records db start =
      (tables, summary, failure)) :
    ∃ committed rest targets, records = committed ++ rest ∧
      CommittedRun toRfc3339 addresses assetId network committed db tables targets ∧
      summary.coverageInvalidation = start.coverageInvalidation.unionWith targets ∧
      (failure = none → rest = []) := by
  induction records generalizing db start with
  | nil =>
    simp only [reconcileBatch, Prod.mk.injEq] at done
    obtain ⟨rfl, rfl, _⟩ := done
    exact ⟨[], [], .empty, rfl, .nil db, by simp, fun _ => rfl⟩
  | cons record rest ih =>
    have stops : (db, start, failure) = (tables, summary, failure) → failure ≠ none →
        ∃ committed rest' targets, record :: rest = committed ++ rest' ∧
          CommittedRun toRfc3339 addresses assetId network committed db tables targets ∧
          summary.coverageInvalidation = start.coverageInvalidation.unionWith targets ∧
          (failure = none → rest' = []) := by
      intro stopped failed
      simp only [Prod.mk.injEq] at stopped
      obtain ⟨rfl, rfl, _⟩ := stopped
      exact ⟨[], record :: rest, .empty, rfl, .nil db, by simp, fun none => absurd none failed⟩
    unfold reconcileBatch at done
    split at done
    · simp only [Prod.mk.injEq] at done
      obtain ⟨rfl, rfl, rfl⟩ := done
      exact stops rfl (Option.some_ne_none _)
    · split at done <;> rename_i applied
      · simp only [Prod.mk.injEq] at done
        obtain ⟨rfl, rfl, rfl⟩ := done
        exact stops rfl (Option.some_ne_none _)
      · rename_i outcome
        obtain ⟨committed, uncommitted, targets, rfl, run, named, complete⟩ := ih done
        refine ⟨record :: committed, uncommitted, _, rfl, .cons applied run, ?_, complete⟩
        rw [named, ← CoverageInvalidationTargets.unionWith_assoc]
        rfl

theorem reconcileBatches_committed {batch : ℕ} {batches : List (List SyncTransactionRecord)}
    {db tables : TransactionTables} {total summary : TransactionSyncReconcileSummary}
    {failure : Option DbError}
    (done : reconcileBatches toRfc3339 addresses assetId network faults batch batches db total =
      (tables, summary, failure)) :
    ∃ committed rest targets, batches.flatten = committed ++ rest ∧
      CommittedRun toRfc3339 addresses assetId network committed db tables targets ∧
      summary.coverageInvalidation = total.coverageInvalidation.unionWith targets ∧
      (failure = none → rest = []) := by
  induction batches generalizing batch db total with
  | nil =>
    simp only [reconcileBatches, Prod.mk.injEq] at done
    obtain ⟨rfl, rfl, _⟩ := done
    exact ⟨[], [], .empty, rfl, .nil db, by simp, fun _ => rfl⟩
  | cons records rest ih =>
    unfold reconcileBatches at done
    split at done
    · simp only [Prod.mk.injEq] at done
      obtain ⟨rfl, rfl, rfl⟩ := done
      exact ⟨[], _, .empty, rfl, .nil db, by simp, fun none => absurd none (by simp)⟩
    · split at done <;> rename_i batchDone
      · obtain ⟨first, uncommitted, targets, isBatch, run, named, complete⟩ :=
          reconcileBatch_committed batchDone
        obtain rfl := complete rfl
        obtain ⟨later, remaining, laterTargets, isRest, laterRun, laterNamed, laterComplete⟩ :=
          ih done
        refine ⟨first ++ later, remaining, _, ?_, run.append laterRun, ?_, laterComplete⟩
        · rw [List.flatten_cons, isRest, isBatch, List.append_nil, List.append_assoc]
        · rw [laterNamed, ← CoverageInvalidationTargets.unionWith_assoc]
          simp [TransactionSyncReconcileSummary.merge, named,
            TransactionSyncReconcileSummary.default]
      · obtain ⟨first, uncommitted, targets, isBatch, run, named, _⟩ :=
          reconcileBatch_committed batchDone
        simp only [Prod.mk.injEq] at done
        obtain ⟨rfl, rfl, rfl⟩ := done
        refine ⟨first, uncommitted ++ rest.flatten, targets, ?_, run, ?_,
          fun none => absurd none (by simp)⟩
        · rw [List.flatten_cons, isBatch, List.append_assoc]
        · simp [TransactionSyncReconcileSummary.merge, named,
            TransactionSyncReconcileSummary.default]

theorem flatten_toChunks_go {Item : Type} (n : ℕ) (items : List Item) (chunk : Array Item)
    (chunks : Array (List Item)) :
    (List.toChunks.go n items chunk chunks).flatten =
      chunks.toList.flatten ++ chunk.toList ++ items := by
  induction items generalizing chunk chunks with
  | nil => simp [List.toChunks.go]
  | cons item rest ih =>
    unfold List.toChunks.go
    split
    · rw [ih]
      simp
    · rw [ih]
      simp

theorem flatten_toChunks {Item : Type} (n : ℕ) (items : List Item) :
    (items.toChunks n).flatten = items := by
  unfold List.toChunks
  split
  · rfl
  · simp
  · rw [flatten_toChunks_go]
    simp

variable (toRfc3339 addresses assetId network faults) in
theorem reconcileAddressTransactions_committed (records : List SyncTransactionRecord)
    (db : TransactionTables) :
    let reconciled := reconcileAddressTransactionsPreservingInvalidation toRfc3339 addresses
      assetId network faults records db
    ∃ committed rest, records = committed ++ rest ∧
      CommittedRun toRfc3339 addresses assetId network committed db reconciled.1
        reconciled.2.1.coverageInvalidation ∧
      (reconciled.2.2 = none → rest = []) := by
  intro reconciled
  obtain ⟨committed, rest, targets, isRecords, run, named, complete⟩ :=
    reconcileBatches_committed (rfl : reconcileBatches toRfc3339 addresses assetId network faults 0
      (records.toChunks reconcileLockBatchSize) db .default = reconciled)
  rw [flatten_toChunks] at isRecords
  have isTargets : reconciled.2.1.coverageInvalidation = targets :=
    named.trans CoverageInvalidationTargets.empty_unionWith
  exact ⟨committed, rest, isRecords, isTargets ▸ run, complete⟩

end Runs

/-! ## Reconciliations as steps -/

/-- A record in the asset and network it is reconciled for. -/
structure BitcoinStep where
  assetId : SyncedAssetId
  network : Network
  record : SyncTransactionRecord

section Steps

variable (toRfc3339 : ℤ → String) (addresses : List AddressRow)

/-- The tables after a record, which are those before it when it fails. -/
def BitcoinStep.tables (db : TransactionTables) (step : BitcoinStep) : TransactionTables :=
  match applyTransactionReconciliation toRfc3339 addresses step.assetId step.network step.record
    db with
  | .ok outcome => outcome.tables
  | .error _ => db

/-- A reconciliation that commits. -/
def BitcoinStep.Commits (step : BitcoinStep) (db after : TransactionTables) : Prop :=
  ∃ outcome, applyTransactionReconciliation toRfc3339 addresses step.assetId step.network
    step.record db = .ok outcome ∧ outcome.tables = after

variable {toRfc3339 addresses} {step : BitcoinStep} {start db after : TransactionTables}

theorem BitcoinStep.commits_tables
    (done : (applyTransactionReconciliation toRfc3339 addresses step.assetId step.network
      step.record db).isOk = true) :
    step.Commits toRfc3339 addresses db (step.tables toRfc3339 addresses db) := by
  unfold BitcoinStep.Commits BitcoinStep.tables
  split <;> rename_i result
  · exact ⟨_, result, rfl⟩
  · rw [result] at done
    cases done

theorem BitcoinStep.Commits.run (commits : step.Commits toRfc3339 addresses db after) :
    ∃ targets, CommittedRun toRfc3339 addresses step.assetId step.network [step.record] db after
      targets := by
  obtain ⟨outcome, done, rfl⟩ := commits
  exact ⟨_, .cons done (.nil _)⟩

theorem BitcoinStep.Commits.unique (unique : db.Unique)
    (commits : step.Commits toRfc3339 addresses db after) : after.Unique := by
  obtain ⟨outcome, done, rfl⟩ := commits
  rw [(of_applyTransactionReconciliation done).2.1]
  exact unique_writtenTables unique

end Steps

end Bitgarth.Store
