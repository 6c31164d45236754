import Bitgarth.Store.ReconcileRuns

/-! # Coverage proofs survive only unchanged history

A call of `reconcile_mempool_transactions` commits records one by one and then clears the
coverage proofs of every address a committed record contradicts, whether or not a later record
fails. A proof that is still held therefore vouches for transactions that are still what they
were.
-/

namespace Bitgarth.Store

open Amounts Ledger KeyedTable Fallible

open Sync (SyncedAssetId)

/-! ## Calls -/

/-- The tables with the coverage proofs of addresses and the closing balances of accounts. -/
structure CoverageState (Proof : Type) where
  tables : TransactionTables
  historyProof : String → Option Proof
  closingBalances : String → List (Option UnsignedAmount)

/-- `invalidate_mempool_history_coverage`: one SQL transaction, or nothing to do. -/
def invalidateMempoolHistoryCoverage {Proof : Type} (targets : CoverageInvalidationTargets)
    (fault : Option DbError) (state : CoverageState Proof) :
    CoverageState Proof × Option DbError :=
  if targets.addressIds = ∅ ∧ targets.accountIds = ∅ then
    (state, none)
  else
    match fault with
    | some error => (state, some error)
    | none =>
      ({ state with
          historyProof := fun addressId =>
            if addressId ∈ targets.addressIds then none else state.historyProof addressId
          closingBalances := fun accountId =>
            if accountId ∈ targets.accountIds then
              (state.closingBalances accountId).map fun _ => none
            else
              state.closingBalances accountId },
        none)

/-- An error of a monitored account, with the coverage it has lost. -/
structure UserTransactionMonitorError where
  error : DbError
  coverageInvalidation : CoverageInvalidationTargets

/-- One call: its records, with the faults met on the way. -/
structure ReconcileCall where
  assetId : SyncedAssetId
  network : Network
  records : List SyncTransactionRecord
  faults : StoreFaults
  invalidationFault : Option DbError

section Calls

variable {Proof : Type} (toRfc3339 : ℤ → String) (addresses : List AddressRow)

/-- `reconcile_mempool_transactions`. -/
def reconcileMempoolTransactions (call : ReconcileCall) (state : CoverageState Proof) :
    CoverageState Proof ×
      Except UserTransactionMonitorError TransactionSyncReconcileSummary :=
  let (tables, summary, failure) := reconcileAddressTransactionsPreservingInvalidation toRfc3339
    addresses call.assetId call.network call.faults call.records state.tables
  let targets := summary.coverageInvalidation
  match invalidateMempoolHistoryCoverage targets call.invalidationFault { state with tables },
    failure with
  | (state, some error), _ => (state, .error ⟨error, targets⟩)
  | (state, none), some error => (state, .error ⟨error, targets⟩)
  | (state, none), none => (state, .ok summary)

/-- A sequence of calls. -/
def reconcileCalls (calls : List ReconcileCall) (state : CoverageState Proof) :
    CoverageState Proof :=
  calls.foldl (fun state call => (reconcileMempoolTransactions toRfc3339 addresses call state).1)
    state

end Calls

/-! ## Histories -/

/-- Every stored input and output belongs to a tracked address. -/
structure TransactionTables.References (addresses : List AddressRow) (db : TransactionTables) :
    Prop where
  inputs : ∀ row ∈ db.transactionInputs, ∃ address ∈ addresses, address.id = row.addressId
  outputs : ∀ row ∈ db.transactionOutputs, ∃ address ∈ addresses, address.id = row.addressId

/-- The columns of a chain row that a coverage proof vouches for. -/
structure ChainHistory where
  status : ChainTransactionStatus
  blockHeight : Option ℤ
  blockHash : Option String
  blockTime : Option String
  feeAmountLo : Option ℤ
  feeAmountHi : Option ℤ
deriving DecidableEq

def ChainTransactionRow.history (row : ChainTransactionRow) : ChainHistory where
  status := row.status
  blockHeight := row.blockHeight
  blockHash := row.blockHash
  blockTime := row.blockTime
  feeAmountLo := row.feeAmountLo
  feeAmountHi := row.feeAmountHi

/-- The chain history of a stored transaction. -/
def TransactionTables.historyOf (db : TransactionTables) (key : TxKey) : Option ChainHistory :=
  (find ChainTransactionRow.key db.chainTransactions key).map ChainTransactionRow.history

/-- A transaction is stored as before. -/
structure SameHistory (key : TxKey) (before after : TransactionTables) : Prop where
  chain : before.historyOf key = after.historyOf key
  inputs : before.inputsOf key = after.inputsOf key
  outputs : before.outputsOf key = after.outputsOf key

/-- An address owns an input or output of a transaction stored as confirmed. -/
structure OwnsConfirmed (addressId : String) (key : TxKey) (db : TransactionTables) : Prop where
  confirmed : ∃ history, db.historyOf key = some history ∧ history.status = .confirmed
  owned : (∃ row ∈ db.inputsOf key, row.addressId = addressId) ∨
    ∃ row ∈ db.outputsOf key, row.addressId = addressId

/-- The confirmed transactions of an address are stored as before. -/
def KeepsHistory (addressId : String) (before after : TransactionTables) : Prop :=
  ∀ key, OwnsConfirmed addressId key before → SameHistory key before after

section Histories

variable {addressId : String} {key : TxKey} {first second third : TransactionTables}

theorem SameHistory.trans (left : SameHistory key first second)
    (right : SameHistory key second third) : SameHistory key first third :=
  ⟨left.chain.trans right.chain, left.inputs.trans right.inputs, left.outputs.trans right.outputs⟩

theorem OwnsConfirmed.of_sameHistory (owns : OwnsConfirmed addressId key first)
    (same : SameHistory key first second) : OwnsConfirmed addressId key second := by
  obtain ⟨confirmed, owned⟩ := owns
  rw [same.chain] at confirmed
  rw [same.inputs, same.outputs] at owned
  exact ⟨confirmed, owned⟩

theorem KeepsHistory.refl (db : TransactionTables) : KeepsHistory addressId db db :=
  fun _ _ => ⟨rfl, rfl, rfl⟩

theorem KeepsHistory.trans (left : KeepsHistory addressId first second)
    (right : KeepsHistory addressId second third) : KeepsHistory addressId first third := by
  intro key owns
  have same := left key owns
  exact same.trans (right key (owns.of_sameHistory same))

end Histories

/-! ## Snapshots -/

section Snapshots

variable {addresses : List AddressRow}

theorem map_fst_of_joinAccounts {Row : Type} {addressId : Row → String} {rows : List Row}
    {joined : List (Row × String)}
    (tracked : ∀ row ∈ rows, ∃ address ∈ addresses, address.id = addressId row)
    (done : joinAccounts addresses addressId rows = .ok joined) : joined.map Prod.fst = rows := by
  induction rows generalizing joined with
  | nil =>
    obtain rfl : [] = joined := Except.ok.inj done
    rfl
  | cons row rest ih =>
    rw [List.forall_mem_cons] at tracked
    obtain ⟨⟨address, member, isId⟩, restTracked⟩ := tracked
    unfold joinAccounts at done
    split at done <;> rename_i found
    · exact absurd isId (of_decide_eq_false
        (Bool.eq_false_iff.mpr (List.find?_eq_none.mp found address member)))
    · split at done
      · contradiction
      · obtain ⟨later, restDone, done⟩ := bind_eq_ok.mp done
        rw [pure_eq_ok] at done
        subst done
        rw [List.map_cons, ih restTracked restDone]

variable {db : TransactionTables} {key : TxKey} {snapshot : ExistingTransactionSnapshot}

theorem loadExistingTransactionSnapshot_eq_some
    (done : loadExistingTransactionSnapshot addresses db key = .ok (some snapshot)) :
    find ChainTransactionRow.key db.chainTransactions key = some snapshot.chain ∧
      joinAccounts addresses TransactionInputRow.addressId (db.inputsOf key) =
        .ok snapshot.inputs ∧
      joinAccounts addresses TransactionOutputRow.addressId (db.outputsOf key) =
        .ok snapshot.outputs := by
  unfold loadExistingTransactionSnapshot at done
  split at done <;> rename_i found
  · cases Except.ok.inj done
  · obtain ⟨inputs, inputsDone, done⟩ := bind_eq_ok.mp done
    obtain ⟨outputs, outputsDone, done⟩ := bind_eq_ok.mp done
    rw [pure_eq_ok] at done
    obtain rfl := Option.some.inj done
    exact ⟨found, inputsDone, outputsDone⟩

theorem find_eq_none_of_load
    (done : loadExistingTransactionSnapshot addresses db key = .ok none) :
    find ChainTransactionRow.key db.chainTransactions key = none := by
  unfold loadExistingTransactionSnapshot at done
  split at done <;> rename_i found
  · exact found
  · obtain ⟨inputs, _, done⟩ := bind_eq_ok.mp done
    obtain ⟨outputs, _, done⟩ := bind_eq_ok.mp done
    rw [pure_eq_ok] at done
    cases done

end Snapshots

/-! ## One record -/

section Record

variable {toRfc3339 : ℤ → String} {addresses : List AddressRow} {assetId : SyncedAssetId}
  {network : Network} {record : SyncTransactionRecord} {db : TransactionTables}

theorem mem_inputsOf {key : TxKey} {row : TransactionInputRow} :
    row ∈ db.inputsOf key ↔ row ∈ db.transactionInputs ∧ row.txKey = key := by
  unfold TransactionTables.inputsOf
  rw [List.mem_mergeSort, List.mem_filter, decide_eq_true_eq]

theorem mem_outputsOf {key : TxKey} {row : TransactionOutputRow} :
    row ∈ db.outputsOf key ↔ row ∈ db.transactionOutputs ∧ row.txKey = key := by
  unfold TransactionTables.outputsOf
  rw [List.mem_mergeSort, List.mem_filter, decide_eq_true_eq]

theorem sameHistory_of_other {key : TxKey} (other : key ≠ record.key assetId network) :
    SameHistory key db (writtenTables toRfc3339 addresses assetId network record db) where
  chain := by
    unfold TransactionTables.historyOf
    rw [find_writtenTables_chain, if_neg other]
  inputs := by
    unfold TransactionTables.inputsOf
    rw [filter_writtenTables_inputs]
    intro row own
    rw [own]
    exact decide_eq_false (Ne.symm other)
  outputs := by
    unfold TransactionTables.outputsOf
    rw [filter_writtenTables_outputs]
    intro row own
    rw [own]
    exact decide_eq_false (Ne.symm other)

theorem resolveOwnedAddressId_mem {rawAddress : Option String} {addressId : String}
    (resolved : resolveOwnedAddressId addresses rawAddress = some addressId) :
    ∃ address ∈ addresses, address.id = addressId := by
  obtain ⟨text, _, found⟩ := Option.bind_eq_some_iff.mp resolved
  obtain ⟨address, isFirst, isId⟩ := Option.map_eq_some_iff.mp found
  exact ⟨address, List.mem_of_find?_eq_some isFirst, isId⟩

theorem references_writtenTables (unique : db.Unique) (references : db.References addresses) :
    (writtenTables toRfc3339 addresses assetId network record db).References addresses where
  inputs := by
    intro row member
    rw [mem_writtenTables_inputs unique] at member
    split at member
    · obtain ⟨input, _, _, stored⟩ := inputAt_eq_some member
      obtain ⟨addressId, resolved, written⟩ := storedInput_eq_some.mp stored
      rw [(transactionInputRow_spec written).2.2.2.2]
      exact resolveOwnedAddressId_mem resolved
    · exact references.inputs row member
  outputs := by
    intro row member
    rw [mem_writtenTables_outputs unique] at member
    split at member
    · obtain ⟨output, _, _, stored⟩ := outputAt_eq_some member
      obtain ⟨addressId, resolved, written⟩ := storedOutput_eq_some.mp stored
      rw [(transactionOutputRow_spec written).2.2]
      exact resolveOwnedAddressId_mem resolved
    · exact references.outputs row member

end Record

/-! ## Contradictions -/

section Contradiction

variable {addresses : List AddressRow} {db after : TransactionTables} {key : TxKey}
  {before : ExistingTransactionSnapshot} {addressId : String}

theorem mem_ownedTargets (references : db.References addresses)
    (loaded : loadExistingTransactionSnapshot addresses db key = .ok (some before))
    (owned : (∃ row ∈ db.inputsOf key, row.addressId = addressId) ∨
      ∃ row ∈ db.outputsOf key, row.addressId = addressId) :
    addressId ∈ before.ownedTargets.addressIds := by
  obtain ⟨_, inputs, outputs⟩ := loadExistingTransactionSnapshot_eq_some loaded
  have inputRows := map_fst_of_joinAccounts
    (fun row member => references.inputs row (mem_inputsOf.mp member).1) inputs
  have outputRows := map_fst_of_joinAccounts
    (fun row member => references.outputs row (mem_outputsOf.mp member).1) outputs
  unfold ExistingTransactionSnapshot.ownedTargets
  rw [List.mem_toFinset, List.mem_append]
  rcases owned with ⟨row, member, isAddress⟩ | ⟨row, member, isAddress⟩
  · left
    rw [← inputRows, List.mem_map] at member
    obtain ⟨joined, inSnapshot, rfl⟩ := member
    exact List.mem_map.mpr ⟨joined, inSnapshot, isAddress⟩
  · right
    rw [← outputRows, List.mem_map] at member
    obtain ⟨joined, inSnapshot, rfl⟩ := member
    exact List.mem_map.mpr ⟨joined, inSnapshot, isAddress⟩

theorem not_contradicts_of_spared {current : Option ExistingTransactionSnapshot}
    (confirmed : before.chain.status = .confirmed)
    (owner : addressId ∈ before.ownedTargets.addressIds)
    (spared : addressId ∉ (coverageInvalidationForChange (some before) current).addressIds) :
    contradicts before current = false := by
  by_contra contradicted
  apply spared
  unfold coverageInvalidationForChange
  rw [Option.filter_some, if_pos (decide_eq_true confirmed)]
  dsimp only
  rw [if_pos (Bool.not_eq_false _ ▸ contradicted)]
  cases current with
  | none => exact owner
  | some after => exact Finset.mem_union_left _ owner

theorem sameHistory_of_not_contradicts {current : Option ExistingTransactionSnapshot}
    (references : db.References addresses) (afterReferences : after.References addresses)
    (loaded : loadExistingTransactionSnapshot addresses db key = .ok (some before))
    (reloaded : loadExistingTransactionSnapshot addresses after key = .ok current)
    (confirmed : before.chain.status = .confirmed)
    (agrees : contradicts before current = false) : SameHistory key db after := by
  cases current with
  | none => cases agrees
  | some now =>
    obtain ⟨chain, inputs, outputs⟩ := loadExistingTransactionSnapshot_eq_some loaded
    obtain ⟨chainNow, inputsNow, outputsNow⟩ := loadExistingTransactionSnapshot_eq_some reloaded
    simp only [contradicts, Bool.or_eq_false_iff, decide_eq_false_iff_not, ne_eq,
      Decidable.not_not] at agrees
    obtain ⟨⟨⟨⟨⟨⟨⟨⟨status, _⟩, height⟩, hash⟩, time⟩, feeLo⟩, feeHi⟩, sameInputs⟩,
      sameOutputs⟩ := agrees
    have history : before.chain.history = now.chain.history := by
      unfold ChainTransactionRow.history
      rw [confirmed, status, height, hash, time, feeLo, feeHi]
    refine ⟨?_, ?_, ?_⟩
    · unfold TransactionTables.historyOf
      rw [chain, chainNow, Option.map_some, Option.map_some, history]
    · rw [← map_fst_of_joinAccounts
        (fun row member => references.inputs row (mem_inputsOf.mp member).1) inputs,
        ← map_fst_of_joinAccounts
          (fun row member => afterReferences.inputs row (mem_inputsOf.mp member).1) inputsNow,
        sameInputs]
    · rw [← map_fst_of_joinAccounts
        (fun row member => references.outputs row (mem_outputsOf.mp member).1) outputs,
        ← map_fst_of_joinAccounts
          (fun row member => afterReferences.outputs row (mem_outputsOf.mp member).1) outputsNow,
        sameOutputs]

end Contradiction

/-! ## Runs -/

section Runs

variable {toRfc3339 : ℤ → String} {addresses : List AddressRow} {assetId : SyncedAssetId}
  {network : Network} {addressId : String}

theorem keepsHistory_of_apply {record : SyncTransactionRecord} {db : TransactionTables}
    {outcome : ReconcileOutcome} (unique : db.Unique) (references : db.References addresses)
    (done : applyTransactionReconciliation toRfc3339 addresses assetId network record db =
      .ok outcome)
    (spared : addressId ∉ outcome.coverageInvalidation.addressIds) :
    KeepsHistory addressId db outcome.tables := by
  obtain ⟨_, isTables, existing, current, loaded, reloaded, isTargets⟩ :=
    of_applyTransactionReconciliation done
  rw [isTargets] at spared
  rw [isTables] at reloaded ⊢
  intro key owns
  by_cases own : key = record.key assetId network
  · obtain ⟨⟨history, isHistory, confirmed⟩, owned⟩ := owns
    obtain ⟨chain, isChain, rfl⟩ := Option.map_eq_some_iff.mp isHistory
    cases existing with
    | none =>
      rw [own, find_eq_none_of_load loaded] at isChain
      cases isChain
    | some before =>
      have sameChain := (loadExistingTransactionSnapshot_eq_some loaded).1
      rw [← own, isChain] at sameChain
      have stillConfirmed : before.chain.status = .confirmed := by
        rw [← Option.some.inj sameChain]
        exact confirmed
      have owner := mem_ownedTargets references loaded (own ▸ owned)
      have agrees := not_contradicts_of_spared stillConfirmed owner spared
      rw [own]
      exact sameHistory_of_not_contradicts references
        (references_writtenTables unique references) loaded reloaded stillConfirmed agrees
  · exact sameHistory_of_other own

/-- The constraints of the schema: unique keys and references to tracked addresses. -/
structure TransactionTables.Constrained (addresses : List AddressRow) (db : TransactionTables) :
    Prop where
  unique : db.Unique
  references : db.References addresses

theorem constrained_of_apply {record : SyncTransactionRecord} {db : TransactionTables}
    {outcome : ReconcileOutcome} (constrained : db.Constrained addresses)
    (done : applyTransactionReconciliation toRfc3339 addresses assetId network record db =
      .ok outcome) : outcome.tables.Constrained addresses := by
  rw [(of_applyTransactionReconciliation done).2.1]
  exact ⟨unique_writtenTables constrained.unique,
    references_writtenTables constrained.unique constrained.references⟩

theorem CommittedRun.constrained {records : List SyncTransactionRecord}
    {db tables : TransactionTables} {targets : CoverageInvalidationTargets}
    (run : CommittedRun toRfc3339 addresses assetId network records db tables targets)
    (constrained : db.Constrained addresses) : tables.Constrained addresses :=
  run.invariant (fun _ _ _ _ before done => constrained_of_apply before done) constrained

theorem CommittedRun.keepsHistory {records : List SyncTransactionRecord}
    {db tables : TransactionTables} {targets : CoverageInvalidationTargets}
    (run : CommittedRun toRfc3339 addresses assetId network records db tables targets)
    (constrained : db.Constrained addresses) (spared : addressId ∉ targets.addressIds) :
    KeepsHistory addressId db tables := by
  induction run with
  | nil db => exact KeepsHistory.refl db
  | cons committed _ ih =>
    obtain ⟨first, later⟩ := not_or.mp (mt Finset.mem_union.mpr spared)
    exact (keepsHistory_of_apply constrained.unique constrained.references committed first).trans
      (ih (constrained_of_apply constrained committed) later)

variable {Proof : Type} {state : CoverageState Proof}

theorem invalidateMempoolHistoryCoverage_proof (targets : CoverageInvalidationTargets) :
    (invalidateMempoolHistoryCoverage targets none state).1.historyProof addressId =
      if addressId ∈ targets.addressIds then none else state.historyProof addressId := by
  unfold invalidateMempoolHistoryCoverage
  split <;> rename_i nothing
  · simp [nothing.1]
  · rfl

theorem invalidateMempoolHistoryCoverage_tables (targets : CoverageInvalidationTargets)
    (fault : Option DbError) :
    (invalidateMempoolHistoryCoverage targets fault state).1.tables = state.tables := by
  unfold invalidateMempoolHistoryCoverage
  split
  · rfl
  · split <;> rfl

theorem reconcileMempoolTransactions_state (call : ReconcileCall) :
    let reconciled := reconcileAddressTransactionsPreservingInvalidation toRfc3339 addresses
      call.assetId call.network call.faults call.records state.tables
    (reconcileMempoolTransactions toRfc3339 addresses call state).1 =
      (invalidateMempoolHistoryCoverage reconciled.2.1.coverageInvalidation call.invalidationFault
        { state with tables := reconciled.1 }).1 := by
  intro reconciled
  change (match invalidateMempoolHistoryCoverage reconciled.2.1.coverageInvalidation
    call.invalidationFault { state with tables := reconciled.1 }, reconciled.2.2 with
    | (state, some error), _ => (state, Except.error _)
    | (state, none), some error => (state, Except.error _)
    | (state, none), none => (state, Except.ok _)).1 = _
  cases invalidateMempoolHistoryCoverage reconciled.2.1.coverageInvalidation
    call.invalidationFault { state with tables := reconciled.1 } with
  | mk after error =>
    cases error with
    | some error => rfl
    | none => cases reconciled.2.2 <;> rfl

theorem reconcileMempoolTransactions_constrained {call : ReconcileCall}
    (constrained : state.tables.Constrained addresses) :
    (reconcileMempoolTransactions toRfc3339 addresses call state).1.tables.Constrained
      addresses := by
  obtain ⟨committed, _, _, run, _⟩ := reconcileAddressTransactions_committed toRfc3339 addresses
    call.assetId call.network call.faults call.records state.tables
  rw [reconcileMempoolTransactions_state, invalidateMempoolHistoryCoverage_tables]
  exact run.constrained constrained

theorem reconcileMempoolTransactions_keeps {call : ReconcileCall}
    (constrained : state.tables.Constrained addresses) (writes : call.invalidationFault = none)
    (held : (reconcileMempoolTransactions toRfc3339 addresses call state).1.historyProof
      addressId ≠ none) :
    state.historyProof addressId ≠ none ∧
      KeepsHistory addressId state.tables
        (reconcileMempoolTransactions toRfc3339 addresses call state).1.tables := by
  obtain ⟨committed, _, _, run, _⟩ := reconcileAddressTransactions_committed toRfc3339 addresses
    call.assetId call.network call.faults call.records state.tables
  rw [reconcileMempoolTransactions_state, writes, invalidateMempoolHistoryCoverage_proof] at held
  rw [reconcileMempoolTransactions_state, invalidateMempoolHistoryCoverage_tables]
  split at held
  · exact absurd rfl held
  · rename_i spared
    exact ⟨held, run.keepsHistory constrained spared⟩

theorem reconcileCalls_keeps {calls : List ReconcileCall}
    (constrained : state.tables.Constrained addresses)
    (writes : ∀ call ∈ calls, call.invalidationFault = none)
    (held : (reconcileCalls toRfc3339 addresses calls state).historyProof addressId ≠ none) :
    state.historyProof addressId ≠ none ∧
      KeepsHistory addressId state.tables
        (reconcileCalls toRfc3339 addresses calls state).tables := by
  induction calls generalizing state with
  | nil => exact ⟨held, KeepsHistory.refl _⟩
  | cons call rest ih =>
    rw [List.forall_mem_cons] at writes
    obtain ⟨heldAfter, later⟩ :=
      ih (reconcileMempoolTransactions_constrained constrained) writes.2 held
    obtain ⟨heldBefore, first⟩ :=
      reconcileMempoolTransactions_keeps constrained writes.1 heldAfter
    exact ⟨heldBefore, first.trans later⟩

end Runs

/-! ## Surviving proofs -/

section Surviving

variable {toRfc3339 : ℤ → String} {addresses : List AddressRow} {Proof : Type}

/-- A confirmed transaction of an address whose proof survives any calls is stored with the same
status, block, fee, inputs and outputs. -/
theorem surviving_proof_keeps_confirmed_history {calls : List ReconcileCall}
    {state : CoverageState Proof} (constrained : state.tables.Constrained addresses)
    (writes : ∀ call ∈ calls, call.invalidationFault = none) {addressId : String}
    (held : (reconcileCalls toRfc3339 addresses calls state).historyProof addressId ≠ none)
    {chain : ChainTransactionRow} (stored : chain ∈ state.tables.chainTransactions)
    (confirmed : chain.status = .confirmed)
    (owned : (∃ row ∈ state.tables.transactionInputs,
        row.txKey = chain.key ∧ row.addressId = addressId) ∨
      ∃ row ∈ state.tables.transactionOutputs,
        row.txKey = chain.key ∧ row.addressId = addressId) :
    let after := (reconcileCalls toRfc3339 addresses calls state).tables
    (∃ kept ∈ after.chainTransactions, kept.key = chain.key ∧ kept.history = chain.history) ∧
      (∀ row, row.txKey = chain.key →
        (row ∈ state.tables.transactionInputs ↔ row ∈ after.transactionInputs)) ∧
      ∀ row, row.txKey = chain.key →
        (row ∈ state.tables.transactionOutputs ↔ row ∈ after.transactionOutputs) := by
  intro after
  have found := (find_key_eq_some_iff constrained.unique.chainTransactions).mpr stored
  have history : state.tables.historyOf chain.key = some chain.history := by
    unfold TransactionTables.historyOf
    rw [found, Option.map_some]
  have owner : (∃ row ∈ state.tables.inputsOf chain.key, row.addressId = addressId) ∨
      ∃ row ∈ state.tables.outputsOf chain.key, row.addressId = addressId := by
    apply owned.imp
    · rintro ⟨row, member, ofChain, isAddress⟩
      exact ⟨row, mem_inputsOf.mpr ⟨member, ofChain⟩, isAddress⟩
    · rintro ⟨row, member, ofChain, isAddress⟩
      exact ⟨row, mem_outputsOf.mpr ⟨member, ofChain⟩, isAddress⟩
  have same := (reconcileCalls_keeps constrained writes held).2 chain.key
    ⟨⟨chain.history, history, confirmed⟩, owner⟩
  refine ⟨?_, ?_, ?_⟩
  · have kept := same.chain
    rw [history] at kept
    obtain ⟨row, isRow, isHistory⟩ := Option.map_eq_some_iff.mp kept.symm
    exact ⟨row, mem_of_find isRow, find_eq_some_key isRow, isHistory⟩
  · intro row ofChain
    have rows := congrArg (row ∈ ·) same.inputs
    simpa only [mem_inputsOf, ofChain, and_true, eq_iff_iff] using rows
  · intro row ofChain
    have rows := congrArg (row ∈ ·) same.outputs
    simpa only [mem_outputsOf, ofChain, and_true, eq_iff_iff] using rows

end Surviving

/-! ### A run -/

/-- One tracked address. -/
def receivingAddress : AddressRow where
  id := "address-1"
  accountId := some "account-1"
  assetId := .bitcoin
  network := .mainnet
  address := "bc1qreceive"
  addressNormalized := "bc1qreceive"

/-- A confirmed payment of it. -/
def paymentRecord : SyncTransactionRecord where
  txHash := "aa"
  status := .confirmed
  blockHeight := some 100
  blockHash := some "b100"
  blockTime := some 1700000000
  feeAmount := some 5
  inputs := []
  outputs := [{
    outputIndex := 0
    rawAddress := some "bc1qreceive"
    scriptPubkeyHex := "0014"
    valueAmount := 50 }]

/-- The payment, stored. -/
def paidTables : TransactionTables where
  chainTransactions := [{
    key := { assetId := .bitcoin, network := .mainnet, txHash := "aa" }
    status := .confirmed
    blockHeight := some 100
    blockHash := some "b100"
    blockTime := some "2023-11-14T22:13:20+00:00"
    feeAmountLo := some 5
    feeAmountHi := some 0
    nonce := none }]
  transactionInputs := []
  transactionOutputs := [{
    txKey := { assetId := .bitcoin, network := .mainnet, txHash := "aa" }
    outputIndex := 0
    addressId := "address-1"
    rawAddress := some "bc1qreceive"
    scriptPubkeyHex := "0014"
    valueAmountHi := 0
    valueAmountLo := 50 }]
  utxos := []
  accountTransfers := []

/-- The payment comes again, and the record after it fails. -/
def repeatedCall : ReconcileCall where
  assetId := .bitcoin
  network := .mainnet
  records := [paymentRecord, { paymentRecord with txHash := "bb" }]
  faults := {
    record := fun _ record => if record.txHash = "bb" then some ⟨"database is locked"⟩ else none
    lock := fun _ => none }
  invalidationFault := none

def provedState : CoverageState ℕ where
  tables := paidTables
  historyProof := fun addressId => if addressId = "address-1" then some 1 else none
  closingBalances := fun _ => []

theorem paidTables_constrained : paidTables.Constrained [receivingAddress] where
  unique := by
    refine ⟨?_, ?_, ?_, ?_, ?_⟩ <;> unfold Keyed <;> decide +kernel
  references := by
    refine ⟨?_, ?_⟩ <;> decide +kernel

theorem surviving_proof_keeps_confirmed_history_repeated :
    ∃ kept ∈ (reconcileCalls (fun _ => "2023-11-14T22:13:20+00:00") [receivingAddress]
        [repeatedCall] provedState).tables.chainTransactions,
      kept.key.txHash = "aa" ∧ kept.status = .confirmed ∧ kept.blockHeight = some 100 := by
  have held : (reconcileCalls (fun _ => "2023-11-14T22:13:20+00:00") [receivingAddress]
      [repeatedCall] provedState).historyProof "address-1" ≠ none := by
    decide +kernel
  obtain ⟨⟨kept, member, isKey, history⟩, _⟩ := surviving_proof_keeps_confirmed_history
    paidTables_constrained (by decide +kernel) held
    (List.mem_singleton.mpr rfl) rfl (by decide +kernel)
  exact ⟨kept, member, congrArg TxKey.txHash isKey, congrArg ChainHistory.status history,
    congrArg ChainHistory.blockHeight history⟩

end Bitgarth.Store
