import Bitgarth.Store.ReconcileRuns

/-! # The last record of a transaction

A run of committed records leaves the rows of a transaction as the last record of its hash wrote
them. Transactions of no record keep their rows, and so do their unspent outputs but for links.
-/

namespace Bitgarth.Store

open Amounts Ledger KeyedTable Fallible

open Sync (SyncedAssetId)

/-! ## The rows of one transaction -/

/-- Two states hold the same rows of a transaction, its unspent outputs apart. -/
structure TransactionTables.SameAt (left right : TransactionTables) (key : TxKey) : Prop where
  chain : find ChainTransactionRow.key left.chainTransactions key =
    find ChainTransactionRow.key right.chainTransactions key
  inputs : (left.transactionInputs.filter fun row => row.txKey = key) =
    right.transactionInputs.filter fun row => row.txKey = key
  outputs : (left.transactionOutputs.filter fun row => row.txKey = key) =
    right.transactionOutputs.filter fun row => row.txKey = key
  transfers : (left.accountTransfers.filter fun row => row.txKey = key) =
    right.accountTransfers.filter fun row => row.txKey = key

/-- The rows of a transaction are those its record wrote. -/
structure WrittenBy (toRfc3339 : ℤ → String) (addresses : List AddressRow) (key : TxKey)
    (record : SyncTransactionRecord) (db : TransactionTables) : Prop where
  chain : find ChainTransactionRow.key db.chainTransactions key =
    if db.isOrphan key = true then none else some (chainTransactionRow toRfc3339 key record)
  inputs : ∀ row, row.txKey = key →
    (row ∈ db.transactionInputs ↔ inputAt addresses key record.inputs row.inputIndex = some row)
  outputs : ∀ row, row.txKey = key →
    (row ∈ db.transactionOutputs ↔
      outputAt addresses key record.outputs row.outputIndex = some row)

namespace TransactionTables.SameAt

variable {left middle right : TransactionTables} {key : TxKey}

theorem refl (db : TransactionTables) (key : TxKey) : db.SameAt db key := ⟨rfl, rfl, rfl, rfl⟩

theorem symm (same : left.SameAt right key) : right.SameAt left key :=
  ⟨same.chain.symm, same.inputs.symm, same.outputs.symm, same.transfers.symm⟩

theorem trans (first : left.SameAt middle key) (second : middle.SameAt right key) :
    left.SameAt right key :=
  ⟨first.chain.trans second.chain, first.inputs.trans second.inputs,
    first.outputs.trans second.outputs, first.transfers.trans second.transfers⟩

theorem mem_inputs (same : left.SameAt right key) {row : TransactionInputRow}
    (own : row.txKey = key) : row ∈ left.transactionInputs ↔ row ∈ right.transactionInputs := by
  have filtered : row ∈ (left.transactionInputs.filter fun row => row.txKey = key) ↔ _ :=
    iff_of_eq (congrArg (row ∈ ·) same.inputs)
  simpa only [List.mem_filter, own, decide_true, and_true] using filtered

theorem mem_outputs (same : left.SameAt right key) {row : TransactionOutputRow}
    (own : row.txKey = key) : row ∈ left.transactionOutputs ↔ row ∈ right.transactionOutputs := by
  have filtered : row ∈ (left.transactionOutputs.filter fun row => row.txKey = key) ↔ _ :=
    iff_of_eq (congrArg (row ∈ ·) same.outputs)
  simpa only [List.mem_filter, own, decide_true, and_true] using filtered

theorem isOrphan_eq (same : left.SameAt right key) : left.isOrphan key = right.isOrphan key := by
  have byFilters : ∀ db : TransactionTables, db.isOrphan key =
      ((db.transactionInputs.filter fun row => row.txKey = key).isEmpty &&
        (db.transactionOutputs.filter fun row => row.txKey = key).isEmpty &&
        (db.accountTransfers.filter fun row => row.txKey = key).isEmpty) := by
    intro db
    unfold TransactionTables.isOrphan
    rw [Bool.eq_iff_iff]
    simp [List.filter_eq_nil_iff]
  rw [byFilters, byFilters, same.inputs, same.outputs, same.transfers]

end TransactionTables.SameAt

theorem WrittenBy.of_sameAt {toRfc3339 : ℤ → String} {addresses : List AddressRow} {key : TxKey}
    {record : SyncTransactionRecord} {db later : TransactionTables}
    (written : WrittenBy toRfc3339 addresses key record db) (same : db.SameAt later key) :
    WrittenBy toRfc3339 addresses key record later := by
  refine ⟨?_, ?_, ?_⟩
  · rw [← same.chain, ← same.isOrphan_eq]
    exact written.chain
  · intro row own
    exact (same.mem_inputs own).symm.trans (written.inputs row own)
  · intro row own
    exact (same.mem_outputs own).symm.trans (written.outputs row own)

section Step

variable {toRfc3339 : ℤ → String} {addresses : List AddressRow} {assetId : SyncedAssetId}
  {network : Network} {record : SyncTransactionRecord} {db : TransactionTables} {key : TxKey}

theorem sameAt_writtenTables (other : key ≠ record.key assetId network) :
    db.SameAt (writtenTables toRfc3339 addresses assetId network record db) key := by
  have notOwn : ∀ rowKey : TxKey, rowKey = record.key assetId network →
      decide (rowKey = key) = false := by
    intro rowKey own
    rw [own]
    exact decide_eq_false (Ne.symm other)
  refine ⟨?_, ?_, ?_, ?_⟩
  · rw [find_writtenTables_chain, if_neg other]
  · rw [filter_writtenTables_inputs fun row own => notOwn row.txKey own]
  · rw [filter_writtenTables_outputs fun row own => notOwn row.txKey own]
  · rw [writtenTables_transfers, List.filter_filter]
    apply List.filter_congr
    intro row _
    by_cases own : row.txKey = key
    · simp [own, other]
    · simp [own]

theorem writtenBy_writtenTables (unique : db.Unique) :
    WrittenBy toRfc3339 addresses (record.key assetId network) record
      (writtenTables toRfc3339 addresses assetId network record db) := by
  refine ⟨?_, ?_, ?_⟩
  · rw [find_writtenTables_chain, if_pos rfl]
  · intro row own
    rw [mem_writtenTables_inputs unique, if_pos own, own]
  · intro row own
    rw [mem_writtenTables_outputs unique, if_pos own, own]

end Step

/-! ## Runs -/

section Runs

variable {toRfc3339 : ℤ → String} {addresses : List AddressRow} {assetId : SyncedAssetId}
  {network : Network} {records first second : List SyncTransactionRecord}
  {db tables : TransactionTables} {targets : CoverageInvalidationTargets} {key : TxKey}

theorem CommittedRun.unique
    (run : CommittedRun toRfc3339 addresses assetId network records db tables targets)
    (unique : db.Unique) : tables.Unique := by
  apply run.invariant _ unique
  intro record _ before outcome unique committed
  rw [(of_applyTransactionReconciliation committed).2.1]
  exact unique_writtenTables unique

theorem CommittedRun.accepted
    (run : CommittedRun toRfc3339 addresses assetId network records db tables targets) :
    ∀ record ∈ records, RecordAccepted addresses assetId network record := by
  induction run with
  | nil => exact fun record member => absurd member List.not_mem_nil
  | cons committed _ ih =>
    rw [List.forall_mem_cons]
    exact ⟨(of_applyTransactionReconciliation committed).1, ih⟩

/-- A run stops anywhere between two records. -/
theorem CommittedRun.split
    (run : CommittedRun toRfc3339 addresses assetId network (first ++ second) db tables targets) :
    ∃ middle left right,
      CommittedRun toRfc3339 addresses assetId network first db middle left ∧
        CommittedRun toRfc3339 addresses assetId network second middle tables right := by
  induction first generalizing db targets with
  | nil => exact ⟨db, _, _, .nil db, run⟩
  | cons record rest ih =>
    cases run with
    | cons committed later =>
      obtain ⟨middle, left, right, before, after⟩ := ih later
      exact ⟨middle, _, right, .cons committed before, after⟩

/-- What is before and after the commit of one record. -/
theorem CommittedRun.around
    (run : CommittedRun toRfc3339 addresses assetId network records db tables targets)
    (unique : db.Unique) {record : SyncTransactionRecord} (member : record ∈ records) :
    ∃ earlier later before left right, records = earlier ++ record :: later ∧
      CommittedRun toRfc3339 addresses assetId network earlier db before left ∧
      before.Unique ∧ RecordAccepted addresses assetId network record ∧
      CommittedRun toRfc3339 addresses assetId network later
        (writtenTables toRfc3339 addresses assetId network record before) tables right := by
  obtain ⟨earlier, later, rfl⟩ := List.append_of_mem member
  obtain ⟨before, left, _, earlierRun, run⟩ := run.split
  cases run with
  | cons committed laterRun =>
    obtain ⟨accepted, isTables, _⟩ := of_applyTransactionReconciliation committed
    rw [isTables] at laterRun
    exact ⟨earlier, later, before, left, _, rfl, earlierRun, earlierRun.unique unique, accepted,
      laterRun⟩

theorem CommittedRun.sameAt
    (run : CommittedRun toRfc3339 addresses assetId network records db tables targets)
    (other : ∀ record ∈ records, key ≠ record.key assetId network) : db.SameAt tables key := by
  apply run.invariant _ (.refl db key)
  intro record member before outcome same committed
  rw [(of_applyTransactionReconciliation committed).2.1]
  exact same.trans (sameAt_writtenTables (other record member))

theorem CommittedRun.writtenBy
    (run : CommittedRun toRfc3339 addresses assetId network records db tables targets)
    (unique : db.Unique) {record : SyncTransactionRecord}
    (last : (records.reverse.find? fun record => record.key assetId network = key) =
      some record) : WrittenBy toRfc3339 addresses key record tables := by
  obtain ⟨isKey, later, earlier, isRecords, others⟩ := List.find?_eq_some_iff_append.mp last
  obtain rfl := of_decide_eq_true isKey
  have split : records = earlier.reverse ++ ([record] ++ later.reverse) := by
    rw [← List.reverse_reverse records, isRecords]
    simp
  rw [split] at run
  obtain ⟨before, _, _, earlierRun, run⟩ := run.split
  obtain ⟨after, _, _, ownRun, laterRun⟩ := run.split
  cases ownRun with
  | @cons _ _ _ _ outcome _ committed done =>
    cases done
    have kept : outcome.tables.SameAt tables (record.key assetId network) := by
      apply laterRun.sameAt
      intro other member
      have differs := others other (List.mem_reverse.mp member)
      rw [Bool.not_eq_true', decide_eq_false_iff_not] at differs
      exact Ne.symm differs
    apply WrittenBy.of_sameAt _ kept
    rw [(of_applyTransactionReconciliation committed).2.1]
    exact writtenBy_writtenTables (earlierRun.unique unique)

end Runs

end Bitgarth.Store
