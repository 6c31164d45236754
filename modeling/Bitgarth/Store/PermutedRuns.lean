import Bitgarth.Store.CoverageSurvival
import Bitgarth.Store.LastWrites

/-! # Records in another order

Records of distinct hashes write different rows. Whether each of them commits does not depend on
the others, so they commit in every order; and every order leaves the same rows, the links of
the unspent outputs apart.
-/

namespace Bitgarth.Store

open Amounts Ledger KeyedTable Fallible

open Sync (SyncedAssetId)

/-! ## Commits -/

section Commits

variable {toRfc3339 : ℤ → String} {addresses : List AddressRow} {assetId : SyncedAssetId}
  {network : Network} {record : SyncTransactionRecord} {db other : TransactionTables}

/-- The first row of the address id, if there is one, has an account. -/
def Joins (addresses : List AddressRow) (addressId : String) : Prop :=
  ∀ address ∈ addresses.find? fun address => address.id = addressId, address.accountId ≠ none

theorem exists_joinAccounts {Row : Type} {addressId : Row → String} {rows : List Row} :
    (∃ joined, joinAccounts addresses addressId rows = .ok joined) ↔
      ∀ row ∈ rows, Joins addresses (addressId row) := by
  induction rows with
  | nil => exact iff_of_true ⟨[], rfl⟩ fun _ member => absurd member List.not_mem_nil
  | cons row rest ih =>
    rw [List.forall_mem_cons, ← ih, joinAccounts]
    unfold Joins
    cases found : addresses.find? fun address => address.id = addressId row with
    | none => simp
    | some address =>
      cases account : address.accountId with
      | none => simp [account]
      | some accountId =>
        cases joinAccounts addresses addressId rest <;> simp [account]

/-- The snapshot of a transaction can be loaded. -/
def SnapshotLoads (addresses : List AddressRow) (db : TransactionTables) (key : TxKey) : Prop :=
  (find ChainTransactionRow.key db.chainTransactions key).isSome →
    (∀ row ∈ db.transactionInputs, row.txKey = key → Joins addresses row.addressId) ∧
      ∀ row ∈ db.transactionOutputs, row.txKey = key → Joins addresses row.addressId

theorem exists_loadExistingTransactionSnapshot {key : TxKey} :
    (∃ snapshot, loadExistingTransactionSnapshot addresses db key = .ok snapshot) ↔
      SnapshotLoads addresses db key := by
  unfold loadExistingTransactionSnapshot SnapshotLoads
  cases find ChainTransactionRow.key db.chainTransactions key with
  | none => simp
  | some chain =>
    simp only [exists_bind_eq_ok, pure_eq_ok, exists_eq', and_true, exists_and_right,
      exists_joinAccounts, mem_inputsOf, mem_outputsOf, and_imp, Option.isSome_some,
      forall_const]

theorem exists_applyTransactionReconciliation :
    (∃ outcome, applyTransactionReconciliation toRfc3339 addresses assetId network record db =
        .ok outcome) ↔
      SnapshotLoads addresses db (record.key assetId network) ∧
        RecordAccepted addresses assetId network record ∧
        SnapshotLoads addresses (writtenTables toRfc3339 addresses assetId network record db)
          (record.key assetId network) := by
  rw [← exists_loadExistingTransactionSnapshot, ← exists_loadExistingTransactionSnapshot]
  constructor
  · rintro ⟨outcome, done⟩
    obtain ⟨accepted, isTables, existing, current, loaded, reloaded, _⟩ :=
      of_applyTransactionReconciliation done
    exact ⟨⟨existing, loaded⟩, accepted, ⟨current, isTables ▸ reloaded⟩⟩
  · rintro ⟨⟨existing, loaded⟩, accepted, ⟨current, reloaded⟩⟩
    unfold applyTransactionReconciliation
    have wrote := (@writeTransaction_eq_ok toRfc3339 addresses assetId network record db _ _).mpr
      ⟨accepted, rfl, rfl⟩
    simp only [loaded, wrote, reloaded, bind, Except.bind]
    split <;> exact ⟨_, rfl⟩

theorem isOrphan_writtenTables (unique : db.Unique) (otherUnique : other.Unique)
    (same : db.SameAt other (record.key assetId network)) :
    (writtenTables toRfc3339 addresses assetId network record db).isOrphan
        (record.key assetId network) =
      (writtenTables toRfc3339 addresses assetId network record other).isOrphan
        (record.key assetId network) := by
  have byMembers : ∀ tables : TransactionTables, tables.isOrphan (record.key assetId network) =
      true ↔ (∀ row, row.txKey = record.key assetId network → row ∉ tables.transactionInputs) ∧
        (∀ row, row.txKey = record.key assetId network → row ∉ tables.transactionOutputs) ∧
        (tables.accountTransfers.filter fun row =>
          row.txKey = record.key assetId network) = [] := by
    intro tables
    unfold TransactionTables.isOrphan
    simp only [Bool.and_eq_true, List.all_eq_true, decide_eq_true_eq, List.filter_eq_nil_iff,
      and_assoc]
    refine and_congr ?_ (and_congr ?_ Iff.rfl)
    · exact ⟨fun none row own member => none row member own,
        fun none row member own => none row own member⟩
    · exact ⟨fun none row own member => none row member own,
        fun none row member own => none row own member⟩
  have left := @writtenBy_writtenTables toRfc3339 addresses assetId network record db unique
  have right :=
    @writtenBy_writtenTables toRfc3339 addresses assetId network record other otherUnique
  have transfers : ∀ tables : TransactionTables,
      ((writtenTables toRfc3339 addresses assetId network record tables).accountTransfers.filter
        fun row => row.txKey = record.key assetId network) =
      ((tables.accountTransfers.filter fun row => row.txKey = record.key assetId network).filter
        fun row => ¬ (row.txKey = record.key assetId network ∧ row.fromAddressId = none ∧
          row.toAddressId = none)) := by
    intro tables
    rw [writtenTables_transfers, List.filter_filter, List.filter_filter]
    simp only [Bool.and_comm]
  rw [Bool.eq_iff_iff, byMembers, byMembers, transfers, transfers, same.transfers]
  refine and_congr (forall₂_congr fun row own => ?_) (and_congr_left' ?_)
  · rw [left.inputs row own, right.inputs row own]
  · refine forall₂_congr fun row own => ?_
    rw [left.outputs row own, right.outputs row own]

theorem exists_apply_of_sameAt (unique : db.Unique) (otherUnique : other.Unique)
    (same : db.SameAt other (record.key assetId network))
    (commits : ∃ outcome,
      applyTransactionReconciliation toRfc3339 addresses assetId network record db = .ok outcome) :
    ∃ outcome, applyTransactionReconciliation toRfc3339 addresses assetId network record other =
      .ok outcome := by
  rw [exists_applyTransactionReconciliation] at commits ⊢
  obtain ⟨loads, accepted, reloads⟩ := commits
  have left := @writtenBy_writtenTables toRfc3339 addresses assetId network record db unique
  have right :=
    @writtenBy_writtenTables toRfc3339 addresses assetId network record other otherUnique
  refine ⟨?_, accepted, ?_⟩
  · intro found
    obtain ⟨inputs, outputs⟩ := loads (same.chain ▸ found)
    exact ⟨fun row member own => inputs row ((same.mem_inputs own).mpr member) own,
      fun row member own => outputs row ((same.mem_outputs own).mpr member) own⟩
  · intro found
    rw [right.chain, ← isOrphan_writtenTables unique otherUnique same, ← left.chain] at found
    obtain ⟨inputs, outputs⟩ := reloads found
    refine ⟨fun row member own => inputs row ?_ own, fun row member own => outputs row ?_ own⟩
    · exact (left.inputs row own).mpr ((right.inputs row own).mp member)
    · exact (left.outputs row own).mpr ((right.outputs row own).mp member)

end Commits

/-! ## Runs -/

section Runs

variable {toRfc3339 : ℤ → String} {addresses : List AddressRow} {assetId : SyncedAssetId}
  {network : Network} {records permuted : List SyncTransactionRecord}
  {db left right tables : TransactionTables} {targets : CoverageInvalidationTargets}

/-- No two records have one hash. -/
def DistinctHashes (records : List SyncTransactionRecord) : Prop :=
  (records.map SyncTransactionRecord.txHash).Nodup

theorem DistinctHashes.perm (distinct : DistinctHashes records) (perm : permuted.Perm records) :
    DistinctHashes permuted :=
  (perm.map SyncTransactionRecord.txHash).nodup_iff.mpr distinct

theorem DistinctHashes.of_cons {record : SyncTransactionRecord}
    (distinct : DistinctHashes (record :: records)) :
    (∀ other ∈ records, other.key assetId network ≠ record.key assetId network) ∧
      DistinctHashes records := by
  obtain ⟨fresh, rest⟩ := List.nodup_cons.mp distinct
  refine ⟨?_, rest⟩
  intro other member same
  exact fresh (List.mem_map.mpr ⟨other, member, congrArg TxKey.txHash same⟩)

theorem DistinctHashes.last {record : SyncTransactionRecord} (distinct : DistinctHashes records)
    (member : record ∈ records) :
    (records.reverse.find? fun other =>
      other.key assetId network = record.key assetId network) = some record := by
  have keyed : Keyed (SyncTransactionRecord.key · assetId network) records.reverse := by
    have hashes : ((records.map SyncTransactionRecord.txHash).map
        fun txHash => ({ assetId, network, txHash } : TxKey)).Nodup :=
      List.Nodup.map (fun _ _ same => congrArg TxKey.txHash same) distinct
    unfold Keyed
    rw [List.map_reverse, List.nodup_reverse]
    rw [List.map_map] at hashes
    exact hashes
  exact (find_eq_some_iff keyed).mpr ⟨List.mem_reverse.mpr member, rfl⟩

theorem exists_committedRun (unique : db.Unique) (distinct : DistinctHashes records) :
    (∃ tables targets,
        CommittedRun toRfc3339 addresses assetId network records db tables targets) ↔
      ∀ record ∈ records, ∃ outcome,
        applyTransactionReconciliation toRfc3339 addresses assetId network record db =
          .ok outcome := by
  induction records generalizing db with
  | nil => exact iff_of_true ⟨db, _, .nil db⟩ fun _ member => absurd member List.not_mem_nil
  | cons record rest ih =>
    obtain ⟨others, restDistinct⟩ := @DistinctHashes.of_cons assetId network _ _ distinct
    rw [List.forall_mem_cons]
    have afterwards : ∀ outcome,
        applyTransactionReconciliation toRfc3339 addresses assetId network record db =
          .ok outcome → outcome.tables.Unique ∧
            ∀ other ∈ rest, db.SameAt outcome.tables (other.key assetId network) := by
      intro outcome done
      rw [(of_applyTransactionReconciliation done).2.1]
      exact ⟨unique_writtenTables unique,
        fun other member => sameAt_writtenTables (others other member)⟩
    constructor
    · rintro ⟨tables, targets, run⟩
      cases run with
      | cons committed later =>
        obtain ⟨nextUnique, same⟩ := afterwards _ committed
        refine ⟨⟨_, committed⟩, fun other member => ?_⟩
        exact exists_apply_of_sameAt nextUnique unique (same other member).symm
          ((ih nextUnique restDistinct).mp ⟨_, _, later⟩ other member)
    · rintro ⟨⟨outcome, committed⟩, commits⟩
      obtain ⟨nextUnique, same⟩ := afterwards _ committed
      obtain ⟨tables, targets, later⟩ := (ih nextUnique restDistinct).mpr
        fun other member => exists_apply_of_sameAt unique nextUnique (same other member)
          (commits other member)
      exact ⟨tables, _, .cons committed later⟩

theorem CommittedRun.permute (unique : db.Unique) (distinct : DistinctHashes records)
    (perm : permuted.Perm records)
    (run : CommittedRun toRfc3339 addresses assetId network records db tables targets) :
    ∃ tables targets,
      CommittedRun toRfc3339 addresses assetId network permuted db tables targets := by
  rw [exists_committedRun unique (distinct.perm perm)]
  intro record member
  exact (exists_committedRun unique distinct).mp ⟨tables, targets, run⟩ record
    (perm.mem_iff.mp member)

theorem CommittedRun.transfers
    (run : CommittedRun toRfc3339 addresses assetId network records db tables targets) :
    tables.accountTransfers = db.accountTransfers.filter fun row =>
      ¬ ((∃ record ∈ records, row.txKey = record.key assetId network) ∧
        row.fromAddressId = none ∧ row.toAddressId = none) := by
  induction run with
  | nil db => simp
  | cons committed _ ih =>
    rw [ih, (of_applyTransactionReconciliation committed).2.1, writtenTables_transfers,
      List.filter_filter]
    apply List.filter_congr
    intro row _
    rw [Bool.eq_iff_iff]
    simp only [List.exists_mem_cons_iff, Bool.and_eq_true, decide_eq_true_eq]
    rw [or_and_right, not_or, and_comm]

/-- The rows two orders leave, the unspent outputs apart. -/
structure SameTransactions (left right : TransactionTables) : Prop where
  chain : ∀ key, find ChainTransactionRow.key left.chainTransactions key =
    find ChainTransactionRow.key right.chainTransactions key
  inputs : ∀ row, row ∈ left.transactionInputs ↔ row ∈ right.transactionInputs
  outputs : ∀ row, row ∈ left.transactionOutputs ↔ row ∈ right.transactionOutputs
  transfers : left.accountTransfers = right.accountTransfers

theorem CommittedRun.sameTransactions {leftTargets rightTargets : CoverageInvalidationTargets}
    (unique : db.Unique) (distinct : DistinctHashes records) (perm : permuted.Perm records)
    (leftRun : CommittedRun toRfc3339 addresses assetId network records db left leftTargets)
    (rightRun :
      CommittedRun toRfc3339 addresses assetId network permuted db right rightTargets) :
    SameTransactions left right := by
  have transfers : left.accountTransfers = right.accountTransfers := by
    rw [leftRun.transfers, rightRun.transfers]
    simp only [perm.mem_iff]
  have either : ∀ key, (∃ record, WrittenBy toRfc3339 addresses key record left ∧
      WrittenBy toRfc3339 addresses key record right) ∨ left.SameAt right key := by
    intro key
    by_cases written : ∃ record ∈ records, record.key assetId network = key
    · obtain ⟨record, member, rfl⟩ := written
      exact .inl ⟨record, leftRun.writtenBy unique (distinct.last member),
        rightRun.writtenBy unique ((distinct.perm perm).last (perm.mem_iff.mpr member))⟩
    · have others : ∀ record ∈ records, key ≠ record.key assetId network :=
        fun record member isKey => written ⟨record, member, isKey.symm⟩
      exact .inr ((leftRun.sameAt others).symm.trans
        (rightRun.sameAt fun record member => others record (perm.mem_iff.mp member)))
  have inputs : ∀ row, row ∈ left.transactionInputs ↔ row ∈ right.transactionInputs := by
    intro row
    rcases either row.txKey with ⟨record, leftWritten, rightWritten⟩ | same
    · rw [leftWritten.inputs row rfl, rightWritten.inputs row rfl]
    · exact same.mem_inputs rfl
  have outputs : ∀ row, row ∈ left.transactionOutputs ↔ row ∈ right.transactionOutputs := by
    intro row
    rcases either row.txKey with ⟨record, leftWritten, rightWritten⟩ | same
    · rw [leftWritten.outputs row rfl, rightWritten.outputs row rfl]
    · exact same.mem_outputs rfl
  refine ⟨?_, inputs, outputs, transfers⟩
  intro key
  rcases either key with ⟨record, leftWritten, rightWritten⟩ | same
  · have orphans : left.isOrphan key = right.isOrphan key := by
      unfold TransactionTables.isOrphan
      rw [transfers, Bool.eq_iff_iff]
      simp only [Bool.and_eq_true, List.all_eq_true, inputs, outputs]
    rw [leftWritten.chain, rightWritten.chain, orphans]
  · exact same.chain

end Runs

end Bitgarth.Store
