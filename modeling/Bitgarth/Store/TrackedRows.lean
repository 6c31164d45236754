import Bitgarth.Store.ChainCleanup
import Bitgarth.Store.CoverageSurvival

/-! # Rows with tracked ends

Reconciliation stores rows of tracked addresses only and cleans up the transaction it wrote, so
every chain row and transfer keeps an end at a tracked address.
-/

namespace Bitgarth.Store

open Amounts Ledger KeyedTable Fallible

open Sync (SyncedAssetId)

/-- An address is tracked. -/
def IsTracked (addresses : List AddressRow) (id : String) : Prop :=
  ∃ address ∈ addresses, address.id = id

section Cleanup

variable {tracked : String → Prop} {before after : TransactionTables} {changed : TxKey}

theorem hasEndAt_of_not_orphan {key : TxKey}
    (inputs : ∀ row ∈ after.transactionInputs, tracked row.addressId)
    (outputs : ∀ row ∈ after.transactionOutputs, tracked row.addressId)
    (transfers : ∀ row ∈ after.accountTransfers, row.EndsAt tracked)
    (left : ¬ after.isOrphan key = true) : after.HasEndAt tracked key := by
  by_contra none
  refine left (isOrphan_iff.mpr ⟨?_, ?_, ?_⟩)
  · intro row member same
    exact none (.inl ⟨row, member, same, inputs row member⟩)
  · intro row member same
    exact none (.inr (.inl ⟨row, member, same, outputs row member⟩))
  · intro row member same
    exact none (.inr (.inr ⟨row, member, same, transfers row member⟩))

/-- The ends of the other transactions stay while one transaction changes. -/
structure KeepsOthers (changed : TxKey) (before after : TransactionTables) : Prop where
  inputs : ∀ row ∈ before.transactionInputs, row.txKey ≠ changed → row ∈ after.transactionInputs
  outputs : ∀ row ∈ before.transactionOutputs, row.txKey ≠ changed →
    row ∈ after.transactionOutputs
  transfers : ∀ row ∈ before.accountTransfers, row.txKey ≠ changed → row ∈ after.accountTransfers
  chain : ∀ row ∈ after.chainTransactions, ¬ after.isOrphan row.key = true ∨
    row.key ≠ changed ∧ row ∈ before.chainTransactions

theorem KeepsOthers.hasEndAt (keeps : KeepsOthers changed before after) {key : TxKey}
    (other : key ≠ changed) (ends : before.HasEndAt tracked key) :
    after.HasEndAt tracked key := by
  rcases ends with ⟨row, member, rfl, held⟩ | ⟨row, member, rfl, held⟩ | ⟨row, member, rfl, held⟩
  · exact .inl ⟨row, keeps.inputs row member other, rfl, held⟩
  · exact .inr (.inl ⟨row, keeps.outputs row member other, rfl, held⟩)
  · exact .inr (.inr ⟨row, keeps.transfers row member other, rfl, held⟩)

theorem KeepsOthers.chain_hasEndAt (keeps : KeepsOthers changed before after)
    (ends : ∀ row ∈ before.chainTransactions, before.HasEndAt tracked row.key)
    (inputs : ∀ row ∈ after.transactionInputs, tracked row.addressId)
    (outputs : ∀ row ∈ after.transactionOutputs, tracked row.addressId)
    (transfers : ∀ row ∈ after.accountTransfers, row.EndsAt tracked) :
    ∀ row ∈ after.chainTransactions, after.HasEndAt tracked row.key := by
  intro row member
  rcases keeps.chain row member with left | ⟨other, stored⟩
  · exact hasEndAt_of_not_orphan inputs outputs transfers left
  · exact keeps.hasEndAt other (ends row stored)

end Cleanup

/-! ## Reconciliation -/

section Steps

variable {toRfc3339 : ℤ → String} {addresses : List AddressRow}
  {rebuild : TransactionTables → String → Except DbError Unit} {step : LedgerStep}
  {db after : TransactionTables}

theorem keepsOthers_bitcoin {step : BitcoinStep} (unique : db.Unique) :
    KeepsOthers (step.record.key step.assetId step.network) db
      (writtenTables toRfc3339 addresses step.assetId step.network step.record db) where
  inputs := by
    intro row member other
    rw [mem_writtenTables_inputs unique, if_neg other]
    exact member
  outputs := by
    intro row member other
    rw [mem_writtenTables_outputs unique, if_neg other]
    exact member
  transfers := by
    intro row member other
    rw [writtenTables_transfers, List.mem_filter, decide_eq_true_eq]
    exact ⟨member, fun own => other own.1⟩
  chain := by
    intro row member
    have found := (find_key_eq_some_iff (unique_writtenTables unique).chainTransactions).mpr member
    rw [find_writtenTables_chain] at found
    split at found
    · split at found
      · cases found
      · rename_i left
        exact .inl left
    · rename_i other
      exact .inr ⟨other, mem_of_find found⟩

theorem tracked_bitcoin {step : BitcoinStep} (unique : db.Unique)
    (owned : db.Tracked (IsTracked addresses)) :
    (writtenTables toRfc3339 addresses step.assetId step.network step.record db).Tracked
      (IsTracked addresses) := by
  obtain ⟨inputs, outputs⟩ := @references_writtenTables toRfc3339 addresses step.assetId
    step.network step.record db unique ⟨owned.inputs, owned.outputs⟩
  have stored : ∀ row ∈ (writtenTables toRfc3339 addresses step.assetId step.network step.record
      db).accountTransfers, row ∈ db.accountTransfers := by
    intro row member
    rw [writtenTables_transfers] at member
    exact (List.mem_filter.mp member).1
  have transfers := fun row member => owned.transfers row (stored row member)
  refine ⟨inputs, outputs, ?_, fun row member => owned.transferEnds row (stored row member), ?_,
    transfers⟩
  · intro row member
    have found := (find_key_eq_some_iff (unique_writtenTables unique).utxos).mpr member
    rw [find_writtenTables_utxos unique] at found
    obtain ⟨source, -, isAddress, fromOld | listed⟩ := utxoAfter_cases found
    · rw [isAddress]
      exact owned.utxos source (mem_of_find fromOld)
    · obtain ⟨output, -, isListed⟩ := List.exists_of_findSome?_eq_some listed
      obtain ⟨addressId, resolved, written⟩ :=
        listedOutput_eq_some.mp (Option.filter_eq_some_iff.mp isListed).1
      rw [isAddress, (utxoRow_spec written).2.1]
      exact resolveOwnedAddressId_mem resolved
  · exact (keepsOthers_bitcoin unique).chain_hasEndAt owned.chain inputs outputs transfers

theorem keepsOthers_account {assetId : SyncedAssetId} {network : Network}
    {record : SyncAccountTransactionRecord} {current : ChainTransactionRow} (unique : db.Unique)
    (isKey : current.key = record.key assetId network) :
    KeepsOthers (record.key assetId network) db
      (accountWrittenTables addresses assetId network record current db) where
  inputs := by
    intro row member _
    unfold accountWrittenTables
    rw [executeChainCleanup_tables.1]
    exact member
  outputs := by
    intro row member _
    unfold accountWrittenTables
    rw [executeChainCleanup_tables.2.1]
    exact member
  transfers := by
    intro row member other
    have kept : row ∈ (accountWrittenTables addresses assetId network record current
        db).accountTransfers.filter fun row => row.txKey ≠ record.key assetId network := by
      unfold accountWrittenTables
      rw [filter_executeChainCleanup_transfers (by simp), filter_retainedTransfers (by simp),
        List.mem_filter, decide_eq_true_eq]
      exact ⟨member, other⟩
    exact (List.mem_filter.mp kept).1
  chain := by
    intro row member
    have found := (find_key_eq_some_iff
      (@unique_accountWrittenTables addresses assetId network record db current
        unique).chainTransactions).mpr member
    unfold accountWrittenTables at found
    rw [find_executeChainCleanup] at found
    split at found
    · cases found
    · rename_i left
      by_cases own : row.key = record.key assetId network
      · refine .inl fun orphan => left ⟨own, ?_⟩
        rw [own] at orphan
        exact orphan
      · dsimp only at found
        rw [find_upsert_of_ne (fun _ _ => rfl) (isKey ▸ Ne.symm own)] at found
        exact .inr ⟨own, mem_of_find found⟩

theorem tracked_account {assetId : SyncedAssetId} {network : Network}
    {record : SyncAccountTransactionRecord} {current : ChainTransactionRow} (unique : db.Unique)
    (isKey : current.key = record.key assetId network)
    (owned : db.Tracked (IsTracked addresses)) :
    (accountWrittenTables addresses assetId network record current db).Tracked
      (IsTracked addresses) := by
  have keeps := @keepsOthers_account addresses db assetId network record current unique isKey
  have inputs : (accountWrittenTables addresses assetId network record current
      db).transactionInputs = db.transactionInputs := executeChainCleanup_tables.1
  have outputs : (accountWrittenTables addresses assetId network record current
      db).transactionOutputs = db.transactionOutputs := executeChainCleanup_tables.2.1
  have utxos : (accountWrittenTables addresses assetId network record current db).utxos =
      db.utxos := executeChainCleanup_tables.2.2
  have cases : ∀ row ∈ (accountWrittenTables addresses assetId network record current
      db).accountTransfers, row ∈ db.accountTransfers ∨ ∃ transfer ∈ record.transfers,
        storedTransfer addresses (record.key assetId network) transfer = some row := by
    intro row member
    unfold accountWrittenTables at member
    rw [executeChainCleanup_transfers] at member
    exact mem_of_mem_retainedTransfers (List.mem_filter.mp member).1
  have transferEnds : ∀ row ∈ (accountWrittenTables addresses assetId network record current
      db).accountTransfers, (∀ id ∈ row.fromAddressId, IsTracked addresses id) ∧
        ∀ id ∈ row.toAddressId, IsTracked addresses id := by
    intro row member
    rcases cases row member with before | ⟨transfer, -, stored⟩
    · exact owned.transferEnds row before
    · obtain ⟨-, isFrom, isTo⟩ := accountTransferRow_spec (storedTransfer_eq_some.mp stored).2
      rw [isFrom, isTo]
      exact ⟨fun _ resolved => resolveOwnedAddressId_mem resolved,
        fun _ resolved => resolveOwnedAddressId_mem resolved⟩
  have transfers : ∀ row ∈ (accountWrittenTables addresses assetId network record current
      db).accountTransfers, row.EndsAt (IsTracked addresses) := by
    intro row member
    obtain ⟨fromTracked, toTracked⟩ := transferEnds row member
    have stored : ¬ (row.fromAddressId = none ∧ row.toAddressId = none) := by
      rcases cases row member with before | ⟨transfer, -, stored⟩
      · rintro ⟨noFrom, noTo⟩
        rcases owned.transfers row before with ⟨id, isEnd, -⟩ | ⟨id, isEnd, -⟩
        · rw [noFrom] at isEnd
          cases isEnd
        · rw [noTo] at isEnd
          cases isEnd
      · obtain ⟨-, isFrom, isTo⟩ := accountTransferRow_spec (storedTransfer_eq_some.mp stored).2
        rw [isFrom, isTo]
        exact (storedTransfer_eq_some.mp stored).1
    rcases endsAt_of_stored stored with ⟨id, isEnd, -⟩ | ⟨id, isEnd, -⟩
    · exact .inl ⟨id, isEnd, fromTracked id isEnd⟩
    · exact .inr ⟨id, isEnd, toTracked id isEnd⟩
  have afterInputs := inputs.symm ▸ owned.inputs
  have afterOutputs := outputs.symm ▸ owned.outputs
  exact ⟨afterInputs, afterOutputs, utxos.symm ▸ owned.utxos, transferEnds,
    keeps.chain_hasEndAt owned.chain afterInputs afterOutputs transfers, transfers⟩

theorem LedgerStep.Commits.tracked (commits : step.Commits toRfc3339 addresses rebuild db after)
    (unique : db.Unique) (owned : db.Tracked (IsTracked addresses)) :
    after.Tracked (IsTracked addresses) := by
  cases step with
  | bitcoin step =>
    obtain ⟨outcome, done, rfl⟩ := commits
    rw [(of_applyTransactionReconciliation done).2.1]
    exact tracked_bitcoin unique owned
  | account assetId network record =>
    obtain ⟨outcome, done, rfl⟩ := commits
    obtain ⟨current, isCurrent, _, _, isTables⟩ := of_reconcileAccountTransactionTx done
    rw [isTables]
    exact tracked_account unique (accountChainTransactionRow_key isCurrent) owned

end Steps

end Bitgarth.Store
