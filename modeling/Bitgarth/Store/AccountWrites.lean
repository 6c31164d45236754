import Bitgarth.Store.AccountReconciliation
import Bitgarth.Store.TransactionWrites

/-! # What reconciling an account transaction writes

Each provider key holds the last transfer that comes in for it, when an end is tracked; the
legacy row of a key that comes in and the rows of excluded keys are gone. Rows of other
transactions stay where they are.
-/

namespace Bitgarth.Store

open Amounts Ledger KeyedTable Fallible

open Sync (SyncedAssetId)

section Transfers

variable (addresses : List AddressRow) (key : TxKey)

/-- What a transfer is stored as: nothing unless one of its ends is tracked. -/
def storedTransfer (transfer : SyncAccountTransferRecord) : Option AccountTransferRow :=
  let fromAddressId := resolveOwnedAddressId addresses transfer.fromAddress
  let toAddressId := resolveOwnedAddressId addresses transfer.toAddress
  if fromAddressId = none ∧ toAddressId = none then
    none
  else
    (accountTransferRow key fromAddressId toAddressId transfer).toOption

/-- A transfer with a tracked end passes the checks of its table. -/
def TransferAccepted (transfer : SyncAccountTransferRecord) : Prop :=
  let fromAddressId := resolveOwnedAddressId addresses transfer.fromAddress
  let toAddressId := resolveOwnedAddressId addresses transfer.toAddress
  ¬ (fromAddressId = none ∧ toAddressId = none) →
    ∃ row, accountTransferRow key fromAddressId toAddressId transfer = .ok row

/-- One transfer, written. -/
def writeTransfer (table : List AccountTransferRow) (transfer : SyncAccountTransferRecord) :
    List AccountTransferRow :=
  assign AccountTransferRow.key (key, transfer.providerTransferKey.text)
    (storedTransfer addresses key transfer)
    (retireLegacyTransfer key transfer.providerTransferKey table)

variable {addresses key} {transfer : SyncAccountTransferRecord}

theorem accountTransferRow_spec {fromAddressId toAddressId : Option String}
    {row : AccountTransferRow}
    (done : accountTransferRow key fromAddressId toAddressId transfer = .ok row) :
    row.key = (key, transfer.providerTransferKey.text) ∧ row.fromAddressId = fromAddressId ∧
      row.toAddressId = toAddressId := by
  obtain ⟨parts, _, done⟩ := bind_eq_ok.mp done
  obtain ⟨_, _, done⟩ := bind_eq_ok.mp done
  rw [pure_eq_ok] at done
  subst done
  exact ⟨rfl, rfl, rfl⟩

theorem storedTransfer_eq_some {row : AccountTransferRow} :
    storedTransfer addresses key transfer = some row ↔
      ¬ (resolveOwnedAddressId addresses transfer.fromAddress = none ∧
          resolveOwnedAddressId addresses transfer.toAddress = none) ∧
        accountTransferRow key (resolveOwnedAddressId addresses transfer.fromAddress)
          (resolveOwnedAddressId addresses transfer.toAddress) transfer = .ok row := by
  unfold storedTransfer
  dsimp only
  split <;> rename_i unowned
  · simp [unowned]
  · cases accountTransferRow key (resolveOwnedAddressId addresses transfer.fromAddress)
      (resolveOwnedAddressId addresses transfer.toAddress) transfer <;>
      simp [unowned, Except.toOption]

theorem storedTransfer_key {row : AccountTransferRow}
    (stored : storedTransfer addresses key transfer = some row) :
    row.key = (key, transfer.providerTransferKey.text) :=
  (accountTransferRow_spec (storedTransfer_eq_some.mp stored).2).1

theorem upsertAccountTransfer_eq_ok {table next : List AccountTransferRow} :
    upsertAccountTransfer addresses key table transfer = .ok next ↔
      TransferAccepted addresses key transfer ∧
        writeTransfer addresses key table transfer = next := by
  unfold upsertAccountTransfer TransferAccepted writeTransfer storedTransfer
  dsimp only
  split <;> rename_i unowned
  · simp [assign, deleteTransfer, unowned]
  · cases written : accountTransferRow key (resolveOwnedAddressId addresses transfer.fromAddress)
      (resolveOwnedAddressId addresses transfer.toAddress) transfer with
    | error failure => simp [bind, Except.bind, unowned]
    | ok row =>
      simp only [bind, Except.bind, pure, Except.pure, Except.ok.injEq, exists_eq', implies_true,
        true_and, Except.toOption]
      rfl

theorem upsertAccountTransfers_eq_ok {transfers : List SyncAccountTransferRecord}
    {table next : List AccountTransferRow} :
    upsertAccountTransfers addresses key transfers table = .ok next ↔
      (∀ transfer ∈ transfers, TransferAccepted addresses key transfer) ∧
        transfers.foldl (writeTransfer addresses key) table = next :=
  foldlM_eq_ok (upsertAccountTransfer addresses key) (writeTransfer addresses key)
    fun _ _ _ => upsertAccountTransfer_eq_ok

theorem excludeCandidates_transfers {candidates : List String} {start final : ExclusionState}
    (done : candidates.foldlM (excludeCandidate addresses key) start = .ok final) :
    final.transfers =
      candidates.foldl (fun table candidate => deleteTransfer key candidate table)
        start.transfers := by
  induction candidates generalizing start with
  | nil =>
    rw [List.foldlM_nil, pure_eq_ok] at done
    rw [done]
    rfl
  | cons candidate rest ih =>
    rw [List.foldlM_cons] at done
    obtain ⟨middle, first, later⟩ := bind_eq_ok.mp done
    obtain ⟨owners, _, isMiddle⟩ := bind_eq_ok.mp first
    rw [pure_eq_ok] at isMiddle
    rw [ih later, ← isMiddle]
    rfl

theorem mem_of_mem_retireLegacyTransfer {providerTransferKey : ProviderTransferKey}
    {table : List AccountTransferRow} {row : AccountTransferRow}
    (member : row ∈ retireLegacyTransfer key providerTransferKey table) : row ∈ table := by
  unfold retireLegacyTransfer at member
  revert member
  cases legacyProviderTransferKey providerTransferKey with
  | none => exact fun member => member
  | some legacy => exact fun member => (List.mem_filter.mp member).1

theorem filter_deleteTransfer {candidate : String} {keep : AccountTransferRow → Bool}
    (dropped : ∀ row, row.txKey = key → keep row = false) (table : List AccountTransferRow) :
    (deleteTransfer key candidate table).filter keep = table.filter keep := by
  unfold deleteTransfer
  rw [List.filter_filter]
  apply List.filter_congr
  intro row _
  by_cases isKey : row.key = (key, candidate)
  · simp [dropped row (congrArg Prod.fst isKey)]
  · simp [isKey]

theorem mem_of_mem_foldl_deleteTransfer {candidates : List String}
    {table : List AccountTransferRow} {row : AccountTransferRow} (member : row ∈ candidates.foldl
      (fun table candidate => deleteTransfer key candidate table) table) : row ∈ table := by
  induction candidates generalizing table with
  | nil => exact member
  | cons first rest ih => exact (List.mem_filter.mp (ih member)).1

theorem filter_retireLegacyTransfer {providerTransferKey : ProviderTransferKey}
    {keep : AccountTransferRow → Bool} (dropped : ∀ row, row.txKey = key → keep row = false)
    (table : List AccountTransferRow) :
    (retireLegacyTransfer key providerTransferKey table).filter keep = table.filter keep := by
  unfold retireLegacyTransfer
  cases legacyProviderTransferKey providerTransferKey with
  | none => rfl
  | some legacy => exact filter_deleteTransfer dropped table

theorem filter_writeTransfer {keep : AccountTransferRow → Bool}
    (dropped : ∀ row, row.txKey = key → keep row = false) (table : List AccountTransferRow) :
    (writeTransfer addresses key table transfer).filter keep = table.filter keep := by
  unfold writeTransfer
  rw [filter_assign (fun row stored => storedTransfer_key stored)
    fun row isKey => dropped row (congrArg Prod.fst isKey), filter_retireLegacyTransfer dropped]

end Transfers

/-! ## One record -/

section Write

variable (toRfc3339 : ℤ → String) (addresses : List AddressRow)
  (rebuild : TransactionTables → String → Except DbError Unit) (assetId : SyncedAssetId)
  (network : Network) (record : SyncAccountTransactionRecord)

/-- The transfers a record leaves before the cleanup. -/
def retainedTransfers (table : List AccountTransferRow) : List AccountTransferRow :=
  (record.excludedTransferKeys.flatMap exclusionCandidates).foldl
    (fun table candidate => deleteTransfer (record.key assetId network) candidate table)
    (record.transfers.foldl (writeTransfer addresses (record.key assetId network)) table)

/-- The tables a record leaves, with its chain row. -/
def accountWrittenTables (current : ChainTransactionRow) (db : TransactionTables) :
    TransactionTables :=
  (executeChainCleanup (record.key assetId network)
    { db with
      chainTransactions :=
        upsert ChainTransactionRow.key replaceRow current db.chainTransactions
      accountTransfers := retainedTransfers addresses assetId network record
        db.accountTransfers }).1

variable {toRfc3339 addresses rebuild assetId network record} {db : TransactionTables}
  {outcome : AccountReconcileOutcome}

theorem of_reconcileAccountTransactionTx
    (done : reconcileAccountTransactionTx toRfc3339 addresses rebuild assetId network record db =
      .ok outcome) :
    ∃ current, accountChainTransactionRow toRfc3339 (record.key assetId network) record =
        .ok current ∧
      (∀ transfer ∈ record.transfers,
        TransferAccepted addresses (record.key assetId network) transfer) ∧
      (∀ excluded ∈ record.excludedTransferKeys,
        excluded ∉ record.transfers.map SyncAccountTransferRecord.providerTransferKey) ∧
      outcome.tables = accountWrittenTables addresses assetId network record current db := by
  unfold reconcileAccountTransactionTx at done
  dsimp only at done
  obtain ⟨current, isCurrent, done⟩ := bind_eq_ok.mp done
  split at done <;> rename_i overlap
  · cases done
  · obtain ⟨transfers, written, done⟩ := bind_eq_ok.mp done
    obtain ⟨state, excluded, done⟩ := bind_eq_ok.mp done
    obtain ⟨_, _, done⟩ := bind_eq_ok.mp done
    obtain ⟨accepted, isTransfers⟩ := upsertAccountTransfers_eq_ok.mp written
    have retained : state.transfers = retainedTransfers addresses assetId network record
        db.accountTransfers := by
      rw [excludeCandidates_transfers excluded, ← isTransfers]
      rfl
    refine ⟨current, isCurrent, accepted, fun key member inTransfers =>
      overlap ⟨key, member, inTransfers⟩, ?_⟩
    unfold accountWrittenTables
    rw [← retained]
    split at done
    all_goals
      rw [pure_eq_ok] at done
      rw [← done]

theorem accountChainTransactionRow_key {key : TxKey} {current : ChainTransactionRow}
    (done : accountChainTransactionRow toRfc3339 key record = .ok current) : current.key = key := by
  obtain ⟨fee, _, done⟩ := bind_eq_ok.mp done
  obtain ⟨_, _, done⟩ := bind_eq_ok.mp done
  rw [pure_eq_ok] at done
  rw [← done]

theorem accountChainTransactionRow_blockHeight {key : TxKey} {current : ChainTransactionRow}
    (done : accountChainTransactionRow toRfc3339 key record = .ok current) :
    current.blockHeight = record.blockHeight := by
  obtain ⟨fee, _, done⟩ := bind_eq_ok.mp done
  obtain ⟨_, _, done⟩ := bind_eq_ok.mp done
  rw [pure_eq_ok] at done
  rw [← done]

theorem filter_retainedTransfers {keep : AccountTransferRow → Bool}
    (dropped : ∀ row, row.txKey = record.key assetId network → keep row = false)
    (table : List AccountTransferRow) :
    (retainedTransfers addresses assetId network record table).filter keep =
      table.filter keep := by
  unfold retainedTransfers
  rw [filter_foldl fun table _ _ => filter_deleteTransfer dropped table,
    filter_foldl fun table _ _ => filter_writeTransfer dropped table]

theorem mem_of_mem_retainedTransfers {table : List AccountTransferRow} {row : AccountTransferRow}
    (member : row ∈ retainedTransfers addresses assetId network record table) :
    row ∈ table ∨ ∃ transfer ∈ record.transfers,
      storedTransfer addresses (record.key assetId network) transfer = some row := by
  have fromWritten : ∀ (transfers : List SyncAccountTransferRecord)
    (table : List AccountTransferRow),
      row ∈ transfers.foldl (writeTransfer addresses (record.key assetId network)) table →
        row ∈ table ∨ ∃ transfer ∈ transfers,
          storedTransfer addresses (record.key assetId network) transfer = some row := by
    intro transfers
    induction transfers with
    | nil => exact fun table before => .inl before
    | cons first rest ih =>
      intro table after
      rcases ih _ after with before | ⟨transfer, later, stored⟩
      · rcases mem_of_mem_assign before with stored | kept
        · exact .inr ⟨first, List.mem_cons_self, stored⟩
        · exact .inl (mem_of_mem_retireLegacyTransfer kept)
      · exact .inr ⟨transfer, List.mem_cons_of_mem _ later, stored⟩
  exact fromWritten _ _ (mem_of_mem_foldl_deleteTransfer member)

theorem keyed_retainedTransfers {table : List AccountTransferRow}
    (keyed : Keyed AccountTransferRow.key table) :
    Keyed AccountTransferRow.key
      (retainedTransfers addresses assetId network record table) := by
  apply Keyed.foldl (fun _ _ before => before.filter _)
  apply Keyed.foldl _ _ keyed
  intro table transfer before
  apply Keyed.assign
  unfold retireLegacyTransfer
  cases legacyProviderTransferKey transfer.providerTransferKey with
  | none => exact before
  | some legacy => exact before.filter _

theorem unique_accountWrittenTables {current : ChainTransactionRow} (unique : db.Unique) :
    (accountWrittenTables addresses assetId network record current db).Unique :=
  keyed_executeChainCleanup
    ⟨unique.chainTransactions.upsert fun _ _ => rfl, unique.transactionInputs,
      unique.transactionOutputs, unique.utxos, keyed_retainedTransfers unique.accountTransfers⟩

end Write

end Bitgarth.Store
