import Bitgarth.Store.AddressScope
import Bitgarth.Store.EtherscanRecords
import Bitgarth.Store.LastWrites

/-! # What the last record of an account transaction leaves

A committed record leaves exactly its own transfers with a tracked end, when each transfer stored
before is one the record retains or excludes. Later records of other transactions keep them.
-/

namespace Bitgarth.Store

open Amounts Ledger KeyedTable

open Sync (SyncedAssetId)

/-! ## Legacy keys -/

theorem legacyProviderTransferKey_ne {key other : ProviderTransferKey} {legacy : String}
    (isLegacy : legacyProviderTransferKey key = some legacy)
    (provided : other = .normal ∨ ∃ traceId, other.text = "internal:" ++ traceId) :
    legacy ≠ other.text := by
  have prefixed : ∃ number, legacy = "legacy:" ++ number := by
    unfold legacyProviderTransferKey at isLegacy
    split at isLegacy
    · exact ⟨"0", (Option.some.inj isLegacy).symm⟩
    · simp only [Option.bind_eq_bind, Option.bind_eq_some_iff] at isLegacy
      obtain ⟨traceId, _, oldIndex, _, isLegacy⟩ := isLegacy
      split at isLegacy
      · exact ⟨_, (Option.some.inj isLegacy).symm⟩
      · cases isLegacy
  obtain ⟨number, rfl⟩ := prefixed
  intro same
  have first := congrArg (fun text => text.toList.head?) same
  rcases provided with rfl | ⟨traceId, isText⟩
  · simp [ProviderTransferKey.normal, String.toList_append] at first
  · rw [isText] at first
    simp [String.toList_append] at first

section Transfers

variable {addresses : List AddressRow} {key : TxKey}

theorem find_writeTransfer {table : List AccountTransferRow}
    {transfer : SyncAccountTransferRecord} {other : ProviderTransferKey}
    (provided : other = .normal ∨ ∃ traceId, other.text = "internal:" ++ traceId) :
    find AccountTransferRow.key (writeTransfer addresses key table transfer) (key, other.text) =
      if transfer.providerTransferKey = other then storedTransfer addresses key transfer
      else find AccountTransferRow.key table (key, other.text) := by
  have retired : find AccountTransferRow.key
      (retireLegacyTransfer key transfer.providerTransferKey table) (key, other.text) =
        find AccountTransferRow.key table (key, other.text) := by
    unfold retireLegacyTransfer
    cases isLegacy : legacyProviderTransferKey transfer.providerTransferKey with
    | none => rfl
    | some legacy =>
      have differs := legacyProviderTransferKey_ne isLegacy provided
      have kept := @find_filter_key _ _ _ AccountTransferRow.key table (key, other.text)
        fun k => k ≠ (key, legacy)
      refine kept.trans (if_pos ?_)
      simpa using Ne.symm differs
  unfold writeTransfer
  rw [find_assign (fun row stored => storedTransfer_key stored), retired]
  have sameKey : (key, transfer.providerTransferKey.text) = (key, other.text) ↔
      transfer.providerTransferKey = other := by
    rw [Prod.mk.injEq, and_iff_right rfl]
    exact ⟨ProviderTransferKey.eq_of_text, congrArg _⟩
  simp only [sameKey]

theorem find_foldl_writeTransfer {transfers : List SyncAccountTransferRecord}
    {other : ProviderTransferKey}
    (provided : other = .normal ∨ ∃ traceId, other.text = "internal:" ++ traceId)
    (once : (transfers.map SyncAccountTransferRecord.providerTransferKey).Nodup)
    (table : List AccountTransferRow) {row : AccountTransferRow} :
    find AccountTransferRow.key (transfers.foldl (writeTransfer addresses key) table)
        (key, other.text) = some row ↔
      (∃ transfer ∈ transfers, transfer.providerTransferKey = other ∧
        storedTransfer addresses key transfer = some row) ∨
      other ∉ transfers.map SyncAccountTransferRecord.providerTransferKey ∧
        find AccountTransferRow.key table (key, other.text) = some row := by
  induction transfers generalizing table with
  | nil => simp
  | cons first rest ih =>
    rw [List.map_cons, List.nodup_cons] at once
    rw [List.foldl_cons, ih once.2, find_writeTransfer provided, List.map_cons, List.mem_cons]
    by_cases isFirst : first.providerTransferKey = other
    · have fresh := isFirst ▸ once.1
      have noLater : ¬ ∃ transfer ∈ rest, transfer.providerTransferKey = other ∧
          storedTransfer addresses key transfer = some row := by
        rintro ⟨transfer, member, isOther, _⟩
        exact fresh (isOther ▸ List.mem_map_of_mem member)
      simp only [List.exists_mem_cons_iff, isFirst, true_and, if_true, noLater, or_false,
        false_or, fresh, not_false_eq_true, not_true_eq_false, false_and]
    · simp only [List.exists_mem_cons_iff, isFirst, Ne.symm isFirst, false_and, false_or,
        if_false]

theorem find_foldl_deleteTransfer (candidates : List String) (table : List AccountTransferRow)
    (other : String) :
    find AccountTransferRow.key
        (candidates.foldl (fun table candidate => deleteTransfer key candidate table) table)
        (key, other) =
      if other ∈ candidates then none else find AccountTransferRow.key table (key, other) := by
  induction candidates generalizing table with
  | nil => simp
  | cons first rest ih =>
    have kept := @find_filter_key _ _ _ AccountTransferRow.key table (key, other)
      fun k => k ≠ (key, first)
    have deleted : find AccountTransferRow.key (deleteTransfer key first table) (key, other) =
        if other = first then none else find AccountTransferRow.key table (key, other) := by
      refine kept.trans ?_
      by_cases isFirst : other = first <;> simp [isFirst]
    rw [List.foldl_cons, ih, deleted]
    by_cases isFirst : other = first
    · simp [isFirst]
    · simp only [List.mem_cons, isFirst, false_or, if_false]

end Transfers

/-! ## One record -/

section Record

variable (toRfc3339 : ℤ → String) (addresses : List AddressRow) (assetId : SyncedAssetId)
  (network : Network)

/-- The rows of an account transaction are those its record wrote. -/
structure StoredAs (record : SyncAccountTransactionRecord) (db : TransactionTables) : Prop where
  chain : ∃ current,
    accountChainTransactionRow toRfc3339 (record.key assetId network) record = .ok current ∧
      find ChainTransactionRow.key db.chainTransactions (record.key assetId network) =
        if db.isOrphan (record.key assetId network) = true then none else some current
  transfers : ∀ row, row.txKey = record.key assetId network →
    (row ∈ db.accountTransfers ↔
      ∃ transfer ∈ record.transfers,
        storedTransfer addresses (record.key assetId network) transfer = some row)

variable {toRfc3339 addresses assetId network}
  {rebuild : TransactionTables → String → Except DbError Unit}
  {record other : SyncAccountTransactionRecord} {db after : TransactionTables}
  {outcome : AccountReconcileOutcome}

theorem StoredAs.of_agrees (stored : StoredAs toRfc3339 addresses assetId network record db)
    (agrees : record.Agrees other) : StoredAs toRfc3339 addresses assetId network other db := by
  rw [← agrees.1]
  exact ⟨stored.chain, stored.transfers⟩

theorem StoredAs.of_sameAt (stored : StoredAs toRfc3339 addresses assetId network record db)
    (same : db.SameAt after (record.key assetId network)) :
    StoredAs toRfc3339 addresses assetId network record after := by
  refine ⟨?_, ?_⟩
  · obtain ⟨current, isCurrent, found⟩ := stored.chain
    refine ⟨current, isCurrent, ?_⟩
    rw [← same.chain, ← same.isOrphan_eq, found]
  · intro row own
    rw [← stored.transfers row own]
    have filtered : row ∈ (db.accountTransfers.filter fun row =>
        row.txKey = record.key assetId network) ↔ _ :=
      iff_of_eq (congrArg (row ∈ ·) same.transfers)
    simpa only [List.mem_filter, own, decide_true, and_true] using filtered.symm

theorem sameAt_accountWrittenTables {key : TxKey} {current : ChainTransactionRow}
    (isKey : current.key = record.key assetId network) (others : key ≠ record.key assetId network) :
    db.SameAt (accountWrittenTables addresses assetId network record current db) key := by
  obtain ⟨inputs, outputs, _⟩ := @executeChainCleanup_tables
    { db with
      chainTransactions := upsert ChainTransactionRow.key replaceRow current db.chainTransactions
      accountTransfers := retainedTransfers addresses assetId network record db.accountTransfers }
    (record.key assetId network)
  have dropped : ∀ row : AccountTransferRow, row.txKey = record.key assetId network →
      decide (row.txKey = key) = false := by
    intro row own
    rw [decide_eq_false_iff_not, own]
    exact Ne.symm others
  unfold accountWrittenTables
  refine ⟨?_, ?_, ?_, ?_⟩
  · rw [find_executeChainCleanup, if_neg fun orphan => others orphan.1,
      find_upsert_of_ne (fun _ same => same.symm ▸ rfl) (by rw [isKey]; exact Ne.symm others)]
  · rw [inputs]
  · rw [outputs]
  · rw [filter_executeChainCleanup_transfers dropped, filter_retainedTransfers dropped]

theorem tracked_of_storedTransfer {key : TxKey} {transfer : SyncAccountTransferRecord}
    {row : AccountTransferRow} (stored : storedTransfer addresses key transfer = some row) :
    ¬ (row.fromAddressId = none ∧ row.toAddressId = none) := by
  obtain ⟨owned, written⟩ := storedTransfer_eq_some.mp stored
  obtain ⟨_, isFrom, isTo⟩ := accountTransferRow_spec written
  rwa [isFrom, isTo]

theorem storedAs_of_reconcile
    (done : reconcileAccountTransactionTx toRfc3339 addresses rebuild assetId network record db =
      .ok outcome)
    (unique : db.Unique)
    (once : (record.transfers.map SyncAccountTransferRecord.providerTransferKey ++
      record.excludedTransferKeys).Nodup)
    (provided : ∀ key ∈ record.transfers.map SyncAccountTransferRecord.providerTransferKey ++
      record.excludedTransferKeys, key = .normal ∨ ∃ traceId, key.text = "internal:" ++ traceId)
    (covered : ∀ row ∈ db.accountTransfers, row.txKey = record.key assetId network →
      ∃ key ∈ record.transfers.map SyncAccountTransferRecord.providerTransferKey ++
        record.excludedTransferKeys, row.providerTransferKey = key.text) :
    StoredAs toRfc3339 addresses assetId network record outcome.tables := by
  obtain ⟨current, isCurrent, _, _, isTables⟩ := of_reconcileAccountTransactionTx done
  obtain ⟨transfersOnce, _, apart⟩ := List.nodup_append.mp once
  have keyed := @keyed_retainedTransfers addresses assetId network record _ unique.accountTransfers
  -- The row of a key the record names: its transfer, unless the key is excluded.
  have found : ∀ key ∈ record.transfers.map SyncAccountTransferRecord.providerTransferKey ++
      record.excludedTransferKeys, ∀ row,
      find AccountTransferRow.key
        (retainedTransfers addresses assetId network record db.accountTransfers)
        (record.key assetId network, key.text) = some row ↔
      ∃ transfer ∈ record.transfers, transfer.providerTransferKey = key ∧
        storedTransfer addresses (record.key assetId network) transfer = some row := by
    intro key named row
    have isProvided := provided key named
    have deleted : key.text ∈ record.excludedTransferKeys.flatMap exclusionCandidates ↔
        key ∈ record.excludedTransferKeys := by
      rw [List.mem_flatMap]
      constructor
      · rintro ⟨excluded, member, candidate⟩
        rcases List.mem_cons.mp candidate with same | legacy
        · exact ProviderTransferKey.eq_of_text same ▸ member
        · have isLegacy := Option.mem_toList.mp legacy
          exact absurd rfl (legacyProviderTransferKey_ne isLegacy isProvided)
      · intro member
        exact ⟨key, member, List.mem_cons_self⟩
    unfold retainedTransfers
    rw [find_foldl_deleteTransfer]
    by_cases isExcluded : key ∈ record.excludedTransferKeys
    · rw [if_pos (deleted.mpr isExcluded)]
      simp only [reduceCtorEq, false_iff, not_exists, not_and]
      intro transfer member isKey _
      exact apart key (List.mem_map.mpr ⟨transfer, member, isKey⟩) key isExcluded rfl
    · have inTransfers := (List.mem_append.mp named).resolve_right isExcluded
      rw [if_neg fun candidate => isExcluded (deleted.mp candidate),
        find_foldl_writeTransfer isProvided transfersOnce, or_iff_left]
      exact fun absent => absent.1 inTransfers
  -- Each row left is of a key the record names.
  have named : ∀ row ∈ retainedTransfers addresses assetId network record db.accountTransfers,
      row.txKey = record.key assetId network →
        ∃ key ∈ record.transfers.map SyncAccountTransferRecord.providerTransferKey ++
          record.excludedTransferKeys, row.providerTransferKey = key.text := by
    intro row member own
    rcases mem_of_mem_retainedTransfers member with before | ⟨transfer, inRecord, stored⟩
    · exact covered row before own
    · exact ⟨transfer.providerTransferKey,
        List.mem_append_left _ (List.mem_map_of_mem inRecord),
        congrArg Prod.snd (storedTransfer_key stored)⟩
  have left : ∀ row, row.txKey = record.key assetId network →
      (row ∈ retainedTransfers addresses assetId network record db.accountTransfers ↔
        ∃ transfer ∈ record.transfers,
          storedTransfer addresses (record.key assetId network) transfer = some row) := by
    intro row own
    constructor
    · intro member
      obtain ⟨key, isNamed, isText⟩ := named row member own
      have isKey : row.key = (record.key assetId network, key.text) := Prod.ext own isText
      have isFound := (find_key_eq_some_iff keyed).mpr member
      rw [isKey] at isFound
      obtain ⟨transfer, inRecord, _, stored⟩ := (found key isNamed row).mp isFound
      exact ⟨transfer, inRecord, stored⟩
    · rintro ⟨transfer, inRecord, stored⟩
      have isFound := (found transfer.providerTransferKey
        (List.mem_append_left _ (List.mem_map_of_mem inRecord)) row).mpr
        ⟨transfer, inRecord, rfl, stored⟩
      exact mem_of_find isFound
  rw [isTables]
  unfold accountWrittenTables
  refine ⟨⟨current, isCurrent, ?_⟩, fun row own => ?_⟩
  · have isKey := accountChainTransactionRow_key isCurrent
    have upserted := @find_upsert_self _ _ _ ChainTransactionRow.key db.chainTransactions
      replaceRow current fun _ _ => rfl
    rw [isKey] at upserted
    rw [find_executeChainCleanup]
    simp only [true_and]
    split
    · rfl
    · rw [upserted]
      cases find ChainTransactionRow.key db.chainTransactions (record.key assetId network) <;> rfl
  · rw [executeChainCleanup_transfers, List.mem_filter, left row own, and_iff_left_of_imp]
    rintro ⟨transfer, _, stored⟩
    have tracked := tracked_of_storedTransfer stored
    simp only [own, true_and, decide_eq_true_eq]
    exact tracked

end Record

end Bitgarth.Store
