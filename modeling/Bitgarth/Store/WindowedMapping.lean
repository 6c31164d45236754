import Bitgarth.Store.AccountLastWrites
import Bitgarth.Store.RetainedPages

/-! # Processing pages one by one

After each page, every hash touched so far is stored as the record its newest retained rows make,
and no other transfer of it is left. So the pages leave what one mapping of the newest retained
rows makes, and when no two rows of one identity differ, what one mapping of all rows makes.
-/

namespace Bitgarth.Store

open Amounts Ledger KeyedTable Text Fallible

open Sync (SyncedAssetId)

/-! ## Newest rows -/

section Newest

variable {Row Identity : Type} [DecidableEq Identity] (endpoint : EtherscanEndpoint Row Identity)

/-- The heads of a hash. -/
def headsOf (network : Network) (hash : String) (versions : List (RawVersion Identity)) :
    List (RawVersion Identity) :=
  (loadAllCurrentRawHeads versions).filter fun head =>
    head.network = network ∧ endpoint.txHash head.identity = hash

/-- A row is the newest retained one of its identity. -/
def NewestRow (network : Network) (hash : String) (versions : List (RawVersion Identity))
    (row : Row) : Prop :=
  ∃ head ∈ newestHeads endpoint.le (headsOf endpoint network hash versions),
    endpoint.decode head.payloadBytes = .ok row

variable {endpoint} {network : Network} {touchedHashes : List String} {rows : List Row}
  {versions : List (RawVersion Identity)} {hash : String} {row : Row}

theorem mem_newestHeads_touched {head : RawVersion Identity} (touched : hash ∈ touchedHashes)
    (ofHash : endpoint.txHash head.identity = hash) :
    head ∈ newestHeads endpoint.le ((loadAllCurrentRawHeads versions).filter fun head =>
        head.network = network ∧ endpoint.txHash head.identity ∈ touchedHashes) ↔
      head ∈ newestHeads endpoint.le (headsOf endpoint network hash versions) := by
  have split : ∀ keep : Identity → Bool, (loadAllCurrentRawHeads versions).filter (fun head =>
      head.network = network ∧ keep head.identity = true) =
        ((loadAllCurrentRawHeads versions).filter fun head => head.network = network).filter
          fun head => keep head.identity := by
    intro keep
    rw [List.filter_filter]
    apply List.filter_congr
    intro head _
    rw [Bool.decide_and, Bool.and_comm, Bool.decide_eq_true]
  have ofTouched := split fun identity => decide (endpoint.txHash identity ∈ touchedHashes)
  have ofOne := split fun identity => decide (endpoint.txHash identity = hash)
  simp only [decide_eq_true_eq] at ofTouched ofOne
  have inTouched := @mem_newestHeads_filter _ _ head endpoint.le
    ((loadAllCurrentRawHeads versions).filter fun head => head.network = network)
    fun identity => decide (endpoint.txHash identity ∈ touchedHashes)
  have inOne := @mem_newestHeads_filter _ _ head endpoint.le
    ((loadAllCurrentRawHeads versions).filter fun head => head.network = network)
    fun identity => decide (endpoint.txHash identity = hash)
  unfold headsOf
  rw [ofTouched, ofOne, inTouched, inOne]
  simp [ofHash, touched]

variable (lawful : endpoint.Lawful)
  (retained : retainedRows endpoint network touchedHashes versions = .ok rows)

include lawful retained

theorem retainedRows_spec (touched : hash ∈ touchedHashes) :
    (∀ row, parseEtherscanTxHash (endpoint.hash row) = .ok hash →
      (row ∈ rows ↔ NewestRow endpoint network hash versions row)) ∧
      ∀ row, NewestRow endpoint network hash versions row →
        ∃ identity, endpoint.identify row = .ok identity ∧ endpoint.txHash identity = hash := by
  obtain ⟨forward, backward⟩ := mem_of_mapM_eq_ok retained
  have parses : ∀ head ∈ newestHeads endpoint.le (headsOf endpoint network hash versions),
      ∀ row, endpoint.decode head.payloadBytes = .ok row →
        row ∈ rows ∧ endpoint.identify row = .ok head.identity ∧
          endpoint.txHash head.identity = hash := by
    intro head inNewest row decoded
    have inHeads := List.mem_filter.mp (newestHeads_subset inNewest)
    have ofHash : endpoint.txHash head.identity = hash := (of_decide_eq_true inHeads.2).2
    obtain ⟨other, inRows, parsed⟩ :=
      forward head ((mem_newestHeads_touched touched ofHash).mpr inNewest)
    obtain ⟨otherDecoded, identified⟩ :=
      (lawful.parsePersisted_eq_ok _ _ _ _).mp (mapError_eq_ok.mp parsed)
    obtain rfl := Except.ok.inj (otherDecoded.symm.trans decoded)
    exact ⟨inRows, identified, ofHash⟩
  refine ⟨fun row ofHash => ⟨fun inRows => ?_, fun newest => ?_⟩, fun row newest => ?_⟩
  · obtain ⟨head, inNewest, parsed⟩ := backward row inRows
    obtain ⟨decoded, identified⟩ :=
      (lawful.parsePersisted_eq_ok _ _ _ _).mp (mapError_eq_ok.mp parsed)
    have sameHash := Except.ok.inj ((lawful.hash_of_identify row _ identified).symm.trans ofHash)
    exact ⟨head, (mem_newestHeads_touched touched sameHash).mp inNewest, decoded⟩
  · obtain ⟨head, inNewest, decoded⟩ := newest
    exact (parses head inNewest row decoded).1
  · obtain ⟨head, inNewest, decoded⟩ := newest
    obtain ⟨_, identified, ofHash⟩ := parses head inNewest row decoded
    exact ⟨head.identity, identified, ofHash⟩

theorem retainedRows_unique {left right : Row} {identity : Identity} (inRows : left ∈ rows)
    (inRows' : right ∈ rows) (identified : endpoint.identify left = .ok identity)
    (identified' : endpoint.identify right = .ok identity) : left = right := by
  obtain ⟨_, backward⟩ := mem_of_mapM_eq_ok retained
  obtain ⟨head, inNewest, parsed⟩ := backward left inRows
  obtain ⟨head', inNewest', parsed'⟩ := backward right inRows'
  obtain ⟨decoded, ofHead⟩ := (lawful.parsePersisted_eq_ok _ _ _ _).mp (mapError_eq_ok.mp parsed)
  obtain ⟨decoded', ofHead'⟩ :=
    (lawful.parsePersisted_eq_ok _ _ _ _).mp (mapError_eq_ok.mp parsed')
  have same : head.identity = head'.identity :=
    (Except.ok.inj (ofHead.symm.trans identified)).trans
      (Except.ok.inj (identified'.symm.trans ofHead'))
  obtain rfl := List.inj_on_of_nodup_map keyed_newestHeads inNewest inNewest' same
  exact Except.ok.inj (decoded.symm.trans decoded')

theorem retainedRows_touched (inRows : row ∈ rows)
    (ofHash : parseEtherscanTxHash (endpoint.hash row) = .ok hash) : hash ∈ touchedHashes := by
  obtain ⟨_, backward⟩ := mem_of_mapM_eq_ok retained
  obtain ⟨head, inNewest, parsed⟩ := backward row inRows
  obtain ⟨_, identified⟩ := (lawful.parsePersisted_eq_ok _ _ _ _).mp (mapError_eq_ok.mp parsed)
  have sameHash := Except.ok.inj ((lawful.hash_of_identify row _ identified).symm.trans ofHash)
  have inHeads := List.mem_filter.mp (newestHeads_subset inNewest)
  exact sameHash ▸ (of_decide_eq_true inHeads.2).2

omit retained in
theorem exists_retainedRows {request : EtherscanPageIngestionRequest} {all : List Row}
    (kept : ∀ hash ∈ touchedHashes, RetainedFor endpoint request hash all versions) :
    ∃ rows, retainedRows endpoint request.network touchedHashes versions = .ok rows ∧
      ∀ row ∈ rows, row ∈ all ∧
        ∃ hash, parseEtherscanTxHash (endpoint.hash row) = .ok hash := by
  have parses : ∀ head ∈ newestHeads endpoint.le ((loadAllCurrentRawHeads versions).filter fun
      head => head.network = request.network ∧ endpoint.txHash head.identity ∈ touchedHashes),
      ∃ row ∈ all, endpoint.decode head.payloadBytes = .ok row ∧
        endpoint.identify row = .ok head.identity := by
    intro head inNewest
    have inHeads := List.mem_filter.mp (newestHeads_subset inNewest)
    have touched := (of_decide_eq_true inHeads.2).2
    exact ((kept _ touched).own head (List.mem_filter.mp inHeads.1).1 rfl).2.2
  obtain ⟨rows, retained⟩ : ∃ rows,
      retainedRows endpoint request.network touchedHashes versions = .ok rows := by
    refine exists_mapM_eq_ok.mpr fun head inNewest => ?_
    obtain ⟨row, _, decoded, identified⟩ := parses head inNewest
    refine ⟨row, mapError_eq_ok.mpr ?_⟩
    exact (lawful.parsePersisted_eq_ok _ _ _ _).mpr ⟨decoded, identified⟩
  refine ⟨rows, retained, fun row inRows => ?_⟩
  obtain ⟨head, inNewest, parsed⟩ := (mem_of_mapM_eq_ok retained).2 row inRows
  obtain ⟨decoded, identified⟩ :=
    (lawful.parsePersisted_eq_ok _ _ _ _).mp (mapError_eq_ok.mp parsed)
  obtain ⟨other, inAll, otherDecoded, _⟩ := parses head inNewest
  obtain rfl := Except.ok.inj (otherDecoded.symm.trans decoded)
  exact ⟨inAll, _, lawful.hash_of_identify other _ identified⟩

omit lawful retained in
theorem RetainedFor.exists_newest {request : EtherscanPageIngestionRequest}
    (kept : RetainedFor endpoint request hash rows versions) (inRows : row ∈ rows)
    {identity : Identity} (identified : endpoint.identify row = .ok identity)
    (ofHash : endpoint.txHash identity = hash) :
    ∃ newest ∈ rows, NewestRow endpoint request.network hash versions newest ∧
      endpoint.identify newest = .ok identity := by
  obtain ⟨head, inHeads, isIdentity⟩ := kept.headed row inRows identity identified ofHash
  have isVersion := (List.mem_filter.mp inHeads).1
  have ofNetwork := (kept.own head isVersion (isIdentity ▸ ofHash)).2.1
  have inHeadsOf : head ∈ headsOf endpoint request.network hash versions :=
    List.mem_filter.mpr ⟨inHeads, decide_eq_true ⟨ofNetwork, isIdentity ▸ ofHash⟩⟩
  obtain ⟨newest, inNewest, sameIdentity⟩ := @exists_newestHead _ _ _ endpoint.le _ inHeadsOf
  have newestVersion := (List.mem_filter.mp (List.mem_filter.mp (newestHeads_subset inNewest)).1).1
  have ofIdentity : newest.identity = identity := sameIdentity.trans isIdentity
  obtain ⟨_, _, other, inRows, decoded, otherIdentified⟩ :=
    kept.own newest newestVersion (ofIdentity ▸ ofHash)
  exact ⟨other, inRows, ⟨newest, inNewest, decoded⟩, ofIdentity ▸ otherIdentified⟩

omit lawful retained in
theorem RetainedFor.mem_of_newest {request : EtherscanPageIngestionRequest}
    (kept : RetainedFor endpoint request hash rows versions)
    (newest : NewestRow endpoint request.network hash versions row) :
    row ∈ rows ∧ ∃ identity, endpoint.identify row = .ok identity ∧
      endpoint.txHash identity = hash := by
  obtain ⟨head, inNewest, decoded⟩ := newest
  have inHeads := List.mem_filter.mp (newestHeads_subset inNewest)
  have ofHash : endpoint.txHash head.identity = hash := (of_decide_eq_true inHeads.2).2
  obtain ⟨_, _, other, inRows, otherDecoded, identified⟩ :=
    kept.own head (List.mem_filter.mp inHeads.1).1 ofHash
  obtain rfl := Except.ok.inj (otherDecoded.symm.trans decoded)
  exact ⟨inRows, head.identity, identified, ofHash⟩

end Newest

/-! ## Reconciling the records of a page -/

section Reconcile

variable {toRfc3339 : ℤ → String} {addresses : List AddressRow}
  {rebuild : TransactionTables → String → Except DbError Unit} {assetId : SyncedAssetId}
  {network : Network} {records : List SyncAccountTransactionRecord}
  {tables after : TransactionTables}

theorem reconcileAccountTransactions_cons {first : SyncAccountTransactionRecord}
    (done : reconcileAccountTransactions toRfc3339 addresses rebuild assetId network
      (first :: records) tables = .ok after) :
    ∃ outcome, reconcileAccountTransactionTx toRfc3339 addresses rebuild assetId network first
        tables = .ok outcome ∧
      reconcileAccountTransactions toRfc3339 addresses rebuild assetId network records
        outcome.tables = .ok after := by
  unfold reconcileAccountTransactions at done
  rw [List.foldlM_cons] at done
  obtain ⟨next, step, later⟩ := bind_eq_ok.mp done
  obtain ⟨outcome, reconciled, rfl⟩ := map_eq_ok.mp step
  exact ⟨outcome, reconciled, later⟩

theorem reconcileAccountTransactions_unique
    (done : reconcileAccountTransactions toRfc3339 addresses rebuild assetId network records
      tables = .ok after) (unique : tables.Unique) : after.Unique := by
  induction records generalizing tables with
  | nil => exact pure_eq_ok.mp done ▸ unique
  | cons first rest ih =>
    obtain ⟨outcome, reconciled, later⟩ := reconcileAccountTransactions_cons done
    obtain ⟨current, _, _, _, isTables⟩ := of_reconcileAccountTransactionTx reconciled
    exact ih later (isTables ▸ unique_accountWrittenTables unique)

theorem reconcileAccountTransactions_sameAt
    (done : reconcileAccountTransactions toRfc3339 addresses rebuild assetId network records
      tables = .ok after) {key : TxKey}
    (others : ∀ record ∈ records, key ≠ record.key assetId network) : tables.SameAt after key := by
  induction records generalizing tables with
  | nil => exact pure_eq_ok.mp done ▸ .refl tables key
  | cons first rest ih =>
    obtain ⟨outcome, reconciled, later⟩ := reconcileAccountTransactions_cons done
    obtain ⟨current, isCurrent, _, _, isTables⟩ := of_reconcileAccountTransactionTx reconciled
    obtain ⟨notFirst, notLater⟩ := List.forall_mem_cons.mp others
    have same := @sameAt_accountWrittenTables addresses assetId network first tables key current
      (accountChainTransactionRow_key isCurrent) notFirst
    rw [← isTables] at same
    exact same.trans (ih later notLater)

theorem SyncAccountTransactionRecord.key_eq_iff {left right : SyncAccountTransactionRecord} :
    left.key assetId network = right.key assetId network ↔ left.txHash = right.txHash := by
  simp [SyncAccountTransactionRecord.key]

theorem storedAs_of_reconcileAccountTransactions
    (done : reconcileAccountTransactions toRfc3339 addresses rebuild assetId network records
      tables = .ok after)
    (unique : tables.Unique) (keyed : Keyed SyncAccountTransactionRecord.txHash records)
    {record : SyncAccountTransactionRecord} (member : record ∈ records)
    (once : (record.transfers.map SyncAccountTransferRecord.providerTransferKey ++
      record.excludedTransferKeys).Nodup)
    (provided : ∀ key ∈ record.transfers.map SyncAccountTransferRecord.providerTransferKey ++
      record.excludedTransferKeys, key = .normal ∨ ∃ traceId, key.text = "internal:" ++ traceId)
    (covered : ∀ row ∈ tables.accountTransfers, row.txKey = record.key assetId network →
      ∃ key ∈ record.transfers.map SyncAccountTransferRecord.providerTransferKey ++
        record.excludedTransferKeys, row.providerTransferKey = key.text) :
    StoredAs toRfc3339 addresses assetId network record after := by
  induction records generalizing tables with
  | nil => exact absurd member List.not_mem_nil
  | cons first rest ih =>
    obtain ⟨outcome, reconciled, later⟩ := reconcileAccountTransactions_cons done
    obtain ⟨current, isCurrent, _, _, isTables⟩ := of_reconcileAccountTransactionTx reconciled
    obtain ⟨fresh, restKeyed⟩ := List.nodup_cons.mp keyed
    rcases List.mem_cons.mp member with rfl | inRest
    · refine (storedAs_of_reconcile reconciled unique once provided covered).of_sameAt
        (reconcileAccountTransactions_sameAt later fun other inRest same => ?_)
      rw [SyncAccountTransactionRecord.key_eq_iff] at same
      exact fresh (same ▸ List.mem_map_of_mem inRest)
    · have differs : record.key assetId network ≠ first.key assetId network := by
        intro same
        rw [SyncAccountTransactionRecord.key_eq_iff] at same
        exact fresh (same ▸ List.mem_map_of_mem inRest)
      have same := @sameAt_accountWrittenTables addresses assetId network first tables _ current
        (accountChainTransactionRow_key isCurrent) differs
      rw [← isTables] at same
      refine ih later (isTables ▸ unique_accountWrittenTables unique) restKeyed inRest
        fun row stored own => ?_
      refine covered row ?_ own
      have filtered : row ∈ (tables.accountTransfers.filter fun row =>
          row.txKey = record.key assetId network) ↔ _ :=
        iff_of_eq (congrArg (row ∈ ·) same.transfers)
      have before := filtered.mpr (List.mem_filter.mpr ⟨stored, decide_eq_true own⟩)
      exact (List.mem_filter.mp before).1

end Reconcile

end Bitgarth.Store
