import Bitgarth.Store.AccountConservation

/-! # Value is conserved in every reached state

The records that the provider's rows are mapped to name normal and internal transfers only, so
reconciling them leaves no legacy row beside a normal transfer. Whatever was reconciled before, the
rebuilt ledgers of all accounts then lose the fee of a transaction once (`reached_conserve`).
-/

namespace Bitgarth.Store

open Amounts Ledger KeyedTable Fallible Reachability

open Sync (SyncedAssetId)

/-! ## Mapped records -/

section Mapped

variable {parseEthAddress : String → Except ParseError String}
  {byHash : List EtherscanAggregatedTx} {aggregated : EtherscanAggregatedTx}

/-- Only normal and internal transfers were gathered. -/
def EtherscanAggregatedTx.Provided (aggregated : EtherscanAggregatedTx) : Prop :=
  ∀ entry ∈ aggregated.transfers, Store.Provided (aggregatedKey entry)

theorem EtherscanAggregatedTx.Provided.upsert (provided : aggregated.Provided)
    {entry : SyncAccountTransferRecord × ChainTransactionStatus}
    (isProvided : Store.Provided (aggregatedKey entry)) :
    ∀ other ∈ upsertAggregatedTransfer aggregated.transfers entry,
      Store.Provided (aggregatedKey other) := by
  intro other member
  rcases mem_of_mem_upsert member with isOld | rfl | ⟨_, _, _, rfl⟩
  · exact provided other isOld
  · exact isProvided
  · exact isProvided

theorem EtherscanAggregatedTx.Provided.addNormal (provided : aggregated.Provided)
    {row : EtherscanNormalRow} (isProvided : Store.Provided row.transfer.providerTransferKey) :
    (aggregated.addNormal row).Provided :=
  @EtherscanAggregatedTx.Provided.upsert _ provided row.entry isProvided

theorem EtherscanAggregatedTx.Provided.addInternal (provided : aggregated.Provided)
    {row : EtherscanRow} (isProvided : Store.Provided row.transfer.providerTransferKey) :
    (aggregated.addInternal row).Provided :=
  @EtherscanAggregatedTx.Provided.upsert _ provided row.entry isProvided

theorem provided_upsert {incoming : EtherscanAggregatedTx}
    {merge : EtherscanAggregatedTx → EtherscanAggregatedTx}
    (provided : ∀ aggregated ∈ byHash, aggregated.Provided) (isProvided : incoming.Provided)
    (merges : ∀ old : EtherscanAggregatedTx, old.Provided → (merge old).Provided) :
    ∀ aggregated ∈ upsert EtherscanAggregatedTx.txHash (fun old _ => merge old) incoming byHash,
      aggregated.Provided := by
  intro aggregated member
  rcases mem_of_mem_upsert member with isOld | rfl | ⟨old, isOld, _, rfl⟩
  · exact provided aggregated isOld
  · exact isProvided
  · exact merges old (provided old isOld)

theorem provided_gatherAll {normalRows : List EtherscanNormalRow}
    {internalRows : List EtherscanRow}
    (normals : ∀ row ∈ normalRows, Provided row.transfer.providerTransferKey)
    (internals : ∀ row ∈ internalRows, Provided row.transfer.providerTransferKey) :
    ∀ aggregated ∈ gatherAll normalRows internalRows, aggregated.Provided := by
  have gathered := List.foldlRecOn (motive := fun byHash =>
    ∀ aggregated ∈ byHash, aggregated.Provided) normalRows aggregateNormal
    (fun _ member => absurd member List.not_mem_nil) fun byHash provided row member => by
      have isProvided := normals row member
      have fresh : (EtherscanAggregatedTx.ofNormal row).Provided :=
        fun _ isEntry => absurd isEntry List.not_mem_nil
      exact provided_upsert provided (fresh.addNormal isProvided) fun _ old =>
        old.addNormal isProvided
  exact List.foldlRecOn (motive := fun byHash =>
    ∀ aggregated ∈ byHash, aggregated.Provided) internalRows aggregateInternal
    gathered fun byHash provided row member => by
      have isProvided := internals row member
      have fresh : (EtherscanAggregatedTx.ofInternal row).Provided :=
        fun _ isEntry => absurd isEntry List.not_mem_nil
      exact provided_upsert provided (fresh.addInternal isProvided) fun _ old =>
        old.addInternal isProvided

theorem provided_of_mapped {normals : List EtherscanNormalTx}
    {internals : List EtherscanInternalTx} {records : List SyncAccountTransactionRecord}
    (mapped : mapEtherscanTransactions parseEthAddress normals internals = .ok records)
    {record : SyncAccountTransactionRecord} (member : record ∈ records) :
    ∀ transfer ∈ record.transfers, Provided transfer.providerTransferKey := by
  obtain ⟨normalRows, internalRows, normalParsed, internalParsed, isRecord⟩ :=
    mapEtherscanTransactions_eq_ok mapped
  obtain ⟨aggregated, gathered, rfl⟩ := (isRecord record).mp member
  intro transfer isTransfer
  have isKey := aggregated.toRecord_keys.subset
    (List.mem_append_left _ (List.mem_map_of_mem isTransfer))
  obtain ⟨entry, isEntry, same⟩ := List.mem_map.mp isKey
  rw [← same]
  refine provided_gatherAll (fun row isRow => ?_) (fun row isRow => ?_) aggregated gathered
    entry isEntry
  · obtain ⟨raw, _, parsed⟩ := (mem_of_mapM_eq_ok normalParsed).2 row isRow
    exact .inl (parseEtherscanNormalRow_spec parsed).2
  · obtain ⟨raw, _, parsed⟩ := (mem_of_mapM_eq_ok internalParsed).2 row isRow
    exact .inr ⟨_, (fromInternalTraceId_eq_some.mp (parseEtherscanInternalRow_spec parsed).2).2⟩

end Mapped

/-! ## Runs -/

section Runs

variable {toRfc3339 : ℤ → String} {addresses : List AddressRow}
  {rebuild : TransactionTables → String → Except DbError Unit} {step : LedgerStep}
  {db after : TransactionTables} {parseEthAddress : String → Except ParseError String}

/-- The record of an account-model step was mapped from rows of the provider. -/
def LedgerStep.Mapped (parseEthAddress : String → Except ParseError String) :
    LedgerStep → Prop
  | bitcoin _ => True
  | account _ _ record => ∃ normals internals records,
      mapEtherscanTransactions parseEthAddress normals internals = .ok records ∧ record ∈ records

theorem LedgerStep.Commits.normalRetired
    (commits : step.Commits toRfc3339 addresses rebuild db after)
    (mapped : step.Mapped parseEthAddress) (retired : NormalRetired db.accountTransfers) :
    NormalRetired after.accountTransfers := by
  cases step with
  | bitcoin step =>
    obtain ⟨outcome, done, rfl⟩ := commits
    rw [(of_applyTransactionReconciliation done).2.1]
    apply retired.subset
    intro row member
    unfold writtenTables cleanedTables at member
    dsimp only at member
    rw [executeChainCleanup_transfers] at member
    exact (List.mem_filter.mp member).1
  | account assetId network record =>
    obtain ⟨outcome, done, rfl⟩ := commits
    obtain ⟨normals, internals, records, isMapped, member⟩ := mapped
    exact normalRetired_reconcile (provided_of_mapped isMapped member) retired done

/-- **Value is conserved** over the ledgers rebuilt in any reached state: where the transfers of a
transaction stay among the accounts, the balances change together by the fee, once. -/
theorem reached_conserve (distinct : (addresses.map AddressRow.id).Nodup)
    (reached : Reached (LedgerStep.Commits toRfc3339 addresses rebuild)
      (fun step _ => step.Mapped parseEthAddress) emptyTables db)
    {parseDatetime : String → Except DbError ℤ} {columns : TxKey → ChainTransactionColumns}
    {chain : ChainTransactionRow} {accountIds : Finset String}
    {entriesOf : String → List LedgerBuildEntry} (stored : chain ∈ db.chainTransactions)
    (counts : chain.status ≠ .failed) (stays : StaysAmong addresses accountIds db chain.key)
    (built : ∀ accountId ∈ accountIds, accountModelEntries parseDatetime columns addresses
      (accountOf chain.key accountId) db = .ok (entriesOf accountId)) :
    ∑ accountId ∈ accountIds, changeAt (entriesOf accountId) chain.key.txHash =
      -(if ∃ accountId ∈ accountIds,
          OwnsNormalSender addresses (accountOf chain.key accountId) db chain.key
        then (chain.feeValue : ℤ) else 0) := by
  have both : db.Unique ∧ NormalRetired db.accountTransfers := by
    apply reached.invariant
      ⟨emptyTables_unique, fun row member => absurd member List.not_mem_nil⟩
    rintro step before after ⟨unique, retired⟩ mapped commits
    exact ⟨commits.unique unique, commits.normalRetired mapped retired⟩
  have found := (find_eq_some_iff both.1.chainTransactions).mpr ⟨stored, rfl⟩
  rw [sum_changeAt distinct found counts stays built,
    card_ownsNormalSender distinct both.1.accountTransfers both.2]
  split
  · rw [Nat.cast_one, one_mul]
  · rw [Nat.cast_zero, zero_mul]

end Runs

/-! ## A mapped payment -/

def mappedHash : String := String.ofList (List.replicate 64 '1')

/-- A payment of 5 with a fee of 1, as the provider lists it. -/
def mappedRow : EtherscanNormalTx where
  hash := "0x" ++ mappedHash
  blockNumber := "7"
  timeStamp := "0"
  fromAddress := "0xa"
  toAddress := "0xb"
  value := "5"
  gasPrice := "1"
  gasUsed := "1"
  isError := "0"
  txreceiptStatus := "1"
  nonce := "0"

def mappedRecords : List SyncAccountTransactionRecord :=
  (mapEtherscanTransactions .ok [mappedRow] []).toOption.getD []

def mappedTables : TransactionTables :=
  (mappedRecords.foldlM (fun db record => AccountReconcileOutcome.tables <$>
    reconcileAccountTransactionTx (fun _ => "") paymentAddresses (fun _ _ => .ok ()) .ethereum
      .mainnet record db) emptyTables).toOption.getD emptyTables

def mappedEntries (accountId : String) : List LedgerBuildEntry :=
  (accountModelEntries (fun _ => .ok 0) (fun _ => ⟨"1", 0, 0⟩) paymentAddresses
    { accountId, assetId := .ethereum, network := .mainnet } mappedTables).toOption.getD []

theorem reached_conserve_paid :
    ∑ accountId ∈ {"first", "second"}, changeAt (mappedEntries accountId) mappedHash = -1 := by
  have mapped : mapEtherscanTransactions .ok [mappedRow] [] = .ok mappedRecords := by decide +kernel
  have committed : ∃ record ∈ mappedRecords, AccountReconcileOutcome.tables <$>
      reconcileAccountTransactionTx (fun _ => "") paymentAddresses (fun _ _ => .ok ()) .ethereum
        .mainnet record emptyTables = .ok mappedTables := by decide +kernel
  obtain ⟨record, member, ran⟩ := committed
  have reached : Reached (LedgerStep.Commits (fun _ => "") paymentAddresses fun _ _ => .ok ())
      (fun step _ => step.Mapped .ok) emptyTables mappedTables :=
    @Reached.step _ _ _ _ _ _ _ (.account .ethereum .mainnet record) .start
      ⟨_, _, _, mapped, member⟩ (map_eq_ok.mp ran)
  have stored : ∃ chain ∈ mappedTables.chainTransactions,
      chain.key = ⟨.ethereum, .mainnet, mappedHash⟩ ∧ chain.status ≠ .failed ∧
        chain.feeValue = 1 := by decide +kernel
  obtain ⟨chain, isChain, isKey, counts, fee⟩ := stored
  have stays : StaysAmong paymentAddresses {"first", "second"} mappedTables chain.key := by
    rw [isKey]
    unfold StaysAmong
    decide +kernel
  have built : ∀ accountId ∈ ({"first", "second"} : Finset String),
      accountModelEntries (fun _ => .ok 0) (fun _ => ⟨"1", 0, 0⟩) paymentAddresses
        (accountOf chain.key accountId) mappedTables = .ok (mappedEntries accountId) := by
    rw [isKey]
    decide +kernel
  have total := reached_conserve (by decide) reached isChain counts stays built
  rw [isKey, fee, if_pos (by decide +kernel)] at total
  exact total

end Bitgarth.Store
