import Bitgarth.Store.AccountWrites
import Bitgarth.Store.ReconcileRuns

/-! # Ownership by asset and network

Address texts are unique per asset and network only, but reconciliation looks them up by the
text alone. Where every text a record names resolves to an address of the record's own asset and
network, all stored rows refer to addresses of their transaction's asset and network. The rows
a ledger build reads are filtered by the scope of the account, so no record adds to an account
of another scope.
-/

namespace Bitgarth.Store

open Amounts Ledger KeyedTable Fallible Reachability

open Sync (SyncedAssetId)

/-! ## Scoped tables -/

section Scoped

variable (addresses : List AddressRow)

/-- A tracked address of the asset and network of a transaction. -/
def TrackedIn (key : TxKey) (addressId : String) : Prop :=
  ∃ address ∈ addresses, address.id = addressId ∧ key.InScope address.assetId address.network

instance (key : TxKey) (addressId : String) : Decidable (TrackedIn addresses key addressId) :=
  inferInstanceAs (Decidable (∃ address ∈ addresses, _))

/-- Every stored row refers to addresses of its transaction's asset and network. -/
structure TransactionTables.Scoped (db : TransactionTables) : Prop where
  inputs : ∀ row ∈ db.transactionInputs, TrackedIn addresses row.txKey row.addressId
  outputs : ∀ row ∈ db.transactionOutputs, TrackedIn addresses row.txKey row.addressId
  utxos : ∀ row ∈ db.utxos, TrackedIn addresses row.txKey row.addressId
  transfers : ∀ row ∈ db.accountTransfers,
    (∀ addressId ∈ row.fromAddressId, TrackedIn addresses row.txKey addressId) ∧
      ∀ addressId ∈ row.toAddressId, TrackedIn addresses row.txKey addressId

/-- The rows a ledger build of an account reads. -/
structure LedgerRows where
  chainTransactions : List ChainTransactionRow
  transactionInputs : List TransactionInputRow
  transactionOutputs : List TransactionOutputRow
  accountTransfers : List AccountTransferRow
deriving DecidableEq

/-- What `utxo_model_entries` and `account_model_entries` select for an account: rows of its
asset and network with an end at one of its addresses. -/
def TransactionTables.ledgerRows (accountId : String) (assetId : SyncedAssetId)
    (network : Network) (db : TransactionTables) : LedgerRows where
  chainTransactions := db.chainTransactions.filter fun row => row.key.InScope assetId network
  transactionInputs := db.transactionInputs.filter fun row =>
    row.txKey.InScope assetId network ∧ Owns addresses accountId row.addressId
  transactionOutputs := db.transactionOutputs.filter fun row =>
    row.txKey.InScope assetId network ∧ Owns addresses accountId row.addressId
  accountTransfers := db.accountTransfers.filter fun row =>
    row.txKey.InScope assetId network ∧
      ((∃ addressId ∈ row.fromAddressId, Owns addresses accountId addressId) ∨
        ∃ addressId ∈ row.toAddressId, Owns addresses accountId addressId)

end Scoped

/-! ## Steps -/

/-- A reconciliation of either kind. -/
inductive LedgerStep where
  | bitcoin (step : BitcoinStep)
  | account (assetId : SyncedAssetId) (network : Network) (record : SyncAccountTransactionRecord)

namespace LedgerStep

def assetId : LedgerStep → SyncedAssetId
  | bitcoin step => step.assetId
  | account assetId _ _ => assetId

def network : LedgerStep → Network
  | bitcoin step => step.network
  | account _ network _ => network

/-- The transaction of a step. -/
def key : LedgerStep → TxKey
  | bitcoin step => step.record.key step.assetId step.network
  | account assetId network record => record.key assetId network

/-- The address texts a step looks up. -/
def addressTexts : LedgerStep → List String
  | bitcoin step =>
    step.record.inputs.filterMap (·.prevAddress) ++ step.record.outputs.filterMap (·.rawAddress)
  | account _ _ record =>
    record.transfers.filterMap (·.fromAddress) ++ record.transfers.filterMap (·.toAddress)

variable (toRfc3339 : ℤ → String) (addresses : List AddressRow)
  (rebuild : TransactionTables → String → Except DbError Unit)

/-- A step that commits. -/
def Commits : LedgerStep → TransactionTables → TransactionTables → Prop
  | bitcoin step, db, after => step.Commits toRfc3339 addresses db after
  | account assetId network record, db, after => ∃ outcome,
      reconcileAccountTransactionTx toRfc3339 addresses rebuild assetId network record db =
        .ok outcome ∧ outcome.tables = after

/-- Each text a step looks up is found, if at all, as an address of the step's own asset and
network. -/
def ResolvesInScope (step : LedgerStep) : Prop :=
  ∀ text ∈ step.addressTexts, ∀ address ∈ addresses.find? fun row => row.address = text,
    address.assetId = step.assetId ∧ address.network = step.network

instance (step : LedgerStep) : Decidable (step.ResolvesInScope addresses) :=
  inferInstanceAs (Decidable (∀ text ∈ step.addressTexts, _))

end LedgerStep

section Steps

variable {toRfc3339 : ℤ → String} {addresses : List AddressRow}
  {rebuild : TransactionTables → String → Except DbError Unit} {step : LedgerStep}
  {db after : TransactionTables}

theorem LedgerStep.ResolvesInScope.trackedIn (resolves : step.ResolvesInScope addresses)
    {rawAddress : Option String} (looksUp : ∀ text ∈ rawAddress, text ∈ step.addressTexts)
    {addressId : String} (resolved : resolveOwnedAddressId addresses rawAddress = some addressId) :
    TrackedIn addresses step.key addressId := by
  obtain ⟨text, isText, found⟩ := Option.bind_eq_some_iff.mp resolved
  obtain ⟨address, isFirst, isId⟩ := Option.map_eq_some_iff.mp found
  obtain ⟨asset, scope⟩ := resolves text (looksUp text isText) address isFirst
  refine ⟨address, List.mem_of_find?_eq_some isFirst, isId, ?_⟩
  cases step with
  | bitcoin step => exact ⟨asset.symm, scope.symm⟩
  | account assetId network record => exact ⟨asset.symm, scope.symm⟩

theorem utxoAfter_cases {assetId : SyncedAssetId} {network : Network}
    {record : SyncTransactionRecord} {outpoint : TxKey × ℤ} {row : UtxoRow}
    (isAfter : utxoAfter addresses assetId network record db outpoint = some row) :
    ∃ source, row.txKey = source.txKey ∧ row.addressId = source.addressId ∧
      (find UtxoRow.key db.utxos outpoint = some source ∨
        listedAt addresses (record.key assetId network) record outpoint = some source) := by
  unfold utxoAfter at isAfter
  dsimp only at isAfter
  obtain ⟨before, isBefore, rfl⟩ := Option.map_eq_some_iff.mp isAfter
  have sameKey : (droppedRow (record.key assetId network) record
      (spentLink record assetId network before)).txKey = before.txKey :=
    congrArg Prod.fst ((droppedRow_key _).trans (spentLink_key assetId network before))
  have sameAddress : (droppedRow (record.key assetId network) record
      (spentLink record assetId network before)).addressId = before.addressId := by
    unfold droppedRow dropUtxo spentLink
    split <;> split <;> (try split) <;> rfl
  rcases Option.or_eq_some_iff.mp isBefore with listed | ⟨_, old⟩
  · obtain ⟨row, isListed, rfl⟩ := Option.map_eq_some_iff.mp listed
    exact ⟨row, sameKey, sameAddress, .inr isListed⟩
  · exact ⟨before, sameKey, sameAddress, .inl old⟩

theorem scoped_bitcoin {step : BitcoinStep} (unique : db.Unique) (inScope : db.Scoped addresses)
    (resolves : (LedgerStep.bitcoin step).ResolvesInScope addresses) :
    (writtenTables toRfc3339 addresses step.assetId step.network step.record db).Scoped
      addresses := by
  have ofInput : ∀ input ∈ step.record.inputs, ∀ text ∈ input.prevAddress,
      text ∈ (LedgerStep.bitcoin step).addressTexts := fun input inRecord text isText =>
    List.mem_append_left _ (List.mem_filterMap.mpr ⟨input, inRecord, isText⟩)
  have ofOutput : ∀ output ∈ step.record.outputs, ∀ text ∈ output.rawAddress,
      text ∈ (LedgerStep.bitcoin step).addressTexts := fun output inRecord text isText =>
    List.mem_append_right _ (List.mem_filterMap.mpr ⟨output, inRecord, isText⟩)
  refine ⟨?_, ?_, ?_, ?_⟩
  · intro row member
    rw [mem_writtenTables_inputs unique] at member
    split at member <;> rename_i own
    · obtain ⟨input, inRecord, _, stored⟩ := inputAt_eq_some member
      obtain ⟨addressId, resolved, written⟩ := storedInput_eq_some.mp stored
      rw [(transactionInputRow_spec written).2.2.2.2, own]
      exact resolves.trackedIn (ofInput input inRecord) resolved
    · exact inScope.inputs row member
  · intro row member
    rw [mem_writtenTables_outputs unique] at member
    split at member <;> rename_i own
    · obtain ⟨output, inRecord, _, stored⟩ := outputAt_eq_some member
      obtain ⟨addressId, resolved, written⟩ := storedOutput_eq_some.mp stored
      rw [(transactionOutputRow_spec written).2.2, own]
      exact resolves.trackedIn (ofOutput output inRecord) resolved
    · exact inScope.outputs row member
  · intro row member
    have found := (find_key_eq_some_iff (unique_writtenTables unique).utxos).mpr member
    rw [find_writtenTables_utxos unique] at found
    obtain ⟨source, isKey, isAddress, fromOld | listed⟩ := utxoAfter_cases found
    · rw [isKey, isAddress]
      exact inScope.utxos source (mem_of_find fromOld)
    · obtain ⟨output, inReversed, isListed⟩ := List.exists_of_findSome?_eq_some listed
      have inRecord := List.mem_reverse.mp inReversed
      obtain ⟨addressId, resolved, written⟩ :=
        listedOutput_eq_some.mp (Option.filter_eq_some_iff.mp isListed).1
      obtain ⟨ofKey, ofAddress, _⟩ := utxoRow_spec written
      have ofRecord : source.txKey = step.record.key step.assetId step.network :=
        congrArg Prod.fst ofKey
      rw [isKey, isAddress, ofRecord, ofAddress]
      exact resolves.trackedIn (ofOutput output inRecord) resolved
  · intro row member
    rw [writtenTables_transfers] at member
    exact inScope.transfers row (List.mem_filter.mp member).1

theorem scoped_account {assetId : SyncedAssetId} {network : Network}
    {record : SyncAccountTransactionRecord} {current : ChainTransactionRow}
    (inScope : db.Scoped addresses)
    (resolves : (LedgerStep.account assetId network record).ResolvesInScope addresses) :
    (accountWrittenTables addresses assetId network record current db).Scoped addresses := by
  unfold accountWrittenTables
  obtain ⟨inputs, outputs, utxos⟩ := @executeChainCleanup_tables { db with
    chainTransactions := upsert ChainTransactionRow.key replaceRow current db.chainTransactions
    accountTransfers := retainedTransfers addresses assetId network record db.accountTransfers }
    (record.key assetId network)
  refine ⟨?_, ?_, ?_, ?_⟩
  · rw [inputs]
    exact inScope.inputs
  · rw [outputs]
    exact inScope.outputs
  · rw [utxos]
    exact inScope.utxos
  · intro row member
    rw [executeChainCleanup_transfers] at member
    rcases mem_of_mem_retainedTransfers (List.mem_filter.mp member).1 with
      before | ⟨transfer, inRecord, stored⟩
    · exact inScope.transfers row before
    · obtain ⟨ofKey, isFrom, isTo⟩ :=
        accountTransferRow_spec (storedTransfer_eq_some.mp stored).2
      rw [show row.txKey = record.key assetId network from congrArg Prod.fst ofKey, isFrom, isTo]
      constructor
      · intro addressId resolved
        exact resolves.trackedIn (fun text isText =>
          List.mem_append_left _ (List.mem_filterMap.mpr ⟨transfer, inRecord, isText⟩)) resolved
      · intro addressId resolved
        exact resolves.trackedIn (fun text isText =>
          List.mem_append_right _ (List.mem_filterMap.mpr ⟨transfer, inRecord, isText⟩)) resolved

theorem LedgerStep.Commits.inScope (commits : step.Commits toRfc3339 addresses rebuild db after)
    (unique : db.Unique) (inScope : db.Scoped addresses)
    (resolves : step.ResolvesInScope addresses) : after.Scoped addresses := by
  cases step with
  | bitcoin step =>
    obtain ⟨outcome, done, rfl⟩ := commits
    rw [(of_applyTransactionReconciliation done).2.1]
    exact scoped_bitcoin unique inScope resolves
  | account assetId network record =>
    obtain ⟨outcome, done, rfl⟩ := commits
    obtain ⟨current, _, _, _, isTables⟩ := of_reconcileAccountTransactionTx done
    rw [isTables]
    exact scoped_account inScope resolves

theorem LedgerStep.Commits.unique (commits : step.Commits toRfc3339 addresses rebuild db after)
    (unique : db.Unique) : after.Unique := by
  cases step with
  | bitcoin step => exact BitcoinStep.Commits.unique unique commits
  | account assetId network record =>
    obtain ⟨outcome, done, rfl⟩ := commits
    obtain ⟨current, _, _, _, isTables⟩ := of_reconcileAccountTransactionTx done
    rw [isTables]
    exact unique_accountWrittenTables unique

/-! ## Ledgers of other scopes -/

theorem filter_executeChainCleanup_chain {key : TxKey} {keep : ChainTransactionRow → Bool}
    (dropped : ∀ row, row.key = key → keep row = false) :
    (executeChainCleanup key db).1.chainTransactions.filter keep =
      db.chainTransactions.filter keep := by
  unfold executeChainCleanup
  dsimp only
  split
  · rw [List.filter_filter]
    apply List.filter_congr
    intro row _
    by_cases own : row.key = key
    · simp [dropped row own]
    · simp [own]
  · rfl

theorem filter_executeChainCleanup_transfers {key : TxKey} {keep : AccountTransferRow → Bool}
    (dropped : ∀ row, row.txKey = key → keep row = false) :
    (executeChainCleanup key db).1.accountTransfers.filter keep =
      db.accountTransfers.filter keep := by
  rw [executeChainCleanup_transfers, List.filter_filter]
  apply List.filter_congr
  intro row _
  by_cases own : row.txKey = key
  · simp [dropped row own]
  · simp [own]

theorem LedgerStep.Commits.ledgerRows_of_other
    (commits : step.Commits toRfc3339 addresses rebuild db after) (accountId : String)
    {assetId : SyncedAssetId} {network : Network}
    (other : ¬ (assetId = step.assetId ∧ network = step.network)) :
    after.ledgerRows addresses accountId assetId network =
      db.ledgerRows addresses accountId assetId network := by
  have outside : ¬ step.key.InScope assetId network := by
    rintro ⟨asset, scope⟩
    apply other
    cases step with
    | bitcoin step => exact ⟨asset.symm, scope.symm⟩
    | account assetId network record => exact ⟨asset.symm, scope.symm⟩
  have outsideRow : ∀ key : TxKey, key = step.key → ∀ more : Prop, [Decidable more] →
      decide (key.InScope assetId network ∧ more) = false := by
    intro key own more _
    exact decide_eq_false fun both => outside (own ▸ both.1)
  have outsideChain : ∀ row : ChainTransactionRow, row.key = step.key →
      decide (row.key.InScope assetId network) = false := by
    intro row own
    exact decide_eq_false (own ▸ outside)
  unfold TransactionTables.ledgerRows
  cases step with
  | bitcoin step =>
    obtain ⟨outcome, done, rfl⟩ := commits
    rw [(of_applyTransactionReconciliation done).2.1]
    congr 1
    · exact (filter_executeChainCleanup_chain outsideChain).trans
        (filter_upsert_of_neg (outsideChain _ rfl) fun old same =>
          ⟨outsideChain old same, outsideChain _ rfl⟩)
    · exact filter_writtenTables_inputs fun row own => outsideRow row.txKey own _
    · exact filter_writtenTables_outputs fun row own => outsideRow row.txKey own _
    · exact filter_executeChainCleanup_transfers fun row own => outsideRow row.txKey own _
  | account accountAsset accountNetwork record =>
    obtain ⟨outcome, done, rfl⟩ := commits
    obtain ⟨current, isCurrent, _, _, isTables⟩ := of_reconcileAccountTransactionTx done
    rw [isTables]
    unfold accountWrittenTables
    have isKey := accountChainTransactionRow_key isCurrent
    congr 1
    · exact (filter_executeChainCleanup_chain outsideChain).trans
        (filter_upsert_of_neg (outsideChain _ isKey) fun old same =>
          ⟨outsideChain old (same.trans isKey), outsideChain _ isKey⟩)
    · rw [executeChainCleanup_tables.1]
    · rw [executeChainCleanup_tables.2.1]
    · exact (filter_executeChainCleanup_transfers fun row own =>
        outsideRow row.txKey own _).trans
          (filter_retainedTransfers (fun row own => outsideRow row.txKey own _) _)

/-- In a run whose texts all resolve in the scope of their step, every stored row refers to
addresses of its transaction's scope, and no step adds to the ledger of another scope. -/
theorem reached_scoped {start : TransactionTables} (unique : start.Unique)
    (inScope : start.Scoped addresses)
    (reached : Reached (LedgerStep.Commits toRfc3339 addresses rebuild)
      (fun step _ => step.ResolvesInScope addresses) start db) :
    db.Scoped addresses ∧
      ∀ step after, LedgerStep.Commits toRfc3339 addresses rebuild step db after →
        ∀ accountId assetId network, ¬ (assetId = step.assetId ∧ network = step.network) →
          after.ledgerRows addresses accountId assetId network =
            db.ledgerRows addresses accountId assetId network := by
  have both : db.Unique ∧ db.Scoped addresses := by
    apply reached.invariant ⟨unique, inScope⟩
    rintro step state after ⟨unique, inScope⟩ resolves commits
    exact ⟨commits.unique unique, commits.inScope unique inScope resolves⟩
  exact ⟨both.2, fun step after commits accountId assetId network other =>
    commits.ledgerRows_of_other accountId other⟩

end Steps

/-! ### One address text on two networks -/

/-- A test address, tracked by an account on testnet and by one on signet. -/
def twiceTracked : List AddressRow := [{
    id := "address-testnet"
    accountId := some "account-testnet"
    assetId := .bitcoin
    network := .testnet
    address := "tb1qshared"
    addressNormalized := "tb1qshared" }, {
    id := "address-signet"
    accountId := some "account-signet"
    assetId := .bitcoin
    network := .signet
    address := "tb1qshared"
    addressNormalized := "tb1qshared" }]

/-- A payment of the test address on one of the networks. -/
def sharedPayment (network : Network) : BitcoinStep where
  assetId := .bitcoin
  network
  record := {
    txHash := "aa"
    status := .confirmed
    blockHeight := some 100
    blockHash := none
    blockTime := none
    feeAmount := none
    inputs := []
    outputs := [{
      outputIndex := 0
      rawAddress := some "tb1qshared"
      scriptPubkeyHex := "0014"
      valueAmount := 50 }] }

theorem emptyTables_scoped : emptyTables.Scoped twiceTracked :=
  ⟨by simp [emptyTables], by simp [emptyTables], by simp [emptyTables], by simp [emptyTables]⟩

theorem sharedPayment_commits (network : Network) :
    (LedgerStep.bitcoin (sharedPayment network)).Commits (fun _ => "") twiceTracked
      (fun _ _ => .ok ()) emptyTables
      ((sharedPayment network).tables (fun _ => "") twiceTracked emptyTables) := by
  apply BitcoinStep.commits_tables
  cases network <;> decide +kernel

theorem reached_scoped_testnet :
    ((sharedPayment .testnet).tables (fun _ => "") twiceTracked emptyTables).Scoped twiceTracked :=
  (reached_scoped emptyTables_unique emptyTables_scoped
    (Reached.start.step (by decide +kernel) (sharedPayment_commits .testnet))).1

/-- A payment on signet is stored for the testnet address. -/
theorem signet_payment_stored_for_testnet :
    ∃ db, Reached (LedgerStep.Commits (fun _ => "") twiceTracked fun _ _ => .ok ())
      (fun _ _ => True) emptyTables db ∧ ¬ db.Scoped twiceTracked := by
  refine ⟨_, Reached.start.step trivial (sharedPayment_commits .signet), ?_⟩
  intro inScope
  have outputs := inScope.outputs
  revert outputs
  decide +kernel

end Bitgarth.Store
