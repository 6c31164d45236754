import Bitgarth.Store.AccountDeltas
import Bitgarth.Store.AccountLastWrites

/-! # The entries of all accounts conserve value

Where the ends of a transaction's transfers are all tracked, what it moves from one account comes
to another, so over all accounts the balances change by the fee of the account that owns the
sender of the normal transfer. The legacy row of a normal transfer is retired when the transfer
itself is written, so a transaction has one normal transfer.
-/

namespace Bitgarth.Store

open Amounts Ledger KeyedTable Fallible RowSelection

open Sync (SyncedAssetId)

/-- An account of the asset and network of a transaction. -/
def accountOf (key : TxKey) (accountId : String) : AccountMeta where
  accountId
  assetId := key.assetId
  network := key.network

/-- What the entry of a transaction changes the balance by, nothing where there is none. -/
def changeAt (entries : List LedgerBuildEntry) (txHash : String) : ℤ :=
  (find LedgerBuildEntry.txHash entries txHash).elim 0 LedgerBuildEntry.balanceDelta

/-! ## One account owns an end -/

section Ends

variable {addresses : List AddressRow} {key : TxKey} {first second : String}
  {addressId : Option String}

theorem owner_unique (unique : (addresses.map AddressRow.id).Nodup)
    (owned : OwnsTransferEnd addresses (accountOf key first) addressId)
    (otherOwned : OwnsTransferEnd addresses (accountOf key second) addressId) :
    first = second := by
  obtain ⟨id, isId, address, member, isAddress, isOwner⟩ := owned
  obtain ⟨otherId, otherIsId, other, otherMember, otherIsAddress, otherIsOwner⟩ := otherOwned
  obtain rfl : id = otherId := Option.some.inj (isId.symm.trans otherIsId)
  have same : address = other :=
    List.inj_on_of_nodup_map unique member otherMember (isAddress.trans otherIsAddress.symm)
  rw [same] at isOwner
  exact Option.some.inj (isOwner.symm.trans otherIsOwner)

end Ends

/-! ## The sum over all accounts -/

section Conservation

variable {addresses : List AddressRow} {db : TransactionTables} {chain : ChainTransactionRow}
  {accountIds : Finset String}

/-- Every transfer of a transaction stays among the addresses of the accounts. -/
def StaysAmong (addresses : List AddressRow) (accountIds : Finset String) (db : TransactionTables)
    (key : TxKey) : Prop :=
  ∀ row ∈ db.accountTransfers, row.txKey = key →
    (∃ accountId ∈ accountIds,
        OwnsTransferEnd addresses (accountOf key accountId) row.fromAddressId) ∧
      ∃ accountId ∈ accountIds, OwnsTransferEnd addresses (accountOf key accountId) row.toAddressId

theorem sum_receivedTotal_eq (unique : (addresses.map AddressRow.id).Nodup)
    (stays : StaysAmong addresses accountIds db chain.key) :
    ∑ accountId ∈ accountIds,
        receivedTotal addresses (accountOf chain.key accountId) db chain.key =
      ∑ accountId ∈ accountIds,
        sentTotal addresses (accountOf chain.key accountId) db chain.key := by
  have received := @sum_sumWhere _ (fun row => row.txKey = chain.key) AccountTransferRow.amount
    db.accountTransfers _ accountIds (fun accountId row =>
      OwnsTransferEnd addresses (accountOf chain.key accountId) row.toAddressId)
    fun row member isKey => by
      obtain ⟨accountId, isAccount, owned⟩ := (stays row member isKey).2
      exact ⟨accountId, isAccount, owned, fun other otherOwned =>
        owner_unique unique otherOwned owned⟩
  have sent := @sum_sumWhere _ (fun row => row.txKey = chain.key) AccountTransferRow.amount
    db.accountTransfers _ accountIds (fun accountId row =>
      OwnsTransferEnd addresses (accountOf chain.key accountId) row.fromAddressId)
    fun row member isKey => by
      obtain ⟨accountId, isAccount, owned⟩ := (stays row member isKey).1
      exact ⟨accountId, isAccount, owned, fun other otherOwned =>
        owner_unique unique otherOwned owned⟩
  exact received.trans sent.symm

theorem sum_accountDelta (unique : (addresses.map AddressRow.id).Nodup)
    (stays : StaysAmong addresses accountIds db chain.key) (counts : chain.status ≠ .failed) :
    ∑ accountId ∈ accountIds, accountDelta addresses (accountOf chain.key accountId) db chain =
      -((accountIds.filter fun accountId =>
        OwnsNormalSender addresses (accountOf chain.key accountId) db chain.key).card *
          chain.feeValue : ℤ) := by
  simp only [accountDelta, if_neg counts, Finset.sum_sub_distrib,
    sum_receivedTotal_eq unique stays, sub_self, zero_sub, chargedFee]
  rw [← Finset.sum_filter, Finset.sum_const, nsmul_eq_mul]

theorem accountDelta_of_absent {account : AccountMeta}
    (absent : ¬ HasTransferEnd addresses account db chain.key) (counts : chain.status ≠ .failed) :
    accountDelta addresses account db chain = 0 := by
  have received : receivedTotal addresses account db chain.key = 0 := by
    apply (sumWhere_of_forall_not fun row member => ?_)
    exact fun ⟨isKey, owned⟩ => absent ⟨row, member, isKey, .inr owned⟩
  have sent : sentTotal addresses account db chain.key = 0 := by
    apply (sumWhere_of_forall_not fun row member => ?_)
    exact fun ⟨isKey, owned⟩ => absent ⟨row, member, isKey, .inl owned⟩
  have charged : chargedFee addresses account db chain = 0 := by
    apply if_neg
    rintro ⟨row, member, isKey, _, owned⟩
    exact absent ⟨row, member, isKey, .inl owned⟩
  rw [accountDelta, if_neg counts, received, sent, charged]
  rfl

end Conservation

/-! ## The entries -/

section Entries

variable {parseDatetime : String → Except DbError ℤ} {columns : TxKey → ChainTransactionColumns}
  {addresses : List AddressRow} {account : AccountMeta} {db : TransactionTables}
  {entries : List LedgerBuildEntry} {chain : ChainTransactionRow}

theorem changeAt_eq_accountDelta
    (built : accountModelEntries parseDatetime columns addresses account db = .ok entries)
    (isKey : chain.key = account.txKey chain.key.txHash) (counts : chain.status ≠ .failed)
    (found : find ChainTransactionRow.key db.chainTransactions chain.key = some chain) :
    changeAt entries chain.key.txHash = accountDelta addresses account db chain := by
  obtain ⟨_, listed, deltas⟩ := accountModelEntries_spec built
  unfold changeAt
  cases isFound : find LedgerBuildEntry.txHash entries chain.key.txHash with
  | some entry =>
    obtain ⟨parent, parentFound, isDelta⟩ := deltas entry (mem_of_find isFound)
    rw [find_eq_some_key isFound, ← isKey, found] at parentFound
    obtain rfl := Option.some.inj parentFound
    exact isDelta
  | none =>
    have absent : ¬ HasTransferEnd addresses account db chain.key := by
      intro occurs
      have isListed : chain.key.txHash ∈ entries.map LedgerBuildEntry.txHash := by
        rw [listed, ← isKey, found]
        exact ⟨rfl, occurs⟩
      obtain ⟨entry, member, isHash⟩ := List.mem_map.mp isListed
      exact find_eq_none_iff.mp isFound entry member isHash
    exact (accountDelta_of_absent absent counts).symm

/-- **The entries of all accounts conserve value.** -/
theorem sum_changeAt {accountIds : Finset String} {entriesOf : String → List LedgerBuildEntry}
    (unique : (addresses.map AddressRow.id).Nodup)
    (found : find ChainTransactionRow.key db.chainTransactions chain.key = some chain)
    (counts : chain.status ≠ .failed) (stays : StaysAmong addresses accountIds db chain.key)
    (built : ∀ accountId ∈ accountIds, accountModelEntries parseDatetime columns addresses
      (accountOf chain.key accountId) db = .ok (entriesOf accountId)) :
    ∑ accountId ∈ accountIds, changeAt (entriesOf accountId) chain.key.txHash =
      -((accountIds.filter fun accountId =>
        OwnsNormalSender addresses (accountOf chain.key accountId) db chain.key).card *
          chain.feeValue : ℤ) := by
  rw [← sum_accountDelta unique stays counts]
  apply Finset.sum_congr rfl
  intro accountId member
  exact changeAt_eq_accountDelta (built accountId member) rfl counts found

end Entries

/-! ## One normal transfer -/

/-- Beside the normal transfer of a transaction its legacy row is gone. -/
def NormalRetired (table : List AccountTransferRow) : Prop :=
  ∀ row ∈ table, row.providerTransferKey = "normal" →
    ∀ other ∈ table, other.txKey = row.txKey → other.providerTransferKey ≠ "legacy:0"

section Normal

variable {addresses : List AddressRow} {db : TransactionTables} {key : TxKey}
  {accountIds : Finset String}

theorem normalSender_unique (keyed : Keyed AccountTransferRow.key db.accountTransfers)
    (retired : NormalRetired db.accountTransfers) {row other : AccountTransferRow}
    (member : row ∈ db.accountTransfers) (otherMember : other ∈ db.accountTransfers)
    (same : row.txKey = other.txKey) (normal : row.isNormalSenderTransfer = true)
    (otherNormal : other.isNormalSenderTransfer = true) : row = other := by
  apply List.inj_on_of_nodup_map keyed member otherMember
  unfold AccountTransferRow.isNormalSenderTransfer at normal otherNormal
  simp only [Bool.or_eq_true, Bool.and_eq_true, decide_eq_true_eq] at normal otherNormal
  refine Prod.ext same ?_
  change row.providerTransferKey = other.providerTransferKey
  rcases normal with isNormal | ⟨isLegacy, _⟩ <;>
    rcases otherNormal with otherIsNormal | ⟨otherIsLegacy, _⟩
  · rw [isNormal, otherIsNormal]
  · exact absurd otherIsLegacy (retired row member isNormal other otherMember same.symm)
  · exact absurd isLegacy (retired other otherMember otherIsNormal row member same)
  · rw [isLegacy, otherIsLegacy]

theorem card_ownsNormalSender (unique : (addresses.map AddressRow.id).Nodup)
    (keyed : Keyed AccountTransferRow.key db.accountTransfers)
    (retired : NormalRetired db.accountTransfers) :
    (accountIds.filter fun accountId =>
      OwnsNormalSender addresses (accountOf key accountId) db key).card =
        if ∃ accountId ∈ accountIds, OwnsNormalSender addresses (accountOf key accountId) db key
        then 1 else 0 := by
  split <;> rename_i owned
  · obtain ⟨accountId, isAccount, row, member, isKey, normal, sends⟩ := owned
    rw [Finset.card_eq_one]
    refine ⟨accountId, Finset.eq_singleton_iff_unique_mem.mpr ⟨?_, ?_⟩⟩
    · exact Finset.mem_filter.mpr ⟨isAccount, row, member, isKey, normal, sends⟩
    · intro other isOther
      obtain ⟨_, otherRow, otherMember, otherIsKey, otherNormal, otherSends⟩ :=
        Finset.mem_filter.mp isOther
      obtain rfl := normalSender_unique keyed retired member otherMember
        (isKey.trans otherIsKey.symm) normal otherNormal
      exact owner_unique unique otherSends sends
  · rw [Finset.card_eq_zero, Finset.filter_eq_empty_iff]
    intro accountId isAccount isOwner
    exact owned ⟨accountId, isAccount, isOwner⟩

end Normal

/-! ## Records retire legacy transfers -/

section Retire

variable {addresses : List AddressRow} {key : TxKey} {table : List AccountTransferRow}
  {transfer : SyncAccountTransferRecord}

/-- The keys a provider gives. -/
def Provided (providerTransferKey : ProviderTransferKey) : Prop :=
  providerTransferKey = .normal ∨ ∃ traceId, providerTransferKey.text = "internal:" ++ traceId

theorem NormalRetired.subset {part : List AccountTransferRow} (retired : NormalRetired table)
    (subset : ∀ row ∈ part, row ∈ table) : NormalRetired part := by
  intro row member normal other otherMember
  exact retired row (subset row member) normal other (subset other otherMember)

theorem Provided.text_ne (provided : Provided transfer.providerTransferKey) :
    transfer.providerTransferKey.text ≠ "legacy:0" := by
  have isLegacy : legacyProviderTransferKey .normal = some "legacy:0" := by decide
  exact (legacyProviderTransferKey_ne isLegacy provided).symm

theorem normalRetired_writeTransfer (provided : Provided transfer.providerTransferKey)
    (retired : NormalRetired table) :
    NormalRetired (writeTransfer addresses key table transfer) := by
  intro row member normal other otherMember same
  rcases mem_of_mem_assign otherMember with otherStored | otherKept
  · have otherKey := storedTransfer_key otherStored
    rw [show other.providerTransferKey = transfer.providerTransferKey.text from
      congrArg Prod.snd otherKey]
    exact provided.text_ne
  have otherBefore := mem_of_mem_retireLegacyTransfer otherKept
  rcases mem_of_mem_assign member with stored | kept
  · -- The normal transfer itself is written, which deletes the legacy row first.
    have rowKey := storedTransfer_key stored
    have isNormal : transfer.providerTransferKey.isNormal = true := by
      unfold ProviderTransferKey.isNormal
      rw [← show row.providerTransferKey = transfer.providerTransferKey.text from
        congrArg Prod.snd rowKey]
      exact decide_eq_true normal
    unfold retireLegacyTransfer legacyProviderTransferKey at otherKept
    rw [if_pos isNormal] at otherKept
    intro isLegacy
    have otherIsKey : other.key = (key, "legacy:0") :=
      Prod.ext (same.trans (congrArg Prod.fst rowKey)) isLegacy
    exact of_decide_eq_true (List.mem_filter.mp otherKept).2 otherIsKey
  · exact retired row (mem_of_mem_retireLegacyTransfer kept) normal other otherBefore same

/-- **A record keeps legacy transfers retired.** -/
theorem normalRetired_reconcile {toRfc3339 : ℤ → String}
    {rebuild : TransactionTables → String → Except DbError Unit} {assetId : SyncedAssetId}
    {network : Network} {record : SyncAccountTransactionRecord} {db : TransactionTables}
    {outcome : AccountReconcileOutcome}
    (provided : ∀ transfer ∈ record.transfers, Provided transfer.providerTransferKey)
    (retired : NormalRetired db.accountTransfers)
    (done : reconcileAccountTransactionTx toRfc3339 addresses rebuild assetId network record db =
      .ok outcome) : NormalRetired outcome.tables.accountTransfers := by
  obtain ⟨_, _, _, _, isTables⟩ := of_reconcileAccountTransactionTx done
  rw [isTables]
  unfold accountWrittenTables
  rw [executeChainCleanup_transfers]
  apply NormalRetired.subset _ fun row member => (List.mem_filter.mp member).1
  unfold retainedTransfers
  have written : NormalRetired (record.transfers.foldl
      (writeTransfer addresses (record.key assetId network)) db.accountTransfers) := by
    have general : ∀ (transfers : List SyncAccountTransferRecord),
        (∀ transfer ∈ transfers, Provided transfer.providerTransferKey) →
          ∀ table, NormalRetired table → NormalRetired
            (transfers.foldl (writeTransfer addresses (record.key assetId network)) table) := by
      intro transfers
      induction transfers with
      | nil => exact fun _ table before => before
      | cons first rest ih =>
        intro each table before
        exact ih (fun transfer member => each transfer (List.mem_cons_of_mem _ member)) _
          (normalRetired_writeTransfer (each first List.mem_cons_self) before)
    exact general record.transfers provided db.accountTransfers retired
  exact written.subset fun row member => mem_of_mem_foldl_deleteTransfer member

end Retire

/-- **Account entries conserve value.** An account has one entry for each transaction with an end
of it, which changes its balance by `accountDelta`; the order of the rows does not matter; and
over all accounts a transaction that stays among them changes the balances by the fee of the one
that owns the normal sender. -/
theorem accountModelEntries_conserve (parseDatetime : String → Except DbError ℤ)
    (columns : TxKey → ChainTransactionColumns) (addresses : List AddressRow)
    (db : TransactionTables) :
    (∀ account entries,
      accountModelEntries parseDatetime columns addresses account db = .ok entries →
        (entries.map LedgerBuildEntry.txHash).Nodup ∧
        (∀ txHash, txHash ∈ entries.map LedgerBuildEntry.txHash ↔
          (find ChainTransactionRow.key db.chainTransactions (account.txKey txHash)).isSome ∧
            HasTransferEnd addresses account db (account.txKey txHash)) ∧
        (∀ entry ∈ entries, ∃ chain,
          find ChainTransactionRow.key db.chainTransactions (account.txKey entry.txHash) =
              some chain ∧
            entry.balanceDelta = accountDelta addresses account db chain) ∧
        ∀ rows, (accountModelRows addresses account db columns).Perm rows →
          ∃ otherEntries, entriesOfRows parseDatetime columns rows = .ok otherEntries ∧
            entries.Perm otherEntries) ∧
    ∀ (chain : ChainTransactionRow) (accountIds : Finset String)
      (entriesOf : String → List LedgerBuildEntry),
      (addresses.map AddressRow.id).Nodup →
      Keyed AccountTransferRow.key db.accountTransfers →
      NormalRetired db.accountTransfers →
      find ChainTransactionRow.key db.chainTransactions chain.key = some chain →
      chain.status ≠ .failed →
      StaysAmong addresses accountIds db chain.key →
      (∀ accountId ∈ accountIds, accountModelEntries parseDatetime columns addresses
        (accountOf chain.key accountId) db = .ok (entriesOf accountId)) →
      ∑ accountId ∈ accountIds, changeAt (entriesOf accountId) chain.key.txHash =
        -(if ∃ accountId ∈ accountIds,
            OwnsNormalSender addresses (accountOf chain.key accountId) db chain.key
          then (chain.feeValue : ℤ) else 0) := by
  refine ⟨?_, ?_⟩
  · intro account entries built
    obtain ⟨distinct, listed, deltas⟩ := accountModelEntries_spec built
    refine ⟨distinct, listed, deltas, ?_⟩
    intro rows perm
    rw [accountModelEntries_eq_entriesOfRows] at built
    exact entriesOfRows_perm (fun row => joined_of_mem_accountModelRows) perm built
  · intro chain accountIds entriesOf unique keyed retired found counts stays built
    rw [sum_changeAt unique found counts stays built, card_ownsNormalSender unique keyed retired]
    split
    · rw [Nat.cast_one, one_mul]
    · rw [Nat.cast_zero, zero_mul]

/-! ## A payment between two accounts -/

/-- One address of each of two accounts. -/
def paymentAddresses : List AddressRow :=
  [{ id := "a", accountId := some "first", assetId := .ethereum, network := .mainnet,
     address := "0xa", addressNormalized := "0xa" },
    { id := "b", accountId := some "second", assetId := .ethereum, network := .mainnet,
      address := "0xb", addressNormalized := "0xb" }]

/-- A payment of 5 with a fee of 1. -/
def paymentTables : TransactionTables :=
  { emptyTables with
    chainTransactions := [{
      key := { assetId := .ethereum, network := .mainnet, txHash := "0x1" }
      status := .confirmed
      blockHeight := some 7
      blockHash := none
      blockTime := none
      feeAmountLo := some 1
      feeAmountHi := some 0
      nonce := none }]
    accountTransfers := [{
      txKey := { assetId := .ethereum, network := .mainnet, txHash := "0x1" }
      providerTransferKey := "normal"
      transferIndex := 0
      transferKind := .normal
      fromAddress := some "0xa"
      fromAddressId := some "a"
      toAddress := some "0xb"
      toAddressId := some "b"
      valueAmountHi := 0
      valueAmountLo := 5 }] }

/-- The entries of an account in the payment. -/
def paymentEntries (accountId : String) : List LedgerBuildEntry :=
  match accountModelEntries (fun _ => .ok 0) (fun _ => ⟨"1", 0, 0⟩) paymentAddresses
      { accountId, assetId := .ethereum, network := .mainnet } paymentTables with
  | .ok entries => entries
  | .error _ => []

theorem accountModelEntries_conserve_payment :
    ((paymentEntries "first").map LedgerBuildEntry.txHash).Nodup ∧
      ∑ accountId ∈ {"first", "second"}, changeAt (paymentEntries accountId) "0x1" = -1 := by
  have conserve := accountModelEntries_conserve (fun _ => .ok 0) (fun _ => ⟨"1", 0, 0⟩)
    paymentAddresses paymentTables
  have built : ∀ accountId ∈ ({"first", "second"} : Finset String),
      accountModelEntries (fun _ => .ok 0) (fun _ => ⟨"1", 0, 0⟩) paymentAddresses
        { accountId, assetId := .ethereum, network := .mainnet } paymentTables =
          .ok (paymentEntries accountId) := by decide +kernel
  refine ⟨?_, ?_⟩
  · exact (conserve.1 ⟨"first", .ethereum, .mainnet⟩ (paymentEntries "first")
      (built "first" (by decide))).1
  · have total := conserve.2 {
        key := { assetId := .ethereum, network := .mainnet, txHash := "0x1" }
        status := .confirmed
        blockHeight := some 7
        blockHash := none
        blockTime := none
        feeAmountLo := some 1
        feeAmountHi := some 0
        nonce := none } {"first", "second"} paymentEntries (by decide)
      (List.nodup_singleton _) (by unfold NormalRetired; decide) (by decide) (by decide)
      (by unfold StaysAmong; decide +kernel) built
    refine total.trans ?_
    decide +kernel

end Bitgarth.Store
