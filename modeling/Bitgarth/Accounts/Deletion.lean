import Bitgarth.Accounts.Moves
import Bitgarth.Ledger.BitcoinBalances
import Bitgarth.Store.AccountFrame
import Bitgarth.Store.TrackedRows

/-! # Deleting accounts and wallets

A deletion removes accounts with their addresses and cleans up the chain data that nobody is left
to own. `deletion_isolates` says what the other accounts keep: their rows, apart from the ends
that shared transfers had at removed addresses, the chain rows these belong to, and their ledgers
as built from the tables, apart from same-block parents that only a removed input names.
-/

namespace Bitgarth.Accounts

open Amounts Ledger Store KeyedTable Fallible

open Sync (SyncedAssetId)

/-- A row of `digital_asset_accounts` or `manual_asset_accounts`. -/
structure OwnedAccountRow where
  id : String
  kind : WalletAccountStorageKind
  walletId : String
deriving DecidableEq, Repr

structure UserTables where
  wallets : List String
  accounts : List OwnedAccountRow
  addresses : List AddressRow
  transactions : TransactionTables
deriving DecidableEq, Repr

def emptyUserTables : UserTables where
  wallets := []
  accounts := []
  addresses := []
  transactions := emptyTables

/-! ## Deletion -/

section Remove

variable (goes : OwnedAccountRow → Bool) (db : UserTables)

/-- The address is one of a native account that goes. -/
def UserTables.addressGoes (address : AddressRow) : Bool :=
  db.accounts.any fun account =>
    account.kind = .native && goes account && address.accountId = some account.id

/-- The ids of the addresses that go with their accounts. -/
def UserTables.removedAddressIds : List String :=
  (db.addresses.filter (db.addressGoes goes)).map (·.id)

/-- Delete accounts, with what the foreign keys and the cleanup take along. -/
def UserTables.removeAccounts : UserTables :=
  { db with
    accounts := db.accounts.filter fun account => ! goes account
    addresses := db.addresses.filter fun address => ! db.addressGoes goes address
    transactions := removeAddresses (db.removedAddressIds goes) db.transactions }

end Remove

inductive Deletion where
  | account (accountId : String)
  | wallet (walletId : String)
deriving DecidableEq, Repr

/-- The accounts that a deletion removes; of an account id, the native account goes first. -/
def Deletion.goes (deletion : Deletion) (db : UserTables) (account : OwnedAccountRow) : Bool :=
  match deletion with
  | .account accountId =>
    if db.accounts.any fun row => row.kind = .native && row.id = accountId then
      account.kind = .native && account.id = accountId
    else
      account.kind = .manual && account.id = accountId
  | .wallet walletId => account.walletId = walletId

/-- `delete_account` and `delete_wallet`. -/
def Deletion.run (deletion : Deletion) (db : UserTables) : Except DbError UserTables :=
  match deletion with
  | .account accountId =>
    if db.accounts.any fun row => row.id = accountId then
      .ok (db.removeAccounts (deletion.goes db))
    else
      .error ⟨"Account not found"⟩
  | .wallet walletId =>
    .ok { db.removeAccounts (deletion.goes db) with
      wallets := db.wallets.filter fun id => id ≠ walletId }

/-! ## Runs -/

/-- A write to the tables of a user. -/
inductive UserWrite where
  | createWallet (walletId : String)
  | createAccount (account : OwnedAccountRow)
  | addAddress (address : AddressRow)
  | moveAccount (accountId targetWalletId : String)
  | reconcile (step : LedgerStep)
  | delete (deletion : Deletion)

theorem lawfulBEq_addressKey : LawfulBEq (SyncedAssetId × Network × String) := inferInstance

section Runs

attribute [local instance] lawfulBEq_addressKey

variable (toRfc3339 : ℤ → String) (rebuild : TransactionTables → String → Except DbError Unit)

/-- What a reconciliation leaves. -/
def reconcileStep (addresses : List AddressRow) (db : TransactionTables) :
    LedgerStep → Except DbError TransactionTables
  | .bitcoin step =>
    (applyTransactionReconciliation toRfc3339 addresses step.assetId step.network step.record
      db).map (·.tables)
  | .account assetId network record =>
    (reconcileAccountTransactionTx toRfc3339 addresses rebuild assetId network record
      db).map (·.tables)

/-- A write that the primary, foreign and unique keys accept. -/
def UserWrite.run (db : UserTables) : UserWrite → Except DbError UserTables
  | createWallet walletId =>
    if walletId ∈ db.wallets then
      .error ⟨"UNIQUE constraint failed: wallets.id"⟩
    else
      .ok { db with wallets := db.wallets ++ [walletId] }
  | createAccount account =>
    if account.walletId ∉ db.wallets then
      .error ⟨"FOREIGN KEY constraint failed"⟩
    else if account.id ∈ db.accounts.map (·.id) then
      .error ⟨"UNIQUE constraint failed: id"⟩
    else
      .ok { db with accounts := db.accounts ++ [account] }
  | addAddress address =>
    if ¬ ∃ account ∈ db.accounts, account.kind = .native ∧ address.accountId = some account.id then
      .error ⟨"FOREIGN KEY constraint failed"⟩
    else if address.id ∈ db.addresses.map (·.id) then
      .error ⟨"UNIQUE constraint failed: digital_asset_addresses.id"⟩
    else if (address.assetId, address.network, address.addressNormalized) ∈
        db.addresses.map fun row => (row.assetId, row.network, row.addressNormalized) then
      .error ⟨"UNIQUE constraint failed: idx_addresses_unique"⟩
    else
      .ok { db with addresses := db.addresses ++ [address] }
  | moveAccount accountId targetWalletId =>
    if targetWalletId ∉ db.wallets then
      .error ⟨"Target wallet not found"⟩
    else
      .ok { db with accounts := db.accounts.map fun account =>
        if account.id = accountId then { account with walletId := targetWalletId } else account }
  | reconcile step => do
      let transactions ← reconcileStep toRfc3339 rebuild db.addresses db.transactions step
      return { db with transactions }
  | delete deletion => deletion.run db

end Runs

/-! ## What a deletion keeps -/

/-- What an account keeps through a deletion that removes some addresses. -/
structure AccountKept (removed : List String) (db after : UserTables) (accountId : String) :
    Prop where
  addresses : (after.addresses.filter fun address => address.accountId = some accountId) =
    db.addresses.filter fun address => address.accountId = some accountId
  rows : accountRows after.addresses accountId after.transactions =
    (accountRows db.addresses accountId db.transactions).cleared removed
  accountLedger : ∀ parseDatetime columns (account : AccountMeta), account.accountId = accountId →
    accountModelEntries parseDatetime columns after.addresses account after.transactions =
      accountModelEntries parseDatetime columns db.addresses account db.transactions
  utxoLedger : ∀ parseDatetime columns (account : AccountMeta), account.accountId = accountId →
    (utxoModelEntries parseDatetime columns after.addresses account after.transactions).map
        (List.map withoutParents) =
      (utxoModelEntries parseDatetime columns db.addresses account db.transactions).map
        (List.map withoutParents)
  utxoLedgerWithParents : ∀ parseDatetime columns (account : AccountMeta),
    account.accountId = accountId →
      ParentsStay removed db.addresses account db.transactions →
        utxoModelEntries parseDatetime columns after.addresses account after.transactions =
          utxoModelEntries parseDatetime columns db.addresses account db.transactions

/-- A deletion that every account left survives, and after which every row has an end at an
address that is left. -/
structure Isolates (deletion : Deletion) (db after : UserTables) : Prop where
  accounts : ∀ account ∈ after.accounts, account.kind = .native →
    AccountKept (db.removedAddressIds (deletion.goes db)) db after account.id
  chain : after.transactions.chainTransactions = db.transactions.chainTransactions.filter fun row =>
    db.transactions.HasEndAt (· ∉ db.removedAddressIds (deletion.goes db)) row.key
  ends : after.transactions.Tracked (IsTracked after.addresses)

/-- What the tables of a user keep. -/
structure UserTables.Consistent (db : UserTables) : Prop where
  accountIds : (db.accounts.map (·.id)).Nodup
  addressIds : (db.addresses.map (·.id)).Nodup
  unique : db.transactions.Unique
  tracked : db.transactions.Tracked (IsTracked db.addresses)

section Removal

variable {goes : OwnedAccountRow → Bool} {db : UserTables}

theorem addressGoes_iff {address : AddressRow} : db.addressGoes goes address = true ↔
    ∃ account ∈ db.accounts, account.kind = .native ∧ goes account = true ∧
      address.accountId = some account.id := by
  unfold UserTables.addressGoes
  simp only [List.any_eq_true, Bool.and_eq_true, decide_eq_true_eq, and_assoc]

theorem mem_removedAddressIds {id : String} : id ∈ db.removedAddressIds goes ↔
    ∃ address ∈ db.addresses, db.addressGoes goes address = true ∧ address.id = id := by
  unfold UserTables.removedAddressIds
  simp only [List.mem_map, List.mem_filter, and_assoc]

theorem UserTables.Consistent.not_addressGoes (consistent : db.Consistent)
    {account : OwnedAccountRow} {address : AddressRow} (member : account ∈ db.accounts)
    (stays : goes account = false) (isAccount : address.accountId = some account.id) :
    db.addressGoes goes address = false := by
  refine Bool.eq_false_iff.mpr fun gone => ?_
  obtain ⟨other, among, -, otherGoes, isOther⟩ := addressGoes_iff.mp gone
  have same : other = account := List.inj_on_of_nodup_map consistent.accountIds among member
    (Option.some.inj (isOther.symm.trans isAccount))
  rw [same, stays] at otherGoes
  cases otherGoes

theorem UserTables.Consistent.id_mem_removedAddressIds (consistent : db.Consistent)
    {address : AddressRow} (member : address ∈ db.addresses) :
    address.id ∈ db.removedAddressIds goes ↔ db.addressGoes goes address = true := by
  rw [mem_removedAddressIds]
  constructor
  · rintro ⟨other, among, gone, same⟩
    rwa [← List.inj_on_of_nodup_map consistent.addressIds among member same]
  · intro gone
    exact ⟨address, member, gone, rfl⟩

theorem UserTables.Consistent.isTracked_left (consistent : db.Consistent) {id : String}
    (tracked : IsTracked db.addresses id) (stays : id ∉ db.removedAddressIds goes) :
    IsTracked (db.removeAccounts goes).addresses id := by
  obtain ⟨address, member, rfl⟩ := tracked
  rw [consistent.id_mem_removedAddressIds member] at stays
  exact ⟨address, List.mem_filter.mpr ⟨member, by rw [Bool.not_eq_true] at stays; rw [stays]; rfl⟩,
    rfl⟩

theorem UserTables.Consistent.removeAddresses_eq (consistent : db.Consistent) :
    (db.removeAccounts goes).transactions =
      remainingTables (db.removedAddressIds goes) db.transactions :=
  Store.removeAddresses_eq consistent.tracked

theorem UserTables.Consistent.tracked_removeAccounts (consistent : db.Consistent) :
    (db.removeAccounts goes).transactions.Tracked
      (IsTracked (db.removeAccounts goes).addresses) := by
  rw [consistent.removeAddresses_eq]
  exact tracked_remainingTables consistent.tracked fun _ => consistent.isTracked_left

theorem UserTables.Consistent.removeAccounts (consistent : db.Consistent) :
    (db.removeAccounts goes).Consistent where
  accountIds := consistent.accountIds.sublist (List.filter_sublist.map _)
  addressIds := consistent.addressIds.sublist (List.filter_sublist.map _)
  unique := by
    rw [consistent.removeAddresses_eq]
    exact unique_remainingTables consistent.unique
  tracked := consistent.tracked_removeAccounts

theorem UserTables.Consistent.addressesStay (consistent : db.Consistent)
    {account : OwnedAccountRow} (left : account ∈ (db.removeAccounts goes).accounts) :
    AddressesStay account.id (db.removedAddressIds goes) db.addresses
      (db.removeAccounts goes).addresses := by
  obtain ⟨member, stays⟩ := List.mem_filter.mp left
  have stays : goes account = false := by simpa using stays
  refine ⟨?_, ?_⟩
  · change ((db.addresses.filter _).filter _) = _
    rw [List.filter_filter]
    refine List.filter_congr fun address _ => ?_
    by_cases isAccount : address.accountId = some account.id
    · rw [consistent.not_addressGoes member stays isAccount]
      simp
    · simp [isAccount]
  · rintro id ⟨address, among, rfl, isAccount⟩
    rw [consistent.id_mem_removedAddressIds among,
      consistent.not_addressGoes member stays isAccount]
    exact Bool.false_ne_true

end Removal

section Isolation

variable {deletion : Deletion} {db after : UserTables}

theorem Deletion.run_eq_ok (done : deletion.run db = .ok after) :
    after = { db.removeAccounts (deletion.goes db) with wallets := after.wallets } := by
  cases deletion with
  | account accountId =>
    simp only [Deletion.run] at done
    split at done
    · obtain rfl := Except.ok.inj done
      rfl
    · cases done
  | wallet walletId =>
    obtain rfl := Except.ok.inj done
    rfl

/-- A deletion keeps the accounts left, and no row without an end at an address that is left. -/
theorem isolates_run (consistent : db.Consistent) (done : deletion.run db = .ok after) :
    Isolates deletion db after := by
  rw [Deletion.run_eq_ok done]
  refine ⟨?_, ?_, consistent.tracked_removeAccounts⟩
  · intro account left _
    have stay := @UserTables.Consistent.addressesStay _ _ consistent account left
    refine ⟨stay.rows, ?_, ?_, ?_, ?_⟩
    · dsimp only
      rw [consistent.removeAddresses_eq]
      exact stay.accountRows_eq
    · rintro parseDatetime columns owner isAccount
      dsimp only
      rw [consistent.removeAddresses_eq]
      rw [← isAccount] at stay
      exact stay.accountModelEntries_eq parseDatetime columns
    · rintro parseDatetime columns owner isAccount
      dsimp only
      rw [consistent.removeAddresses_eq]
      rw [← isAccount] at stay
      exact stay.utxoModelEntries_withoutParents
    · rintro parseDatetime columns owner isAccount parentsStay
      dsimp only
      rw [consistent.removeAddresses_eq]
      rw [← isAccount] at stay
      exact stay.utxoModelEntries_eq parentsStay
  · dsimp only
    rw [consistent.removeAddresses_eq]
    rfl

end Isolation

section Histories

variable {toRfc3339 : ℤ → String} {rebuild : TransactionTables → String → Except DbError Unit}
  {db after : UserTables}

theorem consistent_emptyUserTables : emptyUserTables.Consistent := by
  refine ⟨List.nodup_nil, List.nodup_nil, emptyTables_unique, ⟨?_, ?_, ?_, ?_, ?_, ?_⟩⟩
  all_goals exact fun _ none => absurd none List.not_mem_nil

theorem reconcileStep_commits {addresses : List AddressRow} {transactions next : TransactionTables}
    {step : LedgerStep}
    (done : reconcileStep toRfc3339 rebuild addresses transactions step = .ok next) :
    step.Commits toRfc3339 addresses rebuild transactions next := by
  cases step with
  | bitcoin step => exact map_eq_ok.mp done
  | account assetId network record => exact map_eq_ok.mp done

theorem Deletion.consistent {deletion : Deletion} (consistent : db.Consistent)
    (done : deletion.run db = .ok after) : after.Consistent := by
  rw [Deletion.run_eq_ok done]
  obtain ⟨accountIds, addressIds, unique, tracked⟩ :=
    @UserTables.Consistent.removeAccounts (deletion.goes db) _ consistent
  exact ⟨accountIds, addressIds, unique, tracked⟩

theorem UserWrite.consistent {write : UserWrite} (consistent : db.Consistent)
    (done : write.run toRfc3339 rebuild db = .ok after) : after.Consistent := by
  obtain ⟨accountIds, addressIds, unique, tracked⟩ := consistent
  cases write with
  | createWallet walletId =>
    simp only [UserWrite.run] at done
    split at done
    · cases done
    · obtain rfl := Except.ok.inj done
      exact ⟨accountIds, addressIds, unique, tracked⟩
  | createAccount account =>
    simp only [UserWrite.run] at done
    split at done
    · cases done
    · split at done
      · cases done
      · rename_i fresh
        obtain rfl := Except.ok.inj done
        refine ⟨?_, addressIds, unique, tracked⟩
        rw [List.map_append]
        exact accountIds.append (List.nodup_singleton _)
          (List.disjoint_singleton.mpr fresh)
  | addAddress address =>
    simp only [UserWrite.run] at done
    split at done
    · cases done
    · split at done
      · cases done
      · split at done
        · cases done
        · rename_i fresh _
          obtain rfl := Except.ok.inj done
          refine ⟨accountIds, ?_, unique, tracked.mono ?_⟩
          · rw [List.map_append]
            exact addressIds.append (List.nodup_singleton _)
              (List.disjoint_singleton.mpr fresh)
          · rintro id ⟨row, member, isId⟩
            exact ⟨row, List.mem_append_left _ member, isId⟩
  | moveAccount accountId targetWalletId =>
    simp only [UserWrite.run] at done
    split at done
    · cases done
    · obtain rfl := Except.ok.inj done
      refine ⟨?_, addressIds, unique, tracked⟩
      rw [List.map_map]
      convert accountIds using 2
      funext account
      rw [Function.comp_apply]
      split <;> rfl
  | reconcile step =>
    obtain ⟨transactions, reconciled, done⟩ := bind_eq_ok.mp done
    rw [pure_eq_ok] at done
    subst done
    have commits := reconcileStep_commits reconciled
    exact ⟨accountIds, addressIds, commits.unique unique, commits.tracked unique tracked⟩
  | delete deletion =>
    exact Deletion.consistent ⟨accountIds, addressIds, unique, tracked⟩ done

theorem consistent_of_history {writes : List UserWrite} (consistent : db.Consistent)
    (done : writes.foldlM (UserWrite.run toRfc3339 rebuild) db = .ok after) :
    after.Consistent := by
  induction writes generalizing db with
  | nil =>
    obtain rfl := Except.ok.inj done
    exact consistent
  | cons write writes ih =>
    rw [List.foldlM_cons] at done
    obtain ⟨middle, first, later⟩ := bind_eq_ok.mp done
    exact ih (UserWrite.consistent consistent first) later

/-- A deletion in a state that writes reach isolates the accounts that are left. -/
theorem deletion_isolates {writes : List UserWrite} {deletion : Deletion}
    (reached : writes.foldlM (UserWrite.run toRfc3339 rebuild) emptyUserTables = .ok db)
    (done : deletion.run db = .ok after) : Isolates deletion db after :=
  isolates_run (consistent_of_history consistent_emptyUserTables reached) done

end Histories

/-! ## Two wallets with shared transactions -/

def sharedAddress (id accountId : String) (assetId : SyncedAssetId) (address : String) :
    AddressRow where
  id := id
  accountId := some accountId
  assetId := assetId
  network := .mainnet
  address := address
  addressNormalized := address

/-- A confirmed Bitcoin transaction in one block. -/
def confirmedStep (txHash : String) (inputs : List SyncTransactionInputRecord)
    (outputs : List SyncTransactionOutputRecord) : LedgerStep :=
  .bitcoin {
    assetId := .bitcoin
    network := .mainnet
    record := {
      txHash
      status := .confirmed
      blockHeight := some 100
      blockHash := none
      blockTime := none
      feeAmount := some 0
      inputs
      outputs } }

def inputFrom (address prevTxHash : String) (valueAmount : ℤ) : SyncTransactionInputRecord where
  inputIndex := 0
  prevTxHash := prevTxHash
  prevOutputIndex := 0
  prevAddress := some address
  valueAmount := some valueAmount

def outputTo (address : String) (valueAmount : ℤ) : SyncTransactionOutputRecord where
  outputIndex := 0
  rawAddress := some address
  scriptPubkeyHex := "0014"
  valueAmount := valueAmount

/-- A transfer from the first wallet to the second. -/
def sharedTransfer : LedgerStep :=
  .account .ethereum .mainnet {
    txHash := "cc"
    status := .confirmed
    blockHeight := some 100
    blockHash := none
    blockTime := none
    feeAmount := none
    nonce := none
    transfers := [{
      providerTransferKey := ProviderTransferKey.normal
      transferIndex := 0
      transferKind := .normal
      fromAddress := some "0xaa"
      toAddress := some "0xbb"
      valueAmount := UnsignedAmount.zero }]
    excludedTransferKeys := [] }

/-- Two wallets, each with a Bitcoin and an Ethereum account. The second wallet pays the first,
which sends the coins back in the same block. -/
def sharedHistory : List UserWrite :=
  [.createWallet "1", .createWallet "2",
    .createAccount { id := "bitcoin-1", kind := .native, walletId := "1" },
    .createAccount { id := "ethereum-1", kind := .native, walletId := "1" },
    .createAccount { id := "bitcoin-2", kind := .native, walletId := "2" },
    .createAccount { id := "ethereum-2", kind := .native, walletId := "2" },
    .addAddress (sharedAddress "a" "bitcoin-1" .bitcoin "bc1qa"),
    .addAddress (sharedAddress "b" "bitcoin-2" .bitcoin "bc1qb"),
    .addAddress (sharedAddress "c" "ethereum-1" .ethereum "0xaa"),
    .addAddress (sharedAddress "d" "ethereum-2" .ethereum "0xbb"),
    .reconcile (confirmedStep "bb" [inputFrom "bc1qb" "ff" 5] [outputTo "bc1qa" 5]),
    .reconcile (confirmedStep "aa" [inputFrom "bc1qa" "bb" 5] [outputTo "bc1qb" 5]),
    .reconcile sharedTransfer]

/-- The tables after some writes. -/
def userTablesAfter (writes : List UserWrite) : UserTables :=
  (writes.foldlM (UserWrite.run (fun _ => "") fun _ _ => .ok ()) emptyUserTables).toOption.getD
    emptyUserTables

def sharedColumns (key : TxKey) : ChainTransactionColumns where
  id := key.txHash
  createdAt := if key.txHash = "bb" then 0 else 1
  updatedAt := 1

def secondBitcoin : AccountMeta where
  accountId := "bitcoin-2"
  assetId := .bitcoin
  network := .mainnet

/-- The order in which the Bitcoin ledger of the second wallet settles, by hash. -/
def settledHashes (db : UserTables) : Except DbError (List String) := do
  let entries ← utxoModelEntries (fun _ => .error ⟨"no block times"⟩) sharedColumns db.addresses
    secondBitcoin db.transactions
  let ordered ← orderConfirmedBitcoinEntries entries
  return ordered.map fun indexed => indexed.1.txHash

theorem utxoModelRows_of_sorted {columns : TxKey → ChainTransactionColumns}
    {addresses : List AddressRow} {account : AccountMeta} {db : TransactionTables}
    (sorted : (db.chainTransactions.filter fun row =>
      row.key.InScope account.assetId account.network ∧
        HasOwnedEnd addresses account db row.key).Pairwise fun left right =>
          decide ((columns left.key).createdAt < (columns right.key).createdAt ∨
            ((columns left.key).createdAt = (columns right.key).createdAt ∧
              left.key.txHash ≤ right.key.txHash)) = true) :
    utxoModelRows columns addresses account db = db.chainTransactions.filter fun row =>
      row.key.InScope account.assetId account.network ∧ HasOwnedEnd addresses account db row.key :=
  List.mergeSort_of_pairwise sorted

theorem deletion_isolates_sharedWallet :
    Isolates (.wallet "1") (userTablesAfter sharedHistory)
      (userTablesAfter (sharedHistory ++ [.delete (.wallet "1")])) :=
  @deletion_isolates (fun _ => "") (fun _ _ => .ok ()) _ _ sharedHistory (.wallet "1")
    (by decide +kernel) (by decide +kernel)

/-- Deleting the first wallet clears an end of a transfer of the second one, and the second
wallet's Bitcoin ledger settles in another order. -/
theorem not_unchanged_sharedWallet :
    sharedHistory.foldlM (UserWrite.run (fun _ => "") fun _ _ => .ok ()) emptyUserTables =
        .ok (userTablesAfter sharedHistory) ∧
      (Deletion.wallet "1").run (userTablesAfter sharedHistory) =
        .ok (userTablesAfter (sharedHistory ++ [.delete (.wallet "1")])) ∧
      ((accountRows (userTablesAfter sharedHistory).addresses "ethereum-2"
          (userTablesAfter sharedHistory).transactions).accountTransfers.map
            fun row => (row.fromAddressId, row.toAddressId)) = [(some "c", some "d")] ∧
      ((accountRows (userTablesAfter (sharedHistory ++ [.delete (.wallet "1")])).addresses
          "ethereum-2" (userTablesAfter (sharedHistory ++ [.delete
            (.wallet "1")])).transactions).accountTransfers.map
              fun row => (row.fromAddressId, row.toAddressId)) = [(none, some "d")] ∧
      settledHashes (userTablesAfter sharedHistory) = .ok ["bb", "aa"] ∧
      settledHashes (userTablesAfter (sharedHistory ++ [.delete (.wallet "1")])) =
        .ok ["aa", "bb"] := by
  refine ⟨?_, ?_, ?_, ?_, ?_, ?_⟩
  · decide +kernel
  · decide +kernel
  · decide +kernel
  · decide +kernel
  · unfold settledHashes utxoModelEntries
    rw [utxoModelRows_of_sorted (by decide +kernel)]
    decide +kernel
  · unfold settledHashes utxoModelEntries
    rw [utxoModelRows_of_sorted (by decide +kernel)]
    decide +kernel

end Bitgarth.Accounts
