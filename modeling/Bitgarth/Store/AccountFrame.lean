import Bitgarth.Store.AccountLedgerBuild
import Bitgarth.Store.ChainCleanup

/-! # What an account keeps when other addresses go

The rows of an account whose addresses stay are the ones it had; only the ends that transfers had
at removed addresses are cleared. The rows that a ledger build reads stay as well, so the entries
are the same, apart from same-block parents that only an input of a removed address names.
-/

namespace Bitgarth.Store

open Amounts Ledger KeyedTable Fallible

open Sync (SyncedAssetId)

/-- The addresses of an account stay when others are removed. -/
structure AddressesStay (accountId : String) (removed : List String)
    (addresses left : List AddressRow) : Prop where
  rows : (left.filter fun address => address.accountId = some accountId) =
    addresses.filter fun address => address.accountId = some accountId
  kept : ∀ id, Owns addresses accountId id → id ∉ removed

/-- The rows of an account. -/
structure AccountRows where
  chainTransactions : List ChainTransactionRow
  transactionInputs : List TransactionInputRow
  transactionOutputs : List TransactionOutputRow
  utxos : List UtxoRow
  accountTransfers : List AccountTransferRow
deriving DecidableEq

/-- The rows with an end at an address of the account. -/
def accountRows (addresses : List AddressRow) (accountId : String) (db : TransactionTables) :
    AccountRows where
  chainTransactions := db.chainTransactions.filter fun row =>
    db.HasEndAt (Owns addresses accountId) row.key
  transactionInputs := db.transactionInputs.filter fun row =>
    Owns addresses accountId row.addressId
  transactionOutputs := db.transactionOutputs.filter fun row =>
    Owns addresses accountId row.addressId
  utxos := db.utxos.filter fun row => Owns addresses accountId row.addressId
  accountTransfers := db.accountTransfers.filter fun row =>
    row.EndsAt (Owns addresses accountId)

/-- The same rows, with transfers that have no end at a removed address. -/
def AccountRows.cleared (removed : List String) (rows : AccountRows) : AccountRows :=
  { rows with accountTransfers := rows.accountTransfers.map (clearEnds removed) }

/-- An entry without its same-block parents. -/
def withoutParents (entry : LedgerBuildEntry) : LedgerBuildEntry :=
  { entry with sameBlockParentHashes := [] }

/-- Each same-block parent that an input of a removed address names is named by an input of an
address that stays. -/
def ParentsStay (removed : List String) (addresses : List AddressRow) (account : AccountMeta)
    (db : TransactionTables) : Prop :=
  ∀ child ∈ db.chainTransactions,
    ∀ parent ∈ sameBlockParentHashes addresses account db child,
      ∃ input ∈ db.transactionInputs, input.addressId ∉ removed ∧ input.txKey = child.key ∧
        input.prevTxHash = parent

section Frame

variable {removed : List String} {addresses left : List AddressRow} {accountId : String}
  {account : AccountMeta} {db : TransactionTables}

/-- The account owns the addresses it owned. -/
theorem AddressesStay.owns_iff (stay : AddressesStay accountId removed addresses left)
    {id : String} : Owns left accountId id ↔ Owns addresses accountId id := by
  have members : ∀ address, address ∈ left ∧ address.accountId = some accountId ↔
      address ∈ addresses ∧ address.accountId = some accountId := by
    intro address
    have same := congrArg (address ∈ ·) stay.rows
    simpa only [List.mem_filter, decide_eq_true_eq, eq_iff_iff] using same
  unfold Owns
  constructor
  · rintro ⟨address, member, isId, isAccount⟩
    obtain ⟨member, isAccount⟩ := (members address).mp ⟨member, isAccount⟩
    exact ⟨address, member, isId, isAccount⟩
  · rintro ⟨address, member, isId, isAccount⟩
    obtain ⟨member, isAccount⟩ := (members address).mpr ⟨member, isAccount⟩
    exact ⟨address, member, isId, isAccount⟩

theorem AddressesStay.clearEnds_endsAt (stay : AddressesStay accountId removed addresses left)
    {row : AccountTransferRow} :
    (clearEnds removed row).EndsAt (Owns left accountId) ↔
      row.EndsAt (Owns addresses accountId) := by
  unfold AccountTransferRow.EndsAt clearEnds
  simp only [Option.mem_def, Option.filter_eq_some_iff, decide_eq_true_eq, stay.owns_iff]
  constructor
  · rintro (⟨id, ⟨isEnd, -⟩, owns⟩ | ⟨id, ⟨isEnd, -⟩, owns⟩)
    · exact .inl ⟨id, isEnd, owns⟩
    · exact .inr ⟨id, isEnd, owns⟩
  · rintro (⟨id, isEnd, owns⟩ | ⟨id, isEnd, owns⟩)
    · exact .inl ⟨id, ⟨isEnd, stay.kept id owns⟩, owns⟩
    · exact .inr ⟨id, ⟨isEnd, stay.kept id owns⟩, owns⟩

theorem AddressesStay.left_of_endsAt (stay : AddressesStay accountId removed addresses left)
    {row : AccountTransferRow} (ends : row.EndsAt (Owns addresses accountId)) :
    row.EndsAt (· ∉ removed) :=
  ends.mono stay.kept

theorem AddressesStay.left_of_hasEndAt (stay : AddressesStay accountId removed addresses left)
    {key : TxKey} (ends : db.HasEndAt (Owns addresses accountId) key) :
    db.HasEndAt (· ∉ removed) key := by
  rcases ends with ⟨row, member, same, owns⟩ | ⟨row, member, same, owns⟩ | ⟨row, member, same, ends⟩
  · exact .inl ⟨row, member, same, stay.kept _ owns⟩
  · exact .inr (.inl ⟨row, member, same, stay.kept _ owns⟩)
  · exact .inr (.inr ⟨row, member, same, stay.left_of_endsAt ends⟩)

theorem AddressesStay.filter_owned {Row : Type}
    (stay : AddressesStay accountId removed addresses left)
    (addressId : Row → String) (rows : List Row) :
    ((rows.filter fun row => addressId row ∉ removed).filter
        fun row => Owns left accountId (addressId row)) =
      rows.filter fun row => Owns addresses accountId (addressId row) := by
  rw [List.filter_filter]
  refine List.filter_congr fun row _ => ?_
  rw [← Bool.decide_and, decide_eq_decide, stay.owns_iff]
  exact and_iff_left_of_imp (stay.kept (addressId row))

/-- Its transfers stay, with the ends elsewhere cleared. -/
theorem AddressesStay.filter_transfers (stay : AddressesStay accountId removed addresses left) :
    ((remainingTables removed db).accountTransfers.filter fun row =>
        row.EndsAt (Owns left accountId)) =
      (db.accountTransfers.filter fun row => row.EndsAt (Owns addresses accountId)).map
        (clearEnds removed) := by
  unfold remainingTables
  rw [List.filter_map, List.filter_filter]
  refine congrArg _ (List.filter_congr fun row _ => ?_)
  rw [Function.comp_apply, ← Bool.decide_and, decide_eq_decide, stay.clearEnds_endsAt]
  exact and_iff_left_of_imp stay.left_of_endsAt

theorem AddressesStay.hasEndAt_iff (stay : AddressesStay accountId removed addresses left)
    {key : TxKey} :
    (remainingTables removed db).HasEndAt (Owns left accountId) key ↔
      db.HasEndAt (Owns addresses accountId) key := by
  unfold TransactionTables.HasEndAt remainingTables
  simp only [List.mem_filter, decide_eq_true_eq, List.mem_map, stay.owns_iff]
  refine or_congr ?_ (or_congr ?_ ?_)
  · refine exists_congr fun row => ⟨?_, ?_⟩
    · rintro ⟨⟨member, -⟩, same, owns⟩
      exact ⟨member, same, owns⟩
    · rintro ⟨member, same, owns⟩
      exact ⟨⟨member, stay.kept _ owns⟩, same, owns⟩
  · refine exists_congr fun row => ⟨?_, ?_⟩
    · rintro ⟨⟨member, -⟩, same, owns⟩
      exact ⟨member, same, owns⟩
    · rintro ⟨member, same, owns⟩
      exact ⟨⟨member, stay.kept _ owns⟩, same, owns⟩
  · constructor
    · rintro ⟨row, ⟨old, ⟨member, -⟩, rfl⟩, same, ends⟩
      exact ⟨old, member, same, stay.clearEnds_endsAt.mp ends⟩
    · rintro ⟨row, member, same, ends⟩
      exact ⟨clearEnds removed row, ⟨row, ⟨member, stay.left_of_endsAt ends⟩, rfl⟩, same,
        stay.clearEnds_endsAt.mpr ends⟩

/-- Its rows stay, but for the cleared ends. -/
theorem AddressesStay.accountRows_eq (stay : AddressesStay accountId removed addresses left) :
    accountRows left accountId (remainingTables removed db) =
      (accountRows addresses accountId db).cleared removed := by
  have chain : ((remainingTables removed db).chainTransactions.filter fun row =>
      (remainingTables removed db).HasEndAt (Owns left accountId) row.key) =
        db.chainTransactions.filter fun row =>
          db.HasEndAt (Owns addresses accountId) row.key := by
    unfold remainingTables
    dsimp only
    rw [List.filter_filter]
    refine List.filter_congr fun row _ => ?_
    rw [← Bool.decide_and, decide_eq_decide]
    refine (and_congr_left fun _ => stay.hasEndAt_iff).trans ?_
    exact and_iff_left_of_imp stay.left_of_hasEndAt
  unfold accountRows AccountRows.cleared
  dsimp only
  rw [chain, stay.filter_transfers]
  unfold remainingTables
  dsimp only
  rw [stay.filter_owned TransactionInputRow.addressId,
    stay.filter_owned TransactionOutputRow.addressId, stay.filter_owned UtxoRow.addressId]

/-- A transaction with an end of the account stays. -/
theorem AddressesStay.find_chain (stay : AddressesStay accountId removed addresses left)
    {key : TxKey} (ends : db.HasEndAt (Owns addresses accountId) key) :
    find ChainTransactionRow.key (remainingTables removed db).chainTransactions key =
      find ChainTransactionRow.key db.chainTransactions key := by
  have kept := @find_filter_key _ _ _ ChainTransactionRow.key db.chainTransactions key
    fun key => db.HasEndAt (· ∉ removed) key
  rw [decide_eq_true (stay.left_of_hasEndAt ends), if_pos rfl] at kept
  exact kept

end Frame

/-! ## Account-model ledgers -/

section AccountModel

variable {removed : List String} {addresses left : List AddressRow} {account : AccountMeta}
  {db : TransactionTables}

theorem AddressesStay.ownsTransferEnd_iff
    (stay : AddressesStay account.accountId removed addresses left) {addressId : Option String} :
    OwnsTransferEnd left account (addressId.filter (· ∉ removed)) ↔
      OwnsTransferEnd addresses account addressId := by
  unfold OwnsTransferEnd
  simp only [Option.mem_def, Option.filter_eq_some_iff, decide_eq_true_eq, stay.owns_iff]
  constructor
  · rintro ⟨id, ⟨isEnd, -⟩, owns⟩
    exact ⟨id, isEnd, owns⟩
  · rintro ⟨id, isEnd, owns⟩
    exact ⟨id, ⟨isEnd, stay.kept id owns⟩, owns⟩

theorem AddressesStay.ownedTransfers_eq
    (stay : AddressesStay account.accountId removed addresses left) :
    ownedTransfers left account (remainingTables removed db) =
      (ownedTransfers addresses account db).map (clearEnds removed) := by
  unfold ownedTransfers remainingTables
  rw [List.filter_map, List.filter_filter]
  refine congrArg _ (List.filter_congr fun row _ => ?_)
  rw [Function.comp_apply, ← Bool.decide_and, decide_eq_decide, and_assoc]
  refine and_congr_right fun _ => ?_
  refine (and_congr_left fun _ =>
    or_congr stay.ownsTransferEnd_iff stay.ownsTransferEnd_iff).trans ?_
  exact and_iff_left_of_imp stay.left_of_endsAt

theorem AddressesStay.joinChain_eq
    (stay : AddressesStay account.accountId removed addresses left) {row : AccountTransferRow}
    (member : row ∈ ownedTransfers addresses account db) :
    joinChain left account (remainingTables removed db) (clearEnds removed row) =
      joinChain addresses account db row := by
  obtain ⟨stored, owned⟩ := List.mem_filter.mp member
  have ends := (of_decide_eq_true owned).2
  have sameRow : accountModelRow left account (clearEnds removed row) =
      accountModelRow addresses account row := by
    funext chain
    unfold accountModelRow
    rw [AccountModelRow.mk.injEq]
    refine ⟨rfl, rfl, rfl, rfl, rfl, rfl, rfl, ?_, ?_⟩
    · exact decide_eq_decide.mpr stay.ownsTransferEnd_iff
    · exact decide_eq_decide.mpr stay.ownsTransferEnd_iff
  unfold joinChain
  rw [sameRow]
  refine congrArg _ ?_
  exact stay.find_chain (.inr (.inr ⟨row, stored, rfl, ends⟩))

/-- An account ledger is built from the same entries. -/
theorem AddressesStay.accountModelEntries_eq
    (stay : AddressesStay account.accountId removed addresses left)
    (parseDatetime : String → Except DbError ℤ) (columns : TxKey → ChainTransactionColumns) :
    accountModelEntries parseDatetime columns left account (remainingTables removed db) =
      accountModelEntries parseDatetime columns addresses account db := by
  have rows : accountModelRows left account (remainingTables removed db) columns =
      accountModelRows addresses account db columns := by
    unfold accountModelRows
    rw [stay.ownedTransfers_eq, List.filterMap_map]
    refine congrArg _ (List.filterMap_congr fun row member => ?_)
    exact stay.joinChain_eq member
  unfold accountModelEntries
  rw [rows]

end AccountModel

/-! ## UTXO-model ledgers -/

section UtxoModel

variable {removed : List String} {addresses left : List AddressRow} {account : AccountMeta}
  {db : TransactionTables} {parseDatetime : String → Except DbError ℤ}
  {columns : TxKey → ChainTransactionColumns}

theorem AddressesStay.ownedInputs_eq
    (stay : AddressesStay account.accountId removed addresses left) (key : TxKey) :
    ownedInputs left account (remainingTables removed db) key =
      ownedInputs addresses account db key := by
  unfold ownedInputs remainingTables
  rw [List.filter_filter]
  refine List.filter_congr fun row _ => ?_
  rw [← Bool.decide_and, decide_eq_decide, stay.owns_iff, and_assoc]
  exact and_congr_right fun _ => and_iff_left_of_imp (stay.kept row.addressId)

theorem AddressesStay.ownedOutputs_eq
    (stay : AddressesStay account.accountId removed addresses left) (key : TxKey) :
    ownedOutputs left account (remainingTables removed db) key =
      ownedOutputs addresses account db key := by
  unfold ownedOutputs remainingTables
  rw [List.filter_filter]
  refine List.filter_congr fun row _ => ?_
  rw [← Bool.decide_and, decide_eq_decide, stay.owns_iff, and_assoc]
  exact and_congr_right fun _ => and_iff_left_of_imp (stay.kept row.addressId)

theorem AddressesStay.hasOwnedEnd_iff
    (stay : AddressesStay account.accountId removed addresses left) {key : TxKey} :
    HasOwnedEnd left account (remainingTables removed db) key ↔
      HasOwnedEnd addresses account db key := by
  unfold HasOwnedEnd
  rw [stay.ownedInputs_eq, stay.ownedOutputs_eq]

theorem hasEndAt_of_hasOwnedEnd {key : TxKey} (owned : HasOwnedEnd addresses account db key) :
    db.HasEndAt (Owns addresses account.accountId) key := by
  rcases owned with inputs | outputs
  · obtain ⟨row, member⟩ := List.exists_mem_of_ne_nil _ inputs
    obtain ⟨stored, ofAccount⟩ := List.mem_filter.mp member
    obtain ⟨same, owns⟩ := of_decide_eq_true ofAccount
    exact .inl ⟨row, stored, same, owns⟩
  · obtain ⟨row, member⟩ := List.exists_mem_of_ne_nil _ outputs
    obtain ⟨stored, ofAccount⟩ := List.mem_filter.mp member
    obtain ⟨same, owns⟩ := of_decide_eq_true ofAccount
    exact .inr (.inl ⟨row, stored, same, owns⟩)

/-- A UTXO ledger is built from the same rows. -/
theorem AddressesStay.utxoModelRows_eq
    (stay : AddressesStay account.accountId removed addresses left) :
    utxoModelRows columns left account (remainingTables removed db) =
      utxoModelRows columns addresses account db := by
  unfold utxoModelRows
  refine congrArg (List.mergeSort · _) ?_
  unfold remainingTables
  dsimp only
  rw [List.filter_filter]
  refine List.filter_congr fun row _ => ?_
  rw [← Bool.decide_and, decide_eq_decide, and_assoc]
  refine and_congr_right fun _ => ?_
  refine (and_congr_left fun _ => stay.hasOwnedEnd_iff).trans ?_
  exact and_iff_left_of_imp fun owned => stay.left_of_hasEndAt (hasEndAt_of_hasOwnedEnd owned)

theorem AddressesStay.loadUtxoOwnedAddresses_eq
    (stay : AddressesStay account.accountId removed addresses left) (ids : List String) :
    loadUtxoOwnedAddresses left account ids = loadUtxoOwnedAddresses addresses account ids := by
  have split : ∀ rows : List AddressRow,
      (rows.filter fun address => address.accountId = some account.accountId ∧ address.id ∈ ids) =
        (rows.filter fun address => address.accountId = some account.accountId).filter
          fun address => address.id ∈ ids := by
    intro rows
    rw [List.filter_filter]
    refine List.filter_congr fun address _ => ?_
    rw [← Bool.decide_and, decide_eq_decide, and_comm]
  unfold loadUtxoOwnedAddresses
  rw [split, split, stay.rows]

theorem AddressesStay.ownedSums_eq
    (stay : AddressesStay account.accountId removed addresses left) (key : TxKey) :
    ownedSums left account (remainingTables removed db) key =
      ownedSums addresses account db key := by
  unfold ownedSums
  rw [stay.ownedInputs_eq, stay.ownedOutputs_eq]

theorem AddressesStay.utxoModelEntry_eq
    (stay : AddressesStay account.accountId removed addresses left) (chain : ChainTransactionRow) :
    utxoModelEntry parseDatetime columns left account (remainingTables removed db) chain =
      (utxoModelEntry parseDatetime columns addresses account db chain).map fun entry =>
        { entry with sameBlockParentHashes :=
            sameBlockParentHashes left account (remainingTables removed db) chain } := by
  unfold utxoModelEntry
  rw [stay.ownedSums_eq, stay.ownedInputs_eq, stay.ownedOutputs_eq, stay.loadUtxoOwnedAddresses_eq,
    stay.loadUtxoOwnedAddresses_eq]
  rw [map_bind]
  refine congrArg _ (funext fun sums => ?_)
  rw [apply_ite (Except.map _)]
  refine ite_congr rfl (fun _ => rfl) fun _ => ?_
  simp only [map_bind]
  iterate 6 refine congrArg _ (funext fun _ => ?_)
  split <;> rfl

theorem AddressesStay.mem_sameBlockParentHashes
    (stay : AddressesStay account.accountId removed addresses left) {chain : ChainTransactionRow}
    {parent : String} :
    parent ∈ sameBlockParentHashes left account (remainingTables removed db) chain ↔
      parent ∈ sameBlockParentHashes addresses account db chain ∧
        ∃ input ∈ db.transactionInputs, input.addressId ∉ removed ∧ input.txKey = chain.key ∧
          input.prevTxHash = parent := by
  unfold sameBlockParentHashes
  simp only [List.mem_mergeSort, List.mem_dedup, List.mem_filter, List.mem_map, decide_eq_true_eq,
    stay.hasOwnedEnd_iff]
  constructor
  · rintro ⟨⟨input, ⟨stored, own⟩, names⟩, confirmed, height, owned, parentOwned, found⟩
    obtain ⟨stored, stays⟩ := List.mem_filter.mp stored
    rw [stay.find_chain (hasEndAt_of_hasOwnedEnd parentOwned)] at found
    exact ⟨⟨⟨input, ⟨stored, own⟩, names⟩, confirmed, height, owned, parentOwned, found⟩,
      input, stored, of_decide_eq_true stays, own, names⟩
  · rintro ⟨⟨-, confirmed, height, owned, parentOwned, found⟩, input, stored, stays, own, names⟩
    rw [← @AddressesStay.find_chain _ _ _ _ db stay _
      (hasEndAt_of_hasOwnedEnd parentOwned)] at found
    exact ⟨⟨input, ⟨List.mem_filter.mpr ⟨stored, decide_eq_true stays⟩, own⟩, names⟩, confirmed,
      height, owned, parentOwned, found⟩

theorem dedup_mergeSort_eq {left right : List String} (same : ∀ text, text ∈ left ↔ text ∈ right) :
    left.dedup.mergeSort = right.dedup.mergeSort := by
  have perm : left.dedup.Perm right.dedup := by
    refine (List.perm_ext_iff_of_nodup (List.nodup_dedup _) (List.nodup_dedup _)).mpr ?_
    intro text
    rw [List.mem_dedup, List.mem_dedup, same]
  have sorted : ∀ texts : List String, (texts.mergeSort).Pairwise (· ≤ ·) := by
    intro texts
    refine (List.pairwise_mergeSort (fun _ _ _ => ?_) (fun _ _ => ?_) texts).imp ?_
    · simp only [decide_eq_true_eq]
      exact le_trans
    · simp only [Bool.or_eq_true, decide_eq_true_eq]
      exact le_total _ _
    · simp
  refine List.Perm.eq_of_pairwise ?_ (sorted _) (sorted _)
    ((List.mergeSort_perm _ _).trans (perm.trans (List.mergeSort_perm _ _).symm))
  exact fun _ _ _ _ => le_antisymm

/-- Where the parents stay, so do the hashes listed for a transaction. -/
theorem AddressesStay.sameBlockParentHashes_eq
    (stay : AddressesStay account.accountId removed addresses left) {chain : ChainTransactionRow}
    (parentsStay : ParentsStay removed addresses account db)
    (stored : chain ∈ db.chainTransactions) :
    sameBlockParentHashes left account (remainingTables removed db) chain =
      sameBlockParentHashes addresses account db chain := by
  refine dedup_mergeSort_eq fun parent => ?_
  have members := @AddressesStay.mem_sameBlockParentHashes _ _ _ _ db stay chain parent
  unfold sameBlockParentHashes at members
  simp only [List.mem_mergeSort, List.mem_dedup] at members
  rw [members]
  refine and_iff_left_of_imp fun names => parentsStay chain stored parent ?_
  unfold sameBlockParentHashes
  rwa [List.mem_mergeSort, List.mem_dedup]

/-- A UTXO ledger keeps its entries, but for the parents in the same block. -/
theorem AddressesStay.utxoModelEntries_withoutParents
    (stay : AddressesStay account.accountId removed addresses left) :
    (utxoModelEntries parseDatetime columns left account (remainingTables removed db)).map
        (List.map withoutParents) =
      (utxoModelEntries parseDatetime columns addresses account db).map
        (List.map withoutParents) := by
  unfold utxoModelEntries
  rw [stay.utxoModelRows_eq]
  refine map_mapM_congr fun chain _ => ?_
  rw [stay.utxoModelEntry_eq]
  cases utxoModelEntry parseDatetime columns addresses account db chain with
  | error failure => rfl
  | ok entry => rfl

theorem AddressesStay.utxoModelEntries_eq
    (stay : AddressesStay account.accountId removed addresses left)
    (parentsStay : ParentsStay removed addresses account db) :
    utxoModelEntries parseDatetime columns left account (remainingTables removed db) =
      utxoModelEntries parseDatetime columns addresses account db := by
  unfold utxoModelEntries
  rw [stay.utxoModelRows_eq]
  refine mapM_congr fun chain member => ?_
  have stored : chain ∈ db.chainTransactions :=
    (List.mem_filter.mp (List.mem_mergeSort.mp member)).1
  unfold utxoModelEntry
  rw [stay.ownedSums_eq, stay.ownedInputs_eq, stay.ownedOutputs_eq, stay.loadUtxoOwnedAddresses_eq,
    stay.loadUtxoOwnedAddresses_eq, stay.sameBlockParentHashes_eq parentsStay stored]

end UtxoModel

end Bitgarth.Store
