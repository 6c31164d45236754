import Bitgarth.Store.AddressScope

/-! # Cleanup of chain data after addresses are removed

Removing addresses cascades to their inputs, outputs and unspent outputs and clears the ends of
transfers. The transactions that had such an end are candidates: their transfers without an end
and their chain rows without anything left are deleted. `removeAddresses_eq` says that this
leaves exactly the rows with an end at an address that is left.
-/

namespace Bitgarth.Store

open Amounts Ledger KeyedTable Fallible

open Sync (SyncedAssetId)

/-! ## Ends -/

/-- An end of the transfer is at an address. -/
def AccountTransferRow.EndsAt (holds : String → Prop) (row : AccountTransferRow) : Prop :=
  (∃ id ∈ row.fromAddressId, holds id) ∨ ∃ id ∈ row.toAddressId, holds id

/-- An input, an output or an end of a transfer of the transaction is at an address. -/
def TransactionTables.HasEndAt (db : TransactionTables) (holds : String → Prop) (key : TxKey) :
    Prop :=
  (∃ row ∈ db.transactionInputs, row.txKey = key ∧ holds row.addressId) ∨
    (∃ row ∈ db.transactionOutputs, row.txKey = key ∧ holds row.addressId) ∨
    ∃ row ∈ db.accountTransfers, row.txKey = key ∧ row.EndsAt holds

section Decidable

variable {holds : String → Prop} [DecidablePred holds]

instance (row : AccountTransferRow) : Decidable (row.EndsAt holds) :=
  inferInstanceAs (Decidable (_ ∨ _))

instance (db : TransactionTables) (key : TxKey) : Decidable (db.HasEndAt holds key) :=
  inferInstanceAs (Decidable (_ ∨ _ ∨ _))

end Decidable

/-- Every row refers to tracked addresses, and every chain row and transfer has an end at one. -/
structure TransactionTables.Tracked (tracked : String → Prop) (db : TransactionTables) : Prop where
  inputs : ∀ row ∈ db.transactionInputs, tracked row.addressId
  outputs : ∀ row ∈ db.transactionOutputs, tracked row.addressId
  utxos : ∀ row ∈ db.utxos, tracked row.addressId
  transferEnds : ∀ row ∈ db.accountTransfers,
    (∀ id ∈ row.fromAddressId, tracked id) ∧ ∀ id ∈ row.toAddressId, tracked id
  chain : ∀ row ∈ db.chainTransactions, db.HasEndAt tracked row.key
  transfers : ∀ row ∈ db.accountTransfers, row.EndsAt tracked

/-! ## Removing addresses -/

section Remove

variable (removed : List String)

/-- The transactions with an end at a removed address. -/
def chainCleanupCandidates (db : TransactionTables) : List TxKey :=
  (db.transactionInputs.filter fun row => row.addressId ∈ removed).map (·.txKey) ++
    (db.transactionOutputs.filter fun row => row.addressId ∈ removed).map (·.txKey) ++
    (db.accountTransfers.filter fun row => row.EndsAt (· ∈ removed)).map (·.txKey)

/-- `ON DELETE SET NULL` on both ends. -/
def clearEnds (row : AccountTransferRow) : AccountTransferRow :=
  { row with
    fromAddressId := row.fromAddressId.filter (· ∉ removed)
    toAddressId := row.toAddressId.filter (· ∉ removed) }

/-- The foreign keys to the removed addresses. -/
def cascadeAddresses (db : TransactionTables) : TransactionTables :=
  { db with
    transactionInputs := db.transactionInputs.filter fun row => row.addressId ∉ removed
    transactionOutputs := db.transactionOutputs.filter fun row => row.addressId ∉ removed
    utxos := db.utxos.filter fun row => row.addressId ∉ removed
    accountTransfers := db.accountTransfers.map (clearEnds removed) }

/-- `execute_chain_cleanup_for_marked_candidates`. -/
def executeChainCleanupForMarkedCandidates (candidates : List TxKey) (db : TransactionTables) :
    TransactionTables :=
  let db := { db with
    accountTransfers := db.accountTransfers.filter fun row =>
      ¬ (row.txKey ∈ candidates ∧ row.fromAddressId = none ∧ row.toAddressId = none) }
  { db with
    chainTransactions := db.chainTransactions.filter fun row =>
      ¬ (row.key ∈ candidates ∧ db.isOrphan row.key = true) }

/-- The candidates are marked before the addresses go. -/
def removeAddresses (db : TransactionTables) : TransactionTables :=
  executeChainCleanupForMarkedCandidates (chainCleanupCandidates removed db)
    (cascadeAddresses removed db)

/-- The rows with an end at an address that is left. -/
def remainingTables (db : TransactionTables) : TransactionTables where
  chainTransactions := db.chainTransactions.filter fun row => db.HasEndAt (· ∉ removed) row.key
  transactionInputs := db.transactionInputs.filter fun row => row.addressId ∉ removed
  transactionOutputs := db.transactionOutputs.filter fun row => row.addressId ∉ removed
  utxos := db.utxos.filter fun row => row.addressId ∉ removed
  accountTransfers := (db.accountTransfers.filter fun row => row.EndsAt (· ∉ removed)).map
    (clearEnds removed)

end Remove

section Removed

variable {removed : List String} {tracked : String → Prop} {db : TransactionTables} {key : TxKey}

theorem AccountTransferRow.EndsAt.mono {holds others : String → Prop} {row : AccountTransferRow}
    (ends : row.EndsAt holds) (implies : ∀ id, holds id → others id) : row.EndsAt others := by
  rcases ends with ⟨id, isEnd, held⟩ | ⟨id, isEnd, held⟩
  · exact .inl ⟨id, isEnd, implies id held⟩
  · exact .inr ⟨id, isEnd, implies id held⟩

theorem TransactionTables.HasEndAt.mono {holds others : String → Prop}
    (ends : db.HasEndAt holds key) (implies : ∀ id, holds id → others id) :
    db.HasEndAt others key := by
  rcases ends with ⟨row, member, same, held⟩ | ⟨row, member, same, held⟩ | ⟨row, member, same, ends⟩
  · exact .inl ⟨row, member, same, implies _ held⟩
  · exact .inr (.inl ⟨row, member, same, implies _ held⟩)
  · exact .inr (.inr ⟨row, member, same, ends.mono implies⟩)

theorem TransactionTables.Tracked.mono {others : String → Prop} (owned : db.Tracked tracked)
    (implies : ∀ id, tracked id → others id) : db.Tracked others where
  inputs row member := implies _ (owned.inputs row member)
  outputs row member := implies _ (owned.outputs row member)
  utxos row member := implies _ (owned.utxos row member)
  transferEnds row member :=
    ⟨fun id isEnd => implies id ((owned.transferEnds row member).1 id isEnd),
      fun id isEnd => implies id ((owned.transferEnds row member).2 id isEnd)⟩
  chain row member := (owned.chain row member).mono implies
  transfers row member := (owned.transfers row member).mono implies

theorem endsAt_of_stored {row : AccountTransferRow}
    (stored : ¬ (row.fromAddressId = none ∧ row.toAddressId = none)) :
    row.EndsAt fun _ => True := by
  cases source : row.fromAddressId with
  | some id => exact .inl ⟨id, source, trivial⟩
  | none =>
    cases target : row.toAddressId with
    | some id => exact .inr ⟨id, target, trivial⟩
    | none => exact absurd ⟨source, target⟩ stored

theorem clearEnds_eq_none_iff {row : AccountTransferRow} :
    (clearEnds removed row).fromAddressId = none ∧ (clearEnds removed row).toAddressId = none ↔
      ¬ row.EndsAt (· ∉ removed) := by
  unfold clearEnds AccountTransferRow.EndsAt
  rw [not_or, Option.filter_eq_none_iff, Option.filter_eq_none_iff]
  simp only [decide_eq_true_eq, not_exists, not_and]
  rfl

theorem isOrphan_iff : db.isOrphan key = true ↔
    (∀ row ∈ db.transactionInputs, row.txKey ≠ key) ∧
      (∀ row ∈ db.transactionOutputs, row.txKey ≠ key) ∧
      ∀ row ∈ db.accountTransfers, row.txKey ≠ key := by
  unfold TransactionTables.isOrphan
  simp only [Bool.and_eq_true, List.all_eq_true, decide_eq_true_eq, and_assoc]

theorem AccountTransferRow.EndsAt.removed_or_left {row : AccountTransferRow}
    (ends : row.EndsAt tracked) : row.EndsAt (· ∈ removed) ∨ row.EndsAt (· ∉ removed) := by
  rcases ends with ⟨id, isEnd, -⟩ | ⟨id, isEnd, -⟩ <;> by_cases goes : id ∈ removed
  · exact .inl (.inl ⟨id, isEnd, goes⟩)
  · exact .inr (.inl ⟨id, isEnd, goes⟩)
  · exact .inl (.inr ⟨id, isEnd, goes⟩)
  · exact .inr (.inr ⟨id, isEnd, goes⟩)

theorem TransactionTables.HasEndAt.removed_or_left (ends : db.HasEndAt tracked key) :
    db.HasEndAt (· ∈ removed) key ∨ db.HasEndAt (· ∉ removed) key := by
  rcases ends with ⟨row, member, same, -⟩ | ⟨row, member, same, -⟩ | ⟨row, member, same, ends⟩
  · by_cases goes : row.addressId ∈ removed
    · exact .inl (.inl ⟨row, member, same, goes⟩)
    · exact .inr (.inl ⟨row, member, same, goes⟩)
  · by_cases goes : row.addressId ∈ removed
    · exact .inl (.inr (.inl ⟨row, member, same, goes⟩))
    · exact .inr (.inr (.inl ⟨row, member, same, goes⟩))
  · rcases ends.removed_or_left with goes | left
    · exact .inl (.inr (.inr ⟨row, member, same, goes⟩))
    · exact .inr (.inr (.inr ⟨row, member, same, left⟩))

theorem mem_chainCleanupCandidates :
    key ∈ chainCleanupCandidates removed db ↔ db.HasEndAt (· ∈ removed) key := by
  unfold chainCleanupCandidates TransactionTables.HasEndAt
  simp only [List.mem_append, List.mem_map, List.mem_filter, decide_eq_true_eq, or_assoc,
    and_assoc, and_comm, and_left_comm]

theorem transfers_removeAddresses (owned : db.Tracked tracked) :
    (removeAddresses removed db).accountTransfers =
      (remainingTables removed db).accountTransfers := by
  change ((db.accountTransfers.map (clearEnds removed)).filter _) = _
  rw [List.filter_map]
  refine congrArg _ (List.filter_congr fun row member => ?_)
  rw [Function.comp_apply, decide_eq_decide, clearEnds_eq_none_iff]
  constructor
  · intro kept
    by_contra gone
    -- the ends that the transfer had were all removed, which makes it a candidate
    have candidate := ((owned.transfers row member).removed_or_left).resolve_right gone
    exact kept ⟨mem_chainCleanupCandidates.mpr (.inr (.inr ⟨row, member, rfl, candidate⟩)), gone⟩
  · rintro left ⟨-, gone⟩
    exact gone left

theorem isOrphan_remaining {after : TransactionTables}
    (inputs : after.transactionInputs = (remainingTables removed db).transactionInputs)
    (outputs : after.transactionOutputs = (remainingTables removed db).transactionOutputs)
    (transfers : after.accountTransfers = (remainingTables removed db).accountTransfers) :
    after.isOrphan key = true ↔ ¬ db.HasEndAt (· ∉ removed) key := by
  rw [isOrphan_iff, inputs, outputs, transfers]
  unfold TransactionTables.HasEndAt remainingTables
  simp only [List.mem_filter, decide_eq_true_eq, not_or, not_exists, not_and, and_imp]
  refine and_congr ?_ (and_congr ?_ ?_)
  · exact forall₂_congr fun row _ => imp_not_comm
  · exact forall₂_congr fun row _ => imp_not_comm
  · rw [List.forall_mem_map]
    simp only [List.mem_filter, decide_eq_true_eq, and_imp]
    exact forall₂_congr fun row _ => imp_not_comm

theorem removeAddresses_eq (owned : db.Tracked tracked) :
    removeAddresses removed db = remainingTables removed db := by
  have transfers := @transfers_removeAddresses removed tracked db owned
  have chain : (removeAddresses removed db).chainTransactions =
      (remainingTables removed db).chainTransactions := by
    refine List.filter_congr fun row member => ?_
    rw [decide_eq_decide]
    refine (not_congr (and_congr mem_chainCleanupCandidates
      (@isOrphan_remaining removed db _ _ (by rfl) (by rfl) (by exact transfers)))).trans ?_
    constructor
    · intro kept
      by_contra gone
      exact kept ⟨((owned.chain row member).removed_or_left).resolve_right gone, gone⟩
    · rintro left ⟨-, gone⟩
      exact gone left
  have parts : removeAddresses removed db =
      { remainingTables removed db with
        chainTransactions := (removeAddresses removed db).chainTransactions
        accountTransfers := (removeAddresses removed db).accountTransfers } := rfl
  rw [parts, chain, transfers]

theorem clearEnds_endsAt {left : String → Prop} {row : AccountTransferRow}
    (stays : ∀ id, id ∈ row.fromAddressId ∨ id ∈ row.toAddressId → id ∉ removed → left id)
    (ends : row.EndsAt (· ∉ removed)) : (clearEnds removed row).EndsAt left := by
  unfold clearEnds AccountTransferRow.EndsAt
  simp only [Option.mem_def, Option.filter_eq_some_iff, decide_eq_true_eq]
  rcases ends with ⟨id, isEnd, stored⟩ | ⟨id, isEnd, stored⟩
  · exact .inl ⟨id, ⟨isEnd, stored⟩, stays id (.inl isEnd) stored⟩
  · exact .inr ⟨id, ⟨isEnd, stored⟩, stays id (.inr isEnd) stored⟩

theorem tracked_remainingTables {left : String → Prop} (owned : db.Tracked tracked)
    (stays : ∀ id, tracked id → id ∉ removed → left id) :
    (remainingTables removed db).Tracked left := by
  have ends : ∀ row ∈ db.accountTransfers, row.EndsAt (· ∉ removed) →
      (clearEnds removed row).EndsAt left := by
    intro row member
    obtain ⟨fromTracked, toTracked⟩ := owned.transferEnds row member
    refine clearEnds_endsAt fun id isEnd => stays id ?_
    exact isEnd.elim (fromTracked id) (toTracked id)
  refine ⟨?_, ?_, ?_, ?_, ?_, ?_⟩
  · intro row member
    obtain ⟨stored, kept⟩ := List.mem_filter.mp member
    exact stays _ (owned.inputs row stored) (of_decide_eq_true kept)
  · intro row member
    obtain ⟨stored, kept⟩ := List.mem_filter.mp member
    exact stays _ (owned.outputs row stored) (of_decide_eq_true kept)
  · intro row member
    obtain ⟨stored, kept⟩ := List.mem_filter.mp member
    exact stays _ (owned.utxos row stored) (of_decide_eq_true kept)
  · intro row member
    obtain ⟨old, stored, rfl⟩ := List.mem_map.mp member
    obtain ⟨fromTracked, toTracked⟩ := owned.transferEnds old (List.mem_filter.mp stored).1
    constructor
    · intro id isEnd
      obtain ⟨isEnd, kept⟩ := Option.filter_eq_some_iff.mp isEnd
      exact stays id (fromTracked id isEnd) (of_decide_eq_true kept)
    · intro id isEnd
      obtain ⟨isEnd, kept⟩ := Option.filter_eq_some_iff.mp isEnd
      exact stays id (toTracked id isEnd) (of_decide_eq_true kept)
  · intro row member
    rcases of_decide_eq_true (List.mem_filter.mp member).2 with
      ⟨input, stored, same, kept⟩ | ⟨output, stored, same, kept⟩ | ⟨transfer, stored, same, kept⟩
    · exact .inl ⟨input, List.mem_filter.mpr ⟨stored, decide_eq_true kept⟩, same,
        stays _ (owned.inputs input stored) kept⟩
    · exact .inr (.inl ⟨output, List.mem_filter.mpr ⟨stored, decide_eq_true kept⟩, same,
        stays _ (owned.outputs output stored) kept⟩)
    · exact .inr (.inr ⟨_, List.mem_map_of_mem (List.mem_filter.mpr
        ⟨stored, decide_eq_true kept⟩), same, ends transfer stored kept⟩)
  · intro row member
    obtain ⟨old, stored, rfl⟩ := List.mem_map.mp member
    obtain ⟨stored, kept⟩ := List.mem_filter.mp stored
    exact ends old stored (of_decide_eq_true kept)

theorem unique_remainingTables (unique : db.Unique) : (remainingTables removed db).Unique :=
  ⟨unique.chainTransactions.filter _, unique.transactionInputs.filter _,
    unique.transactionOutputs.filter _, unique.utxos.filter _,
    (unique.accountTransfers.filter _).map fun _ => rfl⟩

end Removed

end Bitgarth.Store
