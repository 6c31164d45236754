import Bitgarth.Store.AccountSummaries

/-! # How account entries change the balance

`accountDelta` is what a transaction changes the balance of an account by: the transfers to it
less the transfers from it, and the fee where the account owns the sender of the normal transfer.
The account model has one entry for each transaction with a transfer of the account, and its
entry changes the balance by that (`accountModelEntries_spec`), whatever the order of the rows
(`entriesOfRows_perm`).
-/

namespace Bitgarth.Store

open Amounts Ledger KeyedTable Fallible Text RowSelection

/-- The number the amount columns of a transfer stand for. -/
def AccountTransferRow.amount (row : AccountTransferRow) : ℤ :=
  TwoLimbs.value globalSplitDivisor row.valueAmountHi row.valueAmountLo

/-- The fee of a transaction, nothing where it has none. -/
def ChainTransactionRow.feeValue (chain : ChainTransactionRow) : ℕ :=
  match parseOptionalSplitAmount chain.feeAmountHi chain.feeAmountLo "fee_amount" with
  | .ok (some fee) => fee.value
  | _ => 0

/-- The key of a transaction of the asset and network of an account. -/
def AccountMeta.txKey (account : AccountMeta) (txHash : String) : TxKey where
  assetId := account.assetId
  network := account.network
  txHash

section Deltas

variable (addresses : List AddressRow) (account : AccountMeta) (db : TransactionTables)

/-- The account owns the sender of a transaction's normal transfer. -/
def OwnsNormalSender (key : TxKey) : Prop :=
  ∃ row ∈ db.accountTransfers, row.txKey = key ∧ row.isNormalSenderTransfer = true ∧
    OwnsTransferEnd addresses account row.fromAddressId

instance (key : TxKey) : Decidable (OwnsNormalSender addresses account db key) :=
  inferInstanceAs (Decidable (∃ row ∈ db.accountTransfers, _))

/-- The transfers of a transaction to the account. -/
noncomputable def receivedTotal (key : TxKey) : ℤ :=
  sumWhere (fun row => row.txKey = key ∧ OwnsTransferEnd addresses account row.toAddressId)
    AccountTransferRow.amount db.accountTransfers

/-- The transfers of a transaction from the account. -/
noncomputable def sentTotal (key : TxKey) : ℤ :=
  sumWhere (fun row => row.txKey = key ∧ OwnsTransferEnd addresses account row.fromAddressId)
    AccountTransferRow.amount db.accountTransfers

/-- The fee, where the account is charged it. -/
def chargedFee (chain : ChainTransactionRow) : ℤ :=
  if OwnsNormalSender addresses account db chain.key then chain.feeValue else 0

/-- What a transaction changes the balance of the account by. -/
noncomputable def accountDelta (chain : ChainTransactionRow) : ℤ :=
  if chain.status = .failed then
    -chargedFee addresses account db chain
  else
    receivedTotal addresses account db chain.key - sentTotal addresses account db chain.key -
      chargedFee addresses account db chain

/-- The account has an end of a transfer of a transaction. -/
def HasTransferEnd (key : TxKey) : Prop :=
  ∃ row ∈ db.accountTransfers, row.txKey = key ∧
    (OwnsTransferEnd addresses account row.fromAddressId ∨
      OwnsTransferEnd addresses account row.toAddressId)

end Deltas

/-! ## The delta of an aggregate -/

section Aggregate

variable {aggregated : AggregatedAccountTx} {entry : LedgerBuildEntry} {delta : ℤ}

/-- The fee of an aggregate as a number. -/
def AggregatedAccountTx.feeValue (aggregated : AggregatedAccountTx) : ℕ :=
  aggregated.fee.elim 0 UnsignedAmount.value

theorem feeApplied_eq_ok {moved fee : ℤ} {isFailed sender : Prop} [Decidable isFailed]
    [Decidable sender]
    (applied : (if isFailed then
        pure (if sender then -fee else 0)
      else if sender then
        match checkedSub moved fee with
        | some delta => .ok delta
        | none => .error ⟨"Signed underflow while applying account fee"⟩
      else
        pure moved : Except DbError ℤ) = .ok delta) :
    delta = if isFailed then -(if sender then fee else 0) else
      moved - if sender then fee else 0 := by
  by_cases failed : isFailed
  · rw [if_pos failed, pure_eq_ok] at applied
    rw [if_pos failed, ← applied]
    split
    · rfl
    · rw [neg_zero]
  rw [if_neg failed] at applied ⊢
  by_cases sends : sender
  · rw [if_pos sends] at applied ⊢
    split at applied <;> rename_i subtracted
    · rw [← Except.ok.inj applied, (checkedSub_eq_some.mp subtracted).1]
    · cases applied
  · rw [if_neg sends, pure_eq_ok] at applied
    rw [if_neg sends, ← applied, sub_zero]

theorem balanceDelta_eq_ok (isDelta : aggregated.balanceDelta
    (if aggregated.hasOwnedNormalSender then aggregated.fee else none) = .ok delta) :
    delta =
      if aggregated.status = .failed then
        -(if aggregated.hasOwnedNormalSender = true then (aggregated.feeValue : ℤ) else 0)
      else
        (aggregated.incomingTotal.value : ℤ) - aggregated.outgoingTotal.value -
          if aggregated.hasOwnedNormalSender = true then (aggregated.feeValue : ℤ) else 0 := by
  unfold AggregatedAccountTx.balanceDelta at isDelta
  obtain ⟨incoming, isIncoming, isDelta⟩ := bind_eq_ok.mp isDelta
  obtain ⟨outgoing, isOutgoing, isDelta⟩ := bind_eq_ok.mp isDelta
  rw [← (toSignedAmount_eq_ok.mp isIncoming).1, ← (toSignedAmount_eq_ok.mp isOutgoing).1]
  unfold AggregatedAccountTx.feeValue
  by_cases sender : aggregated.hasOwnedNormalSender = true
  · rw [if_pos sender] at isDelta
    cases isFee : aggregated.fee with
    | none =>
      rw [isFee] at isDelta
      exact feeApplied_eq_ok isDelta
    | some fee =>
      rw [isFee] at isDelta
      obtain ⟨signed, isSigned, isDelta⟩ := bind_eq_ok.mp isDelta
      have applied := feeApplied_eq_ok isDelta
      rw [(toSignedAmount_eq_ok.mp isSigned).1] at applied
      exact applied
  · rw [if_neg sender] at isDelta
    have applied := feeApplied_eq_ok isDelta
    rw [if_neg sender] at applied ⊢
    exact applied

theorem entry_spec (built : aggregated.entry = .ok entry) :
    entry.txHash = aggregated.txHash ∧ aggregated.balanceDelta
      (if aggregated.hasOwnedNormalSender then aggregated.fee else none) =
        .ok entry.balanceDelta := by
  unfold AggregatedAccountTx.entry at built
  obtain ⟨delta, isDelta, built⟩ := bind_eq_ok.mp built
  rw [pure_eq_ok] at built
  subst built
  exact ⟨rfl, isDelta⟩

end Aggregate

/-! ## The rows of a transaction -/

section Rows

variable {addresses : List AddressRow} {account : AccountMeta} {db : TransactionTables}
  {columns : TxKey → ChainTransactionColumns} {chain : ChainTransactionRow}
  {row : AccountModelRow}

theorem eq_of_inScope {left right : TxKey}
    (leftScoped : left.InScope account.assetId account.network)
    (rightScoped : right.InScope account.assetId account.network)
    (same : left.txHash = right.txHash) : left = right := by
  cases left
  cases right
  obtain ⟨rfl, rfl⟩ := leftScoped
  obtain ⟨rfl, rfl⟩ := rightScoped
  cases same
  rfl

theorem mem_accountModelRows_iff : row ∈ accountModelRows addresses account db columns ↔
    ∃ transfer ∈ db.accountTransfers,
      transfer.txKey.InScope account.assetId account.network ∧
      (OwnsTransferEnd addresses account transfer.fromAddressId ∨
        OwnsTransferEnd addresses account transfer.toAddressId) ∧
      ∃ chain, find ChainTransactionRow.key db.chainTransactions transfer.txKey = some chain ∧
        accountModelRow addresses account transfer chain = row := by
  unfold accountModelRows
  rw [List.mem_insertionSort, List.mem_filterMap]
  simp only [ownedTransfers, List.mem_filter, decide_eq_true_eq, joinChain, Option.map_eq_some_iff,
    and_assoc]

theorem joined_of_mem_accountModelRows
    (member : row ∈ accountModelRows addresses account db columns) : Joined account db row := by
  obtain ⟨transfer, _, inside, _, chain, found, rfl⟩ := mem_accountModelRows_iff.mp member
  have isKey : chain.key = transfer.txKey := find_eq_some_key found
  rw [← isKey] at inside found
  exact ⟨inside, found⟩

theorem Joined.key_eq (joined : Joined account db row) :
    row.chain.key = account.txKey row.chain.key.txHash :=
  eq_of_inScope joined.1 ⟨rfl, rfl⟩ rfl

theorem exists_accountModelRow_iff {txHash : String} :
    (∃ row ∈ accountModelRows addresses account db columns, row.chain.key.txHash = txHash) ↔
      (find ChainTransactionRow.key db.chainTransactions (account.txKey txHash)).isSome ∧
        HasTransferEnd addresses account db (account.txKey txHash) := by
  constructor
  · rintro ⟨row, member, isHash⟩
    have joined := joined_of_mem_accountModelRows member
    obtain ⟨transfer, stored, _, ends, chain, found, rfl⟩ := mem_accountModelRows_iff.mp member
    have isKey : chain.key = transfer.txKey := find_eq_some_key found
    have whole : chain.key = account.txKey txHash := isHash ▸ joined.key_eq
    refine ⟨?_, transfer, stored, isKey.symm.trans whole, ends⟩
    rw [← whole, isKey, found]
    rfl
  · rintro ⟨isStored, transfer, stored, isKey, ends⟩
    obtain ⟨chain, found⟩ := Option.isSome_iff_exists.mp isStored
    have parent : chain.key = account.txKey txHash := find_eq_some_key found
    refine ⟨accountModelRow addresses account transfer chain, ?_, congrArg TxKey.txHash parent⟩
    apply mem_accountModelRows_iff.mpr
    exact ⟨transfer, stored, isKey ▸ ⟨rfl, rfl⟩, ends, chain, isKey ▸ found, rfl⟩

theorem rowsOf_accountModelRows (isKey : chain.key.InScope account.assetId account.network)
    (found : find ChainTransactionRow.key db.chainTransactions chain.key = some chain) :
    (GroupedFold.rowsOf (fun row => row.chain.key.txHash)
      (accountModelRows addresses account db columns) chain.key.txHash).Perm
        ((db.accountTransfers.filter fun row => row.txKey = chain.key ∧
          (OwnsTransferEnd addresses account row.fromAddressId ∨
            OwnsTransferEnd addresses account row.toAddressId)).map
              fun row => accountModelRow addresses account row chain) := by
  refine (GroupedFold.rowsOf_perm (List.perm_insertionSort _ _) _).trans (List.Perm.of_eq ?_)
  unfold ownedTransfers GroupedFold.rowsOf
  induction db.accountTransfers with
  | nil => rfl
  | cons transfer rest ih =>
    by_cases isOwned : transfer.txKey.InScope account.assetId account.network ∧
        (OwnsTransferEnd addresses account transfer.fromAddressId ∨
          OwnsTransferEnd addresses account transfer.toAddressId)
    · rw [List.filter_cons_of_pos (by simpa only [decide_eq_true_eq] using isOwned),
        List.filterMap_cons]
      cases isJoined : find ChainTransactionRow.key db.chainTransactions transfer.txKey with
      | none =>
        have other : transfer.txKey ≠ chain.key := by
          intro same
          rw [same, found] at isJoined
          cases isJoined
        rw [List.filter_cons_of_neg (by simp only [other, false_and, decide_false,
          Bool.false_eq_true, not_false_eq_true]), ← ih]
        simp only [joinChain, isJoined, Option.map_none]
      | some parent =>
        have isParent : parent.key = transfer.txKey := find_eq_some_key isJoined
        simp only [joinChain, isJoined, Option.map_some]
        by_cases same : transfer.txKey = chain.key
        · rw [same, found] at isJoined
          obtain rfl := Option.some.inj isJoined
          have ends : transfer.txKey = chain.key ∧
              (OwnsTransferEnd addresses account transfer.fromAddressId ∨
                OwnsTransferEnd addresses account transfer.toAddressId) := ⟨same, isOwned.2⟩
          rw [List.filter_cons_of_pos (by simp only [accountModelRow, decide_true]),
            List.filter_cons_of_pos (by simpa only [decide_eq_true_eq] using ends),
            List.map_cons, ← ih]
        · have otherHash : parent.key.txHash ≠ chain.key.txHash := by
            intro sameHash
            apply same
            rw [← isParent]
            exact eq_of_inScope (isParent ▸ isOwned.1) isKey sameHash
          have isOther : ¬ decide ((accountModelRow addresses account transfer
              parent).chain.key.txHash = chain.key.txHash) = true := by
            rw [decide_eq_true_eq]
            exact otherHash
          rw [List.filter_cons_of_neg (by exact isOther),
            List.filter_cons_of_neg (by simp only [same, false_and, decide_false,
              Bool.false_eq_true, not_false_eq_true]), ← ih]
    · have other : ¬ (transfer.txKey = chain.key ∧
          (OwnsTransferEnd addresses account transfer.fromAddressId ∨
            OwnsTransferEnd addresses account transfer.toAddressId)) := by
        rintro ⟨same, ends⟩
        exact isOwned ⟨same ▸ isKey, ends⟩
      rw [List.filter_cons_of_neg (by simpa only [decide_eq_true_eq] using isOwned),
        List.filter_cons_of_neg (by simpa only [decide_eq_true_eq] using other), ih]

end Rows

/-! ## Entries -/

section Entries

variable (parseDatetime : String → Except DbError ℤ) (columns : TxKey → ChainTransactionColumns)

/-- The entries of the rows of the query, in any order. -/
def entriesOfRows (rows : List AccountModelRow) : Except DbError (List LedgerBuildEntry) := do
  let byHash ← rows.foldlM (aggregateRow parseDatetime columns) []
  byHash.mapM AggregatedAccountTx.entry

theorem accountModelEntries_eq_entriesOfRows (addresses : List AddressRow) (account : AccountMeta)
    (db : TransactionTables) : accountModelEntries parseDatetime columns addresses account db =
      entriesOfRows parseDatetime columns (accountModelRows addresses account db columns) := rfl

variable {parseDatetime columns} {addresses : List AddressRow} {account : AccountMeta}
  {db : TransactionTables} {entries : List LedgerBuildEntry} {chain : ChainTransactionRow}
  {aggregated : AggregatedAccountTx} {byHash : List AggregatedAccountTx}

/-- **The order of the rows does not matter.** -/
theorem entriesOfRows_perm {rows other : List AccountModelRow}
    (joined : ∀ row ∈ rows, Joined account db row) (perm : rows.Perm other)
    (built : entriesOfRows parseDatetime columns rows = .ok entries) :
    ∃ otherEntries, entriesOfRows parseDatetime columns other = .ok otherEntries ∧
      entries.Perm otherEntries := by
  unfold entriesOfRows at built ⊢
  obtain ⟨byHash, aggregates, built⟩ := bind_eq_ok.mp built
  rw [aggregateRow_eq_fileRow] at aggregates ⊢
  obtain ⟨otherByHash, otherAggregates, sameAggregates⟩ :=
    GroupedFold.foldlM_fileRow_perm summary_summarises joined perm aggregates
  obtain ⟨otherEntries, otherBuilt, sameEntries⟩ := perm_of_mapM_eq_ok sameAggregates built
  exact ⟨otherEntries, bind_eq_ok.mpr ⟨otherByHash, otherAggregates, otherBuilt⟩, sameEntries⟩

theorem delta_of_summarises
    (found : find ChainTransactionRow.key db.chainTransactions chain.key = some chain)
    (isKey : chain.key.InScope account.assetId account.network)
    (summarised : Summarises parseDatetime columns account db
      (GroupedFold.rowsOf (fun row => row.chain.key.txHash)
        (accountModelRows addresses account db columns) chain.key.txHash) aggregated)
    {delta : ℤ} (isDelta : aggregated.balanceDelta
      (if aggregated.hasOwnedNormalSender then aggregated.fee else none) = .ok delta) :
    delta = accountDelta addresses account db chain := by
  replace summarised := summarised.perm (rowsOf_accountModelRows isKey found)
  obtain ⟨row, member, _⟩ := summarised.attained
  obtain ⟨transfer, _, rfl⟩ := List.mem_map.mp member
  obtain ⟨_, blockTime, value, fee, read, chainEq⟩ := summarised.read _ member
  have status : aggregated.status = chain.status := congrArg AggregatedAccountTx.status chainEq
  have feeEq : aggregated.fee = fee := congrArg AggregatedAccountTx.fee chainEq
  have isFee : aggregated.feeValue = chain.feeValue := by
    have parsed : parseOptionalSplitAmount chain.feeAmountHi chain.feeAmountLo "fee_amount" =
      .ok fee := read.fee
    unfold AggregatedAccountTx.feeValue ChainTransactionRow.feeValue
    rw [parsed, feeEq]
    cases fee <;> rfl
  have incoming : (aggregated.incomingTotal.value : ℤ) =
      receivedTotal addresses account db chain.key := by
    rw [summarised.counts.incomingTotal, sumWhere_map, sumWhere_filter]
    apply sumWhere_congr
    intro transfer _
    simp only [accountModelRow, decide_eq_true_eq]
    tauto
  have outgoing : (aggregated.outgoingTotal.value : ℤ) =
      sentTotal addresses account db chain.key := by
    rw [summarised.counts.outgoingTotal, sumWhere_map, sumWhere_filter]
    apply sumWhere_congr
    intro transfer _
    simp only [accountModelRow, decide_eq_true_eq]
    tauto
  have sender : aggregated.hasOwnedNormalSender = true ↔
      OwnsNormalSender addresses account db chain.key := by
    rw [summarised.counts.hasOwnedNormalSender]
    simp only [List.mem_map, List.mem_filter, decide_eq_true_eq, exists_exists_and_eq_and,
      accountModelRow, OwnsNormalSender]
    apply exists_congr
    intro transfer
    tauto
  rw [balanceDelta_eq_ok isDelta, status, incoming, outgoing, isFee]
  unfold accountDelta chargedFee
  simp only [sender]

/-- **The entries of an account**: one for each transaction with an end of the account, with what
the transaction changes the balance by. -/
theorem accountModelEntries_spec
    (built : accountModelEntries parseDatetime columns addresses account db = .ok entries) :
    (entries.map LedgerBuildEntry.txHash).Nodup ∧
    (∀ txHash, txHash ∈ entries.map LedgerBuildEntry.txHash ↔
      (find ChainTransactionRow.key db.chainTransactions (account.txKey txHash)).isSome ∧
        HasTransferEnd addresses account db (account.txKey txHash)) ∧
    ∀ entry ∈ entries, ∃ chain,
      find ChainTransactionRow.key db.chainTransactions (account.txKey entry.txHash) = some chain ∧
        entry.balanceDelta = accountDelta addresses account db chain := by
  rw [accountModelEntries_eq_entriesOfRows] at built
  obtain ⟨byHash, aggregates, built⟩ := bind_eq_ok.mp built
  rw [aggregateRow_eq_fileRow] at aggregates
  have holds := GroupedFold.foldlM_fileRow_spec summary_summarises
    (fun row => joined_of_mem_accountModelRows) aggregates
  have hashes : entries.map LedgerBuildEntry.txHash = byHash.map AggregatedAccountTx.txHash :=
    map_eq_of_mapM_eq_ok built fun _ _ isEntry => (entry_spec isEntry).1
  refine ⟨hashes ▸ holds.keyed, ?_, ?_⟩
  · intro txHash
    rw [hashes, ← @exists_accountModelRow_iff _ _ _ columns, ← GroupedFold.rowsOf_ne_nil_iff]
    constructor
    · intro listed
      obtain ⟨aggregated, member, rfl⟩ := List.mem_map.mp listed
      exact (holds.found _ _ ((find_key_eq_some_iff holds.keyed).mpr member)).1
    · intro occurs
      cases isFound : find AggregatedAccountTx.txHash byHash txHash with
      | none => exact absurd (holds.absent txHash isFound) occurs
      | some aggregated =>
        exact List.mem_map.mpr ⟨aggregated, mem_of_find isFound, find_eq_some_key isFound⟩
  · intro entry member
    obtain ⟨aggregated, isAggregate, isEntry⟩ := (mem_of_mapM_eq_ok built).2 entry member
    obtain ⟨isHash, isDelta⟩ := entry_spec isEntry
    obtain ⟨_, summarised⟩ := holds.found _ _
      ((find_key_eq_some_iff holds.keyed).mpr isAggregate)
    obtain ⟨row, isRow, _⟩ := summarised.attained
    obtain ⟨joined, _⟩ := summarised.read row isRow
    have rowHash : row.chain.key.txHash = aggregated.txHash := summarised.txHash_eq isRow
    refine ⟨row.chain, ?_, ?_⟩
    · rw [isHash, ← rowHash, ← joined.key_eq]
      exact joined.2
    · rw [← rowHash] at summarised
      exact delta_of_summarises joined.2 joined.1 summarised isDelta

end Entries

end Bitgarth.Store
