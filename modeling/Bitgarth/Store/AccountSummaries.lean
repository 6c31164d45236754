import Mathlib.Algebra.Order.BigOperators.Group.List
import Mathlib.Data.Finset.Max
import Bitgarth.Foundation.GroupedFold
import Bitgarth.Store.AccountLedgerBuild
import Bitgarth.Store.SplitAmounts

/-! # What the transfers of a transaction add up to

The rows of the account query are filed under their transaction hash. `Summarises` says what the
aggregate of a transaction is, whatever the order of its rows: the chain row they share, the least
index, which ends are owned, and the sums of the amounts.
-/

namespace Bitgarth.Store

open Amounts Ledger KeyedTable Fallible Text RowSelection

/-- The number the amount columns of a row stand for. -/
def AccountModelRow.amount (row : AccountModelRow) : ℤ :=
  TwoLimbs.value globalSplitDivisor row.valueAmountHi row.valueAmountLo

/-- The shown addresses of an end, sorted and each once. -/
def addressSet (texts : List String) : List String :=
  texts.dedup.insertionSort (· ≤ ·)

theorem addressSet_congr {left right : List String} (same : ∀ text, text ∈ left ↔ text ∈ right) :
    addressSet left = addressSet right := by
  have perm : left.dedup.Perm right.dedup := by
    apply (List.perm_ext_iff_of_nodup (List.nodup_dedup _) (List.nodup_dedup _)).mpr
    intro text
    rw [List.mem_dedup, List.mem_dedup, same]
  unfold addressSet
  refine @List.Perm.eq_of_pairwise _ (fun first second => first ≤ second) _ _ ?_
    (List.pairwise_insertionSort _ _) (List.pairwise_insertionSort _ _)
    ((List.perm_insertionSort _ _).trans (perm.trans (List.perm_insertionSort _ _).symm))
  intro first second _ _ le ge
  exact le_antisymm le ge

theorem mem_addressSet {texts : List String} {text : String} :
    text ∈ addressSet texts ↔ text ∈ texts := by
  unfold addressSet
  rw [List.mem_insertionSort, List.mem_dedup]

theorem insertAddresses_addressSet {texts : List String} {address : Option String} :
    insertAddresses (addressSet texts) address = addressSet (texts ++ shownAddress address) := by
  refine @addressSet_congr (addressSet texts ++ shownAddress address) _ fun text => ?_
  simp only [List.mem_append, mem_addressSet]

/-- An aggregate without what its rows counted. -/
def AggregatedAccountTx.reset (aggregated : AggregatedAccountTx) : AggregatedAccountTx :=
  { aggregated with
    minTransferIndex := 0
    hasFromOwned := false
    hasOwnedNormalSender := false
    hasToOwned := false
    incomingTotal := .zero
    outgoingTotal := .zero
    selfTransferTotal := .zero
    fromAddresses := []
    toAddresses := [] }

/-- What an aggregate has counted of rows. -/
structure Counts (rows : List AccountModelRow) (aggregated : AggregatedAccountTx) : Prop where
  hasFromOwned : aggregated.hasFromOwned = true ↔ ∃ row ∈ rows, row.fromOwned = true
  hasOwnedNormalSender : aggregated.hasOwnedNormalSender = true ↔
    ∃ row ∈ rows, row.fromOwned = true ∧ row.isNormalSenderTransfer = true
  hasToOwned : aggregated.hasToOwned = true ↔ ∃ row ∈ rows, row.toOwned = true
  incomingTotal : (aggregated.incomingTotal.value : ℤ) =
    sumWhere (fun row => row.toOwned = true) AccountModelRow.amount rows
  outgoingTotal : (aggregated.outgoingTotal.value : ℤ) =
    sumWhere (fun row => row.fromOwned = true) AccountModelRow.amount rows
  selfTransferTotal : (aggregated.selfTransferTotal.value : ℤ) =
    sumWhere (fun row => row.fromOwned = true ∧ row.toOwned = true) AccountModelRow.amount rows
  fromAddresses : aggregated.fromAddresses =
    addressSet (rows.flatMap fun row => shownAddress row.fromAddress)
  toAddresses : aggregated.toAddresses =
    addressSet (rows.flatMap fun row => shownAddress row.toAddress)

section Counts

variable {rows other : List AccountModelRow} {aggregated after : AggregatedAccountTx}
  {row : AccountModelRow} {value : UnsignedAmount}

theorem Counts.perm (counts : Counts rows aggregated) (perm : rows.Perm other) :
    Counts other aggregated where
  hasFromOwned := by
    rw [counts.hasFromOwned]
    simp only [perm.mem_iff]
  hasOwnedNormalSender := by
    rw [counts.hasOwnedNormalSender]
    simp only [perm.mem_iff]
  hasToOwned := by
    rw [counts.hasToOwned]
    simp only [perm.mem_iff]
  incomingTotal := by rw [counts.incomingTotal, sumWhere_perm perm]
  outgoingTotal := by rw [counts.outgoingTotal, sumWhere_perm perm]
  selfTransferTotal := by rw [counts.selfTransferTotal, sumWhere_perm perm]
  fromAddresses := by
    rw [counts.fromAddresses]
    apply addressSet_congr
    simp only [List.mem_flatMap, perm.mem_iff, implies_true]
  toAddresses := by
    rw [counts.toAddresses]
    apply addressSet_congr
    simp only [List.mem_flatMap, perm.mem_iff, implies_true]

theorem Counts.unique (counts : Counts rows aggregated) (countsAfter : Counts rows after)
    (chain : aggregated.reset = after.reset)
    (index : aggregated.minTransferIndex = after.minTransferIndex) : aggregated = after := by
  have incoming : aggregated.incomingTotal = after.incomingTotal :=
    UnsignedAmount.ext (Nat.cast_injective
      (counts.incomingTotal.trans countsAfter.incomingTotal.symm))
  have outgoing : aggregated.outgoingTotal = after.outgoingTotal :=
    UnsignedAmount.ext (Nat.cast_injective
      (counts.outgoingTotal.trans countsAfter.outgoingTotal.symm))
  have self : aggregated.selfTransferTotal = after.selfTransferTotal :=
    UnsignedAmount.ext (Nat.cast_injective
      (counts.selfTransferTotal.trans countsAfter.selfTransferTotal.symm))
  have fromOwned : aggregated.hasFromOwned = after.hasFromOwned :=
    Bool.eq_iff_iff.mpr (counts.hasFromOwned.trans countsAfter.hasFromOwned.symm)
  have sender : aggregated.hasOwnedNormalSender = after.hasOwnedNormalSender :=
    Bool.eq_iff_iff.mpr (counts.hasOwnedNormalSender.trans countsAfter.hasOwnedNormalSender.symm)
  have toOwned : aggregated.hasToOwned = after.hasToOwned :=
    Bool.eq_iff_iff.mpr (counts.hasToOwned.trans countsAfter.hasToOwned.symm)
  have fromAddresses := counts.fromAddresses.trans countsAfter.fromAddresses.symm
  have toAddresses := counts.toAddresses.trans countsAfter.toAddresses.symm
  cases aggregated
  cases after
  simp only [AggregatedAccountTx.reset, AggregatedAccountTx.mk.injEq] at *
  simp only [chain, index, incoming, outgoing, self, fromOwned, sender, toOwned, fromAddresses,
    toAddresses, and_self]

theorem counts_newAggregate {columns : TxKey → ChainTransactionColumns} {blockTime : Option ℤ}
    {fee : Option UnsignedAmount} : Counts [] (newAggregate columns row blockTime fee) := by
  constructor <;> simp [newAggregate, addressSet]

theorem addWhen_eq_ok_iff {condition : Bool} {accumulator total : UnsignedAmount}
    {fieldName : String} : addWhen condition accumulator value fieldName = .ok total ↔
      total.value = accumulator.value + if condition = true then value.value else 0 := by
  unfold addWhen
  split <;> rename_i holds
  · exact addAmount_eq_ok
  · rw [Except.ok.injEq, UnsignedAmount.ext_iff, add_zero]
    exact eq_comm

theorem add_eq_ok_iff :
    aggregated.add row value = .ok after ↔
      after.incomingTotal.value =
        aggregated.incomingTotal.value + (if row.toOwned = true then value.value else 0) ∧
      after.outgoingTotal.value =
        aggregated.outgoingTotal.value + (if row.fromOwned = true then value.value else 0) ∧
      after.selfTransferTotal.value = aggregated.selfTransferTotal.value +
        (if (row.fromOwned && row.toOwned) = true then value.value else 0) ∧
      after = { aggregated with
        minTransferIndex := min aggregated.minTransferIndex row.transferIndex
        hasFromOwned := aggregated.hasFromOwned || row.fromOwned
        hasOwnedNormalSender :=
          aggregated.hasOwnedNormalSender || (row.fromOwned && row.isNormalSenderTransfer)
        hasToOwned := aggregated.hasToOwned || row.toOwned
        incomingTotal := after.incomingTotal
        outgoingTotal := after.outgoingTotal
        selfTransferTotal := after.selfTransferTotal
        fromAddresses := insertAddresses aggregated.fromAddresses row.fromAddress
        toAddresses := insertAddresses aggregated.toAddresses row.toAddress } := by
  unfold AggregatedAccountTx.add
  constructor
  · intro added
    obtain ⟨incoming, isIncoming, added⟩ := bind_eq_ok.mp added
    obtain ⟨outgoing, isOutgoing, added⟩ := bind_eq_ok.mp added
    obtain ⟨self, isSelf, added⟩ := bind_eq_ok.mp added
    rw [pure_eq_ok] at added
    subst added
    exact ⟨addWhen_eq_ok_iff.mp isIncoming, addWhen_eq_ok_iff.mp isOutgoing,
      addWhen_eq_ok_iff.mp isSelf, rfl⟩
  · rintro ⟨isIncoming, isOutgoing, isSelf, isAfter⟩
    apply bind_eq_ok.mpr
    refine ⟨after.incomingTotal, addWhen_eq_ok_iff.mpr isIncoming, ?_⟩
    apply bind_eq_ok.mpr
    refine ⟨after.outgoingTotal, addWhen_eq_ok_iff.mpr isOutgoing, ?_⟩
    apply bind_eq_ok.mpr
    refine ⟨after.selfTransferTotal, addWhen_eq_ok_iff.mpr isSelf, ?_⟩
    exact pure_eq_ok.mpr isAfter.symm

theorem sumWhere_add {chosen : AccountModelRow → Prop} [Decidable (chosen row)] {condition : Bool}
    {total : ℕ} (isAmount : row.amount = value.value) (same : condition = true ↔ chosen row)
    (isTotal : (total : ℤ) = sumWhere chosen AccountModelRow.amount rows) :
    ((total + if condition = true then value.value else 0 : ℕ) : ℤ) =
      sumWhere chosen AccountModelRow.amount (rows ++ [row]) := by
  rw [sumWhere_append_singleton, ← isTotal, Nat.cast_add, isAmount]
  by_cases isChosen : chosen row
  · rw [if_pos isChosen, if_pos (same.mpr isChosen)]
  · rw [if_neg isChosen, if_neg fun holds => isChosen (same.mp holds), Nat.cast_zero]

/-- **One row more is counted.** -/
theorem Counts.add (counts : Counts rows aggregated) (isAmount : row.amount = value.value)
    (added : aggregated.add row value = .ok after) : Counts (rows ++ [row]) after := by
  obtain ⟨incoming, outgoing, self, isAfter⟩ := add_eq_ok_iff.mp added
  constructor
  · rw [isAfter]
    simp only [Bool.or_eq_true, counts.hasFromOwned, List.mem_append, List.mem_singleton,
      or_and_right, exists_or, exists_eq_left]
  · rw [isAfter]
    simp only [Bool.or_eq_true, Bool.and_eq_true, counts.hasOwnedNormalSender, List.mem_append,
      List.mem_singleton, or_and_right, exists_or, exists_eq_left]
  · rw [isAfter]
    simp only [Bool.or_eq_true, counts.hasToOwned, List.mem_append, List.mem_singleton,
      or_and_right, exists_or, exists_eq_left]
  · rw [incoming]
    exact sumWhere_add isAmount Iff.rfl counts.incomingTotal
  · rw [outgoing]
    exact sumWhere_add isAmount Iff.rfl counts.outgoingTotal
  · rw [self]
    exact sumWhere_add isAmount (Bool.and_eq_true_iff) counts.selfTransferTotal
  · rw [isAfter, List.flatMap_append, List.flatMap_singleton]
    exact (congrArg (insertAddresses · row.fromAddress) counts.fromAddresses).trans
      insertAddresses_addressSet
  · rw [isAfter, List.flatMap_append, List.flatMap_singleton]
    exact (congrArg (insertAddresses · row.toAddress) counts.toAddresses).trans
      insertAddresses_addressSet

theorem Counts.exists_add {target : AggregatedAccountTx} (counts : Counts rows aggregated)
    (isAmount : row.amount = value.value) (countsTarget : Counts (rows ++ [row]) target) :
    ∃ after, aggregated.add row value = .ok after := by
  have incoming := sumWhere_add isAmount (Iff.refl (row.toOwned = true)) counts.incomingTotal
  have outgoing := sumWhere_add isAmount (Iff.refl (row.fromOwned = true)) counts.outgoingTotal
  have self := sumWhere_add isAmount (@Bool.and_eq_true_iff row.fromOwned row.toOwned)
    counts.selfTransferTotal
  rw [← countsTarget.incomingTotal] at incoming
  rw [← countsTarget.outgoingTotal] at outgoing
  rw [← countsTarget.selfTransferTotal] at self
  refine ⟨{ aggregated with
    minTransferIndex := min aggregated.minTransferIndex row.transferIndex
    hasFromOwned := aggregated.hasFromOwned || row.fromOwned
    hasOwnedNormalSender :=
      aggregated.hasOwnedNormalSender || (row.fromOwned && row.isNormalSenderTransfer)
    hasToOwned := aggregated.hasToOwned || row.toOwned
    incomingTotal := target.incomingTotal
    outgoingTotal := target.outgoingTotal
    selfTransferTotal := target.selfTransferTotal
    fromAddresses := insertAddresses aggregated.fromAddresses row.fromAddress
    toAddresses := insertAddresses aggregated.toAddresses row.toAddress }, ?_⟩
  apply add_eq_ok_iff.mpr
  exact ⟨(Nat.cast_injective incoming).symm, (Nat.cast_injective outgoing).symm,
    (Nat.cast_injective self).symm, rfl⟩

end Counts

/-! ## Aggregates -/

section Summary

variable (parseDatetime : String → Except DbError ℤ) (columns : TxKey → ChainTransactionColumns)
  (account : AccountMeta) (db : TransactionTables)

/-- A row of the query has the chain row of its hash. -/
def Joined (row : AccountModelRow) : Prop :=
  row.chain.key.InScope account.assetId account.network ∧
    find ChainTransactionRow.key db.chainTransactions row.chain.key = some row.chain

/-- The columns of a row are read. -/
structure ReadAs (row : AccountModelRow) (blockTime : Option ℤ) (value : UnsignedAmount)
    (fee : Option UnsignedAmount) : Prop where
  named : isBlank row.chain.key.txHash = false
  blockTime : readBlockTime parseDatetime row.chain = .ok blockTime
  value : parseSplitAmount row.valueAmountHi row.valueAmountLo "value_amount" = .ok value
  fee : parseOptionalSplitAmount row.chain.feeAmountHi row.chain.feeAmountLo "fee_amount" =
    .ok fee

/-- What the aggregate of the rows of a transaction is. -/
structure Summarises (rows : List AccountModelRow) (aggregated : AggregatedAccountTx) : Prop where
  read : ∀ row ∈ rows, Joined account db row ∧ ∃ blockTime value fee,
    ReadAs parseDatetime row blockTime value fee ∧
      aggregated.reset = (newAggregate columns row blockTime fee).reset
  least : ∀ row ∈ rows, aggregated.minTransferIndex ≤ row.transferIndex
  attained : ∃ row ∈ rows, row.transferIndex = aggregated.minTransferIndex
  counts : Counts rows aggregated

/-- The aggregate of a row, with those of its transaction before it. -/
def addRow (existing : Option AggregatedAccountTx) (row : AccountModelRow) :
    Except DbError AggregatedAccountTx :=
  if isBlank row.chain.key.txHash = true then
    .error ⟨"Invalid account model ledger row: empty tx_hash"⟩
  else do
    let blockTime ← readBlockTime parseDatetime row.chain
    let value ← parseSplitAmount row.valueAmountHi row.valueAmountLo "value_amount"
    let fee ← parseOptionalSplitAmount row.chain.feeAmountHi row.chain.feeAmountLo "fee_amount"
    (existing.getD (newAggregate columns row blockTime fee)).add row value

theorem aggregateRow_eq_fileRow : aggregateRow parseDatetime columns =
    GroupedFold.fileRow (fun row => row.chain.key.txHash) AggregatedAccountTx.txHash
      (addRow parseDatetime columns) := by
  funext byHash row
  unfold aggregateRow GroupedFold.fileRow addRow
  split
  · rfl
  · simp only [bind_assoc]

variable {parseDatetime columns account db} {rows other : List AccountModelRow}
  {aggregated after : AggregatedAccountTx} {row : AccountModelRow}

theorem addRow_eq_ok_iff {existing : Option AggregatedAccountTx} :
    addRow parseDatetime columns existing row = .ok after ↔
      ∃ blockTime value fee, ReadAs parseDatetime row blockTime value fee ∧
        (existing.getD (newAggregate columns row blockTime fee)).add row value = .ok after := by
  unfold addRow
  split <;> rename_i blank
  · simp only [reduceCtorEq, false_iff]
    rintro ⟨_, _, _, read, _⟩
    rw [read.named] at blank
    cases blank
  · constructor
    · intro added
      obtain ⟨blockTime, isTime, added⟩ := bind_eq_ok.mp added
      obtain ⟨value, isValue, added⟩ := bind_eq_ok.mp added
      obtain ⟨fee, isFee, added⟩ := bind_eq_ok.mp added
      exact ⟨blockTime, value, fee, ⟨Bool.eq_false_iff.mpr blank, isTime, isValue, isFee⟩, added⟩
    · rintro ⟨blockTime, value, fee, read, added⟩
      rw [read.blockTime, read.value, read.fee]
      exact added

theorem ReadAs.amount_eq {blockTime : Option ℤ} {value : UnsignedAmount}
    {fee : Option UnsignedAmount} (read : ReadAs parseDatetime row blockTime value fee) :
    row.amount = value.value :=
  (parseSplitAmount_eq_ok_iff.mp read.value).2.2.symm

theorem Joined.chain_eq {first second : AccountModelRow} (joined : Joined account db first)
    (otherJoined : Joined account db second)
    (same : first.chain.key.txHash = second.chain.key.txHash) : first.chain = second.chain := by
  have keys : first.chain.key = second.chain.key := by
    have assets := joined.1.1.trans otherJoined.1.1.symm
    have networks := joined.1.2.trans otherJoined.1.2.symm
    generalize first.chain.key = left at *
    generalize second.chain.key = right at *
    cases left
    cases right
    simp_all only
  have found := joined.2
  rw [keys, otherJoined.2] at found
  exact (Option.some.inj found).symm

theorem reset_newAggregate_congr {first second : AccountModelRow} {blockTime : Option ℤ}
    {fee : Option UnsignedAmount} (same : first.chain = second.chain) :
    (newAggregate columns first blockTime fee).reset =
      (newAggregate columns second blockTime fee).reset := by
  unfold newAggregate AggregatedAccountTx.reset
  rw [same]

theorem Summarises.txHash_eq
    (summarised : Summarises parseDatetime columns account db rows aggregated)
    (member : row ∈ rows) : row.chain.key.txHash = aggregated.txHash := by
  obtain ⟨_, _, _, _, _, chain⟩ := summarised.read row member
  exact (congrArg AggregatedAccountTx.txHash chain).symm

theorem Summarises.perm (perm : rows.Perm other)
    (summarised : Summarises parseDatetime columns account db rows aggregated) :
    Summarises parseDatetime columns account db other aggregated where
  read row member := summarised.read row (perm.mem_iff.mpr member)
  least row member := summarised.least row (perm.mem_iff.mpr member)
  attained := by
    obtain ⟨row, member, isIndex⟩ := summarised.attained
    exact ⟨row, perm.mem_iff.mp member, isIndex⟩
  counts := summarised.counts.perm perm

theorem Summarises.unique (summarised : Summarises parseDatetime columns account db rows aggregated)
    (summarisedAfter : Summarises parseDatetime columns account db rows after) :
    aggregated = after := by
  obtain ⟨row, member, isIndex⟩ := summarised.attained
  obtain ⟨otherRow, otherMember, otherIsIndex⟩ := summarisedAfter.attained
  obtain ⟨_, blockTime, value, fee, read, chain⟩ := summarised.read row member
  obtain ⟨_, otherTime, otherValue, otherFee, otherRead, otherChain⟩ :=
    summarisedAfter.read row member
  obtain rfl : blockTime = otherTime :=
    Except.ok.inj (read.blockTime.symm.trans otherRead.blockTime)
  obtain rfl : fee = otherFee := Except.ok.inj (read.fee.symm.trans otherRead.fee)
  apply summarised.counts.unique summarisedAfter.counts (chain.trans otherChain.symm)
  apply le_antisymm
  · rw [← otherIsIndex]
    exact summarised.least otherRow otherMember
  · rw [← isIndex]
    exact summarisedAfter.least row member

theorem summarises_singleton (joined : Joined account db row)
    (added : addRow parseDatetime columns none row = .ok after) :
    Summarises parseDatetime columns account db [row] after := by
  obtain ⟨blockTime, value, fee, read, added⟩ := addRow_eq_ok_iff.mp added
  have counts := counts_newAggregate.add read.amount_eq added
  obtain ⟨_, _, _, isAfter⟩ := add_eq_ok_iff.mp added
  have isLeast : after.minTransferIndex = row.transferIndex := by
    rw [isAfter]
    exact min_self _
  refine ⟨?_, ?_, ⟨row, List.mem_singleton_self _, isLeast.symm⟩, counts⟩
  · intro only member
    obtain rfl := List.mem_singleton.mp member
    refine ⟨joined, blockTime, value, fee, read, ?_⟩
    rw [isAfter]
    rfl
  · intro only member
    obtain rfl := List.mem_singleton.mp member
    exact isLeast.le

/-- **One row more** of a transaction. -/
theorem Summarises.append (summarised : Summarises parseDatetime columns account db rows aggregated)
    (joined : Joined account db row) (isKey : row.chain.key.txHash = aggregated.txHash)
    (added : addRow parseDatetime columns (some aggregated) row = .ok after) :
    Summarises parseDatetime columns account db (rows ++ [row]) after := by
  obtain ⟨blockTime, value, fee, read, added⟩ := addRow_eq_ok_iff.mp added
  rw [Option.getD_some] at added
  obtain ⟨_, _, _, isAfter⟩ := add_eq_ok_iff.mp added
  have chain : after.reset = aggregated.reset := by
    rw [isAfter]
    rfl
  have isLeast : after.minTransferIndex = min aggregated.minTransferIndex row.transferIndex := by
    rw [isAfter]
  refine ⟨?_, ?_, ?_, summarised.counts.add read.amount_eq added⟩
  · intro each member
    rw [chain]
    rcases List.mem_append.mp member with earlier | last
    · exact summarised.read each earlier
    obtain rfl := List.mem_singleton.mp last
    obtain ⟨first, firstMember, _⟩ := summarised.attained
    obtain ⟨firstJoined, time, firstValue, firstFee, firstRead, firstChain⟩ :=
      summarised.read first firstMember
    have sameChain : first.chain = each.chain :=
      firstJoined.chain_eq joined ((summarised.txHash_eq firstMember).trans isKey.symm)
    have isTime := firstRead.blockTime
    have isFee := firstRead.fee
    rw [sameChain, read.blockTime] at isTime
    rw [sameChain, read.fee] at isFee
    obtain rfl := Except.ok.inj isTime
    obtain rfl := Except.ok.inj isFee
    exact ⟨joined, _, value, _, read, firstChain.trans (reset_newAggregate_congr sameChain)⟩
  · intro each member
    rw [isLeast]
    rcases List.mem_append.mp member with earlier | last
    · exact (min_le_left _ _).trans (summarised.least each earlier)
    · obtain rfl := List.mem_singleton.mp last
      exact min_le_right _ _
  · rw [isLeast]
    rcases min_choice aggregated.minTransferIndex row.transferIndex with isOld | isNew
    · obtain ⟨first, firstMember, isIndex⟩ := summarised.attained
      exact ⟨first, List.mem_append_left _ firstMember, isIndex.trans isOld.symm⟩
    · exact ⟨row, List.mem_append_right _ List.mem_cons_self, isNew.symm⟩

theorem Summarises.amount_nonneg
    (summarised : Summarises parseDatetime columns account db rows aggregated)
    (member : row ∈ rows) : 0 ≤ row.amount := by
  obtain ⟨_, _, value, _, read, _⟩ := summarised.read row member
  rw [read.amount_eq]
  exact Int.natCast_nonneg _

theorem exists_part {chosen : AccountModelRow → Prop} {total : UnsignedAmount}
    (nonnegative : ∀ each ∈ rows ++ [row], 0 ≤ each.amount)
    (isTotal : (total.value : ℤ) = sumWhere chosen AccountModelRow.amount (rows ++ [row])) :
    ∃ part : UnsignedAmount, (part.value : ℤ) = sumWhere chosen AccountModelRow.amount rows := by
  classical
  have before : 0 ≤ sumWhere chosen AccountModelRow.amount rows := by
    rw [sumWhere_eq_sum_filter]
    apply List.sum_nonneg
    intro amount member
    obtain ⟨each, isEach, rfl⟩ := List.mem_map.mp member
    exact nonnegative each (List.mem_append_left _ (List.mem_filter.mp isEach).1)
  have last := nonnegative row (List.mem_append_right _ List.mem_cons_self)
  rw [sumWhere_append_singleton] at isTotal
  have fits := total.fits
  refine ⟨⟨(sumWhere chosen AccountModelRow.amount rows).toNat, ?_⟩, Int.toNat_of_nonneg before⟩
  split at isTotal <;> omega

theorem Summarises.exists_earlier (occurs : rows ≠ [])
    (summarised : Summarises parseDatetime columns account db (rows ++ [row]) after) :
    ∃ aggregated, Summarises parseDatetime columns account db rows aggregated := by
  have nonnegative : ∀ each ∈ rows ++ [row], 0 ≤ each.amount := fun each member =>
    summarised.amount_nonneg member
  obtain ⟨incoming, isIncoming⟩ := exists_part nonnegative summarised.counts.incomingTotal
  obtain ⟨outgoing, isOutgoing⟩ := exists_part nonnegative summarised.counts.outgoingTotal
  obtain ⟨self, isSelf⟩ := exists_part nonnegative summarised.counts.selfTransferTotal
  obtain ⟨least, member, isLeast⟩ := Finset.exists_min_image rows.toFinset
    AccountModelRow.transferIndex (List.toFinset_nonempty_iff rows |>.mpr occurs)
  refine ⟨{ after with
    minTransferIndex := least.transferIndex
    hasFromOwned := decide (∃ each ∈ rows, each.fromOwned = true)
    hasOwnedNormalSender :=
      decide (∃ each ∈ rows, each.fromOwned = true ∧ each.isNormalSenderTransfer = true)
    hasToOwned := decide (∃ each ∈ rows, each.toOwned = true)
    incomingTotal := incoming
    outgoingTotal := outgoing
    selfTransferTotal := self
    fromAddresses := addressSet (rows.flatMap fun each => shownAddress each.fromAddress)
    toAddresses := addressSet (rows.flatMap fun each => shownAddress each.toAddress) },
    ?_, ?_, ⟨least, List.mem_toFinset.mp member, rfl⟩, ?_⟩
  · intro each isEach
    exact summarised.read each (List.mem_append_left _ isEach)
  · intro each isEach
    exact isLeast each (List.mem_toFinset.mpr isEach)
  · constructor
    · exact decide_eq_true_iff
    · exact decide_eq_true_iff
    · exact decide_eq_true_iff
    · exact isIncoming
    · exact isOutgoing
    · exact isSelf
    · rfl
    · rfl

/-- **The rows of a transaction determine its aggregate**, whatever their order. -/
theorem summary_summarises : GroupedFold.Summary (fun row => row.chain.key.txHash)
    AggregatedAccountTx.txHash (addRow parseDatetime columns) (Joined account db)
    (Summarises parseDatetime columns account db) where
  keyed _ summarised row member := summarised.txHash_eq member
  first := by
    intro row after joined
    refine ⟨summarises_singleton joined, ?_⟩
    intro summarised
    obtain ⟨_, blockTime, value, fee, read, _⟩ :=
      summarised.read row (List.mem_singleton_self row)
    obtain ⟨found, added⟩ := @Counts.exists_add [] _ row value after
      (@counts_newAggregate row columns blockTime fee) read.amount_eq summarised.counts
    have isAdded : addRow parseDatetime columns none row = .ok found :=
      addRow_eq_ok_iff.mpr ⟨blockTime, value, fee, read, added⟩
    rw [isAdded, (summarises_singleton joined isAdded).unique summarised]
  next := by
    intro rows row aggregated after joined occurs summarised isKey
    refine ⟨summarised.append joined isKey, ?_⟩
    intro summarisedAfter
    obtain ⟨_, blockTime, value, fee, read, _⟩ :=
      summarisedAfter.read row (List.mem_append_right _ List.mem_cons_self)
    obtain ⟨found, added⟩ := summarised.counts.exists_add read.amount_eq summarisedAfter.counts
    have isAdded : addRow parseDatetime columns (some aggregated) row = .ok found :=
      addRow_eq_ok_iff.mpr ⟨blockTime, value, fee, read, added⟩
    rw [isAdded, (summarised.append joined isKey isAdded).unique summarisedAfter]
  earlier occurs summarised := summarised.exists_earlier occurs
  unique _ summarised summarisedAfter := summarised.unique summarisedAfter
  perm perm summarised := summarised.perm perm

end Summary

end Bitgarth.Store
