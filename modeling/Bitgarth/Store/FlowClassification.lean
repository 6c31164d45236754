import Bitgarth.Store.SplitAmounts

/-! # What the direction of a Bitcoin entry says about the balance

The direction and the shown amount are found by differences cut to zero, the change of the balance
by a signed difference. `FlowConsistent` says how the two agree: a received amount is the gain, a
sent amount and a part of the fee are the loss, and a self transfer loses at most the fee.
-/

namespace Bitgarth.Store

open Amounts Ledger Fallible Text

/-- How a flow agrees with the change of the balance. -/
structure FlowConsistent (ownedInputTotal : UnsignedAmount) (fee : Option UnsignedAmount)
    (flow : ClassifiedLedgerFlow) (delta : ℤ) : Prop where
  incoming : flow.direction = .incoming → delta = flow.value.value ∧ ownedInputTotal.value = 0
  outgoing : flow.direction = .outgoing → ∃ paid : ℕ, paid ≤ fee.elim 0 UnsignedAmount.value ∧
    delta = -(flow.value.value + paid : ℤ) ∧ delta < 0
  selfTransfer : flow.direction = .selfTransfer → -delta ≤ fee.elim 0 UnsignedAmount.value

section Flow

variable (ownedInputTotal ownedOutputTotal : UnsignedAmount) (fee : Option UnsignedAmount)

/-- What leaves the account beside the fee. -/
def externalOutflow : ℕ :=
  ownedInputTotal.value - ownedOutputTotal.value - fee.elim 0 UnsignedAmount.value

theorem classifyUtxoLedgerFlow_cases {flow : ClassifiedLedgerFlow}
    (classified : classifyUtxoLedgerFlow ownedInputTotal ownedOutputTotal fee = flow) :
    (flow.direction = .outgoing ∧
      flow.value.value = externalOutflow ownedInputTotal ownedOutputTotal fee ∧
      0 < ownedInputTotal.value ∧
      (0 < externalOutflow ownedInputTotal ownedOutputTotal fee ∨
        ownedOutputTotal.value = 0)) ∨
    (flow.direction = .selfTransfer ∧ flow.value = ownedOutputTotal ∧
      0 < ownedInputTotal.value ∧ 0 < ownedOutputTotal.value ∧
      externalOutflow ownedInputTotal ownedOutputTotal fee = 0) ∨
    (flow.direction = .incoming ∧ flow.value = ownedOutputTotal ∧ ownedInputTotal.value = 0) := by
  unfold classifyUtxoLedgerFlow at classified
  unfold externalOutflow
  dsimp only [saturatingSub] at classified
  split at classified <;> rename_i leaves
  · obtain ⟨spends, leaves⟩ := leaves
    subst classified
    exact .inl ⟨rfl, rfl, spends, leaves.imp_right Nat.eq_zero_of_not_pos⟩
  split at classified <;> rename_i stays <;> subst classified
  · refine .inr (.inl ⟨rfl, rfl, stays.1, stays.2, ?_⟩)
    exact Nat.eq_zero_of_not_pos fun external => leaves ⟨stays.1, .inl external⟩
  · refine .inr (.inr ⟨rfl, rfl, Nat.eq_zero_of_not_pos fun spends => ?_⟩)
    by_cases receives : 0 < ownedOutputTotal.value
    · exact stays ⟨spends, receives⟩
    · exact leaves ⟨spends, .inr receives⟩

theorem exists_paid (loses : ownedOutputTotal.value < ownedInputTotal.value) :
    ∃ paid : ℕ, paid ≤ fee.elim 0 UnsignedAmount.value ∧
      (ownedOutputTotal.value : ℤ) - ownedInputTotal.value =
        -(externalOutflow ownedInputTotal ownedOutputTotal fee + paid : ℤ) := by
  unfold externalOutflow
  generalize fee.elim 0 UnsignedAmount.value = feeValue
  refine ⟨min feeValue (ownedInputTotal.value - ownedOutputTotal.value), min_le_left _ _, ?_⟩
  omega

theorem flowConsistent_classifyUtxoLedgerFlow :
    FlowConsistent ownedInputTotal fee
      (classifyUtxoLedgerFlow ownedInputTotal ownedOutputTotal fee)
      (ownedOutputTotal.value - ownedInputTotal.value) := by
  generalize classified : classifyUtxoLedgerFlow ownedInputTotal ownedOutputTotal fee = flow
  rcases classifyUtxoLedgerFlow_cases ownedInputTotal ownedOutputTotal fee classified with
    ⟨sends, isValue, spends, leaves⟩ | ⟨stays, _, _, _, nothing⟩ | ⟨receives, isValue, unspent⟩
  · have loses : ownedOutputTotal.value < ownedInputTotal.value := by
      unfold externalOutflow at leaves
      omega
    obtain ⟨paid, bounded, isDelta⟩ := exists_paid ownedInputTotal ownedOutputTotal fee loses
    constructor
    · simp only [sends, reduceCtorEq, false_implies]
    · intro _
      rw [isValue]
      exact ⟨paid, bounded, isDelta, by omega⟩
    · simp only [sends, reduceCtorEq, false_implies]
  · constructor
    · simp only [stays, reduceCtorEq, false_implies]
    · simp only [stays, reduceCtorEq, false_implies]
    · intro _
      unfold externalOutflow at nothing
      omega
  · constructor
    · intro _
      rw [isValue, unspent]
      exact ⟨by omega, rfl⟩
    · simp only [receives, reduceCtorEq, false_implies]
    · simp only [receives, reduceCtorEq, false_implies]

theorem classifyUtxoLedgerFlow_eq_selfTransfer_iff :
    (classifyUtxoLedgerFlow ownedInputTotal ownedOutputTotal fee).direction = .selfTransfer ↔
      0 < ownedInputTotal.value ∧ 0 < ownedOutputTotal.value ∧
        externalOutflow ownedInputTotal ownedOutputTotal fee = 0 := by
  generalize classified : classifyUtxoLedgerFlow ownedInputTotal ownedOutputTotal fee = flow
  rcases classifyUtxoLedgerFlow_cases ownedInputTotal ownedOutputTotal fee classified with
    ⟨sends, _, spends, leaves⟩ | ⟨stays, _, kept⟩ | ⟨receives, _, unspent⟩
  · rw [sends]
    simp only [reduceCtorEq, false_iff]
    omega
  · exact ⟨fun _ => kept, fun _ => stays⟩
  · rw [receives]
    simp only [reduceCtorEq, false_iff]
    omega

end Flow

/-- **The flow and the change of the balance agree**, and what raises the balance is a self
transfer when it spends an owned input. -/
theorem classifyUtxoLedgerFlow_delta (ownedInputTotal ownedOutputTotal : UnsignedAmount)
    (fee : Option UnsignedAmount) :
    FlowConsistent ownedInputTotal fee
      (classifyUtxoLedgerFlow ownedInputTotal ownedOutputTotal fee)
      (ownedOutputTotal.value - ownedInputTotal.value) ∧
    ((0 : ℤ) < ownedOutputTotal.value - ownedInputTotal.value →
      ((classifyUtxoLedgerFlow ownedInputTotal ownedOutputTotal fee).direction = .selfTransfer ↔
        0 < ownedInputTotal.value)) := by
  refine ⟨flowConsistent_classifyUtxoLedgerFlow _ _ _, ?_⟩
  intro raises
  rw [classifyUtxoLedgerFlow_eq_selfTransfer_iff]
  unfold externalOutflow
  omega

/-- A smaller owned input beside a larger owned output. -/
theorem not_classifyUtxoLedgerFlow_selfTransfer_loses :
    ¬ ∀ (ownedInputTotal ownedOutputTotal : UnsignedAmount) (fee : Option UnsignedAmount),
      (classifyUtxoLedgerFlow ownedInputTotal ownedOutputTotal fee).direction = .selfTransfer →
        (0 : ℤ) ≤ -((ownedOutputTotal.value : ℤ) - ownedInputTotal.value) ∧
          -((ownedOutputTotal.value : ℤ) - ownedInputTotal.value) ≤
            fee.elim 0 UnsignedAmount.value := by
  intro always
  have loses := always ⟨1, by decide⟩ ⟨2, by decide⟩ none (by decide)
  exact absurd loses.1 (by decide)

theorem classifyUtxoLedgerFlow_delta_collaborative :
    (classifyUtxoLedgerFlow ⟨1, by decide⟩ ⟨2, by decide⟩ none).direction = .selfTransfer :=
  ((classifyUtxoLedgerFlow_delta ⟨1, by decide⟩ ⟨2, by decide⟩ none).2 (by decide)).mpr
    (by decide)

/-! ## Entries -/

section Entry

variable {parseDatetime : String → Except DbError ℤ} {columns : TxKey → ChainTransactionColumns}
  {addresses : List AddressRow} {account : AccountMeta} {db : TransactionTables}
  {chain : ChainTransactionRow} {entry : LedgerBuildEntry}

/-- The entry of a transaction changes the balance by the difference of the account's totals and
shows their flow, unless it failed, which changes nothing. -/
structure ShowsFlow (addresses : List AddressRow) (account : AccountMeta) (db : TransactionTables)
    (chain : ChainTransactionRow) (entry : LedgerBuildEntry) : Prop where
  txHash : entry.txHash = chain.key.txHash
  status : entry.status = chain.status
  failed : entry.status = .failed → entry.balanceDelta = 0
  flow : entry.status ≠ .failed → ∃ sums ownedOutputTotal ownedInputTotal,
    ownedSums addresses account db chain.key = .ok sums ∧
      parseSplitSumAmount sums.outputHi sums.outputLo "owned_output_total" =
        .ok ownedOutputTotal ∧
      parseSplitSumAmount sums.inputHi sums.inputLo "owned_input_total" = .ok ownedInputTotal ∧
      entry.balanceDelta = ownedOutputTotal.value - ownedInputTotal.value ∧
      FlowConsistent ownedInputTotal entry.fee ⟨entry.direction, entry.value⟩ entry.balanceDelta

theorem utxoModelEntry_showsFlow
    (built : utxoModelEntry parseDatetime columns addresses account db chain = .ok entry) :
    ShowsFlow addresses account db chain entry := by
  unfold utxoModelEntry at built
  obtain ⟨sums, summed, built⟩ := bind_eq_ok.mp built
  split at built
  · cases built
  obtain ⟨time, _, built⟩ := bind_eq_ok.mp built
  obtain ⟨outputs, isOutputs, built⟩ := bind_eq_ok.mp built
  obtain ⟨inputs, isInputs, built⟩ := bind_eq_ok.mp built
  obtain ⟨fee, _, built⟩ := bind_eq_ok.mp built
  obtain ⟨incoming, isIncoming, built⟩ := bind_eq_ok.mp built
  obtain ⟨outgoing, isOutgoing, built⟩ := bind_eq_ok.mp built
  dsimp only at built
  split at built <;> rename_i subtracted
  case h_2 => cases built
  rename_i delta
  obtain ⟨_, isDelta, built⟩ := bind_eq_ok.mp built
  obtain rfl := Except.ok.inj isDelta
  rw [pure_eq_ok] at built
  have difference : delta = outputs.value - inputs.value := by
    rw [(checkedSub_eq_some.mp subtracted).1, (toSignedAmount_eq_ok.mp isIncoming).1,
      (toSignedAmount_eq_ok.mp isOutgoing).1]
  rw [← built]
  refine ⟨rfl, rfl, fun failed => if_pos failed, fun counts => ?_⟩
  refine ⟨sums, outputs, inputs, summed, isOutputs, isInputs, ?_⟩
  simp only [if_neg counts, difference, true_and]
  exact flowConsistent_classifyUtxoLedgerFlow inputs outputs fee

/-- **A rebuilt Bitcoin ledger** shows for each of its transactions the flow that its balance
change comes from. -/
theorem utxoModelEntries_showFlow {entries : List LedgerBuildEntry}
    (built : utxoModelEntries parseDatetime columns addresses account db = .ok entries) :
    ∀ entry ∈ entries, ∃ chain ∈ db.chainTransactions,
      chain.key.InScope account.assetId account.network ∧
        ShowsFlow addresses account db chain entry := by
  intro entry member
  obtain ⟨chain, isRow, isEntry⟩ := (mem_of_mapM_eq_ok built).2 entry member
  obtain ⟨isChain, selected⟩ := List.mem_filter.mp (List.mem_mergeSort.mp isRow)
  exact ⟨chain, isChain, (of_decide_eq_true selected).1, utxoModelEntry_showsFlow isEntry⟩

end Entry

/-- A payment of 5 to the account. -/
def receivedTables : TransactionTables :=
  let key : TxKey := { assetId := .bitcoin, network := .mainnet, txHash := "aa" }
  { emptyTables with
    chainTransactions := [⟨key, .confirmed, some 7, none, none, none, none, none⟩]
    transactionOutputs := [⟨key, 0, "a", none, "0014", 0, 5⟩] }

def receivedEntries : List LedgerBuildEntry :=
  match utxoModelEntries (fun _ => .ok 0) (fun _ => ⟨"1", 0, 0⟩)
      [⟨"a", some "first", .bitcoin, .mainnet, "tb1", "tb1"⟩] ⟨"first", .bitcoin, .mainnet⟩
      receivedTables with
  | .ok entries => entries
  | .error _ => []

theorem utxoModelEntries_showFlow_received :
    receivedEntries.map LedgerBuildEntry.balanceDelta = [5] ∧
      ∀ entry ∈ receivedEntries, ∃ chain ∈ receivedTables.chainTransactions,
        chain.key.InScope .bitcoin .mainnet ∧ ShowsFlow
          [⟨"a", some "first", .bitcoin, .mainnet, "tb1", "tb1"⟩] ⟨"first", .bitcoin, .mainnet⟩
          receivedTables chain entry := by
  have built : utxoModelEntries (fun _ => .ok 0) (fun _ => ⟨"1", 0, 0⟩)
      [⟨"a", some "first", .bitcoin, .mainnet, "tb1", "tb1"⟩] ⟨"first", .bitcoin, .mainnet⟩
      receivedTables = .ok receivedEntries := by decide +kernel
  exact ⟨by decide +kernel, utxoModelEntries_showFlow built⟩

end Bitgarth.Store
