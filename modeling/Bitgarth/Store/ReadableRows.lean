import Mathlib.Algebra.Order.BigOperators.Group.List
import Bitgarth.Store.LastWrites
import Bitgarth.Store.SplitAmounts

/-! # Reading the stored rows back

The ledger builder reads the rows of an account again at every rebuild. Whether it can read the
rows of a transaction is decided by the last record of it: the fee column holds the low part of
the fee beside a high part of zero, and is read where the account has an owned input.
-/

namespace Bitgarth.Store

open Amounts Ledger KeyedTable Fallible Text

open Sync (SyncedAssetId)

/-! ## Columns -/

section Columns

/-- The columns hold an amount split by the divisor, or none. -/
def HoldsSplit (value hi lo : Option ℤ) : Prop :=
  (∀ number ∈ value, 0 ≤ number) ∧ hi = value.map (· / globalSplitDivisor) ∧
    lo = value.map (· % globalSplitDivisor)

/-- The summed columns fit: the low sum a column, and the high sum with what is carried. -/
def ColumnSumsFit (hi lo : List (Option ℤ)) : Prop :=
  lo.reduceOption.sum ≤ i64Max ∧
    hi.reduceOption.sum + lo.reduceOption.sum / globalSplitDivisor ≤ i64Max

instance (hi lo : List (Option ℤ)) : Decidable (ColumnSumsFit hi lo) :=
  inferInstanceAs (Decidable (_ ∧ _))

theorem splitI64Amount_spec {value : ℤ} {fieldName : String} {parts : AmountSplitParts}
    (done : splitI64Amount value fieldName = .ok parts) :
    0 ≤ value ∧ parts.hi = value / globalSplitDivisor ∧ parts.lo = value % globalSplitDivisor := by
  unfold splitI64Amount at done
  split at done <;> rename_i parsed
  · cases done
  · rename_i amount
    have isValue := UnsignedAmount.tryFromSigned_eq_some.mp parsed
    obtain ⟨hi, lo⟩ := encodeUnsigned_eq_ok (mapError_eq_ok.mp done)
    rw [← isValue]
    exact ⟨Int.natCast_nonneg _, hi, lo⟩

theorem transactionInputRow_columns {key : TxKey} {addressId : String}
    {input : SyncTransactionInputRecord} {row : TransactionInputRow}
    (done : transactionInputRow key addressId input = .ok row) :
    HoldsSplit input.valueAmount row.valueAmountHi row.valueAmountLo := by
  obtain ⟨parts, split, done⟩ := bind_eq_ok.mp done
  obtain ⟨_, _, done⟩ := bind_eq_ok.mp done
  rw [pure_eq_ok] at done
  subst done
  cases value : input.valueAmount with
  | none =>
    rw [value] at split
    obtain rfl := Except.ok.inj split
    exact ⟨fun _ member => absurd member (Option.not_mem_none _), rfl, rfl⟩
  | some number =>
    rw [value] at split
    obtain ⟨splitParts, done, isParts⟩ := bind_eq_ok.mp split
    rw [pure_eq_ok] at isParts
    obtain ⟨nonnegative, hi, lo⟩ := splitI64Amount_spec done
    subst isParts
    exact ⟨fun _ member => Option.some.inj member ▸ nonnegative, congrArg some hi,
      congrArg some lo⟩

theorem transactionOutputRow_columns {key : TxKey} {addressId : String}
    {output : SyncTransactionOutputRecord} {row : TransactionOutputRow}
    (done : transactionOutputRow key addressId output = .ok row) :
    HoldsSplit (some output.valueAmount) (some row.valueAmountHi) (some row.valueAmountLo) := by
  obtain ⟨parts, split, done⟩ := bind_eq_ok.mp done
  obtain ⟨_, _, done⟩ := bind_eq_ok.mp done
  rw [pure_eq_ok] at done
  subst done
  obtain ⟨nonnegative, hi, lo⟩ := splitI64Amount_spec split
  exact ⟨fun _ member => Option.some.inj member ▸ nonnegative, congrArg some hi, congrArg some lo⟩

theorem reduceOption_sum_pos {column : List (Option ℤ)}
    (nonnegative : ∀ entry ∈ column, ∀ number ∈ entry, 0 ≤ number) :
    0 ≤ column.reduceOption.sum ∧
      (0 < column.reduceOption.sum ↔ ∃ entry ∈ column, ∃ number ∈ entry, 0 < number) := by
  have members : ∀ number ∈ column.reduceOption, 0 ≤ number := by
    intro number member
    exact nonnegative _ (List.reduceOption_mem_iff.mp member) number rfl
  refine ⟨List.sum_nonneg members, ?_, ?_⟩
  · intro positive
    by_contra allZero
    push Not at allZero
    have zero : column.reduceOption.sum = 0 := by
      apply List.sum_eq_zero
      intro number member
      have below := allZero _ (List.reduceOption_mem_iff.mp member) number rfl
      exact le_antisymm below (members number member)
    exact absurd zero positive.ne'
  · rintro ⟨entry, member, number, isEntry, positive⟩
    obtain rfl : entry = some number := isEntry
    exact lt_of_lt_of_le positive
      (List.single_le_sum members number (List.reduceOption_mem_iff.mpr member))

theorem exists_parseSplitSumAmount {hiSum loSum : ℤ} {fieldName : String} (hi : 0 ≤ hiSum)
    (lo : 0 ≤ loSum) (fits : hiSum + loSum / globalSplitDivisor ≤ i64Max) :
    ∃ amount, parseSplitSumAmount hiSum loSum fieldName = .ok amount ∧
      (amount.value : ℤ) = hiSum * globalSplitDivisor + loSum ∧
      (amount.value : ℤ) ≤ i128Max := by
  have whole : (hiSum + loSum / globalSplitDivisor) * globalSplitDivisor +
      loSum % globalSplitDivisor = hiSum * globalSplitDivisor + loSum :=
    TwoLimbs.value_carry
  have small := (@TwoLimbs.reduced_emod _ loSum globalSplitDivisor_pos).2
  have bounded : hiSum * globalSplitDivisor + loSum ≤ i128Max := by
    rw [← whole]
    unfold i128Max
    unfold i64Max at fits
    unfold globalSplitDivisor at *
    omega
  obtain ⟨amount, parsed⟩ := UnsignedAmount.tryFromSigned_isSome
    (TwoLimbs.value_nonneg globalSplitDivisor_pos hi lo) bounded
  have isValue := UnsignedAmount.tryFromSigned_eq_some.mp parsed
  exact ⟨amount, (parseSplitSumAmount_eq_ok_iff hi lo).mpr ⟨fits, isValue⟩, isValue,
    isValue ▸ bounded⟩

end Columns

/-! ## One entry -/

section Entry

variable (parseDatetime : String → Except DbError ℤ)
  (columns : TxKey → ChainTransactionColumns) (addresses : List AddressRow)
  (account : AccountMeta) (db : TransactionTables)

/-- The ledger builder reads the rows of an account. -/
def LedgerReads : Prop :=
  ∃ entries, utxoModelEntries parseDatetime columns addresses account db = .ok entries

/-- The sums over the owned inputs and outputs of a transaction fit their columns. -/
def SumsFit (key : TxKey) : Prop :=
  ColumnSumsFit ((ownedInputs addresses account db key).map (·.valueAmountHi))
      ((ownedInputs addresses account db key).map (·.valueAmountLo)) ∧
    ColumnSumsFit ((ownedOutputs addresses account db key).map fun row => some row.valueAmountHi)
      ((ownedOutputs addresses account db key).map fun row => some row.valueAmountLo)

instance (key : TxKey) : Decidable (SumsFit addresses account db key) :=
  inferInstanceAs (Decidable (_ ∧ _))

/-- The sums of every transaction of the account fit. -/
def AccountSumsFit : Prop :=
  ∀ chain ∈ db.chainTransactions, chain.key.InScope account.assetId account.network →
    SumsFit addresses account db chain.key

instance : Decidable (AccountSumsFit addresses account db) :=
  inferInstanceAs (Decidable (∀ chain ∈ db.chainTransactions, _))

/-- The value columns of the rows of a transaction hold split amounts. -/
structure SplitRows (key : TxKey) : Prop where
  inputs : ∀ row ∈ db.transactionInputs, row.txKey = key →
    ∃ value, HoldsSplit value row.valueAmountHi row.valueAmountLo
  outputs : ∀ row ∈ db.transactionOutputs, row.txKey = key →
    ∃ value, HoldsSplit (some value) (some row.valueAmountHi) (some row.valueAmountLo)

variable {parseDatetime columns addresses account db}

theorem HoldsSplit.nonnegative {value hi lo : Option ℤ} (holds : HoldsSplit value hi lo) :
    (∀ number ∈ hi, 0 ≤ number) ∧ ∀ number ∈ lo, 0 ≤ number := by
  obtain ⟨nonnegative, rfl, rfl⟩ := holds
  cases value with
  | none =>
    have empty : ∀ number : ℤ, number ∈ (none : Option ℤ) → 0 ≤ number :=
      fun _ member => absurd member (Option.not_mem_none _)
    exact ⟨empty, empty⟩
  | some number =>
    have sign := nonnegative number rfl
    unfold globalSplitDivisor
    simp only [Option.map_some, Option.mem_def, Option.some.injEq, forall_eq']
    omega

theorem HoldsSplit.positive {value hi lo : Option ℤ} (holds : HoldsSplit value hi lo) :
    ((∃ number ∈ hi, 0 < number) ∨ ∃ number ∈ lo, 0 < number) ↔ ∃ number ∈ value, 0 < number := by
  obtain ⟨nonnegative, rfl, rfl⟩ := holds
  cases value with
  | none => simp
  | some number =>
    have sign := nonnegative number rfl
    unfold globalSplitDivisor
    simp only [Option.map_some, Option.mem_def, Option.some.injEq, exists_eq_left']
    omega

theorem exists_utxoModelEntry {chain : ChainTransactionRow} :
    (∃ entry, utxoModelEntry parseDatetime columns addresses account db chain = .ok entry) ↔
      ∃ sums, ownedSums addresses account db chain.key = .ok sums ∧
        isBlank chain.key.txHash = false ∧
        ∃ time, readBlockTime parseDatetime chain = .ok time ∧
          ∃ outputs, parseSplitSumAmount sums.outputHi sums.outputLo "owned_output_total" =
              .ok outputs ∧
            ∃ inputs, parseSplitSumAmount sums.inputHi sums.inputLo "owned_input_total" =
                .ok inputs ∧
              ∃ fee, ownedFee chain inputs = .ok fee ∧
                ∃ incoming, toSignedAmount outputs "owned_output_total" = .ok incoming ∧
                  ∃ outgoing, toSignedAmount inputs "owned_input_total" = .ok outgoing ∧
                    ∃ delta, checkedSub incoming outgoing = some delta := by
  unfold utxoModelEntry
  rw [exists_bind_eq_ok]
  apply exists_congr
  intro sums
  apply and_congr_right
  intro _
  split <;> rename_i blank
  · simp [blank]
  · rw [Bool.not_eq_true] at blank
    simp only [blank, true_and, exists_bind_eq_ok]
    refine exists_congr fun time => and_congr_right fun _ => ?_
    refine exists_congr fun outputs => and_congr_right fun _ => ?_
    refine exists_congr fun inputs => and_congr_right fun _ => ?_
    refine exists_congr fun fee => and_congr_right fun _ => ?_
    refine exists_congr fun incoming => and_congr_right fun _ => ?_
    refine exists_congr fun outgoing => and_congr_right fun _ => ?_
    -- the difference is the last step that can fail
    cases checkedSub incoming outgoing <;> simp [bind, Except.bind]

theorem reduceOption_sums_pos {Row : Type} {rows : List Row} {hi lo : Row → Option ℤ}
    (split : ∀ row ∈ rows, ∃ value, HoldsSplit value (hi row) (lo row)) :
    0 ≤ (rows.map hi).reduceOption.sum ∧ 0 ≤ (rows.map lo).reduceOption.sum ∧
      (0 < (rows.map hi).reduceOption.sum * globalSplitDivisor +
          (rows.map lo).reduceOption.sum ↔
        ∃ row ∈ rows, (∃ number ∈ hi row, 0 < number) ∨ ∃ number ∈ lo row, 0 < number) := by
  have hiColumn := @reduceOption_sum_pos (rows.map hi) fun entry member => by
    obtain ⟨row, inRows, rfl⟩ := List.mem_map.mp member
    obtain ⟨value, holds⟩ := split row inRows
    exact holds.nonnegative.1
  have loColumn := @reduceOption_sum_pos (rows.map lo) fun entry member => by
    obtain ⟨row, inRows, rfl⟩ := List.mem_map.mp member
    obtain ⟨value, holds⟩ := split row inRows
    exact holds.nonnegative.2
  refine ⟨hiColumn.1, loColumn.1, ?_⟩
  have either : 0 < (rows.map hi).reduceOption.sum * globalSplitDivisor +
      (rows.map lo).reduceOption.sum ↔
        0 < (rows.map hi).reduceOption.sum ∨ 0 < (rows.map lo).reduceOption.sum := by
    have hiNonnegative := hiColumn.1
    have loNonnegative := loColumn.1
    unfold globalSplitDivisor
    omega
  rw [either, hiColumn.2, loColumn.2]
  simp only [List.mem_map, exists_exists_and_eq_and, and_or_left, exists_or]

theorem exists_total {Row : Type} {rows : List Row} {hi lo : Row → Option ℤ} (fieldName : String)
    (split : ∀ row ∈ rows, ∃ value, HoldsSplit value (hi row) (lo row))
    (fits : ColumnSumsFit (rows.map hi) (rows.map lo)) :
    sumColumn (rows.map hi) = .ok (rows.map hi).reduceOption.sum ∧
      sumColumn (rows.map lo) = .ok (rows.map lo).reduceOption.sum ∧
      ∃ total signed,
        parseSplitSumAmount (rows.map hi).reduceOption.sum (rows.map lo).reduceOption.sum
          fieldName = .ok total ∧
        toSignedAmount total fieldName = .ok signed ∧ 0 ≤ signed ∧ signed ≤ i128Max ∧
        (0 < total.value ↔
          ∃ row ∈ rows, (∃ number ∈ hi row, 0 < number) ∨ ∃ number ∈ lo row, 0 < number) := by
  obtain ⟨hiSum, loSum, positive⟩ := reduceOption_sums_pos split
  have hiFits : (rows.map hi).reduceOption.sum ≤ i64Max := by
    have carried := fits.2
    have carry : 0 ≤ (rows.map lo).reduceOption.sum / globalSplitDivisor := by
      unfold globalSplitDivisor
      omega
    omega
  obtain ⟨total, parsed, isTotal, bounded⟩ :=
    @exists_parseSplitSumAmount _ _ fieldName hiSum loSum fits.2
  have signed : total.trySigned = some (total.value : ℤ) :=
    UnsignedAmount.trySigned_eq_some.mpr ⟨rfl, bounded⟩
  refine ⟨sumColumn_eq_ok_iff.mpr ⟨hiFits, rfl⟩, sumColumn_eq_ok_iff.mpr ⟨fits.1, rfl⟩,
    total, total.value, parsed, ?_, Int.natCast_nonneg _, bounded, ?_⟩
  · unfold toSignedAmount
    rw [signed]
  · rw [← positive, ← isTotal]
    exact Int.natCast_pos.symm

theorem exists_utxoModelEntry_of_splitRows {chain : ChainTransactionRow}
    (split : SplitRows db chain.key) (fits : SumsFit addresses account db chain.key)
    (named : isBlank chain.key.txHash = false) :
    (∃ entry, utxoModelEntry parseDatetime columns addresses account db chain = .ok entry) ↔
      (∃ time, readBlockTime parseDatetime chain = .ok time) ∧
        ((∃ row ∈ ownedInputs addresses account db chain.key,
            (∃ number ∈ row.valueAmountHi, 0 < number) ∨
              ∃ number ∈ row.valueAmountLo, 0 < number) →
          ∃ fee, parseOptionalSplitAmount chain.feeAmountHi chain.feeAmountLo "fee_amount" =
            .ok fee) := by
  have inputsSplit : ∀ row ∈ ownedInputs addresses account db chain.key,
      ∃ value, HoldsSplit value row.valueAmountHi row.valueAmountLo := by
    intro row member
    obtain ⟨inTable, isOwned⟩ := List.mem_filter.mp member
    exact split.inputs row inTable (of_decide_eq_true isOwned).1
  have outputsSplit : ∀ row ∈ ownedOutputs addresses account db chain.key,
      ∃ value, HoldsSplit value (some row.valueAmountHi) (some row.valueAmountLo) := by
    intro row member
    obtain ⟨inTable, isOwned⟩ := List.mem_filter.mp member
    obtain ⟨value, holds⟩ := split.outputs row inTable (of_decide_eq_true isOwned).1
    exact ⟨some value, holds⟩
  obtain ⟨inHi, inLo, inTotal, outgoing, inParsed, inSigned, inSign, inBound, positive⟩ :=
    exists_total "owned_input_total" inputsSplit fits.1
  obtain ⟨outHi, outLo, outTotal, incoming, outParsed, outSigned, outSign, outBound, _⟩ :=
    exists_total "owned_output_total" outputsSplit fits.2
  have sums : ownedSums addresses account db chain.key = .ok {
      outputHi := ((ownedOutputs addresses account db chain.key).map fun row =>
        some row.valueAmountHi).reduceOption.sum
      outputLo := ((ownedOutputs addresses account db chain.key).map fun row =>
        some row.valueAmountLo).reduceOption.sum
      inputHi := ((ownedInputs addresses account db chain.key).map
        (·.valueAmountHi)).reduceOption.sum
      inputLo := ((ownedInputs addresses account db chain.key).map
        (·.valueAmountLo)).reduceOption.sum } := by
    unfold ownedSums
    dsimp only
    rw [outHi, outLo, inHi, inLo]
    rfl
  have subtracts : ∃ delta, checkedSub incoming outgoing = some delta := by
    refine ⟨incoming - outgoing, checkedSub_eq_some.mpr ?_⟩
    unfold i128Min
    unfold i128Max at *
    omega
  have feeRead : (∃ fee, ownedFee chain inTotal = .ok fee) ↔
      ((∃ row ∈ ownedInputs addresses account db chain.key,
          (∃ number ∈ row.valueAmountHi, 0 < number) ∨
            ∃ number ∈ row.valueAmountLo, 0 < number) →
        ∃ fee, parseOptionalSplitAmount chain.feeAmountHi chain.feeAmountLo "fee_amount" =
          .ok fee) := by
    rw [← positive]
    unfold ownedFee
    split <;> rename_i sign
    · simp [sign]
    · simp [sign]
  rw [exists_utxoModelEntry, ← feeRead]
  simp only [sums, named, Except.ok.injEq, exists_eq_left', true_and, outParsed, inParsed,
    outSigned, inSigned, subtracts, and_true, exists_and_right]

end Entry

/-! ## The rows of a record -/

section Records

variable (addresses : List AddressRow) (accountId : String)

/-- The text is of an address the account has. -/
def OwnsText (rawAddress : Option String) : Prop :=
  ∃ addressId ∈ resolveOwnedAddressId addresses rawAddress, Owns addresses accountId addressId

/-- The account has an input or output of the record. -/
def OwnsEnd (record : SyncTransactionRecord) : Prop :=
  (∃ input ∈ record.inputs, OwnsText addresses accountId input.prevAddress) ∨
    ∃ output ∈ record.outputs, OwnsText addresses accountId output.rawAddress

/-- The account has an input of the record that is worth something. -/
def OwnsSpentValue (record : SyncTransactionRecord) : Prop :=
  ∃ input ∈ record.inputs, OwnsText addresses accountId input.prevAddress ∧
    ∃ value ∈ input.valueAmount, 0 < value

/-- The rows of a record can be read: its block time where the account has an input or output,
and its fee, below the divisor, where the account has an input that is worth something. -/
structure ReadsBack (toRfc3339 : ℤ → String) (parseDatetime : String → Except DbError ℤ)
    (record : SyncTransactionRecord) : Prop where
  blockTime : OwnsEnd addresses accountId record →
    ∀ seconds ∈ record.blockTime, ∃ time, parseDatetime (toRfc3339 seconds) = .ok time
  fee : OwnsSpentValue addresses accountId record →
    ∃ fee ∈ record.feeAmount, fee < globalSplitDivisor

variable {addresses accountId} {toRfc3339 : ℤ → String} {key : TxKey}
  {record : SyncTransactionRecord} {db : TransactionTables}

/-- A last item with an index is the only one, where no two items share one. -/
theorem find_reverse_bind_eq_some {Item Row : Type*} {index : Item → ℤ} {items : List Item}
    (distinct : (items.map index).Nodup) {build : Item → Option Row} {indexOf : Row → ℤ}
    (keeps : ∀ item row, build item = some row → indexOf row = index item) {row : Row} :
    (find index items.reverse (indexOf row)).bind build = some row ↔
      ∃ item ∈ items, build item = some row := by
  have keyed : Keyed index items.reverse := by
    unfold Keyed
    rw [List.map_reverse]
    exact List.nodup_reverse.mpr distinct
  rw [Option.bind_eq_some_iff]
  refine exists_congr fun item => ?_
  rw [find_eq_some_iff keyed, List.mem_reverse]
  exact ⟨fun ⟨⟨member, _⟩, isRow⟩ => ⟨member, isRow⟩,
    fun ⟨member, isRow⟩ => ⟨⟨member, (keeps item row isRow).symm⟩, isRow⟩⟩

theorem inputAt_iff (distinct : (record.inputs.map SyncTransactionInputRecord.inputIndex).Nodup)
    {row : TransactionInputRow} :
    inputAt addresses key record.inputs row.inputIndex = some row ↔
      ∃ input ∈ record.inputs, storedInput addresses key input = some row :=
  find_reverse_bind_eq_some distinct fun _ _ isRow => congrArg Prod.snd (storedInput_key isRow)

theorem outputAt_iff
    (distinct : (record.outputs.map SyncTransactionOutputRecord.outputIndex).Nodup)
    {row : TransactionOutputRow} :
    outputAt addresses key record.outputs row.outputIndex = some row ↔
      ∃ output ∈ record.outputs, storedOutput addresses key output = some row :=
  find_reverse_bind_eq_some distinct fun _ _ isRow => congrArg Prod.snd (storedOutput_key isRow)

/-- Rows written for a record without repeated indices, as the builder finds them. -/
structure Listed (addresses : List AddressRow) (key : TxKey) (record : SyncTransactionRecord)
    (db : TransactionTables) : Prop where
  inputs : ∀ row, row ∈ db.transactionInputs ∧ row.txKey = key ↔
    ∃ input ∈ record.inputs, storedInput addresses key input = some row
  outputs : ∀ row, row ∈ db.transactionOutputs ∧ row.txKey = key ↔
    ∃ output ∈ record.outputs, storedOutput addresses key output = some row

theorem WrittenBy.listed (written : WrittenBy toRfc3339 addresses key record db)
    (inputsDistinct : (record.inputs.map SyncTransactionInputRecord.inputIndex).Nodup)
    (outputsDistinct : (record.outputs.map SyncTransactionOutputRecord.outputIndex).Nodup) :
    Listed addresses key record db := by
  refine ⟨fun row => ?_, fun row => ?_⟩
  · rw [← inputAt_iff inputsDistinct]
    constructor
    · rintro ⟨member, own⟩
      exact (written.inputs row own).mp member
    · intro stored
      obtain ⟨input, _, _, isRow⟩ := inputAt_eq_some stored
      have own : row.txKey = key := congrArg Prod.fst (storedInput_key isRow)
      exact ⟨(written.inputs row own).mpr stored, own⟩
  · rw [← outputAt_iff outputsDistinct]
    constructor
    · rintro ⟨member, own⟩
      exact (written.outputs row own).mp member
    · intro stored
      obtain ⟨output, _, _, isRow⟩ := outputAt_eq_some stored
      have own : row.txKey = key := congrArg Prod.fst (storedOutput_key isRow)
      exact ⟨(written.outputs row own).mpr stored, own⟩

theorem Listed.splitRows (listed : Listed addresses key record db) : SplitRows db key := by
  refine ⟨?_, ?_⟩
  · intro row member own
    obtain ⟨input, _, isRow⟩ := (listed.inputs row).mp ⟨member, own⟩
    obtain ⟨_, _, done⟩ := storedInput_eq_some.mp isRow
    exact ⟨input.valueAmount, transactionInputRow_columns done⟩
  · intro row member own
    obtain ⟨output, _, isRow⟩ := (listed.outputs row).mp ⟨member, own⟩
    obtain ⟨_, _, done⟩ := storedOutput_eq_some.mp isRow
    exact ⟨output.valueAmount, transactionOutputRow_columns done⟩

variable {assetId : SyncedAssetId} {network : Network} {account : AccountMeta}

theorem Listed.ownedInputs (accepted : RecordAccepted addresses assetId network record)
    (listed : Listed addresses (record.key assetId network) record db)
    {holds : SyncTransactionInputRecord → Prop} {rowHolds : TransactionInputRow → Prop}
    (same : ∀ input row, storedInput addresses (record.key assetId network) input = some row →
      (rowHolds row ↔ holds input)) :
    (∃ row ∈ ownedInputs addresses account db (record.key assetId network), rowHolds row) ↔
      ∃ input ∈ record.inputs, OwnsText addresses account.accountId input.prevAddress ∧
        holds input := by
  constructor
  · rintro ⟨row, member, isHeld⟩
    obtain ⟨inTable, isOwned⟩ := List.mem_filter.mp member
    obtain ⟨own, owns⟩ := of_decide_eq_true isOwned
    obtain ⟨input, inRecord, isRow⟩ := (listed.inputs row).mp ⟨inTable, own⟩
    obtain ⟨addressId, resolved, done⟩ := storedInput_eq_some.mp isRow
    have isAddress := (transactionInputRow_spec done).2.2.2.2
    exact ⟨input, inRecord, ⟨addressId, resolved, isAddress ▸ owns⟩,
      (same input row isRow).mp isHeld⟩
  · rintro ⟨input, inRecord, ⟨addressId, resolved, owns⟩, isHeld⟩
    obtain ⟨row, done⟩ := accepted.inputs input inRecord addressId resolved
    have isRow := storedInput_eq_some.mpr ⟨addressId, resolved, done⟩
    have isAddress := (transactionInputRow_spec done).2.2.2.2
    obtain ⟨inTable, own⟩ := (listed.inputs row).mpr ⟨input, inRecord, isRow⟩
    refine ⟨row, List.mem_filter.mpr ⟨inTable, decide_eq_true ⟨own, isAddress ▸ owns⟩⟩, ?_⟩
    exact (same input row isRow).mpr isHeld

theorem Listed.ownedOutputs (accepted : RecordAccepted addresses assetId network record)
    (listed : Listed addresses (record.key assetId network) record db) :
    (∃ row, row ∈ ownedOutputs addresses account db (record.key assetId network)) ↔
      ∃ output ∈ record.outputs, OwnsText addresses account.accountId output.rawAddress := by
  constructor
  · rintro ⟨row, member⟩
    obtain ⟨inTable, isOwned⟩ := List.mem_filter.mp member
    obtain ⟨own, owns⟩ := of_decide_eq_true isOwned
    obtain ⟨output, inRecord, isRow⟩ := (listed.outputs row).mp ⟨inTable, own⟩
    obtain ⟨addressId, resolved, done⟩ := storedOutput_eq_some.mp isRow
    have isAddress := (transactionOutputRow_spec done).2.2
    exact ⟨output, inRecord, addressId, resolved, isAddress ▸ owns⟩
  · rintro ⟨output, inRecord, addressId, resolved, owns⟩
    obtain ⟨row, done⟩ := accepted.outputs output inRecord addressId resolved
    have isRow := storedOutput_eq_some.mpr ⟨addressId, resolved, done⟩
    have isAddress := (transactionOutputRow_spec done).2.2
    obtain ⟨inTable, own⟩ := (listed.outputs row).mpr ⟨output, inRecord, isRow⟩
    exact ⟨row, List.mem_filter.mpr ⟨inTable, decide_eq_true ⟨own, isAddress ▸ owns⟩⟩⟩

theorem Listed.hasOwnedEnd (accepted : RecordAccepted addresses assetId network record)
    (listed : Listed addresses (record.key assetId network) record db) :
    HasOwnedEnd addresses account db (record.key assetId network) ↔
      OwnsEnd addresses account.accountId record := by
  have inputs := @Listed.ownedInputs _ _ _ _ _ account accepted listed (fun _ => True)
    (fun _ => True) fun _ _ _ => Iff.rfl
  have outputs := @Listed.ownedOutputs _ _ _ _ _ account accepted listed
  simp only [and_true] at inputs
  have nonempty : ∀ {Row : Type} (rows : List Row), rows ≠ [] ↔ ∃ row, row ∈ rows :=
    fun rows => ⟨List.exists_mem_of_ne_nil rows, fun ⟨_, member⟩ => List.ne_nil_of_mem member⟩
  unfold HasOwnedEnd OwnsEnd
  rw [← inputs, ← outputs, nonempty, nonempty]

theorem Listed.ownsSpentValue (accepted : RecordAccepted addresses assetId network record)
    (listed : Listed addresses (record.key assetId network) record db) :
    (∃ row ∈ Store.ownedInputs addresses account db (record.key assetId network),
        (∃ number ∈ row.valueAmountHi, 0 < number) ∨ ∃ number ∈ row.valueAmountLo, 0 < number) ↔
      OwnsSpentValue addresses account.accountId record := by
  apply listed.ownedInputs accepted
  intro input row isRow
  obtain ⟨_, _, done⟩ := storedInput_eq_some.mp isRow
  exact (transactionInputRow_columns done).positive

end Records

/-! ## After a page -/

section Pages

variable {toRfc3339 : ℤ → String} {parseDatetime : String → Except DbError ℤ}
  {columns later : TxKey → ChainTransactionColumns} {addresses : List AddressRow}
  {assetId : SyncedAssetId} {network : Network} {account : AccountMeta}
  {db tables : TransactionTables} {record : SyncTransactionRecord}

theorem ledgerReads_iff : LedgerReads parseDatetime columns addresses account db ↔
    ∀ chain ∈ db.chainTransactions, chain.key.InScope account.assetId account.network →
      HasOwnedEnd addresses account db chain.key →
        ∃ entry, utxoModelEntry parseDatetime columns addresses account db chain = .ok entry := by
  unfold LedgerReads utxoModelEntries utxoModelRows
  rw [exists_mapM_eq_ok]
  simp only [List.mem_mergeSort, List.mem_filter, decide_eq_true_eq, and_imp]

theorem exists_utxoModelEntry_of_sameAt {chain : ChainTransactionRow}
    (same : db.SameAt tables chain.key) :
    (HasOwnedEnd addresses account db chain.key ↔ HasOwnedEnd addresses account tables chain.key) ∧
      ((∃ entry, utxoModelEntry parseDatetime columns addresses account db chain = .ok entry) ↔
        ∃ entry, utxoModelEntry parseDatetime later addresses account tables chain =
          .ok entry) := by
  have inputs : ownedInputs addresses account db chain.key =
      ownedInputs addresses account tables chain.key := by
    have filtered := congrArg (List.filter fun row : TransactionInputRow =>
      Owns addresses account.accountId row.addressId) same.inputs
    unfold ownedInputs
    simpa only [List.filter_filter, ← Bool.decide_and, and_comm] using filtered
  have outputs : ownedOutputs addresses account db chain.key =
      ownedOutputs addresses account tables chain.key := by
    have filtered := congrArg (List.filter fun row : TransactionOutputRow =>
      Owns addresses account.accountId row.addressId) same.outputs
    unfold ownedOutputs
    simpa only [List.filter_filter, ← Bool.decide_and, and_comm] using filtered
  constructor
  · unfold HasOwnedEnd
    rw [inputs, outputs]
  · rw [exists_utxoModelEntry, exists_utxoModelEntry]
    unfold ownedSums
    rw [inputs, outputs]

theorem exists_parseFee {fee : Option ℤ} (sign : ∀ number ∈ fee, 0 ≤ number) :
    (∃ parsed, parseOptionalSplitAmount (some 0) fee "fee_amount" = .ok parsed) ↔
      ∃ number ∈ fee, number < globalSplitDivisor := by
  cases fee with
  | none => simp [parseOptionalSplitAmount]
  | some number =>
    have nonnegative := sign number rfl
    simp only [Option.mem_def, Option.some.injEq, exists_eq_left']
    constructor
    · rintro ⟨parsed, done⟩
      obtain ⟨amount, decoded, _⟩ := map_eq_ok.mp done
      have decoded := mapError_eq_ok.mp decoded
      by_contra large
      unfold decodeUnsigned at decoded
      rw [if_neg (lt_irrefl 0), if_pos fun bounds => large bounds.2] at decoded
      cases decoded
    · intro small
      have bounded : 0 * globalSplitDivisor + number ≤ i128Max := by
        unfold globalSplitDivisor at small
        unfold i128Max
        omega
      obtain ⟨amount, parsed⟩ :=
        UnsignedAmount.tryFromSigned_isSome (by omega : 0 ≤ 0 * globalSplitDivisor + number)
          bounded
      refine ⟨some amount, map_eq_ok.mpr ⟨amount, mapError_eq_ok.mpr ?_, rfl⟩⟩
      unfold decodeUnsigned
      rw [if_neg (lt_irrefl 0), if_neg (not_not.mpr ⟨nonnegative, small⟩), parsed]

theorem exists_utxoModelEntry_of_listed
    (accepted : RecordAccepted addresses assetId network record)
    (listed : Listed addresses (record.key assetId network) record db)
    (fits : SumsFit addresses account db (record.key assetId network))
    (named : isBlank record.txHash = false) (feeSign : ∀ fee ∈ record.feeAmount, 0 ≤ fee)
    (owned : OwnsEnd addresses account.accountId record) :
    (∃ entry, utxoModelEntry parseDatetime columns addresses account db
        (chainTransactionRow toRfc3339 (record.key assetId network) record) = .ok entry) ↔
      ReadsBack addresses account.accountId toRfc3339 parseDatetime record := by
  have time : (∃ time, readBlockTime parseDatetime
      (chainTransactionRow toRfc3339 (record.key assetId network) record) = .ok time) ↔
        ∀ seconds ∈ record.blockTime, ∃ time, parseDatetime (toRfc3339 seconds) = .ok time := by
    unfold readBlockTime chainTransactionRow
    cases record.blockTime with
    | none => simp
    | some seconds =>
      dsimp only [Option.map_some]
      cases parsed : parseDatetime (toRfc3339 seconds) <;> simp [parsed, Except.mapError]
  have fee := exists_parseFee feeSign
  have spent := @Listed.ownsSpentValue _ _ _ _ _ account accepted listed
  have reads := @exists_utxoModelEntry_of_splitRows parseDatetime columns addresses account db
    (chainTransactionRow toRfc3339 (record.key assetId network) record) listed.splitRows fits named
  rw [reads, time]
  constructor
  · rintro ⟨timeReads, feeReads⟩
    exact ⟨fun _ => timeReads, fun owns => fee.mp (feeReads (spent.mpr owns))⟩
  · intro reads
    exact ⟨reads.blockTime owned, fun row => fee.mpr (reads.fee (spent.mp row))⟩

theorem OwnsSpentValue.ownsEnd {accountId : String}
    (spent : OwnsSpentValue addresses accountId record) : OwnsEnd addresses accountId record := by
  obtain ⟨input, member, owns, _⟩ := spent
  exact .inl ⟨input, member, owns⟩

theorem HasOwnedEnd.not_isOrphan {key : TxKey} (owned : HasOwnedEnd addresses account db key) :
    db.isOrphan key = false := by
  unfold TransactionTables.isOrphan
  rw [Bool.and_eq_false_iff, Bool.and_eq_false_iff, List.all_eq_false, List.all_eq_false]
  rcases owned with inputs | outputs
  · obtain ⟨row, member⟩ := List.exists_mem_of_ne_nil _ inputs
    obtain ⟨inTable, isOwned⟩ := List.mem_filter.mp member
    exact .inl (.inl ⟨row, inTable, by simp [(of_decide_eq_true isOwned).1]⟩)
  · obtain ⟨row, member⟩ := List.exists_mem_of_ne_nil _ outputs
    obtain ⟨inTable, isOwned⟩ := List.mem_filter.mp member
    exact .inl (.inr ⟨row, inTable, by simp [(of_decide_eq_true isOwned).1]⟩)

theorem SyncTransactionRecord.key_eq_iff {other : SyncTransactionRecord} :
    other.key assetId network = record.key assetId network ↔ other.txHash = record.txHash := by
  simp [SyncTransactionRecord.key]

theorem mapped_listed {raws : List MempoolAddressTransaction}
    {records : List SyncTransactionRecord} {targets : CoverageInvalidationTargets}
    (unique : db.Unique) (mapped : mapMempoolTransactions raws = .ok records)
    (run : CommittedRun toRfc3339 addresses assetId network records db tables targets)
    (last : (records.reverse.find? fun other =>
      other.key assetId network = record.key assetId network) = some record) :
    RecordAccepted addresses assetId network record ∧
      Listed addresses (record.key assetId network) record tables ∧
      isBlank record.txHash = false ∧ ∀ fee ∈ record.feeAmount, 0 ≤ fee := by
  have member : record ∈ records := List.mem_reverse.mp (List.mem_of_find?_eq_some last)
  obtain ⟨raw, _, isMapped⟩ := (mem_of_mapM_eq_ok mapped).2 record member
  obtain ⟨inputsDistinct, outputsDistinct⟩ := mapMempoolTransaction_nodup isMapped
  obtain ⟨named, _, sign⟩ := mapMempoolTransaction_spec isMapped
  exact ⟨run.accepted record member,
    (run.writtenBy unique last).listed inputsDistinct outputsDistinct, named, sign⟩

/-- After a mapped page is reconciled, an account that could be read and whose sums fit can be
read exactly when the last record of each hash reads back. -/
theorem ledgerReads_after_page {raws : List MempoolAddressTransaction}
    {records : List SyncTransactionRecord} {targets : CoverageInvalidationTargets}
    (unique : db.Unique) (before : LedgerReads parseDatetime columns addresses account db)
    (mapped : mapMempoolTransactions raws = .ok records)
    (run : CommittedRun toRfc3339 addresses assetId network records db tables targets)
    (fits : AccountSumsFit addresses account tables) :
    LedgerReads parseDatetime later addresses account tables ↔
      (account.assetId = assetId ∧ account.network = network →
        ∀ record ∈ records,
          (records.reverse.find? fun other => other.txHash = record.txHash) = some record →
            ReadsBack addresses account.accountId toRfc3339 parseDatetime record) := by
  rw [ledgerReads_iff]
  constructor
  · rintro reads ⟨sameAsset, sameNetwork⟩ record _ last
    have last : (records.reverse.find? fun other =>
        other.key assetId network = record.key assetId network) = some record := by
      simpa only [SyncTransactionRecord.key_eq_iff] using last
    obtain ⟨accepted, listed, named, sign⟩ := mapped_listed unique mapped run last
    by_cases owned : OwnsEnd addresses account.accountId record
    · have hasEnd := (listed.hasOwnedEnd accepted).mpr owned
      have written := (run.writtenBy unique last).chain
      rw [hasEnd.not_isOrphan, if_neg Bool.false_ne_true] at written
      have inScope : (record.key assetId network).InScope account.assetId account.network :=
        ⟨sameAsset.symm, sameNetwork.symm⟩
      have fit := fits _ (mem_of_find written) inScope
      apply (exists_utxoModelEntry_of_listed accepted listed fit named sign owned).mp
      exact reads _ (mem_of_find written) inScope hasEnd
    · exact ⟨fun owns => absurd owns owned, fun spent => absurd spent.ownsEnd owned⟩
  · intro reads chain member inScope hasEnd
    have found := (find_key_eq_some_iff (run.unique unique).chainTransactions).mpr member
    cases last : records.reverse.find? fun other => other.key assetId network = chain.key with
    | none =>
      -- no record is of this transaction, whose rows were read before
      have same := run.sameAt fun other inRecords isKey => by
        rw [List.find?_eq_none] at last
        exact last other (List.mem_reverse.mpr inRecords) (decide_eq_true isKey.symm)
      rw [← same.chain] at found
      obtain ⟨ends, entries⟩ := exists_utxoModelEntry_of_sameAt same
      exact entries.mp (ledgerReads_iff.mp before chain (mem_of_find found) inScope
        (ends.mpr hasEnd))
    | some record =>
      -- the rows are those of the last record of this transaction
      have isKey : record.key assetId network = chain.key :=
        of_decide_eq_true (List.find?_some last :)
      have fit := fits chain member inScope
      rw [← isKey] at last hasEnd inScope found fit
      obtain ⟨accepted, listed, named, sign⟩ := mapped_listed unique mapped run last
      rw [(run.writtenBy unique last).chain, hasEnd.not_isOrphan,
        if_neg Bool.false_ne_true] at found
      obtain rfl := Option.some.inj found
      have owned := (listed.hasOwnedEnd accepted).mp hasEnd
      apply (exists_utxoModelEntry_of_listed accepted listed fit named sign owned).mpr
      apply reads ⟨inScope.1.symm, inScope.2.symm⟩ record
        (List.mem_reverse.mp (List.mem_of_find?_eq_some last))
      simpa only [SyncTransactionRecord.key_eq_iff] using last

end Pages

/-! ### A spender without a fee -/

/-- One tracked address. -/
def pageAddresses : List AddressRow := [{
  id := "address-1"
  accountId := some "account-1"
  assetId := .bitcoin
  network := .mainnet
  address := "bc1qreceive"
  addressNormalized := "bc1qreceive" }]

def pageAccount : AccountMeta where
  accountId := "account-1"
  assetId := .bitcoin
  network := .mainnet

def pageColumns (_ : TxKey) : ChainTransactionColumns where
  id := ""
  createdAt := 0
  updatedAt := 0

/-- A hash of one repeated digit. -/
def digitHash (digit : Char) : String := String.ofList (List.replicate 64 digit)

/-- An unconfirmed transaction that spends an output of the address. -/
def spendingTransaction (fee : Option ℤ) : MempoolAddressTransaction where
  txid := digitHash 'b'
  vin := [{
    txid := some (digitHash 'a')
    vout := some 0
    prevout := some { scriptpubkeyAddress := some "bc1qreceive", value := 50 } }]
  vout := []
  fee
  status := { confirmed := false, blockHeight := none, blockHash := none, blockTime := none }

/-- The record of the transaction. -/
def spendingRecord (fee : Option ℤ) : SyncTransactionRecord where
  txHash := digitHash 'b'
  status := .pending
  blockHeight := none
  blockHash := none
  blockTime := none
  feeAmount := fee
  inputs := [{
    inputIndex := 0
    prevTxHash := digitHash 'a'
    prevOutputIndex := 0
    prevAddress := some "bc1qreceive"
    valueAmount := some 50 }]
  outputs := []

/-- The tables after the transaction. -/
def spendingTables (fee : Option ℤ) : TransactionTables :=
  BitcoinStep.tables (fun _ => "") pageAddresses emptyTables
    { assetId := .bitcoin, network := .mainnet, record := spendingRecord fee }

theorem spendingTransaction_committed (fee : Option ℤ)
    (mapped : mapMempoolTransactions [spendingTransaction fee] = .ok [spendingRecord fee])
    (done : (applyTransactionReconciliation (fun _ => "") pageAddresses .bitcoin .mainnet
      (spendingRecord fee) emptyTables).isOk = true) :
    mapMempoolTransactions [spendingTransaction fee] = .ok [spendingRecord fee] ∧
      ∃ targets, CommittedRun (fun _ => "") pageAddresses .bitcoin .mainnet [spendingRecord fee]
        emptyTables (spendingTables fee) targets := by
  have commits : BitcoinStep.Commits (fun _ => "") pageAddresses
      { assetId := .bitcoin, network := .mainnet, record := spendingRecord fee } emptyTables
      (spendingTables fee) := BitcoinStep.commits_tables done
  exact ⟨mapped, commits.run⟩

theorem ledgerReads_after_page_with_fee :
    LedgerReads (fun _ => .ok 0) pageColumns pageAddresses pageAccount
      (spendingTables (some 7)) := by
  obtain ⟨mapped, _, run⟩ :=
    spendingTransaction_committed (some 7) (by decide +kernel) (by decide +kernel)
  have before : LedgerReads (fun _ => .ok 0) pageColumns pageAddresses pageAccount emptyTables :=
    ledgerReads_iff.mpr fun chain member => absurd member List.not_mem_nil
  have fits : AccountSumsFit pageAddresses pageAccount (spendingTables (some 7)) := by
    decide +kernel
  rw [ledgerReads_after_page emptyTables_unique before mapped run fits]
  intro _ record member _
  obtain rfl := List.mem_singleton.mp member
  refine ⟨?_, fun _ => ⟨7, rfl, by decide⟩⟩
  intro _ seconds time
  cases time

/-- A spender without a fee is accepted and cannot be read. -/
theorem spender_without_fee_unreadable :
    ∃ raws records tables targets account, mapMempoolTransactions raws = .ok records ∧
      CommittedRun (fun _ => "") pageAddresses .bitcoin .mainnet records emptyTables tables
        targets ∧
      AccountSumsFit pageAddresses account tables ∧
      ¬ LedgerReads (fun _ => .ok 0) pageColumns pageAddresses account tables := by
  obtain ⟨mapped, targets, run⟩ :=
    spendingTransaction_committed none (by decide +kernel) (by decide +kernel)
  refine ⟨_, _, _, targets, pageAccount, mapped, run, by decide +kernel, ?_⟩
  rintro ⟨entries, read⟩
  have failed : (utxoModelEntries (fun _ => .ok 0) pageColumns pageAddresses pageAccount
      (spendingTables none)).isOk = false := by decide +kernel
  rw [read] at failed
  cases failed

end Bitgarth.Store
