import Bitgarth.Foundation.Fallible
import Bitgarth.Store.Reconciliation

/-! # What reconciling a transaction writes

The rows of one transaction are replaced by what its record says: each index holds the last
input or output of that index, when its address is tracked. Rows of other transactions stay
where they are, but for the spent links of the outpoints the record names.
-/

namespace Bitgarth.Store

open Amounts Ledger KeyedTable Fallible

open Sync (SyncedAssetId)

section Owned

variable {Owner Item Row Key : Type} {owner : Option Owner} {write : Owner → Except DbError Row}

theorem bind_toOption_eq_some {row : Row} :
    (owner.bind fun id => (write id).toOption) = some row ↔
      ∃ id, owner = some id ∧ write id = .ok row := by
  rw [Option.bind_eq_some_iff]
  apply exists_congr
  intro id
  cases write id <;> simp [Except.toOption]

variable (owner write) in
theorem assign_owned_eq_ok [DecidableEq Key] (key : Row → Key) (k : Key) (table next : List Row) :
    (match owner with
      | none => .ok (table.filter fun row => key row ≠ k)
      | some id => do
          let row ← write id
          return upsert key replaceRow row table : Except DbError (List Row)) = .ok next ↔
      (∀ id ∈ owner, ∃ row, write id = .ok row) ∧
        assign key k (owner.bind fun id => (write id).toOption) table = next := by
  cases owner with
  | none => simp [assign]
  | some id =>
    cases written : write id with
    | error failure => simp [written, bind, Except.bind]
    | ok row =>
      simp only [written, bind, Except.bind, pure, Except.pure, Except.ok.injEq,
        Option.mem_def, Option.some.injEq, forall_eq', exists_eq', true_and, Except.toOption,
        Option.bind_some]
      rfl

theorem last_bind_eq_some {items : List Item} {index : Item → ℤ} {value : Item → Option Row}
    {i : ℤ} {row : Row}
    (stored : (items.reverse.find? fun item => index item = i).bind value = some row) :
    ∃ item ∈ items, index item = i ∧ value item = some row := by
  obtain ⟨item, last, isStored⟩ := Option.bind_eq_some_iff.mp stored
  exact ⟨item, List.mem_reverse.mp (List.mem_of_find?_eq_some last),
    of_decide_eq_true (List.find?_some last :), isStored⟩

theorem mem_of_find_replaced {key : Row → TxKey × ℤ} {table written : List Row} {group : TxKey}
    {stored : TxKey → ℤ → Option Row} (keyed : Keyed key table) (writtenKeyed : Keyed key written)
    (found : ∀ k i, find key written (k, i) =
      if k = group then stored k i else find key table (k, i)) {row : Row} :
    row ∈ written ↔
      if (key row).1 = group then stored (key row).1 (key row).2 = some row
      else row ∈ table := by
  rw [← find_key_eq_some_iff writtenKeyed, ← Prod.mk.eta (p := key row), found]
  split
  · rfl
  · exact find_key_eq_some_iff keyed

end Owned

section Inputs

variable (addresses : List AddressRow) (key : TxKey)

/-- What an input is stored as: nothing unless its address is tracked. -/
def storedInput (input : SyncTransactionInputRecord) : Option TransactionInputRow :=
  (resolveOwnedAddressId addresses input.prevAddress).bind fun addressId =>
    (transactionInputRow key addressId input).toOption

/-- An input of a tracked address passes the checks of its table. -/
def InputAccepted (input : SyncTransactionInputRecord) : Prop :=
  ∀ addressId ∈ resolveOwnedAddressId addresses input.prevAddress,
    ∃ row, transactionInputRow key addressId input = .ok row

/-- The input stored at an index: the last one that comes in. -/
def inputAt (inputs : List SyncTransactionInputRecord) (i : ℤ) : Option TransactionInputRow :=
  (inputs.reverse.find? fun input => input.inputIndex = i).bind (storedInput addresses key)

variable {addresses key} {input : SyncTransactionInputRecord}

theorem transactionInputRow_spec {addressId : String} {row : TransactionInputRow}
    (done : transactionInputRow key addressId input = .ok row) :
    row.txKey = key ∧ row.inputIndex = input.inputIndex ∧ row.prevTxHash = input.prevTxHash ∧
      row.prevOutputIndex = input.prevOutputIndex ∧ row.addressId = addressId := by
  obtain ⟨parts, _, done⟩ := bind_eq_ok.mp done
  obtain ⟨_, _, done⟩ := bind_eq_ok.mp done
  rw [pure_eq_ok] at done
  subst done
  exact ⟨rfl, rfl, rfl, rfl, rfl⟩

theorem storedInput_eq_some {row : TransactionInputRow} :
    storedInput addresses key input = some row ↔
      ∃ addressId, resolveOwnedAddressId addresses input.prevAddress = some addressId ∧
        transactionInputRow key addressId input = .ok row := bind_toOption_eq_some

theorem storedInput_key {row : TransactionInputRow}
    (stored : storedInput addresses key input = some row) : row.key = (key, input.inputIndex) := by
  obtain ⟨_, _, done⟩ := storedInput_eq_some.mp stored
  obtain ⟨ofKey, index, _⟩ := transactionInputRow_spec done
  exact Prod.ext ofKey index

theorem storedInput_outpoint {row : TransactionInputRow}
    (stored : storedInput addresses key input = some row) :
    row.outpoint = input.outpoint key.assetId key.network := by
  obtain ⟨_, _, done⟩ := storedInput_eq_some.mp stored
  obtain ⟨ofKey, _, hash, output, _⟩ := transactionInputRow_spec done
  unfold TransactionInputRow.outpoint SyncTransactionInputRecord.outpoint
  rw [ofKey, hash, output]

theorem upsertTransactionInput_eq_ok {table next : List TransactionInputRow} :
    upsertTransactionInput addresses key table input = .ok next ↔
      InputAccepted addresses key input ∧
        assign TransactionInputRow.key (key, input.inputIndex) (storedInput addresses key input)
          table = next := by
  unfold upsertTransactionInput InputAccepted storedInput
  have assigned := fun owner => assign_owned_eq_ok owner
    (fun addressId => transactionInputRow key addressId input)
    TransactionInputRow.key (key, input.inputIndex) table next
  cases resolveOwnedAddressId addresses input.prevAddress with
  | none => exact assigned none
  | some addressId => exact assigned (some addressId)

theorem upsertTransactionInputs_eq_ok {inputs : List SyncTransactionInputRecord}
    {table next : List TransactionInputRow} :
    upsertTransactionInputs addresses key inputs table = .ok next ↔
      (∀ input ∈ inputs, InputAccepted addresses key input) ∧
        replaceGroup TransactionInputRow.key key SyncTransactionInputRecord.inputIndex
          (storedInput addresses key) inputs table = next :=
  foldlM_eq_ok (upsertTransactionInput addresses key)
    (fun table input => assign TransactionInputRow.key (key, input.inputIndex)
      (storedInput addresses key input) table) fun _ _ _ => upsertTransactionInput_eq_ok

end Inputs

section Outputs

variable (addresses : List AddressRow) (key : TxKey)

/-- What an output is stored as: nothing unless its address is tracked. -/
def storedOutput (output : SyncTransactionOutputRecord) : Option TransactionOutputRow :=
  (resolveOwnedAddressId addresses output.rawAddress).bind fun addressId =>
    (transactionOutputRow key addressId output).toOption

/-- An output of a tracked address passes the checks of its table. -/
def OutputAccepted (output : SyncTransactionOutputRecord) : Prop :=
  ∀ addressId ∈ resolveOwnedAddressId addresses output.rawAddress,
    ∃ row, transactionOutputRow key addressId output = .ok row

/-- The output stored at an index: the last one that comes in. -/
def outputAt (outputs : List SyncTransactionOutputRecord) (i : ℤ) : Option TransactionOutputRow :=
  (outputs.reverse.find? fun output => output.outputIndex = i).bind (storedOutput addresses key)

variable {addresses key} {output : SyncTransactionOutputRecord}

theorem transactionOutputRow_spec {addressId : String} {row : TransactionOutputRow}
    (done : transactionOutputRow key addressId output = .ok row) :
    row.txKey = key ∧ row.outputIndex = output.outputIndex ∧ row.addressId = addressId := by
  obtain ⟨parts, _, done⟩ := bind_eq_ok.mp done
  obtain ⟨_, _, done⟩ := bind_eq_ok.mp done
  rw [pure_eq_ok] at done
  subst done
  exact ⟨rfl, rfl, rfl⟩

theorem storedOutput_eq_some {row : TransactionOutputRow} :
    storedOutput addresses key output = some row ↔
      ∃ addressId, resolveOwnedAddressId addresses output.rawAddress = some addressId ∧
        transactionOutputRow key addressId output = .ok row := bind_toOption_eq_some

theorem storedOutput_key {row : TransactionOutputRow}
    (stored : storedOutput addresses key output = some row) :
    row.key = (key, output.outputIndex) := by
  obtain ⟨_, _, done⟩ := storedOutput_eq_some.mp stored
  obtain ⟨ofKey, index, _⟩ := transactionOutputRow_spec done
  exact Prod.ext ofKey index

theorem upsertTransactionOutput_eq_ok {table next : List TransactionOutputRow} :
    upsertTransactionOutput addresses key table output = .ok next ↔
      OutputAccepted addresses key output ∧
        assign TransactionOutputRow.key (key, output.outputIndex)
          (storedOutput addresses key output) table = next := by
  unfold upsertTransactionOutput OutputAccepted storedOutput
  have assigned := fun owner => assign_owned_eq_ok owner
    (fun addressId => transactionOutputRow key addressId output)
    TransactionOutputRow.key (key, output.outputIndex) table next
  cases resolveOwnedAddressId addresses output.rawAddress with
  | none => exact assigned none
  | some addressId => exact assigned (some addressId)

theorem upsertTransactionOutputs_eq_ok {outputs : List SyncTransactionOutputRecord}
    {table next : List TransactionOutputRow} :
    upsertTransactionOutputs addresses key outputs table = .ok next ↔
      (∀ output ∈ outputs, OutputAccepted addresses key output) ∧
        replaceGroup TransactionOutputRow.key key SyncTransactionOutputRecord.outputIndex
          (storedOutput addresses key) outputs table = next :=
  foldlM_eq_ok (upsertTransactionOutput addresses key)
    (fun table output => assign TransactionOutputRow.key (key, output.outputIndex)
      (storedOutput addresses key output) table) fun _ _ _ => upsertTransactionOutput_eq_ok

end Outputs

section Utxos

variable (addresses : List AddressRow) (key : TxKey) (record : SyncTransactionRecord)

/-- What an output is listed as: nothing unless its address is tracked. -/
def listedOutput (output : SyncTransactionOutputRecord) : Option UtxoRow :=
  (resolveOwnedAddressId addresses output.rawAddress).bind fun addressId =>
    (utxoRow key record.status addressId output).toOption

/-- An output of a tracked address passes the checks of the unspent outputs. -/
def UtxoAccepted (output : SyncTransactionOutputRecord) : Prop :=
  ∀ addressId ∈ resolveOwnedAddressId addresses output.rawAddress,
    ∃ row, utxoRow key record.status addressId output = .ok row

/-- The unspent output listed at an outpoint: the last one that comes in. -/
def listedAt (outpoint : TxKey × ℤ) : Option UtxoRow :=
  record.outputs.reverse.findSome? fun output =>
    (listedOutput addresses key record output).filter fun row => row.key = outpoint

/-- A listed row keeps the link of the row it replaces, or takes an earlier spender. -/
def linkedRow (old : Option UtxoRow) (spender : Option String) (row : UtxoRow) : UtxoRow :=
  { row with spentByTxHash := (old.bind (·.spentByTxHash)).or spender }

/-- One output, listed. -/
def listUtxo (spender : TxKey × ℤ → Option String) (utxos : List UtxoRow) (row : UtxoRow) :
    List UtxoRow :=
  match spender row.key with
  | none => upsert UtxoRow.key mergeUtxo row utxos
  | some hash =>
    (upsert UtxoRow.key mergeUtxo row utxos).map (linkUnspentUtxo row.key hash)

/-- The record has an input naming the outpoint. -/
def SyncTransactionRecord.Spends (record : SyncTransactionRecord)
    (assetId : SyncedAssetId) (network : Network) (outpoint : TxKey × ℤ) : Prop :=
  ∃ input ∈ record.inputs, input.outpoint assetId network = outpoint

instance (record : SyncTransactionRecord) (assetId : SyncedAssetId) (network : Network)
    (outpoint : TxKey × ℤ) : Decidable (record.Spends assetId network outpoint) :=
  inferInstanceAs (Decidable (∃ input ∈ record.inputs, _))

variable {addresses key record} {output : SyncTransactionOutputRecord}

theorem utxoRow_spec {status : ChainTransactionStatus} {addressId : String} {row : UtxoRow}
    (done : utxoRow key status addressId output = .ok row) :
    row.key = (key, output.outputIndex) ∧ row.addressId = addressId ∧ row.status = status ∧
      row.spentByTxHash = none := by
  obtain ⟨parts, _, done⟩ := bind_eq_ok.mp done
  obtain ⟨_, _, done⟩ := bind_eq_ok.mp done
  split at done
  · contradiction
  · rw [pure_eq_ok] at done
    subst done
    exact ⟨rfl, rfl, rfl, rfl⟩

theorem listedOutput_eq_some {row : UtxoRow} :
    listedOutput addresses key record output = some row ↔
      ∃ addressId, resolveOwnedAddressId addresses output.rawAddress = some addressId ∧
        utxoRow key record.status addressId output = .ok row := bind_toOption_eq_some

theorem listedOutput_spec {row : UtxoRow}
    (listed : listedOutput addresses key record output = some row) :
    row.key = (key, output.outputIndex) ∧ row.spentByTxHash = none := by
  obtain ⟨_, _, done⟩ := listedOutput_eq_some.mp listed
  obtain ⟨ofKey, _, _, unspent⟩ := utxoRow_spec done
  exact ⟨ofKey, unspent⟩

@[simp]
theorem linkUnspentUtxo_key (outpoint : TxKey × ℤ) (spender : String) (row : UtxoRow) :
    (linkUnspentUtxo outpoint spender row).key = row.key := by
  unfold linkUnspentUtxo
  split <;> rfl

@[simp]
theorem linkUtxo_key (outpoint : TxKey × ℤ) (spender : String) (row : UtxoRow) :
    (linkUtxo outpoint spender row).key = row.key := by
  unfold linkUtxo
  split <;> rfl

@[simp]
theorem dropUtxo_key (row : UtxoRow) : (dropUtxo key row).key = row.key := by
  unfold dropUtxo
  split <;> rfl

theorem find_listUtxo {spender : TxKey × ℤ → Option String} {utxos : List UtxoRow}
    {row : UtxoRow} (unspent : row.spentByTxHash = none) (outpoint : TxKey × ℤ) :
    find UtxoRow.key (listUtxo spender utxos row) outpoint =
      if row.key = outpoint then
        some (linkedRow (find UtxoRow.key utxos outpoint) (spender outpoint) row)
      else find UtxoRow.key utxos outpoint := by
  have keeps : ∀ old : UtxoRow, old.key = row.key → (mergeUtxo old row).key = row.key :=
    fun _ _ => rfl
  unfold listUtxo
  by_cases isKey : row.key = outpoint
  · subst isKey
    rw [if_pos rfl]
    cases spender row.key with
    | none =>
      dsimp only
      rw [find_upsert_self keeps]
      cases find UtxoRow.key utxos row.key with
      | none => simp [linkedRow, ← unspent]
      | some old => simp [linkedRow, mergeUtxo]
    | some hash =>
      dsimp only
      rw [find_map (linkUnspentUtxo_key _ _), find_upsert_self keeps]
      cases find UtxoRow.key utxos row.key with
      | none => simp [linkedRow, linkUnspentUtxo, unspent]
      | some old =>
        cases linked : old.spentByTxHash with
        | none =>  simp [linkedRow, mergeUtxo, linkUnspentUtxo, linked, UtxoRow.key]
        | some earlier => simp [linkedRow, mergeUtxo, linkUnspentUtxo, linked]
  · rw [if_neg isKey]
    cases spender row.key with
    | none => exact find_upsert_of_ne keeps isKey
    | some hash =>
      dsimp only
      rw [find_map (linkUnspentUtxo_key _ _), find_upsert_of_ne keeps isKey]
      cases found : find UtxoRow.key utxos outpoint with
      | none => rfl
      | some old =>
        have other : old.key ≠ row.key := by
          rw [find_eq_some_key found]
          exact Ne.symm isKey
        simp [linkUnspentUtxo, other]

theorem linkedRow_linkedRow (old : Option UtxoRow) (spender : Option String)
    (first row : UtxoRow) :
    linkedRow (some (linkedRow old spender first)) spender row = linkedRow old spender row := by
  simp [linkedRow, Option.or_assoc, Option.or_self]

theorem find_foldl_listUtxo {spender : TxKey × ℤ → Option String} {utxos : List UtxoRow}
    (outpoint : TxKey × ℤ) :
    find UtxoRow.key (record.outputs.foldl (fun utxos output =>
        (listedOutput addresses key record output).elim utxos (listUtxo spender utxos)) utxos)
        outpoint =
      ((listedAt addresses key record outpoint).map
        (linkedRow (find UtxoRow.key utxos outpoint) (spender outpoint))).or
          (find UtxoRow.key utxos outpoint) := by
  unfold listedAt
  induction record.outputs using List.reverseRecOn with
  | nil => rfl
  | append_singleton earlier last ih =>
    rw [List.foldl_append, List.foldl_cons, List.foldl_nil, List.reverse_append,
      List.reverse_singleton, List.singleton_append, List.findSome?_cons]
    cases listed : listedOutput addresses key record last with
    | none => exact ih
    | some row =>
      rw [Option.elim_some, find_listUtxo (listedOutput_spec listed).2, ih]
      by_cases isKey : row.key = outpoint
      · rw [if_pos isKey, Option.filter_some, if_pos (decide_eq_true isKey)]
        cases earlier.reverse.findSome? fun output =>
            (listedOutput addresses key record output).filter fun row => row.key = outpoint with
        | none => simp
        | some first => simp [linkedRow_linkedRow]
      · rw [if_neg isKey, Option.filter_some, if_neg (by simp [isKey])]

theorem reconcileUtxoOutput_eq_ok {db : TransactionTables} {utxos next : List UtxoRow} :
    reconcileUtxoOutput addresses db key record utxos output = .ok next ↔
      UtxoAccepted addresses key record output ∧
        (listedOutput addresses key record output).elim utxos
          (listUtxo (findSpendingTxHash db) utxos) = next := by
  unfold reconcileUtxoOutput UtxoAccepted listedOutput
  cases resolveOwnedAddressId addresses output.rawAddress with
  | none => simp
  | some addressId =>
    cases written : utxoRow key record.status addressId output with
    | error failure => simp [written, bind, Except.bind]
    | ok row =>
      have isKey := (utxoRow_spec written).1
      simp only [written, bind, Except.bind, pure, Except.pure, Option.mem_def,
        Option.some.injEq, forall_eq', Except.ok.injEq, exists_eq', true_and,
        Option.bind_some, Except.toOption, Option.elim_some]
      unfold listUtxo
      rw [isKey]
      cases findSpendingTxHash db (key, output.outputIndex) <;> simp

/-- A record names an outpoint: its row is linked to it, whatever link it had. -/
def spentLink (record : SyncTransactionRecord) (assetId : SyncedAssetId) (network : Network)
    (row : UtxoRow) : UtxoRow :=
  if record.Spends assetId network row.key then
    { row with spentByTxHash := some record.txHash }
  else
    row

/-- The status of a row after a record of its transaction. -/
def droppedRow (key : TxKey) (record : SyncTransactionRecord) (row : UtxoRow) : UtxoRow :=
  if record.status = .dropped then dropUtxo key row else row

@[simp]
theorem spentLink_key (assetId : SyncedAssetId) (network : Network) (row : UtxoRow) :
    (spentLink record assetId network row).key = row.key := by
  unfold spentLink
  split <;> rfl

@[simp]
theorem droppedRow_key (row : UtxoRow) : (droppedRow key record row).key = row.key := by
  unfold droppedRow
  split
  · exact dropUtxo_key row
  · rfl

theorem foldl_linkUtxo (inputs : List SyncTransactionInputRecord) (assetId : SyncedAssetId)
    (network : Network) (spender : String) (row : UtxoRow) :
    inputs.foldl (fun row input => linkUtxo (input.outpoint assetId network) spender row) row =
      if ∃ input ∈ inputs, input.outpoint assetId network = row.key then
        { row with spentByTxHash := some spender }
      else row := by
  induction inputs generalizing row with
  | nil => simp
  | cons first rest ih =>
    rw [List.foldl_cons, ih, linkUtxo_key]
    by_cases isFirst : first.outpoint assetId network = row.key
    · have linked : linkUtxo (first.outpoint assetId network) spender row =
          { row with spentByTxHash := some spender } := if_pos isFirst.symm
      have named : ∃ input ∈ first :: rest, input.outpoint assetId network = row.key :=
        ⟨first, List.mem_cons_self, isFirst⟩
      rw [linked, if_pos named]
      exact ite_self _
    · have kept : linkUtxo (first.outpoint assetId network) spender row = row :=
        if_neg (Ne.symm isFirst)
      simp only [kept, List.exists_mem_cons_iff, isFirst, false_or]

theorem foldl_map_linkUtxo (assetId : SyncedAssetId) (network : Network) (utxos : List UtxoRow) :
    record.inputs.foldl (fun utxos input =>
        utxos.map (linkUtxo (input.outpoint assetId network) record.txHash)) utxos =
      utxos.map (spentLink record assetId network) := by
  have pointwise : ∀ (inputs : List SyncTransactionInputRecord) (utxos : List UtxoRow),
      inputs.foldl (fun utxos input =>
          utxos.map (linkUtxo (input.outpoint assetId network) record.txHash)) utxos =
        utxos.map fun row => inputs.foldl (fun row input =>
          linkUtxo (input.outpoint assetId network) record.txHash row) row := by
    intro inputs
    induction inputs with
    | nil => intro utxos; simp
    | cons first rest ih =>
      intro utxos
      rw [List.foldl_cons, ih, List.map_map]
      rfl
  rw [pointwise]
  apply List.map_congr_left
  intro row _
  exact foldl_linkUtxo record.inputs assetId network record.txHash row

theorem reconcileUtxosForTransaction_eq_ok {db : TransactionTables} {utxos next : List UtxoRow} :
    reconcileUtxosForTransaction addresses db key record utxos = .ok next ↔
      (∀ output ∈ record.outputs, UtxoAccepted addresses key record output) ∧
        ((record.outputs.foldl (fun utxos output =>
          (listedOutput addresses key record output).elim utxos
            (listUtxo (findSpendingTxHash db) utxos)) utxos).map
              (spentLink record key.assetId key.network)).map (droppedRow key record) = next := by
  unfold reconcileUtxosForTransaction
  rw [bind_eq_ok]
  simp only [foldl_map_linkUtxo]
  constructor
  · rintro ⟨listed, done, finish⟩
    obtain ⟨accepted, rfl⟩ := (foldlM_eq_ok (reconcileUtxoOutput addresses db key record)
      (fun utxos output => (listedOutput addresses key record output).elim utxos
        (listUtxo (findSpendingTxHash db) utxos)) fun _ _ _ => reconcileUtxoOutput_eq_ok).mp done
    refine ⟨accepted, ?_⟩
    unfold droppedRow
    split at finish <;> rename_i dropped
    · simpa only [dropped, ↓reduceIte, pure_eq_ok] using finish
    · simpa only [dropped, ↓reduceIte, pure_eq_ok, List.map_id'] using finish
  · rintro ⟨accepted, finish⟩
    refine ⟨_, (foldlM_eq_ok (reconcileUtxoOutput addresses db key record)
      (fun utxos output => (listedOutput addresses key record output).elim utxos
        (listUtxo (findSpendingTxHash db) utxos))
      fun _ _ _ => reconcileUtxoOutput_eq_ok).mpr ⟨accepted, rfl⟩, ?_⟩
    unfold droppedRow at finish
    split <;> rename_i dropped
    · simpa only [dropped, ↓reduceIte, pure_eq_ok] using finish
    · simpa only [dropped, ↓reduceIte, pure_eq_ok, List.map_id'] using finish

end Utxos

/-! ## Cleanup -/

section Cleanup

variable {db : TransactionTables} {key : TxKey}

theorem executeChainCleanup_tables :
    (executeChainCleanup key db).1.transactionInputs = db.transactionInputs ∧
      (executeChainCleanup key db).1.transactionOutputs = db.transactionOutputs ∧
      (executeChainCleanup key db).1.utxos = db.utxos := by
  unfold executeChainCleanup
  dsimp only
  split <;> exact ⟨rfl, rfl, rfl⟩

theorem executeChainCleanup_transfers :
    (executeChainCleanup key db).1.accountTransfers = db.accountTransfers.filter fun row =>
      ¬ (row.txKey = key ∧ row.fromAddressId = none ∧ row.toAddressId = none) := by
  unfold executeChainCleanup
  dsimp only
  split <;> rfl

theorem find_executeChainCleanup (k : TxKey) :
    find ChainTransactionRow.key (executeChainCleanup key db).1.chainTransactions k =
      if k = key ∧ (executeChainCleanup key db).1.isOrphan key = true then none
      else find ChainTransactionRow.key db.chainTransactions k := by
  unfold executeChainCleanup
  dsimp only
  split <;> rename_i orphan
  · have kept := @find_filter_key _ _ _ ChainTransactionRow.key db.chainTransactions k
      fun k => k ≠ key
    simp only [ne_eq, decide_not, Bool.not_eq_eq_eq_not, Bool.not_true,
      decide_eq_false_iff_not] at kept
    have still : ({ db with
        accountTransfers := db.accountTransfers.filter fun row =>
          ¬ (row.txKey = key ∧ row.fromAddressId = none ∧ row.toAddressId = none)
        chainTransactions := db.chainTransactions.filter fun row => row.key ≠ key } :
          TransactionTables).isOrphan key = true := orphan
    rw [still]
    by_cases same : k = key
    · simpa [same] using kept
    · simpa [same] using kept
  · rw [if_neg fun both => orphan both.2]

theorem keyed_executeChainCleanup (unique : db.Unique) :
    (executeChainCleanup key db).1.Unique := by
  unfold executeChainCleanup
  dsimp only
  split
  · exact ⟨unique.chainTransactions.filter _, unique.transactionInputs, unique.transactionOutputs,
      unique.utxos, unique.accountTransfers.filter _⟩
  · exact ⟨unique.chainTransactions, unique.transactionInputs, unique.transactionOutputs,
      unique.utxos, unique.accountTransfers.filter _⟩

end Cleanup

/-! ## One record -/

section Write

variable (toRfc3339 : ℤ → String) (addresses : List AddressRow) (assetId : SyncedAssetId)
  (network : Network) (record : SyncTransactionRecord)

/-- A record passes the checks of every table. -/
structure RecordAccepted : Prop where
  chain : checkNonnegative [record.blockHeight, record.feeAmount]
    "Failed to upsert chain transaction" = .ok ()
  inputs : ∀ input ∈ record.inputs, InputAccepted addresses (record.key assetId network) input
  outputs : ∀ output ∈ record.outputs,
    OutputAccepted addresses (record.key assetId network) output
  utxos : ∀ output ∈ record.outputs,
    UtxoAccepted addresses (record.key assetId network) record output

/-- The tables before the cleanup and the unspent outputs. -/
def replacedTables (db : TransactionTables) : TransactionTables where
  chainTransactions := upsert ChainTransactionRow.key replaceRow
    (chainTransactionRow toRfc3339 (record.key assetId network) record) db.chainTransactions
  transactionInputs := replaceGroup TransactionInputRow.key (record.key assetId network)
    SyncTransactionInputRecord.inputIndex (storedInput addresses (record.key assetId network))
    record.inputs db.transactionInputs
  transactionOutputs := replaceGroup TransactionOutputRow.key (record.key assetId network)
    SyncTransactionOutputRecord.outputIndex (storedOutput addresses (record.key assetId network))
    record.outputs db.transactionOutputs
  utxos := db.utxos
  accountTransfers := db.accountTransfers

/-- The tables after the cleanup. -/
def cleanedTables (db : TransactionTables) : TransactionTables :=
  (executeChainCleanup (record.key assetId network)
    (replacedTables toRfc3339 addresses assetId network record db)).1

/-- The tables a record leaves. -/
def writtenTables (db : TransactionTables) : TransactionTables :=
  let cleaned := cleanedTables toRfc3339 addresses assetId network record db
  { cleaned with
    utxos := ((record.outputs.foldl (fun utxos output =>
      (listedOutput addresses (record.key assetId network) record output).elim utxos
        (listUtxo (findSpendingTxHash cleaned) utxos)) cleaned.utxos).map
          (spentLink record assetId network)).map
            (droppedRow (record.key assetId network) record) }

variable {toRfc3339 addresses assetId network record} {db tables : TransactionTables}
  {deleted : Bool}

theorem writeTransaction_eq_ok :
    writeTransaction toRfc3339 addresses assetId network record db = .ok (tables, deleted) ↔
      RecordAccepted addresses assetId network record ∧
        writtenTables toRfc3339 addresses assetId network record db = tables ∧
        (executeChainCleanup (record.key assetId network)
          (replacedTables toRfc3339 addresses assetId network record db)).2 = deleted := by
  unfold writeTransaction
  dsimp only
  constructor
  · intro done
    obtain ⟨chain, chainDone, done⟩ := bind_eq_ok.mp done
    obtain ⟨inputs, inputsDone, done⟩ := bind_eq_ok.mp done
    obtain ⟨outputs, outputsDone, done⟩ := bind_eq_ok.mp done
    obtain ⟨utxos, utxosDone, done⟩ := bind_eq_ok.mp done
    obtain ⟨_, chainChecked, chainDone⟩ := bind_eq_ok.mp chainDone
    rw [pure_eq_ok] at chainDone done
    obtain ⟨inputsAccepted, rfl⟩ := upsertTransactionInputs_eq_ok.mp inputsDone
    obtain ⟨outputsAccepted, rfl⟩ := upsertTransactionOutputs_eq_ok.mp outputsDone
    obtain ⟨utxosAccepted, rfl⟩ := reconcileUtxosForTransaction_eq_ok.mp utxosDone
    subst chainDone
    obtain ⟨isTables, isDeleted⟩ := Prod.mk.inj done
    exact ⟨⟨chainChecked, inputsAccepted, outputsAccepted, utxosAccepted⟩, isTables, isDeleted⟩
  · rintro ⟨accepted, isTables, isDeleted⟩
    apply bind_eq_ok.mpr
    refine ⟨_, bind_eq_ok.mpr ⟨(), accepted.chain, rfl⟩, ?_⟩
    apply bind_eq_ok.mpr
    refine ⟨_, upsertTransactionInputs_eq_ok.mpr ⟨accepted.inputs, rfl⟩, ?_⟩
    apply bind_eq_ok.mpr
    refine ⟨_, upsertTransactionOutputs_eq_ok.mpr ⟨accepted.outputs, rfl⟩, ?_⟩
    apply bind_eq_ok.mpr
    refine ⟨_, reconcileUtxosForTransaction_eq_ok.mpr ⟨accepted.utxos, rfl⟩, ?_⟩
    rw [pure_eq_ok, ← isTables, ← isDeleted]
    rfl

theorem find_writtenTables_inputs (k : TxKey) (i : ℤ) :
    find TransactionInputRow.key
        (writtenTables toRfc3339 addresses assetId network record db).transactionInputs (k, i) =
      if k = record.key assetId network then inputAt addresses k record.inputs i
      else find TransactionInputRow.key db.transactionInputs (k, i) := by
  have kept : (writtenTables toRfc3339 addresses assetId network record db).transactionInputs =
      _ := executeChainCleanup_tables.1
  rw [kept]
  apply (find_replaceGroup (fun _ _ stored => storedInput_key stored) _ _ _ _).trans
  split <;> rename_i same
  · rw [same]
    rfl
  · rfl

theorem find_writtenTables_outputs (k : TxKey) (i : ℤ) :
    find TransactionOutputRow.key
        (writtenTables toRfc3339 addresses assetId network record db).transactionOutputs (k, i) =
      if k = record.key assetId network then outputAt addresses k record.outputs i
      else find TransactionOutputRow.key db.transactionOutputs (k, i) := by
  have kept : (writtenTables toRfc3339 addresses assetId network record db).transactionOutputs =
      _ := executeChainCleanup_tables.2.1
  rw [kept]
  apply (find_replaceGroup (fun _ _ stored => storedOutput_key stored) _ _ _ _).trans
  split <;> rename_i same
  · rw [same]
    rfl
  · rfl

theorem filter_writtenTables_inputs {keep : TransactionInputRow → Bool}
    (dropped : ∀ row, row.txKey = record.key assetId network → keep row = false) :
    (writtenTables toRfc3339 addresses assetId network record db).transactionInputs.filter keep =
      db.transactionInputs.filter keep := by
  have kept : (writtenTables toRfc3339 addresses assetId network record db).transactionInputs =
      _ := executeChainCleanup_tables.1
  rw [kept]
  exact filter_replaceGroup (fun _ _ stored => storedInput_key stored) dropped _

theorem filter_writtenTables_outputs {keep : TransactionOutputRow → Bool}
    (dropped : ∀ row, row.txKey = record.key assetId network → keep row = false) :
    (writtenTables toRfc3339 addresses assetId network record db).transactionOutputs.filter keep =
      db.transactionOutputs.filter keep := by
  have kept : (writtenTables toRfc3339 addresses assetId network record db).transactionOutputs =
      _ := executeChainCleanup_tables.2.1
  rw [kept]
  exact filter_replaceGroup (fun _ _ stored => storedOutput_key stored) dropped _

theorem find_writtenTables_chain (k : TxKey) :
    find ChainTransactionRow.key
        (writtenTables toRfc3339 addresses assetId network record db).chainTransactions k =
      if k = record.key assetId network then
        if (writtenTables toRfc3339 addresses assetId network record db).isOrphan k = true then none
        else some (chainTransactionRow toRfc3339 k record)
      else find ChainTransactionRow.key db.chainTransactions k := by
  apply (find_executeChainCleanup k).trans
  have orphanSame : (writtenTables toRfc3339 addresses assetId network record db).isOrphan k =
    (executeChainCleanup (record.key assetId network)
      (replacedTables toRfc3339 addresses assetId network record db)).1.isOrphan k := rfl
  rw [orphanSame]
  by_cases same : k = record.key assetId network
  · subst same
    rw [if_pos rfl]
    simp only [true_and]
    split
    · rfl
    · have found : find ChainTransactionRow.key (upsert ChainTransactionRow.key replaceRow
          (chainTransactionRow toRfc3339 (record.key assetId network) record)
          db.chainTransactions) (record.key assetId network) = _ :=
        find_upsert_self fun _ _ => rfl
      apply found.trans
      cases find ChainTransactionRow.key db.chainTransactions
        (chainTransactionRow toRfc3339 (record.key assetId network) record).key <;> rfl
  · rw [if_neg same, if_neg fun both => same both.1]
    exact find_upsert_of_ne (fun _ _ => rfl) (Ne.symm same)

theorem writtenTables_transfers :
    (writtenTables toRfc3339 addresses assetId network record db).accountTransfers =
      db.accountTransfers.filter fun row =>
        ¬ (row.txKey = record.key assetId network ∧ row.fromAddressId = none ∧
          row.toAddressId = none) :=
  executeChainCleanup_transfers

theorem unique_writtenTables (unique : db.Unique) :
    (writtenTables toRfc3339 addresses assetId network record db).Unique := by
  have replaced : (replacedTables toRfc3339 addresses assetId network record db).Unique :=
    ⟨unique.chainTransactions.upsert fun _ _ => rfl, unique.transactionInputs.replaceGroup _,
      unique.transactionOutputs.replaceGroup _, unique.utxos, unique.accountTransfers⟩
  have cleaned : (cleanedTables toRfc3339 addresses assetId network record db).Unique :=
    keyed_executeChainCleanup replaced
  refine ⟨cleaned.chainTransactions, cleaned.transactionInputs, cleaned.transactionOutputs, ?_,
    cleaned.accountTransfers⟩
  apply Keyed.map _ droppedRow_key
  apply Keyed.map _ (spentLink_key _ _)
  apply Keyed.foldl _ _ cleaned.utxos
  intro utxos output keyed
  cases listedOutput addresses (record.key assetId network) record output with
  | none => exact keyed
  | some row =>
    rw [Option.elim_some]
    unfold listUtxo
    split
    · exact keyed.upsert fun _ _ => rfl
    · exact (keyed.upsert fun _ _ => rfl).map (linkUnspentUtxo_key _ _)

end Write

/-! ## Unspent outputs after a record -/

section Spent
variable (addresses : List AddressRow) (assetId : SyncedAssetId) (network : Network)
  (record : SyncTransactionRecord) (db : TransactionTables)

/-- The first stored input of another transaction that names an outpoint. -/
def earlierSpender (key : TxKey) (outpoint : TxKey × ℤ) : Option String :=
  (db.transactionInputs.find? fun row => row.txKey ≠ key ∧ row.outpoint = outpoint ∧
    (find ChainTransactionRow.key db.chainTransactions row.txKey).isSome).map (·.txKey.txHash)

/-- The unspent output of an outpoint after a record. -/
def utxoAfter (outpoint : TxKey × ℤ) : Option UtxoRow :=
  let key := record.key assetId network
  let old := find UtxoRow.key db.utxos outpoint
  (((listedAt addresses key record outpoint).map
    (linkedRow old (earlierSpender db key outpoint))).or old).map fun row =>
      droppedRow key record (spentLink record assetId network row)

variable {toRfc3339 : ℤ → String} {addresses assetId network record db}

theorem mem_writtenTables_inputs (unique : db.Unique) {row : TransactionInputRow} :
    row ∈ (writtenTables toRfc3339 addresses assetId network record db).transactionInputs ↔
      if row.txKey = record.key assetId network then
        inputAt addresses row.txKey record.inputs row.inputIndex = some row
      else row ∈ db.transactionInputs :=
  mem_of_find_replaced unique.transactionInputs
    (unique_writtenTables unique).transactionInputs find_writtenTables_inputs

theorem inputAt_eq_some {key : TxKey} {inputs : List SyncTransactionInputRecord} {i : ℤ}
    {row : TransactionInputRow} (stored : inputAt addresses key inputs i = some row) :
    ∃ input ∈ inputs, input.inputIndex = i ∧ storedInput addresses key input = some row :=
  last_bind_eq_some stored

theorem mem_writtenTables_outputs (unique : db.Unique) {row : TransactionOutputRow} :
    row ∈ (writtenTables toRfc3339 addresses assetId network record db).transactionOutputs ↔
      if row.txKey = record.key assetId network then
        outputAt addresses row.txKey record.outputs row.outputIndex = some row
      else row ∈ db.transactionOutputs :=
  mem_of_find_replaced unique.transactionOutputs
    (unique_writtenTables unique).transactionOutputs find_writtenTables_outputs

theorem outputAt_eq_some {key : TxKey} {outputs : List SyncTransactionOutputRecord} {i : ℤ}
    {row : TransactionOutputRow} (stored : outputAt addresses key outputs i = some row) :
    ∃ output ∈ outputs, output.outputIndex = i ∧ storedOutput addresses key output = some row :=
  last_bind_eq_some stored

theorem spends_of_stored (unique : db.Unique) {row : TransactionInputRow}
    (member : row ∈ (writtenTables toRfc3339 addresses assetId network record db).transactionInputs)
    (own : row.txKey = record.key assetId network) :
    record.Spends assetId network row.outpoint := by
  rw [mem_writtenTables_inputs unique, if_pos own] at member
  obtain ⟨input, inRecord, _, stored⟩ := inputAt_eq_some member
  refine ⟨input, inRecord, ?_⟩
  rw [storedInput_outpoint stored, own]
  rfl

theorem findSpendingTxHash_writtenTables (unique : db.Unique) {outpoint : TxKey × ℤ}
    (unnamed : ¬ record.Spends assetId network outpoint) :
    findSpendingTxHash (cleanedTables toRfc3339 addresses assetId network record db) outpoint =
      earlierSpender db (record.key assetId network) outpoint := by
  unfold findSpendingTxHash earlierSpender
  congr 1
  rw [← List.head?_filter, ← List.head?_filter]
  have others : (cleanedTables toRfc3339 addresses assetId network record
        db).transactionInputs.filter (fun row => row.outpoint = outpoint ∧
          (find ChainTransactionRow.key (cleanedTables toRfc3339 addresses assetId network record
            db).chainTransactions row.txKey).isSome) =
      (cleanedTables toRfc3339 addresses assetId network record db).transactionInputs.filter
        fun row => row.txKey ≠ record.key assetId network ∧ row.outpoint = outpoint ∧
          (find ChainTransactionRow.key db.chainTransactions row.txKey).isSome := by
    apply List.filter_congr
    intro row member
    by_cases own : row.txKey = record.key assetId network
    · have other : row.outpoint ≠ outpoint := by
        intro same
        exact unnamed (same ▸ spends_of_stored unique member own)
      simp [other, own]
    · have same : find ChainTransactionRow.key (cleanedTables toRfc3339 addresses assetId network
          record db).chainTransactions row.txKey =
            find ChainTransactionRow.key db.chainTransactions row.txKey :=
        (find_writtenTables_chain row.txKey).trans (if_neg own)
      rw [same]
      simp [own]
  rw [others]
  congr 1
  apply filter_writtenTables_inputs
  intro row own
  simp [own]

theorem spentLink_linkedRow {old : Option UtxoRow} {first second : Option String} {row : UtxoRow}
    (named : record.Spends assetId network row.key) :
    spentLink record assetId network (linkedRow old first row) =
      spentLink record assetId network (linkedRow old second row) :=
  (if_pos named).trans (if_pos named).symm

theorem listedAt_key {key : TxKey} {outpoint : TxKey × ℤ} {row : UtxoRow}
    (listed : listedAt addresses key record outpoint = some row) : row.key = outpoint := by
  obtain ⟨output, _, isRow⟩ := List.exists_of_findSome?_eq_some listed
  exact of_decide_eq_true (Option.filter_eq_some_iff.mp isRow).2

theorem find_writtenTables_utxos (unique : db.Unique) (outpoint : TxKey × ℤ) :
    find UtxoRow.key (writtenTables toRfc3339 addresses assetId network record db).utxos outpoint =
      utxoAfter addresses assetId network record db outpoint := by
  have untouched : (cleanedTables toRfc3339 addresses assetId network record db).utxos =
      db.utxos := executeChainCleanup_tables.2.2
  unfold writtenTables utxoAfter
  dsimp only
  rw [find_map droppedRow_key, find_map (spentLink_key _ _), find_foldl_listUtxo, untouched,
    Option.map_map]
  by_cases named : record.Spends assetId network outpoint
  · cases listed : listedAt addresses (record.key assetId network) record outpoint with
    | none => rfl
    | some row =>
      have isKey := listedAt_key listed
      simp only [Option.map_some, Option.some_or, Function.comp_apply]
      rw [spentLink_linkedRow (isKey.symm ▸ named)]
  · rw [findSpendingTxHash_writtenTables unique named]
    rfl

end Spent

end Bitgarth.Store
