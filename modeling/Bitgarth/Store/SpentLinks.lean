import Bitgarth.Store.ReconcileRuns

/-! # Spent links

An unspent output that is linked to a spender should be spent by a stored transaction that is
not dropped and has an input naming it. A record sets links at the outpoints it names and at
the outputs it lists, and clears none; what it needs for the links to stay backed is a
condition on the record and the tables before it.
-/

namespace Bitgarth.Store

open Amounts Ledger KeyedTable Fallible Reachability

open Sync (SyncedAssetId)

/-! ## Backed links -/

/-- A stored transaction that is not dropped has an input naming the outpoint. -/
def TransactionTables.SpentBy (db : TransactionTables) (outpoint : TxKey × ℤ)
    (spender : String) : Prop :=
  ∃ chain ∈ db.chainTransactions,
    chain.key = { outpoint.1 with txHash := spender } ∧ chain.status ≠ .dropped ∧
      ∃ row ∈ db.transactionInputs, row.txKey = chain.key ∧ row.outpoint = outpoint

instance (db : TransactionTables) (outpoint : TxKey × ℤ) (spender : String) :
    Decidable (db.SpentBy outpoint spender) :=
  inferInstanceAs (Decidable (∃ chain ∈ db.chainTransactions, _))

/-- Every spent link is to such a transaction. -/
def TransactionTables.LiveLinks (db : TransactionTables) : Prop :=
  ∀ utxo ∈ db.utxos, ∀ spender ∈ utxo.spentByTxHash, db.SpentBy utxo.key spender

instance (db : TransactionTables) : Decidable db.LiveLinks :=
  inferInstanceAs (Decidable (∀ utxo ∈ db.utxos, ∀ spender ∈ utxo.spentByTxHash, _))

section Records

variable (addresses : List AddressRow) (assetId : SyncedAssetId) (network : Network)
  (record : SyncTransactionRecord)

/-- The record has an output of a tracked address at the outpoint. -/
def Lists (outpoint : TxKey × ℤ) : Prop :=
  ∃ output ∈ record.outputs, (record.key assetId network, output.outputIndex) = outpoint ∧
    (resolveOwnedAddressId addresses output.rawAddress).isSome

instance (outpoint : TxKey × ℤ) : Decidable (Lists addresses assetId network record outpoint) :=
  inferInstanceAs (Decidable (∃ output ∈ record.outputs, _))

/-- The record has an input naming the outpoint that is stored: the last of its index, with the
address of the output it spends, which is tracked. -/
def Stores (outpoint : TxKey × ℤ) : Prop :=
  ∃ input ∈ record.inputs, input.outpoint assetId network = outpoint ∧
    (record.inputs.reverse.find? fun other => other.inputIndex = input.inputIndex) = some input ∧
      (resolveOwnedAddressId addresses input.prevAddress).isSome

instance (outpoint : TxKey × ℤ) : Decidable (Stores addresses assetId network record outpoint) :=
  inferInstanceAs (Decidable (∃ input ∈ record.inputs, _))

/-- The links stay backed: the record stores each input that names a listed outpoint and is not
dropped, it still names what was linked to it, and an output it lists finds no dropped
spender. -/
structure LinksStay (db : TransactionTables) : Prop where
  named : ∀ outpoint, record.Spends assetId network outpoint →
    (∃ utxo ∈ db.utxos, utxo.key = outpoint) ∨ Lists addresses assetId network record outpoint →
      record.status ≠ .dropped ∧ Stores addresses assetId network record outpoint
  linked : ∀ utxo ∈ db.utxos, utxo.txKey.InScope assetId network →
    utxo.spentByTxHash = some record.txHash → record.Spends assetId network utxo.key
  earlier : ∀ outpoint, Lists addresses assetId network record outpoint →
    ¬ record.Spends assetId network outpoint →
      (∀ utxo ∈ db.utxos, utxo.key = outpoint → utxo.spentByTxHash = none) →
        ∀ spender ∈ earlierSpender db (record.key assetId network) outpoint,
          ∃ chain ∈ db.chainTransactions,
            chain.key = { outpoint.1 with txHash := spender } ∧ chain.status ≠ .dropped

end Records

/-! ## Tables read by key -/

section Reading

variable {db : TransactionTables}

theorem spentBy_iff (unique : db.Unique) {outpoint : TxKey × ℤ} {spender : String} :
    db.SpentBy outpoint spender ↔
      (∃ chain, find ChainTransactionRow.key db.chainTransactions
          { outpoint.1 with txHash := spender } = some chain ∧ chain.status ≠ .dropped) ∧
        ∃ row ∈ db.transactionInputs,
          row.txKey = { outpoint.1 with txHash := spender } ∧ row.outpoint = outpoint := by
  constructor
  · rintro ⟨chain, member, isKey, live, row, stored, ofChain, names⟩
    exact ⟨⟨chain, (find_eq_some_iff unique.chainTransactions).mpr ⟨member, isKey⟩, live⟩, row,
      stored, ofChain.trans isKey, names⟩
  · rintro ⟨⟨chain, found, live⟩, row, stored, ofChain, names⟩
    have isKey := find_eq_some_key found
    exact ⟨chain, mem_of_find found, isKey, live, row, stored, ofChain.trans isKey.symm, names⟩

theorem liveLinks_iff (unique : db.Unique) :
    db.LiveLinks ↔ ∀ outpoint utxo, find UtxoRow.key db.utxos outpoint = some utxo →
      ∀ spender ∈ utxo.spentByTxHash, db.SpentBy outpoint spender := by
  constructor
  · intro live outpoint utxo found
    obtain rfl := find_eq_some_key found
    exact live utxo (mem_of_find found)
  · intro live utxo member
    exact live utxo.key utxo ((find_key_eq_some_iff unique.utxos).mpr member)

end Reading

section Step

variable {toRfc3339 : ℤ → String} {addresses : List AddressRow} {assetId : SyncedAssetId}
  {network : Network} {record : SyncTransactionRecord} {db : TransactionTables}

theorem stores_iff (accepted : RecordAccepted addresses assetId network record)
    {outpoint : TxKey × ℤ} :
    Stores addresses assetId network record outpoint ↔
      ∃ i row, inputAt addresses (record.key assetId network) record.inputs i = some row ∧
        row.outpoint = outpoint := by
  constructor
  · rintro ⟨input, inRecord, names, isLast, owned⟩
    obtain ⟨addressId, resolved⟩ := Option.isSome_iff_exists.mp owned
    obtain ⟨row, written⟩ := accepted.inputs input inRecord addressId resolved
    have stored : storedInput addresses (record.key assetId network) input = some row :=
      storedInput_eq_some.mpr ⟨addressId, resolved, written⟩
    refine ⟨input.inputIndex, row, ?_, (storedInput_outpoint stored).trans names⟩
    unfold inputAt
    rw [isLast]
    exact stored
  · rintro ⟨i, row, isAt, names⟩
    obtain ⟨input, isLast, stored⟩ := Option.bind_eq_some_iff.mp isAt
    obtain rfl : input.inputIndex = i := of_decide_eq_true (List.find?_some isLast :)
    obtain ⟨addressId, resolved, _⟩ := storedInput_eq_some.mp stored
    exact ⟨input, List.mem_reverse.mp (List.mem_of_find?_eq_some isLast),
      (storedInput_outpoint stored).symm.trans names, isLast,
      Option.isSome_iff_exists.mpr ⟨addressId, resolved⟩⟩

theorem lists_iff (accepted : RecordAccepted addresses assetId network record)
    {outpoint : TxKey × ℤ} :
    Lists addresses assetId network record outpoint ↔
      (listedAt addresses (record.key assetId network) record outpoint).isSome := by
  unfold listedAt
  rw [List.findSome?_isSome_iff]
  constructor
  · rintro ⟨output, inRecord, isOutpoint, owned⟩
    obtain ⟨addressId, resolved⟩ := Option.isSome_iff_exists.mp owned
    obtain ⟨row, written⟩ := accepted.utxos output inRecord addressId resolved
    have listed : listedOutput addresses (record.key assetId network) record output = some row :=
      listedOutput_eq_some.mpr ⟨addressId, resolved, written⟩
    refine ⟨output, List.mem_reverse.mpr inRecord, ?_⟩
    rw [listed, Option.filter_some,
      if_pos (decide_eq_true ((listedOutput_spec listed).1.trans isOutpoint))]
    rfl
  · rintro ⟨output, inRecord, listed⟩
    obtain ⟨row, isRow⟩ := Option.isSome_iff_exists.mp listed
    obtain ⟨isListed, isOutpoint⟩ := Option.filter_eq_some_iff.mp isRow
    obtain ⟨addressId, resolved, _⟩ := listedOutput_eq_some.mp isListed
    exact ⟨output, List.mem_reverse.mp inRecord,
      (listedOutput_spec isListed).1.symm.trans (of_decide_eq_true isOutpoint),
      Option.isSome_iff_exists.mpr ⟨addressId, resolved⟩⟩

theorem not_isOrphan_of_input {key : TxKey} {row : TransactionInputRow}
    (member : row ∈ db.transactionInputs) (own : row.txKey = key) : db.isOrphan key = false := by
  unfold TransactionTables.isOrphan
  rw [Bool.and_eq_false_iff, Bool.and_eq_false_iff, List.all_eq_false]
  exact .inl (.inl ⟨row, member, by simp [own]⟩)

theorem spentBy_writtenTables (unique : db.Unique)
    (accepted : RecordAccepted addresses assetId network record) {outpoint : TxKey × ℤ}
    {spender : String} :
    (writtenTables toRfc3339 addresses assetId network record db).SpentBy outpoint spender ↔
      if ({ outpoint.1 with txHash := spender } : TxKey) = record.key assetId network then
        record.status ≠ .dropped ∧ Stores addresses assetId network record outpoint
      else db.SpentBy outpoint spender := by
  rw [spentBy_iff (unique_writtenTables unique), find_writtenTables_chain]
  split <;> rename_i own
  · rw [own, stores_iff accepted]
    constructor
    · rintro ⟨⟨chain, found, live⟩, row, member, ofOwn, names⟩
      split at found
      · cases found
      · obtain rfl := Option.some.inj found
        rw [mem_writtenTables_inputs unique, if_pos ofOwn, ofOwn] at member
        exact ⟨live, _, row, member, names⟩
    · rintro ⟨live, i, row, isAt, names⟩
      obtain ⟨input, _, isIndex, stored⟩ := inputAt_eq_some isAt
      obtain ⟨isKey, isRowIndex⟩ := Prod.mk.inj (storedInput_key stored)
      have member : row ∈
          (writtenTables toRfc3339 addresses assetId network record db).transactionInputs := by
        rw [mem_writtenTables_inputs unique, if_pos isKey, isKey, isRowIndex, isIndex]
        exact isAt
      rw [not_isOrphan_of_input member isKey]
      exact ⟨⟨_, rfl, live⟩, row, member, isKey, names⟩
  · rw [spentBy_iff unique]
    have sameInputs : (∃ row ∈
        (writtenTables toRfc3339 addresses assetId network record db).transactionInputs,
          row.txKey = { outpoint.1 with txHash := spender } ∧ row.outpoint = outpoint) ↔
        ∃ row ∈ db.transactionInputs,
          row.txKey = { outpoint.1 with txHash := spender } ∧ row.outpoint = outpoint := by
      apply exists_congr
      intro row
      rw [mem_writtenTables_inputs unique]
      apply and_congr_left
      rintro ⟨ofSpender, _⟩
      rw [if_neg (ofSpender ▸ own)]
    rw [sameInputs]

@[simp]
theorem droppedRow_spentByTxHash (key : TxKey) (row : UtxoRow) :
    (droppedRow key record row).spentByTxHash = row.spentByTxHash := by
  unfold droppedRow dropUtxo
  split
  · split <;> rfl
  · rfl

theorem spentLink_spentByTxHash (row : UtxoRow) :
    (spentLink record assetId network row).spentByTxHash =
      if record.Spends assetId network row.key then some record.txHash
      else row.spentByTxHash := by
  unfold spentLink
  split <;> rfl

@[simp]
theorem linkedRow_key (old : Option UtxoRow) (spender : Option String) (row : UtxoRow) :
    (linkedRow old spender row).key = row.key := rfl

/-- The link of an outpoint after a record. -/
def linkAfter (addresses : List AddressRow) (assetId : SyncedAssetId) (network : Network)
    (record : SyncTransactionRecord) (db : TransactionTables) (outpoint : TxKey × ℤ) :
    Option String :=
  let old := (find UtxoRow.key db.utxos outpoint).bind (·.spentByTxHash)
  if record.Spends assetId network outpoint then
    some record.txHash
  else if (listedAt addresses (record.key assetId network) record outpoint).isSome then
    old.or (earlierSpender db (record.key assetId network) outpoint)
  else
    old

theorem utxoAfter_link (outpoint : TxKey × ℤ) :
    (utxoAfter addresses assetId network record db outpoint).map (·.spentByTxHash) =
      if (find UtxoRow.key db.utxos outpoint).isSome ∨
          (listedAt addresses (record.key assetId network) record outpoint).isSome then
        some (linkAfter addresses assetId network record db outpoint)
      else none := by
  unfold utxoAfter linkAfter
  dsimp only
  cases listed : listedAt addresses (record.key assetId network) record outpoint with
  | some row =>
    have isKey := listedAt_key listed
    simp only [Option.map_some, Option.some_or, droppedRow_spentByTxHash,
      spentLink_spentByTxHash, linkedRow_key, isKey, Option.isSome_some, or_true, ↓reduceIte]
    rfl
  | none =>
    cases found : find UtxoRow.key db.utxos outpoint with
    | none => rfl
    | some row =>
      have isKey := find_eq_some_key found
      simp only [Option.map_none, Option.none_or, Option.map_some, droppedRow_spentByTxHash,
        spentLink_spentByTxHash, isKey, Option.isSome_some, true_or, ↓reduceIte,
        Option.isSome_none, Bool.false_eq_true, Option.bind_some]

theorem earlierSpender_spec {key : TxKey} {outpoint : TxKey × ℤ} {spender : String}
    (found : earlierSpender db key outpoint = some spender) :
    ({ outpoint.1 with txHash := spender } : TxKey) ≠ key ∧
      ∃ row ∈ db.transactionInputs,
        row.txKey = { outpoint.1 with txHash := spender } ∧ row.outpoint = outpoint := by
  obtain ⟨row, isRow, rfl⟩ := Option.map_eq_some_iff.mp found
  have member := List.mem_of_find?_eq_some isRow
  obtain ⟨other, names, _⟩ := of_decide_eq_true (List.find?_some isRow :)
  have isKey : ({ outpoint.1 with txHash := row.txKey.txHash } : TxKey) = row.txKey := by
    rw [← names]
    rfl
  exact ⟨isKey ▸ other, row, member, isKey.symm, names⟩

theorem SyncTransactionRecord.Spends.scope {outpoint : TxKey × ℤ}
    (names : record.Spends assetId network outpoint) :
    ({ outpoint.1 with txHash := record.txHash } : TxKey) = record.key assetId network := by
  obtain ⟨input, _, rfl⟩ := names
  rfl

theorem linkAfter_of_spends {outpoint : TxKey × ℤ}
    (names : record.Spends assetId network outpoint) :
    linkAfter addresses assetId network record db outpoint = some record.txHash :=
  if_pos names

theorem linkAfter_of_linked {outpoint : TxKey × ℤ} {spender : String}
    (unnamed : ¬ record.Spends assetId network outpoint)
    (linked : (find UtxoRow.key db.utxos outpoint).bind (·.spentByTxHash) = some spender) :
    linkAfter addresses assetId network record db outpoint = some spender := by
  unfold linkAfter
  dsimp only
  rw [if_neg unnamed, linked]
  split <;> rfl

theorem linkAfter_of_listed (accepted : RecordAccepted addresses assetId network record)
    {outpoint : TxKey × ℤ} (unnamed : ¬ record.Spends assetId network outpoint)
    (unlinked : (find UtxoRow.key db.utxos outpoint).bind (·.spentByTxHash) = none)
    (lists : Lists addresses assetId network record outpoint) :
    linkAfter addresses assetId network record db outpoint =
      earlierSpender db (record.key assetId network) outpoint := by
  unfold linkAfter
  dsimp only
  rw [if_neg unnamed, if_pos ((lists_iff accepted).mp lists), unlinked, Option.none_or]

theorem liveLinks_writtenTables (unique : db.Unique)
    (accepted : RecordAccepted addresses assetId network record) :
    (writtenTables toRfc3339 addresses assetId network record db).LiveLinks ↔
      ∀ outpoint, ((find UtxoRow.key db.utxos outpoint).isSome ∨
          Lists addresses assetId network record outpoint) →
        ∀ spender ∈ linkAfter addresses assetId network record db outpoint,
          (writtenTables toRfc3339 addresses assetId network record db).SpentBy outpoint
            spender := by
  rw [liveLinks_iff (unique_writtenTables unique)]
  apply forall_congr'
  intro outpoint
  have link : (utxoAfter addresses assetId network record db outpoint).map _ = _ :=
    utxoAfter_link outpoint
  rw [find_writtenTables_utxos unique, lists_iff accepted]
  constructor
  · intro backed present spender isLink
    rw [if_pos present] at link
    obtain ⟨utxo, after, isAfter⟩ := Option.map_eq_some_iff.mp link
    exact backed utxo after spender (isAfter.symm ▸ isLink)
  · intro backed utxo after spender isLink
    rw [after, Option.map_some] at link
    split at link <;> rename_i present
    · exact backed present spender (Option.some.inj link ▸ isLink)
    · cases link

theorem LinksStay.liveLinks (unique : db.Unique)
    (accepted : RecordAccepted addresses assetId network record) (live : db.LiveLinks)
    (stay : LinksStay addresses assetId network record db) :
    (writtenTables toRfc3339 addresses assetId network record db).LiveLinks := by
  rw [liveLinks_writtenTables unique accepted]
  intro outpoint present spender isLink
  rw [spentBy_writtenTables unique accepted]
  by_cases names : record.Spends assetId network outpoint
  · -- the record links what it names to itself
    rw [linkAfter_of_spends names] at isLink
    obtain rfl := Option.some.inj isLink
    rw [if_pos names.scope]
    apply stay.named outpoint names
    apply present.imp_left
    intro found
    obtain ⟨utxo, isUtxo⟩ := Option.isSome_iff_exists.mp found
    exact ⟨utxo, mem_of_find isUtxo, find_eq_some_key isUtxo⟩
  · cases old : (find UtxoRow.key db.utxos outpoint).bind (·.spentByTxHash) with
    | some linked =>
      -- an older link, which the record may not be the spender of
      rw [linkAfter_of_linked names old] at isLink
      obtain rfl := Option.some.inj isLink
      obtain ⟨utxo, found, isLinked⟩ := Option.bind_eq_some_iff.mp old
      obtain rfl := find_eq_some_key found
      rw [if_neg]
      · exact live utxo (mem_of_find found) linked isLinked
      · intro own
        obtain ⟨asset, scope, hash⟩ := TxKey.mk.inj own
        exact names (stay.linked utxo (mem_of_find found) ⟨asset, scope⟩ (hash ▸ isLinked))
    | none =>
      -- a spender stored earlier
      have lists : Lists addresses assetId network record outpoint := by
        by_contra unlisted
        unfold linkAfter at isLink
        dsimp only at isLink
        rw [if_neg names, if_neg (mt (lists_iff accepted).mpr unlisted), old] at isLink
        cases isLink
      rw [linkAfter_of_listed accepted names old lists] at isLink
      obtain ⟨other, stored⟩ := earlierSpender_spec isLink
      rw [if_neg other, spentBy_iff unique]
      refine ⟨?_, stored⟩
      obtain ⟨chain, member, isKey, notDropped⟩ := stay.earlier outpoint lists names
        (fun utxo member isOutpoint => by
          have found := (find_eq_some_iff unique.utxos).mpr ⟨member, isOutpoint⟩
          rw [found] at old
          exact old) spender isLink
      exact ⟨chain, (find_eq_some_iff unique.chainTransactions).mpr ⟨member, isKey⟩, notDropped⟩

theorem LinksStay.of_liveLinks (unique : db.Unique)
    (accepted : RecordAccepted addresses assetId network record)
    (live : (writtenTables toRfc3339 addresses assetId network record db).LiveLinks) :
    LinksStay addresses assetId network record db := by
  rw [liveLinks_writtenTables unique accepted] at live
  refine ⟨?_, ?_, ?_⟩
  · intro outpoint names present
    have backed := live outpoint (present.imp_left fun ⟨utxo, member, isOutpoint⟩ => by
        rw [(find_eq_some_iff unique.utxos).mpr ⟨member, isOutpoint⟩]
        rfl) record.txHash (linkAfter_of_spends names)
    rw [spentBy_writtenTables unique accepted, if_pos names.scope] at backed
    exact backed
  · intro utxo member inScope linked
    by_contra unnamed
    have found := (find_key_eq_some_iff unique.utxos).mpr member
    have old : (find UtxoRow.key db.utxos utxo.key).bind (·.spentByTxHash) =
        some record.txHash := by
      rw [found]
      exact linked
    have backed := live utxo.key (.inl (by rw [found]; rfl)) record.txHash
      (linkAfter_of_linked unnamed old)
    have own : ({ utxo.key.1 with txHash := record.txHash } : TxKey) =
        record.key assetId network := TxKey.mk.injEq .. ▸ ⟨inScope.1, inScope.2, rfl⟩
    rw [spentBy_writtenTables unique accepted, if_pos own] at backed
    obtain ⟨_, input, inRecord, names, _⟩ := backed
    exact unnamed ⟨input, inRecord, names⟩
  · intro outpoint lists unnamed unlinked spender isEarlier
    have old : (find UtxoRow.key db.utxos outpoint).bind (·.spentByTxHash) = none := by
      cases found : find UtxoRow.key db.utxos outpoint with
      | none => rfl
      | some utxo => exact unlinked utxo (mem_of_find found) (find_eq_some_key found)
    have backed := live outpoint (.inr lists) spender
      ((linkAfter_of_listed accepted unnamed old lists).trans isEarlier)
    rw [spentBy_writtenTables unique accepted, if_neg (earlierSpender_spec isEarlier).1] at backed
    obtain ⟨chain, member, isKey, notDropped, _⟩ := backed
    exact ⟨chain, member, isKey, notDropped⟩

end Step

/-! ## Runs -/

section Runs

variable (toRfc3339 : ℤ → String) (addresses : List AddressRow)

/-- The links stay backed through a reconciliation. -/
def BitcoinStep.LinksStay (step : BitcoinStep) (db : TransactionTables) : Prop :=
  Store.LinksStay addresses step.assetId step.network step.record db

variable {toRfc3339 addresses} {step : BitcoinStep} {start db after : TransactionTables}

theorem BitcoinStep.Commits.liveLinks_iff (unique : db.Unique) (live : db.LiveLinks)
    (commits : step.Commits toRfc3339 addresses db after) :
    after.LiveLinks ↔ step.LinksStay addresses db := by
  obtain ⟨outcome, done, rfl⟩ := commits
  obtain ⟨accepted, isTables, _⟩ := of_applyTransactionReconciliation done
  rw [isTables]
  exact ⟨LinksStay.of_liveLinks unique accepted, LinksStay.liveLinks unique accepted live⟩

/-- In a run whose reconciliations all meet the condition, every link is backed in every state
reached. -/
theorem reached_liveLinks (unique : start.Unique) (live : start.LiveLinks)
    (reached : Reached (BitcoinStep.Commits toRfc3339 addresses)
      (BitcoinStep.LinksStay addresses) start db) : db.LiveLinks := by
  have both : db.Unique ∧ db.LiveLinks := by
    apply reached.invariant ⟨unique, live⟩
    rintro step state after ⟨unique, live⟩ stays commits
    exact ⟨commits.unique unique, (commits.liveLinks_iff unique live).mpr stays⟩
  exact both.2

end Runs

/-! ### A dropped spender -/

/-- One tracked address. -/
def spendAddresses : List AddressRow := [{
  id := "address-1"
  accountId := some "account-1"
  assetId := .bitcoin
  network := .mainnet
  address := "bc1qreceive"
  addressNormalized := "bc1qreceive" }]

/-- A transaction on the Bitcoin main network. -/
def mainnetStep (txHash : String) (status : ChainTransactionStatus)
    (inputs : List SyncTransactionInputRecord) (outputs : List SyncTransactionOutputRecord) :
    BitcoinStep where
  assetId := .bitcoin
  network := .mainnet
  record := {
    txHash
    status
    blockHeight := none
    blockHash := none
    blockTime := none
    feeAmount := none
    inputs
    outputs }

/-- A payment of the address. -/
def fundingStep : BitcoinStep :=
  mainnetStep "aa" .confirmed [] [{
    outputIndex := 0
    rawAddress := some "bc1qreceive"
    scriptPubkeyHex := "0014"
    valueAmount := 50 }]

/-- A transaction that spends the payment. -/
def spendingStep (status : ChainTransactionStatus) : BitcoinStep :=
  mainnetStep "bb" status [{
    inputIndex := 0
    prevTxHash := "aa"
    prevOutputIndex := 0
    prevAddress := some "bc1qreceive"
    valueAmount := some 50 }] []

/-- The tables after some reconciliations. -/
def tablesAfter (steps : List BitcoinStep) : TransactionTables :=
  steps.foldl (BitcoinStep.tables (fun _ => "") spendAddresses) emptyTables

theorem mainnet_steps_commit :
    fundingStep.Commits (fun _ => "") spendAddresses emptyTables (tablesAfter [fundingStep]) ∧
      (spendingStep .pending).Commits (fun _ => "") spendAddresses (tablesAfter [fundingStep])
        (tablesAfter [fundingStep, spendingStep .pending]) ∧
      (spendingStep .dropped).Commits (fun _ => "") spendAddresses
        (tablesAfter [fundingStep, spendingStep .pending])
        (tablesAfter [fundingStep, spendingStep .pending, spendingStep .dropped]) :=
  ⟨BitcoinStep.commits_tables (by decide +kernel), BitcoinStep.commits_tables (by decide +kernel),
    BitcoinStep.commits_tables (by decide +kernel)⟩

theorem reached_liveLinks_pending :
    (tablesAfter [fundingStep, spendingStep .pending]).LiveLinks := by
  obtain ⟨funds, spends, _⟩ := mainnet_steps_commit
  have fundedUnique := funds.unique emptyTables_unique
  have fundedLive : (tablesAfter [fundingStep]).LiveLinks := by decide +kernel
  have first := (funds.liveLinks_iff emptyTables_unique (by decide +kernel)).mp fundedLive
  have second := (spends.liveLinks_iff fundedUnique fundedLive).mp (by decide +kernel)
  exact reached_liveLinks emptyTables_unique (by decide +kernel)
    ((Reached.start.step first funds).step second spends)

/-- A spender that is dropped keeps its link. -/
theorem dropped_spender_stays_linked :
    ∃ db, Reached (BitcoinStep.Commits (fun _ => "") spendAddresses) (fun _ _ => True)
      emptyTables db ∧ ¬ db.LiveLinks := by
  obtain ⟨funds, spends, drops⟩ := mainnet_steps_commit
  refine ⟨_, ((Reached.start.step trivial funds).step trivial spends).step trivial drops, ?_⟩
  decide +kernel

end Bitgarth.Store
