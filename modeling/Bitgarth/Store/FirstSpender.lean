import Bitgarth.Store.PermutedRuns
import Bitgarth.Store.SpentLinks

/-! # Links in another order

The link of an unspent output is set in two places: by the record that spends it, when the
output is listed, and by the record that lists it, when an input naming it is stored. What each
order leaves is decided by which stored input comes first.
-/

namespace Bitgarth.Store

open Amounts Ledger KeyedTable Fallible

open Sync (SyncedAssetId)

/-! ## An unspent output and its link -/

section Rows

/-- An unspent output without its link. -/
def UtxoRow.unlinked (row : UtxoRow) : UtxoRow := { row with spentByTxHash := none }

/-- The unspent output of an outpoint, without its link. -/
def TransactionTables.contentAt (db : TransactionTables) (outpoint : TxKey × ℤ) : Option UtxoRow :=
  (find UtxoRow.key db.utxos outpoint).map UtxoRow.unlinked

/-- The link of an outpoint, when it has an unspent output. -/
def TransactionTables.linkAt (db : TransactionTables) (outpoint : TxKey × ℤ) :
    Option (Option String) :=
  (find UtxoRow.key db.utxos outpoint).map (·.spentByTxHash)

variable {left right : TransactionTables} {outpoint : TxKey × ℤ}

theorem find_utxos_eq (content : left.contentAt outpoint = right.contentAt outpoint)
    (link : left.linkAt outpoint = right.linkAt outpoint) :
    find UtxoRow.key left.utxos outpoint = find UtxoRow.key right.utxos outpoint := by
  unfold TransactionTables.contentAt at content
  unfold TransactionTables.linkAt at link
  cases isLeft : find UtxoRow.key left.utxos outpoint with
  | none =>
    rw [isLeft, Option.map_none] at content
    exact (Option.map_eq_none_iff.mp content.symm).symm
  | some row =>
    rw [isLeft, Option.map_some] at content link
    obtain ⟨other, isRight, sameContent⟩ := Option.map_eq_some_iff.mp content.symm
    rw [isRight, Option.map_some] at link
    have sameLink := Option.some.inj link
    rw [isRight]
    cases row
    cases other
    simp_all [UtxoRow.unlinked]

end Rows

section Step

variable {toRfc3339 : ℤ → String} {addresses : List AddressRow} {assetId : SyncedAssetId}
  {network : Network} {record : SyncTransactionRecord} {db : TransactionTables}
  {outpoint : TxKey × ℤ} {hash : String}

/-- What a record makes of an unspent output, but for the link. -/
def contentAfter (addresses : List AddressRow) (assetId : SyncedAssetId) (network : Network)
    (record : SyncTransactionRecord) (outpoint : TxKey × ℤ) (content : Option UtxoRow) :
    Option UtxoRow :=
  ((listedAt addresses (record.key assetId network) record outpoint).or content).map
    (droppedRow (record.key assetId network) record)

theorem unlinked_droppedRow {key : TxKey} (row : UtxoRow) :
    (droppedRow key record row).unlinked = droppedRow key record row.unlinked := by
  unfold droppedRow dropUtxo UtxoRow.unlinked
  split
  · split <;> rfl
  · rfl

theorem contentAt_writtenTables (unique : db.Unique) :
    (writtenTables toRfc3339 addresses assetId network record db).contentAt outpoint =
      contentAfter addresses assetId network record outpoint (db.contentAt outpoint) := by
  have unlinkedLink : ∀ row : UtxoRow,
      (spentLink record assetId network row).unlinked = row.unlinked := by
    intro row
    unfold spentLink
    split <;> rfl
  unfold TransactionTables.contentAt contentAfter
  rw [find_writtenTables_utxos unique]
  unfold utxoAfter
  dsimp only
  cases listed : listedAt addresses (record.key assetId network) record outpoint with
  | none => simp [unlinked_droppedRow, unlinkedLink, Function.comp_def]
  | some row =>
    obtain ⟨output, _, isRow⟩ := List.exists_of_findSome?_eq_some listed
    have unspent : row.unlinked = row := by
      have none := (listedOutput_spec (Option.filter_eq_some_iff.mp isRow).1).2
      unfold UtxoRow.unlinked
      rw [← none]
    have relinked : ∀ (old : Option UtxoRow) (spender : Option String),
        (linkedRow old spender row).unlinked = row.unlinked := fun _ _ => rfl
    simp [unlinked_droppedRow, unlinkedLink, relinked, unspent]

theorem contentAfter_of_other (other : outpoint.1 ≠ record.key assetId network)
    {content : Option UtxoRow} (ofOutpoint : ∀ row ∈ content, row.key = outpoint) :
    contentAfter addresses assetId network record outpoint content = content := by
  have unlisted : listedAt addresses (record.key assetId network) record outpoint = none := by
    cases listed : listedAt addresses (record.key assetId network) record outpoint with
    | none => rfl
    | some row =>
      obtain ⟨output, _, isRow⟩ := List.exists_of_findSome?_eq_some listed
      have isKey := (listedOutput_spec (Option.filter_eq_some_iff.mp isRow).1).1
      rw [listedAt_key listed] at isKey
      exact absurd (congrArg Prod.fst isKey) other
  unfold contentAfter
  rw [unlisted, Option.none_or]
  cases content with
  | none => rfl
  | some row =>
    have isKey : row.txKey = outpoint.1 := congrArg Prod.fst (ofOutpoint row rfl)
    unfold droppedRow dropUtxo
    rw [Option.map_some, isKey, if_neg other, ite_self]

theorem contentAt_key : ∀ row ∈ db.contentAt outpoint, row.key = outpoint := by
  intro row member
  obtain ⟨found, isFound, rfl⟩ := Option.map_eq_some_iff.mp member
  have isKey : found.key = outpoint := find_eq_some_key isFound
  exact isKey

theorem linkAt_writtenTables (unique : db.Unique)
    (accepted : RecordAccepted addresses assetId network record) :
    (writtenTables toRfc3339 addresses assetId network record db).linkAt outpoint =
      if (db.linkAt outpoint).isSome ∨ Lists addresses assetId network record outpoint then
        some (linkAfter addresses assetId network record db outpoint)
      else none := by
  have link : (utxoAfter addresses assetId network record db outpoint).map _ = _ :=
    utxoAfter_link outpoint
  unfold TransactionTables.linkAt
  rw [find_writtenTables_utxos unique, link, Option.isSome_map]
  simp only [lists_iff accepted]

theorem linkAt_of_quiet (unique : db.Unique)
    (accepted : RecordAccepted addresses assetId network record)
    (unnamed : ¬ record.Spends assetId network outpoint)
    (unlisted : ¬ Lists addresses assetId network record outpoint) :
    (writtenTables toRfc3339 addresses assetId network record db).linkAt outpoint =
      db.linkAt outpoint := by
  rw [linkAt_writtenTables unique accepted]
  unfold linkAfter TransactionTables.linkAt
  rw [if_neg unnamed, if_neg (mt (lists_iff accepted).mpr unlisted)]
  cases find UtxoRow.key db.utxos outpoint with
  | none => simp [unlisted]
  | some row => simp

theorem linkAt_of_spends (unique : db.Unique)
    (accepted : RecordAccepted addresses assetId network record)
    (names : record.Spends assetId network outpoint)
    (present : (db.linkAt outpoint).isSome ∨ Lists addresses assetId network record outpoint) :
    (writtenTables toRfc3339 addresses assetId network record db).linkAt outpoint =
      some (some record.txHash) := by
  rw [linkAt_writtenTables unique accepted, if_pos present, linkAfter_of_spends names]

theorem bind_link_eq_join :
    (find UtxoRow.key db.utxos outpoint).bind (·.spentByTxHash) = (db.linkAt outpoint).join := by
  unfold TransactionTables.linkAt
  cases find UtxoRow.key db.utxos outpoint <;> rfl

theorem linkAt_of_linked (unique : db.Unique)
    (accepted : RecordAccepted addresses assetId network record)
    (unnamed : ¬ record.Spends assetId network outpoint)
    (linked : db.linkAt outpoint = some (some hash)) :
    (writtenTables toRfc3339 addresses assetId network record db).linkAt outpoint =
      some (some hash) := by
  have old : (find UtxoRow.key db.utxos outpoint).bind (·.spentByTxHash) = some hash := by
    rw [bind_link_eq_join, linked]
    rfl
  rw [linkAt_writtenTables unique accepted, if_pos (.inl (by rw [linked]; rfl)),
    linkAfter_of_linked unnamed old]

theorem linkAt_of_lists (unique : db.Unique)
    (accepted : RecordAccepted addresses assetId network record)
    (unnamed : ¬ record.Spends assetId network outpoint)
    (lists : Lists addresses assetId network record outpoint)
    (unlinked : (db.linkAt outpoint).join = none) :
    (writtenTables toRfc3339 addresses assetId network record db).linkAt outpoint =
      some (earlierSpender db (record.key assetId network) outpoint) := by
  rw [linkAt_writtenTables unique accepted, if_pos (.inr lists),
    linkAfter_of_listed accepted unnamed (bind_link_eq_join.trans unlinked) lists]

theorem linkAt_isSome (unique : db.Unique)
    (accepted : RecordAccepted addresses assetId network record) :
    ((writtenTables toRfc3339 addresses assetId network record db).linkAt outpoint).isSome ↔
      (db.linkAt outpoint).isSome ∨ Lists addresses assetId network record outpoint := by
  rw [linkAt_writtenTables unique accepted]
  split <;> rename_i present
  · exact iff_of_true rfl present
  · exact iff_of_false Bool.false_ne_true present

/-! ## The first stored input -/

theorem find?_writtenTables_inputs {wanted wantedAfter : TransactionInputRow → Bool}
    (own : ∀ row ∈ (writtenTables toRfc3339 addresses assetId network record db).transactionInputs,
      row.txKey = record.key assetId network → wantedAfter row = false)
    (others : ∀ row : TransactionInputRow, row.txKey ≠ record.key assetId network →
      wantedAfter row = wanted row)
    (first : ∀ row ∈ db.transactionInputs.find? wanted, row.txKey ≠ record.key assetId network) :
    (writtenTables toRfc3339 addresses assetId network record db).transactionInputs.find?
        wantedAfter = db.transactionInputs.find? wanted := by
  have kept : (writtenTables toRfc3339 addresses assetId network record db).transactionInputs.find?
      wantedAfter = (db.transactionInputs.filter fun row =>
        row.txKey ≠ record.key assetId network).find? wanted := by
    rw [← @filter_writtenTables_inputs toRfc3339 addresses assetId network record db
      _ (fun row same => by simp [same]), List.find?_filter,
      ← List.head?_filter, ← List.head?_filter]
    congr 1
    apply List.filter_congr
    intro row member
    by_cases isOwn : row.txKey = record.key assetId network
    · simp [own row member isOwn, isOwn]
    · simp [others row isOwn, isOwn]
  rw [kept, List.find?_filter]
  cases found : db.transactionInputs.find? wanted with
  | none =>
    rw [List.find?_eq_none] at found ⊢
    intro row member both
    exact found row member (of_decide_eq_true both).2
  | some row =>
    obtain ⟨isWanted, before, after, isTable, none⟩ := List.find?_eq_some_iff_append.mp found
    refine List.find?_eq_some_iff_append.mpr ⟨?_, before, after, isTable, ?_⟩
    · simp [isWanted, first row found]
    · intro other member
      have unwanted := none other member
      simp_all

end Step

/-! ## The spender named first -/

section First

variable (addresses : List AddressRow) (assetId : SyncedAssetId) (network : Network)
  (spender : SyncTransactionRecord) (producer : TxKey) (outpoint : TxKey × ℤ)
  (db : TransactionTables)

/-- The stored input of a record at an index is updated where it stands and names the outpoint:
no input of its index is of an untracked address. -/
def StoresInPlace (i : ℤ) : Prop :=
  (∀ input ∈ spender.inputs, input.inputIndex = i →
    (storedInput addresses (spender.key assetId network) input).isSome) ∧
    ∃ row ∈ inputAt addresses (spender.key assetId network) spender.inputs i,
      row.outpoint = outpoint

instance (i : ℤ) : Decidable (StoresInPlace addresses assetId network spender outpoint i) :=
  inferInstanceAs (Decidable (_ ∧ ∃ row ∈ inputAt _ _ _ _, _))

/-- A stored input that the producer may find once the spender is stored: the spender's at an
index it updates, or one of another transaction that names the outpoint. -/
def NamesOnceStored (row : TransactionInputRow) : Prop :=
  if row.txKey = spender.key assetId network then
    StoresInPlace addresses assetId network spender outpoint row.inputIndex
  else
    row.txKey ≠ producer ∧ row.outpoint = outpoint ∧
      (find ChainTransactionRow.key db.chainTransactions row.txKey).isSome

instance (row : TransactionInputRow) :
    Decidable (NamesOnceStored addresses assetId network spender producer outpoint db row) :=
  inferInstanceAs (Decidable (if row.txKey = spender.key assetId network then
    StoresInPlace addresses assetId network spender outpoint row.inputIndex else _))

/-- The spender stores an input naming the outpoint, and no other transaction's stands before. -/
def NamesFirst : Prop :=
  Stores addresses assetId network spender outpoint ∧
    ∀ row ∈ db.transactionInputs.find? fun row =>
        NamesOnceStored addresses assetId network spender producer outpoint db row,
      row.txKey = spender.key assetId network

/-- What storing the spender leaves of a row of the inputs in the row's place. -/
def inputInPlace (row : TransactionInputRow) : Option TransactionInputRow :=
  if row.txKey = spender.key assetId network then
    if ∀ input ∈ spender.inputs, input.inputIndex = row.inputIndex →
        (storedInput addresses (spender.key assetId network) input).isSome then
      inputAt addresses (spender.key assetId network) spender.inputs row.inputIndex
    else none
  else some row

/-- The condition under which a stored input is the one that the producer's lookup asks for. -/
def Asked (row : TransactionInputRow) : Prop :=
  row.txKey ≠ producer ∧ row.outpoint = outpoint ∧
    (find ChainTransactionRow.key db.chainTransactions row.txKey).isSome

instance (row : TransactionInputRow) : Decidable (Asked producer outpoint db row) :=
  inferInstanceAs (Decidable (_ ∧ _ ∧ _))

variable {addresses assetId network spender producer outpoint db} {toRfc3339 : ℤ → String}
  {record : SyncTransactionRecord}

theorem earlierSpender_of_unnamed (unique : db.Unique)
    (unnamed : ¬ record.Spends assetId network outpoint)
    (other : ∀ hash ∈ earlierSpender db producer outpoint,
      ({ outpoint.1 with txHash := hash } : TxKey) ≠ record.key assetId network) :
    earlierSpender (writtenTables toRfc3339 addresses assetId network record db) producer
      outpoint = earlierSpender db producer outpoint := by
  unfold earlierSpender
  congr 1
  apply find?_writtenTables_inputs
  · intro row member own
    have differs : row.outpoint ≠ outpoint := fun same =>
      unnamed (same ▸ spends_of_stored unique member own)
    simp [differs]
  · intro row isOther
    rw [find_writtenTables_chain, if_neg isOther]
  · intro row found own
    obtain ⟨_, names, _⟩ := of_decide_eq_true (List.find?_some found :)
    apply other row.txKey.txHash (Option.map_eq_some_iff.mpr ⟨row, found, rfl⟩)
    rw [← own, ← names]
    rfl

theorem NamesFirst.of_unnamed (unique : db.Unique)
    (unnamed : ¬ record.Spends assetId network outpoint)
    (other : record.key assetId network ≠ spender.key assetId network)
    (first : NamesFirst addresses assetId network spender producer outpoint db) :
    NamesFirst addresses assetId network spender producer outpoint
      (writtenTables toRfc3339 addresses assetId network record db) := by
  obtain ⟨stores, isFirst⟩ := first
  refine ⟨stores, ?_⟩
  have same : (writtenTables toRfc3339 addresses assetId network record
      db).transactionInputs.find? (fun row => NamesOnceStored addresses assetId network spender
        producer outpoint (writtenTables toRfc3339 addresses assetId network record db) row) =
      db.transactionInputs.find? fun row =>
        NamesOnceStored addresses assetId network spender producer outpoint db row := by
    apply find?_writtenTables_inputs
    · intro row member own
      have differs : row.outpoint ≠ outpoint := fun same =>
        unnamed (same ▸ spends_of_stored unique member own)
      apply decide_eq_false
      unfold NamesOnceStored
      rw [if_neg (own ▸ other)]
      exact fun named => differs named.2.1
    · intro row isOther
      rw [decide_eq_decide]
      unfold NamesOnceStored
      rw [find_writtenTables_chain, if_neg isOther]
    · intro row found
      rw [isFirst row found]
      exact Ne.symm other
  rw [same]
  exact isFirst

theorem inputAt_chain (unique : db.Unique) {i : ℤ} {row : TransactionInputRow}
    (stored : inputAt addresses (spender.key assetId network) spender.inputs i = some row) :
    row.txKey = spender.key assetId network ∧
      row ∈ (writtenTables toRfc3339 addresses assetId network spender db).transactionInputs ∧
      (find ChainTransactionRow.key (writtenTables toRfc3339 addresses assetId network spender
        db).chainTransactions row.txKey).isSome := by
  obtain ⟨input, _, isIndex, isRow⟩ := inputAt_eq_some stored
  obtain ⟨own, rowIndex⟩ := Prod.mk.inj (storedInput_key isRow)
  have member : row ∈
      (writtenTables toRfc3339 addresses assetId network spender db).transactionInputs := by
    rw [mem_writtenTables_inputs unique, if_pos own, own, rowIndex, isIndex]
    exact stored
  refine ⟨own, member, ?_⟩
  rw [find_writtenTables_chain, if_pos own, own, not_isOrphan_of_input member own]
  rfl

theorem asked_of_inputAt (unique : db.Unique) (other : spender.key assetId network ≠ producer)
    {i : ℤ} {row : TransactionInputRow}
    (stored : inputAt addresses (spender.key assetId network) spender.inputs i = some row) :
    Asked producer outpoint (writtenTables toRfc3339 addresses assetId network spender db) row ↔
      row.outpoint = outpoint := by
  obtain ⟨own, -, chain⟩ := @inputAt_chain _ _ _ _ db toRfc3339 unique i row stored
  unfold Asked
  rw [chain, own]
  simp [other]

/-- The inputs after the spender: those left in place, in the order they had, and new ones. -/
theorem inputs_writtenTables_eq (unique : db.Unique) : ∃ appended,
    (writtenTables toRfc3339 addresses assetId network spender db).transactionInputs =
        db.transactionInputs.filterMap (inputInPlace addresses assetId network spender) ++
          appended ∧
      ∀ row ∈ appended, row.txKey = spender.key assetId network := by
  obtain ⟨appended, isTable, inGroup⟩ := replaceGroup_eq
    (fun item row (stored : storedInput addresses (spender.key assetId network) item = some row) =>
      storedInput_key stored) spender.inputs unique.transactionInputs
  exact ⟨appended, executeChainCleanup_tables.1.trans isTable, inGroup⟩

theorem any_inputInPlace (unique : db.Unique) (other : spender.key assetId network ≠ producer)
    (row : TransactionInputRow) :
    (inputInPlace addresses assetId network spender row).any (fun row => decide
        (Asked producer outpoint (writtenTables toRfc3339 addresses assetId network spender db)
          row)) =
      decide (NamesOnceStored addresses assetId network spender producer outpoint db row) := by
  rw [Bool.eq_iff_iff, decide_eq_true_eq]
  unfold inputInPlace NamesOnceStored StoresInPlace
  by_cases own : row.txKey = spender.key assetId network
  · rw [if_pos own, if_pos own]
    split <;> rename_i inPlace
    · rw [and_iff_right inPlace]
      cases stored : inputAt addresses (spender.key assetId network) spender.inputs
          row.inputIndex with
      | none => simp
      | some left =>
        simp only [Option.any_some, decide_eq_true_eq, asked_of_inputAt unique other stored]
        simp
    · exact iff_of_false Bool.false_ne_true fun both => inPlace both.1
  · have chain : find ChainTransactionRow.key
        (writtenTables toRfc3339 addresses assetId network spender db).chainTransactions
        row.txKey = find ChainTransactionRow.key db.chainTransactions row.txKey := by
      rw [find_writtenTables_chain, if_neg own]
    rw [if_neg own, if_neg own, Option.any_some, decide_eq_true_eq, Asked, chain]

/-- A row left in place that names the outpoint is the spender's iff it has its hash. -/
theorem txHash_inputInPlace_iff (names : spender.Spends assetId network outpoint)
    {row left : TransactionInputRow} (isOutpoint : left.outpoint = outpoint)
    (isLeft : inputInPlace addresses assetId network spender row = some left) :
    left.txKey.txHash = spender.txHash ↔ row.txKey = spender.key assetId network := by
  unfold inputInPlace at isLeft
  split at isLeft <;> rename_i own
  · obtain ⟨-, stored⟩ := Option.ite_none_right_eq_some.mp isLeft
    obtain ⟨input, _, isIndex, isRow⟩ := inputAt_eq_some stored
    refine iff_of_true ?_ own
    rw [(Prod.mk.inj (storedInput_key isRow)).1]
    rfl
  · obtain rfl := Option.some.inj isLeft
    refine iff_of_false (fun same => own ?_) own
    rw [← names.scope, ← same, ← isOutpoint]
    rfl

/-- The producer finds the spender iff it names the outpoint first. -/
theorem earlierSpender_writtenTables (unique : db.Unique)
    (accepted : RecordAccepted addresses assetId network spender)
    (other : spender.key assetId network ≠ producer)
    (names : spender.Spends assetId network outpoint) :
    earlierSpender (writtenTables toRfc3339 addresses assetId network spender db) producer
        outpoint = some spender.txHash ↔
      NamesFirst addresses assetId network spender producer outpoint db := by
  have inPlace := @any_inputInPlace addresses assetId network spender producer outpoint db
    toRfc3339 unique other
  obtain ⟨appended, kept, inGroup⟩ := @inputs_writtenTables_eq addresses assetId network spender
    db toRfc3339 unique
  change ((writtenTables toRfc3339 addresses assetId network spender db).transactionInputs.find?
    fun row => Asked producer outpoint (writtenTables toRfc3339 addresses assetId network spender
      db) row).map (·.txKey.txHash) = _ ↔ _
  rw [kept, List.find?_append, List.find?_filterMap]
  simp only [inPlace]
  unfold NamesFirst
  cases found : db.transactionInputs.find? fun row =>
      NamesOnceStored addresses assetId network spender producer outpoint db row with
  | some row =>
    have isNamed := inPlace row
    rw [List.find?_some found, Option.any_eq_true] at isNamed
    obtain ⟨left, isLeft, matched⟩ := isNamed
    have isOutpoint := (of_decide_eq_true matched).2.1
    rw [Option.bind_some, isLeft, Option.some_or, Option.map_some, Option.some_inj,
      txHash_inputInPlace_iff names isOutpoint isLeft]
    constructor
    · intro own
      refine ⟨(stores_iff accepted).mpr ⟨row.inputIndex, left, ?_, isOutpoint⟩, ?_⟩
      · rw [inputInPlace, if_pos own] at isLeft
        exact (Option.ite_none_right_eq_some.mp isLeft).2
      · intro first isFirst
        rw [← Option.some.inj isFirst]
        exact own
    · exact fun both => both.2 row rfl
  | none =>
    rw [Option.bind_none, Option.none_or]
    constructor
    · intro isFound
      obtain ⟨row, inAppended, _⟩ := Option.map_eq_some_iff.mp isFound
      have member := List.mem_of_find?_eq_some inAppended
      have own : row.txKey = spender.key assetId network := inGroup row member
      have inWritten := kept ▸ List.mem_append_right _ member
      rw [mem_writtenTables_inputs unique, if_pos own, own] at inWritten
      refine ⟨(stores_iff accepted).mpr ⟨_, row, inWritten, ?_⟩, fun row none => by cases none⟩
      exact (of_decide_eq_true (List.find?_some inAppended :)).2.1
    · rintro ⟨stores, _⟩
      obtain ⟨i, row, stored, isOutpoint⟩ := (stores_iff accepted).mp stores
      have asked :=
        (@asked_of_inputAt _ _ _ _ _ _ _ toRfc3339 unique other _ _ stored).mpr isOutpoint
      obtain ⟨-, member, -⟩ := @inputAt_chain _ _ _ _ db toRfc3339 unique i row stored
      rw [kept, List.mem_append] at member
      have appendedLater : row ∈ appended := by
        refine member.resolve_left fun among => ?_
        obtain ⟨old, inTable, isLeft⟩ := List.mem_filterMap.mp among
        have isNamed := inPlace old
        rw [isLeft, Option.any_some, decide_eq_true asked] at isNamed
        rw [List.find?_eq_none] at found
        exact found old inTable isNamed.symm
      cases isFirst : appended.find? fun row => Asked producer outpoint
          (writtenTables toRfc3339 addresses assetId network spender db) row with
      | none =>
        rw [List.find?_eq_none] at isFirst
        exact absurd (decide_eq_true asked) (isFirst row appendedLater)
      | some first =>
        have own : first.txKey = spender.key assetId network :=
          inGroup first (List.mem_of_find?_eq_some isFirst)
        rw [Option.map_some, own]
        rfl

end First

/-! ## Runs -/

section Runs

variable {toRfc3339 : ℤ → String} {addresses : List AddressRow} {assetId : SyncedAssetId}
  {network : Network} {records : List SyncTransactionRecord} {db tables : TransactionTables}
  {targets : CoverageInvalidationTargets} {outpoint : TxKey × ℤ} {producer : TxKey}
  {spender : SyncTransactionRecord} {hash : String}

/-- What the writes of each record keep, a run keeps. -/
theorem CommittedRun.keeps (holds : TransactionTables → Prop)
    (run : CommittedRun toRfc3339 addresses assetId network records db tables targets)
    (unique : db.Unique)
    (step : ∀ record ∈ records, ∀ before : TransactionTables, before.Unique →
      RecordAccepted addresses assetId network record → holds before →
        holds (writtenTables toRfc3339 addresses assetId network record before))
    (start : holds db) : holds tables := by
  have both : tables.Unique ∧ holds tables := by
    apply run.invariant _ ⟨unique, start⟩
    rintro record member before outcome ⟨unique, held⟩ committed
    obtain ⟨accepted, isTables, _⟩ := of_applyTransactionReconciliation committed
    rw [isTables]
    exact ⟨unique_writtenTables unique, step record member before unique accepted held⟩
  exact both.2

theorem CommittedRun.linkAt_of_quiet
    (run : CommittedRun toRfc3339 addresses assetId network records db tables targets)
    (unique : db.Unique)
    (unnamed : ∀ record ∈ records, ¬ record.Spends assetId network outpoint)
    (unlisted : ∀ record ∈ records, ¬ Lists addresses assetId network record outpoint) :
    tables.linkAt outpoint = db.linkAt outpoint := by
  apply run.keeps (fun tables => tables.linkAt outpoint = db.linkAt outpoint) unique _ rfl
  intro record member before unique accepted same
  rw [Store.linkAt_of_quiet unique accepted (unnamed record member) (unlisted record member), same]

theorem CommittedRun.linkAt_of_linked
    (run : CommittedRun toRfc3339 addresses assetId network records db tables targets)
    (unique : db.Unique)
    (unnamed : ∀ record ∈ records, ¬ record.Spends assetId network outpoint)
    (linked : db.linkAt outpoint = some (some hash)) :
    tables.linkAt outpoint = some (some hash) := by
  apply run.keeps (fun tables => tables.linkAt outpoint = some (some hash)) unique _ linked
  intro record member before unique accepted linked
  exact Store.linkAt_of_linked unique accepted (unnamed record member) linked

theorem CommittedRun.linkAt_isSome
    (run : CommittedRun toRfc3339 addresses assetId network records db tables targets)
    (unique : db.Unique) :
    (tables.linkAt outpoint).isSome ↔ (db.linkAt outpoint).isSome ∨
      ∃ record ∈ records, Lists addresses assetId network record outpoint := by
  induction run with
  | nil db => simp
  | cons committed _ ih =>
    obtain ⟨accepted, isTables, _⟩ := of_applyTransactionReconciliation committed
    rw [isTables] at ih
    rw [ih (unique_writtenTables unique), Store.linkAt_isSome unique accepted,
      List.exists_mem_cons_iff, or_assoc]

theorem CommittedRun.earlierSpender
    (run : CommittedRun toRfc3339 addresses assetId network records db tables targets)
    (unique : db.Unique)
    (unnamed : ∀ record ∈ records, ¬ record.Spends assetId network outpoint)
    (other : ∀ hash ∈ Store.earlierSpender db producer outpoint, ∀ record ∈ records,
      ({ outpoint.1 with txHash := hash } : TxKey) ≠ record.key assetId network) :
    Store.earlierSpender tables producer outpoint = Store.earlierSpender db producer outpoint := by
  apply run.keeps (fun tables =>
    Store.earlierSpender tables producer outpoint = Store.earlierSpender db producer outpoint)
    unique _ rfl
  intro record member before unique accepted same
  rw [earlierSpender_of_unnamed unique (unnamed record member), same]
  intro hash found
  exact other hash (same ▸ found) record member

theorem CommittedRun.namesFirst
    (run : CommittedRun toRfc3339 addresses assetId network records db tables targets)
    (unique : db.Unique)
    (unnamed : ∀ record ∈ records, ¬ record.Spends assetId network outpoint)
    (other : ∀ record ∈ records,
      record.key assetId network ≠ spender.key assetId network)
    (first : NamesFirst addresses assetId network spender producer outpoint db) :
    NamesFirst addresses assetId network spender producer outpoint tables := by
  apply run.keeps (NamesFirst addresses assetId network spender producer outpoint) unique
    _ first
  intro record member before unique accepted first
  exact first.of_unnamed unique (unnamed record member) (other record member)

end Runs

end Bitgarth.Store
