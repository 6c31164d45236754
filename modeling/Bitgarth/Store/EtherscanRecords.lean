import Bitgarth.Store.EtherscanAggregation

/-! # The records of mapped Etherscan rows

A hash has a record exactly when one of its rows comes in, and when no two of its rows have one
identity but differ, that record depends only on which rows of the hash come in.
-/

namespace Bitgarth.Store

open Amounts Ledger KeyedTable Text Fallible

variable {parseEthAddress : String → Except ParseError String}

/-! ## Rows -/

theorem parseEtherscanNormalRow_spec {raw : EtherscanNormalTx} {row : EtherscanNormalRow}
    (parsed : parseEtherscanNormalRow parseEthAddress raw = .ok row) :
    parseEtherscanTxHash raw.hash = .ok row.txHash ∧
      row.transfer.providerTransferKey = .normal := by
  obtain ⟨txHash, hashParsed, parsed⟩ := bind_eq_ok.mp parsed
  obtain ⟨status, _, parsed⟩ := bind_eq_ok.mp parsed
  obtain ⟨blockHeight, _, parsed⟩ := bind_eq_ok.mp parsed
  obtain ⟨blockTime, _, parsed⟩ := bind_eq_ok.mp parsed
  obtain ⟨feeAmount, _, parsed⟩ := bind_eq_ok.mp parsed
  obtain ⟨nonce, _, parsed⟩ := bind_eq_ok.mp parsed
  obtain ⟨fromAddress, _, parsed⟩ := bind_eq_ok.mp parsed
  obtain ⟨toAddress, _, parsed⟩ := bind_eq_ok.mp parsed
  obtain ⟨valueAmount, _, parsed⟩ := bind_eq_ok.mp parsed
  rw [pure_eq_ok] at parsed
  subst parsed
  exact ⟨hashParsed, rfl⟩

theorem parseEtherscanInternalRow_spec {raw : EtherscanInternalTx} {row : EtherscanRow}
    (parsed : parseEtherscanInternalRow parseEthAddress raw = .ok row) :
    parseEtherscanTxHash raw.hash = .ok row.txHash ∧
      ProviderTransferKey.fromInternalTraceId (trim raw.traceId) =
        some row.transfer.providerTransferKey := by
  obtain ⟨txHash, hashParsed, parsed⟩ := bind_eq_ok.mp parsed
  obtain ⟨status, _, parsed⟩ := bind_eq_ok.mp parsed
  obtain ⟨blockHeight, _, parsed⟩ := bind_eq_ok.mp parsed
  obtain ⟨blockTime, _, parsed⟩ := bind_eq_ok.mp parsed
  obtain ⟨fromAddress, _, parsed⟩ := bind_eq_ok.mp parsed
  obtain ⟨toAddress, _, parsed⟩ := bind_eq_ok.mp parsed
  obtain ⟨valueAmount, _, parsed⟩ := bind_eq_ok.mp parsed
  split at parsed <;> rename_i key
  · cases parsed
  · rw [pure_eq_ok] at parsed
    subst parsed
    exact ⟨hashParsed, key⟩

theorem fromInternalTraceId_eq_some {traceId : String} {key : ProviderTransferKey} :
    ProviderTransferKey.fromInternalTraceId traceId = some key ↔
      traceId ≠ "" ∧ key.text = "internal:" ++ traceId := by
  unfold ProviderTransferKey.fromInternalTraceId
  split <;> rename_i blank
  · simp [blank]
  · rw [Option.some.injEq, ne_eq, and_iff_right blank]
    constructor
    · intro isKey
      rw [← isKey]
    · intro isText
      exact ProviderTransferKey.eq_of_text isText.symm

theorem fromInternalTraceId_injective {left right : String} {key : ProviderTransferKey}
    (isLeft : ProviderTransferKey.fromInternalTraceId left = some key)
    (isRight : ProviderTransferKey.fromInternalTraceId right = some key) : left = right := by
  have same := (fromInternalTraceId_eq_some.mp isLeft).2.symm.trans
    (fromInternalTraceId_eq_some.mp isRight).2
  exact (String.append_right_inj "internal:").mp same

theorem ne_normal_of_fromInternalTraceId {traceId : String} {key : ProviderTransferKey}
    (isKey : ProviderTransferKey.fromInternalTraceId traceId = some key) : key ≠ .normal := by
  intro isNormal
  have text := (fromInternalTraceId_eq_some.mp isKey).2
  rw [isNormal] at text
  have first := congrArg (fun text => text.toList.head?) text
  simp [ProviderTransferKey.normal, String.toList_append] at first

/-- No two rows of a hash have one identity but differ. -/
structure OneRowEach (hash : String) (normals : List EtherscanNormalTx)
    (internals : List EtherscanInternalTx) : Prop where
  normal : ∀ left ∈ normals, ∀ right ∈ normals, parseEtherscanTxHash left.hash = .ok hash →
    parseEtherscanTxHash right.hash = .ok hash → left = right
  internal : ∀ left ∈ internals, ∀ right ∈ internals, parseEtherscanTxHash left.hash = .ok hash →
    parseEtherscanTxHash right.hash = .ok hash → trim left.traceId = trim right.traceId →
    left = right

/-- The same rows of a hash come in. -/
structure SameRowsOf (hash : String) (normals normals' : List EtherscanNormalTx)
    (internals internals' : List EtherscanInternalTx) : Prop where
  normal : ∀ raw, parseEtherscanTxHash raw.hash = .ok hash → (raw ∈ normals ↔ raw ∈ normals')
  internal : ∀ raw, parseEtherscanTxHash raw.hash = .ok hash →
    (raw ∈ internals ↔ raw ∈ internals')

section Mapping

variable {normals normals' : List EtherscanNormalTx}
  {internals internals' : List EtherscanInternalTx}
  {records records' : List SyncAccountTransactionRecord} {hash : String}

theorem mapEtherscanTransactions_eq_ok
    (mapped : mapEtherscanTransactions parseEthAddress normals internals = .ok records) :
    ∃ normalRows internalRows,
      normals.mapM (parseEtherscanNormalRow parseEthAddress) = .ok normalRows ∧
      internals.mapM (parseEtherscanInternalRow parseEthAddress) = .ok internalRows ∧
      ∀ record, record ∈ records ↔
        ∃ aggregated ∈ gatherAll normalRows internalRows, aggregated.toRecord = record := by
  obtain ⟨normalRows, normalParsed, mapped⟩ := bind_eq_ok.mp mapped
  obtain ⟨internalRows, internalParsed, mapped⟩ := bind_eq_ok.mp mapped
  rw [pure_eq_ok] at mapped
  subst mapped
  refine ⟨normalRows, internalRows, normalParsed, internalParsed, fun record => ?_⟩
  rw [List.mem_map]
  simp only [List.mem_mergeSort]
  rfl

theorem exists_mapEtherscanTransactions :
    (∃ records, mapEtherscanTransactions parseEthAddress normals internals = .ok records) ↔
      (∀ raw ∈ normals, ∃ row, parseEtherscanNormalRow parseEthAddress raw = .ok row) ∧
        ∀ raw ∈ internals, ∃ row, parseEtherscanInternalRow parseEthAddress raw = .ok row := by
  unfold mapEtherscanTransactions
  rw [exists_bind_eq_ok, ← exists_mapM_eq_ok, ← exists_mapM_eq_ok]
  simp only [exists_bind_eq_ok, pure_eq_ok, exists_eq', and_true]
  constructor
  · rintro ⟨normalRows, normalParsed, internalParsed⟩
    exact ⟨⟨normalRows, normalParsed⟩, internalParsed⟩
  · rintro ⟨⟨normalRows, normalParsed⟩, internalParsed⟩
    exact ⟨normalRows, normalParsed, internalParsed⟩

theorem mem_filter_parsed_iff {Raw Row : Type} {raws : List Raw} {rows : List Row}
    {parse : Raw → Except ParseError Row} {rawHash : Raw → String} {txHash : Row → String}
    (isHash : ∀ raw row, parse raw = .ok row →
      parseEtherscanTxHash (rawHash raw) = .ok (txHash row))
    (parsed : raws.mapM parse = .ok rows) (row : Row) :
    row ∈ rows.filter (fun row => txHash row = hash) ↔
      ∃ raw ∈ raws, parseEtherscanTxHash (rawHash raw) = .ok hash ∧ parse raw = .ok row := by
  obtain ⟨forward, backward⟩ := mem_of_mapM_eq_ok parsed
  rw [List.mem_filter, decide_eq_true_eq]
  constructor
  · rintro ⟨member, ofHash⟩
    obtain ⟨raw, rawMember, rowParsed⟩ := backward row member
    exact ⟨raw, rawMember, ofHash ▸ isHash raw row rowParsed, rowParsed⟩
  · rintro ⟨raw, rawMember, ofHash, rowParsed⟩
    obtain ⟨found, member, foundParsed⟩ := forward raw rawMember
    obtain rfl := Except.ok.inj (foundParsed.symm.trans rowParsed)
    exact ⟨member, Except.ok.inj ((isHash raw found rowParsed).symm.trans ofHash)⟩

theorem mem_normalRows_iff {normalRows : List EtherscanNormalRow}
    (parsed : normals.mapM (parseEtherscanNormalRow parseEthAddress) = .ok normalRows)
    (row : EtherscanNormalRow) :
    row ∈ normalRows.filter (fun row => row.txHash = hash) ↔
      ∃ raw ∈ normals, parseEtherscanTxHash raw.hash = .ok hash ∧
        parseEtherscanNormalRow parseEthAddress raw = .ok row :=
  mem_filter_parsed_iff (fun _ _ rowParsed => (parseEtherscanNormalRow_spec rowParsed).1) parsed row

theorem mem_internalRows_iff {internalRows : List EtherscanRow}
    (parsed : internals.mapM (parseEtherscanInternalRow parseEthAddress) = .ok internalRows)
    (row : EtherscanRow) :
    row ∈ internalRows.filter (fun row => row.txHash = hash) ↔
      ∃ raw ∈ internals, parseEtherscanTxHash raw.hash = .ok hash ∧
        parseEtherscanInternalRow parseEthAddress raw = .ok row :=
  mem_filter_parsed_iff (fun _ _ rowParsed => (parseEtherscanInternalRow_spec rowParsed).1)
    parsed row

theorem OneRowEach.oneOfEach (one : OneRowEach hash normals internals)
    {normalRows : List EtherscanNormalRow} {internalRows : List EtherscanRow}
    (normalParsed : normals.mapM (parseEtherscanNormalRow parseEthAddress) = .ok normalRows)
    (internalParsed : internals.mapM (parseEtherscanInternalRow parseEthAddress) =
      .ok internalRows) :
    OneOfEach (normalRows.filter fun row => row.txHash = hash)
      (internalRows.filter fun row => row.txHash = hash) := by
  refine ⟨?_, ?_, ?_, ?_⟩
  · intro left leftMember right rightMember
    obtain ⟨raw, member, isHash, parsed⟩ := (mem_normalRows_iff normalParsed left).mp leftMember
    obtain ⟨raw', member', isHash', parsed'⟩ :=
      (mem_normalRows_iff normalParsed right).mp rightMember
    obtain rfl := one.normal raw member raw' member' isHash isHash'
    exact Except.ok.inj (parsed.symm.trans parsed')
  · intro left leftMember right rightMember sameKey
    obtain ⟨raw, member, isHash, parsed⟩ :=
      (mem_internalRows_iff internalParsed left).mp leftMember
    obtain ⟨raw', member', isHash', parsed'⟩ :=
      (mem_internalRows_iff internalParsed right).mp rightMember
    have sameTrace := fromInternalTraceId_injective
      ((parseEtherscanInternalRow_spec parsed).2.trans (congrArg some sameKey))
      (parseEtherscanInternalRow_spec parsed').2
    obtain rfl := one.internal raw member raw' member' isHash isHash' sameTrace
    exact Except.ok.inj (parsed.symm.trans parsed')
  · intro row rowMember
    obtain ⟨raw, _, _, parsed⟩ := (mem_normalRows_iff normalParsed row).mp rowMember
    exact (parseEtherscanNormalRow_spec parsed).2
  · intro row rowMember
    obtain ⟨raw, _, _, parsed⟩ := (mem_internalRows_iff internalParsed row).mp rowMember
    exact ne_normal_of_fromInternalTraceId (parseEtherscanInternalRow_spec parsed).2

theorem gathers_of_mem_records {normalRows : List EtherscanNormalRow}
    {internalRows : List EtherscanRow} {aggregated : EtherscanAggregatedTx}
    (rows : OneOfEach (normalRows.filter fun row => row.txHash = hash)
      (internalRows.filter fun row => row.txHash = hash))
    (member : aggregated ∈ gatherAll normalRows internalRows) (isHash : aggregated.txHash = hash) :
    Gathers (normalRows.filter fun row => row.txHash = hash)
      (internalRows.filter fun row => row.txHash = hash) aggregated := by
  apply gathers_of_gather rows
  rw [← find_gatherAll, find_eq_some_iff (keyed_gatherAll normalRows internalRows)]
  exact ⟨member, isHash⟩

theorem mapEtherscanTransactions_agrees
    (mapped : mapEtherscanTransactions parseEthAddress normals internals = .ok records)
    (mapped' : mapEtherscanTransactions parseEthAddress normals' internals' = .ok records')
    (one : OneRowEach hash normals internals)
    (same : SameRowsOf hash normals normals' internals internals')
    {record record' : SyncAccountTransactionRecord} (member : record ∈ records)
    (member' : record' ∈ records') (isHash : record.txHash = hash)
    (isHash' : record'.txHash = hash) : record.Agrees record' := by
  obtain ⟨normalRows, internalRows, normalParsed, internalParsed, isRecord⟩ :=
    mapEtherscanTransactions_eq_ok mapped
  obtain ⟨normalRows', internalRows', normalParsed', internalParsed', isRecord'⟩ :=
    mapEtherscanTransactions_eq_ok mapped'
  obtain ⟨aggregated, gathered, rfl⟩ := (isRecord record).mp member
  obtain ⟨aggregated', gathered', rfl⟩ := (isRecord' record').mp member'
  have one' : OneRowEach hash normals' internals' := by
    refine ⟨?_, ?_⟩
    · intro left leftMember right rightMember isLeft isRight
      exact one.normal left ((same.normal left isLeft).mpr leftMember) right
        ((same.normal right isRight).mpr rightMember) isLeft isRight
    · intro left leftMember right rightMember isLeft isRight
      exact one.internal left ((same.internal left isLeft).mpr leftMember) right
        ((same.internal right isRight).mpr rightMember) isLeft isRight
  have rows := one.oneOfEach normalParsed internalParsed
  have rows' := one'.oneOfEach normalParsed' internalParsed'
  apply (gathers_of_mem_records rows gathered isHash).toRecord_agrees rows
    (gathers_of_mem_records rows' gathered' isHash') (isHash.trans isHash'.symm)
  · intro row
    rw [mem_normalRows_iff normalParsed, mem_normalRows_iff normalParsed']
    exact exists_congr fun raw => by
      rw [and_congr_left fun inHash => same.normal raw inHash.1]
  · intro row
    rw [mem_internalRows_iff internalParsed, mem_internalRows_iff internalParsed']
    exact exists_congr fun raw => by
      rw [and_congr_left fun inHash => same.internal raw inHash.1]

theorem exists_record_iff
    (mapped : mapEtherscanTransactions parseEthAddress normals internals = .ok records) :
    (∃ record ∈ records, record.txHash = hash) ↔
      (∃ raw ∈ normals, parseEtherscanTxHash raw.hash = .ok hash) ∨
        ∃ raw ∈ internals, parseEtherscanTxHash raw.hash = .ok hash := by
  obtain ⟨normalRows, internalRows, normalParsed, internalParsed, isRecord⟩ :=
    mapEtherscanTransactions_eq_ok mapped
  have gathered : (∃ record ∈ records, record.txHash = hash) ↔
      (find EtherscanAggregatedTx.txHash (gatherAll normalRows internalRows) hash).isSome := by
    rw [Option.isSome_iff_exists]
    simp only [find_eq_some_iff (keyed_gatherAll normalRows internalRows)]
    constructor
    · rintro ⟨record, member, isHash⟩
      obtain ⟨aggregated, inGathered, rfl⟩ := (isRecord record).mp member
      exact ⟨aggregated, inGathered, isHash⟩
    · rintro ⟨aggregated, inGathered, isHash⟩
      exact ⟨aggregated.toRecord, (isRecord _).mpr ⟨aggregated, inGathered, rfl⟩, isHash⟩
  have some_iff : ∀ (normals : List EtherscanNormalRow) (internals : List EtherscanRow),
      (gather normals internals).isSome ↔ (∃ row, row ∈ normals) ∨ ∃ row, row ∈ internals := by
    intro normals internals
    unfold gather
    induction internals using List.reverseRecOn with
    | nil =>
      induction normals using List.reverseRecOn with
      | nil => simp
      | append_singleton earlier last _ => simp [gatherNormal]
    | append_singleton earlier last _ => simp [gatherInternal]
  rw [gathered, find_gatherAll, some_iff]
  simp only [mem_normalRows_iff normalParsed, mem_internalRows_iff internalParsed]
  obtain ⟨normalForward, _⟩ := mem_of_mapM_eq_ok normalParsed
  obtain ⟨internalForward, _⟩ := mem_of_mapM_eq_ok internalParsed
  refine or_congr ⟨?_, ?_⟩ ⟨?_, ?_⟩
  · rintro ⟨_, raw, member, isHash, _⟩
    exact ⟨raw, member, isHash⟩
  · rintro ⟨raw, member, isHash⟩
    obtain ⟨row, _, parsed⟩ := normalForward raw member
    exact ⟨row, raw, member, isHash, parsed⟩
  · rintro ⟨_, raw, member, isHash, _⟩
    exact ⟨raw, member, isHash⟩
  · rintro ⟨raw, member, isHash⟩
    obtain ⟨row, _, parsed⟩ := internalForward raw member
    exact ⟨row, raw, member, isHash, parsed⟩

theorem keyed_records
    (mapped : mapEtherscanTransactions parseEthAddress normals internals = .ok records) :
    Keyed SyncAccountTransactionRecord.txHash records := by
  obtain ⟨normalRows, _, mapped⟩ := bind_eq_ok.mp mapped
  obtain ⟨internalRows, _, mapped⟩ := bind_eq_ok.mp mapped
  rw [pure_eq_ok] at mapped
  subst mapped
  unfold Keyed
  rw [List.map_map]
  exact (((List.mergeSort_perm _ _).map EtherscanAggregatedTx.txHash).nodup_iff).mpr
    (keyed_gatherAll normalRows internalRows)

/-- The rows of a hash name a transfer. -/
def NamesTransfer (hash : String) (normals : List EtherscanNormalTx)
    (internals : List EtherscanInternalTx) (key : ProviderTransferKey) : Prop :=
  (∃ raw ∈ normals, parseEtherscanTxHash raw.hash = .ok hash ∧ key = .normal) ∨
    ∃ raw ∈ internals, parseEtherscanTxHash raw.hash = .ok hash ∧
      ProviderTransferKey.fromInternalTraceId (trim raw.traceId) = some key

theorem record_keys
    (mapped : mapEtherscanTransactions parseEthAddress normals internals = .ok records)
    (one : OneRowEach hash normals internals) {record : SyncAccountTransactionRecord}
    (member : record ∈ records) (isHash : record.txHash = hash) :
    (record.transfers.map SyncAccountTransferRecord.providerTransferKey ++
        record.excludedTransferKeys).Nodup ∧
      ∀ key, key ∈ record.transfers.map SyncAccountTransferRecord.providerTransferKey ++
          record.excludedTransferKeys ↔ NamesTransfer hash normals internals key := by
  obtain ⟨normalRows, internalRows, normalParsed, internalParsed, isRecord⟩ :=
    mapEtherscanTransactions_eq_ok mapped
  obtain ⟨aggregated, gathered, rfl⟩ := (isRecord record).mp member
  have gathers := gathers_of_mem_records (one.oneOfEach normalParsed internalParsed) gathered isHash
  have perm := aggregated.toRecord_keys
  refine ⟨perm.nodup_iff.mpr gathers.keyed, fun key => ?_⟩
  rw [perm.mem_iff, List.mem_map]
  simp only [gathers.transfers, List.mem_append, List.mem_map, mem_normalRows_iff normalParsed,
    mem_internalRows_iff internalParsed]
  obtain ⟨normalForward, _⟩ := mem_of_mapM_eq_ok normalParsed
  obtain ⟨internalForward, _⟩ := mem_of_mapM_eq_ok internalParsed
  constructor
  · rintro ⟨_, ⟨row, ⟨raw, rawMember, inHash, parsed⟩, rfl⟩
      | ⟨row, ⟨raw, rawMember, inHash, parsed⟩,
      rfl⟩, rfl⟩
    · exact .inl ⟨raw, rawMember, inHash, (parseEtherscanNormalRow_spec parsed).2⟩
    · exact .inr ⟨raw, rawMember, inHash, (parseEtherscanInternalRow_spec parsed).2⟩
  · rintro (⟨raw, rawMember, inHash, rfl⟩ | ⟨raw, rawMember, inHash, isKey⟩)
    · obtain ⟨row, _, parsed⟩ := normalForward raw rawMember
      exact ⟨_, .inl ⟨row, ⟨raw, rawMember, inHash, parsed⟩, rfl⟩,
        (parseEtherscanNormalRow_spec parsed).2⟩
    · obtain ⟨row, _, parsed⟩ := internalForward raw rawMember
      refine ⟨_, .inr ⟨row, ⟨raw, rawMember, inHash, parsed⟩, rfl⟩, Option.some.inj ?_⟩
      exact (parseEtherscanInternalRow_spec parsed).2.symm.trans isKey

end Mapping

end Bitgarth.Store
