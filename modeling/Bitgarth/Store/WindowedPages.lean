import Bitgarth.Store.WindowedMapping

/-! # One page of the windows

A page touches the hashes of its rows. For those the newest retained rows are mapped again and
their record is stored; the other hashes keep their rows, and their newest retained rows.
-/

namespace Bitgarth.Store

open Amounts Ledger KeyedTable Text Fallible

open Sync (SyncedAssetId)

/-- A row of a hash is among some rows. -/
def HasRow (hash : String) (normals : List EtherscanNormalTx)
    (internals : List EtherscanInternalTx) : Prop :=
  (∃ raw ∈ normals, parseEtherscanTxHash raw.hash = .ok hash) ∨
    ∃ raw ∈ internals, parseEtherscanTxHash raw.hash = .ok hash

/-- The constraints of the tables. -/
structure EtherscanStore.Valid (store : EtherscanStore) : Prop where
  normalVersions : ValidVersions store.normalVersions
  internalVersions : ValidVersions store.internalVersions
  tables : store.tables.Unique

section Pages

variable (parseEthAddress : String → Except ParseError String)
  (decodeNormal : String → Except String EtherscanNormalTx)
  (decodeInternal : String → Except String EtherscanInternalTx) (toRfc3339 : ℤ → String)
  (addresses : List AddressRow) (assetId : SyncedAssetId) (network : Network)
  (sourceConnectionId : String)

/-- Among some rows, those of a hash are its newest retained ones. -/
structure NewestOf (hash : String) (store : EtherscanStore) (normals : List EtherscanNormalTx)
    (internals : List EtherscanInternalTx) : Prop where
  normal : ∀ raw, parseEtherscanTxHash raw.hash = .ok hash → (raw ∈ normals ↔
    NewestRow (normalEndpoint decodeNormal) network hash store.normalVersions raw)
  internal : ∀ raw, parseEtherscanTxHash raw.hash = .ok hash → (raw ∈ internals ↔
    NewestRow (internalEndpoint decodeInternal) network hash store.internalVersions raw)

/-- The newest retained rows of a hash name a transfer. -/
def NewestNames (hash : String) (store : EtherscanStore) (key : ProviderTransferKey) : Prop :=
  (∃ raw, NewestRow (normalEndpoint decodeNormal) network hash store.normalVersions raw ∧
    key = .normal) ∨
  ∃ raw, NewestRow (internalEndpoint decodeInternal) network hash store.internalVersions raw ∧
    ProviderTransferKey.fromInternalTraceId (trim raw.traceId) = some key

/-- What the pages so far, with their rows, have made of a hash. -/
structure HashState (hash : String) (normals : List EtherscanNormalTx)
    (internals : List EtherscanInternalTx) (store : EtherscanStore) : Prop where
  normal : RetainedFor (normalEndpoint decodeNormal) ⟨sourceConnectionId, network, 0⟩ hash normals
    store.normalVersions
  internal : RetainedFor (internalEndpoint decodeInternal) ⟨sourceConnectionId, network, 0⟩ hash
    internals store.internalVersions
  named : ∀ row ∈ store.tables.accountTransfers, row.txKey = ⟨assetId, network, hash⟩ →
    ∃ key, NewestNames decodeNormal decodeInternal network hash store key ∧
      row.providerTransferKey = key.text
  stored : HasRow hash normals internals → ∀ newestNormals newestInternals records,
    NewestOf decodeNormal decodeInternal network hash store newestNormals newestInternals →
    mapEtherscanTransactions parseEthAddress newestNormals newestInternals = .ok records →
    ∀ record ∈ records, record.txHash = hash →
      StoredAs toRfc3339 addresses assetId network record store.tables
  normalParses : HasRow hash normals internals → ∀ raw,
    NewestRow (normalEndpoint decodeNormal) network hash store.normalVersions raw →
      ∃ row, parseEtherscanNormalRow parseEthAddress raw = .ok row
  internalParses : HasRow hash normals internals → ∀ raw,
    NewestRow (internalEndpoint decodeInternal) network hash store.internalVersions raw →
      ∃ row, parseEtherscanInternalRow parseEthAddress raw = .ok row

variable {parseEthAddress decodeNormal decodeInternal toRfc3339 addresses assetId network
  sourceConnectionId} {rebuild : TransactionTables → String → Except DbError Unit}
  {store after : EtherscanStore} {page : EtherscanPageSet} {hash : String}

theorem touched_iff {normals : List EtherscanNormalTx} {internals : List EtherscanInternalTx}
    {records : List SyncAccountTransactionRecord}
    (internalIdentified : ∀ row ∈ internals, ∃ identity,
      (internalEndpoint decodeInternal).identify row = .ok identity)
    (mapped : mapEtherscanTransactions parseEthAddress
      (dedupEtherscanTxs (normalEndpoint decodeNormal) normals)
      (dedupEtherscanTxs (internalEndpoint decodeInternal) internals) = .ok records) :
    hash ∈ records.map SyncAccountTransactionRecord.txHash ↔ HasRow hash normals internals := by
  have internalLawful := internalEndpoint_lawful decodeInternal
  obtain ⟨normalKept, normalKey⟩ := @mem_dedupEtherscanTxs _ _ (normalEndpoint decodeNormal) normals
  obtain ⟨internalKept, internalKey⟩ :=
    @mem_dedupEtherscanTxs _ _ (internalEndpoint decodeInternal) internals
  rw [List.mem_map, exists_record_iff mapped]
  refine or_congr ⟨?_, ?_⟩ ⟨?_, ?_⟩
  · rintro ⟨raw, member, ofHash⟩
    exact ⟨raw, normalKept raw member, ofHash⟩
  · rintro ⟨raw, member, ofHash⟩
    obtain ⟨kept, inKept, sameKey⟩ := normalKey raw member
    have sameHash : kept.hash = raw.hash := sameKey
    exact ⟨kept, inKept, sameHash ▸ ofHash⟩
  · rintro ⟨raw, member, ofHash⟩
    exact ⟨raw, internalKept raw member, ofHash⟩
  · rintro ⟨raw, member, ofHash⟩
    obtain ⟨kept, inKept, sameKey⟩ := internalKey raw member
    obtain ⟨identity, identified⟩ := internalIdentified raw member
    obtain ⟨identity', identified'⟩ := internalIdentified kept (internalKept kept inKept)
    have sameHash := internalLawful.hash_of_dedupKey kept raw _ _ identified' identified sameKey
    exact ⟨kept, inKept, (congrArg parseEtherscanTxHash sameHash).trans ofHash⟩

theorem processEtherscanPage_spec (valid : store.Valid)
    (done : processEtherscanPage parseEthAddress decodeNormal decodeInternal toRfc3339 addresses
      rebuild assetId network sourceConnectionId store page = .ok after) :
    ∃ normals internals touched records,
      IngestedFrom (normalEndpoint decodeNormal)
        ⟨sourceConnectionId, network, page.normalObservedAt⟩ store.normalVersions page.normalItems
        after.normalVersions normals ∧
      IngestedFrom (internalEndpoint decodeInternal)
        ⟨sourceConnectionId, network, page.internalObservedAt⟩ store.internalVersions
        page.internalItems after.internalVersions internals ∧
      (∀ hash, hash ∈ touched ↔ HasRow hash normals internals) ∧
      mapRetainedEtherscanTouchedHashes parseEthAddress decodeNormal decodeInternal network touched
        after = .ok records ∧
      reconcileAccountTransactions toRfc3339 addresses rebuild assetId network records
        store.tables = .ok after.tables := by
  obtain ⟨⟨normalVersions, normals⟩, normalIngested, done⟩ := bind_eq_ok.mp done
  obtain ⟨⟨internalVersions, internals⟩, internalIngested, done⟩ := bind_eq_ok.mp done
  obtain ⟨pageRecords, pageMapped, done⟩ := bind_eq_ok.mp done
  obtain ⟨records, mapped, done⟩ := bind_eq_ok.mp done
  obtain ⟨tables, reconciled, done⟩ := bind_eq_ok.mp done
  rw [pure_eq_ok] at done
  subst done
  have normalSpec := ingestEtherscanPage_spec (normalEndpoint_lawful decodeNormal)
    valid.normalVersions normalIngested
  have internalSpec := ingestEtherscanPage_spec (internalEndpoint_lawful decodeInternal)
    valid.internalVersions internalIngested
  exact ⟨normals, internals, pageRecords.map SyncAccountTransactionRecord.txHash, records,
    normalSpec, internalSpec,
    fun hash => touched_iff internalSpec.identified (mapError_eq_ok.mp pageMapped),
    mapped, mapError_eq_ok.mp reconciled⟩

theorem mapRetained_touched {touched : List String} {records : List SyncAccountTransactionRecord}
    (mapped : mapRetainedEtherscanTouchedHashes parseEthAddress decodeNormal decodeInternal network
      touched store = .ok records) (isTouched : hash ∈ touched) :
    ∃ normals internals,
      mapEtherscanTransactions parseEthAddress normals internals = .ok records ∧
      NewestOf decodeNormal decodeInternal network hash store normals internals ∧
      OneRowEach hash normals internals ∧
      (∀ raw, NewestRow (normalEndpoint decodeNormal) network hash store.normalVersions raw →
        raw ∈ normals ∧ parseEtherscanTxHash raw.hash = .ok hash) ∧
      ∀ raw, NewestRow (internalEndpoint decodeInternal) network hash store.internalVersions raw →
        raw ∈ internals ∧ parseEtherscanTxHash raw.hash = .ok hash := by
  have normalLawful := normalEndpoint_lawful decodeNormal
  have internalLawful := internalEndpoint_lawful decodeInternal
  unfold mapRetainedEtherscanTouchedHashes at mapped
  rw [if_neg (List.ne_nil_of_mem isTouched)] at mapped
  obtain ⟨normals, normalRetained, mapped⟩ := bind_eq_ok.mp mapped
  obtain ⟨internals, internalRetained, mapped⟩ := bind_eq_ok.mp mapped
  obtain ⟨normalNewest, normalHash⟩ := retainedRows_spec normalLawful normalRetained isTouched
  obtain ⟨internalNewest, internalHash⟩ :=
    retainedRows_spec internalLawful internalRetained isTouched
  refine ⟨normals, internals, mapError_eq_ok.mp mapped, ⟨normalNewest, internalNewest⟩, ⟨?_, ?_⟩,
    ?_, ?_⟩
  · intro left leftMember right rightMember ofHash ofHash'
    obtain ⟨identity, identified, isHash⟩ :=
      normalHash left ((normalNewest left ofHash).mp leftMember)
    obtain ⟨identity', identified', isHash'⟩ :=
      normalHash right ((normalNewest right ofHash').mp rightMember)
    have same : identity' = identity := isHash'.trans isHash.symm
    exact retainedRows_unique normalLawful normalRetained leftMember rightMember identified
      (same ▸ identified')
  · intro left leftMember right rightMember ofHash ofHash' sameTrace
    obtain ⟨identity, identified, isHash⟩ :=
      internalHash left ((internalNewest left ofHash).mp leftMember)
    obtain ⟨identity', identified', isHash'⟩ :=
      internalHash right ((internalNewest right ofHash').mp rightMember)
    have traced := (identifyInternal_eq_ok.mp identified).2
    have traced' := (identifyInternal_eq_ok.mp identified').2
    have sameId : identity' = identity := by
      refine Prod.ext (isHash'.trans isHash.symm) ?_
      exact (parseTraceId_eq_ok.mp traced').2.symm.trans
        (sameTrace.symm.trans (parseTraceId_eq_ok.mp traced).2)
    exact retainedRows_unique internalLawful internalRetained leftMember rightMember identified
      (sameId ▸ identified')
  · intro raw newest
    obtain ⟨identity, identified, isHash⟩ := normalHash raw newest
    have ofHash := isHash ▸ normalLawful.hash_of_identify raw identity identified
    exact ⟨(normalNewest raw ofHash).mpr newest, ofHash⟩
  · intro raw newest
    obtain ⟨identity, identified, isHash⟩ := internalHash raw newest
    have ofHash := isHash ▸ internalLawful.hash_of_identify raw identity identified
    exact ⟨(internalNewest raw ofHash).mpr newest, ofHash⟩

theorem touched_of_mem_records {touched : List String}
    {records : List SyncAccountTransactionRecord}
    (mapped : mapRetainedEtherscanTouchedHashes parseEthAddress decodeNormal decodeInternal network
      touched store = .ok records) {record : SyncAccountTransactionRecord}
    (member : record ∈ records) : record.txHash ∈ touched := by
  unfold mapRetainedEtherscanTouchedHashes at mapped
  split at mapped
  · exact absurd (Except.ok.inj mapped ▸ member) List.not_mem_nil
  · obtain ⟨normals, normalRetained, mapped⟩ := bind_eq_ok.mp mapped
    obtain ⟨internals, internalRetained, mapped⟩ := bind_eq_ok.mp mapped
    rcases (exists_record_iff (mapError_eq_ok.mp mapped)).mp ⟨record, member, rfl⟩ with
      ⟨raw, inRows, ofHash⟩ | ⟨raw, inRows, ofHash⟩
    · exact retainedRows_touched (normalEndpoint_lawful decodeNormal) normalRetained inRows ofHash
    · exact retainedRows_touched (internalEndpoint_lawful decodeInternal) internalRetained inRows
        ofHash

theorem namesTransfer_iff {normals : List EtherscanNormalTx} {internals : List EtherscanInternalTx}
    (newest : NewestOf decodeNormal decodeInternal network hash store normals internals)
    (normalHash : ∀ raw,
      NewestRow (normalEndpoint decodeNormal) network hash store.normalVersions raw →
        raw ∈ normals ∧ parseEtherscanTxHash raw.hash = .ok hash)
    (internalHash : ∀ raw,
      NewestRow (internalEndpoint decodeInternal) network hash store.internalVersions raw →
        raw ∈ internals ∧ parseEtherscanTxHash raw.hash = .ok hash)
    (key : ProviderTransferKey) :
    NamesTransfer hash normals internals key ↔
      NewestNames decodeNormal decodeInternal network hash store key := by
  refine or_congr ⟨?_, ?_⟩ ⟨?_, ?_⟩
  · rintro ⟨raw, member, ofHash, isKey⟩
    exact ⟨raw, (newest.normal raw ofHash).mp member, isKey⟩
  · rintro ⟨raw, isNewest, isKey⟩
    exact ⟨raw, (normalHash raw isNewest).1, (normalHash raw isNewest).2, isKey⟩
  · rintro ⟨raw, member, ofHash, isKey⟩
    exact ⟨raw, (newest.internal raw ofHash).mp member, isKey⟩
  · rintro ⟨raw, isNewest, isKey⟩
    exact ⟨raw, (internalHash raw isNewest).1, (internalHash raw isNewest).2, isKey⟩

theorem NewestNames.mono {normals normals' : List EtherscanNormalTx}
    {internals internals' : List EtherscanInternalTx}
    (normal : RetainedFor (normalEndpoint decodeNormal) ⟨sourceConnectionId, network, 0⟩ hash
      normals store.normalVersions)
    (internal : RetainedFor (internalEndpoint decodeInternal) ⟨sourceConnectionId, network, 0⟩ hash
      internals store.internalVersions)
    (normalAfter : RetainedFor (normalEndpoint decodeNormal) ⟨sourceConnectionId, network, 0⟩ hash
      (normals ++ normals') after.normalVersions)
    (internalAfter : RetainedFor (internalEndpoint decodeInternal) ⟨sourceConnectionId, network, 0⟩
      hash (internals ++ internals') after.internalVersions)
    {key : ProviderTransferKey}
    (names : NewestNames decodeNormal decodeInternal network hash store key) :
    NewestNames decodeNormal decodeInternal network hash after key := by
  rcases names with ⟨raw, newest, isKey⟩ | ⟨raw, newest, isKey⟩
  · obtain ⟨inRows, identity, identified, ofHash⟩ := normal.mem_of_newest newest
    obtain ⟨other, _, otherNewest, _⟩ :=
      normalAfter.exists_newest (List.mem_append_left _ inRows) identified ofHash
    exact .inl ⟨other, otherNewest, isKey⟩
  · obtain ⟨inRows, identity, identified, ofHash⟩ := internal.mem_of_newest newest
    obtain ⟨other, _, otherNewest, otherIdentified⟩ :=
      internalAfter.exists_newest (List.mem_append_left _ inRows) identified ofHash
    refine .inr ⟨other, otherNewest, ?_⟩
    have traced := (identifyInternal_eq_ok.mp identified).2
    have traced' := (identifyInternal_eq_ok.mp otherIdentified).2
    have sameTrace : trim other.traceId = trim raw.traceId :=
      (parseTraceId_eq_ok.mp traced').2.trans (parseTraceId_eq_ok.mp traced).2.symm
    rw [sameTrace]
    exact isKey

section Ingested

variable {Row Identity : Type} [DecidableEq Identity] {endpoint : EtherscanEndpoint Row Identity}
  {request : EtherscanPageIngestionRequest} {versions later : List (RawVersion Identity)}
  {items : List (EtherscanFetchedItem Row)} {rows : List Row} {raw : Row}

theorem newestRow_of_untouched (lawful : endpoint.Lawful)
    (ingested : IngestedFrom endpoint request versions items later rows)
    (untouched : ∀ raw ∈ rows, parseEtherscanTxHash (endpoint.hash raw) ≠ .ok hash) :
    NewestRow endpoint network hash later raw ↔ NewestRow endpoint network hash versions raw := by
  have same : headsOf endpoint network hash later = headsOf endpoint network hash versions := by
    apply ingested.moves
    intro row member version identified
    rw [decide_eq_false_iff_not]
    rintro ⟨_, ofHash⟩
    exact untouched row member (ofHash ▸ lawful.hash_of_identify row _ identified)
  unfold NewestRow
  rw [same]

theorem exists_newestRow_of_page (lawful : endpoint.Lawful)
    (ingested : IngestedFrom endpoint request versions items later rows) {before : List Row}
    (kept : RetainedFor endpoint ⟨sourceConnectionId, network, 0⟩ hash (before ++ rows) later)
    (inPage : raw ∈ rows) (ofHash : parseEtherscanTxHash (endpoint.hash raw) = .ok hash) :
    ∃ newest, NewestRow endpoint network hash later newest := by
  obtain ⟨identity, identified⟩ := ingested.identified raw inPage
  have isHash := Except.ok.inj ((lawful.hash_of_identify raw identity identified).symm.trans ofHash)
  obtain ⟨newest, _, isNewest, _⟩ :=
    kept.exists_newest (List.mem_append_right _ inPage) identified isHash
  exact ⟨newest, isNewest⟩

end Ingested

theorem SyncAccountTransactionRecord.key_of_txHash {record : SyncAccountTransactionRecord}
    (ofHash : record.txHash = hash) : record.key assetId network = ⟨assetId, network, hash⟩ :=
  ofHash ▸ rfl

theorem hasRow_append {normals normals' : List EtherscanNormalTx}
    {internals internals' : List EtherscanInternalTx} :
    HasRow hash (normals ++ normals') (internals ++ internals') ↔
      HasRow hash normals internals ∨ HasRow hash normals' internals' := by
  unfold HasRow
  simp only [List.mem_append, or_and_right, exists_or]
  exact or_or_or_comm

theorem HashState.untouched {normals normals' : List EtherscanNormalTx}
    {internals internals' : List EtherscanInternalTx}
    (state : HashState parseEthAddress decodeNormal decodeInternal toRfc3339 addresses assetId
      network sourceConnectionId hash normals internals store)
    (normalLater : RetainedFor (normalEndpoint decodeNormal) ⟨sourceConnectionId, network, 0⟩
      hash (normals ++ normals') after.normalVersions)
    (internalLater : RetainedFor (internalEndpoint decodeInternal)
      ⟨sourceConnectionId, network, 0⟩ hash (internals ++ internals') after.internalVersions)
    (noRow : ¬ HasRow hash normals' internals')
    (normalNewest : ∀ raw,
      NewestRow (normalEndpoint decodeNormal) network hash after.normalVersions raw ↔
        NewestRow (normalEndpoint decodeNormal) network hash store.normalVersions raw)
    (internalNewest : ∀ raw,
      NewestRow (internalEndpoint decodeInternal) network hash after.internalVersions raw ↔
        NewestRow (internalEndpoint decodeInternal) network hash store.internalVersions raw)
    (same : store.tables.SameAt after.tables ⟨assetId, network, hash⟩) :
    HashState parseEthAddress decodeNormal decodeInternal toRfc3339 addresses assetId network
      sourceConnectionId hash (normals ++ normals') (internals ++ internals') after := by
  have before : HasRow hash (normals ++ normals') (internals ++ internals') →
      HasRow hash normals internals := fun hasRow =>
    (hasRow_append.mp hasRow).resolve_right noRow
  refine ⟨normalLater, internalLater, ?_, ?_, ?_, ?_⟩
  · intro row inTables own
    have filtered : row ∈ (store.tables.accountTransfers.filter fun row =>
        row.txKey = ⟨assetId, network, hash⟩) ↔ _ :=
      iff_of_eq (congrArg (row ∈ ·) same.transfers)
    have inStore := filtered.mpr (List.mem_filter.mpr ⟨inTables, decide_eq_true own⟩)
    obtain ⟨key, named, isText⟩ := state.named row (List.mem_filter.mp inStore).1 own
    exact ⟨key, named.mono state.normal state.internal normalLater internalLater, isText⟩
  · intro hasRow newestNormals newestInternals otherRecords newest mapping record member ofHash
    have stored := state.stored (before hasRow) newestNormals newestInternals otherRecords
      ⟨fun raw ofHash => (newest.normal raw ofHash).trans (normalNewest raw),
        fun raw ofHash => (newest.internal raw ofHash).trans (internalNewest raw)⟩
      mapping record member ofHash
    apply stored.of_sameAt
    rw [SyncAccountTransactionRecord.key_of_txHash ofHash]
    exact same
  · exact fun hasRow raw isNewest =>
      state.normalParses (before hasRow) raw ((normalNewest raw).mp isNewest)
  · exact fun hasRow raw isNewest =>
      state.internalParses (before hasRow) raw ((internalNewest raw).mp isNewest)

variable (toRfc3339 addresses assetId) in
theorem HashState.afterPage {normals : List EtherscanNormalTx}
    {internals : List EtherscanInternalTx}
    (valid : store.Valid)
    (state : HashState parseEthAddress decodeNormal decodeInternal toRfc3339 addresses assetId
      network sourceConnectionId hash normals internals store)
    (done : processEtherscanPage parseEthAddress decodeNormal decodeInternal toRfc3339 addresses
      rebuild assetId network sourceConnectionId store page = .ok after) :
    HashState parseEthAddress decodeNormal decodeInternal toRfc3339 addresses assetId network
      sourceConnectionId hash
      (normals ++ decodedRows (normalEndpoint decodeNormal) page.normalItems)
      (internals ++ decodedRows (internalEndpoint decodeInternal) page.internalItems) after := by
  obtain ⟨pageNormals, pageInternals, touched, records, normalIngested, internalIngested,
    isTouched, mapped, reconciled⟩ := processEtherscanPage_spec valid done
  rw [← normalIngested.isRows, ← internalIngested.isRows]
  have normalAfter := normalIngested.retains hash normals ⟨state.normal.own, state.normal.headed⟩
  have internalAfter :=
    internalIngested.retains hash internals ⟨state.internal.own, state.internal.headed⟩
  have normalLater : RetainedFor (normalEndpoint decodeNormal) ⟨sourceConnectionId, network, 0⟩
      hash (normals ++ pageNormals) after.normalVersions :=
    ⟨normalAfter.own, normalAfter.headed⟩
  have internalLater : RetainedFor (internalEndpoint decodeInternal)
      ⟨sourceConnectionId, network, 0⟩ hash (internals ++ pageInternals) after.internalVersions :=
    ⟨internalAfter.own, internalAfter.headed⟩
  by_cases inTouched : hash ∈ touched
  · obtain ⟨newestNormals, newestInternals, mapping, newest, one, normalHash, internalHash⟩ :=
      mapRetained_touched mapped inTouched
    have names := namesTransfer_iff newest normalHash internalHash
    have stored : ∀ record ∈ records, record.txHash = hash →
        StoredAs toRfc3339 addresses assetId network record after.tables := by
      intro record member ofHash
      obtain ⟨once, keys⟩ := record_keys mapping one member ofHash
      apply storedAs_of_reconcileAccountTransactions reconciled valid.tables
        (keyed_records mapping) member once
      · intro key named
        rcases (keys key).mp named with ⟨_, _, _, isNormal⟩ | ⟨raw, _, _, fromTrace⟩
        · exact .inl isNormal
        · exact .inr ⟨_, (fromInternalTraceId_eq_some.mp fromTrace).2⟩
      · intro row member own
        obtain ⟨key, named, isText⟩ := state.named row member
          (own.trans (SyncAccountTransactionRecord.key_of_txHash ofHash))
        have later := named.mono state.normal state.internal normalLater internalLater
        exact ⟨key, (keys key).mpr ((names key).mpr later), isText⟩
    obtain ⟨record, member, ofHash⟩ : ∃ record ∈ records, record.txHash = hash := by
      apply (exists_record_iff mapping).mpr
      rcases (isTouched hash).mp inTouched with ⟨raw, inPage, ofHash⟩ | ⟨raw, inPage, ofHash⟩
      · obtain ⟨newest, isNewest⟩ := exists_newestRow_of_page (normalEndpoint_lawful decodeNormal)
          normalIngested normalLater inPage ofHash
        exact .inl ⟨newest, normalHash newest isNewest⟩
      · obtain ⟨newest, isNewest⟩ := exists_newestRow_of_page
          (internalEndpoint_lawful decodeInternal) internalIngested internalLater inPage ofHash
        exact .inr ⟨newest, internalHash newest isNewest⟩
    obtain ⟨normalParsed, internalParsed⟩ := exists_mapEtherscanTransactions.mp ⟨records, mapping⟩
    refine ⟨normalLater, internalLater, ?_, ?_, ?_, ?_⟩
    · intro row inTables own
      have isKey := own.trans (SyncAccountTransactionRecord.key_of_txHash ofHash).symm
      obtain ⟨transfer, inRecord, isStored⟩ :=
        ((stored record member ofHash).transfers row isKey).mp inTables
      obtain ⟨_, keys⟩ := record_keys mapping one member ofHash
      refine ⟨transfer.providerTransferKey, (names _).mp ((keys _).mp
        (List.mem_append_left _ (List.mem_map_of_mem inRecord))), ?_⟩
      exact congrArg Prod.snd (storedTransfer_key isStored)
    · intro _ otherNormals otherInternals otherRecords otherNewest otherMapping other inOther
        otherHash
      have agrees := mapEtherscanTransactions_agrees mapping otherMapping one
        ⟨fun raw ofHash => (newest.normal raw ofHash).trans (otherNewest.normal raw ofHash).symm,
          fun raw ofHash =>
            (newest.internal raw ofHash).trans (otherNewest.internal raw ofHash).symm⟩
        member inOther ofHash otherHash
      exact (stored record member ofHash).of_agrees agrees
    · exact fun _ raw isNewest => normalParsed raw (normalHash raw isNewest).1
    · exact fun _ raw isNewest => internalParsed raw (internalHash raw isNewest).1
  · have noRow : ¬ HasRow hash pageNormals pageInternals := fun hasRow =>
      inTouched ((isTouched hash).mpr hasRow)
    have same : store.tables.SameAt after.tables ⟨assetId, network, hash⟩ := by
      apply reconcileAccountTransactions_sameAt reconciled
      intro record member isKey
      have ofHash : hash = record.txHash := congrArg TxKey.txHash isKey
      exact inTouched (ofHash ▸ touched_of_mem_records mapped member)
    refine state.untouched normalLater internalLater noRow (fun _ => ?_) (fun _ => ?_) same
    · exact newestRow_of_untouched (normalEndpoint_lawful decodeNormal) normalIngested
        fun raw member ofHash => noRow (.inl ⟨raw, member, ofHash⟩)
    · exact newestRow_of_untouched (internalEndpoint_lawful decodeInternal) internalIngested
        fun raw member ofHash => noRow (.inr ⟨raw, member, ofHash⟩)

theorem EtherscanStore.Valid.afterPage (valid : store.Valid)
    (done : processEtherscanPage parseEthAddress decodeNormal decodeInternal toRfc3339 addresses
      rebuild assetId network sourceConnectionId store page = .ok after) : after.Valid := by
  obtain ⟨_, _, _, _, normalIngested, internalIngested, _, _, reconciled⟩ :=
    processEtherscanPage_spec valid done
  exact ⟨normalIngested.valid, internalIngested.valid,
    reconcileAccountTransactions_unique reconciled valid.tables⟩

end Pages

end Bitgarth.Store
