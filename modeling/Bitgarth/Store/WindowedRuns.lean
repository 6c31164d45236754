import Bitgarth.Store.WindowedPages

/-! # Runs of pages

Whatever the split of the rows into pages, the pages leave each hash as one mapping of its newest
retained rows makes it; when no two rows of one identity differ, that is one mapping of all rows.
-/

namespace Bitgarth.Store

open Amounts Ledger KeyedTable Text Fallible

open Sync (SyncedAssetId)

section Runs

variable (parseEthAddress : String → Except ParseError String)
  (decodeNormal : String → Except String EtherscanNormalTx)
  (decodeInternal : String → Except String EtherscanInternalTx) (toRfc3339 : ℤ → String)
  (addresses : List AddressRow) (rebuild : TransactionTables → String → Except DbError Unit)
  (assetId : SyncedAssetId) (network : Network) (sourceConnectionId : String)

/-- The pages one by one, each committed before the next. -/
def processEtherscanPages (pages : List EtherscanPageSet) (store : EtherscanStore) :
    Except MonitorError EtherscanStore :=
  pages.foldlM (processEtherscanPage parseEthAddress decodeNormal decodeInternal toRfc3339
    addresses rebuild assetId network sourceConnectionId) store

/-- The normal rows the pages bring. -/
def normalRowsOf (pages : List EtherscanPageSet) : List EtherscanNormalTx :=
  pages.flatMap fun page => decodedRows (normalEndpoint decodeNormal) page.normalItems

/-- The internal rows the pages bring. -/
def internalRowsOf (pages : List EtherscanPageSet) : List EtherscanInternalTx :=
  pages.flatMap fun page => decodedRows (internalEndpoint decodeInternal) page.internalItems

/-- Nothing of a hash has been retained or stored. -/
structure EtherscanStore.FreshFor (hash : String) (store : EtherscanStore) : Prop where
  normalVersions : ∀ version ∈ store.normalVersions, version.identity ≠ hash
  internalVersions : ∀ version ∈ store.internalVersions, version.identity.1 ≠ hash
  accountTransfers : ∀ row ∈ store.tables.accountTransfers, row.txKey ≠ ⟨assetId, network, hash⟩

/-- The mapping of some rows succeeds, and the tables hold its records, one for each hash. -/
def MapsToStored (normals : List EtherscanNormalTx) (internals : List EtherscanInternalTx)
    (tables : TransactionTables) : Prop :=
  ∃ records, mapEtherscanTransactions parseEthAddress normals internals = .ok records ∧
    (∀ hash, (∃ record ∈ records, record.txHash = hash) ↔ HasRow hash normals internals) ∧
    ∀ record ∈ records, StoredAs toRfc3339 addresses assetId network record tables

variable {parseEthAddress decodeNormal decodeInternal toRfc3339 addresses rebuild assetId network
  sourceConnectionId} {pages : List EtherscanPageSet} {start final : EtherscanStore}
  {hash : String}

theorem HashState.atStart (fresh : start.FreshFor assetId network hash) :
    HashState parseEthAddress decodeNormal decodeInternal toRfc3339 addresses assetId network
      sourceConnectionId hash [] [] start := by
  have noRow : ¬ HasRow hash [] [] := by simp [HasRow]
  refine ⟨⟨?_, ?_⟩, ⟨?_, ?_⟩, ?_, ?_, ?_, ?_⟩
  · exact fun version member ofHash => absurd ofHash (fresh.normalVersions version member)
  · exact fun _ member => absurd member List.not_mem_nil
  · exact fun version member ofHash => absurd ofHash (fresh.internalVersions version member)
  · exact fun _ member => absurd member List.not_mem_nil
  · exact fun row member own => absurd own (fresh.accountTransfers row member)
  · exact fun hasRow => absurd hasRow noRow
  · exact fun hasRow => absurd hasRow noRow
  · exact fun hasRow => absurd hasRow noRow

variable (toRfc3339 addresses assetId) in
theorem hashState_of_pages (valid : start.Valid) (fresh : start.FreshFor assetId network hash)
    (done : processEtherscanPages parseEthAddress decodeNormal decodeInternal toRfc3339 addresses
      rebuild assetId network sourceConnectionId pages start = .ok final) :
    HashState parseEthAddress decodeNormal decodeInternal toRfc3339 addresses assetId network
      sourceConnectionId hash (normalRowsOf decodeNormal pages)
      (internalRowsOf decodeInternal pages) final := by
  refine (foldlM_invariant (fun handled (store : EtherscanStore) => store.Valid ∧
    HashState parseEthAddress decodeNormal decodeInternal toRfc3339 addresses assetId network
      sourceConnectionId hash (normalRowsOf decodeNormal handled)
      (internalRowsOf decodeInternal handled) store) ?_ done ⟨valid, .atStart fresh⟩).2
  rintro handled page store after ⟨valid, state⟩ step
  refine ⟨valid.afterPage step, ?_⟩
  have later := state.afterPage toRfc3339 addresses assetId valid step
  unfold normalRowsOf internalRowsOf
  rw [List.flatMap_append, List.flatMap_append, List.flatMap_singleton, List.flatMap_singleton]
  exact later

theorem identified_of_pages (valid : start.Valid)
    (done : processEtherscanPages parseEthAddress decodeNormal decodeInternal toRfc3339 addresses
      rebuild assetId network sourceConnectionId pages start = .ok final) :
    (∀ raw ∈ normalRowsOf decodeNormal pages, ∃ identity,
      (normalEndpoint decodeNormal).identify raw = .ok identity) ∧
      ∀ raw ∈ internalRowsOf decodeInternal pages, ∃ identity,
        (internalEndpoint decodeInternal).identify raw = .ok identity := by
  refine (foldlM_invariant (fun handled (store : EtherscanStore) => store.Valid ∧
    (∀ raw ∈ normalRowsOf decodeNormal handled, ∃ identity,
      (normalEndpoint decodeNormal).identify raw = .ok identity) ∧
      ∀ raw ∈ internalRowsOf decodeInternal handled, ∃ identity,
        (internalEndpoint decodeInternal).identify raw = .ok identity) ?_ done
    ⟨valid, by simp [normalRowsOf], by simp [internalRowsOf]⟩).2
  rintro handled page store after ⟨valid, normal, internal⟩ step
  obtain ⟨normals, internals, _, _, normalIngested, internalIngested, _⟩ :=
    processEtherscanPage_spec valid step
  refine ⟨valid.afterPage step, ?_, ?_⟩
  · intro raw member
    unfold normalRowsOf at member
    rw [List.flatMap_append, List.flatMap_singleton, ← normalIngested.isRows] at member
    exact (List.mem_append.mp member).elim (normal raw) (normalIngested.identified raw)
  · intro raw member
    unfold internalRowsOf at member
    rw [List.flatMap_append, List.flatMap_singleton, ← internalIngested.isRows] at member
    exact (List.mem_append.mp member).elim (internal raw) (internalIngested.identified raw)

theorem mapsToStored_of_newest {allNormals normals : List EtherscanNormalTx}
    {allInternals internals : List EtherscanInternalTx}
    (states : ∀ hash, HasRow hash allNormals allInternals →
      HashState parseEthAddress decodeNormal decodeInternal toRfc3339 addresses assetId network
        sourceConnectionId hash allNormals allInternals final)
    (newest : ∀ hash, HasRow hash allNormals allInternals →
      NewestOf decodeNormal decodeInternal network hash final normals internals)
    (normalBrought : ∀ raw ∈ normals, raw ∈ allNormals ∧
      ∃ hash, parseEtherscanTxHash raw.hash = .ok hash)
    (internalBrought : ∀ raw ∈ internals, raw ∈ allInternals ∧
      ∃ hash, parseEtherscanTxHash raw.hash = .ok hash) :
    MapsToStored parseEthAddress toRfc3339 addresses assetId network normals internals
      final.tables := by
  obtain ⟨records, mapped⟩ : ∃ records,
      mapEtherscanTransactions parseEthAddress normals internals = .ok records := by
    refine exists_mapEtherscanTransactions.mpr ⟨?_, ?_⟩
    · intro raw member
      obtain ⟨brought, hash, ofHash⟩ := normalBrought raw member
      have hasRow : HasRow hash allNormals allInternals := .inl ⟨raw, brought, ofHash⟩
      exact (states hash hasRow).normalParses hasRow raw
        (((newest hash hasRow).normal raw ofHash).mp member)
    · intro raw member
      obtain ⟨brought, hash, ofHash⟩ := internalBrought raw member
      have hasRow : HasRow hash allNormals allInternals := .inr ⟨raw, brought, ofHash⟩
      exact (states hash hasRow).internalParses hasRow raw
        (((newest hash hasRow).internal raw ofHash).mp member)
  refine ⟨records, mapped, fun hash => exists_record_iff mapped, fun record member => ?_⟩
  have hasRow : HasRow record.txHash allNormals allInternals := by
    rcases (exists_record_iff mapped).mp ⟨record, member, rfl⟩ with
      ⟨raw, inRows, ofHash⟩ | ⟨raw, inRows, ofHash⟩
    · exact .inl ⟨raw, (normalBrought raw inRows).1, ofHash⟩
    · exact .inr ⟨raw, (internalBrought raw inRows).1, ofHash⟩
  exact (states _ hasRow).stored hasRow normals internals records (newest _ hasRow) mapped record
    member rfl

theorem HashState.hasRow_newest {allNormals normals : List EtherscanNormalTx}
    {allInternals internals : List EtherscanInternalTx}
    (state : HashState parseEthAddress decodeNormal decodeInternal toRfc3339 addresses assetId
      network sourceConnectionId hash allNormals allInternals final)
    (identified : (∀ raw ∈ allNormals, ∃ identity,
      (normalEndpoint decodeNormal).identify raw = .ok identity) ∧
      ∀ raw ∈ allInternals, ∃ identity,
        (internalEndpoint decodeInternal).identify raw = .ok identity)
    (newest : NewestOf decodeNormal decodeInternal network hash final normals internals)
    (hasRow : HasRow hash allNormals allInternals) : HasRow hash normals internals := by
  rcases hasRow with ⟨raw, member, ofHash⟩ | ⟨raw, member, ofHash⟩
  · obtain ⟨identity, isIdentity⟩ := identified.1 raw member
    have lawful := normalEndpoint_lawful decodeNormal
    have isHash := Except.ok.inj
      ((lawful.hash_of_identify raw identity isIdentity).symm.trans ofHash)
    obtain ⟨other, _, otherNewest, otherIdentity⟩ :=
      state.normal.exists_newest member isIdentity isHash
    have otherHash := isHash ▸ lawful.hash_of_identify other identity otherIdentity
    exact .inl ⟨other, (newest.normal other otherHash).mpr otherNewest, otherHash⟩
  · obtain ⟨identity, isIdentity⟩ := identified.2 raw member
    have lawful := internalEndpoint_lawful decodeInternal
    have isHash := Except.ok.inj
      ((lawful.hash_of_identify raw identity isIdentity).symm.trans ofHash)
    obtain ⟨other, _, otherNewest, otherIdentity⟩ :=
      state.internal.exists_newest member isIdentity isHash
    have otherHash := isHash ▸ lawful.hash_of_identify other identity otherIdentity
    exact .inr ⟨other, (newest.internal other otherHash).mpr otherNewest, otherHash⟩

theorem newestOf_of_oneRowEach {normals : List EtherscanNormalTx}
    {internals : List EtherscanInternalTx}
    (state : HashState parseEthAddress decodeNormal decodeInternal toRfc3339 addresses assetId
      network sourceConnectionId hash normals internals final)
    (one : OneRowEach hash normals internals)
    (identified : (∀ raw ∈ normals, ∃ identity,
      (normalEndpoint decodeNormal).identify raw = .ok identity) ∧
      ∀ raw ∈ internals, ∃ identity,
        (internalEndpoint decodeInternal).identify raw = .ok identity) :
    NewestOf decodeNormal decodeInternal network hash final normals internals := by
  have normalLawful := normalEndpoint_lawful decodeNormal
  have internalLawful := internalEndpoint_lawful decodeInternal
  refine ⟨fun raw ofHash => ⟨fun member => ?_, fun isNewest => ?_⟩,
    fun raw ofHash => ⟨fun member => ?_, fun isNewest => ?_⟩⟩
  · obtain ⟨identity, isIdentity⟩ := identified.1 raw member
    have isHash := Except.ok.inj
      ((normalLawful.hash_of_identify raw identity isIdentity).symm.trans ofHash)
    obtain ⟨other, inRows, otherNewest, otherIdentity⟩ :=
      state.normal.exists_newest member isIdentity isHash
    have otherHash := isHash ▸ normalLawful.hash_of_identify other identity otherIdentity
    exact one.normal other inRows raw member otherHash ofHash ▸ otherNewest
  · exact (state.normal.mem_of_newest isNewest).1
  · obtain ⟨identity, isIdentity⟩ := identified.2 raw member
    have isHash := Except.ok.inj
      ((internalLawful.hash_of_identify raw identity isIdentity).symm.trans ofHash)
    obtain ⟨other, inRows, otherNewest, otherIdentity⟩ :=
      state.internal.exists_newest member isIdentity isHash
    have otherHash := isHash ▸ internalLawful.hash_of_identify other identity otherIdentity
    have traced := (identifyInternal_eq_ok.mp isIdentity).2
    have traced' := (identifyInternal_eq_ok.mp otherIdentity).2
    have sameTrace : trim other.traceId = trim raw.traceId :=
      (parseTraceId_eq_ok.mp traced').2.trans (parseTraceId_eq_ok.mp traced).2.symm
    exact one.internal other inRows raw member otherHash ofHash sameTrace ▸ otherNewest
  · exact (state.internal.mem_of_newest isNewest).1

/-- The pages leave what one mapping of the newest retained rows makes, and what one mapping of
all rows makes when no two rows of one identity differ. -/
theorem processEtherscanPages_stored (valid : start.Valid)
    (fresh : ∀ hash, HasRow hash (normalRowsOf decodeNormal pages)
      (internalRowsOf decodeInternal pages) → start.FreshFor assetId network hash)
    (done : processEtherscanPages parseEthAddress decodeNormal decodeInternal toRfc3339 addresses
      rebuild assetId network sourceConnectionId pages start = .ok final) :
    (∀ touchedHashes, (∀ hash, hash ∈ touchedHashes ↔
        HasRow hash (normalRowsOf decodeNormal pages) (internalRowsOf decodeInternal pages)) →
      ∃ records, mapRetainedEtherscanTouchedHashes parseEthAddress decodeNormal decodeInternal
          network touchedHashes final = .ok records ∧
        (∀ hash, (∃ record ∈ records, record.txHash = hash) ↔ hash ∈ touchedHashes) ∧
        ∀ record ∈ records, StoredAs toRfc3339 addresses assetId network record final.tables) ∧
      ((∀ hash, OneRowEach hash (normalRowsOf decodeNormal pages)
          (internalRowsOf decodeInternal pages)) →
        ∀ normals internals, (∀ raw, raw ∈ normals ↔ raw ∈ normalRowsOf decodeNormal pages) →
          (∀ raw, raw ∈ internals ↔ raw ∈ internalRowsOf decodeInternal pages) →
          MapsToStored parseEthAddress toRfc3339 addresses assetId network normals internals
            final.tables) := by
  have normalLawful := normalEndpoint_lawful decodeNormal
  have internalLawful := internalEndpoint_lawful decodeInternal
  have states := fun hash hasRow =>
    hashState_of_pages toRfc3339 addresses assetId valid (fresh hash hasRow) done
  have identified := identified_of_pages valid done
  refine ⟨?_, ?_⟩
  · intro touchedHashes isTouched
    have state := fun hash touched => states hash ((isTouched hash).mp touched)
    obtain ⟨normals, normalRetained, normalBrought⟩ :=
      exists_retainedRows normalLawful fun hash touched => (state hash touched).normal
    obtain ⟨internals, internalRetained, internalBrought⟩ :=
      exists_retainedRows internalLawful fun hash touched => (state hash touched).internal
    have newest : ∀ hash ∈ touchedHashes,
        NewestOf decodeNormal decodeInternal network hash final normals internals :=
      fun hash touched => ⟨(retainedRows_spec normalLawful normalRetained touched).1,
        (retainedRows_spec internalLawful internalRetained touched).1⟩
    obtain ⟨records, mapped, ofHash, stored⟩ := mapsToStored_of_newest states
      (fun hash hasRow => newest hash ((isTouched hash).mpr hasRow)) normalBrought internalBrought
    have hasRow_iff : ∀ hash, HasRow hash normals internals ↔ hash ∈ touchedHashes := by
      intro hash
      refine ⟨?_, fun touched => ?_⟩
      · rintro (⟨raw, member, ofHash⟩ | ⟨raw, member, ofHash⟩)
        · exact (isTouched hash).mpr (.inl ⟨raw, (normalBrought raw member).1, ofHash⟩)
        · exact (isTouched hash).mpr (.inr ⟨raw, (internalBrought raw member).1, ofHash⟩)
      · exact (state hash touched).hasRow_newest identified (newest hash touched)
          ((isTouched hash).mp touched)
    refine ⟨records, ?_, fun hash => (ofHash hash).trans (hasRow_iff hash), stored⟩
    unfold mapRetainedEtherscanTouchedHashes
    split <;> rename_i untouched
    · have noRecord : records = [] := by
        refine List.eq_nil_iff_forall_not_mem.mpr fun record member => ?_
        have touched := (hasRow_iff _).mp ((ofHash _).mp ⟨record, member, rfl⟩)
        exact absurd (untouched ▸ touched) List.not_mem_nil
      rw [noRecord]
    · rw [normalRetained, internalRetained]
      exact mapError_eq_ok.mpr mapped
  · intro one normals internals sameNormals sameInternals
    apply mapsToStored_of_newest states
    · intro hash hasRow
      have newest := newestOf_of_oneRowEach (states hash hasRow) (one hash) identified
      exact ⟨fun raw ofHash => (sameNormals raw).trans (newest.normal raw ofHash),
        fun raw ofHash => (sameInternals raw).trans (newest.internal raw ofHash)⟩
    · intro raw member
      have brought := (sameNormals raw).mp member
      obtain ⟨identity, isIdentity⟩ := identified.1 raw brought
      exact ⟨brought, _, normalLawful.hash_of_identify raw identity isIdentity⟩
    · intro raw member
      have brought := (sameInternals raw).mp member
      obtain ⟨identity, isIdentity⟩ := identified.2 raw brought
      exact ⟨brought, _, internalLawful.hash_of_identify raw identity isIdentity⟩

end Runs

/-! ## One hash in two pages -/

def paidHash : String := "1111111111111111111111111111111111111111111111111111111111111111"

/-- A payment to an address in a block. -/
def paidNormal (block : String) : EtherscanNormalTx where
  hash := "0x1111111111111111111111111111111111111111111111111111111111111111"
  blockNumber := block
  timeStamp := ""
  fromAddress := ""
  toAddress := "0x2222222222222222222222222222222222222222"
  value := "5"
  gasPrice := "1"
  gasUsed := "1"
  isError := ""
  txreceiptStatus := ""
  nonce := ""

/-- A failed payment by a contract in the same transaction. -/
def failedInternal : EtherscanInternalTx where
  hash := "0x1111111111111111111111111111111111111111111111111111111111111111"
  blockNumber := "100"
  timeStamp := ""
  fromAddress := ""
  toAddress := "0x2222222222222222222222222222222222222222"
  value := "7"
  isError := "1"
  callType := ""
  traceId := "0"

/-- The payloads, as the endpoints send them. -/
def paidNormalAt100 : String :=
  "\x7b\"hash\":\"0x1111111111111111111111111111111111111111111111111111111111111111\",\"blockNumber\":\"100\",\"timeStamp\":\"\",\"from\":\"\",\"to\":\"0x2222222222222222222222222222222222222222\",\"value\":\"5\",\"gasPrice\":\"1\",\"gasUsed\":\"1\"\x7d"

def paidNormalAt99 : String :=
  "\x7b\"hash\":\"0x1111111111111111111111111111111111111111111111111111111111111111\",\"blockNumber\":\"99\",\"timeStamp\":\"\",\"from\":\"\",\"to\":\"0x2222222222222222222222222222222222222222\",\"value\":\"5\",\"gasPrice\":\"1\",\"gasUsed\":\"1\"\x7d"

def failedInternalAt100 : String :=
  "\x7b\"hash\":\"0x1111111111111111111111111111111111111111111111111111111111111111\",\"blockNumber\":\"100\",\"timeStamp\":\"\",\"from\":\"\",\"to\":\"0x2222222222222222222222222222222222222222\",\"value\":\"7\",\"isError\":\"1\",\"traceId\":\"0\"\x7d"

def decodePaidNormal (payload : String) : Except String EtherscanNormalTx :=
  if payload = paidNormalAt100 then .ok (paidNormal "100")
  else if payload = paidNormalAt99 then .ok (paidNormal "99")
  else .error "unknown payload"

def decodeFailedInternal (payload : String) : Except String EtherscanInternalTx :=
  if payload = failedInternalAt100 then .ok failedInternal else .error "unknown payload"

/-- A page with a payment. -/
def paidNormalPage (rawVersionId block payload : String) : EtherscanPageSet where
  normalItems := [⟨rawVersionId, paidNormal block, payload⟩]
  internalItems := []
  normalObservedAt := 0
  internalObservedAt := 0

/-- A page with the failed payment. -/
def failedInternalPage : EtherscanPageSet where
  normalItems := []
  internalItems := [⟨"raw-3", failedInternal, failedInternalAt100⟩]
  normalObservedAt := 0
  internalObservedAt := 0

/-- The payment in one block and then in another. -/
def movedPages : List EtherscanPageSet :=
  [paidNormalPage "raw-1" "100" paidNormalAt100, paidNormalPage "raw-2" "99" paidNormalAt99]

/-- The payment, and later the failed one. -/
def splitPages : List EtherscanPageSet :=
  [paidNormalPage "raw-1" "100" paidNormalAt100, failedInternalPage]

def emptyStore : EtherscanStore where
  normalVersions := []
  internalVersions := []
  tables := emptyTables

/-- The tracked address. -/
def paidAddressRow : AddressRow where
  id := "address-1"
  accountId := some "account-1"
  assetId := .ethereum
  network := .mainnet
  address := "0x2222222222222222222222222222222222222222"
  addressNormalized := "0x2222222222222222222222222222222222222222"

/-- The pages of a new store. -/
def processPaidPages (pages : List EtherscanPageSet) : Except MonitorError EtherscanStore :=
  processEtherscanPages .ok decodePaidNormal decodeFailedInternal toString [paidAddressRow]
    (fun _ _ => .ok ()) .ethereum .mainnet "connection-1" pages emptyStore

theorem emptyStore_valid : emptyStore.Valid :=
  ⟨⟨List.nodup_nil, by simp [emptyStore]⟩, ⟨List.nodup_nil, by simp [emptyStore]⟩,
    emptyTables_unique⟩

theorem emptyStore_freshFor (hash : String) : emptyStore.FreshFor .ethereum .mainnet hash :=
  ⟨by simp [emptyStore], by simp [emptyStore], by simp [emptyStore, emptyTables]⟩

/-- A transaction that moves to another block is stored in its newest one, not in the highest. -/
theorem windowed_ne_oneShot :
    ∃ final, processPaidPages movedPages = .ok final ∧
      ¬ MapsToStored .ok toString [paidAddressRow] .ethereum .mainnet
        [paidNormal "100", paidNormal "99"] [] final.tables := by
  have inBlock : (processPaidPages movedPages).toOption.bind
      (fun final => (find ChainTransactionRow.key final.tables.chainTransactions
        ⟨.ethereum, .mainnet, paidHash⟩).bind ChainTransactionRow.blockHeight) = some 99 := by
    decide +kernel
  have oneShot : (mapEtherscanTransactions .ok [paidNormal "100", paidNormal "99"] []).toOption.map
      (fun records => records.map fun record => (record.txHash, record.blockHeight)) =
        some [(paidHash, some 100)] := by
    decide +kernel
  obtain ⟨final, isFinal, inBlock⟩ := Option.bind_eq_some_iff.mp inBlock
  refine ⟨final, toOption_eq_some.mp isFinal, ?_⟩
  rintro ⟨records, mapped, _, stored⟩
  rw [mapped] at oneShot
  obtain ⟨record, rfl, isRecord⟩ := List.map_eq_singleton_iff.mp (Option.some.inj oneShot)
  obtain ⟨isHash, isHeight⟩ := Prod.mk.inj isRecord
  obtain ⟨current, isCurrent, found⟩ := (stored record (List.mem_singleton.mpr rfl)).chain
  have isKey : record.key .ethereum .mainnet = ⟨.ethereum, .mainnet, paidHash⟩ := by
    rw [← isHash]
    rfl
  rw [isKey] at found
  rw [found] at inBlock
  split at inBlock
  · cases inBlock
  · have sameHeight := accountChainTransactionRow_blockHeight isCurrent
    have wrong : some (100 : ℤ) = some 99 := by
      rw [← isHeight, ← sameHeight]
      exact inBlock
    exact absurd wrong (by decide)

/-- A normal row and, a page later, a failed internal row of its hash. -/
theorem processEtherscanPages_stored_paid :
    ∃ final, processPaidPages splitPages = .ok final ∧
      MapsToStored .ok toString [paidAddressRow] .ethereum .mainnet [paidNormal "100"]
        [failedInternal] final.tables := by
  have isDone : (processPaidPages splitPages).toOption.isSome =
      true := by
    decide +kernel
  have normals : normalRowsOf decodePaidNormal splitPages =
      [paidNormal "100"] := by
    decide +kernel
  have internals : internalRowsOf decodeFailedInternal splitPages =
      [failedInternal] := by
    decide +kernel
  obtain ⟨final, isFinal⟩ := Option.isSome_iff_exists.mp isDone
  have done := toOption_eq_some.mp isFinal
  refine ⟨final, done, ?_⟩
  have stored := (processEtherscanPages_stored emptyStore_valid
    (fun hash _ => emptyStore_freshFor hash) done).2
  rw [normals, internals] at stored
  refine stored (fun hash => ⟨?_, ?_⟩) _ _ (fun raw => Iff.rfl) (fun raw => Iff.rfl)
  · intro left isLeft right isRight _ _
    exact (List.mem_singleton.mp isLeft).trans (List.mem_singleton.mp isRight).symm
  · intro left isLeft right isRight _ _ _
    exact (List.mem_singleton.mp isLeft).trans (List.mem_singleton.mp isRight).symm

end Bitgarth.Store
