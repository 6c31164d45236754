import Bitgarth.Foundation.VersionChains
import Bitgarth.Mempool.RawTables
import Bitgarth.Store.RawHeads

/-! # The raw Mempool head

The versions of a transaction form one chain in every run. Its head has the bytes that came in
last, as long as no repair finds an older version to be the one observed last.
-/

namespace Bitgarth.Mempool

open Store Reachability VersionChains KeyedTable

section Chains

/-- Versions are chained for each source connection and transaction. -/
def versionKey (version : RawVersion String) : String × String :=
  (version.sourceConnectionId, version.identity)

/-- Ids are primary keys, and the versions of each transaction a chain. -/
structure ChainedVersions (versions : List (RawVersion String)) : Prop where
  unique : (versions.map RawVersion.rawVersionId).Nodup
  chained : Chained RawVersion.rawVersionId RawVersion.supersedesRawVersionId versionKey versions

variable {versions after : List (RawVersion String)} {request head : RawVersion String}
  {sourceConnectionId txid : String}

/-- The versions of a transaction, the first one retained first. -/
def transactionVersions (versions : List (RawVersion String)) (key : String × String) :
    List (RawVersion String) :=
  versionsOf versionKey versions key

theorem mem_transactionVersions {key : String × String} {version : RawVersion String} :
    version ∈ transactionVersions versions key ↔ version ∈ versions ∧ versionKey version = key := by
  rw [transactionVersions, versionsOf, List.mem_filter, decide_eq_true_iff]

theorem transactionVersions_append_other {version : RawVersion String} {key : String × String}
    (other : versionKey version ≠ key) :
    transactionVersions (versions ++ [version]) key = transactionVersions versions key := by
  have dropped : [version].filter (fun row => decide (versionKey row = key)) = [] :=
    List.filter_cons_of_neg (by rwa [decide_eq_true_iff])
  rw [transactionVersions, transactionVersions, versionsOf, List.filter_append, dropped,
    List.append_nil]
  rfl

theorem transactionVersions_append_own (version : RawVersion String) :
    transactionVersions (versions ++ [version]) (versionKey version) =
      transactionVersions versions (versionKey version) ++ [version] := by
  have kept : [version].filter (fun row => decide (versionKey row = versionKey version)) =
      [version] := List.filter_cons_of_pos (decide_eq_true rfl)
  rw [transactionVersions, transactionVersions, versionsOf, List.filter_append, kept]
  rfl

theorem ChainedVersions.isHead_iff (valid : ChainedVersions versions) {version : RawVersion String}
    (member : version ∈ versions) : isHead versions version = true ↔
      (transactionVersions versions (versionKey version)).getLast? = some version := by
  rw [Store.isHead_iff]
  exact valid.chained.isHead_iff valid.unique member

theorem ChainedVersions.loadCurrentRawHead_eq (valid : ChainedVersions versions) :
    loadCurrentRawHead versions sourceConnectionId txid =
      (transactionVersions versions (sourceConnectionId, txid)).getLast? := by
  cases isLoaded : loadCurrentRawHead versions sourceConnectionId txid with
  | some head =>
    obtain ⟨isHead, ofConnection, ofIdentity⟩ := loadCurrentRawHead_spec isLoaded
    obtain ⟨member, isHead⟩ := List.mem_filter.mp isHead
    have isLast := (valid.isHead_iff member).mp isHead
    rw [versionKey, ofConnection, ofIdentity] at isLast
    exact isLast.symm
  | none =>
    cases isLast : (transactionVersions versions (sourceConnectionId, txid)).getLast? with
    | none => rfl
    | some last =>
      obtain ⟨member, isKey⟩ := mem_transactionVersions.mp (List.mem_of_getLast? isLast)
      have isHead := (valid.isHead_iff member).mpr (isKey.symm ▸ isLast)
      have notHead := List.find?_eq_none.mp isLoaded last member
      obtain ⟨ofConnection, ofIdentity⟩ := Prod.mk.inj isKey
      exact absurd (decide_eq_true ⟨ofConnection, ofIdentity, isHead⟩) notHead

theorem ChainedVersions.append (valid : ChainedVersions versions) {version : RawVersion String}
    (isNew : version.rawVersionId ∉ versions.map RawVersion.rawVersionId)
    (isNext : version.supersedesRawVersionId =
      (transactionVersions versions (versionKey version)).getLast?.map RawVersion.rawVersionId) :
    ChainedVersions (versions ++ [version]) := by
  refine ⟨?_, valid.chained.append isNext⟩
  rw [List.map_append]
  exact valid.unique.append (List.nodup_singleton _) (List.disjoint_singleton.mpr isNew)

/-! ## Retaining a version -/

theorem insertRawMempoolTxVersion_cases {inserted : InsertedRawMempoolTransactionVersion}
    (done : insertRawMempoolTxVersion versions request = .ok (after, inserted)) :
    (∃ head, loadCurrentRawHead versions request.sourceConnectionId request.identity = some head ∧
      head.payloadBytes = request.payloadBytes ∧ after = versions) ∨
    request.rawVersionId ∉ versions.map RawVersion.rawVersionId ∧
      after = versions ++ [{ request with supersedesRawVersionId := (loadCurrentRawHead versions
        request.sourceConnectionId request.identity).map RawVersion.rawVersionId }] := by
  unfold insertRawMempoolTxVersion at done
  dsimp only at done
  split at done
  · rename_i head reused
    obtain ⟨isLoaded, sameBytes⟩ := Option.filter_eq_some_iff.mp reused
    cases done
    exact .inl ⟨head, isLoaded, of_decide_eq_true sameBytes, rfl⟩
  · split at done
    · cases done
    · rename_i isNew
      cases done
      exact .inr ⟨isNew, rfl⟩

theorem ChainedVersions.insert (valid : ChainedVersions versions)
    {inserted : InsertedRawMempoolTransactionVersion}
    (done : insertRawMempoolTxVersion versions request = .ok (after, inserted)) :
    ChainedVersions after ∧
      (transactionVersions after (versionKey request)).getLast?.map RawVersion.payloadBytes =
        some request.payloadBytes ∧
      ∀ key, versionKey request ≠ key →
        transactionVersions after key = transactionVersions versions key := by
  rcases insertRawMempoolTxVersion_cases done with ⟨head, isLoaded, sameBytes, rfl⟩ | ⟨isNew, rfl⟩
  · refine ⟨valid, ?_, fun _ _ => rfl⟩
    rw [valid.loadCurrentRawHead_eq] at isLoaded
    rw [versionKey, isLoaded, ← sameBytes]
    rfl
  · refine ⟨valid.append isNew ?_, ?_, fun key other => transactionVersions_append_other other⟩
    · rw [valid.loadCurrentRawHead_eq]
      rfl
    · have own := @transactionVersions_append_own versions { request with
        supersedesRawVersionId := (loadCurrentRawHead versions request.sourceConnectionId
          request.identity).map RawVersion.rawVersionId }
      have sameKey : versionKey { request with
        supersedesRawVersionId := (loadCurrentRawHead versions
          request.sourceConnectionId request.identity).map RawVersion.rawVersionId } =
          versionKey request := rfl
      rw [sameKey] at own
      rw [own, List.getLast?_append, List.getLast?_singleton]
      rfl

/-! ## Repairing heads -/

/-- The transaction of a candidate. -/
def candidateKey (candidate : LegacyMempoolHeadRepairCandidate) : String × String :=
  (candidate.sourceConnectionId, candidate.txid)

theorem headRepairCandidate_spec {tables : RawTables} {key : String × String}
    {candidate : LegacyMempoolHeadRepairCandidate}
    (isCandidate : tables.headRepairCandidate key = some candidate) :
    candidateKey candidate = key ∧ ∃ head latest,
      loadCurrentRawHead tables.versions key.1 key.2 = some head ∧
      head.rawVersionId = candidate.currentHeadRawVersionId ∧
      tables.latestObserved key.1 key.2 = some latest ∧
      latest.2.payloadBytes ≠ head.payloadBytes := by
  unfold RawTables.headRepairCandidate at isCandidate
  split at isCandidate
  · rename_i head observation version isHead isLatest
    split at isCandidate
    · rename_i different
      cases isCandidate
      exact ⟨rfl, head, (observation, version), isHead, rfl, isLatest, different⟩
    · cases isCandidate
  · cases isCandidate

theorem nodup_candidateKey (tables : RawTables) :
    (tables.loadLegacyMempoolHeadRepairCandidates.map candidateKey).Nodup := by
  unfold RawTables.loadLegacyMempoolHeadRepairCandidates
  rw [List.map_filterMap]
  apply (List.nodup_dedup _ : tables.observedKeys.Nodup).filterMap
  intro key other shared isKey isOther
  obtain ⟨candidate, isCandidate, ofCandidate⟩ := Option.map_eq_some_iff.mp isKey
  obtain ⟨another, isAnother, ofAnother⟩ := Option.map_eq_some_iff.mp isOther
  rw [← (headRepairCandidate_spec isCandidate).1, ← (headRepairCandidate_spec isAnother).1,
    ofCandidate, ofAnother]

theorem ChainedVersions.repair (valid : ChainedVersions versions)
    (candidates : List LegacyMempoolHeadRepairCandidate) (ids : List String)
    (different : (candidates.map candidateKey).Nodup)
    (heads : ∀ candidate ∈ candidates,
      (transactionVersions versions (candidateKey candidate)).getLast?.map RawVersion.rawVersionId =
        some candidate.currentHeadRawVersionId)
    (nodup : ids.Nodup)
    (areNew : ∀ id ∈ ids, id ∉ versions.map RawVersion.rawVersionId) :
    ChainedVersions (versions ++ List.zipWith RawTables.repairedVersion candidates ids) := by
  induction candidates generalizing versions ids with
  | nil =>
    rw [List.zipWith_nil_left, List.append_nil]
    exact valid
  | cons candidate rest ih =>
    cases ids with
    | nil =>
      rw [List.zipWith_nil_right, List.append_nil]
      exact valid
    | cons id later =>
      obtain ⟨notLater, different⟩ := List.nodup_cons.mp different
      obtain ⟨isHead, heads⟩ := List.forall_mem_cons.mp heads
      obtain ⟨idNotLater, nodup⟩ := List.nodup_cons.mp nodup
      obtain ⟨isNew, areNew⟩ := List.forall_mem_cons.mp areNew
      have first : ChainedVersions (versions ++ [RawTables.repairedVersion candidate id]) :=
        valid.append isNew isHead.symm
      rw [List.zipWith_cons_cons, List.append_cons]
      apply ih first later different _ nodup
      · intro other isLater
        rw [List.map_append, List.mem_append]
        rintro (before | isFirst)
        · exact areNew other isLater before
        · have same : other = id := List.mem_singleton.mp isFirst
          exact idNotLater (same ▸ isLater)
      · intro other isOther
        rw [transactionVersions_append_other]
        · exact heads other isOther
        · intro same
          apply notLater
          exact List.mem_map.mpr ⟨other, isOther, same.symm⟩

end Chains

/-! ## Runs -/

section Runs

namespace IngestionSystem

variable {system after : IngestionSystem} {step : IngestionStep}

/-- A repair finds no transaction whose latest observation is of other bytes than those that were
retained last. -/
def Observed : IngestionStep → IngestionSystem → Prop
  | .repair _, system => ∀ key, ∀ latest ∈ system.tables.latestObserved key.1 key.2,
      ∀ payload ∈ system.lastIngested key, latest.2.payloadBytes = payload
  | _, _ => True

/-- The versions of each transaction are one chain with one head, which has the bytes that were
retained last. -/
structure HeadsNewest (system : IngestionSystem) : Prop where
  linear : ∀ key, ChainedFrom RawVersion.rawVersionId RawVersion.supersedesRawVersionId none
    (transactionVersions system.tables.versions key)
  oneHead : ∀ version ∈ system.tables.versions, ∃! head, head ∈ system.tables.versions ∧
    versionKey head = versionKey version ∧ isHead system.tables.versions head = true
  newest : ∀ sourceConnectionId txid,
    (loadCurrentRawHead system.tables.versions sourceConnectionId txid).map
      RawVersion.payloadBytes = system.lastIngested (sourceConnectionId, txid)

/-- The last versions have the bytes that were retained last. -/
structure Sound (system : IngestionSystem) : Prop where
  valid : ChainedVersions system.tables.versions
  newest : ∀ key, (transactionVersions system.tables.versions key).getLast?.map
    RawVersion.payloadBytes = system.lastIngested key

theorem Sound.headsNewest (sound : system.Sound) : system.HeadsNewest := by
  refine ⟨sound.valid.chained, ?_, ?_⟩
  · intro version member
    have inOwn := mem_transactionVersions.mpr ⟨member, rfl⟩
    cases isLast : (transactionVersions system.tables.versions (versionKey version)).getLast? with
    | none => exact absurd inOwn (List.getLast?_eq_none_iff.mp isLast ▸ List.not_mem_nil)
    | some head =>
      obtain ⟨isVersion, sameKey⟩ := mem_transactionVersions.mp (List.mem_of_getLast? isLast)
      refine ⟨head, ⟨isVersion, sameKey, ?_⟩, ?_⟩
      · exact (sound.valid.isHead_iff isVersion).mpr (sameKey.symm ▸ isLast)
      · rintro other ⟨isOther, otherKey, otherHead⟩
        have otherLast := (sound.valid.isHead_iff isOther).mp otherHead
        rw [otherKey, isLast] at otherLast
        exact (Option.some.inj otherLast).symm
  · intro sourceConnectionId txid
    rw [sound.valid.loadCurrentRawHead_eq]
    exact sound.newest _

theorem sound_new : ({} : IngestionSystem).Sound :=
  ⟨⟨.nil, chained_nil⟩, fun _ => rfl⟩

theorem lastIngested_cons {tables : RawTables} {calls : List PageCall} {own key : String × String}
    {payload : String} {earlier : List ((String × String) × String)} :
    lastIngested ⟨tables, calls, (own, payload) :: earlier⟩ key =
      if own = key then some payload else lastIngested ⟨tables, calls, earlier⟩ key := by
  unfold lastIngested
  rw [List.find?_cons]
  by_cases same : own = key
  · rw [if_pos same, decide_eq_true same]
    rfl
  · rw [if_neg same, decide_eq_false same]

theorem Sound.candidates_eq_nil (sound : system.Sound) {ids : List String}
    (observed : Observed (.repair ids) system) :
    system.tables.loadLegacyMempoolHeadRepairCandidates = [] := by
  apply List.filterMap_eq_nil_iff.mpr
  intro key _
  cases isCandidate : system.tables.headRepairCandidate key with
  | none => rfl
  | some candidate =>
    obtain ⟨-, head, latest, isHead, -, isLatest, different⟩ :=
      headRepairCandidate_spec isCandidate
    have isNewest := sound.newest key
    rw [sound.valid.loadCurrentRawHead_eq] at isHead
    rw [isHead] at isNewest
    exact absurd (observed key latest isLatest head.payloadBytes isNewest.symm) different

/-- Pages, stops and observed repairs keep the last version the newest. -/
theorem Sound.run (sound : system.Sound) (observed : Observed step system)
    (taken : system.run step = some after) : after.Sound := by
  cases step with
  | ingestItem call request =>
    obtain ⟨-, taken⟩ := Option.ite_none_right_eq_some.mp taken
    split at taken
    · cases taken
    · rename_i versions inserted done
      cases taken
      obtain ⟨valid, isOwn, others⟩ := sound.valid.insert done
      refine ⟨valid, fun key => ?_⟩
      rw [lastIngested_cons]
      split
      · rename_i own
        exact own ▸ isOwn
      · rename_i own
        dsimp only
        rw [others key own]
        exact sound.newest key
  | repair ids =>
    have isEmpty := sound.candidates_eq_nil observed
    obtain ⟨-, rfl⟩ := Option.ite_some_none_eq_some.mp taken
    have same : system.tables.repairLegacyMempoolHeadRebuildContract ids = system.tables := by
      rw [RawTables.repairLegacyMempoolHeadRebuildContract, isEmpty, List.zipWith_nil_left,
        List.append_nil]
    rw [same]
    exact sound
  | beginPage syncRunId sourceConnectionId observedAt =>
    cases taken
    exact ⟨sound.valid, sound.newest⟩
  | stop call =>
    cases taken
    exact ⟨sound.valid, sound.newest⟩
  | cleanup completedAt retentionDays =>
    cases taken
    exact ⟨sound.valid, sound.newest⟩
  | startRun run | completeRun syncRunId status
  | commitPage call rawObservationSetId metadata observationIds =>
    obtain ⟨-, rfl⟩ := Option.ite_some_none_eq_some.mp taken
    exact ⟨sound.valid, sound.newest⟩

theorem chainedVersions_run (valid : ChainedVersions system.tables.versions)
    (taken : system.run step = some after) : ChainedVersions after.tables.versions := by
  cases step with
  | ingestItem call request =>
    obtain ⟨-, taken⟩ := Option.ite_none_right_eq_some.mp taken
    split at taken
    · cases taken
    · rename_i versions inserted done
      cases taken
      exact (valid.insert done).1
  | repair ids =>
    obtain ⟨repairs, rfl⟩ := Option.ite_some_none_eq_some.mp taken
    apply valid.repair _ _ (nodup_candidateKey system.tables) _ repairs.2.1 repairs.2.2
    intro candidate member
    obtain ⟨key, -, isCandidate⟩ := List.mem_filterMap.mp member
    obtain ⟨ofKey, head, -, isHead, sameId, -⟩ := headRepairCandidate_spec isCandidate
    rw [valid.loadCurrentRawHead_eq] at isHead
    rw [ofKey, isHead, Option.map_some, sameId]
  | beginPage syncRunId sourceConnectionId observedAt =>
    cases taken
    exact valid
  | stop call =>
    cases taken
    exact valid
  | cleanup completedAt retentionDays =>
    cases taken
    exact valid
  | startRun run | completeRun syncRunId status
  | commitPage call rawObservationSetId metadata observationIds =>
    obtain ⟨-, rfl⟩ := Option.ite_some_none_eq_some.mp taken
    exact valid

/-- Whatever is observed, stopped, repaired and deleted, ids stay unique and the versions of each
transaction a chain. -/
theorem chainedVersions_of_reached {meets : IngestionStep → IngestionSystem → Prop}
    (reached : Reached (fun step before after => IngestionSystem.run before step = some after)
      meets {} system) : ChainedVersions system.tables.versions := by
  apply @Reached.invariant _ _ _ _ _ _ reached
    (fun system => ChainedVersions system.tables.versions) ⟨.nil, chained_nil⟩
  intro step before after valid _ taken
  exact chainedVersions_run valid taken

/-- Where every repair finds the observations to agree with what was retained last, the head of
each transaction is the version retained last, and such a repair changes nothing. -/
theorem raw_head_is_newest
    (reached : Reached (fun step before after => IngestionSystem.run before step = some after)
      Observed {} system) :
    system.HeadsNewest ∧ ∀ ids after, Observed (.repair ids) system →
      system.run (.repair ids) = some after → after = system := by
  have sound : system.Sound := by
    apply @Reached.invariant _ _ _ _ _ _ reached Sound sound_new
    intro step before after sound observed taken
    exact sound.run observed taken
  refine ⟨sound.headsNewest, ?_⟩
  intro ids after observed taken
  have isEmpty := sound.candidates_eq_nil observed
  obtain ⟨-, rfl⟩ := Option.ite_some_none_eq_some.mp taken
  rw [RawTables.repairLegacyMempoolHeadRebuildContract, isEmpty, List.zipWith_nil_left,
    List.append_nil]

end IngestionSystem

end Runs

/-! ## A repair after a crash -/

/-- A page with one version of a transaction. -/
def pageOf (rawVersionId payloadBytes : String) (observedAt : ℤ) : List IngestionStep :=
  [.beginPage "run" "mempool" observedAt,
    .ingestItem ⟨"run", "mempool", observedAt, []⟩
      ⟨rawVersionId, "mempool", .mainnet, "tx", payloadBytes, observedAt, none⟩]

def commitOf (rawVersionId rawObservationSetId observationId : String) (observedAt : ℤ) :
    IngestionStep :=
  .commitPage ⟨"run", "mempool", observedAt, [rawVersionId]⟩ rawObservationSetId
    ⟨"address", none, .firstPage, none, none, 1⟩ [observationId]

/-- A transaction comes in pending and then confirmed, on a page that stops and comes again; at
last it is pending again. -/
def reorganized : List IngestionStep :=
  [.startRun ⟨"run", "mempool", .started, 0⟩] ++ pageOf "v1" "pending" 1 ++
    [commitOf "v1" "s1" "o1" 1] ++ pageOf "v2" "confirmed" 2 ++
    [.stop ⟨"run", "mempool", 2, ["v2"]⟩] ++ pageOf "again" "confirmed" 3 ++
    [commitOf "v2" "s2" "o2" 3] ++ pageOf "v3" "pending" 4 ++ [commitOf "v3" "s3" "o3" 4]

def reorganizedSystem : IngestionSystem :=
  (reorganized.foldlM IngestionSystem.run {}).getD {}

/-- The latest observation is of the bytes that were retained last. -/
theorem observed_reorganizedSystem :
    IngestionSystem.Observed (.repair []) reorganizedSystem := by
  intro key latest isLatest payload isPayload
  have only : ∀ entry ∈ reorganizedSystem.ingested, entry.1 = ("mempool", "tx") := by decide
  obtain ⟨entry, found, _⟩ := Option.map_eq_some_iff.mp isPayload
  have isKey : entry.1 = key := of_decide_eq_true (List.find?_some found :)
  rw [only entry (List.mem_of_find?_eq_some found)] at isKey
  subst isKey
  have agree : (reorganizedSystem.tables.latestObserved "mempool" "tx").map
      (fun latest => latest.2.payloadBytes) =
        reorganizedSystem.lastIngested ("mempool", "tx") := by
    decide
  rw [Option.mem_def.mp isLatest, Option.mem_def.mp isPayload] at agree
  exact Option.some.inj agree

theorem raw_head_is_newest_reorganized : ∃ system : IngestionSystem, system.HeadsNewest ∧
    (loadCurrentRawHead system.tables.versions "mempool" "tx").map RawVersion.rawVersionId =
      some "v3" := by
  have observed : ∀ step ∈ reorganized, ∀ system, IngestionSystem.Observed step system := by
    intro step member system
    simp only [reorganized, pageOf, commitOf, List.cons_append, List.nil_append, List.mem_cons,
      List.not_mem_nil, or_false] at member
    rcases member with rfl | rfl | rfl | rfl | rfl | rfl | rfl | rfl | rfl | rfl | rfl | rfl | rfl
    all_goals trivial
  have reached : Reached (fun step before after => IngestionSystem.run before step = some after)
      IngestionSystem.Observed {} reorganizedSystem :=
    Reached.foldlM reorganized .start observed rfl
  have repairs : reorganizedSystem.run (.repair []) = some reorganizedSystem := rfl
  have cleaned := Reached.foldlM [.completeRun "run" (.completedSuccess 5), .cleanup 5 30]
    (reached.step observed_reorganizedSystem repairs) (by simp [IngestionSystem.Observed]) rfl
  exact ⟨_, (IngestionSystem.raw_head_is_newest cleaned).1, rfl⟩

theorem chainedVersions_of_reached_stoppedPage : ∃ system : IngestionSystem,
    ChainedVersions system.tables.versions ∧ system.tables.versions.length = 3 := by
  refine ⟨_, IngestionSystem.chainedVersions_of_reached (Reached.foldlM
    ([.startRun ⟨"run", "mempool", .started, 0⟩] ++ pageOf "v1" "pending" 1 ++
      [commitOf "v1" "s1" "o1" 1] ++ pageOf "v2" "confirmed" 2 ++
      [.stop ⟨"run", "mempool", 2, ["v2"]⟩, .repair ["v3"]])
      .start (fun _ _ _ => trivial) rfl), rfl⟩

/-- The confirmed version is retained, the call stops before its page is committed, and the next
repair puts the observed, older bytes on top of it. -/
theorem not_headsNewest_stoppedPage : ∃ system : IngestionSystem,
    Reached (fun step before after => IngestionSystem.run before step = some after)
      (fun _ _ => True) {} system ∧ ¬ system.HeadsNewest := by
  refine ⟨_, Reached.foldlM ([.startRun ⟨"run", "mempool", .started, 0⟩] ++
    pageOf "v1" "pending" 1 ++
    [commitOf "v1" "s1" "o1" 1] ++ pageOf "v2" "confirmed" 2 ++
    [.stop ⟨"run", "mempool", 2, ["v2"]⟩, .repair ["v3"]]) .start (fun _ _ _ => trivial) rfl, ?_⟩
  intro newest
  have isNewest := newest.newest "mempool" "tx"
  exact absurd isNewest (by decide)

end Bitgarth.Mempool
