import Bitgarth.Store.FirstSpender

/-! # Reconciliation in any order

Records of distinct hashes that spend each outpoint once leave the same rows in every order and
every partition into batches, but for the links. The links are the same, and are those of the
inputs the records have, exactly when each outpoint settles.
-/

namespace Bitgarth.Store

open Amounts Ledger KeyedTable Fallible

open Sync (SyncedAssetId)

/-- A database without faults. -/
def noFaults : StoreFaults where
  record := fun _ _ => none
  lock := fun _ => none

section Orders

variable (toRfc3339 : ℤ → String) (addresses : List AddressRow) (assetId : SyncedAssetId)
  (network : Network) (records : List SyncTransactionRecord)

/-- No two records spend one outpoint. -/
def SpentOnce : Prop :=
  ∀ first ∈ records, ∀ second ∈ records, ∀ outpoint, first.Spends assetId network outpoint →
    second.Spends assetId network outpoint → first = second

/-- The records, in some order and some batches, are all reconciled. -/
def ReconcilesTo (db tables : TransactionTables) : Prop :=
  ∃ batches summary, batches.flatten.Perm records ∧
    reconcileBatches toRfc3339 addresses assetId network noFaults 0 batches db .default =
      (tables, summary, none)

/-- An unspent output is linked to a record exactly when the record names its outpoint. -/
def LinksExact (tables : TransactionTables) : Prop :=
  ∀ utxo ∈ tables.utxos, utxo.txKey.InScope assetId network →
    ∀ record ∈ records, utxo.spentByTxHash = some record.txHash ↔
      record.Spends assetId network utxo.key

instance (tables : TransactionTables) : Decidable (LinksExact assetId network records tables) :=
  inferInstanceAs (Decidable (∀ utxo ∈ tables.utxos, _))

/-- Every order and partition leaves the same rows, with exact links. -/
def OrderIndependent (db : TransactionTables) : Prop :=
  ∀ left right, ReconcilesTo toRfc3339 addresses assetId network records db left →
    ReconcilesTo toRfc3339 addresses assetId network records db right →
      left.SameRows right ∧ LinksExact assetId network records left

/-- The link of an outpoint does not depend on the order. When a record spends it, it is listed
before, or only by the spender, or the spender is the first its producer finds; when none does,
it is not linked to one of the records, nor is one of them found by its producer. -/
structure LinkSettles (db : TransactionTables) (outpoint : TxKey × ℤ) : Prop where
  spent : ∀ spender ∈ records, spender.Spends assetId network outpoint →
    (db.linkAt outpoint).isSome ∨
      ∀ producer ∈ records, Lists addresses assetId network producer outpoint →
        producer = spender ∨ NamesFirst addresses assetId network spender
          (producer.key assetId network) outpoint db
  unspent : (∀ spender ∈ records, ¬ spender.Spends assetId network outpoint) →
    outpoint.1.InScope assetId network →
      (∀ record ∈ records, db.linkAt outpoint ≠ some (some record.txHash)) ∧
        ((db.linkAt outpoint).join = none →
          ∀ producer ∈ records, Lists addresses assetId network producer outpoint →
            ∀ record ∈ records, earlierSpender db (producer.key assetId network) outpoint ≠
              some record.txHash)

variable {toRfc3339 addresses assetId network records} {permuted : List SyncTransactionRecord}
  {db tables : TransactionTables} {targets : CoverageInvalidationTargets} {outpoint : TxKey × ℤ}

/-! ## Batches -/

theorem CommittedRun.reconcileBatch
    (run : CommittedRun toRfc3339 addresses assetId network records db tables targets) (batch : ℕ)
    (start : TransactionSyncReconcileSummary) :
    ∃ summary, Store.reconcileBatch toRfc3339 addresses assetId network noFaults batch records db
      start = (tables, summary, none) := by
  induction run generalizing start with
  | nil db => exact ⟨start, rfl⟩
  | @cons record _ _ _ outcome _ committed _ ih =>
    obtain ⟨summary, done⟩ := ih (start.merge outcome.summary)
    refine ⟨summary, ?_⟩
    have unfaulted : noFaults.record batch record = none := rfl
    rw [Store.reconcileBatch, unfaulted, committed]
    exact done

theorem reconcilesTo_iff : ReconcilesTo toRfc3339 addresses assetId network records db tables ↔
    ∃ order targets, order.Perm records ∧
      CommittedRun toRfc3339 addresses assetId network order db tables targets := by
  constructor
  · rintro ⟨batches, summary, perm, done⟩
    obtain ⟨committed, rest, targets, isOrder, run, _, complete⟩ := reconcileBatches_committed done
    rw [complete rfl, List.append_nil] at isOrder
    exact ⟨committed, targets, isOrder ▸ perm, run⟩
  · rintro ⟨order, targets, perm, run⟩
    obtain ⟨summary, done⟩ := run.reconcileBatch 0 .default
    refine ⟨[order], TransactionSyncReconcileSummary.merge .default summary, ?_, ?_⟩
    · rw [List.flatten_singleton]
      exact perm
    · have unlocked : noFaults.lock 0 = none := rfl
      rw [reconcileBatches, unlocked]
      dsimp only
      rw [done]
      rfl

/-! ## Perm -/

theorem SpentOnce.perm (once : SpentOnce assetId network records) (perm : permuted.Perm records) :
    SpentOnce assetId network permuted :=
  fun first isFirst second isSecond => once first (perm.mem_iff.mp isFirst) second
    (perm.mem_iff.mp isSecond)

theorem LinkSettles.perm (settles : LinkSettles addresses assetId network records db outpoint)
    (perm : permuted.Perm records) :
    LinkSettles addresses assetId network permuted db outpoint := by
  refine ⟨?_, ?_⟩
  · intro spender member names
    refine (settles.spent spender (perm.mem_iff.mp member) names).imp_right ?_
    exact fun first producer isProducer => first producer (perm.mem_iff.mp isProducer)
  · intro unspent inScope
    obtain ⟨linked, listed⟩ := settles.unspent
      (fun spender member => unspent spender (perm.mem_iff.mpr member)) inScope
    refine ⟨fun record member => linked record (perm.mem_iff.mp member), ?_⟩
    intro unlinked producer isProducer lists record member
    exact listed unlinked producer (perm.mem_iff.mp isProducer) lists record
      (perm.mem_iff.mp member)

theorem Lists.key {record : SyncTransactionRecord}
    (lists : Lists addresses assetId network record outpoint) :
    record.key assetId network = outpoint.1 := by
  obtain ⟨_, _, isOutpoint, _⟩ := lists
  exact congrArg Prod.fst isOutpoint

theorem DistinctHashes.eq_of_key (distinct : DistinctHashes records)
    {first second : SyncTransactionRecord} (isFirst : first ∈ records) (isSecond : second ∈ records)
    (same : first.key assetId network = second.key assetId network) : first = second :=
  List.inj_on_of_nodup_map distinct isFirst isSecond (congrArg TxKey.txHash same)

theorem DistinctHashes.others {earlier later : List SyncTransactionRecord}
    {record : SyncTransactionRecord} (distinct : DistinctHashes (earlier ++ record :: later)) :
    ∀ other ∈ earlier ++ later, other.key assetId network ≠ record.key assetId network := by
  have moved : DistinctHashes (record :: (earlier ++ later)) :=
    distinct.perm List.perm_middle.symm
  exact moved.of_cons.1

theorem DistinctHashes.only_lists {earlier later : List SyncTransactionRecord}
    {producer : SyncTransactionRecord} (distinct : DistinctHashes (earlier ++ producer :: later))
    (lists : Lists addresses assetId network producer outpoint) :
    ∀ other ∈ earlier ++ later, ¬ Lists addresses assetId network other outpoint :=
  fun other member listsToo => distinct.others other member (listsToo.key.trans lists.key.symm)

/-! ## The link a run leaves -/

section Links

variable (unique : db.Unique) (distinct : DistinctHashes records)
  (run : CommittedRun toRfc3339 addresses assetId network records db tables targets)

include unique distinct run

theorem CommittedRun.linkAt_of_spends (once : SpentOnce assetId network records)
    (settles : LinkSettles addresses assetId network records db outpoint)
    {spender : SyncTransactionRecord} (member : spender ∈ records)
    (names : spender.Spends assetId network outpoint)
    (present : (tables.linkAt outpoint).isSome) :
    tables.linkAt outpoint = some (some spender.txHash) := by
  have listed := (run.linkAt_isSome unique).mp present
  obtain ⟨earlier, later, before, _, _, rfl, earlierRun, beforeUnique, accepted, laterRun⟩ :=
    run.around unique member
  have others := @DistinctHashes.others assetId network _ _ _ distinct
  have onlySpender : ∀ other ∈ earlier ++ later, ¬ other.Spends assetId network outpoint := by
    intro other isOther namesToo
    have inRecords : other ∈ earlier ++ spender :: later := by
      rcases List.mem_append.mp isOther with inEarlier | inLater
      · exact List.mem_append_left _ inEarlier
      · exact List.mem_append_right _ (List.mem_cons_of_mem _ inLater)
    rw [once other inRecords spender member outpoint namesToo names] at isOther
    exact others spender isOther rfl
  have laterUnnamed : ∀ other ∈ later, ¬ other.Spends assetId network outpoint :=
    fun other isLater => onlySpender other (List.mem_append_right _ isLater)
  have spenderUnique :=
    @unique_writtenTables toRfc3339 addresses assetId network spender before beforeUnique
  by_cases here : (before.linkAt outpoint).isSome ∨
      Lists addresses assetId network spender outpoint
  · -- the output is listed when the spender is reconciled
    exact laterRun.linkAt_of_linked spenderUnique laterUnnamed
      (Store.linkAt_of_spends beforeUnique accepted names here)
  · -- the producer comes later, and finds the spender
    rw [not_or] at here
    obtain ⟨unlistedBefore, notOwn⟩ := here
    have unlistedStart : ¬ ((db.linkAt outpoint).isSome ∨
        ∃ record ∈ earlier, Lists addresses assetId network record outpoint) :=
      mt (earlierRun.linkAt_isSome unique).mpr unlistedBefore
    rw [not_or] at unlistedStart
    obtain ⟨producer, isProducer, lists⟩ := listed.resolve_left unlistedStart.1
    have notSpender : producer ≠ spender := fun same => notOwn (same ▸ lists)
    have inLater : producer ∈ later := by
      rcases List.mem_append.mp isProducer with inEarlier | inRest
      · exact absurd ⟨producer, inEarlier, lists⟩ unlistedStart.2
      · exact (List.mem_cons.mp inRest).resolve_left notSpender
    have first := ((settles.spent spender member names).resolve_left unlistedStart.1 producer
      isProducer lists).resolve_left notSpender
    have firstBefore := earlierRun.namesFirst unique
      (fun other isEarlier => onlySpender other (List.mem_append_left _ isEarlier))
      (fun other isEarlier => others other (List.mem_append_left _ isEarlier)) first
    have otherKey := others producer (List.mem_append_right _ inLater)
    have found := (@earlierSpender_writtenTables addresses assetId network spender _ outpoint before
      toRfc3339 beforeUnique accepted (Ne.symm otherKey) names).mpr firstBefore
    obtain ⟨middle, last, atProducer, _, _, rfl, middleRun, atUnique, producerAccepted, lastRun⟩ :=
      laterRun.around spenderUnique inLater
    have laterDistinct : DistinctHashes (middle ++ producer :: last) := by
      unfold DistinctHashes at distinct
      rw [List.map_append, List.map_cons] at distinct
      exact (List.nodup_cons.mp distinct.of_append_right).2
    have middleUnlisted : ∀ other ∈ middle, ¬ Lists addresses assetId network other outpoint :=
      fun other isMiddle =>
        laterDistinct.only_lists lists other (List.mem_append_left _ isMiddle)
    have unlinked : atProducer.linkAt outpoint = none := by
      rw [middleRun.linkAt_of_quiet spenderUnique
        (fun other isMiddle => laterUnnamed other (List.mem_append_left _ isMiddle))
        middleUnlisted, ← Option.not_isSome_iff_eq_none,
        Store.linkAt_isSome beforeUnique accepted, not_or]
      exact ⟨unlistedBefore, notOwn⟩
    have stillFound := middleRun.earlierSpender spenderUnique
      (fun other isMiddle => laterUnnamed other (List.mem_append_left _ isMiddle))
      (fun hash isFound other isMiddle same => by
        rw [found] at isFound
        rw [← Option.some.inj isFound, names.scope] at same
        exact others other (List.mem_append_right _ (List.mem_append_left _ isMiddle)) same.symm)
    rw [found] at stillFound
    apply lastRun.linkAt_of_linked (unique_writtenTables atUnique)
    · exact fun other isLast => laterUnnamed other
        (List.mem_append_right _ (List.mem_cons_of_mem _ isLast))
    · rw [Store.linkAt_of_lists atUnique producerAccepted (laterUnnamed producer inLater) lists
        (by rw [unlinked]; rfl), stillFound]

theorem CommittedRun.linkAt_of_lists
    (unnamed : ∀ record ∈ records, ¬ record.Spends assetId network outpoint)
    (unlinked : (db.linkAt outpoint).join = none) {producer : SyncTransactionRecord}
    (member : producer ∈ records) (lists : Lists addresses assetId network producer outpoint)
    (other : ∀ record ∈ records,
      Store.earlierSpender db (producer.key assetId network) outpoint ≠ some record.txHash) :
    tables.linkAt outpoint =
      some (Store.earlierSpender db (producer.key assetId network) outpoint) := by
  obtain ⟨earlier, later, before, _, _, rfl, earlierRun, beforeUnique, accepted, laterRun⟩ :=
    run.around unique member
  have earlierUnnamed : ∀ record ∈ earlier, ¬ record.Spends assetId network outpoint :=
    fun record isEarlier => unnamed record (List.mem_append_left _ isEarlier)
  have laterUnnamed : ∀ record ∈ later, ¬ record.Spends assetId network outpoint :=
    fun record isLater => unnamed record (List.mem_append_right _ (List.mem_cons_of_mem _ isLater))
  have same := earlierRun.linkAt_of_quiet unique earlierUnnamed fun other isEarlier =>
    distinct.only_lists lists other (List.mem_append_left _ isEarlier)
  have found := @CommittedRun.earlierSpender _ _ _ _ _ _ _ _ _ (producer.key assetId network)
    earlierRun unique earlierUnnamed fun hash isFound record isEarlier isKey => by
      have isHash : hash = record.txHash := congrArg TxKey.txHash isKey
      exact other record (List.mem_append_left _ isEarlier) (isHash ▸ isFound)
  have linked := @Store.linkAt_of_lists toRfc3339 addresses assetId network producer before outpoint
    beforeUnique accepted (unnamed producer member) lists (by rw [same]; exact unlinked)
  rw [found] at linked
  cases isFound : Store.earlierSpender db (producer.key assetId network) outpoint with
  | some hash =>
    rw [isFound] at linked
    exact laterRun.linkAt_of_linked (unique_writtenTables beforeUnique) laterUnnamed linked
  | none =>
    rw [isFound] at linked
    rw [laterRun.linkAt_of_quiet (unique_writtenTables beforeUnique) laterUnnamed
      fun other isLater =>
        distinct.only_lists lists other (List.mem_append_right _ isLater), linked]

theorem CommittedRun.linkAt_of_unspent
    (settles : LinkSettles addresses assetId network records db outpoint)
    (unnamed : ∀ record ∈ records, ¬ record.Spends assetId network outpoint) :
    (∃ producer ∈ records, Lists addresses assetId network producer outpoint ∧
        (db.linkAt outpoint).join = none ∧ tables.linkAt outpoint =
          some (Store.earlierSpender db (producer.key assetId network) outpoint)) ∨
      ((∀ producer ∈ records, Lists addresses assetId network producer outpoint →
          (db.linkAt outpoint).join ≠ none) ∧ tables.linkAt outpoint = db.linkAt outpoint) := by
  cases old : (db.linkAt outpoint).join with
  | some hash =>
    have linked : db.linkAt outpoint = some (some hash) := Option.join_eq_some_iff.mp old
    rw [run.linkAt_of_linked unique unnamed linked, linked]
    exact .inr ⟨fun _ _ _ => Option.some_ne_none hash, rfl⟩
  | none =>
    by_cases lists : ∃ producer ∈ records, Lists addresses assetId network producer outpoint
    · obtain ⟨producer, member, lists⟩ := lists
      have inScope : outpoint.1.InScope assetId network := by
        rw [← lists.key]
        exact ⟨rfl, rfl⟩
      have other := (settles.unspent unnamed inScope).2 old producer member lists
      exact .inl ⟨producer, member, lists, rfl,
        run.linkAt_of_lists unique distinct unnamed old member lists other⟩
    · have unlisted : ∀ record ∈ records, ¬ Lists addresses assetId network record outpoint :=
        fun record member listsToo => lists ⟨record, member, listsToo⟩
      exact .inr ⟨fun producer member listsToo => absurd listsToo (unlisted producer member),
        run.linkAt_of_quiet unique unnamed unlisted⟩

end Links

/-! ## What a run leaves of an unspent output -/

theorem CommittedRun.contentAt_of_other
    (run : CommittedRun toRfc3339 addresses assetId network records db tables targets)
    (unique : db.Unique) (other : ∀ record ∈ records, outpoint.1 ≠ record.key assetId network) :
    tables.contentAt outpoint = db.contentAt outpoint := by
  apply run.keeps (fun tables => tables.contentAt outpoint = db.contentAt outpoint) unique _ rfl
  intro record member before unique accepted same
  rw [contentAt_writtenTables unique, contentAfter_of_other (other record member) contentAt_key,
    same]

theorem CommittedRun.contentAt_of_own
    (run : CommittedRun toRfc3339 addresses assetId network records db tables targets)
    (unique : db.Unique) (distinct : DistinctHashes records) {record : SyncTransactionRecord}
    (member : record ∈ records) (own : record.key assetId network = outpoint.1) :
    tables.contentAt outpoint =
      contentAfter addresses assetId network record outpoint (db.contentAt outpoint) := by
  obtain ⟨earlier, later, before, _, _, rfl, earlierRun, beforeUnique, accepted, laterRun⟩ :=
    run.around unique member
  have others := @DistinctHashes.others assetId network _ _ _ distinct
  rw [laterRun.contentAt_of_other (unique_writtenTables beforeUnique) fun other isLater => by
      rw [← own]
      exact Ne.symm (others other (List.mem_append_right _ isLater)),
    contentAt_writtenTables beforeUnique,
    earlierRun.contentAt_of_other unique fun other isEarlier => by
      rw [← own]
      exact Ne.symm (others other (List.mem_append_left _ isEarlier))]

theorem CommittedRun.find_utxos_eq {order : List SyncTransactionRecord}
    {left right : TransactionTables} {leftTargets rightTargets : CoverageInvalidationTargets}
    (unique : db.Unique) (distinct : DistinctHashes order)
    (once : SpentOnce assetId network order) (perm : permuted.Perm order)
    (leftRun : CommittedRun toRfc3339 addresses assetId network order db left leftTargets)
    (rightRun : CommittedRun toRfc3339 addresses assetId network permuted db right rightTargets)
    (settles : LinkSettles addresses assetId network order db outpoint) :
    find UtxoRow.key left.utxos outpoint = find UtxoRow.key right.utxos outpoint := by
  apply Store.find_utxos_eq
  · by_cases own : ∃ record ∈ order, record.key assetId network = outpoint.1
    · obtain ⟨record, member, isKey⟩ := own
      rw [leftRun.contentAt_of_own unique distinct member isKey,
        rightRun.contentAt_of_own unique (distinct.perm perm) (perm.mem_iff.mpr member) isKey]
    · have other : ∀ record ∈ order, outpoint.1 ≠ record.key assetId network :=
        fun record member isKey => own ⟨record, member, isKey.symm⟩
      rw [leftRun.contentAt_of_other unique other, rightRun.contentAt_of_other unique
        fun record member => other record (perm.mem_iff.mp member)]
  · have presence : (left.linkAt outpoint).isSome ↔ (right.linkAt outpoint).isSome := by
      rw [leftRun.linkAt_isSome unique, rightRun.linkAt_isSome unique]
      simp only [perm.mem_iff]
    by_cases present : (left.linkAt outpoint).isSome
    · by_cases spent : ∃ spender ∈ order, spender.Spends assetId network outpoint
      · obtain ⟨spender, member, names⟩ := spent
        rw [leftRun.linkAt_of_spends unique distinct once settles member names present,
          rightRun.linkAt_of_spends unique (distinct.perm perm) (once.perm perm)
            (settles.perm perm) (perm.mem_iff.mpr member) names (presence.mp present)]
      · have unnamed : ∀ record ∈ order, ¬ record.Spends assetId network outpoint :=
          fun record member names => spent ⟨record, member, names⟩
        rcases leftRun.linkAt_of_unspent unique distinct settles unnamed with
          ⟨producer, member, lists, unlinked, isLeft⟩ | ⟨linked, isLeft⟩ <;>
        rcases rightRun.linkAt_of_unspent unique (distinct.perm perm) (settles.perm perm)
          (fun record member => unnamed record (perm.mem_iff.mp member)) with
          ⟨other, isOther, listsToo, unlinkedToo, isRight⟩ | ⟨linkedToo, isRight⟩
        · rw [isLeft, isRight, lists.key, listsToo.key]
        · exact absurd unlinked (linkedToo producer (perm.mem_iff.mpr member) lists)
        · exact absurd unlinkedToo (linked other (perm.mem_iff.mp isOther) listsToo)
        · rw [isLeft, isRight]
    · rw [Option.not_isSome_iff_eq_none.mp present,
        Option.not_isSome_iff_eq_none.mp (mt presence.mpr present)]

theorem CommittedRun.linksExact
    (run : CommittedRun toRfc3339 addresses assetId network records db tables targets)
    (unique : db.Unique) (distinct : DistinctHashes records)
    (once : SpentOnce assetId network records)
    (settles : ∀ outpoint, LinkSettles addresses assetId network records db outpoint) :
    LinksExact assetId network records tables := by
  intro utxo inTable inScope record member
  have link : tables.linkAt utxo.key = some utxo.spentByTxHash := by
    unfold TransactionTables.linkAt
    rw [(find_key_eq_some_iff (run.unique unique).utxos).mpr inTable, Option.map_some]
  by_cases spent : ∃ spender ∈ records, spender.Spends assetId network utxo.key
  · obtain ⟨spender, isSpender, names⟩ := spent
    have isLink := run.linkAt_of_spends unique distinct once (settles utxo.key) isSpender names
      (by rw [link]; rfl)
    rw [link] at isLink
    rw [Option.some.inj isLink, Option.some.injEq]
    constructor
    · intro same
      rw [← distinct.eq_of_key isSpender member (congrArg (TxKey.mk assetId network) same)]
      exact names
    · intro namesToo
      rw [once spender isSpender record member utxo.key names namesToo]
  · have unnamed : ∀ record ∈ records, ¬ record.Spends assetId network utxo.key :=
      fun record member names => spent ⟨record, member, names⟩
    refine iff_of_false ?_ (unnamed record member)
    intro linked
    rw [linked] at link
    obtain ⟨notLinked, notFound⟩ := (settles utxo.key).unspent unnamed inScope
    rcases run.linkAt_of_unspent unique distinct (settles utxo.key) unnamed with
      ⟨producer, isProducer, lists, unlinked, isLink⟩ | ⟨_, isLink⟩
    · rw [isLink] at link
      exact notFound unlinked producer isProducer lists record member (Option.some.inj link)
    · exact notLinked record member (isLink ▸ link)

/-! ## When an outpoint does not settle -/

theorem LinksExact.spends (exact : LinksExact assetId network records tables)
    {record : SyncTransactionRecord} (member : record ∈ records)
    (inScope : outpoint.1.InScope assetId network)
    (linked : tables.linkAt outpoint = some (some record.txHash)) :
    record.Spends assetId network outpoint := by
  obtain ⟨utxo, found, isLink⟩ := Option.map_eq_some_iff.mp linked
  obtain rfl := find_eq_some_key found
  exact (exact utxo (mem_of_find found) inScope record member).mp isLink

theorem LinksExact.linked (exact : LinksExact assetId network records tables)
    {record : SyncTransactionRecord} (member : record ∈ records)
    (names : record.Spends assetId network outpoint) (present : (tables.linkAt outpoint).isSome) :
    tables.linkAt outpoint = some (some record.txHash) := by
  obtain ⟨link, isLink⟩ := Option.isSome_iff_exists.mp present
  obtain ⟨utxo, found, rfl⟩ := Option.map_eq_some_iff.mp isLink
  obtain rfl := find_eq_some_key found
  have inScope : utxo.txKey.InScope assetId network := by
    obtain ⟨input, _, isOutpoint⟩ := names
    have isKey : _ = utxo.txKey := congrArg Prod.fst isOutpoint
    rw [← isKey]
    exact ⟨rfl, rfl⟩
  rw [isLink, (exact utxo (mem_of_find found) inScope record member).mpr names]

theorem namesFirst_of_linksExact (unique : db.Unique) (distinct : DistinctHashes records)
    (once : SpentOnce assetId network records)
    (run : CommittedRun toRfc3339 addresses assetId network records db tables targets)
    (exact : ∀ order tables targets, order.Perm records →
      CommittedRun toRfc3339 addresses assetId network order db tables targets →
        LinksExact assetId network records tables)
    {spender producer : SyncTransactionRecord} (isSpender : spender ∈ records)
    (isProducer : producer ∈ records) (different : producer ≠ spender)
    (names : spender.Spends assetId network outpoint)
    (lists : Lists addresses assetId network producer outpoint)
    (unlisted : db.linkAt outpoint = none) :
    NamesFirst addresses assetId network spender (producer.key assetId network) outpoint db := by
  -- the order with the spender first and its producer next
  have perm : (spender :: producer :: (records.erase spender).erase producer).Perm records := by
    apply List.Perm.trans _ (List.perm_cons_erase isSpender).symm
    apply List.Perm.cons
    exact (List.perm_cons_erase ((List.mem_erase_of_ne different).mpr isProducer)).symm
  obtain ⟨left, leftTargets, ordered⟩ := run.permute unique distinct perm
  have exactLeft := exact _ left leftTargets perm ordered
  have orderDistinct := distinct.perm perm
  have unnamed : ∀ other ∈ producer :: (records.erase spender).erase producer,
      ¬ other.Spends assetId network outpoint := by
    intro other member namesToo
    have same := (once.perm perm) other (List.mem_cons_of_mem _ member) spender
      List.mem_cons_self outpoint namesToo names
    exact orderDistinct.of_cons.1 other member (congrArg (fun record =>
      SyncTransactionRecord.key record assetId network) same)
  have otherKey : spender.key assetId network ≠ producer.key assetId network :=
    Ne.symm (orderDistinct.of_cons.1 producer List.mem_cons_self)
  cases ordered with
  | cons first ordered =>
    obtain ⟨accepted, isTables, _⟩ := of_applyTransactionReconciliation first
    rw [isTables] at ordered
    have stillUnlisted : (writtenTables toRfc3339 addresses assetId network spender db).linkAt
        outpoint = none := by
      rw [← Option.not_isSome_iff_eq_none, linkAt_isSome unique accepted, unlisted, not_or]
      refine ⟨Bool.false_ne_true, fun listsToo => ?_⟩
      exact otherKey (listsToo.key.trans lists.key.symm)
    cases ordered with
    | cons second ordered =>
      obtain ⟨producerAccepted, isTables, _⟩ := of_applyTransactionReconciliation second
      rw [isTables] at ordered
      have spenderUnique :=
        @unique_writtenTables toRfc3339 addresses assetId network spender db unique
      have producerUnique := @unique_writtenTables toRfc3339 addresses assetId network producer
        _ spenderUnique
      have taken := @Store.linkAt_of_lists toRfc3339 _ _ _ _ _ _ spenderUnique producerAccepted
        (unnamed producer List.mem_cons_self) lists (by rw [stillUnlisted]; rfl)
      have restUnnamed : ∀ other ∈ (records.erase spender).erase producer,
          ¬ other.Spends assetId network outpoint :=
        fun other member => unnamed other (List.mem_cons_of_mem _ member)
      have present : (left.linkAt outpoint).isSome := by
        rw [ordered.linkAt_isSome producerUnique, taken]
        exact .inl rfl
      have linked := exactLeft.linked isSpender names present
      apply (@earlierSpender_writtenTables _ _ _ _ _ _ _ toRfc3339 unique accepted otherKey
        names).mp
      cases found : Store.earlierSpender
          (writtenTables toRfc3339 addresses assetId network spender db)
          (producer.key assetId network) outpoint with
      | some hash =>
        rw [found] at taken
        rw [ordered.linkAt_of_linked producerUnique restUnnamed taken] at linked
        exact Option.some.inj linked
      | none =>
        rw [found] at taken
        have restDistinct :
            DistinctHashes ([] ++ producer :: (records.erase spender).erase producer) :=
          (@DistinctHashes.of_cons assetId network _ _ orderDistinct).2
        have restUnlisted := restDistinct.only_lists lists
        rw [ordered.linkAt_of_quiet producerUnique restUnnamed restUnlisted, taken] at linked
        cases Option.some.inj linked

theorem LinkSettles.of_linksExact (unique : db.Unique) (distinct : DistinctHashes records)
    (once : SpentOnce assetId network records)
    (run : CommittedRun toRfc3339 addresses assetId network records db tables targets)
    (exact : ∀ order tables targets, order.Perm records →
      CommittedRun toRfc3339 addresses assetId network order db tables targets →
        LinksExact assetId network records tables) (outpoint : TxKey × ℤ) :
    LinkSettles addresses assetId network records db outpoint := by
  refine ⟨?_, ?_⟩
  · intro spender isSpender names
    by_cases present : (db.linkAt outpoint).isSome
    · exact .inl present
    · refine .inr fun producer isProducer lists => ?_
      by_cases same : producer = spender
      · exact .inl same
      · exact .inr (namesFirst_of_linksExact unique distinct once run exact isSpender isProducer
          same names lists (Option.not_isSome_iff_eq_none.mp present))
  · intro unnamed inScope
    refine ⟨?_, ?_⟩
    · intro record member linked
      have kept := run.linkAt_of_linked unique unnamed linked
      exact unnamed record member
        ((exact records tables targets (.refl _) run).spends member inScope kept)
    · intro unlinked producer isProducer lists record member found
      -- the order with the producer first
      have perm : (producer :: records.erase producer).Perm records :=
        (List.perm_cons_erase isProducer).symm
      obtain ⟨left, leftTargets, ordered⟩ := run.permute unique distinct perm
      have exactLeft := exact _ left leftTargets perm ordered
      cases ordered with
      | cons first ordered =>
        obtain ⟨accepted, isTables, _⟩ := of_applyTransactionReconciliation first
        rw [isTables] at ordered
        have taken := @Store.linkAt_of_lists toRfc3339 _ _ _ _ _ _ unique accepted
          (unnamed producer isProducer) lists unlinked
        rw [found] at taken
        have kept := ordered.linkAt_of_linked (unique_writtenTables unique)
          (fun other isOther => unnamed other (List.mem_of_mem_erase isOther)) taken
        exact unnamed record member (exactLeft.spends member inScope kept)

/-- Reconciling records of distinct hashes that spend each outpoint once is independent of their
order and batches, with exact links, exactly when every outpoint settles. -/
theorem orderIndependent_iff (unique : db.Unique) (distinct : DistinctHashes records)
    (once : SpentOnce assetId network records)
    (commits : ∃ tables, ReconcilesTo toRfc3339 addresses assetId network records db tables) :
    OrderIndependent toRfc3339 addresses assetId network records db ↔
      ∀ outpoint, LinkSettles addresses assetId network records db outpoint := by
  obtain ⟨tables, reconciled⟩ := commits
  obtain ⟨order, targets, perm, run⟩ := reconcilesTo_iff.mp reconciled
  obtain ⟨_, _, ownRun⟩ := run.permute unique (distinct.perm perm) perm.symm
  constructor
  · intro independent
    apply LinkSettles.of_linksExact unique distinct once ownRun
    intro order left leftTargets perm ordered
    have reconciles := reconcilesTo_iff.mpr ⟨order, leftTargets, perm, ordered⟩
    exact (independent left left reconciles reconciles).2
  · intro settles left right isLeft isRight
    obtain ⟨first, leftTargets, firstPerm, leftRun⟩ := reconcilesTo_iff.mp isLeft
    obtain ⟨second, rightTargets, secondPerm, rightRun⟩ := reconcilesTo_iff.mp isRight
    have distinctFirst := distinct.perm firstPerm
    have onceFirst := once.perm firstPerm
    have permFirst := secondPerm.trans firstPerm.symm
    have same := leftRun.sameTransactions unique distinctFirst permFirst rightRun
    refine ⟨⟨?_, same.inputs, same.outputs, ?_, ?_⟩, ?_⟩
    · intro row
      rw [← find_key_eq_some_iff (leftRun.unique unique).chainTransactions, same.chain,
        find_key_eq_some_iff (rightRun.unique unique).chainTransactions]
    · intro row
      rw [← find_key_eq_some_iff (leftRun.unique unique).utxos,
        leftRun.find_utxos_eq unique distinctFirst onceFirst permFirst rightRun
          ((settles row.key).perm firstPerm),
        find_key_eq_some_iff (rightRun.unique unique).utxos]
    · intro row
      rw [same.transfers]
    · intro utxo inTable inScope record member
      exact leftRun.linksExact unique distinctFirst onceFirst
        (fun outpoint => (settles outpoint).perm firstPerm) utxo inTable inScope record
        (firstPerm.mem_iff.mpr member)

end Orders

/-! ### A spender of an unknown address -/

/-- A payment of the address and the transaction that spends it. -/
def paymentRecords (prevAddress : Option String) : List SyncTransactionRecord :=
  [fundingStep.record, {
    (spendingStep .confirmed).record with
    inputs := [{
      inputIndex := 0
      prevTxHash := "aa"
      prevOutputIndex := 0
      prevAddress
      valueAmount := some 50 }] }]

/-- What the batches reconcile to, on a new database. -/
def reconciledBatches (batches : List (List SyncTransactionRecord)) :
    TransactionTables × TransactionSyncReconcileSummary × Option DbError :=
  reconcileBatches (fun _ => "") spendAddresses .bitcoin .mainnet noFaults 0 batches emptyTables
    .default

theorem reconcilesTo_reconciledBatches {batches : List (List SyncTransactionRecord)}
    {records : List SyncTransactionRecord} (perm : batches.flatten.Perm records)
    (done : (reconciledBatches batches).2.2 = none) :
    ReconcilesTo (fun _ => "") spendAddresses .bitcoin .mainnet records emptyTables
      (reconciledBatches batches).1 := by
  refine ⟨batches, (reconciledBatches batches).2.1, perm, ?_⟩
  rw [← done]
  rfl

theorem paymentRecords_spentOnce (prevAddress : Option String) :
    SpentOnce .bitcoin .mainnet (paymentRecords prevAddress) := by
  have producerSpends : ∀ outpoint, ¬ fundingStep.record.Spends .bitcoin .mainnet outpoint :=
    fun outpoint ⟨_, member, _⟩ => absurd member List.not_mem_nil
  intro first isFirst second isSecond outpoint names namesToo
  rcases List.mem_cons.mp isFirst with rfl | isFirst
  · exact absurd names (producerSpends outpoint)
  · rcases List.mem_cons.mp isSecond with rfl | isSecond
    · exact absurd namesToo (producerSpends outpoint)
    · rw [List.mem_singleton.mp isFirst, List.mem_singleton.mp isSecond]

/-- A spender of a known address may come first. -/
theorem orderIndependent_payment :
    OrderIndependent (fun _ => "") spendAddresses .bitcoin .mainnet
      (paymentRecords (some "bc1qreceive")) emptyTables := by
  have commits := reconcilesTo_reconciledBatches
    (.refl [paymentRecords (some "bc1qreceive")].flatten) (by decide +kernel)
  rw [orderIndependent_iff emptyTables_unique (by unfold DistinctHashes; decide +kernel)
    (paymentRecords_spentOnce _) ⟨_, commits⟩]
  intro outpoint
  refine ⟨?_, fun _ _ => ⟨fun _ _ linked => ?_, fun _ _ _ _ _ _ found => ?_⟩⟩
  · intro spender member names
    refine .inr fun producer _ _ => .inr ⟨?_, fun row found => by cases found⟩
    rcases List.mem_cons.mp member with rfl | member
    · obtain ⟨_, isInput, _⟩ := names
      cases isInput
    · obtain rfl := List.mem_singleton.mp member
      obtain ⟨input, isInput, rfl⟩ := names
      obtain rfl := List.mem_singleton.mp isInput
      decide +kernel
  · cases linked
  · cases found

/-- A spender of an unknown address is linked to what it spends in one order only. -/
theorem unknown_prevout_order_dependent :
    ∃ records, DistinctHashes records ∧ SpentOnce .bitcoin .mainnet records ∧
      (∃ tables, ReconcilesTo (fun _ => "") spendAddresses .bitcoin .mainnet records emptyTables
        tables) ∧
      ¬ OrderIndependent (fun _ => "") spendAddresses .bitcoin .mainnet records emptyTables := by
  have reversed : ReconcilesTo (fun _ => "") spendAddresses .bitcoin .mainnet
      (paymentRecords none) emptyTables (reconciledBatches [(paymentRecords none).reverse]).1 :=
    reconcilesTo_reconciledBatches (by simp [List.reverse_perm]) (by decide +kernel)
  refine ⟨paymentRecords none, by unfold DistinctHashes; decide +kernel,
    paymentRecords_spentOnce none, ⟨_, reversed⟩, ?_⟩
  intro independent
  have exact := (independent _ _ reversed reversed).2
  revert exact
  decide +kernel

end Bitgarth.Store
