import Mathlib.Data.List.Sort
import Bitgarth.Foundation.Fallible
import Bitgarth.Mempool.RawTables
import Bitgarth.Store.MempoolMapper

/-! # Strict Mempool scans

A strict scan is validated from the pages that its sync runs recorded: they link by their cursors,
from the one first page to the last, and hold exactly the confirmed transactions of the address. A
cleanup leaves the result as it is if it deletes no run of the scan.
-/

namespace Bitgarth.Mempool

open Store Reachability KeyedTable Fallible

inductive StrictMempoolScanValidation where
  | exact
  | restart (reason : String)
deriving DecidableEq, Repr

/-- A validated page. The source refers to pages by their positions, here they are told apart by
the ids of their rows. -/
structure PageObservation where
  rawObservationSetId : String
  metadata : MempoolPageObservationMetadata
  requestedCursor : Option String
  returnedCursor : Option String
  confirmedTxids : List String
  membershipCount : ℕ
deriving DecidableEq, Repr

section Validation

variable (decode : String → Option MempoolAddressTransaction)

def parseCursor : Option String → Except String (Option String)
  | none => .ok none
  | some value =>
    match parseTxHash "cursor" value with
    | .ok cursor => .ok (some cursor)
    | .error _ => .error "Mempool scan evidence has an invalid cursor"

/-- The observations of a page with their versions, in the order of the page. -/
def memberships (tables : RawTables) (rawObservationSetId : String) :
    List (RawMempoolTransactionObservation × RawVersion String) :=
  ((tables.observations.filter (·.rawObservationSetId = rawObservationSetId)).filterMap
    fun observation =>
      (tables.versions.find? (·.rawVersionId = observation.rawVersionId)).map fun version =>
        (observation, version)).insertionSort fun row other =>
          row.1.pageItemIndex ≤ other.1.pageItemIndex

/-- The count of the memberships before, and their confirmed transactions, go on to a next one. -/
def readMembership (before : ℕ × List String)
    (row : RawMempoolTransactionObservation × RawVersion String) :
    Except String (ℕ × List String) :=
  if row.1.pageItemIndex ≠ before.1 then
    .error "Mempool scan evidence has non-contiguous page membership"
  else
    match parseTxHash "txid" row.2.identity, decode row.2.payloadBytes with
    | .error _, _ => .error "Mempool scan evidence has an invalid transaction id"
    | .ok _, none => .error "Mempool scan evidence has an invalid transaction payload"
    | .ok txid, some transaction =>
      match parseTxHash "txid" transaction.txid with
      | .error _ => .error "Mempool scan evidence payload has an invalid transaction id"
      | .ok payloadTxid =>
        if payloadTxid ≠ txid then
          .error "Mempool scan evidence transaction ids do not match"
        else
          .ok (before.1 + 1,
            if transaction.status.confirmed then before.2 ++ [txid] else before.2)

def loadPageObservation (tables : RawTables) (addressId startRunId : String)
    (set : RawObservationSet) : Except String PageObservation := do
  if set.metadata.addressId ≠ addressId ∨ set.metadata.scanStartRunId ≠ some startRunId then
    throw "Mempool scan evidence does not match the requested scan"
  let requestedCursor ← parseCursor set.metadata.requestedCursor
  let returnedCursor ← parseCursor set.metadata.returnedLastConfirmedCursor
  let (membershipCount, confirmedTxids) ←
    (memberships tables set.rawObservationSetId).foldlM (readMembership decode) (0, [])
  if set.metadata.itemCount ≠ membershipCount then
    throw "Mempool scan evidence page count does not match its memberships"
  if returnedCursor ≠ confirmedTxids.getLast? then
    throw "Mempool scan evidence cursor does not match the last confirmed transaction"
  pure ⟨set.rawObservationSetId, set.metadata, requestedCursor, returnedCursor, confirmedTxids,
    membershipCount⟩

def isFirstPage (page : PageObservation) : Bool :=
  page.metadata.pageKind = .firstPage ∧ page.requestedCursor = none

/-- A page other than the first one follows the page that returned its requested cursor. -/
def linkSuccessor (successors : List (String × PageObservation)) (page : PageObservation) :
    Except String (List (String × PageObservation)) :=
  if page.metadata.pageKind ≠ .paginatedAfterConfirmed then
    .error "Mempool scan evidence contains an invalid page kind"
  else
    match page.requestedCursor with
    | none => .error "Mempool scan evidence contains a page without its requested cursor"
    | some requestedCursor =>
      if requestedCursor ∈ successors.map Prod.fst then
        .error "Mempool scan evidence contains duplicate cursor successors"
      else .ok (successors ++ [(requestedCursor, page)])

/-- The last page of some providers repeats the one transaction it was asked to go on from. -/
def isSingletonDuplicateTerminal (allowSingletonDuplicateTerminal : Bool) (page : PageObservation)
    (observedConfirmedTxids : List String) : Bool :=
  allowSingletonDuplicateTerminal ∧ page.membershipCount = 1 ∧
    page.requestedCursor = page.returnedCursor ∧
    ∃ cursor ∈ page.requestedCursor, page.confirmedTxids.head? = some cursor ∧
      cursor ∈ observedConfirmedTxids

/-- The loop over the linked pages, with the visited pages and their confirmed transactions. Each
round visits another page, so that one round more than there are pages is not needed. -/
def followPages (successors : List (String × PageObservation))
    (allowSingletonDuplicateTerminal : Bool) :
    ℕ → List String → List String → PageObservation → Except String (List String × List String)
  | 0, _, _, _ => .error "Mempool scan evidence contains a cursor cycle"
  | rounds + 1, visited, observed, page =>
    if page.rawObservationSetId ∈ visited then
      .error "Mempool scan evidence contains a cursor cycle"
    else
      let terminal := isSingletonDuplicateTerminal allowSingletonDuplicateTerminal page observed
      let visited := page.rawObservationSetId :: visited
      let observed := observed ++ page.confirmedTxids
      match page.returnedCursor with
      | none =>
        if page.metadata.itemCount ≠ 0 ∨ page.membershipCount ≠ 0 then
          .error "Mempool scan evidence ended on a nonempty page"
        else .ok (visited, observed)
      | some returnedCursor =>
        if page.requestedCursor = some returnedCursor then
          if terminal then .ok (visited, observed)
          else .error "Mempool scan evidence contains a non-advancing cursor"
        else
          match find Prod.fst successors returnedCursor with
          | none => .error "Mempool scan evidence has a missing cursor link"
          | some next =>
            followPages successors allowSingletonDuplicateTerminal rounds visited observed
              next.2

/-- The pages of a scan, in the order they were observed. -/
def scanSets (tables : RawTables) (addressId startRunId : String) : List RawObservationSet :=
  (tables.sets.filter fun set => set.metadata.addressId = addressId ∧
    set.metadata.scanStartRunId = some startRunId).insertionSort fun set other =>
      set.observedAt < other.observedAt ∨ set.observedAt = other.observedAt ∧
        set.rawObservationSetId ≤ other.rawObservationSetId

/-- What a strict scan expects: the confirmed transactions that the provider counts, and those of
the canonical history. -/
structure ScanExpectation where
  expectedConfirmedCount : ℕ
  canonicalTxids : List String
  allowSingletonDuplicateTerminal : Bool

/-- The pages link from the first one, and hold the expected transactions. -/
def checkPages (expectation : ScanExpectation) (pages : List PageObservation) :
    Except String Unit :=
  match pages.filter isFirstPage with
  | [first] => do
      let successors ← (pages.filter fun page =>
        page.rawObservationSetId ≠ first.rawObservationSetId).foldlM linkSuccessor []
      let (visited, observed) ← followPages successors
        expectation.allowSingletonDuplicateTerminal (pages.length + 1) [] [] first
      if visited.length ≠ pages.length then
        throw "Mempool scan evidence contains an unlinked page"
      if observed.dedup.length ≠ expectation.expectedConfirmedCount then
        throw "Mempool scan confirmed transaction count does not match the provider count"
      if ¬ ((∀ txid ∈ observed, txid ∈ expectation.canonicalTxids) ∧
          ∀ txid ∈ expectation.canonicalTxids, txid ∈ observed) then
        throw "Mempool scan transactions do not exactly match canonical history"
  | _ => .error "Mempool scan evidence must contain exactly one first page"

/-- The reasons to restart, in the order they are found. -/
def checkScan (tables : RawTables) (addressId startRunId : String)
    (expectation : ScanExpectation) : Except String Unit := do
  if startRunId ∉ tables.runs.map SyncRun.syncRunId then
    throw "Mempool scan start evidence no longer exists"
  let pages ← (scanSets tables addressId startRunId).mapM
    (loadPageObservation decode tables addressId startRunId)
  checkPages expectation pages

/-- `validate_strict_mempool_history_scan`; the confirmed transactions of the address are given. -/
def validateStrictMempoolHistoryScan (tables : RawTables) (addressId startRunId : String)
    (expectation : ScanExpectation) : StrictMempoolScanValidation :=
  match checkScan decode tables addressId startRunId expectation with
  | .ok () => .exact
  | .error reason => .restart reason

end Validation

/-! ## Linked pages -/

section Links

variable {allow : Bool} {successors more : List (String × PageObservation)}
  {pages kept : List PageObservation} {page : PageObservation} {expectation : ScanExpectation}

theorem linkSuccessors_spec (linked : pages.foldlM linkSuccessor successors = .ok more) :
    (∀ pair, pair ∈ more ↔ pair ∈ successors ∨
      pair.2 ∈ pages ∧ pair.2.requestedCursor = some pair.1) ∧
      (Keyed Prod.fst successors → Keyed Prod.fst more) := by
  induction pages generalizing successors with
  | nil =>
    cases linked
    refine ⟨fun pair => ⟨.inl, ?_⟩, id⟩
    rintro (before | ⟨member, -⟩)
    · exact before
    · exact absurd member List.not_mem_nil
  | cons page rest ih =>
    rw [List.foldlM_cons] at linked
    obtain ⟨next, isNext, linked⟩ := bind_eq_ok.mp linked
    obtain ⟨spec, keyed⟩ := ih linked
    unfold linkSuccessor at isNext
    split at isNext
    · cases isNext
    split at isNext
    · cases isNext
    · rename_i requestedCursor isRequested
      split at isNext
      · cases isNext
      · rename_i isNew
        cases isNext
        refine ⟨fun pair => ?_, fun before => keyed ?_⟩
        · rw [spec, List.mem_append, List.mem_singleton, List.mem_cons]
          constructor
          · rintro ((before | rfl) | ⟨later, requested⟩)
            · exact .inl before
            · exact .inr ⟨.inl rfl, isRequested⟩
            · exact .inr ⟨.inr later, requested⟩
          · rintro (before | ⟨rfl | later, requested⟩)
            · exact .inl (.inl before)
            · refine .inl (.inr ?_)
              have isCursor := Option.some.inj (isRequested.symm.trans requested)
              exact Prod.ext isCursor.symm rfl
            · exact .inr ⟨later, requested⟩
        · unfold Keyed
          rw [List.map_append]
          exact List.Nodup.append before (List.nodup_singleton _)
            (List.disjoint_singleton.mpr isNew)

theorem find_successor_iff (linked : pages.foldlM linkSuccessor [] = .ok successors)
    {cursor : String} {pair : String × PageObservation} :
    find Prod.fst successors cursor = some pair ↔
      pair.2 ∈ pages ∧ pair.2.requestedCursor = some cursor ∧ pair.1 = cursor := by
  obtain ⟨spec, keyed⟩ := linkSuccessors_spec linked
  rw [find_eq_some_iff (keyed List.nodup_nil), spec]
  constructor
  · rintro ⟨absurdly | ⟨member, requested⟩, isCursor⟩
    · exact absurd absurdly List.not_mem_nil
    · exact ⟨member, isCursor ▸ requested, isCursor⟩
  · rintro ⟨member, requested, isCursor⟩
    exact ⟨.inr ⟨member, isCursor ▸ requested⟩, isCursor⟩

theorem followPages_mono {rounds others : ℕ} {visited observed : List String}
    {result : List String × List String}
    (grows : ∀ cursor pair, find Prod.fst successors cursor = some pair →
      find Prod.fst more cursor = some pair)
    (enough : rounds ≤ others)
    (done : followPages successors allow rounds visited observed page = .ok result) :
    followPages more allow others visited observed page = .ok result := by
  induction rounds generalizing others visited observed page with
  | zero => cases done
  | succ rounds ih =>
    obtain ⟨others, rfl⟩ := Nat.exists_eq_add_one_of_ne_zero
      (Nat.ne_of_gt (Nat.lt_of_lt_of_le (Nat.succ_pos rounds) enough))
    unfold followPages at done ⊢
    dsimp only at done ⊢
    split at done
    · cases done
    · rename_i isNew
      rw [if_neg isNew]
      split at done
      · exact done
      · split at done
        · rename_i repeated
          rw [if_pos repeated]
          exact done
        · rename_i advances
          rw [if_neg advances]
          split at done
          · cases done
          · rename_i next isNext
            rw [grows _ next isNext]
            exact ih (Nat.le_of_succ_le_succ enough) done

theorem checkPages_spec (exact : checkPages expectation pages = .ok ()) :
    ∃ first successors visited observed, pages.filter isFirstPage = [first] ∧
      (pages.filter fun page => page.rawObservationSetId ≠ first.rawObservationSetId).foldlM
        linkSuccessor [] = .ok successors ∧
      followPages successors expectation.allowSingletonDuplicateTerminal (pages.length + 1) [] []
        first = .ok (visited, observed) ∧
      visited.length = pages.length := by
  unfold checkPages at exact
  split at exact
  · rename_i first isFirst
    obtain ⟨successors, linked, exact⟩ := bind_eq_ok.mp exact
    obtain ⟨⟨visited, observed⟩, followed, exact⟩ := bind_eq_ok.mp exact
    refine ⟨first, successors, visited, observed, isFirst, linked, followed, ?_⟩
    by_contra different
    dsimp only at exact
    rw [if_pos different] at exact
    cases exact
  · cases exact

theorem length_eq_of_checkPages (exact : checkPages expectation pages = .ok ())
    (still : checkPages expectation kept = .ok ()) (subset : kept ⊆ pages)
    (shorter : kept.length ≤ pages.length) : kept.length = pages.length := by
  obtain ⟨first, successors, visited, observed, isFirst, linked, followed, count⟩ :=
    checkPages_spec exact
  obtain ⟨keptFirst, keptSuccessors, keptVisited, keptObserved, isKeptFirst, keptLinked,
    keptFollowed, keptCount⟩ := checkPages_spec still
  -- The first page that is kept is the first page.
  have member : keptFirst ∈ kept.filter isFirstPage := isKeptFirst ▸ List.mem_singleton_self _
  obtain ⟨isKept, isFirstKind⟩ := List.mem_filter.mp member
  have same : keptFirst ∈ pages.filter isFirstPage :=
    List.mem_filter.mpr ⟨subset isKept, isFirstKind⟩
  rw [isFirst] at same
  obtain rfl := List.mem_singleton.mp same
  have grows : ∀ cursor pair, find Prod.fst keptSuccessors cursor = some pair →
      find Prod.fst successors cursor = some pair := by
    intro cursor pair isNext
    obtain ⟨inKept, requested, isCursor⟩ := (find_successor_iff keptLinked).mp isNext
    obtain ⟨inKept, notFirst⟩ := List.mem_filter.mp inKept
    exact (find_successor_iff linked).mpr
      ⟨List.mem_filter.mpr ⟨subset inKept, notFirst⟩, requested, isCursor⟩
  have again := followPages_mono grows (Nat.succ_le_succ shorter) keptFollowed
  rw [followed] at again
  obtain ⟨rfl, -⟩ := Prod.mk.inj (Except.ok.inj again)
  exact keptCount.symm.trans count

end Links

/-! ## Cleanups -/

section Cleanups

variable {decode : String → Option MempoolAddressTransaction} {tables : RawTables}
  {addressId startRunId : String} {completedAt : ℤ} {retentionDays : ℕ}
  {expectation : ScanExpectation}

/-- Page rows are told apart by their ids, and observations belong to the run of their page. -/
structure RecordedPages (tables : RawTables) : Prop where
  unique : (tables.sets.map RawObservationSet.rawObservationSetId).Nodup
  ofPage : ∀ observation ∈ tables.observations, ∃ set ∈ tables.sets,
    set.rawObservationSetId = observation.rawObservationSetId ∧
      set.syncRunId = observation.syncRunId

/-- A cleanup deletes neither the start run of a scan nor a run that recorded one of its pages. -/
def KeepsScan (tables : RawTables) (completedAt : ℤ) (retentionDays : ℕ)
    (addressId startRunId : String) : Prop :=
  startRunId ∉ tables.prunable completedAt retentionDays ∧
    ∀ set ∈ scanSets tables addressId startRunId,
      set.syncRunId ∉ tables.prunable completedAt retentionDays

instance : Decidable (KeepsScan tables completedAt retentionDays addressId startRunId) :=
  inferInstanceAs (Decidable (_ ∧ _))

theorem mem_scanSets {set : RawObservationSet} : set ∈ scanSets tables addressId startRunId ↔
    set ∈ tables.sets ∧ set.metadata.addressId = addressId ∧
      set.metadata.scanStartRunId = some startRunId := by
  rw [scanSets, List.mem_insertionSort, List.mem_filter, decide_eq_true_iff]

theorem mem_runs_cleanup : startRunId ∈
    (tables.cleanupRawSyncHistory completedAt retentionDays).runs.map SyncRun.syncRunId ↔
      startRunId ∈ tables.runs.map SyncRun.syncRunId ∧
        startRunId ∉ tables.prunable completedAt retentionDays := by
  rw [RawTables.cleanupRawSyncHistory, List.mem_map, List.mem_map]
  constructor
  · rintro ⟨run, member, rfl⟩
    obtain ⟨isRun, kept⟩ := List.mem_filter.mp member
    exact ⟨⟨run, isRun, rfl⟩, of_decide_eq_true kept⟩
  · rintro ⟨⟨run, isRun, rfl⟩, kept⟩
    exact ⟨run, List.mem_filter.mpr ⟨isRun, decide_eq_true kept⟩, rfl⟩

theorem RecordedPages.observations_cleanup (recorded : RecordedPages tables)
    {set : RawObservationSet} (member : set ∈ tables.sets)
    (kept : set.syncRunId ∉ tables.prunable completedAt retentionDays) :
    memberships (tables.cleanupRawSyncHistory completedAt retentionDays)
      set.rawObservationSetId = memberships tables set.rawObservationSetId := by
  have same : (tables.cleanupRawSyncHistory completedAt retentionDays).observations.filter
      (·.rawObservationSetId = set.rawObservationSetId) =
      tables.observations.filter (·.rawObservationSetId = set.rawObservationSetId) := by
    rw [RawTables.cleanupRawSyncHistory, List.filter_filter]
    apply List.filter_congr
    intro observation isObservation
    rw [Bool.and_eq_left_iff_imp]
    intro ofSet
    obtain ⟨page, isPage, samePage, sameRun⟩ := recorded.ofPage observation isObservation
    have ofSet : observation.rawObservationSetId = set.rawObservationSetId :=
      of_decide_eq_true ofSet
    obtain rfl := List.inj_on_of_nodup_map recorded.unique isPage member (samePage.trans ofSet)
    refine decide_eq_true ⟨sameRun ▸ kept, ?_⟩
    rw [← samePage]
    exact List.mem_map_of_mem (List.mem_filter.mpr ⟨isPage, decide_eq_true kept⟩)
  unfold memberships
  rw [same]
  rfl

theorem RecordedPages.loadPageObservation_cleanup (recorded : RecordedPages tables)
    {set : RawObservationSet} (member : set ∈ tables.sets)
    (kept : set.syncRunId ∉ tables.prunable completedAt retentionDays) :
    loadPageObservation decode (tables.cleanupRawSyncHistory completedAt retentionDays) addressId
      startRunId set = loadPageObservation decode tables addressId startRunId set := by
  unfold loadPageObservation
  rw [recorded.observations_cleanup member kept]

theorem mem_scanSets_cleanup {set : RawObservationSet} :
    set ∈ scanSets (tables.cleanupRawSyncHistory completedAt retentionDays) addressId startRunId ↔
      set ∈ scanSets tables addressId startRunId ∧
        set.syncRunId ∉ tables.prunable completedAt retentionDays := by
  rw [mem_scanSets, mem_scanSets, RawTables.cleanupRawSyncHistory, List.mem_filter,
    decide_eq_true_iff, and_right_comm]

theorem RecordedPages.checkScan_of_keepsScan (recorded : RecordedPages tables)
    (keeps : KeepsScan tables completedAt retentionDays addressId startRunId) :
    checkScan decode (tables.cleanupRawSyncHistory completedAt retentionDays) addressId startRunId
      expectation = checkScan decode tables addressId startRunId expectation := by
  have sameSets : scanSets (tables.cleanupRawSyncHistory completedAt retentionDays) addressId
      startRunId = scanSets tables addressId startRunId := by
    unfold scanSets
    rw [RawTables.cleanupRawSyncHistory, List.filter_filter]
    apply congrArg
    apply List.filter_congr
    intro set member
    rw [Bool.and_eq_left_iff_imp]
    intro ofScan
    exact decide_eq_true
      (keeps.2 set (mem_scanSets.mpr ⟨member, (of_decide_eq_true ofScan :)⟩))
  have samePages : (scanSets tables addressId startRunId).mapM (loadPageObservation decode
      (tables.cleanupRawSyncHistory completedAt retentionDays) addressId startRunId) =
      (scanSets tables addressId startRunId).mapM
        (loadPageObservation decode tables addressId startRunId) := by
    apply mapM_congr
    intro set member
    exact recorded.loadPageObservation_cleanup (mem_scanSets.mp member).1 (keeps.2 set member)
  have sameStart : startRunId ∉ (tables.cleanupRawSyncHistory completedAt
      retentionDays).runs.map SyncRun.syncRunId ↔
      startRunId ∉ tables.runs.map SyncRun.syncRunId := by
    rw [mem_runs_cleanup, and_iff_left keeps.1]
  unfold checkScan
  rw [sameSets, samePages]
  by_cases started : startRunId ∈ tables.runs.map SyncRun.syncRunId
  · rw [if_neg (not_not_intro started), if_neg (fun gone => sameStart.mp gone started)]
  · rw [if_pos started, if_pos (sameStart.mpr started)]

theorem checkScan_spec (exact : checkScan decode tables addressId startRunId expectation = .ok ()) :
    startRunId ∈ tables.runs.map SyncRun.syncRunId ∧ ∃ pages,
      (scanSets tables addressId startRunId).mapM
        (loadPageObservation decode tables addressId startRunId) = .ok pages ∧
      pages.length = (scanSets tables addressId startRunId).length ∧
      checkPages expectation pages = .ok () := by
  unfold checkScan at exact
  by_cases started : startRunId ∈ tables.runs.map SyncRun.syncRunId
  · rw [if_neg (not_not_intro started)] at exact
    obtain ⟨pages, loaded, checked⟩ := bind_eq_ok.mp exact
    refine ⟨started, pages, loaded, ?_, checked⟩
    have counted := @map_eq_of_mapM_eq_ok _ _ _ Unit _ (fun _ => ()) (fun _ => ()) _ _ loaded
      (fun _ _ _ => rfl)
    have lengths := congrArg List.length counted
    rwa [List.length_map, List.length_map] at lengths
  · rw [if_pos started] at exact
    cases exact

theorem RecordedPages.keepsScan_of_checkScan (recorded : RecordedPages tables)
    (exact : checkScan decode tables addressId startRunId expectation = .ok ())
    (still : checkScan decode (tables.cleanupRawSyncHistory completedAt retentionDays) addressId
      startRunId expectation = .ok ()) :
    KeepsScan tables completedAt retentionDays addressId startRunId := by
  obtain ⟨-, pages, loaded, count, checked⟩ := checkScan_spec exact
  obtain ⟨started, kept, keptLoaded, keptCount, keptChecked⟩ := checkScan_spec still
  refine ⟨(mem_runs_cleanup.mp started).2, ?_⟩
  have subset : kept ⊆ pages := by
    intro page member
    obtain ⟨set, isSet, isLoaded⟩ := (mem_of_mapM_eq_ok keptLoaded).2 page member
    obtain ⟨ofScan, isKept⟩ := mem_scanSets_cleanup.mp isSet
    rw [recorded.loadPageObservation_cleanup (mem_scanSets.mp ofScan).1 isKept] at isLoaded
    obtain ⟨same, isPage, sameLoaded⟩ := (mem_of_mapM_eq_ok loaded).1 set ofScan
    rw [isLoaded] at sameLoaded
    exact (Except.ok.inj sameLoaded) ▸ isPage
  have filtered : (scanSets (tables.cleanupRawSyncHistory completedAt retentionDays) addressId
      startRunId).length = ((scanSets tables addressId startRunId).filter fun set =>
        set.syncRunId ∉ tables.prunable completedAt retentionDays).length := by
    unfold scanSets
    rw [List.length_insertionSort, ((List.perm_insertionSort _ _).filter _).length_eq,
      RawTables.cleanupRawSyncHistory, List.filter_comm]
  have shorter := List.length_filter_le
    (fun set : RawObservationSet =>
      decide (set.syncRunId ∉ tables.prunable completedAt retentionDays))
    (scanSets tables addressId startRunId)
  have sameLength := length_eq_of_checkPages checked keptChecked subset
    (by rw [keptCount, count, filtered]; exact shorter)
  rw [keptCount, count, filtered] at sameLength
  intro set member
  exact of_decide_eq_true (List.length_filter_eq_length_iff.mp sameLength set member)

/-! ## Runs -/

variable {system after : IngestionSystem} {step : IngestionStep}

theorem RecordedPages.cleanup (recorded : RecordedPages tables) :
    RecordedPages (tables.cleanupRawSyncHistory completedAt retentionDays) := by
  refine ⟨recorded.unique.sublist (List.filter_sublist.map _), ?_⟩
  intro observation member
  obtain ⟨isObservation, kept⟩ := List.mem_filter.mp member
  obtain ⟨-, ofKept⟩ := of_decide_eq_true kept
  obtain ⟨set, isSet, ofSet⟩ := List.mem_map.mp ofKept
  obtain ⟨page, isPage, ofPage, sameRun⟩ := recorded.ofPage observation isObservation
  obtain rfl := List.inj_on_of_nodup_map recorded.unique (List.mem_of_mem_filter isSet) isPage
    (ofSet.trans ofPage.symm)
  exact ⟨set, isSet, ofSet, sameRun⟩

theorem RecordedPages.recordPage (recorded : RecordedPages tables) {call : PageCall}
    {rawObservationSetId : String} {metadata : MempoolPageObservationMetadata}
    {observationIds : List String}
    (isNew : rawObservationSetId ∉ tables.sets.map RawObservationSet.rawObservationSetId) :
    RecordedPages (IngestionSystem.recordPage tables call rawObservationSetId metadata
      observationIds) := by
  refine ⟨?_, ?_⟩
  · rw [IngestionSystem.recordPage, List.map_append]
    exact recorded.unique.append (List.nodup_singleton _) (List.disjoint_singleton.mpr isNew)
  · intro observation member
    rcases List.mem_append.mp member with before | isOwn
    · obtain ⟨set, isSet, ofSet⟩ := recorded.ofPage observation before
      exact ⟨set, List.mem_append_left _ isSet, ofSet⟩
    · obtain ⟨index, inRange, rfl⟩ := List.mem_mapIdx.mp isOwn
      exact ⟨_, List.mem_append_right _ (List.mem_singleton_self _), rfl, rfl⟩

/-- Each step records the observations of a page with its run. -/
theorem recordedPages_run (recorded : RecordedPages system.tables)
    (taken : system.run step = some after) : RecordedPages after.tables := by
  cases step with
  | commitPage call rawObservationSetId metadata observationIds =>
    obtain ⟨commits, rfl⟩ := Option.ite_some_none_eq_some.mp taken
    exact recorded.recordPage commits.2.2.1
  | cleanup completedAt retentionDays =>
    cases taken
    exact recorded.cleanup
  | ingestItem call request =>
    obtain ⟨-, taken⟩ := Option.ite_none_right_eq_some.mp taken
    split at taken
    · cases taken
    · cases taken
      exact ⟨recorded.unique, recorded.ofPage⟩
  | beginPage syncRunId sourceConnectionId observedAt =>
    cases taken
    exact recorded
  | stop call =>
    cases taken
    exact recorded
  | startRun run | completeRun syncRunId status | repair ids =>
    obtain ⟨-, rfl⟩ := Option.ite_some_none_eq_some.mp taken
    exact ⟨recorded.unique, recorded.ofPage⟩

theorem validate_eq_exact_iff : validateStrictMempoolHistoryScan decode tables addressId startRunId
    expectation = .exact ↔
      checkScan decode tables addressId startRunId expectation = .ok () := by
  unfold validateStrictMempoolHistoryScan
  split
  · rename_i isOk
    exact iff_of_true rfl isOk
  · rename_i reason isError
    rw [isError]
    exact iff_of_false (by rintro ⟨⟩) (by rintro ⟨⟩)

/-- In every run a cleanup that deletes no run of a scan leaves its result as it is, one that
deletes its start run has it restart, and an exact scan stays exact only under the former. -/
theorem cleanup_keeps_strict_scan {meets : IngestionStep → IngestionSystem → Prop}
    (reached : Reached (fun step before after => IngestionSystem.run before step = some after)
      meets {} system) (decode : String → Option MempoolAddressTransaction)
    (addressId startRunId : String) (expectation : ScanExpectation) (completedAt : ℤ)
    (retentionDays : ℕ) :
    (KeepsScan system.tables completedAt retentionDays addressId startRunId →
      validateStrictMempoolHistoryScan decode
        (system.tables.cleanupRawSyncHistory completedAt retentionDays) addressId startRunId
        expectation = validateStrictMempoolHistoryScan decode system.tables addressId startRunId
        expectation) ∧
    (startRunId ∈ system.tables.prunable completedAt retentionDays →
      validateStrictMempoolHistoryScan decode
        (system.tables.cleanupRawSyncHistory completedAt retentionDays) addressId startRunId
        expectation = .restart "Mempool scan start evidence no longer exists") ∧
    (validateStrictMempoolHistoryScan decode system.tables addressId startRunId expectation =
        .exact →
      (validateStrictMempoolHistoryScan decode
        (system.tables.cleanupRawSyncHistory completedAt retentionDays) addressId startRunId
        expectation = .exact ↔
      KeepsScan system.tables completedAt retentionDays addressId startRunId)) := by
  have recorded : RecordedPages system.tables := by
    apply @Reached.invariant _ _ _ _ _ _ reached (fun system => RecordedPages system.tables)
      ⟨.nil, fun _ member => absurd member List.not_mem_nil⟩
    intro step before after recorded _ taken
    exact recordedPages_run recorded taken
  refine ⟨?_, ?_, ?_⟩
  · intro keeps
    unfold validateStrictMempoolHistoryScan
    rw [recorded.checkScan_of_keepsScan keeps]
  · intro isPruned
    have gone : startRunId ∉ (system.tables.cleanupRawSyncHistory completedAt
        retentionDays).runs.map SyncRun.syncRunId :=
      fun started => (mem_runs_cleanup.mp started).2 isPruned
    unfold validateStrictMempoolHistoryScan checkScan
    rw [if_pos gone]
    rfl
  · intro exact
    rw [validate_eq_exact_iff] at exact ⊢
    constructor
    · exact recorded.keepsScan_of_checkScan exact
    · intro keeps
      rw [recorded.checkScan_of_keepsScan keeps]
      exact exact

end Cleanups

/-! ## Scans of an address -/

/-- The one page of a scan, which the provider gave empty. -/
def emptyScan (run : String) (status : SyncRunStatus) : List IngestionStep :=
  [.startRun ⟨run, "mempool", .started, 0⟩, .beginPage run "mempool" 1,
    .commitPage ⟨run, "mempool", 1, []⟩ (run ++ "-page")
      ⟨"address", some run, .firstPage, none, none, 0⟩ [], .completeRun run status]

def scannedTxid : String := "aaaaaaaaaaaaaaaaaaaaaaaaaaaaaaaaaaaaaaaaaaaaaaaaaaaaaaaaaaaaaaaa"

/-- A page with one confirmed transaction and the empty page after it, behind a run that failed. -/
def twoPageScan : List IngestionStep :=
  emptyScan "old" (.completedFailure 2) ++
    [.startRun ⟨"run", "mempool", .started, 3⟩, .beginPage "run" "mempool" 4,
      .ingestItem ⟨"run", "mempool", 4, []⟩
        ⟨"version", "mempool", .mainnet, scannedTxid, "payload", 4, none⟩,
      .commitPage ⟨"run", "mempool", 4, ["version"]⟩ "first"
        ⟨"address", some "run", .firstPage, none, some scannedTxid, 1⟩ ["observation"],
      .beginPage "run" "mempool" 5,
      .commitPage ⟨"run", "mempool", 5, []⟩ "last"
        ⟨"address", some "run", .paginatedAfterConfirmed, some scannedTxid, none, 0⟩ [],
      .completeRun "run" (.completedSuccess 6)]

/-- A day later the run that failed is deleted, the pages of the successful one are kept, and its
scan stays exact. -/
theorem cleanup_keeps_strict_scan_twoPageScan : ∃ system : IngestionSystem,
    system.tables.prunable (25 * nanosPerHour) 30 = ["old"] ∧
    validateStrictMempoolHistoryScan
      (fun _ => some ⟨scannedTxid, [], [], none, ⟨true, none, none, none⟩⟩)
      (system.tables.cleanupRawSyncHistory (25 * nanosPerHour) 30) "address" "run"
      ⟨1, [scannedTxid], false⟩ = .exact := by
  have keeps := cleanup_keeps_strict_scan (Reached.foldlM twoPageScan .start
    (fun _ _ _ => trivial) rfl : Reached _ (fun _ _ => True) _ _)
    (fun _ => some ⟨scannedTxid, [], [], none, ⟨true, none, none, none⟩⟩) "address" "run"
    ⟨1, [scannedTxid], false⟩ (25 * nanosPerHour) 30
  exact ⟨_, by decide +kernel, (keeps.2.2 (by decide +kernel)).mpr (by decide +kernel)⟩

/-- A day later the page of a failed run is deleted with it, and the exact scan restarts. -/
theorem not_cleanup_keeps_strict_scan_failedRun : ∃ system : IngestionSystem,
    Reached (fun step before after => IngestionSystem.run before step = some after)
      (fun _ _ => True) {} system ∧
    validateStrictMempoolHistoryScan (fun _ => none) system.tables "address" "run"
      ⟨0, [], false⟩ = .exact ∧
    validateStrictMempoolHistoryScan (fun _ => none)
      (system.tables.cleanupRawSyncHistory (25 * nanosPerHour) 30) "address" "run"
      ⟨0, [], false⟩ = .restart "Mempool scan start evidence no longer exists" := by
  refine ⟨_, Reached.foldlM (emptyScan "run" (.completedFailure 2)) .start
    (fun _ _ _ => trivial) rfl,
    ?_, ?_⟩
  · decide +kernel
  · decide +kernel

end Bitgarth.Mempool
