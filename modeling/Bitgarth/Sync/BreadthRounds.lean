import Mathlib.Data.List.Infix
import Mathlib.Data.List.Sort
import Mathlib.Data.Prod.Lex
import Mathlib.Data.String.Basic
import Mathlib.Order.WithBot
import Bitgarth.Sync.HdScan
import Bitgarth.Sync.Planner

/-! # History rounds over an HD account

A round gives each active address at most one page of history, the addresses to restart first
and the others from the frontier on. `fairRound` says which addresses a round attempts and
where the next round goes on; a skip ends a round, and what is before the frontier waits.
-/

namespace Bitgarth.Sync

/-! ## The order of a round -/

/-- Derivation index, then change, then id; a missing number comes first. -/
def LoadedSyncAddress.historyKey (address : LoadedSyncAddress) :
    WithBot ℕ ×ₗ WithBot ℕ ×ₗ String :=
  toLex (address.derivationIndex, toLex (address.derivationChange, address.addressId))

/-- An address whose history starts again at the first page. -/
def LoadedSyncAddress.restarts (address : LoadedSyncAddress) : Bool :=
  address.sync.backfill.mempoolBackfillCursorTxid.isNone &&
    match address.sync.backfill.mempoolHistoryProof,
      address.sync.backfill.mempoolExpectedTxCount with
    | some proof, some expected => proof.confirmedTxCount < expected
    | _, _ => false

def sortedByHistoryKey (addresses : List LoadedSyncAddress) : List LoadedSyncAddress :=
  addresses.insertionSort fun left right => left.historyKey ≤ right.historyKey

/-- The addresses with history, in their order. -/
def activeMempoolHistoryAddresses (addresses : List LoadedSyncAddress)
    (activeAddressIds : List String) : List LoadedSyncAddress :=
  (sortedByHistoryKey addresses).filter fun address =>
    activeAddressIds.contains address.addressId ||
      mempoolHistoryRequiresFirstPageRestart address.sync.backfill

/-- Where the frontier is among the active addresses. -/
def historyStart (addresses : List LoadedSyncAddress) (activeAddressIds : List String)
    (frontierAddressId : Option String) : ℕ :=
  let active := activeMempoolHistoryAddresses addresses activeAddressIds
  let frontierKey := frontierAddressId.bind fun frontierId =>
    ((sortedByHistoryKey addresses).find? fun address => address.addressId = frontierId).map
      LoadedSyncAddress.historyKey
  let atFrontier := frontierAddressId.bind fun frontierId =>
    active.findIdx? fun address => address.addressId = frontierId
  let afterFrontier := frontierKey.bind fun frontierKey =>
    active.findIdx? fun address => frontierKey < address.historyKey
  (atFrontier.or afterFrontier).getD 0

/-- The addresses of a round. -/
def orderedActiveMempoolHistoryAddresses (addresses : List LoadedSyncAddress)
    (activeAddressIds : List String) (frontierAddressId : Option String) :
    List LoadedSyncAddress :=
  let active := activeMempoolHistoryAddresses addresses activeAddressIds
  let start := historyStart addresses activeAddressIds frontierAddressId
  active.filter LoadedSyncAddress.restarts ++
    (active.drop start).filter fun address => !address.restarts

def orderedActiveMempoolHistoryAddressIds (addresses : List LoadedSyncAddress)
    (activeAddressIds : List String) (frontierAddressId : Option String) : List String :=
  (orderedActiveMempoolHistoryAddresses addresses activeAddressIds frontierAddressId).map
    fun address => address.addressId

/-! ## A round -/

/-- What a round is run with. The answers are those of its calls of the gate, one for each
address; a page is committed together with the frontier. -/
structure HdMempoolHistoryBreadthRoundRequest where
  source : TriggerSource
  policy : TransactionFetchPolicy
  knownActivity : List String
  answers : ℕ → GateAnswers
  pageCommitted : ℕ → Bool
  storedCountAfter : ℕ → Except SyncError ℕ

/-- A call of the gate, with the address that comes next. -/
structure RoundVisit where
  addressId : String
  nextAddressId : Option String
  pageCommitted : Bool
deriving DecidableEq, Repr

structure RoundState where
  addresses : List LoadedSyncAddress
  mempoolHistoryNextAddressId : Option String
  processedForAccount : ℕ
  completedAddressIds : List String
  visits : List RoundVisit
deriving DecidableEq, Repr

/-- How a round ends. -/
inductive RoundExit where
  | otherProvider
  | finished
  | budget
  | interrupted
  | skipped
  | capReached
  | aborted (error : SyncError)
deriving DecidableEq, Repr

namespace HdMempoolHistoryBreadthRoundRequest

variable (request : HdMempoolHistoryBreadthRoundRequest)

def callGate (index : ℕ) (address : LoadedSyncAddress) :
    Except SyncError (AddressSyncState × GateOutcome) :=
  syncSingleAddressWithControls request.source request.policy (request.answers index)
    address.toSyncAddress address.sync

/-- Whether the call commits a page; only an iteration can. -/
def commits (index : ℕ) (address : LoadedSyncAddress) : Bool :=
  match decideBeforeFetch request.source request.policy (request.answers index) address.assetId
      address.accountId address.sync with
  | .ok none => request.pageCommitted index
  | _ => false

/-- Make a visit, and move the frontier with its page. -/
def visit (index : ℕ) (address : LoadedSyncAddress) (rest : List String) (s : RoundState) :
    RoundState :=
  { s with
    mempoolHistoryNextAddressId :=
      if request.commits index address then rest.head? else s.mempoolHistoryNextAddressId
    visits := s.visits ++ [⟨address.addressId, rest.head?, request.commits index address⟩] }

/-- Take over what the gate leaves of an address. -/
def complete (address : LoadedSyncAddress) (sync : AddressSyncState) (outcome : GateOutcome)
    (s : RoundState) : RoundState :=
  { s with
    addresses := s.addresses.map fun other =>
      if other.addressId = address.addressId then { other with sync } else other
    processedForAccount :=
      if outcome.attempted then s.processedForAccount + 1 else s.processedForAccount
    completedAddressIds :=
      if outcome.attempted then s.completedAddressIds ++ [address.addressId]
      else s.completedAddressIds }

/-- The loop of a round, at the given call. -/
def roundFrom (accountId : String) (index : ℕ) :
    List String → RoundState → RoundExit × RoundState
  | [], s => (.finished, s)
  | addressId :: rest, s =>
    if maxAddressesPerAccountPerRun ≤ s.processedForAccount then
      (.budget, s)
    else
      match s.addresses.find? fun address => address.addressId = addressId with
      | none => (.aborted (.parse "HD mempool history address missing from account bundle"), s)
      | some address =>
        let visited := request.visit index address rest s
        match request.callGate index address with
        | .error error => (.aborted error, visited)
        | .ok (sync, outcome) =>
          let completed := complete address sync outcome visited
          if outcome.interrupted = true ∨ sync.lastResult = some .failure then
            (.interrupted, completed)
          else if outcome.attempted = false then
            (.skipped, completed)
          else
            match loadStoredCount request.policy (some accountId)
                (request.storedCountAfter index) with
            | .error error => (.aborted error, completed)
            | .ok storedCount =>
              if request.policy.permitsTransactionPage storedCount = false then
                (.capReached, completed)
              else
                roundFrom accountId (index + 1) rest completed

end HdMempoolHistoryBreadthRoundRequest

/-- The addresses of a bundle in the order of a round. -/
def AccountSyncBundle.roundIds (bundle : AccountSyncBundle) (knownActivity : List String) :
    List String :=
  orderedActiveMempoolHistoryAddressIds bundle.addresses knownActivity
    bundle.mempoolHistoryNextAddressId

def RoundState.initial (bundle : AccountSyncBundle) : RoundState where
  addresses := bundle.addresses
  mempoolHistoryNextAddressId := bundle.mempoolHistoryNextAddressId
  processedForAccount := 0
  completedAddressIds := []
  visits := []

def runHdMempoolHistoryBreadthRound (request : HdMempoolHistoryBreadthRoundRequest)
    (bundle : AccountSyncBundle) : RoundExit × RoundState :=
  if defaultApiProviderForAsset bundle.assetId ≠ .mempoolSpace then
    (.otherProvider, .initial bundle)
  else
    request.roundFrom bundle.accountId 0 (bundle.roundIds request.knownActivity) (.initial bundle)

/-! ## The addresses of a round -/

section Order

variable {addresses : List LoadedSyncAddress} {activeAddressIds : List String}
  {frontierAddressId : Option String}

/-- The ids of a list of addresses are distinct. -/
def DistinctIds (addresses : List LoadedSyncAddress) : Prop :=
  (addresses.map fun address => address.addressId).Nodup

theorem DistinctIds.eq_of_id (distinct : DistinctIds addresses) {left right : LoadedSyncAddress}
    (leftMem : left ∈ addresses) (rightMem : right ∈ addresses)
    (same : left.addressId = right.addressId) : left = right :=
  List.inj_on_of_nodup_map distinct leftMem rightMem same

theorem addressId_eq_of_historyKey_eq {left right : LoadedSyncAddress}
    (same : left.historyKey = right.historyKey) : left.addressId = right.addressId :=
  congrArg (fun key => (ofLex (ofLex key).2).2) same

theorem pairwise_sortedByHistoryKey (distinct : DistinctIds addresses) :
    (sortedByHistoryKey addresses).Pairwise fun left right =>
      left.historyKey < right.historyKey := by
  have sorted : (sortedByHistoryKey addresses).Pairwise fun left right =>
      left.historyKey ≤ right.historyKey := List.pairwise_insertionSort _ addresses
  have perm : (sortedByHistoryKey addresses).Perm addresses := List.perm_insertionSort _ addresses
  have ids : ((sortedByHistoryKey addresses).map fun address => address.addressId).Nodup :=
    (perm.map _).nodup_iff.mpr distinct
  refine (sorted.and (List.pairwise_map.mp ids)).imp ?_
  rintro left right ⟨le, ne⟩
  exact lt_of_le_of_ne le fun same => ne (addressId_eq_of_historyKey_eq same)

theorem pairwise_activeMempoolHistoryAddresses (distinct : DistinctIds addresses) :
    (activeMempoolHistoryAddresses addresses activeAddressIds).Pairwise fun left right =>
      left.historyKey < right.historyKey :=
  (pairwise_sortedByHistoryKey distinct).filter _

theorem mem_activeMempoolHistoryAddresses {address : LoadedSyncAddress} :
    address ∈ activeMempoolHistoryAddresses addresses activeAddressIds ↔
      address ∈ addresses ∧ (address.addressId ∈ activeAddressIds ∨
        mempoolHistoryRequiresFirstPageRestart address.sync.backfill = true) := by
  unfold activeMempoolHistoryAddresses sortedByHistoryKey
  rw [List.mem_filter, List.mem_insertionSort, Bool.or_eq_true, List.contains_iff_mem]

theorem mem_drop_iff_le {active : List LoadedSyncAddress} {index : ℕ}
    {first address : LoadedSyncAddress}
    (sorted : active.Pairwise fun left right => left.historyKey < right.historyKey)
    (found : active[index]? = some first) :
    address ∈ active.drop index ↔ address ∈ active ∧ first.historyKey ≤ address.historyKey := by
  obtain ⟨inside, isFirst⟩ := List.getElem?_eq_some_iff.mp found
  have split : active.take index ++ first :: active.drop (index + 1) = active := by
    rw [← isFirst, ← List.drop_eq_getElem_cons inside, List.take_append_drop]
  rw [← split] at sorted
  obtain ⟨_, fromFirst, before⟩ := List.pairwise_append.mp sorted
  have after := (List.pairwise_cons.mp fromFirst).1
  rw [List.drop_eq_getElem_cons inside, isFirst]
  refine ⟨fun among => ⟨?_, ?_⟩, fun ⟨among, le⟩ => ?_⟩
  · rw [← split]
    exact List.mem_append_right _ among
  · rcases List.mem_cons.mp among with rfl | later
    · exact le_rfl
    · exact (after address later).le
  · rcases List.mem_append.mp (split ▸ among) with earlier | fromFirst
    · exact absurd le (not_le.mpr (before address earlier first List.mem_cons_self))
    · exact fromFirst

/-- An address is at the frontier or after it, if an active address is. -/
def FromFrontier (addresses : List LoadedSyncAddress) (activeAddressIds : List String)
    (frontierAddressId : Option String) (address : LoadedSyncAddress) : Prop :=
  ∀ frontier ∈ addresses, frontierAddressId = some frontier.addressId →
    (∃ active ∈ activeMempoolHistoryAddresses addresses activeAddressIds,
      frontier.historyKey ≤ active.historyKey) →
    frontier.historyKey ≤ address.historyKey

theorem exists_of_findIdx? {active : List LoadedSyncAddress} {test : LoadedSyncAddress → Bool}
    {index : ℕ} (found : active.findIdx? test = some index) :
    ∃ first, active[index]? = some first ∧ first ∈ active ∧ test first = true ∧
      ∀ earlier ∈ active.take index, test earlier = false := by
  obtain ⟨inside, isTrue, before⟩ := List.findIdx?_eq_some_iff_getElem.mp found
  refine ⟨active[index], List.getElem?_eq_getElem inside, List.getElem_mem inside, isTrue, ?_⟩
  intro earlier among
  obtain ⟨position, isPosition, rfl⟩ := List.mem_take_iff_getElem.mp among
  simpa using before position (lt_of_lt_of_le isPosition (min_le_left _ _))

theorem mem_drop_atFrontier {active : List LoadedSyncAddress} {index : ℕ} {frontierId : String}
    {address : LoadedSyncAddress} (distinct : DistinctIds addresses)
    (isActive : activeMempoolHistoryAddresses addresses activeAddressIds = active)
    (atFrontier : active.findIdx? (fun address => address.addressId = frontierId) = some index) :
    address ∈ active.drop index ↔
      address ∈ active ∧ FromFrontier addresses activeAddressIds (some frontierId) address := by
  obtain rfl := isActive
  obtain ⟨first, found, among, isFrontier, _⟩ := exists_of_findIdx? atFrontier
  have isId : first.addressId = frontierId := of_decide_eq_true isFrontier
  have firstMem := (mem_activeMempoolHistoryAddresses.mp among).1
  rw [mem_drop_iff_le (pairwise_activeMempoolHistoryAddresses distinct) found]
  refine and_congr_right fun _ => ⟨fun le frontier frontierMem same _ => ?_, fun reached => ?_⟩
  · have isFirst : frontier = first := distinct.eq_of_id frontierMem firstMem
      ((Option.some.inj same).symm.trans isId.symm)
    exact isFirst ▸ le
  · exact reached first firstMem (congrArg some isId.symm) ⟨first, among, le_rfl⟩

theorem mem_drop_afterFrontier {active : List LoadedSyncAddress} {index : ℕ}
    {frontier address : LoadedSyncAddress} (distinct : DistinctIds addresses)
    (isActive : activeMempoolHistoryAddresses addresses activeAddressIds = active)
    (frontierMem : frontier ∈ addresses)
    (notActive : ∀ other ∈ active, frontier.addressId ≠ other.addressId)
    (afterFrontier : active.findIdx? (fun address =>
      frontier.historyKey < address.historyKey) = some index) :
    address ∈ active.drop index ↔ address ∈ active ∧
      FromFrontier addresses activeAddressIds (some frontier.addressId) address := by
  obtain rfl := isActive
  obtain ⟨first, found, among, isAfter, before⟩ := exists_of_findIdx? afterFrontier
  have lt : frontier.historyKey < first.historyKey := of_decide_eq_true isAfter
  have fromFirst := @mem_drop_iff_le _ index first address
    (pairwise_activeMempoolHistoryAddresses distinct) found
  rw [fromFirst]
  refine and_congr_right fun member => ⟨fun le other otherMem same _ => ?_, fun reached => ?_⟩
  · have isFrontier : other = frontier := distinct.eq_of_id otherMem frontierMem
      (Option.some.inj same).symm
    exact isFrontier ▸ (lt.le.trans le)
  · have le := reached frontier frontierMem rfl ⟨first, among, lt.le⟩
    have after : frontier.historyKey < address.historyKey :=
      lt_of_le_of_ne le fun same => notActive address member (addressId_eq_of_historyKey_eq same)
    rw [← List.take_append_drop index
      (activeMempoolHistoryAddresses addresses activeAddressIds)] at member
    rcases List.mem_append.mp member with earlier | dropped
    · have notAfter := before address earlier
      rw [decide_eq_false_iff_not] at notAfter
      exact absurd after notAfter
    · exact (fromFirst.mp dropped).2

theorem mem_drop_historyStart (distinct : DistinctIds addresses) {address : LoadedSyncAddress} :
    address ∈ (activeMempoolHistoryAddresses addresses activeAddressIds).drop
        (historyStart addresses activeAddressIds frontierAddressId) ↔
      address ∈ activeMempoolHistoryAddresses addresses activeAddressIds ∧
        FromFrontier addresses activeAddressIds frontierAddressId address := by
  unfold historyStart
  dsimp only
  generalize isActive : activeMempoolHistoryAddresses addresses activeAddressIds = active
  cases frontierAddressId with
  | none => exact ⟨fun among => ⟨among, fun _ _ isNone => nomatch isNone⟩, And.left⟩
  | some frontierId =>
    rw [Option.bind_some, Option.bind_some]
    cases atFrontier : active.findIdx? fun address => address.addressId = frontierId with
    | some index => exact mem_drop_atFrontier distinct isActive atFrontier
    | none =>
      have notActive : ∀ other ∈ active, frontierId ≠ other.addressId := by
        intro other among isId
        have differs := List.findIdx?_eq_none_iff.mp atFrontier other among
        exact absurd isId.symm (of_decide_eq_false differs)
      rw [Option.none_or]
      cases known : (sortedByHistoryKey addresses).find? fun address =>
        address.addressId = frontierId with
      | none =>
        refine ⟨fun among => ⟨among, fun frontier frontierMem same => ?_⟩, And.left⟩
        have differs := List.find?_eq_none.mp known frontier
          ((List.mem_insertionSort _).mpr frontierMem)
        exact absurd (Option.some.inj same).symm (by simpa using differs)
      | some frontier =>
        obtain rfl : frontier.addressId = frontierId := by simpa using List.find?_some known
        have frontierMem : frontier ∈ addresses :=
          (List.mem_insertionSort _).mp (List.mem_of_find?_eq_some known)
        rw [Option.map_some, Option.bind_some]
        cases afterFrontier : active.findIdx? fun address =>
          frontier.historyKey < address.historyKey with
        | some index =>
          exact mem_drop_afterFrontier distinct isActive frontierMem notActive afterFrontier
        | none =>
          refine ⟨fun among => ⟨among, ?_⟩, And.left⟩
          rintro other otherMem same ⟨later, laterMem, le⟩
          obtain rfl : other = frontier := distinct.eq_of_id otherMem frontierMem
            (Option.some.inj same).symm
          rw [isActive] at laterMem
          have notAfter := List.findIdx?_eq_none_iff.mp afterFrontier later laterMem
          rw [decide_eq_false_iff_not, not_lt] at notAfter
          exact absurd (addressId_eq_of_historyKey_eq (le_antisymm le notAfter))
            (notActive later laterMem)

/-- The addresses of a round that it does not restart. -/
def continuedAddresses (addresses : List LoadedSyncAddress) (activeAddressIds : List String)
    (frontierAddressId : Option String) : List LoadedSyncAddress :=
  ((activeMempoolHistoryAddresses addresses activeAddressIds).drop
    (historyStart addresses activeAddressIds frontierAddressId)).filter
    fun address => !address.restarts

theorem mem_continuedAddresses (distinct : DistinctIds addresses) {address : LoadedSyncAddress} :
    address ∈ continuedAddresses addresses activeAddressIds frontierAddressId ↔
      (address ∈ activeMempoolHistoryAddresses addresses activeAddressIds ∧
        FromFrontier addresses activeAddressIds frontierAddressId address) ∧
      address.restarts = false := by
  rw [continuedAddresses, List.mem_filter, mem_drop_historyStart distinct, Bool.not_eq_true']

theorem pairwise_continuedAddresses (distinct : DistinctIds addresses) :
    (continuedAddresses addresses activeAddressIds frontierAddressId).Pairwise fun left right =>
      left.historyKey < right.historyKey :=
  ((pairwise_activeMempoolHistoryAddresses distinct).sublist (List.drop_sublist _ _)).filter _

theorem mem_orderedActiveMempoolHistoryAddresses (distinct : DistinctIds addresses)
    {address : LoadedSyncAddress} :
    address ∈ orderedActiveMempoolHistoryAddresses addresses activeAddressIds
        frontierAddressId ↔
      address ∈ activeMempoolHistoryAddresses addresses activeAddressIds ∧
        (address.restarts = true ∨
          FromFrontier addresses activeAddressIds frontierAddressId address) := by
  unfold orderedActiveMempoolHistoryAddresses
  have continued := @mem_continuedAddresses addresses activeAddressIds frontierAddressId distinct
    address
  rw [continuedAddresses] at continued
  rw [List.mem_append, List.mem_filter, continued]
  cases address.restarts <;> simp

theorem nodup_orderedActiveMempoolHistoryAddressIds (distinct : DistinctIds addresses) :
    (orderedActiveMempoolHistoryAddressIds addresses activeAddressIds
      frontierAddressId).Nodup := by
  have ids : ((activeMempoolHistoryAddresses addresses activeAddressIds).map fun address =>
      address.addressId).Nodup := by
    have perm : (sortedByHistoryKey addresses).Perm addresses :=
      List.perm_insertionSort _ addresses
    exact ((perm.map _).nodup_iff.mpr distinct).sublist (List.filter_sublist.map _)
  unfold orderedActiveMempoolHistoryAddressIds orderedActiveMempoolHistoryAddresses
  rw [List.map_append]
  refine List.Nodup.append (ids.sublist (List.filter_sublist.map _))
    (ids.sublist ((List.filter_sublist.trans (List.drop_sublist _ _)).map _)) ?_
  rintro addressId inRestarts inContinued
  obtain ⟨restart, restartMem, rfl⟩ := List.mem_map.mp inRestarts
  obtain ⟨continued, continuedMem, same⟩ := List.mem_map.mp inContinued
  obtain ⟨restartActive, isRestart⟩ := List.mem_filter.mp restartMem
  obtain ⟨continuedDrop, isContinued⟩ := List.mem_filter.mp continuedMem
  have isSame : continued = restart :=
    List.inj_on_of_nodup_map ids (List.mem_of_mem_drop continuedDrop) restartActive same
  rw [isSame, isRestart] at isContinued
  cases isContinued

theorem pair_sublist_of_lt {active : List LoadedSyncAddress} {left right : LoadedSyncAddress}
    (sorted : active.Pairwise fun left right => left.historyKey < right.historyKey)
    (leftMem : left ∈ active) (rightMem : right ∈ active)
    (lt : left.historyKey < right.historyKey) : [left, right].Sublist active := by
  obtain ⟨before, after, rfl⟩ := List.append_of_mem leftMem
  obtain ⟨_, _, below⟩ := List.pairwise_append.mp sorted
  rcases List.mem_append.mp rightMem with earlier | fromLeft
  · exact absurd lt (lt_asymm (below right earlier left List.mem_cons_self))
  · rcases List.mem_cons.mp fromLeft with same | later
    · exact absurd lt (same ▸ lt_irrefl _)
    · exact ((List.singleton_sublist.mpr later).cons_cons left).trans
        (List.sublist_append_right before (left :: after))

theorem pair_sublist_of_mem (distinct : DistinctIds addresses) {left right : LoadedSyncAddress}
    (leftMem : left ∈ orderedActiveMempoolHistoryAddresses addresses activeAddressIds
      frontierAddressId)
    (rightMem : right ∈ orderedActiveMempoolHistoryAddresses addresses activeAddressIds
      frontierAddressId)
    (lt : left.historyKey < right.historyKey)
    (restarts : right.restarts = true → left.restarts = true) :
    [left.addressId, right.addressId].Sublist (orderedActiveMempoolHistoryAddressIds addresses
      activeAddressIds frontierAddressId) := by
  change ([left, right].map fun address => address.addressId).Sublist _
  refine List.Sublist.map _ ?_
  have restarted : ∀ {address : LoadedSyncAddress}, address.restarts = true →
      address ∈ orderedActiveMempoolHistoryAddresses addresses activeAddressIds
        frontierAddressId →
      address ∈ (activeMempoolHistoryAddresses addresses activeAddressIds).filter
        LoadedSyncAddress.restarts := fun isRestart among =>
    List.mem_filter.mpr ⟨((mem_orderedActiveMempoolHistoryAddresses distinct).mp among).1,
      isRestart⟩
  have continued : ∀ {address : LoadedSyncAddress}, address.restarts = false →
      address ∈ orderedActiveMempoolHistoryAddresses addresses activeAddressIds
        frontierAddressId →
      address ∈ continuedAddresses addresses activeAddressIds frontierAddressId := by
    intro address isContinued among
    obtain ⟨active, restart | reached⟩ :=
      (mem_orderedActiveMempoolHistoryAddresses distinct).mp among
    · rw [isContinued] at restart
      cases restart
    · exact (mem_continuedAddresses distinct).mpr ⟨⟨active, reached⟩, isContinued⟩
  change [left, right].Sublist (_ ++ continuedAddresses addresses activeAddressIds _)
  cases isLeft : left.restarts with
  | true =>
    have first := restarted isLeft leftMem
    cases isRight : right.restarts with
    | true =>
      exact (pair_sublist_of_lt ((pairwise_activeMempoolHistoryAddresses distinct).filter _)
        first (restarted isRight rightMem) lt).trans (List.sublist_append_left _ _)
    | false =>
      exact (List.singleton_sublist.mpr first).append
        (List.singleton_sublist.mpr (continued isRight rightMem))
  | false =>
    have isRight : right.restarts = false := by
      rw [isLeft] at restarts
      simpa using restarts
    exact (pair_sublist_of_lt (pairwise_continuedAddresses distinct) (continued isLeft leftMem)
      (continued isRight rightMem) lt).trans (List.sublist_append_right _ _)

end Order

/-! ## What a round does -/

/-- Each id with the one after it. -/
def withNext : List String → List (String × Option String)
  | [] => []
  | addressId :: rest => (addressId, rest.head?) :: withNext rest

theorem map_fst_withNext (ids : List String) : (withNext ids).map Prod.fst = ids := by
  induction ids with
  | nil => rfl
  | cons addressId rest ih => rw [withNext, List.map_cons, ih]

theorem next_of_prefix {ids : List String} {before rest : List (String × Option String)}
    {first second : String × Option String}
    (isPrefix : before ++ first :: second :: rest <+: withNext ids) :
    first.2 = some second.1 := by
  induction ids generalizing before with
  | nil =>
    rw [withNext, List.prefix_nil] at isPrefix
    exact absurd isPrefix (List.append_ne_nil_of_right_ne_nil _ (List.cons_ne_nil _ _))
  | cons addressId later ih =>
    cases before with
    | cons head tail => exact ih (List.cons_prefix_cons.mp isPrefix).2
    | nil =>
      obtain ⟨rfl, isLater⟩ := List.cons_prefix_cons.mp isPrefix
      cases later with
      | nil => exact absurd (List.prefix_nil.mp isLater) (List.cons_ne_nil _ _)
      | cons next last =>
        obtain ⟨rfl, _⟩ := List.cons_prefix_cons.mp isLater
        rfl

/-- The frontier after some visits. -/
def frontierAfter (frontier : Option String) (visits : List RoundVisit) : Option String :=
  visits.foldl (fun frontier visit =>
    if visit.pageCommitted then visit.nextAddressId else frontier) frontier

/-- A part of a round: the addresses it attempts, and its visits. -/
structure RoundPart (ids : List String) (s : RoundState) (exit : RoundExit) (final : RoundState)
    (attempted : List String) (visits : List RoundVisit) : Prop where
  completed : final.completedAddressIds = s.completedAddressIds ++ attempted
  inOrder : attempted <+: ids
  all : exit = .finished → attempted = ids
  visited : final.visits = s.visits ++ visits
  visitOrder : visits.map (fun visit => (visit.addressId, visit.nextAddressId)) <+: withNext ids
  frontier : final.mempoolHistoryNextAddressId =
    frontierAfter s.mempoolHistoryNextAddressId visits
  interrupted : exit = .interrupted → visits ≠ []

namespace HdMempoolHistoryBreadthRoundRequest

variable (request : HdMempoolHistoryBreadthRoundRequest) {accountId : String} {index : ℕ}
  {ids : List String} {s : RoundState}

theorem roundPart_none {exit : RoundExit} (notFinished : exit = .finished → ids = [])
    (notInterrupted : exit ≠ .interrupted) : RoundPart ids s exit s [] [] where
  completed := (List.append_nil _).symm
  inOrder := List.nil_prefix
  all finished := (notFinished finished).symm
  visited := (List.append_nil _).symm
  visitOrder := List.nil_prefix
  frontier := rfl
  interrupted interrupted := absurd interrupted notInterrupted

theorem roundPart_one {exit : RoundExit} {address : LoadedSyncAddress} {rest : List String}
    {sync : AddressSyncState} {outcome : GateOutcome} (notFinished : exit ≠ .finished) :
    RoundPart (address.addressId :: rest) s exit
      (complete address sync outcome (request.visit index address rest s))
      (if outcome.attempted then [address.addressId] else [])
      [⟨address.addressId, rest.head?, request.commits index address⟩] where
  completed := by
    unfold complete
    cases outcome.attempted
    · exact (List.append_nil _).symm
    · rfl
  inOrder := by
    split
    · exact List.prefix_append [address.addressId] rest
    · exact List.nil_prefix
  all finished := absurd finished notFinished
  visited := rfl
  visitOrder := List.prefix_append [_] (withNext rest)
  frontier := rfl
  interrupted _ := List.cons_ne_nil _ _

theorem completedAddressIds_complete {address : LoadedSyncAddress} {sync : AddressSyncState}
    {outcome : GateOutcome} (isAttempted : outcome.attempted = true) :
    (complete address sync outcome s).completedAddressIds =
      s.completedAddressIds ++ [address.addressId] :=
  if_pos isAttempted

theorem roundPart_cons {exit : RoundExit} {final : RoundState} {address : LoadedSyncAddress}
    {rest attempted : List String} {visits : List RoundVisit} {sync : AddressSyncState}
    {outcome : GateOutcome} (isAttempted : outcome.attempted = true)
    (later : RoundPart rest (complete address sync outcome (request.visit index address rest s))
      exit final attempted visits) :
    RoundPart (address.addressId :: rest) s exit final (address.addressId :: attempted)
      (⟨address.addressId, rest.head?, request.commits index address⟩ :: visits) where
  completed := by
    rw [later.completed, completedAddressIds_complete isAttempted, List.append_assoc,
      List.singleton_append]
    rfl
  inOrder := List.cons_prefix_cons.mpr ⟨rfl, later.inOrder⟩
  all finished := congrArg (address.addressId :: ·) (later.all finished)
  visited := by
    rw [later.visited, complete, visit, List.append_assoc, List.singleton_append]
  visitOrder := List.cons_prefix_cons.mpr ⟨rfl, later.visitOrder⟩
  frontier := later.frontier
  interrupted _ := List.cons_ne_nil _ _

theorem roundFrom_part (ids : List String) (index : ℕ) (s : RoundState) :
    ∃ attempted visits, RoundPart ids s (request.roundFrom accountId index ids s).1
      (request.roundFrom accountId index ids s).2 attempted visits := by
  induction ids generalizing index s with
  | nil => exact ⟨[], [], roundPart_none (fun _ => rfl) nofun⟩
  | cons addressId rest ih =>
    unfold roundFrom
    split
    · exact ⟨[], [], roundPart_none nofun nofun⟩
    split
    · exact ⟨[], [], roundPart_none nofun nofun⟩
    rename_i address found
    obtain rfl : address.addressId = addressId := by simpa using List.find?_some found
    dsimp only
    split
    · exact ⟨[], [_], (List.append_nil _).symm, List.nil_prefix, nofun, rfl,
        List.prefix_append _ _, rfl, nofun⟩
    split
    · exact ⟨_, _, request.roundPart_one nofun⟩
    split
    · exact ⟨_, _, request.roundPart_one nofun⟩
    rename_i notSkipped
    split
    · exact ⟨_, _, request.roundPart_one nofun⟩
    split
    · exact ⟨_, _, request.roundPart_one nofun⟩
    obtain ⟨attempted, visits, later⟩ := ih (index + 1) _
    exact ⟨_, _, request.roundPart_cons (by simpa using notSkipped) later⟩

end HdMempoolHistoryBreadthRoundRequest

/-- What a round does: it attempts addresses in the order of its list, each at most once, and all
of them unless it ends early. Where it is interrupted before a page of the address is committed,
the next round goes on at that address. -/
structure FairRound (request : HdMempoolHistoryBreadthRoundRequest) (bundle : AccountSyncBundle)
    (exit : RoundExit) (final : RoundState) : Prop where
  attemptedOnce : (bundle.roundIds request.knownActivity).Nodup ∧
    final.completedAddressIds <+: bundle.roundIds request.knownActivity
  attemptsAll : exit = .finished →
    final.completedAddressIds = bundle.roundIds request.knownActivity
  onePage : (final.visits.map RoundVisit.addressId) <+: bundle.roundIds request.knownActivity
  members : ∀ address,
    address ∈ orderedActiveMempoolHistoryAddresses bundle.addresses request.knownActivity
        bundle.mempoolHistoryNextAddressId ↔
      address ∈ activeMempoolHistoryAddresses bundle.addresses request.knownActivity ∧
        (address.restarts = true ∨ FromFrontier bundle.addresses request.knownActivity
          bundle.mempoolHistoryNextAddressId address)
  restartsFirst : ∃ restarted continued : List LoadedSyncAddress,
    bundle.roundIds request.knownActivity =
      restarted.map (fun address => address.addressId) ++
        continued.map (fun address => address.addressId) ∧
    (∀ address ∈ restarted, address.restarts = true) ∧
    (∀ address ∈ continued, address.restarts = false) ∧
    (restarted.Pairwise fun left right => left.historyKey < right.historyKey) ∧
    (continued.Pairwise fun left right => left.historyKey < right.historyKey)
  interruptedAt : exit = .interrupted → ∃ done left visit,
    final.visits = done ++ (left ++ [visit]) ∧ (visit.pageCommitted = false →
      (∀ other ∈ left, other.pageCommitted = false) ∧
      final.mempoolHistoryNextAddressId = if done = [] then bundle.mempoolHistoryNextAddressId
        else (left ++ [visit]).head?.map RoundVisit.addressId)
  resumesAt : ∀ (next : List LoadedSyncAddress) (activeAddressIds : List String)
      (interrupted later : LoadedSyncAddress), DistinctIds next →
    interrupted ∈ activeMempoolHistoryAddresses next activeAddressIds →
    (interrupted.restarts = true ∨
      FromFrontier next activeAddressIds final.mempoolHistoryNextAddressId interrupted) →
    later ∈ orderedActiveMempoolHistoryAddresses next activeAddressIds
      final.mempoolHistoryNextAddressId →
    interrupted.historyKey < later.historyKey →
    (later.restarts = true → interrupted.restarts = true) →
    [interrupted.addressId, later.addressId].Sublist (orderedActiveMempoolHistoryAddressIds next
      activeAddressIds final.mempoolHistoryNextAddressId)

theorem frontierAfter_of_uncommitted {frontier : Option String} {visits : List RoundVisit}
    (uncommitted : ∀ visit ∈ visits, visit.pageCommitted = false) :
    frontierAfter frontier visits = frontier := by
  induction visits with
  | nil => rfl
  | cons visit rest ih =>
    obtain ⟨isFirst, isRest⟩ := List.forall_mem_cons.mp uncommitted
    rw [frontierAfter, List.foldl_cons, isFirst]
    exact ih isRest

theorem exists_lastCommitted (visits : List RoundVisit) :
    ∃ done left, visits = done ++ left ∧ (∀ visit ∈ left, visit.pageCommitted = false) ∧
      (done = [] ∨ ∃ before last, done = before ++ [last] ∧ last.pageCommitted = true) := by
  induction visits with
  | nil => exact ⟨[], [], rfl, List.forall_mem_nil _, .inl rfl⟩
  | cons visit rest ih =>
    obtain ⟨done, left, rfl, uncommitted, rfl | ⟨before, last, rfl, committed⟩⟩ := ih
    · cases isVisit : visit.pageCommitted with
      | true => exact ⟨[visit], left, rfl, uncommitted, .inr ⟨[], visit, rfl, isVisit⟩⟩
      | false =>
        exact ⟨[], visit :: left, rfl, List.forall_mem_cons.mpr ⟨isVisit, uncommitted⟩,
          .inl rfl⟩
    · exact ⟨visit :: (before ++ [last]), left, rfl, uncommitted,
        .inr ⟨visit :: before, last, rfl, committed⟩⟩

theorem RoundPart.interruptedAt {ids attempted : List String} {s final : RoundState}
    {exit : RoundExit} {visits : List RoundVisit}
    (part : RoundPart ids s exit final attempted visits) (interrupted : exit = .interrupted) :
    ∃ done left visit, visits = done ++ (left ++ [visit]) ∧ (visit.pageCommitted = false →
      (∀ other ∈ left, other.pageCommitted = false) ∧
      final.mempoolHistoryNextAddressId = if done = [] then s.mempoolHistoryNextAddressId
        else (left ++ [visit]).head?.map RoundVisit.addressId) := by
  obtain ⟨earlier, visit, rfl⟩ := List.eq_nil_or_concat visits
    |>.resolve_left (part.interrupted interrupted)
  rw [List.concat_eq_append] at part ⊢
  obtain ⟨done, left, rfl, uncommitted, isDone⟩ := exists_lastCommitted earlier
  refine ⟨done, left, visit, List.append_assoc _ _ _, fun isVisit => ⟨uncommitted, ?_⟩⟩
  have allLeft : ∀ other ∈ left ++ [visit], other.pageCommitted = false :=
    List.forall_mem_append.mpr ⟨uncommitted, List.forall_mem_singleton.mpr isVisit⟩
  have order := part.visitOrder
  rw [part.frontier]
  rw [List.append_assoc] at order ⊢
  obtain ⟨first, more, isOpen⟩ : ∃ first more, left ++ [visit] = first :: more :=
    List.exists_cons_of_ne_nil (List.append_ne_nil_of_right_ne_nil _ (List.cons_ne_nil _ _))
  rw [isOpen] at allLeft order ⊢
  rcases isDone with rfl | ⟨before, last, rfl, committed⟩
  · exact (frontierAfter_of_uncommitted allLeft).trans (if_pos rfl).symm
  · rw [List.append_assoc, List.singleton_append, List.map_append] at order
    have next : last.nextAddressId = some first.addressId := next_of_prefix order
    rw [if_neg (by simp), frontierAfter, List.append_assoc, List.foldl_append,
      List.singleton_append, List.foldl_cons, if_pos committed, next]
    exact frontierAfter_of_uncommitted allLeft

/-- A round over a bundle with distinct addresses is fair. -/
theorem fairRound (request : HdMempoolHistoryBreadthRoundRequest) (bundle : AccountSyncBundle)
    (distinct : DistinctIds bundle.addresses) :
    FairRound request bundle (runHdMempoolHistoryBreadthRound request bundle).1
      (runHdMempoolHistoryBreadthRound request bundle).2 := by
  obtain ⟨attempted, visits, part⟩ : ∃ attempted visits,
      RoundPart (bundle.roundIds request.knownActivity) (.initial bundle)
        (runHdMempoolHistoryBreadthRound request bundle).1
        (runHdMempoolHistoryBreadthRound request bundle).2 attempted visits := by
    unfold runHdMempoolHistoryBreadthRound
    split
    · exact ⟨[], [], HdMempoolHistoryBreadthRoundRequest.roundPart_none nofun nofun⟩
    · exact request.roundFrom_part _ _ _
  have completed : (runHdMempoolHistoryBreadthRound request bundle).2.completedAddressIds =
      attempted := part.completed
  have visited : (runHdMempoolHistoryBreadthRound request bundle).2.visits = visits := part.visited
  have sorted := @pairwise_activeMempoolHistoryAddresses _ request.knownActivity distinct
  refine ⟨⟨nodup_orderedActiveMempoolHistoryAddressIds distinct, completed ▸ part.inOrder⟩,
    fun finished => completed.trans (part.all finished), ?_,
    fun address => mem_orderedActiveMempoolHistoryAddresses distinct, ?_, ?_, ?_⟩
  · have order := part.visitOrder.map Prod.fst
    rw [map_fst_withNext, List.map_map] at order
    exact visited ▸ order
  · refine ⟨(activeMempoolHistoryAddresses bundle.addresses request.knownActivity).filter
      LoadedSyncAddress.restarts, continuedAddresses bundle.addresses request.knownActivity
        bundle.mempoolHistoryNextAddressId, List.map_append, ?_, ?_, sorted.filter _,
      pairwise_continuedAddresses distinct⟩
    · exact fun address among => (List.mem_filter.mp among).2
    · exact fun address among => ((mem_continuedAddresses distinct).mp among).2
  · intro interrupted
    rw [visited]
    exact part.interruptedAt interrupted
  · intro next activeAddressIds interrupted later nextDistinct active reached laterMem lt restarts
    exact pair_sublist_of_mem nextDistinct
      ((mem_orderedActiveMempoolHistoryAddresses nextDistinct).mpr ⟨active, reached⟩) laterMem lt
      restarts

/-! ## A skip, and a frontier in the middle -/

/-- An active address that was last observed at a height. -/
def historyAddress (addressId : String) (derivationIndex tipHeight : ℕ) : LoadedSyncAddress where
  addressId := addressId
  assetId := .bitcoin
  accountId := some "account-1"
  addressScheme := some .nativeSegwit
  derivationChange := some 0
  derivationIndex := some derivationIndex
  sync := { AddressSyncState.fresh with
    lastCompletedAt := some 0
    lastResult := some .success
    lastTipHeight := some tipHeight
    backfill := { AddressSyncState.fresh.backfill with hasApiConfirmedBalance := true } }
  etherscanTransactionTipHeight := none
  consecutiveFailureCount := 0

/-- The gate an hour later, at height 101. -/
def answersAt101 : GateAnswers where
  storedCount := .ok 0
  now := 3600 * nanosecondsPerSecond
  rateLimited := false
  currentTip := .ok 101
  hasPendingTxs := false
  started := .ok ()
  execution := .ok {
    observedActivity := true
    newTxCount := 1
    updatedTxCount := 0
    apiConfirmedBalance := none
    completedAt := 3601 * nanosecondsPerSecond
    tipHeight := 101 }
  backfill := AddressSyncState.fresh.backfill
  coverageInvalidation := .ok ()
  failedAt := 0

def requestAt101 : HdMempoolHistoryBreadthRoundRequest where
  source := .schedule
  policy := .normal 1000
  knownActivity := ["a", "b", "c"]
  answers := fun _ => answersAt101
  pageCommitted := fun _ => true
  storedCountAfter := fun _ => .ok 1

/-- Three active addresses; the middle one was observed at the given height. -/
def bundleOfThree (middleTip : ℕ) (frontier : Option String) : AccountSyncBundle where
  accountId := "account-1"
  assetId := .bitcoin
  externalAddresses :=
    [historyAddress "a" 0 100, historyAddress "b" 1 middleTip, historyAddress "c" 2 100]
  internalAddresses := []
  mempoolHistoryNextAddressId := frontier

/-- A round over the three addresses. -/
theorem fairRound_bundleOfThree :
    DistinctIds (bundleOfThree 100 none).addresses ∧
      FairRound requestAt101 (bundleOfThree 100 none)
        (runHdMempoolHistoryBreadthRound requestAt101 (bundleOfThree 100 none)).1
        (runHdMempoolHistoryBreadthRound requestAt101 (bundleOfThree 100 none)).2 :=
  ⟨by unfold DistinctIds; decide, fairRound requestAt101 (bundleOfThree 100 none)
    (by unfold DistinctIds; decide)⟩

/-- The address after a skipped one is not attempted, nor are those before the frontier, although
neither round meets a failure, the budget or the cap. -/
theorem not_attemptsAll_bundleOfThree :
    let skipping := runHdMempoolHistoryBreadthRound requestAt101 (bundleOfThree 101 none)
    let resumed := runHdMempoolHistoryBreadthRound requestAt101 (bundleOfThree 100 (some "c"))
    (skipping.1 = .skipped ∧ skipping.2.completedAddressIds = ["a"]) ∧
      resumed.1 = .finished ∧ resumed.2.completedAddressIds = ["c"] := by
  decide +kernel

end Bitgarth.Sync
