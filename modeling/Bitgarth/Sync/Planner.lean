import Mathlib.Order.Basic
import Bitgarth.Accounts.AccountModes
import Bitgarth.Sync.SyncAttempts

/-! # Planning the next iteration of a sync

The planner takes the best candidate among the addresses, or says why there is none. An address
that failed too often is blocked. `recovers_iff_and_agrees_iff` says when a blocked address is a
candidate again, and when a plan that stops agrees with the search for unfinished work.
-/

namespace Bitgarth.Sync

open Accounts Fallible

def addressFailureThreshold : ℕ := 2

/-- An address as `get_non_hd_sync_addresses` and `get_hd_account_sync_bundles` load it. -/
structure LoadedSyncAddress extends SyncAddress String where
  sync : AddressSyncState
  etherscanTransactionTipHeight : Option ℕ
  consecutiveFailureCount : ℕ
deriving DecidableEq, Repr

/-- An HD account with the addresses of its chains and its frontier. -/
structure AccountSyncBundle where
  accountId : String
  assetId : SyncedAssetId
  externalAddresses : List LoadedSyncAddress
  internalAddresses : List LoadedSyncAddress
  mempoolHistoryNextAddressId : Option String
deriving DecidableEq, Repr

def AccountSyncBundle.addresses (bundle : AccountSyncBundle) : List LoadedSyncAddress :=
  bundle.externalAddresses ++ bundle.internalAddresses

/-- The part of `SyncRunPreload` that planning reads. -/
structure SyncRunPreload where
  historicalBackfillEnabled : Bool
  historicalBackfillTransactionsPerAccount : ℕ
  knownActivityAddressIds : List String
  pendingAddressIds : List String
  bitcoinHistoryRepairAccountIds : List String
  nativeAccountModes : Option (List (String × NativeAccountMode))
deriving DecidableEq, Repr

structure SyncPlannerInput where
  nowUtc : ℤ
  source : TriggerSource
  transactionFetchPolicy : TransactionFetchPolicy
  nativeAccountModes : Option (List (String × NativeAccountMode))
  accountTransactionCounts : List (String × ℕ)
  pendingAddressIds : List String
  knownActivityAddressIds : List String
  bitcoinHistoryRepairAccountIds : List String
  runExcludedAddressIds : List String
deriving DecidableEq, Repr

/-- The best tier comes first. -/
inductive SyncPlannerPriorityTier where
  | activeUnfinishedBackfill
  | pendingTransactionRefresh
  | neverAttemptedFirstSync
  | retryableFailedAttempt
  | knownActivityRefresh
  | balanceRefresh
  | coldRefresh
  | hdDerivation
deriving DecidableEq, Repr, Ord

inductive SyncIterationStopReason where
  | noEligibleAction
  | onlyBlockedActions
  | balanceRefreshesFresh
deriving DecidableEq, Repr

inductive PlannedSyncIteration where
  | execute
  | deriveHdAddresses
  | stop (reason : SyncIterationStopReason)
deriving DecidableEq, Repr

structure PlannerCandidate where
  priority : SyncPlannerPriorityTier
  lastAttemptedAt : Option ℤ
  stableTieBreaker : String
  isHdDerivation : Bool
deriving DecidableEq, Repr

inductive AddressPlanState where
  | candidate
  | blocked
  | freshBalance
  | ineligible
deriving DecidableEq, Repr

/-! ## Inputs -/

/-- `TransactionFetchPolicy::normal`. -/
def TransactionFetchPolicy.forPlan (enabled : Bool) (cap : ℕ) : TransactionFetchPolicy :=
  if enabled then .normal cap else .currentOnly

def normalTransactionFetchPolicyForPreload (preload : SyncRunPreload) : TransactionFetchPolicy :=
  .forPlan preload.historicalBackfillEnabled preload.historicalBackfillTransactionsPerAccount

def transactionFetchPolicyForPreload (preload : SyncRunPreload) : TransactionFetchPolicy :=
  if preload.bitcoinHistoryRepairAccountIds ≠ [] then .legacyRepair
  else normalTransactionFetchPolicyForPreload preload

def plannerInputForPreload (preload : SyncRunPreload) (nowUtc : ℤ) (source : TriggerSource)
    (accountTransactionCounts : List (String × ℕ)) (runExcludedAddressIds : List String) :
    SyncPlannerInput where
  nowUtc := nowUtc
  source := source
  transactionFetchPolicy := transactionFetchPolicyForPreload preload
  nativeAccountModes := preload.nativeAccountModes
  accountTransactionCounts := accountTransactionCounts
  pendingAddressIds := preload.pendingAddressIds
  knownActivityAddressIds := preload.knownActivityAddressIds
  bitcoinHistoryRepairAccountIds := preload.bitcoinHistoryRepairAccountIds
  runExcludedAddressIds := runExcludedAddressIds

/-- `load_account_transaction_count_for_fetch_policy` of an account. -/
def accountTransactionCountForPolicy (policy : TransactionFetchPolicy) (storedCount : String → ℕ)
    (accountId : String) : ℕ :=
  match policy with
  | .normal _ => storedCount accountId
  | .currentOnly | .legacyRepair => 0

def loadAccountTransactionCountsForWorkset (nonHdAddresses : List LoadedSyncAddress)
    (hdBundles : List AccountSyncBundle) (policy : TransactionFetchPolicy)
    (storedCount : String → ℕ) : List (String × ℕ) :=
  let accountIds :=
    nonHdAddresses.filterMap (fun address => address.accountId) ++
      hdBundles.map AccountSyncBundle.accountId
  accountIds.map fun accountId =>
    (accountId, accountTransactionCountForPolicy policy storedCount accountId)

/-- The input that `run_sync_cycle` plans with. -/
def plannerInputForCycle (preload : SyncRunPreload) (nowUtc : ℤ) (source : TriggerSource)
    (storedCount : String → ℕ) (nonHdAddresses : List LoadedSyncAddress)
    (hdBundles : List AccountSyncBundle) (runExcludedAddressIds : List String) :
    SyncPlannerInput :=
  plannerInputForPreload preload nowUtc source
    (loadAccountTransactionCountsForWorkset nonHdAddresses hdBundles
      (transactionFetchPolicyForPreload preload) storedCount) runExcludedAddressIds

/-! ## Planning -/

/-- Whether the account of an address is under history repair. -/
def repairOwned (repairAccountIds : List String) (address : LoadedSyncAddress) : Bool :=
  address.accountId.any fun accountId => repairAccountIds.contains accountId

/-- Whether the modes give an account its transactions. -/
def syncsTransactions (modes : List (String × NativeAccountMode)) (accountId : Option String) :
    Bool :=
  accountId.any fun accountId => modes.lookup accountId = some .transactions

def shouldPlanBalanceRefresh (address : LoadedSyncAddress) (input : SyncPlannerInput) : Bool :=
  if repairOwned input.bitcoinHistoryRepairAccountIds address = false ∧
      (input.nativeAccountModes.any fun modes => !syncsTransactions modes address.accountId) then
    true
  else if input.transactionFetchPolicy = .currentOnly then
    true
  else
    match address.accountId with
    | none => false
    | some accountId => (input.accountTransactionCounts.lookup accountId).any fun count =>
      !input.transactionFetchPolicy.permitsTransactionPage count

def priorityTierForAddress (address : LoadedSyncAddress) (input : SyncPlannerInput) :
    SyncPlannerPriorityTier :=
  let historyMode := address.accountId.isSome &&
    (repairOwned input.bitcoinHistoryRepairAccountIds address ||
      input.nativeAccountModes.all fun modes => syncsTransactions modes address.accountId)
  if historyMode = true ∧ hasUnfinishedBackfill address.assetId address.sync.backfill = true then
    .activeUnfinishedBackfill
  else if historyMode = true ∧ address.addressId ∈ input.pendingAddressIds then
    .pendingTransactionRefresh
  else if address.sync.lastResult = some .failure then
    .retryableFailedAttempt
  else if shouldPlanBalanceRefresh address input then
    .balanceRefresh
  else if isFirstSync address.sync.lastTipHeight then
    .neverAttemptedFirstSync
  else if address.addressId ∈ input.knownActivityAddressIds then
    .knownActivityRefresh
  else
    .coldRefresh

/-- A balance the planner need not refresh yet. -/
def balanceIsFresh (address : LoadedSyncAddress) (input : SyncPlannerInput) : Bool :=
  priorityTierForAddress address input = .balanceRefresh &&
    isSuccessfulBalanceRefreshFresh input.source address.sync.lastResult
      address.sync.lastCompletedAt input.nowUtc

def addressCandidate (address : LoadedSyncAddress) (input : SyncPlannerInput) :
    Option PlannerCandidate × AddressPlanState :=
  if address.accountId = none then
    (none, .ineligible)
  else if address.addressId ∈ input.runExcludedAddressIds ∨
      (repairOwned input.bitcoinHistoryRepairAccountIds address = false ∧
        addressFailureThreshold ≤ address.consecutiveFailureCount) then
    (none, .blocked)
  else if balanceIsFresh address input then
    (none, .freshBalance)
  else
    (some {
      priority := priorityTierForAddress address input
      lastAttemptedAt := address.sync.lastCompletedAt
      stableTieBreaker := address.addressId
      isHdDerivation := false }, .candidate)

def addressIsBlockedForPlanner (address : LoadedSyncAddress) (input : SyncPlannerInput) : Bool :=
  (addressCandidate address input).2 = .blocked

/-- What the planner has seen. -/
structure PlannerTally where
  candidates : List PlannerCandidate
  blockedCount : ℕ
  freshBalanceCount : ℕ
  ineligibleCount : ℕ
deriving DecidableEq, Repr

def PlannerTally.empty : PlannerTally := ⟨[], 0, 0, 0⟩

def collectAddressCandidate (input : SyncPlannerInput) (tally : PlannerTally)
    (address : LoadedSyncAddress) : PlannerTally :=
  match addressCandidate address input with
  | (candidate, .candidate) =>
    { tally with candidates := tally.candidates ++ candidate.toList }
  | (_, .blocked) => { tally with blockedCount := tally.blockedCount + 1 }
  | (_, .freshBalance) => { tally with freshBalanceCount := tally.freshBalanceCount + 1 }
  | (_, .ineligible) => { tally with ineligibleCount := tally.ineligibleCount + 1 }

def hdDerivationCandidate (bundle : AccountSyncBundle) (change : String) : PlannerCandidate where
  priority := .hdDerivation
  lastAttemptedAt := none
  stableTieBreaker := bundle.accountId ++ ":" ++ change
  isHdDerivation := true

def hdDerivationCandidates (bundle : AccountSyncBundle) : List PlannerCandidate :=
  (if bundle.externalAddresses = [] then [hdDerivationCandidate bundle "0"] else []) ++
    (if bundle.internalAddresses = [] then [hdDerivationCandidate bundle "1"] else [])

def collectBundleCandidates (input : SyncPlannerInput) (tally : PlannerTally)
    (bundle : AccountSyncBundle) : PlannerTally :=
  let collected := bundle.addresses.foldl (collectAddressCandidate input) tally
  { collected with candidates := collected.candidates ++ hdDerivationCandidates bundle }

/-- Whether a candidate comes strictly before another one. -/
def PlannerCandidate.before (left right : PlannerCandidate) : Bool :=
  ((compare left.priority right.priority).then
    ((compare left.lastAttemptedAt right.lastAttemptedAt).then
      (compare left.stableTieBreaker right.stableTieBreaker))) = .lt

/-- The first of the least candidates. -/
def firstCandidate : List PlannerCandidate → Option PlannerCandidate
  | [] => none
  | candidate :: rest => some (rest.foldl
      (fun best next => if next.before best then next else best) candidate)

def tallyCandidates (addresses : List LoadedSyncAddress) (hdBundles : List AccountSyncBundle)
    (input : SyncPlannerInput) : PlannerTally :=
  hdBundles.foldl (collectBundleCandidates input)
    (addresses.foldl (collectAddressCandidate input) .empty)

def planNextIteration (addresses : List LoadedSyncAddress) (hdBundles : List AccountSyncBundle)
    (input : SyncPlannerInput) : PlannedSyncIteration :=
  let tally := tallyCandidates addresses hdBundles input
  match firstCandidate tally.candidates with
  | some candidate => if candidate.isHdDerivation then .deriveHdAddresses else .execute
  | none =>
    if 0 < tally.blockedCount then .stop .onlyBlockedActions
    else if 0 < tally.freshBalanceCount then .stop .balanceRefreshesFresh
    else .stop .noEligibleAction

/-! ## Unfinished work -/

def hasUnfinishedTransactionWork (address : LoadedSyncAddress) : Bool :=
  hasUnfinishedBackfill address.assetId address.sync.backfill ||
    (defaultApiProviderForAsset address.assetId = .mempoolSpace &&
      mempoolHistoryRequiresFirstPageRestart address.sync.backfill) ||
    (defaultApiProviderForAsset address.assetId = .etherscan &&
      address.sync.lastTipHeight.isSome &&
      address.etherscanTransactionTipHeight ≠ address.sync.lastTipHeight)

/-- `load_transaction_page_permission`, with the policy that the search takes for the account. -/
def loadTransactionPagePermission (preload : SyncRunPreload) (storedCount : String → ℕ)
    (address : LoadedSyncAddress) : Bool :=
  let policy :=
    if preload.nativeAccountModes.any fun modes => !syncsTransactions modes address.accountId then
      .currentOnly
    else
      normalTransactionFetchPolicyForPreload preload
  hasUnfinishedTransactionWork address && address.accountId.any fun accountId =>
    preload.bitcoinHistoryRepairAccountIds.contains accountId ||
      policy.permitsTransactionPage (storedCount accountId)

def addressHasUnfinishedWork (address : LoadedSyncAddress)
    (bitcoinHistoryRepairAccountIds : List String) (transactionPagePermitted : Bool) : Bool :=
  (address.sync.lastResult = some .failure &&
    (repairOwned bitcoinHistoryRepairAccountIds address ||
      address.consecutiveFailureCount < addressFailureThreshold)) ||
    isFirstSync address.sync.lastTipHeight ||
    (transactionPagePermitted && hasUnfinishedTransactionWork address)

/-! ## What a plan that stops says -/

section Plans

variable {input : SyncPlannerInput} {address : LoadedSyncAddress}
  {addresses : List LoadedSyncAddress} {hdBundles : List AccountSyncBundle}
  {tally : PlannerTally}

/-- The addresses of a plan, those of accounts with keys last. -/
def plannedAddresses (addresses : List LoadedSyncAddress) (hdBundles : List AccountSyncBundle) :
    List LoadedSyncAddress :=
  addresses ++ hdBundles.flatMap AccountSyncBundle.addresses

theorem firstCandidate_eq_none {candidates : List PlannerCandidate} :
    firstCandidate candidates = none ↔ candidates = [] := by
  cases candidates with
  | nil => simp [firstCandidate]
  | cons candidate rest => simp [firstCandidate]

theorem candidates_collectAddressCandidate_eq_nil
    (empty : (collectAddressCandidate input tally address).candidates = []) :
    tally.candidates = [] ∧ (addressCandidate address input).2 ≠ .candidate := by
  unfold collectAddressCandidate addressCandidate at empty
  unfold addressCandidate
  split at empty
  · rename_i heq
    split at heq
    · cases heq
    · split at heq
      · cases heq
      · split at heq
        · cases heq
        · cases heq
          simp at empty
  all_goals
    rename_i heq
    refine ⟨empty, ?_⟩
    rw [heq]
    exact nofun

theorem candidates_foldl_collectAddressCandidate_eq_nil
    (empty : (addresses.foldl (collectAddressCandidate input) tally).candidates = []) :
    tally.candidates = [] ∧
      ∀ address ∈ addresses, (addressCandidate address input).2 ≠ .candidate := by
  induction addresses generalizing tally with
  | nil => exact ⟨empty, fun _ among => absurd among List.not_mem_nil⟩
  | cons first rest ih =>
    rw [List.foldl_cons] at empty
    obtain ⟨before, isRest⟩ := ih empty
    obtain ⟨start, isFirst⟩ := candidates_collectAddressCandidate_eq_nil before
    exact ⟨start, List.forall_mem_cons.mpr ⟨isFirst, isRest⟩⟩

theorem candidates_foldl_collectBundleCandidates_eq_nil
    (empty : (hdBundles.foldl (collectBundleCandidates input) tally).candidates = []) :
    tally.candidates = [] ∧ ∀ address ∈ hdBundles.flatMap AccountSyncBundle.addresses,
      (addressCandidate address input).2 ≠ .candidate := by
  induction hdBundles generalizing tally with
  | nil => exact ⟨empty, fun _ among => absurd among List.not_mem_nil⟩
  | cons bundle rest ih =>
    rw [List.foldl_cons] at empty
    obtain ⟨before, isRest⟩ := ih empty
    obtain ⟨collected, _⟩ := List.append_eq_nil_iff.mp before
    obtain ⟨start, isBundle⟩ := candidates_foldl_collectAddressCandidate_eq_nil collected
    refine ⟨start, fun address among => ?_⟩
    rcases List.mem_append.mp (List.flatMap_cons ▸ among) with own | later
    · exact isBundle address own
    · exact isRest address later

theorem not_candidate_of_stop {reason : SyncIterationStopReason}
    (stopped : planNextIteration addresses hdBundles input = .stop reason)
    (planned : address ∈ plannedAddresses addresses hdBundles) :
    (addressCandidate address input).2 ≠ .candidate := by
  have empty : (tallyCandidates addresses hdBundles input).candidates = [] := by
    rw [← firstCandidate_eq_none]
    unfold planNextIteration at stopped
    dsimp only at stopped
    split at stopped
    · split at stopped <;> cases stopped
    · assumption
  obtain ⟨start, ofBundles⟩ := candidates_foldl_collectBundleCandidates_eq_nil empty
  have ofAddresses := (candidates_foldl_collectAddressCandidate_eq_nil start).2
  rcases List.mem_append.mp planned with own | ofBundle
  · exact ofAddresses address own
  · exact ofBundles address ofBundle

theorem addressCandidate_ne_candidate (included : address.addressId ∉ input.runExcludedAddressIds) :
    (addressCandidate address input).2 ≠ .candidate ↔
      address.accountId = none ∨
      (address.accountId ≠ none ∧
        repairOwned input.bitcoinHistoryRepairAccountIds address = false ∧
        addressFailureThreshold ≤ address.consecutiveFailureCount) ∨
      balanceIsFresh address input = true ∧ address.accountId ≠ none := by
  unfold addressCandidate
  split
  · simp_all
  · split
    · simp_all
    · split <;> simp_all

theorem shouldPlanBalanceRefresh_of_tier
    (tier : priorityTierForAddress address input = .balanceRefresh) :
    shouldPlanBalanceRefresh address input = true ∧ address.sync.lastResult ≠ some .failure := by
  unfold priorityTierForAddress at tier
  dsimp only at tier
  split at tier
  · cases tier
  split at tier
  · cases tier
  split at tier
  · cases tier
  rename_i notFailed
  split at tier
  · rename_i planned
    exact ⟨planned, notFailed⟩
  · split at tier
    · cases tier
    · split at tier <;> cases tier

theorem shouldPlanBalanceRefresh_cases (planned : shouldPlanBalanceRefresh address input = true) :
    (repairOwned input.bitcoinHistoryRepairAccountIds address = false ∧
      (input.nativeAccountModes.any fun modes =>
        !syncsTransactions modes address.accountId) = true) ∨
    input.transactionFetchPolicy = .currentOnly ∨
    ∃ accountId count, address.accountId = some accountId ∧
      input.accountTransactionCounts.lookup accountId = some count ∧
      input.transactionFetchPolicy.permitsTransactionPage count = false := by
  unfold shouldPlanBalanceRefresh at planned
  split at planned
  · exact .inl ‹_›
  split at planned
  · exact .inr (.inl ‹_›)
  split at planned
  · cases planned
  · rename_i accountId account
    obtain ⟨count, found, refused⟩ := (Option.any_eq_true _ _).mp planned
    exact .inr (.inr ⟨accountId, count, account, found, by simpa using refused⟩)

end Plans

/-! ## Plans and unfinished work -/

section Agreement

variable {preload : SyncRunPreload} {nowUtc : ℤ} {source : TriggerSource}
  {storedCount : String → ℕ} {addresses : List LoadedSyncAddress}
  {hdBundles : List AccountSyncBundle} {excluded : List String} {address : LoadedSyncAddress}

theorem lookup_map_pair {β : Type} (f : String → β) {keys : List String} {key : String}
    {value : β} (found : (keys.map fun key => (key, f key)).lookup key = some value) :
    value = f key := by
  induction keys with
  | nil => cases found
  | cons first rest ih =>
    rw [List.map_cons, List.lookup_cons] at found
    cases same : key == first with
    | true =>
      rw [same] at found
      rw [eq_of_beq same]
      exact (Option.some.inj found).symm
    | false =>
      rw [same] at found
      exact ih found

theorem normalTransactionFetchPolicyForPreload_of_ne
    (notRepair : transactionFetchPolicyForPreload preload ≠ .legacyRepair) :
    preload.bitcoinHistoryRepairAccountIds = [] ∧
      normalTransactionFetchPolicyForPreload preload =
        transactionFetchPolicyForPreload preload := by
  unfold transactionFetchPolicyForPreload at notRepair ⊢
  split at notRepair <;> rename_i noRepair
  · exact absurd rfl notRepair
  · exact ⟨not_not.mp noRepair, (if_neg noRepair).symm⟩

theorem loadTransactionPagePermission_eq_false
    (planned : shouldPlanBalanceRefresh address (plannerInputForCycle preload nowUtc source
      storedCount addresses hdBundles excluded) = true) :
    loadTransactionPagePermission preload storedCount address = false := by
  unfold loadTransactionPagePermission
  rw [Bool.and_eq_false_iff]
  refine .inr ?_
  cases account : address.accountId with
  | none => rfl
  | some accountId =>
    rw [Option.any_some, Bool.or_eq_false_iff]
    obtain ⟨notRepaired, balanceOnly⟩ | currentOnly | ⟨_, count, same, found, refused⟩ :=
      shouldPlanBalanceRefresh_cases planned
    · have withoutTransactions : (preload.nativeAccountModes.any fun modes =>
          !syncsTransactions modes (some accountId)) = true := account ▸ balanceOnly
      rw [if_pos withoutTransactions]
      refine ⟨?_, rfl⟩
      rw [repairOwned, account] at notRepaired
      exact notRepaired
    · have isCurrentOnly : transactionFetchPolicyForPreload preload = .currentOnly := currentOnly
      have notRepair : transactionFetchPolicyForPreload preload ≠ .legacyRepair := by
        rw [isCurrentOnly]
        exact nofun
      obtain ⟨noRepair, isNormal⟩ := normalTransactionFetchPolicyForPreload_of_ne notRepair
      rw [isNormal, isCurrentOnly, ite_self, noRepair]
      exact ⟨rfl, rfl⟩
    · obtain rfl := Option.some.inj (account.symm.trans same)
      obtain rfl := lookup_map_pair _ found
      change (transactionFetchPolicyForPreload preload).permitsTransactionPage
        (accountTransactionCountForPolicy (transactionFetchPolicyForPreload preload)
          storedCount accountId) = false at refused
      have notRepair : transactionFetchPolicyForPreload preload ≠ .legacyRepair := by
        intro repair
        rw [repair] at refused
        cases refused
      obtain ⟨noRepair, isNormal⟩ := normalTransactionFetchPolicyForPreload_of_ne notRepair
      refine ⟨by rw [noRepair]; rfl, ?_⟩
      split
      · rfl
      · rw [isNormal]
        cases policy : transactionFetchPolicyForPreload preload with
        | currentOnly => rfl
        | legacyRepair =>
          rw [policy] at refused
          cases refused
        | normal cap =>
          rw [policy] at refused
          exact refused

/-- An address with unfinished work that no plan takes up. -/
def LeftBehind (preload : SyncRunPreload) (storedCount : String → ℕ)
    (address : LoadedSyncAddress) : Prop :=
  isFirstSync address.sync.lastTipHeight = true ∨
    (address.accountId = none ∧ address.sync.lastResult = some .failure ∧
      address.consecutiveFailureCount < addressFailureThreshold) ∨
    (address.accountId ≠ none ∧
      repairOwned preload.bitcoinHistoryRepairAccountIds address = false ∧
      addressFailureThreshold ≤ address.consecutiveFailureCount ∧
      loadTransactionPagePermission preload storedCount address = true)

theorem addressHasUnfinishedWork_iff_leftBehind {reason : SyncIterationStopReason}
    (stopped : planNextIteration addresses hdBundles (plannerInputForCycle preload nowUtc source
      storedCount addresses hdBundles excluded) = .stop reason)
    (planned : address ∈ plannedAddresses addresses hdBundles)
    (included : address.addressId ∉ excluded) :
    addressHasUnfinishedWork address preload.bitcoinHistoryRepairAccountIds
        (loadTransactionPagePermission preload storedCount address) = true ↔
      LeftBehind preload storedCount address := by
  have unfinished : (loadTransactionPagePermission preload storedCount address &&
      hasUnfinishedTransactionWork address) =
        loadTransactionPagePermission preload storedCount address := by
    unfold loadTransactionPagePermission
    rw [Bool.and_right_comm, Bool.and_self]
  unfold addressHasUnfinishedWork LeftBehind
  rw [unfinished]
  obtain withoutAccount | ⟨account, notRepaired, failed⟩ | ⟨fresh, account⟩ :=
    (addressCandidate_ne_candidate included).mp (not_candidate_of_stop stopped planned)
  · have notRepaired : repairOwned preload.bitcoinHistoryRepairAccountIds address = false := by
      rw [repairOwned, withoutAccount, Option.any_none]
    have refused : loadTransactionPagePermission preload storedCount address = false := by
      simp [loadTransactionPagePermission, withoutAccount]
    simp only [notRepaired, refused, withoutAccount, Bool.false_or, Bool.or_false, Bool.or_eq_true,
      Bool.and_eq_true, decide_eq_true_eq, ne_eq, not_true_eq_false, false_and, or_false,
      true_and]
    exact Or.comm
  · have below : ¬ address.consecutiveFailureCount < addressFailureThreshold := not_lt.mpr failed
    have isBlocked : repairOwned preload.bitcoinHistoryRepairAccountIds address = false :=
      notRepaired
    simp [isBlocked, below, account, failed]
  · unfold balanceIsFresh at fresh
    obtain ⟨tier, fresh⟩ := Bool.and_eq_true_iff.mp fresh
    obtain ⟨isRefresh, notFailed⟩ := shouldPlanBalanceRefresh_of_tier (of_decide_eq_true tier)
    rw [loadTransactionPagePermission_eq_false isRefresh]
    simp [notFailed, account]

theorem agrees_iff_not_leftBehind {reason : SyncIterationStopReason}
    (stopped : planNextIteration addresses hdBundles (plannerInputForCycle preload nowUtc source
      storedCount addresses hdBundles excluded) = .stop reason) :
    (∀ address ∈ plannedAddresses addresses hdBundles, address.addressId ∉ excluded →
      addressHasUnfinishedWork address preload.bitcoinHistoryRepairAccountIds
        (loadTransactionPagePermission preload storedCount address) = false) ↔
      ∀ address ∈ plannedAddresses addresses hdBundles, address.addressId ∉ excluded →
        ¬ LeftBehind preload storedCount address := by
  refine forall₂_congr fun address planned => imp_congr_right fun included => ?_
  rw [← addressHasUnfinishedWork_iff_leftBehind stopped planned included, Bool.not_eq_true]

end Agreement

/-! ## The failures that a row counts -/

/-- `consecutive_failure_count` of an address, zero without a row. -/
def consecutiveFailures (row : Option TransactionSyncStateRow) : ℕ :=
  row.elim 0 TransactionSyncStateRow.consecutiveFailureCount

/-- What a step makes of a count. -/
def AttemptStep.failuresAfter (failures : ℕ) : AttemptStep → ℕ
  | .observe _ | .completeSuccess => 0
  | .completeFailure _ _ countAsAddressFailure persisted =>
    if countAsAddressFailure && persisted then failures + 1 else failures
  | _ => failures

/-- What a step does to the row. -/
inductive RowEffect (row : Option TransactionSyncStateRow) :
    AttemptStep → Option TransactionSyncStateRow → Prop where
  | started (runId : String) (startedAt : ℤ) :
      RowEffect row (.start runId startedAt) (some (markAddressSyncStarted runId startedAt row))
  | observed {observation : MempoolAddressObservationSuccess} {written : TransactionSyncStateRow}
      (done : persistMempoolAddressObservationSuccess observation row = .ok written) :
      RowEffect row (.observe observation) (some written)
  | completed {success : AddressSyncSuccess} {written : TransactionSyncStateRow}
      (done : markAddressSyncCompletedSuccess success row = .ok written) :
      RowEffect row .completeSuccess (some written)
  | failed {runId error : String} {startedAt failedAt : ℤ} {countAsAddressFailure : Bool}
      {written : TransactionSyncStateRow}
      (done : markAddressSyncCompletedFailure runId startedAt failedAt error countAsAddressFailure
        row = .ok written) :
      RowEffect row (.completeFailure failedAt error countAsAddressFailure true) (some written)
  | unwritten {step : AttemptStep} (same : ∀ failures, step.failuresAfter failures = failures) :
      RowEffect row step row

theorem rowEffect_of_next {step : AttemptStep} {state after : AttemptState}
    (taken : step.Next state after) : RowEffect state.row step after.row := by
  unfold AttemptStep.Next at taken
  cases step with
  | start runId startedAt =>
    dsimp only [attemptStep] at taken
    split at taken
    · exact Option.some.inj taken ▸ .started runId startedAt
    · exact Option.some.inj taken ▸ .started runId startedAt
    · cases taken
  | observe observation =>
    dsimp only [attemptStep] at taken
    split at taken
    · obtain ⟨row, written, rfl⟩ := Option.map_eq_some_iff.mp taken
      exact .observed (toOption_eq_some.mp written)
    · cases taken
  | completeSuccess =>
    dsimp only [attemptStep] at taken
    split at taken
    · obtain ⟨row, written, rfl⟩ := Option.map_eq_some_iff.mp taken
      exact .completed (toOption_eq_some.mp written)
    · cases taken
  | completeFailure failedAt error countAsAddressFailure persisted =>
    dsimp only [attemptStep] at taken
    split at taken
    · rename_i runId startedAt _
      rw [← Option.some.inj taken]
      cases persisted with
      | false => exact .unwritten fun failures => by simp [AttemptStep.failuresAfter]
      | true =>
        obtain ⟨written, done⟩ : ∃ written, markAddressSyncCompletedFailure runId startedAt
            failedAt error countAsAddressFailure state.row = .ok written := by
          cases state.row <;> exact ⟨_, rfl⟩
        dsimp only
        rw [done]
        exact .failed done
    · cases taken
  | reload => exact Option.some.inj taken ▸ .unwritten fun _ => rfl
  | _ =>
    dsimp only [attemptStep] at taken
    split at taken
    · exact Option.some.inj taken ▸ .unwritten fun _ => rfl
    · cases taken

/-- A row that counts failures ended in one. -/
def CountsFailures (row : Option TransactionSyncStateRow) : Prop :=
  0 < consecutiveFailures row → row.map TransactionSyncStateRow.lastResult = some .failure

section Counts

variable {row after : Option TransactionSyncStateRow} {step : AttemptStep}

theorem consecutiveFailureCount_insertAddressSyncCompletion {completion : AddressSyncCompletion}
    {written : TransactionSyncStateRow}
    (done : insertAddressSyncCompletion completion = .ok written) :
    written.consecutiveFailureCount = 0 ∧ written.lastResult = completion.result := by
  obtain ⟨balance, _, done⟩ := bind_eq_ok.mp done
  rw [← pure_eq_ok.mp done]
  exact ⟨rfl, rfl⟩

theorem RowEffect.counts (effect : RowEffect row step after) (counts : CountsFailures row) :
    consecutiveFailures after = step.failuresAfter (consecutiveFailures row) ∧
      CountsFailures after := by
  cases effect with
  | started runId startedAt =>
    cases row with
    | none => exact ⟨rfl, fun positive => absurd positive (lt_irrefl 0)⟩
    | some row => exact ⟨rfl, counts⟩
  | observed done =>
    obtain ⟨balance, _, done⟩ := bind_eq_ok.mp done
    cases row with
    | none => cases done
    | some row =>
      rw [← pure_eq_ok.mp done]
      exact ⟨rfl, fun positive => absurd positive (lt_irrefl 0)⟩
  | completed done =>
    obtain ⟨balance, _, done⟩ := bind_eq_ok.mp done
    cases row with
    | none =>
      have zero := (consecutiveFailureCount_insertAddressSyncCompletion done).1
      exact ⟨zero, fun positive => absurd zero positive.ne'⟩
    | some row =>
      rw [← pure_eq_ok.mp done]
      exact ⟨rfl, fun positive => absurd positive (lt_irrefl 0)⟩
  | @failed _ _ _ _ countAsAddressFailure _ done =>
    cases row with
    | none =>
      obtain ⟨inserted, isInserted, done⟩ := bind_eq_ok.mp done
      have result := (consecutiveFailureCount_insertAddressSyncCompletion isInserted).2
      rw [← pure_eq_ok.mp done]
      refine ⟨?_, fun _ => congrArg some result⟩
      cases countAsAddressFailure <;> rfl
    | some row =>
      rw [← Except.ok.inj done]
      refine ⟨?_, fun _ => rfl⟩
      cases countAsAddressFailure <;> rfl
  | unwritten same => exact ⟨(same _).symm, counts⟩

end Counts

/-- In every reached state a row that counts failures ended in one. -/
theorem countsFailures_of_reached {state : AttemptState}
    (reached : Reachability.Reached AttemptStep.Next (fun _ _ => True) .initial state) :
    CountsFailures state.row :=
  reached.invariant (fun positive => absurd positive (lt_irrefl 0))
    fun _ _ _ counts _ taken => ((rowEffect_of_next taken).counts counts).2

theorem consecutiveFailures_of_steps {steps : List AttemptStep} {state final : AttemptState}
    (counts : CountsFailures state.row)
    (done : steps.foldlM (fun state step => attemptStep step state) state = some final) :
    consecutiveFailures final.row =
        steps.foldl AttemptStep.failuresAfter (consecutiveFailures state.row) ∧
      CountsFailures final.row := by
  induction steps generalizing state with
  | nil =>
    obtain rfl := Option.some.inj done
    exact ⟨rfl, counts⟩
  | cons step rest ih =>
    rw [List.foldlM_cons] at done
    obtain ⟨after, taken, done⟩ := Option.bind_eq_some_iff.mp done
    obtain ⟨counted, keeps⟩ := (rowEffect_of_next taken).counts counts
    rw [List.foldl_cons, ← counted]
    exact ih keeps done

/-! ## Automatic runs -/

/-- A run of the automatic sync as far as one address is concerned. The steps are what the cycle
does at the address where it comes to it and does not skip it; such a run excludes no address. -/
structure AutomaticRun where
  preload : SyncRunPreload
  nowUtc : ℤ
  source : TriggerSource
  accountTransactionCounts : List (String × ℕ)
  backfill : AddressBackfillState
  etherscanTransactionTipHeight : Option ℕ
  steps : List AttemptStep
deriving DecidableEq, Repr

def AutomaticRun.plannerInput (run : AutomaticRun) : SyncPlannerInput :=
  plannerInputForPreload run.preload run.nowUtc run.source run.accountTransactionCounts []

/-- The address as the run loads it. -/
def AutomaticRun.load (run : AutomaticRun) (address : SyncAddress String)
    (row : Option TransactionSyncStateRow) : LoadedSyncAddress where
  toSyncAddress := address
  sync := {
    lastCompletedAt := (loadAddress row).lastCompletedAt
    lastResult := (loadAddress row).lastResult
    lastTipHeight := (loadAddress row).lastTipHeight
    backfill := run.backfill }
  etherscanTransactionTipHeight := run.etherscanTransactionTipHeight
  consecutiveFailureCount := consecutiveFailures row

/-- The planner's state of the address in a run. -/
def AutomaticRun.planState (run : AutomaticRun) (address : SyncAddress String)
    (row : Option TransactionSyncStateRow) : AddressPlanState :=
  (addressCandidate (run.load address row) run.plannerInput).2

/-- Whether no failure of the address keeps the gate of a run from it any more. -/
def AutomaticRun.failureCooldownElapsed (run : AutomaticRun) (address : SyncAddress String)
    (row : Option TransactionSyncStateRow) : Bool :=
  (run.load address row).sync.lastResult ≠ some .failure ||
    !isOnCooldown address.assetId (run.load address row).sync run.nowUtc run.source false

/-- What a run leaves of the address; the scan of an account with keys does not ask the planner. -/
def AutomaticRun.visit (inBundle : Bool) (address : SyncAddress String) (state : AttemptState)
    (run : AutomaticRun) : Option AttemptState :=
  let loaded := { state with address := loadAddress state.row, phase := .idle }
  if inBundle = false ∧
      addressIsBlockedForPlanner (run.load address state.row) run.plannerInput = true then
    some loaded
  else
    run.steps.foldlM (fun state step => attemptStep step state) loaded

/-- A run of a sequence, with the runs before it and the state that these leave. -/
structure LaterRun (inBundle : Bool) (address : SyncAddress String) (state : AttemptState)
    (runs : List AutomaticRun) where
  earlier : List AutomaticRun
  run : AutomaticRun
  rest : List AutomaticRun
  found : AttemptState
  split : runs = earlier ++ run :: rest
  before : earlier.foldlM (AutomaticRun.visit inBundle address) state = some found

section Recovery

variable {inBundle : Bool} {address : SyncAddress String} {state : AttemptState}
  {runs : List AutomaticRun}

/-- Whether the account of the address is under repair in a run. -/
def AutomaticRun.repairs (run : AutomaticRun) (address : SyncAddress String) : Bool :=
  address.accountId.any fun accountId =>
    run.preload.bitcoinHistoryRepairAccountIds.contains accountId

/-- The failures that a run leaves; only an account with keys or one under repair has a blocked
address tried. -/
def AutomaticRun.failuresAfter (inBundle : Bool) (address : SyncAddress String) (failures : ℕ)
    (run : AutomaticRun) : ℕ :=
  if inBundle = false ∧ run.repairs address = false ∧ addressFailureThreshold ≤ failures then
    failures
  else
    run.steps.foldl AttemptStep.failuresAfter failures

/-- The failures that the runs before a later one leave. -/
def LaterRun.failures (later : LaterRun inBundle address state runs) : ℕ :=
  later.earlier.foldl (AutomaticRun.failuresAfter inBundle address)
    (consecutiveFailures state.row)

theorem LaterRun.run_mem (later : LaterRun inBundle address state runs) : later.run ∈ runs := by
  obtain ⟨earlier, run, rest, found, rfl, before⟩ := later
  exact List.mem_append_right _ List.mem_cons_self

theorem LaterRun.earlier_subset (later : LaterRun inBundle address state runs) :
    later.earlier ⊆ runs := by
  obtain ⟨earlier, run, rest, found, rfl, before⟩ := later
  exact List.subset_append_left _ _

/-- What makes a blocked address a candidate again once its failure cooldown has elapsed: its
balance is not fresh, and its account is under repair, or the runs before have reset the count. -/
structure LaterRun.Unblocks (later : LaterRun inBundle address state runs) : Prop where
  elapsed : later.run.failureCooldownElapsed address later.found.row = true
  due : balanceIsFresh (later.run.load address later.found.row) later.run.plannerInput = false
  retried : later.run.repairs address = true ∨ later.failures < addressFailureThreshold

/-- The planner blocks an address at the threshold unless its account is under repair. -/
theorem addressIsBlockedForPlanner_load (run : AutomaticRun)
    (row : Option TransactionSyncStateRow) (account : address.accountId ≠ none) :
    addressIsBlockedForPlanner (run.load address row) run.plannerInput = true ↔
      run.repairs address = false ∧ addressFailureThreshold ≤ consecutiveFailures row := by
  have notExcluded : (run.load address row).addressId ∉ run.plannerInput.runExcludedAddressIds :=
    List.not_mem_nil
  unfold addressIsBlockedForPlanner addressCandidate
  rw [if_neg (by exact account)]
  split
  · rename_i isBlocked
    exact iff_of_true (by simp) (isBlocked.resolve_left notExcluded)
  · rename_i notBlocked
    refine iff_of_false ?_ fun isBlocked => notBlocked (.inr isBlocked)
    split <;> simp

/-- The counter after runs that visit the address. -/
theorem consecutiveFailures_of_runs {found : AttemptState} (account : address.accountId ≠ none)
    (counts : CountsFailures state.row)
    (before : runs.foldlM (AutomaticRun.visit inBundle address) state = some found) :
    consecutiveFailures found.row =
      runs.foldl (AutomaticRun.failuresAfter inBundle address)
        (consecutiveFailures state.row) := by
  induction runs generalizing state with
  | nil =>
    obtain rfl := Option.some.inj before
    rfl
  | cons run rest ih =>
    rw [List.foldlM_cons] at before
    obtain ⟨after, visited, before⟩ := Option.bind_eq_some_iff.mp before
    unfold AutomaticRun.visit at visited
    dsimp only at visited
    have blocked := addressIsBlockedForPlanner_load run state.row account
    rw [List.foldl_cons, AutomaticRun.failuresAfter]
    split at visited
    · rename_i skipped
      obtain rfl := Option.some.inj visited
      rw [if_pos ⟨skipped.1, blocked.mp skipped.2⟩]
      have kept := ih (by exact counts) before
      exact kept
    · rename_i tried
      obtain ⟨counted, keeps⟩ := consecutiveFailures_of_steps (by exact counts) visited
      rw [if_neg fun skipped => tried ⟨skipped.1, blocked.mpr skipped.2⟩, ih keeps before,
        counted]

/-- Without keys and without repair nothing resets the count of a blocked address. -/
theorem LaterRun.failures_of_not_repairs (later : LaterRun false address state runs)
    (failed : addressFailureThreshold ≤ consecutiveFailures state.row)
    (unrepaired : ∀ run ∈ runs, run.repairs address = false) :
    later.failures = consecutiveFailures state.row := by
  have unrepaired := fun run member => unrepaired run (later.earlier_subset member)
  unfold LaterRun.failures
  generalize later.earlier = earlier at unrepaired
  induction earlier with
  | nil => rfl
  | cons run rest ih =>
    obtain ⟨isRun, isRest⟩ := List.forall_mem_cons.mp unrepaired
    rw [List.foldl_cons, AutomaticRun.failuresAfter, if_pos ⟨rfl, isRun, failed⟩]
    exact ih isRest

theorem planState_eq_candidate {run : AutomaticRun} {row : Option TransactionSyncStateRow}
    (account : address.accountId ≠ none) :
    run.planState address row = .candidate ↔
      balanceIsFresh (run.load address row) run.plannerInput = false ∧
        (run.repairs address = true ∨ consecutiveFailures row < addressFailureThreshold) := by
  have retried : (run.repairs address = true ∨
      consecutiveFailures row < addressFailureThreshold) ↔
        ¬ addressIsBlockedForPlanner (run.load address row) run.plannerInput = true := by
    rw [addressIsBlockedForPlanner_load run row account, not_and_or, Bool.not_eq_false, not_le]
  rw [retried]
  unfold AutomaticRun.planState addressIsBlockedForPlanner addressCandidate
  rw [if_neg (by exact account)]
  split
  · simp
  · split <;> simp_all

theorem candidate_iff_unblocks
    (reached : Reachability.Reached AttemptStep.Next (fun _ _ => True) .initial state)
    (account : address.accountId ≠ none) :
    (∃ later : LaterRun inBundle address state runs,
      later.run.failureCooldownElapsed address later.found.row = true ∧
      later.run.planState address later.found.row = .candidate) ↔
      ∃ later : LaterRun inBundle address state runs, later.Unblocks := by
  have counts := countsFailures_of_reached reached
  refine exists_congr fun later => ?_
  rw [planState_eq_candidate account, consecutiveFailures_of_runs account counts later.before]
  exact ⟨fun ⟨elapsed, due, retried⟩ => ⟨elapsed, due, retried⟩,
    fun ⟨elapsed, due, retried⟩ => ⟨elapsed, due, retried⟩⟩

end Recovery

/-- A blocked account address is a candidate again in a later run, once its failure cooldown has
elapsed, exactly where a run unblocks it, and a plan that stops agrees with the search for
unfinished work exactly where no included address is left behind. -/
theorem recovers_iff_and_agrees_iff (inBundle : Bool) (address : SyncAddress String)
    (state : AttemptState) (runs : List AutomaticRun) (preload : SyncRunPreload) (nowUtc : ℤ)
    (source : TriggerSource) (storedCount : String → ℕ) (addresses : List LoadedSyncAddress)
    (hdBundles : List AccountSyncBundle) (excluded : List String)
    (reason : SyncIterationStopReason) :
    (Reachability.Reached AttemptStep.Next (fun _ _ => True) .initial state →
      address.accountId ≠ none →
      addressFailureThreshold ≤ consecutiveFailures state.row →
      ((∃ later : LaterRun inBundle address state runs,
          later.run.failureCooldownElapsed address later.found.row = true ∧
          later.run.planState address later.found.row = .candidate) ↔
        ∃ later : LaterRun inBundle address state runs, later.Unblocks)) ∧
    (reason ≠ .balanceRefreshesFresh →
      planNextIteration addresses hdBundles (plannerInputForCycle preload nowUtc source
        storedCount addresses hdBundles excluded) = .stop reason →
      ((∀ address ∈ plannedAddresses addresses hdBundles, address.addressId ∉ excluded →
          addressHasUnfinishedWork address preload.bitcoinHistoryRepairAccountIds
            (loadTransactionPagePermission preload storedCount address) = false) ↔
        ∀ address ∈ plannedAddresses addresses hdBundles, address.addressId ∉ excluded →
          ¬ LeftBehind preload storedCount address)) :=
  ⟨fun reached account _ => candidate_iff_unblocks reached account,
    fun _ stopped => agrees_iff_not_leftBehind stopped⟩

/-! ## An address that failed twice -/

/-- A Bitcoin address of an account without keys. -/
def bitcoinAddress : SyncAddress String where
  addressId := "address-1"
  assetId := .bitcoin
  accountId := some "account-1"
  addressScheme := none
  derivationChange := none
  derivationIndex := none

/-- Its first two attempts, which fail. -/
def twoFailures : List AttemptStep :=
  [.start "run-1" 0, .fail, .completeFailure 1 "invalid response" true true,
    .start "run-2" 60000000000, .fail, .completeFailure 60000000001 "invalid response" true true]

/-- A run a day later. -/
def runOfNextDay : AutomaticRun where
  preload := {
    historicalBackfillEnabled := true
    historicalBackfillTransactionsPerAccount := 1000
    knownActivityAddressIds := []
    pendingAddressIds := []
    bitcoinHistoryRepairAccountIds := []
    nativeAccountModes := some [("account-1", .transactions)] }
  nowUtc := 86400000000000
  source := .schedule
  accountTransactionCounts := [("account-1", 0)]
  backfill := AddressSyncState.fresh.backfill
  etherscanTransactionTipHeight := none
  steps := []

/-- Two failures, and the two sides of the next plan. -/
theorem recovers_iff_and_agrees_iff_twoFailures :
    ∃ state, attemptSteps twoFailures = some state ∧
      ((∃ later : LaterRun false bitcoinAddress state [runOfNextDay],
          later.run.failureCooldownElapsed bitcoinAddress later.found.row = true ∧
          later.run.planState bitcoinAddress later.found.row = .candidate) ↔
        ∃ later : LaterRun false bitcoinAddress state [runOfNextDay], later.Unblocks) ∧
      ((∀ address ∈ plannedAddresses [runOfNextDay.load bitcoinAddress state.row] [],
          address.addressId ∉ ([] : List String) →
          addressHasUnfinishedWork address runOfNextDay.preload.bitcoinHistoryRepairAccountIds
            (loadTransactionPagePermission runOfNextDay.preload (fun _ => 0) address) = false) ↔
        ∀ address ∈ plannedAddresses [runOfNextDay.load bitcoinAddress state.row] [],
          address.addressId ∉ ([] : List String) →
          ¬ LeftBehind runOfNextDay.preload (fun _ => 0) address) := by
  obtain ⟨state, done⟩ : ∃ state, attemptSteps twoFailures = some state := ⟨_, rfl⟩
  have isState := done
  have failures : (attemptSteps twoFailures).map (fun state => consecutiveFailures state.row) =
      some 2 := by
    decide
  rw [done] at failures
  have counted : consecutiveFailures state.row = 2 := Option.some.inj failures
  have both := recovers_iff_and_agrees_iff false bitcoinAddress state [runOfNextDay]
    runOfNextDay.preload runOfNextDay.nowUtc .schedule (fun _ => 0)
    [runOfNextDay.load bitcoinAddress state.row] [] [] .onlyBlockedActions
  refine ⟨state, done, ?_, ?_⟩
  · exact both.1 (reached_of_attemptSteps done) (Option.some_ne_none _) counted.ge
  · refine both.2 nofun ?_
    obtain rfl := Option.some.inj (isState.symm.trans rfl)
    decide

/-- The failed address stays blocked in all later runs, and the search for unfinished work
reports it all the time. -/
theorem not_recovers_twoFailures :
    ∃ state, Reachability.Reached AttemptStep.Next (fun _ _ => True) .initial state ∧
      consecutiveFailures state.row = addressFailureThreshold ∧
      (∀ runs : List AutomaticRun,
        (∀ run ∈ runs, run.preload.bitcoinHistoryRepairAccountIds = []) →
        ¬ ∃ later : LaterRun false bitcoinAddress state runs,
          later.run.failureCooldownElapsed bitcoinAddress later.found.row = true ∧
          later.run.planState bitcoinAddress later.found.row = .candidate) ∧
      runOfNextDay.failureCooldownElapsed bitcoinAddress state.row = true ∧
      planNextIteration [runOfNextDay.load bitcoinAddress state.row] []
        (plannerInputForCycle runOfNextDay.preload runOfNextDay.nowUtc .schedule (fun _ => 0)
          [runOfNextDay.load bitcoinAddress state.row] [] []) = .stop .onlyBlockedActions ∧
      addressHasUnfinishedWork (runOfNextDay.load bitcoinAddress state.row)
        runOfNextDay.preload.bitcoinHistoryRepairAccountIds
        (loadTransactionPagePermission runOfNextDay.preload (fun _ => 0)
          (runOfNextDay.load bitcoinAddress state.row)) = true := by
  obtain ⟨state, done⟩ : ∃ state, attemptSteps twoFailures = some state := ⟨_, rfl⟩
  have reached := reached_of_attemptSteps done
  obtain rfl := Option.some.inj (done.symm.trans rfl)
  refine ⟨_, reached, by decide, fun runs unrepaired recovered => ?_, by decide, by decide,
    by decide⟩
  have unrepaired : ∀ run ∈ runs, run.repairs bitcoinAddress = false := fun run member => by
    unfold AutomaticRun.repairs
    rw [unrepaired run member]
    rfl
  obtain ⟨later, _, _, repaired | below⟩ :=
    (candidate_iff_unblocks reached (Option.some_ne_none _)).mp recovered
  · rw [unrepaired later.run later.run_mem] at repaired
    cases repaired
  · rw [later.failures_of_not_repairs (by decide) unrepaired] at below
    exact absurd below (by decide)

end Bitgarth.Sync
