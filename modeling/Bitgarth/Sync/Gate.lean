import Mathlib.Data.Int.Basic
import Mathlib.Tactic.Common
import Bitgarth.Foundation.Fallible

/-! # The gate before an address sync

An address is skipped while its balance is fresh, while it is on cooldown or while the chain
tip has not moved; otherwise one iteration is attempted. `syncSingleAddressWithControls_skipped`
says what a skip tells about earlier iterations.
-/

namespace Bitgarth.Sync

inductive SyncedAssetId where
  | bitcoin
  | ethereum
deriving DecidableEq, Repr

inductive SyncProviderId where
  | mempoolSpace
  | etherscan
deriving DecidableEq, Repr

def defaultApiProviderForAsset : SyncedAssetId → SyncProviderId
  | .bitcoin => .mempoolSpace
  | .ethereum => .etherscan

inductive TriggerSource where
  | schedule
  | manualInternal
  | autoAdd
  | autoUpgrade
  | autoSessionRestore
  | autoFreshness
deriving DecidableEq, Repr

inductive TransactionSyncResult where
  | success
  | failure
deriving DecidableEq, Repr

inductive AddressScheme where
  | legacy
  | nestedSegwit
  | nativeSegwit
  | taproot
  | standard
deriving DecidableEq, Repr

inductive TransactionFetchPolicy where
  | currentOnly
  | normal (cap : ℕ)
  | legacyRepair
deriving DecidableEq, Repr

inductive SyncSkipReason where
  | balanceFresh
  | cooldown
  | tipUnchanged
deriving DecidableEq, Repr

inductive SyncError where
  | rateLimited (integration : String)
  | parse (message : String)
  | db (message : String)
  | request (message : String)
deriving DecidableEq, Repr

structure MempoolHistoryProof where
  confirmedTxCount : ℕ
  blockHeight : ℕ
deriving DecidableEq, Repr

/-- How far the history of an address has been fetched. -/
structure AddressBackfillState where
  mempoolBackfillCursorTxid : Option String
  mempoolExpectedTxCount : Option ℕ
  mempoolHistoryProof : Option MempoolHistoryProof
  etherscanBackfillEndBlock : Option ℕ
  hasApiConfirmedBalance : Bool
deriving DecidableEq, Repr

/-- The sync state of an address; instants are nanoseconds since the Unix epoch. -/
structure AddressSyncState where
  lastCompletedAt : Option ℤ
  lastResult : Option TransactionSyncResult
  lastTipHeight : Option ℕ
  backfill : AddressBackfillState
deriving DecidableEq, Repr

/-- The sync state of an address never synced. -/
def AddressSyncState.fresh : AddressSyncState where
  lastCompletedAt := none
  lastResult := none
  lastTipHeight := none
  backfill :=
    { mempoolBackfillCursorTxid := none
      mempoolExpectedTxCount := none
      mempoolHistoryProof := none
      etherscanBackfillEndBlock := none
      hasApiConfirmedBalance := false }

/-- An address to sync. -/
structure SyncAddress (α : Type) where
  addressId : α
  assetId : SyncedAssetId
  accountId : Option String
  addressScheme : Option AddressScheme
  derivationChange : Option ℕ
  derivationIndex : Option ℕ
deriving DecidableEq, Repr

/-- What an iteration reports. -/
structure SyncIterationResult where
  observedActivity : Bool
  newTxCount : ℕ
  updatedTxCount : ℕ
  apiConfirmedBalance : Option ℕ
  completedAt : ℤ
  tipHeight : ℕ
deriving DecidableEq, Repr

/-- What the surroundings of one gate call answer: the database, the clock, the rate limiter,
the provider. -/
structure GateAnswers where
  storedCount : Except SyncError ℕ
  now : ℤ
  rateLimited : Bool
  currentTip : Except SyncError ℕ
  hasPendingTxs : Bool
  started : Except SyncError Unit
  execution : Except SyncError SyncIterationResult
  backfill : AddressBackfillState
  coverageInvalidation : Except SyncError Unit
  failedAt : ℤ

inductive GateOutcome where
  | skipped (reason : SyncSkipReason)
  | rateLimited
  | synced (hasActivity : Bool)
  | failed
deriving DecidableEq, Repr

/-- First component of the gate's result. -/
def GateOutcome.hasActivity : GateOutcome → Bool
  | .synced hasActivity => hasActivity
  | _ => false

/-- Second component of the gate's result. -/
def GateOutcome.interrupted : GateOutcome → Bool
  | .skipped _ | .synced _ => false
  | .rateLimited | .failed => true

/-- Whether the call counts against the addresses processed for an account. -/
def GateOutcome.attempted : GateOutcome → Bool
  | .synced _ | .failed => true
  | .skipped _ | .rateLimited => false

/-! ## Cooldowns -/

def nanosecondsPerSecond : ℤ := 1000000000

def addressSyncCooldown : ℤ := 90 * nanosecondsPerSecond
def failedAddressSyncCooldown : ℤ := 30 * nanosecondsPerSecond
def accountRefreshInterval : ℤ := 15 * 60 * nanosecondsPerSecond
def etherscanAddressSyncCooldown : ℤ := accountRefreshInterval
def etherscanFailedAddressSyncCooldown : ℤ := 15 * 60 * nanosecondsPerSecond
def balanceRefreshTtl : ℤ := accountRefreshInterval

def cooldownForLastResult (asset : SyncedAssetId) : Option TransactionSyncResult → Option ℤ
  | some .success =>
    match defaultApiProviderForAsset asset with
    | .mempoolSpace => some addressSyncCooldown
    | .etherscan => some etherscanAddressSyncCooldown
  | some .failure =>
    match defaultApiProviderForAsset asset with
    | .mempoolSpace => some failedAddressSyncCooldown
    | .etherscan => some etherscanFailedAddressSyncCooldown
  | none => none

/-- A completion in the future by a second or more counts as recent, one by less does not. -/
def elapsedWithin (completedAt now duration : ℤ) : Bool :=
  let elapsed := now - completedAt
  if elapsed.tdiv nanosecondsPerSecond < 0 then
    true
  else if elapsed < 0 then
    false
  else
    decide (elapsed < duration)

def isBalanceRefreshFresh (lastCompletedAt : Option ℤ) (now : ℤ) : Bool :=
  match lastCompletedAt with
  | none => false
  | some completedAt => elapsedWithin completedAt now balanceRefreshTtl

def isSuccessfulBalanceRefreshFresh (source : TriggerSource)
    (lastResult : Option TransactionSyncResult) (lastCompletedAt : Option ℤ) (now : ℤ) : Bool :=
  source ≠ .manualInternal && lastResult = some .success &&
    isBalanceRefreshFresh lastCompletedAt now

def manualTriggerBypassesCooldown (asset : SyncedAssetId) (state : AddressSyncState) : Bool :=
  state.lastResult = some .failure ||
    (defaultApiProviderForAsset asset = .etherscan && state.lastResult = some .success &&
      state.lastTipHeight.isSome)

def mempoolHistoryRequiresFirstPageRestart (backfill : AddressBackfillState) : Bool :=
  match backfill.mempoolExpectedTxCount with
  | none => false
  | some expected =>
    match backfill.mempoolHistoryProof with
    | none => 0 < expected
    | some proof => proof.confirmedTxCount < expected

/-- Whether `unfinished_backfill_state` finds a backfill to resume. -/
def hasUnfinishedBackfill (asset : SyncedAssetId) (backfill : AddressBackfillState) : Bool :=
  match defaultApiProviderForAsset asset with
  | .mempoolSpace => backfill.mempoolBackfillCursorTxid.isSome
  | .etherscan => backfill.etherscanBackfillEndBlock.isSome

def isOnCooldown (asset : SyncedAssetId) (state : AddressSyncState) (now : ℤ)
    (source : TriggerSource) (transactionPagePermitted : Bool) : Bool :=
  match state.lastCompletedAt, cooldownForLastResult asset state.lastResult with
  | some completedAt, some requiredCooldown =>
    if source = .autoUpgrade ∨
        (source = .manualInternal ∧ manualTriggerBypassesCooldown asset state = true) then
      false
    else if state.lastResult = some .success ∧
        (hasUnfinishedBackfill asset state.backfill = true ∨
          (transactionPagePermitted = true ∧ defaultApiProviderForAsset asset = .mempoolSpace ∧
            mempoolHistoryRequiresFirstPageRestart state.backfill = true)) then
      false
    else
      elapsedWithin completedAt now requiredCooldown
  | _, _ => false

/-! ## The gate -/

def TransactionFetchPolicy.permitsTransactionPage (policy : TransactionFetchPolicy)
    (storedCount : ℕ) : Bool :=
  match policy with
  | .currentOnly => false
  | .normal cap => storedCount < cap
  | .legacyRepair => true

/-- `load_account_transaction_count_for_fetch_policy`, zero for an address without account. -/
def loadStoredCount (policy : TransactionFetchPolicy) (accountId : Option String)
    (storedCount : Except SyncError ℕ) : Except SyncError ℕ :=
  match accountId, policy with
  | some _, .normal _ => storedCount
  | _, _ => .ok 0

inductive TipUnchangedGateDecision where
  | continueSync
  | skipTipUnchanged
  | refreshPending
deriving DecidableEq, Repr

def decideTipUnchangedGate (lastTip : Option ℕ) (currentTip : ℕ) (hasPendingTxs : Bool)
    (hasApiConfirmedBalance : Bool) : TipUnchangedGateDecision :=
  if hasApiConfirmedBalance = true ∧ lastTip = some currentTip then
    if hasPendingTxs then .refreshPending else .skipTipUnchanged
  else
    .continueSync

/-- Whether the chain tip is asked for before fetching. -/
def asksForTip (policy : TransactionFetchPolicy) (asset : SyncedAssetId)
    (state : AddressSyncState) : Bool :=
  defaultApiProviderForAsset asset = .mempoolSpace && policy ≠ .legacyRepair &&
    state.backfill.mempoolBackfillCursorTxid.isNone &&
    !mempoolHistoryRequiresFirstPageRestart state.backfill && state.lastTipHeight.isSome

/-- The gate's decision: an outcome without a fetch, or none to go on. -/
def decideBeforeFetch (source : TriggerSource) (policy : TransactionFetchPolicy)
    (answers : GateAnswers) (asset : SyncedAssetId) (accountId : Option String)
    (state : AddressSyncState) : Except SyncError (Option GateOutcome) :=
  match loadStoredCount policy accountId answers.storedCount with
  | .error error => .error error
  | .ok storedCount =>
    let transactionPagePermitted := policy.permitsTransactionPage storedCount
    if transactionPagePermitted = false ∧
        isSuccessfulBalanceRefreshFresh source state.lastResult state.lastCompletedAt
          answers.now = true then
      .ok (some (.skipped .balanceFresh))
    else if isOnCooldown asset state answers.now source transactionPagePermitted = true ∧
        (policy ≠ .legacyRepair ∨ state.lastResult = some .failure) then
      .ok (some (.skipped .cooldown))
    else if answers.rateLimited then
      .ok (some .rateLimited)
    else if asksForTip policy asset state then
      match answers.currentTip with
      | .error error => .error error
      | .ok currentTip =>
        if decideTipUnchangedGate state.lastTipHeight currentTip answers.hasPendingTxs
            state.backfill.hasApiConfirmedBalance = .skipTipUnchanged then
          .ok (some (.skipped .tipUnchanged))
        else
          .ok none
    else
      .ok none

def summaryHasActivity (summary : SyncIterationResult) : Bool :=
  summary.observedActivity || 0 < summary.newTxCount || 0 < summary.updatedTxCount ||
    summary.apiConfirmedBalance.any (· ≠ 0)

/-- One attempted iteration and what it leaves. -/
def attemptIteration (answers : GateAnswers) (state : AddressSyncState) :
    Except SyncError (AddressSyncState × GateOutcome) :=
  match answers.started with
  | .error error => .error error
  | .ok () =>
    match answers.execution with
    | .ok summary =>
      .ok ({ state with
        lastCompletedAt := some summary.completedAt
        lastResult := some .success
        lastTipHeight := some summary.tipHeight
        backfill := answers.backfill }, .synced (summaryHasActivity summary))
    | .error _ =>
      match answers.coverageInvalidation with
      | .error error => .error error
      | .ok () =>
        .ok ({ state with
          lastCompletedAt := some answers.failedAt
          lastResult := some .failure
          backfill := answers.backfill }, .failed)

/-- `sync_single_address_with_controls`. -/
def syncSingleAddressWithControls {α : Type} (source : TriggerSource)
    (policy : TransactionFetchPolicy) (answers : GateAnswers) (address : SyncAddress α)
    (state : AddressSyncState) : Except SyncError (AddressSyncState × GateOutcome) :=
  match decideBeforeFetch source policy answers address.assetId address.accountId state with
  | .error error => .error error
  | .ok (some outcome) => .ok (state, outcome)
  | .ok none => attemptIteration answers state

/-! ## What a skip tells -/

/-- The state of an address records a successful iteration. -/
def AddressSyncState.HasSucceeded (state : AddressSyncState) : Prop :=
  state.lastResult = some .success ∨ state.lastTipHeight.isSome

section Skips

variable {α : Type} {source : TriggerSource} {policy : TransactionFetchPolicy}
  {answers : GateAnswers} {address : SyncAddress α} {asset : SyncedAssetId}
  {accountId : Option String} {state after : AddressSyncState} {outcome : GateOutcome}
  {reason : SyncSkipReason}

theorem not_hasSucceeded_fresh : ¬ AddressSyncState.fresh.HasSucceeded := by
  simp [AddressSyncState.HasSucceeded, AddressSyncState.fresh]

theorem lastResult_of_isOnCooldown {now : ℤ} {permitted : Bool}
    (cooling : isOnCooldown asset state now source permitted = true) :
    state.lastResult = some .failure ∨ state.lastResult = some .success := by
  cases result : state.lastResult with
  | none =>
    unfold isOnCooldown at cooling
    rw [result, cooldownForLastResult] at cooling
    simp at cooling
  | some last =>
    cases last with
    | success => exact .inr rfl
    | failure => exact .inl rfl

theorem decideBeforeFetch_eq_some
    (decided : decideBeforeFetch source policy answers asset accountId state =
      .ok (some outcome)) :
    outcome = .rateLimited ∨
      ∃ reason, outcome = .skipped reason ∧
        (reason = .cooldown ∧ state.lastResult = some .failure ∨ state.HasSucceeded) := by
  unfold decideBeforeFetch at decided
  split at decided
  · simp at decided
  · simp only at decided
    split at decided
    · rename_i fresh
      obtain ⟨_, fresh⟩ := fresh
      unfold isSuccessfulBalanceRefreshFresh at fresh
      simp only [Bool.and_eq_true, decide_eq_true_eq] at fresh
      simp only [Except.ok.injEq, Option.some.injEq] at decided
      exact .inr ⟨_, decided.symm, .inr (.inl fresh.1.2)⟩
    · split at decided
      · rename_i cooling
        simp only [Except.ok.injEq, Option.some.injEq] at decided
        refine .inr ⟨_, decided.symm, ?_⟩
        rcases lastResult_of_isOnCooldown cooling.1 with failed | succeeded
        · exact .inl ⟨rfl, failed⟩
        · exact .inr (.inl succeeded)
      · split at decided
        · simp only [Except.ok.injEq, Option.some.injEq] at decided
          exact .inl decided.symm
        · split at decided
          · rename_i asks
            unfold asksForTip at asks
            simp only [Bool.and_eq_true] at asks
            split at decided
            · simp at decided
            · split at decided
              · simp only [Except.ok.injEq, Option.some.injEq] at decided
                exact .inr ⟨_, decided.symm, .inr (.inr asks.2)⟩
              · simp at decided
          · simp at decided

theorem syncSingleAddressWithControls_skipped
    (gated : syncSingleAddressWithControls source policy answers address state =
      .ok (after, .skipped reason)) :
    after = state ∧
      (reason = .cooldown ∧ state.lastResult = some .failure ∨ state.HasSucceeded) := by
  unfold syncSingleAddressWithControls at gated
  split at gated
  · simp at gated
  · rename_i decided
    simp only [Except.ok.injEq, Prod.mk.injEq] at gated
    obtain ⟨rfl, rfl⟩ := gated
    rcases decideBeforeFetch_eq_some decided with limited | ⟨_, same, because⟩
    · simp at limited
    · obtain rfl := GateOutcome.skipped.inj same
      exact ⟨rfl, because⟩
  · unfold attemptIteration at gated
    split at gated
    · simp at gated
    · split at gated
      · simp at gated
      · split at gated <;> simp at gated

/-- Only a successful iteration records a success. -/
theorem syncSingleAddressWithControls_hasSucceeded
    (gated : syncSingleAddressWithControls source policy answers address state =
      .ok (after, outcome)) (succeeded : after.HasSucceeded) :
    state.HasSucceeded ∨ ∃ activity, outcome = .synced activity := by
  unfold syncSingleAddressWithControls at gated
  split at gated
  · simp at gated
  · simp only [Except.ok.injEq, Prod.mk.injEq] at gated
    rw [gated.1]
    exact .inl succeeded
  · unfold attemptIteration at gated
    split at gated
    · simp at gated
    · split at gated
      · simp only [Except.ok.injEq, Prod.mk.injEq] at gated
        exact .inr ⟨_, gated.2.symm⟩
      · split at gated
        · simp at gated
        · simp only [Except.ok.injEq, Prod.mk.injEq] at gated
          rw [← gated.1] at succeeded
          rcases succeeded with failed | tip
          · simp at failed
          · exact .inl (.inr tip)

end Skips

end Bitgarth.Sync
