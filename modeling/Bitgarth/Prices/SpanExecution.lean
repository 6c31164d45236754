import Bitgarth.Foundation.Loops
import Bitgarth.Prices.Backfill

/-! # Working off planned spans

The executor over any implementation of what it calls. Others may store prices at any time: a state
that a call leaves is the one in which the next call is made. A run also keeps what it has loaded
and requested, each with the state it was done in.
-/

namespace Bitgarth.Prices.SpanExecution

open Outcomes

def publicKeylessLicenseScope : String := "public_keyless"

/-- The trait of what a run calls, over the states of all there is around the run. -/
structure PriceHistoryBackfillDeps (σ : Type) where
  licenseScope : String
  retrievedAt : σ → ℤ
  loadDailyPriceDates : DailyPriceDateQuery → EStateM String σ (List ℤ)
  awaitRequestLane : σ → σ
  fetchDailyPrices : String → String → ℤ → ℤ →
    EStateM PriceHistoryFetchError σ (List CoinGeckoDailyPrice)
  upsertDailyPricePoints : List DailyPricePoint → EStateM String σ Unit
  upsertHistoricalPriceAttempt : HistoricalPriceAttempt → EStateM String σ Unit
  sleepAfterRateLimit : ℕ → σ → σ

inductive Event (σ : Type) where
  | loaded (query : DailyPriceDateQuery) (before : σ)
  | requested (request : PriceRequest) (before : σ)
      (answer : Except PriceHistoryFetchError (List CoinGeckoDailyPrice))

structure Execution (σ : Type) where
  around : σ
  events : List (Event σ)

/-- A run fails with a message; running out of turns is an error of the model alone. -/
inductive RunError where
  | outOfTurns
  | failed (message : String)
deriving DecidableEq, Repr

variable {σ : Type}

/-- A call in a run. -/
def call {ε α : Type} (program : EStateM ε σ α) : EStateM ε (Execution σ) α := fun run =>
  match program run.around with
  | .ok value after => .ok value { run with around := after }
  | .error error after => .error error { run with around := after }

/-- The variables of the loop in `fetch_and_store_span_with_retries`. -/
structure SpanRetry where
  retryDelays : List ℕ
  currentSpan : DateSpan
  deferred : List PriceHistoryAssetSpanWork
deriving DecidableEq, Repr

/-- The variables of the loop in `execute_fair_span_work_with_deps`. -/
structure SpanQueue where
  stoppedAssets : List (String × String)
  queue : List PriceHistoryAssetSpanWork
deriving DecidableEq, Repr

theorem lawfulBEq_assetKey : LawfulBEq (String × String) := inferInstance

section Executor

attribute [local instance] lawfulBEq_assetKey

variable (deps : PriceHistoryBackfillDeps σ) (currency : String)

def dailyPriceDateQuery (item : PriceHistoryAssetWork) (start finish : ℤ) :
    DailyPriceDateQuery where
  assetId := item.assetId
  quoteCurrency := currency
  providerAssetId := item.providerAssetId
  licenseScope := deps.licenseScope
  start := start
  finish := finish

def loadDailyPriceDates (query : DailyPriceDateQuery) :
    EStateM RunError (Execution σ) (List ℤ) := do
  modify fun run => { run with events := run.events ++ [.loaded query run.around] }
  (call (deps.loadDailyPriceDates query)).adaptExcept .failed

/-- The provider's answer; the request is kept with it. -/
def fetchDailyPrices (item : PriceHistoryAssetWork) (quoteCurrency : String)
    (fromUnixSeconds toUnixSeconds : ℤ) :
    EStateM PriceHistoryFetchError (Execution σ) (List CoinGeckoDailyPrice) := fun run =>
  let request : PriceRequest :=
    ⟨item.assetId, item.providerAssetId, quoteCurrency, fromUnixSeconds, toUnixSeconds⟩
  match deps.fetchDailyPrices item.providerAssetId quoteCurrency fromUnixSeconds toUnixSeconds
      run.around with
  | .ok prices after =>
    .ok prices ⟨after, run.events ++ [.requested request run.around (.ok prices)]⟩
  | .error error after =>
    .error error ⟨after, run.events ++ [.requested request run.around (.error error)]⟩

/-- Without a key, one request is made at a time, whichever run it is for. -/
def fetchDailyPricesWithRequestLane (item : PriceHistoryAssetWork) (quoteCurrency : String)
    (fromUnixSeconds toUnixSeconds : ℤ) :
    EStateM PriceHistoryFetchError (Execution σ) (List CoinGeckoDailyPrice) := do
  if deps.licenseScope ≠ publicKeylessLicenseScope then
    fetchDailyPrices deps item quoteCurrency fromUnixSeconds toUnixSeconds
  else
    modify fun run => { run with around := deps.awaitRequestLane run.around }
    fetchDailyPrices deps item quoteCurrency fromUnixSeconds toUnixSeconds

/-- The rows of the span that an answer of the provider gives. -/
def dailyPricePoints (item : PriceHistoryAssetWork) (span : DateSpan) (retrievedAt : ℤ)
    (prices : List CoinGeckoDailyPrice) : List DailyPricePoint :=
  (prices.filter fun price =>
    decide (span.start ≤ price.dateUtc ∧ price.dateUtc ≤ span.finish)).map fun price =>
      { assetId := item.assetId
        quoteCurrency := currency
        priceTimeUtc := price.priceTime
        dateUtc := price.dateUtc
        price := price.price
        providerAssetId := item.providerAssetId
        providerQuoteId := some (Text.toAsciiLowercase currency)
        licenseScope := deps.licenseScope
        retrievedAt := retrievedAt }

def fetchAndStoreSpan (item : PriceHistoryAssetWork) (span : DateSpan) :
    EStateM PriceHistoryFetchError (Execution σ) Unit := do
  let retrievedAt := deps.retrievedAt (← get).around
  let prices ← fetchDailyPricesWithRequestLane deps item (Text.toAsciiLowercase currency)
    (unixDayStart span.start) (unixDayStart (span.finish + 1))
  let rows := dailyPricePoints deps currency item span retrievedAt prices
  (call (deps.upsertDailyPricePoints rows)).adaptExcept .failed
  let status := if rows.isEmpty then .successEmpty else .successWithPrices
  let row := historicalAttemptUpsert item span status rows.length retrievedAt none none
  (call (deps.upsertHistoricalPriceAttempt row)).adaptExcept .failed

/-- The attempt is recorded where that is possible. -/
def recordTerminalHistoricalAttempt (item : PriceHistoryAssetWork) (span : DateSpan)
    (status : HistoricalPriceAttemptStatus) (errorCode : String) :
    EStateM RunError (Execution σ) Unit := do
  let attemptedAt := deps.retrievedAt (← get).around
  let row := historicalAttemptUpsert item span status 0 attemptedAt none (some errorCode)
  let _ ← attempt (call (deps.upsertHistoricalPriceAttempt row))

def missingSpansAfterExactRecheck (item : PriceHistoryAssetWork) (span : DateSpan) :
    EStateM RunError (Execution σ) (List DateSpan) := do
  let existing ← loadDailyPriceDates deps
    (dailyPriceDateQuery deps currency item span.start span.finish)
  return missingDailySpansNewestFirst span existing

/-- The fetch in a turn of `fetch_and_store_span_with_retries`, after which the loop goes on only
where the provider is asked too often and a delay is left. -/
def trySpan (item : PriceHistoryAssetWork) (retry : SpanRetry) :
    EStateM RunError (Execution σ) (SpanRetry ⊕ FairSpanExecutionOutcome) := do
  match ← attempt (fetchAndStoreSpan deps currency item retry.currentSpan) with
  | .ok () => return .inr ⟨.continue, retry.deferred⟩
  | .error .historyLimit =>
    recordTerminalHistoricalAttempt deps item retry.currentSpan .permanentFailure
      "history_limit"
    return .inr ⟨.stopAsset, []⟩
  | .error (.notFound _) =>
    recordTerminalHistoricalAttempt deps item retry.currentSpan .permanentFailure "not_found"
    return .inr ⟨.stopAsset, []⟩
  | .error (.rateLimited _) =>
    match retry.retryDelays with
    | delay :: later =>
      modify fun run => { run with around := deps.sleepAfterRateLimit delay run.around }
      return .inl { retry with retryDelays := later }
    | [] =>
      recordTerminalHistoricalAttempt deps item retry.currentSpan .rateLimited "rate_limited"
      return .inr ⟨.stopRun, []⟩
  | .error (.failed _) =>
    recordTerminalHistoricalAttempt deps item retry.currentSpan .transientFailure
      "transient_failure"
    return .inr ⟨.continue, retry.deferred⟩

/-- A turn of the loop in `fetch_and_store_span_with_retries`. -/
def retryTurn (item : PriceHistoryAssetWork) (retry : SpanRetry) :
    EStateM RunError (Execution σ) (SpanRetry ⊕ FairSpanExecutionOutcome) := do
  match ← missingSpansAfterExactRecheck deps currency item retry.currentSpan with
  | [] => return .inr ⟨.continue, retry.deferred⟩
  | newest :: older =>
    if newest :: older ≠ [retry.currentSpan] then
      return .inl
        { retryDelays := rateLimitRetryDelays
          currentSpan := newest
          deferred := older.map (fun span => ⟨item, span⟩) ++ retry.deferred }
    else
      trySpan deps currency item retry

def fetchAndStoreSpanWithRetries (turns : ℕ) (item : PriceHistoryAssetWork) (span : DateSpan) :
    EStateM RunError (Execution σ) FairSpanExecutionOutcome :=
  loop .outOfTurns (retryTurn deps currency item) turns ⟨rateLimitRetryDelays, span, []⟩

/-- A turn of the loop in `execute_fair_span_work_with_deps`. -/
def queueTurn (turns : ℕ) (work : SpanQueue) :
    EStateM RunError (Execution σ) (SpanQueue ⊕ Unit) := do
  match work.queue with
  | [] => return .inr ()
  | entry :: queue =>
    if entry.item.assetKey ∈ work.stoppedAssets then
      return .inl ⟨work.stoppedAssets, queue⟩
    else
      let outcome ← fetchAndStoreSpanWithRetries deps currency turns entry.item entry.span
      match outcome.control with
      | .continue =>
        return .inl
          ⟨work.stoppedAssets, insertDeferred entry.item.assetKey outcome.deferred queue⟩
      | .stopAsset => return .inl ⟨entry.item.assetKey :: work.stoppedAssets, queue⟩
      | .stopRun => return .inr ()

/-- Work off a queue, where each of the loops has that many turns at most. -/
def executeFairSpanWorkWithDeps (turns : ℕ) (fairWork : List PriceHistoryAssetSpanWork) :
    EStateM RunError (Execution σ) Unit :=
  loop .outOfTurns (queueTurn deps currency turns) turns ⟨[], fairWork⟩

variable (work : List PriceHistoryAssetWork) (today : ℤ) (horizon : PriceHistoryHorizon)

/-- The missing spans of a provider range. -/
def loadRangeSpans (item : PriceHistoryAssetWork) (range : DateSpan) :
    EStateM RunError (Execution σ) (List DateSpan) := do
  let existing ← loadDailyPriceDates deps
    (dailyPriceDateQuery deps currency item range.start range.finish)
  return missingDailySpansNewestFirst range existing

/-- All missing spans of an asset, newest first. -/
def loadAssetSpans (entry : PriceHistoryAssetWork × ℕ) :
    EStateM RunError (Execution σ) (ℕ × List DateSpan) := do
  let requestedStart := requestedStartDateForHorizon entry.1.firstOwnedDate today horizon
  let spans ← (backwardProviderRanges requestedStart today).mapM
    (loadRangeSpans deps currency entry.1)
  return (entry.2, spans.flatten)

def loadFairSpanWorkWithDeps : EStateM RunError (Execution σ) (List PriceHistoryAssetSpanWork) := do
  let perAssetSpans ← work.zipIdx.mapM (loadAssetSpans deps currency today horizon)
  return (fairMissingSpanWork perAssetSpans).filterMap fun workItem =>
    work[workItem.assetIndex]?.map fun item => ⟨item, workItem.span⟩

end Executor

end Bitgarth.Prices.SpanExecution
