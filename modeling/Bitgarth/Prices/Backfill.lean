import Bitgarth.Accounts.AdmissionText
import Bitgarth.Foundation.Outcomes
import Bitgarth.Prices.Freshness
import Bitgarth.Text

/-! # Price history backfill

One run of the job over an asset list: freshness first, then the history in turns. A run is a
program over the price store that also keeps the requests it sends to the provider.
-/

namespace Bitgarth.Prices

open Outcomes

structure CoinGeckoDailyPrice where
  priceTime : ℤ
  dateUtc : ℤ
  price : String
deriving DecidableEq, Repr

inductive PriceHistoryFetchError where
  | historyLimit
  | rateLimited (message : String)
  | notFound (message : String)
  | failed (message : String)
deriving DecidableEq, Repr

/-- A call of the provider, with the asset it is made for. -/
structure PriceRequest where
  assetId : String
  providerAssetId : String
  quoteCurrency : String
  fromUnixSeconds : ℤ
  toUnixSeconds : ℤ
deriving DecidableEq, Repr

/-- What the provider, the database and the clock do in a run, for each call by its number. -/
structure PriceHistoryBackfillDeps where
  licenseScope : String
  retrievedAt : ℕ → ℤ
  loadDatesError : ℕ → DailyPriceDateQuery → Option String
  loadAttemptError : ℕ → HistoricalPriceAttemptQuery → Option String
  loadCooldownAttemptError : ℕ → HistoricalPriceAttemptCooldownQuery → Option String
  fetchDailyPrices : ℕ → String → String → ℤ → ℤ →
    Except PriceHistoryFetchError (List CoinGeckoDailyPrice)
  upsertPricesError : ℕ → List DailyPricePoint → Option String
  upsertAttemptError : ℕ → HistoricalPriceAttempt → Option String

structure World where
  store : PriceStore
  calls : ℕ
  requests : List PriceRequest
deriving DecidableEq, Repr

abbrev Backfill := EStateM String World

inductive BackfillControl where
  | continue
  | stopAsset
  | stopRun
deriving DecidableEq, Repr

structure FairSpanExecutionOutcome where
  control : BackfillControl
  deferred : List PriceHistoryAssetSpanWork
deriving DecidableEq, Repr

/-- The number of the next call. -/
def nextCall {ε : Type} : EStateM ε World ℕ :=
  fun world => .ok world.calls { world with calls := world.calls + 1 }

/-- Go on where a call reports no error. -/
def checkError : Option String → Backfill Unit
  | none => pure ()
  | some message => throw message

def invalidSpanMessage (fromDate toDate : ℤ) : String :=
  "historical price attempt: invalid date span " ++ String.ofList (Accounts.dateText fromDate) ++
    " > " ++ String.ofList (Accounts.dateText toDate)

def validateHistoricalPriceAttemptSpan (context : String) (fromDate toDate : ℤ) : Backfill Unit :=
  if toDate < fromDate then throw (context ++ invalidSpanMessage fromDate toDate) else pure ()

def unixDayStart (date : ℤ) : ℤ := date * 86400

/-- The first pause is before the second try, the other one before the third; seconds. -/
def rateLimitRetryDelays : List ℕ := [1, 5]

def PriceHistoryAssetWork.assetKey (item : PriceHistoryAssetWork) : String × String :=
  (item.assetId, item.providerAssetId)

def historicalAttemptUpsert (item : PriceHistoryAssetWork) (span : DateSpan)
    (status : HistoricalPriceAttemptStatus) (rowsReturned : ℕ) (attemptedAt : ℤ)
    (nextRetryAfter : Option ℤ) (errorCode : Option String) : HistoricalPriceAttempt where
  assetId := item.assetId
  fromDate := span.start
  toDate := span.finish
  status := status
  attemptedAt := attemptedAt
  rowsReturned := min rowsReturned (2 ^ 32 - 1)
  nextRetryAfter := nextRetryAfter
  errorCode := errorCode

section Calls

variable (deps : PriceHistoryBackfillDeps) (currency : String)

def retrievedAt {ε : Type} : EStateM ε World ℤ := do
  let call ← nextCall
  return deps.retrievedAt call

def dailyPriceDateQuery (item : PriceHistoryAssetWork) (start finish : ℤ) :
    DailyPriceDateQuery where
  assetId := item.assetId
  quoteCurrency := currency
  providerAssetId := item.providerAssetId
  licenseScope := deps.licenseScope
  start := start
  finish := finish

def loadDailyPriceDates (query : DailyPriceDateQuery) : Backfill (List ℤ) := do
  let call ← nextCall
  checkError (deps.loadDatesError call query)
  return (← get).store.dailyPriceDates query

def latestHistoricalPriceAttempt (query : HistoricalPriceAttemptQuery) :
    Backfill (Option HistoricalPriceAttempt) := do
  let call ← nextCall
  validateHistoricalPriceAttemptSpan "load historical price attempt failed: "
    query.fromDate query.toDate
  checkError (deps.loadAttemptError call query)
  return (← get).store.latestAttempt query

def latestHistoricalPriceCooldownAttempt (query : HistoricalPriceAttemptCooldownQuery) :
    Backfill (Option HistoricalPriceAttempt) := do
  let call ← nextCall
  checkError (deps.loadCooldownAttemptError call query)
  return (← get).store.latestCooldownAttempt query

/-- The provider's answer; the request is kept whatever it is. -/
def fetchDailyPrices (item : PriceHistoryAssetWork) (quoteCurrency : String)
    (fromUnixSeconds toUnixSeconds : ℤ) :
    EStateM PriceHistoryFetchError World (List CoinGeckoDailyPrice) := fun world =>
  let request : PriceRequest :=
    ⟨item.assetId, item.providerAssetId, quoteCurrency, fromUnixSeconds, toUnixSeconds⟩
  let after : World :=
    { world with calls := world.calls + 1, requests := world.requests ++ [request] }
  match deps.fetchDailyPrices world.calls item.providerAssetId quoteCurrency fromUnixSeconds
      toUnixSeconds with
  | .ok prices => .ok prices after
  | .error error => .error error after

def storeDailyPricePoints (rows : List DailyPricePoint) : Backfill Unit := do
  let call ← nextCall
  checkError (deps.upsertPricesError call rows)
  modify fun world =>
    { world with store.prices := upsertDailyPricePoints rows world.store.prices }

def storeHistoricalPriceAttempt (row : HistoricalPriceAttempt) : Backfill Unit := do
  let call ← nextCall
  validateHistoricalPriceAttemptSpan "historical price attempt upsert failed: "
    row.fromDate row.toDate
  checkError (deps.upsertAttemptError call row)
  modify fun world =>
    { world with store.attempts := upsertHistoricalPriceAttempt row world.store.attempts }

/-- The attempt is recorded where that is possible. -/
def recordTerminalHistoricalAttempt (item : PriceHistoryAssetWork) (span : DateSpan)
    (status : HistoricalPriceAttemptStatus) (errorCode : String) : Backfill Unit := do
  let attemptedAt ← retrievedAt deps
  let row := historicalAttemptUpsert item span status 0 attemptedAt none (some errorCode)
  let _ ← attempt (storeHistoricalPriceAttempt deps row)

def missingSpansAfterExactRecheck (item : PriceHistoryAssetWork) (span : DateSpan) :
    Backfill (List DateSpan) := do
  let existing ← loadDailyPriceDates deps
    (dailyPriceDateQuery deps currency item span.start span.finish)
  return missingDailySpansNewestFirst span existing

/-- The rows of the span that an answer of the provider gives. -/
def dailyPricePoints (item : PriceHistoryAssetWork) (span : DateSpan) (retrievedAt : ℤ)
    (prices : List CoinGeckoDailyPrice) : List DailyPricePoint :=
  (prices.filter fun price =>
    decide (span.start ≤ price.dateUtc ∧ price.dateUtc ≤ span.finish)).map fun price =>
      { assetId := item.assetId
        quoteCurrency := currency
        priceTimeUtc := price.priceTime
        dateUtc := price.dateUtc
        price := price.price
        providerAssetId := item.providerAssetId
        providerQuoteId := some (Text.toAsciiLowercase currency)
        licenseScope := deps.licenseScope
        retrievedAt := retrievedAt }

def fetchAndStoreSpan (item : PriceHistoryAssetWork) (span : DateSpan) :
    EStateM PriceHistoryFetchError World Unit := do
  let retrievedAt ← retrievedAt deps
  let prices ← fetchDailyPrices deps item (Text.toAsciiLowercase currency)
    (unixDayStart span.start) (unixDayStart (span.finish + 1))
  let rows := dailyPricePoints deps currency item span retrievedAt prices
  (storeDailyPricePoints deps rows).adaptExcept .failed
  let status := if rows.isEmpty then .successEmpty else .successWithPrices
  let row := historicalAttemptUpsert item span status rows.length retrievedAt none none
  (storeHistoricalPriceAttempt deps row).adaptExcept .failed

/-- The fetch in a turn of `fetch_and_store_span_with_retries` and how it ends the loop; there is
another turn, after a pause, where the provider is asked too often and a delay is left. -/
def trySpan (item : PriceHistoryAssetWork) (retryDelays : List ℕ) (currentSpan : DateSpan)
    (deferred : List PriceHistoryAssetSpanWork) : Backfill (Option FairSpanExecutionOutcome) := do
  match ← attempt (fetchAndStoreSpan deps currency item currentSpan) with
  | .ok () => return some ⟨.continue, deferred⟩
  | .error .historyLimit =>
    recordTerminalHistoricalAttempt deps item currentSpan .permanentFailure "history_limit"
    return some ⟨.stopAsset, []⟩
  | .error (.notFound _) =>
    recordTerminalHistoricalAttempt deps item currentSpan .permanentFailure "not_found"
    return some ⟨.stopAsset, []⟩
  | .error (.rateLimited _) =>
    match retryDelays with
    | _ :: _ => return none
    | [] =>
      recordTerminalHistoricalAttempt deps item currentSpan .rateLimited "rate_limited"
      return some ⟨.stopRun, []⟩
  | .error (.failed _) =>
    recordTerminalHistoricalAttempt deps item currentSpan .transientFailure "transient_failure"
    return some ⟨.continue, deferred⟩

/-- The loop of `fetch_and_store_span_with_retries`, which narrows the span or uses up a delay in
each turn that does not end it. -/
def retrySpan (item : PriceHistoryAssetWork) :
    ℕ → List ℕ → DateSpan → List PriceHistoryAssetSpanWork → Backfill FairSpanExecutionOutcome
  | 0, _, _, deferred => pure ⟨.continue, deferred⟩
  | turns + 1, retryDelays, currentSpan, deferred => do
      match ← missingSpansAfterExactRecheck deps currency item currentSpan with
      | [] => return ⟨.continue, deferred⟩
      | newest :: older =>
        if newest :: older ≠ [currentSpan] then
          retrySpan item turns rateLimitRetryDelays newest
            (older.map (fun span => ⟨item, span⟩) ++ deferred)
        else
          match ← trySpan deps currency item retryDelays currentSpan deferred with
          | some outcome => return outcome
          | none => retrySpan item turns retryDelays.tail currentSpan deferred

def fetchAndStoreMissingSpan (item : PriceHistoryAssetWork) (span : DateSpan) :
    Backfill FairSpanExecutionOutcome :=
  retrySpan deps currency item (3 * span.days + 3) rateLimitRetryDelays span []

/-- The deferred spans of an asset go before the next of its spans, or to the end. -/
def insertDeferred (key : String × String) (deferred queue : List PriceHistoryAssetSpanWork) :
    List PriceHistoryAssetSpanWork :=
  queue.takeWhile (fun queued => queued.item.assetKey ≠ key) ++ deferred ++
    queue.dropWhile fun queued => queued.item.assetKey ≠ key

/-- The queue of `execute_fair_span_work_with_deps`, with the assets stopped. -/
def drainQueue : ℕ → List (String × String) → List PriceHistoryAssetSpanWork → Backfill Unit
  | 0, _, _ => pure ()
  | _ + 1, _, [] => pure ()
  | turns + 1, stoppedAssets, entry :: queue =>
    if entry.item.assetKey ∈ stoppedAssets then drainQueue turns stoppedAssets queue
    else do
      let outcome ← fetchAndStoreMissingSpan deps currency entry.item entry.span
      match outcome.control with
      | .continue =>
        drainQueue turns stoppedAssets
          (insertDeferred entry.item.assetKey outcome.deferred queue)
      | .stopAsset => drainQueue turns (entry.item.assetKey :: stoppedAssets) queue
      | .stopRun => pure ()

/-- What the turns of a queue are counted by. -/
def queueWeight (queue : List PriceHistoryAssetSpanWork) : ℕ :=
  (queue.map fun entry => entry.span.weight).sum

def executeFairSpanWork (fairWork : List PriceHistoryAssetSpanWork) : Backfill Unit :=
  drainQueue deps currency (queueWeight fairWork + 1) [] fairWork

variable (work : List PriceHistoryAssetWork) (today : ℤ) (horizon : PriceHistoryHorizon)
  (now : ℤ)

/-- The body of the loop over the assets in `load_freshness_span_work_plan_with_deps`. -/
def loadFreshnessClassification (item : PriceHistoryAssetWork) :
    Backfill FreshnessWorkClassification := do
  let requestedStart := requestedStartDateForHorizon item.firstOwnedDate today horizon
  let window := freshnessWindow today requestedStart
  let existing ← loadDailyPriceDates deps
    (dailyPriceDateQuery deps currency item window.start window.finish)
  match freshnessMissingSpan window existing with
  | none => return coveredClassification item
  | some missingSpan =>
    let coveringAttempt ← latestHistoricalPriceAttempt deps
      ⟨item.assetId, missingSpan.start, missingSpan.finish⟩
    let cooldownAttempt ← latestHistoricalPriceCooldownAttempt deps
      ⟨item.assetId, cooldownMinAttemptedAt now⟩
    return classifyFreshnessCandidate
      ⟨item, missingSpan, selectFreshnessAttemptEvidence coveringAttempt cooldownAttempt now⟩ now

def loadFreshnessSpanWorkPlan : Backfill FreshnessSpanWorkPlan := do
  let classifications ← work.mapM (loadFreshnessClassification deps currency today horizon now)
  return freshnessSpanWorkPlan classifications

/-- The missing spans of a provider range. -/
def loadRangeSpans (item : PriceHistoryAssetWork) (range : DateSpan) :
    Backfill (List DateSpan) := do
  let existing ← loadDailyPriceDates deps
    (dailyPriceDateQuery deps currency item range.start range.finish)
  return missingDailySpansNewestFirst range existing

/-- All missing spans of an asset, newest first. -/
def loadAssetSpans (entry : PriceHistoryAssetWork × ℕ) : Backfill (ℕ × List DateSpan) := do
  let requestedStart := requestedStartDateForHorizon entry.1.firstOwnedDate today horizon
  let spans ← (backwardProviderRanges requestedStart today).mapM
    (loadRangeSpans deps currency entry.1)
  return (entry.2, spans.flatten)

def loadFairSpanWork : Backfill (List PriceHistoryAssetSpanWork) := do
  let perAssetSpans ← work.zipIdx.mapM (loadAssetSpans deps currency today horizon)
  return (fairMissingSpanWork perAssetSpans).filterMap fun workItem =>
    work[workItem.assetIndex]?.map fun item => ⟨item, workItem.span⟩

def runBackfillForWork : Backfill Unit := do
  let freshnessPlan ← loadFreshnessSpanWorkPlan deps currency work today horizon now
  if freshnessPlan.work ≠ [] then
    executeFairSpanWork deps currency freshnessPlan.work
  else if freshnessPlan.hasRateLimitCooldownBlocker then
    pure ()
  else
    let fairWork ← loadFairSpanWork deps currency work today horizon
    executeFairSpanWork deps currency fairWork

end Calls

end Bitgarth.Prices
