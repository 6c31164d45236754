import Bitgarth.Prices.Backfill

/-! # What the calls of a backfill run do

Loading leaves the store and the requests as they are and fails only where the database does; the
first pass over the assets finds what their classifications in the store are. A fetch sends one
request, and only what it asks for comes to be priced.
-/

namespace Bitgarth.Prices

open Outcomes

/-- No load of the run fails. -/
def PriceHistoryBackfillDeps.LoadsSucceed (deps : PriceHistoryBackfillDeps) : Prop :=
  (∀ call query, deps.loadDatesError call query = none) ∧
    (∀ call query, deps.loadAttemptError call query = none) ∧
      ∀ call query, deps.loadCooldownAttemptError call query = none

/-- The request for a span of an asset. -/
def spanRequest (currency : String) (item : PriceHistoryAssetWork) (span : DateSpan) :
    PriceRequest where
  assetId := item.assetId
  providerAssetId := item.providerAssetId
  quoteCurrency := Text.toAsciiLowercase currency
  fromUnixSeconds := unixDayStart span.start
  toUnixSeconds := unixDayStart (span.finish + 1)

/-- Whether a request asks for all of a date. -/
def PriceRequest.AsksFor (request : PriceRequest) (target : PriceTarget) : Prop :=
  request.assetId = target.assetId ∧ request.providerAssetId = target.providerAssetId ∧
    request.quoteCurrency = Text.toAsciiLowercase target.quoteCurrency ∧
      request.fromUnixSeconds ≤ unixDayStart target.date ∧
        unixDayStart (target.date + 1) ≤ request.toUnixSeconds

def PriceTarget.assetKey (target : PriceTarget) : String × String :=
  (target.assetId, target.providerAssetId)

theorem spanRequest_asksFor {currency : String} {item : PriceHistoryAssetWork} {span : DateSpan}
    {target : PriceTarget} (isKey : item.assetKey = target.assetKey)
    (isCurrency : currency = target.quoteCurrency) (holds : span.Holds target.date) :
    (spanRequest currency item span).AsksFor target := by
  obtain ⟨asset, provider⟩ := Prod.mk.injEq .. ▸ isKey
  obtain ⟨after, before⟩ := holds
  refine ⟨asset, provider, by rw [← isCurrency]; rfl, ?_, ?_⟩
  · show unixDayStart span.start ≤ unixDayStart target.date
    unfold unixDayStart
    omega
  · show unixDayStart (target.date + 1) ≤ unixDayStart (span.finish + 1)
    unfold unixDayStart
    omega

/-- Neither the store nor the requests have changed. -/
def World.Same (before after : World) : Prop :=
  after.store = before.store ∧ after.requests = before.requests

/-- Neither the prices nor the requests have changed. -/
def World.SamePrices (before after : World) : Prop :=
  after.store.prices = before.store.prices ∧ after.requests = before.requests

theorem World.Same.trans {first second third : World} (left : first.Same second)
    (right : second.Same third) : first.Same third :=
  ⟨right.1.trans left.1, right.2.trans left.2⟩

theorem World.Same.samePrices {before after : World} (same : before.Same after) :
    before.SamePrices after :=
  ⟨congrArg PriceStore.prices same.1, same.2⟩

theorem World.SamePrices.trans {first second third : World} (left : first.SamePrices second)
    (right : second.SamePrices third) : first.SamePrices third :=
  ⟨right.1.trans left.1, right.2.trans left.2⟩

section Calls

variable {deps : PriceHistoryBackfillDeps} {currency : String} {world : World}

theorem ensures_nextCall {ε : Type} {failed : ε → World → Prop} :
    Ensures (nextCall : EStateM ε World ℕ) world (fun _ after => world.Same after) failed :=
  And.intro rfl rfl

theorem ensures_checkError {report : Option String} :
    Ensures (checkError report) world (fun _ after => after = world)
      (fun _ after => report ≠ none ∧ after = world) := by
  cases report with
  | none => exact Eq.refl world
  | some message => exact And.intro (Option.some_ne_none message) rfl

theorem ensures_validate {context : String} {fromDate toDate : ℤ} :
    Ensures (validateHistoricalPriceAttemptSpan context fromDate toDate) world
      (fun _ after => after = world) (fun _ after => toDate < fromDate ∧ after = world) := by
  unfold validateHistoricalPriceAttemptSpan
  split
  · rename_i backwards
    exact And.intro backwards rfl
  · exact Eq.refl world

theorem ensures_retrievedAt {ε : Type} {failed : ε → World → Prop} :
    Ensures (retrievedAt deps : EStateM ε World ℤ) world (fun _ after => world.Same after)
      failed := by
  refine ensures_bind ensures_nextCall fun call after same => ?_
  exact ensures_pure same

/-- How a load may fail. -/
def LoadFails (deps : PriceHistoryBackfillDeps) (world : World) (_ : String) (after : World) :
    Prop :=
  ¬deps.LoadsSucceed ∧ world.Same after

theorem ensures_loadDailyPriceDates (query : DailyPriceDateQuery) :
    Ensures (loadDailyPriceDates deps query) world
      (fun dates after => dates = world.store.dailyPriceDates query ∧ world.Same after)
      (LoadFails deps world) := by
  refine ensures_bind ensures_nextCall fun call called same => ?_
  refine ensures_bind (ensures_checkError.mono (fun _ _ => id) ?_) ?_
  · rintro message after ⟨report, rfl⟩
    exact ⟨fun succeeds => report (succeeds.1 call query), same⟩
  · rintro _ after rfl
    exact And.intro (congrArg (PriceStore.dailyPriceDates · query) same.1) same

theorem ensures_latestHistoricalPriceAttempt {query : HistoricalPriceAttemptQuery}
    (ordered : query.fromDate ≤ query.toDate) :
    Ensures (latestHistoricalPriceAttempt deps query) world
      (fun attempt after => attempt = world.store.latestAttempt query ∧ world.Same after)
      (LoadFails deps world) := by
  refine ensures_bind ensures_nextCall fun call called same => ?_
  refine ensures_bind (ensures_validate.mono (fun _ _ => id) ?_) ?_
  · rintro message after ⟨backwards, _⟩
    omega
  · rintro _ _ rfl
    refine ensures_bind (ensures_checkError.mono (fun _ _ => id) ?_) ?_
    · rintro message after ⟨report, rfl⟩
      exact ⟨fun succeeds => report (succeeds.2.1 call query), same⟩
    · rintro _ after rfl
      exact And.intro (congrArg (PriceStore.latestAttempt · query) same.1) same

theorem ensures_latestHistoricalPriceCooldownAttempt
    (query : HistoricalPriceAttemptCooldownQuery) :
    Ensures (latestHistoricalPriceCooldownAttempt deps query) world
      (fun attempt after => attempt = world.store.latestCooldownAttempt query ∧ world.Same after)
      (LoadFails deps world) := by
  refine ensures_bind ensures_nextCall fun call called same => ?_
  refine ensures_bind (ensures_checkError.mono (fun _ _ => id) ?_) ?_
  · rintro message after ⟨report, rfl⟩
    exact ⟨fun succeeds => report (succeeds.2.2 call query), same⟩
  · rintro _ after rfl
    exact And.intro (congrArg (PriceStore.latestCooldownAttempt · query) same.1) same

theorem ensures_missingSpansAfterExactRecheck (item : PriceHistoryAssetWork) (span : DateSpan) :
    Ensures (missingSpansAfterExactRecheck deps currency item span) world
      (fun spans after => spans = missingDailySpansNewestFirst span
        (world.store.dailyPriceDates
          (dailyPriceDateQuery deps currency item span.start span.finish)) ∧ world.Same after)
      (LoadFails deps world) := by
  refine ensures_bind (ensures_loadDailyPriceDates _) ?_
  rintro _ after ⟨rfl, same⟩
  exact ensures_pure ⟨rfl, same⟩

theorem ensures_storeDailyPricePoints (rows : List DailyPricePoint) :
    Ensures (storeDailyPricePoints deps rows) world
      (fun _ after => after.store.prices = upsertDailyPricePoints rows world.store.prices ∧
        after.requests = world.requests)
      (fun _ after => world.SamePrices after) := by
  refine ensures_bind ensures_nextCall fun call called same => ?_
  refine ensures_bind (ensures_checkError.mono (fun _ _ => id) ?_) ?_
  · rintro message after ⟨_, rfl⟩
    exact same.samePrices
  · rintro _ after rfl
    exact And.intro (congrArg (upsertDailyPricePoints rows ·.prices) same.1) same.2

theorem ensures_storeHistoricalPriceAttempt (row : HistoricalPriceAttempt) :
    Ensures (storeHistoricalPriceAttempt deps row) world (fun _ after => world.SamePrices after)
      (fun _ after => world.SamePrices after) := by
  refine ensures_bind ensures_nextCall fun call called same => ?_
  refine ensures_bind (ensures_validate.mono (fun _ _ => id) ?_) ?_
  · rintro message after ⟨_, rfl⟩
    exact same.samePrices
  · rintro _ _ rfl
    refine ensures_bind (ensures_checkError.mono (fun _ _ => id) ?_) ?_
    · rintro message after ⟨_, rfl⟩
      exact same.samePrices
    · rintro _ after rfl
      exact same.samePrices

theorem ensures_recordTerminalHistoricalAttempt (item : PriceHistoryAssetWork) (span : DateSpan)
    (status : HistoricalPriceAttemptStatus) (errorCode : String)
    {failed : String → World → Prop} :
    Ensures (recordTerminalHistoricalAttempt deps item span status errorCode) world
      (fun _ after => world.SamePrices after) failed := by
  refine ensures_bind ensures_retrievedAt fun attemptedAt called same => ?_
  have recorded : Ensures (attempt (storeHistoricalPriceAttempt deps (historicalAttemptUpsert item
      span status 0 attemptedAt none (some errorCode)))) called
      (fun _ after => called.SamePrices after) failed :=
    ensures_attempt (ensures_storeHistoricalPriceAttempt _)
  refine ensures_bind recorded ?_
  intro _ after kept
  exact ensures_pure (same.samePrices.trans kept)

/-- What a fetch has done: one request, and prices for nothing it does not ask for. -/
structure Asked (currency : String) (item : PriceHistoryAssetWork) (span : DateSpan)
    (before after : World) : Prop where
  requests : after.requests = before.requests ++ [spanRequest currency item span]
  priced : ∀ target, after.store.Priced target →
    before.store.Priced target ∨ (spanRequest currency item span).AsksFor target

theorem Asked.of_samePrices {item : PriceHistoryAssetWork} {span : DateSpan}
    {before between after : World} (asked : Asked currency item span before between)
    (same : between.SamePrices after) : Asked currency item span before after where
  requests := same.2.trans asked.requests
  priced target := by
    rintro ⟨row, member, prices⟩
    exact asked.priced target ⟨row, same.1 ▸ member, prices⟩

theorem asksFor_of_mem_dailyPricePoints {item : PriceHistoryAssetWork} {span : DateSpan}
    {retrieved : ℤ} {prices : List CoinGeckoDailyPrice} {row : DailyPricePoint}
    (member : row ∈ dailyPricePoints deps currency item span retrieved prices)
    {target : PriceTarget} (isTarget : row.Prices target) :
    (spanRequest currency item span).AsksFor target := by
  obtain ⟨price, inside, rfl⟩ := List.mem_map.mp member
  obtain ⟨asset, quote, provider, _, isDate⟩ := isTarget
  refine spanRequest_asksFor (Prod.ext asset provider) quote ?_
  rw [← isDate]
  exact of_decide_eq_true (List.mem_filter.mp inside).2

/-- What the provider is asked for a span. -/
def askedOf (deps : PriceHistoryBackfillDeps) (currency : String) (item : PriceHistoryAssetWork)
    (span : DateSpan) (call : ℕ) : Except PriceHistoryFetchError (List CoinGeckoDailyPrice) :=
  deps.fetchDailyPrices call item.providerAssetId (Text.toAsciiLowercase currency)
    (unixDayStart span.start) (unixDayStart (span.finish + 1))

theorem ensures_fetchDailyPrices {item : PriceHistoryAssetWork} {span : DateSpan} :
    Ensures (fetchDailyPrices deps item (Text.toAsciiLowercase currency)
      (unixDayStart span.start) (unixDayStart (span.finish + 1))) world
      (fun _ after => after.store = world.store ∧
        after.requests = world.requests ++ [spanRequest currency item span])
      (fun error after => (∃ call, askedOf deps currency item span call = .error error) ∧
        after.store = world.store ∧
          after.requests = world.requests ++ [spanRequest currency item span]) := by
  cases answer : askedOf deps currency item span world.calls with
  | ok prices =>
    unfold askedOf at answer
    simp only [Ensures, fetchDailyPrices, answer]
    exact ⟨trivial, rfl⟩
  | error error =>
    have answered := answer
    unfold askedOf at answer
    simp only [Ensures, fetchDailyPrices, answer]
    exact ⟨⟨world.calls, answered⟩, trivial, rfl⟩

theorem ensures_fetchAndStoreSpan {item : PriceHistoryAssetWork} {span : DateSpan} :
    Ensures (fetchAndStoreSpan deps currency item span) world
      (fun _ after => Asked currency item span world after)
      (fun error after => ((∃ message, error = .failed message) ∨
          ∃ call, askedOf deps currency item span call = .error error) ∧
        Asked currency item span world after) := by
  refine ensures_bind ensures_retrievedAt fun retrieved called same => ?_
  have asked : ∀ after : World, after.store = called.store →
      after.requests = called.requests ++ [spanRequest currency item span] →
      Asked currency item span world after := by
    intro after store requests
    refine ⟨by rw [requests, same.2], fun target priced => .inl ?_⟩
    rwa [store, same.1] at priced
  refine ensures_bind (ensures_fetchDailyPrices.mono (fun _ _ => id) ?_) ?_
  · rintro error after ⟨answered, store, requests⟩
    exact ⟨.inr answered, asked after store requests⟩
  rintro prices fetched ⟨store, requests⟩
  refine ensures_bind (ensures_adaptExcept ((ensures_storeDailyPricePoints _).mono
    (fun _ _ => id) ?_)) ?_
  · intro message after kept
    exact ⟨.inl ⟨message, rfl⟩, (asked fetched store requests).of_samePrices kept⟩
  rintro _ stored ⟨written, kept⟩
  have askedStored : Asked currency item span world stored := by
    refine ⟨?_, ?_⟩
    · rw [kept]
      exact (asked fetched store requests).requests
    · rintro target ⟨row, member, isTarget⟩
      rw [written] at member
      rcases mem_upsertDailyPricePoints member with old | new
      · exact (asked fetched store requests).priced target ⟨row, old, isTarget⟩
      · exact .inr (asksFor_of_mem_dailyPricePoints new isTarget)
  refine ensures_adaptExcept ((ensures_storeHistoricalPriceAttempt _).mono ?_ ?_)
  · intro _ after kept
    exact askedStored.of_samePrices kept
  · intro message after kept
    exact ⟨.inl ⟨message, rfl⟩, askedStored.of_samePrices kept⟩

end Calls

end Bitgarth.Prices
