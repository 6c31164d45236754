import Bitgarth.Prices.BackfillQueue
import Bitgarth.Prices.SpanExecution
import Bitgarth.Prices.SpanPlans

/-! # How far a run over planned spans has come

Dates are stored by the run and by others, and none goes. What is left of a queue keeps the newest
spans of each asset first and lies behind what was requested; a planned date is requested, stored,
of a refused asset or still left.
-/

namespace Bitgarth.Prices.SpanExecution

open Outcomes

variable {σ : Type}

/-- The date of a query's asset. -/
def queryTarget (query : DailyPriceDateQuery) (date : ℤ) : PriceTarget :=
  ⟨query.assetId, query.providerAssetId, query.quoteCurrency, query.licenseScope, date⟩

/-- The dates with a stored price in the states around a run: a load tells those of its query, and
no call makes one go, whatever others store meanwhile. -/
structure StoredDates (deps : PriceHistoryBackfillDeps σ) where
  Stored : σ → PriceTarget → Prop
  load_exact : ∀ query before, Ensures (deps.loadDailyPriceDates query) before
    (fun dates _ => ∀ date, query.start ≤ date → date ≤ query.finish →
      (date ∈ dates ↔ Stored before (queryTarget query date))) fun _ _ => True
  load_grows : ∀ query before, Ensures (deps.loadDailyPriceDates query) before
    (fun _ after => Stored before ≤ Stored after) fun _ after => Stored before ≤ Stored after
  lane_grows : ∀ before, Stored before ≤ Stored (deps.awaitRequestLane before)
  fetch_grows : ∀ provider quote fromSeconds toSeconds before,
    Ensures (deps.fetchDailyPrices provider quote fromSeconds toSeconds) before
      (fun _ after => Stored before ≤ Stored after) fun _ after => Stored before ≤ Stored after
  points_grow : ∀ rows before, Ensures (deps.upsertDailyPricePoints rows) before
    (fun _ after => Stored before ≤ Stored after) fun _ after => Stored before ≤ Stored after
  attempts_grow : ∀ row before, Ensures (deps.upsertHistoricalPriceAttempt row) before
    (fun _ after => Stored before ≤ Stored after) fun _ after => Stored before ≤ Stored after
  sleep_grows : ∀ delay before, Stored before ≤ Stored (deps.sleepAfterRateLimit delay before)

/-- A request with its answer. -/
abbrev Sent : Type := PriceRequest × Except PriceHistoryFetchError (List CoinGeckoDailyPrice)

namespace Event

/-- The request that an event is. -/
def sent? : Event σ → Option Sent
  | .loaded _ _ => none
  | .requested request _ answer => some (request, answer)

end Event

namespace Execution

/-- The requests of a run in their order. -/
def sent (run : Execution σ) : List Sent := run.events.filterMap Event.sent?

end Execution

namespace Sent

def assetKey (sent : Sent) : String × String := (sent.1.assetId, sent.1.providerAssetId)

def Succeeded (sent : Sent) : Prop := ∃ prices, sent.2 = .ok prices

def RateLimited (sent : Sent) : Prop := ∃ message, sent.2 = .error (.rateLimited message)

/-- The provider has no prices of the asset, or no older ones. -/
def Refused (sent : Sent) : Prop :=
  sent.2 = .error .historyLimit ∨ ∃ message, sent.2 = .error (.notFound message)

/-- A later request for the asset is for older dates, or tries again what the provider was asked for
too often. -/
def Precedes (sent : Sent) (request : PriceRequest) : Prop :=
  sent.assetKey = (request.assetId, request.providerAssetId) →
    request.toUnixSeconds ≤ sent.1.fromUnixSeconds ∨
      sent.RateLimited ∧ sent.1.fromUnixSeconds ≤ request.fromUnixSeconds ∧
        request.toUnixSeconds ≤ sent.1.toUnixSeconds

end Sent

/-- The spans of each asset come newest first. -/
def NewestFirstWork (queue : List PriceHistoryAssetSpanWork) : Prop :=
  queue.Pairwise fun newer older =>
    newer.item.assetKey = older.item.assetKey → older.span.finish < newer.span.start

section Run

variable {deps : PriceHistoryBackfillDeps σ} (storage : StoredDates deps) (currency : String)

/-- Whether the run looks for prices of the date's kind. -/
def Sought (deps : PriceHistoryBackfillDeps σ) (currency : String) (target : PriceTarget) : Prop :=
  currency = target.quoteCurrency ∧ deps.licenseScope = target.licenseScope

/-- A load that found none of the dates a request asks for. -/
def FoundMissing (request : PriceRequest) : Event σ → Prop
  | .loaded query before => ∀ target, Sought deps currency target → request.AsksFor target →
      queryTarget query target.date = target ∧ query.start ≤ target.date ∧
        target.date ≤ query.finish ∧ ¬ storage.Stored before target
  | .requested _ _ _ => False

/-- Right before each request, a load found none of its dates. -/
def Rechecked (events : List (Event σ)) : Prop :=
  ∀ index request before answer, events[index]? = some (.requested request before answer) →
    ∃ earlier recheck, index = earlier + 1 ∧ events[earlier]? = some recheck ∧
      FoundMissing storage currency request recheck

/-- What holds of the requests of a run at any time. -/
structure Orderly (run : Execution σ) : Prop where
  rechecked : Rechecked storage currency run.events
  ordered : run.sent.Pairwise fun first second => first.Precedes second.1

/-- A date was requested, or is stored, or the provider refused its asset. -/
def Served (run : Execution σ) (target : PriceTarget) : Prop :=
  (∃ sent ∈ run.sent, sent.1.AsksFor target) ∨ storage.Stored run.around target ∨
    ∃ sent ∈ run.sent, sent.assetKey = target.assetKey ∧ sent.Refused

/-- The last thing a run did is a request that the provider answered was one too many. -/
def Halted (run : Execution σ) : Prop :=
  ∃ earlier request before message,
    run.events = earlier ++ [.requested request before (.error (.rateLimited message))]

/-- A run that has these entries left of its plan. -/
structure Progress (planned remaining : List PriceHistoryAssetSpanWork) (run : Execution σ) :
    Prop extends Orderly storage currency run where
  newest_first : NewestFirstWork remaining
  ahead : ∀ sent ∈ run.sent, ∀ entry ∈ remaining,
    sent.Precedes (spanRequest currency entry.item entry.span)
  covered : ∀ target, Sought deps currency target → Covered target planned →
    Served storage run target ∨ Covered target remaining

/-- The last thing a run did is a load that found none of the dates of a span. -/
def JustRechecked (item : PriceHistoryAssetWork) (span : DateSpan) (run : Execution σ) : Prop :=
  ∃ earlier before,
    run.events = earlier ++ [.loaded (dailyPriceDateQuery deps currency item span.start span.finish)
      before] ∧
    ∀ date, span.Holds date → ¬ storage.Stored before
      (queryTarget (dailyPriceDateQuery deps currency item span.start span.finish) date)

end Run

section Requests

variable {currency : String} {item : PriceHistoryAssetWork} {span narrower : DateSpan}

theorem holds_of_asksFor {target : PriceTarget}
    (asks : (spanRequest currency item span).AsksFor target) :
    item.assetKey = target.assetKey ∧ span.Holds target.date := by
  obtain ⟨asset, provider, -, after, before⟩ := asks
  have starts : unixDayStart span.start ≤ unixDayStart target.date := after
  have ends : unixDayStart (target.date + 1) ≤ unixDayStart (span.finish + 1) := before
  unfold unixDayStart at starts ends
  refine ⟨Prod.ext asset provider, ?_, ?_⟩
  · omega
  · omega

theorem Sent.Precedes.narrow {sent : Sent}
    (precedes : sent.Precedes (spanRequest currency item span))
    (starts : span.start ≤ narrower.start) (ends : narrower.finish ≤ span.finish) :
    sent.Precedes (spanRequest currency item narrower) := by
  intro same
  have startsBefore : (spanRequest currency item span).fromUnixSeconds ≤
      (spanRequest currency item narrower).fromUnixSeconds := by
    show unixDayStart span.start ≤ unixDayStart narrower.start
    unfold unixDayStart
    omega
  have endsBefore : (spanRequest currency item narrower).toUnixSeconds ≤
      (spanRequest currency item span).toUnixSeconds := by
    show unixDayStart (narrower.finish + 1) ≤ unixDayStart (span.finish + 1)
    unfold unixDayStart
    omega
  rcases precedes same with older | ⟨limited, after, before⟩
  · exact .inl (endsBefore.trans older)
  · exact .inr ⟨limited, after.trans startsBefore, endsBefore.trans before⟩

theorem precedes_of_older {other : PriceHistoryAssetWork}
    {answer : Except PriceHistoryFetchError (List CoinGeckoDailyPrice)}
    (older : item.assetKey = other.assetKey → narrower.finish < span.start) :
    Sent.Precedes (spanRequest currency item span, answer)
      (spanRequest currency other narrower) := by
  intro same
  have before := older same
  left
  show unixDayStart (narrower.finish + 1) ≤ unixDayStart span.start
  unfold unixDayStart
  omega

theorem not_asksFor_of_precedes {first second : Sent} {target : PriceTarget}
    (precedes : first.Precedes second.1) (succeeded : first.Succeeded)
    (asks : first.1.AsksFor target) : ¬ second.1.AsksFor target := by
  rintro ⟨asset, provider, _, after, before⟩
  obtain ⟨firstAsset, firstProvider, -, firstAfter, -⟩ := asks
  obtain ⟨prices, answered⟩ := succeeded
  have same : first.assetKey = (second.1.assetId, second.1.providerAssetId) :=
    Prod.ext (firstAsset.trans asset.symm) (firstProvider.trans provider.symm)
  rcases precedes same with older | ⟨⟨message, limited⟩, -, -⟩
  · unfold unixDayStart at *
    omega
  · rw [answered] at limited
    cases limited

end Requests

section Steps

variable {deps : PriceHistoryBackfillDeps σ} {storage : StoredDates deps} {currency : String}
  {run after : Execution σ} {planned remaining rest : List PriceHistoryAssetSpanWork}
  {item : PriceHistoryAssetWork} {span : DateSpan}

theorem sent_append (around : σ) (earlier later : List (Event σ)) :
    (Execution.mk around (earlier ++ later)).sent =
      earlier.filterMap Event.sent? ++ later.filterMap Event.sent? :=
  List.filterMap_append ..

/-- Nothing was loaded or requested, and no stored date has gone. -/
structure Unchanged (storage : StoredDates deps) (run after : Execution σ) : Prop where
  events : after.events = run.events
  grown : storage.Stored run.around ≤ storage.Stored after.around

theorem Unchanged.sent (unchanged : Unchanged storage run after) : after.sent = run.sent :=
  congrArg (List.filterMap Event.sent?) unchanged.events

theorem Unchanged.orderly (unchanged : Unchanged storage run after)
    (orderly : Orderly storage currency run) : Orderly storage currency after where
  rechecked := unchanged.events ▸ orderly.rechecked
  ordered := unchanged.sent ▸ orderly.ordered

theorem Served.mono {target : PriceTarget} (served : Served storage run target)
    (requested : run.sent ⊆ after.sent)
    (grown : storage.Stored run.around ≤ storage.Stored after.around) :
    Served storage after target := by
  rcases served with ⟨sent, member, asks⟩ | stored | ⟨sent, member, refused⟩
  · exact .inl ⟨sent, requested member, asks⟩
  · exact .inr (.inl (grown target stored))
  · exact .inr (.inr ⟨sent, requested member, refused⟩)

theorem Unchanged.progress (unchanged : Unchanged storage run after)
    (progress : Progress storage currency planned remaining run) :
    Progress storage currency planned remaining after where
  toOrderly := unchanged.orderly progress.toOrderly
  newest_first := progress.newest_first
  ahead := unchanged.sent ▸ progress.ahead
  covered target sought isPlanned := by
    rcases progress.covered target sought isPlanned with served | covered
    · exact .inl (served.mono (unchanged.sent ▸ List.Subset.refl _) unchanged.grown)
    · exact .inr covered

theorem Rechecked.append {events : List (Event σ)} {event : Event σ}
    (rechecked : Rechecked storage currency events)
    (last : ∀ request before answer, event = .requested request before answer →
      ∃ earlier recheck, events = earlier ++ [recheck] ∧
        FoundMissing storage currency request recheck) :
    Rechecked storage currency (events ++ [event]) := by
  intro index request before answer found
  rcases Nat.lt_or_ge index events.length with early | late
  · rw [List.getElem?_append_left early] at found
    obtain ⟨earlier, recheck, rfl, present, missing⟩ := rechecked index request before answer found
    refine ⟨earlier, recheck, rfl, ?_, missing⟩
    rw [List.getElem?_append_left (by omega), present]
  · rw [List.getElem?_append_right late] at found
    have inside := (List.getElem?_eq_some_iff.mp found).1
    rw [List.length_singleton] at inside
    obtain rfl : index = events.length := by omega
    rw [Nat.sub_self, List.getElem?_cons_zero] at found
    obtain ⟨earlier, recheck, rfl, missing⟩ := last request before answer (Option.some.inj found)
    refine ⟨earlier.length, recheck, by simp, ?_, missing⟩
    rw [List.getElem?_append_left (by simp), List.getElem?_append_right le_rfl, Nat.sub_self,
      List.getElem?_cons_zero]

theorem Orderly.loaded (orderly : Orderly storage currency run) (query : DailyPriceDateQuery)
    (around before : σ) :
    Orderly storage currency ⟨around, run.events ++ [.loaded query before]⟩ where
  rechecked := orderly.rechecked.append nofun
  ordered := by
    rw [sent_append, List.filterMap_cons_none rfl, List.filterMap_nil, List.append_nil]
    exact orderly.ordered

theorem sent_requested (around before : σ) (request : PriceRequest)
    (answer : Except PriceHistoryFetchError (List CoinGeckoDailyPrice)) :
    (Execution.mk around (run.events ++ [.requested request before answer])).sent =
      run.sent ++ [(request, answer)] := by
  rw [sent_append]
  rfl

theorem Orderly.requested (orderly : Orderly storage currency run)
    (rechecked : JustRechecked storage currency item span run)
    (ahead : ∀ sent ∈ run.sent, sent.Precedes (spanRequest currency item span))
    (around before : σ) (answer : Except PriceHistoryFetchError (List CoinGeckoDailyPrice)) :
    Orderly storage currency
      ⟨around, run.events ++ [.requested (spanRequest currency item span) before answer]⟩ where
  rechecked := by
    apply orderly.rechecked.append
    rintro request state given ⟨⟩
    obtain ⟨earlier, checked, events, missing⟩ := rechecked
    refine ⟨earlier, _, events, ?_⟩
    intro target sought asks
    obtain ⟨isKey, holds⟩ := holds_of_asksFor asks
    obtain ⟨asset, provider⟩ := Prod.mk.inj isKey
    have same : queryTarget (dailyPriceDateQuery deps currency item span.start span.finish)
        target.date = target := by
      unfold queryTarget dailyPriceDateQuery
      rw [asset, provider, sought.1, sought.2]
    have absent := missing target.date holds
    rw [same] at absent
    exact ⟨same, holds.1, holds.2, absent⟩
  ordered := by
    rw [sent_requested]
    apply List.pairwise_append.mpr
    refine ⟨orderly.ordered, List.pairwise_singleton _ _, ?_⟩
    intro sent member _ isNew
    rw [List.mem_singleton.mp isNew]
    exact ahead sent member

theorem Progress.rechecked_span
    (progress : Progress storage currency planned (⟨item, span⟩ :: rest) run) {dates : List ℤ}
    (exact : ∀ date, span.start ≤ date → date ≤ span.finish →
      (date ∈ dates ↔ storage.Stored run.around
        (queryTarget (dailyPriceDateQuery deps currency item span.start span.finish) date)))
    {around : σ} (grown : storage.Stored run.around ≤ storage.Stored around)
    (query : DailyPriceDateQuery) (before : σ) :
    Progress storage currency planned
      ((missingDailySpansNewestFirst span dates).map (fun missing => ⟨item, missing⟩) ++ rest)
      ⟨around, run.events ++ [.loaded query before]⟩ where
  toOrderly := progress.toOrderly.loaded query around before
  newest_first := by
    have whole := List.pairwise_cons.mp progress.newest_first
    apply List.pairwise_append.mpr
    refine ⟨?_, whole.2, ?_⟩
    · rw [List.pairwise_map]
      apply List.Pairwise.imp _ newestFirst_missingDailySpansNewestFirst
      intro newer older before _
      exact before
    · intro newer isMissing older isLater same
      obtain ⟨missing, found, rfl⟩ := List.mem_map.mp isMissing
      exact lt_of_lt_of_le (whole.1 older isLater same) (within_of_mem_newestFirst found).1
  ahead := by
    rw [sent_append, List.filterMap_cons_none rfl, List.filterMap_nil, List.append_nil]
    intro sent member entry left
    rcases List.mem_append.mp left with isMissing | isLater
    · obtain ⟨missing, found, rfl⟩ := List.mem_map.mp isMissing
      obtain ⟨starts, ends⟩ := within_of_mem_newestFirst found
      exact (progress.ahead sent member _ (.head _)).narrow starts ends
    · exact progress.ahead sent member entry (.tail _ isLater)
  covered := by
    intro target sought isPlanned
    have requested : run.sent ⊆
        (Execution.mk around (run.events ++ [.loaded query before])).sent := by
      rw [sent_append]
      exact List.subset_append_left _ _
    rcases progress.covered target sought isPlanned with served | ⟨entry, left, isKey, holds⟩
    · exact .inl (served.mono requested grown)
    · rcases List.mem_cons.mp left with rfl | isLater
      · obtain ⟨asset, provider⟩ := Prod.mk.inj isKey
        have same : queryTarget (dailyPriceDateQuery deps currency item span.start span.finish)
            target.date = target := by
          unfold queryTarget dailyPriceDateQuery
          rw [asset, provider, sought.1, sought.2]
        have told := exact target.date holds.1 holds.2
        rw [same] at told
        by_cases stored : target.date ∈ dates
        · exact .inl (.inr (.inl (grown target (told.mp stored))))
        · obtain ⟨missing, found, inMissing⟩ :=
            (exists_holds_missingDailySpansNewestFirst target.date).mpr ⟨holds, stored⟩
          exact .inr ⟨⟨item, missing⟩,
            List.mem_append_left _ (List.mem_map.mpr ⟨missing, found, rfl⟩), isKey, inMissing⟩
      · exact .inr ⟨entry, List.mem_append_right _ isLater, isKey, holds⟩

section Requested

variable (progress : Progress storage currency planned (⟨item, span⟩ :: rest) run)
  (rechecked : JustRechecked storage currency item span run) {around : σ}
  (grown : storage.Stored run.around ≤ storage.Stored around) (before : σ)
  (answer : Except PriceHistoryFetchError (List CoinGeckoDailyPrice))

include progress in
theorem Progress.precedes_rest : ∀ entry ∈ rest,
    Sent.Precedes (spanRequest currency item span, answer)
      (spanRequest currency entry.item entry.span) := by
  intro entry left
  apply precedes_of_older
  exact List.rel_of_pairwise_cons progress.newest_first left

include grown in
theorem Served.requested {target : PriceTarget} (served : Served storage run target) :
    Served storage
      ⟨around, run.events ++ [.requested (spanRequest currency item span) before answer]⟩
        target := by
  apply served.mono _ grown
  rw [sent_requested]
  exact List.subset_append_left _ _

include progress rechecked in
theorem Progress.orderly_requested (around : σ) :
    Orderly storage currency
      ⟨around, run.events ++ [.requested (spanRequest currency item span) before answer]⟩ :=
  progress.toOrderly.requested rechecked
    (fun sent member => progress.ahead sent member _ (.head _)) around before answer

include progress rechecked grown in
theorem Progress.requested :
    Progress storage currency planned rest
      ⟨around, run.events ++ [.requested (spanRequest currency item span) before answer]⟩ where
  toOrderly := progress.orderly_requested rechecked before answer around
  newest_first := (List.pairwise_cons.mp progress.newest_first).2
  ahead := by
    rw [sent_requested]
    intro sent member entry left
    rcases List.mem_append.mp member with isOld | isNew
    · exact progress.ahead sent isOld entry (.tail _ left)
    · rw [List.mem_singleton.mp isNew]
      exact progress.precedes_rest answer entry left
  covered := by
    intro target sought isPlanned
    rcases progress.covered target sought isPlanned with served | ⟨entry, left, isKey, holds⟩
    · exact .inl (served.requested grown before answer)
    · rcases List.mem_cons.mp left with rfl | isLater
      · left
        left
        refine ⟨(spanRequest currency item span, answer), ?_,
          spanRequest_asksFor isKey sought.1 holds⟩
        rw [sent_requested]
        exact List.mem_append_right _ List.mem_cons_self
      · exact .inr ⟨entry, isLater, isKey, holds⟩

include progress rechecked grown in
theorem Progress.rateLimited (limited : ∃ message, answer = .error (.rateLimited message)) :
    Progress storage currency planned (⟨item, span⟩ :: rest)
      ⟨around, run.events ++ [.requested (spanRequest currency item span) before answer]⟩ where
  toOrderly := progress.orderly_requested rechecked before answer around
  newest_first := progress.newest_first
  ahead := by
    rw [sent_requested]
    intro sent member entry left
    rcases List.mem_append.mp member with isOld | isNew
    · exact progress.ahead sent isOld entry left
    · rw [List.mem_singleton.mp isNew]
      rcases List.mem_cons.mp left with rfl | isLater
      · exact fun _ => .inr ⟨limited, le_rfl, le_rfl⟩
      · exact progress.precedes_rest answer entry isLater
  covered := by
    intro target sought isPlanned
    rcases progress.covered target sought isPlanned with served | covered
    · exact .inl (served.requested grown before answer)
    · exact .inr covered

end Requested

theorem Progress.drop {dropped : List PriceHistoryAssetSpanWork} {key : String × String}
    (progress : Progress storage currency planned (dropped ++ rest) run)
    (isKey : ∀ entry ∈ dropped, entry.item.assetKey = key)
    (refused : ∃ sent ∈ run.sent, sent.assetKey = key ∧ sent.Refused) :
    Progress storage currency planned rest run where
  toOrderly := progress.toOrderly
  newest_first := (List.pairwise_append.mp progress.newest_first).2.1
  ahead sent member entry left := progress.ahead sent member entry (List.mem_append_right _ left)
  covered := by
    intro target sought isPlanned
    rcases progress.covered target sought isPlanned with served | ⟨entry, left, held, holds⟩
    · exact .inl served
    · rcases List.mem_append.mp left with isDropped | isLater
      · obtain ⟨sent, member, same, refusal⟩ := refused
        have ofTarget : sent.assetKey = target.assetKey :=
          same.trans ((isKey entry isDropped).symm.trans held)
        exact .inl (.inr (.inr ⟨sent, member, ofTarget, refusal⟩))
      · exact .inr ⟨entry, isLater, held, holds⟩

theorem newestFirstWork_insertDeferred {deferred queue : List PriceHistoryAssetSpanWork}
    {key : String × String} (newestFirst : NewestFirstWork (deferred ++ queue))
    (isKey : ∀ entry ∈ deferred, entry.item.assetKey = key) :
    NewestFirstWork (insertDeferred key deferred queue) := by
  obtain ⟨ofDeferred, ofQueue, across⟩ := List.pairwise_append.mp newestFirst
  have whole := @List.takeWhile_append_dropWhile _
    (fun queued : PriceHistoryAssetSpanWork => queued.item.assetKey ≠ key) queue
  rw [← whole] at ofQueue
  obtain ⟨ofFirst, ofLater, between⟩ := List.pairwise_append.mp ofQueue
  unfold insertDeferred NewestFirstWork
  rw [List.append_assoc]
  apply List.pairwise_append.mpr
  refine ⟨ofFirst, List.pairwise_append.mpr ⟨ofDeferred, ofLater, ?_⟩, ?_⟩
  · intro newer isDeferred older isLater
    exact across newer isDeferred older ((List.dropWhile_sublist _).subset isLater)
  · intro newer isFirst older member same
    rcases List.mem_append.mp member with isDeferred | isLater
    · have otherKey := List.mem_takeWhile_imp isFirst
      exact absurd (same.trans (isKey older isDeferred)) (by simpa using otherKey)
    · exact between newer isFirst older isLater same

theorem Progress.insertDeferred {deferred queue : List PriceHistoryAssetSpanWork}
    {key : String × String} (progress : Progress storage currency planned (deferred ++ queue) run)
    (isKey : ∀ entry ∈ deferred, entry.item.assetKey = key) :
    Progress storage currency planned (insertDeferred key deferred queue) run where
  toOrderly := progress.toOrderly
  newest_first := newestFirstWork_insertDeferred progress.newest_first isKey
  ahead := by
    intro sent member entry left
    exact progress.ahead sent member entry (List.mem_append.mpr (mem_insertDeferred.mp left))
  covered := by
    intro target sought isPlanned
    rcases progress.covered target sought isPlanned with served | ⟨entry, left, held, holds⟩
    · exact .inl served
    · exact .inr ⟨entry, mem_insertDeferred.mpr (List.mem_append.mp left), held, holds⟩

end Steps

end Bitgarth.Prices.SpanExecution
