import Bitgarth.Foundation.TracedRuns
import Bitgarth.Prices.BackfillQueue

/-! # Runs of the price history backfill

History is worked on only in runs that find every asset at rest: its last days priced, or its newest
gap refused for good or answered with nothing a day ago at most. Such a run asks for every date of
an asset that answers; any other run asks for dates of the last week alone, so one asset whose
newest gap fails again and again keeps the history of all others from being asked for.
-/

namespace Bitgarth.Prices

open Outcomes Reachability

/-- A call of `run_backfill_for_work_with_deps`. -/
structure BackfillRun where
  deps : PriceHistoryBackfillDeps
  currency : String
  work : List PriceHistoryAssetWork
  today : ℤ
  horizon : PriceHistoryHorizon
  now : ℤ

namespace BackfillRun

/-- Where a run from a store ends, having failed or not. -/
def world (run : BackfillRun) (store : PriceStore) : World :=
  match runBackfillForWork run.deps run.currency run.work run.today run.horizon run.now
      ⟨store, 0, []⟩ with
  | .ok _ after => after
  | .error _ after => after

def next (run : BackfillRun) (store after : PriceStore) : Prop :=
  after = (run.world store).store

/-- The first date that the run wants prices of an asset for. -/
def requestedStart (run : BackfillRun) (item : PriceHistoryAssetWork) : ℤ :=
  requestedStartDateForHorizon item.firstOwnedDate run.today run.horizon

/-- The newest gap in an asset's last days. -/
def newestGap (run : BackfillRun) (store : PriceStore) (item : PriceHistoryAssetWork) :
    Option DateSpan :=
  let window := freshnessWindow run.today (run.requestedStart item)
  freshnessMissingSpan window
    (store.dailyPriceDates
      (dailyPriceDateQuery run.deps run.currency item window.start window.finish))

/-- What is known of earlier attempts to fill a gap. -/
def evidence (run : BackfillRun) (store : PriceStore) (item : PriceHistoryAssetWork)
    (gap : DateSpan) : Option PriceHistoryAttemptEvidence :=
  selectFreshnessAttemptEvidence (store.latestAttempt ⟨item.assetId, gap.start, gap.finish⟩)
    (store.latestCooldownAttempt ⟨item.assetId, cooldownMinAttemptedAt run.now⟩) run.now

/-- Whether a run lets a gap be: it was refused for good, or there was nothing a day ago at most. -/
def LetsBe (run : BackfillRun) (evidence : PriceHistoryAttemptEvidence) : Prop :=
  evidence.status = .permanentFailure ∨ evidence.status = .successEmpty ∧
    attemptAgeSecs run.now evidence.attemptedAt < successEmptyCooldownSecs

/-- Whether every asset of the run is at rest. -/
def AtRest (run : BackfillRun) (store : PriceStore) : Prop :=
  ∀ item ∈ run.work, ∀ gap ∈ run.newestGap store item,
    ∃ evidence ∈ run.evidence store item gap, run.LetsBe evidence

/-- What a run promises an asset: it is worked on, the date is one of those wanted, the provider
answers for it and never says that it is asked too often. -/
structure Promises (run : BackfillRun) (target : PriceTarget) : Prop where
  isOf : target.IsOf run.deps run.currency
  wanted : ∃ item ∈ run.work, item.assetKey = target.assetKey ∧
    run.requestedStart item ≤ target.date ∧ target.date ≤ run.today
  answers : ∀ call quoteCurrency start finish, ∃ prices,
    run.deps.fetchDailyPrices call target.providerAssetId quoteCurrency start finish = .ok prices
  unlimited : ∀ call provider quoteCurrency start finish message,
    run.deps.fetchDailyPrices call provider quoteCurrency start finish ≠
      .error (.rateLimited message)

/-- The classification of an asset in a store. -/
def classification (run : BackfillRun) (store : PriceStore) (item : PriceHistoryAssetWork) :
    FreshnessWorkClassification :=
  match run.newestGap store item with
  | none => coveredClassification item
  | some gap => classifyFreshnessCandidate ⟨item, gap, run.evidence store item gap⟩ run.now

/-- The missing spans of an asset in a store. -/
def missingSpans (run : BackfillRun) (store : PriceStore) (item : PriceHistoryAssetWork) :
    List DateSpan :=
  ((backwardProviderRanges (run.requestedStart item) run.today).map fun range =>
    missingDailySpansNewestFirst range (store.dailyPriceDates
      (dailyPriceDateQuery run.deps run.currency item range.start range.finish))).flatten

/-- The history work of a run in a store. -/
def fairSpanWork (run : BackfillRun) (store : PriceStore) : List PriceHistoryAssetSpanWork :=
  (fairMissingSpanWork (run.work.zipIdx.map fun entry =>
    (entry.2, run.missingSpans store entry.1))).filterMap fun workItem =>
      run.work[workItem.assetIndex]?.map fun item => ⟨item, workItem.span⟩

section Plans

variable {run : BackfillRun} {store : PriceStore} {world : World}

theorem classification_atRest_iff {item : PriceHistoryAssetWork} :
    ((run.classification store item).missingSpan = none ∧
      (run.classification store item).priority ≠ .rateLimitedRecentAttempt) ↔
      ∀ gap ∈ run.newestGap store item,
        ∃ evidence ∈ run.evidence store item gap, run.LetsBe evidence := by
  unfold classification
  cases run.newestGap store item with
  | none => simp [coveredClassification]
  | some gap =>
    simp only [Option.mem_def, Option.some.injEq, forall_eq']
    cases run.evidence store item gap with
    | none => simp [classifyFreshnessCandidate]
    | some evidence =>
      obtain ⟨status, attemptedAt⟩ := evidence
      simp only [classifyFreshnessCandidate, classifyFreshnessAttempt, LetsBe,
        Option.some.injEq, exists_eq_left']
      cases status with
      | successWithPrices => simp
      | successEmpty =>
        by_cases cools : attemptAgeSecs run.now attemptedAt < successEmptyCooldownSecs
        · simp [cools]
        · simp [cools]
      | transientFailure => simp
      | rateLimited =>
        by_cases cools : attemptAgeSecs run.now attemptedAt < rateLimitEvidenceCooldownSecs
        · simp [cools]
        · simp [cools]
      | permanentFailure => simp

theorem missingSpan_classification {item : PriceHistoryAssetWork} {span : DateSpan}
    (isMissing : (run.classification store item).missingSpan = some span) :
    run.newestGap store item = some span := by
  unfold classification at isMissing
  cases isGap : run.newestGap store item with
  | none =>
    rw [isGap] at isMissing
    cases isMissing
  | some gap =>
    rw [isGap] at isMissing
    exact (Option.ite_none_right_eq_some.mp isMissing).2

theorem newestGap_spec {item : PriceHistoryAssetWork} {gap : DateSpan}
    (isGap : run.newestGap store item = some gap) :
    gap.start ≤ gap.finish ∧ run.today - 6 ≤ gap.start := by
  have member := List.mem_of_head? isGap
  have within := (within_of_mem_newestFirst member).1
  exact ⟨start_le_finish_of_mem_newestFirst member, le_trans (le_max_right _ _) within⟩

theorem ensures_loadFreshnessClassification (item : PriceHistoryAssetWork) :
    Ensures (loadFreshnessClassification run.deps run.currency run.today run.horizon run.now item)
      world (fun value after => value = run.classification world.store item ∧ world.Same after)
      (LoadFails run.deps world) := by
  refine ensures_bind (ensures_loadDailyPriceDates _) ?_
  rintro _ dated ⟨rfl, same⟩
  have fails : ∀ between, world.Same between → ∀ message after,
      LoadFails run.deps between message after → LoadFails run.deps world message after :=
    fun _ first _ _ failed => ⟨failed.1, first.trans failed.2⟩
  show Ensures (match run.newestGap world.store item with
    | none => _
    | some missingSpan => _) dated _ _
  unfold classification
  cases isGap : run.newestGap world.store item with
  | none => exact ensures_pure ⟨rfl, same⟩
  | some gap =>
    refine ensures_bind ((ensures_latestHistoricalPriceAttempt (newestGap_spec isGap).1).mono
      (fun _ _ => id) (fails _ same)) ?_
    rintro _ covering ⟨rfl, sameCovering⟩
    have sameSoFar := same.trans sameCovering
    refine ensures_bind ((ensures_latestHistoricalPriceCooldownAttempt _).mono
      (fun _ _ => id) (fails _ sameSoFar)) ?_
    rintro _ cooldown ⟨rfl, sameCooldown⟩
    refine ensures_pure ⟨?_, sameSoFar.trans sameCooldown⟩
    rw [sameSoFar.1, same.1]
    rfl

theorem ensures_loadFreshnessSpanWorkPlan :
    Ensures (loadFreshnessSpanWorkPlan run.deps run.currency run.work run.today run.horizon run.now)
      world (fun plan after =>
        plan = freshnessSpanWorkPlan (run.work.map (run.classification world.store)) ∧
          world.Same after)
      (LoadFails run.deps world) := by
  refine ensures_bind (@ensures_mapM _ _ _ _ _ _ _ (run.classification world.store)
    (fun after => world.Same after) run.work ?_ ⟨rfl, rfl⟩) ?_
  · intro item _ between same
    refine (ensures_loadFreshnessClassification item).mono ?_ ?_
    · rintro _ after ⟨rfl, later⟩
      refine ⟨?_, same.trans later⟩
      simp only [classification, newestGap, evidence, same.1]
    · exact fun _ _ failed => ⟨failed.1, same.trans failed.2⟩
  · rintro _ after ⟨rfl, same⟩
    exact ensures_pure ⟨rfl, same⟩

theorem ensures_loadFairSpanWork :
    Ensures (loadFairSpanWork run.deps run.currency run.work run.today run.horizon) world
      (fun fairWork after => fairWork = run.fairSpanWork world.store ∧ world.Same after)
      (LoadFails run.deps world) := by
  refine ensures_bind (@ensures_mapM _ _ _ _ _ _ _
    (fun entry : PriceHistoryAssetWork × ℕ => (entry.2, run.missingSpans world.store entry.1))
    (fun after => world.Same after) run.work.zipIdx ?_ ⟨rfl, rfl⟩) ?_
  · intro entry _ between same
    refine ensures_bind (@ensures_mapM _ _ _ _ _ _ _ (fun range =>
      missingDailySpansNewestFirst range (world.store.dailyPriceDates
        (dailyPriceDateQuery run.deps run.currency entry.1 range.start range.finish)))
      (fun after => world.Same after) _ ?_ same) ?_
    · intro range _ dated sameDated
      refine ensures_bind ((ensures_loadDailyPriceDates _).mono (fun _ _ => id)
        fun _ _ failed => ⟨failed.1, sameDated.trans failed.2⟩) ?_
      rintro _ after ⟨rfl, later⟩
      refine ensures_pure ⟨?_, sameDated.trans later⟩
      rw [sameDated.1]
    · rintro _ after ⟨rfl, same⟩
      exact ensures_pure ⟨rfl, same⟩
  · rintro _ after ⟨rfl, same⟩
    exact ensures_pure ⟨rfl, same⟩

theorem covered_fairSpanWork {target : PriceTarget} (promises : run.Promises target)
    (unpriced : ¬store.Priced target) : Covered target (run.fairSpanWork store) := by
  obtain ⟨item, inWork, isKey, after, before⟩ := promises.wanted
  obtain ⟨range, isRange, holds⟩ := exists_holds_backwardProviderRanges after before
  rcases priced_or_missing promises.isOf isKey holds with priced | ⟨missing, found, holds⟩
  · exact absurd priced unpriced
  obtain ⟨index, inside, rfl⟩ := List.getElem_of_mem inWork
  refine ⟨⟨run.work[index], missing⟩, List.mem_filterMap.mpr ⟨⟨index, missing⟩, ?_, ?_⟩,
    isKey, holds⟩
  · refine mem_fairMissingSpanWork (List.mem_map.mpr ⟨(run.work[index], index), ?_, rfl⟩) ?_
    · exact List.mem_zipIdx_iff_getElem?.mpr (List.getElem?_eq_getElem inside)
    · exact List.mem_flatten.mpr ⟨_, List.mem_map.mpr ⟨range, isRange, rfl⟩, found⟩
  · rw [List.getElem?_eq_getElem inside]
    rfl

theorem atRest_iff :
    run.AtRest store ↔
      (freshnessSpanWorkPlan (run.work.map (run.classification store))).work = [] ∧
        (freshnessSpanWorkPlan
          (run.work.map (run.classification store))).hasRateLimitCooldownBlocker = false := by
  rw [work_freshnessSpanWorkPlan_eq_nil, ← Bool.not_eq_true, hasRateLimitCooldownBlocker_eq_true]
  simp only [List.mem_map, forall_exists_index, and_imp, forall_apply_eq_imp_iff₂, not_exists,
    not_and]
  constructor
  · intro rest
    have each := fun item member => classification_atRest_iff.mpr (rest item member)
    exact ⟨fun item member => (each item member).1,
      fun item member isPriority => absurd isPriority (each item member).2⟩
  · rintro ⟨idle, unblocked⟩ item member
    refine classification_atRest_iff.mp ⟨idle item member, fun isPriority => ?_⟩
    exact unblocked item member isPriority (idle item member)

end Plans

section Runs

variable {run : BackfillRun} {target : PriceTarget} {earlier : Prop} {world : World}

/-- The requests for the last week. -/
def Recent (run : BackfillRun) (request : PriceRequest) : Prop :=
  unixDayStart (run.today - 6) ≤ request.fromUnixSeconds

theorem ensures_run_atRest (rest : run.AtRest world.store) :
    Ensures
      (runBackfillForWork run.deps run.currency run.work run.today run.horizon run.now) world
      (fun _ after => QueueServed earlier target (fun _ => True) run.deps run.currency []
        (run.fairSpanWork world.store) world after)
      (PartFails earlier target (fun _ => True) run.deps world) := by
  obtain ⟨idle, unblocked⟩ := atRest_iff.mp rest
  refine ensures_bind (ensures_loadFreshnessSpanWorkPlan.mono (fun _ _ => id)
    fun _ _ => partFails_of_loadFails) ?_
  rintro _ planned ⟨rfl, same⟩
  rw [if_neg (not_not.mpr idle), unblocked]
  have moved : Moves earlier target (fun _ => True) world planned :=
    .of_samePrices same.samePrices
  refine ensures_bind (ensures_loadFairSpanWork.mono (fun _ _ => id) fun _ _ failed => ?_) ?_
  · exact ⟨failed.1, moved.trans (.of_samePrices failed.2.samePrices)⟩
  rintro _ loaded ⟨rfl, sameLoaded⟩
  have movedLoaded := moved.trans (.of_samePrices sameLoaded.samePrices)
  refine (ensures_executeFairSpanWork fun _ _ _ _ => trivial).mono (fun _ after done => ?_)
    fun _ _ failed => ⟨failed.1, movedLoaded.trans failed.2⟩
  rw [same.1] at done
  exact ⟨movedLoaded.trans done.moves,
    fun accounted => done.served (movedLoaded.accounted accounted)⟩

theorem ensures_run_busy (busy : ¬run.AtRest world.store) :
    Ensures
      (runBackfillForWork run.deps run.currency run.work run.today run.horizon run.now) world
      (fun _ after => Moves earlier target run.Recent world after)
      (PartFails earlier target run.Recent run.deps world) := by
  refine ensures_bind (ensures_loadFreshnessSpanWorkPlan.mono (fun _ _ => id)
    fun _ _ => partFails_of_loadFails) ?_
  rintro _ planned ⟨rfl, same⟩
  have moved : Moves earlier target run.Recent world planned := .of_samePrices same.samePrices
  split
  · refine (ensures_executeFairSpanWork fun entry member => ?_).mono
      (fun _ after done => moved.trans done.moves) fun _ _ failed =>
        ⟨failed.1, moved.trans failed.2⟩
    obtain ⟨classification, isClassified, _, isMissing⟩ :=
      mem_work_freshnessSpanWorkPlan.mp member
    obtain ⟨item, _, rfl⟩ := List.mem_map.mp isClassified
    have recent := (newestGap_spec (missingSpan_classification isMissing)).2
    intro span after
    show unixDayStart (run.today - 6) ≤ unixDayStart span.start
    unfold unixDayStart
    omega
  · rename_i idle
    have idle := not_not.mp idle
    split
    · exact ensures_pure moved
    · rename_i unblocked
      exact absurd (atRest_iff.mpr ⟨idle, Bool.not_eq_true _ ▸ unblocked⟩) busy

theorem world_meets {store : PriceStore} (meets : World → Prop)
    (ensured : Ensures (runBackfillForWork run.deps run.currency run.work run.today run.horizon
      run.now) ⟨store, 0, []⟩ (fun _ => meets) (fun _ => meets)) : meets (run.world store) := by
  unfold Ensures at ensured
  unfold world
  split at ensured
  · rename_i ran
    rwa [ran]
  · rename_i ran
    rwa [ran]

end Runs

section Requests

variable {target : PriceTarget} {earlier : Prop}

theorem accounted_world (run : BackfillRun) {store : PriceStore}
    (accounted : store.Priced target → earlier) :
    Accounted earlier target (run.world store) := by
  have start : Accounted earlier target ⟨store, 0, []⟩ := fun priced => .inl (accounted priced)
  refine world_meets (Accounted earlier target) ?_
  by_cases rest : run.AtRest store
  · exact (ensures_run_atRest rest).mono (fun _ _ done => done.moves.accounted start)
      fun _ _ failed => failed.2.accounted start
  · exact (ensures_run_busy rest).mono (fun _ _ moves => moves.accounted start)
      fun _ _ failed => failed.2.accounted start

theorem requested_world_of_atRest (run : BackfillRun) {store : PriceStore}
    (promises : run.Promises target) (loads : run.deps.LoadsSucceed) (rest : run.AtRest store)
    (unpriced : ¬store.Priced target) : (run.world store).Requested target := by
  refine world_meets (fun after => after.Requested target) ?_
  refine (@ensures_run_atRest run target False ⟨store, 0, []⟩ rest).mono (fun _ after done => ?_)
    fun _ _ failed => absurd loads failed.1
  have served := done.served (fun priced => absurd priced unpriced) promises.isOf ?_ ?_
    List.not_mem_nil (covered_fairSpanWork promises unpriced)
  · exact served.resolve_left id
  · rintro item isKey ⟨span, call, refused⟩
    have provider : item.providerAssetId = target.providerAssetId := congrArg Prod.snd isKey
    obtain ⟨prices, answered⟩ := promises.answers call (Text.toAsciiLowercase run.currency)
      (unixDayStart span.start) (unixDayStart (span.finish + 1))
    rw [askedOf, provider, answered] at refused
    rcases refused with isLimit | ⟨message, isUnknown⟩
    · cases isLimit
    · cases isUnknown
  · rintro item ⟨span, call, message, limited⟩
    exact promises.unlimited _ _ _ _ _ _ limited

theorem not_requested_world (run : BackfillRun) {store : PriceStore} (busy : ¬run.AtRest store)
    (old : target.date < run.today - 6) : ¬(run.world store).Requested target := by
  rintro ⟨request, sent, _, _, _, start, _⟩
  have moves : Moves False target run.Recent ⟨store, 0, []⟩ (run.world store) := by
    refine world_meets (Moves False target run.Recent ⟨store, 0, []⟩) ?_
    exact (ensures_run_busy busy).mono (fun _ _ => id) fun _ _ failed => failed.2
  have recent := (moves.allowed request sent).resolve_left List.not_mem_nil
  unfold Recent at recent
  unfold unixDayStart at recent start
  omega

/-- Whether one of the runs has asked for the date. -/
def RequestedIn (target : PriceTarget) (trace : List (BackfillRun × PriceStore)) : Prop :=
  ∃ entry ∈ trace, (entry.1.world entry.2).Requested target

theorem requestedIn_of_priced {start state : PriceStore}
    {trace : List (BackfillRun × PriceStore)} (ran : Traced next start trace state)
    (unpriced : ¬start.Priced target) (priced : state.Priced target) :
    RequestedIn target trace := by
  induction ran with
  | start => exact absurd priced unpriced
  | @step trace state after run before taken ih =>
    cases taken
    rcases accounted_world run ih priced with ⟨entry, member, requested⟩ | requested
    · exact ⟨entry, List.mem_append_left _ member, requested⟩
    · exact ⟨_, List.mem_append_right _ List.mem_cons_self, requested⟩

end Requests

/-- In every sequence of runs, a date of an asset that a run at rest promises is asked for by the
end of that run if no load of it fails; and a date before the last week is asked for only where
some run starts at rest. -/
theorem requestedIn_backfill {start state : PriceStore} {target : PriceTarget}
    {trace : List (BackfillRun × PriceStore)} (ran : Traced next start trace state)
    (unpriced : ¬start.Priced target) :
    ((∃ entry ∈ trace, entry.1.Promises target ∧ entry.1.deps.LoadsSucceed ∧
      entry.1.AtRest entry.2) → RequestedIn target trace) ∧
      (RequestedIn target trace → ∃ entry ∈ trace,
        entry.1.AtRest entry.2 ∨ entry.1.today - 6 ≤ target.date) := by
  constructor
  · rintro ⟨⟨run, there⟩, member, promises, loads, rest⟩
    by_cases priced : there.Priced target
    · obtain ⟨before, ranBefore, within⟩ := ran.split member
      obtain ⟨entry, early, requested⟩ := requestedIn_of_priced ranBefore unpriced priced
      exact ⟨entry, within entry early, requested⟩
    · exact ⟨_, member, requested_world_of_atRest run promises loads rest priced⟩
  · rintro ⟨entry, member, requested⟩
    refine ⟨entry, member, ?_⟩
    by_contra neither
    obtain ⟨busy, old⟩ := not_or.mp neither
    exact not_requested_world entry.1 busy (not_le.mp old) requested

end BackfillRun

/-- Two assets, of which the first lacks the price of day 100 and is answered with an error, and
the second lacks all prices before day 94. -/
def unevenStore : PriceStore where
  prices := ([94, 95, 96, 97, 98, 99].map fun date =>
      ⟨"solana", "USD", date * 86400000000000, date, "20", "solana", some "usd", "public_keyless",
        100 * 86400000000000⟩) ++
    [94, 95, 96, 97, 98, 99, 100].map fun date =>
      ⟨"bitcoin", "USD", date * 86400000000000, date, "60000", "bitcoin", some "usd",
        "public_keyless", 100 * 86400000000000⟩
  attempts := [⟨"solana", 100, 100, .transientFailure, 100 * 86400000000000, 0, none,
    some "transient_failure"⟩]

def unevenDeps : PriceHistoryBackfillDeps where
  licenseScope := "public_keyless"
  retrievedAt _ := 100 * 86400000000000
  loadDatesError _ _ := none
  loadAttemptError _ _ := none
  loadCooldownAttemptError _ _ := none
  fetchDailyPrices _ provider _ _ _ :=
    if provider = "solana" then .error (.failed "CoinGecko request failed: timeout") else .ok []
  upsertPricesError _ _ := none
  upsertAttemptError _ _ := none

def unevenRun : BackfillRun where
  deps := unevenDeps
  currency := "USD"
  work := [⟨"bitcoin", "bitcoin", 0⟩, ⟨"solana", "solana", 0⟩]
  today := 100
  horizon := .publicKeyless
  now := 100 * 86400000000000

/-- Day 50 of the second asset. -/
def unevenTarget : PriceTarget where
  assetId := "bitcoin"
  providerAssetId := "bitcoin"
  quoteCurrency := "USD"
  licenseScope := "public_keyless"
  date := 50

theorem unevenRun_world :
    unevenRun.world unevenStore = ⟨unevenStore, 9,
      [⟨"solana", "solana", "usd", 100 * 86400, 101 * 86400⟩]⟩ := by
  decide +kernel

theorem unevenRun_promises : unevenRun.Promises unevenTarget where
  isOf := ⟨rfl, rfl⟩
  wanted := ⟨_, List.mem_cons_self, rfl, by decide, by decide⟩
  answers _ _ _ _ := ⟨[], rfl⟩
  unlimited _ provider _ _ _ message := by
    simp only [unevenRun, unevenDeps]
    split <;> simp

theorem unevenRun_loads : unevenRun.deps.LoadsSucceed :=
  ⟨fun _ _ => rfl, fun _ _ => rfl, fun _ _ => rfl⟩

theorem traced_unevenRun (count : ℕ) :
    Traced BackfillRun.next unevenStore (List.replicate count (unevenRun, unevenStore))
      unevenStore := by
  induction count with
  | zero => exact .start
  | succ count ih =>
    rw [List.replicate_succ']
    refine .step ih ?_
    rw [BackfillRun.next, unevenRun_world]

/-- No number of runs is enough, whatever it may be for the spans that an asset lacks: the second
asset's history is never asked for while the first one's newest price fails. -/
theorem requestedIn_starved :
    ¬∃ bound : ℕ → ℕ, ∀ (start state : PriceStore) (target : PriceTarget)
      (trace : List (BackfillRun × PriceStore)), Traced BackfillRun.next start trace state →
      ¬start.Priced target →
      (∀ entry ∈ trace, entry.1.Promises target ∧ entry.1.deps.LoadsSucceed) →
      (∀ entry ∈ trace, ∀ item ∈ entry.1.work, item.assetKey = target.assetKey →
        bound (entry.1.missingSpans start item).length ≤ trace.length) →
      BackfillRun.RequestedIn target trace := by
  rintro ⟨bound, promised⟩
  let spans := unevenRun.missingSpans unevenStore ⟨"bitcoin", "bitcoin", 0⟩
  have only : ∀ entry ∈ List.replicate (bound spans.length) (unevenRun, unevenStore),
      entry = (unevenRun, unevenStore) := fun entry member => List.eq_of_mem_replicate member
  have asked : BackfillRun.RequestedIn unevenTarget
      (List.replicate (bound spans.length) (unevenRun, unevenStore)) := by
    refine promised _ _ _ _ (traced_unevenRun (bound spans.length)) (by decide +kernel) ?_ ?_
    · intro entry member
      rw [only entry member]
      exact ⟨unevenRun_promises, unevenRun_loads⟩
    · intro entry member item inWork isKey
      rw [only entry member] at inWork ⊢
      rw [List.length_replicate]
      rcases List.mem_cons.mp inWork with rfl | other
      · exact le_rfl
      · rw [List.mem_singleton.mp other] at isKey
        exact absurd isKey (by decide)
  obtain ⟨entry, member, requested⟩ := asked
  rw [only entry member, unevenRun_world] at requested
  obtain ⟨request, sent, asset, _⟩ := requested
  rw [List.mem_singleton.mp sent] at asset
  exact absurd asset (by decide)

/-- The same assets where the first one has been refused for good. -/
def settledStore : PriceStore :=
  { unevenStore with
    attempts := [⟨"solana", 100, 100, .permanentFailure, 100 * 86400000000000, 0, none,
      some "not_found"⟩] }

theorem requestedIn_backfill_settledStore :
    BackfillRun.RequestedIn unevenTarget [(unevenRun, settledStore)] := by
  refine (BackfillRun.requestedIn_backfill (.step .start rfl) (by decide +kernel)).1 ?_
  refine ⟨_, List.mem_cons_self, unevenRun_promises, unevenRun_loads, ?_⟩
  exact BackfillRun.atRest_iff.mpr (by decide +kernel)

end Bitgarth.Prices
