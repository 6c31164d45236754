import Bitgarth.Foundation.KeyedTable
import Bitgarth.Prices.SpanRuns
import Mathlib.Data.Prod.Lex
import Mathlib.Data.List.Sort

/-! # Schedules of price spans

The assets of a run have distinct keys, so what is planned for them keeps the newest spans of each
first; working it off ends, in order, and leaves out no date.
-/

namespace Bitgarth.Prices

/-- Enter a row under its asset and price id, owned since the earlier of the dates. -/
def mergeAssetRow (merged : List PriceHistoryAssetWork) (row : PriceHistoryAssetWork) :
    List PriceHistoryAssetWork :=
  KeyedTable.upsert PriceHistoryAssetWork.assetKey
    (fun old row => { old with firstOwnedDate := min old.firstOwnedDate row.firstOwnedDate })
    row merged

/-- One entry for each asset and price id, in the order of these. -/
def mergeAssetWork (rows : List PriceHistoryAssetWork) : List PriceHistoryAssetWork :=
  (rows.foldl mergeAssetRow []).insertionSort fun left right =>
    toLex left.assetKey ≤ toLex right.assetKey

theorem nodup_assetKey_mergeAssetWork (rows : List PriceHistoryAssetWork) :
    ((mergeAssetWork rows).map (·.assetKey)).Nodup := by
  have keyed : KeyedTable.Keyed PriceHistoryAssetWork.assetKey (rows.foldl mergeAssetRow []) :=
    KeyedTable.Keyed.foldl (fun _ _ keyed => keyed.upsert fun _ same => same) rows List.nodup_nil
  exact ((List.perm_insertionSort _ _).map _).nodup_iff.mpr keyed

theorem newestFirstWork_freshnessSpanWorkPlan {classifications : List FreshnessWorkClassification}
    (nodup : (classifications.map (·.item.assetKey)).Nodup) :
    SpanExecution.NewestFirstWork (freshnessSpanWorkPlan classifications).work := by
  have sorted : ((classifications.insertionSort fun left right =>
      left.sortKey ≤ right.sortKey).map (·.item.assetKey)).Nodup :=
    ((List.perm_insertionSort _ _).map _).nodup_iff.mpr nodup
  unfold SpanExecution.NewestFirstWork freshnessSpanWorkPlan
  rw [List.pairwise_filterMap]
  apply List.Pairwise.imp _ (List.pairwise_map.mp sorted)
  intro first second different newer isNewer older isOlder same
  obtain ⟨_, -, rfl⟩ := Option.map_eq_some_iff.mp isNewer
  obtain ⟨_, -, rfl⟩ := Option.map_eq_some_iff.mp isOlder
  exact absurd same different

theorem newestFirst_backwardProviderRanges (start finish : ℤ) :
    NewestFirstSpans (backwardProviderRanges start finish) := by
  rcases lt_or_ge finish start with backwards | ordered
  · have none : (finish + 1 - start).toNat = 0 := by omega
    unfold backwardProviderRanges
    rw [none]
    exact .nil
  · exact (splitsDates_backwardProviderRanges ordered).newest_first

theorem newestFirst_flatten {ranges : List DateSpan} {spans : List (List DateSpan)}
    (newestFirst : NewestFirstSpans ranges)
    (missing : List.Forall₂ (fun range found => ∃ existing,
      found = missingDailySpansNewestFirst range existing) ranges spans) :
    NewestFirstSpans spans.flatten := by
  induction missing with
  | nil => exact .nil
  | cons found later ih =>
    rename_i range foundSpans ranges spans
    obtain ⟨existing, rfl⟩ := found
    obtain ⟨across, ofLater⟩ := List.pairwise_cons.mp newestFirst
    apply List.pairwise_append.mpr
    refine ⟨newestFirst_missingDailySpansNewestFirst, ih ofLater, ?_⟩
    intro newer isNewer older isOlder
    obtain ⟨olderSpans, inSpans, member⟩ := List.mem_flatten.mp isOlder
    obtain ⟨olderRange, inRanges, dates, rfl⟩ := Outcomes.exists_of_mem_of_forall₂ later inSpans
    have before := across olderRange inRanges
    have ends := (within_of_mem_newestFirst member).2
    have starts := (within_of_mem_newestFirst isNewer).1
    omega

namespace SpanExecution

open Outcomes

section Planning

variable {σ : Type} {deps : PriceHistoryBackfillDeps σ} (storage : StoredDates deps)
  {currency : String} {run : Execution σ} {work : List PriceHistoryAssetWork} {today : ℤ}
  {horizon : PriceHistoryHorizon}

include storage in
theorem ensures_loadRangeSpans (item : PriceHistoryAssetWork) (range : DateSpan)
    (silent : run.sent = []) :
    Ensures (loadRangeSpans deps currency item range) run
      (fun spans after => (∃ existing, spans = missingDailySpansNewestFirst range existing) ∧
        after.sent = [])
      fun error after => (∃ message, error = .failed message) ∧ after.sent = [] := by
  have quiet : ∀ query after, Loaded storage query run after → after.sent = [] := by
    intro query after loaded
    unfold Execution.sent
    rw [loaded.events, List.filterMap_append]
    exact List.append_eq_nil_iff.mpr ⟨silent, rfl⟩
  unfold loadRangeSpans
  apply ensures_bind ((ensures_loadDailyPriceDates storage _).mono (fun _ _ => id) ?_)
  · rintro dates after ⟨loaded, _⟩
    exact ensures_pure ⟨⟨dates, rfl⟩, quiet _ after loaded⟩
  · rintro error after ⟨failed, loaded⟩
    exact ⟨failed, quiet _ after loaded⟩

include storage in
theorem ensures_loadAssetSpans (entry : PriceHistoryAssetWork × ℕ) (silent : run.sent = []) :
    Ensures (loadAssetSpans deps currency today horizon entry) run
      (fun planned after => (planned.1 = entry.2 ∧ NewestFirstSpans planned.2) ∧ after.sent = [])
      fun error after => (∃ message, error = .failed message) ∧ after.sent = [] := by
  unfold loadAssetSpans
  apply ensures_bind (ensures_mapM_forall₂ _
    (fun range _ state quiet => ensures_loadRangeSpans storage entry.1 range quiet) silent)
  rintro spans after ⟨missing, quiet⟩
  exact ensures_pure ⟨⟨rfl, newestFirst_flatten (newestFirst_backwardProviderRanges _ _) missing⟩,
    quiet⟩

theorem newestFirstWork_fairWork (nodup : (work.map (·.assetKey)).Nodup)
    {perAssetSpans : List (ℕ × List DateSpan)}
    (planned : List.Forall₂ (fun (entry : PriceHistoryAssetWork × ℕ) found =>
      found.1 = entry.2 ∧ NewestFirstSpans found.2) work.zipIdx perAssetSpans) :
    NewestFirstWork ((fairMissingSpanWork perAssetSpans).filterMap fun workItem =>
      work[workItem.assetIndex]?.map fun item => ⟨item, workItem.span⟩) := by
  have indices : perAssetSpans.map Prod.fst = work.zipIdx.map Prod.snd := by
    symm
    apply List.forall₂_eq_eq_eq ▸ List.forall₂_map_left_iff.mpr (List.forall₂_map_right_iff.mpr _)
    exact planned.imp fun _ _ same => same.1.symm
  have distinct : (perAssetSpans.map Prod.fst).Nodup := by
    rw [indices, List.zipIdx_map_snd]
    exact List.nodup_range'
  have sorted : ∀ found ∈ perAssetSpans, NewestFirstSpans found.2 := by
    intro found member
    obtain ⟨entry, -, -, newestFirst⟩ := exists_of_mem_of_forall₂ planned member
    exact newestFirst
  unfold NewestFirstWork
  rw [List.pairwise_filterMap]
  apply (newestFirst_fairMissingSpanWork distinct sorted).imp
  intro first second before newer isNewer older isOlder same
  obtain ⟨newerItem, atFirst, rfl⟩ := Option.map_eq_some_iff.mp isNewer
  obtain ⟨olderItem, atSecond, rfl⟩ := Option.map_eq_some_iff.mp isOlder
  apply before
  have inside := (List.getElem?_eq_some_iff.mp atFirst).1
  have insideKeys : first.assetIndex < (work.map (·.assetKey)).length := by simpa using inside
  apply (List.getElem?_inj insideKeys nodup).mp
  rw [List.getElem?_map, List.getElem?_map, atFirst, atSecond]
  exact congrArg some same

include storage in
theorem ensures_loadFairSpanWorkWithDeps (nodup : (work.map (·.assetKey)).Nodup)
    (silent : run.sent = []) :
    Ensures (loadFairSpanWorkWithDeps deps currency work today horizon) run
      (fun fairWork after => NewestFirstWork fairWork ∧ after.sent = [])
      fun error after => (∃ message, error = .failed message) ∧ after.sent = [] := by
  unfold loadFairSpanWorkWithDeps
  apply ensures_bind (ensures_mapM_forall₂ _
    (fun entry _ state quiet => ensures_loadAssetSpans storage entry quiet) silent)
  rintro perAssetSpans after ⟨planned, quiet⟩
  exact ensures_pure ⟨newestFirstWork_fairWork nodup planned, quiet⟩

end Planning

section Schedules

variable {σ : Type} {deps : PriceHistoryBackfillDeps σ} {storage : StoredDates deps}
  {currency : String} {run : Execution σ}

/-- The requests of a run are in order, and what one of them got is not asked for again. -/
structure KeepsOrder (storage : StoredDates deps) (currency : String) (run : Execution σ) : Prop
    extends Orderly storage currency run where
  once : run.sent.Pairwise fun first second =>
    first.Succeeded → ∀ target, first.1.AsksFor target → ¬ second.1.AsksFor target

theorem Orderly.keepsOrder (orderly : Orderly storage currency run) :
    KeepsOrder storage currency run where
  toOrderly := orderly
  once := by
    apply orderly.ordered.imp
    intro first second precedes succeeded target asks
    exact not_asksFor_of_precedes precedes succeeded asks

theorem rechecked_of_sent_eq_nil (silent : run.sent = []) :
    Rechecked storage currency run.events := by
  intro index request before answer found
  have member : (request, answer) ∈ run.sent :=
    List.mem_filterMap.mpr ⟨_, List.mem_of_getElem? found, rfl⟩
  rw [silent] at member
  cases member

/-- A queue with the newest spans of each asset first is worked off in that order to its end. -/
theorem ensures_worksOff {fairWork : List PriceHistoryAssetSpanWork} {turns : ℕ}
    (newestFirst : NewestFirstWork fairWork) (silent : run.sent = [])
    (enough : 3 * queueWeight fairWork + 2 < turns) :
    Ensures (executeFairSpanWorkWithDeps deps currency turns fairWork) run
      (fun _ after => KeepsOrder storage currency after ∧
        (Halted after ∨ ∀ target, Sought deps currency target → Covered target fairWork →
          Served storage after target))
      fun error after => (∃ message, error = .failed message) ∧
        KeepsOrder storage currency after := by
  apply (ensures_executeFairSpanWorkWithDeps newestFirst silent
    (rechecked_of_sent_eq_nil silent) enough).mono
  · intro _ after ended
    exact ⟨ended.toOrderly.keepsOrder, ended.served⟩
  · rintro error after ⟨failed, orderly⟩
    exact ⟨failed, orderly.keepsOrder⟩

/-- The plans are what they should be, and a queue with the newest spans of each asset first, as
both plans make it, is worked off in that order to its end: each request comes right after a load
that found none of its dates, and every planned date is requested, stored or of a refused asset,
unless the provider stopped the run. So is the work of a freshness plan. -/
theorem priceHistorySpans (storage : StoredDates deps) (currency : String) :
    (∀ start today, start ≤ today →
      SplitsDates start today (backwardProviderRanges start today)) ∧
    (∀ requested existing, MissingRuns requested existing (missingDailySpans requested existing)) ∧
    (∀ perAssetSpans : List (ℕ × List DateSpan), (perAssetSpans.map Prod.fst).Nodup →
      FairOrder perAssetSpans (fairMissingSpanWork perAssetSpans)) ∧
    (∀ fairWork turns run, NewestFirstWork fairWork → run.sent = [] →
      3 * queueWeight fairWork + 2 < turns →
        Ensures (executeFairSpanWorkWithDeps deps currency turns fairWork) run
          (fun _ after => KeepsOrder storage currency after ∧
            (Halted after ∨ ∀ target, Sought deps currency target → Covered target fairWork →
              Served storage after target))
          fun error after => (∃ message, error = .failed message) ∧
            KeepsOrder storage currency after) ∧
    (∀ rows today horizon run, run.sent = [] →
      Ensures (loadFairSpanWorkWithDeps deps currency (mergeAssetWork rows) today horizon) run
        (fun fairWork after => NewestFirstWork fairWork ∧ after.sent = [])
        fun error _ => ∃ message, error = .failed message) ∧
    ∀ classifications : List FreshnessWorkClassification,
      (classifications.map (·.item.assetKey)).Nodup →
        NewestFirstWork (freshnessSpanWorkPlan classifications).work ∧
        ∀ turns run, run.sent = [] →
          3 * queueWeight (freshnessSpanWorkPlan classifications).work + 2 < turns →
            Ensures (executeFairSpanWorkWithDeps deps currency turns
                (freshnessSpanWorkPlan classifications).work) run
              (fun _ after => KeepsOrder storage currency after ∧
                (Halted after ∨ ∀ target, Sought deps currency target →
                  Covered target (freshnessSpanWorkPlan classifications).work →
                    Served storage after target))
              fun error after => (∃ message, error = .failed message) ∧
                KeepsOrder storage currency after := by
  refine ⟨?_, ?_, ?_, ?_, ?_, ?_⟩
  · intro start today ordered
    exact splitsDates_backwardProviderRanges ordered
  · intro requested existing
    exact missingRuns_missingDailySpans
  · intro perAssetSpans nodup
    exact fairOrder_fairMissingSpanWork nodup
  · intro fairWork turns run newestFirst silent enough
    exact ensures_worksOff newestFirst silent enough
  · intro rows today horizon run silent
    apply (ensures_loadFairSpanWorkWithDeps storage (nodup_assetKey_mergeAssetWork rows)
      silent).mono
    · intro fairWork after planned
      exact planned
    · intro error after failed
      exact failed.1
  · intro classifications nodup
    have newestFirst := newestFirstWork_freshnessSpanWorkPlan nodup
    exact ⟨newestFirst, fun turns run silent enough => ensures_worksOff newestFirst silent enough⟩

end Schedules

section Lane

/-- While this run waits for its turn at the provider, another one stores the price of day 100. -/
def lanePrices : PriceHistoryBackfillDeps (List ℤ) where
  licenseScope := publicKeylessLicenseScope
  retrievedAt _ := 0
  loadDailyPriceDates query stored :=
    .ok (stored.filter fun date => query.start ≤ date ∧ date ≤ query.finish) stored
  awaitRequestLane stored := 100 :: stored
  fetchDailyPrices _ _ _ _ stored := .ok [] stored
  upsertDailyPricePoints _ stored := .ok () stored
  upsertHistoricalPriceAttempt _ stored := .ok () stored
  sleepAfterRateLimit _ stored := stored

def laneStorage : StoredDates lanePrices where
  Stored stored target := target.date ∈ stored
  load_exact query stored := by
    show ∀ date, _ → _ → _
    intro date after before
    simp [queryTarget, after, before]
  load_grows _ _ := fun _ => id
  lane_grows _ _ stored := .tail _ stored
  fetch_grows _ _ _ _ _ := fun _ => id
  points_grow _ _ := fun _ => id
  attempts_grow _ _ := fun _ => id
  sleep_grows _ _ := le_rfl

/-- One day of one asset. -/
def bitcoinDay : PriceHistoryAssetSpanWork := ⟨⟨"bitcoin", "bitcoin", 0⟩, ⟨100, 100⟩⟩

theorem priceHistorySpans_lanePrices :
    SplitsDates 0 400 (backwardProviderRanges 0 400) ∧
      FairOrder [(0, [⟨3, 4⟩, ⟨1, 1⟩]), (1, [⟨2, 2⟩])]
        (fairMissingSpanWork [(0, [⟨3, 4⟩, ⟨1, 1⟩]), (1, [⟨2, 2⟩])]) ∧
      (∃ after,
        executeFairSpanWorkWithDeps lanePrices "EUR" 9 [bitcoinDay] ⟨[], []⟩ = .ok () after ∧
          KeepsOrder laneStorage "EUR" after ∧ ∃ sent ∈ after.sent, sent.Succeeded) ∧
      (∃ fairWork after, loadFairSpanWorkWithDeps lanePrices "EUR"
          (mergeAssetWork [⟨"bitcoin", "bitcoin", 100⟩, ⟨"bitcoin", "bitcoin", 99⟩]) 101 .pro
            ⟨[], []⟩ = .ok fairWork after ∧ NewestFirstWork fairWork) ∧
      NewestFirstWork (freshnessSpanWorkPlan
        [⟨.noRecentAttempt, ⟨"bitcoin", "bitcoin", 0⟩, some ⟨100, 101⟩⟩]).work := by
  obtain ⟨splits, -, fair, executes, plans, freshness⟩ := priceHistorySpans laneStorage "EUR"
  have enough : 3 * queueWeight [bitcoinDay] + 2 < 9 := by decide
  have ran := executes [bitcoinDay] 9 ⟨[], []⟩ (List.pairwise_singleton _ _) rfl enough
  have planned := plans [⟨"bitcoin", "bitcoin", 100⟩, ⟨"bitcoin", "bitcoin", 99⟩] 101 .pro
    ⟨[], []⟩ rfl
  refine ⟨splits 0 400 (by omega), fair _ (by decide), ⟨_, rfl, (ran.of_ok rfl).1, ?_⟩,
    ⟨_, _, rfl, (planned.of_ok rfl).1⟩, (freshness
      [⟨.noRecentAttempt, ⟨"bitcoin", "bitcoin", 0⟩, some ⟨100, 101⟩⟩]
      (List.nodup_singleton _)).1⟩
  exact ⟨_, .head _, [], rfl⟩

/-- A date may be stored by others between the recheck of its span and the request for it. -/
theorem stored_while_waiting :
    ∃ after request before answer,
      executeFairSpanWorkWithDeps lanePrices "EUR" 9 [bitcoinDay] ⟨[], []⟩ = .ok () after ∧
        .requested request before answer ∈ after.events ∧
          request.AsksFor ⟨"bitcoin", "bitcoin", "EUR", publicKeylessLicenseScope, 100⟩ ∧
            laneStorage.Stored before
              ⟨"bitcoin", "bitcoin", "EUR", publicKeylessLicenseScope, 100⟩ := by
  refine ⟨_, _, _, _, rfl, .tail _ (.head _), ?_, ?_⟩
  · exact ⟨rfl, rfl, rfl, by decide, by decide⟩
  · exact .head _

end Lane

end SpanExecution

end Bitgarth.Prices
