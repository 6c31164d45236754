import Bitgarth.Prices.SpanProgress

/-! # Runs over planned spans

Every call keeps what was stored, every turn keeps the progress of its run, and the turns end.
-/

namespace Bitgarth.Prices.SpanExecution

open Outcomes

variable {σ : Type} {deps : PriceHistoryBackfillDeps σ} {storage : StoredDates deps}
  {currency : String} {planned queue : List PriceHistoryAssetSpanWork}
  {item : PriceHistoryAssetWork} {span : DateSpan}

section Calls

variable {ε α : Type} {run : Execution σ}

/-- A program that starts with a change of its state. -/
theorem ensures_modify_bind {f : Execution σ → Execution σ}
    {next : PUnit → EStateM ε (Execution σ) α} {ok : α → Execution σ → Prop}
    {failed : ε → Execution σ → Prop} (met : Ensures (next ⟨⟩) (f run) ok failed) :
    Ensures (modify f >>= next) run ok failed := met

theorem ensures_call {program : EStateM ε σ α}
    (grows : Ensures program run.around
      (fun _ after => storage.Stored run.around ≤ storage.Stored after)
      fun _ after => storage.Stored run.around ≤ storage.Stored after) :
    Ensures (call program) run (fun _ after => Unchanged storage run after)
      fun _ after => Unchanged storage run after := by
  unfold Ensures call
  unfold Ensures at grows
  cases ran : program run.around with
  | ok value after =>
    rw [ran] at grows
    exact ⟨rfl, grows⟩
  | error error after =>
    rw [ran] at grows
    exact ⟨rfl, grows⟩

/-- What a load of stored dates has done. -/
structure Loaded (storage : StoredDates deps) (query : DailyPriceDateQuery)
    (run after : Execution σ) : Prop where
  events : after.events = run.events ++ [.loaded query run.around]
  grown : storage.Stored run.around ≤ storage.Stored after.around

variable (storage) in
theorem ensures_loadDailyPriceDates (query : DailyPriceDateQuery) :
    Ensures (loadDailyPriceDates deps query) run
      (fun dates after => Loaded storage query run after ∧
        ∀ date, query.start ≤ date → date ≤ query.finish →
          (date ∈ dates ↔ storage.Stored run.around (queryTarget query date)))
      fun error after => (∃ message, error = .failed message) ∧ Loaded storage query run after := by
  have exact := storage.load_exact query run.around
  have grows := storage.load_grows query run.around
  unfold loadDailyPriceDates
  apply ensures_modify_bind
  apply ensures_adaptExcept
  unfold Ensures call
  unfold Ensures at exact grows
  cases ran : deps.loadDailyPriceDates query run.around with
  | ok dates after =>
    rw [ran] at exact grows
    dsimp only
    exact ⟨⟨rfl, grows⟩, exact⟩
  | error message after =>
    rw [ran] at grows
    dsimp only
    exact ⟨⟨message, rfl⟩, ⟨rfl, grows⟩⟩

/-- What a fetch of a span has done: it has requested the span once. -/
structure Fetched (storage : StoredDates deps) (currency : String) (item : PriceHistoryAssetWork)
    (span : DateSpan) (answer : Except PriceHistoryFetchError (List CoinGeckoDailyPrice))
    (run after : Execution σ) : Prop where
  events : ∃ before,
    after.events = run.events ++ [.requested (spanRequest currency item span) before answer]
  grown : storage.Stored run.around ≤ storage.Stored after.around

theorem Fetched.trans {answer : Except PriceHistoryFetchError (List CoinGeckoDailyPrice)}
    {after last : Execution σ} (fetched : Fetched storage currency item span answer run after)
    (unchanged : Unchanged storage after last) :
    Fetched storage currency item span answer run last where
  events := unchanged.events ▸ fetched.events
  grown := fetched.grown.trans unchanged.grown

variable (storage) in
theorem ensures_fetchDailyPrices :
    Ensures (fetchDailyPrices deps item (Text.toAsciiLowercase currency)
        (unixDayStart span.start) (unixDayStart (span.finish + 1))) run
      (fun prices after => Fetched storage currency item span (.ok prices) run after)
      fun error after => Fetched storage currency item span (.error error) run after := by
  have grows := storage.fetch_grows item.providerAssetId (Text.toAsciiLowercase currency)
    (unixDayStart span.start) (unixDayStart (span.finish + 1)) run.around
  unfold Ensures fetchDailyPrices
  unfold Ensures at grows
  dsimp only
  cases ran : deps.fetchDailyPrices item.providerAssetId (Text.toAsciiLowercase currency)
      (unixDayStart span.start) (unixDayStart (span.finish + 1)) run.around with
  | ok prices after =>
    rw [ran] at grows
    exact ⟨⟨run.around, rfl⟩, grows⟩
  | error error after =>
    rw [ran] at grows
    exact ⟨⟨run.around, rfl⟩, grows⟩

variable (storage) in
theorem ensures_fetchDailyPricesWithRequestLane :
    Ensures (fetchDailyPricesWithRequestLane deps item (Text.toAsciiLowercase currency)
        (unixDayStart span.start) (unixDayStart (span.finish + 1))) run
      (fun prices after => Fetched storage currency item span (.ok prices) run after)
      fun error after => Fetched storage currency item span (.error error) run after := by
  unfold fetchDailyPricesWithRequestLane
  split
  · exact ensures_fetchDailyPrices storage
  · apply ensures_modify_bind
    have waits := storage.lane_grows run.around
    apply (ensures_fetchDailyPrices storage).mono
    · intro prices after fetched
      exact ⟨fetched.events, waits.trans fetched.grown⟩
    · intro error after fetched
      exact ⟨fetched.events, waits.trans fetched.grown⟩

/-- How a span was fetched and its prices stored: other errors than the provider's are failures. -/
def Tried (storage : StoredDates deps) (currency : String) (item : PriceHistoryAssetWork)
    (span : DateSpan) (run : Execution σ) (result : Except PriceHistoryFetchError Unit)
    (after : Execution σ) : Prop :=
  ∃ answer, Fetched storage currency item span answer run after ∧
    ∀ error, result = .error error → answer = .error error ∨ ∃ message, error = .failed message

theorem tried_of_failed {answer : Except PriceHistoryFetchError (List CoinGeckoDailyPrice)}
    {after : Execution σ} {message : String}
    (fetched : Fetched storage currency item span answer run after) :
    Tried storage currency item span run (.error (.failed message)) after := by
  refine ⟨answer, fetched, ?_⟩
  rintro error ⟨⟩
  exact .inr ⟨message, rfl⟩

variable (storage) in
theorem ensures_fetchAndStoreSpan :
    Ensures (fetchAndStoreSpan deps currency item span) run
      (fun _ after => Tried storage currency item span run (.ok ()) after)
      fun error after => Tried storage currency item span run (.error error) after := by
  unfold fetchAndStoreSpan
  apply ensures_bind ((ensures_fetchDailyPricesWithRequestLane storage).mono (fun _ _ => id) ?_)
  · intro prices fetchedRun fetched
    apply ensures_bind
    · apply ensures_adaptExcept
      apply (ensures_call (storage.points_grow _ _)).mono
      · intro _ after unchanged
        exact fetched.trans unchanged
      · intro message after unchanged
        exact tried_of_failed (fetched.trans unchanged)
    · intro _ storedRun stored
      apply ensures_adaptExcept
      apply (ensures_call (storage.attempts_grow _ _)).mono
      · intro _ after unchanged
        exact ⟨_, stored.trans unchanged, nofun⟩
      · intro message after unchanged
        exact tried_of_failed (stored.trans unchanged)
  · intro error after fetched
    refine ⟨_, fetched, ?_⟩
    rintro _ ⟨⟩
    exact .inl rfl

variable (storage) in
theorem ensures_recordTerminalHistoricalAttempt {failed : RunError → Execution σ → Prop}
    (status : HistoricalPriceAttemptStatus) (errorCode : String) :
    Ensures (recordTerminalHistoricalAttempt deps item span status errorCode) run
      (fun _ after => Unchanged storage run after) failed := by
  have recorded : ∀ row, Ensures (attempt (call (deps.upsertHistoricalPriceAttempt row))) run
      (fun _ after => Unchanged storage run after) failed :=
    fun row => ensures_attempt (ensures_call (storage.attempts_grow row _))
  unfold recordTerminalHistoricalAttempt
  change Ensures (_ >>= _) run _ _
  apply ensures_bind (recorded _)
  intro _ after unchanged
  exact ensures_pure unchanged

end Calls

section Retries

variable {run : Execution σ} {rest : List PriceHistoryAssetSpanWork} {bound : ℕ}

/-- A run fails with what a call reports, its requests in order. -/
def Fails (storage : StoredDates deps) (currency : String) (error : RunError)
    (after : Execution σ) : Prop :=
  (∃ message, error = .failed message) ∧ Orderly storage currency after

theorem Loaded.progress {dates : List ℤ} {after : Execution σ}
    (loaded : Loaded storage
      (dailyPriceDateQuery deps currency item span.start span.finish) run after)
    (progress : Progress storage currency planned (⟨item, span⟩ :: rest) run)
    (exact : ∀ date, span.start ≤ date → date ≤ span.finish →
      (date ∈ dates ↔ storage.Stored run.around
        (queryTarget (dailyPriceDateQuery deps currency item span.start span.finish) date))) :
    Progress storage currency planned
      ((missingDailySpansNewestFirst span dates).map (fun missing => ⟨item, missing⟩) ++ rest)
      after := by
  obtain ⟨around, events⟩ := after
  obtain ⟨rfl, grown⟩ := loaded
  exact progress.rechecked_span exact grown _ _

theorem Loaded.sent_subset {query : DailyPriceDateQuery} {after : Execution σ}
    (loaded : Loaded storage query run after) : run.sent ⊆ after.sent := by
  unfold Execution.sent
  rw [loaded.events, List.filterMap_append]
  exact List.subset_append_left _ _

theorem Fetched.sent_subset {answer : Except PriceHistoryFetchError (List CoinGeckoDailyPrice)}
    {after : Execution σ} (fetched : Fetched storage currency item span answer run after) :
    run.sent ⊆ after.sent := by
  obtain ⟨before, events⟩ := fetched.events
  unfold Execution.sent
  rw [events, List.filterMap_append]
  exact List.subset_append_left _ _

theorem ensures_missingSpansAfterExactRecheck
    (progress : Progress storage currency planned (⟨item, span⟩ :: rest) run) :
    Ensures (missingSpansAfterExactRecheck deps currency item span) run
      (fun missing after =>
        Progress storage currency planned (missing.map (fun part => ⟨item, part⟩) ++ rest) after ∧
          run.sent ⊆ after.sent ∧
            (∃ existing, missing = missingDailySpansNewestFirst span existing) ∧
              (missing = [span] → JustRechecked storage currency item span after))
      (Fails storage currency) := by
  unfold missingSpansAfterExactRecheck
  apply ensures_bind ((ensures_loadDailyPriceDates storage _).mono (fun _ _ => id) ?_)
  · rintro dates after ⟨loaded, exact⟩
    refine ensures_pure ⟨loaded.progress progress exact, loaded.sent_subset, ⟨dates, rfl⟩, ?_⟩
    intro whole
    refine ⟨run.events, run.around, loaded.events, ?_⟩
    intro date holds stored
    have absent := ((exists_holds_missingDailySpansNewestFirst date).mp
      ⟨span, whole ▸ List.mem_cons_self, holds⟩).2
    exact absent ((exact date holds.1 holds.2).mpr stored)
  · rintro error ⟨around, events⟩ ⟨failed, rfl, grown⟩
    exact ⟨failed, progress.toOrderly.loaded _ _ _⟩

/-- The head of the loop over the tries of a span, within a weight of its own. -/
structure Retrying (storage : StoredDates deps) (currency : String)
    (planned queue : List PriceHistoryAssetSpanWork) (item : PriceHistoryAssetWork) (bound : ℕ)
    (begun : Execution σ) (retry : SpanRetry) (run : Execution σ) : Prop where
  kept : begun.sent ⊆ run.sent
  progress : Progress storage currency planned
    (⟨item, retry.currentSpan⟩ :: (retry.deferred ++ queue)) run
  of_asset : ∀ entry ∈ retry.deferred, entry.item.assetKey = item.assetKey
  weight : retry.currentSpan.weight + queueWeight retry.deferred ≤ bound

/-- How far a run has come where the work on a span has ended. -/
def SpanDone (storage : StoredDates deps) (currency : String)
    (planned queue : List PriceHistoryAssetSpanWork) (item : PriceHistoryAssetWork) (bound : ℕ)
    (begun : Execution σ) (outcome : FairSpanExecutionOutcome) (run : Execution σ) : Prop :=
  begun.sent ⊆ run.sent ∧ match outcome.control with
  | .continue => Progress storage currency planned (outcome.deferred ++ queue) run ∧
      (∀ entry ∈ outcome.deferred, entry.item.assetKey = item.assetKey) ∧
        queueWeight outcome.deferred < bound
  | .stopAsset => Progress storage currency planned queue run ∧
      ∃ sent ∈ run.sent, sent.assetKey = item.assetKey ∧ sent.Refused
  | .stopRun => Orderly storage currency run ∧ Halted run

variable {begun : Execution σ} {retry : SpanRetry}

theorem Retrying.queueWeight_lt
    (retrying : Retrying storage currency planned queue item bound begun retry run) :
    queueWeight retry.deferred < bound := by
  have weight := retrying.weight
  unfold DateSpan.weight at weight
  omega

theorem Retrying.spanDone {after : Execution σ}
    (retrying : Retrying storage currency planned queue item bound begun retry run)
    (kept : run.sent ⊆ after.sent)
    (progress : Progress storage currency planned (retry.deferred ++ queue) after) :
    SpanDone storage currency planned queue item bound begun ⟨.continue, retry.deferred⟩ after :=
  ⟨List.Subset.trans retrying.kept kept, progress, retrying.of_asset, retrying.queueWeight_lt⟩

section Asked

variable (retrying : Retrying storage currency planned queue item bound begun retry run)
  (rechecked : JustRechecked storage currency item retry.currentSpan run)
  {answer : Except PriceHistoryFetchError (List CoinGeckoDailyPrice)} {after : Execution σ}
  (fetched : Fetched storage currency item retry.currentSpan answer run after)

include retrying rechecked fetched

theorem Fetched.progress :
    Progress storage currency planned (retry.deferred ++ queue) after := by
  obtain ⟨around, events⟩ := after
  obtain ⟨⟨before, rfl⟩, grown⟩ := fetched
  exact retrying.progress.requested rechecked grown before answer

theorem Fetched.progress_rateLimited
    (limited : ∃ message, answer = .error (.rateLimited message)) :
    Progress storage currency planned
      (⟨item, retry.currentSpan⟩ :: (retry.deferred ++ queue)) after := by
  obtain ⟨around, events⟩ := after
  obtain ⟨⟨before, rfl⟩, grown⟩ := fetched
  exact retrying.progress.rateLimited rechecked grown before answer limited

theorem Fetched.refused
    (refusal : Sent.Refused (spanRequest currency item retry.currentSpan, answer)) :
    SpanDone storage currency planned queue item bound begun ⟨.stopAsset, []⟩ after := by
  have progress := fetched.progress retrying rechecked
  have kept := List.Subset.trans retrying.kept fetched.sent_subset
  obtain ⟨around, events⟩ := after
  obtain ⟨⟨before, rfl⟩, grown⟩ := fetched
  have refused : ∃ sent ∈ (Execution.mk around (run.events ++
      [.requested (spanRequest currency item retry.currentSpan) before answer])).sent,
        sent.assetKey = item.assetKey ∧ sent.Refused := by
    refine ⟨(spanRequest currency item retry.currentSpan, answer), ?_, rfl, refusal⟩
    rw [sent_requested]
    exact List.mem_append_right _ List.mem_cons_self
  exact ⟨kept, progress.drop retrying.of_asset refused, refused⟩

theorem Fetched.halted (limited : ∃ message, answer = .error (.rateLimited message)) :
    SpanDone storage currency planned queue item bound begun ⟨.stopRun, []⟩ after := by
  have progress := fetched.progress retrying rechecked
  have kept := List.Subset.trans retrying.kept fetched.sent_subset
  obtain ⟨around, events⟩ := after
  obtain ⟨⟨before, rfl⟩, grown⟩ := fetched
  obtain ⟨message, rfl⟩ := limited
  exact ⟨kept, progress.toOrderly, _, _, _, _, rfl⟩

end Asked

theorem Unchanged.spanDone {after : Execution σ} {outcome : FairSpanExecutionOutcome}
    (unchanged : Unchanged storage run after)
    (done : SpanDone storage currency planned queue item bound begun outcome run) :
    SpanDone storage currency planned queue item bound begun outcome after := by
  obtain ⟨kept, done⟩ := done
  refine ⟨unchanged.sent ▸ kept, ?_⟩
  split
  all_goals rename_i control; rw [control] at done
  · exact ⟨unchanged.progress done.1, done.2⟩
  · exact ⟨unchanged.progress done.1, unchanged.sent ▸ done.2⟩
  · refine ⟨unchanged.orderly done.1, ?_⟩
    unfold Halted
    rw [unchanged.events]
    exact done.2

theorem ensures_trySpan
    (retrying : Retrying storage currency planned queue item bound begun retry run)
    (rechecked : JustRechecked storage currency item retry.currentSpan run) :
    Ensures (trySpan deps currency item retry) run
      (fun ended after => match ended with
        | .inl next => Retrying storage currency planned queue item bound begun next after ∧
            next.currentSpan = retry.currentSpan ∧
              next.retryDelays.length < retry.retryDelays.length
        | .inr outcome => SpanDone storage currency planned queue item bound begun outcome after)
      (Fails storage currency) := by
  have fetches : Ensures (attempt (fetchAndStoreSpan deps currency item retry.currentSpan)) run
      (Tried storage currency item retry.currentSpan run) (Fails storage currency) :=
    ensures_attempt (ensures_fetchAndStoreSpan storage)
  unfold trySpan
  apply ensures_bind fetches
  rintro ended tried ⟨answer, fetched, origin⟩
  have goesOn := retrying.spanDone fetched.sent_subset (fetched.progress retrying rechecked)
  match ended with
  | .ok () => exact ensures_pure goesOn
  | .error .historyLimit =>
    rcases origin _ rfl with answered | ⟨_, ⟨⟩⟩
    have done := fetched.refused retrying rechecked (.inl answered)
    apply ensures_bind (ensures_recordTerminalHistoricalAttempt storage _ _)
    intro _ after unchanged
    exact ensures_pure (unchanged.spanDone done)
  | .error (.notFound message) =>
    rcases origin _ rfl with answered | ⟨_, ⟨⟩⟩
    have done := fetched.refused retrying rechecked (.inr ⟨message, answered⟩)
    apply ensures_bind (ensures_recordTerminalHistoricalAttempt storage _ _)
    intro _ after unchanged
    exact ensures_pure (unchanged.spanDone done)
  | .error (.rateLimited message) =>
    rcases origin _ rfl with answered | ⟨_, ⟨⟩⟩
    dsimp only
    split
    · rename_i delay later delays
      apply ensures_modify_bind
      apply ensures_pure
      have again := fetched.progress_rateLimited retrying rechecked ⟨message, answered⟩
      have slept : Unchanged storage tried
          { tried with around := deps.sleepAfterRateLimit delay tried.around } :=
        ⟨rfl, storage.sleep_grows delay tried.around⟩
      refine ⟨⟨List.Subset.trans retrying.kept fetched.sent_subset, slept.progress again,
        retrying.of_asset,
        retrying.weight⟩, rfl, ?_⟩
      rw [delays]
      exact Nat.lt_succ_self _
    · have done := fetched.halted retrying rechecked ⟨message, answered⟩
      apply ensures_bind (ensures_recordTerminalHistoricalAttempt storage _ _)
      intro _ after unchanged
      exact ensures_pure (unchanged.spanDone done)
  | .error (.failed message) =>
    apply ensures_bind (ensures_recordTerminalHistoricalAttempt storage _ _)
    intro _ after unchanged
    exact ensures_pure (unchanged.spanDone goesOn)

/-- What the turns of a span are counted by: narrowing it gives all delays back. -/
def retryMeasure (retry : SpanRetry) : ℕ := 3 * retry.currentSpan.days + retry.retryDelays.length

theorem ensures_retryTurn
    (retrying : Retrying storage currency planned queue item bound begun retry run) :
    Ensures (retryTurn deps currency item retry) run
      (fun ended after => match ended with
        | .inl next => Retrying storage currency planned queue item bound begun next after ∧
            retryMeasure next < retryMeasure retry
        | .inr outcome => SpanDone storage currency planned queue item bound begun outcome after)
      (Fails storage currency) := by
  unfold retryTurn
  apply ensures_bind (ensures_missingSpansAfterExactRecheck retrying.progress)
  rintro missing checked ⟨progress, kept, ⟨existing, found⟩, whole⟩
  match missing with
  | [] => exact ensures_pure (retrying.spanDone kept progress)
  | newest :: older =>
    dsimp only
    split
    · rename_i narrower
      have weights := weight_newestFirst_le found.symm
      have fewer := days_newest_lt found.symm narrower
      have weight := retrying.weight
      apply ensures_pure
      refine ⟨⟨List.Subset.trans retrying.kept kept, ?_, ?_, ?_⟩, ?_⟩
      · dsimp only
        rw [List.append_assoc]
        exact progress
      · intro entry member
        rcases List.mem_append.mp member with isNew | isOld
        · obtain ⟨part, -, rfl⟩ := List.mem_map.mp isNew
          rfl
        · exact retrying.of_asset entry isOld
      · rw [queueWeight_append, queueWeight_map]
        dsimp only
        omega
      · have delays : rateLimitRetryDelays.length = 2 := rfl
        unfold retryMeasure
        dsimp only
        omega
    · rename_i same
      have same := not_not.mp same
      obtain ⟨rfl, rfl⟩ := List.cons.inj same
      have again : Retrying storage currency planned queue item bound begun retry checked :=
        ⟨List.Subset.trans retrying.kept kept, progress, retrying.of_asset, retrying.weight⟩
      apply (ensures_trySpan again (whole rfl)).mono _ fun _ _ => id
      intro ended after done
      match ended with
      | .inr outcome => exact done
      | .inl next =>
        obtain ⟨goesOn, current, fewer⟩ := done
        refine ⟨goesOn, ?_⟩
        unfold retryMeasure
        rw [current]
        omega

theorem ensures_fetchAndStoreSpanWithRetries {turns : ℕ} (enough : 3 * span.days + 2 < turns)
    (progress : Progress storage currency planned (⟨item, span⟩ :: queue) run) :
    Ensures (fetchAndStoreSpanWithRetries deps currency turns item span) run
      (SpanDone storage currency planned queue item span.weight run) (Fails storage currency) := by
  unfold fetchAndStoreSpanWithRetries
  apply ensures_loop (Retrying storage currency planned queue item span.weight run) retryMeasure
  · intro retry state retrying
    apply (ensures_retryTurn retrying).mono _ fun _ _ => id
    intro ended after met
    cases ended <;> exact met
  · exact enough
  · exact ⟨List.Subset.refl _, progress, List.forall_mem_nil _, le_rfl⟩

end Retries

section Queue

variable {run : Execution σ} {turns total : ℕ}

/-- The head of the loop over the queue. -/
structure Working (storage : StoredDates deps) (currency : String)
    (planned : List PriceHistoryAssetSpanWork) (total : ℕ) (work : SpanQueue)
    (run : Execution σ) : Prop where
  progress : Progress storage currency planned work.queue run
  stopped : ∀ key ∈ work.stoppedAssets, ∃ sent ∈ run.sent, sent.assetKey = key ∧ sent.Refused
  weight : queueWeight work.queue ≤ total

/-- A run ends with its requests in order, and with every date served unless it was halted. -/
structure Ended (storage : StoredDates deps) (currency : String)
    (planned : List PriceHistoryAssetSpanWork) (run : Execution σ) : Prop
    extends Orderly storage currency run where
  served : Halted run ∨ ∀ target, Sought deps currency target → Covered target planned →
    Served storage run target

theorem ensures_queueTurn {work : SpanQueue} (enough : 3 * total + 2 < turns)
    (working : Working storage currency planned total work run) :
    Ensures (queueTurn deps currency turns work) run
      (fun ended after => match ended with
        | .inl next => Working storage currency planned total next after ∧
            queueWeight next.queue < queueWeight work.queue
        | .inr _ => Ended storage currency planned after)
      (Fails storage currency) := by
  obtain ⟨stoppedAssets, queue⟩ := work
  unfold queueTurn
  match queue with
  | [] =>
    apply ensures_pure
    refine ⟨working.progress.toOrderly, .inr ?_⟩
    intro target sought isPlanned
    rcases working.progress.covered target sought isPlanned with served | ⟨_, ⟨⟩, _⟩
    exact served
  | entry :: queue =>
    have weight := working.weight
    have positive : entry.span.days < entry.span.weight := Nat.lt_succ_self _
    rw [queueWeight_cons] at weight ⊢
    dsimp only
    split
    · rename_i isStopped
      apply ensures_pure
      have refused := working.stopped entry.item.assetKey isStopped
      have ofKey : ∀ dropped ∈ [entry], dropped.item.assetKey = entry.item.assetKey :=
        List.forall_mem_singleton.mpr rfl
      refine ⟨⟨working.progress.drop ofKey refused, working.stopped, ?_⟩, ?_⟩
      · dsimp only
        omega
      · dsimp only
        omega
    · have fits : 3 * entry.span.days + 2 < turns := by omega
      apply ensures_bind (ensures_fetchAndStoreSpanWithRetries fits working.progress)
      rintro outcome after ⟨kept, done⟩
      have stopped : ∀ key ∈ stoppedAssets,
          ∃ sent ∈ after.sent, sent.assetKey = key ∧ sent.Refused := by
        intro key isStopped
        obtain ⟨sent, member, refused⟩ := working.stopped key isStopped
        exact ⟨sent, kept member, refused⟩
      split
      · rename_i control
        rw [control] at done
        obtain ⟨progress, ofAsset, lighter⟩ := done
        apply ensures_pure
        refine ⟨⟨progress.insertDeferred ofAsset, stopped, ?_⟩, ?_⟩
        · dsimp only
          rw [queueWeight_insertDeferred]
          omega
        · dsimp only
          rw [queueWeight_insertDeferred]
          omega
      · rename_i control
        rw [control] at done
        apply ensures_pure
        refine ⟨⟨done.1, ?_, ?_⟩, ?_⟩
        · intro key isStopped
          rcases List.mem_cons.mp isStopped with rfl | earlier
          · exact done.2
          · exact stopped key earlier
        · dsimp only
          omega
        · dsimp only
          omega
      · rename_i control
        rw [control] at done
        exact ensures_pure ⟨done.1, .inl done.2⟩

theorem ensures_executeFairSpanWorkWithDeps {fairWork : List PriceHistoryAssetSpanWork}
    (newestFirst : NewestFirstWork fairWork) (fresh : run.sent = [])
    (rechecked : Rechecked storage currency run.events)
    (enough : 3 * queueWeight fairWork + 2 < turns) :
    Ensures (executeFairSpanWorkWithDeps deps currency turns fairWork) run
      (fun _ after => Ended storage currency fairWork after) (Fails storage currency) := by
  unfold executeFairSpanWorkWithDeps
  apply ensures_loop (Working storage currency fairWork (queueWeight fairWork))
    fun work => queueWeight work.queue
  · intro work state working
    apply (ensures_queueTurn enough working).mono _ fun _ _ => id
    intro ended after met
    cases ended <;> exact met
  · dsimp only
    omega
  · refine ⟨⟨⟨rechecked, ?_⟩, newestFirst, ?_, ?_⟩, List.forall_mem_nil _, le_rfl⟩
    · rw [fresh]
      exact .nil
    · rw [fresh]
      exact List.forall_mem_nil _
    · intro target _ covered
      exact .inr covered

end Queue

end Bitgarth.Prices.SpanExecution
