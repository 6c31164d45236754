import Bitgarth.Prices.BackfillCalls

/-! # What the queue of a backfill run gets done

A span is asked for whole, or narrowed to its newest missing part with the rest put off; so each
turn takes away from the queue's weight, and a date leaves the queue only when it has been
requested or its asset is stopped.
-/

namespace Bitgarth.Prices

open Outcomes

/-- Whether the date has been asked for. -/
def World.Requested (world : World) (target : PriceTarget) : Prop :=
  ∃ request ∈ world.requests, request.AsksFor target

/-- A date that is priced has been asked for, now or earlier. -/
def Accounted (earlier : Prop) (target : PriceTarget) (world : World) : Prop :=
  world.store.Priced target → earlier ∨ world.Requested target

/-- What a part of a run keeps of the account of a date, and which requests it sends. -/
structure Moves (earlier : Prop) (target : PriceTarget) (allowed : PriceRequest → Prop)
    (before after : World) : Prop where
  accounted : Accounted earlier target before → Accounted earlier target after
  requested : before.Requested target → after.Requested target
  allowed : ∀ request ∈ after.requests, request ∈ before.requests ∨ allowed request

/-- Whether an entry holds the date for its asset. -/
def Covered (target : PriceTarget) (entries : List PriceHistoryAssetSpanWork) : Prop :=
  ∃ entry ∈ entries, entry.item.assetKey = target.assetKey ∧ entry.span.Holds target.date

/-- Every request for a span from the entry's start on is allowed. -/
def AllowedFrom (allowed : PriceRequest → Prop) (currency : String)
    (entry : PriceHistoryAssetSpanWork) : Prop :=
  ∀ span : DateSpan, entry.span.start ≤ span.start → allowed (spanRequest currency entry.item span)

/-- Whether the run looks for prices of the date's kind. -/
def PriceTarget.IsOf (target : PriceTarget) (deps : PriceHistoryBackfillDeps)
    (currency : String) : Prop :=
  currency = target.quoteCurrency ∧ deps.licenseScope = target.licenseScope

/-- Whether the provider may refuse the asset for good. -/
def Refusable (deps : PriceHistoryBackfillDeps) (currency : String)
    (item : PriceHistoryAssetWork) : Prop :=
  ∃ span call, askedOf deps currency item span call = .error .historyLimit ∨
    ∃ message, askedOf deps currency item span call = .error (.notFound message)

/-- Whether the provider may answer that it is asked too often. -/
def RateLimitable (deps : PriceHistoryBackfillDeps) (currency : String)
    (item : PriceHistoryAssetWork) : Prop :=
  ∃ span call message, askedOf deps currency item span call = .error (.rateLimited message)

section Moves

variable {earlier : Prop} {target : PriceTarget} {allowed : PriceRequest → Prop}
  {before between after : World}

theorem Moves.of_samePrices (same : before.SamePrices after) :
    Moves earlier target allowed before after where
  accounted accounted := by
    rintro ⟨row, member, isTarget⟩
    rcases accounted ⟨row, same.1 ▸ member, isTarget⟩ with early | ⟨request, sent, asks⟩
    · exact .inl early
    · exact .inr ⟨request, same.2 ▸ sent, asks⟩
  requested := by
    rintro ⟨request, sent, asks⟩
    exact ⟨request, same.2 ▸ sent, asks⟩
  allowed request sent := .inl (same.2 ▸ sent)

theorem Moves.trans (first : Moves earlier target allowed before between)
    (second : Moves earlier target allowed between after) :
    Moves earlier target allowed before after where
  accounted accounted := second.accounted (first.accounted accounted)
  requested requested := second.requested (first.requested requested)
  allowed request sent := by
    rcases second.allowed request sent with early | isAllowed
    · exact first.allowed request early
    · exact .inr isAllowed

theorem Moves.of_asked {currency : String} {item : PriceHistoryAssetWork} {span : DateSpan}
    (asked : Asked currency item span before after)
    (isAllowed : allowed (spanRequest currency item span)) :
    Moves earlier target allowed before after where
  accounted accounted priced := by
    rcases asked.priced target priced with early | asks
    · rcases accounted early with early | ⟨request, sent, asks⟩
      · exact .inl early
      · exact .inr ⟨request, asked.requests ▸ List.mem_append_left _ sent, asks⟩
    · exact .inr ⟨_, asked.requests ▸ List.mem_append_right _ List.mem_cons_self, asks⟩
  requested := by
    rintro ⟨request, sent, asks⟩
    exact ⟨request, asked.requests ▸ List.mem_append_left _ sent, asks⟩
  allowed request sent := by
    rw [asked.requests] at sent
    rcases List.mem_append.mp sent with early | now
    · exact .inl early
    · exact .inr (List.mem_singleton.mp now ▸ isAllowed)

end Moves

@[simp] theorem queueWeight_nil : queueWeight [] = 0 := rfl

@[simp] theorem queueWeight_cons (entry : PriceHistoryAssetSpanWork)
    (queue : List PriceHistoryAssetSpanWork) :
    queueWeight (entry :: queue) = entry.span.weight + queueWeight queue := by
  simp [queueWeight]

@[simp] theorem queueWeight_append (left right : List PriceHistoryAssetSpanWork) :
    queueWeight (left ++ right) = queueWeight left + queueWeight right := by
  simp [queueWeight]

theorem queueWeight_map (item : PriceHistoryAssetWork) (spans : List DateSpan) :
    queueWeight (spans.map fun span => ⟨item, span⟩) = (spans.map DateSpan.weight).sum := by
  simp [queueWeight, Function.comp_def]

/-- What working on a span with retries has done when it ends. -/
structure SpanServed (earlier : Prop) (target : PriceTarget) (allowed : PriceRequest → Prop)
    (deps : PriceHistoryBackfillDeps) (currency : String) (item : PriceHistoryAssetWork)
    (entries : List PriceHistoryAssetSpanWork) (before : World)
    (outcome : FairSpanExecutionOutcome) (after : World) : Prop where
  moves : Moves earlier target allowed before after
  weight : queueWeight outcome.deferred < queueWeight entries
  allowed : ∀ entry ∈ outcome.deferred, AllowedFrom allowed currency entry
  served : Accounted earlier target before → target.IsOf deps currency →
    outcome.control = .continue → Covered target entries →
      earlier ∨ after.Requested target ∨ Covered target outcome.deferred
  stopped : outcome.control = .stopAsset → Refusable deps currency item
  halted : outcome.control = .stopRun → RateLimitable deps currency item

section Spans

variable {earlier : Prop} {target : PriceTarget} {allowed : PriceRequest → Prop}
  {deps : PriceHistoryBackfillDeps} {currency : String} {item : PriceHistoryAssetWork}

/-- How a part of a run may fail: only where the database does, having kept the account. -/
def PartFails (earlier : Prop) (target : PriceTarget) (allowed : PriceRequest → Prop)
    (deps : PriceHistoryBackfillDeps) (before : World) (_ : String) (after : World) : Prop :=
  ¬deps.LoadsSucceed ∧ Moves earlier target allowed before after

theorem partFails_of_loadFails {before after : World} {message : String}
    (failed : LoadFails deps before message after) :
    PartFails earlier target allowed deps before message after :=
  ⟨failed.1, .of_samePrices failed.2.samePrices⟩

theorem priced_or_missing {store : PriceStore} {span : DateSpan}
    (isOf : target.IsOf deps currency) (isKey : item.assetKey = target.assetKey)
    (holds : span.Holds target.date) :
    store.Priced target ∨
      ∃ missing ∈ missingDailySpansNewestFirst span (store.dailyPriceDates
        (dailyPriceDateQuery deps currency item span.start span.finish)),
        missing.Holds target.date := by
  obtain ⟨asset, provider⟩ := Prod.mk.injEq .. ▸ isKey
  have query : dailyPriceDateQuery deps currency item span.start span.finish =
      ⟨target.assetId, target.quoteCurrency, target.providerAssetId, target.licenseScope,
        span.start, span.finish⟩ := by
    simp only [dailyPriceDateQuery, isOf.1, isOf.2]
    rw [← asset, ← provider]
  rw [query, exists_holds_missingDailySpansNewestFirst, mem_dailyPriceDates holds]
  by_cases priced : store.Priced target
  · exact .inl priced
  · exact .inr ⟨holds, priced⟩

theorem covered_after_recheck {world : World} {span : DateSpan}
    {deferred : List PriceHistoryAssetSpanWork} (accounted : Accounted earlier target world)
    (isOf : target.IsOf deps currency) (covered : Covered target (⟨item, span⟩ :: deferred)) :
    (earlier ∨ world.Requested target) ∨
      Covered target ((missingDailySpansNewestFirst span (world.store.dailyPriceDates
        (dailyPriceDateQuery deps currency item span.start span.finish))).map
          (fun span => ⟨item, span⟩) ++ deferred) := by
  obtain ⟨entry, member, isKey, holds⟩ := covered
  rcases List.mem_cons.mp member with rfl | later
  · rcases priced_or_missing isOf isKey holds with priced | ⟨missing, found, holds⟩
    · exact .inl (accounted priced)
    · refine .inr ⟨⟨item, missing⟩, List.mem_append_left _ ?_, isKey, holds⟩
      exact List.mem_map.mpr ⟨missing, found, rfl⟩
  · exact .inr ⟨entry, List.mem_append_right _ later, isKey, holds⟩

theorem SpanServed.of_deferred {span : DateSpan} {deferred : List PriceHistoryAssetSpanWork}
    {before after : World} (moves : Moves earlier target allowed before after)
    (allowedDeferred : ∀ entry ∈ deferred, AllowedFrom allowed currency entry)
    (served : Accounted earlier target before → target.IsOf deps currency →
      item.assetKey = target.assetKey → span.Holds target.date →
        earlier ∨ after.Requested target) :
    SpanServed earlier target allowed deps currency item (⟨item, span⟩ :: deferred) before
      ⟨.continue, deferred⟩ after where
  moves := moves
  weight := by
    simp only [queueWeight_cons, DateSpan.weight]
    omega
  allowed := allowedDeferred
  served accounted isOf _ := by
    rintro ⟨entry, member, isKey, holds⟩
    rcases List.mem_cons.mp member with rfl | later
    · rcases served accounted isOf isKey holds with early | requested
      · exact .inl early
      · exact .inr (.inl requested)
    · exact .inr (.inr ⟨entry, later, isKey, holds⟩)
  stopped := nofun
  halted := nofun

theorem SpanServed.of_stop {span : DateSpan} {deferred : List PriceHistoryAssetSpanWork}
    {before after : World} {control : BackfillControl}
    (moves : Moves earlier target allowed before after) (stops : control ≠ .continue)
    (stopped : control = .stopAsset → Refusable deps currency item)
    (halted : control = .stopRun → RateLimitable deps currency item) :
    SpanServed earlier target allowed deps currency item (⟨item, span⟩ :: deferred) before
      ⟨control, []⟩ after where
  moves := moves
  weight := by
    simp only [queueWeight_cons, queueWeight_nil, DateSpan.weight]
    omega
  allowed := nofun
  served _ _ isContinue := absurd isContinue stops
  stopped := stopped
  halted := halted

theorem SpanServed.of_later {entries later : List PriceHistoryAssetSpanWork}
    {before between after : World} {outcome : FairSpanExecutionOutcome}
    (moves : Moves earlier target allowed before between)
    (lighter : queueWeight later ≤ queueWeight entries)
    (covers : Accounted earlier target before → target.IsOf deps currency →
      Covered target entries → (earlier ∨ between.Requested target) ∨ Covered target later)
    (served : SpanServed earlier target allowed deps currency item later between outcome after) :
    SpanServed earlier target allowed deps currency item entries before outcome after where
  moves := moves.trans served.moves
  weight := lt_of_lt_of_le served.weight lighter
  allowed := served.allowed
  served accounted isOf isContinue covered := by
    rcases covers accounted isOf covered with (early | requested) | later
    · exact .inl early
    · exact .inr (.inl (served.moves.requested requested))
    · exact served.served (moves.accounted accounted) isOf isContinue later
  stopped := served.stopped
  halted := served.halted

theorem ensures_trySpan {retryDelays : List ℕ} {currentSpan : DateSpan}
    {deferred : List PriceHistoryAssetSpanWork} {world : World}
    (allowedEntries : ∀ entry ∈ (⟨item, currentSpan⟩ :: deferred : List _),
      AllowedFrom allowed currency entry) :
    Ensures (trySpan deps currency item retryDelays currentSpan deferred) world
      (fun result after => match result with
        | some outcome => SpanServed earlier target allowed deps currency item
            (⟨item, currentSpan⟩ :: deferred) world outcome after
        | none => retryDelays ≠ [] ∧ Moves earlier target allowed world after)
      (PartFails earlier target allowed deps world) := by
  have allowedDeferred : ∀ entry ∈ deferred, AllowedFrom allowed currency entry :=
    fun entry member => allowedEntries entry (List.mem_cons_of_mem _ member)
  have isAllowed : allowed (spanRequest currency item currentSpan) :=
    allowedEntries _ List.mem_cons_self currentSpan le_rfl
  have served : ∀ after, Asked currency item currentSpan world after →
      SpanServed earlier target allowed deps currency item (⟨item, currentSpan⟩ :: deferred) world
        ⟨.continue, deferred⟩ after := by
    intro after asked
    refine .of_deferred (.of_asked asked isAllowed) allowedDeferred ?_
    intro _ isOf isKey holds
    exact .inr ⟨_, asked.requests ▸ List.mem_append_right _ List.mem_cons_self,
      spanRequest_asksFor isKey isOf.1 holds⟩
  have fetched : Ensures (attempt (fetchAndStoreSpan deps currency item currentSpan)) world
      (fun ended after => Asked currency item currentSpan world after ∧
        ∀ error, ended = .error error → (∃ message, error = .failed message) ∨
          ∃ call, askedOf deps currency item currentSpan call = .error error)
      (PartFails earlier target allowed deps world) := by
    refine ensures_attempt (ensures_fetchAndStoreSpan.mono ?_ ?_)
    · intro _ after asked
      exact ⟨asked, nofun⟩
    · rintro error after ⟨origin, asked⟩
      refine ⟨asked, ?_⟩
      rintro _ ⟨⟩
      exact origin
  refine ensures_bind fetched ?_
  rintro ended tried ⟨asked, origin⟩
  have moved : Moves earlier target allowed world tried := .of_asked asked isAllowed
  split
  · exact ensures_pure (served tried asked)
  · refine ensures_bind (ensures_recordTerminalHistoricalAttempt _ _ _ _) fun _ after same => ?_
    refine ensures_pure (.of_stop (moved.trans (.of_samePrices same)) nofun (fun _ => ?_) nofun)
    rcases origin _ rfl with ⟨_, ⟨⟩⟩ | ⟨call, answered⟩
    exact ⟨currentSpan, call, .inl answered⟩
  · refine ensures_bind (ensures_recordTerminalHistoricalAttempt _ _ _ _) fun _ after same => ?_
    refine ensures_pure (.of_stop (moved.trans (.of_samePrices same)) nofun (fun _ => ?_) nofun)
    rcases origin _ rfl with ⟨_, ⟨⟩⟩ | ⟨call, answered⟩
    exact ⟨currentSpan, call, .inr ⟨_, answered⟩⟩
  · split
    · exact ensures_pure ⟨List.cons_ne_nil _ _, moved⟩
    · refine ensures_bind (ensures_recordTerminalHistoricalAttempt _ _ _ _) fun _ after same => ?_
      refine ensures_pure (.of_stop (moved.trans (.of_samePrices same)) nofun nofun fun _ => ?_)
      rcases origin _ rfl with ⟨_, ⟨⟩⟩ | ⟨call, answered⟩
      exact ⟨currentSpan, call, _, answered⟩
  · refine ensures_bind (ensures_recordTerminalHistoricalAttempt _ _ _ _) fun _ after same => ?_
    exact ensures_pure (served after (asked.of_samePrices same))

theorem ensures_retrySpan {turns : ℕ} {retryDelays : List ℕ} {currentSpan : DateSpan}
    {deferred : List PriceHistoryAssetSpanWork} {world : World}
    (enough : 3 * currentSpan.days + retryDelays.length < turns)
    (allowedEntries : ∀ entry ∈ (⟨item, currentSpan⟩ :: deferred : List _),
      AllowedFrom allowed currency entry) :
    Ensures (retrySpan deps currency item turns retryDelays currentSpan deferred) world
      (SpanServed earlier target allowed deps currency item (⟨item, currentSpan⟩ :: deferred) world)
      (PartFails earlier target allowed deps world) := by
  induction turns generalizing retryDelays currentSpan deferred world with
  | zero => omega
  | succ turns ih =>
    have allowedDeferred : ∀ entry ∈ deferred, AllowedFrom allowed currency entry :=
      fun entry member => allowedEntries entry (List.mem_cons_of_mem _ member)
    rw [retrySpan]
    refine ensures_bind ((ensures_missingSpansAfterExactRecheck _ _).mono (fun _ _ => id)
      fun _ _ => partFails_of_loadFails) ?_
    rintro spans checked ⟨found, same⟩
    have moved : Moves earlier target allowed world checked := .of_samePrices same.samePrices
    have fails : ∀ message after, PartFails earlier target allowed deps checked message after →
        PartFails earlier target allowed deps world message after :=
      fun _ _ failed => ⟨failed.1, moved.trans failed.2⟩
    cases spans with
    | nil =>
      refine ensures_pure (.of_deferred moved allowedDeferred ?_)
      intro accounted isOf isKey holds
      rcases priced_or_missing isOf isKey holds with priced | ⟨missing, member, _⟩
      · exact (accounted priced).imp_right moved.requested
      · rw [← found] at member
        cases member
    | cons newest older =>
      dsimp only
      by_cases narrower : newest :: older ≠ [currentSpan]
      · rw [if_pos narrower]
        have fewer := days_newest_lt found.symm narrower
        have lighter := weight_newestFirst_le found.symm
        have allowedLater : ∀ entry ∈ ((newest :: older).map (fun span => ⟨item, span⟩) ++
            deferred : List PriceHistoryAssetSpanWork), AllowedFrom allowed currency entry := by
          intro entry member
          rcases List.mem_append.mp member with now | later
          · obtain ⟨span, isMissing, rfl⟩ := List.mem_map.mp now
            have within := within_of_mem_newestFirst (found ▸ isMissing)
            intro part after
            exact allowedEntries _ List.mem_cons_self part (le_trans within.1 after)
          · exact allowedDeferred entry later
        refine (ih ?_ allowedLater).mono (fun outcome after => ?_) fails
        · simp only [rateLimitRetryDelays, List.length_cons, List.length_nil]
          omega
        · refine .of_later moved ?_ ?_
          · have later := (queueWeight_map item (newest :: older)).trans
              (@List.sum_cons _ _ _ newest.weight (older.map DateSpan.weight))
            refine le_of_eq_of_le
              (queueWeight_append ((newest :: older).map fun span => ⟨item, span⟩) deferred) ?_
            rw [later, queueWeight_cons]
            exact Nat.add_le_add_right lighter _
          · intro accounted isOf covered
            have covers := covered_after_recheck accounted isOf covered
            rw [← found] at covers
            exact covers.imp_left (Or.imp_right moved.requested)
      · rw [if_neg narrower]
        refine ensures_bind ((ensures_trySpan allowedEntries).mono (fun _ _ => id) fails) ?_
        intro result tried ended
        have same : ∀ outcome after, SpanServed earlier target allowed deps currency item
            (⟨item, currentSpan⟩ :: deferred) checked outcome after →
            SpanServed earlier target allowed deps currency item
              (⟨item, currentSpan⟩ :: deferred) world outcome after :=
          fun _ _ => .of_later moved le_rfl fun _ _ => .inr
        cases result with
        | some outcome => exact ensures_pure (same _ _ ended)
        | none =>
          obtain ⟨left, retried⟩ := ended
          have shorter : retryDelays.tail.length < retryDelays.length := by
            cases retryDelays with
            | nil => exact absurd rfl left
            | cons delay later => exact Nat.lt_succ_self _
          refine (ih (by omega) allowedEntries).mono (fun outcome after served => ?_) ?_
          · exact same _ _ (.of_later retried le_rfl (fun _ _ => .inr) served)
          · intro message after failed
            exact fails _ _ ⟨failed.1, retried.trans failed.2⟩

theorem queueWeight_insertDeferred (key : String × String)
    (deferred queue : List PriceHistoryAssetSpanWork) :
    queueWeight (insertDeferred key deferred queue) = queueWeight deferred + queueWeight queue := by
  have whole := congrArg queueWeight
    (@List.takeWhile_append_dropWhile _ (fun queued => queued.item.assetKey ≠ key) queue)
  rw [queueWeight_append] at whole
  rw [insertDeferred, queueWeight_append, queueWeight_append]
  omega

theorem mem_insertDeferred {key : String × String}
    {deferred queue : List PriceHistoryAssetSpanWork} {entry : PriceHistoryAssetSpanWork} :
    entry ∈ insertDeferred key deferred queue ↔ entry ∈ deferred ∨ entry ∈ queue := by
  have whole := congrArg (entry ∈ ·)
    (@List.takeWhile_append_dropWhile _ (fun queued => queued.item.assetKey ≠ key) queue)
  simp only [List.mem_append] at whole
  simp only [insertDeferred, List.mem_append, ← whole]
  tauto

theorem ensures_fetchAndStoreMissingSpan {span : DateSpan} {world : World}
    (allowedEntry : AllowedFrom allowed currency ⟨item, span⟩) :
    Ensures (fetchAndStoreMissingSpan deps currency item span) world
      (SpanServed earlier target allowed deps currency item [⟨item, span⟩] world)
      (PartFails earlier target allowed deps world) := by
  refine ensures_retrySpan ?_ (List.forall_mem_singleton.mpr allowedEntry)
  rw [show rateLimitRetryDelays.length = 2 from rfl]
  omega

/-- What draining a queue has done when it ends: where the provider neither refuses the date's
asset nor asks for fewer calls, a date that was covered is accounted for. -/
structure QueueServed (earlier : Prop) (target : PriceTarget) (allowed : PriceRequest → Prop)
    (deps : PriceHistoryBackfillDeps) (currency : String) (stopped : List (String × String))
    (queue : List PriceHistoryAssetSpanWork) (before after : World) : Prop where
  moves : Moves earlier target allowed before after
  served : Accounted earlier target before → target.IsOf deps currency →
    (∀ item : PriceHistoryAssetWork, item.assetKey = target.assetKey →
      ¬Refusable deps currency item) →
    (∀ item, ¬RateLimitable deps currency item) → target.assetKey ∉ stopped →
    Covered target queue → earlier ∨ after.Requested target

theorem ensures_drainQueue {turns : ℕ} {stopped : List (String × String)}
    {queue : List PriceHistoryAssetSpanWork} {world : World} (enough : queueWeight queue < turns)
    (allowedEntries : ∀ entry ∈ queue, AllowedFrom allowed currency entry) :
    Ensures (drainQueue deps currency turns stopped queue) world
      (fun _ after => QueueServed earlier target allowed deps currency stopped queue world after)
      (PartFails earlier target allowed deps world) := by
  induction turns generalizing stopped queue world with
  | zero => omega
  | succ turns ih =>
    cases queue with
    | nil =>
      refine ensures_pure ⟨.of_samePrices ⟨rfl, rfl⟩, ?_⟩
      rintro _ _ _ _ _ ⟨_, ⟨⟩, _⟩
    | cons entry queue =>
      have allowedLater : ∀ entry ∈ queue, AllowedFrom allowed currency entry :=
        fun later member => allowedEntries later (List.mem_cons_of_mem _ member)
      rw [queueWeight_cons] at enough
      rw [drainQueue]
      have positive : 0 < entry.span.weight := Nat.succ_pos _
      split
      · rename_i isStopped
        refine (ih (by omega) allowedLater).mono (fun _ after later => ?_) fun _ _ => id
        refine ⟨later.moves, fun accounted isOf refusable limited notStopped => ?_⟩
        rintro ⟨held, member, isKey, holds⟩
        rcases List.mem_cons.mp member with rfl | inQueue
        · exact absurd (isKey ▸ isStopped) notStopped
        · exact later.served accounted isOf refusable limited notStopped
            ⟨held, inQueue, isKey, holds⟩
      · refine ensures_bind ((ensures_fetchAndStoreMissingSpan
          (allowedEntries entry List.mem_cons_self)).mono (fun _ _ => id) fun _ _ => id) ?_
        intro outcome between done
        have fails : ∀ message after,
            PartFails earlier target allowed deps between message after →
              PartFails earlier target allowed deps world message after :=
          fun _ _ failed => ⟨failed.1, done.moves.trans failed.2⟩
        have lighter := done.weight
        simp only [queueWeight_cons, queueWeight_nil] at lighter
        split
        · rename_i isContinue
          have allowedNext : ∀ held ∈ insertDeferred entry.item.assetKey outcome.deferred queue,
              AllowedFrom allowed currency held := by
            intro held member
            rcases mem_insertDeferred.mp member with new | old
            · exact done.allowed held new
            · exact allowedLater held old
          refine (ih ?_ allowedNext).mono (fun _ after later => ?_) fails
          · rw [queueWeight_insertDeferred]
            omega
          refine ⟨done.moves.trans later.moves, ?_⟩
          rintro accounted isOf refusable limited notStopped ⟨held, member, isKey, holds⟩
          have goesOn := later.served (done.moves.accounted accounted) isOf refusable limited
            notStopped
          rcases List.mem_cons.mp member with rfl | inQueue
          · rcases done.served accounted isOf isContinue
              ⟨_, List.mem_cons_self, isKey, holds⟩ with early | requested | covered
            · exact .inl early
            · exact .inr (later.moves.requested requested)
            · obtain ⟨put, isPut, covers⟩ := covered
              exact goesOn ⟨put, mem_insertDeferred.mpr (.inl isPut), covers⟩
          · exact goesOn ⟨held, mem_insertDeferred.mpr (.inr inQueue), isKey, holds⟩
        · rename_i isStop
          refine (ih (by omega) allowedLater).mono (fun _ after later => ?_) fails
          refine ⟨done.moves.trans later.moves, ?_⟩
          rintro accounted isOf refusable limited notStopped ⟨held, member, isKey, holds⟩
          have other : entry.item.assetKey ≠ target.assetKey :=
            fun same => refusable entry.item same (done.stopped isStop)
          rcases List.mem_cons.mp member with rfl | inQueue
          · exact absurd isKey other
          · refine later.served (done.moves.accounted accounted) isOf refusable limited ?_
              ⟨held, inQueue, isKey, holds⟩
            rw [List.mem_cons, not_or]
            exact ⟨other.symm, notStopped⟩
        · rename_i isHalt
          refine ensures_pure ⟨done.moves, ?_⟩
          intro _ _ _ limited
          exact absurd (done.halted isHalt) (limited entry.item)

theorem ensures_executeFairSpanWork {fairWork : List PriceHistoryAssetSpanWork} {world : World}
    (allowedEntries : ∀ entry ∈ fairWork, AllowedFrom allowed currency entry) :
    Ensures (executeFairSpanWork deps currency fairWork) world
      (fun _ after => QueueServed earlier target allowed deps currency [] fairWork world after)
      (PartFails earlier target allowed deps world) :=
  ensures_drainQueue (Nat.lt_succ_self _) allowedEntries

end Spans

end Bitgarth.Prices
