import Mathlib.Data.List.Infix
import Bitgarth.Sync.RateLimit

/-! # The backoff of Mempool under the gate

A request is sent only while its scope is free, so a hit finds the block before it in force
only when its request was in flight already. `escalates_iff` says which runs of the gate double
the backoff, and `hits_eq_one_of_oneAtATime` that runs with one request at a time never do.
Both read the limiter, so no hit may have overflowed and poisoned its lock.
-/

namespace Bitgarth.Sync

open Duration

variable {UserId : Type} [DecidableEq UserId] (hash : RateLimitScopeKey UserId → ℕ)
  (userId : UserId)

/-! ## The gate protocol -/

/-- What happens at a user's Mempool scope, and other calls of the limiter. -/
inductive GateEvent (UserId : Type) where
  | sent (now : ℕ)
  | rateLimited (now : ℕ) (retryAfter : Option ℕ)
  | succeeded (now : ℕ)
  | called (call : RateLimitCall UserId)
deriving DecidableEq

omit [DecidableEq UserId] in
def GateEvent.now : GateEvent UserId → ℕ
  | .sent now | .rateLimited now _ | .succeeded now => now
  | .called call => call.now

omit [DecidableEq UserId] in
@[simp]
theorem GateEvent.now_rateLimited (now : ℕ) (retryAfter : Option ℕ) :
    (GateEvent.rateLimited now retryAfter : GateEvent UserId).now = now := rfl

/-- The limiter, the requests in flight and the rate-limited responses in a row. -/
structure GateState (UserId : Type) where
  limiter : RateLimiter UserId
  inFlight : ℕ
  limitedInARow : ℕ

/-- The scope of a user at Mempool. -/
def mempoolScope (userId : UserId) : RateLimitScopeKey UserId where
  userId
  integration := labelMempool

def GateEvent.apply (s : GateState UserId) : GateEvent UserId → GateState UserId
  | .sent now =>
    { s with
      limiter := (isRateLimited s.limiter userId labelMempool now).2
      inFlight := s.inFlight + 1 }
  | .rateLimited now retryAfter =>
    { limiter := recordRateLimit hash s.limiter userId labelMempool now retryAfter
      inFlight := s.inFlight - 1
      limitedInARow := s.limitedInARow + 1 }
  | .succeeded _ => { s with inFlight := s.inFlight - 1, limitedInARow := 0 }
  | .called call => { s with limiter := call.apply hash s.limiter }

/-- The state after events. -/
def gateAfter (events : List (GateEvent UserId)) : GateState UserId :=
  events.foldl (GateEvent.apply hash userId)
    { limiter := .usable ∅, inFlight := 0, limitedInARow := 0 }

/-- Recording the hit of an event panics: its block would end past the last instant. -/
def GateEvent.Overflows (limiter : RateLimiter UserId) : GateEvent UserId → Prop
  | .rateLimited now retryAfter =>
    (RateLimitCall.recordRateLimit userId labelMempool now retryAfter).Overflows hash limiter
  | .called call => call.Overflows hash limiter
  | .sent _ | .succeeded _ => False

/-- No event overflows. -/
def NeverOverflows (events : List (GateEvent UserId)) : Prop :=
  ∀ before event, before ++ [event] <+: events →
    ¬ event.Overflows hash userId (gateAfter hash userId before).limiter

/-- Requests are sent while the scope is free, responses answer requests in flight, and only
rate-limited responses record a hit of the scope. -/
def GateState.Allows (s : GateState UserId) : GateEvent UserId → Prop
  | .sent now => (isRateLimited s.limiter userId labelMempool now).1 = false
  | .rateLimited _ _ | .succeeded _ => 0 < s.inFlight
  | .called call =>
    ∀ now retryAfter, call ≠ .recordRateLimit userId labelMempool now retryAfter

/-- Events in the order of their instants, each allowed by the gate. -/
structure FollowsGate (events : List (GateEvent UserId)) : Prop where
  inTime : events.Pairwise fun earlier later => earlier.now ≤ later.now
  allowed : ∀ before event, before ++ [event] <+: events →
    (gateAfter hash userId before).Allows userId event

/-- What the hit in a row of this number is to be blocked for. -/
def escalatedBackoff (inARow : ℕ) : ℕ :=
  min (mempoolRateLimitBackoffBase * 2 ^ (inARow - 1)) mempoolRateLimitBackoffMax

/-- Every rate-limited response blocks the scope for as long as its number in a row asks. -/
def Escalates (events : List (GateEvent UserId)) : Prop :=
  ∀ before now retryAfter, before ++ [.rateLimited now retryAfter] <+: events →
    ∃ state ∈ (gateAfter hash userId (before ++ [.rateLimited now retryAfter])).limiter.lookup
        (mempoolScope userId),
      now + escalatedBackoff ((gateAfter hash userId before).limitedInARow + 1) ≤
        state.blockedUntil

/-! ## Hits -/

omit [DecidableEq UserId] in
def GateEvent.hit : GateEvent UserId → Option (ℕ × Option ℕ)
  | .rateLimited now retryAfter => some (now, retryAfter)
  | _ => none

omit [DecidableEq UserId] in
/-- The instants and `Retry-After`s of the rate-limited responses. -/
def hitsOf (events : List (GateEvent UserId)) : List (ℕ × Option ℕ) :=
  events.filterMap GateEvent.hit

/-- The block that hits alone leave. -/
def blockAfterHits (hits : List (ℕ × Option ℕ)) : Option RateLimitState :=
  hits.foldl (fun previous hit =>
    some
      { blockedUntil := hit.1 + rateLimitBackoffForScope hash (mempoolScope userId)
          (nextHits previous hit.1) hit.2
        consecutiveHits := nextHits previous hit.1 }) none

/-- No hit overflows up to any rate-limited response, which has a `Retry-After` as long as its
number in a row asks, or comes while the block before it is in force, which came while the one
before it was, and so on for as many responses in a row, at most four. -/
def Overlaps (events : List (GateEvent UserId)) : Prop :=
  ∀ before now retryAfter, before ++ [.rateLimited now retryAfter] <+: events →
    NeverOverflows hash userId (before ++ [.rateLimited now retryAfter]) ∧
    ((∃ asked ∈ retryAfter,
      escalatedBackoff ((gateAfter hash userId before).limitedInARow + 1) ≤ asked) ∨
    min ((gateAfter hash userId before).limitedInARow + 1) 4 ≤
      nextHits (blockAfterHits hash userId (hitsOf before)) now)

section Hits

variable {hash} {userId} {events before : List (GateEvent UserId)}

theorem gateAfter_concat (events : List (GateEvent UserId)) (event : GateEvent UserId) :
    gateAfter hash userId (events ++ [event]) =
      event.apply hash userId (gateAfter hash userId events) := by
  unfold gateAfter
  rw [List.foldl_append, List.foldl_cons, List.foldl_nil]

/-- A limiter is poisoned by an event that overflows, and stays so. -/
theorem limiter_apply_eq_poisoned_iff {s : GateState UserId} {event : GateEvent UserId} :
    (event.apply hash userId s).limiter = .poisoned ↔
      s.limiter = .poisoned ∨ event.Overflows hash userId s.limiter := by
  cases event with
  | sent now =>
    change (RateLimitCall.isRateLimited userId labelMempool now).apply hash s.limiter = .poisoned ↔
      s.limiter = .poisoned ∨
        (RateLimitCall.isRateLimited userId labelMempool now).Overflows hash s.limiter
    exact apply_eq_poisoned_iff
  | rateLimited now retryAfter =>
    change (RateLimitCall.recordRateLimit userId labelMempool now retryAfter).apply hash
        s.limiter = .poisoned ↔ s.limiter = .poisoned ∨
      (RateLimitCall.recordRateLimit userId labelMempool now retryAfter).Overflows hash s.limiter
    exact apply_eq_poisoned_iff
  | succeeded now => exact (or_false _).symm.to_iff
  | called call => exact apply_eq_poisoned_iff

theorem NeverOverflows.of_prefix (never : NeverOverflows hash userId events)
    (within : before <+: events) : NeverOverflows hash userId before :=
  fun earlier event isPrefix => never earlier event (isPrefix.trans within)

/-- The lock of a run is usable exactly while no hit has overflowed. -/
theorem limiter_gateAfter_ne_poisoned_iff :
    (gateAfter hash userId events).limiter ≠ .poisoned ↔ NeverOverflows hash userId events := by
  induction events using List.reverseRecOn with
  | nil =>
    refine iff_of_true nofun fun before event within => ?_
    exact absurd (List.prefix_nil.mp within) (by simp)
  | append_singleton events last ih =>
    rw [gateAfter_concat, Ne, limiter_apply_eq_poisoned_iff, not_or, ← Ne, ih]
    constructor
    · rintro ⟨never, fits⟩ before event within
      rcases List.prefix_concat_iff.mp within with same | shorter
      · obtain ⟨rfl, isEvent⟩ := List.append_inj' same rfl
        obtain rfl := List.singleton_injective isEvent
        exact fits
      · exact never before event shorter
    · exact fun never => ⟨never.of_prefix (List.prefix_append _ _), never _ _ List.prefix_rfl⟩

omit [DecidableEq UserId] in
theorem hitsOf_concat_of_none {event : GateEvent UserId} (none : event.hit = none) :
    hitsOf (events ++ [event]) = hitsOf events := by
  unfold hitsOf
  rw [List.filterMap_append, List.filterMap_cons_none none, List.filterMap_nil, List.append_nil]

omit [DecidableEq UserId] in
theorem hitsOf_concat_rateLimited (events : List (GateEvent UserId)) (now : ℕ)
    (retryAfter : Option ℕ) :
    hitsOf (events ++ [.rateLimited now retryAfter]) = hitsOf events ++ [(now, retryAfter)] := by
  unfold hitsOf
  rw [List.filterMap_append]
  rfl

omit [DecidableEq UserId] in
theorem blockAfterHits_concat (hits : List (ℕ × Option ℕ)) (now : ℕ) (retryAfter : Option ℕ) :
    blockAfterHits hash userId (hits ++ [(now, retryAfter)]) =
      some
        { blockedUntil := now + rateLimitBackoffForScope hash (mempoolScope userId)
            (nextHits (blockAfterHits hash userId hits) now) retryAfter
          consecutiveHits := nextHits (blockAfterHits hash userId hits) now } := by
  unfold blockAfterHits
  rw [List.foldl_append, List.foldl_cons, List.foldl_nil]

/-- What is stored of a block is the block, or nothing once it is over. -/
def StoresBlock (stored block : Option RateLimitState) (now : ℕ) : Prop :=
  stored = block ∨ stored = none ∧ ∀ state ∈ block, state.blockedUntil ≤ now

theorem StoresBlock.mono {stored block : Option RateLimitState} {earlier now : ℕ}
    (stores : StoresBlock stored block earlier) (le : earlier ≤ now) :
    StoresBlock stored block now :=
  stores.imp_right fun ⟨gone, past⟩ => ⟨gone, fun state isBlock => (past state isBlock).trans le⟩

theorem StoresBlock.nextHits {stored block : Option RateLimitState} {now : ℕ}
    (stores : StoresBlock stored block now) : nextHits stored now = nextHits block now := by
  rcases stores with rfl | ⟨rfl, past⟩
  · rfl
  · cases block with
    | none => rfl
    | some state =>
      have ended := past state rfl
      exact (if_neg (not_lt.mpr ended)).symm

theorem StoresBlock.keeps {limiter after : RateLimiter UserId} {scope : RateLimitScopeKey UserId}
    {block : Option RateLimitState} {now : ℕ}
    (stores : StoresBlock (limiter.lookup scope) block now)
    (keeps : KeepsBlock limiter after scope now) : StoresBlock (after.lookup scope) block now := by
  rcases keeps with same | ⟨gone, past⟩
  · rwa [same]
  · refine .inr ⟨gone, fun state isBlock => ?_⟩
    rcases stores with same | ⟨_, ended⟩
    · exact past state (same.trans isBlock)
    · exact ended state isBlock

/-- Without an overflow the limiter has the block that the hits alone leave. -/
theorem storesBlock_gateAfter (follows : FollowsGate hash userId events)
    (within : before <+: events) (never : NeverOverflows hash userId before) {now : ℕ}
    (later : ∀ event ∈ before, event.now ≤ now) :
    StoresBlock ((gateAfter hash userId before).limiter.lookup (mempoolScope userId))
      (blockAfterHits hash userId (hitsOf before)) now := by
  induction before using List.reverseRecOn generalizing now with
  | nil => exact .inl rfl
  | append_singleton before event ih =>
    have order := (List.pairwise_append.mp (follows.inTime.sublist within.sublist)).2.2
    have stores := ih ((List.prefix_append _ _).trans within)
      (never.of_prefix (List.prefix_append _ _))
      fun other member => order other member event (List.mem_singleton_self _)
    have reached : event.now ≤ now := later event (by simp)
    have usable := limiter_gateAfter_ne_poisoned_iff.mpr never
    rw [gateAfter_concat] at usable ⊢
    cases event with
    | sent sentAt =>
      rw [hitsOf_concat_of_none rfl]
      have kept := stores.keeps (keepsBlock_isRateLimited userId labelMempool sentAt)
      exact kept.mono reached
    | succeeded succeededAt =>
      rw [hitsOf_concat_of_none rfl]
      exact stores.mono reached
    | rateLimited limitedAt retryAfter =>
      have recorded := lookup_recordRateLimit usable
      have hits : nextHits ((gateAfter hash userId before).limiter.lookup
          (mempoolScope userId)) limitedAt =
            nextHits (blockAfterHits hash userId (hitsOf before)) limitedAt := stores.nextHits
      rw [hitsOf_concat_rateLimited, blockAfterHits_concat, ← hits]
      exact .inl recorded
    | called call =>
      rw [hitsOf_concat_of_none rfl]
      have other := follows.allowed before (.called call) within
      rcases lookup_apply (mempoolScope userId) usable with
        ⟨_, _, isRecord, _⟩ | ⟨_, keeps⟩
      · exact absurd isRecord (other _ _)
      · exact (stores.keeps keeps).mono reached

theorem nextHits_pos (previous : Option RateLimitState) (now : ℕ) :
    0 < nextHits previous now := by
  unfold nextHits
  split
  · split
    · exact lt_min (Nat.succ_pos _) (by decide)
    · exact Nat.one_pos
  · exact Nat.one_pos

theorem escalatedBackoff_eq (inARow : ℕ) :
    escalatedBackoff inARow =
      if inARow ≤ 1 then fromSecs 60
      else if inARow = 2 then fromSecs 120
      else if inARow = 3 then fromSecs 240
      else mempoolRateLimitBackoffMax := by
  rcases inARow with _ | _ | _ | _ | more
  iterate 4 decide
  rw [if_neg (by omega), if_neg (by omega), if_neg (by omega)]
  apply min_eq_right
  have doubled : 2 ^ 3 ≤ 2 ^ (more + 4 - 1) := Nat.pow_le_pow_right (by decide) (by omega)
  calc mempoolRateLimitBackoffMax ≤ mempoolRateLimitBackoffBase * 2 ^ 3 := by decide
    _ ≤ mempoolRateLimitBackoffBase * 2 ^ (more + 4 - 1) := Nat.mul_le_mul_left _ doubled

variable (hash) (userId) in
omit [DecidableEq UserId] in
theorem escalatedBackoff_le_iff {inARow hits : ℕ} (positive : 0 < hits) (retryAfter : Option ℕ) :
    escalatedBackoff inARow ≤
        rateLimitBackoffForScope hash (mempoolScope userId) hits retryAfter ↔
      (∃ asked ∈ retryAfter, escalatedBackoff inARow ≤ asked) ∨ min inARow 4 ≤ hits := by
  have counted : escalatedBackoff inARow ≤
      rateLimitBackoffForScope hash (mempoolScope userId) hits none ↔ min inARow 4 ≤ hits := by
    have other : (mempoolScope userId).integration ≠ labelEtherscan := by
      change labelMempool ≠ labelEtherscan
      decide
    obtain ⟨lower, upper⟩ := rateLimitBackoffForScope_none_bounds hash other hits
    generalize rateLimitBackoffForScope hash (mempoolScope userId) hits none = backoff
      at lower upper ⊢
    rw [cappedMempoolRateLimitBackoff_eq] at lower upper
    rw [escalatedBackoff_eq]
    simp only [mempoolRateLimitBackoffMax, fromSecs, fromMillis, nanosPerMilli] at lower upper ⊢
    grind
  cases retryAfter with
  | none => simp [counted]
  | some asked =>
    rw [rateLimitBackoffForScope_some, le_max_iff, counted, or_comm]
    simp

/-- A rate-limited response that does not overflow leaves the block of its hit. -/
theorem lookup_gateAfter_rateLimited (follows : FollowsGate hash userId events) {now : ℕ}
    {retryAfter : Option ℕ} (within : before ++ [.rateLimited now retryAfter] <+: events)
    (never : NeverOverflows hash userId (before ++ [.rateLimited now retryAfter])) :
    (gateAfter hash userId (before ++ [.rateLimited now retryAfter])).limiter.lookup
        (mempoolScope userId) =
      some
        { blockedUntil := now + rateLimitBackoffForScope hash (mempoolScope userId)
            (nextHits (blockAfterHits hash userId (hitsOf before)) now) retryAfter
          consecutiveHits := nextHits (blockAfterHits hash userId (hitsOf before)) now } := by
  have order := (List.pairwise_append.mp (follows.inTime.sublist within.sublist)).2.2
  have stores := storesBlock_gateAfter follows ((List.prefix_append _ _).trans within)
    (never.of_prefix (List.prefix_append _ _))
    fun event member => order event member _ (List.mem_singleton_self _)
  have usable := limiter_gateAfter_ne_poisoned_iff.mpr never
  have hits : nextHits ((gateAfter hash userId before).limiter.lookup (mempoolScope userId)) now =
      nextHits (blockAfterHits hash userId (hitsOf before)) now := stores.nextHits
  rw [gateAfter_concat] at usable ⊢
  rw [← hits]
  exact lookup_recordRateLimit usable

/-- **Mempool backoffs escalate** exactly when no hit overflows and every rate-limited response
asks for it itself or overlaps with as many hits before it. -/
theorem escalates_iff (follows : FollowsGate hash userId events) :
    Escalates hash userId events ↔ Overlaps hash userId events := by
  unfold Escalates Overlaps
  refine forall_congr' fun before => forall_congr' fun now => forall_congr' fun retryAfter =>
    forall_congr' fun within => ?_
  rw [← escalatedBackoff_le_iff hash userId (nextHits_pos _ _)]
  constructor
  · rintro ⟨state, isState, blocked⟩
    have never := limiter_gateAfter_ne_poisoned_iff.mp fun poisoned => by
      rw [poisoned] at isState
      cases isState
    have recorded := lookup_gateAfter_rateLimited follows within never
    obtain rfl := Option.some.inj (recorded.symm.trans isState)
    exact ⟨never, Nat.le_of_add_le_add_left blocked⟩
  · rintro ⟨never, enough⟩
    exact ⟨_, lookup_gateAfter_rateLimited follows within never, Nat.add_le_add_left enough _⟩

/-- At most one request is in flight at any time. -/
def OneAtATime (hash : RateLimitScopeKey UserId → ℕ) (userId : UserId)
    (events : List (GateEvent UserId)) : Prop :=
  ∀ before, before <+: events → (gateAfter hash userId before).inFlight ≤ 1

theorem over_of_oneAtATime (follows : FollowsGate hash userId events)
    (single : OneAtATime hash userId events) (within : before <+: events)
    (never : NeverOverflows hash userId before)
    (flying : 0 < (gateAfter hash userId before).inFlight) :
    ∃ event ∈ before, ∀ state ∈ blockAfterHits hash userId (hitsOf before),
      state.blockedUntil ≤ event.now := by
  induction before using List.reverseRecOn with
  | nil => exact absurd flying (lt_irrefl 0)
  | append_singleton before event ih =>
    have earlier : before <+: events := (List.prefix_append _ _).trans within
    have atMost := single before earlier
    have shorter := never.of_prefix (List.prefix_append _ _)
    rw [gateAfter_concat] at flying
    cases event with
    | sent now =>
      have order := (List.pairwise_append.mp (follows.inTime.sublist within.sublist)).2.2
      have stores := storesBlock_gateAfter follows earlier shorter
        fun event member => order event member _ (List.mem_singleton_self _)
      have free := follows.allowed before (.sent now) within
      rw [hitsOf_concat_of_none rfl]
      refine ⟨.sent now, by simp, fun state isBlock => ?_⟩
      by_contra inForce
      rcases stores with same | ⟨_, past⟩
      · have limited := isRateLimited_eq_true.mpr
          ⟨state, same.trans isBlock, not_le.mp inForce⟩
        exact absurd (limited.symm.trans free) (by simp)
      · exact inForce (past state isBlock)
    | rateLimited now retryAfter | succeeded now =>
      have left : 0 < (gateAfter hash userId before).inFlight - 1 := flying
      omega
    | called call =>
      obtain ⟨event, member, past⟩ := ih earlier shorter flying
      rw [hitsOf_concat_of_none rfl]
      exact ⟨event, List.mem_append_left _ member, past⟩

theorem hits_eq_one_of_oneAtATime (follows : FollowsGate hash userId events)
    (single : OneAtATime hash userId events) {now : ℕ} {retryAfter : Option ℕ}
    (within : before ++ [.rateLimited now retryAfter] <+: events)
    (never : NeverOverflows hash userId before) :
    nextHits (blockAfterHits hash userId (hitsOf before)) now = 1 := by
  have earlier : before <+: events := (List.prefix_append _ _).trans within
  obtain ⟨event, member, past⟩ := over_of_oneAtATime follows single earlier never
    (follows.allowed before (.rateLimited now retryAfter) within)
  have inOrder : event.now ≤ now :=
    (List.pairwise_append.mp (follows.inTime.sublist within.sublist)).2.2 event member
      (.rateLimited now retryAfter) (List.mem_singleton_self _)
  cases block : blockAfterHits hash userId (hitsOf before) with
  | none => rfl
  | some state => exact if_neg (not_lt.mpr ((past state block).trans inOrder))

/-- With one request at a time the backoff never doubles: as long as no hit overflows, every
rate-limited response leaves the scope with one hit. -/
theorem lookup_of_oneAtATime (follows : FollowsGate hash userId events)
    (single : OneAtATime hash userId events) {now : ℕ} {retryAfter : Option ℕ}
    (within : before ++ [.rateLimited now retryAfter] <+: events)
    (never : NeverOverflows hash userId (before ++ [.rateLimited now retryAfter])) :
    (gateAfter hash userId (before ++ [.rateLimited now retryAfter])).limiter.lookup
        (mempoolScope userId) =
      some
        { blockedUntil := now + rateLimitBackoffForScope hash (mempoolScope userId) 1 retryAfter
          consecutiveHits := 1 } := by
  have shorter := never.of_prefix (List.prefix_append _ _)
  have hits := hits_eq_one_of_oneAtATime follows single within shorter
  rw [lookup_gateAfter_rateLimited follows within never, hits]

end Hits

/-! ## Two hits in a row -/

section TwoInARow

variable {hash} {userId}

theorem followsGate_nil : FollowsGate hash userId ([] : List (GateEvent UserId)) where
  inTime := .nil
  allowed := fun before event within => absurd (List.prefix_nil.mp within) (by simp)

theorem FollowsGate.concat {events : List (GateEvent UserId)}
    (follows : FollowsGate hash userId events) (event : GateEvent UserId)
    (later : ∀ earlier ∈ events, earlier.now ≤ event.now)
    (allows : (gateAfter hash userId events).Allows userId event) :
    FollowsGate hash userId (events ++ [event]) where
  inTime := by
    rw [List.pairwise_append]
    refine ⟨follows.inTime, List.pairwise_singleton _ _, fun earlier member last isLast => ?_⟩
    obtain rfl := List.mem_singleton.mp isLast
    exact later earlier member
  allowed := by
    intro before last within
    rcases List.prefix_concat_iff.mp within with same | shorter
    · obtain ⟨rfl, isEvent⟩ := List.append_inj' same rfl
      obtain rfl := List.singleton_injective isEvent
      exact allows
    · exact follows.allowed before last shorter

end TwoInARow

/-- Two rate-limited responses in a row, the second request sent once the first block is over. -/
def twoInARow (retryAfter : Option ℕ) : List (GateEvent ℕ) :=
  [.sent 0, .rateLimited 0 none, .sent (fromSecs 70), .rateLimited (fromSecs 70) retryAfter]

theorem followsGate_twoInARow (retryAfter : Option ℕ) :
    FollowsGate (fun _ => 0) 0 (twoInARow retryAfter) := by
  have sentFirst : FollowsGate (fun _ => 0) (0 : ℕ) [.sent 0] :=
    followsGate_nil.concat (.sent 0) (by simp) (by change _ = false; decide +kernel)
  have first : FollowsGate (fun _ => 0) (0 : ℕ) [.sent 0, .rateLimited 0 none] :=
    sentFirst.concat (.rateLimited 0 none) (by decide) (by change 0 < _; decide +kernel)
  have sentSecond : FollowsGate (fun _ => 0) (0 : ℕ)
      [.sent 0, .rateLimited 0 none, .sent (fromSecs 70)] :=
    first.concat (.sent (fromSecs 70)) (by decide) (by change _ = false; decide +kernel)
  have earlier : ∀ earlier ∈ [GateEvent.sent 0, .rateLimited 0 none, .sent (fromSecs 70)],
      (earlier : GateEvent ℕ).now ≤ fromSecs 70 := by decide
  apply sentSecond.concat (.rateLimited (fromSecs 70) retryAfter)
  · rw [GateEvent.now_rateLimited]
    exact earlier
  · change 0 < _
    decide +kernel

theorem not_escalates_twoInARow :
    ¬ ∀ (hash : RateLimitScopeKey ℕ → ℕ) (userId : ℕ) (events : List (GateEvent ℕ)),
      FollowsGate hash userId events → Escalates hash userId events := by
  intro escalates
  obtain ⟨state, stored, blocked⟩ := escalates (fun _ => 0) 0 (twoInARow none)
    (followsGate_twoInARow none) [.sent 0, .rateLimited 0 none, .sent (fromSecs 70)]
    (fromSecs 70) none (List.prefix_refl _)
  revert state
  decide +kernel

/-- With a `Retry-After` of two minutes the second response blocks for as long as it is to. -/
theorem escalates_twoInARow :
    Escalates (fun _ => 0) 0 (twoInARow (some (fromSecs 120))) ↔
      Overlaps (fun _ => 0) 0 (twoInARow (some (fromSecs 120))) :=
  escalates_iff (followsGate_twoInARow (some (fromSecs 120)))

theorem lookup_of_oneAtATime_twoInARow :
    (gateAfter (fun _ => 0) 0 (twoInARow none)).limiter.lookup (mempoolScope 0) =
      some
        { blockedUntil := fromSecs 70 +
            rateLimitBackoffForScope (fun _ => 0) (mempoolScope 0) 1 none
          consecutiveHits := 1 } := by
  have single : OneAtATime (fun _ => 0) 0 (twoInARow none) := by
    intro before within
    have each : ∀ before ∈ (twoInARow none).inits,
        (gateAfter (fun _ => 0) 0 before).inFlight ≤ 1 := by decide +kernel
    exact each before (List.mem_inits _ _ |>.mpr within)
  have within : [.sent 0, .rateLimited 0 none, .sent (fromSecs 70)] ++
      [.rateLimited (fromSecs 70) none] <+: twoInARow none := List.prefix_refl _
  have never : NeverOverflows (fun _ => 0) 0 (twoInARow none) := by
    rw [← limiter_gateAfter_ne_poisoned_iff]
    intro poisoned
    have stored : ((gateAfter (fun _ => 0) 0 (twoInARow none)).limiter.lookup
        (mempoolScope 0)).isSome = true := by decide +kernel
    rw [poisoned] at stored
    cases stored
  exact lookup_of_oneAtATime (followsGate_twoInARow none) single within never

end Bitgarth.Sync
