import Mathlib.Data.Finset.Dedup
import Mathlib.Data.Finset.Empty
import Mathlib.Data.List.AList
import Mathlib.Data.List.Induction
import Mathlib.Tactic.Common
import Mathlib.Algebra.Group.Nat.Defs

/-! # Rate limits of the providers

A rate-limited response blocks its scope, a user at a provider, for a backoff that grows with
the hits in a row and reaches at least as far as the response's own `Retry-After`. A backoff
that ends past the last instant makes the call panic under the lock of the limiter, which no
later call can then read. `honoursBlocks_iff` says for which sequences of calls a block that is
once recorded is kept. Instants and durations are in nanoseconds.
-/

namespace Bitgarth.Sync

structure RateLimitState where
  blockedUntil : ℕ
  consecutiveHits : ℕ
deriving DecidableEq, Repr

structure RateLimitScopeKey (UserId : Type) where
  userId : UserId
  integration : String
deriving DecidableEq, Repr

inductive SyncIntegrationId where
  | mempool
  | etherscan
deriving DecidableEq, Repr

def SyncIntegrationId.asDbValue : SyncIntegrationId → String
  | .mempool => "mempool"
  | .etherscan => "etherscan"

def SyncIntegrationId.fromDbValue (value : String) : Option SyncIntegrationId :=
  if value = "mempool" then some .mempool
  else if value = "etherscan" then some .etherscan
  else none

abbrev RateLimitScopes (UserId : Type) : Type :=
  AList fun _ : RateLimitScopeKey UserId => RateLimitState

/-- `global_rate_limiter`; no call gets at the scopes behind a poisoned lock. -/
inductive RateLimiter (UserId : Type) where
  | usable (scopes : RateLimitScopes UserId)
  | poisoned

def labelMempool : String := "mempool"
def labelEtherscan : String := "etherscan"

/-! ## Durations -/

namespace Duration

def nanosPerMilli : ℕ := 1000000

def fromMillis (millis : ℕ) : ℕ := millis * nanosPerMilli

def fromSecs (secs : ℕ) : ℕ := fromMillis (secs * 1000)

def asMillis (duration : ℕ) : ℕ := duration / nanosPerMilli

end Duration

open Duration

def etherscanRateLimitBackoff : ℕ := fromSecs (15 * 60)
def mempoolRateLimitBackoffBase : ℕ := fromSecs 60
def mempoolRateLimitBackoffMax : ℕ := fromSecs (5 * 60)

/-- `scale_duration`; milliseconds are capped at what 64 bits hold. -/
def scaleDuration (duration factor : ℕ) : ℕ :=
  if factor = 0 then 0 else fromMillis (min (asMillis duration * factor) (2 ^ 64 - 1))

def cappedMempoolRateLimitBackoff (consecutiveHits : ℕ) : ℕ :=
  let exponent := min (consecutiveHits - 1) 6
  min (scaleDuration mempoolRateLimitBackoffBase (2 ^ exponent)) mempoolRateLimitBackoffMax

variable {UserId : Type} (hash : RateLimitScopeKey UserId → ℕ)

/-- `rate_limit_jitter`; the hash is the standard library's. -/
def rateLimitJitter (scope : RateLimitScopeKey UserId) (backoff : ℕ) : ℕ :=
  let maxJitterMs := min (asMillis backoff / 5) 5000
  if maxJitterMs = 0 then 0 else fromMillis (hash scope % (maxJitterMs + 1))

def rateLimitBackoffForScope (scope : RateLimitScopeKey UserId) (consecutiveHits : ℕ)
    (retryAfter : Option ℕ) : ℕ :=
  if scope.integration = labelEtherscan then
    max etherscanRateLimitBackoff (retryAfter.getD 0)
  else
    let base := cappedMempoolRateLimitBackoff consecutiveHits
    let withJitter := min (base + rateLimitJitter hash scope base) mempoolRateLimitBackoffMax
    match retryAfter with
    | some retryAfter => max withJitter retryAfter
    | none => withJitter

/-! ## The limiter -/

variable [DecidableEq UserId]

/-- What the limiter has of a scope; nothing once its lock is poisoned. -/
def RateLimiter.lookup (limiter : RateLimiter UserId) (scope : RateLimitScopeKey UserId) :
    Option RateLimitState :=
  match limiter with
  | .usable scopes => scopes.lookup scope
  | .poisoned => none

/-- The last instant that `Instant` holds; its seconds are signed and have 64 bits. -/
def lastInstant : ℕ := fromSecs (2 ^ 63) - 1

/-- `Instant + Duration`, which panics past the last instant. -/
def instantAdd (instant duration : ℕ) : Option ℕ :=
  if instant + duration ≤ lastInstant then some (instant + duration) else none

/-- The hits in a row that a further hit makes; hits in a row come while the block before them
is in force. -/
def nextHits (previous : Option RateLimitState) (now : ℕ) : ℕ :=
  match previous with
  | some previous =>
    if now < previous.blockedUntil then min (previous.consecutiveHits + 1) (2 ^ 32 - 1) else 1
  | none => 1

/-- A panic of the addition leaves the lock poisoned. -/
def recordRateLimit (limiter : RateLimiter UserId) (userId : UserId) (integration : String)
    (now : ℕ) (retryAfter : Option ℕ) : RateLimiter UserId :=
  let scope : RateLimitScopeKey UserId := { userId, integration }
  match limiter with
  | .poisoned => .poisoned
  | .usable scopes =>
    let consecutiveHits := nextHits (scopes.lookup scope) now
    let backoff := rateLimitBackoffForScope hash scope consecutiveHits retryAfter
    match instantAdd now backoff with
    | some blockedUntil => .usable (scopes.insert scope { blockedUntil, consecutiveHits })
    | none => .poisoned

def isRateLimited (limiter : RateLimiter UserId) (userId : UserId) (integration : String)
    (now : ℕ) : Bool × RateLimiter UserId :=
  let scope : RateLimitScopeKey UserId := { userId, integration }
  match limiter with
  | .poisoned => (false, .poisoned)
  | .usable scopes =>
    match scopes.lookup scope with
    | none => (false, limiter)
    | some state =>
      if now < state.blockedUntil then (true, limiter)
      else (false, .usable (scopes.erase scope))

/-- Drop the scopes whose block is over. -/
def retainBlocked (scopes : RateLimitScopes UserId) (now : ℕ) : RateLimitScopes UserId where
  entries := scopes.entries.filter fun entry => now < entry.2.blockedUntil
  nodupKeys := scopes.nodupKeys.sublist List.filter_sublist

def blockedIntegrationsForUser (limiter : RateLimiter UserId) (userId : UserId) (now : ℕ)
    (integrations : Finset SyncIntegrationId) : Finset SyncIntegrationId × RateLimiter UserId :=
  match limiter with
  | .poisoned => (∅, .poisoned)
  | .usable scopes =>
    let retained := retainBlocked scopes now
    ((retained.entries.filterMap fun entry =>
        if entry.1.userId ≠ userId ∨ entry.2.blockedUntil ≤ now then
          none
        else
          (SyncIntegrationId.fromDbValue entry.1.integration).filter
            (· ∈ integrations)).toFinset,
      .usable retained)

def earliestRateLimitUnblockForUser (limiter : RateLimiter UserId) (userId : UserId) (now : ℕ) :
    Option ℕ × RateLimiter UserId :=
  match limiter with
  | .poisoned => (none, .poisoned)
  | .usable scopes =>
    let retained := retainBlocked scopes now
    ((retained.entries.filterMap fun entry =>
        if entry.1.userId = userId ∧ now < entry.2.blockedUntil then
          some entry.2.blockedUntil
        else
          none).min?,
      .usable retained)

def earliestRateLimitUnblockForIntegrations (limiter : RateLimiter UserId) (userId : UserId)
    (now : ℕ) (integrations : Finset SyncIntegrationId) : Option ℕ × RateLimiter UserId :=
  if integrations = ∅ then
    (none, limiter)
  else
    match limiter with
    | .poisoned => (none, .poisoned)
    | .usable scopes =>
      let retained := retainBlocked scopes now
      ((retained.entries.filterMap fun entry =>
          if entry.1.userId = userId ∧ now < entry.2.blockedUntil ∧
              ∃ integration ∈ integrations, entry.1.integration = integration.asDbValue then
            some entry.2.blockedUntil
          else
            none).min?,
        .usable retained)

/-! ## Calls -/

inductive RateLimitCall (UserId : Type) where
  | recordRateLimit (userId : UserId) (integration : String) (now : ℕ) (retryAfter : Option ℕ)
  | isRateLimited (userId : UserId) (integration : String) (now : ℕ)
  | blockedIntegrationsForUser (userId : UserId) (now : ℕ)
      (integrations : Finset SyncIntegrationId)
  | earliestRateLimitUnblockForUser (userId : UserId) (now : ℕ)
  | earliestRateLimitUnblockForIntegrations (userId : UserId) (now : ℕ)
      (integrations : Finset SyncIntegrationId)
deriving DecidableEq

omit [DecidableEq UserId] in
def RateLimitCall.now : RateLimitCall UserId → ℕ
  | .recordRateLimit _ _ now _ | .isRateLimited _ _ now | .blockedIntegrationsForUser _ now _
  | .earliestRateLimitUnblockForUser _ now
  | .earliestRateLimitUnblockForIntegrations _ now _ => now

/-- The limiter after a call. -/
def RateLimitCall.apply (limiter : RateLimiter UserId) :
    RateLimitCall UserId → RateLimiter UserId
  | .recordRateLimit userId integration now retryAfter =>
    Sync.recordRateLimit hash limiter userId integration now retryAfter
  | .isRateLimited userId integration now =>
    (Sync.isRateLimited limiter userId integration now).2
  | .blockedIntegrationsForUser userId now integrations =>
    (Sync.blockedIntegrationsForUser limiter userId now integrations).2
  | .earliestRateLimitUnblockForUser userId now =>
    (Sync.earliestRateLimitUnblockForUser limiter userId now).2
  | .earliestRateLimitUnblockForIntegrations userId now integrations =>
    (Sync.earliestRateLimitUnblockForIntegrations limiter userId now integrations).2

/-- The limiter after calls, empty at first. -/
def limiterAfter (calls : List (RateLimitCall UserId)) : RateLimiter UserId :=
  calls.foldl (RateLimitCall.apply hash) (.usable ∅)

/-- Recording a hit panics: its block would end past the last instant. -/
def RateLimitCall.Overflows (limiter : RateLimiter UserId) : RateLimitCall UserId → Prop
  | .recordRateLimit userId integration now retryAfter =>
    lastInstant < now + rateLimitBackoffForScope hash { userId, integration }
      (nextHits (limiter.lookup { userId, integration }) now) retryAfter
  | _ => False

/-! ## Backoffs -/

section Backoffs

omit [DecidableEq UserId]

theorem cappedMempoolRateLimitBackoff_eq (consecutiveHits : ℕ) :
    cappedMempoolRateLimitBackoff consecutiveHits =
      if consecutiveHits ≤ 1 then fromSecs 60
      else if consecutiveHits = 2 then fromSecs 120
      else if consecutiveHits = 3 then fromSecs 240
      else mempoolRateLimitBackoffMax := by
  rcases consecutiveHits with _ | _ | _ | _ | _ | _ | _ | hits
  iterate 7 decide
  have exponent : min (hits + 7 - 1) 6 = 6 := by omega
  unfold cappedMempoolRateLimitBackoff
  rw [exponent, if_neg (by omega), if_neg (by omega), if_neg (by omega)]
  decide

theorem rateLimitJitter_le (scope : RateLimitScopeKey UserId) (backoff : ℕ) :
    rateLimitJitter hash scope backoff ≤ fromSecs 5 := by
  unfold rateLimitJitter
  simp only
  split
  · exact Nat.zero_le _
  · have bound := Nat.mod_lt (hash scope) (Nat.succ_pos (min (asMillis backoff / 5) 5000))
    apply Nat.mul_le_mul_right
    exact (Nat.le_of_lt_succ bound).trans (min_le_right _ _)

variable {hash} {scope : RateLimitScopeKey UserId}

/-- A `Retry-After` can only lengthen the backoff. -/
theorem rateLimitBackoffForScope_some (consecutiveHits retryAfter : ℕ) :
    rateLimitBackoffForScope hash scope consecutiveHits (some retryAfter) =
      max (rateLimitBackoffForScope hash scope consecutiveHits none) retryAfter := by
  unfold rateLimitBackoffForScope
  split
  · simp
  · rfl

theorem rateLimitBackoffForScope_none_le (consecutiveHits : ℕ) (retryAfter : Option ℕ) :
    rateLimitBackoffForScope hash scope consecutiveHits none ≤
      rateLimitBackoffForScope hash scope consecutiveHits retryAfter := by
  cases retryAfter with
  | none => exact le_rfl
  | some retryAfter =>
    rw [rateLimitBackoffForScope_some]
    exact le_max_left _ _

theorem le_rateLimitBackoffForScope (consecutiveHits retryAfter : ℕ) :
    retryAfter ≤ rateLimitBackoffForScope hash scope consecutiveHits (some retryAfter) := by
  rw [rateLimitBackoffForScope_some]
  exact le_max_right _ _

variable (hash) in
/-- Without a `Retry-After` the backoff is the capped one with at most five seconds more. -/
theorem rateLimitBackoffForScope_none_bounds (other : scope.integration ≠ labelEtherscan)
    (consecutiveHits : ℕ) :
    cappedMempoolRateLimitBackoff consecutiveHits ≤
        rateLimitBackoffForScope hash scope consecutiveHits none ∧
      rateLimitBackoffForScope hash scope consecutiveHits none ≤
        min (cappedMempoolRateLimitBackoff consecutiveHits + fromSecs 5)
          mempoolRateLimitBackoffMax := by
  have capped : cappedMempoolRateLimitBackoff consecutiveHits ≤ mempoolRateLimitBackoffMax :=
    min_le_right _ _
  have jitter := rateLimitJitter_le hash scope (cappedMempoolRateLimitBackoff consecutiveHits)
  unfold rateLimitBackoffForScope
  rw [if_neg other]
  exact ⟨le_min (Nat.le_add_right _ _) capped,
    min_le_min_right _ (Nat.add_le_add_left jitter _)⟩

theorem rateLimitBackoffForScope_none_succ (consecutiveHits : ℕ) :
    rateLimitBackoffForScope hash scope consecutiveHits none ≤
      rateLimitBackoffForScope hash scope (min (consecutiveHits + 1) (2 ^ 32 - 1)) none := by
  by_cases etherscan : scope.integration = labelEtherscan
  · unfold rateLimitBackoffForScope
    rw [if_pos etherscan, if_pos etherscan]
  · rcases Nat.eq_zero_or_pos consecutiveHits with rfl | positive
    · have same : cappedMempoolRateLimitBackoff 0 =
          cappedMempoolRateLimitBackoff (min (0 + 1) (2 ^ 32 - 1)) := by decide
      unfold rateLimitBackoffForScope
      rw [if_neg etherscan, if_neg etherscan, same]
    have upper := (rateLimitBackoffForScope_none_bounds hash etherscan consecutiveHits).2
    have lower := (rateLimitBackoffForScope_none_bounds hash etherscan
      (min (consecutiveHits + 1) (2 ^ 32 - 1))).1
    apply upper.trans
    apply le_trans ?_ lower
    rw [cappedMempoolRateLimitBackoff_eq, cappedMempoolRateLimitBackoff_eq]
    simp only [mempoolRateLimitBackoffMax, fromSecs, fromMillis, nanosPerMilli]
    grind

end Backoffs

/-! ## What a call leaves -/

section Calls

variable {hash} {limiter : RateLimiter UserId} {scope : RateLimitScopeKey UserId}

@[simp]
theorem lookup_poisoned : (RateLimiter.poisoned : RateLimiter UserId).lookup scope = none := rfl

/-- The scope has what it had, or nothing once its block is over. -/
def KeepsBlock (limiter after : RateLimiter UserId) (scope : RateLimitScopeKey UserId)
    (now : ℕ) : Prop :=
  after.lookup scope = limiter.lookup scope ∨
    after.lookup scope = none ∧ ∀ state ∈ limiter.lookup scope, state.blockedUntil ≤ now

/-- Dropping the blocks that are over keeps the ones in force. -/
theorem keepsBlock_retainBlocked (scopes : RateLimitScopes UserId) (now : ℕ) :
    KeepsBlock (.usable scopes) (.usable (retainBlocked scopes now)) scope now := by
  have retained : (retainBlocked scopes now).lookup scope =
      (scopes.lookup scope).filter fun state => now < state.blockedUntil := by
    apply Option.ext
    intro state
    change state ∈ (retainBlocked scopes now).lookup scope ↔ state ∈ Option.filter _ _
    rw [AList.mem_lookup_iff, Option.mem_filter_iff, AList.mem_lookup_iff]
    exact List.mem_filter
  unfold KeepsBlock RateLimiter.lookup
  dsimp only
  rw [retained]
  cases scopes.lookup scope with
  | none => exact .inl rfl
  | some state =>
    by_cases inForce : now < state.blockedUntil
    · apply Or.inl
      rw [Option.filter_some, if_pos (decide_eq_true inForce)]
    · apply Or.inr
      rw [Option.filter_some, if_neg (by simpa using inForce)]
      refine ⟨rfl, fun other isState => ?_⟩
      obtain rfl := Option.some.inj isState
      exact not_lt.mp inForce

/-- Asking for a scope drops at most a block of it that is over. -/
theorem keepsBlock_isRateLimited (userId : UserId) (integration : String) (now : ℕ) :
    KeepsBlock limiter (isRateLimited limiter userId integration now).2 scope now := by
  cases limiter with
  | poisoned => exact .inl rfl
  | usable scopes =>
    unfold KeepsBlock isRateLimited
    dsimp only
    split
    · exact .inl rfl
    · rename_i state stored
      split
      · exact .inl rfl
      · rename_i past
        by_cases same : scope = { userId, integration }
        · subst same
          refine .inr ⟨AList.lookup_erase _ _, fun other isState => ?_⟩
          obtain rfl := Option.some.inj (stored.symm.trans isState)
          exact not_lt.mp past
        · exact .inl (AList.lookup_erase_ne same)

/-- A limiter is poisoned by a hit that overflows, and stays so. -/
theorem apply_eq_poisoned_iff {call : RateLimitCall UserId} :
    call.apply hash limiter = .poisoned ↔ limiter = .poisoned ∨ call.Overflows hash limiter := by
  cases limiter with
  | poisoned =>
    refine iff_of_true ?_ (.inl rfl)
    cases call with
    | earliestRateLimitUnblockForIntegrations userId now integrations =>
      unfold RateLimitCall.apply Sync.earliestRateLimitUnblockForIntegrations
      by_cases none : integrations = ∅ <;> simp [none]
    | _ => rfl
  | usable scopes =>
    have isUsable : (RateLimiter.usable scopes : RateLimiter UserId) ≠ .poisoned := by simp
    rw [or_iff_right isUsable]
    cases call with
    | recordRateLimit userId integration now retryAfter =>
      unfold RateLimitCall.apply RateLimitCall.Overflows Sync.recordRateLimit instantAdd
        RateLimiter.lookup
      grind
    | isRateLimited userId integration now =>
      unfold RateLimitCall.apply RateLimitCall.Overflows Sync.isRateLimited
      grind
    | blockedIntegrationsForUser userId now integrations
    | earliestRateLimitUnblockForUser userId now => exact iff_of_false (by exact nofun) id
    | earliestRateLimitUnblockForIntegrations userId now integrations =>
      unfold RateLimitCall.apply RateLimitCall.Overflows
        Sync.earliestRateLimitUnblockForIntegrations
      grind

theorem apply_recordRateLimit {scopes : RateLimitScopes UserId} {userId : UserId}
    {integration : String} {now : ℕ} {retryAfter : Option ℕ}
    (usable : (RateLimitCall.recordRateLimit userId integration now retryAfter).apply hash
      (.usable scopes) ≠ .poisoned) :
    (RateLimitCall.recordRateLimit userId integration now retryAfter).apply hash
        (.usable scopes) =
      .usable (scopes.insert { userId, integration }
        { blockedUntil := now + rateLimitBackoffForScope hash { userId, integration }
            (nextHits (scopes.lookup { userId, integration }) now) retryAfter
          consecutiveHits := nextHits (scopes.lookup { userId, integration }) now }) := by
  have fits : now + rateLimitBackoffForScope hash { userId, integration }
      (nextHits (scopes.lookup { userId, integration }) now) retryAfter ≤ lastInstant :=
    not_lt.mp fun overflows => usable (apply_eq_poisoned_iff.mpr (.inr overflows))
  unfold RateLimitCall.apply Sync.recordRateLimit instantAdd
  dsimp only
  rw [if_pos fits]

/-- A hit that does not overflow is what its scope has afterwards. -/
theorem lookup_recordRateLimit {userId : UserId} {integration : String} {now : ℕ}
    {retryAfter : Option ℕ} (usable : (RateLimitCall.recordRateLimit userId integration now
      retryAfter).apply hash limiter ≠ .poisoned) :
    ((RateLimitCall.recordRateLimit userId integration now retryAfter).apply hash
        limiter).lookup { userId, integration } =
      some
        { blockedUntil := now + rateLimitBackoffForScope hash { userId, integration }
            (nextHits (limiter.lookup { userId, integration }) now) retryAfter
          consecutiveHits := nextHits (limiter.lookup { userId, integration }) now } := by
  cases limiter with
  | poisoned => exact absurd rfl usable
  | usable scopes =>
    rw [apply_recordRateLimit usable]
    exact AList.lookup_insert _

/-- A call that leaves the limiter usable records a hit of the scope or keeps its block. -/
theorem lookup_apply (scope : RateLimitScopeKey UserId) {call : RateLimitCall UserId}
    (usable : call.apply hash limiter ≠ .poisoned) :
    (∃ now retryAfter,
        call = .recordRateLimit scope.userId scope.integration now retryAfter ∧
        (call.apply hash limiter).lookup scope =
          some
            { blockedUntil := now + rateLimitBackoffForScope hash scope
                (nextHits (limiter.lookup scope) now) retryAfter
              consecutiveHits := nextHits (limiter.lookup scope) now }) ∨
      (∀ now retryAfter,
        call ≠ .recordRateLimit scope.userId scope.integration now retryAfter) ∧
      KeepsBlock limiter (call.apply hash limiter) scope call.now := by
  cases limiter with
  | poisoned => exact absurd (apply_eq_poisoned_iff.mpr (.inl rfl)) usable
  | usable scopes =>
    cases call with
    | recordRateLimit userId integration now retryAfter =>
      by_cases same : scope = { userId, integration }
      · subst same
        exact .inl ⟨now, retryAfter, rfl, lookup_recordRateLimit usable⟩
      · refine .inr ⟨fun _ _ isCall => same ?_, .inl ?_⟩
        · cases scope
          cases isCall
          rfl
        · rw [apply_recordRateLimit usable]
          exact AList.lookup_insert_ne same
    | isRateLimited userId integration now =>
      exact .inr ⟨by simp, keepsBlock_isRateLimited userId integration now⟩
    | blockedIntegrationsForUser userId now integrations
    | earliestRateLimitUnblockForUser userId now =>
      exact .inr ⟨by simp, keepsBlock_retainBlocked scopes now⟩
    | earliestRateLimitUnblockForIntegrations userId now integrations =>
      refine .inr ⟨by simp, ?_⟩
      unfold RateLimitCall.apply earliestRateLimitUnblockForIntegrations
      dsimp only
      split
      · exact .inl rfl
      · exact keepsBlock_retainBlocked scopes now

theorem limiterAfter_concat (calls : List (RateLimitCall UserId)) (call : RateLimitCall UserId) :
    limiterAfter hash (calls ++ [call]) = call.apply hash (limiterAfter hash calls) := by
  unfold limiterAfter
  rw [List.foldl_append, List.foldl_cons, List.foldl_nil]

/-- The lock is poisoned once a hit has overflowed. -/
theorem limiterAfter_eq_poisoned {before calls : List (RateLimitCall UserId)}
    {call : RateLimitCall UserId} (within : before ++ [call] <+: calls)
    (overflows : call.Overflows hash (limiterAfter hash before)) :
    limiterAfter hash calls = .poisoned := by
  obtain ⟨rest, rfl⟩ := within
  induction rest using List.reverseRecOn with
  | nil =>
    rw [List.append_nil, limiterAfter_concat]
    exact apply_eq_poisoned_iff.mpr (.inr overflows)
  | append_singleton rest last ih =>
    rw [← List.append_assoc, limiterAfter_concat]
    exact apply_eq_poisoned_iff.mpr (.inl ih)

/-- A poisoned lock has seen a hit that overflowed. -/
theorem exists_overflows_of_poisoned {calls : List (RateLimitCall UserId)}
    (poisoned : limiterAfter hash calls = .poisoned) :
    ∃ before call after, calls = before ++ call :: after ∧
      call.Overflows hash (limiterAfter hash before) := by
  induction calls using List.reverseRecOn with
  | nil => cases poisoned
  | append_singleton calls last ih =>
    rw [limiterAfter_concat] at poisoned
    rcases apply_eq_poisoned_iff.mp poisoned with earlier | overflows
    · obtain ⟨before, call, after, rfl, overflows⟩ := ih earlier
      exact ⟨before, call, after ++ [last], by simp, overflows⟩
    · exact ⟨calls, last, [], rfl, overflows⟩

theorem isRateLimited_eq_true {userId : UserId} {integration : String} {now : ℕ} :
    (isRateLimited limiter userId integration now).1 = true ↔
      ∃ state ∈ limiter.lookup { userId, integration }, now < state.blockedUntil := by
  cases limiter with
  | poisoned => simp [isRateLimited]
  | usable scopes =>
    unfold isRateLimited RateLimiter.lookup
    dsimp only
    split
    · rename_i stored
      rw [stored]
      simp
    · rename_i state stored
      rw [stored]
      split
      · rename_i inForce
        exact iff_of_true rfl ⟨state, rfl, inForce⟩
      · rename_i past
        refine iff_of_false Bool.false_ne_true fun ⟨other, isState, inForce⟩ => past ?_
        obtain rfl := Option.some.inj isState
        exact inForce

end Calls

/-! ## Blocks over sequences of calls -/

/-- Calls in the order of their instants. -/
abbrev InTime (calls : List (RateLimitCall UserId)) : Prop :=
  calls.Pairwise fun earlier later => earlier.now ≤ later.now

/-- Whatever is called after it, a block once recorded is kept: the scope is limited up to the
end of the `Retry-After`, and no call moves a block in force to an earlier end. -/
structure HonoursBlocks (calls : List (RateLimitCall UserId)) : Prop where
  retryAfter : ∀ before between userId integration now retryAfter later,
    before ++ .recordRateLimit userId integration now (some retryAfter) :: between <+: calls →
    (∀ call ∈ between, call.now ≤ later) → now ≤ later → later < now + retryAfter →
      (isRateLimited (limiterAfter hash (before ++
        .recordRateLimit userId integration now (some retryAfter) :: between))
          userId integration later).1 = true
  neverEarlier : ∀ {before call scope state}, before ++ [call] <+: calls →
    (limiterAfter hash before).lookup scope = some state → call.now < state.blockedUntil →
      ∃ kept ∈ (limiterAfter hash (before ++ [call])).lookup scope,
        state.blockedUntil ≤ kept.blockedUntil

/-- A hit within the `Retry-After` of an earlier hit of its scope backs off to the end of it. -/
def ReachesRetryAfter (calls : List (RateLimitCall UserId)) : Prop :=
  ∀ before between userId integration now retryAfter later laterRetryAfter,
    (before ++ .recordRateLimit userId integration now (some retryAfter) :: between) ++
        [.recordRateLimit userId integration later laterRetryAfter] <+: calls →
      later < now + retryAfter →
      now + retryAfter ≤ later + rateLimitBackoffForScope hash { userId, integration }
        (nextHits ((limiterAfter hash (before ++
          .recordRateLimit userId integration now (some retryAfter) :: between)).lookup
            { userId, integration }) later) laterRetryAfter

/-- A hit that panics comes when no scope is blocked, and neither it nor a later hit has a
`Retry-After` to keep. -/
def PanicsUnblocked (calls : List (RateLimitCall UserId)) : Prop :=
  ∀ before call after, calls = before ++ call :: after →
    call.Overflows hash (limiterAfter hash before) →
      (∀ scope, ∀ state ∈ (limiterAfter hash before).lookup scope,
        state.blockedUntil ≤ call.now) ∧
      ∀ userId integration now retryAfter,
        .recordRateLimit userId integration now (some retryAfter) ∈ call :: after →
          retryAfter = 0

section Sequences

variable {hash} {calls before between : List (RateLimitCall UserId)}
  {scope : RateLimitScopeKey UserId} {state : RateLimitState}

/-- What was stored before a call that leaves the limiter usable was usable too. -/
theorem limiterAfter_ne_poisoned {call : RateLimitCall UserId}
    (usable : limiterAfter hash (calls ++ [call]) ≠ .poisoned) :
    limiterAfter hash calls ≠ .poisoned := by
  rw [limiterAfter_concat] at usable
  exact fun poisoned => usable (apply_eq_poisoned_iff.mpr (.inl poisoned))

/-- Up to the end of a `Retry-After` the block of its scope reaches at least that far. -/
theorem ReachesRetryAfter.blocked {userId : UserId} {integration : String}
    {now retryAfter later : ℕ} (reaches : ReachesRetryAfter hash calls)
    (within : before ++ .recordRateLimit userId integration now (some retryAfter) :: between <+:
      calls) (usable : limiterAfter hash (before ++
        .recordRateLimit userId integration now (some retryAfter) :: between) ≠ .poisoned)
    (earlier : ∀ call ∈ between, call.now ≤ later) (inForce : later < now + retryAfter) :
    ∃ state ∈ (limiterAfter hash (before ++
        .recordRateLimit userId integration now (some retryAfter) :: between)).lookup
          { userId, integration }, now + retryAfter ≤ state.blockedUntil := by
  induction between using List.reverseRecOn with
  | nil =>
    rw [limiterAfter_concat] at usable ⊢
    exact ⟨_, lookup_recordRateLimit usable,
      Nat.add_le_add_left (le_rateLimitBackoffForScope _ _) _⟩
  | append_singleton between call ih =>
    rw [← List.cons_append, ← List.append_assoc] at within usable ⊢
    obtain ⟨state, stored, reached⟩ := ih ((List.prefix_append _ _).trans within)
      (limiterAfter_ne_poisoned usable)
      fun other member => earlier other (List.mem_append_left _ member)
    have callEarlier := earlier call (by simp)
    rw [limiterAfter_concat] at usable ⊢
    rcases lookup_apply { userId, integration } usable with
      ⟨callNow, callRetryAfter, rfl, recorded⟩ | ⟨_, kept | ⟨_, past⟩⟩
    · refine ⟨_, recorded, reaches _ _ _ _ _ _ _ _ within ?_⟩
      exact lt_of_le_of_lt callEarlier inForce
    · exact ⟨state, kept.trans stored, reached⟩
    · have ended := past state stored
      omega

/-- Every stored block was recorded by a hit of its scope. -/
theorem exists_record_of_lookup (stored : (limiterAfter hash calls).lookup scope = some state) :
    ∃ before between now retryAfter,
      calls = before ++
        .recordRateLimit scope.userId scope.integration now retryAfter :: between ∧
      state.blockedUntil =
        now + rateLimitBackoffForScope hash scope state.consecutiveHits retryAfter := by
  induction calls using List.reverseRecOn with
  | nil => simp [limiterAfter, RateLimiter.lookup] at stored
  | append_singleton calls call ih =>
    have usable : limiterAfter hash (calls ++ [call]) ≠ .poisoned := by
      rintro poisoned
      rw [poisoned] at stored
      cases stored
    rw [limiterAfter_concat] at stored usable
    rcases lookup_apply scope usable with
      ⟨now, retryAfter, rfl, recorded⟩ | ⟨_, kept | ⟨gone, _⟩⟩
    · rw [recorded] at stored
      obtain rfl := Option.some.inj stored
      exact ⟨calls, [], now, retryAfter, rfl, rfl⟩
    · rw [kept] at stored
      obtain ⟨before, between, now, retryAfter, rfl, blocked⟩ := ih stored
      exact ⟨before, between ++ [call], now, retryAfter, by simp, blocked⟩
    · rw [gone] at stored
      simp at stored

/-- A call that leaves the limiter usable moves no block in force to an earlier end. -/
theorem ReachesRetryAfter.neverEarlier (inTime : InTime calls)
    (reaches : ReachesRetryAfter hash calls) {call : RateLimitCall UserId}
    (within : before ++ [call] <+: calls)
    (usable : limiterAfter hash (before ++ [call]) ≠ .poisoned)
    (stored : (limiterAfter hash before).lookup scope = some state)
    (inForce : call.now < state.blockedUntil) :
    ∃ kept ∈ (limiterAfter hash (before ++ [call])).lookup scope,
      state.blockedUntil ≤ kept.blockedUntil := by
  rw [limiterAfter_concat] at usable ⊢
  rcases lookup_apply scope usable with
    ⟨later, laterRetryAfter, rfl, recorded⟩ | ⟨_, kept | ⟨_, past⟩⟩
  · refine ⟨_, recorded, ?_⟩
    obtain ⟨first, between, now, retryAfter, rfl, blocked⟩ := exists_record_of_lookup stored
    have order := (List.pairwise_append.mp (inTime.sublist within.sublist)).2.2
    have inOrder : now ≤ later :=
      order (.recordRateLimit scope.userId scope.integration now retryAfter) (by simp) _
        (List.mem_singleton_self _)
    have hits : nextHits ((limiterAfter hash (first ++ .recordRateLimit scope.userId
        scope.integration now retryAfter :: between)).lookup scope) later =
          min (state.consecutiveHits + 1) (2 ^ 32 - 1) := by
      rw [stored]
      exact if_pos inForce
    have grown : rateLimitBackoffForScope hash scope state.consecutiveHits none ≤
        rateLimitBackoffForScope hash scope (nextHits ((limiterAfter hash (first ++
          .recordRateLimit scope.userId scope.integration now retryAfter :: between)).lookup
            scope) later) laterRetryAfter := by
      rw [hits]
      exact (rateLimitBackoffForScope_none_succ _).trans (rateLimitBackoffForScope_none_le _ _)
    rw [blocked]
    cases retryAfter with
    | none => exact Nat.add_le_add inOrder grown
    | some retryAfter =>
      rw [rateLimitBackoffForScope_some] at blocked ⊢
      rcases le_total retryAfter
          (rateLimitBackoffForScope hash scope state.consecutiveHits none) with le | le
      · rw [max_eq_left le]
        exact Nat.add_le_add inOrder grown
      · rw [max_eq_right le] at blocked ⊢
        apply reaches _ _ _ _ _ _ _ _ within
        rw [← blocked]
        exact inForce
  · exact ⟨state, kept.trans stored, le_rfl⟩
  · exact absurd (past state stored) (not_le.mpr inForce)

/-- While a `Retry-After` runs no hit overflows that comes when nothing is blocked. -/
theorem ReachesRetryAfter.ne_poisoned {userId : UserId} {integration : String}
    {now retryAfter later : ℕ} (reaches : ReachesRetryAfter hash calls)
    (unblocked : PanicsUnblocked hash calls)
    (within : before ++ .recordRateLimit userId integration now (some retryAfter) :: between <+:
      calls) (earlier : ∀ call ∈ between, call.now ≤ later) (lasts : retryAfter ≠ 0)
    (inForce : later < now + retryAfter) :
    limiterAfter hash (before ++
      .recordRateLimit userId integration now (some retryAfter) :: between) ≠ .poisoned := by
  induction between using List.reverseRecOn with
  | nil =>
    rintro poisoned
    obtain ⟨first, call, after, split, overflows⟩ := exists_overflows_of_poisoned poisoned
    obtain ⟨rest, rfl⟩ := within
    rw [split, List.append_assoc, List.cons_append] at unblocked
    refine lasts ((unblocked first call _ rfl overflows).2 userId integration now _ ?_)
    have last := congrArg List.getLast? split
    rw [List.getLast?_concat, List.getLast?_append_of_ne_nil _ (by simp)] at last
    exact List.mem_append_left rest (List.mem_of_getLast? last.symm)
  | append_singleton between call ih =>
    rw [← List.cons_append, ← List.append_assoc] at within ⊢
    have shorter := (List.prefix_append _ _).trans within
    have before : ∀ call ∈ between, call.now ≤ later :=
      fun other member => earlier other (List.mem_append_left _ member)
    have usable := ih shorter before
    obtain ⟨state, stored, reached⟩ := reaches.blocked shorter usable before inForce
    have callEarlier := earlier call (by simp)
    rw [limiterAfter_concat]
    intro poisoned
    have overflows := (apply_eq_poisoned_iff.mp poisoned).resolve_left usable
    obtain ⟨rest, rfl⟩ := within
    have ended := (unblocked _ call rest (by simp) overflows).1 _ state stored
    omega

/-- Sequences that honour blocks let every hit reach the `Retry-After`s before it. -/
theorem HonoursBlocks.reaches (inTime : InTime calls) (honours : HonoursBlocks hash calls) :
    ReachesRetryAfter hash calls := by
  intro before between userId integration now retryAfter later laterRetryAfter within inForce
  by_contra short
  have order := (List.pairwise_append.mp (inTime.sublist within.sublist)).2.2
  have inOrder : now ≤ later :=
    order (.recordRateLimit userId integration now (some retryAfter)) (by simp) _
      (List.mem_singleton_self _)
  have earlier : ∀ call ∈ between, call.now ≤ later := fun call member =>
    order call (by simp [member]) _ (List.mem_singleton_self _)
  have limited : ∀ {at'}, later ≤ at' → at' < now + retryAfter →
      (isRateLimited (limiterAfter hash (before ++ .recordRateLimit userId integration now
        (some retryAfter) :: (between ++ [.recordRateLimit userId integration later
          laterRetryAfter]))) userId integration at').1 = true := by
    intro at' reached still
    refine honours.retryAfter before _ userId integration now retryAfter at'
      (by simpa using within) ?_ (inOrder.trans reached) still
    intro call member
    rcases List.mem_append.mp member with early | last
    · exact (earlier call early).trans reached
    · obtain rfl := List.mem_singleton.mp last
      exact reached
  rw [← List.cons_append, ← List.append_assoc, limiterAfter_concat] at limited
  have usable : (RateLimitCall.recordRateLimit userId integration later laterRetryAfter).apply hash
      (limiterAfter hash (before ++ .recordRateLimit userId integration now (some retryAfter) ::
        between)) ≠ .poisoned := by
    intro poisoned
    have atOnce := limited le_rfl inForce
    rw [poisoned] at atOnce
    cases atOnce
  -- The scope is free again at the end of the later hit's own block.
  obtain ⟨state, stored, notOver⟩ :=
    isRateLimited_eq_true.mp (limited (Nat.le_add_right _ _) (not_le.mp short))
  rw [lookup_recordRateLimit usable] at stored
  obtain rfl := Option.some.inj stored
  exact lt_irrefl _ notOver

/-- Sequences that honour blocks panic only where there is none to keep. -/
theorem HonoursBlocks.panicsUnblocked (honours : HonoursBlocks hash calls) :
    PanicsUnblocked hash calls := by
  rintro before call after rfl overflows
  have within : before ++ [call] <+: before ++ call :: after := ⟨after, by simp⟩
  refine ⟨fun scope state stored => ?_, fun userId integration now retryAfter member => ?_⟩
  · by_contra inForce
    obtain ⟨kept, isKept, _⟩ := honours.neverEarlier within stored (not_le.mp inForce)
    rw [limiterAfter_eq_poisoned (List.prefix_refl _) overflows] at isKept
    cases isKept
  · by_contra lasts
    obtain ⟨between, rest, split⟩ := List.append_of_mem member
    have limited := honours.retryAfter (before ++ between) [] userId integration now retryAfter
      now ⟨rest, by rw [split]; simp⟩ (by simp) le_rfl (by omega)
    have poisons : before ++ [call] <+:
        before ++ between ++ [.recordRateLimit userId integration now (some retryAfter)] := by
      rw [List.append_assoc, List.prefix_append_right_inj]
      cases between with
      | nil => simpa using (List.cons.inj split).1
      | cons first between => simpa using (List.cons.inj split).1
    rw [limiterAfter_eq_poisoned poisons overflows] at limited
    cases limited

end Sequences

/-- **A recorded block is honoured** exactly when every hit within the `Retry-After` of an
earlier hit of its scope backs off to the end of it, and no hit panics with a block to keep. -/
theorem honoursBlocks_iff (calls : List (RateLimitCall UserId)) (inTime : InTime calls) :
    HonoursBlocks hash calls ↔ ReachesRetryAfter hash calls ∧ PanicsUnblocked hash calls := by
  refine ⟨fun honours => ⟨honours.reaches inTime, honours.panicsUnblocked⟩,
    fun ⟨reaches, unblocked⟩ => ⟨?_, ?_⟩⟩
  · intro before between userId integration now retryAfter later within earlier inOrder inForce
    have usable := reaches.ne_poisoned unblocked within earlier (by omega) inForce
    obtain ⟨state, stored, reached⟩ := reaches.blocked within usable earlier inForce
    exact isRateLimited_eq_true.mpr ⟨state, stored, lt_of_lt_of_le inForce reached⟩
  · intro before call scope state within stored inForce
    refine reaches.neverEarlier inTime within ?_ stored inForce
    rw [limiterAfter_concat]
    intro poisoned
    rcases apply_eq_poisoned_iff.mp poisoned with before | overflows
    · rw [before] at stored
      cases stored
    · obtain ⟨rest, rfl⟩ := within
      have ended := (unblocked before call rest (by simp) overflows).1 scope state stored
      omega

/-- Two hits of Etherscan, the first with a `Retry-After` of an hour, the second with none. -/
def hourThenNone : List (RateLimitCall ℕ) :=
  [.recordRateLimit 0 labelEtherscan 0 (some (fromSecs 3600)),
    .recordRateLimit 0 labelEtherscan (fromSecs 1) none]

theorem not_honoursBlocks_hourThenNone :
    ¬ ∀ (hash : RateLimitScopeKey ℕ → ℕ) (calls : List (RateLimitCall ℕ)), InTime calls →
      HonoursBlocks hash calls := by
  intro honours
  have limited := (honours (fun _ => 0) hourThenNone (by decide)).retryAfter []
    [.recordRateLimit 0 labelEtherscan (fromSecs 1) none] 0 labelEtherscan 0 (fromSecs 3600)
    (fromSecs 1000) (List.prefix_refl _) (by decide) (by decide) (by decide)
  revert limited
  decide +kernel

/-- A second hit with a `Retry-After` that ends later. -/
theorem honoursBlocks_hourThenHour :
    HonoursBlocks (fun _ => 0)
        [RateLimitCall.recordRateLimit 0 labelEtherscan 0 (some (fromSecs 3600)),
          .recordRateLimit 0 labelEtherscan (fromSecs 1) (some (fromSecs 3600))] ↔
      ReachesRetryAfter (fun _ => 0)
        [RateLimitCall.recordRateLimit 0 labelEtherscan 0 (some (fromSecs 3600)),
          .recordRateLimit 0 labelEtherscan (fromSecs 1) (some (fromSecs 3600))] ∧
      PanicsUnblocked (fun _ => 0)
        [RateLimitCall.recordRateLimit 0 labelEtherscan 0 (some (fromSecs 3600)),
          .recordRateLimit 0 labelEtherscan (fromSecs 1) (some (fromSecs 3600))] :=
  honoursBlocks_iff _ _ (by decide)

end Bitgarth.Sync
