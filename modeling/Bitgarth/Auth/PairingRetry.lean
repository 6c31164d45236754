import Mathlib.Data.Int.DivMod
import Bitgarth.Auth.PairingSafety
import Mathlib.Data.Int.ConditionallyCompleteOrder
import Mathlib.Order.ConditionallyCompleteLattice.Basic

/-! # How long a refused start waits

A start that is refused for its rate, or because the store is full, is told after how many seconds
to try again. The seconds are cut off to whole ones, so the hint is enough exactly when the time
that is left is a whole number of seconds or at most one (`retryHint_sufficient_iff`).
-/

namespace Bitgarth.Auth

open KeyedTable Reachability SlidingWindow

/-- What a refused client waits for. -/
inductive PairingStartError.SameReason : PairingStartError → PairingStartError → Prop
  | rateLimited (seconds other : ℕ) : SameReason (.rateLimited seconds) (.rateLimited other)
  | capacityFull (seconds other : ℕ) : SameReason (.capacityFull seconds) (.capacityFull other)

/-- A wait that `secondsUntil` does not cut short. -/
def WholeWait (wait : ℤ) : Prop :=
  wait ≤ nanosPerSecond ∨ wait % nanosPerSecond = 0

instance : DecidablePred WholeWait :=
  fun _ => inferInstanceAs (Decidable (_ ∨ _))

variable {deadline other now later : ℤ}

theorem secondsUntil_of_lt (ahead : now < deadline) :
    (secondsUntil deadline now : ℤ) = max ((deadline - now) / nanosPerSecond) 1 := by
  have positive : 0 ≤ deadline - now := (Int.sub_pos.mpr ahead).le
  rw [secondsUntil, Int.tdiv_eq_ediv_of_nonneg positive]
  exact Int.toNat_of_nonneg (Int.one_nonneg.trans (le_max_right _ _))

theorem le_secondsUntil_iff (ahead : now < deadline) :
    deadline ≤ now + secondsUntil deadline now * nanosPerSecond ↔ WholeWait (deadline - now) := by
  rw [secondsUntil_of_lt ahead, WholeWait, nanosPerSecond]
  omega

theorem secondsUntil_mono (now : ℤ) : Monotone fun deadline => secondsUntil deadline now := by
  intro first second order
  have cut : (first - now).tdiv nanosPerSecond ≤ (second - now).tdiv nanosPerSecond :=
    Int.tdiv_le_tdiv (by decide) (Int.sub_le_sub_right order now)
  exact Int.toNat_le_toNat (max_le_max cut le_rfl)

section Stores

variable {CapabilityId Verifier Source UserId Dek : Type} [DecidableEq CapabilityId]
  [DecidableEq Verifier] [DecidableEq Source]
  {state kept : PairingState CapabilityId Verifier Source UserId Dek} {source : Source}

namespace PairingState

/-- When both queues of a source have room again. -/
def rateLimitedUntil (state : PairingState CapabilityId Verifier Source UserId Dek)
    (source : Source) : Option ℤ :=
  Option.merge max (fullUntil maxSourceStarts sourceWindow (state.sourceStarts source))
    (fullUntil maxGlobalStarts globalWindow state.globalStarts)

/-- When the first of the pending pairings expires. -/
def capacityFullUntil (state : PairingState CapabilityId Verifier Source UserId Dek) : Option ℤ :=
  (state.pending.map (·.expiresAt)).min?

variable (now state source) in
omit [DecidableEq CapabilityId] [DecidableEq Verifier] [DecidableEq Source] in
theorem rateLimitRetryAfter_eq :
    state.rateLimitRetryAfter source now =
      (state.rateLimitedUntil source).map fun deadline => secondsUntil deadline now := by
  have full (limit : ℕ) (window : ℤ) (starts : List ℤ) :
      (if limit ≤ starts.length then
        starts.head?.map fun at' => secondsUntil (at' + window) now else none) =
      (fullUntil limit window starts).map fun deadline => secondsUntil deadline now := by
    unfold fullUntil
    split
    · rw [Option.map_map]
      rfl
    · rfl
  unfold rateLimitRetryAfter rateLimitedUntil
  simp only [full]
  cases fullUntil maxSourceStarts sourceWindow (state.sourceStarts source) with
  | none =>
    cases fullUntil maxGlobalStarts globalWindow state.globalStarts with
    | none => rfl
    | some ofAll => rfl
  | some ofSource =>
    cases fullUntil maxGlobalStarts globalWindow state.globalStarts with
    | none => rfl
    | some ofAll => exact congrArg some (secondsUntil_mono now).map_max.symm

omit [DecidableEq CapabilityId] [DecidableEq Verifier] [DecidableEq Source] in
theorem capacityRetryAfter_eq (full : maxPendingPairings ≤ state.pending.length) :
    ∃ deadline, state.capacityFullUntil = some deadline ∧
      state.capacityRetryAfter now = secondsUntil deadline now := by
  have nonempty : state.pending.map (·.expiresAt) ≠ [] := by
    intro empty
    rw [List.map_eq_nil_iff.mp empty] at full
    exact absurd (Nat.le_zero.mp full) (by decide)
  obtain ⟨deadline, isMin⟩ := Option.ne_none_iff_exists'.mp
    (fun none => nonempty (List.min?_eq_none_iff.mp none))
  refine ⟨deadline, isMin, ?_⟩
  obtain ⟨member, least⟩ := List.min?_eq_some_iff.mp isMin
  have mapped : (state.pending.map fun entry => secondsUntil entry.expiresAt now).min? =
      some (secondsUntil deadline now) := by
    refine List.min?_eq_some_iff.mpr ⟨?_, ?_⟩
    · obtain ⟨entry, isEntry, expires⟩ := List.mem_map.mp member
      exact List.mem_map.mpr ⟨entry, isEntry, congrArg (secondsUntil · now) expires⟩
    · intro wait isWait
      obtain ⟨entry, isEntry, rfl⟩ := List.mem_map.mp isWait
      exact secondsUntil_mono now (least _ (List.mem_map.mpr ⟨entry, isEntry, rfl⟩))
  rw [capacityRetryAfter, mapped]
  rfl

/-! ## Stores within their limits -/

/-- The limits that a store keeps, whatever its clock says. -/
structure Capped (state : PairingState CapabilityId Verifier Source UserId Dek) : Prop where
  keyed : Keyed PendingPairing.capabilityId state.pending
  pending : state.pending.length ≤ maxPendingPairings
  sources : ∀ source, (state.sourceStarts source).length ≤ maxSourceStarts
  globals : state.globalStarts.length ≤ maxGlobalStarts

/-- Entries were dropped or changed their status, and nothing else. -/
structure Waits (state later : PairingState CapabilityId Verifier Source UserId Dek) : Prop where
  sources : later.sourceStarts = state.sourceStarts
  globals : later.globalStarts = state.globalStarts
  keyed : Keyed PendingPairing.capabilityId state.pending →
    Keyed PendingPairing.capabilityId later.pending
  expiries : List.Sublist (later.pending.map (·.expiresAt)) (state.pending.map (·.expiresAt))

section

omit [DecidableEq CapabilityId] [DecidableEq Verifier] [DecidableEq Source]

theorem Waits.refl (state : PairingState CapabilityId Verifier Source UserId Dek) :
    state.Waits state :=
  ⟨rfl, rfl, id, List.Sublist.refl _⟩

theorem Waits.trans {middle : PairingState CapabilityId Verifier Source UserId Dek}
    (first : state.Waits middle) (second : middle.Waits kept) : state.Waits kept where
  sources := second.sources.trans first.sources
  globals := second.globals.trans first.globals
  keyed := second.keyed ∘ first.keyed
  expiries := second.expiries.trans first.expiries

theorem Capped.of_waits (capped : state.Capped) (waits : state.Waits kept) : kept.Capped where
  keyed := waits.keyed capped.keyed
  pending := by
    have shorter := waits.expiries.length_le
    rw [List.length_map, List.length_map] at shorter
    exact shorter.trans capped.pending
  sources source := by
    rw [waits.sources]
    exact capped.sources source
  globals := by
    rw [waits.globals]
    exact capped.globals

theorem Capped.pruneRateLimits (capped : state.Capped) : (state.pruneRateLimits now).Capped where
  keyed := capped.keyed
  pending := capped.pending
  sources source := (length_prune_le _ _).trans (capped.sources source)
  globals := (length_prune_le _ _).trans capped.globals

end

omit [DecidableEq CapabilityId] [DecidableEq Source] in
theorem waits_removeExpired : state.Waits (state.removeExpired now) where
  sources := rfl
  globals := rfl
  keyed keyed := keyed.filter _
  expiries := List.filter_sublist.map _

omit [DecidableEq Verifier] [DecidableEq Source] in
theorem waits_setEntry (keyed : Keyed PendingPairing.capabilityId state.pending)
    {entry next : PendingPairing CapabilityId Verifier UserId Dek} (member : entry ∈ state.pending)
    (sameId : next.capabilityId = entry.capabilityId)
    (sameExpiry : next.expiresAt = entry.expiresAt) : state.Waits (state.setEntry next) := by
  have isEntry : ∀ old ∈ state.pending, old.capabilityId = next.capabilityId → old = entry :=
    fun old oldMember isId =>
      List.inj_on_of_nodup_map keyed oldMember member (isId.trans sameId)
  refine ⟨rfl, rfl, fun _ => ?_, ?_⟩
  · have ids : (state.setEntry next).pending.map PendingPairing.capabilityId =
        state.pending.map PendingPairing.capabilityId := by
      rw [setEntry, List.map_map]
      refine List.map_congr_left fun old oldMember => ?_
      dsimp only [Function.comp_apply]
      split
      · rename_i isId
        exact isId.symm
      · rfl
    rw [Keyed, ids]
    exact keyed
  · have expiries : (state.setEntry next).pending.map (·.expiresAt) =
        state.pending.map (·.expiresAt) := by
      rw [setEntry, List.map_map]
      refine List.map_congr_left fun old oldMember => ?_
      dsimp only [Function.comp_apply]
      split
      · rename_i isId
        rw [isEntry old oldMember isId, sameExpiry]
      · rfl
    rw [expiries]

end PairingState

/-! ## Calls that start nothing -/

/-- A call that is a start. -/
def PairingCall.IsStart : PairingCall CapabilityId Verifier Source UserId Dek → Prop
  | .start _ _ _ _ => True
  | _ => False

namespace PairingState

omit [DecidableEq CapabilityId] [DecidableEq Source] in
theorem waits_review (displayCode : String) :
    state.Waits (state.review now displayCode).2 := by
  unfold review
  split
  · exact .refl state
  · dsimp only
    split
    · exact waits_removeExpired
    · split
      · exact waits_removeExpired
      · exact waits_removeExpired

omit [DecidableEq Source] in
theorem waits_approve (keyed : Keyed PendingPairing.capabilityId state.pending)
    (capabilityId : CapabilityId) (displayCode : String) (activeExpiresAt : Option ℤ)
    (bind : Option (ApprovedPairingBinding UserId Dek)) :
    state.Waits (state.approve now capabilityId displayCode activeExpiresAt bind).2 := by
  have removed : state.Waits (state.removeExpired now) := waits_removeExpired
  unfold approve
  split
  · exact .refl state
  · dsimp only
    split
    · exact removed
    · rename_i found
      obtain ⟨member, -, -, -⟩ := awaitingEntry_eq_ok found
      split
      · exact removed
      · exact removed.trans (waits_setEntry (removed.keyed keyed) member rfl rfl)

omit [DecidableEq Source] in
theorem waits_deny (keyed : Keyed PendingPairing.capabilityId state.pending)
    (capabilityId : CapabilityId) (displayCode : String) :
    state.Waits (state.deny now capabilityId displayCode).2 := by
  have removed : state.Waits (state.removeExpired now) := waits_removeExpired
  unfold deny
  split
  · exact .refl state
  · dsimp only
    split
    · exact removed
    · rename_i found
      obtain ⟨member, -, -, -⟩ := awaitingEntry_eq_ok found
      exact removed.trans (waits_setEntry (removed.keyed keyed) member rfl rfl)

omit [DecidableEq Source] in
theorem waits_claim (keyed : Keyed PendingPairing.capabilityId state.pending)
    (capabilityId : CapabilityId) (keyVerifier : Verifier)
    (activate : ApprovedPairingClaim CapabilityId UserId Dek → Option (ClaimedPairing UserId)) :
    state.Waits (state.claim now capabilityId keyVerifier activate).2 := by
  have removed : state.Waits (state.removeExpired now) := waits_removeExpired
  unfold claim
  dsimp only
  split
  · exact removed
  · rename_i found
    split
    · exact removed
    · split
      · exact removed
      · exact removed
      · exact removed
      · split
        · exact removed
        · exact removed.trans
            (waits_setEntry (removed.keyed keyed) (mem_of_find found) rfl rfl)

theorem waits_run (keyed : Keyed PendingPairing.capabilityId state.pending)
    {call : PairingCall CapabilityId Verifier Source UserId Dek} (idle : ¬call.IsStart) :
    state.Waits (state.run now call).2 := by
  cases call with
  | start source start generated durableVerifierExists => exact absurd trivial idle
  | review displayCode => exact waits_review displayCode
  | approve capabilityId displayCode activeExpiresAt bind =>
    exact waits_approve keyed capabilityId displayCode activeExpiresAt bind
  | deny capabilityId displayCode => exact waits_deny keyed capabilityId displayCode
  | claim capabilityId keyVerifier activate =>
    exact waits_claim keyed capabilityId keyVerifier activate
  | removeExpired => exact waits_removeExpired

end PairingState

/-! ## Starts -/

namespace PairingState

variable {start : ValidatedPairingStart Verifier}
  {generated : List (CapabilityId × List.Vector UInt8 8)}
  {durableVerifierExists : Verifier → Option Bool}

/-- A store at the time of a start, without what has expired. -/
def prepared (state : PairingState CapabilityId Verifier Source UserId Dek) (now : ℤ) :
    PairingState CapabilityId Verifier Source UserId Dek :=
  (state.removeExpired now).pruneRateLimits now

omit [DecidableEq CapabilityId] [DecidableEq Source] in
theorem Capped.prepared (capped : state.Capped) : (state.prepared now).Capped :=
  (capped.of_waits waits_removeExpired).pruneRateLimits

omit [DecidableEq CapabilityId] [DecidableEq Verifier] in
theorem Capped.recordStart (capped : state.Capped)
    (free : state.rateLimitRetryAfter source now = none) :
    (state.recordStart source now).Capped := by
  obtain ⟨shortSource, shortGlobal⟩ := short_of_rateLimitRetryAfter free
  refine ⟨capped.keyed, capped.pending, ?_, ?_⟩
  · intro other
    dsimp only [PairingState.recordStart]
    by_cases same : other = source
    · subst same
      rw [Function.update_self, List.length_append]
      exact shortSource
    · rw [Function.update_of_ne same]
      exact capped.sources other
  · dsimp only [PairingState.recordStart]
    rw [List.length_append]
    exact shortGlobal

theorem start_cases (state : PairingState CapabilityId Verifier Source UserId Dek) (now : ℤ)
    (source : Source) (start : ValidatedPairingStart Verifier)
    (generated : List (CapabilityId × List.Vector UInt8 8))
    (durableVerifierExists : Verifier → Option Bool) :
    (∃ seconds, (state.prepared now).rateLimitRetryAfter source now = some seconds ∧
      state.start now source start generated durableVerifierExists =
        (.error (.rateLimited seconds), state.prepared now)) ∨
    ((state.prepared now).rateLimitRetryAfter source now = none ∧
      maxPendingPairings ≤ (state.prepared now).pending.length ∧
      state.start now source start generated durableVerifierExists =
        (.error (.capacityFull ((state.prepared now).capacityRetryAfter now)),
          state.prepared now)) ∨
    ((state.prepared now).rateLimitRetryAfter source now = none ∧
      (state.prepared now).pending.length < maxPendingPairings ∧
      (∀ error, (state.start now source start generated durableVerifierExists).1 = .error error →
        ∀ other, ¬error.SameReason other) ∧
      ((state.prepared now).Capped →
        (state.start now source start generated durableVerifierExists).2.Capped)) := by
  have opened : (state.removeExpired now).pruneRateLimits now = state.prepared now := rfl
  unfold PairingState.start
  simp only [opened]
  cases limited : (state.prepared now).rateLimitRetryAfter source now with
  | some seconds => exact .inl ⟨seconds, rfl, rfl⟩
  | none =>
    by_cases full : maxPendingPairings ≤ (state.prepared now).pending.length
    · simp only [if_pos full]
      exact .inr (.inl ⟨trivial, full, trivial⟩)
    · simp only [if_neg full]
      refine .inr (.inr ⟨trivial, Nat.not_le.mp full, ?_⟩)
      have recorded (capped : (state.prepared now).Capped) := capped.recordStart limited
      split
      · refine ⟨?_, recorded⟩
        intro error refused other same
        cases refused
        cases same
      · split
        · refine ⟨?_, recorded⟩
          intro error refused other same
          cases refused
          cases same
        · refine ⟨?_, recorded⟩
          intro error refused other same
          cases refused
          cases same
        · rcases insertGenerated_cases ((state.prepared now).recordStart source now) now start
            generated with exhausted | ⟨entry, inserted, freshId, -⟩
          · rw [exhausted]
            refine ⟨?_, recorded⟩
            intro error refused other same
            cases refused
            cases same
          · rw [inserted]
            refine ⟨nofun, fun capped => ?_⟩
            have next := recorded capped
            refine ⟨?_, ?_, next.sources, next.globals⟩
            · rw [Keyed, List.map_append, List.nodup_append]
              refine ⟨next.keyed, List.nodup_singleton _, ?_⟩
              intro id isId otherId isOther same
              obtain ⟨row, member, rfl⟩ := List.mem_map.mp isId
              obtain rfl := List.mem_singleton.mp isOther
              exact find_eq_none_iff.mp freshId row member same
            · rw [List.length_append]
              exact Nat.not_le.mp full

/-- Every call keeps the limits, at any clock. -/
theorem Capped.run (capped : state.Capped)
    (call : PairingCall CapabilityId Verifier Source UserId Dek) :
    (state.run now call).2.Capped := by
  by_cases starts : call.IsStart
  · cases call with
    | start source start generated durableVerifierExists =>
      change (state.start now source start generated durableVerifierExists).2.Capped
      rcases start_cases state now source start generated durableVerifierExists with
        ⟨_, -, answer⟩ | ⟨-, -, answer⟩ | ⟨-, -, -, keeps⟩
      · rw [answer]
        exact capped.prepared
      · rw [answer]
        exact capped.prepared
      · exact keeps capped.prepared
    | _ => exact starts.elim
  · exact capped.of_waits (waits_run capped.keyed starts)

/-- A call at some time, which may also be earlier than the last one. -/
def Calls (step : ℤ × PairingCall CapabilityId Verifier Source UserId Dek)
    (before after : PairingState CapabilityId Verifier Source UserId Dek) : Prop :=
  after = (before.run step.1 step.2).2

theorem capped_of_reached (reached : Reached Calls (fun _ _ => True) {} state) :
    state.Capped := by
  refine reached.invariant ?_ ?_
  · exact ⟨List.nodup_nil, Nat.zero_le _, fun _ => Nat.zero_le _, Nat.zero_le _⟩
  · intro step before after capped _ next
    rw [next]
    exact capped.run step.2

end PairingState

/-! ## Trying again -/

namespace PairingState

variable {start : ValidatedPairingStart Verifier}
  {generated : List (CapabilityId × List.Vector UInt8 8)}
  {durableVerifierExists : Verifier → Option Bool}

/-- No start of the source is refused for the reason from that time on, if none is made before. -/
def Admits (state : PairingState CapabilityId Verifier Source UserId Dek) (source : Source)
    (time : ℤ) (reason : PairingStartError) : Prop :=
  ∀ waited later start generated durableVerifierExists,
    Reached Calls (fun step _ => ¬step.2.IsStart) state waited → time ≤ later →
    ∀ error, (waited.start later source start generated durableVerifierExists).1 = .error error →
      ¬reason.SameReason error

theorem waits_of_reached (capped : state.Capped) {waited : PairingState _ _ _ _ _}
    (reached : Reached Calls (fun step _ => ¬step.2.IsStart) state waited) :
    state.Waits waited := by
  refine reached.invariant (.refl state) ?_
  intro step before after waits idle next
  rw [next]
  exact waits.trans (waits_run (waits.keyed capped.keyed) idle)

omit [DecidableEq CapabilityId] [DecidableEq Source] in
theorem rateLimitedUntil_prepared (capped : state.Capped) :
    (state.prepared later).rateLimitedUntil source =
      (state.rateLimitedUntil source).filter (later < ·) := by
  have ofSource := @fullUntil_prune _ _ _ _ sourceWindow later _ _ (capped.sources source)
  have ofAll := @fullUntil_prune _ _ _ _ globalWindow later _ _ capped.globals
  unfold rateLimitedUntil prepared pruneRateLimits
  dsimp only [removeExpired]
  rw [ofSource, ofAll]
  cases fullUntil maxSourceStarts sourceWindow (state.sourceStarts source) with
  | none =>
    cases fullUntil maxGlobalStarts globalWindow state.globalStarts with
    | none => rfl
    | some ofAll => simp
  | some ofSource =>
    cases fullUntil maxGlobalStarts globalWindow state.globalStarts with
    | none => simp
    | some ofAll =>
      rw [Option.filter_some, Option.filter_some, Option.merge_some_some, Option.filter_some]
      by_cases first : later < ofSource
      · by_cases second : later < ofAll
        · simp [first, second]
        · simp [first, second, (not_lt.mp second).trans first.le]
      · by_cases second : later < ofAll
        · simp [first, second, (not_lt.mp first).trans second.le]
        · simp [first, second]

theorem start_rateLimited_iff :
    (∃ seconds, (state.start now source start generated durableVerifierExists).1 =
        .error (.rateLimited seconds)) ↔
      ((state.prepared now).rateLimitedUntil source).isSome := by
  have waits := rateLimitRetryAfter_eq now (state.prepared now) source
  rcases start_cases state now source start generated durableVerifierExists with
    ⟨seconds, limited, answer⟩ | ⟨free, -, answer⟩ | ⟨free, -, others, -⟩
  · rw [limited] at waits
    obtain ⟨deadline, isDeadline, -⟩ := Option.map_eq_some_iff.mp waits.symm
    rw [answer, isDeadline]
    exact iff_of_true ⟨seconds, rfl⟩ rfl
  · rw [free] at waits
    rw [answer, Option.map_eq_none_iff.mp waits.symm]
    exact iff_of_false nofun (by decide)
  · rw [free] at waits
    rw [Option.map_eq_none_iff.mp waits.symm]
    refine iff_of_false ?_ (by decide)
    rintro ⟨seconds, refused⟩
    exact others _ refused (.rateLimited 0) (.rateLimited _ _)

theorem start_capacityFull_iff :
    (∃ seconds, (state.start now source start generated durableVerifierExists).1 =
        .error (.capacityFull seconds)) ↔
      (state.prepared now).rateLimitedUntil source = none ∧
        maxPendingPairings ≤ (state.prepared now).pending.length := by
  have waits := rateLimitRetryAfter_eq now (state.prepared now) source
  rcases start_cases state now source start generated durableVerifierExists with
    ⟨seconds, limited, answer⟩ | ⟨free, full, answer⟩ | ⟨free, room, others, -⟩
  · rw [limited] at waits
    obtain ⟨deadline, isDeadline, -⟩ := Option.map_eq_some_iff.mp waits.symm
    rw [answer, isDeadline]
    exact iff_of_false nofun nofun
  · rw [free] at waits
    rw [answer]
    exact iff_of_true ⟨_, rfl⟩ ⟨Option.map_eq_none_iff.mp waits.symm, full⟩
  · refine iff_of_false ?_ fun both => absurd both.2 (Nat.not_le.mpr room)
    rintro ⟨seconds, refused⟩
    exact others _ refused (.capacityFull 0) (.capacityFull _ _)

theorem admits_rateLimited_iff (capped : state.Capped) (start : ValidatedPairingStart Verifier)
    (waits : state.rateLimitedUntil source = some deadline) (seconds : ℕ) {time : ℤ} :
    state.Admits source time (.rateLimited seconds) ↔ deadline ≤ time := by
  constructor
  · intro admits
    refine not_lt.mp fun early => ?_
    have limited : ((state.prepared time).rateLimitedUntil source).isSome := by
      rw [rateLimitedUntil_prepared capped, waits, Option.filter_some_pos (by simpa using early)]
      rfl
    obtain ⟨again, refused⟩ :=
      (@start_rateLimited_iff _ _ _ _ _ _ _ _ _ _ _ start [] fun _ => none).mpr limited
    exact admits state time start [] (fun _ => none) .start le_rfl _ refused (.rateLimited _ _)
  · intro passed waited later start generated durableVerifierExists reached after error refused same
    cases same
    have stays := waits_of_reached capped reached
    have same : waited.rateLimitedUntil source = some deadline := by
      rw [← waits, rateLimitedUntil, rateLimitedUntil, stays.sources, stays.globals]
    have limited := start_rateLimited_iff.mp ⟨_, refused⟩
    rw [rateLimitedUntil_prepared (capped.of_waits stays), same,
      Option.filter_some_neg (by simpa using passed.trans after)] at limited
    cases limited

omit [DecidableEq CapabilityId] [DecidableEq Source] in
theorem expiries_prepared : (state.prepared now).pending.map (·.expiresAt) =
    (state.pending.map (·.expiresAt)).filter fun expiry => ¬expiry ≤ now := by
  rw [List.filter_map]
  rfl

theorem admits_capacityFull_iff (capped : state.Capped) (start : ValidatedPairingStart Verifier)
    (full : maxPendingPairings ≤ state.pending.length)
    (free : state.rateLimitedUntil source = none)
    (expires : state.capacityFullUntil = some deadline) (seconds : ℕ) {time : ℤ} :
    state.Admits source time (.capacityFull seconds) ↔ deadline ≤ time := by
  obtain ⟨member, least⟩ := List.min?_eq_some_iff.mp expires
  constructor
  · intro admits
    refine not_lt.mp fun early => ?_
    have freeThen : (state.prepared time).rateLimitedUntil source = none := by
      rw [rateLimitedUntil_prepared capped, free]
      rfl
    have fullThen : maxPendingPairings ≤ (state.prepared time).pending.length := by
      rw [← List.length_map (·.expiresAt), expiries_prepared, List.filter_eq_self.mpr,
        List.length_map]
      · exact full
      · intro expiry isExpiry
        exact decide_eq_true (not_le.mpr (early.trans_le (least expiry isExpiry)))
    obtain ⟨again, refused⟩ :=
      (@start_capacityFull_iff _ _ _ _ _ _ _ _ _ _ _ start [] fun _ => none).mpr
        ⟨freeThen, fullThen⟩
    exact admits state time start [] (fun _ => none) .start le_rfl _ refused (.capacityFull _ _)
  · intro passed waited later start generated durableVerifierExists reached after error refused same
    cases same
    have stays := waits_of_reached capped reached
    obtain ⟨-, fullThen⟩ := start_capacityFull_iff.mp ⟨_, refused⟩
    have fewer : ((state.pending.map (·.expiresAt)).filter fun expiry => ¬expiry ≤ later).length <
        state.pending.length := by
      rw [← state.pending.length_map (·.expiresAt)]
      refine List.length_filter_lt_length_iff_exists.mpr ⟨deadline, member, ?_⟩
      simpa using passed.trans after
    have dropped := (stays.expiries.filter fun expiry => ¬expiry ≤ later).length_le
    rw [← expiries_prepared, List.length_map] at dropped
    exact absurd (fullThen.trans dropped) (Nat.not_le.mpr (fewer.trans_le capped.pending))

variable (now source start generated durableVerifierExists) in
/-- **Hints of refused starts.** In every reachable store, whatever its clock did, the seconds that
a start is refused with are enough exactly when the time until its queue has room, or until the
first pairing expires, is a whole number of seconds or at most one. -/
theorem retryHint_sufficient_iff (reached : Reached Calls (fun _ _ => True) {} state) :
    (∀ seconds, (state.start now source start generated durableVerifierExists).1 =
        .error (.rateLimited seconds) →
      ∃ deadline, (state.prepared now).rateLimitedUntil source = some deadline ∧
        ((state.start now source start generated durableVerifierExists).2.Admits source
            (now + seconds * nanosPerSecond) (.rateLimited seconds) ↔
          WholeWait (deadline - now))) ∧
    ∀ seconds, (state.start now source start generated durableVerifierExists).1 =
        .error (.capacityFull seconds) →
      ∃ deadline, (state.prepared now).capacityFullUntil = some deadline ∧
        ((state.start now source start generated durableVerifierExists).2.Admits source
            (now + seconds * nanosPerSecond) (.capacityFull seconds) ↔
          WholeWait (deadline - now)) := by
  have capped := capped_of_reached reached
  have waits := rateLimitRetryAfter_eq now (state.prepared now) source
  rcases start_cases state now source start generated durableVerifierExists with
    ⟨seconds, limited, answer⟩ | ⟨free, full, answer⟩ | ⟨free, -, others, -⟩
  · rw [answer]
    refine ⟨?_, nofun⟩
    intro hint isHint
    cases isHint
    rw [limited] at waits
    obtain ⟨deadline, isDeadline, rfl⟩ := Option.map_eq_some_iff.mp waits.symm
    have ahead : now < deadline := by
      have moved := isDeadline
      rw [rateLimitedUntil_prepared capped] at moved
      exact of_decide_eq_true (Option.mem_filter_iff.mp moved).2
    refine ⟨deadline, isDeadline, ?_⟩
    rw [admits_rateLimited_iff capped.prepared start isDeadline, le_secondsUntil_iff ahead]
  · rw [answer]
    refine ⟨nofun, ?_⟩
    intro hint isHint
    cases isHint
    rw [free] at waits
    obtain ⟨deadline, isDeadline, isHint⟩ :=
      @capacityRetryAfter_eq now _ _ _ _ _ (state.prepared now) full
    have ahead : now < deadline := by
      obtain ⟨entry, member, expires⟩ :=
        List.mem_map.mp (List.min?_eq_some_iff.mp isDeadline).1
      rw [← expires]
      exact not_le.mp (of_decide_eq_true (List.mem_filter.mp member).2)
    refine ⟨deadline, isDeadline, ?_⟩
    rw [admits_capacityFull_iff capped.prepared start full (Option.map_eq_none_iff.mp waits.symm)
      isDeadline, isHint, le_secondsUntil_iff ahead]
  · refine ⟨?_, ?_⟩
    · intro hint refused
      exact absurd (.rateLimited _ _) (others _ refused (.rateLimited 0))
    · intro hint refused
      exact absurd (.capacityFull _ _) (others _ refused (.capacityFull 0))

end PairingState

end Stores

/-! ## A busy source -/

/-- A start that finds its verifier database closed. -/
def failingStart : PairingCall ℕ ℕ ℕ ℕ ℕ :=
  .start 1 ⟨"laptop", 5, .balancesRead⟩ [] fun _ => none

/-- The store after some of them at once. -/
def busyStore : ℕ → PairingState ℕ ℕ ℕ ℕ ℕ
  | 0 => {}
  | starts + 1 => ((busyStore starts).run 0 failingStart).2

theorem reached_busyStore (starts : ℕ) :
    Reached PairingState.Calls (fun _ _ => True) {} (busyStore starts) := by
  induction starts with
  | zero => exact .start
  | succ starts ih => exact @Reached.step _ _ _ _ _ _ _ (0, failingStart) ih trivial rfl

/-- A start one second after the tenth is told to wait 599 seconds, which is enough. -/
theorem retryHint_sufficient_busyStore :
    ∃ deadline, ((busyStore 10).prepared nanosPerSecond).rateLimitedUntil 1 = some deadline ∧
      (((busyStore 10).start nanosPerSecond 1 ⟨"laptop", 5, .balancesRead⟩ []
        fun _ => none).2.Admits
          1 (nanosPerSecond + 599 * nanosPerSecond) (.rateLimited 599) ↔
        WholeWait (deadline - nanosPerSecond)) :=
  (PairingState.retryHint_sufficient_iff nanosPerSecond 1 ⟨"laptop", 5, .balancesRead⟩ []
    (fun _ => none) (reached_busyStore 10)).1 599 rfl

/-- Half a second after the tenth start the hint is 599 seconds too, which is not enough. -/
theorem not_retryHint_sufficient :
    ¬∀ (state : PairingState ℕ ℕ ℕ ℕ ℕ),
      Reached PairingState.Calls (fun _ _ => True) {} state →
      ∀ now source start generated durableVerifierExists seconds,
        (state.start now source start generated durableVerifierExists).1 =
          .error (.rateLimited seconds) →
        (state.start now source start generated durableVerifierExists).2.Admits source
          (now + seconds * nanosPerSecond) (.rateLimited seconds) := by
  intro sufficient
  have admits := sufficient (busyStore 10) (reached_busyStore 10) 500000000 1
    ⟨"laptop", 5, .balancesRead⟩ [] (fun _ => none) 599 rfl
  exact admits _ (500000000 + 599 * nanosPerSecond) ⟨"laptop", 5, .balancesRead⟩ []
    (fun _ => none) .start le_rfl (.rateLimited 1) rfl (.rateLimited _ _)

end Bitgarth.Auth
