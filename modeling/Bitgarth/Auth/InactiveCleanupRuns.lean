import Bitgarth.Auth.InactiveCleanup
import Bitgarth.Foundation.TracedRuns

/-! # Runs of the cleanup of inactive users

What a step does to the users, and what steps keep, over all histories of log-ins, client-key
requests, sessions, stored tokens and runs that fail or stop anywhere: from whom a directory is
taken, and what is left of a user whose deletion was cut short or has run to its end.
-/

namespace Bitgarth.Auth

open Reachability

variable {UserId CredentialId SessionId CapabilityId TokenId : Type} [LinearOrder UserId]

namespace AppDb

variable {db : AppDb UserId CredentialId SessionId CapabilityId TokenId}

omit [LinearOrder UserId] in
theorem inactive_mono {row : UserRow UserId} {now later : ℤ} (inactive : db.Inactive row now)
    (after : now ≤ later) : db.Inactive row later := by
  refine ⟨lt_of_lt_of_le inactive.1 (by omega), ?_⟩
  rintro ⟨snapshot, member, owner, protects⟩
  refine inactive.2 ⟨snapshot, member, owner, ?_⟩
  have earlier : (now - paidGraceDays * day) / second ≤ (later - paidGraceDays * day) / second :=
    Int.ediv_le_ediv (by decide) (by omega)
  unfold SnapshotRow.protects at protects ⊢
  cases ends : snapshot.subscriptionValidUntil with
  | none => simpa [ends] using protects
  | some validUntil =>
    simp only [ends, Bool.and_eq_true, decide_eq_true_eq] at protects ⊢
    exact ⟨protects.1, earlier.trans protects.2⟩

omit [LinearOrder UserId] in
theorem Inactive.of_snapshots {after : AppDb UserId CredentialId SessionId CapabilityId TokenId}
    {row : UserRow UserId} {now : ℤ} (inactive : db.Inactive row now)
    (fewer : ∀ snapshot ∈ after.snapshots, snapshot.userId = row.userId →
      snapshot ∈ db.snapshots) : after.Inactive row now :=
  ⟨inactive.1, fun ⟨snapshot, member, owner, protects⟩ =>
    inactive.2 ⟨snapshot, fewer snapshot member owner, owner, protects⟩⟩

omit [LinearOrder UserId] in
theorem live_anti {row : SessionRow UserId SessionId} {policy : SessionTimeoutPolicy}
    {now later : ℤ} (live : row.Live policy later) (after : now ≤ later) : row.Live policy now :=
  ⟨lt_of_le_of_lt after live.1, lt_of_le_of_lt (by omega) live.2⟩

omit [LinearOrder UserId] in
theorem userHasLiveSession_anti {policy : SessionTimeoutPolicy} {user : UserId} {now later : ℤ}
    (live : db.UserHasLiveSession policy user later) (after : now ≤ later) :
    db.UserHasLiveSession policy user now := by
  obtain ⟨session, member, owner, live⟩ := live
  exact ⟨session, member, owner, live_anti live after⟩

theorem isDeletionCandidateNow_eq_some {user : UserId} {now : ℤ}
    {candidate : DeletionCandidate UserId}
    (found : db.isDeletionCandidateNow user now = some candidate) :
    ∃ row ∈ db.users, row.userId = user ∧ db.Inactive row now ∧ row.candidate = candidate := by
  obtain ⟨row, first, rfl⟩ := Option.map_eq_some_iff.mp found
  have same := List.find?_some first
  simp only [decide_eq_true_eq] at same
  exact ⟨row, List.mem_of_find?_eq_some first, same.1, same.2, rfl⟩

theorem isDeletionCandidateNow_of_inactive {row : UserRow UserId} {now : ℤ}
    (unique : (db.users.map (·.userId)).Nodup) (member : row ∈ db.users)
    (inactive : db.Inactive row now) :
    db.isDeletionCandidateNow row.userId now = some row.candidate := by
  cases found : db.isDeletionCandidateNow row.userId now with
  | none =>
    have absent := List.find?_eq_none.mp (Option.map_eq_none_iff.mp found) row member
    simp [inactive] at absent
  | some candidate =>
    obtain ⟨other, present, same, -, rfl⟩ := isDeletionCandidateNow_eq_some found
    rw [List.inj_on_of_nodup_map unique present member same]

end AppDb

variable [DecidableEq CredentialId] [DecidableEq SessionId] [DecidableEq CapabilityId]
  [DecidableEq TokenId]

/-- A paid plan, as the queries tell it. -/
def VerifiedToken.Paid (token : VerifiedToken TokenId) : Prop :=
  token.tier.asStr ≠ "free"

instance (token : VerifiedToken TokenId) : Decidable token.Paid :=
  inferInstanceAs (Decidable (_ ≠ _))

namespace HostedUsers

/-- The time the job judges users by. -/
def judgedAt (state : HostedUsers UserId CredentialId SessionId CapabilityId TokenId) : ℤ :=
  match state.cleanup with
  | some run => run.now
  | none => state.clock

def HasRow (user : UserId)
    (state : HostedUsers UserId CredentialId SessionId CapabilityId TokenId) : Prop :=
  ∃ row ∈ state.db.users, row.userId = user

/-- A user whom the recheck under the lock lets go. -/
def Deletable (policy : SessionTimeoutPolicy) (user : UserId) (now : ℤ)
    (state : HostedUsers UserId CredentialId SessionId CapabilityId TokenId) : Prop :=
  (state.db.isDeletionCandidateNow user now).isSome ∧
    ¬state.db.UserHasLiveSession policy user now

instance (policy : SessionTimeoutPolicy) (user : UserId) (now : ℤ)
    (state : HostedUsers UserId CredentialId SessionId CapabilityId TokenId) :
    Decidable (state.Deletable policy user now) :=
  inferInstanceAs (Decidable (_ ∧ _))

/-- No directory and no row in the shared database. -/
structure Deleted (user : UserId)
    (state : HostedUsers UserId CredentialId SessionId CapabilityId TokenId) : Prop where
  directory : state.directory user = .removed
  users : ∀ row ∈ state.db.users, row.userId ≠ user
  authCredentials : ∀ row ∈ state.db.authCredentials, row.2 ≠ user
  passwordCredentials : ∀ credential ∈ state.db.passwordCredentials,
    ∃ row ∈ state.db.authCredentials, row.1 = credential ∧ row.2 ≠ user
  appUserPreferences : user ∉ state.db.appUserPreferences
  legalAcceptances : user ∉ state.db.legalAcceptances
  sessions : ∀ row ∈ state.db.sessions, row.userId ≠ user
  snapshots : ∀ row ∈ state.db.snapshots, row.userId ≠ user
  clientCapabilities : ∀ row ∈ state.db.clientCapabilities, row.userId ≠ user

/-- The state after a deletion that ran to its end. -/
def deleteUser (state : HostedUsers UserId CredentialId SessionId CapabilityId TokenId)
    (user : UserId) : HostedUsers UserId CredentialId SessionId CapabilityId TokenId :=
  { state.setDirectory user .removed with db := state.db.deleteAppDbRows user }

variable {params : InactiveUserCleanupParams} {policy : SessionTimeoutPolicy}
  {state after : HostedUsers UserId CredentialId SessionId CapabilityId TokenId}

omit [DecidableEq SessionId] [DecidableEq CapabilityId] [DecidableEq TokenId] in
theorem deleteCandidateUser_cases (candidate : DeletionCandidate UserId) (now : ℤ)
    (failure : Option DeletionFailure) :
    (∃ error, state.deleteCandidateUser policy candidate now failure = (state, .error error)) ∨
    (¬state.Deletable policy candidate.userId now ∧
      state.deleteCandidateUser policy candidate now failure = (state, .ok none)) ∨
    state.Deletable policy candidate.userId now ∧
      ((∃ directory error, directory ≠ .intact ∧
          state.deleteCandidateUser policy candidate now failure =
            (state.setDirectory candidate.userId directory, .error error)) ∨
        ∃ rechecked, state.deleteCandidateUser policy candidate now failure =
          (state.deleteUser candidate.userId, .ok (some rechecked))) := by
  unfold deleteCandidateUser
  by_cases lock : failure = some .lifecycleLock
  · exact .inl ⟨_, if_pos lock⟩
  by_cases recheck : failure = some .recheck
  · exact .inl ⟨_, by rw [if_neg lock, if_pos recheck]⟩
  rw [if_neg lock, if_neg recheck]
  cases found : state.db.isDeletionCandidateNow candidate.userId now with
  | none =>
    refine .inr (.inl ⟨?_, rfl⟩)
    rintro ⟨isCandidate, _⟩
    simp [found] at isCandidate
  | some rechecked =>
    by_cases liveSession : failure = some .liveSession
    · exact .inl ⟨_, if_pos liveSession⟩
    dsimp only
    rw [if_neg liveSession]
    by_cases live : state.db.UserHasLiveSession policy candidate.userId now
    · exact .inr (.inl ⟨fun deletable => deletable.2 live, if_pos live⟩)
    rw [if_neg live]
    have deletable : state.Deletable policy candidate.userId now := ⟨by simp [found], live⟩
    match failure with
    | none => exact .inr (.inr ⟨deletable, .inr ⟨rechecked, rfl⟩⟩)
    | some (.removeUserDirectory true) =>
      refine .inr (.inr ⟨deletable, .inl ⟨_, _, ?_, rfl⟩⟩)
      split <;> nofun
    | some .deleteAppDbRows =>
      exact .inr (.inr ⟨deletable, .inl ⟨.removed, _, nofun, rfl⟩⟩)
    | some .lifecycleLock | some .recheck | some .liveSession | some .clearBrowserSessions
    | some .closeUserDb | some (.removeUserDirectory false) => exact .inl ⟨_, rfl⟩

/-- All that a step can do, apart from the summary of the run. -/
inductive Effect (params : InactiveUserCleanupParams) (policy : SessionTimeoutPolicy)
    (state : HostedUsers UserId CredentialId SessionId CapabilityId TokenId) :
    HostedStep UserId SessionId CapabilityId TokenId →
      HostedUsers UserId CredentialId SessionId CapabilityId TokenId → Prop where
  | waits (elapsed : ℕ) : Effect params policy state (.wait elapsed)
      { state with clock := state.clock + elapsed }
  | logsIn {user : UserId} {session : SessionId} {recorded dropped : Bool}
      (db : AppDb UserId CredentialId SessionId CapabilityId TokenId) (present : state.HasRow user)
      (fresh : ∀ row ∈ state.db.sessions, row.sessionId ≠ session)
      (made : db = state.db ∨
        db = state.db.createSession policy user session state.clock ∨
        db = (state.db.createSession policy user session state.clock).recordLastLogin user
          state.clock) :
      Effect params policy state (.login user session recorded dropped) { state with db }
  | requests {capability : CapabilityId} (row : CapabilityRow UserId CapabilityId)
      (member : row ∈ state.db.clientCapabilities) (named : row.capabilityId = capability) :
      Effect params policy state (.clientKeyRequest capability) { state with
        db := state.db.recordClientCapabilityActivity capability row.userId state.clock }
  | usesSession {session : SessionId} (row : SessionRow UserId SessionId)
      (member : row ∈ state.db.sessions) (named : row.sessionId = session)
      (live : row.Live policy state.clock) : Effect params policy state (.useSession session)
      { state with db := state.db.useSession session state.clock }
  | endsSession (session : SessionId) : Effect params policy state (.endSession session)
      { state with
        db := { state.db with sessions := state.db.sessions.filter (·.sessionId ≠ session) } }
  | storesToken {user : UserId} {token : VerifiedToken TokenId} {snapshot : Bool}
      (present : state.directory user ≠ .removed) :
      Effect params policy state (.storeToken user token snapshot) { state with
        tokens := (user, token) :: state.tokens
        db :=
          if snapshot then state.db.recordVerifiedAppEntitlementSnapshot user token
          else state.db }
  | startsRun (idle : state.cleanup = none) : Effect params policy state .startRun { state with
      cleanup := some {
        now := state.clock
        candidates := state.db.listDeletionCandidates state.clock params.batchLimit } }
  | endsRun {step : HostedStep UserId SessionId CapabilityId TokenId}
      (finished : step = .finishRun → ∃ now summary, state.cleanup = some ⟨now, [], summary⟩) :
      Effect params policy state step { state with cleanup := none }
  | keepsBack {failure : Option DeletionFailure} {now : ℤ}
      {candidate : DeletionCandidate UserId} {rest : List (DeletionCandidate UserId)}
      {summary : InactiveUserCleanupSummary} (after : InactiveUserCleanupSummary)
      (underWay : state.cleanup = some ⟨now, candidate :: rest, summary⟩)
      (held : ¬state.Deletable policy candidate.userId now) :
      Effect params policy state (.deleteNext failure)
        { state with cleanup := some ⟨now, rest, after⟩ }
  | cutsShort {failure : Option DeletionFailure} {now : ℤ}
      {candidate : DeletionCandidate UserId} {rest : List (DeletionCandidate UserId)}
      {summary : InactiveUserCleanupSummary} (directory : UserDirectory)
      (underWay : state.cleanup = some ⟨now, candidate :: rest, summary⟩)
      (deletable : state.Deletable policy candidate.userId now) (changed : directory ≠ .intact) :
      Effect params policy state (.deleteNext failure)
        { state.setDirectory candidate.userId directory with cleanup := none }
  | deletes {failure : Option DeletionFailure} {now : ℤ}
      {candidate : DeletionCandidate UserId} {rest : List (DeletionCandidate UserId)}
      {summary : InactiveUserCleanupSummary} (after : InactiveUserCleanupSummary)
      (underWay : state.cleanup = some ⟨now, candidate :: rest, summary⟩)
      (deletable : state.Deletable policy candidate.userId now) :
      Effect params policy state (.deleteNext failure)
        { state.deleteUser candidate.userId with cleanup := some ⟨now, rest, after⟩ }

theorem effect_of_run {step : HostedStep UserId SessionId CapabilityId TokenId}
    (taken : state.run params policy step = some after) :
    Effect params policy state step after := by
  cases step with
  | wait elapsed =>
    cases taken
    exact .waits elapsed
  | login user session recorded dropped =>
    obtain ⟨⟨present, -, -, fresh⟩, taken⟩ := Option.ite_none_right_eq_some.mp taken
    cases taken
    refine .logsIn _ present fresh ?_
    cases recorded
    · cases dropped
      · exact .inr (.inl rfl)
      · exact .inl rfl
    · exact .inr (.inr rfl)
  | clientKeyRequest capability =>
    unfold run at taken
    cases found : state.db.clientCapabilities.find? (·.capabilityId = capability) with
    | none => simp [found] at taken
    | some row =>
      simp only [found] at taken
      obtain ⟨-, taken⟩ := Option.ite_none_right_eq_some.mp taken
      cases taken
      refine .requests row (List.mem_of_find?_eq_some found) ?_
      simpa using List.find?_some found
  | useSession session =>
    obtain ⟨⟨row, member, named, live⟩, taken⟩ := Option.ite_none_right_eq_some.mp taken
    cases taken
    exact .usesSession row member named live
  | endSession session =>
    cases taken
    exact .endsSession session
  | storeToken user token snapshot =>
    obtain ⟨present, taken⟩ := Option.ite_none_right_eq_some.mp taken
    cases taken
    exact .storesToken present
  | startRun =>
    unfold run at taken
    cases idle : state.cleanup with
    | some run => simp [idle] at taken
    | none =>
      simp only [idle, Option.some.injEq] at taken
      subst taken
      exact .startsRun idle
  | deleteNext failure =>
    unfold run at taken
    match underWay : state.cleanup with
    | none => simp [underWay] at taken
    | some ⟨now, [], summary⟩ => simp [underWay] at taken
    | some ⟨now, candidate :: rest, summary⟩ =>
      simp only [underWay] at taken
      rcases @deleteCandidateUser_cases _ _ _ _ _ _ _ policy state candidate now failure with
        ⟨error, outcome⟩ | ⟨held, outcome⟩ |
        ⟨deletable, ⟨directory, error, changed, outcome⟩ | ⟨rechecked, outcome⟩⟩ <;>
        rw [outcome] at taken <;> cases taken
      · exact .endsRun nofun
      · exact .keepsBack _ underWay held
      · exact .cutsShort directory underWay deletable changed
      · exact .deletes _ underWay deletable
  | finishRun =>
    unfold run at taken
    match underWay : state.cleanup with
    | none => simp [underWay] at taken
    | some ⟨now, _ :: _, summary⟩ => simp [underWay] at taken
    | some ⟨now, [], summary⟩ =>
      simp only [underWay, Option.some.injEq] at taken
      subst taken
      exact .endsRun fun _ => ⟨now, summary, underWay⟩
  | stopProcess =>
    cases taken
    exact .endsRun nofun

/-- The row that `recordVerifiedAppEntitlementSnapshot` leaves for a stored token. -/
def snapshotOf (stored : UserId × VerifiedToken TokenId) : SnapshotRow UserId TokenId :=
  ⟨stored.1, some stored.2.tokenId, stored.2.tier.asStr,
    some (formatTimestamp stored.2.subscriptionValidUntil)⟩

/-- What a step has to be for the cleanup to be right about its user: a paid token is stored with
its snapshot, which takes no other token's row, and nobody uses a directory that a deletion has
begun to remove. -/
def Orderly (step : HostedStep UserId SessionId CapabilityId TokenId)
    (state : HostedUsers UserId CredentialId SessionId CapabilityId TokenId) : Prop :=
  match step with
  | .login user _ _ _ => state.directory user = .intact
  | .clientKeyRequest capability =>
    ∀ row ∈ state.db.clientCapabilities, row.capabilityId = capability →
      state.directory row.userId = .intact
  | .storeToken user token snapshot =>
    state.directory user = .intact ∧
      (token.Paid → snapshot = true ∨ (user, token) ∈ state.tokens) ∧
      (snapshot = true → ∀ stored ∈ state.tokens, stored.2.Paid →
        stored.2.tokenId = token.tokenId → stored = (user, token))
  | _ => True

instance (step : HostedStep UserId SessionId CapabilityId TokenId)
    (state : HostedUsers UserId CredentialId SessionId CapabilityId TokenId) :
    Decidable (Orderly step state) := by
  cases step <;> unfold Orderly <;> infer_instance

/-- The keys of the tables, and a run that was not started later than now. -/
structure WellFormed
    (state : HostedUsers UserId CredentialId SessionId CapabilityId TokenId) : Prop where
  users : (state.db.users.map (·.userId)).Nodup
  sessions : (state.db.sessions.map (·.sessionId)).Nodup
  linked : ∀ credential ∈ state.db.passwordCredentials,
    ∃ row ∈ state.db.authCredentials, row.1 = credential
  started : state.judgedAt ≤ state.clock

/-- What orderly steps keep. -/
structure Consistent (policy : SessionTimeoutPolicy)
    (state : HostedUsers UserId CredentialId SessionId CapabilityId TokenId) : Prop
    extends WellFormed state where
  covered : ∀ stored ∈ state.tokens, stored.2.Paid → snapshotOf stored ∈ state.db.snapshots
  underWay : ∀ row ∈ state.db.users, state.directory row.userId ≠ .intact →
    state.db.Inactive row state.judgedAt ∧
      ¬state.db.UserHasLiveSession policy row.userId state.judgedAt

theorem Effect.judgedAt_le {step : HostedStep UserId SessionId CapabilityId TokenId}
    (effect : Effect params policy state step after) (started : state.judgedAt ≤ state.clock) :
    state.judgedAt ≤ after.judgedAt := by
  cases effect with
  | waits elapsed =>
    unfold judgedAt
    dsimp only
    split
    · exact le_rfl
    · omega
  | logsIn | requests | usesSession | endsSession | storesToken => exact le_rfl
  | startsRun | endsRun | cutsShort => exact started
  | keepsBack _ underWay | deletes _ underWay => simp [judgedAt, underWay]

theorem Effect.started {step : HostedStep UserId SessionId CapabilityId TokenId}
    (effect : Effect params policy state step after) (started : state.judgedAt ≤ state.clock) :
    after.judgedAt ≤ after.clock := by
  cases effect with
  | waits elapsed =>
    cases run : state.cleanup with
    | none => simp [judgedAt]
    | some run =>
      simp only [judgedAt, run] at started ⊢
      omega
  | logsIn | requests | usesSession | endsSession | storesToken => exact started
  | startsRun | endsRun | cutsShort => exact le_rfl
  | keepsBack _ underWay | deletes _ underWay =>
    rw [judgedAt, underWay] at started
    exact started

theorem Effect.users_nodup {step : HostedStep UserId SessionId CapabilityId TokenId}
    (effect : Effect params policy state step after)
    (unique : (state.db.users.map (·.userId)).Nodup) :
    (after.db.users.map (·.userId)).Nodup := by
  have recorded (user : UserId) (now : ℤ) :
      (state.db.recordLastLogin user now).users.map (·.userId) =
        state.db.users.map (·.userId) := by
    simp only [AppDb.recordLastLogin, List.map_map]
    refine List.map_congr_left fun row _ => ?_
    by_cases same : row.userId = user <;> simp [same]
  cases effect with
  | waits | usesSession | endsSession | startsRun | endsRun | keepsBack | cutsShort => exact unique
  | logsIn db present fresh made =>
    rcases made with rfl | rfl | rfl
    · exact unique
    · exact unique
    · exact (recorded _ _).symm ▸ unique
  | requests row => exact (recorded _ _).symm ▸ unique
  | @storesToken _ _ snapshot =>
    cases snapshot <;> exact unique
  | deletes => exact unique.sublist (List.filter_sublist.map _)

theorem Effect.sessions_nodup {step : HostedStep UserId SessionId CapabilityId TokenId}
    (effect : Effect params policy state step after)
    (unique : (state.db.sessions.map (·.sessionId)).Nodup) :
    (after.db.sessions.map (·.sessionId)).Nodup := by
  cases effect with
  | waits | requests | startsRun | endsRun | keepsBack | cutsShort => exact unique
  | @logsIn user session _ _ db present fresh made =>
    have added : session ∉ state.db.sessions.map (·.sessionId) := by simpa using fresh
    rcases made with rfl | rfl | rfl
    · exact unique
    · exact List.nodup_cons.mpr ⟨added, unique⟩
    · exact List.nodup_cons.mpr ⟨added, unique⟩
  | @usesSession session row member named live =>
    have ids : (state.db.useSession session state.clock).sessions.map (·.sessionId) =
        state.db.sessions.map (·.sessionId) := by
      simp only [AppDb.useSession, List.map_map]
      refine List.map_congr_left fun row _ => ?_
      by_cases same : row.sessionId = session <;> simp [same]
    exact ids.symm ▸ unique
  | endsSession => exact unique.sublist (List.filter_sublist.map _)
  | @storesToken _ _ snapshot =>
    cases snapshot <;> exact unique
  | deletes => exact unique.sublist (List.filter_sublist.map _)

theorem Effect.linked {step : HostedStep UserId SessionId CapabilityId TokenId}
    (effect : Effect params policy state step after)
    (linked : ∀ credential ∈ state.db.passwordCredentials,
      ∃ row ∈ state.db.authCredentials, row.1 = credential) :
    ∀ credential ∈ after.db.passwordCredentials,
      ∃ row ∈ after.db.authCredentials, row.1 = credential := by
  cases effect with
  | waits | requests | usesSession | endsSession | startsRun | endsRun | keepsBack | cutsShort =>
    exact linked
  | logsIn db present fresh made => rcases made with rfl | rfl | rfl <;> exact linked
  | @storesToken _ _ snapshot => cases snapshot <;> exact linked
  | @deletes _ _ candidate =>
    intro credential member
    obtain ⟨kept, others⟩ := List.mem_filter.mp member
    obtain ⟨row, present, rfl⟩ := linked credential kept
    refine ⟨row, List.mem_filter.mpr ⟨present, decide_eq_true ?_⟩, rfl⟩
    intro owner
    rw [← owner] at others
    exact of_decide_eq_true others present

omit [LinearOrder UserId] [DecidableEq CredentialId] [DecidableEq SessionId]
  [DecidableEq CapabilityId] in
theorem snapshotOf_mem_record {user : UserId} {token : VerifiedToken TokenId}
    {db : AppDb UserId CredentialId SessionId CapabilityId TokenId} :
    snapshotOf (user, token) ∈
      (db.recordVerifiedAppEntitlementSnapshot user token).snapshots := by
  unfold AppDb.recordVerifiedAppEntitlementSnapshot
  dsimp only
  split
  · next existing =>
      obtain ⟨row, member, same⟩ := existing
      exact List.mem_map.mpr ⟨row, member, if_pos same⟩
  · exact List.mem_cons_self

omit [LinearOrder UserId] [DecidableEq CredentialId] [DecidableEq SessionId]
  [DecidableEq CapabilityId] in
theorem mem_record_of_ne {user : UserId} {token : VerifiedToken TokenId}
    {db : AppDb UserId CredentialId SessionId CapabilityId TokenId}
    {row : SnapshotRow UserId TokenId} (member : row ∈ db.snapshots)
    (other : row.tokenId ≠ some token.tokenId) :
    row ∈ (db.recordVerifiedAppEntitlementSnapshot user token).snapshots := by
  unfold AppDb.recordVerifiedAppEntitlementSnapshot
  dsimp only
  split
  · exact List.mem_map.mpr ⟨row, member, if_neg other⟩
  · exact .tail _ member

omit [LinearOrder UserId] [DecidableEq CredentialId] [DecidableEq SessionId]
  [DecidableEq CapabilityId] in
theorem of_mem_record {user : UserId} {token : VerifiedToken TokenId}
    {db : AppDb UserId CredentialId SessionId CapabilityId TokenId}
    {row : SnapshotRow UserId TokenId}
    (member : row ∈ (db.recordVerifiedAppEntitlementSnapshot user token).snapshots) :
    row.userId = user ∨ row ∈ db.snapshots := by
  unfold AppDb.recordVerifiedAppEntitlementSnapshot at member
  dsimp only at member
  split at member
  · obtain ⟨existing, present, rfl⟩ := List.mem_map.mp member
    split
    · exact .inl rfl
    · exact .inr present
  · rcases List.mem_cons.mp member with rfl | present
    · exact .inl rfl
    · exact .inr present

theorem Effect.covered {step : HostedStep UserId SessionId CapabilityId TokenId}
    (effect : Effect params policy state step after) (orderly : Orderly step state)
    (covered : ∀ stored ∈ state.tokens, stored.2.Paid → snapshotOf stored ∈ state.db.snapshots) :
    ∀ stored ∈ after.tokens, stored.2.Paid → snapshotOf stored ∈ after.db.snapshots := by
  cases effect with
  | waits | requests | usesSession | endsSession | startsRun | endsRun | keepsBack => exact covered
  | logsIn db present fresh made => rcases made with rfl | rfl | rfl <;> exact covered
  | @storesToken user token snapshot present =>
    obtain ⟨-, recorded, alone⟩ := orderly
    intro stored member paid
    by_cases kept : snapshot = true
    · rw [if_pos kept]
      by_cases same : stored = (user, token)
      · subst same
        exact snapshotOf_mem_record
      · have earlier := (List.mem_cons.mp member).resolve_left same
        refine mem_record_of_ne (covered stored earlier paid) ?_
        intro sameId
        exact same (alone kept stored earlier paid (Option.some.inj sameId))
    · rw [if_neg kept]
      rcases List.mem_cons.mp member with rfl | earlier
      · exact covered _ ((recorded paid).resolve_left kept) paid
      · exact covered stored earlier paid
  | cutsShort directory =>
    intro stored member paid
    refine covered stored ?_ paid
    by_cases removed : directory = .removed
    · subst removed
      exact (List.mem_filter.mp member).1
    · simpa [setDirectory, removed] using member
  | deletes =>
    intro stored member paid
    obtain ⟨kept, other⟩ := List.mem_filter.mp member
    exact List.mem_filter.mpr ⟨covered stored kept paid, other⟩

omit [LinearOrder UserId] [DecidableEq CredentialId] [DecidableEq SessionId]
  [DecidableEq CapabilityId] [DecidableEq TokenId] in
theorem pending_of_added {row : UserRow UserId} {now later : ℤ}
    {db next : AppDb UserId CredentialId SessionId CapabilityId TokenId} (judged : now ≤ later)
    (pending : db.Inactive row now ∧ ¬db.UserHasLiveSession policy row.userId now)
    (snapshots : ∀ snapshot ∈ next.snapshots, snapshot.userId = row.userId →
      snapshot ∈ db.snapshots)
    (sessions : ∀ session ∈ next.sessions, session.userId = row.userId →
      session ∈ db.sessions) :
    next.Inactive row later ∧ ¬next.UserHasLiveSession policy row.userId later := by
  refine ⟨AppDb.inactive_mono (pending.1.of_snapshots snapshots) judged, ?_⟩
  rintro ⟨session, member, owner, live⟩
  exact pending.2 ⟨session, sessions session member owner, owner, AppDb.live_anti live judged⟩

omit [DecidableEq CredentialId] [DecidableEq SessionId] [DecidableEq CapabilityId]
  [DecidableEq TokenId] in
theorem mem_recordLastLogin {row : UserRow UserId} {user : UserId} {now : ℤ}
    {db : AppDb UserId CredentialId SessionId CapabilityId TokenId}
    (member : row ∈ (db.recordLastLogin user now).users) :
    row.userId = user ∧ row.lastLoginAt = some now ∨ row.userId ≠ user ∧ row ∈ db.users := by
  obtain ⟨earlier, present, rfl⟩ := List.mem_map.mp member
  split
  · next same => exact .inl ⟨same, rfl⟩
  · next other => exact .inr ⟨other, present⟩

omit [DecidableEq CredentialId] [DecidableEq SessionId] [DecidableEq CapabilityId]
  [DecidableEq TokenId] in
theorem Deletable.inactive {user : UserId} {now : ℤ} {row : UserRow UserId}
    (deletable : state.Deletable policy user now)
    (unique : (state.db.users.map (·.userId)).Nodup) (member : row ∈ state.db.users)
    (owner : row.userId = user) : state.db.Inactive row now := by
  obtain ⟨candidate, found⟩ := Option.isSome_iff_exists.mp deletable.1
  obtain ⟨other, present, named, inactive, -⟩ := AppDb.isDeletionCandidateNow_eq_some found
  rwa [List.inj_on_of_nodup_map unique member present (owner.trans named.symm)]

theorem Effect.underWay {step : HostedStep UserId SessionId CapabilityId TokenId}
    (effect : Effect params policy state step after) (orderly : Orderly step state)
    (consistent : state.Consistent policy) :
    ∀ row ∈ after.db.users, after.directory row.userId ≠ .intact →
      after.db.Inactive row after.judgedAt ∧
        ¬after.db.UserHasLiveSession policy row.userId after.judgedAt := by
  have judged := effect.judgedAt_le consistent.started
  intro row member changed
  cases effect with
  | waits | startsRun | endsRun | keepsBack =>
    exact pending_of_added judged (consistent.underWay row member changed)
      (fun _ inside _ => inside) fun _ inside _ => inside
  | @logsIn user session _ _ db present fresh made =>
    have other : row.userId ≠ user := by
      rintro rfl
      exact changed orderly
    have earlier : row ∈ state.db.users := by
      rcases made with rfl | rfl | rfl
      · exact member
      · exact member
      · exact ((mem_recordLastLogin member).resolve_left fun same => other same.1).2
    refine pending_of_added judged (consistent.underWay row earlier changed) ?_ ?_
    · rcases made with rfl | rfl | rfl <;> exact fun _ inside _ => inside
    · intro session inside owner
      rcases made with rfl | rfl | rfl
      · exact inside
      all_goals
        refine (List.mem_cons.mp inside).resolve_left ?_
        rintro rfl
        exact other owner.symm
  | requests capability inside named =>
    have other : row.userId ≠ capability.userId := by
      intro same
      exact changed (same ▸ orderly capability inside named)
    have earlier := (mem_recordLastLogin member).resolve_left fun same => other same.1
    exact pending_of_added judged (consistent.underWay row earlier.2 changed)
      (fun _ inside _ => inside) fun _ inside _ => inside
  | @usesSession session used inside named live =>
    have pending := consistent.underWay row member changed
    refine pending_of_added judged pending (fun _ inside _ => inside) ?_
    intro later mapped owner
    obtain ⟨earlier, there, rfl⟩ := List.mem_map.mp mapped
    by_cases same : earlier.sessionId = session
    · -- The session in use is live, so that it is not one of this user's.
      rw [if_pos same] at owner
      have one := List.inj_on_of_nodup_map consistent.sessions there inside
        (same.trans named.symm)
      subst one
      exact absurd ⟨earlier, there, owner, AppDb.live_anti live consistent.started⟩ pending.2
    · rw [if_neg same]
      exact there
  | endsSession =>
    exact pending_of_added judged (consistent.underWay row member changed)
      (fun _ inside _ => inside) fun _ inside _ => (List.mem_filter.mp inside).1
  | @storesToken user token snapshot =>
    have other : user ≠ row.userId := by
      rintro rfl
      exact changed orderly.1
    cases snapshot with
    | false =>
      exact pending_of_added judged (consistent.underWay row member changed)
        (fun _ inside _ => inside) fun _ inside _ => inside
    | true =>
      refine pending_of_added judged (consistent.underWay row member changed) ?_
        fun _ inside _ => inside
      intro snapshot inside owner
      exact (of_mem_record inside).resolve_left fun same => other (same.symm.trans owner)
  | @cutsShort _ now candidate _ _ directory underWay deletable =>
    have atNow : state.judgedAt = now := by simp [HostedUsers.judgedAt, underWay]
    have pending : state.db.Inactive row state.judgedAt ∧
        ¬state.db.UserHasLiveSession policy row.userId state.judgedAt := by
      by_cases same : row.userId = candidate.userId
      · rw [atNow, same]
        exact ⟨deletable.inactive consistent.users member same, deletable.2⟩
      · refine consistent.underWay row member ?_
        simpa [setDirectory, Function.update_of_ne same] using changed
    exact pending_of_added judged pending (fun _ inside _ => inside) fun _ inside _ => inside
  | @deletes _ now candidate =>
    obtain ⟨kept, other⟩ := List.mem_filter.mp member
    have other := of_decide_eq_true other
    have pending := consistent.underWay row kept
      (by simpa [deleteUser, setDirectory, Function.update_of_ne other] using changed)
    exact pending_of_added judged pending (fun _ inside _ => (List.mem_filter.mp inside).1)
      fun _ inside _ => (List.mem_filter.mp inside).1

theorem WellFormed.effect {step : HostedStep UserId SessionId CapabilityId TokenId}
    (wellFormed : state.WellFormed) (effect : Effect params policy state step after) :
    after.WellFormed where
  users := effect.users_nodup wellFormed.users
  sessions := effect.sessions_nodup wellFormed.sessions
  linked := effect.linked wellFormed.linked
  started := effect.started wellFormed.started

theorem Consistent.effect {step : HostedStep UserId SessionId CapabilityId TokenId}
    (consistent : state.Consistent policy) (orderly : Orderly step state)
    (effect : Effect params policy state step after) : after.Consistent policy where
  toWellFormed := consistent.toWellFormed.effect effect
  covered := effect.covered orderly consistent.covered
  underWay := effect.underWay orderly consistent

/-- What has to hold where a directory is taken from its user. -/
structure MayBeDeleted (policy : SessionTimeoutPolicy) (user : UserId)
    (state : HostedUsers UserId CredentialId SessionId CapabilityId TokenId) : Prop where
  inactive : ∀ row ∈ state.db.users, row.userId = user →
    row.activityAt < state.clock - inactiveDays * day
  noSession : ¬state.db.UserHasLiveSession policy user state.clock
  unpaid : ∀ token, (user, token) ∈ state.tokens → token.Paid →
    token.subscriptionValidUntil < state.clock - paidGraceDays * day

omit [DecidableEq CredentialId] [DecidableEq SessionId] [DecidableEq CapabilityId]
  [DecidableEq TokenId] in
theorem Deletable.mayBeDeleted {user : UserId} {now : ℤ}
    (deletable : state.Deletable policy user now) (consistent : state.Consistent policy)
    (past : now ≤ state.clock) : state.MayBeDeleted policy user where
  inactive row member owner :=
    (AppDb.inactive_mono (deletable.inactive consistent.users member owner) past).1
  noSession live := deletable.2 (AppDb.userHasLiveSession_anti live past)
  unpaid token stored paid := by
    obtain ⟨candidate, found⟩ := Option.isSome_iff_exists.mp deletable.1
    obtain ⟨row, member, owner, inactive, -⟩ := AppDb.isDeletionCandidateNow_eq_some found
    by_contra within
    refine (AppDb.inactive_mono inactive past).2
      ⟨snapshotOf (user, token), consistent.covered _ stored paid, owner.symm, ?_⟩
    refine Bool.and_eq_true_iff.mpr ⟨decide_eq_true paid, decide_eq_true ?_⟩
    exact Int.ediv_le_ediv (by decide) (not_lt.mp within)

theorem Consistent.mayBeDeleted {step : HostedStep UserId SessionId CapabilityId TokenId}
    (consistent : state.Consistent policy) (effect : Effect params policy state step after)
    {user : UserId} (changed : after.directory user ≠ state.directory user) :
    state.MayBeDeleted policy user := by
  cases effect with
  | waits | logsIn | requests | usesSession | endsSession | storesToken | startsRun | endsRun
  | keepsBack => exact absurd rfl changed
  | @cutsShort _ now candidate _ _ directory underWay deletable
  | @deletes _ now candidate _ _ _ underWay deletable =>
    have past : now ≤ state.clock := by
      simpa [HostedUsers.judgedAt, underWay] using consistent.started
    have same : user = candidate.userId := by
      by_contra other
      exact changed (Function.update_of_ne other _ _)
    exact same ▸ deletable.mayBeDeleted consistent past

theorem Effect.hasRow {step : HostedStep UserId SessionId CapabilityId TokenId}
    (effect : Effect params policy state step after) {user : UserId}
    (present : after.HasRow user) : state.HasRow user := by
  have recorded {other : UserId} {now : ℤ} {row : UserRow UserId} (owner : row.userId = user)
      (member : row ∈ (state.db.recordLastLogin other now).users) : state.HasRow user := by
    obtain ⟨earlier, there, rfl⟩ := List.mem_map.mp member
    refine ⟨earlier, there, ?_⟩
    by_cases same : earlier.userId = other <;> simpa [same] using owner
  obtain ⟨row, member, owner⟩ := present
  cases effect with
  | waits | usesSession | endsSession | startsRun | endsRun | keepsBack | cutsShort =>
    exact ⟨row, member, owner⟩
  | logsIn db _ _ made =>
    rcases made with rfl | rfl | rfl
    · exact ⟨row, member, owner⟩
    · exact ⟨row, member, owner⟩
    · exact recorded owner member
  | requests => exact recorded owner member
  | @storesToken _ _ snapshot => cases snapshot <;> exact ⟨row, member, owner⟩
  | deletes => exact ⟨row, (List.mem_filter.mp member).1, owner⟩

theorem WellFormed.deleted {step : HostedStep UserId SessionId CapabilityId TokenId}
    (wellFormed : state.WellFormed) (effect : Effect params policy state step after)
    {user : UserId} (present : state.HasRow user) (absent : ¬after.HasRow user) :
    after.Deleted user := by
  have recorded {other : UserId} {now : ℤ}
      (gone : ¬∃ row ∈ (state.db.recordLastLogin other now).users, row.userId = user) : False := by
    obtain ⟨row, member, owner⟩ := present
    refine gone ⟨_, List.mem_map_of_mem member, ?_⟩
    by_cases same : row.userId = other <;> simp [same, ← owner]
  have linked := effect.linked wellFormed.linked
  cases effect with
  | waits | usesSession | endsSession | startsRun | endsRun | keepsBack | cutsShort =>
    exact absurd present absent
  | logsIn db _ _ made =>
    rcases made with rfl | rfl | rfl
    · exact absurd present absent
    · exact absurd present absent
    · exact (recorded absent).elim
  | requests => exact (recorded absent).elim
  | @storesToken _ _ snapshot => cases snapshot <;> exact absurd present absent
  | @deletes _ _ candidate =>
    have same : user = candidate.userId := by
      by_contra other
      obtain ⟨row, member, rfl⟩ := present
      exact absent ⟨row, List.mem_filter.mpr ⟨member, decide_eq_true other⟩, rfl⟩
    subst same
    refine ⟨Function.update_self _ _ _, ?_, ?_, ?_, ?_, ?_, ?_, ?_, ?_⟩
    · exact fun row member => of_decide_eq_true (List.mem_filter.mp member).2
    · exact fun row member => of_decide_eq_true (List.mem_filter.mp member).2
    · intro credential member
      obtain ⟨row, there, named⟩ := linked credential member
      exact ⟨row, there, named, of_decide_eq_true (List.mem_filter.mp there).2⟩
    · exact fun member => of_decide_eq_true (List.mem_filter.mp member).2 rfl
    · exact fun member => of_decide_eq_true (List.mem_filter.mp member).2 rfl
    · exact fun row member => of_decide_eq_true (List.mem_filter.mp member).2
    · exact fun row member => of_decide_eq_true (List.mem_filter.mp member).2
    · exact fun row member => of_decide_eq_true (List.mem_filter.mp member).2

omit [LinearOrder UserId] [DecidableEq CredentialId] [DecidableEq SessionId]
  [DecidableEq CapabilityId] [DecidableEq TokenId] in
theorem Deleted.congr {user : UserId} (deleted : state.Deleted user)
    (directory : after.directory = state.directory) (db : after.db = state.db) :
    after.Deleted user := by
  refine ⟨directory ▸ deleted.directory, ?_, ?_, ?_, ?_, ?_, ?_, ?_, ?_⟩
  all_goals rw [db]
  · exact deleted.users
  · exact deleted.authCredentials
  · exact deleted.passwordCredentials
  · exact deleted.appUserPreferences
  · exact deleted.legalAcceptances
  · exact deleted.sessions
  · exact deleted.snapshots
  · exact deleted.clientCapabilities

omit [DecidableEq CredentialId] [DecidableEq SessionId] [DecidableEq CapabilityId]
  [DecidableEq TokenId] in
theorem Deleted.recordLastLogin_users {user other : UserId} {now : ℤ}
    (deleted : state.Deleted user) :
    ∀ row ∈ (state.db.recordLastLogin other now).users, row.userId ≠ user := by
  intro row member
  obtain ⟨earlier, there, rfl⟩ := List.mem_map.mp member
  split <;> exact deleted.users earlier there

/-- Nothing comes back. -/
theorem Deleted.effect {step : HostedStep UserId SessionId CapabilityId TokenId} {user : UserId}
    (deleted : state.Deleted user) (effect : Effect params policy state step after) :
    after.Deleted user := by
  have present {other : UserId} (row : state.HasRow other) : other ≠ user := by
    rintro rfl
    obtain ⟨row, member, owner⟩ := row
    exact deleted.users row member owner
  have candidate {other : UserId} {now : ℤ} (deletable : state.Deletable policy other now) :
      user ≠ other := by
    obtain ⟨candidate, found⟩ := Option.isSome_iff_exists.mp deletable.1
    obtain ⟨row, member, owner, -⟩ := AppDb.isDeletionCandidateNow_eq_some found
    exact (present ⟨row, member, owner⟩).symm
  cases effect with
  | waits | startsRun | endsRun | keepsBack => exact deleted.congr rfl rfl
  | @logsIn other session _ _ db there _ made =>
    have sessions : ∀ row ∈ (state.db.createSession policy other session state.clock).sessions,
        row.userId ≠ user := by
      intro row member
      rcases List.mem_cons.mp member with rfl | earlier
      · exact present there
      · exact deleted.sessions row earlier
    rcases made with rfl | rfl | rfl
    · exact deleted.congr rfl rfl
    · exact { deleted with sessions }
    · exact { deleted with sessions, users := deleted.recordLastLogin_users }
  | requests =>
    refine { deleted with users := deleted.recordLastLogin_users, clientCapabilities := ?_ }
    intro row member
    obtain ⟨earlier, there, rfl⟩ := List.mem_map.mp member
    split <;> exact deleted.clientCapabilities earlier there
  | usesSession =>
    refine { deleted with sessions := ?_ }
    intro row member
    obtain ⟨earlier, there, rfl⟩ := List.mem_map.mp member
    split <;> exact deleted.sessions earlier there
  | endsSession =>
    exact { deleted with
      sessions := fun row member => deleted.sessions row (List.mem_filter.mp member).1 }
  | @storesToken other token snapshot there =>
    cases snapshot with
    | false => exact deleted.congr rfl rfl
    | true =>
      refine { deleted with snapshots := ?_ }
      intro row member
      rcases of_mem_record member with rfl | earlier
      · intro same
        exact there (same ▸ deleted.directory)
      · exact deleted.snapshots row earlier
  | cutsShort directory _ deletable =>
    exact { deleted with
      directory := (Function.update_of_ne (candidate deletable) _ _).trans deleted.directory }
  | deletes _ _ deletable =>
    refine ⟨(Function.update_of_ne (candidate deletable) _ _).trans deleted.directory,
      ?_, ?_, ?_, ?_, ?_, ?_, ?_, ?_⟩
    · exact fun row member => deleted.users row (List.mem_filter.mp member).1
    · exact fun row member => deleted.authCredentials row (List.mem_filter.mp member).1
    · intro credential member
      obtain ⟨kept, others⟩ := List.mem_filter.mp member
      obtain ⟨row, there, named, other⟩ := deleted.passwordCredentials credential kept
      refine ⟨row, List.mem_filter.mpr ⟨there, decide_eq_true ?_⟩, named, other⟩
      rintro same
      exact of_decide_eq_true others (named ▸ same ▸ there)
    · exact fun member => deleted.appUserPreferences (List.mem_filter.mp member).1
    · exact fun member => deleted.legalAcceptances (List.mem_filter.mp member).1
    · exact fun row member => deleted.sessions row (List.mem_filter.mp member).1
    · exact fun row member => deleted.snapshots row (List.mem_filter.mp member).1
    · exact fun row member => deleted.clientCapabilities row (List.mem_filter.mp member).1

end HostedUsers

end Bitgarth.Auth
