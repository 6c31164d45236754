import Bitgarth.Auth.InactiveCleanupRuns
import Mathlib.Algebra.BigOperators.Ring.List
import Mathlib.Algebra.Ring.Nat

/-! # The turn of an inactive user

A run lists the longest inactive users first and no more than its batch. The places that users ahead
of a candidate take are accounted for by those who are deleted and those who are held back, which
bounds the runs that end before the candidate's turn.
-/

namespace Bitgarth.Auth

open Reachability

variable {UserId CredentialId SessionId CapabilityId TokenId : Type} [LinearOrder UserId]
  [DecidableEq CredentialId] [DecidableEq SessionId] [DecidableEq CapabilityId]
  [DecidableEq TokenId]

namespace HostedUsers

variable {params : InactiveUserCleanupParams} {policy : SessionTimeoutPolicy}
  {state after : HostedUsers UserId CredentialId SessionId CapabilityId TokenId}

/-- A user whom the run under way, or one started now, lists and lets go. -/
def StaysCandidate (policy : SessionTimeoutPolicy) (candidate : DeletionCandidate UserId)
    (state : HostedUsers UserId CredentialId SessionId CapabilityId TokenId) : Prop :=
  state.db.isDeletionCandidateNow candidate.userId state.judgedAt = some candidate ∧
    ¬state.db.UserHasLiveSession policy candidate.userId state.judgedAt

/-- The users who come before a candidate where both are listed. -/
def ahead (candidate : DeletionCandidate UserId)
    (state : HostedUsers UserId CredentialId SessionId CapabilityId TokenId) : ℕ :=
  state.db.users.countP fun row => row.candidate.position < candidate.position

/-- Whether a step comes to a listed user whom the recheck keeps. -/
def heldBack (policy : SessionTimeoutPolicy)
    (entry : HostedStep UserId SessionId CapabilityId TokenId ×
      HostedUsers UserId CredentialId SessionId CapabilityId TokenId) : ℕ :=
  match entry.1, entry.2.cleanup with
  | .deleteNext _, some ⟨now, candidate :: _, _⟩ =>
    if entry.2.Deletable policy candidate.userId now then 0 else 1
  | _, _ => 0

/-- Whether a step ends a run in which no deletion failed. -/
def finished (entry : HostedStep UserId SessionId CapabilityId TokenId ×
    HostedUsers UserId CredentialId SessionId CapabilityId TokenId) : ℕ :=
  match entry.1 with
  | .finishRun => 1
  | _ => 0

/-- The places of the batch that users before the candidate have taken from it. -/
def taken (params : InactiveUserCleanupParams) (candidate : DeletionCandidate UserId)
    (state : HostedUsers UserId CredentialId SessionId CapabilityId TokenId) : ℕ :=
  match state.cleanup with
  | none => 0
  | some run =>
    if candidate ∈ run.candidates then 0 else params.batchLimit - run.candidates.length

/-- A run under way has the candidate on its list, or has filled it with users before it. -/
structure Queued (params : InactiveUserCleanupParams) (candidate : DeletionCandidate UserId)
    (state : HostedUsers UserId CredentialId SessionId CapabilityId TokenId) : Prop where
  users : (state.db.users.map (·.userId)).Nodup
  started : state.judgedAt ≤ state.clock
  listed : ∀ run ∈ state.cleanup, candidate ∈ run.candidates ∨
    run.candidates.length ≤ params.batchLimit ∧
      ∀ other ∈ run.candidates, other.position < candidate.position
  activity : ∀ run ∈ state.cleanup, ∀ other ∈ run.candidates, ∀ row ∈ state.db.users,
    row.userId = other.userId → row.candidate = other ∨ run.now ≤ row.activityAt

omit [LinearOrder UserId] in
theorem position_injective :
    Function.Injective (DeletionCandidate.position : DeletionCandidate UserId → _) := by
  rintro ⟨leftId, leftAt⟩ ⟨rightId, rightAt⟩ same
  obtain ⟨rfl, rfl⟩ := Prod.mk.inj (toLex.injective same)
  rfl

omit [DecidableEq CredentialId] [DecidableEq SessionId] [DecidableEq CapabilityId]
  [DecidableEq TokenId] in
theorem mem_listDeletionCandidates_or
    {db : AppDb UserId CredentialId SessionId CapabilityId TokenId} {now : ℤ}
    {row : UserRow UserId} (batchLimit : ℕ) (member : row ∈ db.users)
    (inactive : db.Inactive row now) :
    row.candidate ∈ db.listDeletionCandidates now batchLimit ∨
      (db.listDeletionCandidates now batchLimit).length = batchLimit ∧
        ∀ other ∈ db.listDeletionCandidates now batchLimit,
          other.position < row.candidate.position := by
  unfold AppDb.listDeletionCandidates
  generalize sortedEq : ((db.users.filter (db.Inactive · now)).map (·.candidate)).insertionSort
    (fun left right => left.position ≤ right.position) = sorted
  have sortedPairs : sorted.Pairwise fun left right => left.position ≤ right.position :=
    sortedEq ▸ RowSelection.insertionSort_sorted DeletionCandidate.position _
  have present : row.candidate ∈ sorted := by
    rw [← sortedEq, List.mem_insertionSort]
    exact List.mem_map_of_mem (List.mem_filter.mpr ⟨member, decide_eq_true inactive⟩)
  by_cases inside : row.candidate ∈ sorted.take batchLimit
  · exact .inl inside
  right
  have later : row.candidate ∈ sorted.drop batchLimit := by
    rw [← List.take_append_drop batchLimit sorted] at present
    exact (List.mem_append.mp present).resolve_left inside
  have long := List.length_pos_of_mem later
  rw [List.length_drop] at long
  refine ⟨by rw [List.length_take]; omega, ?_⟩
  intro other taken
  rw [← List.take_append_drop batchLimit sorted] at sortedPairs
  refine lt_of_le_of_ne ((List.pairwise_append.mp sortedPairs).2.2 other taken _ later) ?_
  intro same
  exact inside (position_injective same ▸ taken)

omit [DecidableEq CredentialId] [DecidableEq SessionId] [DecidableEq CapabilityId]
  [DecidableEq TokenId] in
theorem of_mem_listDeletionCandidates
    {db : AppDb UserId CredentialId SessionId CapabilityId TokenId} {now : ℤ} {batchLimit : ℕ}
    {candidate : DeletionCandidate UserId}
    (member : candidate ∈ db.listDeletionCandidates now batchLimit) :
    ∃ row ∈ db.users, row.candidate = candidate := by
  have present := List.mem_of_mem_take member
  rw [List.mem_insertionSort] at present
  obtain ⟨row, kept, rfl⟩ := List.mem_map.mp present
  exact ⟨row, (List.mem_filter.mp kept).1, rfl⟩

omit [DecidableEq CredentialId] [DecidableEq SessionId] [DecidableEq CapabilityId]
  [DecidableEq TokenId] in
theorem StaysCandidate.row {candidate : DeletionCandidate UserId}
    (stays : state.StaysCandidate policy candidate) :
    ∃ row ∈ state.db.users, state.db.Inactive row state.judgedAt ∧ row.candidate = candidate := by
  obtain ⟨row, member, -, inactive, made⟩ := AppDb.isDeletionCandidateNow_eq_some stays.1
  exact ⟨row, member, inactive, made⟩

omit [DecidableEq CredentialId] [DecidableEq SessionId] [DecidableEq CapabilityId]
  [DecidableEq TokenId] in
theorem StaysCandidate.hasRow {candidate : DeletionCandidate UserId}
    (stays : state.StaysCandidate policy candidate) : state.HasRow candidate.userId := by
  obtain ⟨row, member, -, rfl⟩ := stays.row
  exact ⟨row, member, rfl⟩

omit [DecidableEq CredentialId] [DecidableEq SessionId] [DecidableEq CapabilityId]
  [DecidableEq TokenId] in
theorem StaysCandidate.activityAt_lt {candidate : DeletionCandidate UserId}
    (stays : state.StaysCandidate policy candidate) :
    candidate.activityAt < state.judgedAt := by
  obtain ⟨row, -, inactive, rfl⟩ := stays.row
  have earlier := inactive.1
  have days : 0 < inactiveDays * day := by decide
  exact lt_trans earlier (by omega)

omit [DecidableEq CredentialId] [DecidableEq SessionId] [DecidableEq CapabilityId]
  [DecidableEq TokenId] in
theorem countP_recordLastLogin_le {candidate : DeletionCandidate UserId} {now : ℤ} (user : UserId)
    (db : AppDb UserId CredentialId SessionId CapabilityId TokenId)
    (later : candidate.activityAt < now) :
    (db.recordLastLogin user now).users.countP
        (fun row => row.candidate.position < candidate.position) ≤
      db.users.countP fun row => row.candidate.position < candidate.position := by
  unfold AppDb.recordLastLogin
  rw [List.countP_map]
  refine List.countP_mono_left fun row _ before => ?_
  simp only [Function.comp_apply, decide_eq_true_eq] at before ⊢
  split at before
  · rcases Prod.Lex.toLex_lt_toLex.mp before with earlier | ⟨same, -⟩
    · exact absurd earlier (not_lt.mpr later.le)
    · exact absurd same later.ne'
  · exact before

omit [DecidableEq CredentialId] [DecidableEq SessionId] [DecidableEq CapabilityId]
  [DecidableEq TokenId] in
theorem Queued.activity_recordLastLogin {candidate : DeletionCandidate UserId}
    (queued : state.Queued params candidate) {user : UserId} :
    ∀ run ∈ state.cleanup, ∀ other ∈ run.candidates,
      ∀ row ∈ (state.db.recordLastLogin user state.clock).users, row.userId = other.userId →
        row.candidate = other ∨ run.now ≤ row.activityAt := by
  intro run underWay other listed row member owner
  rcases mem_recordLastLogin member with ⟨-, active⟩ | ⟨-, earlier⟩
  · have started := queued.started
    rw [judgedAt, underWay] at started
    simp only [UserRow.activityAt, active, Option.getD_some]
    exact .inr started
  · exact queued.activity run underWay other listed row earlier owner

omit [DecidableEq CredentialId] [DecidableEq SessionId] [DecidableEq CapabilityId]
  [DecidableEq TokenId] in
theorem Queued.rest {candidate first : DeletionCandidate UserId}
    {rest : List (DeletionCandidate UserId)} {now : ℤ} {summary : InactiveUserCleanupSummary}
    (queued : state.Queued params candidate)
    (underWay : state.cleanup = some ⟨now, first :: rest, summary⟩) (other : candidate ≠ first) :
    (candidate ∈ rest ∨ rest.length ≤ params.batchLimit ∧
      ∀ other ∈ rest, other.position < candidate.position) ∧
    (if candidate ∈ rest then 0 else params.batchLimit - rest.length) ≤
      state.taken params candidate + if candidate ∈ rest then 0 else 1 := by
  have listed := queued.listed _ underWay
  simp only [List.mem_cons, other, false_or, List.length_cons] at listed
  unfold taken
  simp only [underWay, List.mem_cons, other, false_or, List.length_cons]
  by_cases inside : candidate ∈ rest
  · exact ⟨.inl inside, by simp [inside]⟩
  · obtain ⟨full, before⟩ := listed.resolve_left inside
    refine ⟨.inr ⟨by omega, fun other member => before other (.inr member)⟩, ?_⟩
    rw [if_neg inside, if_neg inside, if_neg inside]
    omega

omit [DecidableEq SessionId] [DecidableEq CapabilityId] [DecidableEq TokenId] in
theorem Queued.ahead_deleteUser {candidate first : DeletionCandidate UserId}
    {rest : List (DeletionCandidate UserId)} {now : ℤ} {summary : InactiveUserCleanupSummary}
    (queued : state.Queued params candidate)
    (underWay : state.cleanup = some ⟨now, first :: rest, summary⟩)
    (deletable : state.Deletable policy first.userId now) (other : candidate ≠ first) :
    (state.deleteUser first.userId).ahead candidate + (if candidate ∈ rest then 0 else 1) ≤
      state.ahead candidate := by
  unfold ahead
  rw [List.countP_eq_countP_filter_add state.db.users _ fun row =>
    decide (row.userId ≠ first.userId)]
  refine Nat.add_le_add_left ?_ _
  split
  · exact Nat.zero_le _
  next outside =>
    obtain ⟨found, isFound⟩ := Option.isSome_iff_exists.mp deletable.1
    obtain ⟨row, member, owner, inactive, -⟩ := AppDb.isDeletionCandidateNow_eq_some isFound
    -- The row is as it was when it was listed: a later log-in would keep its user.
    have same : row.candidate = first := by
      refine (queued.activity _ underWay first List.mem_cons_self row member owner).resolve_right ?_
      have earlier := inactive.1
      have days : 0 < inactiveDays * day := by decide
      dsimp only
      omega
    have before := ((queued.listed _ underWay).resolve_left fun inside =>
      (List.mem_cons.mp inside).elim other outside).2 first List.mem_cons_self
    refine List.countP_pos_iff.mpr ⟨row, List.mem_filter.mpr ⟨member, ?_⟩, ?_⟩
    · simpa using owner
    · simpa [same] using before

theorem account_of_le {gain cost here there : ℕ} (limit : ℕ) (idle : gain = 0)
    (less : there ≤ here) : gain * limit + there ≤ cost + here := by
  rw [idle, Nat.zero_mul, Nat.zero_add]
  exact less.trans (Nat.le_add_left _ _)

theorem Queued.pays {step : HostedStep UserId SessionId CapabilityId TokenId}
    {candidate : DeletionCandidate UserId} (queued : state.Queued params candidate)
    (stays : state.StaysCandidate policy candidate)
    (staysAfter : after.StaysCandidate policy candidate)
    (effect : Effect params policy state step after) :
    after.Queued params candidate ∧
      finished (step, state) * params.batchLimit +
          (after.taken params candidate + after.ahead candidate) ≤
        heldBack policy (step, state) + (state.taken params candidate + state.ahead candidate) := by
  have users := effect.users_nodup queued.users
  have started := effect.started queued.started
  have active := lt_of_lt_of_le stays.activityAt_lt queued.started
  have recorded (user : UserId) := countP_recordLastLogin_le user state.db active
  cases effect with
  | waits | usesSession | endsSession =>
    exact ⟨⟨users, started, queued.listed, queued.activity⟩, account_of_le _ rfl le_rfl⟩
  | @storesToken _ _ snapshot =>
    cases snapshot <;>
      exact ⟨⟨users, started, queued.listed, queued.activity⟩, account_of_le _ rfl le_rfl⟩
  | logsIn db _ _ made =>
    rcases made with rfl | rfl | rfl
    · exact ⟨⟨users, started, queued.listed, queued.activity⟩, account_of_le _ rfl le_rfl⟩
    · exact ⟨⟨users, started, queued.listed, queued.activity⟩, account_of_le _ rfl le_rfl⟩
    · refine ⟨⟨users, started, queued.listed, queued.activity_recordLastLogin⟩, ?_⟩
      exact account_of_le _ rfl (Nat.add_le_add_left (recorded _) _)
  | requests capability =>
    refine ⟨⟨users, started, queued.listed, queued.activity_recordLastLogin⟩, ?_⟩
    exact account_of_le _ rfl (Nat.add_le_add_left (recorded _) _)
  | startsRun idle =>
    obtain ⟨row, member, inactive, rfl⟩ := stays.row
    have now : state.judgedAt = state.clock := by simp [judgedAt, idle]
    rw [now] at inactive
    have found := mem_listDeletionCandidates_or params.batchLimit member inactive
    refine ⟨⟨users, started, ?_, ?_⟩, account_of_le _ rfl (Nat.add_le_add_right ?_ _)⟩
    · rintro run ⟨⟩
      exact found.imp_right fun full => ⟨full.1.le, full.2⟩
    · rintro run ⟨⟩ other listed row present owner
      obtain ⟨first, there, rfl⟩ := of_mem_listDeletionCandidates listed
      exact .inl (congrArg _ (List.inj_on_of_nodup_map queued.users present there owner))
    · unfold taken
      dsimp only
      split
      · exact Nat.zero_le _
      · next outside =>
          rw [(found.resolve_left outside).1, Nat.sub_self]
          exact Nat.zero_le _
  | endsRun atEnd =>
    refine ⟨⟨users, started, ?_, ?_⟩, ?_⟩
    · rintro run ⟨⟩
    · rintro run ⟨⟩
    by_cases last : step = .finishRun
    · obtain ⟨now, summary, underWay⟩ := atEnd last
      subst last
      simp [finished, heldBack, taken, underWay, ahead]
    · refine account_of_le _ ?_ (Nat.add_le_add_right (Nat.zero_le _) _)
      cases step <;> first | rfl | exact absurd rfl last
  | @keepsBack failure now first rest summary later underWay held =>
    have atNow : state.judgedAt = now := by simp [judgedAt, underWay]
    have other : candidate ≠ first := by
      rintro rfl
      refine held ⟨?_, atNow ▸ stays.2⟩
      rw [← atNow, stays.1]
      rfl
    obtain ⟨listed, costs⟩ := queued.rest underWay other
    refine ⟨⟨users, started, ?_, ?_⟩, ?_⟩
    · rintro run ⟨⟩
      exact listed
    · rintro run ⟨⟩ other inside
      exact queued.activity _ underWay other (.tail _ inside)
    · have kept : heldBack policy (.deleteNext failure, state) = 1 := by
        simp [heldBack, underWay, held]
      rw [kept]
      change 0 * params.batchLimit + ((if candidate ∈ rest then 0
        else params.batchLimit - rest.length) + ahead candidate state) ≤ _
      have one : (if candidate ∈ rest then 0 else 1) ≤ 1 := by
        split <;> omega
      omega
  | @cutsShort _ now first rest summary directory underWay deletable =>
    refine ⟨⟨users, started, ?_, ?_⟩, ?_⟩
    · rintro run ⟨⟩
    · rintro run ⟨⟩
    exact account_of_le _ rfl (Nat.add_le_add_right (Nat.zero_le _) _)
  | @deletes failure now first rest summary later underWay deletable =>
    have other : candidate ≠ first := by
      rintro rfl
      obtain ⟨row, member, owner⟩ := staysAfter.hasRow
      exact of_decide_eq_true (List.mem_filter.mp member).2 owner
    obtain ⟨listed, costs⟩ := queued.rest underWay other
    have fewer := queued.ahead_deleteUser underWay deletable other
    refine ⟨⟨users, started, ?_, ?_⟩, ?_⟩
    · rintro run ⟨⟩
      exact listed
    · rintro run ⟨⟩ other inside row member
      exact queued.activity _ underWay other (.tail _ inside) row (List.mem_filter.mp member).1
    · change 0 * params.batchLimit + ((if candidate ∈ rest then 0
        else params.batchLimit - rest.length) + ahead candidate (state.deleteUser _)) ≤ _
      omega

/-- A step as a relation of states. -/
def next (params : InactiveUserCleanupParams) (policy : SessionTimeoutPolicy)
    (step : HostedStep UserId SessionId CapabilityId TokenId)
    (state after : HostedUsers UserId CredentialId SessionId CapabilityId TokenId) : Prop :=
  state.run params policy step = some after

def finishedRuns (trace : List (HostedStep UserId SessionId CapabilityId TokenId ×
    HostedUsers UserId CredentialId SessionId CapabilityId TokenId)) : ℕ :=
  (trace.map finished).sum

def stepsHeldBack (policy : SessionTimeoutPolicy)
    (trace : List (HostedStep UserId SessionId CapabilityId TokenId ×
      HostedUsers UserId CredentialId SessionId CapabilityId TokenId)) : ℕ :=
  (trace.map (heldBack policy)).sum

variable {trace : List (HostedStep UserId SessionId CapabilityId TokenId ×
  HostedUsers UserId CredentialId SessionId CapabilityId TokenId)}

theorem WellFormed.traced (wellFormed : state.WellFormed)
    (ran : Traced (next params policy) state trace after) : after.WellFormed := by
  induction ran with
  | start => exact wellFormed
  | step _ taken ih => exact ih.effect (effect_of_run taken)

theorem Consistent.traced (consistent : state.Consistent policy)
    (ran : Traced (next params policy) state trace after)
    (orderly : ∀ entry ∈ trace, Orderly entry.1 entry.2) : after.Consistent policy :=
  @Reached.invariant _ _ _ _ _ _ (ran.reached orderly) (Consistent policy) consistent
    fun _ _ _ consistent orderly taken => consistent.effect orderly (effect_of_run taken)

theorem WellFormed.deleted_of_traced (wellFormed : state.WellFormed)
    (ran : Traced (next params policy) state trace after) {user : UserId}
    (present : state.HasRow user) (absent : ¬after.HasRow user) : after.Deleted user := by
  induction ran with
  | start => exact absurd present absent
  | @step trace earlier after step before taken ih =>
    have effect := effect_of_run taken
    by_cases there : earlier.HasRow user
    · exact (wellFormed.traced before).deleted effect there absent
    · exact (ih there).effect effect

theorem WellFormed.deleted_of_finishedRuns (wellFormed : state.WellFormed)
    (idle : state.cleanup = none) (ran : Traced (next params policy) state trace after)
    {candidate : DeletionCandidate UserId} (present : state.HasRow candidate.userId)
    (stays : ∀ entry ∈ trace, entry.2.HasRow candidate.userId →
      entry.2.StaysCandidate policy candidate)
    (staysAfter : after.HasRow candidate.userId → after.StaysCandidate policy candidate)
    (enough : stepsHeldBack policy trace + state.ahead candidate <
      finishedRuns trace * params.batchLimit) : after.Deleted candidate.userId := by
  refine wellFormed.deleted_of_traced ran present fun left => ?_
  have throughout := @Traced.throughout _ _ _ _ _ _ ran (HasRow candidate.userId)
    (fun _ _ _ taken there => (effect_of_run taken).hasRow there) left
  have queued : state.Queued params candidate := by
    refine ⟨wellFormed.users, wellFormed.started, ?_, ?_⟩ <;> rw [idle] <;> nofun
  have account := (@Traced.account _ _ _ _ _ _ ran (StaysCandidate policy candidate)
    (Queued params candidate) (fun entry => finished entry * params.batchLimit) (heldBack policy)
    (fun state => state.taken params candidate + state.ahead candidate)
    (fun entry member => stays entry member (throughout entry member)) (staysAfter left) queued
    fun _ _ _ there later queued taken => queued.pays there later (effect_of_run taken)).2
  rw [List.sum_map_mul_right] at account
  have nothingTaken : state.taken params candidate = 0 := by simp [taken, idle]
  unfold stepsHeldBack finishedRuns at enough
  omega

theorem Effect.keepsRow {step : HostedStep UserId SessionId CapabilityId TokenId}
    (effect : Effect params policy state step after) (orderly : Orderly step state) {user : UserId}
    (changed : state.directory user ≠ .intact) :
    after.directory user ≠ .intact ∧
      ∀ row ∈ after.db.users, row.userId = user → row ∈ state.db.users := by
  cases effect with
  | waits | usesSession | endsSession | startsRun | endsRun | keepsBack =>
    exact ⟨changed, fun _ member _ => member⟩
  | @logsIn other _ _ _ db _ _ made =>
    refine ⟨changed, fun row member owner => ?_⟩
    rcases made with rfl | rfl | rfl
    · exact member
    · exact member
    · refine ((mem_recordLastLogin member).resolve_left fun same => changed ?_).2
      exact owner ▸ same.1 ▸ orderly
  | requests capability inside named =>
    refine ⟨changed, fun row member owner => ?_⟩
    refine ((mem_recordLastLogin member).resolve_left fun same => changed ?_).2
    exact owner ▸ same.1 ▸ orderly capability inside named
  | @storesToken _ _ snapshot =>
    cases snapshot <;> exact ⟨changed, fun _ member _ => member⟩
  | @cutsShort _ _ candidate _ _ directory _ _ there =>
    refine ⟨?_, fun _ member _ => member⟩
    by_cases same : user = candidate.userId
    · subst same
      simpa [setDirectory] using there
    · simpa [setDirectory, Function.update_of_ne same] using changed
  | @deletes _ _ candidate =>
    refine ⟨?_, fun _ member _ => (List.mem_filter.mp member).1⟩
    by_cases same : user = candidate.userId
    · subst same
      simp [deleteUser, setDirectory]
    · simpa [deleteUser, setDirectory, Function.update_of_ne same] using changed

theorem Consistent.staysCandidate (consistent : state.Consistent policy)
    (ran : Traced (next params policy) state trace after)
    (orderly : ∀ entry ∈ trace, Orderly entry.1 entry.2) {row : UserRow UserId}
    (member : row ∈ state.db.users) (changed : state.directory row.userId ≠ .intact)
    (left : after.HasRow row.userId) : after.StaysCandidate policy row.candidate := by
  have consistentAfter := consistent.traced ran orderly
  have kept : after.directory row.userId ≠ .intact ∧
      ∀ later ∈ after.db.users, later.userId = row.userId → later = row := by
    refine @Reached.invariant _ _ _ _ _ _ (ran.reached orderly) (fun state =>
      state.directory row.userId ≠ .intact ∧
        ∀ later ∈ state.db.users, later.userId = row.userId → later = row) ⟨changed, ?_⟩ ?_
    · intro later there owner
      exact List.inj_on_of_nodup_map consistent.users there member owner
    · rintro step state after ⟨changed, one⟩ orderly taken
      obtain ⟨stillChanged, same⟩ := (effect_of_run taken).keepsRow orderly changed
      exact ⟨stillChanged, fun later there owner => one later (same later there owner) owner⟩
  obtain ⟨later, there, owner⟩ := left
  obtain rfl := kept.2 later there owner
  obtain ⟨inactive, noSession⟩ := consistentAfter.underWay later there kept.1
  exact ⟨AppDb.isDeletionCandidateNow_of_inactive consistentAfter.users there inactive, noSession⟩

/-- A user without a log-in for long, and one whose subscription ended a while ago. -/
def lapsedUsers : HostedUsers ℕ ℕ ℕ ℕ ℕ where
  db := {
    users := [⟨1, 0, none⟩, ⟨2, 0, none⟩]
    authCredentials := [(1, 1), (2, 2)]
    passwordCredentials := [1, 2]
    appUserPreferences := [1]
    legalAcceptances := [1, 2]
    sessions := [⟨1, 1, 0, day, none⟩]
    snapshots := [⟨2, some 1, "basic", some (formatTimestamp (30 * day))⟩]
    clientCapabilities := [⟨1, 1, none, none, none⟩] }
  directory _ := .intact
  tokens := [(2, ⟨1, .basic, 30 * day⟩)]
  clock := 200 * day

/-- The first user's directory is removed, and the rows could not be deleted. -/
def cutShortUsers : HostedUsers ℕ ℕ ℕ ℕ ℕ :=
  lapsedUsers.setDirectory 1 .removed

theorem consistent_lapsedUsers : lapsedUsers.Consistent {} where
  users := by decide
  sessions := by decide
  linked := by decide
  covered := by decide +kernel
  started := le_rfl
  underWay _ _ changed := absurd rfl changed

def newUser : HostedUsers ℕ ℕ ℕ ℕ ℕ where
  db := {
    users := [⟨1, 0, none⟩]
    authCredentials := [(1, 1)]
    passwordCredentials := [1]
    appUserPreferences := []
    legalAcceptances := []
    sessions := []
    snapshots := []
    clientCapabilities := [] }
  directory _ := .intact
  tokens := []
  clock := 0

/-- Two candidates, of whom the first comes before the second in every run. -/
def blockedUsers : HostedUsers ℕ ℕ ℕ ℕ ℕ :=
  { lapsedUsers with
    tokens := []
    db := { lapsedUsers.db with snapshots := [] } }

def blockedRun : HostedUsers ℕ ℕ ℕ ℕ ℕ :=
  { blockedUsers with cleanup := some ⟨200 * day, [⟨1, 0⟩, ⟨2, 0⟩], {}⟩ }

theorem traced_blockedUsers (runs : ℕ) : ∃ trace,
    Traced (next {} {}) blockedUsers trace blockedUsers ∧
      trace.countP (fun entry => entry.1 = .startRun) = runs ∧
      ∀ entry ∈ trace, Orderly entry.1 entry.2 ∧ entry.2.StaysCandidate {} ⟨2, 0⟩ := by
  induction runs with
  | zero => exact ⟨[], .start, rfl, nofun⟩
  | succ runs ih =>
    obtain ⟨trace, ran, counted, stays⟩ := ih
    have started : next {} {} .startRun blockedUsers blockedRun := rfl
    have failed : next {} {} (.deleteNext (some (.removeUserDirectory false))) blockedRun
        blockedUsers := rfl
    refine ⟨_, (ran.step started).step failed, ?_, ?_⟩
    · simp [counted]
    · intro entry member
      simp only [List.append_assoc, List.mem_append, List.mem_singleton] at member
      rcases member with earlier | rfl | rfl
      · exact stays entry earlier
      · exact ⟨trivial, rfl, by decide⟩
      · exact ⟨trivial, rfl, by decide⟩

end HostedUsers

end Bitgarth.Auth
