import Bitgarth.Auth.InactiveCleanup
import Bitgarth.Foundation.Reachability

/-! # Stored sessions

The rows of browser sessions, with a log of what was done to them. A session is accepted before
the end that was written for it, within the idle timeout of its last use, and never once it was
removed, whatever the clock reads (`Lawful`).
-/

namespace Bitgarth.Auth

open Reachability

section Model

variable (UserId SessionId TokenHash : Type)

/-- A row of `sessions` with the hash of its token. -/
structure StoredSession extends SessionRow UserId SessionId where
  tokenHash : TokenHash
deriving DecidableEq

inductive SessionEvent where
  | created (session : StoredSession UserId SessionId TokenHash)
  | used (sessionId : SessionId) (now : ℤ)
  | removed (sessionId : SessionId)
deriving DecidableEq

/-- The rows, and what was done to them, newest first. -/
structure SessionTable where
  rows : List (StoredSession UserId SessionId TokenHash) := []
  log : List (SessionEvent UserId SessionId TokenHash) := []
deriving DecidableEq

inductive LookupOutcome where
  | active (session : StoredSession UserId SessionId TokenHash)
  | invalidated (session : StoredSession UserId SessionId TokenHash)
  | missing
deriving DecidableEq

end Model

section Operations

variable {UserId SessionId TokenHash : Type}

/-- The session that `create_session_with_duration` stores. -/
def newSession (userId : UserId) (sessionId : SessionId) (tokenHash : TokenHash)
    (durationMinutes : ℕ) (now : ℤ) : StoredSession UserId SessionId TokenHash where
  sessionId
  userId
  createdAt := now
  expiresAt := now + durationMinutes * 60 * second
  lastActivityAt := some now
  tokenHash

def SessionEvent.createdId : SessionEvent UserId SessionId TokenHash → Option SessionId
  | created session => some session.sessionId
  | _ => none

variable [DecidableEq UserId] [DecidableEq SessionId] [DecidableEq TokenHash]

/-- The last time a session was used. -/
def lastUse (sessionId : SessionId) : List (SessionEvent UserId SessionId TokenHash) → Option ℤ
  | [] => none
  | .used id now :: earlier => if id = sessionId then some now else lastUse sessionId earlier
  | _ :: earlier => lastUse sessionId earlier

namespace SessionTable

variable (table : SessionTable UserId SessionId TokenHash)

/-- A row of the user has the id, as `session_exists` asks. -/
def SessionExists (sessionId : SessionId) (userId : UserId) : Prop :=
  ∃ row ∈ table.rows, row.sessionId = sessionId ∧ row.userId = userId

instance (sessionId : SessionId) (userId : UserId) :
    Decidable (table.SessionExists sessionId userId) :=
  inferInstanceAs (Decidable (∃ row ∈ table.rows, _))

/-- An id is generated once, and the hash of a token is unique among the rows. -/
def insert (session : StoredSession UserId SessionId TokenHash) :
    Option (SessionTable UserId SessionId TokenHash) :=
  if session.sessionId ∉ table.log.filterMap SessionEvent.createdId ∧
      ∀ row ∈ table.rows, row.tokenHash ≠ session.tokenHash then
    some { rows := table.rows ++ [session], log := .created session :: table.log }
  else none

def touch (sessionId : SessionId) (now : ℤ) : SessionTable UserId SessionId TokenHash where
  rows := table.rows.map fun row =>
    if row.sessionId = sessionId then { row with lastActivityAt := some now } else row
  log := .used sessionId now :: table.log

def removeWhere (gone : StoredSession UserId SessionId TokenHash → Bool) :
    SessionTable UserId SessionId TokenHash where
  rows := table.rows.filter (!gone ·)
  log := (table.rows.filter gone).map (.removed ·.sessionId) ++ table.log

/-- `invalidate_session_with_conn`, with the rows it deletes. -/
def invalidateSession (sessionId : SessionId) :
    List (StoredSession UserId SessionId TokenHash) × SessionTable UserId SessionId TokenHash :=
  (table.rows.filter (·.sessionId = sessionId), table.removeWhere (·.sessionId = sessionId))

def getSessionByToken (policy : SessionTimeoutPolicy) (now : ℤ) (tokenHash : TokenHash) :
    LookupOutcome UserId SessionId TokenHash × SessionTable UserId SessionId TokenHash :=
  match table.rows.find? (·.tokenHash = tokenHash) with
  | none => (.missing, table)
  | some session =>
    if session.expiresAt ≤ now then
      (.invalidated session, (table.invalidateSession session.sessionId).2)
    else if session.lastActivityAt.getD session.createdAt + policy.idleTimeout ≤ now then
      (.invalidated session, (table.invalidateSession session.sessionId).2)
    else
      (.active session, table.touch session.sessionId now)

/-- The session of a token is deleted by its id. -/
def deleteSession (tokenHash : TokenHash) :
    List (StoredSession UserId SessionId TokenHash) × SessionTable UserId SessionId TokenHash :=
  match table.rows.find? (·.tokenHash = tokenHash) with
  | none => ([], table)
  | some session => table.invalidateSession session.sessionId

def deleteExpiredSessionsBefore (policy : SessionTimeoutPolicy) (now : ℤ) :
    List (StoredSession UserId SessionId TokenHash) × SessionTable UserId SessionId TokenHash :=
  (table.rows.filter fun row => ¬row.Live policy now,
    table.removeWhere fun row => ¬row.Live policy now)

end SessionTable

/-- Every use in a log, newest first, is of a session created before and not removed since, ahead
of its end and within the idle timeout of its use before. -/
def Lawful (policy : SessionTimeoutPolicy) :
    List (SessionEvent UserId SessionId TokenHash) → Prop
  | [] => True
  | .created session :: earlier =>
    session.sessionId ∉ earlier.filterMap SessionEvent.createdId ∧ Lawful policy earlier
  | .used sessionId now :: earlier =>
    (∃ session, .created session ∈ earlier ∧ session.sessionId = sessionId ∧
      now < session.expiresAt ∧
      now < (lastUse sessionId earlier).getD session.createdAt + policy.idleTimeout) ∧
    .removed sessionId ∉ earlier ∧ Lawful policy earlier
  | .removed sessionId :: earlier =>
    sessionId ∈ earlier.filterMap SessionEvent.createdId ∧ Lawful policy earlier

end Operations

section Records

variable {UserId SessionId TokenHash : Type} [DecidableEq SessionId]
  {policy : SessionTimeoutPolicy} {log : List (SessionEvent UserId SessionId TokenHash)}
  {sessionId : SessionId} {session : StoredSession UserId SessionId TokenHash}

omit [DecidableEq SessionId] in
theorem mem_createdIds_of_mem (member : .created session ∈ log) :
    session.sessionId ∈ log.filterMap SessionEvent.createdId :=
  List.mem_filterMap.mpr ⟨_, member, rfl⟩

theorem Lawful.mem_of_removed (lawful : Lawful policy log) (removed : .removed sessionId ∈ log) :
    sessionId ∈ log.filterMap SessionEvent.createdId := by
  induction log with
  | nil => cases removed
  | cons event earlier ih =>
    cases event with
    | created other =>
      rcases List.mem_cons.mp removed with same | older
      · cases same
      · exact .tail _ (ih lawful.2 older)
    | used other now =>
      rcases List.mem_cons.mp removed with same | older
      · cases same
      · exact ih lawful.2.2 older
    | removed other =>
      rcases List.mem_cons.mp removed with same | older
      · cases same
        exact lawful.1
      · exact ih lawful.2 older

theorem Lawful.lastUse_eq_none (lawful : Lawful policy log)
    (fresh : sessionId ∉ log.filterMap SessionEvent.createdId) : lastUse sessionId log = none := by
  induction log with
  | nil => rfl
  | cons event earlier ih =>
    cases event with
    | created other => exact ih lawful.2 fun member => fresh (.tail _ member)
    | used other now =>
      obtain ⟨⟨session, created, isSession, -⟩, -, older⟩ := lawful
      have isCreated := mem_createdIds_of_mem created
      have different : other ≠ sessionId := by
        rintro rfl
        exact fresh (isSession ▸ isCreated)
      rw [lastUse, if_neg different]
      exact ih older fresh
    | removed other => exact ih lawful.2 fresh

theorem lawful_append_removed {removed : List SessionId} (lawful : Lawful policy log)
    (created : ∀ sessionId ∈ removed, sessionId ∈ log.filterMap SessionEvent.createdId) :
    Lawful policy (removed.map SessionEvent.removed ++ log) ∧
      (removed.map SessionEvent.removed ++ log).filterMap SessionEvent.createdId =
        log.filterMap SessionEvent.createdId ∧
      ∀ sessionId, lastUse sessionId (removed.map SessionEvent.removed ++ log) =
        lastUse sessionId log := by
  induction removed with
  | nil => exact ⟨lawful, rfl, fun _ => rfl⟩
  | cons first rest ih =>
    obtain ⟨restLawful, sameIds, sameUses⟩ := ih fun id member => created id (.tail _ member)
    refine ⟨⟨?_, restLawful⟩, sameIds, sameUses⟩
    have isCreated := created first List.mem_cons_self
    rwa [← sameIds] at isCreated

/-- The rows are the sessions that were created and not removed, with their last use. -/
structure SessionTable.Recorded (policy : SessionTimeoutPolicy)
    (table : SessionTable UserId SessionId TokenHash) : Prop where
  lawful : Lawful policy table.log
  distinct : (table.rows.map (·.sessionId)).Nodup
  created : ∀ row ∈ table.rows, ∃ session, .created session ∈ table.log ∧
    session.sessionId = row.sessionId ∧ session.expiresAt = row.expiresAt ∧
    row.lastActivityAt.getD row.createdAt =
      (lastUse row.sessionId table.log).getD session.createdAt
  kept : ∀ row ∈ table.rows, .removed row.sessionId ∉ table.log

namespace SessionTable.Recorded

variable {table after : SessionTable UserId SessionId TokenHash}

theorem mem_createdIds (recorded : table.Recorded policy)
    {row : StoredSession UserId SessionId TokenHash} (member : row ∈ table.rows) :
    row.sessionId ∈ table.log.filterMap SessionEvent.createdId := by
  obtain ⟨session, created, isSession, -⟩ := recorded.created row member
  rw [← isSession]
  exact mem_createdIds_of_mem created

theorem insert [DecidableEq TokenHash] (recorded : table.Recorded policy)
    (inserted : table.insert session = some after)
    (begins : session.lastActivityAt.getD session.createdAt = session.createdAt) :
    after.Recorded policy := by
  obtain ⟨⟨fresh, -⟩, rfl⟩ := Option.ite_some_none_eq_some.mp inserted
  refine ⟨⟨fresh, recorded.lawful⟩, ?_, ?_, ?_⟩
  · rw [List.map_append, List.nodup_append]
    refine ⟨recorded.distinct, List.nodup_singleton _, ?_⟩
    intro id isId other isOther same
    obtain ⟨row, member, rfl⟩ := List.mem_map.mp isId
    rw [List.map_singleton, List.mem_singleton] at isOther
    rw [← isOther, ← same] at fresh
    exact fresh (recorded.mem_createdIds member)
  · intro row member
    rcases List.mem_append.mp member with isOld | isNew
    · obtain ⟨first, created, others⟩ := recorded.created row isOld
      exact ⟨first, .tail _ created, others⟩
    · rw [List.mem_singleton.mp isNew]
      refine ⟨session, List.mem_cons_self, rfl, rfl, ?_⟩
      rw [lastUse, recorded.lawful.lastUse_eq_none fresh]
      · exact begins
      · rintro id now ⟨⟩
  · intro row member removed
    rcases List.mem_cons.mp removed with same | older
    · cases same
    rcases List.mem_append.mp member with isOld | isNew
    · exact recorded.kept row isOld older
    · rw [List.mem_singleton.mp isNew] at older
      exact fresh (recorded.lawful.mem_of_removed older)

theorem touch (recorded : table.Recorded policy) {now : ℤ}
    {row : StoredSession UserId SessionId TokenHash} (member : row ∈ table.rows)
    (live : row.Live policy now) : (table.touch row.sessionId now).Recorded policy := by
  obtain ⟨session, created, isSession, sameEnd, sameUse⟩ := recorded.created row member
  refine ⟨⟨⟨session, created, isSession, ?_, ?_⟩, recorded.kept row member, recorded.lawful⟩,
    ?_, ?_, ?_⟩
  · rw [sameEnd]
    exact live.1
  · rw [← sameUse]
    exact Int.sub_lt_iff.mp live.2
  · have sameIds : (table.touch row.sessionId now).rows.map (·.sessionId) =
        table.rows.map (·.sessionId) := by
      rw [SessionTable.touch, List.map_map]
      refine List.map_congr_left fun other _ => ?_
      dsimp only [Function.comp]
      split <;> rfl
    rw [sameIds]
    exact recorded.distinct
  · intro other isOther
    obtain ⟨old, isOld, rfl⟩ := List.mem_map.mp isOther
    obtain ⟨first, isFirst, sameId, sameEnd, sameUse⟩ := recorded.created old isOld
    refine ⟨first, .tail _ isFirst, ?_, ?_, ?_⟩
    · split <;> exact sameId
    · split <;> exact sameEnd
    · split <;> rename_i same
      · simp only [SessionTable.touch, lastUse, same, if_true, Option.getD_some]
      · simp only [SessionTable.touch, lastUse, Ne.symm same, if_false]
        exact sameUse
  · intro other isOther removed
    obtain ⟨old, isOld, rfl⟩ := List.mem_map.mp isOther
    rcases List.mem_cons.mp removed with same | older
    · cases same
    · refine recorded.kept old isOld ?_
      split at older <;> exact older

theorem removeWhere (recorded : table.Recorded policy)
    (gone : StoredSession UserId SessionId TokenHash → Bool) :
    (table.removeWhere gone).Recorded policy := by
  have logged : (table.removeWhere gone).log =
      ((table.rows.filter gone).map (·.sessionId)).map .removed ++ table.log := by
    rw [List.map_map]
    rfl
  obtain ⟨lawful, -, sameUses⟩ := @lawful_append_removed _ _ _ _ policy table.log
    ((table.rows.filter gone).map (·.sessionId)) recorded.lawful (by
      intro id isId
      obtain ⟨row, member, rfl⟩ := List.mem_map.mp isId
      exact recorded.mem_createdIds (List.mem_filter.mp member).1)
  refine ⟨logged ▸ lawful, recorded.distinct.sublist (List.filter_sublist.map _), ?_, ?_⟩
  · intro row member
    obtain ⟨first, isFirst, others⟩ := recorded.created row (List.mem_filter.mp member).1
    rw [logged, sameUses]
    exact ⟨first, List.mem_append_right _ isFirst, others⟩
  · intro row member removed
    obtain ⟨stored, stays⟩ := List.mem_filter.mp member
    rw [logged] at removed
    rcases List.mem_append.mp removed with isGone | older
    · obtain ⟨id, isId, same⟩ := List.mem_map.mp isGone
      obtain ⟨other, isOther, rfl⟩ := List.mem_map.mp isId
      obtain ⟨isStored, goes⟩ := List.mem_filter.mp isOther
      have sameRow : other = row := List.inj_on_of_nodup_map recorded.distinct isStored stored
        (SessionEvent.removed.inj same)
      rw [sameRow] at goes
      rw [goes] at stays
      exact Bool.false_ne_true stays
    · exact recorded.kept row stored older

end SessionTable.Recorded

/-! ## What a lookup does -/

variable [DecidableEq TokenHash] {table : SessionTable UserId SessionId TokenHash} {now : ℤ}
  {tokenHash : TokenHash}

/-- A lookup accepts the live session of the token and uses it, and removes another. -/
theorem getSessionByToken_cases (policy : SessionTimeoutPolicy) (now : ℤ) (tokenHash : TokenHash)
    (table : SessionTable UserId SessionId TokenHash) :
    table.getSessionByToken policy now tokenHash = (.missing, table) ∨
    ∃ row ∈ table.rows, row.tokenHash = tokenHash ∧
      (row.Live policy now ∧ table.getSessionByToken policy now tokenHash =
          (.active row, table.touch row.sessionId now) ∨
        ¬row.Live policy now ∧ table.getSessionByToken policy now tokenHash =
          (.invalidated row, table.removeWhere (·.sessionId = row.sessionId))) := by
  unfold SessionTable.getSessionByToken
  split
  · exact .inl rfl
  · rename_i row found
    refine .inr ⟨row, List.mem_of_find?_eq_some found,
      by simpa using List.find?_some found, ?_⟩
    by_cases ended : row.expiresAt ≤ now
    · rw [if_pos ended]
      exact .inr ⟨fun live => ended.not_gt live.1, rfl⟩
    · rw [if_neg ended]
      by_cases idle : row.lastActivityAt.getD row.createdAt + policy.idleTimeout ≤ now
      · rw [if_pos idle]
        exact .inr ⟨fun live => idle.not_gt (Int.sub_lt_iff.mp live.2), rfl⟩
      · rw [if_neg idle]
        exact .inl ⟨⟨not_le.mp ended, Int.sub_lt_iff.mpr (not_le.mp idle)⟩, rfl⟩

theorem deleteSession_cases (tokenHash : TokenHash)
    (table : SessionTable UserId SessionId TokenHash) :
    table.deleteSession tokenHash = ([], table) ∨
    ∃ row ∈ table.rows, row.tokenHash = tokenHash ∧ table.deleteSession tokenHash =
      table.invalidateSession row.sessionId := by
  unfold SessionTable.deleteSession
  split
  · exact .inl rfl
  · rename_i row found
    exact .inr ⟨row, List.mem_of_find?_eq_some found,
      by simpa using List.find?_some found, rfl⟩

end Records

/-! ## Runs -/

section Runs

variable (UserId SessionId TokenHash : Type)

inductive SessionStep where
  | create (userId : UserId) (sessionId : SessionId) (tokenHash : TokenHash) (minutes : ℕ) (now : ℤ)
  | lookup (tokenHash : TokenHash) (now : ℤ)
  | invalidate (sessionId : SessionId)
  | logOut (tokenHash : TokenHash)
  | expire (now : ℤ)
  | deleteUser (userId : UserId)
deriving DecidableEq

variable {UserId SessionId TokenHash} [DecidableEq UserId] [DecidableEq SessionId]
  [DecidableEq TokenHash] {policy : SessionTimeoutPolicy}
  {table after : SessionTable UserId SessionId TokenHash}
  {step : SessionStep UserId SessionId TokenHash}

def SessionTable.run (policy : SessionTimeoutPolicy)
    (table : SessionTable UserId SessionId TokenHash) :
    SessionStep UserId SessionId TokenHash → Option (SessionTable UserId SessionId TokenHash)
  | .create userId sessionId tokenHash minutes now =>
    table.insert (newSession userId sessionId tokenHash minutes now)
  | .lookup tokenHash now => some (table.getSessionByToken policy now tokenHash).2
  | .invalidate sessionId => some (table.invalidateSession sessionId).2
  | .logOut tokenHash => some (table.deleteSession tokenHash).2
  | .expire now => some (table.deleteExpiredSessionsBefore policy now).2
  | .deleteUser userId => some (table.removeWhere (·.userId = userId))

/-- Each operation is logged as it changes the rows. -/
theorem SessionTable.Recorded.run (recorded : table.Recorded policy)
    (taken : table.run policy step = some after) : after.Recorded policy := by
  cases step with
  | create userId sessionId tokenHash minutes now => exact recorded.insert taken rfl
  | lookup tokenHash now =>
    cases taken
    rcases getSessionByToken_cases policy now tokenHash table with
      missing | ⟨row, member, -, ⟨live, active⟩ | ⟨-, invalidated⟩⟩
    · rw [missing]
      exact recorded
    · rw [active]
      exact recorded.touch member live
    · rw [invalidated]
      exact recorded.removeWhere _
  | invalidate sessionId =>
    cases taken
    exact recorded.removeWhere _
  | logOut tokenHash =>
    cases taken
    rcases deleteSession_cases tokenHash table with none | ⟨row, -, -, deleted⟩
    · rw [none]
      exact recorded
    · rw [deleted]
      exact recorded.removeWhere _
  | expire now =>
    cases taken
    exact recorded.removeWhere _
  | deleteUser userId =>
    cases taken
    exact recorded.removeWhere _

/-- **A session is accepted** only before its end, within the idle timeout of its last use and
never after its removal, in every run and whatever the clock reads. -/
theorem lawful_of_reached
    (reached : Reached (fun step table after => table.run policy step = some after)
      (fun _ _ => True) ({} : SessionTable UserId SessionId TokenHash) table) :
    Lawful policy table.log := by
  have recorded : table.Recorded policy := by
    refine @Reached.invariant _ _ _ _ _ _ reached (SessionTable.Recorded policy) ?_ ?_
    · exact ⟨trivial, .nil, fun row member => absurd member List.not_mem_nil,
        fun row member => absurd member List.not_mem_nil⟩
    · exact fun step before after recorded _ taken => recorded.run taken
  exact recorded.lawful

end Runs

/-- A session is used twice, refused an hour after its last use, and not found again although
the clock was set back. -/
def refusedWhenIdle : List (SessionStep ℕ ℕ ℕ) :=
  [.create 1 5 7 1440 0, .lookup 7 second, .lookup 7 (2 * second), .lookup 7 (3602 * second),
    .lookup 7 (3 * second)]

theorem lawful_of_reached_refusedWhenIdle :
    Lawful {} ([.removed 5, .used 5 (2 * second), .used 5 second,
      .created (newSession 1 5 7 1440 0)] : List (SessionEvent ℕ ℕ ℕ)) := by
  have ran : refusedWhenIdle.foldlM (SessionTable.run {}) {} = some { log :=
      [.removed 5, .used 5 (2 * second), .used 5 second, .created (newSession 1 5 7 1440 0)] } := by
    decide +kernel
  exact lawful_of_reached (Reached.foldlM refusedWhenIdle .start (fun _ _ _ => trivial) ran)

end Bitgarth.Auth
