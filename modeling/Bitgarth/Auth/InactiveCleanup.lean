import Bitgarth.Foundation.RowSelection
import Mathlib.Data.Prod.Lex

/-! # The cleanup of inactive users

The job that deletes the directories and the rows of users who have not logged in for long, with
what it reads: the last log-in, the sessions, and the snapshots of the entitlements that the
payment code records in the shared database beside the tokens it stores in the user's own. Times
are nanoseconds.
-/

namespace Bitgarth.Auth

def second : ℤ := 1000000000

def day : ℤ := 86400 * second

def inactiveDays : ℤ := 180

def paidGraceDays : ℤ := 365

def defaultBatchLimit : ℕ := 100

structure InactiveUserCleanupParams where
  batchLimit : ℕ := defaultBatchLimit

structure InactiveUserCleanupSummary where
  deletedUsers : ℕ := 0
  skippedAfterRecheck : ℕ := 0
deriving DecidableEq, Repr

structure SessionTimeoutPolicy where
  idleTimeout : ℤ := 60 * 60 * second
  absoluteTimeout : ℤ := 1440 * 60 * second

inductive EntitlementTier where
  | free
  | basic
  | premium
  | unknown (value : String)
deriving DecidableEq, Repr

def EntitlementTier.asStr : EntitlementTier → String
  | free => "free"
  | basic => "basic"
  | premium => "premium"
  | unknown value => value

section Model

variable (UserId CredentialId SessionId CapabilityId TokenId : Type)

structure UserRow where
  userId : UserId
  createdAt : ℤ
  lastLoginAt : Option ℤ
deriving DecidableEq

structure SessionRow where
  sessionId : SessionId
  userId : UserId
  createdAt : ℤ
  expiresAt : ℤ
  lastActivityAt : Option ℤ
deriving DecidableEq

/-- The end of the subscription is kept in whole seconds. -/
structure SnapshotRow where
  userId : UserId
  tokenId : Option TokenId
  entitlementTier : String
  subscriptionValidUntil : Option ℤ
deriving DecidableEq

structure CapabilityRow where
  capabilityId : CapabilityId
  userId : UserId
  expiresAt : Option ℤ
  lastUsedAt : Option ℤ
  revokedAt : Option ℤ
deriving DecidableEq

/-- The tables of the shared database with rows of users. -/
structure AppDb where
  users : List (UserRow UserId)
  authCredentials : List (CredentialId × UserId)
  passwordCredentials : List CredentialId
  appUserPreferences : List UserId
  legalAcceptances : List UserId
  sessions : List (SessionRow UserId SessionId)
  snapshots : List (SnapshotRow UserId TokenId)
  clientCapabilities : List (CapabilityRow UserId CapabilityId)
deriving DecidableEq

/-- The claims of a verified token. -/
structure VerifiedToken where
  tokenId : TokenId
  tier : EntitlementTier
  subscriptionValidUntil : ℤ
deriving DecidableEq

/-- A removal that fails may have removed a part. -/
inductive UserDirectory where
  | intact
  | damaged
  | removed
deriving DecidableEq

structure DeletionCandidate where
  userId : UserId
  activityAt : ℤ
deriving DecidableEq

/-- A run of the job, with the time it was started at. -/
structure Cleanup where
  now : ℤ
  candidates : List (DeletionCandidate UserId)
  summary : InactiveUserCleanupSummary := {}

structure HostedUsers where
  db : AppDb UserId CredentialId SessionId CapabilityId TokenId
  directory : UserId → UserDirectory
  /-- The verified tokens in the users' own databases. -/
  tokens : List (UserId × VerifiedToken TokenId)
  clock : ℤ
  cleanup : Option (Cleanup UserId) := none

/-- Where the deletion of a user fails or the process stops. -/
inductive DeletionFailure where
  | lifecycleLock
  | recheck
  | liveSession
  | clearBrowserSessions
  | closeUserDb
  | removeUserDirectory (partly : Bool)
  | deleteAppDbRows
deriving DecidableEq

inductive HostedStep where
  | wait (elapsed : ℕ)
  /-- `recorded` is whether the log-in could be written, and `dropped` whether the session could
  be deleted where it could not. -/
  | login (user : UserId) (session : SessionId) (recorded dropped : Bool)
  | clientKeyRequest (capability : CapabilityId)
  | useSession (session : SessionId)
  | endSession (session : SessionId)
  /-- `snapshot` is whether the snapshot is recorded too. -/
  | storeToken (user : UserId) (token : VerifiedToken TokenId) (snapshot : Bool)
  | startRun
  | deleteNext (failure : Option DeletionFailure)
  | finishRun
  | stopProcess
deriving DecidableEq

end Model

section Rows

variable {UserId CredentialId SessionId CapabilityId TokenId : Type} [LinearOrder UserId]
  [DecidableEq CredentialId] [DecidableEq SessionId] [DecidableEq CapabilityId]
  [DecidableEq TokenId]

def UserRow.activityAt (row : UserRow UserId) : ℤ :=
  row.lastLoginAt.getD row.createdAt

def UserRow.candidate (row : UserRow UserId) : DeletionCandidate UserId :=
  ⟨row.userId, row.activityAt⟩

/-- The order of the candidates. -/
def DeletionCandidate.position (candidate : DeletionCandidate UserId) : ℤ ×ₗ UserId :=
  toLex (candidate.activityAt, candidate.userId)

/-- `expires_at` and the last activity as `list_users_with_unexpired_sessions_at` compares them. -/
def SessionRow.Live (row : SessionRow UserId SessionId) (policy : SessionTimeoutPolicy)
    (now : ℤ) : Prop :=
  now < row.expiresAt ∧ now - policy.idleTimeout < row.lastActivityAt.getD row.createdAt
deriving Decidable

def formatTimestamp (time : ℤ) : ℤ :=
  time / second

/-- The end is a text without a fraction that ends in `Z`, which sorts after the `.` or the `+`
of the cutoff's text, so that the seconds alone decide. -/
def SnapshotRow.protects (row : SnapshotRow UserId TokenId) (paidGraceCutoff : ℤ) : Bool :=
  row.entitlementTier ≠ "free" &&
    match row.subscriptionValidUntil with
    | none => true
    | some validUntil => paidGraceCutoff / second ≤ validUntil

def CapabilityRow.Active (row : CapabilityRow UserId CapabilityId) (now : ℤ) : Prop :=
  row.revokedAt = none ∧ ∀ expiresAt ∈ row.expiresAt, now < expiresAt

instance (row : CapabilityRow UserId CapabilityId) (now : ℤ) : Decidable (row.Active now) :=
  inferInstanceAs (Decidable (_ ∧ _))

namespace AppDb

variable (db : AppDb UserId CredentialId SessionId CapabilityId TokenId)

/-- What both queries for candidates ask of a user. -/
def Inactive (row : UserRow UserId) (now : ℤ) : Prop :=
  row.activityAt < now - inactiveDays * day ∧
    ¬∃ snapshot ∈ db.snapshots, snapshot.userId = row.userId ∧
      snapshot.protects (now - paidGraceDays * day)

instance (row : UserRow UserId) (now : ℤ) : Decidable (db.Inactive row now) :=
  inferInstanceAs (Decidable (_ ∧ _))

def isDeletionCandidateNow (user : UserId) (now : ℤ) : Option (DeletionCandidate UserId) :=
  (db.users.find? fun row => row.userId = user ∧ db.Inactive row now).map (·.candidate)

def listDeletionCandidates (now : ℤ) (batchLimit : ℕ) : List (DeletionCandidate UserId) :=
  (((db.users.filter (db.Inactive · now)).map (·.candidate)).insertionSort
    fun left right => left.position ≤ right.position).take batchLimit

def UserHasLiveSession (policy : SessionTimeoutPolicy) (user : UserId) (now : ℤ) : Prop :=
  ∃ session ∈ db.sessions, session.userId = user ∧ session.Live policy now

instance (policy : SessionTimeoutPolicy) (user : UserId) (now : ℤ) :
    Decidable (db.UserHasLiveSession policy user now) :=
  inferInstanceAs (Decidable (∃ session ∈ db.sessions, _))

/-- The rows of `client_capabilities` go with the row of the user they refer to. -/
def deleteAppDbRows (user : UserId) : AppDb UserId CredentialId SessionId CapabilityId TokenId where
  users := db.users.filter (·.userId ≠ user)
  authCredentials := db.authCredentials.filter (·.2 ≠ user)
  passwordCredentials := db.passwordCredentials.filter fun credential =>
    (credential, user) ∉ db.authCredentials
  appUserPreferences := db.appUserPreferences.filter (· ≠ user)
  legalAcceptances := db.legalAcceptances.filter (· ≠ user)
  sessions := db.sessions.filter (·.userId ≠ user)
  snapshots := db.snapshots.filter (·.userId ≠ user)
  clientCapabilities := db.clientCapabilities.filter (·.userId ≠ user)

def recordLastLogin (user : UserId) (now : ℤ) :
    AppDb UserId CredentialId SessionId CapabilityId TokenId :=
  { db with
    users := db.users.map fun row =>
      if row.userId = user then { row with lastLoginAt := some now } else row }

def createSession (policy : SessionTimeoutPolicy) (user : UserId) (session : SessionId) (now : ℤ) :
    AppDb UserId CredentialId SessionId CapabilityId TokenId :=
  { db with
    sessions := ⟨session, user, now, now + policy.absoluteTimeout, some now⟩ :: db.sessions }

def useSession (session : SessionId) (now : ℤ) :
    AppDb UserId CredentialId SessionId CapabilityId TokenId :=
  { db with
    sessions := db.sessions.map fun row =>
      if row.sessionId = session then { row with lastActivityAt := some now } else row }

def recordClientCapabilityActivity (capability : CapabilityId) (user : UserId) (now : ℤ) :
    AppDb UserId CredentialId SessionId CapabilityId TokenId :=
  { db.recordLastLogin user now with
    clientCapabilities := db.clientCapabilities.map fun row =>
      if row.capabilityId = capability then { row with lastUsedAt := some now } else row }

/-- A token has one row, which may have been another user's. -/
def recordVerifiedAppEntitlementSnapshot (user : UserId) (token : VerifiedToken TokenId) :
    AppDb UserId CredentialId SessionId CapabilityId TokenId :=
  let row : SnapshotRow UserId TokenId := ⟨user, some token.tokenId, token.tier.asStr,
    some (formatTimestamp token.subscriptionValidUntil)⟩
  { db with
    snapshots :=
      if ∃ existing ∈ db.snapshots, existing.tokenId = some token.tokenId then
        db.snapshots.map fun existing =>
          if existing.tokenId = some token.tokenId then row else existing
      else row :: db.snapshots }

end AppDb

end Rows

section Steps

variable {UserId CredentialId SessionId CapabilityId TokenId : Type} [LinearOrder UserId]
  [DecidableEq CredentialId] [DecidableEq SessionId] [DecidableEq CapabilityId]
  [DecidableEq TokenId]

namespace HostedUsers

variable (params : InactiveUserCleanupParams) (policy : SessionTimeoutPolicy)
  (state : HostedUsers UserId CredentialId SessionId CapabilityId TokenId)

def setDirectory (user : UserId) (directory : UserDirectory) :
    HostedUsers UserId CredentialId SessionId CapabilityId TokenId :=
  { state with
    directory := Function.update state.directory user directory
    tokens := if directory = .removed then state.tokens.filter (·.1 ≠ user) else state.tokens }

/-- The user's lifecycle lock is held from the first step to the last, so that no log-in and no
request of the user comes between two of them. -/
def deleteCandidateUser (candidate : DeletionCandidate UserId) (now : ℤ)
    (failure : Option DeletionFailure) :
    HostedUsers UserId CredentialId SessionId CapabilityId TokenId ×
      Except DeletionFailure (Option (DeletionCandidate UserId)) :=
  if failure = some .lifecycleLock then (state, .error .lifecycleLock)
  else if failure = some .recheck then (state, .error .recheck)
  else
    match state.db.isDeletionCandidateNow candidate.userId now with
    | none => (state, .ok none)
    | some rechecked =>
      if failure = some .liveSession then (state, .error .liveSession)
      else if state.db.UserHasLiveSession policy candidate.userId now then (state, .ok none)
      else
        match failure with
        | none =>
          let removed := state.setDirectory candidate.userId .removed
          ({ removed with db := removed.db.deleteAppDbRows candidate.userId },
            .ok (some rechecked))
        | some (.removeUserDirectory true) =>
          (state.setDirectory candidate.userId
            (if state.directory candidate.userId = .removed then .removed else .damaged),
            .error (.removeUserDirectory true))
        | some .deleteAppDbRows =>
          (state.setDirectory candidate.userId .removed, .error .deleteAppDbRows)
        | some failure => (state, .error failure)

/-- What a step does where it can be taken. Log-ins and client-key requests read the envelope in
the user's directory first. -/
def run : HostedStep UserId SessionId CapabilityId TokenId →
    Option (HostedUsers UserId CredentialId SessionId CapabilityId TokenId)
  | .wait elapsed => some { state with clock := state.clock + elapsed }
  | .login user session recorded dropped =>
    if (∃ row ∈ state.db.users, row.userId = user) ∧
        (∃ credential ∈ state.db.authCredentials,
          credential.2 = user ∧ credential.1 ∈ state.db.passwordCredentials) ∧
        state.directory user ≠ .removed ∧ ∀ row ∈ state.db.sessions, row.sessionId ≠ session then
      let created := state.db.createSession policy user session state.clock
      some { state with
        db :=
          if recorded then created.recordLastLogin user state.clock
          else if dropped then state.db
          else created }
    else none
  | .clientKeyRequest capability =>
    match state.db.clientCapabilities.find? (·.capabilityId = capability) with
    | none => none
    | some row =>
      if row.Active state.clock ∧ state.directory row.userId ≠ .removed then
        some { state with
          db := state.db.recordClientCapabilityActivity capability row.userId state.clock }
      else none
  | .useSession session =>
    if ∃ row ∈ state.db.sessions, row.sessionId = session ∧ row.Live policy state.clock then
      some { state with db := state.db.useSession session state.clock }
    else none
  | .endSession session =>
    some { state with
      db := { state.db with sessions := state.db.sessions.filter (·.sessionId ≠ session) } }
  | .storeToken user token snapshot =>
    if state.directory user ≠ .removed then
      some { state with
        tokens := (user, token) :: state.tokens
        db :=
          if snapshot then state.db.recordVerifiedAppEntitlementSnapshot user token
          else state.db }
    else none
  | .startRun =>
    match state.cleanup with
    | some _ => none
    | none =>
      some { state with
        cleanup := some {
          now := state.clock
          candidates := state.db.listDeletionCandidates state.clock params.batchLimit } }
  | .deleteNext failure =>
    match state.cleanup with
    | some ⟨now, candidate :: rest, summary⟩ =>
      match state.deleteCandidateUser policy candidate now failure with
      | (after, .error _) => some { after with cleanup := none }
      | (after, .ok (some _)) =>
        some { after with
          cleanup := some ⟨now, rest,
            { summary with deletedUsers := summary.deletedUsers + 1 }⟩ }
      | (after, .ok none) =>
        some { after with
          cleanup := some ⟨now, rest,
            { summary with skippedAfterRecheck := summary.skippedAfterRecheck + 1 }⟩ }
    | _ => none
  | .finishRun =>
    match state.cleanup with
    | some ⟨_, [], _⟩ => some { state with cleanup := none }
    | _ => none
  | .stopProcess => some { state with cleanup := none }

end HostedUsers

end Steps

end Bitgarth.Auth
