import Mathlib.Data.Finset.Image
import Mathlib.Data.Vector.Basic
import Bitgarth.Foundation.KeyedTable
import Bitgarth.Foundation.SlidingWindow

/-! # The pairing store

A client starts a pairing with a key verifier, a user reviews and approves or denies it by its
display code, and the client claims it with the verifier. Pairings that nobody claims expire.
Instants are in nanoseconds.
-/

namespace Bitgarth.Auth

open KeyedTable

def nanosPerSecond : ℤ := 1000000000
def pairingLifetime : ℤ := 10 * 60 * nanosPerSecond
def sourceWindow : ℤ := 10 * 60 * nanosPerSecond
def globalWindow : ℤ := 60 * nanosPerSecond
def maxPendingPairings : ℕ := 1024
def maxSourceStarts : ℕ := 10
def maxGlobalStarts : ℕ := 300

/-! ## Codes -/

def codeAlphabet : List Char := "0123456789ABCDEFGHJKMNPQRSTVWXYZ".toList

def encodeCode (bytes : List.Vector UInt8 8) : String :=
  String.ofList (bytes.toList.map fun byte => codeAlphabet.getD (byte &&& 31).toNat '0')

def formatCode (code : String) : String :=
  String.ofList (code.toList.take 4) ++ "-" ++ String.ofList (code.toList.drop 4)

/-- `parse_display_code`. The source counts bytes; all characters that it accepts have one. -/
def parseDisplayCode (value : String) : Option String :=
  let chars := value.toList
  if chars.length ≠ 9 ∨ chars[4]? ≠ some '-' then none
  else
    let code := chars.take 4 ++ chars.drop 5
    if code.length = 8 ∧ code.all fun char => char ∈ codeAlphabet then some (String.ofList code)
    else none

theorem encodeCode_ne_empty (bytes : List.Vector UInt8 8) : encodeCode bytes ≠ "" := by
  intro empty
  have length := congrArg (fun code : String => code.toList.length) empty
  simp [encodeCode, bytes.toList_length] at length

theorem parseDisplayCode_ne_empty {value code : String}
    (parsed : parseDisplayCode value = some code) : code ≠ "" := by
  rintro rfl
  simp only [parseDisplayCode] at parsed
  split at parsed
  · cases parsed
  · split at parsed
    · rename_i sized
      have empty := congrArg String.toList (Option.some.inj parsed)
      rw [String.toList_ofList] at empty
      rw [empty] at sized
      exact absurd sized.1 (by decide)
    · cases parsed

/-! ## Entries -/

inductive ClientPermission where
  | balancesRead
deriving DecidableEq, Repr

def ClientPermission.asStr : ClientPermission → String
  | balancesRead => "balances_read"

structure ValidatedPairingStart (Verifier : Type) where
  clientName : String
  keyVerifier : Verifier
  permission : ClientPermission
deriving DecidableEq, Repr

/-- The request lease that an approved pairing holds is left out. -/
structure ApprovedPairing (UserId Dek : Type) where
  userId : UserId
  dek : Option Dek
  activeExpiresAt : Option ℤ
deriving DecidableEq, Repr

structure ApprovedPairingBinding (UserId Dek : Type) where
  userId : UserId
  dek : Option Dek
deriving DecidableEq, Repr

structure ApprovedPairingClaim (CapabilityId UserId Dek : Type) where
  capabilityId : CapabilityId
  userId : UserId
  dek : Option Dek
  clientName : String
  permission : ClientPermission
  activeExpiresAt : Option ℤ
deriving DecidableEq, Repr

structure ClaimedPairing (UserId : Type) where
  userId : UserId
  permission : ClientPermission
deriving DecidableEq, Repr

inductive PairingStatus (UserId Dek : Type) where
  | awaitingApproval
  | approved (approval : ApprovedPairing UserId Dek)
  | denied
  | completed (claimed : ClaimedPairing UserId)
deriving DecidableEq, Repr

inductive PairingClaimError where
  | notFound
  | unauthorized
  | pending
  | denied
  | activation
deriving DecidableEq, Repr

/-- A review, with the id and the expiry that its response formats. -/
structure PendingPairingReview (CapabilityId : Type) where
  capabilityId : CapabilityId
  code : String
  clientName : String
  permissions : List String
  expiresAt : ℤ
deriving DecidableEq, Repr

inductive PairingTransitionError where
  | notFound
  | conflict
  | binding
deriving DecidableEq, Repr

/-- A pending pairing with the id that it is kept under. -/
structure PendingPairing (CapabilityId Verifier UserId Dek : Type) where
  capabilityId : CapabilityId
  code : String
  clientName : String
  keyVerifier : Verifier
  permission : ClientPermission
  expiresAt : ℤ
  status : PairingStatus UserId Dek
deriving DecidableEq, Repr

structure StartedPairing (CapabilityId : Type) where
  capabilityId : CapabilityId
  code : String
  expiresAt : ℤ
deriving DecidableEq, Repr

inductive PairingStartError where
  | rateLimited (retryAfterSeconds : ℕ)
  | capacityFull (retryAfterSeconds : ℕ)
  | verifierConflict
  | database
  | generationExhausted
deriving DecidableEq, Repr

/-- A source without recorded starts is one without an entry in `source_starts`. -/
structure PairingState (CapabilityId Verifier Source UserId Dek : Type) where
  pending : List (PendingPairing CapabilityId Verifier UserId Dek) := []
  verifiers : Finset Verifier := ∅
  sourceStarts : Source → List ℤ := fun _ => []
  globalStarts : List ℤ := []

section Operations

variable {CapabilityId Verifier Source UserId Dek : Type} [DecidableEq CapabilityId]
  [DecidableEq Verifier] [DecidableEq Source]

def secondsUntil (deadline now : ℤ) : ℕ :=
  (max ((deadline - now).tdiv nanosPerSecond) 1).toNat

namespace PairingState

def removeExpired (state : PairingState CapabilityId Verifier Source UserId Dek) (now : ℤ) :
    PairingState CapabilityId Verifier Source UserId Dek :=
  let expired := state.pending.filter fun entry => entry.expiresAt ≤ now
  { state with
    pending := state.pending.filter fun entry => ¬ entry.expiresAt ≤ now
    verifiers := state.verifiers.filter fun reservation =>
      ∀ entry ∈ expired, reservation ≠ entry.keyVerifier }

def pruneRateLimits (state : PairingState CapabilityId Verifier Source UserId Dek) (now : ℤ) :
    PairingState CapabilityId Verifier Source UserId Dek :=
  { state with
    sourceStarts := fun source =>
      SlidingWindow.prune (now - sourceWindow) (state.sourceStarts source)
    globalStarts := SlidingWindow.prune (now - globalWindow) state.globalStarts }

def rateLimitRetryAfter (state : PairingState CapabilityId Verifier Source UserId Dek)
    (source : Source) (now : ℤ) : Option ℕ :=
  let sourceRetry :=
    if maxSourceStarts ≤ (state.sourceStarts source).length then
      (state.sourceStarts source).head?.map fun at' => secondsUntil (at' + sourceWindow) now
    else none
  let globalRetry :=
    if maxGlobalStarts ≤ state.globalStarts.length then
      state.globalStarts.head?.map fun at' => secondsUntil (at' + globalWindow) now
    else none
  match sourceRetry, globalRetry with
  | some source, some global => some (max source global)
  | some retry, none => some retry
  | none, some retry => some retry
  | none, none => none

def recordStart (state : PairingState CapabilityId Verifier Source UserId Dek) (source : Source)
    (now : ℤ) : PairingState CapabilityId Verifier Source UserId Dek :=
  { state with
    sourceStarts := Function.update state.sourceStarts source (state.sourceStarts source ++ [now])
    globalStarts := state.globalStarts ++ [now] }

/-- The shortest time until an entry expires, for a store that is full. -/
def capacityRetryAfter (state : PairingState CapabilityId Verifier Source UserId Dek) (now : ℤ) :
    ℕ :=
  ((state.pending.map fun entry => secondsUntil entry.expiresAt now).min?).getD 1

/-- The loop over generated ids and codes, which skips those in use. -/
def insertGenerated (state : PairingState CapabilityId Verifier Source UserId Dek) (now : ℤ)
    (start : ValidatedPairingStart Verifier) : List (CapabilityId × List.Vector UInt8 8) →
      Except PairingStartError (StartedPairing CapabilityId) ×
        PairingState CapabilityId Verifier Source UserId Dek
  | [] => (.error .generationExhausted, state)
  | (capabilityId, codeBytes) :: rest =>
    let code := encodeCode codeBytes
    if (find PendingPairing.capabilityId state.pending capabilityId).isSome ∨
        ∃ entry ∈ state.pending, entry.code = code then
      insertGenerated state now start rest
    else
      let expiresAt := now + pairingLifetime
      (.ok { capabilityId, code, expiresAt },
        { state with
          verifiers := insert start.keyVerifier state.verifiers
          pending := state.pending ++ [{
            capabilityId, code, expiresAt
            clientName := start.clientName
            keyVerifier := start.keyVerifier
            permission := start.permission
            status := .awaitingApproval }] })

def start (state : PairingState CapabilityId Verifier Source UserId Dek) (now : ℤ)
    (source : Source) (start : ValidatedPairingStart Verifier)
    (generated : List (CapabilityId × List.Vector UInt8 8))
    (durableVerifierExists : Verifier → Option Bool) :
    Except PairingStartError (StartedPairing CapabilityId) ×
      PairingState CapabilityId Verifier Source UserId Dek :=
  let state := (state.removeExpired now).pruneRateLimits now
  match state.rateLimitRetryAfter source now with
  | some retryAfterSeconds => (.error (.rateLimited retryAfterSeconds), state)
  | none =>
    if maxPendingPairings ≤ state.pending.length then
      (.error (.capacityFull (state.capacityRetryAfter now)), state)
    else
      let state := state.recordStart source now
      if start.keyVerifier ∈ state.verifiers then (.error .verifierConflict, state)
      else
        match durableVerifierExists start.keyVerifier with
        | none => (.error .database, state)
        | some true => (.error .verifierConflict, state)
        | some false => state.insertGenerated now start generated

def review (state : PairingState CapabilityId Verifier Source UserId Dek) (now : ℤ)
    (displayCode : String) :
    Except PairingTransitionError (PendingPairingReview CapabilityId) ×
      PairingState CapabilityId Verifier Source UserId Dek :=
  match parseDisplayCode displayCode with
  | none => (.error .notFound, state)
  | some code =>
    let state := state.removeExpired now
    match state.pending.find? fun entry => entry.code = code with
    | none => (.error .notFound, state)
    | some entry =>
      match entry.status with
      | .awaitingApproval =>
        (.ok {
          capabilityId := entry.capabilityId
          code := formatCode entry.code
          clientName := entry.clientName
          permissions := [entry.permission.asStr]
          expiresAt := entry.expiresAt }, state)
      | _ => (.error .conflict, state)

/-- The entry of an id is replaced. -/
def setEntry (state : PairingState CapabilityId Verifier Source UserId Dek)
    (entry : PendingPairing CapabilityId Verifier UserId Dek) :
    PairingState CapabilityId Verifier Source UserId Dek :=
  { state with
    pending := state.pending.map fun old =>
      if old.capabilityId = entry.capabilityId then entry else old }

/-- What `approve` and `deny` share: the entry of an id whose code the user typed. -/
def awaitingEntry (state : PairingState CapabilityId Verifier Source UserId Dek)
    (capabilityId : CapabilityId) (code : String) :
    Except PairingTransitionError (PendingPairing CapabilityId Verifier UserId Dek) :=
  match find PendingPairing.capabilityId state.pending capabilityId with
  | none => .error .notFound
  | some entry =>
    if entry.code ≠ code then .error .notFound
    else
      match entry.status with
      | .awaitingApproval => .ok entry
      | _ => .error .conflict

/-- `bind` is what the callback returns, if it does not fail. -/
def approve (state : PairingState CapabilityId Verifier Source UserId Dek) (now : ℤ)
    (capabilityId : CapabilityId) (displayCode : String) (activeExpiresAt : Option ℤ)
    (bind : Option (ApprovedPairingBinding UserId Dek)) :
    Except PairingTransitionError Unit × PairingState CapabilityId Verifier Source UserId Dek :=
  match parseDisplayCode displayCode with
  | none => (.error .notFound, state)
  | some code =>
    let state := state.removeExpired now
    match state.awaitingEntry capabilityId code with
    | .error error => (.error error, state)
    | .ok entry =>
      match bind with
      | none => (.error .binding, state)
      | some binding =>
        (.ok (), state.setEntry { entry with
          status := .approved {
            userId := binding.userId
            dek := binding.dek
            activeExpiresAt } })

def deny (state : PairingState CapabilityId Verifier Source UserId Dek) (now : ℤ)
    (capabilityId : CapabilityId) (displayCode : String) :
    Except PairingTransitionError Unit × PairingState CapabilityId Verifier Source UserId Dek :=
  match parseDisplayCode displayCode with
  | none => (.error .notFound, state)
  | some code =>
    let state := state.removeExpired now
    match state.awaitingEntry capabilityId code with
    | .error error => (.error error, state)
    | .ok entry => (.ok (), state.setEntry { entry with status := .denied })

/-- The result of a claim, and the argument that it calls `activate` with, where it does. -/
def claim (state : PairingState CapabilityId Verifier Source UserId Dek) (now : ℤ)
    (capabilityId : CapabilityId) (keyVerifier : Verifier)
    (activate : ApprovedPairingClaim CapabilityId UserId Dek → Option (ClaimedPairing UserId)) :
    (Except PairingClaimError (ClaimedPairing UserId) ×
      Option (ApprovedPairingClaim CapabilityId UserId Dek)) ×
        PairingState CapabilityId Verifier Source UserId Dek :=
  let state := state.removeExpired now
  match find PendingPairing.capabilityId state.pending capabilityId with
  | none => ((.error .notFound, none), state)
  | some entry =>
    if entry.keyVerifier ≠ keyVerifier then ((.error .unauthorized, none), state)
    else
      match entry.status with
      | .awaitingApproval => ((.error .pending, none), state)
      | .denied => ((.error .denied, none), state)
      | .completed claimed => ((.ok claimed, none), state)
      | .approved approval =>
        let approvedClaim : ApprovedPairingClaim CapabilityId UserId Dek := {
          capabilityId
          userId := approval.userId
          dek := approval.dek
          clientName := entry.clientName
          permission := entry.permission
          activeExpiresAt := approval.activeExpiresAt }
        match activate approvedClaim with
        | none => ((.error .activation, some approvedClaim), state)
        | some claimed =>
          ((.ok claimed, some approvedClaim), state.setEntry { entry with
            clientName := ""
            code := ""
            status := .completed claimed })

end PairingState

end Operations

end Bitgarth.Auth
