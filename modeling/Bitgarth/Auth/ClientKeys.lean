import Bitgarth.Auth.ClientStores
import Bitgarth.Auth.Lifecycle

/-! # Client keys

Claims, requests that a client key authorises, revocations and expiries of capabilities, and
crashes, interleaved between any two of their database calls and critical sections.
-/

namespace Bitgarth.Auth

open KeyedTable Reachability

section Model

variable (CapabilityId Verifier UserId Dek Wrapper Session Thread : Type)

/-- What `authorize_client_request` has done: the first look-up, the lease, the second look-up,
the opening of the user's database, and the record of the activity. -/
inductive RequestPhase where
  | identified
  | leased
  | rechecked (record : ClientCapabilityRecord CapabilityId Verifier UserId Wrapper)
  | opened (record : ClientCapabilityRecord CapabilityId Verifier UserId Wrapper)
  | running

structure ClientRequest where
  userId : UserId
  capabilityId : CapabilityId
  verifier : Verifier
  phase : RequestPhase CapabilityId Verifier UserId Wrapper

/-- What a request does next. A time is what the clock of the call shows. -/
inductive RequestEvent where
  | lease
  | recheck (now : ℤ) (fails : Bool)
  | «open» (unwraps : Bool)
  | activity (now : ℤ) (fails : Bool)
  | finish

/-- A revocation by a user, or the expiry at a time. -/
inductive ShutdownKind where
  | revoke (revokedAt : ℤ)
  | expire (now : ℤ)
deriving DecidableEq

/-- A shutdown blocks its capability, writes, and waits for the requests. -/
inductive ShutdownPhase where
  | begun
  | written
  | drained
deriving DecidableEq

structure CapabilityShutdown where
  userId : UserId
  capabilityId : CapabilityId
  kind : ShutdownKind
  phase : ShutdownPhase
deriving DecidableEq

/-- The stores with what is in progress. `claims` are those that were activated, and `retired`
the capabilities whose shutdown has returned successfully. -/
structure ClientKeyState where
  stores : ClientStores CapabilityId Verifier UserId Wrapper := {}
  registry : UserId → UserLifecycle CapabilityId Session Thread := fun _ => {}
  activation : Option (Activation CapabilityId Verifier UserId Dek Wrapper) := none
  requests : List (ClientRequest CapabilityId Verifier UserId Wrapper) := []
  shutdowns : List (CapabilityShutdown CapabilityId UserId) := []
  claims : List (ApprovedPairingClaim CapabilityId UserId Dek) := []
  retired : List (UserId × CapabilityId) := []

inductive ClientKeyStep where
  | activate (claim : ApprovedPairingClaim CapabilityId UserId Dek) (verifier : Verifier)
      (now : ℤ) (wrapper : Option Wrapper)
  | advance (fails : Bool)
  | openDatabase (userId : UserId)
  | authorize (verifier : Verifier) (now : ℤ)
  | request (thread : Thread) (request : ClientRequest CapabilityId Verifier UserId Wrapper)
      (event : RequestEvent)
  | beginShutdown (userId : UserId) (capabilityId : CapabilityId) (kind : ShutdownKind)
  | writeShutdown (shutdown : CapabilityShutdown CapabilityId UserId) (fails : Bool)
  | waitShutdown (shutdown : CapabilityShutdown CapabilityId UserId)
  | finishShutdown (shutdown : CapabilityShutdown CapabilityId UserId)
  | lifecycle (userId : UserId) (step : LifecycleStep CapabilityId Session Thread)
  | crash

end Model

section Steps

variable {CapabilityId Verifier UserId Dek Wrapper Session Thread : Type}
  [DecidableEq CapabilityId] [DecidableEq Verifier] [DecidableEq UserId] [DecidableEq Wrapper]
  [DecidableEq Session] [DecidableEq Thread]

deriving instance DecidableEq for RequestPhase, ClientRequest

/-- The steps of the registry that are not those of client requests and shutdowns. -/
def LifecycleStep.isSession : LifecycleStep CapabilityId Session Thread → Bool
  | acquireRequest capabilityId => capabilityId.isNone
  | dropRequest _ capabilityId => capabilityId.isNone
  | beginCapabilityShutdown _ => false
  | waitForRequests _ => false
  | dropCapabilityShutdown _ => false
  | _ => true

namespace ClientKeyState

/-- A critical section of the registry of a user. -/
def lifecycle (state : ClientKeyState CapabilityId Verifier UserId Dek Wrapper Session Thread)
    (userId : UserId) (step : LifecycleStep CapabilityId Session Thread) :
    Option (ClientKeyState CapabilityId Verifier UserId Dek Wrapper Session Thread) :=
  (step.run (state.registry userId)).map fun result =>
    { state with registry := Function.update state.registry userId result.1 }

def setRequest (state : ClientKeyState CapabilityId Verifier UserId Dek Wrapper Session Thread)
    (request : ClientRequest CapabilityId Verifier UserId Wrapper)
    (phase : RequestPhase CapabilityId Verifier UserId Wrapper) :
    ClientKeyState CapabilityId Verifier UserId Dek Wrapper Session Thread :=
  { state with requests := { request with phase } :: state.requests.erase request }

/-- A request returns and drops its lease. -/
def endRequest (state : ClientKeyState CapabilityId Verifier UserId Dek Wrapper Session Thread)
    (thread : Thread) (request : ClientRequest CapabilityId Verifier UserId Wrapper) :
    Option (ClientKeyState CapabilityId Verifier UserId Dek Wrapper Session Thread) :=
  (state.lifecycle request.userId (.dropRequest thread (some request.capabilityId))).map
    fun state => { state with requests := state.requests.erase request }

/-- The registry returns a lease where it counts one; otherwise the request is unauthorised. -/
def leaseRequest (state : ClientKeyState CapabilityId Verifier UserId Dek Wrapper Session Thread)
    (request : ClientRequest CapabilityId Verifier UserId Wrapper) :
    Option (ClientKeyState CapabilityId Verifier UserId Dek Wrapper Session Thread) :=
  (state.lifecycle request.userId (.acquireRequest (some request.capabilityId))).map fun after =>
    if (after.registry request.userId).leases = (state.registry request.userId).leases then
      { after with requests := after.requests.erase request }
    else after.setRequest request .leased

def recheckRequest (state : ClientKeyState CapabilityId Verifier UserId Dek Wrapper Session Thread)
    (thread : Thread) (request : ClientRequest CapabilityId Verifier UserId Wrapper) (now : ℤ)
    (fails : Bool) :
    Option (ClientKeyState CapabilityId Verifier UserId Dek Wrapper Session Thread) :=
  if fails then state.endRequest thread request
  else
    match state.stores.loadClientCapability request.capabilityId with
    | none => state.endRequest thread request
    | some record =>
      if record.userId ≠ request.userId ∨ record.keyVerifier ≠ request.verifier ∨
          record.revokedAt.isSome ∨ record.isExpired now then
        state.endRequest thread request
      else some (state.setRequest request (.rechecked record))

def activityRequest (state : ClientKeyState CapabilityId Verifier UserId Dek Wrapper Session Thread)
    (thread : Thread) (request : ClientRequest CapabilityId Verifier UserId Wrapper)
    (record : ClientCapabilityRecord CapabilityId Verifier UserId Wrapper) (now : ℤ)
    (fails : Bool) :
    Option (ClientKeyState CapabilityId Verifier UserId Dek Wrapper Session Thread) :=
  if fails ∨ record.isExpired now then state.endRequest thread request
  else
    match state.stores.recordClientCapabilityActivity record.capabilityId record.userId now with
    | none => state.endRequest thread request
    | some stores => some ({ state with stores }.setRequest request .running)

/-- The next call of a request. `client_key_open_mode` needs the wrapped key of the record. -/
def stepRequest (state : ClientKeyState CapabilityId Verifier UserId Dek Wrapper Session Thread)
    (thread : Thread) (request : ClientRequest CapabilityId Verifier UserId Wrapper)
    (event : RequestEvent) :
    Option (ClientKeyState CapabilityId Verifier UserId Dek Wrapper Session Thread) :=
  if request ∈ state.requests then
    match request.phase, event with
    | .identified, .lease => state.leaseRequest request
    | .leased, .recheck now fails => state.recheckRequest thread request now fails
    | .rechecked record, .open unwraps =>
      if record.wrappedKey.isSome ∧ unwraps then
        some (state.setRequest request (.opened record))
      else state.endRequest thread request
    | .opened record, .activity now fails => state.activityRequest thread request record now fails
    | .running, .finish => state.endRequest thread request
    | _, _ => none
  else none

/-- The first look-up. An expired record is retired by a shutdown of its own. -/
def authorize (state : ClientKeyState CapabilityId Verifier UserId Dek Wrapper Session Thread)
    (verifier : Verifier) (now : ℤ) :
    Option (ClientKeyState CapabilityId Verifier UserId Dek Wrapper Session Thread) :=
  match state.stores.findCapabilityIdentityByVerifier verifier with
  | none => none
  | some initial =>
    if initial.revokedAt.isSome ∨ initial.isExpired now then none
    else some { state with
      requests := {
        userId := initial.userId
        capabilityId := initial.capabilityId
        verifier
        phase := .identified } :: state.requests }

/-- A capability is shut down for its expiry only where its record was seen to be expired. -/
def isSeen (state : ClientKeyState CapabilityId Verifier UserId Dek Wrapper Session Thread)
    (userId : UserId) (capabilityId : CapabilityId) : ShutdownKind → Bool
  | .revoke _ => true
  | .expire now => ∃ row ∈ state.stores.capabilities,
      row.capabilityId = capabilityId ∧ row.userId = userId ∧ row.isExpired now

def beginShutdown (state : ClientKeyState CapabilityId Verifier UserId Dek Wrapper Session Thread)
    (userId : UserId) (capabilityId : CapabilityId) (kind : ShutdownKind) :
    Option (ClientKeyState CapabilityId Verifier UserId Dek Wrapper Session Thread) :=
  if state.isSeen userId capabilityId kind then
    (state.lifecycle userId (.beginCapabilityShutdown capabilityId)).map fun state =>
      { state with shutdowns := { userId, capabilityId, kind, phase := .begun } :: state.shutdowns }
  else none

/-- The shutdown returns, and its guard is dropped. -/
def endShutdown (state : ClientKeyState CapabilityId Verifier UserId Dek Wrapper Session Thread)
    (shutdown : CapabilityShutdown CapabilityId UserId) :
    Option (ClientKeyState CapabilityId Verifier UserId Dek Wrapper Session Thread) :=
  (state.lifecycle shutdown.userId (.dropCapabilityShutdown shutdown.capabilityId)).map
    fun state => { state with shutdowns := state.shutdowns.erase shutdown }

def setShutdown (state : ClientKeyState CapabilityId Verifier UserId Dek Wrapper Session Thread)
    (shutdown : CapabilityShutdown CapabilityId UserId) (phase : ShutdownPhase) :
    ClientKeyState CapabilityId Verifier UserId Dek Wrapper Session Thread :=
  { state with shutdowns := { shutdown with phase } :: state.shutdowns.erase shutdown }

def writeShutdown (state : ClientKeyState CapabilityId Verifier UserId Dek Wrapper Session Thread)
    (shutdown : CapabilityShutdown CapabilityId UserId) (fails : Bool) :
    Option (ClientKeyState CapabilityId Verifier UserId Dek Wrapper Session Thread) :=
  if fails then state.endShutdown shutdown
  else
    match shutdown.kind with
    | .revoke revokedAt =>
      match state.stores.revokeClientCapability shutdown.userId shutdown.capabilityId
          revokedAt with
      | none => state.endShutdown shutdown
      | some (.notFound, _) => state.endShutdown shutdown
      | some (_, stores) => some ({ state with stores }.setShutdown shutdown .written)
    | .expire now =>
      some ({ state with
        stores := (state.stores.clearExpiredClientCapabilityWrap shutdown.userId
          shutdown.capabilityId now).2 }.setShutdown shutdown .written)

/-- What a step does where it can be taken. One pairing is claimed at a time, and the lease of its
approval keeps the database of its user open, so that no opening removes names meanwhile. -/
def run (state : ClientKeyState CapabilityId Verifier UserId Dek Wrapper Session Thread) :
    ClientKeyStep CapabilityId Verifier UserId Dek Wrapper Session Thread →
      Option (ClientKeyState CapabilityId Verifier UserId Dek Wrapper Session Thread)
  | .activate claim verifier now wrapper =>
    match state.activation with
    | some _ => none
    | none => some { state with
        activation := some { claim, verifier, now, wrapper, phase := .checking }
        claims := claim :: state.claims }
  | .advance fails =>
    match state.activation with
    | none => none
    | some activation =>
      let (activation, stores) := activation.advance state.stores fails
      some { state with activation, stores }
  | .openDatabase userId =>
    if ∃ activation ∈ state.activation, activation.claim.userId = userId then none
    else some { state with stores := state.stores.removeOrphanPairedClientNames userId }
  | .authorize verifier now => state.authorize verifier now
  | .request thread request event => state.stepRequest thread request event
  | .beginShutdown userId capabilityId kind => state.beginShutdown userId capabilityId kind
  | .writeShutdown shutdown fails =>
    if shutdown ∈ state.shutdowns ∧ shutdown.phase = .begun then
      state.writeShutdown shutdown fails
    else none
  | .waitShutdown shutdown =>
    if shutdown ∈ state.shutdowns ∧ shutdown.phase = .written then
      (state.lifecycle shutdown.userId (.waitForRequests shutdown.capabilityId)).map
        fun state => state.setShutdown shutdown .drained
    else none
  | .finishShutdown shutdown =>
    if shutdown ∈ state.shutdowns ∧ shutdown.phase = .drained then
      (state.endShutdown shutdown).map fun state => { state with
        retired := (shutdown.userId, shutdown.capabilityId) :: state.retired }
    else none
  | .lifecycle userId step => if step.isSession then state.lifecycle userId step else none
  | .crash => some {
      stores := state.stores
      claims := state.claims
      retired := state.retired }

end ClientKeyState

end Steps

end Bitgarth.Auth
