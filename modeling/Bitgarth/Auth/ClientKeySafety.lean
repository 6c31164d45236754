import Bitgarth.Auth.ClientKeys

/-! # Safety of client keys

What every step keeps: the stores are complete, the registry counts the leases of the requests,
and a capability that was shut down stays cleared and without authorised requests.
-/

namespace Bitgarth.Auth

open KeyedTable Reachability

section Leases

variable {CapabilityId Session Thread : Type} [DecidableEq CapabilityId] [DecidableEq Session]
  [DecidableEq Thread] {user after : UserLifecycle CapabilityId Session Thread} {closes : Bool}

/-! ## Leases of the registry -/

theorem leases_acquireRequest {capabilityId : Option CapabilityId}
    (taken : (LifecycleStep.acquireRequest capabilityId).run user = some (after, closes)) :
    after.leases = user.leases ∨ after.leases = capabilityId :: user.leases := by
  simp only [LifecycleStep.run] at taken
  split at taken
  · cases taken
    exact .inl rfl
  · cases taken
    exact .inr rfl

theorem leases_dropRequest {thread : Thread} {capabilityId : Option CapabilityId}
    (taken : (LifecycleStep.dropRequest thread capabilityId).run user = some (after, closes)) :
    capabilityId ∈ user.leases ∧ after.leases = user.leases.erase capabilityId := by
  obtain ⟨held, taken⟩ := Option.ite_none_right_eq_some.mp taken
  cases isState : user.state with
  | none =>
    rw [isState] at taken
    cases taken
    exact ⟨held, rfl⟩
  | some state =>
    rw [isState] at taken
    cases taken
    exact ⟨held, rfl⟩

/-- Only requests take and give back leases. -/
theorem leases_run {step : LifecycleStep CapabilityId Session Thread}
    (taken : step.run user = some (after, closes))
    (noAcquire : ∀ capabilityId, step ≠ .acquireRequest capabilityId)
    (noDrop : ∀ thread capabilityId, step ≠ .dropRequest thread capabilityId) :
    after.leases = user.leases := by
  cases step with
  | acquireRequest capabilityId => exact absurd rfl (noAcquire capabilityId)
  | dropRequest thread capabilityId => exact absurd rfl (noDrop thread capabilityId)
  | pinBrowserSession sessionId =>
    cases taken
    rfl
  | unpinBrowserSession thread sessionId =>
    simp only [LifecycleStep.run] at taken
    split at taken
    · cases taken
      rfl
    · cases taken
      rfl
  | acquireUserLifecycleLock thread =>
    obtain ⟨-, taken⟩ := Option.ite_none_right_eq_some.mp taken
    split at taken
    · cases taken
      rfl
    · cases taken
      rfl
  | resumeUserLifecycleLock thread =>
    obtain ⟨-, taken⟩ := Option.ite_none_right_eq_some.mp taken
    obtain ⟨-, taken⟩ := Option.ite_none_left_eq_some.mp taken
    cases taken
    rfl
  | waitForRequests capabilityId =>
    obtain ⟨-, taken⟩ := Option.ite_none_right_eq_some.mp taken
    obtain ⟨-, taken⟩ := Option.ite_none_left_eq_some.mp taken
    cases taken
    rfl
  | _ =>
    obtain ⟨-, taken⟩ := Option.ite_none_right_eq_some.mp taken
    cases taken
    rfl

/-- A capability that was waited for has no lease. -/
theorem leases_waitForRequests (consistent : user.Consistent) {capabilityId : CapabilityId}
    (taken : (LifecycleStep.waitForRequests capabilityId).run user = some (after, closes)) :
    user.leases.count (some capabilityId) = 0 := by
  obtain ⟨-, taken⟩ := Option.ite_none_right_eq_some.mp taken
  obtain ⟨idle, taken⟩ := Option.ite_none_left_eq_some.mp taken
  rw [consistent.lookup_getD, Nat.pos_iff_ne_zero, not_not] at idle
  exact idle

theorem count_leases_session {step : LifecycleStep CapabilityId Session Thread}
    (taken : step.run user = some (after, closes)) (isSession : step.isSession = true)
    (id : CapabilityId) : after.leases.count (some id) = user.leases.count (some id) := by
  cases step with
  | acquireRequest capabilityId =>
    obtain rfl := Option.isNone_iff_eq_none.mp isSession
    rcases leases_acquireRequest taken with same | added
    · rw [same]
    · rw [added, List.count_cons_of_ne (Option.some_ne_none id).symm]
  | dropRequest thread capabilityId =>
    obtain rfl := Option.isNone_iff_eq_none.mp isSession
    rw [(leases_dropRequest taken).2, List.count_erase_of_ne (Option.some_ne_none id)]
  | _ =>
    rw [leases_run taken]
    · rintro _ ⟨⟩
    · rintro _ _ ⟨⟩

end Leases

section Requests

variable {CapabilityId Verifier UserId Dek Wrapper Session Thread : Type}
  [DecidableEq CapabilityId] [DecidableEq Verifier] [DecidableEq UserId] [DecidableEq Wrapper]
  [DecidableEq Session] [DecidableEq Thread]

namespace ClientRequest

def isOf (request : ClientRequest CapabilityId Verifier UserId Wrapper) (userId : UserId)
    (capabilityId : CapabilityId) : Bool :=
  request.userId = userId ∧ request.capabilityId = capabilityId

def holdsLease (request : ClientRequest CapabilityId Verifier UserId Wrapper) : Bool :=
  match request.phase with
  | .identified => false
  | _ => true

/-- The request is authorised, or has read a wrapped key that authorises it. -/
def isLive (request : ClientRequest CapabilityId Verifier UserId Wrapper) : Bool :=
  match request.phase with
  | .rechecked record => record.wrappedKey.isSome
  | .opened _ => true
  | .running => true
  | _ => false

end ClientRequest

/-- No request of a capability is authorised, or has read a key that authorises it. -/
def Quiet (requests : List (ClientRequest CapabilityId Verifier UserId Wrapper)) (userId : UserId)
    (capabilityId : CapabilityId) : Prop :=
  ∀ request ∈ requests, request.isOf userId capabilityId = true → request.isLive = false

/-- The registry counts the leases that requests hold. -/
structure ClientKeyState.LeasesCounted
    (state : ClientKeyState CapabilityId Verifier UserId Dek Wrapper Session Thread) : Prop where
  consistent : ∀ userId, (state.registry userId).Consistent
  counted : ∀ userId id, (state.registry userId).leases.count (some id) =
    state.requests.countP fun request => request.isOf userId id && request.holdsLease

/-- Shutdowns clear their capability before they wait for its requests, and it stays so. -/
structure ClientKeyState.Retires
    (state : ClientKeyState CapabilityId Verifier UserId Dek Wrapper Session Thread) : Prop where
  expiring : ∀ shutdown ∈ state.shutdowns, ∀ now, shutdown.kind = .expire now →
    ∃ row ∈ state.stores.capabilities, row.capabilityId = shutdown.capabilityId ∧
      row.userId = shutdown.userId ∧ row.isExpired now
  cleared : ∀ shutdown ∈ state.shutdowns, shutdown.phase ≠ .begun →
    state.stores.Cleared shutdown.userId shutdown.capabilityId
  quiet : ∀ shutdown ∈ state.shutdowns, shutdown.phase = .drained →
    Quiet state.requests shutdown.userId shutdown.capabilityId
  retired : ∀ pair ∈ state.retired,
    state.stores.Cleared pair.1 pair.2 ∧ Quiet state.requests pair.1 pair.2

/-- Rows are complete, were claimed by their user, and are what the claim in progress relies on. -/
structure ClientKeyState.Claims
    (state : ClientKeyState CapabilityId Verifier UserId Dek Wrapper Session Thread) : Prop where
  complete : state.stores.Complete
  claimed : ∀ row ∈ state.stores.capabilities, ∃ claim ∈ state.claims,
    claim.capabilityId = row.capabilityId ∧ claim.userId = row.userId
  activation : ∀ activation ∈ state.activation,
    activation.claim ∈ state.claims ∧ activation.Prepared state.stores

structure ClientKeyState.Secure
    (state : ClientKeyState CapabilityId Verifier UserId Dek Wrapper Session Thread) : Prop where
  leases : state.LeasesCounted
  retires : state.Retires
  claims : state.Claims

variable {state after : ClientKeyState CapabilityId Verifier UserId Dek Wrapper Session Thread}
  {request : ClientRequest CapabilityId Verifier UserId Wrapper}
  {phase : RequestPhase CapabilityId Verifier UserId Wrapper}
  {userId : UserId} {capabilityId : CapabilityId}

omit [DecidableEq Verifier] [DecidableEq Wrapper] [DecidableEq Session] [DecidableEq Thread] in
/-- Nothing is stored at the start. -/
theorem secure_empty :
    ({} : ClientKeyState CapabilityId Verifier UserId Dek Wrapper Session Thread).Secure := by
  refine ⟨⟨fun _ => UserLifecycle.consistent_empty, fun _ _ => rfl⟩, ⟨?_, ?_, ?_, ?_⟩,
    ⟨⟨List.nodup_nil, ?_, ?_⟩, ?_, ?_⟩⟩
  · exact fun _ member => absurd member List.not_mem_nil
  · exact fun _ member => absurd member List.not_mem_nil
  · exact fun _ member => absurd member List.not_mem_nil
  · exact fun _ member => absurd member List.not_mem_nil
  · exact fun _ member => absurd member List.not_mem_nil
  · exact fun _ member => absurd member List.not_mem_nil
  · exact fun _ member => absurd member List.not_mem_nil
  · intro activation isActivation
    cases isActivation

/-! ## Requests -/

omit [DecidableEq Verifier] [DecidableEq Wrapper] in
/-- A step of the lifecycle changes the entry of one user. -/
theorem lifecycle_eq_some {step : LifecycleStep CapabilityId Session Thread}
    (taken : state.lifecycle userId step = some after) : ∃ user closes,
      step.run (state.registry userId) = some (user, closes) ∧
        after = { state with registry := Function.update state.registry userId user } := by
  obtain ⟨⟨user, closes⟩, isRun, rfl⟩ := Option.map_eq_some_iff.mp taken
  exact ⟨user, closes, isRun, rfl⟩

theorem countP_eq_add_erase {Element : Type} [DecidableEq Element] {elements : List Element}
    {element : Element} (member : element ∈ elements) (selects : Element → Bool) :
    elements.countP selects =
      (elements.erase element).countP selects + if selects element then 1 else 0 := by
  rw [(List.perm_cons_erase member).countP_eq, List.countP_cons]

omit [DecidableEq Session] [DecidableEq Thread] in
theorem Quiet.erase (quiet : Quiet (state.requests) userId capabilityId) :
    Quiet (state.requests.erase request) userId capabilityId :=
  fun other member => quiet other (List.mem_of_mem_erase member)

omit [DecidableEq Session] [DecidableEq Thread] in
theorem Quiet.setRequest (quiet : Quiet state.requests userId capabilityId)
    (stays : request.isOf userId capabilityId = true →
      ({ request with phase } : ClientRequest CapabilityId Verifier UserId Wrapper).isLive =
        false) : Quiet (state.setRequest request phase).requests userId capabilityId := by
  intro other member isOf
  rcases List.mem_cons.mp member with rfl | later
  · exact stays isOf
  · exact quiet other (List.mem_of_mem_erase later) isOf

omit [DecidableEq Verifier] [DecidableEq Wrapper] in
theorem ClientKeyState.LeasesCounted.lifecycle (leases : state.LeasesCounted)
    {step : LifecycleStep CapabilityId Session Thread}
    (taken : state.lifecycle userId step = some after)
    (keeps : ∀ user closes, step.run (state.registry userId) = some (user, closes) →
      ∀ id, user.leases.count (some id) = (state.registry userId).leases.count (some id)) :
    after.LeasesCounted := by
  obtain ⟨user, closes, isRun, rfl⟩ := lifecycle_eq_some taken
  refine ⟨?_, ?_⟩
  · intro other
    dsimp only
    by_cases same : other = userId
    · subst same
      rw [Function.update_self]
      exact (leases.consistent other).run isRun
    · rw [Function.update_of_ne same]
      exact leases.consistent other
  · intro other id
    rw [← leases.counted]
    dsimp only
    by_cases same : other = userId
    · subst same
      rw [Function.update_self, keeps user closes isRun]
    · rw [Function.update_of_ne same]

omit [DecidableEq Session] [DecidableEq Thread] in
theorem ClientKeyState.LeasesCounted.setRequest (leases : state.LeasesCounted)
    (member : request ∈ state.requests)
    (holds : ({ request with phase } :
      ClientRequest CapabilityId Verifier UserId Wrapper).holdsLease = request.holdsLease) :
    (state.setRequest request phase).LeasesCounted := by
  refine ⟨leases.consistent, ?_⟩
  intro userId id
  rw [ClientKeyState.setRequest]
  dsimp only
  rw [leases.counted, countP_eq_add_erase member, List.countP_cons, holds]
  rfl

/-- A request gives its lease back as it ends. -/
theorem ClientKeyState.LeasesCounted.endRequest (leases : state.LeasesCounted)
    (member : request ∈ state.requests) (holds : request.holdsLease = true) {thread : Thread}
    (taken : state.endRequest thread request = some after) : after.LeasesCounted := by
  obtain ⟨dropped, isDropped, rfl⟩ := Option.map_eq_some_iff.mp taken
  obtain ⟨user, closes, isRun, rfl⟩ := lifecycle_eq_some isDropped
  obtain ⟨held, left⟩ := leases_dropRequest isRun
  refine ⟨?_, ?_⟩
  · intro other
    dsimp only
    by_cases same : other = request.userId
    · subst same
      rw [Function.update_self]
      exact (leases.consistent _).run isRun
    · rw [Function.update_of_ne same]
      exact leases.consistent other
  · intro other id
    have count := leases.counted other id
    rw [countP_eq_add_erase member, holds, Bool.and_true] at count
    dsimp only
    by_cases isOf : request.isOf other id = true
    · obtain ⟨isUser, isId⟩ := of_decide_eq_true isOf
      subst isUser isId
      rw [if_pos isOf] at count
      rw [Function.update_self, left, List.count_erase_self, count, Nat.add_sub_cancel]
    · rw [if_neg isOf, Nat.add_zero] at count
      rw [← count]
      by_cases same : other = request.userId
      · subst same
        rw [Function.update_self, left, List.count_erase_of_ne]
        intro isId
        exact isOf (decide_eq_true ⟨rfl, (Option.some.inj isId).symm⟩)
      · rw [Function.update_of_ne same]

/-- A request takes one lease. -/
theorem ClientKeyState.LeasesCounted.leaseRequest (leases : state.LeasesCounted)
    (member : request ∈ state.requests) (holds : request.holdsLease = false)
    (taken : state.leaseRequest request = some after) : after.LeasesCounted := by
  obtain ⟨acquired, isAcquired, rfl⟩ := Option.map_eq_some_iff.mp taken
  obtain ⟨user, closes, isRun, rfl⟩ := lifecycle_eq_some isAcquired
  have consistent : ∀ other,
      (Function.update state.registry request.userId user other).Consistent := by
    intro other
    by_cases same : other = request.userId
    · subst same
      rw [Function.update_self]
      exact (leases.consistent _).run isRun
    · rw [Function.update_of_ne same]
      exact leases.consistent other
  have before (other : UserId) (id : CapabilityId) :
      (state.registry other).leases.count (some id) = (state.requests.erase request).countP
        fun request => request.isOf other id && request.holdsLease := by
    rw [leases.counted, countP_eq_add_erase member, holds, Bool.and_false]
    rfl
  split
  · rename_i refused
    dsimp only at refused
    rw [Function.update_self] at refused
    refine ⟨consistent, ?_⟩
    intro other id
    rw [← before]
    dsimp only
    by_cases same : other = request.userId
    · subst same
      rw [Function.update_self, refused]
    · rw [Function.update_of_ne same]
  · rename_i granted
    dsimp only at granted
    rw [Function.update_self] at granted
    refine ⟨consistent, ?_⟩
    intro other id
    have added := (leases_acquireRequest isRun).resolve_left granted
    dsimp only [ClientKeyState.setRequest]
    rw [List.countP_cons, ← before]
    by_cases isOf : request.isOf other id = true
    · obtain ⟨isUser, isId⟩ := of_decide_eq_true isOf
      subst isUser isId
      rw [Function.update_self, added, List.count_cons_self, if_pos]
      exact Bool.and_eq_true_iff.mpr ⟨isOf, rfl⟩
    · have uncounted : (if (({ request with phase := .leased } :
          ClientRequest CapabilityId Verifier UserId Wrapper).isOf other id &&
            ({ request with phase := .leased } :
              ClientRequest CapabilityId Verifier UserId Wrapper).holdsLease) = true
          then 1 else 0) = 0 := by
        refine if_neg ?_
        exact fun both => isOf (Bool.and_eq_true_iff.mp both).1
      rw [uncounted, Nat.add_zero]
      by_cases same : other = request.userId
      · subst same
        rw [Function.update_self, added, List.count_cons_of_ne]
        intro isId
        exact isOf (decide_eq_true ⟨rfl, Option.some.inj isId⟩)
      · rw [Function.update_of_ne same]

/-! ## Shutdowns -/

omit [DecidableEq Verifier] [DecidableEq Wrapper] [DecidableEq Session] [DecidableEq Thread] in
/-- The retired stay so where expiries, cleared wrappers and quiet requests stay. -/
theorem ClientKeyState.Retires.mono (retires : state.Retires)
    (sameShutdowns : ∀ shutdown ∈ after.shutdowns, shutdown ∈ state.shutdowns)
    (sameRetired : after.retired = state.retired)
    (expired : ∀ row ∈ state.stores.capabilities, ∃ next ∈ after.stores.capabilities,
      next.capabilityId = row.capabilityId ∧ next.userId = row.userId ∧
        next.expiresAt = row.expiresAt)
    (cleared : ∀ userId capabilityId, state.stores.Cleared userId capabilityId →
      after.stores.Cleared userId capabilityId)
    (quiet : ∀ userId capabilityId, state.stores.Cleared userId capabilityId →
      Quiet state.requests userId capabilityId → Quiet after.requests userId capabilityId) :
    after.Retires := by
  refine ⟨?_, ?_, ?_, ?_⟩
  · intro shutdown member now isExpiry
    obtain ⟨row, isRow, isId, isUser, isExpired⟩ :=
      retires.expiring shutdown (sameShutdowns shutdown member) now isExpiry
    obtain ⟨next, isNext, sameId, sameUser, sameExpiry⟩ := expired row isRow
    refine ⟨next, isNext, sameId.trans isId, sameUser.trans isUser, ?_⟩
    rw [ClientCapabilityRecord.isExpired, sameExpiry]
    exact isExpired
  · intro shutdown member isWritten
    exact cleared _ _ (retires.cleared shutdown (sameShutdowns shutdown member) isWritten)
  · intro shutdown member isDrained
    have before := sameShutdowns shutdown member
    have isWritten : shutdown.phase ≠ .begun := by
      rw [isDrained]
      exact ShutdownPhase.noConfusion
    exact quiet _ _ (retires.cleared shutdown before isWritten)
      (retires.quiet shutdown before isDrained)
  · intro pair member
    rw [sameRetired] at member
    obtain ⟨isCleared, isQuiet⟩ := retires.retired pair member
    exact ⟨cleared _ _ isCleared, quiet _ _ isCleared isQuiet⟩

omit [DecidableEq Verifier] [DecidableEq Wrapper] [DecidableEq Session] [DecidableEq Thread] in
theorem ClientKeyState.Retires.requests (retires : state.Retires)
    (sameShutdowns : ∀ shutdown ∈ after.shutdowns, shutdown ∈ state.shutdowns)
    (sameRetired : after.retired = state.retired) (sameStores : after.stores = state.stores)
    (quiet : ∀ userId capabilityId, state.stores.Cleared userId capabilityId →
      Quiet state.requests userId capabilityId → Quiet after.requests userId capabilityId) :
    after.Retires := by
  refine retires.mono sameShutdowns sameRetired ?_ ?_ quiet
  · rw [sameStores]
    exact fun row member => ⟨row, member, rfl, rfl, rfl⟩
  · rw [sameStores]
    exact fun _ _ cleared => cleared

omit [DecidableEq CapabilityId] [DecidableEq Verifier] [DecidableEq UserId] [DecidableEq Wrapper]
  [DecidableEq Session] [DecidableEq Thread] in
theorem ClientKeyState.Claims.congr (claims : state.Claims)
    (stores : after.stores = state.stores) (activation : after.activation = state.activation)
    (sameClaims : after.claims = state.claims) : after.Claims := by
  refine ⟨?_, ?_, ?_⟩
  · rw [stores]
    exact claims.complete
  · rw [stores, sameClaims]
    exact claims.claimed
  · rw [stores, sameClaims, activation]
    exact claims.activation

omit [DecidableEq CapabilityId] [DecidableEq Verifier] [DecidableEq UserId] [DecidableEq Wrapper]
  [DecidableEq Session] [DecidableEq Thread] in
theorem ClientKeyState.Claims.map (claims : state.Claims)
    {update : ClientCapabilityRecord CapabilityId Verifier UserId Wrapper →
      ClientCapabilityRecord CapabilityId Verifier UserId Wrapper}
    (evolves : ∀ row, ClientCapabilityRecord.Evolves row (update row)) :
    ({ state with stores := { state.stores with
        capabilities := state.stores.capabilities.map update } } :
      ClientKeyState CapabilityId Verifier UserId Dek Wrapper Session Thread).Claims := by
  refine ⟨claims.complete.map evolves, ?_, ?_⟩
  · intro row member
    obtain ⟨before, isBefore, rfl⟩ := List.mem_map.mp member
    obtain ⟨claim, isClaim, isId, isUser⟩ := claims.claimed before isBefore
    exact ⟨claim, isClaim, isId.trans (evolves before).capabilityId.symm,
      isUser.trans (evolves before).userId.symm⟩
  · intro activation isActivation
    obtain ⟨isClaim, prepared⟩ := claims.activation activation isActivation
    exact ⟨isClaim, prepared.map evolves⟩

omit [DecidableEq Verifier] [DecidableEq Wrapper] [DecidableEq Session] [DecidableEq Thread] in
theorem ClientKeyState.Retires.map (retires : state.Retires)
    {update : ClientCapabilityRecord CapabilityId Verifier UserId Wrapper →
      ClientCapabilityRecord CapabilityId Verifier UserId Wrapper}
    (evolves : ∀ row, ClientCapabilityRecord.Evolves row (update row)) :
    ({ state with stores := { state.stores with
        capabilities := state.stores.capabilities.map update } } :
      ClientKeyState CapabilityId Verifier UserId Dek Wrapper Session Thread).Retires := by
  refine retires.mono (fun _ member => member) rfl ?_ ?_ fun _ _ _ quiet => quiet
  · intro row member
    exact ⟨update row, List.mem_map_of_mem member, (evolves row).capabilityId,
      (evolves row).userId, (evolves row).expiresAt⟩
  · exact fun _ _ cleared => cleared.map evolves

omit [DecidableEq Verifier] [DecidableEq Wrapper] [DecidableEq Session] [DecidableEq Thread] in
theorem ClientKeyState.Secure.map (secure : state.Secure)
    {update : ClientCapabilityRecord CapabilityId Verifier UserId Wrapper →
      ClientCapabilityRecord CapabilityId Verifier UserId Wrapper}
    (evolves : ∀ row, ClientCapabilityRecord.Evolves row (update row)) :
    ({ state with stores := { state.stores with
        capabilities := state.stores.capabilities.map update } } :
      ClientKeyState CapabilityId Verifier UserId Dek Wrapper Session Thread).Secure :=
  ⟨⟨secure.leases.consistent, secure.leases.counted⟩, secure.retires.map evolves,
    secure.claims.map evolves⟩

/-! ## Steps of requests -/

theorem ClientKeyState.Secure.endRequest (secure : state.Secure)
    (member : request ∈ state.requests) (holds : request.holdsLease = true) {thread : Thread}
    (taken : state.endRequest thread request = some after) : after.Secure := by
  have leases := secure.leases.endRequest member holds taken
  obtain ⟨dropped, isDropped, rfl⟩ := Option.map_eq_some_iff.mp taken
  obtain ⟨user, closes, isRun, rfl⟩ := lifecycle_eq_some isDropped
  refine ⟨leases, secure.retires.requests (fun _ isShutdown => isShutdown) rfl rfl ?_,
    secure.claims.congr rfl rfl rfl⟩
  exact fun _ _ _ quiet => quiet.erase

omit [DecidableEq Session] [DecidableEq Thread] in
theorem ClientKeyState.Secure.setRequest (secure : state.Secure)
    (member : request ∈ state.requests)
    (holds : ({ request with phase } :
      ClientRequest CapabilityId Verifier UserId Wrapper).holdsLease = request.holdsLease)
    (stays : ({ request with phase } :
        ClientRequest CapabilityId Verifier UserId Wrapper).isLive = true →
      request.isLive = true ∨ ¬ state.stores.Cleared request.userId request.capabilityId) :
    (state.setRequest request phase).Secure := by
  refine ⟨secure.leases.setRequest member holds,
    secure.retires.requests (fun _ isShutdown => isShutdown) rfl rfl ?_,
    secure.claims.congr rfl rfl rfl⟩
  intro userId capabilityId cleared quiet
  refine quiet.setRequest fun isOf => ?_
  by_contra live
  rcases stays (Bool.not_eq_false _ |>.mp live) with wasLive | uncleared
  · rw [quiet request member isOf] at wasLive
    cases wasLive
  · obtain ⟨isUser, isId⟩ := of_decide_eq_true isOf
    subst isUser isId
    exact uncleared cleared

theorem ClientKeyState.Secure.leaseRequest (secure : state.Secure)
    (member : request ∈ state.requests) (isIdentified : request.phase = .identified)
    (taken : state.leaseRequest request = some after) : after.Secure := by
  have holds : request.holdsLease = false := by
    rw [ClientRequest.holdsLease, isIdentified]
  have leases := secure.leases.leaseRequest member holds taken
  obtain ⟨acquired, isAcquired, rfl⟩ := Option.map_eq_some_iff.mp taken
  obtain ⟨user, closes, isRun, rfl⟩ := lifecycle_eq_some isAcquired
  split at leases
  · rename_i refused
    rw [if_pos refused]
    refine ⟨leases, secure.retires.requests (fun _ isShutdown => isShutdown) rfl rfl ?_,
      secure.claims.congr rfl rfl rfl⟩
    exact fun _ _ _ quiet => quiet.erase
  · rename_i granted
    rw [if_neg granted]
    refine ⟨leases, secure.retires.requests (fun _ isShutdown => isShutdown) rfl rfl ?_,
      secure.claims.congr rfl rfl rfl⟩
    exact fun _ _ _ quiet => quiet.setRequest fun _ => rfl

/-- A leased request is opened or refused by its row, which it reads again. -/
theorem ClientKeyState.Secure.recheckRequest (secure : state.Secure)
    (member : request ∈ state.requests) (isLeased : request.phase = .leased) {thread : Thread}
    {now : ℤ} {fails : Bool}
    (taken : state.recheckRequest thread request now fails = some after) : after.Secure := by
  have holds : request.holdsLease = true := by
    rw [ClientRequest.holdsLease, isLeased]
  unfold ClientKeyState.recheckRequest at taken
  split at taken
  · exact secure.endRequest member holds taken
  · split at taken
    · exact secure.endRequest member holds taken
    · rename_i record isRecord
      split at taken
      · exact secure.endRequest member holds taken
      · rename_i isAuthority
        cases taken
        refine secure.setRequest member holds.symm fun live => .inr ?_
        rintro ⟨row, isRow, isId, isUser, isCleared⟩
        have found := (find_eq_some_iff secure.claims.complete.keyed).mp isRecord
        have same : row = record :=
          List.inj_on_of_nodup_map secure.claims.complete.keyed isRow found.1
            (isId.trans found.2.symm)
        rw [← same] at live
        dsimp only [ClientRequest.isLive] at live
        rw [isCleared] at live
        cases live

theorem ClientKeyState.Secure.activityRequest (secure : state.Secure)
    (member : request ∈ state.requests)
    {record : ClientCapabilityRecord CapabilityId Verifier UserId Wrapper}
    (isOpened : request.phase = .opened record) {thread : Thread} {now : ℤ} {fails : Bool}
    (taken : state.activityRequest thread request record now fails = some after) :
    after.Secure := by
  have holds : request.holdsLease = true := by
    rw [ClientRequest.holdsLease, isOpened]
  unfold ClientKeyState.activityRequest at taken
  split at taken
  · exact secure.endRequest member holds taken
  · split at taken
    · exact secure.endRequest member holds taken
    · rename_i stores recorded
      cases taken
      simp only [ClientStores.recordClientCapabilityActivity] at recorded
      split at recorded
      · cases recorded
      · cases recorded
        obtain ⟨change, isChange, evolves⟩ := updateRows_eq_map state.stores record.userId
          record.capabilityId (fun row => row.revokedAt.isNone && !row.isExpired now)
          (fun row => { row with lastUsedAt := some now })
          fun row => ⟨rfl, rfl, rfl, rfl, id, .inl⟩
        rw [isChange]
        have changed := secure.map evolves
        refine ClientKeyState.Secure.setRequest changed member holds.symm fun _ => .inl ?_
        rw [ClientRequest.isLive, isOpened]

/-- Each event of a request keeps the invariant. -/
theorem ClientKeyState.Secure.stepRequest (secure : state.Secure) {thread : Thread}
    {event : RequestEvent} (taken : state.stepRequest thread request event = some after) :
    after.Secure := by
  unfold ClientKeyState.stepRequest at taken
  split at taken
  · rename_i member
    split at taken
    · rename_i isIdentified
      exact secure.leaseRequest member isIdentified taken
    · rename_i isLeased
      exact secure.recheckRequest member isLeased taken
    · rename_i record unwraps isRechecked
      have holds : request.holdsLease = true := by
        rw [ClientRequest.holdsLease, isRechecked]
      split at taken
      · rename_i opens
        cases taken
        refine secure.setRequest member holds.symm fun _ => .inl ?_
        rw [ClientRequest.isLive, isRechecked]
        exact opens.1
      · exact secure.endRequest member holds taken
    · rename_i record now fails isOpened
      exact secure.activityRequest member isOpened taken
    · rename_i isRunning
      refine secure.endRequest member ?_ taken
      rw [ClientRequest.holdsLease, isRunning]
    · cases taken
  · cases taken

omit [DecidableEq Wrapper] [DecidableEq Session] [DecidableEq Thread] in
theorem ClientKeyState.Secure.authorize (secure : state.Secure) {verifier : Verifier} {now : ℤ}
    (taken : state.authorize verifier now = some after) : after.Secure := by
  unfold ClientKeyState.authorize at taken
  split at taken
  · cases taken
  · split at taken
    · cases taken
    · cases taken
      refine ⟨⟨secure.leases.consistent, ?_⟩, secure.retires.requests
        (fun _ isShutdown => isShutdown) rfl rfl ?_, secure.claims.congr rfl rfl rfl⟩
      · intro userId id
        dsimp only
        rw [List.countP_cons, if_neg]
        · exact secure.leases.counted userId id
        · exact fun both => Bool.false_ne_true (Bool.and_eq_true_iff.mp both).2
      · intro userId capabilityId _ quiet request member isOf
        rcases List.mem_cons.mp member with rfl | later
        · rfl
        · exact quiet request later isOf

/-! ## Steps of shutdowns -/

variable {shutdown : CapabilityShutdown CapabilityId UserId}

omit [DecidableEq Verifier] [DecidableEq Wrapper] in
theorem ClientKeyState.Secure.lifecycle (secure : state.Secure)
    {step : LifecycleStep CapabilityId Session Thread}
    (taken : state.lifecycle userId step = some after)
    (keeps : ∀ user closes, step.run (state.registry userId) = some (user, closes) →
      ∀ id, user.leases.count (some id) = (state.registry userId).leases.count (some id)) :
    after.Secure := by
  have leases := secure.leases.lifecycle taken keeps
  obtain ⟨user, closes, isRun, rfl⟩ := lifecycle_eq_some taken
  exact ⟨leases, ⟨secure.retires.expiring, secure.retires.cleared, secure.retires.quiet,
    secure.retires.retired⟩, secure.claims.congr rfl rfl rfl⟩

omit [DecidableEq Verifier] [DecidableEq Wrapper] in
theorem ClientKeyState.Secure.endShutdown (secure : state.Secure)
    (taken : state.endShutdown shutdown = some after) : after.Secure := by
  obtain ⟨dropped, isDropped, rfl⟩ := Option.map_eq_some_iff.mp taken
  have unblocked : dropped.Secure := secure.lifecycle isDropped fun user closes isRun id => by
    rw [leases_run isRun]
    · rintro _ ⟨⟩
    · rintro _ _ ⟨⟩
  refine ⟨⟨unblocked.leases.consistent, unblocked.leases.counted⟩, unblocked.retires.requests
    (fun _ isShutdown => List.mem_of_mem_erase isShutdown) rfl rfl fun _ _ _ quiet => quiet,
    unblocked.claims.congr rfl rfl rfl⟩

omit [DecidableEq Verifier] [DecidableEq Wrapper] in
/-- A shutdown has cleared nothing when it begins. -/
theorem ClientKeyState.Secure.beginShutdown (secure : state.Secure) {kind : ShutdownKind}
    (taken : state.beginShutdown userId capabilityId kind = some after) : after.Secure := by
  obtain ⟨seen, taken⟩ := Option.ite_none_right_eq_some.mp taken
  obtain ⟨blocked, isBlocked, rfl⟩ := Option.map_eq_some_iff.mp taken
  have before : blocked.Secure := secure.lifecycle isBlocked fun user closes isRun id => by
    rw [leases_run isRun]
    · rintro _ ⟨⟩
    · rintro _ _ ⟨⟩
  obtain ⟨user, closes, isRun, rfl⟩ := lifecycle_eq_some isBlocked
  refine ⟨⟨before.leases.consistent, before.leases.counted⟩, ⟨?_, ?_, ?_, before.retires.retired⟩,
    before.claims.congr rfl rfl rfl⟩
  · intro shutdown member now isExpiry
    rcases List.mem_cons.mp member with rfl | later
    · dsimp only at isExpiry
      subst isExpiry
      exact of_decide_eq_true seen
    · exact before.retires.expiring shutdown later now isExpiry
  · intro shutdown member isWritten
    rcases List.mem_cons.mp member with rfl | later
    · exact absurd rfl isWritten
    · exact before.retires.cleared shutdown later isWritten
  · intro shutdown member isDrained
    rcases List.mem_cons.mp member with rfl | later
    · cases isDrained
    · exact before.retires.quiet shutdown later isDrained

omit [DecidableEq Verifier] [DecidableEq Wrapper] [DecidableEq Session] [DecidableEq Thread] in
theorem ClientKeyState.Secure.written (secure : state.Secure) (member : shutdown ∈ state.shutdowns)
    (cleared : state.stores.Cleared shutdown.userId shutdown.capabilityId) :
    (state.setShutdown shutdown .written).Secure := by
  refine ⟨⟨secure.leases.consistent, secure.leases.counted⟩, ⟨?_, ?_, ?_, secure.retires.retired⟩,
    secure.claims.congr rfl rfl rfl⟩
  · intro other isOther now isExpiry
    rcases List.mem_cons.mp isOther with rfl | later
    · exact secure.retires.expiring shutdown member now isExpiry
    · exact secure.retires.expiring other (List.mem_of_mem_erase later) now isExpiry
  · intro other isOther isWritten
    rcases List.mem_cons.mp isOther with rfl | later
    · exact cleared
    · exact secure.retires.cleared other (List.mem_of_mem_erase later) isWritten
  · intro other isOther isDrained
    rcases List.mem_cons.mp isOther with rfl | later
    · cases isDrained
    · exact secure.retires.quiet other (List.mem_of_mem_erase later) isDrained

omit [DecidableEq Verifier] [DecidableEq Wrapper] [DecidableEq Session] [DecidableEq Thread] in
/-- A revoked capability has no wrapper. -/
theorem cleared_revoke (complete : state.stores.Complete) {revokedAt : ℤ}
    {result : RevokeClientCapabilityResult}
    {stores : ClientStores CapabilityId Verifier UserId Wrapper}
    (revoked : state.stores.revokeClientCapability userId capabilityId revokedAt =
      some (result, stores)) (found : result ≠ .notFound) :
    stores.Cleared userId capabilityId ∧ ∃ change,
      stores = { state.stores with capabilities := state.stores.capabilities.map change } ∧
        ∀ row, ClientCapabilityRecord.Evolves row (change row) := by
  have changes := updateRows_eq_map state.stores userId capabilityId
    (fun row => row.revokedAt.isNone)
    (fun row => { row with wrappedKey := none, revokedAt := some revokedAt })
    fun row => ⟨rfl, rfl, rfl, rfl, fun _ => rfl, fun _ => .inr rfl⟩
  simp only [ClientStores.revokeClientCapability] at revoked
  split at revoked
  · rename_i updated
    cases revoked
    refine ⟨?_, changes⟩
    have positive := Nat.lt_of_lt_of_eq Nat.zero_lt_one updated.symm
    obtain ⟨row, isRow, selected⟩ := List.countP_pos_iff.mp positive
    refine ⟨_, List.mem_map_of_mem isRow, ?_⟩
    dsimp only
    rw [if_pos selected]
    obtain ⟨isId, isUser⟩ := of_decide_eq_true (Bool.and_eq_true_iff.mp selected).1
    exact ⟨isId, isUser, rfl⟩
  · split at revoked
    · cases revoked
      exact absurd rfl found
    · rename_i row isFound
      split at revoked
      · rename_i wasRevoked
        cases revoked
        refine ⟨?_, changes⟩
        obtain ⟨change, isChange, evolves⟩ := changes
        rw [isChange]
        refine ClientStores.Cleared.map ⟨row, List.mem_of_find?_eq_some isFound, ?_⟩ evolves
        obtain ⟨isId, isUser⟩ := of_decide_eq_true (List.find?_some isFound :)
        exact ⟨isId, isUser, complete.revoked row (List.mem_of_find?_eq_some isFound) wasRevoked⟩
      · cases revoked

omit [DecidableEq Verifier] [DecidableEq Wrapper] [DecidableEq Session] [DecidableEq Thread] in
/-- Nor has an expired one once it is cleared. -/
theorem cleared_clearExpired (complete : state.stores.Complete) {now : ℤ}
    (expired : ∃ row ∈ state.stores.capabilities, row.capabilityId = capabilityId ∧
      row.userId = userId ∧ row.isExpired now) :
    (state.stores.clearExpiredClientCapabilityWrap userId capabilityId now).2.Cleared userId
        capabilityId ∧ ∃ change,
      (state.stores.clearExpiredClientCapabilityWrap userId capabilityId now).2 =
          { state.stores with capabilities := state.stores.capabilities.map change } ∧
        ∀ row, ClientCapabilityRecord.Evolves row (change row) := by
  have changes := updateRows_eq_map state.stores userId capabilityId
    (fun row => row.revokedAt.isNone && row.wrappedKey.isSome && row.isExpired now)
    (fun row => { row with wrappedKey := none })
    fun row => ⟨rfl, rfl, rfl, rfl, fun _ => rfl, .inl⟩
  refine ⟨?_, changes⟩
  obtain ⟨row, isRow, isId, isUser, isExpired⟩ := expired
  cases isKey : row.wrappedKey with
  | none =>
    obtain ⟨change, isChange, evolves⟩ := changes
    rw [ClientStores.clearExpiredClientCapabilityWrap]
    dsimp only
    rw [isChange]
    exact ClientStores.Cleared.map ⟨row, isRow, isId, isUser, isKey⟩ evolves
  | some key =>
    have unrevoked : row.revokedAt.isNone := by
      cases isRevoked : row.revokedAt with
      | none => rfl
      | some revokedAt =>
        have isCleared := complete.revoked row isRow (isRevoked ▸ rfl)
        rw [isKey] at isCleared
        cases isCleared
    refine ⟨_, List.mem_map_of_mem isRow, ?_⟩
    dsimp only
    rw [if_pos]
    · exact ⟨isId, isUser, rfl⟩
    · simp [isId, isUser, unrevoked, isKey, isExpired]

omit [DecidableEq Verifier] [DecidableEq Wrapper] in
/-- A shutdown clears the wrapper before it waits for the requests. -/
theorem ClientKeyState.Secure.writeShutdown (secure : state.Secure)
    (member : shutdown ∈ state.shutdowns) {fails : Bool}
    (taken : state.writeShutdown shutdown fails = some after) : after.Secure := by
  unfold ClientKeyState.writeShutdown at taken
  split at taken
  · exact secure.endShutdown taken
  · split at taken
    · split at taken
      · exact secure.endShutdown taken
      · exact secure.endShutdown taken
      · rename_i result stores found revoked
        cases taken
        obtain ⟨cleared, change, rfl, evolves⟩ := cleared_revoke secure.claims.complete revoked
          found
        exact ClientKeyState.Secure.written (secure.map evolves) member cleared
    · rename_i now isExpiry
      cases taken
      obtain ⟨cleared, change, isChange, evolves⟩ := cleared_clearExpired secure.claims.complete
        (secure.retires.expiring shutdown member now isExpiry)
      rw [isChange] at cleared ⊢
      exact ClientKeyState.Secure.written (secure.map evolves) member cleared

omit [DecidableEq Verifier] [DecidableEq Wrapper] in
/-- A shutdown has waited for each request that holds a lease. -/
theorem ClientKeyState.Secure.waitShutdown (secure : state.Secure)
    (member : shutdown ∈ state.shutdowns) (isWritten : shutdown.phase = .written)
    {waited : ClientKeyState CapabilityId Verifier UserId Dek Wrapper Session Thread}
    (isWaited : state.lifecycle shutdown.userId (.waitForRequests shutdown.capabilityId) =
      some waited) : (waited.setShutdown shutdown .drained).Secure := by
  have before : waited.Secure := secure.lifecycle isWaited fun user closes isRun id => by
    rw [leases_run isRun]
    · rintro _ ⟨⟩
    · rintro _ _ ⟨⟩
  obtain ⟨user, closes, isRun, rfl⟩ := lifecycle_eq_some isWaited
  have isQuiet : Quiet state.requests shutdown.userId shutdown.capabilityId := by
    have none := leases_waitForRequests (secure.leases.consistent _) isRun
    rw [secure.leases.counted, List.countP_eq_zero] at none
    intro request isRequest isOf
    have unleased := none request isRequest
    rw [isOf, Bool.true_and] at unleased
    unfold ClientRequest.holdsLease at unleased
    unfold ClientRequest.isLive
    split at unleased
    · rename_i isIdentified
      rw [isIdentified]
    · exact absurd rfl unleased
  refine ⟨⟨before.leases.consistent, before.leases.counted⟩, ⟨?_, ?_, ?_, before.retires.retired⟩,
    before.claims.congr rfl rfl rfl⟩
  · intro other isOther now isExpiry
    rcases List.mem_cons.mp isOther with rfl | later
    · exact secure.retires.expiring shutdown member now isExpiry
    · exact secure.retires.expiring other (List.mem_of_mem_erase later) now isExpiry
  · intro other isOther otherWritten
    rcases List.mem_cons.mp isOther with rfl | later
    · refine secure.retires.cleared shutdown member ?_
      rw [isWritten]
      exact ShutdownPhase.noConfusion
    · exact secure.retires.cleared other (List.mem_of_mem_erase later) otherWritten
  · intro other isOther isDrained
    rcases List.mem_cons.mp isOther with rfl | later
    · exact isQuiet
    · exact secure.retires.quiet other (List.mem_of_mem_erase later) isDrained

omit [DecidableEq Verifier] [DecidableEq Wrapper] in
theorem ClientKeyState.Secure.finishShutdown (secure : state.Secure)
    (member : shutdown ∈ state.shutdowns) (isDrained : shutdown.phase = .drained)
    {ended : ClientKeyState CapabilityId Verifier UserId Dek Wrapper Session Thread}
    (isEnded : state.endShutdown shutdown = some ended) :
    ({ ended with retired := (shutdown.userId, shutdown.capabilityId) :: ended.retired } :
      ClientKeyState CapabilityId Verifier UserId Dek Wrapper Session Thread).Secure := by
  have before := secure.endShutdown isEnded
  obtain ⟨dropped, isDropped, rfl⟩ := Option.map_eq_some_iff.mp isEnded
  obtain ⟨user, closes, isRun, rfl⟩ := lifecycle_eq_some isDropped
  refine ⟨⟨before.leases.consistent, before.leases.counted⟩, ⟨before.retires.expiring,
    before.retires.cleared, before.retires.quiet, ?_⟩, before.claims.congr rfl rfl rfl⟩
  intro pair isPair
  rcases List.mem_cons.mp isPair with rfl | later
  · refine ⟨secure.retires.cleared shutdown member ?_, secure.retires.quiet shutdown member
      isDrained⟩
    rw [isDrained]
    exact ShutdownPhase.noConfusion
  · exact before.retires.retired pair later

/-! ## Steps of claims -/

omit [DecidableEq Wrapper] [DecidableEq Session] [DecidableEq Thread] in
/-- An activation writes for the capability it has claimed. -/
theorem ClientKeyState.Secure.advance (secure : state.Secure)
    {activation : Activation CapabilityId Verifier UserId Dek Wrapper}
    (isActivation : state.activation = some activation) (fails : Bool) :
    ({ state with
      activation := (activation.advance state.stores fails).1
      stores := (activation.advance state.stores fails).2 } :
        ClientKeyState CapabilityId Verifier UserId Dek Wrapper Session Thread).Secure := by
  obtain ⟨isClaim, prepared⟩ := secure.claims.activation activation isActivation
  obtain ⟨complete, next, rows⟩ := prepared.advance secure.claims.complete fails
  refine ⟨⟨secure.leases.consistent, secure.leases.counted⟩, ?_, ⟨complete, ?_, ?_⟩⟩
  · refine secure.retires.mono (fun _ isShutdown => isShutdown) rfl ?_ ?_
      fun _ _ _ quiet => quiet
    · intro row member
      refine ⟨row, ?_, rfl, rfl, rfl⟩
      rcases rows with same | added
      · exact same ▸ member
      · exact added ▸ List.mem_append_left _ member
    · exact fun _ _ cleared => cleared.append rows
  · intro row member
    rcases rows with same | added
    · exact secure.claims.claimed row (same ▸ member)
    · rcases List.mem_append.mp (added ▸ member) with isOld | isNew
      · exact secure.claims.claimed row isOld
      · rw [List.mem_singleton.mp isNew]
        exact ⟨activation.claim, isClaim, rfl, rfl⟩
  · intro other isOther
    obtain ⟨sameClaim, otherPrepared⟩ := next other isOther
    exact ⟨sameClaim ▸ isClaim, otherPrepared⟩

omit [DecidableEq Verifier] [DecidableEq Wrapper] [DecidableEq Session] [DecidableEq Thread] in
theorem ClientKeyState.Secure.openDatabase (secure : state.Secure)
    (unclaimed : ¬ ∃ activation ∈ state.activation, activation.claim.userId = userId) :
    ({ state with stores := state.stores.removeOrphanPairedClientNames userId } :
        ClientKeyState CapabilityId Verifier UserId Dek Wrapper Session Thread).Secure := by
  refine ⟨⟨secure.leases.consistent, secure.leases.counted⟩, ?_,
    ⟨secure.claims.complete.removeOrphanPairedClientNames, secure.claims.claimed, ?_⟩⟩
  · refine secure.retires.mono (fun _ isShutdown => isShutdown) rfl ?_ ?_
      fun _ _ _ quiet => quiet
    · exact fun row member => ⟨row, member, rfl, rfl, rfl⟩
    · exact fun _ _ cleared => cleared
  · intro activation isActivation
    obtain ⟨isClaim, prepared⟩ := secure.claims.activation activation isActivation
    refine ⟨isClaim, prepared.absent, fun isInserting => ?_⟩
    dsimp only [ClientStores.removeOrphanPairedClientNames]
    rw [if_neg]
    · exact prepared.named isInserting
    · exact fun orphan => unclaimed ⟨activation, isActivation, orphan.1⟩

/-- Every step keeps the invariant. -/
theorem ClientKeyState.Secure.run (secure : state.Secure)
    {step : ClientKeyStep CapabilityId Verifier UserId Dek Wrapper Session Thread}
    (taken : state.run step = some after) : after.Secure := by
  cases step with
  | activate claim verifier now wrapper =>
    simp only [ClientKeyState.run] at taken
    split at taken
    · cases taken
    · cases taken
      refine ⟨⟨secure.leases.consistent, secure.leases.counted⟩, ⟨secure.retires.expiring,
        secure.retires.cleared, secure.retires.quiet, secure.retires.retired⟩,
        ⟨secure.claims.complete, ?_, ?_⟩⟩
      · intro row member
        obtain ⟨found, isFound, same⟩ := secure.claims.claimed row member
        exact ⟨found, List.mem_cons_of_mem _ isFound, same⟩
      · rintro activation ⟨⟩
        refine ⟨List.mem_cons_self, ?_, ?_⟩
        · exact fun begun => absurd rfl begun
        · exact fun isInserting => nomatch isInserting
  | advance fails =>
    simp only [ClientKeyState.run] at taken
    split at taken
    · cases taken
    · rename_i activation isActivation
      cases taken
      exact secure.advance isActivation fails
  | openDatabase userId =>
    obtain ⟨unclaimed, taken⟩ := Option.ite_none_left_eq_some.mp taken
    cases taken
    exact secure.openDatabase unclaimed
  | authorize verifier now => exact secure.authorize taken
  | request thread request event => exact secure.stepRequest taken
  | beginShutdown userId capabilityId kind => exact secure.beginShutdown taken
  | writeShutdown shutdown fails =>
    obtain ⟨isBegun, taken⟩ := Option.ite_none_right_eq_some.mp taken
    exact secure.writeShutdown isBegun.1 taken
  | waitShutdown shutdown =>
    obtain ⟨isWritten, taken⟩ := Option.ite_none_right_eq_some.mp taken
    obtain ⟨waited, isWaited, rfl⟩ := Option.map_eq_some_iff.mp taken
    exact secure.waitShutdown isWritten.1 isWritten.2 isWaited
  | finishShutdown shutdown =>
    obtain ⟨isDrained, taken⟩ := Option.ite_none_right_eq_some.mp taken
    obtain ⟨ended, isEnded, rfl⟩ := Option.map_eq_some_iff.mp taken
    exact secure.finishShutdown isDrained.1 isDrained.2 isEnded
  | lifecycle userId step =>
    obtain ⟨isSession, taken⟩ := Option.ite_none_right_eq_some.mp taken
    exact secure.lifecycle taken fun user closes isRun id =>
      count_leases_session isRun isSession id
  | crash =>
    cases taken
    refine ⟨⟨fun _ => UserLifecycle.consistent_empty, fun _ _ => rfl⟩, ⟨?_, ?_, ?_, ?_⟩,
      ⟨secure.claims.complete, secure.claims.claimed, ?_⟩⟩
    · exact fun _ member => absurd member List.not_mem_nil
    · exact fun _ member => absurd member List.not_mem_nil
    · exact fun _ member => absurd member List.not_mem_nil
    · intro pair isPair
      refine ⟨(secure.retires.retired pair isPair).1, ?_⟩
      exact fun _ member => absurd member List.not_mem_nil
    · intro activation isActivation
      cases isActivation

/-! ## Safety -/

/-- At most one row has an id, a user who claimed the pairing has it, all clients of a user can be
listed, and a capability whose shutdown has returned has no wrapped key and no live request. -/
structure ClientKeyState.Safe
    (state : ClientKeyState CapabilityId Verifier UserId Dek Wrapper Session Thread) : Prop where
  single : (state.stores.capabilities.map (·.capabilityId)).Nodup
  claimed : ∀ row ∈ state.stores.capabilities, ∃ claim ∈ state.claims,
    claim.capabilityId = row.capabilityId ∧ claim.userId = row.userId
  named : ∀ row ∈ state.stores.capabilities,
    (state.stores.names row.userId row.capabilityId).isSome
  listed : ∀ userId, (state.stores.listPairedClients userId).isSome
  cleared : ∀ pair ∈ state.retired, ∀ row ∈ state.stores.capabilities,
    row.userId = pair.1 → row.capabilityId = pair.2 → row.wrappedKey = none
  unauthorized : ∀ pair ∈ state.retired, ∀ request ∈ state.requests,
    request.userId = pair.1 → request.capabilityId = pair.2 →
      request.phase ≠ .running ∧ ∀ record, request.phase ≠ .opened record

omit [DecidableEq Verifier] [DecidableEq Wrapper] [DecidableEq Session] [DecidableEq Thread] in
/-- The invariant implies what is promised. -/
theorem ClientKeyState.Secure.safe (secure : state.Secure) : state.Safe := by
  refine ⟨secure.claims.complete.keyed, secure.claims.claimed, secure.claims.complete.named,
    secure.claims.complete.listPairedClients, ?_, ?_⟩
  · intro pair isPair row isRow _ isId
    obtain ⟨other, isOther, otherId, _, isCleared⟩ := (secure.retires.retired pair isPair).1
    have same : row = other :=
      List.inj_on_of_nodup_map secure.claims.complete.keyed isRow isOther
        (isId.trans otherId.symm)
    rw [same]
    exact isCleared
  · intro pair isPair request isRequest isUser isId
    have dead := (secure.retires.retired pair isPair).2 request isRequest
      (decide_eq_true ⟨isUser, isId⟩)
    unfold ClientRequest.isLive at dead
    refine ⟨?_, ?_⟩
    · intro isRunning
      rw [isRunning] at dead
      cases dead
    · intro record isOpened
      rw [isOpened] at dead
      cases dead

/-- Whatever claims, requests, revocations, expiries and crashes interleave, with any database
call failing. -/
theorem client_keys_safe
    (reached : Reached (fun step before after => ClientKeyState.run before step = some after)
      (fun _ _ => True) {} state) : state.Safe := by
  have secure : state.Secure := by
    refine @Reached.invariant _ _ _ _ _ _ reached (fun state => state.Secure) secure_empty ?_
    exact fun step before after before' _ taken => before'.run taken
  exact secure.safe

end Requests

/-- A client is paired, its request is authorised, and its capability is revoked meanwhile. -/
def revokedClient : List (ClientKeyStep ℕ ℕ ℕ ℕ ℕ ℕ ℕ) :=
  let running : ClientRequest ℕ ℕ ℕ ℕ :=
    { userId := 3, capabilityId := 7, verifier := 11, phase := .identified }
  let row : ClientCapabilityRecord ℕ ℕ ℕ ℕ :=
    ⟨7, 3, 11, some 5, .balancesRead, 100, none, none, none⟩
  let shutdown : CapabilityShutdown ℕ ℕ :=
    { userId := 3, capabilityId := 7, kind := .revoke 120, phase := .begun }
  [.activate ⟨7, 3, some 9, "laptop", .balancesRead, none⟩ 11 100 (some 5),
    .advance false, .advance false, .advance false, .advance false,
    .authorize 11 110, .request 0 running .lease,
    .beginShutdown 3 7 (.revoke 120),
    .request 0 { running with phase := .leased } (.recheck 111 false),
    .writeShutdown shutdown false,
    .request 0 { running with phase := .rechecked row } (.open true),
    .request 0 { running with phase := .opened row } (.activity 121 false),
    .waitShutdown { shutdown with phase := .written },
    .finishShutdown { shutdown with phase := .drained }]

theorem client_keys_safe_revokedClient :
    ∃ state : ClientKeyState ℕ ℕ ℕ ℕ ℕ ℕ ℕ, state.Safe ∧ state.retired = [(3, 7)] ∧
    state.requests = [] ∧ state.stores.capabilities =
      [⟨7, 3, 11, none, .balancesRead, 100, none, none, some 120⟩] := by
  refine ⟨_, client_keys_safe (Reached.foldlM revokedClient .start (fun _ _ _ => trivial) rfl),
    rfl, rfl, rfl⟩

end Bitgarth.Auth
