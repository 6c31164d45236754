import Mathlib.Data.Finmap
import Mathlib.Logic.Function.Basic
import Bitgarth.Foundation.Reachability

/-! # The lifecycle registry

Requests of a user hold leases, and logins and deletions an exclusive guard; the shutdown of a
client capability blocks the requests of that capability. The registry keeps one entry per user,
removes it when it is idle, and closes the user's database with the last lease or pinned session.
`lifecycle_safe` is what holds in every interleaving of the critical sections.
-/

namespace Bitgarth.Auth

open Reachability

section Entries

variable (Capability Session : Type) [DecidableEq Capability] [DecidableEq Session]

structure UserLifecycleState where
  exclusiveUser : Bool := false
  blockedCapabilities : Finset Capability := ∅
  activeRequests : ℕ := 0
  activeByCapability : Finmap fun _ : Capability => ℕ := ∅
  browserSessions : Finset Session := ∅
deriving DecidableEq

/-- The entry of one user with the values that are outstanding: the leases by their capability,
the threads that wait for the last lease inside `acquire_user_lifecycle_lock`, the threads that
hold its guard, and the shutdown guards before and after `wait_for_requests` has returned. -/
structure UserLifecycle (Thread : Type) where
  state : Option (UserLifecycleState Capability Session) := none
  leases : List (Option Capability) := []
  acquiring : List Thread := []
  guards : List Thread := []
  begun : List Capability := []
  drained : List Capability := []

/-- A critical section of the registry for one user, or the wake-up of a waiting one. -/
inductive LifecycleStep (Thread : Type) where
  | acquireRequest (capabilityId : Option Capability)
  | dropRequest (thread : Thread) (capabilityId : Option Capability)
  | acquireUserLifecycleLock (thread : Thread)
  | resumeUserLifecycleLock (thread : Thread)
  | dropUserLifecycleGuard (thread : Thread)
  | pinBrowserSession (sessionId : Session)
  | unpinBrowserSession (thread : Thread) (sessionId : Session)
  | clearBrowserSessions (thread : Thread)
  | beginCapabilityShutdown (capabilityId : Capability)
  | waitForRequests (capabilityId : Capability)
  | dropCapabilityShutdown (capabilityId : Capability)

end Entries

section Operations

variable {Capability Session Thread : Type} [DecidableEq Capability] [DecidableEq Session]
  [DecidableEq Thread]

namespace UserLifecycleState

def isIdle (state : UserLifecycleState Capability Session) : Bool :=
  !state.exclusiveUser && state.blockedCapabilities = ∅ && state.activeRequests = 0 &&
    state.activeByCapability = ∅ && state.browserSessions = ∅

/-- An idle entry is removed. -/
def kept (state : UserLifecycleState Capability Session) :
    Option (UserLifecycleState Capability Session) :=
  if state.isIdle then none else some state

def shouldClose (state : UserLifecycleState Capability Session) : Bool :=
  state.activeRequests = 0 && state.browserSessions = ∅

def addRequest (state : UserLifecycleState Capability Session) (capabilityId : Option Capability) :
    UserLifecycleState Capability Session :=
  { state with
    activeRequests := state.activeRequests + 1
    activeByCapability :=
      match capabilityId with
      | none => state.activeByCapability
      | some id =>
        state.activeByCapability.insert id ((state.activeByCapability.lookup id).getD 0 + 1) }

/-- The counts after a drop. Both subtractions saturate. -/
def removeRequest (state : UserLifecycleState Capability Session)
    (capabilityId : Option Capability) : UserLifecycleState Capability Session :=
  { state with
    activeRequests := state.activeRequests - 1
    activeByCapability :=
      match capabilityId with
      | none => state.activeByCapability
      | some id =>
        match state.activeByCapability.lookup id with
        | none => state.activeByCapability
        | some active =>
          if active - 1 = 0 then state.activeByCapability.erase id
          else state.activeByCapability.insert id (active - 1) }

variable {state : UserLifecycleState Capability Session}

theorem isIdle_iff : state.isIdle = true ↔ state = {} := by
  obtain ⟨exclusiveUser, blockedCapabilities, activeRequests, activeByCapability,
    browserSessions⟩ := state
  simp [isIdle, and_assoc]

@[simp]
theorem getD_kept : state.kept.getD {} = state := by
  unfold kept
  split
  · rename_i idle
    exact (isIdle_iff.mp idle).symm
  · rfl

omit [DecidableEq Capability] in
theorem shouldClose_iff :
    state.shouldClose = true ↔ state.activeRequests = 0 ∧ state.browserSessions = ∅ := by
  simp [shouldClose]

omit [DecidableEq Session] in
theorem lookup_addRequest (capabilityId : Option Capability) (id : Capability) :
    (state.addRequest capabilityId).activeByCapability.lookup id =
      if capabilityId = some id then some ((state.activeByCapability.lookup id).getD 0 + 1)
      else state.activeByCapability.lookup id := by
  cases capabilityId with
  | none => rfl
  | some other =>
    by_cases same : other = id
    · subst same
      rw [if_pos rfl]
      exact Finmap.lookup_insert _
    · rw [if_neg (by simpa using same)]
      exact Finmap.lookup_insert_of_ne _ (Ne.symm same)

omit [DecidableEq Session] in
theorem lookup_removeRequest (capabilityId : Option Capability) (id : Capability) :
    (state.removeRequest capabilityId).activeByCapability.lookup id =
      if capabilityId = some id then
        (state.activeByCapability.lookup id).bind fun active =>
          if active - 1 = 0 then none else some (active - 1)
      else state.activeByCapability.lookup id := by
  cases capabilityId with
  | none => rfl
  | some other =>
    dsimp only [removeRequest]
    by_cases same : other = id
    · subst same
      rw [if_pos rfl]
      cases found : state.activeByCapability.lookup other with
      | none => simpa using found
      | some active =>
        dsimp only [Option.bind_some]
        split
        · exact Finmap.lookup_erase _ _
        · exact Finmap.lookup_insert _
    · rw [if_neg (by simpa using same)]
      cases found : state.activeByCapability.lookup other with
      | none => rfl
      | some active =>
        dsimp only
        split
        · exact Finmap.lookup_erase_ne (Ne.symm same)
        · exact Finmap.lookup_insert_of_ne _ (Ne.symm same)

end UserLifecycleState

namespace UserLifecycle

/-- What `entry(user_id).or_default()` finds. -/
def entry (user : UserLifecycle Capability Session Thread) :
    UserLifecycleState Capability Session :=
  user.state.getD {}

theorem getD_bind_kept {state : Option (UserLifecycleState Capability Session)}
    (update : UserLifecycleState Capability Session → UserLifecycleState Capability Session)
    (absent : update {} = {}) :
    (state.bind fun state => (update state).kept).getD {} = update (state.getD {}) := by
  cases state with
  | none => exact absent.symm
  | some state => exact UserLifecycleState.getD_kept

omit [DecidableEq Capability] [DecidableEq Session] in
theorem getD_map {state : Option (UserLifecycleState Capability Session)}
    (update : UserLifecycleState Capability Session → UserLifecycleState Capability Session)
    (absent : update {} = {}) : (state.map update).getD {} = update (state.getD {}) := by
  cases state with
  | none => exact absent.symm
  | some state => rfl

/-- The entry counts what is outstanding. A guard that has been returned excludes leases, and a
shutdown whose wait has returned those of its capability. -/
structure Consistent (user : UserLifecycle Capability Session Thread) : Prop where
  requests : user.entry.activeRequests = user.leases.length
  capabilities : ∀ id, user.entry.activeByCapability.lookup id =
    if user.leases.count (some id) = 0 then none else some (user.leases.count (some id))
  exclusive : user.acquiring.length + user.guards.length = user.entry.exclusiveUser.toNat
  blocked : ∀ id, user.begun.count id + user.drained.count id =
    if id ∈ user.entry.blockedCapabilities then 1 else 0
  guarded : user.guards ≠ [] → user.leases = []
  quiet : ∀ id ∈ user.drained, some id ∉ user.leases

variable {user : UserLifecycle Capability Session Thread}

omit [DecidableEq Session] [DecidableEq Thread] in
theorem Consistent.lookup_getD (consistent : user.Consistent) (id : Capability) :
    (user.entry.activeByCapability.lookup id).getD 0 = user.leases.count (some id) := by
  rw [consistent.capabilities id]
  split
  · rename_i none
    exact none.symm
  · rfl

omit [DecidableEq Session] [DecidableEq Thread] in
theorem Consistent.exclusiveUser (consistent : user.Consistent) (guarded : user.guards ≠ []) :
    user.entry.exclusiveUser = true := by
  by_contra free
  have count := consistent.exclusive
  rw [Bool.not_eq_true _ |>.mp free, Bool.toNat_false] at count
  exact guarded (List.length_eq_zero_iff.mp (Nat.add_eq_zero_iff.mp count).2)

omit [DecidableEq Session] [DecidableEq Thread] in
theorem Consistent.blocked_of_mem (consistent : user.Consistent) {id : Capability}
    (member : id ∈ user.begun ∨ id ∈ user.drained) : id ∈ user.entry.blockedCapabilities := by
  by_contra unblocked
  have count := consistent.blocked id
  rw [if_neg unblocked, Nat.add_eq_zero_iff, List.count_eq_zero, List.count_eq_zero] at count
  rcases member with member | member
  · exact count.1 member
  · exact count.2 member

end UserLifecycle

/-- What a step leaves, and whether it calls `close_user_db`. It cannot be taken by a thread that
waits on the condition variable, or without the lease or guard that it needs. -/
def LifecycleStep.run (user : UserLifecycle Capability Session Thread) :
    LifecycleStep Capability Session Thread →
      Option (UserLifecycle Capability Session Thread × Bool)
  | acquireRequest capabilityId =>
    let state := user.entry
    if state.exclusiveUser ∨ ∃ id ∈ capabilityId, id ∈ state.blockedCapabilities then
      some ({ user with state := some state }, false)
    else
      some ({ user with
        state := some (state.addRequest capabilityId)
        leases := capabilityId :: user.leases }, false)
  | dropRequest _ capabilityId =>
    if capabilityId ∈ user.leases then
      let leases := user.leases.erase capabilityId
      match user.state with
      | none => some ({ user with leases }, false)
      | some state =>
        let state := state.removeRequest capabilityId
        some ({ user with state := state.kept, leases }, state.shouldClose)
    else none
  | acquireUserLifecycleLock thread =>
    let state := user.entry
    if !state.exclusiveUser ∧ state.blockedCapabilities = ∅ then
      let user := { user with state := some { state with exclusiveUser := true } }
      if 0 < state.activeRequests then
        some ({ user with acquiring := thread :: user.acquiring }, false)
      else
        some ({ user with guards := thread :: user.guards }, false)
    else none
  | resumeUserLifecycleLock thread =>
    if thread ∈ user.acquiring then
      if 0 < user.entry.activeRequests then none
      else some ({ user with
        acquiring := user.acquiring.erase thread
        guards := thread :: user.guards }, false)
    else none
  | dropUserLifecycleGuard thread =>
    if thread ∈ user.guards then
      some ({ user with
        state := user.state.bind fun state => { state with exclusiveUser := false }.kept
        guards := user.guards.erase thread }, false)
    else none
  | pinBrowserSession sessionId =>
    let state := user.entry
    some ({ user with
      state := some { state with
        browserSessions := insert sessionId state.browserSessions } }, false)
  | unpinBrowserSession _ sessionId =>
    match user.state with
    | none => some (user, false)
    | some state =>
      let state := { state with browserSessions := state.browserSessions.erase sessionId }
      some ({ user with state := state.kept }, state.shouldClose)
  | clearBrowserSessions thread =>
    if thread ∈ user.guards then
      some ({ user with
        state := user.state.map fun state => { state with browserSessions := ∅ } }, false)
    else none
  | beginCapabilityShutdown capabilityId =>
    let state := user.entry
    if !state.exclusiveUser ∧ capabilityId ∉ state.blockedCapabilities then
      some ({ user with
        state := some { state with
          blockedCapabilities := insert capabilityId state.blockedCapabilities }
        begun := capabilityId :: user.begun }, false)
    else none
  | waitForRequests capabilityId =>
    if capabilityId ∈ user.begun ++ user.drained then
      if 0 < (user.entry.activeByCapability.lookup capabilityId).getD 0 then none
      else some ({ user with
        begun := user.begun.erase capabilityId
        drained := capabilityId :: user.drained.erase capabilityId }, false)
    else none
  | dropCapabilityShutdown capabilityId =>
    if capabilityId ∈ user.begun ++ user.drained then
      some ({ user with
        state := user.state.bind fun state => { state with
          blockedCapabilities := state.blockedCapabilities.erase capabilityId }.kept
        begun := user.begun.erase capabilityId
        drained := user.drained.erase capabilityId }, false)
    else none

end Operations

section Steps

variable {Capability Session Thread : Type} [DecidableEq Capability]
  {user after : UserLifecycle Capability Session Thread}
  {step : LifecycleStep Capability Session Thread} {closes : Bool}

namespace UserLifecycle

theorem consistent_empty : Consistent ({} : UserLifecycle Capability Session Thread) := by
  refine ⟨rfl, fun _ => rfl, rfl, fun _ => rfl, fun _ => rfl, ?_⟩
  intro id member
  cases member

theorem Consistent.acquire (consistent : user.Consistent) {capabilityId : Option Capability}
    (granted : ¬ (user.entry.exclusiveUser ∨
      ∃ id ∈ capabilityId, id ∈ user.entry.blockedCapabilities)) :
    Consistent { user with
      state := some (user.entry.addRequest capabilityId)
      leases := capabilityId :: user.leases } := by
  obtain ⟨free, unblocked⟩ := not_or.mp granted
  refine ⟨?_, ?_, consistent.exclusive, consistent.blocked, ?_, ?_⟩
  · exact congrArg (· + 1) consistent.requests
  · intro id
    refine (UserLifecycleState.lookup_addRequest capabilityId id).trans ?_
    dsimp only
    by_cases same : capabilityId = some id
    · subst same
      rw [if_pos rfl, consistent.lookup_getD, List.count_cons_self, if_neg (Nat.succ_ne_zero _)]
    · rw [if_neg same, consistent.capabilities, List.count_cons_of_ne same]
  · intro guarded
    exact absurd (consistent.exclusiveUser guarded) free
  · intro id member
    rw [List.mem_cons, not_or]
    refine ⟨?_, consistent.quiet id member⟩
    rintro rfl
    exact unblocked ⟨id, rfl, consistent.blocked_of_mem (.inr member)⟩

theorem Consistent.drop (consistent : user.Consistent) {capabilityId : Option Capability}
    (held : capabilityId ∈ user.leases) {state : Option (UserLifecycleState Capability Session)}
    (removed : state.getD {} = user.entry.removeRequest capabilityId) :
    Consistent { user with state, leases := user.leases.erase capabilityId } := by
  have entry : ({ user with state, leases := user.leases.erase capabilityId } :
      UserLifecycle Capability Session Thread).entry = user.entry.removeRequest capabilityId :=
    removed
  refine ⟨?_, ?_, ?_, ?_, ?_, ?_⟩
  · rw [entry]
    dsimp only [UserLifecycleState.removeRequest]
    rw [consistent.requests, List.length_erase_of_mem held]
  · intro id
    rw [entry, UserLifecycleState.lookup_removeRequest, consistent.capabilities]
    dsimp only
    by_cases same : capabilityId = some id
    · subst same
      have counted : user.leases.count (some id) ≠ 0 :=
        Nat.pos_iff_ne_zero.mp (List.count_pos_iff.mpr held)
      rw [if_pos rfl, if_neg counted, List.count_erase_self, Option.bind_some]
    · rw [if_neg same, List.count_erase_of_ne (Ne.symm same)]
  · rw [entry]
    exact consistent.exclusive
  · intro id
    rw [entry]
    exact consistent.blocked id
  · intro guarded
    dsimp only
    rw [consistent.guarded guarded, List.erase_nil]
  · intro id member kept
    exact consistent.quiet id member (List.mem_of_mem_erase kept)

theorem Consistent.sessions (consistent : user.Consistent)
    {state : Option (UserLifecycleState Capability Session)} (browserSessions : Finset Session)
    (changed : state.getD {} = { user.entry with browserSessions }) :
    Consistent { user with state } := by
  have entry : ({ user with state } : UserLifecycle Capability Session Thread).entry =
    { user.entry with browserSessions } := changed
  refine ⟨?_, ?_, ?_, ?_, consistent.guarded, consistent.quiet⟩
  · rw [entry]
    exact consistent.requests
  · intro id
    rw [entry]
    exact consistent.capabilities id
  · rw [entry]
    exact consistent.exclusive
  · intro id
    rw [entry]
    exact consistent.blocked id

theorem Consistent.lock (consistent : user.Consistent) (free : user.entry.exclusiveUser = false)
    {acquiring guards : List Thread}
    (joins : acquiring.length + guards.length = user.acquiring.length + user.guards.length + 1)
    (waits : guards ≠ [] → user.leases = []) :
    Consistent { user with
      state := some { user.entry with exclusiveUser := true }, acquiring, guards } := by
  refine ⟨consistent.requests, consistent.capabilities, ?_, consistent.blocked, waits,
    consistent.quiet⟩
  have count := consistent.exclusive
  rw [free, Bool.toNat_false] at count
  dsimp only [entry]
  rw [joins, count]
  rfl

theorem Consistent.block (consistent : user.Consistent) {capabilityId : Capability}
    (unblocked : capabilityId ∉ user.entry.blockedCapabilities) :
    Consistent { user with
      state := some { user.entry with
        blockedCapabilities := insert capabilityId user.entry.blockedCapabilities }
      begun := capabilityId :: user.begun } := by
  refine ⟨consistent.requests, consistent.capabilities, consistent.exclusive, ?_,
    consistent.guarded, consistent.quiet⟩
  intro id
  have count := consistent.blocked id
  by_cases same : id = capabilityId
  · subst same
    rw [if_neg unblocked] at count
    refine Eq.trans ?_ (if_pos (Finset.mem_insert_self _ _)).symm
    dsimp only
    rw [List.count_cons_self]
    omega
  · dsimp only
    rw [List.count_cons_of_ne (Ne.symm same), count]
    refine if_congr ?_ rfl rfl
    exact (Finset.mem_insert.trans (or_iff_right same)).symm

theorem Consistent.wait (consistent : user.Consistent) {capabilityId : Capability}
    (member : capabilityId ∈ user.begun ++ user.drained)
    (idle : ¬ 0 < (user.entry.activeByCapability.lookup capabilityId).getD 0) :
    Consistent { user with
      begun := user.begun.erase capabilityId
      drained := capabilityId :: user.drained.erase capabilityId } := by
  refine ⟨consistent.requests, consistent.capabilities, consistent.exclusive, ?_,
    consistent.guarded, ?_⟩
  · intro id
    have count := consistent.blocked id
    dsimp only
    by_cases same : id = capabilityId
    · subst same
      have isBlocked := consistent.blocked_of_mem (List.mem_append.mp member)
      rw [if_pos isBlocked] at count
      refine Eq.trans ?_ (if_pos isBlocked).symm
      rw [List.count_cons_self, List.count_erase_self, List.count_erase_self]
      omega
    · rw [List.count_cons_of_ne (Ne.symm same), List.count_erase_of_ne same,
        List.count_erase_of_ne same]
      exact count
  · intro id isDrained
    rcases List.mem_cons.mp isDrained with rfl | isDrained
    · rw [consistent.lookup_getD, Nat.pos_iff_ne_zero, not_not] at idle
      exact List.count_eq_zero.mp idle
    · exact consistent.quiet id (List.mem_of_mem_erase isDrained)

theorem Consistent.unblock (consistent : user.Consistent) {capabilityId : Capability}
    (member : capabilityId ∈ user.begun ++ user.drained)
    {state : Option (UserLifecycleState Capability Session)}
    (changed : state.getD {} = { user.entry with
      blockedCapabilities := user.entry.blockedCapabilities.erase capabilityId }) :
    Consistent { user with
      state
      begun := user.begun.erase capabilityId
      drained := user.drained.erase capabilityId } := by
  have entry : ({ user with
      state
      begun := user.begun.erase capabilityId
      drained := user.drained.erase capabilityId } :
        UserLifecycle Capability Session Thread).entry =
    { user.entry with
      blockedCapabilities := user.entry.blockedCapabilities.erase capabilityId } := changed
  refine ⟨?_, ?_, ?_, ?_, consistent.guarded, ?_⟩
  · rw [entry]
    exact consistent.requests
  · intro id
    rw [entry]
    exact consistent.capabilities id
  · rw [entry]
    exact consistent.exclusive
  · intro id
    rw [entry]
    have count := consistent.blocked id
    dsimp only
    by_cases same : id = capabilityId
    · subst same
      rw [if_pos (consistent.blocked_of_mem (List.mem_append.mp member))] at count
      rw [List.count_erase_self, List.count_erase_self, if_neg (Finset.notMem_erase _ _)]
      omega
    · rw [List.count_erase_of_ne same, List.count_erase_of_ne same, count]
      simp only [Finset.mem_erase, ne_eq, same, not_false_eq_true, true_and]
  · intro id isDrained
    exact consistent.quiet id (List.mem_of_mem_erase isDrained)

variable [DecidableEq Thread]

theorem Consistent.resume (consistent : user.Consistent) {thread : Thread}
    (waiting : thread ∈ user.acquiring) (drained : ¬ 0 < user.entry.activeRequests) :
    Consistent { user with
      acquiring := user.acquiring.erase thread
      guards := thread :: user.guards } := by
  refine ⟨consistent.requests, consistent.capabilities, ?_, consistent.blocked, ?_,
    consistent.quiet⟩
  · refine Eq.trans ?_ consistent.exclusive
    have length := List.length_erase_of_mem waiting
    have some := List.length_pos_of_mem waiting
    dsimp only
    rw [length, List.length_cons]
    omega
  · intro _
    rw [consistent.requests, Nat.pos_iff_ne_zero, not_not] at drained
    exact List.length_eq_zero_iff.mp drained

theorem Consistent.unlock (consistent : user.Consistent) {thread : Thread}
    (held : thread ∈ user.guards) {state : Option (UserLifecycleState Capability Session)}
    (changed : state.getD {} = { user.entry with exclusiveUser := false }) :
    Consistent { user with state, guards := user.guards.erase thread } := by
  have entry : ({ user with state, guards := user.guards.erase thread } :
      UserLifecycle Capability Session Thread).entry =
    { user.entry with exclusiveUser := false } := changed
  refine ⟨?_, ?_, ?_, ?_, ?_, consistent.quiet⟩
  · rw [entry]
    exact consistent.requests
  · intro id
    rw [entry]
    exact consistent.capabilities id
  · have count := consistent.exclusive
    have length := List.length_erase_of_mem held
    have some := List.length_pos_of_mem held
    rw [consistent.exclusiveUser (List.ne_nil_of_mem held), Bool.toNat_true] at count
    rw [entry]
    dsimp only
    rw [length, Bool.toNat_false]
    omega
  · intro id
    rw [entry]
    exact consistent.blocked id
  · intro _
    exact consistent.guarded (List.ne_nil_of_mem held)

variable [DecidableEq Session]

/-- Every critical section keeps the entry and the outstanding values together. -/
theorem Consistent.run (consistent : user.Consistent)
    (taken : step.run user = some (after, closes)) : after.Consistent := by
  cases step with
  | acquireRequest capabilityId =>
    simp only [LifecycleStep.run] at taken
    split at taken
    · cases taken
      exact consistent.sessions _ rfl
    · rename_i granted
      cases taken
      exact consistent.acquire granted
  | dropRequest thread capabilityId =>
    obtain ⟨held, taken⟩ := Option.ite_none_right_eq_some.mp taken
    cases isState : user.state with
    | none =>
      have count := consistent.requests
      unfold UserLifecycle.entry at count
      rw [isState] at count
      exact absurd (List.length_pos_of_mem held) (count ▸ Nat.lt_irrefl 0)
    | some state =>
      rw [isState] at taken
      cases taken
      refine consistent.drop held ?_
      rw [UserLifecycleState.getD_kept, UserLifecycle.entry, isState]
      rfl
  | acquireUserLifecycleLock thread =>
    obtain ⟨isFree, taken⟩ := Option.ite_none_right_eq_some.mp taken
    have free : user.entry.exclusiveUser = false := by simpa using isFree.1
    have count := consistent.exclusive
    rw [free, Bool.toNat_false, Nat.add_eq_zero_iff] at count
    split at taken
    · cases taken
      refine consistent.lock free (Nat.succ_add _ _) ?_
      intro guarded
      exact absurd (List.length_eq_zero_iff.mp count.2) guarded
    · rename_i idle
      cases taken
      refine consistent.lock free rfl ?_
      intro _
      rw [consistent.requests, Nat.pos_iff_ne_zero, not_not] at idle
      exact List.length_eq_zero_iff.mp idle
  | resumeUserLifecycleLock thread =>
    obtain ⟨waiting, taken⟩ := Option.ite_none_right_eq_some.mp taken
    obtain ⟨idle, taken⟩ := Option.ite_none_left_eq_some.mp taken
    cases taken
    exact consistent.resume waiting idle
  | dropUserLifecycleGuard thread =>
    obtain ⟨held, taken⟩ := Option.ite_none_right_eq_some.mp taken
    cases taken
    exact consistent.unlock held (getD_bind_kept _ rfl)
  | pinBrowserSession sessionId =>
    simp only [LifecycleStep.run] at taken
    cases taken
    exact consistent.sessions _ rfl
  | unpinBrowserSession thread sessionId =>
    simp only [LifecycleStep.run] at taken
    cases isState : user.state with
    | none =>
      rw [isState] at taken
      cases taken
      exact consistent
    | some state =>
      rw [isState] at taken
      cases taken
      refine consistent.sessions (state.browserSessions.erase sessionId) ?_
      rw [UserLifecycleState.getD_kept, UserLifecycle.entry, isState]
      rfl
  | clearBrowserSessions thread =>
    obtain ⟨-, taken⟩ := Option.ite_none_right_eq_some.mp taken
    cases taken
    exact consistent.sessions _ (getD_map _ rfl)
  | beginCapabilityShutdown capabilityId =>
    obtain ⟨isOpen, taken⟩ := Option.ite_none_right_eq_some.mp taken
    cases taken
    exact consistent.block isOpen.2
  | waitForRequests capabilityId =>
    obtain ⟨member, taken⟩ := Option.ite_none_right_eq_some.mp taken
    obtain ⟨idle, taken⟩ := Option.ite_none_left_eq_some.mp taken
    cases taken
    exact consistent.wait member idle
  | dropCapabilityShutdown capabilityId =>
    obtain ⟨member, taken⟩ := Option.ite_none_right_eq_some.mp taken
    cases taken
    exact consistent.unblock member (getD_bind_kept _ rfl)

end UserLifecycle

variable [DecidableEq Session] [DecidableEq Thread]

/-! ## Safety -/

/-- The thread that a step may close the database on. -/
def LifecycleStep.closer : LifecycleStep Capability Session Thread → Option Thread
  | dropRequest thread _ => some thread
  | unpinBrowserSession thread _ => some thread
  | _ => none

/-- `close_user_db` is called with no lease, no pinned session and no guard of another thread. -/
def LifecycleStep.ClosesAlone (step : LifecycleStep Capability Session Thread)
    (after : UserLifecycle Capability Session Thread) (closes : Bool) : Prop :=
  closes = true → after.leases = [] ∧ after.entry.browserSessions = ∅ ∧
    ∀ other ∈ after.guards, step.closer = some other

/-- An unpin while another thread has the guard leaves a session pinned. -/
def LifecycleStep.LeavesPinned (step : LifecycleStep Capability Session Thread)
    (user : UserLifecycle Capability Session Thread) : Prop :=
  match step with
  | unpinBrowserSession thread sessionId => ∀ other ∈ user.guards, other ≠ thread →
      ∃ pinned ∈ user.entry.browserSessions, pinned ≠ sessionId
  | _ => True

/-- The counts of an entry are the outstanding leases. No lease is outstanding or granted while a
guard is held, and none of a capability whose shutdown has waited for its requests. -/
structure UserLifecycle.Safe (user : UserLifecycle Capability Session Thread) : Prop where
  activeRequests : user.entry.activeRequests = user.leases.length
  activeByCapability : ∀ id,
    (user.entry.activeByCapability.lookup id).getD 0 = user.leases.count (some id)
  exclusive : user.guards ≠ [] → user.leases = [] ∧ ∀ capabilityId after closes,
    (LifecycleStep.acquireRequest capabilityId).run user = some (after, closes) →
      after.leases = []
  drained : ∀ id ∈ user.drained, some id ∉ user.leases ∧ ∀ after closes,
    (LifecycleStep.acquireRequest (some id)).run user = some (after, closes) →
      some id ∉ after.leases

theorem UserLifecycle.Consistent.safe (consistent : user.Consistent) : user.Safe := by
  refine ⟨consistent.requests, consistent.lookup_getD, ?_, ?_⟩
  · intro guarded
    refine ⟨consistent.guarded guarded, ?_⟩
    intro capabilityId after closes granted
    have isExclusive := consistent.exclusiveUser guarded
    simp only [LifecycleStep.run] at granted
    rw [if_pos (.inl isExclusive)] at granted
    cases granted
    exact consistent.guarded guarded
  · intro id isDrained
    refine ⟨consistent.quiet id isDrained, ?_⟩
    intro after closes granted
    have isBlocked := consistent.blocked_of_mem (.inr isDrained)
    simp only [LifecycleStep.run] at granted
    rw [if_pos (.inr ⟨id, rfl, isBlocked⟩)] at granted
    cases granted
    exact consistent.quiet id isDrained

omit [DecidableEq Thread] in
theorem UserLifecycle.Consistent.idle_of_shouldClose (consistent : after.Consistent)
    {state : UserLifecycleState Capability Session} (isState : after.state = state.kept)
    (shouldClose : state.shouldClose = true) :
    after.leases = [] ∧ after.entry.browserSessions = ∅ := by
  obtain ⟨idle, unpinned⟩ := UserLifecycleState.shouldClose_iff.mp shouldClose
  have count := consistent.requests
  rw [UserLifecycle.entry, isState, UserLifecycleState.getD_kept] at count ⊢
  rw [idle] at count
  exact ⟨List.length_eq_zero_iff.mp count.symm, unpinned⟩

theorem UserLifecycle.Consistent.dropRequest_closesAlone (consistent : user.Consistent)
    {thread : Thread} {capabilityId : Option Capability}
    (taken : (LifecycleStep.dropRequest thread capabilityId).run user = some (after, closes)) :
    (LifecycleStep.dropRequest thread capabilityId).ClosesAlone after closes := by
  have afterConsistent := consistent.run taken
  intro isClosed
  obtain ⟨held, taken⟩ := Option.ite_none_right_eq_some.mp taken
  have unguarded : user.guards = [] := by
    by_contra guarded
    rw [consistent.guarded guarded] at held
    cases held
  cases isState : user.state with
  | none =>
    rw [isState] at taken
    cases taken
    cases isClosed
  | some state =>
    rw [isState] at taken
    cases taken
    obtain ⟨released, unpinned⟩ := afterConsistent.idle_of_shouldClose rfl isClosed
    refine ⟨released, unpinned, ?_⟩
    intro other isGuard
    rw [unguarded] at isGuard
    cases isGuard

theorem UserLifecycle.Consistent.unpin_closesAlone_iff (consistent : user.Consistent)
    {thread : Thread} {sessionId : Session}
    (taken : (LifecycleStep.unpinBrowserSession thread sessionId).run user =
      some (after, closes)) :
    (LifecycleStep.unpinBrowserSession thread sessionId).ClosesAlone after closes ↔
      (LifecycleStep.unpinBrowserSession thread sessionId).LeavesPinned user := by
  have afterConsistent := consistent.run taken
  simp only [LifecycleStep.run] at taken
  cases isState : user.state with
  | none =>
    rw [isState] at taken
    cases taken
    refine iff_of_true (fun isClosed => nomatch isClosed) ?_
    intro other isGuard
    have isExclusive := consistent.exclusiveUser (List.ne_nil_of_mem isGuard)
    rw [UserLifecycle.entry, isState] at isExclusive
    cases isExclusive
  | some state =>
    rw [isState] at taken
    cases taken
    have entry : user.entry = state := by
      rw [UserLifecycle.entry, isState]
      rfl
    constructor
    · intro alone other isGuard apart
      by_contra none
      have idle : user.entry.activeRequests = 0 := by
        rw [consistent.requests, consistent.guarded (List.ne_nil_of_mem isGuard)]
        rfl
      have unpinned : state.browserSessions.erase sessionId = ∅ := by
        refine Finset.eq_empty_of_forall_notMem ?_
        intro pinned member
        rw [Finset.mem_erase] at member
        exact none ⟨pinned, entry ▸ member.2, member.1⟩
      have closed := alone (UserLifecycleState.shouldClose_iff.mpr ⟨entry ▸ idle, unpinned⟩)
      exact apart (Option.some.inj (closed.2.2 other isGuard)).symm
    · intro leaves isClosed
      obtain ⟨released, unpinned⟩ := afterConsistent.idle_of_shouldClose rfl isClosed
      refine ⟨released, unpinned, ?_⟩
      intro other isGuard
      by_contra apart
      obtain ⟨pinned, member, differs⟩ :=
        leaves other isGuard fun same => apart (congrArg some same.symm)
      have none := (UserLifecycleState.shouldClose_iff.mp isClosed).2
      rw [entry] at member
      exact Finset.notMem_empty pinned (none ▸ Finset.mem_erase.mpr ⟨differs, member⟩)

theorem UserLifecycle.Consistent.closesAlone_iff (consistent : user.Consistent)
    (taken : step.run user = some (after, closes)) :
    step.ClosesAlone after closes ↔ step.LeavesPinned user := by
  have stays (same : closes = false) : step.ClosesAlone after closes := by
    intro isClosed
    rw [same] at isClosed
    cases isClosed
  cases step with
  | dropRequest thread capabilityId =>
    exact iff_of_true (consistent.dropRequest_closesAlone taken) trivial
  | unpinBrowserSession thread sessionId => exact consistent.unpin_closesAlone_iff taken
  | pinBrowserSession sessionId =>
    cases taken
    exact iff_of_true (stays rfl) trivial
  | _ =>
    refine iff_of_true (stays ?_) trivial
    simp only [LifecycleStep.run] at taken
    repeat' split at taken
    all_goals cases taken
    all_goals rfl

variable {User : Type} [DecidableEq User]

/-- A step of some thread on the entry of some user. -/
def lifecycleNext (step : User × LifecycleStep Capability Session Thread)
    (system next : User → UserLifecycle Capability Session Thread) : Prop :=
  ∃ after closes, step.2.run (system step.1) = some (after, closes) ∧
    next = Function.update system step.1 after

/-- The invariant holds in every reached state. -/
theorem consistent_of_reached {system : User → UserLifecycle Capability Session Thread}
    (reached : Reached lifecycleNext (fun _ _ => True) (fun _ => {}) system) :
    ∀ userId, (system userId).Consistent := by
  refine @Reached.invariant _ _ _ _ _ _ reached
    (fun system => ∀ userId, (system userId).Consistent) ?_ ?_
  · exact fun _ => UserLifecycle.consistent_empty
  · rintro ⟨changed, step⟩ before next consistent - ⟨after, closes, taken, rfl⟩ userId
    by_cases same : userId = changed
    · subst same
      rw [Function.update_self]
      exact (consistent userId).run taken
    · rw [Function.update_of_ne same]
      exact consistent userId

/-- In every state that the registry reaches, the counts are the outstanding leases, and guards
and drained shutdowns exclude the leases they wait for. A step that closes the database does so
alone exactly when an unpin beside the guard of another thread leaves a session pinned. -/
theorem lifecycle_safe {system : User → UserLifecycle Capability Session Thread}
    (reached : Reached lifecycleNext (fun _ _ => True) (fun _ => {}) system) (userId : User) :
    (system userId).Safe ∧ ∀ step after closes,
      LifecycleStep.run (system userId) step = some (after, closes) →
        (step.ClosesAlone after closes ↔ step.LeavesPinned (system userId)) := by
  have consistent := consistent_of_reached reached userId
  refine ⟨consistent.safe, ?_⟩
  intro step after closes taken
  exact consistent.closesAlone_iff taken

end Steps

/-- A user with a pinned session. -/
def loggedIn : UserLifecycle ℕ ℕ ℕ where
  state := some { browserSessions := {5} }

/-- The user while a login of thread 1 holds the guard. -/
def loggingIn : UserLifecycle ℕ ℕ ℕ where
  state := some { exclusiveUser := true, browserSessions := {5} }
  guards := [1]

/-- Thread 0 unpins the session, as the cleanup of expired sessions does. -/
def unpinExpired : LifecycleStep ℕ ℕ ℕ :=
  .unpinBrowserSession 0 5

theorem reached_loggingIn :
    Reached lifecycleNext (fun _ _ => True) (fun _ : Unit => {}) (fun _ => loggingIn) := by
  have pinned : Reached lifecycleNext (fun _ _ => True) (fun _ : Unit => {})
      (fun _ => loggedIn) :=
    @Reached.step _ _ _ _ _ _ _ ((), LifecycleStep.pinBrowserSession 5) .start trivial
      ⟨_, _, rfl, rfl⟩
  exact @Reached.step _ _ _ _ _ _ _ ((), LifecycleStep.acquireUserLifecycleLock 1) pinned trivial
    ⟨_, _, rfl, rfl⟩

theorem lifecycle_safe_loggingIn : loggingIn.Safe :=
  (lifecycle_safe reached_loggingIn ()).1

/-- An expired session is unpinned while a login holds the guard, and the database is closed. -/
theorem not_closesAlone_loggingIn :
    Reached lifecycleNext (fun _ _ => True) (fun _ : Unit => {}) (fun _ => loggingIn) ∧
      ∃ after, unpinExpired.run loggingIn = some (after, true) ∧
        ¬ unpinExpired.ClosesAlone after true := by
  refine ⟨reached_loggingIn, _, rfl, ?_⟩
  intro alone
  have isCloser := (alone rfl).2.2 1 (List.mem_singleton_self 1)
  cases isCloser

end Bitgarth.Auth
