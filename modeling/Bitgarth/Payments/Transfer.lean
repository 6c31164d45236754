import Mathlib.Data.List.Nodup
import Mathlib.Tactic.Common

/-! # Premium transfers

The confirmations of one pending premium transfer. Each generates a new management secret, asks
Central to put it in the place of the imported one, and only then stores it. Central takes a
request when it comes, also after the call that sent it has ended.
-/

namespace Bitgarth.Payments

inductive PendingTransferStatus where
  | pendingConfirmation
  | retryableFailure
  | nonRetryableFailure
  | completed
deriving DecidableEq, Repr

inductive CentralClientError where
  | build
  | url
  | request
  | responseEncoding
  | responseJson
  | http (status : ℕ)
  | contract
deriving DecidableEq, Repr

def retryableCentralTransferError : CentralClientError → Bool
  | .request | .responseEncoding | .responseJson => true
  | .http status => status = 429 ∨ 500 ≤ status ∧ status < 600
  | .build | .url | .contract => false

section Model

variable (Secret : Type)

/-- What a confirmation does next. -/
inductive TransferCall where
  | waiting (secret : Secret)
  | storingSecret (secret : Secret)
  | storingToken (secret : Secret)
  | completing (secret : Secret)
  | failing (retryable : Bool)
deriving DecidableEq

/-- The pending transfer and the secret of the payment subject, with the secret that Central
accepts. `known` are the secrets generated so far, `requests` and `answers` are on their way, and
`activeToken` is the transfer whose token is stored. -/
structure TransferSystem where
  imported : Secret
  valid : Secret
  status : PendingTransferStatus
  managementSecret : Option Secret
  activeToken : Option Secret
  known : List Secret
  loaded : ℕ
  calls : List (TransferCall Secret)
  requests : List Secret
  answers : List Secret

inductive TransferStep where
  | load
  | generate (secret : Secret)
  | accept (secret : Secret)
  | reject (secret : Secret)
  | receive (secret : Secret) (verifies : Bool)
  | fail (secret : Secret) (error : CentralClientError)
  | storeSecret (secret : Secret)
  | storeToken (secret : Secret)
  | complete (secret : Secret)
  | recordFailure (retryable : Bool)
  | stopLoaded
  | stop (call : TransferCall Secret)

end Model

section Steps

variable {Secret : Type} [DecidableEq Secret]

namespace TransferSystem

/-- An imported transfer whose secret Central accepts. -/
def start (imported : Secret) (managementSecret : Option Secret) : TransferSystem Secret where
  imported
  valid := imported
  status := .pendingConfirmation
  managementSecret
  activeToken := none
  known := imported :: managementSecret.toList
  loaded := 0
  calls := []
  requests := []
  answers := []

/-- A call does its next step. -/
def next (system : TransferSystem Secret) (call : TransferCall Secret)
    (after : List (TransferCall Secret)) : TransferSystem Secret :=
  { system with calls := after ++ system.calls.erase call }

def run (system : TransferSystem Secret) : TransferStep Secret → Option (TransferSystem Secret)
  | .load =>
    if system.status = .pendingConfirmation ∨ system.status = .retryableFailure then
      some { system with loaded := system.loaded + 1 }
    else none
  | .generate secret =>
    if system.loaded ≠ 0 ∧ secret ∉ system.known then
      some { system with
        loaded := system.loaded - 1
        known := secret :: system.known
        calls := .waiting secret :: system.calls
        requests := secret :: system.requests }
    else none
  | .accept secret =>
    if secret ∈ system.requests ∧ system.valid = system.imported then
      some { system with
        valid := secret
        requests := system.requests.erase secret
        answers := secret :: system.answers }
    else none
  | .reject secret =>
    if secret ∈ system.requests ∧ system.valid ≠ system.imported then
      some { system with requests := system.requests.erase secret }
    else none
  | .receive secret verifies =>
    if .waiting secret ∈ system.calls ∧ secret ∈ system.answers then
      -- A token that does not verify is recorded as a failure that is not retryable.
      some <| system.next (.waiting secret)
        [if verifies then .storingSecret secret else .failing false]
    else none
  | .fail secret error =>
    if .waiting secret ∈ system.calls then
      some <| system.next (.waiting secret) [.failing (retryableCentralTransferError error)]
    else none
  | .storeSecret secret =>
    if .storingSecret secret ∈ system.calls then
      some { system.next (.storingSecret secret) [.storingToken secret] with
        managementSecret := some secret }
    else none
  | .storeToken secret =>
    if .storingToken secret ∈ system.calls then
      some { system.next (.storingToken secret) [.completing secret] with
        activeToken := some secret }
    else none
  | .complete secret =>
    if .completing secret ∈ system.calls then
      some { system.next (.completing secret) [] with status := .completed }
    else none
  | .recordFailure retryable =>
    if .failing retryable ∈ system.calls then
      some { system.next (.failing retryable) [] with
        status := if retryable then .retryableFailure else .nonRetryableFailure }
    else none
  | .stopLoaded => some { system with loaded := system.loaded - 1 }
  | .stop call => some { system with calls := system.calls.erase call }

/-- A confirmation that nothing disturbs. -/
def confirm (secret : Secret) : List (TransferStep Secret) :=
  [.load, .generate secret, .accept secret, .receive secret true, .storeSecret secret,
    .storeToken secret, .complete secret]

/-- The database holds the secret that Central accepts, in the pending transfer or the payment
subject, and a transfer that may be confirmed is completed by an undisturbed confirmation. -/
structure Recoverable (system : TransferSystem Secret) : Prop where
  holds : system.imported = system.valid ∨ system.managementSecret = some system.valid
  completable : system.status = .pendingConfirmation ∨ system.status = .retryableFailure →
    ∀ secret ∉ system.known, ∃ after, (confirm secret).foldlM run system = some after ∧
      after.status = .completed ∧ after.managementSecret = some after.valid

end TransferSystem

end Steps

/-! ## Secrets on their way -/

section Invariants

namespace TransferSystem

variable {Secret : Type} [DecidableEq Secret] {system after : TransferSystem Secret}
  {step : TransferStep Secret} {secret : Secret}

/-- The secrets of calls and answers are known, and those of requests are of no answer and stored
nowhere. -/
structure Fresh (system : TransferSystem Secret) : Prop where
  imported : system.imported ∈ system.known
  managementSecret : ∀ secret, system.managementSecret = some secret → secret ∈ system.known
  storing : ∀ secret, .storingSecret secret ∈ system.calls → secret ∈ system.answers
  answers : ∀ secret ∈ system.answers, secret ∈ system.known
  requests : ∀ secret ∈ system.requests, secret ∈ system.known ∧ secret ∉ system.answers ∧
    secret ≠ system.imported ∧ system.managementSecret ≠ some secret
  nodup : system.requests.Nodup

omit [DecidableEq Secret] in
theorem fresh_start (imported : Secret) (managementSecret : Option Secret) :
    (start imported managementSecret).Fresh := by
  refine ⟨List.mem_cons_self, ?_, ?_, ?_, ?_, .nil⟩
  · intro secret isSecret
    exact .tail _ (Option.mem_toList.mpr isSecret)
  · exact fun _ member => absurd member List.not_mem_nil
  · exact fun _ member => absurd member List.not_mem_nil
  · exact fun _ member => absurd member List.not_mem_nil

theorem Fresh.next (fresh : system.Fresh) {call : TransferCall Secret}
    {calls : List (TransferCall Secret)}
    (storing : ∀ secret, .storingSecret secret ∈ calls → secret ∈ system.answers) :
    (system.next call calls).Fresh := by
  refine ⟨fresh.imported, fresh.managementSecret, ?_, fresh.answers, fresh.requests, fresh.nodup⟩
  intro secret member
  rcases List.mem_append.mp member with isNext | isOther
  · exact storing secret isNext
  · exact fresh.storing secret (List.mem_of_mem_erase isOther)

/-- The secrets of calls and answers stay known, those of requests new. -/
theorem Fresh.run (fresh : system.Fresh) (taken : system.run step = some after) : after.Fresh := by
  cases step with
  | load =>
    obtain ⟨-, rfl⟩ := Option.ite_some_none_eq_some.mp taken
    exact ⟨fresh.imported, fresh.managementSecret, fresh.storing, fresh.answers, fresh.requests,
      fresh.nodup⟩
  | generate secret =>
    obtain ⟨⟨-, isNew⟩, rfl⟩ := Option.ite_some_none_eq_some.mp taken
    refine ⟨.tail _ fresh.imported, ?_, ?_, ?_, ?_, ?_⟩
    · exact fun other isOther => .tail _ (fresh.managementSecret other isOther)
    · intro other member
      rcases List.mem_cons.mp member with isWaiting | isOld
      · cases isWaiting
      · exact fresh.storing other isOld
    · exact fun other member => .tail _ (fresh.answers other member)
    · intro other member
      rcases List.mem_cons.mp member with rfl | isOld
      · refine ⟨List.mem_cons_self, ?_, ?_, ?_⟩
        · exact fun answered => isNew (fresh.answers other answered)
        · intro same
          have isImported : other = system.imported := same
          exact isNew (isImported ▸ fresh.imported)
        · exact fun isStored => isNew (fresh.managementSecret other isStored)
      · obtain ⟨isKnown, others⟩ := fresh.requests other isOld
        exact ⟨.tail _ isKnown, others⟩
    · exact List.nodup_cons.mpr
        ⟨fun member => isNew (fresh.requests secret member).1, fresh.nodup⟩
  | accept secret =>
    obtain ⟨⟨member, -⟩, rfl⟩ := Option.ite_some_none_eq_some.mp taken
    refine ⟨fresh.imported, fresh.managementSecret, ?_, ?_, ?_, fresh.nodup.erase secret⟩
    · exact fun other isStoring => .tail _ (fresh.storing other isStoring)
    · intro other isAnswer
      rcases List.mem_cons.mp isAnswer with rfl | isOld
      · exact (fresh.requests other member).1
      · exact fresh.answers other isOld
    · intro other isRequest
      obtain ⟨different, isOld⟩ := fresh.nodup.mem_erase_iff.mp isRequest
      obtain ⟨isKnown, notAnswered, others⟩ := fresh.requests other isOld
      refine ⟨isKnown, ?_, others⟩
      intro isAnswer
      rcases List.mem_cons.mp isAnswer with same | answered
      · exact different same
      · exact notAnswered answered
  | reject secret =>
    obtain ⟨-, rfl⟩ := Option.ite_some_none_eq_some.mp taken
    exact ⟨fresh.imported, fresh.managementSecret, fresh.storing, fresh.answers,
      fun other isRequest => fresh.requests other (List.mem_of_mem_erase isRequest),
      fresh.nodup.erase secret⟩
  | receive secret verifies =>
    obtain ⟨receives, rfl⟩ := Option.ite_some_none_eq_some.mp taken
    apply fresh.next
    intro other member
    have same := List.mem_singleton.mp member
    split at same
    · cases same
      exact receives.2
    · cases same
  | fail secret error =>
    obtain ⟨-, rfl⟩ := Option.ite_some_none_eq_some.mp taken
    apply fresh.next
    intro other member
    cases List.mem_singleton.mp member
  | storeSecret secret =>
    obtain ⟨isStoring, rfl⟩ := Option.ite_some_none_eq_some.mp taken
    have answered := fresh.storing secret isStoring
    have stepped : (system.next (.storingSecret secret) [.storingToken secret]).Fresh := by
      apply fresh.next
      intro other member
      cases List.mem_singleton.mp member
    refine ⟨stepped.imported, ?_, stepped.storing, stepped.answers, ?_, stepped.nodup⟩
    · rintro other ⟨⟩
      exact fresh.answers secret answered
    · intro other isRequest
      obtain ⟨isKnown, notAnswered, notImported, -⟩ := fresh.requests other isRequest
      refine ⟨isKnown, notAnswered, notImported, ?_⟩
      rintro ⟨⟩
      exact notAnswered answered
  | storeToken secret =>
    obtain ⟨-, rfl⟩ := Option.ite_some_none_eq_some.mp taken
    have stepped : (system.next (.storingToken secret) [.completing secret]).Fresh := by
      apply fresh.next
      intro other member
      cases List.mem_singleton.mp member
    exact ⟨stepped.imported, stepped.managementSecret, stepped.storing, stepped.answers,
      stepped.requests, stepped.nodup⟩
  | complete secret =>
    obtain ⟨-, rfl⟩ := Option.ite_some_none_eq_some.mp taken
    have stepped : (system.next (.completing secret) []).Fresh :=
      fresh.next fun other member => absurd member List.not_mem_nil
    exact ⟨stepped.imported, stepped.managementSecret, stepped.storing, stepped.answers,
      stepped.requests, stepped.nodup⟩
  | recordFailure retryable =>
    obtain ⟨-, rfl⟩ := Option.ite_some_none_eq_some.mp taken
    have stepped : (system.next (.failing retryable) []).Fresh :=
      fresh.next fun other member => absurd member List.not_mem_nil
    exact ⟨stepped.imported, stepped.managementSecret, stepped.storing, stepped.answers,
      stepped.requests, stepped.nodup⟩
  | stopLoaded =>
    cases taken
    exact ⟨fresh.imported, fresh.managementSecret, fresh.storing, fresh.answers, fresh.requests,
      fresh.nodup⟩
  | stop call =>
    cases taken
    exact ⟨fresh.imported, fresh.managementSecret,
      fun secret member => fresh.storing secret (List.mem_of_mem_erase member), fresh.answers,
      fresh.requests, fresh.nodup⟩

/-! ## Completed transfers -/

/-- Central has answered the secret that it accepts now, in place of the imported one, and no
other; what a call stores after its secret finds that secret stored. -/
structure Stored (system : TransferSystem Secret) : Prop where
  answers : ∀ secret ∈ system.answers, secret = system.valid ∧ system.imported ≠ system.valid
  storing : ∀ secret, .storingToken secret ∈ system.calls →
    secret ∈ system.answers ∧ system.managementSecret = some secret
  completing : ∀ secret, .completing secret ∈ system.calls → secret ∈ system.answers ∧
    system.managementSecret = some secret ∧ system.activeToken = some secret
  completed : system.status = .completed → ∃ secret ∈ system.answers,
    system.managementSecret = some secret ∧ system.activeToken = some secret

omit [DecidableEq Secret] in
theorem Stored.setCalls (stored : system.Stored) {calls : List (TransferCall Secret)}
    {known requests : List Secret} {loaded : ℕ} {status : PendingTransferStatus}
    (storing : ∀ secret, .storingToken secret ∈ calls → .storingToken secret ∈ system.calls)
    (completing : ∀ secret, .completing secret ∈ calls → .completing secret ∈ system.calls)
    (completes : status = .completed → system.status = .completed) :
    { system with calls, known, requests, loaded, status }.Stored :=
  ⟨stored.answers, fun secret member => stored.storing secret (storing secret member),
    fun secret member => stored.completing secret (completing secret member),
    fun isCompleted => stored.completed (completes isCompleted)⟩

/-- Repeated requests are answered with the secret that was accepted. -/
theorem Stored.run (stored : system.Stored) (fresh : system.Fresh)
    (taken : system.run step = some after) : after.Stored := by
  have same {secret other : Secret} (answered : secret ∈ system.answers)
      (otherAnswered : other ∈ system.answers) : some secret = some other :=
    congrArg some ((stored.answers secret answered).1.trans
      (stored.answers other otherAnswered).1.symm)
  cases step with
  | accept secret =>
    obtain ⟨⟨member, unchanged⟩, rfl⟩ := Option.ite_some_none_eq_some.mp taken
    have none : ∀ other, other ∉ system.answers := fun other answered =>
      (stored.answers other answered).2 unchanged.symm
    refine ⟨?_, ?_, ?_, ?_⟩
    · intro other isAnswer
      obtain rfl := (List.mem_cons.mp isAnswer).resolve_right (none other)
      exact ⟨rfl, (fresh.requests other member).2.2.1.symm⟩
    · exact fun other isStoring => absurd (stored.storing other isStoring).1 (none other)
    · exact fun other isLast => absurd (stored.completing other isLast).1 (none other)
    · intro isCompleted
      obtain ⟨other, answered, -⟩ := stored.completed isCompleted
      exact absurd answered (none other)
  | storeSecret secret =>
    obtain ⟨isStoring, rfl⟩ := Option.ite_some_none_eq_some.mp taken
    have answered := fresh.storing secret isStoring
    have stepped : (system.next (.storingSecret secret) []).Stored :=
      stored.setCalls (fun _ => List.mem_of_mem_erase) (fun _ => List.mem_of_mem_erase) id
    refine ⟨stored.answers, ?_, ?_, ?_⟩
    · intro other member
      rcases List.mem_cons.mp member with isNew | isOld
      · cases isNew
        exact ⟨answered, rfl⟩
      · obtain ⟨isAnswer, -⟩ := stepped.storing other isOld
        exact ⟨isAnswer, same answered isAnswer⟩
    · intro other member
      obtain ⟨isAnswer, -, isActive⟩ :=
        stepped.completing other (by simpa [TransferSystem.next] using member)
      exact ⟨isAnswer, same answered isAnswer, isActive⟩
    · intro isCompleted
      obtain ⟨other, isAnswer, -, isActive⟩ := stored.completed isCompleted
      exact ⟨other, isAnswer, same answered isAnswer, isActive⟩
  | storeToken secret =>
    obtain ⟨isStoring, rfl⟩ := Option.ite_some_none_eq_some.mp taken
    obtain ⟨answered, isSecret⟩ := stored.storing secret isStoring
    have stepped : (system.next (.storingToken secret) []).Stored :=
      stored.setCalls (fun _ => List.mem_of_mem_erase) (fun _ => List.mem_of_mem_erase) id
    refine ⟨stored.answers, fun other member =>
      stepped.storing other (by simpa [TransferSystem.next] using member),
      ?_, ?_⟩
    · intro other member
      rcases List.mem_cons.mp member with isNew | isOld
      · cases isNew
        exact ⟨answered, isSecret, rfl⟩
      · obtain ⟨isAnswer, isOther, -⟩ := stepped.completing other isOld
        exact ⟨isAnswer, isOther, same answered isAnswer⟩
    · intro isCompleted
      obtain ⟨other, isAnswer, isOther, -⟩ := stored.completed isCompleted
      exact ⟨other, isAnswer, isOther, same answered isAnswer⟩
  | complete secret =>
    obtain ⟨isLast, rfl⟩ := Option.ite_some_none_eq_some.mp taken
    have stepped : (system.next (.completing secret) []).Stored :=
      stored.setCalls (fun _ => List.mem_of_mem_erase) (fun _ => List.mem_of_mem_erase) id
    exact { stepped with completed := fun _ => ⟨secret, stored.completing secret isLast⟩ }
  | receive secret verifies =>
    obtain ⟨-, rfl⟩ := Option.ite_some_none_eq_some.mp taken
    cases verifies <;>
      exact stored.setCalls (by simp [List.mem_erase_of_ne]) (by simp [List.mem_erase_of_ne]) id
  | recordFailure retryable =>
    obtain ⟨-, rfl⟩ := Option.ite_some_none_eq_some.mp taken
    cases retryable <;>
      exact stored.setCalls (fun _ => List.mem_of_mem_erase) (fun _ => List.mem_of_mem_erase)
        PendingTransferStatus.noConfusion
  | load | generate secret | reject secret | fail secret error =>
    obtain ⟨-, rfl⟩ := Option.ite_some_none_eq_some.mp taken
    exact stored.setCalls (by simp [List.mem_erase_of_ne]) (by simp [List.mem_erase_of_ne]) id
  | stopLoaded =>
    cases taken
    exact stored.setCalls (fun _ => id) (fun _ => id) id
  | stop call =>
    cases taken
    exact stored.setCalls (fun _ => List.mem_of_mem_erase) (fun _ => List.mem_of_mem_erase) id

/-- However confirmations and the answers of Central interleave, Central accepts one request at
most, and a completed transfer has stored the secret that Central accepts with its token. -/
theorem completed_stores_valid {imported : Secret} {managementSecret : Option Secret}
    {steps : List (TransferStep Secret)} (ran : steps.foldlM run (start imported managementSecret) =
      some after) :
    (∀ secret ∈ after.answers, secret = after.valid) ∧
      (after.status = .completed →
        after.managementSecret = some after.valid ∧ after.activeToken = some after.valid) := by
  suffices ∀ system : TransferSystem Secret, system.Fresh → system.Stored →
      steps.foldlM run system = some after → after.Stored by
    have stored := this _ (fresh_start imported managementSecret)
      ⟨fun _ member => absurd member List.not_mem_nil,
        fun _ member => absurd member List.not_mem_nil,
        fun _ member => absurd member List.not_mem_nil, PendingTransferStatus.noConfusion⟩ ran
    refine ⟨fun secret answered => (stored.answers secret answered).1, fun isCompleted => ?_⟩
    obtain ⟨secret, answered, isSecret, isActive⟩ := stored.completed isCompleted
    obtain rfl := (stored.answers secret answered).1
    exact ⟨isSecret, isActive⟩
  clear ran
  induction steps with
  | nil =>
    rintro system fresh stored ⟨⟩
    exact stored
  | cons step rest ih =>
    intro system fresh stored ran
    obtain ⟨next, taken, ran⟩ := Option.bind_eq_some_iff.mp ran
    exact ih next (fresh.run taken) (stored.run fresh taken) ran

/-! ## Accepted requests -/

theorem Fresh.not_recoverable_of_accept (fresh : system.Fresh)
    (taken : system.run (.accept secret) = some after) : ¬ after.Recoverable := by
  obtain ⟨accepts, rfl⟩ := Option.ite_some_none_eq_some.mp taken
  obtain ⟨-, -, notImported, notStored⟩ := fresh.requests secret accepts.1
  intro recoverable
  rcases recoverable.holds with isImported | isStored
  · exact notImported isImported.symm
  · exact notStored isStored

theorem valid_of_run (taken : system.run step = some after)
    (notAccept : ∀ secret, step ≠ .accept secret) (isValid : system.imported = system.valid) :
    after.imported = after.valid := by
  cases step with
  | accept secret => exact absurd rfl (notAccept secret)
  | stopLoaded | stop call =>
    cases taken
    exact isValid
  | load | generate secret | reject secret | receive secret verifies | fail secret error
  | storeSecret secret | storeToken secret | complete secret | recordFailure retryable =>
    obtain ⟨-, rfl⟩ := Option.ite_some_none_eq_some.mp taken
    exact isValid

theorem recoverable_of_valid (isValid : system.imported = system.valid) :
    system.Recoverable := by
  refine ⟨.inl isValid, ?_⟩
  intro isOpen secret isNew
  simp [confirm, run, TransferSystem.next, isOpen, isNew, isValid]

theorem fresh_of_foldlM (steps : List (TransferStep Secret)) (fresh : system.Fresh)
    (ran : steps.foldlM run system = some after) : after.Fresh := by
  induction steps generalizing system with
  | nil =>
    cases ran
    exact fresh
  | cons step rest ih =>
    obtain ⟨next, taken, ran⟩ := Option.bind_eq_some_iff.mp ran
    exact ih (fresh.run taken) ran

theorem valid_of_foldlM (steps : List (TransferStep Secret))
    (isValid : system.imported = system.valid)
    (notAccept : ∀ secret, .accept secret ∉ steps)
    (ran : steps.foldlM run system = some after) : after.imported = after.valid := by
  induction steps generalizing system with
  | nil =>
    cases ran
    exact isValid
  | cons step rest ih =>
    obtain ⟨next, taken, ran⟩ := Option.bind_eq_some_iff.mp ran
    have first := valid_of_run taken
      (fun secret same => notAccept secret (same ▸ List.mem_cons_self)) isValid
    exact ih first (fun secret member => notAccept secret (.tail _ member)) ran

/-- The transfer is recoverable all through a run exactly if Central accepts no request in it. -/
theorem recoverable_iff_not_accepted {imported : Secret} {managementSecret : Option Secret}
    {steps : List (TransferStep Secret)} (ran : steps.foldlM run (start imported managementSecret) =
      some after) :
    (∀ before later state, steps = before ++ later →
      before.foldlM run (start imported managementSecret) = some state → state.Recoverable) ↔
    ∀ secret, .accept secret ∉ steps := by
  constructor
  · intro recoverable secret member
    obtain ⟨before, later, rfl⟩ := List.append_of_mem member
    rw [List.foldlM_append] at ran
    obtain ⟨state, ranBefore, ran⟩ := Option.bind_eq_some_iff.mp ran
    obtain ⟨accepted, taken, -⟩ := Option.bind_eq_some_iff.mp ran
    have fresh := fresh_of_foldlM before (fresh_start imported managementSecret) ranBefore
    apply fresh.not_recoverable_of_accept taken
    apply recoverable (before ++ [.accept secret]) later accepted (List.append_cons _ _ _)
    rw [List.foldlM_append, ranBefore]
    change (state.run (.accept secret)).bind some = some accepted
    rw [taken]
    rfl
  · rintro notAccepted before later state rfl ranBefore
    apply recoverable_of_valid
    apply valid_of_foldlM before rfl (fun secret member => ?_) ranBefore
    exact notAccepted secret (List.mem_append_left _ member)

end TransferSystem

end Invariants

/-! ## A lost answer -/

/-- A request is lost, its failure is stored as retryable, and the next confirmation is stopped. -/
def lostRequest : List (TransferStep ℕ) :=
  [.load, .generate 5, .fail 5 .request, .recordFailure true, .load, .stopLoaded]

theorem recoverable_iff_not_accepted_lostRequest :
    ∃ after : TransferSystem ℕ, after.Recoverable ∧ after.status = .retryableFailure ∧
      after.valid = 1 := by
  refine ⟨_, (@TransferSystem.recoverable_iff_not_accepted _ _ _ 1 none lostRequest rfl).mpr ?_
    lostRequest [] _ (List.append_nil _).symm rfl, rfl, rfl⟩
  intro secret member
  simp [lostRequest] at member

/-- The request is accepted and its answer lost: the database holds neither secret, and the
confirmation that the retryable failure asks for is refused. -/
theorem not_recoverable_lostAnswer :
    ∃ after : TransferSystem ℕ,
      [TransferStep.load, .generate 5, .accept 5, .fail 5 .request, .recordFailure true].foldlM
        TransferSystem.run (TransferSystem.start 1 none) = some after ∧
      after.status = .retryableFailure ∧ after.imported = 1 ∧ after.managementSecret = none ∧
      after.valid = 5 ∧ ¬ after.Recoverable := by
  refine ⟨_, rfl, rfl, rfl, rfl, rfl, ?_⟩
  intro recoverable
  rcases recoverable.holds with isImported | isStored
  · cases isImported
  · cases isStored

/-- Of two confirmations Central accepts the first, which completes after the second has failed. -/
theorem completed_stores_valid_twice : ∃ after : TransferSystem ℕ, after.status = .completed ∧
    after.managementSecret = some 5 ∧ after.activeToken = some 5 := by
  have completed := (@TransferSystem.completed_stores_valid _ _ _ 1 none
    [.load, .generate 5, .load, .generate 6, .accept 5, .reject 6, .receive 5 true,
      .fail 6 (.http 403), .storeSecret 5, .recordFailure false, .storeToken 5, .complete 5] rfl).2
  exact ⟨_, rfl, completed rfl⟩

end Bitgarth.Payments
