import Bitgarth.Auth.PairingEvents

/-! # Safety of the pairing store

Every call keeps the store on its history, so what the history says of an activation holds:
`pairing_safe`.
-/

namespace Bitgarth.Auth

open KeyedTable Reachability

section Runs

variable {CapabilityId Verifier Source UserId Dek : Type} [DecidableEq CapabilityId]
  [DecidableEq Verifier] [DecidableEq Source]
  {state : PairingState CapabilityId Verifier Source UserId Dek} {now later : ℤ}
  {events : List (PairingEvent CapabilityId Verifier Source UserId Dek)}

/-- The store follows its history. -/
def PairingState.Follows (state : PairingState CapabilityId Verifier Source UserId Dek) (now : ℤ)
    (events : List (PairingEvent CapabilityId Verifier Source UserId Dek)) : Prop :=
  state.FollowsEntries now events ∧ state.FollowsStarts now events

theorem PairingState.Follows.elapse (follows : state.Follows now events) (elapsed : now ≤ later) :
    state.Follows later events :=
  ⟨follows.1.elapse elapsed, follows.2.elapse elapsed rfl rfl⟩

theorem PairingState.Follows.removeExpired (follows : state.Follows now events)
    (elapsed : now ≤ later) : (state.removeExpired later).Follows later events :=
  ⟨follows.1.removeExpired elapsed, follows.2.elapse elapsed rfl rfl⟩

theorem PairingState.Follows.pruneRateLimits (follows : state.Follows now events) :
    (state.pruneRateLimits now).Follows now events :=
  ⟨follows.1.congr rfl rfl, follows.2.pruneRateLimits⟩

variable {event : PairingEvent CapabilityId Verifier Source UserId Dek}

theorem PairingState.Follows.idle (follows : state.Follows now events)
    (startless : ∀ id, event.startOf id = none) (statusless : ∀ id, event.statusOf id = none)
    (uncounted : event.counted = none) : state.Follows now (event :: events) :=
  ⟨follows.1.idle startless statusless, follows.2.idle uncounted⟩

theorem PairingState.Follows.setEntry (follows : state.Follows now events)
    {next : PendingPairing CapabilityId Verifier UserId Dek}
    (entries : (state.setEntry next).FollowsEntries now (event :: events))
    (uncounted : event.counted = none) : (state.setEntry next).Follows now (event :: events) :=
  ⟨entries, (follows.2.idle uncounted).elapse le_rfl rfl rfl⟩

/-! ## Starts -/

omit [DecidableEq Source] in
theorem insertGenerated_cases (state : PairingState CapabilityId Verifier Source UserId Dek)
    (now : ℤ) (start : ValidatedPairingStart Verifier)
    (generated : List (CapabilityId × List.Vector UInt8 8)) :
    state.insertGenerated now start generated = (.error .generationExhausted, state) ∨
      ∃ entry : PendingPairing CapabilityId Verifier UserId Dek,
        state.insertGenerated now start generated =
          (.ok ⟨entry.capabilityId, entry.code, entry.expiresAt⟩,
            { state with
              verifiers := insert entry.keyVerifier state.verifiers
              pending := state.pending ++ [entry] }) ∧
        find PendingPairing.capabilityId state.pending entry.capabilityId = none ∧
        (∀ other ∈ state.pending, other.code ≠ entry.code) ∧ entry.code ≠ "" ∧
        entry.clientName = start.clientName ∧ entry.keyVerifier = start.keyVerifier ∧
        entry.permission = start.permission ∧ entry.status = .awaitingApproval := by
  induction generated with
  | nil => exact .inl rfl
  | cons pair rest ih =>
    obtain ⟨capabilityId, codeBytes⟩ := pair
    rw [PairingState.insertGenerated]
    dsimp only
    split
    · exact ih
    · rename_i fresh
      obtain ⟨freshId, freshCode⟩ := not_or.mp fresh
      refine .inr ⟨{
        capabilityId
        code := encodeCode codeBytes
        clientName := start.clientName
        keyVerifier := start.keyVerifier
        permission := start.permission
        expiresAt := now + pairingLifetime
        status := .awaitingApproval }, rfl, ?_, ?_, encodeCode_ne_empty _, rfl, rfl, rfl, rfl⟩
      · exact Option.not_isSome_iff_eq_none.mp freshId
      · intro other member same
        exact freshCode ⟨other, member, same⟩

theorem PairingState.Follows.start (follows : state.Follows now events) (elapsed : now ≤ later)
    (source : Source) (start : ValidatedPairingStart Verifier)
    (generated : List (CapabilityId × List.Vector UInt8 8))
    (durableVerifierExists : Verifier → Option Bool) :
    (state.start later source start generated durableVerifierExists).2.Follows later
      (⟨later, .start source start generated durableVerifierExists,
        .start (state.start later source start generated durableVerifierExists).1⟩ ::
          events) := by
  have pruned := (follows.removeExpired elapsed).pruneRateLimits
  unfold PairingState.start
  dsimp only
  generalize (state.removeExpired later).pruneRateLimits later = kept at pruned
  split
  · exact pruned.idle (fun _ => rfl) (fun _ => rfl) rfl
  · rename_i free
    split
    · exact pruned.idle (fun _ => rfl) (fun _ => rfl) rfl
    · rename_i room
      have recorded {outcome : Except PairingStartError (StartedPairing CapabilityId)}
          (counted : PairingEvent.counted ⟨later,
            .start source start generated durableVerifierExists, .start outcome⟩ = some source) :=
        pruned.2.recordStart free counted rfl
      have entries : (kept.recordStart source later).FollowsEntries later events :=
        pruned.1.congr rfl rfl
      split
      · exact ⟨entries.idle (fun _ => rfl) (fun _ => rfl), recorded rfl⟩
      · rename_i freshVerifier
        split
        · exact ⟨entries.idle (fun _ => rfl) (fun _ => rfl), recorded rfl⟩
        · exact ⟨entries.idle (fun _ => rfl) (fun _ => rfl), recorded rfl⟩
        · rcases insertGenerated_cases (kept.recordStart source later) later start
            generated with exhausted | ⟨entry, inserted, freshId, freshCode, code, isName,
              isVerifier,
              isPermission, awaits⟩
          · rw [exhausted]
            exact ⟨entries.idle (fun _ => rfl) (fun _ => rfl), recorded rfl⟩
          · rw [inserted]
            refine ⟨?_, (recorded rfl).elapse le_rfl rfl rfl⟩
            refine entries.add (not_le.mp room) freshId (isVerifier ▸ freshVerifier) freshCode
              code awaits ?_ ?_ fun _ => rfl
            · rw [isName, isVerifier, isPermission]
              exact if_pos rfl
            · intro id apart
              exact if_neg (Ne.symm apart)

/-! ## Reviews, approvals and denials -/

theorem PairingState.Follows.review (follows : state.Follows now events) (elapsed : now ≤ later)
    (displayCode : String) :
    (state.review later displayCode).2.Follows later
      (⟨later, .review displayCode, .review (state.review later displayCode).1⟩ :: events) := by
  refine PairingState.Follows.idle ?_ (fun _ => rfl) (fun _ => rfl) rfl
  unfold PairingState.review
  split
  · exact follows.elapse elapsed
  · dsimp only
    split
    · exact follows.removeExpired elapsed
    · split
      · exact follows.removeExpired elapsed
      · exact follows.removeExpired elapsed

omit [DecidableEq Verifier] [DecidableEq Source] in
theorem awaitingEntry_eq_ok {capabilityId : CapabilityId} {code : String}
    {entry : PendingPairing CapabilityId Verifier UserId Dek}
    (found : state.awaitingEntry capabilityId code = .ok entry) :
    entry ∈ state.pending ∧ entry.capabilityId = capabilityId ∧ entry.code = code ∧
      entry.status = .awaitingApproval := by
  unfold PairingState.awaitingEntry at found
  split at found
  · cases found
  · rename_i isFound
    split at found
    · cases found
    · rename_i isCode
      split at found
      · rename_i isStatus
        cases found
        exact ⟨mem_of_find isFound, find_eq_some_key isFound, not_not.mp isCode, isStatus⟩
      · cases found

theorem PairingState.Follows.approve (follows : state.Follows now events) (elapsed : now ≤ later)
    (capabilityId : CapabilityId) (displayCode : String) (activeExpiresAt : Option ℤ)
    (bind : Option (ApprovedPairingBinding UserId Dek)) :
    (state.approve later capabilityId displayCode activeExpiresAt bind).2.Follows later
      (⟨later, .approve capabilityId displayCode activeExpiresAt bind,
        .transition (state.approve later capabilityId displayCode activeExpiresAt bind).1⟩ ::
          events) := by
  have unexpired := follows.removeExpired elapsed
  have failed (error : PairingTransitionError) (id : CapabilityId) :
      PairingEvent.statusOf (⟨later, .approve capabilityId displayCode activeExpiresAt bind,
        .transition (.error error)⟩ : PairingEvent CapabilityId Verifier Source UserId Dek) id =
          none := by
    cases bind with
    | none => rfl
    | some binding => rfl
  unfold PairingState.approve
  split
  · exact (follows.elapse elapsed).idle (fun _ => rfl) (failed _) rfl
  · rename_i code parsed
    dsimp only
    generalize state.removeExpired later = kept at unexpired
    split
    · exact unexpired.idle (fun _ => rfl) (failed _) rfl
    · rename_i entry found
      obtain ⟨member, isId, isCode, awaits⟩ := awaitingEntry_eq_ok found
      cases bind with
      | none => exact unexpired.idle (fun _ => rfl) (failed _) rfl
      | some binding =>
        refine unexpired.setEntry ?_ rfl
        refine unexpired.1.setEntry member ⟨rfl, rfl, rfl, rfl⟩ (.inr ⟨rfl, rfl⟩) ?_ ?_
          (fun _ => rfl) ?_ ?_
        · rw [awaits]
          exact .approve _
        · intro other _ isOther
          have nonempty : entry.code ≠ "" := isCode ▸ parseDisplayCode_ne_empty parsed
          exact parsed.trans (congrArg some (isCode.symm.trans (isOther nonempty)))
        · exact if_pos isId.symm
        · intro id apart
          exact if_neg fun same => apart (same.symm.trans isId.symm)

theorem PairingState.Follows.deny (follows : state.Follows now events) (elapsed : now ≤ later)
    (capabilityId : CapabilityId) (displayCode : String) :
    (state.deny later capabilityId displayCode).2.Follows later
      (⟨later, .deny capabilityId displayCode,
        .transition (state.deny later capabilityId displayCode).1⟩ :: events) := by
  have unexpired := follows.removeExpired elapsed
  unfold PairingState.deny
  split
  · exact (follows.elapse elapsed).idle (fun _ => rfl) (fun _ => rfl) rfl
  · rename_i code parsed
    dsimp only
    generalize state.removeExpired later = kept at unexpired
    split
    · exact unexpired.idle (fun _ => rfl) (fun _ => rfl) rfl
    · rename_i entry found
      obtain ⟨member, isId, isCode, awaits⟩ := awaitingEntry_eq_ok found
      refine unexpired.setEntry ?_ rfl
      refine unexpired.1.setEntry member ⟨rfl, rfl, rfl, rfl⟩ (.inr ⟨rfl, rfl⟩) ?_ ?_
        (fun _ => rfl) ?_ ?_
      · rw [awaits]
        exact .deny
      · intro other _ isOther
        have nonempty : entry.code ≠ "" := isCode ▸ parseDisplayCode_ne_empty parsed
        exact parsed.trans (congrArg some (isCode.symm.trans (isOther nonempty)))
      · exact if_pos isId.symm
      · intro id apart
        exact if_neg fun same => apart (same.symm.trans isId.symm)

/-! ## Claims -/

omit [DecidableEq Verifier] [DecidableEq Source] in
theorem PairingState.setEntry_self (keyed : Keyed PendingPairing.capabilityId state.pending)
    {entry : PendingPairing CapabilityId Verifier UserId Dek} (member : entry ∈ state.pending) :
    state.setEntry entry = state := by
  have same : state.pending.map (fun old =>
      if old.capabilityId = entry.capabilityId then entry else old) = state.pending := by
    refine (List.map_congr_left fun old oldMember => ?_).trans (List.map_id _)
    split
    · rename_i isId
      exact (List.inj_on_of_nodup_map keyed oldMember member isId).symm
    · rfl
  rw [PairingState.setEntry, same]

theorem PairingState.Follows.claim (follows : state.Follows now events) (elapsed : now ≤ later)
    (capabilityId : CapabilityId) (keyVerifier : Verifier)
    (activate : ApprovedPairingClaim CapabilityId UserId Dek → Option (ClaimedPairing UserId)) :
    (state.claim later capabilityId keyVerifier activate).2.Follows later
      (⟨later, .claim capabilityId keyVerifier activate,
        .claim (state.claim later capabilityId keyVerifier activate).1.1
          (state.claim later capabilityId keyVerifier activate).1.2⟩ :: events) := by
  have unexpired := follows.removeExpired elapsed
  unfold PairingState.claim
  dsimp only
  generalize state.removeExpired later = kept at unexpired
  split
  · exact unexpired.idle (fun _ => rfl) (fun _ => rfl) rfl
  · rename_i entry found
    have member := mem_of_find found
    have isId := find_eq_some_key found
    split
    · exact unexpired.idle (fun _ => rfl) (fun _ => rfl) rfl
    · rename_i isVerifier
      rw [not_not] at isVerifier
      have names (start : StartedEntry Verifier) (same : entry.keyVerifier = start.keyVerifier) :
          keyVerifier = start.keyVerifier := isVerifier.symm.trans same
      split
      · exact unexpired.idle (fun _ => rfl) (fun _ => rfl) rfl
      · exact unexpired.idle (fun _ => rfl) (fun _ => rfl) rfl
      · rename_i claimed isCompleted
        have same := PairingState.setEntry_self unexpired.1.keyed member
        dsimp only
        rw [← same]
        refine unexpired.setEntry ?_ rfl
        refine unexpired.1.setEntry member ⟨rfl, rfl, rfl, rfl⟩ (.inr ⟨rfl, rfl⟩) ?_
          (fun start same _ => names start same) (fun _ => rfl) ?_ ?_
        · rw [isCompleted]
          exact .again _
        · rw [isCompleted]
          exact if_pos isId.symm
        · intro id apart
          exact if_neg fun other => apart (other.symm.trans isId.symm)
      · rename_i approval isApproved
        split
        · exact unexpired.idle (fun _ => rfl) (fun _ => rfl) rfl
        · rename_i claimed activated
          refine unexpired.setEntry ?_ rfl
          refine unexpired.1.setEntry member ⟨rfl, rfl, rfl, rfl⟩ (.inl ⟨⟨_, rfl⟩, rfl⟩) ?_
            (fun start same _ => names start same) (fun _ => rfl) ?_ ?_
          · rw [isApproved]
            exact .complete _ _
          · exact if_pos isId.symm
          · intro id apart
            exact if_neg fun other => apart (other.symm.trans isId.symm)

/-- A call changes the store as its history says. -/
theorem PairingState.Follows.run (follows : state.Follows now events) (elapsed : now ≤ later)
    (call : PairingCall CapabilityId Verifier Source UserId Dek) :
    (state.run later call).2.Follows later
      (⟨later, call, (state.run later call).1⟩ :: events) := by
  cases call with
  | start source start generated durableVerifierExists =>
    exact follows.start elapsed source start generated durableVerifierExists
  | review displayCode => exact follows.review elapsed displayCode
  | approve capabilityId displayCode activeExpiresAt bind =>
    exact follows.approve elapsed capabilityId displayCode activeExpiresAt bind
  | deny capabilityId displayCode => exact follows.deny elapsed capabilityId displayCode
  | claim capabilityId keyVerifier activate =>
    exact follows.claim elapsed capabilityId keyVerifier activate
  | removeExpired =>
    exact (follows.removeExpired elapsed).idle (fun _ => rfl) (fun _ => rfl) rfl

/-! ## Safety -/

omit [DecidableEq Verifier] [DecidableEq Source] in
theorem Legal.names_of_mem {capabilityId : CapabilityId} {start : StartedEntry Verifier}
    {since : List (PairingEvent CapabilityId Verifier Source UserId Dek)}
    (legal : Legal capabilityId start since) (member : event ∈ since)
    {status : PairingStatus UserId Dek} (gives : event.statusOf capabilityId = some status) :
    event.Names start := by
  induction since with
  | nil => cases member
  | cons first older ih =>
    rcases List.mem_cons.mp member with rfl | later
    · exact (legal.1 status gives).2
    · exact ih legal.2 later

omit [DecidableEq Source] in
/-- `activate` is called for an approved entry with the id and the verifier of the claim. -/
theorem claim_called {capabilityId : CapabilityId} {keyVerifier : Verifier}
    {activate : ApprovedPairingClaim CapabilityId UserId Dek → Option (ClaimedPairing UserId)}
    {result : Except PairingClaimError (ClaimedPairing UserId)}
    {called : ApprovedPairingClaim CapabilityId UserId Dek}
    (isClaim : (state.claim now capabilityId keyVerifier activate).1 = (result, some called)) :
    ∃ entry ∈ (state.removeExpired now).pending, entry.capabilityId = capabilityId ∧
      entry.keyVerifier = keyVerifier ∧ ∃ approval, entry.status = .approved approval ∧
        called = {
          capabilityId
          userId := approval.userId
          dek := approval.dek
          clientName := entry.clientName
          permission := entry.permission
          activeExpiresAt := approval.activeExpiresAt } := by
  unfold PairingState.claim at isClaim
  dsimp only at isClaim
  split at isClaim
  · cases isClaim
  · rename_i entry found
    split at isClaim
    · cases isClaim
    · rename_i isVerifier
      refine ⟨entry, mem_of_find found, find_eq_some_key found, not_not.mp isVerifier, ?_⟩
      split at isClaim
      · cases isClaim
      · cases isClaim
      · cases isClaim
      · rename_i approval isApproved
        refine ⟨approval, isApproved, ?_⟩
        split at isClaim
        · exact (Option.some.inj (Prod.mk.inj isClaim).2).symm
        · exact (Option.some.inj (Prod.mk.inj isClaim).2).symm

omit [DecidableEq Source] in
theorem claim_completed {entry : PendingPairing CapabilityId Verifier UserId Dek}
    (keyed : Keyed PendingPairing.capabilityId (state.removeExpired now).pending)
    (member : entry ∈ (state.removeExpired now).pending) {claimed : ClaimedPairing UserId}
    (isCompleted : entry.status = .completed claimed)
    (activate : ApprovedPairingClaim CapabilityId UserId Dek → Option (ClaimedPairing UserId)) :
    (state.claim now entry.capabilityId entry.keyVerifier activate).1 = (.ok claimed, none) := by
  have found := (find_key_eq_some_iff keyed).mpr member
  unfold PairingState.claim
  dsimp only
  rw [found]
  dsimp only
  rw [if_neg (not_not.mpr rfl), isCompleted]

/-- What the events before a call of `activate` say of the pairing that it is called for. -/
structure ActivationAllowed (older : List (PairingEvent CapabilityId Verifier Source UserId Dek))
    (now : ℤ) (capabilityId : CapabilityId) (keyVerifier : Verifier)
    (called : ApprovedPairingClaim CapabilityId UserId Dek) (start : StartedEntry Verifier)
    (since : List (PairingEvent CapabilityId Verifier Source UserId Dek)) : Prop where
  started : sinceStart capabilityId older = some (start, since)
  keyVerifier : keyVerifier = start.keyVerifier
  unexpired : now < start.expiresAt
  claim : called.capabilityId = capabilityId ∧ called.clientName = start.clientName ∧
    called.permission = start.permission
  approved : ∃ approval ∈ since, approval.Names start ∧
    approval.statusOf capabilityId =
      some (.approved ⟨called.userId, called.dek, called.activeExpiresAt⟩)
  undenied : ∀ event ∈ since, event.statusOf capabilityId ≠ some .denied
  unclaimed : ∀ event ∈ since, ∀ claimed,
    event.statusOf capabilityId ≠ some (.completed claimed)

/-- The history and the state of a store that only does what it may. -/
structure PairingHistory.Safe (history : PairingHistory CapabilityId Verifier Source UserId Dek) :
    Prop where
  activations : ∀ newer event older, history.events = newer ++ event :: older →
    ∀ capabilityId keyVerifier activate result called,
      event.call = .claim capabilityId keyVerifier activate →
      event.outcome = .claim result (some called) →
      ∃ start since,
        ActivationAllowed older event.now capabilityId keyVerifier called start since
  repeats : ∀ newer event older, history.events = newer ++ event :: older →
    ∀ capabilityId keyVerifier activate start since,
      event.call = .claim capabilityId keyVerifier activate →
      sinceStart capabilityId older = some (start, since) → event.now < start.expiresAt →
      ∀ earlier ∈ since, ∀ earlierActivate claimed earlierCalled,
        earlier.call = .claim capabilityId keyVerifier earlierActivate →
        earlier.outcome = .claim (.ok claimed) earlierCalled →
        event.outcome = .claim (.ok claimed) none
  verifiers : history.state.verifiers = (history.state.pending.map (·.keyVerifier)).toFinset
  distinctVerifiers : (history.state.pending.map (·.keyVerifier)).Nodup
  distinctCodes : ∀ first ∈ history.state.pending, ∀ second ∈ history.state.pending,
    first.status = .awaitingApproval → second.status = .awaitingApproval →
      first.code = second.code → first = second
  capacity : history.state.pending.length ≤ maxPendingPairings
  sourceStarts : ∀ source, SlidingWindow.Bounded sourceWindow maxSourceStarts
    (countedStarts (· = source) history.events)
  globalStarts : SlidingWindow.Bounded globalWindow maxGlobalStarts
    (countedStarts (fun _ => true) history.events)

variable {older since : List (PairingEvent CapabilityId Verifier Source UserId Dek)}
  {start : StartedEntry Verifier} {capabilityId : CapabilityId} {keyVerifier : Verifier}
  {activate : ApprovedPairingClaim CapabilityId UserId Dek → Option (ClaimedPairing UserId)}

/-- A store that follows its history calls `activate` only where the history allows it. -/
theorem PairingState.Follows.activationAllowed (follows : state.Follows now older)
    (elapsed : now ≤ later) {result : Except PairingClaimError (ClaimedPairing UserId)}
    {called : ApprovedPairingClaim CapabilityId UserId Dek}
    (isClaim : (state.claim later capabilityId keyVerifier activate).1 = (result, some called)) :
    ∃ start since, ActivationAllowed older later capabilityId keyVerifier called start since := by
  obtain ⟨entry, member, rfl, rfl, approval, isApproved, rfl⟩ := claim_called isClaim
  obtain ⟨start, since, found, isMatch⟩ := (follows.removeExpired elapsed).1.entries entry member
  have unexpired : ¬ entry.expiresAt ≤ later :=
    of_decide_eq_true (List.mem_filter.mp member).2
  have status : statusAfter entry.capabilityId since = .approved approval :=
    isMatch.status.symm.trans isApproved
  refine ⟨start, since, found, isMatch.keyVerifier, ?_, ⟨rfl, ?_, isMatch.permission⟩, ?_, ?_, ?_⟩
  · rw [← isMatch.expiresAt]
    exact not_le.mp unexpired
  · rcases isMatch.texts with ⟨⟨claimed, isCompleted⟩, _⟩ | texts
    · rw [isApproved] at isCompleted
      cases isCompleted
    · exact texts.2
  · obtain ⟨event, isEvent, gives, names⟩ := isMatch.legal.approved status
    exact ⟨event, isEvent, names, gives⟩
  · intro event isEvent gives
    rcases isMatch.legal.statusAfter_of_mem isEvent gives with same | ⟨_, _, isDenied, _⟩
    · rw [status] at same
      cases same
    · cases isDenied
  · intro event isEvent claimed gives
    rcases isMatch.legal.statusAfter_of_mem isEvent gives with same | ⟨_, _, isCompleted, _⟩
    · rw [status] at same
      cases same
    · cases isCompleted

theorem PairingState.Follows.repeats (follows : state.Follows now older) (elapsed : now ≤ later)
    (found : sinceStart capabilityId older = some (start, since))
    (unexpired : later < start.expiresAt) (isEarlier : event ∈ since)
    {earlierActivate : ApprovedPairingClaim CapabilityId UserId Dek →
      Option (ClaimedPairing UserId)} {claimed : ClaimedPairing UserId}
    {earlierCalled : Option (ApprovedPairingClaim CapabilityId UserId Dek)}
    (earlierCall : event.call = .claim capabilityId keyVerifier earlierActivate)
    (earlierOutcome : event.outcome = .claim (.ok claimed) earlierCalled) :
    (state.claim later capabilityId keyVerifier activate).1 = (.ok claimed, none) := by
  have kept := (follows.removeExpired elapsed).1
  obtain ⟨entry, member, rfl⟩ := kept.present capabilityId start since found unexpired
  obtain ⟨_, _, otherFound, isMatch⟩ := kept.entries entry member
  obtain ⟨rfl, rfl⟩ := Prod.mk.inj (Option.some.inj (found.symm.trans otherFound))
  have gives : event.statusOf entry.capabilityId = some (.completed claimed) := by
    rw [PairingEvent.statusOf, earlierCall, earlierOutcome]
    exact if_pos rfl
  have names := isMatch.legal.names_of_mem isEarlier gives
  rw [PairingEvent.Names, earlierCall] at names
  have isCompleted : entry.status = .completed claimed := by
    rw [isMatch.status]
    rcases isMatch.legal.statusAfter_of_mem isEarlier gives with same | ⟨_, _, isApproved, _⟩
    · exact same
    · cases isApproved
  have same : keyVerifier = entry.keyVerifier := names.trans isMatch.keyVerifier.symm
  rw [same]
  exact claim_completed kept.keyed member isCompleted activate

/-- Calls are made in time order. -/
def PairingHistory.InOrder (step : ℤ × PairingCall CapabilityId Verifier Source UserId Dek)
    (history : PairingHistory CapabilityId Verifier Source UserId Dek) : Prop :=
  history.now ≤ step.1

variable {history : PairingHistory CapabilityId Verifier Source UserId Dek}

theorem follows_of_reached (reached : Reached (fun step before after =>
      after = before.call step.1 step.2) PairingHistory.InOrder
      ⟨{}, now, []⟩ history) :
    history.state.Follows history.now history.events ∧
      ∀ newer event older, history.events = newer ++ event :: older →
        ∃ state now, PairingState.Follows state now older ∧ now ≤ event.now ∧
          (state.run event.now event.call).1 = event.outcome := by
  refine @Reached.invariant _ _ _ _ _ _ reached (fun history =>
    history.state.Follows history.now history.events ∧
      ∀ newer event older, history.events = newer ++ event :: older →
        ∃ state now, PairingState.Follows state now older ∧ now ≤ event.now ∧
          (state.run event.now event.call).1 = event.outcome) ?_ ?_
  · refine ⟨⟨followsEntries_empty, followsStarts_empty⟩, ?_⟩
    intro newer event older split
    exact absurd split.symm (List.append_ne_nil_of_right_ne_nil _ (List.cons_ne_nil _ _))
  · rintro ⟨later, call⟩ before after ⟨follows, followed⟩ elapsed rfl
    refine ⟨follows.run elapsed call, ?_⟩
    intro newer event older split
    cases newer with
    | nil =>
      obtain ⟨rfl, rfl⟩ := List.cons.inj split
      exact ⟨before.state, before.now, follows, elapsed, rfl⟩
    | cons first newer => exact followed newer event older (List.cons.inj split).2

/-- Whatever is called in time order on a new store, with any ids, codes, sources, verifiers and
results of the callbacks: `activate` is called only for a pairing that was approved with its id and
code, was not denied or claimed since its start and has not expired; a claim that has succeeded
is repeated; and ids, verifiers, codes, entries and counted starts are bounded as they should. -/
theorem pairing_safe (reached : Reached (fun step before after =>
      after = before.call step.1 step.2) PairingHistory.InOrder
      ⟨{}, now, []⟩ history) : history.Safe := by
  obtain ⟨⟨entries, starts⟩, followed⟩ := follows_of_reached reached
  refine ⟨?_, ?_, entries.verifiers, entries.distinctVerifiers, ?_, entries.capacity,
    starts.sourceBounds, starts.globalBounds⟩
  · intro newer event older split capabilityId keyVerifier activate result called isCall isOutcome
    obtain ⟨state, before, follows, elapsed, outcome⟩ := followed newer event older split
    rw [isCall, isOutcome] at outcome
    have isClaim : (state.claim event.now capabilityId keyVerifier activate).1 =
        (result, some called) := by
      refine Prod.ext ?_ ?_
      · exact (PairingOutcome.claim.inj outcome).1
      · exact (PairingOutcome.claim.inj outcome).2
    exact follows.activationAllowed elapsed isClaim
  · intro newer event older split capabilityId keyVerifier activate start since isCall found
      unexpired earlier isEarlier earlierActivate claimed earlierCalled earlierCall earlierOutcome
    obtain ⟨state, before, follows, elapsed, outcome⟩ := followed newer event older split
    rw [← outcome, isCall]
    have result : (state.claim event.now capabilityId keyVerifier activate).1 =
        (.ok claimed, none) :=
      follows.repeats elapsed found unexpired isEarlier earlierCall earlierOutcome
    exact congrArg₂ PairingOutcome.claim (congrArg Prod.fst result) (congrArg Prod.snd result)
  · intro first isFirst second isSecond firstAwaits _ same
    have live : first.code ≠ "" := by
      obtain ⟨start, since, _, isMatch⟩ := entries.entries first isFirst
      rcases isMatch.texts with ⟨⟨claimed, isCompleted⟩, _⟩ | texts
      · rw [firstAwaits] at isCompleted
        cases isCompleted
      · exact texts.1 ▸ isMatch.code
    have nodup := entries.distinctCodes
    rw [List.filter_map] at nodup
    refine List.inj_on_of_nodup_map nodup ?_ ?_ same
    · exact List.mem_filter.mpr ⟨isFirst, decide_eq_true live⟩
    · rw [same] at live
      exact List.mem_filter.mpr ⟨isSecond, decide_eq_true live⟩

end Runs

/-- A pairing that is started. -/
def startedPairing : PairingHistory ℕ ℕ ℕ ℕ ℕ :=
  PairingHistory.call ⟨{}, 0, []⟩ 0
    (.start 1 ⟨"laptop", 5, .balancesRead⟩ [(7, List.Vector.replicate 8 0)] fun _ => some false)

/-- It is approved with its code. -/
def approvedPairing : PairingHistory ℕ ℕ ℕ ℕ ℕ :=
  startedPairing.call 1 (.approve 7 "0000-0000" none (some ⟨3, some 9⟩))

/-- It is claimed with its verifier. -/
def claimedPairing : PairingHistory ℕ ℕ ℕ ℕ ℕ :=
  approvedPairing.call 2 (.claim 7 5 fun claim => some ⟨claim.userId, claim.permission⟩)

theorem now_call (history : PairingHistory ℕ ℕ ℕ ℕ ℕ) (now : ℤ) (call : PairingCall ℕ ℕ ℕ ℕ ℕ) :
    (history.call now call).now = now := rfl

set_option maxRecDepth 4096 in
theorem pairing_safe_claimedPairing : claimedPairing.Safe ∧
    claimedPairing.events.head?.map PairingEvent.outcome =
      some (.claim (.ok ⟨3, .balancesRead⟩)
        (some ⟨7, 3, some 9, "laptop", .balancesRead, none⟩)) := by
  constructor
  · have started := @Reached.step _ _ (fun step before after => after = before.call step.1 step.2)
      PairingHistory.InOrder (⟨{}, 0, []⟩ : PairingHistory ℕ ℕ ℕ ℕ ℕ) _ startedPairing (0, _)
      .start (le_refl (0 : ℤ)) rfl
    have startedAt : startedPairing.now = 0 := now_call _ 0 _
    have approvedAt : approvedPairing.now = 1 := now_call _ 1 _
    have approved := @Reached.step _ _ _ _ _ _ approvedPairing (1, _) started
      (startedAt.trans_le (Int.zero_le_ofNat 1)) rfl
    have claimed := @Reached.step _ _ _ _ _ _ claimedPairing (2, _) approved
      (approvedAt.trans_le (Int.ofNat_le.mpr (Nat.le_succ 1))) rfl
    exact pairing_safe claimed
  · rfl

end Bitgarth.Auth
