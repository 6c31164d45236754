import Mathlib.Algebra.Order.Group.Int
import Bitgarth.Auth.PairingStore
import Bitgarth.Foundation.Reachability

/-! # Histories of the pairing store

A history lists the calls of a store with their outcomes, the newest first. What happened to a
pairing since it was started decides the status that it should have (`statusAfter`), and a store
that was reached by calls in time order follows its history (`Follows`).
-/

namespace Bitgarth.Auth

open KeyedTable Reachability

section Calls

variable (CapabilityId Verifier Source UserId Dek : Type)

/-- A call with what its callbacks return, or a tick of the cleanup of expired pairings. -/
inductive PairingCall where
  | start (source : Source) (start : ValidatedPairingStart Verifier)
      (generated : List (CapabilityId × List.Vector UInt8 8))
      (durableVerifierExists : Verifier → Option Bool)
  | review (displayCode : String)
  | approve (capabilityId : CapabilityId) (displayCode : String) (activeExpiresAt : Option ℤ)
      (bind : Option (ApprovedPairingBinding UserId Dek))
  | deny (capabilityId : CapabilityId) (displayCode : String)
  | claim (capabilityId : CapabilityId) (keyVerifier : Verifier)
      (activate : ApprovedPairingClaim CapabilityId UserId Dek → Option (ClaimedPairing UserId))
  | removeExpired

inductive PairingOutcome where
  | start (result : Except PairingStartError (StartedPairing CapabilityId))
  | review (result : Except PairingTransitionError (PendingPairingReview CapabilityId))
  | transition (result : Except PairingTransitionError Unit)
  | claim (result : Except PairingClaimError (ClaimedPairing UserId))
      (called : Option (ApprovedPairingClaim CapabilityId UserId Dek))
  | cleaned

structure PairingEvent where
  now : ℤ
  call : PairingCall CapabilityId Verifier Source UserId Dek
  outcome : PairingOutcome CapabilityId UserId Dek

/-- A store at the time of its latest call, with its history. -/
structure PairingHistory where
  state : PairingState CapabilityId Verifier Source UserId Dek
  now : ℤ
  events : List (PairingEvent CapabilityId Verifier Source UserId Dek)

/-- What a client was started with, and when that expires. -/
structure StartedEntry where
  code : String
  clientName : String
  keyVerifier : Verifier
  permission : ClientPermission
  expiresAt : ℤ

end Calls

section Histories

variable {CapabilityId Verifier Source UserId Dek : Type} [DecidableEq CapabilityId]
  [DecidableEq Verifier] [DecidableEq Source]

def PairingState.run (state : PairingState CapabilityId Verifier Source UserId Dek) (now : ℤ) :
    PairingCall CapabilityId Verifier Source UserId Dek →
      PairingOutcome CapabilityId UserId Dek ×
        PairingState CapabilityId Verifier Source UserId Dek
  | .start source start generated durableVerifierExists =>
    let (result, state) := state.start now source start generated durableVerifierExists
    (.start result, state)
  | .review displayCode =>
    let (result, state) := state.review now displayCode
    (.review result, state)
  | .approve capabilityId displayCode activeExpiresAt bind =>
    let (result, state) := state.approve now capabilityId displayCode activeExpiresAt bind
    (.transition result, state)
  | .deny capabilityId displayCode =>
    let (result, state) := state.deny now capabilityId displayCode
    (.transition result, state)
  | .claim capabilityId keyVerifier activate =>
    let ((result, called), state) := state.claim now capabilityId keyVerifier activate
    (.claim result called, state)
  | .removeExpired => (.cleaned, state.removeExpired now)

def PairingHistory.call (history : PairingHistory CapabilityId Verifier Source UserId Dek)
    (now : ℤ) (call : PairingCall CapabilityId Verifier Source UserId Dek) :
    PairingHistory CapabilityId Verifier Source UserId Dek :=
  let (outcome, state) := history.state.run now call
  { state, now, events := { now, call, outcome } :: history.events }

/-! ## What events say -/

namespace PairingEvent

variable (event : PairingEvent CapabilityId Verifier Source UserId Dek)

/-- The entry that an event starts under an id. -/
def startOf (capabilityId : CapabilityId) : Option (StartedEntry Verifier) :=
  match event.call, event.outcome with
  | .start _ start _ _, .start (.ok started) =>
    if started.capabilityId = capabilityId then
      some {
        code := started.code
        clientName := start.clientName
        keyVerifier := start.keyVerifier
        permission := start.permission
        expiresAt := started.expiresAt }
    else none
  | _, _ => none

/-- The status that an event gives the pairing of an id. -/
def statusOf (capabilityId : CapabilityId) : Option (PairingStatus UserId Dek) :=
  match event.call, event.outcome with
  | .approve id _ activeExpiresAt (some binding), .transition (.ok _) =>
    if id = capabilityId then
      some (.approved { userId := binding.userId, dek := binding.dek, activeExpiresAt })
    else none
  | .deny id _, .transition (.ok _) => if id = capabilityId then some .denied else none
  | .claim id _ _, .claim (.ok claimed) _ =>
    if id = capabilityId then some (.completed claimed) else none
  | _, _ => none

/-- A successful approval or denial names the code of the pairing, and a claim its verifier. -/
def Names (start : StartedEntry Verifier) : Prop :=
  match event.call with
  | .approve _ displayCode _ _ => parseDisplayCode displayCode = some start.code
  | .deny _ displayCode => parseDisplayCode displayCode = some start.code
  | .claim _ keyVerifier _ => keyVerifier = start.keyVerifier
  | _ => True

/-- The source whose start an event counts. -/
def counted : Option Source :=
  match event.call, event.outcome with
  | .start _ _ _ _, .start (.error (.rateLimited _)) => none
  | .start _ _ _ _, .start (.error (.capacityFull _)) => none
  | .start source _ _ _, .start _ => some source
  | _, _ => none

end PairingEvent

/-- The latest start under an id, with what happened since. -/
def sinceStart (capabilityId : CapabilityId) :
    List (PairingEvent CapabilityId Verifier Source UserId Dek) →
      Option (StartedEntry Verifier × List (PairingEvent CapabilityId Verifier Source UserId Dek))
  | [] => none
  | event :: older =>
    match event.startOf capabilityId with
    | some start => some (start, [])
    | none => (sinceStart capabilityId older).map fun found => (found.1, event :: found.2)

/-- The status of a pairing after what happened since its start. -/
def statusAfter (capabilityId : CapabilityId) :
    List (PairingEvent CapabilityId Verifier Source UserId Dek) → PairingStatus UserId Dek
  | [] => .awaitingApproval
  | event :: older => (event.statusOf capabilityId).getD (statusAfter capabilityId older)

/-- How a status may change. -/
inductive StatusChange : PairingStatus UserId Dek → PairingStatus UserId Dek → Prop where
  | approve (approval : ApprovedPairing UserId Dek) :
      StatusChange .awaitingApproval (.approved approval)
  | deny : StatusChange .awaitingApproval .denied
  | complete (approval : ApprovedPairing UserId Dek) (claimed : ClaimedPairing UserId) :
      StatusChange (.approved approval) (.completed claimed)
  | again (claimed : ClaimedPairing UserId) : StatusChange (.completed claimed) (.completed claimed)

/-- Every event since the start of a pairing changed its status as it may, and named it. -/
def Legal (capabilityId : CapabilityId) (start : StartedEntry Verifier) :
    List (PairingEvent CapabilityId Verifier Source UserId Dek) → Prop
  | [] => True
  | event :: older =>
    (∀ status, event.statusOf capabilityId = some status →
      StatusChange (statusAfter capabilityId older) status ∧ event.Names start) ∧
    Legal capabilityId start older

/-- The times of the starts that a predicate on their sources counts, the oldest first. -/
def countedStarts (counts : Source → Bool)
    (events : List (PairingEvent CapabilityId Verifier Source UserId Dek)) : List ℤ :=
  (events.filterMap fun event =>
    if event.counted.any counts then some event.now else none).reverse

variable {capabilityId : CapabilityId} {start : StartedEntry Verifier}
  {event : PairingEvent CapabilityId Verifier Source UserId Dek}
  {since : List (PairingEvent CapabilityId Verifier Source UserId Dek)}

omit [DecidableEq Verifier] [DecidableEq Source] in
theorem PairingEvent.statusOf_ne_awaitingApproval :
    event.statusOf capabilityId ≠ some .awaitingApproval := by
  intro gives
  unfold statusOf at gives
  split at gives
  · split at gives
    · cases gives
    · cases gives
  · split at gives
    · cases gives
    · cases gives
  · split at gives
    · cases gives
    · cases gives
  · cases gives

omit [DecidableEq Verifier] [DecidableEq Source] in
theorem Legal.statusAfter_of_mem (legal : Legal capabilityId start since) (member : event ∈ since)
    {status : PairingStatus UserId Dek} (gives : event.statusOf capabilityId = some status) :
    statusAfter capabilityId since = status ∨
      ∃ approval claimed, status = .approved approval ∧
        statusAfter capabilityId since = .completed claimed := by
  induction since with
  | nil => cases member
  | cons first older ih =>
    rw [statusAfter]
    cases isFirst : first.statusOf capabilityId with
    | none =>
      rcases List.mem_cons.mp member with rfl | later
      · rw [isFirst] at gives
        cases gives
      · exact ih legal.2 later
    | some next =>
      rw [Option.getD_some]
      rcases List.mem_cons.mp member with rfl | later
      · rw [isFirst] at gives
        exact .inl (Option.some.inj gives)
      · have change := (legal.1 next isFirst).1
        rcases ih legal.2 later with same | ⟨approval, claimed, isApproved, isCompleted⟩
        · rw [same] at change
          cases change with
          | approve approval => exact absurd gives event.statusOf_ne_awaitingApproval
          | deny => exact absurd gives event.statusOf_ne_awaitingApproval
          | complete approval claimed => exact .inr ⟨approval, claimed, rfl, rfl⟩
          | again claimed => exact .inl rfl
        · rw [isCompleted] at change
          cases change
          exact .inr ⟨approval, claimed, isApproved, rfl⟩

omit [DecidableEq Verifier] [DecidableEq Source] in
theorem Legal.approved (legal : Legal capabilityId start since)
    {approval : ApprovedPairing UserId Dek}
    (isApproved : statusAfter capabilityId since = .approved approval) :
    ∃ event ∈ since, event.statusOf capabilityId = some (.approved approval) ∧
      event.Names start := by
  induction since with
  | nil => cases isApproved
  | cons first older ih =>
    rw [statusAfter] at isApproved
    cases isFirst : first.statusOf capabilityId with
    | none =>
      rw [isFirst] at isApproved
      obtain ⟨event, member, gives, names⟩ := ih legal.2 isApproved
      exact ⟨event, List.mem_cons_of_mem _ member, gives, names⟩
    | some status =>
      rw [isFirst, Option.getD_some] at isApproved
      subst isApproved
      exact ⟨first, List.mem_cons_self, isFirst, (legal.1 _ isFirst).2⟩

/-! ## Stores that follow their history -/

/-- An entry is what was started, with the status that the events since then gave it. A completed
entry has lost its code and name. -/
structure PendingPairing.Matches (entry : PendingPairing CapabilityId Verifier UserId Dek)
    (start : StartedEntry Verifier)
    (since : List (PairingEvent CapabilityId Verifier Source UserId Dek)) : Prop where
  keyVerifier : entry.keyVerifier = start.keyVerifier
  permission : entry.permission = start.permission
  expiresAt : entry.expiresAt = start.expiresAt
  status : entry.status = statusAfter entry.capabilityId since
  legal : Legal entry.capabilityId start since
  code : start.code ≠ ""
  texts : (∃ claimed, entry.status = .completed claimed) ∧ entry.code = "" ∨
    (entry.code = start.code ∧ entry.clientName = start.clientName)

/-- The store has the entries of the started pairings that have not expired, each as its events
left it, with distinct ids, verifiers and codes. -/
structure PairingState.FollowsEntries
    (state : PairingState CapabilityId Verifier Source UserId Dek)
    (now : ℤ) (events : List (PairingEvent CapabilityId Verifier Source UserId Dek)) : Prop where
  keyed : Keyed PendingPairing.capabilityId state.pending
  verifiers : state.verifiers = (state.pending.map (·.keyVerifier)).toFinset
  distinctVerifiers : (state.pending.map (·.keyVerifier)).Nodup
  distinctCodes : ((state.pending.map (·.code)).filter (· ≠ "")).Nodup
  capacity : state.pending.length ≤ maxPendingPairings
  entries : ∀ entry ∈ state.pending, ∃ start since,
    sinceStart entry.capabilityId events = some (start, since) ∧ entry.Matches start since
  present : ∀ capabilityId start since, sinceStart capabilityId events = some (start, since) →
    now < start.expiresAt → ∃ entry ∈ state.pending, entry.capabilityId = capabilityId

/-- The store has the counted starts of the latest windows, and no window has too many. -/
structure PairingState.FollowsStarts
    (state : PairingState CapabilityId Verifier Source UserId Dek)
    (now : ℤ) (events : List (PairingEvent CapabilityId Verifier Source UserId Dek)) : Prop where
  sourceWindows : ∀ source, SlidingWindow.Keeps sourceWindow now
    (countedStarts (· = source) events) (state.sourceStarts source)
  globalWindows : SlidingWindow.Keeps globalWindow now (countedStarts (fun _ => true) events)
    state.globalStarts
  sourceBounds : ∀ source,
    SlidingWindow.Bounded sourceWindow maxSourceStarts (countedStarts (· = source) events)
  globalBounds :
    SlidingWindow.Bounded globalWindow maxGlobalStarts (countedStarts (fun _ => true) events)

variable {state : PairingState CapabilityId Verifier Source UserId Dek} {now later : ℤ}
  {events : List (PairingEvent CapabilityId Verifier Source UserId Dek)}

omit [DecidableEq Source] in
theorem followsEntries_empty : PairingState.FollowsEntries
    ({} : PairingState CapabilityId Verifier Source UserId Dek) now [] where
  keyed := List.nodup_nil
  verifiers := rfl
  distinctVerifiers := List.nodup_nil
  distinctCodes := List.nodup_nil
  capacity := Nat.zero_le _
  entries := by
    intro entry member
    cases member
  present := by
    intro _ _ _ found
    cases found

omit [DecidableEq CapabilityId] [DecidableEq Verifier] in
theorem followsStarts_empty : PairingState.FollowsStarts
    ({} : PairingState CapabilityId Verifier Source UserId Dek) now [] where
  sourceWindows _ := SlidingWindow.keeps_nil
  globalWindows := SlidingWindow.keeps_nil
  sourceBounds _ := SlidingWindow.bounded_nil
  globalBounds := SlidingWindow.bounded_nil

/-! ## Entries -/

omit [DecidableEq Source] in
theorem PairingState.FollowsEntries.congr (follows : state.FollowsEntries now events)
    {other : PairingState CapabilityId Verifier Source UserId Dek}
    (pending : other.pending = state.pending) (verifiers : other.verifiers = state.verifiers) :
    other.FollowsEntries now events := by
  obtain ⟨keyed, isVerifiers, distinctVerifiers, distinctCodes, capacity, entries, present⟩ :=
    follows
  rw [← pending] at keyed isVerifiers distinctVerifiers distinctCodes capacity entries present
  exact ⟨keyed, verifiers.trans isVerifiers, distinctVerifiers, distinctCodes, capacity, entries,
    present⟩

omit [DecidableEq Source] in
theorem PairingState.FollowsEntries.elapse (follows : state.FollowsEntries now events)
    (elapsed : now ≤ later) : state.FollowsEntries later events := by
  refine { follows with present := ?_ }
  intro id start since found unexpired
  exact follows.present id start since found (elapsed.trans_lt unexpired)

omit [DecidableEq Source] in
theorem PairingState.FollowsEntries.removeExpired (follows : state.FollowsEntries now events)
    (elapsed : now ≤ later) : (state.removeExpired later).FollowsEntries later events := by
  have sub : List.Sublist (state.removeExpired later).pending state.pending :=
    List.filter_sublist
  refine ⟨follows.keyed.filter _, ?_, ?_, ?_, ?_, ?_, ?_⟩
  · ext verifier
    simp only [PairingState.removeExpired, Finset.mem_filter, List.mem_toFinset, List.mem_map,
      List.mem_filter, decide_eq_true_eq, follows.verifiers]
    constructor
    · rintro ⟨⟨entry, member, rfl⟩, unexpired⟩
      refine ⟨entry, ⟨member, ?_⟩, rfl⟩
      exact fun expired => unexpired entry ⟨member, expired⟩ rfl
    · rintro ⟨entry, ⟨member, unexpired⟩, rfl⟩
      refine ⟨⟨entry, member, rfl⟩, ?_⟩
      rintro other ⟨otherMember, expired⟩ same
      have isEntry := List.inj_on_of_nodup_map follows.distinctVerifiers member otherMember same
      exact unexpired (isEntry ▸ expired)
  · exact follows.distinctVerifiers.sublist (sub.map _)
  · exact follows.distinctCodes.sublist ((sub.map _).filter _)
  · exact sub.length_le.trans follows.capacity
  · exact fun entry member => follows.entries entry (sub.subset member)
  · intro id start since found unexpired
    obtain ⟨entry, member, rfl⟩ := follows.present id start since found
      (elapsed.trans_lt unexpired)
    refine ⟨entry, ?_, rfl⟩
    obtain ⟨otherStart, otherSince, otherFound, isMatch⟩ := follows.entries entry member
    obtain ⟨rfl, rfl⟩ := Prod.mk.inj (Option.some.inj (found.symm.trans otherFound))
    refine List.mem_filter.mpr ⟨member, decide_eq_true ?_⟩
    rw [isMatch.expiresAt]
    exact not_le.mpr unexpired

omit [DecidableEq Verifier] [DecidableEq Source] in
theorem sinceStart_cons (startless : event.startOf capabilityId = none) :
    sinceStart capabilityId (event :: events) =
      (sinceStart capabilityId events).map fun found => (found.1, event :: found.2) := by
  rw [sinceStart, startless]

omit [DecidableEq Verifier] [DecidableEq Source] in
theorem PendingPairing.Matches.idle {entry : PendingPairing CapabilityId Verifier UserId Dek}
    (isMatch : entry.Matches start since)
    (statusless : event.statusOf entry.capabilityId = none) :
    entry.Matches start (event :: since) := by
  refine { isMatch with status := ?_, legal := ⟨?_, isMatch.legal⟩ }
  · rw [statusAfter, statusless]
    exact isMatch.status
  · intro status gives
    rw [statusless] at gives
    cases gives

omit [DecidableEq Source] in
theorem PairingState.FollowsEntries.idle (follows : state.FollowsEntries now events)
    (startless : ∀ id, event.startOf id = none) (statusless : ∀ id, event.statusOf id = none) :
    state.FollowsEntries now (event :: events) := by
  refine { follows with entries := ?_, present := ?_ }
  · intro entry member
    obtain ⟨start, since, found, isMatch⟩ := follows.entries entry member
    refine ⟨start, event :: since, ?_, isMatch.idle (statusless _)⟩
    rw [sinceStart_cons (startless _), found]
    rfl
  · intro id start since found unexpired
    rw [sinceStart_cons (startless id)] at found
    obtain ⟨⟨_, older⟩, isFound, same⟩ := Option.map_eq_some_iff.mp found
    cases same
    exact follows.present id _ older isFound unexpired

theorem filter_map_sublist_of_cleared {Row : Type} {rows : List Row} {text cleared : Row → String}
    (clears : ∀ row ∈ rows, cleared row = text row ∨ cleared row = "") :
    List.Sublist ((rows.map cleared).filter (· ≠ "")) ((rows.map text).filter (· ≠ "")) := by
  induction rows with
  | nil => exact .slnil
  | cons row rest ih =>
    have later := ih fun other member => clears other (List.mem_cons_of_mem _ member)
    rw [List.map_cons, List.map_cons]
    rcases clears row List.mem_cons_self with same | empty
    · rw [same, List.filter_cons, List.filter_cons]
      split
      · exact later.cons_cons _
      · exact later
    · rw [empty, List.filter_cons_of_neg (by decide)]
      exact later.trans (List.Sublist.filter _ (List.sublist_cons_self _ _))

omit [DecidableEq Source] in
theorem PairingState.FollowsEntries.setEntry (follows : state.FollowsEntries now events)
    {entry next : PendingPairing CapabilityId Verifier UserId Dek} (member : entry ∈ state.pending)
    (same : next.capabilityId = entry.capabilityId ∧ next.keyVerifier = entry.keyVerifier ∧
      next.permission = entry.permission ∧ next.expiresAt = entry.expiresAt)
    (texts : (∃ claimed, next.status = .completed claimed) ∧ next.code = "" ∨
      (next.code = entry.code ∧ next.clientName = entry.clientName))
    (change : StatusChange entry.status next.status)
    (names : ∀ start : StartedEntry Verifier, entry.keyVerifier = start.keyVerifier →
      (entry.code ≠ "" → entry.code = start.code) → event.Names start)
    (startless : ∀ id, event.startOf id = none)
    (gives : event.statusOf entry.capabilityId = some next.status)
    (statusless : ∀ id, id ≠ entry.capabilityId → event.statusOf id = none) :
    (state.setEntry next).FollowsEntries now (event :: events) := by
  obtain ⟨sameId, sameVerifier, samePermission, sameExpiry⟩ := same
  have isEntry : ∀ old ∈ state.pending, old.capabilityId = next.capabilityId → old = entry :=
    fun old oldMember isId =>
      List.inj_on_of_nodup_map follows.keyed oldMember member (isId.trans sameId)
  have ids : (state.setEntry next).pending.map PendingPairing.capabilityId =
      state.pending.map PendingPairing.capabilityId := by
    rw [PairingState.setEntry, List.map_map]
    refine List.map_congr_left fun old oldMember => ?_
    dsimp only [Function.comp_apply]
    split
    · rename_i isId
      exact isId.symm
    · rfl
  have keyVerifiers : (state.setEntry next).pending.map (·.keyVerifier) =
      state.pending.map (·.keyVerifier) := by
    rw [PairingState.setEntry, List.map_map]
    refine List.map_congr_left fun old oldMember => ?_
    dsimp only [Function.comp_apply]
    split
    · rename_i isId
      rw [isEntry old oldMember isId, sameVerifier]
    · rfl
  refine ⟨?_, ?_, ?_, ?_, ?_, ?_, ?_⟩
  · rw [Keyed, ids]
    exact follows.keyed
  · rw [keyVerifiers]
    exact follows.verifiers
  · rw [keyVerifiers]
    exact follows.distinctVerifiers
  · refine follows.distinctCodes.sublist ?_
    rw [PairingState.setEntry, List.map_map]
    refine filter_map_sublist_of_cleared fun old oldMember => ?_
    dsimp only [Function.comp_apply]
    split
    · rename_i isId
      rw [isEntry old oldMember isId]
      exact texts.elim (fun cleared => .inr cleared.2) fun kept => .inl kept.1
    · exact .inl rfl
  · rw [PairingState.setEntry, List.length_map]
    exact follows.capacity
  · intro changed changedMember
    obtain ⟨old, oldMember, rfl⟩ := List.mem_map.mp changedMember
    obtain ⟨start, since, found, isMatch⟩ := follows.entries old oldMember
    split
    · rename_i isId
      obtain rfl := isEntry old oldMember isId
      refine ⟨start, event :: since, ?_, ?_⟩
      · rw [sameId, sinceStart_cons (startless _), found]
        rfl
      · have oldTexts := isMatch.texts
        refine ⟨sameVerifier.trans isMatch.keyVerifier, samePermission.trans isMatch.permission,
          sameExpiry.trans isMatch.expiresAt, ?_, ⟨?_, ?_⟩, isMatch.code, ?_⟩
        · rw [sameId, statusAfter, gives]
          rfl
        · intro status isStatus
          rw [sameId, gives] at isStatus
          rw [sameId, ← isMatch.status, ← Option.some.inj isStatus]
          refine ⟨change, names _ isMatch.keyVerifier fun live => ?_⟩
          exact oldTexts.elim (fun cleared => absurd cleared.2 live) And.left
        · rw [sameId]
          exact isMatch.legal
        · rcases texts with cleared | ⟨keptCode, keptName⟩
          · exact .inl cleared
          · rcases oldTexts with ⟨⟨claimed, isCompleted⟩, cleared⟩ | ⟨code, name⟩
            · rw [isCompleted] at change
              refine .inl ⟨⟨claimed, ?_⟩, keptCode.trans cleared⟩
              generalize next.status = status at change
              cases change
              rfl
            · exact .inr ⟨keptCode.trans code, keptName.trans name⟩
    · rename_i apart
      refine ⟨start, event :: since, ?_, isMatch.idle (statusless _ ?_)⟩
      · rw [sinceStart_cons (startless _), found]
        rfl
      · exact fun isId => apart (isId.trans sameId.symm)
  · intro id start since found unexpired
    rw [sinceStart_cons (startless id)] at found
    obtain ⟨⟨_, older⟩, isFound, same⟩ := Option.map_eq_some_iff.mp found
    cases same
    obtain ⟨old, oldMember, isId⟩ := follows.present id _ older isFound unexpired
    refine ⟨if old.capabilityId = next.capabilityId then next else old,
      List.mem_map.mpr ⟨old, oldMember, rfl⟩, ?_⟩
    split
    · rename_i isNext
      exact isNext.symm.trans isId
    · exact isId

omit [DecidableEq Source] in
theorem PairingState.FollowsEntries.add (follows : state.FollowsEntries now events)
    {entry : PendingPairing CapabilityId Verifier UserId Dek}
    (room : state.pending.length < maxPendingPairings)
    (freshId : find PendingPairing.capabilityId state.pending entry.capabilityId = none)
    (freshVerifier : entry.keyVerifier ∉ state.verifiers)
    (freshCode : ∀ other ∈ state.pending, other.code ≠ entry.code) (code : entry.code ≠ "")
    (awaits : entry.status = .awaitingApproval)
    (starts : event.startOf entry.capabilityId = some {
      code := entry.code
      clientName := entry.clientName
      keyVerifier := entry.keyVerifier
      permission := entry.permission
      expiresAt := entry.expiresAt })
    (startless : ∀ id, id ≠ entry.capabilityId → event.startOf id = none)
    (statusless : ∀ id, event.statusOf id = none) :
    ({ state with
      verifiers := insert entry.keyVerifier state.verifiers
      pending := state.pending ++ [entry] } :
        PairingState CapabilityId Verifier Source UserId Dek).FollowsEntries now
      (event :: events) := by
  have apart : ∀ other ∈ state.pending, other.capabilityId ≠ entry.capabilityId :=
    find_eq_none_iff.mp freshId
  rw [follows.verifiers, List.mem_toFinset] at freshVerifier
  refine ⟨?_, ?_, ?_, ?_, ?_, ?_, ?_⟩
  · rw [Keyed, List.map_append, List.nodup_append]
    refine ⟨follows.keyed, List.nodup_singleton _, ?_⟩
    intro id isOld other isNew
    obtain ⟨old, member, rfl⟩ := List.mem_map.mp isOld
    rw [List.mem_singleton.mp isNew]
    exact apart old member
  · rw [List.map_append, List.toFinset_append, follows.verifiers]
    simp
  · rw [List.map_append, List.nodup_append]
    refine ⟨follows.distinctVerifiers, List.nodup_singleton _, ?_⟩
    intro verifier isOld other isNew same
    rw [List.mem_singleton.mp isNew] at same
    subst same
    exact freshVerifier isOld
  · rw [List.map_append, List.filter_append, List.nodup_append]
    refine ⟨follows.distinctCodes, (List.nodup_singleton _).filter _, ?_⟩
    intro code isOld other isNew
    obtain ⟨old, member, rfl⟩ := List.mem_map.mp (List.mem_filter.mp isOld).1
    rw [List.mem_singleton.mp (List.mem_filter.mp isNew).1]
    exact freshCode old member
  · rw [List.length_append]
    exact room
  · intro old member
    rcases List.mem_append.mp member with isOld | isNew
    · obtain ⟨start, since, found, isMatch⟩ := follows.entries old isOld
      refine ⟨start, event :: since, ?_, isMatch.idle (statusless _)⟩
      rw [sinceStart_cons (startless _ (apart old isOld)), found]
      rfl
    · rw [List.mem_singleton.mp isNew]
      refine ⟨_, [], by rw [sinceStart, starts], ?_⟩
      exact ⟨rfl, rfl, rfl, awaits, trivial, code, .inr ⟨rfl, rfl⟩⟩
  · intro id start since found unexpired
    by_cases isNew : id = entry.capabilityId
    · exact ⟨entry, List.mem_append_right _ (List.mem_singleton_self _), isNew.symm⟩
    · rw [sinceStart_cons (startless id isNew)] at found
      obtain ⟨⟨_, older⟩, isFound, same⟩ := Option.map_eq_some_iff.mp found
      cases same
      obtain ⟨old, oldMember, isId⟩ := follows.present id _ older isFound unexpired
      exact ⟨old, List.mem_append_left _ oldMember, isId⟩

/-! ## Counted starts -/

omit [DecidableEq CapabilityId] in
omit [DecidableEq Verifier] in
/-- Only the queues matter, and time may pass. -/
theorem PairingState.FollowsStarts.elapse (follows : state.FollowsStarts now events)
    (elapsed : now ≤ later) {other : PairingState CapabilityId Verifier Source UserId Dek}
    (ofSource : other.sourceStarts = state.sourceStarts)
    (ofAll : other.globalStarts = state.globalStarts) : other.FollowsStarts later events := by
  refine ⟨?_, ?_, follows.sourceBounds, follows.globalBounds⟩
  · intro source
    rw [ofSource]
    exact (follows.sourceWindows source).mono elapsed
  · rw [ofAll]
    exact follows.globalWindows.mono elapsed

omit [DecidableEq CapabilityId] [DecidableEq Verifier] in
theorem PairingState.FollowsStarts.pruneRateLimits (follows : state.FollowsStarts now events) :
    (state.pruneRateLimits now).FollowsStarts now events := by
  refine ⟨?_, follows.globalWindows.prune, follows.sourceBounds, follows.globalBounds⟩
  exact fun source => (follows.sourceWindows source).prune

omit [DecidableEq CapabilityId] [DecidableEq Verifier] [DecidableEq Source] in
theorem countedStarts_cons (counts : Source → Bool) :
    countedStarts counts (event :: events) =
      countedStarts counts events ++ if event.counted.any counts then [event.now] else [] := by
  rw [countedStarts, List.filterMap_cons]
  split
  · rename_i uncounted
    split at uncounted
    · cases uncounted
    · rename_i isUncounted
      rw [if_neg isUncounted, List.append_nil]
      rfl
  · rename_i isCounted
    split at isCounted
    · rename_i counted
      cases isCounted
      rw [if_pos counted, List.reverse_cons]
      rfl
    · cases isCounted

omit [DecidableEq CapabilityId] [DecidableEq Verifier] in
theorem PairingState.FollowsStarts.idle (follows : state.FollowsStarts now events)
    (uncounted : event.counted = none) : state.FollowsStarts now (event :: events) := by
  have same (counts : Source → Bool) :
      countedStarts counts (event :: events) = countedStarts counts events := by
    rw [countedStarts_cons, uncounted]
    exact List.append_nil _
  refine ⟨?_, ?_, ?_, ?_⟩
  · intro source
    rw [same]
    exact follows.sourceWindows source
  · rw [same]
    exact follows.globalWindows
  · intro source
    rw [same]
    exact follows.sourceBounds source
  · rw [same]
    exact follows.globalBounds

omit [DecidableEq CapabilityId] [DecidableEq Verifier] [DecidableEq Source] in
theorem PairingState.short_of_rateLimitRetryAfter {source : Source}
    (free : state.rateLimitRetryAfter source now = none) :
    (state.sourceStarts source).length < maxSourceStarts ∧
      state.globalStarts.length < maxGlobalStarts := by
  have front : ∀ {limit : ℕ} {starts : List ℤ} {wait : ℤ → ℕ}, 0 < limit →
      (if limit ≤ starts.length then starts.head?.map wait else none) = none →
        starts.length < limit := by
    intro limit starts wait positive isNone
    by_contra full
    rw [if_pos (not_lt.mp full), Option.map_eq_none_iff, List.head?_eq_none_iff] at isNone
    rw [isNone] at full
    exact full positive
  simp only [PairingState.rateLimitRetryAfter] at free
  split at free
  · cases free
  · cases free
  · cases free
  · rename_i noSource noGlobal
    exact ⟨front (by decide) noSource, front (by decide) noGlobal⟩

omit [DecidableEq CapabilityId] [DecidableEq Verifier] in
theorem PairingState.FollowsStarts.recordStart (follows : state.FollowsStarts now events)
    {source : Source} (free : state.rateLimitRetryAfter source now = none)
    (counted : event.counted = some source) (atNow : event.now = now) :
    (state.recordStart source now).FollowsStarts now (event :: events) := by
  obtain ⟨shortSource, shortGlobal⟩ := PairingState.short_of_rateLimitRetryAfter free
  have isCounted (counts : Source → Bool) (isTrue : counts source = true) :
      countedStarts counts (event :: events) = countedStarts counts events ++ [now] := by
    rw [countedStarts_cons, counted, Option.any_some, if_pos isTrue, atNow]
  have uncounted (counts : Source → Bool) (isFalse : counts source = false) :
      countedStarts counts (event :: events) = countedStarts counts events := by
    rw [countedStarts_cons, counted, Option.any_some, if_neg (by rw [isFalse]; decide)]
    exact List.append_nil _
  refine ⟨?_, ?_, ?_, ?_⟩
  · intro other
    dsimp only [PairingState.recordStart]
    by_cases same : other = source
    · subst same
      rw [isCounted _ (decide_eq_true rfl), Function.update_self]
      exact (follows.sourceWindows other).push
    · rw [uncounted _ (decide_eq_false (Ne.symm same)), Function.update_of_ne same]
      exact follows.sourceWindows other
  · rw [isCounted _ rfl]
    exact follows.globalWindows.push
  · intro other
    by_cases same : other = source
    · subst same
      rw [isCounted _ (decide_eq_true rfl)]
      exact (follows.sourceBounds other).push (follows.sourceWindows other) shortSource
    · rw [uncounted _ (decide_eq_false (Ne.symm same))]
      exact follows.sourceBounds other
  · rw [isCounted _ rfl]
    exact follows.globalBounds.push follows.globalWindows shortGlobal

end Histories

end Bitgarth.Auth
