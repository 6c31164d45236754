import Mathlib.Data.Int.Basic
import Mathlib.Data.List.Sort
import Mathlib.Data.List.Nodup
import Bitgarth.Foundation.Reachability

/-! # Premium tokens

The stored token history of a user with the pointer of the payment subject to its active row, the
tokens that Central issues and revokes, and the calls that ask Central and apply its answer to what
is stored by then.
-/

namespace Bitgarth.Payments

open Reachability

inductive TokenHistoryStatus where
  | active
  | inactive
  | revoked
  | superseded
  | expired
  | invalidated
deriving DecidableEq, Repr

section Tables

variable (TokenId : Type)

/-- A row of `payment_token_history`. -/
structure TokenRow where
  tokenId : TokenId
  status : TokenHistoryStatus
  statusReason : Option String
  firstSeenAt : ℤ
  lastSeenAt : ℤ
  deactivatedAt : Option ℤ
deriving DecidableEq

/-- The token rows and, where there is a row of the payment subject, its
`active_token_history_id`. -/
structure TokenTables where
  rows : List (TokenRow TokenId) := []
  subject : Option (Option TokenId) := none

/-- A request to Central, of an order poll or a top-up, of a history reconciliation or a recovery,
and of an entitlement refresh with the token that it names. -/
inductive TokenRequest where
  | orderStatus
  | subscriptionHistory
  | refreshSubscription (tokenId : TokenId)
deriving DecidableEq

inductive TokenAnswer where
  | token (tokenId : TokenId)
  | noToken
  | revoked (superseded : Bool)
deriving DecidableEq

inductive TokenCall where
  | asked (request : TokenRequest TokenId)
  | answered (request : TokenRequest TokenId) (answer : TokenAnswer TokenId)
deriving DecidableEq

/-- `issued` are the tokens of Central, the latest first. -/
structure TokenSystem where
  issued : List TokenId := []
  revoked : List TokenId := []
  tables : TokenTables TokenId := {}
  calls : List (TokenCall TokenId) := []

/-- Steps of Central and of the calls. An answer is applied at the time `now` of its call, `usable`
is what verifying the stored token then gives. -/
inductive TokenStep where
  | issue (tokenId : TokenId)
  | revoke (tokenId : TokenId)
  | loadOrCreateSubject
  | poll
  | reconcile
  | recover
  | refresh
  | answer (request : TokenRequest TokenId) (answer : TokenAnswer TokenId)
  | apply (request : TokenRequest TokenId) (answer : TokenAnswer TokenId) (usable : Bool) (now : ℤ)
  | drop (call : TokenCall TokenId)

end Tables

section Steps

variable {TokenId : Type} [DecidableEq TokenId]

namespace TokenTables

def activeTokenHistoryId (tables : TokenTables TokenId) : Option TokenId :=
  tables.subject.join

/-- The active rows become superseded. -/
def supersede (rows : List (TokenRow TokenId)) (now : ℤ) : List (TokenRow TokenId) :=
  rows.map fun row => if row.status = .active then
    { row with status := .superseded, deactivatedAt := some now } else row

def upsertActive (rows : List (TokenRow TokenId)) (tokenId : TokenId) (now : ℤ) :
    List (TokenRow TokenId) :=
  if tokenId ∈ rows.map TokenRow.tokenId then
    rows.map fun row => if row.tokenId = tokenId then
      { row with status := .active, statusReason := none, lastSeenAt := now, deactivatedAt := none }
      else row
  else rows ++ [⟨tokenId, .active, none, now, now, none⟩]

/-- Of the rows that are not active, the 50 seen last stay. -/
def prune (rows : List (TokenRow TokenId)) : List (TokenRow TokenId) :=
  let kept := ((rows.filter (·.status ≠ .active)).insertionSort fun row other =>
    other.lastSeenAt < row.lastSeenAt ∨
      other.lastSeenAt = row.lastSeenAt ∧ other.firstSeenAt ≤ row.firstSeenAt).take 50
  rows.filter fun row => row.status = .active ∨ row.tokenId ∈ kept.map TokenRow.tokenId

def storeVerifiedPremiumToken (tables : TokenTables TokenId) (tokenId : TokenId) (now : ℤ) :
    TokenTables TokenId where
  rows := prune (upsertActive (supersede tables.rows now) tokenId now)
  subject := tables.subject.map fun _ => some tokenId

def clearVerifiedPremiumToken (tables : TokenTables TokenId) (historyStatus : TokenHistoryStatus)
    (statusReason : Option String) (now : ℤ) : TokenTables TokenId where
  rows := tables.rows.map fun row =>
    if tables.activeTokenHistoryId = some row.tokenId ∧ row.status = .active then
      { row with status := historyStatus, statusReason, deactivatedAt := some now } else row
  subject := tables.subject.map fun _ => none

end TokenTables

namespace TokenSystem

/-- What Central may answer: a token that it had issued and not revoked, and of the named token only
that it is revoked or that a later one was issued. -/
def Truthful (system : TokenSystem TokenId) : TokenRequest TokenId → TokenAnswer TokenId → Prop
  | _, .token tokenId => tokenId ∈ system.issued ∧ tokenId ∉ system.revoked
  | .refreshSubscription tokenId, .revoked false => tokenId ∈ system.revoked
  | .refreshSubscription tokenId, .revoked true =>
    tokenId ∈ system.issued ∧ system.issued.head? ≠ some tokenId
  | .refreshSubscription _, .noToken => False
  | _, .noToken => True
  | _, .revoked _ => False

instance (system : TokenSystem TokenId) (request : TokenRequest TokenId)
    (answer : TokenAnswer TokenId) : Decidable (system.Truthful request answer) :=
  match request, answer with
  | .orderStatus, .token tokenId | .subscriptionHistory, .token tokenId
  | .refreshSubscription _, .token tokenId =>
    inferInstanceAs (Decidable (tokenId ∈ system.issued ∧ tokenId ∉ system.revoked))
  | .refreshSubscription tokenId, .revoked false =>
    inferInstanceAs (Decidable (tokenId ∈ system.revoked))
  | .refreshSubscription tokenId, .revoked true =>
    inferInstanceAs (Decidable (tokenId ∈ system.issued ∧ system.issued.head? ≠ some tokenId))
  | .orderStatus, .noToken | .subscriptionHistory, .noToken => inferInstanceAs (Decidable True)
  | .refreshSubscription _, .noToken | .orderStatus, .revoked true | .orderStatus, .revoked false
  | .subscriptionHistory, .revoked true | .subscriptionHistory, .revoked false =>
    inferInstanceAs (Decidable False)

/-- An answer is applied to the tables, or followed by another request. -/
def applyAnswer (system : TokenSystem TokenId) (request : TokenRequest TokenId)
    (answer : TokenAnswer TokenId) (usable : Bool) (now : ℤ) : TokenSystem TokenId :=
  match request, answer with
  | _, .token tokenId =>
    { system with tables := system.tables.storeVerifiedPremiumToken tokenId now }
  | .refreshSubscription _, .revoked superseded =>
    -- `handle_token_superseded` reconciles the history where the token it had read is usable.
    if superseded ∧ usable then
      { system with calls := .asked .subscriptionHistory :: system.calls }
    else { system with tables := system.tables.clearVerifiedPremiumToken .revoked none now }
  | _, _ => system

variable (issuedAt : TokenId → ℤ)

def run (system : TokenSystem TokenId) : TokenStep TokenId → Option (TokenSystem TokenId)
  | .issue tokenId =>
    if ∀ earlier ∈ system.issued, issuedAt earlier < issuedAt tokenId then
      some { system with issued := tokenId :: system.issued }
    else none
  | .revoke tokenId => some { system with revoked := tokenId :: system.revoked }
  | .loadOrCreateSubject =>
    some { system with tables := { system.tables with
      subject := some (system.tables.subject.getD none) } }
  | .poll =>
    if system.tables.subject.isSome then
      some { system with calls := .asked .orderStatus :: system.calls }
    else none
  | .reconcile =>
    if system.tables.subject.isSome then
      some { system with calls := .asked .subscriptionHistory :: system.calls }
    else none
  | .recover =>
    if system.tables.subject = some none then
      some { system with calls := .asked .subscriptionHistory :: system.calls }
    else none
  | .refresh =>
    system.tables.activeTokenHistoryId.map fun tokenId =>
      { system with calls := .asked (.refreshSubscription tokenId) :: system.calls }
  | .answer request answer =>
    if .asked request ∈ system.calls ∧ system.Truthful request answer then
      some { system with
        calls := .answered request answer :: system.calls.erase (.asked request) }
    else none
  | .apply request answer usable now =>
    if .answered request answer ∈ system.calls then
      some <| applyAnswer { system with
        calls := system.calls.erase (.answered request answer) } request answer usable now
    else none
  | .drop call => some { system with calls := system.calls.erase call }

end TokenSystem

end Steps

/-! ## Rows -/

section Rows

namespace TokenTables

variable {TokenId : Type} [DecidableEq TokenId] {rows : List (TokenRow TokenId)}
  {tables : TokenTables TokenId} {tokenId : TokenId} {row : TokenRow TokenId} {now : ℤ}

/-- Each row is identified by its token, and the pointer is to the active one. -/
structure Linked (tables : TokenTables TokenId) : Prop where
  nodup : (tables.rows.map TokenRow.tokenId).Nodup
  subject : tables.subject = none → tables.rows = []
  pointer : ∀ tokenId, tables.activeTokenHistoryId = some tokenId ↔
    ∃ row ∈ tables.rows, row.tokenId = tokenId ∧ row.status = .active

omit [DecidableEq TokenId] in
theorem map_tokenId_supersede : (supersede rows now).map TokenRow.tokenId =
    rows.map TokenRow.tokenId := by
  rw [supersede, List.map_map]
  apply List.map_congr_left
  intro row member
  simp only [Function.comp_apply]
  split <;> rfl

omit [DecidableEq TokenId] in
theorem mem_supersede (member : row ∈ supersede rows now) : row.status ≠ .active ∧
    ∃ old ∈ rows, old.tokenId = row.tokenId ∧
      (row.status = old.status ∨ row.status = .superseded) := by
  obtain ⟨old, isOld, rfl⟩ := List.mem_map.mp member
  split
  · exact ⟨TokenHistoryStatus.noConfusion, old, isOld, rfl, .inr rfl⟩
  · rename_i notActive
    exact ⟨notActive, old, isOld, rfl, .inl rfl⟩

theorem nodup_upsertActive (nodup : (rows.map TokenRow.tokenId).Nodup) :
    ((upsertActive rows tokenId now).map TokenRow.tokenId).Nodup := by
  unfold upsertActive
  split
  · have same : ((rows.map fun row => if row.tokenId = tokenId then
        { row with
          status := .active, statusReason := none, lastSeenAt := now, deactivatedAt := none }
        else row).map TokenRow.tokenId) = rows.map TokenRow.tokenId := by
      rw [List.map_map]
      apply List.map_congr_left
      intro row member
      simp only [Function.comp_apply]
      split <;> rfl
    rw [same]
    exact nodup
  · rename_i absent
    rw [List.map_append]
    exact nodup.append (List.nodup_singleton _) (List.disjoint_singleton.mpr absent)

theorem mem_upsertActive (member : row ∈ upsertActive rows tokenId now) :
    row.tokenId = tokenId ∧ row.status = .active ∨ row.tokenId ≠ tokenId ∧ row ∈ rows := by
  unfold upsertActive at member
  split at member
  · obtain ⟨old, isOld, rfl⟩ := List.mem_map.mp member
    split
    · rename_i same
      exact .inl ⟨same, rfl⟩
    · rename_i other
      exact .inr ⟨other, isOld⟩
  · rename_i absent
    rcases List.mem_append.mp member with isOld | isNew
    · refine .inr ⟨fun same => absent ?_, isOld⟩
      exact List.mem_map.mpr ⟨row, isOld, same⟩
    · rw [List.mem_singleton.mp isNew]
      exact .inl ⟨rfl, rfl⟩

theorem exists_mem_upsertActive :
    ∃ row ∈ upsertActive rows tokenId now, row.tokenId = tokenId ∧ row.status = .active := by
  unfold upsertActive
  split
  · rename_i present
    obtain ⟨old, isOld, same⟩ := List.mem_map.mp present
    refine ⟨_, List.mem_map.mpr ⟨old, isOld, rfl⟩, ?_⟩
    rw [if_pos same]
    exact ⟨same, rfl⟩
  · exact ⟨_, List.mem_append_right _ (List.mem_singleton_self _), rfl, rfl⟩

theorem prune_sublist : (prune rows).Sublist rows :=
  List.filter_sublist

theorem mem_prune_of_active (member : row ∈ rows) (isActive : row.status = .active) :
    row ∈ prune rows :=
  List.mem_filter.mpr ⟨member, decide_eq_true (.inl isActive)⟩

theorem mem_storeVerifiedPremiumToken
    (member : row ∈ (tables.storeVerifiedPremiumToken tokenId now).rows) :
    row.tokenId = tokenId ∧ row.status = .active ∨ row.tokenId ≠ tokenId ∧ row.status ≠ .active ∧
      ∃ old ∈ tables.rows, old.tokenId = row.tokenId ∧
        (row.status = old.status ∨ row.status = .superseded) := by
  rcases mem_upsertActive (prune_sublist.subset member) with isNew | ⟨other, isOld⟩
  · exact .inl isNew
  · exact .inr ⟨other, mem_supersede isOld⟩

theorem activeTokenHistoryId_store (isSome : tables.subject.isSome) :
    (tables.storeVerifiedPremiumToken tokenId now).activeTokenHistoryId = some tokenId := by
  obtain ⟨pointer, isPointer⟩ := Option.isSome_iff_exists.mp isSome
  rw [activeTokenHistoryId, storeVerifiedPremiumToken, isPointer]
  rfl

theorem Linked.store (linked : tables.Linked) (isSome : tables.subject.isSome) :
    (tables.storeVerifiedPremiumToken tokenId now).Linked := by
  refine ⟨?_, ?_, ?_⟩
  · have superseded : ((supersede tables.rows now).map TokenRow.tokenId).Nodup := by
      rw [map_tokenId_supersede]
      exact linked.nodup
    exact (nodup_upsertActive superseded).sublist (prune_sublist.map _)
  · intro isNone
    rw [storeVerifiedPremiumToken, Option.map_eq_none_iff] at isNone
    rw [isNone] at isSome
    cases isSome
  · intro other
    rw [activeTokenHistoryId_store isSome]
    constructor
    · rintro ⟨⟩
      obtain ⟨row, member, isToken, isActive⟩ :=
        @exists_mem_upsertActive _ _ (supersede tables.rows now) tokenId now
      exact ⟨row, mem_prune_of_active member isActive, isToken, isActive⟩
    · rintro ⟨row, member, isToken, isActive⟩
      rcases mem_storeVerifiedPremiumToken member with ⟨same, -⟩ | ⟨-, notActive, -⟩
      · rw [← same, isToken]
      · exact absurd isActive notActive

theorem exists_kept_of_prune (rows : List (TokenRow TokenId)) : ∃ kept : List TokenId,
    kept.length ≤ 50 ∧ ∀ row ∈ prune rows, row.status = .active ∨ row.tokenId ∈ kept := by
  refine ⟨_, ?_, fun row member => of_decide_eq_true (List.mem_filter.mp member).2⟩
  rw [List.length_map]
  exact List.length_take_le _ _

theorem Linked.length_store_le (linked : tables.Linked) (isSome : tables.subject.isSome) :
    (tables.storeVerifiedPremiumToken tokenId now).rows.length ≤ 51 := by
  obtain ⟨kept, atMost, among⟩ :=
    exists_kept_of_prune (upsertActive (supersede tables.rows now) tokenId now)
  have subset : (tables.storeVerifiedPremiumToken tokenId now).rows.map TokenRow.tokenId ⊆
      tokenId :: kept := by
    intro id isId
    obtain ⟨row, member, rfl⟩ := List.mem_map.mp isId
    rcases mem_storeVerifiedPremiumToken member with ⟨same, -⟩ | ⟨-, notActive, -⟩
    · exact same ▸ List.mem_cons_self
    · exact .tail _ ((among row member).resolve_left notActive)
  have counted := List.Nodup.length_le_of_subset (linked.store isSome).nodup subset
  rw [List.length_map] at counted
  exact counted.trans (Nat.succ_le_succ atMost)

variable {historyStatus : TokenHistoryStatus} {statusReason : Option String}

theorem mem_clearVerifiedPremiumToken
    (member : row ∈ (tables.clearVerifiedPremiumToken historyStatus statusReason now).rows) :
    row ∈ tables.rows ∧
      ¬ (tables.activeTokenHistoryId = some row.tokenId ∧ row.status = .active) ∨
    tables.activeTokenHistoryId = some row.tokenId ∧ row.status = historyStatus := by
  obtain ⟨old, isOld, rfl⟩ := List.mem_map.mp member
  split
  · rename_i isActive
    exact .inr ⟨isActive.1, rfl⟩
  · rename_i notActive
    exact .inl ⟨isOld, notActive⟩

theorem activeTokenHistoryId_clear : (tables.clearVerifiedPremiumToken historyStatus statusReason
    now).activeTokenHistoryId = none := by
  rw [activeTokenHistoryId, clearVerifiedPremiumToken]
  cases tables.subject <;> rfl

theorem Linked.clear (linked : tables.Linked) (inactive : historyStatus ≠ .active) :
    (tables.clearVerifiedPremiumToken historyStatus statusReason now).Linked := by
  refine ⟨?_, ?_, ?_⟩
  · have same : ((tables.clearVerifiedPremiumToken historyStatus statusReason now).rows.map
        TokenRow.tokenId) = tables.rows.map TokenRow.tokenId := by
      rw [clearVerifiedPremiumToken, List.map_map]
      apply List.map_congr_left
      intro row member
      simp only [Function.comp_apply]
      split <;> rfl
    rw [same]
    exact linked.nodup
  · intro isNone
    rw [clearVerifiedPremiumToken, Option.map_eq_none_iff] at isNone
    rw [clearVerifiedPremiumToken, linked.subject isNone]
    rfl
  · intro tokenId
    rw [activeTokenHistoryId_clear]
    constructor
    · intro isPointer
      cases isPointer
    · rintro ⟨row, member, isToken, isActive⟩
      rcases mem_clearVerifiedPremiumToken member with ⟨isOld, notActive⟩ | ⟨-, isStatus⟩
      · exact absurd ⟨(linked.pointer row.tokenId).mpr ⟨row, isOld, rfl, isActive⟩, isActive⟩
          notActive
      · exact absurd (isStatus.symm.trans isActive) inactive

omit [DecidableEq TokenId] in
theorem Linked.eq_of_active (linked : tables.Linked) {other : TokenRow TokenId}
    (member : row ∈ tables.rows) (isOther : other ∈ tables.rows) (isActive : row.status = .active)
    (otherActive : other.status = .active) : row = other := by
  have isPointer := (linked.pointer row.tokenId).mpr ⟨row, member, rfl, isActive⟩
  have otherPointer := (linked.pointer other.tokenId).mpr ⟨other, isOther, rfl, otherActive⟩
  exact List.inj_on_of_nodup_map linked.nodup member isOther
    (Option.some.inj (isPointer.symm.trans otherPointer))

end TokenTables

end Rows

/-! ## Runs -/

section Runs

namespace TokenSystem

variable {TokenId : Type} [DecidableEq TokenId] {issuedAt : TokenId → ℤ}
  {system after : TokenSystem TokenId} {tokenId : TokenId} {request : TokenRequest TokenId}
  {answer : TokenAnswer TokenId} {call : TokenCall TokenId} {usable : Bool} {now : ℤ}

/-- A token is applied while no later one is active, and a revocation while no other than the token
it is about is active. -/
def Timely : TokenStep TokenId → TokenSystem TokenId → Prop
  | .apply _ (.token tokenId) _ _, system =>
    ∀ active ∈ system.tables.activeTokenHistoryId, ¬ [active, tokenId].Sublist system.issued
  | .apply (.refreshSubscription tokenId) (.revoked superseded) usable _, system =>
    ¬ (superseded ∧ usable) → ∀ active ∈ system.tables.activeTokenHistoryId, active = tokenId
  | _, _ => True

instance (step : TokenStep TokenId) (system : TokenSystem TokenId) :
    Decidable (Timely step system) :=
  match step with
  | .apply .orderStatus (.token tokenId) _ _ | .apply .subscriptionHistory (.token tokenId) _ _
  | .apply (.refreshSubscription _) (.token tokenId) _ _ =>
    inferInstanceAs (Decidable (∀ active ∈ system.tables.activeTokenHistoryId,
      ¬ [active, tokenId].Sublist system.issued))
  | .apply (.refreshSubscription tokenId) (.revoked superseded) usable _ =>
    inferInstanceAs (Decidable (¬ (superseded ∧ usable) →
      ∀ active ∈ system.tables.activeTokenHistoryId, active = tokenId))
  | .apply .orderStatus .noToken _ _ | .apply .subscriptionHistory .noToken _ _
  | .apply (.refreshSubscription _) .noToken _ _ | .apply .orderStatus (.revoked _) _ _
  | .apply .subscriptionHistory (.revoked _) _ _ | .issue _ | .revoke _ | .loadOrCreateSubject
  | .poll | .reconcile | .recover | .refresh | .answer _ _ | .drop _ =>
    inferInstanceAs (Decidable True)

/-- At most one row is active, and the pointer of the subject is to the active row. -/
structure Consistent (system : TokenSystem TokenId) : Prop where
  oneActive : ∀ row ∈ system.tables.rows, ∀ other ∈ system.tables.rows, row.status = .active →
    other.status = .active → row = other
  pointer : ∀ pointer, system.tables.subject = some pointer → ∀ tokenId, pointer = some tokenId ↔
    ∃ row ∈ system.tables.rows, row.tokenId = tokenId ∧ row.status = .active

/-- Central issues at rising times, and what is stored or answered was issued. -/
structure Sound (issuedAt : TokenId → ℤ) (system : TokenSystem TokenId) : Prop where
  ordered : system.issued.Pairwise fun later earlier => issuedAt earlier < issuedAt later
  linked : system.tables.Linked
  active : ∀ tokenId, system.tables.activeTokenHistoryId = some tokenId → tokenId ∈ system.issued
  subject : ∀ call ∈ system.calls, system.tables.subject.isSome
  answered : ∀ request tokenId, .answered request (.token tokenId) ∈ system.calls →
    tokenId ∈ system.issued

omit [DecidableEq TokenId] in
theorem Sound.consistent (sound : system.Sound issuedAt) : system.Consistent := by
  refine ⟨?_, ?_⟩
  · intro row member other isOther isActive otherActive
    exact sound.linked.eq_of_active member isOther isActive otherActive
  · intro pointer isPointer tokenId
    rw [← sound.linked.pointer tokenId, TokenTables.activeTokenHistoryId, isPointer]
    rfl

omit [DecidableEq TokenId] in
theorem sound_new : (({}) : TokenSystem TokenId).Sound issuedAt := by
  refine ⟨.nil, ⟨.nil, fun _ => rfl, ?_⟩, ?_, ?_, ?_⟩
  · intro tokenId
    refine ⟨(fun isPointer => nomatch isPointer), ?_⟩
    rintro ⟨row, member, _⟩
    exact absurd member List.not_mem_nil
  · exact fun _ isPointer => nomatch isPointer
  · exact fun _ member => absurd member List.not_mem_nil
  · exact fun _ _ member => absurd member List.not_mem_nil

omit [DecidableEq TokenId] in
theorem Sound.setCalls (sound : system.Sound issuedAt) {calls : List (TokenCall TokenId)}
    (isSome : system.tables.subject.isSome)
    (answered : ∀ request tokenId, .answered request (.token tokenId) ∈ calls →
      tokenId ∈ system.issued) : ({ system with calls } : TokenSystem TokenId).Sound issuedAt :=
  ⟨sound.ordered, sound.linked, sound.active, fun _ _ => isSome, answered⟩

omit [DecidableEq TokenId] in
theorem Sound.ask (sound : system.Sound issuedAt) (isSome : system.tables.subject.isSome) :
    ({ system with calls := .asked request :: system.calls } : TokenSystem TokenId).Sound
      issuedAt := by
  apply sound.setCalls isSome
  intro request tokenId member
  rcases List.mem_cons.mp member with isNew | isOld
  · cases isNew
  · exact sound.answered request tokenId isOld

theorem Sound.endCall (sound : system.Sound issuedAt) :
    ({ system with calls := system.calls.erase call } : TokenSystem TokenId).Sound issuedAt := by
  refine ⟨sound.ordered, sound.linked, sound.active, ?_, ?_⟩
  · exact fun call member => sound.subject call (List.mem_of_mem_erase member)
  · exact fun request tokenId member =>
      sound.answered request tokenId (List.mem_of_mem_erase member)

theorem Sound.applyAnswer (sound : system.Sound issuedAt) (isSome : system.tables.subject.isSome)
    (isIssued : ∀ tokenId, answer = .token tokenId → tokenId ∈ system.issued) :
    (system.applyAnswer request answer usable now).Sound issuedAt := by
  unfold TokenSystem.applyAnswer
  split
  · rename_i tokenId
    refine ⟨sound.ordered, sound.linked.store isSome, ?_, ?_, sound.answered⟩
    · intro active isActive
      dsimp only at isActive
      rw [TokenTables.activeTokenHistoryId_store isSome] at isActive
      cases isActive
      exact isIssued tokenId rfl
    · intro call member
      exact Option.isSome_map.trans isSome
  · split
    · exact sound.ask isSome
    · refine ⟨sound.ordered, sound.linked.clear TokenHistoryStatus.noConfusion, ?_, ?_,
        sound.answered⟩
      · intro active isActive
        dsimp only at isActive
        rw [TokenTables.activeTokenHistoryId_clear] at isActive
        cases isActive
      · intro call member
        exact Option.isSome_map.trans isSome
  · exact sound

/-- Nothing is stored or answered that was not issued. -/
theorem Sound.run (sound : system.Sound issuedAt) {step : TokenStep TokenId}
    (taken : system.run issuedAt step = some after) : after.Sound issuedAt := by
  cases step with
  | issue tokenId =>
    obtain ⟨latest, rfl⟩ := Option.ite_some_none_eq_some.mp taken
    refine ⟨List.pairwise_cons.mpr ⟨latest, sound.ordered⟩, sound.linked, ?_, sound.subject, ?_⟩
    · exact fun active isActive => .tail _ (sound.active active isActive)
    · exact fun request tokenId member => .tail _ (sound.answered request tokenId member)
  | revoke tokenId =>
    cases taken
    exact ⟨sound.ordered, sound.linked, sound.active, sound.subject, sound.answered⟩
  | loadOrCreateSubject =>
    cases taken
    cases isSubject : system.tables.subject with
    | none =>
      have isEmpty := sound.linked.subject isSubject
      refine ⟨sound.ordered, ⟨sound.linked.nodup, (fun isNone => nomatch isNone), ?_⟩, ?_, ?_,
        sound.answered⟩
      · intro tokenId
        refine ⟨(fun isPointer => nomatch isPointer), ?_⟩
        rintro ⟨row, member, _⟩
        dsimp only at member
        rw [isEmpty] at member
        exact absurd member List.not_mem_nil
      · exact fun _ isPointer => nomatch isPointer
      · exact fun _ _ => rfl
    | some pointer =>
      have same : ({ system.tables with subject := some ((some pointer).getD none) } :
          TokenTables TokenId) = system.tables := by
        rw [Option.getD_some, ← isSubject]
      rw [same]
      exact sound
  | poll =>
    obtain ⟨isSome, rfl⟩ := Option.ite_some_none_eq_some.mp taken
    exact sound.ask isSome
  | reconcile =>
    obtain ⟨isSome, rfl⟩ := Option.ite_some_none_eq_some.mp taken
    exact sound.ask isSome
  | recover =>
    obtain ⟨isWiped, rfl⟩ := Option.ite_some_none_eq_some.mp taken
    exact sound.ask (isWiped ▸ rfl)
  | refresh =>
    obtain ⟨tokenId, isPointer, rfl⟩ := Option.map_eq_some_iff.mp taken
    apply sound.ask
    obtain ⟨pointer, isSubject, -⟩ := Option.bind_eq_some_iff.mp isPointer
    exact Option.isSome_iff_exists.mpr ⟨pointer, isSubject⟩
  | answer request answer =>
    obtain ⟨answers, rfl⟩ := Option.ite_some_none_eq_some.mp taken
    apply sound.setCalls (sound.subject _ answers.1)
    intro other tokenId member
    rcases List.mem_cons.mp member with isNew | isOld
    · cases isNew
      exact answers.2.1
    · exact sound.answered other tokenId (List.mem_of_mem_erase isOld)
  | apply request answer usable now =>
    obtain ⟨member, rfl⟩ := Option.ite_some_none_eq_some.mp taken
    apply sound.endCall.applyAnswer (sound.subject _ member)
    rintro tokenId rfl
    exact sound.answered request tokenId member
  | drop call =>
    cases taken
    exact sound.endCall

/-! ## Replaced and revoked tokens -/

omit [DecidableEq TokenId] in
theorem Sound.issuedAt_le (sound : system.Sound issuedAt) {active : TokenId}
    (isIssued : tokenId ∈ system.issued) (activeIssued : active ∈ system.issued)
    (notLater : ¬ [active, tokenId].Sublist system.issued) :
    issuedAt active ≤ issuedAt tokenId := by
  have ordered := sound.ordered
  generalize system.issued = issued at ordered isIssued activeIssued notLater
  induction issued with
  | nil => cases isIssued
  | cons latest rest ih =>
    obtain ⟨isLatest, ordered⟩ := List.pairwise_cons.mp ordered
    rcases List.mem_cons.mp isIssued with rfl | inRest
    · rcases List.mem_cons.mp activeIssued with rfl | activeInRest
      · exact le_rfl
      · exact (isLatest active activeInRest).le
    · rcases List.mem_cons.mp activeIssued with rfl | activeInRest
      · exact absurd ((List.singleton_sublist.mpr inRest).cons_cons _) notLater
      · exact ih ordered inRest activeInRest fun sublist => notLater (sublist.cons _)

theorem run_tables {step : TokenStep TokenId} (taken : system.run issuedAt step = some after) :
    (after.tables.rows = system.tables.rows ∧
      after.tables.activeTokenHistoryId = system.tables.activeTokenHistoryId) ∨
    (∃ request tokenId usable now, step = .apply request (.token tokenId) usable now ∧
      .answered request (.token tokenId) ∈ system.calls ∧
      after.tables = system.tables.storeVerifiedPremiumToken tokenId now) ∨
    ∃ tokenId superseded usable now,
      step = .apply (.refreshSubscription tokenId) (.revoked superseded) usable now ∧
      ¬ (superseded ∧ usable) ∧
      after.tables = system.tables.clearVerifiedPremiumToken .revoked none now := by
  cases step with
  | loadOrCreateSubject =>
    cases taken
    refine .inl ⟨rfl, ?_⟩
    rw [TokenTables.activeTokenHistoryId, TokenTables.activeTokenHistoryId]
    cases system.tables.subject <;> rfl
  | apply request answer usable now =>
    obtain ⟨member, rfl⟩ := Option.ite_some_none_eq_some.mp taken
    unfold TokenSystem.applyAnswer
    split
    · rename_i tokenId
      exact .inr (.inl ⟨request, tokenId, usable, now, rfl, member, rfl⟩)
    · rename_i tokenId superseded
      split
      · exact .inl ⟨rfl, rfl⟩
      · rename_i clears
        exact .inr (.inr ⟨tokenId, superseded, usable, now, rfl, clears, rfl⟩)
    · exact .inl ⟨rfl, rfl⟩
  | refresh =>
    obtain ⟨tokenId, -, rfl⟩ := Option.map_eq_some_iff.mp taken
    exact .inl ⟨rfl, rfl⟩
  | revoke tokenId | drop call =>
    cases taken
    exact .inl ⟨rfl, rfl⟩
  | issue tokenId | poll | reconcile | recover | answer request answer =>
    obtain ⟨-, rfl⟩ := Option.ite_some_none_eq_some.mp taken
    exact .inl ⟨rfl, rfl⟩

theorem Sound.replace (sound : system.Sound issuedAt) {step : TokenStep TokenId}
    (timely : Timely step system) (taken : system.run issuedAt step = some after)
    {old new : TokenId} (wasActive : system.tables.activeTokenHistoryId = some old)
    (isActive : after.tables.activeTokenHistoryId = some new) : issuedAt old ≤ issuedAt new := by
  rcases run_tables taken with ⟨-, same⟩ | stored | cleared
  · rw [same, wasActive] at isActive
    exact (Option.some.inj isActive) ▸ le_rfl
  · obtain ⟨request, tokenId, usable, now, rfl, member, isStored⟩ := stored
    rw [isStored, TokenTables.activeTokenHistoryId_store (sound.subject _ member)] at isActive
    obtain rfl := Option.some.inj isActive
    exact sound.issuedAt_le (sound.answered request tokenId member)
      (sound.active old wasActive) (timely old wasActive)
  · obtain ⟨tokenId, superseded, usable, now, -, -, isCleared⟩ := cleared
    rw [isCleared, TokenTables.activeTokenHistoryId_clear] at isActive
    cases isActive

theorem revoked_of_run {step : TokenStep TokenId} (timely : Timely step system)
    (taken : system.run issuedAt step = some after) {row : TokenRow TokenId}
    (member : row ∈ after.tables.rows) (isRevoked : row.status = .revoked) :
    (∃ old ∈ system.tables.rows, old.tokenId = row.tokenId ∧ old.status = .revoked) ∨
      ∃ superseded usable now,
        step = .apply (.refreshSubscription row.tokenId) (.revoked superseded) usable now := by
  rcases run_tables taken with ⟨same, -⟩ | stored | cleared
  · exact .inl ⟨row, same ▸ member, rfl, isRevoked⟩
  · obtain ⟨request, tokenId, usable, now, -, -, isStored⟩ := stored
    rw [isStored] at member
    rcases TokenTables.mem_storeVerifiedPremiumToken member with ⟨-, isActive⟩ | ⟨-, -, kept⟩
    · rw [isActive] at isRevoked
      cases isRevoked
    · obtain ⟨old, isOld, same, status⟩ := kept
      refine .inl ⟨old, isOld, same, ?_⟩
      rcases status with unchanged | isSuperseded
      · exact unchanged.symm.trans isRevoked
      · rw [isSuperseded] at isRevoked
        cases isRevoked
  · obtain ⟨tokenId, superseded, usable, now, rfl, clears, isCleared⟩ := cleared
    rw [isCleared] at member
    rcases TokenTables.mem_clearVerifiedPremiumToken member with ⟨isOld, -⟩ | ⟨isPointer, -⟩
    · exact .inl ⟨row, isOld, rfl, isRevoked⟩
    · obtain rfl := timely clears row.tokenId isPointer
      exact .inr ⟨superseded, usable, now, rfl⟩

theorem sound_of_reached {meets : TokenStep TokenId → TokenSystem TokenId → Prop}
    (reached : Reached (fun step before after => before.run issuedAt step = some after) meets
      {} system) : system.Sound issuedAt := by
  apply @Reached.invariant _ _ _ _ _ _ reached (Sound issuedAt) sound_new
  intro step before after sound _ taken
  exact sound.run taken

/-- In every run of timely steps one token at most is active, the pointer is to it, a step revokes
only the token that its answer is about, and where a token stays active through a run the last one
was issued no earlier than the first. -/
theorem newer_token_stays
    (reached : Reached (fun step before after => before.run issuedAt step = some after) Timely
      {} system) :
    system.Consistent ∧
    (∀ step after, Timely step system → system.run issuedAt step = some after →
      ∀ row ∈ after.tables.rows, row.status = .revoked →
        (∃ old ∈ system.tables.rows, old.tokenId = row.tokenId ∧ old.status = .revoked) ∨
        ∃ superseded usable now,
          step = .apply (.refreshSubscription row.tokenId) (.revoked superseded) usable now) ∧
    ∀ after, Reached (fun step before after => before.run issuedAt step = some after)
        (fun step state => Timely step state ∧ state.tables.activeTokenHistoryId.isSome)
        system after →
      ∀ old new, system.tables.activeTokenHistoryId = some old →
        after.tables.activeTokenHistoryId = some new → issuedAt old ≤ issuedAt new := by
  have sound := sound_of_reached reached
  refine ⟨sound.consistent, ?_, ?_⟩
  · intro step after timely taken row member isRevoked
    exact revoked_of_run timely taken member isRevoked
  · intro after later old new wasActive isActive
    have kept : after.Sound issuedAt ∧ ∀ new, after.tables.activeTokenHistoryId = some new →
        issuedAt old ≤ issuedAt new := by
      refine @Reached.invariant _ _ _ _ _ _ later (fun after => after.Sound issuedAt ∧
        ∀ new, after.tables.activeTokenHistoryId = some new → issuedAt old ≤ issuedAt new)
        ⟨sound, fun new isNew => ?_⟩ ?_
      · rw [wasActive] at isNew
        exact (Option.some.inj isNew) ▸ le_rfl
      · intro step before after holds meets taken
        refine ⟨holds.1.run taken, fun new isNew => ?_⟩
        obtain ⟨between, isBetween⟩ := Option.isSome_iff_exists.mp meets.2
        exact (holds.2 between isBetween).trans (holds.1.replace meets.1 taken isBetween isNew)
    exact kept.2 new isActive

/-- In every run, also of late answers, one row at most is active, the pointer is to it, Central
issued its token, and at most 50 rows of other tokens are kept beside it. -/
theorem history_bounded_of_reached {meets : TokenStep TokenId → TokenSystem TokenId → Prop}
    (reached : Reached (fun step before after => before.run issuedAt step = some after) meets
      {} system) :
    system.Consistent ∧
      (∀ tokenId, system.tables.activeTokenHistoryId = some tokenId → tokenId ∈ system.issued) ∧
        system.tables.rows.length ≤ 51 := by
  have invariant : system.Sound issuedAt ∧ system.tables.rows.length ≤ 51 := by
    refine @Reached.invariant _ _ _ _ _ _ reached
      (fun system => system.Sound issuedAt ∧ system.tables.rows.length ≤ 51)
      ⟨sound_new, Nat.zero_le _⟩ ?_
    rintro step before after ⟨sound, atMost⟩ - taken
    refine ⟨sound.run taken, ?_⟩
    rcases run_tables taken with ⟨same, -⟩ | stored | ⟨_, _, _, _, -, -, isCleared⟩
    · rw [same]
      exact atMost
    · obtain ⟨_, _, _, _, -, member, isStored⟩ := stored
      rw [isStored]
      exact sound.linked.length_store_le (sound.subject _ member)
    · rw [isCleared, TokenTables.clearVerifiedPremiumToken, List.length_map]
      exact atMost
  exact ⟨invariant.1.consistent, invariant.1.active, invariant.2⟩

end TokenSystem

end Runs

/-! ## Late answers -/

/-- A paid order of the token 1 was polled at 10. -/
def paidToken : TokenSystem ℤ where
  issued := [1]
  tables := ⟨[⟨1, .active, none, 10, 10, none⟩], some (some 1)⟩

/-- The token 2 was stored at 20. -/
def refreshedToken : TokenSystem ℤ where
  issued := [2, 1]
  tables := ⟨[⟨1, .superseded, none, 10, 10, some 20⟩, ⟨2, .active, none, 20, 20, none⟩],
    some (some 2)⟩

/-- A token is paid for, named in a refresh, and replaced by the token of the answer. -/
theorem newer_token_stays_refreshed :
    paidToken.Consistent ∧ paidToken.tables.activeTokenHistoryId = some 1 ∧
      refreshedToken.tables.activeTokenHistoryId = some 2 ∧ id (1 : ℤ) ≤ id 2 := by
  have stays := @TokenSystem.newer_token_stays ℤ _ id paidToken (Reached.foldlM_of_meets
    [.loadOrCreateSubject, .issue (1 : ℤ), .poll, .answer .orderStatus (.token 1),
      .apply .orderStatus (.token 1) true 10] rfl)
  refine ⟨stays.1, rfl, rfl, stays.2.2 refreshedToken (Reached.foldlM_of_meets
    [.refresh, .issue (2 : ℤ), .answer (.refreshSubscription 1) (.token 2),
      .apply (.refreshSubscription 1) (.token 2) true 20] rfl) 1 2 rfl rfl⟩

/-- The answer of a poll is stored over a token that was issued and stored after it, and a
revocation of the first token revokes the second, which was stored meanwhile. -/
theorem not_newer_token_stays_lateAnswer :
    (∃ system after : TokenSystem ℤ,
      Reached (fun step before after => TokenSystem.run id before step = some after)
        (fun _ _ => True) {} system ∧
      system.run id (.apply .orderStatus (.token 1) true 20) = some after ∧
      system.tables.activeTokenHistoryId = some 2 ∧ after.tables.activeTokenHistoryId = some 1 ∧
      ¬ id (2 : ℤ) ≤ id 1) ∧
    ∃ system after : TokenSystem ℤ,
      Reached (fun step before after => TokenSystem.run id before step = some after)
        (fun _ _ => True) {} system ∧
      system.run id (.apply (.refreshSubscription 1) (.revoked false) true 20) = some after ∧
      system.tables.rows.map (fun row => (row.tokenId, row.status)) =
        [(1, .superseded), (2, .active)] ∧
      after.tables.rows.map (fun row => (row.tokenId, row.status)) =
        [(1, .superseded), (2, .revoked)] := by
  refine ⟨⟨_, _, Reached.foldlM [.loadOrCreateSubject, .issue 1, .poll,
      .answer .orderStatus (.token 1), .issue 2, .reconcile,
      .answer .subscriptionHistory (.token 2),
      .apply .subscriptionHistory (.token 2) true 10] .start (fun _ _ _ => trivial) rfl,
      rfl, rfl, rfl, ?_⟩,
    ⟨_, _, Reached.foldlM [.loadOrCreateSubject, .issue 1, .poll,
      .answer .orderStatus (.token 1), .apply .orderStatus (.token 1) true 10, .refresh, .revoke 1,
      .answer (.refreshSubscription 1) (.revoked false), .issue 2, .poll,
      .answer .orderStatus (.token 2), .apply .orderStatus (.token 2) true 15] .start
      (fun _ _ _ => trivial) rfl, rfl, rfl, rfl⟩⟩
  decide

theorem history_bounded_of_reached_lateAnswer : ∃ system : TokenSystem ℤ, system.Consistent ∧
    system.tables.activeTokenHistoryId = some 1 ∧ system.issued = [2, 1] := by
  refine ⟨_, (@TokenSystem.history_bounded_of_reached ℤ _ id _ (fun _ _ => True) (Reached.foldlM
    [.loadOrCreateSubject, .issue 1, .poll, .answer .orderStatus (.token 1), .issue 2, .reconcile,
      .answer .subscriptionHistory (.token 2), .apply .subscriptionHistory (.token 2) true 10,
      .apply .orderStatus (.token 1) true 20] .start (fun _ _ _ => trivial) rfl)).1, rfl, rfl⟩

end Bitgarth.Payments
