import Bitgarth.Auth.PairingStore

/-! # Client capabilities and their names

A paired client has a row in the shared database, with its data key wrapped with the client key,
and a name in the database of its user. A claim of an approved pairing writes the name first and
then the row, one database call after the other. Envelopes are encrypted.
-/

namespace Bitgarth.Auth

open KeyedTable

/-- The ciphertext and the nonce of a wrapped key are one value: a row has both or neither. -/
structure ClientCapabilityRecord (CapabilityId Verifier UserId Wrapper : Type) where
  capabilityId : CapabilityId
  userId : UserId
  keyVerifier : Verifier
  wrappedKey : Option Wrapper
  permission : ClientPermission
  createdAt : ℤ
  expiresAt : Option ℤ
  lastUsedAt : Option ℤ
  revokedAt : Option ℤ
deriving DecidableEq, Repr

/-- `client_capabilities` of the shared database, and `paired_client_names` of each user's. -/
structure ClientStores (CapabilityId Verifier UserId Wrapper : Type) where
  capabilities : List (ClientCapabilityRecord CapabilityId Verifier UserId Wrapper) := []
  names : UserId → CapabilityId → Option String := fun _ _ => none

inductive RevokeClientCapabilityResult where
  | revoked
  | alreadyRevoked
  | notFound
deriving DecidableEq, Repr

section Stores

variable {CapabilityId Verifier UserId Wrapper : Type} [DecidableEq CapabilityId]
  [DecidableEq Verifier] [DecidableEq UserId]

def ClientCapabilityRecord.isExpired
    (record : ClientCapabilityRecord CapabilityId Verifier UserId Wrapper) (now : ℤ) : Bool :=
  record.expiresAt.any fun expiresAt => expiresAt ≤ now

namespace ClientStores

def loadClientCapability (stores : ClientStores CapabilityId Verifier UserId Wrapper)
    (capabilityId : CapabilityId) :
    Option (ClientCapabilityRecord CapabilityId Verifier UserId Wrapper) :=
  find ClientCapabilityRecord.capabilityId stores.capabilities capabilityId

def findCapabilityIdentityByVerifier (stores : ClientStores CapabilityId Verifier UserId Wrapper)
    (keyVerifier : Verifier) :
    Option (ClientCapabilityRecord CapabilityId Verifier UserId Wrapper) :=
  find ClientCapabilityRecord.keyVerifier stores.capabilities keyVerifier

/-- The insert fails where the id or the verifier has a row. -/
def insertActiveClientCapability (stores : ClientStores CapabilityId Verifier UserId Wrapper)
    (record : ClientCapabilityRecord CapabilityId Verifier UserId Wrapper) :
    Option (ClientStores CapabilityId Verifier UserId Wrapper) :=
  if record.wrappedKey.isNone ∨ record.revokedAt.isSome then none
  else if ∃ row ∈ stores.capabilities,
      row.capabilityId = record.capabilityId ∨ row.keyVerifier = record.keyVerifier then none
  else some { stores with capabilities := stores.capabilities ++ [record] }

/-- An update of the rows of one id and user that a condition selects. -/
def updateRows (stores : ClientStores CapabilityId Verifier UserId Wrapper) (userId : UserId)
    (capabilityId : CapabilityId)
    (selects : ClientCapabilityRecord CapabilityId Verifier UserId Wrapper → Bool)
    (update : ClientCapabilityRecord CapabilityId Verifier UserId Wrapper →
      ClientCapabilityRecord CapabilityId Verifier UserId Wrapper) :
    ℕ × ClientStores CapabilityId Verifier UserId Wrapper :=
  let selected := fun row : ClientCapabilityRecord CapabilityId Verifier UserId Wrapper =>
    decide (row.capabilityId = capabilityId ∧ row.userId = userId) && selects row
  (stores.capabilities.countP selected,
    { stores with
      capabilities := stores.capabilities.map fun row => if selected row then update row else row })

def clearExpiredClientCapabilityWrap (stores : ClientStores CapabilityId Verifier UserId Wrapper)
    (userId : UserId) (capabilityId : CapabilityId) (now : ℤ) :
    Bool × ClientStores CapabilityId Verifier UserId Wrapper :=
  let (updated, stores) := stores.updateRows userId capabilityId
    (fun row => row.revokedAt.isNone && row.wrappedKey.isSome && row.isExpired now)
    fun row => { row with wrappedKey := none }
  (updated = 1, stores)

/-- `record_client_capability_activity`, without the login time of the user. -/
def recordClientCapabilityActivity (stores : ClientStores CapabilityId Verifier UserId Wrapper)
    (capabilityId : CapabilityId) (userId : UserId) (now : ℤ) :
    Option (ClientStores CapabilityId Verifier UserId Wrapper) :=
  let (updated, stores) := stores.updateRows userId capabilityId
    (fun row => row.revokedAt.isNone && !row.isExpired now)
    fun row => { row with lastUsedAt := some now }
  if updated ≠ 1 then none else some stores

/-- The transaction of a revocation, or `none` where it is rolled back. -/
def revokeClientCapability (stores : ClientStores CapabilityId Verifier UserId Wrapper)
    (userId : UserId) (capabilityId : CapabilityId) (revokedAt : ℤ) :
    Option (RevokeClientCapabilityResult × ClientStores CapabilityId Verifier UserId Wrapper) :=
  let (updated, revoked) := stores.updateRows userId capabilityId
    (fun row => row.revokedAt.isNone)
    fun row => { row with wrappedKey := none, revokedAt := some revokedAt }
  if updated = 1 then some (.revoked, revoked)
  else
    match stores.capabilities.find? fun row =>
        row.capabilityId = capabilityId ∧ row.userId = userId with
    | none => some (.notFound, revoked)
    | some row => if row.revokedAt.isSome then some (.alreadyRevoked, revoked) else none

/-- The `INSERT OR IGNORE` of `insert_paired_client_name`. -/
def insertName (stores : ClientStores CapabilityId Verifier UserId Wrapper) (userId : UserId)
    (capabilityId : CapabilityId) (displayName : String) :
    ClientStores CapabilityId Verifier UserId Wrapper :=
  { stores with
    names := fun user id =>
      if user = userId ∧ id = capabilityId then
        some ((stores.names user id).getD displayName)
      else stores.names user id }

def deletePairedClientName (stores : ClientStores CapabilityId Verifier UserId Wrapper)
    (userId : UserId) (capabilityId : CapabilityId) :
    ClientStores CapabilityId Verifier UserId Wrapper :=
  { stores with
    names := fun user id =>
      if user = userId ∧ id = capabilityId then none else stores.names user id }

/-- `remove_orphan_paired_client_names` with the ids that `capability_ids_for_user` reads. -/
def removeOrphanPairedClientNames (stores : ClientStores CapabilityId Verifier UserId Wrapper)
    (userId : UserId) : ClientStores CapabilityId Verifier UserId Wrapper :=
  { stores with
    names := fun user id =>
      if user = userId ∧
          ¬ ∃ row ∈ stores.capabilities, row.userId = userId ∧ row.capabilityId = id then none
      else stores.names user id }

/-- The clients of a user with their names, or the internal error of a missing one. The order of
the list is left out. -/
def listPairedClients (stores : ClientStores CapabilityId Verifier UserId Wrapper)
    (userId : UserId) :
    Option (List (ClientCapabilityRecord CapabilityId Verifier UserId Wrapper × String)) :=
  (stores.capabilities.filter fun row => row.userId = userId).mapM fun row =>
    (stores.names userId row.capabilityId).map fun name => (row, name)

end ClientStores

/-! ## Claims -/

inductive DurableClaim (UserId : Type) where
  | missing
  | unauthorized
  | active (claimed : ClaimedPairing UserId)

def durableClaim (stores : ClientStores CapabilityId Verifier UserId Wrapper)
    (capabilityId : CapabilityId) (verifier : Verifier) (now : ℤ) : DurableClaim UserId :=
  match stores.loadClientCapability capabilityId with
  | none => .missing
  | some record =>
    if record.keyVerifier ≠ verifier then .unauthorized
    else if record.revokedAt.isSome ∨ record.isExpired now then .unauthorized
    else if record.wrappedKey.isNone then .unauthorized
    else .active { userId := record.userId, permission := record.permission }

/-- What `activate_pairing_claim` does next: the first durable check, the insert of the name, the
check of the stored name, the wrapping with the insert of the row, the durable check after a
failed insert, and the deletion of the name. -/
inductive ActivationPhase where
  | checking
  | naming
  | verifying
  | inserting
  | rechecking
  | unnaming
deriving DecidableEq, Repr

/-- A claim in progress, with the verifier of its key, its time and what wrapping the data key
gives, if it does not fail. -/
structure Activation (CapabilityId Verifier UserId Dek Wrapper : Type) where
  claim : ApprovedPairingClaim CapabilityId UserId Dek
  verifier : Verifier
  now : ℤ
  wrapper : Option Wrapper
  phase : ActivationPhase
deriving DecidableEq, Repr

variable {Dek : Type}

def Activation.record (activation : Activation CapabilityId Verifier UserId Dek Wrapper) :
    ClientCapabilityRecord CapabilityId Verifier UserId Wrapper where
  capabilityId := activation.claim.capabilityId
  userId := activation.claim.userId
  keyVerifier := activation.verifier
  wrappedKey := activation.wrapper
  permission := activation.claim.permission
  createdAt := activation.now
  expiresAt := activation.claim.activeExpiresAt
  lastUsedAt := none
  revokedAt := none

/-- The next database call of a claim, which may fail without an effect. What remains of the claim
is `none` once it has returned. -/
def Activation.advance (activation : Activation CapabilityId Verifier UserId Dek Wrapper)
    (stores : ClientStores CapabilityId Verifier UserId Wrapper) (fails : Bool) :
    Option (Activation CapabilityId Verifier UserId Dek Wrapper) ×
      ClientStores CapabilityId Verifier UserId Wrapper :=
  let claim := activation.claim
  match activation.phase with
  | .checking =>
    if fails then (none, stores)
    else
      match durableClaim stores claim.capabilityId activation.verifier activation.now with
      | .missing => (some { activation with phase := .naming }, stores)
      | _ => (none, stores)
  | .naming =>
    if fails then (none, stores)
    else (some { activation with phase := .verifying },
      stores.insertName claim.userId claim.capabilityId claim.clientName)
  | .verifying =>
    if fails ∨ stores.names claim.userId claim.capabilityId ≠ some claim.clientName then
      (none, stores)
    else (some { activation with phase := .inserting }, stores)
  | .inserting =>
    if activation.wrapper.isNone then (some { activation with phase := .unnaming }, stores)
    else if fails then (some { activation with phase := .rechecking }, stores)
    else
      match stores.insertActiveClientCapability activation.record with
      | none => (some { activation with phase := .rechecking }, stores)
      | some stores => (none, stores)
  | .rechecking =>
    if fails then (some { activation with phase := .unnaming }, stores)
    else
      match durableClaim stores claim.capabilityId activation.verifier activation.now with
      | .active claimed =>
        if claimed.userId = claim.userId ∧ claimed.permission = claim.permission then
          (none, stores)
        else (some { activation with phase := .unnaming }, stores)
      | _ => (some { activation with phase := .unnaming }, stores)
  | .unnaming =>
    if fails then (none, stores)
    else (none, stores.deletePairedClientName claim.userId claim.capabilityId)

/-! ## What the stores keep -/

/-- No id has two rows, every row has a name, and a revoked row has no wrapped key. -/
structure ClientStores.Complete (stores : ClientStores CapabilityId Verifier UserId Wrapper) :
    Prop where
  keyed : Keyed ClientCapabilityRecord.capabilityId stores.capabilities
  named : ∀ row ∈ stores.capabilities, (stores.names row.userId row.capabilityId).isSome
  revoked : ∀ row ∈ stores.capabilities, row.revokedAt.isSome → row.wrappedKey = none

/-- A row of an id and a user without a wrapped key. -/
def ClientStores.Cleared (stores : ClientStores CapabilityId Verifier UserId Wrapper)
    (userId : UserId) (capabilityId : CapabilityId) : Prop :=
  ∃ row ∈ stores.capabilities, row.capabilityId = capabilityId ∧ row.userId = userId ∧
    row.wrappedKey = none

/-- A claim that has found no row leaves its id without one until it inserts it, and inserts it
under a stored name. -/
structure Activation.Prepared (activation : Activation CapabilityId Verifier UserId Dek Wrapper)
    (stores : ClientStores CapabilityId Verifier UserId Wrapper) : Prop where
  absent : activation.phase ≠ .checking →
    ∀ row ∈ stores.capabilities, row.capabilityId ≠ activation.claim.capabilityId
  named : activation.phase = .inserting →
    (stores.names activation.claim.userId activation.claim.capabilityId).isSome

/-- A row as it may become: it keeps its id, user, verifier and expiry, and gets no key back. -/
structure ClientCapabilityRecord.Evolves
    (before after : ClientCapabilityRecord CapabilityId Verifier UserId Wrapper) : Prop where
  capabilityId : after.capabilityId = before.capabilityId
  userId : after.userId = before.userId
  keyVerifier : after.keyVerifier = before.keyVerifier
  expiresAt : after.expiresAt = before.expiresAt
  wrappedKey : before.wrappedKey = none → after.wrappedKey = none
  revokedAt : after.revokedAt.isSome → before.revokedAt.isSome ∨ after.wrappedKey = none

variable {stores : ClientStores CapabilityId Verifier UserId Wrapper}
  {row : ClientCapabilityRecord CapabilityId Verifier UserId Wrapper}
  {activation : Activation CapabilityId Verifier UserId Dek Wrapper}
  {userId : UserId} {capabilityId : CapabilityId}

omit [DecidableEq CapabilityId] [DecidableEq Verifier] [DecidableEq UserId] in
theorem evolves_refl : row.Evolves row :=
  ⟨rfl, rfl, rfl, rfl, id, .inl⟩

omit [DecidableEq CapabilityId] [DecidableEq Verifier] [DecidableEq UserId] in
theorem ClientStores.Complete.map (complete : stores.Complete)
    {update : ClientCapabilityRecord CapabilityId Verifier UserId Wrapper →
      ClientCapabilityRecord CapabilityId Verifier UserId Wrapper}
    (evolves : ∀ row, ClientCapabilityRecord.Evolves row (update row)) :
    ({ stores with capabilities := stores.capabilities.map update } :
      ClientStores CapabilityId Verifier UserId Wrapper).Complete := by
  refine ⟨complete.keyed.map fun row => (evolves row).capabilityId, ?_, ?_⟩
  · intro row member
    obtain ⟨before, isBefore, rfl⟩ := List.mem_map.mp member
    rw [(evolves before).userId, (evolves before).capabilityId]
    exact complete.named before isBefore
  · intro row member isRevoked
    obtain ⟨before, isBefore, rfl⟩ := List.mem_map.mp member
    rcases (evolves before).revokedAt isRevoked with wasRevoked | cleared
    · exact (evolves before).wrappedKey (complete.revoked before isBefore wasRevoked)
    · exact cleared

omit [DecidableEq CapabilityId] [DecidableEq Verifier] [DecidableEq UserId] in
theorem ClientStores.Cleared.map (cleared : stores.Cleared userId capabilityId)
    {update : ClientCapabilityRecord CapabilityId Verifier UserId Wrapper →
      ClientCapabilityRecord CapabilityId Verifier UserId Wrapper}
    (evolves : ∀ row, ClientCapabilityRecord.Evolves row (update row)) :
    ({ stores with capabilities := stores.capabilities.map update } :
      ClientStores CapabilityId Verifier UserId Wrapper).Cleared userId capabilityId := by
  obtain ⟨row, member, isId, isUser, isCleared⟩ := cleared
  refine ⟨update row, List.mem_map_of_mem member, ?_, ?_, ?_⟩
  · exact (evolves row).capabilityId.trans isId
  · exact (evolves row).userId.trans isUser
  · exact (evolves row).wrappedKey isCleared

omit [DecidableEq CapabilityId] [DecidableEq Verifier] [DecidableEq UserId] in
theorem Activation.Prepared.map (prepared : activation.Prepared stores)
    {update : ClientCapabilityRecord CapabilityId Verifier UserId Wrapper →
      ClientCapabilityRecord CapabilityId Verifier UserId Wrapper}
    (evolves : ∀ row, ClientCapabilityRecord.Evolves row (update row)) :
    activation.Prepared { stores with capabilities := stores.capabilities.map update } := by
  refine ⟨?_, prepared.named⟩
  intro begun row member
  obtain ⟨before, isBefore, rfl⟩ := List.mem_map.mp member
  rw [(evolves before).capabilityId]
  exact prepared.absent begun before isBefore

omit [DecidableEq CapabilityId] [DecidableEq Verifier] in
theorem ClientStores.Complete.listPairedClients (complete : stores.Complete) (userId : UserId) :
    (stores.listPairedClients userId).isSome := by
  unfold ClientStores.listPairedClients
  have named : ∀ row ∈ stores.capabilities.filter fun row => row.userId = userId,
      (stores.names userId row.capabilityId).isSome := by
    intro row member
    obtain ⟨isRow, isUser⟩ := List.mem_filter.mp member
    rw [← of_decide_eq_true isUser]
    exact complete.named row isRow
  generalize stores.capabilities.filter (fun row => row.userId = userId) = rows at named
  induction rows with
  | nil => rfl
  | cons row rest ih =>
    obtain ⟨name, isName⟩ := Option.isSome_iff_exists.mp (named row List.mem_cons_self)
    obtain ⟨listed, isListed⟩ := Option.isSome_iff_exists.mp
      (ih fun other member => named other (List.mem_cons_of_mem _ member))
    rw [List.mapM_cons, isName, isListed]
    rfl

omit [DecidableEq Verifier] in
theorem ClientStores.Complete.deletePairedClientName (complete : stores.Complete)
    (absent : ∀ row ∈ stores.capabilities, row.capabilityId ≠ capabilityId) :
    (stores.deletePairedClientName userId capabilityId).Complete := by
  refine ⟨complete.keyed, ?_, complete.revoked⟩
  intro row member
  dsimp only [ClientStores.deletePairedClientName]
  rw [if_neg fun same => absent row member same.2]
  exact complete.named row member

omit [DecidableEq Verifier] in
theorem ClientStores.Complete.insertName (complete : stores.Complete) (displayName : String) :
    (stores.insertName userId capabilityId displayName).Complete := by
  refine ⟨complete.keyed, ?_, complete.revoked⟩
  intro row member
  dsimp only [ClientStores.insertName]
  split
  · rfl
  · exact complete.named row member

omit [DecidableEq Verifier] in
theorem ClientStores.Complete.removeOrphanPairedClientNames (complete : stores.Complete) :
    (stores.removeOrphanPairedClientNames userId).Complete := by
  refine ⟨complete.keyed, ?_, complete.revoked⟩
  intro row member
  dsimp only [ClientStores.removeOrphanPairedClientNames]
  rw [if_neg fun orphan => orphan.2 ⟨row, member, orphan.1, rfl⟩]
  exact complete.named row member

omit [DecidableEq UserId] in
theorem ClientStores.Complete.insert (complete : stores.Complete) {after}
    (inserted : stores.insertActiveClientCapability row = some after)
    (named : (stores.names row.userId row.capabilityId).isSome) :
    after.Complete ∧ after.capabilities = stores.capabilities ++ [row] := by
  simp only [ClientStores.insertActiveClientCapability] at inserted
  split at inserted
  · cases inserted
  · rename_i isActive
    split at inserted
    · cases inserted
    · rename_i fresh
      cases inserted
      refine ⟨⟨?_, ?_, ?_⟩, rfl⟩
      · rw [Keyed, List.map_append, List.nodup_append]
        refine ⟨complete.keyed, List.nodup_singleton _, ?_⟩
        intro id isOld other isNew same
        obtain ⟨old, member, rfl⟩ := List.mem_map.mp isOld
        rw [List.mem_singleton.mp isNew] at same
        exact fresh ⟨old, member, .inl same⟩
      · intro other member
        rcases List.mem_append.mp member with isOld | isNew
        · exact complete.named other isOld
        · rw [List.mem_singleton.mp isNew]
          exact named
      · intro other member isRevoked
        rcases List.mem_append.mp member with isOld | isNew
        · exact complete.revoked other isOld isRevoked
        · rw [List.mem_singleton.mp isNew] at isRevoked
          exact absurd (.inr isRevoked) isActive

theorem Activation.Prepared.advance (prepared : activation.Prepared stores)
    (complete : stores.Complete) (fails : Bool) :
    (activation.advance stores fails).2.Complete ∧
      (∀ next ∈ (activation.advance stores fails).1,
        next.claim = activation.claim ∧ next.Prepared (activation.advance stores fails).2) ∧
      ((activation.advance stores fails).2.capabilities = stores.capabilities ∨
        (activation.advance stores fails).2.capabilities =
          stores.capabilities ++ [activation.record]) := by
  have ended : stores.Complete ∧
      (∀ next ∈ (none : Option (Activation CapabilityId Verifier UserId Dek Wrapper)),
        next.claim = activation.claim ∧ next.Prepared stores) ∧
      (stores.capabilities = stores.capabilities ∨
        stores.capabilities = stores.capabilities ++ [activation.record]) := by
    refine ⟨complete, ?_, .inl rfl⟩
    intro next isNext
    cases isNext
  have moves (phase : ActivationPhase) (named : phase ≠ .inserting)
      (begun : activation.phase ≠ .checking) : stores.Complete ∧
      (∀ next ∈ some { activation with phase }, next.claim = activation.claim ∧
        next.Prepared stores) ∧
      (stores.capabilities = stores.capabilities ∨
        stores.capabilities = stores.capabilities ++ [activation.record]) := by
    refine ⟨complete, ?_, .inl rfl⟩
    rintro next ⟨⟩
    exact ⟨rfl, fun _ => prepared.absent begun, fun isInserting => absurd isInserting named⟩
  unfold Activation.advance
  dsimp only
  split
  · split
    · exact ended
    · split
      · rename_i isMissing
        refine ⟨complete, ?_, .inl rfl⟩
        rintro next ⟨⟩
        refine ⟨rfl, fun _ => ?_, fun isInserting => nomatch isInserting⟩
        unfold durableClaim at isMissing
        split at isMissing
        · rename_i absent
          exact find_eq_none_iff.mp absent
        · split at isMissing
          · cases isMissing
          · split at isMissing
            · cases isMissing
            · split at isMissing
              · cases isMissing
              · cases isMissing
      · exact ended
  · rename_i isNaming
    split
    · exact ended
    · refine ⟨complete.insertName _, ?_, .inl rfl⟩
      rintro next ⟨⟩
      refine ⟨rfl, fun _ => prepared.absent ?_, fun isInserting => nomatch isInserting⟩
      rw [isNaming]
      exact ActivationPhase.noConfusion
  · rename_i isVerifying
    split
    · exact ended
    · rename_i isNamed
      refine ⟨complete, ?_, .inl rfl⟩
      rintro next ⟨⟩
      refine ⟨rfl, fun _ => prepared.absent ?_, fun _ => ?_⟩
      · rw [isVerifying]
        exact ActivationPhase.noConfusion
      · dsimp only
        rw [not_not.mp (not_or.mp isNamed).2]
        rfl
  · rename_i isInserting
    have begun : activation.phase ≠ .checking := by
      rw [isInserting]
      exact ActivationPhase.noConfusion
    split
    · exact moves .unnaming ActivationPhase.noConfusion begun
    · split
      · exact moves .rechecking ActivationPhase.noConfusion begun
      · split
        · exact moves .rechecking ActivationPhase.noConfusion begun
        · rename_i after inserted
          obtain ⟨afterComplete, rows⟩ := complete.insert inserted (prepared.named isInserting)
          refine ⟨afterComplete, ?_, .inr rows⟩
          intro next isNext
          cases isNext
  · rename_i isRechecking
    have begun : activation.phase ≠ .checking := by
      rw [isRechecking]
      exact ActivationPhase.noConfusion
    split
    · exact moves .unnaming ActivationPhase.noConfusion begun
    · split
      · split
        · exact ended
        · exact moves .unnaming ActivationPhase.noConfusion begun
      · exact moves .unnaming ActivationPhase.noConfusion begun
  · rename_i isUnnaming
    split
    · exact ended
    · refine ⟨complete.deletePairedClientName (prepared.absent ?_), ?_, .inl rfl⟩
      · rw [isUnnaming]
        exact ActivationPhase.noConfusion
      · intro next isNext
        cases isNext

omit [DecidableEq CapabilityId] [DecidableEq Verifier] [DecidableEq UserId] in
theorem ClientStores.Cleared.append (cleared : stores.Cleared userId capabilityId)
    {after : ClientStores CapabilityId Verifier UserId Wrapper}
    (rows : after.capabilities = stores.capabilities ∨
      after.capabilities = stores.capabilities ++ [row]) :
    after.Cleared userId capabilityId := by
  obtain ⟨found, member, isFound⟩ := cleared
  refine ⟨found, ?_, isFound⟩
  rcases rows with same | added
  · rw [same]
    exact member
  · rw [added]
    exact List.mem_append_left _ member

/-! ## Updates of rows -/

omit [DecidableEq Verifier] in
theorem updateRows_eq_map (stores : ClientStores CapabilityId Verifier UserId Wrapper)
    (userId : UserId) (capabilityId : CapabilityId)
    (selects : ClientCapabilityRecord CapabilityId Verifier UserId Wrapper → Bool)
    (update : ClientCapabilityRecord CapabilityId Verifier UserId Wrapper →
      ClientCapabilityRecord CapabilityId Verifier UserId Wrapper)
    (evolves : ∀ row, ClientCapabilityRecord.Evolves row (update row)) :
    ∃ change, (stores.updateRows userId capabilityId selects update).2 =
        { stores with capabilities := stores.capabilities.map change } ∧
      ∀ row, ClientCapabilityRecord.Evolves row (change row) := by
  refine ⟨_, rfl, ?_⟩
  intro row
  dsimp only
  split
  · exact evolves row
  · exact evolves_refl

end Stores

end Bitgarth.Auth
