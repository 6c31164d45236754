import Mathlib.Data.List.Nodup
import Bitgarth.Auth.Registration

/-! # What registering leaves behind

A registration that ends between the commit of its rows and the last byte of the temporary
envelope file leaves a user name that can be neither registered nor logged in to. Every other end
of an attempt leaves a sound server, where one of the two gets through.
-/

namespace Bitgarth.Auth.Registration

open Interruption Interruption.Program

/-! ## Conditions -/

section Conditions

variable {Dek : Type}

/-- The envelope is in place, or in a complete temporary file that the next read puts there. -/
def EnvelopeFiles.Holds (files : EnvelopeFiles Dek) (envelope : DbEnvelope Dek) : Prop :=
  files.dest = some (.json envelope) ∨ files = { temp := some (.json envelope) }

/-- The key of the envelope opens what there is of the user database. -/
structure UserStore.Opens (store : UserStore Dek) (envelope : DbEnvelope Dek) (dek : Dek) :
    Prop where
  files : store.files.Holds envelope
  wraps : envelope.Wraps dek
  userDb : ∀ file ∈ store.userDb,
    file.dek = dek ∧ file.sqlcipherCompatibility = envelope.sqlcipherVersion
  connection : ∀ mode ∈ store.connection, mode = ⟨dek, envelope.sqlcipherVersion⟩

/-- The password of every user unlocks an envelope with the key of the user's data. -/
structure Server.Sound (username password : String) (server : Server Dek) : Prop where
  userIds : (server.users.map (·.userId)).Nodup
  recovers : ∀ row ∈ server.users, ∃ envelope dek,
    (server.stores row.userId).Opens envelope dek ∧ envelope.HasWrapper row.passwordHash
  unused : ∀ userId, (∀ row ∈ server.users, row.userId ≠ userId) → server.stores userId = {}
  samePassword : ∀ row ∈ server.users,
    foldCase row.username = foldCase username → row.passwordHash = password

/-- A sound server with the envelope and the key of one of its users. -/
structure Server.Ready (username password : String) (row : UserRow) (envelope : DbEnvelope Dek)
    (dek : Dek) (server : Server Dek) : Prop where
  sound : server.Sound username password
  member : row ∈ server.users
  opens : (server.stores row.userId).Opens envelope dek
  hasWrapper : envelope.HasWrapper row.passwordHash

/-- Where a registration that fails or stops has committed its rows and has no envelope yet. -/
def AuthStep.strands : AuthStep → Bool
  | acquireLifecycleLock | newEncrypted | resolveEnvelopePath | createTemp | writeTemp => true
  | _ => false

/-- A user name is given with one password only. -/
def Credentials.Uses (credentials : Credentials) (username password : String) : Prop :=
  foldCase credentials.username = foldCase username → credentials.password = password

def ServerEvent.Uses (event : ServerEvent Dek) (username password : String) : Prop :=
  match event with
  | .attempt tried _ => tried.credentials.Uses username password
  | .restart => True

/-- A registration does not end between its commit and the end of the temporary file. -/
def ServerEvent.KeepsWay : ServerEvent Dek → Prop
  | .attempt (.register _ _) interrupted => ∀ step ∈ interrupted, step.strands = false
  | _ => True

/-- A registration with unused ids succeeds, or else a log-in does. -/
def Server.WayForward [DecidableEq Dek] (build : Build) (username password : String)
    (server : Server Dek) : Prop :=
  (∀ generated : Generated Dek, (∀ row ∈ server.users, row.userId ≠ generated.userId) →
    ∃ user after, (register build ⟨username, password⟩ generated).run server = (.ok user, after)) ∨
  ∀ sessionId, ∃ user after,
    (login build ⟨username, password⟩ sessionId).run server = (.ok user, after)

end Conditions

/-! ## Updates -/

section Updates

variable {Dek : Type} {username password : String} {row : UserRow} {envelope : DbEnvelope Dek}
  {dek : Dek} {server : Server Dek} {userId : ℕ} {update : UserStore Dek → UserStore Dek}
  {change : EnvelopeFiles Dek → EnvelopeFiles Dek}

namespace Server

@[simp]
theorem users_updateStore : (server.updateStore userId update).users = server.users :=
  rfl

@[simp]
theorem stores_updateStore_self :
    (server.updateStore userId update).stores userId = update (server.stores userId) :=
  Function.update_self ..

theorem stores_updateStore_of_ne {other : ℕ} (different : other ≠ userId) :
    (server.updateStore userId update).stores other = server.stores other :=
  Function.update_of_ne different ..

@[simp]
theorem users_updateFiles : (server.updateFiles userId change).users = server.users :=
  rfl

@[simp]
theorem stores_updateFiles_self : (server.updateFiles userId change).stores userId =
    { server.stores userId with files := change (server.stores userId).files } :=
  stores_updateStore_self

theorem Sound.eq_of_userId (sound : server.Sound username password) {other : UserRow}
    (member : row ∈ server.users) (otherMember : other ∈ server.users)
    (same : other.userId = row.userId) : other = row :=
  List.inj_on_of_nodup_map sound.userIds otherMember member same

theorem Sound.getPasswordHashForUser (sound : server.Sound username password)
    (member : row ∈ server.users) :
    server.getPasswordHashForUser row.userId = some row.passwordHash := by
  unfold Server.getPasswordHashForUser
  cases found : server.users.find? fun other => other.userId = row.userId with
  | none =>
    have none := List.find?_eq_none.mp found row member
    exact absurd (decide_eq_true rfl) none
  | some other =>
    have same : other.userId = row.userId := by simpa using List.find?_some found
    rw [sound.eq_of_userId member (List.mem_of_find?_eq_some found) same]
    rfl

theorem Ready.updateStore (ready : server.Ready username password row envelope dek)
    (opens : (update (server.stores row.userId)).Opens envelope dek) :
    (server.updateStore row.userId update).Ready username password row envelope dek where
  sound := {
    userIds := ready.sound.userIds
    recovers := by
      intro other member
      by_cases same : other.userId = row.userId
      · obtain rfl := ready.sound.eq_of_userId ready.member member same
        rw [stores_updateStore_self]
        exact ⟨envelope, dek, opens, ready.hasWrapper⟩
      · rw [stores_updateStore_of_ne same]
        exact ready.sound.recovers other member
    unused := by
      intro userId unused
      rw [stores_updateStore_of_ne (Ne.symm (unused row ready.member))]
      exact ready.sound.unused userId unused
    samePassword := ready.sound.samePassword }
  member := ready.member
  opens := by rwa [stores_updateStore_self]
  hasWrapper := ready.hasWrapper

theorem Ready.updateFiles (ready : server.Ready username password row envelope dek)
    (holds : (change (server.stores row.userId).files).Holds envelope) :
    (server.updateFiles row.userId change).Ready username password row envelope dek :=
  ready.updateStore ⟨holds, ready.opens.wraps, ready.opens.userDb, ready.opens.connection⟩

theorem Ready.of_eq {other : Server Dek} (ready : server.Ready username password row envelope dek)
    (users : other.users = server.users) (stores : other.stores = server.stores) :
    other.Ready username password row envelope dek := by
  obtain ⟨⟨userIds, recovers, unused, samePassword⟩, member, opens, hasWrapper⟩ := ready
  rw [← users] at userIds recovers unused samePassword member
  rw [← stores] at recovers unused opens
  exact ⟨⟨userIds, recovers, unused, samePassword⟩, member, opens, hasWrapper⟩

theorem Sound.restart (sound : server.Sound username password) :
    server.restart.Sound username password where
  userIds := sound.userIds
  recovers := by
    intro row member
    obtain ⟨envelope, dek, opens, hasWrapper⟩ := sound.recovers row member
    exact ⟨envelope, dek, ⟨opens.files, opens.wraps, opens.userDb, fun _ none => by cases none⟩,
      hasWrapper⟩
  unused := by
    intro userId unused
    change { server.stores userId with connection := none } = _
    rw [sound.unused userId unused]
  samePassword := sound.samePassword

theorem Sound.ready_insertUser (sound : server.Sound username password)
    (fresh : ∀ other ∈ server.users, other.userId ≠ row.userId)
    (uses : foldCase row.username = foldCase username → row.passwordHash = password)
    (wraps : envelope.Wraps dek) (hasWrapper : envelope.HasWrapper row.passwordHash) :
    (((server.insertUser row).updateFiles row.userId ({ · with temp := some .torn })).updateFiles
      row.userId ({ · with temp := some (.json envelope) })).Ready username password row envelope
        dek := by
  set after := ((server.insertUser row).updateFiles row.userId
    ({ · with temp := some .torn })).updateFiles row.userId
      ({ · with temp := some (.json envelope) }) with isAfter
  have users : after.users = server.users ++ [row] := rfl
  have own : after.stores row.userId = { files := { temp := some (.json envelope) } } := by
    have unused : (server.insertUser row).stores row.userId = {} := sound.unused row.userId fresh
    rw [isAfter, stores_updateFiles_self, stores_updateFiles_self, unused]
  have others : ∀ userId, userId ≠ row.userId → after.stores userId = server.stores userId := by
    intro userId different
    rw [isAfter, updateFiles, updateFiles, stores_updateStore_of_ne different,
      stores_updateStore_of_ne different]
    rfl
  have opens : (after.stores row.userId).Opens envelope dek := by
    rw [own]
    exact ⟨.inr rfl, wraps, (by rintro _ ⟨⟩), (by rintro _ ⟨⟩)⟩
  refine ⟨⟨?_, ?_, ?_, ?_⟩, ?_, opens, hasWrapper⟩
  · rw [users, List.map_append, List.map_singleton]
    refine List.Nodup.append sound.userIds (List.nodup_singleton _) ?_
    rintro _ old new
    obtain ⟨other, member, rfl⟩ := List.mem_map.mp old
    exact fresh other member (List.mem_singleton.mp new)
  · intro other member
    rw [users] at member
    rcases List.mem_append.mp member with old | new
    · rw [others other.userId (fresh other old)]
      exact sound.recovers other old
    · rw [List.mem_singleton.mp new]
      exact ⟨envelope, dek, opens, hasWrapper⟩
  · intro userId unused
    rw [users] at unused
    rw [others userId (Ne.symm (unused row (List.mem_append_right _ (List.mem_singleton_self _))))]
    exact sound.unused userId fun other member => unused other (List.mem_append_left _ member)
  · intro other member same
    rw [users] at member
    rcases List.mem_append.mp member with old | new
    · exact sound.samePassword other old same
    · obtain rfl := List.mem_singleton.mp new
      exact uses same
  · rw [users]
    exact List.mem_append_right _ (List.mem_singleton_self _)

end Server

end Updates

/-! ## What the programs keep -/

section Programs

variable {Dek : Type} {username password : String} {row : UserRow} {envelope : DbEnvelope Dek}
  {dek : Dek} {server : Server Dek} {allowed : AuthStep → Prop} {crash : Server Dek → Prop}

theorem survives_onlyIf {Err : Type} {condition : Bool} {program : AuthProgram Dek Err Unit}
    {post : Unit → Server Dek → Prop}
    (holds : condition = true → Survives allowed crash post program server)
    (otherwise : condition = false → post () server) :
    Survives allowed crash post (onlyIf condition program) server := by
  cases condition with
  | true => exact holds rfl
  | false => exact survives_pure (otherwise rfl)

theorem survives_recoverEnvelopeFileIfNeeded
    (crashes : ∀ label, allowed label → ∀ server, server.Sound username password → crash server)
    (ready : server.Ready username password row envelope dek) :
    Survives allowed crash
      (fun _ after => after.Ready username password row envelope dek ∧
        (after.stores row.userId).files.dest = some (.json envelope))
      (recoverEnvelopeFileIfNeeded row.userId) server := by
  have fails : ∀ {label : AuthStep} {server : Server Dek},
      server.Ready username password row envelope dek → allowed label → crash server :=
    fun ready isAllowed => crashes _ isAllowed _ ready.sound
  unfold recoverEnvelopeFileIfNeeded
  refine survives_get_bind ?_
  dsimp only
  rcases ready.opens.files with isDest | isTemp
  · rw [isDest, if_pos (Option.isSome_some ..)]
    have keeps : ∀ {change : EnvelopeFiles Dek → EnvelopeFiles Dek} {server : Server Dek},
        (∀ files, (change files).dest = files.dest) →
        server.Ready username password row envelope dek →
        (server.stores row.userId).files.dest = some (.json envelope) →
        (server.updateFiles row.userId change).Ready username password row envelope dek ∧
          ((server.updateFiles row.userId change).stores row.userId).files.dest =
            some (.json envelope) := by
      intro change server same ready isDest
      refine ⟨ready.updateFiles (.inl ((same _).trans isDest)), ?_⟩
      rw [Server.stores_updateFiles_self]
      exact (same _).trans isDest
    refine survives_bind (fun _ after =>
        after.Ready username password row envelope dek ∧
          (after.stores row.userId).files.dest = some (.json envelope)) ?_ ?_
    · exact survives_onlyIf
        (fun _ => survives_change (fails ready) (keeps (fun _ => rfl) ready isDest))
        (fun _ => ⟨ready, isDest⟩)
    · rintro _ middle ⟨ready, isDest⟩
      exact survives_onlyIf
        (fun _ => survives_change (fails ready) (keeps (fun _ => rfl) ready isDest))
        (fun _ => ⟨ready, isDest⟩)
  · rw [isTemp]
    refine survives_change_bind (fails ready) (survives_change (fails ready) ?_)
    refine ⟨ready.updateFiles (.inl ?_), ?_⟩
    · change (server.stores row.userId).files.temp = _
      rw [isTemp]
    · rw [id, Server.stores_updateFiles_self]
      change (server.stores row.userId).files.temp = _
      rw [isTemp]

theorem survives_readEnvelope
    (crashes : ∀ label, allowed label → ∀ server, server.Sound username password → crash server)
    (ready : server.Ready username password row envelope dek) :
    Survives allowed crash
      (fun found after => found = envelope ∧ after.Ready username password row envelope dek)
      (readEnvelope row.userId) server := by
  unfold readEnvelope
  refine survives_change_bind (fun isAllowed => crashes _ isAllowed _ ready.sound) ?_
  refine survives_bind _ (survives_recoverEnvelopeFileIfNeeded crashes ready) ?_
  rintro _ middle ⟨ready, isDest⟩
  refine survives_get_bind ?_
  rw [isDest]
  refine survives_change_bind (fun isAllowed => crashes _ isAllowed _ ready.sound) ?_
  exact survives_pure ⟨rfl, ready⟩

theorem survives_runMigrations
    (crashes : ∀ label, allowed label → ∀ server, server.Sound username password → crash server) :
    ∀ (left : ℕ) (server : Server Dek), server.Ready username password row envelope dek →
      Survives allowed crash (fun _ after => after.Ready username password row envelope dek)
        (runMigrations row.userId left) server
  | 0, _, ready => survives_pure ready
  | left + 1, server, ready => by
      refine survives_change_bind (fun isAllowed => crashes _ isAllowed _ ready.sound) ?_
      refine survives_runMigrations crashes left _ (ready.updateStore ?_)
      refine ⟨ready.opens.files, ready.opens.wraps, ?_, ready.opens.connection⟩
      intro migrated isMigrated
      obtain ⟨file, isFile, rfl⟩ := Option.map_eq_some_iff.mp isMigrated
      exact ready.opens.userDb file isFile

/-- The user database is open with the key of the envelope. -/
def Server.Connected (row : UserRow) (envelope : DbEnvelope Dek) (dek : Dek)
    (server : Server Dek) : Prop :=
  (server.stores row.userId).connection = some ⟨dek, envelope.sqlcipherVersion⟩

theorem survives_initializeUserDb [DecidableEq Dek] {build : Build}
    (crashes : ∀ label, allowed label → ∀ server, server.Sound username password → crash server)
    (ready : server.Ready username password row envelope dek) :
    Survives allowed crash
      (fun _ after => after.Ready username password row envelope dek ∧
        after.Connected row envelope dek)
      (initializeUserDb build row.userId ⟨dek, envelope.sqlcipherVersion⟩) server := by
  have fails : ∀ {label : AuthStep} {server : Server Dek},
      server.Ready username password row envelope dek → allowed label → crash server :=
    fun ready isAllowed => crashes _ isAllowed _ ready.sound
  unfold initializeUserDb
  refine survives_get_bind ?_
  cases isConnection : (server.stores row.userId).connection with
  | some existing =>
    have isMode := ready.opens.connection existing isConnection
    dsimp only
    rw [if_pos isMode]
    exact survives_pure ⟨ready, isConnection.trans (congrArg some isMode)⟩
  | none =>
    refine survives_change_bind (fails ready) (survives_get_bind ?_)
    have connects : ∀ server : Server Dek, server.Ready username password row envelope dek →
        Survives allowed crash
          (fun _ after => after.Ready username password row envelope dek ∧
            after.Connected row envelope dek)
          (do change AuthStep.prepareUserDb AuthError.internal id
              change .connectUserDb .internal (Server.updateStore row.userId ({ · with
                connection := some ⟨dek, envelope.sqlcipherVersion⟩ }))) server := by
      intro server ready
      refine survives_change_bind (fails ready) (survives_change (fails ready) ⟨?_, ?_⟩)
      · exact ready.updateStore ⟨ready.opens.files, ready.opens.wraps, ready.opens.userDb,
          (by rintro _ ⟨⟩; rfl)⟩
      · unfold Server.Connected
        rw [Server.stores_updateStore_self]
    cases isDb : (server.stores row.userId).userDb with
    | none =>
      dsimp only [id]
      rw [isDb]
      refine survives_change_bind (fails ready) ?_
      have created : (server.updateStore row.userId ({ · with
          userDb := some ⟨dek, envelope.sqlcipherVersion, 0⟩ })).Ready username password row
            envelope dek :=
        ready.updateStore ⟨ready.opens.files, ready.opens.wraps,
          (by rintro _ ⟨⟩; exact ⟨rfl, rfl⟩), ready.opens.connection⟩
      exact survives_bind _ (survives_runMigrations crashes _ _ created)
        fun _ middle ready => connects middle ready
    | some file =>
      dsimp only [id]
      rw [isDb]
      dsimp only
      rw [if_pos (ready.opens.userDb file isDb)]
      exact survives_bind _ (survives_runMigrations crashes _ _ ready)
        fun _ middle ready => connects middle ready

theorem survives_openSession [DecidableEq Dek] {build : Build} {sessionId : ℕ}
    (crashes : ∀ label, allowed label → ∀ server, server.Sound username password → crash server)
    (ready : server.Ready username password row envelope dek) :
    Survives allowed crash (fun _ after => after.Ready username password row envelope dek)
      (openSession build row.userId sessionId ⟨dek, envelope.sqlcipherVersion⟩) server := by
  have fails : ∀ {label : AuthStep} {server : Server Dek},
      server.Ready username password row envelope dek → allowed label → crash server :=
    fun ready isAllowed => crashes _ isAllowed _ ready.sound
  unfold openSession
  refine survives_change_bind (fails ready) ?_
  refine survives_bind _ (survives_initializeUserDb crashes ready) ?_
  rintro _ middle ⟨ready, connected⟩
  refine survives_bind (fun _ after => after.Ready username password row envelope dek)
    ?_ ?_
  · unfold loadSettings
    refine survives_get_bind ?_
    rw [connected]
    exact survives_change (fails ready) ready
  · intro _ middle ready
    have inserted : (middle.insertSession ⟨sessionId, row.userId, dek⟩).Ready username password row
        envelope dek := ready.of_eq rfl rfl
    exact survives_change_bind (fails ready) (survives_change (fails inserted) inserted)

theorem survives_login [DecidableEq Dek] {build : Build} {credentials : Credentials}
    {sessionId : ℕ}
    (crashes : ∀ label, allowed label → ∀ server, server.Sound username password → crash server)
    (ready : server.Ready username password row envelope dek)
    (found : server.getUserByUsername credentials.username = some row)
    (verified : row.passwordHash = credentials.password) :
    Survives allowed crash (fun _ after => after.Ready username password row envelope dek)
      (login build credentials sessionId) server := by
  have fails : ∀ {label : AuthStep} {server : Server Dek},
      server.Ready username password row envelope dek → allowed label → crash server :=
    fun ready isAllowed => crashes _ isAllowed _ ready.sound
  have isHash := ready.sound.getPasswordHashForUser ready.member
  unfold login
  refine survives_change_bind (fails ready) (survives_get_bind ?_)
  rw [id, found]
  refine survives_change_bind (fails ready) (survives_change_bind (fails ready) ?_)
  refine survives_get_bind ?_
  rw [id, id, isHash]
  dsimp only
  rw [if_neg (not_not.mpr verified)]
  refine survives_bind _ (survives_mapError (survives_readEnvelope crashes ready)) ?_
  rintro read middle ⟨isRead, ready⟩
  have unwraps := ready.opens.wraps.unwrapWithPassword_eq_ok.mpr (verified ▸ ready.hasWrapper)
  rw [isRead, unwraps]
  refine survives_bind _ (survives_openSession crashes ready) ?_
  intro _ middle ready
  refine survives_bind (fun _ after => after.Ready username password row envelope dek) ?_ ?_
  · refine survives_handle
      (fun after => (∃ label, allowed label) ∧ after.Ready username password row envelope dek)
      (survives_change (fun isAllowed => ⟨⟨_, isAllowed⟩, ready⟩) ready) ?_ ?_
    · rintro after ⟨⟨label, isAllowed⟩, ready⟩
      exact fails ready isAllowed
    · rintro error after ⟨⟨label, isAllowed⟩, ready⟩
      have deleted : (after.deleteSession sessionId).Ready username password row envelope dek :=
        ready.of_eq rfl rfl
      refine survives_bind (fun _ after => after.Ready username password row envelope dek)
        (survives_handle (fun after => after.Ready username password row envelope dek)
          (survives_change (fun _ => ready) deleted) (fun _ ready => fails ready isAllowed)
          fun _ _ ready => survives_pure ready) ?_
      intro _ last ready
      exact survives_throw (fails ready isAllowed)
  · intro _ last ready
    exact survives_change_bind (fails ready) (survives_pure ready)

theorem survives_writeEnvelope {build : Build}
    (crashes : ∀ label, allowed label → ∀ server, server.Sound username password → crash server)
    (keepsWay : ∀ label, allowed label → label.strands = false)
    (noFiles : (server.stores row.userId).files = {})
    (written : ((server.updateFiles row.userId ({ · with temp := some .torn })).updateFiles
      row.userId ({ · with temp := some (.json envelope) })).Ready username password row envelope
        dek) :
    Survives allowed crash (fun _ after => after.Ready username password row envelope dek)
      (writeEnvelope build.unix row.userId envelope) server := by
  have never : ∀ {label : AuthStep} {server : Server Dek}, label.strands = true →
      allowed label → crash server :=
    fun strands isAllowed => absurd strands (by rw [keepsWay _ isAllowed]; exact Bool.false_ne_true)
  unfold writeEnvelope
  refine survives_change_bind (never rfl) ?_
  refine survives_bind (fun _ after => after = server) ?_ ?_
  · unfold recoverEnvelopeFileIfNeeded
    refine survives_get_bind ?_
    rw [id, noFiles]
    exact survives_pure rfl
  · rintro _ _ rfl
    refine survives_change_bind (never rfl) (survives_change_bind (never rfl) ?_)
    unfold atomicReplaceFileWithBackup
    refine survives_get_bind ?_
    dsimp only
    rw [Server.stores_updateFiles_self, Server.stores_updateFiles_self, noFiles]
    dsimp only
    rw [Option.isNone_none, if_pos (Bool.or_true _)]
    refine survives_change (fun isAllowed => crashes _ isAllowed _ written.sound) ?_
    refine written.updateFiles (.inl ?_)
    rw [Server.stores_updateFiles_self]

theorem survives_register [DecidableEq Dek] {build : Build} {credentials : Credentials}
    {generated : Generated Dek}
    (crashes : ∀ label, allowed label → ∀ server, server.Sound username password → crash server)
    (keepsWay : ∀ label, allowed label → label.strands = false)
    (sound : server.Sound username password)
    (isFree : server.getUserByUsername credentials.username = none)
    (isFresh : server.getPasswordHashForUser generated.userId = none)
    (uses : credentials.Uses username password) :
    Survives allowed crash (fun _ after => after.Sound username password)
      (register build credentials generated) server := by
  set row : UserRow :=
    { userId := generated.userId
      username := credentials.username
      passwordHash := credentials.password }
  have fresh : ∀ other ∈ server.users, other.userId ≠ row.userId := by
    intro other member same
    have none := List.find?_eq_none.mp (Option.map_eq_none_iff.mp isFresh) other member
    exact none (decide_eq_true same)
  have never : ∀ {label : AuthStep} {server : Server Dek}, label.strands = true →
      allowed label → crash server :=
    fun strands isAllowed => absurd strands (by rw [keepsWay _ isAllowed]; exact Bool.false_ne_true)
  have wraps : (newEncrypted build credentials.password generated).Wraps generated.dek := by
    intro wrapped member
    rw [List.mem_singleton.mp member]
  have hasWrapper : (newEncrypted build credentials.password generated).HasWrapper
      row.passwordHash := ⟨_, List.mem_singleton_self _, rfl⟩
  unfold register
  refine survives_bind (fun user after => user = row ∧ after = server.insertUser row) ?_ ?_
  · unfold createUserWithPassword
    refine survives_change_bind (fun isAllowed => crashes _ isAllowed _ sound) ?_
    refine survives_get_bind ?_
    rw [id, isFree, isFresh]
    exact survives_change_bind (fun isAllowed => crashes _ isAllowed _ sound)
      (survives_pure ⟨rfl, rfl⟩)
  · rintro _ _ ⟨rfl, rfl⟩
    refine survives_change_bind (never rfl) (survives_change_bind (never rfl) ?_)
    have noFiles : ((server.insertUser row).stores row.userId).files = {} := by
      change (server.stores row.userId).files = {}
      rw [sound.unused row.userId fresh]
    have written := sound.ready_insertUser fresh uses wraps hasWrapper
    refine survives_bind _ (survives_mapError
      (survives_writeEnvelope crashes keepsWay noFiles written)) ?_
    intro _ middle ready
    refine survives_bind _ (survives_openSession crashes ready) ?_
    intro _ last ready
    exact survives_change_bind (fun isAllowed => crashes _ isAllowed _ ready.sound)
      (survives_pure ready.sound)

theorem survives_login_of_sound [DecidableEq Dek] {build : Build} {credentials : Credentials}
    {sessionId : ℕ} (sound : server.Sound username password) :
    Survives (fun _ => True) (Server.Sound username password)
      (fun _ after => after.Sound username password) (login build credentials sessionId)
      server := by
  have through : ∀ row, server.getUserByUsername credentials.username = some row →
      row.passwordHash = credentials.password →
      Survives (fun _ => True) (Server.Sound username password)
        (fun _ after => after.Sound username password) (login build credentials sessionId)
        server := by
    intro row found verified
    have member := List.mem_of_find?_eq_some found
    obtain ⟨envelope, dek, opens, hasWrapper⟩ := sound.recovers row member
    exact (survives_login (fun _ _ _ sound => sound) ⟨sound, member, opens, hasWrapper⟩ found
      verified).mono (fun _ sound => sound) fun _ _ ready => ready.sound
  cases found : server.getUserByUsername credentials.username with
  | none =>
    unfold login
    refine survives_change_bind (fun _ => sound) (survives_get_bind ?_)
    rw [id, found]
    exact survives_throw sound
  | some row =>
    by_cases verified : row.passwordHash = credentials.password
    · exact through row found verified
    · have member := List.mem_of_find?_eq_some found
      have isHash := sound.getPasswordHashForUser member
      unfold login
      refine survives_change_bind (fun _ => sound) (survives_get_bind ?_)
      rw [id, found]
      refine survives_change_bind (fun _ => sound) (survives_change_bind (fun _ => sound) ?_)
      refine survives_get_bind ?_
      rw [id, id, isHash]
      dsimp only
      rw [if_pos verified]
      exact survives_throw sound

theorem survives_register_of_sound [DecidableEq Dek] {build : Build} {credentials : Credentials}
    {generated : Generated Dek} (sound : server.Sound username password)
    (uses : credentials.Uses username password) :
    Survives (fun step => step.strands = false) (Server.Sound username password)
      (fun _ after => after.Sound username password) (register build credentials generated)
      server := by
  by_cases isFree : server.getUserByUsername credentials.username = none
  · by_cases isFresh : server.getPasswordHashForUser generated.userId = none
    · exact survives_register (fun _ _ _ sound => sound) (fun _ keeps => keeps) sound isFree isFresh
        uses
    · unfold register createUserWithPassword
      refine survives_bind (fun _ _ => False) ?_ fun _ _ => False.elim
      refine survives_change_bind (fun _ => sound) (survives_get_bind ?_)
      rw [id, isFree, Option.isSome_none, if_neg Bool.false_ne_true,
        if_pos (Option.isSome_iff_ne_none.mpr isFresh)]
      exact survives_throw sound
  · unfold register createUserWithPassword
    refine survives_bind (fun _ _ => False) ?_ fun _ _ => False.elim
    refine survives_change_bind (fun _ => sound) (survives_get_bind ?_)
    rw [id, if_pos (Option.isSome_iff_ne_none.mpr isFree)]
    exact survives_throw sound

theorem Server.Sound.of_runs [DecidableEq Dek] {program : AuthProgram Dek AuthError UserRow}
    {labels : List AuthStep} {ending : Ending AuthError UserRow} {after : Server Dek}
    (survives : Survives allowed (Server.Sound username password)
      (fun _ after => after.Sound username password) program server)
    (runs : Runs program server labels ending after) (met : ∀ label ∈ labels, allowed label) :
    after.Sound username password := by
  have holds := survives labels ending after runs met
  match ending with
  | .answered (.ok _) => exact holds
  | .answered (.error _) => exact holds
  | .stopped => exact holds

theorem Server.Sound.leads [DecidableEq Dek] {build : Build} {event : ServerEvent Dek}
    {after : Server Dek} (sound : server.Sound username password)
    (uses : event.Uses username password) (keepsWay : event.KeepsWay)
    (leads : event.Leads build server after) : after.Sound username password := by
  have run : ∀ {tried : Attempt Dek} {interrupted : List AuthStep}
      {ending : Ending AuthError UserRow} {after : Server Dek},
      tried.credentials.Uses username password →
      (ServerEvent.attempt tried interrupted).KeepsWay →
      Runs (tried.program build) server interrupted ending after →
      after.Sound username password := by
    intro tried interrupted ending after uses keepsWay runs
    cases tried with
    | register credentials generated =>
      exact Server.Sound.of_runs (survives_register_of_sound sound uses) runs keepsWay
    | login credentials sessionId =>
      exact Server.Sound.of_runs (survives_login_of_sound sound) runs fun _ _ => trivial
  cases leads with
  | answered runs => exact run uses keepsWay runs
  | stopped runs => exact (run uses keepsWay runs).restart
  | restarted => exact sound.restart

theorem Server.Sound.wayForward [DecidableEq Dek] {build : Build}
    (sound : server.Sound username password) : server.WayForward build username password := by
  cases found : server.getUserByUsername username with
  | none =>
    refine .inl fun generated fresh => ?_
    have isFresh : server.getPasswordHashForUser generated.userId = none := by
      refine Option.map_eq_none_iff.mpr (List.find?_eq_none.mpr ?_)
      intro row member same
      exact fresh row member (of_decide_eq_true same)
    have survives : Survives (fun _ => False) (fun _ => False)
        (fun _ after => after.Sound username password)
        (register build ⟨username, password⟩ generated) server :=
      survives_register (fun _ never => never.elim) (fun _ never => never.elim) sound found isFresh
        fun _ => rfl
    obtain ⟨user, after, succeeds, _⟩ := survives.run_eq_ok
    exact ⟨user, after, succeeds⟩
  | some row =>
    refine .inr fun sessionId => ?_
    have member := List.mem_of_find?_eq_some found
    have sameName : foldCase row.username = foldCase username := by
      simpa using List.find?_some found
    obtain ⟨envelope, dek, opens, hasWrapper⟩ := sound.recovers row member
    have survives : Survives (fun _ => False) (fun _ => False)
        (fun _ after => after.Ready username password row envelope dek)
        (login build ⟨username, password⟩ sessionId) server :=
      survives_login (fun _ never => never.elim) ⟨sound, member, opens, hasWrapper⟩ found
        (sound.samePassword row member sameName)
    obtain ⟨user, after, succeeds, _⟩ := survives.run_eq_ok
    exact ⟨user, after, succeeds⟩

theorem Server.sound_empty : (Server.empty : Server Dek).Sound username password where
  userIds := List.nodup_nil
  recovers := List.forall_mem_nil _
  unused := fun _ _ => rfl
  samePassword := List.forall_mem_nil _

end Programs

end Bitgarth.Auth.Registration
