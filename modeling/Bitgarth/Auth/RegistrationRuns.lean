import Bitgarth.Auth.RegistrationSafety

/-! # Registering takes no envelope away

Whatever fails or stops, the envelope that the next read of a user's file finds stays the same.
With what registering leaves behind, this is what holds over all runs of attempts.
-/

namespace Bitgarth.Auth.Registration

open Interruption Interruption.Program Reachability

/-! ## Envelopes stay -/

section Envelopes

variable {Dek : Type} {start server : Server Dek} {userId : ℕ}

/-- The text that the next read of the envelope finds. -/
def EnvelopeFiles.stored (files : EnvelopeFiles Dek) : Option (EnvelopeText Dek) :=
  files.dest <|> files.backup <|> files.temp

def Server.KeepsEnvelopes (before after : Server Dek) : Prop :=
  ∀ userId envelope, (before.stores userId).files.stored = some (.json envelope) →
    (after.stores userId).files.stored = some (.json envelope)

/-- Nothing is stored under ids without a user. -/
def Server.Placed (server : Server Dek) : Prop :=
  ∀ userId, (∀ row ∈ server.users, row.userId ≠ userId) → server.stores userId = {}

/-- The envelopes of a start are still there. -/
structure Server.Kept (start server : Server Dek) : Prop where
  placed : server.Placed
  envelopes : start.KeepsEnvelopes server

/-- And a user with an id is there. -/
structure Server.KeptAt (start : Server Dek) (userId : ℕ) (server : Server Dek) : Prop where
  kept : start.Kept server
  member : ∃ row ∈ server.users, row.userId = userId

namespace Server

theorem KeptAt.updateStore {update : UserStore Dek → UserStore Dek}
    (keptAt : start.KeptAt userId server)
    (keeps : ∀ envelope, (start.stores userId).files.stored = some (.json envelope) →
      (server.stores userId).files.stored = some (.json envelope) →
      (update (server.stores userId)).files.stored = some (.json envelope)) :
    start.KeptAt userId (server.updateStore userId update) where
  kept := {
    placed := by
      intro other unused
      obtain ⟨row, member, rfl⟩ := keptAt.member
      rw [stores_updateStore_of_ne (Ne.symm (unused row member))]
      exact keptAt.kept.placed other unused
    envelopes := by
      intro other envelope isStored
      have before := keptAt.kept.envelopes other envelope isStored
      by_cases same : other = userId
      · subst same
        rw [stores_updateStore_self]
        exact keeps envelope isStored before
      · rwa [stores_updateStore_of_ne same] }
  member := keptAt.member

theorem KeptAt.updateFiles {change : EnvelopeFiles Dek → EnvelopeFiles Dek}
    (keptAt : start.KeptAt userId server)
    (same : (change (server.stores userId).files).stored = (server.stores userId).files.stored) :
    start.KeptAt userId (server.updateFiles userId change) :=
  keptAt.updateStore fun _ _ isStored => same.trans isStored

theorem KeptAt.updateFiles_of_none {change : EnvelopeFiles Dek → EnvelopeFiles Dek}
    (keptAt : start.KeptAt userId server) (noFiles : (start.stores userId).files.stored = none) :
    start.KeptAt userId (server.updateFiles userId change) := by
  refine keptAt.updateStore fun envelope isStored => ?_
  rw [noFiles] at isStored
  cases isStored

theorem KeptAt.of_eq {other : Server Dek} (keptAt : start.KeptAt userId server)
    (users : other.users = server.users) (stores : other.stores = server.stores) :
    start.KeptAt userId other := by
  obtain ⟨⟨placed, envelopes⟩, member⟩ := keptAt
  unfold Placed at placed
  unfold KeepsEnvelopes at envelopes
  rw [← users, ← stores] at placed
  rw [← stores] at envelopes
  rw [← users] at member
  exact ⟨⟨placed, envelopes⟩, member⟩

theorem Placed.kept (placed : server.Placed) : server.Kept server :=
  ⟨placed, fun _ _ isStored => isStored⟩

theorem Placed.restart (placed : server.Placed) : server.restart.Placed := by
  intro userId unused
  change { server.stores userId with connection := none } = _
  rw [placed userId unused]

theorem Kept.restart (kept : start.Kept server) : start.Kept server.restart :=
  ⟨kept.placed.restart, kept.envelopes⟩

theorem Placed.insertUser {row : UserRow} (placed : server.Placed) :
    server.KeptAt row.userId (server.insertUser row) where
  kept := {
    placed := fun userId unused => placed userId fun other member =>
      unused other (List.mem_append_left _ member)
    envelopes := fun _ _ isStored => isStored }
  member := ⟨row, List.mem_append_right _ (List.mem_singleton_self _), rfl⟩

end Server

theorem keptAt_recoverEnvelopeFileIfNeeded (keptAt : start.KeptAt userId server) :
    Survives (fun _ => True) start.Kept (fun _ after => start.KeptAt userId after)
      (recoverEnvelopeFileIfNeeded userId) server := by
  unfold recoverEnvelopeFileIfNeeded
  refine survives_get_bind ?_
  dsimp only
  cases isDest : (server.stores userId).files.dest with
  | some text =>
    rw [if_pos (Option.isSome_some ..)]
    refine survives_bind (fun _ after => start.KeptAt userId after ∧
      (after.stores userId).files.dest = some text) ?_ ?_
    · refine survives_onlyIf (fun _ => survives_change (fun _ => keptAt.kept) ⟨?_, ?_⟩)
        fun _ => ⟨keptAt, isDest⟩
      · refine keptAt.updateFiles ?_
        unfold EnvelopeFiles.stored
        rw [isDest]
        rfl
      · rw [Server.stores_updateFiles_self]
        exact isDest
    · rintro _ middle ⟨keptAt, isDest⟩
      refine survives_onlyIf (fun _ => survives_change (fun _ => keptAt.kept) ?_)
        fun _ => keptAt
      refine keptAt.updateFiles ?_
      unfold EnvelopeFiles.stored
      rw [isDest]
      rfl
  | none =>
    rw [Option.isSome_none, if_neg Bool.false_ne_true]
    cases isBackup : (server.stores userId).files.backup with
    | some text =>
      rw [if_pos (Option.isSome_some ..)]
      refine survives_change_bind (fun _ => keptAt.kept) ?_
      have restored : start.KeptAt userId (server.updateFiles userId fun files =>
          { files with dest := files.backup, backup := none }) := by
        refine keptAt.updateFiles ?_
        unfold EnvelopeFiles.stored
        rw [isDest, isBackup]
        rfl
      refine survives_onlyIf (fun _ => ?_) fun _ => restored
      refine survives_handle (fun after => start.KeptAt userId after)
        (survives_change (fun _ => restored) ?_) (fun _ keptAt => keptAt.kept)
        fun _ _ keptAt => survives_pure keptAt
      refine restored.updateFiles ?_
      rw [Server.stores_updateFiles_self]
      unfold EnvelopeFiles.stored
      dsimp only
      rw [isBackup]
      rfl
    | none =>
      rw [Option.isSome_none, if_neg Bool.false_ne_true]
      cases isTemp : (server.stores userId).files.temp with
      | none => exact survives_pure keptAt
      | some text =>
        refine survives_change_bind (fun _ => keptAt.kept) ?_
        cases text with
        | torn => exact survives_throw keptAt.kept
        | json envelope =>
          refine survives_change (fun _ => keptAt.kept) (keptAt.updateFiles ?_)
          unfold EnvelopeFiles.stored
          rw [isDest, isBackup, isTemp]
          rfl

theorem keptAt_readEnvelope (keptAt : start.KeptAt userId server) :
    Survives (fun _ => True) start.Kept (fun _ after => start.KeptAt userId after)
      (readEnvelope userId) server := by
  unfold readEnvelope
  refine survives_change_bind (fun _ => keptAt.kept) ?_
  refine survives_bind _ (keptAt_recoverEnvelopeFileIfNeeded keptAt) ?_
  intro _ middle keptAt
  refine survives_get_bind ?_
  cases (middle.stores userId).files.dest with
  | none => exact survives_throw keptAt.kept
  | some text =>
    refine survives_change_bind (fun _ => keptAt.kept) ?_
    cases text with
    | torn => exact survives_throw keptAt.kept
    | json envelope => exact survives_pure keptAt

theorem keptAt_writeEnvelope {unix : Bool} {envelope : DbEnvelope Dek}
    (keptAt : start.KeptAt userId server) (noFiles : (start.stores userId).files.stored = none) :
    Survives (fun _ => True) start.Kept (fun _ after => start.KeptAt userId after)
      (writeEnvelope unix userId envelope) server := by
  unfold writeEnvelope
  refine survives_change_bind (fun _ => keptAt.kept) ?_
  refine survives_bind _ (keptAt_recoverEnvelopeFileIfNeeded keptAt) ?_
  intro _ middle keptAt
  have created : start.KeptAt userId (middle.updateFiles userId ({ · with temp := some .torn })) :=
    keptAt.updateFiles_of_none noFiles
  have written : start.KeptAt userId ((middle.updateFiles userId
      ({ · with temp := some .torn })).updateFiles userId
        ({ · with temp := some (.json envelope) })) :=
    created.updateFiles_of_none noFiles
  refine survives_change_bind (fun _ => keptAt.kept) ?_
  refine survives_change_bind (fun _ => created.kept) ?_
  unfold atomicReplaceFileWithBackup
  refine survives_get_bind ?_
  dsimp only
  have renames : ∀ server, start.KeptAt userId server →
      Survives (fun _ => True) (start.KeptAt userId) (fun _ after => start.KeptAt userId after)
        (change AuthStep.renameTemp EnvelopeError.replace (Server.updateFiles userId fun files =>
          { files with dest := files.temp, temp := none })) server :=
    fun server keptAt => survives_change (fun _ => keptAt) (keptAt.updateFiles_of_none noFiles)
  split
  · exact (renames _ written).mono (fun _ keptAt => keptAt.kept) fun _ _ keptAt => keptAt
  · refine survives_bind (fun _ after => start.KeptAt userId after)
      (survives_onlyIf (fun _ => survives_change (fun _ => written.kept)
        (written.updateFiles_of_none noFiles)) fun _ => written) ?_
    intro _ middle keptAt
    refine survives_change_bind (fun _ => keptAt.kept) ?_
    have backedUp : start.KeptAt userId (middle.updateFiles userId fun files =>
        { files with backup := files.dest, dest := none }) :=
      keptAt.updateFiles_of_none noFiles
    refine survives_bind (fun _ after => start.KeptAt userId after)
      (survives_handle _ (renames _ backedUp) (fun _ keptAt => keptAt.kept) ?_) ?_
    · intro error last keptAt
      exact survives_change_bind (fun _ => keptAt.kept)
        (survives_throw (keptAt.updateFiles_of_none noFiles).kept)
    · intro _ last keptAt
      exact survives_change (fun _ => keptAt.kept) (keptAt.updateFiles_of_none noFiles)

theorem keptAt_runMigrations : ∀ (left : ℕ) (server : Server Dek), start.KeptAt userId server →
    Survives (fun _ => True) start.Kept (fun _ after => start.KeptAt userId after)
      (runMigrations userId left) server
  | 0, _, keptAt => survives_pure keptAt
  | left + 1, _, keptAt =>
    survives_change_bind (fun _ => keptAt.kept)
      (keptAt_runMigrations left _ (keptAt.updateStore fun _ _ isStored => isStored))

theorem keptAt_initializeUserDb [DecidableEq Dek] {build : Build} {mode : UserDbOpenMode Dek}
    (keptAt : start.KeptAt userId server) :
    Survives (fun _ => True) start.Kept (fun _ after => start.KeptAt userId after)
      (initializeUserDb build userId mode) server := by
  unfold initializeUserDb
  refine survives_get_bind ?_
  cases (server.stores userId).connection with
  | some existing =>
    dsimp only
    split
    · exact survives_pure keptAt
    · exact survives_throw keptAt.kept
  | none =>
    refine survives_change_bind (fun _ => keptAt.kept) (survives_get_bind ?_)
    have connects : ∀ server : Server Dek, start.KeptAt userId server →
        Survives (fun _ => True) start.Kept (fun _ after => start.KeptAt userId after)
          (do change AuthStep.prepareUserDb AuthError.internal id
              change .connectUserDb .internal (Server.updateStore userId ({ · with
                connection := some mode }))) server :=
      fun server keptAt => survives_change_bind (fun _ => keptAt.kept)
        (survives_change (fun _ => keptAt.kept) (keptAt.updateStore fun _ _ isStored => isStored))
    dsimp only [id]
    cases (server.stores userId).userDb with
    | none =>
      refine survives_change_bind (fun _ => keptAt.kept) ?_
      exact survives_bind _
        (keptAt_runMigrations _ _ (keptAt.updateStore fun _ _ isStored => isStored))
        fun _ middle keptAt => connects middle keptAt
    | some file =>
      dsimp only
      split
      · exact survives_bind _ (keptAt_runMigrations _ _ keptAt)
          fun _ middle keptAt => connects middle keptAt
      · exact survives_bind (fun _ _ => False) (survives_throw keptAt.kept) fun _ _ => False.elim

theorem keptAt_openSession [DecidableEq Dek] {build : Build} {sessionId : ℕ}
    {mode : UserDbOpenMode Dek} (keptAt : start.KeptAt userId server) :
    Survives (fun _ => True) start.Kept (fun _ after => start.KeptAt userId after)
      (openSession build userId sessionId mode) server := by
  unfold openSession
  refine survives_change_bind (fun _ => keptAt.kept) ?_
  refine survives_bind _ (keptAt_initializeUserDb keptAt) ?_
  intro _ middle keptAt
  refine survives_bind (fun _ after => start.KeptAt userId after) ?_ ?_
  · unfold loadSettings
    refine survives_get_bind ?_
    cases (middle.stores userId).connection with
    | none => exact survives_throw keptAt.kept
    | some existing => exact survives_change (fun _ => keptAt.kept) keptAt
  · intro _ middle keptAt
    have inserted : start.KeptAt userId (middle.insertSession ⟨sessionId, userId, mode.dek⟩) :=
      keptAt.of_eq rfl rfl
    exact survives_change_bind (fun _ => keptAt.kept)
      (survives_change (fun _ => inserted.kept) inserted)

theorem kept_register [DecidableEq Dek] {build : Build} {credentials : Credentials}
    {generated : Generated Dek} (placed : server.Placed) :
    Survives (fun _ => True) server.Kept (fun _ after => server.Kept after)
      (register build credentials generated) server := by
  unfold register
  refine survives_bind (fun user after => server.KeptAt user.userId after ∧
    (server.stores user.userId).files.stored = none) ?_ ?_
  · unfold createUserWithPassword
    refine survives_change_bind (fun _ => placed.kept) (survives_get_bind ?_)
    dsimp only [id]
    split
    · exact survives_throw placed.kept
    · split
      · exact survives_throw placed.kept
      · rename_i isFresh
        refine survives_change_bind (fun _ => placed.kept)
          (survives_pure ⟨placed.insertUser, ?_⟩)
        rw [placed generated.userId]
        · rfl
        · intro row member same
          have none := Option.map_eq_none_iff.mp (Option.not_isSome_iff_eq_none.mp isFresh)
          exact List.find?_eq_none.mp none row member (decide_eq_true same)
  · rintro user middle ⟨keptAt, noFiles⟩
    refine survives_change_bind (fun _ => keptAt.kept) ?_
    refine survives_change_bind (fun _ => keptAt.kept) ?_
    refine survives_bind _ (survives_mapError (keptAt_writeEnvelope keptAt noFiles)) ?_
    intro _ middle keptAt
    refine survives_bind _ (keptAt_openSession keptAt) ?_
    intro _ last keptAt
    exact survives_change_bind (fun _ => keptAt.kept) (survives_pure keptAt.kept)

theorem kept_login [DecidableEq Dek] {build : Build} {credentials : Credentials} {sessionId : ℕ}
    (placed : server.Placed) :
    Survives (fun _ => True) server.Kept (fun _ after => server.Kept after)
      (login build credentials sessionId) server := by
  unfold login
  refine survives_change_bind (fun _ => placed.kept) (survives_get_bind ?_)
  cases found : (id server).getUserByUsername credentials.username with
  | none => exact survives_throw placed.kept
  | some row =>
    have keptAt : server.KeptAt row.userId server :=
      ⟨placed.kept, row, List.mem_of_find?_eq_some found, rfl⟩
    refine survives_change_bind (fun _ => placed.kept) ?_
    refine survives_change_bind (fun _ => placed.kept) (survives_get_bind ?_)
    dsimp only [id]
    split
    · exact survives_throw placed.kept
    · split
      · exact survives_throw placed.kept
      · refine survives_bind _ (survives_mapError (keptAt_readEnvelope keptAt)) ?_
        intro envelope middle keptAt
        cases envelope.unwrapWithPassword credentials.password with
        | error _ => exact survives_throw keptAt.kept
        | ok dek =>
          refine survives_bind _ (keptAt_openSession keptAt) ?_
          intro _ middle keptAt
          refine survives_bind (fun _ after => server.KeptAt row.userId after)
            (survives_handle (server.KeptAt row.userId) (survives_change (fun _ => keptAt) keptAt)
              (fun _ keptAt => keptAt.kept) ?_) ?_
          · intro error after keptAt
            refine survives_bind (fun _ after => server.KeptAt row.userId after)
              (survives_handle (server.KeptAt row.userId)
                (survives_change (fun _ => keptAt) (keptAt.of_eq rfl rfl))
                (fun _ keptAt => keptAt.kept) fun _ _ keptAt => survives_pure keptAt) ?_
            intro _ last keptAt
            exact survives_throw keptAt.kept
          · intro _ last keptAt
            exact survives_change_bind (fun _ => keptAt.kept) (survives_pure keptAt.kept)

theorem Server.Kept.of_runs {program : AuthProgram Dek AuthError UserRow}
    {labels : List AuthStep} {ending : Ending AuthError UserRow} {after : Server Dek}
    (survives : Survives (fun _ => True) start.Kept (fun _ after => start.Kept after) program start)
    (runs : Runs program start labels ending after) : start.Kept after := by
  have holds := survives labels ending after runs fun _ _ => trivial
  match ending with
  | .answered (.ok _) => exact holds
  | .answered (.error _) => exact holds
  | .stopped => exact holds

theorem Server.Placed.leads [DecidableEq Dek] {build : Build} {event : ServerEvent Dek}
    {after : Server Dek} (placed : server.Placed) (leads : event.Leads build server after) :
    server.Kept after := by
  have run : ∀ {tried : Attempt Dek} {interrupted : List AuthStep}
      {ending : Ending AuthError UserRow} {after : Server Dek},
      Runs (tried.program build) server interrupted ending after → server.Kept after := by
    intro tried interrupted ending after runs
    cases tried with
    | register credentials generated => exact Server.Kept.of_runs (kept_register placed) runs
    | login credentials sessionId => exact Server.Kept.of_runs (kept_login placed) runs
  cases leads with
  | answered runs => exact run runs
  | stopped runs => exact (run runs).restart
  | restarted => exact placed.kept.restart

end Envelopes

/-! ## Runs -/

section Runs

variable {Dek : Type} [DecidableEq Dek]

/-- Where no registration ends between the commit of its rows and the end of the temporary
envelope file, a name given with one password can be registered or logged in to in every state;
and in every run, no event takes an envelope away or replaces it. -/
theorem wayForward_and_keepsEnvelopes_of_reached (build : Build) (username password : String)
    (server : Server Dek) :
    (Reached (ServerEvent.Leads build)
      (fun event _ => event.Uses username password ∧ event.KeepsWay) Server.empty server →
        server.WayForward build username password) ∧
    (Reached (ServerEvent.Leads build) (fun _ _ => True) Server.empty server →
      ∀ event after, ServerEvent.Leads build event server after → server.KeepsEnvelopes after) := by
  constructor
  · intro reached
    have sound : server.Sound username password := reached.invariant Server.sound_empty
      fun _ _ _ sound ⟨uses, keepsWay⟩ leads => sound.leads uses keepsWay leads
    exact sound.wayForward
  · intro reached event after leads
    have placed : server.Placed := reached.invariant (fun _ _ => rfl)
      fun _ _ _ placed _ leads => (placed.leads leads).placed
    exact (placed.leads leads).envelopes

/-- A name that was registered without an interruption can be logged in to. -/
theorem wayForward_register_run :
    ((register ⟨true, 4, 2⟩ ⟨"alice", "Passw0rd"⟩ (⟨1, 1, "w", 7⟩ : Generated ℕ)).run
      Server.empty).2.WayForward ⟨true, 4, 2⟩ "alice" "Passw0rd" := by
  apply (wayForward_and_keepsEnvelopes_of_reached ⟨true, 4, 2⟩ "alice" "Passw0rd" _).1
  have leads : ServerEvent.Leads ⟨true, 4, 2⟩
      (.attempt (.register ⟨"alice", "Passw0rd"⟩ (⟨1, 1, "w", 7⟩ : Generated ℕ)) []) Server.empty
      ((register ⟨true, 4, 2⟩ ⟨"alice", "Passw0rd"⟩ ⟨1, 1, "w", 7⟩).run Server.empty).2 :=
    .answered (runs_run _ _)
  refine .step .start ⟨?_, ?_⟩ leads
  · exact fun _ => rfl
  · exact List.forall_mem_nil _

/-- A registration that stops right after its commit strands its user name: the rows are there,
and no envelope is. -/
theorem not_wayForward_of_stopped_register :
    ∃ server : Server ℕ,
      Reached (ServerEvent.Leads ⟨true, 4, 2⟩) (fun event _ => event.Uses "alice" "Passw0rd")
        Server.empty server ∧
      ((login ⟨true, 4, 2⟩ ⟨"alice", "Passw0rd"⟩ 1).run server).1 =
        .error (.loginEnvelopeMissing 1) ∧
      ((register ⟨true, 4, 2⟩ ⟨"alice", "Passw0rd"⟩ ⟨2, 1, "w", 7⟩).run server).1 =
        .error .usernameConflict ∧
      ¬ server.WayForward ⟨true, 4, 2⟩ "alice" "Passw0rd" := by
  let committed : Server ℕ :=
    ((createUserWithPassword ⟨"alice", "Passw0rd"⟩ 1).run Server.empty).2
  have stops : ServerEvent.Leads ⟨true, 4, 2⟩
      (.attempt (.register ⟨"alice", "Passw0rd"⟩ ⟨1, 1, "w", 7⟩) [.acquireLifecycleLock])
      Server.empty committed.restart :=
    .stopped ((runs_run (createUserWithPassword ⟨"alice", "Passw0rd"⟩ 1)
      Server.empty).bind .stopped)
  have noLogin : ∀ sessionId, ((login ⟨true, 4, 2⟩ ⟨"alice", "Passw0rd"⟩ sessionId).run
      committed.restart).1 = .error (.loginEnvelopeMissing 1) := fun _ => rfl
  have noRegister : ((register ⟨true, 4, 2⟩ ⟨"alice", "Passw0rd"⟩ ⟨2, 1, "w", 7⟩).run
      committed.restart).1 = .error .usernameConflict := rfl
  refine ⟨committed.restart, .step .start ?_ stops, noLogin 1, noRegister, ?_⟩
  · exact fun _ => rfl
  rintro (registers | logsIn)
  · obtain ⟨user, after, succeeds⟩ := registers ⟨2, 1, "w", 7⟩ (by decide)
    rw [succeeds] at noRegister
    cases noRegister
  · obtain ⟨user, after, succeeds⟩ := logsIn 1
    have refused := noLogin 1
    rw [succeeds] at refused
    cases refused

end Runs

end Bitgarth.Auth.Registration
