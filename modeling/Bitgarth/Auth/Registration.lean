import Bitgarth.Auth.PasswordChange
import Bitgarth.Foundation.Interruption

/-! # Registering and logging in

A registration inserts the user's rows, writes the envelope of the user's key, creates the user
database and a session; a log-in needs what the first three left. They are programs of durable
steps, each of which may fail, and the process may stop before any of them.
-/

namespace Bitgarth.Auth.Registration

open Interruption Interruption.Program

/-! ## What is stored -/

/-- The text of an envelope file: one that parses, or what an unfinished write left. -/
inductive EnvelopeText (Dek : Type) where
  | json (envelope : DbEnvelope Dek)
  | torn
deriving DecidableEq, Repr

/-- The envelope file of a user with its `.tmp` and its `.bak` beside it. -/
structure EnvelopeFiles (Dek : Type) where
  dest : Option (EnvelopeText Dek) := none
  temp : Option (EnvelopeText Dek) := none
  backup : Option (EnvelopeText Dek) := none
deriving DecidableEq, Repr

/-- A user database file, which opens with one key and one cipher version. -/
structure UserDbFile (Dek : Type) where
  dek : Dek
  sqlcipherCompatibility : ℕ
  appliedMigrations : ℕ
deriving DecidableEq, Repr

structure UserDbOpenMode (Dek : Type) where
  dek : Dek
  sqlcipherCompatibility : ℕ
deriving DecidableEq, Repr

/-- What belongs to one user id beside its rows. `connection` is in memory. -/
structure UserStore (Dek : Type) where
  files : EnvelopeFiles Dek := {}
  userDb : Option (UserDbFile Dek) := none
  connection : Option (UserDbOpenMode Dek) := none
deriving DecidableEq, Repr

/-- A row of `users` with its password credential, which one transaction inserts together. The
hash is known by the password that verifies against it. -/
structure UserRow where
  userId : ℕ
  username : String
  passwordHash : String
deriving DecidableEq, Repr

structure SessionRow (Dek : Type) where
  sessionId : ℕ
  userId : ℕ
  wrappedDek : Dek
deriving DecidableEq, Repr

structure Server (Dek : Type) where
  users : List UserRow
  sessions : List (SessionRow Dek)
  stores : ℕ → UserStore Dek

/-- `NOCASE`, the collation of the column `username`. -/
def foldCase (username : String) : List Char := username.toList.map Char.toLower

namespace Server

variable {Dek : Type}

/-- Before the first registration. -/
def empty : Server Dek where
  users := []
  sessions := []
  stores := fun _ => {}

def getUserByUsername (server : Server Dek) (username : String) : Option UserRow :=
  server.users.find? fun row => foldCase row.username = foldCase username

def getPasswordHashForUser (server : Server Dek) (userId : ℕ) : Option String :=
  (server.users.find? fun row => row.userId = userId).map (·.passwordHash)

def insertUser (server : Server Dek) (row : UserRow) : Server Dek :=
  { server with users := server.users ++ [row] }

def updateStore (userId : ℕ) (update : UserStore Dek → UserStore Dek) (server : Server Dek) :
    Server Dek :=
  { server with
    stores := Function.update server.stores userId (update (server.stores userId)) }

def updateFiles (userId : ℕ) (update : EnvelopeFiles Dek → EnvelopeFiles Dek) :
    Server Dek → Server Dek :=
  updateStore userId fun store => { store with files := update store.files }

def insertSession (row : SessionRow Dek) (server : Server Dek) : Server Dek :=
  { server with sessions := server.sessions ++ [row] }

def deleteSession (sessionId : ℕ) (server : Server Dek) : Server Dek :=
  { server with sessions := server.sessions.filter fun row => row.sessionId ≠ sessionId }

/-- What is left when the process starts again. -/
def restart (server : Server Dek) : Server Dek :=
  { server with stores := fun userId => { server.stores userId with connection := none } }

end Server

/-! ## The steps -/

inductive AuthStep where
  | hashPassword | insertUser | acquireLifecycleLock | newEncrypted | resolveEnvelopePath
  | removeBackup | removeTemp | restoreBackup | readTemp | recoverTemp | createTemp | writeTemp
  | backupDest | renameTemp | readDest | resolveServerSecret | openUserDb | createUserDb
  | runMigration | prepareUserDb | connectUserDb | loadSettings | insertSession | pinSession
  | setCookie | findUser | findPasswordHash | recordLastLogin | deleteSession
deriving DecidableEq, Repr

/-- The errors of the envelope files, by where they come from. -/
inductive EnvelopeError where
  | path | backupRemoval | tempRemoval | backupRestore | tempRead | tempParse | tempRename
  | tempWrite | replace | notFound | read | parse
deriving DecidableEq, Repr

inductive AuthError where
  | internal
  | usernameConflict
  | unauthorized
  | loginEnvelopeMissing (userId : ℕ)
  | loginEnvelopeRead (userId : ℕ)
  | loginEnvelopeUnlock (userId : ℕ)
deriving DecidableEq, Repr

def loginEnvelopeReadError (userId : ℕ) : EnvelopeError → AuthError
  | .notFound => .loginEnvelopeMissing userId
  | _ => .loginEnvelopeRead userId

/-- What the build that runs is compiled for. -/
structure Build where
  unix : Bool
  sqlcipherVersion : ℕ
  migrations : ℕ

section Programs

variable {Dek : Type}

abbrev AuthProgram (Dek Err Value : Type) := Program AuthStep (Server Dek) Err Value

/-- A program where a condition holds, and nothing where it does not. -/
def onlyIf {Err : Type} (condition : Bool) (program : AuthProgram Dek Err Unit) :
    AuthProgram Dek Err Unit :=
  if condition then program else pure ()

/-! ### Envelope files -/

def recoverEnvelopeFileIfNeeded (userId : ℕ) : AuthProgram Dek EnvelopeError Unit := do
  let files := ((← get).stores userId).files
  if files.dest.isSome then do
    onlyIf files.backup.isSome <|
      change .removeBackup .backupRemoval (Server.updateFiles userId ({ · with backup := none }))
    onlyIf files.temp.isSome <|
      change .removeTemp .tempRemoval (Server.updateFiles userId ({ · with temp := none }))
  else if files.backup.isSome then do
    change .restoreBackup .backupRestore
      (Server.updateFiles userId fun files => { files with dest := files.backup, backup := none })
    -- a temp file that stays is removed by the next call
    onlyIf files.temp.isSome <|
      (change .removeTemp EnvelopeError.tempRemoval
        (Server.updateFiles userId ({ · with temp := none }))).handle fun _ => pure ()
  else
    match files.temp with
    | none => pure ()
    | some text => do
        change .readTemp .tempRead id
        match text with
        | .torn => throw .tempParse
        | .json _ =>
          change .recoverTemp .tempRename
            (Server.updateFiles userId fun files => { files with dest := files.temp, temp := none })

def atomicReplaceFileWithBackup (unix : Bool) (userId : ℕ) :
    AuthProgram Dek EnvelopeError Unit := do
  let rename : AuthProgram Dek EnvelopeError Unit :=
    change .renameTemp .replace
      (Server.updateFiles userId fun files => { files with dest := files.temp, temp := none })
  let files := ((← get).stores userId).files
  if unix || files.dest.isNone then
    rename
  else do
    onlyIf files.backup.isSome <|
      change .removeBackup .backupRemoval (Server.updateFiles userId ({ · with backup := none }))
    change .backupDest .replace
      (Server.updateFiles userId fun files => { files with backup := files.dest, dest := none })
    rename.handle fun error => do
      change .restoreBackup .replace
        (Server.updateFiles userId fun files => { files with dest := files.backup, backup := none })
      throw error
    change .removeBackup .backupRemoval (Server.updateFiles userId ({ · with backup := none }))

/-- A file is there, and torn, before all of its text is. -/
def writeEnvelope (unix : Bool) (userId : ℕ) (envelope : DbEnvelope Dek) :
    AuthProgram Dek EnvelopeError Unit := do
  change .resolveEnvelopePath .path id
  recoverEnvelopeFileIfNeeded userId
  change .createTemp .tempWrite (Server.updateFiles userId ({ · with temp := some .torn }))
  change .writeTemp .tempWrite
    (Server.updateFiles userId ({ · with temp := some (.json envelope) }))
  atomicReplaceFileWithBackup unix userId

def readEnvelope (userId : ℕ) : AuthProgram Dek EnvelopeError (DbEnvelope Dek) := do
  change .resolveEnvelopePath .path id
  recoverEnvelopeFileIfNeeded userId
  match ((← get).stores userId).files.dest with
  | none => throw .notFound
  | some text => do
      change .readDest .read id
      match text with
      | .torn => throw .parse
      | .json envelope => pure envelope

/-! ### The user database -/

/-- The migrations that are left, each in a transaction of its own. -/
def runMigrations (userId : ℕ) : ℕ → AuthProgram Dek AuthError Unit
  | 0 => pure ()
  | left + 1 => do
      change .runMigration .internal (Server.updateStore userId fun store =>
        { store with userDb := store.userDb.map fun file =>
            { file with appliedMigrations := file.appliedMigrations + 1 } })
      runMigrations userId left

/-- A database that is already open is only compared, and a file that was written with another
key is not a database. -/
def initializeUserDb [DecidableEq Dek] (build : Build) (userId : ℕ) (mode : UserDbOpenMode Dek) :
    AuthProgram Dek AuthError Unit := do
  match ((← get).stores userId).connection with
  | some existing => if existing = mode then pure () else throw .internal
  | none => do
      change .openUserDb .internal id
      match ((← get).stores userId).userDb with
      | none => do
          change .createUserDb .internal (Server.updateStore userId ({ · with
            userDb := some ⟨mode.dek, mode.sqlcipherCompatibility, 0⟩ }))
          runMigrations userId build.migrations
      | some file =>
        if file.dek = mode.dek ∧ file.sqlcipherCompatibility = mode.sqlcipherCompatibility then
          runMigrations userId (build.migrations - file.appliedMigrations)
        else
          throw .internal
      change .prepareUserDb .internal id
      change .connectUserDb .internal (Server.updateStore userId ({ · with
        connection := some mode }))

def loadSettings (userId : ℕ) : AuthProgram Dek AuthError Unit := do
  match ((← get).stores userId).connection with
  | none => throw .internal
  | some _ => change .loadSettings .internal id

def createSession (userId sessionId : ℕ) (dek : Dek) : AuthProgram Dek AuthError Unit := do
  change .insertSession .internal (Server.insertSession { sessionId, userId, wrappedDek := dek })
  change .pinSession .internal id

/-- What registering and logging in do alike, once the key is known. -/
def openSession [DecidableEq Dek] (build : Build) (userId sessionId : ℕ)
    (mode : UserDbOpenMode Dek) : AuthProgram Dek AuthError Unit := do
  change .resolveServerSecret .internal id
  initializeUserDb build userId mode
  loadSettings userId
  createSession userId sessionId mode.dek

/-! ### The two attempts -/

/-- A validated user name with a password. -/
structure Credentials where
  username : String
  password : String
deriving DecidableEq, Repr

/-- The ids and the key that a registration generates. -/
structure Generated (Dek : Type) where
  userId : ℕ
  sessionId : ℕ
  wrapId : String
  dek : Dek
deriving DecidableEq, Repr

def createUserWithPassword (credentials : Credentials) (userId : ℕ) :
    AuthProgram Dek AuthError UserRow := do
  change .hashPassword .internal id
  let server ← get
  if (server.getUserByUsername credentials.username).isSome then
    throw .usernameConflict
  else if (server.getPasswordHashForUser userId).isSome then
    throw .internal
  else do
    let row := { userId, username := credentials.username, passwordHash := credentials.password }
    change .insertUser .internal (Server.insertUser · row)
    pure row

def newEncrypted (build : Build) (password : String) (generated : Generated Dek) :
    DbEnvelope Dek where
  sqlcipherVersion := build.sqlcipherVersion
  wrappedKeys := [{ wrapId := generated.wrapId, password, dek := generated.dek }]

def register [DecidableEq Dek] (build : Build) (credentials : Credentials)
    (generated : Generated Dek) : AuthProgram Dek AuthError UserRow := do
  let user ← createUserWithPassword credentials generated.userId
  change .acquireLifecycleLock .internal id
  change .newEncrypted .internal id
  let envelope := newEncrypted build credentials.password generated
  (writeEnvelope build.unix user.userId envelope).mapError fun _ => .internal
  openSession build user.userId generated.sessionId ⟨generated.dek, envelope.sqlcipherVersion⟩
  change .setCookie .internal id
  pure user

def login [DecidableEq Dek] (build : Build) (credentials : Credentials) (sessionId : ℕ) :
    AuthProgram Dek AuthError UserRow := do
  change .findUser .unauthorized id
  match (← get).getUserByUsername credentials.username with
  | none => throw .unauthorized
  | some user => do
      change .acquireLifecycleLock .internal id
      change .findPasswordHash .unauthorized id
      match (← get).getPasswordHashForUser user.userId with
      | none => throw .unauthorized
      | some passwordHash =>
        if passwordHash ≠ credentials.password then
          throw .unauthorized
        else do
          let envelope ← (readEnvelope user.userId).mapError (loginEnvelopeReadError user.userId)
          match envelope.unwrapWithPassword credentials.password with
          | .error _ => throw (.loginEnvelopeUnlock user.userId)
          | .ok dek => do
              openSession build user.userId sessionId ⟨dek, envelope.sqlcipherVersion⟩
              (change .recordLastLogin AuthError.internal id).handle fun error => do
                (change .deleteSession error (Server.deleteSession sessionId)).handle
                  fun _ => pure ()
                throw error
              change .setCookie .internal id
              pure user

end Programs

/-! ## Runs -/

inductive Attempt (Dek : Type) where
  | register (credentials : Credentials) (generated : Generated Dek)
  | login (credentials : Credentials) (sessionId : ℕ)
deriving DecidableEq, Repr

/-- An attempt with the steps where it failed or stopped, or a start of the process. -/
inductive ServerEvent (Dek : Type) where
  | attempt (attempt : Attempt Dek) (interrupted : List AuthStep)
  | restart
deriving DecidableEq, Repr

section Events

variable {Dek : Type}

def Attempt.credentials : Attempt Dek → Credentials
  | register credentials _ => credentials
  | login credentials _ => credentials

def Attempt.program [DecidableEq Dek] (build : Build) : Attempt Dek →
    AuthProgram Dek AuthError UserRow
  | register credentials generated => Registration.register build credentials generated
  | login credentials sessionId => Registration.login build credentials sessionId

/-- What an event leaves; an attempt that stops takes the process with it. -/
inductive ServerEvent.Leads [DecidableEq Dek] (build : Build) :
    ServerEvent Dek → Server Dek → Server Dek → Prop where
  | answered {attempt : Attempt Dek} {interrupted : List AuthStep} {server after : Server Dek}
      {result : Except AuthError UserRow}
      (runs : Runs (attempt.program build) server interrupted (.answered result) after) :
      Leads build (.attempt attempt interrupted) server after
  | stopped {attempt : Attempt Dek} {interrupted : List AuthStep} {server after : Server Dek}
      (runs : Runs (attempt.program build) server interrupted .stopped after) :
      Leads build (.attempt attempt interrupted) server after.restart
  | restarted {server : Server Dek} : Leads build .restart server server.restart

end Events

end Bitgarth.Auth.Registration
