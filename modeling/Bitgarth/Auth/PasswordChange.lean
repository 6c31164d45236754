import Mathlib.Data.String.Basic
import Mathlib.Logic.Function.Basic
import Bitgarth.Amounts
import Bitgarth.Foundation.Reachability

/-! # Changing a password

The data key of a user is stored in an envelope, wrapped with the password whose hash is stored
in another database. A change of the password writes the envelope, the hash and the envelope
again, and the calls of one user share no lock. `unlocks_of_reached` says which steps keep the
stored hash and the envelope together.
-/

namespace Bitgarth.Auth

open Reachability

structure EncryptionError where
  message : String
deriving DecidableEq, Repr

/-! ## Envelopes -/

/-- A data key wrapped with a password, known by the password it was made from. -/
structure WrappedDek (Dek : Type) where
  wrapId : String
  password : String
  dek : Dek
deriving DecidableEq, Repr

structure DbEnvelope (Dek : Type) where
  sqlcipherVersion : ℕ
  wrappedKeys : List (WrappedDek Dek)
deriving DecidableEq, Repr

section Envelope

variable {Dek : Type}

/-- A wrapper unwraps with the password that it was made from. -/
def WrappedDek.unwrapWithPassword (wrapped : WrappedDek Dek) (password : String) : Option Dek :=
  if wrapped.password = password then some wrapped.dek else none

/-- The loop of `unwrap_password_dek_from_wrappers`, with the key found so far. -/
def unwrapPasswordDek [DecidableEq Dek] (password : String) :
    Option Dek → List (WrappedDek Dek) → Except EncryptionError Dek
  | found, [] =>
    match found with
    | none => .error ⟨"No password wrapper could unwrap the DEK"⟩
    | some dek => .ok dek
  | found, wrapped :: rest =>
    match wrapped.unwrapWithPassword password with
    | none => unwrapPasswordDek password found rest
    | some dek =>
      match found with
      | none => unwrapPasswordDek password (some dek) rest
      | some existing =>
        if existing ≠ dek then
          .error ⟨"Envelope corruption: multiple password wrappers yielded different DEKs"⟩
        else
          unwrapPasswordDek password (some existing) rest

def DbEnvelope.unwrapWithPassword [DecidableEq Dek] (envelope : DbEnvelope Dek)
    (password : String) : Except EncryptionError Dek :=
  unwrapPasswordDek password none envelope.wrappedKeys

def DbEnvelope.addPasswordWrapper (envelope : DbEnvelope Dek) (dek : Dek)
    (password wrapId : String) : DbEnvelope Dek :=
  { envelope with wrappedKeys := envelope.wrappedKeys ++ [{ wrapId, password, dek }] }

def DbEnvelope.compactPasswordWrappers (envelope : DbEnvelope Dek) (keepWrapId : String) :
    DbEnvelope Dek :=
  { envelope with
    wrappedKeys := envelope.wrappedKeys.filter fun wrapped => wrapped.wrapId = keepWrapId }

/-- The envelope has a wrapper of a password. -/
def DbEnvelope.HasWrapper (envelope : DbEnvelope Dek) (password : String) : Prop :=
  ∃ wrapped ∈ envelope.wrappedKeys, wrapped.password = password

/-- Every wrapper wraps one key. -/
def DbEnvelope.Wraps (envelope : DbEnvelope Dek) (dek : Dek) : Prop :=
  ∀ wrapped ∈ envelope.wrappedKeys, wrapped.dek = dek

instance (envelope : DbEnvelope Dek) (password : String) :
    Decidable (envelope.HasWrapper password) :=
  inferInstanceAs (Decidable (∃ wrapped ∈ envelope.wrappedKeys, _))

variable {envelope : DbEnvelope Dek} {dek : Dek} {password other wrapId : String}

theorem unwrapPasswordDek_eq_ok [DecidableEq Dek] {wrappedKeys : List (WrappedDek Dek)}
    {found : Option Dek} (wraps : ∀ wrapped ∈ wrappedKeys, wrapped.dek = dek)
    (isFound : ∀ existing ∈ found, existing = dek) :
    unwrapPasswordDek password found wrappedKeys = .ok dek ↔
      found.isSome ∨ ∃ wrapped ∈ wrappedKeys, wrapped.password = password := by
  induction wrappedKeys generalizing found with
  | nil =>
    cases found with
    | none => simp [unwrapPasswordDek]
    | some existing => simp [unwrapPasswordDek, isFound existing rfl]
  | cons wrapped rest ih =>
    have restWraps := fun other member => wraps other (List.mem_cons_of_mem _ member)
    have isDek := wraps wrapped List.mem_cons_self
    rw [unwrapPasswordDek, WrappedDek.unwrapWithPassword]
    by_cases unwraps : wrapped.password = password
    · rw [if_pos unwraps]
      cases found with
      | none =>
        dsimp only
        rw [ih restWraps (by rintro _ ⟨⟩; exact isDek)]
        simp [unwraps]
      | some existing =>
        dsimp only
        rw [if_neg (by rw [isFound existing rfl, isDek]; exact not_not.mpr rfl),
          ih restWraps isFound]
        simp
    · rw [if_neg unwraps]
      dsimp only
      rw [ih restWraps isFound]
      simp [unwraps]

theorem DbEnvelope.Wraps.unwrapWithPassword_eq_ok [DecidableEq Dek] (wraps : envelope.Wraps dek) :
    envelope.unwrapWithPassword password = .ok dek ↔ envelope.HasWrapper password := by
  refine (unwrapPasswordDek_eq_ok wraps fun _ none => ?_).trans ?_
  · cases none
  · exact or_iff_right Bool.false_ne_true

theorem DbEnvelope.Wraps.addPasswordWrapper (wraps : envelope.Wraps dek) :
    (envelope.addPasswordWrapper dek password wrapId).Wraps dek := by
  intro wrapped member
  rcases List.mem_append.mp member with old | new
  · exact wraps wrapped old
  · rw [List.mem_singleton.mp new]

theorem DbEnvelope.Wraps.compactPasswordWrappers (wraps : envelope.Wraps dek) :
    (envelope.compactPasswordWrappers wrapId).Wraps dek :=
  fun wrapped member => wraps wrapped (List.mem_filter.mp member).1

theorem hasWrapper_addPasswordWrapper :
    (envelope.addPasswordWrapper dek password wrapId).HasWrapper other ↔
      envelope.HasWrapper other ∨ password = other := by
  unfold DbEnvelope.HasWrapper DbEnvelope.addPasswordWrapper
  simp only [List.mem_append, List.mem_singleton, or_and_right, exists_or, exists_eq_left]

end Envelope

/-! ## Calls -/

/-- A call in progress, with what it holds in memory. -/
inductive PasswordChange (Dek : Type) where
  | verified (newPassword : String)
  | envelopeRead (newPassword : String) (envelope : DbEnvelope Dek)
  | wrapperWritten (newPassword wrapId : String) (envelope : DbEnvelope Dek)
  | hashUpdated (newPassword wrapId : String) (envelope : DbEnvelope Dek)
deriving DecidableEq, Repr

/-- What is stored of a user, with the calls in progress. The hash is known by the password that
verifies against it. -/
structure UserCredentials (Dek : Type) where
  envelope : DbEnvelope Dek
  passwordHash : String
  calls : ℕ → Option (PasswordChange Dek)

/-- A step of `change_password`, or its end between two steps. -/
inductive PasswordStep where
  | verify (call : ℕ) (oldPassword newPassword : String)
  | readEnvelope (call : ℕ)
  | writeWrapper (call : ℕ) (wrapId : String)
  | updatePasswordHash (call : ℕ)
  | writeCompacted (call : ℕ)
  | fail (call : ℕ)
deriving DecidableEq, Repr

section Steps

variable {Dek : Type}

/-- The call is where it has got to. -/
def UserCredentials.setCall (user : UserCredentials Dek) (call : ℕ)
    (change : Option (PasswordChange Dek)) : UserCredentials Dek :=
  { user with calls := Function.update user.calls call change }

/-- What a step does where it can be taken; `dek` is the key that the user's database is open
with, and wrap ids are fresh. -/
def PasswordStep.run (dek : Dek) (user : UserCredentials Dek) :
    PasswordStep → Option (UserCredentials Dek)
  | verify call oldPassword newPassword =>
    match user.calls call with
    | none =>
      if oldPassword = user.passwordHash then
        some (user.setCall call (some (.verified newPassword)))
      else
        none
    | some _ => none
  | readEnvelope call =>
    match user.calls call with
    | some (.verified newPassword) =>
      some (user.setCall call (some (.envelopeRead newPassword user.envelope)))
    | _ => none
  | writeWrapper call wrapId =>
    match user.calls call with
    | some (.envelopeRead newPassword envelope) =>
      if wrapId ∈ envelope.wrappedKeys.map (·.wrapId) then
        none
      else
        let envelope := envelope.addPasswordWrapper dek newPassword wrapId
        some { user.setCall call (some (.wrapperWritten newPassword wrapId envelope)) with
          envelope }
    | _ => none
  | updatePasswordHash call =>
    match user.calls call with
    | some (.wrapperWritten newPassword wrapId envelope) =>
      some { user.setCall call (some (.hashUpdated newPassword wrapId envelope)) with
        passwordHash := newPassword }
    | _ => none
  | writeCompacted call =>
    match user.calls call with
    | some (.hashUpdated _ wrapId envelope) =>
      some { user.setCall call none with envelope := envelope.compactPasswordWrappers wrapId }
    | _ => none
  | fail call =>
    match user.calls call with
    | some _ => some (user.setCall call none)
    | none => none

/-- A password that verifies against the stored hash unwraps the key from the stored envelope. -/
def UserCredentials.Unlocks [DecidableEq Dek] (dek : Dek) (user : UserCredentials Dek) : Prop :=
  ∀ password, password = user.passwordHash → user.envelope.unwrapWithPassword password = .ok dek

/-- A user without calls in progress, whose envelope wraps the key with the stored password. -/
structure UserCredentials.Settled (dek : Dek) (user : UserCredentials Dek) : Prop where
  wraps : user.envelope.Wraps dek
  hasWrapper : user.envelope.HasWrapper user.passwordHash
  idle : ∀ call, user.calls call = none

/-- What other calls have left of what a step relies on: the envelope that a call read still has
a wrapper of the stored password when it is written back, the new wrapper is still stored when
the hash is updated, and the hash is still the call's own when the envelope is compacted. -/
def PasswordStep.KeepsKey (step : PasswordStep) (user : UserCredentials Dek) : Prop :=
  match step with
  | writeWrapper call _ => ∀ newPassword envelope,
      user.calls call = some (.envelopeRead newPassword envelope) →
        envelope.HasWrapper user.passwordHash ∨ newPassword = user.passwordHash
  | updatePasswordHash call => ∀ newPassword wrapId envelope,
      user.calls call = some (.wrapperWritten newPassword wrapId envelope) →
        user.envelope.HasWrapper newPassword
  | writeCompacted call => ∀ newPassword wrapId envelope,
      user.calls call = some (.hashUpdated newPassword wrapId envelope) →
        newPassword = user.passwordHash
  | _ => True

/-- The envelope that a call wrote holds its new wrapper under an id of its own. -/
def DbEnvelope.HoldsNew (envelope : DbEnvelope Dek) (password wrapId : String) : Prop :=
  (∃ wrapped ∈ envelope.wrappedKeys, wrapped.wrapId = wrapId) ∧
    ∀ wrapped ∈ envelope.wrappedKeys, wrapped.wrapId = wrapId → wrapped.password = password

/-- What a call holds in memory wraps the key, and its new wrapper once it has one. -/
def PasswordChange.Holds (dek : Dek) : PasswordChange Dek → Prop
  | verified _ => True
  | envelopeRead _ envelope => envelope.Wraps dek
  | wrapperWritten newPassword wrapId envelope =>
    envelope.Wraps dek ∧ envelope.HoldsNew newPassword wrapId
  | hashUpdated newPassword wrapId envelope =>
    envelope.Wraps dek ∧ envelope.HoldsNew newPassword wrapId

/-- All that is stored or held wraps one key. -/
structure UserCredentials.OneKey (dek : Dek) (user : UserCredentials Dek) : Prop where
  stored : user.envelope.Wraps dek
  held : ∀ call change, user.calls call = some change → change.Holds dek

end Steps

section Runs

variable {Dek : Type} {dek : Dek} {user after start : UserCredentials Dek} {step : PasswordStep}
  {envelope : DbEnvelope Dek} {password wrapId other : String}

/-- What a step that was taken has found, and what it leaves. -/
inductive PasswordStep.Taken (dek : Dek) (user : UserCredentials Dek) :
    PasswordStep → UserCredentials Dek → Prop
  | verify {call : ℕ} {oldPassword newPassword : String} :
      Taken dek user (.verify call oldPassword newPassword)
        (user.setCall call (some (.verified newPassword)))
  | readEnvelope {call : ℕ} {newPassword : String} :
      Taken dek user (.readEnvelope call)
        (user.setCall call (some (.envelopeRead newPassword user.envelope)))
  | writeWrapper {call : ℕ} {newPassword wrapId : String} {envelope : DbEnvelope Dek}
      (isCall : user.calls call = some (.envelopeRead newPassword envelope))
      (fresh : wrapId ∉ envelope.wrappedKeys.map (·.wrapId)) :
      Taken dek user (.writeWrapper call wrapId)
        { user.setCall call (some (.wrapperWritten newPassword wrapId
            (envelope.addPasswordWrapper dek newPassword wrapId))) with
          envelope := envelope.addPasswordWrapper dek newPassword wrapId }
  | updatePasswordHash {call : ℕ} {newPassword wrapId : String} {envelope : DbEnvelope Dek}
      (isCall : user.calls call = some (.wrapperWritten newPassword wrapId envelope)) :
      Taken dek user (.updatePasswordHash call)
        { user.setCall call (some (.hashUpdated newPassword wrapId envelope)) with
          passwordHash := newPassword }
  | writeCompacted {call : ℕ} {newPassword wrapId : String} {envelope : DbEnvelope Dek}
      (isCall : user.calls call = some (.hashUpdated newPassword wrapId envelope)) :
      Taken dek user (.writeCompacted call)
        { user.setCall call none with envelope := envelope.compactPasswordWrappers wrapId }
  | fail {call : ℕ} : Taken dek user (.fail call) (user.setCall call none)

theorem PasswordStep.taken (done : step.run dek user = some after) :
    step.Taken dek user after := by
  cases step with
  | writeWrapper call wrapId =>
    simp only [PasswordStep.run] at done
    split at done
    · rename_i isCall
      obtain ⟨fresh, done⟩ := Option.ite_none_left_eq_some.mp done
      obtain rfl := Option.some.inj done
      exact .writeWrapper isCall fresh
    · cases done
  | updatePasswordHash call =>
    simp only [PasswordStep.run] at done
    split at done
    · rename_i isCall
      obtain rfl := Option.some.inj done
      exact .updatePasswordHash isCall
    · cases done
  | writeCompacted call =>
    simp only [PasswordStep.run] at done
    split at done
    · rename_i isCall
      obtain rfl := Option.some.inj done
      exact .writeCompacted isCall
    · cases done
  | verify call oldPassword newPassword =>
    simp only [PasswordStep.run] at done
    split at done
    · split at done
      · obtain rfl := Option.some.inj done
        exact .verify
      · cases done
    · cases done
  | readEnvelope call =>
    simp only [PasswordStep.run] at done
    split at done
    · obtain rfl := Option.some.inj done
      exact .readEnvelope
    · cases done
  | fail call =>
    simp only [PasswordStep.run] at done
    split at done
    · obtain rfl := Option.some.inj done
      exact .fail
    · cases done

theorem holdsNew_addPasswordWrapper (fresh : wrapId ∉ envelope.wrappedKeys.map (·.wrapId)) :
    (envelope.addPasswordWrapper dek password wrapId).HoldsNew password wrapId := by
  refine ⟨⟨_, List.mem_append_right _ (List.mem_singleton_self _), rfl⟩, ?_⟩
  intro wrapped member same
  rcases List.mem_append.mp member with old | new
  · exact absurd (List.mem_map.mpr ⟨wrapped, old, same⟩) fresh
  · rw [List.mem_singleton.mp new]

theorem DbEnvelope.HoldsNew.hasWrapper_compact (holdsNew : envelope.HoldsNew password wrapId) :
    (envelope.compactPasswordWrappers wrapId).HasWrapper other ↔ password = other := by
  unfold DbEnvelope.HasWrapper DbEnvelope.compactPasswordWrappers
  simp only [List.mem_filter, decide_eq_true_eq]
  constructor
  · rintro ⟨wrapped, ⟨member, isNew⟩, rfl⟩
    exact (holdsNew.2 wrapped member isNew).symm
  · rintro rfl
    obtain ⟨wrapped, member, isNew⟩ := holdsNew.1
    exact ⟨wrapped, ⟨member, isNew⟩, holdsNew.2 wrapped member isNew⟩

theorem UserCredentials.OneKey.setCall (oneKey : user.OneKey dek) {call : ℕ}
    {change : Option (PasswordChange Dek)} (holds : ∀ next ∈ change, next.Holds dek) :
    (user.setCall call change).OneKey dek := by
  refine ⟨oneKey.stored, ?_⟩
  intro otherCall next isNext
  change Function.update user.calls call change otherCall = some next at isNext
  by_cases same : otherCall = call
  · subst same
    rw [Function.update_self] at isNext
    exact holds next isNext
  · rw [Function.update_of_ne same] at isNext
    exact oneKey.held otherCall next isNext

theorem UserCredentials.OneKey.unlocks_iff [DecidableEq Dek] (oneKey : user.OneKey dek) :
    user.Unlocks dek ↔ user.envelope.HasWrapper user.passwordHash := by
  unfold UserCredentials.Unlocks
  rw [forall_eq, oneKey.stored.unwrapWithPassword_eq_ok]

/-- A step wraps the key that the user has. -/
theorem UserCredentials.OneKey.run (oneKey : user.OneKey dek)
    (done : step.run dek user = some after) : after.OneKey dek := by
  cases PasswordStep.taken done with
  | verify =>
    refine oneKey.setCall ?_
    rintro _ ⟨⟩
    exact trivial
  | readEnvelope =>
    refine oneKey.setCall ?_
    rintro _ ⟨⟩
    exact oneKey.stored
  | @writeWrapper call newPassword wrapId envelope isCall fresh =>
    have wraps : (envelope.addPasswordWrapper dek newPassword wrapId).Wraps dek :=
      (oneKey.held call _ isCall).addPasswordWrapper
    refine ⟨wraps, (oneKey.setCall ?_).held⟩
    rintro _ ⟨⟩
    exact ⟨wraps, holdsNew_addPasswordWrapper fresh⟩
  | updatePasswordHash isCall =>
    refine ⟨oneKey.stored, (oneKey.setCall ?_).held⟩
    rintro _ ⟨⟩
    obtain ⟨wraps, holdsNew⟩ := oneKey.held _ _ isCall
    exact ⟨wraps, holdsNew⟩
  | writeCompacted isCall =>
    refine ⟨(oneKey.held _ _ isCall).1.compactPasswordWrappers, (oneKey.setCall ?_).held⟩
    rintro _ ⟨⟩
  | fail =>
    refine oneKey.setCall ?_
    rintro _ ⟨⟩

theorem UserCredentials.OneKey.hasWrapper_run (oneKey : user.OneKey dek)
    (unlocks : user.envelope.HasWrapper user.passwordHash)
    (done : step.run dek user = some after) :
    after.envelope.HasWrapper after.passwordHash ↔ step.KeepsKey user := by
  cases PasswordStep.taken done with
  | verify => exact iff_of_true unlocks trivial
  | readEnvelope => exact iff_of_true unlocks trivial
  | @writeWrapper call newPassword wrapId envelope isCall _ =>
    refine hasWrapper_addPasswordWrapper.trans ⟨?_, fun keeps => keeps _ _ isCall⟩
    intro kept otherPassword otherEnvelope otherCall
    obtain ⟨rfl, rfl⟩ : newPassword = otherPassword ∧ envelope = otherEnvelope := by
      simpa using isCall.symm.trans otherCall
    exact kept
  | @updatePasswordHash call newPassword wrapId envelope isCall =>
    refine ⟨?_, fun keeps => keeps _ _ _ isCall⟩
    intro kept otherPassword otherId otherEnvelope otherCall
    obtain ⟨rfl, rfl, rfl⟩ : newPassword = otherPassword ∧ wrapId = otherId ∧
        envelope = otherEnvelope := by
      simpa using isCall.symm.trans otherCall
    exact kept
  | @writeCompacted call newPassword wrapId envelope isCall =>
    refine (oneKey.held call _ isCall).2.hasWrapper_compact.trans
      ⟨?_, fun keeps => keeps _ _ _ isCall⟩
    intro kept otherPassword otherId otherEnvelope otherCall
    obtain ⟨rfl, rfl, rfl⟩ : newPassword = otherPassword ∧ wrapId = otherId ∧
        envelope = otherEnvelope := by
      simpa using isCall.symm.trans otherCall
    exact kept
  | fail => exact iff_of_true unlocks trivial

/-- While every step finds what it relies on, the stored password unlocks the key in every state
that calls reach, and a step leaves it so exactly when it does. -/
theorem unlocks_of_reached [DecidableEq Dek] (settled : start.Settled dek)
    (reached : Reached (fun step user after => PasswordStep.run dek user step = some after)
      PasswordStep.KeepsKey start user) :
    user.Unlocks dek ∧ ∀ (step : PasswordStep) (after : UserCredentials Dek),
      step.run dek user = some after → (after.Unlocks dek ↔ step.KeepsKey user) := by
  have invariant : user.OneKey dek ∧ user.envelope.HasWrapper user.passwordHash := by
    refine @Reached.invariant _ _ _ _ _ _ reached
      (fun user => user.OneKey dek ∧ user.envelope.HasWrapper user.passwordHash) ?_ ?_
    · refine ⟨⟨settled.wraps, ?_⟩, settled.hasWrapper⟩
      intro call change isCall
      rw [settled.idle call] at isCall
      cases isCall
    · rintro step before next ⟨oneKey, unlocks⟩ keeps done
      exact ⟨oneKey.run done, (oneKey.hasWrapper_run unlocks done).mpr keeps⟩
  obtain ⟨oneKey, unlocks⟩ := invariant
  refine ⟨oneKey.unlocks_iff.mpr unlocks, ?_⟩
  intro step next done
  rw [(oneKey.run done).unlocks_iff]
  exact oneKey.hasWrapper_run unlocks done

theorem UserCredentials.Settled.oneKey (settled : start.Settled dek) : start.OneKey dek := by
  refine ⟨settled.wraps, ?_⟩
  intro call change isCall
  rw [settled.idle call] at isCall
  cases isCall

end Runs

/-! ## One call after the other -/

section Serial

variable {Dek : Type}

/-- A call has read the envelope and may still write. -/
def PasswordChange.Writing : PasswordChange Dek → Prop
  | verified _ => False
  | _ => True

/-- No call reads the envelope while another one may still write it. -/
def PasswordStep.Serial (step : PasswordStep) (user : UserCredentials Dek) : Prop :=
  match step with
  | readEnvelope _ => ∀ call change, user.calls call = some change → ¬ change.Writing
  | _ => True

/-- What a call that may still write finds stored. -/
def PasswordChange.Agrees (user : UserCredentials Dek) : PasswordChange Dek → Prop
  | verified _ => True
  | envelopeRead _ envelope => envelope = user.envelope
  | wrapperWritten newPassword _ _ => user.envelope.HasWrapper newPassword
  | hashUpdated newPassword _ _ => newPassword = user.passwordHash

/-- At most one call may still write, and what is stored is what it left there. -/
structure UserCredentials.OneWriter (user : UserCredentials Dek) : Prop where
  single : ∀ call other change next, user.calls call = some change →
    user.calls other = some next → change.Writing → next.Writing → call = other
  agrees : ∀ call change, user.calls call = some change → change.Agrees user

variable {dek : Dek} {user after start : UserCredentials Dek} {step : PasswordStep}

theorem PasswordChange.agrees_of_not_writing {change : PasswordChange Dek}
    (quiet : ¬ change.Writing) : change.Agrees user := by
  cases change with
  | verified newPassword => trivial
  | envelopeRead newPassword envelope => exact absurd trivial quiet
  | wrapperWritten newPassword wrapId envelope => exact absurd trivial quiet
  | hashUpdated newPassword wrapId envelope => exact absurd trivial quiet

theorem oneWriter_update {call : ℕ} {change : Option (PasswordChange Dek)}
    (calls : after.calls = Function.update user.calls call change)
    (quiet : ∀ other next, other ≠ call → user.calls other = some next → ¬ next.Writing)
    (agrees : ∀ next ∈ change, next.Agrees after) : after.OneWriter := by
  have isCall : ∀ other next, after.calls other = some next → next.Writing → other = call := by
    intro other next isOther writes
    by_contra apart
    rw [calls, Function.update_of_ne apart] at isOther
    exact quiet other next apart isOther writes
  refine ⟨?_, ?_⟩
  · intro first second change next isFirst isSecond firstWrites secondWrites
    rw [isCall first change isFirst firstWrites, isCall second next isSecond secondWrites]
  · intro other next isOther
    by_cases same : other = call
    · subst same
      rw [calls, Function.update_self] at isOther
      exact agrees next isOther
    · rw [calls, Function.update_of_ne same] at isOther
      exact PasswordChange.agrees_of_not_writing (quiet other next same isOther)

theorem UserCredentials.OneWriter.setCall (oneWriter : user.OneWriter) {call : ℕ}
    {change : Option (PasswordChange Dek)} (quiet : ∀ next ∈ change, ¬ next.Writing) :
    (user.setCall call change).OneWriter := by
  have cases : ∀ other next, (user.setCall call change).calls other = some next →
      next ∈ change ∨ user.calls other = some next := by
    intro other next isOther
    change Function.update user.calls call change other = some next at isOther
    by_cases same : other = call
    · subst same
      rw [Function.update_self] at isOther
      exact .inl isOther
    · rw [Function.update_of_ne same] at isOther
      exact .inr isOther
  refine ⟨?_, ?_⟩
  · intro first second change' next isFirst isSecond firstWrites secondWrites
    rcases cases first change' isFirst with new | isFirst
    · exact absurd firstWrites (quiet change' new)
    · rcases cases second next isSecond with new | isSecond
      · exact absurd secondWrites (quiet next new)
      · exact oneWriter.single first second change' next isFirst isSecond firstWrites secondWrites
  · intro other next isOther
    rcases cases other next isOther with new | isOther
    · exact PasswordChange.agrees_of_not_writing (quiet next new)
    · have agrees := oneWriter.agrees other next isOther
      cases next with
      | verified newPassword => trivial
      | envelopeRead newPassword envelope => exact agrees
      | wrapperWritten newPassword wrapId envelope => exact agrees
      | hashUpdated newPassword wrapId envelope => exact agrees

theorem UserCredentials.OneWriter.quiet (oneWriter : user.OneWriter) {call : ℕ}
    {change : PasswordChange Dek} (isCall : user.calls call = some change)
    (writes : change.Writing) :
    ∀ other next, other ≠ call → user.calls other = some next → ¬ next.Writing := by
  intro other next apart isOther otherWrites
  exact apart (oneWriter.single other call next change isOther isCall otherWrites writes)

/-- Where calls take turns, one writes at a time and its steps keep the key. -/
theorem UserCredentials.OneWriter.run (oneWriter : user.OneWriter)
    (unlocks : user.envelope.HasWrapper user.passwordHash) (serial : step.Serial user)
    (done : step.run dek user = some after) : after.OneWriter ∧ step.KeepsKey user := by
  cases PasswordStep.taken done with
  | verify =>
    refine ⟨oneWriter.setCall ?_, trivial⟩
    rintro _ ⟨⟩
    exact id
  | readEnvelope =>
    refine ⟨oneWriter_update rfl (fun other next _ => serial other next) ?_, trivial⟩
    rintro _ ⟨⟩
    rfl
  | writeWrapper isCall fresh =>
    refine ⟨oneWriter_update rfl (oneWriter.quiet isCall trivial) ?_, ?_⟩
    · rintro _ ⟨⟩
      exact hasWrapper_addPasswordWrapper.mpr (.inr rfl)
    · intro _ otherEnvelope otherCall
      have agrees : otherEnvelope = user.envelope := oneWriter.agrees _ _ otherCall
      rw [agrees]
      exact .inl unlocks
  | updatePasswordHash isCall =>
    refine ⟨oneWriter_update rfl (oneWriter.quiet isCall trivial) ?_, ?_⟩
    · rintro _ ⟨⟩
      rfl
    · exact fun _ _ _ otherCall => oneWriter.agrees _ _ otherCall
  | writeCompacted isCall =>
    refine ⟨oneWriter_update rfl (oneWriter.quiet isCall trivial) ?_, ?_⟩
    · rintro _ ⟨⟩
    · exact fun _ _ _ otherCall => oneWriter.agrees _ _ otherCall
  | fail =>
    refine ⟨oneWriter.setCall ?_, trivial⟩
    rintro _ ⟨⟩

/-- Calls that take turns, each failing where it may, never lock the user out. -/
theorem unlocks_of_serial [DecidableEq Dek] (settled : start.Settled dek)
    (reached : Reached (fun step user after => PasswordStep.run dek user step = some after)
      PasswordStep.Serial start user) : user.Unlocks dek := by
  have invariant : user.OneKey dek ∧ user.envelope.HasWrapper user.passwordHash ∧
      user.OneWriter := by
    refine @Reached.invariant _ _ _ _ _ _ reached (fun user => user.OneKey dek ∧
      user.envelope.HasWrapper user.passwordHash ∧ user.OneWriter) ?_ ?_
    · refine ⟨settled.oneKey, settled.hasWrapper, ?_, ?_⟩
      · intro call _ _ _ isCall
        rw [settled.idle call] at isCall
        cases isCall
      · intro call change isCall
        rw [settled.idle call] at isCall
        cases isCall
    · rintro step before next ⟨oneKey, unlocks, oneWriter⟩ serial done
      obtain ⟨nextWriter, keeps⟩ := oneWriter.run unlocks serial done
      exact ⟨oneKey.run done, (oneKey.hasWrapper_run unlocks done).mpr keeps, nextWriter⟩
  exact invariant.1.unlocks_iff.mpr invariant.2.1

end Serial

/-! ## Two calls at once -/

/-- A user who signed up with a password. -/
def signedUp : UserCredentials ℕ where
  envelope :=
    { sqlcipherVersion := 4, wrappedKeys := [{ wrapId := "0", password := "old", dek := 7 }] }
  passwordHash := "old"
  calls _ := none

theorem signedUp_settled : signedUp.Settled 7 := by
  refine ⟨?_, ?_, fun _ => rfl⟩
  · intro wrapped member
    rw [List.mem_singleton.mp member]
  · decide

/-- The stored state after some steps. -/
def afterSteps (steps : List PasswordStep) : UserCredentials ℕ :=
  (steps.foldlM (PasswordStep.run 7) signedUp).getD signedUp

/-- The stored state after some steps is reached by steps that meet a condition. -/
def After (meets : PasswordStep → UserCredentials ℕ → Prop) (steps : List PasswordStep) : Prop :=
  Reached (fun step user after => PasswordStep.run 7 user step = some after) meets signedUp
    (afterSteps steps)

/-- A call that changes the password and compacts the envelope. -/
def turn (call : ℕ) (wrapId oldPassword newPassword : String) : List PasswordStep :=
  [.verify call oldPassword newPassword, .readEnvelope call, .writeWrapper call wrapId,
    .updatePasswordHash call, .writeCompacted call]

theorem unlocks_of_reached_oneCall :
    (afterSteps [.verify 0 "old" "new", .readEnvelope 0, .writeWrapper 0 "1",
      .updatePasswordHash 0, .writeCompacted 0]).Unlocks 7 := by
  have read : After PasswordStep.KeepsKey ((turn 0 "1" "old" "new").take 2) :=
    Reached.foldlM [.verify 0 "old" "new", .readEnvelope 0] .start
      (by simp [PasswordStep.KeepsKey]) rfl
  have written : After PasswordStep.KeepsKey ((turn 0 "1" "old" "new").take 3) :=
    @Reached.step _ _ _ _ _ _ _ (.writeWrapper 0 "1") read
      (by rintro _ _ ⟨⟩; decide) rfl
  have updated : After PasswordStep.KeepsKey ((turn 0 "1" "old" "new").take 4) :=
    @Reached.step _ _ _ _ _ _ _ (.updatePasswordHash 0) written
      (by rintro _ _ _ ⟨⟩; decide) rfl
  have compacted : After PasswordStep.KeepsKey (turn 0 "1" "old" "new") :=
    @Reached.step _ _ _ _ _ _ _ (.writeCompacted 0) updated
      (by rintro _ _ _ ⟨⟩; rfl) rfl
  exact (unlocks_of_reached signedUp_settled compacted).1

/-- Two calls that take turns, the second with the password of the first. -/
theorem unlocks_of_serial_twoTurns :
    (afterSteps (turn 0 "1" "old" "a" ++ turn 1 "2" "a" "b")).Unlocks 7 := by
  have verified : After PasswordStep.Serial [.verify 0 "old" "a"] :=
    @Reached.step _ _ _ _ _ _ _ (.verify 0 "old" "a") .start trivial rfl
  have read : After PasswordStep.Serial [.verify 0 "old" "a", .readEnvelope 0] := by
    refine @Reached.step _ _ _ _ _ _ _ (.readEnvelope 0) verified ?_ rfl
    intro call change isCall
    rcases call with _ | call
    · cases isCall
      exact id
    · cases isCall
  have turned : After PasswordStep.Serial (turn 0 "1" "old" "a" ++ [.verify 1 "a" "b"]) := by
    refine Reached.foldlM [.writeWrapper 0 "1", .updatePasswordHash 0, .writeCompacted 0,
      .verify 1 "a" "b"] read ?_ rfl
    simp [PasswordStep.Serial]
  have readAgain : After PasswordStep.Serial
      (turn 0 "1" "old" "a" ++ [.verify 1 "a" "b", .readEnvelope 1]) := by
    refine @Reached.step _ _ _ _ _ _ _ (.readEnvelope 1) turned ?_ rfl
    intro call change isCall
    rcases call with _ | _ | call
    · cases isCall
    · cases isCall
      exact id
    · cases isCall
  refine unlocks_of_serial signedUp_settled (Reached.foldlM
    [.writeWrapper 1 "2", .updatePasswordHash 1, .writeCompacted 1] readAgain ?_ rfl)
  simp [PasswordStep.Serial]

/-- The second call overwrites the wrapper of the first, whose hash is stored. -/
def twoCalls : List PasswordStep :=
  [.verify 0 "old" "a", .verify 1 "old" "b", .readEnvelope 0, .readEnvelope 1,
    .writeWrapper 0 "1", .writeWrapper 1 "2", .updatePasswordHash 0]

/-- Two calls read the envelope before either writes it. The second overwrites the wrapper of the
first, whose new password then verifies and unwraps nothing. -/
theorem not_unlocks_twoCalls :
    Reached (fun step user after => PasswordStep.run 7 user step = some after)
        (fun _ _ => True) signedUp
        (afterSteps [.verify 0 "old" "a", .verify 1 "old" "b", .readEnvelope 0, .readEnvelope 1,
          .writeWrapper 0 "1", .writeWrapper 1 "2", .updatePasswordHash 0]) ∧
      ¬ (afterSteps [.verify 0 "old" "a", .verify 1 "old" "b", .readEnvelope 0, .readEnvelope 1,
          .writeWrapper 0 "1", .writeWrapper 1 "2", .updatePasswordHash 0]).Unlocks 7 := by
  constructor
  · exact Reached.foldlM twoCalls .start (fun _ _ _ => trivial) rfl
  · intro unlocks
    have opens := unlocks "a" rfl
    exact absurd opens (by decide)

end Bitgarth.Auth
