import Mathlib.Tactic.Common
import Bitgarth.Foundation.Reachability

/-! # Pins of a session

The pin of a session keeps the database of its user open. A log-in pins the session that it has
stored, and a request the session that it found, which may have been deleted since; so the request
looks again after it has pinned. Whoever deletes the session unpins it.
-/

namespace Bitgarth.Auth

open Reachability

/-- One session, with the calls under way for it or its user, counted by where they have got to.
Requests that are opening the database, checking for the session or serving have a lease, and
calls that are locked, creating the session or deleting the user the guard. -/
structure PinnedSession where
  stored : Bool := false
  pinned : Bool := false
  opening : ℕ := 0
  checking : ℕ := 0
  serving : ℕ := 0
  locked : ℕ := 0
  creating : ℕ := 0
  deleting : ℕ := 0
  unpinning : ℕ := 0
deriving DecidableEq, Repr

/-- A critical section of a call, or its end between two. -/
inductive PinStep where
  | acquireSessionRequest
  | failOpening
  | pinFound
  | sessionExists
  | failSessionExists
  | dropRequest
  | acquireUserLifecycleLock
  | insert
  | pinCreated
  | failPinCreated
  | clearBrowserSessions
  | deleteUserRows
  | failDeletion
  | dropUserLifecycleGuard
  | deleteRow
  | unpin
  | failUnpin
  | stop
deriving DecidableEq, Repr

namespace PinnedSession

/-- Calls that have a lease. -/
def leases (session : PinnedSession) : ℕ :=
  session.opening + session.checking + session.serving

/-- Calls that have the guard. -/
def guards (session : PinnedSession) : ℕ :=
  session.locked + session.creating + session.deleting

/-- Leases and the guard exclude each other, as the registry has it. A pin or unpin fails where
the registry's lock is poisoned, and a clean-up that ends early unpins no more sessions. -/
def run (session : PinnedSession) : PinStep → Option PinnedSession
  | .acquireSessionRequest =>
    if session.guards = 0 then some { session with opening := session.opening + 1 } else none
  | .failOpening =>
    if 0 < session.opening then some { session with opening := session.opening - 1 } else none
  | .pinFound =>
    if 0 < session.opening then
      some { session with
        pinned := true
        opening := session.opening - 1
        checking := session.checking + 1 }
    else none
  | .sessionExists =>
    if 0 < session.checking then
      if session.stored then
        some { session with
          checking := session.checking - 1
          serving := session.serving + 1 }
      else
        some { session with
          checking := session.checking - 1
          unpinning := session.unpinning + 1 }
    else none
  | .failSessionExists =>
    if 0 < session.checking then some { session with checking := session.checking - 1 } else none
  | .dropRequest =>
    if 0 < session.serving then some { session with serving := session.serving - 1 } else none
  | .acquireUserLifecycleLock =>
    if session.guards = 0 ∧ session.leases = 0 then
      some { session with locked := session.locked + 1 }
    else none
  | .insert =>
    if 0 < session.locked ∧ session.stored = false then
      some { session with
        stored := true
        locked := session.locked - 1
        creating := session.creating + 1 }
    else none
  | .pinCreated =>
    if 0 < session.creating then
      some { session with
        pinned := true
        creating := session.creating - 1
        locked := session.locked + 1 }
    else none
  | .failPinCreated =>
    if 0 < session.creating then
      some { session with creating := session.creating - 1, locked := session.locked + 1 }
    else none
  | .clearBrowserSessions =>
    if 0 < session.locked then
      some { session with
        pinned := false
        locked := session.locked - 1
        deleting := session.deleting + 1 }
    else none
  | .deleteUserRows =>
    if 0 < session.deleting then
      some { session with
        stored := false
        deleting := session.deleting - 1
        locked := session.locked + 1 }
    else none
  | .failDeletion =>
    if 0 < session.deleting then
      some { session with
        deleting := session.deleting - 1
        locked := session.locked + 1 }
    else none
  | .dropUserLifecycleGuard =>
    if 0 < session.locked then some { session with locked := session.locked - 1 } else none
  | .deleteRow =>
    if session.stored then
      some { session with stored := false, unpinning := session.unpinning + 1 }
    else none
  | .unpin =>
    if 0 < session.unpinning then
      some { session with pinned := false, unpinning := session.unpinning - 1 }
    else none
  | .failUnpin =>
    if 0 < session.unpinning then some { session with unpinning := session.unpinning - 1 } else none
  | .stop => some { stored := session.stored }

/-- The row is not deleted between its insertion and its pin, looking for it does not fail once
it is gone, and no unpin of it fails. -/
def Spares (step : PinStep) (session : PinnedSession) : Prop :=
  (step = .deleteRow → session.creating = 0) ∧
    (step = .failSessionExists → session.stored = true) ∧
    (step = .failUnpin → session.pinned = false)
deriving Decidable

/-- A pinned session has its row, or a call that looks for it or unpins it; one that is being
created has its row, and one that is being deleted with its user no pin. -/
structure Sound (session : PinnedSession) : Prop where
  pinned : session.pinned = true →
    session.stored = true ∨ 0 < session.checking + session.unpinning
  creating : 0 < session.creating → session.stored = true
  deleting : 0 < session.deleting → session.pinned = false
  alone : session.guards ≤ 1
  excluded : 0 < session.guards → session.leases = 0

/-- The guard stays with one call, which excludes leases. -/
theorem exclusive_run {session after : PinnedSession} {step : PinStep}
    (alone : session.guards ≤ 1) (excluded : 0 < session.guards → session.leases = 0)
    (taken : session.run step = some after) :
    after.guards ≤ 1 ∧ (0 < after.guards → after.leases = 0) := by
  dsimp only [guards, leases] at *
  cases step with
  | stop =>
    cases taken
    exact ⟨Nat.zero_le 1, fun _ => rfl⟩
  | sessionExists =>
    obtain ⟨isChecking, taken⟩ := Option.ite_none_right_eq_some.mp taken
    split at taken <;> cases taken <;> dsimp only at * <;> omega
  | _ =>
    obtain ⟨allowed, ended⟩ := Option.ite_none_right_eq_some.mp taken
    cases ended
    dsimp only [guards, leases] at *
    omega

/-- Steps that spare the session keep it sound. -/
theorem Sound.run {session after : PinnedSession} {step : PinStep} (sound : session.Sound)
    (spares : Spares step session) (taken : session.run step = some after) : after.Sound := by
  obtain ⟨pinned, creating, deleting, alone, excluded⟩ := sound
  obtain ⟨nextAlone, nextExcluded⟩ := exclusive_run alone excluded taken
  dsimp only [guards, leases] at alone excluded
  cases step
  case stop =>
    cases taken
    exact ⟨by rintro ⟨⟩, by rintro ⟨⟩, by rintro ⟨⟩, nextAlone, nextExcluded⟩
  all_goals obtain ⟨allowed, ended⟩ := Option.ite_none_right_eq_some.mp taken
  case sessionExists =>
    split at ended <;> rename_i isStored <;> cases ended
    · exact ⟨fun _ => .inl isStored, creating, deleting, nextAlone, nextExcluded⟩
    · exact ⟨fun _ => .inr (Nat.succ_pos _), creating, deleting, nextAlone, nextExcluded⟩
  all_goals cases ended
  case pinFound =>
    exact ⟨fun _ => .inr (Nat.add_pos_left (Nat.succ_pos _) _), creating,
      fun positive => absurd (excluded (Nat.add_pos_right _ positive)) (by omega), nextAlone,
      nextExcluded⟩
  case failSessionExists =>
    exact ⟨fun _ => .inl (spares.2.1 rfl), creating, deleting, nextAlone, nextExcluded⟩
  case insert => exact ⟨fun _ => .inl rfl, fun _ => rfl, deleting, nextAlone, nextExcluded⟩
  case pinCreated =>
    exact ⟨fun _ => .inl (creating allowed), fun _ => creating allowed,
      fun (positive : 0 < session.deleting) => absurd alone (by omega), nextAlone, nextExcluded⟩
  case failPinCreated =>
    exact ⟨pinned, fun _ => creating allowed,
      fun (positive : 0 < session.deleting) => absurd alone (by omega), nextAlone, nextExcluded⟩
  case failUnpin =>
    exact ⟨fun isPinned => absurd (spares.2.2 rfl) (by simpa using isPinned), creating, deleting,
      nextAlone, nextExcluded⟩
  case clearBrowserSessions =>
    exact ⟨by rintro ⟨⟩, creating, fun _ => rfl, nextAlone, nextExcluded⟩
  case deleteUserRows =>
    exact ⟨fun isPinned => absurd isPinned (by simp [deleting allowed]),
      fun (positive : 0 < session.creating) => absurd alone (by omega),
      fun _ => deleting allowed, nextAlone, nextExcluded⟩
  case failDeletion => exact ⟨pinned, creating, fun _ => deleting allowed, nextAlone, nextExcluded⟩
  case deleteRow =>
    exact ⟨fun _ => .inr (Nat.succ_pos _),
      fun positive => absurd (spares.1 rfl) (Nat.ne_of_gt positive), deleting, nextAlone,
      nextExcluded⟩
  case unpin => exact ⟨by rintro ⟨⟩, creating, fun _ => rfl, nextAlone, nextExcluded⟩
  all_goals exact ⟨pinned, creating, deleting, nextAlone, nextExcluded⟩

end PinnedSession

/-- **A pinned session is stored**, or a call under way will look for it or unpin it, in every run
whose calls spare the sessions that are not yet pinned, find the deleted ones gone and unpin
them. -/
theorem pinned_stored_of_reached {session : PinnedSession}
    (reached : Reached (fun step session after => session.run step = some after)
      PinnedSession.Spares {} session) (pinned : session.pinned = true) :
    session.stored = true ∨ 0 < session.checking + session.unpinning := by
  have sound : session.Sound := by
    refine @Reached.invariant _ _ _ _ _ _ reached PinnedSession.Sound ?_ ?_
    · exact ⟨by rintro ⟨⟩, by rintro ⟨⟩, by rintro ⟨⟩, Nat.zero_le 1, fun _ => rfl⟩
    · exact fun step before after sound spares taken => sound.run spares taken
  exact sound.pinned pinned

/-- A session is deleted while a request that has found it opens the database, and unpinned
before the request pins it again. -/
def deletedWhileOpening : List PinStep :=
  [.acquireUserLifecycleLock, .insert, .pinCreated, .dropUserLifecycleGuard,
    .acquireSessionRequest, .deleteRow, .unpin, .pinFound]

theorem pinned_stored_of_reached_deletedWhileOpening :
    ∃ session, deletedWhileOpening.foldlM PinnedSession.run {} = some session ∧
      session.pinned = true ∧
        (session.stored = true ∨ 0 < session.checking + session.unpinning) := by
  have ran : deletedWhileOpening.foldlM (fun session step =>
      if PinnedSession.Spares step session then session.run step else none) {} =
        some { pinned := true, checking := 1 } := by decide
  exact ⟨_, by decide, rfl,
    pinned_stored_of_reached (Reached.foldlM_of_meets deletedWhileOpening ran) rfl⟩

end Bitgarth.Auth
