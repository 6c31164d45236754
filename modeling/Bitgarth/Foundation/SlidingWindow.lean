import Mathlib.Algebra.Order.Group.Defs
import Mathlib.Algebra.Order.Sub.Basic
import Mathlib.Data.List.TakeWhile
import Mathlib.Tactic.Common

/-! # Sliding windows

A queue of recorded times, from whose front the times that have left the window are dropped. The
queue bounds what any window holds, since a time is recorded only while the queue is short.
-/

namespace SlidingWindow

variable {Time : Type*} [AddCommGroup Time] [LinearOrder Time] [IsOrderedAddMonoid Time]

/-- Drop the times up to a cutoff from the front. -/
def prune (cutoff : Time) (kept : List Time) : List Time :=
  kept.dropWhile fun time => time ≤ cutoff

/-- When a full queue has room again: its front leaves the window then. -/
def fullUntil (limit : ℕ) (window : Time) (kept : List Time) : Option Time :=
  if limit ≤ kept.length then kept.head?.map (· + window) else none

/-- How many times lie in the window that ends at `last`. -/
def inWindow (window last : Time) (recorded : List Time) : ℕ :=
  recorded.countP fun time => last - window < time ∧ time ≤ last

/-- No window holds more than `limit` of the times. -/
def Bounded (window : Time) (limit : ℕ) (recorded : List Time) : Prop :=
  ∀ last, inWindow window last recorded ≤ limit

/-- The queue is what was recorded without a front that has left the window. -/
structure Keeps (window now : Time) (recorded kept : List Time) : Prop where
  dropped : ∃ front, recorded = front ++ kept ∧ ∀ time ∈ front, time ≤ now - window
  past : ∀ time ∈ recorded, time ≤ now

variable {window now later last : Time} {recorded kept : List Time} {limit : ℕ}

omit [IsOrderedAddMonoid Time] in
theorem keeps_nil : Keeps window now [] [] := by
  refine ⟨⟨[], rfl, ?_⟩, ?_⟩
  · exact fun _ member => absurd member List.not_mem_nil
  · exact fun _ member => absurd member List.not_mem_nil

omit [IsOrderedAddMonoid Time] in
theorem bounded_nil : Bounded window limit [] :=
  fun _ => Nat.zero_le _

theorem Keeps.mono (keeps : Keeps window now recorded kept) (elapsed : now ≤ later) :
    Keeps window later recorded kept := by
  obtain ⟨front, split, left⟩ := keeps.dropped
  refine ⟨⟨front, split, ?_⟩, ?_⟩
  · exact fun time member => (left time member).trans (sub_le_sub_right elapsed window)
  · exact fun time member => (keeps.past time member).trans elapsed

omit [IsOrderedAddMonoid Time] in
theorem Keeps.prune (keeps : Keeps window now recorded kept) :
    Keeps window now recorded (prune (now - window) kept) := by
  obtain ⟨front, split, left⟩ := keeps.dropped
  refine ⟨⟨front ++ kept.takeWhile fun time => time ≤ now - window, ?_, ?_⟩, keeps.past⟩
  · rw [SlidingWindow.prune, List.append_assoc, List.takeWhile_append_dropWhile]
    exact split
  · intro time member
    rcases List.mem_append.mp member with member | member
    · exact left time member
    · have holds := List.mem_takeWhile_imp member
      exact of_decide_eq_true holds

omit [IsOrderedAddMonoid Time] in
theorem Keeps.push (keeps : Keeps window now recorded kept) :
    Keeps window now (recorded ++ [now]) (kept ++ [now]) := by
  obtain ⟨front, split, left⟩ := keeps.dropped
  refine ⟨⟨front, ?_, left⟩, ?_⟩
  · rw [split, List.append_assoc]
  · intro time member
    rcases List.mem_append.mp member with member | member
    · exact keeps.past time member
    · exact (List.mem_singleton.mp member).le

/-- A window that ends now or later holds no more than the queue. -/
theorem Keeps.inWindow_le (keeps : Keeps window now recorded kept) (elapsed : now ≤ last) :
    inWindow window last recorded ≤ kept.length := by
  obtain ⟨front, split, left⟩ := keeps.dropped
  have out : front.countP (fun time => last - window < time ∧ time ≤ last) = 0 := by
    rw [List.countP_eq_zero]
    intro time member
    have gone : time ≤ last - window :=
      (left time member).trans (sub_le_sub_right elapsed window)
    simp [not_lt.mpr gone]
  rw [inWindow, split, List.countP_append, out, Nat.zero_add]
  exact List.countP_le_length

/-- A time is recorded while the queue is short. -/
theorem Bounded.push (bounded : Bounded window limit recorded)
    (keeps : Keeps window now recorded kept) (short : kept.length < limit) :
    Bounded window limit (recorded ++ [now]) := by
  intro last
  rw [inWindow, List.countP_append]
  by_cases elapsed : now ≤ last
  · have before : inWindow window last recorded ≤ kept.length := keeps.inWindow_le elapsed
    have one : [now].countP (fun time => last - window < time ∧ time ≤ last) ≤ 1 :=
      List.countP_le_length
    exact (Nat.add_le_add before one).trans short
  · have none : [now].countP (fun time => last - window < time ∧ time ≤ last) = 0 := by
      simp [elapsed]
    rw [none, Nat.add_zero]
    exact bounded last

omit [AddCommGroup Time] [IsOrderedAddMonoid Time] in
theorem length_prune_le (cutoff : Time) (kept : List Time) :
    (prune cutoff kept).length ≤ kept.length :=
  (List.dropWhile_sublist _).length_le

/-- A queue that was just full waits for its front alone. -/
theorem fullUntil_prune (short : kept.length ≤ limit) :
    fullUntil limit window (prune (later - window) kept) =
      (fullUntil limit window kept).filter (later < ·) := by
  cases kept with
  | nil => simp [fullUntil, prune]
  | cons front rest =>
    by_cases left : front ≤ later - window
    · -- the front is gone, so the queue is short
      have gone : prune (later - window) (front :: rest) = prune (later - window) rest :=
        List.dropWhile_cons_of_pos (decide_eq_true left)
      have room : ¬limit ≤ (prune (later - window) rest).length := by
        rw [not_le]
        exact (length_prune_le _ _).trans_lt short
      have past : ¬later < front + window := not_lt.mpr (le_sub_iff_add_le.mp left)
      rw [gone, fullUntil, if_neg room, fullUntil]
      split
      · rw [List.head?_cons, Option.map_some, Option.filter_some_neg (by simpa using past)]
      · rfl
    · have stays : prune (later - window) (front :: rest) = front :: rest :=
        List.dropWhile_cons_of_neg (by simpa using left)
      have ahead : later < front + window := sub_lt_iff_lt_add.mp (not_le.mp left)
      rw [stays, fullUntil]
      split
      · rw [List.head?_cons, Option.map_some, Option.filter_some_pos (by simpa using ahead)]
      · rfl

end SlidingWindow
