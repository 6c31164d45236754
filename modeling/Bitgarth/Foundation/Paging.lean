import Mathlib.Order.OrderDual
import Bitgarth.Foundation.Fallible
import Bitgarth.Foundation.RowSelection

/-! # Pages of ordered rows

A query that orders its rows and takes a page by an offset reads all of them page by page
(`flatMap_slice`). Two keys give one order exactly when they compare every two rows alike
(`insertionSort_eq_iff`).
-/

namespace Paging

open Fallible RowSelection

universe u

variable {α κ μ : Type*} {rows : List α}

/-- The rows of one page, counted from zero. -/
def slice (size : ℕ) (rows : List α) (index : ℕ) : List α :=
  (rows.drop (index * size)).take size

/-- The first pages together are the first rows. -/
theorem flatMap_slice (size count : ℕ) (rows : List α) :
    (List.range count).flatMap (slice size rows) = rows.take (count * size) := by
  induction count with
  | zero => simp
  | succ count ih =>
    rw [List.range_succ, List.flatMap_append, ih, List.flatMap_singleton, slice,
      Nat.succ_mul, List.take_add]

/-- Reading chunk after chunk reads all of them, where a chunk's result holds what was read. -/
theorem mapM_chunks {ι : Type*} {β ρ ε : Type u} {read : α → Except ε β} {part : ι → List α}
    {step : ι → Except ε ρ} {held : ρ → List β} {chunks : List ι} {results : List β}
    (reads : ∀ chunk ∈ chunks, ∀ found,
      (∃ result, step chunk = .ok result ∧ held result = found) ↔
        (part chunk).mapM read = .ok found) :
    (∃ pages, chunks.mapM step = .ok pages ∧ pages.flatMap held = results) ↔
      (chunks.flatMap part).mapM read = .ok results := by
  induction chunks generalizing results with
  | nil => simp [pure, Except.pure]
  | cons chunk rest ih =>
    have here := reads chunk List.mem_cons_self
    have tail := fun found => @ih found fun other member =>
      reads other (List.mem_cons_of_mem _ member)
    rw [List.flatMap_cons, List.mapM_append, bind_eq_ok]
    constructor
    · rintro ⟨pages, done, whole⟩
      rw [List.mapM_cons] at done
      obtain ⟨first, isFirst, done⟩ := bind_eq_ok.mp done
      obtain ⟨others, isOthers, done⟩ := bind_eq_ok.mp done
      rw [pure_eq_ok] at done
      subst done
      refine ⟨held first, (here _).mp ⟨first, isFirst, rfl⟩, ?_⟩
      rw [(tail _).mp ⟨others, isOthers, rfl⟩]
      exact congrArg Except.ok whole
    · rintro ⟨front, isFront, done⟩
      obtain ⟨back, isBack, done⟩ := bind_eq_ok.mp done
      rw [pure_eq_ok] at done
      obtain ⟨first, isFirst, rfl⟩ := (here _).mpr isFront
      obtain ⟨others, isOthers, rfl⟩ := (tail _).mpr isBack
      refine ⟨first :: others, ?_, done⟩
      rw [List.mapM_cons, isFirst, isOthers]
      rfl

section Orders

variable [LinearOrder κ] [LinearOrder μ] {key : α → κ} {other : α → μ}

/-- A descending order is the ascending one reversed. -/
theorem insertionSort_descending (distinct : (rows.map key).Nodup) :
    (rows.insertionSort fun left right => key right ≤ key left) =
      (rows.insertionSort fun left right => key left ≤ key right).reverse := by
  refine @insertionSort_eq α κᵒᵈ _ (OrderDual.toDual ∘ key) rows _ ?_ ?_
  · exact (List.reverse_perm _).trans (List.perm_insertionSort _ _)
  · exact List.pairwise_reverse.mpr (insertionSort_ascending distinct)

omit [LinearOrder κ] [LinearOrder μ] in
/-- What ascends by two keys compares alike by both. -/
theorem lt_of_pairwise_lt [Preorder κ] [Preorder μ]
    (ascending : rows.Pairwise fun left right => key left < key right)
    (otherAscending : rows.Pairwise fun left right => other left < other right)
    {left right : α} (isLeft : left ∈ rows) (isRight : right ∈ rows) (less : key left < key right) :
    other left < other right := by
  obtain ⟨front, back, rfl⟩ := List.append_of_mem isLeft
  obtain ⟨-, after, before⟩ := List.pairwise_append.mp ascending
  obtain ⟨-, otherAfter, -⟩ := List.pairwise_append.mp otherAscending
  rcases List.mem_append.mp isRight with inFront | inBack
  · exact absurd less (before right inFront left List.mem_cons_self).asymm
  · rcases List.mem_cons.mp inBack with rfl | inBack
    · exact absurd less (lt_irrefl _)
    · exact (List.pairwise_cons.mp otherAfter).1 right inBack

/-- **Orders by two keys** that are distinct on the rows. -/
theorem insertionSort_eq_iff (distinct : (rows.map key).Nodup)
    (otherDistinct : (rows.map other).Nodup) :
    (rows.insertionSort fun left right => key left ≤ key right) =
        (rows.insertionSort fun left right => other left ≤ other right) ↔
      ∀ left ∈ rows, ∀ right ∈ rows, key left < key right ↔ other left < other right := by
  have perm := List.perm_insertionSort (fun left right => key left ≤ key right) rows
  have ascending := insertionSort_ascending distinct
  constructor
  · intro same left isLeft right isRight
    have otherAscending := insertionSort_ascending otherDistinct
    rw [← same] at otherAscending
    have leftSorted := perm.mem_iff.mpr isLeft
    have rightSorted := perm.mem_iff.mpr isRight
    exact ⟨lt_of_pairwise_lt ascending otherAscending leftSorted rightSorted,
      lt_of_pairwise_lt otherAscending ascending leftSorted rightSorted⟩
  · intro alike
    refine insertionSort_congr fun left isLeft right isRight => ?_
    rw [← not_lt, ← not_lt]
    exact not_congr (alike right isRight left isLeft)

end Orders

end Paging
