import Mathlib.Order.Lattice
import Mathlib.Tactic.Common

/-! # Merging lists

Merging with an operation that is commutative, associative and idempotent depends on which
values come in, not on their order or number.
-/

namespace MergeFold

variable {α : Type*}

/-- Merge the values of a list; nothing when there are none. -/
def mergeAll (merge : α → α → α) : List α → Option α
  | [] => none
  | first :: rest => some (rest.foldl merge first)

section Supremum

variable [SemilatticeSup α]

/-- A merged list is the least upper bound of its values. -/
theorem foldl_sup_le_iff {first bound : α} {rest : List α} :
    rest.foldl (· ⊔ ·) first ≤ bound ↔ ∀ value ∈ first :: rest, value ≤ bound := by
  induction rest generalizing first with
  | nil => simp
  | cons second rest ih =>
    rw [List.foldl_cons, ih]
    simp only [List.forall_mem_cons, sup_le_iff, and_assoc]

theorem mergeAll_sup_congr {left right : List α} (same : ∀ value, value ∈ left ↔ value ∈ right) :
    mergeAll (· ⊔ ·) left = mergeAll (· ⊔ ·) right := by
  cases left with
  | nil =>
    cases right with
    | nil => rfl
    | cons first rest => exact absurd ((same first).mpr List.mem_cons_self) List.not_mem_nil
  | cons first rest =>
    cases right with
    | nil => exact absurd ((same first).mp List.mem_cons_self) List.not_mem_nil
    | cons head tail =>
      have bounds : ∀ bound, rest.foldl (· ⊔ ·) first ≤ bound ↔
          tail.foldl (· ⊔ ·) head ≤ bound := by
        intro bound
        rw [foldl_sup_le_iff, foldl_sup_le_iff]
        exact forall_congr' fun value => by rw [same]
      exact congrArg some (eq_of_forall_ge_iff bounds)

end Supremum

variable {merge : α → α → α}

/-- Two lists of the same values merge alike. -/
theorem mergeAll_congr (comm : ∀ left right, merge left right = merge right left)
    (assoc : ∀ first second third,
      merge (merge first second) third = merge first (merge second third))
    (idem : ∀ value, merge value value = value) {left right : List α}
    (same : ∀ value, value ∈ left ↔ value ∈ right) :
    mergeAll merge left = mergeAll merge right :=
  let _ : Max α := ⟨merge⟩
  let _ : SemilatticeSup α := SemilatticeSup.mk' comm assoc idem
  mergeAll_sup_congr same

/-- A value merged with itself first changes nothing. -/
theorem foldl_cons_self (idem : ∀ value, merge value value = value) (first : α) (rest : List α) :
    (first :: rest).foldl merge first = rest.foldl merge first := by
  rw [List.foldl_cons, idem]

end MergeFold
