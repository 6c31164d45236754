import Bitgarth.Foundation.RowSelection

/-! # Running totals over a list

`EachTotal` states a property of every element of a list together with the running
total at it. `eachTotal_insertionSort_iff` follows the totals through a stable sort: an
element is preceded by the earlier ones with no greater key and the later ones with a
smaller key.
-/

namespace RunningTotal

open RowSelection

variable {α κ : Type*}

/-- Every element satisfies `holds` with the running total, from `start`, that includes it. -/
def EachTotal (amount : α → ℤ) (holds : α → ℤ → Prop) : ℤ → List α → Prop
  | _, [] => True
  | start, row :: rest =>
    holds row (start + amount row) ∧ EachTotal amount holds (start + amount row) rest

instance decidableEachTotal {amount : α → ℤ} {holds : α → ℤ → Prop}
    [∀ row total, Decidable (holds row total)] :
    (start : ℤ) → (rows : List α) → Decidable (EachTotal amount holds start rows)
  | _, [] => inferInstanceAs (Decidable True)
  | start, row :: rest =>
    have : Decidable (EachTotal amount holds (start + amount row) rest) :=
      decidableEachTotal (start + amount row) rest
    inferInstanceAs (Decidable (_ ∧ _))

section Totals

variable {amount : α → ℤ} {holds other : α → ℤ → Prop} {start : ℤ} {rows left right : List α}

theorem eachTotal_congr (same : ∀ row ∈ rows, ∀ total, holds row total ↔ other row total) :
    EachTotal amount holds start rows ↔ EachTotal amount other start rows := by
  induction rows generalizing start with
  | nil => exact Iff.rfl
  | cons row rest ih =>
    rw [EachTotal, EachTotal, same row List.mem_cons_self]
    exact and_congr_right fun _ => ih fun later member => same later (List.mem_cons_of_mem _ member)

/-- Starting higher raises every total. -/
theorem eachTotal_shift (offset : ℤ) :
    EachTotal amount (fun row total => holds row (total + offset)) start rows ↔
      EachTotal amount holds (start + offset) rows := by
  induction rows generalizing start with
  | nil => exact Iff.rfl
  | cons row rest ih =>
    rw [EachTotal, EachTotal, ih, add_right_comm]

end Totals

section Sorted

variable [LinearOrder κ] {amount : α → ℤ} {holds : α → ℤ → Prop} {start : ℤ} {rows : List α}
  {key : α → κ}

/-- Inserting an element adds its amount to the totals of all elements with no smaller key. -/
theorem eachTotal_orderedInsert {row : α}
    (sorted : rows.Pairwise fun left right => key left ≤ key right) :
    EachTotal amount holds start
        (rows.orderedInsert (fun left right => key left ≤ key right) row) ↔
      holds row (start + sumWhere (fun other => key other < key row) amount rows + amount row) ∧
        EachTotal amount (fun other total =>
          holds other (total + if key row ≤ key other then amount row else 0)) start rows := by
  induction rows generalizing start with
  | nil => simp [EachTotal]
  | cons first rest ih =>
    obtain ⟨least, restSorted⟩ := List.pairwise_cons.mp sorted
    by_cases before : key row ≤ key first
    · have above : ∀ other ∈ first :: rest, key row ≤ key other := by
        intro other member
        rcases List.mem_cons.mp member with rfl | later
        · exact before
        · exact before.trans (least other later)
      have nothing : sumWhere (fun other => key other < key row) amount (first :: rest) = 0 :=
        sumWhere_of_forall_not fun other member => not_lt.mpr (above other member)
      rw [List.orderedInsert_cons, if_pos before, nothing, add_zero, EachTotal,
        ← eachTotal_shift]
      refine and_congr_right fun _ => eachTotal_congr fun other member total => ?_
      rw [if_pos (above other member)]
    · have smaller : sumWhere (fun other => key other < key row) amount (first :: rest) =
          amount first + sumWhere (fun other => key other < key row) amount rest :=
        sumWhere_cons_of_pos (not_le.mp before)
      rw [List.orderedInsert_cons, if_neg before, EachTotal, EachTotal, ih restSorted, smaller,
        if_neg before, add_zero, ← add_assoc, and_left_comm]

/-- **Running totals through a stable sort.** -/
theorem eachTotal_insertionSort_iff :
    EachTotal amount holds start (rows.insertionSort fun left right => key left ≤ key right) ↔
      ∀ before row after, rows = before ++ row :: after →
        holds row (start + sumWhere (fun other => key other ≤ key row) amount before +
          amount row + sumWhere (fun other => key other < key row) amount after) := by
  induction rows generalizing holds with
  | nil => simp [EachTotal]
  | cons first rest ih =>
    rw [List.insertionSort_cons, eachTotal_orderedInsert (insertionSort_sorted key rest), ih,
      forall_split_cons, sumWhere_perm (List.perm_insertionSort _ rest), sumWhere_nil, add_zero,
      add_right_comm]
    refine and_congr_right fun _ => forall₄_congr fun before row after _ => ?_
    by_cases upto : key first ≤ key row
    · have counted : sumWhere (fun other => key other ≤ key row) amount (first :: before) =
          amount first + sumWhere (fun other => key other ≤ key row) amount before :=
        sumWhere_cons_of_pos upto
      rw [if_pos upto, counted]
      apply Eq.to_iff
      congr 1
      omega
    · have passed : sumWhere (fun other => key other ≤ key row) amount (first :: before) =
          sumWhere (fun other => key other ≤ key row) amount before :=
        sumWhere_cons_of_neg upto
      rw [if_neg upto, passed, add_zero]

end Sorted

end RunningTotal
