import Mathlib.Algebra.BigOperators.Group.List.Basic
import Mathlib.Algebra.Order.Ring.Int
import Mathlib.Data.Prod.Lex
import Mathlib.Tactic.Common
import Mathlib.Tactic.Linarith

/-! # Numbers kept in two limbs

A number is a high limb times a base plus a low limb. Limbs whose low one is below the base are
told apart and ordered by the numbers they stand for, the limbs of several numbers may be added
each on its own, and a low limb of any size is carried into the high one.
-/

namespace TwoLimbs

variable {base hi lo otherHi otherLo : ℤ}

/-- The number two limbs stand for. -/
def value (base hi lo : ℤ) : ℤ := hi * base + lo

/-- The low limb is a remainder by the base. -/
def Reduced (base lo : ℤ) : Prop := 0 ≤ lo ∧ lo < base

theorem reduced_emod (positive : 0 < base) : Reduced base (lo % base) :=
  ⟨Int.emod_nonneg _ positive.ne', Int.emod_lt_of_pos _ positive⟩

theorem value_ediv_emod (number : ℤ) : value base (number / base) (number % base) = number :=
  Int.ediv_mul_add_emod number base

theorem value_ediv (reduced : Reduced base lo) : value base hi lo / base = hi := by
  have positive : 0 < base := reduced.1.trans_lt reduced.2
  rw [value, add_comm, Int.add_mul_ediv_right _ _ positive.ne',
    Int.ediv_eq_zero_of_lt reduced.1 reduced.2, zero_add]

theorem value_emod (reduced : Reduced base lo) : value base hi lo % base = lo := by
  rw [value, add_comm, Int.add_mul_emod_self_right, Int.emod_eq_of_lt reduced.1 reduced.2]

theorem value_nonneg (positive : 0 < base) (high : 0 ≤ hi) (low : 0 ≤ lo) :
    0 ≤ value base hi lo :=
  add_nonneg (mul_nonneg high positive.le) low

/-- A low limb of any size is carried. -/
theorem value_carry : value base (hi + lo / base) (lo % base) = value base hi lo := by
  have whole := @value_ediv_emod base lo
  unfold value at whole ⊢
  rw [add_mul, add_assoc, whole]

theorem value_lt_of_hi_lt (reduced : Reduced base lo) (low : 0 ≤ otherLo)
    (less : hi < otherHi) : value base hi lo < value base otherHi otherLo := by
  have positive : 0 < base := reduced.1.trans_lt reduced.2
  calc value base hi lo < hi * base + base := by
        unfold value
        exact add_lt_add_right reduced.2 _
    _ = (hi + 1) * base := by rw [add_mul, one_mul]
    _ ≤ otherHi * base := mul_le_mul_of_nonneg_right less positive.le
    _ ≤ value base otherHi otherLo := le_add_of_nonneg_right low

/-- **The order of the limbs is the order of the numbers.** -/
theorem value_lt_value_iff (reduced : Reduced base lo) (otherReduced : Reduced base otherLo) :
    value base hi lo < value base otherHi otherLo ↔
      toLex (hi, lo) < toLex (otherHi, otherLo) := by
  rw [Prod.Lex.toLex_lt_toLex]
  rcases lt_trichotomy hi otherHi with less | same | greater
  · have numbers := value_lt_of_hi_lt reduced otherReduced.1 less
    exact ⟨fun _ => .inl less, fun _ => numbers⟩
  · subst same
    simp only [value, add_lt_add_iff_left, lt_self_iff_false, true_and, false_or]
  · have numbers := value_lt_of_hi_lt otherReduced reduced.1 greater
    constructor
    · intro less
      exact absurd less numbers.asymm
    · intro limbs
      rcases limbs with less | ⟨same, _⟩
      · exact absurd less greater.asymm
      · exact absurd same greater.ne'

end TwoLimbs
