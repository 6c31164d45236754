import Mathlib.Algebra.Order.Ring.Int
import Mathlib.Data.List.Lex
import Mathlib.Tactic.Common

/-! # Numbers in texts of a fixed width

Digits of a fixed number compare as texts the way the numbers compare. `Aligned.field` carries
this from one field to the next, most significant first, and `readField_field` reads the
fields back.
-/

namespace FixedWidth

def digit (number : ℕ) : Char := Char.ofNat (48 + number % 10)

/-- The last `width` decimal digits of a number. -/
def digits : ℕ → ℕ → List Char
  | 0, _ => []
  | width + 1, number => digits width (number / 10) ++ [digit number]

/-- The number that a text of decimal digits stands for. -/
def value (text : List Char) : ℕ :=
  text.foldl (fun total character => 10 * total + (character.toNat - 48)) 0

@[simp] theorem length_digits (width number : ℕ) : (digits width number).length = width := by
  induction width generalizing number with
  | zero => rfl
  | succ width ih => rw [digits, List.length_append, ih, List.length_singleton]

theorem toNat_digit (number : ℕ) : (digit number).toNat = 48 + number % 10 := by
  have each : ∀ remainder < 10, (Char.ofNat (48 + remainder)).toNat = 48 + remainder := by decide
  exact each _ (Nat.mod_lt _ (by decide))

theorem digit_lt_digit {lower upper : ℕ} (less : lower % 10 < upper % 10) :
    digit lower < digit upper := by
  have order : (digit lower).toNat < (digit upper).toNat := by
    rw [toNat_digit, toNat_digit]
    omega
  exact order

theorem value_digits {width number : ℕ} (fits : number < 10 ^ width) :
    value (digits width number) = number := by
  induction width generalizing number with
  | zero =>
    have zero : number = 0 := by simpa using fits
    rw [zero]
    rfl
  | succ width ih =>
    have smaller : number / 10 < 10 ^ width := by
      rw [Nat.div_lt_iff_lt_mul (by decide)]
      rwa [pow_succ] at fits
    have read := ih smaller
    unfold value at read ⊢
    rw [digits, List.foldl_append, read, List.foldl_cons, List.foldl_nil, toNat_digit]
    omega

/-- Of two texts of one length the first that is less stays less, whatever follows. -/
theorem append_lt_append {left right : List Char} (less : left < right)
    (length : left.length = right.length) (leftRest rightRest : List Char) :
    left ++ leftRest < right ++ rightRest := by
  induction less with
  | nil => exact absurd length (by simp)
  | rel less => exact .rel less
  | cons _ ih => exact .cons (ih (Nat.succ.inj length))

theorem digits_lt_digits {width lower upper : ℕ} (less : lower < upper)
    (fits : upper < 10 ^ width) : digits width lower < digits width upper := by
  induction width generalizing lower upper with
  | zero =>
    rw [pow_zero] at fits
    omega
  | succ width ih =>
    have smaller : upper / 10 < 10 ^ width := by
      rw [Nat.div_lt_iff_lt_mul (by decide)]
      rwa [pow_succ] at fits
    rw [digits, digits]
    rcases lt_or_eq_of_le (Nat.div_le_div_right (c := 10) less.le) with leading | leading
    · exact append_lt_append (ih leading smaller) (by simp) _ _
    · rw [leading]
      refine List.append_left_lt (.rel (digit_lt_digit ?_))
      omega

/-- Texts of one length that compare the way their numbers do. -/
structure Aligned (valid : ℤ → Prop) (text : ℤ → List Char) (width : ℕ) : Prop where
  length_text : ∀ number, valid number → (text number).length = width
  text_lt_text : ∀ lower upper, valid lower → valid upper → lower < upper →
    text lower < text upper

/-- A number as its quotient by `radix`, a separator and its remainder. -/
def field (radix : ℤ) (width : ℕ) (separator : Char) (text : ℤ → List Char) (number : ℤ) :
    List Char :=
  text (number / radix) ++ separator :: digits width (number % radix).toNat

/-- The quotient's text read, and then the remainder's. -/
def readField (radix : ℤ) (width : ℕ) (read : List Char → ℤ) (text : List Char) : ℤ :=
  read (text.take (text.length - (width + 1))) * radix +
    value (text.drop (text.length - width))

variable {radix : ℤ} {width : ℕ} {separator : Char} {text : ℤ → List Char}
  {valid : ℤ → Prop} {quotientWidth : ℕ}

theorem remainder_fits (positive : 0 < radix) (fits : radix ≤ 10 ^ width) (number : ℤ) :
    (number % radix).toNat < 10 ^ width := by
  have nonnegative := Int.emod_nonneg number positive.ne'
  have less := lt_of_lt_of_le (Int.emod_lt_of_pos number positive) fits
  have cast : ((number % radix).toNat : ℤ) < 10 ^ width := by
    rwa [Int.toNat_of_nonneg nonnegative]
  exact_mod_cast cast

theorem Aligned.field (aligned : Aligned valid text quotientWidth) (positive : 0 < radix)
    (fits : radix ≤ 10 ^ width) :
    Aligned (fun number => valid (number / radix)) (field radix width separator text)
      (quotientWidth + (width + 1)) where
  length_text number isValid := by
    rw [FixedWidth.field, List.length_append, aligned.length_text _ isValid,
      List.length_cons, length_digits]
  text_lt_text lower upper lowerValid upperValid less := by
    have lengths := (aligned.length_text _ lowerValid).trans
      (aligned.length_text _ upperValid).symm
    unfold FixedWidth.field
    rcases lt_or_eq_of_le (Int.ediv_le_ediv positive less.le) with leading | leading
    · exact append_lt_append (aligned.text_lt_text _ _ lowerValid upperValid leading) lengths _ _
    · rw [leading]
      refine List.append_left_lt (.cons (digits_lt_digits ?_ (remainder_fits positive fits _)))
      have lowerSplit := Int.mul_ediv_add_emod lower radix
      have upperSplit := Int.mul_ediv_add_emod upper radix
      have nonnegative := Int.emod_nonneg lower positive.ne'
      rw [leading] at lowerSplit
      omega

theorem readField_field {read : List Char → ℤ} {number : ℤ}
    (positive : 0 < radix) (fits : radix ≤ 10 ^ width)
    (quotient : read (text (number / radix)) = number / radix) :
    readField radix width read (field radix width separator text number) = number := by
  have nonnegative := Int.emod_nonneg number positive.ne'
  have split := Int.ediv_mul_add_emod number radix
  unfold readField field
  have size : ((text (number / radix)) ++ separator ::
      digits width (number % radix).toNat).length =
        (text (number / radix)).length + 1 + width := by
    rw [List.length_append, List.length_cons, length_digits]
    omega
  have front : (text (number / radix)).length + 1 + width - (width + 1) =
      (text (number / radix)).length := by omega
  have back : (text (number / radix)).length + 1 + width - width =
      (text (number / radix)).length + 1 := by omega
  rw [size, front, back, List.take_left, List.drop_append, List.drop_eq_nil_of_le (by omega),
    List.nil_append, Nat.add_sub_cancel_left, List.drop_one, List.tail_cons,
    value_digits (remainder_fits positive fits number), quotient,
    Int.toNat_of_nonneg nonnegative, split]

end FixedWidth
