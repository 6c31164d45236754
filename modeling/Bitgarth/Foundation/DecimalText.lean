import Bitgarth.Foundation.SplitText
import Mathlib

/-! # Decimal texts

A decimal text is an optional minus sign and digits, with a point and more digits after it or
not. `read` gives the exact number it stands for; `readUnsigned_point` is what a point does to
the number its digits spell.
-/

namespace DecimalText

open SplitText

attribute [local instance] List.decidableBAll

/-- The number one or more digits spell. -/
def readDigits (text : List Char) : Option ℕ :=
  if text ≠ [] ∧ ∀ character ∈ text, character.isDigit = true then
    some (Nat.ofDigitChars 10 text 0)
  else
    none

/-- The number of digits with or without a point. -/
def readUnsigned (text : List Char) : Option ℚ :=
  match splitOnce '.' text with
  | none => (readDigits text).map (Nat.cast : ℕ → ℚ)
  | some (whole, fraction) => do
      let number ← readDigits whole
      let part ← readDigits fraction
      return number + part / 10 ^ fraction.length

/-- The number of a decimal text. -/
def read : List Char → Option ℚ
  | '-' :: text => (readUnsigned text).map fun number => -number
  | text => readUnsigned text

/-- One or more digits. -/
def Digits (text : List Char) : Prop :=
  text ≠ [] ∧ ∀ character ∈ text, character.isDigit = true

variable {text more whole fraction : List Char}

theorem digits_toDigits (number : ℕ) : Digits (Nat.toDigits 10 number) :=
  ⟨Nat.toDigits_ne_nil, fun _ member => Nat.isDigit_of_mem_toDigits (by decide) (by decide) member⟩

theorem digits_zeros_append (count : ℕ) (digits : Digits text) :
    Digits (List.replicate count '0' ++ text) := by
  refine ⟨List.append_ne_nil_of_right_ne_nil _ digits.1, ?_⟩
  intro character member
  rcases List.mem_append.mp member with zero | later
  · rw [List.eq_of_mem_replicate zero]
    rfl
  · exact digits.2 character later

theorem Digits.of_append (digits : Digits (text ++ more)) (some : text ≠ []) : Digits text :=
  ⟨some, fun character member => digits.2 character (List.mem_append_left _ member)⟩

theorem Digits.of_append_right (digits : Digits (text ++ more)) (some : more ≠ []) :
    Digits more :=
  ⟨some, fun character member => digits.2 character (List.mem_append_right _ member)⟩

theorem Digits.not_mem (digits : Digits text) {character : Char}
    (mark : character.isDigit = false) : character ∉ text := by
  intro member
  rw [digits.2 character member] at mark
  cases mark

theorem readDigits_of_digits (digits : Digits text) :
    readDigits text = some (Nat.ofDigitChars 10 text 0) :=
  if_pos digits

theorem readUnsigned_of_digits (digits : Digits text) :
    readUnsigned text = some (Nat.ofDigitChars 10 text 0 : ℚ) := by
  rw [readUnsigned, splitOnce_eq_none_iff.mpr (digits.not_mem rfl)]
  exact congrArg (Option.map Nat.cast) (readDigits_of_digits digits)

/-- **A point divides** the number its digits spell by a power of ten. -/
theorem readUnsigned_point (before : Digits whole) (after : Digits fraction) :
    readUnsigned (whole ++ '.' :: fraction) =
      some ((Nat.ofDigitChars 10 (whole ++ fraction) 0 : ℚ) / 10 ^ fraction.length) := by
  rw [readUnsigned, splitOnce_append_cons fraction (before.not_mem rfl)]
  simp only [readDigits_of_digits before, readDigits_of_digits after, Option.bind_eq_bind,
    Option.bind_some, Option.pure_def, Option.some.injEq]
  rw [Nat.ofDigitChars_append,
    @Nat.ofDigitChars_eq_ofDigitChars_zero fraction (Nat.ofDigitChars 10 whole 0)]
  push_cast
  field_simp

theorem read_neg (text : List Char) :
    read ('-' :: text) = (readUnsigned text).map fun number => -number :=
  rfl

/-- A text without a sign is read as it is. -/
theorem read_of_not_mem (unsigned : '-' ∉ text) : read text = readUnsigned text := by
  unfold read
  split
  · exact absurd List.mem_cons_self unsigned
  · rfl

end DecimalText
