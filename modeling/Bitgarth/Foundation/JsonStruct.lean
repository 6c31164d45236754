import Mathlib.Data.Int.Basic
import Mathlib.Data.List.Basic
import Mathlib.Tactic.Common

/-! # Structures in JSON

Values of a parsed JSON text, and how the fields of a structure are read from an object: a field
may be required or optional, and an object with an unknown field may be refused.
-/

namespace JsonStruct

inductive Json where
  | null
  | bool (value : Bool)
  | number (value : ℤ)
  | string (value : String)
  | array (values : List Json)
  | object (entries : List (String × Json))

namespace Json

variable {α β : Type}

/-! ## Writing -/

/-- `null` for a value that is not there. -/
def ofOption (write : α → Json) : Option α → Json
  | none => null
  | some value => write value

/-! ## Reading -/

def asString : Json → Option String
  | string value => some value
  | _ => none

/-- A number of an unsigned type with a number of values. -/
def asUnsigned (size : ℕ) : Json → Option ℕ
  | number value => if 0 ≤ value ∧ value < size then some value.toNat else none
  | _ => none

/-- A value that `null` stands for the absence of. -/
def asOption (read : Json → Option α) : Json → Option (Option α)
  | null => some none
  | value => (read value).map some

def asList (read : Json → Option α) : Json → Option (List α)
  | array values => values.mapM read
  | _ => none

/-- The value of a key of an object. -/
def get? (key : String) : Json → Option Json
  | object entries => entries.lookup key
  | _ => none

/-- The entries of an object that has no field but those with a name of a list. -/
def knownFields (names : List String) : Json → Option (List (String × Json))
  | object entries => if entries.all fun entry => names.contains entry.1 then some entries else none
  | _ => none

def field (entries : List (String × Json)) (name : String) (read : Json → Option α) : Option α :=
  (entries.lookup name).bind read

/-- A field that may be missing. -/
def fieldOr (entries : List (String × Json)) (name : String) (default : α)
    (read : Json → Option α) : Option α :=
  match entries.lookup name with
  | none => some default
  | some value => read value

@[simp]
theorem asString_string (value : String) : (string value).asString = some value :=
  rfl

theorem asUnsigned_number {size value : ℕ} (fits : value < size) :
    (number value).asUnsigned size = some value := by
  rw [asUnsigned, if_pos ⟨Int.natCast_nonneg value, Int.ofNat_lt.mpr fits⟩, Int.toNat_natCast]

/-- An optional value is read as it was written. -/
theorem asOption_ofOption {read : Json → Option α} {write : β → Json} {value : Option β}
    {image : β → α} (reads : ∀ inner, read (write inner) = some (image inner))
    (notNull : ∀ inner, write inner ≠ null) :
    (ofOption write value).asOption read = some (value.map image) := by
  cases value with
  | none => rfl
  | some inner =>
    have unfolded : (write inner).asOption read = (read (write inner)).map some := by
      cases isWritten : write inner with
      | null => exact absurd isWritten (notNull inner)
      | _ => rfl
    rw [ofOption, unfolded, reads]
    rfl

/-- A list is read as it was written. -/
theorem asList_array {read : Json → Option α} {write : β → Json} {values : List β}
    {image : β → α} (reads : ∀ value ∈ values, read (write value) = some (image value)) :
    (array (values.map write)).asList read = some (values.map image) := by
  rw [asList]
  induction values with
  | nil => rfl
  | cons value rest ih =>
    rw [List.map_cons, List.mapM_cons, reads value List.mem_cons_self,
      ih fun other later => reads other (List.mem_cons_of_mem _ later)]
    rfl

end Json

end JsonStruct
