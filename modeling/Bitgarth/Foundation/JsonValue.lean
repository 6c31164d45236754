import Mathlib.Data.Int.Basic
import Mathlib.Data.List.Basic
import Mathlib.Tactic.Common

/-! # Any JSON value

Values of a parsed JSON text with all its numbers, and how the fields of a structure are read from
an object by their names or from an array by their positions. `Value.modifyField` changes one field
of a structure in either form.
-/

namespace JsonValue

/-- A whole number that is not negative, one that is, or the bits of a floating-point number. -/
inductive Number where
  | posInt (value : UInt64)
  | negInt (value : ℤ)
  | float (bits : UInt64)
deriving DecidableEq, Repr

def Number.asU64 : Number → Option ℕ
  | posInt value => some value.toNat
  | _ => none

inductive Value where
  | null
  | bool (value : Bool)
  | number (value : Number)
  | string (value : String)
  | array (values : List Value)
  | object (entries : List (String × Value))

/-- Where the fields of a structure are. -/
inductive Fields where
  | named (entries : List (String × Value))
  | positional (values : List Value)

variable {α : Type}

namespace Value

/-! ## Reading -/

def asStr : Value → Option String
  | string value => some value
  | _ => none

def asBool : Value → Option Bool
  | bool value => some value
  | _ => none

def asArray : Value → Option (List Value)
  | array values => some values
  | _ => none

/-- A number of an unsigned type that has so many values. -/
def asUnsigned (size : ℕ) : Value → Option ℕ
  | number value => value.asU64.filter fun whole => decide (whole < size)
  | _ => none

/-- A value that `null` stands for the absence of. -/
def asOption (read : Value → Option α) : Value → Option (Option α)
  | null => some none
  | value => (read value).map some

def asList (read : Value → Option α) (value : Value) : Option (List α) :=
  value.asArray.bind fun values => values.mapM read

/-- The fields of a structure that has so many; an array may be short, not long. -/
def fields (count : ℕ) : Value → Option Fields
  | object entries => some (.named entries)
  | array values => if values.length ≤ count then some (.positional values) else none
  | _ => none

end Value

namespace Fields

def find (fields : Fields) (position : ℕ) (name : String) : Option Value :=
  match fields with
  | named entries => entries.lookup name
  | positional values => values[position]?

/-- A field that has to be there. -/
def required (fields : Fields) (position : ℕ) (name : String) (read : Value → Option α) :
    Option α :=
  (fields.find position name).bind read

/-- A field with a default. -/
def orDefault (fields : Fields) (position : ℕ) (name : String) (default : α)
    (read : Value → Option α) : Option α :=
  match fields.find position name with
  | none => some default
  | some value => read value

/-- A field of an optional type, which an object may leave out. -/
def optional (fields : Fields) (position : ℕ) (name : String) (read : Value → Option α) :
    Option (Option α) :=
  match fields.find position name, fields with
  | some value, _ => value.asOption read
  | none, named _ => some none
  | none, positional _ => none

/-- Change the value of a field. -/
def modify (position : ℕ) (name : String) (change : Value → Value) : Fields → Fields
  | named entries =>
    named (entries.map fun entry => if entry.1 = name then (entry.1, change entry.2) else entry)
  | positional values => positional (values.modify position change)

end Fields

/-- Change the value of a field of a structure. -/
def Value.modifyField (position : ℕ) (name : String) (change : Value → Value) : Value → Value
  | object entries =>
    object (entries.map fun entry => if entry.1 = name then (entry.1, change entry.2) else entry)
  | array values => array (values.modify position change)
  | value => value

section Modify

variable {fields : Fields} {position : ℕ} {name : String} {change : Value → Value}

theorem fields_modifyField (count : ℕ) (value : Value) :
    (value.modifyField position name change).fields count =
      (value.fields count).map (Fields.modify position name change) := by
  cases value with
  | object entries => rfl
  | array values =>
    simp only [Value.modifyField, Value.fields, List.length_modify]
    split <;> rfl
  | _ => rfl

theorem find_modify_self :
    (fields.modify position name change).find position name =
      (fields.find position name).map change := by
  cases fields with
  | positional values => simp [Fields.modify, Fields.find]
  | named entries =>
    simp only [Fields.modify, Fields.find]
    induction entries with
    | nil => rfl
    | cons entry later ih =>
      obtain ⟨key, value⟩ := entry
      by_cases same : key = name
      · simp [same]
      · have other : (name == key) = false := beq_false_of_ne (Ne.symm same)
        rw [List.map_cons, if_neg same, List.lookup_cons, List.lookup_cons, other]
        exact ih

theorem find_modify_of_ne {other : ℕ} {otherName : String} (apart : other ≠ position)
    (named : otherName ≠ name) :
    (fields.modify position name change).find other otherName = fields.find other otherName := by
  cases fields with
  | positional values => simp [Fields.modify, Fields.find, apart.symm]
  | named entries =>
    simp only [Fields.modify, Fields.find]
    induction entries with
    | nil => rfl
    | cons entry later ih =>
      obtain ⟨key, value⟩ := entry
      by_cases same : key = name
      · have different : (otherName == key) = false :=
          beq_false_of_ne fun isKey => named (isKey.trans same)
        rw [List.map_cons, if_pos same, List.lookup_cons, List.lookup_cons, different]
        exact ih
      · rw [List.map_cons, if_neg same, List.lookup_cons, List.lookup_cons, ih]

theorem required_modify_of_ne {other : ℕ} {otherName : String} {read : Value → Option α}
    (apart : other ≠ position) (named : otherName ≠ name) :
    (fields.modify position name change).required other otherName read =
      fields.required other otherName read := by
  rw [Fields.required, find_modify_of_ne apart named]
  rfl

theorem orDefault_modify_of_ne {other : ℕ} {otherName : String} {default : α}
    {read : Value → Option α} (apart : other ≠ position) (named : otherName ≠ name) :
    (fields.modify position name change).orDefault other otherName default read =
      fields.orDefault other otherName default read := by
  rw [Fields.orDefault, find_modify_of_ne apart named]
  rfl

theorem optional_modify_of_ne {other : ℕ} {otherName : String} {read : Value → Option α}
    (apart : other ≠ position) (named : otherName ≠ name) :
    (fields.modify position name change).optional other otherName read =
      fields.optional other otherName read := by
  unfold Fields.optional
  rw [find_modify_of_ne apart named]
  cases fields.find other otherName with
  | some value => rfl
  | none => cases fields <;> rfl

theorem required_modify_self {read : Value → Option α} :
    (fields.modify position name change).required position name read =
      fields.required position name fun value => read (change value) := by
  rw [Fields.required, find_modify_self, Option.bind_map]
  rfl

end Modify

end JsonValue
