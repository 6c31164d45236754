import Mathlib.Control.Basic
import Mathlib.Tactic.Common

/-! # Outcomes of effectful programs

A program over a state either ends with a value or fails, and leaves a state in both cases.
`Ensures` gives a postcondition to each way of ending; the rules follow the program's structure.
-/

namespace Outcomes

universe u

variable {ε σ : Type u} {α β : Type u}

/-- From a state, a program ends with what meets `ok` or fails with what meets `failed`. -/
def Ensures (program : EStateM ε σ α) (state : σ) (ok : α → σ → Prop) (failed : ε → σ → Prop) :
    Prop :=
  match program state with
  | .ok value after => ok value after
  | .error error after => failed error after

variable {program : EStateM ε σ α} {state : σ} {ok ok' : α → σ → Prop}
  {failed failed' : ε → σ → Prop}

theorem Ensures.of_ok (ensured : Ensures program state ok failed) {value : α} {after : σ}
    (ran : program state = .ok value after) : ok value after := by
  simpa only [Ensures, ran] using ensured

/-- Postconditions may be weakened. -/
theorem Ensures.mono (ensured : Ensures program state ok failed)
    (ends : ∀ value after, ok value after → ok' value after)
    (fails : ∀ error after, failed error after → failed' error after) :
    Ensures program state ok' failed' := by
  unfold Ensures at *
  split at ensured
  · exact ends _ _ ensured
  · exact fails _ _ ensured

theorem ensures_pure {value : α} (met : ok value state) :
    Ensures (pure value : EStateM ε σ α) state ok failed := met

theorem bind_of_ok {first : EStateM ε σ β} {second : β → EStateM ε σ α} {value : β} {after : σ}
    (ran : first state = .ok value after) : (first >>= second) state = second value after := by
  show EStateM.bind first second state = _
  simp only [EStateM.bind, ran]

theorem bind_of_error {first : EStateM ε σ β} {second : β → EStateM ε σ α} {error : ε} {after : σ}
    (ran : first state = .error error after) : (first >>= second) state = .error error after := by
  show EStateM.bind first second state = _
  simp only [EStateM.bind, ran]

/-- Programs that run alike from a state go on alike. -/
theorem bind_eq_of_eq {first first' : EStateM ε σ β} {second : β → EStateM ε σ α}
    (alike : first state = first' state) :
    (first >>= second) state = (first' >>= second) state := by
  show EStateM.bind first second state = EStateM.bind first' second state
  simp only [EStateM.bind, alike]

/-- The rule of sequencing: the second program starts where the first one ends. -/
theorem ensures_bind {first : EStateM ε σ β} {second : β → EStateM ε σ α}
    {between : β → σ → Prop} (ensured : Ensures first state between failed)
    (next : ∀ value after, between value after → Ensures (second value) after ok failed) :
    Ensures (first >>= second) state ok failed := by
  unfold Ensures at ensured
  show Ensures (EStateM.bind first second) state ok failed
  unfold Ensures EStateM.bind
  cases ran : first state with
  | ok value after =>
    rw [ran] at ensured
    exact next value after ensured
  | error error after =>
    rw [ran] at ensured
    exact ensured

/-- Run a program and go on with how it ended. -/
def attempt {ε' : Type u} (program : EStateM ε σ α) : EStateM ε' σ (Except ε α) := fun state =>
  match program state with
  | .ok value after => .ok (.ok value) after
  | .error error after => .ok (.error error) after

theorem ensures_attempt {ε' : Type u} {ends : Except ε α → σ → Prop} {fails : ε' → σ → Prop}
    (ensured : Ensures program state (fun value => ends (.ok value))
      fun error => ends (.error error)) :
    Ensures (attempt program) state ends fails := by
  unfold Ensures attempt
  unfold Ensures at ensured
  cases ran : program state with
  | ok value after =>
    rw [ran] at ensured
    exact ensured
  | error error after =>
    rw [ran] at ensured
    exact ensured

theorem ensures_adaptExcept {ε' : Type u} {translate : ε → ε'} {fails : ε' → σ → Prop}
    (ensured : Ensures program state ok fun error => fails (translate error)) :
    Ensures (EStateM.adaptExcept translate program) state ok fails := by
  unfold Ensures EStateM.adaptExcept
  unfold Ensures at ensured
  cases ran : program state with
  | ok value after =>
    rw [ran] at ensured
    exact ensured
  | error error after =>
    rw [ran] at ensured
    exact ensured

/-- The rule of loops over a list whose steps compute: an invariant that each step keeps is kept,
and the results are those of the elements. -/
theorem ensures_mapM {step : β → EStateM ε σ α} {compute : β → α} {holds : σ → Prop}
    (items : List β)
    (each : ∀ item ∈ items, ∀ state, holds state →
      Ensures (step item) state (fun value after => value = compute item ∧ holds after) failed)
    (atStart : holds state) :
    Ensures (items.mapM step) state
      (fun values after => values = items.map compute ∧ holds after) failed := by
  induction items generalizing state with
  | nil =>
    rw [List.mapM_nil]
    exact ensures_pure ⟨rfl, atStart⟩
  | cons item rest ih =>
    rw [List.mapM_cons]
    refine ensures_bind (each item List.mem_cons_self state atStart) ?_
    rintro value after ⟨rfl, kept⟩
    refine ensures_bind (ih (fun later member => each later (List.mem_cons_of_mem _ member)) kept)
      ?_
    rintro values final ⟨rfl, keptFinally⟩
    exact ensures_pure ⟨rfl, keptFinally⟩

end Outcomes
