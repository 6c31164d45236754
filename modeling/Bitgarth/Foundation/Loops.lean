import Bitgarth.Foundation.Outcomes

/-! # Loops of effectful programs

A body goes on with another value or ends with a result. A loop runs its body for some turns at
most and fails with an error of its own where these run out; with an invariant and a measure that
every turn takes from, enough turns never run out.
-/

namespace Outcomes

universe u

variable {ε σ : Type u} {α β : Type u}

/-- Run a body until it ends with a result, for that many turns at most. -/
def loop (outOfTurns : ε) (body : β → EStateM ε σ (β ⊕ α)) : ℕ → β → EStateM ε σ α
  | 0, _ => throw outOfTurns
  | turns + 1, value => do
      match ← body value with
      | .inl next => loop outOfTurns body turns next
      | .inr result => return result

/-- The rule of loops: what holds at the head of every turn, and a measure that every turn which
does not end the loop takes from. -/
theorem ensures_loop {outOfTurns : ε} {body : β → EStateM ε σ (β ⊕ α)} {ok : α → σ → Prop}
    {failed : ε → σ → Prop} (holds : β → σ → Prop) (measure : β → ℕ)
    (each : ∀ value state, holds value state →
      Ensures (body value) state
        (fun ended after => match ended with
          | .inl next => holds next after ∧ measure next < measure value
          | .inr result => ok result after) failed)
    {turns : ℕ} {value : β} {state : σ} (enough : measure value < turns)
    (atStart : holds value state) :
    Ensures (loop outOfTurns body turns value) state ok failed := by
  induction turns generalizing value state with
  | zero => exact absurd enough (Nat.not_lt_zero _)
  | succ turns ih =>
    rw [loop]
    apply ensures_bind (each value state atStart)
    intro ended after met
    cases ended with
    | inl next => exact ih (by omega) met.1
    | inr result => exact ensures_pure met

/-- The element that a related result is of. -/
theorem exists_of_mem_of_forall₂ {related : β → α → Prop} {items : List β} {values : List α}
    (relatesAll : List.Forall₂ related items values) {value : α} (member : value ∈ values) :
    ∃ item ∈ items, related item value := by
  induction relatesAll with
  | nil => cases member
  | cons relates _ ih =>
    rcases List.mem_cons.mp member with rfl | later
    · exact ⟨_, .head _, relates⟩
    · obtain ⟨item, inside, found⟩ := ih later
      exact ⟨item, .tail _ inside, found⟩

/-- The rule of loops over a list whose steps relate each element to its result and keep an
invariant. -/
theorem ensures_mapM_forall₂ {step : β → EStateM ε σ α} {related : β → α → Prop}
    {holds : σ → Prop} {failed : ε → σ → Prop} {state : σ} (items : List β)
    (each : ∀ item ∈ items, ∀ state, holds state →
      Ensures (step item) state (fun value after => related item value ∧ holds after) failed)
    (atStart : holds state) :
    Ensures (items.mapM step) state
      (fun values after => List.Forall₂ related items values ∧ holds after) failed := by
  induction items generalizing state with
  | nil =>
    rw [List.mapM_nil]
    exact ensures_pure ⟨.nil, atStart⟩
  | cons item rest ih =>
    rw [List.mapM_cons]
    apply ensures_bind (each item (.head _) state atStart)
    rintro value after ⟨relates, kept⟩
    apply ensures_bind (ih (fun later member => each later (.tail _ member)) kept)
    rintro values final ⟨relatesAll, keptFinally⟩
    exact ensures_pure ⟨.cons relates relatesAll, keptFinally⟩

end Outcomes
