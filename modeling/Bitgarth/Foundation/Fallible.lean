import Mathlib.Data.List.Perm.Basic
import Mathlib.Tactic.Common

/-! # Fallible computations

A sequence of fallible steps succeeds exactly when each step does; these lemmas take
a successful run apart without unfolding the steps.
-/

namespace Fallible

universe u

variable {ε : Type*} {α β : Type u}

theorem bind_eq_ok {first : Except ε α} {next : α → Except ε β} {result : β} :
    (first >>= next) = .ok result ↔ ∃ value, first = .ok value ∧ next value = .ok result := by
  cases first with
  | error err => simp [bind, Except.bind]
  | ok value => simp [bind, Except.bind]

@[simp]
theorem pure_eq_ok {value result : α} :
    (pure value : Except ε α) = .ok result ↔ value = result := by
  simp [pure, Except.pure]

theorem mapError_eq_ok {ε' : Type*} {first : Except ε α} {translate : ε → ε'} {result : α} :
    first.mapError translate = .ok result ↔ first = .ok result := by
  cases first with
  | error err => simp [Except.mapError]
  | ok value => simp [Except.mapError]

theorem map_eq_ok {first : Except ε α} {next : α → β} {result : β} :
    first.map next = .ok result ↔ ∃ value, first = .ok value ∧ next value = result := by
  cases first with
  | error err => simp [Except.map]
  | ok value => simp [Except.map]

theorem map_bind {γ : Type u} {first : Except ε α} {next : α → Except ε β} {result : β → γ} :
    (first >>= next).map result = (first >>= fun value => (next value).map result) := by
  cases first with
  | error err => rfl
  | ok value => rfl

theorem toOption_eq_some {first : Except ε α} {result : α} :
    first.toOption = some result ↔ first = .ok result := by
  cases first with
  | error err => simp [Except.toOption]
  | ok value => simp [Except.toOption]

/-- When every step over a list succeeds, inputs and results match up. -/
theorem mem_of_mapM_eq_ok {step : α → Except ε β} {inputs : List α} {results : List β}
    (done : inputs.mapM step = .ok results) :
    (∀ input ∈ inputs, ∃ result ∈ results, step input = .ok result) ∧
      ∀ result ∈ results, ∃ input ∈ inputs, step input = .ok result := by
  induction inputs generalizing results with
  | nil =>
    simp only [List.mapM_nil, pure_eq_ok] at done
    subst done
    simp
  | cons input rest ih =>
    rw [List.mapM_cons] at done
    obtain ⟨first, head, done⟩ := bind_eq_ok.mp done
    obtain ⟨later, tail, done⟩ := bind_eq_ok.mp done
    rw [pure_eq_ok] at done
    subst done
    obtain ⟨forward, backward⟩ := ih tail
    simp only [List.mem_cons, forall_eq_or_imp, exists_eq_or_imp]
    refine ⟨⟨.inl head, fun other member => .inr (forward other member)⟩, .inl head,
      fun result member => .inr (backward result member)⟩

/-- Results that remember something of their inputs list it in order. -/
theorem map_eq_of_mapM_eq_ok {γ : Type*} {step : α → Except ε β} {left : α → γ} {right : β → γ}
    {inputs : List α} {results : List β} (done : inputs.mapM step = .ok results)
    (remembers : ∀ input result, step input = .ok result → right result = left input) :
    results.map right = inputs.map left := by
  induction inputs generalizing results with
  | nil =>
    simp only [List.mapM_nil, pure_eq_ok] at done
    rw [← done, List.map_nil, List.map_nil]
  | cons input rest ih =>
    rw [List.mapM_cons] at done
    obtain ⟨first, head, done⟩ := bind_eq_ok.mp done
    obtain ⟨later, tail, done⟩ := bind_eq_ok.mp done
    rw [pure_eq_ok] at done
    rw [← done, List.map_cons, List.map_cons, remembers input first head, ih tail]

/-- Results that remember their inputs list them in order. -/
theorem map_of_mapM_eq_ok {step : α → Except ε β} {restore : β → α} {inputs : List α}
    {results : List β} (done : inputs.mapM step = .ok results)
    (inverts : ∀ input result, step input = .ok result → restore result = input) :
    results.map restore = inputs := by
  have inOrder : results.map restore = inputs.map id := map_eq_of_mapM_eq_ok done inverts
  rw [inOrder, List.map_id]

/-- Steps over a list succeed with the results of each. -/
theorem mapM_eq_ok_iff_forall₂ {step : α → Except ε β} {inputs : List α} {results : List β} :
    inputs.mapM step = .ok results ↔
      List.Forall₂ (fun input result => step input = .ok result) inputs results := by
  induction inputs generalizing results with
  | nil =>
    rw [List.mapM_nil, pure_eq_ok, List.forall₂_nil_left_iff, eq_comm]
  | cons input rest ih =>
    rw [List.mapM_cons, bind_eq_ok, List.forall₂_cons_left_iff]
    simp only [bind_eq_ok, pure_eq_ok, ih]
    constructor
    · rintro ⟨first, head, later, tail, whole⟩
      exact ⟨first, later, head, tail, whole.symm⟩
    · rintro ⟨first, later, head, tail, whole⟩
      exact ⟨first, head, later, tail, whole.symm⟩

/-- Steps over a rearranged list succeed with the results rearranged. -/
theorem perm_of_mapM_eq_ok {step : α → Except ε β} {inputs other : List α} {results : List β}
    (perm : inputs.Perm other) (done : inputs.mapM step = .ok results) :
    ∃ otherResults, other.mapM step = .ok otherResults ∧ results.Perm otherResults := by
  obtain ⟨otherResults, each, sameResults⟩ :=
    List.perm_comp_forall₂ perm.symm (mapM_eq_ok_iff_forall₂.mp done)
  exact ⟨otherResults, mapM_eq_ok_iff_forall₂.mpr each, sameResults.symm⟩

theorem length_of_mapM_eq_ok {step : α → Except ε β} {inputs : List α} {results : List β}
    (done : inputs.mapM step = .ok results) : results.length = inputs.length := by
  have inOrder : results.map (fun _ => ()) = inputs.map (fun _ => ()) :=
    map_eq_of_mapM_eq_ok done fun _ _ _ => rfl
  simpa only [List.length_map] using congrArg List.length inOrder

theorem mapM_congr {step other : α → Except ε β} {inputs : List α}
    (same : ∀ input ∈ inputs, step input = other input) :
    inputs.mapM step = inputs.mapM other := by
  induction inputs with
  | nil => rfl
  | cons input rest ih =>
    rw [List.mapM_cons, List.mapM_cons, same input List.mem_cons_self,
      ih fun later member => same later (List.mem_cons_of_mem _ member)]

/-- Steps whose results look the same give results that look the same. -/
theorem map_mapM_congr {γ : Type u} {step other : α → Except ε β} {view : β → γ}
    {inputs : List α} (same : ∀ input ∈ inputs, (step input).map view = (other input).map view) :
    (inputs.mapM step).map (List.map view) = (inputs.mapM other).map (List.map view) := by
  induction inputs with
  | nil => rfl
  | cons input rest ih =>
    have first := same input List.mem_cons_self
    have later := ih fun later member => same later (List.mem_cons_of_mem _ member)
    rw [List.mapM_cons, List.mapM_cons]
    cases left : step input <;> cases right : other input <;> rw [left, right] at first
    · exact congrArg Except.error (Except.error.inj first)
    · cases first
    · cases first
    · cases leftRest : rest.mapM step <;> cases rightRest : rest.mapM other <;>
        rw [leftRest, rightRest] at later
      · exact congrArg Except.error (Except.error.inj later)
      · cases later
      · cases later
      · have head := Except.ok.inj first
        have tail := Except.ok.inj later
        exact congrArg Except.ok (congrArg₂ List.cons head tail)

theorem mapM_eq_ok_map {step : α → Except ε β} {result : α → β} {inputs : List α}
    (done : ∀ input ∈ inputs, step input = .ok (result input)) :
    inputs.mapM step = .ok (inputs.map result) := by
  induction inputs with
  | nil => rfl
  | cons input rest ih =>
    rw [List.mapM_cons, done input List.mem_cons_self,
      ih fun other later => done other (List.mem_cons_of_mem _ later)]
    rfl

theorem exists_bind_eq_ok {first : Except ε α} {next : α → Except ε β} :
    (∃ result, (first >>= next) = .ok result) ↔
      ∃ value, first = .ok value ∧ ∃ result, next value = .ok result := by
  simp only [bind_eq_ok]
  constructor
  · rintro ⟨result, value, done, later⟩
    exact ⟨value, done, result, later⟩
  · rintro ⟨value, done, result, later⟩
    exact ⟨result, value, done, later⟩

/-- A list of fallible steps succeeds exactly when each step does. -/
theorem exists_mapM_eq_ok {step : α → Except ε β} {inputs : List α} :
    (∃ results, inputs.mapM step = .ok results) ↔
      ∀ input ∈ inputs, ∃ result, step input = .ok result := by
  induction inputs with
  | nil => simp [pure, Except.pure]
  | cons input rest ih =>
    rw [List.mapM_cons, exists_bind_eq_ok, List.forall_mem_cons, ← ih]
    simp only [exists_bind_eq_ok, pure_eq_ok, exists_eq', and_true]
    constructor
    · rintro ⟨value, first, later⟩
      exact ⟨⟨value, first⟩, later⟩
    · rintro ⟨⟨value, first⟩, later⟩
      exact ⟨value, first, later⟩

/-- A fold of fallible steps succeeds exactly when each item is accepted. -/
theorem foldlM_eq_ok (step : β → α → Except ε β) {accepted : α → Prop} (write : β → α → β)
    (stepOk : ∀ state item next, step state item = .ok next ↔
      accepted item ∧ write state item = next) {items : List α} {start final : β} :
    items.foldlM step start = .ok final ↔
      (∀ item ∈ items, accepted item) ∧ items.foldl write start = final := by
  induction items generalizing start with
  | nil => simp
  | cons item rest ih =>
    rw [List.foldlM_cons, bind_eq_ok, List.foldl_cons, List.forall_mem_cons, and_assoc]
    constructor
    · rintro ⟨next, first, later⟩
      obtain ⟨fine, rfl⟩ := (stepOk start item next).mp first
      exact ⟨fine, ih.mp later⟩
    · rintro ⟨fine, later⟩
      exact ⟨write start item, (stepOk start item _).mpr ⟨fine, rfl⟩, ih.mpr later⟩

/-- What each step of a fold keeps, about the items handled so far, holds at the end. -/
theorem foldlM_invariant {step : β → α → Except ε β} (holds : List α → β → Prop)
    (keeps : ∀ handled item state next, holds handled state → step state item = .ok next →
      holds (handled ++ [item]) next) {items : List α} {start final : β}
    (done : items.foldlM step start = .ok final) (atStart : holds [] start) :
    holds items final := by
  have general : ∀ (items handled : List α) (start : β), items.foldlM step start = .ok final →
      holds handled start → holds (handled ++ items) final := by
    intro items
    induction items with
    | nil =>
      intro handled start done atStart
      rw [List.foldlM_nil, pure_eq_ok] at done
      rw [List.append_nil, ← done]
      exact atStart
    | cons item rest ih =>
      intro handled start done atStart
      rw [List.foldlM_cons] at done
      obtain ⟨next, first, later⟩ := bind_eq_ok.mp done
      have advanced := ih (handled ++ [item]) next later
        (keeps handled item start next atStart first)
      rwa [List.append_assoc] at advanced
  exact general items [] start done atStart

end Fallible
