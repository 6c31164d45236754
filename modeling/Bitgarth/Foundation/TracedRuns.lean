import Bitgarth.Foundation.Reachability
import Mathlib.Algebra.Order.BigOperators.Group.List
import Mathlib.Algebra.GroupWithZero.Nat

/-! # Traced runs

Runs that keep the steps they took, each with the state it was taken in, and the accounts of what
the steps gain and cost.
-/

namespace Reachability

variable {State Step : Type*}

/-- The runs from a start. -/
inductive Traced (next : Step → State → State → Prop) (start : State) :
    List (Step × State) → State → Prop where
  | start : Traced next start [] start
  | step {trace : List (Step × State)} {state after : State} {step : Step}
      (before : Traced next start trace state) (taken : next step state after) :
      Traced next start (trace ++ [(step, state)]) after

variable {next : Step → State → State → Prop} {start state : State} {trace : List (Step × State)}

/-- A run is a chain of steps that meet what all of its entries meet. -/
theorem Traced.reached (ran : Traced next start trace state) {meets : Step → State → Prop}
    (met : ∀ entry ∈ trace, meets entry.1 entry.2) : Reached next meets start state := by
  induction ran with
  | start => exact .start
  | step before taken ih =>
    refine .step (ih fun entry member => met entry ?_) (met (_, _) ?_) taken
    · exact List.mem_append_left _ member
    · exact List.mem_append_right _ List.mem_cons_self

/-- The run to where an entry was taken. -/
theorem Traced.split (ran : Traced next start trace state) {step : Step} {there : State}
    (member : (step, there) ∈ trace) :
    ∃ before, Traced next start before there ∧ ∀ entry ∈ before, entry ∈ trace := by
  induction ran with
  | start => cases member
  | step before taken ih =>
    rcases List.mem_append.mp member with earlier | last
    · obtain ⟨left, ran, within⟩ := ih earlier
      exact ⟨left, ran, fun entry inside => List.mem_append_left _ (within entry inside)⟩
    · cases List.mem_singleton.mp last
      exact ⟨_, before, fun entry inside => List.mem_append_left _ inside⟩

/-- What is lost for good is not there at an end where it is still had. -/
theorem Traced.throughout (ran : Traced next start trace state) {has : State → Prop}
    (lost : ∀ step state after, next step state after → has after → has state)
    (atEnd : has state) : ∀ entry ∈ trace, has entry.2 := by
  induction ran with
  | start => nofun
  | step before taken ih =>
    have there := lost _ _ _ taken atEnd
    intro entry member
    rcases List.mem_append.mp member with earlier | last
    · exact ih there entry earlier
    · cases List.mem_singleton.mp last
      exact there

/-- The rule of accounts: where no step gains more than it costs and takes from the potential, a
run gains no more than it costs and the potential it starts with. `holds` is what all states of
the run are known to meet and `keeps` what the steps keep. -/
theorem Traced.account (ran : Traced next start trace state) {holds keeps : State → Prop}
    {gain cost : Step × State → ℕ} {potential : State → ℕ}
    (throughout : ∀ entry ∈ trace, holds entry.2) (atEnd : holds state) (atStart : keeps start)
    (pays : ∀ step state after, holds state → holds after → keeps state → next step state after →
      keeps after ∧
        gain (step, state) + potential after ≤ cost (step, state) + potential state) :
    keeps state ∧
      (trace.map gain).sum + potential state ≤ (trace.map cost).sum + potential start := by
  induction ran with
  | start => exact ⟨atStart, by simp⟩
  | @step trace state after step before taken ih =>
    have there : holds state :=
      throughout (step, state) (List.mem_append_right _ List.mem_cons_self)
    obtain ⟨kept, account⟩ :=
      ih (fun entry member => throughout entry (List.mem_append_left _ member)) there
    obtain ⟨keptAfter, paid⟩ := pays _ _ _ there atEnd kept taken
    refine ⟨keptAfter, ?_⟩
    simp only [List.map_append, List.map_cons, List.map_nil, List.sum_append, List.sum_cons,
      List.sum_nil]
    omega

/-- The steps of a run with the states they are taken in. -/
def entries (run : State → Step → Option State) : State → List Step → List (Step × State)
  | _, [] => []
  | state, step :: rest =>
    (step, state) :: (run state step).elim [] fun after => entries run after rest

/-- Where steps may be refused, a run that is not refused is traced by its entries. -/
theorem Traced.foldlM {run : State → Step → Option State} {after : State} (steps : List Step)
    (ran : steps.foldlM run start = some after) :
    Traced (fun step state after => run state step = some after) start (entries run start steps)
      after := by
  suffices ∀ trace state,
      Traced (fun step state after => run state step = some after) start trace state →
      steps.foldlM run state = some after →
      Traced (fun step state after => run state step = some after) start
        (trace ++ entries run state steps) after from this [] start .start ran
  clear ran
  induction steps with
  | nil =>
    rintro trace state before ⟨⟩
    rwa [entries, List.append_nil]
  | cons step rest ih =>
    intro trace state before ran
    obtain ⟨next, taken, ran⟩ := Option.bind_eq_some_iff.mp ran
    have later := ih _ next (.step before taken) ran
    rw [List.append_assoc, List.singleton_append] at later
    rwa [entries, taken]

end Reachability
