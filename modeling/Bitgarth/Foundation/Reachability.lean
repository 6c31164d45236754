import Mathlib.Tactic.Common

/-! # Reached states

The states a system reaches from a start by steps that each meet a condition. What holds at the
start and is kept by every such step holds wherever the system gets.
-/

namespace Reachability

variable {State Step : Type*}

/-- The states reached by steps that meet a condition where they are taken. -/
inductive Reached (next : Step → State → State → Prop) (meets : Step → State → Prop)
    (start : State) : State → Prop where
  | start : Reached next meets start start
  | step {state after : State} {step : Step} (before : Reached next meets start state)
      (condition : meets step state) (taken : next step state after) :
      Reached next meets start after

variable {next : Step → State → State → Prop} {meets weaker : Step → State → Prop}
  {start state : State}

theorem Reached.invariant (reached : Reached next meets start state) {holds : State → Prop}
    (atStart : holds start)
    (keeps : ∀ step state after, holds state → meets step state → next step state after →
      holds after) : holds state := by
  induction reached with
  | start => exact atStart
  | step _ condition taken ih => exact keeps _ _ _ ih condition taken

/-- Where steps may be refused, a run that is not refused reaches its last state. -/
theorem Reached.foldlM {run : State → Step → Option State} {after : State} (steps : List Step)
    (before : Reached (fun step state after => run state step = some after) meets start state)
    (met : ∀ step ∈ steps, ∀ state, meets step state)
    (ran : steps.foldlM run state = some after) :
    Reached (fun step state after => run state step = some after) meets start after := by
  induction steps generalizing state with
  | nil =>
    cases ran
    exact before
  | cons step rest ih =>
    obtain ⟨next, taken, ran⟩ := Option.bind_eq_some_iff.mp ran
    have first := met step List.mem_cons_self state
    exact ih (.step before first taken) (fun step later => met step (.tail _ later)) ran

/-- A run whose steps are checked where they are taken reaches its last state. -/
theorem Reached.foldlM_of_meets [∀ step state, Decidable (meets step state)]
    {run : State → Step → Option State} {after : State} (steps : List Step)
    (ran : steps.foldlM (fun state step => if meets step state then run state step else none)
      start = some after) :
    Reached (fun step state after => run state step = some after) meets start after := by
  suffices ∀ state,
      Reached (fun step state after => run state step = some after) meets start state →
      steps.foldlM (fun state step => if meets step state then run state step else none) state =
        some after →
      Reached (fun step state after => run state step = some after) meets start after from
    this start .start ran
  clear ran
  induction steps with
  | nil =>
    rintro state before ⟨⟩
    exact before
  | cons step rest ih =>
    intro state before ran
    obtain ⟨next, taken, ran⟩ := Option.bind_eq_some_iff.mp ran
    by_cases condition : meets step state
    · exact ih next (.step before condition ((if_pos condition).symm.trans taken)) ran
    · cases (if_neg condition).symm.trans taken

end Reachability
