import Mathlib.Tactic.Common

/-! # Programs that are interrupted

A program is a tree that looks at a state and takes labelled steps on it. A step may fail without
its effect, and the program may stop before it for good. `Survives` is the Hoare logic of such
programs, with a condition for every state that they may leave behind.
-/

namespace Interruption

inductive Program (Label State Err Value : Type) where
  | done (result : Except Err Value)
  | look (next : State → Program Label State Err Value)
  | step (label : Label) (effect : State → State) (next failed : Program Label State Err Value)

/-- How a run ends. -/
inductive Ending (Err Value : Type) where
  | answered (result : Except Err Value)
  | stopped

namespace Program

variable {Label State Err OtherErr Value Result : Type}

def bind : Program Label State Err Value → (Value → Program Label State Err Result) →
    Program Label State Err Result
  | done (.ok value), continuation => continuation value
  | done (.error error), _ => done (.error error)
  | look next, continuation => look fun state => (next state).bind continuation
  | step label effect next failed, continuation =>
    step label effect (next.bind continuation) (failed.bind continuation)

instance : Monad (Program Label State Err) where
  pure value := done (.ok value)
  bind := bind

def throw (error : Err) : Program Label State Err Value :=
  done (.error error)

def get : Program Label State Err State :=
  look fun state => done (.ok state)

/-- A step whose failure is the program's. -/
def change (label : Label) (failure : Err) (effect : State → State) :
    Program Label State Err Unit :=
  step label effect (done (.ok ())) (throw failure)

/-- The program goes on with another one where it has an error. -/
def handle : Program Label State Err Value → (Err → Program Label State OtherErr Value) →
    Program Label State OtherErr Value
  | done (.ok value), _ => done (.ok value)
  | done (.error error), handler => handler error
  | look next, handler => look fun state => (next state).handle handler
  | step label effect next failed, handler =>
    step label effect (next.handle handler) (failed.handle handler)

def mapError (program : Program Label State Err Value) (convert : Err → OtherErr) :
    Program Label State OtherErr Value :=
  program.handle fun error => throw (convert error)

/-- The run that nothing interrupts. -/
def run : Program Label State Err Value → State → Except Err Value × State
  | done result, state => (result, state)
  | look next, state => (next state).run state
  | step _ effect next _, state => next.run (effect state)

/-- The runs of a program, with the labels of the steps that failed and of the one that it stopped
before. -/
inductive Runs : Program Label State Err Value → State → List Label → Ending Err Value → State →
    Prop where
  | done {result : Except Err Value} {state : State} :
      Runs (.done result) state [] (.answered result) state
  | look {next : State → Program Label State Err Value} {state last : State}
      {labels : List Label} {ending : Ending Err Value}
      (rest : Runs (next state) state labels ending last) :
      Runs (.look next) state labels ending last
  | stopped {label : Label} {effect : State → State}
      {next failed : Program Label State Err Value} {state : State} :
      Runs (.step label effect next failed) state [label] .stopped state
  | taken {label : Label} {effect : State → State} {next failed : Program Label State Err Value}
      {state last : State} {labels : List Label} {ending : Ending Err Value}
      (rest : Runs next (effect state) labels ending last) :
      Runs (.step label effect next failed) state labels ending last
  | failed {label : Label} {effect : State → State} {next failed : Program Label State Err Value}
      {state last : State} {labels : List Label} {ending : Ending Err Value}
      (rest : Runs failed state labels ending last) :
      Runs (.step label effect next failed) state (label :: labels) ending last

variable {program : Program Label State Err Value} {state last : State} {labels : List Label}
  {label : Label} {failure : Err} {effect : State → State}
  {next failed : Program Label State Err Value}
  {continuation : Value → Program Label State Err Result}
  {handler : Err → Program Label State OtherErr Value}

theorem runs_run : ∀ (program : Program Label State Err Value) (state : State),
    Runs program state [] (.answered (program.run state).1) (program.run state).2
  | done _, _ => .done
  | look next, state => .look (runs_run (next state) state)
  | step _ effect next _, state => .taken (runs_run next (effect state))

theorem Runs.bind {ending : Ending Err Result} {value : Value} {middle : State}
    {first rest : List Label} (returned : Runs program state first (.answered (.ok value)) middle)
    (others : Runs (continuation value) middle rest ending last) :
    Runs (program >>= continuation) state (first ++ rest) ending last := by
  change Runs (program.bind continuation) state (first ++ rest) ending last
  generalize isAnswer : Ending.answered (Except.ok value) = answer at returned
  induction returned with
  | done => cases isAnswer; exact others
  | look _ ih => exact .look (ih others isAnswer)
  | stopped => cases isAnswer
  | taken _ ih => exact .taken (ih others isAnswer)
  | failed _ ih => exact .failed (ih others isAnswer)

/-- A run of a sequence is a run of its first part that went no further, or one that returned a
value followed by a run of the rest. -/
theorem Runs.of_bind {ending : Ending Err Result}
    (runs : Runs (program >>= continuation) state labels ending last) :
    (∃ error, Runs program state labels (.answered (.error error)) last ∧
        ending = .answered (.error error)) ∨
      (Runs program state labels .stopped last ∧ ending = .stopped) ∨
      ∃ value middle first rest, labels = first ++ rest ∧
        Runs program state first (.answered (.ok value)) middle ∧
        Runs (continuation value) middle rest ending last := by
  change Runs (program.bind continuation) state labels ending last at runs
  induction program generalizing state labels with
  | done result =>
    cases result with
    | ok value => exact .inr (.inr ⟨value, state, [], labels, rfl, .done, runs⟩)
    | error error =>
      cases runs with
      | done => exact .inl ⟨error, .done, rfl⟩
  | look next ih =>
    cases runs with
    | look rest =>
      rcases ih _ rest with ⟨error, first, isEnding⟩ | ⟨first, isEnding⟩ |
        ⟨value, middle, labels, later, rfl, first, rest⟩
      · exact .inl ⟨error, .look first, isEnding⟩
      · exact .inr (.inl ⟨.look first, isEnding⟩)
      · exact .inr (.inr ⟨value, middle, labels, later, rfl, .look first, rest⟩)
  | step label effect next failed ihNext ihFailed =>
    cases runs with
    | stopped => exact .inr (.inl ⟨.stopped, rfl⟩)
    | taken rest =>
      rcases ihNext rest with ⟨error, first, isEnding⟩ | ⟨first, isEnding⟩ |
        ⟨value, middle, labels, later, rfl, first, rest⟩
      · exact .inl ⟨error, .taken first, isEnding⟩
      · exact .inr (.inl ⟨.taken first, isEnding⟩)
      · exact .inr (.inr ⟨value, middle, labels, later, rfl, .taken first, rest⟩)
    | failed rest =>
      rcases ihFailed rest with ⟨error, first, isEnding⟩ | ⟨first, isEnding⟩ |
        ⟨value, middle, labels, later, rfl, first, rest⟩
      · exact .inl ⟨error, .failed first, isEnding⟩
      · exact .inr (.inl ⟨.failed first, isEnding⟩)
      · exact .inr (.inr ⟨value, middle, label :: labels, later, rfl, .failed first, rest⟩)

/-- A run of a program with a handler is a run of the program, or one that had an error followed
by a run of the handler. -/
theorem Runs.of_handle {ending : Ending OtherErr Value}
    (runs : Runs (program.handle handler) state labels ending last) :
    (∃ value, Runs program state labels (.answered (.ok value)) last ∧
        ending = .answered (.ok value)) ∨
      (Runs program state labels .stopped last ∧ ending = .stopped) ∨
      ∃ error middle first rest, labels = first ++ rest ∧
        Runs program state first (.answered (.error error)) middle ∧
        Runs (handler error) middle rest ending last := by
  induction program generalizing state labels with
  | done result =>
    cases result with
    | ok value =>
      cases runs with
      | done => exact .inl ⟨value, .done, rfl⟩
    | error error => exact .inr (.inr ⟨error, state, [], labels, rfl, .done, runs⟩)
  | look next ih =>
    cases runs with
    | look rest =>
      rcases ih _ rest with ⟨value, first, isEnding⟩ | ⟨first, isEnding⟩ |
        ⟨error, middle, labels, later, rfl, first, rest⟩
      · exact .inl ⟨value, .look first, isEnding⟩
      · exact .inr (.inl ⟨.look first, isEnding⟩)
      · exact .inr (.inr ⟨error, middle, labels, later, rfl, .look first, rest⟩)
  | step label effect next failed ihNext ihFailed =>
    cases runs with
    | stopped => exact .inr (.inl ⟨.stopped, rfl⟩)
    | taken rest =>
      rcases ihNext rest with ⟨value, first, isEnding⟩ | ⟨first, isEnding⟩ |
        ⟨error, middle, labels, later, rfl, first, rest⟩
      · exact .inl ⟨value, .taken first, isEnding⟩
      · exact .inr (.inl ⟨.taken first, isEnding⟩)
      · exact .inr (.inr ⟨error, middle, labels, later, rfl, .taken first, rest⟩)
    | failed rest =>
      rcases ihFailed rest with ⟨value, first, isEnding⟩ | ⟨first, isEnding⟩ |
        ⟨error, middle, labels, later, rfl, first, rest⟩
      · exact .inl ⟨value, .failed first, isEnding⟩
      · exact .inr (.inl ⟨.failed first, isEnding⟩)
      · exact .inr (.inr ⟨error, middle, label :: labels, later, rfl, .failed first, rest⟩)

/-! ## Conditions for every state a run may leave -/

/-- Whatever fails or stops at the labels where that is allowed: where the run returns a value the
postcondition holds, and where it does not it leaves a state with the crash condition. -/
def Survives (allowed : Label → Prop) (crash : State → Prop) (post : Value → State → Prop)
    (program : Program Label State Err Value) (state : State) : Prop :=
  ∀ labels ending last, Runs program state labels ending last → (∀ label ∈ labels, allowed label) →
    match ending with
    | .answered (.ok value) => post value last
    | .answered (.error _) => crash last
    | .stopped => crash last

variable {allowed : Label → Prop} {crash : State → Prop} {post : Value → State → Prop}
  {after : Result → State → Prop}

theorem survives_pure {value : Value} (holds : post value state) :
    Survives allowed crash post (pure value : Program Label State Err Value) state := by
  intro labels ending last runs _
  cases runs with
  | done => exact holds

theorem survives_throw {error : Err} (holds : crash state) :
    Survives allowed crash post (throw error : Program Label State Err Value) state := by
  intro labels ending last runs _
  cases runs with
  | done => exact holds

theorem survives_get {post : State → State → Prop} (holds : post state state) :
    Survives allowed crash post (get : Program Label State Err State) state := by
  intro labels ending last runs _
  cases runs with
  | look rest =>
    cases rest with
    | done => exact holds

theorem survives_change {post : Unit → State → Prop} (interrupted : allowed label → crash state)
    (taken : post () (effect state)) :
    Survives allowed crash post (change label failure effect) state := by
  intro labels ending last runs areAllowed
  cases runs with
  | stopped => exact interrupted (areAllowed _ List.mem_cons_self)
  | taken rest =>
    cases rest with
    | done => exact taken
  | failed rest =>
    cases rest with
    | done => exact interrupted (areAllowed _ List.mem_cons_self)

/-- The rule of sequences. -/
theorem survives_bind (post : Value → State → Prop)
    (first : Survives allowed crash post program state)
    (rest : ∀ value middle, post value middle →
      Survives allowed crash after (continuation value) middle) :
    Survives allowed crash after (program >>= continuation) state := by
  intro labels ending last runs areAllowed
  rcases runs.of_bind with ⟨error, refused, rfl⟩ | ⟨stopped, rfl⟩ |
    ⟨value, middle, before, later, rfl, returned, others⟩
  · exact first labels _ last refused areAllowed
  · exact first labels _ last stopped areAllowed
  · obtain ⟨early, late⟩ := List.forall_mem_append.mp areAllowed
    exact rest value middle (first before _ middle returned early) later ending last others late

theorem survives_get_bind {continuation : State → Program Label State Err Result}
    (rest : Survives allowed crash after (continuation state) state) :
    Survives allowed crash after (get >>= continuation) state :=
  survives_bind (fun value middle => value = state ∧ middle = state)
    (survives_get ⟨rfl, rfl⟩) (by rintro _ _ ⟨rfl, rfl⟩; exact rest)

theorem survives_change_bind {continuation : Unit → Program Label State Err Result}
    (interrupted : allowed label → crash state)
    (rest : Survives allowed crash after (continuation ()) (effect state)) :
    Survives allowed crash after (change label failure effect >>= continuation) state :=
  survives_bind (fun _ middle => middle = effect state) (survives_change interrupted rfl)
    (by rintro _ _ rfl; exact rest)

/-- The rule of handlers. -/
theorem survives_handle (middle : State → Prop)
    (first : Survives allowed middle post program state)
    (stopped : ∀ last, middle last → crash last)
    (handled : ∀ error last, middle last → Survives allowed crash post (handler error) last) :
    Survives allowed crash post (program.handle handler) state := by
  intro labels ending last runs areAllowed
  rcases runs.of_handle with ⟨value, returned, rfl⟩ | ⟨isStopped, rfl⟩ |
    ⟨error, between, before, later, rfl, refused, others⟩
  · exact first labels _ last returned areAllowed
  · exact stopped last (first labels _ last isStopped areAllowed)
  · obtain ⟨early, late⟩ := List.forall_mem_append.mp areAllowed
    exact handled error between (first before _ between refused early) later ending last others late

theorem survives_mapError {convert : Err → OtherErr}
    (survives : Survives allowed crash post program state) :
    Survives allowed crash post (program.mapError convert) state :=
  survives_handle crash survives (fun _ holds => holds) fun _ _ holds => survives_throw holds

/-- The rule of consequence. -/
theorem Survives.mono {weaker : State → Prop} {postWeaker : Value → State → Prop}
    (survives : Survives allowed crash post program state)
    (crashImp : ∀ last, crash last → weaker last)
    (postImp : ∀ value last, post value last → postWeaker value last) :
    Survives allowed weaker postWeaker program state := by
  intro labels ending last runs areAllowed
  have holds := survives labels ending last runs areAllowed
  match ending with
  | .answered (.ok value) => exact postImp value last holds
  | .answered (.error _) => exact crashImp last holds
  | .stopped => exact crashImp last holds

/-- A program that leaves no state behind without interruptions succeeds when there are none. -/
theorem Survives.run_eq_ok (survives : Survives allowed (fun _ => False) post program state) :
    ∃ value last, program.run state = (.ok value, last) ∧ post value last := by
  have holds := survives [] _ _ (runs_run program state) (List.forall_mem_nil _)
  rcases isResult : program.run state with ⟨error | value, last⟩
  · rw [isResult] at holds
    exact holds.elim
  · rw [isResult] at holds
    exact ⟨value, last, rfl, holds⟩

end Program

end Interruption
