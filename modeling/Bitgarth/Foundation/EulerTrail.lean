import Mathlib.Algebra.BigOperators.Group.List.Basic
import Mathlib.Algebra.Order.Ring.Int
import Mathlib.Data.List.Perm.Basic
import Mathlib.Logic.Function.Basic
import Mathlib.Tactic.Common

/-! # Eulerian trails of directed multigraphs

A trail walks arcs head to tail. Hierholzer's algorithm walks until it is stuck and
backs up along its stack, emitting arcs as it leaves them; `hierholzer_isTrail` shows
that it returns a trail through all arcs whenever there is one from its start vertex.
-/

namespace EulerTrail

variable {V α : Type*} [DecidableEq V] (source target : α → V)

/-- The arcs walk from `start` to `final`. -/
def IsTrail : V → List α → V → Prop
  | start, [], final => start = final
  | start, arc :: rest, final => source arc = start ∧ IsTrail (target arc) rest final

/-- Departures from a vertex minus arrivals at it. -/
def surplus (arcs : List α) (vertex : V) : ℤ :=
  (arcs.map fun arc =>
    (if source arc = vertex then 1 else 0) - if target arc = vertex then 1 else 0).sum

/-- Unused arcs by source, the walk so far with the arc each vertex was reached by, and
the arcs left behind, latest first. -/
structure State (V α : Type*) where
  outgoing : V → List α
  stack : List (V × Option α)
  ordered : List α

/-- Follow the first unused arc out of the top vertex, or back up when there is none. -/
def walk : ℕ → State V α → State V α
  | 0, state => state
  | fuel + 1, state =>
    match state.stack with
    | [] => state
    | (vertex, arrived) :: below =>
      match state.outgoing vertex with
      | arc :: rest =>
        walk fuel
          { outgoing := Function.update state.outgoing vertex rest
            stack := (target arc, some arc) :: state.stack
            ordered := state.ordered }
      | [] =>
        walk fuel
          { outgoing := state.outgoing
            stack := below
            ordered := arrived.toList ++ state.ordered }

/-- Hierholzer's algorithm from `initial`; each arc is pushed and popped once. -/
def hierholzer (arcs : List α) (initial : V) : List α :=
  (walk target (2 * arcs.length + 1)
    { outgoing := fun vertex => arcs.filter fun arc => source arc = vertex
      stack := [(initial, none)]
      ordered := [] }).ordered

section Trails

variable {source target} {arcs left right : List α} {start middle final : V}

omit [DecidableEq V] in
theorem isTrail_append :
    IsTrail source target start (left ++ right) final ↔
      ∃ middle, IsTrail source target start left middle ∧
        IsTrail source target middle right final := by
  induction left generalizing start with
  | nil => simp [IsTrail]
  | cons arc rest ih =>
    simp only [List.cons_append, IsTrail, ih]
    constructor
    · rintro ⟨leaves, middle, first, second⟩
      exact ⟨middle, ⟨leaves, first⟩, second⟩
    · rintro ⟨middle, ⟨leaves, first⟩, second⟩
      exact ⟨leaves, middle, first, second⟩

theorem surplus_perm (perm : left.Perm right) (vertex : V) :
    surplus source target left vertex = surplus source target right vertex :=
  (perm.map _).sum_eq

theorem surplus_cons (arc : α) (vertex : V) :
    surplus source target (arc :: right) vertex =
      ((if source arc = vertex then 1 else 0) - if target arc = vertex then 1 else 0) +
        surplus source target right vertex := by
  simp [surplus]

/-- A trail departs once more than it arrives at its start, and once less at its end. -/
theorem surplus_of_isTrail (trail : IsTrail source target start arcs final) (vertex : V) :
    surplus source target arcs vertex =
      (if start = vertex then 1 else 0) - if final = vertex then 1 else 0 := by
  induction arcs generalizing start with
  | nil =>
    have same : start = final := trail
    simp [surplus, same]
  | cons arc rest ih =>
    obtain ⟨leaves, tail⟩ := trail
    rw [surplus_cons, ih tail, leaves]
    omega

theorem surplus_nonpos_of_no_departure {vertex : V}
    (none_leave : ∀ arc ∈ arcs, source arc ≠ vertex) :
    surplus source target arcs vertex ≤ 0 := by
  induction arcs with
  | nil => simp [surplus]
  | cons arc rest ih =>
    rw [surplus_cons, if_neg (none_leave arc List.mem_cons_self)]
    have tail := ih fun other member => none_leave other (List.mem_cons_of_mem _ member)
    split <;> omega

omit [DecidableEq V] in
/-- A closed trail can be entered at the source of any of its arcs. -/
theorem exists_rotation {arc : α} (trail : IsTrail source target start arcs start)
    (member : arc ∈ arcs) :
    ∃ rotated, rotated.Perm arcs ∧ IsTrail source target (source arc) rotated (source arc) := by
  obtain ⟨front, back, rfl⟩ := List.append_of_mem member
  obtain ⟨middle, first, leaves, second⟩ := isTrail_append.mp trail
  refine ⟨arc :: back ++ front, List.perm_append_comm, ?_⟩
  exact isTrail_append.mpr ⟨start, ⟨rfl, second⟩, leaves ▸ first⟩

end Trails

section Hierholzer

variable {source target} {arcs remaining : List α} {initial final turn : V} {state : State V α}

/-- The stack spells a trail from `initial` to its top vertex. -/
def Stacked (source target : α → V) (initial : V) : List (V × Option α) → Prop
  | [] => False
  | [(vertex, arrived)] => arrived = none ∧ vertex = initial
  | (vertex, arrived) :: (below, beneath) :: rest =>
    (∃ arc, arrived = some arc ∧ target arc = vertex ∧ source arc = below) ∧
      Stacked source target initial ((below, beneath) :: rest)

/-- The arcs are unused, on the stack or left behind. -/
structure Accounted (source : α → V) (arcs remaining : List α) (state : State V α) : Prop where
  outgoing : ∀ vertex, (state.outgoing vertex).Perm
    (remaining.filter fun arc => source arc = vertex)
  perm : (remaining ++ (state.stack.filterMap Prod.snd ++ state.ordered)).Perm arcs

theorem accounted_initial (source : α → V) (arcs : List α) (initial : V) :
    Accounted source arcs arcs
      { outgoing := fun vertex => arcs.filter fun arc => source arc = vertex
        stack := [(initial, none)]
        ordered := [] } where
  outgoing _ := .refl _
  perm := by simp

/-- Following an unused arc moves it to the stack. -/
theorem Accounted.push {vertex : V} {arc : α} {rest : List α}
    (accounted : Accounted source arcs remaining state)
    (unused : state.outgoing vertex = arc :: rest) :
    source arc = vertex ∧ ∃ fewer, remaining.Perm (arc :: fewer) ∧
      Accounted source arcs fewer
        { outgoing := Function.update state.outgoing vertex rest
          stack := (target arc, some arc) :: state.stack
          ordered := state.ordered } := by
  have out := accounted.outgoing vertex
  rw [unused] at out
  obtain ⟨listed, leaves⟩ := List.mem_filter.mp (out.mem_iff.mp List.mem_cons_self)
  have leavesEq : source arc = vertex := of_decide_eq_true leaves
  obtain ⟨front, back, split⟩ := List.append_of_mem listed
  have moved : remaining.Perm (arc :: (front ++ back)) := by
    rw [split]
    exact List.perm_middle
  have filtered : ∀ other, (remaining.filter fun arc => source arc = other).Perm
      ((arc :: (front ++ back)).filter fun arc => source arc = other) :=
    fun other => moved.filter _
  refine ⟨leavesEq, front ++ back, moved, fun other => ?_, ?_⟩
  · by_cases same : other = vertex
    · subst same
      simp only [Function.update_self]
      have both := out.trans (filtered other)
      simp only [List.filter_cons, leavesEq, decide_true, if_true] at both
      exact both.cons_inv
    · simp only [Function.update_of_ne same]
      have both := (accounted.outgoing other).trans (filtered other)
      rwa [List.filter_cons_of_neg (by simpa [leavesEq] using Ne.symm same)] at both
  · refine List.Perm.trans ?_ accounted.perm
    exact List.perm_middle.trans (moved.symm.append_right _)

/-- Backing up leaves the top arc behind. -/
theorem Accounted.pop {vertex : V} {arrived : Option α} {below : List (V × Option α)}
    (accounted : Accounted source arcs remaining state)
    (top : state.stack = (vertex, arrived) :: below) :
    Accounted source arcs remaining
      { outgoing := state.outgoing
        stack := below
        ordered := arrived.toList ++ state.ordered } where
  outgoing := accounted.outgoing
  perm := by
    have perm := accounted.perm
    rw [top] at perm
    refine List.Perm.trans (List.Perm.append_left _ ?_) perm
    cases arrived with
    | none => exact .refl _
    | some arc => exact List.perm_middle

theorem Accounted.ordered_subperm (accounted : Accounted source arcs remaining state) :
    state.ordered.Subperm arcs := by
  refine List.Subperm.trans (List.Sublist.subperm ?_) accounted.perm.subperm
  exact (List.sublist_append_right _ _).trans (List.sublist_append_right _ _)

/-- However the walk goes, it leaves each arc behind at most once. -/
theorem Accounted.walk_subperm (fuel : ℕ) (accounted : Accounted source arcs remaining state) :
    (walk target fuel state).ordered.Subperm arcs := by
  induction fuel generalizing state remaining with
  | zero => exact accounted.ordered_subperm
  | succ fuel ih =>
    cases top : state.stack with
    | nil =>
      simp only [walk, top]
      exact accounted.ordered_subperm
    | cons first below =>
      obtain ⟨vertex, arrived⟩ := first
      cases unused : state.outgoing vertex with
      | nil =>
        simp only [walk, top, unused]
        exact ih (accounted.pop top)
      | cons arc rest =>
        obtain ⟨_, fewer, _, kept⟩ := accounted.push unused
        simp only [walk, top, unused]
        exact ih (top ▸ kept)

theorem hierholzer_subperm (source target : α → V) (arcs : List α) (initial : V) :
    (hierholzer source target arcs initial).Subperm arcs :=
  (accounted_initial source arcs initial).walk_subperm _

/-- What holds while the stack is not empty: the arcs left behind form a trail from `turn`,
and the unused ones could still be walked from the top vertex to `turn`, as far as degrees
tell. -/
structure Invariant (source target : α → V) (arcs : List α) (initial final : V)
    (remaining : List α) (turn : V) (state : State V α) : Prop
    extends Accounted source arcs remaining state where
  stacked : Stacked source target initial state.stack
  trail : IsTrail source target turn state.ordered final
  degrees : ∀ vertex arrived below, state.stack = (vertex, arrived) :: below → ∀ other,
    surplus source target remaining other =
      (if vertex = other then 1 else 0) - if turn = other then 1 else 0
  exhausted : ∀ arc ∈ state.ordered, state.outgoing (target arc) = []

theorem Invariant.mem_remaining_iff
    (invariant : Invariant source target arcs initial final remaining turn state)
    {arc : α} : arc ∈ remaining ↔ arc ∈ state.outgoing (source arc) := by
  rw [(invariant.outgoing _).mem_iff, List.mem_filter]
  simp

/-- Following an unused arc keeps the invariant and uses one arc. -/
theorem Invariant.push {vertex : V} {arrived : Option α} {below : List (V × Option α)}
    {arc : α} {rest : List α}
    (invariant : Invariant source target arcs initial final remaining turn state)
    (top : state.stack = (vertex, arrived) :: below)
    (unused : state.outgoing vertex = arc :: rest) :
    ∃ fewer, fewer.length + 1 = remaining.length ∧
      Invariant source target arcs initial final fewer turn
        { outgoing := Function.update state.outgoing vertex rest
          stack := (target arc, some arc) :: state.stack
          ordered := state.ordered } := by
  obtain ⟨leaves, fewer, moved, accounted⟩ := invariant.toAccounted.push unused
  refine ⟨fewer, by simpa using moved.length_eq.symm, accounted, ?_, invariant.trail, ?_, ?_⟩
  · rw [top]
    exact ⟨⟨arc, rfl, rfl, leaves⟩, top ▸ invariant.stacked⟩
  · intro next taken beneath same other
    simp only [List.cons.injEq, Prod.mk.injEq] at same
    have before := invariant.degrees vertex arrived below top other
    rw [surplus_perm moved, surplus_cons, leaves] at before
    rw [← same.1.1]
    omega
  · intro other left
    have empty := invariant.exhausted other left
    have differs : target other ≠ vertex := by
      rintro rfl
      rw [unused] at empty
      exact List.cons_ne_nil _ _ empty
    simpa only [Function.update_of_ne differs] using empty

/-- Stuck at the top of the stack, the walk stands where the emitted trail starts. -/
theorem Invariant.top_eq_turn {vertex : V} {arrived : Option α} {below : List (V × Option α)}
    (invariant : Invariant source target arcs initial final remaining turn state)
    (top : state.stack = (vertex, arrived) :: below) (stuck : state.outgoing vertex = []) :
    vertex = turn := by
  by_contra differs
  have degree := invariant.degrees vertex arrived below top vertex
  have none_leave : ∀ arc ∈ remaining, source arc ≠ vertex := by
    rintro arc member rfl
    rw [invariant.mem_remaining_iff, stuck] at member
    exact List.not_mem_nil member
  have nonpositive : surplus source target remaining vertex ≤ 0 :=
    surplus_nonpos_of_no_departure none_leave
  rw [if_pos rfl, if_neg (Ne.symm differs)] at degree
  omega

/-- Backing up from a stuck vertex keeps the invariant. -/
theorem Invariant.pop {vertex : V} {arc : α} {below : List (V × Option α)}
    (invariant : Invariant source target arcs initial final remaining turn state)
    (top : state.stack = (vertex, some arc) :: below) (stuck : state.outgoing vertex = []) :
    Invariant source target arcs initial final remaining (source arc)
      { outgoing := state.outgoing
        stack := below
        ordered := arc :: state.ordered } := by
  have atTurn := invariant.top_eq_turn top stuck
  have stacked := invariant.stacked
  rw [top] at stacked
  cases below with
  | nil => exact absurd stacked.1 (Option.some_ne_none arc)
  | cons next rest =>
    obtain ⟨⟨walked, same, arrives, leaves⟩, lower⟩ := stacked
    rw [Option.some.injEq] at same
    subst same
    refine ⟨invariant.toAccounted.pop top, lower, ⟨rfl, ?_⟩, ?_, ?_⟩
    · rw [arrives, atTurn]
      exact invariant.trail
    · intro current taken beneath whole other
      simp only [List.cons.injEq] at whole
      have degree := invariant.degrees vertex (some arc) _ top other
      obtain ⟨rfl, rfl⟩ := whole
      rw [degree, atTurn, leaves, sub_self, sub_self]
    · intro other left
      rcases List.mem_cons.mp left with rfl | before
      · rw [arrives]
        exact stuck
      · exact invariant.exhausted other before

/-- When the walk is stuck at its start for good, an Eulerian trail from there leaves no
arc unused. -/
theorem Invariant.remaining_eq_nil {trail : List α}
    (invariant : Invariant source target arcs initial final remaining turn state)
    (stack : state.stack.filterMap Prod.snd = []) (stuck : state.outgoing initial = [])
    (perm : trail.Perm arcs) (walks : IsTrail source target initial trail final) :
    remaining = [] := by
  have covered : ∀ arc ∈ trail, arc ∈ remaining ∨ arc ∈ state.ordered := by
    intro arc member
    have listed := invariant.perm.mem_iff.mpr (perm.mem_iff.mp member)
    simpa [stack] using listed
  have used : ∀ arc ∈ trail, arc ∉ remaining := by
    clear perm
    generalize initial = place at stuck walks
    induction trail generalizing place with
    | nil => simp
    | cons arc rest ih =>
      obtain ⟨leaves, tail⟩ := walks
      have gone : arc ∉ remaining := by
        rw [invariant.mem_remaining_iff, leaves, stuck]
        exact List.not_mem_nil
      have left := (covered arc List.mem_cons_self).resolve_left gone
      have later := ih (fun other member => covered other (List.mem_cons_of_mem _ member))
        (target arc) (invariant.exhausted arc left) tail
      intro other member
      rcases List.mem_cons.mp member with rfl | inRest
      · exact gone
      · exact later other inRest
  rw [List.eq_nil_iff_forall_not_mem]
  intro arc member
  have inArcs : arc ∈ arcs := invariant.perm.mem_iff.mp (List.mem_append_left _ member)
  exact used arc (perm.mem_iff.mpr inArcs) member

/-- The walk ends with a trail through all arcs. -/
theorem Invariant.walk_spec {trail : List α} (perm : trail.Perm arcs)
    (walks : IsTrail source target initial trail final) (fuel : ℕ)
    (invariant : Invariant source target arcs initial final remaining turn state)
    (enough : 2 * remaining.length + state.stack.length ≤ fuel) :
    (walk target fuel state).ordered.Perm arcs ∧
      IsTrail source target initial (walk target fuel state).ordered final := by
  induction fuel generalizing state remaining turn with
  | zero =>
    have empty : state.stack = [] := List.eq_nil_of_length_eq_zero (by omega)
    have stacked := invariant.stacked
    rw [empty] at stacked
    exact stacked.elim
  | succ fuel ih =>
    cases top : state.stack with
    | nil =>
      have stacked := invariant.stacked
      rw [top] at stacked
      exact stacked.elim
    | cons first below =>
      obtain ⟨vertex, arrived⟩ := first
      rw [top, List.length_cons] at enough
      cases unused : state.outgoing vertex with
      | cons arc rest =>
        obtain ⟨fewer, length, kept⟩ := invariant.push top unused
        have step := ih kept (by
          simp only [top, List.length_cons]
          omega)
        simpa only [walk, top, unused] using step
      | nil =>
        cases arrived with
        | some arc =>
          have step := ih (invariant.pop top unused) (by
            simp only
            omega)
          simp only [walk, top, unused]
          exact step
        | none =>
          -- The bottom of the stack: the walk is over.
          have stacked := invariant.stacked
          have atTurn := invariant.top_eq_turn top unused
          rw [top] at stacked
          cases below with
          | cons next rest =>
            obtain ⟨⟨walked, same, _⟩, _⟩ := stacked
            exact absurd same.symm (Option.some_ne_none walked)
          | nil =>
            obtain ⟨_, rfl⟩ := stacked
            have done : remaining = [] := invariant.remaining_eq_nil
              (by simp [top]) unused perm walks
            have whole := invariant.perm
            have emitted := invariant.trail
            rw [done, top] at whole
            rw [← atTurn] at emitted
            have ends : (walk target (fuel + 1) state).ordered = state.ordered := by
              simp only [walk, top, unused]
              cases fuel <;> rfl
            rw [ends]
            exact ⟨by simpa using whole, emitted⟩

/-- **Hierholzer's algorithm is right.** From the start of some trail through all arcs it
returns a trail through all arcs, with the same ends. -/
theorem hierholzer_isTrail {trail : List α} (perm : trail.Perm arcs)
    (walks : IsTrail source target initial trail final) :
    (hierholzer source target arcs initial).Perm arcs ∧
      IsTrail source target initial (hierholzer source target arcs initial) final := by
  have start : Invariant source target arcs initial final arcs final
      { outgoing := fun vertex => arcs.filter fun arc => source arc = vertex
        stack := [(initial, none)]
        ordered := [] } := by
    refine ⟨accounted_initial source arcs initial, ⟨rfl, rfl⟩, rfl, ?_, by simp⟩
    intro vertex arrived below same other
    simp only [List.cons.injEq, Prod.mk.injEq] at same
    rw [← surplus_perm perm, surplus_of_isTrail walks, same.1.1]
  exact start.walk_spec perm walks _ (by simp)

end Hierholzer

end EulerTrail
