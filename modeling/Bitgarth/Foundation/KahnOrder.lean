import Mathlib.Data.Finset.Max
import Mathlib.Data.Finset.Card
import Mathlib.Data.List.Perm.Subperm
import Mathlib.Logic.Function.Basic
import Mathlib.Tactic.Common
import Mathlib.Algebra.GroupWithZero.Nat

/-! # Smallest-first topological orders

A dependency table lists keys with the keys they depend on. Kahn's algorithm
counts unmet dependencies, keeps the keys with none in an ordered set and always
settles the smallest of them. `drain_settles` identifies the loop with the
declarative order `Settles`; `mem_prefix_iff_settlesBefore` describes which keys
precede a given one without mentioning the loop.
-/

namespace KahnOrder

variable {κ : Type*} [LinearOrder κ]

/-- Each row names a key and the keys it depends on. -/
abbrev Table (κ : Type*) := List (κ × List κ)

/-- The keys of a table, in row order. -/
def Table.keys (table : Table κ) : List κ := table.map Prod.fst

/-- `child` has a row that lists `parent`. -/
def DependsOn (table : Table κ) (child parent : κ) : Prop :=
  ∃ parents, (child, parents) ∈ table ∧ parent ∈ parents

/-- Distinct dependencies listed by the rows of `key`. -/
def dependencies (table : Table κ) (key : κ) : Finset κ :=
  (table.filter (fun row => row.1 = key)).foldr (fun row rest => row.2.toFinset ∪ rest) ∅

/-- Number of dependencies counted for `key`, each row counting a parent once. -/
def indegree (table : Table κ) (key : κ) : ℕ :=
  ((table.filter (fun row => row.1 = key)).map (fun row => row.2.toFinset.card)).sum

/-- Keys of the rows that list `parent`, in row order. -/
def children (table : Table κ) (parent : κ) : List κ :=
  (table.filter (fun row => parent ∈ row.2)).map Prod.fst

/-- Loop state: the unmet dependency counts and the set of ready keys. -/
structure State (κ : Type*) where
  indegree : κ → ℕ
  ready : Finset κ

/-- Counts of the whole table, with every key of count zero ready. -/
def initial (table : Table κ) : State κ where
  indegree := indegree table
  ready := table.keys.toFinset.filter (fun key => indegree table key = 0)

/-- Lower the count of each dependent; a count that reaches zero makes it ready. -/
def release (state : State κ) : List κ → Option (State κ)
  | [] => some state
  | dependent :: rest =>
    if state.indegree dependent = 0 then
      none
    else
      let degree := state.indegree dependent - 1
      release
        { indegree := Function.update state.indegree dependent degree
          ready := if degree = 0 then insert dependent state.ready else state.ready }
        rest

/-- Settle the smallest ready key until none is ready, at most `fuel` times. -/
def drain (table : Table κ) : ℕ → State κ → Option (List κ)
  | 0, _ => some []
  | fuel + 1, state =>
    match state.ready.min with
    | none => some []
    | some key => do
        let state ← release { state with ready := state.ready.erase key } (children table key)
        let rest ← drain table fuel state
        some (key :: rest)

/-- The order the loop settles keys in; one round for each row is enough. -/
def order (table : Table κ) : Option (List κ) :=
  drain table table.length (initial table)

/-! ## The settled order, without the loop -/

/-- Every dependency of `key` is in `settled`. -/
def Met (table : Table κ) (settled : Finset κ) (key : κ) : Prop :=
  ∀ parent, DependsOn table key parent → parent ∈ settled

/-- Each key is the smallest unsettled one whose dependencies are settled. -/
inductive Settles (table : Table κ) : Finset κ → List κ → Prop
  | nil (settled : Finset κ) : Settles table settled []
  | cons {settled : Finset κ} {key : κ} {rest : List κ}
      (listed : key ∈ table.keys) (fresh : key ∉ settled) (met : Met table settled key)
      (smallest : ∀ other ∈ table.keys, other ∉ settled → Met table settled other → key ≤ other)
      (tail : Settles table (insert key settled) rest) :
      Settles table settled (key :: rest)

/-- `earlier` must settle before `later`: it is an ancestor, or it is smaller and
its own dependencies must settle before `later`. -/
inductive SettlesBefore (table : Table κ) : κ → κ → Prop
  | parent {earlier later : κ} (depends : DependsOn table later earlier) :
      SettlesBefore table earlier later
  | ancestor {earlier parent later : κ} (depends : DependsOn table later parent)
      (before : SettlesBefore table earlier parent) : SettlesBefore table earlier later
  | smaller {earlier later : κ} (listed : earlier ∈ table.keys) (less : earlier < later)
      (met : ∀ parent, DependsOn table earlier parent → SettlesBefore table parent later) :
      SettlesBefore table earlier later

section Settles

variable {table : Table κ} {settled : Finset κ} {ordered front back : List κ} {key : κ}

theorem Settles.mem_keys (settles : Settles table settled ordered) :
    ∀ key ∈ ordered, key ∈ table.keys ∧ key ∉ settled := by
  induction settles with
  | nil settled => simp
  | cons listed fresh met smallest tail ih =>
    intro other member
    rcases List.mem_cons.mp member with rfl | later
    · exact ⟨listed, fresh⟩
    · have found := ih other later
      exact ⟨found.1, fun inside => found.2 (Finset.mem_insert_of_mem inside)⟩

theorem Settles.nodup (settles : Settles table settled ordered) : ordered.Nodup := by
  induction settles with
  | nil settled => exact List.nodup_nil
  | @cons settled key rest listed fresh met smallest tail ih =>
    refine List.nodup_cons.mpr ⟨?_, ih⟩
    intro again
    exact (tail.mem_keys key again).2 (Finset.mem_insert_self key settled)

/-- The dependencies of a settled key are settled earlier, and it is the smallest such key. -/
theorem Settles.split (settles : Settles table settled (front ++ key :: back)) :
    Met table (settled ∪ front.toFinset) key ∧
      ∀ other ∈ table.keys, other ∉ settled → other ∉ front →
        Met table (settled ∪ front.toFinset) other → key ≤ other := by
  induction front generalizing settled with
  | nil =>
    cases settles with
    | cons listed fresh met smallest tail =>
      simp only [List.toFinset_nil, Finset.union_empty]
      exact ⟨met, fun other listed fresh _ met => smallest other listed fresh met⟩
  | cons first front ih =>
    cases settles with
    | cons listed fresh met smallest tail =>
      obtain ⟨dependenciesMet, least⟩ := ih tail
      have sameSet : insert first settled ∪ front.toFinset =
          settled ∪ (first :: front).toFinset := by
        ext other
        simp only [Finset.mem_union, Finset.mem_insert, List.mem_toFinset, List.mem_cons]
        tauto
      rw [sameSet] at dependenciesMet least
      refine ⟨dependenciesMet, fun other listed fresh absent met => least other listed ?_ ?_ met⟩
      · simp only [Finset.mem_insert, not_or]
        exact ⟨fun same => absent (by simp [same]), fresh⟩
      · exact fun inside => absent (List.mem_cons_of_mem _ inside)

theorem Settles.dependency_mem_front (settles : Settles table ∅ (front ++ key :: back))
    {parent : κ} (depends : DependsOn table key parent) : parent ∈ front := by
  have found := settles.split.1 parent depends
  rwa [Finset.empty_union, List.mem_toFinset] at found

theorem Settles.perm_keys (settles : Settles table settled ordered)
    (complete : ordered.length = table.length) : ordered.Perm table.keys := by
  have contained : ordered.Subperm table.keys :=
    settles.nodup.subperm fun key member => (settles.mem_keys key member).1
  exact contained.perm_of_length_le (by simp [Table.keys, complete])

theorem Settles.mem_front_of_settlesBefore
    (settles : Settles table ∅ (front ++ key :: back))
    (complete : ∀ other ∈ table.keys, other ∈ front ++ key :: back) {earlier : κ}
    (before : SettlesBefore table earlier key) : earlier ∈ front := by
  generalize whole : front ++ key :: back = ordered at settles complete
  induction before generalizing front back with
  | parent depends =>
    subst whole
    exact settles.dependency_mem_front depends
  | @ancestor earlier parent later depends before ih =>
    subst whole
    have member : parent ∈ front := settles.dependency_mem_front depends
    obtain ⟨left, right, rfl⟩ := List.append_of_mem member
    have atParent : left ++ parent :: (right ++ later :: back) =
        left ++ parent :: right ++ later :: back := by simp
    exact List.mem_append_left _ (ih atParent)
  | @smaller earlier later listed less met ih =>
    subst whole
    by_contra absent
    have least := settles.split.2 earlier listed (by simp) absent
      (fun parent depends => by simpa using ih parent depends rfl)
    exact absurd less (not_lt.mpr least)

theorem Settles.settlesBefore_of_mem_front
    (settles : Settles table ∅ (front ++ key :: back)) {earlier : κ}
    (member : earlier ∈ front) : SettlesBefore table earlier key := by
  obtain ⟨left, right, rfl⟩ := List.append_of_mem member
  clear member
  -- The measure drops in `key`'s position for an ancestor, in `earlier`'s for a smaller key.
  induction size : (left ++ earlier :: right).length + left.length using Nat.strong_induction_on
    generalizing left right key back earlier with
  | _ size ih =>
    have keyMet : ∀ parent, DependsOn table key parent → parent ∈ left ++ earlier :: right :=
      fun parent depends => settles.dependency_mem_front depends
    by_cases ready : ∀ parent, DependsOn table key parent → parent ∈ left
    · have atEarlier : Settles table ∅ (left ++ earlier :: (right ++ key :: back)) := by
        simpa using settles
      have distinct := settles.nodup
      have keyAbsent : key ∉ left ++ earlier :: right := by
        intro inside
        exact (List.nodup_append.mp distinct).2.2 key inside key List.mem_cons_self rfl
      have keyListed := (settles.mem_keys key (by simp)).1
      have least := atEarlier.split.2 key keyListed (by simp)
        (fun inside => keyAbsent (List.mem_append_left _ inside))
        (fun parent depends => by simpa using ready parent depends)
      have differs : earlier ≠ key := by
        rintro rfl
        exact keyAbsent (by simp)
      refine .smaller (atEarlier.mem_keys earlier (by simp)).1 (lt_of_le_of_ne least differs) ?_
      intro parent depends
      have inLeft : parent ∈ left := atEarlier.dependency_mem_front depends
      obtain ⟨first, second, rfl⟩ := List.append_of_mem inLeft
      have atParent : Settles table ∅
          ((first ++ parent :: (second ++ earlier :: right)) ++ key :: back) := by
        simpa using settles
      refine ih _ ?_ _ _ atParent rfl
      simp only [List.length_append, List.length_cons] at size ⊢
      omega
    · push Not at ready
      obtain ⟨parent, depends, outside⟩ := ready
      have inside := keyMet parent depends
      rcases List.mem_append.mp inside with inLeft | inRest
      · exact absurd inLeft outside
      · rcases List.mem_cons.mp inRest with rfl | inRight
        · exact .parent depends
        · obtain ⟨first, second, rfl⟩ := List.append_of_mem inRight
          have atParent : Settles table ∅
              ((left ++ earlier :: first) ++ parent :: (second ++ key :: back)) := by
            simpa using settles
          refine .ancestor depends (ih _ ?_ _ _ atParent rfl)
          simp only [List.length_append, List.length_cons] at size ⊢
          omega

/-- **Precedence in a smallest-first order.** In a complete settled order the keys in
front of `key` are exactly those that must settle before it. -/
theorem mem_prefix_iff_settlesBefore
    (settles : Settles table ∅ (front ++ key :: back))
    (complete : ∀ other ∈ table.keys, other ∈ front ++ key :: back) (earlier : κ) :
    earlier ∈ front ↔ SettlesBefore table earlier key :=
  ⟨fun member => settles.settlesBefore_of_mem_front member,
    fun before => settles.mem_front_of_settlesBefore complete before⟩

end Settles

/-! ## The loop settles keys in that order -/

section Drain

variable {table : Table κ} {settled : Finset κ} {state : State κ}

theorem mem_dependencies_iff {key parent : κ} :
    parent ∈ dependencies table key ↔ DependsOn table key parent := by
  unfold dependencies DependsOn
  induction table with
  | nil => simp
  | cons row rest ih =>
    obtain ⟨name, parents⟩ := row
    by_cases same : name = key
    · subst same
      simp only [List.filter_cons, decide_true, ↓reduceIte, List.foldr_cons, Finset.mem_union,
        List.mem_toFinset, ih, List.mem_cons, Prod.mk.injEq, true_and]
      constructor
      · rintro (here | ⟨listed, later, member⟩)
        · exact ⟨parents, .inl rfl, here⟩
        · exact ⟨listed, .inr later, member⟩
      · rintro ⟨listed, rfl | later, member⟩
        · exact .inl member
        · exact .inr ⟨listed, later, member⟩
    · simp only [List.filter_cons, same, decide_false, Bool.false_eq_true, ↓reduceIte, ih,
        List.mem_cons, Prod.mk.injEq, Ne.symm same, false_and, false_or]

/-- With one row per key the counted dependencies are the distinct ones. -/
theorem indegree_eq_card (distinct : table.keys.Nodup) (key : κ) :
    indegree table key = (dependencies table key).card := by
  unfold indegree dependencies
  induction table with
  | nil => simp
  | cons row rest ih =>
    obtain ⟨name, parents⟩ := row
    obtain ⟨absent, distinct⟩ := List.nodup_cons.mp distinct
    by_cases same : name = key
    · subst same
      have none_left : rest.filter (fun row => row.1 = name) = [] := by
        rw [List.filter_eq_nil_iff]
        intro row member matched
        exact absent (List.mem_map.mpr ⟨row, member, of_decide_eq_true matched⟩)
      simp [none_left]
    · simp only [List.filter_cons, same, decide_false, Bool.false_eq_true, ↓reduceIte,
        ih distinct]

theorem mem_children_iff {key parent : κ} :
    key ∈ children table parent ↔ DependsOn table key parent := by
  simp only [children, DependsOn, List.mem_map, List.mem_filter, decide_eq_true_eq]
  constructor
  · rintro ⟨⟨name, parents⟩, ⟨member, listed⟩, rfl⟩
    exact ⟨parents, member, listed⟩
  · rintro ⟨parents, member, listed⟩
    exact ⟨(key, parents), ⟨member, listed⟩, rfl⟩

theorem children_nodup (distinct : table.keys.Nodup) (parent : κ) :
    (children table parent).Nodup :=
  distinct.sublist (List.filter_sublist.map _)

omit [LinearOrder κ] in
theorem mem_keys_of_dependsOn {key parent : κ} (depends : DependsOn table key parent) :
    key ∈ table.keys := by
  obtain ⟨parents, member, _⟩ := depends
  exact List.mem_map.mpr ⟨(key, parents), member, rfl⟩

/-- Releasing distinct dependents lowers each of their counts by one and readies the
ones that had a single unmet dependency. -/
theorem release_spec {dependents : List κ} (distinct : dependents.Nodup)
    (positive : ∀ key ∈ dependents, 0 < state.indegree key) :
    ∃ released, release state dependents = some released ∧
      (∀ key, released.indegree key =
        if key ∈ dependents then state.indegree key - 1 else state.indegree key) ∧
      ∀ key, key ∈ released.ready ↔
        key ∈ state.ready ∨ key ∈ dependents ∧ state.indegree key = 1 := by
  induction dependents generalizing state with
  | nil => exact ⟨state, rfl, by simp, by simp⟩
  | cons dependent rest ih =>
    obtain ⟨absent, distinct⟩ := List.nodup_cons.mp distinct
    have unmet := positive dependent List.mem_cons_self
    obtain ⟨released, computed, counts, ready⟩ := @ih
      { indegree := Function.update state.indegree dependent (state.indegree dependent - 1)
        ready := if state.indegree dependent - 1 = 0 then insert dependent state.ready
          else state.ready }
      distinct (by
        intro key member
        have differs : key ≠ dependent := by rintro rfl; exact absent member
        simpa only [Function.update_of_ne differs] using
          positive key (List.mem_cons_of_mem _ member))
    refine ⟨released, ?_, ?_, ?_⟩
    · rw [release, if_neg (by omega)]
      exact computed
    · intro key
      rw [counts key]
      by_cases same : key = dependent
      · subst same
        simp [absent]
      · simp [same]
    · intro key
      rw [ready key]
      by_cases same : key = dependent
      · subst same
        by_cases single : state.indegree key = 1
        · simp [absent, single]
        · have more : state.indegree key - 1 ≠ 0 := by omega
          simp [absent, single, more]
      · have readied : (key ∈ if state.indegree dependent - 1 = 0 then
            insert dependent state.ready else state.ready) ↔ key ∈ state.ready := by
          split <;> simp [same]
        simp [same, readied]

/-- What holds between rounds: counts measure unmet dependencies, the ready keys are
the unsettled ones without any, and settled keys have settled dependencies. -/
structure Invariant (table : Table κ) (settled : Finset κ) (state : State κ) : Prop where
  indegree_eq : ∀ key, state.indegree key = (dependencies table key \ settled).card
  ready_iff : ∀ key, key ∈ state.ready ↔
    key ∈ table.keys ∧ key ∉ settled ∧ Met table settled key
  closed : ∀ key ∈ settled, Met table settled key

theorem met_iff_unmet_card_eq_zero {key : κ} :
    Met table settled key ↔ (dependencies table key \ settled).card = 0 := by
  rw [Finset.card_eq_zero, Finset.sdiff_eq_empty_iff_subset]
  exact ⟨fun met parent member => met parent (mem_dependencies_iff.mp member),
    fun contained parent depends => contained (mem_dependencies_iff.mpr depends)⟩

theorem initial_invariant (distinct : table.keys.Nodup) :
    Invariant table ∅ (initial table) where
  indegree_eq key := by
    rw [Finset.sdiff_empty]
    exact indegree_eq_card distinct key
  ready_iff key := by
    simp only [initial, Finset.mem_filter, List.mem_toFinset, met_iff_unmet_card_eq_zero,
      Finset.sdiff_empty, Finset.notMem_empty, not_false_eq_true, true_and,
      indegree_eq_card distinct]
  closed := by simp

/-- One round settles `key` and re-establishes the invariant. -/
theorem Invariant.round (invariant : Invariant table settled state)
    (distinct : table.keys.Nodup) {key : κ} (ready : key ∈ state.ready) :
    ∃ released,
      release { state with ready := state.ready.erase key } (children table key) =
        some released ∧
      Invariant table (insert key settled) released := by
  obtain ⟨listed, fresh, met⟩ := (invariant.ready_iff key).mp ready
  have unmetCard : ∀ other, DependsOn table other key →
      (dependencies table other \ insert key settled).card + 1 =
        (dependencies table other \ settled).card := by
    intro other depends
    have member : key ∈ dependencies table other \ settled :=
      Finset.mem_sdiff.mpr ⟨mem_dependencies_iff.mpr depends, fresh⟩
    rw [Finset.sdiff_insert, Finset.card_erase_add_one member]
  have positive : ∀ other ∈ children table key, 0 < state.indegree other := by
    intro other member
    rw [invariant.indegree_eq other, ← unmetCard other (mem_children_iff.mp member)]
    omega
  obtain ⟨released, computed, counts, readied⟩ :=
    @release_spec κ _ { state with ready := state.ready.erase key } _
      (children_nodup distinct key) positive
  have countsEq : ∀ other,
      released.indegree other = (dependencies table other \ insert key settled).card := by
    intro other
    rw [counts other]
    by_cases depends : DependsOn table other key
    · rw [if_pos (mem_children_iff.mpr depends)]
      have before := unmetCard other depends
      have counted := invariant.indegree_eq other
      simp only at counted ⊢
      omega
    · rw [if_neg (fun member => depends (mem_children_iff.mp member))]
      have absent : key ∉ dependencies table other \ settled := fun member =>
        depends (mem_dependencies_iff.mp (Finset.mem_sdiff.mp member).1)
      rw [Finset.sdiff_insert, Finset.erase_eq_of_notMem absent]
      exact invariant.indegree_eq other
  refine ⟨released, computed, countsEq, ?_, ?_⟩
  · intro other
    rw [readied other, met_iff_unmet_card_eq_zero, ← countsEq other, counts other]
    simp only [Finset.mem_erase, Finset.mem_insert, not_or]
    by_cases depends : DependsOn table other key
    · have child := mem_children_iff.mpr depends
      have unsettled : other ∉ settled := fun inside =>
        fresh (invariant.closed other inside key depends)
      have differs : other ≠ key := by
        rintro rfl
        exact fresh (met other depends)
      have single := positive other child
      simp only [child, if_true, true_and, differs, not_false_eq_true, ne_eq, unsettled,
        mem_keys_of_dependsOn depends]
      constructor
      · rintro (already | one)
        · have zero := met_iff_unmet_card_eq_zero.mp ((invariant.ready_iff other).mp already).2.2
          have counted := invariant.indegree_eq other
          omega
        · omega
      · intro zero
        exact .inr (by omega)
    · have notChild : other ∉ children table key := fun member =>
        depends (mem_children_iff.mp member)
      simp only [notChild, if_false, false_and, or_false, invariant.ready_iff other,
        invariant.indegree_eq other, met_iff_unmet_card_eq_zero]
      tauto
  · intro other inside parent depends
    rcases Finset.mem_insert.mp inside with rfl | before
    · exact Finset.mem_insert_of_mem (met parent depends)
    · exact Finset.mem_insert_of_mem (invariant.closed other before parent depends)

/-- The loop never underflows a count and settles the smallest ready key each time. -/
theorem Invariant.drain_settles (invariant : Invariant table settled state)
    (distinct : table.keys.Nodup) (fuel : ℕ) :
    ∃ ordered, drain table fuel state = some ordered ∧ Settles table settled ordered := by
  induction fuel generalizing settled state with
  | zero => exact ⟨[], rfl, .nil settled⟩
  | succ fuel ih =>
    cases least : state.ready.min with
    | top =>
      refine ⟨[], ?_, .nil settled⟩
      simp only [drain, least]
    | coe key =>
      have ready : key ∈ state.ready := Finset.mem_of_min least
      obtain ⟨released, computed, preserved⟩ := invariant.round distinct ready
      obtain ⟨rest, drained, tail⟩ := ih preserved
      obtain ⟨listed, fresh, met⟩ := (invariant.ready_iff key).mp ready
      refine ⟨key :: rest, ?_, .cons listed fresh met ?_ tail⟩
      · simp only [drain, least, computed, Option.bind_eq_bind, Option.bind_some, drained]
      · intro other otherListed otherFresh otherMet
        have otherReady := (invariant.ready_iff other).mpr ⟨otherListed, otherFresh, otherMet⟩
        exact WithTop.coe_le_coe.mp (least ▸ Finset.min_le otherReady)

end Drain

/-- **The loop computes a smallest-first order.** With one row per key it never fails. -/
theorem order_settles {table : Table κ} (distinct : table.keys.Nodup) :
    ∃ ordered, order table = some ordered ∧ Settles table ∅ ordered :=
  (initial_invariant distinct).drain_settles distinct _

end KahnOrder
