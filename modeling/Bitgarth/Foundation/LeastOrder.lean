import Mathlib.Data.Fintype.Sets
import Mathlib.Data.List.Lex
import Mathlib.Logic.Relation
import Mathlib.Data.Fintype.EquivFin
import Bitgarth.Foundation.KahnOrder

/-! # Least topological orders

The loop of `KahnOrder` settles every key exactly when no key depends on itself
(`order_complete_iff`). A complete settled order is the lexicographically least of
the topological orders of its table (`Settles.le_of_topologicalOrder`).
-/

namespace KahnOrder

variable {κ : Type*}

/-- `ordered` lists the keys of the table, each after the keys it depends on. -/
structure TopologicalOrder (table : Table κ) (ordered : List κ) : Prop where
  perm_keys : ordered.Perm table.keys
  parents_first : ∀ front key back, ordered = front ++ key :: back →
    ∀ parent, DependsOn table key parent → parent ∈ front

/-- No key depends on itself, directly or through other keys. -/
def Acyclic (table : Table κ) : Prop := ∀ key, ¬ Relation.TransGen (DependsOn table) key key

/-- Every dependency has a row of its own. -/
def Closed (table : Table κ) : Prop :=
  ∀ key parent, DependsOn table key parent → parent ∈ table.keys

section Congruence

variable {left right : Table κ}

theorem dependsOn_iff_of_mem_iff (rows : ∀ row, row ∈ left ↔ row ∈ right) {child parent : κ} :
    DependsOn left child parent ↔ DependsOn right child parent := by
  simp only [DependsOn, rows]

theorem mem_keys_iff_of_mem_iff (rows : ∀ row, row ∈ left ↔ row ∈ right) {key : κ} :
    key ∈ left.keys ↔ key ∈ right.keys := by
  simp only [Table.keys, List.mem_map, rows]

theorem acyclic_iff_of_mem_iff (rows : ∀ row, row ∈ left ↔ row ∈ right) :
    Acyclic left ↔ Acyclic right := by
  have same : DependsOn left = DependsOn right := by
    funext child parent
    exact propext (dependsOn_iff_of_mem_iff rows)
  rw [Acyclic, Acyclic, same]

/-- Precedence depends on which rows there are, not on their order. -/
theorem SettlesBefore.of_mem_iff [LinearOrder κ] (rows : ∀ row, row ∈ left ↔ row ∈ right)
    {earlier later : κ} (before : SettlesBefore left earlier later) :
    SettlesBefore right earlier later := by
  induction before with
  | parent depends => exact .parent ((dependsOn_iff_of_mem_iff rows).mp depends)
  | ancestor depends _ ih => exact .ancestor ((dependsOn_iff_of_mem_iff rows).mp depends) ih
  | smaller listed less _ ih =>
    refine .smaller ((mem_keys_iff_of_mem_iff rows).mp listed) less ?_
    exact fun parent depends => ih parent ((dependsOn_iff_of_mem_iff rows).mpr depends)

end Congruence

section Cycles

variable {table : Table κ}

/-- Without a cycle some key of a nonempty finite set depends on none of the set. -/
theorem exists_independent (acyclic : Acyclic table) {keys : Finset κ}
    (nonempty : keys.Nonempty) : ∃ key ∈ keys, ∀ parent ∈ keys, ¬ DependsOn table key parent := by
  let below : keys → keys → Prop :=
    fun parent child => Relation.TransGen (DependsOn table) child.1 parent.1
  have trans : IsTrans keys below := ⟨fun _ _ _ first second => second.trans first⟩
  have irrefl : Std.Irrefl below := ⟨fun key cycle => acyclic key.1 cycle⟩
  have wellFounded : WellFounded below := Finite.wellFounded_of_trans_of_irrefl below
  obtain ⟨start, member⟩ := nonempty
  obtain ⟨least, _, minimal⟩ := wellFounded.has_min Set.univ ⟨⟨start, member⟩, trivial⟩
  refine ⟨least.1, least.2, ?_⟩
  intro parent inside depends
  exact minimal ⟨parent, inside⟩ trivial (.single depends)

end Cycles

section Topological

variable [LinearOrder κ] {table : Table κ} {settled : Finset κ} {ordered other : List κ}

/-- The keys of a topological order get positions that grow along dependencies. -/
theorem TopologicalOrder.idxOf_lt (topological : TopologicalOrder table ordered) {child parent : κ}
    (depends : DependsOn table child parent) : ordered.idxOf parent < ordered.idxOf child := by
  have listed : child ∈ ordered :=
    topological.perm_keys.mem_iff.mpr (mem_keys_of_dependsOn depends)
  obtain ⟨front, back, whole, absent⟩ := List.eq_append_cons_of_mem listed
  have inFront := topological.parents_first front child back whole parent depends
  have childAt : ordered.idxOf child = front.length := by
    rw [whole, List.idxOf_append_of_notMem absent, List.idxOf_cons_self, Nat.add_zero]
  rw [childAt, whole, List.idxOf_append_of_mem inFront]
  exact List.idxOf_lt_length_iff.mpr inFront

theorem TopologicalOrder.acyclic (topological : TopologicalOrder table ordered) :
    Acyclic table := by
  have descends : ∀ child parent, Relation.TransGen (DependsOn table) child parent →
      ordered.idxOf parent < ordered.idxOf child := by
    intro child parent path
    induction path with
    | single depends => exact topological.idxOf_lt depends
    | tail path depends ih => exact (topological.idxOf_lt depends).trans ih
  exact fun key cycle => absurd (descends key key cycle) (lt_irrefl _)

theorem Settles.topologicalOrder (settles : Settles table ∅ ordered)
    (complete : ordered.length = table.length) : TopologicalOrder table ordered where
  perm_keys := settles.perm_keys complete
  parents_first := by
    intro front key back whole parent depends
    subst whole
    exact settles.dependency_mem_front depends

/-- Dependencies without a cycle leave some unsettled key with settled dependencies. -/
theorem exists_met (acyclic : Acyclic table) (closed : Closed table)
    (unsettled : ∃ key ∈ table.keys, key ∉ settled) :
    ∃ key ∈ table.keys, key ∉ settled ∧ Met table settled key := by
  obtain ⟨start, startListed, startFresh⟩ := unsettled
  have inRemaining : ∀ key, key ∈ table.keys.toFinset \ settled ↔
      key ∈ table.keys ∧ key ∉ settled := by
    intro key
    rw [Finset.mem_sdiff, List.mem_toFinset]
  obtain ⟨key, member, independent⟩ := exists_independent acyclic
    ⟨start, (inRemaining start).mpr ⟨startListed, startFresh⟩⟩
  obtain ⟨listed, fresh⟩ := (inRemaining key).mp member
  refine ⟨key, listed, fresh, ?_⟩
  intro parent depends
  by_contra outside
  exact independent parent ((inRemaining parent).mpr ⟨closed key parent depends, outside⟩) depends

/-- With enough rounds the loop stops only when no key is ready. -/
theorem Invariant.drain_exhausts {state : State κ} (invariant : Invariant table settled state)
    (distinct : table.keys.Nodup) {fuel : ℕ}
    (enough : (table.keys.toFinset \ settled).card ≤ fuel) :
    ∃ ordered, drain table fuel state = some ordered ∧ Settles table settled ordered ∧
      ∀ key ∈ table.keys, Met table (settled ∪ ordered.toFinset) key →
        key ∈ settled ∪ ordered.toFinset := by
  induction fuel generalizing settled state with
  | zero =>
    have settledAll : table.keys.toFinset ⊆ settled :=
      Finset.sdiff_eq_empty_iff_subset.mp (Finset.card_eq_zero.mp (Nat.le_zero.mp enough))
    refine ⟨[], rfl, .nil settled, ?_⟩
    intro key listed _
    exact Finset.mem_union_left _ (settledAll (List.mem_toFinset.mpr listed))
  | succ fuel ih =>
    cases least : state.ready.min with
    | top =>
      refine ⟨[], by simp only [drain, least], .nil settled, ?_⟩
      intro key listed met
      rw [List.toFinset_nil, Finset.union_empty] at met ⊢
      by_contra fresh
      have ready := (invariant.ready_iff key).mpr ⟨listed, fresh, met⟩
      rw [Finset.min_eq_top.mp least] at ready
      exact absurd ready (Finset.notMem_empty key)
    | coe key =>
      have ready : key ∈ state.ready := Finset.mem_of_min least
      obtain ⟨released, computed, preserved⟩ := invariant.round distinct ready
      obtain ⟨listed, fresh, met⟩ := (invariant.ready_iff key).mp ready
      have member : key ∈ table.keys.toFinset \ settled :=
        Finset.mem_sdiff.mpr ⟨List.mem_toFinset.mpr listed, fresh⟩
      have fewer := Finset.card_erase_add_one member
      obtain ⟨rest, drained, tail, exhausted⟩ :=
        ih preserved (by rw [Finset.sdiff_insert]; omega)
      have sameSet : insert key settled ∪ rest.toFinset =
          settled ∪ (key :: rest).toFinset := by
        rw [List.toFinset_cons, Finset.insert_union, Finset.union_insert]
      rw [sameSet] at exhausted
      refine ⟨key :: rest, ?_, .cons listed fresh met ?_ tail, exhausted⟩
      · simp only [drain, least, computed, Option.bind_eq_bind, Option.bind_some, drained]
      · intro other otherListed otherFresh otherMet
        have otherReady := (invariant.ready_iff other).mpr ⟨otherListed, otherFresh, otherMet⟩
        exact WithTop.coe_le_coe.mp (least ▸ Finset.min_le otherReady)

/-- **Cycle detection by counting.** When every dependency has a row, the loop settles
one key for each row exactly when there is no cycle. -/
theorem order_complete_iff (distinct : table.keys.Nodup) (closed : Closed table) :
    ∃ ordered, order table = some ordered ∧ Settles table ∅ ordered ∧
      (ordered.length = table.length ↔ Acyclic table) := by
  have keysCard : table.keys.toFinset.card = table.length := by
    rw [List.toFinset_card_of_nodup distinct]
    simp [Table.keys]
  have enough : (table.keys.toFinset \ ∅).card ≤ table.length := by
    rw [Finset.sdiff_empty, keysCard]
  obtain ⟨ordered, drained, settles, exhausted⟩ :=
    (initial_invariant distinct).drain_exhausts distinct enough
  refine ⟨ordered, drained, settles, ?_⟩
  constructor
  · exact fun complete => (settles.topologicalOrder complete).acyclic
  · intro acyclic
    rw [Finset.empty_union] at exhausted
    have covered : ∀ key ∈ table.keys, key ∈ ordered := by
      by_contra missing
      push Not at missing
      obtain ⟨start, startListed, absent⟩ := missing
      have unsettled : ∃ key ∈ table.keys, key ∉ ordered.toFinset :=
        ⟨start, startListed, fun inside => absent (List.mem_toFinset.mp inside)⟩
      obtain ⟨key, listed, fresh, met⟩ := exists_met acyclic closed unsettled
      exact fresh (exhausted key listed met)
    have perm : ordered.Perm table.keys :=
      (List.perm_ext_iff_of_nodup settles.nodup distinct).mpr fun key =>
        ⟨fun member => (settles.mem_keys key member).1, covered key⟩
    simpa [Table.keys] using perm.length_eq

/-- A settled order is at most any list of unsettled keys that covers it and keeps
dependencies first. -/
theorem Settles.le_of_parents_first (settles : Settles table settled ordered)
    (covers : ∀ key ∈ ordered, key ∈ other)
    (unsettled : ∀ key ∈ other, key ∈ table.keys ∧ key ∉ settled) (nodup : other.Nodup)
    (parentsFirst : ∀ front key back, other = front ++ key :: back →
      Met table (settled ∪ front.toFinset) key) : ordered ≤ other := by
  induction settles generalizing other with
  | nil settled =>
    cases other with
    | nil => exact le_rfl
    | cons first later => exact le_of_lt List.Lex.nil
  | @cons settled key rest listed fresh met smallest tail ih =>
    cases other with
    | nil => exact absurd (covers key List.mem_cons_self) List.not_mem_nil
    | cons first later =>
      obtain ⟨absent, laterNodup⟩ := List.nodup_cons.mp nodup
      obtain ⟨firstListed, firstFresh⟩ := unsettled first List.mem_cons_self
      have firstMet := parentsFirst [] first later rfl
      rw [List.toFinset_nil, Finset.union_empty] at firstMet
      rcases (smallest first firstListed firstFresh firstMet).lt_or_eq with less | rfl
      · exact le_of_lt (List.Lex.rel less)
      · refine List.cons_le_cons key (ih ?_ ?_ laterNodup ?_)
        · intro other member
          rcases List.mem_cons.mp (covers other (List.mem_cons_of_mem _ member)) with
            rfl | inLater
          · exact absurd (Finset.mem_insert_self _ _) (tail.mem_keys _ member).2
          · exact inLater
        · intro other member
          obtain ⟨otherListed, otherFresh⟩ := unsettled other (List.mem_cons_of_mem _ member)
          refine ⟨otherListed, ?_⟩
          rw [Finset.mem_insert, not_or]
          exact ⟨fun same => absent (same ▸ member), otherFresh⟩
        · intro front later back whole
          have placed := parentsFirst (key :: front) later back (by rw [whole]; rfl)
          rwa [List.toFinset_cons, Finset.union_insert, ← Finset.insert_union] at placed

/-- **The settled order is the least.** No topological order of the table precedes a
complete settled order lexicographically. -/
theorem Settles.le_of_topologicalOrder (settles : Settles table ∅ ordered)
    (distinct : table.keys.Nodup) (topological : TopologicalOrder table other) :
    ordered ≤ other := by
  refine settles.le_of_parents_first ?_ ?_ ?_ ?_
  · exact fun key member => topological.perm_keys.mem_iff.mpr (settles.mem_keys key member).1
  · exact fun key member => ⟨topological.perm_keys.mem_iff.mp member, Finset.notMem_empty key⟩
  · exact topological.perm_keys.nodup_iff.mpr distinct
  · intro front key back whole parent depends
    rw [Finset.empty_union, List.mem_toFinset]
    exact topological.parents_first front key back whole parent depends

end Topological

end KahnOrder
