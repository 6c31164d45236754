import Mathlib.Algebra.BigOperators.Group.List.Lemmas
import Mathlib.Algebra.Ring.Defs
import Mathlib.Tactic.Common

/-! # Sums by groups

Items are grouped by a key that some of them do not have. The sums of the groups add up to the sum
over all items, where no group is counted twice and every item that has a share belongs to one.
-/

namespace GroupedSums

variable {Item Key M : Type*} [DecidableEq Key] [AddCommMonoid M] (key : Item → Option Key)
  (share : Item → M) {keys : List Key} {items : List Item}

/-- The sum of the items of a group. -/
def groupSum (items : List Item) (group : Key) : M :=
  (items.map fun item => if key item = some group then share item else 0).sum

@[simp] theorem groupSum_nil (group : Key) : groupSum key share [] group = 0 := rfl

theorem groupSum_cons (item : Item) (group : Key) :
    groupSum key share (item :: items) group =
      (if key item = some group then share item else 0) + groupSum key share items group := by
  unfold groupSum
  rw [List.map_cons, List.sum_cons]

theorem groupSum_congr {other : Item → M} {group : Key}
    (same : ∀ item ∈ items, key item = some group → share item = other item) :
    groupSum key share items group = groupSum key other items group := by
  unfold groupSum
  apply congrArg List.sum
  apply List.map_congr_left
  intro item member
  split_ifs with grouped
  · exact same item member grouped
  · rfl

theorem groupSum_zero (group : Key) : groupSum key (fun _ => (0 : M)) items group = 0 := by
  apply List.sum_eq_zero
  intro summand member
  obtain ⟨item, -, rfl⟩ := List.mem_map.mp member
  exact ite_self 0

theorem groupSum_mul_left {R : Type*} [NonUnitalNonAssocSemiring R] (share : Item → R) (factor : R)
    (group : Key) :
    groupSum key (fun item => factor * share item) items group =
      factor * groupSum key share items group := by
  induction items with
  | nil => exact (mul_zero factor).symm
  | cons item items ih => rw [groupSum_cons, groupSum_cons, ih, mul_add, mul_ite, mul_zero]

/-- An item adds its share to one of the groups. -/
theorem sum_map_share {item : Item} (nodup : keys.Nodup)
    (covered : share item ≠ 0 → ∃ group ∈ keys, key item = some group) :
    (keys.map fun group => if key item = some group then share item else 0).sum = share item := by
  by_cases void : share item = 0
  · rw [void]
    apply List.sum_eq_zero
    intro summand member
    obtain ⟨group, -, rfl⟩ := List.mem_map.mp member
    exact ite_self 0
  · obtain ⟨group, member, same⟩ := covered void
    rw [List.sum_map_eq_nsmul_single group]
    · rw [List.count_eq_one_of_mem nodup member, one_nsmul, if_pos same]
    · intro other different _
      apply if_neg
      intro also
      exact different (Option.some.inj (also.symm.trans same))

theorem sum_groupSum (nodup : keys.Nodup)
    (covered : ∀ item ∈ items, share item ≠ 0 → ∃ group ∈ keys, key item = some group) :
    (keys.map (groupSum key share items)).sum = (items.map share).sum := by
  induction items with
  | nil =>
    apply List.sum_eq_zero
    intro summand member
    obtain ⟨group, -, rfl⟩ := List.mem_map.mp member
    rfl
  | cons item items ih =>
    have split : keys.map (groupSum key share (item :: items)) = keys.map fun group =>
        (if key item = some group then share item else 0) + groupSum key share items group :=
      List.map_congr_left fun group _ => groupSum_cons key share item group
    rw [split, List.sum_map_add, sum_map_share key share nodup (covered item (.head _)),
      ih fun other member => covered other (.tail _ member), List.map_cons, List.sum_cons]

end GroupedSums
