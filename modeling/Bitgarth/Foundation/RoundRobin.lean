import Mathlib.Data.List.Perm.Basic
import Mathlib.Tactic.Common

/-! # Taking turns

Rows of items take turns: a round has the next item of every row that still has one. The rounds
rearrange the rows' items, keep the order of each row, and serve no row a further time while one
that still has items was served less often.
-/

namespace RoundRobin

variable {Key Item : Type*} (rows : List (Key × List Item)) (turn turns : ℕ)

/-- The items of a round. -/
def round : List (Key × Item) :=
  rows.filterMap fun row => row.2[turn]?.map fun item => (row.1, item)

/-- The items of the first rounds. -/
def rounds : List (Key × Item) := (List.range turns).flatMap (round rows)

theorem rounds_succ : rounds rows (turns + 1) = rounds rows turns ++ round rows turns := by
  unfold rounds
  rw [List.range_succ, List.flatMap_append, List.flatMap_singleton]

variable {rows turn turns}

theorem round_cons (row : Key × List Item) :
    round (row :: rows) turn =
      (row.2[turn]?.map fun item => (row.1, item)).toList ++ round rows turn := by
  unfold round
  rw [List.filterMap_cons]
  cases row.2[turn]? <;> rfl

theorem flatMap_getElem? {Item' : Type*} (items : List Item) (f : Item → Item') :
    ((List.range turns).flatMap fun turn => (items[turn]?.map f).toList) =
      (items.take turns).map f := by
  induction turns with
  | zero => rfl
  | succ turns ih =>
    rw [List.range_succ, List.flatMap_append, ih, List.flatMap_singleton, List.take_add_one,
      List.map_append]
    cases items[turns]? <;> rfl

/-- With enough rounds, every item of every row comes once. -/
theorem rounds_perm (enough : ∀ row ∈ rows, row.2.length ≤ turns) :
    (rounds rows turns).Perm (rows.flatMap fun row => row.2.map fun item => (row.1, item)) := by
  induction rows with
  | nil =>
    apply List.Perm.of_eq
    exact List.flatMap_eq_nil_iff.mpr fun _ _ => rfl
  | cons row rows ih =>
    have first : ((List.range turns).flatMap fun turn =>
        (row.2[turn]?.map fun item => (row.1, item)).toList) =
          row.2.map fun item => (row.1, item) := by
      rw [flatMap_getElem?, List.take_of_length_le (enough row (.head _))]
    have split : rounds (row :: rows) turns = (List.range turns).flatMap fun turn =>
        (row.2[turn]?.map fun item => (row.1, item)).toList ++ round rows turn :=
      List.flatMap_congr fun turn _ => round_cons row
    rw [split, List.flatMap_cons, ← first]
    apply (List.flatMap_append_perm _ _ _).symm.trans
    exact (List.Perm.refl _).append (ih fun other member => enough other (.tail _ member))

theorem mem_of_mem_round {entry : Key × Item} (member : entry ∈ round rows turn) :
    ∃ items, (entry.1, items) ∈ rows := by
  obtain ⟨row, present, taken⟩ := List.mem_filterMap.mp member
  obtain ⟨item, -, rfl⟩ := Option.map_eq_some_iff.mp taken
  exact ⟨row.2, present⟩

section Keys

variable [DecidableEq Key] {key : Key} {items : List Item}

/-- The items of a key, in their order. -/
def itemsOf (key : Key) (entries : List (Key × Item)) : List Item :=
  (entries.filter fun entry => entry.1 = key).map Prod.snd

theorem itemsOf_append (entries later : List (Key × Item)) :
    itemsOf key (entries ++ later) = itemsOf key entries ++ itemsOf key later := by
  unfold itemsOf
  rw [List.filter_append, List.map_append]

theorem itemsOf_cons_self (item : Item) (entries : List (Key × Item)) :
    itemsOf key ((key, item) :: entries) = item :: itemsOf key entries := by
  unfold itemsOf
  rw [List.filter_cons_of_pos (by simp), List.map_cons]

theorem itemsOf_eq_nil {entries : List (Key × Item)} (absent : ∀ entry ∈ entries, entry.1 ≠ key) :
    itemsOf key entries = [] := by
  unfold itemsOf
  rw [List.map_eq_nil_iff, List.filter_eq_nil_iff]
  intro entry member
  simpa using absent entry member

theorem itemsOf_round (nodup : (rows.map Prod.fst).Nodup) (member : (key, items) ∈ rows) :
    itemsOf key (round rows turn) = items[turn]?.toList := by
  induction rows with
  | nil => cases member
  | cons row rows ih =>
    rw [List.map_cons, List.nodup_cons] at nodup
    obtain ⟨fresh, others⟩ := nodup
    rw [round_cons, itemsOf_append]
    rcases List.mem_cons.mp member with rfl | later
    · have absent : itemsOf key (round rows turn) = [] := by
        apply itemsOf_eq_nil
        rintro entry taken rfl
        obtain ⟨_, present⟩ := mem_of_mem_round taken
        exact fresh (List.mem_map.mpr ⟨_, present, rfl⟩)
      rw [absent, List.append_nil]
      cases items[turn]? with
      | none => rfl
      | some item => exact itemsOf_cons_self item []
    · have absent : itemsOf key (row.2[turn]?.map fun item => (row.1, item)).toList = [] := by
        apply itemsOf_eq_nil
        rintro entry taken rfl
        obtain ⟨item, -, rfl⟩ := Option.map_eq_some_iff.mp (Option.mem_toList.mp taken)
        exact fresh (List.mem_map.mpr ⟨_, later, rfl⟩)
      rw [absent, List.nil_append, ih others later]

/-- The rounds keep the order of every row. -/
theorem itemsOf_rounds (nodup : (rows.map Prod.fst).Nodup) (member : (key, items) ∈ rows) :
    itemsOf key (rounds rows turns) = items.take turns := by
  induction turns with
  | zero => rfl
  | succ turns ih =>
    rw [rounds_succ, itemsOf_append, ih, itemsOf_round nodup member, List.take_add_one]

/-- What holds along the items of every key holds between any two entries of one key. -/
theorem pairwise_of_itemsOf {related : Item → Item → Prop} {entries : List (Key × Item)}
    (along : ∀ key, (itemsOf key entries).Pairwise related) :
    entries.Pairwise fun first second => first.1 = second.1 → related first.2 second.2 := by
  induction entries with
  | nil => exact .nil
  | cons entry entries ih =>
    apply List.Pairwise.cons
    · intro later member same
      have own := along entry.1
      rw [itemsOf_cons_self] at own
      apply List.rel_of_pairwise_cons own
      exact List.mem_map.mpr ⟨later, List.mem_filter.mpr ⟨member, by simpa using same.symm⟩, rfl⟩
    · apply ih
      intro key
      apply List.Pairwise.sublist _ (along key)
      unfold itemsOf
      exact ((List.sublist_cons_self entry entries).filter _).map _

/-- In a round, a row is served when every row has been served in all rounds before. -/
theorem length_itemsOf_le_of_round {within after : List (Key × Item)} {entry : Key × Item}
    (nodup : (rows.map Prod.fst).Nodup) (member : (key, items) ∈ rows)
    (split : round rows turns = within ++ entry :: after) :
    min (itemsOf entry.1 (rounds rows turns ++ within)).length items.length ≤
      (itemsOf key (rounds rows turns ++ within)).length := by
  have inRound : entry ∈ round rows turns := by
    rw [split]
    exact List.mem_append_right _ List.mem_cons_self
  obtain ⟨own, present⟩ := mem_of_mem_round inRound
  have once : (itemsOf entry.1 (round rows turns)).length = own[turns]?.toList.length :=
    congrArg List.length (itemsOf_round nodup present)
  rw [split, itemsOf_append, itemsOf_cons_self, List.length_append, List.length_cons] at once
  have atMost : own[turns]?.toList.length ≤ 1 := by cases own[turns]? <;> simp
  rw [itemsOf_append, itemsOf_append, itemsOf_rounds nodup present, itemsOf_rounds nodup member,
    List.length_append, List.length_append, List.length_take, List.length_take]
  omega

/-- When a row is served, every other row was served as often before, or has no items left. -/
theorem length_itemsOf_le {before after : List (Key × Item)} {entry : Key × Item}
    (nodup : (rows.map Prod.fst).Nodup) (member : (key, items) ∈ rows)
    (split : rounds rows turns = before ++ entry :: after) :
    min (itemsOf entry.1 before).length items.length ≤ (itemsOf key before).length := by
  induction turns generalizing after with
  | zero => exact absurd (congrArg List.length split) (by simp [rounds])
  | succ turns ih =>
    rw [rounds_succ] at split
    rcases List.append_eq_append_iff.mp split with ⟨within, same, others⟩ | ⟨within, same, others⟩
    · subst same
      exact length_itemsOf_le_of_round nodup member others
    · cases within with
      | nil =>
        have first : round rows turns = [] ++ entry :: after := others.symm
        have here := length_itemsOf_le_of_round nodup member first
        rwa [List.append_nil, same, List.append_nil] at here
      | cons first within =>
        obtain ⟨rfl, -⟩ := List.cons.inj others
        exact ih same

end Keys

end RoundRobin
