import Mathlib.Data.List.Perm.Basic
import Bitgarth.Foundation.Fallible
import Bitgarth.Foundation.KeyedTable

/-! # Rows folded into groups

Rows are filed one after another, each under its key, into a table of groups. Where the rows of a
key determine its group (`Summary`), the table holds the group of every key that occurs
(`foldlM_fileRow_spec`), the fold fails only where some key has no group
(`exists_foldlM_fileRow`), and the order of the rows does not matter (`foldlM_fileRow_perm`).
-/

namespace GroupedFold

open KeyedTable Fallible

universe u

variable {Row Key ε : Type*} {Group : Type u} [DecidableEq Key]
  (rowKey : Row → Key) (groupKey : Group → Key) (add : Option Group → Row → Except ε Group)

/-- File a row under its key. -/
def fileRow (groups : List Group) (row : Row) : Except ε (List Group) := do
  let group ← add (find groupKey groups (rowKey row)) row
  return upsert groupKey (fun _ incoming => incoming) group groups

/-- The rows of a key. -/
def rowsOf (rows : List Row) (key : Key) : List Row :=
  rows.filter fun row => rowKey row = key

/-- The rows of a key determine a group, whatever their order, and adding a row to the group of
the rows before it gives the group of all of them. -/
structure Summary (valid : Row → Prop) (summarises : List Row → Group → Prop) : Prop where
  keyed : ∀ {rows group}, rows ≠ [] → summarises rows group →
    ∀ row ∈ rows, rowKey row = groupKey group
  first : ∀ {row group}, valid row → (add none row = .ok group ↔ summarises [row] group)
  next : ∀ {rows row group after}, valid row → rows ≠ [] → summarises rows group →
    rowKey row = groupKey group →
      (add (some group) row = .ok after ↔ summarises (rows ++ [row]) after)
  earlier : ∀ {rows row after}, rows ≠ [] → summarises (rows ++ [row]) after →
    ∃ group, summarises rows group
  unique : ∀ {rows left right}, rows ≠ [] → summarises rows left → summarises rows right →
    left = right
  perm : ∀ {rows other group}, rows.Perm other → summarises rows group → summarises other group

variable {rowKey groupKey add} {rows other : List Row} {groups otherGroups : List Group}
  {row : Row} {key : Key}

theorem rowsOf_append_of_eq (isKey : rowKey row = key) :
    rowsOf rowKey (rows ++ [row]) key = rowsOf rowKey rows key ++ [row] := by
  unfold rowsOf
  rw [List.filter_append]
  simp only [List.filter_cons, isKey, decide_true, ↓reduceIte, List.filter_nil]

theorem rowsOf_append_of_ne (isOther : rowKey row ≠ key) :
    rowsOf rowKey (rows ++ [row]) key = rowsOf rowKey rows key := by
  unfold rowsOf
  rw [List.filter_append]
  simp only [List.filter_cons, isOther, decide_false, Bool.false_eq_true, ↓reduceIte,
    List.filter_nil, List.append_nil]

theorem rowsOf_ne_nil_iff : rowsOf rowKey rows key ≠ [] ↔ ∃ row ∈ rows, rowKey row = key := by
  unfold rowsOf
  rw [ne_eq, List.filter_eq_nil_iff]
  simp only [decide_eq_true_eq, not_forall, not_not, exists_prop]

theorem rowsOf_perm (perm : rows.Perm other) (key : Key) :
    (rowsOf rowKey rows key).Perm (rowsOf rowKey other key) := perm.filter _

/-- A table holds the group of the rows of every key, and no other. -/
structure Holds (summarises : List Row → Group → Prop) (rowKey : Row → Key)
    (groupKey : Group → Key) (rows : List Row) (groups : List Group) : Prop where
  keyed : Keyed groupKey groups
  absent : ∀ key, find groupKey groups key = none → rowsOf rowKey rows key = []
  found : ∀ key group, find groupKey groups key = some group →
    rowsOf rowKey rows key ≠ [] ∧ summarises (rowsOf rowKey rows key) group

section Run

variable {valid : Row → Prop} {summarises : List Row → Group → Prop}
  (summary : Summary rowKey groupKey add valid summarises)

include summary

/-- Filing a row succeeds when its key has a group with it. -/
theorem add_eq_ok_iff {after : Group} (holds : Holds summarises rowKey groupKey rows groups)
    (isValid : valid row) :
    add (find groupKey groups (rowKey row)) row = .ok after ↔
      summarises (rowsOf rowKey (rows ++ [row]) (rowKey row)) after := by
  rw [rowsOf_append_of_eq rfl]
  cases isFound : find groupKey groups (rowKey row) with
  | none =>
    rw [holds.absent _ isFound, List.nil_append]
    exact summary.first isValid
  | some group =>
    obtain ⟨occurs, summarised⟩ := holds.found _ _ isFound
    exact summary.next isValid occurs summarised (find_eq_some_key isFound).symm

/-- **One step**: a filed row keeps the table right. -/
theorem Holds.fileRow (holds : Holds summarises rowKey groupKey rows groups)
    (isValid : valid row) (filed : fileRow rowKey groupKey add groups row = .ok otherGroups) :
    Holds summarises rowKey groupKey (rows ++ [row]) otherGroups := by
  obtain ⟨after, added, filed⟩ := bind_eq_ok.mp filed
  rw [pure_eq_ok] at filed
  subst filed
  have summarised := (add_eq_ok_iff summary holds isValid).mp added
  have occurs : rowsOf rowKey (rows ++ [row]) (rowKey row) ≠ [] :=
    rowsOf_ne_nil_iff.mpr ⟨row, List.mem_append_right _ List.mem_cons_self, rfl⟩
  have isKey : rowKey row = groupKey after := by
    apply summary.keyed occurs summarised
    exact List.mem_filter.mpr ⟨List.mem_append_right _ List.mem_cons_self, decide_eq_true rfl⟩
  have findAfter : ∀ key, find groupKey
      (upsert groupKey (fun _ incoming => incoming) after groups) key =
        if rowKey row = key then some after else find groupKey groups key := by
    intro key
    rw [isKey]
    exact @find_assign _ _ _ _ _ _ (some after) (by simp) key
  refine ⟨holds.keyed.upsert fun _ _ => rfl, ?_, ?_⟩
  · intro key isAbsent
    rw [findAfter] at isAbsent
    by_cases same : rowKey row = key
    · rw [if_pos same] at isAbsent
      cases isAbsent
    · rw [if_neg same] at isAbsent
      rw [rowsOf_append_of_ne same]
      exact holds.absent key isAbsent
  · intro key group isFound
    rw [findAfter] at isFound
    by_cases same : rowKey row = key
    · rw [if_pos same, Option.some.injEq] at isFound
      subst isFound same
      exact ⟨occurs, summarised⟩
    · rw [if_neg same] at isFound
      rw [rowsOf_append_of_ne same]
      exact holds.found key group isFound

/-- **The run**: the groups are those of the keys that occur. -/
theorem foldlM_fileRow_spec (isValid : ∀ row ∈ rows, valid row)
    (done : rows.foldlM (fileRow rowKey groupKey add) [] = .ok groups) :
    Holds summarises rowKey groupKey rows groups := by
  induction rows using List.reverseRecOn generalizing groups with
  | nil =>
    rw [List.foldlM_nil, pure_eq_ok] at done
    subst done
    exact ⟨List.nodup_nil, fun _ _ => rfl, fun _ _ isFound => by cases isFound⟩
  | append_singleton earlier last ih =>
    rw [List.foldlM_append] at done
    obtain ⟨before, ran, done⟩ := bind_eq_ok.mp done
    rw [List.foldlM_cons] at done
    obtain ⟨after, filed, done⟩ := bind_eq_ok.mp done
    rw [List.foldlM_nil, pure_eq_ok] at done
    subst done
    have holds := ih (fun row member => isValid row (List.mem_append_left _ member)) ran
    exact holds.fileRow summary
      (isValid last (List.mem_append_right _ List.mem_cons_self)) filed

/-- The rows fold exactly when every key that occurs has a group. -/
theorem exists_foldlM_fileRow (isValid : ∀ row ∈ rows, valid row) :
    (∃ groups, rows.foldlM (fileRow rowKey groupKey add) [] = .ok groups) ↔
      ∀ key, rowsOf rowKey rows key ≠ [] →
        ∃ group, summarises (rowsOf rowKey rows key) group := by
  constructor
  · rintro ⟨groups, done⟩ key occurs
    have holds := foldlM_fileRow_spec summary isValid done
    cases isFound : find groupKey groups key with
    | none => exact absurd (holds.absent key isFound) occurs
    | some group => exact ⟨group, (holds.found key group isFound).2⟩
  · intro determined
    induction rows using List.reverseRecOn with
    | nil => exact ⟨[], rfl⟩
    | append_singleton earlier last ih =>
      have earlierValid : ∀ row ∈ earlier, valid row := fun row member =>
        isValid row (List.mem_append_left _ member)
      have lastValid : valid last := isValid last (List.mem_append_right _ List.mem_cons_self)
      -- A key that occurred before has a group before, with or without the last row.
      have earlierDetermined : ∀ key, rowsOf rowKey earlier key ≠ [] →
          ∃ group, summarises (rowsOf rowKey earlier key) group := by
        intro key occurs
        by_cases same : rowKey last = key
        · have whole := determined key
          rw [rowsOf_append_of_eq same] at whole
          obtain ⟨after, summarised⟩ := whole (List.append_ne_nil_of_left_ne_nil occurs _)
          exact summary.earlier occurs summarised
        · have whole := determined key
          rw [rowsOf_append_of_ne same] at whole
          exact whole occurs
      obtain ⟨groups, ran⟩ := ih earlierValid earlierDetermined
      have holds := foldlM_fileRow_spec summary earlierValid ran
      have occurs : rowsOf rowKey (earlier ++ [last]) (rowKey last) ≠ [] :=
        rowsOf_ne_nil_iff.mpr ⟨last, List.mem_append_right _ List.mem_cons_self, rfl⟩
      obtain ⟨after, summarised⟩ := determined (rowKey last) occurs
      have added := (add_eq_ok_iff summary holds lastValid).mpr summarised
      refine ⟨upsert groupKey (fun _ incoming => incoming) after groups, ?_⟩
      rw [List.foldlM_append]
      apply bind_eq_ok.mpr
      refine ⟨groups, ran, ?_⟩
      rw [List.foldlM_cons]
      apply bind_eq_ok.mpr
      refine ⟨_, bind_eq_ok.mpr ⟨after, added, rfl⟩, ?_⟩
      rw [List.foldlM_nil, pure_eq_ok]

/-- A fold that fails has failed at a row, with a right table of the rows before it. -/
theorem exists_failed_step {err : ε} (isValid : ∀ row ∈ rows, valid row)
    (failed : rows.foldlM (fileRow rowKey groupKey add) [] = .error err) :
    ∃ earlier, ∃ row ∈ rows, ∃ groups, Holds summarises rowKey groupKey earlier groups ∧
      add (find groupKey groups (rowKey row)) row = .error err := by
  induction rows using List.reverseRecOn with
  | nil => cases failed
  | append_singleton earlier last ih =>
    have earlierValid : ∀ row ∈ earlier, valid row := fun row member =>
      isValid row (List.mem_append_left _ member)
    rw [List.foldlM_append] at failed
    cases ran : earlier.foldlM (fileRow rowKey groupKey add) [] with
    | error found =>
      rw [ran] at failed
      cases failed
      obtain ⟨before, row, member, groups, holds, step⟩ := ih earlierValid ran
      exact ⟨before, row, List.mem_append_left _ member, groups, holds, step⟩
    | ok groups =>
      have holds := foldlM_fileRow_spec summary earlierValid ran
      refine ⟨earlier, last, List.mem_append_right _ List.mem_cons_self, groups, holds, ?_⟩
      rw [ran] at failed
      cases added : add (find groupKey groups (rowKey last)) last with
      | error found =>
        have stopped : fileRow rowKey groupKey add groups last = .error found := by
          rw [fileRow, added]
          rfl
        simp only [bind, Except.bind, List.foldlM_cons, stopped, Except.error.injEq] at failed
        rw [failed]
      | ok after =>
        have filed : fileRow rowKey groupKey add groups last =
            .ok (upsert groupKey (fun _ incoming => incoming) after groups) := by
          rw [fileRow, added]
          rfl
        simp only [bind, Except.bind, List.foldlM_cons, filed, List.foldlM_nil, pure,
          Except.pure, reduceCtorEq] at failed

omit [DecidableEq Key] summary in
theorem nodup_of_keyed (keyed : Keyed groupKey groups) : groups.Nodup :=
  List.Nodup.of_map _ keyed

/-- What a table holds. -/
theorem mem_iff_of_foldlM (isValid : ∀ row ∈ rows, valid row)
    (done : rows.foldlM (fileRow rowKey groupKey add) [] = .ok groups) {group : Group} :
    group ∈ groups ↔ rowsOf rowKey rows (groupKey group) ≠ [] ∧
      summarises (rowsOf rowKey rows (groupKey group)) group := by
  have holds := foldlM_fileRow_spec summary isValid done
  rw [← find_key_eq_some_iff holds.keyed]
  constructor
  · exact holds.found _ group
  · rintro ⟨occurs, summarised⟩
    cases isFound : find groupKey groups (groupKey group) with
    | none => exact absurd (holds.absent _ isFound) occurs
    | some other =>
      rw [summary.unique occurs (holds.found _ other isFound).2 summarised]

/-- **The order of the rows does not matter.** -/
theorem foldlM_fileRow_perm (isValid : ∀ row ∈ rows, valid row) (perm : rows.Perm other)
    (done : rows.foldlM (fileRow rowKey groupKey add) [] = .ok groups) :
    ∃ otherGroups, other.foldlM (fileRow rowKey groupKey add) [] = .ok otherGroups ∧
      groups.Perm otherGroups := by
  have otherValid : ∀ row ∈ other, valid row := fun row member =>
    isValid row (perm.mem_iff.mpr member)
  have determined := (exists_foldlM_fileRow summary isValid).mp ⟨groups, done⟩
  obtain ⟨otherGroups, otherDone⟩ :=
    (exists_foldlM_fileRow summary otherValid).mpr fun key occurs => by
    have sameRows := @rowsOf_perm _ _ _ rowKey _ _ perm key
    have occursHere : rowsOf rowKey rows key ≠ [] := by
      intro empty
      rw [empty] at sameRows
      exact occurs (List.nil_perm.mp sameRows)
    obtain ⟨group, summarised⟩ := determined key occursHere
    exact ⟨group, summary.perm sameRows summarised⟩
  refine ⟨otherGroups, otherDone, ?_⟩
  have holds := foldlM_fileRow_spec summary isValid done
  have otherHolds := foldlM_fileRow_spec summary otherValid otherDone
  apply (List.perm_ext_iff_of_nodup (nodup_of_keyed holds.keyed)
    (nodup_of_keyed otherHolds.keyed)).mpr
  intro group
  rw [mem_iff_of_foldlM summary isValid done, mem_iff_of_foldlM summary otherValid otherDone]
  have sameRows := @rowsOf_perm _ _ _ rowKey _ _ perm (groupKey group)
  apply and_congr
  · exact not_congr ⟨fun empty => List.nil_perm.mp (empty ▸ sameRows),
      fun empty => List.perm_nil.mp (empty ▸ sameRows)⟩
  · exact ⟨summary.perm sameRows, summary.perm sameRows.symm⟩

end Run

end GroupedFold
