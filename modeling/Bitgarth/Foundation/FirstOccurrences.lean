import Mathlib.Data.List.Sublists
import Mathlib.Tactic.Common

/-! # The first row of every key

Rows come one after another, some of them void. Keeping the first row of every key, where a void row
takes its key all the same, gives what the rows that are not void give by themselves exactly when no
void row comes before the first of these of its key (`firsts_eq_firsts_solid_iff`).
-/

namespace FirstOccurrences

variable {Key Row : Type*} [DecidableEq Key]

/-- The rows of keys that were not seen, each the first of its key; a void row is seen, too. -/
def firsts (seen : List Key) : List (Key × Option Row) → List Row
  | [] => []
  | (key, row) :: later =>
    if key ∈ seen then firsts seen later else row.toList ++ firsts (key :: seen) later

/-- The keys that are seen after some rows. -/
def seenAfter (seen : List Key) : List (Key × Option Row) → List Key
  | [] => seen
  | (key, _) :: later => seenAfter (if key ∈ seen then seen else key :: seen) later

/-- The rows that are not void. -/
def solid (rows : List (Key × Option Row)) : List (Key × Option Row) :=
  rows.filter fun row => row.2.isSome

/-- Every row that is not void and follows a void row of its key follows one that is not void, too:
the first of these is not shadowed. -/
def Unshadowed (rows : List (Key × Option Row)) : Prop :=
  ∀ earlier key row later, rows = earlier ++ (key, some row) :: later →
    (key, none) ∈ earlier → ∃ first, (key, some first) ∈ earlier

/-- The same after some keys were seen, of which others had rows that were not void. -/
def UnshadowedAfter (seen others : List Key) (rows : List (Key × Option Row)) : Prop :=
  ∀ earlier key row later, rows = earlier ++ (key, some row) :: later →
    (key ∈ seen ∨ (key, none) ∈ earlier) → key ∈ others ∨ ∃ first, (key, some first) ∈ earlier

variable {rows : List (Key × Option Row)} {seen others : List Key}

@[simp]
theorem firsts_nil : firsts seen ([] : List (Key × Option Row)) = [] := rfl

theorem firsts_cons (key : Key) (row : Option Row) (later : List (Key × Option Row)) :
    firsts seen ((key, row) :: later) =
      if key ∈ seen then firsts seen later else row.toList ++ firsts (key :: seen) later := rfl

omit [DecidableEq Key] in
@[simp]
theorem solid_cons_none (key : Key) : solid ((key, none) :: rows) = solid rows := rfl

omit [DecidableEq Key] in
@[simp]
theorem solid_cons_some (key : Key) (row : Row) :
    solid ((key, some row) :: rows) = (key, some row) :: solid rows := rfl

omit [DecidableEq Key] in
theorem solid_append (later : List (Key × Option Row)) :
    solid (rows ++ later) = solid rows ++ solid later :=
  List.filter_append ..

theorem seenAfter_append (later : List (Key × Option Row)) :
    seenAfter seen (rows ++ later) = seenAfter (seenAfter seen rows) later := by
  induction rows generalizing seen with
  | nil => rfl
  | cons row rest ih => exact ih

/-- The keys that are seen do not depend on what is void. -/
theorem seenAfter_congr {others : List (Key × Option Row)}
    (same : rows.map Prod.fst = others.map Prod.fst) :
    seenAfter seen rows = seenAfter seen others := by
  induction rows generalizing seen others with
  | nil => rw [List.map_eq_nil_iff.mp same.symm]
  | cons row later ih =>
    cases others with
    | nil => exact absurd same (List.cons_ne_nil _ _)
    | cons other rest =>
      obtain ⟨key, row⟩ := row
      obtain ⟨otherKey, other⟩ := other
      obtain ⟨sameKey, sameLater⟩ := List.cons.inj same
      cases sameKey
      exact ih sameLater

theorem firsts_append (later : List (Key × Option Row)) :
    firsts seen (rows ++ later) = firsts seen rows ++ firsts (seenAfter seen rows) later := by
  induction rows generalizing seen with
  | nil => rfl
  | cons row rest ih =>
    obtain ⟨key, row⟩ := row
    rw [List.cons_append, firsts_cons, firsts_cons, seenAfter]
    by_cases known : key ∈ seen
    · simp only [if_pos known]
      exact ih
    · simp only [if_neg known]
      rw [ih, List.append_assoc]

/-- Only which keys were seen counts. -/
theorem firsts_congr (same : ∀ key, key ∈ seen ↔ key ∈ others) :
    firsts seen rows = firsts others rows := by
  induction rows generalizing seen others with
  | nil => rfl
  | cons row later ih =>
    obtain ⟨key, row⟩ := row
    have extended : ∀ other, other ∈ key :: seen ↔ other ∈ key :: others := by
      intro other
      rw [List.mem_cons, List.mem_cons, same]
    simp only [firsts_cons, same key, ih same, ih extended]

/-- Passing over a void row of a key is the same as having seen the key. -/
theorem firsts_cons_none (key : Key) :
    firsts seen ((key, none) :: rows) = firsts (key :: seen) rows := by
  rw [firsts_cons]
  split
  · next known =>
      apply firsts_congr
      intro other
      rw [List.mem_cons]
      constructor
      · exact .inr
      · rintro (rfl | old)
        · exact known
        · exact old
  · rfl

/-- Rows that are all void leave nothing. -/
theorem firsts_of_solid_eq_nil (void : solid rows = []) : firsts seen rows = [] := by
  induction rows generalizing seen with
  | nil => rfl
  | cons row later ih =>
    obtain ⟨key, row⟩ := row
    cases row with
    | none => exact (firsts_cons_none key).trans (ih void)
    | some row => exact absurd void (List.cons_ne_nil _ _)

/-- A row that is kept is one of the rows, of a key not seen before. -/
theorem exists_key_of_mem_firsts {row : Row} (member : row ∈ firsts seen rows) :
    ∃ key, (key, some row) ∈ rows ∧ key ∉ seen := by
  induction rows generalizing seen with
  | nil => exact absurd member List.not_mem_nil
  | cons first later ih =>
    obtain ⟨key, first⟩ := first
    rw [firsts_cons] at member
    split at member
    · obtain ⟨other, found, fresh⟩ := ih member
      exact ⟨other, List.mem_cons_of_mem _ found, fresh⟩
    · next fresh =>
        rcases List.mem_append.mp member with here | kept
        · have isFirst : first = some row := Option.mem_toList.mp here
          exact ⟨key, isFirst ▸ List.mem_cons_self, fresh⟩
        · obtain ⟨other, found, fresh⟩ := ih kept
          exact ⟨other, List.mem_cons_of_mem _ found,
            fun old => fresh (List.mem_cons_of_mem _ old)⟩

/-- No two rows that are kept have one key. -/
theorem nodup_map_firsts {keyOf : Row → Key}
    (keyed : ∀ key row, (key, some row) ∈ rows → keyOf row = key) :
    ((firsts seen rows).map keyOf).Nodup := by
  induction rows generalizing seen with
  | nil => exact List.nodup_nil
  | cons first later ih =>
    obtain ⟨key, first⟩ := first
    have keyedLater : ∀ key row, (key, some row) ∈ later → keyOf row = key :=
      fun key row member => keyed key row (List.mem_cons_of_mem _ member)
    rw [firsts_cons]
    split
    · exact ih keyedLater
    · cases first with
      | none => exact ih keyedLater
      | some row =>
        rw [Option.toList_some, List.singleton_append, List.map_cons, List.nodup_cons]
        refine ⟨?_, ih keyedLater⟩
        intro again
        obtain ⟨other, kept, same⟩ := List.mem_map.mp again
        obtain ⟨otherKey, found, fresh⟩ := exists_key_of_mem_firsts kept
        apply fresh
        rw [← keyedLater otherKey other found, same, keyed key row List.mem_cons_self]
        exact List.mem_cons_self

/-- Fewer rows are kept where more keys were seen. -/
theorem length_firsts_le (within : ∀ key ∈ others, key ∈ seen) :
    (firsts seen rows).length ≤ (firsts others (solid rows)).length := by
  induction rows generalizing seen others with
  | nil => exact le_rfl
  | cons row later ih =>
    obtain ⟨key, row⟩ := row
    cases row with
    | none =>
      rw [firsts_cons_none, solid_cons_none]
      exact ih fun other old => List.mem_cons_of_mem _ (within other old)
    | some row =>
      rw [solid_cons_some, firsts_cons, firsts_cons]
      by_cases known : key ∈ others
      · rw [if_pos (within key known), if_pos known]
        exact ih within
      · rw [if_neg known]
        by_cases seenKey : key ∈ seen
        · rw [if_pos seenKey, Option.toList_some, List.singleton_append, List.length_cons]
          have fewer : (firsts seen later).length ≤
              (firsts (key :: others) (solid later)).length := by
            apply ih
            intro other old
            rcases List.mem_cons.mp old with rfl | older
            · exact seenKey
            · exact within other older
          exact fewer.trans (Nat.le_succ _)
        · rw [if_neg seenKey, Option.toList_some, List.singleton_append, List.singleton_append,
            List.length_cons, List.length_cons]
          apply Nat.succ_le_succ (ih _)
          intro other old
          rcases List.mem_cons.mp old with rfl | older
          · exact List.mem_cons_self
          · exact List.mem_cons_of_mem _ (within other older)

section Shadows

omit [DecidableEq Key] in
theorem unshadowedAfter_nil : UnshadowedAfter seen others ([] : List (Key × Option Row)) := by
  intro earlier key row later split
  exact absurd split (by simp)

omit [DecidableEq Key] in
theorem unshadowedAfter_cons_none (key : Key) :
    UnshadowedAfter seen others ((key, none) :: rows) ↔
      UnshadowedAfter (key :: seen) others rows := by
  constructor
  · intro clear earlier other row later split shadowed
    have found := clear ((key, none) :: earlier) other row later (by rw [split]; rfl) (by
      rcases shadowed with known | void
      · rcases List.mem_cons.mp known with rfl | older
        · exact .inr List.mem_cons_self
        · exact .inl older
      · exact .inr (List.mem_cons_of_mem _ void))
    refine found.imp_right fun ⟨first, member⟩ => ⟨first, ?_⟩
    rcases List.mem_cons.mp member with same | older
    · cases same
    · exact older
  · intro clear earlier other row later split shadowed
    cases earlier with
    | nil =>
      rw [List.nil_append, List.cons.injEq] at split
      cases split.1
    | cons first earlier =>
      obtain ⟨rfl, rest⟩ := List.cons.inj split
      have found := clear earlier other row later rest (by
        rcases shadowed with known | void
        · exact .inl (List.mem_cons_of_mem _ known)
        · rcases List.mem_cons.mp void with same | older
          · cases same
            exact .inl List.mem_cons_self
          · exact .inr older)
      exact found.imp_right fun ⟨first, member⟩ => ⟨first, List.mem_cons_of_mem _ member⟩

theorem unshadowedAfter_cons_some (key : Key) (row : Row) :
    UnshadowedAfter seen others ((key, some row) :: rows) ↔
      (key ∈ seen → key ∈ others) ∧ UnshadowedAfter (key :: seen) (key :: others) rows := by
  constructor
  · intro clear
    constructor
    · intro known
      have found := clear [] key row rows rfl (.inl known)
      exact found.resolve_right fun ⟨_, member⟩ => List.not_mem_nil member
    · intro earlier other latest later split shadowed
      by_cases same : other = key
      · exact .inl (same ▸ List.mem_cons_self)
      · have found := clear ((key, some row) :: earlier) other latest later (by rw [split]; rfl) (by
          rcases shadowed with known | void
          · exact .inl ((List.mem_cons.mp known).resolve_left same)
          · exact .inr (List.mem_cons_of_mem _ void))
        rcases found with known | ⟨first, member⟩
        · exact .inl (List.mem_cons_of_mem _ known)
        · rcases List.mem_cons.mp member with isFirst | older
          · cases isFirst
            exact absurd rfl same
          · exact .inr ⟨first, older⟩
  · rintro ⟨known, clear⟩ earlier other latest later split shadowed
    cases earlier with
    | nil =>
      obtain ⟨same, _⟩ := List.cons.inj split
      cases same
      exact .inl (known (shadowed.resolve_right List.not_mem_nil))
    | cons first earlier =>
      obtain ⟨rfl, rest⟩ := List.cons.inj split
      have found := clear earlier other latest later rest (by
        rcases shadowed with old | void
        · exact .inl (List.mem_cons_of_mem _ old)
        · rcases List.mem_cons.mp void with same | older
          · cases same
          · exact .inr older)
      rcases found with old | ⟨first, member⟩
      · rcases List.mem_cons.mp old with rfl | older
        · exact .inr ⟨row, List.mem_cons_self⟩
        · exact .inl older
      · exact .inr ⟨first, List.mem_cons_of_mem _ member⟩

theorem firsts_eq_iff_unshadowedAfter (within : ∀ key ∈ others, key ∈ seen) :
    firsts seen rows = firsts others (solid rows) ↔ UnshadowedAfter seen others rows := by
  induction rows generalizing seen others with
  | nil => exact iff_of_true rfl unshadowedAfter_nil
  | cons row later ih =>
    obtain ⟨key, row⟩ := row
    cases row with
    | none =>
      rw [firsts_cons_none, solid_cons_none, unshadowedAfter_cons_none]
      exact ih fun other old => List.mem_cons_of_mem _ (within other old)
    | some row =>
      have withinCons : ∀ other ∈ key :: others, other ∈ key :: seen := by
        intro other old
        rcases List.mem_cons.mp old with rfl | older
        · exact List.mem_cons_self
        · exact List.mem_cons_of_mem _ (within other older)
      rw [solid_cons_some, firsts_cons, firsts_cons, unshadowedAfter_cons_some,
        ← ih withinCons]
      by_cases known : key ∈ others
      · have again : ∀ {keys : List Key}, key ∈ keys → ∀ other,
            other ∈ keys ↔ other ∈ key :: keys := by
          intro keys inside other
          rw [List.mem_cons]
          constructor
          · exact .inr
          · rintro (rfl | older)
            · exact inside
            · exact older
        rw [if_pos (within key known), if_pos known, firsts_congr (again (within key known)),
          firsts_congr (again known)]
        exact (and_iff_right fun _ => known).symm
      · rw [if_neg known]
        by_cases seenKey : key ∈ seen
        · rw [if_pos seenKey]
          -- The row is kept by the second pass alone, which keeps all that the first one does.
          refine iff_of_false ?_ fun both => known (both.1 seenKey)
          intro same
          have fewer : (firsts seen later).length ≤
              (firsts (key :: others) (solid later)).length := by
            apply length_firsts_le
            intro other old
            rcases List.mem_cons.mp old with rfl | older
            · exact seenKey
            · exact within other older
          rw [same, Option.toList_some, List.singleton_append, List.length_cons] at fewer
          exact absurd fewer (Nat.not_succ_le_self _)
        · rw [if_neg seenKey, Option.toList_some, List.singleton_append, List.singleton_append,
            List.cons.injEq]
          exact and_congr (iff_of_true rfl fun old => absurd old seenKey) Iff.rfl

/-- Void rows have no effect exactly where they shadow none. -/
theorem firsts_eq_firsts_solid_iff :
    firsts [] rows = firsts [] (solid rows) ↔ Unshadowed rows := by
  rw [firsts_eq_iff_unshadowedAfter (List.forall_mem_nil _)]
  simp only [UnshadowedAfter, Unshadowed, List.not_mem_nil, false_or]

end Shadows

end FirstOccurrences
