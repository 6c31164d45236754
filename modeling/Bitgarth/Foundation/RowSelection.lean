import Mathlib.Algebra.BigOperators.Group.Finset.Basic
import Mathlib.Data.List.Sort
import Mathlib.Tactic.Common
import Mathlib.Algebra.Ring.Int.Defs

/-! # Sums over and choices from lists of rows

`sumWhere` adds a quantity over the rows that meet a condition; `latest` takes the
row with the greatest key, as an ordered query limited to one row does.
-/

namespace RowSelection

variable {α κ : Type*}

open Classical in
/-- The sum of `amount` over the rows that satisfy `chosen`. -/
noncomputable def sumWhere (chosen : α → Prop) (amount : α → ℤ) (rows : List α) : ℤ :=
  ((rows.filter chosen).map amount).sum

section SumWhere

variable {chosen other : α → Prop} {amount : α → ℤ} {rows : List α}

/-- The sum may be evaluated with any decision procedure for the condition. -/
theorem sumWhere_eq_sum_filter [DecidablePred chosen] :
    sumWhere chosen amount rows = ((rows.filter chosen).map amount).sum := by
  unfold sumWhere
  congr!

@[simp]
theorem sumWhere_nil : sumWhere chosen amount [] = 0 := by simp [sumWhere]

theorem sumWhere_cons_of_pos {row : α} (holds : chosen row) :
    sumWhere chosen amount (row :: rows) = amount row + sumWhere chosen amount rows := by
  simp [sumWhere, holds]

theorem sumWhere_cons_of_neg {row : α} (fails : ¬ chosen row) :
    sumWhere chosen amount (row :: rows) = sumWhere chosen amount rows := by
  simp [sumWhere, fails]

theorem sumWhere_congr (same : ∀ row ∈ rows, chosen row ↔ other row) :
    sumWhere chosen amount rows = sumWhere other amount rows := by
  unfold sumWhere
  rw [List.filter_congr fun row member => decide_eq_decide.mpr (same row member)]

theorem sumWhere_perm {right : List α} (perm : rows.Perm right) :
    sumWhere chosen amount rows = sumWhere chosen amount right :=
  ((perm.filter _).map amount).sum_eq

theorem sumWhere_append {right : List α} :
    sumWhere chosen amount (rows ++ right) =
      sumWhere chosen amount rows + sumWhere chosen amount right := by
  simp [sumWhere]

theorem sumWhere_append_singleton {row : α} [Decidable (chosen row)] :
    sumWhere chosen amount (rows ++ [row]) =
      sumWhere chosen amount rows + if chosen row then amount row else 0 := by
  rw [sumWhere_append]
  split <;> rename_i isChosen
  · rw [sumWhere_cons_of_pos isChosen, sumWhere_nil, add_zero]
  · rw [sumWhere_cons_of_neg isChosen, sumWhere_nil]

theorem sumWhere_of_forall (all : ∀ row ∈ rows, chosen row) :
    sumWhere chosen amount rows = (rows.map amount).sum := by
  unfold sumWhere
  rw [List.filter_eq_self.mpr fun row member => by simpa using all row member]

theorem sumWhere_of_forall_not (no : ∀ row ∈ rows, ¬ chosen row) :
    sumWhere chosen amount rows = 0 := by
  unfold sumWhere
  rw [List.filter_eq_nil_iff.mpr fun row member => by simpa using no row member]
  rfl

/-- Rows that amount to nothing add nothing. -/
theorem sumWhere_of_amount_zero (empty : ∀ row ∈ rows, chosen row → amount row = 0) :
    sumWhere chosen amount rows = 0 := by
  induction rows with
  | nil => rfl
  | cons row rest ih =>
    have tail := ih fun other member => empty other (List.mem_cons_of_mem _ member)
    by_cases holds : chosen row
    · rw [sumWhere_cons_of_pos holds, tail, empty row List.mem_cons_self holds, add_zero]
    · rw [sumWhere_cons_of_neg holds, tail]

/-- Summing over a filtered list conjoins the two conditions. -/
theorem sumWhere_filter [DecidablePred other] :
    sumWhere chosen amount (rows.filter other) =
      sumWhere (fun row => other row ∧ chosen row) amount rows := by
  unfold sumWhere
  rw [List.filter_filter]
  congr 2
  refine List.filter_congr fun row _ => ?_
  by_cases left : chosen row <;> by_cases right : other row <;> simp [left, right]

theorem sumWhere_map {β : Type*} (transform : β → α) (source : List β) :
    sumWhere chosen amount (source.map transform) =
      sumWhere (fun row => chosen (transform row)) (fun row => amount (transform row)) source := by
  unfold sumWhere
  rw [List.filter_map, List.map_map]
  rfl

theorem sumWhere_zipIdx :
    sumWhere (fun indexed : α × ℕ => chosen indexed.1) (fun indexed => amount indexed.1)
      rows.zipIdx = sumWhere chosen amount rows := by
  rw [← sumWhere_map Prod.fst, List.zipIdx_map_fst]

/-- Rows that each belong to one owner are summed owner by owner. -/
theorem sum_sumWhere {ι : Type*} (owners : Finset ι) {belongs : ι → α → Prop}
    (one : ∀ row ∈ rows, chosen row →
      ∃ owner ∈ owners, belongs owner row ∧ ∀ other, belongs other row → other = owner) :
    ∑ owner ∈ owners, sumWhere (fun row => chosen row ∧ belongs owner row) amount rows =
      sumWhere chosen amount rows := by
  classical
  induction rows with
  | nil => simp only [sumWhere_nil, Finset.sum_const_zero]
  | cons row rest ih =>
    have tail := ih fun each member => one each (List.mem_cons_of_mem _ member)
    by_cases isChosen : chosen row
    · obtain ⟨owner, isOwner, belongsTo, only⟩ := one row List.mem_cons_self isChosen
      have others : ∑ each ∈ owners.erase owner,
          sumWhere (fun row => chosen row ∧ belongs each row) amount (row :: rest) =
            ∑ each ∈ owners.erase owner,
              sumWhere (fun row => chosen row ∧ belongs each row) amount rest := by
        apply Finset.sum_congr rfl
        intro each isOther
        apply sumWhere_cons_of_neg
        rintro ⟨_, belongsToOther⟩
        exact Finset.ne_of_mem_erase isOther (only each belongsToOther)
      rw [← Finset.add_sum_erase _ _ isOwner, others,
        sumWhere_cons_of_pos ⟨isChosen, belongsTo⟩, sumWhere_cons_of_pos isChosen, add_assoc,
        Finset.add_sum_erase owners
          (fun each => sumWhere (fun row => chosen row ∧ belongs each row) amount rest) isOwner,
        tail]
    · rw [sumWhere_cons_of_neg isChosen, ← tail]
      apply Finset.sum_congr rfl
      intro each _
      exact sumWhere_cons_of_neg fun chosenHere => isChosen chosenHere.1

theorem sumWhere_split (other : α → Prop) :
    sumWhere chosen amount rows =
      sumWhere (fun row => chosen row ∧ other row) amount rows +
        sumWhere (fun row => chosen row ∧ ¬ other row) amount rows := by
  induction rows with
  | nil => simp
  | cons row rest ih =>
    by_cases left : chosen row <;> by_cases right : other row
    · rw [sumWhere_cons_of_pos left, ih, sumWhere_cons_of_pos (by exact ⟨left, right⟩),
        sumWhere_cons_of_neg (by simp [right])]
      omega
    · rw [sumWhere_cons_of_pos left, ih, sumWhere_cons_of_neg (by simp [right]),
        sumWhere_cons_of_pos (by exact ⟨left, right⟩)]
      omega
    all_goals
      rw [sumWhere_cons_of_neg left, ih, sumWhere_cons_of_neg (by simp [left]),
        sumWhere_cons_of_neg (by simp [left])]

/-- A whole sum splits at a bound on a key. -/
theorem sum_eq_sumWhere_le_add_lt [LinearOrder κ] (key : α → κ) (bound : κ) :
    (rows.map amount).sum = sumWhere (fun row => key row ≤ bound) amount rows +
      sumWhere (fun row => bound < key row) amount rows := by
  induction rows with
  | nil => simp
  | cons row rest ih =>
    rw [List.map_cons, List.sum_cons, ih]
    rcases le_or_gt (key row) bound with below | above
    · have counted : sumWhere (fun row => key row ≤ bound) amount (row :: rest) =
          amount row + sumWhere (fun row => key row ≤ bound) amount rest :=
        sumWhere_cons_of_pos below
      have passed : sumWhere (fun row => bound < key row) amount (row :: rest) =
          sumWhere (fun row => bound < key row) amount rest :=
        sumWhere_cons_of_neg (not_lt.mpr below)
      omega
    · have counted : sumWhere (fun row => bound < key row) amount (row :: rest) =
          amount row + sumWhere (fun row => bound < key row) amount rest :=
        sumWhere_cons_of_pos above
      have passed : sumWhere (fun row => key row ≤ bound) amount (row :: rest) =
          sumWhere (fun row => key row ≤ bound) amount rest :=
        sumWhere_cons_of_neg (not_le.mpr above)
      omega

/-- Two sums agree exactly when what only one of them counts adds up to the same. -/
theorem sumWhere_eq_iff :
    sumWhere chosen amount rows = sumWhere other amount rows ↔
      sumWhere (fun row => chosen row ∧ ¬ other row) amount rows =
        sumWhere (fun row => other row ∧ ¬ chosen row) amount rows := by
  have left := @sumWhere_split α chosen amount rows other
  have right := @sumWhere_split α other amount rows chosen
  have common : sumWhere (fun row => chosen row ∧ other row) amount rows =
      sumWhere (fun row => other row ∧ chosen row) amount rows :=
    sumWhere_congr fun row _ => and_comm
  rw [left, right, common]
  exact add_right_inj _

end SumWhere

/-- In a list without repetition the amounts of a leading part are those of the rows that a
condition places there. -/
theorem sum_front_eq_sumWhere {chosen : α → Prop} {amount : α → ℤ} {whole front back : List α}
    (distinct : whole.Nodup) (split : whole = front ++ back)
    (leading : ∀ row ∈ whole, row ∈ front ↔ chosen row) :
    (front.map amount).sum = sumWhere chosen amount whole := by
  have beyond : ∀ row ∈ back, ¬ row ∈ front := by
    rw [split] at distinct
    exact fun row inBack inFront => (List.nodup_append'.mp distinct).2.2 inFront inBack
  rw [← sumWhere_congr leading, split, sumWhere_append,
    sumWhere_of_forall fun row member => member, sumWhere_of_forall_not beyond, add_zero]

/-- In a list without repetition the amounts up to and including `last` are those of the
rows that a condition places there. -/
theorem sum_upto_eq_sumWhere {chosen : α → Prop} {amount : α → ℤ} {whole front back : List α}
    {last : α} (distinct : whole.Nodup) (split : whole = front ++ last :: back)
    (upto : ∀ row ∈ whole, row ∈ front ++ [last] ↔ chosen row) :
    ((front ++ [last]).map amount).sum = sumWhere chosen amount whole :=
  sum_front_eq_sumWhere distinct (split.trans (List.append_cons _ _ _)) upto

/-- In a list ascending by key the rows up to `last` are those with no greater key. -/
theorem mem_upto_iff_key_le [LinearOrder κ] {key : α → κ} {whole front back : List α} {last : α}
    (ascending : whole.Pairwise fun left right => key left < key right)
    (split : whole = front ++ last :: back) :
    ∀ row ∈ whole, row ∈ front ++ [last] ↔ key row ≤ key last := by
  rw [split, List.append_cons] at ascending
  intro row member
  obtain ⟨upto, _, apart⟩ := List.pairwise_append.mp ascending
  constructor
  · intro inFront
    rcases List.mem_append.mp inFront with before | isLast
    · exact ((List.pairwise_append.mp upto).2.2 row before last (List.mem_singleton.mpr rfl)).le
    · rw [List.mem_singleton.mp isLast]
  · intro below
    rw [split, List.append_cons] at member
    rcases List.mem_append.mp member with inFront | inBack
    · exact inFront
    · exact absurd below (not_le.mpr (apart last (by simp) row inBack))

/-- The splits of a list are that at its first row and those of its tail. -/
theorem forall_split_cons {first : α} {rest : List α} {holds : List α → α → List α → Prop} :
    (∀ front row back, first :: rest = front ++ row :: back → holds front row back) ↔
      holds [] first rest ∧
        ∀ front row back, rest = front ++ row :: back → holds (first :: front) row back := by
  constructor
  · intro every
    refine ⟨every [] first rest rfl, fun front row back split => ?_⟩
    exact every (first :: front) row back (by rw [split]; rfl)
  · rintro ⟨here, later⟩ front row back split
    cases front with
    | nil =>
      obtain ⟨rfl, rfl⟩ := List.cons.inj split
      exact here
    | cons head front =>
      obtain ⟨rfl, rfl⟩ := List.cons.inj split
      exact later front row back rfl

/-- A relation that holds across every split of a list holds between all its pairs. -/
theorem pairwise_of_forall_split {related : α → α → Prop} {rows : List α}
    (across : ∀ front later back, rows = front ++ later :: back →
      ∀ earlier ∈ front, related earlier later) : rows.Pairwise related := by
  induction rows with
  | nil => exact .nil
  | cons row rest ih =>
    refine List.pairwise_cons.mpr ⟨fun later member => ?_, ih ?_⟩
    · obtain ⟨front, back, rfl⟩ := List.append_of_mem member
      exact across (row :: front) later back rfl row List.mem_cons_self
    · intro front later back split earlier inFront
      apply across (row :: front) later back (by rw [split]; rfl)
      exact List.mem_cons_of_mem _ inFront

/-- When keys descend and none lies strictly between two bounds, the first row up to the
upper bound is the first on it, if any, or else the first up to the lower bound. -/
theorem find_le_eq_or [LinearOrder κ] {key : α → κ} {lower upper : κ} {rows : List α}
    (below : lower < upper) (descending : rows.Pairwise fun left right => key right ≤ key left)
    (apart : ∀ row ∈ rows, key row ≤ lower ∨ upper ≤ key row) :
    (rows.find? fun row => key row ≤ upper) =
      (rows.find? fun row => key row = upper).or (rows.find? fun row => key row ≤ lower) := by
  induction rows with
  | nil => rfl
  | cons row rest ih =>
    obtain ⟨older, restDescending⟩ := List.pairwise_cons.mp descending
    obtain ⟨here, restApart⟩ := List.forall_mem_cons.mp apart
    rcases here with low | high
    · have none : (rest.find? fun row => key row = upper) = none := by
        rw [List.find?_eq_none]
        intro other member
        simpa using (((older other member).trans low).trans_lt below).ne
      simp [low, low.trans below.le, (low.trans_lt below).ne, none]
    · rcases high.eq_or_lt with same | above
      · simp [← same]
      · simp [above.not_ge, above.ne', (below.trans above).not_ge, ih restDescending restApart]

/-- No element of a strictly ascending list lies between two neighbours. -/
theorem le_or_ge_of_neighbours [LinearOrder α] {rows front back : List α} {left right row : α}
    (ascending : rows.Pairwise (· < ·)) (split : rows = front ++ left :: right :: back)
    (member : row ∈ rows) : row ≤ left ∨ right ≤ row := by
  subst split
  obtain ⟨_, tail, before⟩ := List.pairwise_append.mp ascending
  obtain ⟨_, last⟩ := List.pairwise_cons.mp tail
  have after := (List.pairwise_cons.mp last).1
  rcases List.mem_append.mp member with inFront | inTail
  · exact .inl (before row inFront left List.mem_cons_self).le
  · rcases List.mem_cons.mp inTail with rfl | inLast
    · exact .inl le_rfl
    · rcases List.mem_cons.mp inLast with rfl | inBack
      · exact .inr le_rfl
      · exact .inr (after row inBack).le

/-- Neighbours agree on a condition exactly when all rows meet it or none does. -/
theorem isChain_iff_all_or_none {holds : α → Prop} {rows : List α} :
    (rows.IsChain fun left right => holds left ↔ holds right) ↔
      (∀ row ∈ rows, holds row) ∨ ∀ row ∈ rows, ¬ holds row := by
  induction rows with
  | nil => simp
  | cons first rest ih =>
    cases rest with
    | nil => simp [em]
    | cons next remaining =>
      rw [List.isChain_cons_cons, ih]
      simp only [List.forall_mem_cons]
      tauto

/-- Sorting by a key makes the keys ascend. -/
theorem insertionSort_sorted [LinearOrder κ] (key : α → κ) (rows : List α) :
    (rows.insertionSort fun left right => key left ≤ key right).Pairwise
      fun left right => key left ≤ key right := by
  have total : Std.Total fun left right : α => key left ≤ key right :=
    ⟨fun left right => le_total _ _⟩
  have transitive : IsTrans α fun left right => key left ≤ key right :=
    ⟨fun _ _ _ first second => le_trans first second⟩
  exact List.pairwise_insertionSort (fun left right => key left ≤ key right) rows

/-- Sorting by a key that is distinct on a list makes the list strictly ascending. -/
theorem insertionSort_ascending [LinearOrder κ] {key : α → κ} {rows : List α}
    (distinct : (rows.map key).Nodup) :
    (rows.insertionSort fun left right => key left ≤ key right).Pairwise
      fun left right => key left < key right := by
  have sorted := insertionSort_sorted key rows
  have perm := List.perm_insertionSort (fun left right => key left ≤ key right) rows
  have apart := List.pairwise_map.mp ((perm.map key).nodup_iff.mpr distinct)
  exact (sorted.and apart).imp fun both => lt_of_le_of_ne both.1 both.2

/-- A strictly ascending arrangement of a list is the sorted list. -/
theorem insertionSort_eq [LinearOrder κ] {key : α → κ} {rows sorted : List α}
    (perm : sorted.Perm rows) (ascending : sorted.Pairwise fun left right => key left < key right) :
    (rows.insertionSort fun left right => key left ≤ key right) = sorted := by
  have distinct : (sorted.map key).Nodup :=
    List.pairwise_map.mpr (ascending.imp fun less => less.ne)
  have inserted := List.perm_insertionSort (fun left right => key left ≤ key right) rows
  refine @List.Perm.eq_of_pairwise _ (fun left right => key left ≤ key right) _ _ ?_
    (insertionSort_sorted key rows) (ascending.imp fun less => less.le)
    (inserted.trans perm.symm)
  intro left right leftIn rightIn atMost atLeast
  exact List.inj_on_of_nodup_map distinct ((inserted.trans perm.symm).mem_iff.mp leftIn) rightIn
    (le_antisymm atMost atLeast)

/-- A sort depends on the relation between members only. -/
theorem insertionSort_congr {before other : α → α → Prop} [DecidableRel before]
    [DecidableRel other] {rows : List α}
    (same : ∀ left ∈ rows, ∀ right ∈ rows, before left right ↔ other left right) :
    rows.insertionSort before = rows.insertionSort other := by
  simpa using List.map_insertionSort before other id rows same

/-- A rearrangement that lists the same distinct keys in the same order is the list itself. -/
theorem eq_of_map_eq_map {key : α → κ} {rows other : List α} (distinct : (rows.map key).Nodup)
    (perm : other.Perm rows) (same : other.map key = rows.map key) : other = rows := by
  refine List.ext_getElem perm.length_eq ?_
  intro index left right
  refine List.inj_on_of_nodup_map distinct (perm.mem_iff.mp (List.getElem_mem left))
    (List.getElem_mem right) ?_
  rw [← List.getElem_map key (h := by simpa using left),
    ← List.getElem_map key (h := by simpa using right)]
  simp only [same]

/-- Looking up a key listed once finds the value paired with it. -/
theorem lookup_eq_some_of_mem [BEq κ] [LawfulBEq κ] {pairs : List (κ × α)} {key : κ} {value : α}
    (distinct : (pairs.map Prod.fst).Nodup) (member : (key, value) ∈ pairs) :
    pairs.lookup key = some value := by
  obtain ⟨front, back, rfl⟩ := List.append_of_mem member
  refine List.lookup_eq_some_iff.mpr ⟨front, back, rfl, ?_⟩
  intro pair inFront
  rw [List.map_append, List.map_cons] at distinct
  have apart := (List.nodup_append.mp distinct).2.2 pair.1 (List.mem_map.mpr ⟨pair, inFront, rfl⟩)
    key List.mem_cons_self
  simpa [bne_iff_ne] using apart.symm

section Latest

variable [LinearOrder κ] (key : α → κ) (rows : List α)

/-- The first row in descending key order. -/
def latest : Option α :=
  (rows.insertionSort (fun left right => key right ≤ key left)).head?

variable {key rows} {row : α}

theorem latest_eq_none_iff : latest key rows = none ↔ rows = [] := by
  unfold latest
  rw [List.head?_eq_none_iff]
  constructor
  · intro empty
    exact (List.perm_nil.mp (empty ▸ (List.perm_insertionSort _ rows).symm))
  · rintro rfl
    rfl

/-- The chosen row is one of the rows and no row has a greater key. -/
theorem latest_spec (found : latest key rows = some row) :
    row ∈ rows ∧ ∀ other ∈ rows, key other ≤ key row := by
  unfold latest at found
  have total : Std.Total (fun left right : α => key right ≤ key left) :=
    ⟨fun left right => le_total _ _⟩
  have transitive : IsTrans α (fun left right => key right ≤ key left) :=
    ⟨fun _ _ _ first second => le_trans second first⟩
  have sorted := List.pairwise_insertionSort (fun left right => key right ≤ key left) rows
  have perm := List.perm_insertionSort (fun left right => key right ≤ key left) rows
  obtain ⟨rest, shape⟩ : ∃ rest,
      rows.insertionSort (fun left right => key right ≤ key left) = row :: rest :=
    List.head?_eq_some_iff.mp found
  rw [shape] at sorted perm
  refine ⟨perm.mem_iff.mp List.mem_cons_self, ?_⟩
  intro other member
  rcases List.mem_cons.mp (perm.mem_iff.mpr member) with rfl | later
  · exact le_rfl
  · exact (List.pairwise_cons.mp sorted).1 other later

end Latest

end RowSelection
