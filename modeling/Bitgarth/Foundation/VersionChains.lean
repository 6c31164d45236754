import Mathlib.Data.List.Nodup
import Mathlib.Tactic.Common

/-! # Chains of versions

Rows of a table that each name the row they supersede, one chain for each key. The rows that no
other supersedes are the last ones of the chains.
-/

namespace VersionChains

variable {Row Key Id : Type*} [DecidableEq Key] (id : Row → Id) (supersedes : Row → Option Id)
  (key : Row → Key)

/-- Each row supersedes the one before it, and the first one a given row, if any. -/
def ChainedFrom : Option Id → List Row → Prop
  | _, [] => True
  | previous, row :: rest => supersedes row = previous ∧ ChainedFrom (some (id row)) rest

/-- The rows of a key, in the order of the table. -/
def versionsOf (rows : List Row) (wanted : Key) : List Row :=
  rows.filter fun row => key row = wanted

/-- The rows of each key are a chain of their own. -/
def Chained (rows : List Row) : Prop :=
  ∀ wanted, ChainedFrom id supersedes none (versionsOf key rows wanted)

/-- No row supersedes it. -/
def IsHead (rows : List Row) (row : Row) : Prop :=
  ∀ newer ∈ rows, supersedes newer ≠ some (id row)

variable {id supersedes key} {rows first later : List Row} {row : Row} {previous : Option Id}

theorem chainedFrom_append : ChainedFrom id supersedes previous (first ++ later) ↔
    ChainedFrom id supersedes previous first ∧
      ChainedFrom id supersedes ((first.getLast?.map id).or previous) later := by
  induction first generalizing previous with
  | nil => exact (and_iff_right trivial).symm
  | cons row rest ih =>
    have last : ((row :: rest).getLast?.map id).or previous =
        (rest.getLast?.map id).or (some (id row)) := by
      rw [List.getLast?_cons]
      cases rest.getLast? <;> rfl
    rw [List.cons_append, ChainedFrom, ih, last, ChainedFrom, and_assoc]

/-- What a row of a chain supersedes. -/
theorem supersedes_of_append (chained : ChainedFrom id supersedes none (first ++ row :: later)) :
    supersedes row = first.getLast?.map id := by
  have fromRow := (chainedFrom_append.mp chained).2
  rw [Option.or_none] at fromRow
  exact fromRow.1

theorem chained_nil : Chained id supersedes key [] :=
  fun _ => trivial

/-- A row that supersedes the last one of its key continues the chain. -/
theorem Chained.append (chained : Chained id supersedes key rows)
    (isNext : supersedes row = (versionsOf key rows (key row)).getLast?.map id) :
    Chained id supersedes key (rows ++ [row]) := by
  intro wanted
  unfold versionsOf
  rw [List.filter_append]
  by_cases own : key row = wanted
  · subst own
    have kept : [row].filter (fun other => decide (key other = key row)) = [row] :=
      List.filter_cons_of_pos (decide_eq_true rfl)
    rw [kept]
    refine chainedFrom_append.mpr ⟨chained (key row), ?_, trivial⟩
    rw [Option.or_none]
    exact isNext
  · rw [List.filter_cons_of_neg (by rwa [decide_eq_true_iff]), List.filter_nil, List.append_nil]
    exact chained wanted

/-- The only head among the rows of a key is the last one. -/
theorem Chained.isHead_iff (chained : Chained id supersedes key rows)
    (unique : (rows.map id).Nodup) (member : row ∈ rows) :
    IsHead id supersedes rows row ↔ (versionsOf key rows (key row)).getLast? = some row := by
  have inOwn : row ∈ versionsOf key rows (key row) :=
    List.mem_filter.mpr ⟨member, decide_eq_true rfl⟩
  obtain ⟨before, after, split⟩ := List.append_of_mem inOwn
  constructor
  · intro isHead
    cases after with
    | nil => rw [split, List.getLast?_append, List.getLast?_singleton, Option.some_or]
    | cons newer rest =>
      have chain := chained (key row)
      rw [split, List.append_cons] at chain
      have isNext := supersedes_of_append chain
      rw [List.getLast?_append, List.getLast?_singleton, Option.some_or] at isNext
      have inRows : newer ∈ rows := by
        apply List.mem_of_mem_filter (p := fun row' => decide (key row' = key row))
        change newer ∈ versionsOf key rows (key row)
        rw [split]
        exact List.mem_append_right _ (.tail _ List.mem_cons_self)
      exact absurd isNext (isHead newer inRows)
  · intro isLast newer isNewer names
    -- What a newer row supersedes stands before it in its own chain.
    have inNewer : newer ∈ versionsOf key rows (key newer) :=
      List.mem_filter.mpr ⟨isNewer, decide_eq_true rfl⟩
    obtain ⟨earlier, later, splitNewer⟩ := List.append_of_mem inNewer
    have isPrevious := supersedes_of_append (splitNewer ▸ chained (key newer))
    rw [names] at isPrevious
    obtain ⟨old, isOld, sameId⟩ := Option.map_eq_some_iff.mp isPrevious.symm
    have oldBefore : old ∈ earlier := List.mem_of_getLast? isOld
    have oldInNewer : old ∈ versionsOf key rows (key newer) := by
      rw [splitNewer]
      exact List.mem_append_left _ oldBefore
    obtain ⟨oldInRows, oldKey⟩ := List.mem_filter.mp oldInNewer
    obtain rfl := List.inj_on_of_nodup_map unique oldInRows member sameId
    have sameKey : key old = key newer := of_decide_eq_true oldKey
    rw [sameKey, splitNewer] at isLast
    have nodup : (earlier ++ newer :: later).Nodup := by
      rw [← splitNewer]
      exact (List.Nodup.of_map id unique).filter _
    have oldLater : old ∈ newer :: later := by
      rw [List.getLast?_append, List.getLast?_cons, Option.some_or] at isLast
      have inTail := List.mem_of_getLast? (List.getLast?_cons.trans isLast)
      exact inTail
    exact (List.disjoint_of_nodup_append nodup) oldBefore oldLater

end VersionChains
