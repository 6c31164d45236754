import Mathlib.Tactic.Common

/-! # Splitting a text

Splitting at the first place of a separator, and texts joined from pieces that differ in one.
-/

namespace SplitText

variable {α : Type*} [DecidableEq α]

/-- What stands before and after the first separator. -/
def splitOnce (separator : α) : List α → Option (List α × List α)
  | [] => none
  | first :: rest =>
    if first = separator then some ([], rest)
    else (splitOnce separator rest).map fun parts => (first :: parts.1, parts.2)

theorem splitOnce_eq_none_iff {separator : α} {text : List α} :
    splitOnce separator text = none ↔ separator ∉ text := by
  induction text with
  | nil => simp [splitOnce]
  | cons first rest ih =>
    by_cases same : first = separator
    · simp [splitOnce, same]
    · simp [splitOnce, same, ih, Ne.symm same]

theorem splitOnce_append_cons {separator : α} {before : List α} (after : List α)
    (absent : separator ∉ before) :
    splitOnce separator (before ++ separator :: after) = some (before, after) := by
  induction before with
  | nil => simp [splitOnce]
  | cons first rest ih =>
    rw [List.mem_cons, not_or] at absent
    simp [splitOnce, Ne.symm absent.1, ih absent.2]

/-- The last separator of a text is in one place. -/
theorem append_cons_inj {separator : α} {before before' after after' : List α}
    (absent : separator ∉ after) (absent' : separator ∉ after')
    (same : before ++ separator :: after = before' ++ separator :: after') :
    before = before' ∧ after = after' := by
  have reversed := congrArg (splitOnce separator ∘ List.reverse) same
  simp only [Function.comp_apply, List.reverse_append, List.reverse_cons, List.append_assoc,
    List.singleton_append] at reversed
  rw [splitOnce_append_cons _ (List.mem_reverse.not.mpr absent),
    splitOnce_append_cons _ (List.mem_reverse.not.mpr absent'), Option.some.injEq,
    Prod.mk.injEq, List.reverse_inj, List.reverse_inj] at reversed
  exact reversed.symm

theorem splitOnce_eq_some_iff {separator : α} {text before after : List α} :
    splitOnce separator text = some (before, after) ↔
      text = before ++ separator :: after ∧ separator ∉ before := by
  constructor
  · intro split
    induction text generalizing before with
    | nil => cases split
    | cons first rest ih =>
      by_cases same : first = separator
      · simp only [splitOnce, same, ↓reduceIte, Option.some.injEq, Prod.mk.injEq] at split
        obtain ⟨rfl, rfl⟩ := split
        exact ⟨congrArg (· :: rest) same, List.not_mem_nil⟩
      · simp only [splitOnce, same, ↓reduceIte, Option.map_eq_some_iff, Prod.mk.injEq] at split
        obtain ⟨⟨front, back⟩, split, rfl, rfl⟩ := split
        obtain ⟨rfl, absent⟩ := ih split
        exact ⟨rfl, by simp [Ne.symm same, absent]⟩
  · rintro ⟨rfl, absent⟩
    exact splitOnce_append_cons after absent

/-- What stands before and after the first two separators in a row. -/
def splitGap (separator : α) : List α → Option (List α × List α)
  | first :: second :: rest =>
    if first = separator ∧ second = separator then some ([], rest)
    else (splitGap separator (second :: rest)).map fun parts => (first :: parts.1, parts.2)
  | _ => none

/-- A text that makes no gap, not even with a separator after it, ends at the gap. -/
theorem splitGap_append {separator : α} {before : List α} (after : List α)
    (noGap : ¬[separator, separator] <:+: before ++ [separator]) :
    splitGap separator (before ++ separator :: separator :: after) = some (before, after) := by
  induction before with
  | nil => exact if_pos ⟨rfl, rfl⟩
  | cons first rest ih =>
    have ih := ih fun gap => noGap (List.infix_cons gap)
    cases rest with
    | nil =>
      have other : ¬(first = separator ∧ separator = separator) := fun same =>
        noGap ⟨[], [], by rw [same.1]; rfl⟩
      exact (if_neg other).trans (congrArg (Option.map _) ih)
    | cons second rest =>
      have other : ¬(first = separator ∧ second = separator) := fun same =>
        noGap ⟨[], rest ++ [separator], by rw [same.1, same.2]; rfl⟩
      exact (if_neg other).trans (congrArg (Option.map _) ih)

theorem not_mem_of_mem_splitOn {separator : α} {text piece : List α}
    (member : piece ∈ text.splitOn separator) : separator ∉ piece := by
  induction text generalizing piece with
  | nil =>
    simp only [List.splitOn_nil, List.mem_singleton] at member
    simp [member]
  | cons first rest ih =>
    rw [List.splitOn_cons_eq_if_modifyHead] at member
    split at member
    · rcases List.mem_cons.mp member with rfl | later
      · exact List.not_mem_nil
      · exact ih later
    · next other =>
        cases pieces : rest.splitOn separator with
        | nil => exact absurd pieces (List.splitOn_ne_nil _ _)
        | cons head tail =>
          rw [pieces, List.modifyHead_cons] at member
          rcases List.mem_cons.mp member with rfl | later
          · have absent := ih (pieces ▸ List.mem_cons_self)
            simp only [beq_iff_eq] at other
            simp [Ne.symm other, absent]
          · exact ih (pieces ▸ List.mem_cons_of_mem _ later)

omit [DecidableEq α] in
theorem mem_intercalate {separator item : α} {pieces : List (List α)}
    (member : item ∈ [separator].intercalate pieces) :
    item = separator ∨ ∃ piece ∈ pieces, item ∈ piece := by
  induction pieces with
  | nil => cases member
  | cons piece rest ih =>
    cases rest with
    | nil =>
      rw [List.intercalate_singleton] at member
      exact .inr ⟨piece, List.mem_cons_self, member⟩
    | cons next rest =>
      rw [List.intercalate_cons_cons, List.mem_append, List.mem_append,
        List.mem_singleton] at member
      rcases member with (inside | same) | later
      · exact .inr ⟨piece, List.mem_cons_self, inside⟩
      · exact .inl same
      · exact (ih later).imp_right fun ⟨found, there, inside⟩ => ⟨found, .tail _ there, inside⟩

omit [DecidableEq α] in
theorem mem_intercalate_of_mem {separator item : α} {piece : List α} {pieces : List (List α)}
    (member : piece ∈ pieces) (inside : item ∈ piece) :
    item ∈ [separator].intercalate pieces := by
  induction pieces with
  | nil => cases member
  | cons first rest ih =>
    cases rest with
    | nil =>
      rw [List.intercalate_singleton]
      exact List.mem_singleton.mp member ▸ inside
    | cons next rest =>
      rw [List.intercalate_cons_cons, List.append_assoc]
      rcases List.mem_cons.mp member with rfl | later
      · exact List.mem_append_left _ inside
      · exact List.mem_append_right _ (List.mem_append_right _ (ih later))

omit [DecidableEq α] in
/-- Texts joined from pieces that differ in one differ in length by as much as the pieces do. -/
theorem length_intercalate_replace (separator : List α) (before after : List (List α))
    (left right : List α) :
    (separator.intercalate (before ++ left :: after)).length + right.length =
      (separator.intercalate (before ++ right :: after)).length + left.length := by
  induction before with
  | nil =>
    cases after with
    | nil => simp [Nat.add_comm]
    | cons next rest =>
      simp only [List.nil_append, List.intercalate_cons_cons, List.length_append]
      omega
  | cons first rest ih =>
    cases rest with
    | nil =>
      simp only [List.nil_append, List.cons_append, List.intercalate_cons_cons,
        List.length_append] at ih ⊢
      omega
    | cons next rest =>
      simp only [List.cons_append, List.intercalate_cons_cons, List.length_append] at ih ⊢
      omega

end SplitText
