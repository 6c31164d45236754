import Mathlib.Data.List.MinMax
import Mathlib.Order.Interval.Set.Defs
import Mathlib.Algebra.Order.Ring.Int
import Mathlib.Tactic.Common

/-! # Planning of daily price spans

A date is the number of its day, the first of January 1970 being day 0.
-/

namespace Bitgarth.Prices

/-- The dates from `start` to `finish`, both included. -/
structure DateSpan where
  start : ℤ
  finish : ℤ
deriving DecidableEq, Repr

namespace DateSpan

def Holds (span : DateSpan) (date : ℤ) : Prop := span.start ≤ date ∧ date ≤ span.finish

instance (span : DateSpan) (date : ℤ) : Decidable (span.Holds date) :=
  inferInstanceAs (Decidable (_ ∧ _))

/-- How many dates the span has. -/
def days (span : DateSpan) : ℕ := (span.finish + 1 - span.start).toNat

end DateSpan

inductive PriceHistoryHorizon where
  | publicKeyless
  | pro
deriving DecidableEq, Repr

def requestedStartDate (firstOwned today : ℤ) : ℤ :=
  let tenYearCap := today - (365 * 10 - 1)
  max firstOwned tenYearCap

def requestedStartDateForHorizon (firstOwned today : ℤ) : PriceHistoryHorizon → ℤ
  | .publicKeyless =>
    let publicCap := today - 364
    max firstOwned publicCap
  | .pro => requestedStartDate firstOwned today

/-- The span pushed where an open span is taken. -/
def takenSpan (spanStart : Option ℤ) (finish : ℤ) : List DateSpan :=
  (spanStart.map fun start => ⟨start, finish⟩).toList

/-- The loop of `missing_daily_spans` with `left` dates to go from `cursor`. -/
def missingSpansFrom (existing : List ℤ) (finish : ℤ) : ℕ → ℤ → Option ℤ → List DateSpan
  | 0, _, spanStart => takenSpan spanStart finish
  | left + 1, cursor, spanStart =>
    if cursor ∈ existing then
      takenSpan spanStart (cursor - 1) ++ missingSpansFrom existing finish left (cursor + 1) none
    else missingSpansFrom existing finish left (cursor + 1) (spanStart.or (some cursor))

/-- The longest spans of dates that have no price. -/
def missingDailySpans (requested : DateSpan) (existing : List ℤ) : List DateSpan :=
  missingSpansFrom existing requested.finish requested.days requested.start none

def missingDailySpansNewestFirst (requested : DateSpan) (existing : List ℤ) : List DateSpan :=
  (missingDailySpans requested existing).reverse

structure FairPriceHistorySpanWork where
  assetIndex : ℕ
  span : DateSpan
deriving DecidableEq, Repr

/-- Round after round, the next span of every asset that has one. -/
def fairMissingSpanWork (perAssetSpans : List (ℕ × List DateSpan)) :
    List FairPriceHistorySpanWork :=
  let maxRounds := (perAssetSpans.map fun entry => entry.2.length).foldr max 0
  (List.range maxRounds).flatMap fun round =>
    perAssetSpans.filterMap fun entry => entry.2[round]?.map fun span => ⟨entry.1, span⟩

/-- The loop of `backward_provider_ranges`, which takes at least one date in each turn. -/
def providerRangesFrom (start : ℤ) : ℕ → ℤ → List DateSpan
  | 0, _ => []
  | left + 1, cursorEnd =>
    let cursorStart := max (cursorEnd - 364) start
    ⟨cursorStart, cursorEnd⟩ ::
      if cursorStart = start then [] else providerRangesFrom start left (cursorStart - 1)

/-- The dates from `start` to `finish` in ranges of at most 365 dates, newest first. -/
def backwardProviderRanges (start finish : ℤ) : List DateSpan :=
  providerRangesFrom start (finish + 1 - start).toNat finish

example : missingDailySpansNewestFirst ⟨1, 10⟩ [3, 4, 8] = [⟨9, 10⟩, ⟨5, 7⟩, ⟨1, 2⟩] := by decide

section MissingSpans

variable {existing : List ℤ} {finish : ℤ}

theorem exists_holds_takenSpan {spanStart : Option ℤ} {date : ℤ} :
    (∃ span ∈ takenSpan spanStart finish, span.Holds date) ↔
      ∃ start ∈ spanStart, start ≤ date ∧ date ≤ finish := by
  cases spanStart with
  | none => simp [takenSpan]
  | some start => simp [takenSpan, DateSpan.Holds]

theorem exists_holds_missingSpansFrom {left : ℕ} {cursor : ℤ} {spanStart : Option ℤ}
    (atEnd : cursor + left = finish + 1) (opened : ∀ start ∈ spanStart, start < cursor)
    (date : ℤ) :
    (∃ span ∈ missingSpansFrom existing finish left cursor spanStart, span.Holds date) ↔
      (cursor ≤ date ∧ date ≤ finish ∧ date ∉ existing) ∨
        ∃ start ∈ spanStart, start ≤ date ∧ date < cursor := by
  induction left generalizing cursor spanStart with
  | zero =>
    rw [missingSpansFrom, exists_holds_takenSpan]
    have none : ¬(cursor ≤ date ∧ date ≤ finish ∧ date ∉ existing) := by
      rintro ⟨after, before, _⟩
      omega
    simp only [none, false_or]
    refine exists_congr fun start => and_congr_right fun _ => and_congr_right fun _ => ?_
    omega
  | succ left ih =>
    have atEnd' : cursor + 1 + left = finish + 1 := by push_cast at atEnd; omega
    rw [missingSpansFrom]
    split
    · rename_i priced
      simp only [List.mem_append, or_and_right, exists_or, exists_holds_takenSpan,
        @ih (cursor + 1) none atEnd' (by simp), Option.mem_def, reduceCtorEq, false_and,
        exists_false, or_false, Int.le_sub_one_iff]
      rw [or_comm]
      refine or_congr_left ⟨?_, ?_⟩
      · rintro ⟨after, before, missing⟩
        exact ⟨by omega, before, missing⟩
      · rintro ⟨after, before, missing⟩
        refine ⟨?_, before, missing⟩
        rcases after.lt_or_eq with later | rfl
        · exact later
        · contradiction
    · rename_i missing
      have opened' : ∀ start ∈ spanStart.or (some cursor), start < cursor + 1 := by
        intro start member
        cases spanStart with
        | none =>
          cases member
          omega
        | some first =>
          have early := opened start member
          omega
      rw [ih atEnd' opened']
      cases spanStart with
      | none =>
        simp only [Option.none_or, Option.mem_def, Option.some.injEq, exists_eq_left',
          reduceCtorEq, false_and, exists_false, or_false]
        constructor
        · rintro (⟨after, before, absent⟩ | ⟨after, before⟩)
          · exact ⟨by omega, before, absent⟩
          · obtain rfl : date = cursor := by omega
            exact ⟨after, by omega, missing⟩
        · rintro ⟨after, before, absent⟩
          rcases after.lt_or_eq with later | rfl
          · exact .inl ⟨later, before, absent⟩
          · exact .inr ⟨le_rfl, by omega⟩
      | some start =>
        have early := opened start rfl
        simp only [Option.some_or, Option.mem_def, Option.some.injEq, exists_eq_left']
        constructor
        · rintro (⟨after, before, absent⟩ | ⟨after, before⟩)
          · exact .inl ⟨by omega, before, absent⟩
          · rcases lt_or_ge date cursor with earlier | later
            · exact .inr ⟨after, earlier⟩
            · obtain rfl : date = cursor := by omega
              exact .inl ⟨later, by omega, missing⟩
        · rintro (⟨after, before, absent⟩ | ⟨after, before⟩)
          · rcases after.lt_or_eq with later | rfl
            · exact .inl ⟨later, before, absent⟩
            · exact .inr ⟨by omega, by omega⟩
          · exact .inr ⟨after, by omega⟩

theorem start_le_finish_of_mem_missingSpansFrom {left : ℕ} {cursor : ℤ} {spanStart : Option ℤ}
    (atEnd : cursor + left = finish + 1) (opened : ∀ start ∈ spanStart, start < cursor)
    {span : DateSpan} (member : span ∈ missingSpansFrom existing finish left cursor spanStart) :
    span.start ≤ span.finish := by
  have taken : ∀ (spanStart : Option ℤ) (finish : ℤ), (∀ start ∈ spanStart, start ≤ finish) →
      span ∈ takenSpan spanStart finish → span.start ≤ span.finish := by
    intro spanStart finish early member
    obtain ⟨start, isStart, rfl⟩ := Option.map_eq_some_iff.mp (Option.mem_toList.mp member)
    exact early start isStart
  induction left generalizing cursor spanStart with
  | zero =>
    refine taken _ _ (fun start isStart => ?_) member
    have early := opened start isStart
    omega
  | succ left ih =>
    have atEnd' : cursor + 1 + left = finish + 1 := by push_cast at atEnd; omega
    rw [missingSpansFrom] at member
    split at member
    · rcases List.mem_append.mp member with closed | later
      · refine taken _ _ (fun start isStart => ?_) closed
        have early := opened start isStart
        omega
      · exact ih atEnd' (by simp) later
    · refine ih atEnd' (fun start isStart => ?_) member
      cases spanStart with
      | none =>
        cases isStart
        omega
      | some first =>
        have early := opened start isStart
        omega

/-- What a span counts for: its dates and the price that keeps it apart from the next. -/
def DateSpan.weight (span : DateSpan) : ℕ := span.days + 1

theorem sum_weight_missingSpansFrom_le {left : ℕ} {cursor : ℤ} {spanStart : Option ℤ}
    (atEnd : cursor + left = finish + 1) (opened : ∀ start ∈ spanStart, start < cursor) :
    ((missingSpansFrom existing finish left cursor spanStart).map DateSpan.weight).sum ≤
      left + 1 + (spanStart.map fun start => (cursor - start).toNat).getD 0 := by
  induction left generalizing cursor spanStart with
  | zero =>
    cases spanStart with
    | none => simp [missingSpansFrom, takenSpan]
    | some start =>
      simp only [missingSpansFrom, takenSpan, Option.map_some, Option.toList_some,
        List.map_cons, List.map_nil, List.sum_cons, List.sum_nil, DateSpan.weight,
        DateSpan.days, Option.getD_some]
      omega
  | succ left ih =>
    have atEnd' : cursor + 1 + left = finish + 1 := by push_cast at atEnd; omega
    rw [missingSpansFrom]
    split
    · have later := @ih (cursor + 1) none atEnd' (by simp)
      rw [Option.map_none, Option.getD_none] at later
      rw [List.map_append, List.sum_append]
      cases spanStart with
      | none =>
        simp only [takenSpan, Option.map_none, Option.toList_none, List.map_nil,
          List.sum_nil, Option.getD_none]
        omega
      | some start =>
        have early := opened start rfl
        simp only [takenSpan, Option.map_some, Option.toList_some, List.map_cons,
          List.map_nil, List.sum_cons, List.sum_nil, DateSpan.weight, DateSpan.days,
          Option.getD_some]
        omega
    · cases spanStart with
      | none =>
        have later := @ih (cursor + 1) (some cursor) atEnd' (by simp)
        rw [Option.map_some, Option.getD_some] at later
        simp only [Option.none_or, Option.map_none, Option.getD_none]
        omega
      | some start =>
        have early := opened start rfl
        have later := @ih (cursor + 1) (some start) atEnd' (by simp; omega)
        rw [Option.map_some, Option.getD_some] at later
        simp only [Option.some_or, Option.map_some, Option.getD_some]
        omega

end MissingSpans

section NewestFirst

variable {requested newest : DateSpan} {existing : List ℤ} {rest : List DateSpan}

theorem missingDailySpans_of_lt (backwards : requested.finish + 1 < requested.start) :
    missingDailySpans requested existing = [] := by
  have none : requested.days = 0 := by
    unfold DateSpan.days
    omega
  rw [missingDailySpans, none]
  rfl

theorem exists_holds_missingDailySpansNewestFirst (date : ℤ) :
    (∃ span ∈ missingDailySpansNewestFirst requested existing, span.Holds date) ↔
      requested.Holds date ∧ date ∉ existing := by
  simp only [missingDailySpansNewestFirst, List.mem_reverse]
  rcases lt_or_ge (requested.finish + 1) requested.start with backwards | forwards
  · rw [missingDailySpans_of_lt backwards]
    constructor
    · nofun
    · rintro ⟨⟨after, before⟩, _⟩
      omega
  · have atEnd : requested.start + requested.days = requested.finish + 1 := by
      unfold DateSpan.days
      omega
    rw [missingDailySpans, exists_holds_missingSpansFrom atEnd (by simp)]
    simp [DateSpan.Holds, and_assoc]

theorem start_le_finish_of_mem_newestFirst {span : DateSpan}
    (member : span ∈ missingDailySpansNewestFirst requested existing) :
    span.start ≤ span.finish := by
  rw [missingDailySpansNewestFirst, List.mem_reverse] at member
  rcases lt_or_ge (requested.finish + 1) requested.start with backwards | forwards
  · rw [missingDailySpans_of_lt backwards] at member
    cases member
  · refine start_le_finish_of_mem_missingSpansFrom ?_ (by simp) member
    unfold DateSpan.days
    omega

theorem within_of_mem_newestFirst {span : DateSpan}
    (member : span ∈ missingDailySpansNewestFirst requested existing) :
    requested.start ≤ span.start ∧ span.finish ≤ requested.finish := by
  have ordered := start_le_finish_of_mem_newestFirst member
  have first := (exists_holds_missingDailySpansNewestFirst span.start).mp
    ⟨span, member, le_rfl, ordered⟩
  have last := (exists_holds_missingDailySpansNewestFirst span.finish).mp
    ⟨span, member, ordered, le_rfl⟩
  exact ⟨first.1.1, last.1.2⟩

theorem weight_newestFirst_le
    (found : missingDailySpansNewestFirst requested existing = newest :: rest) :
    newest.weight + (rest.map DateSpan.weight).sum ≤ requested.weight := by
  have total : ((missingDailySpansNewestFirst requested existing).map DateSpan.weight).sum ≤
      requested.weight := by
    rw [missingDailySpansNewestFirst, List.map_reverse, List.sum_reverse]
    rcases lt_or_ge (requested.finish + 1) requested.start with backwards | forwards
    · simp [missingDailySpans_of_lt backwards]
    · have atEnd : requested.start + requested.days = requested.finish + 1 := by
        unfold DateSpan.days
        omega
      simpa [missingDailySpans, DateSpan.weight] using
        @sum_weight_missingSpansFrom_le existing _ _ _ none atEnd (by simp)
  simpa only [found, List.map_cons, List.sum_cons] using total

theorem days_newest_lt
    (found : missingDailySpansNewestFirst requested existing = newest :: rest)
    (narrower : newest :: rest ≠ [requested]) : newest.days < requested.days := by
  have weights := weight_newestFirst_le found
  have member : newest ∈ missingDailySpansNewestFirst requested existing :=
    found ▸ List.mem_cons_self
  cases rest with
  | cons later others =>
    simp only [List.map_cons, List.sum_cons, DateSpan.weight] at weights
    omega
  | nil =>
    have ordered := start_le_finish_of_mem_newestFirst member
    have within := within_of_mem_newestFirst member
    have apart : ¬(newest.start = requested.start ∧ newest.finish = requested.finish) := by
      rintro ⟨start, finish⟩
      apply narrower
      cases newest
      cases requested
      cases start
      cases finish
      rfl
    unfold DateSpan.days
    omega

end NewestFirst

theorem le_foldr_max {lengths : List ℕ} {length : ℕ} (member : length ∈ lengths) :
    length ≤ lengths.foldr max 0 := by
  induction lengths with
  | nil => cases member
  | cons first rest ih =>
    rcases List.mem_cons.mp member with rfl | later
    · exact le_max_left _ _
    · exact le_trans (ih later) (le_max_right _ _)

theorem mem_fairMissingSpanWork {perAssetSpans : List (ℕ × List DateSpan)} {index : ℕ}
    {spans : List DateSpan} {span : DateSpan} (entry : (index, spans) ∈ perAssetSpans)
    (member : span ∈ spans) : ⟨index, span⟩ ∈ fairMissingSpanWork perAssetSpans := by
  obtain ⟨round, inside, rfl⟩ := List.getElem_of_mem member
  refine List.mem_flatMap.mpr ⟨round, List.mem_range.mpr ?_, ?_⟩
  · exact lt_of_lt_of_le inside (le_foldr_max (List.mem_map.mpr ⟨_, entry, rfl⟩))
  · exact List.mem_filterMap.mpr ⟨_, entry, by simp [inside]⟩

theorem exists_holds_backwardProviderRanges {start finish date : ℤ} (after : start ≤ date)
    (before : date ≤ finish) : ∃ range ∈ backwardProviderRanges start finish, range.Holds date := by
  suffices ∀ (left : ℕ) (cursorEnd : ℤ), cursorEnd + 1 - start ≤ left → date ≤ cursorEnd →
      ∃ range ∈ providerRangesFrom start left cursorEnd, range.Holds date from
    this _ finish (by omega) before
  intro left
  induction left with
  | zero =>
    intro cursorEnd room inside
    push_cast at room
    omega
  | succ left ih =>
    intro cursorEnd room inside
    push_cast at room
    rw [providerRangesFrom]
    rcases le_or_gt (max (cursorEnd - 364) start) date with here | earlier
    · exact ⟨_, List.mem_cons_self, here, inside⟩
    · have more : max (cursorEnd - 364) start ≠ start := by omega
      obtain ⟨range, member, holds⟩ :=
        ih (max (cursorEnd - 364) start - 1) (by omega) (by omega)
      refine ⟨range, List.mem_cons_of_mem _ ?_, holds⟩
      rwa [if_neg more]

end Bitgarth.Prices
