import Bitgarth.Foundation.RoundRobin
import Bitgarth.Prices.Planner
import Mathlib.Data.List.Pairwise

/-! # What the plans of price spans are

The provider ranges split the dates asked for, the missing spans are the runs of dates without a
price, and the fair order serves the assets in rounds.
-/

namespace Bitgarth.Prices

/-- Newer spans come first, and no date is in two of them. -/
def NewestFirstSpans (spans : List DateSpan) : Prop :=
  spans.Pairwise fun newer older => older.finish < newer.start

/-- Ranges that split the dates from `start` to `finish`. -/
structure SplitsDates (start finish : ℤ) (ranges : List DateSpan) : Prop where
  holds_iff : ∀ date, (∃ range ∈ ranges, range.Holds date) ↔ start ≤ date ∧ date ≤ finish
  adjacent : ranges.IsChain fun newer older => older.finish + 1 = newer.start
  newest_first : NewestFirstSpans ranges
  size : ∀ range ∈ ranges, range.start ≤ range.finish ∧ range.days ≤ 365

section ProviderRanges

variable {start finish : ℤ}

theorem splitsDates_singleton (ordered : start ≤ finish) (short : finish < start + 365) :
    SplitsDates start finish [⟨start, finish⟩] where
  holds_iff date := by simp [DateSpan.Holds]
  adjacent := .singleton _
  newest_first := List.pairwise_singleton _ _
  size := by
    simp only [List.mem_singleton, forall_eq, DateSpan.days]
    omega

theorem SplitsDates.cons {between : ℤ} {ranges : List DateSpan}
    (splits : SplitsDates start (between - 1) ranges) (after : start < between)
    (ordered : between ≤ finish) (short : finish < between + 365) :
    SplitsDates start finish (⟨between, finish⟩ :: ranges) where
  holds_iff date := by
    rw [List.exists_mem_cons_iff, splits.holds_iff]
    unfold DateSpan.Holds
    dsimp only
    omega
  adjacent := by
    cases ranges with
    | nil => exact .singleton _
    | cons range older =>
      apply List.IsChain.cons_cons _ splits.adjacent
      obtain ⟨holder, member, -, reaches⟩ :=
        (splits.holds_iff (between - 1)).mpr ⟨by omega, le_rfl⟩
      have own := splits.size range (.head _)
      have within := (splits.holds_iff range.finish).mp ⟨range, .head _, own.1, le_rfl⟩
      show range.finish + 1 = between
      rcases List.mem_cons.mp member with rfl | later
      · omega
      · have before := List.rel_of_pairwise_cons splits.newest_first later
        omega
  newest_first := by
    apply List.Pairwise.cons _ splits.newest_first
    intro older member
    have own := splits.size older member
    have within := (splits.holds_iff older.finish).mp ⟨older, member, own.1, le_rfl⟩
    show older.finish < between
    omega
  size := by
    intro range member
    rcases List.mem_cons.mp member with rfl | later
    · constructor
      · exact ordered
      · unfold DateSpan.days
        dsimp only
        omega
    · exact splits.size range later

theorem splitsDates_providerRangesFrom {left : ℕ} (ordered : start ≤ finish)
    (room : finish + 1 - start ≤ left) :
    SplitsDates start finish (providerRangesFrom start left finish) := by
  induction left generalizing finish with
  | zero =>
    push_cast at room
    omega
  | succ left ih =>
    push_cast at room
    rw [providerRangesFrom]
    split
    · rename_i reached
      rw [reached]
      exact splitsDates_singleton ordered (by omega)
    · rename_i more
      have after : start < max (finish - 364) start := by omega
      exact (ih (by omega) (by omega)).cons after (by omega) (by omega)

theorem splitsDates_backwardProviderRanges (ordered : start ≤ finish) :
    SplitsDates start finish (backwardProviderRanges start finish) :=
  splitsDates_providerRangesFrom ordered (by omega)

end ProviderRanges

/-- The longest runs of the requested dates that have no price, oldest first. -/
structure MissingRuns (requested : DateSpan) (existing : List ℤ) (runs : List DateSpan) : Prop where
  holds_iff : ∀ date, (∃ run ∈ runs, run.Holds date) ↔ requested.Holds date ∧ date ∉ existing
  ordered : ∀ run ∈ runs, run.start ≤ run.finish
  apart : runs.Pairwise fun earlier later => earlier.finish + 1 < later.start
  longest : ∀ run ∈ runs, ∀ date, date = run.start - 1 ∨ date = run.finish + 1 →
    requested.Holds date → date ∈ existing

section MissingRuns

variable {existing : List ℤ} {finish : ℤ} {requested : DateSpan}

theorem le_start_of_mem_takenSpan {spanStart : Option ℤ} {span : DateSpan}
    (member : span ∈ takenSpan spanStart finish) :
    span.start ∈ spanStart ∧ span.finish = finish := by
  obtain ⟨start, isStart, rfl⟩ := Option.map_eq_some_iff.mp (Option.mem_toList.mp member)
  exact ⟨isStart, rfl⟩

theorem le_start_of_mem_missingSpansFrom {left : ℕ} {cursor : ℤ} {spanStart : Option ℤ}
    (opened : ∀ start ∈ spanStart, start < cursor) {span : DateSpan}
    (member : span ∈ missingSpansFrom existing finish left cursor spanStart) :
    spanStart.getD cursor ≤ span.start := by
  induction left generalizing cursor spanStart with
  | zero =>
    obtain ⟨isStart, -⟩ := le_start_of_mem_takenSpan member
    rw [isStart]
    exact le_rfl
  | succ left ih =>
    rw [missingSpansFrom] at member
    split at member
    · rcases List.mem_append.mp member with closed | later
      · obtain ⟨isStart, -⟩ := le_start_of_mem_takenSpan closed
        rw [isStart]
        exact le_rfl
      · have after := ih (by simp) later
        rw [Option.getD_none] at after
        cases spanStart with
        | none => exact (Int.le_add_one le_rfl).trans after
        | some start =>
          have early := opened start rfl
          rw [Option.getD_some]
          omega
    · cases spanStart with
      | none =>
        exact @ih (cursor + 1) (some cursor) (by simp) member
      | some start =>
        have early := opened start rfl
        exact @ih (cursor + 1) (some start) (by simp; omega) member

theorem apart_missingSpansFrom {left : ℕ} {cursor : ℤ} {spanStart : Option ℤ}
    (opened : ∀ start ∈ spanStart, start < cursor) :
    (missingSpansFrom existing finish left cursor spanStart).Pairwise
      fun earlier later => earlier.finish + 1 < later.start := by
  have alone : ∀ (spanStart : Option ℤ) (finish : ℤ), (takenSpan spanStart finish).Pairwise
      fun earlier later => earlier.finish + 1 < later.start := by
    intro spanStart finish
    cases spanStart with
    | none => exact .nil
    | some start => exact List.pairwise_singleton _ _
  induction left generalizing cursor spanStart with
  | zero => exact alone spanStart finish
  | succ left ih =>
    rw [missingSpansFrom]
    split
    · apply List.pairwise_append.mpr
      refine ⟨alone spanStart (cursor - 1), ih (by simp), ?_⟩
      intro closed isClosed later isLater
      obtain ⟨-, closedAt⟩ := le_start_of_mem_takenSpan isClosed
      have after := le_start_of_mem_missingSpansFrom (by simp) isLater
      rw [Option.getD_none] at after
      omega
    · apply ih
      cases spanStart with
      | none =>
        intro start isStart
        cases isStart
        omega
      | some first =>
        intro start isStart
        have early := opened start isStart
        omega

theorem missingRuns_missingDailySpans :
    MissingRuns requested existing (missingDailySpans requested existing) := by
  have holds_iff : ∀ date, (∃ run ∈ missingDailySpans requested existing, run.Holds date) ↔
      requested.Holds date ∧ date ∉ existing := by
    intro date
    rw [← exists_holds_missingDailySpansNewestFirst]
    unfold missingDailySpansNewestFirst
    simp only [List.mem_reverse]
  have ordered : ∀ run ∈ missingDailySpans requested existing, run.start ≤ run.finish :=
    fun run member => start_le_finish_of_mem_newestFirst (List.mem_reverse.mpr member)
  have apart : (missingDailySpans requested existing).Pairwise
      fun earlier later => earlier.finish + 1 < later.start :=
    apart_missingSpansFrom (by simp)
  refine ⟨holds_iff, ordered, apart, ?_⟩
  intro run member date beside inside
  by_contra missing
  obtain ⟨other, found, holds⟩ := (holds_iff date).mpr ⟨inside, missing⟩
  have own := ordered run member
  have apartOrSame : other = run ∨ other.finish + 1 < run.start ∨ run.finish + 1 < other.start := by
    by_cases same : other = run
    · exact .inl same
    · have either := apart.imp (S := fun (earlier later : DateSpan) =>
        earlier.finish + 1 < later.start ∨ later.finish + 1 < earlier.start)
          fun before => .inl before
      have symmetric : Std.Symm fun (earlier later : DateSpan) =>
        earlier.finish + 1 < later.start ∨ later.finish + 1 < earlier.start := ⟨fun _ _ => Or.symm⟩
      exact .inr (either.forall found member same)
  unfold DateSpan.Holds at holds
  rcases apartOrSame with rfl | before | after <;> omega

theorem newestFirst_missingDailySpansNewestFirst :
    NewestFirstSpans (missingDailySpansNewestFirst requested existing) := by
  unfold NewestFirstSpans missingDailySpansNewestFirst
  rw [List.pairwise_reverse]
  apply missingRuns_missingDailySpans.apart.imp
  intro earlier later before
  omega

end MissingRuns

/-- The spans of an asset in planned work. -/
def spansOf (assetIndex : ℕ) (work : List FairPriceHistorySpanWork) : List DateSpan :=
  (work.filter fun entry => entry.assetIndex = assetIndex).map (·.span)

/-- All spans in an order that keeps each asset's own and gives no asset a further span while
another that has spans left was given fewer. -/
structure FairOrder (perAssetSpans : List (ℕ × List DateSpan))
    (work : List FairPriceHistorySpanWork) : Prop where
  perm : work.Perm (perAssetSpans.flatMap fun entry => entry.2.map fun span => ⟨entry.1, span⟩)
  keeps_order : ∀ entry ∈ perAssetSpans, spansOf entry.1 work = entry.2
  fair : ∀ before taken after, work = before ++ taken :: after → ∀ entry ∈ perAssetSpans,
    min (spansOf taken.assetIndex before).length entry.2.length ≤ (spansOf entry.1 before).length

section FairOrder

open RoundRobin

variable {perAssetSpans : List (ℕ × List DateSpan)}

/-- The work for an asset's span. -/
def spanWork (entry : ℕ × DateSpan) : FairPriceHistorySpanWork := ⟨entry.1, entry.2⟩

theorem spansOf_map_spanWork (assetIndex : ℕ) (entries : List (ℕ × DateSpan)) :
    spansOf assetIndex (entries.map spanWork) = itemsOf assetIndex entries := by
  unfold spansOf itemsOf
  rw [List.filter_map, List.map_map]
  rfl

theorem fairMissingSpanWork_eq :
    fairMissingSpanWork perAssetSpans =
      (rounds perAssetSpans
        ((perAssetSpans.map fun entry => entry.2.length).foldr max 0)).map spanWork := by
  unfold fairMissingSpanWork rounds
  rw [List.map_flatMap]
  apply List.flatMap_congr
  intro turn _
  unfold RoundRobin.round
  rw [List.map_filterMap]
  apply List.filterMap_congr
  intro entry _
  rw [Option.map_map]
  rfl

theorem length_le_maxRounds : ∀ entry ∈ perAssetSpans,
    entry.2.length ≤ (perAssetSpans.map fun entry => entry.2.length).foldr max 0 :=
  fun _ member => le_foldr_max (List.mem_map.mpr ⟨_, member, rfl⟩)

theorem spansOf_fairMissingSpanWork (nodup : (perAssetSpans.map Prod.fst).Nodup)
    {entry : ℕ × List DateSpan} (member : entry ∈ perAssetSpans) :
    spansOf entry.1 (fairMissingSpanWork perAssetSpans) = entry.2 := by
  rw [fairMissingSpanWork_eq, spansOf_map_spanWork, itemsOf_rounds nodup member,
    List.take_of_length_le (length_le_maxRounds entry member)]

theorem fairOrder_fairMissingSpanWork (nodup : (perAssetSpans.map Prod.fst).Nodup) :
    FairOrder perAssetSpans (fairMissingSpanWork perAssetSpans) where
  perm := by
    rw [fairMissingSpanWork_eq]
    apply ((rounds_perm length_le_maxRounds).map spanWork).trans
    rw [List.map_flatMap]
    apply List.Perm.of_eq
    apply List.flatMap_congr
    intro entry _
    rw [List.map_map]
    rfl
  keeps_order _ member := spansOf_fairMissingSpanWork nodup member
  fair := by
    intro before taken after split entry member
    rw [fairMissingSpanWork_eq] at split
    obtain ⟨first, rest, ordered, rfl, following⟩ := List.map_eq_append_iff.mp split
    obtain ⟨now, later, rfl, rfl, -⟩ := List.map_eq_cons_iff.mp following
    rw [spansOf_map_spanWork, spansOf_map_spanWork]
    exact length_itemsOf_le nodup member ordered

theorem newestFirst_fairMissingSpanWork (nodup : (perAssetSpans.map Prod.fst).Nodup)
    (newestFirst : ∀ entry ∈ perAssetSpans, NewestFirstSpans entry.2) :
    (fairMissingSpanWork perAssetSpans).Pairwise fun first second =>
      first.assetIndex = second.assetIndex → second.span.finish < first.span.start := by
  have along : ∀ assetIndex, NewestFirstSpans (itemsOf assetIndex (rounds perAssetSpans
      ((perAssetSpans.map fun entry => entry.2.length).foldr max 0))) := by
    intro assetIndex
    by_cases listed : ∃ spans, (assetIndex, spans) ∈ perAssetSpans
    · obtain ⟨spans, member⟩ := listed
      rw [itemsOf_rounds nodup member]
      exact List.Pairwise.sublist (List.take_sublist _ _) (newestFirst _ member)
    · rw [itemsOf_eq_nil]
      · exact .nil
      · rintro entry member rfl
        obtain ⟨turn, -, inRound⟩ := List.mem_flatMap.mp member
        exact listed (mem_of_mem_round inRound)
  rw [fairMissingSpanWork_eq, List.pairwise_map]
  exact pairwise_of_itemsOf along

end FairOrder

end Bitgarth.Prices
