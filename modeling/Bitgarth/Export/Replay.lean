import Bitgarth.Export.Journal
import Bitgarth.Export.Prepare
import Bitgarth.Foundation.RunningTotal

/-! # Replaying a journal by date

Rows are emitted in the order they settled, and a journal is replayed by date, in file
order within a date. `replays_iff` says when the replayed balances meet the asserted ones.
-/

namespace Bitgarth.Export

open Amounts RowSelection RunningTotal

/-- The opening balance implied by the first emitted row. -/
def impliedOpening : List AggregatedAccountTransaction → ℤ
  | [] => 0
  | row :: _ => (edgeOf row).opening

/-- Emitted rows in the order a journal is replayed: by date, stably. -/
def byDate (emitted : List AggregatedAccountTransaction) : List AggregatedAccountTransaction :=
  emitted.insertionSort fun left right => left.date ≤ right.date

/-- Replayed by date from the implied opening, every asserted balance is met. -/
def Replays (emitted : List AggregatedAccountTransaction) : Prop :=
  EachTotal (·.balanceDelta) (fun row total =>
    ∀ closing ∈ row.asserted, (closing.value : ℤ) = total)
    (impliedOpening emitted) (byDate emitted)

instance (emitted : List AggregatedAccountTransaction) : Decidable (Replays emitted) :=
  inferInstanceAs (Decidable (EachTotal _ _ _ _))

/-- Rows of one height carry one date. -/
def SharedDates (rows : List AggregatedAccountTransaction) : Prop :=
  ∀ left ∈ rows, ∀ right ∈ rows, left.blockHeight = right.blockHeight → left.date = right.date

/-- For every row that moves the balance, what lower blocks of later dates move is what
higher blocks of earlier dates move. -/
def ReversalsCancel (rows : List AggregatedAccountTransaction) : Prop :=
  ∀ row ∈ rows, row.balanceDelta ≠ 0 →
    sumWhere (fun other => heightRank other.blockHeight < heightRank row.blockHeight ∧
        row.date < other.date) (·.balanceDelta) rows =
      sumWhere (fun other => heightRank row.blockHeight < heightRank other.blockHeight ∧
        other.date < row.date) (·.balanceDelta) rows

section Replay

variable {hashOrder : HashOrder} {accountId : String} {start : ℤ}
  {transactions result : List ExportAccountTransaction} {isBitcoin allow : Bool}
  {emitted rows : List AggregatedAccountTransaction}

theorem Chained.impliedOpening_eq {row : AggregatedAccountTransaction}
    {rest : List AggregatedAccountTransaction} (chained : Chained start (row :: rest)) :
    impliedOpening (row :: rest) = start := by
  obtain ⟨⟨closing, balance, value⟩, _⟩ := chained
  simp only [impliedOpening, edgeOf, closingValue, balance, Option.map_some, Option.getD_some]
  omega

theorem Chained.closing_of_split (chained : Chained start emitted)
    {front back : List AggregatedAccountTransaction} {row : AggregatedAccountTransaction}
    (split : emitted = front ++ row :: back) :
    ∃ closing, row.closingBalance = some closing ∧
      (closing.value : ℤ) = start + (front.map (·.balanceDelta)).sum + row.balanceDelta := by
  rw [split] at chained
  exact (chained_append.mp chained).2.1

theorem Chained.replays_iff (chained : Chained start emitted) :
    Replays emitted ↔ ∀ before row after, emitted = before ++ row :: after →
      row.balanceDelta ≠ 0 →
        sumWhere (fun other => row.date < other.date) (·.balanceDelta) before =
          sumWhere (fun other => other.date < row.date) (·.balanceDelta) after := by
  unfold Replays byDate
  rw [eachTotal_insertionSort_iff]
  refine forall₄_congr fun before row after split => ?_
  have opens : impliedOpening emitted = start := by
    cases emitted with
    | nil => exact absurd split.symm (by simp)
    | cons first rest => exact chained.impliedOpening_eq
  obtain ⟨closing, balance, value⟩ := chained.closing_of_split split
  have whole := @sum_eq_sumWhere_le_add_lt _ _ (fun other : AggregatedAccountTransaction =>
    other.balanceDelta) before _ AggregatedAccountTransaction.date row.date
  rw [opens]
  by_cases still : row.balanceDelta = 0
  · simp [AggregatedAccountTransaction.asserted, still]
  · have asserted : row.asserted = some closing := by
      unfold AggregatedAccountTransaction.asserted
      rw [if_neg still, balance]
    simp only [asserted, Option.mem_def, Option.some.injEq, forall_eq', ne_eq, still,
      not_false_eq_true, forall_const]
    omega

theorem Chained.replays_of_dates_ascend (chained : Chained start emitted)
    (ascend : emitted.Pairwise fun left right => left.date ≤ right.date) : Replays emitted := by
  refine chained.replays_iff.mpr fun before row after split _ => ?_
  rw [split] at ascend
  obtain ⟨_, tail, apart⟩ := List.pairwise_append.mp ascend
  rw [sumWhere_of_forall_not, sumWhere_of_forall_not]
  · exact fun other member => not_lt.mpr ((List.pairwise_cons.mp tail).1 other member)
  · exact fun other member => not_lt.mpr (apart other member row List.mem_cons_self)

theorem sums_of_byHeight (byHeight : ByHeight emitted) (shared : SharedDates emitted)
    {before after : List AggregatedAccountTransaction} {row : AggregatedAccountTransaction}
    (split : emitted = before ++ row :: after) :
    sumWhere (fun other => row.date < other.date) (·.balanceDelta) before =
        sumWhere (fun other => heightRank other.blockHeight < heightRank row.blockHeight ∧
          row.date < other.date) (·.balanceDelta) emitted ∧
      sumWhere (fun other => other.date < row.date) (·.balanceDelta) after =
        sumWhere (fun other => heightRank row.blockHeight < heightRank other.blockHeight ∧
          other.date < row.date) (·.balanceDelta) emitted := by
  have rowMember : row ∈ emitted := by simp [split]
  have apart : ∀ other ∈ emitted, other.date ≠ row.date →
      heightRank other.blockHeight ≠ heightRank row.blockHeight :=
    fun other member differs same =>
      differs (shared other member row rowMember (heightRank_injective same))
  subst split
  obtain ⟨_, tail, across⟩ := List.pairwise_append.mp byHeight
  have lower : ∀ other ∈ before, heightRank other.blockHeight ≤ heightRank row.blockHeight :=
    fun other member => across other member row List.mem_cons_self
  have upper : ∀ other ∈ after, heightRank row.blockHeight ≤ heightRank other.blockHeight :=
    (List.pairwise_cons.mp tail).1
  constructor
  · rw [sumWhere_append, ← add_zero (sumWhere _ _ before)]
    congr 1
    · refine sumWhere_congr fun other member => ⟨fun later => ⟨?_, later⟩, fun both => both.2⟩
      exact lt_of_le_of_ne (lower other member)
        (apart other (List.mem_append_left _ member) later.ne')
    · refine (sumWhere_of_forall_not fun other member both => ?_).symm
      rcases List.mem_cons.mp member with rfl | inAfter
      · exact lt_irrefl _ both.1
      · exact absurd both.1 (not_lt.mpr (upper other inAfter))
  · rw [List.append_cons, sumWhere_append, ← zero_add (sumWhere _ _ after)]
    congr 1
    · refine (sumWhere_of_forall_not fun other member both => ?_).symm
      rcases List.mem_append.mp member with inBefore | same
      · exact absurd both.1 (not_lt.mpr (lower other inBefore))
      · rw [List.mem_singleton.mp same] at both
        exact lt_irrefl _ both.1
    · refine sumWhere_congr fun other member => ⟨fun earlier => ⟨?_, earlier⟩, fun both => both.2⟩
      exact lt_of_le_of_ne (upper other member) (apart other
        (List.mem_append_right _ (List.mem_cons_of_mem _ member)) earlier.ne).symm

theorem Chained.replays_iff_reversalsCancel (chained : Chained start emitted)
    (byHeight : ByHeight emitted) (shared : SharedDates emitted) :
    Replays emitted ↔ ReversalsCancel emitted := by
  rw [chained.replays_iff]
  constructor
  · intro cancel row member moves
    obtain ⟨before, after, split⟩ := List.append_of_mem member
    obtain ⟨earlier, later⟩ := sums_of_byHeight byHeight shared split
    rw [← earlier, ← later]
    exact cancel before row after split moves
  · intro cancel before row after split moves
    obtain ⟨earlier, later⟩ := sums_of_byHeight byHeight shared split
    rw [earlier, later]
    exact cancel row (by simp [split]) moves

theorem reversalsCancel_perm (perm : emitted.Perm rows) :
    ReversalsCancel emitted ↔ ReversalsCancel rows := by
  unfold ReversalsCancel
  simp only [sumWhere_perm perm, perm.mem_iff]

theorem chained_of_prepared
    (prepared : prepareAccountTransactionsForExport hashOrder accountId transactions isBitcoin
      allow = .ok (false, result)) :
    (∃ start, Chained start (natives result)) ∧
      (natives result).Perm (natives transactions) ∧
      (isBitcoin = true → ByHeight (natives result)) ∧
      (isBitcoin = false → natives result = sortNatives (natives transactions)) := by
  obtain ⟨ordered, ordering, leaves, outcome⟩ :=
    prepareAccountTransactionsForExport_eq_ok_iff.mp prepared
  rcases outcome with ⟨dropped, _⟩ | ⟨_, verified, rfl⟩
  · exact absurd dropped Bool.false_ne_true
  · rw [natives_assemble]
    obtain ⟨perm, byHeight, settled⟩ := orderRows_spec ordering
    have asserted : allow = false := by
      cases allow with
      | false => rfl
      | true => exact absurd leaves (by simp [leavesUnasserted])
    refine ⟨?_, perm, fun bitcoin => byHeight bitcoin asserted, settled⟩
    rcases verifyChainFrom_none_eq_ok_iff.mp verified with rfl | ⟨start, _, _, chained, _⟩
    · exact ⟨0, trivial⟩
    · exact ⟨start, chained⟩

/-- **When a journal replays.** Emitted rows with assertions replay by date exactly when,
for every row that moves the balance, what was emitted before it with a later date moves as
much as what was emitted after it with an earlier date. Rows that are not Bitcoin's always
replay; Bitcoin rows with one date a height replay exactly when their reversals cancel. -/
theorem replays_iff_of_prepared
    (prepared : prepareAccountTransactionsForExport hashOrder accountId transactions isBitcoin
      allow = .ok (false, result)) :
    (Replays (natives result) ↔ ∀ before row after, natives result = before ++ row :: after →
      row.balanceDelta ≠ 0 →
        sumWhere (fun other => row.date < other.date) (·.balanceDelta) before =
          sumWhere (fun other => other.date < row.date) (·.balanceDelta) after) ∧
    (isBitcoin = false → Replays (natives result)) ∧
    (isBitcoin = true → SharedDates (natives transactions) →
      (Replays (natives result) ↔ ReversalsCancel (natives transactions))) := by
  obtain ⟨⟨start, chained⟩, perm, byHeight, settled⟩ := chained_of_prepared prepared
  refine ⟨chained.replays_iff, fun other => ?_, fun bitcoin shared => ?_⟩
  · apply chained.replays_of_dates_ascend
    rw [settled other]
    refine (insertionSort_sorted AggregatedAccountTransaction.settleKey _).imp fun order => ?_
    exact Calendar.dateOf_mono (Prod.Lex.le_iff'.mp order).1
  · rw [← reversalsCancel_perm perm]
    apply chained.replays_iff_reversalsCancel (byHeight bitcoin)
    intro left leftMember right rightMember
    exact shared left (perm.mem_iff.mp leftMember) right (perm.mem_iff.mp rightMember)

end Replay

/-! ## A block stamped before midnight -/

/-- A block stamped ten minutes past midnight receives 5; the next one, stamped ten minutes
before midnight, receives 3. -/
def steppedBack : List ExportAccountTransaction :=
  [.native ⟨"account", "a0", .incoming, .confirmed, 5, .zero, 1704154200000000000, some 100, none,
      none, some ⟨5, by decide⟩⟩,
    .native ⟨"account", "b0", .incoming, .confirmed, 3, .zero, 1704153000000000000, some 101, none,
      none, some ⟨8, by decide⟩⟩]

private theorem steppedBack_prepared :
    prepareAccountTransactionsForExport .asListed "account" steppedBack true false =
      .ok (false, steppedBack) := by
  decide +kernel

/-- The row of 3 is replayed first and meets 3 where it asserts 8. -/
theorem not_replays_steppedBack :
    ¬ ∀ (hashOrder : HashOrder) (accountId : String)
        (transactions result : List ExportAccountTransaction) (isBitcoin allow : Bool),
      prepareAccountTransactionsForExport hashOrder accountId transactions isBitcoin allow =
        .ok (false, result) → Replays (natives result) := by
  intro replay
  have replayed := replay .asListed "account" steppedBack steppedBack true false
    steppedBack_prepared
  revert replayed
  decide +kernel

/-- The characterization at the rows of `steppedBack`. -/
theorem replays_steppedBack :
    (Replays (natives steppedBack) ↔ ∀ before row after,
      natives steppedBack = before ++ row :: after → row.balanceDelta ≠ 0 →
        sumWhere (fun other => row.date < other.date) (·.balanceDelta) before =
          sumWhere (fun other => other.date < row.date) (·.balanceDelta) after) ∧
    (true = false → Replays (natives steppedBack)) ∧
    (true = true → SharedDates (natives steppedBack) →
      (Replays (natives steppedBack) ↔ ReversalsCancel (natives steppedBack))) :=
  replays_iff_of_prepared steppedBack_prepared

end Bitgarth.Export
