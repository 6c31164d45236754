import Bitgarth.Export.Prepare
import Bitgarth.Ledger.BitcoinBalances

/-! # Exporting a rebuilt Bitcoin ledger

A rebuilt ledger chains in dependency order, so its rows can be put back into a chain
once the start of the lowest block is guessed right. The guess sees balances only;
`GuessesBasis` says when it finds the basis, and `exportsChain_iff_guessesBasis` that the
export is right in just these cases.
-/

namespace Bitgarth.Export

open Amounts Ledger RowSelection

/-- Order in which the export first lines up confirmed entries. -/
def blockKeyOf (entry : LedgerBuildEntry) : WithBot ℤ ×ₗ ℤ ×ₗ String :=
  toLex (heightRank entry.blockHeight, toLex (entry.occurredAt, entry.txHash))

/-- The exported rows of the confirmed entries of an account. -/
def confirmedRows (accountId : String) (written : List LedgerBuildEntry) :
    List AggregatedAccountTransaction :=
  (written.filter fun entry => entry.status = .confirmed).map (exportRow accountId)

/-- Preparing the account succeeds with a permutation of its rows by height; the rows chain
from the basis unless their closing balances are dropped. -/
def ExportsChain (hashOrder : HashOrder) (accountId : String) (basis : ℤ)
    (rows : List AggregatedAccountTransaction) (transactions : List ExportAccountTransaction) :
    Prop :=
  ∃ unasserted result ordered,
    prepareAccountTransactionsForExport hashOrder accountId transactions true false =
        .ok (unasserted, result) ∧
      ordered.Perm rows ∧ ByHeight ordered ∧
      (unasserted = true ∧
          result = (ordered.map AggregatedAccountTransaction.withoutClosing).map .native ∨
        unasserted = false ∧ result = ordered.map .native ∧ Chained basis ordered)

/-- The start guessed for the lowest block is the basis: if the block has no net delta, no
delta settles before its row that is first by time and hash, on balance. -/
def GuessesBasis (entries : List LedgerBuildEntry) : Prop :=
  ∀ first ∈ entries, first.status = .confirmed →
    (∀ other ∈ entries, other.status = .confirmed → blockKeyOf first ≤ blockKeyOf other) →
      sumWhere (fun entry => entry.status = .confirmed ∧ entry.blockHeight = first.blockHeight)
          (·.balanceDelta) entries = 0 →
        sumWhere (fun entry => entry.status = .confirmed ∧ SettlesBefore entries entry first)
          (·.balanceDelta) entries = 0

/-- The calendar year of a block is not before that of a lower block. -/
def YearsFollowHeights (entries : List LedgerBuildEntry) : Prop :=
  ∀ left ∈ entries, ∀ right ∈ entries, left.status = .confirmed → right.status = .confirmed →
    heightRank left.blockHeight ≤ heightRank right.blockHeight →
      Calendar.yearOf (Calendar.dateOf left.occurredAt) ≤
        Calendar.yearOf (Calendar.dateOf right.occurredAt)

/-- The exported row of a confirmed entry, with the balance filed under its position. -/
def settledRow (accountId : String) (closings : List (ℕ × UnsignedAmount))
    (indexed : IndexedEntry) : AggregatedAccountTransaction :=
  exportRow accountId { indexed.1 with closingBalance := closings.lookup indexed.2 }

/-! ## Rebuilt rows chain in dependency order -/

section Rebuilt

variable {hashOrder : HashOrder} {accountId : String} {entries written : List LedgerBuildEntry}
  {basis : NativeBalanceState} {amount : UnsignedAmount} {ordered : List IndexedEntry}
  {closings : List (ℕ × UnsignedAmount)} {running : ℤ}

theorem confirmedRows_zipIdx (found : LedgerBuildEntry → Option UnsignedAmount) :
    confirmedRows accountId (entries.zipIdx.map fun (entry, index) =>
      { entry with
        closingBalance :=
          if entry.status = .failed then found entry else closings.lookup index }) =
      (confirmedEntries entries).map (settledRow accountId closings) := by
  unfold confirmedRows confirmedEntries
  rw [List.filter_map, List.map_map]
  refine List.map_congr_left fun indexed member => ?_
  have confirmed : indexed.1.status = .confirmed := by
    simpa using (List.mem_filter.mp member).2
  simp [settledRow, confirmed]

variable (accountId) in
theorem settledRow_closing (distinct : (entries.map (·.txHash)).Nodup)
    (order : orderConfirmedBitcoinEntries entries = .ok ordered)
    (settled : settleConfirmed running ordered = .ok closings)
    {front back : List IndexedEntry} {indexed : IndexedEntry}
    (whole : ordered = front ++ indexed :: back) :
    ∃ closing, (settledRow accountId closings indexed).closingBalance = some closing ∧
      (closing.value : ℤ) =
        running + ((front ++ [indexed]).map fun other => other.1.balanceDelta).sum := by
  obtain ⟨closing, found, value⟩ := lookup_closing_eq distinct order settled whole
  refine ⟨closing, found, ?_⟩
  rw [value, sum_deltas_upto_eq distinct order whole]

variable (accountId) in
theorem settledRows_chained (distinct : (entries.map (·.txHash)).Nodup)
    (order : orderConfirmedBitcoinEntries entries = .ok ordered)
    (settled : settleConfirmed running ordered = .ok closings) :
    Chained running (ordered.map (settledRow accountId closings)) := by
  apply chained_of_prefix_sums
  intro front row back shape
  obtain ⟨entriesFront, rest, whole, rfl, tail⟩ := List.map_eq_append_iff.mp shape
  obtain ⟨indexed, entriesBack, rfl, rfl, rfl⟩ := List.map_eq_cons_iff.mp tail
  obtain ⟨closing, balance, value⟩ :=
    settledRow_closing accountId distinct order settled whole
  refine ⟨closing, balance, ?_⟩
  rw [value, List.map_append, List.map_append, List.map_map]
  rfl

variable (accountId) in
theorem settledRow_opening (distinct : (entries.map (·.txHash)).Nodup)
    (order : orderConfirmedBitcoinEntries entries = .ok ordered)
    (settled : settleConfirmed running ordered = .ok closings)
    {indexed : IndexedEntry} (member : indexed ∈ ordered) :
    (edgeOf (settledRow accountId closings indexed)).opening = running +
      sumWhere (fun entry => entry.status = .confirmed ∧ SettlesBefore entries entry indexed.1)
        (·.balanceDelta) entries := by
  obtain ⟨front, back, whole⟩ := List.append_of_mem member
  obtain ⟨closing, balance, value⟩ :=
    settledRow_closing accountId distinct order settled whole
  have before := sum_deltas_front_eq distinct order whole
  rw [List.map_append, List.sum_append, before] at value
  have delta : (settledRow accountId closings indexed).balanceDelta = indexed.1.balanceDelta := rfl
  simp only [edgeOf, closingValue, balance, Option.map_some, Option.getD_some, value, delta,
    List.map_cons, List.map_nil, List.sum_singleton]
  omega

theorem settledRows_byHeight (distinct : (entries.map (·.txHash)).Nodup)
    (order : orderConfirmedBitcoinEntries entries = .ok ordered) :
    ByHeight (ordered.map (settledRow accountId closings)) := by
  obtain ⟨_, _, precedes⟩ := orderConfirmedBitcoinEntries_spec distinct order
  refine List.pairwise_map.mpr (pairwise_of_forall_split fun front later back whole => ?_)
  intro earlier inFront
  obtain ⟨earlierHeight, laterHeight, earlierEq, laterEq, before⟩ :=
    (precedes front later back whole earlier (by simp [whole, inFront])).mp inFront
  change heightRank earlier.1.blockHeight ≤ heightRank later.1.blockHeight
  rw [earlierEq, laterEq]
  refine WithBot.coe_le_coe.mpr ?_
  rcases before with lower | ⟨same, _⟩
  · exact lower.le
  · exact same.le

theorem hasEdge_of_chained {start : ℤ} {rows : List AggregatedAccountTransaction}
    (chained : Chained start rows) (nonnegative : 0 ≤ start) (fits : start ≤ i128Max)
    (representable : Representable rows) : ∀ row ∈ rows, HasEdge row := by
  induction rows generalizing start with
  | nil => exact fun row member => absurd member List.not_mem_nil
  | cons first rest ih =>
    obtain ⟨⟨closing, balance, value⟩, tail⟩ := chained
    have closingFits := representable first List.mem_cons_self closing balance
    intro row member
    rcases List.mem_cons.mp member with rfl | later
    · refine ⟨closing, balance, closingFits, ?_, ?_⟩
      · unfold i128Min
        omega
      · omega
    · refine ih tail (by omega) (by omega) ?_ row later
      exact fun other inRest => representable other (List.mem_cons_of_mem _ inRest)

variable (accountId) in
theorem confirmedRows_spec (distinct : (entries.map (·.txHash)).Nodup)
    (assigned : assignBitcoinClosingBalances entries basis = (.ok (), written))
    (known : basis.amount? = some amount) :
    ∃ ordered closings, orderConfirmedBitcoinEntries entries = .ok ordered ∧
      settleConfirmed amount.value ordered = .ok closings ∧
      (ordered.map (settledRow accountId closings)).Perm (confirmedRows accountId written) ∧
      Representable (confirmedRows accountId written) ∧
      ∀ row ∈ confirmedRows accountId written, HasEdge row := by
  obtain ⟨ordered, closings, order, settled, rfl⟩ := assigned_spec assigned known
  have perm : (ordered.map (settledRow accountId closings)).Perm
      ((confirmedEntries entries).map (settledRow accountId closings)) :=
    (orderConfirmedBitcoinEntries_spec distinct order).1.map _
  rw [← confirmedRows_zipIdx (failedClosing ordered closings amount)] at perm
  have representable : Representable (ordered.map (settledRow accountId closings)) := by
    intro row member closing balance
    obtain ⟨indexed, _, rfl⟩ := List.mem_map.mp member
    obtain ⟨front, back, shape, _⟩ := List.lookup_eq_some_iff.mp balance
    exact settleConfirmed_fits settled (indexed.2, closing) (by simp [shape])
  have edges := hasEdge_of_chained (settledRows_chained accountId distinct order
    settled) (Int.natCast_nonneg _) (basis_fits assigned known) representable
  refine ⟨ordered, closings, order, settled, perm, ?_, ?_⟩
  · exact fun row member => representable row (perm.mem_iff.mpr member)
  · exact fun row member => edges row (perm.mem_iff.mpr member)

theorem sum_height_eq (distinct : (entries.map (·.txHash)).Nodup)
    (order : orderConfirmedBitcoinEntries entries = .ok ordered)
    {group : List AggregatedAccountTransaction}
    {rest : List (List AggregatedAccountTransaction)} (ascending : Ascending (group :: rest))
    (perm : (ordered.map (settledRow accountId closings)).Perm (group :: rest).flatten)
    {first : AggregatedAccountTransaction} (member : first ∈ group) :
    (group.map (·.balanceDelta)).sum =
      sumWhere (fun entry => entry.status = .confirmed ∧ entry.blockHeight = first.blockHeight)
        (·.balanceDelta) entries := by
  have ofGroup := (filter_flatten_eq_first ascending member).1
  rw [List.flatten_cons] at perm
  calc (group.map (·.balanceDelta)).sum
      = sumWhere (fun row => row.blockHeight = first.blockHeight) (·.balanceDelta)
          (group ++ rest.flatten) := by rw [sumWhere_eq_sum_filter, ofGroup]
    _ = sumWhere (fun row => row.blockHeight = first.blockHeight) (·.balanceDelta)
          (ordered.map (settledRow accountId closings)) := (sumWhere_perm perm).symm
    _ = sumWhere (fun indexed : IndexedEntry => indexed.1.blockHeight = first.blockHeight)
          (fun indexed => indexed.1.balanceDelta) ordered := sumWhere_map _ _
    _ = _ := sumWhere_ordered distinct order fun entry => entry.blockHeight = first.blockHeight

theorem guessesBasis_iff_of_least (distinct : (entries.map (·.txHash)).Nodup)
    {first : LedgerBuildEntry} (member : first ∈ entries) (confirmed : first.status = .confirmed)
    (least : ∀ other ∈ entries, other.status = .confirmed → blockKeyOf first ≤ blockKeyOf other) :
    GuessesBasis entries ↔
      (sumWhere (fun entry => entry.status = .confirmed ∧ entry.blockHeight = first.blockHeight)
          (·.balanceDelta) entries = 0 →
        sumWhere (fun entry => entry.status = .confirmed ∧ SettlesBefore entries entry first)
          (·.balanceDelta) entries = 0) := by
  refine ⟨fun guesses => guesses first member confirmed least, fun guess => ?_⟩
  intro other otherMember otherConfirmed otherLeast
  have same := le_antisymm (otherLeast first member confirmed)
    (least other otherMember otherConfirmed)
  simp only [blockKeyOf, EmbeddingLike.apply_eq_iff_eq, Prod.mk.injEq] at same
  rw [List.inj_on_of_nodup_map distinct otherMember member same.2.2]
  exact guess

variable (hashOrder) in
theorem initialBalance_eq_iff (distinct : (entries.map (·.txHash)).Nodup)
    (order : orderConfirmedBitcoinEntries entries = .ok ordered)
    (settled : settleConfirmed running ordered = .ok closings)
    {first : AggregatedAccountTransaction} {tail : List AggregatedAccountTransaction}
    {rest : List (List AggregatedAccountTransaction)}
    (ascending : Ascending ((first :: tail) :: rest))
    (sorted : ((first :: tail) :: rest).flatten.Pairwise
      fun left right => left.blockKey ≤ right.blockKey)
    (perm : (ordered.map (settledRow accountId closings)).Perm
      ((first :: tail) :: rest).flatten) :
    initialBalance hashOrder none ((first :: tail).map edgeOf) = running ↔
      GuessesBasis entries := by
  obtain ⟨leading, later, whole, leadingPerm, _, _⟩ :=
    split_settled ascending (settledRows_byHeight distinct order) perm
  have chained := settledRows_chained accountId distinct order settled
  rw [whole] at chained
  have leadingChained := (chained_append.mp chained).1
  have sum := sum_height_eq distinct order ascending perm List.mem_cons_self
  obtain ⟨indexed, placed, rfl⟩ := List.mem_map.mp
    (perm.mem_iff.mpr (List.mem_flatten.mpr ⟨_, List.mem_cons_self, List.mem_cons_self⟩))
  obtain ⟨inEntries, confirmed⟩ := mem_entries_of_mem_ordered distinct order placed
  have least : ∀ other ∈ entries, other.status = .confirmed →
      blockKeyOf indexed.1 ≤ blockKeyOf other := by
    intro other member otherConfirmed
    obtain ⟨index, otherPlaced⟩ := mem_ordered_of_confirmed distinct order member otherConfirmed
    have listed := perm.mem_iff.mp (List.mem_map_of_mem otherPlaced)
    rw [List.flatten_cons, List.cons_append] at listed sorted
    rcases List.mem_cons.mp listed with same | inRest
    · exact (congrArg AggregatedAccountTransaction.blockKey same).ge
    · exact (List.pairwise_cons.mp sorted).1 _ inRest
  rw [guessesBasis_iff_of_least distinct inEntries confirmed least]
  have opening := settledRow_opening accountId distinct order settled placed
  by_cases net : ((settledRow accountId closings indexed :: tail).map (·.balanceDelta)).sum = 0
  · have closed :
        finalBalance running (settledRow accountId closings indexed :: tail) = running := by
      rw [finalBalance, net, add_zero]
    rw [initialBalance_none_of_no_net hashOrder leadingPerm leadingChained closed rfl, opening]
    constructor
    · intro same _
      omega
    · intro guess
      have before := guess (sum.symm.trans net)
      omega
  · have moved :
        finalBalance running (settledRow accountId closings indexed :: tail) ≠ running := by
      unfold finalBalance
      omega
    rw [initialBalance_none_of_net hashOrder leadingPerm leadingChained moved]
    exact ⟨fun _ even => absurd (sum.trans even) net, fun _ => rfl⟩

theorem leavesUnasserted_eq_false {rows : List AggregatedAccountTransaction}
    (years : rows.Pairwise fun left right => left.year ≤ right.year) :
    leavesUnasserted rows true false = false := by
  have chain : (rows.map AggregatedAccountTransaction.year).IsChain (· ≤ ·) :=
    (List.pairwise_map.mpr years).isChain
  simpa [leavesUnasserted] using yearReverses_eq_false_iff.mpr chain

/-- The groups an account's rows are ordered by. -/
def groupsOf (transactions : List ExportAccountTransaction) :
    List (List AggregatedAccountTransaction) :=
  heightGroups (sortByBlock (sortNatives (natives transactions)))

theorem groupsOf_spec {rows : List AggregatedAccountTransaction}
    {transactions : List ExportAccountTransaction}
    (listed : transactions.Perm (rows.map .native)) :
    (groupsOf transactions).flatten.Perm rows ∧ Ascending (groupsOf transactions) ∧
      (groupsOf transactions).flatten.Pairwise
        fun left right => left.blockKey ≤ right.blockKey := by
  unfold groupsOf
  rw [heightGroups_flatten]
  refine ⟨?_, heightGroups_ascending (sortByBlock_byHeight _), sortByBlock_ascending _⟩
  exact ((sortByBlock_perm _).trans (List.perm_insertionSort _ _)).trans
    (natives_perm_of_listed listed).1

theorem exportsChain_of_guessesBasis (distinct : (entries.map (·.txHash)).Nodup)
    (assigned : assignBitcoinClosingBalances entries basis = (.ok (), written))
    (known : basis.amount? = some amount) {transactions : List ExportAccountTransaction}
    (listed : transactions.Perm ((confirmedRows accountId written).map .native))
    (guesses : GuessesBasis entries) :
    ExportsChain hashOrder accountId amount.value (confirmedRows accountId written)
      transactions := by
  obtain ⟨ordered, closings, order, settled, rowsPerm, representable, has⟩ :=
    confirmedRows_spec accountId distinct assigned known
  obtain ⟨flat, ascending, sorted⟩ := groupsOf_spec listed
  have perm := rowsPerm.trans flat.symm
  have starts : ∀ group ∈ (groupsOf transactions).head?,
      initialBalance hashOrder none (group.map edgeOf) = amount.value := by
    intro group isFirst
    obtain ⟨rest, shape⟩ := List.head?_eq_some_iff.mp isFirst
    rw [shape] at ascending sorted perm
    obtain ⟨first, tail, rfl⟩ := List.exists_cons_of_ne_nil ascending.1
    exact (initialBalance_eq_iff hashOrder distinct order settled ascending sorted perm).mpr guesses
  obtain ⟨emitted, emittedEq, emittedPerm, chained, byHeight⟩ :=
    orderGroups_spec accountId ascending (settledRows_byHeight distinct order) perm
      (settledRows_chained accountId distinct order settled)
      (fun row member => has row (flat.mem_iff.mp member)) starts
  have emittedRows := emittedPerm.trans flat
  have verified : verifyChainFrom accountId none emitted = .ok () := by
    refine verifyChainFrom_none_eq_ok_iff.mpr (.inr ⟨amount.value, Int.natCast_nonneg _,
      basis_fits assigned known, chained, ?_⟩)
    exact fun row member => representable row (emittedRows.mem_iff.mp member)
  have ordering : orderRows hashOrder accountId (natives transactions) true false = .ok emitted :=
    emittedEq
  have noAssertions := (natives_perm_of_listed listed).2
  cases leaves : leavesUnasserted emitted true false with
  | true =>
    refine ⟨true, _, emitted, prepareAccountTransactionsForExport_eq_ok_iff.mpr
      ⟨emitted, ordering, leaves.symm, .inl ⟨rfl, rfl⟩⟩, emittedRows, byHeight, .inl ⟨rfl, ?_⟩⟩
    simp [noAssertions, sortAssertions, assemble]
  | false =>
    refine ⟨false, _, emitted, prepareAccountTransactionsForExport_eq_ok_iff.mpr
      ⟨emitted, ordering, leaves.symm, .inr ⟨rfl, verified, rfl⟩⟩, emittedRows, byHeight,
      .inr ⟨rfl, ?_, chained⟩⟩
    simp [noAssertions, sortAssertions, assemble]

theorem years_ascend (follow : YearsFollowHeights entries)
    (same : written.map LedgerBuildEntry.cleared = entries.map LedgerBuildEntry.cleared)
    {emitted : List AggregatedAccountTransaction}
    (emittedRows : emitted.Perm (confirmedRows accountId written)) (byHeight : ByHeight emitted) :
    emitted.Pairwise fun left right => left.year ≤ right.year := by
  have source : ∀ row ∈ emitted, ∃ entry ∈ entries, entry.status = .confirmed ∧
      entry.blockHeight = row.blockHeight ∧ entry.occurredAt = row.occurredAt := by
    intro row member
    obtain ⟨written, inWritten, rfl⟩ := List.mem_map.mp (emittedRows.mem_iff.mp member)
    obtain ⟨present, confirmed⟩ := List.mem_filter.mp inWritten
    obtain ⟨entry, inEntries, equal⟩ := mem_of_map_cleared same present
    refine ⟨entry, inEntries, ?_, (congrArg LedgerBuildEntry.blockHeight equal :),
      (congrArg LedgerBuildEntry.occurredAt equal :)⟩
    exact (congrArg LedgerBuildEntry.status equal :).trans (of_decide_eq_true confirmed)
  refine List.Pairwise.imp_of_mem (fun {left right} leftMember rightMember below => ?_) byHeight
  obtain ⟨one, oneMember, oneConfirmed, oneHeight, oneTime⟩ := source left leftMember
  obtain ⟨two, twoMember, twoConfirmed, twoHeight, twoTime⟩ := source right rightMember
  have years := follow one oneMember two twoMember oneConfirmed twoConfirmed
    (by rw [oneHeight, twoHeight]; exact below)
  rwa [oneTime, twoTime] at years

theorem leavesUnasserted_congr {left right : List AggregatedAccountTransaction}
    (same : left.map AggregatedAccountTransaction.withoutClosing =
      right.map AggregatedAccountTransaction.withoutClosing) (isBitcoin allow : Bool) :
    leavesUnasserted left isBitcoin allow = leavesUnasserted right isBitcoin allow := by
  have years := congrArg (List.map AggregatedAccountTransaction.year) same
  simp only [List.map_map] at years
  unfold leavesUnasserted
  rw [show left.map AggregatedAccountTransaction.year =
    right.map AggregatedAccountTransaction.year from years]

theorem orderRows_of_exportsChain {running : ℤ} {rows : List AggregatedAccountTransaction}
    {transactions : List ExportAccountTransaction}
    (exports : ExportsChain hashOrder accountId running rows transactions)
    (ascend : ∀ emitted : List AggregatedAccountTransaction, emitted.Perm rows →
      ByHeight emitted → emitted.Pairwise fun left right => left.year ≤ right.year) :
    ∃ emitted, orderRows hashOrder accountId (natives transactions) true false = .ok emitted ∧
      Chained running emitted := by
  obtain ⟨unasserted, result, emitted, prepared, perm, byHeight, outcome⟩ := exports
  obtain ⟨ordered, ordering, leaves, shape⟩ :=
    prepareAccountTransactionsForExport_eq_ok_iff.mp prepared
  have kept := leavesUnasserted_eq_false (ascend emitted perm byHeight)
  have found : ∀ listed : List AggregatedAccountTransaction,
      natives (listed.map .native) = listed := by
    intro listed
    simp [natives, List.filterMap_map]
  rcases outcome with ⟨dropped, resultEq⟩ | ⟨asserted, resultEq, chained⟩
  · rcases shape with ⟨_, shape⟩ | ⟨asserted, _⟩
    · have same := congrArg natives (shape.symm.trans resultEq)
      rw [natives_assemble, found] at same
      rw [leavesUnasserted_congr same, kept, dropped] at leaves
      exact absurd leaves Bool.false_ne_true.symm
    · exact absurd (asserted.symm.trans dropped) Bool.false_ne_true
  · rcases shape with ⟨dropped, _⟩ | ⟨_, _, shape⟩
    · exact absurd (asserted.symm.trans dropped) Bool.false_ne_true
    · have same := congrArg natives (shape.symm.trans resultEq)
      rw [natives_assemble, found] at same
      exact ⟨emitted, same ▸ ordering, chained⟩

theorem guessesBasis_of_exportsChain (distinct : (entries.map (·.txHash)).Nodup)
    (assigned : assignBitcoinClosingBalances entries basis = (.ok (), written))
    (known : basis.amount? = some amount) {transactions : List ExportAccountTransaction}
    (listed : transactions.Perm ((confirmedRows accountId written).map .native))
    (follow : YearsFollowHeights entries)
    (exports : ExportsChain hashOrder accountId amount.value (confirmedRows accountId written)
      transactions) : GuessesBasis entries := by
  obtain ⟨ordered, closings, order, settled, rowsPerm, _, has⟩ :=
    confirmedRows_spec accountId distinct assigned known
  obtain ⟨flat, ascending, sorted⟩ := groupsOf_spec listed
  have perm := rowsPerm.trans flat.symm
  obtain ⟨emitted, ordering, chained⟩ := orderRows_of_exportsChain exports
    fun _ => years_ascend follow (assigned_map_cleared assigned known)
  cases groups : groupsOf transactions with
  | nil =>
    intro first member confirmed
    obtain ⟨index, placed⟩ := mem_ordered_of_confirmed distinct order member confirmed
    rw [groups] at perm
    exact absurd (perm.mem_iff.mp (List.mem_map_of_mem placed)) List.not_mem_nil
  | cons group rest =>
    rw [groups] at ascending sorted perm flat
    obtain ⟨first, tail, rfl⟩ := List.exists_cons_of_ne_nil ascending.1
    apply (initialBalance_eq_iff hashOrder distinct order settled ascending sorted perm).mp
    obtain ⟨leading, later, whole, leadingPerm, _, _⟩ :=
      split_settled ascending (settledRows_byHeight distinct order) perm
    have settledChained := settledRows_chained accountId distinct order settled
    rw [whole] at settledChained
    have groupHas : ∀ row ∈ first :: tail, HasEdge row := fun row member =>
      has row (flat.mem_iff.mp (List.mem_append_left _ member))
    obtain ⟨rotated, rotatedPerm, rotatedChained⟩ := exists_chained_from_initial hashOrder
      groupHas leadingPerm (chained_append.mp settledChained).1 (List.cons_ne_nil _ _)
    have computed : orderGroups hashOrder accountId none ((first :: tail) :: rest) =
        .ok emitted := groups ▸ ordering
    obtain ⟨front, others, rfl, frontPerm, frontChained⟩ :=
      orderGroups_cons_chained groupHas rotatedPerm rotatedChained rfl computed
    cases front with
    | nil => exact absurd (List.nil_perm.mp frontPerm) (List.cons_ne_nil _ _)
    | cons row front => exact frontChained.start_eq (chained_append.mp chained).1

/-- **When a rebuilt Bitcoin ledger can be exported.** From any listing of the rows, the
export succeeds with a chain by height, from the basis, if the start guessed for the lowest
block is the basis. Where calendar years follow block heights, it does so only then. -/
theorem exportsChain_iff_guessesBasis (distinct : (entries.map (·.txHash)).Nodup)
    (assigned : assignBitcoinClosingBalances entries basis = (.ok (), written))
    (known : basis.amount? = some amount) {transactions : List ExportAccountTransaction}
    (listed : transactions.Perm ((confirmedRows accountId written).map .native)) :
    (GuessesBasis entries →
      ExportsChain hashOrder accountId amount.value (confirmedRows accountId written)
        transactions) ∧
    (YearsFollowHeights entries →
      ExportsChain hashOrder accountId amount.value (confirmedRows accountId written)
        transactions → GuessesBasis entries) :=
  ⟨exportsChain_of_guessesBasis distinct assigned known listed,
    guessesBasis_of_exportsChain distinct assigned known listed⟩

end Rebuilt

/-! ## A block without a net delta -/

/-- The first block of an account receives 5 and spends it again in a second transaction,
whose hash is the smaller. -/
def receivedAndSpent : List LedgerBuildEntry :=
  [.confirmedRow "b0" 100 1704067200000000000 5 [],
    .confirmedRow "a0" 100 1704067200000000000 (-5) ["b0"]]

/-- The entries of `receivedAndSpent` with the balances of a rebuild from zero. -/
def receivedAndSpentRebuilt : List LedgerBuildEntry :=
  (assignBitcoinClosingBalances receivedAndSpent .canonicalZero).2

private theorem receivedAndSpent_assigned :
    assignBitcoinClosingBalances receivedAndSpent .canonicalZero =
      (.ok (), receivedAndSpentRebuilt) :=
  Prod.ext (by decide +kernel) rfl

/-- The export puts the spending first, so its chain starts at 5 instead of zero. -/
theorem not_exportsChain_receivedAndSpent :
    ¬ ∀ (hashOrder : HashOrder) (accountId : String) (entries written : List LedgerBuildEntry)
        (basis : NativeBalanceState) (amount : UnsignedAmount)
        (transactions : List ExportAccountTransaction), (entries.map (·.txHash)).Nodup →
      assignBitcoinClosingBalances entries basis = (.ok (), written) →
      basis.amount? = some amount →
      transactions.Perm ((confirmedRows accountId written).map .native) →
      ExportsChain hashOrder accountId amount.value (confirmedRows accountId written)
        transactions := by
  intro complete
  obtain ⟨unasserted, result, ordered, prepared, _, _, outcome⟩ :=
    complete .asListed "account" receivedAndSpent receivedAndSpentRebuilt .canonicalZero .zero
      ((confirmedRows "account" receivedAndSpentRebuilt).map .native) (by decide)
      receivedAndSpent_assigned rfl (.refl _)
  have emitted : prepareAccountTransactionsForExport .asListed "account"
      ((confirmedRows "account" receivedAndSpentRebuilt).map .native) true false =
        .ok (false, (confirmedRows "account" receivedAndSpentRebuilt.reverse).map .native) := by
    decide +kernel
  rw [emitted, Except.ok.injEq, Prod.mk.injEq] at prepared
  obtain ⟨rfl, rfl⟩ := prepared
  rcases outcome with ⟨dropped, _⟩ | ⟨_, same, chained⟩
  · exact Bool.false_ne_true dropped
  · rw [← (List.map_injective_iff.mpr fun _ _ => ExportAccountTransaction.native.inj)
      same] at chained
    have spendsFirst : (confirmedRows "account" receivedAndSpentRebuilt.reverse).map
        (·.balanceDelta) = [-5, 5] := by decide +kernel
    obtain ⟨first, rest, shape, delta, _⟩ := List.map_eq_cons_iff.mp spendsFirst
    rw [shape] at chained
    obtain ⟨⟨closing, _, value⟩, _⟩ := chained
    rw [delta, UnsignedAmount.zero_value] at value
    omega

/-- The characterization at the block of `receivedAndSpent`. -/
theorem exportsChain_receivedAndSpent :
    (GuessesBasis receivedAndSpent →
      ExportsChain .asListed "account" (UnsignedAmount.zero.value : ℤ)
        (confirmedRows "account" receivedAndSpentRebuilt)
        ((confirmedRows "account" receivedAndSpentRebuilt).map .native)) ∧
    (YearsFollowHeights receivedAndSpent →
      ExportsChain .asListed "account" (UnsignedAmount.zero.value : ℤ)
        (confirmedRows "account" receivedAndSpentRebuilt)
        ((confirmedRows "account" receivedAndSpentRebuilt).map .native) →
      GuessesBasis receivedAndSpent) :=
  exportsChain_iff_guessesBasis (by decide) receivedAndSpent_assigned rfl (.refl _)

end Bitgarth.Export
