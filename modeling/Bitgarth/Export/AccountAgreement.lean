import Bitgarth.Export.Prepare
import Bitgarth.Ledger.AccountBalances

/-! # Exporting a rebuilt account-model ledger

The rebuild stores a running total below zero as zero and keeps counting below it; the
export adds deltas to the stored balances. `verifyNativeLedgerChain_eq_ok_iff` says on
which histories the two agree.
-/

namespace Bitgarth.Export

open Amounts Ledger RowSelection

/-- The exported rows of an account. -/
def exportedRows (accountId : String) (written : List LedgerBuildEntry) :
    List AggregatedAccountTransaction :=
  (written.filter fun entry => IsExported entry).map (exportRow accountId)

/-- Closing balances are the running totals from `start`, or zero where these are below. -/
def Clamped : ℤ → List AggregatedAccountTransaction → Prop
  | _, [] => True
  | start, row :: rest =>
    (∃ closing, row.closingBalance = some closing ∧
      (closing.value : ℤ) = max 0 (start + row.balanceDelta)) ∧
    Clamped (start + row.balanceDelta) rest

/-- No running total from `start` is below zero. -/
def NeverBelowZero (start : ℤ) (rows : List AggregatedAccountTransaction) : Prop :=
  ∀ front row back, rows = front ++ row :: back → 0 ≤ finalBalance start (front ++ [row])

section Clamped

variable {accountId : String} {rows rest : List AggregatedAccountTransaction}
  {row : AggregatedAccountTransaction} {start : ℤ}

theorem neverBelowZero_cons :
    NeverBelowZero start (row :: rest) ↔
      0 ≤ start + row.balanceDelta ∧ NeverBelowZero (start + row.balanceDelta) rest := by
  unfold NeverBelowZero
  rw [forall_split_cons]
  simp only [List.nil_append, List.cons_append, finalBalance_cons, finalBalance_nil]

theorem clamped_of_prefix_sums
    (sums : ∀ front row back, rows = front ++ row :: back →
      ∃ closing, row.closingBalance = some closing ∧
        (closing.value : ℤ) = max 0 (finalBalance start (front ++ [row]))) :
    Clamped start rows := by
  induction rows generalizing start with
  | nil => trivial
  | cons first rest ih =>
    refine ⟨by simpa [finalBalance] using sums [] first rest rfl, ih ?_⟩
    intro front later back shape
    obtain ⟨closing, balance, value⟩ := sums (first :: front) later back (by rw [shape]; rfl)
    rw [List.cons_append, finalBalance_cons] at value
    exact ⟨closing, balance, value⟩

theorem chained_iff_neverBelowZero (nonnegative : 0 ≤ start) (clamped : Clamped start rows) :
    Chained start rows ↔ NeverBelowZero start rows := by
  induction rows generalizing start with
  | nil => simp [Chained, NeverBelowZero]
  | cons row rest ih =>
    obtain ⟨⟨closing, balance, value⟩, tail⟩ := clamped
    rw [neverBelowZero_cons]
    constructor
    · rintro ⟨⟨other, otherBalance, otherValue⟩, chained⟩
      rw [balance, Option.some.injEq] at otherBalance
      rw [← otherBalance] at otherValue
      have above : 0 ≤ start + row.balanceDelta := by omega
      exact ⟨above, (ih above tail).mp chained⟩
    · rintro ⟨above, never⟩
      exact ⟨⟨closing, balance, by omega⟩, (ih above tail).mpr never⟩

theorem chained_zero_iff_of_negative (negative : start < 0) (clamped : Clamped start rows) :
    Chained 0 rows ↔ ∀ row ∈ rows, row.balanceDelta = 0 := by
  induction rows generalizing start with
  | nil => simp [Chained]
  | cons row rest ih =>
    obtain ⟨⟨closing, balance, value⟩, tail⟩ := clamped
    rw [List.forall_mem_cons]
    constructor
    · rintro ⟨⟨other, otherBalance, otherValue⟩, chained⟩
      rw [balance, Option.some.injEq] at otherBalance
      rw [← otherBalance] at otherValue
      have still : row.balanceDelta = 0 := by omega
      rw [still, add_zero] at tail chained
      exact ⟨still, (ih negative tail).mp chained⟩
    · rintro ⟨still, others⟩
      rw [still, add_zero] at tail value
      refine ⟨⟨closing, balance, by omega⟩, ?_⟩
      rw [still, add_zero]
      exact (ih negative tail).mpr others

theorem verifyChainFrom_clamped_iff (clamped : Clamped 0 rows)
    (representable : Representable rows) :
    verifyChainFrom accountId none rows = .ok () ↔
      NeverBelowZero 0 rows ∨ ∃ first rest, rows = first :: rest ∧
        i128Min < first.balanceDelta ∧ first.balanceDelta < 0 ∧
          ∀ row ∈ rest, row.balanceDelta = 0 := by
  rw [verifyChainFrom_none_eq_ok_iff]
  cases rows with
  | nil => simp [NeverBelowZero]
  | cons row rest =>
    have whole := chained_iff_neverBelowZero le_rfl clamped
    obtain ⟨⟨closing, balance, value⟩, tail⟩ := clamped
    rw [zero_add] at value tail
    -- The first row determines the opening balance of a chain.
    have opens : ∀ opening, Chained opening (row :: rest) →
        opening + row.balanceDelta = max 0 row.balanceDelta := by
      intro opening chained
      obtain ⟨⟨other, otherBalance, otherValue⟩, _⟩ := chained
      rw [balance, Option.some.injEq] at otherBalance
      rw [← value, otherBalance, otherValue]
    simp only [reduceCtorEq, false_or]
    by_cases negative : row.balanceDelta < 0
    · have below : ¬ NeverBelowZero 0 (row :: rest) := by
        rw [neverBelowZero_cons]
        omega
      have still := chained_zero_iff_of_negative negative tail
      constructor
      · rintro ⟨opening, _, fits, chained, _⟩
        have total := opens opening chained
        rw [max_eq_left negative.le] at total
        refine .inr ⟨row, rest, rfl, ?_, negative, still.mp (total ▸ chained.2)⟩
        unfold i128Min i128Max at *
        omega
      · intro outcome
        rcases outcome with never | ⟨first, others, shape, lower, _, zeros⟩
        · exact absurd never below
        · obtain ⟨rfl, rfl⟩ := List.cons.inj shape
          have closed : -row.balanceDelta + row.balanceDelta = 0 := by omega
          refine ⟨-row.balanceDelta, by omega, ?_, ⟨⟨closing, balance, by omega⟩, ?_⟩,
            representable⟩
          · unfold i128Min i128Max at *
            omega
          · rw [closed]
            exact still.mpr zeros
    · constructor
      · rintro ⟨opening, _, _, chained, _⟩
        have total := opens opening chained
        have zero : opening = 0 := by omega
        exact .inl (whole.mp (zero ▸ chained))
      · intro outcome
        rcases outcome with never | ⟨first, others, shape, _, lower, _⟩
        · exact ⟨0, le_rfl, by decide, whole.mpr never, representable⟩
        · obtain ⟨rfl, rfl⟩ := List.cons.inj shape
          exact absurd lower negative

end Clamped

section Agreement

variable {accountId : String} {entries written : List LedgerBuildEntry}
  {transactions : List ExportAccountTransaction}

theorem isExported_cleared {entry : LedgerBuildEntry} :
    IsExported entry.cleared ↔ IsExported entry :=
  Iff.rfl

theorem IsExported.settled {entry : LedgerBuildEntry} (exported : IsExported entry) :
    entry.Settled := by
  rcases exported with confirmed | ⟨failed, _⟩
  · exact .inl confirmed
  · exact .inr failed

theorem sumWhere_of_map_cleared {chosen : LedgerBuildEntry → Prop}
    (same : written.map LedgerBuildEntry.cleared = entries.map LedgerBuildEntry.cleared)
    (ignores : ∀ entry : LedgerBuildEntry, chosen entry.cleared ↔ chosen entry) :
    sumWhere chosen (·.balanceDelta) written = sumWhere chosen (·.balanceDelta) entries := by
  have onCleared : ∀ listed : List LedgerBuildEntry,
      sumWhere chosen (·.balanceDelta) (listed.map LedgerBuildEntry.cleared) =
        sumWhere chosen (·.balanceDelta) listed :=
    fun listed => (sumWhere_map LedgerBuildEntry.cleared listed).trans
      (sumWhere_congr fun entry _ => ignores entry)
  rw [← onCleared written, same, onCleared]

theorem sum_exported_eq
    (same : written.map LedgerBuildEntry.cleared = entries.map LedgerBuildEntry.cleared)
    (leftOut : ∀ entry ∈ entries, entry.status = .failed → ¬ IsExported entry →
      entry.balanceDelta = 0) (row : LedgerBuildEntry) :
    sumWhere (fun exported : AggregatedAccountTransaction => exported.settleKey ≤ row.settleKey)
        (·.balanceDelta) (exportedRows accountId written) =
      sumWhere (SettledThrough row) (·.balanceDelta) entries := by
  calc sumWhere (fun exported : AggregatedAccountTransaction => exported.settleKey ≤ row.settleKey)
        (·.balanceDelta) (exportedRows accountId written)
      = sumWhere (fun entry : LedgerBuildEntry => entry.settleKey ≤ row.settleKey)
          (·.balanceDelta) (written.filter fun entry => IsExported entry) :=
        sumWhere_map (exportRow accountId) _
    _ = sumWhere (fun entry => IsExported entry ∧ entry.settleKey ≤ row.settleKey)
          (·.balanceDelta) written := sumWhere_filter
    _ = sumWhere (fun entry => IsExported entry ∧ entry.settleKey ≤ row.settleKey)
          (·.balanceDelta) entries := sumWhere_of_map_cleared same fun _ => Iff.rfl
    _ = sumWhere (SettledThrough row) (·.balanceDelta) entries := by
        rw [sumWhere_eq_iff, sumWhere_of_forall_not, eq_comm]
        · apply sumWhere_of_amount_zero
          rintro entry member ⟨⟨settled, through⟩, unexported⟩
          have hidden : ¬ IsExported entry := fun exported => unexported ⟨exported, through⟩
          rcases settled with confirmed | failed
          · exact absurd (.inl confirmed) hidden
          · exact leftOut entry member failed hidden
        · rintro entry _ ⟨⟨exported, through⟩, unsettled⟩
          exact unsettled ⟨exported.settled, through⟩

/-- A row is the exported row of an entry, up to the closing balance. -/
def Shows (accountId : String) (row : AggregatedAccountTransaction) (entry : LedgerBuildEntry) :
    Prop :=
  row.withoutClosing = (exportRow accountId entry).withoutClosing

theorem Shows.settleKey {row : AggregatedAccountTransaction} {entry : LedgerBuildEntry}
    (shows : Shows accountId row entry) : row.settleKey = entry.settleKey :=
  congrArg AggregatedAccountTransaction.settleKey shows

theorem Shows.balanceDelta {row : AggregatedAccountTransaction} {entry : LedgerBuildEntry}
    (shows : Shows accountId row entry) : row.balanceDelta = entry.balanceDelta :=
  congrArg AggregatedAccountTransaction.balanceDelta shows

theorem Shows.txHash {row : AggregatedAccountTransaction} {entry : LedgerBuildEntry}
    (shows : Shows accountId row entry) : row.txHash = entry.txHash :=
  congrArg AggregatedAccountTransaction.txHash shows

theorem exists_shown
    (same : written.map LedgerBuildEntry.cleared = entries.map LedgerBuildEntry.cleared)
    {row : AggregatedAccountTransaction} (member : row ∈ exportedRows accountId written) :
    ∃ entry ∈ entries, IsExported entry ∧ Shows accountId row entry := by
  obtain ⟨source, listed, rfl⟩ := List.mem_map.mp member
  obtain ⟨present, exported⟩ := List.mem_filter.mp listed
  obtain ⟨entry, inEntries, equal⟩ := mem_of_map_cleared same present
  have exportedSource := of_decide_eq_true exported
  rw [← isExported_cleared, ← equal, isExported_cleared] at exportedSource
  exact ⟨entry, inEntries, exportedSource,
    (congrArg (fun cleared => (exportRow accountId cleared).withoutClosing) equal.symm :)⟩

variable (accountId) in
theorem exists_showing
    (same : written.map LedgerBuildEntry.cleared = entries.map LedgerBuildEntry.cleared)
    {entry : LedgerBuildEntry} (member : entry ∈ entries) (exported : IsExported entry) :
    ∃ row ∈ exportedRows accountId written, Shows accountId row entry := by
  obtain ⟨source, present, equal⟩ := mem_of_map_cleared same.symm member
  rw [← isExported_cleared, ← equal, isExported_cleared] at exported
  refine ⟨exportRow accountId source, ?_,
    (congrArg (fun cleared => (exportRow accountId cleared).withoutClosing) equal :)⟩
  exact List.mem_map_of_mem (List.mem_filter.mpr ⟨present, decide_eq_true exported⟩)

theorem sortNatives_ascending (distinct : (entries.map (·.txHash)).Nodup)
    (same : written.map LedgerBuildEntry.cleared = entries.map LedgerBuildEntry.cleared)
    (listed : transactions.Perm ((exportedRows accountId written).map .native)) :
    (sortNatives (natives transactions)).Pairwise
      fun left right => left.settleKey < right.settleKey := by
  apply insertionSort_ascending
  rw [((natives_perm_of_listed listed).1.map _).nodup_iff]
  apply List.Nodup.of_map (fun key => (ofLex (ofLex (ofLex (ofLex key).2).2).2).2)
  have hashes : (written.map (·.txHash)).Nodup := map_txHash_eq same ▸ distinct
  unfold exportedRows
  rw [List.map_map, List.map_map]
  exact hashes.sublist (List.filter_sublist.map _)

section Sorted

variable {rows front back : List AggregatedAccountTransaction} {row : AggregatedAccountTransaction}
  {entry : LedgerBuildEntry}

theorem keys_nodup
    (ascending : rows.Pairwise fun left right => left.settleKey < right.settleKey) :
    (rows.map AggregatedAccountTransaction.settleKey).Nodup :=
  List.pairwise_map.mpr (ascending.imp fun less => less.ne)

theorem finalBalance_eq_settledThrough
    (same : written.map LedgerBuildEntry.cleared = entries.map LedgerBuildEntry.cleared)
    (leftOut : ∀ entry ∈ entries, entry.status = .failed → ¬ IsExported entry →
      entry.balanceDelta = 0)
    (perm : rows.Perm (exportedRows accountId written))
    (ascending : rows.Pairwise fun left right => left.settleKey < right.settleKey)
    (split : rows = front ++ row :: back) (shows : Shows accountId row entry) :
    finalBalance 0 (front ++ [row]) =
      sumWhere (SettledThrough entry) (·.balanceDelta) entries := by
  have distinctRows : rows.Nodup := (keys_nodup ascending).of_map
  unfold finalBalance
  rw [zero_add, sum_upto_eq_sumWhere distinctRows split (mem_upto_iff_key_le ascending split),
    sumWhere_perm perm, shows.settleKey]
  exact sum_exported_eq same leftOut entry

theorem clamped_of_assigned (distinct : (entries.map (·.txHash)).Nodup)
    (assigned : assignClosingBalances entries none = .ok written)
    (leftOut : ∀ entry ∈ entries, entry.status = .failed → ¬ IsExported entry →
      entry.balanceDelta = 0)
    (perm : rows.Perm (exportedRows accountId written))
    (ascending : rows.Pairwise fun left right => left.settleKey < right.settleKey) :
    Clamped 0 rows ∧ Representable rows := by
  have same := assignClosingBalances_map_cleared assigned
  have source : ∀ row ∈ rows, ∃ entry ∈ written, IsExported entry ∧
      row = exportRow accountId entry := by
    intro row member
    obtain ⟨entry, kept, rfl⟩ := List.mem_map.mp (perm.mem_iff.mp member)
    obtain ⟨present, exported⟩ := List.mem_filter.mp kept
    exact ⟨entry, present, of_decide_eq_true exported, rfl⟩
  constructor
  · apply clamped_of_prefix_sums
    intro front row back split
    obtain ⟨entry, present, exported, rfl⟩ := source row (by simp [split])
    obtain ⟨closing, balance, value⟩ :=
      closing_eq_settled_through distinct assigned present exported.settled
    refine ⟨closing, balance, ?_⟩
    rw [value, finalBalance_eq_settledThrough same leftOut perm ascending split rfl]
    simp [openingRunning]
  · intro row member closing balance
    obtain ⟨entry, present, _, rfl⟩ := source row member
    exact closing_fits assigned present balance

theorem neverBelowZero_iff
    (same : written.map LedgerBuildEntry.cleared = entries.map LedgerBuildEntry.cleared)
    (leftOut : ∀ entry ∈ entries, entry.status = .failed → ¬ IsExported entry →
      entry.balanceDelta = 0)
    (perm : rows.Perm (exportedRows accountId written))
    (ascending : rows.Pairwise fun left right => left.settleKey < right.settleKey) :
    NeverBelowZero 0 rows ↔ ∀ entry ∈ entries, IsExported entry →
      0 ≤ sumWhere (SettledThrough entry) (·.balanceDelta) entries := by
  constructor
  · intro never entry member exported
    obtain ⟨row, listed, shows⟩ := exists_showing accountId same member exported
    obtain ⟨front, back, split⟩ := List.append_of_mem (perm.mem_iff.mpr listed)
    rw [← finalBalance_eq_settledThrough same leftOut perm ascending split shows]
    exact never front row back split
  · intro never front row back split
    obtain ⟨entry, member, exported, shows⟩ :=
      exists_shown same (perm.mem_iff.mp (by simp [split] : row ∈ rows))
    rw [finalBalance_eq_settledThrough same leftOut perm ascending split shows]
    exact never entry member exported

theorem firstMoves_iff (distinct : (entries.map (·.txHash)).Nodup)
    (same : written.map LedgerBuildEntry.cleared = entries.map LedgerBuildEntry.cleared)
    (perm : rows.Perm (exportedRows accountId written))
    (ascending : rows.Pairwise fun left right => left.settleKey < right.settleKey) :
    (∃ first rest, rows = first :: rest ∧ i128Min < first.balanceDelta ∧
        first.balanceDelta < 0 ∧ ∀ row ∈ rest, row.balanceDelta = 0) ↔
      ∃ first ∈ entries, IsExported first ∧ i128Min < first.balanceDelta ∧
        first.balanceDelta < 0 ∧ ∀ other ∈ entries, IsExported other →
          other.txHash ≠ first.txHash → first.settleKey < other.settleKey ∧
            other.balanceDelta = 0 := by
  constructor
  · rintro ⟨first, rest, split, lower, negative, zeros⟩
    obtain ⟨entry, member, exported, shows⟩ :=
      exists_shown same (perm.mem_iff.mp (by simp [split] : first ∈ rows))
    rw [shows.balanceDelta] at lower negative
    refine ⟨entry, member, exported, lower, negative,
      fun other otherMember otherExported differs => ?_⟩
    obtain ⟨row, listed, otherShows⟩ :=
      exists_showing accountId same otherMember otherExported
    have place := perm.mem_iff.mpr listed
    rw [split] at place ascending
    rcases List.mem_cons.mp place with rfl | inRest
    · exact absurd (otherShows.txHash.symm.trans shows.txHash) differs
    · rw [← shows.settleKey, ← otherShows.settleKey, ← otherShows.balanceDelta]
      exact ⟨(List.pairwise_cons.mp ascending).1 row inRest, zeros row inRest⟩
  · rintro ⟨entry, member, exported, lower, negative, others⟩
    obtain ⟨row, listed, shows⟩ := exists_showing accountId same member exported
    have place := perm.mem_iff.mpr listed
    -- Every other row shows an entry that settles later and moves nothing.
    have later : ∀ other ∈ rows, other ≠ row →
        row.settleKey < other.settleKey ∧ other.balanceDelta = 0 := by
      intro other otherPlace differs
      obtain ⟨otherEntry, otherMember, otherExported, otherShows⟩ :=
        exists_shown same (perm.mem_iff.mp otherPlace)
      rw [shows.settleKey, otherShows.settleKey, otherShows.balanceDelta]
      apply others otherEntry otherMember otherExported
      intro sameHash
      rw [List.inj_on_of_nodup_map distinct otherMember member sameHash] at otherShows
      exact differs (List.inj_on_of_nodup_map (keys_nodup ascending) otherPlace place
        (otherShows.settleKey.trans shows.settleKey.symm))
    cases rows with
    | nil => exact absurd place List.not_mem_nil
    | cons first rest =>
      have isFirst : first = row := by
        by_contra differs
        have after := (later first List.mem_cons_self differs).1
        rcases List.mem_cons.mp place with rfl | inRest
        · exact differs rfl
        · exact lt_asymm after ((List.pairwise_cons.mp ascending).1 row inRest)
      subst isFirst
      rw [← shows.balanceDelta] at lower negative
      refine ⟨first, rest, rfl, lower, negative, fun other inRest => ?_⟩
      refine (later other (List.mem_cons_of_mem _ inRest) ?_).2
      rintro rfl
      exact lt_irrefl _ ((List.pairwise_cons.mp ascending).1 _ inRest)

end Sorted

/-- **Which account-model ledgers can be exported.** The chain check accepts the exported
rows of a rebuilt ledger exactly when no running total is below zero at an exported entry,
or when only the first exported entry moves the balance, downwards. -/
theorem verifyNativeLedgerChain_eq_ok_iff (distinct : (entries.map (·.txHash)).Nodup)
    (assigned : assignClosingBalances entries none = .ok written)
    (leftOut : ∀ entry ∈ entries, entry.status = .failed → ¬ IsExported entry →
      entry.balanceDelta = 0)
    (listed : transactions.Perm ((exportedRows accountId written).map .native)) :
    verifyNativeLedgerChain accountId (transactions.insertionSort exportLe) = .ok () ↔
      (∀ row ∈ entries, IsExported row →
        0 ≤ sumWhere (SettledThrough row) (·.balanceDelta) entries) ∨
      ∃ first ∈ entries, IsExported first ∧ i128Min < first.balanceDelta ∧
        first.balanceDelta < 0 ∧ ∀ other ∈ entries, IsExported other →
          other.txHash ≠ first.txHash → first.settleKey < other.settleKey ∧
            other.balanceDelta = 0 := by
  have same := assignClosingBalances_map_cleared assigned
  unfold verifyNativeLedgerChain
  rw [insertionSort_exportLe, natives_assemble]
  have perm : (sortNatives (natives transactions)).Perm (exportedRows accountId written) :=
    (List.perm_insertionSort _ _).trans (natives_perm_of_listed listed).1
  have ascending := sortNatives_ascending distinct same listed
  obtain ⟨clamped, representable⟩ := clamped_of_assigned distinct assigned leftOut perm ascending
  rw [verifyChainFrom_clamped_iff clamped representable]
  exact or_congr (neverBelowZero_iff same leftOut perm ascending)
    (firstMoves_iff distinct same perm ascending)

end Agreement

/-! ## A capped history -/

/-- The tail of a longer history: 4 is spent before 7 arrives. -/
def spentThenReceived : List LedgerBuildEntry :=
  [.confirmedRow "a0" 100 1704067200000000000 (-4) [],
    .confirmedRow "b0" 101 1704067300000000000 7 []]

/-- The entries of `spentThenReceived` with the balances of a rebuild without an opening. -/
def spentThenReceivedRebuilt : List LedgerBuildEntry :=
  (assignClosingBalances spentThenReceived none).toOption.getD []

private theorem spentThenReceived_assigned :
    assignClosingBalances spentThenReceived none = .ok spentThenReceivedRebuilt := by
  decide +kernel

/-- The rebuild stores 0 and then 3, where the export expects 7 after 0. -/
theorem verifyNativeLedgerChain_spentThenReceived_ne_ok :
    ¬ ∀ (accountId : String) (entries written : List LedgerBuildEntry)
        (transactions : List ExportAccountTransaction), (entries.map (·.txHash)).Nodup →
      assignClosingBalances entries none = .ok written →
      (∀ entry ∈ entries, entry.status = .failed → ¬ IsExported entry →
        entry.balanceDelta = 0) →
      transactions.Perm ((exportedRows accountId written).map .native) →
      verifyNativeLedgerChain accountId (transactions.insertionSort exportLe) = .ok () := by
  intro accepts
  have accepted := accepts "account" spentThenReceived spentThenReceivedRebuilt
    ((exportedRows "account" spentThenReceivedRebuilt).map .native) (by decide)
    spentThenReceived_assigned (by decide +kernel) (.refl _)
  revert accepted
  decide +kernel

/-- The characterization at the entries of `spentThenReceived`. -/
theorem verifyNativeLedgerChain_spentThenReceived :
    verifyNativeLedgerChain "account" (((exportedRows "account" spentThenReceivedRebuilt).map
        ExportAccountTransaction.native).insertionSort exportLe) = .ok () ↔
      (∀ row ∈ spentThenReceived, IsExported row →
        0 ≤ sumWhere (SettledThrough row) (·.balanceDelta) spentThenReceived) ∨
      ∃ first ∈ spentThenReceived, IsExported first ∧ i128Min < first.balanceDelta ∧
        first.balanceDelta < 0 ∧ ∀ other ∈ spentThenReceived, IsExported other →
          other.txHash ≠ first.txHash → first.settleKey < other.settleKey ∧
            other.balanceDelta = 0 :=
  verifyNativeLedgerChain_eq_ok_iff (by decide) spentThenReceived_assigned (by decide +kernel)
    (.refl _)

end Bitgarth.Export
