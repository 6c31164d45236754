import Bitgarth.Ledger.BitcoinBalances
import Bitgarth.Ledger.StoredRows

/-! # Reading back Bitcoin balances

The rebuild settles Bitcoin entries in dependency order, and the balance queries pick
a row by time text, height, nonce and hash. `loadBalanceAsOfDate_eq_sum_iff` says
exactly when the row picked carries the balance at the cut-off.
-/

namespace Bitgarth.Ledger

open Amounts RowSelection

section Readback

variable {toRfc3339 : ℤ → String} {within : String → Prop}
  {entries written : List LedgerBuildEntry} {basis : NativeBalanceState}
  {amount : UnsignedAmount} {table stored : List LedgerRow} {accountId : String}

theorem countedBy_congr {left right : LedgerBuildEntry} (same : left.cleared = right.cleared)
    (entry : LedgerBuildEntry) :
    CountedBy entries left entry ↔ CountedBy entries right entry := by
  have status : left.status = right.status :=
    (congrArg LedgerBuildEntry.status same :)
  have hash : left.txHash = right.txHash :=
    (congrArg LedgerBuildEntry.txHash same :)
  have height : left.blockHeight = right.blockHeight :=
    (congrArg LedgerBuildEntry.blockHeight same :)
  have time : left.occurredAt = right.occurredAt :=
    (congrArg LedgerBuildEntry.occurredAt same :)
  simp only [CountedBy, SettledUpTo, SettledByTime, SettlesBefore, status, hash, height, time]

theorem sum_countedBy_congr {left right : LedgerBuildEntry} (same : left.cleared = right.cleared) :
    sumWhere (CountedBy entries left) (·.balanceDelta) entries =
      sumWhere (CountedBy entries right) (·.balanceDelta) entries :=
  sumWhere_congr fun entry _ => countedBy_congr same entry

/-- A balance query over a stored Bitcoin ledger returns basis plus `target` exactly when
the latest settled entry it considers counts `target`. -/
theorem loadBalance_eq_iff [DecidablePred within] (distinct : (entries.map (·.txHash)).Nodup)
    (shared : SharedBlockTime entries)
    (assigned : assignBitcoinClosingBalances entries basis = (.ok (), written))
    (known : basis.amount? = some amount)
    (replaced :
      replaceAccountTransactionLedgerEntries toRfc3339 table accountId written = .ok stored)
    (fieldName : String) (target : ℤ) :
    (∀ balance, loadBalance stored accountId within fieldName = .ok (some balance) →
      (balance.value : ℤ) = amount.value + target) ↔
      ∀ row, IsLatestSettled toRfc3339 within entries row →
        sumWhere (CountedBy entries row) (·.balanceDelta) entries = target := by
  have same := assigned_map_cleared assigned known
  have distinctWritten : (written.map (·.txHash)).Nodup := map_txHash_eq same ▸ distinct
  have complete : ∀ entry ∈ written, entry.Settled → entry.closingBalance.isSome := by
    intro entry member settled
    obtain ⟨closing, closingEq, _⟩ :=
      closing_eq_basis_add_counted distinct shared assigned known member settled
    rw [closingEq]
    rfl
  have reads := @loadBalance_replaced toRfc3339 accountId written table stored within _
    distinctWritten complete replaced fieldName
  constructor
  · intro returns row rowLatest
    obtain ⟨twin, twinLatest, equal⟩ := isLatestSettled_of_map_cleared same.symm rowLatest
    obtain ⟨closing, closingEq, value⟩ := closing_eq_basis_add_counted distinct shared assigned
      known twinLatest.1.1 twinLatest.1.2.1
    have found := reads.1 twin twinLatest
    rw [closingEq] at found
    have total := returns closing found
    rw [← sum_countedBy_congr equal]
    omega
  · intro counts balance found
    by_cases someLatest : ∃ row, IsLatestSettled toRfc3339 within written row
    · obtain ⟨row, rowLatest⟩ := someLatest
      obtain ⟨closing, closingEq, value⟩ := closing_eq_basis_add_counted distinct shared assigned
        known rowLatest.1.1 rowLatest.1.2.1
      obtain ⟨twin, twinLatest, equal⟩ := isLatestSettled_of_map_cleared same rowLatest
      have counted := counts twin twinLatest
      rw [sum_countedBy_congr equal] at counted
      have returned := reads.1 row rowLatest
      rw [closingEq, found] at returned
      simp only [Except.ok.injEq, Option.some.injEq] at returned
      subst returned
      omega
    · have nothing := reads.2 fun row rowLatest => someLatest ⟨row, rowLatest⟩
      rw [found] at nothing
      simp at nothing

theorem closing_last_eq (distinct : (entries.map (·.txHash)).Nodup)
    (shared : SharedBlockTime entries)
    (assigned : assignBitcoinClosingBalances entries basis = (.ok (), written))
    (known : basis.amount? = some amount) {ordered : List IndexedEntry} {last : IndexedEntry}
    (order : orderConfirmedBitcoinEntries entries = .ok ordered)
    (isLast : ordered.getLast? = some last) {row : LedgerBuildEntry} (member : row ∈ written)
    (named : row.txHash = last.1.txHash) :
    ∃ closing, row.closingBalance = some closing ∧ (closing.value : ℤ) =
      amount.value + sumWhere (·.status = .confirmed) (·.balanceDelta) entries := by
  have same := assigned_map_cleared assigned known
  obtain ⟨twin, twinMember, equal⟩ := mem_of_map_cleared same member
  have twinHash : twin.txHash = row.txHash :=
    (congrArg LedgerBuildEntry.txHash equal :)
  have twinStatus : twin.status = row.status :=
    (congrArg LedgerBuildEntry.status equal :)
  obtain ⟨front, whole⟩ : ∃ front, ordered = front ++ [last] :=
    List.getLast?_eq_some_iff.mp isLast
  obtain ⟨lastMember, lastConfirmed⟩ :=
    mem_entries_of_mem_ordered distinct order (show last ∈ ordered by simp [whole])
  have identical : twin = last.1 := List.inj_on_of_nodup_map distinct twinMember lastMember
    (twinHash.trans named)
  have confirmed : row.status = .confirmed := by rw [← twinStatus, identical, lastConfirmed]
  obtain ⟨closing, closingEq, value⟩ :=
    closing_eq_basis_add_counted distinct shared assigned known member (.inl confirmed)
  refine ⟨closing, closingEq, ?_⟩
  rw [value, ← sum_countedBy_congr equal]
  congr 1
  refine sumWhere_congr fun entry entryMember => ?_
  constructor
  · rintro (⟨_, settled⟩ | ⟨failed, _⟩)
    · exact settled.1
    · rw [twinStatus, confirmed] at failed
      exact absurd failed (by decide)
  · intro entryConfirmed
    refine .inl ⟨twinStatus.trans confirmed, entryConfirmed, ?_⟩
    obtain ⟨index, placed⟩ := mem_ordered_of_confirmed distinct order entryMember entryConfirmed
    have place := placed
    rw [whole] at place
    rcases List.mem_append.mp place with inFront | isLast
    · have before := ((orderConfirmedBitcoinEntries_spec distinct order).2.2 front last []
        (by simp [whole]) _ placed).mp inFront
      exact .inr (identical ▸ before)
    · rw [List.mem_singleton] at isLast
      exact .inl (by rw [identical, ← isLast])

theorem CountedBy.confirmed {row entry : LedgerBuildEntry} (counted : CountedBy entries row entry) :
    entry.status = .confirmed := by
  rcases counted with ⟨_, settled⟩ | ⟨_, settled⟩
  · exact settled.1
  · exact settled.1

theorem sum_counted_eq_sum_confirmed_iff {row : LedgerBuildEntry} :
    sumWhere (CountedBy entries row) (·.balanceDelta) entries =
        sumWhere (·.status = .confirmed) (·.balanceDelta) entries ↔
      sumWhere (fun entry => entry.status = .confirmed ∧ ¬ CountedBy entries row entry)
        (·.balanceDelta) entries = 0 := by
  rw [sumWhere_eq_iff, sumWhere_of_forall_not, eq_comm]
  rintro entry _ ⟨counted, unconfirmed⟩
  exact unconfirmed counted.confirmed

theorem overall_eq_last_iff (distinct : (entries.map (·.txHash)).Nodup)
    (shared : SharedBlockTime entries)
    (assigned : assignBitcoinClosingBalances entries basis = (.ok (), written))
    (known : basis.amount? = some amount) {balance : UnsignedAmount}
    (counted : (balance.value : ℤ) = amount.value ∨ ∃ entry ∈ entries, entry.status = .confirmed) :
    (∀ ordered last, orderConfirmedBitcoinEntries entries = .ok ordered →
        ordered.getLast? = some last →
          ∀ row ∈ written, row.txHash = last.1.txHash → row.closingBalance = some balance) ↔
      (balance.value : ℤ) =
        amount.value + sumWhere (·.status = .confirmed) (·.balanceDelta) entries := by
  obtain ⟨ordered, _, order, _⟩ := assigned_spec assigned known
  constructor
  · intro closes
    cases final : ordered.getLast? with
    | none =>
      have none_confirmed : ∀ entry ∈ entries, ¬ entry.status = .confirmed := by
        intro entry member confirmed
        obtain ⟨index, placed⟩ := mem_ordered_of_confirmed distinct order member confirmed
        rw [List.getLast?_eq_none_iff.mp final] at placed
        exact List.not_mem_nil placed
      rw [sumWhere_of_forall_not none_confirmed, add_zero]
      rcases counted with same | ⟨entry, member, confirmed⟩
      · exact same
      · exact absurd confirmed (none_confirmed entry member)
    | some last =>
      have inOrder : last ∈ ordered := List.mem_of_getLast? final
      obtain ⟨lastMember, _⟩ := mem_entries_of_mem_ordered distinct order inOrder
      obtain ⟨row, member, equal⟩ :=
        mem_of_map_cleared (assigned_map_cleared assigned known).symm lastMember
      have named : row.txHash = last.1.txHash := (congrArg LedgerBuildEntry.txHash equal :)
      obtain ⟨closing, closingEq, value⟩ :=
        closing_last_eq distinct shared assigned known order final member named
      rw [closes ordered last order final row member named, Option.some.injEq] at closingEq
      rw [closingEq, value]
  · intro value found last foundOrder final row member named
    obtain ⟨closing, closingEq, closingValue⟩ :=
      closing_last_eq distinct shared assigned known foundOrder final member named
    rw [closingEq, Option.some.injEq]
    ext
    omega

/-- **When a balance query agrees with the ledger.** As of an instant the query returns the
basis plus the confirmed deltas up to it exactly when, for the row it reads, the confirmed
deltas that come later but are counted add up to those that are due but not counted.
Without a cut-off it returns the closing balance of the last entry in dependency order
exactly when the confirmed deltas not counted by the row it reads add up to zero. -/
theorem loadBalanceAsOfDate_eq_sum_iff (distinct : (entries.map (·.txHash)).Nodup)
    (shared : SharedBlockTime entries)
    (assigned : assignBitcoinClosingBalances entries basis = (.ok (), written))
    (known : basis.amount? = some amount)
    (replaced :
      replaceAccountTransactionLedgerEntries toRfc3339 table accountId written = .ok stored) :
    (∀ asOf, (∀ balance,
        loadBalanceAsOfDate toRfc3339 stored accountId asOf = .ok (some balance) →
          (balance.value : ℤ) = amount.value +
            sumWhere (fun entry => entry.status = .confirmed ∧ entry.occurredAt ≤ asOf)
              (·.balanceDelta) entries) ↔
      ∀ row, IsLatestSettled toRfc3339 (· ≤ toRfc3339 asOf) entries row →
        sumWhere (fun entry => CountedBy entries row entry ∧
            ¬ (entry.status = .confirmed ∧ entry.occurredAt ≤ asOf)) (·.balanceDelta) entries =
          sumWhere (fun entry => (entry.status = .confirmed ∧ entry.occurredAt ≤ asOf) ∧
            ¬ CountedBy entries row entry) (·.balanceDelta) entries) ∧
    ((∀ balance, loadAccountOverallBalance stored accountId = .ok (some balance) →
        ∀ ordered last, orderConfirmedBitcoinEntries entries = .ok ordered →
          ordered.getLast? = some last →
            ∀ row ∈ written, row.txHash = last.1.txHash → row.closingBalance = some balance) ↔
      ∀ row, IsLatestSettled toRfc3339 (fun _ => True) entries row →
        sumWhere (fun entry => entry.status = .confirmed ∧ ¬ CountedBy entries row entry)
          (·.balanceDelta) entries = 0) := by
  constructor
  · intro asOf
    refine (loadBalance_eq_iff distinct shared assigned known replaced _ _).trans ?_
    exact forall₂_congr fun row _ => sumWhere_eq_iff
  · refine Iff.trans ?_ (forall₂_congr fun row _ => sum_counted_eq_sum_confirmed_iff)
    refine Iff.trans ?_ (loadBalance_eq_iff distinct shared assigned known replaced
      "overall_balance" _)
    refine forall₂_congr fun balance found => ?_
    apply overall_eq_last_iff distinct shared assigned known
    by_cases some_confirmed : ∃ entry ∈ entries, entry.status = .confirmed
    · exact .inr some_confirmed
    · refine .inl ?_
      have basisOnly := (loadBalance_eq_iff distinct shared assigned known replaced
        "overall_balance" 0).mpr (fun row _ => sumWhere_of_forall_not fun entry member counted =>
          some_confirmed ⟨entry, member, counted.confirmed⟩) balance found
      rwa [add_zero] at basisOnly

end Readback

/-! ## A parent and its child in one block -/

/-- A block receives 5 in one transaction and spends 3 of it in a second one, whose hash
is the smaller; both carry 1 January 2024. -/
def parentAndChild : List LedgerBuildEntry :=
  [.confirmedRow "b0" 100 1704067200000000000 5 [],
    .confirmedRow "a0" 100 1704067200000000000 (-3) ["b0"]]

/-- The stored rows of an account after its first rebuild from `parentAndChild`. -/
def parentAndChildRows : List LedgerRow :=
  (replaceAccountTransactionLedgerEntries newYearText [] "account"
    (assignBitcoinClosingBalances parentAndChild .canonicalZero).2).toOption.getD []

private theorem parentAndChild_shared : SharedBlockTime parentAndChild := by
  intro left leftMember right rightMember _ _ _
  simp only [parentAndChild, List.mem_cons, List.not_mem_nil, or_false] at leftMember rightMember
  rcases leftMember with rfl | rfl <;> rcases rightMember with rfl | rfl <;> rfl

private theorem parentAndChild_assigned :
    assignBitcoinClosingBalances parentAndChild .canonicalZero =
      (.ok (), (assignBitcoinClosingBalances parentAndChild .canonicalZero).2) :=
  Prod.ext (by decide +kernel) rfl

private theorem parentAndChild_replaced :
    replaceAccountTransactionLedgerEntries newYearText [] "account"
      (assignBitcoinClosingBalances parentAndChild .canonicalZero).2 =
        .ok parentAndChildRows := by
  decide +kernel

/-- The balance read for the block is the parent's, 5, though 2 remains. -/
theorem loadBalanceAsOfDate_ne_sum :
    ¬ ∀ (toRfc3339 : ℤ → String) (entries written : List LedgerBuildEntry)
        (basis : NativeBalanceState) (amount : UnsignedAmount) (table stored : List LedgerRow)
        (accountId : String), (entries.map (·.txHash)).Nodup → SharedBlockTime entries →
      assignBitcoinClosingBalances entries basis = (.ok (), written) →
      basis.amount? = some amount →
      replaceAccountTransactionLedgerEntries toRfc3339 table accountId written = .ok stored →
      ∀ asOf balance, loadBalanceAsOfDate toRfc3339 stored accountId asOf = .ok (some balance) →
        (balance.value : ℤ) = amount.value +
          sumWhere (fun entry => entry.status = .confirmed ∧ entry.occurredAt ≤ asOf)
            (·.balanceDelta) entries := by
  intro agrees
  have read := agrees newYearText parentAndChild
    (assignBitcoinClosingBalances parentAndChild .canonicalZero).2 .canonicalZero .zero []
    parentAndChildRows "account" (by decide) parentAndChild_shared
    parentAndChild_assigned rfl parentAndChild_replaced 1704067200000000000
    ⟨5, by decide⟩ (by decide +kernel)
  rw [sumWhere_eq_sum_filter] at read
  revert read
  decide +kernel

/-- The characterization at the block of `parentAndChild`. -/
theorem loadBalanceAsOfDate_parentAndChild :
    ((∀ balance,
        loadBalanceAsOfDate newYearText parentAndChildRows "account" 1704067200000000000 =
            .ok (some balance) →
          (balance.value : ℤ) = (UnsignedAmount.zero.value : ℤ) +
            sumWhere (fun entry => entry.status = .confirmed ∧
                entry.occurredAt ≤ 1704067200000000000)
              (·.balanceDelta) parentAndChild) ↔
      ∀ row, IsLatestSettled newYearText (· ≤ newYearText 1704067200000000000) parentAndChild row →
        sumWhere (fun entry => CountedBy parentAndChild row entry ∧
            ¬ (entry.status = .confirmed ∧ entry.occurredAt ≤ 1704067200000000000))
          (·.balanceDelta) parentAndChild =
          sumWhere (fun entry => (entry.status = .confirmed ∧
              entry.occurredAt ≤ 1704067200000000000) ∧
            ¬ CountedBy parentAndChild row entry) (·.balanceDelta) parentAndChild) :=
  (loadBalanceAsOfDate_eq_sum_iff (by decide) parentAndChild_shared
    parentAndChild_assigned rfl parentAndChild_replaced).1 1704067200000000000

end Bitgarth.Ledger
