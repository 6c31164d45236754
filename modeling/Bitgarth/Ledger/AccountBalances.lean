import Mathlib.Data.Prod.Lex
import Bitgarth.Foundation.RowSelection
import Bitgarth.Ledger.BitcoinOrder

/-! # Closing balances of account-model entries

Settled entries take the running balance in the order of a five-part key that reads a
missing number as the greatest one, and pending entries continue from there. Balances
below zero are stored as zero while the running total keeps counting
(`closing_eq_settled_through`).
-/

namespace Bitgarth.Ledger

open Amounts RowSelection

/-- The balance before the first entry of a capped history. -/
structure OpeningBalance where
  amount : UnsignedAmount
deriving DecidableEq, Repr

/-- `apply_signed_delta`. -/
def applySignedDelta (runningTotal delta : ℤ) (fieldName : String) : Except DbError ℤ :=
  match checkedAdd runningTotal delta with
  | some total => .ok total
  | none => .error ⟨"Signed overflow while updating " ++ fieldName⟩

/-- `non_negative_signed_to_unsigned`. -/
def nonNegativeSignedToUnsigned (value : ℤ) : Except DbError UnsignedAmount :=
  if value ≤ 0 then
    .ok UnsignedAmount.zero
  else
    match UnsignedAmount.tryFromSigned value with
    | some amount => .ok amount
    | none => .error ⟨"Failed to convert signed amount"⟩

/-- Order of settled entries. -/
def LedgerBuildEntry.settleKey (entry : LedgerBuildEntry) : ℤ ×ₗ ℤ ×ₗ ℤ ×ₗ ℤ ×ₗ String :=
  toLex (entry.occurredAt, toLex (entry.blockHeight.getD i64Max,
    toLex (entry.nonce.getD i64Max, toLex (entry.minTransferIndex.getD i64Max, entry.txHash))))

/-- Order of pending and dropped entries. -/
def LedgerBuildEntry.pendingKey (entry : LedgerBuildEntry) : ℤ ×ₗ ℤ ×ₗ String :=
  toLex (entry.firstSeenAt, toLex (entry.nonce.getD i64Max, entry.txHash))

/-- Add each delta in turn; the final total and the balance stored at each position. -/
def accumulate (fieldName : String) (running : ℤ) :
    List IndexedEntry → Except DbError (ℤ × List (ℕ × UnsignedAmount))
  | [] => .ok (running, [])
  | (entry, index) :: rest => do
      let running ← applySignedDelta running entry.balanceDelta fieldName
      let closing ← nonNegativeSignedToUnsigned running
      let (final, later) ← accumulate fieldName running rest
      return (final, (index, closing) :: later)

/-- Settled entries in settle order. -/
def settledOrder (entries : List LedgerBuildEntry) : List IndexedEntry :=
  (entries.zipIdx.filter fun indexed => indexed.1.Settled).insertionSort
    fun left right => left.1.settleKey ≤ right.1.settleKey

/-- Pending and dropped entries in the order they were first seen. -/
def pendingOrder (entries : List LedgerBuildEntry) : List IndexedEntry :=
  (entries.zipIdx.filter fun indexed =>
      indexed.1.status = .pending ∨ indexed.1.status = .dropped).insertionSort
    fun left right => left.1.pendingKey ≤ right.1.pendingKey

/-- The signed opening balance a settlement starts from. -/
def openingRunning : Option OpeningBalance → ℤ
  | some opening => opening.amount.trySigned.getD 0
  | none => 0

/-- `assign_closing_balances`. -/
def assignClosingBalances (entries : List LedgerBuildEntry)
    (openingBalance : Option OpeningBalance) : Except DbError (List LedgerBuildEntry) := do
  let (running, settled) ←
    accumulate "confirmed resulting balance" (openingRunning openingBalance) (settledOrder entries)
  -- Dropped entries are passed over and keep no balance.
  let (_, pending) ← accumulate "pending closing balance" running
    ((pendingOrder entries).filter fun indexed => indexed.1.status = .pending)
  return entries.zipIdx.map fun (entry, index) =>
    { entry with closingBalance := (settled ++ pending).lookup index }

/-! ## What a closing balance counts -/

/-- `entry` is settled and does not come after `row` in settle order. -/
def SettledThrough (row entry : LedgerBuildEntry) : Prop :=
  entry.Settled ∧ entry.settleKey ≤ row.settleKey

theorem applySignedDelta_eq_ok {runningTotal delta total : ℤ} {fieldName : String} :
    applySignedDelta runningTotal delta fieldName = .ok total ↔
      total = runningTotal + delta ∧ i128Min ≤ total ∧ total ≤ i128Max := by
  rw [← checkedAdd_eq_some]
  unfold applySignedDelta
  cases checkedAdd runningTotal delta <;> simp

theorem nonNegativeSignedToUnsigned_eq_ok {value : ℤ} {amount : UnsignedAmount}
    (done : nonNegativeSignedToUnsigned value = .ok amount) :
    (amount.value : ℤ) = max 0 value := by
  unfold nonNegativeSignedToUnsigned at done
  split at done
  · rename_i nonpositive
    simp only [Except.ok.injEq] at done
    subst done
    rw [max_eq_left nonpositive]
    rfl
  · rename_i positive
    cases converted : UnsignedAmount.tryFromSigned value with
    | none => simp [converted] at done
    | some found =>
      simp only [converted, Except.ok.injEq] at done
      subst done
      rw [UnsignedAmount.tryFromSigned_eq_some.mp converted,
        max_eq_right (not_le.mp positive).le]

theorem accumulate_cons {fieldName : String} {running final : ℤ} {entry : LedgerBuildEntry}
    {index : ℕ} {rest : List IndexedEntry} {closings : List (ℕ × UnsignedAmount)}
    (done : accumulate fieldName running ((entry, index) :: rest) = .ok (final, closings)) :
    ∃ closing later, (closing.value : ℤ) = max 0 (running + entry.balanceDelta) ∧
      (closing.value : ℤ) ≤ i128Max ∧
      accumulate fieldName (running + entry.balanceDelta) rest = .ok (final, later) ∧
      closings = (index, closing) :: later := by
  unfold accumulate at done
  obtain ⟨total, added, done⟩ := Fallible.bind_eq_ok.mp done
  obtain ⟨closing, converted, done⟩ := Fallible.bind_eq_ok.mp done
  obtain ⟨⟨last, later⟩, tail, done⟩ := Fallible.bind_eq_ok.mp done
  rw [Fallible.pure_eq_ok, Prod.mk.injEq] at done
  obtain ⟨rfl, rfl⟩ := done
  obtain ⟨totalEq, _, fits⟩ := applySignedDelta_eq_ok.mp added
  have closingEq := nonNegativeSignedToUnsigned_eq_ok converted
  exact ⟨closing, later, totalEq ▸ closingEq, closingEq.trans_le (max_le (by decide) fits),
    totalEq ▸ tail, rfl⟩

theorem accumulate_spec {fieldName : String} {running final : ℤ} {ordered : List IndexedEntry}
    {closings : List (ℕ × UnsignedAmount)}
    (done : accumulate fieldName running ordered = .ok (final, closings)) :
    closings.map Prod.fst = ordered.map Prod.snd ∧
      ∀ front later back, ordered = front ++ later :: back →
        ∃ closing, (later.2, closing) ∈ closings ∧ (closing.value : ℤ) =
          max 0 (running + ((front ++ [later]).map fun indexed => indexed.1.balanceDelta).sum) := by
  induction ordered generalizing running closings with
  | nil =>
    simp only [accumulate, Except.ok.injEq, Prod.mk.injEq] at done
    obtain ⟨rfl, rfl⟩ := done
    simp
  | cons indexed rest ih =>
    obtain ⟨entry, index⟩ := indexed
    obtain ⟨closing, later, closingEq, _, tail, rfl⟩ := accumulate_cons done
    obtain ⟨positions, sums⟩ := ih tail
    refine ⟨by simp [positions], ?_⟩
    intro front next back whole
    cases front with
    | nil =>
      simp only [List.nil_append, List.cons.injEq] at whole
      obtain ⟨rfl, rfl⟩ := whole
      exact ⟨closing, List.mem_cons_self, by simp [closingEq]⟩
    | cons first front =>
      simp only [List.cons_append, List.cons.injEq] at whole
      obtain ⟨rfl, rfl⟩ := whole
      obtain ⟨found, member, value⟩ := sums front next back rfl
      refine ⟨found, List.mem_cons_of_mem _ member, ?_⟩
      rw [value]
      simp only [List.cons_append, List.map_cons, List.sum_cons]
      congr 1
      omega

/-- Stored balances are representable. -/
theorem accumulate_fits {fieldName : String} {running final : ℤ} {ordered : List IndexedEntry}
    {closings : List (ℕ × UnsignedAmount)}
    (done : accumulate fieldName running ordered = .ok (final, closings)) :
    ∀ pair ∈ closings, (pair.2.value : ℤ) ≤ i128Max := by
  induction ordered generalizing running closings with
  | nil =>
    simp only [accumulate, Except.ok.injEq, Prod.mk.injEq] at done
    obtain ⟨rfl, rfl⟩ := done
    exact fun pair member => absurd member List.not_mem_nil
  | cons indexed rest ih =>
    obtain ⟨entry, index⟩ := indexed
    obtain ⟨closing, later, _, fits, tail, rfl⟩ := accumulate_cons done
    intro pair member
    rcases List.mem_cons.mp member with rfl | inLater
    · exact fits
    · exact ih tail pair inLater

section Assigned

variable {entries written : List LedgerBuildEntry} {opening : Option OpeningBalance}

theorem mem_settledOrder {indexed : IndexedEntry} :
    indexed ∈ settledOrder entries ↔ indexed ∈ entries.zipIdx ∧ indexed.1.Settled := by
  unfold settledOrder
  rw [(List.perm_insertionSort _ _).mem_iff, List.mem_filter, decide_eq_true_eq]

theorem settledOrder_ascending (distinct : (entries.map (·.txHash)).Nodup) :
    (settledOrder entries).Pairwise
      fun left right => left.1.settleKey < right.1.settleKey := by
  apply insertionSort_ascending
  have hashes : ((entries.zipIdx.filter fun indexed => indexed.1.Settled).map
      fun indexed => indexed.1.txHash).Nodup :=
    (zipIdx_map_txHash_nodup distinct).sublist (List.filter_sublist.map _)
  apply List.Nodup.of_map (fun key => (ofLex (ofLex (ofLex (ofLex key).2).2).2).2)
  rw [List.map_map]
  exact hashes

theorem settledOrder_positions_nodup (entries : List LedgerBuildEntry) :
    ((settledOrder entries).map Prod.snd).Nodup := by
  unfold settledOrder
  rw [((List.perm_insertionSort _ _).map Prod.snd).nodup_iff]
  exact (zipIdx_map_snd_nodup entries).sublist (List.filter_sublist.map Prod.snd)

/-- The deltas up to `last` in settle order are those settled through it. -/
theorem sum_deltas_through_eq (distinct : (entries.map (·.txHash)).Nodup)
    {front back : List IndexedEntry} {last : IndexedEntry}
    (whole : settledOrder entries = front ++ last :: back) :
    ((front ++ [last]).map fun indexed => indexed.1.balanceDelta).sum =
      sumWhere (SettledThrough last.1) (·.balanceDelta) entries := by
  have nodup := (settledOrder_positions_nodup entries).of_map
  calc ((front ++ [last]).map fun indexed => indexed.1.balanceDelta).sum
      = sumWhere (fun indexed => indexed.1.settleKey ≤ last.1.settleKey)
          (fun indexed => indexed.1.balanceDelta) (settledOrder entries) :=
        sum_upto_eq_sumWhere nodup whole
          (mem_upto_iff_key_le (settledOrder_ascending distinct) whole)
    _ = sumWhere (fun indexed : IndexedEntry => SettledThrough last.1 indexed.1)
          (fun indexed => indexed.1.balanceDelta) entries.zipIdx := by
        unfold settledOrder
        rw [sumWhere_perm (List.perm_insertionSort _ _), sumWhere_filter]
        rfl
    _ = sumWhere (SettledThrough last.1) (·.balanceDelta) entries := sumWhere_zipIdx

/-- **What a closing balance counts.** Every settled row carries the opening balance plus
the deltas settled through it, or zero where that is negative. -/
theorem closing_eq_settled_through (distinct : (entries.map (·.txHash)).Nodup)
    (assigned : assignClosingBalances entries opening = .ok written) {row : LedgerBuildEntry}
    (member : row ∈ written) (settledRow : row.Settled) :
    ∃ closing, row.closingBalance = some closing ∧ (closing.value : ℤ) =
      max 0 (openingRunning opening +
        sumWhere (SettledThrough row) (·.balanceDelta) entries) := by
  unfold assignClosingBalances at assigned
  obtain ⟨⟨running, settled⟩, first, assigned⟩ := Fallible.bind_eq_ok.mp assigned
  obtain ⟨⟨_, pending⟩, _, assigned⟩ := Fallible.bind_eq_ok.mp assigned
  rw [Fallible.pure_eq_ok] at assigned
  subst assigned
  obtain ⟨⟨entry, index⟩, present, rfl⟩ := List.mem_map.mp member
  have placed : (entry, index) ∈ settledOrder entries :=
    mem_settledOrder.mpr ⟨present, settledRow⟩
  obtain ⟨front, back, whole⟩ := List.append_of_mem placed
  obtain ⟨positions, sums⟩ := accumulate_spec first
  obtain ⟨closing, listed, value⟩ := sums front (entry, index) back whole
  have looked : settled.lookup index = some closing :=
    lookup_eq_some_of_mem (positions ▸ settledOrder_positions_nodup entries) listed
  refine ⟨closing, by simp [List.lookup_append, looked], ?_⟩
  rw [value, sum_deltas_through_eq distinct whole]
  rfl

theorem closing_fits (assigned : assignClosingBalances entries opening = .ok written)
    {row : LedgerBuildEntry} (member : row ∈ written) {closing : UnsignedAmount}
    (balance : row.closingBalance = some closing) : (closing.value : ℤ) ≤ i128Max := by
  unfold assignClosingBalances at assigned
  obtain ⟨⟨running, settled⟩, first, assigned⟩ := Fallible.bind_eq_ok.mp assigned
  obtain ⟨⟨_, pending⟩, second, assigned⟩ := Fallible.bind_eq_ok.mp assigned
  rw [Fallible.pure_eq_ok] at assigned
  subst assigned
  obtain ⟨⟨entry, index⟩, _, rfl⟩ := List.mem_map.mp member
  obtain ⟨front, back, shape, _⟩ := List.lookup_eq_some_iff.mp balance
  have listed : (index, closing) ∈ settled ++ pending := by simp [shape]
  rcases List.mem_append.mp listed with inSettled | inPending
  · exact accumulate_fits first _ inSettled
  · exact accumulate_fits second _ inPending

theorem assignClosingBalances_map_cleared
    (assigned : assignClosingBalances entries opening = .ok written) :
    written.map LedgerBuildEntry.cleared = entries.map LedgerBuildEntry.cleared := by
  unfold assignClosingBalances at assigned
  obtain ⟨⟨running, settled⟩, _, assigned⟩ := Fallible.bind_eq_ok.mp assigned
  obtain ⟨⟨_, pending⟩, _, assigned⟩ := Fallible.bind_eq_ok.mp assigned
  rw [Fallible.pure_eq_ok] at assigned
  subst assigned
  rw [List.map_map]
  conv_rhs => rw [← List.zipIdx_map_fst 0 entries, List.map_map]
  rfl

end Assigned

end Bitgarth.Ledger
