import Bitgarth.Export.BitcoinOrder

/-! # Preparing an account for export

`prepareAccountTransactionsForExport` sorts the rows of an account, restores the order
of Bitcoin rows, and checks the chain of balances or, when a calendar year is reversed,
drops the closing balances. It acts on ledger rows alone; assertions follow in date
order (`prepareAccountTransactionsForExport_eq`).
-/

namespace Bitgarth.Export

open Amounts

/-- The ledger row without its closing balance. -/
def AggregatedAccountTransaction.withoutClosing (row : AggregatedAccountTransaction) :
    AggregatedAccountTransaction :=
  { row with closingBalance := none }

/-- Clear the closing balance of a ledger row. -/
def clearClosing : ExportAccountTransaction → ExportAccountTransaction
  | .native native => .native native.withoutClosing
  | .manualAssertion assertion => .manualAssertion assertion

/-- Some year is before the one just ahead of it. -/
def yearReverses : Option ℤ → List ℤ → Bool
  | _, [] => false
  | lastYear, year :: rest =>
    (lastYear.any fun previous => year < previous) || yearReverses (some year) rest

/-- `prepare_account_transactions_for_export`: whether balances are left unasserted, and
the emitted rows. -/
def prepareAccountTransactionsForExport (hashOrder : HashOrder) (accountId : String)
    (transactions : List ExportAccountTransaction) (isBitcoin allowUnassertedNativeWindow : Bool) :
    Except ExportEngineError (Bool × List ExportAccountTransaction) := do
  let sorted := transactions.insertionSort exportLe
  let ordered ← (if isBitcoin && !allowUnassertedNativeWindow then
      orderBitcoinNativeTransactions hashOrder accountId sorted
    else pure sorted)
  let reversedYear := isBitcoin &&
    yearReverses none ((natives ordered).map AggregatedAccountTransaction.year)
  let unasserted := allowUnassertedNativeWindow || reversedYear
  if unasserted then
    return (unasserted, ordered.map clearClosing)
  else
    verifyNativeLedgerChain accountId ordered
    return (unasserted, ordered)

/-! ## The ledger rows of an account -/

/-- The order of an account's ledger rows. -/
def orderRows (hashOrder : HashOrder) (accountId : String)
    (rows : List AggregatedAccountTransaction) (isBitcoin allowUnassertedNativeWindow : Bool) :
    Except ExportEngineError (List AggregatedAccountTransaction) :=
  if isBitcoin && !allowUnassertedNativeWindow then
    orderGroups hashOrder accountId none (heightGroups (sortByBlock (sortNatives rows)))
  else
    .ok (sortNatives rows)

/-- Whether ordered ledger rows are left without closing balances. -/
def leavesUnasserted (ordered : List AggregatedAccountTransaction)
    (isBitcoin allowUnassertedNativeWindow : Bool) : Bool :=
  allowUnassertedNativeWindow ||
    isBitcoin && yearReverses none (ordered.map AggregatedAccountTransaction.year)

section Prepare

variable {hashOrder : HashOrder} {accountId : String}
  {transactions result : List ExportAccountTransaction} {isBitcoin allow unasserted : Bool}
  {rows ordered : List AggregatedAccountTransaction}

theorem yearReverses_eq_false_iff {lastYear : Option ℤ} {years : List ℤ} :
    yearReverses lastYear years = false ↔ (lastYear.toList ++ years).IsChain (· ≤ ·) := by
  induction years generalizing lastYear with
  | nil => cases lastYear <;> simp [yearReverses]
  | cons year rest ih =>
    unfold yearReverses
    rw [Bool.or_eq_false_iff, ih]
    cases lastYear with
    | none => simp
    | some previous => simp [List.isChain_cons_cons]

theorem map_clearClosing_assemble (rest : List CustomBalanceAssertionRenderRow) :
    (assemble rows rest).map clearClosing =
      assemble (rows.map AggregatedAccountTransaction.withoutClosing) rest := by
  simp [assemble, clearClosing, Function.comp_def]

theorem order_assembled :
    (if isBitcoin && !allow then
        orderBitcoinNativeTransactions hashOrder accountId (transactions.insertionSort exportLe)
      else pure (transactions.insertionSort exportLe)) =
      (orderRows hashOrder accountId (natives transactions) isBitcoin allow).map
        (assemble · (sortAssertions (assertions transactions))) := by
  rw [insertionSort_exportLe, orderBitcoinNativeTransactions_assemble]
  unfold orderRows
  split <;> rfl

/-- **What preparation does to ledger rows.** It orders them, and either drops their
closing balances or checks their chain. -/
theorem prepareAccountTransactionsForExport_eq_ok_iff :
    prepareAccountTransactionsForExport hashOrder accountId transactions isBitcoin allow =
        .ok (unasserted, result) ↔
      ∃ ordered, orderRows hashOrder accountId (natives transactions) isBitcoin allow =
          .ok ordered ∧
        unasserted = leavesUnasserted ordered isBitcoin allow ∧
        (unasserted = true ∧ result = assemble
            (ordered.map AggregatedAccountTransaction.withoutClosing)
            (sortAssertions (assertions transactions)) ∨
          unasserted = false ∧ verifyChainFrom accountId none ordered = .ok () ∧
            result = assemble ordered (sortAssertions (assertions transactions))) := by
  unfold prepareAccountTransactionsForExport
  simp only [order_assembled]
  cases orderRows hashOrder accountId (natives transactions) isBitcoin allow with
  | error err => simp [Except.map, bind, Except.bind]
  | ok ordered =>
    simp only [Except.map, Fallible.bind_eq_ok, Except.ok.injEq, exists_eq_left',
      natives_assemble, map_clearClosing_assemble, verifyNativeLedgerChain]
    rw [show (allow || isBitcoin &&
      yearReverses none (ordered.map AggregatedAccountTransaction.year)) =
        leavesUnasserted ordered isBitcoin allow from rfl]
    cases leaves : leavesUnasserted ordered isBitcoin allow with
    | true =>
      simp only [if_true, Fallible.pure_eq_ok, Prod.mk.injEq]
      constructor
      · rintro ⟨leaves, cleared⟩
        exact ⟨leaves.symm, .inl ⟨leaves.symm, cleared.symm⟩⟩
      · rintro ⟨leaves, emitted⟩
        rcases emitted with ⟨_, cleared⟩ | ⟨kept, _⟩
        · exact ⟨leaves.symm, cleared.symm⟩
        · exact absurd (kept.symm.trans leaves) Bool.false_ne_true
    | false =>
      simp only [Bool.false_eq_true, if_false, Fallible.bind_eq_ok, Fallible.pure_eq_ok,
        Prod.mk.injEq]
      constructor
      · rintro ⟨_, verified, leaves, kept⟩
        exact ⟨leaves.symm, .inr ⟨leaves.symm, verified, kept.symm⟩⟩
      · rintro ⟨leaves, emitted⟩
        rcases emitted with ⟨cleared, _⟩ | ⟨_, verified, kept⟩
        · exact absurd (leaves.symm.trans cleared) Bool.false_ne_true
        · exact ⟨(), verified, leaves.symm, kept.symm⟩

theorem orderRows_spec (done : orderRows hashOrder accountId rows isBitcoin allow = .ok ordered) :
    ordered.Perm rows ∧ (isBitcoin = true → allow = false → ByHeight ordered) ∧
      (isBitcoin = false → ordered = sortNatives rows) := by
  have settled : (sortNatives rows).Perm rows := List.perm_insertionSort _ _
  unfold orderRows at done
  split at done
  · rename_i bitcoin
    rw [Bool.and_eq_true] at bitcoin
    obtain ⟨perm, byHeight⟩ :=
      orderGroups_perm done (heightGroups_ascending (sortByBlock_byHeight _))
    rw [heightGroups_flatten] at perm
    refine ⟨(perm.trans (sortByBlock_perm _)).trans settled, fun _ _ => byHeight, fun other => ?_⟩
    exact absurd (other.symm.trans bitcoin.1) Bool.false_ne_true
  · rename_i other
    rw [Except.ok.injEq] at done
    refine ⟨done ▸ settled, fun bitcoin asserted => ?_, fun _ => done.symm⟩
    exact absurd (by rw [bitcoin, asserted]; rfl) other

end Prepare

end Bitgarth.Export
