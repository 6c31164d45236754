import Mathlib.Algebra.BigOperators.Group.List.Basic
import Mathlib.Data.List.Perm.Basic
import Bitgarth.Export.Rows

/-! # Chains of balances

Exported rows form a chain when each closing balance is the previous one plus the row's
delta. `verifyNativeLedgerChain` accepts a chain that starts and stays at or above zero.
-/

namespace Bitgarth.Export

open Amounts

/-- Each closing balance is the previous one, first `start`, plus the row's delta. -/
def Chained : ℤ → List AggregatedAccountTransaction → Prop
  | _, [] => True
  | start, row :: rest =>
    (∃ closing, row.closingBalance = some closing ∧
      (closing.value : ℤ) = start + row.balanceDelta) ∧
    Chained (start + row.balanceDelta) rest

/-- The balance after all rows of a chain from `start`. -/
def finalBalance (start : ℤ) (rows : List AggregatedAccountTransaction) : ℤ :=
  start + (rows.map (·.balanceDelta)).sum

@[simp]
theorem finalBalance_nil (start : ℤ) : finalBalance start [] = start := by
  simp [finalBalance]

theorem finalBalance_cons (start : ℤ) (row : AggregatedAccountTransaction)
    (rest : List AggregatedAccountTransaction) :
    finalBalance start (row :: rest) = finalBalance (start + row.balanceDelta) rest := by
  simp [finalBalance, add_assoc]

theorem finalBalance_perm {left right : List AggregatedAccountTransaction}
    (perm : left.Perm right) (start : ℤ) : finalBalance start left = finalBalance start right := by
  unfold finalBalance
  rw [(perm.map _).sum_eq]

theorem chained_append {start : ℤ} {left right : List AggregatedAccountTransaction} :
    Chained start (left ++ right) ↔
      Chained start left ∧ Chained (finalBalance start left) right := by
  induction left generalizing start with
  | nil => simp [Chained]
  | cons row rest ih =>
    rw [List.cons_append, Chained, Chained, ih, finalBalance_cons, and_assoc]

theorem chained_of_prefix_sums {start : ℤ} {rows : List AggregatedAccountTransaction}
    (sums : ∀ front row back, rows = front ++ row :: back →
      ∃ closing, row.closingBalance = some closing ∧
        (closing.value : ℤ) = start + ((front ++ [row]).map (·.balanceDelta)).sum) :
    Chained start rows := by
  induction rows generalizing start with
  | nil => trivial
  | cons row rest ih =>
    refine ⟨by simpa using sums [] row rest rfl, ih ?_⟩
    intro front later back shape
    obtain ⟨closing, balance, value⟩ := sums (row :: front) later back (by rw [shape]; rfl)
    refine ⟨closing, balance, value.trans ?_⟩
    rw [List.cons_append, List.map_cons, List.sum_cons, add_assoc]

theorem Chained.start_eq {left right : ℤ} {row : AggregatedAccountTransaction}
    {rest others : List AggregatedAccountTransaction} (first : Chained left (row :: rest))
    (second : Chained right (row :: others)) : left = right := by
  obtain ⟨⟨closing, balance, value⟩, _⟩ := first
  obtain ⟨⟨other, otherBalance, otherValue⟩, _⟩ := second
  rw [balance, Option.some.injEq] at otherBalance
  rw [otherBalance] at value
  omega

/-- The closing balance of a row as a signed number. -/
def readClosing (accountId : String) (row : AggregatedAccountTransaction) :
    Except ExportEngineError ℤ :=
  match row.closingBalance with
  | none =>
    .error (.invariant ("ledger chain: confirmed row missing closing balance for account " ++
      accountId ++ " tx " ++ row.txHash))
  | some amount =>
    match amount.trySigned with
    | none =>
      .error (.invariant ("ledger chain: closing balance out of range for account " ++
        accountId ++ " tx " ++ row.txHash))
    | some closing =>
      if closing < 0 then
        .error (.invariant ("ledger chain: negative closing balance for account " ++
          accountId ++ " tx " ++ row.txHash))
      else
        .ok closing

/-- A row continues the previous closing balance, or opens the chain at zero or above. -/
def checkStep (accountId : String) (previousClosing : Option ℤ)
    (row : AggregatedAccountTransaction) (closing : ℤ) : Except ExportEngineError Unit :=
  match previousClosing with
  | some previous =>
    match checkedAdd previous row.balanceDelta with
    | none =>
      .error (.invariant ("ledger chain: balance overflow for account " ++ accountId ++
        " tx " ++ row.txHash))
    | some expected =>
      if expected ≠ closing then
        .error (.invariant ("ledger chain desync for account " ++ accountId ++ " tx " ++
          row.txHash ++ ": expected " ++ toString expected ++ ", got " ++ toString closing))
      else
        .ok ()
  | none =>
    match checkedSub closing row.balanceDelta with
    | none =>
      .error (.invariant ("ledger chain: implied opening overflow for account " ++
        accountId ++ " tx " ++ row.txHash))
    | some opening =>
      if opening < 0 then
        .error (.invariant ("ledger chain: negative implied opening for account " ++
          accountId ++ " tx " ++ row.txHash))
      else
        .ok ()

/-- The chain check over ledger rows, after the closing balance `previousClosing`. -/
def verifyChainFrom (accountId : String) :
    Option ℤ → List AggregatedAccountTransaction → Except ExportEngineError Unit
  | _, [] => .ok ()
  | previousClosing, row :: rest => do
      let closing ← readClosing accountId row
      checkStep accountId previousClosing row closing
      verifyChainFrom accountId (some closing) rest

/-- `verify_native_ledger_chain`; assertions are passed over. -/
def verifyNativeLedgerChain (accountId : String) (transactions : List ExportAccountTransaction) :
    Except ExportEngineError Unit :=
  verifyChainFrom accountId none (natives transactions)

/-- Closing balances fit the signed range. -/
def Representable (rows : List AggregatedAccountTransaction) : Prop :=
  ∀ row ∈ rows, ∀ closing, row.closingBalance = some closing → (closing.value : ℤ) ≤ i128Max

section Verify

variable {accountId : String} {rows : List AggregatedAccountTransaction}

theorem readClosing_eq_ok_iff {row : AggregatedAccountTransaction} {closing : ℤ} :
    readClosing accountId row = .ok closing ↔
      ∃ amount, row.closingBalance = some amount ∧ closing = amount.value ∧ closing ≤ i128Max := by
  unfold readClosing
  cases balance : row.closingBalance with
  | none => simp
  | some amount =>
    simp only [Option.some.injEq, exists_eq_left']
    rw [← UnsignedAmount.trySigned_eq_some]
    cases signed : amount.trySigned with
    | none => simp
    | some value =>
      have nonnegative : ¬ value < 0 := by
        rw [(UnsignedAmount.trySigned_eq_some.mp signed).1]
        omega
      simp [nonnegative]

theorem checkStep_some_eq_ok_iff {row : AggregatedAccountTransaction} {previous closing : ℤ}
    (nonnegative : 0 ≤ closing) (fits : closing ≤ i128Max) :
    checkStep accountId (some previous) row closing = .ok () ↔
      closing = previous + row.balanceDelta := by
  unfold checkStep
  cases added : checkedAdd previous row.balanceDelta with
  | none =>
    simp only [added, reduceCtorEq, false_iff]
    intro same
    have found : checkedAdd previous row.balanceDelta = some closing :=
      checkedAdd_eq_some.mpr ⟨same, by unfold i128Min; omega, fits⟩
    rw [added] at found
    exact Option.some_ne_none _ found.symm
  | some expected =>
    have expectedEq := (checkedAdd_eq_some.mp added).1
    by_cases same : expected = closing
    · simp only [added, same, ne_eq, not_true_eq_false, if_false, true_iff]
      omega
    · simp only [added, same, ne_eq, not_false_eq_true, if_true, reduceCtorEq, false_iff]
      omega

theorem checkStep_none_eq_ok_iff {row : AggregatedAccountTransaction} {closing : ℤ} :
    checkStep accountId none row closing = .ok () ↔
      0 ≤ closing - row.balanceDelta ∧ closing - row.balanceDelta ≤ i128Max := by
  unfold checkStep
  cases subtracted : checkedSub closing row.balanceDelta with
  | none =>
    simp only [reduceCtorEq, false_iff]
    rintro ⟨nonnegative, fits⟩
    have found : checkedSub closing row.balanceDelta = some (closing - row.balanceDelta) :=
      checkedSub_eq_some.mpr ⟨rfl, by unfold i128Min; omega, fits⟩
    rw [subtracted] at found
    exact Option.some_ne_none _ found.symm
  | some opening =>
    obtain ⟨openingEq, _, fits⟩ := checkedSub_eq_some.mp subtracted
    by_cases negative : opening < 0
    · simp only [negative, if_true, reduceCtorEq, false_iff]
      omega
    · simp only [negative, if_false, true_iff]
      omega

theorem verifyChainFrom_some_eq_ok_iff {previous : ℤ} :
    verifyChainFrom accountId (some previous) rows = .ok () ↔
      Chained previous rows ∧ Representable rows := by
  induction rows generalizing previous with
  | nil => simp [verifyChainFrom, Chained, Representable]
  | cons row rest ih =>
    unfold verifyChainFrom Chained
    rw [Fallible.bind_eq_ok]
    constructor
    · rintro ⟨closing, read, done⟩
      obtain ⟨⟨⟩, checked, tail⟩ := Fallible.bind_eq_ok.mp done
      obtain ⟨amount, balance, closingEq, fits⟩ := readClosing_eq_ok_iff.mp read
      have step := (checkStep_some_eq_ok_iff (by omega) fits).mp checked
      obtain ⟨chained, representable⟩ := ih.mp tail
      refine ⟨⟨⟨amount, balance, by omega⟩, step ▸ chained⟩, ?_⟩
      intro other member found foundEq
      rcases List.mem_cons.mp member with rfl | later
      · rw [balance, Option.some.injEq] at foundEq
        rw [← foundEq, ← closingEq]
        exact fits
      · exact representable other later found foundEq
    · rintro ⟨⟨⟨amount, balance, value⟩, chained⟩, representable⟩
      have fits := representable row List.mem_cons_self amount balance
      refine ⟨amount.value, readClosing_eq_ok_iff.mpr ⟨amount, balance, rfl, fits⟩, ?_⟩
      refine Fallible.bind_eq_ok.mpr ⟨(), ?_, ?_⟩
      · exact (checkStep_some_eq_ok_iff (Int.natCast_nonneg _) fits).mpr value
      · rw [value]
        exact ih.mpr ⟨chained, fun other later =>
          representable other (List.mem_cons_of_mem _ later)⟩

/-- **What the chain check accepts.** The rows chain from an opening balance that is a
representable amount, and their closing balances are representable. -/
theorem verifyChainFrom_none_eq_ok_iff :
    verifyChainFrom accountId none rows = .ok () ↔
      rows = [] ∨ ∃ opening, 0 ≤ opening ∧ opening ≤ i128Max ∧ Chained opening rows ∧
        Representable rows := by
  cases rows with
  | nil => simp [verifyChainFrom]
  | cons row rest =>
    unfold verifyChainFrom
    rw [Fallible.bind_eq_ok]
    simp only [reduceCtorEq, false_or]
    constructor
    · rintro ⟨closing, read, done⟩
      obtain ⟨⟨⟩, checked, tail⟩ := Fallible.bind_eq_ok.mp done
      obtain ⟨amount, balance, closingEq, fits⟩ := readClosing_eq_ok_iff.mp read
      obtain ⟨nonnegative, representable⟩ := checkStep_none_eq_ok_iff.mp checked
      obtain ⟨chained, later⟩ := verifyChainFrom_some_eq_ok_iff.mp tail
      have opens : closing - row.balanceDelta + row.balanceDelta = closing := by omega
      refine ⟨closing - row.balanceDelta, nonnegative, representable,
        ⟨⟨amount, balance, by omega⟩, opens.symm ▸ chained⟩, ?_⟩
      intro other member found foundEq
      rcases List.mem_cons.mp member with rfl | inRest
      · rw [balance, Option.some.injEq] at foundEq
        rw [← foundEq, ← closingEq]
        exact fits
      · exact later other inRest found foundEq
    · rintro ⟨opening, nonnegative, openingFits, ⟨⟨amount, balance, value⟩, chained⟩,
        representable⟩
      have fits := representable row List.mem_cons_self amount balance
      refine ⟨amount.value, readClosing_eq_ok_iff.mpr ⟨amount, balance, rfl, fits⟩, ?_⟩
      refine Fallible.bind_eq_ok.mpr ⟨(), checkStep_none_eq_ok_iff.mpr ?_, ?_⟩
      · omega
      · rw [value]
        exact verifyChainFrom_some_eq_ok_iff.mpr
          ⟨chained, fun other later => representable other (List.mem_cons_of_mem _ later)⟩

end Verify

end Bitgarth.Export
