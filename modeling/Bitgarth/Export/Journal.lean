import Bitgarth.Export.Rows
import Bitgarth.Text

/-! # Journal transactions of ledger rows

A ledger row becomes a dated transaction. Its posting to the account carries the closing
balance as an assertion; a row that moves nothing has no posting and asserts nothing.
-/

namespace Bitgarth.Export

open Amounts Ledger Text

inductive HledgerFormatError where
  | amountOverflow (field : String)
  | invalidTransaction (message : String)
deriving DecidableEq, Repr

inductive PostingSign where
  | positive
  | negative
deriving DecidableEq, Repr

structure Posting where
  account : String
  sign : PostingSign
  amount : UnsignedAmount
  closingBalance : Option UnsignedAmount
deriving DecidableEq, Repr

/-- A journal transaction, before it is written as text. -/
structure JournalTransaction where
  date : ℤ
  postings : List Posting
deriving DecidableEq, Repr

def unknownExpenseAccount : String := "expenses:unknown"
def unknownIncomeAccount : String := "income:unknown"

/-- `push_posting`: zero amounts are not posted. -/
def pushPosting (postings : List Posting) (account : String) (sign : PostingSign)
    (amount : UnsignedAmount) (closingBalance : Option UnsignedAmount) : List Posting :=
  if amount.value = 0 then postings else postings ++ [⟨account, sign, amount, closingBalance⟩]

/-- `unsigned_amount_from_positive_i128`. -/
def unsignedAmountFromPositive (value : ℤ) (field : String) :
    Except HledgerFormatError UnsignedAmount :=
  match UnsignedAmount.tryFromSigned value with
  | some amount => .ok amount
  | none => .error (.amountOverflow field)

/-- `subtract_unsigned`. -/
def subtractUnsigned (left right : UnsignedAmount) : Except HledgerFormatError UnsignedAmount :=
  if right.value ≤ left.value then
    .ok ⟨left.value - right.value, (Nat.sub_le _ _).trans left.fits⟩
  else
    .error (.amountOverflow "unsigned_subtraction")

/-- The postings of a ledger row. -/
def rowPostings (accountName networkFeeAccount : String)
    (transaction : AggregatedAccountTransaction) : Except HledgerFormatError (List Posting) :=
  if 0 < transaction.balanceDelta then do
    let incoming ← unsignedAmountFromPositive transaction.balanceDelta "balance_delta"
    return pushPosting
      (pushPosting [] accountName .positive incoming transaction.closingBalance)
      unknownIncomeAccount .negative incoming none
  else if transaction.balanceDelta < 0 then do
    if i128Max < -transaction.balanceDelta then
      .error (.amountOverflow "balance_delta_abs")
    else
      let outflow ← unsignedAmountFromPositive (-transaction.balanceDelta) "balance_delta_abs"
      let feeLeg := if transaction.fee.value < outflow.value then transaction.fee else outflow
      let external ← subtractUnsigned outflow feeLeg
      let postings := pushPosting [] accountName .negative outflow transaction.closingBalance
      let postings :=
        if 0 < feeLeg.value then
          pushPosting postings networkFeeAccount .positive feeLeg none
        else postings
      return if 0 < external.value then
          pushPosting postings unknownExpenseAccount .positive external none
        else postings
  else
    .ok []

/-- `build_hledger_transaction`. -/
def buildHledgerTransaction (accountName networkFeeAccount : String)
    (transaction : AggregatedAccountTransaction) :
    Except HledgerFormatError JournalTransaction :=
  if isBlank transaction.txHash then
    .error (.invalidTransaction "tx_hash cannot be empty")
  else do
    let postings ← rowPostings accountName networkFeeAccount transaction
    return { date := transaction.date, postings }

/-- The balance that the journal asserts of a row: `rowPostings` posts the closing balance of a
row that moves the balance. -/
def AggregatedAccountTransaction.asserted (row : AggregatedAccountTransaction) :
    Option UnsignedAmount :=
  if row.balanceDelta = 0 then none else row.closingBalance

/-- An amount converts exactly when it is not negative and fits. -/
theorem unsignedAmountFromPositive_eq_ok {value : ℤ} {field : String} {amount : UnsignedAmount} :
    unsignedAmountFromPositive value field = .ok amount ↔ (amount.value : ℤ) = value := by
  rw [← UnsignedAmount.tryFromSigned_eq_some]
  unfold unsignedAmountFromPositive
  cases UnsignedAmount.tryFromSigned value <;> simp

end Bitgarth.Export
