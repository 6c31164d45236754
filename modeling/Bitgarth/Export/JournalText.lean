import Bitgarth.Accounts.AdmissionText
import Bitgarth.Export.Snapshot
import Bitgarth.Foundation.DecimalText
import Bitgarth.Sync.Gate
import Mathlib.Data.Int.CharZero
import Mathlib.Tactic.Positivity
import Mathlib.Tactic.Ring

/-! # The text of a journal transaction

A journal transaction is written as two header lines and a line for each posting. Amounts are
whole numbers of smallest units, written with a point in front of the last digits; read back
from the lines they are exact, balance, and give the wallet account its change.
-/

namespace Bitgarth.Export

open Amounts Ledger Text

/-- `format_unsigned_amount_fixed`. -/
def formatUnsignedAmountFixed (amount : UnsignedAmount) (scale : ℕ) : String :=
  if scale = 0 then
    amount.value.repr
  else
    let raw := amount.value.repr.toList
    if raw.length ≤ scale then
      let fraction := List.replicate (scale - raw.length) '0' ++ raw
      String.ofList ('0' :: '.' :: fraction)
    else
      let splitAt := raw.length - scale
      String.ofList (raw.take splitAt ++ '.' :: raw.drop splitAt)

def needsHledgerQuoting (unitCode : String) : Bool :=
  unitCode.toList.any Char.isDigit

def formatHledgerCommodity (unitCode : String) : String :=
  if needsHledgerQuoting unitCode then "\"" ++ unitCode ++ "\"" else unitCode

def formatPosting (posting : Posting) (unitCode : String) (decimalPrecision : ℕ) : String :=
  let formattedUnitCode := formatHledgerCommodity unitCode
  let amount := formatUnsignedAmountFixed posting.amount decimalPrecision
  let signedAmount :=
    match posting.sign with
    | .positive => amount
    | .negative => "-" ++ amount
  let line := "    " ++ posting.account ++ "    " ++ signedAmount ++ " " ++ formattedUnitCode
  match posting.closingBalance with
  | some closingBalance =>
    let assertion := formatUnsignedAmountFixed closingBalance decimalPrecision
    line ++ " = " ++ assertion ++ " " ++ formattedUnitCode
  | none => line

/-- The render context with what the header names. -/
structure TransactionRenderContext extends NativeTransactionRenderContext where
  asset : Sync.SyncedAssetId
  assetDisplayName : String
deriving DecidableEq, Repr

/-- `display_tx_hash`. -/
def displayTxHash (asset : Sync.SyncedAssetId) (hash : String) : String :=
  if asset = .ethereum ∧ ¬['0', 'x'] <+: hash.toList then "0x" ++ hash else hash

def transactionDescription (direction : AccountTransactionDirection)
    (assetDisplayName : String) : String :=
  match direction with
  | .outgoing => "Sent " ++ assetDisplayName
  | .incoming => "Received " ++ assetDisplayName
  | .selfTransfer => "Self-transfer " ++ assetDisplayName

/-- `push_transaction_header`. -/
def transactionHeader (transaction : AggregatedAccountTransaction)
    (renderContext : TransactionRenderContext) : List String :=
  let description :=
    if transaction.status = .failed then
      "Failed transaction fee — " ++ renderContext.assetDisplayName
    else
      transactionDescription transaction.direction renderContext.assetDisplayName
  [String.ofList (Accounts.dateText transaction.date) ++ " * " ++ description,
    "    ; Transaction " ++ displayTxHash renderContext.asset transaction.txHash]

/-- `build_hledger_transaction` with its text. -/
def hledgerTransactionText (accountName unitCode : String) (decimalPrecision : ℕ)
    (renderContext : TransactionRenderContext) (transaction : AggregatedAccountTransaction) :
    Except HledgerFormatError String := do
  let entry ← buildHledgerTransaction accountName renderContext.networkFeeAccount transaction
  let lines := transactionHeader transaction renderContext ++
    entry.postings.map fun posting => formatPosting posting unitCode decimalPrecision
  return "\n".intercalate lines

/-! ## Reading amounts back -/

/-- The amount of a posting line, between the account's name and the unit. -/
def readAmount (account line : String) : Option ℚ := do
  let fields := line.toList.drop (account.toList.length + 8)
  let (amount, _) ← SplitText.splitOnce ' ' fields
  DecimalText.read amount

/-- An account and its amount, from a posting line: the account is between four blanks and the
next gap. -/
def readPosting (line : List Char) : Option (String × ℚ) := do
  let (account, fields) ← SplitText.splitGap ' ' (line.drop 4)
  let (amount, _) ← SplitText.splitOnce ' ' (fields.drop 2)
  let number ← DecimalText.read amount
  return (String.ofList account, number)

/-- The postings in the lines after the header. -/
def readTransaction (text : String) : Option (List (String × ℚ)) :=
  ((text.toList.splitOn '\n').drop 2).mapM readPosting

/-- An account name that stands in one line and leaves no gap in it. -/
def IsAccountName (name : String) : Prop :=
  '\n' ∉ name.toList ∧ ¬[' ', ' '] <:+: name.toList ++ [' ']

/-- The names a transaction is written with leave its lines readable. -/
structure Readable (accountName unitCode : String) (renderContext : TransactionRenderContext)
    (transaction : AggregatedAccountTransaction) : Prop where
  accountName : IsAccountName accountName
  networkFeeAccount : IsAccountName renderContext.networkFeeAccount
  unitCode : '\n' ∉ unitCode.toList
  assetDisplayName : '\n' ∉ renderContext.assetDisplayName.toList
  txHash : '\n' ∉ transaction.txHash.toList

section Amounts

variable {amount : UnsignedAmount} {scale : ℕ}

theorem toList_formatUnsignedAmountFixed (amount : UnsignedAmount) (scale : ℕ) :
    (formatUnsignedAmountFixed amount scale).toList = Nat.toDigits 10 amount.value ∧
        scale = 0 ∨
      ∃ whole fraction,
        (formatUnsignedAmountFixed amount scale).toList = whole ++ '.' :: fraction ∧
          DecimalText.Digits whole ∧ DecimalText.Digits fraction ∧ fraction.length = scale ∧
          Nat.ofDigitChars 10 (whole ++ fraction) 0 = amount.value := by
  have digits := DecimalText.digits_toDigits amount.value
  unfold formatUnsignedAmountFixed
  rw [Nat.toList_repr]
  generalize isRaw : Nat.toDigits 10 amount.value = raw at digits
  have spelled : Nat.ofDigitChars 10 raw 0 = amount.value := by
    rw [← isRaw, Nat.ofDigitChars_ten_toDigits]
  split
  · next none =>
      rw [Nat.toList_repr]
      exact .inl ⟨isRaw, none⟩
  · next some =>
      right
      dsimp only
      split
      · next short =>
          refine ⟨['0'], List.replicate (scale - raw.length) '0' ++ raw, ?_, ?_, ?_, ?_, ?_⟩
          · rw [String.toList_ofList]
            rfl
          · exact DecimalText.digits_toDigits 0
          · exact DecimalText.digits_zeros_append _ digits
          · rw [List.length_append, List.length_replicate]
            omega
          · change Nat.ofDigitChars 10 (List.replicate 1 '0' ++ _) 0 = _
            rw [Nat.ofDigitChars_append, Nat.ofDigitChars_replicate_zero,
              Nat.ofDigitChars_append, Nat.mul_zero, Nat.ofDigitChars_replicate_zero,
              Nat.mul_zero, spelled]
      · next long =>
          have split : raw.take (raw.length - scale) ++ raw.drop (raw.length - scale) = raw :=
            List.take_append_drop _ raw
          have length := List.length_drop (i := raw.length - scale) (l := raw)
          refine ⟨raw.take (raw.length - scale), raw.drop (raw.length - scale), ?_, ?_, ?_, ?_,
            ?_⟩
          · rw [String.toList_ofList]
          · refine DecimalText.Digits.of_append (split.symm ▸ digits) ?_
            exact List.ne_nil_of_length_pos (by rw [List.length_take]; omega)
          · refine DecimalText.Digits.of_append_right (split.symm ▸ digits) ?_
            exact List.ne_nil_of_length_pos (by omega)
          · omega
          · rw [split, spelled]

/-- **An amount reads back exactly**, shorter than the precision or not. -/
theorem readUnsigned_formatUnsignedAmountFixed (amount : UnsignedAmount) (scale : ℕ) :
    DecimalText.readUnsigned (formatUnsignedAmountFixed amount scale).toList =
      some ((amount.value : ℚ) / 10 ^ scale) := by
  rcases toList_formatUnsignedAmountFixed amount scale with
    ⟨text, rfl⟩ | ⟨whole, fraction, text, before, after, length, spelled⟩
  · rw [text, DecimalText.readUnsigned_of_digits (DecimalText.digits_toDigits _),
      Nat.ofDigitChars_ten_toDigits, pow_zero, div_one]
  · rw [text, DecimalText.readUnsigned_point before after, spelled, length]

theorem not_mem_formatUnsignedAmountFixed {character : Char} (mark : character.isDigit = false)
    (other : character ≠ '.') (amount : UnsignedAmount) (scale : ℕ) :
    character ∉ (formatUnsignedAmountFixed amount scale).toList := by
  rcases toList_formatUnsignedAmountFixed amount scale with
    ⟨text, _⟩ | ⟨whole, fraction, text, before, after, _⟩
  · rw [text]
    exact (DecimalText.digits_toDigits _).not_mem mark
  · rw [text, List.mem_append, List.mem_cons]
    exact not_or.mpr ⟨before.not_mem mark, not_or.mpr ⟨other, after.not_mem mark⟩⟩

end Amounts

section Postings

variable {posting : Posting} {accountName networkFeeAccount unitCode : String}
  {decimalPrecision : ℕ} {row : AggregatedAccountTransaction}

/-- The number of smallest units a posting moves. -/
def Posting.signedAmount (posting : Posting) : ℤ :=
  match posting.sign with
  | .positive => posting.amount.value
  | .negative => -posting.amount.value

/-- The amount field of a posting line. -/
def signedText (posting : Posting) (decimalPrecision : ℕ) : List Char :=
  match posting.sign with
  | .positive => (formatUnsignedAmountFixed posting.amount decimalPrecision).toList
  | .negative => '-' :: (formatUnsignedAmountFixed posting.amount decimalPrecision).toList

theorem read_signedText (posting : Posting) (decimalPrecision : ℕ) :
    DecimalText.read (signedText posting decimalPrecision) =
      some ((posting.signedAmount : ℚ) / 10 ^ decimalPrecision) := by
  unfold signedText Posting.signedAmount
  cases posting.sign with
  | positive =>
    dsimp only
    rw [DecimalText.read_of_not_mem (not_mem_formatUnsignedAmountFixed rfl (by decide) _ _),
      readUnsigned_formatUnsignedAmountFixed, Int.cast_natCast]
  | negative =>
    dsimp only
    rw [DecimalText.read_neg, readUnsigned_formatUnsignedAmountFixed, Option.map_some,
      Int.cast_neg, Int.cast_natCast, neg_div]

theorem not_mem_signedText {character : Char} (mark : character.isDigit = false)
    (other : character ≠ '.') (noSign : character ≠ '-') (posting : Posting)
    (decimalPrecision : ℕ) : character ∉ signedText posting decimalPrecision := by
  have plain := not_mem_formatUnsignedAmountFixed mark other posting.amount decimalPrecision
  unfold signedText
  cases posting.sign with
  | positive => exact plain
  | negative => exact List.not_mem_cons_of_ne_of_not_mem noSign plain

theorem space_not_mem_signedText (posting : Posting) (decimalPrecision : ℕ) :
    ' ' ∉ signedText posting decimalPrecision :=
  not_mem_signedText rfl (by decide) (by decide) posting decimalPrecision

theorem toList_formatPosting (posting : Posting) (unitCode : String) (decimalPrecision : ℕ) :
    ∃ rest, (formatPosting posting unitCode decimalPrecision).toList =
      "    ".toList ++ posting.account.toList ++ "    ".toList ++
        (signedText posting decimalPrecision ++ ' ' :: rest) := by
  unfold formatPosting signedText
  cases posting.sign <;> cases posting.closingBalance <;>
    simp only [String.toList_append, List.append_assoc] <;>
    exact ⟨_, rfl⟩

/-- **The amount of a posting line** reads back exactly. -/
theorem readAmount_formatPosting (posting : Posting) (unitCode : String)
    (decimalPrecision : ℕ) :
    readAmount posting.account (formatPosting posting unitCode decimalPrecision) =
      some ((posting.signedAmount : ℚ) / 10 ^ decimalPrecision) := by
  obtain ⟨rest, line⟩ := toList_formatPosting posting unitCode decimalPrecision
  have length : ("    ".toList ++ posting.account.toList ++ "    ".toList).length =
      posting.account.toList.length + 8 := by
    have gap : "    ".toList.length = 4 := rfl
    rw [List.length_append, List.length_append, gap]
    omega
  rw [readAmount, line, ← length, List.drop_left]
  rw [SplitText.splitOnce_append_cons rest (space_not_mem_signedText posting decimalPrecision)]
  exact read_signedText posting decimalPrecision

/-- **A posting line** reads back without knowing its account. -/
theorem readPosting_formatPosting (name : IsAccountName posting.account) (unitCode : String)
    (decimalPrecision : ℕ) :
    readPosting (formatPosting posting unitCode decimalPrecision).toList =
      some (posting.account, (posting.signedAmount : ℚ) / 10 ^ decimalPrecision) := by
  obtain ⟨rest, line⟩ := toList_formatPosting posting unitCode decimalPrecision
  have fields : (formatPosting posting unitCode decimalPrecision).toList.drop 4 =
      posting.account.toList ++ ' ' :: ' ' :: ' ' :: ' ' ::
        (signedText posting decimalPrecision ++ ' ' :: rest) := by
    rw [line, List.append_assoc, List.append_assoc]
    rfl
  rw [readPosting, fields, SplitText.splitGap_append _ name.2, Option.bind_eq_bind,
    Option.bind_some]
  change (SplitText.splitOnce ' ' (signedText posting decimalPrecision ++ ' ' :: rest)).bind _ = _
  rw [SplitText.splitOnce_append_cons rest (space_not_mem_signedText posting decimalPrecision),
    Option.bind_some]
  dsimp only
  rw [read_signedText, String.ofList_toList]
  rfl

theorem newline_not_mem_formatHledgerCommodity (plain : '\n' ∉ unitCode.toList) :
    '\n' ∉ (formatHledgerCommodity unitCode).toList := by
  unfold formatHledgerCommodity
  split
  · simpa [String.toList_append] using plain
  · exact plain

theorem newline_not_mem_formatPosting (name : '\n' ∉ posting.account.toList)
    (plain : '\n' ∉ unitCode.toList) (decimalPrecision : ℕ) :
    '\n' ∉ (formatPosting posting unitCode decimalPrecision).toList := by
  have amounts (amount : UnsignedAmount) :=
    @not_mem_formatUnsignedAmountFixed '\n' rfl (by decide) amount decimalPrecision
  have unit := newline_not_mem_formatHledgerCommodity plain
  unfold formatPosting
  cases posting.sign <;> cases posting.closingBalance <;>
    simp [String.toList_append, name, amounts, unit]

/-- A leg of a transaction; a leg of nothing is left out. -/
def leg (account : String) (amount : ℚ) : List (String × ℚ) :=
  if amount = 0 then [] else [(account, amount)]

/-- The account a posting is to, and the amount it moves there. -/
def Posting.leg (decimalPrecision : ℕ) (posting : Posting) : String × ℚ :=
  (posting.account, (posting.signedAmount : ℚ) / 10 ^ decimalPrecision)

/-- The legs of a change of a wallet account: it is the whole income from outside, or it is
spent on the fee as far as that goes and to the outside for the rest. -/
def transactionLegs (accountName networkFeeAccount : String) (change fee : ℚ) :
    List (String × ℚ) :=
  Export.leg accountName change ++
    if 0 < change then Export.leg unknownIncomeAccount (-change)
    else Export.leg networkFeeAccount (min fee (-change)) ++
      Export.leg unknownExpenseAccount (-change - min fee (-change))

theorem signedAmount_eq_zero {sign : PostingSign} {account : String} {amount : UnsignedAmount}
    {closing : Option UnsignedAmount} :
    (⟨account, sign, amount, closing⟩ : Posting).signedAmount = 0 ↔ amount.value = 0 := by
  cases sign <;> simp [Posting.signedAmount]

theorem map_leg_pushPosting {postings : List Posting} (account : String) (sign : PostingSign)
    (amount : UnsignedAmount) (closing : Option UnsignedAmount) :
    (pushPosting postings account sign amount closing).map (Posting.leg decimalPrecision) =
      postings.map (Posting.leg decimalPrecision) ++ Export.leg account
        (((⟨account, sign, amount, closing⟩ : Posting).signedAmount : ℚ) /
          10 ^ decimalPrecision) := by
  have zero := @signedAmount_eq_zero sign account amount closing
  unfold pushPosting Export.leg
  split
  · next none =>
      rw [zero.mpr none, Int.cast_zero, zero_div, if_pos rfl, List.append_nil]
  · next some =>
      have moved : (⟨account, sign, amount, closing⟩ : Posting).signedAmount ≠ 0 :=
        fun none => some (zero.mp none)
      rw [if_neg (div_ne_zero (Int.cast_ne_zero.mpr moved) (by positivity)), List.map_append]
      rfl

theorem map_leg_pushLeg {postings : List Posting} (account : String) (amount : UnsignedAmount) :
    (if 0 < amount.value then pushPosting postings account .positive amount none
      else postings).map (Posting.leg decimalPrecision) =
      postings.map (Posting.leg decimalPrecision) ++
        Export.leg account ((amount.value : ℚ) / 10 ^ decimalPrecision) := by
  split
  · rw [map_leg_pushPosting]
    rfl
  · next none =>
      have zero : amount.value = 0 := by omega
      rw [zero, Nat.cast_zero, zero_div, Export.leg, if_pos rfl, List.append_nil]

theorem unsignedAmountFromPositive_eq_error {value : ℤ} {field : String}
    {error : HledgerFormatError}
    (failed : unsignedAmountFromPositive value field = .error error) :
    error = .amountOverflow field ∧ (value < 0 ∨ u128Max < value) := by
  unfold unsignedAmountFromPositive UnsignedAmount.tryFromSigned at failed
  split at failed
  · cases failed
  · next unfit =>
      cases failed
      split at unfit
      · cases unfit
      · next outside => exact ⟨rfl, by omega⟩

theorem subtractUnsigned_of_le {left right : UnsignedAmount} (fits : right.value ≤ left.value) :
    ∃ rest, subtractUnsigned left right = .ok rest ∧ rest.value = left.value - right.value :=
  ⟨_, if_pos fits, rfl⟩

/-- **The postings of a row** are the legs of its change, unless the change is out of range. -/
theorem rowPostings_spec (accountName networkFeeAccount : String)
    (row : AggregatedAccountTransaction) (decimalPrecision : ℕ) :
    (∃ field, rowPostings accountName networkFeeAccount row = .error (.amountOverflow field) ∧
        (row.balanceDelta < -i128Max ∨ u128Max < row.balanceDelta)) ∨
      ∃ postings, rowPostings accountName networkFeeAccount row = .ok postings ∧
        postings.map (Posting.leg decimalPrecision) =
          transactionLegs accountName networkFeeAccount
            ((row.balanceDelta : ℚ) / 10 ^ decimalPrecision)
            ((row.fee.value : ℚ) / 10 ^ decimalPrecision) := by
  have scale : (0 : ℚ) < 10 ^ decimalPrecision := by positivity
  have sign : 0 < (row.balanceDelta : ℚ) / 10 ^ decimalPrecision ↔ 0 < row.balanceDelta := by
    rw [div_pos_iff_of_pos_right scale, Int.cast_pos]
  unfold rowPostings transactionLegs
  by_cases incomes : 0 < row.balanceDelta
  · rw [if_pos incomes, if_pos (sign.mpr incomes)]
    cases converted : unsignedAmountFromPositive row.balanceDelta "balance_delta" with
    | error error =>
      obtain ⟨rfl, outside⟩ := unsignedAmountFromPositive_eq_error converted
      exact .inl ⟨_, rfl, .inr (outside.resolve_left (by omega))⟩
    | ok incoming =>
      have amount := unsignedAmountFromPositive_eq_ok.mp converted
      refine .inr ⟨_, rfl, ?_⟩
      rw [map_leg_pushPosting, map_leg_pushPosting, List.map_nil, List.nil_append]
      simp only [Posting.signedAmount, amount, Int.cast_neg, neg_div]
  · rw [if_neg incomes, if_neg (sign.not.mpr incomes)]
    by_cases spends : row.balanceDelta < 0
    · rw [if_pos spends]
      by_cases overflows : i128Max < -row.balanceDelta
      · rw [if_pos overflows]
        exact .inl ⟨_, rfl, .inl (by omega)⟩
      · rw [if_neg overflows]
        cases converted : unsignedAmountFromPositive (-row.balanceDelta) "balance_delta_abs" with
        | error error =>
          obtain ⟨_, outside⟩ := unsignedAmountFromPositive_eq_error converted
          unfold u128Max at outside
          unfold i128Max at overflows
          omega
        | ok outflow =>
          have amount := unsignedAmountFromPositive_eq_ok.mp converted
          have spent : -((row.balanceDelta : ℚ) / 10 ^ decimalPrecision) =
              (outflow.value : ℚ) / 10 ^ decimalPrecision := by
            rw [← neg_div, ← Int.cast_neg, ← amount, Int.cast_natCast]
          generalize isLeg : (if row.fee.value < outflow.value then row.fee else outflow) = feeLeg
          have least : feeLeg.value = min row.fee.value outflow.value := by
            rw [← isLeg]
            split <;> omega
          obtain ⟨external, subtracted, remaining⟩ :=
            @subtractUnsigned_of_le outflow feeLeg (by omega)
          have charged : (feeLeg.value : ℚ) / 10 ^ decimalPrecision =
              min ((row.fee.value : ℚ) / 10 ^ decimalPrecision)
                ((outflow.value : ℚ) / 10 ^ decimalPrecision) := by
            rw [min_div_div_right scale.le, least, Nat.cast_min]
          have outside : (external.value : ℚ) / 10 ^ decimalPrecision =
              (outflow.value : ℚ) / 10 ^ decimalPrecision -
                (feeLeg.value : ℚ) / 10 ^ decimalPrecision := by
            rw [remaining, Nat.cast_sub (by omega), sub_div]
          refine .inr ⟨_, Fallible.bind_eq_ok.mpr ⟨outflow, rfl,
            Fallible.bind_eq_ok.mpr ⟨external, by rw [isLeg, subtracted], rfl⟩⟩, ?_⟩
          rw [isLeg, map_leg_pushLeg, map_leg_pushLeg, map_leg_pushPosting, List.map_nil,
            List.nil_append, List.append_assoc, spent, ← charged, ← outside]
          simp only [Posting.signedAmount, amount, neg_neg]
    · rw [if_neg spends]
      have still : row.balanceDelta = 0 := by omega
      have nothing : min ((row.fee.value : ℚ) / 10 ^ decimalPrecision) 0 = 0 :=
        min_eq_right (by positivity)
      refine .inr ⟨_, rfl, ?_⟩
      rw [still, Int.cast_zero, zero_div, neg_zero, nothing, sub_zero]
      rfl

end Postings

section Legs

variable {accountName networkFeeAccount account : String} {change fee amount : ℚ}
  {legs : List (String × ℚ)}

/-- What the legs of a transaction say about a change of the wallet account. -/
structure StatesChange (accountName networkFeeAccount : String) (change : ℚ)
    (legs : List (String × ℚ)) : Prop where
  balanced : (legs.map Prod.snd).sum = 0
  wallet : change ≠ 0 → ∃ others, legs = (accountName, change) :: others
  unmoved : change = 0 → legs = []
  total : accountName ≠ networkFeeAccount → accountName ≠ unknownIncomeAccount →
    accountName ≠ unknownExpenseAccount →
    ((legs.filter (·.1 = accountName)).map Prod.snd).sum = change
  outflow : change < 0 → ∃ feeLeg, 0 ≤ feeLeg ∧ feeLeg ≤ -change ∧
    legs = (accountName, change) ::
      (leg networkFeeAccount feeLeg ++ leg unknownExpenseAccount (-change - feeLeg))

theorem sum_leg (account : String) (amount : ℚ) :
    ((leg account amount).map Prod.snd).sum = amount := by
  unfold leg
  split
  · next none => simp [none]
  · simp

theorem filter_leg (account other : String) (amount : ℚ) :
    (leg account amount).filter (·.1 = other) = if account = other then leg account amount
      else [] := by
  unfold leg
  split <;> split <;> simp [*]

theorem leg_of_ne_zero (moves : amount ≠ 0) : leg account amount = [(account, amount)] :=
  if_neg moves

/-- **Legs state their change.** -/
theorem statesChange_transactionLegs (nonnegative : 0 ≤ fee) :
    StatesChange accountName networkFeeAccount change
      (transactionLegs accountName networkFeeAccount change fee) where
  balanced := by
    unfold transactionLegs
    rw [List.map_append, List.sum_append, sum_leg]
    split
    · rw [sum_leg]
      ring
    · rw [List.map_append, List.sum_append, sum_leg, sum_leg]
      ring
  wallet moves := by
    rw [transactionLegs, leg_of_ne_zero moves]
    exact ⟨_, rfl⟩
  unmoved still := by
    have nothing : min fee 0 = 0 := min_eq_right nonnegative
    simp [transactionLegs, still, leg, nothing]
  total notFee notIncome notExpense := by
    unfold transactionLegs
    rw [List.filter_append, filter_leg, if_pos rfl]
    split
    · rw [filter_leg, if_neg notIncome.symm, List.append_nil, sum_leg]
    · rw [List.filter_append, filter_leg, filter_leg, if_neg notFee.symm,
        if_neg notExpense.symm, List.append_nil, List.append_nil, sum_leg]
  outflow spends := by
    refine ⟨min fee (-change), le_min nonnegative ?_, min_le_right _ _, ?_⟩
    · exact neg_nonneg.mpr spends.le
    · rw [transactionLegs, leg_of_ne_zero spends.ne, if_neg spends.not_gt]
      rfl

end Legs

section Reading

variable {accountName networkFeeAccount unitCode : String} {decimalPrecision : ℕ}
  {renderContext : TransactionRenderContext} {transaction : AggregatedAccountTransaction}

theorem newline_not_mem_digits (width number : ℕ) : '\n' ∉ FixedWidth.digits width number := by
  induction width generalizing number with
  | zero => exact List.not_mem_nil
  | succ width ih =>
    rw [FixedWidth.digits, List.mem_append, List.mem_singleton]
    refine not_or.mpr ⟨ih _, fun same => ?_⟩
    have code := congrArg Char.toNat same
    rw [FixedWidth.toNat_digit] at code
    change 10 = _ at code
    omega

theorem newline_not_mem_dateText (date : ℤ) : '\n' ∉ Accounts.dateText date := by
  have year (year : ℤ) : '\n' ∉ Accounts.yearText year := by
    unfold Accounts.yearText
    split
    · exact newline_not_mem_digits _ _
    · have digits := DecimalText.digits_zeros_append (4 - (Nat.toDigits 10 year.natAbs).length)
        (DecimalText.digits_toDigits year.natAbs)
      refine List.not_mem_cons_of_ne_of_not_mem ?_ (digits.not_mem rfl)
      split <;> decide
  simp [Accounts.dateText, year, newline_not_mem_digits]

theorem newline_not_mem_transactionHeader
    (readable : Readable accountName unitCode renderContext transaction) :
    ∀ line ∈ transactionHeader transaction renderContext, '\n' ∉ line.toList := by
  have display : '\n' ∉ (displayTxHash renderContext.asset transaction.txHash).toList := by
    unfold displayTxHash
    split <;> simp [String.toList_append, readable.txHash]
  have description : '\n' ∉ (transactionDescription transaction.direction
      renderContext.assetDisplayName).toList := by
    unfold transactionDescription
    split <;> simp [String.toList_append, readable.assetDisplayName]
  unfold transactionHeader
  rw [List.forall_mem_cons, List.forall_mem_singleton]
  refine ⟨?_, ?_⟩
  · split <;> simp [String.toList_append, newline_not_mem_dateText, readable.assetDisplayName,
      description]
  · simp [String.toList_append, display]

theorem eq_of_mem_leg {account : String} {amount : ℚ} {entry : String × ℚ}
    (member : entry ∈ leg account amount) : entry.1 = account := by
  unfold leg at member
  split at member
  · cases member
  · rw [List.mem_singleton.mp member]

theorem account_of_mem_transactionLegs {change fee : ℚ} {entry : String × ℚ}
    (member : entry ∈ transactionLegs accountName networkFeeAccount change fee) :
    entry.1 ∈ [accountName, networkFeeAccount, unknownIncomeAccount, unknownExpenseAccount] := by
  unfold transactionLegs at member
  rcases List.mem_append.mp member with own | other
  · simp [eq_of_mem_leg own]
  · split at other
    · simp [eq_of_mem_leg other]
    · rcases List.mem_append.mp other with fee | outside
      · simp [eq_of_mem_leg fee]
      · simp [eq_of_mem_leg outside]

theorem isAccountName_of_legs {change fee : ℚ} {postings : List Posting}
    (readable : Readable accountName unitCode renderContext transaction)
    (legs : postings.map (Posting.leg decimalPrecision) =
      transactionLegs accountName renderContext.networkFeeAccount change fee) :
    ∀ posting ∈ postings, IsAccountName posting.account := by
  intro posting member
  have entry : Posting.leg decimalPrecision posting ∈
      transactionLegs accountName renderContext.networkFeeAccount change fee :=
    legs ▸ List.mem_map_of_mem member
  have names : ∀ name ∈ [accountName, renderContext.networkFeeAccount, unknownIncomeAccount,
      unknownExpenseAccount], IsAccountName name := by
    simp only [List.forall_mem_cons]
    refine ⟨readable.accountName, readable.networkFeeAccount, ?_, ?_, ?_⟩
    · unfold IsAccountName unknownIncomeAccount
      decide
    · unfold IsAccountName unknownExpenseAccount
      decide
    · exact fun name member => absurd member List.not_mem_nil
  exact names _ (account_of_mem_transactionLegs entry)

theorem mapM_readPosting {postings : List Posting}
    (names : ∀ posting ∈ postings, IsAccountName posting.account) :
    (postings.map fun posting =>
        (formatPosting posting unitCode decimalPrecision).toList).mapM readPosting =
      some (postings.map (Posting.leg decimalPrecision)) := by
  induction postings with
  | nil => rfl
  | cons posting rest ih =>
    obtain ⟨name, names⟩ := List.forall_mem_cons.mp names
    rw [List.map_cons, List.mapM_cons, readPosting_formatPosting name, ih names]
    rfl

/-- **The text of a transaction** with readable names reads back as its postings. -/
theorem readTransaction_text {postings : List Posting}
    (readable : Readable accountName unitCode renderContext transaction)
    (names : ∀ posting ∈ postings, IsAccountName posting.account) :
    readTransaction ("\n".intercalate (transactionHeader transaction renderContext ++
        postings.map fun posting => formatPosting posting unitCode decimalPrecision)) =
      some (postings.map (Posting.leg decimalPrecision)) := by
  have oneLine : ∀ line ∈ (transactionHeader transaction renderContext ++
      postings.map fun posting => formatPosting posting unitCode decimalPrecision).map
        String.toList, '\n' ∉ line := by
    intro line member
    obtain ⟨text, written, rfl⟩ := List.mem_map.mp member
    rcases List.mem_append.mp written with header | posted
    · exact newline_not_mem_transactionHeader readable text header
    · obtain ⟨posting, isPosting, rfl⟩ := List.mem_map.mp posted
      exact newline_not_mem_formatPosting (names posting isPosting).1 readable.unitCode _
  have lineBreak : "\n".toList = ['\n'] := rfl
  rw [readTransaction, String.toList_intercalate, lineBreak,
    List.splitOn_intercalate '\n' oneLine (by simp [transactionHeader]), List.map_append,
    List.map_map]
  exact mapM_readPosting names

end Reading

/-- **A journal transaction balances and states its change.** The amounts that are read back
from its posting lines sum to zero, give the wallet account the change of its row, and charge
a fee within the outflow; only a change out of range is refused. -/
theorem hledgerTransactionText_spec {transaction : AggregatedAccountTransaction}
    (hash : isBlank transaction.txHash = false) (accountName unitCode : String)
    (decimalPrecision : ℕ) (renderContext : TransactionRenderContext) :
    (∃ field, hledgerTransactionText accountName unitCode decimalPrecision renderContext
          transaction = .error (.amountOverflow field) ∧
        (transaction.balanceDelta < -i128Max ∨ u128Max < transaction.balanceDelta)) ∨
      ∃ lines legs,
        hledgerTransactionText accountName unitCode decimalPrecision renderContext transaction =
            .ok ("\n".intercalate (transactionHeader transaction renderContext ++ lines)) ∧
          List.Forall₂ (fun line leg => readAmount leg.1 line = some leg.2) lines legs ∧
          StatesChange accountName renderContext.networkFeeAccount
            ((transaction.balanceDelta : ℚ) / 10 ^ decimalPrecision) legs ∧
          (Readable accountName unitCode renderContext transaction →
            readTransaction ("\n".intercalate
              (transactionHeader transaction renderContext ++ lines)) = some legs) := by
  have built : buildHledgerTransaction accountName renderContext.networkFeeAccount transaction =
      (rowPostings accountName renderContext.networkFeeAccount transaction).bind fun postings =>
        .ok { date := transaction.date, postings } := by
    rw [buildHledgerTransaction, if_neg (by rw [hash]; decide)]
    rfl
  have fee : (0 : ℚ) ≤ (transaction.fee.value : ℚ) / 10 ^ decimalPrecision := by positivity
  unfold hledgerTransactionText
  rw [built]
  rcases rowPostings_spec accountName renderContext.networkFeeAccount transaction
    decimalPrecision with ⟨field, refused, range⟩ | ⟨postings, posted, legs⟩
  · rw [refused]
    exact .inl ⟨field, rfl, range⟩
  · rw [posted]
    refine .inr ⟨_, postings.map (Posting.leg decimalPrecision), rfl, ?_, ?_, ?_⟩
    · rw [List.forall₂_map_left_iff, List.forall₂_map_right_iff, List.forall₂_same]
      exact fun posting _ => readAmount_formatPosting posting unitCode decimalPrecision
    · rw [legs]
      exact statesChange_transactionLegs fee
    · intro readable
      exact readTransaction_text readable (isAccountName_of_legs readable legs)

/-- A payment of 0.05 with a fee of 0.00001. -/
def paymentTransaction : AggregatedAccountTransaction where
  accountId := "01KGQYDBAH5B0JD0BSF2VX95FR"
  txHash := "0xsoleowner"
  direction := .outgoing
  status := .confirmed
  balanceDelta := -5001000
  fee := ⟨1000, by decide⟩
  occurredAt := 1710676800000000000
  blockHeight := some 123
  nonce := some 0
  minTransferIndex := some 0
  closingBalance := some ⟨9999000, by decide⟩

def bitcoinRenderContext : TransactionRenderContext where
  networkFeeAccount := "expenses:Fees:Bitcoin:Network:Mainnet"
  asset := .bitcoin
  assetDisplayName := "Bitcoin"

theorem hledgerTransactionText_spec_payment :
    ∃ lines legs,
      hledgerTransactionText "assets:MainWallet:BitcoinAccount1" "BTC" 8 bitcoinRenderContext
          paymentTransaction =
        .ok ("\n".intercalate (transactionHeader paymentTransaction bitcoinRenderContext ++
          lines)) ∧
        StatesChange "assets:MainWallet:BitcoinAccount1" "expenses:Fees:Bitcoin:Network:Mainnet"
          (((-5001000 : ℤ) : ℚ) / 10 ^ 8) legs := by
  have hash : isBlank paymentTransaction.txHash = false := by decide
  rcases hledgerTransactionText_spec hash "assets:MainWallet:BitcoinAccount1" "BTC" 8
    bitcoinRenderContext with ⟨_, _, range⟩ | ⟨lines, legs, text, _, states, _⟩
  · exact absurd range (by decide)
  · exact ⟨lines, legs, text, states⟩

end Bitgarth.Export
