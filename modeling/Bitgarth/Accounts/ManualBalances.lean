import Mathlib.Data.String.Basic
import Bitgarth.Export.JournalText

/-! # Balances of manual assets

A balance is entered as a decimal literal and kept as a number of smallest units at the scale of
its asset. A literal that is accepted at a scale has exactly the value it is kept with, and the
fixed form of an amount is read back (`Bitgarth.Accounts.parseAtScale_eq_ok`,
`Bitgarth.Accounts.parse_formatUnsignedAmountFixed`).
-/

namespace Bitgarth.Accounts

open Amounts Fallible Text

def manualAssetBalanceLiteralMaxLength : ℕ := 64
def manualAssetBalanceMaxFractionalDigits : UInt8 := 18

/-- `ManualAssetDisplayScale`: the number of decimal places. -/
abbrev ManualAssetDisplayScale := UInt8

inductive ManualAssetBalanceError
  | empty
  | tooLong (max actual : ℕ)
  | invalidFormat
  | tooManyFractionalDigits (max : UInt8) (actual : ℕ)
  | negativeNotAllowed
  | overflow
  deriving DecidableEq, Repr

def ManualAssetBalanceError.message : ManualAssetBalanceError → String
  | .empty => "balance cannot be empty"
  | .tooLong max actual =>
    "balance must be at most " ++ toString max ++ " characters, got " ++ toString actual
  | .invalidFormat => "balance must be a non-negative decimal number"
  | .tooManyFractionalDigits max actual =>
    "balance supports at most " ++ toString max ++ " fractional digits, got " ++ toString actual
  | .negativeNotAllowed => "balance cannot be negative"
  | .overflow => "balance is too large"

/-- The parts around the point, as both parsers check them. -/
def balanceParts (max : UInt8) (trimmed : List Char) :
    Except ManualAssetBalanceError (List Char × List Char) :=
  let (whole, fraction) :=
    match SplitText.splitOnce '.' trimmed with
    | none => (trimmed, none)
    | some (whole, rest) => (whole, some rest)
  -- a point in the fraction is a third part
  if (fraction.getD []).contains '.' then .error .invalidFormat
  else if !whole.all Char.isDigit then .error .invalidFormat
  else if !(fraction.getD []).all Char.isDigit then .error .invalidFormat
  else if max.toNat < (fraction.getD []).length then
    .error (.tooManyFractionalDigits max (fraction.getD []).length)
  else if whole.isEmpty && (fraction.getD []).isEmpty then .error .invalidFormat
  else .ok (whole, fraction.getD [])

/-- The digits before the point, if there are any. -/
def normalizedWhole (whole : List Char) : List Char := if whole.isEmpty then ['0'] else whole

/-- `parse::<u128>` of one or more digits. -/
def parseU128 (digits : List Char) : Except ManualAssetBalanceError UnsignedAmount :=
  if fits : Nat.ofDigitChars 10 digits 0 ≤ u128Max then .ok ⟨Nat.ofDigitChars 10 digits 0, fits⟩
  else .error .overflow

/-- `ValidatedManualAssetBalanceLiteral`. -/
structure ValidatedManualAssetBalanceLiteral where
  trimmed : String
  normalizedDigits : List Char
  enteredFractionalDigits : UInt8
  deriving DecidableEq, Repr

/-- `ValidatedManualAssetBalanceLiteral::parse`. -/
def ValidatedManualAssetBalanceLiteral.parse (value : String) :
    Except ManualAssetBalanceError ValidatedManualAssetBalanceLiteral :=
  let trimmed := trim value
  if trimmed.isEmpty then .error .empty
  else if manualAssetBalanceLiteralMaxLength < trimmed.utf8ByteSize then
    .error (.tooLong manualAssetBalanceLiteralMaxLength trimmed.utf8ByteSize)
  else if trimmed.toList.head? = some '-' then .error .negativeNotAllowed
  else do
    let (whole, fraction) ← balanceParts manualAssetBalanceMaxFractionalDigits trimmed.toList
    let normalizedDigits := normalizedWhole whole ++ fraction
    let _ ← parseU128 normalizedDigits
    return { trimmed, normalizedDigits, enteredFractionalDigits := UInt8.ofNat fraction.length }

/-- `ValidatedManualAssetBalance::parse`. -/
def ValidatedManualAssetBalance.parse (value : String) (scale : ManualAssetDisplayScale) :
    Except ManualAssetBalanceError UnsignedAmount :=
  let trimmed := trim value
  if trimmed.isEmpty then .error .empty
  else if trimmed.toList.head? = some '-' then .error .negativeNotAllowed
  else do
    let (whole, fraction) ← balanceParts scale trimmed.toList
    parseU128 (normalizedWhole whole ++ fraction ++
      List.replicate (scale.toNat - fraction.length) '0')

/-! ## Rescaling -/

inductive ManualAssetAmountRescaleError
  | scaleDecreaseNotAllowed (source target : UInt8)
  | overflow
  deriving DecidableEq, Repr

/-- `10_u128.checked_pow`. -/
def checkedPowTen (exponent : ℕ) : Option ℕ :=
  if 10 ^ exponent ≤ u128Max then some (10 ^ exponent) else none

/-- `checked_mul` on amounts. -/
def checkedMul (amount : UnsignedAmount) (multiplier : ℕ) : Option UnsignedAmount :=
  if fits : amount.value * multiplier ≤ u128Max then some ⟨amount.value * multiplier, fits⟩
  else none

/-- `rescale_manual_asset_amount`. -/
def rescaleManualAssetAmount (amount : UnsignedAmount)
    (fromScale toScale : ManualAssetDisplayScale) :
    Except ManualAssetAmountRescaleError UnsignedAmount :=
  if toScale < fromScale then .error (.scaleDecreaseNotAllowed fromScale toScale)
  else
    match checkedPowTen (toScale.toNat - fromScale.toNat) with
    | none => .error .overflow
    | some multiplier =>
      match checkedMul amount multiplier with
      | none => .error .overflow
      | some rescaled => .ok rescaled

/-- `parse_at_scale`. -/
def ValidatedManualAssetBalanceLiteral.parseAtScale (literal : ValidatedManualAssetBalanceLiteral)
    (scale : ManualAssetDisplayScale) : Except ManualAssetBalanceError UnsignedAmount := do
  let enteredScale := literal.enteredFractionalDigits
  let baseAmount ← ValidatedManualAssetBalance.parse literal.trimmed enteredScale
  match rescaleManualAssetAmount baseAmount enteredScale scale with
  | .ok value => return value
  | .error (.scaleDecreaseNotAllowed _ _) =>
    throw (.tooManyFractionalDigits scale literal.enteredFractionalDigits.toNat)
  | .error .overflow => throw .overflow

/-! ## What a literal stands for -/

/-- The number of a decimal literal: digits around a point, where one side may be missing. -/
def literalValue (text : List Char) : Option ℚ :=
  match SplitText.splitOnce '.' text with
  | none => DecimalText.readUnsigned text
  | some (whole, fraction) =>
    if whole = [] ∧ fraction = [] then none
    else
      DecimalText.readUnsigned ((if whole = [] then ['0'] else whole) ++ '.' ::
        if fraction = [] then ['0'] else fraction)

variable {text whole fraction : List Char} {limit : UInt8} {amount rescaled : UnsignedAmount}
  {scale fromScale toScale : ManualAssetDisplayScale}

/-- The parts that are accepted: digits, not missing on both sides, and not too many. -/
structure IsParts (limit : UInt8) (text whole fraction : List Char) : Prop where
  joined : text = whole ∧ fraction = [] ∨ text = whole ++ '.' :: fraction
  wholeDigits : ∀ character ∈ whole, character.isDigit = true
  fractionDigits : ∀ character ∈ fraction, character.isDigit = true
  short : fraction.length ≤ limit.toNat
  notBlank : whole ≠ [] ∨ fraction ≠ []

theorem point_not_mem (digits : ∀ character ∈ text, character.isDigit = true) : '.' ∉ text := by
  intro member
  have digit := digits '.' member
  revert digit
  decide

theorem isParts_of_balanceParts (parsed : balanceParts limit text = .ok (whole, fraction)) :
    IsParts limit text whole fraction := by
  unfold balanceParts at parsed
  cases split : SplitText.splitOnce '.' text with
  | none =>
    simp only [split, Option.getD_none] at parsed
    split_ifs at parsed with point digits noDigits long blank
    obtain ⟨rfl, rfl⟩ := Prod.mk.inj (Except.ok.inj parsed)
    refine ⟨.inl ⟨rfl, rfl⟩, ?_, nofun, Nat.zero_le _, .inl ?_⟩
    · exact List.all_eq_true.mp (by simpa using digits)
    · simpa using blank
  | some parts =>
    obtain ⟨before, after⟩ := parts
    simp only [split, Option.getD_some] at parsed
    split_ifs at parsed with point digits afterDigits long blank
    obtain ⟨rfl, rfl⟩ := Prod.mk.inj (Except.ok.inj parsed)
    refine ⟨.inr (SplitText.splitOnce_eq_some_iff.mp split).1, ?_, ?_, Nat.not_lt.mp long, ?_⟩
    · exact List.all_eq_true.mp (by simpa using digits)
    · exact List.all_eq_true.mp (by simpa using afterDigits)
    · by_contra both
      simp only [not_or, not_not] at both
      exact blank (by simp [both.1, both.2])

theorem balanceParts_of_isParts (parts : IsParts limit text whole fraction) :
    balanceParts limit text = .ok (whole, fraction) := by
  have wholeAll : whole.all Char.isDigit = true := List.all_eq_true.mpr parts.wholeDigits
  have fractionAll : fraction.all Char.isDigit = true := List.all_eq_true.mpr parts.fractionDigits
  have noPoint : fraction.contains '.' = false := by
    simpa using point_not_mem parts.fractionDigits
  have blank : ¬(whole.isEmpty && fraction.isEmpty) = true := by
    simpa using fun emptyWhole => parts.notBlank.resolve_left (not_not.mpr emptyWhole)
  have short : ¬limit.toNat < fraction.length := Nat.not_lt.mpr parts.short
  unfold balanceParts
  rcases parts.joined with ⟨rfl, rfl⟩ | rfl
  · rw [SplitText.splitOnce_eq_none_iff.mpr (point_not_mem parts.wholeDigits)]
    simp only [Option.getD_none, noPoint, wholeAll, fractionAll, short, blank, if_false,
      Bool.not_true, Bool.false_eq_true]
  · rw [SplitText.splitOnce_append_cons fraction (point_not_mem parts.wholeDigits)]
    simp only [Option.getD_some, noPoint, wholeAll, fractionAll, short, blank, if_false,
      Bool.not_true, Bool.false_eq_true]

theorem IsParts.ne_nil (parts : IsParts limit text whole fraction) : text ≠ [] := by
  rcases parts.joined with ⟨rfl, rfl⟩ | rfl
  · exact parts.notBlank.resolve_right (not_not.mpr rfl)
  · exact List.append_ne_nil_of_right_ne_nil _ (List.cons_ne_nil _ _)

theorem IsParts.literalValue (parts : IsParts limit text whole fraction) :
    literalValue text =
      some ((Nat.ofDigitChars 10 (normalizedWhole whole ++ fraction) 0 : ℚ) /
        10 ^ fraction.length) := by
  unfold Accounts.literalValue
  rcases parts.joined with ⟨rfl, rfl⟩ | rfl
  · have present : text ≠ [] := parts.notBlank.resolve_right (not_not.mpr rfl)
    rw [SplitText.splitOnce_eq_none_iff.mpr (point_not_mem parts.wholeDigits)]
    have kept : normalizedWhole text = text := by
      simpa [normalizedWhole] using fun empty => absurd empty present
    simp only
    rw [DecimalText.readUnsigned_of_digits ⟨present, parts.wholeDigits⟩, kept, List.append_nil,
      List.length_nil, pow_zero, div_one]
  · have before : DecimalText.Digits (if whole = [] then ['0'] else whole) := by
      split
      · exact DecimalText.digits_toDigits 0
      · next present => exact ⟨present, parts.wholeDigits⟩
    have same : (if whole = [] then ['0'] else whole) = normalizedWhole whole := by
      simp only [normalizedWhole, List.isEmpty_iff]
    rw [SplitText.splitOnce_append_cons fraction (point_not_mem parts.wholeDigits)]
    simp only
    rw [if_neg (fun both => parts.notBlank.elim (· both.1) (· both.2)), same]
    rw [same] at before
    by_cases missing : fraction = []
    · subst missing
      have zero : DecimalText.Digits ['0'] := DecimalText.digits_toDigits 0
      rw [if_pos rfl, DecimalText.readUnsigned_point before zero, Nat.ofDigitChars_append,
        List.append_nil]
      simp [Nat.ofDigitChars_cons, Nat.ofDigitChars_nil]
    · rw [if_neg missing,
        DecimalText.readUnsigned_point before ⟨missing, parts.fractionDigits⟩]

/-! ## Parsing at a scale -/

theorem parseU128_eq_ok {digits : List Char} :
    parseU128 digits = .ok amount ↔ amount.value = Nat.ofDigitChars 10 digits 0 := by
  unfold parseU128
  constructor
  · intro parsed
    split at parsed
    · obtain rfl := Except.ok.inj parsed
      rfl
    · cases parsed
  · intro spelled
    have fits : Nat.ofDigitChars 10 digits 0 ≤ u128Max := spelled ▸ amount.fits
    rw [dif_pos fits]
    exact congrArg Except.ok (UnsignedAmount.ext spelled.symm)

theorem parse_eq_ok {value : String} :
    ValidatedManualAssetBalance.parse value scale = .ok amount ↔
      (trim value).isEmpty = false ∧ (trim value).toList.head? ≠ some '-' ∧
        ∃ whole fraction, balanceParts scale (trim value).toList = .ok (whole, fraction) ∧
          amount.value = Nat.ofDigitChars 10 (normalizedWhole whole ++ fraction ++
            List.replicate (scale.toNat - fraction.length) '0') 0 := by
  unfold ValidatedManualAssetBalance.parse
  simp only
  split_ifs with empty negative
  · simp [empty]
  · simp [negative]
  · have present : (trim value).isEmpty = false := Bool.eq_false_of_not_eq_true empty
    simp only [present, ne_eq, negative, not_false_eq_true, true_and]
    rw [bind_eq_ok]
    constructor
    · rintro ⟨⟨whole, fraction⟩, parsed, spelled⟩
      exact ⟨whole, fraction, parsed, parseU128_eq_ok.mp spelled⟩
    · rintro ⟨whole, fraction, parsed, spelled⟩
      exact ⟨(whole, fraction), parsed, parseU128_eq_ok.mpr spelled⟩

theorem ofDigitChars_append_zeros (digits : List Char) (count : ℕ) :
    Nat.ofDigitChars 10 (digits ++ List.replicate count '0') 0 =
      10 ^ count * Nat.ofDigitChars 10 digits 0 := by
  rw [Nat.ofDigitChars_append, Nat.ofDigitChars_replicate_zero]

theorem literalValue_of_parse {value : String}
    (parsed : ValidatedManualAssetBalance.parse value scale = .ok amount) :
    literalValue (trim value).toList = some ((amount.value : ℚ) / 10 ^ scale.toNat) := by
  obtain ⟨_, _, whole, fraction, split, spelled⟩ := parse_eq_ok.mp parsed
  have parts := isParts_of_balanceParts split
  have scaled : (10 : ℚ) ^ scale.toNat =
      10 ^ (scale.toNat - fraction.length) * 10 ^ fraction.length := by
    rw [← pow_add, Nat.sub_add_cancel parts.short]
  have nonzero : (10 : ℚ) ^ (scale.toNat - fraction.length) ≠ 0 := pow_ne_zero _ (by norm_num)
  rw [parts.literalValue, spelled, ofDigitChars_append_zeros, scaled, Nat.cast_mul, Nat.cast_pow,
    Nat.cast_ofNat, mul_div_mul_left _ _ nonzero]

/-- Two amounts at two scales are worth the same. -/
def SameValue (amount : UnsignedAmount) (fromScale : ManualAssetDisplayScale)
    (rescaled : UnsignedAmount) (toScale : ManualAssetDisplayScale) : Prop :=
  (rescaled.value : ℚ) / 10 ^ toScale.toNat = (amount.value : ℚ) / 10 ^ fromScale.toNat

theorem sameValue_iff : SameValue amount fromScale rescaled toScale ↔
    rescaled.value * 10 ^ fromScale.toNat = amount.value * 10 ^ toScale.toNat := by
  have source : (10 : ℚ) ^ fromScale.toNat ≠ 0 := pow_ne_zero _ (by norm_num)
  have target : (10 : ℚ) ^ toScale.toNat ≠ 0 := pow_ne_zero _ (by norm_num)
  rw [SameValue, div_eq_div_iff target source]
  exact_mod_cast Iff.rfl

theorem checkedPowTen_eq_some {exponent multiplier : ℕ} :
    checkedPowTen exponent = some multiplier ↔
      multiplier = 10 ^ exponent ∧ 10 ^ exponent ≤ u128Max := by
  unfold checkedPowTen
  split <;> simp_all [eq_comm]

theorem checkedMul_eq_some {multiplier : ℕ} :
    checkedMul amount multiplier = some rescaled ↔ rescaled.value = amount.value * multiplier := by
  unfold checkedMul
  constructor
  · intro multiplied
    split at multiplied
    · obtain rfl := Option.some.inj multiplied
      rfl
    · cases multiplied
  · intro product
    rw [dif_pos (product ▸ rescaled.fits)]
    exact congrArg some (UnsignedAmount.ext product.symm)

theorem rescaleManualAssetAmount_eq_ok :
    rescaleManualAssetAmount amount fromScale toScale = .ok rescaled ↔
      fromScale ≤ toScale ∧ 10 ^ (toScale.toNat - fromScale.toNat) ≤ u128Max ∧
        SameValue amount fromScale rescaled toScale := by
  unfold rescaleManualAssetAmount
  by_cases fewer : toScale < fromScale
  · rw [if_pos fewer]
    exact iff_of_false nofun fun both => absurd fewer (UInt8.not_lt.mpr both.1)
  · have more : fromScale ≤ toScale := UInt8.not_lt.mp fewer
    have split : (10 : ℕ) ^ toScale.toNat =
        10 ^ (toScale.toNat - fromScale.toNat) * 10 ^ fromScale.toNat := by
      rw [← pow_add, Nat.sub_add_cancel (UInt8.le_iff_toNat_le.mp more)]
    have same : SameValue amount fromScale rescaled toScale ↔
        rescaled.value = amount.value * 10 ^ (toScale.toNat - fromScale.toNat) := by
      rw [sameValue_iff, split, ← Nat.mul_assoc]
      exact Nat.mul_left_inj (pow_ne_zero _ (by norm_num))
    rw [if_neg fewer, same]
    cases raised : checkedPowTen (toScale.toNat - fromScale.toNat) with
    | none =>
      refine iff_of_false nofun fun both => ?_
      rw [checkedPowTen_eq_some.mpr ⟨rfl, both.2.1⟩] at raised
      cases raised
    | some multiplier =>
      obtain ⟨rfl, fits⟩ := checkedPowTen_eq_some.mp raised
      simp only [more, fits, true_and]
      rw [← checkedMul_eq_some]
      cases checkedMul amount (10 ^ (toScale.toNat - fromScale.toNat)) with
      | none => exact iff_of_false nofun nofun
      | some product => simp

theorem parseAtScale_eq_ok {value : String} {literal : ValidatedManualAssetBalanceLiteral}
    (validated : ValidatedManualAssetBalanceLiteral.parse value = .ok literal)
    (parsed : literal.parseAtScale scale = .ok amount) :
    literalValue (trim value).toList = some ((amount.value : ℚ) / 10 ^ scale.toNat) := by
  have trimmed : literal.trimmed = trim value := by
    unfold ValidatedManualAssetBalanceLiteral.parse at validated
    simp only at validated
    split_ifs at validated
    obtain ⟨_, _, rest⟩ := bind_eq_ok.mp validated
    obtain ⟨_, _, made⟩ := bind_eq_ok.mp rest
    rw [← Except.ok.inj made]
  obtain ⟨base, baseParsed, finished⟩ := bind_eq_ok.mp parsed
  rw [trimmed] at baseParsed
  have spelled := literalValue_of_parse baseParsed
  rw [trim_trim] at spelled
  cases raised : rescaleManualAssetAmount base literal.enteredFractionalDigits scale with
  | ok value =>
    rw [raised] at finished
    obtain rfl := Except.ok.inj finished
    rw [spelled, (rescaleManualAssetAmount_eq_ok.mp raised).2.2]
  | error failure =>
    rw [raised] at finished
    cases failure <;> cases finished

/-! ## Reading back the fixed form -/

section Fixed

open Export

theorem isParts_formatUnsignedAmountFixed (amount : UnsignedAmount)
    (scale limit : ManualAssetDisplayScale) (places : scale ≤ limit) :
    ∃ whole fraction,
      IsParts limit (formatUnsignedAmountFixed amount scale.toNat).toList whole fraction ∧
      whole ≠ [] ∧ fraction.length = scale.toNat ∧
      Nat.ofDigitChars 10 (whole ++ fraction) 0 = amount.value := by
  have fits := UInt8.le_iff_toNat_le.mp places
  rcases toList_formatUnsignedAmountFixed amount scale.toNat with
    ⟨text, none⟩ | ⟨whole, fraction, text, before, after, length, spelled⟩
  · have digits := DecimalText.digits_toDigits amount.value
    refine ⟨Nat.toDigits 10 amount.value, [], ?_, digits.1, none.symm, ?_⟩
    · rw [text]
      exact ⟨.inl ⟨rfl, rfl⟩, digits.2, nofun, Nat.zero_le _, .inl digits.1⟩
    · rw [List.append_nil, Nat.ofDigitChars_ten_toDigits]
  · refine ⟨whole, fraction, ?_, before.1, length, spelled⟩
    rw [text]
    exact ⟨.inr rfl, before.2, after.2, length.trans_le fits, .inl before.1⟩

theorem isWhiteSpace_of_isDigit {character : Char} (digit : character.isDigit = true) :
    isWhiteSpace character = false := by
  simp only [Char.isDigit, Bool.and_eq_true, decide_eq_true_eq, ge_iff_le, UInt32.le_iff_toNat_le]
    at digit
  have low : 48 ≤ character.toNat := digit.1
  have high : character.toNat ≤ 57 := digit.2
  simp only [isWhiteSpace, Bool.or_eq_false_iff, Bool.and_eq_false_iff, decide_eq_false_iff_not,
    beq_eq_false_iff_ne, ne_eq]
  omega

theorem IsParts.plain (parts : IsParts limit text whole fraction) :
    trim (String.ofList text) = String.ofList text ∧ text.head? ≠ some '-' := by
  have solid : ∀ character ∈ text, isWhiteSpace character = false ∧ character ≠ '-' := by
    have digits (character : Char) (digit : character.isDigit = true) :
        isWhiteSpace character = false ∧ character ≠ '-' := by
      refine ⟨isWhiteSpace_of_isDigit digit, ?_⟩
      intro minus
      subst minus
      revert digit
      decide
    intro character member
    rcases parts.joined with ⟨rfl, -⟩ | rfl
    · exact digits character (parts.wholeDigits character member)
    · rcases List.mem_append.mp member with before | after
      · exact digits character (parts.wholeDigits character before)
      · rcases List.mem_cons.mp after with rfl | after
        · exact ⟨rfl, by decide⟩
        · exact digits character (parts.fractionDigits character after)
  refine ⟨trim_eq_self fun character member => (solid character member).1, ?_⟩
  intro minus
  exact (solid '-' (List.mem_of_mem_head? minus)).2 rfl

theorem parse_formatUnsignedAmountFixed (amount : UnsignedAmount)
    (scale : ManualAssetDisplayScale) :
    ValidatedManualAssetBalance.parse (formatUnsignedAmountFixed amount scale.toNat) scale =
      .ok amount := by
  obtain ⟨whole, fraction, parts, present, length, spelled⟩ :=
    isParts_formatUnsignedAmountFixed amount scale scale (UInt8.le_refl scale)
  obtain ⟨trimmed, plain⟩ := parts.plain
  rw [String.ofList_toList] at trimmed
  have kept : normalizedWhole whole = whole := by
    simpa [normalizedWhole] using fun empty => absurd empty present
  refine parse_eq_ok.mpr ⟨?_, ?_, whole, fraction, ?_, ?_⟩
  · rw [trimmed, ← Bool.not_eq_true, String.isEmpty_iff, ← String.toList_eq_nil_iff]
    exact parts.ne_nil
  · rw [trimmed]
    exact plain
  · rw [trimmed]
    exact balanceParts_of_isParts parts
  · rw [kept, length, Nat.sub_self, List.replicate_zero, List.append_nil, spelled]

theorem utf8Size_of_isDigit {character : Char} (digit : character.isDigit = true) :
    character.utf8Size = 1 := by
  simp only [Char.isDigit, Bool.and_eq_true, decide_eq_true_eq, UInt32.le_iff_toNat_le] at digit
  have high : character.val.toNat ≤ 57 := digit.2
  rw [Char.utf8Size_eq_one_iff, UInt32.le_iff_toNat_le]
  exact high.trans (by decide)

theorem utf8Len_of_digits {digits : List Char}
    (all : ∀ character ∈ digits, character.isDigit = true) :
    String.utf8Len digits = digits.length := by
  induction digits with
  | nil => rfl
  | cons first rest ih =>
    rw [String.utf8Len_cons, utf8Size_of_isDigit (all _ List.mem_cons_self),
      ih fun other member => all other (List.mem_cons_of_mem _ member), List.length_cons]

theorem IsParts.utf8ByteSize (parts : IsParts limit text whole fraction) :
    (String.ofList text).utf8ByteSize = text.length := by
  have point : '.'.utf8Size = 1 := rfl
  rw [String.utf8ByteSize_ofList]
  rcases parts.joined with ⟨rfl, -⟩ | rfl
  · exact utf8Len_of_digits parts.wholeDigits
  · rw [String.utf8Len_append, String.utf8Len_cons, utf8Len_of_digits parts.wholeDigits,
      utf8Len_of_digits parts.fractionDigits, point, List.length_append, List.length_cons]

theorem length_formatUnsignedAmountFixed_le (amount : UnsignedAmount) {places : ℕ}
    (range : places ≤ 18) : (formatUnsignedAmountFixed amount places).toList.length ≤ 40 := by
  have raw : (Nat.toDigits 10 amount.value).length ≤ 39 := by
    rw [Nat.length_toDigits_le_iff (by decide) (by decide)]
    exact amount.fits.trans_lt (by decide)
  unfold formatUnsignedAmountFixed
  rw [Nat.toList_repr]
  split
  · rw [Nat.toList_repr]
    omega
  · dsimp only
    split
    · rw [String.toList_ofList]
      simp only [List.length_cons, List.length_append, List.length_replicate]
      omega
    · rw [String.toList_ofList]
      simp only [List.length_append, List.length_cons, List.length_take, List.length_drop]
      omega

theorem parseAtScale_formatUnsignedAmountFixed (amount : UnsignedAmount)
    {scale : ManualAssetDisplayScale} (range : scale ≤ manualAssetBalanceMaxFractionalDigits) :
    ∃ literal,
      ValidatedManualAssetBalanceLiteral.parse (formatUnsignedAmountFixed amount scale.toNat) =
        .ok literal ∧
      literal.parseAtScale scale = .ok amount := by
  obtain ⟨whole, fraction, parts, present, length, spelled⟩ :=
    isParts_formatUnsignedAmountFixed amount scale manualAssetBalanceMaxFractionalDigits range
  obtain ⟨trimmed, plain⟩ := parts.plain
  have size := parts.utf8ByteSize
  have short := length_formatUnsignedAmountFixed_le amount (UInt8.le_iff_toNat_le.mp range)
  rw [String.ofList_toList] at trimmed size
  have kept : normalizedWhole whole = whole := by
    simpa [normalizedWhole] using fun empty => absurd empty present
  have nonempty : ¬(formatUnsignedAmountFixed amount scale.toNat).isEmpty = true := by
    rw [String.isEmpty_iff, ← String.toList_eq_nil_iff]
    exact parts.ne_nil
  refine ⟨⟨formatUnsignedAmountFixed amount scale.toNat, normalizedWhole whole ++ fraction, scale⟩,
    ?_, ?_⟩
  · have fits : ¬manualAssetBalanceLiteralMaxLength <
        (formatUnsignedAmountFixed amount scale.toNat).utf8ByteSize := by
      rw [size]
      exact Nat.not_lt.mpr (short.trans (by decide))
    unfold ValidatedManualAssetBalanceLiteral.parse
    simp only [trimmed]
    rw [if_neg nonempty, if_neg fits, if_neg plain, bind_eq_ok]
    refine ⟨(whole, fraction), balanceParts_of_isParts parts, ?_⟩
    simp only
    rw [bind_eq_ok]
    refine ⟨amount, parseU128_eq_ok.mpr (by rw [kept, spelled]), ?_⟩
    rw [length, UInt8.ofNat_toNat]
    rfl
  · have unchanged : rescaleManualAssetAmount amount scale scale = .ok amount := by
      rw [rescaleManualAssetAmount_eq_ok, Nat.sub_self]
      exact ⟨UInt8.le_refl scale, by decide, rfl⟩
    unfold ValidatedManualAssetBalanceLiteral.parseAtScale
    simp only
    rw [parse_formatUnsignedAmountFixed, bind_eq_ok]
    refine ⟨amount, rfl, ?_⟩
    simp only [unchanged]
    rfl

end Fixed

end Bitgarth.Accounts
