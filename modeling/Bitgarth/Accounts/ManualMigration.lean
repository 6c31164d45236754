import Bitgarth.Accounts.ManualBalances

/-! # Migrating manual accounts to catalogued assets

When a manual account takes over an asset of the catalog, its balance assertions move to the scale
of that asset: all of them without loss, or none. `plan_autoRescale_iff` says when, and the
amounts keep their values (`Bitgarth.Accounts.manualAmounts_survive`).
-/

namespace Bitgarth.Accounts

open Amounts Text Export

/-- `ManualMigrationAssertion`. -/
structure ManualMigrationAssertion (AssertionId : Type) where
  assertionId : AssertionId
  assertedOn : ℤ
  amount : UnsignedAmount
  sourceScale : ManualAssetDisplayScale
  enteredBalanceText : Option String
  note : Option String
  deriving DecidableEq, Repr

/-- `ManualMigrationPlannedAssertion`. -/
structure ManualMigrationPlannedAssertion (AssertionId : Type) where
  assertionId : AssertionId
  assertedOn : ℤ
  amount : UnsignedAmount
  enteredBalanceText : Option String
  note : Option String
  deriving DecidableEq, Repr

/-- `CoinGeckoManualMigrationAccount`. -/
structure CoinGeckoManualMigrationAccount (AssertionId : Type) where
  coingeckoId : String
  networkId : String
  decimalPrecision : ManualAssetDisplayScale
  coingeckoPlatformId : Option String
  providerPlatformAssetRef : Option String
  assertions : List (ManualMigrationAssertion AssertionId)
  deriving DecidableEq, Repr

/-- The part of `UnsyncedAssetInstance` that a plan reads. -/
structure UnsyncedAssetInstance where
  assetId : String
  networkId : String
  decimalPrecision : ManualAssetDisplayScale
  coingeckoId : String
  deriving DecidableEq, Repr

/-- `CoinGeckoManualMigrationCandidate`. -/
structure CoinGeckoManualMigrationCandidate where
  target : UnsyncedAssetInstance
  coingeckoPlatformId : Option String
  providerPlatformAssetRef : Option String
  deriving DecidableEq, Repr

/-- `CoinGeckoManualMigrationPlan`. -/
inductive CoinGeckoManualMigrationPlan (AssertionId : Type)
  | noop (target : UnsyncedAssetInstance) (assertionCount : ℕ)
  | autoRescale (target : UnsyncedAssetInstance)
      (assertions : List (ManualMigrationPlannedAssertion AssertionId))
  | reviewRequired (target : UnsyncedAssetInstance) (assertionCount : ℕ)
  deriving DecidableEq, Repr

/-- `rescale_lossless`. -/
def rescaleLossless (amount : UnsignedAmount) (fromScale toScale : ManualAssetDisplayScale) :
    Option UnsignedAmount :=
  if amount.value = 0 then some .zero
  else if fromScale ≤ toScale then (rescaleManualAssetAmount amount fromScale toScale).toOption
  else
    match checkedPowTen (fromScale.toNat - toScale.toNat) with
    | none => none
    | some divisor =>
      if amount.value % divisor ≠ 0 then none
      else some ⟨amount.value / divisor, (Nat.div_le_self _ _).trans amount.fits⟩

/-- `coingecko_candidate_matches`. -/
def coingeckoCandidateMatches {AssertionId : Type}
    (account : CoinGeckoManualMigrationAccount AssertionId)
    (candidate : CoinGeckoManualMigrationCandidate) : Bool :=
  account.coingeckoId = candidate.target.coingeckoId &&
    account.networkId = candidate.target.networkId &&
    account.coingeckoPlatformId = candidate.coingeckoPlatformId &&
    match account.providerPlatformAssetRef, candidate.providerPlatformAssetRef with
    | some accountRef, some candidateRef =>
      toAsciiLowercase (trim accountRef) = toAsciiLowercase (trim candidateRef)
    | none, none => true
    | _, _ => false

section Plan

variable {AssertionId : Type}

/-- The loop over the assertions: none, where one of them cannot be rescaled. -/
def planAssertions (fromScale toScale : ManualAssetDisplayScale) :
    List (ManualMigrationAssertion AssertionId) →
      Option (List (ManualMigrationPlannedAssertion AssertionId))
  | [] => some []
  | assertion :: rest => do
      let amount ← rescaleLossless assertion.amount fromScale toScale
      let planned ← planAssertions fromScale toScale rest
      return {
        assertionId := assertion.assertionId
        assertedOn := assertion.assertedOn
        amount
        enteredBalanceText := assertion.enteredBalanceText
        note := assertion.note } :: planned

/-- `plan_coingecko_manual_migration`. -/
def planCoingeckoManualMigration (account : CoinGeckoManualMigrationAccount AssertionId)
    (candidate : CoinGeckoManualMigrationCandidate) :
    Option (CoinGeckoManualMigrationPlan AssertionId) :=
  if !coingeckoCandidateMatches account candidate then none
  else if account.decimalPrecision = candidate.target.decimalPrecision then
    some (.noop candidate.target account.assertions.length)
  else
    match planAssertions account.decimalPrecision candidate.target.decimalPrecision
        account.assertions with
    | none => some (.reviewRequired candidate.target account.assertions.length)
    | some planned => some (.autoRescale candidate.target planned)

end Plan

/-! ## Rescaling without loss -/

variable {amount rescaled : UnsignedAmount} {fromScale toScale : ManualAssetDisplayScale}

theorem lt_of_checkedPowTen_eq_none {exponent : ℕ} (overflows : checkedPowTen exponent = none)
    (amount : UnsignedAmount) : amount.value < 10 ^ exponent := by
  unfold checkedPowTen at overflows
  split at overflows
  · cases overflows
  · next wide => exact amount.fits.trans_lt (Nat.lt_of_not_le wide)

theorem rescaleLossless_eq_some :
    rescaleLossless amount fromScale toScale = some rescaled ↔
      SameValue amount fromScale rescaled toScale := by
  unfold rescaleLossless
  by_cases zero : amount.value = 0
  · rw [if_pos zero, sameValue_iff, zero, Nat.zero_mul, Option.some.injEq]
    have positive : (10 : ℕ) ^ fromScale.toNat ≠ 0 := pow_ne_zero _ (by decide)
    rw [Nat.mul_eq_zero, or_iff_left positive]
    exact ⟨fun same => same ▸ rfl, fun same => UnsignedAmount.ext same.symm⟩
  rw [if_neg zero]
  by_cases more : fromScale ≤ toScale
  · rw [if_pos more, Fallible.toOption_eq_some, rescaleManualAssetAmount_eq_ok]
    refine ⟨fun raised => raised.2.2, fun same => ⟨more, ?_, same⟩⟩
    -- the amount is at least one unit, so the power is at most the rescaled amount
    have split : (10 : ℕ) ^ toScale.toNat =
        10 ^ (toScale.toNat - fromScale.toNat) * 10 ^ fromScale.toNat := by
      rw [← pow_add, Nat.sub_add_cancel (UInt8.le_iff_toNat_le.mp more)]
    have product := sameValue_iff.mp same
    rw [split, ← Nat.mul_assoc] at product
    have whole := Nat.eq_of_mul_eq_mul_right (Nat.pow_pos (by decide)) product
    calc 10 ^ (toScale.toNat - fromScale.toNat)
        ≤ amount.value * 10 ^ (toScale.toNat - fromScale.toNat) :=
          Nat.le_mul_of_pos_left _ (Nat.pos_of_ne_zero zero)
      _ = rescaled.value := whole.symm
      _ ≤ u128Max := rescaled.fits
  · rw [if_neg more]
    have fewer : toScale.toNat ≤ fromScale.toNat :=
      (UInt8.lt_iff_toNat_lt.mp (UInt8.not_le.mp more)).le
    have split : (10 : ℕ) ^ fromScale.toNat =
        10 ^ (fromScale.toNat - toScale.toNat) * 10 ^ toScale.toNat := by
      rw [← pow_add, Nat.sub_add_cancel fewer]
    have same : SameValue amount fromScale rescaled toScale ↔
        rescaled.value * 10 ^ (fromScale.toNat - toScale.toNat) = amount.value := by
      rw [sameValue_iff, split, ← Nat.mul_assoc]
      exact Nat.mul_left_inj (pow_ne_zero _ (by decide))
    rw [same]
    cases raised : checkedPowTen (fromScale.toNat - toScale.toNat) with
    | none =>
      have small := lt_of_checkedPowTen_eq_none raised amount
      refine iff_of_false nofun fun product => ?_
      rcases Nat.eq_zero_or_pos rescaled.value with none | some
      · rw [none, Nat.zero_mul] at product
        exact zero product.symm
      · have large := Nat.le_mul_of_pos_left (10 ^ (fromScale.toNat - toScale.toNat)) some
        omega
    | some divisor =>
      obtain ⟨rfl, -⟩ := checkedPowTen_eq_some.mp raised
      have positive : 0 < 10 ^ (fromScale.toNat - toScale.toNat) := Nat.pow_pos (by decide)
      simp only
      constructor
      · intro divided
        split at divided
        · cases divided
        · next exact' =>
            obtain rfl := Option.some.inj divided
            exact Nat.div_mul_cancel (Nat.dvd_of_mod_eq_zero (not_not.mp exact'))
      · intro product
        have divides : amount.value % 10 ^ (fromScale.toNat - toScale.toNat) = 0 := by
          rw [← product, Nat.mul_mod_left]
        rw [if_neg (not_not.mpr divides)]
        refine congrArg some (UnsignedAmount.ext ?_)
        change amount.value / _ = _
        rw [← product, Nat.mul_div_cancel _ positive]

/-! ## Planning a whole account -/

section Planned

variable {AssertionId : Type} {assertions : List (ManualMigrationAssertion AssertionId)}
  {planned : List (ManualMigrationPlannedAssertion AssertionId)}

/-- A planned assertion is the stored one, worth the same at the new scale. -/
structure Moves (fromScale toScale : ManualAssetDisplayScale)
    (assertion : ManualMigrationAssertion AssertionId)
    (planned : ManualMigrationPlannedAssertion AssertionId) : Prop where
  sameId : planned.assertionId = assertion.assertionId
  sameDate : planned.assertedOn = assertion.assertedOn
  sameText : planned.enteredBalanceText = assertion.enteredBalanceText
  sameNote : planned.note = assertion.note
  sameValue : SameValue assertion.amount fromScale planned.amount toScale

/-- Every amount has an amount worth the same at the new scale. -/
def AllRescale (fromScale toScale : ManualAssetDisplayScale)
    (assertions : List (ManualMigrationAssertion AssertionId)) : Prop :=
  ∀ assertion ∈ assertions, ∃ rescaled, SameValue assertion.amount fromScale rescaled toScale

theorem planAssertions_eq_some :
    planAssertions fromScale toScale assertions = some planned ↔
      List.Forall₂ (Moves fromScale toScale) assertions planned := by
  induction assertions generalizing planned with
  | nil => simp [planAssertions, eq_comm]
  | cons assertion rest ih =>
    constructor
    · intro made
      obtain ⟨amount, rescaled, taken⟩ := Option.bind_eq_some_iff.mp made
      obtain ⟨others, restPlanned, made⟩ := Option.bind_eq_some_iff.mp taken
      obtain rfl := Option.some.inj made
      exact .cons ⟨rfl, rfl, rfl, rfl, rescaleLossless_eq_some.mp rescaled⟩ (ih.mp restPlanned)
    · intro moved
      cases moved with
      | @cons _ first _ others head tail =>
        unfold planAssertions
        rw [rescaleLossless_eq_some.mpr head.sameValue, ih.mpr tail]
        obtain ⟨id, date, text, note, -⟩ := head
        cases first
        cases id
        cases date
        cases text
        cases note
        rfl

theorem exists_moves_iff :
    (∃ planned, List.Forall₂ (Moves fromScale toScale) assertions planned) ↔
      AllRescale fromScale toScale assertions := by
  constructor
  · rintro ⟨planned, moved⟩
    induction moved with
    | nil => exact fun _ member => absurd member List.not_mem_nil
    | cons head _ ih => exact List.forall_mem_cons.mpr ⟨⟨_, head.sameValue⟩, ih⟩
  · intro all
    induction assertions with
    | nil => exact ⟨[], .nil⟩
    | cons assertion rest ih =>
      obtain ⟨⟨amount, same⟩, others⟩ := List.forall_mem_cons.mp all
      obtain ⟨planned, moved⟩ := ih others
      exact ⟨⟨assertion.assertionId, assertion.assertedOn, amount, assertion.enteredBalanceText,
        assertion.note⟩ :: planned, .cons ⟨rfl, rfl, rfl, rfl, same⟩ moved⟩

theorem exists_planAssertions_iff :
    (∃ planned, planAssertions fromScale toScale assertions = some planned) ↔
      AllRescale fromScale toScale assertions := by
  rw [← exists_moves_iff]
  exact exists_congr fun planned => planAssertions_eq_some

variable {account : CoinGeckoManualMigrationAccount AssertionId}
  {candidate : CoinGeckoManualMigrationCandidate}

theorem plan_eq_none (other : coingeckoCandidateMatches account candidate = false) :
    planCoingeckoManualMigration account candidate = none := by
  rw [planCoingeckoManualMigration, other]
  rfl

theorem plan_noop (matched : coingeckoCandidateMatches account candidate = true)
    (sameScale : account.decimalPrecision = candidate.target.decimalPrecision) :
    planCoingeckoManualMigration account candidate =
      some (.noop candidate.target account.assertions.length) := by
  rw [planCoingeckoManualMigration, matched]
  exact if_pos sameScale

theorem plan_of_ne (matched : coingeckoCandidateMatches account candidate = true)
    (otherScale : account.decimalPrecision ≠ candidate.target.decimalPrecision) :
    planCoingeckoManualMigration account candidate =
      match planAssertions account.decimalPrecision candidate.target.decimalPrecision
          account.assertions with
      | none => some (.reviewRequired candidate.target account.assertions.length)
      | some planned => some (.autoRescale candidate.target planned) := by
  rw [planCoingeckoManualMigration, matched]
  exact if_neg otherScale

theorem plan_autoRescale_iff (matched : coingeckoCandidateMatches account candidate = true)
    (otherScale : account.decimalPrecision ≠ candidate.target.decimalPrecision) :
    planCoingeckoManualMigration account candidate = some (.autoRescale candidate.target planned) ↔
      List.Forall₂ (Moves account.decimalPrecision candidate.target.decimalPrecision)
        account.assertions planned := by
  rw [plan_of_ne matched otherScale, ← planAssertions_eq_some]
  cases planAssertions account.decimalPrecision candidate.target.decimalPrecision
      account.assertions with
  | none => exact iff_of_false nofun nofun
  | some made => simp

theorem plan_reviewRequired_iff (matched : coingeckoCandidateMatches account candidate = true)
    (otherScale : account.decimalPrecision ≠ candidate.target.decimalPrecision) :
    planCoingeckoManualMigration account candidate =
        some (.reviewRequired candidate.target account.assertions.length) ↔
      ¬AllRescale account.decimalPrecision candidate.target.decimalPrecision
        account.assertions := by
  rw [plan_of_ne matched otherScale, ← exists_planAssertions_iff]
  cases planAssertions account.decimalPrecision candidate.target.decimalPrecision
      account.assertions with
  | none => simp
  | some made => simp

end Planned

/-- **Manual amounts keep their value.** The fixed form of an amount is read back at its scale, a
literal accepted at a scale is worth what its text stands for, and an account that matches a
candidate of another scale is rescaled by itself exactly if every amount has one worth the same
there, to those amounts. Otherwise it waits for a review, and an account of the same scale has
nothing to do. -/
theorem manualAmounts_survive {AssertionId : Type} (amount : UnsignedAmount)
    (scale : ManualAssetDisplayScale) (account : CoinGeckoManualMigrationAccount AssertionId)
    (candidate : CoinGeckoManualMigrationCandidate) :
    ValidatedManualAssetBalance.parse (formatUnsignedAmountFixed amount scale.toNat) scale =
      .ok amount ∧
    (scale ≤ manualAssetBalanceMaxFractionalDigits → ∃ literal,
      ValidatedManualAssetBalanceLiteral.parse (formatUnsignedAmountFixed amount scale.toNat) =
        .ok literal ∧
      literal.parseAtScale scale = .ok amount) ∧
    (∀ value literal, ValidatedManualAssetBalanceLiteral.parse value = .ok literal →
      literal.parseAtScale scale = .ok amount →
      literalValue (trim value).toList = some ((amount.value : ℚ) / 10 ^ scale.toNat)) ∧
    (coingeckoCandidateMatches account candidate = false →
      planCoingeckoManualMigration account candidate = none) ∧
    (coingeckoCandidateMatches account candidate = true →
      account.decimalPrecision = candidate.target.decimalPrecision →
      planCoingeckoManualMigration account candidate =
        some (.noop candidate.target account.assertions.length)) ∧
    (coingeckoCandidateMatches account candidate = true →
      account.decimalPrecision ≠ candidate.target.decimalPrecision →
      ((∃ planned, planCoingeckoManualMigration account candidate =
          some (.autoRescale candidate.target planned)) ↔
        AllRescale account.decimalPrecision candidate.target.decimalPrecision
          account.assertions) ∧
      (∀ planned, planCoingeckoManualMigration account candidate =
          some (.autoRescale candidate.target planned) →
        List.Forall₂ (Moves account.decimalPrecision candidate.target.decimalPrecision)
          account.assertions planned) ∧
      (¬AllRescale account.decimalPrecision candidate.target.decimalPrecision
          account.assertions →
        planCoingeckoManualMigration account candidate =
          some (.reviewRequired candidate.target account.assertions.length))) := by
  refine ⟨parse_formatUnsignedAmountFixed amount scale, ?_, ?_, plan_eq_none, plan_noop, ?_⟩
  · exact parseAtScale_formatUnsignedAmountFixed amount
  · intro value literal validated parsed
    exact parseAtScale_eq_ok validated parsed
  · intro matched otherScale
    refine ⟨?_, ?_, (plan_reviewRequired_iff matched otherScale).mpr⟩
    · rw [← exists_moves_iff]
      exact exists_congr fun planned => plan_autoRescale_iff matched otherScale
    · exact fun planned => (plan_autoRescale_iff matched otherScale).mp

/-! ## One account, two candidates -/

/-- An account at scale six with one balance of 516.420509. -/
def storedAccount : CoinGeckoManualMigrationAccount ℕ where
  coingeckoId := "tether"
  networkId := "liquid"
  decimalPrecision := 6
  coingeckoPlatformId := none
  providerPlatformAssetRef := none
  assertions := [⟨0, 20605, ⟨516420509, by decide⟩, 6, some "516.42050900", none⟩]

/-- The asset of that account in the catalog, at the given scale. -/
def catalogued (scale : ManualAssetDisplayScale) : CoinGeckoManualMigrationCandidate where
  target := ⟨"usdt", "liquid", scale, "tether"⟩
  coingeckoPlatformId := none
  providerPlatformAssetRef := none

theorem manualAmounts_survive_tether :
    (∃ literal, ValidatedManualAssetBalanceLiteral.parse
        (formatUnsignedAmountFixed ⟨51642050900, by decide⟩ (8 : UInt8).toNat) = .ok literal ∧
      literal.parseAtScale 8 = .ok ⟨51642050900, by decide⟩) ∧
    ∃ planned, planCoingeckoManualMigration storedAccount (catalogued 8) =
      some (.autoRescale (catalogued 8).target planned) := by
  obtain ⟨-, readBack, -, -, -, plans⟩ :=
    manualAmounts_survive ⟨51642050900, by decide⟩ 8 storedAccount (catalogued 8)
  refine ⟨readBack (by decide), (plans (by decide) (by decide)).1.mpr ?_⟩
  intro assertion member
  obtain rfl := List.mem_singleton.mp member
  exact ⟨⟨51642050900, by decide⟩, sameValue_iff.mpr (by decide)⟩

/-- An account at the scale of its candidate has every amount there already, and is not rescaled. -/
theorem not_rescaled_at_sameScale :
    ¬∀ (account : CoinGeckoManualMigrationAccount ℕ)
        (candidate : CoinGeckoManualMigrationCandidate),
      coingeckoCandidateMatches account candidate = true →
      ((∃ planned, planCoingeckoManualMigration account candidate =
          some (.autoRescale candidate.target planned)) ↔
        AllRescale account.decimalPrecision candidate.target.decimalPrecision
          account.assertions) := by
  intro rescales
  have all : AllRescale 6 6 storedAccount.assertions := by
    intro assertion _
    exact ⟨assertion.amount, rfl⟩
  obtain ⟨planned, made⟩ := (rescales storedAccount (catalogued 6) (by decide)).mpr all
  rw [plan_noop (by decide) rfl] at made
  cases made

end Bitgarth.Accounts
