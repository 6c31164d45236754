import Mathlib.Algebra.BigOperators.Group.List.Basic
import Bitgarth.Foundation.GroupedFold
import Bitgarth.Store.Tables

/-! # Totals of balances

The balances of an account's addresses add up to its balance, those of accounts to one total for
each asset and network. An unknown balance makes its total unknown, a sum that does not fit is an
error, and so is a balance of another asset or a canonical zero. A branch the source calls
unreachable ends here with an error of its own.
-/

namespace Bitgarth.Store

open Amounts Ledger KeyedTable Fallible

open Sync (SyncedAssetId)

/-- How summing balances fails: with an error, or in a branch that should not be reached. -/
inductive BalanceFailure where
  | error (err : AmountError)
  | unreachable (message : String)
deriving DecidableEq, Repr

/-- `SyncedAssetId::as_str`. -/
def assetText : SyncedAssetId → String
  | .bitcoin => "bitcoin"
  | .ethereum => "ethereum"

structure AddressBalanceSummary where
  assetId : SyncedAssetId
  confirmed : NativeBalanceState
deriving DecidableEq, Repr

structure AccountBalanceEntry where
  assetId : SyncedAssetId
  network : Network
  accountBalance : AddressBalanceSummary
deriving DecidableEq, Repr

structure AssetNetworkTotal where
  assetId : SyncedAssetId
  network : Network
  confirmed : NativeBalanceState
deriving DecidableEq, Repr

/-- `UnsignedAmount::checked_add`. -/
def checkedAddAmount (left right : UnsignedAmount) : Except BalanceFailure UnsignedAmount :=
  if fits : left.value + right.value ≤ u128Max then
    .ok ⟨left.value + right.value, fits⟩
  else
    .error (.error .overflow)

/-- The error of a canonical zero. -/
def canonicalZeroError : BalanceFailure :=
  .error (.parseError "canonical_zero" "canonical zero is only valid at historical boundaries")

/-! ## Addresses -/

/-- The error of a balance of another asset. -/
def mismatchError (assetId : SyncedAssetId) (balance : AddressBalanceSummary) : BalanceFailure :=
  .error (.parseError (assetText balance.assetId) ("sum_address_balances expected asset " ++
    assetText assetId ++ ", got " ++ assetText balance.assetId))

/-- One more balance of the sum. -/
def addBalance (confirmedTotal : UnsignedAmount) (balance : AddressBalanceSummary) :
    Except BalanceFailure UnsignedAmount :=
  match balance.confirmed with
  | .knownAmount amount => checkedAddAmount confirmedTotal amount
  | .canonicalZero => .error (.unreachable "canonical zero was rejected before summation")
  | .unknown => .error (.unreachable "unknown was handled before summation")

/-- `sum_address_balances`. -/
def sumAddressBalances (assetId : SyncedAssetId) (balances : List AddressBalanceSummary) :
    Except BalanceFailure AddressBalanceSummary :=
  match balances.find? fun balance => balance.assetId ≠ assetId with
  | some balance => .error (mismatchError assetId balance)
  | none =>
    if balances.any fun balance => balance.confirmed = .canonicalZero then
      .error canonicalZeroError
    else if balances.any fun balance => balance.confirmed = .unknown then
      .ok { assetId, confirmed := .unknown }
    else do
      let confirmedTotal ← balances.foldlM addBalance .zero
      return { assetId, confirmed := .knownAmount confirmedTotal }

/-! ## Accounts -/

/-- The asset and network of an account. -/
def AccountBalanceEntry.group (account : AccountBalanceEntry) : SyncedAssetId × Network :=
  (account.assetId, account.network)

def AssetNetworkTotal.group (total : AssetNetworkTotal) : SyncedAssetId × Network :=
  (total.assetId, total.network)

/-- An account's balance is of its asset and no canonical zero. -/
def checkAccountBalance (account : AccountBalanceEntry) : Except BalanceFailure Unit :=
  if account.accountBalance.assetId ≠ account.assetId then
    .error (.error (.parseError (assetText account.accountBalance.assetId)
      ("account balance asset " ++ assetText account.accountBalance.assetId ++
        " does not match account asset " ++ assetText account.assetId)))
  else if account.accountBalance.confirmed = .canonicalZero then
    .error canonicalZeroError
  else
    .ok ()

/-- The groups with an unknown balance, each once. -/
def unknownGroups (accounts : List AccountBalanceEntry) : List (SyncedAssetId × Network) :=
  accounts.foldl (fun groups account =>
    if account.accountBalance.confirmed = .unknown ∧ account.group ∉ groups then
      groups ++ [account.group]
    else groups) []

/-- One more account of the totals. -/
def addAccount (unknown : List (SyncedAssetId × Network)) (totals : List AssetNetworkTotal)
    (account : AccountBalanceEntry) : Except BalanceFailure (List AssetNetworkTotal) :=
  match find AssetNetworkTotal.group totals account.group with
  | some existing =>
    if account.group ∈ unknown then
      .ok totals
    else
      match existing.confirmed, account.accountBalance.confirmed with
      | .knownAmount left, .knownAmount right => do
          let total ← checkedAddAmount left right
          return upsert AssetNetworkTotal.group (fun _ incoming => incoming)
            { existing with confirmed := .knownAmount total } totals
      | _, _ =>
        .error (.unreachable "non-known states were handled before current aggregation")
  | none =>
    .ok (totals ++ [{
      assetId := account.assetId
      network := account.network
      confirmed :=
        if account.group ∈ unknown then .unknown else account.accountBalance.confirmed }])

/-- `aggregate_address_balances`. -/
def aggregateAddressBalances (accounts : List AccountBalanceEntry) :
    Except BalanceFailure (List AssetNetworkTotal) := do
  accounts.forM checkAccountBalance
  accounts.foldlM (addAccount (unknownGroups accounts)) []

/-! ## Known amounts -/

/-- The amount of a known balance, nothing for any other. -/
def knownValue : NativeBalanceState → ℕ
  | .knownAmount amount => amount.value
  | _ => 0

/-- A balance is a known amount. -/
def IsKnown (state : NativeBalanceState) : Prop := ∃ amount, state = .knownAmount amount

theorem isKnown_of_ne {state : NativeBalanceState} (counts : state ≠ .canonicalZero)
    (known : state ≠ .unknown) : IsKnown state := by
  cases state with
  | knownAmount amount => exact ⟨amount, rfl⟩
  | canonicalZero => exact absurd rfl counts
  | unknown => exact absurd rfl known

theorem checkedAddAmount_eq_ok_iff {left right total : UnsignedAmount} :
    checkedAddAmount left right = .ok total ↔ total.value = left.value + right.value := by
  unfold checkedAddAmount
  split <;> rename_i fits
  · rw [Except.ok.injEq, UnsignedAmount.ext_iff]
    exact eq_comm
  · simp only [reduceCtorEq, false_iff]
    intro same
    exact fits (same ▸ total.fits)

theorem checkedAddAmount_ne_unreachable {left right : UnsignedAmount} {message : String} :
    checkedAddAmount left right ≠ .error (.unreachable message) := by
  unfold checkedAddAmount
  split <;> simp only [ne_eq, reduceCtorEq, not_false_eq_true, Except.error.injEq]

section Sum

variable {assetId : SyncedAssetId} {balances other : List AddressBalanceSummary}

theorem foldlM_addBalance (known : ∀ balance ∈ balances, IsKnown balance.confirmed)
    (start : UnsignedAmount) :
    balances.foldlM addBalance start =
      if fits : start.value + (balances.map fun balance => knownValue balance.confirmed).sum ≤
          u128Max then
        .ok ⟨start.value + (balances.map fun balance => knownValue balance.confirmed).sum, fits⟩
      else .error (.error .overflow) := by
  induction balances generalizing start with
  | nil =>
    rw [List.foldlM_nil, dif_pos (by simpa using start.fits)]
    rfl
  | cons balance rest ih =>
    obtain ⟨amount, isKnown⟩ := known balance List.mem_cons_self
    have later : ∀ each ∈ rest, IsKnown each.confirmed := fun each member =>
      known each (List.mem_cons_of_mem _ member)
    have added : addBalance start balance = checkedAddAmount start amount := by
      unfold addBalance
      rw [isKnown]
    have isValue : knownValue balance.confirmed = amount.value := by
      rw [isKnown]
      rfl
    simp only [List.foldlM_cons, added, List.map_cons, List.sum_cons, isValue]
    unfold checkedAddAmount
    by_cases fits : start.value + amount.value ≤ u128Max
    · rw [dif_pos fits]
      refine (ih later ⟨start.value + amount.value, fits⟩).trans ?_
      simp only [add_assoc]
    · rw [dif_neg fits, dif_neg (by omega)]
      rfl

theorem mismatchError_congr {first second : AddressBalanceSummary}
    (differs : first.assetId ≠ assetId) (otherDiffers : second.assetId ≠ assetId) :
    mismatchError assetId first = mismatchError assetId second := by
  have same : first.assetId = second.assetId := by
    revert differs otherDiffers
    cases first.assetId <;> cases second.assetId <;> cases assetId <;> decide
  unfold mismatchError
  rw [same]

theorem sumAddressBalances_cases :
    (∃ balance ∈ balances, balance.assetId ≠ assetId ∧
      sumAddressBalances assetId balances = .error (mismatchError assetId balance)) ∨
    (∀ balance ∈ balances, balance.assetId = assetId) ∧
      ((∃ balance ∈ balances, balance.confirmed = .canonicalZero) ∧
          sumAddressBalances assetId balances = .error canonicalZeroError ∨
        (∀ balance ∈ balances, balance.confirmed ≠ .canonicalZero) ∧
          ((∃ balance ∈ balances, balance.confirmed = .unknown) ∧
              sumAddressBalances assetId balances = .ok { assetId, confirmed := .unknown } ∨
            (∀ balance ∈ balances, IsKnown balance.confirmed) ∧
              sumAddressBalances assetId balances = do
                let confirmedTotal ← balances.foldlM addBalance .zero
                return { assetId, confirmed := .knownAmount confirmedTotal })) := by
  unfold sumAddressBalances
  cases isFound : balances.find? fun balance => balance.assetId ≠ assetId with
  | some balance =>
    refine .inl ⟨balance, List.mem_of_find?_eq_some isFound, ?_, rfl⟩
    exact of_decide_eq_true (List.find?_some isFound :)
  | none =>
    have assets : ∀ balance ∈ balances, balance.assetId = assetId := by
      simpa using List.find?_eq_none.mp isFound
    refine .inr ⟨assets, ?_⟩
    by_cases zero : ∃ balance ∈ balances, balance.confirmed = .canonicalZero
    · exact .inl ⟨zero, if_pos (by simpa using zero)⟩
    refine .inr ⟨fun balance member isZero => zero ⟨balance, member, isZero⟩, ?_⟩
    dsimp only
    rw [if_neg (by simpa using zero)]
    by_cases unknown : ∃ balance ∈ balances, balance.confirmed = .unknown
    · exact .inl ⟨unknown, if_pos (by simpa using unknown)⟩
    · refine .inr ⟨fun balance member => ?_, if_neg (by simpa using unknown)⟩
      exact isKnown_of_ne (fun isZero => zero ⟨balance, member, isZero⟩)
        fun isUnknown => unknown ⟨balance, member, isUnknown⟩

theorem sumAddressBalances_perm (perm : balances.Perm other) :
    sumAddressBalances assetId balances = sumAddressBalances assetId other := by
  rcases @sumAddressBalances_cases assetId balances with
    ⟨balance, member, differs, isSum⟩ | ⟨assets, ends⟩
  · rcases @sumAddressBalances_cases assetId other with
      ⟨second, _, otherDiffers, otherIsSum⟩ | ⟨assets, _⟩
    · rw [isSum, otherIsSum, mismatchError_congr differs otherDiffers]
    · exact absurd (assets balance (perm.mem_iff.mp member)) differs
  rcases @sumAddressBalances_cases assetId other with
    ⟨balance, member, differs, _⟩ | ⟨_, otherEnds⟩
  · exact absurd (assets balance (perm.mem_iff.mpr member)) differs
  rcases ends with ⟨⟨zero, isZero, zeroEq⟩, isSum⟩ | ⟨counts, ends⟩
  · rcases otherEnds with ⟨_, otherIsSum⟩ | ⟨counts, _⟩
    · rw [isSum, otherIsSum]
    · exact absurd zeroEq (counts zero (perm.mem_iff.mp isZero))
  rcases otherEnds with ⟨⟨zero, isZero, zeroEq⟩, _⟩ | ⟨_, otherEnds⟩
  · exact absurd zeroEq (counts zero (perm.mem_iff.mpr isZero))
  rcases ends with ⟨⟨unknown, isUnknown, unknownEq⟩, isSum⟩ | ⟨known, isSum⟩
  · rcases otherEnds with ⟨_, otherIsSum⟩ | ⟨known, _⟩
    · rw [isSum, otherIsSum]
    · obtain ⟨amount, isKnown⟩ := known unknown (perm.mem_iff.mp isUnknown)
      rw [unknownEq] at isKnown
      cases isKnown
  rcases otherEnds with ⟨⟨unknown, isUnknown, unknownEq⟩, _⟩ | ⟨otherKnown, otherIsSum⟩
  · obtain ⟨amount, isKnown⟩ := known unknown (perm.mem_iff.mpr isUnknown)
    rw [unknownEq] at isKnown
    cases isKnown
  rw [isSum, otherIsSum, foldlM_addBalance known, foldlM_addBalance otherKnown]
  have sums := (perm.map fun balance : AddressBalanceSummary =>
    knownValue balance.confirmed).sum_eq
  simp only [sums]

theorem sumAddressBalances_eq_known_iff {total : UnsignedAmount} :
    sumAddressBalances assetId balances = .ok { assetId, confirmed := .knownAmount total } ↔
      (∀ balance ∈ balances, balance.assetId = assetId ∧ IsKnown balance.confirmed) ∧
        total.value = (balances.map fun balance => knownValue balance.confirmed).sum := by
  have known_ne : ∀ {state : NativeBalanceState}, IsKnown state →
      state ≠ .canonicalZero ∧ state ≠ .unknown := by
    rintro state ⟨amount, isKnown⟩
    rw [isKnown]
    exact ⟨by simp only [ne_eq, reduceCtorEq, not_false_eq_true],
      by simp only [ne_eq, reduceCtorEq, not_false_eq_true]⟩
  rcases @sumAddressBalances_cases assetId balances with
    ⟨balance, member, differs, isSum⟩ | ⟨assets, ⟨⟨zero, isZero, zeroEq⟩, isSum⟩ |
      ⟨_, ⟨⟨unknown, isUnknown, unknownEq⟩, isSum⟩ | ⟨known, isSum⟩⟩⟩
  · rw [isSum]
    simp only [reduceCtorEq, false_iff]
    exact fun ⟨each, _⟩ => differs (each balance member).1
  · rw [isSum]
    simp only [reduceCtorEq, false_iff]
    exact fun ⟨each, _⟩ => (known_ne (each zero isZero).2).1 zeroEq
  · rw [isSum]
    simp only [Except.ok.injEq, AddressBalanceSummary.mk.injEq, reduceCtorEq, and_false, false_iff]
    exact fun ⟨each, _⟩ => (known_ne (each unknown isUnknown).2).2 unknownEq
  · rw [isSum, foldlM_addBalance known]
    constructor
    · intro summed
      obtain ⟨found, isFound, summed⟩ := bind_eq_ok.mp summed
      rw [pure_eq_ok] at summed
      refine ⟨fun balance member => ⟨assets balance member, known balance member⟩, ?_⟩
      split at isFound
      · obtain rfl := Except.ok.inj isFound
        obtain rfl := NativeBalanceState.knownAmount.inj (congrArg
          AddressBalanceSummary.confirmed summed)
        exact Nat.zero_add _
      · cases isFound
    · rintro ⟨_, isTotal⟩
      have fits : UnsignedAmount.zero.value +
          (balances.map fun balance => knownValue balance.confirmed).sum ≤ u128Max := by
        rw [← isTotal, UnsignedAmount.zero_value, Nat.zero_add]
        exact total.fits
      rw [dif_pos fits]
      apply bind_eq_ok.mpr
      refine ⟨total, congrArg Except.ok ?_, rfl⟩
      ext
      rw [isTotal]
      exact Nat.zero_add _

theorem sumAddressBalances_ne_unreachable {message : String} :
    sumAddressBalances assetId balances ≠ .error (.unreachable message) := by
  rcases @sumAddressBalances_cases assetId balances with
    ⟨balance, _, _, isSum⟩ | ⟨_, ⟨_, isSum⟩ | ⟨_, ⟨_, isSum⟩ | ⟨known, isSum⟩⟩⟩
  · rw [isSum]
    simp only [mismatchError, ne_eq, Except.error.injEq, reduceCtorEq, not_false_eq_true]
  · rw [isSum]
    simp only [canonicalZeroError, ne_eq, Except.error.injEq, reduceCtorEq, not_false_eq_true]
  · rw [isSum]
    simp only [ne_eq, reduceCtorEq, not_false_eq_true]
  · rw [isSum, foldlM_addBalance known]
    split
    · exact fun failed => by cases failed
    · exact fun failed => by cases failed

end Sum

/-! ## Groups of accounts -/

section Groups

variable {accounts other rows : List AccountBalanceEntry} {account : AccountBalanceEntry}
  {totals : List AssetNetworkTotal} {total after : AssetNetworkTotal}
  {unknown : List (SyncedAssetId × Network)} {group : SyncedAssetId × Network}

/-- An account's balance is of its asset and no canonical zero. -/
def Valid (account : AccountBalanceEntry) : Prop :=
  account.accountBalance.assetId = account.assetId ∧
    account.accountBalance.confirmed ≠ .canonicalZero

/-- The amounts of accounts, added. -/
def knownSum (accounts : List AccountBalanceEntry) : ℕ :=
  (accounts.map fun account => knownValue account.accountBalance.confirmed).sum

theorem knownSum_append : knownSum (rows ++ [account]) =
    knownSum rows + knownValue account.accountBalance.confirmed := by
  unfold knownSum
  rw [List.map_append, List.sum_append, List.map_singleton, List.sum_singleton]

theorem mem_unknownGroups_iff : group ∈ unknownGroups accounts ↔
    ∃ account ∈ accounts, account.group = group ∧ account.accountBalance.confirmed = .unknown := by
  have general : ∀ groups : List (SyncedAssetId × Network),
      group ∈ accounts.foldl (fun groups account =>
        if account.accountBalance.confirmed = .unknown ∧ account.group ∉ groups then
          groups ++ [account.group]
        else groups) groups ↔ group ∈ groups ∨ ∃ account ∈ accounts,
          account.group = group ∧ account.accountBalance.confirmed = .unknown := by
    induction accounts with
    | nil => simp
    | cons first rest ih =>
      intro groups
      rw [List.foldl_cons, ih, List.exists_mem_cons_iff]
      by_cases isNew : first.accountBalance.confirmed = .unknown ∧ first.group ∉ groups
      · rw [if_pos isNew, List.mem_append, List.mem_singleton, or_assoc, and_iff_left isNew.1]
        simp only [eq_comm]
      · rw [if_neg isNew]
        by_cases isUnknown : first.accountBalance.confirmed = .unknown
        · have listed : first.group ∈ groups := by
            by_contra absent
            exact isNew ⟨isUnknown, absent⟩
          constructor
          · rintro (before | later)
            · exact .inl before
            · exact .inr (.inr later)
          · rintro (before | ⟨rfl, _⟩ | later)
            · exact .inl before
            · exact .inl listed
            · exact .inr later
        · simp only [isUnknown, and_false, false_or]
  exact (general []).trans (by simp)

theorem checkAccountBalance_eq_ok_iff : checkAccountBalance account = .ok () ↔ Valid account := by
  unfold checkAccountBalance Valid
  by_cases asset : account.accountBalance.assetId = account.assetId
  · rw [if_neg (not_not.mpr asset)]
    split <;> rename_i zero
    · simp only [reduceCtorEq, asset, zero, ne_eq, not_true_eq_false, and_false]
    · simp only [asset, zero, ne_eq, not_false_eq_true, and_self]
  · rw [if_pos asset]
    simp only [reduceCtorEq, asset, false_and]

theorem checkAccountBalance_ne_unreachable {message : String} :
    checkAccountBalance account ≠ .error (.unreachable message) := by
  unfold checkAccountBalance
  split
  · exact fun failed => by cases failed
  split
  · exact fun failed => by cases failed
  · exact fun failed => by cases failed

theorem forM_checkAccountBalance_eq_ok_iff :
    accounts.forM checkAccountBalance = .ok () ↔ ∀ account ∈ accounts, Valid account := by
  induction accounts with
  | nil => simp [pure, Except.pure]
  | cons first rest ih =>
    rw [List.forall_mem_cons, ← ih, ← checkAccountBalance_eq_ok_iff]
    change (checkAccountBalance first >>= fun _ => rest.forM checkAccountBalance) = .ok () ↔ _
    constructor
    · intro done
      obtain ⟨⟨⟩, checked, later⟩ := bind_eq_ok.mp done
      exact ⟨checked, later⟩
    · rintro ⟨checked, later⟩
      exact bind_eq_ok.mpr ⟨(), checked, later⟩

theorem forM_checkAccountBalance_ne_unreachable {message : String} :
    accounts.forM checkAccountBalance ≠ .error (.unreachable message) := by
  induction accounts with
  | nil => exact fun failed => by cases failed
  | cons first rest ih =>
    intro failed
    change (checkAccountBalance first >>= fun _ => rest.forM checkAccountBalance) = _ at failed
    cases checked : checkAccountBalance first with
    | error err =>
      rw [checked] at failed
      obtain rfl : err = .unreachable message := Except.error.inj failed
      exact checkAccountBalance_ne_unreachable checked
    | ok =>
      rw [checked] at failed
      exact ih failed

/-- The total of a group with one account more. -/
def addTotal (unknown : List (SyncedAssetId × Network)) (existing : Option AssetNetworkTotal)
    (account : AccountBalanceEntry) : Except BalanceFailure AssetNetworkTotal :=
  match existing with
  | some existing =>
    if account.group ∈ unknown then
      .ok existing
    else
      match existing.confirmed, account.accountBalance.confirmed with
      | .knownAmount left, .knownAmount right => do
          let total ← checkedAddAmount left right
          return { existing with confirmed := .knownAmount total }
      | _, _ =>
        .error (.unreachable "non-known states were handled before current aggregation")
  | none =>
    .ok {
      assetId := account.assetId
      network := account.network
      confirmed :=
        if account.group ∈ unknown then .unknown else account.accountBalance.confirmed }

theorem addAccount_eq_fileRow : addAccount unknown =
    GroupedFold.fileRow AccountBalanceEntry.group AssetNetworkTotal.group (addTotal unknown) := by
  funext totals account
  unfold addAccount GroupedFold.fileRow addTotal
  cases isFound : find AssetNetworkTotal.group totals account.group with
  | none =>
    refine congrArg Except.ok (upsert_of_find_eq_none ?_).symm
    exact isFound
  | some existing =>
    dsimp only
    by_cases isUnknown : account.group ∈ unknown
    · rw [if_pos isUnknown, if_pos isUnknown]
      exact congrArg Except.ok (upsert_of_find_eq_some isFound).symm
    · rw [if_neg isUnknown, if_neg isUnknown]
      cases existing.confirmed <;> cases account.accountBalance.confirmed <;>
        simp only [bind_assoc] <;> rfl

/-- What the total of some accounts is. -/
structure TotalOf (unknown : List (SyncedAssetId × Network)) (rows : List AccountBalanceEntry)
    (total : AssetNetworkTotal) : Prop where
  group : ∀ row ∈ rows, row.group = total.group
  whenUnknown : total.group ∈ unknown → total.confirmed = .unknown
  whenKnown : total.group ∉ unknown →
    (∀ row ∈ rows, IsKnown row.accountBalance.confirmed) ∧
      ∃ amount, total.confirmed = .knownAmount amount ∧ amount.value = knownSum rows

theorem TotalOf.unique (occurs : rows ≠ []) (isTotal : TotalOf unknown rows total)
    (otherIsTotal : TotalOf unknown rows after) : total = after := by
  obtain ⟨row, member⟩ := List.exists_mem_of_ne_nil rows occurs
  have sameGroup : total.group = after.group :=
    (isTotal.group row member).symm.trans (otherIsTotal.group row member)
  have confirmed : total.confirmed = after.confirmed := by
    by_cases isUnknown : total.group ∈ unknown
    · rw [isTotal.whenUnknown isUnknown, otherIsTotal.whenUnknown (sameGroup ▸ isUnknown)]
    · obtain ⟨_, amount, isAmount, isSum⟩ := isTotal.whenKnown isUnknown
      obtain ⟨_, otherAmount, otherIsAmount, otherIsSum⟩ :=
        otherIsTotal.whenKnown (sameGroup ▸ isUnknown)
      have same : amount = otherAmount := UnsignedAmount.ext (isSum.trans otherIsSum.symm)
      rw [isAmount, otherIsAmount, same]
  obtain ⟨asset, network⟩ := Prod.mk.inj sameGroup
  cases total
  cases after
  simp only at asset network confirmed
  rw [asset, network, confirmed]

theorem TotalOf.perm (perm : rows.Perm other) (isTotal : TotalOf unknown rows total) :
    TotalOf unknown other total where
  group row member := isTotal.group row (perm.mem_iff.mpr member)
  whenUnknown := isTotal.whenUnknown
  whenKnown isKnown := by
    obtain ⟨known, amount, isAmount, isSum⟩ := isTotal.whenKnown isKnown
    refine ⟨fun row member => known row (perm.mem_iff.mpr member), amount, isAmount, ?_⟩
    rw [isSum]
    exact (perm.map fun account => knownValue account.accountBalance.confirmed).sum_eq

theorem TotalOf.exists_earlier (isTotal : TotalOf unknown (rows ++ [account]) after) :
    ∃ total, TotalOf unknown rows total := by
  by_cases isUnknown : after.group ∈ unknown
  · exact ⟨after, fun row member => isTotal.group row (List.mem_append_left _ member),
      isTotal.whenUnknown, fun isKnown => absurd isUnknown isKnown⟩
  · obtain ⟨known, amount, _, isSum⟩ := isTotal.whenKnown isUnknown
    rw [knownSum_append] at isSum
    have fits : knownSum rows ≤ u128Max :=
      (Nat.le_add_right _ _).trans (isSum ▸ amount.fits)
    refine ⟨{ after with confirmed := .knownAmount ⟨knownSum rows, fits⟩ }, ?_, ?_, ?_⟩
    · exact fun row member => isTotal.group row (List.mem_append_left _ member)
    · exact fun listed => absurd listed isUnknown
    · exact fun _ => ⟨fun row member => known row (List.mem_append_left _ member), _, rfl, rfl⟩

/-- An account with an unknown balance is in a group listed as unknown. -/
def ListedKnown (unknown : List (SyncedAssetId × Network)) (account : AccountBalanceEntry) : Prop :=
  Valid account ∧ (account.accountBalance.confirmed = .unknown → account.group ∈ unknown)

theorem ListedKnown.isKnown (listed : ListedKnown unknown account)
    (isKnown : account.group ∉ unknown) :
    IsKnown account.accountBalance.confirmed :=
  isKnown_of_ne listed.1.2 fun isUnknown => isKnown (listed.2 isUnknown)

theorem totalOf_singleton (listed : ListedKnown unknown account)
    (added : addTotal unknown none account = .ok after) : TotalOf unknown [account] after := by
  obtain rfl := Except.ok.inj added
  refine ⟨?_, ?_, ?_⟩
  · intro row member
    rw [List.mem_singleton.mp member]
    rfl
  · intro isUnknown
    exact if_pos isUnknown
  · intro isKnown
    obtain ⟨amount, isAmount⟩ := listed.isKnown isKnown
    refine ⟨?_, amount, (if_neg isKnown).trans isAmount, ?_⟩
    · intro row member
      rw [List.mem_singleton.mp member]
      exact ⟨amount, isAmount⟩
    · unfold knownSum
      rw [List.map_singleton, List.sum_singleton, isAmount]
      rfl

theorem addTotal_some_eq_ok_iff (isTotal : TotalOf unknown rows total)
    (listed : ListedKnown unknown account) (isGroup : account.group = total.group) :
    addTotal unknown (some total) account = .ok after ↔
      TotalOf unknown (rows ++ [account]) after := by
  have groups : ∀ row ∈ rows ++ [account], row.group = total.group := by
    intro row member
    rcases List.mem_append.mp member with earlier | last
    · exact isTotal.group row earlier
    · rw [List.mem_singleton.mp last, isGroup]
  have occurs : rows ++ [account] ≠ [] :=
    List.append_ne_nil_of_right_ne_nil _ (List.cons_ne_nil _ _)
  by_cases isUnknown : account.group ∈ unknown
  · have whole : TotalOf unknown (rows ++ [account]) total :=
      ⟨groups, isTotal.whenUnknown, fun isKnown => absurd (isGroup ▸ isUnknown) isKnown⟩
    have added : addTotal unknown (some total) account = .ok total := if_pos isUnknown
    rw [added, Except.ok.injEq]
    exact ⟨fun same => same ▸ whole, fun isAfter => whole.unique occurs isAfter⟩
  · have notListed : total.group ∉ unknown := isGroup ▸ isUnknown
    obtain ⟨known, left, isLeft, isSum⟩ := isTotal.whenKnown notListed
    obtain ⟨right, isRight⟩ := listed.isKnown isUnknown
    have added : addTotal unknown (some total) account = do
        let sum ← checkedAddAmount left right
        return { total with confirmed := .knownAmount sum } := by
      unfold addTotal
      dsimp only
      rw [if_neg isUnknown, isLeft, isRight]
    have isRightValue : knownValue account.accountBalance.confirmed = right.value := by
      rw [isRight]
      rfl
    have whole : ∀ sum : UnsignedAmount, sum.value = left.value + right.value →
        TotalOf unknown (rows ++ [account]) { total with confirmed := .knownAmount sum } := by
      intro sum isTotalSum
      refine ⟨groups, fun isListed => absurd isListed notListed, fun _ => ⟨?_, sum, rfl, ?_⟩⟩
      · intro row member
        rcases List.mem_append.mp member with earlier | last
        · exact known row earlier
        · rw [List.mem_singleton.mp last]
          exact ⟨right, isRight⟩
      · rw [knownSum_append, ← isSum, isRightValue, isTotalSum]
    rw [added, bind_eq_ok]
    constructor
    · rintro ⟨sum, summed, isAfter⟩
      rw [pure_eq_ok] at isAfter
      rw [← isAfter]
      exact whole sum (checkedAddAmount_eq_ok_iff.mp summed)
    · intro isAfter
      have afterGroup : after.group = total.group :=
        (isAfter.group account (List.mem_append_right _ List.mem_cons_self)).symm.trans isGroup
      obtain ⟨_, sum, _, isTotalSum⟩ := isAfter.whenKnown (afterGroup ▸ notListed)
      rw [knownSum_append, ← isSum, isRightValue] at isTotalSum
      refine ⟨sum, checkedAddAmount_eq_ok_iff.mpr isTotalSum, pure_eq_ok.mpr ?_⟩
      exact (whole sum isTotalSum).unique occurs isAfter

theorem summary_totalOf : GroupedFold.Summary AccountBalanceEntry.group AssetNetworkTotal.group
    (addTotal unknown) (ListedKnown unknown) (TotalOf unknown) where
  keyed _ isTotal := isTotal.group
  first := by
    intro account total listed
    refine ⟨totalOf_singleton listed, ?_⟩
    intro isTotal
    obtain ⟨found, added⟩ : ∃ found, addTotal unknown none account = .ok found := ⟨_, rfl⟩
    rw [added, (totalOf_singleton listed added).unique (List.cons_ne_nil _ _) isTotal]
  next listed _ isTotal isGroup := addTotal_some_eq_ok_iff isTotal listed isGroup
  earlier _ isTotal := isTotal.exists_earlier
  unique occurs isTotal otherIsTotal := isTotal.unique occurs otherIsTotal
  perm perm isTotal := isTotal.perm perm

theorem listed_of_valid (valid : ∀ account ∈ accounts, Valid account) :
    ∀ account ∈ accounts, ListedKnown (unknownGroups accounts) account := by
  intro account member
  exact ⟨valid account member, fun isUnknown =>
    mem_unknownGroups_iff.mpr ⟨account, member, rfl, isUnknown⟩⟩

theorem aggregateAddressBalances_eq_ok_iff :
    aggregateAddressBalances accounts = .ok totals ↔ (∀ account ∈ accounts, Valid account) ∧
      accounts.foldlM (GroupedFold.fileRow AccountBalanceEntry.group AssetNetworkTotal.group
        (addTotal (unknownGroups accounts))) [] = .ok totals := by
  rw [← forM_checkAccountBalance_eq_ok_iff, ← addAccount_eq_fileRow]
  constructor
  · intro done
    obtain ⟨⟨⟩, checked, folded⟩ := bind_eq_ok.mp done
    exact ⟨checked, folded⟩
  · rintro ⟨checked, folded⟩
    exact bind_eq_ok.mpr ⟨(), checked, folded⟩

/-- The members of a group. -/
def membersOf (accounts : List AccountBalanceEntry) (group : SyncedAssetId × Network) :
    List AccountBalanceEntry :=
  accounts.filter fun account => account.group = group

theorem mem_membersOf_iff :
    account ∈ membersOf accounts group ↔ account ∈ accounts ∧ account.group = group := by
  unfold membersOf
  rw [List.mem_filter, decide_eq_true_eq]

theorem exists_aggregateAddressBalances :
    (∃ totals, aggregateAddressBalances accounts = .ok totals) ↔
      (∀ account ∈ accounts, Valid account) ∧
        ∀ group, (∀ account ∈ membersOf accounts group,
          IsKnown account.accountBalance.confirmed) →
            knownSum (membersOf accounts group) ≤ u128Max := by
  simp only [aggregateAddressBalances_eq_ok_iff, exists_and_left]
  apply and_congr_right
  intro valid
  rw [GroupedFold.exists_foldlM_fileRow summary_totalOf (listed_of_valid valid)]
  constructor
  · intro determined group known
    by_cases occurs : membersOf accounts group = []
    · rw [occurs]
      exact Nat.zero_le _
    obtain ⟨total, isTotal⟩ := determined group occurs
    obtain ⟨member, isMember⟩ := List.exists_mem_of_ne_nil _ occurs
    have isGroup : total.group = group :=
      (isTotal.group member isMember).symm.trans (mem_membersOf_iff.mp isMember).2
    have notListed : total.group ∉ unknownGroups accounts := by
      intro listed
      obtain ⟨account, inAccounts, inGroup, isUnknown⟩ := mem_unknownGroups_iff.mp listed
      obtain ⟨amount, isKnown⟩ :=
        known account (mem_membersOf_iff.mpr ⟨inAccounts, inGroup.trans isGroup⟩)
      rw [isUnknown] at isKnown
      cases isKnown
    obtain ⟨_, amount, _, isSum⟩ := isTotal.whenKnown notListed
    have fits := amount.fits
    rw [isSum] at fits
    exact fits
  · intro fit group occurs
    by_cases isUnknown : group ∈ unknownGroups accounts
    · refine ⟨{ assetId := group.1, network := group.2, confirmed := .unknown }, ?_, ?_, ?_⟩
      · exact fun row member => (mem_membersOf_iff.mp member).2
      · exact fun _ => rfl
      · exact fun isKnown => absurd isUnknown isKnown
    · have known : ∀ account ∈ membersOf accounts group,
          IsKnown account.accountBalance.confirmed := by
        intro account member
        obtain ⟨inAccounts, inGroup⟩ := mem_membersOf_iff.mp member
        exact (listed_of_valid valid account inAccounts).isKnown (inGroup ▸ isUnknown)
      refine ⟨{
        assetId := group.1
        network := group.2
        confirmed := .knownAmount ⟨_, fit group known⟩ }, ?_, ?_, ?_⟩
      · exact fun row member => (mem_membersOf_iff.mp member).2
      · exact fun listed => absurd listed isUnknown
      · exact fun _ => ⟨known, _, rfl, rfl⟩

theorem aggregateAddressBalances_spec (done : aggregateAddressBalances accounts = .ok totals) :
    (totals.map AssetNetworkTotal.group).Nodup ∧
    (∀ group, group ∈ totals.map AssetNetworkTotal.group ↔
      ∃ account ∈ accounts, account.group = group) ∧
    ∀ total ∈ totals,
      ((∃ account ∈ membersOf accounts total.group,
          account.accountBalance.confirmed = .unknown) → total.confirmed = .unknown) ∧
      ∀ amount, total.confirmed = .knownAmount amount ↔
        (∀ account ∈ membersOf accounts total.group, IsKnown account.accountBalance.confirmed) ∧
          amount.value = knownSum (membersOf accounts total.group) := by
  obtain ⟨valid, folded⟩ := aggregateAddressBalances_eq_ok_iff.mp done
  have holds := GroupedFold.foldlM_fileRow_spec summary_totalOf (listed_of_valid valid) folded
  refine ⟨holds.keyed, ?_, ?_⟩
  · intro group
    rw [← GroupedFold.rowsOf_ne_nil_iff]
    constructor
    · intro listed
      obtain ⟨total, member, rfl⟩ := List.mem_map.mp listed
      exact (holds.found _ _ ((find_key_eq_some_iff holds.keyed).mpr member)).1
    · intro occurs
      cases isFound : find AssetNetworkTotal.group totals group with
      | none => exact absurd (holds.absent group isFound) occurs
      | some total =>
        exact List.mem_map.mpr ⟨total, mem_of_find isFound, find_eq_some_key isFound⟩
  · intro total member
    obtain ⟨_, isTotal⟩ := holds.found _ _ ((find_key_eq_some_iff holds.keyed).mpr member)
    replace isTotal : TotalOf (unknownGroups accounts) (membersOf accounts total.group) total :=
      isTotal
    have unknown_iff : total.group ∈ unknownGroups accounts ↔
        ∃ account ∈ membersOf accounts total.group,
          account.accountBalance.confirmed = .unknown := by
      rw [mem_unknownGroups_iff]
      simp only [mem_membersOf_iff, and_assoc]
    refine ⟨fun isUnknown => isTotal.whenUnknown (unknown_iff.mpr isUnknown), ?_⟩
    intro amount
    by_cases isUnknown : total.group ∈ unknownGroups accounts
    · rw [isTotal.whenUnknown isUnknown]
      simp only [reduceCtorEq, false_iff]
      rintro ⟨known, _⟩
      obtain ⟨account, inGroup, unknownEq⟩ := unknown_iff.mp isUnknown
      obtain ⟨found, isKnown⟩ := known account inGroup
      rw [unknownEq] at isKnown
      cases isKnown
    · obtain ⟨known, found, isFound, isSum⟩ := isTotal.whenKnown isUnknown
      rw [isFound, NativeBalanceState.knownAmount.injEq, UnsignedAmount.ext_iff, isSum]
      exact ⟨fun same => ⟨known, same.symm⟩, fun same => same.2.symm⟩

/-- **The order of the accounts does not matter.** -/
theorem aggregateAddressBalances_perm (perm : accounts.Perm other)
    (done : aggregateAddressBalances accounts = .ok totals) :
    ∃ otherTotals, aggregateAddressBalances other = .ok otherTotals ∧ totals.Perm otherTotals := by
  obtain ⟨valid, folded⟩ := aggregateAddressBalances_eq_ok_iff.mp done
  obtain ⟨otherTotals, otherFolded, sameTotals⟩ :=
    GroupedFold.foldlM_fileRow_perm summary_totalOf (listed_of_valid valid) perm folded
  have sameUnknown : ∀ group, group ∈ unknownGroups accounts ↔ group ∈ unknownGroups other := by
    intro group
    rw [mem_unknownGroups_iff, mem_unknownGroups_iff]
    simp only [perm.mem_iff]
  have sameStep : addTotal (unknownGroups accounts) = addTotal (unknownGroups other) := by
    funext existing account
    unfold addTotal
    simp only [sameUnknown]
  refine ⟨otherTotals, aggregateAddressBalances_eq_ok_iff.mpr ⟨?_, ?_⟩, sameTotals⟩
  · exact fun account member => valid account (perm.mem_iff.mpr member)
  · rw [← sameStep]
    exact otherFolded

theorem aggregateAddressBalances_ne_unreachable {message : String} :
    aggregateAddressBalances accounts ≠ .error (.unreachable message) := by
  intro failed
  unfold aggregateAddressBalances at failed
  cases checked : accounts.forM checkAccountBalance with
  | error err =>
    rw [checked] at failed
    obtain rfl : err = .unreachable message := Except.error.inj failed
    exact forM_checkAccountBalance_ne_unreachable checked
  | ok =>
    rw [checked] at failed
    change accounts.foldlM (addAccount (unknownGroups accounts)) [] = _ at failed
    have listed := listed_of_valid (forM_checkAccountBalance_eq_ok_iff.mp checked)
    rw [addAccount_eq_fileRow] at failed
    obtain ⟨earlier, account, member, groups, holds, step⟩ :=
      GroupedFold.exists_failed_step summary_totalOf listed failed
    cases isFound : find AssetNetworkTotal.group groups account.group with
    | none =>
      rw [isFound] at step
      cases step
    | some total =>
      rw [isFound] at step
      obtain ⟨_, isTotal⟩ := holds.found _ _ isFound
      have isGroup : total.group = account.group := find_eq_some_key isFound
      by_cases isUnknown : account.group ∈ unknownGroups accounts
      · rw [addTotal, if_pos isUnknown] at step
        cases step
      · obtain ⟨_, left, isLeft, _⟩ := isTotal.whenKnown (isGroup ▸ isUnknown)
        obtain ⟨right, isRight⟩ := (listed account member).isKnown isUnknown
        unfold addTotal at step
        dsimp only at step
        rw [if_neg isUnknown, isLeft, isRight] at step
        cases added : checkedAddAmount left right with
        | ok sum =>
          dsimp only at step
          rw [added] at step
          cases step
        | error err =>
          dsimp only at step
          rw [added] at step
          obtain rfl : err = .unreachable message := Except.error.inj step
          exact checkedAddAmount_ne_unreachable added

end Groups

/-- **Totals do not depend on the order, an unknown balance makes its total unknown, and a total
is the sum of its balances.** -/
theorem balanceTotals_spec :
    (∀ (assetId : SyncedAssetId) (balances other : List AddressBalanceSummary),
      balances.Perm other →
        sumAddressBalances assetId balances = sumAddressBalances assetId other) ∧
    (∀ (assetId : SyncedAssetId) (balances : List AddressBalanceSummary) (total : UnsignedAmount),
      sumAddressBalances assetId balances = .ok { assetId, confirmed := .knownAmount total } ↔
        (∀ balance ∈ balances, balance.assetId = assetId ∧ IsKnown balance.confirmed) ∧
          total.value = (balances.map fun balance => knownValue balance.confirmed).sum) ∧
    (∀ (assetId : SyncedAssetId) (balances : List AddressBalanceSummary) (message : String),
      sumAddressBalances assetId balances ≠ .error (.unreachable message)) ∧
    (∀ (accounts other : List AccountBalanceEntry) (totals : List AssetNetworkTotal),
      accounts.Perm other → aggregateAddressBalances accounts = .ok totals →
        ∃ otherTotals, aggregateAddressBalances other = .ok otherTotals ∧
          totals.Perm otherTotals) ∧
    (∀ accounts, (∃ totals, aggregateAddressBalances accounts = .ok totals) ↔
      (∀ account ∈ accounts, Valid account) ∧
        ∀ group, (∀ account ∈ membersOf accounts group,
          IsKnown account.accountBalance.confirmed) →
            knownSum (membersOf accounts group) ≤ u128Max) ∧
    (∀ accounts totals, aggregateAddressBalances accounts = .ok totals →
      (totals.map AssetNetworkTotal.group).Nodup ∧
      (∀ group, group ∈ totals.map AssetNetworkTotal.group ↔
        ∃ account ∈ accounts, account.group = group) ∧
      ∀ total ∈ totals,
        ((∃ account ∈ membersOf accounts total.group,
            account.accountBalance.confirmed = .unknown) → total.confirmed = .unknown) ∧
        ∀ amount, total.confirmed = .knownAmount amount ↔
          (∀ account ∈ membersOf accounts total.group,
            IsKnown account.accountBalance.confirmed) ∧
              amount.value = knownSum (membersOf accounts total.group)) ∧
    ∀ (accounts : List AccountBalanceEntry) (message : String),
      aggregateAddressBalances accounts ≠ .error (.unreachable message) := by
  refine ⟨?_, ?_, ?_, ?_, ?_, ?_, ?_⟩
  · intro assetId balances other perm
    exact sumAddressBalances_perm perm
  · intro assetId balances total
    exact sumAddressBalances_eq_known_iff
  · intro assetId balances message
    exact sumAddressBalances_ne_unreachable
  · intro accounts other totals perm done
    exact aggregateAddressBalances_perm perm done
  · intro accounts
    exact exists_aggregateAddressBalances
  · intro accounts totals done
    exact aggregateAddressBalances_spec done
  · intro accounts message
    exact aggregateAddressBalances_ne_unreachable

/-- An account of an asset with a known balance. -/
def knownAccount (assetId : SyncedAssetId) (amount : UnsignedAmount) : AccountBalanceEntry where
  assetId
  network := .mainnet
  accountBalance := { assetId, confirmed := .knownAmount amount }

/-- One group that does not fit leaves the others without a total. -/
theorem not_aggregateAddressBalances_known :
    ¬ ∀ (accounts : List AccountBalanceEntry) (group : SyncedAssetId × Network),
      membersOf accounts group ≠ [] →
        ((∃ totals, aggregateAddressBalances accounts = .ok totals ∧
            ∃ total ∈ totals, total.group = group ∧ IsKnown total.confirmed) ↔
          (∀ account ∈ membersOf accounts group, IsKnown account.accountBalance.confirmed) ∧
            knownSum (membersOf accounts group) ≤ u128Max) := by
  intro always
  let accounts := [knownAccount .bitcoin ⟨1, by decide⟩,
    knownAccount .ethereum ⟨u128Max, le_rfl⟩, knownAccount .ethereum ⟨1, by decide⟩]
  have overflows : aggregateAddressBalances accounts = .error (.error .overflow) := by
    decide +kernel
  have known := (always accounts (.bitcoin, .mainnet) (by decide)).mpr
    ⟨fun account member => by
      obtain ⟨inAccounts, _⟩ := mem_membersOf_iff.mp member
      obtain rfl | rfl | rfl := by simpa [accounts] using inAccounts
      · exact ⟨_, rfl⟩
      · exact ⟨_, rfl⟩
      · exact ⟨_, rfl⟩, by decide +kernel⟩
  obtain ⟨totals, done, _⟩ := known
  rw [overflows] at done
  cases done

/-- Two known accounts of one group, and an account of another group that is not known. -/
theorem balanceTotals_spec_unknownMember :
    ∃ totals, aggregateAddressBalances
        [{ knownAccount .ethereum ⟨0, by decide⟩ with
            accountBalance := { assetId := .ethereum, confirmed := .unknown } },
          knownAccount .bitcoin ⟨2, by decide⟩, knownAccount .ethereum ⟨4, by decide⟩,
          knownAccount .bitcoin ⟨1, by decide⟩] = .ok totals ∧
      [{ assetId := .bitcoin, network := .mainnet, confirmed := .knownAmount ⟨3, by decide⟩ },
        { assetId := .ethereum, network := .mainnet,
          confirmed := .unknown : AssetNetworkTotal }].Perm totals :=
  balanceTotals_spec.2.2.2.1 [knownAccount .bitcoin ⟨1, by decide⟩,
    knownAccount .ethereum ⟨4, by decide⟩, knownAccount .bitcoin ⟨2, by decide⟩,
    { knownAccount .ethereum ⟨0, by decide⟩ with
      accountBalance := { assetId := .ethereum, confirmed := .unknown } }] _ _
    (by decide +kernel) (by decide +kernel)

end Bitgarth.Store
