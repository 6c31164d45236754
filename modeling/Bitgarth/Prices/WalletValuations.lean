import Bitgarth.Foundation.GroupedSums
import Bitgarth.Prices.WalletValues
import Mathlib.Tactic.Linarith

/-! # Wallets and what their accounts are worth

The three valuations of a wallet's money, by asset, by account and by aggregate balance, come to the
same sum. An account that a valuation gives no price keeps the value of an earlier one, so sums over
attached values are sums over the values of this call only where nothing was kept.
-/

namespace Bitgarth.Prices.WalletValues

open Sync (SyncedAssetId)
open GroupedSums

namespace AccountView

/-- Whether the account is shown as active; custom accounts have no such state. -/
def IsActive : AccountView → Prop
  | .native view => view.accountState = .active
  | .custom _ => False
  | .manual view => view.accountState = .active

def IsInactive : AccountView → Prop
  | .native view => view.accountState = .inactive
  | .custom _ => False
  | .manual view => view.accountState = .inactive

instance : DecidablePred IsActive
  | .native view => inferInstanceAs (Decidable (view.accountState = .active))
  | .custom _ => inferInstanceAs (Decidable False)
  | .manual view => inferInstanceAs (Decidable (view.accountState = .active))

instance : DecidablePred IsInactive
  | .native view => inferInstanceAs (Decidable (view.accountState = .inactive))
  | .custom _ => inferInstanceAs (Decidable False)
  | .manual view => inferInstanceAs (Decidable (view.accountState = .inactive))

/-- The value attached to an account. -/
def currentValue : AccountView → Option CurrentAssetValueView
  | .native view => view.balance.currentValue
  | .custom view => view.currentValue
  | .manual view => view.currentValue

def withValue (value : Option CurrentAssetValueView) : AccountView → AccountView
  | .native view => .native { view with balance := { view.balance with currentValue := value } }
  | .custom view => .custom { view with currentValue := value }
  | .manual view => .manual { view with currentValue := value }

def balanceState : AccountView → AccountBalanceStateView
  | .native view => view.balance.balanceState
  | .custom view => view.balanceState
  | .manual view => view.balanceState

@[simp] theorem isActive_native (view : NativeAccountView) :
    (native view).IsActive ↔ view.accountState = .active := Iff.rfl

@[simp] theorem not_isActive_custom (view : CustomAccountView) : ¬ (custom view).IsActive :=
  not_false

@[simp] theorem isActive_manual (view : ManualAssetAccountView) :
    (manual view).IsActive ↔ view.accountState = .active := Iff.rfl

@[simp] theorem isInactive_native (view : NativeAccountView) :
    (native view).IsInactive ↔ view.accountState = .inactive := Iff.rfl

@[simp] theorem not_isInactive_custom (view : CustomAccountView) : ¬ (custom view).IsInactive :=
  not_false

@[simp] theorem isInactive_manual (view : ManualAssetAccountView) :
    (manual view).IsInactive ↔ view.accountState = .inactive := Iff.rfl

variable (value other : Option CurrentAssetValueView) (account : AccountView)

@[simp] theorem currentValue_withValue : (account.withValue value).currentValue = value := by
  cases account <;> rfl

@[simp] theorem withValue_withValue :
    (account.withValue value).withValue other = account.withValue other := by
  cases account <;> rfl

@[simp] theorem withValue_currentValue : account.withValue account.currentValue = account := by
  cases account <;> rfl

@[simp] theorem isActive_withValue : (account.withValue value).IsActive ↔ account.IsActive := by
  cases account <;> rfl

end AccountView

@[simp] theorem accountIsActive_active : accountIsActive .active = true := rfl

@[simp] theorem accountIsActive_inactive : accountIsActive .inactive = false := rfl

theorem eq_active_of_ne_inactive {state : AccountStateView} (shown : state ≠ .inactive) :
    state = .active := by
  cases state with
  | active => rfl
  | inactive => exact absurd rfl shown

section Account

variable (source : ValuationSource) (prices : String → Option ℚ) (currency : String)

/-- The price id under which an account's own balance is valued. -/
def providerAssetId : AccountView → Option String
  | .native native => coingeckoPriceRef native.balance.assetId
  | .custom _ => none
  | .manual manual => (source.manualRow manual).bind fun row =>
    source.resolveManualCoingeckoId row.assetId (some row.coingeckoId)

/-- What the prices make of an active account whose balance is known. -/
def valueByPrices (account : AccountView) : Option CurrentAssetValueView :=
  if account.IsActive then do
    let id ← providerAssetId source account
    let amount ← source.knownAmountDecimal account.balanceState
    let price ← prices id
    return ⟨price, price * amount, currency⟩
  else none

/-- The value attached to an account after a valuation. -/
def valueAfter (account : AccountView) : Option CurrentAssetValueView :=
  if account.IsActive then
    (valueByPrices source prices currency account).or account.currentValue
  else if account.IsInactive then none
  else account.currentValue

/-- The share of an account in the sum of its wallet. -/
def share (account : AccountView) : ℚ :=
  ((valueByPrices source prices currency account).map (·.convertedValue)).getD 0

/-- What an account adds to its wallet's counters by itself, not with its asset. -/
def ownTally : AccountView → WalletTally
  | .native _ => ⟨0, 0, 0⟩
  | .custom custom => ⟨0, if source.knownNonzero custom.balanceState then 1 else 0, 0⟩
  | .manual manual =>
    { priced :=
        if (valueByPrices source prices currency (.manual manual)).isSome then 1 else 0
      total :=
        if manual.accountState = .active ∧
            (source.knownAmountDecimal manual.balanceState).isSome then 1 else 0
      sum := share source prices currency (.manual manual) }

end Account

section Valuing

variable {source : ValuationSource} {prices : String → Option ℚ} {currency : String}
  (tally : WalletTally) (account : AccountView)

variable {account} in
theorem valueByPrices_eq_some {value : CurrentAssetValueView} :
    valueByPrices source prices currency account = some value ↔
      account.IsActive ∧ ∃ id amount price, providerAssetId source account = some id ∧
        source.knownAmountDecimal account.balanceState = some amount ∧ prices id = some price ∧
        ⟨price, price * amount, currency⟩ = value := by
  unfold valueByPrices
  split_ifs with active
  · simp only [Option.bind_eq_bind, Option.bind_eq_some_iff, Option.pure_def, Option.some.injEq,
      active, true_and]
    constructor
    · rintro ⟨id, provided, amount, known, price, priced, same⟩
      exact ⟨id, amount, price, provided, known, priced, same⟩
    · rintro ⟨id, amount, price, provided, known, priced, same⟩
      exact ⟨id, provided, amount, known, price, priced, same⟩
  · simp only [active, false_and]

theorem currentValueForSyncedAmount_eq (assetId : SyncedAssetId) (amount : ℚ) :
    currentValueForSyncedAmount prices currency assetId amount =
      ((coingeckoPriceRef assetId).bind prices).map fun price =>
        (price * amount, ⟨price, price * amount, currency⟩) := by
  unfold currentValueForSyncedAmount
  cases coingeckoPriceRef assetId with
  | none => rfl
  | some id => cases priced : prices id <;> simp [priced]

theorem currentValueForSyncedBalance_eq (native : NativeAccountView)
    (active : native.accountState = .active) :
    (currentValueForSyncedBalance source prices currency native.balance.assetId
        native.balance.balanceState).map (·.2) =
      valueByPrices source prices currency (.native native) := by
  unfold currentValueForSyncedBalance valueByPrices
  rw [if_pos ((AccountView.isActive_native native).mpr active)]
  simp only [providerAssetId, AccountView.balanceState, currentValueForSyncedAmount_eq]
  cases source.knownAmountDecimal native.balance.balanceState with
  | none => cases coingeckoPriceRef native.balance.assetId <;> rfl
  | some amount =>
    cases coingeckoPriceRef native.balance.assetId with
    | none => rfl
    | some id => cases priced : prices id <;> simp [priced]

theorem valueAccount_snd :
    (valueAccount source prices currency tally account).2 =
      account.withValue (valueAfter source prices currency account) := by
  cases account with
  | native native =>
    cases state : native.accountState with
    | inactive => simp [valueAccount, valueAfter, AccountView.withValue, state]
    | active =>
      rw [valueAfter, if_pos ((AccountView.isActive_native native).mpr state),
        ← currentValueForSyncedBalance_eq native state]
      simp only [valueAccount, state, accountIsActive_active, ↓reduceIte]
      cases currentValueForSyncedBalance source prices currency native.balance.assetId
          native.balance.balanceState with
      | none => rfl
      | some valued => simp only [AccountView.withValue, Option.map_some, Option.some_or, state]
  | custom custom => simp [valueAccount, valueAfter]
  | manual manual =>
    cases state : manual.accountState with
    | inactive => simp [valueAccount, valueAfter, AccountView.withValue, state]
    | active =>
      have active := (AccountView.isActive_manual manual).mpr state
      rw [valueAfter, if_pos active, valueByPrices, if_pos active]
      simp only [valueAccount, state, accountIsActive_active, ↓reduceIte, providerAssetId,
        AccountView.balanceState]
      generalize (source.manualRow manual).bind _ = id
      cases id with
      | none => rfl
      | some id =>
        cases source.knownAmountDecimal manual.balanceState with
        | none => rfl
        | some bal =>
          cases priced : prices id with
          | none => simp [priced]
          | some price => simp [priced, AccountView.withValue, state]

theorem valueAccount_fst :
    (valueAccount source prices currency tally account).1 =
      ⟨tally.priced + (ownTally source prices currency account).priced,
        tally.total + (ownTally source prices currency account).total,
        tally.sum + (ownTally source prices currency account).sum⟩ := by
  cases account with
  | native native =>
    have unchanged : (valueAccount source prices currency tally (.native native)).1 = tally := by
      simp only [valueAccount]
      split_ifs
      · split <;> rfl
      · rfl
    rw [unchanged]
    simp only [ownTally, add_zero]
  | custom custom =>
    simp only [valueAccount, ownTally, add_zero]
    split <;> rfl
  | manual manual =>
    cases state : manual.accountState with
    | inactive => simp [valueAccount, ownTally, share, valueByPrices, state]
    | active =>
      have active := (AccountView.isActive_manual manual).mpr state
      simp only [valueAccount, ownTally, share, valueByPrices, if_pos active, state,
        accountIsActive_active, ↓reduceIte, providerAssetId, AccountView.balanceState, true_and]
      generalize (source.manualRow manual).bind _ = id
      cases source.knownAmountDecimal manual.balanceState with
      | none => cases id <;> simp
      | some bal =>
        cases id with
        | none => simp
        | some id => cases priced : prices id <;> simp [priced]

theorem ownTally_priced_le :
    (ownTally source prices currency account).priced ≤
      (ownTally source prices currency account).total := by
  cases account with
  | native native => exact le_rfl
  | custom custom => exact Nat.zero_le _
  | manual manual =>
    simp only [ownTally]
    split_ifs with priced counted
    · exact le_rfl
    · obtain ⟨value, valued⟩ := Option.isSome_iff_exists.mp priced
      obtain ⟨active, _, amount, _, -, known, -⟩ := valueByPrices_eq_some.mp valued
      exact absurd ⟨active, Option.isSome_iff_exists.mpr ⟨amount, known⟩⟩ counted
    · exact Nat.zero_le _
    · exact le_rfl

end Valuing

section Accounts

variable {source : ValuationSource} {prices : String → Option ℚ} {currency : String}
  (tally : WalletTally) (accounts : List AccountView)

theorem valueAccounts_cons_fst (account : AccountView) :
    (valueAccounts source prices currency tally (account :: accounts)).1 =
      (valueAccounts source prices currency
        (valueAccount source prices currency tally account).1 accounts).1 := rfl

theorem valueAccounts_cons_snd (account : AccountView) :
    (valueAccounts source prices currency tally (account :: accounts)).2 =
      (valueAccount source prices currency tally account).2 ::
        (valueAccounts source prices currency
          (valueAccount source prices currency tally account).1 accounts).2 := rfl

theorem valueAccounts_snd :
    (valueAccounts source prices currency tally accounts).2 =
      accounts.map fun account =>
        account.withValue (valueAfter source prices currency account) := by
  induction accounts generalizing tally with
  | nil => rfl
  | cons account accounts ih =>
    rw [valueAccounts_cons_snd, List.map_cons, ih, valueAccount_snd]

theorem valueAccounts_sum :
    (valueAccounts source prices currency tally accounts).1.sum =
      tally.sum + (accounts.map fun account =>
        (ownTally source prices currency account).sum).sum := by
  induction accounts generalizing tally with
  | nil => exact (add_zero _).symm
  | cons account accounts ih =>
    rw [valueAccounts_cons_fst, ih, valueAccount_fst, List.map_cons, List.sum_cons, add_assoc]

theorem valueAccounts_priced_le (counted : tally.priced ≤ tally.total) :
    (valueAccounts source prices currency tally accounts).1.priced ≤
      (valueAccounts source prices currency tally accounts).1.total := by
  induction accounts generalizing tally with
  | nil => exact counted
  | cons account accounts ih =>
    rw [valueAccounts_cons_fst]
    apply ih
    rw [valueAccount_fst]
    exact Nat.add_le_add counted (ownTally_priced_le account)

end Accounts

/-! ## The native totals of a wallet -/

section Natives

variable (source : ValuationSource)

/-- The amount, where it is known, that an account adds to the native total of an asset. -/
def nativeAmount (assetId : SyncedAssetId) : AccountView → Option (Option ℚ)
  | .native native =>
    if native.accountState = .active ∧ native.balance.assetId = assetId then
      some (source.knownAmountDecimal native.balance.balanceState)
    else none
  | _ => none

theorem nativeAmount_native (assetId : SyncedAssetId) (native : NativeAccountView) :
    nativeAmount source assetId (.native native) =
      if native.accountState = .active ∧ native.balance.assetId = assetId then
        some (source.knownAmountDecimal native.balance.balanceState)
      else none := rfl

def addAmount (total : Option (Option ℚ)) (amount : Option ℚ) : Option (Option ℚ) :=
  some (amount.bind fun amount => (total.getD (some 0)).map (· + amount))

/-- The sum of amounts that are all known. -/
def knownSum (amounts : List (Option ℚ)) : Option ℚ :=
  if none ∈ amounts then none else some (amounts.map (·.getD 0)).sum

variable {source} (totals : SyncedAssetId → Option (Option ℚ)) (assetId : SyncedAssetId)

theorem addActiveNative_apply (account : AccountView) :
    source.addActiveNative totals account assetId =
      (nativeAmount source assetId account).toList.foldl addAmount (totals assetId) := by
  cases account with
  | custom custom => rfl
  | manual manual => rfl
  | native native =>
    cases state : native.accountState with
    | inactive => simp [ValuationSource.addActiveNative, nativeAmount, state]
    | active =>
      by_cases same : native.balance.assetId = assetId
      · subst same
        simp only [ValuationSource.addActiveNative, nativeAmount, state,
          accountIsActive_active, ↓reduceIte, Function.update_self, true_and,
          Option.toList_some, List.foldl_cons, List.foldl_nil, addAmount]
        cases source.knownAmountDecimal native.balance.balanceState <;> rfl
      · simp only [ValuationSource.addActiveNative, nativeAmount, state,
          accountIsActive_active, ↓reduceIte, same, and_false, Option.toList_none,
          List.foldl_nil]
        exact Function.update_of_ne (Ne.symm same) _ _

theorem foldl_addActiveNative_apply (accounts : List AccountView) :
    accounts.foldl source.addActiveNative totals assetId =
      (accounts.filterMap (nativeAmount source assetId)).foldl addAmount (totals assetId) := by
  induction accounts generalizing totals with
  | nil => rfl
  | cons account accounts ih =>
    rw [List.foldl_cons, ih, addActiveNative_apply]
    cases added : nativeAmount source assetId account with
    | none => rw [List.filterMap_cons_none added]; rfl
    | some amount => rw [List.filterMap_cons_some added]; rfl

theorem foldl_addAmount_some (amounts : List (Option ℚ)) (total : Option ℚ) :
    amounts.foldl addAmount (some total) =
      some (total.bind fun total => (knownSum amounts).map (total + ·)) := by
  induction amounts generalizing total with
  | nil => cases total <;> simp [knownSum]
  | cons amount amounts ih =>
    rw [List.foldl_cons, addAmount, ih]
    cases total with
    | none => cases amount <;> rfl
    | some total =>
      cases amount with
      | none => simp [knownSum]
      | some amount =>
        by_cases missing : none ∈ amounts
        · simp [knownSum, missing]
        · simp [knownSum, missing, add_assoc]

theorem activeNativeTotals_apply (accounts : List AccountView) :
    source.activeNativeTotals accounts assetId =
      let amounts := accounts.filterMap (nativeAmount source assetId)
      if amounts = [] then none else some (knownSum amounts) := by
  unfold ValuationSource.activeNativeTotals
  rw [foldl_addActiveNative_apply]
  cases accounts.filterMap (nativeAmount source assetId) with
  | nil => rfl
  | cons amount amounts =>
    have started : (amount :: amounts).foldl addAmount none =
        (amount :: amounts).foldl addAmount (some (some 0)) := rfl
    rw [started, foldl_addAmount_some]
    simp

end Natives

section NativeShares

variable (source : ValuationSource) (prices : String → Option ℚ) (currency : String)

/-- The asset in whose total an account is counted. -/
def nativeAsset : AccountView → Option SyncedAssetId
  | .native native => if native.accountState = .active then some native.balance.assetId else none
  | _ => none

theorem nativeAsset_native (native : NativeAccountView) :
    nativeAsset (.native native) =
      if native.accountState = .active then some native.balance.assetId else none := rfl

/-- The share of an account that is valued with its asset. -/
def nativeShare : AccountView → ℚ
  | .native native => share source prices currency (.native native)
  | _ => 0

/-- Every active native account's balance is known. -/
def NativesKnown (accounts : List AccountView) : Prop :=
  ∀ native, .native native ∈ accounts → native.accountState = .active →
    (source.knownAmountDecimal native.balance.balanceState).isSome

/-- The price of an asset, nothing where there is none. -/
def assetPrice (assetId : SyncedAssetId) : ℚ :=
  ((coingeckoPriceRef assetId).bind prices).getD 0

variable {source prices currency} {accounts : List AccountView}

theorem nativeShare_add_ownTally (account : AccountView) :
    nativeShare source prices currency account + (ownTally source prices currency account).sum =
      share source prices currency account := by
  cases account with
  | native native => exact add_zero _
  | manual manual => exact zero_add _
  | custom custom => simp [nativeShare, ownTally, share, valueByPrices]

theorem share_eq {account : AccountView} {amount : ℚ} (active : account.IsActive)
    (known : source.knownAmountDecimal account.balanceState = some amount) :
    share source prices currency account =
      ((providerAssetId source account).bind prices).getD 0 * amount := by
  unfold share valueByPrices
  rw [if_pos active, known]
  cases providerAssetId source account with
  | none => exact (zero_mul _).symm
  | some id => cases priced : prices id <;> simp [priced]

theorem none_notMem_nativeAmounts (known : NativesKnown source accounts)
    (assetId : SyncedAssetId) : none ∉ accounts.filterMap (nativeAmount source assetId) := by
  intro member
  obtain ⟨account, present, missing⟩ := List.mem_filterMap.mp member
  cases account with
  | custom custom => exact absurd missing nofun
  | manual manual => exact absurd missing nofun
  | native native =>
    rw [nativeAmount_native] at missing
    split_ifs at missing with held
    have isKnown := known native present held.1
    rw [Option.some.inj missing] at isKnown
    exact absurd isKnown Bool.false_ne_true

theorem activeNativeTotals_known_iff :
    (syncedAssetIds.all fun assetId =>
        source.activeNativeTotals accounts assetId != some none) = true ↔
      NativesKnown source accounts := by
  rw [List.all_eq_true]
  constructor
  · intro all native present active
    by_contra missing
    have unknown := Option.not_isSome_iff_eq_none.mp missing
    have member : none ∈ accounts.filterMap (nativeAmount source native.balance.assetId) :=
      List.mem_filterMap.mpr ⟨.native native, present, by
        rw [nativeAmount_native, if_pos ⟨active, rfl⟩, unknown]⟩
    have total := all native.balance.assetId
      (by cases native.balance.assetId <;> simp [syncedAssetIds])
    rw [activeNativeTotals_apply] at total
    simp [List.ne_nil_of_mem member, knownSum, member] at total
  · intro known assetId _
    rw [activeNativeTotals_apply]
    by_cases empty : accounts.filterMap (nativeAmount source assetId) = []
    · simp [empty]
    · simp [empty, knownSum, none_notMem_nativeAmounts known assetId]

theorem groupSum_nativeAsset (known : NativesKnown source accounts) (assetId : SyncedAssetId) :
    groupSum nativeAsset (nativeShare source prices currency) accounts assetId =
      assetPrice prices assetId *
        ((accounts.filterMap (nativeAmount source assetId)).map (·.getD 0)).sum := by
  induction accounts with
  | nil => exact (mul_zero _).symm
  | cons account accounts ih =>
    have later : NativesKnown source accounts := fun native present =>
      known native (.tail _ present)
    rw [groupSum_cons, ih later]
    cases account with
    | custom custom => exact zero_add _
    | manual manual => exact zero_add _
    | native native =>
      by_cases held : native.accountState = .active ∧ native.balance.assetId = assetId
      · obtain ⟨active, same⟩ := held
        obtain ⟨amount, isKnown⟩ := Option.isSome_iff_exists.mp (known native (.head _) active)
        have added : nativeAmount source assetId (.native native) = some (some amount) := by
          rw [nativeAmount_native, if_pos ⟨active, same⟩, isKnown]
        have keyed : nativeAsset (.native native) = some assetId := by
          rw [nativeAsset_native, if_pos active, same]
        have shared : share source prices currency (.native native) =
            assetPrice prices native.balance.assetId * amount :=
          share_eq ((AccountView.isActive_native native).mpr active) isKnown
        rw [if_pos keyed, List.filterMap_cons_some added, List.map_cons, List.sum_cons, mul_add,
          nativeShare, shared, same]
        rfl
      · have added : nativeAmount source assetId (.native native) = none := by
          rw [nativeAmount_native, if_neg held]
        have keyed : nativeAsset (.native native) ≠ some assetId := by
          rw [nativeAsset_native]
          split_ifs with active
          · exact fun same => held ⟨active, Option.some.inj same⟩
          · exact nofun
        rw [if_neg keyed, List.filterMap_cons_none added, zero_add]

variable (totals : SyncedAssetId → Option (Option ℚ)) (tally : WalletTally)
  (assetId : SyncedAssetId)

theorem tallyNative_sum :
    (tallyNative prices currency totals tally assetId).sum =
      tally.sum + assetPrice prices assetId * ((totals assetId).bind id).getD 0 := by
  unfold tallyNative assetPrice
  cases totals assetId with
  | none => simp
  | some amount =>
    cases amount with
    | none => simp; split <;> rfl
    | some amount =>
      simp only [Option.bind_some, currentValueForSyncedAmount_eq]
      cases (coingeckoPriceRef assetId).bind prices with
      | none => simp; split <;> rfl
      | some price => simp; split <;> rfl

theorem tallyNative_priced_le (counted : tally.priced ≤ tally.total) :
    (tallyNative prices currency totals tally assetId).priced ≤
      (tallyNative prices currency totals tally assetId).total := by
  have requested : (priceRequestForSyncedAsset assetId).isSome := by cases assetId <;> rfl
  unfold tallyNative
  cases totals assetId with
  | none => exact counted
  | some amount =>
    simp only [requested, ↓reduceIte]
    split
    · exact Nat.succ_le_succ counted
    · exact Nat.le_succ_of_le counted

end NativeShares

/-! ## One wallet -/

section OneWallet

variable {source : ValuationSource} {prices : String → Option ℚ} {currency : String}
  (wallet : WalletView)

theorem foldl_tallyNative_sum (totals : SyncedAssetId → Option (Option ℚ)) :
    (syncedAssetIds.foldl (tallyNative prices currency totals) ⟨0, 0, 0⟩).sum =
      (syncedAssetIds.map fun assetId =>
        assetPrice prices assetId * ((totals assetId).bind id).getD 0).sum := by
  simp only [syncedAssetIds, List.foldl_cons, List.foldl_nil, tallyNative_sum, List.map_cons,
    List.map_nil, List.sum_cons, List.sum_nil, zero_add, add_zero]

theorem foldl_tallyNative_priced_le (totals : SyncedAssetId → Option (Option ℚ)) :
    (syncedAssetIds.foldl (tallyNative prices currency totals) ⟨0, 0, 0⟩).priced ≤
      (syncedAssetIds.foldl (tallyNative prices currency totals) ⟨0, 0, 0⟩).total :=
  tallyNative_priced_le totals _ _ (tallyNative_priced_le totals _ _ le_rfl)

theorem valueAccounts_sum_of_nativesKnown {accounts : List AccountView}
    (known : NativesKnown source accounts) :
    (valueAccounts source prices currency (syncedAssetIds.foldl
        (tallyNative prices currency (source.activeNativeTotals accounts)) ⟨0, 0, 0⟩)
      accounts).1.sum = (accounts.map (share source prices currency)).sum := by
  have natives : (syncedAssetIds.map fun assetId => assetPrice prices assetId *
      ((source.activeNativeTotals accounts assetId).bind id).getD 0).sum =
        (accounts.map (nativeShare source prices currency)).sum := by
    have nodup : syncedAssetIds.Nodup := by decide
    rw [← sum_groupSum nativeAsset (nativeShare source prices currency) nodup]
    · apply congrArg
      apply List.map_congr_left
      intro assetId _
      rw [groupSum_nativeAsset known, activeNativeTotals_apply]
      cases empty : accounts.filterMap (nativeAmount source assetId) with
      | nil => rfl
      | cons amount amounts =>
        have all := none_notMem_nativeAmounts known assetId
        rw [empty] at all
        simp [knownSum, all]
    · intro account _ valued
      cases account with
      | custom custom => exact absurd rfl valued
      | manual manual => exact absurd rfl valued
      | native native =>
        cases state : native.accountState with
        | inactive => exact absurd (by simp [nativeShare, share, valueByPrices, state]) valued
        | active =>
          refine ⟨native.balance.assetId, ?_, ?_⟩
          · cases native.balance.assetId <;> simp [syncedAssetIds]
          · rw [nativeAsset_native, if_pos state]
  rw [valueAccounts_sum, foldl_tallyNative_sum, natives, ← List.sum_map_add]
  exact congrArg List.sum (List.map_congr_left fun account _ => nativeShare_add_ownTally account)

theorem valueOneWallet_of_nativesKnown (known : NativesKnown source wallet.accounts) :
    (valueOneWallet source prices currency wallet).1.2.2 =
      some (wallet.accounts.map (share source prices currency)).sum := by
  simp only [valueOneWallet, activeNativeTotals_known_iff.mpr known, ↓reduceIte,
    valueAccounts_sum_of_nativesKnown known]

theorem valueOneWallet_of_not_nativesKnown (unknown : ¬ NativesKnown source wallet.accounts) :
    (valueOneWallet source prices currency wallet).1.2.2 = none := by
  simp only [valueOneWallet, mt activeNativeTotals_known_iff.mp unknown, ↓reduceIte,
    Bool.false_eq_true]

theorem valueOneWallet_priced_le :
    (valueOneWallet source prices currency wallet).1.1 ≤
      (valueOneWallet source prices currency wallet).1.2.1 := by
  simp only [valueOneWallet]
  split_ifs
  · exact valueAccounts_priced_le _ _ (foldl_tallyNative_priced_le _)
  · exact Nat.zero_le _

theorem valueOneWallet_accounts :
    (valueOneWallet source prices currency wallet).2.accounts =
      wallet.accounts.map fun account =>
        account.withValue (valueAfter source prices currency account) :=
  valueAccounts_snd _ _

theorem valueOneWallet_balances :
    (valueOneWallet source prices currency wallet).2.balances =
      wallet.balances.map fun balance =>
        { balance with
          currentValue := valueAggregate source prices currency wallet.accounts balance } := rfl

end OneWallet

/-! ## Aggregate balances -/

section Aggregates

/-- The asset on its network that an aggregate balance is of. -/
def WalletAggregateBalanceView.key (balance : WalletAggregateBalanceView) : String × String :=
  (balance.assetId, balance.networkId)

variable (source : ValuationSource) (prices : String → Option ℚ) (currency : String)

/-- The asset on its network that an account holds. -/
def heldInstance : AccountView → Option (String × String)
  | .native native => some (syncedAssetInstance native.asset)
  | .custom _ => none
  | .manual manual => (source.manualRow manual).map fun row => (row.assetId, row.networkId)

def heldAmount (account : AccountView) : ℚ :=
  (source.knownAmountDecimal account.balanceState).getD 0

/-- The aggregate balances of a wallet without inactive accounts are what its accounts have of each
asset, valued by one price id; none of unknown amount has an account for which there is a price. -/
structure Aggregated (wallet : WalletView) : Prop where
  not_isInactive : ∀ account ∈ wallet.accounts, ¬ account.IsInactive
  native_asset : ∀ native, .native native ∈ wallet.accounts → native.balance.assetId = native.asset
  keys_nodup : (wallet.balances.map (·.key)).Nodup
  held_mem : ∀ account ∈ wallet.accounts, ∀ held, heldInstance source account = some held →
    held ∈ wallet.balances.map (·.key)
  one_price : ∀ account ∈ wallet.accounts, ∀ other ∈ wallet.accounts,
    heldInstance source account = heldInstance source other →
      providerAssetId source account = providerAssetId source other
  not_marked : ∀ balance ∈ wallet.balances,
    .inactiveAccountNotSyncing ∉ balance.balanceReliability.reasons
  known : ∀ balance ∈ wallet.balances, ∀ amount,
    source.knownAmountDecimal balance.balanceState = some amount →
      amount = groupSum (heldInstance source) (heldAmount source) wallet.accounts balance.key ∧
        ∀ account ∈ wallet.accounts, heldInstance source account = some balance.key →
          (source.knownAmountDecimal account.balanceState).isSome
  unknown : ∀ balance ∈ wallet.balances,
    source.knownAmountDecimal balance.balanceState = none →
      ∀ account ∈ wallet.accounts, heldInstance source account = some balance.key →
        valueByPrices source prices currency account = none

variable {source prices currency} {accounts : List AccountView}
  {balance : WalletAggregateBalanceView}

theorem aggregateHasInactiveComponent_eq_false
    (active : ∀ account ∈ accounts, ¬ account.IsInactive) :
    source.aggregateHasInactiveComponent balance accounts = false := by
  unfold ValuationSource.aggregateHasInactiveComponent
  rw [List.any_eq_false]
  intro account present
  have state := active account present
  cases account with
  | custom custom => exact Bool.false_ne_true
  | native native =>
    have shown := eq_active_of_ne_inactive state
    simp [shown]
  | manual manual =>
    have shown := eq_active_of_ne_inactive state
    simp [shown]

theorem aggregateProviderAssetId_eq {provider : Option String}
    (active : ∀ account ∈ accounts, ¬ account.IsInactive)
    (native_asset : ∀ native, .native native ∈ accounts → native.balance.assetId = native.asset)
    (provided : ∀ account ∈ accounts, heldInstance source account = some balance.key →
      providerAssetId source account = provider) :
    source.aggregateProviderAssetId balance accounts =
      if ∃ account ∈ accounts, heldInstance source account = some balance.key then provider
      else none := by
  induction accounts with
  | nil => simp [ValuationSource.aggregateProviderAssetId]
  | cons account accounts ih =>
    have later := ih (fun other present => active other (.tail _ present))
      (fun native present => native_asset native (.tail _ present))
      (fun other present => provided other (.tail _ present))
    have here := provided account (.head _)
    by_cases held : heldInstance source account = some balance.key
    · rw [if_pos ⟨account, .head _, held⟩, ← here held]
      cases account with
      | custom custom => exact absurd held nofun
      | native native =>
        have shown := eq_active_of_ne_inactive (active (.native native) (.head _))
        have same : syncedAssetInstance native.asset = (balance.assetId, balance.networkId) :=
          Option.some.inj held
        simp only [ValuationSource.aggregateProviderAssetId, shown, accountIsActive_active, same,
          true_and, ↓reduceIte, providerAssetId, native_asset native (.head _)]
        cases native.asset <;> rfl
      | manual manual =>
        have shown := eq_active_of_ne_inactive (active (.manual manual) (.head _))
        obtain ⟨row, found, same⟩ := Option.map_eq_some_iff.mp held
        obtain ⟨assetId, networkId⟩ := Prod.mk.inj same
        simp only [ValuationSource.aggregateProviderAssetId, shown, accountIsActive_active, found,
          assetId, networkId, and_self, ↓reduceIte, providerAssetId, Option.bind_some]
    · have skipped : (∃ other ∈ account :: accounts,
          heldInstance source other = some balance.key) ↔
            ∃ other ∈ accounts, heldInstance source other = some balance.key := by
        simp [held]
      rw [if_congr skipped rfl rfl, ← later]
      cases account with
      | custom custom => rfl
      | native native =>
        have other : syncedAssetInstance native.asset ≠ (balance.assetId, balance.networkId) :=
          fun same => held (congrArg some same)
        simp only [ValuationSource.aggregateProviderAssetId, other, and_false, ↓reduceIte]
      | manual manual =>
        have shown := eq_active_of_ne_inactive (active (.manual manual) (.head _))
        cases found : source.manualRow manual with
        | none =>
          simp only [ValuationSource.aggregateProviderAssetId, shown, accountIsActive_active,
            ↓reduceIte, found]
        | some row =>
          have other : ¬ (row.assetId = balance.assetId ∧
              row.networkId = balance.networkId) := by
            rintro ⟨assetId, networkId⟩
            apply held
            change (source.manualRow manual).map _ = _
            rw [found, Option.map_some, assetId, networkId]
            rfl
          simp only [ValuationSource.aggregateProviderAssetId, shown, accountIsActive_active,
            ↓reduceIte, found, other]

theorem isActive_of_heldInstance {account : AccountView} {held : String × String}
    (active : ¬ account.IsInactive) (holds : heldInstance source account = some held) :
    account.IsActive := by
  cases account with
  | custom custom => exact absurd holds nofun
  | native native => exact eq_active_of_ne_inactive active
  | manual manual => exact eq_active_of_ne_inactive active

theorem valueAggregate_eq {wallet : WalletView} (holds : Aggregated source prices currency wallet)
    (member : balance ∈ wallet.balances) :
    valueAggregate source prices currency wallet.accounts balance =
      ((source.aggregateProviderAssetId balance wallet.accounts).bind fun id =>
        (source.knownAmountDecimal balance.balanceState).bind fun amount =>
          (prices id).map fun price => ⟨price, price * amount, currency⟩) := by
  have unmarked :
      balance.balanceReliability.reasons.contains .inactiveAccountNotSyncing = false := by
    rw [List.contains_eq_mem, decide_eq_false_iff_not]
    exact holds.not_marked balance member
  unfold valueAggregate
  simp only [unmarked, aggregateHasInactiveComponent_eq_false holds.not_isInactive, Bool.or_self,
    Bool.false_eq_true, ↓reduceIte]
  cases source.aggregateProviderAssetId balance wallet.accounts with
  | none => rfl
  | some id => cases source.knownAmountDecimal balance.balanceState <;> rfl

theorem convertedValue_valueAggregate {wallet : WalletView}
    (holds : Aggregated source prices currency wallet) (member : balance ∈ wallet.balances) :
    ((valueAggregate source prices currency wallet.accounts balance).map
        (·.convertedValue)).getD 0 =
      groupSum (heldInstance source) (share source prices currency) wallet.accounts
        balance.key := by
  rw [valueAggregate_eq holds member]
  cases known : source.knownAmountDecimal balance.balanceState with
  | none =>
    have worthless : groupSum (heldInstance source) (share source prices currency)
        wallet.accounts balance.key =
          groupSum (heldInstance source) (fun _ => (0 : ℚ)) wallet.accounts balance.key := by
      apply groupSum_congr
      intro account present held
      unfold share
      rw [holds.unknown balance member known account present held]
      rfl
    rw [worthless, groupSum_zero]
    cases source.aggregateProviderAssetId balance wallet.accounts <;> rfl
  | some amount =>
    obtain ⟨total, amountsKnown⟩ := holds.known balance member amount known
    by_cases component : ∃ account ∈ wallet.accounts,
        heldInstance source account = some balance.key
    · obtain ⟨first, firstPresent, firstHeld⟩ := component
      have provided : ∀ account ∈ wallet.accounts,
          heldInstance source account = some balance.key →
            providerAssetId source account = providerAssetId source first :=
        fun account present held =>
          holds.one_price account present first firstPresent (held.trans firstHeld.symm)
      have worth : groupSum (heldInstance source) (share source prices currency)
          wallet.accounts balance.key =
            groupSum (heldInstance source) (fun account =>
              ((providerAssetId source first).bind prices).getD 0 * heldAmount source account)
              wallet.accounts balance.key := by
        apply groupSum_congr
        intro account present held
        obtain ⟨amount, isKnown⟩ :=
          Option.isSome_iff_exists.mp (amountsKnown account present held)
        have active := isActive_of_heldInstance (holds.not_isInactive account present) held
        rw [share_eq active isKnown, provided account present held, heldAmount, isKnown]
        rfl
      rw [worth, groupSum_mul_left, ← total, aggregateProviderAssetId_eq holds.not_isInactive
        holds.native_asset provided, if_pos ⟨first, firstPresent, firstHeld⟩]
      cases providerAssetId source first with
      | none => exact (zero_mul _).symm
      | some id => cases priced : prices id <;> simp [priced]
    · have nothing : groupSum (heldInstance source) (share source prices currency)
          wallet.accounts balance.key =
            groupSum (heldInstance source) (fun _ => (0 : ℚ)) wallet.accounts balance.key := by
        apply groupSum_congr
        intro account present held
        exact absurd ⟨account, present, held⟩ component
      have unprovided : source.aggregateProviderAssetId balance wallet.accounts =
          if ∃ account ∈ wallet.accounts, heldInstance source account = some balance.key then none
          else none :=
        aggregateProviderAssetId_eq holds.not_isInactive holds.native_asset
          fun account present held => absurd ⟨account, present, held⟩ component
      rw [nothing, groupSum_zero, unprovided, ite_self]
      rfl

theorem sum_valueAggregate {wallet : WalletView}
    (holds : Aggregated source prices currency wallet) :
    (wallet.balances.map fun balance => ((valueAggregate source prices currency wallet.accounts
        balance).map (·.convertedValue)).getD 0).sum =
      (wallet.accounts.map (share source prices currency)).sum := by
  rw [← sum_groupSum (heldInstance source) (share source prices currency) holds.keys_nodup,
    List.map_map]
  · exact congrArg List.sum (List.map_congr_left fun balance member =>
      convertedValue_valueAggregate holds member)
  · intro account present valued
    cases held : heldInstance source account with
    | some key => exact ⟨key, holds.held_mem account present key held, rfl⟩
    | none =>
      apply absurd _ valued
      cases account with
      | native native => exact absurd held nofun
      | custom custom => simp [share, valueByPrices]
      | manual manual =>
        have missing := Option.map_eq_none_iff.mp held
        simp [share, valueByPrices, providerAssetId, missing]

end Aggregates

end Bitgarth.Prices.WalletValues
