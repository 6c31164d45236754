import Bitgarth.Prices.WalletValuations

/-! # Valued wallets on their page

A valued wallet shows a total exactly where its natives are known. Valuing it again depends on the
later prices only, unless these leave out an account that the earlier ones had a price for.
-/

namespace Bitgarth.Prices.WalletValues

open Sync (SyncedAssetId)
open GroupedSums

/-! ## Attached values are not read -/

section Unread

variable {source : ValuationSource} {prices : String → Option ℚ} {currency : String}
  (value : Option CurrentAssetValueView) (values : AccountView → Option CurrentAssetValueView)
  (account : AccountView) (accounts : List AccountView) (balance : WalletAggregateBalanceView)

@[simp] theorem valueByPrices_withValue :
    valueByPrices source prices currency (account.withValue value) =
      valueByPrices source prices currency account := by
  cases account <;> rfl

@[simp] theorem isInactive_withValue :
    (account.withValue value).IsInactive ↔ account.IsInactive := by
  cases account <;> rfl

theorem ownTally_withValue :
    ownTally source prices currency (account.withValue value) =
      ownTally source prices currency account := by
  cases account <;> rfl

theorem addActiveNative_withValue (totals : SyncedAssetId → Option (Option ℚ)) :
    source.addActiveNative totals (account.withValue value) =
      source.addActiveNative totals account := by
  cases account <;> rfl

theorem activeNativeTotals_withValues :
    source.activeNativeTotals (accounts.map fun account => account.withValue (values account)) =
      source.activeNativeTotals accounts := by
  unfold ValuationSource.activeNativeTotals
  rw [List.foldl_map]
  simp only [addActiveNative_withValue]

theorem valueAccounts_fst_withValues (tally : WalletTally) :
    (valueAccounts source prices currency tally
        (accounts.map fun account => account.withValue (values account))).1 =
      (valueAccounts source prices currency tally accounts).1 := by
  induction accounts generalizing tally with
  | nil => rfl
  | cons account accounts ih =>
    rw [List.map_cons, valueAccounts_cons_fst, valueAccounts_cons_fst, ih, valueAccount_fst,
      valueAccount_fst, ownTally_withValue]

theorem aggregateHasInactiveComponent_withValues :
    source.aggregateHasInactiveComponent { balance with currentValue := value }
        (accounts.map fun account => account.withValue (values account)) =
      source.aggregateHasInactiveComponent balance accounts := by
  unfold ValuationSource.aggregateHasInactiveComponent
  rw [List.any_map]
  apply congrArg (accounts.any ·)
  funext account
  cases account <;> rfl

theorem aggregateProviderAssetId_withValues :
    source.aggregateProviderAssetId { balance with currentValue := value }
        (accounts.map fun account => account.withValue (values account)) =
      source.aggregateProviderAssetId balance accounts := by
  induction accounts with
  | nil => rfl
  | cons account accounts ih =>
    rw [List.map_cons]
    generalize accounts.map (fun account => account.withValue (values account)) = later at ih ⊢
    cases account with
    | custom custom => exact ih
    | native native =>
      simp only [AccountView.withValue, ValuationSource.aggregateProviderAssetId, ih]
    | manual manual =>
      have same : source.manualRow { manual with currentValue := values (.manual manual) } =
          source.manualRow manual := rfl
      simp only [AccountView.withValue, ValuationSource.aggregateProviderAssetId, ih, same]

theorem valueAggregate_withValues :
    valueAggregate source prices currency
        (accounts.map fun account => account.withValue (values account))
        { balance with currentValue := value } =
      valueAggregate source prices currency accounts balance := by
  unfold valueAggregate
  rw [aggregateHasInactiveComponent_withValues, aggregateProviderAssetId_withValues]

end Unread

/-! ## A valued wallet -/

section ValuedWallet

variable (source : ValuationSource) (prices : String → Option ℚ) (currency : String)
  (wallet : WalletView)

/-- A wallet after its valuation. -/
def valuedWallet : WalletView where
  balances := wallet.balances.map fun balance =>
    { balance with currentValue := valueAggregate source prices currency wallet.accounts balance }
  accounts := wallet.accounts.map fun account =>
    account.withValue (valueAfter source prices currency account)
  valueSummary :=
    let (walletPriced, walletTotal, walletValue) :=
      (valueOneWallet source prices currency wallet).1
    walletValue.map fun walletValue => ⟨walletValue, currency, walletPriced, walletTotal⟩

variable {source prices currency} (page : WalletsValueSummaryView)

theorem valuedWallet_valueSummary :
    (valuedWallet source prices currency wallet).valueSummary =
      (valueOneWallet source prices currency wallet).1.2.2.map fun walletValue =>
        ⟨walletValue, currency, (valueOneWallet source prices currency wallet).1.1,
          (valueOneWallet source prices currency wallet).1.2.1⟩ := rfl

theorem valuePageWallet_snd :
    (valuePageWallet source prices currency page wallet).2 =
      valuedWallet source prices currency wallet := by
  unfold valuePageWallet valuedWallet
  rw [← valueOneWallet_accounts, ← valueOneWallet_balances]
  dsimp only
  cases (valueOneWallet source prices currency wallet).1.2.2 <;> rfl

theorem valuePageWallet_fst :
    (valuePageWallet source prices currency page wallet).1 =
      let summary := (valuedWallet source prices currency wallet).valueSummary
      let counts := (valueOneWallet source prices currency wallet).1
      { page with
        pricedTotal := page.pricedTotal + (summary.map (·.pricedTotal)).getD 0
        pricedAssetCount := page.pricedAssetCount + counts.1
        totalAssetCount := page.totalAssetCount + counts.2.1
        pricedWalletCount := page.pricedWalletCount +
          if summary.isSome ∧ 0 < counts.2.1 ∧ counts.1 = counts.2.1 then 1 else 0 } := by
  unfold valuePageWallet valuedWallet
  dsimp only
  cases (valueOneWallet source prices currency wallet).1.2.2 with
  | none => simp
  | some walletValue =>
    simp only [Option.map_some, Option.getD_some, Option.isSome_some, true_and, gt_iff_lt]
    split <;> rfl

theorem valueOneWallet_valuedWallet {later : String → Option ℚ} {laterCurrency : String} :
    (valueOneWallet source later laterCurrency (valuedWallet source prices currency wallet)).1 =
      (valueOneWallet source later laterCurrency wallet).1 := by
  simp only [valueOneWallet, valuedWallet, activeNativeTotals_withValues,
    valueAccounts_fst_withValues]

theorem valueAfter_valueAfter {later : String → Option ℚ} {laterCurrency : String}
    {account : AccountView}
    (covered : (valueByPrices source prices currency account).isSome →
      (valueByPrices source later laterCurrency account).isSome) :
    valueAfter source later laterCurrency
        (account.withValue (valueAfter source prices currency account)) =
      valueAfter source later laterCurrency account := by
  unfold valueAfter
  simp only [AccountView.isActive_withValue, isInactive_withValue, valueByPrices_withValue,
    AccountView.currentValue_withValue]
  split_ifs with active inactive
  · cases priced : valueByPrices source later laterCurrency account with
    | some value => rfl
    | none =>
      rw [priced] at covered
      rw [Option.not_isSome_iff_eq_none.mp fun earlier =>
        absurd (covered earlier) Bool.false_ne_true]
      rfl
  · rfl
  · rfl

theorem valuedWallet_valuedWallet {later : String → Option ℚ} {laterCurrency : String}
    (covered : ∀ account ∈ wallet.accounts,
      (valueByPrices source prices currency account).isSome →
        (valueByPrices source later laterCurrency account).isSome) :
    valuedWallet source later laterCurrency (valuedWallet source prices currency wallet) =
      valuedWallet source later laterCurrency wallet := by
  have accounts : (valuedWallet source later laterCurrency
      (valuedWallet source prices currency wallet)).accounts =
        (valuedWallet source later laterCurrency wallet).accounts := by
    unfold valuedWallet
    dsimp only
    rw [List.map_map]
    apply List.map_congr_left
    intro account present
    change (account.withValue _).withValue _ = _
    rw [AccountView.withValue_withValue, valueAfter_valueAfter (covered account present)]
  have balances : (valuedWallet source later laterCurrency
      (valuedWallet source prices currency wallet)).balances =
        (valuedWallet source later laterCurrency wallet).balances := by
    unfold valuedWallet
    dsimp only
    rw [List.map_map]
    apply List.map_congr_left
    intro balance present
    change { balance with currentValue := valueAggregate _ _ _ _ _ } = _
    rw [valueAggregate_withValues]
  have summaries : (valuedWallet source later laterCurrency
      (valuedWallet source prices currency wallet)).valueSummary =
        (valuedWallet source later laterCurrency wallet).valueSummary := by
    rw [valuedWallet_valueSummary, valuedWallet_valueSummary, valueOneWallet_valuedWallet]
  exact WalletView.mk.injEq .. |>.mpr ⟨balances, accounts, summaries⟩

end ValuedWallet

/-! ## The page -/

section Page

variable {source : ValuationSource} {prices : String → Option ℚ} {currency : String}
  (page : WalletsValueSummaryView) (wallets : List WalletView)

theorem valuePageWallets_cons_fst (wallet : WalletView) :
    (valuePageWallets source prices currency page (wallet :: wallets)).1 =
      (valuePageWallets source prices currency
        (valuePageWallet source prices currency page wallet).1 wallets).1 := rfl

theorem valuePageWallets_cons_snd (wallet : WalletView) :
    (valuePageWallets source prices currency page (wallet :: wallets)).2 =
      (valuePageWallet source prices currency page wallet).2 ::
        (valuePageWallets source prices currency
          (valuePageWallet source prices currency page wallet).1 wallets).2 := rfl

theorem valuePageWallets_snd :
    (valuePageWallets source prices currency page wallets).2 =
      wallets.map (valuedWallet source prices currency) := by
  induction wallets generalizing page with
  | nil => rfl
  | cons wallet wallets ih =>
    rw [valuePageWallets_cons_snd, ih, valuePageWallet_snd, List.map_cons]

theorem valuePageWallets_pricedTotal :
    (valuePageWallets source prices currency page wallets).1.pricedTotal =
      page.pricedTotal + (((wallets.map (valuedWallet source prices currency)).filterMap
        (·.valueSummary)).map (·.pricedTotal)).sum := by
  induction wallets generalizing page with
  | nil => exact (add_zero _).symm
  | cons wallet wallets ih =>
    rw [valuePageWallets_cons_fst, ih, valuePageWallet_fst, List.map_cons]
    cases shown : (valuedWallet source prices currency wallet).valueSummary with
    | none => simp [shown]
    | some summary => simp [shown, add_assoc]

theorem valuePageWallets_priced_le (counted : page.pricedAssetCount ≤ page.totalAssetCount) :
    (valuePageWallets source prices currency page wallets).1.pricedAssetCount ≤
      (valuePageWallets source prices currency page wallets).1.totalAssetCount := by
  induction wallets generalizing page with
  | nil => exact counted
  | cons wallet wallets ih =>
    rw [valuePageWallets_cons_fst]
    apply ih
    rw [valuePageWallet_fst]
    exact Nat.add_le_add counted (valueOneWallet_priced_le wallet)

theorem valuePageWallets_pricedWalletCount_le :
    (valuePageWallets source prices currency page wallets).1.pricedWalletCount ≤
      page.pricedWalletCount + wallets.length := by
  induction wallets generalizing page with
  | nil => exact le_rfl
  | cons wallet wallets ih =>
    rw [valuePageWallets_cons_fst, List.length_cons]
    apply (ih _).trans
    rw [valuePageWallet_fst]
    dsimp only
    split <;> omega

theorem valuePageWallets_totalWalletCount :
    (valuePageWallets source prices currency page wallets).1.totalWalletCount =
      page.totalWalletCount := by
  induction wallets generalizing page with
  | nil => rfl
  | cons wallet wallets ih =>
    rw [valuePageWallets_cons_fst, ih, valuePageWallet_fst]

theorem valuePageWallets_valuedWallets {later : String → Option ℚ} {laterCurrency : String}
    (covered : ∀ wallet ∈ wallets, ∀ account ∈ wallet.accounts,
      (valueByPrices source prices currency account).isSome →
        (valueByPrices source later laterCurrency account).isSome) :
    valuePageWallets source later laterCurrency page
        (wallets.map (valuedWallet source prices currency)) =
      valuePageWallets source later laterCurrency page wallets := by
  induction wallets generalizing page with
  | nil => rfl
  | cons wallet wallets ih =>
    have here := valuedWallet_valuedWallet wallet (covered wallet (.head _))
    have same : valuePageWallet source later laterCurrency page
        (valuedWallet source prices currency wallet) =
          valuePageWallet source later laterCurrency page wallet := by
      apply Prod.ext
      · rw [valuePageWallet_fst, valuePageWallet_fst, here, valueOneWallet_valuedWallet]
      · rw [valuePageWallet_snd, valuePageWallet_snd, here]
    rw [List.map_cons]
    apply Prod.ext
    · rw [valuePageWallets_cons_fst, valuePageWallets_cons_fst, same,
        ih _ fun other present => covered other (.tail _ present)]
    · rw [valuePageWallets_cons_snd, valuePageWallets_cons_snd, same,
        ih _ fun other present => covered other (.tail _ present)]

end Page

/-! ## Consistency of the three levels -/

section Consistency

/-- The sum of attached values. -/
def convertedTotal (values : List (Option CurrentAssetValueView)) : ℚ :=
  (values.map fun value => (value.map (·.convertedValue)).getD 0).sum

variable (source : ValuationSource) (prices : String → Option ℚ) (currency : String)

/-- No active account that these prices leave without a value has one from before. -/
def NothingKept (wallet : WalletView) : Prop :=
  ∀ account ∈ wallet.accounts, account.IsActive →
    valueByPrices source prices currency account = none → account.currentValue = none

/-- A wallet's summary agrees with the values attached to its accounts and balances. -/
structure ConsistentlyValued (wallet valued : WalletView) : Prop where
  summary_iff : valued.valueSummary.isSome ↔ NativesKnown source wallet.accounts
  priced_total : ∀ summary ∈ valued.valueSummary, summary.pricedTotal =
    convertedTotal ((valued.accounts.filter fun account =>
      (valueByPrices source prices currency account).isSome).map (·.currentValue))
  active_total : NothingKept source prices currency wallet →
    ∀ summary ∈ valued.valueSummary, summary.pricedTotal =
      convertedTotal ((valued.accounts.filter fun account => account.IsActive).map (·.currentValue))
  balances_total : Aggregated source prices currency wallet →
    ∀ summary ∈ valued.valueSummary, summary.pricedTotal =
      convertedTotal (valued.balances.map (·.currentValue))
  counts : ∀ summary ∈ valued.valueSummary, summary.pricedAssetCount ≤ summary.totalAssetCount

variable {source prices currency} (wallet : WalletView)

theorem convertedTotal_filter (keep : AccountView → Bool) (accounts : List AccountView)
    (kept : ∀ account ∈ accounts, keep account = true →
      (account.currentValue.map (·.convertedValue)).getD 0 = share source prices currency account)
    (dropped : ∀ account ∈ accounts, keep account = false →
      share source prices currency account = 0) :
    convertedTotal ((accounts.filter keep).map (·.currentValue)) =
      (accounts.map (share source prices currency)).sum := by
  induction accounts with
  | nil => rfl
  | cons account accounts ih =>
    have later := ih (fun other present => kept other (.tail _ present))
      (fun other present => dropped other (.tail _ present))
    cases shown : keep account with
    | false =>
      rw [List.filter_cons_of_neg (by simp [shown]), later, List.map_cons, List.sum_cons,
        dropped account (.head _) shown, zero_add]
    | true =>
      rw [List.filter_cons_of_pos shown, List.map_cons, List.map_cons, List.sum_cons, ← later,
        ← kept account (.head _) shown]
      exact List.sum_cons

theorem share_withValue (value : Option CurrentAssetValueView) (account : AccountView) :
    share source prices currency (account.withValue value) =
      share source prices currency account := by
  unfold share
  rw [valueByPrices_withValue]

theorem sum_share_valuedWallet :
    ((valuedWallet source prices currency wallet).accounts.map
        (share source prices currency)).sum =
      (wallet.accounts.map (share source prices currency)).sum := by
  change ((wallet.accounts.map _).map _).sum = _
  rw [List.map_map]
  exact congrArg List.sum (List.map_congr_left fun account _ => share_withValue _ account)

theorem pricedTotal_of_mem {summary : WalletValueSummaryView}
    (shown : summary ∈ (valuedWallet source prices currency wallet).valueSummary) :
    summary.pricedTotal = (wallet.accounts.map (share source prices currency)).sum := by
  rw [valuedWallet_valueSummary] at shown
  obtain ⟨walletValue, valued, rfl⟩ := Option.map_eq_some_iff.mp shown
  by_cases known : NativesKnown source wallet.accounts
  · rw [valueOneWallet_of_nativesKnown wallet known] at valued
    exact (Option.some.inj valued).symm
  · rw [valueOneWallet_of_not_nativesKnown wallet known] at valued
    exact absurd valued nofun

theorem consistentlyValued :
    ConsistentlyValued source prices currency wallet
      (valuedWallet source prices currency wallet) where
  summary_iff := by
    rw [valuedWallet_valueSummary, Option.isSome_map]
    by_cases known : NativesKnown source wallet.accounts
    · rw [valueOneWallet_of_nativesKnown wallet known]
      exact iff_of_true rfl known
    · rw [valueOneWallet_of_not_nativesKnown wallet known]
      exact iff_of_false Bool.false_ne_true known
  priced_total := by
    intro summary shown
    rw [pricedTotal_of_mem wallet shown, ← sum_share_valuedWallet]
    symm
    apply convertedTotal_filter
    · intro account present priced
      obtain ⟨before, _, rfl⟩ := List.mem_map.mp present
      rw [valueByPrices_withValue] at priced
      obtain ⟨value, valued⟩ := Option.isSome_iff_exists.mp priced
      have active := (valueByPrices_eq_some.mp valued).1
      rw [AccountView.currentValue_withValue, share_withValue, valueAfter, if_pos active, share,
        valued]
      rfl
    · intro account _ unpriced
      unfold share
      rw [Option.isSome_eq_false_iff.mp unpriced |> Option.isNone_iff_eq_none.mp]
      rfl
  active_total := by
    intro nothing summary shown
    rw [pricedTotal_of_mem wallet shown, ← sum_share_valuedWallet]
    symm
    apply convertedTotal_filter
    · intro account present active
      obtain ⟨before, earlier, rfl⟩ := List.mem_map.mp present
      have isActive : before.IsActive :=
        (AccountView.isActive_withValue _ before).mp (of_decide_eq_true active)
      rw [AccountView.currentValue_withValue, share_withValue, valueAfter, if_pos isActive, share]
      cases valued : valueByPrices source prices currency before with
      | some value => rfl
      | none =>
        rw [nothing before earlier isActive valued]
        rfl
    · intro account _ inactive
      unfold share valueByPrices
      rw [if_neg (of_decide_eq_false inactive)]
      rfl
  balances_total := by
    intro aggregated summary shown
    rw [pricedTotal_of_mem wallet shown, ← sum_valueAggregate aggregated]
    unfold convertedTotal valuedWallet
    rw [List.map_map, List.map_map]
    rfl
  counts := by
    intro summary shown
    rw [valuedWallet_valueSummary] at shown
    obtain ⟨walletValue, -, rfl⟩ := Option.map_eq_some_iff.mp shown
    exact valueOneWallet_priced_le wallet

/-- Every wallet is valued consistently, the page adds the wallets up, and valuing the wallets again
depends on the later prices only, where these leave out no account priced before. -/
theorem applyWalletValuationsFromPrices_consistent (source : ValuationSource)
    (prices : String → Option ℚ) (currency : String) (wallets : List WalletView) :
    let (summary, valued) := applyWalletValuationsFromPrices source prices currency wallets
    List.Forall₂ (ConsistentlyValued source prices currency) wallets valued ∧
      summary.pricedTotal = ((valued.filterMap (·.valueSummary)).map (·.pricedTotal)).sum ∧
      summary.pricedAssetCount ≤ summary.totalAssetCount ∧
      summary.pricedWalletCount ≤ summary.totalWalletCount ∧
      ∀ later laterCurrency,
        (∀ wallet ∈ wallets, ∀ account ∈ wallet.accounts,
          (valueByPrices source prices currency account).isSome →
            (valueByPrices source later laterCurrency account).isSome) →
          applyWalletValuationsFromPrices source later laterCurrency valued =
            applyWalletValuationsFromPrices source later laterCurrency wallets := by
  unfold applyWalletValuationsFromPrices
  dsimp only
  rw [valuePageWallets_snd]
  refine ⟨?_, ?_, ?_, ?_, ?_⟩
  · rw [List.forall₂_map_right_iff, List.forall₂_same]
    intro wallet _
    exact consistentlyValued wallet
  · rw [valuePageWallets_pricedTotal, zero_add]
  · exact valuePageWallets_priced_le _ wallets le_rfl
  · rw [valuePageWallets_totalWalletCount]
    apply (valuePageWallets_pricedWalletCount_le _ wallets).trans
    rw [zero_add]
  · intro later laterCurrency covered
    rw [List.length_map]
    exact valuePageWallets_valuedWallets _ wallets covered

/-- Amounts of one digit, and two accounts that hold Cardano. -/
def twoAdaAccounts : ValuationSource where
  decimalFromStr text :=
    if text = "5" then some 5 else if text = "4" then some 4
    else if text = "1" then some 1 else none
  coingeckoIdForAssetId _ := none
  manualRows := [⟨1, "cardano", "cardano-mainnet", "cardano"⟩,
    ⟨2, "cardano", "cardano-mainnet", "cardano"⟩]

/-- Two accounts under one aggregate. -/
def bitcoinWallet : WalletView where
  balances := [⟨"bitcoin", "bitcoin-mainnet", .final, .known ⟨"500000000", "5"⟩, none⟩]
  accounts := [.native ⟨.active, .bitcoin, ⟨.bitcoin, .known ⟨"100000000", "1"⟩, none⟩⟩,
    .native ⟨.active, .bitcoin, ⟨.bitcoin, .known ⟨"400000000", "4"⟩, none⟩⟩]
  valueSummary := none

/-- The balance of the second account is unknown, and so is their sum. -/
def adaWallet : WalletView where
  balances := [⟨"cardano", "cardano-mainnet", .final, .unknown, none⟩]
  accounts := [.manual ⟨1, .active, .known ⟨"5000000", "5"⟩, none⟩,
    .manual ⟨2, .active, .unknown, none⟩]
  valueSummary := none

def priceOf (id : String) (price : ℚ) : String → Option ℚ :=
  Function.update (fun _ => none) id (some price)

theorem aggregated_bitcoinWallet :
    Aggregated twoAdaAccounts (priceOf "bitcoin" 2) "EUR" bitcoinWallet where
  not_isInactive := by simp [bitcoinWallet]
  native_asset := by simp [bitcoinWallet]
  keys_nodup := List.nodup_singleton _
  held_mem := by simp [bitcoinWallet, heldInstance, syncedAssetInstance,
    WalletAggregateBalanceView.key]
  one_price := by
    simp only [bitcoinWallet]
    decide +kernel
  not_marked := by simp [bitcoinWallet, BalanceReliability.reasons]
  known := by
    simp only [bitcoinWallet, List.mem_singleton, forall_eq]
    intro amount known
    obtain rfl : 5 = amount := Option.some.inj (Eq.trans (by decide +kernel) known)
    exact ⟨by decide +kernel, by decide +kernel⟩
  unknown := by
    simp only [bitcoinWallet, List.mem_singleton, forall_eq]
    intro unknown
    exact absurd unknown (by decide +kernel)

theorem applyWalletValuationsFromPrices_consistent_bitcoinWallet :
    let valued := (applyWalletValuationsFromPrices twoAdaAccounts (priceOf "bitcoin" 2) "EUR"
      [bitcoinWallet]).2
    applyWalletValuationsFromPrices twoAdaAccounts (priceOf "bitcoin" 3) "EUR" valued =
        applyWalletValuationsFromPrices twoAdaAccounts (priceOf "bitcoin" 3) "EUR"
          [bitcoinWallet] ∧
      ∃ wallet, valued = [wallet] ∧ ∀ summary ∈ wallet.valueSummary, summary.pricedTotal = 10 ∧
        summary.pricedTotal = convertedTotal (wallet.balances.map (·.currentValue)) := by
  have consistent := applyWalletValuationsFromPrices_consistent twoAdaAccounts
    (priceOf "bitcoin" 2) "EUR" [bitcoinWallet]
  obtain ⟨wallets, -, -, -, again⟩ := consistent
  refine ⟨again (priceOf "bitcoin" 3) "EUR" (by decide +kernel), _, rfl, ?_⟩
  intro summary shown
  obtain ⟨valuation, -⟩ := List.forall₂_cons.mp wallets
  refine ⟨?_, valuation.balances_total aggregated_bitcoinWallet summary shown⟩
  rw [Option.some.inj (Option.mem_def.mp shown |>.symm)]
  decide +kernel

/-- Values of an earlier call stay where there is no price any more; an aggregate of unknown amount
has no value, whatever its accounts are worth. -/
theorem kept_values_and_unknown_aggregates :
    let earlier := (applyWalletValuationsFromPrices twoAdaAccounts (priceOf "bitcoin" 2) "EUR"
      [bitcoinWallet]).2
    let later := applyWalletValuationsFromPrices twoAdaAccounts (fun _ => none) "EUR"
    (later earlier).2 ≠ (later [bitcoinWallet]).2 ∧
      (later earlier).2.map (fun wallet => (wallet.valueSummary.map (·.pricedTotal),
        convertedTotal ((wallet.accounts.filter fun account => account.IsActive).map
          (·.currentValue)))) = [(some 0, 10)] ∧
      (applyWalletValuationsFromPrices twoAdaAccounts (priceOf "cardano" 3) "EUR"
        [adaWallet]).2.map (fun wallet => (wallet.valueSummary.map (·.pricedTotal),
          convertedTotal (wallet.balances.map (·.currentValue)))) = [(some 15, 0)] := by
  decide +kernel

end Consistency

end Bitgarth.Prices.WalletValues
