import Bitgarth.Sync.Gate
import Bitgarth.Text
import Mathlib.Algebra.BigOperators.Group.List.Basic
import Mathlib.Algebra.Order.Field.Rat
import Mathlib.Logic.Function.Basic

/-! # Values of wallets

What the current prices make of a list of wallets: a value for every account, one for every
aggregate balance, and the totals of the wallets and of the page. Amounts and prices are exact
rationals; a price map gives the price of a provider's asset.
-/

namespace Bitgarth.Prices.WalletValues

open Sync (SyncedAssetId)

inductive AccountStateView where
  | active
  | inactive
deriving DecidableEq, Repr

structure BalanceAmountView where
  rawValue : String
  formattedValue : String
deriving DecidableEq, Repr

inductive AccountBalanceStateView where
  | known (amount : BalanceAmountView)
  | unknown
deriving DecidableEq, Repr

inductive BalanceProvisionalReason where
  | firstSuccessfulSyncPending
  | inactiveAccountNotSyncing
  | historicalBackfillInProgress
  | historicalCoverageLimited
  | partialSyncRecoveryPending
  | pendingLedgerState
deriving DecidableEq, Repr

inductive BalanceReliability where
  | final
  | provisional (reasons : List BalanceProvisionalReason)
deriving DecidableEq, Repr

def BalanceReliability.reasons : BalanceReliability → List BalanceProvisionalReason
  | .final => []
  | .provisional reasons => reasons

structure CurrentAssetValueView where
  price : ℚ
  convertedValue : ℚ
  currency : String
deriving DecidableEq

structure WalletBalanceView where
  assetId : SyncedAssetId
  balanceState : AccountBalanceStateView
  currentValue : Option CurrentAssetValueView
deriving DecidableEq

structure NativeAccountView where
  accountState : AccountStateView
  asset : SyncedAssetId
  balance : WalletBalanceView
deriving DecidableEq

structure ManualAssetAccountView where
  accountId : ℕ
  accountState : AccountStateView
  balanceState : AccountBalanceStateView
  currentValue : Option CurrentAssetValueView
deriving DecidableEq

structure CustomAccountView where
  balanceState : AccountBalanceStateView
  currentValue : Option CurrentAssetValueView
deriving DecidableEq

inductive AccountView where
  | native (native : NativeAccountView)
  | custom (custom : CustomAccountView)
  | manual (manual : ManualAssetAccountView)
deriving DecidableEq

structure WalletAggregateBalanceView where
  assetId : String
  networkId : String
  balanceReliability : BalanceReliability
  balanceState : AccountBalanceStateView
  currentValue : Option CurrentAssetValueView
deriving DecidableEq

structure WalletValueSummaryView where
  pricedTotal : ℚ
  currency : String
  pricedAssetCount : ℕ
  totalAssetCount : ℕ
deriving DecidableEq

structure WalletView where
  balances : List WalletAggregateBalanceView
  accounts : List AccountView
  valueSummary : Option WalletValueSummaryView
deriving DecidableEq

structure WalletsValueSummaryView where
  pricedTotal : ℚ
  currency : String
  pricedAssetCount : ℕ
  totalAssetCount : ℕ
  pricedWalletCount : ℕ
  totalWalletCount : ℕ
deriving DecidableEq

structure ManualAssetAccountRow where
  accountId : ℕ
  assetId : String
  networkId : String
  coingeckoId : String
deriving DecidableEq, Repr

structure PriceRequest where
  assetId : String
  providerAssetId : String
deriving DecidableEq, Repr

/-- What a valuation reads besides the wallets and the prices: how an amount's text is read as a
decimal, the catalog's price ids (none where it cannot be loaded) and the manual accounts' rows. -/
structure ValuationSource where
  decimalFromStr : String → Option ℚ
  coingeckoIdForAssetId : String → Option String
  manualRows : List ManualAssetAccountRow

def assetIdForSyncedAsset : SyncedAssetId → String
  | .bitcoin => "bitcoin"
  | .ethereum => "ethereum"

/-- The reference to its price that the registry has for an asset. -/
def coingeckoPriceRef : SyncedAssetId → Option String
  | .bitcoin => some "bitcoin"
  | .ethereum => some "ethereum"

/-- The registry's asset instance, as an asset and the slug of its network. -/
def syncedAssetInstance : SyncedAssetId → String × String
  | .bitcoin => ("bitcoin", "bitcoin-mainnet")
  | .ethereum => ("ethereum", "ethereum-mainnet")

def priceRequestForSyncedAsset (assetId : SyncedAssetId) : Option PriceRequest :=
  (coingeckoPriceRef assetId).map fun providerAssetId =>
    ⟨assetIdForSyncedAsset assetId, providerAssetId⟩

def accountIsActive (state : AccountStateView) : Bool :=
  state == .active

namespace ValuationSource

variable (source : ValuationSource)

/-- The catalog's price id of an asset, or else the one kept with the account. -/
def resolveManualCoingeckoId (assetId : String) (snapshotCoingeckoId : Option String) :
    Option String :=
  match source.coingeckoIdForAssetId assetId with
  | some id => some id
  | none => snapshotCoingeckoId

def manualRow (manual : ManualAssetAccountView) : Option ManualAssetAccountRow :=
  source.manualRows.find? fun row => row.accountId == manual.accountId

def balanceAmountDecimal (amount : BalanceAmountView) : Option ℚ :=
  if Text.isBlank amount.formattedValue ∧ amount.rawValue = "0" then some 0
  else source.decimalFromStr amount.formattedValue

def knownAmountDecimal : AccountBalanceStateView → Option ℚ
  | .known amount => source.balanceAmountDecimal amount
  | .unknown => none

def knownNonzero (state : AccountBalanceStateView) : Bool :=
  ((source.knownAmountDecimal state).map fun amount => decide (amount ≠ 0)).getD false

/-- The price id of the first active account that holds the asset of an aggregate balance. -/
def aggregateProviderAssetId (balance : WalletAggregateBalanceView) :
    List AccountView → Option String
  | [] => none
  | .native native :: accounts =>
    if accountIsActive native.accountState ∧
        syncedAssetInstance native.asset = (balance.assetId, balance.networkId) then
      (priceRequestForSyncedAsset native.asset).map (·.providerAssetId)
    else
      aggregateProviderAssetId balance accounts
  | .manual manual :: accounts =>
    if accountIsActive manual.accountState then
      match source.manualRow manual with
      | none => aggregateProviderAssetId balance accounts
      | some row =>
        if row.assetId = balance.assetId ∧ row.networkId = balance.networkId then
          source.resolveManualCoingeckoId row.assetId (some row.coingeckoId)
        else
          aggregateProviderAssetId balance accounts
    else
      aggregateProviderAssetId balance accounts
  | .custom _ :: accounts => aggregateProviderAssetId balance accounts

def aggregateHasInactiveComponent (balance : WalletAggregateBalanceView)
    (accounts : List AccountView) : Bool :=
  accounts.any fun
    | .native native =>
      !accountIsActive native.accountState &&
        syncedAssetInstance native.asset == (balance.assetId, balance.networkId)
    | .manual manual =>
      !accountIsActive manual.accountState &&
        (source.manualRow manual).any fun row =>
          row.assetId == balance.assetId && row.networkId == balance.networkId
    | .custom _ => false

/-- The sums of the active native accounts' balances, and where one of them is unknown, none. -/
def addActiveNative (totals : SyncedAssetId → Option (Option ℚ)) :
    AccountView → SyncedAssetId → Option (Option ℚ)
  | .native native =>
    if accountIsActive native.accountState then
      let total := (totals native.balance.assetId).getD (some 0)
      Function.update totals native.balance.assetId <| some <|
        match source.knownAmountDecimal native.balance.balanceState with
        | some amount => total.map (· + amount)
        | none => none
    else
      totals
  | .custom _ => totals
  | .manual _ => totals

def activeNativeTotals (accounts : List AccountView) : SyncedAssetId → Option (Option ℚ) :=
  accounts.foldl source.addActiveNative fun _ => none

end ValuationSource

def syncedAssetIds : List SyncedAssetId := [.bitcoin, .ethereum]

/-- The counters of a wallet's valuation. -/
structure WalletTally where
  priced : ℕ
  total : ℕ
  sum : ℚ
deriving DecidableEq

section Valuation

variable (source : ValuationSource) (prices : String → Option ℚ) (currency : String)

def currentValueForSyncedAmount (assetId : SyncedAssetId) (amount : ℚ) :
    Option (ℚ × CurrentAssetValueView) := do
  let id ← coingeckoPriceRef assetId
  let price ← prices id
  let value := price * amount
  return (value, ⟨price, value, currency⟩)

def currentValueForSyncedBalance (assetId : SyncedAssetId) (state : AccountBalanceStateView) :
    Option (ℚ × CurrentAssetValueView) := do
  let bal ← source.knownAmountDecimal state
  currentValueForSyncedAmount prices currency assetId bal

def valueAggregate (accounts : List AccountView) (balance : WalletAggregateBalanceView) :
    Option CurrentAssetValueView :=
  let hasInactiveComponent :=
    balance.balanceReliability.reasons.contains .inactiveAccountNotSyncing ||
      source.aggregateHasInactiveComponent balance accounts
  let providerId :=
    if hasInactiveComponent then none else source.aggregateProviderAssetId balance accounts
  let amount := source.knownAmountDecimal balance.balanceState
  match providerId, amount with
  | some providerId, some amount =>
    (prices providerId).map fun price => ⟨price, price * amount, currency⟩
  | _, _ => none

/-- Count the total of an asset's native accounts. -/
def tallyNative (totals : SyncedAssetId → Option (Option ℚ)) (tally : WalletTally)
    (assetId : SyncedAssetId) : WalletTally :=
  match totals assetId with
  | none => tally
  | some amount =>
    let counted :=
      if (priceRequestForSyncedAsset assetId).isSome then
        { tally with total := tally.total + 1 }
      else tally
    match amount.bind (currentValueForSyncedAmount prices currency assetId) with
    | some (value, _) =>
      { counted with sum := counted.sum + value, priced := counted.priced + 1 }
    | none => counted

/-- Value one account. An active account for which there is no price keeps what it has. -/
def valueAccount (tally : WalletTally) : AccountView → WalletTally × AccountView
  | .native native =>
    if accountIsActive native.accountState then
      match currentValueForSyncedBalance source prices currency native.balance.assetId
          native.balance.balanceState with
      | some (_, currentValue) =>
        (tally, .native
          { native with balance := { native.balance with currentValue := some currentValue } })
      | none => (tally, .native native)
    else
      (tally, .native { native with balance := { native.balance with currentValue := none } })
  | .manual manual =>
    if accountIsActive manual.accountState then
      let id := (source.manualRow manual).bind fun row =>
        source.resolveManualCoingeckoId row.assetId (some row.coingeckoId)
      let bal := source.knownAmountDecimal manual.balanceState
      let counted := if bal.isSome then { tally with total := tally.total + 1 } else tally
      match id, bal with
      | some id, some bal =>
        match prices id with
        | some price =>
          let value := price * bal
          ({ counted with sum := counted.sum + value, priced := counted.priced + 1 },
            .manual { manual with currentValue := some ⟨price, value, currency⟩ })
        | none => (counted, .manual manual)
      | _, _ => (counted, .manual manual)
    else
      (tally, .manual { manual with currentValue := none })
  | .custom custom =>
    (if source.knownNonzero custom.balanceState then { tally with total := tally.total + 1 }
      else tally, .custom custom)

def valueAccounts (tally : WalletTally) : List AccountView → WalletTally × List AccountView
  | [] => (tally, [])
  | account :: accounts =>
    let (counted, valued) := valueAccount source prices currency tally account
    let (tallied, later) := valueAccounts counted accounts
    (tallied, valued :: later)

/-- The counts and the value of a wallet, and the wallet with the values attached. -/
def valueOneWallet (wallet : WalletView) : (ℕ × ℕ × Option ℚ) × WalletView :=
  let totals := source.activeNativeTotals wallet.accounts
  let nativeTotalsAreKnown := syncedAssetIds.all fun assetId => totals assetId != some none
  let balances := wallet.balances.map fun balance =>
    { balance with
      currentValue := valueAggregate source prices currency wallet.accounts balance }
  let natives := syncedAssetIds.foldl (tallyNative prices currency totals) ⟨0, 0, 0⟩
  let (tally, accounts) := valueAccounts source prices currency natives wallet.accounts
  (if nativeTotalsAreKnown then (tally.priced, tally.total, some tally.sum)
    else (0, tally.total, none),
    { wallet with balances := balances, accounts := accounts })

/-- A turn of the loop over the wallets, which adds one to the page. -/
def valuePageWallet (page : WalletsValueSummaryView) (wallet : WalletView) :
    WalletsValueSummaryView × WalletView :=
  let ((walletPriced, walletTotal, walletValue), valued) :=
    valueOneWallet source prices currency wallet
  let counted :=
    { page with
      pricedAssetCount := page.pricedAssetCount + walletPriced
      totalAssetCount := page.totalAssetCount + walletTotal }
  match walletValue with
  | some walletValue =>
    ({ counted with
        pricedTotal := counted.pricedTotal + walletValue
        pricedWalletCount :=
          if walletTotal > 0 ∧ walletPriced = walletTotal then counted.pricedWalletCount + 1
          else counted.pricedWalletCount },
      { valued with valueSummary := some ⟨walletValue, currency, walletPriced, walletTotal⟩ })
  | none => (counted, { valued with valueSummary := none })

def valuePageWallets (page : WalletsValueSummaryView) :
    List WalletView → WalletsValueSummaryView × List WalletView
  | [] => (page, [])
  | wallet :: wallets =>
    let (counted, valued) := valuePageWallet source prices currency page wallet
    let (summary, later) := valuePageWallets counted wallets
    (summary, valued :: later)

def applyWalletValuationsFromPrices (wallets : List WalletView) :
    WalletsValueSummaryView × List WalletView :=
  valuePageWallets source prices currency ⟨0, currency, 0, 0, 0, wallets.length⟩ wallets

end Valuation

end Bitgarth.Prices.WalletValues
