import Bitgarth.Foundation.JsonValue
import Bitgarth.Payments.Capabilities
import Bitgarth.Payments.OrderHistory
import Bitgarth.Text

/-! # The catalog of product options

The answer to a request for product options lists tiers, and each of them its purchase options. A
tier or option that does not parse is skipped; all options share the ids that were seen, and an
option's id counts as seen before the rest of the option or of its tier is known to parse.
-/

namespace Bitgarth.Payments

open JsonValue Text

/-! ## What the response holds -/

def isProductOptionId (value : String) : Bool :=
  !isBlank value && !value.toList.any isControl

structure ProductOptionId where
  value : String
  valid : isProductOptionId value = true
deriving DecidableEq

def ProductOptionId.fromRaw (value : String) : Option ProductOptionId :=
  if valid : isProductOptionId value = true then some ⟨value, valid⟩ else none

inductive RawTierAccountLimits where
  | independent (balanceSync transactionHistorySync manual : ℕ)
  | legacyCombined (total : Option ℕ)
deriving DecidableEq, Repr

structure RawTierCapabilityHistory where
  maxTransactionsPerAccount : ℕ
deriving DecidableEq, Repr

structure RawTierCapabilityLimits where
  accounts : Option RawTierAccountLimits
  syncedAccounts : Option ℕ
  history : RawTierCapabilityHistory
deriving DecidableEq, Repr

structure RawTierFeatureFlags where
  historicalSync : Bool
  transactionHistorySync : Bool
  balanceSync : Bool
  exchangeRatesCurrent : Bool
  exchangeRatesHistory : Bool
  priceOverrides : Bool
  balanceAssertions : Bool
  hledgerExport : Bool
  taxReports : Bool
deriving DecidableEq, Repr

structure RawTierCapabilities where
  limits : RawTierCapabilityLimits
  features : RawTierFeatureFlags
deriving DecidableEq, Repr

structure RawTierPresentation where
  summary : String
  bullets : List String
  isFeatured : Bool
  ribbonLabel : Option String
deriving DecidableEq, Repr

structure RawProductTier where
  tier : String
  displayName : String
  capabilitySchemaVersion : ℕ
  capabilitySetId : Option String
  capabilities : RawTierCapabilities
  presentation : RawTierPresentation
  purchaseOptions : List Value

structure RawProductOptionPresentation where
  displayOrder : Option ℕ
  isDefault : Bool
  badge : Option String
deriving DecidableEq, Repr

structure RawAppCompatibility where
  detail : String
  minimumAppVersion : Option String
deriving DecidableEq, Repr

structure RawProductOptionsResponse where
  catalogSchemaVersion : ℕ
  tiers : List Value
  appCompatibility : Option RawAppCompatibility
  pricingSummary : Option String

/-! ## What is made of it -/

structure CentralTierCapabilities where
  capabilitySetId : Option String
  capabilitySchemaVersion : ℕ
  syncAccountSlots : ℕ
  accountAllowancePolicy : AccountAllowancePolicy
  historicalBackfillTransactionsPerAccount : ℕ
  historicalSync : Bool
  transactionHistorySync : Bool
  balanceSync : Bool
  exchangeRatesCurrent : Bool
  exchangeRatesHistory : Bool
  priceOverrides : Bool
  balanceAssertions : Bool
  hledgerExport : Bool
  taxReports : Bool
deriving DecidableEq, Repr

structure CentralTierPresentation where
  summary : String
  bullets : List String
  isFeatured : Bool
  ribbonLabel : Option String
deriving DecidableEq, Repr

structure CentralProductTier where
  tier : String
  displayName : String
  capabilities : CentralTierCapabilities
  presentation : CentralTierPresentation
deriving DecidableEq, Repr

structure CentralProductOption where
  id : ProductOptionId
  tier : String
  tierDisplayName : String
  termQuantity : ℕ
  termUnit : String
  termLabel : String
  price : PaymentAmount
  displayOrder : Option ℕ
  isDefault : Bool
  badge : Option String
deriving DecidableEq

structure CentralAppCompatibility where
  detail : String
  minimumAppVersion : Option String
deriving DecidableEq, Repr

structure CentralProductOptions where
  tiers : List CentralProductTier
  options : List CentralProductOption
  pricingSummary : Option String
  appCompatibility : Option CentralAppCompatibility
deriving DecidableEq

/-! ## Shapes -/

def u16Values : ℕ := 2 ^ 16

def RawTierCapabilityHistory.fromValue (value : Value) : Option RawTierCapabilityHistory := do
  let fields ← value.fields 1
  let maxTransactionsPerAccount ←
    fields.required 0 "max_transactions_per_account" (Value.asUnsigned (2 ^ 32))
  return { maxTransactionsPerAccount }

/-- The first variant that an object has the fields of; no variant is read from an array. -/
def RawTierAccountLimits.fromValue : Value → Option RawTierAccountLimits
  | .object entries =>
    let fields := Fields.named entries
    let independent : Option RawTierAccountLimits := do
      let balanceSync ← fields.required 0 "balance_sync" (Value.asUnsigned u16Values)
      let transactionHistorySync ←
        fields.required 1 "transaction_history_sync" (Value.asUnsigned u16Values)
      let manual ← fields.required 2 "manual" (Value.asUnsigned u16Values)
      return .independent balanceSync transactionHistorySync manual
    independent.or
      ((fields.optional 0 "total" (Value.asUnsigned u16Values)).map .legacyCombined)
  | _ => none

def RawTierCapabilityLimits.fromValue (value : Value) : Option RawTierCapabilityLimits := do
  let fields ← value.fields 3
  let accounts ← fields.orDefault 0 "accounts" none
    (Value.asOption RawTierAccountLimits.fromValue)
  let syncedAccounts ← fields.optional 1 "synced_accounts" (Value.asUnsigned u16Values)
  let history ← fields.required 2 "history" RawTierCapabilityHistory.fromValue
  return { accounts, syncedAccounts, history }

def RawTierFeatureFlags.fromValue (value : Value) : Option RawTierFeatureFlags := do
  let fields ← value.fields 9
  let historicalSync ← fields.orDefault 0 "historical_sync" false Value.asBool
  let transactionHistorySync ← fields.orDefault 1 "transaction_history_sync" false Value.asBool
  let balanceSync ← fields.orDefault 2 "balance_sync" false Value.asBool
  let exchangeRatesCurrent ← fields.orDefault 3 "exchange_rates_current" false Value.asBool
  let exchangeRatesHistory ← fields.orDefault 4 "exchange_rates_history" false Value.asBool
  let priceOverrides ← fields.orDefault 5 "price_overrides" false Value.asBool
  let balanceAssertions ← fields.orDefault 6 "balance_assertions" false Value.asBool
  let hledgerExport ← fields.orDefault 7 "hledger_export" false Value.asBool
  let taxReports ← fields.orDefault 8 "tax_reports" false Value.asBool
  return {
    historicalSync, transactionHistorySync, balanceSync, exchangeRatesCurrent
    exchangeRatesHistory, priceOverrides, balanceAssertions, hledgerExport, taxReports }

def RawTierFeatureFlags.default : RawTierFeatureFlags :=
  ⟨false, false, false, false, false, false, false, false, false⟩

def RawTierCapabilities.fromValue (value : Value) : Option RawTierCapabilities := do
  let fields ← value.fields 2
  let limits ← fields.required 0 "limits" RawTierCapabilityLimits.fromValue
  let features ← fields.orDefault 1 "features" RawTierFeatureFlags.default
    RawTierFeatureFlags.fromValue
  return { limits, features }

def RawTierPresentation.fromValue (value : Value) : Option RawTierPresentation := do
  let fields ← value.fields 4
  let summary ← fields.orDefault 0 "summary" "" Value.asStr
  let bullets ← fields.orDefault 1 "bullets" [] (Value.asList Value.asStr)
  let isFeatured ← fields.orDefault 2 "is_featured" false Value.asBool
  let ribbonLabel ← fields.orDefault 3 "ribbon_label" none (Value.asOption Value.asStr)
  return { summary, bullets, isFeatured, ribbonLabel }

def RawProductTier.fromValue (value : Value) : Option RawProductTier := do
  let fields ← value.fields 7
  let tier ← fields.required 0 "tier" Value.asStr
  let displayName ← fields.required 1 "display_name" Value.asStr
  let capabilitySchemaVersion ← fields.orDefault 2 "capability_schema_version"
    capabilitySchemaVersionLegacy (Value.asUnsigned u16Values)
  let capabilitySetId ← fields.optional 3 "capability_set_id" Value.asStr
  let capabilities ← fields.required 4 "capabilities" RawTierCapabilities.fromValue
  let presentation ← fields.required 5 "presentation" RawTierPresentation.fromValue
  let purchaseOptions ← fields.required 6 "purchase_options" Value.asArray
  return {
    tier, displayName, capabilitySchemaVersion, capabilitySetId, capabilities, presentation
    purchaseOptions }

def RawProductOptionPresentation.fromValue (value : Value) :
    Option RawProductOptionPresentation := do
  let fields ← value.fields 3
  let displayOrder ← fields.optional 0 "display_order" (Value.asUnsigned u16Values)
  let isDefault ← fields.orDefault 1 "is_default" false Value.asBool
  let badge ← fields.optional 2 "badge" Value.asStr
  return { displayOrder, isDefault, badge }

def RawProductOptionPresentation.default : RawProductOptionPresentation := ⟨none, false, none⟩

/-- The precision has a second name, and may not be given under both. -/
def PaymentAmount.fromValue (value : Value) : Option PaymentAmount := do
  let fields ← value.fields 4
  let minorUnits ← fields.required 0 "minor_units" (Value.asUnsigned (2 ^ 64))
  let currency ← fields.required 1 "currency" Value.asStr
  let currencySymbol ← fields.orDefault 2 "currency_symbol" none (Value.asOption Value.asStr)
  let decimalPrecision ←
    match fields with
    | .named entries =>
      match entries.lookup "decimal_precision", entries.lookup "display_scale" with
      | some precision, none => precision.asUnsigned (2 ^ 8)
      | none, some scale => scale.asUnsigned (2 ^ 8)
      | _, _ => none
    | .positional _ => fields.required 3 "decimal_precision" (Value.asUnsigned (2 ^ 8))
  return {
    minorUnits := UInt64.ofNat minorUnits
    currency
    currencySymbol
    decimalPrecision := UInt8.ofNat decimalPrecision }

/-! ## Options -/

def parseRequiredU16Field (raw : List (String × Value)) (field : String) (id : ProductOptionId) :
    Except String ℕ :=
  match raw.lookup field with
  | some (.number number) =>
    match (number.asU64.filter fun value => decide (value < u16Values)).filter (0 < ·) with
    | some value => .ok value
    | none => .error ("product option " ++ id.value ++ " has invalid " ++ field)
  | some _ => .error ("product option " ++ id.value ++ " has invalid " ++ field)
  | none => .error ("product option " ++ id.value ++ " missing " ++ field)

def parseRequiredStringField (raw : List (String × Value)) (field : String)
    (id : ProductOptionId) : Except String String :=
  match raw.lookup field with
  | some (.string value) =>
    let trimmed := trim value
    if trimmed.isEmpty then
      .error ("product option " ++ id.value ++ " has empty " ++ field)
    else .ok trimmed
  | some _ => .error ("product option " ++ id.value ++ " has invalid " ++ field)
  | none => .error ("product option " ++ id.value ++ " missing " ++ field)

/-- The id that an option is known by. -/
def parseOptionId (raw : List (String × Value)) : Except String ProductOptionId :=
  match (raw.lookup "id").bind Value.asStr with
  | none => .error "product option missing id"
  | some value =>
    match ProductOptionId.fromRaw value with
    | none => .error "product option has invalid id"
    | some id => .ok id

/-- The object of an option's term. -/
def parseOptionTerm (raw : List (String × Value)) (id : ProductOptionId) :
    Except String (List (String × Value)) :=
  match raw.lookup "term" with
  | none => .error ("product option " ++ id.value ++ " missing term")
  | some (.object term) => .ok term
  | some _ => .error ("product option " ++ id.value ++ " has invalid term")

def parseTermLabel (term : List (String × Value)) (id : ProductOptionId) : Except String String :=
  match (((term.lookup "label").bind Value.asStr).map trim).filter fun label =>
      !label.isEmpty with
  | some label => .ok label
  | none => .error ("product option " ++ id.value ++ " has empty term label")

/-- The price of an option, with a currency and a symbol for it. -/
def parseOptionPrice (raw : List (String × Value)) (id : ProductOptionId) :
    Except String PaymentAmount :=
  match raw.lookup "price" with
  | none => .error ("product option " ++ id.value ++ " missing price")
  | some value =>
    match PaymentAmount.fromValue value with
    | none => .error ("product option " ++ id.value ++ " has invalid price")
    | some price =>
      if isBlank price.currency then
        .error ("product option " ++ id.value ++ " has empty currency")
      else if price.currencySymbol.all isBlank then
        .error ("product option " ++ id.value ++ " has empty currency_symbol")
      else .ok price

/-- What `parse_product_option` does once the id is seen. -/
def parseOptionFields (raw : List (String × Value)) (id : ProductOptionId)
    (tier tierDisplayName : String) : Except String CentralProductOption := do
  let term ← parseOptionTerm raw id
  let termQuantity ← parseRequiredU16Field term "quantity" id
  let termUnit ← parseRequiredStringField term "unit" id
  let termLabel ← parseTermLabel term id
  let price ← parseOptionPrice raw id
  let presentation :=
    ((raw.lookup "presentation").bind RawProductOptionPresentation.fromValue).getD .default
  return {
    id
    tier
    tierDisplayName
    termQuantity
    termUnit
    termLabel
    price
    displayOrder := presentation.displayOrder
    isDefault := presentation.isDefault
    badge := presentation.badge }

/-- An option and the ids seen after it. -/
def parseProductOption (value : Value) (tier tierDisplayName : String)
    (seen : List ProductOptionId) :
    Except String CentralProductOption × List ProductOptionId :=
  match value with
  | .object raw =>
    match parseOptionId raw with
    | .error error => (.error error, seen)
    | .ok id =>
      if id ∈ seen then (.error ("duplicate product option id " ++ id.value), seen)
      else (parseOptionFields raw id tier tierDisplayName, id :: seen)
  | _ => (.error "product option row was not an object", seen)

/-- The options of a tier that are not skipped. -/
def parseProductOptions (tier tierDisplayName : String) :
    List Value → List ProductOptionId → List CentralProductOption × List ProductOptionId
  | [], seen => ([], seen)
  | value :: values, seen =>
    let (parsed, seenNext) := parseProductOption value tier tierDisplayName seen
    let (options, seenLast) := parseProductOptions tier tierDisplayName values seenNext
    (parsed.toOption.toList ++ options, seenLast)

/-! ## Tiers -/

def accountPolicyForTier (capabilitySchemaVersion : ℕ) (limits : RawTierCapabilityLimits) :
    Except String AccountAllowancePolicy :=
  if capabilitySchemaVersion = capabilitySchemaVersionLegacy then
    match limits.syncedAccounts with
    | some total => .ok (.legacyCombined total)
    | none => .error "legacy product tier missing limits.synced_accounts"
  else if capabilitySchemaVersion = capabilitySchemaVersionV3 then
    match limits.accounts with
    | some (.legacyCombined (some total)) => .ok (.legacyCombined total)
    | _ => .error "v3 product tier missing limits.accounts.total"
  else if capabilitySchemaVersion = capabilitySchemaVersionV4 then
    match limits.accounts with
    | some (.independent balanceSync transactionHistorySync manual) =>
      match allowancesTryNew balanceSync transactionHistorySync manual with
      | some allowances => .ok (.independent allowances)
      | none => .error ("v4 product tier has unsupported account allowances: " ++
          if balanceSync < transactionHistorySync then "TransactionsExceedBalances"
          else "ExceedsStorageSafeguard")
    | _ => .error "v4 product tier missing independent account allowances"
  else .error ("unsupported capability schema version " ++ toString capabilitySchemaVersion)

def transactionHistorySyncForTier (capabilitySchemaVersion : ℕ)
    (features : RawTierFeatureFlags) : Bool :=
  if capabilitySchemaVersion = capabilitySchemaVersionLegacy then features.historicalSync
  else if capabilitySchemaVersion = capabilitySchemaVersionV3 ∨
      capabilitySchemaVersion = capabilitySchemaVersionV4 then
    features.transactionHistorySync
  else false

def buildTierPresentation (tier : String) (raw : RawTierPresentation) :
    Except String CentralTierPresentation :=
  if isBlank raw.summary then
    .error ("product tier " ++ tier ++ " has empty presentation.summary")
  else if raw.isFeatured ∧ raw.ribbonLabel.all String.isEmpty then
    .error ("product tier " ++ tier ++ " is featured but has no ribbon_label")
  else if ¬raw.isFeatured ∧ raw.ribbonLabel.isSome then
    .error ("product tier " ++ tier ++ " has ribbon_label but is not featured")
  else .ok ⟨raw.summary, raw.bullets, raw.isFeatured, raw.ribbonLabel⟩

def AccountAllowancePolicy.syncAccountSlots : AccountAllowancePolicy → ℕ
  | legacyCombined total => total
  | independent allowances => allowances.balanceSync

/-- What `parse_product_tier` does once the options are through. -/
def parseTierFields (raw : RawProductTier) (tier displayName : String) :
    Except String CentralProductTier := do
  let presentation ← buildTierPresentation tier raw.presentation
  let accountAllowancePolicy ←
    accountPolicyForTier raw.capabilitySchemaVersion raw.capabilities.limits
  let features := raw.capabilities.features
  return {
    tier
    displayName
    capabilities := {
      capabilitySetId := raw.capabilitySetId
      capabilitySchemaVersion := raw.capabilitySchemaVersion
      syncAccountSlots := accountAllowancePolicy.syncAccountSlots
      accountAllowancePolicy
      historicalBackfillTransactionsPerAccount :=
        raw.capabilities.limits.history.maxTransactionsPerAccount
      historicalSync := features.historicalSync
      transactionHistorySync :=
        transactionHistorySyncForTier raw.capabilitySchemaVersion features
      balanceSync := features.balanceSync
      exchangeRatesCurrent := features.exchangeRatesCurrent
      exchangeRatesHistory := features.exchangeRatesHistory
      priceOverrides := features.priceOverrides
      balanceAssertions := features.balanceAssertions
      hledgerExport := features.hledgerExport
      taxReports := features.taxReports }
    presentation }

/-- A tier with its options and the ids seen after it. -/
def parseProductTier (value : Value) (seen : List ProductOptionId) :
    Except String (CentralProductTier × List CentralProductOption) × List ProductOptionId :=
  match RawProductTier.fromValue value with
  | none => (.error "product tier has invalid shape", seen)
  | some raw =>
    let tier := trim raw.tier
    if tier.isEmpty then (.error "product tier has empty tier", seen)
    else
      let displayName := trim raw.displayName
      if displayName.isEmpty then
        (.error ("product tier " ++ tier ++ " has empty display_name"), seen)
      else
        let (options, seenNext) :=
          parseProductOptions tier displayName raw.purchaseOptions seen
        ((parseTierFields raw tier displayName).map fun parsed => (parsed, options), seenNext)

/-- The tiers that are not skipped, with the options of all of them. -/
def parseProductTiers :
    List Value → List ProductOptionId → List CentralProductTier × List CentralProductOption
  | [], _ => ([], [])
  | value :: values, seen =>
    let (parsed, seenNext) := parseProductTier value seen
    let (tiers, options) := parseProductTiers values seenNext
    match parsed with
    | .ok (tier, tierOptions) => (tier :: tiers, tierOptions ++ options)
    | .error _ => (tiers, options)

def minCatalogSchemaVersion : ℕ := 4

def RawProductOptionsResponse.tryIntoProductOptions (response : RawProductOptionsResponse) :
    Except String CentralProductOptions :=
  if response.catalogSchemaVersion < minCatalogSchemaVersion then
    .error ("product options response had unsupported schema version " ++
      toString response.catalogSchemaVersion ++ " (expected >= " ++
        toString minCatalogSchemaVersion ++ ")")
  else if response.tiers.isEmpty then .error "product options response contained no tiers"
  else
    let (tiers, options) := parseProductTiers response.tiers []
    if tiers.isEmpty then .error "product options response contained no usable tiers"
    else .ok {
      tiers
      options
      pricingSummary := (response.pricingSummary.map trim).filter fun summary => !summary.isEmpty
      appCompatibility := response.appCompatibility.map fun raw =>
        ⟨raw.detail, raw.minimumAppVersion⟩ }

end Bitgarth.Payments
