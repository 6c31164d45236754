import Bitgarth.Accounts.AccountModes

/-! # Entitlements from capabilities

A token grants capabilities under a schema version. Versions before the fourth share one total
among all accounts, and the fourth has allowances of its own for each kind. Whatever was granted,
the total of a shared policy is the number of account slots (`total_eq_syncAccountSlotsLimit`).
-/

namespace Bitgarth.Payments

open Accounts

def capabilitySchemaVersionLegacy : ℕ := 2
def capabilitySchemaVersionV3 : ℕ := 3
def capabilitySchemaVersionV4 : ℕ := 4
def freeSyncedAccounts : ℕ := 5

inductive AccountLimits where
  | independent (balanceSync transactionHistorySync manual : ℕ)
  | legacyCombined (total : ℕ)
deriving DecidableEq, Repr

/-- `AccountAllowances::try_new`. -/
def allowancesTryNew (balanceSync transactionHistorySync manual : ℕ) : Option AccountAllowances :=
  if ordered : transactionHistorySync ≤ balanceSync then
    if within : balanceSync + manual ≤ supportedAccountHardCap then
      some ⟨balanceSync, transactionHistorySync, manual, ordered, within⟩
    else none
  else none

def AccountLimits.validatedV4 : AccountLimits → Option AccountAllowances
  | independent balanceSync transactionHistorySync manual =>
    allowancesTryNew balanceSync transactionHistorySync manual
  | legacyCombined _ => none

inductive AccountAllowancePolicy where
  | legacyCombined (total : ℕ)
  | independent (allowances : AccountAllowances)
deriving DecidableEq, Repr

structure EntitlementFeatureFlags where
  historicalSync : Bool
  transactionHistorySync : Bool
  balanceSync : Bool
deriving DecidableEq, Repr

structure EntitlementCapabilityLimits where
  accounts : Option AccountLimits
  syncedAccounts : ℕ
deriving DecidableEq, Repr

structure EntitlementCapabilities where
  limits : EntitlementCapabilityLimits
  features : EntitlementFeatureFlags
deriving DecidableEq, Repr

def EntitlementCapabilities.free : EntitlementCapabilities where
  limits := ⟨none, freeSyncedAccounts⟩
  features := ⟨false, false, false⟩

def EntitlementCapabilities.accountLimitForSchema (capabilities : EntitlementCapabilities)
    (capabilitySchemaVersion : ℕ) : ℕ :=
  if capabilitySchemaVersion = capabilitySchemaVersionLegacy then capabilities.limits.syncedAccounts
  else if capabilitySchemaVersion = capabilitySchemaVersionV3 then
    match capabilities.limits.accounts with
    | some (.legacyCombined total) => total
    | _ => freeSyncedAccounts
  else if capabilitySchemaVersion = capabilitySchemaVersionV4 then
    match capabilities.limits.accounts.bind AccountLimits.validatedV4 with
    | some allowances => allowances.balanceSync
    | none => freeSyncedAccounts
  else freeSyncedAccounts

def EntitlementCapabilities.transactionHistoryEnabledForSchema
    (capabilities : EntitlementCapabilities) (capabilitySchemaVersion : ℕ) : Bool :=
  if capabilitySchemaVersion = capabilitySchemaVersionLegacy then
    capabilities.features.historicalSync
  else if capabilitySchemaVersion = capabilitySchemaVersionV3 ∨
      capabilitySchemaVersion = capabilitySchemaVersionV4 then
    capabilities.features.transactionHistorySync
  else false

/-- The entitlements that decide which accounts are active. -/
structure FeatureEntitlements where
  accountAllowancePolicy : AccountAllowancePolicy
  syncAccountSlotsLimit : ℕ
  balanceSyncEnabled : Bool
  transactionHistorySyncEnabled : Bool
deriving DecidableEq, Repr

/-- What a schema version supports; other grants count as the free ones. -/
def schemaSupported (capabilitySchemaVersion : ℕ) (capabilities : EntitlementCapabilities) : Bool :=
  (capabilitySchemaVersion = capabilitySchemaVersionLegacy ∨
    capabilitySchemaVersion = capabilitySchemaVersionV3 ∨
    capabilitySchemaVersion = capabilitySchemaVersionV4) ∧
  (capabilitySchemaVersion ≠ capabilitySchemaVersionV4 ∨
    (capabilities.limits.accounts.bind AccountLimits.validatedV4).isSome)

def FeatureEntitlements.fromCapabilities (capabilitySchemaVersion : ℕ)
    (granted : EntitlementCapabilities) : FeatureEntitlements :=
  let capabilities :=
    if schemaSupported capabilitySchemaVersion granted then granted else .free
  let transactionHistorySyncEnabled :=
    capabilities.transactionHistoryEnabledForSchema capabilitySchemaVersion
  { accountAllowancePolicy :=
      if capabilitySchemaVersion = capabilitySchemaVersionV4 then
        match capabilities.limits.accounts.bind AccountLimits.validatedV4 with
        | some allowances => .independent allowances
        | none => .legacyCombined freeSyncedAccounts
      else .legacyCombined (capabilities.accountLimitForSchema capabilitySchemaVersion)
    syncAccountSlotsLimit := capabilities.accountLimitForSchema capabilitySchemaVersion
    balanceSyncEnabled :=
      capabilitySchemaVersion = capabilitySchemaVersionLegacy ||
        capabilities.features.balanceSync
    transactionHistorySyncEnabled }

theorem total_eq_syncAccountSlotsLimit {version total : ℕ} {granted : EntitlementCapabilities}
    (combined : (FeatureEntitlements.fromCapabilities version granted).accountAllowancePolicy =
      .legacyCombined total) :
    total = (FeatureEntitlements.fromCapabilities version granted).syncAccountSlotsLimit := by
  unfold FeatureEntitlements.fromCapabilities at *
  dsimp only at *
  generalize (if schemaSupported version granted then granted else .free) = capabilities at *
  split at combined
  · next isV4 =>
      split at combined
      · cases combined
      · next none =>
          cases combined
          subst isV4
          rw [EntitlementCapabilities.accountLimitForSchema, if_neg (by decide),
            if_neg (by decide), if_pos rfl, none]
  · cases combined
    rfl

end Bitgarth.Payments
