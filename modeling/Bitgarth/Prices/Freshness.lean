import Bitgarth.Prices.PriceStore
import Mathlib.Data.String.Basic
import Mathlib.Order.WithBot
import Mathlib.Data.Int.ConditionallyCompleteOrder
import Mathlib.Order.ConditionallyCompleteLattice.Basic

/-! # Freshness of the last days' prices

What a run looks at first: the newest gap of each asset's last days, and what is known of earlier
attempts to fill it.
-/

namespace Bitgarth.Prices

structure PriceHistoryAssetWork where
  assetId : String
  providerAssetId : String
  firstOwnedDate : ℤ
deriving DecidableEq, Repr

structure PriceHistoryAssetSpanWork where
  item : PriceHistoryAssetWork
  span : DateSpan
deriving DecidableEq, Repr

inductive FreshnessPriority where
  | noRecentAttempt
  | rateLimitedRecentAttempt
  | successEmptyCooldown
  | covered
  | stoppedAsset
deriving DecidableEq, Repr

def FreshnessPriority.sortRank : FreshnessPriority → ℕ
  | .noRecentAttempt => 0
  | .rateLimitedRecentAttempt => 1
  | .successEmptyCooldown => 2
  | .covered => 3
  | .stoppedAsset => 4

structure PriceHistoryAttemptEvidence where
  status : HistoricalPriceAttemptStatus
  attemptedAt : ℤ
deriving DecidableEq, Repr

structure FreshnessAssetCandidate where
  item : PriceHistoryAssetWork
  missingSpan : DateSpan
  latestAttempt : Option PriceHistoryAttemptEvidence

structure FreshnessWorkClassification where
  priority : FreshnessPriority
  item : PriceHistoryAssetWork
  missingSpan : Option DateSpan
deriving DecidableEq, Repr

def FreshnessWorkClassification.sortKey (classification : FreshnessWorkClassification) :
    ℕ ×ₗ String ×ₗ String ×ₗ ℤ ×ₗ WithBot ℤ ×ₗ WithBot ℤ :=
  toLex (classification.priority.sortRank, toLex (classification.item.assetId,
    toLex (classification.item.providerAssetId, toLex (classification.item.firstOwnedDate,
      toLex (classification.missingSpan.map DateSpan.start,
        classification.missingSpan.map DateSpan.finish)))))

def freshnessWindowDays : ℤ := 7

def successEmptyCooldownSecs : ℤ := 24 * 60 * 60

def rateLimitEvidenceCooldownSecs : ℤ := 15 * 60

def freshnessWindow (today lowerBound : ℤ) : DateSpan where
  start := max lowerBound (today - (freshnessWindowDays - 1))
  finish := today

def freshnessMissingSpan (window : DateSpan) (existing : List ℤ) : Option DateSpan :=
  (missingDailySpansNewestFirst window existing).head?

/-- The seconds between two instants, whole ones. -/
def attemptAgeSecs (now attemptedAt : ℤ) : ℤ := (now - attemptedAt).tdiv 1000000000

def cooldownMinAttemptedAt (now : ℤ) : ℤ :=
  let cooldownSecs := max successEmptyCooldownSecs rateLimitEvidenceCooldownSecs
  now - cooldownSecs * 1000000000

/-- The priority that an attempt gives, and whether its span is asked for again. -/
def classifyFreshnessAttempt (latestAttempt : PriceHistoryAttemptEvidence) (now : ℤ) :
    FreshnessPriority × Bool :=
  match latestAttempt.status with
  | .successWithPrices => (.noRecentAttempt, true)
  | .successEmpty =>
    if attemptAgeSecs now latestAttempt.attemptedAt < successEmptyCooldownSecs then
      (.successEmptyCooldown, false)
    else (.noRecentAttempt, true)
  | .rateLimited =>
    if attemptAgeSecs now latestAttempt.attemptedAt < rateLimitEvidenceCooldownSecs then
      (.rateLimitedRecentAttempt, false)
    else (.noRecentAttempt, true)
  | .transientFailure => (.noRecentAttempt, true)
  | .permanentFailure => (.stoppedAsset, false)

def classifyFreshnessCandidate (candidate : FreshnessAssetCandidate) (now : ℤ) :
    FreshnessWorkClassification :=
  let (priority, includeMissingSpan) :=
    match candidate.latestAttempt with
    | none => (FreshnessPriority.noRecentAttempt, true)
    | some latestAttempt => classifyFreshnessAttempt latestAttempt now
  { priority
    item := candidate.item
    missingSpan := if includeMissingSpan then some candidate.missingSpan else none }

def attemptEvidence (attempt : HistoricalPriceAttempt) : PriceHistoryAttemptEvidence where
  status := attempt.status
  attemptedAt := attempt.attemptedAt

/-- The attempt that covers the span tells, where it is final or calls for another one; else the
asset's latest attempt that cools down. -/
def selectFreshnessAttemptEvidence (coveringAttempt cooldownAttempt : Option HistoricalPriceAttempt)
    (now : ℤ) : Option PriceHistoryAttemptEvidence :=
  let fallback := (cooldownAttempt.map attemptEvidence).or (coveringAttempt.map attemptEvidence)
  match coveringAttempt with
  | none => fallback
  | some attempt =>
    let evidence := attemptEvidence attempt
    if attempt.status = .permanentFailure ∨ (classifyFreshnessAttempt evidence now).2 then
      some evidence
    else fallback

/-- The classification of an asset whose last days are all priced. -/
def coveredClassification (item : PriceHistoryAssetWork) : FreshnessWorkClassification where
  priority := .covered
  item := item
  missingSpan := none

structure FreshnessSpanWorkPlan where
  work : List PriceHistoryAssetSpanWork
  hasRateLimitCooldownBlocker : Bool
deriving DecidableEq, Repr

/-- The plan that the assets' classifications make. -/
def freshnessSpanWorkPlan (classifications : List FreshnessWorkClassification) :
    FreshnessSpanWorkPlan :=
  let sorted := classifications.insertionSort fun left right => left.sortKey ≤ right.sortKey
  { hasRateLimitCooldownBlocker := sorted.any fun classification =>
      classification.priority = .rateLimitedRecentAttempt && classification.missingSpan.isNone
    work := sorted.filterMap fun classification =>
      classification.missingSpan.map fun span => ⟨classification.item, span⟩ }

theorem mem_work_freshnessSpanWorkPlan {classifications : List FreshnessWorkClassification}
    {entry : PriceHistoryAssetSpanWork} :
    entry ∈ (freshnessSpanWorkPlan classifications).work ↔
      ∃ classification ∈ classifications,
        classification.item = entry.item ∧ classification.missingSpan = some entry.span := by
  simp only [freshnessSpanWorkPlan, List.mem_filterMap, List.mem_insertionSort]
  refine exists_congr fun classification => and_congr_right fun _ => ?_
  rw [Option.map_eq_some_iff]
  constructor
  · rintro ⟨span, isSpan, rfl⟩
    exact ⟨rfl, isSpan⟩
  · rintro ⟨isItem, isSpan⟩
    exact ⟨entry.span, isSpan, by rw [isItem]⟩

theorem work_freshnessSpanWorkPlan_eq_nil {classifications : List FreshnessWorkClassification} :
    (freshnessSpanWorkPlan classifications).work = [] ↔
      ∀ classification ∈ classifications, classification.missingSpan = none := by
  simp only [freshnessSpanWorkPlan, List.filterMap_eq_nil_iff, List.mem_insertionSort,
    Option.map_eq_none_iff]

theorem hasRateLimitCooldownBlocker_eq_true {classifications : List FreshnessWorkClassification} :
    (freshnessSpanWorkPlan classifications).hasRateLimitCooldownBlocker = true ↔
      ∃ classification ∈ classifications,
        classification.priority = .rateLimitedRecentAttempt ∧
          classification.missingSpan = none := by
  simp [freshnessSpanWorkPlan, List.any_eq_true]

end Bitgarth.Prices
