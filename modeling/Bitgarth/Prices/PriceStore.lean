import Bitgarth.Foundation.FixedWidth
import Bitgarth.Foundation.KeyedTable
import Bitgarth.Foundation.RowSelection
import Bitgarth.Prices.Planner
import Mathlib.Data.Char
import Mathlib.Data.Int.Order.Basic
import Mathlib.Data.Prod.Lex

/-! # Stored prices and attempts to get them

Instants are nanoseconds since 1970.
-/

namespace Bitgarth.Prices

inductive HistoricalPriceAttemptStatus where
  | successWithPrices
  | successEmpty
  | transientFailure
  | rateLimited
  | permanentFailure
deriving DecidableEq, Repr

/-- A row of `price_points` that is a daily point of CoinGecko. -/
structure DailyPricePoint where
  assetId : String
  quoteCurrency : String
  priceTimeUtc : ℤ
  dateUtc : ℤ
  price : String
  providerAssetId : String
  providerQuoteId : Option String
  licenseScope : String
  retrievedAt : ℤ
deriving DecidableEq, Repr

/-- A row of `historical_price_attempts`, whose provider is CoinGecko. -/
structure HistoricalPriceAttempt where
  assetId : String
  fromDate : ℤ
  toDate : ℤ
  status : HistoricalPriceAttemptStatus
  attemptedAt : ℤ
  rowsReturned : ℕ
  nextRetryAfter : Option ℤ
  errorCode : Option String
deriving DecidableEq, Repr

structure PriceStore where
  prices : List DailyPricePoint
  attempts : List HistoricalPriceAttempt
deriving DecidableEq, Repr

structure DailyPriceDateQuery where
  assetId : String
  quoteCurrency : String
  providerAssetId : String
  licenseScope : String
  start : ℤ
  finish : ℤ
deriving DecidableEq, Repr

structure HistoricalPriceAttemptQuery where
  assetId : String
  fromDate : ℤ
  toDate : ℤ
deriving DecidableEq, Repr

structure HistoricalPriceAttemptCooldownQuery where
  assetId : String
  minAttemptedAt : ℤ
deriving DecidableEq, Repr

/-- The end of an RFC 3339 text from the fraction of the second on, with as few groups of three
digits as tell the fraction. -/
def fractionText (nanoseconds : ℕ) : List Char :=
  if nanoseconds = 0 then ['Z']
  else if nanoseconds % 1000000 = 0 then
    '.' :: FixedWidth.digits 3 (nanoseconds / 1000000) ++ ['Z']
  else if nanoseconds % 1000 = 0 then
    '.' :: FixedWidth.digits 6 (nanoseconds / 1000) ++ ['Z']
  else '.' :: FixedWidth.digits 9 nanoseconds ++ ['Z']

/-- How the texts of instants compare: by the second, then by what follows it. -/
def cacheTimeKey (instant : ℤ) : ℤ ×ₗ List Char :=
  toLex (instant / 1000000000, fractionText (instant % 1000000000).toNat)

def DailyPricePoint.key (row : DailyPricePoint) : String × String × ℤ :=
  (row.assetId, row.quoteCurrency, row.priceTimeUtc)

def HistoricalPriceAttempt.key (row : HistoricalPriceAttempt) : String × ℤ × ℤ :=
  (row.assetId, row.fromDate, row.toDate)

/-- `ON CONFLICT … DO UPDATE` of a price: the row that comes takes the place of the old one. -/
def upsertDailyPricePoints (rows prices : List DailyPricePoint) : List DailyPricePoint :=
  rows.foldl (fun prices row =>
    KeyedTable.upsert DailyPricePoint.key (fun _ row => row) row prices) prices

/-- An attempt is written over one that is not later. -/
def upsertHistoricalPriceAttempt (row : HistoricalPriceAttempt)
    (attempts : List HistoricalPriceAttempt) : List HistoricalPriceAttempt :=
  KeyedTable.upsert HistoricalPriceAttempt.key (fun old row =>
    if cacheTimeKey old.attemptedAt ≤ cacheTimeKey row.attemptedAt then row else old) row attempts

def DailyPricePoint.Matches (row : DailyPricePoint) (query : DailyPriceDateQuery) : Prop :=
  row.assetId = query.assetId ∧ row.quoteCurrency = query.quoteCurrency ∧
    row.providerAssetId = query.providerAssetId ∧ row.licenseScope = query.licenseScope ∧
      query.start ≤ row.dateUtc ∧ row.dateUtc ≤ query.finish

instance (row : DailyPricePoint) (query : DailyPriceDateQuery) : Decidable (row.Matches query) :=
  inferInstanceAs (Decidable (_ ∧ _))

/-- The dates of the prices asked for. -/
def PriceStore.dailyPriceDates (store : PriceStore) (query : DailyPriceDateQuery) : List ℤ :=
  ((store.prices.filter fun row => decide (row.Matches query)).map
    DailyPricePoint.dateUtc).insertionSort (· ≤ ·)

/-- `ORDER BY attempted_at DESC, id DESC`, where the ids of an asset's attempts compare by dates. -/
def HistoricalPriceAttempt.recency (row : HistoricalPriceAttempt) :
    (ℤ ×ₗ List Char) ×ₗ ℤ ×ₗ ℤ :=
  toLex (cacheTimeKey row.attemptedAt, toLex (row.fromDate, row.toDate))

/-- The latest attempt at all of a span. -/
def PriceStore.latestAttempt (store : PriceStore) (query : HistoricalPriceAttemptQuery) :
    Option HistoricalPriceAttempt :=
  RowSelection.latest HistoricalPriceAttempt.recency <| store.attempts.filter fun row =>
    row.assetId = query.assetId ∧ row.fromDate ≤ query.fromDate ∧ query.toDate ≤ row.toDate

/-- The latest attempt at any span of an asset that found nothing or was refused. -/
def PriceStore.latestCooldownAttempt (store : PriceStore)
    (query : HistoricalPriceAttemptCooldownQuery) : Option HistoricalPriceAttempt :=
  RowSelection.latest HistoricalPriceAttempt.recency <| store.attempts.filter fun row =>
    row.assetId = query.assetId ∧ (row.status = .successEmpty ∨ row.status = .rateLimited) ∧
      cacheTimeKey query.minAttemptedAt ≤ cacheTimeKey row.attemptedAt

/-- The price that a date of an asset has in a currency. -/
structure PriceTarget where
  assetId : String
  providerAssetId : String
  quoteCurrency : String
  licenseScope : String
  date : ℤ

def DailyPricePoint.Prices (row : DailyPricePoint) (target : PriceTarget) : Prop :=
  row.assetId = target.assetId ∧ row.quoteCurrency = target.quoteCurrency ∧
    row.providerAssetId = target.providerAssetId ∧ row.licenseScope = target.licenseScope ∧
      row.dateUtc = target.date

instance (row : DailyPricePoint) (target : PriceTarget) : Decidable (row.Prices target) :=
  inferInstanceAs (Decidable (_ ∧ _))

/-- Whether a price is stored for the date. -/
def PriceStore.Priced (store : PriceStore) (target : PriceTarget) : Prop :=
  ∃ row ∈ store.prices, row.Prices target

instance (store : PriceStore) (target : PriceTarget) : Decidable (store.Priced target) :=
  inferInstanceAs (Decidable (∃ row ∈ store.prices, row.Prices target))

theorem mem_dailyPriceDates {store : PriceStore} {target : PriceTarget} {span : DateSpan}
    (inside : span.Holds target.date) :
    target.date ∈ store.dailyPriceDates ⟨target.assetId, target.quoteCurrency,
      target.providerAssetId, target.licenseScope, span.start, span.finish⟩ ↔
      store.Priced target := by
  rw [PriceStore.dailyPriceDates, List.mem_insertionSort, List.mem_map]
  constructor
  · rintro ⟨row, member, isDate⟩
    obtain ⟨stored, matched⟩ := List.mem_filter.mp member
    obtain ⟨asset, quote, provider, scope, _⟩ := of_decide_eq_true matched
    exact ⟨row, stored, asset, quote, provider, scope, isDate⟩
  · rintro ⟨row, stored, asset, quote, provider, scope, isDate⟩
    refine ⟨row, List.mem_filter.mpr ⟨stored, decide_eq_true ?_⟩, isDate⟩
    exact ⟨asset, quote, provider, scope, isDate ▸ inside.1, isDate ▸ inside.2⟩

theorem mem_upsertDailyPricePoints {rows prices : List DailyPricePoint} {row : DailyPricePoint}
    (member : row ∈ upsertDailyPricePoints rows prices) : row ∈ prices ∨ row ∈ rows := by
  induction rows generalizing prices with
  | nil => exact .inl member
  | cons first rest ih =>
    rcases ih member with written | later
    · rcases KeyedTable.mem_of_mem_upsert written with stored | rfl | ⟨_, _, _, rfl⟩
      · exact .inl stored
      · exact .inr List.mem_cons_self
      · exact .inr List.mem_cons_self
    · exact .inr (List.mem_cons_of_mem _ later)

end Bitgarth.Prices
