import Mathlib.Data.List.Sort
import Bitgarth.Foundation.KeyedTable
import Bitgarth.Payments.Orders

/-! # The history of payment orders

The payment tables of a user's database: the subject with its secret and its token, the orders of
this installation, and the orders that imports brought from others. The history lists both, and an
order of this installation stands before an imported one of the same id.
-/

namespace Bitgarth.Payments

open KeyedTable

/-! ## Values -/

inductive ProductTier where
  | basic
  | premium
deriving DecidableEq, Repr

def ProductTier.asStr : ProductTier → String
  | basic => "basic"
  | premium => "premium"

def ProductTier.fromStr : String → Option ProductTier
  | "basic" => some basic
  | "premium" => some premium
  | _ => none

def PaymentOrderStatus.asStr : PaymentOrderStatus → String
  | pending => "pending"
  | paid => "paid"
  | expired => "expired"
  | failed => "failed"
  | canceled => "canceled"

def PaymentOrderStatus.fromStr : String → Option PaymentOrderStatus
  | "pending" => some pending
  | "paid" => some paid
  | "expired" => some expired
  | "failed" => some failed
  | "canceled" => some canceled
  | _ => none

@[simp]
theorem ProductTier.fromStr_asStr (tier : ProductTier) : fromStr tier.asStr = some tier := by
  cases tier <;> rfl

@[simp]
theorem PaymentOrderStatus.fromStr_asStr (status : PaymentOrderStatus) :
    fromStr status.asStr = some status := by
  cases status <;> rfl

/-- `char::is_control`: the characters of the category `Cc`. -/
def isControl (character : Char) : Bool :=
  decide (character.toNat < 32) || decide (127 ≤ character.toNat ∧ character.toNat < 160)

/-- All characters that are accepted have one byte. -/
def isPaymentSecret (value : String) : Bool :=
  decide (value.toList.length = 43) && value.toList.all fun character =>
    character.isAlphanum || character == '-' || character == '_'

structure PaymentSecret where
  value : String
  valid : isPaymentSecret value = true
deriving DecidableEq

def PaymentSecret.fromRaw (value : String) : Option PaymentSecret :=
  if valid : isPaymentSecret value = true then some ⟨value, valid⟩ else none

@[simp]
theorem PaymentSecret.fromRaw_value (secret : PaymentSecret) :
    fromRaw secret.value = some secret :=
  dif_pos secret.valid

structure PaymentAmount where
  minorUnits : UInt64
  currency : String
  currencySymbol : Option String
  decimalPrecision : UInt8
deriving DecidableEq

/-- What ULIDs and chrono's instants do: their texts are read back, and the databases keep an
instant in whole seconds. -/
structure PaymentCodecs (Ulid Time : Type) where
  ulidText : Ulid → String
  parseUlid : String → Option Ulid
  parseUlid_ulidText : ∀ ulid, parseUlid (ulidText ulid) = some ulid
  timeText : Time → String
  parseTime : String → Option Time
  parseTime_timeText : ∀ time, parseTime (timeText time) = some time
  storedTime : Time → Time

section Tables

variable (Ulid Time : Type)

/-- An order as the history lists it. -/
structure PaymentOrderHistoryRecord where
  orderId : Ulid
  productTier : ProductTier
  amount : PaymentAmount
  status : PaymentOrderStatus
  paidAt : Option Time
deriving DecidableEq

/-- An order of a session that Central opened. -/
structure NewPaymentOrder where
  orderId : Ulid
  productTier : ProductTier
  amount : PaymentAmount

/-- A token whose signature was verified; its two parts are separated by a dot. -/
structure VerifiedEntitlementToken where
  compactToken : String
  hasDot : '.' ∈ compactToken.toList
  tokenId : Ulid
  subscriptionSubjectId : Ulid
  subscriptionValidUntil : Time
  tokenExpiresAt : Time
  issuedAt : Time

structure PaymentTokenHistoryRecord where
  tokenId : Ulid
  subscriptionSubjectId : Ulid
  activeToken : String
  subscriptionValidUntil : Time
  tokenExpiresAt : Time
  tokenIssuedAt : Time
deriving DecidableEq

/-- The subject of a user, with the token that its pointer leads to while that one is active. -/
structure PaymentSubjectRecord where
  managementSecret : Option PaymentSecret := none
  activeToken : Option (PaymentTokenHistoryRecord Ulid Time) := none
deriving DecidableEq

structure NewPendingPremiumTransfer where
  sourceFileName : String
  importedManagementSecret : PaymentSecret
  importedActiveToken : Option String
  importedTokenId : Option Ulid
  importedSubscriptionSubjectId : Option Ulid
  importedSubscriptionValidUntil : Option Time
  importedTokenExpiresAt : Option Time
  importedTokenIssuedAt : Option Time
deriving DecidableEq

/-- `orders` is `payment_orders` and `history` is `payment_order_history`. -/
structure PaymentTables where
  subject : Option (PaymentSubjectRecord Ulid Time) := none
  orders : List (PaymentOrderHistoryRecord Ulid Time) := []
  history : List (PaymentOrderHistoryRecord Ulid Time) := []
  pendingTransfers : List (NewPendingPremiumTransfer Ulid Time) := []
deriving DecidableEq

end Tables

/-! ## Statements -/

section Statements

variable {Ulid Time : Type} [DecidableEq Ulid] (codecs : PaymentCodecs Ulid Time)

/-- The greatest amount that SQLite stores. -/
def maxStoredMinorUnits : ℕ := 9223372036854775807

/-- What the columns of an amount keep of it. -/
def PaymentAmount.stored (amount : PaymentAmount) : PaymentAmount :=
  { amount with currencySymbol := none }

namespace PaymentTables

def loadOrCreatePaymentSubject (tables : PaymentTables Ulid Time) : PaymentTables Ulid Time :=
  { tables with subject := some (tables.subject.getD {}) }

def updatePaymentManagementSecret (tables : PaymentTables Ulid Time)
    (managementSecret : PaymentSecret) : PaymentTables Ulid Time :=
  { tables with
    subject := tables.subject.map ({ · with managementSecret := some managementSecret }) }

/-- The table refuses a second order of an id and an amount of zero. -/
def insertPaymentOrder (tables : PaymentTables Ulid Time) (order : NewPaymentOrder Ulid) :
    Option (PaymentTables Ulid Time) :=
  if order.amount.minorUnits.toNat ≤ maxStoredMinorUnits ∧ 0 < order.amount.minorUnits.toNat ∧
      (find PaymentOrderHistoryRecord.orderId tables.orders order.orderId).isNone then
    some { tables with
      orders := tables.orders ++ [{
        orderId := order.orderId
        productTier := order.productTier
        amount := order.amount.stored
        status := .pending
        paidAt := none }] }
  else none

/-- The rows of an order with one of some statuses are given another one. -/
def setStatus (orderId : Ulid) (selects : PaymentOrderStatus → Bool) (status : PaymentOrderStatus)
    (paidAt : Option Time → Option Time) (row : PaymentOrderHistoryRecord Ulid Time) :
    PaymentOrderHistoryRecord Ulid Time :=
  if row.orderId = orderId ∧ selects row.status then
    { row with status, paidAt := paidAt row.paidAt }
  else row

/-- The statuses that a reconciliation may still change. -/
def openStatus (status : PaymentOrderStatus) : Bool :=
  status = .pending || status = .canceled

def cancelPaymentOrder (tables : PaymentTables Ulid Time) (orderId : Ulid) :
    PaymentTables Ulid Time :=
  { tables with orders := tables.orders.map (setStatus orderId (· = .pending) .canceled id) }

def markPaymentOrderStatus (tables : PaymentTables Ulid Time) (orderId : Ulid)
    (status : PaymentOrderStatus) (paidAt : Option Time) : PaymentTables Ulid Time :=
  { tables with
    orders := tables.orders.map
      (setStatus orderId (fun _ => true) status fun _ => paidAt.map codecs.storedTime) }

def reconcilePaymentOrderStatus (tables : PaymentTables Ulid Time) (orderId : Ulid)
    (status : PaymentOrderStatus) (paidAt : Option Time) : PaymentTables Ulid Time :=
  { tables with
    orders := tables.orders.map
      (setStatus orderId openStatus status fun _ => paidAt.map codecs.storedTime) }

def reconcileImportedPaymentOrderHistoryStatus (tables : PaymentTables Ulid Time)
    (orderId : Ulid) (status : PaymentOrderStatus) (paidAt : Option Time) :
    PaymentTables Ulid Time :=
  { tables with
    history := tables.history.map
      (setStatus orderId openStatus status fun _ => paidAt.map codecs.storedTime) }

/-- The token is stored and pointed to, and the order that it was bought with is paid. -/
def storeVerifiedPremiumToken (tables : PaymentTables Ulid Time) (orderId : Option Ulid)
    (verified : VerifiedEntitlementToken Ulid Time) (paidAt : Option Time) :
    PaymentTables Ulid Time :=
  let tables := { tables with
    subject := tables.subject.map ({ · with activeToken := some {
      tokenId := verified.tokenId
      subscriptionSubjectId := verified.subscriptionSubjectId
      activeToken := verified.compactToken
      subscriptionValidUntil := codecs.storedTime verified.subscriptionValidUntil
      tokenExpiresAt := codecs.storedTime verified.tokenExpiresAt
      tokenIssuedAt := codecs.storedTime verified.issuedAt } }) }
  match orderId with
  | none => tables
  | some orderId => tables.markPaymentOrderStatus codecs orderId .paid paidAt

def clearVerifiedPremiumToken (tables : PaymentTables Ulid Time) : PaymentTables Ulid Time :=
  { tables with subject := tables.subject.map ({ · with activeToken := none }) }

/-- Whatever an imported row of an id said is overwritten. An amount that SQLite cannot store rolls
everything back. -/
def upsertImportedPaymentOrderHistory (tables : PaymentTables Ulid Time)
    (orders : List (PaymentOrderHistoryRecord Ulid Time)) : Option (PaymentTables Ulid Time) :=
  if orders.all fun order => order.amount.minorUnits.toNat ≤ maxStoredMinorUnits then
    some { tables with
      history := orders.foldl (fun history order =>
        upsert PaymentOrderHistoryRecord.orderId (fun _ incoming => incoming) { order with
          amount := order.amount.stored
          paidAt := order.paidAt.map codecs.storedTime } history) tables.history }
  else none

def insertPendingPremiumTransfer (tables : PaymentTables Ulid Time)
    (transfer : NewPendingPremiumTransfer Ulid Time) : PaymentTables Ulid Time :=
  { tables with pendingTransfers := tables.pendingTransfers ++ [transfer] }

/-- `ORDER BY order_id` and `sort_by_key`, by the text of the id. -/
def sortById (records : List (PaymentOrderHistoryRecord Ulid Time)) :
    List (PaymentOrderHistoryRecord Ulid Time) :=
  records.insertionSort fun left right =>
    codecs.ulidText left.orderId ≤ codecs.ulidText right.orderId

def loadAllPaymentOrderHistory (tables : PaymentTables Ulid Time) :
    List (PaymentOrderHistoryRecord Ulid Time) :=
  let records := sortById codecs tables.orders
  let localOrderIds := records.map (·.orderId)
  let imported := (sortById codecs tables.history).filter fun record =>
    record.orderId ∉ localOrderIds
  sortById codecs (records ++ imported)

end PaymentTables

end Statements

/-! ## What the history lists -/

section History

variable {Ulid Time : Type} [DecidableEq Ulid] {codecs : PaymentCodecs Ulid Time}
  {tables : PaymentTables Ulid Time} {record : PaymentOrderHistoryRecord Ulid Time}

namespace PaymentTables

omit [DecidableEq Ulid] in
theorem perm_sortById (records : List (PaymentOrderHistoryRecord Ulid Time)) :
    (sortById codecs records).Perm records :=
  List.perm_insertionSort _ records

theorem mem_loadAllPaymentOrderHistory :
    record ∈ tables.loadAllPaymentOrderHistory codecs ↔
      record ∈ tables.orders ∨
        record ∈ tables.history ∧ ∀ own ∈ tables.orders, own.orderId ≠ record.orderId := by
  unfold loadAllPaymentOrderHistory
  rw [(perm_sortById _).mem_iff, List.mem_append, (perm_sortById _).mem_iff, List.mem_filter,
    (perm_sortById _).mem_iff, decide_eq_true_eq]
  simp only [List.mem_map, (perm_sortById tables.orders).mem_iff, not_exists, not_and]

theorem nodup_loadAllPaymentOrderHistory
    (orders : Keyed PaymentOrderHistoryRecord.orderId tables.orders)
    (history : Keyed PaymentOrderHistoryRecord.orderId tables.history) :
    ((tables.loadAllPaymentOrderHistory codecs).map (·.orderId)).Nodup := by
  unfold loadAllPaymentOrderHistory
  rw [((perm_sortById _).map _).nodup_iff, List.map_append]
  refine List.Nodup.append ?_ ?_ ?_
  · exact ((perm_sortById _).map _).nodup_iff.mpr orders
  · exact (((perm_sortById _).map _).nodup_iff.mpr history).sublist (List.filter_sublist.map _)
  · intro orderId own imported
    obtain ⟨record, member, rfl⟩ := List.mem_map.mp imported
    exact of_decide_eq_true (List.mem_filter.mp member).2 own

end PaymentTables

end History

end Bitgarth.Payments
