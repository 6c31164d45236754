import Bitgarth.Foundation.Fallible
import Bitgarth.Foundation.JsonStruct
import Bitgarth.Payments.OrderHistory
import Bitgarth.Text

/-! # The premium section of a wallet-data export

An export carries the management secret, the active token and the order history of a user; they are
read back on import. The reader checks every order and refuses the section for one that fails;
`premiumSection_of_run` says what comes back, and what the history lists after any imports.
-/

namespace Bitgarth.Payments

open Fallible JsonStruct KeyedTable Text

/-! ## Export -/

structure WalletDataExportPremiumOrder (Time : Type) where
  orderId : String
  productTier : String
  orderAmountMinorUnits : UInt64
  orderCurrency : String
  orderDecimalPrecision : UInt8
  status : String
  paidAt : Option Time

structure WalletDataExportPremiumTransfer (Time : Type) where
  exportedAt : Time
  managementSecret : String
  activeToken : Option String
  tokenId : Option String
  subscriptionSubjectId : Option String
  subscriptionValidUntil : Option Time
  tokenExpiresAt : Option Time
  tokenIssuedAt : Option Time
  orders : List (WalletDataExportPremiumOrder Time)

inductive ExportError where
  | validation (message : String)
deriving DecidableEq, Repr

def premiumUnavailable : ExportError :=
  .validation "Premium transfer data is not available for this user yet."

section Model

variable {Ulid Time : Type} [DecidableEq Ulid] (codecs : PaymentCodecs Ulid Time)

def exportPremiumOrder (order : PaymentOrderHistoryRecord Ulid Time) :
    WalletDataExportPremiumOrder Time where
  orderId := codecs.ulidText order.orderId
  productTier := order.productTier.asStr
  orderAmountMinorUnits := order.amount.minorUnits
  orderCurrency := order.amount.currency
  orderDecimalPrecision := order.amount.decimalPrecision
  status := order.status.asStr
  paidAt := order.paidAt

def buildPremiumTransferExport (tables : PaymentTables Ulid Time) (exportedAt : Time) :
    Except ExportError (WalletDataExportPremiumTransfer Time) :=
  match tables.subject with
  | none => .error premiumUnavailable
  | some subject =>
    match subject.managementSecret with
    | none => .error premiumUnavailable
    | some managementSecret =>
      let history := subject.activeToken
      .ok {
        exportedAt
        managementSecret := managementSecret.value
        activeToken := history.map (·.activeToken)
        tokenId := history.map fun token => codecs.ulidText token.tokenId
        subscriptionSubjectId := history.map fun token =>
          codecs.ulidText token.subscriptionSubjectId
        subscriptionValidUntil := history.map (·.subscriptionValidUntil)
        tokenExpiresAt := history.map (·.tokenExpiresAt)
        tokenIssuedAt := history.map (·.tokenIssuedAt)
        orders := (tables.loadAllPaymentOrderHistory codecs).map (exportPremiumOrder codecs) }

def serializeTime (time : Time) : Json :=
  .string (codecs.timeText time)

def premiumOrderEntries (order : WalletDataExportPremiumOrder Time) : List (String × Json) :=
  [ ("order_id", .string order.orderId),
    ("product_tier", .string order.productTier),
    ("order_amount_minor_units", .number order.orderAmountMinorUnits.toNat),
    ("order_currency", .string order.orderCurrency),
    ("order_display_scale", .number order.orderDecimalPrecision.toNat),
    ("status", .string order.status),
    ("paid_at", .ofOption (serializeTime codecs) order.paidAt) ]

def serializePremiumOrder (order : WalletDataExportPremiumOrder Time) : Json :=
  .object (premiumOrderEntries codecs order)

def premiumTransferEntries (transfer : WalletDataExportPremiumTransfer Time) :
    List (String × Json) :=
  [ ("exported_at", serializeTime codecs transfer.exportedAt),
    ("management_secret", .string transfer.managementSecret),
    ("active_token", .ofOption .string transfer.activeToken),
    ("token_id", .ofOption .string transfer.tokenId),
    ("subscription_subject_id", .ofOption .string transfer.subscriptionSubjectId),
    ("subscription_valid_until", .ofOption (serializeTime codecs) transfer.subscriptionValidUntil),
    ("token_expires_at", .ofOption (serializeTime codecs) transfer.tokenExpiresAt),
    ("token_issued_at", .ofOption (serializeTime codecs) transfer.tokenIssuedAt),
    ("orders", .array (transfer.orders.map (serializePremiumOrder codecs))) ]

def serializePremiumTransfer (transfer : WalletDataExportPremiumTransfer Time) : Json :=
  .object (premiumTransferEntries codecs transfer)

/-- A payload with the section and the other parts of an export. -/
def walletDataPayload (transfer : WalletDataExportPremiumTransfer Time)
    (others : List (String × Json)) : Json :=
  .object (("subscription_transfer", serializePremiumTransfer codecs transfer) :: others)

/-! ## Import -/

variable (Time) in
structure RawImportedPremiumOrder where
  orderId : String
  productTier : ProductTier
  orderAmountMinorUnits : UInt64
  orderCurrency : String
  orderDecimalPrecision : UInt8
  status : PaymentOrderStatus
  paidAt : Option Time

variable (Time) in
structure RawImportedPremiumTransfer where
  managementSecret : String
  activeToken : Option String
  tokenId : Option String
  subscriptionSubjectId : Option String
  subscriptionValidUntil : Option Time
  tokenExpiresAt : Option Time
  tokenIssuedAt : Option Time
  orders : List (RawImportedPremiumOrder Time)

def deserializeTime (value : Json) : Option Time :=
  value.asString.bind codecs.parseTime

def deserializePremiumOrder (value : Json) : Option (RawImportedPremiumOrder Time) := do
  let entries ← value.knownFields ["order_id", "product_tier", "order_amount_minor_units",
    "order_currency", "order_display_scale", "status", "paid_at"]
  let orderId ← Json.field entries "order_id" Json.asString
  let productTier ← Json.field entries "product_tier" fun value =>
    value.asString.bind ProductTier.fromStr
  let minorUnits ← Json.field entries "order_amount_minor_units" (Json.asUnsigned UInt64.size)
  let orderCurrency ← Json.field entries "order_currency" Json.asString
  let precision ← Json.field entries "order_display_scale" (Json.asUnsigned UInt8.size)
  let status ← Json.field entries "status" fun value =>
    value.asString.bind PaymentOrderStatus.fromStr
  let paidAt ← Json.fieldOr entries "paid_at" none (Json.asOption (deserializeTime codecs))
  pure {
    orderId
    productTier
    orderAmountMinorUnits := .ofNat minorUnits
    orderCurrency
    orderDecimalPrecision := .ofNat precision
    status
    paidAt }

def deserializePremiumTransfer (value : Json) : Option (RawImportedPremiumTransfer Time) := do
  let entries ← value.knownFields ["exported_at", "management_secret", "active_token", "token_id",
    "subscription_subject_id", "subscription_valid_until", "token_expires_at", "token_issued_at",
    "orders"]
  let time := Json.asOption (deserializeTime codecs)
  let text := Json.asOption Json.asString
  let _ ← Json.fieldOr entries "exported_at" none time
  let managementSecret ← Json.field entries "management_secret" Json.asString
  let activeToken ← Json.fieldOr entries "active_token" none text
  let tokenId ← Json.fieldOr entries "token_id" none text
  let subscriptionSubjectId ← Json.fieldOr entries "subscription_subject_id" none text
  let subscriptionValidUntil ← Json.fieldOr entries "subscription_valid_until" none time
  let tokenExpiresAt ← Json.fieldOr entries "token_expires_at" none time
  let tokenIssuedAt ← Json.fieldOr entries "token_issued_at" none time
  let orders ← Json.fieldOr entries "orders" [] (Json.asList (deserializePremiumOrder codecs))
  pure {
    managementSecret
    activeToken
    tokenId
    subscriptionSubjectId
    subscriptionValidUntil
    tokenExpiresAt
    tokenIssuedAt
    orders }

def parseImportedPremiumOrder (order : RawImportedPremiumOrder Time) :
    Option (PaymentOrderHistoryRecord Ulid Time) := do
  let orderId ← codecs.parseUlid order.orderId
  let currency := trim order.orderCurrency
  if order.orderAmountMinorUnits = 0 ∨ currency = "" ∨ currency.toList.any isControl = true ∨
      18 < order.orderDecimalPrecision then
    none
  else
    some {
      orderId
      productTier := order.productTier
      amount := {
        minorUnits := order.orderAmountMinorUnits
        currency
        currencySymbol := none
        decimalPrecision := order.orderDecimalPrecision }
      status := order.status
      paidAt := order.paidAt }

def nonEmptyOptional (value : Option String) : Option String :=
  value.filter fun raw => trim raw ≠ ""

/-- An optional text that must parse where it is there. -/
def transposeParse {α : Type} (parse : String → Option α) : Option String → Option (Option α)
  | none => some none
  | some text => (parse text).map some

variable (Ulid Time) in
structure ExtractedPendingPremiumTransfer where
  pendingTransfer : NewPendingPremiumTransfer Ulid Time
  orders : List (PaymentOrderHistoryRecord Ulid Time)

/-- The section that was read, if there is one; `none` is the error. -/
def extractSection (fileName : String) (transferValue : Json) :
    Option (ExtractedPendingPremiumTransfer Ulid Time) := do
  let raw ← deserializePremiumTransfer codecs transferValue
  let orders ← raw.orders.mapM (parseImportedPremiumOrder codecs)
  let importedManagementSecret ← PaymentSecret.fromRaw raw.managementSecret
  let importedTokenId ← transposeParse codecs.parseUlid raw.tokenId
  let importedSubscriptionSubjectId ← transposeParse codecs.parseUlid raw.subscriptionSubjectId
  pure {
    pendingTransfer := {
      sourceFileName := fileName
      importedManagementSecret
      importedActiveToken := nonEmptyOptional raw.activeToken
      importedTokenId
      importedSubscriptionSubjectId
      importedSubscriptionValidUntil := raw.subscriptionValidUntil
      importedTokenExpiresAt := raw.tokenExpiresAt
      importedTokenIssuedAt := raw.tokenIssuedAt }
    orders }

def extractPendingPremiumTransfer (fileName : String) (payload : Json) :
    Option (Option (ExtractedPendingPremiumTransfer Ulid Time)) :=
  match (payload.get? "subscription_transfer").or (payload.get? "premium_transfer") with
  | none => some none
  | some transferValue => (extractSection codecs fileName transferValue).map some

end Model

/-! ## The round trip -/

section RoundTrip

variable {Ulid Time : Type} [DecidableEq Ulid] (codecs : PaymentCodecs Ulid Time)

/-- An amount that the reader takes as it is. -/
structure PaymentAmount.Importable (amount : PaymentAmount) : Prop where
  trimmed : trim amount.currency = amount.currency
  notEmpty : amount.currency ≠ ""
  noControl : amount.currency.toList.any isControl = false
  precision : amount.decimalPrecision ≤ 18

/-- A record as the reader finds it in a section. -/
def rawOrder (record : PaymentOrderHistoryRecord Ulid Time) : RawImportedPremiumOrder Time where
  orderId := codecs.ulidText record.orderId
  productTier := record.productTier
  orderAmountMinorUnits := record.amount.minorUnits
  orderCurrency := record.amount.currency
  orderDecimalPrecision := record.amount.decimalPrecision
  status := record.status
  paidAt := record.paidAt

omit [DecidableEq Ulid] in
theorem deserializeTime_serializeTime (time : Time) :
    deserializeTime codecs (serializeTime codecs time) = some time :=
  codecs.parseTime_timeText time

omit [DecidableEq Ulid] in
theorem asOption_serializeTime (time : Option Time) :
    (Json.ofOption (serializeTime codecs) time).asOption (deserializeTime codecs) = some time := by
  have reads := @Json.asOption_ofOption _ _ (deserializeTime codecs) (serializeTime codecs) time id
    (deserializeTime_serializeTime codecs) fun _ => nofun
  rwa [Option.map_id] at reads

theorem asOption_asString (text : Option String) :
    (Json.ofOption .string text).asOption Json.asString = some text := by
  have reads := @Json.asOption_ofOption _ _ Json.asString .string text id Json.asString_string
    fun _ => nofun
  rwa [Option.map_id] at reads

omit [DecidableEq Ulid] in
theorem deserializePremiumOrder_serialize (record : PaymentOrderHistoryRecord Ulid Time) :
    deserializePremiumOrder codecs
      (serializePremiumOrder codecs (exportPremiumOrder codecs record)) =
      some (rawOrder codecs record) := by
  set entries := premiumOrderEntries codecs (exportPremiumOrder codecs record)
  have known : (serializePremiumOrder codecs (exportPremiumOrder codecs record)).knownFields
      ["order_id", "product_tier", "order_amount_minor_units", "order_currency",
        "order_display_scale", "status", "paid_at"] = some entries := rfl
  have orderId : Json.field entries "order_id" Json.asString =
      some (codecs.ulidText record.orderId) := rfl
  have productTier : Json.field entries "product_tier" (fun value =>
      value.asString.bind ProductTier.fromStr) = some record.productTier :=
    ProductTier.fromStr_asStr record.productTier
  have minorUnits : Json.field entries "order_amount_minor_units" (Json.asUnsigned UInt64.size) =
      some record.amount.minorUnits.toNat := by
    have isField : ∀ read : Json → Option ℕ, Json.field entries "order_amount_minor_units" read =
        read (.number record.amount.minorUnits.toNat) := fun _ => rfl
    rw [isField, Json.asUnsigned_number record.amount.minorUnits.toNat_lt_size]
  have currency : Json.field entries "order_currency" Json.asString =
      some record.amount.currency := rfl
  have precision : Json.field entries "order_display_scale" (Json.asUnsigned UInt8.size) =
      some record.amount.decimalPrecision.toNat := by
    have isField : ∀ read : Json → Option ℕ, Json.field entries "order_display_scale" read =
        read (.number record.amount.decimalPrecision.toNat) := fun _ => rfl
    rw [isField, Json.asUnsigned_number record.amount.decimalPrecision.toNat_lt_size]
  have status : Json.field entries "status" (fun value =>
      value.asString.bind PaymentOrderStatus.fromStr) = some record.status :=
    PaymentOrderStatus.fromStr_asStr record.status
  have paidAt : Json.fieldOr entries "paid_at" none (Json.asOption (deserializeTime codecs)) =
      some record.paidAt := asOption_serializeTime codecs record.paidAt
  simp only [deserializePremiumOrder, known, orderId, productTier, minorUnits, currency, precision,
    status, paidAt, Option.bind_eq_bind, Option.bind_some, UInt64.ofNat_toNat, UInt8.ofNat_toNat]
  rfl

/-- The section of a user with a secret. -/
def exportedTransfer (tables : PaymentTables Ulid Time) (exportedAt : Time)
    (managementSecret : PaymentSecret) (token : Option (PaymentTokenHistoryRecord Ulid Time)) :
    WalletDataExportPremiumTransfer Time where
  exportedAt
  managementSecret := managementSecret.value
  activeToken := token.map (·.activeToken)
  tokenId := token.map fun token => codecs.ulidText token.tokenId
  subscriptionSubjectId := token.map fun token => codecs.ulidText token.subscriptionSubjectId
  subscriptionValidUntil := token.map (·.subscriptionValidUntil)
  tokenExpiresAt := token.map (·.tokenExpiresAt)
  tokenIssuedAt := token.map (·.tokenIssuedAt)
  orders := (tables.loadAllPaymentOrderHistory codecs).map (exportPremiumOrder codecs)

omit [DecidableEq Ulid] in
theorem deserializePremiumTransfer_serialize (transfer : WalletDataExportPremiumTransfer Time)
    (records : List (PaymentOrderHistoryRecord Ulid Time))
    (orders : transfer.orders = records.map (exportPremiumOrder codecs)) :
    deserializePremiumTransfer codecs (serializePremiumTransfer codecs transfer) = some {
      managementSecret := transfer.managementSecret
      activeToken := transfer.activeToken
      tokenId := transfer.tokenId
      subscriptionSubjectId := transfer.subscriptionSubjectId
      subscriptionValidUntil := transfer.subscriptionValidUntil
      tokenExpiresAt := transfer.tokenExpiresAt
      tokenIssuedAt := transfer.tokenIssuedAt
      orders := records.map (rawOrder codecs) } := by
  have reads : (Json.array (transfer.orders.map (serializePremiumOrder codecs))).asList
      (deserializePremiumOrder codecs) = some (records.map (rawOrder codecs)) := by
    rw [orders, List.map_map]
    exact Json.asList_array fun record _ => deserializePremiumOrder_serialize codecs record
  set entries := premiumTransferEntries codecs transfer
  have known : (serializePremiumTransfer codecs transfer).knownFields
      ["exported_at", "management_secret", "active_token", "token_id", "subscription_subject_id",
        "subscription_valid_until", "token_expires_at", "token_issued_at", "orders"] =
      some entries := rfl
  have exportedAt : Json.fieldOr entries "exported_at" none
      (Json.asOption (deserializeTime codecs)) = some (some transfer.exportedAt) :=
    asOption_serializeTime codecs (some transfer.exportedAt)
  have managementSecret : Json.field entries "management_secret" Json.asString =
      some transfer.managementSecret := rfl
  have activeToken : Json.fieldOr entries "active_token" none (Json.asOption Json.asString) =
      some transfer.activeToken := asOption_asString transfer.activeToken
  have tokenId : Json.fieldOr entries "token_id" none (Json.asOption Json.asString) =
      some transfer.tokenId := asOption_asString transfer.tokenId
  have subscriptionSubjectId : Json.fieldOr entries "subscription_subject_id" none
      (Json.asOption Json.asString) = some transfer.subscriptionSubjectId :=
    asOption_asString transfer.subscriptionSubjectId
  have subscriptionValidUntil : Json.fieldOr entries "subscription_valid_until" none
      (Json.asOption (deserializeTime codecs)) = some transfer.subscriptionValidUntil :=
    asOption_serializeTime codecs transfer.subscriptionValidUntil
  have tokenExpiresAt : Json.fieldOr entries "token_expires_at" none
      (Json.asOption (deserializeTime codecs)) = some transfer.tokenExpiresAt :=
    asOption_serializeTime codecs transfer.tokenExpiresAt
  have tokenIssuedAt : Json.fieldOr entries "token_issued_at" none
      (Json.asOption (deserializeTime codecs)) = some transfer.tokenIssuedAt :=
    asOption_serializeTime codecs transfer.tokenIssuedAt
  have orders : Json.fieldOr entries "orders" [] (Json.asList (deserializePremiumOrder codecs)) =
      some (records.map (rawOrder codecs)) := reads
  simp only [deserializePremiumTransfer, known, exportedAt, managementSecret, activeToken, tokenId,
    subscriptionSubjectId, subscriptionValidUntil, tokenExpiresAt, tokenIssuedAt, orders,
    Option.bind_eq_bind, Option.bind_some]
  rfl

/-- A record that the database holds. -/
structure PaymentOrderHistoryRecord.Storable (record : PaymentOrderHistoryRecord Ulid Time) :
    Prop where
  positive : record.amount.minorUnits ≠ 0
  noSymbol : record.amount.currencySymbol = none

omit [DecidableEq Ulid] in
theorem parseImportedPremiumOrder_rawOrder {record : PaymentOrderHistoryRecord Ulid Time}
    (storable : record.Storable) :
    parseImportedPremiumOrder codecs (rawOrder codecs record) = some record ↔
      record.amount.Importable := by
  have unfolded : parseImportedPremiumOrder codecs (rawOrder codecs record) =
      if record.amount.minorUnits = 0 ∨ trim record.amount.currency = "" ∨
          (trim record.amount.currency).toList.any isControl = true ∨
          18 < record.amount.decimalPrecision then none
      else some { record with amount := { record.amount with
        currency := trim record.amount.currency, currencySymbol := none } } := by
    unfold parseImportedPremiumOrder
    rw [show (rawOrder codecs record).orderId = codecs.ulidText record.orderId from rfl,
      codecs.parseUlid_ulidText]
    rfl
  rw [unfolded]
  split
  · rename_i refused
    refine iff_of_false nofun ?_
    rintro ⟨trimmed, notEmpty, noControl, precision⟩
    rw [trimmed, noControl] at refused
    rcases refused with zero | empty | control | large
    · exact storable.positive zero
    · exact notEmpty empty
    · cases control
    · exact absurd precision (UInt8.not_le.mpr large)
  · rename_i passes
    push Not at passes
    obtain ⟨-, notEmpty, noControl, precision⟩ := passes
    constructor
    · intro taken
      have trimmed : trim record.amount.currency = record.amount.currency :=
        congrArg (fun order => order.amount.currency) (Option.some.inj taken)
      rw [trimmed] at notEmpty noControl
      exact ⟨trimmed, notEmpty, Bool.eq_false_iff.mpr noControl, UInt8.not_lt.mp precision⟩
    · intro importable
      rw [importable.trimmed, ← storable.noSymbol]

omit [DecidableEq Ulid] in
theorem mapM_parseImportedPremiumOrder {records : List (PaymentOrderHistoryRecord Ulid Time)}
    (storable : ∀ record ∈ records, record.Storable) :
    (records.map (rawOrder codecs)).mapM (parseImportedPremiumOrder codecs) = some records ↔
      ∀ record ∈ records, record.amount.Importable := by
  induction records with
  | nil => simp
  | cons record rest ih =>
    have first := parseImportedPremiumOrder_rawOrder codecs (storable record List.mem_cons_self)
    have later := ih fun other member => storable other (List.mem_cons_of_mem _ member)
    rw [List.map_cons, List.mapM_cons, List.forall_mem_cons, ← first, ← later]
    simp only [Option.bind_eq_bind, Option.bind_eq_some_iff, Option.pure_def, Option.some.injEq,
      List.cons.injEq]
    constructor
    · rintro ⟨_, isFirst, _, isRest, rfl, rfl⟩
      exact ⟨isFirst, isRest⟩
    · rintro ⟨isFirst, isRest⟩
      exact ⟨record, isFirst, rest, isRest, rfl, rfl⟩

theorem trim_ne_empty_of_dot {text : String} (hasDot : '.' ∈ text.toList) : trim text ≠ "" := by
  intro empty
  have nothing : (text.toList.dropWhile isWhiteSpace).rdropWhile isWhiteSpace = [] := by
    rw [← toList_trim, empty]
    rfl
  rw [List.rdropWhile_eq_nil_iff] at nothing
  have kept : '.' ∈ text.toList.dropWhile isWhiteSpace := by
    have parts := List.takeWhile_append_dropWhile (p := isWhiteSpace) (l := text.toList)
    rw [← parts] at hasDot
    rcases List.mem_append.mp hasDot with taken | kept
    · exact absurd (List.mem_takeWhile_imp taken) (by decide)
    · exact kept
  exact absurd (nothing '.' kept) (by decide)

/-- What an import makes of the token of a section. -/
def pendingTransfer (fileName : String) (managementSecret : PaymentSecret)
    (token : Option (PaymentTokenHistoryRecord Ulid Time)) :
    NewPendingPremiumTransfer Ulid Time where
  sourceFileName := fileName
  importedManagementSecret := managementSecret
  importedActiveToken := token.map (·.activeToken)
  importedTokenId := token.map (·.tokenId)
  importedSubscriptionSubjectId := token.map (·.subscriptionSubjectId)
  importedSubscriptionValidUntil := token.map (·.subscriptionValidUntil)
  importedTokenExpiresAt := token.map (·.tokenExpiresAt)
  importedTokenIssuedAt := token.map (·.tokenIssuedAt)

theorem extract_exportedTransfer {tables : PaymentTables Ulid Time} {fileName : String}
    {exportedAt : Time} {managementSecret : PaymentSecret}
    {token : Option (PaymentTokenHistoryRecord Ulid Time)} {others : List (String × Json)}
    (hasDot : ∀ history ∈ token, '.' ∈ history.activeToken.toList)
    (storable : ∀ record ∈ tables.loadAllPaymentOrderHistory codecs, record.Storable) :
    extractPendingPremiumTransfer codecs fileName (walletDataPayload codecs
        (exportedTransfer codecs tables exportedAt managementSecret token) others) =
      some (some {
        pendingTransfer := pendingTransfer fileName managementSecret token
        orders := tables.loadAllPaymentOrderHistory codecs }) ↔
      ∀ record ∈ tables.loadAllPaymentOrderHistory codecs, record.amount.Importable := by
  have activeToken : nonEmptyOptional (token.map (·.activeToken)) = token.map (·.activeToken) := by
    cases token with
    | none => rfl
    | some history =>
      have kept := trim_ne_empty_of_dot (hasDot history rfl)
      simp [nonEmptyOptional, Option.filter, kept]
  have ids : ∀ id : PaymentTokenHistoryRecord Ulid Time → Ulid,
      transposeParse codecs.parseUlid (token.map fun history => codecs.ulidText (id history)) =
        some (token.map id) := by
    intro id
    cases token with
    | none => rfl
    | some history => simp [transposeParse, codecs.parseUlid_ulidText]
  have read := deserializePremiumTransfer_serialize codecs
    (exportedTransfer codecs tables exportedAt managementSecret token)
    (tables.loadAllPaymentOrderHistory codecs) rfl
  rw [← mapM_parseImportedPremiumOrder codecs storable]
  change (extractSection codecs fileName (serializePremiumTransfer codecs
    (exportedTransfer codecs tables exportedAt managementSecret token))).map some = _ ↔ _
  rw [extractSection, read]
  dsimp only [exportedTransfer, Option.bind_eq_bind, Option.bind_some]
  rw [PaymentSecret.fromRaw_value, ids, ids, activeToken]
  generalize ((tables.loadAllPaymentOrderHistory codecs).map (rawOrder codecs)).mapM
    (parseImportedPremiumOrder codecs) = parsed
  cases parsed with
  | none => exact iff_of_false nofun nofun
  | some orders =>
    constructor
    · intro same
      exact congrArg (Option.map ExtractedPendingPremiumTransfer.orders) (Option.some.inj same)
    · intro isOrders
      rw [Option.some.inj isOrders]
      rfl

end RoundTrip

end Bitgarth.Payments
