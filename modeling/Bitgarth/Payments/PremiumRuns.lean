import Bitgarth.Payments.PremiumSection

/-! # Exports and imports of the premium section

The payment tables after any checkouts, polls, reconciliations and imports. A section comes back as
it was exactly when the orders of this installation have amounts that the reader takes as they are;
an imported order that the last section with it has as paid is listed as paid.
-/

namespace Bitgarth.Payments

open JsonStruct KeyedTable

section Model

variable {Ulid Time : Type} [DecidableEq Ulid] (codecs : PaymentCodecs Ulid Time)

/-- What writes to the payment tables. A pending transfer that is confirmed updates the secret and
stores a token. -/
inductive PaymentStep (Ulid Time : Type) where
  | createSubject
  | updateManagementSecret (managementSecret : PaymentSecret)
  | insertOrder (order : NewPaymentOrder Ulid)
  | cancelOrder (orderId : Ulid)
  | markOrderStatus (orderId : Ulid) (status : PaymentOrderStatus) (paidAt : Option Time)
  | reconcileOrder (orderId : Ulid) (status : PaymentOrderStatus) (paidAt : Option Time)
  | reconcileImportedOrder (orderId : Ulid) (status : PaymentOrderStatus) (paidAt : Option Time)
  | storeToken (orderId : Option Ulid) (verified : VerifiedEntitlementToken Ulid Time)
      (paidAt : Option Time)
  | clearToken
  | importPayload (fileName : String) (payload : Json)

/-- The orders that a step imports: those of a section that is read and can be stored. -/
def PaymentStep.importedOrders :
    PaymentStep Ulid Time → List (PaymentOrderHistoryRecord Ulid Time)
  | importPayload fileName payload =>
    match extractPendingPremiumTransfer codecs fileName payload with
    | some (some extracted) =>
      if extracted.orders.all fun order =>
          order.amount.minorUnits.toNat ≤ maxStoredMinorUnits then extracted.orders
      else []
    | _ => []
  | _ => []

/-- A step that fails leaves the tables as they are. -/
def PaymentStep.run (tables : PaymentTables Ulid Time) :
    PaymentStep Ulid Time → PaymentTables Ulid Time
  | createSubject => tables.loadOrCreatePaymentSubject
  | updateManagementSecret managementSecret =>
    tables.updatePaymentManagementSecret managementSecret
  | insertOrder order => (tables.insertPaymentOrder order).getD tables
  | cancelOrder orderId => tables.cancelPaymentOrder orderId
  | markOrderStatus orderId status paidAt =>
    tables.markPaymentOrderStatus codecs orderId status paidAt
  | reconcileOrder orderId status paidAt =>
    tables.reconcilePaymentOrderStatus codecs orderId status paidAt
  | reconcileImportedOrder orderId status paidAt =>
    tables.reconcileImportedPaymentOrderHistoryStatus codecs orderId status paidAt
  | storeToken orderId verified paidAt =>
    tables.storeVerifiedPremiumToken codecs orderId verified paidAt
  | clearToken => tables.clearVerifiedPremiumToken
  | importPayload fileName payload =>
    match extractPendingPremiumTransfer codecs fileName payload with
    | some (some extracted) =>
      match tables.upsertImportedPaymentOrderHistory codecs extracted.orders with
      | none => tables
      | some tables => tables.insertPendingPremiumTransfer extracted.pendingTransfer
    | _ => tables

def runSteps (steps : List (PaymentStep Ulid Time)) : PaymentTables Ulid Time :=
  steps.foldl (PaymentStep.run codecs) {}

/-- The record of an order in the last section that has it. -/
def lastImported (steps : List (PaymentStep Ulid Time)) (orderId : Ulid) :
    Option (PaymentOrderHistoryRecord Ulid Time) :=
  (steps.flatMap (PaymentStep.importedOrders codecs)).reverse.find? fun order =>
    order.orderId = orderId

/-- The section of an export is read back as it was. -/
def PaymentTables.RoundTrips (tables : PaymentTables Ulid Time)
    (subject : PaymentSubjectRecord Ulid Time) (managementSecret : PaymentSecret)
    (exportedAt : Time) (fileName : String) (others : List (String × Json)) : Prop :=
  ∃ transfer, buildPremiumTransferExport codecs tables exportedAt = .ok transfer ∧
    extractPendingPremiumTransfer codecs fileName (walletDataPayload codecs transfer others) =
      some (some {
        pendingTransfer := pendingTransfer fileName managementSecret subject.activeToken
        orders := tables.loadAllPaymentOrderHistory codecs })

end Model

/-! ## Invariants -/

section Invariants

variable {Ulid Time : Type} [DecidableEq Ulid] {codecs : PaymentCodecs Ulid Time}
  {tables : PaymentTables Ulid Time} {record : PaymentOrderHistoryRecord Ulid Time}
  {last : Ulid → Option (PaymentOrderHistoryRecord Ulid Time)}

structure PaymentTables.Sound (tables : PaymentTables Ulid Time) : Prop where
  orders : Keyed PaymentOrderHistoryRecord.orderId tables.orders
  history : Keyed PaymentOrderHistoryRecord.orderId tables.history
  ordersStorable : ∀ record ∈ tables.orders, record.Storable
  historyStorable : ∀ record ∈ tables.history, record.Storable
  historyImportable : ∀ record ∈ tables.history, record.amount.Importable
  hasDot : ∀ subject ∈ tables.subject, ∀ token ∈ subject.activeToken,
    '.' ∈ token.activeToken.toList

/-- The imported rows stand for the last sections, and a payment that they report is not lost. -/
def PaymentTables.Follows (last : Ulid → Option (PaymentOrderHistoryRecord Ulid Time))
    (tables : PaymentTables Ulid Time) : Prop :=
  ∀ orderId, ∀ record ∈ last orderId, ∃ row,
    find PaymentOrderHistoryRecord.orderId tables.history orderId = some row ∧
      (record.status = .paid → row.status = .paid)

namespace PaymentTables

@[simp]
theorem orderId_setStatus {orderId : Ulid} {selects : PaymentOrderStatus → Bool}
    {status : PaymentOrderStatus} {paidAt : Option Time → Option Time} :
    (setStatus orderId selects status paidAt record).orderId = record.orderId := by
  unfold setStatus
  split <;> rfl

@[simp]
theorem amount_setStatus {orderId : Ulid} {selects : PaymentOrderStatus → Bool}
    {status : PaymentOrderStatus} {paidAt : Option Time → Option Time} :
    (setStatus orderId selects status paidAt record).amount = record.amount := by
  unfold setStatus
  split <;> rfl

theorem setStatus_of_not_selected {orderId : Ulid} {selects : PaymentOrderStatus → Bool}
    {status : PaymentOrderStatus} {paidAt : Option Time → Option Time}
    (kept : selects record.status = false) :
    setStatus orderId selects status paidAt record = record := by
  unfold setStatus
  rw [if_neg]
  rintro ⟨_, selected⟩
  rw [kept] at selected
  cases selected

theorem storable_setStatus {orderId : Ulid} {selects : PaymentOrderStatus → Bool}
    {status : PaymentOrderStatus} {paidAt : Option Time → Option Time}
    (storable : record.Storable) : (setStatus orderId selects status paidAt record).Storable := by
  constructor
  · rw [amount_setStatus]
    exact storable.positive
  · rw [amount_setStatus]
    exact storable.noSymbol

theorem Sound.mapOrders (sound : tables.Sound) {orderId : Ulid}
    {selects : PaymentOrderStatus → Bool} {status : PaymentOrderStatus}
    {paidAt : Option Time → Option Time} :
    ({ tables with
      orders := tables.orders.map (setStatus orderId selects status paidAt) } :
        PaymentTables Ulid Time).Sound where
  orders := sound.orders.map fun _ => orderId_setStatus
  history := sound.history
  ordersStorable := by
    intro record member
    obtain ⟨row, isRow, rfl⟩ := List.mem_map.mp member
    exact storable_setStatus (sound.ordersStorable row isRow)
  historyStorable := sound.historyStorable
  historyImportable := sound.historyImportable
  hasDot := sound.hasDot

theorem Sound.reconcileImported (sound : tables.Sound) {orderId : Ulid}
    {status : PaymentOrderStatus} {paidAt : Option Time} :
    (tables.reconcileImportedPaymentOrderHistoryStatus codecs orderId status paidAt).Sound where
  orders := sound.orders
  history := sound.history.map fun _ => orderId_setStatus
  ordersStorable := sound.ordersStorable
  historyStorable := by
    intro record member
    obtain ⟨row, isRow, rfl⟩ := List.mem_map.mp member
    exact storable_setStatus (sound.historyStorable row isRow)
  historyImportable := by
    intro record member
    obtain ⟨row, isRow, rfl⟩ := List.mem_map.mp member
    rw [amount_setStatus]
    exact sound.historyImportable row isRow
  hasDot := sound.hasDot

omit [DecidableEq Ulid] in
theorem Sound.setSubject (sound : tables.Sound) {subject : Option (PaymentSubjectRecord Ulid Time)}
    (hasDot : ∀ next ∈ subject, ∀ token ∈ next.activeToken, '.' ∈ token.activeToken.toList) :
    ({ tables with subject } : PaymentTables Ulid Time).Sound :=
  { sound with hasDot }

theorem Sound.insertPaymentOrder (sound : tables.Sound) {order : NewPaymentOrder Ulid}
    {after : PaymentTables Ulid Time} (inserted : tables.insertPaymentOrder order = some after) :
    after.Sound := by
  unfold PaymentTables.insertPaymentOrder at inserted
  split at inserted
  · rename_i checks
    obtain ⟨-, positive, absent⟩ := checks
    obtain rfl := Option.some.inj inserted
    have fresh := find_eq_none_iff.mp (Option.isNone_iff_eq_none.mp absent)
    refine { sound with orders := ?_, ordersStorable := ?_ }
    · unfold Keyed
      rw [List.map_append, List.map_singleton]
      refine List.Nodup.append sound.orders (List.nodup_singleton _) ?_
      intro orderId own isNew
      obtain ⟨row, member, rfl⟩ := List.mem_map.mp own
      exact fresh row member (List.mem_singleton.mp isNew)
    · intro record member
      rcases List.mem_append.mp member with own | isNew
      · exact sound.ordersStorable record own
      · obtain rfl := List.mem_singleton.mp isNew
        refine ⟨?_, rfl⟩
        intro zero
        have isZero : order.amount.minorUnits = 0 := zero
        rw [isZero] at positive
        exact absurd positive (by decide)
  · cases inserted

end PaymentTables

omit [DecidableEq Ulid] in
theorem storable_of_parse {raw : RawImportedPremiumOrder Time}
    (parsed : parseImportedPremiumOrder codecs raw = some record) :
    record.Storable ∧ record.amount.Importable := by
  unfold parseImportedPremiumOrder at parsed
  obtain ⟨orderId, -, parsed⟩ := Option.bind_eq_some_iff.mp parsed
  dsimp only at parsed
  split at parsed
  · cases parsed
  · rename_i passes
    obtain rfl := Option.some.inj parsed
    push Not at passes
    obtain ⟨positive, notEmpty, noControl, precision⟩ := passes
    exact ⟨⟨positive, rfl⟩, Text.trim_trim _, notEmpty, Bool.eq_false_iff.mpr noControl,
      UInt8.not_lt.mp precision⟩

theorem mem_of_mapM_eq_some {α β : Type} {read : α → Option β} {inputs : List α} {results : List β}
    (done : inputs.mapM read = some results) :
    ∀ result ∈ results, ∃ input, read input = some result := by
  induction inputs generalizing results with
  | nil =>
    cases done
    exact List.forall_mem_nil _
  | cons input rest ih =>
    rw [List.mapM_cons] at done
    obtain ⟨first, isFirst, done⟩ := Option.bind_eq_some_iff.mp done
    obtain ⟨later, isLater, done⟩ := Option.bind_eq_some_iff.mp done
    obtain rfl := Option.some.inj done
    exact List.forall_mem_cons.mpr ⟨⟨input, isFirst⟩, ih isLater⟩

omit [DecidableEq Ulid] in
theorem storable_of_extract {fileName : String} {payload : Json}
    {extracted : ExtractedPendingPremiumTransfer Ulid Time}
    (isExtracted : extractPendingPremiumTransfer codecs fileName payload = some (some extracted)) :
    ∀ order ∈ extracted.orders, order.Storable ∧ order.amount.Importable := by
  unfold extractPendingPremiumTransfer at isExtracted
  split at isExtracted
  · cases isExtracted
  · rename_i transferValue _
    have isSection : extractSection codecs fileName transferValue = some extracted := by
      simpa using isExtracted
    unfold extractSection at isSection
    obtain ⟨raw, -, isSection⟩ := Option.bind_eq_some_iff.mp isSection
    obtain ⟨orders, isOrders, isSection⟩ := Option.bind_eq_some_iff.mp isSection
    obtain ⟨_, -, isSection⟩ := Option.bind_eq_some_iff.mp isSection
    obtain ⟨_, -, isSection⟩ := Option.bind_eq_some_iff.mp isSection
    obtain ⟨_, -, isSection⟩ := Option.bind_eq_some_iff.mp isSection
    obtain rfl := Option.some.inj isSection
    intro order member
    obtain ⟨raw, parsed⟩ := mem_of_mapM_eq_some isOrders order member
    exact storable_of_parse parsed

theorem PaymentTables.Sound.upsertImported (sound : tables.Sound)
    {orders : List (PaymentOrderHistoryRecord Ulid Time)} {after : PaymentTables Ulid Time}
    (importable : ∀ order ∈ orders, order.Storable ∧ order.amount.Importable)
    (upserted : tables.upsertImportedPaymentOrderHistory codecs orders = some after) :
    after.Sound := by
  unfold PaymentTables.upsertImportedPaymentOrderHistory at upserted
  split at upserted
  · rename_i fits
    obtain rfl := Option.some.inj upserted
    clear fits upserted
    induction orders generalizing tables with
    | nil => exact sound
    | cons order rest ih =>
      obtain ⟨⟨storable, isImportable⟩, others⟩ := List.forall_mem_cons.mp importable
      have kept : ∀ {holds : PaymentOrderHistoryRecord Ulid Time → Prop} {row},
          (∀ record ∈ tables.history, holds record) → holds row →
          ∀ record ∈ upsert PaymentOrderHistoryRecord.orderId (fun _ incoming => incoming) row
            tables.history, holds record := by
        intro holds row all isRow record member
        rcases mem_of_mem_upsert member with old | rfl | ⟨_, _, _, rfl⟩
        · exact all record old
        · exact isRow
        · exact isRow
      have next : ({ tables with
          history := upsert PaymentOrderHistoryRecord.orderId (fun _ incoming => incoming)
            { order with
              amount := order.amount.stored
              paidAt := order.paidAt.map codecs.storedTime } tables.history } :
            PaymentTables Ulid Time).Sound := by
        refine { sound with
          history := sound.history.upsert fun _ _ => rfl
          historyStorable := kept sound.historyStorable ⟨storable.positive, rfl⟩
          historyImportable := kept sound.historyImportable ?_ }
        exact ⟨isImportable.trimmed, isImportable.notEmpty, isImportable.noControl,
          isImportable.precision⟩
      exact ih next others
  · cases upserted

/-- Writes and imports keep the constraints of the tables. -/
theorem PaymentTables.Sound.run (sound : tables.Sound) (step : PaymentStep Ulid Time) :
    (step.run codecs tables).Sound := by
  cases step with
  | createSubject =>
    refine sound.setSubject ?_
    rintro _ ⟨⟩ token isToken
    cases isSubject : tables.subject with
    | none =>
      rw [isSubject] at isToken
      cases isToken
    | some subject =>
      rw [isSubject] at isToken
      exact sound.hasDot subject isSubject token isToken
  | updateManagementSecret managementSecret =>
    refine sound.setSubject ?_
    intro next isNext token isToken
    obtain ⟨subject, isSubject, rfl⟩ := Option.map_eq_some_iff.mp isNext
    exact sound.hasDot subject isSubject token isToken
  | insertOrder order =>
    change ((tables.insertPaymentOrder order).getD tables).Sound
    cases inserted : tables.insertPaymentOrder order with
    | none => exact sound
    | some after => exact sound.insertPaymentOrder inserted
  | cancelOrder orderId => exact sound.mapOrders
  | markOrderStatus orderId status paidAt => exact sound.mapOrders
  | reconcileOrder orderId status paidAt => exact sound.mapOrders
  | reconcileImportedOrder orderId status paidAt => exact sound.reconcileImported
  | storeToken orderId verified paidAt =>
    have stored : ({ tables with
        subject := tables.subject.map ({ · with activeToken := some {
          tokenId := verified.tokenId
          subscriptionSubjectId := verified.subscriptionSubjectId
          activeToken := verified.compactToken
          subscriptionValidUntil := codecs.storedTime verified.subscriptionValidUntil
          tokenExpiresAt := codecs.storedTime verified.tokenExpiresAt
          tokenIssuedAt := codecs.storedTime verified.issuedAt } }) } :
        PaymentTables Ulid Time).Sound := by
      refine sound.setSubject ?_
      intro next isNext token isToken
      obtain ⟨subject, isSubject, rfl⟩ := Option.map_eq_some_iff.mp isNext
      obtain rfl := Option.some.inj isToken
      exact verified.hasDot
    cases orderId with
    | none => exact stored
    | some orderId => exact stored.mapOrders
  | clearToken =>
    refine sound.setSubject ?_
    intro next isNext token isToken
    obtain ⟨subject, isSubject, rfl⟩ := Option.map_eq_some_iff.mp isNext
    cases isToken
  | importPayload fileName payload =>
    simp only [PaymentStep.run]
    split
    · rename_i extracted isExtracted
      split
      · exact sound
      · rename_i after upserted
        have imported := sound.upsertImported (storable_of_extract isExtracted) upserted
        exact { imported with }
    · exact sound

theorem find_upsertImported {orders : List (PaymentOrderHistoryRecord Ulid Time)}
    {after : PaymentTables Ulid Time}
    (upserted : tables.upsertImportedPaymentOrderHistory codecs orders = some after)
    (orderId : Ulid) :
    find PaymentOrderHistoryRecord.orderId after.history orderId =
      (orders.reverse.find? fun order => order.orderId = orderId).elim
        (find PaymentOrderHistoryRecord.orderId tables.history orderId) fun order =>
          some { order with
            amount := order.amount.stored
            paidAt := order.paidAt.map codecs.storedTime } := by
  unfold PaymentTables.upsertImportedPaymentOrderHistory at upserted
  split at upserted
  · obtain rfl := Option.some.inj upserted
    rw [← foldl_ite_eq_last]
    refine find_foldl (fun orderId current order => if order.orderId = orderId then
      some { order with
        amount := order.amount.stored
        paidAt := order.paidAt.map codecs.storedTime } else current) ?_ orders
          tables.history orderId
    intro table order orderId
    by_cases same : order.orderId = orderId
    · subst same
      rw [if_pos rfl]
      refine (find_upsert_self fun _ _ => rfl).trans ?_
      cases find PaymentOrderHistoryRecord.orderId table order.orderId <;> rfl
    · rw [if_neg same]
      exact find_upsert_of_ne (fun _ _ => rfl) same
  · cases upserted

theorem PaymentTables.Follows.of_history {after : PaymentTables Ulid Time}
    (follows : tables.Follows last) (same : after.history = tables.history) :
    after.Follows last := by
  unfold PaymentTables.Follows
  rw [same]
  exact follows

/-- The imported rows follow the sections that a step imports. -/
theorem PaymentTables.Follows.run (follows : tables.Follows last) (step : PaymentStep Ulid Time) :
    (step.run codecs tables).Follows fun orderId =>
      ((step.importedOrders codecs).reverse.find? fun order => order.orderId = orderId).or
        (last orderId) := by
  cases step with
  | createSubject => exact follows
  | updateManagementSecret managementSecret => exact follows
  | insertOrder order =>
    refine follows.of_history ?_
    change ((tables.insertPaymentOrder order).getD tables).history = _
    unfold PaymentTables.insertPaymentOrder
    split <;> rfl
  | cancelOrder orderId => exact follows
  | markOrderStatus orderId status paidAt => exact follows
  | reconcileOrder orderId status paidAt => exact follows
  | reconcileImportedOrder orderId status paidAt =>
    intro other record isLast
    obtain ⟨row, isRow, paid⟩ := follows other record isLast
    refine ⟨setStatus orderId openStatus status (fun _ => paidAt.map codecs.storedTime) row,
      (find_map fun _ => orderId_setStatus).trans (by rw [isRow]; rfl), ?_⟩
    intro isPaid
    rw [setStatus_of_not_selected]
    · exact paid isPaid
    · rw [paid isPaid]
      rfl
  | storeToken orderId verified paidAt =>
    cases orderId with
    | none => exact follows
    | some orderId => exact follows
  | clearToken => exact follows
  | importPayload fileName payload =>
    simp only [PaymentStep.run, PaymentStep.importedOrders]
    cases isExtracted : extractPendingPremiumTransfer codecs fileName payload with
    | none => exact follows
    | some found =>
      cases found with
      | none => exact follows
      | some extracted =>
        dsimp only
        cases upserted : tables.upsertImportedPaymentOrderHistory codecs extracted.orders with
        | none =>
          unfold PaymentTables.upsertImportedPaymentOrderHistory at upserted
          split at upserted
          · cases upserted
          · rename_i tooLarge
            rw [if_neg tooLarge]
            exact follows
        | some after =>
          have fits : (extracted.orders.all fun order =>
              order.amount.minorUnits.toNat ≤ maxStoredMinorUnits) = true := by
            unfold PaymentTables.upsertImportedPaymentOrderHistory at upserted
            split at upserted
            · assumption
            · cases upserted
          rw [if_pos fits]
          intro orderId record isLast
          have isFound := find_upsertImported upserted orderId
          dsimp only at isLast
          cases inSection : extracted.orders.reverse.find? fun order =>
              order.orderId = orderId with
          | none =>
            rw [inSection] at isLast isFound
            obtain ⟨row, isRow, paid⟩ := follows orderId record isLast
            exact ⟨row, isFound.trans isRow, paid⟩
          | some order =>
            rw [inSection] at isLast isFound
            obtain rfl := Option.some.inj isLast
            exact ⟨_, isFound, id⟩

theorem sound_runSteps (steps : List (PaymentStep Ulid Time)) : (runSteps codecs steps).Sound := by
  induction steps using List.reverseRecOn with
  | nil =>
    exact ⟨List.nodup_nil, List.nodup_nil, List.forall_mem_nil _, List.forall_mem_nil _,
      List.forall_mem_nil _, nofun⟩
  | append_singleton earlier step ih =>
    unfold runSteps
    rw [List.foldl_append]
    exact ih.run step

theorem follows_runSteps (steps : List (PaymentStep Ulid Time)) :
    (runSteps codecs steps).Follows (lastImported codecs steps) := by
  induction steps using List.reverseRecOn with
  | nil => exact fun _ => nofun
  | append_singleton earlier step ih =>
    have isLast : lastImported codecs (earlier ++ [step]) = fun orderId =>
        ((step.importedOrders codecs).reverse.find? fun order => order.orderId = orderId).or
          (lastImported codecs earlier orderId) := by
      funext orderId
      unfold lastImported
      rw [List.flatMap_append, List.flatMap_singleton, List.reverse_append, List.find?_append]
    rw [isLast]
    unfold runSteps
    rw [List.foldl_append]
    exact ih.run step

/-- What comes back of an exported section, and what the history lists, after any steps. -/
theorem premiumSection_of_run (codecs : PaymentCodecs Ulid Time)
    (steps : List (PaymentStep Ulid Time)) :
    (∀ subject managementSecret exportedAt fileName others,
      (runSteps codecs steps).subject = some subject →
      subject.managementSecret = some managementSecret →
      ((runSteps codecs steps).RoundTrips codecs subject managementSecret exportedAt fileName
          others ↔
        ∀ order ∈ (runSteps codecs steps).orders, order.amount.Importable)) ∧
    (((runSteps codecs steps).loadAllPaymentOrderHistory codecs).map (·.orderId)).Nodup ∧
    (∀ order ∈ (runSteps codecs steps).orders,
      order ∈ (runSteps codecs steps).loadAllPaymentOrderHistory codecs) ∧
    ∀ orderId, ∀ record ∈ lastImported codecs steps orderId,
      (∀ own ∈ (runSteps codecs steps).orders, own.orderId ≠ orderId) →
      ∃ shown ∈ (runSteps codecs steps).loadAllPaymentOrderHistory codecs,
        shown.orderId = orderId ∧ (record.status = .paid → shown.status = .paid) := by
  have sound : (runSteps codecs steps).Sound := sound_runSteps steps
  refine ⟨?_, PaymentTables.nodup_loadAllPaymentOrderHistory sound.orders sound.history, ?_, ?_⟩
  · intro subject managementSecret exportedAt fileName others isSubject isSecret
    have isBuilt : buildPremiumTransferExport codecs (runSteps codecs steps) exportedAt = .ok
        (exportedTransfer codecs (runSteps codecs steps) exportedAt managementSecret
          subject.activeToken) := by
      unfold buildPremiumTransferExport
      rw [isSubject]
      dsimp only
      rw [isSecret]
      rfl
    have storable : ∀ record ∈ (runSteps codecs steps).loadAllPaymentOrderHistory codecs,
        record.Storable := by
      intro record member
      rcases PaymentTables.mem_loadAllPaymentOrderHistory.mp member with own | ⟨imported, -⟩
      · exact sound.ordersStorable record own
      · exact sound.historyStorable record imported
    unfold PaymentTables.RoundTrips
    rw [isBuilt]
    simp only [Except.ok.injEq, exists_eq_left']
    rw [extract_exportedTransfer codecs (sound.hasDot subject isSubject) storable]
    constructor
    · intro importable order member
      exact importable order (PaymentTables.mem_loadAllPaymentOrderHistory.mpr (.inl member))
    · intro importable record member
      rcases PaymentTables.mem_loadAllPaymentOrderHistory.mp member with own | ⟨imported, -⟩
      · exact importable record own
      · exact sound.historyImportable record imported
  · intro order member
    exact PaymentTables.mem_loadAllPaymentOrderHistory.mpr (.inl member)
  · intro orderId record isLast notOwn
    obtain ⟨row, isRow, paid⟩ := follows_runSteps steps orderId record isLast
    obtain ⟨member, rfl⟩ := (find_eq_some_iff sound.history).mp isRow
    exact ⟨row, PaymentTables.mem_loadAllPaymentOrderHistory.mpr (.inr ⟨member, notOwn⟩), rfl, paid⟩

end Invariants

/-! ## Runs on fixed inputs -/

/-- Ids and instants that are written as they are. -/
def plainCodecs : PaymentCodecs String String where
  ulidText := id
  parseUlid := some
  parseUlid_ulidText := fun _ => rfl
  timeText := id
  parseTime := some
  parseTime_timeText := fun _ => rfl
  storedTime := id

def someSecret : PaymentSecret where
  value := "AAAAAAAAAAAAAAAAAAAAAAAAAAAAAAAAAAAAAAAAAAA"
  valid := by decide

/-- The checkout of an order of 9.99 US dollars, or of as many units with another precision. -/
def checkout (precision : UInt8) : List (PaymentStep String String) :=
  [ .createSubject,
    .updateManagementSecret someSecret,
    .insertOrder {
      orderId := "01JQABCDEF000000000000000E"
      productTier := .premium
      amount := {
        minorUnits := 999
        currency := "USD"
        currencySymbol := none
        decimalPrecision := precision } } ]

def paidCheckout : List (PaymentStep String String) :=
  checkout 2 ++
    [.markOrderStatus "01JQABCDEF000000000000000E" .paid (some "2026-04-16T12:00:00Z")]

/-- The payload that a user exports after some steps. -/
def exportAfter (steps : List (PaymentStep String String)) : Json :=
  walletDataPayload plainCodecs
    (exportedTransfer plainCodecs (runSteps plainCodecs steps) "2026-04-17T12:00:00Z" someSecret
      none) []

def statusesAfter (steps : List (PaymentStep String String)) : List PaymentOrderStatus :=
  ((runSteps plainCodecs steps).loadAllPaymentOrderHistory plainCodecs).map (·.status)

/-- The reader refuses an order with more than eighteen decimals, an order of this installation
stands before the imported one, and an older section takes a payment back. -/
theorem not_premiumSection_as_exported :
    ¬ (runSteps plainCodecs (checkout 19)).RoundTrips plainCodecs
        { managementSecret := some someSecret } someSecret "2026-04-17T12:00:00Z" "export.json" [] ∧
    statusesAfter (checkout 2 ++ [.importPayload "export.json" (exportAfter paidCheckout)]) =
      [.pending] ∧
    statusesAfter [.importPayload "new.json" (exportAfter paidCheckout),
      .importPayload "old.json" (exportAfter (checkout 2))] = [.pending] := by
  refine ⟨?_, by decide +kernel, by decide +kernel⟩
  rintro ⟨transfer, isBuilt, isRead⟩
  have isExported : transfer = exportedTransfer plainCodecs (runSteps plainCodecs (checkout 19))
      "2026-04-17T12:00:00Z" someSecret none := (Except.ok.inj isBuilt).symm
  rw [isExported] at isRead
  have refused : (extractPendingPremiumTransfer plainCodecs "export.json"
      (exportAfter (checkout 19))).isNone = true := by decide +kernel
  unfold exportAfter at refused
  rw [isRead] at refused
  cases refused

end Bitgarth.Payments
