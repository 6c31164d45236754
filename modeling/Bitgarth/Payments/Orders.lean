import Mathlib.Data.Int.Basic
import Mathlib.Logic.Function.Basic
import Bitgarth.Foundation.Reachability

/-! # Payment orders

The stored orders of a user, the orders at Central, and the calls that read an order, ask Central
and apply the answer, interleaved between any two of their steps. A call that fails or whose
process stops is dropped where it stands.
-/

namespace Bitgarth.Payments

open Reachability

inductive PaymentOrderStatus where
  | pending
  | paid
  | expired
  | failed
  | canceled
deriving DecidableEq, Repr

/-- `CentralOrderStatus` with the time of the payment. -/
inductive CentralOrderStatus where
  | pending
  | paid (paidAt : ℤ)
  | expired
  | failed
deriving DecidableEq, Repr

structure PaymentOrder where
  status : PaymentOrderStatus
  paidAt : Option ℤ
deriving DecidableEq, Repr

/-- What a terminal status of Central is stored as. -/
def CentralOrderStatus.reconciled : CentralOrderStatus → Option PaymentOrder
  | .pending => none
  | .paid paidAt => some ⟨.paid, some paidAt⟩
  | .expired => some ⟨.expired, none⟩
  | .failed => some ⟨.failed, none⟩

section Model

variable (OrderId : Type)

/-- A call with what it has read and been answered: `refresh_order_state_from_central` of a poll, a
top-up or a payment state, `cancel_premium_order`, and `reconcile_payment_history` with the orders
that it has still to reconcile. -/
inductive OrderCall where
  | refresh (orderId : OrderId) (read : PaymentOrderStatus) (answer : Option CentralOrderStatus)
  | cancel (orderId : OrderId)
  | history
  | reconcile (orders : List (OrderId × CentralOrderStatus))
deriving DecidableEq

/-- `granted` are the orders whose token was stored. -/
structure OrderSystem where
  central : OrderId → Option CentralOrderStatus := fun _ => none
  stored : OrderId → Option PaymentOrder := fun _ => none
  calls : List (OrderCall OrderId) := []
  granted : List OrderId := []

/-- Steps of Central, of the user's database, and of the calls. -/
inductive OrderStep where
  | createSession (orderId : OrderId)
  | resolve (orderId : OrderId) (status : CentralOrderStatus)
  | insert (orderId : OrderId)
  | read (orderId : OrderId) (building : Bool)
  | answer (orderId : OrderId) (read : PaymentOrderStatus)
  | apply (orderId : OrderId) (read : PaymentOrderStatus) (answer : CentralOrderStatus)
      (verifies : Bool)
  | readCancel (orderId : OrderId)
  | applyCancel (orderId : OrderId)
  | readHistory
  | answerHistory (orderIds : List OrderId)
  | reconcileNext (orders : List (OrderId × CentralOrderStatus)) (known : Bool)
  | drop (call : OrderCall OrderId)

end Model

section Steps

variable {OrderId : Type} [DecidableEq OrderId]

/-- An update of the row of an order, where a condition selects it. -/
def updateOrder (stored : OrderId → Option PaymentOrder) (orderId : OrderId)
    (selects : PaymentOrderStatus → Bool) (order : PaymentOrder → PaymentOrder) :
    OrderId → Option PaymentOrder :=
  Function.update stored orderId <| (stored orderId).map fun row =>
    if selects row.status then order row else row

def cancelPaymentOrder (stored : OrderId → Option PaymentOrder) (orderId : OrderId) :
    OrderId → Option PaymentOrder :=
  updateOrder stored orderId (· = .pending) fun row => { row with status := .canceled }

def markPaymentOrderStatus (stored : OrderId → Option PaymentOrder) (orderId : OrderId)
    (status : PaymentOrderStatus) (paidAt : Option ℤ) : OrderId → Option PaymentOrder :=
  updateOrder stored orderId (fun _ => true) fun _ => ⟨status, paidAt⟩

def reconcilePaymentOrderStatus (stored : OrderId → Option PaymentOrder) (orderId : OrderId)
    (order : PaymentOrder) : OrderId → Option PaymentOrder :=
  updateOrder stored orderId (fun status => status = .pending || status = .canceled) fun _ => order

/-- One order of a history, if the user knows it. -/
def reconcileHistoryOrder (stored : OrderId → Option PaymentOrder) (known : Bool)
    (orderId : OrderId) (status : CentralOrderStatus) : OrderId → Option PaymentOrder :=
  match known, status.reconciled with
  | true, some order => reconcilePaymentOrderStatus stored orderId order
  | _, _ => stored

/-- What `apply_central_order_outcome` does to the orders. Storing the token of a paid order marks
the order paid in the same transaction. -/
def applyCentralOrderOutcome (stored : OrderId → Option PaymentOrder) (orderId : OrderId)
    (read : PaymentOrderStatus) (outcome : CentralOrderStatus) : OrderId → Option PaymentOrder :=
  match outcome with
  | .pending =>
    if read ≠ .pending then markPaymentOrderStatus stored orderId .pending none else stored
  | .expired => markPaymentOrderStatus stored orderId .expired none
  | .failed => markPaymentOrderStatus stored orderId .failed none
  | .paid paidAt => markPaymentOrderStatus stored orderId .paid (some paidAt)

namespace OrderSystem

def run (system : OrderSystem OrderId) : OrderStep OrderId → Option (OrderSystem OrderId)
  | .createSession orderId =>
    if (system.central orderId).isSome then none
    else some { system with
      central := Function.update system.central orderId (some .pending) }
  | .resolve orderId status =>
    if system.central orderId = some .pending ∧ status ≠ .pending then
      some { system with central := Function.update system.central orderId (some status) }
    else none
  | .insert orderId =>
    if (system.central orderId).isSome ∧ system.stored orderId = none then
      some { system with
        stored := Function.update system.stored orderId (some ⟨.pending, none⟩) }
    else none
  | .read orderId building =>
    match system.stored orderId with
    | none => none
    | some order =>
      -- A payment state refreshes its latest order unless it is paid or canceled.
      if building ∧ (order.status = .paid ∨ order.status = .canceled) then none
      else some { system with calls := .refresh orderId order.status none :: system.calls }
  | .answer orderId read =>
    if .refresh orderId read none ∈ system.calls then
      (system.central orderId).map fun status => { system with
        calls := .refresh orderId read (some status) ::
          system.calls.erase (.refresh orderId read none) }
    else none
  | .apply orderId read outcome verifies =>
    if .refresh orderId read (some outcome) ∈ system.calls then
      let calls := system.calls.erase (.refresh orderId read (some outcome))
      match outcome with
      | .paid _ =>
        if verifies then
          some { system with
            calls
            stored := applyCentralOrderOutcome system.stored orderId read outcome
            granted := orderId :: system.granted }
        else some { system with calls }
      | _ => some { system with
          calls, stored := applyCentralOrderOutcome system.stored orderId read outcome }
    else none
  | .readCancel orderId =>
    if (system.stored orderId).map PaymentOrder.status = some .pending then
      some { system with calls := .cancel orderId :: system.calls }
    else none
  | .applyCancel orderId =>
    if .cancel orderId ∈ system.calls then
      some { system with
        calls := system.calls.erase (.cancel orderId)
        stored := cancelPaymentOrder system.stored orderId }
    else none
  | .readHistory => some { system with calls := .history :: system.calls }
  | .answerHistory orderIds =>
    if .history ∈ system.calls then
      let orders := orderIds.filterMap fun orderId =>
        (system.central orderId).map fun status => (orderId, status)
      some { system with calls := .reconcile orders :: system.calls.erase .history }
    else none
  | .reconcileNext orders known =>
    if .reconcile orders ∈ system.calls then
      match orders with
      | [] => some { system with calls := system.calls.erase (.reconcile []) }
      | (orderId, status) :: rest => some { system with
          calls := .reconcile rest :: system.calls.erase (.reconcile orders)
          stored := reconcileHistoryOrder system.stored known orderId status }
    else none
  | .drop call => some { system with calls := system.calls.erase call }

end OrderSystem

end Steps

/-! ## Invariants -/

section Invariants

variable {OrderId : Type}

/-- What is stored as paid, expired or failed is so at Central. -/
def PaymentOrder.Agrees (order : PaymentOrder) (status : CentralOrderStatus) : Prop :=
  order.status = .pending ∨ order.status = .canceled ∨ status.reconciled = some order

/-- An answer that Central gave before. -/
def CentralOrderStatus.Earlier (answer status : CentralOrderStatus) : Prop :=
  answer = .pending ∨ answer = status

/-- What a call has read and been answered is what Central says, or said while it was pending. -/
def OrderCall.Truthful (system : OrderSystem OrderId) : OrderCall OrderId → Prop
  | .refresh orderId read answer => (system.stored orderId).isSome ∧
      ∃ status, system.central orderId = some status ∧
        (read = .pending ∨ read = .canceled ∨ status ≠ .pending) ∧
        ∀ given ∈ answer, given.Earlier status ∧
          (given = .pending → read = .pending ∨ read = .canceled)
  | .cancel _ => True
  | .history => True
  | .reconcile orders => ∀ pair ∈ orders, ∃ status, system.central pair.1 = some status ∧
      pair.2.Earlier status

structure OrderSystem.Sound (system : OrderSystem OrderId) : Prop where
  stored : ∀ orderId, ∀ order ∈ system.stored orderId,
    ∃ status, system.central orderId = some status ∧ order.Agrees status
  calls : ∀ call ∈ system.calls, call.Truthful system
  granted : ∀ orderId ∈ system.granted,
    ∃ paidAt, system.stored orderId = some ⟨.paid, some paidAt⟩

/-- No answer that an order is pending is applied by a call that had read it as canceled. -/
def NoPendingForCanceled (step : OrderStep OrderId) (_ : OrderSystem OrderId) : Prop :=
  ∀ orderId verifies, step ≠ .apply orderId .canceled .pending verifies

/-- What an order may become: a paid, expired or failed one stays as it is, a canceled one takes
the terminal status of Central, if any, and that status is final. -/
structure OrderSystem.Keeps (before after : OrderSystem OrderId) : Prop where
  central : ∀ orderId status, before.central orderId = some status → status ≠ .pending →
    after.central orderId = some status
  settled : ∀ orderId order, before.stored orderId = some order → order.status ≠ .pending →
    order.status ≠ .canceled → after.stored orderId = some order
  canceled : ∀ orderId order, before.stored orderId = some order → order.status = .canceled →
    after.stored orderId = some order ∨ ∃ status, status ≠ .pending ∧
      after.central orderId = some status ∧ after.stored orderId = status.reconciled

variable {system after last : OrderSystem OrderId} {orderId : OrderId} {order : PaymentOrder}
  {status answer : CentralOrderStatus} {call : OrderCall OrderId}
  {read : PaymentOrderStatus}

/-! ## Statuses -/

theorem CentralOrderStatus.reconciled_eq_none_iff : status.reconciled = none ↔
    status = .pending := by
  cases status with
  | pending => exact iff_of_true rfl rfl
  | _ => exact iff_of_false (fun isNone => nomatch isNone) (fun isPending => nomatch isPending)

theorem CentralOrderStatus.settled_of_reconciled (isOrder : status.reconciled = some order) :
    order.status ≠ .pending ∧ order.status ≠ .canceled := by
  cases status with
  | pending => cases isOrder
  | _ =>
    cases isOrder
    exact ⟨PaymentOrderStatus.noConfusion, PaymentOrderStatus.noConfusion⟩

theorem CentralOrderStatus.Earlier.eq (earlier : answer.Earlier status)
    (terminal : answer ≠ .pending) : answer = status :=
  earlier.resolve_left terminal

theorem OrderSystem.Keeps.refl : system.Keeps system :=
  ⟨fun _ _ isStatus _ => isStatus, fun _ _ isOrder _ _ => isOrder,
    fun _ _ isOrder _ => .inl isOrder⟩

theorem OrderSystem.Keeps.trans (first : system.Keeps after) (second : after.Keeps last) :
    system.Keeps last := by
  refine ⟨?_, ?_, ?_⟩
  · intro orderId status isStatus terminal
    exact second.central orderId status (first.central orderId status isStatus terminal) terminal
  · intro orderId order isOrder notPending notCanceled
    have stays := first.settled orderId order isOrder notPending notCanceled
    exact second.settled orderId order stays notPending notCanceled
  · intro orderId order isOrder isCanceled
    rcases first.canceled orderId order isOrder isCanceled with same | reported
    · exact second.canceled orderId order same isCanceled
    · obtain ⟨status, terminal, isStatus, isStored⟩ := reported
      refine .inr ⟨status, terminal, second.central orderId status isStatus terminal, ?_⟩
      cases isReconciled : status.reconciled with
      | none => exact absurd (CentralOrderStatus.reconciled_eq_none_iff.mp isReconciled) terminal
      | some settled =>
        rw [isReconciled] at isStored
        obtain ⟨notPending, notCanceled⟩ := CentralOrderStatus.settled_of_reconciled isReconciled
        exact second.settled orderId settled isStored notPending notCanceled

/-! ## Central -/

/-- Central may change where it was pending or had no order, and no row is deleted. -/
structure OrderSystem.Advances (before after : OrderSystem OrderId) : Prop where
  central : ∀ orderId status, before.central orderId = some status →
    ∃ next, after.central orderId = some next ∧ (status = .pending ∨ next = status)
  stored : ∀ orderId, (before.stored orderId).isSome → (after.stored orderId).isSome

theorem OrderSystem.Advances.earlier (advances : system.Advances after)
    (isStatus : system.central orderId = some status) :
    ∃ later, after.central orderId = some later ∧ (status = .pending ∨ later = status) ∧
      ∀ given : CentralOrderStatus, given.Earlier status → given.Earlier later := by
  obtain ⟨later, isLater, stays⟩ := advances.central orderId status isStatus
  refine ⟨later, isLater, stays, ?_⟩
  intro given earlier
  rcases earlier with isPending | same
  · exact .inl isPending
  · rcases stays with wasPending | stays
    · exact .inl (same.trans wasPending)
    · exact .inr (same.trans stays.symm)

/-- What a call was told stays true while Central settles orders. -/
theorem OrderCall.Truthful.advance (advances : system.Advances after)
    (truthful : call.Truthful system) : call.Truthful after := by
  cases call with
  | refresh orderId read answer =>
    obtain ⟨isStored, status, isStatus, wasRead, given⟩ := truthful
    obtain ⟨later, isLater, stays, earlier⟩ := advances.earlier isStatus
    refine ⟨advances.stored orderId isStored, later, isLater, ?_, ?_⟩
    · rcases wasRead with isPending | isCanceled | terminal
      · exact .inl isPending
      · exact .inr (.inl isCanceled)
      · exact .inr (.inr ((stays.resolve_left terminal) ▸ terminal))
    · intro found isGiven
      exact ⟨earlier found (given found isGiven).1, (given found isGiven).2⟩
  | cancel orderId => trivial
  | history => trivial
  | reconcile orders =>
    intro pair member
    obtain ⟨status, isStatus, isEarlier⟩ := truthful pair member
    obtain ⟨later, isLater, -, earlier⟩ := advances.earlier isStatus
    exact ⟨later, isLater, earlier pair.2 isEarlier⟩

theorem OrderSystem.Sound.advance (sound : system.Sound)
    {central : OrderId → Option CentralOrderStatus}
    (advances : ∀ orderId status, system.central orderId = some status →
      ∃ next, central orderId = some next ∧ (status = .pending ∨ next = status)) :
    ({ system with central } : OrderSystem OrderId).Sound ∧
      system.Keeps { system with central } := by
  refine ⟨⟨?_, ?_, sound.granted⟩, ⟨?_, fun _ _ isOrder _ _ => isOrder,
    fun _ _ isOrder _ => .inl isOrder⟩⟩
  · intro orderId order isOrder
    obtain ⟨status, isStatus, agrees⟩ := sound.stored orderId order isOrder
    obtain ⟨later, isLater, stays⟩ := advances orderId status isStatus
    refine ⟨later, isLater, ?_⟩
    rcases agrees with isPending | isCanceled | isReconciled
    · exact .inl isPending
    · exact .inr (.inl isCanceled)
    · rcases stays with wasPending | same
      · rw [wasPending] at isReconciled
        cases isReconciled
      · exact .inr (.inr (same ▸ isReconciled))
  · exact fun call member =>
      (sound.calls call member).advance ⟨advances, fun _ isStored => isStored⟩
  · intro orderId status isStatus terminal
    obtain ⟨later, isLater, stays⟩ := advances orderId status isStatus
    rw [← stays.resolve_left terminal]
    exact isLater

/-! ## Writes -/

/-- A row as a write may leave it: as it is, with the terminal status of Central in place of a
pending or canceled one, or canceled from pending. -/
def PaymentOrder.MayBecome (order next : PaymentOrder) (status : CentralOrderStatus) : Prop :=
  next = order ∨
    (order.status = .pending ∨ order.status = .canceled) ∧ status.reconciled = some next ∨
    order.status = .pending ∧ next.status = .canceled

variable [DecidableEq OrderId] {selects : PaymentOrderStatus → Bool}
  {update : PaymentOrder → PaymentOrder}

/-- A write that follows Central keeps the invariant and the orders. -/
theorem OrderSystem.Sound.write (sound : system.Sound)
    (writes : ∀ order status, system.stored orderId = some order →
      system.central orderId = some status → order.Agrees status →
      order.MayBecome (if selects order.status then update order else order) status) :
    ({ system with stored := updateOrder system.stored orderId selects update } :
      OrderSystem OrderId).Sound ∧
      system.Keeps { system with stored := updateOrder system.stored orderId selects update } := by
  have written {other : OrderId} {order : PaymentOrder}
      (isOrder : system.stored other = some order) :
      ∃ next status, updateOrder system.stored orderId selects update other = some next ∧
        system.central other = some status ∧ order.Agrees status ∧
        order.MayBecome next status := by
    obtain ⟨status, isStatus, agrees⟩ := sound.stored other order isOrder
    by_cases same : other = orderId
    · subst same
      refine ⟨_, status, ?_, isStatus, agrees, writes order status isOrder isStatus agrees⟩
      rw [updateOrder, Function.update_self, isOrder]
      rfl
    · refine ⟨order, status, ?_, isStatus, agrees, .inl rfl⟩
      rw [updateOrder, Function.update_of_ne same]
      exact isOrder
  refine ⟨⟨?_, ?_, ?_⟩, ⟨fun _ _ isStatus _ => isStatus, ?_, ?_⟩⟩
  · intro other next isNext
    cases isOrder : system.stored other with
    | none =>
      have absent : updateOrder system.stored orderId selects update other = none := by
        by_cases same : other = orderId
        · subst same
          rw [updateOrder, Function.update_self, isOrder]
          rfl
        · rw [updateOrder, Function.update_of_ne same]
          exact isOrder
      dsimp only at isNext
      rw [absent] at isNext
      cases isNext
    | some order =>
      obtain ⟨found, status, isFound, isStatus, agrees, becomes⟩ := written isOrder
      obtain rfl := Option.some.inj (isFound.symm.trans isNext)
      refine ⟨status, isStatus, ?_⟩
      rcases becomes with same | ⟨-, isReconciled⟩ | ⟨-, isCanceled⟩
      · exact same ▸ agrees
      · exact .inr (.inr isReconciled)
      · exact .inr (.inl isCanceled)
  · intro call member
    refine OrderCall.Truthful.advance ⟨?_, ?_⟩ (sound.calls call member)
    · exact fun _ status isStatus => ⟨status, isStatus, .inr rfl⟩
    intro other isStored
    obtain ⟨order, isOrder⟩ := Option.isSome_iff_exists.mp isStored
    obtain ⟨next, -, isNext, -⟩ := written isOrder
    exact Option.isSome_iff_exists.mpr ⟨next, isNext⟩
  · intro other isGranted
    obtain ⟨paidAt, isOrder⟩ := sound.granted other isGranted
    obtain ⟨next, status, isNext, -, -, becomes⟩ := written isOrder
    refine ⟨paidAt, ?_⟩
    dsimp only
    rw [isNext]
    rcases becomes with same | ⟨wasOpen, -⟩ | ⟨wasPending, -⟩
    · rw [same]
    · rcases wasOpen with isPending | isCanceled
      · cases isPending
      · cases isCanceled
    · cases wasPending
  · intro other order isOrder notPending notCanceled
    obtain ⟨next, status, isNext, -, -, becomes⟩ := written isOrder
    dsimp only
    rw [isNext]
    rcases becomes with same | ⟨wasOpen, -⟩ | ⟨wasPending, -⟩
    · rw [same]
    · rcases wasOpen with isPending | isCanceled
      · exact absurd isPending notPending
      · exact absurd isCanceled notCanceled
    · exact absurd wasPending notPending
  · intro other order isOrder isCanceled
    obtain ⟨next, status, isNext, isStatus, -, becomes⟩ := written isOrder
    dsimp only
    rw [isNext]
    rcases becomes with same | ⟨-, isReconciled⟩ | ⟨wasPending, -⟩
    · exact .inl (congrArg some same)
    · refine .inr ⟨status, ?_, isStatus, isReconciled.symm⟩
      intro isPending
      rw [isPending] at isReconciled
      cases isReconciled
    · rw [wasPending] at isCanceled
      cases isCanceled

theorem mayBecome_of_reconciled {next : PaymentOrder} (agrees : order.Agrees status)
    (isReconciled : status.reconciled = some next) : order.MayBecome next status := by
  rcases agrees with isPending | isCanceled | same
  · exact .inr (.inl ⟨.inl isPending, isReconciled⟩)
  · exact .inr (.inl ⟨.inr isCanceled, isReconciled⟩)
  · exact .inl (Option.some.inj (isReconciled.symm.trans same))

/-! ## Calls -/

omit [DecidableEq OrderId] in
theorem OrderSystem.Sound.setCalls (sound : system.Sound) {calls : List (OrderCall OrderId)}
    (truthful : ∀ call ∈ calls, call ∈ system.calls ∨ call.Truthful system) :
    ({ system with calls } : OrderSystem OrderId).Sound ∧ system.Keeps { system with calls } := by
  refine ⟨⟨sound.stored, ?_, sound.granted⟩, ⟨fun _ _ isStatus _ => isStatus,
    fun _ _ isOrder _ _ => isOrder, fun _ _ isOrder _ => .inl isOrder⟩⟩
  intro call member
  rcases truthful call member with isOld | isTruthful
  · exact sound.calls call isOld
  · exact isTruthful

omit [DecidableEq OrderId] in
theorem OrderSystem.Sound.addCall (sound : system.Sound) (truthful : call.Truthful system) :
    ({ system with calls := call :: system.calls } : OrderSystem OrderId).Sound ∧
      system.Keeps { system with calls := call :: system.calls } := by
  apply sound.setCalls
  intro other member
  rcases List.mem_cons.mp member with rfl | later
  · exact .inr truthful
  · exact .inl later

theorem OrderSystem.Sound.replaceCall (sound : system.Sound) {next : OrderCall OrderId}
    (truthful : next.Truthful system) :
    ({ system with calls := next :: system.calls.erase call } : OrderSystem OrderId).Sound ∧
      system.Keeps { system with calls := next :: system.calls.erase call } := by
  apply sound.setCalls
  intro other member
  rcases List.mem_cons.mp member with rfl | later
  · exact .inr truthful
  · exact .inl (List.mem_of_mem_erase later)

theorem OrderSystem.Sound.endCall (sound : system.Sound) :
    ({ system with calls := system.calls.erase call } : OrderSystem OrderId).Sound ∧
      system.Keeps { system with calls := system.calls.erase call } :=
  sound.setCalls fun _ member => .inl (List.mem_of_mem_erase member)

theorem OrderSystem.Sound.applyOutcome (sound : system.Sound)
    (member : .refresh orderId read (some answer) ∈ system.calls)
    (timely : ¬ (read = .canceled ∧ answer = .pending)) :
    ({ system with stored := applyCentralOrderOutcome system.stored orderId read answer } :
      OrderSystem OrderId).Sound ∧
      system.Keeps { system with
        stored := applyCentralOrderOutcome system.stored orderId read answer } := by
  obtain ⟨-, status, isStatus, -, given⟩ := sound.calls _ member
  obtain ⟨earlier, pendingRead⟩ := given answer rfl
  have marks {next : PaymentOrder} (isReconciled : answer.reconciled = some next) :
      ({ system with stored :=
        markPaymentOrderStatus system.stored orderId next.status next.paidAt } :
        OrderSystem OrderId).Sound ∧ system.Keeps { system with
          stored := markPaymentOrderStatus system.stored orderId next.status next.paidAt } := by
    apply sound.write
    intro order found isOrder isFound agrees
    have terminal : answer ≠ .pending := by
      intro isPending
      rw [isPending] at isReconciled
      cases isReconciled
    obtain rfl := Option.some.inj (isStatus.symm.trans isFound)
    exact mayBecome_of_reconciled agrees (earlier.eq terminal ▸ isReconciled)
  cases answer with
  | pending =>
    have isPending := (pendingRead rfl).resolve_right fun isCanceled => timely ⟨isCanceled, rfl⟩
    rw [applyCentralOrderOutcome, if_neg (not_not_intro isPending)]
    exact ⟨sound, .refl⟩
  | paid paidAt => exact marks rfl
  | expired => exact marks rfl
  | failed => exact marks rfl

theorem OrderSystem.Sound.reconcile (sound : system.Sound) {known : Bool}
    (isStatus : system.central orderId = some status) (earlier : answer.Earlier status) :
    ({ system with stored := reconcileHistoryOrder system.stored known orderId answer } :
      OrderSystem OrderId).Sound ∧
      system.Keeps { system with
        stored := reconcileHistoryOrder system.stored known orderId answer } := by
  unfold reconcileHistoryOrder
  split
  · rename_i next isReconciled
    have terminal : answer ≠ .pending := by
      intro isPending
      rw [isPending] at isReconciled
      cases isReconciled
    apply sound.write
    intro order found isOrder isFound agrees
    obtain rfl := Option.some.inj (isStatus.symm.trans isFound)
    split
    · exact mayBecome_of_reconciled agrees (earlier.eq terminal ▸ isReconciled)
    · exact .inl rfl
  · exact ⟨sound, .refl⟩

/-! ## Runs -/

omit [DecidableEq OrderId] in
theorem truthful_reconcile (system : OrderSystem OrderId) (orderIds : List OrderId) :
    (OrderCall.reconcile (orderIds.filterMap fun orderId =>
      (system.central orderId).map fun status => (orderId, status))).Truthful system := by
  intro pair member
  obtain ⟨orderId, -, isPair⟩ := List.mem_filterMap.mp member
  obtain ⟨status, isStatus, rfl⟩ := Option.map_eq_some_iff.mp isPair
  exact ⟨status, isStatus, .inr rfl⟩

omit [DecidableEq OrderId] in
/-- A call that has read an order has no answer yet. -/
theorem OrderSystem.Sound.truthful_refresh (sound : system.Sound)
    (isOrder : system.stored orderId = some order) :
    (OrderCall.refresh orderId order.status none).Truthful system := by
  obtain ⟨status, isStatus, agrees⟩ := sound.stored orderId order isOrder
  refine ⟨Option.isSome_iff_exists.mpr ⟨order, isOrder⟩, status, isStatus, ?_,
    fun _ isGiven => nomatch isGiven⟩
  rcases agrees with isPending | isCanceled | isReconciled
  · exact .inl isPending
  · exact .inr (.inl isCanceled)
  · refine .inr (.inr fun isPending => ?_)
    rw [isPending] at isReconciled
    cases isReconciled

omit [DecidableEq OrderId] in
/-- Central answers with the status that it has. -/
theorem OrderCall.Truthful.answered
    (truthful : (OrderCall.refresh orderId read none).Truthful system)
    (isStatus : system.central orderId = some status) :
    (OrderCall.refresh orderId read (some status)).Truthful system := by
  obtain ⟨isStored, found, isFound, wasRead, -⟩ := truthful
  obtain rfl := Option.some.inj (isFound.symm.trans isStatus)
  refine ⟨isStored, found, isStatus, wasRead, ?_⟩
  rintro given ⟨⟩
  refine ⟨.inr rfl, fun isPending => ?_⟩
  rcases wasRead with readPending | readCanceled | terminal
  · exact .inl readPending
  · exact .inr readCanceled
  · exact absurd isPending terminal

/-- A new row is pending, as every status of Central allows. -/
theorem OrderSystem.Sound.insertOrder (sound : system.Sound)
    (isStatus : system.central orderId = some status) (absent : system.stored orderId = none) :
    ({ system with stored := Function.update system.stored orderId (some ⟨.pending, none⟩) } :
      OrderSystem OrderId).Sound ∧ system.Keeps { system with
        stored := Function.update system.stored orderId (some ⟨.pending, none⟩) } := by
  have others {other : OrderId} {order : PaymentOrder}
      (isOrder : system.stored other = some order) :
      Function.update system.stored orderId (some ⟨.pending, none⟩) other = some order := by
    have different : other ≠ orderId := by
      intro same
      rw [same, absent] at isOrder
      cases isOrder
    exact (Function.update_of_ne different _ _).trans isOrder
  refine ⟨⟨?_, ?_, ?_⟩, ⟨fun _ _ isStatus _ => isStatus,
    fun _ _ isOrder _ _ => others isOrder, fun _ _ isOrder _ => .inl (others isOrder)⟩⟩
  · intro other order isOrder
    dsimp only at isOrder
    by_cases same : other = orderId
    · subst same
      rw [Function.update_self] at isOrder
      cases isOrder
      exact ⟨status, isStatus, .inl rfl⟩
    · rw [Function.update_of_ne same] at isOrder
      exact sound.stored other order isOrder
  · intro call member
    refine OrderCall.Truthful.advance ⟨?_, ?_⟩ (sound.calls call member)
    · exact fun _ status isStatus => ⟨status, isStatus, .inr rfl⟩
    intro other isStored
    obtain ⟨order, isOrder⟩ := Option.isSome_iff_exists.mp isStored
    exact Option.isSome_iff_exists.mpr ⟨order, others isOrder⟩
  · intro other isGranted
    obtain ⟨paidAt, isOrder⟩ := sound.granted other isGranted
    exact ⟨paidAt, others isOrder⟩

/-- The premium that a paid answer grants is for an order that its row says is paid. -/
theorem OrderSystem.Sound.grantPaid (sound : system.Sound) {paidAt : ℤ}
    (member : .refresh orderId read (some (.paid paidAt)) ∈ system.calls) :
    let paid := { system with
      calls := system.calls.erase (.refresh orderId read (some (.paid paidAt)))
      stored := applyCentralOrderOutcome system.stored orderId read (.paid paidAt)
      granted := orderId :: system.granted }
    paid.Sound ∧ system.Keeps paid := by
  obtain ⟨applied, keeps⟩ := sound.applyOutcome member (by rintro ⟨-, ⟨⟩⟩)
  obtain ⟨ended, endKeeps⟩ := @OrderSystem.Sound.endCall _ _
    (.refresh orderId read (some (.paid paidAt))) _ applied
  obtain ⟨order, isOrder⟩ := Option.isSome_iff_exists.mp (sound.calls _ member).1
  refine ⟨⟨ended.stored, ended.calls, ?_⟩, keeps.trans
    ⟨endKeeps.central, endKeeps.settled, endKeeps.canceled⟩⟩
  intro other isGranted
  rcases List.mem_cons.mp isGranted with rfl | before
  · refine ⟨paidAt, (Function.update_self _ _ _).trans ?_⟩
    rw [isOrder]
    rfl
  · exact ended.granted other before

/-- Every step keeps the invariant and the orders, where no pending answer meets a canceled read. -/
theorem OrderSystem.Sound.run (sound : system.Sound) {step : OrderStep OrderId}
    (timely : NoPendingForCanceled step system) (taken : system.run step = some after) :
    after.Sound ∧ system.Keeps after := by
  cases step with
  | createSession orderId =>
    obtain ⟨absent, taken⟩ := Option.ite_none_left_eq_some.mp taken
    cases taken
    apply sound.advance
    intro other status isStatus
    have different : other ≠ orderId := fun same => absent (same ▸ isStatus ▸ rfl)
    exact ⟨status, (Function.update_of_ne different _ _).trans isStatus, .inr rfl⟩
  | resolve orderId next =>
    obtain ⟨resolves, rfl⟩ := Option.ite_some_none_eq_some.mp taken
    apply sound.advance
    intro other status isStatus
    by_cases same : other = orderId
    · subst same
      refine ⟨next, Function.update_self _ _ _, .inl ?_⟩
      exact Option.some.inj (isStatus.symm.trans resolves.1)
    · exact ⟨status, (Function.update_of_ne same _ _).trans isStatus, .inr rfl⟩
  | insert orderId =>
    obtain ⟨⟨isSome, absent⟩, rfl⟩ := Option.ite_some_none_eq_some.mp taken
    obtain ⟨status, isStatus⟩ := Option.isSome_iff_exists.mp isSome
    exact sound.insertOrder isStatus absent
  | read orderId building =>
    simp only [OrderSystem.run] at taken
    split at taken
    · cases taken
    · rename_i order isOrder
      obtain ⟨-, taken⟩ := Option.ite_none_left_eq_some.mp taken
      cases taken
      exact sound.addCall (sound.truthful_refresh isOrder)
  | answer orderId read =>
    obtain ⟨member, taken⟩ := Option.ite_none_right_eq_some.mp taken
    obtain ⟨status, isStatus, rfl⟩ := Option.map_eq_some_iff.mp taken
    exact sound.replaceCall ((sound.calls _ member).answered isStatus)
  | apply orderId read outcome verifies =>
    simp only [OrderSystem.run] at taken
    split at taken
    · rename_i member
      split at taken
      · split at taken
        · cases taken
          exact sound.grantPaid member
        · cases taken
          exact sound.endCall
      · cases taken
        obtain ⟨applied, keeps⟩ := sound.applyOutcome member (by
          rintro ⟨rfl, rfl⟩
          exact timely orderId verifies rfl)
        obtain ⟨ended, endKeeps⟩ := @OrderSystem.Sound.endCall _ _
          (.refresh orderId read (some outcome)) _ applied
        exact ⟨ended, keeps.trans endKeeps⟩
    · cases taken
  | readCancel orderId =>
    obtain ⟨-, rfl⟩ := Option.ite_some_none_eq_some.mp taken
    exact sound.addCall trivial
  | applyCancel orderId =>
    obtain ⟨-, rfl⟩ := Option.ite_some_none_eq_some.mp taken
    obtain ⟨canceled, keeps⟩ := @OrderSystem.Sound.write _ _ orderId _ (· = .pending)
      (fun row => { row with status := .canceled }) sound (by
        intro order status isOrder isStatus agrees
        split
        · rename_i isPending
          exact .inr (.inr ⟨of_decide_eq_true isPending, rfl⟩)
        · exact .inl rfl)
    obtain ⟨ended, endKeeps⟩ := @OrderSystem.Sound.endCall _ _ (.cancel orderId) _ canceled
    exact ⟨ended, keeps.trans endKeeps⟩
  | readHistory =>
    cases taken
    exact sound.addCall trivial
  | answerHistory orderIds =>
    obtain ⟨-, rfl⟩ := Option.ite_some_none_eq_some.mp taken
    exact sound.replaceCall (truthful_reconcile system orderIds)
  | reconcileNext orders known =>
    simp only [OrderSystem.run] at taken
    split at taken
    · rename_i member
      split at taken
      · cases taken
        exact sound.endCall
      · rename_i orderId status rest
        cases taken
        obtain ⟨⟨found, isFound, earlier⟩, later⟩ := List.forall_mem_cons.mp (sound.calls _ member)
        obtain ⟨reconciled, keeps⟩ := @OrderSystem.Sound.reconcile _ _ _ _ _ _ sound known
          isFound earlier
        obtain ⟨replaced, replaceKeeps⟩ := @OrderSystem.Sound.replaceCall _ _
          (.reconcile ((orderId, status) :: rest)) _ reconciled (.reconcile rest) later
        exact ⟨replaced, keeps.trans replaceKeeps⟩
    · cases taken
  | drop call =>
    cases taken
    exact sound.endCall

/-- What is promised of the orders from one state to a later one. -/
structure OrderSystem.KeepsPromises (before after : OrderSystem OrderId) : Prop where
  paid : ∀ orderId order, before.stored orderId = some order → order.status = .paid →
    after.stored orderId = some order
  granted : ∀ orderId ∈ after.granted, ∃ paidAt, after.stored orderId = some ⟨.paid, some paidAt⟩
  canceled : ∀ orderId order, before.stored orderId = some order → order.status = .canceled →
    after.stored orderId = some order ∨ ∃ status, status ≠ .pending ∧
      after.central orderId = some status ∧ after.stored orderId = status.reconciled

omit [DecidableEq OrderId] in
theorem OrderSystem.sound_new : (({}) : OrderSystem OrderId).Sound :=
  ⟨(fun _ _ isOrder => nomatch isOrder), fun _ member => absurd member List.not_mem_nil,
    fun _ member => absurd member List.not_mem_nil⟩

/-- Where no pending answer is applied to an order that was read as canceled, a paid order stays
paid, through all later steps. -/
theorem paid_orders_stay
    (reached : Reached (fun step before after => OrderSystem.run before step = some after)
      NoPendingForCanceled ({} : OrderSystem OrderId) system)
    (later : Reached (fun step before after => OrderSystem.run before step = some after)
      NoPendingForCanceled system after) : system.KeepsPromises after := by
  have sound : system.Sound := by
    apply @Reached.invariant _ _ _ _ _ _ reached OrderSystem.Sound OrderSystem.sound_new
    intro step before after holds timely taken
    exact (holds.run timely taken).1
  have kept : after.Sound ∧ system.Keeps after := by
    refine @Reached.invariant _ _ _ _ _ _ later (fun after => after.Sound ∧ system.Keeps after)
      ⟨sound, .refl⟩ ?_
    intro step before after holds timely taken
    obtain ⟨stillSound, keeps⟩ := holds.1.run timely taken
    exact ⟨stillSound, holds.2.trans keeps⟩
  refine ⟨?_, kept.1.granted, kept.2.canceled⟩
  intro orderId order isOrder isPaid
  apply kept.2.settled orderId order isOrder
  · rw [isPaid]
    exact PaymentOrderStatus.noConfusion
  · rw [isPaid]
    exact PaymentOrderStatus.noConfusion

end Invariants

/-! ## An order that is paid after it was canceled -/

/-- An order is created, canceled by the user, and paid at Central. -/
def canceledThenPaid : List (OrderStep ℕ) :=
  [.createSession 1, .insert 1, .read 1 false, .readCancel 1, .applyCancel 1, .resolve 1 (.paid 7),
    .answer 1 .pending]

/-- A poll that had read the order as pending is answered after the payment. -/
theorem paid_orders_stay_canceledThenPaid :
    ∃ system after : OrderSystem ℕ, system.KeepsPromises after ∧
      system.stored 1 = some ⟨.canceled, none⟩ ∧ after.stored 1 = some ⟨.paid, some 7⟩ := by
  have timely : ∀ step ∈ canceledThenPaid ++ [.apply 1 .pending (.paid 7) true],
      ∀ system, NoPendingForCanceled step system := by
    intro step member system orderId verifies isApply
    rw [isApply] at member
    simp [canceledThenPaid] at member
  refine ⟨_, _, paid_orders_stay
    (Reached.foldlM canceledThenPaid .start (fun step member =>
      timely step (List.mem_append_left _ member)) rfl)
    (Reached.foldlM [.apply 1 .pending (.paid 7) true] .start (fun step member =>
      timely step (List.mem_append_right _ member)) rfl), rfl, rfl⟩

/-- Two polls read the canceled order. The first is answered that it is pending, the order is paid,
the second stores its token, and then the first makes the order pending again. -/
theorem not_keepsPromises_lateAnswer :
    ∃ system after : OrderSystem ℕ,
      Reached (fun step before after => OrderSystem.run before step = some after)
        (fun _ _ => True) ({} : OrderSystem ℕ) system ∧
      Reached (fun step before after => OrderSystem.run before step = some after)
        (fun _ _ => True) system after ∧
      system.stored 1 = some ⟨.paid, some 7⟩ ∧ after.stored 1 = some ⟨.pending, none⟩ ∧
      ¬ system.KeepsPromises after := by
  refine ⟨_, _, Reached.foldlM [.createSession 1, .insert 1, .readCancel 1, .applyCancel 1,
      .read 1 false, .answer 1 .canceled, .read 1 false, .resolve 1 (.paid 7),
      .answer 1 .canceled, .apply 1 .canceled (.paid 7) true] .start
      (fun _ _ _ => trivial) rfl,
    Reached.foldlM [.apply 1 .canceled .pending false] .start (fun _ _ _ => trivial) rfl,
    rfl, rfl, ?_⟩
  intro keeps
  exact absurd (keeps.paid 1 _ rfl rfl) (by decide)

end Bitgarth.Payments
