import Mathlib.Data.List.Sort
import Mathlib.Logic.Relation
import Mathlib.Order.Nat
import Bitgarth.Sync.HdScan

/-! # What a scan can do

`ScanStep` says once what a scan can do next: visit the first address at or after its index,
change phase, derive, or visit the greatest active address again.
`runHdChainScan_steps` follows every run along these steps and says how it ends.
-/

namespace Bitgarth.Sync

variable {α : Type}

/-! ## The chain in order -/

section Chain

variable {context : HdChainContext} {addresses more : List (SyncAddress α)}
  {address : SyncAddress α} {index next : ℕ}

@[simp]
theorem chain_nil : context.chain ([] : List (SyncAddress α)) = [] := rfl

@[simp]
theorem chain_append :
    context.chain (addresses ++ more) = context.chain addresses ++ context.chain more :=
  List.filterMap_append

theorem chain_cons_of_covers (covers : context.covers address = true)
    (indexed : address.derivationIndex = some index) :
    context.chain (address :: addresses) = (index, address) :: context.chain addresses := by
  unfold HdChainContext.chain
  rw [List.filterMap_cons, if_pos covers, indexed]
  rfl

theorem chain_cons_of_not_covers (other : context.covers address = false) :
    context.chain (address :: addresses) = context.chain addresses := by
  unfold HdChainContext.chain
  rw [List.filterMap_cons, if_neg (by simp [other])]

theorem chain_cons_of_none (missing : address.derivationIndex = none) :
    context.chain (address :: addresses) = context.chain addresses := by
  unfold HdChainContext.chain
  rw [List.filterMap_cons, missing]
  simp

theorem mem_chain : (index, address) ∈ context.chain addresses ↔
    address ∈ addresses ∧ context.covers address = true ∧
      address.derivationIndex = some index := by
  unfold HdChainContext.chain
  rw [List.mem_filterMap]
  constructor
  · rintro ⟨listed, member, found⟩
    split at found
    · rename_i covers
      obtain ⟨_, indexed, same⟩ := Option.map_eq_some_iff.mp found
      obtain ⟨rfl, rfl⟩ := Prod.mk.inj same
      exact ⟨member, covers, indexed⟩
    · simp at found
  · rintro ⟨member, covers, indexed⟩
    exact ⟨address, member, by rw [if_pos covers, indexed]; rfl⟩

theorem chain_addressesFrom
    (ascending : (context.chain addresses).Pairwise fun left right => left.1 < right.1) :
    context.chain (context.addressesFrom next addresses) =
      (context.chain addresses).filter fun entry => next ≤ entry.1 := by
  induction addresses with
  | nil => rfl
  | cons address rest ih =>
    by_cases isFirst : context.isAtOrAfter next address = true
    · have stops : context.addressesFrom next (address :: rest) = address :: rest := by
        unfold HdChainContext.addressesFrom
        rw [List.dropWhile_cons_of_neg (by simp [isFirst])]
      obtain ⟨covers, reached⟩ := Bool.and_eq_true_iff.mp isFirst
      obtain ⟨index, indexed, le⟩ := (Option.any_eq_true _ _).mp reached
      rw [stops, chain_cons_of_covers covers indexed]
      rw [chain_cons_of_covers covers indexed] at ascending
      symm
      rw [List.filter_eq_self]
      intro entry member
      rcases List.mem_cons.mp member with rfl | later
      · simpa using le
      · have above := (List.pairwise_cons.mp ascending).1 entry later
        simp only [decide_eq_true_eq] at le ⊢
        exact le.trans above.le
    · have passes : context.addressesFrom next (address :: rest) =
          context.addressesFrom next rest := by
        unfold HdChainContext.addressesFrom
        rw [List.dropWhile_cons_of_pos (by simp [isFirst])]
      rw [passes]
      cases covers : context.covers address with
      | false =>
        rw [chain_cons_of_not_covers covers] at ascending ⊢
        exact ih ascending
      | true =>
        cases indexed : address.derivationIndex with
        | none =>
          rw [chain_cons_of_none indexed] at ascending ⊢
          exact ih ascending
        | some index =>
          have below : index < next := by
            simpa [HdChainContext.isAtOrAfter, covers, indexed] using isFirst
          rw [chain_cons_of_covers covers indexed] at ascending ⊢
          rw [List.filter_cons_of_neg (by simpa using below)]
          exact ih (List.pairwise_cons.mp ascending).2

theorem addressesFrom_subset : context.addressesFrom next addresses ⊆ addresses :=
  (List.dropWhile_sublist _).subset

/-- The index after the greatest one listed. -/
def firstFreshIndex (addresses : List (SyncAddress α)) : ℕ :=
  (maxDerivedIndex addresses).elim 0 (· + 1)

theorem lt_firstFreshIndex (member : address ∈ addresses)
    (indexed : address.derivationIndex = some index) : index < firstFreshIndex addresses := by
  have listed : index ∈ addresses.filterMap SyncAddress.derivationIndex :=
    List.mem_filterMap.mpr ⟨address, member, indexed⟩
  unfold firstFreshIndex maxDerivedIndex
  cases greatest : (addresses.filterMap SyncAddress.derivationIndex).max? with
  | none =>
    rw [List.max?_eq_none_iff] at greatest
    rw [greatest] at listed
    exact absurd listed List.not_mem_nil
  | some bound =>
    have le := (List.max?_eq_some_iff.mp greatest).2 index listed
    exact Nat.lt_succ_of_le le

theorem firstFreshIndex_le
    (below : ∀ address ∈ addresses, ∀ index ∈ address.derivationIndex, index < next) :
    firstFreshIndex addresses ≤ next := by
  unfold firstFreshIndex maxDerivedIndex
  cases greatest : (addresses.filterMap SyncAddress.derivationIndex).max? with
  | none => exact Nat.zero_le _
  | some bound =>
    obtain ⟨listed, _⟩ := List.max?_eq_some_iff.mp greatest
    obtain ⟨address, member, indexed⟩ := List.mem_filterMap.mp listed
    exact below address member bound indexed

theorem firstFreshIndex_mono (fewer : addresses ⊆ more) :
    firstFreshIndex addresses ≤ firstFreshIndex more :=
  firstFreshIndex_le fun _ member _ indexed => lt_firstFreshIndex (fewer member) indexed

end Chain

/-! ## Requests -/

section Requests

variable (request : HdChainScanRequest α)

/-- Deriving gives as many addresses of the chain as asked for, at consecutive fresh
indexes. -/
def HdChainScanRequest.DerivesFresh : Prop :=
  ∀ call addresses count generated,
    request.deriveNextAddresses call addresses count = .ok generated →
      generated.map DerivedSyncAddress.derivationIndex =
          List.range' (firstFreshIndex addresses) count ∧
        ∀ address ∈ generated, address.derivationChange = request.context.derivationChange

/-- Some gate call interrupts. -/
def HdChainScanRequest.GateInterrupts : Prop :=
  ∃ call address state after outcome,
    request.gate call address state = .ok (after, outcome) ∧ outcome.interrupted = true

/-- Some call of the surroundings fails. -/
def HdChainScanRequest.CallFails : Prop :=
  (∃ call address state error, request.gate call address state = .error error) ∨
    ∃ call addresses count error, request.deriveNextAddresses call addresses count = .error error

/-- Some address of the chain is listed without an index. -/
def HdChainScanRequest.LacksIndex (addresses : List (SyncAddress α)) : Prop :=
  ∃ address ∈ addresses, request.context.covers address = true ∧ address.derivationIndex = none

/-- What is listed at or after the index to scan. -/
def HdChainScanRequest.due (s : ScanState α) : List (ℕ × SyncAddress α) :=
  (request.context.chain s.addresses).filter fun entry => s.nextIndexToScan ≤ entry.1

end Requests

/-! ## Steps -/

variable [DecidableEq α]

inductive ScanPhase where
  | existing
  | derived
  | rescan (fromIndex : Option ℕ)
deriving DecidableEq, Repr

structure ScanConfig (α : Type) where
  phase : ScanPhase
  state : ScanState α

/-- The phase counts unused addresses and has not reached its limit. -/
def HdChainScanRequest.Counts (request : HdChainScanRequest α) (s : ScanState α) :
    ScanPhase → Prop
  | .existing => True
  | .derived => s.consecutiveUnused < request.gapLimit
  | .rescan _ => False

/-- What a scan does next. -/
inductive ScanStep (request : HdChainScanRequest α) : ScanConfig α → ScanConfig α → Prop
  | pass {s : ScanState α} {index : ℕ} {address : SyncAddress α}
      {rest : List (ℕ × SyncAddress α)} (due : request.due s = (index, address) :: rest)
      (known : address.addressId ∈ s.knownActivity) :
      ScanStep request ⟨.existing, s⟩
        ⟨.existing, s.resetUnused.moveTo (index + 1)⟩
  | visit {phase : ScanPhase} {s after : ScanState α} {index : ℕ} {address : SyncAddress α}
      {rest : List (ℕ × SyncAddress α)} (counts : request.Counts s phase)
      (due : request.due s = (index, address) :: rest)
      (step : runHdAddressStep request true address s = (.finished, after)) :
      ScanStep request ⟨phase, s⟩ ⟨phase, after.moveTo (index + 1)⟩
  | fail {phase : ScanPhase} {s after : ScanState α} {index : ℕ} {address : SyncAddress α}
      {rest : List (ℕ × SyncAddress α)} (counts : request.Counts s phase)
      (due : request.due s = (index, address) :: rest)
      (step : runHdAddressStep request true address s = (.interrupted, after)) :
      ScanStep request ⟨phase, s⟩ ⟨phase, after.moveTo index⟩
  | locate {phase : ScanPhase} {s : ScanState α} {index : ℕ} {address : SyncAddress α}
      {rest : List (ℕ × SyncAddress α)} (counts : request.Counts s phase)
      (due : request.due s = (index, address) :: rest) :
      ScanStep request ⟨phase, s⟩ ⟨phase, s.moveTo index⟩
  | startDerived {s : ScanState α} (nothing : request.due s = []) :
      ScanStep request ⟨.existing, s⟩
        ⟨.derived,
          s.moveTo ((maxDerivedIndex s.addresses).elim s.nextIndexToScan (· + 1))⟩
  | derive {s : ScanState α} {generated : List (DerivedSyncAddress α)}
      (counts : s.consecutiveUnused < request.gapLimit) (nothing : request.due s = [])
      (derived : request.deriveNextAddresses s.calls s.addresses (request.toDerive s) =
        .ok generated) :
      ScanStep request ⟨.derived, s⟩
        ⟨.derived, s.push (generated.map request.context.listed)⟩
  | startRescan {s : ScanState α} (reached : request.gapLimit ≤ s.consecutiveUnused) :
      ScanStep request ⟨.derived, s⟩
        ⟨.rescan (maxActiveDerivationIndex request.context s.addresses s.knownActivity),
          s.aim (maxActiveDerivationIndex request.context s.addresses s.knownActivity)⟩
  | aim {s : ScanState α} {fromIndex index : ℕ} {address : SyncAddress α}
      (found : findActiveRescanPosition request.context s fromIndex = some (index, address)) :
      ScanStep request ⟨.rescan (some fromIndex), s⟩
        ⟨.rescan (some fromIndex), s.aim (some index)⟩
  | revisit {s after : ScanState α} {fromIndex index : ℕ} {address : SyncAddress α}
      (found : findActiveRescanPosition request.context s fromIndex = some (index, address))
      (step : runHdAddressStep request false address s = (.finished, after)) :
      ScanStep request ⟨.rescan (some fromIndex), s⟩
        ⟨.rescan (if index = 0 then none else some (index - 1)), after⟩
  | refail {s after : ScanState α} {fromIndex index : ℕ} {address : SyncAddress α}
      (found : findActiveRescanPosition request.context s fromIndex = some (index, address))
      (step : runHdAddressStep request false address s = (.interrupted, after)) :
      ScanStep request ⟨.rescan (some fromIndex), s⟩ ⟨.rescan (some fromIndex), after⟩

/-- Any number of steps. -/
abbrev ScanSteps (request : HdChainScanRequest α) : ScanConfig α → ScanConfig α → Prop :=
  Relation.ReflTransGen (ScanStep request)

/-! ## One address -/

section AddressStep

variable {request : HdChainScanRequest α} {counts : Bool} {address : SyncAddress α}
  {s after : ScanState α} {exit : ScanExit}

theorem runHdAddressStep_spec (step : runHdAddressStep request counts address s = (exit, after)) :
    (∃ error, request.gate s.calls address (s.syncStates address.addressId) = .error error ∧
        exit = .aborted error ∧ after = s) ∨
      ∃ state outcome,
        request.gate s.calls address (s.syncStates address.addressId) = .ok (state, outcome) ∧
        (outcome.interrupted = true ∧ exit = .interrupted ∧
            after = s.record counts address state outcome ∨
          outcome.interrupted = false ∧ exit = .finished ∧
            after = (s.record counts address state outcome).complete counts address.addressId
              outcome.hasActivity) := by
  unfold runHdAddressStep at step
  split at step
  · rename_i error failed
    obtain ⟨rfl, rfl⟩ := Prod.mk.inj step
    exact .inl ⟨error, failed, rfl, rfl⟩
  · rename_i state outcome gated
    refine .inr ⟨state, outcome, gated, ?_⟩
    split at step
    · rename_i interrupted
      obtain ⟨rfl, rfl⟩ := Prod.mk.inj step
      exact .inl ⟨interrupted, rfl, rfl⟩
    · rename_i completed
      obtain ⟨rfl, rfl⟩ := Prod.mk.inj step
      exact .inr ⟨by simpa using completed, rfl, rfl⟩

theorem runHdAddressStep_addresses
    (step : runHdAddressStep request counts address s = (exit, after)) :
    after.addresses = s.addresses := by
  rcases runHdAddressStep_spec step with ⟨_, _, _, rfl⟩ | ⟨_, _, _, ⟨_, _, rfl⟩ | ⟨_, _, rfl⟩⟩ <;>
    rfl

theorem runHdAddressStep_exit
    (step : runHdAddressStep request counts address s = (exit, after)) :
    exit = .finished ∨ exit = .interrupted ∧ request.GateInterrupts ∨
      (∃ error, exit = .aborted error) ∧ after = s ∧ request.CallFails := by
  rcases runHdAddressStep_spec step with
    ⟨error, failed, rfl, rfl⟩ | ⟨_, _, gated, ⟨interrupted, rfl, _⟩ | ⟨_, rfl, _⟩⟩
  · exact .inr (.inr ⟨⟨error, rfl⟩, rfl, .inl ⟨_, _, _, _, failed⟩⟩)
  · exact .inr (.inl ⟨rfl, _, _, _, _, _, gated, interrupted⟩)
  · exact .inl rfl

end AddressStep

/-! ## Runs follow steps -/

section Runs

variable {request : HdChainScanRequest α} {s after : ScanState α} {exit : ScanExit}
  {todo : List (SyncAddress α)} {resuming : Bool}

/-- The chain is listed by index and the index to scan is not above the next fresh one. -/
structure InOrder (request : HdChainScanRequest α) (s : ScanState α) : Prop where
  ascending : (request.context.chain s.addresses).Pairwise fun left right => left.1 < right.1
  reached : s.nextIndexToScan ≤ firstFreshIndex s.addresses

/-- Why a loop stops before its end. -/
def StopsFor (request : HdChainScanRequest α) (s : ScanState α) : ScanExit → Prop
  | .interrupted => request.budgetSpent s = true ∨ request.GateInterrupts
  | .aborted _ => request.CallFails ∨ request.LacksIndex s.addresses
  | _ => True

omit [DecidableEq α] in
theorem mem_of_due {index : ℕ} {address : SyncAddress α} {rest : List (ℕ × SyncAddress α)}
    (due : request.due s = (index, address) :: rest) :
    (index, address) ∈ request.context.chain s.addresses ∧ s.nextIndexToScan ≤ index := by
  have member : (index, address) ∈ request.due s := by rw [due]; exact List.mem_cons_self
  simpa [HdChainScanRequest.due] using member

omit [DecidableEq α] in
theorem due_advance {index : ℕ} {address : SyncAddress α} {rest : List (ℕ × SyncAddress α)}
    (order : InOrder request s) (due : request.due s = (index, address) :: rest)
    (same : after.addresses = s.addresses) : request.due (after.moveTo (index + 1)) = rest := by
  obtain ⟨_, le⟩ := mem_of_due due
  have ascending : (request.due s).Pairwise fun left right => left.1 < right.1 :=
    order.ascending.filter _
  rw [due] at ascending
  have fewer : request.due (after.moveTo (index + 1)) =
      (request.due s).filter fun entry => index + 1 ≤ entry.1 := by
    unfold HdChainScanRequest.due ScanState.moveTo
    rw [same, List.filter_filter]
    refine List.filter_congr fun entry _ => ?_
    rw [Bool.eq_iff_iff]
    simp only [Bool.and_eq_true, decide_eq_true_eq]
    omega
  rw [fewer, due, List.filter_cons_of_neg (by simp), List.filter_eq_self]
  intro entry member
  have above := (List.pairwise_cons.mp ascending).1 entry member
  simpa using Nat.succ_le_of_lt above

omit [DecidableEq α] in
theorem InOrder.advance {index next : ℕ} {address : SyncAddress α}
    {rest : List (ℕ × SyncAddress α)} (order : InOrder request s)
    (due : request.due s = (index, address) :: rest) (same : after.addresses = s.addresses)
    (le : next ≤ index + 1) : InOrder request (after.moveTo next) := by
  obtain ⟨member, _⟩ := mem_of_due due
  obtain ⟨listed, _, indexed⟩ := mem_chain.mp member
  have sameChain : request.context.chain (after.moveTo next).addresses =
      request.context.chain s.addresses := congrArg _ same
  refine ⟨by rw [sameChain]; exact order.ascending, le.trans ?_⟩
  exact lt_firstFreshIndex (same ▸ listed : address ∈ after.addresses) indexed

/-- The loop over the stored addresses takes scan steps, up to the last or its exit. -/
theorem existingLoop_steps (order : InOrder request s)
    (isDue : request.context.chain todo = request.due s) (listed : todo ⊆ s.addresses)
    (run : existingLoop request todo s = (exit, after)) :
    ScanSteps request ⟨.existing, s⟩ ⟨.existing, after⟩ ∧ StopsFor request after exit ∧
      exit ≠ .outOfFuel ∧ (exit = .finished → request.due after = []) := by
  induction todo generalizing s with
  | nil =>
    obtain ⟨rfl, rfl⟩ := Prod.mk.inj run
    exact ⟨.refl, trivial, by simp, fun _ => isDue.symm⟩
  | cons address rest ih =>
    obtain ⟨member, restListed⟩ := List.cons_subset.mp listed
    unfold existingLoop at run
    by_cases spent : request.budgetSpent s = true
    · rw [if_pos spent] at run
      obtain ⟨rfl, rfl⟩ := Prod.mk.inj run
      exact ⟨.refl, .inl spent, by simp, by simp⟩
    rw [if_neg spent] at run
    cases covers : request.context.covers address with
    | false =>
      rw [covers, if_neg Bool.false_ne_true] at run
      rw [chain_cons_of_not_covers covers] at isDue
      exact ih order isDue restListed run
    | true =>
      rw [covers, if_pos rfl] at run
      cases indexed : address.derivationIndex with
      | none =>
        rw [indexed] at run
        obtain ⟨rfl, rfl⟩ := Prod.mk.inj run
        exact ⟨.refl, .inr ⟨address, member, covers, indexed⟩, by simp, by simp⟩
      | some index =>
        rw [indexed] at run
        rw [chain_cons_of_covers covers indexed] at isDue
        simp only at run
        split at run
        · rename_i known
          have same : s.resetUnused.addresses = s.addresses := rfl
          obtain ⟨steps, stops⟩ := ih (order.advance isDue.symm same le_rfl)
            (due_advance order isDue.symm same).symm restListed run
          exact ⟨.head (.pass isDue.symm known.2.1) steps, stops⟩
        · cases stepped : runHdAddressStep request true address s with
          | mk stepExit next =>
            have same := runHdAddressStep_addresses stepped
            rw [stepped] at run
            rcases runHdAddressStep_exit stepped with
              rfl | ⟨rfl, interrupts⟩ | ⟨⟨error, rfl⟩, rfl, fails⟩
            · obtain ⟨steps, stops⟩ := ih (order.advance isDue.symm same le_rfl)
                (due_advance order isDue.symm same).symm (same ▸ restListed) run
              exact ⟨.head (.visit trivial isDue.symm stepped) steps, stops⟩
            · obtain ⟨rfl, rfl⟩ := Prod.mk.inj run
              exact ⟨.single (.fail trivial isDue.symm stepped), .inr interrupts,
                by simp, by simp⟩
            · obtain ⟨rfl, rfl⟩ := Prod.mk.inj run
              exact ⟨.single (.locate trivial isDue.symm), .inl fails, by simp, by simp⟩

/-- So does the loop over derived addresses, which moves the next index on. -/
theorem derivedLoop_steps (order : InOrder request s)
    (isDue : request.context.chain todo = request.due s) (listed : todo ⊆ s.addresses)
    (run : derivedLoop request resuming todo s = (exit, after)) :
    ScanSteps request ⟨.derived, s⟩ ⟨.derived, after⟩ ∧ StopsFor request after exit ∧
      exit ≠ .outOfFuel ∧
      (exit = .finished → request.due after = [] ∨ request.gapLimit ≤ after.consecutiveUnused) ∧
      s.nextIndexToScan ≤ after.nextIndexToScan ∧
      (exit = .finished → request.due s ≠ [] → s.consecutiveUnused < request.gapLimit →
        s.nextIndexToScan < after.nextIndexToScan) := by
  induction todo generalizing s with
  | nil =>
    obtain ⟨rfl, rfl⟩ := Prod.mk.inj run
    exact ⟨.refl, trivial, by simp, fun _ => .inl isDue.symm, le_rfl,
      fun _ present => absurd isDue.symm present⟩
  | cons address rest ih =>
    obtain ⟨member, restListed⟩ := List.cons_subset.mp listed
    unfold derivedLoop at run
    by_cases counts : s.consecutiveUnused < request.gapLimit
    swap
    · rw [if_neg counts] at run
      obtain ⟨rfl, rfl⟩ := Prod.mk.inj run
      exact ⟨.refl, trivial, by simp, fun _ => .inr (not_lt.mp counts), le_rfl,
        fun _ _ short => absurd short counts⟩
    rw [if_pos counts] at run
    cases covers : request.context.covers address with
    | false =>
      rw [covers, if_neg Bool.false_ne_true] at run
      rw [chain_cons_of_not_covers covers] at isDue
      exact ih order isDue restListed run
    | true =>
      rw [covers, if_pos rfl] at run
      cases indexed : address.derivationIndex with
      | none =>
        rw [indexed] at run
        obtain ⟨rfl, rfl⟩ := Prod.mk.inj run
        exact ⟨.refl, .inr ⟨address, member, covers, indexed⟩, by simp, by simp, le_rfl,
          by simp⟩
      | some index =>
        rw [indexed] at run
        rw [chain_cons_of_covers covers indexed] at isDue
        obtain ⟨_, reached⟩ := mem_of_due isDue.symm
        simp only at run
        rw [if_neg fun skipped => absurd skipped.2 (not_lt.mpr reached)] at run
        by_cases spent : request.budgetSpent s = true
        · rw [if_pos spent] at run
          obtain ⟨rfl, rfl⟩ := Prod.mk.inj run
          exact ⟨.single (.locate counts isDue.symm), .inl spent, by simp, by simp, reached,
            by simp⟩
        rw [if_neg spent] at run
        cases stepped : runHdAddressStep request true address s with
        | mk stepExit next =>
          have same := runHdAddressStep_addresses stepped
          rw [stepped] at run
          rcases runHdAddressStep_exit stepped with
            rfl | ⟨rfl, interrupts⟩ | ⟨⟨error, rfl⟩, rfl, fails⟩
          · obtain ⟨steps, stops, fueled, done, le, _⟩ :=
              ih (order.advance isDue.symm same le_rfl)
                (due_advance order isDue.symm same).symm (same ▸ restListed) run
            have above : s.nextIndexToScan < after.nextIndexToScan :=
              lt_of_lt_of_le (Nat.lt_succ_of_le reached) le
            exact ⟨.head (.visit counts isDue.symm stepped) steps, stops, fueled, done,
              above.le, fun _ _ _ => above⟩
          · obtain ⟨rfl, rfl⟩ := Prod.mk.inj run
            exact ⟨.single (.fail counts isDue.symm stepped), .inr interrupts, by simp,
              by simp, reached, by simp⟩
          · obtain ⟨rfl, rfl⟩ := Prod.mk.inj run
            exact ⟨.single (.locate counts isDue.symm), .inl fails, by simp, by simp,
              reached, by simp⟩

omit [DecidableEq α] in
theorem chain_listed {generated : List (DerivedSyncAddress α)}
    (change : ∀ address ∈ generated,
      address.derivationChange = request.context.derivationChange) :
    request.context.chain (generated.map request.context.listed) =
      generated.map fun address => (address.derivationIndex, request.context.listed address) := by
  induction generated with
  | nil => rfl
  | cons address rest ih =>
    obtain ⟨here, later⟩ := List.forall_mem_cons.mp change
    have covers : request.context.covers (request.context.listed address) = true := by
      simp [HdChainContext.covers, HdChainContext.listed, here]
    rw [List.map_cons, chain_cons_of_covers covers rfl, ih later, List.map_cons]

theorem due_push {generated : List (DerivedSyncAddress α)} {count : ℕ}
    (order : InOrder request s) (nothing : request.due s = [])
    (indexes : generated.map DerivedSyncAddress.derivationIndex =
      List.range' (firstFreshIndex s.addresses) count)
    (change : ∀ address ∈ generated,
      address.derivationChange = request.context.derivationChange) :
    InOrder request (s.push (generated.map request.context.listed)) ∧
      request.context.chain (generated.map request.context.listed) =
        request.due (s.push (generated.map request.context.listed)) := by
  have fresh : ∀ address ∈ generated, firstFreshIndex s.addresses ≤ address.derivationIndex := by
    intro address member
    have listed : address.derivationIndex ∈ List.range' (firstFreshIndex s.addresses) count := by
      rw [← indexes]
      exact List.mem_map_of_mem member
    exact (List.mem_range'_1.mp listed).1
  have ascends : generated.Pairwise fun left right =>
      left.derivationIndex < right.derivationIndex := by
    rw [← List.pairwise_map (f := DerivedSyncAddress.derivationIndex) (R := (· < ·)), indexes]
    exact List.pairwise_lt_range'
  have chain : request.context.chain (s.push (generated.map request.context.listed)).addresses =
      request.context.chain s.addresses ++ generated.map fun address =>
        (address.derivationIndex, request.context.listed address) := by
    unfold ScanState.push
    rw [chain_append, chain_listed change]
  refine ⟨⟨?_, order.reached.trans (firstFreshIndex_mono (List.subset_append_left _ _))⟩, ?_⟩
  · rw [chain, List.pairwise_append]
    refine ⟨order.ascending, List.pairwise_map.mpr ascends, ?_⟩
    rintro ⟨index, address⟩ member entry isGenerated
    obtain ⟨derived, isDerived, rfl⟩ := List.mem_map.mp isGenerated
    obtain ⟨listed, _, indexed⟩ := mem_chain.mp member
    exact lt_of_lt_of_le (lt_firstFreshIndex listed indexed) (fresh derived isDerived)
  · unfold HdChainScanRequest.due at nothing ⊢
    rw [chain, List.filter_append, chain_listed change]
    have none : (request.context.chain s.addresses).filter (fun entry =>
        (s.push (generated.map request.context.listed)).nextIndexToScan ≤ entry.1) = [] := nothing
    rw [none, List.nil_append]
    symm
    rw [List.filter_eq_self]
    intro entry isGenerated
    obtain ⟨derived, isDerived, rfl⟩ := List.mem_map.mp isGenerated
    exact decide_eq_true (order.reached.trans (fresh derived isDerived))

theorem runHdAddressStep_next {counts : Bool} {address : SyncAddress α}
    (step : runHdAddressStep request counts address s = (exit, after)) :
    after.nextIndexToScan = s.nextIndexToScan := by
  rcases runHdAddressStep_spec step with ⟨_, _, _, rfl⟩ | ⟨_, _, _, ⟨_, _, rfl⟩ | ⟨_, _, rfl⟩⟩ <;>
    rfl

theorem ScanStep.inOrder (fresh : request.DerivesFresh) {before next : ScanConfig α}
    (step : ScanStep request before next) (order : InOrder request before.state) :
    InOrder request next.state := by
  cases step with
  | @pass s _ _ _ due _ =>
    have same : s.resetUnused.addresses = s.addresses := rfl
    exact order.advance due same le_rfl
  | visit _ due step => exact order.advance due (runHdAddressStep_addresses step) le_rfl
  | fail _ due step =>
    exact order.advance due (runHdAddressStep_addresses step) (Nat.le_succ _)
  | locate _ due => exact order.advance due rfl (Nat.le_succ _)
  | @startDerived s _ =>
    refine ⟨order.ascending, ?_⟩
    have reached := order.reached
    unfold firstFreshIndex at reached ⊢
    change (maxDerivedIndex s.addresses).elim s.nextIndexToScan (· + 1) ≤
      (maxDerivedIndex s.addresses).elim 0 (· + 1)
    cases greatest : maxDerivedIndex s.addresses with
    | none => rwa [greatest] at reached
    | some bound => exact le_rfl
  | derive _ nothing derived =>
    obtain ⟨indexes, change⟩ := fresh _ _ _ _ derived
    exact (due_push order nothing indexes change).1
  | startRescan _ => exact ⟨order.ascending, order.reached⟩
  | aim _ => exact ⟨order.ascending, order.reached⟩
  | revisit _ step | refail _ step =>
    have same := runHdAddressStep_addresses step
    have next := runHdAddressStep_next step
    exact ⟨by rw [same]; exact order.ascending, by rw [same, next]; exact order.reached⟩

theorem ScanSteps.inOrder (fresh : request.DerivesFresh) {before next : ScanConfig α}
    (steps : ScanSteps request before next) (order : InOrder request before.state) :
    InOrder request next.state := by
  induction steps with
  | refl => exact order
  | tail _ step ih => exact step.inOrder fresh ih

omit [DecidableEq α] in
theorem toDerive_pos (short : s.consecutiveUnused < request.gapLimit)
    (left : request.budgetSpent s ≠ true) : 0 < request.toDerive s := by
  unfold HdChainScanRequest.toDerive
  unfold HdChainScanRequest.budgetSpent at left
  cases budget : request.maxAddresses with
  | none => exact Nat.sub_pos_of_lt short
  | some maximum =>
    rw [budget] at left
    simp only [Option.any_some, decide_eq_true_eq, ne_eq, not_le] at left
    exact lt_min (Nat.sub_pos_of_lt short) (Nat.sub_pos_of_lt left)

/-- Batches go on until the gap limit, or while the fuel lasts. -/
theorem derivedPhase_steps {fuel : ℕ} (fresh : request.DerivesFresh)
    (order : InOrder request s) (run : derivedPhase request fuel s = (exit, after)) :
    ScanSteps request ⟨.derived, s⟩ ⟨.derived, after⟩ ∧ StopsFor request after exit ∧
      (exit = .finished → request.gapLimit ≤ after.consecutiveUnused) ∧
      (exit = .outOfFuel → s.nextIndexToScan + fuel ≤ after.nextIndexToScan) := by
  induction fuel generalizing s with
  | zero =>
    obtain ⟨rfl, rfl⟩ := Prod.mk.inj run
    exact ⟨.refl, trivial, by simp, fun _ => le_rfl⟩
  | succ fuel ih =>
    unfold derivedPhase at run
    by_cases short : s.consecutiveUnused < request.gapLimit
    swap
    · rw [if_neg short] at run
      obtain ⟨rfl, rfl⟩ := Prod.mk.inj run
      exact ⟨.refl, trivial, fun _ => not_lt.mp short, by simp⟩
    rw [if_pos short] at run
    cases resumed : derivedLoop request true
        (request.context.addressesFrom s.nextIndexToScan s.addresses) s with
    | mk resumeExit next =>
      obtain ⟨steps, stops, fueled, done, le, _⟩ := derivedLoop_steps order
        (chain_addressesFrom order.ascending) addressesFrom_subset resumed
      rw [resumed] at run
      have nextOrder := ScanSteps.inOrder fresh steps order
      cases resumeExit with
      | interrupted | aborted error =>
        obtain ⟨rfl, rfl⟩ := Prod.mk.inj run
        exact ⟨steps, stops, by simp, by simp⟩
      | outOfFuel => exact absurd rfl fueled
      | finished =>
        simp only at run
        by_cases reached : request.gapLimit ≤ next.consecutiveUnused
        · rw [if_pos reached] at run
          obtain ⟨rfl, rfl⟩ := Prod.mk.inj run
          exact ⟨steps, trivial, fun _ => reached, by simp⟩
        rw [if_neg reached] at run
        have nothing := (done rfl).resolve_right reached
        by_cases spent : request.budgetSpent next = true
        · rw [if_pos spent] at run
          obtain ⟨rfl, rfl⟩ := Prod.mk.inj run
          exact ⟨steps, .inl spent, by simp, by simp⟩
        rw [if_neg spent] at run
        have positive := toDerive_pos (not_le.mp reached) spent
        cases derived : request.deriveNextAddresses next.calls next.addresses
            (request.toDerive next) with
        | error error =>
          rw [derived] at run
          obtain ⟨rfl, rfl⟩ := Prod.mk.inj run
          exact ⟨steps, .inl (.inr ⟨_, _, _, _, derived⟩), by simp, by simp⟩
        | ok generated =>
          rw [derived] at run
          obtain ⟨indexes, change⟩ := fresh _ _ _ _ derived
          cases generated with
          | nil =>
            have length := congrArg List.length indexes
            rw [List.length_range'] at length
            exact absurd length.symm positive.ne'
          | cons first more =>
            obtain ⟨pushOrder, isDue⟩ := due_push nextOrder nothing indexes change
            have derive : ScanStep request ⟨.derived, next⟩ ⟨.derived, next.push _⟩ :=
              .derive (not_le.mp reached) nothing derived
            simp only at run
            cases scanned : derivedLoop request false
                ((first :: more).map request.context.listed)
                (next.push ((first :: more).map request.context.listed)) with
            | mk scanExit last =>
              obtain ⟨scanSteps, scanStops, scanFueled, _, _, moved⟩ :=
                derivedLoop_steps pushOrder isDue (List.subset_append_right _ _) scanned
              have allSteps := steps.trans (.head derive scanSteps)
              rw [scanned] at run
              cases scanExit with
              | interrupted | aborted error =>
                obtain ⟨rfl, rfl⟩ := Prod.mk.inj run
                exact ⟨allSteps, scanStops, by simp, by simp⟩
              | outOfFuel => exact absurd rfl scanFueled
              | finished =>
                obtain ⟨rest, restStops, restDone, restFuel⟩ :=
                  ih (ScanSteps.inOrder fresh scanSteps pushOrder) run
                have above : next.nextIndexToScan < last.nextIndexToScan :=
                  moved rfl (by rw [← isDue, chain_listed change]; simp)
                    (not_le.mp reached)
                refine ⟨allSteps.trans rest, restStops, restDone, fun empty => ?_⟩
                have bound : last.nextIndexToScan + fuel ≤ after.nextIndexToScan :=
                  restFuel empty
                omega

/-! ## The rescan -/

section Rescan

omit [DecidableEq α] in
theorem foldl_maxByIndex (entries : List (ℕ × SyncAddress α)) (best : ℕ × SyncAddress α) :
    ∃ greatest, entries.foldl (fun best entry =>
        match best with
        | none => some entry
        | some greatest => if greatest.1 ≤ entry.1 then some entry else some greatest)
          (some best) = some greatest ∧
      (greatest = best ∨ greatest ∈ entries) ∧ best.1 ≤ greatest.1 ∧
        ∀ entry ∈ entries, entry.1 ≤ greatest.1 := by
  induction entries generalizing best with
  | nil => exact ⟨best, rfl, .inl rfl, le_rfl, by simp⟩
  | cons entry rest ih =>
    by_cases le : best.1 ≤ entry.1
    · obtain ⟨greatest, found, member, above, others⟩ := ih entry
      refine ⟨greatest, by rw [List.foldl_cons]; simpa [le] using found, ?_, le.trans above,
        List.forall_mem_cons.mpr ⟨above, others⟩⟩
      exact .inr (List.mem_cons.mpr member)
    · obtain ⟨greatest, found, member, above, others⟩ := ih best
      refine ⟨greatest, by rw [List.foldl_cons]; simpa [le] using found, ?_, above,
        List.forall_mem_cons.mpr ⟨(not_le.mp le).le.trans above, others⟩⟩
      exact member.imp_right (List.mem_cons_of_mem _)

omit [DecidableEq α] in
theorem maxByIndex_eq_some {entries : List (ℕ × SyncAddress α)} {best : ℕ × SyncAddress α}
    (found : maxByIndex entries = some best) :
    best ∈ entries ∧ ∀ entry ∈ entries, entry.1 ≤ best.1 := by
  unfold maxByIndex at found
  cases entries with
  | nil => simp at found
  | cons entry rest =>
    obtain ⟨greatest, isGreatest, member, above, others⟩ :=
      foldl_maxByIndex rest entry
    rw [List.foldl_cons] at found
    obtain rfl := Option.some.inj (isGreatest.symm.trans found)
    exact ⟨List.mem_cons.mpr member, List.forall_mem_cons.mpr ⟨above, others⟩⟩

theorem findActiveRescanPosition_eq_some {context : HdChainContext} {fromIndex index : ℕ}
    {address : SyncAddress α}
    (found : findActiveRescanPosition context s fromIndex = some (index, address)) :
    (index, address) ∈ context.chain s.addresses ∧ address.addressId ∈ s.knownActivity ∧
      address.addressId ∉ s.completedAddressIds ∧ index ≤ fromIndex ∧
      ∀ entry ∈ context.chain s.addresses, entry.2.addressId ∈ s.knownActivity →
        entry.1 ≤ fromIndex → index < entry.1 →
          entry.2.addressId ∈ s.completedAddressIds := by
  obtain ⟨member, greatest⟩ := maxByIndex_eq_some found
  simp only [List.mem_filter, Bool.and_eq_true, decide_eq_true_eq] at member greatest
  obtain ⟨listed, ⟨known, open_⟩, le⟩ := member
  refine ⟨listed, known, open_, le, fun entry inChain isKnown below above => ?_⟩
  by_contra notCompleted
  exact absurd (greatest entry ⟨inChain, ⟨isKnown, notCompleted⟩, below⟩) (not_le.mpr above)

/-- The rescan needs no more fuel than the index it starts below. -/
theorem rescanLoop_steps {fuel : ℕ} {fromIndex : Option ℕ}
    (enough : ∀ bound ∈ fromIndex, bound < fuel)
    (run : rescanLoop request fuel fromIndex s = (exit, after)) :
    ∃ last, ScanSteps request ⟨.rescan fromIndex, s⟩ ⟨.rescan last, after⟩ ∧
      StopsFor request after exit ∧ exit ≠ .outOfFuel ∧
      (exit = .finished →
        ∀ bound ∈ last, findActiveRescanPosition request.context after bound = none) ∧
      (exit = .interrupted → ∃ bound ∈ last, ∃ index address,
        findActiveRescanPosition request.context after bound = some (index, address) ∧
          after.activeRescan = some index) := by
  induction fuel generalizing fromIndex s with
  | zero =>
    cases fromIndex with
    | some bound => exact absurd (enough bound rfl) (Nat.not_lt_zero _)
    | none =>
      unfold rescanLoop at run
      obtain ⟨rfl, rfl⟩ := Prod.mk.inj run
      exact ⟨none, .refl, trivial, by simp, by simp, by simp⟩
  | succ fuel ih =>
    cases fromIndex with
    | none =>
      unfold rescanLoop at run
      obtain ⟨rfl, rfl⟩ := Prod.mk.inj run
      exact ⟨none, .refl, trivial, by simp, by simp, by simp⟩
    | some bound =>
      unfold rescanLoop at run
      cases found : findActiveRescanPosition request.context s bound with
      | none =>
        rw [found] at run
        obtain ⟨rfl, rfl⟩ := Prod.mk.inj run
        refine ⟨some bound, .refl, trivial, by simp, fun _ other isBound => ?_, by simp⟩
        obtain rfl := Option.some.inj isBound
        exact found
      | some entry =>
        obtain ⟨index, address⟩ := entry
        rw [found] at run
        simp only at run
        have foundAimed : findActiveRescanPosition request.context (s.aim (some index))
            bound = some (index, address) := found
        have aim : ScanStep request ⟨.rescan (some bound), s⟩
            ⟨.rescan (some bound), s.aim (some index)⟩ := .aim found
        by_cases spent : request.budgetSpent (s.aim (some index)) = true
        · rw [if_pos spent] at run
          obtain ⟨rfl, rfl⟩ := Prod.mk.inj run
          exact ⟨some bound, .single aim, .inl spent, by simp, by simp,
            fun _ => ⟨bound, rfl, index, address, foundAimed, rfl⟩⟩
        rw [if_neg spent] at run
        cases stepped : runHdAddressStep request false address (s.aim (some index)) with
        | mk stepExit next =>
          rw [stepped] at run
          rcases runHdAddressStep_exit stepped with
            rfl | ⟨rfl, interrupts⟩ | ⟨⟨error, rfl⟩, rfl, fails⟩
          · have le := (findActiveRescanPosition_eq_some found).2.2.2.1
            have below := enough bound rfl
            obtain ⟨last, steps, rest⟩ := ih (by
              intro other isOther
              split at isOther
              · simp at isOther
              · obtain rfl := Option.some.inj isOther
                omega) run
            exact ⟨last, .head aim (.head (.revisit foundAimed stepped) steps), rest⟩
          · obtain ⟨rfl, rfl⟩ := Prod.mk.inj run
            refine ⟨some bound, .head aim (.single (.refail foundAimed stepped)),
              .inr interrupts, by simp, by simp, fun _ => ⟨bound, rfl, index, address, ?_⟩⟩
            rcases runHdAddressStep_spec stepped with
              ⟨_, _, impossible, _⟩ | ⟨_, _, _, ⟨_, _, rfl⟩ | ⟨_, impossible, _⟩⟩
            · simp at impossible
            · exact ⟨foundAimed, rfl⟩
            · simp at impossible
          · obtain ⟨rfl, rfl⟩ := Prod.mk.inj run
            exact ⟨some bound, .single aim, .inl fails, by simp, by simp, by simp⟩

end Rescan

/-! ## Whole runs -/

/-- Where a run starts. -/
def startConfig (request : HdChainScanRequest α) (frontier : Option HdAccountChainSyncState)
    (s : ScanState α) : ScanConfig α :=
  match frontier.getD (request.initialFrontier s) with
  | .existingAddresses next unused => ⟨.existing, s.resume next unused none⟩
  | .derivedAddresses next unused => ⟨.derived, s.resume next unused none⟩
  | .activeRescan next unused fromIndex =>
    ⟨.rescan (some fromIndex), s.resume next unused (some fromIndex)⟩

/-- How a run ends in the phase it has come to. -/
def EndsAs (request : HdChainScanRequest α) (s : ScanState α) :
    ScanPhase → HdChainScanOutcome → Prop
  | .rescan fromIndex, .completed =>
    ∀ bound ∈ fromIndex, findActiveRescanPosition request.context s bound = none
  | .existing, .interrupted frontier =>
    frontier = .existingAddresses s.nextIndexToScan s.consecutiveUnused ∧
      StopsFor request s .interrupted
  | .derived, .interrupted frontier =>
    frontier = .derivedAddresses s.nextIndexToScan s.consecutiveUnused ∧
      StopsFor request s .interrupted
  | .rescan fromIndex, .interrupted frontier =>
    (∃ bound ∈ fromIndex, ∃ index address,
      findActiveRescanPosition request.context s bound = some (index, address) ∧
        frontier = .activeRescan s.nextIndexToScan s.consecutiveUnused index) ∧
      StopsFor request s .interrupted
  | _, .aborted error => StopsFor request s (.aborted error)
  | _, .outOfFuel => True
  | _, .completed => False

theorem finishWithRescan_steps {outcome : HdChainScanOutcome}
    (run : finishWithRescan request s = (outcome, after)) :
    ∃ phase, ScanSteps request ⟨.rescan s.activeRescan, s⟩ ⟨phase, after⟩ ∧
      EndsAs request after phase outcome ∧ outcome ≠ .outOfFuel := by
  unfold finishWithRescan at run
  cases scanned : rescanLoop request (s.activeRescan.elim 0 (· + 1)) s.activeRescan s with
  | mk scanExit last =>
    obtain ⟨fromIndex, steps, stops, fueled, done, pending⟩ := rescanLoop_steps (by
      intro bound isBound
      rw [isBound]
      exact Nat.lt_succ_self bound) scanned
    rw [scanned] at run
    cases scanExit with
    | finished =>
      obtain ⟨rfl, rfl⟩ := Prod.mk.inj run
      exact ⟨_, steps, done rfl, by simp⟩
    | interrupted =>
      obtain ⟨bound, isBound, index, address, found, aimed⟩ := pending rfl
      simp only [rescanFrontier, aimed] at run
      obtain ⟨rfl, rfl⟩ := Prod.mk.inj run
      exact ⟨_, steps, ⟨⟨bound, isBound, index, address, found, rfl⟩, stops⟩, by simp⟩
    | aborted error =>
      obtain ⟨rfl, rfl⟩ := Prod.mk.inj run
      exact ⟨_, steps, stops, by simp⟩
    | outOfFuel => exact absurd rfl fueled

theorem finishWithDerived_steps {fuel : ℕ} {outcome : HdChainScanOutcome}
    (fresh : request.DerivesFresh) (order : InOrder request s)
    (run : finishWithDerived request fuel s = (outcome, after)) :
    ∃ phase, ScanSteps request ⟨.derived, s⟩ ⟨phase, after⟩ ∧
      EndsAs request after phase outcome ∧
      (outcome = .outOfFuel → fuel ≤ after.nextIndexToScan) := by
  unfold finishWithDerived at run
  cases scanned : derivedPhase request fuel s with
  | mk scanExit last =>
    obtain ⟨steps, stops, done, fueled⟩ := derivedPhase_steps fresh order scanned
    rw [scanned] at run
    cases scanExit with
    | finished =>
      obtain ⟨phase, rest, ends, outcomeFueled⟩ := finishWithRescan_steps run
      refine ⟨phase, steps.trans (.head (.startRescan (done rfl)) rest), ends, fun empty => ?_⟩
      exact absurd empty outcomeFueled
    | interrupted =>
      obtain ⟨rfl, rfl⟩ := Prod.mk.inj run
      exact ⟨_, steps, ⟨rfl, stops⟩, by simp⟩
    | aborted error =>
      obtain ⟨rfl, rfl⟩ := Prod.mk.inj run
      exact ⟨_, steps, stops, by simp⟩
    | outOfFuel =>
      obtain ⟨rfl, rfl⟩ := Prod.mk.inj run
      exact ⟨_, steps, trivial, fun _ => (Nat.le_add_left _ _).trans (fueled rfl)⟩

/-- **Every run follows the steps of a scan** from where its frontier puts it, and ends
completed only when no active address is left to rescan. -/
theorem runHdChainScan_steps {fuel : ℕ} {frontier : Option HdAccountChainSyncState}
    {outcome : HdChainScanOutcome} (fresh : request.DerivesFresh)
    (order : InOrder request (startConfig request frontier s).state)
    (run : runHdChainScan request fuel frontier s = (outcome, after)) :
    ∃ phase, ScanSteps request (startConfig request frontier s) ⟨phase, after⟩ ∧
      EndsAs request after phase outcome ∧
      (outcome = .outOfFuel → fuel ≤ after.nextIndexToScan) := by
  unfold runHdChainScan at run
  unfold startConfig at order ⊢
  cases start : frontier.getD (request.initialFrontier s) with
  | existingAddresses next unused =>
    rw [start] at run order
    simp only at run order ⊢
    cases scanned : existingLoop request
        (request.context.addressesFrom next (s.resume next unused none).addresses)
        (s.resume next unused none) with
    | mk scanExit last =>
      obtain ⟨steps, stops, fueled, done⟩ := existingLoop_steps order
        (chain_addressesFrom order.ascending) addressesFrom_subset scanned
      rw [scanned] at run
      cases scanExit with
      | finished =>
        have turn : ScanStep request ⟨.existing, last⟩ ⟨.derived, last.moveTo _⟩ :=
          .startDerived (done rfl)
        obtain ⟨phase, rest, ends⟩ := finishWithDerived_steps fresh
          (turn.inOrder fresh (ScanSteps.inOrder fresh steps order)) run
        exact ⟨phase, steps.trans (.head turn rest), ends⟩
      | interrupted =>
        obtain ⟨rfl, rfl⟩ := Prod.mk.inj run
        exact ⟨_, steps, ⟨rfl, stops⟩, by simp⟩
      | aborted error =>
        obtain ⟨rfl, rfl⟩ := Prod.mk.inj run
        exact ⟨_, steps, stops, by simp⟩
      | outOfFuel => exact absurd rfl fueled
  | derivedAddresses next unused =>
    rw [start] at run order
    exact finishWithDerived_steps fresh order run
  | activeRescan next unused fromIndex =>
    rw [start] at run order
    obtain ⟨phase, steps, ends, fueled⟩ := finishWithRescan_steps run
    exact ⟨phase, steps, ends, fun empty => absurd empty fueled⟩

end Runs

end Bitgarth.Sync
