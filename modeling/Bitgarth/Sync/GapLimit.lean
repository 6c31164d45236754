import Bitgarth.Sync.UnusedCount

/-! # The gap limit of a chain over many runs

A scan that completes has counted as many unused addresses in a row as the gap limit. The
count is kept in the frontier over interrupted and aborted runs. `honoursGapLimit_of_soundRun`
says for which runs the addresses at the end of the chain were all observed to be unused.
-/

namespace Bitgarth.Sync

open GapCount

variable {α : Type} [DecidableEq α]

/-! ## Runs of a chain -/

/-- What is kept of a chain between runs, with all gate calls so far. -/
structure ChainStore (α : Type) where
  addresses : List (SyncAddress α)
  syncStates : α → AddressSyncState
  knownActivity : Finset α
  frontier : Option HdAccountChainSyncState
  visits : List (Visit α)

/-- What a run is given: the trigger, what it loads and what its surroundings answer. -/
structure ChainRun (α : Type) where
  source : TriggerSource
  historicalBackfillEnabled : Bool
  knownActivity : Finset α
  completedAddressIds : Finset α
  processedForAccount : ℕ
  answers : ℕ → SyncAddress α → GateAnswers
  deriveNextAddresses : ℕ → List (SyncAddress α) → ℕ →
    Except SyncError (List (DerivedSyncAddress α))
  fuel : ℕ

/-- The scan request of a run; its gate is `syncSingleAddressWithControls`. -/
def ChainRun.request (run : ChainRun α) (context : HdChainContext) (gapLimit : ℕ) :
    HdChainScanRequest α where
  context
  gapLimit
  maxAddresses := some maxAddressesPerAccountPerRun
  historicalBackfillEnabled := run.historicalBackfillEnabled
  gate := fun call address state => syncSingleAddressWithControls run.source
    (if run.historicalBackfillEnabled then .legacyRepair else .currentOnly)
    (run.answers call address) address state
  deriveNextAddresses := run.deriveNextAddresses

/-- What a run starts its scan with. -/
def ChainStore.load (store : ChainStore α) (run : ChainRun α) : ScanState α where
  addresses := store.addresses
  syncStates := store.syncStates
  knownActivity := run.knownActivity
  completedAddressIds := run.completedAddressIds
  processedForAccount := run.processedForAccount
  calls := 0
  visits := []
  nextIndexToScan := 0
  consecutiveUnused := 0
  activeRescan := none

/-- `persist_hd_chain_frontier_state`; a run that fails persists nothing. -/
def persistFrontier (stored : Option HdAccountChainSyncState) :
    HdChainScanOutcome → Option HdAccountChainSyncState
  | .completed => none
  | .interrupted frontier => some frontier
  | .aborted _ | .outOfFuel => stored

/-- What a scan leaves behind. -/
def ChainStore.settle (store : ChainStore α) (outcome : HdChainScanOutcome) (s : ScanState α) :
    ChainStore α where
  addresses := s.addresses
  syncStates := s.syncStates
  knownActivity := s.knownActivity
  frontier := persistFrontier store.frontier outcome
  visits := store.visits ++ s.visits

/-- The scan of a run. -/
def ChainStore.scan (store : ChainStore α) (context : HdChainContext) (gapLimit : ℕ)
    (run : ChainRun α) : HdChainScanOutcome × ScanState α :=
  runHdChainScan (run.request context gapLimit) run.fuel store.frontier (store.load run)

/-- The store after a run. -/
def ChainStore.afterRun (store : ChainStore α) (context : HdChainContext) (gapLimit : ℕ)
    (run : ChainRun α) : ChainStore α :=
  let (outcome, s) := store.scan context gapLimit run
  store.settle outcome s

/-- The store after a gate call that is not part of the scan. -/
def ChainStore.afterVisit (store : ChainStore α) (address : SyncAddress α)
    (state : AddressSyncState) (outcome : GateOutcome) : ChainStore α :=
  { store with
    syncStates := Function.update store.syncStates address.addressId state
    knownActivity :=
      if outcome.hasActivity then insert address.addressId store.knownActivity
      else store.knownActivity
    visits := store.visits ++
      [{ address
         lastResult := (store.syncStates address.addressId).lastResult
         known := decide (address.addressId ∈ store.knownActivity)
         outcome
         counted := false }] }

/-- The addresses a frontier has counted. -/
def HdAccountChainSyncState.counted (frontier : HdAccountChainSyncState)
    (entries : List (ℕ × SyncAddress α)) : List (ℕ × SyncAddress α) :=
  match frontier with
  | .existingAddresses next unused | .derivedAddresses next unused
  | .activeRescan next unused _ => highest unused (below next entries)

/-- A run that keeps the activity found before, skips no address on a failure cooldown unless
it has known activity, and learns of no activity at an address its frontier has counted. -/
structure SoundRun (context : HdChainContext) (gapLimit : ℕ) (store : ChainStore α)
    (run : ChainRun α) : Prop where
  keepsActivity : store.knownActivity ⊆ run.knownActivity
  noFailureSkip : ∀ visit ∈ (store.scan context gapLimit run).2.visits,
    visit.OnFailureCooldown → visit.known = true
  countedUnknown : ∀ frontier ∈ store.frontier,
    ∀ entry ∈ frontier.counted (context.chain store.addresses),
      entry.2.addressId ∉ run.knownActivity

/-- What the gap limit promises of a run: a scan that completes leaves as many addresses at
the end of the chain as it asks for, each without known activity and with a successful
iteration that observed none, and no address is counted because of a failure cooldown. -/
structure HonoursGapLimit (context : HdChainContext) (gapLimit : ℕ) (store : ChainStore α)
    (run : ChainRun α) : Prop where
  enough : (store.scan context gapLimit run).1 = .completed →
    gapLimit ≤ (context.chain (store.afterRun context gapLimit run).addresses).length
  quiet : (store.scan context gapLimit run).1 = .completed →
    ∀ entry ∈ highest gapLimit (context.chain (store.afterRun context gapLimit run).addresses),
      ObservedQuiet (store.afterRun context gapLimit run).visits entry.2.addressId ∧
        entry.2.addressId ∉ (store.afterRun context gapLimit run).knownActivity
  noCooldown : ∀ visit ∈ (store.scan context gapLimit run).2.visits,
    visit.counted = true → ¬ visit.OnFailureCooldown

/-- Stores reached by allowed runs and other gate calls. -/
inductive Reaches (context : HdChainContext) (gapLimit : ℕ)
    (allowed : ChainStore α → ChainRun α → Prop) (start : ChainStore α) : ChainStore α → Prop
  | start : Reaches context gapLimit allowed start start
  | run {store : ChainStore α} {run : ChainRun α}
      (reached : Reaches context gapLimit allowed start store)
      (fresh : (run.request context gapLimit).DerivesFresh) (isAllowed : allowed store run) :
      Reaches context gapLimit allowed start (store.afterRun context gapLimit run)
  | visit {store : ChainStore α} {source : TriggerSource} {policy : TransactionFetchPolicy}
      {answers : GateAnswers} {address : SyncAddress α} {state : AddressSyncState}
      {outcome : GateOutcome} (reached : Reaches context gapLimit allowed start store)
      (gated : syncSingleAddressWithControls source policy answers address
        (store.syncStates address.addressId) = .ok (state, outcome)) :
      Reaches context gapLimit allowed start (store.afterVisit address state outcome)

/-- Where runs start: a chain listed by index, no frontier, and a record of the iterations
that the sync states and the known activity come from. -/
structure Initial (context : HdChainContext) (store : ChainStore α) : Prop where
  ascending : (context.chain store.addresses).Pairwise fun left right => left.1 < right.1
  noFrontier : store.frontier = none
  recorded : ∀ addressId, (store.syncStates addressId).HasSucceeded →
    Succeeded store.visits addressId
  found : ∀ visit ∈ store.visits, visit.outcome = .synced true →
    visit.address.addressId ∈ store.knownActivity

omit [DecidableEq α] in
theorem ChainRun.gateSound (run : ChainRun α) (context : HdChainContext) (gapLimit : ℕ) :
    GateSound (run.request context gapLimit) where
  skipped := fun gated => (syncSingleAddressWithControls_skipped gated).2
  succeeded := fun gated => syncSingleAddressWithControls_hasSucceeded gated

/-! ## Frontiers over runs -/

/-- What a frontier has counted was observed to be quiet. -/
structure CountedQuiet (entries : List (ℕ × SyncAddress α)) (freshIndex : ℕ)
    (visits : List (Visit α)) (next unused : ℕ) : Prop where
  reached : next ≤ freshIndex
  enough : unused ≤ (below next entries).length
  quiet : ∀ entry ∈ highest unused (below next entries), ObservedQuiet visits entry.2.addressId

/-- A frontier to resume from: replaying what is due does not reach the limit early. -/
def FrontierSound (gapLimit : ℕ) (entries : List (ℕ × SyncAddress α)) (freshIndex : ℕ)
    (knownActivity : Finset α) (visits : List (Visit α)) : HdAccountChainSyncState → Prop
  | .existingAddresses next unused => CountedQuiet entries freshIndex visits next unused
  | .derivedAddresses next unused =>
    CountedQuiet entries freshIndex visits next unused ∧
      Within (Known knownActivity) gapLimit unused
        (entries.filter fun entry => next ≤ entry.1)
  | .activeRescan next unused _ =>
    CountedQuiet entries freshIndex visits next unused ∧ gapLimit ≤ unused ∧
      entries.filter (fun entry => next ≤ entry.1) = []

/-- How far a scan has come from the frontier it started from. -/
def Replays (request : HdChainScanRequest α) (config : ScanConfig α) :
    HdAccountChainSyncState → Prop
  | .existingAddresses next _ => next ≤ config.state.nextIndexToScan
  | .derivedAddresses next unused =>
    next ≤ config.state.nextIndexToScan ∧ config.phase ≠ .existing ∧
      after (Known config.state.knownActivity) unused
        ((below config.state.nextIndexToScan
          (request.context.chain config.state.addresses)).filter fun entry =>
            next ≤ entry.1) ≤ config.state.consecutiveUnused
  | .activeRescan _ _ _ => ∃ fromIndex, config.phase = .rescan fromIndex

/-- The stored frontier could be resumed from wherever the scan has come to. -/
structure StoredSound (request : HdChainScanRequest α) (history : List (Visit α))
    (frontier : HdAccountChainSyncState) (config : ScanConfig α) : Prop where
  sound : FrontierSound request.gapLimit (request.context.chain config.state.addresses)
    (firstFreshIndex config.state.addresses) config.state.knownActivity
    (history ++ config.state.visits) frontier
  replays : Replays request config frontier

section Stored

variable {request : HdChainScanRequest α} {history : List (Visit α)}

omit [DecidableEq α] in
theorem CountedQuiet.mono {entries more : List (ℕ × SyncAddress α)} {freshIndex later : ℕ}
    {visits visited : List (Visit α)} {next unused : ℕ}
    (counted : CountedQuiet entries freshIndex visits next unused) (le : freshIndex ≤ later)
    (same : below next more = below next entries) (fewer : visits ⊆ visited) :
    CountedQuiet more later visited next unused := by
  refine ⟨counted.reached.trans le, by rw [same]; exact counted.enough, ?_⟩
  rw [same]
  exact fun entry member => (counted.quiet entry member).mono fewer

theorem FrontierSound.mono {gapLimit freshIndex : ℕ} {entries : List (ℕ × SyncAddress α)}
    {knownActivity more : Finset α} {visits visited : List (Visit α)}
    {frontier : HdAccountChainSyncState}
    (sound : FrontierSound gapLimit entries freshIndex knownActivity visits frontier)
    (kept : knownActivity ⊆ more) (fewer : visits ⊆ visited) :
    FrontierSound gapLimit entries freshIndex more visited frontier := by
  cases frontier with
  | existingAddresses next unused => exact CountedQuiet.mono sound le_rfl rfl fewer
  | derivedAddresses next unused =>
    exact ⟨sound.1.mono le_rfl rfl fewer,
      sound.2.mono le_rfl fun entry _ active => kept active⟩
  | activeRescan next unused fromIndex => exact ⟨sound.1.mono le_rfl rfl fewer, sound.2⟩

theorem ScanStep.next_le {before next : ScanConfig α} (step : ScanStep request before next)
    (order : InOrder request before.state) :
    before.state.nextIndexToScan ≤ next.state.nextIndexToScan := by
  cases step with
  | pass due _ => exact (mem_of_due due).2.trans (Nat.le_succ _)
  | visit _ due _ => exact (mem_of_due due).2.trans (Nat.le_succ _)
  | fail _ due _ | locate _ due => exact (mem_of_due due).2
  | @startDerived s _ =>
    have reached := order.reached
    unfold firstFreshIndex at reached
    change s.nextIndexToScan ≤ (maxDerivedIndex s.addresses).elim s.nextIndexToScan (· + 1)
    cases greatest : maxDerivedIndex s.addresses with
    | none => exact le_rfl
    | some bound => rwa [greatest] at reached
  | derive | startRescan | aim => exact le_rfl
  | revisit _ step | refail _ step => exact (runHdAddressStep_next step).ge

theorem ScanStep.keepsBelow (fresh : request.DerivesFresh) {before next : ScanConfig α}
    (step : ScanStep request before next) (order : InOrder request before.state) {index : ℕ}
    (le : index ≤ before.state.nextIndexToScan) :
    below index (request.context.chain next.state.addresses) =
        below index (request.context.chain before.state.addresses) ∧
      firstFreshIndex before.state.addresses ≤ firstFreshIndex next.state.addresses := by
  cases step with
  | visit _ _ step | fail _ _ step | revisit _ step | refail _ step =>
    have same := runHdAddressStep_addresses step
    exact ⟨by simp only [ScanState.moveTo, same], by simp only [ScanState.moveTo, same, le_rfl]⟩
  | derive _ nothing derived =>
    obtain ⟨indexes, change⟩ := fresh _ _ _ _ derived
    exact ⟨below_push order nothing indexes change le,
      firstFreshIndex_mono (List.subset_append_left _ _)⟩
  | pass | locate | startDerived | startRescan | aim => exact ⟨rfl, le_rfl⟩

theorem ScanStep.addresses {before next : ScanConfig α} (step : ScanStep request before next) :
    next.state.addresses = before.state.addresses ∨
      before.phase = .derived ∧ next.phase = .derived ∧ request.due before.state = [] ∧
        before.state.consecutiveUnused < request.gapLimit ∧
        ∃ generated, request.deriveNextAddresses before.state.calls before.state.addresses
            (request.toDerive before.state) = .ok generated ∧
          next.state = before.state.push (generated.map request.context.listed) := by
  cases step with
  | visit _ _ step | fail _ _ step | revisit _ step | refail _ step =>
    have same := runHdAddressStep_addresses step
    exact .inl same
  | derive counts nothing derived => exact .inr ⟨rfl, rfl, nothing, counts, _, derived, rfl⟩
  | pass | locate | startDerived | startRescan | aim => exact .inl rfl

theorem ScanStep.replays {before next : ScanConfig α} (fresh : request.DerivesFresh)
    (step : ScanStep request before next) (order : InOrder request before.state) {first unused : ℕ}
    (le : first ≤ before.state.nextIndexToScan) (later : before.phase ≠ .existing)
    (replayed : after (Known before.state.knownActivity) unused
      ((below before.state.nextIndexToScan
        (request.context.chain before.state.addresses)).filter fun entry => first ≤ entry.1) ≤
      before.state.consecutiveUnused) :
    after (Known next.state.knownActivity) unused
      ((below next.state.nextIndexToScan
        (request.context.chain next.state.addresses)).filter fun entry => first ≤ entry.1) ≤
      next.state.consecutiveUnused := by
  have known := step.known
  have grown : after (Known next.state.knownActivity) unused
      ((below before.state.nextIndexToScan
        (request.context.chain before.state.addresses)).filter fun entry => first ≤ entry.1) ≤
      before.state.consecutiveUnused :=
    (after_mono le_rfl fun entry _ active => known active).trans replayed
  cases step with
  | pass => exact absurd rfl later
  | startDerived => exact absurd rfl later
  | @visit phase s visited index address rest _ due step =>
    have same := runHdAddressStep_addresses step
    have reached := (mem_of_due due).2
    have list : below (index + 1) (request.context.chain visited.addresses) =
        below s.nextIndexToScan (request.context.chain s.addresses) ++ [(index, address)] := by
      rw [same]
      exact below_succ_of_first order.ascending due
    change after (Known visited.knownActivity) unused
      ((below (index + 1) (request.context.chain visited.addresses)).filter _) ≤
        visited.consecutiveUnused
    rw [list, List.filter_append, List.filter_cons_of_pos (by simpa using le.trans reached),
      List.filter_nil, after_append, after_cons, after_nil, runHdAddressStep_unused step]
    exact next_mono grown fun active => active
  | @fail phase s visited index address rest _ due step =>
    have same := runHdAddressStep_addresses step
    have list : below index (request.context.chain visited.addresses) =
        below s.nextIndexToScan (request.context.chain s.addresses) := by
      rw [same]
      exact below_of_first order.ascending due
    change after (Known visited.knownActivity) unused
      ((below index (request.context.chain visited.addresses)).filter _) ≤
        visited.consecutiveUnused
    rw [list, (runHdAddressStep_interrupted step).1]
    exact grown
  | @locate phase s index address rest _ due =>
    change after (Known s.knownActivity) unused
      ((below index (request.context.chain s.addresses)).filter _) ≤ s.consecutiveUnused
    rw [below_of_first order.ascending due]
    exact grown
  | @derive s generated _ nothing derived =>
    obtain ⟨indexes, change⟩ := fresh _ _ _ _ derived
    change after (Known s.knownActivity) unused ((below s.nextIndexToScan
      (request.context.chain (s.push (generated.map request.context.listed)).addresses)).filter
        _) ≤ s.consecutiveUnused
    rw [below_push order nothing indexes change le_rfl]
    exact grown
  | startRescan | aim => exact grown
  | revisit found step =>
    have active := (findActiveRescanPosition_eq_some found).2.1
    simp only [runHdAddressStep_addresses step, runHdAddressStep_next step,
      (runHdAddressStep_active active step).1]
    exact grown
  | refail _ step =>
    simp only [runHdAddressStep_addresses step, runHdAddressStep_next step,
      (runHdAddressStep_interrupted step).1]
    exact grown

/-- A step stores a frontier that the scan could resume from. -/
theorem StoredSound.step {before next : ScanConfig α} (fresh : request.DerivesFresh)
    (step : ScanStep request before next) (order : InOrder request before.state)
    {frontier : HdAccountChainSyncState} (stored : StoredSound request history frontier before) :
    StoredSound request history frontier next := by
  have visits : history ++ before.state.visits ⊆ history ++ next.state.visits :=
    append_subset_append step.visits
  have known := step.known
  cases frontier with
  | existingAddresses first unused =>
    obtain ⟨same, le⟩ := step.keepsBelow fresh order stored.replays
    exact ⟨CountedQuiet.mono stored.sound le same visits, stored.replays.trans (step.next_le order)⟩
  | activeRescan first unused fromIndex =>
    obtain ⟨counted, reached, nothing⟩ := stored.sound
    obtain ⟨bound, isRescan⟩ := stored.replays
    have stays : next.state.addresses = before.state.addresses := by
      rcases step.addresses with same | ⟨isDerived, _⟩
      · exact same
      · rw [isRescan] at isDerived
        simp at isDerived
    refine ⟨⟨?_, reached, by rw [stays]; exact nothing⟩, ?_⟩
    · rw [stays]
      exact counted.mono le_rfl rfl visits
    · cases step with
      | aim | revisit | refail => exact ⟨_, rfl⟩
      | visit counts | fail counts | locate counts =>
        cases isRescan
        exact counts.elim
      | pass | startDerived | derive | startRescan => simp at isRescan
  | derivedAddresses first unused =>
    obtain ⟨counted, within⟩ := stored.sound
    obtain ⟨le, later, replayed⟩ := stored.replays
    obtain ⟨same, freshLe⟩ := step.keepsBelow fresh order le
    refine ⟨⟨counted.mono freshLe same visits, ?_⟩, le.trans (step.next_le order), ?_,
      step.replays fresh order le later replayed⟩
    · rcases step.addresses with stays | ⟨_, _, nothing, counts, generated, derived, pushed⟩
      · rw [stays]
        exact within.mono le_rfl fun entry _ active => known active
      · obtain ⟨indexes, change⟩ := fresh _ _ _ _ derived
        have listed := (due_push order nothing indexes change).2
        have all := below_append_filter before.state.nextIndexToScan order.ascending
        unfold HdChainScanRequest.due at nothing
        rw [nothing, List.append_nil] at all
        rw [all] at replayed
        have kept : (request.context.chain (generated.map request.context.listed)).filter
            (fun entry => first ≤ entry.1) =
              request.context.chain (generated.map request.context.listed) := by
          rw [List.filter_eq_self, listed]
          intro entry due
          have reached : before.state.nextIndexToScan ≤ entry.1 :=
            of_decide_eq_true (List.mem_filter.mp due).2
          exact decide_eq_true (le.trans reached)
        have room : before.state.consecutiveUnused +
            (request.context.chain (generated.map request.context.listed)).length ≤
              request.gapLimit := by
          have count := toDerive_le request before.state
          rw [chain_listed change, List.length_map,
            ← List.length_map (f := DerivedSyncAddress.derivationIndex), indexes,
            List.length_range']
          omega
        rw [pushed]
        unfold ScanState.push
        rw [chain_append, List.filter_append, kept]
        exact within.append ((within_of_length room).mono replayed fun _ _ active => active)
    · cases step with
      | pass | startDerived => exact absurd rfl later
      | visit | fail | locate => exact later
      | derive | startRescan | aim | revisit | refail => simp

theorem StoredSound.steps {before next : ScanConfig α} (fresh : request.DerivesFresh)
    (steps : ScanSteps request before next) (order : InOrder request before.state)
    {frontier : HdAccountChainSyncState} (stored : StoredSound request history frontier before) :
    StoredSound request history frontier next := by
  induction steps with
  | refl => exact stored
  | tail steps step ih => exact StoredSound.step fresh step (ScanSteps.inOrder fresh steps order) ih

end Stored

/-! ## Stores over runs -/

/-- The iterations are recorded and the frontier can be resumed. -/
structure SoundStore (context : HdChainContext) (gapLimit : ℕ) (store : ChainStore α) : Prop where
  ascending : (context.chain store.addresses).Pairwise fun left right => left.1 < right.1
  record : Recorded store.visits store.syncStates store.knownActivity
  frontier : ∀ frontier ∈ store.frontier,
    FrontierSound gapLimit (context.chain store.addresses) (firstFreshIndex store.addresses)
      store.knownActivity store.visits frontier

section Stores

variable {context : HdChainContext} {gapLimit : ℕ} {store : ChainStore α} {run : ChainRun α}

theorem nextUnfinishedDerivationIndex_le (addresses : List (SyncAddress α))
    (knownActivity : Finset α) :
    nextUnfinishedDerivationIndex context addresses knownActivity ≤ firstFreshIndex addresses := by
  unfold nextUnfinishedDerivationIndex
  simp only
  cases unfinished : addresses.find? fun address =>
      context.covers address && address.addressId ∉ knownActivity with
  | none =>
    unfold firstFreshIndex
    cases maxDerivedIndex addresses <;> simp
  | some address =>
    cases indexed : address.derivationIndex with
    | none =>
      unfold firstFreshIndex
      cases maxDerivedIndex addresses <;> simp [indexed]
    | some index =>
      have member := List.mem_of_find?_eq_some unfinished
      have below := lt_firstFreshIndex member indexed
      simpa [indexed] using below.le

theorem startConfig_none (request : HdChainScanRequest α) (s : ScanState α) :
    ∃ next ≤ firstFreshIndex s.addresses,
      startConfig request none s = ⟨.existing, s.resume next 0 none⟩ := by
  unfold startConfig HdChainScanRequest.initialFrontier
  rw [Option.getD_none]
  cases request.historicalBackfillEnabled with
  | true => exact ⟨0, Nat.zero_le _, rfl⟩
  | false => exact ⟨_, nextUnfinishedDerivationIndex_le _ _, rfl⟩

theorem SoundStore.start (sound : SoundStore context gapLimit store)
    (soundRun : SoundRun context gapLimit store run) :
    ScanSound (run.request context gapLimit) store.visits
        (startConfig (run.request context gapLimit) store.frontier (store.load run)) ∧
      ∀ frontier ∈ store.frontier,
        StoredSound (run.request context gapLimit) store.visits frontier
          (startConfig (run.request context gapLimit) store.frontier (store.load run)) := by
  have record : Recorded (store.visits ++ []) store.syncStates run.knownActivity := by
    rw [List.append_nil]
    exact ⟨sound.record.recorded, fun visit member active =>
      soundRun.keepsActivity (sound.record.found visit member active)⟩
  cases stored : store.frontier with
  | none =>
    obtain ⟨next, le, starts⟩ := startConfig_none (run.request context gapLimit) (store.load run)
    rw [starts]
    exact ⟨⟨⟨sound.ascending, le⟩, record, Nat.zero_le _, by simp [highest, ScanState.resume],
      trivial⟩, by simp⟩
  | some frontier =>
    have frontierSound := (sound.frontier frontier stored).mono soundRun.keepsActivity
      (List.subset_append_left store.visits [])
    have unknown := soundRun.countedUnknown frontier stored
    have only : ∀ other ∈ some frontier, other = frontier := fun _ isOther =>
      (Option.some.inj isOther).symm
    cases frontier with
    | existingAddresses next unused =>
      obtain ⟨reached, enough, quiet⟩ := frontierSound
      refine ⟨⟨⟨sound.ascending, reached⟩, record, enough,
        fun entry member => ⟨quiet entry member, unknown entry member⟩, trivial⟩, ?_⟩
      intro other isOther
      rw [only other isOther]
      exact ⟨⟨reached, enough, quiet⟩, le_rfl⟩
    | derivedAddresses next unused =>
      obtain ⟨⟨reached, enough, quiet⟩, within⟩ := frontierSound
      refine ⟨⟨⟨sound.ascending, reached⟩, record, enough,
        fun entry member => ⟨quiet entry member, unknown entry member⟩, within⟩, ?_⟩
      intro other isOther
      rw [only other isOther]
      refine ⟨⟨⟨reached, enough, quiet⟩, within⟩, le_rfl, by simp [startConfig], ?_⟩
      have none : ((below next (context.chain store.addresses)).filter
          fun entry => next ≤ entry.1) = [] := by
        rw [List.filter_eq_nil_iff]
        intro entry member
        have less : entry.1 < next := of_decide_eq_true (List.mem_filter.mp member).2
        simpa using less
      change after _ unused ((below next (context.chain store.addresses)).filter _) ≤ unused
      rw [none]
      exact le_rfl
    | activeRescan next unused fromIndex =>
      obtain ⟨⟨reached, enough, quiet⟩, limit, nothing⟩ := frontierSound
      refine ⟨⟨⟨sound.ascending, reached⟩, record, enough,
        fun entry member => ⟨quiet entry member, unknown entry member⟩, limit, nothing⟩, ?_⟩
      intro other isOther
      rw [only other isOther]
      exact ⟨⟨⟨reached, enough, quiet⟩, limit, nothing⟩, some fromIndex, rfl⟩

theorem SoundStore.afterRun (sound : SoundStore context gapLimit store)
    (soundRun : SoundRun context gapLimit store run)
    (fresh : (run.request context gapLimit).DerivesFresh) :
    SoundStore context gapLimit (store.afterRun context gapLimit run) ∧
      ((store.scan context gapLimit run).1 = .completed → ∃ phase,
        ScanSound (run.request context gapLimit) store.visits
            ⟨phase, (store.scan context gapLimit run).2⟩ ∧
          gapLimit ≤ (store.scan context gapLimit run).2.consecutiveUnused ∧
          (run.request context gapLimit).due (store.scan context gapLimit run).2 = []) := by
  obtain ⟨starts, resumable⟩ := sound.start soundRun
  have noFailureSkip := soundRun.noFailureSkip
  unfold ChainStore.afterRun
  cases scanned : store.scan context gapLimit run with
  | mk outcome s =>
    rw [scanned] at noFailureSkip
    obtain ⟨phase, steps, ends, _⟩ := runHdChainScan_steps fresh starts.order scanned
    have final := ScanSteps.sound fresh (run.gateSound context gapLimit) steps noFailureSkip starts
    have quiet : CountedQuiet (context.chain s.addresses) (firstFreshIndex s.addresses)
        (store.visits ++ s.visits) s.nextIndexToScan s.consecutiveUnused :=
      ⟨final.order.reached, final.enough, fun entry member => (final.counted entry member).1⟩
    refine ⟨⟨final.order.ascending, final.record, ?_⟩, fun completed => ?_⟩
    · intro frontier isStored
      have keeps : persistFrontier store.frontier outcome = store.frontier →
          FrontierSound gapLimit (context.chain s.addresses) (firstFreshIndex s.addresses)
            s.knownActivity (store.visits ++ s.visits) frontier := by
        intro kept
        have stored : frontier ∈ store.frontier := kept ▸ isStored
        exact (StoredSound.steps fresh steps starts.order (resumable frontier stored)).sound
      cases outcome with
      | completed => simp [ChainStore.settle, persistFrontier] at isStored
      | aborted error => exact keeps rfl
      | outOfFuel => exact keeps rfl
      | interrupted left =>
        obtain rfl : left = frontier := Option.some.inj isStored
        cases phase with
        | existing =>
          obtain ⟨rfl, _⟩ := ends
          exact quiet
        | derived =>
          obtain ⟨rfl, _⟩ := ends
          exact ⟨quiet, final.phase⟩
        | rescan fromIndex =>
          obtain ⟨⟨_, _, _, _, _, rfl⟩, _⟩ := ends
          exact ⟨quiet, final.phase⟩
    · obtain rfl : outcome = .completed := completed
      cases phase with
      | existing | derived => exact ends.elim
      | rescan fromIndex => exact ⟨_, final, final.phase⟩

theorem ChainStore.scan_countedUnknown (order : InOrder (run.request context gapLimit)
      (startConfig (run.request context gapLimit) store.frontier (store.load run)).state)
    (fresh : (run.request context gapLimit).DerivesFresh) :
    ∀ visit ∈ (store.scan context gapLimit run).2.visits,
      visit.counted = true → visit.known = false := by
  obtain ⟨phase, steps, _⟩ := runHdChainScan_steps fresh order
    (Prod.mk.eta : ((store.scan context gapLimit run).1, (store.scan context gapLimit run).2) =
      store.scan context gapLimit run).symm
  apply ScanSteps.countedUnknown steps
  intro visit member
  have none : (startConfig (run.request context gapLimit) store.frontier
      (store.load run)).state.visits = [] := by
    unfold startConfig
    split <;> rfl
  rw [none] at member
  exact absurd member List.not_mem_nil

theorem SoundStore.afterVisit (sound : SoundStore context gapLimit store)
    {source : TriggerSource} {policy : TransactionFetchPolicy} {answers : GateAnswers}
    {address : SyncAddress α} {state : AddressSyncState} {outcome : GateOutcome}
    (gated : syncSingleAddressWithControls source policy answers address
      (store.syncStates address.addressId) = .ok (state, outcome)) :
    SoundStore context gapLimit (store.afterVisit address state outcome) := by
  have kept : store.knownActivity ⊆ (store.afterVisit address state outcome).knownActivity := by
    unfold ChainStore.afterVisit
    simp only
    split
    · exact Finset.subset_insert _ _
    · exact Finset.Subset.refl _
  refine ⟨sound.ascending, ?_, fun frontier stored => ?_⟩
  · apply sound.record.visit _ (fun succeeded =>
      syncSingleAddressWithControls_hasSucceeded gated succeeded) kept
    intro isActive
    obtain rfl : outcome = .synced true := isActive
    exact Finset.mem_insert_self _ _
  · exact (sound.frontier frontier stored).mono kept (List.subset_append_left _ _)

theorem Reaches.sound {start : ChainStore α} (initial : Initial context start)
    (reached : Reaches context gapLimit (SoundRun context gapLimit) start store) :
    SoundStore context gapLimit store := by
  induction reached with
  | start =>
    exact ⟨initial.ascending, ⟨initial.recorded, initial.found⟩, by simp [initial.noFrontier]⟩
  | run _ fresh isAllowed ih => exact (ih.afterRun isAllowed fresh).1
  | visit _ gated ih => exact ih.afterVisit gated

/-- **The gap limit.** In every history of runs that keep the activity found, skip no unknown
address on a failure cooldown and learn of no activity at a counted address, every further such
run honours the gap limit. -/
theorem honoursGapLimit_of_soundRun {start : ChainStore α} (initial : Initial context start)
    (reached : Reaches context gapLimit (SoundRun context gapLimit) start store)
    (fresh : (run.request context gapLimit).DerivesFresh)
    (soundRun : SoundRun context gapLimit store run) :
    HonoursGapLimit context gapLimit store run := by
  have sound := reached.sound initial
  have tail : (store.scan context gapLimit run).1 = .completed →
      gapLimit ≤ (context.chain (store.afterRun context gapLimit run).addresses).length ∧
        ∀ entry ∈ highest gapLimit
            (context.chain (store.afterRun context gapLimit run).addresses),
          ObservedQuiet (store.afterRun context gapLimit run).visits entry.2.addressId ∧
            entry.2.addressId ∉ (store.afterRun context gapLimit run).knownActivity := by
    intro completed
    obtain ⟨phase, final, limit, nothing⟩ := (sound.afterRun soundRun fresh).2 completed
    have all := below_append_filter
      (store.scan context gapLimit run).2.nextIndexToScan final.order.ascending
    unfold HdChainScanRequest.due at nothing
    rw [nothing, List.append_nil] at all
    have enough := final.enough
    have counted := final.counted
    rw [all] at enough counted
    exact ⟨limit.trans enough, fun entry member => counted entry (highest_subset limit member)⟩
  refine ⟨fun completed => (tail completed).1, fun completed => (tail completed).2, ?_⟩
  intro visit member isCounted cooling
  have starts := (sound.start soundRun).1
  have unknown := store.scan_countedUnknown starts.order fresh visit member isCounted
  rw [soundRun.noFailureSkip visit member cooling] at unknown
  simp at unknown

end Stores

/-! ## A failure on cooldown -/

/-- The external chain of a Bitcoin account. -/
def externalChain : HdChainContext where
  accountId := "account"
  assetId := .bitcoin
  addressScheme := .nativeSegwit
  derivationChange := 0

/-- A chain of which nothing is known. -/
def emptyChain : ChainStore ℕ where
  addresses := []
  syncStates := fun _ => .fresh
  knownActivity := ∅
  frontier := none
  visits := []

/-- Each address is known by its index. -/
def deriveByIndex (_ : ℕ) (addresses : List (SyncAddress ℕ)) (count : ℕ) :
    Except SyncError (List (DerivedSyncAddress ℕ)) :=
  .ok ((List.range' (firstFreshIndex addresses) count).map fun index =>
    { addressId := index, derivationChange := 0, derivationIndex := index })

/-- A scheduled run at an instant. -/
def scheduledRun (now : ℤ) (execution : Except SyncError SyncIterationResult) : ChainRun ℕ where
  source := .schedule
  historicalBackfillEnabled := false
  knownActivity := ∅
  completedAddressIds := ∅
  processedForAccount := 0
  answers := fun _ _ =>
    { storedCount := .ok 0
      now
      rateLimited := false
      currentTip := .ok 800000
      hasPendingTxs := false
      started := .ok ()
      execution
      backfill := AddressSyncState.fresh.backfill
      coverageInvalidation := .ok ()
      failedAt := now }
  deriveNextAddresses := deriveByIndex
  fuel := 2

/-- The provider does not answer. -/
def failingRun : ChainRun ℕ := scheduledRun 0 (.error (.request "timed out"))

/-- Ten seconds in, the provider reports an unused address. -/
def quietRun : ChainRun ℕ :=
  scheduledRun (10 * nanosecondsPerSecond)
    (.ok
      { observedActivity := false
        newTxCount := 0
        updatedTxCount := 0
        apiConfirmedBalance := some 0
        completedAt := 10 * nanosecondsPerSecond
        tipHeight := 800000 })

theorem scheduledRun_derivesFresh (now : ℤ) (execution : Except SyncError SyncIterationResult)
    (gapLimit : ℕ) :
    ((scheduledRun now execution).request externalChain gapLimit).DerivesFresh := by
  intro call addresses count generated derived
  obtain rfl := Except.ok.inj derived
  refine ⟨by simp [Function.comp_def], fun address member => ?_⟩
  obtain ⟨index, _, rfl⟩ := List.mem_map.mp member
  rfl

theorem emptyChain_initial : Initial externalChain emptyChain where
  ascending := .nil
  noFrontier := rfl
  recorded := fun _ succeeded => absurd succeeded not_hasSucceeded_fresh
  found := fun _ member => absurd member List.not_mem_nil

theorem honoursGapLimit_quietRun : HonoursGapLimit externalChain 1 emptyChain quietRun :=
  honoursGapLimit_of_soundRun emptyChain_initial .start (scheduledRun_derivesFresh _ _ _)
    { keepsActivity := Finset.Subset.refl _
      noFailureSkip := by decide +kernel
      countedUnknown := by simp [emptyChain] }

/-- The address whose sync failed is skipped on its cooldown and counted as unused: the scan
completes without a successful iteration. -/
theorem not_honoursGapLimit_afterFailure :
    ¬ ∀ (context : HdChainContext) (gapLimit : ℕ) (start store : ChainStore ℕ) (run : ChainRun ℕ),
      0 < gapLimit → Initial context start →
        Reaches context gapLimit (fun _ _ => True) start store →
        (run.request context gapLimit).DerivesFresh →
          HonoursGapLimit context gapLimit store run := by
  intro honours
  have failed : Reaches externalChain 1 (fun _ _ => True) emptyChain
      (emptyChain.afterRun externalChain 1 failingRun) :=
    .run .start (scheduledRun_derivesFresh _ _ _) trivial
  have honoured := honours externalChain 1 emptyChain _ quietRun Nat.one_pos emptyChain_initial
    failed (scheduledRun_derivesFresh _ _ _)
  have completes : ((emptyChain.afterRun externalChain 1 failingRun).scan externalChain 1
      quietRun).1 = .completed := by decide +kernel
  have quiet := honoured.quiet completes
  have unsynced : ¬ ∀ entry ∈ highest 1 (externalChain.chain
      ((emptyChain.afterRun externalChain 1 failingRun).afterRun externalChain 1
        quietRun).addresses),
      ∃ visit ∈ ((emptyChain.afterRun externalChain 1 failingRun).afterRun externalChain 1
          quietRun).visits,
        visit.address.addressId = entry.2.addressId ∧ visit.outcome = .synced false := by
    decide +kernel
  exact unsynced fun entry member => (quiet entry member).1

end Bitgarth.Sync
