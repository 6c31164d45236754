import Mathlib.Data.Finset.Basic
import Bitgarth.Foundation.GapCount
import Bitgarth.Sync.HdScanSteps

/-! # The count of unused addresses

The count stands for the addresses just below the index to scan. `ScanStep.sound` says that
every step of a scan keeps it so that each counted address was observed to be unused, when no
address without known activity is skipped on a failure cooldown.
-/

namespace Bitgarth.Sync

open GapCount

variable {α : Type} [DecidableEq α]

/-! ## Gate calls and entries -/

/-- A gate call skipped because a failure is recent. -/
def Visit.OnFailureCooldown (visit : Visit α) : Prop :=
  visit.outcome = .skipped .cooldown ∧ visit.lastResult = some .failure

instance (visit : Visit α) : Decidable visit.OnFailureCooldown :=
  inferInstanceAs (Decidable (_ ∧ _))

/-- Some iteration of the address succeeded. -/
def Succeeded (visits : List (Visit α)) (addressId : α) : Prop :=
  ∃ visit ∈ visits, visit.address.addressId = addressId ∧
    ∃ activity, visit.outcome = .synced activity

/-- Some iteration of the address succeeded and observed no activity. -/
def ObservedQuiet (visits : List (Visit α)) (addressId : α) : Prop :=
  ∃ visit ∈ visits, visit.address.addressId = addressId ∧ visit.outcome = .synced false

/-- The entries of greatest index. -/
def highest (count : ℕ) (entries : List (ℕ × SyncAddress α)) : List (ℕ × SyncAddress α) :=
  entries.reverse.take count

/-- The entries below an index. -/
def below (next : ℕ) (entries : List (ℕ × SyncAddress α)) : List (ℕ × SyncAddress α) :=
  entries.filter fun entry => entry.1 < next

/-! ## Entries below an index -/

section Below

omit [DecidableEq α]

variable {entries rest : List (ℕ × SyncAddress α)} {next index : ℕ} {address : SyncAddress α}

theorem below_append_filter (next : ℕ)
    (ascending : entries.Pairwise fun left right => left.1 < right.1) :
    below next entries ++ entries.filter (fun entry => next ≤ entry.1) = entries := by
  unfold below
  induction entries with
  | nil => rfl
  | cons entry others ih =>
    obtain ⟨above, othersAscending⟩ := List.pairwise_cons.mp ascending
    by_cases isBelow : entry.1 < next
    · rw [List.filter_cons_of_pos (by simpa using isBelow),
        List.filter_cons_of_neg (by simpa using isBelow), List.cons_append, ih othersAscending]
    · have none : (entry :: others).filter (fun entry => entry.1 < next) = [] := by
        rw [List.filter_eq_nil_iff]
        intro other member
        rcases List.mem_cons.mp member with rfl | later
        · simpa using isBelow
        · have larger := above other later
          simp only [decide_eq_true_eq]
          omega
      have all : (entry :: others).filter (fun entry => next ≤ entry.1) = entry :: others := by
        rw [List.filter_eq_self]
        intro other member
        rcases List.mem_cons.mp member with rfl | later
        · simpa using isBelow
        · have larger := above other later
          simp only [decide_eq_true_eq]
          omega
      rw [none, all, List.nil_append]

theorem below_of_first (ascending : entries.Pairwise fun left right => left.1 < right.1)
    (first : entries.filter (fun entry => next ≤ entry.1) = (index, address) :: rest) :
    below index entries = below next entries := by
  have member : (index, address) ∈ entries.filter (fun entry => next ≤ entry.1) := by
    rw [first]
    exact List.mem_cons_self
  have le : next ≤ index := by simpa using (List.mem_filter.mp member).2
  have sorted := ascending.filter fun entry => decide (next ≤ entry.1)
  rw [first] at sorted
  unfold below
  refine List.filter_congr fun entry inChain => ?_
  rw [decide_eq_decide]
  constructor
  · intro less
    by_contra notBelow
    have due : entry ∈ (index, address) :: rest := by
      rw [← first]
      exact List.mem_filter.mpr ⟨inChain, by simpa using notBelow⟩
    rcases List.mem_cons.mp due with rfl | later
    · exact lt_irrefl _ less
    · exact absurd less ((List.pairwise_cons.mp sorted).1 entry later).not_gt
  · intro less
    exact lt_of_lt_of_le less le

theorem below_succ_of_first (ascending : entries.Pairwise fun left right => left.1 < right.1)
    (first : entries.filter (fun entry => next ≤ entry.1) = (index, address) :: rest) :
    below (index + 1) entries = below next entries ++ [(index, address)] := by
  have split := below_append_filter next ascending
  have sorted := ascending.filter fun entry => decide (next ≤ entry.1)
  have member : (index, address) ∈ entries.filter (fun entry => next ≤ entry.1) := by
    rw [first]
    exact List.mem_cons_self
  have le : next ≤ index := by simpa using (List.mem_filter.mp member).2
  rw [first] at split sorted
  have lower : (below next entries).filter (fun entry => entry.1 < index + 1) =
      below next entries := by
    rw [List.filter_eq_self]
    intro entry isBelow
    have less := (List.mem_filter.mp isBelow).2
    simp only [decide_eq_true_eq] at less ⊢
    omega
  have upper : rest.filter (fun entry => entry.1 < index + 1) = [] := by
    rw [List.filter_eq_nil_iff]
    intro entry later
    have larger := (List.pairwise_cons.mp sorted).1 entry later
    simp only [decide_eq_true_eq] at larger ⊢
    omega
  have whole : below (index + 1) entries =
      (below next entries ++ (index, address) :: rest).filter
        (fun entry => entry.1 < index + 1) := by
    rw [split]
    rfl
  rw [whole, List.filter_append, lower, List.filter_cons_of_pos (by simp), upper]

theorem highest_concat (count : ℕ) (entry : ℕ × SyncAddress α) :
    highest (count + 1) (entries ++ [entry]) = entry :: highest count entries := by
  simp [highest]

theorem highest_subset {fewer more : ℕ} (le : fewer ≤ more) :
    highest fewer entries ⊆ highest more entries :=
  (List.take_sublist_take_left le).subset

end Below

/-! ## One gate call -/

/-- What a sound gate may do. -/
structure GateSound (request : HdChainScanRequest α) : Prop where
  skipped : ∀ {call address state after reason},
    request.gate call address state = .ok (after, .skipped reason) →
      reason = .cooldown ∧ state.lastResult = some .failure ∨ state.HasSucceeded
  succeeded : ∀ {call address state after outcome},
    request.gate call address state = .ok (after, outcome) → after.HasSucceeded →
      state.HasSucceeded ∨ ∃ activity, outcome = .synced activity

/-- The sync states and the known activity agree with the iterations. -/
structure Recorded (visits : List (Visit α)) (syncStates : α → AddressSyncState)
    (knownActivity : Finset α) : Prop where
  recorded : ∀ addressId, (syncStates addressId).HasSucceeded → Succeeded visits addressId
  found : ∀ visit ∈ visits, visit.outcome = .synced true →
    visit.address.addressId ∈ knownActivity

omit [DecidableEq α] in
theorem Succeeded.mono {visits more : List (Visit α)} {addressId : α}
    (succeeded : Succeeded visits addressId) (fewer : visits ⊆ more) :
    Succeeded more addressId := by
  obtain ⟨visit, member, rest⟩ := succeeded
  exact ⟨visit, fewer member, rest⟩

omit [DecidableEq α] in
theorem ObservedQuiet.mono {visits more : List (Visit α)} {addressId : α}
    (quiet : ObservedQuiet visits addressId) (fewer : visits ⊆ more) :
    ObservedQuiet more addressId := by
  obtain ⟨visit, member, rest⟩ := quiet
  exact ⟨visit, fewer member, rest⟩

theorem Recorded.visit {visits : List (Visit α)} {syncStates : α → AddressSyncState}
    {knownActivity more : Finset α} {state : AddressSyncState}
    (record : Recorded visits syncStates knownActivity) (visit : Visit α)
    (succeeded : state.HasSucceeded → (syncStates visit.address.addressId).HasSucceeded ∨
      ∃ activity, visit.outcome = .synced activity)
    (kept : knownActivity ⊆ more)
    (active : visit.outcome = .synced true → visit.address.addressId ∈ more) :
    Recorded (visits ++ [visit])
      (Function.update syncStates visit.address.addressId state) more := by
  constructor
  · intro addressId hasSucceeded
    by_cases same : addressId = visit.address.addressId
    · subst same
      rw [Function.update_self] at hasSucceeded
      rcases succeeded hasSucceeded with earlier | ⟨activity, now⟩
      · exact (record.recorded _ earlier).mono (List.subset_append_left _ _)
      · exact ⟨visit, by simp, rfl, activity, now⟩
    · rw [Function.update_of_ne same] at hasSucceeded
      exact (record.recorded _ hasSucceeded).mono (List.subset_append_left _ _)
  · intro other member isActive
    rcases List.mem_append.mp member with earlier | now
    · exact kept (record.found other earlier isActive)
    · obtain rfl := List.mem_singleton.mp now
      exact active isActive

section OneStep

variable {request : HdChainScanRequest α} {history : List (Visit α)} {counts : Bool}
  {address : SyncAddress α} {s after : ScanState α} {exit : ScanExit}

theorem runHdAddressStep_visits
    (step : runHdAddressStep request counts address s = (exit, after)) :
    s.visits ⊆ after.visits := by
  rcases runHdAddressStep_spec step with ⟨_, _, _, rfl⟩ | ⟨_, _, _, ⟨_, _, rfl⟩ | ⟨_, _, rfl⟩⟩
  · exact List.Subset.refl _
  · exact List.subset_append_left _ _
  · exact List.subset_append_left _ _

theorem runHdAddressStep_countedUnknown
    (step : runHdAddressStep request counts address s = (exit, after))
    (unknown : ∀ visit ∈ s.visits, visit.counted = true → visit.known = false) :
    ∀ visit ∈ after.visits, visit.counted = true → visit.known = false := by
  have grown : ∀ state outcome, ∀ visit ∈ (s.record counts address state outcome).visits,
      visit.counted = true → visit.known = false := by
    intro state outcome visit member isCounted
    rcases List.mem_append.mp member with earlier | now
    · exact unknown visit earlier isCounted
    · obtain rfl := List.mem_singleton.mp now
      simp only [ScanState.visitOf, Bool.and_eq_true, decide_eq_true_eq] at isCounted
      exact decide_eq_false isCounted.2
  rcases runHdAddressStep_spec step with
    ⟨_, _, _, rfl⟩ | ⟨state, outcome, _, ⟨_, _, rfl⟩ | ⟨_, _, rfl⟩⟩
  · exact unknown
  · exact grown state outcome
  · exact grown state outcome

theorem runHdAddressStep_known
    (step : runHdAddressStep request counts address s = (exit, after)) :
    s.knownActivity ⊆ after.knownActivity := by
  rcases runHdAddressStep_spec step with ⟨_, _, _, rfl⟩ | ⟨_, _, _, ⟨_, _, rfl⟩ | ⟨_, _, rfl⟩⟩
  · exact Finset.Subset.refl _
  · exact Finset.Subset.refl _
  · unfold ScanState.complete ScanState.record
    simp only
    split
    · exact Finset.subset_insert _ _
    · exact Finset.Subset.refl _

theorem runHdAddressStep_recorded (gate : GateSound request)
    (record : Recorded (history ++ s.visits) s.syncStates s.knownActivity)
    (step : runHdAddressStep request counts address s = (exit, after)) :
    Recorded (history ++ after.visits) after.syncStates after.knownActivity := by
  have kept := runHdAddressStep_known step
  rcases runHdAddressStep_spec step with
    ⟨_, _, _, rfl⟩ | ⟨state, outcome, gated, ⟨interrupted, _, rfl⟩ | ⟨_, _, rfl⟩⟩
  · exact record
  · have more := record.visit (s.visitOf counts address outcome) (gate.succeeded gated) kept
      (by rintro rfl; simp [GateOutcome.interrupted] at interrupted)
    rw [List.append_assoc] at more
    exact more
  · have more := record.visit (s.visitOf counts address outcome) (gate.succeeded gated) kept
      (by rintro rfl; simp [ScanState.complete, ScanState.visitOf, GateOutcome.hasActivity])
    rw [List.append_assoc] at more
    exact more

theorem runHdAddressStep_quiet (gate : GateSound request)
    (record : Recorded (history ++ s.visits) s.syncStates s.knownActivity)
    (step : runHdAddressStep request counts address s = (.finished, after))
    (noFailureSkip : ∀ visit ∈ after.visits, visit.OnFailureCooldown → visit.known = true)
    (unknown : address.addressId ∉ after.knownActivity) :
    after.knownActivity = s.knownActivity ∧
      ObservedQuiet (history ++ after.visits) address.addressId := by
  rcases runHdAddressStep_spec step with
    ⟨_, _, impossible, _⟩ | ⟨state, outcome, gated, ⟨_, impossible, _⟩ | ⟨completed, _, rfl⟩⟩
  · simp at impossible
  · simp at impossible
  · have inactive : outcome.hasActivity ≠ true := by
      intro active
      simp [ScanState.complete, active] at unknown
    have same : ((s.record counts address state outcome).complete counts address.addressId
        outcome.hasActivity).knownActivity = s.knownActivity := by
      simp [ScanState.complete, inactive, ScanState.record]
    rw [same] at unknown
    refine ⟨same, ?_⟩
    cases outcome with
    | rateLimited | failed => simp [GateOutcome.interrupted] at completed
    | synced activity =>
      cases activity with
      | true => exact absurd rfl inactive
      | false =>
        refine ⟨s.visitOf counts address (.synced false), ?_, rfl, rfl⟩
        exact List.mem_append_right _ (List.mem_append_right _ List.mem_cons_self)
    | skipped reason =>
      have notCooling : ¬ (reason = .cooldown ∧
          (s.syncStates address.addressId).lastResult = some .failure) := by
        rintro ⟨cooling, failed⟩
        have known := noFailureSkip (s.visitOf counts address (.skipped reason))
          (List.mem_append_right _ List.mem_cons_self) ⟨by rw [cooling]; rfl, failed⟩
        exact unknown (by simpa [ScanState.visitOf] using known)
      have earlier := (gate.skipped gated).resolve_left notCooling
      obtain ⟨visit, member, isAddress, activity, synced⟩ := record.recorded _ earlier
      cases activity with
      | true =>
        have known := record.found visit member synced
        rw [isAddress] at known
        exact absurd known unknown
      | false =>
        refine ⟨visit, ?_, isAddress, synced⟩
        rcases List.mem_append.mp member with old | new
        · exact List.mem_append_left _ old
        · exact List.mem_append_right _ (List.mem_append_left _ new)

theorem runHdAddressStep_unused
    (step : runHdAddressStep request true address s = (.finished, after)) :
    after.consecutiveUnused =
      if address.addressId ∈ after.knownActivity then 0 else s.consecutiveUnused + 1 := by
  rcases runHdAddressStep_spec step with
    ⟨_, _, impossible, _⟩ | ⟨_, _, _, ⟨_, impossible, _⟩ | ⟨_, _, rfl⟩⟩
  · simp at impossible
  · simp at impossible
  · rfl

theorem runHdAddressStep_interrupted
    (step : runHdAddressStep request counts address s = (.interrupted, after)) :
    after.consecutiveUnused = s.consecutiveUnused ∧ after.knownActivity = s.knownActivity := by
  rcases runHdAddressStep_spec step with
    ⟨_, _, impossible, _⟩ | ⟨_, _, _, ⟨_, _, rfl⟩ | ⟨_, impossible, _⟩⟩
  · simp at impossible
  · exact ⟨rfl, rfl⟩
  · simp at impossible

theorem runHdAddressStep_active (active : address.addressId ∈ s.knownActivity)
    (step : runHdAddressStep request false address s = (.finished, after)) :
    after.consecutiveUnused = s.consecutiveUnused ∧ after.knownActivity = s.knownActivity := by
  rcases runHdAddressStep_spec step with
    ⟨_, _, impossible, _⟩ | ⟨_, _, _, ⟨_, impossible, _⟩ | ⟨_, _, rfl⟩⟩
  · simp at impossible
  · simp at impossible
  · simp [ScanState.complete, ScanState.record, active]

end OneStep

/-! ## Sound scans -/

/-- The entry has known activity. -/
abbrev Known (knownActivity : Finset α) (entry : ℕ × SyncAddress α) : Prop :=
  entry.2.addressId ∈ knownActivity

/-- The phase has counted no further than its limit, and the rescan has counted up to it. -/
def PhaseSound (request : HdChainScanRequest α) (s : ScanState α) : ScanPhase → Prop
  | .existing => True
  | .derived => Within (Known s.knownActivity) request.gapLimit s.consecutiveUnused (request.due s)
  | .rescan _ => request.gapLimit ≤ s.consecutiveUnused ∧ request.due s = []

/-- Every counted address was observed to be quiet and has no known activity. -/
structure ScanSound (request : HdChainScanRequest α) (history : List (Visit α))
    (config : ScanConfig α) : Prop where
  order : InOrder request config.state
  record : Recorded (history ++ config.state.visits) config.state.syncStates
    config.state.knownActivity
  enough : config.state.consecutiveUnused ≤
    (below config.state.nextIndexToScan (request.context.chain config.state.addresses)).length
  counted : ∀ entry ∈ highest config.state.consecutiveUnused
      (below config.state.nextIndexToScan (request.context.chain config.state.addresses)),
    ObservedQuiet (history ++ config.state.visits) entry.2.addressId ∧
      entry.2.addressId ∉ config.state.knownActivity
  phase : PhaseSound request config.state config.phase

section Sound

variable {request : HdChainScanRequest α} {history : List (Visit α)}

omit [DecidableEq α] in
theorem append_subset_append {visits more : List (Visit α)} (fewer : visits ⊆ more) :
    history ++ visits ⊆ history ++ more :=
  List.append_subset.mpr
    ⟨List.subset_append_left _ _, List.subset_append_of_subset_right _ fewer⟩

theorem ScanStep.visits {before next : ScanConfig α} (step : ScanStep request before next) :
    before.state.visits ⊆ next.state.visits := by
  cases step with
  | visit _ _ step | fail _ _ step | revisit _ step | refail _ step =>
    have kept := runHdAddressStep_visits step
    exact kept
  | pass | locate | startDerived | derive | startRescan | aim => exact List.Subset.refl _

theorem ScanStep.known {before next : ScanConfig α} (step : ScanStep request before next) :
    before.state.knownActivity ⊆ next.state.knownActivity := by
  cases step with
  | visit _ _ step | fail _ _ step | revisit _ step | refail _ step =>
    have kept := runHdAddressStep_known step
    exact kept
  | pass | locate | startDerived | derive | startRescan | aim => exact Finset.Subset.refl _

theorem ScanStep.recorded (gate : GateSound request) {before next : ScanConfig α}
    (step : ScanStep request before next)
    (record : Recorded (history ++ before.state.visits) before.state.syncStates
      before.state.knownActivity) :
    Recorded (history ++ next.state.visits) next.state.syncStates next.state.knownActivity := by
  cases step with
  | visit _ _ step | fail _ _ step | revisit _ step | refail _ step =>
    have kept := runHdAddressStep_recorded gate record step
    exact kept
  | pass | locate | startDerived | startRescan | aim => exact record
  | @derive s generated _ _ _ =>
    refine ⟨fun addressId succeeded => record.recorded addressId ?_, record.found⟩
    unfold ScanState.push at succeeded
    simp only at succeeded
    split at succeeded
    · exact absurd succeeded not_hasSucceeded_fresh
    · exact succeeded

theorem below_push {s : ScanState α} {generated : List (DerivedSyncAddress α)} {count : ℕ}
    (order : InOrder request s) (nothing : request.due s = [])
    (indexes : generated.map DerivedSyncAddress.derivationIndex =
      List.range' (firstFreshIndex s.addresses) count)
    (change : ∀ address ∈ generated,
      address.derivationChange = request.context.derivationChange) {next : ℕ}
    (le : next ≤ s.nextIndexToScan) :
    below next (request.context.chain (s.push (generated.map request.context.listed)).addresses) =
      below next (request.context.chain s.addresses) := by
  obtain ⟨_, isDue⟩ := due_push order nothing indexes change
  have none : below next (request.context.chain (generated.map request.context.listed)) = [] := by
    unfold below
    rw [isDue, List.filter_eq_nil_iff]
    intro entry due
    have reached : s.nextIndexToScan ≤ entry.1 := of_decide_eq_true (List.mem_filter.mp due).2
    simp only [decide_eq_true_eq]
    omega
  unfold ScanState.push
  rw [chain_append]
  unfold below at none ⊢
  rw [List.filter_append, none, List.append_nil]

theorem ScanSound.visit (gate : GateSound request) {phase : ScanPhase} {s after : ScanState α}
    {index : ℕ} {address : SyncAddress α} {rest : List (ℕ × SyncAddress α)}
    (sound : ScanSound request history ⟨phase, s⟩) (counts : request.Counts s phase)
    (due : request.due s = (index, address) :: rest)
    (step : runHdAddressStep request true address s = (.finished, after))
    (noFailureSkip : ∀ visit ∈ after.visits, visit.OnFailureCooldown → visit.known = true) :
    ScanSound request history ⟨phase, after.moveTo (index + 1)⟩ := by
  have same := runHdAddressStep_addresses step
  have unused := runHdAddressStep_unused step
  have visits := runHdAddressStep_visits step
  have sameChain : request.context.chain (after.moveTo (index + 1)).addresses =
      request.context.chain s.addresses := congrArg _ same
  have grown : below (index + 1) (request.context.chain s.addresses) =
      below s.nextIndexToScan (request.context.chain s.addresses) ++ [(index, address)] :=
    below_succ_of_first sound.order.ascending due
  have record := runHdAddressStep_recorded gate sound.record step
  refine ⟨sound.order.advance due same le_rfl, record, ?_, ?_, ?_⟩
  · rw [sameChain]
    change after.consecutiveUnused ≤ (below (index + 1) _).length
    have enough : s.consecutiveUnused ≤ _ := sound.enough
    rw [grown, unused, List.length_append, List.length_singleton]
    split
    · exact Nat.zero_le _
    · exact Nat.succ_le_succ enough
  · rw [sameChain]
    change ∀ entry ∈ highest after.consecutiveUnused (below (index + 1) _), _
    rw [grown, unused]
    split
    · simp [highest]
    · rename_i unknown
      obtain ⟨sameKnown, quiet⟩ :=
        runHdAddressStep_quiet gate sound.record step noFailureSkip unknown
      rw [highest_concat]
      refine List.forall_mem_cons.mpr ⟨⟨quiet, unknown⟩, fun entry member => ?_⟩
      obtain ⟨earlier, notKnown⟩ := sound.counted entry member
      refine ⟨earlier.mono (append_subset_append visits), ?_⟩
      · change entry.2.addressId ∉ after.knownActivity
        rw [sameKnown]
        exact notKnown
  · cases phase with
    | existing => trivial
    | rescan _ => exact counts.elim
    | derived =>
      have within : Within (Known s.knownActivity) request.gapLimit s.consecutiveUnused
          (request.due s) := sound.phase
      rw [due] at within
      change Within (Known after.knownActivity) request.gapLimit after.consecutiveUnused _
      rw [due_advance sound.order due same, unused]
      exact within.2.mono (next_mono le_rfl fun active => runHdAddressStep_known step active)
        fun entry _ active => runHdAddressStep_known step active

omit [DecidableEq α] in
theorem due_moveTo {s after : ScanState α} {index : ℕ} {address : SyncAddress α}
    {rest : List (ℕ × SyncAddress α)} (order : InOrder request s)
    (due : request.due s = (index, address) :: rest) (same : after.addresses = s.addresses) :
    request.due (after.moveTo index) = request.due s := by
  have split := below_append_filter s.nextIndexToScan order.ascending
  have moved := below_append_filter index order.ascending
  rw [below_of_first order.ascending due] at moved
  have filtered := List.append_cancel_left (moved.trans split.symm)
  unfold HdChainScanRequest.due ScanState.moveTo
  rw [same]
  exact filtered

theorem ScanSound.stay {phase : ScanPhase} {s after : ScanState α}
    (sound : ScanSound request history ⟨phase, s⟩) (order : InOrder request after)
    (record : Recorded (history ++ after.visits) after.syncStates after.knownActivity)
    (sameBelow : below after.nextIndexToScan (request.context.chain after.addresses) =
      below s.nextIndexToScan (request.context.chain s.addresses))
    (unused : after.consecutiveUnused = s.consecutiveUnused)
    (known : after.knownActivity = s.knownActivity) (visits : s.visits ⊆ after.visits)
    {later : ScanPhase} (isSound : PhaseSound request after later) :
    ScanSound request history ⟨later, after⟩ := by
  refine ⟨order, record, ?_, ?_, isSound⟩
  · change after.consecutiveUnused ≤ _
    rw [sameBelow, unused]
    exact sound.enough
  · change ∀ entry ∈ highest after.consecutiveUnused _, _ ∧ _ ∉ after.knownActivity
    rw [sameBelow, unused, known]
    intro entry member
    obtain ⟨quiet, unknown⟩ := sound.counted entry member
    exact ⟨quiet.mono (append_subset_append visits), unknown⟩

theorem phaseSound_moveTo {phase : ScanPhase} {s after : ScanState α} {index : ℕ}
    {address : SyncAddress α} {rest : List (ℕ × SyncAddress α)}
    (sound : ScanSound request history ⟨phase, s⟩) (counts : request.Counts s phase)
    (due : request.due s = (index, address) :: rest) (same : after.addresses = s.addresses)
    (unused : after.consecutiveUnused = s.consecutiveUnused)
    (known : after.knownActivity = s.knownActivity) :
    PhaseSound request (after.moveTo index) phase := by
  cases phase with
  | existing => trivial
  | rescan _ => exact counts.elim
  | derived =>
    have within : Within (Known s.knownActivity) request.gapLimit s.consecutiveUnused
        (request.due s) := sound.phase
    change Within (Known after.knownActivity) request.gapLimit after.consecutiveUnused
      (request.due (after.moveTo index))
    rw [due_moveTo sound.order due same, unused, known]
    exact within

theorem ScanSound.again {fromIndex later : Option ℕ} {s after : ScanState α}
    (sound : ScanSound request history ⟨.rescan fromIndex, s⟩) (order : InOrder request after)
    (record : Recorded (history ++ after.visits) after.syncStates after.knownActivity)
    (same : after.addresses = s.addresses) (next : after.nextIndexToScan = s.nextIndexToScan)
    (unused : after.consecutiveUnused = s.consecutiveUnused)
    (known : after.knownActivity = s.knownActivity) (visits : s.visits ⊆ after.visits) :
    ScanSound request history ⟨.rescan later, after⟩ := by
  obtain ⟨reached, nothing⟩ := sound.phase
  refine sound.stay order record (by rw [same, next]) unused known visits ⟨?_, ?_⟩
  · rw [unused]
    exact reached
  · unfold HdChainScanRequest.due at nothing ⊢
    rw [same, next]
    exact nothing

omit [DecidableEq α] in
theorem toDerive_le (request : HdChainScanRequest α) (s : ScanState α) :
    request.toDerive s ≤ request.gapLimit - s.consecutiveUnused := by
  unfold HdChainScanRequest.toDerive
  cases request.maxAddresses with
  | none => exact le_rfl
  | some maximum => exact min_le_left _ _

theorem ScanStep.sound (fresh : request.DerivesFresh) (gate : GateSound request)
    {before next : ScanConfig α} (step : ScanStep request before next)
    (noFailureSkip : ∀ visit ∈ next.state.visits, visit.OnFailureCooldown → visit.known = true)
    (sound : ScanSound request history before) : ScanSound request history next := by
  have order := step.inOrder fresh sound.order
  have record := step.recorded gate sound.record
  cases step with
  | pass due _ => exact ⟨order, record, Nat.zero_le _, by simp [highest, ScanState.moveTo,
      ScanState.resetUnused], trivial⟩
  | visit counts due step => exact sound.visit gate counts due step noFailureSkip
  | @fail phase s after index address rest counts due step =>
    have same := runHdAddressStep_addresses step
    have visits := runHdAddressStep_visits step
    obtain ⟨unused, known⟩ := runHdAddressStep_interrupted step
    refine sound.stay order record ?_ unused known visits ?_
    · change below index (request.context.chain after.addresses) = _
      rw [same]
      exact below_of_first sound.order.ascending due
    · exact phaseSound_moveTo sound counts due same unused known
  | locate counts due =>
    refine sound.stay order record ?_ rfl rfl (List.Subset.refl _) ?_
    · exact below_of_first sound.order.ascending due
    · exact phaseSound_moveTo sound counts due rfl rfl rfl
  | @startDerived s nothing =>
    have whole : below s.nextIndexToScan (request.context.chain s.addresses) =
        request.context.chain s.addresses := by
      have split := below_append_filter s.nextIndexToScan sound.order.ascending
      unfold HdChainScanRequest.due at nothing
      rwa [nothing, List.append_nil] at split
    have reached : firstFreshIndex s.addresses ≤
        (maxDerivedIndex s.addresses).elim s.nextIndexToScan (· + 1) := by
      unfold firstFreshIndex
      cases maxDerivedIndex s.addresses with
      | none => exact Nat.zero_le _
      | some bound => exact le_rfl
    have under : ∀ entry ∈ request.context.chain s.addresses,
        entry.1 < (maxDerivedIndex s.addresses).elim s.nextIndexToScan (· + 1) := by
      rintro ⟨index, address⟩ member
      obtain ⟨listed, _, indexed⟩ := mem_chain.mp member
      exact lt_of_lt_of_le (lt_firstFreshIndex listed indexed) reached
    refine sound.stay order record ?_ rfl rfl (List.Subset.refl _) ?_
    · change below _ (request.context.chain s.addresses) = below s.nextIndexToScan _
      rw [whole]
      unfold below
      rw [List.filter_eq_self]
      exact fun entry member => decide_eq_true (under entry member)
    · have none : request.due (s.moveTo
          ((maxDerivedIndex s.addresses).elim s.nextIndexToScan (· + 1))) = [] := by
        unfold HdChainScanRequest.due
        rw [List.filter_eq_nil_iff]
        intro entry member isDue
        exact absurd (of_decide_eq_true isDue) (under entry member).not_ge
      unfold PhaseSound
      rw [none]
      trivial
  | @derive s generated counts nothing derived =>
    obtain ⟨indexes, change⟩ := fresh _ _ _ _ derived
    refine sound.stay order record (below_push sound.order nothing indexes change le_rfl) rfl rfl
      (List.Subset.refl _) ?_
    apply within_of_length
    rw [← (due_push sound.order nothing indexes change).2, chain_listed change, List.length_map,
      ← List.length_map (f := DerivedSyncAddress.derivationIndex), indexes, List.length_range']
    have le := toDerive_le request s
    change s.consecutiveUnused + request.toDerive s ≤ request.gapLimit
    omega
  | @startRescan s reached =>
    have within : Within (Known s.knownActivity) request.gapLimit s.consecutiveUnused
        (request.due s) := sound.phase
    exact sound.stay order record rfl rfl rfl (List.Subset.refl _)
      ⟨reached, within.eq_nil reached⟩
  | aim _ => exact sound.stay order record rfl rfl rfl (List.Subset.refl _) sound.phase
  | revisit found step =>
    obtain ⟨unused, known⟩ := runHdAddressStep_active
      (findActiveRescanPosition_eq_some found).2.1 step
    have visits := runHdAddressStep_visits step
    exact sound.again order record (runHdAddressStep_addresses step) (runHdAddressStep_next step)
      unused known visits
  | refail _ step =>
    obtain ⟨unused, known⟩ := runHdAddressStep_interrupted step
    have visits := runHdAddressStep_visits step
    exact sound.again order record (runHdAddressStep_addresses step) (runHdAddressStep_next step)
      unused known visits

theorem ScanStep.countedUnknown {before next : ScanConfig α} (step : ScanStep request before next)
    (unknown : ∀ visit ∈ before.state.visits, visit.counted = true → visit.known = false) :
    ∀ visit ∈ next.state.visits, visit.counted = true → visit.known = false := by
  cases step with
  | visit _ _ step | fail _ _ step | revisit _ step | refail _ step =>
    have kept := runHdAddressStep_countedUnknown step unknown
    exact kept
  | pass | locate | startDerived | derive | startRescan | aim => exact unknown

theorem ScanSteps.countedUnknown {before next : ScanConfig α}
    (steps : ScanSteps request before next)
    (unknown : ∀ visit ∈ before.state.visits, visit.counted = true → visit.known = false) :
    ∀ visit ∈ next.state.visits, visit.counted = true → visit.known = false := by
  induction steps with
  | refl => exact unknown
  | tail _ step ih => exact step.countedUnknown ih

theorem ScanSteps.sound (fresh : request.DerivesFresh) (gate : GateSound request)
    {before next : ScanConfig α} (steps : ScanSteps request before next)
    (noFailureSkip : ∀ visit ∈ next.state.visits, visit.OnFailureCooldown → visit.known = true)
    (sound : ScanSound request history before) : ScanSound request history next := by
  induction steps with
  | refl => exact sound
  | tail _ step ih =>
    exact step.sound fresh gate noFailureSkip
      (ih fun visit member => noFailureSkip visit (step.visits member))

end Sound

end Bitgarth.Sync
