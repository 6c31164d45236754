import Mathlib.Data.Finset.Insert
import Mathlib.Data.List.Basic
import Mathlib.Logic.Function.Basic
import Bitgarth.Sync.Gate

/-! # Scanning a chain of an HD account

A chain is scanned in three phases: the addresses already derived, then fresh addresses
until as many in a row are unused as the gap limit asks for, then the active addresses this
run has not completed. A run stops at its address budget or at an interrupted address and
leaves a frontier for the next run. The sync state of an address is kept under its id, as
the database keeps it.
-/

namespace Bitgarth.Sync

/-- The account and chain an address must belong to. -/
structure HdChainContext where
  accountId : String
  assetId : SyncedAssetId
  addressScheme : AddressScheme
  derivationChange : ℕ
deriving DecidableEq, Repr

structure DerivedSyncAddress (α : Type) where
  addressId : α
  derivationChange : ℕ
  derivationIndex : ℕ
deriving DecidableEq, Repr

inductive HdAccountChainSyncState where
  | existingAddresses (nextIndexToScan consecutiveUnused : ℕ)
  | derivedAddresses (nextIndexToScan consecutiveUnused : ℕ)
  | activeRescan (nextIndexToScan consecutiveUnused activeRescanFromIndex : ℕ)
deriving DecidableEq, Repr

inductive HdChainScanOutcome where
  | completed
  | interrupted (frontier : HdAccountChainSyncState)
  | aborted (error : SyncError)
  | outOfFuel
deriving DecidableEq, Repr

/-- A gate call: the result before it, whether the address had known activity then, what it
came to and whether it raised the count of unused addresses. -/
structure Visit (α : Type) where
  address : SyncAddress α
  lastResult : Option TransactionSyncResult
  known : Bool
  outcome : GateOutcome
  counted : Bool
deriving DecidableEq, Repr

/-- What a scan is run with; a missing budget is unlimited. -/
structure HdChainScanRequest (α : Type) where
  context : HdChainContext
  gapLimit : ℕ
  maxAddresses : Option ℕ
  historicalBackfillEnabled : Bool
  gate : ℕ → SyncAddress α → AddressSyncState → Except SyncError (AddressSyncState × GateOutcome)
  deriveNextAddresses : ℕ → List (SyncAddress α) → ℕ →
    Except SyncError (List (DerivedSyncAddress α))

/-- What a scan reads and writes. -/
structure ScanState (α : Type) where
  addresses : List (SyncAddress α)
  syncStates : α → AddressSyncState
  knownActivity : Finset α
  completedAddressIds : Finset α
  processedForAccount : ℕ
  calls : ℕ
  visits : List (Visit α)
  nextIndexToScan : ℕ
  consecutiveUnused : ℕ
  activeRescan : Option ℕ

/-- How a loop of a scan ends. -/
inductive ScanExit where
  | finished
  | interrupted
  | aborted (error : SyncError)
  | outOfFuel
deriving DecidableEq, Repr

def maxAddressesPerAccountPerRun : ℕ := 200

section Scan

variable {α : Type} [DecidableEq α]

/-! ## Addresses of the chain -/

/-- `address_matches_hd_context`. -/
def HdChainContext.covers (context : HdChainContext) (address : SyncAddress α) : Bool :=
  address.accountId = some context.accountId &&
    address.addressScheme = some context.addressScheme &&
    address.derivationChange = some context.derivationChange

/-- The matching addresses that have an index, with it. -/
def HdChainContext.chain (context : HdChainContext) (addresses : List (SyncAddress α)) :
    List (ℕ × SyncAddress α) :=
  addresses.filterMap fun address =>
    if context.covers address then address.derivationIndex.map (·, address) else none

def maxDerivedIndex (addresses : List (SyncAddress α)) : Option ℕ :=
  (addresses.filterMap SyncAddress.derivationIndex).max?

def nextUnfinishedDerivationIndex (context : HdChainContext) (addresses : List (SyncAddress α))
    (knownActivity : Finset α) : ℕ :=
  let unfinished := (addresses.find? fun address =>
    context.covers address && address.addressId ∉ knownActivity).bind SyncAddress.derivationIndex
  (unfinished.or ((maxDerivedIndex addresses).map (· + 1))).getD 0

/-- Whether an address is in the chain at an index or after it. -/
def HdChainContext.isAtOrAfter (context : HdChainContext) (nextIndexToScan : ℕ)
    (address : SyncAddress α) : Bool :=
  context.covers address && address.derivationIndex.any (nextIndexToScan ≤ ·)

/-- The addresses from the position that `find_address_position_at_or_after_index` finds; none
where it finds no position. -/
def HdChainContext.addressesFrom (context : HdChainContext) (nextIndexToScan : ℕ)
    (addresses : List (SyncAddress α)) : List (SyncAddress α) :=
  addresses.dropWhile fun address => !context.isAtOrAfter nextIndexToScan address

/-- The entry of greatest index, the last one of these. -/
def maxByIndex (entries : List (ℕ × SyncAddress α)) : Option (ℕ × SyncAddress α) :=
  entries.foldl (fun best entry =>
    match best with
    | none => some entry
    | some greatest => if greatest.1 ≤ entry.1 then some entry else some greatest) none

/-- `max_active_derivation_index`. -/
def maxActiveDerivationIndex (context : HdChainContext) (addresses : List (SyncAddress α))
    (knownActivity : Finset α) : Option ℕ :=
  (((context.chain addresses).filter fun entry => entry.2.addressId ∈ knownActivity).map
    Prod.fst).max?

/-- `find_active_rescan_position`. -/
def findActiveRescanPosition (context : HdChainContext) (s : ScanState α) (fromIndex : ℕ) :
    Option (ℕ × SyncAddress α) :=
  maxByIndex ((context.chain s.addresses).filter fun entry =>
    entry.2.addressId ∈ s.knownActivity && entry.2.addressId ∉ s.completedAddressIds &&
      entry.1 ≤ fromIndex)

/-! ## One address -/

/-- Set the index to scan next. -/
def ScanState.moveTo (s : ScanState α) (index : ℕ) : ScanState α :=
  { s with nextIndexToScan := index }

/-- Start counting unused addresses again. -/
def ScanState.resetUnused (s : ScanState α) : ScanState α :=
  { s with consecutiveUnused := 0 }

/-- Set the index the rescan resumes from. -/
def ScanState.aim (s : ScanState α) (fromIndex : Option ℕ) : ScanState α :=
  { s with activeRescan := fromIndex }

/-- Take up a frontier. -/
def ScanState.resume (s : ScanState α) (next unused : ℕ) (fromIndex : Option ℕ) : ScanState α :=
  { s with nextIndexToScan := next, consecutiveUnused := unused, activeRescan := fromIndex }

/-- The note of a gate call. -/
def ScanState.visitOf (s : ScanState α) (counts : Bool) (address : SyncAddress α)
    (outcome : GateOutcome) : Visit α where
  address
  lastResult := (s.syncStates address.addressId).lastResult
  known := decide (address.addressId ∈ s.knownActivity)
  outcome
  counted := counts && !outcome.interrupted && !outcome.hasActivity &&
    decide (address.addressId ∉ s.knownActivity)

/-- Note a gate call. -/
def ScanState.record (s : ScanState α) (counts : Bool) (address : SyncAddress α)
    (state : AddressSyncState) (outcome : GateOutcome) : ScanState α :=
  { s with
    syncStates := Function.update s.syncStates address.addressId state
    processedForAccount :=
      if outcome.attempted then s.processedForAccount + 1 else s.processedForAccount
    calls := s.calls + 1
    visits := s.visits ++ [s.visitOf counts address outcome] }

/-- Note an address that was not interrupted. -/
def ScanState.complete (s : ScanState α) (counts : Bool) (addressId : α) (hasActivity : Bool) :
    ScanState α :=
  let knownActivity := if hasActivity then insert addressId s.knownActivity else s.knownActivity
  { s with
    completedAddressIds := insert addressId s.completedAddressIds
    knownActivity
    consecutiveUnused :=
      if counts then
        if addressId ∈ knownActivity then 0 else s.consecutiveUnused + 1
      else
        s.consecutiveUnused }

/-- `run_hd_address_step`; the count of unused addresses is kept in the first two phases. -/
def runHdAddressStep (request : HdChainScanRequest α) (counts : Bool) (address : SyncAddress α)
    (s : ScanState α) : ScanExit × ScanState α :=
  match request.gate s.calls address (s.syncStates address.addressId) with
  | .error error => (.aborted error, s)
  | .ok (state, outcome) =>
    if outcome.interrupted then
      (.interrupted, s.record counts address state outcome)
    else
      (.finished,
        (s.record counts address state outcome).complete counts address.addressId
          outcome.hasActivity)

/-- Whether the address budget of the run is used up. -/
def HdChainScanRequest.budgetSpent (request : HdChainScanRequest α) (s : ScanState α) : Bool :=
  request.maxAddresses.any (· ≤ s.processedForAccount)

def missingIndex : SyncError :=
  .parse "HD address missing derivation index"

/-! ## The three phases -/

/-- The loop over the addresses already derived. -/
def existingLoop (request : HdChainScanRequest α) :
    List (SyncAddress α) → ScanState α → ScanExit × ScanState α
  | [], s => (.finished, s)
  | address :: rest, s =>
    if request.budgetSpent s then
      (.interrupted, s)
    else if request.context.covers address then
      match address.derivationIndex with
      | none => (.aborted missingIndex, s)
      | some index =>
        if request.historicalBackfillEnabled = true ∧ address.addressId ∈ s.knownActivity ∧
            address.addressId ∈ s.completedAddressIds then
          existingLoop request rest (s.resetUnused.moveTo (index + 1))
        else
          match runHdAddressStep request true address s with
          | (.finished, s) => existingLoop request rest (s.moveTo (index + 1))
          | (exit, s) => (exit, s.moveTo index)
    else
      existingLoop request rest s

/-- The two loops over derived addresses; resuming skips indexes below the frontier. -/
def derivedLoop (request : HdChainScanRequest α) (resuming : Bool) :
    List (SyncAddress α) → ScanState α → ScanExit × ScanState α
  | [], s => (.finished, s)
  | address :: rest, s =>
    if s.consecutiveUnused < request.gapLimit then
      if request.context.covers address then
        match address.derivationIndex with
        | none => (.aborted missingIndex, s)
        | some index =>
          if resuming = true ∧ index < s.nextIndexToScan then
            derivedLoop request resuming rest s
          else if request.budgetSpent s then
            (.interrupted, s.moveTo index)
          else
            match runHdAddressStep request true address s with
            | (.finished, s) =>
              derivedLoop request resuming rest (s.moveTo (index + 1))
            | (exit, s) => (exit, s.moveTo index)
      else
        derivedLoop request resuming rest s
    else
      (.finished, s)

/-- How many addresses to derive: what is missing to the gap limit, within the budget. -/
def HdChainScanRequest.toDerive (request : HdChainScanRequest α) (s : ScanState α) : ℕ :=
  let needed := request.gapLimit - s.consecutiveUnused
  match request.maxAddresses with
  | none => needed
  | some maximum => min needed (maximum - s.processedForAccount)

/-- A generated address as it is listed. -/
def HdChainContext.listed (context : HdChainContext) (generated : DerivedSyncAddress α) :
    SyncAddress α where
  addressId := generated.addressId
  assetId := context.assetId
  accountId := some context.accountId
  addressScheme := some context.addressScheme
  derivationChange := some generated.derivationChange
  derivationIndex := some generated.derivationIndex

/-- List generated addresses; none of them has been synced. -/
def ScanState.push (s : ScanState α) (generated : List (SyncAddress α)) : ScanState α :=
  { s with
    addresses := s.addresses ++ generated
    syncStates := fun addressId =>
      if addressId ∈ generated.map SyncAddress.addressId then .fresh else s.syncStates addressId
    calls := s.calls + 1 }

/-- The loop that derives and scans until the gap limit is reached. -/
def derivedPhase (request : HdChainScanRequest α) : ℕ → ScanState α → ScanExit × ScanState α
  | 0, s => (.outOfFuel, s)
  | fuel + 1, s =>
    if s.consecutiveUnused < request.gapLimit then
      match derivedLoop request true
          (request.context.addressesFrom s.nextIndexToScan s.addresses) s with
      | (.finished, s) =>
        if request.gapLimit ≤ s.consecutiveUnused then
          (.finished, s)
        else if request.budgetSpent s then
          (.interrupted, s)
        else
          match request.deriveNextAddresses s.calls s.addresses (request.toDerive s) with
          | .error error => (.aborted error, s)
          | .ok [] => (.finished, s)
          | .ok (first :: more) =>
            let generated := (first :: more).map request.context.listed
            match derivedLoop request false generated (s.push generated) with
            | (.finished, s) => derivedPhase request fuel s
            | (exit, s) => (exit, s)
      | (exit, s) => (exit, s)
    else
      (.finished, s)

/-- The loop over active addresses, from the greatest index down. -/
def rescanLoop (request : HdChainScanRequest α) :
    ℕ → Option ℕ → ScanState α → ScanExit × ScanState α
  | _, none, s => (.finished, s)
  | 0, some _, s => (.outOfFuel, s)
  | fuel + 1, some fromIndex, s =>
    match findActiveRescanPosition request.context s fromIndex with
    | none => (.finished, s)
    | some (index, address) =>
      let s := s.aim (some index)
      if request.budgetSpent s then
        (.interrupted, s)
      else
        match runHdAddressStep request false address s with
        | (.finished, s) =>
          rescanLoop request fuel (if index = 0 then none else some (index - 1)) s
        | (exit, s) => (exit, s)

/-! ## A run -/

/-- `default_hd_chain_frontier_state`, from the first index for a historical backfill. -/
def HdChainScanRequest.initialFrontier (request : HdChainScanRequest α) (s : ScanState α) :
    HdAccountChainSyncState :=
  if request.historicalBackfillEnabled then
    .existingAddresses 0 0
  else
    .existingAddresses
      (nextUnfinishedDerivationIndex request.context s.addresses s.knownActivity) 0

/-- `build_hd_chain_frontier_state` for the rescan, which fails without an index. -/
def rescanFrontier (s : ScanState α) : HdChainScanOutcome :=
  match s.activeRescan with
  | some fromIndex =>
    .interrupted (.activeRescan s.nextIndexToScan s.consecutiveUnused fromIndex)
  | none => .aborted (.parse "HD frontier missing active rescan resume index")

def finishWithRescan (request : HdChainScanRequest α) (s : ScanState α) :
    HdChainScanOutcome × ScanState α :=
  match rescanLoop request (s.activeRescan.elim 0 (· + 1)) s.activeRescan s with
  | (.finished, s) => (.completed, s)
  | (.interrupted, s) => (rescanFrontier s, s)
  | (.aborted error, s) => (.aborted error, s)
  | (.outOfFuel, s) => (.outOfFuel, s)

def finishWithDerived (request : HdChainScanRequest α) (fuel : ℕ) (s : ScanState α) :
    HdChainScanOutcome × ScanState α :=
  match derivedPhase request fuel s with
  | (.finished, s) =>
    finishWithRescan request
      (s.aim (maxActiveDerivationIndex request.context s.addresses s.knownActivity))
  | (.interrupted, s) =>
    (.interrupted (.derivedAddresses s.nextIndexToScan s.consecutiveUnused), s)
  | (.aborted error, s) => (.aborted error, s)
  | (.outOfFuel, s) => (.outOfFuel, s)

/-- `run_hd_chain_scan`; the fuel bounds the rounds of deriving. -/
def runHdChainScan (request : HdChainScanRequest α) (fuel : ℕ)
    (frontier : Option HdAccountChainSyncState) (s : ScanState α) :
    HdChainScanOutcome × ScanState α :=
  match frontier.getD (request.initialFrontier s) with
  | .existingAddresses next unused =>
    let s := s.resume next unused none
    match existingLoop request (request.context.addressesFrom next s.addresses) s with
    | (.finished, s) =>
      finishWithDerived request fuel
        (s.moveTo ((maxDerivedIndex s.addresses).elim s.nextIndexToScan (· + 1)))
    | (.interrupted, s) =>
      (.interrupted (.existingAddresses s.nextIndexToScan s.consecutiveUnused), s)
    | (.aborted error, s) => (.aborted error, s)
    | (.outOfFuel, s) => (.outOfFuel, s)
  | .derivedAddresses next unused =>
    finishWithDerived request fuel (s.resume next unused none)
  | .activeRescan next unused fromIndex =>
    finishWithRescan request (s.resume next unused (some fromIndex))

end Scan

end Bitgarth.Sync
