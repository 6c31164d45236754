import Bitgarth.Ledger.BitcoinBalances
import Bitgarth.Store.AccountLedgerBuild

/-! # The balance basis of a Bitcoin account with incomplete history

What the addresses of an account hold according to the provider, less what the
confirmed entries changed, is the balance before the first entry. `ClosesOn` states
what closing balances settled from that basis are.
-/

namespace Bitgarth.Store

open Amounts Ledger Fallible RowSelection

/-- The confirmed balance the provider last reported for an address, if any. -/
structure AddressApiConfirmedBalanceRow where
  addressId : String
  apiConfirmedBalance : Option UnsignedAmount
deriving DecidableEq, Repr

/-- The loop of `sum_complete_api_confirmed_balance`. -/
def sumApiBalances (total : UnsignedAmount) :
    List AddressApiConfirmedBalanceRow → Except DbError (Option UnsignedAmount)
  | [] => .ok (some total)
  | row :: rest =>
    match row.apiConfirmedBalance with
    | none => .ok none
    | some balance => do
        let total ← addAmount total balance "authoritative_api_confirmed_balance_total"
        sumApiBalances total rest

/-- `sum_complete_api_confirmed_balance`: nothing unless every address has a balance. -/
def sumCompleteApiConfirmedBalance (apiBalances : List AddressApiConfirmedBalanceRow) :
    Except DbError (Option UnsignedAmount) :=
  if apiBalances.isEmpty then .ok none else sumApiBalances .zero apiBalances

/-- The deltas of the entries, added with overflow checks. -/
def sumDeltas (total : ℤ) : List LedgerBuildEntry → Except DbError ℤ
  | [] => .ok total
  | entry :: rest =>
    match checkedAdd total entry.balanceDelta with
    | none => .error ⟨"Signed overflow while summing confirmed ledger balance deltas"⟩
    | some total => sumDeltas total rest

/-- `sum_confirmed_balance_deltas`. -/
def sumConfirmedBalanceDeltas (entries : List LedgerBuildEntry) : Except DbError ℤ :=
  sumDeltas 0 (entries.filter fun entry => entry.status = .confirmed)

/-- `compute_incomplete_bitcoin_basis_from_inputs`. -/
def computeIncompleteBitcoinBasisFromInputs (apiBalances : List AddressApiConfirmedBalanceRow)
    (entries : List LedgerBuildEntry) : Except DbError NativeBalanceState := do
  let some authoritativeTotal ← sumCompleteApiConfirmedBalance apiBalances | return .unknown
  let confirmedDeltaTotal ← sumConfirmedBalanceDeltas entries
  let authoritativeSigned ←
    toSignedAmount authoritativeTotal "authoritative_api_confirmed_balance_total"
  match checkedSub authoritativeSigned confirmedDeltaTotal with
  | none => .error ⟨"Signed underflow while computing synthetic Bitcoin balance basis"⟩
  | some opening =>
    if opening < 0 then
      return .unknown
    else
      match UnsignedAmount.tryFromSigned opening with
      | none => .error ⟨"Synthetic Bitcoin balance basis exceeded u128 range"⟩
      | some amount => return .knownAmount amount

/-! ## What the basis is -/

theorem sumApiBalances_eq_some {total sum : UnsignedAmount}
    {apiBalances : List AddressApiConfirmedBalanceRow}
    (summed : sumApiBalances total apiBalances = .ok (some sum)) :
    ∃ amounts : List UnsignedAmount,
      apiBalances.map (·.apiConfirmedBalance) = amounts.map some ∧
        sum.value = total.value + (amounts.map (·.value)).sum := by
  induction apiBalances generalizing total with
  | nil =>
    simp only [sumApiBalances, Except.ok.injEq, Option.some.injEq] at summed
    subst summed
    exact ⟨[], rfl, by simp⟩
  | cons row rest ih =>
    unfold sumApiBalances at summed
    cases reported : row.apiConfirmedBalance with
    | none => simp [reported] at summed
    | some balance =>
      simp only [reported] at summed
      obtain ⟨next, added, summed⟩ := bind_eq_ok.mp summed
      obtain ⟨amounts, complete, value⟩ := ih summed
      refine ⟨balance :: amounts, by simp [reported, complete], ?_⟩
      rw [value, addAmount_eq_ok.mp added, List.map_cons, List.sum_cons, Nat.add_assoc]

theorem sumDeltas_eq_ok {total sum : ℤ} {entries : List LedgerBuildEntry}
    (summed : sumDeltas total entries = .ok sum) :
    sum = total + (entries.map (·.balanceDelta)).sum := by
  induction entries generalizing total with
  | nil =>
    simp only [sumDeltas, Except.ok.injEq] at summed
    simp [summed]
  | cons entry rest ih =>
    unfold sumDeltas at summed
    cases added : checkedAdd total entry.balanceDelta with
    | none => simp [added] at summed
    | some next =>
      simp only [added] at summed
      rw [ih summed, (checkedAdd_eq_some.mp added).1, List.map_cons, List.sum_cons, add_assoc]

/-- **What a known basis is.** Every row has a balance, and the basis is their sum less
the confirmed deltas. -/
theorem basis_eq_sum_sub_deltas {apiBalances : List AddressApiConfirmedBalanceRow}
    {entries : List LedgerBuildEntry} {basis : UnsignedAmount}
    (computed :
      computeIncompleteBitcoinBasisFromInputs apiBalances entries = .ok (.knownAmount basis)) :
    ∃ amounts : List UnsignedAmount,
      apiBalances.map (·.apiConfirmedBalance) = amounts.map some ∧
        (basis.value : ℤ) = ((amounts.map (·.value)).sum : ℕ) -
          ((entries.filter fun entry => entry.status = .confirmed).map (·.balanceDelta)).sum := by
  obtain ⟨summed, total, computed⟩ := bind_eq_ok.mp computed
  cases summed with
  | none => simp [pure_eq_ok] at computed
  | some authoritative =>
    obtain ⟨deltas, deltasSummed, computed⟩ := bind_eq_ok.mp computed
    obtain ⟨signed, converted, computed⟩ := bind_eq_ok.mp computed
    cases subtracted : checkedSub signed deltas with
    | none => simp [subtracted] at computed
    | some opening =>
      simp only [subtracted] at computed
      split at computed
      · simp [pure_eq_ok] at computed
      cases amount : UnsignedAmount.tryFromSigned opening with
      | none => simp [amount] at computed
      | some found =>
        simp only [amount, pure_eq_ok, NativeBalanceState.knownAmount.injEq] at computed
        subst computed
        unfold sumCompleteApiConfirmedBalance at total
        split at total
        · simp at total
        obtain ⟨amounts, complete, value⟩ := sumApiBalances_eq_some total
        refine ⟨amounts, complete, ?_⟩
        have deltasEq := sumDeltas_eq_ok deltasSummed
        rw [UnsignedAmount.tryFromSigned_eq_some.mp amount,
          (checkedSub_eq_some.mp subtracted).1, (toSignedAmount_eq_ok.mp converted).1,
          value, deltasEq, UnsignedAmount.zero_value, Nat.zero_add, zero_add]

/-! ## Closing balances settled from the basis -/

/-- The closing balance at a position. -/
def closingAt (written : List LedgerBuildEntry) (index : ℕ) : Option UnsignedAmount :=
  written[index]?.bind LedgerBuildEntry.closingBalance

/-- Along the dependency order closing balances start from the basis, each adds the delta of
its entry, and the last is the authoritative total; entries without a settled place have none. -/
structure ClosesOn (ordered : List IndexedEntry) (basis total : ℤ)
    (written : List LedgerBuildEntry) : Prop where
  first : ∀ first back, ordered = first :: back → ∃ closing,
    closingAt written first.2 = some closing ∧
      (closing.value : ℤ) = basis + first.1.balanceDelta
  next : ∀ front earlier later back, ordered = front ++ earlier :: later :: back →
    ∃ before after, closingAt written earlier.2 = some before ∧
      closingAt written later.2 = some after ∧
      (after.value : ℤ) = before.value + later.1.balanceDelta
  last : ∀ front last, ordered = front ++ [last] → ∃ closing,
    closingAt written last.2 = some closing ∧ (closing.value : ℤ) = total
  unsettled : ∀ row ∈ written, row.status = .pending ∨ row.status = .dropped →
    row.closingBalance = none

section Closings

variable {entries written : List LedgerBuildEntry} {basis : NativeBalanceState}
  {amount : UnsignedAmount}

theorem closingAt_ordered (distinct : (entries.map (·.txHash)).Nodup)
    {ordered front back : List IndexedEntry} {last : IndexedEntry}
    {closings : List (ℕ × UnsignedAmount)}
    (order : orderConfirmedBitcoinEntries entries = .ok ordered)
    (settled : settleConfirmed amount.value ordered = .ok closings)
    (whole : ordered = front ++ last :: back) :
    ∃ closing,
      closingAt
          (entries.zipIdx.map fun (entry, index) =>
            { entry with
              closingBalance :=
                if entry.status = .failed then failedClosing ordered closings amount entry
                else closings.lookup index }) last.2 = some closing ∧
        (closing.value : ℤ) =
          amount.value + ((front ++ [last]).map fun indexed => indexed.1.balanceDelta).sum := by
  obtain ⟨positions, sums⟩ := settleConfirmed_spec settled
  obtain ⟨closing, member, value⟩ := sums front last back whole
  have perm := (orderConfirmedBitcoinEntries_spec distinct order).1
  have positionsNodup : (closings.map Prod.fst).Nodup := by
    rw [positions, (perm.map Prod.snd).nodup_iff]
    exact (zipIdx_map_snd_nodup entries).sublist (List.filter_sublist.map Prod.snd)
  have listed : last ∈ confirmedEntries entries := perm.mem_iff.mp (by simp [whole])
  obtain ⟨placed, confirmed⟩ := List.mem_filter.mp listed
  have found : entries[last.2]? = some last.1 := List.mem_zipIdx_iff_getElem?.mp placed
  have confirmed : last.1.status = .confirmed := of_decide_eq_true confirmed
  refine ⟨closing, ?_, value⟩
  simp only [closingAt, List.getElem?_map, List.getElem?_zipIdx, found, Option.map_some,
    Option.bind_some, confirmed, reduceCtorEq, if_false, Nat.zero_add]
  exact lookup_eq_some_of_mem positionsNodup member

theorem closingBalance_eq_none_of_unsettled (distinct : (entries.map (·.txHash)).Nodup)
    (assigned : assignBitcoinClosingBalances entries basis = (.ok (), written))
    (known : basis.amount? = some amount) {row : LedgerBuildEntry} (member : row ∈ written)
    (unsettled : row.status = .pending ∨ row.status = .dropped) : row.closingBalance = none := by
  obtain ⟨ordered, closings, order, settled, rfl⟩ := assigned_spec assigned known
  obtain ⟨⟨entry, index⟩, present, rfl⟩ := List.mem_map.mp member
  have openStatus : entry.status = .pending ∨ entry.status = .dropped := unsettled
  have notFailed : entry.status ≠ .failed := by
    intro failed
    rw [failed] at openStatus
    simp at openStatus
  simp only [notFailed, if_false]
  have absent : index ∉ closings.map Prod.fst := by
    rw [(settleConfirmed_spec settled).1]
    intro inside
    obtain ⟨⟨other, otherIndex⟩, otherOrdered, same⟩ := List.mem_map.mp inside
    have otherListed := (orderConfirmedBitcoinEntries_spec distinct order).1.mem_iff.mp otherOrdered
    obtain ⟨otherPlaced, confirmed⟩ := List.mem_filter.mp otherListed
    have otherAt := List.mem_zipIdx_iff_getElem?.mp otherPlaced
    have entryAt := List.mem_zipIdx_iff_getElem?.mp present
    simp only at otherAt entryAt same
    rw [same, entryAt, Option.some.injEq] at otherAt
    have confirmed : entry.status = .confirmed := otherAt ▸ of_decide_eq_true confirmed
    rw [confirmed] at openStatus
    simp at openStatus
  refine List.lookup_eq_none_iff.mpr ?_
  intro pair inClosings
  have differs : index ≠ pair.1 := fun same =>
    absent (same ▸ List.mem_map_of_mem inClosings)
  simpa using differs

theorem closingBalance_eq_none_of_unassigned
    (unassigned : (assignBitcoinClosingBalances entries basis).1 ≠ .ok () ∨ basis = .unknown) :
    ∀ row ∈ (assignBitcoinClosingBalances entries basis).2, row.closingBalance = none := by
  have cleared : (assignBitcoinClosingBalances entries basis).2 =
      entries.map LedgerBuildEntry.cleared := by
    unfold assignBitcoinClosingBalances at unassigned ⊢
    rcases unassigned with failed | unknown
    · cases computed : bitcoinClosingBalances entries basis with
      | ok result => simp [computed] at failed
      | error err => rfl
    · subst unknown
      rfl
  intro row member
  rw [cleared] at member
  obtain ⟨entry, _, rfl⟩ := List.mem_map.mp member
  rfl

end Closings

/-- **Closing balances telescope to the authoritative total.** -/
theorem assignBitcoinClosingBalances_closesOn (apiBalances : List AddressApiConfirmedBalanceRow)
    (entries : List LedgerBuildEntry) (distinct : (entries.map (·.txHash)).Nodup) :
    (∀ basis written,
      computeIncompleteBitcoinBasisFromInputs apiBalances entries = .ok (.knownAmount basis) →
      assignBitcoinClosingBalances entries (.knownAmount basis) = (.ok (), written) →
      ∃ amounts : List UnsignedAmount, ∃ ordered,
        apiBalances.map (·.apiConfirmedBalance) = amounts.map some ∧
        orderConfirmedBitcoinEntries entries = .ok ordered ∧
        ((∃ entry ∈ entries, entry.status = .confirmed) → ordered ≠ []) ∧
        written.map LedgerBuildEntry.cleared = entries.map LedgerBuildEntry.cleared ∧
        ClosesOn ordered basis.value ((amounts.map (·.value)).sum : ℕ) written) ∧
      ∀ basis, (assignBitcoinClosingBalances entries basis).1 ≠ .ok () ∨ basis = .unknown →
        ∀ row ∈ (assignBitcoinClosingBalances entries basis).2, row.closingBalance = none := by
  refine ⟨?_, fun basis => closingBalance_eq_none_of_unassigned⟩
  intro basis written computed assigned
  obtain ⟨amounts, complete, basisEq⟩ := basis_eq_sum_sub_deltas computed
  obtain ⟨ordered, closings, order, settled, writtenEq⟩ := assigned_spec assigned rfl
  have perm := (orderConfirmedBitcoinEntries_spec distinct order).1
  have closing : ∀ front later back, ordered = front ++ later :: back → ∃ closing,
      closingAt written later.2 = some closing ∧ (closing.value : ℤ) =
        basis.value + ((front ++ [later]).map fun indexed => indexed.1.balanceDelta).sum := by
    intro front later back whole
    rw [writtenEq]
    exact closingAt_ordered distinct order settled whole
  refine ⟨amounts, ordered, complete, order, ?_, assigned_map_cleared assigned rfl, ?_⟩
  · rintro ⟨entry, member, confirmed⟩ empty
    obtain ⟨index, placed⟩ := mem_ordered_of_confirmed distinct order member confirmed
    simp [empty] at placed
  constructor
  case first =>
    intro first back whole
    obtain ⟨found, looked, value⟩ := closing [] first back whole
    exact ⟨found, looked, by simpa using value⟩
  case next =>
    intro front earlier later back whole
    obtain ⟨before, beforeAt, beforeValue⟩ := closing front earlier (later :: back) whole
    obtain ⟨after, afterAt, afterValue⟩ := closing (front ++ [earlier]) later back (by simp [whole])
    refine ⟨before, after, beforeAt, afterAt, ?_⟩
    rw [afterValue, beforeValue, List.map_append, List.sum_append, ← add_assoc]
    simp
  case last =>
    intro front last whole
    obtain ⟨found, looked, value⟩ := closing front last [] whole
    refine ⟨found, looked, ?_⟩
    have deltas : (ordered.map fun indexed => indexed.1.balanceDelta).sum =
        ((entries.filter fun entry => entry.status = .confirmed).map (·.balanceDelta)).sum := by
      rw [(perm.map fun indexed => indexed.1.balanceDelta).sum_eq, ← confirmedEntries_map_fst,
        List.map_map]
      rfl
    rw [value, ← whole, deltas, basisEq, sub_add_cancel]
  case unsettled =>
    exact fun row member unsettled =>
      closingBalance_eq_none_of_unsettled distinct assigned rfl member unsettled

/-- Two confirmed entries, one dropped entry and two addresses that hold 150. -/
def heldEntries : List LedgerBuildEntry :=
  [{ LedgerBuildEntry.confirmedRow "dropped" 0 0 7 [] with status := .dropped },
    .confirmedRow "b" 101 60 10 [], .confirmedRow "a" 100 0 20 []]

private theorem heldEntries_assigned :
    assignBitcoinClosingBalances heldEntries (.knownAmount ⟨120, by decide⟩) =
      (.ok (), (assignBitcoinClosingBalances heldEntries (.knownAmount ⟨120, by decide⟩)).2) :=
  Prod.ext (by decide +kernel) rfl

theorem assignBitcoinClosingBalances_closesOn_held :
    ∃ ordered, orderConfirmedBitcoinEntries heldEntries = .ok ordered ∧ ordered ≠ [] ∧
      ClosesOn ordered 120 150
        (assignBitcoinClosingBalances heldEntries (.knownAmount ⟨120, by decide⟩)).2 := by
  obtain ⟨amounts, ordered, complete, order, nonempty, _, closes⟩ :=
    (assignBitcoinClosingBalances_closesOn
      [⟨"one", some ⟨100, by decide⟩⟩, ⟨"two", some ⟨50, by decide⟩⟩] heldEntries
      (by decide)).1 ⟨120, by decide⟩ _ (by decide +kernel) heldEntries_assigned
  have amountsEq : [(⟨100, by decide⟩ : UnsignedAmount), ⟨50, by decide⟩] = amounts :=
    List.map_injective_iff.mpr (Option.some_injective _) complete
  subst amountsEq
  exact ⟨ordered, order, nonempty ⟨.confirmedRow "a" 100 0 20 [], by simp [heldEntries], rfl⟩,
    closes⟩

end Bitgarth.Store
