import Bitgarth.Ledger.BitcoinOrder

/-! # Closing balances of Bitcoin entries

Confirmed entries take the running balance in dependency order, and a failed entry
takes that of the last confirmed entry not after it in time. `CountedBy` names the
confirmed entries a closing balance counts, and `closing_eq_basis_add_counted` states
that it counts exactly these.
-/

namespace Bitgarth.Ledger

open Amounts RowSelection

/-- Running balances over the dependency order, by position. -/
def settleConfirmed (running : ℤ) : List IndexedEntry → Except DbError (List (ℕ × UnsignedAmount))
  | [] => .ok []
  | (entry, index) :: rest =>
    match checkedAdd running entry.balanceDelta with
    | none => .error ⟨"Signed overflow while updating Bitcoin closing balance"⟩
    | some running =>
      if running < 0 then
        .error ⟨"Bitcoin closing balance became negative at " ++ entry.txHash⟩
      else
        match UnsignedAmount.tryFromSigned running with
        | none => .error ⟨"Failed to convert Bitcoin closing balance"⟩
        | some amount => do
            let later ← settleConfirmed running rest
            return (index, amount) :: later

/-- The balance a failed entry shows: that of the last confirmed entry in dependency
order that is not after it, or the basis. -/
def failedClosing (ordered : List IndexedEntry) (closings : List (ℕ × UnsignedAmount))
    (basis : UnsignedAmount) (entry : LedgerBuildEntry) : Option UnsignedAmount :=
  match ordered.reverse.find? (fun confirmed => confirmed.1.occurredAt ≤ entry.occurredAt) with
  | some confirmed => closings.lookup confirmed.2
  | none => some basis

/-- The closure of `assign_bitcoin_closing_balances`, before errors clear the entries. -/
def bitcoinClosingBalances (entries : List LedgerBuildEntry) (basis : NativeBalanceState) :
    Except DbError (List LedgerBuildEntry) :=
  match basis.amount? with
  | none => .ok (entries.map LedgerBuildEntry.cleared)
  | some amount =>
    match amount.trySigned with
    | none => .error ⟨"Bitcoin balance basis exceeds the supported signed range"⟩
    | some running => do
        let ordered ← orderConfirmedBitcoinEntries entries
        let closings ← settleConfirmed running ordered
        return entries.zipIdx.map fun (entry, index) =>
          { entry with
            closingBalance :=
              if entry.status = .failed then failedClosing ordered closings amount entry
              else closings.lookup index }

/-- `assign_bitcoin_closing_balances`: its result and the entries it leaves behind. -/
def assignBitcoinClosingBalances (entries : List LedgerBuildEntry) (basis : NativeBalanceState) :
    Except DbError Unit × List LedgerBuildEntry :=
  match bitcoinClosingBalances entries basis with
  | .ok written => (.ok (), written)
  | .error err => (.error err, entries.map LedgerBuildEntry.cleared)

/-! ## What a closing balance counts -/

/-- `entry` is confirmed and is `row` or settles before it. -/
def SettledUpTo (entries : List LedgerBuildEntry) (row entry : LedgerBuildEntry) : Prop :=
  entry.status = .confirmed ∧ (entry.txHash = row.txHash ∨ SettlesBefore entries entry row)

/-- `entry` is confirmed and not above every block that `row` does not precede in time. -/
def SettledByTime (entries : List LedgerBuildEntry) (row entry : LedgerBuildEntry) : Prop :=
  entry.status = .confirmed ∧ ∃ prior ∈ entries, prior.status = .confirmed ∧
    prior.occurredAt ≤ row.occurredAt ∧ ∃ height priorHeight, entry.blockHeight = some height ∧
      prior.blockHeight = some priorHeight ∧ height ≤ priorHeight

/-- `entry` is a confirmed entry whose delta the closing balance of `row` includes. -/
def CountedBy (entries : List LedgerBuildEntry) (row entry : LedgerBuildEntry) : Prop :=
  row.status = .confirmed ∧ SettledUpTo entries row entry ∨
    row.status = .failed ∧ SettledByTime entries row entry

/-- Confirmed entries of one height carry one instant, that of their block. -/
def SharedBlockTime (entries : List LedgerBuildEntry) : Prop :=
  ∀ left ∈ entries, ∀ right ∈ entries, left.status = .confirmed → right.status = .confirmed →
    left.blockHeight = right.blockHeight → left.occurredAt = right.occurredAt

theorem settleConfirmed_cons {running : ℤ} {entry : LedgerBuildEntry} {index : ℕ}
    {rest : List IndexedEntry} {closings : List (ℕ × UnsignedAmount)}
    (settled : settleConfirmed running ((entry, index) :: rest) = .ok closings) :
    ∃ amount later, (amount.value : ℤ) = running + entry.balanceDelta ∧
      (amount.value : ℤ) ≤ i128Max ∧
      settleConfirmed (running + entry.balanceDelta) rest = .ok later ∧
      closings = (index, amount) :: later := by
  unfold settleConfirmed at settled
  cases added : checkedAdd running entry.balanceDelta with
  | none => simp [added] at settled
  | some total =>
    simp only [added] at settled
    split at settled
    · simp at settled
    cases converted : UnsignedAmount.tryFromSigned total with
    | none => simp [converted] at settled
    | some amount =>
      simp only [converted] at settled
      obtain ⟨later, tail, settled⟩ := Fallible.bind_eq_ok.mp settled
      rw [Fallible.pure_eq_ok] at settled
      obtain ⟨totalEq, _, fits⟩ := checkedAdd_eq_some.mp added
      have amountEq := UnsignedAmount.tryFromSigned_eq_some.mp converted
      exact ⟨amount, later, amountEq.trans totalEq, amountEq.trans_le fits, totalEq ▸ tail,
        settled.symm⟩

theorem settleConfirmed_spec {running : ℤ} {ordered : List IndexedEntry}
    {closings : List (ℕ × UnsignedAmount)}
    (settled : settleConfirmed running ordered = .ok closings) :
    closings.map Prod.fst = ordered.map Prod.snd ∧
      ∀ front later back, ordered = front ++ later :: back →
        ∃ amount, (later.2, amount) ∈ closings ∧
          (amount.value : ℤ) =
            running + ((front ++ [later]).map fun indexed => indexed.1.balanceDelta).sum := by
  induction ordered generalizing running closings with
  | nil =>
    simp only [settleConfirmed, Except.ok.injEq] at settled
    subst settled
    simp
  | cons indexed rest ih =>
    obtain ⟨entry, index⟩ := indexed
    obtain ⟨amount, later, amountEq, _, tail, rfl⟩ := settleConfirmed_cons settled
    obtain ⟨positions, sums⟩ := ih tail
    refine ⟨by simp [positions], ?_⟩
    intro front last back whole
    cases front with
    | nil =>
      simp only [List.nil_append, List.cons.injEq] at whole
      obtain ⟨rfl, rfl⟩ := whole
      exact ⟨amount, List.mem_cons_self, by simp [amountEq]⟩
    | cons first front =>
      simp only [List.cons_append, List.cons.injEq] at whole
      obtain ⟨rfl, rfl⟩ := whole
      obtain ⟨found, member, value⟩ := sums front last back rfl
      refine ⟨found, List.mem_cons_of_mem _ member, ?_⟩
      rw [value]
      simp only [List.cons_append, List.map_cons, List.sum_cons]
      omega

theorem settleConfirmed_fits {running : ℤ} {ordered : List IndexedEntry}
    {closings : List (ℕ × UnsignedAmount)}
    (settled : settleConfirmed running ordered = .ok closings) :
    ∀ pair ∈ closings, (pair.2.value : ℤ) ≤ i128Max := by
  induction ordered generalizing running closings with
  | nil =>
    simp only [settleConfirmed, Except.ok.injEq] at settled
    subst settled
    exact fun pair member => absurd member List.not_mem_nil
  | cons indexed rest ih =>
    obtain ⟨entry, index⟩ := indexed
    obtain ⟨amount, later, _, fits, tail, rfl⟩ := settleConfirmed_cons settled
    intro pair member
    rcases List.mem_cons.mp member with rfl | inLater
    · exact fits
    · exact ih tail pair inLater

section Assigned

variable {entries written : List LedgerBuildEntry} {basis : NativeBalanceState}
  {amount : UnsignedAmount}

theorem assigned_spec (assigned : assignBitcoinClosingBalances entries basis = (.ok (), written))
    (known : basis.amount? = some amount) :
    ∃ ordered closings, orderConfirmedBitcoinEntries entries = .ok ordered ∧
      settleConfirmed amount.value ordered = .ok closings ∧
      written = entries.zipIdx.map fun (entry, index) =>
        { entry with
          closingBalance :=
            if entry.status = .failed then failedClosing ordered closings amount entry
            else closings.lookup index } := by
  unfold assignBitcoinClosingBalances at assigned
  cases computed : bitcoinClosingBalances entries basis with
  | error err => simp [computed] at assigned
  | ok result =>
    simp only [computed, Prod.mk.injEq, true_and] at assigned
    subst assigned
    unfold bitcoinClosingBalances at computed
    cases signed : amount.trySigned with
    | none => simp [known, signed] at computed
    | some running =>
      simp only [known, signed] at computed
      obtain ⟨ordered, order, computed⟩ := Fallible.bind_eq_ok.mp computed
      obtain ⟨closings, settled, computed⟩ := Fallible.bind_eq_ok.mp computed
      rw [Fallible.pure_eq_ok] at computed
      rw [(UnsignedAmount.trySigned_eq_some.mp signed).1] at settled
      exact ⟨ordered, closings, order, settled, computed.symm⟩

theorem basis_fits (assigned : assignBitcoinClosingBalances entries basis = (.ok (), written))
    (known : basis.amount? = some amount) : (amount.value : ℤ) ≤ i128Max := by
  unfold assignBitcoinClosingBalances bitcoinClosingBalances at assigned
  cases signed : amount.trySigned with
  | none => simp [known, signed] at assigned
  | some running =>
    obtain ⟨rfl, fits⟩ := UnsignedAmount.trySigned_eq_some.mp signed
    exact fits

theorem assigned_map_cleared
    (assigned : assignBitcoinClosingBalances entries basis = (.ok (), written))
    (known : basis.amount? = some amount) :
    written.map LedgerBuildEntry.cleared = entries.map LedgerBuildEntry.cleared := by
  obtain ⟨ordered, closings, order, settled, rfl⟩ := assigned_spec assigned known
  rw [List.map_map]
  conv_rhs => rw [← List.zipIdx_map_fst 0 entries, List.map_map]
  rfl

theorem sumWhere_ordered (distinct : (entries.map (·.txHash)).Nodup)
    {ordered : List IndexedEntry} (order : orderConfirmedBitcoinEntries entries = .ok ordered)
    (chosen : LedgerBuildEntry → Prop) :
    sumWhere (fun indexed : IndexedEntry => chosen indexed.1)
        (fun indexed => indexed.1.balanceDelta) ordered =
      sumWhere (fun entry => entry.status = .confirmed ∧ chosen entry) (·.balanceDelta) entries :=
  calc sumWhere (fun indexed : IndexedEntry => chosen indexed.1)
        (fun indexed => indexed.1.balanceDelta) ordered
      = sumWhere (fun indexed : IndexedEntry => indexed.1.status = .confirmed ∧ chosen indexed.1)
          (fun indexed => indexed.1.balanceDelta) entries.zipIdx := by
        rw [sumWhere_perm (orderConfirmedBitcoinEntries_spec distinct order).1, confirmedEntries,
          sumWhere_filter]
    _ = sumWhere (fun entry => entry.status = .confirmed ∧ chosen entry) (·.balanceDelta)
          entries :=
        @sumWhere_zipIdx LedgerBuildEntry (fun entry => entry.status = .confirmed ∧ chosen entry)
          (·.balanceDelta) entries

theorem ordered_map_txHash_nodup (distinct : (entries.map (·.txHash)).Nodup)
    {ordered : List IndexedEntry} (order : orderConfirmedBitcoinEntries entries = .ok ordered) :
    (ordered.map fun indexed => indexed.1.txHash).Nodup :=
  ((orderConfirmedBitcoinEntries_spec distinct order).1.map _).nodup_iff.mpr
    (confirmedEntries_map_txHash_nodup distinct)

/-- The deltas in front of `last` in dependency order are those of the confirmed entries
that settle before it. -/
theorem sum_deltas_front_eq (distinct : (entries.map (·.txHash)).Nodup)
    {ordered front back : List IndexedEntry} {last : IndexedEntry}
    (order : orderConfirmedBitcoinEntries entries = .ok ordered)
    (whole : ordered = front ++ last :: back) :
    (front.map fun indexed => indexed.1.balanceDelta).sum =
      sumWhere (fun entry => entry.status = .confirmed ∧ SettlesBefore entries entry last.1)
        (·.balanceDelta) entries := by
  rw [← sumWhere_ordered distinct order]
  apply sum_front_eq_sumWhere (ordered_map_txHash_nodup distinct order).of_map whole
  exact (orderConfirmedBitcoinEntries_spec distinct order).2.2 front last back whole

/-- The deltas up to `last` in dependency order are those of the entries that are
`last` or settle before it. -/
theorem sum_deltas_upto_eq (distinct : (entries.map (·.txHash)).Nodup)
    {ordered front back : List IndexedEntry} {last : IndexedEntry}
    (order : orderConfirmedBitcoinEntries entries = .ok ordered)
    (whole : ordered = front ++ last :: back) :
    ((front ++ [last]).map fun indexed => indexed.1.balanceDelta).sum =
      sumWhere (SettledUpTo entries last.1) (·.balanceDelta) entries := by
  obtain ⟨perm, _, precedes⟩ := orderConfirmedBitcoinEntries_spec distinct order
  have hashes := ordered_map_txHash_nodup distinct order
  have upto : ∀ indexed ∈ ordered, indexed ∈ front ++ [last] ↔
      (indexed.1.txHash = last.1.txHash ∨ SettlesBefore entries indexed.1 last.1) := by
    intro indexed member
    rw [List.mem_append, List.mem_singleton, precedes front last back whole indexed member,
      or_comm]
    refine or_congr_left ⟨fun same => by rw [same], fun same => ?_⟩
    exact List.inj_on_of_nodup_map hashes member (by simp [whole]) same
  rw [sum_upto_eq_sumWhere hashes.of_map whole upto]
  exact sumWhere_ordered distinct order fun entry =>
    entry.txHash = last.1.txHash ∨ SettlesBefore entries entry last.1

theorem lookup_closing_eq (distinct : (entries.map (·.txHash)).Nodup)
    {running : ℤ} {ordered front back : List IndexedEntry} {last : IndexedEntry}
    {closings : List (ℕ × UnsignedAmount)}
    (order : orderConfirmedBitcoinEntries entries = .ok ordered)
    (settled : settleConfirmed running ordered = .ok closings)
    (whole : ordered = front ++ last :: back) :
    ∃ closing, closings.lookup last.2 = some closing ∧
      (closing.value : ℤ) = running + sumWhere (SettledUpTo entries last.1)
        (·.balanceDelta) entries := by
  obtain ⟨positions, sums⟩ := settleConfirmed_spec settled
  obtain ⟨closing, member, value⟩ := sums front last back whole
  have perm := (orderConfirmedBitcoinEntries_spec distinct order).1
  have positionsNodup : (closings.map Prod.fst).Nodup := by
    rw [positions, (perm.map Prod.snd).nodup_iff]
    exact (zipIdx_map_snd_nodup entries).sublist (List.filter_sublist.map Prod.snd)
  refine ⟨closing, lookup_eq_some_of_mem positionsNodup member, ?_⟩
  rw [value, sum_deltas_upto_eq distinct order whole]

theorem mem_ordered_of_confirmed (distinct : (entries.map (·.txHash)).Nodup)
    {ordered : List IndexedEntry} (order : orderConfirmedBitcoinEntries entries = .ok ordered)
    {entry : LedgerBuildEntry} (member : entry ∈ entries) (confirmed : entry.status = .confirmed) :
    ∃ index, (entry, index) ∈ ordered := by
  obtain ⟨index, present⟩ := exists_position member
  refine ⟨index, (orderConfirmedBitcoinEntries_spec distinct order).1.mem_iff.mpr ?_⟩
  exact List.mem_filter.mpr ⟨present, by simpa using confirmed⟩

theorem mem_entries_of_mem_ordered (distinct : (entries.map (·.txHash)).Nodup)
    {ordered : List IndexedEntry} (order : orderConfirmedBitcoinEntries entries = .ok ordered)
    {indexed : IndexedEntry} (member : indexed ∈ ordered) :
    indexed.1 ∈ entries ∧ indexed.1.status = .confirmed := by
  have listed := (orderConfirmedBitcoinEntries_spec distinct order).1.mem_iff.mp member
  obtain ⟨present, confirmed⟩ := List.mem_filter.mp listed
  exact ⟨mem_entries_of_mem_zipIdx present, of_decide_eq_true confirmed⟩

/-- With one instant per block, what settles up to the last entry not after `row` is
what `row` counts by time. -/
theorem settledUpTo_iff_settledByTime (distinct : (entries.map (·.txHash)).Nodup)
    (shared : SharedBlockTime entries) {ordered front back : List IndexedEntry}
    {last : IndexedEntry} {row : LedgerBuildEntry}
    (order : orderConfirmedBitcoinEntries entries = .ok ordered)
    (whole : ordered = front ++ last :: back)
    (notAfter : last.1.occurredAt ≤ row.occurredAt)
    (after : ∀ indexed ∈ back, ¬ indexed.1.occurredAt ≤ row.occurredAt)
    {entry : LedgerBuildEntry} (member : entry ∈ entries) :
    SettledUpTo entries last.1 entry ↔ SettledByTime entries row entry := by
  obtain ⟨perm, heights, precedes⟩ := orderConfirmedBitcoinEntries_spec distinct order
  have lastOrdered : last ∈ ordered := by simp [whole]
  obtain ⟨lastMember, lastConfirmed⟩ := mem_entries_of_mem_ordered distinct order lastOrdered
  obtain ⟨lastHeight, lastHeightEq⟩ := heights last lastOrdered
  -- A confirmed entry not after `row` is `last` or in front of it.
  have upto : ∀ other ∈ entries, other.status = .confirmed → other.occurredAt ≤ row.occurredAt →
      other.txHash = last.1.txHash ∨ SettlesBefore entries other last.1 := by
    intro other otherMember confirmed early
    obtain ⟨index, placed⟩ := mem_ordered_of_confirmed distinct order otherMember confirmed
    have place := placed
    rw [whole] at place
    rcases List.mem_append.mp place with inFront | inRest
    · exact .inr ((precedes front last back whole _ placed).mp inFront)
    · rcases List.mem_cons.mp inRest with same | inBack
      · exact .inl (by rw [← same])
      · exact absurd early (after _ inBack)
  constructor
  · rintro ⟨confirmed, same | before⟩
    · have identical : entry = last.1 :=
        List.inj_on_of_nodup_map distinct member lastMember same
      subst identical
      exact ⟨confirmed, last.1, lastMember, lastConfirmed, notAfter, lastHeight, lastHeight,
        lastHeightEq, lastHeightEq, le_rfl⟩
    · obtain ⟨height, upper, heightEq, upperEq, order⟩ := before
      refine ⟨confirmed, last.1, lastMember, lastConfirmed, notAfter, height, upper, heightEq,
        upperEq, ?_⟩
      rcases order with less | ⟨same, _⟩
      · exact less.le
      · exact same.le
  · rintro ⟨confirmed, prior, priorMember, priorConfirmed, early, height, priorHeight, heightEq,
      priorHeightEq, below⟩
    refine ⟨confirmed, ?_⟩
    have priorBelow : priorHeight ≤ lastHeight := by
      rcases upto prior priorMember priorConfirmed early with same | before
      · rw [List.inj_on_of_nodup_map distinct priorMember lastMember same] at priorHeightEq
        rw [lastHeightEq, Option.some.injEq] at priorHeightEq
        exact priorHeightEq.ge
      · obtain ⟨left, right, leftEq, rightEq, order⟩ := before
        rw [priorHeightEq, Option.some.injEq] at leftEq
        rw [lastHeightEq, Option.some.injEq] at rightEq
        rcases order with less | ⟨same, _⟩ <;> omega
    rcases lt_or_eq_of_le (le_trans below priorBelow) with less | same
    · exact .inr ⟨height, lastHeight, heightEq, lastHeightEq, .inl less⟩
    · have sameTime := shared entry member last.1 lastMember confirmed lastConfirmed
        (by rw [heightEq, lastHeightEq, same])
      exact upto entry member confirmed (sameTime ▸ notAfter)

theorem failedClosing_eq (distinct : (entries.map (·.txHash)).Nodup)
    (shared : SharedBlockTime entries) {ordered : List IndexedEntry}
    {closings : List (ℕ × UnsignedAmount)}
    (order : orderConfirmedBitcoinEntries entries = .ok ordered)
    (settled : settleConfirmed amount.value ordered = .ok closings) (row : LedgerBuildEntry) :
    ∃ closing, failedClosing ordered closings amount row = some closing ∧
      (closing.value : ℤ) =
        amount.value + sumWhere (SettledByTime entries row) (·.balanceDelta) entries := by
  unfold failedClosing
  cases found : ordered.reverse.find?
      (fun confirmed => confirmed.1.occurredAt ≤ row.occurredAt) with
  | none =>
    refine ⟨amount, rfl, ?_⟩
    rw [sumWhere_of_forall_not, add_zero]
    rintro entry member ⟨_, prior, priorMember, confirmed, early, _⟩
    obtain ⟨index, placed⟩ := mem_ordered_of_confirmed distinct order priorMember confirmed
    have late := List.find?_eq_none.mp found _ (List.mem_reverse.mpr placed)
    exact late (decide_eq_true early)
  | some last =>
    obtain ⟨notAfter, front, back, reversed, after⟩ := List.find?_eq_some_iff_append.mp found
    have whole : ordered = back.reverse ++ last :: front.reverse := by
      rw [← List.reverse_reverse ordered, reversed]
      simp
    obtain ⟨closing, looked, value⟩ := lookup_closing_eq distinct order settled whole
    refine ⟨closing, looked, ?_⟩
    rw [value]
    congr 1
    refine sumWhere_congr fun entry member => ?_
    refine settledUpTo_iff_settledByTime distinct shared order whole
      (of_decide_eq_true notAfter) ?_ member
    intro indexed inFront early
    have late := after indexed (List.mem_reverse.mp inFront)
    simp [early] at late

/-- **What a closing balance counts.** After a successful assignment with a known basis
every settled row carries the basis plus the deltas of the entries it counts. -/
theorem closing_eq_basis_add_counted (distinct : (entries.map (·.txHash)).Nodup)
    (shared : SharedBlockTime entries)
    (assigned : assignBitcoinClosingBalances entries basis = (.ok (), written))
    (known : basis.amount? = some amount) {row : LedgerBuildEntry} (member : row ∈ written)
    (settledRow : row.Settled) :
    ∃ closing, row.closingBalance = some closing ∧
      (closing.value : ℤ) =
        amount.value + sumWhere (CountedBy entries row) (·.balanceDelta) entries := by
  obtain ⟨ordered, closings, order, settled, rfl⟩ := assigned_spec assigned known
  obtain ⟨⟨entry, index⟩, present, rfl⟩ := List.mem_map.mp member
  rcases settledRow with confirmed | failed
  · have confirmedEntry : entry.status = .confirmed := confirmed
    have placed : (entry, index) ∈ ordered := by
      refine (orderConfirmedBitcoinEntries_spec distinct order).1.mem_iff.mpr ?_
      exact List.mem_filter.mpr ⟨present, by simpa using confirmedEntry⟩
    obtain ⟨front, back, whole⟩ := List.append_of_mem placed
    obtain ⟨closing, looked, value⟩ := lookup_closing_eq distinct order settled whole
    refine ⟨closing, by simpa [confirmedEntry] using looked, ?_⟩
    rw [value]
    congr 1
    refine sumWhere_congr fun other _ => ?_
    simp [CountedBy, confirmedEntry, SettledUpTo, SettlesBefore]
  · have failedEntry : entry.status = .failed := failed
    obtain ⟨closing, found, value⟩ := failedClosing_eq distinct shared order settled entry
    refine ⟨closing, by simpa [failedEntry] using found, ?_⟩
    rw [value]
    congr 1
    refine sumWhere_congr fun other _ => ?_
    simp [CountedBy, failedEntry, SettledByTime]

end Assigned

end Bitgarth.Ledger
