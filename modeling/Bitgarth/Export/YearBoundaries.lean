import Mathlib
import Bitgarth.Export.Snapshot
import Bitgarth.Foundation.RowSelection

/-! # Balances across year boundaries

The closing journal of a year takes its balance out of the account and the opening
journal of the next exported year puts it back. `carriesBalances_iff` says for which rows
every closing journal meets an opening journal of the same amount.
-/

namespace Bitgarth.Export

open Amounts RowSelection

/-- A year closes exactly when the next exported year opens, with the same amount. -/
def CarriesBalances (files : AccountFiles) : Prop :=
  (files.years.IsChain fun year next => year.closing = next.opening) ∧
    ∀ last ∈ files.years.getLast?, last.closing = none

/-- The latest listed balance asserted on or before a date. -/
def balanceOnOrBefore (transactions : List ExportAccountTransaction) (boundary : ℤ) :
    Option UnsignedAmount :=
  ((assertions transactions).reverse.find? fun assertion =>
    assertion.assertedOn ≤ boundary).map CustomBalanceAssertionRenderRow.assertedBalance

/-- A year has boundaries when it has ledger rows and the account supports assertions. -/
def HasBoundaries (supportsNativeBalanceAssertions : Bool)
    (transactions : List ExportAccountTransaction) : Prop :=
  supportsNativeBalanceAssertions = true ∧ natives transactions ≠ []

/-- The files of a year are filed under it and were all accepted. -/
def Filed (sink : JournalSink) (account : ResolvedAccount) (year : ℤ) (files : YearFiles) : Prop :=
  files.year = year ∧ ∀ journal ∈ files.journals account, sink journal = .ok ()

section Years

variable {sink : JournalSink} {account : ResolvedAccount} {latest year : ℤ}
  {transactions : List ExportAccountTransaction} {supports : Bool}
  {previous opening closing : Option UnsignedAmount} {files : YearFiles}
  {buckets : List (ℤ × List ExportAccountTransaction)} {years : List YearFiles}

theorem yearText_injective : Function.Injective yearText :=
  fun _ _ same => Int.repr_injective same

theorem writeAll_eq_ok {journals : List Journal} (written : writeAll sink journals = .ok ()) :
    ∀ journal ∈ journals, sink journal = .ok () := by
  induction journals with
  | nil => simp
  | cons journal rest ih =>
    unfold writeAll at written
    obtain ⟨_, accepted, others⟩ := Fallible.bind_eq_ok.mp written
    exact List.forall_mem_cons.mpr ⟨accepted, ih others⟩

theorem writeYear_spec
    (written : writeYear sink account latest year transactions opening closing = .ok files) :
    Filed sink account year files ∧ files.opening = opening ∧
      files.closing = if yearText year < yearText latest then closing else none := by
  unfold writeYear at written
  obtain ⟨_, opens, written⟩ := Fallible.bind_eq_ok.mp written
  obtain ⟨entries, _, written⟩ := Fallible.bind_eq_ok.mp written
  obtain ⟨_, listed, written⟩ := Fallible.bind_eq_ok.mp written
  obtain ⟨_, closes, written⟩ := Fallible.bind_eq_ok.mp written
  obtain ⟨_, included, written⟩ := Fallible.bind_eq_ok.mp written
  rw [Fallible.pure_eq_ok] at written
  rw [← written]
  refine ⟨⟨rfl, ?_⟩, rfl, rfl⟩
  simp only [YearFiles.journals, List.forall_mem_append, List.forall_mem_singleton]
  exact ⟨⟨⟨writeAll_eq_ok opens, listed⟩, writeAll_eq_ok closes⟩, included⟩

theorem nativeBoundaries_spec {boundaries : Option (UnsignedAmount × UnsignedAmount)}
    (done : nativeBoundaries account supports previous transactions = .ok boundaries) :
    (boundaries.isSome ↔ HasBoundaries supports transactions) ∧
      ∀ balance, previous = some balance → ∀ pair ∈ boundaries, pair.1 = balance := by
  unfold nativeBoundaries at done
  split at done
  · rename_i without
    rw [Except.ok.injEq] at done
    subst done
    have missing : ¬ HasBoundaries supports transactions := by
      rintro ⟨supported, rows⟩
      simp [supported, rows] at without
    simp [missing]
  · rename_i present
    obtain ⟨pair, computed, rfl⟩ := Fallible.map_eq_ok.mp done
    have boundary : HasBoundaries supports transactions := by
      simp only [Bool.or_eq_true, List.isEmpty_iff, Bool.not_eq_true', not_or,
        Bool.not_eq_false] at present
      exact ⟨present.2, present.1⟩
    refine ⟨by simp [boundary], fun balance carried found isPair => ?_⟩
    obtain rfl := Option.some.inj isPair
    unfold nativeYearOpeningAndClosingBalances at computed
    obtain ⟨opening, opens, computed⟩ := Fallible.bind_eq_ok.mp computed
    rw [carried, Except.ok.injEq] at opens
    split at computed
    · simp at computed
    · rw [Fallible.pure_eq_ok] at computed
      rw [← computed, opens]

theorem writeNativeYears_cons
    (written : writeNativeYears sink account supports latest previous
      ((year, transactions) :: buckets) =
      .ok years) :
    ∃ boundaries files later,
      nativeBoundaries account supports previous transactions = .ok boundaries ∧
        Filed sink account year files ∧ files.opening = boundaries.map Prod.fst ∧
        files.closing =
          (if yearText year < yearText latest then boundaries.map Prod.snd else none) ∧
        writeNativeYears sink account supports latest
          ((boundaries.map Prod.snd).or previous) buckets = .ok later ∧
        years = files :: later := by
  unfold writeNativeYears at written
  obtain ⟨boundaries, computed, written⟩ := Fallible.bind_eq_ok.mp written
  obtain ⟨files, first, written⟩ := Fallible.bind_eq_ok.mp written
  obtain ⟨later, rest, written⟩ := Fallible.bind_eq_ok.mp written
  rw [Fallible.pure_eq_ok] at written
  obtain ⟨filed, openingEq, closingEq⟩ := writeYear_spec first
  exact ⟨boundaries, files, later, computed, filed, openingEq, closingEq, rest, written.symm⟩

theorem closing_eq_opening_iff {boundaries next : Option (UnsignedAmount × UnsignedAmount)}
    {nextTransactions : List ExportAccountTransaction}
    (computed : nativeBoundaries account supports previous transactions = .ok boundaries)
    (following : nativeBoundaries account supports ((boundaries.map Prod.snd).or previous)
      nextTransactions = .ok next) :
    boundaries.map Prod.snd = next.map Prod.fst ↔
      (HasBoundaries supports transactions ↔ HasBoundaries supports nextTransactions) := by
  obtain ⟨present, _⟩ := nativeBoundaries_spec computed
  obtain ⟨nextPresent, carried⟩ := nativeBoundaries_spec following
  rw [← present, ← nextPresent]
  cases boundaries with
  | none => cases next <;> simp
  | some pair =>
    cases next with
    | none => simp
    | some nextPair =>
      have same := carried pair.2 rfl nextPair rfl
      simp [same]

theorem earlier_than_latest {first next : ℤ × List ExportAccountTransaction}
    {remaining : List (ℤ × List ExportAccountTransaction)}
    (below : ∀ other ∈ next :: remaining, yearText first.1 < yearText other.1)
    (isLatest : ∀ last ∈ (first :: next :: remaining).getLast?, last.1 = latest) :
    yearText first.1 < yearText latest := by
  have final := isLatest _ (List.getLast?_eq_getLast_of_ne_nil (List.cons_ne_nil _ _))
  rw [List.getLast_cons (List.cons_ne_nil next remaining)] at final
  rw [← final]
  exact below _ (List.getLast_mem _)

theorem writeNativeYears_filed
    (written : writeNativeYears sink account supports latest previous buckets = .ok years) :
    List.Forall₂ (fun bucket files => Filed sink account bucket.1 files) buckets years := by
  induction buckets generalizing previous years with
  | nil =>
    rw [writeNativeYears, Except.ok.injEq] at written
    rw [← written]
    exact .nil
  | cons first rest ih =>
    obtain ⟨_, files, later, _, filed, _, _, others, rfl⟩ := writeNativeYears_cons written
    exact .cons filed (ih others)

theorem writeNativeYears_carries
    (written : writeNativeYears sink account supports latest previous buckets = .ok years)
    (ascending : buckets.Pairwise fun left right => yearText left.1 < yearText right.1)
    (isLatest : ∀ last ∈ buckets.getLast?, last.1 = latest) :
    ((years.IsChain fun year next => year.closing = next.opening) ↔
      buckets.IsChain fun left right =>
        HasBoundaries supports left.2 ↔ HasBoundaries supports right.2) ∧
      ∀ last ∈ years.getLast?, last.closing = none := by
  induction buckets generalizing previous years with
  | nil =>
    rw [writeNativeYears, Except.ok.injEq] at written
    subst written
    simp
  | cons first rest ih =>
    obtain ⟨boundaries, files, later, computed, _, opens, closes, others, rfl⟩ :=
      writeNativeYears_cons written
    obtain ⟨below, restAscending⟩ := List.pairwise_cons.mp ascending
    cases rest with
    | nil =>
      rw [writeNativeYears, Except.ok.injEq] at others
      subst others
      have sameYear : first.1 = latest := isLatest first rfl
      simp [closes, sameYear]
    | cons next remaining =>
      obtain ⟨chain, final⟩ := ih others restAscending (by simpa using isLatest)
      obtain ⟨nextBoundaries, nextFiles, _, nextComputed, _, nextOpens, _, _, rfl⟩ :=
        writeNativeYears_cons others
      rw [if_pos (earlier_than_latest below isLatest)] at closes
      rw [List.isChain_cons_cons, List.isChain_cons_cons, chain, closes, nextOpens,
        closing_eq_opening_iff computed nextComputed]
      exact ⟨Iff.rfl, by simpa using final⟩

theorem scanBalanceOnOrBefore_eq_ok {boundary : ℤ} {balance : Option UnsignedAmount}
    (done : scanBalanceOnOrBefore boundary transactions = .ok balance) :
    balance = ((assertions transactions).find? fun assertion =>
      assertion.assertedOn ≤ boundary).map CustomBalanceAssertionRenderRow.assertedBalance := by
  induction transactions with
  | nil =>
    rw [scanBalanceOnOrBefore, Except.ok.injEq] at done
    rw [← done]
    rfl
  | cons transaction rest ih =>
    cases transaction with
    | native row => simp [scanBalanceOnOrBefore] at done
    | manualAssertion assertion =>
      unfold scanBalanceOnOrBefore at done
      have listed : assertions (.manualAssertion assertion :: rest) =
          assertion :: assertions rest := rfl
      rw [listed]
      split at done
      · rename_i due
        rw [Except.ok.injEq] at done
        rw [← done, List.find?_cons_of_pos (by simpa using due)]
        rfl
      · rename_i later
        rw [List.find?_cons_of_neg (by simpa using later)]
        exact ih done

theorem customBalanceOnOrBefore_eq_ok {boundary : ℤ} {balance : Option UnsignedAmount}
    (done : customBalanceOnOrBefore transactions boundary = .ok balance) :
    balance = balanceOnOrBefore transactions boundary := by
  have found := scanBalanceOnOrBefore_eq_ok done
  unfold assertions at found
  rw [List.filterMap_reverse] at found
  exact found

theorem writeManualYear_spec {yearBucket : ℤ × List ExportAccountTransaction}
    (written : writeManualYear sink account latest transactions yearBucket = .ok files) :
    Filed sink account yearBucket.1 files ∧
      files.opening = balanceOnOrBefore transactions (Calendar.yearStart yearBucket.1) ∧
      files.closing = if yearText yearBucket.1 < yearText latest then
        balanceOnOrBefore transactions (Calendar.yearEnd yearBucket.1) else none := by
  unfold writeManualYear at written
  obtain ⟨opening, opens, written⟩ := Fallible.bind_eq_ok.mp written
  obtain ⟨closing, closes, written⟩ := Fallible.bind_eq_ok.mp written
  obtain ⟨filed, openingEq, closingEq⟩ := writeYear_spec written
  rw [customBalanceOnOrBefore_eq_ok opens] at openingEq
  rw [customBalanceOnOrBefore_eq_ok closes] at closingEq
  exact ⟨filed, openingEq, closingEq⟩

theorem writeManualYears_filed
    (written : buckets.mapM (writeManualYear sink account latest transactions) = .ok years) :
    List.Forall₂ (fun bucket files => Filed sink account bucket.1 files) buckets years := by
  induction buckets generalizing years with
  | nil =>
    rw [List.mapM_nil, Fallible.pure_eq_ok] at written
    rw [← written]
    exact .nil
  | cons first rest ih =>
    rw [List.mapM_cons] at written
    obtain ⟨files, head, written⟩ := Fallible.bind_eq_ok.mp written
    obtain ⟨later, others, written⟩ := Fallible.bind_eq_ok.mp written
    rw [Fallible.pure_eq_ok] at written
    rw [← written]
    exact .cons (writeManualYear_spec head).1 (ih others)

theorem writeManualYears_carries
    (written : buckets.mapM (writeManualYear sink account latest transactions) = .ok years)
    (ascending : buckets.Pairwise fun left right => yearText left.1 < yearText right.1)
    (isLatest : ∀ last ∈ buckets.getLast?, last.1 = latest) :
    ((years.IsChain fun year next => year.closing = next.opening) ↔
      buckets.IsChain fun left right =>
        balanceOnOrBefore transactions (Calendar.yearEnd left.1) =
          balanceOnOrBefore transactions (Calendar.yearStart right.1)) ∧
      ∀ last ∈ years.getLast?, last.closing = none := by
  induction buckets generalizing years with
  | nil =>
    rw [List.mapM_nil, Fallible.pure_eq_ok] at written
    subst written
    simp
  | cons first rest ih =>
    rw [List.mapM_cons] at written
    obtain ⟨files, head, written⟩ := Fallible.bind_eq_ok.mp written
    obtain ⟨later, others, written⟩ := Fallible.bind_eq_ok.mp written
    rw [Fallible.pure_eq_ok] at written
    subst written
    obtain ⟨below, restAscending⟩ := List.pairwise_cons.mp ascending
    obtain ⟨_, _, closes⟩ := writeManualYear_spec head
    cases rest with
    | nil =>
      rw [List.mapM_nil, Fallible.pure_eq_ok] at others
      subst others
      have sameYear : first.1 = latest := isLatest first rfl
      simp [closes, sameYear]
    | cons next remaining =>
      obtain ⟨chain, final⟩ := ih others restAscending (by simpa using isLatest)
      rw [List.mapM_cons] at others
      obtain ⟨nextFiles, nextHead, others⟩ := Fallible.bind_eq_ok.mp others
      obtain ⟨_, _, others⟩ := Fallible.bind_eq_ok.mp others
      rw [Fallible.pure_eq_ok] at others
      subst others
      rw [if_pos (earlier_than_latest below isLatest)] at closes
      rw [List.isChain_cons_cons, List.isChain_cons_cons, chain, closes,
        (writeManualYear_spec nextHead).2.1]
      exact ⟨Iff.rfl, by simpa using final⟩

theorem exportYears_ascending (transactions : List ExportAccountTransaction) :
    (exportYears transactions).Pairwise fun left right => yearText left < yearText right :=
  insertionSort_ascending ((List.nodup_dedup _).map yearText_injective)

theorem mem_exportYears : year ∈ exportYears transactions ↔
    ∃ transaction ∈ transactions, exportTransactionYear transaction = year := by
  unfold exportYears sortYears
  rw [(List.perm_insertionSort _ _).mem_iff, List.mem_dedup, List.mem_map]

theorem exportYears_getLast {latest : ℤ}
    (isLatest : (exportYears transactions).getLast? = some latest) :
    ∀ last ∈ (partitionByYear transactions).getLast?, last.1 = latest := by
  intro last found
  unfold partitionByYear at found
  rw [List.getLast?_map, isLatest, Option.map_some, Option.mem_some_iff] at found
  rw [← found]

theorem partitionByYear_ascending (transactions : List ExportAccountTransaction) :
    (partitionByYear transactions).Pairwise
      fun left right => yearText left.1 < yearText right.1 :=
  List.pairwise_map.mpr (exportYears_ascending transactions)

theorem exportYears_eq_nil (empty : (exportYears transactions).getLast? = none) :
    transactions = [] := by
  rw [List.getLast?_eq_none_iff] at empty
  cases transactions with
  | nil => rfl
  | cons first rest =>
    have member : exportTransactionYear first ∈ exportYears (first :: rest) :=
      mem_exportYears.mpr ⟨first, List.mem_cons_self, rfl⟩
    rw [empty] at member
    exact absurd member List.not_mem_nil

theorem natives_bucket_eq_nil_iff :
    (∀ year ∈ exportYears transactions, natives (bucket transactions year) = []) ↔
      natives transactions = [] := by
  constructor
  · intro empty
    rw [List.eq_nil_iff_forall_not_mem]
    intro row member
    obtain ⟨transaction, listed, isRow⟩ := List.mem_filterMap.mp member
    have exported : exportTransactionYear transaction ∈ exportYears transactions :=
      mem_exportYears.mpr ⟨transaction, listed, rfl⟩
    have inBucket : row ∈ natives (bucket transactions (exportTransactionYear transaction)) := by
      apply List.mem_filterMap.mpr
      exact ⟨transaction, List.mem_filter.mpr ⟨listed, by simp⟩, isRow⟩
    rw [empty _ exported] at inBucket
    exact List.not_mem_nil inBucket
  · intro empty year _
    have fewer : (natives (bucket transactions year)).Sublist (natives transactions) :=
      List.filter_sublist.filterMap _
    rw [empty] at fewer
    exact List.sublist_nil.mp fewer

theorem boundaries_do_not_mix_iff :
    ((partitionByYear transactions).IsChain fun left right =>
        HasBoundaries supports left.2 ↔ HasBoundaries supports right.2) ↔
      supports = false ∨ natives transactions = [] ∨
        ∀ year ∈ exportYears transactions, natives (bucket transactions year) ≠ [] := by
  have allOrNone := @isChain_iff_all_or_none _
    (fun entry : ℤ × List ExportAccountTransaction => HasBoundaries supports entry.2)
    (partitionByYear transactions)
  rw [allOrNone, ← natives_bucket_eq_nil_iff]
  unfold partitionByYear HasBoundaries
  simp only [List.forall_mem_map]
  cases supports with
  | false => simp
  | true =>
    simp only [true_and, Bool.true_eq_false, false_or, ne_eq, not_not]
    exact or_comm

end Years

/-! ## Balances of manual-asset accounts at the turn of a year -/

section YearTurns

variable {transactions : List ExportAccountTransaction}

/-- The latest listed balance asserted on a date. -/
def balanceAssertedOn (transactions : List ExportAccountTransaction) (date : ℤ) :
    Option UnsignedAmount :=
  ((assertions transactions).reverse.find? fun assertion =>
    assertion.assertedOn = date).map CustomBalanceAssertionRenderRow.assertedBalance

/-- At the turn of the year from `year` to `next`, a balance asserted on the first day of
`next` is the one last asserted by the end of `year`. -/
def AgreesAtTurn (transactions : List ExportAccountTransaction) (year next : ℤ) : Prop :=
  ∀ balance ∈ balanceAssertedOn transactions (Calendar.yearStart next),
    balanceOnOrBefore transactions (Calendar.yearEnd year) = some balance

theorem balanceOnOrBefore_eq_or {earlier later : ℤ} (before : earlier < later)
    (sorted : (assertions transactions).Pairwise fun left right =>
      left.assertedOn ≤ right.assertedOn)
    (apart : ∀ assertion ∈ assertions transactions,
      assertion.assertedOn ≤ earlier ∨ later ≤ assertion.assertedOn) :
    balanceOnOrBefore transactions later =
      (balanceAssertedOn transactions later).or (balanceOnOrBefore transactions earlier) := by
  unfold balanceOnOrBefore balanceAssertedOn
  rw [find_le_eq_or before (List.pairwise_reverse.mpr sorted)
    (fun row member => apart row (List.mem_reverse.mp member)), Option.map_or]

theorem mem_exportYears_of_assertion {assertion : CustomBalanceAssertionRenderRow}
    (member : assertion ∈ assertions transactions) :
    Calendar.yearOf assertion.assertedOn ∈ exportYears transactions := by
  obtain ⟨transaction, listed, isAssertion⟩ := List.mem_filterMap.mp member
  cases transaction with
  | native row => simp at isAssertion
  | manualAssertion row =>
    obtain rfl := Option.some.inj isAssertion
    exact mem_exportYears.mpr ⟨_, listed, rfl⟩

theorem asserted_apart {front back : List ℤ} {year next : ℤ}
    (ascending : (exportYears transactions).Pairwise (· < ·))
    (split : exportYears transactions = front ++ year :: next :: back) :
    ∀ assertion ∈ assertions transactions,
      assertion.assertedOn ≤ Calendar.yearEnd year ∨
        Calendar.yearStart next ≤ assertion.assertedOn := by
  intro assertion member
  obtain ⟨starts, ends⟩ := Calendar.yearOf_spec assertion.assertedOn
  rcases le_or_ge_of_neighbours ascending split (mem_exportYears_of_assertion member) with
    early | late
  · left
    have bound : Calendar.yearStart (Calendar.yearOf assertion.assertedOn + 1) ≤
        Calendar.yearStart (year + 1) := Calendar.yearStart_strictMono.monotone (by omega)
    unfold Calendar.yearEnd
    omega
  · right
    exact (Calendar.yearStart_strictMono.monotone late).trans starts

/-- **Turns of years.** When assertions are listed by date and exported years ascend, the
balance at the end of each exported year is that at the start of the next exactly when no
assertion on a first day changes it. -/
theorem agrees_iff_balances_meet
    (sorted : (assertions transactions).Pairwise fun left right =>
      left.assertedOn ≤ right.assertedOn)
    (ascending : (exportYears transactions).Pairwise (· < ·)) :
    ((exportYears transactions).IsChain fun year next =>
        balanceOnOrBefore transactions (Calendar.yearEnd year) =
          balanceOnOrBefore transactions (Calendar.yearStart next)) ↔
      (exportYears transactions).IsChain (AgreesAtTurn transactions) := by
  rw [List.isChain_iff_forall_rel_of_append_cons_cons,
    List.isChain_iff_forall_rel_of_append_cons_cons]
  refine forall_congr' fun year => forall_congr' fun next => forall_congr' fun front =>
    forall_congr' fun back => forall_congr' fun split => ?_
  have inOrder : year < next := by
    rw [split] at ascending
    exact (List.pairwise_cons.mp (List.pairwise_append.mp ascending).2.1).1 next
      List.mem_cons_self
  have before : Calendar.yearEnd year < Calendar.yearStart next := by
    have bound := Calendar.yearStart_strictMono.monotone (Int.add_one_le_of_lt inOrder)
    unfold Calendar.yearEnd
    omega
  rw [balanceOnOrBefore_eq_or before sorted (asserted_apart ascending split)]
  unfold AgreesAtTurn
  cases balanceAssertedOn transactions (Calendar.yearStart next) with
  | none => simp
  | some balance => simp

end YearTurns

/-! ## Accounts of a snapshot -/

section Snapshot

variable {sink : JournalSink} {account : ResolvedAccount} {accounts : List ResolvedAccount}
  {transactions : List ExportAccountTransaction}
  {transactionsByAccount : String → List ExportAccountTransaction}
  {incompleteBitcoinAccounts : List String} {supports : Bool}

/-- Assertions are not supported, there are no ledger rows, or every exported year has
some. -/
def NativeYearsCarry (supportsNativeBalanceAssertions : Bool)
    (transactions : List ExportAccountTransaction) : Prop :=
  supportsNativeBalanceAssertions = false ∨ natives transactions = [] ∨
    ∀ year ∈ exportYears transactions, natives (bucket transactions year) ≠ []

/-- The end of each exported year of a manual-asset account meets the start of the next. -/
def ManualYearsCarry (transactions : List ExportAccountTransaction) : Prop :=
  (exportYears transactions).IsChain fun year next =>
    balanceOnOrBefore transactions (Calendar.yearEnd year) =
      balanceOnOrBefore transactions (Calendar.yearStart next)

/-- An account is written when every exported year is filed, in order, and all its files
were accepted; whether they carry balances follows from its rows. -/
structure Written (sink : JournalSink) (account : ResolvedAccount)
    (transactions : List ExportAccountTransaction) (supportsNativeBalanceAssertions : Bool)
    (files : AccountFiles) : Prop where
  sameAccount : files.account = account
  years : files.years.map YearFiles.year = exportYears transactions
  accepted : ∀ journal ∈ files.journals, sink journal = .ok ()
  native : account.boundaryMode = .native →
    (CarriesBalances files ↔ NativeYearsCarry supportsNativeBalanceAssertions transactions)
  manual : account.boundaryMode = .manualAsset →
    (CarriesBalances files ↔ ManualYearsCarry transactions)

theorem years_of_filed {buckets : List (ℤ × List ExportAccountTransaction)}
    {years : List YearFiles}
    (filed : List.Forall₂ (fun bucket files => Filed sink account bucket.1 files)
      buckets years) :
    years.map YearFiles.year = buckets.map Prod.fst ∧
      ∀ journal ∈ years.flatMap (YearFiles.journals account), sink journal = .ok () := by
  induction filed with
  | nil => simp
  | cons first _ ih =>
    obtain ⟨same, accepted⟩ := first
    rw [List.map_cons, List.map_cons, List.flatMap_cons, List.forall_mem_append, same, ih.1]
    exact ⟨rfl, accepted, ih.2⟩

theorem partitionByYear_fst (transactions : List ExportAccountTransaction) :
    (partitionByYear transactions).map Prod.fst = exportYears transactions := by
  simp [partitionByYear, Function.comp_def]

theorem nativeYears_carry {latest : ℤ} {years : List YearFiles}
    (isLatest : (exportYears transactions).getLast? = some latest)
    (written : writeNativeYears sink account supports latest none (partitionByYear transactions) =
      .ok years) :
    CarriesBalances { account, years } ↔ NativeYearsCarry supports transactions := by
  obtain ⟨chain, final⟩ := writeNativeYears_carries written
    (partitionByYear_ascending transactions) (exportYears_getLast isLatest)
  rw [boundaries_do_not_mix_iff] at chain
  exact (and_iff_left final).trans chain

theorem manualYears_carry {latest : ℤ} {years : List YearFiles}
    (isLatest : (exportYears transactions).getLast? = some latest)
    (written : (partitionByYear transactions).mapM
      (writeManualYear sink account latest transactions) = .ok years) :
    CarriesBalances { account, years } ↔ ManualYearsCarry transactions := by
  obtain ⟨chain, final⟩ := writeManualYears_carries written
    (partitionByYear_ascending transactions) (exportYears_getLast isLatest)
  unfold partitionByYear at chain
  rw [List.isChain_map] at chain
  exact (and_iff_left final).trans chain

theorem writeAccount_spec {files : AccountFiles}
    (written : writeAccount sink account transactions supports = .ok files) :
    Written sink account transactions supports files := by
  unfold writeAccount at written
  obtain ⟨years, yearsWritten, written⟩ := Fallible.bind_eq_ok.mp written
  obtain ⟨_, allYears, written⟩ := Fallible.bind_eq_ok.mp written
  rw [Fallible.pure_eq_ok] at written
  subst written
  have filed : List.Forall₂ (fun bucket files => Filed sink account bucket.1 files)
        (partitionByYear transactions) years ∧
      (account.boundaryMode = .native →
        (CarriesBalances { account, years } ↔ NativeYearsCarry supports transactions)) ∧
      (account.boundaryMode = .manualAsset →
        (CarriesBalances { account, years } ↔ ManualYearsCarry transactions)) := by
    cases latest : (exportYears transactions).getLast? with
    | none =>
      rw [latest, Except.ok.injEq] at yearsWritten
      subst yearsWritten
      obtain rfl := exportYears_eq_nil latest
      refine ⟨.nil, fun _ => ?_, fun _ => ?_⟩
      · have nothing : natives [] = [] := rfl
        simp [CarriesBalances, NativeYearsCarry, nothing]
      · have nothing : exportYears [] = [] := rfl
        simp [CarriesBalances, ManualYearsCarry, nothing]
    | some year =>
      cases mode : account.boundaryMode with
      | native =>
        rw [latest, mode] at yearsWritten
        exact ⟨writeNativeYears_filed yearsWritten,
          fun _ => nativeYears_carry latest yearsWritten, by simp⟩
      | manualAsset =>
        rw [latest, mode] at yearsWritten
        exact ⟨writeManualYears_filed yearsWritten, by simp,
          fun _ => manualYears_carry latest yearsWritten⟩
  obtain ⟨years_filed, native, manual⟩ := filed
  obtain ⟨sameYears, accepted⟩ := years_of_filed years_filed
  rw [partitionByYear_fst] at sameYears
  exact ⟨rfl, sameYears, List.forall_mem_append.mpr ⟨accepted, by simpa using allYears⟩,
    native, manual⟩

theorem writeAccounts_spec {transactionsExported balanceAssertionsExported : ℕ}
    {snapshot : SnapshotFiles}
    (written : writeAccounts sink transactionsByAccount incompleteBitcoinAccounts
      transactionsExported balanceAssertionsExported accounts = .ok snapshot) :
    snapshot.accounts.map AccountFiles.account = accounts ∧
      ∀ files ∈ snapshot.accounts,
        Written sink files.account (transactionsByAccount files.account.accountId)
          (decide (files.account.accountId ∉ incompleteBitcoinAccounts)) files := by
  induction accounts generalizing transactionsExported balanceAssertionsExported snapshot with
  | nil =>
    rw [writeAccounts, Except.ok.injEq] at written
    rw [← written]
    simp
  | cons account rest ih =>
    unfold writeAccounts at written
    obtain ⟨_, _, written⟩ := Fallible.bind_eq_ok.mp written
    obtain ⟨_, _, written⟩ := Fallible.bind_eq_ok.mp written
    obtain ⟨_, _, written⟩ := Fallible.bind_eq_ok.mp written
    obtain ⟨_, _, written⟩ := Fallible.bind_eq_ok.mp written
    obtain ⟨files, head, written⟩ := Fallible.bind_eq_ok.mp written
    obtain ⟨later, others, written⟩ := Fallible.bind_eq_ok.mp written
    rw [Fallible.pure_eq_ok] at written
    rw [← written]
    have first := writeAccount_spec head
    obtain ⟨sameRest, restWritten⟩ := ih others
    refine ⟨by rw [List.map_cons, first.sameAccount, sameRest], fun other member => ?_⟩
    rcases List.mem_cons.mp member with rfl | later
    · rw [first.sameAccount]
      exact first
    · exact restWritten other later

theorem writeSnapshot_spec {snapshot : SnapshotFiles}
    (written : writeSnapshot sink accounts transactionsByAccount incompleteBitcoinAccounts =
      .ok snapshot) :
    snapshot.accounts.map AccountFiles.account = accounts ∧
      ∀ files ∈ snapshot.accounts,
        Written sink files.account (transactionsByAccount files.account.accountId)
          (decide (files.account.accountId ∉ incompleteBitcoinAccounts)) files := by
  unfold writeSnapshot at written
  obtain ⟨_, _, written⟩ := Fallible.bind_eq_ok.mp written
  obtain ⟨files, accountsWritten, written⟩ := Fallible.bind_eq_ok.mp written
  obtain ⟨_, _, written⟩ := Fallible.bind_eq_ok.mp written
  obtain ⟨_, _, written⟩ := Fallible.bind_eq_ok.mp written
  rw [Fallible.pure_eq_ok] at written
  rw [← written]
  exact writeAccounts_spec accountsWritten

/-- **Balances across year boundaries.** Every account of a snapshot is written from its own
rows. A native account carries its balances exactly when its assertions are left out, it
has no ledger rows or every exported year has some. A manual-asset account does exactly when
the balance at the end of each exported year is that at the start of the next: with rows
listed by date and years in order, when no assertion on a first day changes it. -/
theorem carriesBalances_iff_of_writeSnapshot {snapshot : SnapshotFiles}
    (written : writeSnapshot sink accounts transactionsByAccount incompleteBitcoinAccounts =
      .ok snapshot) :
    snapshot.accounts.map AccountFiles.account = accounts ∧
      ∀ files ∈ snapshot.accounts,
        let transactions := transactionsByAccount files.account.accountId
        files.years.map YearFiles.year = exportYears transactions ∧
          (∀ journal ∈ files.journals, sink journal = .ok ()) ∧
          (files.account.boundaryMode = .native →
            (CarriesBalances files ↔
              files.account.accountId ∈ incompleteBitcoinAccounts ∨ natives transactions = [] ∨
                ∀ year ∈ exportYears transactions, natives (bucket transactions year) ≠ [])) ∧
          (files.account.boundaryMode = .manualAsset →
            (CarriesBalances files ↔ ManualYearsCarry transactions) ∧
              ((assertions transactions).Pairwise (fun left right =>
                  left.assertedOn ≤ right.assertedOn) →
                (exportYears transactions).Pairwise (· < ·) →
                (CarriesBalances files ↔
                  (exportYears transactions).IsChain (AgreesAtTurn transactions)))) := by
  obtain ⟨sameAccounts, each⟩ := writeSnapshot_spec written
  refine ⟨sameAccounts, fun files member => ?_⟩
  have done := each files member
  refine ⟨done.years, done.accepted, fun native => ?_, fun manual => ?_⟩
  · rw [done.native native]
    simp [NativeYearsCarry]
  · refine ⟨done.manual manual, fun sorted ascending => ?_⟩
    rw [done.manual manual]
    exact agrees_iff_balances_meet sorted ascending

end Snapshot

/-! ## A year that holds only an assertion -/

private theorem five_fits : 5 ≤ u128Max := by decide

/-- 5 is received in 2023 and the provider asserts 5 in 2024. -/
def assertedLater : List ExportAccountTransaction :=
  [.native ⟨"account", "a0", .incoming, .confirmed, 5, .zero, 1686787200000000000, some 100, none,
      none, some ⟨5, five_fits⟩⟩,
    .manualAssertion ⟨"b0", 19889, ⟨5, five_fits⟩, none, .api⟩]

private def receiver : ResolvedAccount where
  accountId := "account"
  commodity := { unitCode := "BTC", decimalPrecision := 8 }
  boundaryMode := .native
  walletSegment := "wallet"
  accountSegment := "account"
  hledgerAccountName := "assets:wallet:account"
  nativeRenderContext := some { networkFeeAccount := "expenses:fees" }

/-- The year 2023 is closed with 5 and the year 2024 is not opened. -/
private def assertedLaterFiles : AccountFiles where
  account := receiver
  years :=
    [{ year := 2023
       opening := some .zero
       entries := [.transaction
        ⟨19523, [⟨"assets:wallet:account", .positive, ⟨5, five_fits⟩, some ⟨5, five_fits⟩⟩,
          ⟨"income:unknown", .negative, ⟨5, five_fits⟩, none⟩]⟩]
       closing := some ⟨5, five_fits⟩ },
      { year := 2024
        opening := none
        entries := [.assertion ⟨"b0", 19889, ⟨5, five_fits⟩, none, .api⟩]
        closing := none }]

private theorem assertedLater_written :
    writeSnapshot (fun _ => .ok ()) [receiver] (fun _ => assertedLater) [] =
      .ok ⟨1, 1, [assertedLaterFiles]⟩ := by
  decide +kernel

/-- The 5 taken out at the end of 2023 is not put back. -/
theorem not_carriesBalances_assertedLater :
    ¬ ∀ (sink : JournalSink) (accounts : List ResolvedAccount)
        (transactionsByAccount : String → List ExportAccountTransaction)
        (incompleteBitcoinAccounts : List String) (snapshot : SnapshotFiles),
      writeSnapshot sink accounts transactionsByAccount incompleteBitcoinAccounts = .ok snapshot →
        ∀ files ∈ snapshot.accounts, CarriesBalances files := by
  intro carries
  have carried := carries _ _ _ _ _ assertedLater_written assertedLaterFiles
    List.mem_cons_self
  have meets := (List.isChain_cons_cons.mp carried.1).1
  exact absurd meets (by decide)

/-- The characterization at the rows of `assertedLater`. -/
theorem carriesBalances_assertedLater :
    [receiver] = [receiver] ∧
      ∀ files ∈ [assertedLaterFiles],
        files.years.map YearFiles.year = exportYears assertedLater ∧
          (∀ journal ∈ files.journals, (fun _ => .ok () : JournalSink) journal = .ok ()) ∧
          (files.account.boundaryMode = .native →
            (CarriesBalances files ↔
              files.account.accountId ∈ ([] : List String) ∨ natives assertedLater = [] ∨
                ∀ year ∈ exportYears assertedLater, natives (bucket assertedLater year) ≠ [])) ∧
          (files.account.boundaryMode = .manualAsset →
            (CarriesBalances files ↔ ManualYearsCarry assertedLater) ∧
              ((assertions assertedLater).Pairwise (fun left right =>
                  left.assertedOn ≤ right.assertedOn) →
                (exportYears assertedLater).Pairwise (· < ·) →
                (CarriesBalances files ↔
                  (exportYears assertedLater).IsChain (AgreesAtTurn assertedLater)))) :=
  carriesBalances_iff_of_writeSnapshot assertedLater_written

/-- An account asserts 5 in 2023 and 8 on the first day of 2024. -/
example : ¬ ManualYearsCarry
    [.manualAssertion ⟨"a0", 19523, ⟨5, by decide⟩, none, .manual⟩,
      .manualAssertion ⟨"b0", 19723, ⟨8, by decide⟩, none, .manual⟩] := by
  unfold ManualYearsCarry
  decide +kernel

end Bitgarth.Export
