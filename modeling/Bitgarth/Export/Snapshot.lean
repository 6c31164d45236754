import Bitgarth.Export.Journal

/-! # Writing an export snapshot

A snapshot holds, for every account and exported year, the year's journal, an opening and
a closing journal where the year has a boundary there, and the include files that tie
them together. A year is filed under its decimal text, so years follow each other in the
order of their texts.
-/

namespace Bitgarth.Export

open Amounts

inductive ExportAccountBoundaryMode where
  | native
  | manualAsset
deriving DecidableEq, Repr

structure CommodityDirective where
  unitCode : String
  decimalPrecision : ℕ
deriving DecidableEq, Repr

structure NativeTransactionRenderContext where
  networkFeeAccount : String
deriving DecidableEq, Repr

/-- An account with the names it is exported under. -/
structure ResolvedAccount where
  accountId : String
  commodity : CommodityDirective
  boundaryMode : ExportAccountBoundaryMode
  walletSegment : String
  accountSegment : String
  hledgerAccountName : String
  nativeRenderContext : Option NativeTransactionRenderContext
deriving DecidableEq, Repr

inductive AccountJournalEntry where
  | transaction (entry : JournalTransaction)
  | assertion (assertion : CustomBalanceAssertionRenderRow)
deriving DecidableEq, Repr

/-- A file of the snapshot: whose it is and what it holds. -/
inductive Journal where
  | directives (commodities : List CommodityDirective)
  | yearOpening (account : ResolvedAccount) (year : ℤ) (balance : UnsignedAmount)
  | year (account : ResolvedAccount) (year : ℤ) (entries : List AccountJournalEntry)
  | yearClosing (account : ResolvedAccount) (year : ℤ) (balance : UnsignedAmount)
  | yearInclude (account : ResolvedAccount) (year : ℤ) (includeOpening includeClosing : Bool)
  | allYears (account : ResolvedAccount) (years : List ℤ)
  | walletYearInclude (wallet : String) (year : ℤ) (accounts : List String)
  | walletAllYears (wallet : String) (years : List ℤ)
  | ownerYearInclude (year : ℤ) (wallets : List String)
  | ownerAllYears (years : List ℤ)
  | rootYearInclude (year : ℤ)
  | rootAllYears (years : List ℤ)
  | rootEntry
deriving DecidableEq, Repr

/-- Where journals are written; a write may fail. -/
abbrev JournalSink := Journal → Except ExportEngineError Unit

/-- Write journals in order. -/
def writeAll (sink : JournalSink) : List Journal → Except ExportEngineError Unit
  | [] => .ok ()
  | journal :: rest => do
      sink journal
      writeAll sink rest

/-- The files written for one year of an account. -/
structure YearFiles where
  year : ℤ
  opening : Option UnsignedAmount
  entries : List AccountJournalEntry
  closing : Option UnsignedAmount
deriving DecidableEq, Repr

def YearFiles.journals (account : ResolvedAccount) (files : YearFiles) : List Journal :=
  files.opening.toList.map (.yearOpening account files.year) ++
    [.year account files.year files.entries] ++
    files.closing.toList.map (.yearClosing account files.year) ++
    [.yearInclude account files.year files.opening.isSome files.closing.isSome]

/-- The files written for an account. -/
structure AccountFiles where
  account : ResolvedAccount
  years : List YearFiles
deriving DecidableEq, Repr

def AccountFiles.journals (files : AccountFiles) : List Journal :=
  files.years.flatMap (YearFiles.journals files.account) ++
    [.allYears files.account (files.years.map YearFiles.year)]

/-! ## Years of an account -/

/-- `export_transaction_year`. -/
def exportTransactionYear : ExportAccountTransaction → ℤ
  | .native transaction => transaction.year
  | .manualAssertion assertion => Calendar.yearOf assertion.assertedOn

/-- The text a year is filed under. -/
def yearText (year : ℤ) : String := toString year

/-- Distinct years in the order of their texts. -/
def sortYears (years : List ℤ) : List ℤ :=
  years.dedup.insertionSort fun left right => yearText left ≤ yearText right

def exportYears (transactions : List ExportAccountTransaction) : List ℤ :=
  sortYears (transactions.map exportTransactionYear)

/-- The rows of one year, in list order. -/
def bucket (transactions : List ExportAccountTransaction) (year : ℤ) :
    List ExportAccountTransaction :=
  transactions.filter fun transaction => exportTransactionYear transaction = year

/-- `partition_account_transactions_by_year`. -/
def partitionByYear (transactions : List ExportAccountTransaction) :
    List (ℤ × List ExportAccountTransaction) :=
  (exportYears transactions).map fun year => (year, bucket transactions year)

/-! ## Boundaries of native years -/

/-- `implied_native_opening_balance`. -/
def impliedNativeOpeningBalance (accountId : String) (transaction : AggregatedAccountTransaction) :
    Except ExportEngineError UnsignedAmount :=
  match transaction.closingBalance with
  | none =>
    .error (.invariant ("ledger chain: confirmed row missing closing balance for account " ++
      accountId ++ " tx " ++ transaction.txHash))
  | some amount =>
    match amount.trySigned with
    | none =>
      .error (.invariant ("ledger chain: closing balance out of range for account " ++
        accountId ++ " tx " ++ transaction.txHash))
    | some closing =>
      match checkedSub closing transaction.balanceDelta with
      | none =>
        .error (.invariant ("ledger chain: implied opening overflow for account " ++
          accountId ++ " tx " ++ transaction.txHash))
      | some opening =>
        match UnsignedAmount.tryFromSigned opening with
        | none =>
          .error (.invariant ("ledger chain: negative implied opening for account " ++
            accountId ++ " tx " ++ transaction.txHash))
        | some amount => .ok amount

/-- `native_year_opening_and_closing_balances`. -/
def nativeYearOpeningAndClosingBalances (accountId : String)
    (transactions : List AggregatedAccountTransaction)
    (previousClosingBalance : Option UnsignedAmount) :
    Except ExportEngineError (UnsignedAmount × UnsignedAmount) := do
  let opening ← (match previousClosingBalance, transactions.head? with
    | some balance, _ => .ok balance
    | none, some first => impliedNativeOpeningBalance accountId first
    | none, none =>
      .error (.invariant "ledger chain: cannot compute opening balance for empty native year"))
  match transactions.getLast?.bind AggregatedAccountTransaction.closingBalance with
  | none =>
    .error (.invariant ("ledger chain: cannot compute closing balance for account " ++
      accountId ++ " from empty year or missing closing_balance"))
  | some closing => return (opening, closing)

/-- The boundaries of a native year; a year without ledger rows has none. -/
def nativeBoundaries (account : ResolvedAccount) (supportsNativeBalanceAssertions : Bool)
    (previousClosingBalance : Option UnsignedAmount)
    (transactions : List ExportAccountTransaction) :
    Except ExportEngineError (Option (UnsignedAmount × UnsignedAmount)) :=
  if (natives transactions).isEmpty || !supportsNativeBalanceAssertions then
    .ok none
  else
    (nativeYearOpeningAndClosingBalances account.accountId (natives transactions)
      previousClosingBalance).map some

/-! ## Boundaries of manual-asset years -/

/-- The latest listed assertion dated on or before a boundary, from the end of the list. -/
def scanBalanceOnOrBefore (boundary : ℤ) :
    List ExportAccountTransaction → Except ExportEngineError (Option UnsignedAmount)
  | [] => .ok none
  | .native _ :: _ =>
    .error (.invariant "Custom balance resolution encountered native transaction")
  | .manualAssertion assertion :: rest =>
    if assertion.assertedOn ≤ boundary then
      .ok (some assertion.assertedBalance)
    else
      scanBalanceOnOrBefore boundary rest

/-- `custom_balance_on_or_before`. -/
def customBalanceOnOrBefore (transactions : List ExportAccountTransaction) (boundary : ℤ) :
    Except ExportEngineError (Option UnsignedAmount) :=
  scanBalanceOnOrBefore boundary transactions.reverse

/-- `custom_year_opening_balance`. -/
def customYearOpeningBalance (transactions : List ExportAccountTransaction) (year : ℤ) :
    Except ExportEngineError (Option UnsignedAmount) :=
  customBalanceOnOrBefore transactions (Calendar.yearStart year)

/-- `custom_year_closing_balance`. -/
def customYearClosingBalance (transactions : List ExportAccountTransaction) (year : ℤ) :
    Except ExportEngineError (Option UnsignedAmount) :=
  customBalanceOnOrBefore transactions (Calendar.yearEnd year)

/-! ## Writing -/

/-- How a format error reads as an export error. -/
def ExportEngineError.ofFormat : HledgerFormatError → ExportEngineError
  | .amountOverflow field => .format ("amount overflow while aggregating " ++ field)
  | .invalidTransaction message => .format message

def buildAccountJournalEntry (account : ResolvedAccount) :
    ExportAccountTransaction → Except ExportEngineError AccountJournalEntry
  | .native transaction =>
    match account.nativeRenderContext with
    | none => .error (.invariant "native hledger transaction missing render context")
    | some context =>
      ((buildHledgerTransaction account.hledgerAccountName context.networkFeeAccount
        transaction).mapError ExportEngineError.ofFormat).map .transaction
  | .manualAssertion assertion => .ok (.assertion assertion)

/-- Write the files of one year; the closing journal is left out of the latest year. -/
def writeYear (sink : JournalSink) (account : ResolvedAccount) (latestAccountYear year : ℤ)
    (transactions : List ExportAccountTransaction) (opening closing : Option UnsignedAmount) :
    Except ExportEngineError YearFiles := do
  writeAll sink (opening.toList.map (.yearOpening account year))
  let entries ← transactions.mapM (buildAccountJournalEntry account)
  sink (.year account year entries)
  let closing := if yearText year < yearText latestAccountYear then closing else none
  writeAll sink (closing.toList.map (.yearClosing account year))
  sink (.yearInclude account year opening.isSome closing.isSome)
  return { year, opening, entries, closing }

/-- The years of a native account; each opens with the closing balance before it. -/
def writeNativeYears (sink : JournalSink) (account : ResolvedAccount)
    (supportsNativeBalanceAssertions : Bool) (latestAccountYear : ℤ) :
    Option UnsignedAmount → List (ℤ × List ExportAccountTransaction) →
      Except ExportEngineError (List YearFiles)
  | _, [] => .ok []
  | previousClosingBalance, (year, transactions) :: rest => do
      let boundaries ← nativeBoundaries account supportsNativeBalanceAssertions
        previousClosingBalance transactions
      let files ← writeYear sink account latestAccountYear year transactions
        (boundaries.map Prod.fst) (boundaries.map Prod.snd)
      let later ← writeNativeYears sink account supportsNativeBalanceAssertions
        latestAccountYear ((boundaries.map Prod.snd).or previousClosingBalance) rest
      return files :: later

/-- One year of a manual-asset account; both boundaries are read off all its rows. -/
def writeManualYear (sink : JournalSink) (account : ResolvedAccount) (latestAccountYear : ℤ)
    (accountTransactions : List ExportAccountTransaction)
    (yearBucket : ℤ × List ExportAccountTransaction) : Except ExportEngineError YearFiles := do
  let opening ← customYearOpeningBalance accountTransactions yearBucket.1
  let closing ← customYearClosingBalance accountTransactions yearBucket.1
  writeYear sink account latestAccountYear yearBucket.1 yearBucket.2 opening closing

/-- The files of one account. -/
def writeAccount (sink : JournalSink) (account : ResolvedAccount)
    (transactions : List ExportAccountTransaction) (supportsNativeBalanceAssertions : Bool) :
    Except ExportEngineError AccountFiles := do
  let years ← (match (exportYears transactions).getLast?, account.boundaryMode with
    | none, _ => .ok []
    | some latest, .native =>
      writeNativeYears sink account supportsNativeBalanceAssertions latest none
        (partitionByYear transactions)
    | some latest, .manualAsset =>
      (partitionByYear transactions).mapM (writeManualYear sink account latest transactions))
  sink (.allYears account (years.map YearFiles.year))
  return { account, years }

def u32Max : ℕ := 4294967295

/-- `count_export_rows_by_kind`, for a number of rows already counted. -/
def countExportRows (accountId : String) (count : ℕ) : Except ExportEngineError ℕ :=
  if count ≤ u32Max then
    .ok count
  else
    .error (.invariant ("Too many hledger export rows to count for account " ++ accountId))

/-- Add to a running count. -/
def addCount (total count : ℕ) (message : String) : Except ExportEngineError ℕ :=
  if total + count ≤ u32Max then .ok (total + count) else .error (.invariant message)

/-- What a snapshot holds before its indexes. -/
structure SnapshotFiles where
  transactionsExported : ℕ
  balanceAssertionsExported : ℕ
  accounts : List AccountFiles
deriving DecidableEq, Repr

/-- Count and write the accounts in turn. -/
def writeAccounts (sink : JournalSink)
    (transactionsByAccount : String → List ExportAccountTransaction)
    (incompleteBitcoinAccounts : List String) :
    ℕ → ℕ → List ResolvedAccount → Except ExportEngineError SnapshotFiles
  | transactionsExported, balanceAssertionsExported, [] =>
    .ok { transactionsExported, balanceAssertionsExported, accounts := [] }
  | transactionsExported, balanceAssertionsExported, account :: rest => do
      let transactions := transactionsByAccount account.accountId
      let nativeCount ← countExportRows account.accountId (natives transactions).length
      let transactionsExported ← addCount transactionsExported nativeCount
        "Transaction export count overflowed u32"
      let assertionCount ← countExportRows account.accountId (assertions transactions).length
      let balanceAssertionsExported ← addCount balanceAssertionsExported assertionCount
        "Balance assertion export count overflowed u32"
      let files ← writeAccount sink account transactions
        (decide (account.accountId ∉ incompleteBitcoinAccounts))
      let later ← writeAccounts sink transactionsByAccount incompleteBitcoinAccounts
        transactionsExported balanceAssertionsExported rest
      return { later with accounts := files :: later.accounts }

/-! ## Indexes -/

/-- A year of an account, as the include index records it. -/
structure AccountYearRef where
  wallet : String
  account : String
  year : ℤ
deriving DecidableEq, Repr

/-- The account years of a snapshot. -/
def includeIndex (accounts : List AccountFiles) : List AccountYearRef :=
  accounts.flatMap fun files => files.years.map fun year =>
    { wallet := files.account.walletSegment, account := files.account.accountSegment,
      year := year.year }

/-- Distinct texts in order. -/
def sortTexts (texts : List String) : List String :=
  texts.dedup.insertionSort (· ≤ ·)

/-- `write_aggregate_include_indexes`, as the journals it writes. -/
def indexJournals (index : List AccountYearRef) : List Journal :=
  let wallets := sortTexts (index.map AccountYearRef.wallet)
  let years := sortYears (index.map AccountYearRef.year)
  let yearsOf := fun wallet =>
    sortYears ((index.filter fun ref => ref.wallet = wallet).map AccountYearRef.year)
  (wallets.flatMap fun wallet => (yearsOf wallet).map fun year =>
    .walletYearInclude wallet year (sortTexts
      ((index.filter fun ref => ref.wallet = wallet ∧ ref.year = year).map
        AccountYearRef.account))) ++
    wallets.map (fun wallet => .walletAllYears wallet (yearsOf wallet)) ++
    years.map (fun year => .ownerYearInclude year (sortTexts
      ((index.filter fun ref => ref.year = year).map AccountYearRef.wallet))) ++
    (if years.isEmpty then [] else [.ownerAllYears years]) ++
    years.map .rootYearInclude ++ [.rootAllYears years]

/-- `write_snapshot`. -/
def writeSnapshot (sink : JournalSink) (accounts : List ResolvedAccount)
    (transactionsByAccount : String → List ExportAccountTransaction)
    (incompleteBitcoinAccounts : List String) : Except ExportEngineError SnapshotFiles := do
  sink (.directives (accounts.map ResolvedAccount.commodity))
  let files ← writeAccounts sink transactionsByAccount incompleteBitcoinAccounts 0 0 accounts
  writeAll sink (indexJournals (includeIndex files.accounts))
  sink .rootEntry
  return files

end Bitgarth.Export
