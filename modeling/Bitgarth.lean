import Bitgarth.Calendar
import Bitgarth.Foundation.EulerTrail
import Bitgarth.Ledger.BitcoinReadback
import Bitgarth.Ledger.AccountReadback
import Bitgarth.Foundation.Paging
import Bitgarth.Ledger.Pages
import Bitgarth.Export.Chain
import Bitgarth.Export.BitcoinOrder
import Bitgarth.Export.Prepare
import Bitgarth.Export.BitcoinCompleteness
import Bitgarth.Export.AccountAgreement
import Bitgarth.Foundation.RunningTotal
import Bitgarth.Export.Journal
import Bitgarth.Export.Replay
import Bitgarth.Export.Snapshot
import Bitgarth.Export.YearBoundaries
import Bitgarth.Foundation.GapCount
import Bitgarth.Sync.Gate
import Bitgarth.Sync.HdScan
import Bitgarth.Sync.HdScanSteps
import Bitgarth.Sync.GapLimit
import Bitgarth.Sync.RateLimit
import Bitgarth.Sync.RateLimitEscalation
import Bitgarth.Foundation.KeyedTable
import Bitgarth.Store.Reconciliation
import Bitgarth.Store.TransactionWrites
import Bitgarth.Store.CoverageSurvival
import Bitgarth.Store.SpentLinks
import Bitgarth.Store.AccountReconciliation
import Bitgarth.Store.AccountWrites
import Bitgarth.Store.AddressScope
import Bitgarth.Store.MempoolMapper
import Bitgarth.Store.LedgerBuild
import Bitgarth.Store.LastWrites
import Bitgarth.Store.ReadableRows
import Bitgarth.Store.PermutedRuns
import Bitgarth.Store.FirstSpender
import Bitgarth.Store.OrderIndependence
import Bitgarth.Foundation.MergeFold
import Bitgarth.Store.EtherscanMapper
import Bitgarth.Store.EtherscanAggregation
import Bitgarth.Store.EtherscanRecords
import Bitgarth.Store.AccountLastWrites
import Bitgarth.Store.RawVersions
import Bitgarth.Store.RawHeads
import Bitgarth.Store.RetainedPages
import Bitgarth.Store.WindowedMapping
import Bitgarth.Store.WindowedPages
import Bitgarth.Store.WindowedRuns
import Bitgarth.Sync.SyncAttempts
import Bitgarth.Accounts.AccountModes
import Bitgarth.Sync.Planner
import Bitgarth.Sync.BreadthRounds
import Bitgarth.Accounts.Labels
import Bitgarth.Accounts.Moves
import Bitgarth.Accounts.AdmissionText
import Bitgarth.Accounts.Admission
import Bitgarth.Accounts.AdmissionOrder
import Bitgarth.Accounts.AdmissionRuns
import Bitgarth.Payments.Capabilities
import Bitgarth.Accounts.WriteGate
import Bitgarth.Accounts.EthAddress
import Bitgarth.Accounts.TrackedAddresses
import Bitgarth.Accounts.DerivationProgress
import Bitgarth.Store.AccountLedgerBuild
import Bitgarth.Store.ChainCleanup
import Bitgarth.Store.TrackedRows
import Bitgarth.Store.AccountFrame
import Bitgarth.Accounts.Deletion
import Bitgarth.Auth.PasswordChange
import Bitgarth.Foundation.Interruption
import Bitgarth.Auth.Registration
import Bitgarth.Auth.RegistrationSafety
import Bitgarth.Auth.RegistrationRuns
import Bitgarth.Auth.Lifecycle
import Bitgarth.Auth.PairingStore
import Bitgarth.Auth.PairingEvents
import Bitgarth.Auth.PairingSafety
import Bitgarth.Auth.PairingRetry
import Bitgarth.Auth.ClientKeys
import Bitgarth.Auth.ClientKeySafety
import Bitgarth.Tasks.Flights
import Bitgarth.Tasks.TaskSystem
import Bitgarth.Payments.Orders
import Bitgarth.Payments.Tokens
import Bitgarth.Foundation.JsonStruct
import Bitgarth.Payments.OrderHistory
import Bitgarth.Payments.PremiumSection
import Bitgarth.Payments.PremiumRuns
import Bitgarth.Foundation.VersionChains
import Bitgarth.Mempool.RawHead
import Bitgarth.Payments.Transfer
import Bitgarth.Mempool.StrictScan
import Bitgarth.Auth.InactiveCleanup
import Bitgarth.Auth.Sessions
import Bitgarth.Auth.SessionPins
import Bitgarth.Auth.InactiveCleanupRuns
import Bitgarth.Auth.InactiveCleanupTurns
import Bitgarth.Foundation.SplitText
import Bitgarth.Traces.Har
import Bitgarth.Traces.Noninterference
import Bitgarth.Foundation.Outcomes
import Bitgarth.Prices.Planner
import Bitgarth.Prices.PriceStore
import Bitgarth.Prices.Freshness
import Bitgarth.Prices.Backfill
import Bitgarth.Prices.BackfillCalls
import Bitgarth.Prices.BackfillQueue
import Bitgarth.Prices.BackfillRuns
import Bitgarth.Foundation.LeastOrder
import Bitgarth.Ledger.CanonicalOrder
import Bitgarth.Store.BitcoinBasis
import Bitgarth.Store.EtherscanOrder
import Bitgarth.Mempool.ScanExactness
import Bitgarth.Foundation.TwoLimbs
import Bitgarth.Store.SplitAmounts
import Bitgarth.Store.FlowClassification
import Bitgarth.Foundation.GroupedFold
import Bitgarth.Store.AccountSummaries
import Bitgarth.Store.AccountConservation
import Bitgarth.Store.ConservedRuns
import Bitgarth.Store.BalanceTotals
import Bitgarth.Foundation.FreshNames
import Bitgarth.Export.AccountSegments
import Bitgarth.Export.JournalText
import Bitgarth.Foundation.Base128
import Bitgarth.Trezor.Fields
import Bitgarth.Trezor.Messages
import Bitgarth.Accounts.UniqueLabels
import Bitgarth.Accounts.ManualBalances
import Bitgarth.Accounts.ManualMigration
import Bitgarth.Trezor.RoundTrips
import Bitgarth.Sync.ErrorMessages
import Bitgarth.Payments.CatalogRows
import Bitgarth.Foundation.Loops
import Bitgarth.Prices.SpanExecution
import Bitgarth.Prices.SpanSchedules
import Bitgarth.Prices.WalletPages
