import FairBridge.Api.Buy
import FairBridge.Api.Quote
import FairBridge.Async.Admission
import FairBridge.Async.History
import FairBridge.Async.Learning
import FairBridge.Async.Program
import FairBridge.Async.Rules
import FairBridge.Async.Section
import FairBridge.Async.Steady
import FairBridge.Async.System
import FairBridge.Contract.TokenBook
import FairBridge.Contract.Wfair
import FairBridge.Guarantees.AddressBytes
import FairBridge.Guarantees.AmountText
import FairBridge.Guarantees.Attribution
import FairBridge.Guarantees.BlockFetches
import FairBridge.Guarantees.BurnCursor
import FairBridge.Guarantees.BurnPasses
import FairBridge.Guarantees.BurnReleases
import FairBridge.Guarantees.BurnRetries
import FairBridge.Guarantees.BuyOrders
import FairBridge.Guarantees.BuybackCycles
import FairBridge.Guarantees.BuybackShares
import FairBridge.Guarantees.CreditedRows
import FairBridge.Guarantees.DailyCap
import FairBridge.Guarantees.FairCursor
import FairBridge.Guarantees.Footprints
import FairBridge.Guarantees.Intents
import FairBridge.Guarantees.MintClaims
import FairBridge.Guarantees.MintModes
import FairBridge.Guarantees.MintRetries
import FairBridge.Guarantees.OrderDelivery
import FairBridge.Guarantees.OrderJobs
import FairBridge.Guarantees.OrderLifecycle
import FairBridge.Guarantees.OrderedAmounts
import FairBridge.Guarantees.PaidOrders
import FairBridge.Guarantees.PayoutAccounts
import FairBridge.Guarantees.PolicyNumbers
import FairBridge.Guarantees.QuotedOrders
import FairBridge.Guarantees.Quotes
import FairBridge.Guarantees.Redaction
import FairBridge.Guarantees.ReleaseAttempts
import FairBridge.Guarantees.ReleaseBooks
import FairBridge.Guarantees.ReleaseClaims
import FairBridge.Guarantees.RewardBooks
import FairBridge.Guarantees.RewardPool
import FairBridge.Guarantees.SafeProposals
import FairBridge.Guarantees.ScanWindows
import FairBridge.Guarantees.SoleOwnership
import FairBridge.Guarantees.StrandedOrders
import FairBridge.Guarantees.SupplyCap
import FairBridge.Guarantees.SwapProceeds
import FairBridge.Guarantees.TaskAreas
import FairBridge.Guarantees.TickOverlap
import FairBridge.Guarantees.WfairLedger
import FairBridge.Guarantees.WithdrawalCap
import FairBridge.Ledger.Deposits
import FairBridge.Ledger.Mints
import FairBridge.Ledger.Scans
import FairBridge.Lib.Redact
import FairBridge.Model.Config
import FairBridge.Model.Documents
import FairBridge.Model.Environment
import FairBridge.Model.Frame
import FairBridge.Model.Number
import FairBridge.Model.Requests
import FairBridge.Model.Text
import FairBridge.Model.World
import FairBridge.Rpc.Fair
import FairBridge.Service
import FairBridge.Signer.Base
import FairBridge.Signer.Buy
import FairBridge.Signer.BuyOutline
import FairBridge.Signer.Fair
import FairBridge.Signer.MintOutline
import FairBridge.Signer.ReleaseOutline
import FairBridge.Store.Collection
import FairBridge.Store.JobQueue
import FairBridge.Store.Query
import FairBridge.Worker.BaseWatcher
import FairBridge.Worker.BlockOutline
import FairBridge.Worker.BurnOutline
import FairBridge.Worker.BuyWatcher
import FairBridge.Worker.Buyback
import FairBridge.Worker.FairWatcher
import FairBridge.Worker.Orchestrator
import FairBridge.Worker.PaymentOutline
import FairBridge.Worker.RewardOutline
