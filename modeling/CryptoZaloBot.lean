import CryptoZaloBot.Base.System
import CryptoZaloBot.Base.ReadThrough
import CryptoZaloBot.Base.Utf16
import CryptoZaloBot.Base.InsertionMap
import CryptoZaloBot.Base.RunningSum
import CryptoZaloBot.Base.Decimal
import CryptoZaloBot.Base.Numeral
import CryptoZaloBot.Base.Notation
import CryptoZaloBot.Base.AverageCost
import CryptoZaloBot.Base.JsNumber
import CryptoZaloBot.Base.Binary64
import CryptoZaloBot.Base.FixedPoint
import CryptoZaloBot.Base.Writes
import CryptoZaloBot.Base.Timeline
import CryptoZaloBot.Base.Lease
import CryptoZaloBot.Base.Action
import CryptoZaloBot.Base.Blocks
import CryptoZaloBot.Base.IsoTime
import CryptoZaloBot.Base.Gaps
import CryptoZaloBot.Base.Counts
import CryptoZaloBot.Base.Keyed
import CryptoZaloBot.Base.Collect
import CryptoZaloBot.Base.WeightedMean
import CryptoZaloBot.Base.Unicode
import CryptoZaloBot.Base.Words
import CryptoZaloBot.Prices.Lookup
import CryptoZaloBot.Prices.Cache
import CryptoZaloBot.Prices.Aliases
import CryptoZaloBot.Prices.Quotes
import CryptoZaloBot.Portfolio.Calculator
import CryptoZaloBot.Portfolio.Units
import CryptoZaloBot.Portfolio.Store
import CryptoZaloBot.Portfolio.Service
import CryptoZaloBot.Portfolio.Sessions
import CryptoZaloBot.Portfolio.Ledger
import CryptoZaloBot.Portfolio.HeldCoins
import CryptoZaloBot.Portfolio.Costs
import CryptoZaloBot.Portfolio.Outcomes
import CryptoZaloBot.Portfolio.Replays
import CryptoZaloBot.Portfolio.Views
import CryptoZaloBot.Portfolio.UsageReport
import CryptoZaloBot.Portfolio.Interleaving
import CryptoZaloBot.Portfolio.Valuation
import CryptoZaloBot.Commands.Parser
import CryptoZaloBot.Commands.Unicode
import CryptoZaloBot.Commands.Letters
import CryptoZaloBot.Commands.Messages
import CryptoZaloBot.Commands.Vietnamese
import CryptoZaloBot.Commands.Trades
import CryptoZaloBot.Commands.Quantities
import CryptoZaloBot.Commands.Symbols
import CryptoZaloBot.Commands.Shown
import CryptoZaloBot.Commands.Prices
import CryptoZaloBot.Commands.Histories
import CryptoZaloBot.Commands.Folding
import CryptoZaloBot.PriceAlerts.Check
import CryptoZaloBot.PriceAlerts.Backoff
import CryptoZaloBot.PriceAlerts.Service
import CryptoZaloBot.PriceAlerts.Ids
import CryptoZaloBot.Monitor.Rules
import CryptoZaloBot.Monitor.Outages
import CryptoZaloBot.Monitor.Service
import CryptoZaloBot.Monitor.Runs
import CryptoZaloBot.Monitor.Silences
import CryptoZaloBot.Monitor.Notices
import CryptoZaloBot.Monitor.Recovery
import CryptoZaloBot.Monitor.Watchdog
import CryptoZaloBot.Monitor.Unreadable
import CryptoZaloBot.Monitor.Report
import CryptoZaloBot.Monitor.Rejections
import CryptoZaloBot.Monitor.RejectionReport
import CryptoZaloBot.Signals.Evaluator
import CryptoZaloBot.Signals.Repeat
import CryptoZaloBot.Signals.Check
import CryptoZaloBot.Signals.Told
import CryptoZaloBot.Signals.Cooldown
import CryptoZaloBot.Signals.Records
import CryptoZaloBot.Signals.Deliveries
import CryptoZaloBot.Signals.Monitor
import CryptoZaloBot.Signals.MonitorOverlap
import CryptoZaloBot.Signals.History
import CryptoZaloBot.Signals.RunLock
import CryptoZaloBot.Signals.Scorecard
import CryptoZaloBot.Signals.Swings
import CryptoZaloBot.Signals.Report
import CryptoZaloBot.Signals.Backtest
import CryptoZaloBot.Signals.Rescaling
import CryptoZaloBot.Signals.HistoryWrites
import CryptoZaloBot.Signals.Service
import CryptoZaloBot.Signals.Backfill
import CryptoZaloBot.Signals.BackfillQueue
import CryptoZaloBot.Signals.RecordTexts
import CryptoZaloBot.Signals.RecordList
import CryptoZaloBot.Signals.Tracking
import CryptoZaloBot.Subscribers.Service
import CryptoZaloBot.Subscribers.Commands
import CryptoZaloBot.Subscribers.Mirror
import CryptoZaloBot.Controllers.Services
import CryptoZaloBot.Controllers.Webhook
import CryptoZaloBot.Controllers.Digest
import CryptoZaloBot.Controllers.DigestRuns
import CryptoZaloBot.Controllers.Watchlists
import CryptoZaloBot.Controllers.System
import CryptoZaloBot.Controllers.Privacy
import CryptoZaloBot.PriceAlerts.LockedChecks
import CryptoZaloBot.PriceAlerts.Numbers
import CryptoZaloBot.PriceAlerts.Cap
