import CryptoExchange.Lib.Sys
import CryptoExchange.Lib.Machine
import CryptoExchange.Lib.Locks
import CryptoExchange.Lib.Retry
import CryptoExchange.Lib.Spawn
import CryptoExchange.Lib.Column
import CryptoExchange.Lib.Rows
import CryptoExchange.Lib.PySet
import CryptoExchange.Lib.Numeral
import CryptoExchange.Lib.Json
import CryptoExchange.Lib.JsonText
import CryptoExchange.Lib.Jsonb
import CryptoExchange.Lib.JsonOrder
import CryptoExchange.Lib.JsonLoads
import CryptoExchange.Lib.GroupBy
import CryptoExchange.Lib.Evolved
import CryptoExchange.Lib.Balance
import CryptoExchange.Audit.Event
import CryptoExchange.Ledger.Tables
import CryptoExchange.Risk.Leverage
import CryptoExchange.Risk.Engine
import CryptoExchange.Risk.Approval
import CryptoExchange.Risk.Liquidation
import CryptoExchange.Risk.Ceiling
import CryptoExchange.Risk.Distance
import CryptoExchange.Ledger.World
import CryptoExchange.Ledger.Accounts
import CryptoExchange.Ledger.Flush
import CryptoExchange.Ledger.Orders
import CryptoExchange.Ledger.Stream
import CryptoExchange.Ledger.Alone
import CryptoExchange.Ledger.Effects
import CryptoExchange.Ledger.Service
import CryptoExchange.Ledger.Margin
import CryptoExchange.Regulator.Record
import CryptoExchange.Regulator.Snapshot
import CryptoExchange.Ledger.Trades
import CryptoExchange.Ledger.Exposure
import CryptoExchange.Regulator.Breakdown
import CryptoExchange.Regulator.Reports
import CryptoExchange.Ledger.Cancel
import CryptoExchange.Sessions.Reservation
import CryptoExchange.Sessions.Release
import CryptoExchange.Sessions.Exposures
import CryptoExchange.Alerts.Thresholds
import CryptoExchange.Alerts.Cleared
import CryptoExchange.Alerts.Sessions
import CryptoExchange.Alerts.Lost
import CryptoExchange.Alerts.Reports
import CryptoExchange.Alerts.Publisher
import CryptoExchange.Realtime.Hub
import CryptoExchange.Realtime.KlineChannels
import CryptoExchange.Realtime.Broadcasts
import CryptoExchange.Realtime.AlertBroadcasts
import CryptoExchange.Realtime.Klines
import CryptoExchange.Realtime.Prices
import CryptoExchange.Audit.Log
import CryptoExchange.Audit.Chain
import CryptoExchange.Audit.Verify
import CryptoExchange.Audit.Storage
import CryptoExchange.Audit.Tampering
import CryptoExchange.Audit.Coverage
import CryptoExchange.Audit.Edits
import CryptoExchange.Lib.Varchar
import CryptoExchange.Keys.Live
import CryptoExchange.Keys.Service
import CryptoExchange.Ledger.Seed
import CryptoExchange.Gateway.Auth
import CryptoExchange.Realtime.Streams
import CryptoExchange.Gateway.Mediation
import CryptoExchange.Gateway.Routes
import CryptoExchange.Keys.Scopes
import CryptoExchange.Gateway.RateLimit
import CryptoExchange.Gateway.Limited
import CryptoExchange.Gateway.Metrics
import CryptoExchange.Sessions.Positions
import CryptoExchange.Ledger.Liquidations
import CryptoExchange.Ledger.Failures
import CryptoExchange.Sessions.Links
import CryptoExchange.Sessions.Commits
import CryptoExchange.Sessions.History
import CryptoExchange.Sessions.References
import CryptoExchange.Sessions.Replies
import CryptoExchange.Sessions.Books
import CryptoExchange.Sessions.Trail
import CryptoExchange.Sessions.AuditTable
import CryptoExchange.Sessions.UserData
import CryptoExchange.Realtime.Reconnect
import CryptoExchange.Ledger.Brackets
import CryptoExchange.Ledger.Netting
import CryptoExchange.Ledger.Views
import CryptoExchange.Ledger.Outcomes
import CryptoExchange.Ledger.Reductions
import CryptoExchange.Ledger.Profit
import CryptoExchange.Ledger.Executable
import CryptoExchange.Ledger.RoundTrip
import CryptoExchange.Gateway.Ownership
import CryptoExchange.Audit.Storable
import CryptoExchange.Audit.Emits
import CryptoExchange.Gateway.Credentials
import CryptoExchange.Audit.Settings
import CryptoExchange.Ledger.MarginTypes
