import Predix.Data.Word
import Predix.Data.FiniteMap
import Predix.Data.Account
import Predix.Data.BinaryFormat
import Predix.Data.Float64
import Predix.Data.Sweep
import Predix.Data.Tiers
import Predix.Data.Framing
import Predix.Data.SetIndex
import Predix.Data.Run
import Predix.Data.Posting
import Predix.Data.Rpc
import Predix.Data.Uuid
import Predix.Data.Checked
import Predix.Engine.Types
import Predix.Engine.Ledger
import Predix.Engine.Matching
import Predix.Engine.Query
import Predix.Engine.Handler
import Predix.Engine.Run
import Predix.Engine.Effect
import Predix.Book.Allocation
import Predix.Book.Queue
import Predix.Book.Matched
import Predix.Book.Invariant
import Predix.Book.Step
import Predix.Book.SinglePass
import Predix.Book.PriceTime
import Predix.Book.Depth
import Predix.Book.Levels
import Predix.Book.LifeCycle
import Predix.Book.Remainder
import Predix.Ledger.Failure
import Predix.Ledger.Holdings
import Predix.Ledger.Settlement
import Predix.Ledger.Leg
import Predix.Ledger.Accepted
import Predix.Ledger.Canceled
import Predix.Ledger.Cash
import Predix.Ledger.SellLocks
import Predix.Ledger.Overflow
import Predix.Ledger.PlaceCancel
import Predix.Ledger.Conservation
import Predix.Ledger.MarketBuy
import Predix.Ledger.Funding
import Predix.Ledger.Clamps
import Predix.Ledger.Shares
import Predix.Ledger.Reservation
import Predix.Ledger.ShareTotals
import Predix.Ledger.Parties
import Predix.Replay.Growth
import Predix.Replay.Log
import Predix.Replay.Effective
import Predix.Replay.Redelivered
import Predix.Replay.Live
import Predix.Delivery.Outbox
import Predix.Delivery.JournalFile
import Predix.Delivery.Partition
import Predix.Delivery.Announced
import Predix.Delivery.Commands
import Predix.Delivery.Sequence
import Predix.Delivery.Consumer
import Predix.Ownership.Lease
import Predix.Ownership.Fencing
import Predix.Ownership.Takeover
import Predix.Concurrency.Walk
import Predix.Concurrency.Section
import Predix.Concurrency.Tidy
import Predix.Concurrency.Cancel
import Predix.Concurrency.Announce
import Predix.Concurrency.Footprint
import Predix.Concurrency.Serial
import Predix.Concurrency.Streams
import Predix.Concurrency.Partitions
import Predix.Concurrency.Backing
import Predix.Concurrency.Journal
import Predix.Database.Tables
import Predix.Database.Worker
import Predix.Database.Insert
import Predix.Database.Settlement
import Predix.Database.Rows
import Predix.Database.Orders
import Predix.Database.Capacity
import Predix.Database.Conserved
import Predix.Database.Redelivery
import Predix.Database.Audit
import Predix.Database.Reading
import Predix.Database.Mirror
import Predix.Database.Interleaved
import Predix.Database.Average
import Predix.Api.Price
import Predix.Api.Orders
import Predix.Api.Identity
import Predix.Api.Requests
import Predix.Api.Events
import Predix.Gateway.Hub
import Predix.Gateway.Subscriptions
import Predix.Gateway.Delivery
import Predix.Gateway.Trades
