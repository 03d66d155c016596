import Waitbus.Runs
import Waitbus.Python
import Waitbus.Json
import Waitbus.FrameCodec
import Waitbus.OrderedLog
import Waitbus.EventStore
import Waitbus.Summary
import Waitbus.RowFrame
import Waitbus.FrameStream
import Waitbus.TxQueue
import Waitbus.Wire
import Waitbus.Daemon
import Waitbus.DaemonSteps
import Waitbus.Delivery
import Waitbus.Ack
import Waitbus.Handshake
import Waitbus.Sweep
import Waitbus.DockerWatch
import Waitbus.Doorbell
import Waitbus.Shutdown
import Waitbus.Await
import Waitbus.Bookmark
import Waitbus.Accounting
import Waitbus.Classify
import Waitbus.Compaction
import Waitbus.Listen
import Waitbus.Coalesce
import Waitbus.Resume
import Waitbus.Dedup
import Waitbus.Polling
import Waitbus.Subscriptions
import Waitbus.Notifications
import Waitbus.FrameReaders
import Waitbus.LongPoll
import Waitbus.McpReads
import Waitbus.Admission
import Waitbus.Registration
import Waitbus.Emit
import Waitbus.Ddl
import Waitbus.WriteLock
import Waitbus.Schema
import Waitbus.EnsureSchema
import Waitbus.Migrations
import Waitbus.Rebuild
import Waitbus.Envelope
import Waitbus.AwaitStream
import Waitbus.JsonText
import Waitbus.Webhook
import Waitbus.SubscribeStream
import Waitbus.Predicate
import Waitbus.Compose
import Waitbus.Paging
import Waitbus.PrAggregate
import Waitbus.CiStatus
import Waitbus.Debounce
import Waitbus.PollCycle
import Waitbus.Convergence
import Waitbus.RepoFilter
import Waitbus.Prune
import Waitbus.PruneRun
import Waitbus.CommentStrip
import Waitbus.QueryGate
import Waitbus.SqliteCuts
import Waitbus.LimitCap
import Waitbus.SummaryBound
import Waitbus.WatchStopper
import Waitbus.Numeral
import Waitbus.UlidGenerator
import Waitbus.PrMonitor
import Waitbus.WatchCursors
import Waitbus.Toml
import Waitbus.AllowlistFile
import Waitbus.Fallback
import Waitbus.AsyncStream
import Waitbus.Serve
import Waitbus.RestartLoop
import Waitbus.GroupSignals
import Waitbus.Latch
import Waitbus.Watchdog
import Waitbus.PytestEmit
import Waitbus.WireFrames
import Waitbus.Messaging
import Waitbus.JsonDumps
import Waitbus.Credentials
import Waitbus.Subscribing
import Waitbus.Listener
