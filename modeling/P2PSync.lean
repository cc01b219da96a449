import P2PSync.Library.Transition
import P2PSync.Library.Binary64
import P2PSync.Library.Posix
import P2PSync.Library.LastWriter
import P2PSync.Library.Stream
import P2PSync.Versioning
import P2PSync.Store
import P2PSync.Queue
import P2PSync.Drain
import P2PSync.Paths
import P2PSync.Protocol
import P2PSync.Coordinator
import P2PSync.Transfer
import P2PSync.Scan
import P2PSync.Network
import P2PSync.Daemon
import P2PSync.Host
import P2PSync.Convergence
import P2PSync.Confinement
import P2PSync.StaleDownload
import P2PSync.Succession
import P2PSync.Obligation
import P2PSync.Choice
import P2PSync.Concurrency
import P2PSync.Addressing
import P2PSync.Deletion
import P2PSync.Interleaving
import P2PSync.Dialling
import P2PSync.Framing
import P2PSync.Library.Causality
import P2PSync.Clocks
import P2PSync.Stamps
import P2PSync.Library.FileTree
import P2PSync.Disk
import P2PSync.Agreement
import P2PSync.Echo
import P2PSync.Restart
import P2PSync.Healing
import P2PSync.Sessions
import P2PSync.Isolation
import P2PSync.Exchange
import P2PSync.Library.Overwrites
import P2PSync.Arrivals
import P2PSync.Replication
import P2PSync.LocalChoice
import P2PSync.Recovery
import P2PSync.Workers
import P2PSync.Library.Latest
import P2PSync.Disconnection
import P2PSync.IpcDelivery
import P2PSync.Messages
import P2PSync.Streaming
import P2PSync.Library.RoundRobin
import P2PSync.Turns
import P2PSync.Priority
import P2PSync.Limits
import P2PSync.Answers
import P2PSync.Download
import P2PSync.Library.Forest
import P2PSync.Indexing
import P2PSync.LastWrite
import P2PSync.Authority
import P2PSync.ClockOrder
import P2PSync.FallbackPort
import P2PSync.Library.Utf8
import P2PSync.WatchEvents
import P2PSync.Polling
import P2PSync.Purge
import P2PSync.ConnectionTables
import P2PSync.Library.Json
import P2PSync.FrameLimit
import P2PSync.Library.DirTree
import P2PSync.Inotify
import P2PSync.Coverage
import P2PSync.Library.Decimal
import P2PSync.Library.Progress
import P2PSync.Dispatch
import P2PSync.Throughput
import P2PSync.Reconnection
import P2PSync.Retries
import P2PSync.IpcShutdown
import P2PSync.Library.Digest
import P2PSync.Hashing
import P2PSync.Completion
import P2PSync.Discovery
import P2PSync.PeerLink
import P2PSync.DaemonThreads
import P2PSync.Forwarding
import P2PSync.Library.Records
import P2PSync.Library.Utf16
import P2PSync.DirectoryChanges
import P2PSync.ConflictWindows
import P2PSync.Library.Separated
import P2PSync.Configuration
import P2PSync.Takeover
