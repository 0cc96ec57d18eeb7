import FlockDb.Bindings.Python
import FlockDb.Cli.Commands
import FlockDb.Cli.Contained
import FlockDb.Cli.CopyTree
import FlockDb.Cli.InMemory
import FlockDb.Cli.Ledger
import FlockDb.Cli.Names
import FlockDb.Cli.Namespace
import FlockDb.Cli.PoolName
import FlockDb.Cli.Quoting
import FlockDb.Cli.Rejected
import FlockDb.Cli.Rounds
import FlockDb.Cli.SharedTier
import FlockDb.Cli.SleepCrash
import FlockDb.Cli.Steps
import FlockDb.Cli.Waking
import FlockDb.Core.Ancestry
import FlockDb.Core.FromNothing
import FlockDb.Core.Isolation
import FlockDb.Core.ReadOnly
import FlockDb.Core.Reopen
import FlockDb.Core.Replication
import FlockDb.Core.Standing
import FlockDb.Core.Trimmed
import FlockDb.Core.Visible
import FlockDb.Core.Wake
import FlockDb.Core.Woken
import FlockDb.Extension.Open
import FlockDb.Flockd.Scheduler
import FlockDb.Flockd.WarmSet
import FlockDb.Kernel.Export
import FlockDb.Kernel.Layout
import FlockDb.Kernel.Minimal
import FlockDb.Kernel.Mirror
import FlockDb.Library.Paths
import FlockDb.Sync.Divergence
import FlockDb.Sync.Live
import FlockDb.Sync.LiveLog
import FlockDb.Sync.Marker
import FlockDb.Sync.Reference
import FlockDb.Sync.Restore
import FlockDb.Sync.Retention
import FlockDb.Sync.Segments
import FlockDb.Vfs.Faults
import FlockDb.Vfs.File
import FlockDb.Vfs.Lazy
import FlockDb.Vfs.Prefetch
import FlockDb.Vfs.Shared
