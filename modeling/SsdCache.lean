import SsdCache.Atomic.Prog
import SsdCache.Atomic.Machine
import SsdCache.Atomic.Past
import SsdCache.Atomic.Sum
import SsdCache.Atomic.Trace
import SsdCache.Atomic.Alone
import SsdCache.Atomic.Local
import SsdCache.Atomic.Refine
import SsdCache.Atomic.Place
import SsdCache.Atomic.Link
import SsdCache.Binary.Rounding
import SsdCache.Binary.LittleEndian
import SsdCache.Civil.Calendar
import SsdCache.Civil.Decimal
import SsdCache.Sql.Table
import SsdCache.Text.Fields
import SsdCache.Text.Lines
import SsdCache.Text.Wildcard
import SsdCache.Loop.Scan
import SsdCache.Spec.AccessEvent
import SsdCache.Spec.Time
import SsdCache.Spec.CacheIndex
import SsdCache.Spec.Engine
import SsdCache.Spec.Calls
import SsdCache.Spec.Scheduler
import SsdCache.Spec.Eviction
import SsdCache.Spec.Host
import SsdCache.Spec.System
import SsdCache.Spec.History
import SsdCache.Spec.Replay
import SsdCache.Spec.Waiting
import SsdCache.Spec.PathMapper
import SsdCache.Spec.Config
import SsdCache.Spec.Drives
import SsdCache.Spec.Utf
import SsdCache.Spec.ActivitySource
import SsdCache.Spec.ServiceHost
import SsdCache.Spec.Tray
import SsdCache.Spec.HostReplay
import SsdCache.Spec.Hosting
import SsdCache.Spec.ConfigFile
import SsdCache.Spec.ConfigSave
import SsdCache.Spec.Filter
import SsdCache.Spec.Driver
import SsdCache.Spec.WinFileCopy
import SsdCache.Spec.WinPlatform
import SsdCache.Spec.IndexOpen
import SsdCache.Spec.Transactions
import SsdCache.Spec.DriverPort
import SsdCache.Spec.ServiceMain
import SsdCache.Spec.Sizes
import SsdCache.Spec.Delivery
import SsdCache.Spec.LoadedFilters
import SsdCache.Proof.Time
import SsdCache.Proof.Utf
import SsdCache.Proof.Timestamps
import SsdCache.Proof.Index
import SsdCache.Proof.Queries
import SsdCache.Proof.Step
import SsdCache.Proof.Batch
import SsdCache.Proof.Threads
import SsdCache.Proof.Owed
import SsdCache.Proof.CopyInProgress
import SsdCache.Proof.Conservation
import SsdCache.Proof.Files
import SsdCache.Proof.Pairs
import SsdCache.Proof.Truth
import SsdCache.Proof.Crash
import SsdCache.Proof.Freeing
import SsdCache.Proof.Dues
import SsdCache.Proof.QuietPeriod
import SsdCache.Proof.Sequential
import SsdCache.Proof.OpenWrites
import SsdCache.Proof.Bursts
import SsdCache.Proof.Tracking
import SsdCache.Proof.Entries
import SsdCache.Proof.Service
import SsdCache.Proof.Stranded
import SsdCache.Proof.Pausing
import SsdCache.Proof.ModeSwitch
import SsdCache.Proof.FailedSwitch
import SsdCache.Proof.PathGrammar
import SsdCache.Proof.PathRoundTrip
import SsdCache.Proof.OneRecord
import SsdCache.Proof.WakeUps
import SsdCache.Proof.Passes
import SsdCache.Proof.Escapes
import SsdCache.Proof.BatchThrows
import SsdCache.Proof.StartupMode
import SsdCache.Proof.ConfigRoundTrip
import SsdCache.Proof.ConfigSave
import SsdCache.Proof.Filter
import SsdCache.Proof.Numbers
import SsdCache.Proof.Delays
import SsdCache.Proof.Messages
import SsdCache.Proof.WrittenHandles
import SsdCache.Proof.Evictions
import SsdCache.Proof.FreedBytes
import SsdCache.Proof.FreeSpace
import SsdCache.Proof.BatchStep
import SsdCache.Proof.Draining
import SsdCache.Proof.CopyRun
import SsdCache.Proof.CopyEngine
import SsdCache.Proof.CopyFrame
import SsdCache.Proof.IndexOpen
import SsdCache.Proof.CopyResults
import SsdCache.Proof.Digests
import SsdCache.Proof.Transactions
import SsdCache.Proof.ClientPort
import SsdCache.Proof.Reports
import SsdCache.Proof.Lifetimes
import SsdCache.Proof.Statuses
import SsdCache.Proof.Sizes
import SsdCache.Proof.PrintedSizes
import SsdCache.Proof.Delivery
import SsdCache.Proof.LoadedFilters
