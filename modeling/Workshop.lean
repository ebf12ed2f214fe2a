import Workshop.Lib.Run
import Workshop.Lib.Table
import Workshop.Cron.ScheduleParser
import Workshop.Cron.System
import Workshop.Cron.Slots
import Workshop.Cron.Delay
import Workshop.Cron.WakeUp
import Workshop.Cron.Lease
import Workshop.Jobs.PlanLoader
import Workshop.Jobs.Statements
import Workshop.Jobs.System
import Workshop.Jobs.Ownership
import Workshop.Jobs.Claim
import Workshop.Lib.Except
import Workshop.Jobs.Timeout
import Workshop.Lib.Lease
import Workshop.Jobs.Lease
import Workshop.Jobs.Lifecycle
import Workshop.Cron.SchedulerPass
import Workshop.Daemon.StickyManager
import Workshop.Lib.Framing
import Workshop.Translation.Request
import Workshop.Daemon.Instance
import Workshop.Jobs.Library
import Workshop.Cron.Workplace
import Workshop.Jobs.Queue
import Workshop.Jobs.Partition
import Workshop.Jobs.NextScheduled
import Workshop.Jobs.WakeUp
import Workshop.Daemon.Capacity
import Workshop.Lib.Fleet
import Workshop.Daemon.Shutdown
import Workshop.Cron.Release
import Workshop.Cron.Exclusion
import Workshop.Cron.Once
import Workshop.Cron.Timers
import Workshop.Jobs.RateLimit
import Workshop.Cron.NextRun
import Workshop.Jobs.Environment
import Workshop.Jobs.CheckRateLimit
import Workshop.Jobs.ProgressNotify
import Workshop.Daemon.StickyTable
import Workshop.Daemon.StickyPlacement
import Workshop.Jobs.RunResult
import Workshop.Jobs.Selection
import Workshop.Jobs.Workplace
import Workshop.Jobs.RunSteps
import Workshop.Jobs.LibraryUpdate
import Workshop.Cron.ClaimLoop
import Workshop.Jobs.ControlChannel
import Workshop.Jobs.ProgressReader
import Workshop.Cron.ScheduleGrammar
import Workshop.Cron.CrontabMeaning
import Workshop.Cron.PipeCapture
import Workshop.Cron.SpawnOperator
import Workshop.Cron.NsQrelayConnect
import Workshop.Jobs.LogBridge
import Workshop.Jobs.Expand
import Workshop.Jobs.SpawnHook
import Workshop.Jobs.MultiLibrary
import Workshop.Jobs.PlanWellFormed
import Workshop.Lib.Ddl
import Workshop.Migrate
import Workshop.Cron.ScheduleBounds
