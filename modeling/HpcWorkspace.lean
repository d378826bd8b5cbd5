import HpcWorkspace.Lib.Runs
import HpcWorkspace.Lib.Ledger
import HpcWorkspace.Lib.Worklist
import HpcWorkspace.Lib.Yaml
import HpcWorkspace.WorkQueue
import HpcWorkspace.WorkQueueSafe
import HpcWorkspace.ParallelAllocate
import HpcWorkspace.Retention
import HpcWorkspace.AccessRules
import HpcWorkspace.RestoreExact
import HpcWorkspace.CapPaths
import HpcWorkspace.EntryWrites
import HpcWorkspace.ParallelStatExact
import HpcWorkspace.UnavailableDb
import HpcWorkspace.FaultIsolation
import HpcWorkspace.FailedMove
import HpcWorkspace.InFlight
import HpcWorkspace.SingleSpace
import HpcWorkspace.DeleteData
import HpcWorkspace.WorkspaceLimit
import HpcWorkspace.EntryText
import HpcWorkspace.InitialDistribution
import HpcWorkspace.EditDb
import HpcWorkspace.EditBoundary
import HpcWorkspace.EditPlan
import HpcWorkspace.DeletedEntries
import HpcWorkspace.ListedTimes
import HpcWorkspace.PromisedTimes
import HpcWorkspace.QueueCounts
import HpcWorkspace.StuckWorkers
import HpcWorkspace.WideDirectories
import HpcWorkspace.Durations
import HpcWorkspace.Extensions
import HpcWorkspace.ReleaseTarget
import HpcWorkspace.RenameSteps
import HpcWorkspace.FreeNames
import HpcWorkspace.GroupShortcut
import HpcWorkspace.Rmtree
import HpcWorkspace.RmtreeSafe
import HpcWorkspace.Lib.Paths
import HpcWorkspace.FilePaths
import HpcWorkspace.Confinement
import HpcWorkspace.PathFrames
import HpcWorkspace.Lib.Base64
import HpcWorkspace.SendIcal
import HpcWorkspace.SpaceSelection
import HpcWorkspace.TimestampParsers
import HpcWorkspace.Lib.Wildcards
import HpcWorkspace.GlobExact
import HpcWorkspace.Lib.SortedMap
import HpcWorkspace.ConfigFiles
import HpcWorkspace.ConfigSplit
import HpcWorkspace.ValidateConfig
import HpcWorkspace.Lib.Regex
import HpcWorkspace.Email
import HpcWorkspace.MailAddress
import HpcWorkspace.ExpirationMail
import HpcWorkspace.Mails
import HpcWorkspace.MailHeaders
import HpcWorkspace.Register
import HpcWorkspace.Lib.Inevitable
import HpcWorkspace.Lib.Pruning
import HpcWorkspace.RmtreeAlone
import HpcWorkspace.RmtreeDeadline
import HpcWorkspace.IdParts
import HpcWorkspace.LiveWorkspaces
import HpcWorkspace.Lib.Gather
import HpcWorkspace.Find
import HpcWorkspace.Lib.Sorting
import HpcWorkspace.Listing
import HpcWorkspace.WsList
import HpcWorkspace.EditRun
import HpcWorkspace.ExpirePass
import HpcWorkspace.ExpirerReport
import HpcWorkspace.MvChild
import HpcWorkspace.Lib.Blocks
import HpcWorkspace.Lib.Multipart
import HpcWorkspace.Invitation
import HpcWorkspace.IcalRoundTrip
import HpcWorkspace.ReadNoFollow
import HpcWorkspace.Lib.Settling
import HpcWorkspace.Prepare
import HpcWorkspace.RestoreList
import HpcWorkspace.Restorable
import HpcWorkspace.Lib.Pool
import HpcWorkspace.WsStat
import HpcWorkspace.OutstandingItems
import HpcWorkspace.RingRefinement
import HpcWorkspace.SerialUpdates
