import Hookclose.ProviderRecovery
import Hookclose.HealthHistory
import Hookclose.OverlappingCalls
import Hookclose.EventLog
import Hookclose.Restarts
import Hookclose.GeneratedReady
import Hookclose.ChainBounds
import Hookclose.RepairSafety
import Hookclose.RepairBounds
import Hookclose.SignatureIsolation
import Hookclose.LiveCopies
import Hookclose.GraphRuns
import Hookclose.RetryBudget
import Hookclose.TaskSql
import Hookclose.RegistrationOrder
import Hookclose.RoutingLaws
import Hookclose.PatchPaths
import Hookclose.DriftDetection
import Hookclose.HealthMaps
import Hookclose.WorkerDrain
import Hookclose.EventTrail
import Hookclose.DispatchOrder
import Hookclose.ComplexityKeys
import Hookclose.SafeReviews
import Hookclose.GracefulDegradation
import Hookclose.AttemptReports
import Hookclose.PartialWrites
import Hookclose.VolatileNumbers
import Hookclose.GhostTasks
import Hookclose.RuntimeStates
import Hookclose.BuildProgress
import Hookclose.JsonFiles
import Hookclose.StateStore
import Hookclose.StateSaving
import Hookclose.TaskLifecycle
import Hookclose.OverlapAccounts
import Hookclose.BudgetOverrun
import Hookclose.WorkerAdditions
import Hookclose.GeneratedBuilds
import Hookclose.WorkspaceIsolation
import Hookclose.OverlappingRepairs
import Hookclose.ChainAudit
import Hookclose.StatusCauses
import Hookclose.Composition
import Hookclose.Amortized
import Hookclose.TaskProgress
import Hookclose.TrailAgreement
import Hookclose.Registers
import Hookclose.UpdateSteps
import Hookclose.TemporaryFiles
import Hookclose.OverlappingSaves
