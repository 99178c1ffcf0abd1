import Recertia.Lib.Transition
import Recertia.Lib.Fallible
import Recertia.Lib.Text
import Recertia.Lib.FileTree
import Recertia.Lib.Json
import Recertia.Lib.JsonText
import Recertia.Lib.PyJson
import Recertia.Lib.Lines
import Recertia.Lib.Durable
import Recertia.Lib.Table
import Recertia.Lease.RunLease
import Recertia.Lease.Ownership
import Recertia.Lease.Fencing
import Recertia.Lease.FencingSafety
import Recertia.Lease.AcquireAtomic
import Recertia.Operation.RunOnce
import Recertia.Operation.SingleExecutor
import Recertia.Operation.Replay
import Recertia.Ledger.HashChain
import Recertia.Ledger.Append
import Recertia.Ledger.Incremental
import Recertia.Ledger.Signer
import Recertia.Ledger.TamperEvidence
import Recertia.Ledger.Repair
import Recertia.Contract.Criteria
import Recertia.Contract.Budget
import Recertia.Contract.Goal
import Recertia.Contract.RunState
import Recertia.Contract.Routes
import Recertia.Node.Context
import Recertia.Node.Attempt
import Recertia.Node.Validate
import Recertia.Node.Intake
import Recertia.Node.FanOut
import Recertia.Node.Solve
import Recertia.Node.SolveSpec
import Recertia.Node.Join
import Recertia.Node.Repair
import Recertia.Node.Terminal
import Recertia.Node.Sound
import Recertia.Node.Durable
import Recertia.Node.Resume
import Recertia.Engine.Hop
import Recertia.Engine.Frame
import Recertia.Engine.Honest
import Recertia.Engine.Progress
import Recertia.Engine.Retry
import Recertia.Engine.ToolCalls
import Recertia.Engine.Ready
import Recertia.Engine.Legal
import Recertia.Engine.RetryJoin
import Recertia.Runtime.HopCommit
import Recertia.Runtime.HopSpec
import Recertia.Runtime.HopLoop
import Recertia.Runtime.HopHistory
import Recertia.Queue.RunQueue
import Recertia.Queue.RowStep
import Recertia.Queue.Invariant
import Recertia.Queue.Reconcile
import Recertia.Queue.Fairness
import Recertia.Queue.Starvation
import Recertia.Worker.Agreement
import Recertia.Api.RefusedCreate
import Recertia.Mea.Recoverable
import Recertia.Idempotency.OneRun
import Recertia.Program.Contract
import Recertia.Program.StepGate
import Recertia.Program.OneBind
import Recertia.Skill.Removed
import Recertia.Skill.ActiveCap
import Recertia.Skill.Revocation
import Recertia.Skill.LineageLog
import Recertia.Skill.Allocation
import Recertia.Retrieval.Cache
import Recertia.Quota.Accounting
import Recertia.Claims.Scheduler
import Recertia.RunList.Paging
import Recertia.EventFollow.Exact
import Recertia.Receipts.Chain
import Recertia.Workspace.Restore
import Recertia.Workspace.OffloadKept
import Recertia.Ops.RoundTrip
import Recertia.Validation.Freeze
import Recertia.Validation.FreezeExact
import Recertia.Validation.Confined
import Recertia.Solver.Recovery
import Recertia.Memory.EpisodicScan
import Recertia.Memory.ClusterEvidence
import Recertia.Evals.Interference
import Recertia.Node.Classify
import Recertia.Engine.NoProgress
import Recertia.Node.FanOutBudget
import Recertia.Node.FanOutReserve
import Recertia.Node.BranchClone
import Recertia.Lib.FirstMax
import Recertia.Node.PortfolioLayers
import Recertia.Node.SealContract
import Recertia.Skill.StoreDraft
import Recertia.Lib.Kahn
import Recertia.Solver.WaveRollback
import Recertia.Solver.WaveClaims
import Recertia.Api.ResumeRun
import Recertia.Node.LayeredMerge
import Recertia.Mea.Subtask
import Recertia.Evals.ContributionBulk
import Recertia.Retrieval.Mirror
import Recertia.Quota.JobRuns
import Recertia.Skill.PortfolioOrder
import Recertia.Persistence.MigrationRuns
import Recertia.Persistence.ImportMerge
import Recertia.Memory.Contradictions
import Recertia.Memory.AffordanceSurvival
import Recertia.Node.BranchLease
import Recertia.Trajectory.DeadLeaves
import Recertia.Ledger.TailScan
import Recertia.Validation.Fingerprint
import Recertia.Evals.OutboxDelivery
import Recertia.Lib.RwLock
import Recertia.Persistence.RuntimeRoot
import Recertia.Worker.Embedded
import Recertia.Auth.OidcLogin
import Recertia.Auth.ApiKeys
