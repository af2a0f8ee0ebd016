import McMini.Foundation.Runs
import McMini.Foundation.Footprint
import McMini.Objects.Basic
import McMini.Objects.ConditionVariable
import McMini.Model.State
import McMini.Model.Transition
import McMini.Model.Step
import McMini.Model.Execution
import McMini.Model.Footprint
import McMini.Model.Relations
import McMini.Properties.MutualExclusion
import McMini.Properties.ThreadLifeCycle
import McMini.Properties.Coenabledness
import McMini.Properties.Independence
import McMini.Foundation.NestedChoices
import McMini.Properties.WakeUps
import McMini.Properties.Restore
import McMini.Properties.Broadcast
import McMini.Foundation.InjectiveFunction
import McMini.Model.StateSequence
import McMini.Properties.RepresentationInvariant
import McMini.Model.Refinement
import McMini.Model.Program
import McMini.Model.Coordinator
import McMini.Model.Unchecked
import McMini.Properties.Exploration
import McMini.Dpor.ClassicDpor
import McMini.Foundation.HappensBefore
import McMini.Dpor.Step
import McMini.Properties.ClockVectors
import McMini.Properties.FirstTransition
import McMini.Foundation.FallibleLists
import McMini.Properties.UndefinedBehavior
import McMini.Properties.ErrorReports
import McMini.Properties.SignalAccounting
import McMini.Properties.BranchDeaths
import McMini.RealWorld.Template
import McMini.Properties.BranchSeparation
import McMini.Properties.RunnerIds
import McMini.Record.Objects
import McMini.Record.Wrappers
import McMini.Record.Effects
import McMini.Properties.RecordedWaiters
import McMini.Properties.RecordedMutexes
import McMini.Properties.RestartBarrier
import McMini.Foundation.Handshake
import McMini.RealWorld.TargetThread
import McMini.Properties.AnsweredPermits
import McMini.Model.Extension
import McMini.Properties.Layers
import McMini.Properties.Depths
import McMini.Properties.SearchHistory
import McMini.Properties.ExploredSubtrees
import McMini.Properties.SleepSets
import McMini.Properties.Deadlocks
import McMini.Foundation.Ownership
import McMini.Model.Ownership
import McMini.Properties.RestoredHistories
import McMini.Foundation.Memory
import McMini.Model.SharedPolicies
import McMini.Model.StoredStates
import McMini.Model.StoredSequence
import McMini.Properties.StateHistories
import McMini.Properties.SemaphoreCounts
import McMini.Properties.ConditionVariableLifeCycle
import McMini.Properties.HappensBeforeTest
import McMini.Properties.RelationSymmetry
import McMini.Properties.ExitCodes
import McMini.Properties.WaiterBookkeeping
import McMini.Properties.FixedTables
import McMini.Properties.RecordedSemaphores
import McMini.RealWorld.TargetProcess
import McMini.Properties.GrantedJoins
import McMini.Foundation.Descent
import McMini.Properties.Termination
import McMini.Properties.BacktrackRule
import McMini.Properties.LateRunners
import McMini.Model.MutableStates
import McMini.Properties.DiffStates
import McMini.Properties.InjectiveInserts
import McMini.Properties.FutexCounts
import McMini.Foundation.LinkedList
import McMini.Properties.WaiterQueue
import McMini.Foundation.Bytes
import McMini.RealWorld.Mailbox
import McMini.Properties.MailboxPayloads
import McMini.RealWorld.Transfer
import McMini.Properties.LosslessTransfer
import McMini.Properties.SemaphoreValues
import McMini.Properties.ReportedOperations
import McMini.RealWorld.ReusedAddresses
import McMini.Properties.ObjectClasses
import McMini.Properties.LivingObjects
import McMini.Foundation.Branches
import McMini.Properties.CompletedTraces
import McMini.Foundation.Linearizations
import McMini.Properties.Reorderings
import McMini.Foundation.Progress
import McMini.Foundation.Gate
import McMini.RealWorld.Restart
import McMini.Foundation.Tickets
import McMini.Properties.ThreadRecords
import McMini.Properties.RestartedThreads
import McMini.Properties.RestartGate
import McMini.RealWorld.Recording
import McMini.Properties.RecordedThreads
import McMini.Properties.BarrierProgress
