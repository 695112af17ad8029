import QhwScheduler.Core.Accounting
import QhwScheduler.Core.Agreement
import QhwScheduler.Core.CallShape
import QhwScheduler.Core.Commit
import QhwScheduler.Core.Concurrent
import QhwScheduler.Core.Conformance
import QhwScheduler.Core.EnqueueOrder
import QhwScheduler.Core.Estimates
import QhwScheduler.Core.Failure
import QhwScheduler.Core.Follows
import QhwScheduler.Core.Lifecycle
import QhwScheduler.Core.Lifetimes
import QhwScheduler.Core.Linearizable
import QhwScheduler.Core.Lockstep
import QhwScheduler.Core.Ownership
import QhwScheduler.Core.Partition
import QhwScheduler.Core.Plugin
import QhwScheduler.Core.Qpu
import QhwScheduler.Core.QpuSections
import QhwScheduler.Core.Renumber
import QhwScheduler.Core.Scheduler
import QhwScheduler.Core.Settings
import QhwScheduler.Core.SharedQpu
import QhwScheduler.Core.Slices
import QhwScheduler.Core.Split
import QhwScheduler.Core.SplitParents
import QhwScheduler.Core.SplitPlan
import QhwScheduler.Core.TaskTable
import QhwScheduler.Core.Teardown
import QhwScheduler.Core.Views
import QhwScheduler.Core.World
import QhwScheduler.Foundations.BinaryHeap
import QhwScheduler.Foundations.Comparator
import QhwScheduler.Foundations.Custody
import QhwScheduler.Foundations.Drain
import QhwScheduler.Foundations.Exact
import QhwScheduler.Foundations.Heap
import QhwScheduler.Foundations.Least
import QhwScheduler.Foundations.Program
import QhwScheduler.Foundations.Rotation
import QhwScheduler.Foundations.Run
import QhwScheduler.Foundations.Trace
import QhwScheduler.Foundations.Turns
import QhwScheduler.Plugins.Builtin
import QhwScheduler.Plugins.DrainOrder
import QhwScheduler.Plugins.EagerSelection
import QhwScheduler.Plugins.FailedOperations
import QhwScheduler.Plugins.Fairness
import QhwScheduler.Plugins.Fifo
import QhwScheduler.Plugins.GroupNumbers
import QhwScheduler.Plugins.GroupSelection
import QhwScheduler.Plugins.GroupStructure
import QhwScheduler.Plugins.InsertionOrder
import QhwScheduler.Plugins.Instants
import QhwScheduler.Plugins.Ordered
import QhwScheduler.Plugins.OrderedFairness
import QhwScheduler.Plugins.OrderedGroups
import QhwScheduler.Plugins.OrderedHooks
import QhwScheduler.Plugins.OrderedRoundRobin
import QhwScheduler.Plugins.OrderedSubmit
import QhwScheduler.Plugins.PolicyReset
import QhwScheduler.Plugins.Priority
import QhwScheduler.Plugins.PriorityOrdered
import QhwScheduler.Plugins.ReadyTasks
import QhwScheduler.Plugins.Reference
import QhwScheduler.Plugins.ReferencePolicies
import QhwScheduler.Plugins.ReferenceQueue
import QhwScheduler.Plugins.ReferenceRing
import QhwScheduler.Plugins.RefreshHeap
import QhwScheduler.Plugins.RoundRobin
import QhwScheduler.Plugins.RoundRobinOrdered
import QhwScheduler.Plugins.SubmissionOrder
import QhwScheduler.Plugins.TurnOrder
import QhwScheduler.Policy.Contract
import QhwScheduler.Policy.DeadlineBoost
import QhwScheduler.Policy.DeadlineQueue
import QhwScheduler.Policy.DeadlineRefresh
import QhwScheduler.Policy.FlatPolicy
import QhwScheduler.Policy.GroupMap
import QhwScheduler.Policy.Metadata
import QhwScheduler.Policy.OrderKey
import QhwScheduler.Policy.PortableDivision
import QhwScheduler.Policy.ReadyQueue
import QhwScheduler.Policy.ReadyQueueModel
import QhwScheduler.Policy.RefreshPass
import QhwScheduler.Policy.Urgency
import QhwScheduler.Policy.Waiting
import QhwScheduler.Types
