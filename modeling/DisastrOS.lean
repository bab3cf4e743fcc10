import DisastrOS.TransitionSystem
import DisastrOS.ProcessLists
import DisastrOS.ChildEntries
import DisastrOS.Handover
import DisastrOS.GivingUp
import DisastrOS.ProcessTree
import DisastrOS.Termination
import DisastrOS.SemaphoreRelation
import DisastrOS.PoolAllocator
import DisastrOS.Deadlock
import DisastrOS.Dispatch
import DisastrOS.WaitChoice
import DisastrOS.ExclusiveOpen
import DisastrOS.SemaphoreRoom
import DisastrOS.SemaphoreRefinement
import DisastrOS.ReturnValues
import DisastrOS.BufferSafety
import DisastrOS.SleepOrder
import DisastrOS.ListGuard
import DisastrOS.Rotation
import DisastrOS.SleepDuration
import DisastrOS.ExitLoop
import DisastrOS.ProcessRoom
import DisastrOS.OpenAtomic
import DisastrOS.OpenFlags
import DisastrOS.SemaphoreUndo
import DisastrOS.PoolLayout
import DisastrOS.PoolAddresses
import DisastrOS.SyscallTables
import DisastrOS.RecycledQueue
import DisastrOS.TimerRoom
import DisastrOS.Fairness
import DisastrOS.QueueOrder
import DisastrOS.Faults
import DisastrOS.ResourceHandles
import DisastrOS.SemaphoreHandles
import DisastrOS.Leaks
import DisastrOS.LifeCycle
import DisastrOS.PoolRuns
import DisastrOS.Collecting
import DisastrOS.NoDeadlock
