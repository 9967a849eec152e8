import Cxlmc.Lib.Path
import Cxlmc.NodeStack.Exhaustive
import Cxlmc.Model.System
import Cxlmc.Read.CrashAtRead
import Cxlmc.Effect.Buffers
import Cxlmc.Effect.Execute
import Cxlmc.System.Step
import Cxlmc.System.Run
import Cxlmc.Effect.Entries
import Cxlmc.System.CrashedThreads
import Cxlmc.System.FinalCrashes
import Cxlmc.Effect.Intervals
import Cxlmc.Lib.Bytes
import Cxlmc.NodeStack.SaveState
import Cxlmc.NodeStack.LoadNodestack
import Cxlmc.Read.EquivalentStores
import Cxlmc.Effect.Clocks
import Cxlmc.Effect.Order
import Cxlmc.Read.Coherence
import Cxlmc.Read.Gpf
import Cxlmc.System.ByteCoherence
import Cxlmc.System.GpfMode
import Cxlmc.Threads.Basic
import Cxlmc.Threads.Execute
import Cxlmc.Threads.Step
import Cxlmc.Threads.Moves
import Cxlmc.Threads.Run
import Cxlmc.Threads.Finish
import Cxlmc.Threads.Serve
import Cxlmc.Threads.Handoff
import Cxlmc.Threads.Balance
import Cxlmc.Threads.Mutexes
import Cxlmc.Threads.Processes
import Cxlmc.Threads.Deadlock
import Cxlmc.Threads.CondVar
import Cxlmc.Threads.Timedwait
import Cxlmc.Threads.Relock
import Cxlmc.System.Rmw
import Cxlmc.System.ProgramOrder
import Cxlmc.System.Tso
import Cxlmc.System.Atomicity
import Cxlmc.System.CrashBudget
import Cxlmc.Flush.Basic
import Cxlmc.Flush.WholeLine
import Cxlmc.Flush.AfterCrash
import Cxlmc.Effect.Begins
import Cxlmc.Flush.Exact
import Cxlmc.System.ReadsResolve
import Cxlmc.Lib.FlatMemory
import Cxlmc.Lib.While
import Cxlmc.Model.Memapi
import Cxlmc.Lib.Tiling
import Cxlmc.Memapi.Chunks
import Cxlmc.Memapi.Copy
import Cxlmc.Memapi.Set
import Cxlmc.Flush.Fenced
import Cxlmc.System.Visibility
import Cxlmc.Read.Poison
import Cxlmc.Memapi.Strcpy
import Cxlmc.Lib.Linked
import Cxlmc.Model.HashTable
import Cxlmc.HashTable.Rep
import Cxlmc.HashTable.Operations
import Cxlmc.HashTable.Iteration
import Cxlmc.HashTable.Refines
import Cxlmc.HashTable.Sweep
import Cxlmc.Lib.Replies
import Cxlmc.Model.Pthread
import Cxlmc.Pthread.LifeCycle
import Cxlmc.Read.Undo
import Cxlmc.Lib.Always
import Cxlmc.Model.Vector
import Cxlmc.Vector.Capacity
import Cxlmc.Model.CacheLineStore
import Cxlmc.Vector.CacheLineStore
import Cxlmc.Lib.DoublyLinked
import Cxlmc.List.Rep
import Cxlmc.List.Refines
import Cxlmc.Lib.Questions
import Cxlmc.Model.Snapshot
import Cxlmc.Snapshot.Resume
import Cxlmc.Persistence.Fenced
import Cxlmc.Threads.RoundRobin
import Cxlmc.Persistence.Completed
import Cxlmc.Persistence.Runs
import Cxlmc.Storage.Refines
import Cxlmc.Memapi.OnChecker
