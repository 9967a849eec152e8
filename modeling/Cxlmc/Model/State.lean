import Mathlib.Data.List.AList
import Mathlib.Data.Finset.Card
import Mathlib.Logic.Function.Basic
import Cxlmc.Lib.Decision
import Cxlmc.Overlap.Basic

/-!
# The state of the checker (`model.h`, `scheduler.h`, `threads.h`, `thread_memory.h`, `cacheline.h`)

One state for all processes: the shared objects of the checker, the CXL memory and, for each
thread, the place at which it is suspended. The checker passes a token between threads
(`active_thread`), so the running code always belongs to the active thread: `thread_id` and
`process_id` are those of the active thread.

The state has two parts. `Memory` is what stores, flushes and reads work on; `Scheduler` is the
threads. Vectors and hash maps that are only indexed are functions with the default value outside.
-/

namespace Cxlmc

/-! ## Cache lines -/

/-- `Range`, also called `cacheline`: the crash of a process lies at or after `begin` and, once
`end` is set, before it (begin is inclusive, end is exclusive; an `end` of `0` is not set). -/
structure Cacheline where
  getBegin : Nat
  getEnd : Nat
  deriving DecidableEq, Repr

namespace Cacheline

/-- `Range()`. -/
def new : Cacheline := ⟨0, 0⟩

def setBegin (cl : Cacheline) (b : Nat) : Cacheline := { cl with getBegin := b }

def setEnd (cl : Cacheline) (e : Nat) : Cacheline := { cl with getEnd := e }

@[simp] theorem getBegin_setBegin (cl : Cacheline) (b : Nat) : (cl.setBegin b).getBegin = b := rfl

@[simp] theorem getEnd_setBegin (cl : Cacheline) (b : Nat) : (cl.setBegin b).getEnd = cl.getEnd := rfl

@[simp] theorem getBegin_setEnd (cl : Cacheline) (e : Nat) : (cl.setEnd e).getBegin = cl.getBegin := rfl

@[simp] theorem getEnd_setEnd (cl : Cacheline) (e : Nat) : (cl.setEnd e).getEnd = e := rfl

end Cacheline

/-- `CacheLineStore`: the interval of each process and line. -/
abbrev CacheLineStore := ProcessId → Nat → Cacheline

/-- `obj_to_cl.get_cacheline(pid, addr) = cl`. -/
def CacheLineStore.setCacheline (cls : CacheLineStore) (pid : ProcessId) (addr : Nat)
    (cl : Cacheline) : CacheLineStore :=
  fun q a => if q = pid ∧ a = addr then cl else cls q a

theorem CacheLineStore.setCacheline_apply (cls : CacheLineStore) (pid q : ProcessId)
    (addr a : Nat) (cl : Cacheline) :
    cls.setCacheline pid addr cl q a = if q = pid ∧ a = addr then cl else cls q a := rfl

/-! ## Memory -/

/-- `ThreadMemory`. Both buffers are consumed from the front of the list. -/
structure ThreadMemory where
  storeBuffer : List ModelAction
  flushBuffer : List ModelAction
  lastSfence : Nat
  clToLastWrClf : Nat → Option Nat

/-- `ThreadMemory()`. -/
def ThreadMemory.new : ThreadMemory := ⟨[], [], 0, fun _ => none⟩

/-- `hashmap<process_id_t, modelclock_t>`: the crashed processes with the clock of their crash. -/
abbrev Crashes := AList fun _ : ProcessId => Nat

namespace Crashes

def size (c : Crashes) : Nat := c.keys.length

/-- `crashes.emplace(pid, clock)`: does not replace an entry. -/
def emplace (c : Crashes) (pid : ProcessId) (clock : Nat) : Crashes :=
  if pid ∈ c then c else AList.insert pid clock c

end Crashes

/-- What stores, flushes, reads and crashes work on. `memory` is the CXL mapping itself, byte by
byte; the source keeps each `ThreadMemory` inside its `Thread`. `ticks` stands for `next_sequence_num`:
how many numbers `get_next_sequence_num` has given. -/
structure Memory where
  ticks : Nat
  /-- Word by word, the evicted stores from the oldest to the newest. -/
  objToWr : Nat → List ModelAction
  objToCl : CacheLineStore
  crashes : Crashes
  memory : Nat → Nat
  threadMemory : ThreadId → ThreadMemory

/-- `next_sequence_num`. -/
def Memory.nextSequenceNum (m : Memory) : Nat := modelclock m.ticks

/-- Before the clock wraps around it is the number of ticks. -/
theorem Memory.nextSequenceNum_of_lt {m : Memory} (h : m.ticks < 2 ^ 32) : m.nextSequenceNum = m.ticks :=
  modelclock_of_lt h

/-! ## Threads -/

inductive ThreadState where
  | running
  | blocked
  | completed
  | crashed
  deriving DecidableEq, Repr

/-- The operation of an atomic read-modify-write (`_ATOMIC_RMW_`, `_ATOMIC_CMPSWP_`). -/
inductive RmwOp where
  | exchange (val : Nat)
  | fetchAdd (val : Nat)
  | fetchSub (val : Nat)
  | fetchAnd (val : Nat)
  | fetchOr (val : Nat)
  | fetchXor (val : Nat)
  | compareExchange (expected desired : Nat)
  deriving DecidableEq, Repr

/-- A read-modify-write in progress: its operation, address and size in bytes, and the memory
orders of the two halves and of a failed comparison. -/
structure Rmw where
  op : RmwOp
  addr : Nat
  size : Nat
  order : MemoryOrder
  orderFail : MemoryOrder
  deriving DecidableEq, Repr

/-- What is left to do in the interface function when `Model::action` returns. -/
inductive Ret where
  /-- Back to the program. -/
  | toUser
  /-- The store wrappers: `*((uintN_t *) loc) = val`. -/
  | rawStore (loc size val : Nat)
  /-- The second half of a read-modify-write. -/
  | rmw (r : Rmw)
  /-- The condition waits: `lock->lock()`. -/
  | lock (m : MutexId)
  deriving DecidableEq, Repr

/-- Where the code of a thread is suspended (its `ucontext_t`). -/
inductive Context where
  /-- In the program. -/
  | user
  /-- In `Model::action`, past its `yield`. -/
  | ready (action : ModelAction) (ret : Ret)
  /-- In the `yield` of `thread_wait`. -/
  | waiting (action : ModelAction) (ret : Ret)
  /-- In the loop of `process_store_buffer`, with `n` entries of thread `mem` still to pop. -/
  | popping (mem : ThreadId) (n : Nat) (value : Nat) (ret : Ret)
  /-- In the `yield` of `process_shutdown`. -/
  | shutdown
  /-- Finished, or its process has exited. -/
  | exited
  deriving DecidableEq, Repr

/-- `Thread`. The members that only serve the system threads (`stack`, `tls`, …) are left out. -/
structure Thread where
  processId : ProcessId
  state : ThreadState
  pending : Option ModelAction
  ownedMutexes : Finset MutexId
  retVal : Nat
  context : Context

/-- `Thread(pid)`: a main thread; also `Thread(tid, pid, par, params)`. -/
def Thread.new (pid : ProcessId) : Thread := ⟨pid, .running, none, ∅, 0, .user⟩

/-- `is_completed()`. -/
def Thread.isCompleted (t : Thread) : Bool := t.state = .completed || t.state = .crashed

inductive MutexType where
  | default
  | recursive
  | errorcheck
  deriving DecidableEq, Repr

structure Mutex where
  mutexType : MutexType
  owner : Option ThreadId
  recursiveLockCount : Nat
  deriving DecidableEq, Repr

structure Scheduler where
  processCount : Nat
  activeThread : ThreadId
  threadCount : Nat
  threads : ThreadId → Thread

/-! ## The checker -/

/-- `Model`, with its scheduler. `backtrack` is a global of each process. The node stack is not
here: its answers are the choices of the decision trees. -/
structure Model extends Scheduler, Memory where
  crashPoints : Nat
  completedProcs : Finset ProcessId
  mutexes : MutexId → Mutex
  backtrack : ProcessId → Bool
  cxlMapping : Nat

/-- How the running code can end before its next suspension. -/
inductive Stop where
  /-- `exit(EXIT_SUCCESS)`: the process ends and its exit handler runs. -/
  | exit
  /-- A failed `assert`. -/
  | assertFailed
  /-- `DEADLOCK`, with `exit(EXIT_FAILURE)` or `abort()`. -/
  | deadlock
  /-- A read of poison, with `exit(EXIT_FAILURE)`. -/
  | poison
  /-- The last process is done: the execution is over. -/
  | executionOver
  /-- The access is not to CXL memory and never enters the checker. -/
  | notCxl
  deriving DecidableEq, Repr

/-- Code of the checker. -/
abbrev M := Stateful Model Stop

namespace Model

/-- `thread_id`: the running thread. -/
def threadId (s : Model) : ThreadId := s.activeThread

/-- `process_id`: the process of the running thread. -/
def processId (s : Model) : ProcessId := (s.threads s.activeThread).processId

/-- `get_process_id(action)`: the process of the thread an action belongs to. -/
def getProcessId (s : Model) (action : ModelAction) : ProcessId := (s.threads action.tid).processId

def isCrashed (s : Model) (pid : ProcessId) : Bool := pid ∈ s.crashes

def isCompleted (s : Model) (pid : ProcessId) : Bool := pid ∈ s.completedProcs

def isLive (s : Model) (pid : ProcessId) : Bool := !s.isCrashed pid && !s.isCompleted pid

def getCrashedProcessCount (s : Model) : Int := s.crashes.size

def getCompletedProcessCount (s : Model) : Int := s.completedProcs.card

/-- `get_live_process_count()`. -/
def getLiveProcessCount (s : Model) : Int :=
  s.processCount - s.getCrashedProcessCount - s.getCompletedProcessCount

/-- `mem_is_cxl(addr)`. -/
def memIsCxl (s : Model) (addr : Nat) : Bool :=
  s.cxlMapping ≠ 0 && s.cxlMapping ≤ addr && addr < s.cxlMapping + cxlMemSize

/-- `get_storelist(addr)`. -/
def getStorelist (s : Model) (addr : Nat) : List ModelAction := s.objToWr (alignAddress addr)

/-- Change one thread. -/
def setThread (s : Model) (t : ThreadId) (f : Thread → Thread) : Model :=
  { s with threads := Function.update s.threads t (f (s.threads t)) }

/-- Change the memory of one thread. -/
def setThreadMemory (s : Model) (t : ThreadId) (f : ThreadMemory → ThreadMemory) : Model :=
  { s with threadMemory := Function.update s.threadMemory t (f (s.threadMemory t)) }

/-- Set the interval of one process and line. -/
def setCacheline (s : Model) (pid : ProcessId) (addr : Nat) (cl : Cacheline) : Model :=
  { s with objToCl := s.objToCl.setCacheline pid addr cl }

def setContext (s : Model) (t : ThreadId) (c : Context) : Model :=
  s.setThread t fun th => { th with context := c }

def setState (s : Model) (t : ThreadId) (st : ThreadState) : Model :=
  s.setThread t fun th => { th with state := st }

def setPending (s : Model) (t : ThreadId) (a : Option ModelAction) : Model :=
  s.setThread t fun th => { th with pending := a }

/-- The eight bytes of a word of the mapping, `*(uint64_t *) addr`. -/
def readWord (memory : Nat → Nat) (addr : Nat) : Nat :=
  (List.range 8).foldr (fun i v => (v <<< 8) ||| (memory (addr + i) &&& 0xff)) 0

/-- `*(uintN_t *) loc = val` on the mapping. -/
def writeRaw (memory : Nat → Nat) (loc size val : Nat) : Nat → Nat :=
  fun a => if loc ≤ a ∧ a < loc + size then (val >>> (8 * (a - loc))) &&& 0xff else memory a

/-- The state at the start of an execution with `n` processes, with the CXL memory `memory` mapped
at `cxlMapping`: `Scheduler(n)`, `Model(s)`. A mutex is created where it is first used, with the
type given there, and nothing replaces it. -/
def init (n : Nat) (cxlMapping : Nat) (memory : Nat → Nat) (mutexType : MutexId → MutexType) :
    Model where
  processCount := n
  activeThread := 0
  threadCount := n
  threads := Thread.new
  ticks := 0
  objToWr := fun _ => []
  objToCl := fun _ _ => Cacheline.new
  crashes := ∅
  memory := memory
  threadMemory := fun _ => ThreadMemory.new
  crashPoints := 0
  completedProcs := ∅
  mutexes := fun m => ⟨mutexType m, none, 0⟩
  backtrack := fun _ => true
  cxlMapping := cxlMapping

end Model

end Cxlmc
