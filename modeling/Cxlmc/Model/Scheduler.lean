import Cxlmc.Model.State

/-!
# Threads, blocking and the token (`scheduler.cc`, `threads.cc`, `mutex.cc`, `action.cc`)

`yield` passes the token round robin to the next thread that is running; the caller stays suspended
until the token comes back. The pointers a thread can wait on are those of threads, mutexes and
condition variables, three kinds of objects that never share an address.
-/

namespace Cxlmc

/-- What `Thread::waiting_on` returns, `nullptr` apart. -/
inductive WaitTarget where
  | thread (t : ThreadId)
  | mutex (m : MutexId)
  | cond (c : CondId)
  deriving DecidableEq, Repr

namespace ModelAction

/-- `get_mutex()`; `none` where its `assert(0)` fails. -/
def getMutex (a : ModelAction) : Option MutexId :=
  match a.type with
  | .atomicTrylock | .atomicLock | .atomicUnlock => some a.location
  | .atomicWait => some a.value
  | _ => none

end ModelAction

/-- `waiting_on()`. -/
def Thread.waitingOn (t : Thread) : Option WaitTarget :=
  match t.pending with
  | none => none
  | some p =>
      if t.state ≠ .blocked then none
      else
        match p.type with
        | .pthreadJoin => some (.thread p.location)
        | .atomicLock => some (.mutex p.location)
        | .atomicWait => some (.cond p.location)
        | _ => none

namespace Model

/-- `wake_all_threads_waiting_on`, for every target that satisfies `v`. -/
def wakeAllThreadsWaitingOn (s : Model) (v : WaitTarget → Bool) : Model :=
  { s with
    threads := fun t =>
      if t < s.threadCount ∧ (s.threads t).waitingOn.any v then
        { s.threads t with state := .running }
      else s.threads t }

/-- The other threads in the order in which the scheduler looks at them:
`for (i = 1; i < tc; i++) tid = (active + i) % tc`. -/
def otherThreads (s : Model) : List ThreadId :=
  (List.range (s.threadCount - 1)).map fun i => (s.activeThread + (i + 1)) % s.threadCount

/-- `wake_thread_waiting_on(v)`. -/
def wakeThreadWaitingOn (s : Model) (v : WaitTarget) : Model :=
  match s.otherThreads.find? fun t => (s.threads t).waitingOn = some v with
  | none => s
  | some t => s.setState t .running

/-- The next thread after the active one that is running. -/
def nextRunning (s : Model) : Option ThreadId :=
  s.otherThreads.find? fun t => (s.threads t).state = .running

/-- One round of the loop of `process_crash`. -/
def crashThread (pid : ProcessId) (s : Model) (i : ThreadId) : Model :=
  if (s.threads i).processId = pid ∧ ¬ (s.threads i).isCompleted then
    -- wakes those that wait for a mutex of the crashed thread, which it still owns
    (s.setState i .crashed).wakeAllThreadsWaitingOn fun v =>
      match v with
      | .mutex m => m ∈ (s.threads i).ownedMutexes
      | _ => false
  else s

/-- `process_crash()`. -/
def processCrash (s : Model) : Model :=
  (List.range s.threadCount).foldl (crashThread s.processId) s

/-- `new_thread(func, arg)`. -/
def newThread (s : Model) : Model :=
  { s with
    threadCount := s.threadCount + 1
    threads := Function.update s.threads s.threadCount (Thread.new s.processId) }

end Model

open Stateful

/-- `Scheduler::yield()`. The caller has already recorded where it is suspended. -/
def schedulerYield : M Unit := do
  let s ← state
  match s.nextRunning with
  | some t => update fun s => { s with activeThread := t }
  -- nobody else runs: the caller keeps the token if it can go on itself
  | none => if (s.threads s.threadId).state ≠ .running then stop .deadlock else pure ()

/-- `last_yield()`: whether another thread got the token. -/
def lastYield : M Bool := do
  let s ← state
  match s.nextRunning with
  | some t => do
      update fun s => { s with activeThread := t }
      return true
  | none =>
      if s.otherThreads.any fun t => (s.threads t).state = .blocked then stop .deadlock
      else return false

/-- `Scheduler::finalize()`. Nothing modelled sets `terminating`. -/
def finalize : M Bool := do
  update fun s =>
    if (s.threads s.threadId).isCompleted then s else s.setState s.threadId .completed
  lastYield

/-- `Mutex::set_owner(thr)`. -/
def setOwner (m : MutexId) (thr : Option ThreadId) : M Unit := do
  let s ← state
  match (s.mutexes m).owner with
  | none => pure ()
  | some o =>
      -- a crashed owner keeps the mutex in its set
      if (s.threads o).state = .crashed then pure ()
      else do
        require (m ∈ (s.threads o).ownedMutexes) .assertFailed
        update fun s => s.setThread o fun th => { th with ownedMutexes := th.ownedMutexes.erase m }
  match thr with
  | none => pure ()
  | some t => do
      let s ← state
      require (m ∉ (s.threads t).ownedMutexes) .assertFailed
      update fun s => s.setThread t fun th => { th with ownedMutexes := insert m th.ownedMutexes }
  update fun s =>
    { s with
      mutexes := Function.update s.mutexes m
        { s.mutexes m with owner := thr, recursiveLockCount := 0 } }

/-- `thread_wait(thread)`, called for the running thread: it blocks and gives the token away. -/
def threadWait (action : ModelAction) (ret : Ret) : M Unit := do
  update fun s => (s.setState s.threadId .blocked).setContext s.threadId (.waiting action ret)
  schedulerYield

end Cxlmc
