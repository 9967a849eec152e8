import Cxlmc.Model.ThreadMemory

/-!
# Executing an action (`executor.cc`)

`execute` runs for the active thread. Where the source waits inside it (`thread_wait`), the thread
is left suspended in `Context.waiting` and `resumeExecute` is the code after the wait.
-/

namespace Cxlmc

open Stateful

/-- How `execute` comes back. -/
inductive Flow where
  /-- It returned, with the value of the action; for a read, with the slots it was resolved to. -/
  | done (value : Nat) (rf : Slots)
  /-- The thread waits. -/
  | suspended
  /-- The thread has finished. -/
  | finished
  deriving DecidableEq, Repr

/-- `curr_thread->finalize()`. The thread does not come back from it. -/
def threadFinalize (t : ThreadId) : M Unit := do
  update fun s => s.setContext t .exited
  let _ ← finalize
  return ()

/-- `empty_store_buffer(); empty_flush_buffer();` of thread `t`. -/
def drain (t : ThreadId) : M Unit := do
  emptyStoreBuffer t
  emptyFlushBuffer t

/-- The loop of `ATOMIC_LOCK`: wait while another thread that has not crashed owns the mutex. -/
def lockLoop (action : ModelAction) (ret : Ret) : M Flow := do
  let s ← state
  let m := action.location
  match (s.mutexes m).owner with
  | some o =>
      if (s.threads o).state = .crashed then do
        setOwner m (some s.threadId)
        return .done 1 []
      else do
        -- `resumeExecute` makes the test of the loop again
        threadWait action ret
        return .suspended
  | none => do
      setOwner m (some s.threadId)
      return .done 0 []

/-- The case `ATOMIC_LOCK`. `errno` is left out. -/
def executeLock (action : ModelAction) (ret : Ret) : M Flow := do
  let s ← state
  let m := action.location
  match (s.mutexes m).owner with
  | none => do
      setOwner m (some s.threadId)
      return .done action.value []
  | some o =>
      if s.threadId = o then
        match (s.mutexes m).mutexType with
        | .recursive => do
            update fun s =>
              { s with
                mutexes := Function.update s.mutexes m
                  { s.mutexes m with recursiveLockCount := (s.mutexes m).recursiveLockCount + 1 } }
            return .done action.value []
        | .errorcheck => return .done action.value []
        | .default => stop .deadlock
      else lockLoop action ret

/-- The case `ATOMIC_TRYLOCK`. -/
def executeTrylock (action : ModelAction) : M Flow := do
  let s ← state
  let m := action.location
  match (s.mutexes m).owner with
  | none => do
      setOwner m (some s.threadId)
      return .done 1 []
  | some o =>
      if (s.threads o).state = .crashed then do
        setOwner m (some s.threadId)
        return .done 2 []
      else return .done 0 []

/-- The cases `ATOMIC_WAIT`, `ATOMIC_TIMEDWAIT` and `ATOMIC_UNLOCK`. `errno` is left out. -/
def executeUnlock (action : ModelAction) (ret : Ret) : M Flow := do
  match action.getMutex with
  | none => stop .assertFailed
  | some m => do
      let s ← state
      -- `EPERM`: a condition wait returns here without waiting
      if (s.mutexes m).owner ≠ some s.threadId then return .done action.value []
      else if (s.mutexes m).mutexType = .recursive ∧ (s.mutexes m).recursiveLockCount > 0 then do
        update fun s =>
          { s with
            mutexes := Function.update s.mutexes m
              { s.mutexes m with recursiveLockCount := (s.mutexes m).recursiveLockCount - 1 } }
        return .done action.value []
      else do
        setOwner m none
        update fun s => s.wakeAllThreadsWaitingOn (· = .mutex m)
        if action.type = .atomicWait then do
          threadWait action ret
          return .suspended
        else return .done action.value []

/-- The cases `THREAD_FINISH` and `THREADONLY_FINISH`. -/
def executeFinish (action : ModelAction) : M Flow := do
  let s ← state
  if action.type = .threadonlyFinish then
    update fun s => s.setThread s.threadId fun th => { th with retVal := action.location }
  else pure ()
  update fun s => s.wakeAllThreadsWaitingOn (· = .thread s.threadId)
  threadFinalize s.threadId
  return .finished

/-- The case `PTHREAD_CREATE`: `sizeof(thread_id_t)` is 4. -/
def executeCreate (action : ModelAction) : M Flow := do
  let s ← state
  let tid := s.threadCount
  update Model.newThread
  addToStoreBuffer s.threadId
    { tid := s.threadId, type := .nonatomicStore, location := action.location, value := tid,
      order := .relaxed, size := 4 }
  -- the mapping has the identifier at once, the store list only when the buffer gives it up
  update fun s => { s with memory := Model.writeRaw s.memory action.location 4 tid }
  return .done action.value []

/-- The case `PTHREAD_JOIN`. -/
def executeJoin (action : ModelAction) (ret : Ret) : M Flow := do
  let s ← state
  let t := action.location
  require ((s.threads t).processId = s.processId) .assertFailed
  if (s.threads t).state ≠ .completed then do
    threadWait action ret
    return .suspended
  else return .done action.value []

/-- The cases `ATOMIC_INIT`, `ATOMIC_STORE`, `NONATOMIC_STORE` and `ATOMIC_RMW`. -/
def executeStore (action : ModelAction) : M Flow := do
  addToStoreBuffer action.tid action.copy
  if action.type = .atomicRmw ∨ action.isSeqCst = true then drain action.tid else pure ()
  return .done action.value []

/-- The cases `ATOMIC_RMWR`, `ATOMIC_LOAD` and `NONATOMIC_LOAD`. -/
def executeLoad (cfg : Config) (action : ModelAction) : M Flow := do
  if action.type = .atomicRmwr then drain action.tid else pure ()
  let s ← state
  let pid := s.processId
  if cfg.gpfAlwaysSucceeds then
    update fun s => { s with backtrack := Function.update s.backtrack pid false }
  else pure ()
  let rf ← buildReadFromSlots cfg action
  if cfg.gpfAlwaysSucceeds then
    update fun s' => { s' with backtrack := Function.update s'.backtrack pid (s.backtrack pid) }
  else pure ()
  return .done (getReadValue action.location rf) rf

/-- `execute(action)`. -/
def execute (cfg : Config) (action : ModelAction) (ret : Ret) : M Flow :=
  match action.type with
  | .threadStart | .threadYield | .atomicCasFailed => return .done action.value []
  | .threadFinish | .threadonlyFinish => executeFinish action
  | .pthreadCreate => executeCreate action
  | .pthreadJoin => executeJoin action ret
  | .atomicTrylock => executeTrylock action
  | .atomicLock => executeLock action ret
  | .atomicWait | .atomicTimedwait | .atomicUnlock => executeUnlock action ret
  | .atomicNotifyOne => do
      update fun s => s.wakeThreadWaitingOn (.cond action.location)
      return .done action.value []
  | .atomicNotifyAll => do
      update fun s => s.wakeAllThreadsWaitingOn (· = .cond action.location)
      return .done action.value []
  | .atomicInit | .atomicStore | .nonatomicStore | .atomicRmw => executeStore action
  | .atomicRmwr | .atomicLoad | .nonatomicLoad => executeLoad cfg action
  | .cacheSfence | .cacheClflush | .cacheClflushopt => do
      addToStoreBuffer action.tid action.copy
      return .done action.value []
  | .cacheMfence => do
      drain action.tid
      return .done action.value []

/-- The rest of `execute(action)` after `thread_wait` returns. -/
def resumeExecute (action : ModelAction) (ret : Ret) : M Flow :=
  match action.type with
  | .atomicLock => lockLoop action ret
  | _ => return .done action.value []

end Cxlmc
