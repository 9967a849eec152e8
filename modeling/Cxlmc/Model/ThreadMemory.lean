import Cxlmc.Model.ReadFrom

/-!
# Store and flush buffers (`thread_memory.cc`)

The store buffer of a thread holds its stores and flushes in program order, sfences among them.
`CLFLUSHOPT` moves on to the flush buffer, which the next fence empties.
-/

namespace Cxlmc

open Stateful

/-- The action types that `add_to_store_buffer` accepts. -/
def ModelAction.isBuffered (a : ModelAction) : Bool :=
  a.type = .atomicInit || a.type = .atomicStore || a.type = .nonatomicStore ||
    a.type = .atomicRmw || a.type = .cacheSfence || a.type = .cacheClflush ||
    a.type = .cacheClflushopt

/-- `add_to_store_buffer(action)` of thread `t`. -/
def addToStoreBuffer (t : ThreadId) (action : ModelAction) : M Unit := do
  require (action.isBuffered = true) .assertFailed
  update fun s => s.setThreadMemory t fun mem =>
    { mem with storeBuffer := mem.storeBuffer ++ [action] }

/-- `cl_to_last_wr_clf[getCacheID(action->get_location())] = action->get_seq_num()`. -/
def noteWrClf (t : ThreadId) (action : ModelAction) : M Unit :=
  update fun s => s.setThreadMemory t fun mem =>
    { mem with clToLastWrClf := Function.update mem.clToLastWrClf action.line (some action.seqNum) }

/-- `empty_flush_buffer()` of thread `t`: the loop over the `flushBuffer` entries. -/
def emptyFlushLoop (t : ThreadId) : List ModelAction → M Unit
  | [] => pure ()
  | action :: rest => do
      update fun s => s.setThreadMemory t fun mem => { mem with flushBuffer := rest }
      require (action.type = .cacheClflushopt) .assertFailed
      let _ ← evictClflush action
      emptyFlushLoop t rest

/-- `empty_flush_buffer()` of thread `t`. -/
def emptyFlushBuffer (t : ThreadId) : M Unit := do
  let s ← state
  emptyFlushLoop t (s.threadMemory t).flushBuffer

/-- The effect of a popped `CLFLUSHOPT`: not before the last sfence and the last store or flush of
the thread to the line. -/
def ThreadMemory.raiseEarliestEffect (mem : ThreadMemory) (action : ModelAction) : ModelAction :=
  let action :=
    if mem.lastSfence > action.earliestEffect then
      { action with earliestEffect := mem.lastSfence }
    else action
  match mem.clToLastWrClf action.line with
  | some c => if c > action.earliestEffect then { action with earliestEffect := c } else action
  | none => action

/-- The `switch` of `pop_from_store_buffer()` of thread `t`, for an entry that has left the
buffer. -/
def popAction (t : ThreadId) (action : ModelAction) : M Unit :=
  match action.type with
  | .atomicInit | .atomicStore | .nonatomicStore | .atomicRmw => do
      let action ← evictStore action
      noteWrClf t action
  | .cacheClflush => do
      let action ← evictClflush action
      noteWrClf t action
  | .cacheClflushopt =>
      update fun s => s.setThreadMemory t fun mem =>
        { mem with flushBuffer := mem.flushBuffer ++ [mem.raiseEarliestEffect action] }
  | .cacheSfence => do
      emptyFlushBuffer t
      update fun s => s.setThreadMemory t fun mem => { mem with lastSfence := action.seqNum }
  | _ => stop .assertFailed

/-- `pop_from_store_buffer()` of thread `t`. -/
def popFromStoreBuffer (t : ThreadId) : M Unit := do
  let s ← state
  match (s.threadMemory t).storeBuffer with
  | [] => pure ()
  | action :: rest => do
      update fun s => s.setThreadMemory t fun mem => { mem with storeBuffer := rest }
      popAction t action

/-- `empty_store_buffer()` of thread `t`: popping adds nothing to the store buffer, so the loop runs
once for each entry. -/
def emptyStoreLoop (t : ThreadId) : Nat → M Unit
  | 0 => pure ()
  | n + 1 => do
      popFromStoreBuffer t
      emptyStoreLoop t n

/-- `empty_store_buffer()` of thread `t`. -/
def emptyStoreBuffer (t : ThreadId) : M Unit := do
  let s ← state
  emptyStoreLoop t (s.threadMemory t).storeBuffer.length

end Cxlmc
