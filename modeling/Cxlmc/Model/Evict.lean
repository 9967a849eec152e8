import Cxlmc.Model.Scheduler

/-!
# Crashes, stores and flushes (`model.cc`)

`evict_store` and `evict_clflush` take the actions that leave a store buffer or a flush buffer.
A flush may crash a process that has a store on the flushed word which the flush makes persistent.
-/

namespace Cxlmc

open Stateful

/-- `decision_point(numchoices)`. -/
def decisionPoint (numchoices : Nat) : M Nat := choose numchoices

/-- `should_crash()`. -/
def shouldCrash : M Bool := do
  let s ← state
  -- the point is counted and decided only where all the tests before it hold
  if s.backtrack s.processId ∧ s.crashes.size < maxCrashesPerExecution ∧
      s.crashes.size + 1 < s.processCount then do
    update fun s => { s with crashPoints := s.crashPoints + 1 }
    let c ← decisionPoint 2
    return c = 0
  else return false

/-- `insert_crash(pid)`. A process that crashes itself exits. -/
def insertCrash (pid : ProcessId) : M Unit := do
  if ← shouldCrash then do
    let s ← state
    -- `crashes[process_id] = …` replaces an entry, where `emplace` keeps it
    if pid = s.processId then do
      update fun s => { s with crashes := AList.insert pid s.nextSequenceNum s.crashes }
      update Model.processCrash
      stop .exit
    else
      update fun s => { s with crashes := s.crashes.emplace pid s.nextSequenceNum }
  else pure ()

/-- `get_next_sequence_num()`: `next_sequence_num++`, as the count that `modelclock` reads. -/
def getNextSequenceNum : M Nat := do
  let s ← state
  update fun s => { s with ticks := s.ticks + 1 }
  return s.ticks

/-- `evict_store(action)`: returns the action with its sequence number. -/
def evictStore (action : ModelAction) : M ModelAction := do
  require (action.isWrite = true) .assertFailed
  let tick ← getNextSequenceNum
  let store := { action with tick := tick }
  update fun s =>
    { s with objToWr := Function.update s.objToWr store.word (s.objToWr store.word ++ [store]) }
  return store

/-- The loop of `evict_clflush` over the processes: `min` and the intervals after it. -/
def flushIntervals (seqNum addr : Nat) :
    List ProcessId → Nat × CacheLineStore → Nat × CacheLineStore
  | [], acc => acc
  | i :: is, (min, cls) =>
      let cl := cls i addr
      -- the crash of `i` is already known to come later
      if seqNum ≤ cl.getBegin then flushIntervals seqNum addr is (min, cls)
      else
        flushIntervals seqNum addr is
          (if cl.getBegin < min then cl.getBegin else min,
            cls.setCacheline i addr (cl.setBegin seqNum))

/-- The loop of `evict_clflush` over the stores of the word, from the newest. -/
def flushCrashLoop (min : Nat) : List ModelAction → M Unit
  | [] => pure ()
  | store :: older => do
      let s ← state
      -- `break`: no older store is made persistent by this flush, or no more crashes are allowed
      if store.seqNum ≤ min ∨ maxCrashesPerExecution ≤ s.crashes.size ∨
          s.processCount - 1 ≤ s.crashes.size then pure ()
      -- only the newest store of a live process is considered, whether it crashes or not
      else if s.isLive (s.getProcessId store) then insertCrash (s.getProcessId store)
      else flushCrashLoop min older

/-- `evict_clflush(action)`: returns the action, with its sequence number if it is a `CLFLUSH`. -/
def evictClflush (action : ModelAction) : M ModelAction := do
  require (action.type = .cacheClflush ∨ action.type = .cacheClflushopt) .assertFailed
  let action ←
    if action.type = .cacheClflush then do
      let tick ← getNextSequenceNum
      pure { action with tick := tick }
    else pure action
  -- a `CLFLUSHOPT` keeps the clock it was given when it left the store buffer
  let seqNum := if action.type = .cacheClflush then action.seqNum else action.earliestEffect
  let s ← state
  let (min, cls) :=
    flushIntervals seqNum action.line (List.range s.processCount) (seqNum, s.objToCl)
  update fun s => { s with objToCl := cls }
  flushCrashLoop min (s.getStorelist action.location).reverse
  return action

/-- `ensureInitialValue(action)`. -/
def ensureInitialValue (action : ModelAction) : M Unit :=
  update fun s =>
    if s.getStorelist action.location = [] then
      { s with
        objToWr := Function.update s.objToWr action.word
          [{ tid := s.threadId, type := .atomicInit, location := action.word,
             value := Model.readWord s.memory action.word, order := .relaxed, size := 8 }] }
    else s

end Cxlmc
