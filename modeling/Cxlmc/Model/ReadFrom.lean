import Cxlmc.Model.Evict

/-!
# Reads (`build_read_from`)

A read is resolved from the reader's own store buffer and then from the store list of its word, from
the newest store to the oldest. On the way the checker may decide to crash the writer of a store, and
decides for each store of a crashed process whether it persisted before the crash.
-/

namespace Cxlmc

open Stateful

/-- The loop of `local_bypassing` over the store buffer, from the newest entry. -/
def bypassLoop (read : ModelAction) : List ModelAction → Slots → Nat → Bool × Slots × Nat
  | [], rf, left => (false, rf, left)
  | write :: older, rf, left =>
      if write.type = .nonatomicStore then
        let (_, rf, left) := getOverlaps write read rf left
        if left = 0 then (true, rf, left) else bypassLoop read older rf left
      else bypassLoop read older rf left

/-- `ThreadMemory::local_bypassing(read, rf, numslotsleft)`. -/
def ThreadMemory.localBypassing (mem : ThreadMemory) (read : ModelAction) (rf : Slots) (left : Nat) :
    Bool × Slots × Nat :=
  bypassLoop read mem.storeBuffer.reverse rf left

/-- One word of the loop of `check_memory_poisoning`: the clock and the process of the poison so
far. `i` is added to the line address as it stands. -/
def checkPoisonLoop (read : ModelAction) : List Nat → Nat × ProcessId → M (Nat × ProcessId)
  | [], acc => pure acc
  | i :: is, (poisonBegin, poisonPid) => do
      let s ← state
      match s.getStorelist (read.line + i) with
      | [] => checkPoisonLoop read is (poisonBegin, poisonPid)
      | head :: _ =>
          let headPid := s.getProcessId head
          if s.isCrashed headPid then do
            let cl := s.objToCl headPid read.line
            -- the end of the interval is known, and the read is later
            if cl.getEnd ≠ 0 ∧ read.seqNum > cl.getEnd then stop .poison
            else if head.seqNum > cl.getBegin ∧ head.seqNum > poisonBegin then
              checkPoisonLoop read is (head.seqNum, headPid)
            else checkPoisonLoop read is (poisonBegin, poisonPid)
          else checkPoisonLoop read is (poisonBegin, poisonPid)

/-- `check_memory_poisoning(read)`. -/
def checkMemoryPoisoning (read : ModelAction) : M Unit := do
  let (poisonBegin, poisonPid) ← checkPoisonLoop read (List.range (cachelineSize / 8)) (0, 0)
  if poisonBegin ≠ 0 then do
    let c ← decisionPoint 2
    if c = 0 then do
      update fun s => s.setCacheline poisonPid read.line
        ((s.objToCl poisonPid read.line).setEnd poisonBegin)
      stop .poison
    else
      update fun s => s.setCacheline poisonPid read.line
        ((s.objToCl poisonPid read.line).setBegin poisonBegin)
  else pure ()

/-- The part of the loop body for running processes: returns the slots and `numslotsleft`. Crashing
the writer goes back to the slots from before the store. -/
def readRunning (read : ModelAction) (rpid : ProcessId) (store : ModelAction) (rf : Slots)
    (left : Nat) : M (Slots × Nat) := do
  match getOverlapsSaveOld store read rf left with
  | (none, rf', left') => return (rf', left')
  | (some old, rf', left') => do
      let s ← state
      let wpid := s.getProcessId store
      let cl := s.objToCl wpid read.line
      -- the reader's own process and the initial value need no decision
      if store.type ≠ .atomicInit ∧ wpid ≠ rpid then do
        let crash ←
          if s.backtrack s.processId ∧ s.crashes.size < maxCrashesPerExecution ∧
              s.crashes.size + 1 < s.processCount ∧ ¬ s.isCompleted wpid ∧
              store.seqNum > cl.getBegin then do
            update fun s => { s with crashPoints := s.crashPoints + 1 }
            let c ← decisionPoint 2
            pure (decide (c = 0))
          else pure false
        if crash then do
          update fun s => { s with crashes := s.crashes.emplace wpid s.nextSequenceNum }
          -- the store is taken out of the slots again: its writer has crashed, and the second part decides
          return (old, left)
        else do
          if store.seqNum > cl.getBegin then
            update fun s => s.setCacheline wpid read.line (cl.setBegin store.seqNum)
          else pure ()
          return (rf', left')
      else return (rf', left')

/-- The part of the loop body for crashed processes: returns the slots and `numslotsleft`, or `none`
for `continue`. `older` are the stores the loop has not reached yet. -/
def readCrashed (cfg : Config) (read : ModelAction) (store : ModelAction)
    (older : List ModelAction) (rf : Slots) (left : Nat) : M (Option (Slots × Nat)) := do
  let s ← state
  let wpid := s.getProcessId store
  let cl := s.objToCl wpid read.line
  -- must have persisted
  if store.seqNum ≤ cl.getBegin then
    let (_, rf', left') := getOverlaps store read rf left
    return some (rf', left')
  -- may have persisted
  else if cl.getEnd = 0 ∨ store.seqNum < cl.getEnd then
    if cfg.equivStoreSkip = true ∧ older.head?.any store.equivalent then return none
    else
      match getOverlapsSaveOld store read rf left with
      | (none, rf', left') => return some (rf', left')
      | (some old, rf', left') => do
          let lost ←
            if store.type ≠ .atomicInit ∧ s.backtrack s.processId then do
              let c ← decisionPoint 2
              pure (decide (c = 0))
            else pure false
          if lost then do
            update fun s => s.setCacheline wpid read.line (cl.setEnd store.seqNum)
            return some (old, left)
          else do
            update fun s => s.setCacheline wpid read.line (cl.setBegin store.seqNum)
            return some (rf', left')
  -- has not persisted
  else return some (rf, left)

/-- The loop of `build_read_from` over the store list, from the newest store. -/
def readLoop (cfg : Config) (read : ModelAction) (rpid : ProcessId) :
    List ModelAction → Slots → Nat → M Slots
  | [], _, _ => stop .assertFailed
  | store :: older, rf, left => do
      let s ← state
      let (rf, left) ←
        if s.isCrashed (s.getProcessId store) then pure (rf, left)
        else readRunning read rpid store rf left
      -- looked up again: the writer may have crashed just now
      let s ← state
      let next ←
        if s.isCrashed (s.getProcessId store) then readCrashed cfg read store older rf left
        else pure (some (rf, left))
      match next with
      | none => readLoop cfg read rpid older rf left
      | some (rf, left) => if left = 0 then return rf else readLoop cfg read rpid older rf left

/-- `build_read_from(read)`, up to the slots that `get_read_value` turns into the result. -/
def buildReadFromSlots (cfg : Config) (read : ModelAction) : M Slots := do
  let s ← state
  let (done, rf, left) :=
    (s.threadMemory read.tid).localBypassing read (Slots.free read.size) read.size
  if done then return rf
  else do
    require (s.getStorelist read.location ≠ []) .assertFailed
    if cfg.memPoison then checkMemoryPoisoning read else pure ()
    let s ← state
    readLoop cfg read (s.getProcessId read) (s.getStorelist read.location).reverse rf left

/-- `build_read_from(read)`. -/
def buildReadFrom (cfg : Config) (read : ModelAction) : M Nat := do
  let rf ← buildReadFromSlots cfg read
  return getReadValue read.location rf

end Cxlmc
