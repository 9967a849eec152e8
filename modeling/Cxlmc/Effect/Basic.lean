import Cxlmc.Lib.Path
import Cxlmc.Model.System
import Cxlmc.Read.Step

/-!
# The memory, one effect at a time

`MemStep` is what the code of the checker can do to the memory at one point: an entry leaves a
store buffer or a flush buffer, a process crashes, a read is resolved, the program writes to the
mapping. The code between two such points only moves threads and mutexes (`Idle`) or passes the
token (`Control`). What a step of the checker does is a path of these effects, so an invariant of
the memory is checked on each of them once.
-/

namespace Cxlmc

open Stateful Fill

inductive Effect where
  /-- Threads, mutexes and counters change; the running thread goes on. -/
  | idle
  /-- The running thread is suspended, and another may go on. -/
  | yield
  /-- `ensureInitialValue` records the initial value of a word. -/
  | initial (word : Nat)
  | push (entry : ModelAction)
  | popStore (t : ThreadId) (entry : ModelAction)
  | popClflush (t : ThreadId) (entry : ModelAction)
  | popClflushopt (t : ThreadId) (entry : ModelAction)
  | popSfence (t : ThreadId) (entry : ModelAction)
  /-- An entry of the flush buffer takes effect. -/
  | flush (t : ThreadId) (entry : ModelAction)
  /-- `cl_to_last_wr_clf` after a `CLFLUSH`. -/
  | note (t : ThreadId) (entry : ModelAction)
  /-- `last_sfence` after a sfence. -/
  | sfenceDone (t : ThreadId) (entry : ModelAction)
  /-- `insert_crash` of another process. -/
  | crash (pid : ProcessId)
  /-- `insert_crash` of the running process. -/
  | crashSelf
  | read (action : ModelAction) (rf : Slots)
  /-- The program writes to the mapping itself. -/
  | write (loc size : Nat)

/-! ## The states after an effect -/

namespace Model

/-- The entries of a store buffer have no clock yet. -/
def Unclocked (s : Model) (t : ThreadId) : Prop :=
  ∀ a ∈ (s.threadMemory t).storeBuffer, a.tick = 0

/-- Where the code of a thread is suspended. -/
def contextOf (s : Model) (t : ThreadId) : Context := (s.threads t).context

/-- An entry is added to a store buffer. -/
def pushed (s : Model) (t : ThreadId) (entry : ModelAction) : Model :=
  s.setThreadMemory t fun mem => { mem with storeBuffer := mem.storeBuffer ++ [entry] }

/-- The first entry has left a store buffer. -/
def popped (s : Model) (t : ThreadId) (rest : List ModelAction) : Model :=
  s.setThreadMemory t fun mem => { mem with storeBuffer := rest }

/-- The first entry has left a flush buffer. -/
def unqueued (s : Model) (t : ThreadId) (rest : List ModelAction) : Model :=
  s.setThreadMemory t fun mem => { mem with flushBuffer := rest }

/-- A `CLFLUSHOPT` is added to a flush buffer. -/
def queued (s : Model) (t : ThreadId) (entry : ModelAction) : Model :=
  s.setThreadMemory t fun mem =>
    { mem with flushBuffer := mem.flushBuffer ++ [mem.raiseEarliestEffect entry] }

/-- An eviction appends to the list of its word. -/
def evicted (s : Model) (a : ModelAction) : Model :=
  { s with
    ticks := s.ticks + 1
    objToWr := Function.update s.objToWr a.word
      (s.objToWr a.word ++ [{ a with tick := s.ticks }]) }

/-- The last store or flush of a thread to a line had the clock `clock`. -/
def noted (s : Model) (t : ThreadId) (line clock : Nat) : Model :=
  s.setThreadMemory t fun mem =>
    { mem with clToLastWrClf := Function.update mem.clToLastWrClf line (some clock) }

def tick (s : Model) : Model := { s with ticks := s.ticks + 1 }

/-- A flush with this clock has reached the line: every interval begins at it or later. -/
def flushed (s : Model) (seqNum line : Nat) : Model :=
  { s with
    objToCl := fun q a =>
      if a = line ∧ q < s.processCount ∧ (s.objToCl q a).getBegin < seqNum then
        (s.objToCl q a).setBegin seqNum
      else s.objToCl q a }

/-- What `ensureInitialValue` records. -/
def initialValue (s : Model) (word : Nat) : ModelAction :=
  { tid := s.threadId, type := .atomicInit, location := word, value := readWord s.memory word,
    order := .relaxed, size := 8 }

def initialized (s : Model) (word : Nat) : Model :=
  { s with objToWr := Function.update s.objToWr word [s.initialValue word] }

/-! ## Code that leaves the memory alone -/

/-- The running thread goes on and every thread stays where it is; threads may be created. -/
structure Stays (s s' : Model) : Prop where
  processCount : s'.processCount = s.processCount
  cxlMapping : s'.cxlMapping = s.cxlMapping
  threadCount : s.threadCount ≤ s'.threadCount
  processId : ∀ t, t < s.threadCount → (s'.threads t).processId = (s.threads t).processId
  activeThread : s'.activeThread = s.activeThread
  context : ∀ t, s'.contextOf t = s.contextOf t ∨
    s.threadCount ≤ t ∧ s'.contextOf t = .user

structure Idle (s s' : Model) : Prop extends Stays s s' where
  memory : s'.toMemory = s.toMemory

/-- The running thread is suspended, and any thread may be the next. -/
structure Control (s s' : Model) : Prop where
  memory : s'.toMemory = s.toMemory
  processCount : s'.processCount = s.processCount
  cxlMapping : s'.cxlMapping = s.cxlMapping
  threadCount : s.threadCount ≤ s'.threadCount
  processId : ∀ t, t < s.threadCount → (s'.threads t).processId = (s.threads t).processId
  activeThread : s.activeThread < s.threadCount → s'.activeThread < s'.threadCount

theorem Stays.refl (s : Model) : Stays s s :=
  ⟨rfl, rfl, Nat.le_refl _, fun _ _ => rfl, rfl, fun _ => .inl rfl⟩

theorem Stays.trans {s s' s'' : Model} (h : Stays s s') (h' : Stays s' s'') : Stays s s'' where
  processCount := h'.processCount.trans h.processCount
  cxlMapping := h'.cxlMapping.trans h.cxlMapping
  threadCount := Nat.le_trans h.threadCount h'.threadCount
  processId t ht :=
    (h'.processId t (Nat.lt_of_lt_of_le ht h.threadCount)).trans (h.processId t ht)
  activeThread := h'.activeThread.trans h.activeThread
  context t := by
    rcases h'.context t with h₂ | ⟨hle, h₂⟩
    · rw [h₂]
      exact h.context t
    · exact .inr ⟨Nat.le_trans h.threadCount hle, h₂⟩

theorem Idle.refl (s : Model) : Idle s s := ⟨.refl s, rfl⟩

theorem Idle.trans {s s' s'' : Model} (h : Idle s s') (h' : Idle s' s'') : Idle s s'' :=
  ⟨h.toStays.trans h'.toStays, h'.memory.trans h.memory⟩

theorem Control.trans {s s' s'' : Model} (h : Control s s') (h' : Control s' s'') :
    Control s s'' where
  memory := h'.memory.trans h.memory
  processCount := h'.processCount.trans h.processCount
  cxlMapping := h'.cxlMapping.trans h.cxlMapping
  threadCount := Nat.le_trans h.threadCount h'.threadCount
  processId t ht :=
    (h'.processId t (Nat.lt_of_lt_of_le ht h.threadCount)).trans (h.processId t ht)
  activeThread ht := h'.activeThread (h.activeThread ht)

theorem Idle.control {s s' : Model} (h : Idle s s') : Control s s' where
  memory := h.memory
  processCount := h.processCount
  cxlMapping := h.cxlMapping
  threadCount := h.threadCount
  processId := h.processId
  activeThread ht := by
    rw [h.activeThread]
    exact Nat.lt_of_lt_of_le ht h.threadCount

theorem Stays.ownProcess {s s' : Model} (h : Stays s s') (hlt : s.activeThread < s.threadCount) :
    s'.processId = s.processId := by
  show (s'.threads s'.activeThread).processId = (s.threads s.activeThread).processId
  rw [h.activeThread]
  exact h.processId _ hlt

/-- A change of one thread that keeps its process and its place. -/
theorem Idle.setThread (s : Model) (t : ThreadId) {f : Thread → Thread}
    (hpid : (f (s.threads t)).processId = (s.threads t).processId)
    (hctx : (f (s.threads t)).context = (s.threads t).context) : Idle s (s.setThread t f) := by
  have hthread : ∀ u, (s.setThread t f).threads u =
      if u = t then f (s.threads t) else s.threads u := by
    intro u
    show Function.update s.threads t (f (s.threads t)) u = _
    rw [Function.update_apply]
  refine ⟨⟨rfl, rfl, Nat.le_refl _, ?_, rfl, ?_⟩, rfl⟩
  · intro u _
    rw [hthread u]
    split
    · next hu => rw [hpid, hu]
    · rfl
  · intro u
    left
    rw [contextOf, contextOf, hthread u]
    split
    · next hu => rw [hctx, hu]
    · rfl

theorem Idle.wakeAllThreadsWaitingOn (s : Model) (v : WaitTarget → Bool) :
    Idle s (s.wakeAllThreadsWaitingOn v) := by
  have hthread : ∀ u, ((s.wakeAllThreadsWaitingOn v).threads u).processId = (s.threads u).processId ∧
      ((s.wakeAllThreadsWaitingOn v).threads u).context = (s.threads u).context := by
    intro u
    unfold Model.wakeAllThreadsWaitingOn
    dsimp only
    split <;> exact ⟨rfl, rfl⟩
  exact ⟨⟨rfl, rfl, Nat.le_refl _, fun u _ => (hthread u).1, rfl, fun u => .inl (hthread u).2⟩, rfl⟩

theorem Idle.wakeThreadWaitingOn (s : Model) (v : WaitTarget) :
    Idle s (s.wakeThreadWaitingOn v) := by
  unfold Model.wakeThreadWaitingOn
  split
  · exact .refl s
  · exact .setThread s _ rfl rfl

theorem Idle.crashThread (pid : ProcessId) (s : Model) (t : ThreadId) :
    Idle s (s.crashThread pid t) := by
  unfold Model.crashThread
  split
  · exact (Idle.setThread s t rfl rfl).trans (.wakeAllThreadsWaitingOn _ _)
  · exact .refl s

theorem Idle.processCrash (s : Model) : Idle s s.processCrash := by
  unfold Model.processCrash
  generalize s.processId = pid
  induction List.range s.threadCount generalizing s with
  | nil => exact .refl s
  | cons t ts ih => exact (Idle.crashThread pid s t).trans (ih _)

/-- The new thread is the one after the last. -/
theorem Idle.newThread (s : Model) : Idle s s.newThread := by
  have hthread : ∀ u, s.newThread.threads u =
      if u = s.threadCount then Thread.new s.processId else s.threads u := by
    intro u
    show Function.update s.threads _ _ u = _
    rw [Function.update_apply]
  refine ⟨⟨rfl, rfl, Nat.le_succ _, ?_, rfl, ?_⟩, rfl⟩
  · intro u hu
    rw [hthread u, if_neg (Nat.ne_of_lt hu)]
  · intro u
    rw [contextOf, contextOf, hthread u]
    split
    · next hu => exact .inr ⟨Nat.le_of_eq hu.symm, rfl⟩
    · exact .inl rfl

end Model

theorem ends_evictStore {s s' : Model} {a : ModelAction} (hw : a.isWrite = true)
    {r : Except Stop ModelAction} :
    (evictStore a).Ends s r s' ↔
      r = .ok { a with tick := s.ticks } ∧ s' = s.evicted a := by
  rw [evictStore, require, if_pos hw, ends_pure_bind, getNextSequenceNum]
  exact ends_pure

/-! ## The steps -/

inductive MemStep (cfg : Config) (s : Model) : Effect → Model → Prop where
  | idle {s' : Model} (h : s.Idle s') : MemStep cfg s .idle s'
  | yield {s' : Model} (h : s.Control s') : MemStep cfg s .yield s'
  | initial (word : Nat) (haligned : alignAddress word = word) (h : s.objToWr word = []) :
      MemStep cfg s (.initial word) (s.initialized word)
  | push (entry : ModelAction) (htid : entry.tid = s.threadId) (hseq : entry.tick = 0)
      (hbuf : entry.isBuffered = true) (heffect : entry.earliestEffect = 0) :
      MemStep cfg s (.push entry) (s.pushed s.threadId entry)
  | popStore (t : ThreadId) (entry : ModelAction) (rest : List ModelAction)
      (hbuf : (s.threadMemory t).storeBuffer = entry :: rest) (hw : entry.isWrite = true) :
      MemStep cfg s (.popStore t entry)
        (((s.popped t rest).evicted entry).noted t entry.line s.nextSequenceNum)
  | popClflush (t : ThreadId) (entry : ModelAction) (rest : List ModelAction)
      (hbuf : (s.threadMemory t).storeBuffer = entry :: rest) (htype : entry.type = .cacheClflush) :
      MemStep cfg s (.popClflush t entry)
        ((s.popped t rest).tick.flushed s.nextSequenceNum entry.line)
  | popClflushopt (t : ThreadId) (entry : ModelAction) (rest : List ModelAction)
      (hbuf : (s.threadMemory t).storeBuffer = entry :: rest)
      (htype : entry.type = .cacheClflushopt) :
      MemStep cfg s (.popClflushopt t entry) ((s.popped t rest).queued t entry)
  | popSfence (t : ThreadId) (entry : ModelAction) (rest : List ModelAction)
      (hbuf : (s.threadMemory t).storeBuffer = entry :: rest) (htype : entry.type = .cacheSfence) :
      MemStep cfg s (.popSfence t entry) (s.popped t rest)
  | flush (t : ThreadId) (entry : ModelAction) (rest : List ModelAction)
      (hbuf : (s.threadMemory t).flushBuffer = entry :: rest)
      (htype : entry.type = .cacheClflushopt) :
      MemStep cfg s (.flush t entry) ((s.unqueued t rest).flushed entry.earliestEffect entry.line)
  | note (t : ThreadId) (entry : ModelAction) (hclock : entry.tick + 1 = s.ticks) :
      MemStep cfg s (.note t entry) (s.noted t entry.line entry.seqNum)
  | sfenceDone (t : ThreadId) (entry : ModelAction) (hseq : entry.tick = 0) :
      MemStep cfg s (.sfenceDone t entry)
        (s.setThreadMemory t fun mem => { mem with lastSfence := entry.seqNum })
  | crash (pid : ProcessId) (hother : pid ≠ s.processId) (hfirst : s.crashes = ∅)
      (hmany : 1 < s.processCount) : MemStep cfg s (.crash pid) (s.crash pid)
  | crashSelf (hfirst : s.crashes = ∅) (hmany : 1 < s.processCount) :
      MemStep cfg s .crashSelf (s.crash s.processId)
  | read {s' : Model} (action : ModelAction) (rf : Slots) (htid : action.tid = s.threadId)
      (hpos : 0 < action.size) (h : (buildReadFromSlots cfg action).Ends s (.ok rf) s') :
      MemStep cfg s (.read action rf) s'
  | write (loc size val : Nat) :
      MemStep cfg s (.write loc size) { s with memory := Model.writeRaw s.memory loc size val }

end Cxlmc
