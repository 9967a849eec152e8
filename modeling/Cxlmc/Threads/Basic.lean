import Cxlmc.Threads.Works
import Cxlmc.Effect.Execute

/-!
# Threads and mutexes, one move at a time

`ThreadStep` is what the code of the checker can do to threads, mutexes and processes at one point: a
thread is suspended or woken, a mutex changes hands, a process ends. What a step of the checker does
is a path of such moves, so an invariant of threads and mutexes is checked on each of them once.
-/

namespace Cxlmc

open Stateful

/-- The places at which a thread is not in the middle of `Model::action`. -/
def Context.isBetween : Context → Bool
  | .user | .shutdown | .popping _ _ _ _ => true
  | _ => false

namespace Model

/-! ## The states after a move of the running thread -/

/-- The running thread is in the state `RUNNING`. -/
def Runs (s : Model) : Prop := (s.threads s.threadId).state = .running

instance (s : Model) : Decidable s.Runs := inferInstanceAs (Decidable (_ = _))

/-- It is past the head of `Model::action`. -/
def called (s : Model) (a : ModelAction) (ret : Ret) : Model :=
  (s.setPending s.threadId (some a)).setContext s.threadId (.ready a ret)

/-- `execute` has come back to it. -/
def backAt (s : Model) (c : Context) : Model := (s.setPending s.threadId none).setContext s.threadId c

/-- The token has gone to `t`. -/
def passed (s : Model) (t : ThreadId) : Model := { s with activeThread := t }

/-- It has become the owner of `m`. -/
def acquired (s : Model) (m : MutexId) : Model :=
  { s.setThread s.threadId fun th => { th with ownedMutexes := insert m th.ownedMutexes } with
    mutexes := Function.update s.mutexes m
      { s.mutexes m with owner := some s.threadId, recursiveLockCount := 0 } }

/-- It holds `m` another number of times. -/
def recounted (s : Model) (m : MutexId) (count : Nat) : Model :=
  { s with
    mutexes := Function.update s.mutexes m { s.mutexes m with recursiveLockCount := count } }

/-- It has given `m` up, and those that wait for it are woken. -/
def released (s : Model) (m : MutexId) : Model :=
  Model.wakeAllThreadsWaitingOn
    { s.setThread s.threadId fun th => { th with ownedMutexes := th.ownedMutexes.erase m } with
      mutexes := Function.update s.mutexes m
        { s.mutexes m with owner := none, recursiveLockCount := 0 } }
    (· = .mutex m)

/-- It waits inside `execute`. -/
def waits (s : Model) (a : ModelAction) (ret : Ret) : Model :=
  (s.setState s.threadId .blocked).setContext s.threadId (.waiting a ret)

/-- It has finished, with the value `v`, and those that join it are woken. -/
def finishes (s : Model) (v : Nat) : Model :=
  (((s.setThread s.threadId fun th => { th with retVal := v }).wakeAllThreadsWaitingOn
    (· = .thread s.threadId)).setContext s.threadId .exited).setState s.threadId .completed

/-- `process_shutdown` has been through the threads `ts`. -/
def terminated (s : Model) (ts : List ThreadId) : Model :=
  { s with
    threads := fun t =>
      if t ∈ ts ∧ (s.threads t).processId = s.processId ∧ (s.threads t).isCompleted = false then
        { s.threads t with state := .completed }
      else s.threads t }

/-- The exit handler of the running process has marked its end. -/
def gone (s : Model) : Model :=
  { s with
    threads := fun t =>
      if (s.threads t).processId = s.processId then
        { s.threads t with
          context := .exited
          state :=
            if t = s.threadId ∧ (s.threads t).isCompleted = false then .completed
            else (s.threads t).state }
      else s.threads t }

/-! ## What the moves do to each thread -/

section

variable (s : Model) (u : ThreadId)

theorem setThread_threads (t : ThreadId) (f : Thread → Thread) :
    (s.setThread t f).threads u = if u = t then f (s.threads u) else s.threads u := by
  show Function.update s.threads t _ u = _
  rw [Function.update_apply]
  split
  · next h => rw [h]
  · rfl

theorem wakeAllThreadsWaitingOn_threads (v : WaitTarget → Bool) :
    (s.wakeAllThreadsWaitingOn v).threads u =
      if u < s.threadCount ∧ (s.threads u).waitingOn.any v then
        { s.threads u with state := .running }
      else s.threads u := rfl

theorem called_threads (a : ModelAction) (ret : Ret) :
    (s.called a ret).threads u =
      if u = s.threadId then { s.threads u with pending := some a, context := .ready a ret }
      else s.threads u := by
  simp only [called, setPending, setContext, setThread_threads]
  split <;> rfl

theorem backAt_threads (c : Context) :
    (s.backAt c).threads u =
      if u = s.threadId then { s.threads u with pending := none, context := c }
      else s.threads u := by
  simp only [backAt, setPending, setContext, setThread_threads]
  split <;> rfl

theorem acquired_threads (m : MutexId) :
    (s.acquired m).threads u =
      if u = s.threadId then
        { s.threads u with ownedMutexes := insert m (s.threads u).ownedMutexes }
      else s.threads u := by
  simp only [acquired, setThread_threads]

theorem released_threads (m : MutexId) :
    (s.released m).threads u =
      if u < s.threadCount ∧ (s.threads u).waitingOn.any (· = .mutex m) then
        { s.threads u with
          state := .running
          ownedMutexes :=
            if u = s.threadId then (s.threads u).ownedMutexes.erase m
            else (s.threads u).ownedMutexes }
      else if u = s.threadId then
        { s.threads u with ownedMutexes := (s.threads u).ownedMutexes.erase m }
      else s.threads u := by
  simp only [released, wakeAllThreadsWaitingOn_threads, setThread_threads]
  by_cases hu : u = s.threadId
  · simp only [if_pos hu]
    rfl
  · simp only [if_neg hu]
    rfl

theorem waits_threads (a : ModelAction) (ret : Ret) :
    (s.waits a ret).threads u =
      if u = s.threadId then { s.threads u with state := .blocked, context := .waiting a ret }
      else s.threads u := by
  simp only [waits, setState, setContext, setThread_threads]
  split <;> rfl

theorem finishes_threads (v : Nat) :
    (s.finishes v).threads u =
      if u = s.threadId then
        { s.threads u with state := .completed, retVal := v, context := .exited }
      else if u < s.threadCount ∧ (s.threads u).waitingOn.any (· = .thread s.threadId) then
        { s.threads u with state := .running }
      else s.threads u := by
  simp only [finishes, setState, setContext, setThread_threads, wakeAllThreadsWaitingOn_threads]
  split
  · split <;> rfl
  · rfl

@[simp] theorem terminated_threads (ts : List ThreadId) :
    (s.terminated ts).threads u =
      if u ∈ ts ∧ (s.threads u).processId = s.processId ∧ (s.threads u).isCompleted = false then
        { s.threads u with state := .completed }
      else s.threads u := rfl

theorem gone_threads :
    s.gone.threads u =
      if (s.threads u).processId = s.processId then
        { s.threads u with
          context := .exited
          state :=
            if u = s.threadId ∧ (s.threads u).isCompleted = false then .completed
            else (s.threads u).state }
      else s.threads u := rfl

theorem newThread_threads :
    s.newThread.threads u =
      if u = s.threadCount then Thread.new s.processId else s.threads u :=
  Function.update_apply _ _ _ u

/-- `notify_one` changes the threads only. -/
theorem wakeThreadWaitingOn_eq (v : WaitTarget) :
    s.wakeThreadWaitingOn v = { s with threads := (s.wakeThreadWaitingOn v).threads } := by
  unfold wakeThreadWaitingOn
  split <;> rfl

/-- `notify_one` wakes one thread or none. -/
theorem wakeThreadWaitingOn_cases (v : WaitTarget) :
    (s.wakeThreadWaitingOn v = s ∧ ∀ t ∈ s.otherThreads, (s.threads t).waitingOn ≠ some v) ∨
      ∃ t ∈ s.otherThreads, (s.threads t).waitingOn = some v ∧
        s.wakeThreadWaitingOn v = s.setState t .running := by
  unfold wakeThreadWaitingOn
  split
  · next h =>
      refine .inl ⟨rfl, ?_⟩
      intro t ht
      simpa using List.find?_eq_none.mp h t ht
  · next t h =>
      have hwaits := List.find?_some h
      simp only [decide_eq_true_eq] at hwaits
      exact .inr ⟨t, List.mem_of_find?_eq_some h, hwaits, rfl⟩

theorem lt_of_mem_otherThreads (hlt : s.activeThread < s.threadCount) (hu : u ∈ s.otherThreads) :
    u < s.threadCount := by
  obtain ⟨i, _, rfl⟩ := List.mem_map.mp hu
  exact Nat.mod_lt _ (Nat.zero_lt_of_lt hlt)

/-- The round of the scheduler comes to every other thread. -/
theorem exists_round {n a t : Nat} (ht : t < n) (ha : a < n) (hne : t ≠ a) :
    ∃ i, i < n - 1 ∧ (a + (i + 1)) % n = t := by
  by_cases hle : a < t
  · refine ⟨t - a - 1, by omega, ?_⟩
    have hsum : a + (t - a - 1 + 1) = t := by omega
    rw [hsum, Nat.mod_eq_of_lt ht]
  · refine ⟨t + n - a - 1, by omega, ?_⟩
    have hsum : a + (t + n - a - 1 + 1) = t + n := by omega
    rw [hsum, Nat.add_mod_right, Nat.mod_eq_of_lt ht]

/-- It does not come back to the thread it starts from. -/
theorem round_ne {n a i : Nat} (ha : a < n) (hi : i < n - 1) : (a + (i + 1)) % n ≠ a := by
  by_cases hwrap : a + (i + 1) < n
  · rw [Nat.mod_eq_of_lt hwrap]
    omega
  · rw [Nat.mod_eq_sub_mod (Nat.le_of_not_lt hwrap), Nat.mod_eq_of_lt (by omega)]
    omega

theorem mem_otherThreads (hlt : s.activeThread < s.threadCount) :
    u ∈ s.otherThreads ↔ u < s.threadCount ∧ u ≠ s.activeThread := by
  constructor
  · intro hu
    refine ⟨s.lt_of_mem_otherThreads u hlt hu, ?_⟩
    obtain ⟨i, hi, rfl⟩ := List.mem_map.mp hu
    exact round_ne hlt (List.mem_range.mp hi)
  · rintro ⟨hu, hne⟩
    obtain ⟨i, hi, heq⟩ := exists_round hu hlt hne
    exact List.mem_map.mpr ⟨i, List.mem_range.mpr hi, heq⟩

end

/-! ## When a thread may lock or has to wait -/

/-- The mutex has no owner, or its owner has crashed. -/
def Free (s : Model) (m : MutexId) : Prop :=
  ∀ o, (s.mutexes m).owner = some o → (s.threads o).state = .crashed

theorem free_of_none (s : Model) {m : MutexId} (h : (s.mutexes m).owner = none) : s.Free m := by
  intro o ho
  rw [h] at ho
  cases ho

theorem free_of_crashed (s : Model) {m : MutexId} {o : ThreadId} (howner : (s.mutexes m).owner = some o)
    (h : (s.threads o).state = .crashed) : s.Free m := by
  intro o' ho'
  rw [howner] at ho'
  cases ho'
  exact h

/-- Why the running thread waits: another thread that has not crashed owns the mutex, the thread that
it joins goes on, or it has just given up the mutex of a condition variable. -/
inductive MustWait (s : Model) (a : ModelAction) : Prop where
  | lock {o : ThreadId} (htype : a.type = .atomicLock)
      (howner : (s.mutexes a.location).owner = some o) (halive : (s.threads o).state ≠ .crashed)
  | join (htype : a.type = .pthreadJoin)
      (hprocess : (s.threads a.location).processId = s.processId)
      (hgoes : (s.threads a.location).state ≠ .completed)
  | cond (htype : a.type = .atomicWait)

/-- A condition wait that gives up its mutex, which the running thread holds once. -/
structure MustGive (s : Model) (a : ModelAction) : Prop where
  type : a.type = .atomicWait
  owner : (s.mutexes a.value).owner = some s.threadId
  once : ¬ ((s.mutexes a.value).mutexType = .recursive ∧ (s.mutexes a.value).recursiveLockCount > 0)

end Model

/-! ## The moves -/

inductive ThreadStep (s : Model) : Model → Prop where
  | work {s' : Model} (h : s.Works s') : ThreadStep s s'
  | place (c : Context) (hrun : s.Runs) (hc : c.isBetween = true) :
      ThreadStep s (s.setContext s.threadId c)
  | call (a : ModelAction) (ret : Ret) (hrun : s.Runs) : ThreadStep s (s.called a ret)
  | back (c : Context) (hrun : s.Runs) (hc : c.isBetween = true) : ThreadStep s (s.backAt c)
  | pass (t : ThreadId) (hstate : (s.threads t).state = .running) (hlt : t < s.threadCount) :
      ThreadStep s (s.passed t)
  | acquire (m : MutexId) (hrun : s.Runs) (hfree : s.Free m)
      (hnot : m ∉ (s.threads s.threadId).ownedMutexes) : ThreadStep s (s.acquired m)
  | recount (m : MutexId) (count : Nat) (hrun : s.Runs) : ThreadStep s (s.recounted m count)
  | release (m : MutexId) (hrun : s.Runs) (howner : (s.mutexes m).owner = some s.threadId) :
      ThreadStep s (s.released m)
  | create (hrun : s.Runs) : ThreadStep s s.newThread
  | notifyOne (c : CondId) : ThreadStep s (s.wakeThreadWaitingOn (.cond c))
  | notifyAll (c : CondId) : ThreadStep s (s.wakeAllThreadsWaitingOn (· = .cond c))
  | wait (a : ModelAction) (ret : Ret) (hrun : s.Runs)
      (hctx : s.contextOf s.threadId = .ready a ret ∨ s.contextOf s.threadId = .waiting a ret)
      (hmust : s.MustWait a) : ThreadStep s (s.waits a ret)
  | finish (v : Nat) (hrun : s.Runs) : ThreadStep s (s.finishes v)
  | shutdown (hrun : s.Runs) (hctx : s.contextOf s.threadId = .shutdown) :
      ThreadStep s
        { s.terminated (List.range s.threadCount) with
          completedProcs := insert s.processId s.completedProcs }
  | die {s' : Model} (hrun : s.Runs) (h : s.Dies s') : ThreadStep s s'
  | dieLate (hrun : s.Runs) (h : s.isCrashed s.processId = true) : ThreadStep s s.processCrash
  | dieInShutdown {s' : Model} (ts : List ThreadId) (hts : ∀ t ∈ ts, t < s.threadCount)
      (hrun : s.Runs) (hctx : s.contextOf s.threadId = .shutdown) (h : (s.terminated ts).Dies s') :
      ThreadStep s s'
  | leave (hdone : (s.threads s.threadId).isCompleted = true) : ThreadStep s s.gone

end Cxlmc
