import Cxlmc.Model.Interface
import Mathlib.Data.List.Chain

/-!
# The running checker (`Model::action`, `process_store_buffer`, `process_shutdown`)

One step runs the active thread up to the next point at which a claim can look at the state: the
head of `Model::action` up to its `yield`, then `execute`, then each `pop_from_store_buffer` of
`process_store_buffer`, then the return to the program. What comes from outside is the call the
program makes and the two random numbers of `process_store_buffer`; the decision points are the
choices of the decision tree.
-/

namespace Cxlmc

open Stateful

/-! ## One step -/

/-- What a step takes from outside; each step looks at the part it needs. -/
structure Input where
  call : Call := .schedYield
  /-- `rand()`. -/
  rand : Nat := 0
  /-- `random()`. -/
  random : Nat := 0
  deriving DecidableEq, Repr

/-- What the active thread did in a step. -/
inductive Event where
  /-- It passed the head of `Model::action`. -/
  | called (action : ModelAction)
  /-- `execute` came back with a value; for a read, with the slots it was resolved to. -/
  | executed (action : ModelAction) (value : Nat) (rf : Slots)
  /-- It waits inside `execute`. -/
  | blocked (action : ModelAction)
  /-- It has finished. -/
  | finished (action : ModelAction)
  /-- `pop_from_store_buffer` of thread `mem`. -/
  | popped (mem : ThreadId)
  /-- It is back in the program, with the value of the action. -/
  | returned (value : Nat)
  /-- A call that makes no action. -/
  | noAction
  /-- Its process has exited. -/
  | exited
  deriving DecidableEq, Repr

/-- `Model::action`, up to and including its `yield`. -/
def actionHead (action : ModelAction) (yields : Bool) (ret : Ret) : M Unit := do
  let s ← state
  -- another process has crashed this one while the thread was in the program
  if s.isCrashed s.processId then do
    update Model.processCrash
    stop .exit
  else do
    update fun s =>
      (s.setPending s.threadId (some action)).setContext s.threadId (.ready action ret)
    -- the second half of a read-modify-write keeps the token
    if yields && !action.isSecondPartOfRmw then schedulerYield else pure ()

/-- The loop of `process_store_buffer` over the threads: the first one whose process is live, from
`thread_to_pop` on. -/
def Model.threadToPop (s : Model) : (n : Nat) → (threadToPop : ThreadId) → ThreadId
  | 0, t => t
  | n + 1, t =>
      if s.isLive (s.threads t).processId then t else s.threadToPop n ((t + 1) % s.threadCount)

/-- `process_store_buffer()`, up to its popping loop. -/
def processStoreBuffer (i : Input) (value : Nat) (ret : Ret) : M Unit := do
  let s ← state
  let t := s.threadToPop s.threadCount (i.rand % s.threadCount)
  let size := (s.threadMemory t).storeBuffer.length
  -- an entry that is there before is never the last one popped
  let numToPop :=
    if size = 0 then 0 else if i.random % evictMax ≥ size then size - 1 else i.random % evictMax
  update fun s => s.setContext s.threadId (.popping t numToPop value ret)

/-- `Model::action` after `execute`. -/
def finishAction (action : ModelAction) (ret : Ret) (i : Input) : Flow → M Event
  | .suspended => return .blocked action
  | .finished => return .finished action
  | .done value rf => do
      update fun s => s.setPending s.threadId none
      processStoreBuffer i value ret
      return .executed action value rf

/-- The action as it is handed to `execute`: a `CLFLUSHOPT` gets the clock as its earliest effect. -/
def Model.stamp (s : Model) (action : ModelAction) : ModelAction :=
  if action.type = .cacheClflushopt then { action with earliestEffect := s.nextSequenceNum }
  else action

/-- `Model::action` after its `yield`. -/
def actionBody (cfg : Config) (action : ModelAction) (ret : Ret) (i : Input) : M Event := do
  if action.isRead || action.isWrite then ensureInitialValue action else pure ()
  let s ← state
  let flow ← execute cfg (s.stamp action) ret
  finishAction (s.stamp action) ret i flow

/-- What is left to do after `Model::action` has returned `value`. -/
def returnFrom (value : Nat) (ret : Ret) : M Event := do
  update fun s => s.setContext s.threadId .user
  match ret with
  | .toUser => return .returned value
  | .rawStore loc size val => do
      update fun s => { s with memory := Model.writeRaw s.memory loc size val }
      return .returned value
  | .rmw r => do
      let s ← state
      let (action, ret) := r.secondHalf s.threadId (toUint r.size value)
      actionHead action true ret
      return .called action
  | .lock m => do
      let s ← state
      let action := { tid := s.threadId, type := .atomicLock, location := m }
      actionHead action true .toUser
      return .called action

/-- The loop of `process_shutdown` after its `yield`. -/
def shutdownLoop : List ThreadId → M Unit
  | [] => pure ()
  | t :: ts => do
      let s ← state
      if (s.threads t).processId = s.processId then do
        -- the buffers of a thread that is done are drained as well
        if (s.threads t).isCompleted then pure () else update fun s => s.setState t .completed
        drain t
        shutdownLoop ts
      else shutdownLoop ts

/-- `user_done()` after the `yield` of `process_shutdown`, and the exit of the process. -/
def shutdownRest : M Event := do
  let s ← state
  shutdownLoop (List.range s.threadCount)
  update fun s => { s with completedProcs := insert s.processId s.completedProcs }
  stop .exit

/-- The code of a call, up to the next suspension. -/
def callApi (c : Call) : M Event := do
  let s ← state
  match c.request s.threadId with
  | some req => do
      require (req.needsCxl = true → s.memIsCxl req.action.location = true) .notCxl
      actionHead req.action req.yields req.ret
      return .called req.action
  | none =>
      match c with
      | .insertCrash => do
          insertCrash s.processId
          return .noAction
      | .noBacktrackBegin => do
          update fun s => { s with backtrack := Function.update s.backtrack s.processId false }
          return .noAction
      | .noBacktrackEnd => do
          update fun s => { s with backtrack := Function.update s.backtrack s.processId true }
          return .noAction
      | .userDone => do
          update fun s => s.setContext s.threadId .shutdown
          schedulerYield
          return .noAction
      | _ => stop .exit

/-- `finish_execution()`, the exit handler of the process of the active thread: its threads are
gone, and the token goes to another thread unless this was the last one. -/
def finishExecution : M Event := do
  update fun s =>
    { s with
      threads := fun t =>
        if (s.threads t).processId = s.processId then { s.threads t with context := .exited }
        else s.threads t }
  if ← finalize then return .exited else stop .executionOver

/-- The code of the active thread from where it is suspended. -/
def resume (cfg : Config) (i : Input) : M Event := do
  let s ← state
  match (s.threads s.threadId).context with
  | .user => callApi i.call
  | .ready action ret => actionBody cfg action ret i
  | .waiting action ret => do
      let flow ← resumeExecute action ret
      finishAction action ret i flow
  | .popping mem (n + 1) value ret => do
      update fun s => s.setContext s.threadId (.popping mem n value ret)
      popFromStoreBuffer mem
      return .popped mem
  | .popping _ 0 value ret => returnFrom value ret
  | .shutdown => shutdownRest
  | .exited => stop .assertFailed

/-- One step of the checker. -/
def step (cfg : Config) (i : Input) : M Event := (resume cfg i).onStop .exit finishExecution

/-! ## Runs -/

/-- A step as seen from outside: the active thread and what it did. -/
structure Label where
  tid : ThreadId
  event : Event
  deriving DecidableEq, Repr

/-- One step from `s` to `s'`. -/
def SysStep (cfg : Config) (s : Model) (l : Label) (s' : Model) : Prop :=
  l.tid = s.threadId ∧ ∃ i, (step cfg i).Ends s (.ok l.event) s'

/-- A run, with the state before each step and the label of the step. -/
inductive Run (cfg : Config) : Model → List (Model × Label) → Model → Prop where
  | nil (s : Model) : Run cfg s [] s
  | cons {s s₁ s' : Model} {l : Label} {tr : List (Model × Label)} :
      SysStep cfg s l s₁ → Run cfg s₁ tr s' → Run cfg s ((s, l) :: tr) s'

/-- The runs of the checker on `n` processes; `main` does not start it on none. -/
def IsRun (cfg : Config) (n cxlMapping : Nat) (memory : Nat → Nat)
    (mutexType : MutexId → MutexType) (tr : List (Model × Label)) (s : Model) : Prop :=
  1 ≤ n ∧ Run cfg (Model.init n cxlMapping memory mutexType) tr s

/-- The steps of a run that ends in `s'`, each with the state after it. -/
def stepsOf : List (Model × Label) → Model → List (Model × Label × Model)
  | [], _ => []
  | [(s, l)], s' => [(s, l, s')]
  | (s, l) :: (s₁, l₁) :: tr, s' => (s, l, s₁) :: stepsOf ((s₁, l₁) :: tr) s'

namespace Run

variable {cfg : Config} {s s' s'' : Model} {tr tr' : List (Model × Label)}

/-- The first step of a run. -/
theorem stepsOf_cons {l : Label} (s₀ : Model) (h : Run cfg s tr s') :
    stepsOf ((s₀, l) :: tr) s' = (s₀, l, s) :: stepsOf tr s' := by
  cases h <;> rfl

/-- A run goes on with another one. -/
theorem append (h : Run cfg s tr s') (h' : Run cfg s' tr' s'') : Run cfg s (tr ++ tr') s'' := by
  induction h with
  | nil _ => exact h'
  | cons hs _ ih => exact .cons hs (ih h')

theorem stepsOf_append (h : Run cfg s tr s') (h' : Run cfg s' tr' s'') :
    stepsOf (tr ++ tr') s'' = stepsOf tr s' ++ stepsOf tr' s'' := by
  induction h with
  | nil _ => rfl
  | @cons s s₁ s' l tr _ htail ih =>
      rw [List.cons_append, (htail.append h').stepsOf_cons, htail.stepsOf_cons, ih h', List.cons_append]

/-- What every step of the run preserves holds before each of its steps and in the last state. -/
theorem invariant_stepsOf {P : Model → Prop} (h : Run cfg s tr s')
    (hstep : ∀ s l s₁, (s, l, s₁) ∈ stepsOf tr s' → P s → SysStep cfg s l s₁ → P s₁) (hp : P s) :
    (∀ x ∈ stepsOf tr s', P x.1 ∧ SysStep cfg x.1 x.2.1 x.2.2) ∧ P s' := by
  induction h with
  | nil s => exact ⟨by simp [stepsOf], hp⟩
  | @cons s s₁ s' l tr hs htail ih =>
      rw [htail.stepsOf_cons] at hstep ⊢
      have hp₁ : P s₁ := hstep s l s₁ (by simp) hp hs
      obtain ⟨hall, hlast⟩ := ih (fun s l s₁ hm => hstep s l s₁ (by simp [hm])) hp₁
      refine ⟨?_, hlast⟩
      intro x hx
      rcases List.mem_cons.mp hx with rfl | hx
      · exact ⟨hp, hs⟩
      · exact hall x hx

/-- What is kept about the steps done so far and the state they lead to holds before each step and at
the end. -/
theorem history {P : List (Model × Label × Model) → Model → Prop} (h : Run cfg s tr s')
    (done : List (Model × Label × Model))
    (hstep : ∀ done, ∀ x ∈ stepsOf tr s', P done x.1 → P (done ++ [x]) x.2.2) (hp : P done s) :
    (∀ pre x post, stepsOf tr s' = pre ++ x :: post → P (done ++ pre) x.1) ∧
      P (done ++ stepsOf tr s') s' := by
  induction h generalizing done with
  | nil s =>
      refine ⟨?_, by simpa [stepsOf] using hp⟩
      intro pre x post heq
      simp [stepsOf] at heq
  | @cons s s₁ s' l tr hs htail ih =>
      rw [htail.stepsOf_cons] at hstep ⊢
      have hp₁ : P (done ++ [(s, l, s₁)]) s₁ := hstep done _ (by simp) hp
      obtain ⟨hall, hlast⟩ := ih _ (fun done x hx => hstep done x (by simp [hx])) hp₁
      refine ⟨?_, by simpa using hlast⟩
      intro pre x post heq
      cases pre with
      | nil =>
          simp only [List.nil_append, List.cons.injEq] at heq
          rw [← heq.1, List.append_nil]
          exact hp
      | cons y pre =>
          simp only [List.cons_append, List.cons.injEq] at heq
          rw [← heq.1]
          simpa using hall pre x post heq.2

/-- Each step begins in the state in which the one before it ended. -/
theorem chain (h : Run cfg s tr s') : (stepsOf tr s').IsChain fun x y => y.1 = x.2.2 := by
  induction h with
  | nil s => exact .nil
  | cons _ htail ih =>
      cases htail with
      | nil _ => exact .singleton _
      | cons _ htail' =>
          cases htail' with
          | nil _ => exact .cons_cons rfl ih
          | cons _ _ => exact .cons_cons rfl ih

/-- What holds after a step and is preserved by those between it and a later one holds before the
later one. -/
theorem between {P : Model → Prop} {pre mid post : List (Model × Label × Model)}
    {x y : Model × Label × Model} (h : Run cfg s tr s')
    (heq : stepsOf tr s' = pre ++ x :: (mid ++ y :: post)) (hx : P x.2.2)
    (hmid : ∀ z ∈ mid, P z.1 → P z.2.2) : P y.1 := by
  have hchain := h.chain
  rw [heq] at hchain
  replace hchain := hchain.right_of_append
  clear heq
  induction mid generalizing x with
  | nil =>
      obtain ⟨hnext, _⟩ := List.isChain_cons_cons.mp hchain
      rw [hnext]
      exact hx
  | cons z mid ih =>
      obtain ⟨hnext, hrest⟩ := List.isChain_cons_cons.mp hchain
      refine ih (hmid z List.mem_cons_self (hnext ▸ hx)) ?_ hrest
      exact fun w hw => hmid w (List.mem_cons_of_mem z hw)

/-- What holds before a step and is preserved by every step holds before and after each later one. -/
theorem kept {P : Model → Prop} {pre post : List (Model × Label × Model)} {y z : Model × Label × Model}
    (h : Run cfg s tr s') (heq : stepsOf tr s' = pre ++ y :: post) (hy : P y.1)
    (hstep : ∀ w ∈ stepsOf tr s', P w.1 → P w.2.2) (hz : z ∈ y :: post) : P z.1 ∧ P z.2.2 := by
  have hmem : ∀ w ∈ y :: post, w ∈ stepsOf tr s' := by
    intro w hw
    rw [heq]
    exact List.mem_append_right pre hw
  have hbefore : P z.1 := by
    rcases List.mem_cons.mp hz with rfl | hz
    · exact hy
    · obtain ⟨mid, rest, rfl⟩ := List.append_of_mem hz
      refine h.between heq (hstep y (hmem y List.mem_cons_self) hy) ?_
      exact fun w hw => hstep w (hmem w (by simp [hw]))
  exact ⟨hbefore, hstep z (hmem z hz) hbefore⟩

end Run

/-! ## Replaying a run -/

/-- Run the checker on the given inputs and answers: the steps and the last state. -/
def replay (cfg : Config) : Model → List (Input × List Nat) → Option (List (Model × Label) × Model)
  | s, [] => some ([], s)
  | s, (i, cs) :: rest =>
      match ((step cfg i) s).runWith cs with
      | some (.ok e, s') =>
          match replay cfg s' rest with
          | some (tr, s'') => some ((s, ⟨s.threadId, e⟩) :: tr, s'')
          | none => none
      | _ => none

/-- A replay is a run. -/
theorem run_of_replay {cfg : Config} {s s' : Model} {ins : List (Input × List Nat)}
    {tr : List (Model × Label)} (h : replay cfg s ins = some (tr, s')) : Run cfg s tr s' := by
  induction ins generalizing s tr with
  | nil =>
      simp only [replay, Option.some.injEq, Prod.mk.injEq] at h
      obtain ⟨rfl, rfl⟩ := h
      exact .nil s
  | cons ic rest ih =>
      obtain ⟨i, cs⟩ := ic
      simp only [replay] at h
      split at h
      · next e s₁ hrun =>
          split at h
          · next tr₁ s₂ hrest =>
              simp only [Option.some.injEq, Prod.mk.injEq] at h
              obtain ⟨rfl, rfl⟩ := h
              exact .cons ⟨rfl, i, ends_of_runWith cs hrun⟩ (ih hrest)
          · simp at h
      · simp at h

/-- A replay whose steps and last state pass a check gives a run that does. -/
theorem exists_run_of_replay (cfg : Config) (s : Model) (ins : List (Input × List Nat))
    (check : List (Model × Label) → Model → Bool)
    (h : (replay cfg s ins).any (fun x => check x.1 x.2) = true) :
    ∃ tr s', Run cfg s tr s' ∧ check tr s' = true := by
  cases hr : replay cfg s ins with
  | none => rw [hr] at h; cases h
  | some x =>
      rw [hr] at h
      exact ⟨x.1, x.2, run_of_replay hr, h⟩

end Cxlmc
