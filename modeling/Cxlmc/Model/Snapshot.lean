import Cxlmc.Model.System
import Cxlmc.NodeStack.LoadNodestack

/-!
# The checker as a whole (`snapshot.cc`, `init.cc`, `finish_execution`)

`take_snapshot` forks one process for each execution; that process maps the CXL memory and forks the
processes of the program. The last of them to exit prepares the next execution in `finish_execution`.
What the executions share is in the shared mapping: the search, and the state of the checker, which
`reset_execution_data` and `Scheduler::reset` clear.

The decision points of an execution are answered by the node stack, so an execution is a walk through
the decision tree of the program.
-/

namespace Cxlmc

open Stateful

/-! ## One execution -/

/-- A checked program, with the numbers that `rand()` and `random()` give: what comes from outside in
the next step, from the steps so far and from the state, which the program can ask
(`is_process_crashed`, `get_live_process_count`, its own memory). The program is deterministic, and
`srand` gets the same seed in every execution. -/
abbrev Program := List Label → Model → Input

/-- The next step. A process that exits because of poison runs its exit handler as well, and an access
outside CXL memory is made without the checker. -/
def turn (cfg : Config) (i : Input) : M Event :=
  ((step cfg i).onStop .poison finishExecution).onStop .notCxl (pure .noAction)

/-- The steps of an execution, how its last step stopped, and the state then. -/
structure Report where
  trace : List Label
  stop : Stop
  state : Model

/-- The execution of a program from the steps `trace` on; `none` where it takes more than `steps`. -/
def execution (cfg : Config) (prog : Program) :
    (steps : Nat) → (trace : List Label) → Model → Decision (Option Report)
  | 0, _, _ => .done none
  | steps + 1, trace, s =>
      (turn cfg (prog trace s) s).bind fun
        | (.ok e, s') => execution cfg prog steps (trace ++ [⟨s.threadId, e⟩]) s'
        | (.error e, s') => .done (some ⟨trace, e, s'⟩)

/-- What becomes of the processes at the end of an execution. -/
inductive Ending where
  /-- All of them have exited. -/
  | ended
  /-- One was killed by a signal: `abort()`, also that of a failed `assert`. -/
  | killed
  /-- One is left without a thread that it could run: it waits for ever, or takes the token of the next
  execution. -/
  | stuck
  deriving DecidableEq, Repr

namespace Report

/-- The process has exited, at the latest in the last step. -/
def exited (r : Report) (p : ProcessId) : Bool :=
  p = r.state.processId ||
    r.trace.any fun l => l.event = .exited && (r.state.threads l.tid).processId = p

/-- Every process has exited. -/
def allExited (r : Report) : Bool := (List.range r.state.processCount).all r.exited

/-- What becomes of the processes. -/
def ending (r : Report) : Ending :=
  match r.stop with
  | .executionOver => if r.allExited then .ended else .stuck
  | .assertFailed => .killed
  | .deadlock =>
      -- a thread that locks its own mutex again calls `abort()`
      if (r.state.threads r.state.threadId).state = .running then .killed
      -- otherwise `exit(EXIT_FAILURE)`, and the exit handler looks for blocked threads again
      else if r.state.otherThreads.any fun t => (r.state.threads t).state = .blocked then .stuck
      else if r.allExited then .ended
      else .stuck
  -- no execution ends so: `step` and `turn` deal with these
  | .exit | .poison | .notCxl => .stuck

end Report

/-! ## From one execution to the next -/

/-- `reset_execution_data()`, with `crash_points = 0`. The mutexes are deleted; one that is used again
is created with its type. -/
def Model.resetExecutionData (s : Model) (mutexType : MutexId → MutexType) : Model :=
  { s with
    ticks := 0
    objToWr := fun _ => []
    objToCl := fun _ _ => Cacheline.new
    crashes := ∅
    completedProcs := ∅
    mutexes := fun m => ⟨mutexType m, none, 0⟩
    crashPoints := 0 }

/-- `Scheduler::reset()`: a new main thread for each process. -/
def Model.resetScheduler (s : Model) : Model :=
  { s with
    threads := Thread.new
    threadMemory := fun _ => ThreadMemory.new
    threadCount := s.processCount
    activeThread := 0 }

/-- The fork of an execution: the CXL memory is mapped anew, and the globals of the processes have their
initial values. -/
def Model.spawn (s : Model) (cxlMapping : Nat) : Model :=
  { s with
    cxlMapping := cxlMapping
    memory := fun _ => 0
    backtrack := fun _ => true }

/-- `MAX_EXECUTION`. -/
def maxExecution : Int32 := 50000

/-- The members of `Model` about the search, with the state that the executions share. `nsSave` is what
the file of `save_execution` holds, `none` without one. -/
structure Checker extends Search where
  rollbackAgain : Bool
  executionNumSave : Int32
  nsSave : Option (List UInt8)
  model : Model

/-- What is the same for every execution of a check: the build, the program, where the CXL memory is
mapped and the types of the mutexes. `steps` bounds the length of an execution. -/
structure Setting where
  cfg : Config
  prog : Program
  cxlMapping : Nat
  mutexType : MutexId → MutexType
  steps : Nat

/-- The decision tree of an execution. -/
def Setting.tree (t : Setting) (s : Model) : Decision (Option Report) :=
  execution t.cfg t.prog t.steps [] (s.spawn t.cxlMapping)

/-- The decision points of a tree, answered by the node stack: the answers, the result and the stack;
`none` where the assertion of `explore_next` fails. -/
def NodeStack.answer {α : Type} : Decision α → NodeStack → Option (List Nat × α × NodeStack)
  | .done a, ns => some ([], a, ns)
  | .choose n k, ns =>
      match ns.decisionPoint n with
      | none => none
      | some (c, ns) =>
          match NodeStack.answer (k c) ns with
          | none => none
          | some (cs, a, ns) => some (c :: cs, a, ns)

namespace Checker

/-- `Model(scheduler)`, with what `main` does for its options: `-n processes`, `-e execution_num_save`
with `-s`, and `-l`. A file is `none` without the option; that of `-l` may not be there. -/
def start (processes : Nat) (executionNumSave : Int32) (nsSave : Option (List UInt8))
    (nsLoad : Option (Option (List UInt8))) (mutexType : MutexId → MutexType) : Checker where
  toSearch :=
    match nsLoad with
    | none => Search.init
    | some file => Search.init.loadNodestack file
  rollbackAgain := true
  executionNumSave := if nsSave.isSome then executionNumSave else 0
  nsSave := nsSave
  model := Model.init processes 0 (fun _ => 0) mutexType

/-- `finish_execution()` of the last process. -/
def finishExecution (c : Checker) (mutexType : MutexId → MutexType) : Checker :=
  let num := c.executionNum
  let c := { c with model := (c.model.resetExecutionData mutexType).resetScheduler }
  let c :=
    { c with
      rollbackAgain :=
        c.rollbackAgain && decide (num + 1 ≤ maxExecution) && c.nodestack.hasAnotherExecution }
  let c :=
    if c.rollbackAgain then
      let c := { c with nodestack := c.nodestack.resetExecution }
      if c.executionNumSave = num + 1 then
        { c with nsSave := c.nsSave.map (c.nodestack.saveState (num + 1).toUInt32) }
      else c
    else c
  { c with executionNum := num + 1 }

/-- `terminate_early()`, before it exits with a failure. -/
def terminateEarly (c : Checker) (mutexType : MutexId → MutexType) : Checker :=
  { c with rollbackAgain := false }.finishExecution mutexType

/-- `wait_for_next_execution(num)`; `none` where it waits for ever, since all processes have exited. -/
def waitForNextExecution (c : Checker) (num : Int32) : Option Bool :=
  if num > maxExecution ∨ c.rollbackAgain = false then some false
  else if c.executionNum < num then none
  else some c.rollbackAgain

end Checker

/-- How a check comes to its end. -/
inductive Verdict where
  /-- `main` returns `0`. -/
  | success
  /-- `_Exit(EXIT_FAILURE)`. -/
  | failure
  /-- It does not come to an end: a process is left, or the next execution is waited for. -/
  | stuck
  /-- The bounds of this model. -/
  | outOfFuel
  deriving DecidableEq, Repr

/-- The loop of `take_snapshot`, at most `execs` executions long: the executions with their answers,
how the check ends, and the checker then. `executionNum` is the variable of the loop. -/
def takeSnapshot (t : Setting) :
    (execs : Nat) → (executionNum : Int32) → Checker → List (List Nat × Report) × Verdict × Checker
  | 0, _, c => ([], .outOfFuel, c)
  | execs + 1, executionNum, c =>
      match c.nodestack.answer (t.tree c.model) with
      -- the assertion of `explore_next` fails in a process of the execution
      | none => ([], .failure, c.terminateEarly t.mutexType)
      | some (_, none, _) => ([], .outOfFuel, c)
      | some (leaf, some r, ns) =>
          let c := { c with nodestack := ns, model := r.state }
          match r.ending with
          | .killed => ([(leaf, r)], .failure, c.terminateEarly t.mutexType)
          | .stuck => ([(leaf, r)], .stuck, c)
          | .ended =>
              let c := c.finishExecution t.mutexType
              match c.waitForNextExecution (executionNum + 1) with
              | none => ([(leaf, r)], .stuck, c)
              | some false => ([(leaf, r)], .success, c)
              | some true =>
                  let (log, verdict, c) := takeSnapshot t execs (executionNum + 1) c
                  ((leaf, r) :: log, verdict, c)

/-- `main` from `take_snapshot` on. -/
def Checker.check (t : Setting) (execs : Nat) (c : Checker) :
    List (List Nat × Report) × Verdict × Checker :=
  takeSnapshot t execs c.executionNum c

end Cxlmc
