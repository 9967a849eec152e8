import Cxlmc.Flush.Basic

/-!
# The clock wraps around

A `CLFLUSH` takes a number from the clock when it leaves the store buffer, and is freed; nothing that the
checker keeps grows with it. So a program that flushes a line again and again takes any number of numbers
(`exists_run_of_ticks`), and after `2 ^ 32` of them the clock reads `0` again. The program here runs on one
process with one thread, where no decision point is reached.
-/

namespace Cxlmc

open Stateful

/-- A run on the checker as built in which no process crashes. -/
def Model.RunsTo (s s' : Model) : Prop := ∃ tr, Run .asBuilt s tr s' ∧ CrashFree tr s'

/-- A step that asks nothing. -/
theorem sysStep_of_done {s s' : Model} {i : Input} {e : Event} (h : step .asBuilt i s = .done (.ok e, s')) :
    SysStep .asBuilt s ⟨s.threadId, e⟩ s' := by
  refine ⟨rfl, i, ?_⟩
  show (_, s') ∈ (step .asBuilt i s).outcomes
  rw [h]
  rfl

namespace Model.RunsTo

variable {s s' s'' : Model}

theorem refl (s : Model) : s.RunsTo s := ⟨[], .nil s, fun _ hx => absurd hx List.not_mem_nil⟩

theorem trans (h : s.RunsTo s') (h' : s'.RunsTo s'') : s.RunsTo s'' := by
  obtain ⟨tr, hrun, hfree⟩ := h
  obtain ⟨tr', hrun', hfree'⟩ := h'
  refine ⟨tr ++ tr', hrun.append hrun', ?_⟩
  intro x hx
  rw [hrun.stepsOf_append hrun'] at hx
  exact (List.mem_append.mp hx).elim (hfree x) (hfree' x)

theorem single {l : Label} (h : SysStep .asBuilt s l s') (hcrash : s'.crashes = ∅) : s.RunsTo s' := by
  refine ⟨[(s, l)], .cons h (.nil s'), ?_⟩
  intro x hx
  rw [List.mem_singleton.mp hx]
  exact hcrash

theorem of_done {i : Input} {e : Event} (h : step .asBuilt i s = .done (.ok e, s'))
    (hcrash : s'.crashes = ∅) : s.RunsTo s' :=
  single (sysStep_of_done h) hcrash

variable {cxlMapping : Nat} {memory : Nat → Nat} {mutexType : MutexId → MutexType}

/-- A run from the start is one of the checker. -/
theorem isRun (h : (Model.init 1 cxlMapping memory mutexType).RunsTo s) :
    ∃ tr, IsRun .asBuilt 1 cxlMapping memory mutexType tr s ∧ CrashFree tr s := by
  obtain ⟨tr, hrun, hfree⟩ := h
  exact ⟨tr, ⟨Nat.le_refl 1, hrun⟩, hfree⟩

/-- One of its steps. -/
theorem isRun_through {l : Label} (h : (Model.init 1 cxlMapping memory mutexType).RunsTo s)
    (hstep : SysStep .asBuilt s l s') (hcrash : s'.crashes = ∅) (h' : s'.RunsTo s'') :
    ∃ tr, IsRun .asBuilt 1 cxlMapping memory mutexType tr s'' ∧ CrashFree tr s'' ∧
      (s, l, s') ∈ stepsOf tr s'' := by
  obtain ⟨tr, hrun, hfree⟩ := h
  obtain ⟨tr', hrun', hfree'⟩ := h'
  have hrest : Run .asBuilt s ((s, l) :: tr') s'' := .cons hstep hrun'
  have hsteps : stepsOf (tr ++ (s, l) :: tr') s'' = stepsOf tr s ++ (s, l, s') :: stepsOf tr' s'' := by
    rw [hrun.stepsOf_append hrest, hrun'.stepsOf_cons]
  refine ⟨tr ++ (s, l) :: tr', ⟨Nat.le_refl 1, hrun.append hrest⟩, ?_, ?_⟩
  · intro x hx
    rw [hsteps] at hx
    rcases List.mem_append.mp hx with hx | hx
    · exact hfree x hx
    · rcases List.mem_cons.mp hx with rfl | hx
      · exact hcrash
      · exact hfree' x hx
  · rw [hsteps]
    exact List.mem_append_right _ List.mem_cons_self

end Model.RunsTo

/-! ## One process with one thread -/

/-- The only thread of the only process, suspended at `context`. -/
def loneThread (pending : Option ModelAction) (context : Context) : Thread :=
  { Thread.new 0 with pending := pending, context := context }

/-- A state of a checker that runs one process with one thread, which has the store buffer `buffer`. The
store lists are `lists`; the clock, the intervals and what does not matter here are those of `r`. -/
def Model.alone (r : Model) (lists : Nat → List ModelAction) (threads : ThreadId → Thread)
    (memories : ThreadId → ThreadMemory) (notes : Nat → Option Nat) (pending : Option ModelAction)
    (context : Context) (buffer : List ModelAction) : Model :=
  { r with
    processCount := 1
    activeThread := 0
    threadCount := 1
    threads := Function.update threads 0 (loneThread pending context)
    objToWr := lists
    crashes := ∅
    completedProcs := ∅
    threadMemory := Function.update memories 0 ⟨buffer, [], 0, notes⟩
    cxlMapping := 4096 }

/-- A flush of the line 4096, by way of its second word. -/
def loneFlush : ModelAction := { tid := 0, type := .cacheClflush, location := 4104 }

def loneFence : ModelAction := { tid := 0, type := .cacheMfence, location := 4104 }

/-- A store to the first word of the line. -/
def loneStore : Request := .storeOf 0 .nonatomicStore 4096 .w64 1 .relaxed false

/-- The mapping after the store. -/
def Model.loneWritten (r : Model) : Model :=
  { r with memory := Model.writeRaw r.memory 4096 8 (toUint 8 1) }

/-- The clock and the intervals after the flush. -/
def Model.loneFlushed (r : Model) : Model :=
  { r with
    ticks := r.ticks + 1
    objToCl := (({ r with processCount := 1 } : Model).flushed r.nextSequenceNum loneFlush.line).objToCl }

/-- The store lists with a store at the end of its list. -/
def withStore (lists : Nat → List ModelAction) (a : ModelAction) : Nat → List ModelAction :=
  Function.update lists a.word (lists a.word ++ [a])

/-- The initial value of the word. -/
def Model.loneInitial (r : Model) : ModelAction :=
  { tid := 0, type := .atomicInit, location := loneStore.action.word,
    value := Model.readWord r.memory loneStore.action.word, order := .relaxed, size := 8 }

/-- The store lists when the word has only its initial value `a`. -/
def loneLists (a : ModelAction) : Nat → List ModelAction :=
  Function.update (fun _ => []) loneStore.action.word [a]

/-- Effects that neither flush nor read nor crash. -/
def Effect.Stores : Effect → Prop
  | .yield | .initial _ | .push _ | .popStore _ _ | .note _ _ | .write _ _ => True
  | _ => False

/-- A run without a crash, along effects that neither flush nor read. -/
def Model.StoresTo (s s' : Model) : Prop := s.RunsTo s' ∧ Goes (MemStep .asBuilt) Effect.Stores s s'

theorem Model.StoresTo.trans {s s' s'' : Model} (h : s.StoresTo s') (h' : s'.StoresTo s'') : s.StoresTo s'' :=
  ⟨h.1.trans h'.1, h.2.trans h'.2⟩

section

variable (r : Model) (lists : Nat → List ModelAction) (threads threads' : ThreadId → Thread)
  (memories : ThreadId → ThreadMemory) (notes : Nat → Option Nat) (buffer : List ModelAction) (v : Nat)

theorem Model.alone_control (pending pending' : Option ModelAction) (context context' : Context) :
    (r.alone lists threads memories notes pending context buffer).Control
      (r.alone lists threads' memories notes pending' context' buffer) := by
  refine ⟨rfl, rfl, rfl, Nat.le_refl _, ?_, id⟩
  intro t ht
  obtain rfl : t = 0 := Nat.lt_one_iff.mp ht
  rfl

/-- A step that only moves the thread. -/
theorem storesTo_of_moves {i : Input} {e : Event} {pending pending' : Option ModelAction}
    {context context' : Context}
    (h : step .asBuilt i (r.alone lists threads memories notes pending context buffer) =
      .done (.ok e, r.alone lists threads' memories notes pending' context' buffer)) :
    (r.alone lists threads memories notes pending context buffer).StoresTo
      (r.alone lists threads' memories notes pending' context' buffer) :=
  ⟨.of_done h rfl, .single (MemStep.yield (r.alone_control lists threads threads' memories notes buffer
    pending pending' context context')) trivial⟩

/-! ## Calls -/

theorem storesTo_callFlush : ∃ threads', (r.alone lists threads memories notes none .user buffer).StoresTo
    (r.alone lists threads' memories notes (some loneFlush) (.ready loneFlush .toUser) buffer) :=
  ⟨_, storesTo_of_moves r lists threads _ memories notes buffer (i := { call := .clflush 4104 }) rfl⟩

theorem storesTo_callFence : ∃ threads', (r.alone lists threads memories notes none .user buffer).StoresTo
    (r.alone lists threads' memories notes (some loneFence) (.ready loneFence .toUser) buffer) :=
  ⟨_, storesTo_of_moves r lists threads _ memories notes buffer (i := { call := .mfence 4104 }) rfl⟩

set_option maxRecDepth 5000 in
theorem storesTo_callStore : ∃ threads', (r.alone lists threads memories notes none .user buffer).StoresTo
    (r.alone lists threads' memories notes (some loneStore.action)
      (.ready loneStore.action loneStore.ret) buffer) :=
  ⟨_, storesTo_of_moves r lists threads _ memories notes buffer (i := { call := .store 4096 .w64 1 }) rfl⟩

/-! ## Back to the program -/

theorem storesTo_return : ∃ threads',
    (r.alone lists threads memories notes none (.popping 0 0 v .toUser) buffer).StoresTo
    (r.alone lists threads' memories notes none .user buffer) :=
  ⟨_, storesTo_of_moves r lists threads _ memories notes buffer (i := {}) rfl⟩

/-- After a store the value is written to the mapping. -/
theorem storesTo_write : ∃ threads',
    (r.alone lists threads memories notes none (.popping 0 0 v loneStore.ret) buffer).StoresTo
      (r.loneWritten.alone lists threads' memories notes none .user buffer) := by
  refine ⟨_, .of_done (i := {}) rfl rfl, ?_⟩
  refine (Goes.single (MemStep.write 4096 8 (toUint 8 1)) trivial).trans ?_
  exact Goes.single (MemStep.yield (r.loneWritten.alone_control lists threads _ memories notes buffer none none
    (.popping 0 0 v loneStore.ret) .user)) trivial

/-! ## Execution -/

/-- The flush goes into the store buffer. -/
theorem runsTo_flush : ∃ v threads' memories',
    (r.alone lists threads memories notes (some loneFlush) (.ready loneFlush .toUser) []).RunsTo
      (r.alone lists threads' memories' notes none (.popping 0 0 v .toUser) [loneFlush]) :=
  ⟨_, _, _, .of_done (i := {}) rfl rfl⟩

/-- The first store records the initial value of the word, and goes into the store buffer. -/
theorem storesTo_store : ∃ v threads' memories',
    (r.alone (fun _ => []) threads memories notes (some loneStore.action)
      (.ready loneStore.action loneStore.ret) []).StoresTo
      (r.alone (loneLists r.loneInitial) threads' memories' notes none (.popping 0 0 v loneStore.ret)
        [loneStore.action]) := by
  refine ⟨_, _, _, .of_done (i := {}) rfl rfl, ?_⟩
  refine (Goes.single (MemStep.initial loneStore.action.word rfl rfl) trivial).trans ?_
  refine (Goes.single (MemStep.push loneStore.action rfl rfl rfl rfl) trivial).trans ?_
  exact Goes.single (MemStep.yield (r.alone_control (loneLists r.loneInitial) _ _ _ notes _ (some loneStore.action)
    none (.ready loneStore.action loneStore.ret) _)) trivial

/-- A second store only goes into the store buffer. -/
theorem runsTo_storeAgain (a : ModelAction) : ∃ v threads' memories',
    (r.alone (loneLists a) threads memories notes (some loneStore.action)
      (.ready loneStore.action loneStore.ret) [loneStore.action]).RunsTo
      (r.alone (loneLists a) threads' memories' notes none (.popping 0 0 v loneStore.ret)
        [loneStore.action, loneStore.action]) :=
  ⟨_, _, _, .of_done (i := {}) rfl rfl⟩

/-- A fence whose drain asks nothing. -/
theorem step_fence {r' : Model} {lists' : Nat → List ModelAction} {memories' : ThreadId → ThreadMemory}
    {notes' : Nat → Option Nat}
    (hdrain : drain 0 (r.alone lists threads memories notes (some loneFence) (.ready loneFence .toUser) buffer) =
      .done (.ok (), r'.alone lists' threads memories' notes' (some loneFence) (.ready loneFence .toUser) [])) :
    ∃ v threads' e,
      step .asBuilt {} (r.alone lists threads memories notes (some loneFence) (.ready loneFence .toUser) buffer) =
        .done (.ok e, r'.alone lists' threads' memories' notes' none (.popping 0 0 v .toUser) []) := by
  show ∃ v threads' e, (((drain 0 >>= fun _ => pure (.done loneFence.value [])) >>=
    fun flow => finishAction loneFence .toUser {} flow).onStop .exit finishExecution)
    (r.alone lists threads memories notes (some loneFence) (.ready loneFence .toUser) buffer) = _
  unfold onStop
  rw [bind_of_done (bind_of_done hdrain)]
  exact ⟨_, _, _, rfl⟩

/-- A fence evicts a store. -/
theorem storesTo_fence : ∃ v threads' memories' notes',
    (r.alone lists threads memories notes (some loneFence) (.ready loneFence .toUser) [loneStore.action]).StoresTo
      (r.tick.alone (withStore lists { loneStore.action with tick := r.ticks }) threads' memories' notes' none
        (.popping 0 0 v .toUser) []) := by
  obtain ⟨memories', notes', hdrain, hgoes⟩ : ∃ memories' notes',
      drain 0 (r.alone lists threads memories notes (some loneFence) (.ready loneFence .toUser)
        [loneStore.action]) =
      .done (.ok (), r.tick.alone (withStore lists { loneStore.action with tick := r.ticks })
          threads memories' notes' (some loneFence) (.ready loneFence .toUser) []) ∧
      Goes (MemStep .asBuilt) Effect.Stores
        (r.alone lists threads memories notes (some loneFence) (.ready loneFence .toUser) [loneStore.action])
        (r.tick.alone (withStore lists { loneStore.action with tick := r.ticks })
          threads memories' notes' (some loneFence) (.ready loneFence .toUser) []) :=
    ⟨_, _, rfl, .single (MemStep.popStore 0 loneStore.action [] rfl rfl) trivial⟩
  obtain ⟨v, threads', e, hstep⟩ := step_fence r lists threads memories notes [loneStore.action] hdrain
  refine ⟨v, threads', memories', notes', .of_done hstep rfl, hgoes.trans ?_⟩
  exact .single (MemStep.yield (r.tick.alone_control _ threads threads' memories' notes' [] (some loneFence) none
    (.ready loneFence .toUser) (.popping 0 0 v .toUser))) trivial

/-- A fence evicts two stores. -/
theorem runsTo_fenceTwo : ∃ v threads' memories' notes',
    (r.alone lists threads memories notes (some loneFence) (.ready loneFence .toUser)
      [loneStore.action, loneStore.action]).RunsTo
      (r.tick.tick.alone (withStore (withStore lists { loneStore.action with tick := r.ticks })
        { loneStore.action with tick := r.ticks + 1 }) threads' memories' notes' none (.popping 0 0 v .toUser) []) :=
  ⟨_, _, _, _, .of_done (i := {}) rfl rfl⟩

/-! ## Flushes -/

/-- The flush takes a number, and nobody can be crashed. -/
theorem evictClflush_alone (hlist : lists loneFlush.word = []) (pending : Option ModelAction) (context : Context) :
    evictClflush loneFlush (r.alone lists threads memories notes pending context []) =
      .done (.ok { loneFlush with tick := r.ticks },
        r.loneFlushed.alone lists threads memories notes pending context []) := by
  rw [evictClflush_start rfl]
  have hnone : (r.alone lists threads memories notes pending context []).objToWr loneFlush.word = [] := hlist
  rw [hnone]
  rfl

/-- A fence evicts the flush: the intervals are moved, and the clock of the flush is noted. -/
theorem drain_flush (hlist : lists loneFlush.word = []) (pending : Option ModelAction) (context : Context) :
    ∃ memories' notes', drain 0 (r.alone lists threads memories notes pending context [loneFlush]) =
      .done (.ok (), r.loneFlushed.alone lists threads memories' notes' pending context []) ∧
      Goes (MemStep .asBuilt) Effect.Stores
        (((r.alone lists threads memories notes pending context [loneFlush]).popped 0 []).tick.flushed
          r.nextSequenceNum loneFlush.line)
        (r.loneFlushed.alone lists threads memories' notes' pending context []) := by
  let popped := Function.update memories 0 ⟨[loneFlush], [], 0, notes⟩
  have hevict := evictClflush_alone r lists threads popped notes hlist pending context
  have hpop : ∃ memories' notes',
      popFromStoreBuffer 0 (r.alone lists threads memories notes pending context [loneFlush]) =
        .done (.ok (), r.loneFlushed.alone lists threads memories' notes' pending context []) ∧
      Goes (MemStep .asBuilt) Effect.Stores
        (((r.alone lists threads memories notes pending context [loneFlush]).popped 0 []).tick.flushed
          r.nextSequenceNum loneFlush.line)
        (r.loneFlushed.alone lists threads memories' notes' pending context []) := by
    show ∃ memories' notes', (evictClflush loneFlush >>= noteWrClf 0)
      (r.alone lists threads popped notes pending context []) = _ ∧ _
    rw [bind_of_done hevict]
    exact ⟨_, _, rfl, .single (MemStep.note 0 { loneFlush with tick := r.ticks } rfl) trivial⟩
  obtain ⟨memories', notes', hpop, hgoes⟩ := hpop
  refine ⟨memories', notes', ?_, hgoes⟩
  show ((popFromStoreBuffer 0 >>= fun _ => emptyStoreLoop 0 0) >>= fun _ => emptyFlushBuffer 0)
    (r.alone lists threads memories notes pending context [loneFlush]) = _
  rw [bind_of_done ((bind_of_done hpop).trans rfl)]
  rfl

/-- The flush, up to the fence behind it. -/
theorem runsTo_flushThenFence : ∃ threads' memories', (r.alone lists threads memories notes none .user []).RunsTo
    (r.alone lists threads' memories' notes (some loneFence) (.ready loneFence .toUser) [loneFlush]) := by
  obtain ⟨threads₁, h₁⟩ := storesTo_callFlush r lists threads memories notes []
  obtain ⟨v, threads₂, memories₂, h₂⟩ := runsTo_flush r lists threads₁ memories notes
  obtain ⟨threads₃, h₃⟩ := storesTo_return r lists threads₂ memories₂ notes [loneFlush] v
  obtain ⟨threads₄, h₄⟩ := storesTo_callFence r lists threads₃ memories₂ notes [loneFlush]
  exact ⟨threads₄, memories₂, (h₁.1.trans h₂).trans (h₃.1.trans h₄.1)⟩

/-- The flush and the fence take one number. -/
theorem runsTo_flushed (hlist : lists loneFlush.word = []) : ∃ threads' memories' notes',
    (r.alone lists threads memories notes none .user []).RunsTo
      (r.loneFlushed.alone lists threads' memories' notes' none .user []) := by
  obtain ⟨threads₁, memories₁, h₁⟩ := runsTo_flushThenFence r lists threads memories notes
  obtain ⟨memories₂, notes₂, hdrain, _⟩ := drain_flush r lists threads₁ memories₁ notes hlist (some loneFence)
    (.ready loneFence .toUser)
  obtain ⟨v, threads₂, e, hstep⟩ := step_fence r lists threads₁ memories₁ notes [loneFlush] hdrain
  obtain ⟨threads₃, h₃⟩ := storesTo_return r.loneFlushed lists threads₂ memories₂ notes₂ [] v
  exact ⟨threads₃, memories₂, notes₂, (h₁.trans (.of_done hstep rfl)).trans h₃.1⟩

/-- Any number of flushes. -/
theorem runsTo_flushes (hlist : lists loneFlush.word = []) (k : Nat) : ∃ r' threads' memories' notes',
    (r.alone lists threads memories notes none .user []).RunsTo
      (Model.alone r' lists threads' memories' notes' none .user []) ∧ r'.ticks = r.ticks + k := by
  induction k with
  | zero => exact ⟨r, threads, memories, notes, .refl _, rfl⟩
  | succ k ih =>
      obtain ⟨r₁, threads₁, memories₁, notes₁, h₁, hticks⟩ := ih
      obtain ⟨threads₂, memories₂, notes₂, h₂⟩ := runsTo_flushed r₁ lists threads₁ memories₁ notes₁ hlist
      refine ⟨r₁.loneFlushed, threads₂, memories₂, notes₂, h₁.trans h₂, ?_⟩
      show r₁.ticks + 1 = _
      rw [hticks, Nat.add_assoc]

end

/-! ## Runs -/

/-- The start of the checker with one process. -/
def loneInit : Model := Model.init 1 4096 (fun _ => 0) (fun _ => .default)

theorem loneInit_eq :
    loneInit = loneInit.alone (fun _ => []) Thread.new (fun _ => .new) (fun _ => none) none .user [] := by
  have hthreads : Function.update Thread.new 0 (loneThread none .user) = Thread.new :=
    Function.update_eq_self 0 Thread.new
  have hmemory : Function.update (fun _ : ThreadId => ThreadMemory.new) 0 ⟨[], [], 0, fun _ => none⟩ =
      fun _ => ThreadMemory.new :=
    Function.update_eq_self 0 fun _ : ThreadId => ThreadMemory.new
  rw [Model.alone, hthreads, hmemory]
  rfl

/-- After any number of flushes the only thread is back in the program. -/
theorem exists_flushes (k : Nat) : ∃ r threads memories notes, loneInit.RunsTo
    (Model.alone r (fun _ => []) threads memories notes none .user []) ∧ r.ticks = k := by
  obtain ⟨r, threads, memories, notes, h, hticks⟩ := runsTo_flushes loneInit (fun _ => []) Thread.new
    (fun _ => .new) (fun _ => none) rfl k
  rw [← loneInit_eq] at h
  refine ⟨r, threads, memories, notes, h, ?_⟩
  rw [hticks]
  exact Nat.zero_add k

/-- A run can take any number of numbers from the clock. -/
theorem exists_run_of_ticks (k : Nat) : ∃ tr s,
    IsRun .asBuilt 1 4096 (fun _ => 0) (fun _ => .default) tr s ∧ CrashFree tr s ∧ s.ticks = k := by
  obtain ⟨r, threads, memories, notes, h, hticks⟩ := exists_flushes k
  obtain ⟨tr, hrun, hfree⟩ := Model.RunsTo.isRun h
  exact ⟨tr, _, hrun, hfree, hticks⟩

/-- The word after a store. -/
theorem withStore_lone (lists : Nat → List ModelAction) (tick : Nat) :
    withStore lists { loneStore.action with tick := tick } 4096 =
      lists 4096 ++ [{ loneStore.action with tick := tick }] := by
  have hword : ({ loneStore.action with tick := tick } : ModelAction).word = 4096 := by
    show alignAddress 4096 = 4096
    decide
  rw [withStore, hword, Function.update_self]

theorem loneLists_lone (a : ModelAction) : loneLists a 4096 = [a] := by
  have hword : loneStore.action.word = 4096 := by decide
  rw [loneLists, hword, Function.update_self]

/-- A store that follows the flushes, up to the return to the program. -/
theorem storesTo_stored (r : Model) (threads : ThreadId → Thread) (memories : ThreadId → ThreadMemory)
    (notes : Nat → Option Nat) : ∃ threads' memories',
    (r.alone (fun _ => []) threads memories notes none .user []).StoresTo
      (r.loneWritten.alone (loneLists r.loneInitial) threads' memories' notes none .user [loneStore.action]) := by
  obtain ⟨threads₁, h₁⟩ := storesTo_callStore r (fun _ => []) threads memories notes []
  obtain ⟨v, threads₂, memories₂, h₂⟩ := storesTo_store r threads₁ memories notes
  obtain ⟨threads₃, h₃⟩ := storesTo_write r (loneLists r.loneInitial) threads₂ memories₂ notes [loneStore.action] v
  exact ⟨threads₃, memories₂, (h₁.trans h₂).trans h₃⟩

/-- A run in which two stores take the numbers after `k` others. -/
theorem exists_run_twoStores (k : Nat) : ∃ tr s,
    IsRun .asBuilt 1 4096 (fun _ => 0) (fun _ => .default) tr s ∧ CrashFree tr s ∧
    s.storesOf 4096 = [{ loneStore.action with tick := k }, { loneStore.action with tick := k + 1 }] := by
  obtain ⟨r, threads, memories, notes, h, hticks⟩ := exists_flushes k
  obtain ⟨threads₁, memories₁, h₁⟩ := storesTo_stored r threads memories notes
  obtain ⟨threads₂, h₂⟩ := storesTo_callStore r.loneWritten (loneLists r.loneInitial) threads₁ memories₁ notes
    [loneStore.action]
  obtain ⟨v₃, threads₃, memories₃, h₃⟩ := runsTo_storeAgain r.loneWritten threads₂ memories₁ notes r.loneInitial
  obtain ⟨threads₄, h₄⟩ := storesTo_write r.loneWritten (loneLists r.loneInitial) threads₃ memories₃ notes
    [loneStore.action, loneStore.action] v₃
  obtain ⟨threads₅, h₅⟩ := storesTo_callFence r.loneWritten.loneWritten (loneLists r.loneInitial) threads₄ memories₃
    notes [loneStore.action, loneStore.action]
  obtain ⟨v₆, threads₆, memories₆, notes₆, h₆⟩ := runsTo_fenceTwo r.loneWritten.loneWritten
    (loneLists r.loneInitial) threads₅ memories₃ notes
  have hstored := (h.trans h₁.1).trans ((h₂.1.trans h₃).trans ((h₄.1.trans h₅.1).trans h₆))
  obtain ⟨tr, hrun, hfree⟩ := Model.RunsTo.isRun hstored
  refine ⟨tr, _, hrun, hfree, ?_⟩
  show evictedStores (withStore (withStore (loneLists r.loneInitial) { loneStore.action with tick := r.ticks })
    { loneStore.action with tick := r.ticks + 1 } 4096) = _
  rw [withStore_lone, withStore_lone, loneLists_lone, hticks]
  rfl

/-- A flush moves `begin` of its line to the clock, and no `begin` back. -/
theorem Model.le_begin_loneFlushed (r : Model) :
    r.nextSequenceNum ≤ (r.loneFlushed.objToCl 0 loneFlush.line).getBegin ∧
      (r.objToCl 0 loneFlush.line).getBegin ≤ (r.loneFlushed.objToCl 0 loneFlush.line).getBegin := by
  show r.nextSequenceNum ≤ (if _ then _ else _ : Cacheline).getBegin ∧ _ ≤ (if _ then _ else _ : Cacheline).getBegin
  split
  · next h => exact ⟨Nat.le_refl _, Nat.le_of_lt h.2.2⟩
  · next h =>
      refine ⟨Nat.le_of_not_lt fun hlt => h ⟨rfl, ?_, hlt⟩, Nat.le_refl _⟩
      exact Nat.one_pos

/-- A run in which a flush takes the number after `k + 1` others, and then a store is evicted. The flush before
that one has moved `begin` of the line to the clock `k` or later. -/
theorem exists_run_flushThenStore (k : Nat) : ∃ tr s x s₁,
    IsRun .asBuilt 1 4096 (fun _ => 0) (fun _ => .default) tr s ∧ CrashFree tr s ∧ x ∈ stepsOf tr s ∧
    x.1.storesOf 4096 = [] ∧ MemStep .asBuilt x.1 (.popClflush 0 loneFlush) s₁ ∧
    Goes (MemStep .asBuilt) Effect.Stores s₁ s ∧ s.crashes = ∅ ∧ (s.threads 0).processId = 0 ∧
    s.storesOf 4096 = [{ loneStore.action with tick := k + 2 }] ∧
    modelclock k ≤ (s.objToCl 0 loneFlush.line).getBegin := by
  obtain ⟨r₀, threads₀, memories₀, notes₀, h₀, hticks⟩ := exists_flushes k
  obtain ⟨threads, memories, notes, h⟩ := runsTo_flushed r₀ (fun _ => []) threads₀ memories₀ notes₀ rfl
  let r := r₀.loneFlushed
  obtain ⟨threads₁, memories₁, h₁⟩ := runsTo_flushThenFence r (fun _ => []) threads memories notes
  obtain ⟨memories₂, notes₂, hdrain, hgoes⟩ := drain_flush r (fun _ => []) threads₁ memories₁ notes rfl
    (some loneFence) (.ready loneFence .toUser)
  obtain ⟨v, threads₂, e, hstep⟩ := step_fence r (fun _ => []) threads₁ memories₁ notes [loneFlush] hdrain
  -- after the flush: back to the program, a store, and a fence
  obtain ⟨threads₃, h₃⟩ := storesTo_return r.loneFlushed (fun _ => []) threads₂ memories₂ notes₂ [] v
  obtain ⟨threads₄, memories₄, h₄⟩ := storesTo_stored r.loneFlushed threads₃ memories₂ notes₂
  let r' := r.loneFlushed.loneWritten
  let lists := loneLists r.loneFlushed.loneInitial
  obtain ⟨threads₅, h₅⟩ := storesTo_callFence r' lists threads₄ memories₄ notes₂ [loneStore.action]
  obtain ⟨v₆, threads₆, memories₆, notes₆, h₆⟩ := storesTo_fence r' lists threads₅ memories₄ notes₂
  have hafter := (h₃.trans h₄).trans (h₅.trans h₆)
  obtain ⟨tr, hrun, hfree, hmem⟩ :=
    Model.RunsTo.isRun_through ((h₀.trans h).trans h₁) (sysStep_of_done hstep) rfl hafter.1
  have hmoved : Goes (MemStep .asBuilt) Effect.Stores _ _ := .single (MemStep.yield
    (r.loneFlushed.alone_control (fun _ => []) threads₁ threads₂ memories₂ notes₂ [] (some loneFence) none
      (.ready loneFence .toUser) (.popping 0 0 v .toUser))) trivial
  refine ⟨tr, _, _, _, hrun, hfree, hmem, rfl, .popClflush 0 loneFlush [] rfl rfl,
    hgoes.trans (hmoved.trans hafter.2), rfl, rfl, ?_, ?_⟩
  · show evictedStores (withStore (loneLists r.loneFlushed.loneInitial)
      { loneStore.action with tick := r₀.ticks + 2 } 4096) = _
    rw [withStore_lone, loneLists_lone, hticks]
    rfl
  · have hfirst : modelclock k ≤ (r.objToCl 0 loneFlush.line).getBegin := by
      rw [← hticks]
      exact r₀.le_begin_loneFlushed.1
    exact Nat.le_trans hfirst r.le_begin_loneFlushed.2

end Cxlmc
