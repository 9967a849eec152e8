import Cxlmc.Threads.Moves
import Cxlmc.System.Run

/-!
# Threads and mutexes along a run

A run is a sequence of steps of which each is a path of moves, and the thread that has the token can
run. An invariant of threads and mutexes is shown for one move (`Moves.invariant`) and holds in every
state of a run (`IsRun.threads`).
-/

namespace Cxlmc

open Stateful

/-! ## Which threads there are -/

/-- Every process has a thread, every thread a process, and there are no other threads. -/
structure Model.Peopled (s : Model) : Prop where
  active : s.activeThread < s.threadCount
  mains : s.processCount ≤ s.threadCount
  process : ∀ t, t < s.threadCount → (s.threads t).processId < s.processCount
  fresh : ∀ t, s.threadCount ≤ t → s.threads t = Thread.new t

section

variable {s s' : Model} {t : ThreadId}

/-- A move that changes threads that exist and keeps their processes. -/
theorem Model.Peopled.of_threads (h : s.Peopled) (hcount : s'.threadCount = s.threadCount)
    (hprocesses : s'.processCount = s.processCount) (hactive : s'.activeThread = s.activeThread)
    (hthreads : ∀ t, (s'.threads t).processId = (s.threads t).processId ∧
      (s.threadCount ≤ t → s'.threads t = s.threads t)) : s'.Peopled := by
  obtain ⟨hlt, hmains, hprocess, hfresh⟩ := h
  constructor
  · rw [hactive, hcount]
    exact hlt
  · rw [hprocesses, hcount]
    exact hmains
  · intro t ht
    rw [(hthreads t).1, hprocesses]
    exact hprocess t (hcount ▸ ht)
  · intro t ht
    rw [hcount] at ht
    rw [(hthreads t).2 ht]
    exact hfresh t ht

theorem Model.Peopled.setThread (h : s.Peopled) (ht : t < s.threadCount) {f : Thread → Thread}
    (hf : (f (s.threads t)).processId = (s.threads t).processId) : (s.setThread t f).Peopled := by
  refine h.of_threads rfl rfl rfl fun u => ?_
  grind [Model.setThread_threads]

theorem Model.Peopled.wakeAll (h : s.Peopled) (v : WaitTarget → Bool) :
    (s.wakeAllThreadsWaitingOn v).Peopled := by
  refine h.of_threads rfl rfl rfl fun u => ?_
  grind [Model.wakeAllThreadsWaitingOn_threads]

/-- Another part of the state changes. -/
theorem Model.Peopled.of_scheduler (h : s.Peopled) (hs : s'.toScheduler = s.toScheduler) :
    s'.Peopled := by
  refine h.of_threads ?_ ?_ ?_ fun t => ⟨?_, fun _ => ?_⟩ <;> rw [hs]

theorem Model.Peopled.crashThread (h : s.Peopled) (ht : t < s.threadCount) (pid : ProcessId) :
    (s.crashThread pid t).Peopled := by
  unfold Model.crashThread
  split
  · refine Model.Peopled.wakeAll ?_ _
    exact h.setThread ht rfl
  · exact h

theorem Model.Peopled.processCrash (h : s.Peopled) : s.processCrash.Peopled :=
  Model.processCrash_induction h fun _ _ hi hcount hx => hx.crashThread (hcount ▸ hi) _

theorem Model.Peopled.terminated (h : s.Peopled) {ts : List ThreadId}
    (hts : ∀ t ∈ ts, t < s.threadCount) : (s.terminated ts).Peopled := by
  refine h.of_threads rfl rfl rfl fun u => ?_
  have hu := hts u
  grind [Model.terminated_threads]

theorem Model.Peopled.dies (h : s.Peopled) (hdies : s.Dies s') : s'.Peopled := by
  rw [hdies.state]
  exact Model.Peopled.processCrash (h.of_scheduler rfl)

/-- The running process is one of the processes. -/
theorem Model.Peopled.processId_lt (h : s.Peopled) : s.processId < s.processCount :=
  h.process _ h.active

/-- Which thread the process of a thread tells apart from those to come. -/
theorem Model.Peopled.lt_of_processId (h : s.Peopled)
    (ht : (s.threads t).processId = s.processId) : t < s.threadCount := by
  by_contra hle
  have hfresh := h.fresh t (Nat.le_of_not_lt hle)
  have hlt := h.processId_lt
  rw [← ht, hfresh] at hlt
  exact hle (Nat.lt_of_lt_of_le hlt h.mains)

theorem Model.Peopled.gone (h : s.Peopled) : s.gone.Peopled := by
  refine h.of_threads rfl rfl rfl fun u => ?_
  have hu : (s.threads u).processId = s.processId → u < s.threadCount := h.lt_of_processId
  grind [Model.gone_threads]

theorem Model.Peopled.passed (h : s.Peopled) (ht : t < s.threadCount) : (s.passed t).Peopled :=
  ⟨ht, h.mains, h.process, h.fresh⟩

theorem Model.Peopled.wakeThreadWaitingOn (h : s.Peopled) (v : WaitTarget) :
    (s.wakeThreadWaitingOn v).Peopled := by
  rcases s.wakeThreadWaitingOn_cases v with ⟨heq, _⟩ | ⟨t, ht, _, heq⟩ <;> rw [heq]
  · exact h
  · exact h.setThread (s.lt_of_mem_otherThreads t h.active ht) rfl

theorem Model.Peopled.newThread (h : s.Peopled) : s.newThread.Peopled := by
  constructor
  · exact Nat.lt_succ_of_lt h.active
  · exact Nat.le_succ_of_le h.mains
  · intro t ht
    rw [s.newThread_threads]
    split
    · exact h.processId_lt
    · next hne => exact h.process t (Nat.lt_of_le_of_ne (Nat.lt_succ_iff.mp ht) hne)
  · intro t ht
    rw [s.newThread_threads, if_neg (Nat.ne_of_gt ht)]
    exact h.fresh t (Nat.le_of_succ_le ht)

theorem Model.Peopled.released (h : s.Peopled) (m : MutexId) : (s.released m).Peopled := by
  have hself := h.active
  refine h.of_threads rfl rfl rfl fun u => ?_
  grind [Model.released_threads, Model.threadId]

theorem ThreadStep.peopled (h : ThreadStep s s') (hp : s.Peopled) : s'.Peopled := by
  have hself := hp.active
  cases h with
  | work h => exact hp.of_scheduler h.scheduler
  | place c _ _ => exact hp.setThread hself rfl
  | call a ret _ =>
      refine hp.of_threads rfl rfl rfl fun u => ?_
      grind [Model.called_threads, Model.threadId]
  | back c _ _ =>
      refine hp.of_threads rfl rfl rfl fun u => ?_
      grind [Model.backAt_threads, Model.threadId]
  | pass t _ ht => exact hp.passed ht
  | acquire m _ _ _ =>
      refine hp.of_threads rfl rfl rfl fun u => ?_
      grind [Model.acquired_threads, Model.threadId]
  | recount m count _ => exact hp.of_scheduler rfl
  | release m _ _ => exact hp.released m
  | create _ => exact hp.newThread
  | notifyOne c => exact hp.wakeThreadWaitingOn _
  | notifyAll c => exact hp.wakeAll _
  | wait a ret _ _ _ =>
      refine hp.of_threads rfl rfl rfl fun u => ?_
      grind [Model.waits_threads, Model.threadId]
  | finish v _ =>
      refine hp.of_threads rfl rfl rfl fun u => ?_
      grind [Model.finishes_threads, Model.threadId]
  | shutdown _ _ => exact (hp.terminated fun t ht => List.mem_range.mp ht).of_scheduler rfl
  | die _ h => exact hp.dies h
  | dieLate _ _ => exact hp.processCrash
  | dieInShutdown ts hts _ _ h => exact (hp.terminated hts).dies h
  | leave _ => exact hp.gone

theorem Model.Quits.peopled (h : s.Quits s') (hp : s.Peopled) : s'.Peopled := by
  obtain ⟨t, hnext, rfl⟩ | ⟨_, rfl⟩ := h.passes
  · exact hp.gone.passed (Model.nextRunning_spec hnext hp.active).2
  · exact hp.gone

/-! ## The action of a thread inside `Model::action` -/

/-- A thread that is past the head of `Model::action` has its action as `pending`. -/
def Model.Posted (s : Model) : Prop :=
  ∀ t a ret, s.contextOf t = .ready a ret ∨ s.contextOf t = .waiting a ret →
    (s.threads t).pending = some a

/-- The threads that are past the head were there before, with the same action. -/
theorem Model.Posted.of_threads (h : s.Posted)
    (hthreads : ∀ t, (s'.threads t).context = (s.threads t).context ∧
      (s'.threads t).pending = (s.threads t).pending ∨
      (s'.threads t).context.isBetween = true ∨ (s'.threads t).context = .exited) : s'.Posted := by
  intro t a ret hctx
  rw [Model.contextOf] at hctx
  rcases hthreads t with ⟨hc, hpending⟩ | hc | hc
  · rw [hpending]
    exact h t a ret (by rw [Model.contextOf, ← hc]; exact hctx)
  · rcases hctx with hctx | hctx <;> rw [hctx] at hc <;> cases hc
  · rcases hctx with hctx | hctx <;> rw [hctx] at hc <;> cases hc

theorem Model.Posted.wakeAll (h : s.Posted) (v : WaitTarget → Bool) :
    (s.wakeAllThreadsWaitingOn v).Posted := by
  refine h.of_threads fun u => .inl ?_
  grind [Model.wakeAllThreadsWaitingOn_threads]

theorem Model.Posted.setState (h : s.Posted) (t : ThreadId) (state : ThreadState) :
    (s.setState t state).Posted := by
  refine h.of_threads fun u => .inl ?_
  grind [Model.setState, Model.setThread_threads]

theorem Model.Posted.crashThread (h : s.Posted) (pid : ProcessId) (i : ThreadId) :
    (s.crashThread pid i).Posted := by
  unfold Model.crashThread
  split
  · exact (h.setState i .crashed).wakeAll _
  · exact h

theorem Model.Posted.dies (h : s.Posted) (hdies : s.Dies s') : s'.Posted := by
  rw [hdies.state]
  exact Model.processCrash_induction (s := s.crash s.processId) h
    fun x i _ _ hx => hx.crashThread _ i

theorem Model.Posted.terminated (h : s.Posted) (ts : List ThreadId) : (s.terminated ts).Posted := by
  refine h.of_threads fun u => .inl ?_
  grind [Model.terminated_threads]

theorem Model.Posted.gone (h : s.Posted) : s.gone.Posted := by
  refine h.of_threads fun u => ?_
  grind [Model.gone_threads]

theorem ThreadStep.posted (h : ThreadStep s s') (hs : s.Posted) : s'.Posted := by
  cases h with
  | work h =>
      refine hs.of_threads fun u => .inl ?_
      rw [h.threads]
      exact ⟨rfl, rfl⟩
  | place c _ hc =>
      refine hs.of_threads fun u => ?_
      grind [Model.setContext, Model.setThread_threads]
  | call a ret _ =>
      intro u b ret' hctx
      rw [Model.contextOf, s.called_threads] at hctx
      rw [s.called_threads]
      split
      · next hu => grind
      · next hu => grind [Model.Posted, Model.contextOf]
  | back c _ hc =>
      refine hs.of_threads fun u => ?_
      grind [Model.backAt_threads]
  | pass _ _ _ => exact hs
  | acquire m _ _ _ =>
      refine hs.of_threads fun u => .inl ?_
      grind [Model.acquired_threads]
  | recount _ _ _ => exact hs
  | release m _ _ =>
      refine hs.of_threads fun u => .inl ?_
      grind [Model.released_threads]
  | create _ =>
      refine hs.of_threads fun u => ?_
      rw [s.newThread_threads]
      split
      · exact .inr (.inl rfl)
      · exact .inl ⟨rfl, rfl⟩
  | notifyOne c =>
      rcases s.wakeThreadWaitingOn_cases (.cond c) with ⟨heq, _⟩ | ⟨t, _, _, heq⟩ <;> rw [heq]
      · exact hs
      · exact hs.setState t .running
  | notifyAll c => exact hs.wakeAll _
  | wait a ret _ hctx _ =>
      -- a thread that waits has posted its action at the call
      have hpending := hs s.threadId a ret hctx
      intro u b ret' hctx'
      rw [Model.contextOf, s.waits_threads] at hctx'
      rw [s.waits_threads]
      split
      · next hu => grind
      · next hu => grind [Model.Posted, Model.contextOf]
  | finish v _ =>
      refine hs.of_threads fun u => ?_
      grind [Model.finishes_threads]
  | shutdown _ _ => exact hs.terminated _
  | die _ h => exact hs.dies h
  | dieLate _ _ => exact Model.processCrash_induction hs fun x i _ _ hx => hx.crashThread _ i
  | dieInShutdown ts _ _ _ h => exact (hs.terminated ts).dies h
  | leave _ => exact hs.gone

theorem Model.Quits.posted (h : s.Quits s') (hs : s.Posted) : s'.Posted := by
  obtain ⟨t, _, rfl⟩ | ⟨_, rfl⟩ := h.passes
  · exact hs.gone
  · exact hs.gone

/-! ## Paths of moves -/

/-- What each move preserves holds after a path of moves. -/
theorem Moves.invariant {P : Model → Prop} (h : Moves s s')
    (hstep : ∀ {x y : Model}, x.Peopled → P x → ThreadStep x y → P y) (hp : s.Peopled) (hs : P s) :
    s'.Peopled ∧ P s' := by
  induction h with
  | refl => exact ⟨hp, hs⟩
  | tail _ hmove ih => exact ⟨hmove.peopled ih.1, hstep ih.1 ih.2 hmove⟩

theorem Moves.peopled (h : Moves s s') (hp : s.Peopled) : s'.Peopled :=
  (h.invariant (P := fun _ => True) (fun _ _ _ => trivial) hp trivial).1

/-- What each move preserves, and the `exit` of the program, holds after a step. -/
theorem ThreadCase.invariant {P : Model → Prop} {r : Except Stop Event} (h : ThreadCase s r s')
    (hstep : ∀ {x y : Model}, x.Peopled → P x → ThreadStep x y → P y)
    (hquit : s.Quits s' → P s → P s') (hrun : s.Runs) (hp : s.Peopled) (hs : P s) : P s' := by
  rcases h.moves hrun hp.active with h | h
  · exact (h.invariant hstep hp hs).2
  · exact hquit h hs

theorem ThreadCase.peopled {r : Except Stop Event} (h : ThreadCase s r s') (hrun : s.Runs)
    (hp : s.Peopled) : s'.Peopled :=
  h.invariant (fun hx _ hmove => hmove.peopled hx) (fun h hs => h.peopled hs) hrun hp hp

theorem ThreadCase.posted {r : Except Stop Event} (h : ThreadCase s r s') (hrun : s.Runs)
    (hp : s.Peopled) (hs : s.Posted) : s'.Posted :=
  h.invariant (fun _ hx hmove => hmove.posted hx) (fun h hs => h.posted hs) hrun hp hs

/-! ## The states of a run -/

/-- What holds of the threads and the stores in every state of a run. -/
structure Model.Underway (s : Model) : Prop where
  placed : s.Placed
  recorded : s.Recorded
  awake : s.Awake
  peopled : s.Peopled
  posted : s.Posted

variable {cfg : Config} {i : Input} {l : Label}

theorem Model.Recorded.attributed (h : s.Recorded) : s.Attributed := by
  constructor
  · exact fun w a ha => (h.listed w a ha).1
  · intro t a ha
    obtain ⟨htid, hlt, _⟩ := h.buffered t a ha
    rw [htid]
    exact hlt

theorem Model.underway_init {n cxlMapping : Nat} {memory : Nat → Nat}
    {mutexType : MutexId → MutexType} (hn : 1 ≤ n) :
    (Model.init n cxlMapping memory mutexType).Underway := by
  refine ⟨Model.placed_init hn, Model.recorded_init hn, fun _ => rfl, ?_, ?_⟩
  · exact ⟨hn, Nat.le_refl n, fun _ ht => ht, fun _ _ => rfl⟩
  · intro t a ret hctx
    rcases hctx with hctx | hctx <;> cases hctx

/-- What a step from a state of a run does, also where it ends in a `DEADLOCK`. -/
theorem Model.Underway.threadCase {r : Except Stop Event} (hcfg : cfg.memPoison = false)
    (hs : s.Underway) (h : (step cfg i).Ends s r s')
    (hr : (∃ e, r = .ok e) ∨ r = .error .deadlock) : s.Runs ∧ ThreadCase s r s' :=
  threadCase_of_step hcfg hs.placed hs.recorded.attributed hs.awake h hr

theorem Model.Underway.sysStep (hcfg : cfg.memPoison = false) (hs : s.Underway)
    (h : SysStep cfg s l s') :
    l.tid = s.threadId ∧ s.Runs ∧ ThreadCase s (.ok l.event) s' ∧ s'.Underway := by
  obtain ⟨htid, hcase⟩ := stepCase_of_sysStep hcfg hs.placed h
  obtain ⟨_, i, hends⟩ := h
  obtain ⟨hrun, hthread⟩ := hs.threadCase hcfg hends (.inl ⟨_, rfl⟩)
  refine ⟨htid, hrun, hthread, hcase.placed hcfg hs.placed,
    hcase.recorded hcfg hs.placed hs.recorded, ?_, hthread.peopled hrun hs.peopled,
    hthread.posted hrun hs.peopled hs.posted⟩
  exact hthread.awake hrun hs.peopled.active

/-- An invariant of threads and mutexes along a run: each step may be taken by its case. -/
theorem IsRun.threads {P : Model → Prop} {n cxlMapping : Nat} {memory : Nat → Nat}
    {mutexType : MutexId → MutexType} {tr : List (Model × Label)} (hcfg : cfg.memPoison = false)
    (h : IsRun cfg n cxlMapping memory mutexType tr s')
    (hinit : P (Model.init n cxlMapping memory mutexType))
    (hstep : ∀ s l s₁, (s, l, s₁) ∈ stepsOf tr s' → s.Underway → s.Runs → P s →
      ThreadCase s (.ok l.event) s₁ → P s₁) :
    (∀ x ∈ stepsOf tr s', x.1.Underway ∧ P x.1 ∧ x.2.1.tid = x.1.threadId ∧ x.1.Runs ∧
      ThreadCase x.1 (.ok x.2.1.event) x.2.2) ∧ s'.Underway ∧ P s' := by
  obtain ⟨hn, hrun⟩ := h
  obtain ⟨hall, hlast⟩ := hrun.invariant_stepsOf (P := fun s => s.Underway ∧ P s) (by
    intro s l s₁ hmem hp hs
    obtain ⟨_, hruns, hcase, hs₁⟩ := hp.1.sysStep hcfg hs
    exact ⟨hs₁, hstep s l s₁ hmem hp.1 hruns hp.2 hcase⟩)
    ⟨Model.underway_init hn, hinit⟩
  refine ⟨?_, hlast⟩
  intro x hx
  obtain ⟨hp, hs⟩ := hall x hx
  obtain ⟨htid, hruns, hcase, _⟩ := hp.1.sysStep hcfg hs
  exact ⟨hp.1, hp.2, htid, hruns, hcase⟩

end

end Cxlmc
