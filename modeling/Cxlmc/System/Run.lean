import Cxlmc.Effect.Entries
import Cxlmc.System.Step

/-!
# Runs of the checker

Every state of a run is `Placed`, so that `StepCase` applies to each of its steps. What a step does to
the memory is a path of the effects that its event allows (`StepCase.goes`): this is how an invariant
of the memory goes from `MemStep` to the runs of the checker.
-/

namespace Cxlmc

open Stateful

/-! ## Where the threads are -/

section

variable {cfg : Config} {s s' : Model} {c : Context} {e : Event}

theorem Model.Seated.stays (hp : s.Seated) (h : s.Stays s') : s'.Seated := by
  constructor
  · rw [h.activeThread]
    exact Nat.lt_of_lt_of_le hp.active h.threadCount
  · intro t
    rcases h.context t with hc | ⟨_, hc⟩
    · rw [hc]
      exact hp.holds t
    · rw [hc]
      trivial

theorem Model.Seated.suspends (hp : s.Seated) (h : s.Suspends s' c)
    (hc : c.Holds s.threadId) : s'.Seated := by
  constructor
  · exact h.activeThread hp.active
  · intro t
    by_cases ht : t = s.threadId
    · rw [ht, h.context]
      exact hc
    · rcases h.others t ht with hc | ⟨_, hc⟩
      · rw [hc]
        exact hp.holds t
      · rw [hc]
        trivial

theorem Model.Seated.exits (hp : s.Seated) (h : s.Exits s') : s'.Seated := by
  constructor
  · exact h.activeThread hp.active
  · intro t
    rcases h.others t with hc | hc | hc
    · rw [hc]
      trivial
    · rw [hc]
      exact hp.holds t
    · rw [hc]
      trivial

end

/-! ## What an event allows -/

/-- The effects of `execute(action)` in thread `tid`. -/
inductive Effect.Executes (tid : ThreadId) (action : ModelAction) (rf : Slots) : Effect → Prop where
  | idle : Executes tid action rf .idle
  | push (hbuf : action.isBuffered = true) : Executes tid action rf (.push action.copy)
  | drains {e : Effect} (hfence : action.isFence = true) (h : e.Drains tid) :
      Executes tid action rf e
  | read (hload : action.isLoad = true) : Executes tid action rf (.read action rf)
  | createPush (htype : action.type = .pthreadCreate) (value : Nat) :
      Executes tid action rf (.push
        { tid := tid, type := .nonatomicStore, location := action.location, value := value,
          order := .relaxed, size := 4 })
  | createWrite (htype : action.type = .pthreadCreate) :
      Executes tid action rf (.write action.location 4)

/-- The effects of a step from `s` to `s'`. -/
inductive Event.Allows (s s' : Model) : Event → Effect → Prop where
  | idle {ev : Event} : Allows s s' ev .idle
  | yield {ev : Event} : Allows s s' ev .yield
  | initial {a : ModelAction} {v : Nat} {rf : Slots} (hacc : (a.isRead || a.isWrite) = true) :
      Allows s s' (.executed a v rf) (.initial a.word)
  | executes {a : ModelAction} {v : Nat} {rf : Slots} {e : Effect}
      (h : e.Executes s.threadId a rf) : Allows s s' (.executed a v rf) e
  | pops {mem : ThreadId} {e : Effect} (h : e.Drains mem) : Allows s s' (.popped mem) e
  | wrote {mem : ThreadId} {v loc size val : Nat}
      (hctx : s.contextOf s.threadId = .popping mem 0 v (.rawStore loc size val)) :
      Allows s s' (.returned v) (.write loc size)
  | exitInitial {a : ModelAction} {ret : Ret} (hctx : s.contextOf s.threadId = .ready a ret)
      (hcrash : s'.crashes ≠ ∅) : Allows s s' .exited (.initial a.word)
  | exitPush {a : ModelAction} {ret : Ret} (hctx : s.contextOf s.threadId = .ready a ret)
      (hcrash : s'.crashes ≠ ∅) (hbuf : a.isBuffered = true) : Allows s s' .exited (.push a.copy)
  | exitDrains {a : ModelAction} {ret : Ret} {e : Effect}
      (hctx : s.contextOf s.threadId = .ready a ret) (hfence : a.isFence = true)
      (hcrash : s'.crashes ≠ ∅) (h : e.Drains s.threadId) : Allows s s' .exited e
  | exitPops {mem : ThreadId} {n v : Nat} {ret : Ret} {e : Effect}
      (hctx : s.contextOf s.threadId = .popping mem (n + 1) v ret) (hcrash : s'.crashes ≠ ∅)
      (h : e.Drains mem) : Allows s s' .exited e
  | exitShutdown {e : Effect} (hctx : s.contextOf s.threadId = .shutdown) (h : e.ShutsDown s) :
      Allows s s' .exited e
  | exitCrash (hcrash : s'.crashes ≠ ∅) : Allows s s' .exited .crashSelf

section

variable {cfg : Config} {s s' s₁ : Model} {a : ModelAction} {v : Nat} {rf : Slots} {e : Event}

theorem Drained.executes {tid : ThreadId} (hfence : a.isFence = true)
    (h : Drained cfg tid s s') : Goes (MemStep cfg) (Effect.Executes tid a rf) s s' :=
  h.goes.mono fun _ he => .drains hfence he

/-- `execute` goes along the effects of its action. -/
theorem Executed.goes (htid : a.tid = s.threadId) (hseq : a.tick = 0)
    (h : Executed cfg a s v rf s') :
    Goes (MemStep cfg) (Effect.Executes s.threadId a rf) s s' := by
  have hpush : a.isBuffered = true →
      Goes (MemStep cfg) (Effect.Executes s.threadId a rf) s (s.pushed s.threadId a.copy) := by
    intro hbuf
    exact .single (MemStep.push a.copy htid hseq hbuf rfl) (.push hbuf)
  cases h with
  | control _ _ hidle => exact .single (MemStep.idle hidle) .idle
  | @load s₁ s₂ s₃ _ _ hload hdrain hidle hread hidle' _ =>
      have hfirst : Goes (MemStep cfg) (Effect.Executes s.threadId a rf) s s₁ := by
        split at hdrain
        · next hrmw => exact hdrain.executes (by simp [ModelAction.isFence, hrmw])
        · rw [hdrain]
          exact .refl s
      refine hfirst.trans ((Goes.single (MemStep.idle hidle) .idle).trans ?_)
      exact (Goes.single hread (.read hload)).trans (.single (MemStep.idle hidle') .idle)
  | store hwrite hdrain =>
      have hbuf := isBuffered_of_isWrite hwrite
      refine (hpush hbuf).trans ?_
      split at hdrain
      · next hfence =>
          apply hdrain.executes
          rcases hfence with h | h <;> simp [ModelAction.isFence, h, hwrite]
      · rw [hdrain]
        exact .refl _
  | flush hbuf _ => exact hpush hbuf
  | mfence htype hdrain => exact hdrain.executes (by simp [ModelAction.isFence, htype])
  | create htype hs' =>
      have hnew : MemStep cfg s .idle s.newThread := .idle (.newThread s)
      have hentry : MemStep cfg s.newThread (.push (s.createEntry a))
          (s.newThread.pushed s.threadId (s.createEntry a)) := .push _ rfl rfl rfl rfl
      have hwrite : MemStep cfg (s.newThread.pushed s.threadId (s.createEntry a))
          (.write a.location 4) s' := by
        rw [hs']
        exact .write a.location 4 s.threadCount
      refine (Goes.single hnew .idle).trans ?_
      exact (Goes.single hentry (.createPush htype _)).trans (.single hwrite (.createWrite htype))

theorem Executed.stays (hcfg : cfg.memPoison = false) (htid : a.tid = s.threadId)
    (hseq : a.tick = 0) (h : Executed cfg a s v rf s') : s.Stays s' := by
  apply Goes.stays hcfg _ (h.goes htid hseq)
  intro hyield
  cases hyield with
  | drains _ h => exact h

/-- The action in the place where `execute` gets it. -/
theorem Issued.stamped {ret : Ret} (h : Issued s.threadId a ret) :
    (s.stamp a).tid = (s.prepared a).threadId ∧ (s.stamp a).tick = 0 := by
  rw [s.prepared_threadId, s.stamp_tid]
  refine ⟨h.tid_eq.1, ?_⟩
  unfold Model.stamp
  split <;> exact h.tid_eq.2.1

/-- Up to the end of `execute` only the running thread has moved, and it keeps the token. -/
theorem Model.Placed.executed_stays {b : ModelAction} {ret : Ret} (hcfg : cfg.memPoison = false)
    (hplaced : s.Placed) (hctx : s.contextOf s.threadId = .ready b ret)
    (h : Executed cfg (s.stamp b) (s.prepared b) v rf s₁) : s.Stays s₁ := by
  have hholds := hplaced.holds s.threadId
  rw [hctx] at hholds
  obtain ⟨htid, hseq⟩ := Issued.stamped (s := s) hholds
  exact (s.prepared_stays b).trans (h.stays hcfg htid hseq)

/-- So it is with a pop, from where the thread is suspended after it. -/
theorem Model.Placed.popped_stays {mem : ThreadId} {c : Context} (hcfg : cfg.memPoison = false)
    (hplaced : s.Placed)
    (h : (popFromStoreBuffer mem).Ends (s.setContext s.threadId c) (.ok ()) s') :
    (s.setContext s.threadId c).Stays s' :=
  Goes.stays hcfg (fun h => h) ((hplaced.pop_does cfg c mem).returns h)

theorem Model.prepared_goes {P : Effect → Prop} (s : Model)
    (hP : (a.isRead || a.isWrite) = true → P (.initial a.word)) :
    Goes (MemStep cfg) P s (s.prepared a) := by
  unfold Model.prepared
  split
  · next h => exact .single (MemStep.initial a.word (alignAddress_alignAddress _) h.2) (hP h.1)
  · exact .refl s

theorem SelfCrash.crashes_ne (h : SelfCrash cfg s s') : s'.crashes ≠ ∅ := by
  obtain ⟨s₁, hstep, hidle⟩ := h
  rw [hidle.memory]
  cases hstep with
  | crashSelf hfirst hmany =>
      intro hempty
      apply @AList.notMem_empty _ (fun _ => Nat) s.processId
      rw [← hempty]
      exact Crashes.mem_emplace.mpr (.inl rfl)

theorem SelfCrash.goes {P : Effect → Prop} (hcrash : P .crashSelf) (hidle : P .idle)
    (h : SelfCrash cfg s s') : Goes (MemStep cfg) P s s' := by
  obtain ⟨s₁, hstep, hi⟩ := h
  exact (Goes.single hstep hcrash).trans (.single (MemStep.idle hi) hidle)

theorem ExitPath.goes {s₂ : Model} (hplaced : s.Placed) (h : ExitPath cfg s s₁) (hs₂ : s₂.crashes = s₁.crashes) :
    Goes (MemStep cfg) (Event.Allows s s₂ .exited) s s₁ := by
  cases h with
  | quiet _ h => exact .single (MemStep.yield h.toControl) .yield
  | insertCrash _ h hcrash =>
      have hne : s₂.crashes ≠ ∅ := hs₂ ▸ hcrash.crashes_ne
      exact (Goes.single (MemStep.idle h) .idle).trans (hcrash.goes (.exitCrash hne) .idle)
  | @execute b ret s₃ s₄ _ hctx hfence hpush h hcrash =>
      have hne : s₂.crashes ≠ ∅ := hs₂ ▸ hcrash.crashes_ne
      have hprepared : Goes (MemStep cfg) (Event.Allows s s₂ .exited) s (s.prepared b) :=
        s.prepared_goes fun _ => .exitInitial hctx hne
      have hpushed : Goes (MemStep cfg) (Event.Allows s s₂ .exited) s s₃ := by
        rcases hpush with rfl | ⟨hbuf, rfl⟩
        · exact hprepared
        · have hholds := hplaced.holds s.threadId
          rw [hctx] at hholds
          have hself := s.prepared_threadId b
          have hpush : MemStep cfg (s.prepared b) (.push b.copy)
              ((s.prepared b).pushed (s.prepared b).threadId b.copy) :=
            .push b.copy (hholds.tid_eq.1.trans hself.symm) hholds.tid_eq.2.1 hbuf rfl
          rw [hself] at hpush
          exact hprepared.trans (.single hpush (.exitPush hctx hne hbuf))
      refine hpushed.trans (Goes.trans (h.mono ?_) (hcrash.goes (.exitCrash hne) .idle))
      exact fun e he => .exitDrains hctx hfence hne he
  | @pop mem n v ret _ hctx h =>
      obtain ⟨s₃, h, hcrash⟩ := (hplaced.pop_does cfg _ mem).leaves h
      have hne : s₂.crashes ≠ ∅ := hs₂ ▸ hcrash.crashes_ne
      have hset := (Model.MovesTo.setContext s (.popping mem n v ret)).toControl
      refine (Goes.single (MemStep.yield hset) .yield).trans ?_
      refine Goes.trans (h.mono ?_) (hcrash.goes (.exitCrash hne) .idle)
      exact fun e he => .exitPops hctx hne he
  | shutdown hctx h hend =>
      refine Goes.trans (h.mono fun e he => .exitShutdown hctx he) ?_
      rcases hend with hidle | hcrash
      · exact .single (MemStep.idle hidle) .idle
      · exact hcrash.goes (.exitCrash (hs₂ ▸ hcrash.crashes_ne)) .idle

/-- A step goes along the effects that its event allows. -/
theorem StepCase.goes (hplaced : s.Placed) (h : StepCase cfg s e s') :
    Goes (MemStep cfg) (Event.Allows s s' e) s s' := by
  have hholds := hplaced.holds s.threadId
  cases h with
  | called _ _ _ _ h => exact .single (MemStep.yield h.toControl) .yield
  | secondHalf _ _ _ _ h => exact .single (MemStep.yield h.toControl) .yield
  | lockAgain _ _ _ _ h => exact .single (MemStep.yield h.toControl) .yield
  | @executed b ret v n rf t s₁ _ hctx h h' =>
      rw [hctx] at hholds
      obtain ⟨htid, hseq⟩ := Issued.stamped (s := s) hholds
      have hself := s.prepared_threadId b
      have hexec := h.goes htid hseq
      rw [hself] at hexec
      have hprepared : Goes (MemStep cfg) (Event.Allows s s' (.executed (s.stamp b) v rf)) s
          (s.prepared b) := by
        apply s.prepared_goes
        intro hacc
        have hword : (s.stamp b).word = b.word := by
          unfold Model.stamp
          split <;> rfl
        rw [← hword]
        apply Event.Allows.initial
        simp only [ModelAction.isRead, ModelAction.isWrite, s.stamp_type] at hacc ⊢
        exact hacc
      refine hprepared.trans (Goes.trans (hexec.mono fun _ => .executes) ?_)
      exact .single (MemStep.yield h'.toControl) .yield
  | resumed _ h => exact .single (MemStep.yield h.toControl) .yield
  | blocked _ _ h => exact .single (MemStep.yield h.toControl) .yield
  | finished _ h => exact .single (MemStep.yield h.toControl) .yield
  | @popped mem n v ret _ hctx h =>
      have hset := (Model.MovesTo.setContext s (.popping mem n v ret)).toControl
      refine (Goes.single (MemStep.yield hset) .yield).trans ?_
      exact ((hplaced.pop_does cfg _ mem).returns h).mono fun _ => .pops
  | returned _ h => exact .single (MemStep.yield h.toControl) .yield
  | @wrote mem v loc size val hctx =>
      have hset := (Model.MovesTo.setContext s .user).toControl
      refine (Goes.single (MemStep.yield hset) .yield).trans ?_
      exact .single (MemStep.write loc size val) (.wrote hctx)
  | noAction _ _ h => exact .single (MemStep.yield h.toControl) .yield
  | exited hpath h =>
      have hcrashes : s'.crashes = _ := congrArg Memory.crashes h.memory
      exact (hpath.goes hplaced hcrashes).trans (.single (MemStep.yield h.toControl) .yield)

theorem StepCase.recorded (hcfg : cfg.memPoison = false) (hplaced : s.Placed) (hr : s.Recorded)
    (h : StepCase cfg s e s') : s'.Recorded :=
  Goes.recorded hcfg (h.goes hplaced) hr

/-- Every thread stays suspended with an action of its own. -/
theorem StepCase.seated (hcfg : cfg.memPoison = false) (hplaced : s.Placed)
    (h : StepCase cfg s e s') : s'.Seated := by
  have hseated := hplaced.toSeated
  have hholds := hplaced.holds s.threadId
  cases h with
  | called _ hissued _ _ h => exact hseated.suspends h hissued
  | secondHalf _ _ hissued _ h => exact hseated.suspends h.toSuspends hissued
  | lockAgain _ hissued _ _ h => exact hseated.suspends h hissued
  | @executed b ret v n rf t s₁ _ hctx h h' =>
      have hstays := hplaced.executed_stays hcfg hctx h
      rw [hctx] at hholds
      apply (hseated.stays hstays).suspends h'.toSuspends
      have hself : s₁.threadId = s.threadId := hstays.activeThread
      rw [hself]
      exact ⟨b, hholds⟩
  | @resumed b ret v n t _ hctx h =>
      rw [hctx] at hholds
      exact hseated.suspends h.toSuspends ⟨b, hholds.2⟩
  | @blocked b ret _ hctx htype h =>
      refine hseated.suspends h ⟨htype, ?_⟩
      rcases hctx with hctx | hctx <;> rw [hctx] at hholds
      · exact hholds
      · exact hholds.2
  | finished _ h => exact hseated.suspends h trivial
  | @popped mem n v ret _ hctx h =>
      rw [hctx] at hholds
      have hset := Model.MovesTo.setContext s (.popping mem n v ret)
      have hseated' := hseated.suspends hset.toSuspends hholds
      exact hseated'.stays (hplaced.popped_stays hcfg h)
  | returned _ h => exact hseated.suspends h.toSuspends trivial
  | wrote _ =>
      have hseated' := hseated.suspends (Model.MovesTo.setContext s .user).toSuspends trivial
      exact hseated'.stays (.of_eq rfl rfl)
  | noAction _ hc h =>
      apply hseated.suspends h
      rcases hc with rfl | rfl <;> trivial
  | exited hpath h =>
      obtain ⟨s₀, c, hmoves, hstays, hc⟩ := hpath.moves hcfg hplaced
      exact ((hseated.suspends hmoves.toSuspends (hc hholds)).stays hstays).exits h

theorem StepCase.placed (hcfg : cfg.memPoison = false) (hplaced : s.Placed)
    (h : StepCase cfg s e s') : s'.Placed :=
  ⟨h.seated hcfg hplaced, Goes.unclocked hcfg (h.goes hplaced) hplaced.unclocked⟩

/-! ## Runs -/

theorem Model.placed_init {n cxlMapping : Nat} {memory : Nat → Nat} {mutexType : MutexId → MutexType}
    (hn : 0 < n) : (Model.init n cxlMapping memory mutexType).Placed :=
  ⟨⟨hn, fun _ => trivial⟩, fun _ => nofun⟩

/-- No process has crashed in any state of the run. -/
def CrashFree (tr : List (Model × Label)) (s' : Model) : Prop :=
  ∀ x ∈ stepsOf tr s', x.2.2.crashes = ∅

/-- A check that no process crashes. -/
def crashFree (tr : List (Model × Label)) (s : Model) : Bool :=
  (stepsOf tr s).all fun x => x.2.2.crashes.keys = []

theorem crashFree_iff {tr : List (Model × Label)} {s : Model} (h : crashFree tr s = true) :
    CrashFree tr s := by
  intro x hx
  have hkeys := of_decide_eq_true (List.all_eq_true.mp h x hx)
  apply Crashes.eq_empty_of_size
  rw [Crashes.size, hkeys]
  exact Nat.one_pos

/-- An invariant of the runs of the checker: each step may be taken from a placed state, by its
case. -/
theorem IsRun.invariant {P : Model → Prop} {n cxlMapping : Nat} {memory : Nat → Nat}
    {mutexType : MutexId → MutexType} {tr : List (Model × Label)} (hcfg : cfg.memPoison = false)
    (h : IsRun cfg n cxlMapping memory mutexType tr s')
    (hinit : P (Model.init n cxlMapping memory mutexType))
    (hstep : ∀ s l s₁, (s, l, s₁) ∈ stepsOf tr s' → s.Placed → P s → l.tid = s.threadId →
      StepCase cfg s l.event s₁ → P s₁) :
    (∀ x ∈ stepsOf tr s', x.1.Placed ∧ P x.1 ∧ x.2.1.tid = x.1.threadId ∧
      StepCase cfg x.1 x.2.1.event x.2.2) ∧ s'.Placed ∧ P s' := by
  obtain ⟨hn, hrun⟩ := h
  obtain ⟨hall, hlast⟩ := hrun.invariant_stepsOf (P := fun s => s.Placed ∧ P s) (by
    intro s l s₁ hmem hp hs
    obtain ⟨htid, hcase⟩ := stepCase_of_sysStep hcfg hp.1 hs
    exact ⟨hcase.placed hcfg hp.1, hstep s l s₁ hmem hp.1 hp.2 htid hcase⟩)
    ⟨Model.placed_init hn, hinit⟩
  refine ⟨?_, hlast⟩
  intro x hx
  obtain ⟨hp, hs⟩ := hall x hx
  obtain ⟨htid, hcase⟩ := stepCase_of_sysStep hcfg hp.1 hs
  exact ⟨hp.1, hp.2, htid, hcase⟩

/-- The states of a run are reached by effects, and each step is a path of the effects that its event
allows. -/
theorem IsRun.goes {n cxlMapping : Nat} {memory : Nat → Nat} {mutexType : MutexId → MutexType}
    {tr : List (Model × Label)} (hcfg : cfg.memPoison = false)
    (h : IsRun cfg n cxlMapping memory mutexType tr s') :
    (∀ x ∈ stepsOf tr s',
      Goes (MemStep cfg) (fun _ => True) (Model.init n cxlMapping memory mutexType) x.1 ∧
      Goes (MemStep cfg) (Event.Allows x.1 x.2.2 x.2.1.event) x.1 x.2.2) ∧
    Goes (MemStep cfg) (fun _ => True) (Model.init n cxlMapping memory mutexType) s' := by
  obtain ⟨hall, _, hlast⟩ := h.invariant hcfg (P := fun s =>
    Goes (MemStep cfg) (fun _ => True) (Model.init n cxlMapping memory mutexType) s) (.refl _) (by
    intro s l s₁ _ hplaced hgoes _ hcase
    exact hgoes.trans ((hcase.goes hplaced).mono fun _ _ => trivial))
  refine ⟨?_, hlast⟩
  intro x hx
  obtain ⟨hplaced, hgoes, _, hcase⟩ := hall x hx
  exact ⟨hgoes, hcase.goes hplaced⟩

/-- From every step of a run the effects go on to its end. -/
theorem IsRun.goes_after {n cxlMapping : Nat} {memory : Nat → Nat} {mutexType : MutexId → MutexType}
    {tr : List (Model × Label)} (hcfg : cfg.memPoison = false)
    (hrun : IsRun cfg n cxlMapping memory mutexType tr s') {x : Model × Label × Model}
    (hx : x ∈ stepsOf tr s') : Goes (MemStep cfg) (fun _ => True) x.2.2 s' := by
  obtain ⟨hall, _⟩ := hrun.goes hcfg
  have hstep : ∀ done, ∀ y ∈ stepsOf tr s', (∀ z ∈ done, Goes (MemStep cfg) (fun _ => True) z.2.2 y.1) →
      ∀ z ∈ done ++ [y], Goes (MemStep cfg) (fun _ => True) z.2.2 y.2.2 := by
    intro done y hy hdone z hz
    rcases List.mem_append.mp hz with hz | hz
    · exact (hdone z hz).trans ((hall y hy).2.mono fun _ _ => trivial)
    · rw [List.mem_singleton.mp hz]
      exact .refl _
  obtain ⟨_, hlast⟩ := hrun.2.history (P := fun done s => ∀ z ∈ done, Goes (MemStep cfg) (fun _ => True) z.2.2 s)
    [] hstep fun _ hz => absurd hz List.not_mem_nil
  exact hlast x hx

/-- No step of a run takes more numbers from the clock than the run has taken at its end. -/
theorem IsRun.ticks_le {n cxlMapping : Nat} {memory : Nat → Nat} {mutexType : MutexId → MutexType}
    {tr : List (Model × Label)} (hcfg : cfg.memPoison = false)
    (hrun : IsRun cfg n cxlMapping memory mutexType tr s') {x : Model × Label × Model}
    (hx : x ∈ stepsOf tr s') : x.1.ticks ≤ s'.ticks := by
  obtain ⟨hall, _⟩ := hrun.goes hcfg
  exact Nat.le_trans (Goes.ticks_le hcfg (hall x hx).2) (Goes.ticks_le hcfg (hrun.goes_after hcfg hx))

/-- There are no fewer threads later. -/
theorem Goes.threadCount_le {P : Effect → Prop} (hcfg : cfg.memPoison = false)
    (h : Goes (MemStep cfg) P s s') : s.threadCount ≤ s'.threadCount :=
  h.preorder (I := fun x y => x.threadCount ≤ y.threadCount) (fun x => Nat.le_refl x.threadCount) Nat.le_trans
    fun _ _ _ _ hstep => (hstep.threadCount hcfg).1

/-- A thread stays with its process. -/
theorem Goes.keepsProcess {P : Effect → Prop} {t : ThreadId} (hcfg : cfg.memPoison = false)
    (h : Goes (MemStep cfg) P s s') (ht : t < s.threadCount) :
    t < s'.threadCount ∧ s'.processCount = s.processCount ∧
      (s'.threads t).processId = (s.threads t).processId := by
  apply h.invariant (I := fun x => t < x.threadCount ∧ x.processCount = s.processCount ∧
    (x.threads t).processId = (s.threads t).processId) _ ⟨ht, rfl, rfl⟩
  intro x e y _ hx hstep
  obtain ⟨hlt, hcount, hpid⟩ := hx
  obtain ⟨hle, _, hprocess⟩ := hstep.threadCount hcfg
  exact ⟨Nat.lt_of_lt_of_le hlt hle, (hstep.processCount hcfg).trans hcount, (hprocess t hlt).trans hpid⟩

end

end Cxlmc
