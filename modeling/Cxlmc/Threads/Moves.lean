import Cxlmc.Threads.Step
import Mathlib.Logic.Relation

/-!
# A step as a path of moves

What a step of the checker does is a path of moves of `ThreadStep`, unless the program calls `exit`
(`ThreadCase.moves`), and the thread that has the token after it can run (`ThreadCase.awake`).
-/

namespace Cxlmc

open Stateful

/-- A path of moves. -/
abbrev Moves : Model → Model → Prop := Relation.ReflTransGen ThreadStep

/-- The program has called `exit`, and the token has been passed if that was possible. -/
structure Model.Quits (s s' : Model) : Prop where
  place : s.contextOf s.threadId = .user
  runs : s.Runs
  passes : (∃ t, s.gone.nextRunning = some t ∧ s' = s.gone.passed t) ∨
    s.gone.nextRunning = none ∧ s' = s.gone

section

variable {s s' s₁ : Model} {a : ModelAction} {ret : Ret} {r : Except Stop Event} {α : Type} {x : α}

theorem Model.nextRunning_spec {t : ThreadId} (h : s.nextRunning = some t)
    (hlt : s.activeThread < s.threadCount) :
    (s.threads t).state = .running ∧ t < s.threadCount := by
  have hstate := List.find?_some h
  exact ⟨by simpa using hstate, s.nextRunning_lt h hlt⟩

theorem Model.Yields.moves {q : Except Stop α} (h : s.Yields x q s')
    (hlt : s.activeThread < s.threadCount) : Moves s s' := by
  cases h with
  | next h =>
      obtain ⟨hstate, ht⟩ := s.nextRunning_spec h hlt
      exact .single (.pass _ hstate ht)
  | alone _ _ => exact .refl
  | stuck _ _ => exact .refl

theorem Model.LastYields.moves {q : Except Stop Bool} (h : s.LastYields q s')
    (hlt : s.activeThread < s.threadCount) : Moves s s' := by
  cases h with
  | next h =>
      obtain ⟨hstate, ht⟩ := s.nextRunning_spec h hlt
      exact .single (.pass _ hstate ht)
  | last _ => exact .refl
  | stuck _ => exact .refl

theorem Calls.moves (h : Calls a ret s r s') (hrun : s.Runs) (hlt : s.activeThread < s.threadCount) :
    Moves s s' := by
  have hcall : Moves s (s.called a ret) := .single (.call a ret hrun)
  cases h with
  | stays => exact hcall
  | yields h => exact hcall.trans (h.moves hlt)

theorem Model.Yields.threads_eq {q : Except Stop α} (h : s.Yields x q s') : s'.threads = s.threads := by
  cases h <;> rfl

theorem Model.LastYields.threads_eq {q : Except Stop Bool} (h : s.LastYields q s') :
    s'.threads = s.threads := by
  cases h <;> rfl

theorem Model.Yields.mutexes_eq {α : Type} {x : α} {q : Except Stop α} (h : s.Yields x q s') :
    s'.mutexes = s.mutexes := by
  cases h <;> rfl

theorem Model.LastYields.mutexes_eq {q : Except Stop Bool} (h : s.LastYields q s') :
    s'.mutexes = s.mutexes := by
  cases h <;> rfl

theorem Calls.mutexes_eq {r : Except Stop Event} (h : Calls a ret s r s') : s'.mutexes = s.mutexes := by
  cases h with
  | stays => rfl
  | yields h => exact h.mutexes_eq

theorem Calls.threads_eq {r : Except Stop Event} (h : Calls a ret s r s') :
    s'.threads = (s.called a ret).threads := by
  cases h with
  | stays => rfl
  | yields h => exact h.threads_eq

/-! ### The running thread goes on -/

theorem Model.Runs.wakeAll (h : s.Runs) (v : WaitTarget → Bool) :
    (s.wakeAllThreadsWaitingOn v).Runs := by
  show (if _ then _ else _ : Thread).state = _
  split
  · rfl
  · exact h

theorem Model.Runs.wakeOne (h : s.Runs) (v : WaitTarget) : (s.wakeThreadWaitingOn v).Runs := by
  unfold Model.wakeThreadWaitingOn
  split
  · exact h
  · show (Function.update s.threads _ _ s.threadId).state = _
    rw [Function.update_apply]
    split
    · rfl
    · exact h

theorem Model.Runs.works (h : s.Runs) (hw : s.Works s') : s'.Runs := by
  rw [Model.Runs, hw.threads, hw.threadId]
  exact h

/-- A change of the running thread that leaves its state. -/
theorem Model.Runs.setOwn (h : s.Runs) (f : Thread → Thread)
    (hf : (f (s.threads s.threadId)).state = (s.threads s.threadId).state) :
    (s.setThread s.threadId f).Runs := by
  show ((s.setThread s.threadId f).threads s.threadId).state = _
  simp only [Model.setThread, Function.update_self]
  exact hf.trans h

theorem Model.Runs.called (h : s.Runs) (a : ModelAction) (ret : Ret) : (s.called a ret).Runs :=
  Model.Runs.setOwn (h.setOwn (fun th => { th with pending := some a }) rfl)
    (fun th => { th with context := .ready a ret }) rfl

theorem Model.Runs.backAt (h : s.Runs) (c : Context) : (s.backAt c).Runs :=
  Model.Runs.setOwn (h.setOwn (fun th => { th with pending := none }) rfl)
    (fun th => { th with context := c }) rfl

theorem Model.Runs.setContext (h : s.Runs) (c : Context) : (s.setContext s.threadId c).Runs :=
  h.setOwn (fun th => { th with context := c }) rfl

theorem Acts.runs (h : Acts a s s₁) (hrun : s.Runs) (hlt : s.activeThread < s.threadCount) :
    s₁.Runs := by
  cases h with
  | work _ h => exact hrun.works h
  | idle _ _ _ => exact hrun
  | create _ h =>
      have hnew : s.newThread.Runs := by
        show (Function.update s.threads s.threadCount _ s.threadId).state = _
        have hne : s.threadId ≠ s.threadCount := Nat.ne_of_lt hlt
        rw [Function.update_of_ne hne]
        exact hrun
      exact hnew.works h
  | acquire _ _ _ =>
      exact hrun.setOwn (fun th => { th with ownedMutexes := insert a.location th.ownedMutexes }) rfl
  | relock _ _ _ => exact hrun
  | unlockOnce _ _ _ _ _ => exact hrun
  | unlock m _ _ _ =>
      have hset := hrun.setOwn (fun th => { th with ownedMutexes := th.ownedMutexes.erase m }) rfl
      exact Model.Runs.wakeAll (s := { s.setThread s.threadId fun th =>
          { th with ownedMutexes := th.ownedMutexes.erase m } with
            mutexes := Function.update s.mutexes m
              { s.mutexes m with owner := none, recursiveLockCount := 0 } }) hset _
  | notifyOne _ => exact hrun.wakeOne _
  | notifyAll _ => exact hrun.wakeAll _

theorem Acts.threadId_eq (h : Acts a s s₁) : s₁.threadId = s.threadId := by
  cases h with
  | work _ h => exact h.threadId
  | create _ h => exact h.threadId
  | notifyOne _ => exact congrArg (·.activeThread) (s.wakeThreadWaitingOn_eq _)
  | _ => rfl

theorem Acts.moves (h : Acts a s s₁) (hrun : s.Runs) : Moves s s₁ := by
  cases h with
  | work _ h => exact .single (.work h)
  | idle _ _ _ => exact .refl
  | create _ h => exact .tail (.single (.create hrun)) (.work h)
  | acquire _ hfree hnot => exact .single (.acquire _ hrun hfree hnot)
  | relock count _ _ => exact .single (.recount _ count hrun)
  | unlockOnce m count _ _ _ => exact .single (.recount m count hrun)
  | unlock m _ _ howner => exact .single (.release m hrun howner)
  | notifyOne _ => exact .single (.notifyOne _)
  | notifyAll _ => exact .single (.notifyAll _)

/-- What `execute` does before the thread waits. -/
theorem Waits.moves (h : Waits a s s₁) (hrun : s.Runs) (hlt : s.activeThread < s.threadCount) :
    Moves s s₁ ∧ s₁.Runs ∧ s₁.threadId = s.threadId ∧ s₁.activeThread = s.activeThread ∧
      s₁.threadCount = s.threadCount ∧ s₁.contextOf s.threadId = s.contextOf s.threadId ∧
      s₁.MustWait a := by
  cases h with
  | stays _ hmust => exact ⟨.refl, hrun, rfl, rfl, rfl, rfl, hmust⟩
  | gives hgive =>
      have hacts : Acts { a with type := .atomicUnlock } s (s.released a.value) :=
        .unlock a.value rfl nofun hgive.owner
      have hctx : (s.released a.value).contextOf s.threadId = s.contextOf s.threadId := by
        show (if _ then _ else _ : Thread).context = _
        have hset : (Function.update s.threads s.threadId
            { s.threads s.threadId with
              ownedMutexes := (s.threads s.threadId).ownedMutexes.erase a.value } s.threadId).context =
            s.contextOf s.threadId := by
          rw [Function.update_self]
          rfl
        split
        · exact hset
        · exact hset
      exact ⟨.single (.release _ hrun hgive.owner), hacts.runs hrun hlt, rfl, rfl, rfl, hctx,
        .cond hgive.type⟩

/-! ### The end of a process -/

theorem Thread.waitingOn_blocked {t : Thread} {w : WaitTarget} (h : t.waitingOn = some w) :
    t.state = .blocked := by
  unfold Thread.waitingOn at h
  split at h
  · cases h
  · split at h
    · cases h
    · next hstate => exact Decidable.not_not.mp hstate

/-- Who is woken was blocked. -/
theorem Thread.blocked_of_any {th : Thread} {v : WaitTarget → Bool}
    (h : th.waitingOn.any v = true) : th.state = .blocked := by
  cases hw : th.waitingOn with
  | none =>
      rw [hw] at h
      cases h
  | some w => exact Thread.waitingOn_blocked hw

theorem Model.wakeAll_threads (s : Model) (v : WaitTarget → Bool) (u : ThreadId) :
    (s.wakeAllThreadsWaitingOn v).threads u = s.threads u ∨
      (s.threads u).state = .blocked ∧
        (s.wakeAllThreadsWaitingOn v).threads u = { s.threads u with state := .running } := by
  rw [Model.wakeAllThreadsWaitingOn_threads]
  split
  · next h => exact .inr ⟨Thread.blocked_of_any h.2, rfl⟩
  · exact .inl rfl

theorem Model.wakeOne_threads (s : Model) (v : WaitTarget) (u : ThreadId) :
    (s.wakeThreadWaitingOn v).threads u = s.threads u ∨
      (s.threads u).state = .blocked ∧
        (s.wakeThreadWaitingOn v).threads u = { s.threads u with state := .running } := by
  rcases s.wakeThreadWaitingOn_cases v with ⟨heq, _⟩ | ⟨t, _, hwaits, heq⟩ <;> rw [heq]
  · exact .inl rfl
  · rw [Model.setState, Model.setThread_threads]
    split
    · next hu => exact .inr ⟨hu ▸ Thread.waitingOn_blocked hwaits, rfl⟩
    · exact .inl rfl

/-! ### What a move does to one thread -/

/-- The thread is as it was, or it is the running thread and goes on, or it was woken. -/
inductive Model.Turns (s : Model) (t : ThreadId) : Thread → Prop where
  | same : s.Turns t (s.threads t)
  | goes {th : Thread} (hself : t = s.threadId) (hrun : s.Runs)
      (hprocess : th.processId = (s.threads t).processId)
      (hstate : th.state = (s.threads t).state) : s.Turns t th
  | woken {th : Thread} (hblocked : (s.threads t).state = .blocked)
      (hprocess : th.processId = (s.threads t).processId) (hstate : th.state = .running) :
      s.Turns t th

theorem Model.Turns.not_crashed {t : ThreadId} {th : Thread} (h : s.Turns t th)
    (hnot : (s.threads t).state ≠ .crashed) : th.state ≠ .crashed := by
  cases h with
  | same => exact hnot
  | goes _ _ _ hstate => exact hstate ▸ hnot
  | woken _ _ hstate => simp [hstate]

theorem Model.Runs.turns (h : s.Runs) {f : Thread → Thread}
    (hf : ∀ th, (f th).processId = th.processId ∧ (f th).state = th.state) (u : ThreadId) :
    s.Turns u (if u = s.threadId then f (s.threads u) else s.threads u) := by
  split
  · next hu => exact .goes hu h (hf _).1 (hf _).2
  · exact .same

theorem Model.Runs.setContext_turns (h : s.Runs) (c : Context) (u : ThreadId) :
    s.Turns u ((s.setContext s.threadId c).threads u) := by
  rw [Model.setContext, Model.setThread_threads]
  exact h.turns (f := fun th => { th with context := c }) (fun _ => ⟨rfl, rfl⟩) u

theorem Model.Runs.called_turns (h : s.Runs) (a : ModelAction) (ret : Ret) (u : ThreadId) :
    s.Turns u ((s.called a ret).threads u) := by
  rw [s.called_threads]
  exact h.turns (f := fun th => { th with pending := some a, context := .ready a ret })
    (fun _ => ⟨rfl, rfl⟩) u

theorem Model.Runs.backAt_turns (h : s.Runs) (c : Context) (u : ThreadId) :
    s.Turns u ((s.backAt c).threads u) := by
  rw [s.backAt_threads]
  exact h.turns (f := fun th => { th with pending := none, context := c }) (fun _ => ⟨rfl, rfl⟩) u

theorem Model.Runs.acquired_turns (h : s.Runs) (m : MutexId) (u : ThreadId) :
    s.Turns u ((s.acquired m).threads u) := by
  rw [s.acquired_threads]
  exact h.turns (f := fun th => { th with ownedMutexes := insert m th.ownedMutexes })
    (fun _ => ⟨rfl, rfl⟩) u

theorem Model.Runs.released_turns (h : s.Runs) (m : MutexId) (u : ThreadId) :
    s.Turns u ((s.released m).threads u) := by
  rw [s.released_threads]
  split
  · next hwoken => exact .woken (Thread.blocked_of_any hwoken.2) rfl rfl
  · exact h.turns (f := fun th => { th with ownedMutexes := th.ownedMutexes.erase m })
      (fun _ => ⟨rfl, rfl⟩) u

theorem Model.wakeAll_turns (s : Model) (v : WaitTarget → Bool) (u : ThreadId) :
    s.Turns u ((s.wakeAllThreadsWaitingOn v).threads u) := by
  rcases s.wakeAll_threads v u with heq | ⟨hblocked, heq⟩ <;> rw [heq]
  · exact .same
  · exact .woken hblocked rfl rfl

theorem Model.wakeOne_turns (s : Model) (v : WaitTarget) (u : ThreadId) :
    s.Turns u ((s.wakeThreadWaitingOn v).threads u) := by
  rcases s.wakeOne_threads v u with heq | ⟨hblocked, heq⟩ <;> rw [heq]
  · exact .same
  · exact .woken hblocked rfl rfl

theorem Model.crashThread_threadCount (s : Model) (pid : ProcessId) (i : ThreadId) :
    (s.crashThread pid i).threadCount = s.threadCount := by
  unfold Model.crashThread
  split <;> rfl

/-- What one round of `process_crash` preserves, all of it preserves. -/
theorem Model.processCrash_induction {P : Model → Prop} (h : P s)
    (hstep : ∀ x i, i < s.threadCount → x.threadCount = s.threadCount →
      P x → P (x.crashThread s.processId i)) : P s.processCrash := by
  unfold Model.processCrash
  have hloop : ∀ (ts : List ThreadId) (x : Model), (∀ t ∈ ts, t < s.threadCount) →
      x.threadCount = s.threadCount → P x → P (ts.foldl (Model.crashThread s.processId) x) := by
    intro ts
    induction ts with
    | nil => exact fun _ _ _ hx => hx
    | cons i ts ih =>
        intro x hts hcount hx
        have hcount' : (x.crashThread s.processId i).threadCount = s.threadCount := by
          rw [← hcount]
          exact x.crashThread_threadCount _ i
        have hi := hts i List.mem_cons_self
        exact ih _ (fun t ht => hts t (List.mem_cons_of_mem i ht)) hcount' (hstep x i hi hcount hx)
  exact hloop _ s (fun t ht => List.mem_range.mp ht) rfl h

/-- A thread after a `process_crash` of `pid`. -/
inductive Thread.AfterCrash (pid : ProcessId) (th : Thread) : Thread → Prop where
  | same : AfterCrash pid th th
  | woken (hblocked : th.state = .blocked) : AfterCrash pid th { th with state := .running }
  | crashed (hpid : th.processId = pid) (hgoes : th.isCompleted = false) :
      AfterCrash pid th { th with state := .crashed }

theorem Thread.AfterCrash.wake {pid : ProcessId} {th th' : Thread} (h : th.AfterCrash pid th')
    (hblocked : th'.state = .blocked) : th.AfterCrash pid { th' with state := .running } := by
  cases h with
  | same => exact .woken hblocked
  | woken h => exact .woken h
  | crashed _ _ => cases hblocked

theorem Thread.AfterCrash.crash {pid : ProcessId} {th th' : Thread} (h : th.AfterCrash pid th')
    (hpid : th'.processId = pid) (hgoes : th'.isCompleted = false) :
    th.AfterCrash pid { th' with state := .crashed } := by
  cases h with
  | same => exact .crashed hpid hgoes
  | woken h => exact .crashed hpid (by simp [Thread.isCompleted, h])
  | crashed _ _ => cases hgoes

/-- What `process_crash` does to each thread. -/
theorem Model.processCrash_afterCrash (s : Model) (t : ThreadId) :
    (s.threads t).AfterCrash s.processId (s.processCrash.threads t) := by
  refine Model.processCrash_induction
    (P := fun x => (s.threads t).AfterCrash s.processId (x.threads t)) .same ?_
  intro x i _ _ hx
  unfold Model.crashThread
  split
  · next hdies =>
      have hset : (s.threads t).AfterCrash s.processId ((x.setState i .crashed).threads t) := by
        rw [Model.setState, Model.setThread_threads]
        split
        · next ht =>
            rw [← ht] at hdies
            exact hx.crash hdies.1 (Bool.eq_false_iff.mpr hdies.2)
        · exact hx
      rw [Model.wakeAllThreadsWaitingOn_threads]
      split
      · next hwoken => exact hset.wake (Thread.blocked_of_any hwoken.2)
      · exact hset
  · exact hx

/-- A thread that is done stays done when another one is crashed. -/
theorem Model.crashThread_done {pid : ProcessId} (i u : ThreadId)
    (h : (s.threads u).isCompleted = true ∨ u = i ∧ (s.threads u).processId = pid) :
    ((s.crashThread pid i).threads u).isCompleted = true := by
  unfold Model.crashThread
  split
  · next hcond =>
      have hset : ((s.setState i .crashed).threads u).isCompleted = true := by
        show (Function.update s.threads i _ u).isCompleted = true
        rw [Function.update_apply]
        split
        · rfl
        · next hne => exact h.resolve_right fun h => hne h.1
      have hwake : ∀ v, (((s.setState i .crashed).wakeAllThreadsWaitingOn v).threads u).isCompleted =
          true := by
        intro v
        rcases (s.setState i .crashed).wakeAll_threads v u with heq | ⟨hblocked, _⟩
        · rw [heq]
          exact hset
        · rw [Thread.isCompleted, hblocked] at hset
          cases hset
      exact hwake _
  · next hcond =>
      rcases h with h | ⟨rfl, hpid⟩
      · exact h
      · by_contra hnot
        exact hcond ⟨hpid, hnot⟩

/-- `process_crash` leaves no thread of the process going. -/
theorem Model.processCrash_done {t : ThreadId} (ht : t < s.threadCount)
    (hpid : (s.threads t).processId = s.processId) :
    (s.processCrash.threads t).isCompleted = true := by
  unfold Model.processCrash
  have hloop : ∀ (ts : List ThreadId) (x : Model), x.threadCount = s.threadCount →
      (x.threads t).processId = s.processId → ((x.threads t).isCompleted = true ∨ t ∈ ts) →
      ((ts.foldl (Model.crashThread s.processId) x).threads t).isCompleted = true := by
    intro ts
    induction ts with
    | nil =>
        intro x _ _ h
        exact h.resolve_right (List.not_mem_nil)
    | cons i ts ih =>
        intro x hcount hproc h
        have hidle := Model.Idle.crashThread s.processId x i
        refine ih _ ((x.crashThread_threadCount _ i).trans hcount) ?_ ?_
        · rw [hidle.processId t (hcount ▸ ht)]
          exact hproc
        · rcases h with h | h
          · exact .inl (Model.crashThread_done i t (.inl h))
          · rcases List.mem_cons.mp h with rfl | h
            · exact .inl (Model.crashThread_done t t (.inr ⟨rfl, hproc⟩))
            · exact .inr h
  exact hloop _ s rfl hpid (.inr (List.mem_range.mpr ht))

theorem Model.processCrash_threadCount (s : Model) : s.processCrash.threadCount = s.threadCount :=
  Model.processCrash_induction (P := fun x => x.threadCount = s.threadCount) rfl
    fun x i _ _ hx => (x.crashThread_threadCount _ i).trans hx

/-- After `process_crash` the running thread is done, and it still has the token. -/
theorem Model.processCrash_leaves (s : Model) (hlt : s.activeThread < s.threadCount) :
    (s.processCrash.threads s.processCrash.threadId).isCompleted = true ∧
      s.processCrash.activeThread < s.processCrash.threadCount := by
  have hself : s.processCrash.threadId = s.threadId := (Model.Idle.processCrash s).activeThread
  rw [hself, s.processCrash_threadCount]
  refine ⟨s.processCrash_done hlt rfl, ?_⟩
  change s.processCrash.threadId < s.threadCount
  rw [hself]
  exact hlt

theorem Model.setContext_processId (s : Model) (c : Context) :
    (s.setContext s.threadId c).processId = s.processId := by
  show (Function.update s.threads s.threadId _ s.threadId : Thread).processId = _
  rw [Function.update_self]
  rfl

theorem Model.Dies.done (h : s.Dies s') (hlt : s.activeThread < s.threadCount) :
    (s'.threads s'.threadId).isCompleted = true ∧ s'.activeThread < s'.threadCount := by
  rw [h.state]
  exact (s.crash s.processId).processCrash_leaves hlt

/-- The code before an `exit`, the handler included. -/
theorem ThreadExit.moves (h : ThreadExit s s₁) (hrun : s.Runs) (hlt : s.activeThread < s.threadCount) :
    (s₁ = s ∧ s.contextOf s.threadId = .user) ∨
      Moves s s₁.gone ∧ s₁.activeThread < s₁.threadCount := by
  have hplace : ∀ c : Context, c.isBetween = true → Moves s (s.setContext s.threadId c) ∧
      (s.setContext s.threadId c).Runs := by
    intro c hc
    exact ⟨.single (.place c hrun hc), hrun.setContext c⟩
  have hworked : ∀ {s₂ : Model}, s.Works s₂ → s.contextOf s.threadId = .shutdown →
      s₂.contextOf s₂.threadId = .shutdown ∧ s₂.activeThread < s₂.threadCount := by
    intro s₂ hworks hctx
    rw [Model.contextOf, hworks.threads, hworks.threadId, hworks.scheduler]
    exact ⟨hctx, hlt⟩
  cases h with
  | quit hctx => exact .inl ⟨rfl, hctx⟩
  | late hctx hcrashed =>
      obtain ⟨hdone, hlt'⟩ := s.processCrash_leaves hlt
      exact .inr ⟨.tail (.single (.dieLate hrun hcrashed)) (.leave hdone), hlt'⟩
  | lateBack hctx hcrashed =>
      obtain ⟨hmoves, hrun'⟩ := hplace .user rfl
      obtain ⟨hdone, hlt'⟩ := (s.setContext s.threadId .user).processCrash_leaves hlt
      have hcrashed' : (s.setContext s.threadId .user).isCrashed
          (s.setContext s.threadId .user).processId = true := by
        rw [s.setContext_processId]
        exact hcrashed
      exact .inr ⟨(hmoves.tail (.dieLate hrun' hcrashed')).tail (.leave hdone), hlt'⟩
  | @died s₀ s₂ _ h hworks hdies =>
      -- the thread dies while it works, on its way back to the program or not
      have hfirst : Moves s s₀ ∧ s₀.Runs ∧ s₀.activeThread < s₀.threadCount := by
        rcases h with rfl | ⟨mem, n, v, ret, _, rfl⟩
        · exact ⟨.refl, hrun, hlt⟩
        · obtain ⟨hmoves, hrun'⟩ := hplace (.popping mem n v ret) rfl
          exact ⟨hmoves, hrun', hlt⟩
      obtain ⟨hmoves, hrun', hlt'⟩ := hfirst
      rw [← hworks.scheduler] at hlt'
      obtain ⟨hdone, hlast⟩ := hdies.done hlt'
      exact .inr ⟨((hmoves.tail (.work hworks)).tail (.die (hrun'.works hworks) hdies)).tail
        (.leave hdone), hlast⟩
  | @shutdown s₂ hctx hworks =>
      obtain ⟨hctx', hlt'⟩ := hworked hworks hctx
      -- the shutdown completes the thread that makes it
      have hdone : ((s₂.terminated (List.range s₂.threadCount)).threads s₂.threadId).isCompleted =
          true := by
        rw [Model.terminated_threads]
        split
        · rfl
        · next hnot =>
            by_contra hcon
            exact hnot ⟨List.mem_range.mpr hlt', rfl, Bool.eq_false_iff.mpr hcon⟩
      exact .inr ⟨((Relation.ReflTransGen.single (.work hworks)).tail
        (.shutdown (hrun.works hworks) hctx')).tail (.leave hdone), hlt'⟩
  | @shutdownDied s₂ _ ts hctx hworks hts hdies =>
      obtain ⟨hctx', hlt'⟩ := hworked hworks hctx
      obtain ⟨hdone, hlast⟩ := hdies.done hlt'
      exact .inr ⟨((Relation.ReflTransGen.single (.work hworks)).tail
        (.dieInShutdown ts hts (hrun.works hworks) hctx' hdies)).tail (.leave hdone), hlast⟩

/-- A step is a path of moves, unless the program calls `exit`. -/
theorem ThreadCase.moves (h : ThreadCase s r s') (hrun : s.Runs)
    (hlt : s.activeThread < s.threadCount) : Moves s s' ∨ s.Quits s' := by
  have hplace : ∀ c : Context, c.isBetween = true → Moves s (s.setContext s.threadId c) :=
    fun c hc => .single (.place c hrun hc)
  cases h with
  | called _ _ _ h => exact .inl (h.moves hrun hlt)
  | secondHalf _ _ _ h => exact .inl (h.moves hrun hlt)
  | lockAgain _ _ h => exact .inl (h.moves hrun hlt)
  | executed _ _ hacts =>
      exact .inl ((hacts.moves hrun).tail (.back _ (hacts.runs hrun hlt) rfl))
  | resumed _ _ hacts =>
      exact .inl ((hacts.moves hrun).tail (.back _ (hacts.runs hrun hlt) rfl))
  | @blocked a ret _ s₁ _ hctx hwaits h =>
      obtain ⟨hmoves, hrun', hself, hactive, hcount, hsame, hmust⟩ := hwaits.moves hrun hlt
      have hctx' : s₁.contextOf s₁.threadId = .ready a ret ∨
          s₁.contextOf s₁.threadId = .waiting a ret := by
        rw [hself, hsame]
        exact hctx
      have hlt' : (s₁.waits a ret).activeThread < (s₁.waits a ret).threadCount := by
        show s₁.activeThread < s₁.threadCount
        rw [hactive, hcount]
        exact hlt
      exact .inl ((hmoves.tail (.wait a ret hrun' hctx' hmust)).trans (h.moves hlt'))
  | finished _ _ h =>
      exact .inl ((Relation.ReflTransGen.single (.finish _ hrun)).trans (h.moves hlt))
  | relocks => exact .inl .refl
  | popped _ h => exact .inl ((hplace _ rfl).tail (.work h))
  | returned _ _ h => exact .inl ((hplace _ rfl).tail (.work h))
  | noAction _ h => exact .inl (.single (.work h))
  | userDone _ h => exact .inl ((hplace _ rfl).trans (h.moves hlt))
  | exited hexit hnext =>
      rcases hexit.moves hrun hlt with ⟨rfl, hctx⟩ | ⟨hmoves, hlt'⟩
      · exact .inr ⟨hctx, hrun, .inl ⟨_, hnext, rfl⟩⟩
      · obtain ⟨hstate, ht⟩ := Model.nextRunning_spec hnext hlt'
        exact .inl (hmoves.tail (.pass _ hstate ht))
  | exitStuck hexit hnext =>
      rcases hexit.moves hrun hlt with ⟨rfl, hctx⟩ | ⟨hmoves, _⟩
      · exact .inr ⟨hctx, hrun, .inr ⟨hnext, rfl⟩⟩
      · exact .inl hmoves

/-! ### The thread that has the token -/

/-- The running thread is in the state `RUNNING`, unless it has finished. -/
def Model.Awake (s : Model) : Prop := s.contextOf s.threadId ≠ .exited → s.Runs

theorem Model.Yields.runs {q : Except Stop α} (h : s.Yields x q s')
    (hlt : s.activeThread < s.threadCount) (hq : ∀ e, q ≠ .error e) : s'.Runs := by
  cases h with
  | next h => exact (s.nextRunning_spec h hlt).1
  | alone _ hrun => exact hrun
  | stuck _ _ => exact absurd rfl (hq _)

theorem Calls.runs {e : Event} (h : Calls a ret s (.ok e) s') (hrun : s.Runs)
    (hlt : s.activeThread < s.threadCount) : s'.Runs := by
  cases h with
  | stays => exact hrun.called a ret
  | yields h => exact h.runs hlt nofun

theorem Model.finishes_contextOf (s : Model) (v : Nat) :
    (s.finishes v).contextOf s.threadId = .exited := by
  have hplace : ∀ (x : Model) (t : ThreadId),
      ((x.setContext t .exited).setState t .completed).contextOf t = .exited := by
    intro x t
    simp only [Model.contextOf, Model.setState, Model.setContext, Model.setThread,
      Function.update_self]
  exact hplace _ _

/-- The thread that has the token after a step can run, unless the step has finished a thread. -/
theorem ThreadCase.runs {e : Event} (h : ThreadCase s (.ok e) s') (hrun : s.Runs)
    (hlt : s.activeThread < s.threadCount) (hne : ∀ a, e ≠ .finished a) : s'.Runs := by
  generalize hr : (Except.ok e : Except Stop Event) = r at h
  cases h with
  | called _ _ _ h => exact (hr ▸ h).runs hrun hlt
  | secondHalf _ _ _ h => exact (hr ▸ h).runs hrun hlt
  | lockAgain _ _ h => exact (hr ▸ h).runs hrun hlt
  | executed _ _ hacts => exact (hacts.runs hrun hlt).backAt _
  | resumed _ _ hacts => exact (hacts.runs hrun hlt).backAt _
  | @blocked a ret q s₁ _ _ hwaits h =>
      obtain ⟨_, _, _, hactive, hcount, _⟩ := hwaits.moves hrun hlt
      have hlt' : (s₁.waits a ret).activeThread < (s₁.waits a ret).threadCount := by
        show s₁.activeThread < s₁.threadCount
        rw [hactive, hcount]
        exact hlt
      refine h.runs hlt' ?_
      rintro e' rfl
      cases hr
  | @finished a _ _ b =>
      cases b with
      | ok _ =>
          cases hr
          exact absurd rfl (hne a)
      | error _ => cases hr
  | relocks => cases hr
  | popped _ h => exact (hrun.setContext _).works h
  | returned _ _ h => exact (hrun.setContext _).works h
  | noAction _ h => exact hrun.works h
  | userDone _ h =>
      refine h.runs hlt ?_
      rintro e' rfl
      cases hr
  | exited hexit hnext =>
      have hstate := List.find?_some hnext
      simp only [decide_eq_true_eq] at hstate
      exact hstate
  | exitStuck _ _ => cases hr

/-- The step that finishes a thread. -/
theorem ThreadCase.finished_cases (h : ThreadCase s (.ok (.finished a)) s') :
    ∃ v, (∃ t, (s.finishes v).nextRunning = some t ∧ s' = (s.finishes v).passed t) ∨
      (s.finishes v).nextRunning = none ∧ s' = s.finishes v := by
  have hcalls : ∀ {b : ModelAction} {ret' : Ret}, ¬ Calls b ret' s (.ok (.finished a)) s' := by
    intro b ret' h
    cases h with
    | yields h => cases h
  generalize hr : (Except.ok (Event.finished a) : Except Stop Event) = r at h
  cases h with
  | called _ _ _ h => exact absurd (hr ▸ h) hcalls
  | secondHalf _ _ _ h => exact absurd (hr ▸ h) hcalls
  | lockAgain _ _ h => exact absurd (hr ▸ h) hcalls
  | @blocked _ _ q => cases q <;> cases hr
  | @finished _ _ v _ _ _ _ h =>
      cases h with
      | next h => exact ⟨v, .inl ⟨_, h, rfl⟩⟩
      | last h => exact ⟨v, .inr ⟨h, rfl⟩⟩
      | stuck _ => cases hr
  | userDone _ h =>
      cases h <;> cases hr
  | _ => cases hr

/-- The thread that has the token after a step can run, or it has finished. -/
theorem ThreadCase.awake {e : Event} (h : ThreadCase s (.ok e) s') (hrun : s.Runs)
    (hlt : s.activeThread < s.threadCount) : s'.Awake := by
  by_cases hfinished : ∃ a, e = .finished a
  · obtain ⟨a, rfl⟩ := hfinished
    obtain ⟨v, ⟨t, hnext, rfl⟩ | ⟨_, rfl⟩⟩ := h.finished_cases
    · exact fun _ => (Model.nextRunning_spec (s := s.finishes v) hnext hlt).1
    · intro hplace
      exact absurd (s.finishes_contextOf v) hplace
  · exact fun _ => h.runs hrun hlt fun a ha => hfinished ⟨a, ha⟩

end

end Cxlmc
