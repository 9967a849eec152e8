import Cxlmc.Threads.Processes
import Cxlmc.Threads.Mutexes

/-!
# Deadlocks and crashes

`yield` reports a `DEADLOCK` when no thread can run. A process that has been crashed by another one
notices it only when one of its own threads comes to the head of `Model::action`; until then its
threads are as they were. `deadlock_sound` says when a `DEADLOCK` is not due to that.
-/

namespace Cxlmc

open Stateful

/-! ## The threads that do not run -/

/-- The thread is as it was, or it has been woken. -/
structure Thread.Rests (th th' : Thread) : Prop where
  processId : th'.processId = th.processId
  ownedMutexes : th'.ownedMutexes = th.ownedMutexes
  state : th'.state = th.state ∨ th.state = .blocked ∧ th'.state = .running

namespace Model

/-- A step of a process that goes on: the other threads rest. -/
structure Spares (s s' : Model) : Prop where
  count : s.threadCount ≤ s'.threadCount
  others : ∀ t, t ≠ s.threadId → t < s.threadCount → (s.threads t).Rests (s'.threads t)
  own : (s'.threads s.threadId).processId = s.processId
  created : ∀ t, s.threadCount ≤ t → (s'.threads t).state = .running

/-- Code that does to the threads of the running process what it likes: the others rest. -/
structure LeavesOthers (s s' : Model) : Prop where
  count : s'.threadCount = s.threadCount
  self : s'.threadId = s.threadId
  process : ∀ t, (s'.threads t).processId = (s.threads t).processId
  owned : ∀ t, (s'.threads t).ownedMutexes = (s.threads t).ownedMutexes
  others : ∀ t, (s.threads t).processId ≠ s.processId → (s.threads t).Rests (s'.threads t)

/-- A step that ends all threads of its process: the others rest. -/
structure EndsOwn (s s' : Model) : Prop where
  count : s'.threadCount = s.threadCount
  process : ∀ t, (s'.threads t).processId = (s.threads t).processId
  owned : ∀ t, (s'.threads t).ownedMutexes = (s.threads t).ownedMutexes
  others : ∀ t, (s.threads t).processId ≠ s.processId → (s.threads t).Rests (s'.threads t)
  done : ∀ t, t < s.threadCount → (s.threads t).processId = s.processId →
    (s'.threads t).isCompleted = true

end Model

section

variable {s s' s₁ : Model} {a : ModelAction} {ret : Ret} {α : Type} {x : α}

theorem Thread.Rests.refl (th : Thread) : th.Rests th := ⟨rfl, rfl, .inl rfl⟩

theorem Thread.Rests.wake {th : Thread} (h : th.state = .blocked) :
    th.Rests { th with state := .running } := ⟨rfl, rfl, .inr ⟨h, rfl⟩⟩

theorem Thread.Rests.trans {th th' th'' : Thread} (h : th.Rests th') (h' : th'.Rests th'') :
    th.Rests th'' := by
  refine ⟨h'.processId.trans h.processId, h'.ownedMutexes.trans h.ownedMutexes, ?_⟩
  have hone := h.state
  have htwo := h'.state
  grind

theorem Model.Peopled.running_of_le (hp : s.Peopled) {t : ThreadId} (ht : s.threadCount ≤ t) :
    (s.threads t).state = .running := by
  rw [hp.fresh t ht]
  rfl

theorem Model.Spares.of_rests (hp : s.Peopled) (hcount : s'.threadCount = s.threadCount)
    (hown : (s'.threads s.threadId).processId = s.processId)
    (hothers : ∀ t, t ≠ s.threadId → (s.threads t).Rests (s'.threads t)) : s.Spares s' := by
  refine ⟨Nat.le_of_eq hcount.symm, fun t hne _ => hothers t hne, hown, ?_⟩
  intro t ht
  have hrunning := hp.running_of_le ht
  have hne : t ≠ s.threadId := Nat.ne_of_gt (Nat.lt_of_lt_of_le hp.active ht)
  rcases (hothers t hne).state with hstate | ⟨hblocked, _⟩
  · rw [hstate]
    exact hrunning
  · rw [hrunning] at hblocked
    cases hblocked

theorem Model.Spares.trans {s'' : Model} (hp : s.Peopled) (h : s.Spares s')
    (hself : s'.threadId = s.threadId) (h' : s'.Spares s'') : s.Spares s'' := by
  refine ⟨Nat.le_trans h.count h'.count, ?_, ?_, ?_⟩
  · intro t hne ht
    exact (h.others t hne ht).trans (h'.others t (hself ▸ hne) (Nat.lt_of_lt_of_le ht h.count))
  · have hown := h'.own
    rw [hself] at hown
    have hprocess : s'.processId = s.processId := by
      rw [← h.own, ← hself]
      rfl
    exact hown.trans hprocess
  · intro t ht
    by_cases hlt : t < s'.threadCount
    · have hrunning := h.created t ht
      have hne : t ≠ s'.threadId := hself ▸ Nat.ne_of_gt (Nat.lt_of_lt_of_le hp.active ht)
      rcases (h'.others t hne hlt).state with hstate | ⟨hblocked, _⟩
      · rw [hstate]
        exact hrunning
      · rw [hrunning] at hblocked
        cases hblocked
    · exact h'.created t (Nat.le_of_not_lt hlt)

/-- The token does not matter here. -/
theorem Model.Spares.passed (h : s.Spares s') (t : ThreadId) : s.Spares (s'.passed t) :=
  ⟨h.count, h.others, h.own, h.created⟩

theorem Model.Spares.yields {q : Except Stop α} (h : s.Spares s₁) (hy : s₁.Yields x q s') :
    s.Spares s' := by
  cases hy with
  | next _ => exact h.passed _
  | alone _ _ => exact h
  | stuck _ _ => exact h

/-- A change of the running thread. -/
theorem Model.Spares.of_own (hp : s.Peopled) (hcount : s'.threadCount = s.threadCount)
    (hown : (s'.threads s.threadId).processId = s.processId)
    (hothers : ∀ t, t ≠ s.threadId → s'.threads t = s.threads t) : s.Spares s' :=
  .of_rests hp hcount hown fun t hne => by rw [hothers t hne]; exact .refl _

theorem Model.Spares.refl (hp : s.Peopled) : s.Spares s := .of_own hp rfl rfl fun _ _ => rfl

theorem Model.Spares.setContext (hp : s.Peopled) (c : Context) :
    s.Spares (s.setContext s.threadId c) := by
  refine .of_own hp rfl (s.setContext_processId c) fun t hne => ?_
  rw [Model.setContext, Model.setThread_threads, if_neg hne]

theorem Model.Spares.called (hp : s.Peopled) (a : ModelAction) (ret : Ret) :
    s.Spares (s.called a ret) := by
  refine .of_own hp rfl ?_ fun t hne => ?_
  · rw [s.called_threads, if_pos rfl]
    rfl
  · rw [s.called_threads, if_neg hne]

theorem Model.Spares.backAt (hp : s.Peopled) (c : Context) : s.Spares (s.backAt c) := by
  refine .of_own hp rfl ?_ fun t hne => ?_
  · rw [s.backAt_threads, if_pos rfl]
    rfl
  · rw [s.backAt_threads, if_neg hne]

theorem Model.Spares.waits (hp : s.Peopled) (a : ModelAction) (ret : Ret) :
    s.Spares (s.waits a ret) := by
  refine .of_own hp rfl ?_ fun t hne => ?_
  · rw [s.waits_threads, if_pos rfl]
    rfl
  · rw [s.waits_threads, if_neg hne]

theorem Model.Spares.wakeAll (hp : s.Peopled) (v : WaitTarget → Bool) :
    s.Spares (s.wakeAllThreadsWaitingOn v) := by
  have hwoken : ∀ t, (s.threads t).Rests ((s.wakeAllThreadsWaitingOn v).threads t) := by
    intro t
    rcases s.wakeAll_threads v t with heq | ⟨hblocked, heq⟩ <;> rw [heq]
    · exact .refl _
    · exact .wake hblocked
  exact .of_rests hp rfl (hwoken s.threadId).processId fun t _ => hwoken t

theorem Model.Spares.released (hp : s.Peopled) (m : MutexId) : s.Spares (s.released m) := by
  refine .of_rests hp rfl ?_ fun t hne => ?_
  · rw [s.released_threads]
    split
    · rfl
    · rw [if_pos rfl]
      rfl
  · rw [s.released_threads]
    simp only [if_neg hne]
    split
    · next hwoken => exact .wake (Thread.blocked_of_any hwoken.2)
    · exact .refl _

theorem Model.Spares.finishes (hp : s.Peopled) (v : Nat) : s.Spares (s.finishes v) := by
  refine .of_rests hp rfl ?_ fun t hne => ?_
  · rw [s.finishes_threads, if_pos rfl]
    rfl
  · rw [s.finishes_threads, if_neg hne]
    split
    · next hwoken => exact .wake (Thread.blocked_of_any hwoken.2)
    · exact .refl _

theorem Model.Spares.works (hp : s.Peopled) (h : s.Works s') : s.Spares s' := by
  refine .of_own hp (by rw [h.scheduler]) ?_ fun t _ => by rw [h.threads]
  rw [h.threads]
  rfl

theorem Model.Spares.newThread (hp : s.Peopled) : s.Spares s.newThread := by
  refine ⟨Nat.le_succ _, ?_, ?_, ?_⟩
  · intro t _ ht
    rw [s.newThread_threads, if_neg (Nat.ne_of_lt ht)]
    exact .refl _
  · have hne : s.threadId ≠ s.threadCount := Nat.ne_of_lt hp.active
    rw [s.newThread_threads, if_neg hne]
    rfl
  · intro t ht
    rw [s.newThread_threads]
    split
    · rfl
    · exact hp.running_of_le ht

theorem Acts.spares (h : Acts a s s₁) (hp : s.Peopled) : s.Spares s₁ := by
  cases h with
  | work _ h => exact .works hp h
  | idle _ _ _ => exact .refl hp
  | create _ h => exact (Model.Spares.newThread hp).trans hp rfl (.works hp.newThread h)
  | acquire _ _ _ =>
      refine .of_own hp rfl ?_ fun t hne => ?_
      · rw [s.acquired_threads, if_pos rfl]
        rfl
      · rw [s.acquired_threads, if_neg hne]
  | relock _ _ _ => exact .of_own hp rfl rfl fun _ _ => rfl
  | unlockOnce _ _ _ _ _ => exact .of_own hp rfl rfl fun _ _ => rfl
  | unlock m _ _ _ => exact .released hp m
  | notifyOne _ =>
      have hcount : (s.wakeThreadWaitingOn (.cond a.location)).threadCount = s.threadCount :=
        congrArg (·.threadCount) (s.wakeThreadWaitingOn_eq _)
      have hwoken : ∀ u, (s.threads u).Rests ((s.wakeThreadWaitingOn (.cond a.location)).threads u) := by
        intro u
        rcases s.wakeOne_threads (.cond a.location) u with heq | ⟨hblocked, heq⟩ <;> rw [heq]
        · exact .refl _
        · exact .wake hblocked
      exact .of_rests hp hcount (hwoken s.threadId).processId fun u _ => hwoken u
  | notifyAll _ => exact .wakeAll hp _

theorem Waits.spares (h : Waits a s s₁) (hp : s.Peopled) : s.Spares s₁ ∧ s₁.Peopled ∧
    s₁.threadId = s.threadId := by
  cases h with
  | stays _ _ => exact ⟨.refl hp, hp, rfl⟩
  | gives _ =>
      exact ⟨.released hp _, hp.released _, rfl⟩

theorem Calls.spares {r : Except Stop Event} (h : Calls a ret s r s') (hp : s.Peopled) :
    s.Spares s' := by
  have hcalled := Model.Spares.called hp a ret
  cases h with
  | stays => exact hcalled
  | yields h => exact hcalled.yields h

/-! ### The end of a process -/

theorem Model.LeavesOthers.processId (h : s.LeavesOthers s') : s'.processId = s.processId := by
  have hself := h.self
  rw [Model.threadId, Model.threadId] at hself
  rw [Model.processId, Model.processId, hself]
  exact h.process _

theorem Model.LeavesOthers.of_scheduler (h : s'.toScheduler = s.toScheduler) :
    s.LeavesOthers s' := by
  refine ⟨by rw [h], by rw [Model.threadId, Model.threadId, h], fun t => by rw [h],
    fun t => by rw [h], fun t _ => ?_⟩
  rw [h]
  exact .refl _

theorem Model.LeavesOthers.trans {s'' : Model} (h : s.LeavesOthers s') (h' : s'.LeavesOthers s'') :
    s.LeavesOthers s'' := by
  refine ⟨h'.count.trans h.count, h'.self.trans h.self,
    fun t => (h'.process t).trans (h.process t), fun t => (h'.owned t).trans (h.owned t),
    fun t ht => ?_⟩
  refine (h.others t ht).trans (h'.others t ?_)
  rw [h.process, h.processId]
  exact ht

theorem Model.LeavesOthers.setContext (s : Model) (c : Context) :
    s.LeavesOthers (s.setContext s.threadId c) := by
  have hthreads : ∀ t, (s.threads t).Rests ((s.setContext s.threadId c).threads t) := by
    intro t
    rw [Model.setContext, Model.setThread_threads]
    split
    · exact ⟨rfl, rfl, .inl rfl⟩
    · exact .refl _
  exact ⟨rfl, rfl, fun t => (hthreads t).processId, fun t => (hthreads t).ownedMutexes,
    fun t _ => hthreads t⟩

theorem Model.LeavesOthers.terminated (s : Model) (ts : List ThreadId) :
    s.LeavesOthers (s.terminated ts) := by
  refine ⟨rfl, rfl, fun t => ?_, fun t => ?_, fun t ht => ?_⟩
  · rw [s.terminated_threads]
    split <;> rfl
  · rw [s.terminated_threads]
    split <;> rfl
  · rw [s.terminated_threads, if_neg fun h => ht h.2.1]
    exact .refl _

theorem Thread.AfterCrash.rests {pid : ProcessId} {th th' : Thread} (h : th.AfterCrash pid th')
    (hpid : th.processId ≠ pid) : th.Rests th' := by
  cases h with
  | same => exact .refl _
  | woken hblocked => exact .wake hblocked
  | crashed heq _ => exact absurd heq hpid

theorem Thread.AfterCrash.processId {pid : ProcessId} {th th' : Thread} (h : th.AfterCrash pid th') :
    th'.processId = th.processId := by
  cases h <;> rfl

theorem Thread.AfterCrash.ownedMutexes {pid : ProcessId} {th th' : Thread}
    (h : th.AfterCrash pid th') : th'.ownedMutexes = th.ownedMutexes := by
  cases h <;> rfl

theorem Model.EndsOwn.processCrash (h : s.LeavesOthers s₁) : s.EndsOwn s₁.processCrash := by
  have hafter := s₁.processCrash_afterCrash
  refine ⟨s₁.processCrash_threadCount.trans h.count,
    fun t => (hafter t).processId.trans (h.process t),
    fun t => (hafter t).ownedMutexes.trans (h.owned t), fun t ht => ?_, fun t hlt ht => ?_⟩
  · have hpid : (s₁.threads t).processId ≠ s₁.processId := by
      rw [h.process, h.processId]
      exact ht
    exact (h.others t ht).trans ((hafter t).rests hpid)
  · apply s₁.processCrash_done (h.count ▸ hlt)
    rw [h.process, h.processId]
    exact ht

theorem Model.EndsOwn.gone (h : s.EndsOwn s') (hprocess : s'.processId = s.processId) :
    s.EndsOwn s'.gone := by
  refine ⟨h.count, fun t => ?_, fun t => ?_, fun t ht => ?_, fun t hlt ht => ?_⟩
  · rw [s'.gone_threads]
    split <;> exact h.process t
  · rw [s'.gone_threads]
    split <;> exact h.owned t
  · have hpid : (s'.threads t).processId ≠ s'.processId := by
      rw [h.process, hprocess]
      exact ht
    rw [s'.gone_threads, if_neg hpid]
    exact h.others t ht
  · have hdone := h.done t hlt ht
    rw [s'.gone_threads]
    split
    · simp [Thread.isCompleted] at hdone ⊢
      grind
    · exact hdone

/-- After `exit` the program's thread is done and the others of its process stay where they are. -/
theorem Model.Spares.gone (hp : s.Peopled) : s.Spares s.gone := by
  refine .of_rests hp rfl ?_ fun t hne => ?_
  · rw [s.gone_threads]
    split <;> rfl
  · rw [s.gone_threads]
    split
    · refine ⟨rfl, rfl, .inl ?_⟩
      exact if_neg fun h => hne h.1
    · exact .refl _

/-- The code before an `exit`. -/
theorem ThreadExit.fate (h : ThreadExit s s₁) (hp : s.Peopled) :
    s₁ = s ∨ s.EndsOwn s₁ ∧ s₁.processId = s.processId := by
  have hcrash : ∀ {x : Model}, s.LeavesOthers x →
      s.EndsOwn x.processCrash ∧ x.processCrash.processId = s.processId := by
    intro x hx
    refine ⟨.processCrash hx, ?_⟩
    have hself : x.processCrash.threadId = x.threadId := (Model.Idle.processCrash x).activeThread
    have hafter := (x.processCrash_afterCrash x.threadId).processId
    rw [← hx.processId, Model.processId, ← Model.threadId, hself, hafter]
    rfl
  have hdies : ∀ {x y : Model}, s.LeavesOthers x → x.Dies y →
      s.EndsOwn y ∧ y.processId = s.processId := by
    intro x y hx hdies
    rw [hdies.state]
    exact hcrash (hx.trans (.of_scheduler rfl))
  cases h with
  | quit _ => exact .inl rfl
  | late _ _ => exact .inr (hcrash (.of_scheduler rfl))
  | lateBack _ _ => exact .inr (hcrash (.setContext s _))
  | @died s₀ s₂ _ h hworks hd =>
      have hfirst : s.LeavesOthers s₀ := by
        rcases h with rfl | ⟨mem, n, v, ret, _, rfl⟩
        · exact .of_scheduler rfl
        · exact .setContext s _
      exact .inr (hdies (hfirst.trans (.of_scheduler hworks.scheduler)) hd)
  | @shutdown s₂ _ hworks =>
      have hleaves : s.LeavesOthers (s₂.terminated (List.range s₂.threadCount)) :=
        (Model.LeavesOthers.of_scheduler hworks.scheduler).trans (.terminated s₂ _)
      refine .inr ⟨⟨hleaves.count, hleaves.process, hleaves.owned, hleaves.others,
        fun t hlt ht => ?_⟩, hleaves.processId⟩
      show ((s₂.terminated (List.range s₂.threadCount)).threads t).isCompleted = true
      rw [s₂.terminated_threads, hworks.threads, hworks.processId]
      split
      · rfl
      · next hnot =>
          by_contra hgoes
          refine hnot ⟨List.mem_range.mpr ?_, ht, Bool.eq_false_iff.mpr hgoes⟩
          rw [hworks.scheduler]
          exact hlt
  | @shutdownDied s₂ _ ts _ hworks _ hd =>
      exact .inr (hdies ((Model.LeavesOthers.of_scheduler hworks.scheduler).trans
        (.terminated s₂ ts)) hd)

/-- What a step does to the other threads: they rest, unless the step ends its process. -/
theorem ThreadCase.fate {r : Except Stop Event} (h : ThreadCase s r s') (hrun : s.Runs)
    (hp : s.Peopled) : s.Spares s' ∨ s.EndsOwn s' := by
  have hback : ∀ {b : ModelAction} {x : Model} {c : Context}, Acts b s x → s.Spares (x.backAt c) := by
    intro b x c hacts
    have hx : x.Peopled := (hacts.moves hrun).peopled hp
    exact (hacts.spares hp).trans hp hacts.threadId_eq (.backAt hx c)
  have hset : ∀ c, (s.setContext s.threadId c).Peopled := fun c => hp.setThread hp.active rfl
  cases h with
  | called _ _ _ h => exact .inl (h.spares hp)
  | secondHalf _ _ _ h => exact .inl (h.spares hp)
  | lockAgain _ _ h => exact .inl (h.spares hp)
  | executed _ _ hacts => exact .inl (hback hacts)
  | resumed _ _ hacts => exact .inl (hback hacts)
  | @blocked a ret _ s₁ _ hctx hwaits h =>
      obtain ⟨hspares, hp₁, hself⟩ := hwaits.spares hp
      exact .inl ((hspares.trans hp hself (.waits hp₁ a ret)).yields h)
  | @finished _ _ v b _ _ _ h =>
      have hfinish := Model.Spares.finishes hp v
      refine .inl ?_
      cases h with
      | next _ => exact hfinish.passed _
      | last _ => exact hfinish
      | stuck _ => exact hfinish
  | relocks => exact .inl (.refl hp)
  | popped _ h => exact .inl ((Model.Spares.setContext hp _).trans hp rfl (.works (hset _) h))
  | returned _ _ h => exact .inl ((Model.Spares.setContext hp _).trans hp rfl (.works (hset _) h))
  | noAction _ h => exact .inl (.works hp h)
  | userDone _ h => exact .inl ((Model.Spares.setContext hp _).yields h)
  | exited hexit _ =>
      rcases hexit.fate hp with rfl | ⟨hends, hprocess⟩
      · exact .inl ((Model.Spares.gone hp).passed _)
      · have h := hends.gone hprocess
        exact .inr ⟨h.count, h.process, h.owned, h.others, h.done⟩
  | exitStuck hexit _ =>
      rcases hexit.fate hp with rfl | ⟨hends, hprocess⟩
      · exact .inl (.gone hp)
      · exact .inr (hends.gone hprocess)

end

/-! ## Crashes that are noticed -/

namespace Model

/-- The crash of a process does not go unnoticed because of this step. -/
structure Notices (s s' : Model) : Prop where
  /-- A process that is put in `crashes` while a thread of it is blocked has one that can run. -/
  crash : ∀ pid, s.isCrashed pid = false → s'.isCrashed pid = true →
    ∀ t, (s.threads t).processId = pid → (s.threads t).state = .blocked →
    ∃ u, (s.threads u).processId = pid ∧ (s.threads u).state = .running
  /-- A thread that stops though its process is in `crashes` leaves one that can run, or none that is
  blocked. -/
  stop : s'.isCrashed s.processId = true → (s'.threads s.threadId).state ≠ .running →
    ∀ t, (s'.threads t).processId = s.processId → (s'.threads t).state = .blocked →
    ∃ u, u ≠ s.threadId ∧ (s.threads u).processId = s.processId ∧ (s.threads u).state = .running
  /-- A thread of a process in `crashes` that has completed owns no mutex when the second of the two
  happens. -/
  owner : ∀ t, s'.isCrashed (s'.threads t).processId = true → (s'.threads t).state = .completed →
    ¬ (s.isCrashed (s.threads t).processId = true ∧ (s.threads t).state = .completed) →
    (s'.threads t).ownedMutexes = ∅

/-- A process in `crashes` that has a blocked thread has one that will notice, and its completed
threads own nothing. -/
structure Attended (s : Model) : Prop where
  waiters : ∀ t, s.isCrashed (s.threads t).processId = true → (s.threads t).state = .blocked →
    ∃ u, (s.threads u).processId = (s.threads t).processId ∧ (s.threads u).state = .running
  owners : ∀ t, s.isCrashed (s.threads t).processId = true → (s.threads t).state = .completed →
    (s.threads t).ownedMutexes = ∅

end Model

section

variable {s s' : Model}

theorem Thread.Rests.blocked {th th' : Thread} (h : th.Rests th') (hblocked : th'.state = .blocked) :
    th.state = .blocked := by
  have hstate := h.state
  grind

theorem Thread.Rests.running {th th' : Thread} (h : th.Rests th') (hrunning : th.state = .running) :
    th'.state = .running := by
  have hstate := h.state
  grind

/-- A thread of a process that has threads is one of them. -/
theorem Model.Peopled.lt_of_same (hp : s.Peopled) {t u : ThreadId} (ht : t < s.threadCount)
    (hu : (s.threads u).processId = (s.threads t).processId) : u < s.threadCount := by
  by_contra hle
  have hlt := hp.process t ht
  rw [← hu, hp.fresh u (Nat.le_of_not_lt hle)] at hlt
  exact hle (Nat.lt_of_lt_of_le hlt hp.mains)

/-- Who was blocked in a process that has crashed has somebody beside it who can run. -/
theorem Model.Attended.beside (hs : s.Attended) (hn : s.Notices s') (hp : s.Peopled) {t : ThreadId}
    (ht : t < s.threadCount) (hblocked : (s.threads t).state = .blocked)
    (hcrashed : s'.isCrashed (s.threads t).processId = true) :
    ∃ u, u < s.threadCount ∧ (s.threads u).processId = (s.threads t).processId ∧
      (s.threads u).state = .running := by
  have hbeside : ∃ u, (s.threads u).processId = (s.threads t).processId ∧
      (s.threads u).state = .running := by
    cases hbefore : s.isCrashed (s.threads t).processId with
    | true => exact hs.waiters t hbefore hblocked
    | false => exact hn.crash _ hbefore hcrashed t rfl hblocked
  obtain ⟨u, hu, hrunning⟩ := hbeside
  exact ⟨u, hp.lt_of_same ht hu, hu, hrunning⟩

/-- A step that spares the other threads leaves somebody beside a blocked thread of a crashed process. -/
theorem Model.Spares.waiters (h : s.Spares s') (hp : s.Peopled) (hs : s.Attended) (hn : s.Notices s')
    {t : ThreadId} (hcrashed : s'.isCrashed (s'.threads t).processId = true)
    (hblocked : (s'.threads t).state = .blocked) :
    ∃ u, (s'.threads u).processId = (s'.threads t).processId ∧ (s'.threads u).state = .running := by
  have hlt : t < s.threadCount := by
    by_contra hle
    rw [h.created t (Nat.le_of_not_lt hle)] at hblocked
    cases hblocked
  have hprocess : (s'.threads t).processId = (s.threads t).processId := by
    by_cases ht : t = s.threadId
    · rw [ht]
      exact h.own
    · exact (h.others t ht hlt).processId
  by_cases hown : (s.threads t).processId = s.processId
  · -- a blocked thread of the process that makes the step
    by_cases hgoes : (s'.threads s.threadId).state = .running
    · exact ⟨s.threadId, by rw [h.own, hprocess, hown], hgoes⟩
    · obtain ⟨u, hne, hu, hrunning⟩ := hn.stop (by rw [← hown, ← hprocess]; exact hcrashed)
        hgoes t (hprocess.trans hown) hblocked
      have hrests := h.others u hne (hp.lt_of_processId hu)
      refine ⟨u, ?_, hrests.running hrunning⟩
      rw [hrests.processId, hu, hprocess, hown]
  · -- a thread of another process: it was blocked before, and who attends it stays
    have ht : t ≠ s.threadId := fun ht => hown (by rw [ht]; rfl)
    have hold := (h.others t ht hlt).blocked hblocked
    obtain ⟨u, hult, hu, hrunning⟩ := hs.beside hn hp hlt hold (hprocess ▸ hcrashed)
    have hne : u ≠ s.threadId := by
      intro heq
      apply hown
      rw [← hu, heq]
      rfl
    have hrests := h.others u hne hult
    refine ⟨u, ?_, hrests.running hrunning⟩
    rw [hrests.processId, hu, hprocess]

/-- A thread that was completed before a step that spares the others keeps its mutexes. -/
theorem Model.Spares.ownedMutexes_completed (h : s.Spares s') (hrun : s.Runs) (hp : s.Peopled) {t : ThreadId}
    (hdone : (s.threads t).state = .completed) : (s'.threads t).ownedMutexes = (s.threads t).ownedMutexes := by
  have hself : (s.threads s.threadId).state = .running := hrun
  have ht : t ≠ s.threadId := by
    intro heq
    rw [heq, hself] at hdone
    cases hdone
  have hlt : t < s.threadCount := by
    by_contra hle
    rw [hp.running_of_le (Nat.le_of_not_lt hle)] at hdone
    cases hdone
  exact (h.others t ht hlt).ownedMutexes

/-- A step that ends its process leaves somebody beside a blocked thread of another crashed process. -/
theorem Model.EndsOwn.waiters (h : s.EndsOwn s') (hp : s.Peopled) (hp' : s'.Peopled) (hs : s.Attended)
    (hn : s.Notices s') {t : ThreadId} (hcrashed : s'.isCrashed (s'.threads t).processId = true)
    (hblocked : (s'.threads t).state = .blocked) :
    ∃ u, (s'.threads u).processId = (s'.threads t).processId ∧ (s'.threads u).state = .running := by
  have hlt : t < s.threadCount := by
    rw [← h.count]
    exact hp'.lt_of_blocked hblocked
  have hprocess := h.process t
  have hown : (s.threads t).processId ≠ s.processId := by
    intro hown
    have hdone := h.done t hlt hown
    rw [Thread.isCompleted, hblocked] at hdone
    cases hdone
  have hold := (h.others t hown).blocked hblocked
  obtain ⟨u, hult, hu, hrunning⟩ := hs.beside hn hp hlt hold (hprocess ▸ hcrashed)
  have hrests := h.others u (hu ▸ hown)
  refine ⟨u, ?_, hrests.running hrunning⟩
  rw [hrests.processId, hu, hprocess]

theorem ThreadCase.attended {r : Except Stop Event} (h : ThreadCase s r s') (hrun : s.Runs)
    (hp : s.Peopled) (hs : s.Attended) (hn : s.Notices s') : s'.Attended := by
  -- who was completed before the step owned nothing, and still does
  have howners : (∀ t, (s.threads t).state = .completed →
      (s'.threads t).ownedMutexes = (s.threads t).ownedMutexes) → ∀ t,
      s'.isCrashed (s'.threads t).processId = true → (s'.threads t).state = .completed →
      (s'.threads t).ownedMutexes = ∅ := by
    intro hkept t hcrashed hdone
    by_cases hbefore : s.isCrashed (s.threads t).processId = true ∧ (s.threads t).state = .completed
    · rw [hkept t hbefore.2]
      exact hs.owners t hbefore.1 hbefore.2
    · exact hn.owner t hcrashed hdone hbefore
  -- the step spares the others of its process, or ends the process
  rcases h.fate hrun hp with hspares | hends
  · exact ⟨fun t => hspares.waiters hp hs hn, howners fun t => hspares.ownedMutexes_completed hrun hp⟩
  · exact ⟨fun t => hends.waiters hp (h.peopled hrun hp) hs hn, howners fun t _ => by rw [hends.owned]⟩

/-! ## Deadlocks -/

theorem Model.Yields.stuck_of {α : Type} {x : α} {q : Except Stop α} {e : Stop} (h : s.Yields x q s')
    (hq : q = .error e) : s'.nextRunning = none := by
  cases h with
  | next _ => cases hq
  | alone h _ => exact h
  | stuck h _ => exact h

/-- Where `yield` or `last_yield` reports a `DEADLOCK`, no other thread can run. -/
theorem ThreadCase.stuck (h : ThreadCase s (.error .deadlock) s') (hrun : s.Runs) (hnot : ¬ s'.Runs) :
    s'.nextRunning = none := by
  have hcalls : ∀ {a : ModelAction} {ret : Ret}, Calls a ret s (.error .deadlock) s' →
      s'.nextRunning = none := by
    intro a ret h
    cases h with
    | yields h => exact h.stuck_of rfl
  generalize hr : (Except.error Stop.deadlock : Except Stop Event) = r at h
  cases h with
  | called _ _ _ h => exact hcalls (hr ▸ h)
  | secondHalf _ _ _ h => exact hcalls (hr ▸ h)
  | lockAgain _ _ h => exact hcalls (hr ▸ h)
  | executed _ _ _ => cases hr
  | resumed _ _ _ => cases hr
  | @blocked _ _ q _ _ _ _ h =>
      cases q with
      | error e => exact h.stuck_of rfl
      | ok _ => cases hr
  | finished _ _ h =>
      cases h with
      | next _ => cases hr
      | last _ => cases hr
      | stuck h => exact h
  | relocks => exact absurd hrun hnot
  | popped _ _ => cases hr
  | returned _ _ _ => cases hr
  | noAction _ _ => cases hr
  | userDone _ h => exact h.stuck_of hr.symm
  | exited _ _ => cases hr
  | exitStuck _ h => exact h

/-- In a `DEADLOCK` no thread can run. -/
theorem ThreadCase.nobody_runs (h : ThreadCase s (.error .deadlock) s') (hrun : s.Runs)
    (hp : s.Peopled) (hnot : ¬ s'.Runs) {t : ThreadId} (ht : t < s'.threadCount) :
    (s'.threads t).state ≠ .running := by
  have hp' := h.peopled hrun hp
  have hnone := h.stuck hrun hnot
  intro hrunning
  by_cases hself : t = s'.activeThread
  · rw [hself] at hrunning
    exact hnot hrunning
  · have hfind := List.find?_eq_none.mp hnone t ((s'.mem_otherThreads t hp'.active).mpr ⟨ht, hself⟩)
    simp [hrunning] at hfind

end

/-! ## Runs -/

section

variable {cfg : Config} {n cxlMapping : Nat} {memory : Nat → Nat} {mutexType : MutexId → MutexType}
  {tr : List (Model × Label)} {s s' : Model} {i : Input}

theorem Model.attended_init : (Model.init n cxlMapping memory mutexType).Attended := by
  constructor
  · intro t _ hblocked
    cases hblocked
  · intro t _ hdone
    cases hdone

/-- In every run whose steps let crashes be noticed, also the last one, a `DEADLOCK` that `yield` or
`last_yield` reports is not due to a crash: no blocked thread belongs to a process in `crashes`, and
no thread of a live process waits for a mutex of such a process. The running thread of such a report
cannot run itself; where `execute` finds that a thread locks its own mutex again, it can. -/
theorem deadlock_sound (hcfg : cfg.memPoison = false)
    (hrun : IsRun cfg n cxlMapping memory mutexType tr s)
    (hnotices : ∀ x ∈ stepsOf tr s, x.1.Notices x.2.2)
    (hstep : (step cfg i).Ends s (.error .deadlock) s') (hyield : ¬ s'.Runs)
    (hlast : s.Notices s') :
    (∀ t, (s'.threads t).state = .blocked → s'.isCrashed (s'.threads t).processId = false) ∧
    ∀ t a o, s'.isLive (s'.threads t).processId = true → (s'.threads t).state = .blocked →
      (s'.threads t).pending = some a → a.type = .atomicLock →
      (s'.mutexes a.location).owner = some o → s'.isCrashed (s'.threads o).processId = false := by
  obtain ⟨_, hs, hattended⟩ := hrun.threads hcfg (P := Model.Attended) Model.attended_init (by
    intro s l s₁ hmem hs hruns hattended hcase
    exact hcase.attended hruns hs.peopled hattended (hnotices _ hmem))
  obtain ⟨hruns, hcase⟩ := hs.threadCase hcfg hstep (.inr rfl)
  have hp' := hcase.peopled hruns hs.peopled
  have hlocks' := hcase.locks hruns hs.peopled hs.posted (hrun.locks hcfg)
  have hattended' := hcase.attended hruns hs.peopled hattended hlast
  have hnobody : ∀ t, t < s'.threadCount → (s'.threads t).state ≠ .running :=
    fun t ht => hcase.nobody_runs hruns hs.peopled hyield ht
  have hfirst : ∀ t, (s'.threads t).state = .blocked →
      s'.isCrashed (s'.threads t).processId = false := by
    intro t hblocked
    by_contra hcrashed
    obtain ⟨u, hu, hrunning⟩ := hattended'.waiters t (by simpa using hcrashed) hblocked
    exact hnobody u (hp'.lt_of_same (hp'.lt_of_blocked hblocked) hu) hrunning
  refine ⟨hfirst, ?_⟩
  intro t a o _ hblocked hpending htype howner
  obtain ⟨o', ho', halive⟩ := hlocks'.blocked t a hblocked hpending htype
  have hoo : o' = o := by
    rw [howner] at ho'
    exact (Option.some.inj ho').symm
  rw [hoo] at halive
  have howns := (hlocks'.owned o halive a.location).mpr howner
  have hlt : o < s'.threadCount := by
    by_contra hle
    rw [hp'.fresh o (Nat.le_of_not_lt hle)] at howns
    exact Finset.notMem_empty _ howns
  -- the owner cannot run, has not crashed and is not blocked, so it has completed
  by_contra hcrashed
  have hdone : (s'.threads o).state = .completed := by
    cases hstate : (s'.threads o).state with
    | running => exact absurd hstate (hnobody o hlt)
    | blocked => exact absurd (hfirst o hstate) hcrashed
    | completed => rfl
    | crashed => exact absurd hstate halive
  rw [hattended'.owners o (by simpa using hcrashed) hdone] at howns
  exact Finset.notMem_empty _ howns

end

/-- Process 1 holds mutex 0 and waits for mutex 1 of process 0, which reads a word that process 1 has
written, so that process 1 crashes, and then waits for mutex 0. -/
def deadlockAfterCrash : List (Input × List Nat) :=
  [({ call := .lock 1 }, []),
   ({ call := .store 4096 .w64 1 }, []), ({}, []), ({}, []),
   ({ call := .store 4096 .w64 2 }, []), ({}, []), ({}, []),
   ({ call := .store 4096 .w64 3 }, []), ({ rand := 1, random := 2 }, []), ({}, []), ({}, []),
   ({}, []),
   ({ call := .lock 0 }, []),
   ({}, []), ({}, []),
   ({ call := .schedYield }, []),
   ({}, []), ({}, []),
   ({ call := .lock 1 }, []),
   ({}, []), ({}, []),
   ({ call := .schedYield }, []),
   ({}, []),
   ({}, []), ({}, []),
   ({ call := .load 4096 .w64 }, []), ({}, [0, 1]), ({}, []),
   ({ call := .lock 0 }, [])]

/-- A replay after which a step ends in a `DEADLOCK` that passes a check. -/
theorem exists_deadlock_of_replay (s₀ : Model) (ins : List (Input × List Nat))
    (check : List (Model × Label) → Model → Model → Bool)
    (h : (replay .asBuilt s₀ ins).any (fun x =>
      match ((step .asBuilt {}) x.2).runWith [] with
      | some (.error .deadlock, s') => check x.1 x.2 s'
      | _ => false) = true) :
    ∃ tr s s', Run .asBuilt s₀ tr s ∧ (step .asBuilt {}).Ends s (.error .deadlock) s' ∧
      check tr s s' = true := by
  obtain ⟨tr, s, hrun, hcheck⟩ := exists_run_of_replay .asBuilt s₀ ins (fun tr s =>
    match ((step .asBuilt {}) s).runWith [] with
    | some (.error .deadlock, s') => check tr s s'
    | _ => false) h
  split at hcheck
  · next s' hstep => exact ⟨tr, s, s', hrun, ends_of_runWith [] hstep, hcheck⟩
  · cases hcheck

/-- The run of `deadlockAfterCrash` ends in a `DEADLOCK` of `yield` in which a thread of the crashed
process 1 is blocked and process 0 waits for its mutex. -/
theorem deadlock_unsound : ∃ tr s s' i a,
    IsRun .asBuilt 2 4096 (fun _ => 0) (fun _ => .default) tr s ∧
    (step .asBuilt i).Ends s (.error .deadlock) s' ∧ ¬ s'.Runs ∧
    (s'.threads 1).state = .blocked ∧ s'.isCrashed (s'.threads 1).processId = true ∧
    s'.isLive (s'.threads 0).processId = true ∧ (s'.threads 0).state = .blocked ∧
    (s'.threads 0).pending = some a ∧ a.type = .atomicLock ∧
    (s'.mutexes a.location).owner = some 1 := by
  obtain ⟨tr, s, s', hrun, hstep, hcheck⟩ := exists_deadlock_of_replay
    (Model.init 2 4096 (fun _ => 0) (fun _ => .default)) deadlockAfterCrash
    (fun _ _ s' =>
      decide (¬ s'.Runs ∧ (s'.threads 1).state = .blocked ∧ (s'.threads 0).state = .blocked) &&
      s'.isCrashed (s'.threads 1).processId && s'.isLive (s'.threads 0).processId &&
      (s'.threads 0).pending.any fun a : ModelAction =>
        decide (a.type = .atomicLock ∧ (s'.mutexes a.location).owner = some 1))
    (by decide +kernel)
  simp only [Bool.and_eq_true, decide_eq_true_eq, Option.any_eq_true] at hcheck
  obtain ⟨⟨⟨⟨hyield, hone, hzero⟩, hcrashed⟩, hlive⟩, a, hpending, htype, howner⟩ := hcheck
  exact ⟨tr, s, s', {}, a, ⟨by decide, hrun⟩, hstep, hyield, hone, hcrashed, hlive, hzero, hpending,
    htype, howner⟩

/-! ## A crash that is noticed -/

/-- `Notices`, looked at for the threads that there are. -/
def Model.NoticesBelow (s s' : Model) : Prop :=
  (∀ t, t < s.threadCount → s.isCrashed (s.threads t).processId = false →
    s'.isCrashed (s.threads t).processId = true → (s.threads t).state = .blocked →
    ∃ u, u < s.threadCount ∧ (s.threads u).processId = (s.threads t).processId ∧
      (s.threads u).state = .running) ∧
  (s'.isCrashed s.processId = true → (s'.threads s.threadId).state ≠ .running →
    ∀ t, t < s'.threadCount → (s'.threads t).processId = s.processId → (s'.threads t).state = .blocked →
    ∃ u, u < s.threadCount ∧ u ≠ s.threadId ∧ (s.threads u).processId = s.processId ∧
      (s.threads u).state = .running) ∧
  ∀ t, t < s'.threadCount → s'.isCrashed (s'.threads t).processId = true →
    (s'.threads t).state = .completed →
    ¬ (s.isCrashed (s.threads t).processId = true ∧ (s.threads t).state = .completed) →
    (s'.threads t).ownedMutexes = ∅

instance (s s' : Model) : Decidable (s.NoticesBelow s') :=
  @instDecidableAnd _ _ inferInstance (@instDecidableAnd _ _ inferInstance inferInstance)

theorem Model.NoticesBelow.notices {s s' : Model} (h : s.NoticesBelow s') (hp : s.Peopled)
    (hp' : s'.Peopled) : s.Notices s' := by
  obtain ⟨hcrash, hstop, howner⟩ := h
  constructor
  case crash =>
    rintro pid hbefore hafter t rfl hblocked
    obtain ⟨u, _, hu⟩ := hcrash t (hp.lt_of_blocked hblocked) hbefore hafter hblocked
    exact ⟨u, hu⟩
  case stop =>
    intro hcrashed hstops t hpid hblocked
    obtain ⟨u, _, hu⟩ := hstop hcrashed hstops t (hp'.lt_of_blocked hblocked) hpid hblocked
    exact ⟨u, hu⟩
  case owner =>
    intro t hcrashed hdone hnew
    have hlt : t < s'.threadCount := by
      by_contra hle
      rw [hp'.running_of_le (Nat.le_of_not_lt hle)] at hdone
      cases hdone
    exact howner t hlt hcrashed hdone hnew

/-- Process 0 waits for mutex 0 of process 1, which process 2 crashes by a read. The thread of process 1
notices it at its next call, and mutex 0 goes to process 0. Then processes 0 and 2 wait for each other. -/
def deadlockAfterHandOver : List (Input × List Nat) :=
  [({ call := .schedYield }, []),
   ({ call := .store 4096 .w64 1 }, []), ({}, []), ({}, []),
   ({ call := .store 4096 .w64 2 }, []), ({}, []), ({}, []),
   ({ call := .store 4096 .w64 3 }, []), ({ rand := 1, random := 2 }, []), ({}, []), ({}, []), ({}, []),
   ({ call := .lock 0 }, []),
   ({ call := .lock 1 }, []),
   ({}, []), ({}, []), ({ call := .schedYield }, []),
   ({}, []), ({}, []), ({ call := .schedYield }, []),
   ({}, []), ({}, []), ({ call := .schedYield }, []),
   ({}, []), ({}, []), ({ call := .lock 0 }, []),
   ({}, []), ({}, []), ({ call := .schedYield }, []),
   ({}, []), ({}, []), ({ call := .schedYield }, []),
   ({}, []),
   ({}, []), ({}, []), ({ call := .schedYield }, []),
   ({}, []), ({}, []), ({ call := .load 4096 .w64 }, []), ({}, [0, 1]), ({}, []),
   ({ call := .schedYield }, []),
   ({}, []), ({}, []), ({ call := .schedYield }, []),
   ({}, []), ({}, []), ({ call := .lock 0 }, []),
   ({}, []), ({}, []), ({ call := .lock 1 }, []),
   ({}, [])]

/-- `deadlock_sound` on the run of `deadlockAfterHandOver`: the thread of the crashed process is marked, and
both live processes are blocked in a lock of the other's mutex. -/
theorem deadlock_sound_handedOver : ∃ tr s s' i,
    IsRun .asBuilt 3 4096 (fun _ => 0) (fun _ => .default) tr s ∧
    (step .asBuilt i).Ends s (.error .deadlock) s' ∧ ¬ s'.Runs ∧
    (∃ x ∈ stepsOf tr s, x.1.isCrashed 1 = true ∧ (x.1.threads 0).state = .blocked ∧
      (x.1.mutexes 0).owner = some 1) ∧
    s'.isCrashed 1 = true ∧ (s'.threads 1).state = .crashed ∧
    (s'.threads 0).state = .blocked ∧ (s'.mutexes 0).owner = some 0 ∧
    (s'.threads 2).state = .blocked ∧ (s'.mutexes 1).owner = some 2 ∧
    (∀ t, (s'.threads t).state = .blocked → s'.isCrashed (s'.threads t).processId = false) ∧
    ∀ t a o, s'.isLive (s'.threads t).processId = true → (s'.threads t).state = .blocked →
      (s'.threads t).pending = some a → a.type = .atomicLock →
      (s'.mutexes a.location).owner = some o → s'.isCrashed (s'.threads o).processId = false := by
  obtain ⟨tr, s, s', hrun, hstep, hcheck⟩ := exists_deadlock_of_replay
    (Model.init 3 4096 (fun _ => 0) (fun _ => .default)) deadlockAfterHandOver
    (fun tr s s' =>
      decide (¬ s'.Runs ∧ s.NoticesBelow s') &&
      (stepsOf tr s).all (fun x => decide (x.1.NoticesBelow x.2.2)) &&
      (stepsOf tr s).any (fun x => decide (x.1.isCrashed 1 = true ∧ (x.1.threads 0).state = .blocked ∧
        (x.1.mutexes 0).owner = some 1)) &&
      decide (s'.isCrashed 1 = true ∧ (s'.threads 1).state = .crashed ∧
        (s'.threads 0).state = .blocked ∧ (s'.mutexes 0).owner = some 0 ∧
        (s'.threads 2).state = .blocked ∧ (s'.mutexes 1).owner = some 2))
    (by decide +kernel)
  simp only [Bool.and_eq_true, decide_eq_true_eq, List.all_eq_true, List.any_eq_true] at hcheck
  obtain ⟨⟨⟨⟨hyield, hlast⟩, hall⟩, hwaits⟩, hcrashed, hmarked, hzero, howner₀, htwo, howner₁⟩ := hcheck
  have hrun' : IsRun .asBuilt 3 4096 (fun _ => 0) (fun _ => .default) tr s := ⟨by decide, hrun⟩
  obtain ⟨hsteps, hs, _⟩ := hrun'.threads rfl (P := fun _ => True) trivial fun _ _ _ _ _ _ _ _ => trivial
  have hnotices : ∀ x ∈ stepsOf tr s, x.1.Notices x.2.2 := by
    intro x hx
    obtain ⟨hunderway, _, _, hruns, hcase⟩ := hsteps x hx
    exact (hall x hx).notices hunderway.peopled (hcase.peopled hruns hunderway.peopled)
  obtain ⟨hruns, hcase⟩ := hs.threadCase rfl hstep (.inr rfl)
  have hlast' := hlast.notices hs.peopled (hcase.peopled hruns hs.peopled)
  have hsound := deadlock_sound rfl hrun' hnotices hstep hyield hlast'
  exact ⟨tr, s, s', {}, hrun', hstep, hyield, hwaits, hcrashed, hmarked, hzero, howner₀, htwo, howner₁, hsound⟩

end Cxlmc
