import Cxlmc.Threads.Deadlock

/-!
# Condition variables

A thread waits on a condition variable as a blocked thread whose action is an `ATOMIC_WAIT`. In a run
without crashes nothing but a notify on that variable wakes it (`ThreadCase.waitsOn`); a notify_one wakes one
thread that waits on it (`ThreadCase.notifyOne`), a notify_all every one (`ThreadCase.notifyAll`).
-/

namespace Cxlmc

open Stateful

/-! ## Waiting -/

/-- The thread waits on `c`. -/
def Model.WaitsOn (s : Model) (t : ThreadId) (c : CondId) : Prop :=
  (s.threads t).waitingOn = some (.cond c)

instance (s : Model) (t : ThreadId) (c : CondId) : Decidable (s.WaitsOn t c) :=
  inferInstanceAs (Decidable (_ = _))

/-- The step is a notify on `c`. -/
def Event.Notifies (c : CondId) (e : Event) : Prop :=
  ∃ a v rf, e = .executed a v rf ∧ (a.type = .atomicNotifyOne ∨ a.type = .atomicNotifyAll) ∧
    a.location = c

section

variable {s s' s₁ : Model} {a : ModelAction} {ret : Ret} {α : Type} {x : α} {t : ThreadId} {c : CondId}

theorem Model.WaitsOn.blocked (h : s.WaitsOn t c) : (s.threads t).state = .blocked :=
  Thread.waitingOn_blocked h

theorem Model.WaitsOn.ne_self (h : s.WaitsOn t c) (hrun : s.Runs) : t ≠ s.threadId := by
  rintro rfl
  have hblocked := h.blocked
  rw [hrun] at hblocked
  cases hblocked

theorem Model.WaitsOn.of_eq (h : s.WaitsOn t c) (hstate : (s'.threads t).state = (s.threads t).state)
    (hpending : (s'.threads t).pending = (s.threads t).pending) : s'.WaitsOn t c := by
  unfold Model.WaitsOn Thread.waitingOn at *
  rw [hstate, hpending]
  exact h

theorem Model.WaitsOn.of_thread (h : s.WaitsOn t c) (hthread : s'.threads t = s.threads t) :
    s'.WaitsOn t c := h.of_eq (by rw [hthread]) (by rw [hthread])

/-- Who is woken by what it waits on. -/
theorem Model.WaitsOn.wakeAll (h : s.WaitsOn t c) {v : WaitTarget → Bool} (hv : v (.cond c) = false) :
    (s.wakeAllThreadsWaitingOn v).WaitsOn t c := by
  apply h.of_thread
  rw [Model.wakeAllThreadsWaitingOn_threads, if_neg]
  rintro ⟨_, hany⟩
  rw [h, Option.any_some, hv] at hany
  cases hany

theorem Model.WaitsOn.released (h : s.WaitsOn t c) (hne : t ≠ s.threadId) (m : MutexId) :
    (s.released m).WaitsOn t c := by
  apply h.of_thread
  rw [s.released_threads, if_neg, if_neg hne]
  rintro ⟨_, hany⟩
  rw [h] at hany
  simp at hany

theorem Model.WaitsOn.called (h : s.WaitsOn t c) (hne : t ≠ s.threadId) :
    (s.called a ret).WaitsOn t c := by
  apply h.of_thread
  rw [s.called_threads, if_neg hne]

theorem Model.WaitsOn.setContext (h : s.WaitsOn t c) (u : ThreadId) (ctx : Context) :
    (s.setContext u ctx).WaitsOn t c := by
  refine h.of_eq ?_ ?_ <;> rw [Model.setContext, Model.setThread_threads] <;> split <;> rfl

theorem Model.WaitsOn.gone (h : s.WaitsOn t c) (hne : t ≠ s.threadId) : s.gone.WaitsOn t c := by
  refine h.of_eq ?_ ?_
  · rw [s.gone_threads]
    split
    · exact if_neg fun h => hne h.1
    · rfl
  · rw [s.gone_threads]
    split <;> rfl

theorem Model.gone_completed (h : (s.threads t).state = .completed) :
    (s.gone.threads t).state = .completed := by
  rw [s.gone_threads]
  split
  · dsimp only
    split
    · rfl
    · exact h
  · exact h

theorem Calls.waitsOn {r : Except Stop Event} (h : Calls a ret s r s') (hne : t ≠ s.threadId)
    (ht : s.WaitsOn t c) : s'.WaitsOn t c := by
  cases h with
  | stays => exact ht.called hne
  | yields h =>
      have hcalled : (s.called a ret).WaitsOn t c := ht.called hne
      apply hcalled.of_thread
      rw [h.threads_eq]

/-- An action leaves those that wait on a condition variable alone, or it is a notify on it. -/
theorem Acts.waitsOn (h : Acts a s s₁) (hp : s.Peopled) (hne : t ≠ s.threadId) (ht : s.WaitsOn t c) :
    s₁.WaitsOn t c ∨ (s₁.threads t).state = .running ∧
      (a.type = .atomicNotifyOne ∨ a.type = .atomicNotifyAll) ∧ a.location = c := by
  have hlt := hp.lt_of_blocked ht.blocked
  cases h with
  | work _ h =>
      refine .inl (ht.of_thread ?_)
      rw [h.threads]
  | idle _ _ _ => exact .inl ht
  | create _ h =>
      refine .inl (ht.of_thread ?_)
      rw [h.threads, s.newThread_threads, if_neg (Nat.ne_of_lt hlt)]
  | acquire _ _ _ =>
      refine .inl (ht.of_thread ?_)
      rw [s.acquired_threads, if_neg hne]
  | relock _ _ _ => exact .inl (ht.of_thread rfl)
  | unlockOnce _ _ _ _ _ => exact .inl (ht.of_thread rfl)
  | unlock m _ _ _ => exact .inl (ht.released hne m)
  | notifyOne htype =>
      rcases s.wakeThreadWaitingOn_cases (.cond a.location) with ⟨heq, _⟩ | ⟨u, _, hwaits, heq⟩ <;>
        rw [heq]
      · exact .inl ht
      · by_cases hu : t = u
        · rw [← hu, ht] at hwaits
          have hloc : c = a.location := by
            cases hwaits
            rfl
          refine .inr ⟨?_, .inl htype, hloc.symm⟩
          rw [Model.setState, Model.setThread_threads, if_pos hu]
        · refine .inl (ht.of_thread ?_)
          rw [Model.setState, Model.setThread_threads, if_neg hu]
  | notifyAll htype =>
      by_cases hloc : a.location = c
      · refine .inr ⟨?_, .inr htype, hloc⟩
        rw [Model.wakeAllThreadsWaitingOn_threads, if_pos]
        rw [ht, hloc]
        exact ⟨hlt, by simp⟩
      · refine .inl (ht.wakeAll ?_)
        have hother : ¬ c = a.location := fun h => hloc h.symm
        simp [hother]

theorem Waits.waitsOn (h : Waits a s s₁) (hne : t ≠ s.threadId) (ht : s.WaitsOn t c) :
    s₁.WaitsOn t c := by
  cases h with
  | stays _ _ => exact ht
  | gives _ => exact ht.released hne _

/-! ### Steps without crashes -/

/-- Where nobody crashes, a process ends in `process_shutdown` or through the `exit` of the program. -/
theorem ThreadExit.of_noCrash (h : ThreadExit s s₁) (hbefore : s.crashes = ∅) (hafter : s₁.crashes = ∅) :
    s₁ = s ∧ s.contextOf s.threadId = .user ∨ s.contextOf s.threadId = .shutdown ∧
      ∃ s₂, s.Works s₂ ∧ s₁ = { s₂.terminated (List.range s₂.threadCount) with
        completedProcs := insert s₂.processId s₂.completedProcs } := by
  have hlive : s.isCrashed s.processId = false := by
    simp [Model.isCrashed, hbefore]
  have hdies : ∀ {x : Model}, ¬ x.Dies s₁ := by
    intro x hdies
    have hcrashes := (x.crash x.processId).processCrash_sameStatus.crashes
    rw [← hdies.state, hafter] at hcrashes
    exact Model.emplace_ne_empty _ _ _ hcrashes.symm
  cases h with
  | quit hctx => exact .inl ⟨rfl, hctx⟩
  | late _ hcrashed =>
      rw [hlive] at hcrashed
      cases hcrashed
  | lateBack _ hcrashed =>
      rw [hlive] at hcrashed
      cases hcrashed
  | died _ _ hd => exact absurd hd hdies
  | shutdown hctx hworks => exact .inr ⟨hctx, _, hworks, rfl⟩
  | shutdownDied _ _ _ _ hd => exact absurd hd hdies

/-- A shutdown ends the threads of its process, and no others. -/
theorem Model.WaitsOn.shutdown {s₂ : Model} (ht : s.WaitsOn t c) (hne : t ≠ s.threadId) (hp : s.Peopled)
    (hw : s.Works s₂) :
    Model.WaitsOn (Model.gone { s₂.terminated (List.range s₂.threadCount) with
      completedProcs := insert s₂.processId s₂.completedProcs }) t c ∨
    ((Model.gone { s₂.terminated (List.range s₂.threadCount) with
      completedProcs := insert s₂.processId s₂.completedProcs }).threads t).state = .completed ∧
      (s.threads t).processId = s.processId := by
  have hlt := hp.lt_of_blocked ht.blocked
  have hcount : s₂.threadCount = s.threadCount := by rw [hw.scheduler]
  have hthread := s₂.terminated_threads t (List.range s₂.threadCount)
  rw [hw.threads, hw.processId, hcount] at hthread
  by_cases hown : (s.threads t).processId = s.processId
  · have hdone : ((s₂.terminated (List.range s₂.threadCount)).threads t).state = .completed := by
      have hgoes : (s.threads t).isCompleted = false := by
        rw [Thread.isCompleted, ht.blocked]
        rfl
      rw [hcount, hthread, if_pos ⟨List.mem_range.mpr hlt, hown, hgoes⟩]
    exact .inr ⟨Model.gone_completed hdone, hown⟩
  · refine .inl (Model.WaitsOn.gone (ht.of_thread ?_) ?_)
    · show (s₂.terminated (List.range s₂.threadCount)).threads t = _
      rw [hcount, hthread, if_neg fun h => hown h.2.1]
    · show t ≠ s₂.threadId
      rw [hw.threadId]
      exact hne

/-- In a step without crashes a thread that waits on a condition variable goes on to wait, or it is
woken by a notify on the variable, or its process shuts down. -/
theorem ThreadCase.waitsOn {e : Event} (h : ThreadCase s (.ok e) s') (hrun : s.Runs) (hp : s.Peopled)
    (hbefore : s.crashes = ∅) (hafter : s'.crashes = ∅) (ht : s.WaitsOn t c) :
    s'.WaitsOn t c ∨ (s'.threads t).state = .running ∧ e.Notifies c ∨
      (s'.threads t).state = .completed ∧ s.contextOf s.threadId = .shutdown ∧ e = .exited ∧
        (s.threads t).processId = s.processId := by
  have hne := ht.ne_self hrun
  have hacts : ∀ {b : ModelAction} {y : Model} {ctx : Context} {v : Nat} {rf : Slots},
      Acts b s y → (y.backAt ctx).WaitsOn t c ∨
        ((y.backAt ctx).threads t).state = .running ∧ (Event.executed b v rf).Notifies c := by
    intro b y ctx v rf hacts
    have hself : t ≠ y.threadId := hacts.threadId_eq ▸ hne
    rcases hacts.waitsOn hp hne ht with hwaits | ⟨hrunning, htype, hloc⟩
    · refine .inl (hwaits.of_thread ?_)
      rw [y.backAt_threads, if_neg hself]
    · refine .inr ⟨?_, b, v, rf, rfl, htype, hloc⟩
      rw [y.backAt_threads, if_neg hself]
      exact hrunning
  have hworks : ∀ {y z : Model}, y.WaitsOn t c → y.Works z → z.WaitsOn t c := by
    intro y z hy h
    exact hy.of_thread (by rw [h.threads])
  -- only an execution can notify, and only the shutdown completes another thread
  generalize hr : (Except.ok e : Except Stop Event) = r at h
  cases h with
  | called _ _ _ h => exact .inl (h.waitsOn hne ht)
  | secondHalf _ _ _ h => exact .inl (h.waitsOn hne ht)
  | lockAgain _ _ h => exact .inl (h.waitsOn hne ht)
  | executed _ _ h =>
      cases hr
      rcases hacts h with h | h
      · exact .inl h
      · exact .inr (.inl h)
  | resumed _ _ h =>
      cases hr
      rcases hacts h with h | h
      · exact .inl h
      · exact .inr (.inl h)
  | @blocked b ret' q y _ _ hwaits h =>
      have hself : y.threadId = s.threadId := by
        cases hwaits <;> rfl
      have hy := hwaits.waitsOn hne ht
      have hwaiting : (y.waits b ret').WaitsOn t c := by
        apply hy.of_thread
        rw [y.waits_threads, if_neg (hself ▸ hne)]
      exact .inl (hwaiting.of_thread (by rw [h.threads_eq]))
  | @finished _ _ v _ _ _ _ h =>
      have hfinish : (s.finishes v).WaitsOn t c := by
        apply ht.of_thread
        rw [s.finishes_threads, if_neg hne, if_neg]
        rintro ⟨_, hany⟩
        rw [ht] at hany
        simp at hany
      exact .inl (hfinish.of_thread (by rw [h.threads_eq]))
  | relocks => cases hr
  | popped _ h => exact .inl (hworks (ht.setContext _ _) h)
  | returned _ _ h => exact .inl (hworks (ht.setContext _ _) h)
  | noAction _ h => exact .inl (hworks ht h)
  | userDone _ h => exact .inl ((ht.setContext s.threadId .shutdown).of_thread (by rw [h.threads_eq]))
  | @exited y u hexit _ =>
      cases hr
      have hgone : y.crashes = ∅ := hafter
      rcases hexit.of_noCrash hbefore hgone with ⟨rfl, _⟩ | ⟨hctx, s₂, hw, rfl⟩
      · exact .inl (ht.gone hne)
      · rcases ht.shutdown hne hp hw with hwaits | ⟨hdone, hown⟩
        · exact .inl hwaits
        · exact .inr (.inr ⟨hdone, hctx, rfl, hown⟩)
  | exitStuck _ _ => cases hr

/-! ### Entering the wait -/

/-- A thread that gives up its mutex in a condition wait is blocked in the same step. -/
theorem ThreadCase.gives {e : Event} (h : ThreadCase s (.ok e) s') (hp : s.Posted)
    (hbefore : s.crashes = ∅) (hafter : s'.crashes = ∅)
    (hctx : s.contextOf s.threadId = .ready a ret) (hgive : s.MustGive a) :
    e = .blocked a ∧ (s'.mutexes a.value).owner = none ∧ s'.WaitsOn s.threadId a.location := by
  have hpending := hp s.threadId a ret (.inl hctx)
  -- the thread is ready, so that it executes its action, blocks on it or finishes with it
  generalize hr : (Except.ok e : Except Stop Event) = r at h
  cases h with
  | called hctx' _ _ _ => rw [hctx] at hctx'; cases hctx'
  | secondHalf hctx' _ _ _ => rw [hctx] at hctx'; cases hctx'
  | lockAgain hctx' _ _ => rw [hctx] at hctx'; cases hctx'
  | executed hctx' hnot _ =>
      rw [hctx] at hctx'
      cases hctx'
      exact absurd hgive hnot
  | resumed hctx' _ _ => rw [hctx] at hctx'; cases hctx'
  | @blocked b ret' q y _ hctx' hwaits h =>
      rw [hctx] at hctx'
      obtain ⟨rfl, rfl⟩ : a = b ∧ ret = ret' := by
        rcases hctx' with h | h <;> cases h
        exact ⟨rfl, rfl⟩
      cases hwaits with
      | stays htype _ => exact absurd hgive.type htype
      | gives _ =>
          have hevent : e = .blocked a := by
            cases h <;> cases hr <;> rfl
          have hmutexes : s'.mutexes = (s.released a.value).mutexes := by
            cases h <;> rfl
          have hthreads := h.threads_eq
          refine ⟨hevent, ?_, ?_⟩
          · rw [hmutexes]
            show (Function.update s.mutexes a.value _ a.value).owner = none
            rw [Function.update_self]
          · have hself : (s.released a.value).threadId = s.threadId := rfl
            -- who gets the mutex is made running, and nothing else changes in a thread
            have hown : ((s.released a.value).threads s.threadId).pending = some a := by
              rw [s.released_threads]
              split
              · exact hpending
              · rw [if_pos rfl]
                exact hpending
            rw [Model.WaitsOn, hthreads, Model.waits_threads, if_pos hself.symm]
            simp [Thread.waitingOn, hown, hgive.type]
  | finished hctx' htype _ =>
      rw [hctx] at hctx'
      cases hctx'
      rw [hgive.type] at htype
      rcases htype with h | h <;> cases h
  | relocks => cases hr
  | popped hctx' _ => rw [hctx] at hctx'; cases hctx'
  | returned hctx' _ _ => rw [hctx] at hctx'; cases hctx'
  | noAction hctx' _ => rw [hctx] at hctx'; cases hctx'
  | userDone hctx' _ => rw [hctx] at hctx'; cases hctx'
  | exited hexit _ =>
      rcases hexit.of_noCrash hbefore hafter with ⟨_, hctx'⟩ | ⟨hctx', _⟩ <;>
        rw [hctx] at hctx' <;> cases hctx'
  | exitStuck _ _ => cases hr

/-! ### Notifying -/

/-- What `execute` has done where it came back. -/
theorem ThreadCase.acts {b : ModelAction} {v : Nat} {rf : Slots}
    (h : ThreadCase s (.ok (.executed b v rf)) s') :
    ∃ y ctx, Acts b s y ∧ s' = y.backAt ctx := by
  have hcalls : ∀ {d : ModelAction} {ret' : Ret}, ¬ Calls d ret' s (.ok (.executed b v rf)) s' := by
    intro d ret' h
    generalize hr : (Except.ok (Event.executed b v rf) : Except Stop Event) = r at h
    cases h with
    | stays => cases hr
    | yields h => cases h <;> cases hr
  generalize hr : (Except.ok (Event.executed b v rf) : Except Stop Event) = r at h
  cases h with
  | called _ _ _ h => exact absurd (hr ▸ h) hcalls
  | secondHalf _ _ _ h => exact absurd (hr ▸ h) hcalls
  | lockAgain _ _ h => exact absurd (hr ▸ h) hcalls
  | executed _ _ hacts =>
      cases hr
      exact ⟨_, _, hacts, rfl⟩
  | resumed _ _ hacts =>
      cases hr
      exact ⟨_, _, hacts, rfl⟩
  | blocked _ _ h => cases h <;> cases hr
  | finished _ _ h => cases h <;> cases hr
  | userDone _ h => cases h <;> cases hr
  | _ => cases hr

theorem Acts.eq_of_notifyOne (h : Acts a s s₁) (htype : a.type = .atomicNotifyOne) :
    s₁ = s.wakeThreadWaitingOn (.cond a.location) := by
  cases h with
  | notifyOne _ => rfl
  | idle _ hone _ => exact absurd htype hone
  | unlockOnce _ _ hsync _ _ => simp [ModelAction.isSync, htype] at hsync
  | unlock _ hsync _ _ => simp [ModelAction.isSync, htype] at hsync
  | _ => simp_all [ModelAction.isControl, ModelAction.isLoad, ModelAction.isBuffered]

theorem Acts.eq_of_notifyAll (h : Acts a s s₁) (htype : a.type = .atomicNotifyAll) :
    s₁ = s.wakeAllThreadsWaitingOn (· = .cond a.location) := by
  cases h with
  | notifyAll _ => rfl
  | idle _ _ hall => exact absurd htype hall
  | unlockOnce _ _ hsync _ _ => simp [ModelAction.isSync, htype] at hsync
  | unlock _ hsync _ _ => simp [ModelAction.isSync, htype] at hsync
  | _ => simp_all [ModelAction.isControl, ModelAction.isLoad, ModelAction.isBuffered]

/-- `notify_all` makes every thread that waits on the variable runnable. -/
theorem ThreadCase.notifyAll {v : Nat} {rf : Slots} (h : ThreadCase s (.ok (.executed a v rf)) s')
    (hrun : s.Runs) (hp : s.Peopled) (htype : a.type = .atomicNotifyAll)
    (ht : s.WaitsOn t a.location) : (s'.threads t).state = .running := by
  obtain ⟨y, ctx, hacts, rfl⟩ := h.acts
  obtain rfl := hacts.eq_of_notifyAll htype
  have hne : t ≠ (s.wakeAllThreadsWaitingOn (· = .cond a.location)).threadId := ht.ne_self hrun
  rw [Model.backAt_threads, if_neg hne, s.wakeAllThreadsWaitingOn_threads, if_pos]
  refine ⟨hp.lt_of_blocked ht.blocked, ?_⟩
  rw [ht]
  simp

/-- `notify_one` makes one of the threads that wait on the variable runnable, if there is any; the
others go on to wait. -/
theorem ThreadCase.notifyOne {v : Nat} {rf : Slots} (h : ThreadCase s (.ok (.executed a v rf)) s')
    (hrun : s.Runs) (hp : s.Peopled) (htype : a.type = .atomicNotifyOne)
    (ht : s.WaitsOn t a.location) :
    ∃ u, s.WaitsOn u a.location ∧ (s'.threads u).state = .running ∧
      ∀ w, w ≠ u → s.WaitsOn w a.location → s'.WaitsOn w a.location := by
  obtain ⟨y, ctx, hacts, rfl⟩ := h.acts
  obtain rfl := hacts.eq_of_notifyOne htype
  rcases s.wakeThreadWaitingOn_cases (.cond a.location) with ⟨_, hnone⟩ | ⟨u, _, hu, heq⟩
  · have hmem := (s.mem_otherThreads _ hp.active).mpr ⟨hp.lt_of_blocked ht.blocked, ht.ne_self hrun⟩
    exact absurd ht (hnone t hmem)
  · rw [heq]
    have hself : ∀ w, s.WaitsOn w a.location → w ≠ (s.setState u .running).threadId :=
      fun w hw => hw.ne_self hrun
    refine ⟨u, hu, ?_, fun w hne hw => ?_⟩
    · rw [Model.backAt_threads, if_neg (hself u hu), Model.setState, Model.setThread_threads,
        if_pos rfl]
    · apply hw.of_thread
      rw [Model.backAt_threads, if_neg (hself w hw), Model.setState, Model.setThread_threads,
        if_neg hne]

end

end Cxlmc
