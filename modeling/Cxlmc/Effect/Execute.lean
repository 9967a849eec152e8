import Cxlmc.Effect.Buffers
import Cxlmc.Effect.Reads

/-!
# What `execute` does

An action that concerns threads and mutexes comes back or waits, and leaves the memory alone
(`Blocks`). The others work on the buffers and the memory of the running thread, and `Executed` is
the inversion lemma for them.
-/

namespace Cxlmc

open Stateful Fill

namespace Model

/-- The running thread stops at `c`, and another thread may go on. -/
structure Suspends (s s' : Model) (c : Context) : Prop extends Control s s' where
  context : s'.contextOf s.threadId = c
  others : ∀ t, t ≠ s.threadId →
    s'.contextOf t = s.contextOf t ∨ s.threadCount ≤ t ∧ s'.contextOf t = .user

theorem Idle.of_eq {s s' : Model} (hsched : s'.toScheduler = s.toScheduler)
    (hmem : s'.toMemory = s.toMemory) (hcxl : s'.cxlMapping = s.cxlMapping) : s.Idle s' := by
  refine ⟨⟨?_, hcxl, ?_, ?_, ?_, ?_⟩, hmem⟩
  · rw [hsched]
  · rw [hsched]
  · intro t _
    rw [hsched]
  · rw [hsched]
  · intro t
    rw [contextOf, contextOf, hsched]
    exact .inl rfl

theorem Idle.suspends {s s₁ s' : Model} {c : Context} (h : s.Idle s₁) (h' : s₁.Suspends s' c) :
    s.Suspends s' c := by
  have hself : s₁.threadId = s.threadId := h.activeThread
  refine ⟨h.control.trans h'.toControl, hself ▸ h'.context, ?_⟩
  intro t ht
  rcases h'.others t (hself ▸ ht) with h₂ | ⟨hle, h₂⟩
  · rw [h₂]
    exact h.context t
  · exact .inr ⟨Nat.le_trans h.threadCount hle, h₂⟩

/-- The token is passed after the place of the running thread was set. -/
theorem Suspends.of_setContext (s : Model) (c : Context) {t : ThreadId}
    (ht : s.activeThread < s.threadCount → t < s.threadCount) :
    s.Suspends { s.setContext s.threadId c with activeThread := t } c := by
  have hthread : ∀ u, (s.setContext s.threadId c).threads u =
      if u = s.threadId then { s.threads s.threadId with context := c } else s.threads u := by
    intro u
    show Function.update s.threads _ _ u = _
    rw [Function.update_apply]
  refine ⟨⟨rfl, rfl, rfl, Nat.le_refl _, ?_, ht⟩, ?_, ?_⟩
  · intro u _
    show ((s.setContext s.threadId c).threads u).processId = _
    rw [hthread u]
    split
    · next hu => rw [hu]
    · rfl
  · show ((s.setContext s.threadId c).threads s.threadId).context = c
    rw [hthread, if_pos rfl]
  · intro u hu
    left
    show ((s.setContext s.threadId c).threads u).context = (s.threads u).context
    rw [hthread, if_neg hu]

/-- More threads move before the token is passed. -/
theorem Suspends.pass {s s₁ s₂ : Model} {c : Context} {t : ThreadId} (h : s.Suspends s₁ c)
    (hlt : s.activeThread < s.threadCount) (hidle : s₁.Idle s₂)
    (ht : s₂.activeThread < s₂.threadCount → t < s₂.threadCount) :
    s.Suspends { s₂ with activeThread := t } c := by
  have hctrl := h.toControl.trans hidle.control
  refine ⟨⟨hctrl.memory, hctrl.processCount, hctrl.cxlMapping, hctrl.threadCount,
    hctrl.processId, fun hlt => ht (hctrl.activeThread hlt)⟩, ?_, ?_⟩
  · rcases hidle.context s.threadId with hc | ⟨hle, _⟩
    · exact hc.trans h.context
    · exact absurd hlt (Nat.not_lt_of_le (Nat.le_trans h.threadCount hle))
  · intro u hu
    show s₂.contextOf u = _ ∨ _ ∧ s₂.contextOf u = _
    rcases hidle.context u with hc | ⟨hle, hc⟩
    · rw [hc]
      exact h.others u hu
    · exact .inr ⟨Nat.le_trans h.threadCount hle, hc⟩

end Model

section

variable {cfg : Config} {s s' s₁ : Model} {action : ModelAction} {ret : Ret}

/-! ## The token -/

theorem Model.nextRunning_lt {t : ThreadId} (h : s.nextRunning = some t)
    (hlt : s.activeThread < s.threadCount) : t < s.threadCount := by
  have hmem : t ∈ s.otherThreads := List.mem_of_find?_eq_some h
  obtain ⟨i, _, rfl⟩ := List.mem_map.mp hmem
  exact Nat.mod_lt _ (Nat.lt_of_le_of_lt (Nat.zero_le _) hlt)

theorem ends_schedulerYield {r : Except Stop Unit} (h : schedulerYield.Ends s r s') :
    r = .error .deadlock ∨ r = .ok () ∧ ∃ t,
      (s.activeThread < s.threadCount → t < s.threadCount) ∧ s' = { s with activeThread := t } := by
  rw [schedulerYield, ends_state_bind] at h
  split at h
  · next t hnext =>
      obtain ⟨rfl, rfl⟩ := ends_update.mp h
      exact .inr ⟨rfl, t, s.nextRunning_lt hnext, rfl⟩
  · split at h
    · exact .inl (ends_stop.mp h).1
    · obtain ⟨rfl, rfl⟩ := ends_pure.mp h
      exact .inr ⟨rfl, s'.activeThread, id, rfl⟩

theorem ends_lastYield {r : Except Stop Bool} (h : lastYield.Ends s r s') :
    r = .error .deadlock ∨ (∃ b, r = .ok b) ∧ ∃ t,
      (s.activeThread < s.threadCount → t < s.threadCount) ∧ s' = { s with activeThread := t } := by
  rw [lastYield, ends_state_bind] at h
  split at h
  · next t hnext =>
      rw [ends_update_bind] at h
      obtain ⟨rfl, rfl⟩ := ends_pure.mp h
      exact .inr ⟨⟨true, rfl⟩, t, s.nextRunning_lt hnext, rfl⟩
  · split at h
    · exact .inl (ends_stop.mp h).1
    · obtain ⟨rfl, rfl⟩ := ends_pure.mp h
      exact .inr ⟨⟨false, rfl⟩, s'.activeThread, id, rfl⟩

theorem ends_finalize {r : Except Stop Bool} (h : finalize.Ends s r s') :
    r = .error .deadlock ∨ (∃ b, r = .ok b) ∧ ∃ s₁ t, s.Idle s₁ ∧
      (s₁.activeThread < s₁.threadCount → t < s₁.threadCount) ∧
      s' = { s₁ with activeThread := t } := by
  rw [finalize, ends_update_bind] at h
  rcases ends_lastYield h with hr | ⟨hr, t, ht, hs'⟩
  · exact .inl hr
  · refine .inr ⟨hr, _, t, ?_, ht, hs'⟩
    split
    · exact .refl s
    · exact .setThread s _ rfl rfl

/-! ## Threads and mutexes -/

/-- How an action that may wait comes back. -/
inductive Blocks (action : ModelAction) (ret : Ret) (s : Model) : Except Stop Flow → Model → Prop where
  | done {s' : Model} (value : Nat) (h : s.Idle s') : Blocks action ret s (.ok (.done value [])) s'
  | suspended {s' : Model} (h : s.Suspends s' (.waiting action ret)) :
      Blocks action ret s (.ok .suspended) s'
  | stopped {s' : Model} {e : Stop} (he : e ≠ .exit) : Blocks action ret s (.error e) s'

theorem Blocks.of_idle {r : Except Stop Flow} (h : s.Idle s₁) (h' : Blocks action ret s₁ r s') :
    Blocks action ret s r s' := by
  cases h' with
  | done value hi => exact .done value (h.trans hi)
  | suspended hs => exact .suspended (h.suspends hs)
  | stopped he => exact .stopped he

/-- Code that only moves threads and mutexes, and does not exit. -/
abbrev Quiet {α : Type} (m : M α) (s : Model) : Prop :=
  Does (fun (s : Model) (_ : Unit) s' => s.Idle s') (fun _ => True) Stop.exit (fun _ _ => False) m s

theorem Quiet.idle {α : Type} {m : M α} {a : α} (h : Quiet m s) (hm : m.Ends s (.ok a) s') :
    s.Idle s' :=
  (h.returns hm).preorder .refl .trans fun _ _ _ _ h => h

theorem Quiet.not_exit {α : Type} {m : M α} (h : Quiet m s) : ¬ m.Ends s (.error .exit) s' := by
  intro hm
  obtain ⟨_, _, hfalse⟩ := h.leaves hm
  exact hfalse

theorem Quiet.update {f : Model → Model} (h : s.Idle (f s)) : Quiet (update f) s :=
  Does.update (l := ()) h trivial

theorem Quiet.update_bind {α : Type} {f : Model → Model} {k : Unit → M α} (h : s.Idle (f s))
    (hk : Quiet (k ()) (f s)) : Quiet ((Stateful.update f : M Unit) >>= k) s :=
  Does.update_bind (l := ()) h trivial hk

theorem Quiet.assert_bind {α : Type} {p : Prop} [Decidable p] {k : Unit → M α}
    (hk : p → Quiet (k ()) s) : Quiet ((require p .assertFailed : M Unit) >>= k) s :=
  Does.require_bind (fun h => Stop.noConfusion h) hk

theorem setOwner_quiet (m : MutexId) (thr : Option ThreadId) : Quiet (setOwner m thr) s := by
  have hlast : ∀ s₁ : Model, Quiet
      (update fun s : Model =>
        { s with
          mutexes := Function.update s.mutexes m
            { s.mutexes m with owner := thr, recursiveLockCount := 0 } }) s₁ :=
    fun s₁ => Quiet.update (.of_eq rfl rfl rfl)
  unfold setOwner
  apply Does.state_bind
  cases thr with
  | none =>
      dsimp only
      split
      · exact hlast s
      · split
        · exact hlast s
        · apply Quiet.assert_bind
          intro _
          exact Quiet.update_bind (.setThread _ _ rfl rfl) (hlast _)
  | some t =>
      dsimp only
      have hnew : ∀ s₁, Quiet (do
          let s ← state
          require (m ∉ (s.threads t).ownedMutexes) .assertFailed
          update fun s => s.setThread t fun th => { th with ownedMutexes := insert m th.ownedMutexes }
          update fun s : Model =>
            { s with
              mutexes := Function.update s.mutexes m
                { s.mutexes m with owner := some t, recursiveLockCount := 0 } }) s₁ := by
        intro s₁
        apply Does.state_bind
        apply Quiet.assert_bind
        intro _
        exact Quiet.update_bind (.setThread _ _ rfl rfl) (hlast _)
      split
      · exact hnew s
      · split
        · exact hnew s
        · apply Quiet.assert_bind
          intro _
          exact Quiet.update_bind (.setThread _ _ rfl rfl) (hnew _)

/-- A change of owner and the return of `execute`. -/
theorem Blocks.of_setOwner {m : MutexId} {thr : Option ThreadId} {v : Nat}
    {r : Except Stop Flow}
    (h : (setOwner m thr >>= fun _ => (pure (.done v []) : M Flow)).Ends s r s') :
    Blocks action ret s r s' := by
  rcases ends_bind.mp h with ⟨_, s₁, h₁, h₂⟩ | ⟨e, h₁, rfl⟩
  · obtain ⟨rfl, rfl⟩ := ends_pure.mp h₂
    exact .done v ((setOwner_quiet m thr).idle h₁)
  · apply Blocks.stopped
    rintro rfl
    exact (setOwner_quiet m thr).not_exit h₁

theorem Blocks.of_threadWait {r : Except Stop Flow}
    (h : (threadWait action ret >>= fun _ => (pure .suspended : M Flow)).Ends s r s') :
    Blocks action ret s r s' := by
  rcases ends_bind.mp h with ⟨_, s₁, h₁, h₂⟩ | ⟨e, h₁, rfl⟩
  · obtain ⟨rfl, rfl⟩ := ends_pure.mp h₂
    rw [threadWait, ends_update_bind] at h₁
    obtain hr | ⟨_, t, ht, rfl⟩ := ends_schedulerYield h₁
    · cases hr
    · apply Blocks.suspended
      have hidle : s.Idle (s.setState s.threadId .blocked) := .setThread s _ rfl rfl
      exact hidle.suspends (.of_setContext _ _ ht)
  · rw [threadWait, ends_update_bind] at h₁
    obtain hr | ⟨hr, _⟩ := ends_schedulerYield h₁
    · cases hr
      exact .stopped nofun
    · cases hr

theorem Blocks.of_pure {v : Nat} {r : Except Stop Flow}
    (h : (pure (.done v []) : M Flow).Ends s r s') : Blocks action ret s r s' := by
  obtain ⟨rfl, rfl⟩ := ends_pure.mp h
  exact .done v (.refl _)

theorem lockLoop_blocks {r : Except Stop Flow} (h : (lockLoop action ret).Ends s r s') :
    Blocks action ret s r s' := by
  rw [lockLoop, ends_state_bind] at h
  dsimp only at h
  split at h
  · split at h
    · exact .of_setOwner h
    · exact .of_threadWait h
  · exact .of_setOwner h

theorem executeLock_blocks {r : Except Stop Flow} (h : (executeLock action ret).Ends s r s') :
    Blocks action ret s r s' := by
  rw [executeLock, ends_state_bind] at h
  dsimp only at h
  split at h
  · exact .of_setOwner h
  · split at h
    · split at h
      · rw [ends_update_bind] at h
        refine Blocks.of_idle ?_ (.of_pure h)
        exact .of_eq rfl rfl rfl
      · exact .of_pure h
      · obtain ⟨rfl, _⟩ := ends_stop.mp h
        exact .stopped nofun
    · exact lockLoop_blocks h

theorem executeTrylock_blocks {r : Except Stop Flow} (h : (executeTrylock action).Ends s r s') :
    Blocks action ret s r s' := by
  rw [executeTrylock, ends_state_bind] at h
  dsimp only at h
  split at h
  · exact .of_setOwner h
  · split at h
    · exact .of_setOwner h
    · exact .of_pure h

theorem executeUnlock_blocks {r : Except Stop Flow} (h : (executeUnlock action ret).Ends s r s') :
    Blocks action ret s r s' := by
  rw [executeUnlock] at h
  split at h
  · obtain ⟨rfl, _⟩ := ends_stop.mp h
    exact .stopped nofun
  · next m _ =>
      rw [ends_state_bind] at h
      split at h
      · exact .of_pure h
      · split at h
        · rw [ends_update_bind] at h
          refine Blocks.of_idle ?_ (.of_pure h)
          exact .of_eq rfl rfl rfl
        · rcases ends_bind.mp h with ⟨_, s₁, h₁, h₂⟩ | ⟨e, h₁, rfl⟩
          · apply Blocks.of_idle ((setOwner_quiet m none).idle h₁)
            rw [ends_update_bind] at h₂
            apply Blocks.of_idle (.wakeAllThreadsWaitingOn s₁ _)
            split at h₂
            · exact .of_threadWait h₂
            · exact .of_pure h₂
          · apply Blocks.stopped
            rintro rfl
            exact (setOwner_quiet m none).not_exit h₁

theorem executeJoin_blocks {r : Except Stop Flow} (h : (executeJoin action ret).Ends s r s') :
    Blocks action ret s r s' := by
  rw [executeJoin, ends_state_bind] at h
  dsimp only at h
  rcases ends_bind.mp h with ⟨_, s₁, h₁, h₂⟩ | ⟨e, h₁, rfl⟩
  · obtain ⟨rfl, _⟩ := ends_require.mp h₁
    split at h₂
    · exact .of_threadWait h₂
    · exact .of_pure h₂
  · obtain ⟨_, ⟨_, he⟩ | ⟨_, he⟩⟩ := ends_require.mp h₁
    · cases he
    · cases he
      exact .stopped nofun

theorem ends_threadFinalize {r : Except Stop Unit} (hlt : s.activeThread < s.threadCount)
    (h : (threadFinalize s.threadId).Ends s r s') :
    r = .error .deadlock ∨ r = .ok () ∧ s.Suspends s' .exited := by
  rw [threadFinalize, ends_update_bind] at h
  rcases ends_bind.mp h with ⟨b, s₁, h₁, h₂⟩ | ⟨e, h₁, rfl⟩
  · obtain ⟨rfl, rfl⟩ := ends_pure.mp h₂
    obtain hr | ⟨_, s₂, t, hidle, ht, rfl⟩ := ends_finalize h₁
    · cases hr
    · have hset := Model.Suspends.of_setContext s .exited (t := s.activeThread) id
      exact .inr ⟨rfl, hset.pass hlt hidle ht⟩
  · obtain hr | ⟨⟨b, hr⟩, _⟩ := ends_finalize h₁
    · cases hr
      exact .inl rfl
    · cases hr

/-- `THREAD_FINISH` and `THREADONLY_FINISH`. -/
theorem ends_executeFinish {r : Except Stop Flow} (hlt : s.activeThread < s.threadCount)
    (h : (executeFinish action).Ends s r s') :
    r = .error .deadlock ∨ r = .ok .finished ∧ s.Suspends s' .exited := by
  have hfinal : ∀ {s₁ : Model}, s.Idle s₁ →
      (threadFinalize s.threadId >>= fun _ => (pure .finished : M Flow)).Ends s₁ r s' →
      r = .error .deadlock ∨ r = .ok .finished ∧ s.Suspends s' .exited := by
    intro s₁ hidle h
    have hself : s.threadId = s₁.threadId := hidle.activeThread.symm
    have hlt₁ : s₁.activeThread < s₁.threadCount := by
      rw [hidle.activeThread]
      exact Nat.lt_of_lt_of_le hlt hidle.threadCount
    rw [hself] at h
    rcases ends_bind.mp h with ⟨_, s₂, h₁, h₂⟩ | ⟨e, h₁, rfl⟩
    · obtain ⟨rfl, rfl⟩ := ends_pure.mp h₂
      obtain hr | ⟨_, hsus⟩ := ends_threadFinalize hlt₁ h₁
      · cases hr
      · exact .inr ⟨rfl, hidle.suspends hsus⟩
    · obtain hr | ⟨hr, _⟩ := ends_threadFinalize hlt₁ h₁
      · cases hr
        exact .inl rfl
      · cases hr
  rw [executeFinish, ends_state_bind] at h
  dsimp only at h
  split at h
  · rw [ends_update_bind, ends_update_bind] at h
    refine hfinal ?_ h
    exact (Model.Idle.setThread s _ rfl rfl).trans (.wakeAllThreadsWaitingOn _ _)
  · rw [ends_update_bind] at h
    exact hfinal (.wakeAllThreadsWaitingOn _ _) h

/-! ## The actions -/

end

namespace ModelAction

/-- The actions that `execute` resolves with `build_read_from`. -/
def isLoad (a : ModelAction) : Bool :=
  a.type = .atomicRmwr || a.type = .atomicLoad || a.type = .nonatomicLoad

/-- The actions on threads and mutexes in whose cases a thread may wait. -/
def isSync (a : ModelAction) : Bool :=
  a.type = .pthreadJoin || a.type = .atomicTrylock || a.type = .atomicLock ||
    a.type = .atomicWait || a.type = .atomicTimedwait || a.type = .atomicUnlock

/-- The actions whose cases empty the buffers of the thread. -/
def isFence (a : ModelAction) : Bool :=
  a.type = .atomicRmwr || a.type = .atomicRmw || a.type = .cacheMfence || a.isWrite && a.isSeqCst

/-- The actions that leave the buffers and the memory alone. -/
def isControl (a : ModelAction) : Bool :=
  !a.isLoad && !a.isBuffered && a.type ≠ .cacheMfence && a.type ≠ .pthreadCreate

theorem isControl_of_isSync {a : ModelAction} (h : a.isSync = true) : a.isControl = true := by
  simp only [isSync, Bool.or_eq_true, decide_eq_true_eq] at h
  rcases h with ((((h | h) | h) | h) | h) | h <;> simp [isControl, isLoad, isBuffered, h]

end ModelAction

/-- The buffers of `t` were emptied on the way from `s` to `s'`. -/
structure Drained (cfg : Config) (t : ThreadId) (s s' : Model) : Prop where
  goes : Goes (MemStep cfg) (Effect.Drains t) s s'
  storeBuffer : (s'.threadMemory t).storeBuffer = []
  flushBuffer : (s'.threadMemory t).flushBuffer = []

/-- The entry that `PTHREAD_CREATE` adds to the store buffer. -/
def Model.createEntry (s : Model) (action : ModelAction) : ModelAction :=
  { tid := s.threadId, type := .nonatomicStore, location := action.location,
    value := s.threadCount, order := .relaxed, size := 4 }

/-- `execute` came back with a value and, for a read, the slots it was resolved to. -/
inductive Executed (cfg : Config) (action : ModelAction) (s : Model) : Nat → Slots → Model → Prop where
  | control {s' : Model} (value : Nat) (htype : action.isControl = true) (h : s.Idle s') :
      Executed cfg action s value [] s'
  | load {s₁ s₂ s₃ s' : Model} {rf : Slots} (htype : action.isLoad = true)
      (hdrain : if action.type = .atomicRmwr then Drained cfg s.threadId s s₁ else s₁ = s)
      (hidle : s₁.Idle s₂) (hread : MemStep cfg s₂ (.read action rf) s₃) (hidle' : s₃.Idle s')
      (hback : cfg.gpfAlwaysSucceeds = true → s₂.backtrack s₂.processId = false) :
      Executed cfg action s (getReadValue action.location rf) rf s'
  | store {s' : Model} (htype : action.isWrite = true)
      (hdrain : if action.type = .atomicRmw ∨ action.isSeqCst = true then
        Drained cfg s.threadId (s.pushed s.threadId action.copy) s'
        else s' = s.pushed s.threadId action.copy) :
      Executed cfg action s action.value [] s'
  | flush (htype : action.isBuffered = true) (hwrite : action.isWrite = false) :
      Executed cfg action s action.value [] (s.pushed s.threadId action.copy)
  | mfence {s' : Model} (htype : action.type = .cacheMfence) (h : Drained cfg s.threadId s s') :
      Executed cfg action s action.value [] s'
  | create {s' : Model} (htype : action.type = .pthreadCreate)
      (h : s' = { s.newThread.pushed s.threadId (s.createEntry action) with
        memory := Model.writeRaw s.memory action.location 4 s.threadCount }) :
      Executed cfg action s action.value [] s'

/-- How `execute` ends. -/
inductive ExecuteEnds (cfg : Config) (action : ModelAction) (ret : Ret) (s : Model) :
    Except Stop Flow → Model → Prop where
  | done {s' : Model} {value : Nat} {rf : Slots} (h : Executed cfg action s value rf s') :
      ExecuteEnds cfg action ret s (.ok (.done value rf)) s'
  | suspended {s' : Model} (htype : action.isSync = true)
      (h : s.Suspends s' (.waiting action ret)) : ExecuteEnds cfg action ret s (.ok .suspended) s'
  | finished {s' : Model} (htype : action.isControl = true) (h : s.Suspends s' .exited) :
      ExecuteEnds cfg action ret s (.ok .finished) s'
  | crashed {s₁ s₂ s' : Model} (hfence : action.isFence = true)
      (hpush : s₁ = s ∨ action.isBuffered = true ∧ s₁ = s.pushed s.threadId action.copy)
      (h : Goes (MemStep cfg) (Effect.Drains s.threadId) s₁ s₂) (hcrash : SelfCrash cfg s₂ s') :
      ExecuteEnds cfg action ret s (.error .exit) s'
  | stopped {s' : Model} {e : Stop} (he : e ≠ .exit) :
      ExecuteEnds cfg action ret s (.error e) s'

section

variable {cfg : Config} {s s' s₁ : Model} {action : ModelAction} {ret : Ret}

theorem Blocks.executeEnds {r : Except Stop Flow} (htype : action.isSync = true)
    (h : Blocks action ret s r s') : ExecuteEnds cfg action ret s r s' := by
  cases h with
  | done value hi => exact .done (.control value (ModelAction.isControl_of_isSync htype) hi)
  | suspended hs => exact .suspended htype hs
  | stopped he => exact .stopped he

variable (cfg) in
theorem ends_drain {r : Except Stop Unit} {t : ThreadId} (hseq : s.Unclocked t)
    (h : (drain t).Ends s r s') :
    r = .ok () ∧ Drained cfg t s s' ∨ (∃ s₁, r = .error .exit ∧
      Goes (MemStep cfg) (Effect.Drains t) s s₁ ∧ SelfCrash cfg s₁ s') ∨
    ∃ e, e ≠ .exit ∧ r = .error e := by
  cases r with
  | ok a =>
      obtain ⟨hsb, hfb⟩ := drain_empty hseq h
      exact .inl ⟨rfl, (drain_does _ hseq).returns h, hsb, hfb⟩
  | error e =>
      right
      by_cases he : e = .exit
      · subst he
        obtain ⟨s₁, hgoes, hcrash⟩ := (drain_does cfg hseq).leaves h
        exact .inl ⟨s₁, rfl, hgoes, hcrash⟩
      · exact .inr ⟨e, he, rfl⟩

theorem ends_addToStoreBuffer {r : Except Stop Unit} {t : ThreadId} {entry : ModelAction}
    (hbuf : entry.isBuffered = true) (h : (addToStoreBuffer t entry).Ends s r s') :
    r = .ok () ∧ s' = s.pushed t entry := by
  rw [addToStoreBuffer, require, if_pos hbuf] at h
  exact ends_update.mp h

theorem Model.Unclocked.pushed {t : ThreadId} {entry : ModelAction} (h : s.Unclocked t)
    (hseq : entry.tick = 0) : (s.pushed t entry).Unclocked t := by
  intro a ha
  rw [Model.pushed, Model.threadMemory_setThreadMemory, if_pos rfl] at ha
  rcases List.mem_append.mp ha with ha | ha
  · exact h a ha
  · rw [List.mem_singleton.mp ha]
    exact hseq

theorem SelfCrash.stays (hcfg : cfg.memPoison = false) (h : SelfCrash cfg s s') : s.Stays s' := by
  obtain ⟨s₁, hstep, hidle⟩ := h
  exact (hstep.stays hcfg nofun).trans hidle.toStays

theorem isBuffered_of_isWrite (h : action.isWrite = true) : action.isBuffered = true := by
  simp only [ModelAction.isWrite, Bool.or_eq_true, decide_eq_true_eq] at h
  rcases h with ((h | h) | h) | h <;> simp [ModelAction.isBuffered, h]

theorem executeStore_ends {r : Except Stop Flow} (htid : action.tid = s.threadId)
    (hfresh : action.tick = 0) (hseq : s.Unclocked s.threadId)
    (hw : action.isWrite = true) (h : (executeStore action).Ends s r s') :
    ExecuteEnds cfg action ret s r s' := by
  have hbuf : action.copy.isBuffered = true := isBuffered_of_isWrite hw
  have hseq₁ : (s.pushed s.threadId action.copy).Unclocked s.threadId := hseq.pushed hfresh
  rw [executeStore, htid] at h
  rcases ends_bind.mp h with ⟨_, s₁, h₁, h₂⟩ | ⟨e, h₁, _⟩
  swap
  · have hr := (ends_addToStoreBuffer hbuf h₁).1
    cases hr
  obtain ⟨_, rfl⟩ := ends_addToStoreBuffer hbuf h₁
  by_cases hdrain : action.type = .atomicRmw ∨ action.isSeqCst = true
  · rw [if_pos hdrain] at h₂
    rcases ends_bind.mp h₂ with ⟨_, s₂, h₃, h₄⟩ | ⟨e, h₃, rfl⟩
    · obtain ⟨rfl, rfl⟩ := ends_pure.mp h₄
      rcases ends_drain cfg hseq₁ h₃ with ⟨_, hd⟩ | ⟨_, hr, _⟩ | ⟨_, _, hr⟩
      · refine .done (.store hw ?_)
        rw [if_pos hdrain]
        exact hd
      · cases hr
      · cases hr
    · rcases ends_drain cfg hseq₁ h₃ with ⟨hr, _⟩ | ⟨s₂, hr, hgoes, hcrash⟩ | ⟨_, he, hr⟩
      · cases hr
      · cases hr
        have hfence : action.isFence = true := by
          rcases hdrain with h | h <;> simp [ModelAction.isFence, h, hw]
        exact .crashed hfence (.inr ⟨hbuf, rfl⟩) hgoes hcrash
      · cases hr
        exact .stopped he
  · rw [if_neg hdrain] at h₂
    obtain ⟨rfl, rfl⟩ := ends_pure.mp h₂
    refine .done (.store hw ?_)
    rw [if_neg hdrain]

/-- The part of `executeLoad` after the buffers were emptied. `GPF_ALWAYS_SUCCEEDS` turns
`backtrack` off during the read. -/
theorem executeLoad_read {r : Except Stop Flow} (hcfg : cfg.memPoison = false)
    (htid : action.tid = s.threadId) (hload : action.isLoad = true) (hpos : 0 < action.size)
    (hdrain : if action.type = .atomicRmwr then Drained cfg s.threadId s s₁ else s₁ = s)
    (hself : s₁.threadId = s.threadId)
    (h : (do
      let s ← state
      let pid := s.processId
      if cfg.gpfAlwaysSucceeds then
        update fun s => { s with backtrack := Function.update s.backtrack pid false }
      else pure ()
      let rf ← buildReadFromSlots cfg action
      if cfg.gpfAlwaysSucceeds then
        update fun s' => { s' with backtrack := Function.update s'.backtrack pid (s.backtrack pid) }
      else pure ()
      return .done (getReadValue action.location rf) rf : M Flow).Ends s₁ r s') :
    ExecuteEnds cfg action ret s r s' := by
  have hread : ∀ {s₂ s₃ : Model} {rf : Slots}, s₁.Idle s₂ →
      (buildReadFromSlots cfg action).Ends s₂ (.ok rf) s₃ →
      MemStep cfg s₂ (.read action rf) s₃ := by
    intro s₂ s₃ rf hidle hends
    apply MemStep.read action rf _ hpos hends
    rw [htid, ← hself]
    exact hidle.activeThread.symm
  have hstopped : ∀ {s₂ : Model} {e : Stop},
      (buildReadFromSlots cfg action).Ends s₂ (.error e) s' →
      ExecuteEnds cfg action ret s (.error e) s' := by
    intro s₂ e hends
    rw [buildReadFromSlots_error hpos hcfg hends]
    exact .stopped nofun
  rw [ends_state_bind] at h
  dsimp only at h
  by_cases hgpf : cfg.gpfAlwaysSucceeds = true
  · simp only [hgpf, if_true] at h
    rw [ends_update_bind] at h
    rcases ends_bind.mp h with ⟨rf, s₃, h₁, h₂⟩ | ⟨e, h₁, rfl⟩
    · rw [ends_update_bind] at h₂
      obtain ⟨rfl, rfl⟩ := ends_pure.mp h₂
      have hidle : s₁.Idle { s₁ with backtrack := Function.update s₁.backtrack s₁.processId false } :=
        .of_eq rfl rfl rfl
      refine .done (.load hload hdrain hidle (hread hidle h₁) ?_ fun _ => Function.update_self _ _ _)
      exact .of_eq rfl rfl rfl
    · exact hstopped h₁
  · simp only [hgpf] at h
    rcases ends_bind.mp h with ⟨rf, s₃, h₁, h₂⟩ | ⟨e, h₁, rfl⟩
    · obtain ⟨rfl, rfl⟩ := ends_pure.mp h₂
      exact .done (.load hload hdrain (.refl s₁) (hread (.refl s₁) h₁) (.refl _) fun h => absurd h hgpf)
    · exact hstopped h₁

theorem executeLoad_ends {r : Except Stop Flow} (hcfg : cfg.memPoison = false)
    (htid : action.tid = s.threadId) (hseq : s.Unclocked s.threadId) (hload : action.isLoad = true)
    (hpos : 0 < action.size)
    (h : (executeLoad cfg action).Ends s r s') : ExecuteEnds cfg action ret s r s' := by
  rw [executeLoad] at h
  by_cases hrmw : action.type = .atomicRmwr
  · rw [if_pos hrmw, htid] at h
    rcases ends_bind.mp h with ⟨_, s₁, h₁, h₂⟩ | ⟨e, h₁, rfl⟩
    · rcases ends_drain cfg hseq h₁ with ⟨_, hd⟩ | ⟨_, hr, _⟩ | ⟨_, _, hr⟩
      · refine executeLoad_read hcfg htid hload hpos ?_ ?_ h₂
        · rw [if_pos hrmw]
          exact hd
        · exact (Goes.stays hcfg (fun h => h) hd.goes).activeThread
      · cases hr
      · cases hr
    · rcases ends_drain cfg hseq h₁ with ⟨hr, _⟩ | ⟨s₂, hr, hgoes, hcrash⟩ | ⟨_, he, hr⟩
      · cases hr
      · cases hr
        exact .crashed (by simp [ModelAction.isFence, hrmw]) (.inl rfl) hgoes hcrash
      · cases hr
        exact .stopped he
  · rw [if_neg hrmw] at h
    refine executeLoad_read hcfg htid hload hpos ?_ rfl h
    rw [if_neg hrmw]

theorem ends_executeCreate {r : Except Stop Flow} (h : (executeCreate action).Ends s r s') :
    r = .ok (.done action.value []) ∧ s' = { s.newThread.pushed s.threadId (s.createEntry action) with
      memory := Model.writeRaw s.memory action.location 4 s.threadCount } := by
  rw [executeCreate, ends_state_bind] at h
  dsimp only at h
  rw [ends_update_bind] at h
  rcases ends_bind.mp h with ⟨_, s₁, h₁, h₂⟩ | ⟨e, h₁, _⟩
  · obtain ⟨_, rfl⟩ := ends_addToStoreBuffer rfl h₁
    rw [ends_update_bind] at h₂
    obtain ⟨rfl, rfl⟩ := ends_pure.mp h₂
    exact ⟨rfl, rfl⟩
  · have hr := (ends_addToStoreBuffer rfl h₁).1
    cases hr

theorem executeCreate_ends {r : Except Stop Flow} (htype : action.type = .pthreadCreate)
    (h : (executeCreate action).Ends s r s') : ExecuteEnds cfg action ret s r s' := by
  obtain ⟨rfl, rfl⟩ := ends_executeCreate h
  exact .done (.create htype rfl)

theorem executeNothing_ends {r : Except Stop Flow} (htype : action.isControl = true)
    (hidle : s.Idle s₁) (h : (pure (.done action.value []) : M Flow).Ends s₁ r s') :
    ExecuteEnds cfg action ret s r s' := by
  obtain ⟨rfl, rfl⟩ := ends_pure.mp h
  exact .done (.control _ htype hidle)

theorem executeFinish_ends {r : Except Stop Flow} (htype : action.isControl = true)
    (hlt : s.activeThread < s.threadCount) (h : (executeFinish action).Ends s r s') :
    ExecuteEnds cfg action ret s r s' := by
  obtain rfl | ⟨rfl, hsus⟩ := ends_executeFinish hlt h
  · exact .stopped nofun
  · exact .finished htype hsus

theorem executeFlush_ends {r : Except Stop Flow} (htid : action.tid = s.threadId)
    (htype : action.isBuffered = true) (hwrite : action.isWrite = false)
    (h : (addToStoreBuffer action.tid action.copy >>= fun _ =>
      (pure (.done action.value []) : M Flow)).Ends s r s') :
    ExecuteEnds cfg action ret s r s' := by
  have hbuf : action.copy.isBuffered = true := htype
  rw [htid] at h
  rcases ends_bind.mp h with ⟨_, s₁, h₁, h₂⟩ | ⟨e, h₁, _⟩
  · obtain ⟨_, rfl⟩ := ends_addToStoreBuffer hbuf h₁
    obtain ⟨rfl, rfl⟩ := ends_pure.mp h₂
    exact .done (.flush htype hwrite)
  · cases (ends_addToStoreBuffer hbuf h₁).1

theorem executeMfence_ends {r : Except Stop Flow} (htid : action.tid = s.threadId)
    (hseq : s.Unclocked s.threadId)
    (htype : action.type = .cacheMfence)
    (h : (drain action.tid >>= fun _ => (pure (.done action.value []) : M Flow)).Ends s r s') :
    ExecuteEnds cfg action ret s r s' := by
  rw [htid] at h
  rcases ends_bind.mp h with ⟨_, s₁, h₁, h₂⟩ | ⟨e, h₁, rfl⟩
  · rcases ends_drain cfg hseq h₁ with ⟨_, hd⟩ | ⟨_, hr, _⟩ | ⟨_, _, hr⟩
    · obtain ⟨rfl, rfl⟩ := ends_pure.mp h₂
      exact .done (.mfence htype hd)
    · cases hr
    · cases hr
  · rcases ends_drain cfg hseq h₁ with ⟨hr, _⟩ | ⟨s₂, hr, hgoes, hcrash⟩ | ⟨_, he, hr⟩
    · cases hr
    · cases hr
      exact .crashed (by simp [ModelAction.isFence, htype]) (.inl rfl) hgoes hcrash
    · cases hr
      exact .stopped he

/-- `execute` does one of these things. -/
theorem execute_ends {r : Except Stop Flow} (hcfg : cfg.memPoison = false)
    (htid : action.tid = s.threadId) (hfresh : action.tick = 0)
    (hseq : s.Unclocked s.threadId) (hlt : s.activeThread < s.threadCount)
    (hpos : action.isLoad = true → 0 < action.size) (h : (execute cfg action ret).Ends s r s') :
    ExecuteEnds cfg action ret s r s' := by
  have hcontrol : ∀ type, action.type = type → ({ action with type := type }).isControl = true →
      action.isControl = true := by
    rintro type rfl hc
    exact hc
  have hload : ∀ type, action.type = type → ({ action with type := type }).isLoad = true →
      action.isLoad = true := by
    rintro type rfl hc
    exact hc
  unfold execute at h
  split at h
  case h_1 htype | h_2 htype | h_3 htype =>
      exact executeNothing_ends (hcontrol _ htype rfl) (.refl s) h
  case h_4 htype | h_5 htype => exact executeFinish_ends (hcontrol _ htype rfl) hlt h
  case h_6 htype => exact executeCreate_ends htype h
  case h_7 htype => exact (executeJoin_blocks h).executeEnds (by simp [ModelAction.isSync, htype])
  case h_8 htype =>
      exact (executeTrylock_blocks h).executeEnds (by simp [ModelAction.isSync, htype])
  case h_9 htype => exact (executeLock_blocks h).executeEnds (by simp [ModelAction.isSync, htype])
  case h_10 htype | h_11 htype | h_12 htype =>
      exact (executeUnlock_blocks h).executeEnds (by simp [ModelAction.isSync, htype])
  case h_13 htype =>
      exact executeNothing_ends (hcontrol _ htype rfl) (.wakeThreadWaitingOn s _) h
  case h_14 htype =>
      exact executeNothing_ends (hcontrol _ htype rfl) (.wakeAllThreadsWaitingOn s _) h
  case h_15 htype | h_16 htype | h_17 htype | h_18 htype =>
      exact executeStore_ends htid hfresh hseq (by simp [ModelAction.isWrite, htype]) h
  case h_19 htype | h_20 htype | h_21 htype =>
      have hl := hload _ htype rfl
      exact executeLoad_ends hcfg htid hseq hl (hpos hl) h
  case h_22 htype | h_23 htype | h_24 htype =>
      exact executeFlush_ends htid (by simp [ModelAction.isBuffered, htype])
        (by simp [ModelAction.isWrite, htype]) h
  case h_25 htype => exact executeMfence_ends htid hseq htype h

variable (cfg) in
/-- The rest of `execute` after a wait. -/
theorem resumeExecute_ends {r : Except Stop Flow} (htype : action.isSync = true)
    (h : (resumeExecute action ret).Ends s r s') : ExecuteEnds cfg action ret s r s' := by
  unfold resumeExecute at h
  split at h
  · exact (lockLoop_blocks h).executeEnds htype
  · exact executeNothing_ends (ModelAction.isControl_of_isSync htype) (.refl s) h

theorem not_isWrite_of_not_isBuffered (h : action.isBuffered = false) : action.isWrite = false := by
  rw [Bool.eq_false_iff] at h ⊢
  exact fun hw => h (isBuffered_of_isWrite hw)

/-- An action on threads and mutexes leaves the memory alone. -/
theorem Executed.idle {value : Nat} {rf : Slots} (h : Executed cfg action s value rf s')
    (hcontrol : action.isControl = true) : rf = [] ∧ s.Idle s' := by
  simp only [ModelAction.isControl, Bool.and_eq_true, Bool.not_eq_true',
    ne_eq, decide_not] at hcontrol
  obtain ⟨⟨⟨hload, hbuf⟩, hmfence⟩, hcreate⟩ := hcontrol
  cases h with
  | control _ _ hidle => exact ⟨rfl, hidle⟩
  | load htype _ _ _ _ _ => simp [hload] at htype
  | store htype _ => simp [not_isWrite_of_not_isBuffered hbuf] at htype
  | flush htype _ => simp [hbuf] at htype
  | mfence htype _ => simp [htype] at hmfence
  | create htype _ => simp [htype] at hcreate

/-- What it is to execute a load. -/
theorem Executed.load_parts {read : ModelAction} {v : Nat} {rf : Slots} (hload : read.isLoad = true)
    (h : Executed cfg read s v rf s') :
    ∃ s₁ s₂ s₃, (if read.type = .atomicRmwr then Drained cfg s.threadId s s₁ else s₁ = s) ∧
      s₁.Idle s₂ ∧ MemStep cfg s₂ (.read read rf) s₃ ∧ s₃.Idle s' ∧
      v = getReadValue read.location rf ∧
      (cfg.gpfAlwaysSucceeds = true → s₂.backtrack s₂.processId = false) := by
  cases h with
  | control _ htype _ => simp [ModelAction.isControl, hload] at htype
  | @load s₁ s₂ s₃ _ _ _ hdrain hidle hread hidle' hback =>
      exact ⟨s₁, s₂, s₃, hdrain, hidle, hread, hidle', rfl, hback⟩
  | store htype _ =>
      simp only [ModelAction.isLoad, Bool.or_eq_true, decide_eq_true_eq] at hload
      rcases hload with (h | h) | h <;> simp [ModelAction.isWrite, h] at htype
  | flush htype _ =>
      simp only [ModelAction.isLoad, Bool.or_eq_true, decide_eq_true_eq] at hload
      rcases hload with (h | h) | h <;> simp [ModelAction.isBuffered, h] at htype
  | mfence htype _ => simp [ModelAction.isLoad, htype] at hload
  | create htype _ => simp [ModelAction.isLoad, htype] at hload

end

/-! ## The two parts of a load -/

/-- `executeLoad`, up to `build_read_from`: an `ATOMIC_RMWR` empties the buffers of the thread. -/
def fenceOfLoad (action : ModelAction) : M Unit :=
  if action.type = .atomicRmwr then drain action.tid else pure ()

/-- `executeLoad`, from `build_read_from` on. -/
def resolveLoad (cfg : Config) (action : ModelAction) : M Flow := do
  let s ← state
  let pid := s.processId
  if cfg.gpfAlwaysSucceeds then
    update fun s => { s with backtrack := Function.update s.backtrack pid false }
  else pure ()
  let rf ← buildReadFromSlots cfg action
  if cfg.gpfAlwaysSucceeds then
    update fun s' => { s' with backtrack := Function.update s'.backtrack pid (s.backtrack pid) }
  else pure ()
  return .done (getReadValue action.location rf) rf

theorem execute_load (cfg : Config) {action : ModelAction} (ret : Ret)
    (hload : action.isLoad = true) :
    execute cfg action ret = fenceOfLoad action >>= fun _ => resolveLoad cfg action := by
  have hexec : execute cfg action ret = executeLoad cfg action := by
    simp only [ModelAction.isLoad, Bool.or_eq_true, decide_eq_true_eq] at hload
    rcases hload with (h | h) | h <;> rw [execute, h]
  rw [hexec, executeLoad, fenceOfLoad]
  split <;> rfl

end Cxlmc
