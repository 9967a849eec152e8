import Cxlmc.Threads.Basic

/-!
# What `execute` does to threads and mutexes

`Outcome` is the inversion lemma for `execute` where threads and mutexes are concerned: it comes back
(`Acts`), or the thread waits (`Waits`) or finishes and the token is passed, or the running process
dies. A `DEADLOCK` is one of the ways in which the token is passed.
-/

namespace Cxlmc

open Stateful

/-! ## The token -/

namespace Model

/-- `yield` passes the token, or reports a `DEADLOCK`; then `x` is returned. -/
inductive Yields {α : Type} (x : α) (s : Model) : Except Stop α → Model → Prop where
  | next {t : ThreadId} (h : s.nextRunning = some t) : Yields x s (.ok x) (s.passed t)
  | alone (h : s.nextRunning = none) (hrun : s.Runs) : Yields x s (.ok x) s
  | stuck (h : s.nextRunning = none) (hnot : ¬ s.Runs) : Yields x s (.error .deadlock) s

/-- `last_yield` does the same for a thread that does not go on. -/
inductive LastYields (s : Model) : Except Stop Bool → Model → Prop where
  | next {t : ThreadId} (h : s.nextRunning = some t) : LastYields s (.ok true) (s.passed t)
  | last (h : s.nextRunning = none) : LastYields s (.ok false) s
  | stuck (h : s.nextRunning = none) : LastYields s (.error .deadlock) s

end Model

section

variable {cfg : Config} {s s' s₁ : Model} {a : ModelAction} {ret : Ret} {α : Type}

theorem yields_of_ends {r : Except Stop Unit} (h : schedulerYield.Ends s r s') : s.Yields () r s' := by
  rw [schedulerYield, ends_state_bind] at h
  split at h
  · next t hnext =>
      obtain ⟨rfl, rfl⟩ := ends_update.mp h
      exact .next hnext
  · next hnext =>
      split at h
      · next hstate =>
          obtain ⟨rfl, rfl⟩ := ends_stop.mp h
          exact .stuck hnext hstate
      · next hstate =>
          obtain ⟨rfl, rfl⟩ := ends_pure.mp h
          exact .alone hnext (Decidable.not_not.mp hstate)

theorem Model.Yields.of_bind {x : α} {r : Except Stop α}
    (h : (schedulerYield >>= fun _ => (pure x : M α)).Ends s r s') : s.Yields x r s' := by
  rcases ends_bind.mp h with ⟨_, s₁, h₁, h₂⟩ | ⟨e, h₁, rfl⟩
  · obtain ⟨rfl, rfl⟩ := ends_pure.mp h₂
    cases yields_of_ends h₁ with
    | next hnext => exact .next hnext
    | alone hnext hrun => exact .alone hnext hrun
  · cases yields_of_ends h₁ with
    | stuck hnext hnot => exact .stuck hnext hnot

theorem lastYields_of_ends {r : Except Stop Bool} (h : lastYield.Ends s r s') :
    s.LastYields r s' := by
  rw [lastYield, ends_state_bind] at h
  split at h
  · next t hnext =>
      rw [ends_update_bind] at h
      obtain ⟨rfl, rfl⟩ := ends_pure.mp h
      exact .next hnext
  · next hnext =>
      split at h
      · obtain ⟨rfl, rfl⟩ := ends_stop.mp h
        exact .stuck hnext
      · obtain ⟨rfl, rfl⟩ := ends_pure.mp h
        exact .last hnext

/-! ## Mutexes -/

theorem ends_setOwner_some {m : MutexId} (hfree : s.Free m) {r : Except Stop Unit}
    (h : (setOwner m (some s.threadId)).Ends s r s') :
    r = .error .assertFailed ∨
      r = .ok () ∧ m ∉ (s.threads s.threadId).ownedMutexes ∧ s' = s.acquired m := by
  have hnew : (do
      let s₁ ← state
      require (m ∉ (s₁.threads s.threadId).ownedMutexes) .assertFailed
      update fun s₁ => s₁.setThread s.threadId fun th =>
        { th with ownedMutexes := insert m th.ownedMutexes }
      update fun s₁ : Model =>
        { s₁ with
          mutexes := Function.update s₁.mutexes m
            { s₁.mutexes m with owner := some s.threadId, recursiveLockCount := 0 } } : M Unit).Ends
        s r s' →
      r = .error .assertFailed ∨
        r = .ok () ∧ m ∉ (s.threads s.threadId).ownedMutexes ∧ s' = s.acquired m := by
    intro h
    rw [ends_state_bind] at h
    obtain ⟨hmem, h⟩ | ⟨_, he, _⟩ := ends_require_bind.mp h
    · rw [ends_update_bind] at h
      obtain ⟨rfl, rfl⟩ := ends_update.mp h
      exact .inr ⟨rfl, hmem, rfl⟩
    · exact .inl he
  rw [setOwner, ends_state_bind] at h
  dsimp only at h
  split at h
  · exact hnew h
  · next o howner =>
      rw [if_pos (hfree o howner)] at h
      exact hnew h

theorem ends_setOwner_none {m : MutexId} (hrun : s.Runs)
    (howner : (s.mutexes m).owner = some s.threadId) {r : Except Stop Unit}
    (h : (setOwner m none).Ends s r s') :
    r = .error .assertFailed ∨ r = .ok () ∧
      s' = { s.setThread s.threadId fun th => { th with ownedMutexes := th.ownedMutexes.erase m } with
        mutexes := Function.update s.mutexes m
          { s.mutexes m with owner := none, recursiveLockCount := 0 } } := by
  have hnot : ¬ (s.threads s.threadId).state = .crashed := by
    rw [Model.Runs] at hrun
    rw [hrun]
    nofun
  rw [setOwner, ends_state_bind] at h
  simp only [howner] at h
  rw [if_neg hnot] at h
  obtain ⟨_, h⟩ | ⟨_, he, _⟩ := ends_require_bind.mp h
  · obtain ⟨rfl, rfl⟩ := ends_update.mp h
    exact .inr ⟨rfl, rfl⟩
  · exact .inl he

/-! ## What an action does -/

/-- `execute` has come back. -/
inductive Acts (a : ModelAction) (s : Model) : Model → Prop where
  | work {s' : Model} (htype : a.isControl = false) (h : s.Works s') : Acts a s s'
  | idle (hlock : a.type ≠ .atomicLock) (hone : a.type ≠ .atomicNotifyOne)
      (hall : a.type ≠ .atomicNotifyAll) : Acts a s s
  | create {s' : Model} (htype : a.type = .pthreadCreate) (h : s.newThread.Works s') : Acts a s s'
  | acquire (htype : a.type = .atomicLock ∨ a.type = .atomicTrylock) (hfree : s.Free a.location)
      (hnot : a.location ∉ (s.threads s.threadId).ownedMutexes) : Acts a s (s.acquired a.location)
  | relock (count : Nat) (htype : a.type = .atomicLock)
      (howner : (s.mutexes a.location).owner = some s.threadId) :
      Acts a s (s.recounted a.location count)
  | unlockOnce (m : MutexId) (count : Nat) (hsync : a.isSync = true) (hlock : a.type ≠ .atomicLock)
      (howner : (s.mutexes m).owner = some s.threadId) : Acts a s (s.recounted m count)
  | unlock (m : MutexId) (hsync : a.isSync = true) (hlock : a.type ≠ .atomicLock)
      (howner : (s.mutexes m).owner = some s.threadId) : Acts a s (s.released m)
  | notifyOne (htype : a.type = .atomicNotifyOne) :
      Acts a s (s.wakeThreadWaitingOn (.cond a.location))
  | notifyAll (htype : a.type = .atomicNotifyAll) :
      Acts a s (s.wakeAllThreadsWaitingOn (· = .cond a.location))

/-- The running thread is about to wait for the first time. -/
inductive Waits (a : ModelAction) (s : Model) : Model → Prop where
  | stays (htype : a.type ≠ .atomicWait) (hmust : s.MustWait a) : Waits a s s
  | gives (hgive : s.MustGive a) : Waits a s (s.released a.value)

inductive Outcome (a : ModelAction) (ret : Ret) (s : Model) : Except Stop Flow → Model → Prop where
  | failed {e : Stop} {s' : Model} (hexit : e ≠ .exit) (hdead : e ≠ .deadlock) :
      Outcome a ret s (.error e) s'
  | died {s₁ s' : Model} (hworks : s.Works s₁) (h : s₁.Dies s') : Outcome a ret s (.error .exit) s'
  | done {v : Nat} {rf : Slots} {s' : Model} (h : Acts a s s') : Outcome a ret s (.ok (.done v rf)) s'
  | waits {r : Except Stop Flow} {s₁ s' : Model} (hwaits : Waits a s s₁)
      (h : (s₁.waits a ret).Yields Flow.suspended r s') : Outcome a ret s r s'
  | finished {b : Except Stop Bool} {v : Nat} {s' : Model}
      (htype : a.type = .threadFinish ∨ a.type = .threadonlyFinish)
      (h : (s.finishes v).LastYields b s') :
      Outcome a ret s (b.map fun _ => Flow.finished) s'
  | relocks (htype : a.type = .atomicLock) (hrun : s.Runs) :
      Outcome a ret s (.error .deadlock) s

/-! ### The cases of `execute` -/

theorem Outcome.of_setOwner {v : Nat} {r : Except Stop Flow}
    (htype : a.type = .atomicLock ∨ a.type = .atomicTrylock) (hfree : s.Free a.location)
    (h : (setOwner a.location (some s.threadId) >>= fun _ => (pure (.done v []) : M Flow)).Ends
      s r s') : Outcome a ret s r s' := by
  rcases ends_bind.mp h with ⟨_, s₁, h₁, h₂⟩ | ⟨e, h₁, rfl⟩
  · obtain ⟨rfl, rfl⟩ := ends_pure.mp h₂
    obtain hr | ⟨_, hnot, rfl⟩ := ends_setOwner_some hfree h₁
    · cases hr
    · exact .done (.acquire htype hfree hnot)
  · obtain hr | ⟨hr, _⟩ := ends_setOwner_some hfree h₁
    · cases hr
      exact .failed nofun nofun
    · cases hr

theorem Model.Yields.of_threadWait {r : Except Stop Flow}
    (h : (threadWait a ret >>= fun _ => (pure .suspended : M Flow)).Ends s r s') :
    (s.waits a ret).Yields Flow.suspended r s' := by
  rw [threadWait, ends_bind_assoc, ends_update_bind] at h
  exact .of_bind h

theorem Outcome.of_done {v : Nat} {r : Except Stop Flow} (hacts : Acts a s s₁)
    (h : (pure (.done v []) : M Flow).Ends s₁ r s') : Outcome a ret s r s' := by
  obtain ⟨rfl, rfl⟩ := ends_pure.mp h
  exact .done hacts

/-- The loop of `ATOMIC_LOCK`. -/
theorem outcome_lockLoop (htype : a.type = .atomicLock) {r : Except Stop Flow}
    (h : (lockLoop a ret).Ends s r s') : Outcome a ret s r s' := by
  rw [lockLoop, ends_state_bind] at h
  dsimp only at h
  split at h
  · next o howner =>
      split at h
      · next hcrashed =>
          exact .of_setOwner (.inl htype) (s.free_of_crashed howner hcrashed) h
      · next halive =>
          have hnot : a.type ≠ .atomicWait := by
            rw [htype]
            simp
          exact .waits (.stays hnot (.lock htype howner halive)) (.of_threadWait h)
  · next hnone =>
      exact .of_setOwner (.inl htype) (s.free_of_none hnone) h

theorem outcome_lock (hrun : s.Runs) (htype : a.type = .atomicLock) {r : Except Stop Flow}
    (h : (executeLock a ret).Ends s r s') : Outcome a ret s r s' := by
  rw [executeLock, ends_state_bind] at h
  dsimp only at h
  split at h
  · next hnone =>
      exact .of_setOwner (.inl htype) (s.free_of_none hnone) h
  · next o howner =>
      split at h
      · next hself =>
          have howner : (s.mutexes a.location).owner = some s.threadId := by rw [howner, hself]
          split at h
          · rw [ends_update_bind] at h
            exact .of_done (.relock _ htype howner) h
          · -- `EDEADLK`: the mutex is as it was
            have hsame : s.recounted a.location (s.mutexes a.location).recursiveLockCount = s := by
              rw [Model.recounted, Function.update_eq_self]
            have hacts : Acts a s s := by
              have hrelock := Acts.relock (s.mutexes a.location).recursiveLockCount htype howner
              rw [hsame] at hrelock
              exact hrelock
            exact .of_done hacts h
          · obtain ⟨rfl, rfl⟩ := ends_stop.mp h
            exact .relocks htype hrun
      · exact outcome_lockLoop htype h

theorem outcome_trylock (htype : a.type = .atomicTrylock) {r : Except Stop Flow}
    (h : (executeTrylock a).Ends s r s') : Outcome a ret s r s' := by
  rw [executeTrylock, ends_state_bind] at h
  dsimp only at h
  split at h
  · next hnone =>
      exact .of_setOwner (.inr htype) (s.free_of_none hnone) h
  · next o howner =>
      split at h
      · next hcrashed =>
          exact .of_setOwner (.inr htype) (s.free_of_crashed howner hcrashed) h
      · refine .of_done (.idle ?_ ?_ ?_) h <;> simp [htype]

theorem outcome_unlock (hrun : s.Runs) (hsync : a.isSync = true) (hlock : a.type ≠ .atomicLock)
    {r : Except Stop Flow} (h : (executeUnlock a ret).Ends s r s') : Outcome a ret s r s' := by
  have hone : a.type ≠ .atomicNotifyOne := by
    intro h
    simp [ModelAction.isSync, h] at hsync
  have hall : a.type ≠ .atomicNotifyAll := by
    intro h
    simp [ModelAction.isSync, h] at hsync
  rw [executeUnlock] at h
  split at h
  · obtain ⟨rfl, _⟩ := ends_stop.mp h
    exact .failed (by simp) (by simp)
  · next m hm =>
      rw [ends_state_bind] at h
      split at h
      · exact .of_done (.idle hlock hone hall) h
      · next howner =>
          have howner := Decidable.not_not.mp howner
          split at h
          · rw [ends_update_bind] at h
            exact .of_done (.unlockOnce m _ hsync hlock howner) h
          · next hcount =>
              rcases ends_bind.mp h with ⟨_, s₁, h₁, h₂⟩ | ⟨e, h₁, rfl⟩
              · obtain hr | ⟨_, rfl⟩ := ends_setOwner_none hrun howner h₁
                · cases hr
                · rw [ends_update_bind] at h₂
                  split at h₂
                  · next htype =>
                      have hval : a.value = m := by
                        rw [ModelAction.getMutex, htype] at hm
                        exact Option.some.inj hm
                      rw [← hval] at howner hcount h₂
                      exact .waits (.gives ⟨htype, howner, hcount⟩) (.of_threadWait h₂)
                  · exact .of_done (.unlock m hsync hlock howner) h₂
              · obtain hr | ⟨hr, _⟩ := ends_setOwner_none hrun howner h₁
                · cases hr
                  exact .failed (by simp) (by simp)
                · cases hr

/-- A wait that gives up its mutex does not come back at once. -/
theorem not_mustGive_of_done {v : Nat} {rf : Slots}
    (h : (execute cfg a ret).Ends s (.ok (.done v rf)) s') : ¬ s.MustGive a := by
  rintro ⟨htype, howner, hcount⟩
  simp only [execute, htype, executeUnlock, ModelAction.getMutex] at h
  rw [ends_state_bind, if_neg (not_not.mpr howner), if_neg hcount] at h
  obtain ⟨_, s₁, _, h⟩ := ends_bind_ok.mp h
  rw [ends_update_bind, if_pos trivial] at h
  obtain ⟨_, s₂, _, h⟩ := ends_bind_ok.mp h
  cases (ends_pure.mp h).1

theorem outcome_join (htype : a.type = .pthreadJoin) {r : Except Stop Flow}
    (h : (executeJoin a ret).Ends s r s') : Outcome a ret s r s' := by
  rw [executeJoin, ends_state_bind] at h
  dsimp only at h
  obtain ⟨hprocess, h⟩ | ⟨_, rfl, _⟩ := ends_require_bind.mp h
  · split at h
    · next hgoes =>
        have hnot : a.type ≠ .atomicWait := by
          rw [htype]
          simp
        exact .waits (.stays hnot (.join htype hprocess hgoes)) (.of_threadWait h)
    · refine .of_done (.idle ?_ ?_ ?_) h <;> simp [htype]
  · exact .failed (by simp) (by simp)

/-- `curr_thread->finalize()`, after those that join the thread were woken. -/
theorem lastYields_finishes (hrun : s.Runs) {v : Nat} {r : Except Stop Flow}
    (h : (threadFinalize s.threadId >>= fun _ => (pure .finished : M Flow)).Ends
      ((s.setThread s.threadId fun th => { th with retVal := v }).wakeAllThreadsWaitingOn
        (· = .thread s.threadId)) r s') :
    ∃ b, r = b.map (fun _ => Flow.finished) ∧ (s.finishes v).LastYields b s' := by
  have hmid : ∀ {t : ThreadId} {s₁ : Model}, t = s₁.threadId → (s₁.threads t).isCompleted = false →
      (threadFinalize t >>= fun _ => (pure .finished : M Flow)).Ends s₁ r s' →
      ∃ b, r = b.map (fun _ => Flow.finished) ∧
        ((s₁.setContext t .exited).setState t .completed).LastYields b s' := by
    intro t s₁ ht hnot h
    rw [threadFinalize, ends_bind_assoc, ends_update_bind, ends_bind_assoc] at h
    have hstate : (((s₁.setContext t .exited).threads (s₁.setContext t .exited).threadId).isCompleted) =
        false := by
      show ((Function.update s₁.threads t _ s₁.threadId).isCompleted) = false
      rw [← ht, Function.update_self]
      exact hnot
    have hfinal : ∀ {q : Except Stop Bool} {y : Model}, finalize.Ends (s₁.setContext t .exited) q y →
        ((s₁.setContext t .exited).setState t .completed).LastYields q y := by
      intro q y h
      rw [finalize, ends_update_bind, if_neg (by rw [hstate]; exact Bool.false_ne_true)] at h
      have hself : (s₁.setContext t .exited).threadId = t := ht.symm
      rw [hself] at h
      exact lastYields_of_ends h
    rcases ends_bind.mp h with ⟨b, s₂, h₁, h₂⟩ | ⟨e, h₁, rfl⟩
    · obtain ⟨rfl, rfl⟩ := ends_pure.mp h₂
      exact ⟨.ok b, rfl, hfinal h₁⟩
    · exact ⟨.error e, rfl, hfinal h₁⟩
  refine hmid rfl ?_ h
  show Thread.isCompleted (if _ then _ else _) = false
  have hthread : Function.update s.threads s.threadId
      { s.threads s.threadId with retVal := v } s.threadId =
        { s.threads s.threadId with retVal := v } := Function.update_self ..
  have hstate : (s.threads s.threadId).state = .running := hrun
  split
  · rfl
  · show Thread.isCompleted (Function.update s.threads s.threadId _ s.threadId) = false
    rw [hthread]
    simp [Thread.isCompleted, hstate]

theorem outcome_finish (hrun : s.Runs) (htype : a.type = .threadFinish ∨ a.type = .threadonlyFinish)
    {r : Except Stop Flow} (h : (executeFinish a).Ends s r s') : Outcome a ret s r s' := by
  rw [executeFinish, ends_state_bind] at h
  dsimp only at h
  split at h
  · rw [ends_update_bind, ends_update_bind] at h
    obtain ⟨b, rfl, hlast⟩ := lastYields_finishes hrun h
    exact .finished htype hlast
  · have hsame : s = s.setThread s.threadId fun th => { th with retVal := th.retVal } := by
      show s = { s with threads := Function.update s.threads s.threadId (s.threads s.threadId) }
      rw [Function.update_eq_self]
    rw [ends_update_bind] at h
    have h' : (threadFinalize s.threadId >>= fun _ => (pure .finished : M Flow)).Ends
        ((s.setThread s.threadId fun th =>
          { th with retVal := (s.threads s.threadId).retVal }).wakeAllThreadsWaitingOn
            (· = .thread s.threadId)) r s' := by
      have hset : (s.setThread s.threadId fun th =>
          { th with retVal := (s.threads s.threadId).retVal }) = s := hsame.symm
      rw [hset]
      exact h
    obtain ⟨b, rfl, hlast⟩ := lastYields_finishes hrun h'
    exact .finished htype hlast

end

/-! ### The memory -/

section

variable {cfg : Config} {s s' s₁ : Model} {a entry : ModelAction} {ret : Ret} {t : ThreadId}

theorem addToStoreBuffer_labours (hentry : entry.tid < s.threadCount) :
    Labours (addToStoreBuffer t entry) s := by
  unfold addToStoreBuffer
  apply Does.require_bind (fun h => Stop.noConfusion h)
  intro _
  exact Labours.update (.pushed hentry)

/-- An action on the memory comes back unless the running process dies. -/
theorem Outcome.of_labours {m : M Flow} (htype : a.isControl = false) (hlabours : Labours m s)
    (havoids : Avoids Stop.deadlock m)
    (hdone : ∀ flow x y, m.Ends x (.ok flow) y → ∃ v rf, flow = .done v rf) {r : Except Stop Flow}
    (h : m.Ends s r s') : Outcome a ret s r s' := by
  cases r with
  | ok flow =>
      obtain ⟨v, rf, rfl⟩ := hdone flow s s' h
      exact .done (.work htype (hlabours.works h))
  | error e =>
      by_cases hexit : e = .exit
      · subst hexit
        obtain ⟨s₁, hworks, hdies⟩ := hlabours.dies h
        exact .died hworks hdies
      · refine .failed hexit ?_
        rintro rfl
        exact havoids s s' h

/-- The value of an action on the memory is returned at the end. -/
theorem done_of_bind_pure {β : Type} {m : M β} {f : β → Flow} {flow : Flow} {x y : Model}
    (hf : ∀ b, ∃ v rf, f b = .done v rf) (h : (m >>= fun b => (pure (f b) : M Flow)).Ends x (.ok flow) y) :
    ∃ v rf, flow = .done v rf := by
  obtain ⟨b, x₁, _, h₂⟩ := ends_bind_ok.mp h
  obtain ⟨hflow, _⟩ := ends_pure.mp h₂
  cases hflow
  exact hf b

theorem outcome_store (htype : a.isControl = false) (htid : a.tid < s.threadCount)
    (hs : s.Attributed) {r : Except Stop Flow} (h : (executeStore a).Ends s r s') :
    Outcome a ret s r s' := by
  have hpush : Labours (addToStoreBuffer a.tid a.copy) s := addToStoreBuffer_labours htid
  apply Outcome.of_labours htype _ _ _ h
  · unfold executeStore
    apply Does.bind hpush
    intro _ s₁ h₁
    split
    · exact Does.bind (drain_labours ((hpush.works h₁).attributed hs)) fun _ _ _ => .pure _
    · exact .pure _
  · unfold executeStore
    refine .bind (addToStoreBuffer_avoids _) fun _ => ?_
    split
    · exact .bind drain_avoids fun _ => .pure _
    · exact .pure _
  · intro flow x y h
    obtain ⟨_, x₁, _, h₂⟩ := ends_bind_ok.mp h
    split at h₂
    · exact done_of_bind_pure (fun _ => ⟨_, _, rfl⟩) h₂
    · obtain ⟨hflow, _⟩ := ends_pure.mp h₂
      cases hflow
      exact ⟨_, _, rfl⟩

theorem outcome_flush (htype : a.isControl = false) (htid : a.tid < s.threadCount)
    {r : Except Stop Flow}
    (h : (addToStoreBuffer a.tid a.copy >>= fun _ => (pure (.done a.value []) : M Flow)).Ends s r s') :
    Outcome a ret s r s' := by
  apply Outcome.of_labours htype _ _ _ h
  · exact Does.bind (addToStoreBuffer_labours htid) fun _ _ _ => .pure _
  · exact .bind (addToStoreBuffer_avoids _) fun _ => .pure _
  · exact fun flow x y h => done_of_bind_pure (fun _ => ⟨_, _, rfl⟩) h

theorem outcome_mfence (htype : a.isControl = false) (hs : s.Attributed) {r : Except Stop Flow}
    (h : (drain a.tid >>= fun _ => (pure (.done a.value []) : M Flow)).Ends s r s') :
    Outcome a ret s r s' := by
  apply Outcome.of_labours htype _ _ _ h
  · exact Does.bind (drain_labours hs) fun _ _ _ => .pure _
  · exact .bind drain_avoids fun _ => .pure _
  · exact fun flow x y h => done_of_bind_pure (fun _ => ⟨_, _, rfl⟩) h

/-- A load from `build_read_from` on. -/
theorem resolveLoad_labours (hcfg : cfg.memPoison = false) (hpos : 0 < a.size)
    (htid : a.tid = s.threadId) (hs : s.Attributed) : Labours (resolveLoad cfg a) s := by
  have hread : ∀ {x : Model}, s.Works x → Labours (buildReadFromSlots cfg a) x := fun hx =>
    buildReadFromSlots_labours hpos hcfg (htid.trans hx.threadId.symm) (hx.attributed hs)
  unfold resolveLoad
  apply Does.state_bind
  dsimp only
  by_cases hgpf : cfg.gpfAlwaysSucceeds = true
  · simp only [hgpf, if_true]
    have hoff : s.Works { s with backtrack := Function.update s.backtrack s.processId false } :=
      .of_eq rfl rfl rfl rfl rfl fun _ _ h => h
    apply Labours.update_bind hoff
    apply Does.bind (hread hoff)
    intro rf s₁ _
    exact Labours.update_bind (.of_eq rfl rfl rfl rfl rfl fun _ _ h => h) (.pure _)
  · simp only [hgpf]
    exact Does.bind (hread (.refl s)) fun _ _ _ => .pure _

theorem resolveLoad_avoids (hcfg : cfg.memPoison = false) (hpos : 0 < a.size) :
    Avoids Stop.deadlock (resolveLoad cfg a) := by
  have hread : Avoids Stop.deadlock (buildReadFromSlots cfg a) := by
    intro x y h
    have he := buildReadFromSlots_error hpos hcfg h
    cases he
  unfold resolveLoad
  apply Avoids.state_bind
  intro s
  dsimp only
  by_cases hgpf : cfg.gpfAlwaysSucceeds = true
  · simp only [hgpf, if_true]
    exact .bind (.update _) fun _ => .bind hread fun _ => .bind (.update _) fun _ => .pure _
  · simp only [hgpf]
    exact .bind hread fun _ => .pure _

theorem done_of_resolveLoad {flow : Flow} {x y : Model}
    (h : (resolveLoad cfg a).Ends x (.ok flow) y) : ∃ v rf, flow = .done v rf := by
  rw [resolveLoad, ends_state_bind] at h
  dsimp only at h
  by_cases hgpf : cfg.gpfAlwaysSucceeds = true
  · simp only [hgpf, if_true] at h
    rw [ends_update_bind] at h
    obtain ⟨rf, x₁, _, h₂⟩ := ends_bind_ok.mp h
    exact done_of_bind_pure (fun _ => ⟨_, _, rfl⟩) h₂
  · simp only [hgpf] at h
    exact done_of_bind_pure (fun rf => ⟨_, _, rfl⟩) h

theorem outcome_load (hcfg : cfg.memPoison = false) (htype : a.isControl = false)
    (hload : a.isLoad = true) (hpos : 0 < a.size) (htid : a.tid = s.threadId) (hs : s.Attributed)
    {r : Except Stop Flow} (h : (execute cfg a ret).Ends s r s') : Outcome a ret s r s' := by
  rw [execute_load cfg ret hload] at h
  have hfence : Labours (fenceOfLoad a) s := by
    unfold fenceOfLoad
    split
    · exact drain_labours hs
    · exact .pure _
  apply Outcome.of_labours htype _ _ _ h
  · apply Does.bind hfence
    intro _ s₁ h₁
    have hworks := hfence.works h₁
    exact resolveLoad_labours hcfg hpos (htid.trans hworks.threadId.symm) (hworks.attributed hs)
  · apply Avoids.bind
    · unfold fenceOfLoad
      split
      · exact drain_avoids
      · exact .pure _
    · exact fun _ => resolveLoad_avoids hcfg hpos
  · intro flow x y h
    obtain ⟨_, x₁, _, h₂⟩ := ends_bind_ok.mp h
    exact done_of_resolveLoad h₂

theorem outcome_create (htype : a.type = .pthreadCreate) (hlt : s.activeThread < s.threadCount)
    {r : Except Stop Flow} (h : (executeCreate a).Ends s r s') : Outcome a ret s r s' := by
  obtain ⟨rfl, rfl⟩ := ends_executeCreate h
  have hpush : s.newThread.Works (s.newThread.pushed s.threadId (s.createEntry a)) :=
    .pushed (Nat.lt_succ_of_lt hlt)
  exact .done (.create htype (hpush.trans (.of_eq rfl rfl rfl rfl rfl fun _ _ h => h)))

/-! ### All of `execute` -/

/-- What `execute` does to threads and mutexes. -/
theorem outcome_of_execute (hcfg : cfg.memPoison = false) (htid : a.tid = s.threadId)
    (hlt : s.activeThread < s.threadCount) (hpos : a.isLoad = true → 0 < a.size) (hrun : s.Runs)
    (hs : s.Attributed) {r : Except Stop Flow} (h : (execute cfg a ret).Ends s r s') :
    Outcome a ret s r s' := by
  have hload : a.isLoad = true → Outcome a ret s r s' := fun hl =>
    outcome_load hcfg (by simp [ModelAction.isControl, hl]) hl (hpos hl) htid hs h
  have htidlt : a.tid < s.threadCount := by
    rw [htid]
    exact hlt
  unfold execute at h
  split at h
  case h_1 htype | h_2 htype | h_3 htype =>
      refine .of_done (.idle ?_ ?_ ?_) h <;> simp [htype]
  case h_4 htype => exact outcome_finish hrun (.inl htype) h
  case h_5 htype => exact outcome_finish hrun (.inr htype) h
  case h_6 htype => exact outcome_create htype hlt h
  case h_7 htype => exact outcome_join htype h
  case h_8 htype => exact outcome_trylock htype h
  case h_9 htype => exact outcome_lock hrun htype h
  case h_10 htype | h_11 htype | h_12 htype =>
      exact outcome_unlock hrun (by simp [ModelAction.isSync, htype]) (by simp [htype]) h
  case h_13 htype => exact .of_done (.notifyOne htype) h
  case h_14 htype => exact .of_done (.notifyAll htype) h
  case h_15 htype | h_16 htype | h_17 htype | h_18 htype =>
      refine outcome_store ?_ htidlt hs h
      simp [ModelAction.isControl, ModelAction.isBuffered, htype]
  case h_19 htype | h_20 htype | h_21 htype =>
      exact hload (by simp [ModelAction.isLoad, htype])
  case h_22 htype | h_23 htype | h_24 htype =>
      refine outcome_flush ?_ htidlt h
      simp [ModelAction.isControl, ModelAction.isBuffered, htype]
  case h_25 htype => exact outcome_mfence (by simp [ModelAction.isControl, htype]) hs h

/-- The rest of `execute` after a wait. -/
theorem outcome_of_resumeExecute {r : Except Stop Flow} (hsync : a.isSync = true)
    (h : (resumeExecute a ret).Ends s r s') : Outcome a ret s r s' := by
  unfold resumeExecute at h
  split at h
  · next htype => exact outcome_lockLoop htype h
  · next hnot =>
      have hone : a.type ≠ .atomicNotifyOne := by
        intro htype
        simp [ModelAction.isSync, htype] at hsync
      have hall : a.type ≠ .atomicNotifyAll := by
        intro htype
        simp [ModelAction.isSync, htype] at hsync
      exact .of_done (.idle hnot hone hall) h

end

end Cxlmc
