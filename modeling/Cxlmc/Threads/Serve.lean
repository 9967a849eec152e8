import Cxlmc.System.Places
import Cxlmc.Threads.Run

/-!
# What is done with a mutex

`Mutex.Serves` is what an `ATOMIC_LOCK`, an `ATOMIC_TRYLOCK` or an `ATOMIC_UNLOCK` does with its mutex and
the value it gives back. A step serves one mutex (`SysStep.serves`), or leaves all of them as they are but
for one that the running thread owns and gives to a condition wait (`SysStep.mutexes_eq`).
-/

namespace Cxlmc

open Stateful

/-- `set_owner(thr)`, as far as the mutex is concerned. -/
def Mutex.ownedBy (mx : Mutex) (thr : Option ThreadId) : Mutex :=
  { mx with owner := thr, recursiveLockCount := 0 }

/-- What an action of thread `t` does with the mutex, and its value. -/
inductive Mutex.Serves (mx : Mutex) (t : ThreadId) (crashed : ThreadId → Prop) :
    ActionType → Nat → Mutex → Prop where
  | lock (howner : mx.owner = none) : Serves mx t crashed .atomicLock 0 (mx.ownedBy (some t))
  | inherit {o : ThreadId} (howner : mx.owner = some o) (hne : o ≠ t) (hcrashed : crashed o) :
      Serves mx t crashed .atomicLock 1 (mx.ownedBy (some t))
  | nest (howner : mx.owner = some t) (htype : mx.mutexType = .recursive) :
      Serves mx t crashed .atomicLock 0 { mx with recursiveLockCount := mx.recursiveLockCount + 1 }
  /-- `EDEADLK`. -/
  | refuseLock (howner : mx.owner = some t) (htype : mx.mutexType = .errorcheck) :
      Serves mx t crashed .atomicLock 0 mx
  | trylock (howner : mx.owner = none) : Serves mx t crashed .atomicTrylock 1 (mx.ownedBy (some t))
  | tryInherit {o : ThreadId} (howner : mx.owner = some o) (hcrashed : crashed o) :
      Serves mx t crashed .atomicTrylock 2 (mx.ownedBy (some t))
  | busy {o : ThreadId} (howner : mx.owner = some o) (halive : ¬ crashed o) :
      Serves mx t crashed .atomicTrylock 0 mx
  | unlock {v : Nat} (howner : mx.owner = some t)
      (honce : ¬ (mx.mutexType = .recursive ∧ mx.recursiveLockCount > 0)) :
      Serves mx t crashed .atomicUnlock v (mx.ownedBy none)
  | unnest {v : Nat} (howner : mx.owner = some t) (htype : mx.mutexType = .recursive)
      (hcount : mx.recursiveLockCount > 0) :
      Serves mx t crashed .atomicUnlock v { mx with recursiveLockCount := mx.recursiveLockCount - 1 }
  /-- `EPERM`. -/
  | refuseUnlock {v : Nat} (howner : mx.owner ≠ some t) : Serves mx t crashed .atomicUnlock v mx

namespace Model

/-- The running thread's action `a` has come back with `v`, and its mutex has been served. -/
def Serves (s : Model) (a : ModelAction) (v : Nat) (s' : Model) : Prop :=
  ∃ mx, (s.mutexes a.location).Serves s.threadId (fun o => (s.threads o).state = .crashed) a.type v mx ∧
    s'.mutexes = Function.update s.mutexes a.location mx

end Model

section

variable {cfg : Config} {s s' s₁ : Model} {a : ModelAction} {ret : Ret} {i : Input} {v : Nat} {rf : Slots}

/-! ## The cases of `execute` -/

theorem Model.Serves.of_same {mx : Mutex} (hsame : mx = s.mutexes a.location)
    (h : (s.mutexes a.location).Serves s.threadId (fun o => (s.threads o).state = .crashed) a.type v mx) :
    s.Serves a v s := by
  refine ⟨mx, h, ?_⟩
  rw [hsame, Function.update_eq_self]

/-- `set_owner(curr_thread)` and the value behind it. -/
theorem ends_takes {w : Nat} (hfree : s.Free a.location)
    (h : (setOwner a.location (some s.threadId) >>= fun _ => (pure (.done w []) : M Flow)).Ends
      s (.ok (.done v rf)) s₁) :
    v = w ∧ s₁.mutexes = Function.update s.mutexes a.location
      ((s.mutexes a.location).ownedBy (some s.threadId)) := by
  obtain ⟨_, s₂, h₁, h₂⟩ := ends_bind_ok.mp h
  obtain ⟨hflow, rfl⟩ := ends_pure.mp h₂
  cases hflow
  obtain hr | ⟨_, _, rfl⟩ := ends_setOwner_some hfree h₁
  · cases hr
  · exact ⟨rfl, rfl⟩

theorem serves_of_lockLoop (hrun : s.Runs) (htype : a.type = .atomicLock)
    (h : (lockLoop a ret).Ends s (.ok (.done v rf)) s₁) : s.Serves a v s₁ := by
  rw [lockLoop, ends_state_bind] at h
  dsimp only at h
  split at h
  · next o howner =>
      split at h
      · next hcrashed =>
          obtain ⟨rfl, hmutexes⟩ := ends_takes (s.free_of_crashed howner hcrashed) h
          refine ⟨_, ?_, hmutexes⟩
          rw [htype]
          refine .inherit howner ?_ hcrashed
          -- the running thread has not crashed
          rintro rfl
          cases hrun.symm.trans hcrashed
      · obtain ⟨_, _, _, h₂⟩ := ends_bind_ok.mp h
        cases (ends_pure.mp h₂).1
  · next hnone =>
      obtain ⟨rfl, hmutexes⟩ := ends_takes (s.free_of_none hnone) h
      refine ⟨_, ?_, hmutexes⟩
      rw [htype]
      exact .lock hnone

theorem serves_of_lock (hrun : s.Runs) (htype : a.type = .atomicLock) (hvalue : a.value = 0)
    (h : (executeLock a ret).Ends s (.ok (.done v rf)) s₁) : s.Serves a v s₁ := by
  rw [executeLock, ends_state_bind] at h
  dsimp only at h
  split at h
  · next hnone =>
      obtain ⟨rfl, hmutexes⟩ := ends_takes (s.free_of_none hnone) h
      refine ⟨_, ?_, hmutexes⟩
      rw [htype, hvalue]
      exact .lock hnone
  · next o howner =>
      split at h
      · next hself =>
          rw [← hself] at howner
          split at h
          · next hrecursive =>
              rw [ends_update_bind] at h
              obtain ⟨hflow, rfl⟩ := ends_pure.mp h
              cases hflow
              refine ⟨_, ?_, rfl⟩
              rw [htype, hvalue]
              exact .nest howner hrecursive
          · next hcheck =>
              obtain ⟨hflow, rfl⟩ := ends_pure.mp h
              cases hflow
              refine .of_same rfl ?_
              rw [htype, hvalue]
              exact .refuseLock howner hcheck
          · cases (ends_stop.mp h).1
      · exact serves_of_lockLoop hrun htype h

theorem serves_of_trylock (htype : a.type = .atomicTrylock)
    (h : (executeTrylock a).Ends s (.ok (.done v rf)) s₁) : s.Serves a v s₁ := by
  rw [executeTrylock, ends_state_bind] at h
  dsimp only at h
  split at h
  · next hnone =>
      obtain ⟨rfl, hmutexes⟩ := ends_takes (s.free_of_none hnone) h
      refine ⟨_, ?_, hmutexes⟩
      rw [htype]
      exact .trylock hnone
  · next o howner =>
      split at h
      · next hcrashed =>
          obtain ⟨rfl, hmutexes⟩ := ends_takes (s.free_of_crashed howner hcrashed) h
          refine ⟨_, ?_, hmutexes⟩
          rw [htype]
          exact .tryInherit howner hcrashed
      · next halive =>
          obtain ⟨hflow, rfl⟩ := ends_pure.mp h
          cases hflow
          refine .of_same rfl ?_
          rw [htype]
          exact .busy howner halive

/-- What the code that `ATOMIC_UNLOCK` shares with the condition waits leaves behind where it comes back. -/
theorem ends_executeUnlock (hrun : s.Runs) {m : MutexId} (hm : a.getMutex = some m)
    (h : (executeUnlock a ret).Ends s (.ok (.done v rf)) s₁) :
    (s.mutexes m).owner ≠ some s.threadId ∧ s₁ = s ∨
      (s.mutexes m).owner = some s.threadId ∧
        ((s.mutexes m).mutexType = .recursive ∧ (s.mutexes m).recursiveLockCount > 0 ∧
          s₁ = s.recounted m ((s.mutexes m).recursiveLockCount - 1) ∨
        ¬ ((s.mutexes m).mutexType = .recursive ∧ (s.mutexes m).recursiveLockCount > 0) ∧
          a.type ≠ .atomicWait ∧ s₁ = s.released m) := by
  rw [executeUnlock, hm] at h
  dsimp only at h
  rw [ends_state_bind] at h
  split at h
  · next howner => exact .inl ⟨howner, (ends_pure.mp h).2⟩
  · next howner =>
      have howner := Decidable.not_not.mp howner
      refine .inr ⟨howner, ?_⟩
      split at h
      · next hcount =>
          rw [ends_update_bind] at h
          exact .inl ⟨hcount.1, hcount.2, (ends_pure.mp h).2⟩
      · next hcount =>
          obtain ⟨_, s₂, h₁, h₂⟩ := ends_bind_ok.mp h
          obtain hr | ⟨_, rfl⟩ := ends_setOwner_none hrun howner h₁
          · cases hr
          · rw [ends_update_bind] at h₂
            split at h₂
            · obtain ⟨_, _, _, h₃⟩ := ends_bind_ok.mp h₂
              cases (ends_pure.mp h₃).1
            · next hwait => exact .inr ⟨hcount, hwait, (ends_pure.mp h₂).2⟩

theorem serves_of_unlock (hrun : s.Runs) (htype : a.type = .atomicUnlock)
    (h : (executeUnlock a ret).Ends s (.ok (.done v rf)) s₁) : s.Serves a v s₁ := by
  have hm : a.getMutex = some a.location := by rw [ModelAction.getMutex, htype]
  have htype' := htype.symm
  obtain ⟨howner, rfl⟩ | ⟨howner, ⟨hrecursive, hcount, rfl⟩ | ⟨honce, _, rfl⟩⟩ :=
    ends_executeUnlock hrun hm h
  · exact .of_same rfl (htype' ▸ .refuseUnlock howner)
  · exact ⟨_, htype' ▸ .unnest howner hrecursive hcount, rfl⟩
  · exact ⟨_, htype' ▸ .unlock howner honce, rfl⟩

/-- A join that comes back changes nothing. -/
theorem ends_executeJoin (h : (executeJoin a ret).Ends s (.ok (.done v rf)) s₁) : s₁ = s := by
  rw [executeJoin, ends_state_bind] at h
  obtain ⟨_, s₂, h₁, h₂⟩ := ends_bind_ok.mp h
  have hsame : s₂ = s := by
    unfold require at h₁
    split at h₁
    · exact (ends_pure.mp h₁).2
    · cases (ends_stop.mp h₁).1
  subst hsame
  split at h₂
  · obtain ⟨_, _, _, h₃⟩ := ends_bind_ok.mp h₂
    cases (ends_pure.mp h₃).1
  · exact (ends_pure.mp h₂).2

/-! ## The steps -/

/-- The action locks, tries to lock or unlocks a mutex. -/
def ModelAction.isMutex (a : ModelAction) : Bool :=
  a.type = .atomicLock || a.type = .atomicTrylock || a.type = .atomicUnlock

theorem ModelAction.isControl_of_isMutex (h : a.isMutex = true) : a.isControl = true := by
  simp only [isMutex, Bool.or_eq_true, decide_eq_true_eq] at h
  rcases h with (h | h) | h <;> simp [isControl, isLoad, isBuffered, h]

theorem Issued.lock_value {t : ThreadId} (h : Issued t a ret) (htype : a.type = .atomicLock) :
    a.value = 0 := by
  cases h with
  | @call c req h =>
      cases c <;> simp only [Call.request, Option.some.injEq, reduceCtorEq] at h <;>
        subst h <;>
        simp only [Request.loadOf, Request.storeOf, ModelAction.plain, reduceCtorEq] at htype ⊢
  | secondHalf old _ =>
      unfold Rmw.secondHalf at htype
      split at htype <;> cases htype
  | lock m => rfl

/-- `Model::action` after `execute`, where it comes back. -/
theorem ends_executedFlow {flow : Flow}
    (h : (finishAction a ret i flow).Ends s₁ (.ok (.executed a v rf)) s') :
    flow = .done v rf ∧ s'.mutexes = s₁.mutexes := by
  cases flow with
  | done w rf' =>
      obtain ⟨he, _, _, rfl⟩ := ends_done h
      cases he
      exact ⟨rfl, rfl⟩
  | suspended => cases (ends_pure.mp h).1
  | finished => cases (ends_pure.mp h).1

/-- `Model::action` in a step in which `execute` comes back. -/
theorem SysStep.executes {l : Label} (hcfg : cfg.memPoison = false) (hplaced : s.Placed)
    (h : SysStep cfg s l s') (he : l.event = .executed a v rf) :
    ∃ ret i s₁, (finishAction a ret i (.done v rf)).Ends s₁ (.ok (.executed a v rf)) s' ∧
      ((∃ b, s.contextOf s.threadId = .ready b ret ∧ a = s.stamp b ∧
        (execute cfg a ret).Ends (s.prepared b) (.ok (.done v rf)) s₁) ∨
      s.contextOf s.threadId = .waiting a ret ∧
        (resumeExecute a ret).Ends s (.ok (.done v rf)) s₁) := by
  obtain ⟨_, hcase⟩ := stepCase_of_sysStep hcfg hplaced h
  obtain ⟨_, i, hends⟩ := h
  have hholds := hplaced.holds s.threadId
  rw [he] at hcase hends
  have hresume : (resume cfg i).Ends s (.ok (.executed a v rf)) s' := by
    rcases ends_onStop.mp hends with ⟨hends, _⟩ | ⟨s₁, _, hends⟩
    · exact hends
    · obtain ⟨_, _, hr, _⟩ | ⟨_, hr, _⟩ | hr := ends_exit hends <;> cases hr
  rw [resume, ends_state_bind] at hresume
  cases hcase with
  | @executed b ret _ _ _ _ _ _ hctx _ _ =>
      have hplace : (s.threads s.threadId).context = .ready b ret := hctx
      rw [hctx] at hholds
      rw [hplace] at hresume
      obtain ⟨_, _, hrest⟩ := ends_prepared hplaced.active hholds hresume
      obtain ⟨flow, s₁, h₁, h₂⟩ := ends_bind_ok.mp hrest
      obtain ⟨rfl, _⟩ := ends_executedFlow h₂
      exact ⟨ret, i, s₁, h₂, .inl ⟨b, hctx, rfl, h₁⟩⟩
  | @resumed _ ret _ _ _ _ hctx _ =>
      have hplace : (s.threads s.threadId).context = .waiting a ret := hctx
      rw [hplace] at hresume
      obtain ⟨flow, s₁, h₁, h₂⟩ := ends_bind_ok.mp hresume
      obtain ⟨rfl, _⟩ := ends_executedFlow h₂
      exact ⟨ret, i, s₁, h₂, .inr ⟨hctx, h₁⟩⟩

/-- What threads wait for inside `execute`. -/
def Model.WaitsKnown (s : Model) : Prop :=
  ∀ t a ret, s.contextOf t = .waiting a ret →
    a.type = .atomicLock ∨ a.type = .pthreadJoin ∨ a.type = .atomicWait

theorem Waits.type (h : Waits a s s₁) :
    a.type = .atomicLock ∨ a.type = .pthreadJoin ∨ a.type = .atomicWait := by
  cases h with
  | stays _ hmust =>
      cases hmust with
      | lock htype _ _ => exact .inl htype
      | join htype _ _ => exact .inr (.inl htype)
      | cond htype => exact .inr (.inr htype)
  | gives hgive => exact .inr (.inr hgive.type)

theorem ThreadCase.blocked_waits (h : ThreadCase s (.ok (.blocked a)) s') : ∃ s₁, Waits a s s₁ := by
  have hcalls : ∀ {b : ModelAction} {ret' : Ret}, ¬ Calls b ret' s (.ok (.blocked a)) s' := by
    intro b ret' h
    cases h with
    | yields h => cases h
  generalize hr : (Except.ok (Event.blocked a) : Except Stop Event) = r at h
  cases h with
  | called _ _ _ h => exact absurd (hr ▸ h) hcalls
  | secondHalf _ _ _ h => exact absurd (hr ▸ h) hcalls
  | lockAgain _ _ h => exact absurd (hr ▸ h) hcalls
  | @blocked _ _ q _ _ _ hwaits _ =>
      cases q with
      | ok _ =>
          cases hr
          exact ⟨_, hwaits⟩
      | error _ => cases hr
  | @finished _ _ _ b => cases b <;> cases hr
  | userDone _ h => cases h <;> cases hr
  | _ => cases hr

theorem SysStep.waitsKnown {l : Label} (hcfg : cfg.memPoison = false) (hs : s.Underway)
    (hwaits : s.WaitsKnown) (h : SysStep cfg s l s') : s'.WaitsKnown := by
  intro t a ret hctx
  obtain ⟨_, hcase⟩ := stepCase_of_sysStep hcfg hs.placed h
  obtain ⟨_, _, hthread, _⟩ := hs.sysStep hcfg h
  have hleads := hcase.leads hcfg hs.placed t
  generalize s'.contextOf t = c at hleads hctx
  generalize l.event = e at hleads hthread
  cases hleads with
  | stays _ => exact hwaits t a ret hctx
  | waiting _ _ =>
      cases hctx
      obtain ⟨_, hw⟩ := hthread.blocked_waits
      exact hw.type
  | _ => cases hctx

/-- What a lock, a trylock or an unlock does to the mutexes. -/
theorem SysStep.serves {l : Label} (hcfg : cfg.memPoison = false) (hplaced : s.Placed) (hrun : s.Runs)
    (hwaits : s.WaitsKnown) (h : SysStep cfg s l s') (he : l.event = .executed a v rf) (ha : a.isMutex = true) :
    s.Serves a v s' := by
  have hholds := hplaced.holds s.threadId
  obtain ⟨ret, i, s₁, hfinish, hbefore⟩ := h.executes hcfg hplaced he
  have hmutexes := (ends_executedFlow hfinish).2
  obtain ⟨b, hctx, rfl, hexecute⟩ | ⟨hctx, hresume⟩ := hbefore
  · obtain ⟨hstamp, hprepared⟩ := Model.stamp_of_executed (ModelAction.isControl_of_isMutex ha)
    rw [hstamp] at ha hexecute ⊢
    rw [hprepared] at hexecute
    rw [hctx] at hholds
    suffices hserves : s.Serves b v s₁ by
      obtain ⟨mx, hmx, hafter⟩ := hserves
      exact ⟨mx, hmx, hmutexes.trans hafter⟩
    simp only [ModelAction.isMutex, Bool.or_eq_true, decide_eq_true_eq] at ha
    rcases ha with (htype | htype) | htype
    · rw [execute, htype] at hexecute
      exact serves_of_lock hrun htype (hholds.lock_value htype) hexecute
    · rw [execute, htype] at hexecute
      exact serves_of_trylock htype hexecute
    · rw [execute, htype] at hexecute
      exact serves_of_unlock hrun htype hexecute
  · suffices hserves : s.Serves a v s₁ by
      obtain ⟨mx, hmx, hafter⟩ := hserves
      exact ⟨mx, hmx, hmutexes.trans hafter⟩
    simp only [ModelAction.isMutex, Bool.or_eq_true, decide_eq_true_eq] at ha
    have htype : a.type = .atomicLock := by
      rcases hwaits _ _ _ hctx with htype | htype | htype
      · exact htype
      · simp [htype] at ha
      · simp [htype] at ha
    rw [resumeExecute, htype] at hresume
    exact serves_of_lockLoop hrun htype hresume

/-- The action is a condition wait with the mutex `m`. -/
def Event.WaitsWith (m : MutexId) : Event → Prop
  | .executed a _ _ | .blocked a => a.type = .atomicWait ∧ a.value = m
  | _ => False

instance (m : MutexId) : (e : Event) → Decidable (e.WaitsWith m)
  | .executed a _ _ => inferInstanceAs (Decidable (a.type = .atomicWait ∧ a.value = m))
  | .blocked a => inferInstanceAs (Decidable (a.type = .atomicWait ∧ a.value = m))
  | .called _ | .finished _ | .popped _ | .returned _ | .noAction | .exited => .isFalse not_false

/-- The running thread owns `m` and gives it up, or holds it less often. -/
structure Model.GivesUp (s : Model) (m : MutexId) (s' : Model) : Prop where
  before : (s.mutexes m).owner = some s.threadId
  after : (s'.mutexes m).owner = none ∨ (s'.mutexes m).owner = some s.threadId

theorem Model.processCrash_mutexes (s : Model) : s.processCrash.mutexes = s.mutexes := by
  refine Model.processCrash_induction (P := fun x => x.mutexes = s.mutexes) rfl ?_
  intro x i _ _ hx
  unfold Model.crashThread
  split
  · exact hx
  · exact hx

theorem ThreadExit.mutexes_eq (h : ThreadExit s s₁) : s₁.mutexes = s.mutexes := by
  cases h with
  | quit _ => rfl
  | late _ _ => exact s.processCrash_mutexes
  | lateBack _ _ => exact Model.processCrash_mutexes _
  | died h hworks hdies =>
      rw [hdies.state, Model.processCrash_mutexes]
      refine hworks.mutexes.trans ?_
      obtain rfl | ⟨_, _, _, _, _, rfl⟩ := h <;> rfl
  | shutdown _ hworks => exact hworks.mutexes
  | shutdownDied ts _ hworks _ hdies =>
      rw [hdies.state, Model.processCrash_mutexes]
      exact hworks.mutexes

/-- The mutexes after an action that does not wait for anything. -/
theorem ThreadCase.executed_mutexes (h : ThreadCase s (.ok (.executed a v rf)) s')
    (hsync : a.isSync = false) : s'.mutexes = s.mutexes := by
  have hcalls : ∀ {b : ModelAction} {ret' : Ret}, ¬ Calls b ret' s (.ok (.executed a v rf)) s' := by
    intro b ret' h
    cases h with
    | yields h => cases h
  have hacts : ∀ {b : ModelAction} {s₁ : Model}, b.isSync = false → Acts b s s₁ →
      s₁.mutexes = s.mutexes := by
    intro b s₁ hb hacts
    cases hacts with
    | work _ h => exact h.mutexes
    | idle _ _ _ => rfl
    | create _ h => exact h.mutexes
    | acquire htype _ _ => rcases htype with htype | htype <;> simp [ModelAction.isSync, htype] at hb
    | relock _ htype _ => simp [ModelAction.isSync, htype] at hb
    | unlockOnce _ _ hsync _ _ => cases hb.symm.trans hsync
    | unlock _ hsync _ _ => cases hb.symm.trans hsync
    | notifyOne _ => exact congrArg (·.mutexes) (s.wakeThreadWaitingOn_eq _)
    | notifyAll _ => rfl
  generalize hr : (Except.ok (Event.executed a v rf) : Except Stop Event) = r at h
  cases h with
  | called _ _ _ h => exact absurd (hr ▸ h) hcalls
  | secondHalf _ _ _ h => exact absurd (hr ▸ h) hcalls
  | lockAgain _ _ h => exact absurd (hr ▸ h) hcalls
  | executed _ _ h =>
      cases hr
      have hmutexes := hacts hsync h
      exact hmutexes
  | resumed _ _ h =>
      cases hr
      have hmutexes := hacts hsync h
      exact hmutexes
  | @blocked _ _ q => cases q <;> cases hr
  | @finished _ _ _ b => cases b <;> cases hr
  | userDone _ h => cases h <;> cases hr
  | _ => cases hr

/-- An action that has come back and is none on a mutex. -/
theorem SysStep.executed_mutexes {l : Label} (hcfg : cfg.memPoison = false) (hs : s.Underway)
    (h : SysStep cfg s l s') (he : l.event = .executed a v rf) (ha : a.isMutex = false) (m : MutexId) :
    s'.mutexes m = s.mutexes m ∨
      (a.type = .atomicWait ∧ a.value = m) ∧ s.GivesUp m s' := by
  obtain ⟨_, hrun, hthread, _⟩ := hs.sysStep hcfg h
  by_cases hsync : a.isSync = true
  swap
  · rw [he] at hthread
    exact .inl (by rw [hthread.executed_mutexes (Bool.eq_false_iff.mpr hsync)])
  obtain ⟨ret, i, s₁, hfinish, hbefore⟩ := h.executes hcfg hs.placed he
  have hmutexes := (ends_executedFlow hfinish).2
  obtain ⟨b, _, rfl, hexecute⟩ | ⟨_, hresume⟩ := hbefore
  · obtain ⟨hstamp, hprepared⟩ := Model.stamp_of_executed (ModelAction.isControl_of_isSync hsync)
    rw [hstamp] at ha hsync hexecute ⊢
    rw [hprepared] at hexecute
    simp only [ModelAction.isMutex, Bool.or_eq_false_iff, decide_eq_false_iff_not] at ha
    simp only [ModelAction.isSync, Bool.or_eq_true, decide_eq_true_eq] at hsync
    obtain ⟨⟨hlock, htry⟩, hunlock⟩ := ha
    -- join, trylock, lock, wait, timed wait and unlock, in this order
    rcases hsync with ((((htype | htype) | htype) | htype) | htype) | htype
    · rw [execute, htype] at hexecute
      exact .inl (by rw [hmutexes, ends_executeJoin hexecute])
    · exact absurd htype htry
    · exact absurd htype hlock
    · rw [execute, htype] at hexecute
      have hm : b.getMutex = some b.value := by rw [ModelAction.getMutex, htype]
      obtain ⟨_, rfl⟩ | ⟨howner, ⟨_, _, rfl⟩ | ⟨_, hnot, _⟩⟩ := ends_executeUnlock hrun hm hexecute
      · exact .inl (by rw [hmutexes])
      · by_cases hb : b.value = m
        · subst hb
          refine .inr ⟨⟨htype, rfl⟩, howner, .inr ?_⟩
          rw [hmutexes]
          show (Function.update s.mutexes b.value _ b.value).owner = some s.threadId
          rw [Function.update_self]
          exact howner
        · left
          rw [hmutexes]
          exact Function.update_of_ne (Ne.symm hb) _ _
      · exact absurd htype hnot
    · rw [execute, htype] at hexecute
      have hm : b.getMutex = none := by rw [ModelAction.getMutex, htype]
      dsimp only at hexecute
      rw [executeUnlock, hm] at hexecute
      cases (ends_stop.mp hexecute).1
    · exact absurd htype hunlock
  · left
    -- of the actions that are resumed only a lock takes a mutex
    have hlock : a.type ≠ .atomicLock := by
      intro htype
      simp [ModelAction.isMutex, htype] at ha
    unfold resumeExecute at hresume
    split at hresume
    · next htype => exact absurd htype hlock
    · rw [hmutexes, (ends_pure.mp hresume).2]

/-- Any other step leaves a mutex alone, unless it is a condition wait of its owner. -/
theorem SysStep.mutexes_eq {l : Label} (hcfg : cfg.memPoison = false) (hs : s.Underway)
    (h : SysStep cfg s l s') (hnot : ∀ a v rf, l.event = .executed a v rf → a.isMutex = false)
    (m : MutexId) :
    s'.mutexes m = s.mutexes m ∨ l.event.WaitsWith m ∧ s.GivesUp m s' := by
  obtain ⟨_, hrun, hthread, _⟩ := hs.sysStep hcfg h
  have hexecuted := fun a v rf he => h.executed_mutexes hcfg hs he (hnot a v rf he) m
  generalize l.event = e at hthread hexecuted ⊢
  generalize hr : (Except.ok e : Except Stop Event) = r at hthread
  cases hthread with
  | called _ _ _ h => exact .inl (by rw [h.mutexes_eq])
  | secondHalf _ _ _ h => exact .inl (by rw [h.mutexes_eq])
  | lockAgain _ _ h => exact .inl (by rw [h.mutexes_eq])
  | executed _ _ _ =>
      cases hr
      exact hexecuted _ _ _ rfl
  | resumed _ _ _ =>
      cases hr
      exact hexecuted _ _ _ rfl
  | @blocked a _ q s₁ _ _ hwaits h =>
      cases q with
      | error _ => cases hr
      | ok _ =>
          cases hr
          have hmutexes : s'.mutexes = s₁.mutexes := h.mutexes_eq
          -- a condition wait that is blocked gives its mutex up
          cases hwaits with
          | stays _ _ => exact .inl (by rw [hmutexes])
          | gives hgive =>
              by_cases hm : a.value = m
              · subst hm
                refine .inr ⟨⟨hgive.type, rfl⟩, hgive.owner, .inl ?_⟩
                rw [hmutexes]
                show (Function.update s.mutexes a.value _ a.value).owner = none
                rw [Function.update_self]
              · left
                rw [hmutexes]
                exact Function.update_of_ne (Ne.symm hm) _ _
  | finished _ _ h =>
      left
      rw [h.mutexes_eq]
      rfl
  | relocks => cases hr
  | popped _ h => exact .inl (by rw [h.mutexes]; rfl)
  | returned _ _ h => exact .inl (by rw [h.mutexes]; rfl)
  | noAction _ h => exact .inl (by rw [h.mutexes])
  | userDone _ h => exact .inl (by rw [h.mutexes_eq]; rfl)
  | exited hexit _ =>
      left
      rw [← hexit.mutexes_eq]
      rfl
  | exitStuck _ _ => cases hr

/-- What a step does to the mutex `m`. -/
theorem SysStep.mutex_cases {l : Label} (hcfg : cfg.memPoison = false) (hs : s.Underway)
    (hwaits : s.WaitsKnown) (h : SysStep cfg s l s') (m : MutexId) :
    (∃ a v rf, l.event = .executed a v rf ∧ a.location = m ∧ a.isMutex = true ∧
      (s.mutexes m).Serves s.threadId (fun o => (s.threads o).state = .crashed) a.type v
        (s'.mutexes m)) ∨
    (∀ a v rf, l.event = .executed a v rf → a.location = m → a.isMutex = false) ∧
      (s'.mutexes m = s.mutexes m ∨ l.event.WaitsWith m ∧ s.GivesUp m s') := by
  obtain ⟨_, hrun, _, _⟩ := hs.sysStep hcfg h
  by_cases hmutex : ∃ a v rf, l.event = .executed a v rf ∧ a.isMutex = true
  · obtain ⟨a, v, rf, he, ha⟩ := hmutex
    obtain ⟨mx, hserves, hafter⟩ := h.serves hcfg hs.placed hrun hwaits he ha
    by_cases hm : a.location = m
    · subst hm
      refine .inl ⟨a, v, rf, he, rfl, ha, ?_⟩
      rw [hafter, Function.update_self]
      exact hserves
    · refine .inr ⟨fun a' v' rf' he' hm' => ?_, .inl ?_⟩
      · rw [he] at he'
        cases he'
        exact absurd hm' hm
      · rw [hafter, Function.update_of_ne (Ne.symm hm)]
  · have hnot : ∀ a v rf, l.event = .executed a v rf → a.isMutex = false := by
      intro a v rf he
      by_contra ha
      exact hmutex ⟨a, v, rf, he, by simpa using ha⟩
    exact .inr ⟨fun a v rf he _ => hnot a v rf he, h.mutexes_eq hcfg hs hnot m⟩

theorem IsRun.waitsKnown (hcfg : cfg.memPoison = false)
    {n cxlMapping : Nat} {memory : Nat → Nat} {mutexType : MutexId → MutexType}
    {tr : List (Model × Label)} (hrun : IsRun cfg n cxlMapping memory mutexType tr s') :
    ∀ x ∈ stepsOf tr s', (x.1.Underway ∧ x.1.WaitsKnown) ∧ SysStep cfg x.1 x.2.1 x.2.2 := by
  obtain ⟨hn, hrun⟩ := hrun
  refine (hrun.invariant_stepsOf (P := fun s => s.Underway ∧ s.WaitsKnown) ?_
    ⟨Model.underway_init hn, fun _ _ _ hctx => nomatch hctx⟩).1
  intro s l s₁ _ hp h
  obtain ⟨_, _, _, hs₁⟩ := hp.1.sysStep hcfg h
  exact ⟨hs₁, h.waitsKnown hcfg hp.1 hp.2⟩

end

end Cxlmc
