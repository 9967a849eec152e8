import Cxlmc.Threads.CondVar

/-!
# The mutex of a condition variable

`pthread_cond_wait` is two actions, the wait and a lock of the mutex. `Model.InWait` says where a thread
is between its call and its return; what other threads do leaves it there (`ThreadCase.bystander`), and
when it returns it owns the mutex (`no_lost_wakeup`).
-/

namespace Cxlmc

open Stateful

/-! ## Nobody has crashed -/

/-- Where no process is in `crashes`, no thread has crashed. -/
def Model.Unhurt (s : Model) : Prop := s.crashes = ∅ → ∀ t, (s.threads t).state ≠ .crashed

section

variable {s s' s₁ : Model} {a : ModelAction} {ret : Ret} {t : ThreadId} {m : MutexId}

theorem Model.Works.noCrash (h : s.Works s') (hafter : s'.crashes = ∅) : s.crashes = ∅ := by
  have hloses := h.crashes
  generalize s'.crashes = c at hloses hafter
  cases hloses with
  | none => exact hafter
  | one clock _ _ => exact absurd hafter (Model.emplace_ne_empty _ _ _)

theorem Model.Dies.crashes_ne (h : s.Dies s') : s'.crashes ≠ ∅ := by
  rw [h.state, (s.crash s.processId).processCrash_sameStatus.crashes]
  exact Model.emplace_ne_empty _ _ _

theorem Model.Unhurt.gone (h : s.Unhurt) : s.gone.Unhurt := by
  intro hnone u
  have hu := h hnone u
  rw [s.gone_threads]
  grind [Thread.isCompleted]

theorem ThreadStep.unhurt (h : ThreadStep s s') (hs : s.Unhurt) : s'.Unhurt := by
  intro hnone u
  cases h with
  | work h =>
      rw [h.threads]
      exact hs (h.noCrash hnone) u
  | place c hrun _ => exact (hrun.setContext_turns c u).not_crashed (hs hnone u)
  | call a ret hrun => exact (hrun.called_turns a ret u).not_crashed (hs hnone u)
  | back c hrun _ => exact (hrun.backAt_turns c u).not_crashed (hs hnone u)
  | pass _ _ _ => exact hs hnone u
  | acquire m hrun _ _ => exact (hrun.acquired_turns m u).not_crashed (hs hnone u)
  | recount _ _ _ => exact hs hnone u
  | release m hrun _ => exact (hrun.released_turns m u).not_crashed (hs hnone u)
  | create _ =>
      have hu := hs hnone u
      rw [s.newThread_threads]
      split
      · simp [Thread.new]
      · exact hu
  | notifyOne c =>
      have hcrashes : (s.wakeThreadWaitingOn (.cond c)).crashes = s.crashes :=
        congrArg (·.crashes) (s.wakeThreadWaitingOn_eq _)
      rw [hcrashes] at hnone
      exact (s.wakeOne_turns (.cond c) u).not_crashed (hs hnone u)
  | notifyAll c => exact (s.wakeAll_turns _ u).not_crashed (hs hnone u)
  | wait a ret _ _ _ =>
      have hu := hs hnone u
      grind [Model.waits_threads]
  | finish v _ =>
      have hu := hs hnone u
      grind [Model.finishes_threads]
  | shutdown _ _ =>
      have hu := hs hnone u
      show ((s.terminated (List.range s.threadCount)).threads u).state ≠ .crashed
      grind [Model.terminated_threads]
  | die _ h => exact absurd hnone h.crashes_ne
  | dieLate _ hcrashed =>
      rw [s.processCrash_sameStatus.crashes] at hnone
      simp [Model.isCrashed, hnone] at hcrashed
  | dieInShutdown ts _ _ _ h => exact absurd hnone h.crashes_ne
  | leave _ => exact hs.gone hnone u

theorem Model.Quits.unhurt (h : s.Quits s') (hs : s.Unhurt) : s'.Unhurt := by
  obtain ⟨u, _, rfl⟩ | ⟨_, rfl⟩ := h.passes
  · exact hs.gone
  · exact hs.gone

/-! ## The steps of other threads -/

/-- The thread stays where it is, unless its process ends, and the mutex is as it was if the thread
owns it. -/
structure Model.Passes (s s' : Model) (t : ThreadId) (m : MutexId) : Prop where
  place : s'.contextOf t = s.contextOf t ∨ s'.contextOf t = .exited
  mutex : (s.mutexes m).owner = some t → s'.mutexes m = s.mutexes m

theorem Model.Passes.of_eq (hthread : s'.threads t = s.threads t) (hmutexes : s'.mutexes = s.mutexes) :
    s.Passes s' t m := by
  refine ⟨.inl ?_, fun _ => by rw [hmutexes]⟩
  rw [Model.contextOf, hthread]
  rfl

theorem Model.Passes.trans {s'' : Model} (h : s.Passes s₁ t m) (h' : s₁.Passes s'' t m) :
    s.Passes s'' t m := by
  constructor
  · rcases h'.place with hplace | hplace
    · rw [hplace]
      exact h.place
    · exact .inr hplace
  · intro howner
    have hfirst := h.mutex howner
    rw [← hfirst] at howner
    exact (h'.mutex howner).trans hfirst

/-- No thread but the owner changes a mutex, unless the owner has crashed. -/
theorem Acts.mutex_eq (h : Acts a s s₁) (hne : t ≠ s.threadId) (halive : (s.threads t).state ≠ .crashed)
    (howner : (s.mutexes m).owner = some t) : s₁.mutexes m = s.mutexes m := by
  have hother : ∀ m', (s.mutexes m').owner = some s.threadId → m ≠ m' := by
    rintro m' howner' rfl
    rw [howner] at howner'
    exact hne (Option.some.inj howner')
  cases h with
  | work _ h => rw [h.mutexes]
  | idle _ _ _ => rfl
  | create _ h => rw [h.mutexes]; rfl
  | acquire _ hfree _ =>
      have hne' : m ≠ a.location := by
        rintro rfl
        exact halive (hfree t howner)
      exact Function.update_of_ne hne' _ _
  | relock _ _ howner' => exact Function.update_of_ne (hother _ howner') _ _
  | unlockOnce _ _ _ _ howner' => exact Function.update_of_ne (hother _ howner') _ _
  | unlock _ _ _ howner' => exact Function.update_of_ne (hother _ howner') _ _
  | notifyOne _ =>
      have hmutexes : (s.wakeThreadWaitingOn (.cond a.location)).mutexes = s.mutexes :=
        congrArg (·.mutexes) (s.wakeThreadWaitingOn_eq _)
      rw [hmutexes]
  | notifyAll _ => rfl

theorem Acts.contextOf_eq (h : Acts a s s₁) (ht : t < s.threadCount) :
    s₁.contextOf t = s.contextOf t := by
  show (s₁.threads t).context = (s.threads t).context
  cases h with
  | work _ h => rw [h.threads]
  | create _ h => rw [h.threads, s.newThread_threads, if_neg (Nat.ne_of_lt ht)]
  | acquire _ _ _ => grind [Model.acquired_threads]
  | unlock _ _ _ _ => grind [Model.released_threads]
  | notifyOne _ =>
      rcases s.wakeOne_threads (.cond a.location) t with heq | ⟨_, heq⟩ <;> rw [heq]
  | notifyAll _ => grind [Model.wakeAllThreadsWaitingOn_threads]
  | _ => rfl

theorem Waits.passes (h : Waits a s s₁) (hne : t ≠ s.threadId) : s.Passes s₁ t m := by
  cases h with
  | stays _ _ => exact .of_eq rfl rfl
  | gives hgive =>
      constructor
      · left
        show ((s.released a.value).threads t).context = _
        grind [Model.released_threads, Model.contextOf]
      · intro howner
        have hne' : m ≠ a.value := by
          rintro rfl
          rw [hgive.owner] at howner
          exact hne (Option.some.inj howner).symm
        exact Function.update_of_ne hne' _ _

theorem Model.Passes.gone : s.Passes s.gone t m := by
  refine ⟨?_, fun _ => rfl⟩
  show (s.gone.threads t).context = _ ∨ (s.gone.threads t).context = _
  grind [Model.gone_threads, Model.contextOf]

/-- A step without crashes leaves the other threads where they are, with their mutexes. -/
theorem ThreadCase.bystander {e : Event} (h : ThreadCase s (.ok e) s') (hbefore : s.crashes = ∅)
    (hafter : s'.crashes = ∅) (hne : t ≠ s.threadId) (ht : t < s.threadCount)
    (halive : (s.threads t).state ≠ .crashed) : s.Passes s' t m := by
  have hcalls : ∀ {b : ModelAction} {ret' : Ret} {r : Except Stop Event}, Calls b ret' s r s' →
      s.Passes s' t m := by
    intro b ret' r h
    refine .of_eq ?_ h.mutexes_eq
    rw [h.threads_eq, s.called_threads, if_neg hne]
  have hacts : ∀ {b : ModelAction} {y : Model} {c : Context}, Acts b s y →
      s.Passes (y.backAt c) t m := by
    intro b y c hacts
    have hfirst : s.Passes y t m :=
      ⟨.inl (hacts.contextOf_eq ht), fun howner => hacts.mutex_eq hne halive howner⟩
    refine hfirst.trans (.of_eq ?_ rfl)
    rw [y.backAt_threads, if_neg (hacts.threadId_eq ▸ hne)]
  have hset : ∀ c, s.Passes (s.setContext s.threadId c) t m := by
    intro c
    refine .of_eq ?_ rfl
    rw [Model.setContext, Model.setThread_threads, if_neg hne]
  have hworks : ∀ {x y : Model}, x.Works y → x.Passes y t m :=
    fun h => .of_eq (by rw [h.threads]) h.mutexes
  -- each kind of step moves the running thread only, and what it gives away is not `t`'s
  generalize hr : (Except.ok e : Except Stop Event) = r at h
  cases h with
  | called _ _ _ h => exact hcalls h
  | secondHalf _ _ _ h => exact hcalls h
  | lockAgain _ _ h => exact hcalls h
  | executed _ _ h => exact hacts h
  | resumed _ _ h => exact hacts h
  | @blocked b ret' q y _ _ hwaits h =>
      have hself : y.threadId = s.threadId := by
        cases hwaits <;> rfl
      have hwait : y.Passes (y.waits b ret') t m := by
        refine .of_eq ?_ rfl
        rw [y.waits_threads, if_neg (hself ▸ hne)]
      exact (hwaits.passes hne).trans (hwait.trans (.of_eq (by rw [h.threads_eq]) h.mutexes_eq))
  | @finished _ _ v _ _ _ _ h =>
      have hfinish : s.Passes (s.finishes v) t m := by
        refine ⟨.inl ?_, fun _ => rfl⟩
        show ((s.finishes v).threads t).context = _
        grind [Model.finishes_threads, Model.contextOf]
      exact hfinish.trans (.of_eq (by rw [h.threads_eq]) h.mutexes_eq)
  | relocks => cases hr
  | popped _ h => exact (hset _).trans (hworks h)
  | returned _ _ h => exact (hset _).trans (hworks h)
  | noAction _ h => exact hworks h
  | userDone _ h => exact (hset _).trans (.of_eq (by rw [h.threads_eq]) h.mutexes_eq)
  | @exited y _ hexit _ =>
      have hpassed : ∀ {x : Model} {u : ThreadId}, x.Passes (x.passed u) t m := .of_eq rfl rfl
      -- without a crash a thread exits at its end or at the shutdown of its process
      rcases hexit.of_noCrash hbefore hafter with ⟨rfl, _⟩ | ⟨_, s₂, hw, rfl⟩
      · exact Model.Passes.gone.trans hpassed
      · have hended : s₂.Passes { s₂.terminated (List.range s₂.threadCount) with
            completedProcs := insert s₂.processId s₂.completedProcs } t m := by
          refine ⟨.inl ?_, fun _ => rfl⟩
          show ((s₂.terminated (List.range s₂.threadCount)).threads t).context = _
          grind [Model.terminated_threads, Model.contextOf]
        exact (hworks hw).trans (hended.trans (Model.Passes.gone.trans hpassed))
  | exitStuck _ _ => cases hr

/-! ## Between the call and the return -/

/-- The thread is in the wait itself, or on the way from it to `lock->lock()`. -/
inductive Context.Waits (m : MutexId) : Context → Prop where
  | ready (a : ModelAction) : Context.Waits m (.ready a (.lock m))
  | waiting (a : ModelAction) : Context.Waits m (.waiting a (.lock m))
  | popping (mem : ThreadId) (n v : Nat) : Context.Waits m (.popping mem n v (.lock m))

/-- The thread is in the lock after a wait. -/
inductive Context.Relocks (m : MutexId) : Context → Prop where
  | ready {a : ModelAction} (htype : a.type = .atomicLock) (hloc : a.location = m) :
      Context.Relocks m (.ready a .toUser)
  | waiting {a : ModelAction} (htype : a.type = .atomicLock) (hloc : a.location = m) :
      Context.Relocks m (.waiting a .toUser)

/-- The thread is between the call of a condition wait with the mutex `m` and its return, or its
process has ended. -/
inductive Model.InWait (s : Model) (t : ThreadId) (m : MutexId) : Prop where
  | waits (h : (s.contextOf t).Waits m)
  | relocks (h : (s.contextOf t).Relocks m)
  | back {mem : ThreadId} {n v : Nat} (h : s.contextOf t = .popping mem n v .toUser)
      (howner : (s.mutexes m).owner = some t)
  | gone (h : s.contextOf t = .exited)

theorem Model.InWait.passes (h : s.InWait t m) (hpasses : s.Passes s' t m) : s'.InWait t m := by
  rcases hpasses.place with hplace | hplace
  · cases h with
    | waits h => exact .waits (hplace ▸ h)
    | relocks h => exact .relocks (hplace ▸ h)
    | back h howner =>
        refine .back (hplace.trans h) ?_
        rw [hpasses.mutex howner]
        exact howner
    | gone h => exact .gone (hplace.trans h)
  · exact .gone hplace

/-- A thread between a wait and its return is not in the program, nor in `process_shutdown`. -/
theorem Model.InWait.place (h : s.InWait t m) :
    s.contextOf t ≠ .user ∧ s.contextOf t ≠ .shutdown := by
  cases h with
  | waits h =>
      generalize s.contextOf t = c at h
      cases h <;> exact ⟨nofun, nofun⟩
  | relocks h =>
      generalize s.contextOf t = c at h
      cases h <;> exact ⟨nofun, nofun⟩
  | back h _ => rw [h]; exact ⟨nofun, nofun⟩
  | gone h => rw [h]; exact ⟨nofun, nofun⟩

/-- Where `ATOMIC_LOCK` comes back, the thread owns the mutex. -/
theorem Acts.owns (h : Acts a s s₁) (htype : a.type = .atomicLock) :
    (s₁.mutexes a.location).owner = some s.threadId := by
  cases h with
  | acquire _ _ _ =>
      show (Function.update s.mutexes a.location _ a.location).owner = _
      rw [Function.update_self]
  | relock count _ howner =>
      show (Function.update s.mutexes a.location _ a.location).owner = _
      rw [Function.update_self]
      exact howner
  | idle hlock _ _ => exact absurd htype hlock
  | unlockOnce _ _ _ hlock _ => exact absurd htype hlock
  | unlock _ _ hlock _ => exact absurd htype hlock
  | _ => simp_all [ModelAction.isControl, ModelAction.isLoad, ModelAction.isBuffered]

theorem Model.backAt_contextOf (s : Model) (c : Context) :
    (s.backAt c).contextOf s.threadId = c := by
  show ((s.backAt c).threads s.threadId).context = c
  rw [s.backAt_threads, if_pos rfl]

theorem Model.setContext_contextOf (s : Model) (c : Context) :
    (s.setContext s.threadId c).contextOf s.threadId = c := by
  show ((s.setContext s.threadId c).threads s.threadId).context = c
  rw [Model.setContext, Model.setThread_threads, if_pos rfl]

/-- Back from `execute`: on the way to the lock, or with the mutex. -/
theorem Acts.inWait {b : ModelAction} {mem : ThreadId} {n v : Nat} (h : Acts b s s₁)
    (htype : b.type = a.type) (hloc : b.location = a.location)
    (hplace : Context.Waits m (.ready a ret) ∨ Context.Relocks m (.ready a ret)) :
    (s₁.backAt (.popping mem n v ret)).InWait s.threadId m := by
  have hctx : (s₁.backAt (.popping mem n v ret)).contextOf s.threadId = .popping mem n v ret := by
    rw [← h.threadId_eq]
    exact s₁.backAt_contextOf _
  rcases hplace with hplace | hplace
  · cases hplace with
    | ready _ =>
        refine .waits ?_
        rw [hctx]
        exact .popping mem n v
  · cases hplace with
    | ready htype' hloc' =>
        refine .back hctx ?_
        rw [← hloc', ← hloc]
        exact h.owns (htype.trans htype')

/-- A thread that is in one of the two actions of a condition wait is in the wait, or locks again. -/
theorem Model.InWait.action {t : ThreadId} {b : ModelAction} {ret : Ret} (h : s.InWait t m)
    (hctx : s.contextOf t = .ready b ret ∨ s.contextOf t = .waiting b ret) :
    Context.Waits m (.ready b ret) ∨ Context.Relocks m (.ready b ret) := by
  cases h with
  | waits hw => rcases hctx with hctx | hctx <;> rw [hctx] at hw <;> cases hw <;> exact .inl (.ready b)
  | relocks hr =>
      rcases hctx with hctx | hctx <;> rw [hctx] at hr
      · cases hr with
        | ready htype hloc => exact .inr (.ready htype hloc)
      · cases hr with
        | waiting htype hloc => exact .inr (.ready htype hloc)
  | back hb _ => rcases hctx with hctx | hctx <;> rw [hctx] at hb <;> cases hb
  | gone hg => rcases hctx with hctx | hctx <;> rw [hctx] at hg <;> cases hg

/-- Behind the wait the lock comes next, and behind the lock the thread owns the mutex. -/
theorem Model.InWait.behind {t mem : ThreadId} {n v : Nat} {ret : Ret} (h : s.InWait t m)
    (hctx : s.contextOf t = .popping mem n v ret) :
    ret = .lock m ∨ ret = .toUser ∧ (s.mutexes m).owner = some t := by
  cases h with
  | waits hw =>
      rw [hctx] at hw
      cases hw
      exact .inl rfl
  | relocks hr =>
      rw [hctx] at hr
      cases hr
  | back hb howner =>
      rw [hctx] at hb
      cases hb
      exact .inr ⟨rfl, howner⟩
  | gone hg =>
      rw [hctx] at hg
      cases hg

/-- The steps of a thread between the call of a condition wait and its return. -/
theorem ThreadCase.inWait {e : Event} (h : ThreadCase s (.ok e) s') (hplaced : s.Placed)
    (hbefore : s.crashes = ∅) (hafter : s'.crashes = ∅) (ht : s.InWait s.threadId m) :
    s'.InWait s.threadId m ∨ (∃ v, e = .returned v) ∧ (s'.mutexes m).owner = some s.threadId := by
  obtain ⟨huser, hshutdown⟩ := ht.place
  have hholds := hplaced.holds s.threadId
  -- a thread in a wait is in no place where it could make a call or exit
  generalize hr : (Except.ok e : Except Stop Event) = r at h
  cases h with
  | called hctx _ _ _ => exact absurd hctx huser
  | secondHalf hctx _ _ _ => rcases ht.behind hctx with h | ⟨h, _⟩ <;> cases h
  -- the wait is over, and the mutex is asked for again
  | @lockAgain mem v m' _ _ hctx _ h =>
      rcases ht.behind hctx with hm | ⟨hm, _⟩
      · cases hm
        refine .inl (.relocks ?_)
        have hplace : s'.contextOf s.threadId =
            .ready { tid := s.threadId, type := .atomicLock, location := m } .toUser := by
          show (s'.threads s.threadId).context = _
          rw [h.threads_eq, s.called_threads, if_pos rfl]
        rw [hplace]
        exact .ready rfl rfl
      · cases hm
  | @executed b ret' _ _ _ _ _ hctx _ hacts =>
      have hloc : (s.stamp b).location = b.location := by
        unfold Model.stamp
        split <;> rfl
      exact .inl (hacts.inWait (s.stamp_type b) hloc (ht.action (.inl hctx)))
  | resumed hctx _ hacts => exact .inl (hacts.inWait rfl rfl (ht.action (.inr hctx)))
  | @blocked b ret' q y _ hctx hwaits h =>
      have hself : y.threadId = s.threadId := by
        cases hwaits <;> rfl
      have hplace : s'.contextOf s.threadId = .waiting b ret' := by
        show (s'.threads s.threadId).context = _
        rw [h.threads_eq, ← hself, y.waits_threads, if_pos rfl]
      rcases ht.action hctx with hw | hw
      · cases hw
        exact .inl (.waits (hplace ▸ .waiting b))
      · cases hw with
        | ready htype hloc => exact .inl (.relocks (hplace ▸ .waiting htype hloc))
  | @finished b ret' _ _ _ hctx htype _ =>
      rcases ht.action (.inl hctx) with hw | hw
      · cases hw
        -- the action of a wait does not finish its thread
        rw [hctx] at hholds
        rcases htype with h | h <;> rcases Issued.type_of_lock hholds with h' | h' <;>
          rw [h] at h' <;> cases h'
      · cases hw with
        | ready htype' _ => rcases htype with h | h <;> rw [h] at htype' <;> cases htype'
  | relocks => cases hr
  | @popped mem n v ret' _ hctx hw =>
      have hplace : s'.contextOf s.threadId = .popping mem n v ret' := by
        show (s'.threads s.threadId).context = _
        rw [hw.threads]
        exact s.setContext_contextOf _
      rcases ht.behind hctx with rfl | ⟨rfl, howner⟩
      · exact .inl (.waits (hplace ▸ .popping mem n v))
      · refine .inl (.back hplace ?_)
        rw [hw.mutexes]
        exact howner
  -- the way back to the program
  | @returned _ v _ _ hctx hret hw =>
      cases hr
      rcases ht.behind hctx with rfl | ⟨_, howner⟩
      · exact absurd rfl (hret.1 m)
      · refine .inr ⟨⟨v, rfl⟩, ?_⟩
        rw [hw.mutexes]
        exact howner
  | noAction hctx _ => exact absurd hctx huser
  | userDone hctx _ => exact absurd hctx huser
  | exited hexit _ =>
      rcases hexit.of_noCrash hbefore hafter with ⟨_, hctx⟩ | ⟨hctx, _⟩
      · exact absurd hctx huser
      · exact absurd hctx hshutdown
  | exitStuck _ _ => cases hr

/-- Who takes a step without crashes has not exited. -/
theorem ThreadCase.not_exited {e : Event} (h : ThreadCase s (.ok e) s') (hbefore : s.crashes = ∅)
    (hafter : s'.crashes = ∅) : s.contextOf s.threadId ≠ .exited := by
  intro hgone
  generalize hr : (Except.ok e : Except Stop Event) = r at h
  cases h with
  | called hctx _ _ _ => cases hgone.symm.trans hctx
  | secondHalf hctx _ _ _ => cases hgone.symm.trans hctx
  | lockAgain hctx _ _ => cases hgone.symm.trans hctx
  | executed hctx _ _ => cases hgone.symm.trans hctx
  | resumed hctx _ _ => cases hgone.symm.trans hctx
  | blocked hctx _ _ => rcases hctx with hctx | hctx <;> cases hgone.symm.trans hctx
  | finished hctx _ _ => cases hgone.symm.trans hctx
  | relocks => cases hr
  | popped hctx _ => cases hgone.symm.trans hctx
  | returned hctx _ _ => cases hgone.symm.trans hctx
  | noAction hctx _ => cases hgone.symm.trans hctx
  | userDone hctx _ => cases hgone.symm.trans hctx
  | exited hexit _ =>
      rcases hexit.of_noCrash hbefore hafter with ⟨_, hctx⟩ | ⟨hctx, _⟩ <;>
        cases hgone.symm.trans hctx
  | exitStuck _ _ => cases hr

/-- Where the action has returned, the thread is back in the program. -/
theorem ThreadCase.returns {v : Nat} (h : ThreadCase s (.ok (.returned v)) s') :
    s'.contextOf s.threadId = .user := by
  have hcalls : ∀ {b : ModelAction} {ret' : Ret}, ¬ Calls b ret' s (.ok (.returned v)) s' := by
    intro b ret' h
    generalize hr : (Except.ok (Event.returned v) : Except Stop Event) = r at h
    cases h with
    | stays => cases hr
    | yields h => cases h <;> cases hr
  generalize hr : (Except.ok (Event.returned v) : Except Stop Event) = r at h
  cases h with
  | called _ _ _ h => exact absurd (hr ▸ h) hcalls
  | secondHalf _ _ _ h => exact absurd (hr ▸ h) hcalls
  | lockAgain _ _ h => exact absurd (hr ▸ h) hcalls
  | returned _ _ hw =>
      show (s'.threads s.threadId).context = _
      rw [hw.threads]
      exact s.setContext_contextOf _
  | blocked _ _ h => cases h <;> cases hr
  | finished _ _ h => cases h <;> cases hr
  | userDone _ h => cases h <;> cases hr
  | _ => cases hr

/-! ## Runs -/

/-- Where the thread is after the head of a condition wait. -/
theorem ThreadCase.begins (h : ThreadCase s (.ok (.called a)) s') (htype : a.type = .atomicWait) :
    s'.contextOf s.threadId = .ready a (.lock a.value) ∧ s'.mutexes = s.mutexes := by
  have hcalls : ∀ {b : ModelAction} {ret' : Ret}, Calls b ret' s (.ok (.called a)) s' →
      a = b ∧ s'.contextOf s.threadId = .ready a ret' ∧ s'.mutexes = s.mutexes := by
    intro b ret' h
    have hplace : s'.contextOf s.threadId = .ready b ret' := by
      show (s'.threads s.threadId).context = _
      rw [h.threads_eq, s.called_threads, if_pos rfl]
    have hmutexes := h.mutexes_eq
    have heq : a = b := by
      generalize hr : (Except.ok (Event.called a) : Except Stop Event) = r at h
      cases h with
      | stays => cases hr; rfl
      | yields h => cases h <;> cases hr <;> rfl
    exact ⟨heq, heq ▸ hplace, hmutexes⟩
  generalize hr : (Except.ok (Event.called a) : Except Stop Event) = r at h
  cases h with
  | called _ hissued _ h =>
      obtain ⟨rfl, hplace, hmutexes⟩ := hcalls (hr ▸ h)
      rw [hissued.wait htype] at hplace
      exact ⟨hplace, hmutexes⟩
  | @secondHalf _ v rmw _ _ _ _ _ ha _ h =>
      obtain ⟨rfl, _, _⟩ := hcalls (hr ▸ h)
      have hsecond : (rmw.secondHalf s.threadId (toUint rmw.size v)).1.type = .atomicWait := by
        rw [ha]
        exact htype
      unfold Rmw.secondHalf at hsecond
      split at hsecond <;> cases hsecond
  | lockAgain _ _ h =>
      obtain ⟨rfl, _, _⟩ := hcalls (hr ▸ h)
      cases htype
  | blocked _ _ h => cases h <;> cases hr
  | finished _ _ h => cases h <;> cases hr
  | userDone _ h => cases h <;> cases hr
  | _ => cases hr

/-- The thread is at the head of the wait and holds the mutex once, or its process has ended. -/
def Model.Entering (s : Model) (t : ThreadId) (a : ModelAction) : Prop :=
  s.contextOf t = .exited ∨ s.contextOf t = .ready a (.lock a.value) ∧
    (s.mutexes a.value).owner = some t ∧
    ¬ ((s.mutexes a.value).mutexType = .recursive ∧ (s.mutexes a.value).recursiveLockCount > 0)

theorem Model.Entering.passes (h : s.Entering t a) (hpasses : s.Passes s' t a.value) :
    s'.Entering t a := by
  rcases h with hgone | ⟨hctx, howner, honce⟩
  · rcases hpasses.place with hplace | hplace
    · exact .inl (hplace.trans hgone)
    · exact .inl hplace
  · rcases hpasses.place with hplace | hplace
    · refine .inr ⟨hplace.trans hctx, ?_⟩
      rw [hpasses.mutex howner]
      exact ⟨howner, honce⟩
    · exact .inl hplace

variable {cfg : Config} {n cxlMapping : Nat} {memory : Nat → Nat} {mutexType : MutexId → MutexType}
  {tr : List (Model × Label)}

theorem Model.unhurt_init : (Model.init n cxlMapping memory mutexType).Unhurt := fun _ _ => nofun

/-- What the steps of a run without crashes have in common. -/
structure PlainStep (x : Model × Label × Model) : Prop where
  underway : x.1.Underway
  unhurt : x.1.Unhurt
  runs : x.1.Runs
  tid : x.2.1.tid = x.1.threadId
  before : x.1.crashes = ∅
  after : x.2.2.crashes = ∅
  case : ThreadCase x.1 (.ok x.2.1.event) x.2.2

theorem IsRun.plainStep (hcfg : cfg.memPoison = false)
    (hrun : IsRun cfg n cxlMapping memory mutexType tr s') (hfree : CrashFree tr s') :
    ∀ x ∈ stepsOf tr s', PlainStep x := by
  obtain ⟨hall, _⟩ := hrun.threads hcfg (P := fun s => s.Unhurt ∧ s.crashes = ∅)
    ⟨Model.unhurt_init, rfl⟩ (by
      intro s l s₁ hmem hs hruns hp hcase
      refine ⟨?_, hfree _ hmem⟩
      exact hcase.invariant (fun _ hx hmove => hmove.unhurt hx) (fun h hx => h.unhurt hx) hruns
        hs.peopled hp.1)
  intro x hx
  obtain ⟨hs, ⟨hunhurt, hbefore⟩, htid, hruns, hcase⟩ := hall x hx
  exact ⟨hs, hunhurt, hruns, htid, hbefore, hfree x hx, hcase⟩

theorem PlainStep.bystander {x : Model × Label × Model} (h : PlainStep x) (hne : t ≠ x.2.1.tid)
    (hplace : x.1.contextOf t ≠ .user) : x.1.Passes x.2.2 t m := by
  have ht : t < x.1.threadCount := by
    by_contra hle
    apply hplace
    rw [Model.contextOf, h.underway.peopled.fresh t (Nat.le_of_not_lt hle)]
    rfl
  rw [h.tid] at hne
  exact h.case.bystander h.before h.after hne ht (h.unhurt h.before t)

theorem PlainStep.inWait {x : Model × Label × Model} (h : PlainStep x) (ht : x.1.InWait t m) :
    x.2.2.InWait t m ∨ x.2.1.tid = t ∧ (∃ v, x.2.1.event = .returned v) ∧
      (x.2.2.mutexes m).owner = some t := by
  by_cases hself : t = x.2.1.tid
  · have htid := hself.trans h.tid
    subst htid
    rcases h.case.inWait h.underway.placed h.before h.after ht with hwait | ⟨hreturn, howner⟩
    · exact .inl hwait
    · exact .inr ⟨hself.symm, hreturn, howner⟩
  · exact .inl (ht.passes (h.bystander hself ht.place.1))

theorem PlainStep.entering {x : Model × Label × Model} (h : PlainStep x) (hne : t ≠ x.2.1.tid)
    (ht : x.1.Entering t a) : x.2.2.Entering t a := by
  apply ht.passes
  apply h.bystander hne
  rcases ht with hplace | ⟨hplace, _⟩ <;> rw [hplace] <;> nofun

/-- Condition variables in every run without crashes. A thread that waits on one is woken by nothing
but a notify on it, or ends with its process; `notify_all` wakes all of them and `notify_one` one of
them. A thread that calls `pthread_cond_wait` with a mutex that it holds once gives it up and blocks in
its next step, and it owns the mutex when it returns. -/
theorem no_lost_wakeup (hcfg : cfg.memPoison = false)
    (hrun : IsRun cfg n cxlMapping memory mutexType tr s') (hfree : CrashFree tr s') :
    (∀ x ∈ stepsOf tr s',
      (∀ t c, x.1.WaitsOn t c →
        x.2.2.WaitsOn t c ∨
        (x.2.2.threads t).state = .running ∧ x.2.1.event.Notifies c ∨
        (x.2.2.threads t).state = .completed ∧ x.1.contextOf x.1.threadId = .shutdown ∧
          x.2.1.event = .exited ∧ (x.1.threads t).processId = x.1.processId) ∧
      (∀ t c b v rf, x.1.WaitsOn t c → x.2.1.event = .executed b v rf → b.location ≠ c →
        x.2.2.WaitsOn t c) ∧
      (∀ t b v rf, x.2.1.event = .executed b v rf → b.type = .atomicNotifyAll →
        x.1.WaitsOn t b.location → (x.2.2.threads t).state = .running) ∧
      (∀ t b v rf, x.2.1.event = .executed b v rf → b.type = .atomicNotifyOne →
        x.1.WaitsOn t b.location →
        ∃ u, x.1.WaitsOn u b.location ∧ (x.2.2.threads u).state = .running ∧
          ∀ w, w ≠ u → x.1.WaitsOn w b.location → x.2.2.WaitsOn w b.location)) ∧
    ∀ pre x mid y post b, stepsOf tr s' = pre ++ x :: (mid ++ y :: post) →
      x.2.1.event = .called b → b.type = .atomicWait → y.2.1.tid = x.2.1.tid →
      ((x.1.mutexes b.value).owner = some x.2.1.tid →
        ¬ ((x.1.mutexes b.value).mutexType = .recursive ∧
          (x.1.mutexes b.value).recursiveLockCount > 0) →
        (∀ z ∈ mid, z.2.1.tid ≠ x.2.1.tid) →
        y.2.1.event = .blocked b ∧ (y.2.2.mutexes b.value).owner = none ∧
          y.2.2.WaitsOn x.2.1.tid b.location) ∧
      ((∀ z ∈ mid, z.2.1.tid = x.2.1.tid → ∀ v, z.2.1.event ≠ .returned v) →
        ∀ v, y.2.1.event = .returned v → (y.2.2.mutexes b.value).owner = some x.2.1.tid) := by
  have hplain := hrun.plainStep hcfg hfree
  refine ⟨fun x hx => ?_, fun pre x mid y post b heq hcall htype htid => ?_⟩
  · -- one step: its case says what becomes of a waiting thread
    have hstep := hplain x hx
    have hp := hstep.underway.peopled
    have hstays : ∀ t c, x.1.WaitsOn t c → _ := fun t c ht =>
      hstep.case.waitsOn hstep.runs hp hstep.before hstep.after ht
    refine ⟨hstays, fun t c b v rf ht hevent hne => ?_, fun t b v rf hevent htype ht => ?_,
      fun t b v rf hevent htype ht => ?_⟩
    · rcases hstays t c ht with hwaits | ⟨_, b', v', rf', hevent', _, hloc⟩ | ⟨_, _, hexit, _⟩
      · exact hwaits
      · rw [hevent] at hevent'
        cases hevent'
        exact absurd hloc hne
      · rw [hevent] at hexit
        cases hexit
    · have hcase := hstep.case
      rw [hevent] at hcase
      exact hcase.notifyAll hstep.runs hp htype ht
    · have hcase := hstep.case
      rw [hevent] at hcase
      exact hcase.notifyOne hstep.runs hp htype ht
  · have hmem : ∀ z, z = x ∨ z ∈ mid ∨ z = y → z ∈ stepsOf tr s' := by
      intro z hz
      rw [heq]
      simp only [List.mem_append, List.mem_cons]
      tauto
    have hx := hplain x (hmem x (.inl rfl))
    have hy := hplain y (hmem y (.inr (.inr rfl)))
    have hcase := hx.case
    rw [hcall] at hcase
    obtain ⟨hplace, hmutexes⟩ := hcase.begins htype
    rw [← hx.tid] at hplace
    refine ⟨fun howner honce hmid => ?_, fun hmid v hreturn => ?_⟩
    · -- nothing takes the mutex from the thread between its call and the step that waits
      have hentering : x.2.2.Entering x.2.1.tid b := by
        refine .inr ⟨hplace, ?_⟩
        rw [hmutexes]
        exact ⟨howner, honce⟩
      have hbefore := hrun.2.between (P := fun s => s.Entering x.2.1.tid b) heq hentering
        fun z hz hs => (hplain z (hmem z (.inr (.inl hz)))).entering (hmid z hz).symm hs
      rw [← htid, hy.tid] at hbefore ⊢
      rcases hbefore with hgone | ⟨hready, howner', honce'⟩
      · exact absurd hgone (hy.case.not_exited hy.before hy.after)
      · exact hy.case.gives hy.underway.posted hy.before hy.after hready ⟨htype, howner', honce'⟩
    · -- the thread stays inside the wait, and leaves it with the mutex
      have hwait : x.2.2.InWait x.2.1.tid b.value := .waits (hplace ▸ .ready b)
      have hbefore := hrun.2.between (P := fun s => s.InWait x.2.1.tid b.value) heq hwait (by
        intro z hz hs
        rcases (hplain z (hmem z (.inr (.inl hz)))).inWait hs with h | ⟨hself, ⟨v', hv'⟩, _⟩
        · exact h
        · exact absurd hv' (hmid z hz hself v'))
      rcases hy.inWait hbefore with hafter | ⟨_, _, howner⟩
      · -- a thread that is back in the program is not on its way there
        exfalso
        have hcase := hy.case
        rw [hreturn] at hcase
        have huser := hafter.place.1
        rw [← htid, hy.tid] at huser
        exact huser hcase.returns
      · exact howner

end

/-- Thread 0 waits on the condition variable 7 with the mutex 0, and thread 1 notifies it. -/
def waitAndNotify : List (Input × List Nat) :=
  [({ call := .lock 0 }, []), ({ call := .schedYield }, []), ({}, []), ({}, []),
    ({ call := .condWait 7 0 }, []), ({}, []), ({}, []), ({ call := .notifyAll 7 }, []), ({}, []),
    ({}, []), ({}, []), ({ call := .schedYield }, []), ({}, []), ({}, []), ({}, []), ({}, []),
    ({ call := .schedYield }, []), ({}, []), ({}, [])]

/-- The wait is the fifth step, the notify comes five steps later, and with the last step the wait
returns. -/
def waitedAndReturned (steps : List (Model × Label × Model)) : Bool :=
  match steps.drop 4 with
  | x :: rest =>
      (match x.2.1.event with
        | .called b => decide (b.type = .atomicWait ∧ b.value = 0)
        | _ => false) &&
      ((rest.take 13).any fun z =>
        decide (z.1.WaitsOn 0 7) &&
        match z.2.1.event with
        | .executed b _ _ => decide (b.type = .atomicNotifyAll ∧ b.location = 7)
        | _ => false) &&
      ((rest.take 13).all fun z =>
        decide (z.2.1.tid ≠ x.2.1.tid) || match z.2.1.event with | .returned _ => false | _ => true) &&
      match rest.drop 13 with
      | [y] => decide (y.2.1.tid = x.2.1.tid) && match y.2.1.event with | .returned _ => true | _ => false
      | _ => false
  | [] => false

/-- `no_lost_wakeup` on a run in which a thread waits, is notified and returns with its mutex. -/
theorem no_lost_wakeup_notified : ∃ tr s,
    IsRun .asBuilt 2 4096 (fun _ => 0) (fun _ => .default) tr s ∧ CrashFree tr s ∧
    (∃ z ∈ stepsOf tr s, z.1.WaitsOn 0 7 ∧ (z.2.2.threads 0).state = .running) ∧
    ∃ pre x mid y, stepsOf tr s = pre ++ x :: (mid ++ [y]) ∧
      (y.2.2.mutexes 0).owner = some x.2.1.tid := by
  obtain ⟨tr, s, hrun, hcheck⟩ := exists_run_of_replay .asBuilt
    (Model.init 2 4096 (fun _ => 0) (fun _ => .default)) waitAndNotify
    (fun tr s => crashFree tr s && waitedAndReturned (stepsOf tr s)) (by decide +kernel)
  rw [Bool.and_eq_true] at hcheck
  obtain ⟨hfree, hcheck⟩ := hcheck
  have hrun' : IsRun .asBuilt 2 4096 (fun _ => 0) (fun _ => .default) tr s := ⟨by decide, hrun⟩
  obtain ⟨hsteps, hsplit⟩ := no_lost_wakeup rfl hrun' (crashFree_iff hfree)
  refine ⟨tr, s, hrun', crashFree_iff hfree, ?_⟩
  have hwhole := (stepsOf tr s).take_append_drop 4
  unfold waitedAndReturned at hcheck
  split at hcheck
  case h_2 => cases hcheck
  case h_1 x rest hdrop =>
    simp only [Bool.and_eq_true, List.any_eq_true, List.all_eq_true] at hcheck
    obtain ⟨⟨⟨hcall, z, hz, hwaits, hnotify⟩, hmid⟩, hlast⟩ := hcheck
    have hrest := rest.take_append_drop 13
    have hzmem : z ∈ stepsOf tr s := by
      rw [← hwhole, hdrop]
      exact List.mem_append_right _ (List.mem_cons_of_mem _ (List.mem_of_mem_take hz))
    split at hcall
    case h_2 => cases hcall
    case h_1 b hcalled =>
      split at hlast
      case h_2 => cases hlast
      case h_1 y hlast' =>
        rw [hlast'] at hrest
        rw [hdrop, ← hrest] at hwhole
        obtain ⟨htype, hvalue⟩ := of_decide_eq_true hcall
        simp only [Bool.and_eq_true, decide_eq_true_eq] at hlast hwaits
        refine ⟨⟨z, hzmem, hwaits, ?_⟩, _, x, _, y, hwhole.symm, ?_⟩
        · split at hnotify
          case h_2 => cases hnotify
          case h_1 c _ _ hexecuted =>
            obtain ⟨hall, hloc⟩ := of_decide_eq_true hnotify
            exact (hsteps z hzmem).2.2.1 0 c _ _ hexecuted hall (hloc ▸ hwaits)
        · obtain ⟨htid, hreturned⟩ := hlast
          split at hreturned
          case h_2 => cases hreturned
          case h_1 v hevent =>
            rw [← hvalue]
            refine (hsplit _ x _ y [] b hwhole.symm hcalled htype htid).2 ?_ v hevent
            intro w hw hself v' hv'
            have hnot := hmid w hw
            rw [hv'] at hnot
            simp [hself] at hnot

end Cxlmc
