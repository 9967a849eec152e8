import Cxlmc.Threads.Run

/-!
# Mutexes and joins

Who owns a mutex is recorded in the mutex and in the thread, and that a thread waits for it in a third
place. In every state of a run the three agree (`Model.Locks`), so that the assertions of
`Mutex::set_owner` hold and nobody waits for a mutex that is free. Nobody waits for a thread that has
finished (`Model.Joins`), unless the program calls `exit`.
-/

namespace Cxlmc

open Stateful

/-! ## Owners and those who wait -/

structure Model.Locks (s : Model) : Prop where
  /-- A thread that has not crashed knows which mutexes it owns. -/
  owned : ∀ t, (s.threads t).state ≠ .crashed →
    ∀ m, m ∈ (s.threads t).ownedMutexes ↔ (s.mutexes m).owner = some t
  /-- A thread that is blocked in `ATOMIC_LOCK` waits for an owner that has not crashed. -/
  blocked : ∀ t a, (s.threads t).state = .blocked → (s.threads t).pending = some a →
    a.type = .atomicLock →
    ∃ o, (s.mutexes a.location).owner = some o ∧ (s.threads o).state ≠ .crashed

/-- The thread keeps its mutexes and whether it has crashed, and it does not begin to wait. -/
structure Thread.Kept (th th' : Thread) : Prop where
  ownedMutexes : th'.ownedMutexes = th.ownedMutexes
  crashed : th'.state = .crashed ↔ th.state = .crashed
  blocked : th'.state = .blocked → th.state = .blocked ∧ th'.pending = th.pending

section

variable {s s' : Model} {t : ThreadId} {a : ModelAction}

theorem Model.Locks.kept (h : s.Locks)
    (howner : ∀ m, (s'.mutexes m).owner = (s.mutexes m).owner)
    (hthreads : ∀ t, (s.threads t).Kept (s'.threads t)) : s'.Locks := by
  constructor
  · intro t ht m
    rw [(hthreads t).ownedMutexes, howner]
    exact h.owned t (fun hc => ht ((hthreads t).crashed.mpr hc)) m
  · intro t a ht hpending htype
    obtain ⟨ht', hpending'⟩ := (hthreads t).blocked ht
    obtain ⟨o, ho, halive⟩ := h.blocked t a ht' (hpending' ▸ hpending) htype
    exact ⟨o, (howner _).trans ho, fun hc => halive ((hthreads o).crashed.mp hc)⟩

theorem Thread.waitingOn_lock {th : Thread} (hstate : th.state = .blocked)
    (hpending : th.pending = some a) (htype : a.type = .atomicLock) :
    th.waitingOn = some (.mutex a.location) := by
  simp [Thread.waitingOn, hpending, hstate, htype]

theorem Thread.waitingOn_join {th : Thread} (hstate : th.state = .blocked)
    (hpending : th.pending = some a) (htype : a.type = .pthreadJoin) :
    th.waitingOn = some (.thread a.location) := by
  simp [Thread.waitingOn, hpending, hstate, htype]

/-- A thread that is blocked exists. -/
theorem Model.Peopled.lt_of_blocked (h : s.Peopled) (ht : (s.threads t).state = .blocked) :
    t < s.threadCount := by
  by_contra hle
  rw [h.fresh t (Nat.le_of_not_lt hle)] at ht
  cases ht

theorem Thread.Kept.refl (th : Thread) : th.Kept th := ⟨rfl, Iff.rfl, fun h => ⟨h, rfl⟩⟩

theorem Model.Turns.kept {th : Thread} (h : s.Turns t th)
    (howned : th.ownedMutexes = (s.threads t).ownedMutexes) : (s.threads t).Kept th := by
  cases h with
  | same => exact .refl _
  | goes hself hrun _ hstate =>
      subst hself
      have hrunning : th.state = .running := hstate.trans hrun
      exact ⟨howned, by rw [hstate], by simp [hrunning]⟩
  | woken hblocked _ hstate => exact ⟨howned, by simp [hblocked, hstate], by simp [hstate]⟩

/-- Threads that were woken, and nothing else. -/
theorem Model.wakeAll_kept (s : Model) (v : WaitTarget → Bool) (t : ThreadId) :
    (s.threads t).Kept ((s.wakeAllThreadsWaitingOn v).threads t) := by
  apply (s.wakeAll_turns v t).kept
  grind [Model.wakeAllThreadsWaitingOn_threads]

/-! ### The death of a thread -/

/-- A thread that dies wakes those that wait for its mutexes. -/
theorem Model.Locks.crashThread (h : s.Locks) (hp : s.Peopled) (pid : ProcessId) (i : ThreadId) :
    (s.crashThread pid i).Locks := by
  by_cases hdies : (s.threads i).processId = pid ∧ ¬ (s.threads i).isCompleted = true
  swap
  · rw [Model.crashThread, if_neg hdies]
    exact h
  · have halive : (s.threads i).state ≠ .crashed := by
      intro hc
      exact hdies.2 (by simp [Thread.isCompleted, hc])
    obtain ⟨v, hv, hwakes⟩ : ∃ v : WaitTarget → Bool,
        (∀ m, v (.mutex m) = decide (m ∈ (s.threads i).ownedMutexes)) ∧
          s.crashThread pid i = (s.setState i .crashed).wakeAllThreadsWaitingOn v := by
      rw [Model.crashThread, if_pos hdies]
      exact ⟨_, fun _ => rfl, rfl⟩
    rw [hwakes]
    have hthreads : ∀ u, ((s.setState i .crashed).wakeAllThreadsWaitingOn v).threads u =
        if u = i then { s.threads u with state := .crashed }
        else if u < s.threadCount ∧ (s.threads u).waitingOn.any v then
          { s.threads u with state := .running }
        else s.threads u := by
      intro u
      rw [Model.wakeAllThreadsWaitingOn_threads, Model.setState, Model.setThread_threads]
      by_cases hu : u = i
      · simp only [if_pos hu]
        rw [if_neg]
        rintro ⟨_, hany⟩
        have hblocked := Thread.blocked_of_any hany
        cases hblocked
      · simp only [if_neg hu]
        rfl
    constructor
    · intro u hu m
      rw [hthreads] at hu ⊢
      show _ ↔ (s.mutexes m).owner = some u
      have howned := h.owned u
      have hwas : (s.threads u).waitingOn.any v = true → (s.threads u).state = .blocked :=
        Thread.blocked_of_any
      grind
    · intro u a hu hpending htype
      rw [hthreads] at hu hpending
      have hne : u ≠ i := by
        rintro rfl
        simp at hu
      rw [if_neg hne] at hu hpending
      split at hu
      · cases hu
      · next hwoken =>
          rw [if_neg hwoken] at hpending
          obtain ⟨o, ho, ho'⟩ := h.blocked u a hu hpending htype
          refine ⟨o, ho, ?_⟩
          rw [hthreads]
          -- had the owner died, it would have woken this thread
          have hoi : o ≠ i := by
            rintro rfl
            apply hwoken
            refine ⟨hp.lt_of_blocked hu, ?_⟩
            rw [Thread.waitingOn_lock hu hpending htype]
            simpa [hv] using (h.owned o halive a.location).mpr ho
          rw [if_neg hoi]
          split
          · simp
          · exact ho'

theorem Model.Locks.processCrash (h : s.Locks) (hp : s.Peopled) : s.processCrash.Locks := by
  have hboth : s.processCrash.Peopled ∧ s.processCrash.Locks := by
    refine Model.processCrash_induction (P := fun x => x.Peopled ∧ x.Locks) ⟨hp, h⟩ ?_
    intro x i hi hcount hx
    exact ⟨hx.1.crashThread (hcount ▸ hi) _, hx.2.crashThread hx.1 _ i⟩
  exact hboth.2

theorem Model.Locks.terminated (h : s.Locks) (ts : List ThreadId) : (s.terminated ts).Locks := by
  refine h.kept (fun _ => rfl) fun u => ?_
  rw [s.terminated_threads]
  split
  · next hu =>
      refine ⟨rfl, ?_, nofun⟩
      have hgoes := hu.2.2
      simp only [Thread.isCompleted, Bool.or_eq_false_iff, decide_eq_false_iff_not] at hgoes
      simp [hgoes.2]
  · exact ⟨rfl, Iff.rfl, fun h => ⟨h, rfl⟩⟩

theorem Model.Locks.dies (h : s.Locks) (hp : s.Peopled) (hdies : s.Dies s') : s'.Locks := by
  rw [hdies.state]
  exact Model.Locks.processCrash (s := s.crash s.processId) ⟨h.owned, h.blocked⟩
    (hp.of_scheduler rfl)

/-- The exit handler marks a thread that has not crashed. -/
theorem Model.Locks.gone (h : s.Locks) : s.gone.Locks := by
  refine h.kept (fun _ => rfl) fun u => ?_
  rw [s.gone_threads]
  split
  · refine ⟨rfl, ?_, ?_⟩ <;> grind [Thread.isCompleted]
  · exact ⟨rfl, Iff.rfl, fun h => ⟨h, rfl⟩⟩

/-! ### The moves -/

theorem Model.Locks.acquired (h : s.Locks) {m : MutexId} (hfree : s.Free m) : (s.acquired m).Locks := by
  have howner : ∀ m', ((s.acquired m).mutexes m').owner =
      if m' = m then some s.threadId else (s.mutexes m').owner := by
    intro m'
    show (Function.update s.mutexes m _ m').owner = _
    grind [Function.update_apply]
  constructor
  · intro u hu m'
    rw [howner]
    rw [s.acquired_threads] at hu ⊢
    have howned := h.owned u
    have hfree' := hfree u
    grind
  · intro u a hu hpending htype
    rw [s.acquired_threads] at hu hpending
    obtain ⟨o, ho, halive⟩ := h.blocked u a (by grind) (by grind) htype
    -- nobody waits for a mutex that is free
    have hne : a.location ≠ m := by
      rintro rfl
      exact halive (hfree o ho)
    refine ⟨o, ?_, ?_⟩
    · rw [howner, if_neg hne]
      exact ho
    · rw [s.acquired_threads]
      grind

theorem Model.Locks.released (h : s.Locks) (hp : s.Peopled) {m : MutexId}
    (howns : (s.mutexes m).owner = some s.threadId) : (s.released m).Locks := by
  have howner : ∀ m', ((s.released m).mutexes m').owner =
      if m' = m then none else (s.mutexes m').owner := by
    intro m'
    show (Function.update s.mutexes m _ m').owner = _
    grind [Function.update_apply]
  constructor
  · intro u hu m'
    rw [howner]
    rw [s.released_threads] at hu ⊢
    have howned := h.owned u
    have hwas : (s.threads u).waitingOn.any (· = .mutex m) = true → (s.threads u).state = .blocked :=
      Thread.blocked_of_any
    grind
  · intro u a hu hpending htype
    rw [s.released_threads] at hu hpending
    split at hu
    · cases hu
    · next hwoken =>
        rw [if_neg hwoken] at hpending
        have hu' : (s.threads u).state = .blocked := by grind
        have hpending' : (s.threads u).pending = some a := by grind
        obtain ⟨o, ho, halive⟩ := h.blocked u a hu' hpending' htype
        have hne : a.location ≠ m := by
          rintro rfl
          apply hwoken
          refine ⟨hp.lt_of_blocked hu', ?_⟩
          rw [Thread.waitingOn_lock hu' hpending' htype]
          simp
        refine ⟨o, ?_, ?_⟩
        · rw [howner, if_neg hne]
          exact ho
        · rw [s.released_threads]
          grind

theorem Model.Locks.waits (h : s.Locks) (hrun : s.Runs) (hpending : (s.threads s.threadId).pending = some a)
    (hmust : s.MustWait a) (ret : Ret) : (s.waits a ret).Locks := by
  constructor
  · intro u hu m
    rw [s.waits_threads] at hu ⊢
    show _ ↔ (s.mutexes m).owner = some u
    have howned := h.owned u
    have hself : (s.threads s.threadId).state = .running := hrun
    grind
  · intro u b hu hb htype
    rw [s.waits_threads] at hu hb
    have hother : ∀ o, (s.threads o).state ≠ .crashed →
        ((s.waits a ret).threads o).state ≠ .crashed := by
      intro o ho
      rw [s.waits_threads]
      split
      · nofun
      · exact ho
    by_cases hself : u = s.threadId
    · have hab : b = a := by grind
      rw [hab] at htype ⊢
      cases hmust with
      | lock _ howner halive => exact ⟨_, howner, hother _ halive⟩
      | join htype' _ _ => rw [htype'] at htype; cases htype
      | cond htype' => rw [htype'] at htype; cases htype
    · rw [if_neg hself] at hu hb
      obtain ⟨o, ho, halive⟩ := h.blocked u b hu hb htype
      exact ⟨o, ho, hother o halive⟩

theorem ThreadStep.locks (h : ThreadStep s s') (hp : s.Peopled) (hposted : s.Posted) (hs : s.Locks) :
    s'.Locks := by
  cases h with
  | work h =>
      refine hs.kept (fun m => by rw [h.mutexes]) fun u => ?_
      rw [h.threads]
      exact .refl _
  | place c hrun _ =>
      refine hs.kept (fun _ => rfl) fun u => (hrun.setContext_turns c u).kept ?_
      grind [Model.setContext, Model.setThread_threads]
  | call a ret hrun =>
      refine hs.kept (fun _ => rfl) fun u => (hrun.called_turns a ret u).kept ?_
      grind [Model.called_threads]
  | back c hrun _ =>
      refine hs.kept (fun _ => rfl) fun u => (hrun.backAt_turns c u).kept ?_
      grind [Model.backAt_threads]
  | pass _ _ _ => exact ⟨hs.owned, hs.blocked⟩
  | acquire m _ hfree _ => exact hs.acquired hfree
  | recount m count _ =>
      refine hs.kept (fun m' => ?_) fun u => .refl _
      show (Function.update s.mutexes m _ m').owner = _
      grind [Function.update_apply]
  | release m _ howner => exact hs.released hp howner
  | create _ =>
      refine hs.kept (fun _ => rfl) fun u => ?_
      rw [s.newThread_threads]
      split
      · next hu =>
          rw [hp.fresh u (Nat.le_of_eq hu.symm)]
          exact ⟨rfl, Iff.rfl, by simp [Thread.new]⟩
      · exact .refl _
  | notifyOne c =>
      -- who is woken waits on a condition variable, not on a mutex
      have hmutexes : (s.wakeThreadWaitingOn (.cond c)).mutexes = s.mutexes :=
        congrArg (·.mutexes) (s.wakeThreadWaitingOn_eq _)
      refine hs.kept (fun m => by rw [hmutexes]) fun u => (s.wakeOne_turns (.cond c) u).kept ?_
      rcases s.wakeThreadWaitingOn_cases (.cond c) with ⟨heq, _⟩ | ⟨t, _, _, heq⟩ <;> rw [heq]
      grind [Model.setState, Model.setThread_threads]
  | notifyAll c => exact hs.kept (fun _ => rfl) (s.wakeAll_kept _)
  | wait a ret hrun hctx hmust => exact hs.waits hrun (hposted _ a ret hctx) hmust ret
  | finish v hrun =>
      refine hs.kept (fun _ => rfl) fun u => ?_
      rw [s.finishes_threads]
      split
      · next hu =>
          have hstate : (s.threads u).state = .running := hu ▸ hrun
          exact ⟨rfl, by simp [hstate], by simp⟩
      · exact s.wakeAll_kept _ u
  | shutdown _ _ =>
      have h := hs.terminated (List.range s.threadCount)
      exact ⟨h.owned, h.blocked⟩
  | die _ h => exact hs.dies hp h
  | dieLate _ _ => exact hs.processCrash hp
  | dieInShutdown ts hts _ _ h => exact (hs.terminated ts).dies (hp.terminated hts) h
  | leave _ => exact hs.gone

theorem Model.Quits.locks (h : s.Quits s') (hs : s.Locks) : s'.Locks := by
  obtain ⟨t, _, rfl⟩ | ⟨_, rfl⟩ := h.passes
  · exact ⟨hs.gone.owned, hs.gone.blocked⟩
  · exact hs.gone

end

/-! ## Joins -/

structure Model.Joins (s : Model) : Prop where
  /-- A thread that is blocked in `PTHREAD_JOIN` waits for one that goes on. -/
  blocked : ∀ t a, (s.threads t).state = .blocked → (s.threads t).pending = some a →
    a.type = .pthreadJoin → (s.threads a.location).state ≠ .completed
  /-- It is a thread of its own process. -/
  process : ∀ t a, (s.threads t).state = .blocked → (s.threads t).pending = some a →
    a.type = .pthreadJoin →
    a.location < s.threadCount ∧ (s.threads a.location).processId = (s.threads t).processId

/-- The thread does not begin to wait. -/
structure Thread.NoNewWait (th th' : Thread) : Prop where
  processId : th'.processId = th.processId
  blocked : th'.state = .blocked → th.state = .blocked ∧ th'.pending = th.pending

section

variable {s s' : Model} {t : ThreadId} {a : ModelAction}

/-- No thread begins to wait, and none that is waited for is completed. -/
theorem Model.Joins.kept (h : s.Joins) (hcount : s.threadCount ≤ s'.threadCount)
    (hthreads : ∀ t, t < s.threadCount → (s.threads t).NoNewWait (s'.threads t))
    (hfresh : ∀ t, s.threadCount ≤ t → (s'.threads t).state ≠ .blocked)
    (hgoes : ∀ t u, t < s.threadCount → u < s.threadCount → (s'.threads t).state = .blocked →
      (s.threads t).waitingOn = some (.thread u) →
      (s.threads u).processId = (s.threads t).processId → (s'.threads u).state = .completed →
      (s.threads u).state = .completed) : s'.Joins := by
  have hold : ∀ t a, (s'.threads t).state = .blocked → (s'.threads t).pending = some a →
      a.type = .pthreadJoin → t < s.threadCount ∧ (s.threads t).state = .blocked ∧
        (s.threads t).pending = some a := by
    intro t a ht hpending _
    have hlt : t < s.threadCount := by
      by_contra hle
      exact hfresh t (Nat.le_of_not_lt hle) ht
    obtain ⟨ht', hpending'⟩ := (hthreads t hlt).blocked ht
    exact ⟨hlt, ht', hpending' ▸ hpending⟩
  constructor
  · intro t a ht hpending htype hdone
    obtain ⟨hlt, ht', hpending'⟩ := hold t a ht hpending htype
    obtain ⟨hu, hproc⟩ := h.process t a ht' hpending' htype
    apply h.blocked t a ht' hpending' htype
    exact hgoes t a.location hlt hu ht (Thread.waitingOn_join ht' hpending' htype) hproc hdone
  · intro t a ht hpending htype
    obtain ⟨hlt, ht', hpending'⟩ := hold t a ht hpending htype
    obtain ⟨hu, hproc⟩ := h.process t a ht' hpending' htype
    refine ⟨Nat.lt_of_lt_of_le hu hcount, ?_⟩
    rw [(hthreads _ hu).processId, (hthreads t hlt).processId]
    exact hproc

/-- The same where each thread is woken, crashed or left as it is. -/
theorem Model.Joins.of_threads (h : s.Joins) (hp : s.Peopled) (hcount : s'.threadCount = s.threadCount)
    (hthreads : ∀ t, (s.threads t).NoNewWait (s'.threads t) ∧
      ((s'.threads t).state = .completed → (s.threads t).state = .completed)) : s'.Joins := by
  refine h.kept (Nat.le_of_eq hcount.symm) (fun t _ => (hthreads t).1) ?_
    fun t u _ _ _ _ _ => (hthreads u).2
  intro t ht hblocked
  have hlt := hp.lt_of_blocked ((hthreads t).1.blocked hblocked).1
  exact Nat.not_lt_of_le ht hlt

theorem Thread.NoNewWait.refl (th : Thread) : th.NoNewWait th := ⟨rfl, fun h => ⟨h, rfl⟩⟩

theorem Thread.NoNewWait.trans {th th' th'' : Thread} (h : th.NoNewWait th') (h' : th'.NoNewWait th'') :
    th.NoNewWait th'' := by
  refine ⟨h'.processId.trans h.processId, fun hblocked => ?_⟩
  obtain ⟨hmid, hpending⟩ := h'.blocked hblocked
  obtain ⟨hbefore, hpending'⟩ := h.blocked hmid
  exact ⟨hbefore, hpending.trans hpending'⟩

/-- A thread that goes on or is woken neither begins to wait nor completes. -/
theorem Model.Turns.noNewWait {th : Thread} (h : s.Turns t th) :
    (s.threads t).NoNewWait th ∧ (th.state = .completed → (s.threads t).state = .completed) := by
  cases h with
  | same => exact ⟨.refl _, id⟩
  | goes hself hrun hprocess hstate =>
      subst hself
      have hrunning : th.state = .running := hstate.trans hrun
      exact ⟨⟨hprocess, by simp [hrunning]⟩, by simp [hrunning]⟩
  | woken _ hprocess hstate => exact ⟨⟨hprocess, by simp [hstate]⟩, by simp [hstate]⟩

/-- A thread that `process_shutdown` ends does not wait. -/
theorem Model.terminated_noNewWait (s : Model) (ts : List ThreadId) (t : ThreadId) :
    (s.threads t).NoNewWait ((s.terminated ts).threads t) := by
  rw [s.terminated_threads]
  split
  · exact ⟨rfl, by simp⟩
  · exact .refl _

theorem Thread.AfterCrash.noNewWait {pid : ProcessId} {th th' : Thread} (h : th.AfterCrash pid th') :
    th.NoNewWait th' := by
  cases h with
  | same => exact .refl _
  | woken _ => exact ⟨rfl, by simp⟩
  | crashed _ _ => exact ⟨rfl, by simp⟩

theorem Thread.AfterCrash.completed {pid : ProcessId} {th th' : Thread} (h : th.AfterCrash pid th')
    (hdone : th'.state = .completed) : th.state = .completed := by
  cases h with
  | same => exact hdone
  | woken _ => cases hdone
  | crashed _ _ => cases hdone

/-- Where a process ends, those that join its threads end too. -/
theorem Model.Joins.ends (h : s.Joins) (hp : s.Peopled) (hcount : s'.threadCount = s.threadCount)
    (hthreads : ∀ t, (s.threads t).NoNewWait (s'.threads t))
    (hends : ∀ t, t < s.threadCount → (s.threads t).processId = s.processId →
      (s'.threads t).isCompleted = true)
    (hothers : ∀ t, (s.threads t).processId ≠ s.processId →
      (s'.threads t).state = .completed → (s.threads t).state = .completed) : s'.Joins := by
  refine h.kept (Nat.le_of_eq hcount.symm) (fun t _ => hthreads t) ?_ ?_
  · intro t ht hblocked
    exact Nat.not_lt_of_le ht (hp.lt_of_blocked ((hthreads t).blocked hblocked).1)
  · intro t u ht _ hblocked _ hproc
    apply hothers u
    intro hu
    have hdone := hends t ht (hproc ▸ hu)
    rw [Thread.isCompleted, hblocked] at hdone
    cases hdone

theorem Model.Joins.processCrash (h : s.Joins) (hp : s.Peopled) : s.processCrash.Joins := by
  refine h.ends hp s.processCrash_threadCount (fun t => (s.processCrash_afterCrash t).noNewWait)
    (fun t ht hpid => s.processCrash_done ht hpid) ?_
  exact fun t _ => (s.processCrash_afterCrash t).completed

/-- `process_crash` after a part of `process_shutdown`. -/
theorem Model.Joins.dies_terminated (h : s.Joins) (hp : s.Peopled) (ts : List ThreadId)
    (hdies : (s.terminated ts).Dies s') : s'.Joins := by
  rw [hdies.state]
  have hafter := ((s.terminated ts).crash (s.terminated ts).processId).processCrash_afterCrash
  have hself : ((s.terminated ts).crash (s.terminated ts).processId).processId = s.processId :=
    s.terminated_processId ts
  refine h.ends hp (Model.processCrash_threadCount _) (fun t => ?_) (fun t ht hpid => ?_) ?_
  · exact (s.terminated_noNewWait ts t).trans (hafter t).noNewWait
  · apply Model.processCrash_done (s := (s.terminated ts).crash (s.terminated ts).processId) ht
    rw [hself]
    show ((s.terminated ts).threads t).processId = _
    rw [s.terminated_threads]
    split <;> exact hpid
  · intro t hpid hdone
    have hone := hafter t
    have hthread : ((s.terminated ts).crash (s.terminated ts).processId).threads t = s.threads t := by
      show (s.terminated ts).threads t = _
      rw [s.terminated_threads, if_neg fun h => hpid h.2.1]
    rw [hthread] at hone
    exact hone.completed hdone

theorem Model.Joins.waits (h : s.Joins) (hpending : (s.threads s.threadId).pending = some a)
    (hmust : s.MustWait a) (hp : s.Peopled) (ret : Ret) : (s.waits a ret).Joins := by
  have hstate : ∀ u, u ≠ s.threadId → (s.waits a ret).threads u = s.threads u := by
    intro u hu
    rw [s.waits_threads, if_neg hu]
  have hprocess : ∀ u, ((s.waits a ret).threads u).processId = (s.threads u).processId := by
    intro u
    rw [s.waits_threads]
    split <;> rfl
  have hdone : ∀ u, ((s.waits a ret).threads u).state = .completed →
      (s.threads u).state = .completed := by
    intro u
    rw [s.waits_threads]
    split
    · exact nofun
    · exact id
  have hself : ∀ b, ((s.waits a ret).threads s.threadId).pending = some b → b = a := by
    intro b hb
    rw [s.waits_threads, if_pos rfl, hpending] at hb
    cases hb
    rfl
  constructor
  · intro t b ht hb htype hcompleted
    by_cases hu : t = s.threadId
    · subst hu
      rw [hself b hb] at htype hcompleted
      cases hmust with
      | join _ _ hgoes => exact hgoes (hdone _ hcompleted)
      | lock htype' _ _ => rw [htype'] at htype; cases htype
      | cond htype' => rw [htype'] at htype; cases htype
    · rw [hstate t hu] at ht hb
      exact h.blocked t b ht hb htype (hdone _ hcompleted)
  · intro t b ht hb htype
    rw [hprocess, hprocess]
    by_cases hu : t = s.threadId
    · subst hu
      rw [hself b hb] at htype ⊢
      cases hmust with
      | join _ hpid _ => exact ⟨hp.lt_of_processId hpid, hpid⟩
      | lock htype' _ _ => rw [htype'] at htype; cases htype
      | cond htype' => rw [htype'] at htype; cases htype
    · rw [hstate t hu] at ht hb
      exact h.process t b ht hb htype

/-- A thread that finishes has woken those that join it. -/
theorem Model.Joins.finishes (h : s.Joins) (hp : s.Peopled) (v : Nat) : (s.finishes v).Joins := by
  have hthreads := fun u => s.finishes_threads u v
  refine h.kept (Nat.le_refl _) ?_ ?_ ?_
  · intro u _
    rw [hthreads]
    split
    · exact ⟨rfl, by simp⟩
    · exact (s.wakeAll_turns _ u).noNewWait.1
  · intro u hu
    have hlt : ¬ u < s.threadCount := Nat.not_lt_of_le hu
    have hne : u ≠ s.threadId := fun h => hlt (h ▸ hp.active)
    rw [hthreads, if_neg hne, if_neg fun h => hlt h.1, hp.fresh u hu]
    nofun
  · intro t u ht _ hblocked hwaits _ hdone
    rw [hthreads] at hblocked hdone
    have hne : u ≠ s.threadId := by
      rintro rfl
      split at hblocked
      · cases hblocked
      · rw [if_pos ⟨ht, by simp [hwaits]⟩] at hblocked
        cases hblocked
    rw [if_neg hne] at hdone
    split at hdone
    · cases hdone
    · exact hdone

/-- The end of `process_shutdown`. -/
theorem Model.Joins.shutdown (h : s.Joins) (hp : s.Peopled) :
    (s.terminated (List.range s.threadCount)).Joins := by
  have hthreads := fun u => s.terminated_threads u (List.range s.threadCount)
  refine h.ends hp rfl (s.terminated_noNewWait _) ?_ ?_
  · intro u hu hpid
    rw [hthreads]
    split
    · rfl
    · next hnot =>
        by_contra hgoes
        exact hnot ⟨List.mem_range.mpr hu, hpid, Bool.eq_false_iff.mpr hgoes⟩
  · intro u hpid
    rw [hthreads, if_neg fun h => hpid h.2.1]
    exact id

/-- A thread that is new is not waited for, and waits for nobody. -/
theorem Model.Joins.newThread (h : s.Joins) (hp : s.Peopled) : s.newThread.Joins := by
  refine h.kept (Nat.le_succ _) ?_ ?_ ?_
  · intro u hu
    rw [s.newThread_threads, if_neg (Nat.ne_of_lt hu)]
    exact .refl _
  · intro u hu
    rw [s.newThread_threads]
    split
    · simp [Thread.new]
    · simp [hp.fresh u hu, Thread.new]
  · intro t u _ hu _ _ _
    rw [s.newThread_threads, if_neg (Nat.ne_of_lt hu)]
    exact id

/-- A thread that is done leaves. -/
theorem Model.Joins.gone (h : s.Joins) (hp : s.Peopled)
    (hdone : (s.threads s.threadId).isCompleted = true) : s.gone.Joins := by
  refine h.of_threads hp rfl fun u => ?_
  rw [s.gone_threads]
  split
  · have hstate : ¬ (u = s.threadId ∧ (s.threads u).isCompleted = false) := by
      rintro ⟨rfl, hgoes⟩
      rw [hdone] at hgoes
      cases hgoes
    simp only [if_neg hstate]
    exact ⟨⟨rfl, fun h => ⟨h, rfl⟩⟩, id⟩
  · exact ⟨.refl _, id⟩

theorem ThreadStep.joins (h : ThreadStep s s') (hp : s.Peopled) (hposted : s.Posted) (hs : s.Joins) :
    s'.Joins := by
  cases h with
  | work h =>
      refine hs.of_threads hp (by rw [h.scheduler]) fun u => ?_
      rw [h.threads]
      exact ⟨.refl _, id⟩
  | place c hrun _ => exact hs.of_threads hp rfl fun u => (hrun.setContext_turns c u).noNewWait
  | call a ret hrun => exact hs.of_threads hp rfl fun u => (hrun.called_turns a ret u).noNewWait
  | back c hrun _ => exact hs.of_threads hp rfl fun u => (hrun.backAt_turns c u).noNewWait
  | pass _ _ _ => exact ⟨hs.blocked, hs.process⟩
  | acquire m hrun _ _ => exact hs.of_threads hp rfl fun u => (hrun.acquired_turns m u).noNewWait
  | recount _ _ _ => exact ⟨hs.blocked, hs.process⟩
  | release m hrun _ => exact hs.of_threads hp rfl fun u => (hrun.released_turns m u).noNewWait
  | create _ => exact hs.newThread hp
  | notifyOne c =>
      have hcount : (s.wakeThreadWaitingOn (.cond c)).threadCount = s.threadCount :=
        congrArg (·.threadCount) (s.wakeThreadWaitingOn_eq _)
      exact hs.of_threads hp hcount fun u => (s.wakeOne_turns (.cond c) u).noNewWait
  | notifyAll c => exact hs.of_threads hp rfl fun u => (s.wakeAll_turns _ u).noNewWait
  | wait a ret _ hctx hmust => exact hs.waits (hposted _ a ret hctx) hmust hp ret
  | finish v _ => exact hs.finishes hp v
  | shutdown _ _ =>
      have h := hs.shutdown hp
      exact ⟨h.blocked, h.process⟩
  | die _ h =>
      apply hs.dies_terminated hp []
      rw [s.terminated_nil]
      exact h
  | dieLate _ _ => exact hs.processCrash hp
  | dieInShutdown ts _ _ _ h => exact hs.dies_terminated hp ts h
  | leave hdone => exact hs.gone hp hdone

end

/-! ## The assertions of `Mutex::set_owner` -/

section

variable {s s' : Model} {m : MutexId} {r : Except Stop Unit}

/-- The second half of `set_owner`, where the thread does not own the mutex. -/
theorem ends_newOwner {t : ThreadId} (hnot : m ∉ (s.threads t).ownedMutexes)
    (h : (do
      let s₁ ← state
      require (m ∉ (s₁.threads t).ownedMutexes) .assertFailed
      update fun s₁ => s₁.setThread t fun th => { th with ownedMutexes := insert m th.ownedMutexes }
      update fun s₁ : Model =>
        { s₁ with
          mutexes := Function.update s₁.mutexes m
            { s₁.mutexes m with owner := some t, recursiveLockCount := 0 } } : M Unit).Ends s r s') :
    r = .ok () := by
  rw [ends_state_bind, require, if_pos hnot, ends_pure_bind, ends_update_bind] at h
  exact (ends_update.mp h).1

/-- Neither assertion of `set_owner` fails where the records of the owners agree. -/
theorem Model.Locks.setOwner_ok (hs : s.Locks) {thr : Option ThreadId}
    (halive : ∀ t, thr = some t → (s.threads t).state ≠ .crashed)
    (h : (setOwner m thr).Ends s r s') : r = .ok () := by
  rw [setOwner, ends_state_bind] at h
  dsimp only at h
  cases hold : (s.mutexes m).owner with
  | none =>
      simp only [hold] at h
      cases thr with
      | none => exact (ends_update.mp h).1
      | some t =>
          apply ends_newOwner _ h
          rw [hs.owned t (halive t rfl), hold]
          simp
  | some o =>
      simp only [hold] at h
      split at h
      · next hcrashed =>
          cases thr with
          | none => exact (ends_update.mp h).1
          | some t =>
              apply ends_newOwner _ h
              rw [hs.owned t (halive t rfl), hold]
              exact fun ho => halive t rfl (Option.some.inj ho ▸ hcrashed)
      · next hgoes =>
          have hmem : m ∈ (s.threads o).ownedMutexes := (hs.owned o hgoes m).mpr hold
          rw [require, if_pos hmem] at h
          cases thr with
          | none => exact (ends_update.mp h).1
          | some t =>
              apply ends_newOwner _ h
              rw [Model.setThread_threads]
              split
              · simp
              · next hne =>
                  rw [hs.owned t (halive t rfl), hold]
                  exact fun ho => hne (Option.some.inj ho).symm

end

/-! ## Runs -/

/-- The running thread was in the program and has completed: it has called `exit`. -/
def Model.quits (s s' : Model) : Bool :=
  s.contextOf s.threadId = .user && (s'.threads s.threadId).state = .completed

section

variable {cfg : Config} {n cxlMapping : Nat} {memory : Nat → Nat} {mutexType : MutexId → MutexType}
  {tr : List (Model × Label)} {s s' : Model}

theorem Model.Quits.quits (h : s.Quits s') : s.quits s' = true := by
  have hgone : (s.gone.threads s.threadId).state = .completed := by
    have hgoes : (s.threads s.threadId).isCompleted = false := by
      rw [Thread.isCompleted, h.runs]
      rfl
    have hown : (s.threads s.threadId).processId = s.processId := rfl
    rw [s.gone_threads, if_pos hown]
    exact if_pos ⟨rfl, hgoes⟩
  have hstate : (s'.threads s.threadId).state = .completed := by
    obtain ⟨t, _, rfl⟩ | ⟨_, rfl⟩ := h.passes
    · exact hgone
    · exact hgone
  simp [Model.quits, h.place, hstate]

theorem Model.locks_init :
    (Model.init n cxlMapping memory mutexType).Locks ∧
      (Model.init n cxlMapping memory mutexType).Joins := by
  refine ⟨⟨?_, nofun⟩, ⟨nofun, nofun⟩⟩
  intro t _ m
  exact ⟨fun h => absurd h (Finset.notMem_empty m), nofun⟩

theorem ThreadCase.locks {r : Except Stop Event} (h : ThreadCase s r s') (hruns : s.Runs)
    (hp : s.Peopled) (hposted : s.Posted) (hs : s.Locks) : s'.Locks := by
  have hboth := h.invariant (P := fun s => s.Posted ∧ s.Locks)
    (fun hx hs hmove => ⟨hmove.posted hs.1, hmove.locks hx hs.1 hs.2⟩)
    (fun h hs => ⟨h.posted hs.1, h.locks hs.2⟩) hruns hp ⟨hposted, hs⟩
  exact hboth.2

theorem IsRun.locks (hcfg : cfg.memPoison = false)
    (hrun : IsRun cfg n cxlMapping memory mutexType tr s') : s'.Locks := by
  obtain ⟨_, _, hlocks⟩ := hrun.threads hcfg (P := Model.Locks) Model.locks_init.1 (by
    intro s l s₁ _ hs hruns hlocks hcase
    exact hcase.locks hruns hs.peopled hs.posted hlocks)
  exact hlocks

theorem IsRun.joins (hcfg : cfg.memPoison = false)
    (hrun : IsRun cfg n cxlMapping memory mutexType tr s')
    (hquits : ∀ x ∈ stepsOf tr s', x.1.quits x.2.2 = false) : s'.Joins := by
  obtain ⟨_, _, hjoins⟩ := hrun.threads hcfg (P := Model.Joins) Model.locks_init.2 (by
    intro s l s₁ hmem hs hruns hjoins hcase
    have hboth := hcase.invariant (P := fun s => s.Posted ∧ s.Joins)
      (fun hx hs hmove => ⟨hmove.posted hs.1, hmove.joins hx hs.1 hs.2⟩) (fun h _ => ?_) hruns
      hs.peopled ⟨hs.posted, hjoins⟩
    · exact hboth.2
    · have hnot := hquits _ hmem
      rw [h.quits] at hnot
      cases hnot)
  exact hjoins

theorem IsRun.awake (hcfg : cfg.memPoison = false)
    (hrun : IsRun cfg n cxlMapping memory mutexType tr s') : s'.Awake := by
  obtain ⟨_, hunderway, _⟩ := hrun.threads hcfg (P := fun _ => True) trivial (by
    intro s l s₁ _ _ _ _ _
    trivial)
  exact hunderway.awake

/-- Mutexes and joins in every state of a run: the records of the owners agree, no assertion of
`set_owner` fails for a thread that has not crashed, as the one with the token has not until it exits, a
thread blocked in a lock waits for an owner that has not crashed, and a thread blocked in a join, where
the program never calls `exit`, for one that has not completed. -/
theorem mutex_ownership (hcfg : cfg.memPoison = false)
    (hrun : IsRun cfg n cxlMapping memory mutexType tr s') :
    (∀ t, (s'.threads t).state ≠ .crashed →
      ∀ m, m ∈ (s'.threads t).ownedMutexes ↔ (s'.mutexes m).owner = some t) ∧
    (∀ m thr, (∀ t, thr = some t → (s'.threads t).state ≠ .crashed) →
      ∀ r s₁, (setOwner m thr).Ends s' r s₁ → r = .ok ()) ∧
    (s'.contextOf s'.threadId ≠ .exited →
      ∀ m r s₁, (setOwner m (some s'.threadId)).Ends s' r s₁ → r = .ok ()) ∧
    (∀ t a, (s'.threads t).state = .blocked → (s'.threads t).pending = some a →
      a.type = .atomicLock →
      ∃ o, (s'.mutexes a.location).owner = some o ∧ (s'.threads o).state ≠ .crashed) ∧
    ((∀ x ∈ stepsOf tr s', x.1.quits x.2.2 = false) →
      ∀ t a, (s'.threads t).state = .blocked → (s'.threads t).pending = some a →
        a.type = .pthreadJoin → (s'.threads a.location).state ≠ .completed) := by
  have hlocks := hrun.locks hcfg
  refine ⟨hlocks.owned, ?_, ?_, hlocks.blocked, fun hquits => (hrun.joins hcfg hquits).blocked⟩
  · exact fun _ _ halive _ _ hends => hlocks.setOwner_ok halive hends
  · intro hctx m r s₁ hends
    have hruns : s'.Runs := hrun.awake hcfg hctx
    refine hlocks.setOwner_ok ?_ hends
    rintro t ⟨⟩
    rw [hruns]
    decide

end

/-- `mutex_ownership` on a run in which process 1 waits for a mutex of process 0. -/
theorem mutex_ownership_contended : ∃ tr s,
    IsRun .asBuilt 2 4096 (fun _ => 0) (fun _ => .default) tr s ∧
    (∃ a, (s.threads 1).state = .blocked ∧ (s.threads 1).pending = some a ∧
      a.type = .atomicLock ∧ (s.mutexes a.location).owner = some 0) ∧
    (∀ t, (s.threads t).state ≠ .crashed →
      ∀ m, m ∈ (s.threads t).ownedMutexes ↔ (s.mutexes m).owner = some t) ∧
    ∀ t a, (s.threads t).state = .blocked → (s.threads t).pending = some a →
      a.type = .pthreadJoin → (s.threads a.location).state ≠ .completed := by
  obtain ⟨tr, s, hrun, hcheck⟩ := exists_run_of_replay .asBuilt
    (Model.init 2 4096 (fun _ => 0) (fun _ => .default))
    [({ call := .lock 0 }, []), ({ call := .lock 0 }, []), ({}, []), ({}, []),
      ({ call := .schedYield }, []), ({}, [])]
    (fun tr s =>
      (stepsOf tr s).all (fun x => !x.1.quits x.2.2) && decide ((s.threads 1).state = .blocked) &&
      (s.threads 1).pending.any fun a : ModelAction =>
        decide (a.type = .atomicLock) && decide ((s.mutexes a.location).owner = some 0))
    (by decide +kernel)
  simp only [Bool.and_eq_true, List.all_eq_true, Bool.not_eq_true', decide_eq_true_eq,
    Option.any_eq_true] at hcheck
  obtain ⟨⟨hquits, hblocked⟩, a, hpending, htype, howner⟩ := hcheck
  have hrun' : IsRun .asBuilt 2 4096 (fun _ => 0) (fun _ => .default) tr s := ⟨by decide, hrun⟩
  obtain ⟨howned, _, _, _, hjoins⟩ := mutex_ownership rfl hrun'
  exact ⟨tr, s, hrun', ⟨a, hblocked, hpending, htype, howner⟩, howned, hjoins hquits⟩

end Cxlmc
