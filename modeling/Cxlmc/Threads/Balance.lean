import Cxlmc.Threads.Relock
import Cxlmc.Threads.Serve

/-!
# Locks and unlocks

`execute` sets `errno` where a thread locks an `ERRORCHECK` mutex that it owns, and where it unlocks one
that it does not own. `pthread_mutex_lock` and `pthread_mutex_unlock` return 0 all the same. Where
neither happens, the calls that return 0 tell who owns the mutex (`locks_balance`).
-/

namespace Cxlmc

open Stateful

/-! ## The calls that return 0 -/

/-- The action of a `pthread_mutex_lock` or a `pthread_mutex_trylock` that returns 0. -/
def ActionType.locks (type : ActionType) (value : Nat) : Bool :=
  decide (type = .atomicLock ∧ pthreadMutexLock value = 0) ||
    decide (type = .atomicTrylock ∧ pthreadMutexTrylock value = 0)

/-- The action of a `pthread_mutex_unlock` that returns 0. -/
def ActionType.unlocks (type : ActionType) (value : Nat) : Bool :=
  decide (type = .atomicUnlock ∧ pthreadMutexUnlock value = 0)

/-- Thread `t` has locked `m`. The call counts from where `execute` comes back. -/
def Label.locks (m : MutexId) (t : ThreadId) (l : Label) : Bool :=
  match l.event with
  | .executed a v _ => decide (l.tid = t ∧ a.location = m) && a.type.locks v
  | _ => false

/-- Thread `t` has unlocked `m`. -/
def Label.unlocks (m : MutexId) (t : ThreadId) (l : Label) : Bool :=
  match l.event with
  | .executed a v _ => decide (l.tid = t ∧ a.location = m) && a.type.unlocks v
  | _ => false

/-- How often `t` has locked `m` in these steps. -/
def lockCount (m : MutexId) (t : ThreadId) (done : List (Model × Label × Model)) : Nat :=
  done.countP fun x => x.2.1.locks m t

def unlockCount (m : MutexId) (t : ThreadId) (done : List (Model × Label × Model)) : Nat :=
  done.countP fun x => x.2.1.unlocks m t

/-- `EDEADLK` or `EPERM`: the running thread locks an `ERRORCHECK` mutex that it owns, or unlocks one that
it does not own. -/
def Model.Refuses (s : Model) (m : MutexId) : Event → Prop
  | .executed a _ _ => a.location = m ∧
      (a.type = .atomicLock ∧ (s.mutexes m).mutexType = .errorcheck ∧
          (s.mutexes m).owner = some s.threadId ∨
        a.type = .atomicUnlock ∧ (s.mutexes m).owner ≠ some s.threadId)
  | _ => False

instance (s : Model) (m : MutexId) : (e : Event) → Decidable (s.Refuses m e)
  | .executed _ _ _ => inferInstanceAs (Decidable (_ ∧ (_ ∨ _)))
  | .called _ | .blocked _ | .finished _ | .popped _ | .returned _ | .noAction | .exited =>
      .isFalse not_false

/-- How many unlocks of `t` it takes until `t` does not own the mutex. -/
def Mutex.depth (mx : Mutex) (t : ThreadId) : Nat :=
  if mx.owner = some t then mx.recursiveLockCount + 1 else 0

/-- Only a recursive mutex is counted. -/
def Mutex.Counted (mx : Mutex) : Prop := mx.recursiveLockCount > 0 → mx.mutexType = .recursive

section

variable {cfg : Config} {s s' : Model} {l : Label} {m : MutexId} {t u : ThreadId} {a : ModelAction} {v : Nat}

theorem Mutex.depth_pos {mx : Mutex} : 0 < mx.depth t ↔ mx.owner = some t := by
  rw [depth]
  split
  · next howner => exact ⟨fun _ => howner, fun _ => Nat.succ_pos _⟩
  · next howner => exact ⟨fun h => absurd h (Nat.lt_irrefl 0), fun h => absurd h howner⟩

/-! ## One step -/

theorem Mutex.Serves.counted {mx mx' : Mutex} {crashed : ThreadId → Prop} {type : ActionType}
    (h : mx.Serves u crashed type v mx') (hmx : mx.Counted) : mx'.Counted := by
  cases h with
  | nest _ htype => exact fun _ => htype
  | unnest _ htype _ => exact fun _ => htype
  | refuseLock _ _ => exact hmx
  | busy _ _ => exact hmx
  | refuseUnlock _ => exact hmx
  | _ => exact fun hcount => absurd hcount (Nat.lt_irrefl 0)

/-- An action of another thread does not change how often a thread holds the mutex. -/
theorem Mutex.Serves.depth_eq {mx mx' : Mutex} {crashed : ThreadId → Prop} {type : ActionType}
    (h : mx.Serves u crashed type v mx') (hcrashed : ∀ o, ¬ crashed o) (hne : u ≠ t) :
    mx'.depth t = mx.depth t := by
  cases h with
  | inherit _ _ h => exact absurd h (hcrashed _)
  | tryInherit _ h => exact absurd h (hcrashed _)
  | lock howner => simp [depth, ownedBy, howner, hne]
  | trylock howner => simp [depth, ownedBy, howner, hne]
  | unlock howner _ => simp [depth, ownedBy, howner, hne]
  | nest howner _ => simp [depth, howner, hne]
  | unnest howner _ _ => simp [depth, howner, hne]
  | _ => rfl

/-- An action that is not refused and how often its thread holds the mutex. -/
theorem Mutex.Serves.balance {mx mx' : Mutex} {crashed : ThreadId → Prop} {type : ActionType}
    (h : mx.Serves t crashed type v mx') (hmx : mx.Counted) (hcrashed : ∀ o, ¬ crashed o)
    (hlock : ¬ (type = .atomicLock ∧ mx.mutexType = .errorcheck ∧ mx.owner = some t))
    (hunlock : ¬ (type = .atomicUnlock ∧ mx.owner ≠ some t)) :
    (type.locks v).toNat + mx.depth t = (type.unlocks v).toNat + mx'.depth t := by
  cases h with
  | inherit _ _ h => exact absurd h (hcrashed _)
  | tryInherit _ h => exact absurd h (hcrashed _)
  | refuseLock howner htype => exact absurd ⟨rfl, htype, howner⟩ hlock
  | refuseUnlock howner => exact absurd ⟨rfl, howner⟩ hunlock
  | lock howner => simp [depth, ownedBy, howner, ActionType.locks, ActionType.unlocks, pthreadMutexLock]
  | trylock howner =>
      simp [depth, ownedBy, howner, ActionType.locks, ActionType.unlocks, pthreadMutexTrylock]
  | busy _ _ => simp [ActionType.locks, ActionType.unlocks, pthreadMutexTrylock, ebusy]
  | nest howner _ =>
      have hlocks : (ActionType.atomicLock.locks 0).toNat = 1 := rfl
      have hunlocks : (ActionType.atomicLock.unlocks 0).toNat = 0 := rfl
      simp only [depth, howner, if_true]
      omega
  | unlock howner honce =>
      have hcount : mx.recursiveLockCount = 0 := by
        by_contra hne
        have hpos := Nat.pos_of_ne_zero hne
        exact honce ⟨hmx hpos, hpos⟩
      simp [depth, ownedBy, howner, hcount, ActionType.locks, ActionType.unlocks, pthreadMutexUnlock]
  | unnest howner _ hcount =>
      have hlocks : (ActionType.atomicUnlock.locks v).toNat = 0 := rfl
      have hunlocks : (ActionType.atomicUnlock.unlocks v).toNat = 1 := rfl
      simp only [depth, howner, if_true]
      omega

/-- A step that makes no lock, trylock or unlock of `m` is none of the calls that are counted. -/
theorem Label.not_counted (hnot : ∀ a v rf, l.event = .executed a v rf → a.location = m →
    a.isMutex = false) : l.locks m t = false ∧ l.unlocks m t = false := by
  unfold locks unlocks
  split
  · next a v rf he =>
      by_cases hm : a.location = m
      · have ha := hnot a v rf he hm
        simp only [ModelAction.isMutex, Bool.or_eq_false_iff, decide_eq_false_iff_not] at ha
        simp [ActionType.locks, ActionType.unlocks, ha]
      · simp [hm]
  · exact ⟨rfl, rfl⟩

theorem SysStep.balance (hcfg : cfg.memPoison = false) (hs : s.Underway) (hwaits : s.WaitsKnown)
    (h : SysStep cfg s l s') (hcrashed : ∀ o, (s.threads o).state ≠ .crashed)
    (hwait : ¬ l.event.WaitsWith m) (hrefuse : ¬ s.Refuses m l.event) (hmx : (s.mutexes m).Counted) :
    (s'.mutexes m).Counted ∧ ∀ t, (l.locks m t).toNat + (s.mutexes m).depth t =
      (l.unlocks m t).toNat + (s'.mutexes m).depth t := by
  obtain ⟨htid, _⟩ := hs.sysStep hcfg h
  obtain ⟨a, v, rf, he, rfl, _, hserves⟩ | ⟨hnot, hsame | ⟨hwaitsWith, _⟩⟩ :=
    h.mutex_cases hcfg hs hwaits m
  · refine ⟨hserves.counted hmx, fun t => ?_⟩
    rw [he] at hrefuse
    by_cases ht : s.threadId = t
    · subst ht
      have hbalance := hserves.balance hmx hcrashed (fun hlock => hrefuse ⟨rfl, .inl hlock⟩)
        (fun hunlock => hrefuse ⟨rfl, .inr hunlock⟩)
      simpa [Label.locks, Label.unlocks, he, htid] using hbalance
    · rw [hserves.depth_eq hcrashed ht]
      simp [Label.locks, Label.unlocks, he, htid, ht]
  · rw [hsame]
    refine ⟨hmx, fun t => ?_⟩
    obtain ⟨hlocks, hunlocks⟩ := Label.not_counted (t := t) hnot
    rw [hlocks, hunlocks]
  · exact absurd hwaitsWith hwait

end

/-! ## Runs -/

section

variable {cfg : Config} {n cxlMapping : Nat} {memory : Nat → Nat} {mutexType : MutexId → MutexType}
  {tr : List (Model × Label)} {s' : Model} {m : MutexId}

/-- What the locks and unlocks so far say about the mutex. -/
structure Balanced (m : MutexId) (done : List (Model × Label × Model)) (s : Model) : Prop where
  counted : (s.mutexes m).Counted
  depth : ∀ t, lockCount m t done = unlockCount m t done + (s.mutexes m).depth t

theorem Balanced.owner_iff {done : List (Model × Label × Model)} {s : Model} (h : Balanced m done s)
    (t : ThreadId) : (s.mutexes m).owner = some t ↔ unlockCount m t done < lockCount m t done := by
  rw [h.depth t, ← Mutex.depth_pos]
  omega

theorem lockCount_concat (t : ThreadId) (done : List (Model × Label × Model))
    (x : Model × Label × Model) :
    lockCount m t (done ++ [x]) = lockCount m t done + (x.2.1.locks m t).toNat := by
  rw [lockCount, List.countP_append]
  cases h : x.2.1.locks m t <;> simp [lockCount, h]

theorem unlockCount_concat (t : ThreadId) (done : List (Model × Label × Model))
    (x : Model × Label × Model) :
    unlockCount m t (done ++ [x]) = unlockCount m t done + (x.2.1.unlocks m t).toNat := by
  rw [unlockCount, List.countP_append]
  cases h : x.2.1.unlocks m t <;> simp [unlockCount, h]

/-- In a run without crashes in which `m` is locked, tried and unlocked only and no such call is refused,
a thread owns `m` exactly where it has locked `m` more often than it has unlocked it. -/
theorem locks_balance (hcfg : cfg.memPoison = false)
    (hrun : IsRun cfg n cxlMapping memory mutexType tr s') (hfree : CrashFree tr s')
    (hwait : ∀ x ∈ stepsOf tr s', ¬ x.2.1.event.WaitsWith m)
    (hrefuse : ∀ x ∈ stepsOf tr s', ¬ x.1.Refuses m x.2.1.event) :
    (∀ pre x post, stepsOf tr s' = pre ++ x :: post → ∀ t,
      (x.1.mutexes m).owner = some t ↔ unlockCount m t pre < lockCount m t pre) ∧
    ∀ t, (s'.mutexes m).owner = some t ↔
      unlockCount m t (stepsOf tr s') < lockCount m t (stepsOf tr s') := by
  have hknown := hrun.waitsKnown hcfg
  have hplain := hrun.plainStep hcfg hfree
  have hinit : Balanced m [] (Model.init n cxlMapping memory mutexType) :=
    ⟨fun hcount => absurd hcount (Nat.lt_irrefl 0), fun t => rfl⟩
  obtain ⟨hall, hlast⟩ := hrun.2.history (P := Balanced m) [] (by
    intro done x hx hdone
    obtain ⟨⟨hs, hwaits⟩, h⟩ := hknown x hx
    have hx' := hplain x hx
    obtain ⟨hcounted, hdepth⟩ := h.balance hcfg hs hwaits (hx'.unhurt hx'.before) (hwait x hx)
      (hrefuse x hx) hdone.counted
    refine ⟨hcounted, fun t => ?_⟩
    rw [lockCount_concat, unlockCount_concat, hdone.depth t]
    have hstep := hdepth t
    omega) hinit
  exact ⟨fun pre x post heq t => (hall pre x post heq).owner_iff t, fun t => hlast.owner_iff t⟩

end

/-- `locks_balance` where process 0 locks a recursive mutex twice and unlocks it once, and process 1 tries to
lock it. -/
theorem locks_balance_nested : ∃ tr s,
    IsRun .asBuilt 2 4096 (fun _ => 0) (fun _ => .recursive) tr s ∧ CrashFree tr s ∧
    lockCount 0 0 (stepsOf tr s) = 2 ∧ unlockCount 0 0 (stepsOf tr s) = 1 ∧
    lockCount 0 1 (stepsOf tr s) = 0 ∧ (s.mutexes 0).owner = some 0 := by
  obtain ⟨tr, s, hrun, hcheck⟩ := exists_run_of_replay .asBuilt
    (Model.init 2 4096 (fun _ => 0) (fun _ => .recursive))
    [({ call := .lock 0 }, []), ({ call := .tryLock 0 }, []), ({}, []), ({}, []),
      ({ call := .lock 0 }, []), ({}, []), ({}, []), ({}, []), ({}, []), ({}, []),
      ({ call := .unlock 0 }, []), ({}, []), ({}, []), ({}, []), ({}, []), ({}, [])]
    (fun tr s => crashFree tr s &&
      (stepsOf tr s).all (fun x =>
        decide (¬ x.2.1.event.WaitsWith 0 ∧ ¬ x.1.Refuses 0 x.2.1.event)) &&
      decide (lockCount 0 0 (stepsOf tr s) = 2 ∧ unlockCount 0 0 (stepsOf tr s) = 1 ∧
        lockCount 0 1 (stepsOf tr s) = 0))
    (by decide +kernel)
  simp only [Bool.and_eq_true, decide_eq_true_eq, List.all_eq_true] at hcheck
  obtain ⟨⟨hfree, hall⟩, hlocks, hunlocks, htry⟩ := hcheck
  have hfree := crashFree_iff hfree
  have hrun' : IsRun .asBuilt 2 4096 (fun _ => 0) (fun _ => .recursive) tr s := ⟨by decide, hrun⟩
  obtain ⟨_, hlast⟩ := locks_balance (m := 0) rfl hrun' hfree (fun x hx => (hall x hx).1)
    (fun x hx => (hall x hx).2)
  refine ⟨tr, s, hrun', hfree, hlocks, hunlocks, htry, (hlast 0).mpr ?_⟩
  rw [hlocks, hunlocks]
  decide

/-- The only thread locks an `ERRORCHECK` mutex twice and unlocks it once: both locks return 0, but nobody
owns the mutex. -/
theorem locks_not_balance : ∃ tr s,
    IsRun .asBuilt 1 4096 (fun _ => 0) (fun _ => .errorcheck) tr s ∧ CrashFree tr s ∧
    (∀ x ∈ stepsOf tr s, ¬ x.2.1.event.WaitsWith 0) ∧
    lockCount 0 0 (stepsOf tr s) = 2 ∧ unlockCount 0 0 (stepsOf tr s) = 1 ∧
    (s.mutexes 0).owner = none ∧
    ¬ ((s.mutexes 0).owner = some 0 ↔
      unlockCount 0 0 (stepsOf tr s) < lockCount 0 0 (stepsOf tr s)) := by
  obtain ⟨tr, s, hrun, hcheck⟩ := exists_run_of_replay .asBuilt
    (Model.init 1 4096 (fun _ => 0) (fun _ => .errorcheck))
    [({ call := .lock 0 }, []), ({}, []), ({}, []), ({ call := .lock 0 }, []), ({}, []), ({}, []),
      ({ call := .unlock 0 }, []), ({}, []), ({}, [])]
    (fun tr s => crashFree tr s &&
      (stepsOf tr s).all (fun x => decide (¬ x.2.1.event.WaitsWith 0)) &&
      decide (lockCount 0 0 (stepsOf tr s) = 2 ∧ unlockCount 0 0 (stepsOf tr s) = 1 ∧
        (s.mutexes 0).owner = none))
    (by decide +kernel)
  simp only [Bool.and_eq_true, decide_eq_true_eq, List.all_eq_true] at hcheck
  obtain ⟨⟨hfree, hall⟩, hlocks, hunlocks, howner⟩ := hcheck
  refine ⟨tr, s, ⟨by decide, hrun⟩, crashFree_iff hfree, hall, hlocks, hunlocks, howner, ?_⟩
  rw [hlocks, hunlocks, howner]
  decide

end Cxlmc
