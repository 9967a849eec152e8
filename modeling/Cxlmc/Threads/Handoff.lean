import Cxlmc.Threads.Processes
import Cxlmc.Threads.Serve

/-!
# The mutexes of a thread that crashes

A mutex keeps its owner when that thread crashes. Who becomes the owner next finds the crashed one
there, and `execute` reports it: with 1 for a lock, also for one that had to wait, and with 2 for a trylock.
`crash_handoff` says that this is the value of the first acquisition after the crash, and of no other.
-/

namespace Cxlmc

open Stateful

/-- The owner of the mutex has crashed. -/
def Model.OwnerCrashed (s : Model) (m : MutexId) : Prop :=
  ∃ o, (s.mutexes m).owner = some o ∧ (s.threads o).state = .crashed

/-- A step in which a thread crashes that owns `m`. -/
def CrashesOwner (m : MutexId) (x : Model × Label × Model) : Prop :=
  ∃ o, (x.1.mutexes m).owner = some o ∧ (x.1.threads o).state ≠ .crashed ∧
    (x.2.2.threads o).state = .crashed

/-- A lock or a trylock that makes the running thread the owner of `m`. -/
def Acquires (m : MutexId) (x : Model × Label × Model) : Prop :=
  ∃ a v rf, x.2.1.event = .executed a v rf ∧ a.location = m ∧
    (a.type = .atomicLock ∨ a.type = .atomicTrylock) ∧
    (x.1.mutexes m).owner ≠ some x.1.threadId ∧ (x.2.2.mutexes m).owner = some x.1.threadId

/-- An owner of `m` has crashed in the steps, and nobody has acquired `m` since. -/
def CrashPending (m : MutexId) (done : List (Model × Label × Model)) : Prop :=
  ∃ pre y mid, done = pre ++ y :: mid ∧ CrashesOwner m y ∧ ∀ z ∈ mid, ¬ Acquires m z

/-- The value of a lock or a trylock that takes a mutex over from a crashed thread. -/
def ModelAction.crashedValue (a : ModelAction) : Nat := if a.type = .atomicLock then 1 else 2

/-- The value where it takes a mutex that nobody owns. -/
def ModelAction.acquiredValue (a : ModelAction) : Nat := if a.type = .atomicLock then 0 else 1

section

variable {cfg : Config} {s s' : Model} {l : Label} {m : MutexId} {t : ThreadId} {a : ModelAction} {v : Nat}

theorem crashPending_concat {done : List (Model × Label × Model)} {x : Model × Label × Model} :
    CrashPending m (done ++ [x]) ↔ CrashesOwner m x ∨ CrashPending m done ∧ ¬ Acquires m x := by
  constructor
  · rintro ⟨pre, y, mid, heq, hcrash, hmid⟩
    rcases List.eq_nil_or_concat mid with rfl | ⟨mid', z, rfl⟩
    · obtain ⟨_, hxy⟩ := List.append_inj' heq rfl
      cases hxy
      exact .inl hcrash
    · rw [List.concat_eq_append, ← List.cons_append, ← List.append_assoc] at heq
      obtain ⟨hdone, hxz⟩ := List.append_inj' heq rfl
      cases hxz
      refine .inr ⟨⟨pre, y, mid', hdone, hcrash, ?_⟩, hmid _ (by simp)⟩
      exact fun z hz => hmid z (by simp [hz])
  · rintro (hcrash | ⟨⟨pre, y, mid, rfl, hcrash, hmid⟩, hnot⟩)
    · exact ⟨done, x, [], rfl, hcrash, by simp⟩
    · refine ⟨pre, y, mid ++ [x], by simp, hcrash, fun z hz => ?_⟩
      rcases List.mem_append.mp hz with hz | hz
      · exact hmid z hz
      · rw [List.mem_singleton.mp hz]
        exact hnot

/-! ## Who crashes in a step -/

theorem Model.Quits.crashed (h : s.Quits s') (ht : (s.threads t).state = .crashed) :
    (s'.threads t).state = .crashed := by
  have hgone : (s.gone.threads t).state = .crashed := by
    rw [(s.gone_goesOn t).state (by simp [Thread.isCompleted, ht]), ht]
  obtain ⟨u, _, rfl⟩ | ⟨_, rfl⟩ := h.passes
  · exact hgone
  · exact hgone

theorem ThreadCase.crashed {r : Except Stop Event} (h : ThreadCase s r s') (hrun : s.Runs)
    (hp : s.Peopled) (ht : (s.threads t).state = .crashed) : (s'.threads t).state = .crashed :=
  h.invariant (P := fun x => (x.threads t).state = .crashed) (fun hx ht hmove => hmove.crashed hx ht)
    (fun h ht => h.crashed ht) hrun hp ht

theorem Acts.not_crashed {s₁ : Model} (h : Acts a s s₁) (hrun : s.Runs)
    (ht : (s.threads t).state ≠ .crashed) : (s₁.threads t).state ≠ .crashed := by
  cases h with
  | work _ h => rwa [h.threads]
  | idle _ _ _ => exact ht
  | create _ h =>
      rw [h.threads, s.newThread_threads]
      split
      · simp [Thread.new]
      · exact ht
  | acquire _ _ _ => exact (hrun.acquired_turns a.location t).not_crashed ht
  | relock _ _ _ => exact ht
  | unlockOnce _ _ _ _ _ => exact ht
  | unlock m _ _ _ => exact (hrun.released_turns m t).not_crashed ht
  | notifyOne _ => exact (s.wakeOne_turns _ t).not_crashed ht
  | notifyAll _ => exact (s.wakeAll_turns _ t).not_crashed ht

theorem Calls.not_crashed {ret : Ret} {r : Except Stop Event} (h : Calls a ret s r s') (hrun : s.Runs)
    (ht : (s.threads t).state ≠ .crashed) : (s'.threads t).state ≠ .crashed := by
  have hcalled := (hrun.called_turns a ret t).not_crashed ht
  rw [h.threads_eq]
  exact hcalled

/-- Threads crash only in the exit handler of a process. -/
theorem ThreadCase.not_crashed {e : Event} (h : ThreadCase s (.ok e) s') (hrun : s.Runs)
    (hlt : s.activeThread < s.threadCount) (he : e ≠ .exited)
    (ht : (s.threads t).state ≠ .crashed) : (s'.threads t).state ≠ .crashed := by
  generalize hr : (Except.ok e : Except Stop Event) = r at h
  cases h with
  | called _ _ _ h => exact h.not_crashed hrun ht
  | secondHalf _ _ _ h => exact h.not_crashed hrun ht
  | lockAgain _ _ h => exact h.not_crashed hrun ht
  | executed _ _ hacts =>
      have hback := (hacts.runs hrun hlt).backAt_turns
      exact (hback _ t).not_crashed (hacts.not_crashed hrun ht)
  | resumed _ _ hacts =>
      have hback := (hacts.runs hrun hlt).backAt_turns
      exact (hback _ t).not_crashed (hacts.not_crashed hrun ht)
  | @blocked _ _ _ s₁ _ _ hwaits h =>
      have hs₁ : (s₁.threads t).state ≠ .crashed := by
        cases hwaits with
        | stays _ _ => exact ht
        | gives _ => exact (hrun.released_turns _ t).not_crashed ht
      rw [h.threads_eq, s₁.waits_threads]
      split
      · simp
      · exact hs₁
  | finished _ _ h =>
      rw [h.threads_eq, s.finishes_threads]
      split
      · simp
      · exact (s.wakeAll_turns _ t).not_crashed ht
  | relocks => cases hr
  | popped _ h =>
      rw [h.threads]
      exact (hrun.setContext_turns _ t).not_crashed ht
  | returned _ _ h =>
      rw [h.threads]
      exact (hrun.setContext_turns _ t).not_crashed ht
  | noAction _ h => rwa [h.threads]
  | userDone _ h =>
      rw [h.threads_eq]
      exact (hrun.setContext_turns _ t).not_crashed ht
  | exited _ _ =>
      cases hr
      exact absurd rfl he
  | exitStuck _ _ => cases hr

/-! ## Who owns the mutex after a step -/

/-- Where a lock or a trylock finds a crashed owner, and where not. -/
theorem Mutex.Serves.value {mx mx' : Mutex} {crashed : ThreadId → Prop}
    (h : mx.Serves t crashed a.type v mx') (htype : a.type ≠ .atomicUnlock) :
    (∃ o, mx.owner = some o ∧ crashed o) ∧ v = a.crashedValue ∧ mx'.owner = some t ∨
      (∀ o, mx.owner = some o → o = t ∨ ¬ crashed o) ∧ v < a.crashedValue ∧
        (mx'.owner ≠ mx.owner → v = a.acquiredValue) := by
  rw [ModelAction.crashedValue, ModelAction.acquiredValue]
  generalize a.type = type at h htype
  cases h with
  | lock howner => exact .inr ⟨by simp [howner], by simp, fun _ => rfl⟩
  | inherit howner _ hcrashed => exact .inl ⟨⟨_, howner, hcrashed⟩, rfl, rfl⟩
  | nest howner _ => exact .inr ⟨by simp [howner], by simp, fun hne => absurd rfl hne⟩
  | refuseLock howner _ => exact .inr ⟨by simp [howner], by simp, fun hne => absurd rfl hne⟩
  | trylock howner => exact .inr ⟨by simp [howner], by simp, fun _ => rfl⟩
  | tryInherit howner hcrashed => exact .inl ⟨⟨_, howner, hcrashed⟩, rfl, rfl⟩
  | busy howner halive =>
      exact .inr ⟨by simp [howner, halive], by simp, fun hne => absurd rfl hne⟩
  | _ => exact absurd rfl htype

/-- The owner stays, it gives the mutex up, or a lock or a trylock brings a new one. -/
theorem Mutex.Serves.owner_cases {mx mx' : Mutex} {crashed : ThreadId → Prop} {type : ActionType}
    (h : mx.Serves t crashed type v mx') :
    mx'.owner = mx.owner ∨ mx.owner = some t ∧ mx'.owner = none ∨
      (type = .atomicLock ∨ type = .atomicTrylock) ∧ mx'.owner = some t := by
  cases h with
  | lock _ => exact .inr (.inr ⟨.inl rfl, rfl⟩)
  | inherit _ _ _ => exact .inr (.inr ⟨.inl rfl, rfl⟩)
  | trylock _ => exact .inr (.inr ⟨.inr rfl, rfl⟩)
  | tryInherit _ _ => exact .inr (.inr ⟨.inr rfl, rfl⟩)
  | unlock howner _ => exact .inr (.inl ⟨howner, rfl⟩)
  | _ => exact .inl rfl

theorem SysStep.owner_cases (hcfg : cfg.memPoison = false) (hs : s.Underway) (hwaits : s.WaitsKnown)
    (h : SysStep cfg s l s') (m : MutexId) :
    (s'.mutexes m).owner = (s.mutexes m).owner ∨
      (s.mutexes m).owner = some s.threadId ∧ (s'.mutexes m).owner = none ∨
      Acquires m (s, l, s') := by
  obtain ⟨a, v, rf, he, rfl, _, hserves⟩ | ⟨_, hsame | ⟨_, hbefore, hafter⟩⟩ :=
    h.mutex_cases hcfg hs hwaits m
  · by_cases hsame : (s'.mutexes a.location).owner = (s.mutexes a.location).owner
    · exact .inl hsame
    · obtain hstays | hgives | ⟨htype, htakes⟩ := hserves.owner_cases
      · exact absurd hstays hsame
      · exact .inr (.inl hgives)
      · refine .inr (.inr ⟨a, v, rf, he, rfl, htype, ?_, htakes⟩)
        rw [← htakes]
        exact fun heq => hsame heq.symm
  · exact .inl (by rw [hsame])
  · rcases hafter with hafter | hafter
    · exact .inr (.inl ⟨hbefore, hafter⟩)
    · exact .inl (hafter.trans hbefore.symm)

theorem Model.Runs.not_crashed (h : s.Runs) : (s.threads s.threadId).state ≠ .crashed := by
  intro hcrashed
  cases h.symm.trans hcrashed

/-- When the owner of a mutex has crashed, after a step. -/
theorem SysStep.ownerCrashed_iff (hcfg : cfg.memPoison = false) (hs : s.Underway) (hwaits : s.WaitsKnown)
    (h : SysStep cfg s l s') (m : MutexId) :
    s'.OwnerCrashed m ↔ CrashesOwner m (s, l, s') ∨ s.OwnerCrashed m ∧ ¬ Acquires m (s, l, s') := by
  obtain ⟨_, hrun, hcase, _⟩ := hs.sysStep hcfg h
  have hlt := hs.peopled.active
  have howner := h.owner_cases hcfg hs hwaits m
  constructor
  · rintro ⟨o, ho, hcrashed⟩
    obtain hsame | ⟨_, hnone⟩ | hacquires := howner
    · rw [hsame] at ho
      by_cases hbefore : (s.threads o).state = .crashed
      · refine .inr ⟨⟨o, ho, hbefore⟩, ?_⟩
        rintro ⟨_, _, _, _, _, _, hne, hafter⟩
        exact hne (hsame.symm.trans hafter)
      · exact .inl ⟨o, ho, hbefore, hcrashed⟩
    · rw [hnone] at ho
      cases ho
    · -- the new owner is the running thread, which does not crash while it locks
      obtain ⟨a, v, rf, he, _, _, _, hafter⟩ := hacquires
      have hafter : (s'.mutexes m).owner = some s.threadId := hafter
      rw [hafter] at ho
      cases ho
      have he : l.event = .executed a v rf := he
      rw [he] at hcase
      exact absurd hcrashed (hcase.not_crashed hrun hlt nofun hrun.not_crashed)
  · rintro (⟨o, ho, halive, hcrashed⟩ | ⟨⟨o, ho, hcrashed⟩, hnot⟩)
    · have hexited : l.event = .exited := by
        by_contra he
        exact hcase.not_crashed hrun hlt he halive hcrashed
      have hsame : s'.mutexes m = s.mutexes m := by
        obtain hsame | ⟨hwaitsWith, _⟩ := h.mutexes_eq hcfg hs (by simp [hexited]) m
        · exact hsame
        · rw [hexited] at hwaitsWith
          exact hwaitsWith.elim
      exact ⟨o, hsame ▸ ho, hcrashed⟩
    · have hafter := hcase.crashed hrun hs.peopled hcrashed
      obtain hsame | ⟨hself, _⟩ | hacquires := howner
      · exact ⟨o, hsame.trans ho, hafter⟩
      · rw [hself] at ho
        cases ho
        exact absurd hcrashed hrun.not_crashed
      · exact absurd hacquires hnot

end

/-! ## Runs -/

section

variable {cfg : Config} {n cxlMapping : Nat} {memory : Nat → Nat} {mutexType : MutexId → MutexType}
  {tr : List (Model × Label)} {s' : Model}

/-- The owner of `m` has crashed in a state of a run exactly where the crash is still to be reported. -/
theorem IsRun.ownerCrashed_iff (hcfg : cfg.memPoison = false)
    (hrun : IsRun cfg n cxlMapping memory mutexType tr s') (m : MutexId) :
    ∀ pre x post, stepsOf tr s' = pre ++ x :: post →
      (x.1.OwnerCrashed m ↔ CrashPending m pre) := by
  have hknown := hrun.waitsKnown hcfg
  refine (hrun.2.history (P := fun done s => s.OwnerCrashed m ↔ CrashPending m done) [] ?_ ?_).1
  · intro done x hx hiff
    obtain ⟨⟨hs, hwaits⟩, h⟩ := hknown x hx
    rw [crashPending_concat, h.ownerCrashed_iff hcfg hs hwaits, hiff]
  · constructor
    · rintro ⟨o, ho, _⟩
      cases ho
    · rintro ⟨pre, y, mid, heq, _, _⟩
      simp at heq

/-- A lock or a trylock carries the crash indication exactly where the owner of the mutex has crashed and
nobody has acquired it since. It acquires the mutex then, and any other acquisition carries the value of
a mutex that nobody owns. -/
theorem crash_handoff (hcfg : cfg.memPoison = false)
    (hrun : IsRun cfg n cxlMapping memory mutexType tr s') :
    ∀ pre x post, stepsOf tr s' = pre ++ x :: post → ∀ a v rf, x.2.1.event = .executed a v rf →
      (a.type = .atomicLock ∨ a.type = .atomicTrylock) →
      (CrashPending a.location pre → Acquires a.location x) ∧
      (v = a.crashedValue ↔ CrashPending a.location pre) ∧
      (Acquires a.location x → ¬ CrashPending a.location pre → v = a.acquiredValue) ∧
      (a.type = .atomicLock → (mutexLockCrashed v = 2 ↔ CrashPending a.location pre)) ∧
      ((x.1.mutexes a.location).owner = none → ¬ CrashPending a.location pre) := by
  intro pre x post heq a v rf he htype
  obtain ⟨s, l, s₁⟩ := x
  obtain ⟨⟨hs, hwaits⟩, h⟩ := hrun.waitsKnown hcfg (s, l, s₁) (by simp [heq])
  obtain ⟨_, hruns, _, _⟩ := hs.sysStep hcfg h
  rw [← hrun.ownerCrashed_iff hcfg a.location pre _ post heq]
  have ha : a.isMutex = true := by
    rcases htype with htype | htype <;> simp [ModelAction.isMutex, htype]
  have hunlock : a.type ≠ .atomicUnlock := by
    rcases htype with htype | htype <;> simp [htype]
  obtain ⟨mx, hserves, hafter⟩ := h.serves hcfg hs.placed hruns hwaits he ha
  have howner : (s₁.mutexes a.location).owner = mx.owner := by
    rw [hafter, Function.update_self]
  -- the mutex has an owner that has crashed, or it has not
  obtain ⟨⟨o, ho, hcrashed⟩, hv, htakes⟩ | ⟨halive, hv, htakes⟩ := hserves.value hunlock
  · have hpending : s.OwnerCrashed a.location := ⟨o, ho, hcrashed⟩
    have hne : (s.mutexes a.location).owner ≠ some s.threadId := by
      rw [ho]
      rintro heq
      cases heq
      exact hruns.not_crashed hcrashed
    refine ⟨fun _ => ⟨a, v, rf, he, rfl, htype, hne, howner.trans htakes⟩, ?_, ?_, ?_, ?_⟩
    · exact ⟨fun _ => hpending, fun _ => hv⟩
    · exact fun _ hnot => absurd hpending hnot
    · intro hlock
      rw [hv, ModelAction.crashedValue, if_pos hlock]
      exact ⟨fun _ => hpending, fun _ => rfl⟩
    · intro hnone
      rw [hnone] at ho
      cases ho
  · have hnot : ¬ s.OwnerCrashed a.location := by
      rintro ⟨o, ho, hcrashed⟩
      rcases halive o ho with rfl | halive
      · exact hruns.not_crashed hcrashed
      · exact halive hcrashed
    refine ⟨fun hpending => absurd hpending hnot, ?_, ?_, ?_, fun _ => hnot⟩
    · exact ⟨fun heq => absurd heq (Nat.ne_of_lt hv), fun hpending => absurd hpending hnot⟩
    · rintro ⟨_, _, _, _, _, _, hbefore, hself⟩ _
      refine htakes fun hsame => hbefore ?_
      exact hsame.symm.trans (howner.symm.trans hself)
    · intro hlock
      rw [ModelAction.crashedValue, if_pos hlock, Nat.lt_one_iff] at hv
      rw [hv]
      exact ⟨fun heq => absurd heq (by decide), fun hpending => absurd hpending hnot⟩

end

/-- `crash_handoff` where process 0 crashes with mutex 0 and process 1 waits for it. -/
theorem crash_handoff_waiting : ∃ tr s pre x post a,
    IsRun .asBuilt 2 4096 (fun _ => 0) (fun _ => .default) tr s ∧ stepsOf tr s = pre ++ x :: post ∧
    x.2.1 = ⟨1, .executed a 1 []⟩ ∧ a.type = .atomicLock ∧ CrashPending a.location pre ∧
    Acquires a.location x ∧ mutexLockCrashed 1 = 2 := by
  obtain ⟨tr, s, hrun, hcheck⟩ := exists_run_of_replay .asBuilt
    (Model.init 2 4096 (fun _ => 0) (fun _ => .default))
    [({ call := .lock 0 }, []), ({ call := .lock 0 }, []), ({}, []), ({}, []), ({}, []), ({}, []),
      ({}, []), ({}, []), ({ call := .insertCrash }, [0]), ({}, [])]
    (fun tr s => (stepsOf tr s).any fun x =>
      decide (x.2.1 = ⟨1, .executed { tid := 1, type := .atomicLock, location := 0 } 1 []⟩))
    (by decide +kernel)
  obtain ⟨x, hx, he⟩ := List.any_eq_true.mp hcheck
  have he := of_decide_eq_true he
  obtain ⟨pre, post, heq⟩ := List.append_of_mem hx
  have hrun' : IsRun .asBuilt 2 4096 (fun _ => 0) (fun _ => .default) tr s := ⟨by decide, hrun⟩
  obtain ⟨hacquires, hvalue, _, hlock, _⟩ :=
    crash_handoff rfl hrun' pre x post heq _ 1 [] (by rw [he]) (.inl rfl)
  have hpending := hvalue.mp rfl
  exact ⟨tr, s, pre, x, post, _, hrun', heq, he, rfl, hpending, hacquires hpending,
    (hlock rfl).mpr hpending⟩

end Cxlmc
