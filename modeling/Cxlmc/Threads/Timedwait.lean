import Cxlmc.System.Places

/-!
# Timed waits

`get_mutex` has no case for `ATOMIC_TIMEDWAIT`, and its `assert(0)` fails whenever such an action is
executed. So a timed wait neither releases its mutex nor returns (`timedwait_never_works`).
-/

namespace Cxlmc

open Stateful

/-- The running thread is about to execute the action of `pthread_cond_timedwait(c, m)`. -/
def Model.AtTimedwait (s : Model) (c : CondId) (m : MutexId) : Prop :=
  ∃ req, (Call.condTimedwait c m).request s.threadId = some req ∧
    s.contextOf s.threadId = .ready req.action req.ret

/-- The timed wait of the running thread fails no assertion, releases `m` so that all who wait for it can
run, and comes back to the program with `m` owned again. -/
structure TimedwaitWorks (cfg : Config) (s : Model) (m : MutexId) : Prop where
  safe : ∀ i r s', (step cfg i).Ends s r s' → r ≠ .error .assertFailed
  releases : ∀ i e s', (step cfg i).Ends s (.ok e) s' →
    (s'.mutexes m).owner = none ∧
      ∀ t, (s.threads t).waitingOn = some (.mutex m) → (s'.threads t).state = .running
  reacquires : ∀ tr s', Run cfg s tr s' → ∀ pre x post, stepsOf tr s' = pre ++ x :: post →
    (∀ y ∈ pre, y.2.1.tid = s.threadId → ∀ v, y.2.1.event ≠ .returned v) →
    ∀ v, x.2.1 = ⟨s.threadId, .returned v⟩ → (x.2.2.mutexes m).owner = some s.threadId

section

variable {cfg : Config} {s s' : Model} {i : Input} {r : Except Stop Event} {a : ModelAction} {ret : Ret}

/-- The only way in which a timed wait can end. -/
theorem ends_timedwait (hctx : s.contextOf s.threadId = .ready a ret)
    (htype : a.type = .atomicTimedwait) :
    (step cfg i).Ends s r s' ↔ r = .error .assertFailed ∧ s' = s := by
  have hctx : (s.threads s.threadId).context = .ready a ret := hctx
  have hresume : ∀ {q : Except Stop Event} {y : Model},
      (resume cfg i).Ends s q y ↔ q = .error .assertFailed ∧ y = s := by
    intro q y
    have hstamp : s.stamp a = a := by
      rw [Model.stamp, htype]
      rfl
    have hnot : ¬ (a.isRead || a.isWrite) = true := by
      simp [ModelAction.isRead, ModelAction.isWrite, htype]
    have hmutex : a.getMutex = none := by rw [ModelAction.getMutex, htype]
    rw [resume, ends_state_bind, hctx]
    dsimp only
    rw [actionBody, if_neg hnot]
    dsimp only
    rw [ends_state_bind, hstamp, execute, htype]
    dsimp only
    rw [executeUnlock, hmutex]
    exact ends_stop (α := Event)
  rw [step, ends_onStop]
  constructor
  · rintro (⟨h, _⟩ | ⟨s₁, h, _⟩)
    · exact hresume.mp h
    · cases (hresume.mp h).1
  · rintro ⟨rfl, rfl⟩
    exact .inl ⟨hresume.mpr ⟨rfl, rfl⟩, by simp⟩

theorem Model.AtTimedwait.ends_iff {c : CondId} {m : MutexId} (h : s.AtTimedwait c m) :
    (step cfg i).Ends s r s' ↔ r = .error .assertFailed ∧ s' = s := by
  obtain ⟨req, hreq, hctx⟩ := h
  cases hreq
  exact ends_timedwait hctx rfl

/-- It does not work where the assertion fails. -/
theorem Model.AtTimedwait.not_works {c : CondId} {m : MutexId} (h : s.AtTimedwait c m) :
    ¬ TimedwaitWorks cfg s m := by
  intro hworks
  exact hworks.safe {} _ s (h.ends_iff.mpr ⟨rfl, rfl⟩) rfl

/-- No thread waits inside a timed wait. -/
def Model.NoTimedwait (s : Model) : Prop :=
  ∀ t a ret, s.contextOf t = .waiting a ret → a.type ≠ .atomicTimedwait

theorem SysStep.not_timedwait {l : Label} (h : SysStep cfg s l s')
    (hctx : s.contextOf s.threadId = .ready a ret) : a.type ≠ .atomicTimedwait := by
  intro htype
  obtain ⟨_, i, hends⟩ := h
  cases ((ends_timedwait hctx htype).mp hends).1

theorem SysStep.noTimedwait {l : Label} (hcfg : cfg.memPoison = false) (hplaced : s.Placed)
    (hno : s.NoTimedwait) (h : SysStep cfg s l s') : s'.NoTimedwait := by
  intro t a ret hctx
  obtain ⟨_, hcase⟩ := stepCase_of_sysStep hcfg hplaced h
  have hleads := hcase.leads hcfg hplaced t
  generalize s'.contextOf t = c at hleads hctx
  generalize l.event = e at hleads
  cases hleads with
  | stays _ => exact hno t a ret hctx
  | waiting ht hplace =>
      cases hctx
      rcases hplace with hplace | hplace
      · exact h.not_timedwait (ht ▸ hplace)
      · exact hno t a ret hplace
  | _ => cases hctx

/-- `execute` does not come back from a timed wait. -/
theorem SysStep.not_executed {l : Label} {v : Nat} {rf : Slots} (hcfg : cfg.memPoison = false)
    (hplaced : s.Placed) (hno : s.NoTimedwait) (h : SysStep cfg s l s')
    (he : l.event = .executed a v rf) : a.type ≠ .atomicTimedwait := by
  obtain ⟨_, hcase⟩ := stepCase_of_sysStep hcfg hplaced h
  rw [he] at hcase
  cases hcase with
  | executed hctx _ _ =>
      rw [s.stamp_type]
      exact h.not_timedwait hctx
  | resumed hctx _ => exact hno _ _ _ hctx

end

section

variable {cfg : Config} {n cxlMapping : Nat} {memory : Nat → Nat} {mutexType : MutexId → MutexType}
  {tr : List (Model × Label)} {s : Model}

/-- In no run does a timed wait work: `execute` comes back from none of them, and where the running
thread is about to execute one, every step fails the assertion, whatever the mutex is. -/
theorem timedwait_never_works (hcfg : cfg.memPoison = false)
    (hrun : IsRun cfg n cxlMapping memory mutexType tr s) :
    (∀ x ∈ stepsOf tr s, ∀ a v rf, x.2.1.event = .executed a v rf → a.type ≠ .atomicTimedwait) ∧
    ∀ c m, s.AtTimedwait c m → ¬ TimedwaitWorks cfg s m ∧
      ∀ i r s', (step cfg i).Ends s r s' → r = .error .assertFailed := by
  have hinit : (Model.init n cxlMapping memory mutexType).NoTimedwait := by
    intro t a ret hctx
    cases hctx
  obtain ⟨hn, hrun⟩ := hrun
  obtain ⟨hall, _⟩ := hrun.invariant_stepsOf (P := fun s => s.Placed ∧ s.NoTimedwait) (by
    intro s l s₁ _ hs hstep
    obtain ⟨_, hcase⟩ := stepCase_of_sysStep hcfg hs.1 hstep
    exact ⟨hcase.placed hcfg hs.1, hstep.noTimedwait hcfg hs.1 hs.2⟩) ⟨Model.placed_init hn, hinit⟩
  constructor
  · intro x hx a v rf he
    obtain ⟨⟨hplaced, hno⟩, hstep⟩ := hall x hx
    exact hstep.not_executed hcfg hplaced hno he
  · intro c m hcall
    exact ⟨hcall.not_works, fun i r s' hends => (hcall.ends_iff.mp hends).1⟩

end

/-- The running thread is about to execute a timed wait on `c` with the mutex `m`, which it owns once. -/
def Model.atOwnTimedwait (s : Model) (c : CondId) (m : MutexId) : Bool :=
  decide (s.contextOf s.threadId =
    .ready { tid := s.threadId, type := .atomicTimedwait, location := c, value := m } (.lock m)) &&
  decide ((s.mutexes m).owner = some s.threadId) && decide ((s.mutexes m).recursiveLockCount = 0)

theorem exists_atOwnTimedwait (n : Nat) (hn : 1 ≤ n) (ins : List (Input × List Nat))
    (h : (replay .asBuilt (Model.init n 4096 (fun _ => 0) (fun _ => .default)) ins).any
      (fun x => x.2.atOwnTimedwait 7 5) = true) :
    ∃ tr s, IsRun .asBuilt n 4096 (fun _ => 0) (fun _ => .default) tr s ∧ s.AtTimedwait 7 5 ∧
      (s.mutexes 5).owner = some s.threadId ∧ (s.mutexes 5).recursiveLockCount = 0 := by
  obtain ⟨tr, s, hrun, hcheck⟩ := exists_run_of_replay .asBuilt _ ins (fun _ s => s.atOwnTimedwait 7 5) h
  simp only [Model.atOwnTimedwait, Bool.and_eq_true, decide_eq_true_eq] at hcheck
  obtain ⟨⟨hctx, howner⟩, hcount⟩ := hcheck
  exact ⟨tr, s, ⟨hn, hrun⟩, ⟨_, rfl, hctx⟩, howner, hcount⟩

/-- `timedwait_never_works` on a thread that is alone. -/
theorem timedwait_never_works_alone : ∃ tr s,
    IsRun .asBuilt 1 4096 (fun _ => 0) (fun _ => .default) tr s ∧ s.AtTimedwait 7 5 ∧
    (s.mutexes 5).owner = some s.threadId ∧ (s.mutexes 5).recursiveLockCount = 0 ∧
    ¬ TimedwaitWorks .asBuilt s 5 := by
  obtain ⟨tr, s, hrun, hcall, howner, hcount⟩ := exists_atOwnTimedwait 1 (by decide)
    [({ call := .lock 5 }, []), ({}, []), ({}, []), ({ call := .condTimedwait 7 5 }, [])]
    (by decide +kernel)
  exact ⟨tr, s, hrun, hcall, howner, hcount, ((timedwait_never_works rfl hrun).2 7 5 hcall).1⟩

/-- A thread that owns a mutex once calls `pthread_cond_timedwait` while another process waits for it. -/
theorem timedwait_not_works : ∃ tr s,
    IsRun .asBuilt 2 4096 (fun _ => 0) (fun _ => .default) tr s ∧ s.AtTimedwait 7 5 ∧
    (s.mutexes 5).owner = some s.threadId ∧ (s.mutexes 5).recursiveLockCount = 0 ∧
    ¬ TimedwaitWorks .asBuilt s 5 := by
  obtain ⟨tr, s, hrun, hcall, howner, hcount⟩ := exists_atOwnTimedwait 2 (by decide)
    [({ call := .lock 5 }, []), ({ call := .lock 5 }, []), ({}, []), ({}, []),
      ({ call := .condTimedwait 7 5 }, []), ({}, [])]
    (by decide +kernel)
  exact ⟨tr, s, hrun, hcall, howner, hcount, hcall.not_works⟩

end Cxlmc
