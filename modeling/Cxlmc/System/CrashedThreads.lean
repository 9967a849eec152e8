import Cxlmc.System.Places
import Cxlmc.Threads.Step

/-!
# Threads of crashed processes

`Model::action` looks at `crashes` once, at its head, and then gives the token away. A thread that is
suspended past that test goes on when the token comes back, whatever has happened to its process. As
long as no process crashes while one of its threads is suspended there with an action that has an effect,
`execute` does nothing for a process that has crashed (`execute_not_crashed`).
-/

namespace Cxlmc

open Stateful

/-- `execute` does something for the action. -/
def ModelAction.hasEffect (a : ModelAction) : Bool := a.type ≠ .threadStart && a.type ≠ .threadYield

/-- The thread is suspended inside `Model::action`, past the test of `crashes`, in its `yield` or in a
`thread_wait` of `execute`, and what is left to do has an effect. -/
def Context.pastTest : Context → Bool
  | .ready a _ => a.hasEffect
  | .waiting _ _ => true
  | _ => false

namespace Model

/-- The running thread is about to run code of `execute`. -/
def executes (s : Model) : Bool :=
  match s.contextOf s.threadId with
  | .ready _ _ | .waiting _ _ => true
  | _ => false

/-- A thread of the process is suspended past the test of `crashes`. -/
def holdsPastTest (s : Model) (pid : ProcessId) : Bool :=
  (List.range s.threadCount).any fun t =>
    decide ((s.threads t).processId = pid) && (s.contextOf t).pastTest

end Model

section

variable {cfg : Config} {s s' s₁ : Model} {e : Event} {P : Effect → Prop}

/-- The running thread does not crash its own process and go on. -/
theorem Goes.own_crashed_iff (hcfg : cfg.memPoison = false) (hyield : ¬ P .yield)
    (hself : ¬ P .crashSelf) (hlt : s.activeThread < s.threadCount) (h : Goes (MemStep cfg) P s s') :
    s.processId ∈ s'.crashes ↔ s.processId ∈ s.crashes := by
  suffices hboth : s.Stays s' ∧ (s.processId ∈ s'.crashes ↔ s.processId ∈ s.crashes) from hboth.2
  apply h.invariant (I := fun a => s.Stays a ∧ (s.processId ∈ a.crashes ↔ s.processId ∈ s.crashes)) _
    ⟨.refl s, Iff.rfl⟩
  intro a e b he ⟨hstays, hiff⟩ hstep
  have hne : ∀ e', e = e' → P e' := fun e' h => h ▸ he
  have hb := hstep.stays hcfg fun h => hyield (hne _ h)
  refine ⟨hstays.trans hb, ?_⟩
  have hext := hstep.crashes hcfg fun h => hself (hne _ h)
  rw [hstays.ownProcess hlt] at hext
  rw [← hiff]
  exact ⟨hext.own_mem, hext.mem⟩

/-- The code of `execute` leaves its own process as it was, unless it exits. -/
theorem StepCase.executed_spares_own {a : ModelAction} {v : Nat} {rf : Slots}
    (hcfg : cfg.memPoison = false) (hplaced : s.Placed)
    (h : StepCase cfg s (.executed a v rf) s') :
    s'.isCrashed s.processId = s.isCrashed s.processId := by
  cases h with
  | @executed b ret _ n _ t s₁ _ hctx h h' =>
      have hholds := hplaced.holds s.threadId
      rw [hctx] at hholds
      obtain ⟨htid, hseq⟩ := Issued.stamped (s := s) hholds
      have hstays := s.prepared_stays b
      have hlt : (s.prepared b).activeThread < (s.prepared b).threadCount := by
        rw [hstays.activeThread]
        exact Nat.lt_of_lt_of_le hplaced.active hstays.threadCount
      have hown := Goes.own_crashed_iff hcfg (by
        intro hyield
        cases hyield with
        | drains _ h => exact h) (by
        intro hself
        cases hself with
        | drains _ h => exact h) hlt (h.goes htid hseq)
      have hcrashes : (s.prepared b).crashes = s.crashes := by
        unfold Model.prepared
        split <;> rfl
      rw [hstays.ownProcess hplaced.active, hcrashes] at hown
      rw [Bool.eq_iff_iff, Model.isCrashed_iff, Model.isCrashed_iff, h'.memory]
      exact hown
  | resumed _ h =>
      rw [Model.isCrashed, h.memory]
      rfl

/-- A step leaves its own process as it was, unless it exits. -/
theorem StepCase.spares_own (hcfg : cfg.memPoison = false) (hplaced : s.Placed) (h : StepCase cfg s e s')
    (he : e ≠ .exited) : s'.isCrashed s.processId = s.isCrashed s.processId := by
  have hsame : s'.toMemory = s.toMemory → s'.isCrashed s.processId = s.isCrashed s.processId := by
    intro hmem
    rw [Model.isCrashed, hmem]
    rfl
  cases h with
  | executed hctx h h' => exact (StepCase.executed hctx h h').executed_spares_own hcfg hplaced
  | @popped mem n v ret _ _ h =>
      have hset := (Model.MovesTo.setContext s (.popping mem n v ret)).toControl
      have hown := Goes.own_crashed_iff hcfg (fun h => h) (fun h => h) (hset.activeThread hplaced.active)
        ((hplaced.pop_does cfg (.popping mem n v ret) mem).returns h)
      have hpid : (s.setContext s.threadId (.popping mem n v ret)).processId = s.processId :=
        hset.processId _ hplaced.active
      rw [hpid] at hown
      rw [Bool.eq_iff_iff, Model.isCrashed_iff, Model.isCrashed_iff]
      exact hown
  | called _ _ _ _ h => exact hsame h.memory
  | secondHalf _ _ _ _ h => exact hsame h.memory
  | lockAgain _ _ _ _ h => exact hsame h.memory
  | resumed _ h => exact hsame h.memory
  | blocked _ _ h => exact hsame h.memory
  | finished _ h => exact hsame h.memory
  | returned _ h => exact hsame h.memory
  | wrote _ => rfl
  | noAction _ _ h => exact hsame h.memory
  | exited _ _ => exact absurd rfl he

/-- The threads of a process that exits are gone. -/
theorem StepCase.exited_own (hcfg : cfg.memPoison = false) (hplaced : s.Placed)
    (h : StepCase cfg s .exited s') {t : ThreadId} (ht : t < s.threadCount)
    (hpid : (s.threads t).processId = s.processId) : s'.contextOf t = .exited := by
  cases h with
  | @exited s₁ _ hpath h =>
      obtain ⟨s₀, c, hmoves, hstays, _⟩ := hpath.moves hcfg hplaced
      have hcontrol := hmoves.toControl
      have ht₀ : t < s₀.threadCount := Nat.lt_of_lt_of_le ht hcontrol.threadCount
      have hsame : ∀ u, u < s.threadCount → (s₁.threads u).processId = (s.threads u).processId := by
        intro u hu
        rw [hstays.processId u (Nat.lt_of_lt_of_le hu hcontrol.threadCount), hcontrol.processId u hu]
      apply h.own t (Nat.lt_of_lt_of_le ht₀ hstays.threadCount)
      have hself : s₁.processId = s.processId := by
        rw [Model.processId, hstays.activeThread, hmoves.token]
        exact hsame _ hplaced.active
      rw [hsame t ht, hpid, hself]

/-- An action is called by a live process only. -/
theorem StepCase.called_live {a : ModelAction} (h : StepCase cfg s (.called a) s') :
    s.isCrashed s.processId = false := by
  cases h with
  | called _ _ hlive _ _ => exact hlive
  | secondHalf _ _ _ hlive _ => exact hlive
  | lockAgain _ _ hlive _ _ => exact hlive

/-- Every thread that is suspended past the test has a live process. -/
def Model.PastLive (s : Model) : Prop :=
  ∀ t, (s.contextOf t).pastTest = true →
    t < s.threadCount ∧ s.isCrashed (s.threads t).processId = false

theorem Model.not_pastTest {t : ThreadId} {pid : ProcessId} (h : s.holdsPastTest pid = false)
    (ht : t < s.threadCount) (hpid : (s.threads t).processId = pid) :
    (s.contextOf t).pastTest = false := by
  rw [Model.holdsPastTest, List.any_eq_false] at h
  have hnot := h t (List.mem_range.mpr ht)
  rw [hpid, decide_eq_true rfl, Bool.true_and, Bool.not_eq_true] at hnot
  exact hnot

/-- What is left to do after a wait has an effect. -/
theorem ModelAction.hasEffect_of_isSync {a : ModelAction} (h : a.isSync = true) : a.hasEffect = true := by
  simp only [isSync, Bool.or_eq_true, decide_eq_true_eq] at h
  rcases h with ((((h | h) | h) | h) | h) | h <;> simp [hasEffect, h]

/-- A step keeps the invariant, unless it crashes a process that has a thread past the test. -/
theorem StepCase.pastLive (hcfg : cfg.memPoison = false) (hplaced : s.Placed) (hs : s.PastLive)
    (hguard : ∀ p, p ∈ s'.crashes → p ∉ s.crashes → p ≠ s.processId → s.holdsPastTest p = false)
    (h : StepCase cfg s e s') : s'.PastLive := by
  have hgoes : Goes (MemStep cfg) (Event.Allows s s' e) s s' := h.goes hplaced
  -- a thread of another process stays where it is, and one of the own process is gone if it crashes
  have hkeeps : ∀ t, (s.contextOf t).pastTest = true → s'.contextOf t ≠ .exited →
      t < s'.threadCount ∧ s'.isCrashed (s'.threads t).processId = false := by
    intro t hpast hthere
    obtain ⟨ht, hlive⟩ := hs t hpast
    obtain ⟨ht', _, hpid⟩ := Goes.keepsProcess hcfg hgoes ht
    refine ⟨ht', ?_⟩
    rw [hpid]
    by_contra hcrashed
    rw [Bool.not_eq_false, Model.isCrashed_iff] at hcrashed
    by_cases hown : (s.threads t).processId = s.processId
    · have he : e ≠ .exited := by
        rintro rfl
        exact hthere (h.exited_own hcfg hplaced ht hown)
      have hsame := h.spares_own hcfg hplaced he
      rw [← hown, hlive, ← Bool.not_eq_true, Model.isCrashed_iff] at hsame
      exact hsame hcrashed
    · rw [← Bool.not_eq_true, Model.isCrashed_iff] at hlive
      rw [Model.not_pastTest (hguard _ hcrashed hlive hown) ht rfl] at hpast
      cases hpast
  intro t hpast
  have hthere : s'.contextOf t ≠ .exited := by
    intro hgone
    rw [hgone] at hpast
    cases hpast
  have hholds := (h.placed hcfg hplaced).holds t
  have hleads := h.leads hcfg hplaced t
  generalize hc : s'.contextOf t = c at hpast hleads hholds
  cases hleads with
  | stays _ => exact hkeeps t hpast hthere
  | user _ => cases hpast
  | shutdown _ _ => cases hpast
  | exited _ => cases hpast
  | popping _ _ => cases hpast
  | popped _ _ => cases hpast
  | ready ht _ =>
      obtain ⟨ht', _, hpid⟩ := Goes.keepsProcess hcfg hgoes (t := t) (ht ▸ hplaced.active)
      refine ⟨ht', ?_⟩
      have hsame := h.spares_own hcfg hplaced nofun
      rw [hpid, ht]
      exact hsame.trans h.called_live
  | waiting _ hctx =>
      apply hkeeps t _ hthere
      rcases hctx with hctx | hctx <;> rw [hctx]
      · exact ModelAction.hasEffect_of_isSync hholds.1
      · rfl

/-! ## The actions without an effect -/

theorem execute_of_not_hasEffect {a : ModelAction} (ret : Ret) (ha : a.hasEffect = false) :
    execute cfg a ret = return .done a.value [] := by
  simp only [ModelAction.hasEffect, Bool.and_eq_false_iff, decide_eq_false_iff_not, not_not] at ha
  rcases ha with htype | htype <;> rw [execute, htype]

theorem ModelAction.isControl_of_not_hasEffect {a : ModelAction} (ha : a.hasEffect = false) :
    a.isControl = true := by
  simp only [ModelAction.hasEffect, Bool.and_eq_false_iff, decide_eq_false_iff_not, not_not] at ha
  rcases ha with htype | htype <;> simp [isControl, isLoad, isBuffered, htype]

/-- `execute` comes back from such an action to the state in which it was called. -/
theorem ends_step_of_not_hasEffect {i : Input} {a : ModelAction} {ret : Ret} (ha : a.hasEffect = false)
    (hctx : s.contextOf s.threadId = .ready a ret) (h : (step cfg i).Ends s (.ok e) s') :
    ∃ mem n, s' = s.backAt (.popping mem n a.value ret) := by
  have hbody : ∀ {r : Except Stop Event} {x : Model}, (resume cfg i).Ends s r x →
      r = .ok (.executed a a.value []) ∧ ∃ mem n, x = s.backAt (.popping mem n a.value ret) := by
    intro r x h
    have hcontrol := ModelAction.isControl_of_not_hasEffect ha
    have hstamp := s.stamp_of_isControl hcontrol
    rw [resume, ends_state_bind] at h
    rw [Model.contextOf] at hctx
    rw [hctx] at h
    dsimp only at h
    rw [actionBody, not_access_of_isControl hcontrol, if_neg Bool.false_ne_true] at h
    dsimp only at h
    rw [ends_state_bind, hstamp, execute_of_not_hasEffect ret ha, ends_pure_bind] at h
    exact ends_done h
  rcases ends_onStop.mp h with ⟨h, _⟩ | ⟨_, h, _⟩
  · exact (hbody h).2
  · cases (hbody h).1

/-! ## Runs -/

/-- Unless a process is crashed by another one while one of its threads is suspended past the test of
`crashes` with an action that has an effect, `execute` does nothing for a process that has crashed: the
thread comes back from it, and nothing else has changed. A live process is still live when `execute`
comes back. -/
theorem execute_not_crashed {n cxlMapping : Nat} {memory : Nat → Nat}
    {mutexType : MutexId → MutexType} {tr : List (Model × Label)}
    (hrun : IsRun .asBuilt n cxlMapping memory mutexType tr s')
    (hguard : ∀ x ∈ stepsOf tr s', ∀ p, p ∈ x.2.2.crashes → p ∉ x.1.crashes → p ≠ x.1.processId →
      x.1.holdsPastTest p = false) :
    ∀ x ∈ stepsOf tr s', x.1.executes = true →
      (x.1.isCrashed x.1.processId = true →
        ∃ mem n v ret, x.2.2 = x.1.backAt (.popping mem n v ret)) ∧
      (x.1.isCrashed x.1.processId = false → x.2.1.event ≠ .exited →
        x.2.2.isCrashed x.1.processId = false) := by
  have hinit : (Model.init n cxlMapping memory mutexType).PastLive := fun t hpast => nomatch hpast
  obtain ⟨hall, _⟩ := hrun.invariant (P := Model.PastLive) rfl hinit (by
    intro s l s₁ hmem hplaced hs _ hcase
    exact hcase.pastLive rfl hplaced hs (hguard _ hmem))
  obtain ⟨hsteps, _⟩ := hrun.2.invariant_stepsOf (P := fun _ => True) (fun _ _ _ _ _ _ => trivial) trivial
  intro x hx hexec
  obtain ⟨hplaced, hs, _, hcase⟩ := hall x hx
  constructor
  · intro hcrashed
    have hnot : ¬ (x.1.contextOf x.1.threadId).pastTest = true := by
      intro hpast
      rw [Model.processId, ← Model.threadId, (hs _ hpast).2] at hcrashed
      cases hcrashed
    rw [Model.executes] at hexec
    split at hexec
    · next a ret hctx =>
        rw [hctx, Context.pastTest, Bool.not_eq_true] at hnot
        obtain ⟨_, i, hends⟩ := (hsteps x hx).2
        obtain ⟨mem, n, heq⟩ := ends_step_of_not_hasEffect hnot hctx hends
        exact ⟨mem, n, a.value, ret, heq⟩
    · next hctx =>
        rw [hctx] at hnot
        exact absurd rfl hnot
    · cases hexec
  · intro hlive he
    exact (hcase.spares_own rfl hplaced he).trans hlive

end

/-! ## A crashed process takes a mutex -/

/-- Process 1 writes to a word three times and is suspended in the `yield` of a lock; process 0 reads
the word, which crashes process 1, and passes the token back. -/
def lockAfterCrash : List (Input × List Nat) :=
  [({ call := .schedYield }, []),
   ({ call := .store 4096 .w64 1 }, []), ({}, []), ({}, []),
   ({ call := .store 4096 .w64 2 }, []), ({}, []), ({}, []),
   ({ call := .store 4096 .w64 3 }, []), ({ rand := 1, random := 2 }, []), ({}, []), ({}, []),
   ({}, []),
   ({ call := .lock 0 }, []),
   ({}, []), ({}, []),
   ({ call := .load 4096 .w64 }, []), ({}, [0, 1]), ({}, []),
   ({ call := .schedYield }, []),
   ({}, [])]

/-- The run of `lockAfterCrash` ends with the mutex owned by a thread of the crashed process, which
it has taken after the crash. -/
theorem execute_crashed_lock : ∃ tr s,
    IsRun .asBuilt 2 4096 (fun _ => 0) (fun _ => .default) tr s ∧
    (∃ x ∈ stepsOf tr s, x.1.executes = true ∧ x.1.isCrashed x.1.processId = true ∧
      (x.1.mutexes 0).owner = none) ∧
    (s.mutexes 0).owner = some 1 ∧ s.isCrashed (s.threads 1).processId = true := by
  obtain ⟨tr, s, hrun, hcheck⟩ := exists_run_of_replay .asBuilt
    (Model.init 2 4096 (fun _ => 0) (fun _ => .default)) lockAfterCrash
    (fun tr s =>
      (stepsOf tr s).any (fun x => x.1.executes && x.1.isCrashed x.1.processId &&
        decide ((x.1.mutexes 0).owner = none)) &&
      decide ((s.mutexes 0).owner = some 1) && s.isCrashed (s.threads 1).processId)
    (by decide +kernel)
  simp only [Bool.and_eq_true, List.any_eq_true, decide_eq_true_eq] at hcheck
  obtain ⟨⟨⟨x, hx, ⟨hexec, hcrashed⟩, hfree⟩, howner⟩, hpid⟩ := hcheck
  exact ⟨tr, s, ⟨by decide, hrun⟩, ⟨x, hx, hexec, hcrashed, hfree⟩, howner, hpid⟩

/-- The thread of process 1 is suspended in a `sched_yield` instead of the lock. -/
def yieldAfterCrash : List (Input × List Nat) :=
  lockAfterCrash.map fun x => if x.1.call = .lock 0 then ({ x.1 with call := .schedYield }, x.2) else x

/-- `execute_not_crashed` on the run of `yieldAfterCrash`: the thread of the crashed process goes on in
`execute`, and nothing comes of it. -/
theorem execute_not_crashed_yield : ∃ tr s,
    IsRun .asBuilt 2 4096 (fun _ => 0) (fun _ => .default) tr s ∧
    ∃ x ∈ stepsOf tr s, x.1.executes = true ∧ x.1.isCrashed x.1.processId = true ∧
      ∃ mem n v ret, x.2.2 = x.1.backAt (.popping mem n v ret) := by
  obtain ⟨tr, s, hrun, hcheck⟩ := exists_run_of_replay .asBuilt
    (Model.init 2 4096 (fun _ => 0) (fun _ => .default)) yieldAfterCrash
    (fun tr s =>
      (stepsOf tr s).any (fun x => x.1.executes && x.1.isCrashed x.1.processId) &&
      (stepsOf tr s).all fun x => x.2.2.crashes.keys.all fun p =>
        decide (p ∈ x.1.crashes) || decide (p = x.1.processId) || !x.1.holdsPastTest p)
    (by decide +kernel)
  simp only [Bool.and_eq_true, List.any_eq_true, List.all_eq_true] at hcheck
  obtain ⟨⟨x, hx, hexec, hcrashed⟩, hguard⟩ := hcheck
  have hrun' : IsRun .asBuilt 2 4096 (fun _ => 0) (fun _ => .default) tr s := ⟨by decide, hrun⟩
  have hall := execute_not_crashed hrun' (by
    intro y hy p hp hnew hother
    have h := hguard y hy p (AList.mem_keys.mp hp)
    simpa [hnew, hother] using h)
  exact ⟨tr, s, hrun', x, hx, hexec, hcrashed, (hall x hx hexec).1 hcrashed⟩

end Cxlmc
