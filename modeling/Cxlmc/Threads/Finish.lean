import Cxlmc.Threads.Run

/-!
# Finished threads

A thread that finishes gives the token to another one that can run. If there is none, `last_yield` leaves
the token where it is, `wait` comes back to the thread that has finished, and the `assert(0)` of
`Thread::finalize` fails (`finished_never_runs`).
-/

namespace Cxlmc

open Stateful

/-- The running thread is back from the `wait` of `Thread::finalize`. -/
structure Model.PastFinalize (s : Model) : Prop where
  place : s.contextOf s.threadId = .exited
  done : (s.threads s.threadId).isCompleted = true

/-- If the step finishes a thread, another one can run, or it waits for this one to finish. -/
def Model.FinishesAmongOthers (s : Model) : Event → Prop
  | .finished _ => ∃ t ∈ s.otherThreads,
      (s.threads t).state = .running ∨ (s.threads t).waitingOn = some (.thread s.threadId)
  | _ => True

instance (s : Model) : (e : Event) → Decidable (s.FinishesAmongOthers e)
  | .finished _ => inferInstanceAs (Decidable (∃ t ∈ s.otherThreads,
      (s.threads t).state = .running ∨ (s.threads t).waitingOn = some (.thread s.threadId)))
  | .called _ | .executed _ _ _ | .blocked _ | .popped _ | .returned _ | .noAction | .exited =>
      .isTrue trivial

section

variable {cfg : Config} {s s' : Model} {i : Input} {r : Except Stop Event} {l : Label}

/-- The `assert(0)` of `Thread::finalize`. -/
theorem Model.PastFinalize.fails (h : s.PastFinalize) (hends : (step cfg i).Ends s r s') :
    r = .error .assertFailed := by
  have hresume : ∀ {q : Except Stop Event} {y : Model}, (resume cfg i).Ends s q y →
      q = .error .assertFailed := by
    intro q y hends
    have hctx : (s.threads s.threadId).context = .exited := h.place
    rw [resume, ends_state_bind, hctx] at hends
    exact (ends_stop.mp hends).1
  rcases ends_onStop.mp hends with ⟨hends, _⟩ | ⟨s₁, hends, _⟩
  · exact hresume hends
  · cases hresume hends

theorem Model.Runs.not_pastFinalize (h : s.Runs) : ¬ s.PastFinalize := by
  rintro ⟨_, hdone⟩
  rw [Thread.isCompleted, h] at hdone
  cases hdone

/-- Who can run when the running thread has finished. -/
theorem Model.finishes_running_iff {t : ThreadId} (v : Nat) (ht : t < s.threadCount)
    (hne : t ≠ s.threadId) : ((s.finishes v).threads t).state = .running ↔
      (s.threads t).state = .running ∨ (s.threads t).waitingOn = some (.thread s.threadId) := by
  have hany : (s.threads t).waitingOn.any (· = .thread s.threadId) = true ↔
      (s.threads t).waitingOn = some (.thread s.threadId) := by
    simp only [Option.any_eq_true, decide_eq_true_eq, exists_eq_right]
  rw [s.finishes_threads, if_neg hne]
  split
  · next hwaits => exact ⟨fun _ => .inr (hany.mp hwaits.2), fun _ => rfl⟩
  · next hnot =>
      constructor
      · exact .inl
      · rintro (hrunning | hwaits)
        · exact hrunning
        · exact absurd ⟨ht, hany.mpr hwaits⟩ hnot

theorem Model.nextRunning_finishes_iff (v : Nat) (hlt : s.activeThread < s.threadCount) :
    (s.finishes v).nextRunning ≠ none ↔ ∃ t ∈ s.otherThreads,
      (s.threads t).state = .running ∨ (s.threads t).waitingOn = some (.thread s.threadId) := by
  have hothers : (s.finishes v).otherThreads = s.otherThreads := rfl
  rw [ne_eq, Model.nextRunning, List.find?_eq_none, hothers]
  push Not
  simp only [decide_eq_true_eq]
  refine exists_congr fun t => and_congr_right fun ht => ?_
  obtain ⟨ht, hne⟩ := (s.mem_otherThreads t hlt).mp ht
  exact s.finishes_running_iff v ht hne

theorem ThreadCase.runs_iff {e : Event} (h : ThreadCase s (.ok e) s') (hrun : s.Runs)
    (hlt : s.activeThread < s.threadCount) : s'.Runs ↔ s.FinishesAmongOthers e := by
  cases e with
  | finished a =>
      obtain ⟨v, ⟨t, hnext, rfl⟩ | ⟨hnext, rfl⟩⟩ := h.finished_cases
      · rw [Model.FinishesAmongOthers, ← s.nextRunning_finishes_iff v hlt, hnext]
        exact ⟨fun _ => nofun, fun _ => (Model.nextRunning_spec (s := s.finishes v) hnext hlt).1⟩
      · rw [Model.FinishesAmongOthers, ← s.nextRunning_finishes_iff v hlt, hnext]
        refine ⟨fun hruns => ?_, fun hne => absurd rfl hne⟩
        have hcompleted : ((s.finishes v).threads s.threadId).state = .completed := by
          rw [s.finishes_threads, if_pos rfl]
        have hrunning : ((s.finishes v).threads s.threadId).state = .running := hruns
        rw [hcompleted] at hrunning
        cases hrunning
  | _ => exact ⟨fun _ => trivial, fun _ => h.runs hrun hlt nofun⟩

end

section

variable {cfg : Config} {n cxlMapping : Nat} {memory : Nat → Nat} {mutexType : MutexId → MutexType}
  {tr : List (Model × Label)} {s s' : Model}

/-- What holds before each step and at the end holds after each step. -/
theorem Run.after {P : Model → Prop} (h : Run cfg s tr s')
    (hall : ∀ x ∈ stepsOf tr s', P x.1) (hlast : P s') : ∀ x ∈ stepsOf tr s', P x.2.2 := by
  induction h with
  | nil s =>
      intro x hx
      cases hx
  | cons _ htail ih =>
      rw [htail.stepsOf_cons] at hall ⊢
      have hrest := ih (fun x hx => hall x (List.mem_cons_of_mem _ hx)) hlast
      intro x hx
      rcases List.mem_cons.mp hx with rfl | hx
      · cases htail with
        | nil _ => exact hlast
        | cons _ htail' =>
            rw [htail'.stepsOf_cons] at hall
            exact hall _ (List.mem_cons_of_mem _ List.mem_cons_self)
      · exact hrest x hx

/-- The token is with a thread that can run in every state of a run, and none is back from
`Thread::finalize`, exactly where each thread that finishes does so while another one can run or waits
for it. -/
theorem finished_never_runs (hcfg : cfg.memPoison = false)
    (hrun : IsRun cfg n cxlMapping memory mutexType tr s') :
    ((∀ x ∈ stepsOf tr s', x.1.Runs ∧ ¬ x.1.PastFinalize) ∧ s'.Runs ∧ ¬ s'.PastFinalize) ↔
      ∀ x ∈ stepsOf tr s', x.1.FinishesAmongOthers x.2.1.event := by
  obtain ⟨hall, _, _⟩ := hrun.threads hcfg (P := fun _ => True) trivial fun _ _ _ _ _ _ _ _ => trivial
  constructor
  · rintro ⟨hbefore, hlast, _⟩ x hx
    obtain ⟨hunderway, _, _, hruns, hcase⟩ := hall x hx
    have hafter := hrun.2.after (P := Model.Runs) (fun y hy => (hbefore y hy).1) hlast x hx
    exact (hcase.runs_iff hruns hunderway.peopled.active).mp hafter
  · intro hothers
    obtain ⟨_, _, hlast⟩ := hrun.threads hcfg (P := Model.Runs) rfl (by
      intro s l s₁ hmem hs hruns _ hcase
      exact (hcase.runs_iff hruns hs.peopled.active).mpr (hothers _ hmem))
    refine ⟨fun x hx => ?_, hlast, hlast.not_pastFinalize⟩
    obtain ⟨_, _, _, hruns, _⟩ := hall x hx
    exact ⟨hruns, hruns.not_pastFinalize⟩

end

/-- `finished_never_runs` where the main thread of a process finishes and another process goes on. -/
theorem finished_never_runs_two : ∃ tr s,
    IsRun .asBuilt 2 4096 (fun _ => 0) (fun _ => .default) tr s ∧
    (s.threads 0).state = .completed ∧ s.Runs ∧ ¬ s.PastFinalize := by
  obtain ⟨tr, s, hrun, hcheck⟩ := exists_run_of_replay .asBuilt
    (Model.init 2 4096 (fun _ => 0) (fun _ => .default))
    [({ call := .pthreadExit 0 }, []), ({ call := .schedYield }, []), ({}, [])]
    (fun tr s => decide ((s.threads 0).state = .completed) &&
      (stepsOf tr s).all fun x => decide (x.1.FinishesAmongOthers x.2.1.event))
    (by decide +kernel)
  simp only [Bool.and_eq_true, decide_eq_true_eq, List.all_eq_true] at hcheck
  obtain ⟨hcompleted, hall⟩ := hcheck
  have hrun' : IsRun .asBuilt 2 4096 (fun _ => 0) (fun _ => .default) tr s := ⟨by decide, hrun⟩
  obtain ⟨_, hruns, hnot⟩ := (finished_never_runs rfl hrun').mpr hall
  exact ⟨tr, s, hrun', hcompleted, hruns, hnot⟩

/-- The main thread of the only process calls `pthread_exit`: the token comes back to it, and whatever
the next step is, the `assert(0)` fails. -/
theorem finished_runs : ∃ tr s,
    IsRun .asBuilt 1 4096 (fun _ => 0) (fun _ => .default) tr s ∧ ¬ s.Runs ∧ s.PastFinalize ∧
    ∀ i r s', (step .asBuilt i).Ends s r s' → r = .error .assertFailed := by
  obtain ⟨tr, s, hrun, hcheck⟩ := exists_run_of_replay .asBuilt
    (Model.init 1 4096 (fun _ => 0) (fun _ => .default))
    [({ call := .pthreadExit 0 }, []), ({}, [])]
    (fun _ s => decide (s.contextOf s.threadId = .exited) && (s.threads s.threadId).isCompleted)
    (by decide +kernel)
  simp only [Bool.and_eq_true, decide_eq_true_eq] at hcheck
  have hpast : s.PastFinalize := ⟨hcheck.1, hcheck.2⟩
  refine ⟨tr, s, ⟨by decide, hrun⟩, fun hruns => hruns.not_pastFinalize hpast, hpast, ?_⟩
  exact fun i r s' hends => hpast.fails hends

end Cxlmc
