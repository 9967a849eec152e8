import Cxlmc.Lib.RoundRobin
import Cxlmc.Threads.Deadlock

/-!
# The token goes round

`yield` and `last_yield` pass the token to the next thread that is running, in the order of the thread ids.
While a thread is running and waits for the token, the token only comes nearer (`ThreadCase.advances`): no
other thread gets it a second time, whatever the threads do meanwhile, and whatever threads are created
(`token_goes_round`).
-/

namespace Cxlmc

open Stateful RoundRobin

/-- The token stays where it is, or it is passed once, to the next thread that is running. -/
inductive Model.PassesToken (s s' : Model) : Prop where
  | keeps (h : s'.activeThread = s.activeThread)
  | next {x : Model} {u : ThreadId} (hactive : x.activeThread = s.activeThread)
      (hcount : x.threadCount = s.threadCount) (hnext : x.nextRunning = some u) (hpass : s' = x.passed u)

section

variable {s s' s₁ : Model} {a : ModelAction} {ret : Ret} {r : Except Stop Event} {t : ThreadId}

/-! ## One step -/

theorem Model.Yields.passesToken {α : Type} {x : α} {q : Except Stop α} (h : s₁.Yields x q s')
    (hactive : s₁.activeThread = s.activeThread) (hcount : s₁.threadCount = s.threadCount) :
    s.PassesToken s' := by
  cases h with
  | next hnext => exact .next hactive hcount hnext rfl
  | alone _ _ => exact .keeps hactive
  | stuck _ _ => exact .keeps hactive

theorem Model.LastYields.passesToken {q : Except Stop Bool} (h : s₁.LastYields q s')
    (hactive : s₁.activeThread = s.activeThread) (hcount : s₁.threadCount = s.threadCount) :
    s.PassesToken s' := by
  cases h with
  | next hnext => exact .next hactive hcount hnext rfl
  | last _ => exact .keeps hactive
  | stuck _ => exact .keeps hactive

theorem Calls.passesToken (h : Calls a ret s r s') : s.PassesToken s' := by
  cases h with
  | stays => exact .keeps rfl
  | yields h => exact h.passesToken rfl rfl

theorem Model.processCrash_token (s : Model) :
    s.processCrash.activeThread = s.activeThread ∧ s.processCrash.threadCount = s.threadCount :=
  ⟨(Model.Idle.processCrash s).activeThread, s.processCrash_threadCount⟩

theorem Model.Dies.token (h : s.Dies s') :
    s'.activeThread = s.activeThread ∧ s'.threadCount = s.threadCount := by
  rw [h.state]
  exact (s.crash s.processId).processCrash_token

theorem Model.Works.token (h : s.Works s') :
    s'.activeThread = s.activeThread ∧ s'.threadCount = s.threadCount := by
  rw [h.scheduler]
  exact ⟨rfl, rfl⟩

/-- The code before an `exit` keeps the token. -/
theorem ThreadExit.token (h : ThreadExit s s₁) :
    s₁.activeThread = s.activeThread ∧ s₁.threadCount = s.threadCount := by
  cases h with
  | quit _ => exact ⟨rfl, rfl⟩
  | late _ _ => exact s.processCrash_token
  | lateBack _ _ => exact (s.setContext s.threadId .user).processCrash_token
  | died hfirst hworks hdies =>
      rw [hdies.token.1, hdies.token.2, hworks.token.1, hworks.token.2]
      rcases hfirst with rfl | ⟨_, _, _, _, _, rfl⟩
      · exact ⟨rfl, rfl⟩
      · exact ⟨rfl, rfl⟩
  | shutdown _ hworks => exact hworks.token
  | shutdownDied ts _ hworks _ hdies =>
      exact ⟨hdies.token.1.trans hworks.token.1, hdies.token.2.trans hworks.token.2⟩

theorem Acts.activeThread_eq (h : Acts a s s₁) : s₁.activeThread = s.activeThread := h.threadId_eq

/-- A step passes the token once at most. -/
theorem ThreadCase.passesToken (h : ThreadCase s r s') : s.PassesToken s' := by
  cases h with
  | called _ _ _ h => exact h.passesToken
  | secondHalf _ _ _ h => exact h.passesToken
  | lockAgain _ _ h => exact h.passesToken
  | executed _ _ hacts => exact .keeps hacts.activeThread_eq
  | resumed _ _ hacts => exact .keeps hacts.activeThread_eq
  | blocked _ hwaits h =>
      cases hwaits with
      | stays _ _ => exact h.passesToken rfl rfl
      | gives _ => exact h.passesToken rfl rfl
  | finished _ _ h => exact h.passesToken rfl rfl
  | relocks => exact .keeps rfl
  | popped _ h => exact .keeps h.token.1
  | returned _ _ h => exact .keeps h.token.1
  | noAction _ h => exact .keeps h.token.1
  | userDone _ h => exact h.passesToken rfl rfl
  | exited hexit hnext => exact .next (x := Model.gone _) hexit.token.1 hexit.token.2 hnext rfl
  | exitStuck hexit _ => exact .keeps hexit.token.1

/-- While `t` is running the token only comes nearer to it. -/
theorem ThreadCase.advances (h : ThreadCase s r s') (hlt : s.activeThread < s.threadCount)
    (ht : t < s'.threadCount) (hready : (s'.threads t).state = .running) (hother : s.activeThread ≠ t) :
    Advances t s.activeThread s'.activeThread := by
  cases h.passesToken with
  | keeps h => exact .inl h
  | @next x u hactive hcount hnext hpass =>
      right
      subst hpass
      have hlt' : x.activeThread < x.threadCount := by
        rw [hactive, hcount]
        exact hlt
      have hmem : t ∈ x.otherThreads := (x.mem_otherThreads t hlt').mpr ⟨ht, hactive ▸ hother.symm⟩
      rw [← hactive]
      exact before_of_find? hlt' hmem (decide_eq_true hready) hnext

/-! ## A run -/

variable {cfg : Config} {n cxlMapping : Nat} {memory : Nat → Nat} {mutexType : MutexId → MutexType}
  {tr : List (Model × Label)} {pre mid post : List (Model × Label × Model)}

/-- In a part of a run in which `t` is running and does not have the token, no thread that has passed the
token on gets it back, and fewer threads have it than there are in the end. -/
theorem token_goes_round (hcfg : cfg.memPoison = false)
    (hrun : IsRun cfg n cxlMapping memory mutexType tr s') (heq : stepsOf tr s' = pre ++ (mid ++ post))
    (hready : ∀ x ∈ mid, t < x.1.threadCount ∧ (x.1.threads t).state = .running)
    (hother : ∀ x ∈ mid, x.2.1.tid ≠ t) (ht : t < s'.threadCount) :
    (turns (mid.map fun x => x.2.1.tid)).Nodup ∧
      (turns (mid.map fun x => x.2.1.tid)).length < s'.threadCount := by
  obtain ⟨hall, _⟩ := hrun.threads hcfg (P := fun _ => True) trivial fun _ _ _ _ _ _ _ _ => trivial
  have hsteps : ∀ x ∈ mid, x ∈ stepsOf tr s' := by
    intro x hx
    rw [heq]
    exact List.mem_append_right _ (List.mem_append_left _ hx)
  have hchain : (mid.map fun x => x.2.1.tid).IsChain (Advances t) := by
    rw [List.isChain_map]
    have hnext : mid.IsChain fun x y => y.1 = x.2.2 := by
      have hwhole := hrun.2.chain
      rw [heq] at hwhole
      exact hwhole.right_of_append.left_of_append
    refine hnext.imp_of_mem_imp ?_
    intro x y hx hy hxy
    obtain ⟨hunderway, _, hself, _, hcase⟩ := hall x (hsteps x hx)
    obtain ⟨_, _, hself', _, _⟩ := hall y (hsteps y hy)
    obtain ⟨hlt, hstate⟩ := hready y hy
    rw [hself', hself, hxy]
    rw [hxy] at hlt hstate
    have hne := hother x hx
    rw [hself] at hne
    exact hcase.advances hunderway.peopled.active hlt hstate hne
  refine ⟨turns_nodup hchain, turns_length_lt hchain ht ?_⟩
  intro u hu
  obtain ⟨x, hx, rfl⟩ := List.mem_map.mp hu
  refine ⟨?_, hother x hx⟩
  obtain ⟨hunderway, _, hself, _, _⟩ := hall x (hsteps x hx)
  have hlater : Goes (MemStep cfg) (fun _ => True) x.1 s' :=
    (((hrun.goes hcfg).1 x (hsteps x hx)).2.mono fun _ _ => trivial).trans (hrun.goes_after hcfg (hsteps x hx))
  rw [hself]
  exact Nat.lt_of_lt_of_le hunderway.peopled.active (Goes.threadCount_le hcfg hlater)

end

/-- `token_goes_round` where thread 2 waits for the token and threads 0 and 1 yield. -/
theorem token_goes_round_three : ∃ tr s,
    IsRun .asBuilt 3 4096 (fun _ => 0) (fun _ => .default) tr s ∧ s.threadId = 2 ∧
    turns ((stepsOf tr s).map fun x => x.2.1.tid) = [0, 1] ∧
    (turns ((stepsOf tr s).map fun x => x.2.1.tid)).length < s.threadCount := by
  obtain ⟨tr, s, hrun, hcheck⟩ := exists_run_of_replay .asBuilt
    (Model.init 3 4096 (fun _ => 0) (fun _ => .default))
    [({ call := .noBacktrackBegin }, []), ({ call := .schedYield }, []), ({ call := .schedYield }, [])]
    (fun tr s =>
      decide (s.threadId = 2 ∧ turns ((stepsOf tr s).map fun x => x.2.1.tid) = [0, 1] ∧ 2 < s.threadCount) &&
      (stepsOf tr s).all fun x =>
        decide ((2 < x.1.threadCount ∧ (x.1.threads 2).state = .running) ∧ x.2.1.tid ≠ 2))
    (by decide +kernel)
  simp only [Bool.and_eq_true, decide_eq_true_eq, List.all_eq_true] at hcheck
  obtain ⟨⟨hself, hturns, hcount⟩, hwaits⟩ := hcheck
  have hrun' : IsRun .asBuilt 3 4096 (fun _ => 0) (fun _ => .default) tr s := ⟨by decide, hrun⟩
  have hall : stepsOf tr s = [] ++ (stepsOf tr s ++ []) := by rw [List.append_nil, List.nil_append]
  obtain ⟨_, hlength⟩ := token_goes_round rfl hrun' hall (fun x hx => (hwaits x hx).1)
    (fun x hx => (hwaits x hx).2) hcount
  exact ⟨tr, s, hrun', hself, hturns, hlength⟩

end Cxlmc
