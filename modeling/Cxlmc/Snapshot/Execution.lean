import Cxlmc.Snapshot.Asks

/-!
# The executions of a program

`Executes` is an execution as a path of steps in which the program says what comes next; its last step
does not return. The results of the decision tree are exactly the executions that are short enough
(`mem_execution_iff`). Without `MEM_POISON` the steps of an execution that enter the checker are a run
(`Executes.isRun`), so what holds of every run holds in every execution of a check.
-/

namespace Cxlmc

open Stateful

variable {cfg : Config} {prog : Program}

/-! ## Executions as paths -/

/-- The steps from `s`, the program having done `trace`, to `s'` and `trace'`. -/
inductive Follows (cfg : Config) (prog : Program) : List Label → Model → List Label → Model → Prop where
  | refl (trace : List Label) (s : Model) : Follows cfg prog trace s trace s
  | step {trace trace' : List Label} {s s₁ s' : Model} {e : Event}
      (h : (turn cfg (prog trace s)).Ends s (.ok e) s₁)
      (h' : Follows cfg prog (trace ++ [⟨s.threadId, e⟩]) s₁ trace' s') : Follows cfg prog trace s trace' s'

/-- From `s` and `trace` on, the program does what the report says. -/
def Executes (cfg : Config) (prog : Program) (trace : List Label) (s : Model) (r : Report) : Prop :=
  ∃ s₁, Follows cfg prog trace s r.trace s₁ ∧
    (turn cfg (prog r.trace s₁)).Ends s₁ (.error r.stop) r.state

namespace Follows

variable {trace trace' : List Label} {s s' : Model}

theorem length_le (h : Follows cfg prog trace s trace' s') : trace.length ≤ trace'.length := by
  induction h with
  | refl trace s => exact Nat.le_refl _
  | step _ _ ih =>
      rw [List.length_append, List.length_singleton] at ih
      omega

theorem processCount (h : Follows cfg prog trace s trace' s') : s'.processCount = s.processCount := by
  induction h with
  | refl trace s => rfl
  | step h _ ih => exact ih.trans ((turn_asks _).keeps h)

/-- The first `k` steps. -/
theorem prefix_steps (h : Follows cfg prog trace s trace' s') (k : Nat) (hk : trace.length + k ≤ trace'.length) :
    ∃ trace₁ s₁, Follows cfg prog trace s trace₁ s₁ ∧ trace₁.length = trace.length + k := by
  induction h generalizing k with
  | refl trace s => exact ⟨trace, s, .refl trace s, by omega⟩
  | @step trace _ s _ _ e hturn _ ih =>
      cases k with
      | zero => exact ⟨trace, s, .refl trace s, rfl⟩
      | succ k =>
          have hlen : (trace ++ [(⟨s.threadId, e⟩ : Label)]).length = trace.length + 1 := by simp
          obtain ⟨trace₁, s₁, hfollows, htrace⟩ := ih k (by omega)
          exact ⟨trace₁, s₁, .step hturn hfollows, by omega⟩

end Follows

/-- The first step of an execution, if it is not the last. -/
theorem executes_iff {trace : List Label} {s : Model} {r : Report} :
    Executes cfg prog trace s r ↔
      (r.trace = trace ∧ (turn cfg (prog trace s)).Ends s (.error r.stop) r.state) ∨
      ∃ e s₁, (turn cfg (prog trace s)).Ends s (.ok e) s₁ ∧
        Executes cfg prog (trace ++ [⟨s.threadId, e⟩]) s₁ r := by
  constructor
  · intro h
    obtain ⟨s₁, hfollows, hends⟩ := h
    cases hfollows with
    | refl => exact .inl ⟨rfl, hends⟩
    | step h h' => exact .inr ⟨_, _, h, s₁, h', hends⟩
  · intro h
    rcases h with ⟨rfl, hends⟩ | ⟨e, s₁, hturn, s₂, hfollows, hends⟩
    · exact ⟨s, .refl _ s, hends⟩
    · exact ⟨s₂, .step hturn hfollows, hends⟩

theorem Executes.length_le {trace : List Label} {s : Model} {r : Report}
    (h : Executes cfg prog trace s r) : trace.length ≤ r.trace.length := by
  obtain ⟨s₁, hfollows, _⟩ := h
  exact hfollows.length_le

theorem Executes.processCount {trace : List Label} {s : Model} {r : Report}
    (h : Executes cfg prog trace s r) : r.state.processCount = s.processCount := by
  obtain ⟨s₁, hfollows, hends⟩ := h
  exact ((turn_asks _).keeps hends).trans hfollows.processCount

/-! ## The decision tree of an execution -/

theorem execution_succ (steps : Nat) (trace : List Label) (s : Model) :
    execution cfg prog (steps + 1) trace s = (turn cfg (prog trace s) s).bind fun
      | (.ok e, s') => execution cfg prog steps (trace ++ [⟨s.threadId, e⟩]) s'
      | (.error e, s') => .done (some ⟨trace, e, s'⟩) := rfl

/-- The results of the tree are the executions that are short enough. -/
theorem mem_execution_iff {steps : Nat} {trace : List Label} {s : Model} {r : Report} :
    some r ∈ (execution cfg prog steps trace s).outcomes ↔
      Executes cfg prog trace s r ∧ r.trace.length < trace.length + steps := by
  induction steps generalizing trace s with
  | zero =>
      constructor
      · intro h
        cases h
      · intro h
        obtain ⟨h, hlt⟩ := h
        exact absurd hlt (Nat.not_lt.mpr h.length_le)
  | succ steps ih =>
      rw [execution_succ, Decision.mem_outcomes_bind, executes_iff]
      constructor
      · intro h
        obtain ⟨x, hx, hr⟩ := h
        match x, hx, hr with
        | (.ok e, s₁), hx, hr =>
            obtain ⟨hexec, hlt⟩ := ih.mp hr
            rw [List.length_append, List.length_singleton] at hlt
            exact ⟨.inr ⟨e, s₁, hx, hexec⟩, by omega⟩
        | (.error e, s₁), hx, hr =>
            obtain rfl := Option.some.inj hr
            exact ⟨.inl ⟨rfl, hx⟩, by simp⟩
      · intro h
        obtain ⟨h, hlt⟩ := h
        rcases h with ⟨htrace, hends⟩ | ⟨e, s₁, hturn, hexec⟩
        · exact ⟨_, hends, by rw [← htrace]; rfl⟩
        · refine ⟨_, hturn, ih.mpr ⟨hexec, ?_⟩⟩
          rw [List.length_append, List.length_singleton]
          omega

/-- The tree has no result where the execution takes `steps` steps. -/
theorem none_mem_execution_iff {steps : Nat} {trace : List Label} {s : Model} :
    none ∈ (execution cfg prog steps trace s).outcomes ↔
      ∃ trace' s', Follows cfg prog trace s trace' s' ∧ trace'.length = trace.length + steps := by
  induction steps generalizing trace s with
  | zero =>
      constructor
      · intro _
        exact ⟨trace, s, .refl trace s, rfl⟩
      · intro _
        rfl
  | succ steps ih =>
      rw [execution_succ, Decision.mem_outcomes_bind]
      constructor
      · intro h
        obtain ⟨x, hx, hnone⟩ := h
        match x, hx, hnone with
        | (.ok e, s₁), hx, hnone =>
            obtain ⟨trace', s', hfollows, hlen⟩ := ih.mp hnone
            rw [List.length_append, List.length_singleton] at hlen
            exact ⟨trace', s', .step hx hfollows, by omega⟩
        | (.error e, s₁), hx, hnone => cases hnone
      · intro h
        obtain ⟨trace', s', hfollows, hlen⟩ := h
        cases hfollows with
        | refl => omega
        | step hturn hrest =>
            refine ⟨_, hturn, ih.mpr ⟨trace', s', hrest, ?_⟩⟩
            rw [List.length_append, List.length_singleton]
            omega

/-- Every question of an execution has two answers. -/
theorem execution_asks (steps : Nat) (trace : List Label) (s : Model) :
    (execution cfg prog steps trace s).Asks (· = 2) fun _ => True := by
  induction steps generalizing trace s with
  | zero => trivial
  | succ steps ih =>
      apply (turn_asks (prog trace s) s).bind
      intro x _
      match x with
      | (.ok e, s₁) => exact ih _ _
      | (.error e, s₁) => trivial

theorem isFinite_execution (steps : Nat) (trace : List Label) (s : Model) :
    ChoiceProgram.IsFinite (execution cfg prog steps trace s).program :=
  (execution_asks steps trace s).isFinite fun n hn => by
    rw [hn]
    decide

/-! ## Executions as runs -/

/-- A step without poison is a step of the checker, or a direct access to other memory. -/
theorem turn_ends_ok (hcfg : cfg.memPoison = false) {i : Input} {s s' : Model} {e : Event}
    (h : (turn cfg i).Ends s (.ok e) s') :
    (step cfg i).Ends s (.ok e) s' ∨ (s' = s ∧ e = .noAction) := by
  have hpoison : ∀ s s', ¬ (step cfg i).Ends s (.error .poison) s' := by
    intro s s' hstep
    rcases (step_asks i).exit hstep with hinner | hcxl
    · simpa [hcfg] using hinner.poison rfl
    · cases hcxl
  rcases ends_onStop.mp h with ⟨hturn, _⟩ | ⟨s₁, hturn, hpure⟩
  · rcases ends_onStop.mp hturn with ⟨hstep, _⟩ | ⟨s₁, hstep, _⟩
    · exact .inl hstep
    · exact absurd hstep (hpoison s s₁)
  · rcases ends_onStop.mp hturn with ⟨hstep, _⟩ | ⟨s₂, hstep, _⟩
    · obtain ⟨he, rfl⟩ := ends_pure.mp hpure
      obtain rfl := step_notCxl hstep
      cases he
      exact .inr ⟨rfl, rfl⟩
    · exact absurd hstep (hpoison s s₂)

theorem turn_ends_error (hcfg : cfg.memPoison = false) {i : Input} {s s' : Model} {e : Stop}
    (h : (turn cfg i).Ends s (.error e) s') : (step cfg i).Ends s (.error e) s' := by
  rcases ends_onStop.mp h with ⟨hturn, _⟩ | ⟨s₁, hturn, hpure⟩
  · rcases ends_onStop.mp hturn with ⟨hstep, _⟩ | ⟨s₁, hstep, _⟩
    · exact hstep
    · rcases (step_asks i).exit hstep with hinner | hcxl
      · simpa [hcfg] using hinner.poison rfl
      · cases hcxl
  · cases (ends_pure.mp hpure).1

/-- The steps of an execution that enter the checker. -/
theorem Follows.run (hcfg : cfg.memPoison = false) {trace trace' : List Label} {s s' : Model}
    (h : Follows cfg prog trace s trace' s') :
    ∃ tr ls, Run cfg s tr s' ∧ trace' = trace ++ ls ∧ (tr.map Prod.snd).Sublist ls := by
  induction h with
  | refl trace s => exact ⟨[], [], .nil s, by simp, .slnil⟩
  | @step trace trace' s s₁ s' e h _ ih =>
      obtain ⟨tr, ls, hrun, htrace, hsub⟩ := ih
      have htrace' : trace' = trace ++ (⟨s.threadId, e⟩ :: ls) := by
        rw [htrace, List.append_assoc]
        rfl
      rcases turn_ends_ok hcfg h with hstep | ⟨rfl, _⟩
      · refine ⟨(s, ⟨s.threadId, e⟩) :: tr, _, .cons ⟨rfl, _, hstep⟩ hrun, htrace', ?_⟩
        exact hsub.cons_cons _
      · exact ⟨tr, _, hrun, htrace', hsub.cons _⟩

/-- An execution is a run of the checker, with a last step that does not return. -/
theorem Executes.isRun (hcfg : cfg.memPoison = false) {n cxlMapping : Nat} (hn : 1 ≤ n)
    {mutexType : MutexId → MutexType} {r : Report}
    (h : Executes cfg prog [] (Model.init n cxlMapping (fun _ => 0) mutexType) r) :
    ∃ tr s, IsRun cfg n cxlMapping (fun _ => 0) mutexType tr s ∧
      (tr.map Prod.snd).Sublist r.trace ∧
      (step cfg (prog r.trace s)).Ends s (.error r.stop) r.state := by
  obtain ⟨s, hfollows, hends⟩ := h
  obtain ⟨tr, ls, hrun, htrace, hsub⟩ := hfollows.run hcfg
  rw [List.nil_append] at htrace
  exact ⟨tr, s, ⟨hn, hrun⟩, htrace ▸ hsub, turn_ends_error hcfg hends⟩

/-! ## The next execution starts afresh -/

/-- The state from which every execution of a check starts, wherever the CXL memory is mapped. -/
def Model.Fresh (n : Nat) (mutexType : MutexId → MutexType) (s : Model) : Prop :=
  ∀ cxlMapping, s.spawn cxlMapping = Model.init n cxlMapping (fun _ => 0) mutexType

theorem Model.fresh_init (n cxlMapping : Nat) (memory : Nat → Nat) (mutexType : MutexId → MutexType) :
    (Model.init n cxlMapping memory mutexType).Fresh n mutexType :=
  fun _ => rfl

/-- Nothing of an execution is left but the number of processes. -/
theorem Model.fresh_reset (s : Model) (mutexType : MutexId → MutexType) :
    (s.resetExecutionData mutexType).resetScheduler.Fresh s.processCount mutexType :=
  fun _ => rfl

end Cxlmc
