import Cxlmc.Effect.Entries
import Cxlmc.System.Issued

/-!
# One step of the checker

`StepCase` says what a step can do, by the place at which the running thread is suspended, and
`ExitPath` what happens before an `exit`. `stepCase_of_sysStep` is the inversion lemma that every
property of runs is proved from.
-/

namespace Cxlmc

open Stateful

/-! ## What a step can do -/

namespace Model

/-- The running thread goes on at `c`. -/
structure MovesTo (s s' : Model) (c : Context) : Prop extends Suspends s s' c where
  token : s'.activeThread = s.activeThread

theorem MovesTo.setContext (s : Model) (c : Context) : s.MovesTo (s.setContext s.threadId c) c :=
  ⟨Suspends.of_setContext s c (t := s.activeThread) id, rfl⟩

theorem Idle.movesTo {s s₁ s' : Model} {c : Context} (h : s.Idle s₁) (h' : s₁.MovesTo s' c) :
    s.MovesTo s' c :=
  ⟨h.suspends h'.toSuspends, h'.token.trans h.activeThread⟩

/-- A thread that goes on where it is. -/
theorem Idle.stays_at {s s' : Model} {c : Context} (h : s.Idle s')
    (hlt : s.activeThread < s.threadCount) (hctx : s.contextOf s.threadId = c) : s.MovesTo s' c := by
  refine ⟨⟨h.control, ?_, fun t _ => h.context t⟩, h.activeThread⟩
  rcases h.context s.threadId with hc | ⟨hle, _⟩
  · exact hc.trans hctx
  · exact absurd hlt (Nat.not_lt_of_le hle)

/-- The state in which `execute` is called: an access has recorded the initial value of its word. -/
def prepared (s : Model) (a : ModelAction) : Model :=
  if (a.isRead || a.isWrite) = true ∧ s.objToWr a.word = [] then s.initialized a.word else s

/-- `finish_execution` has run: the threads of the process are gone. -/
structure Exits (s s' : Model) : Prop extends Control s s' where
  gone : s'.contextOf s.threadId = .exited
  own : ∀ t, t < s.threadCount → (s.threads t).processId = s.processId → s'.contextOf t = .exited
  others : ∀ t, s'.contextOf t = .exited ∨ s'.contextOf t = s.contextOf t ∨ s'.contextOf t = .user

end Model

/-- What `process_shutdown` does for the threads of the running process. -/
def Effect.ShutsDown (s : Model) (e : Effect) : Prop :=
  ∃ t, t < s.threadCount ∧ (s.threads t).processId = s.processId ∧ e.Drains t

/-- The code before an `exit`. -/
inductive ExitPath (cfg : Config) (s : Model) : Model → Prop where
  | quiet {s₁ : Model}
      (hctx : s.contextOf s.threadId = .user ∨ ∃ mem v ret, s.contextOf s.threadId = .popping mem 0 v ret)
      (h : s.MovesTo s₁ .user) : ExitPath cfg s s₁
  | insertCrash {s₁ s₂ : Model} (hctx : s.contextOf s.threadId = .user) (h : s.Idle s₁)
      (hcrash : SelfCrash cfg s₁ s₂) : ExitPath cfg s s₂
  | execute {a : ModelAction} {ret : Ret} {s₁ s₂ s₃ : Model}
      (hctx : s.contextOf s.threadId = .ready a ret) (hfence : a.isFence = true)
      (hpush : s₁ = s.prepared a ∨
        a.isBuffered = true ∧ s₁ = (s.prepared a).pushed s.threadId a.copy)
      (h : Goes (MemStep cfg) (Effect.Drains s.threadId) s₁ s₂) (hcrash : SelfCrash cfg s₂ s₃) :
      ExitPath cfg s s₃
  | pop {mem : ThreadId} {n v : Nat} {ret : Ret} {s₁ : Model}
      (hctx : s.contextOf s.threadId = .popping mem (n + 1) v ret)
      (h : (popFromStoreBuffer mem).Ends (s.setContext s.threadId (.popping mem n v ret))
        (.error .exit) s₁) : ExitPath cfg s s₁
  | shutdown {s₁ s₂ : Model} (hctx : s.contextOf s.threadId = .shutdown)
      (h : Goes (MemStep cfg) (Effect.ShutsDown s) s s₁) (hend : s₁.Idle s₂ ∨ SelfCrash cfg s₁ s₂) :
      ExitPath cfg s s₂

/-- What the running thread can do in one step. -/
inductive StepCase (cfg : Config) (s : Model) : Event → Model → Prop where
  | called {a : ModelAction} {ret : Ret} {s' : Model} (hctx : s.contextOf s.threadId = .user)
      (hissued : Issued s.threadId a ret) (hlive : s.isCrashed s.processId = false)
      (hfirst : a.isSecondPartOfRmw = false) (h : s.Suspends s' (.ready a ret)) :
      StepCase cfg s (.called a) s'
  | secondHalf {mem : ThreadId} {v : Nat} {r : Rmw} {a : ModelAction} {ret : Ret} {s' : Model}
      (hctx : s.contextOf s.threadId = .popping mem 0 v (.rmw r))
      (ha : r.secondHalf s.threadId (toUint r.size v) = (a, ret))
      (hissued : Issued s.threadId a ret) (hlive : s.isCrashed s.processId = false)
      (h : s.MovesTo s' (.ready a ret)) : StepCase cfg s (.called a) s'
  | lockAgain {mem : ThreadId} {v : Nat} {m : MutexId} {a : ModelAction} {ret : Ret} {s' : Model}
      (hctx : s.contextOf s.threadId = .popping mem 0 v (.lock m))
      (hissued : Issued s.threadId a ret) (hlive : s.isCrashed s.processId = false)
      (hfirst : a.isSecondPartOfRmw = false) (h : s.Suspends s' (.ready a ret)) :
      StepCase cfg s (.called a) s'
  | executed {a : ModelAction} {ret : Ret} {v n : Nat} {rf : Slots} {t : ThreadId} {s₁ s' : Model}
      (hctx : s.contextOf s.threadId = .ready a ret)
      (h : Executed cfg (s.stamp a) (s.prepared a) v rf s₁)
      (h' : s₁.MovesTo s' (.popping t n v ret)) : StepCase cfg s (.executed (s.stamp a) v rf) s'
  | resumed {a : ModelAction} {ret : Ret} {v n : Nat} {t : ThreadId} {s' : Model}
      (hctx : s.contextOf s.threadId = .waiting a ret) (h : s.MovesTo s' (.popping t n v ret)) :
      StepCase cfg s (.executed a v []) s'
  | blocked {a : ModelAction} {ret : Ret} {s' : Model}
      (hctx : s.contextOf s.threadId = .ready a ret ∨ s.contextOf s.threadId = .waiting a ret)
      (htype : a.isSync = true) (h : s.Suspends s' (.waiting a ret)) : StepCase cfg s (.blocked a) s'
  | finished {a : ModelAction} {ret : Ret} {s' : Model}
      (hctx : s.contextOf s.threadId = .ready a ret) (h : s.Suspends s' .exited) :
      StepCase cfg s (.finished a) s'
  | popped {mem : ThreadId} {n v : Nat} {ret : Ret} {s' : Model}
      (hctx : s.contextOf s.threadId = .popping mem (n + 1) v ret)
      (h : (popFromStoreBuffer mem).Ends (s.setContext s.threadId (.popping mem n v ret))
        (.ok ()) s') : StepCase cfg s (.popped mem) s'
  | returned {mem : ThreadId} {v : Nat} {s' : Model}
      (hctx : s.contextOf s.threadId = .popping mem 0 v .toUser) (h : s.MovesTo s' .user) :
      StepCase cfg s (.returned v) s'
  | wrote {mem : ThreadId} {v loc size val : Nat}
      (hctx : s.contextOf s.threadId = .popping mem 0 v (.rawStore loc size val)) :
      StepCase cfg s (.returned v)
        { s.setContext s.threadId .user with memory := Model.writeRaw s.memory loc size val }
  | noAction {c : Context} {s' : Model} (hctx : s.contextOf s.threadId = .user)
      (hc : c = .user ∨ c = .shutdown) (h : s.Suspends s' c) : StepCase cfg s .noAction s'
  | exited {s₁ s' : Model} (hpath : ExitPath cfg s s₁) (h : s₁.Exits s') :
      StepCase cfg s .exited s'

/-! ## The code does these steps -/

section

variable {cfg : Config} {s s' s₁ : Model} {a : ModelAction} {ret : Ret} {i : Input}

theorem ends_actionHead {yields : Bool} {r : Except Stop Unit}
    (h : (actionHead a yields ret).Ends s r s') :
    r = .error .exit ∧ s.Idle s' ∨ r = .error .deadlock ∨
      r = .ok () ∧ s.isCrashed s.processId = false ∧ s.Suspends s' (.ready a ret) ∧
        (a.isSecondPartOfRmw = true → s'.activeThread = s.activeThread) := by
  rw [actionHead, ends_state_bind] at h
  split at h
  · rw [ends_update_bind] at h
    obtain ⟨rfl, rfl⟩ := ends_stop.mp h
    exact .inl ⟨rfl, .processCrash s⟩
  · next hlive =>
      have hlive : s.isCrashed s.processId = false := by simpa using hlive
      have hidle : s.Idle (s.setPending s.threadId (some a)) := .setThread s _ rfl rfl
      rw [ends_update_bind] at h
      split at h
      · next hyields =>
          have hnot : ¬ a.isSecondPartOfRmw = true := by
            intro hsecond
            simp [hsecond] at hyields
          obtain rfl | ⟨rfl, t, ht, rfl⟩ := ends_schedulerYield h
          · exact .inr (.inl rfl)
          · exact .inr (.inr ⟨rfl, hlive, hidle.suspends (.of_setContext _ _ ht),
              fun hsecond => absurd hsecond hnot⟩)
      · obtain ⟨rfl, rfl⟩ := ends_pure.mp h
        have hmoves := hidle.movesTo (.setContext (s.setPending s.threadId (some a)) (.ready a ret))
        exact .inr (.inr ⟨rfl, hlive, hmoves.toSuspends, fun _ => hmoves.token⟩)

theorem ends_finishExecution {e : Event} (hlt : s.activeThread < s.threadCount)
    (h : finishExecution.Ends s (.ok e) s') : e = .exited ∧ s.Exits s' := by
  rw [finishExecution, ends_update_bind] at h
  generalize hs₀ : ({ s with
      threads := fun t =>
        if (s.threads t).processId = s.processId then { s.threads t with context := .exited }
        else s.threads t } : Model) = s₀ at h
  have hthread : ∀ t, (s₀.threads t).processId = (s.threads t).processId ∧
      (s₀.contextOf t = .exited ∨ s₀.contextOf t = s.contextOf t) := by
    intro t
    rw [← hs₀, Model.contextOf]
    dsimp only
    split
    · exact ⟨rfl, .inl rfl⟩
    · exact ⟨rfl, .inr rfl⟩
  have hgone : ∀ t, (s.threads t).processId = s.processId → s₀.contextOf t = .exited := by
    intro t ht
    rw [← hs₀, Model.contextOf]
    exact congrArg Thread.context (if_pos ht)
  have hctrl : s.Control s₀ := by
    refine ⟨?_, ?_, ?_, ?_, fun t _ => (hthread t).1, ?_⟩ <;> rw [← hs₀]
    exact id
  obtain ⟨b, s₁, h₁, h₂⟩ := ends_bind_ok.mp h
  split at h₂
  swap
  · cases (ends_stop.mp h₂).1
  obtain ⟨he, rfl⟩ := ends_pure.mp h₂
  cases he
  obtain hr | ⟨_, s₂, t, hidle, ht, rfl⟩ := ends_finalize h₁
  · cases hr
  have hctrl₂ := hctrl.trans hidle.control
  have hstay : ∀ {t}, t < s.threadCount → (s.threads t).processId = s.processId →
      s₂.contextOf t = .exited := by
    intro t ht hpid
    rcases hidle.context t with hc | ⟨hle, _⟩
    · exact hc.trans (hgone t hpid)
    · exact absurd ht (Nat.not_lt_of_le (Nat.le_trans hctrl.threadCount hle))
  refine ⟨rfl, ⟨hctrl₂.memory, hctrl₂.processCount, hctrl₂.cxlMapping, hctrl₂.threadCount,
    hctrl₂.processId, fun hlt => ht (hctrl₂.activeThread hlt)⟩, ?_, ?_, ?_⟩
  · show s₂.contextOf s.threadId = .exited
    exact hstay hlt rfl
  · intro t ht hpid
    exact hstay ht hpid
  · intro u
    show s₂.contextOf u = _ ∨ s₂.contextOf u = _ ∨ s₂.contextOf u = _
    rcases hidle.context u with hc | ⟨_, hc⟩
    · rw [hc]
      rcases (hthread u).2 with hu | hu
      · exact .inl hu
      · exact .inr (.inl hu)
    · exact .inr (.inr hc)

theorem ends_ensureInitialValue {u : Unit} (h : (ensureInitialValue a).Ends s (.ok u) s') :
    s' = if s.objToWr a.word = [] then s.initialized a.word else s :=
  (ends_update.mp h).2

theorem ends_prepare {u : Unit}
    (h : (if a.isRead || a.isWrite then ensureInitialValue a else (pure () : M Unit)).Ends s
      (.ok u) s') : s' = s.prepared a := by
  unfold Model.prepared
  split at h
  · next hacc =>
      rw [ends_ensureInitialValue h]
      simp only [hacc, true_and]
  · next hacc =>
      rw [if_neg fun h => hacc h.1]
      exact (ends_pure.mp h).2

theorem ends_finishAction {value : Nat} {rf : Slots} {e : Event}
    (h : (finishAction a ret i (.done value rf)).Ends s (.ok e) s') :
    e = .executed a value rf ∧ ∃ t n, s.MovesTo s' (.popping t n value ret) := by
  rw [finishAction, ends_update_bind] at h
  obtain ⟨_, s₁, h₁, h₂⟩ := ends_bind_ok.mp h
  obtain ⟨he, rfl⟩ := ends_pure.mp h₂
  cases he
  rw [processStoreBuffer, ends_state_bind] at h₁
  obtain ⟨_, rfl⟩ := ends_update.mp h₁
  have hidle : s.Idle (s.setPending s.threadId none) := .setThread s _ rfl rfl
  exact ⟨rfl, _, _, hidle.movesTo (.setContext _ _)⟩

theorem finishAction_exit {f : Flow} : ¬ (finishAction a ret i f).Ends s (.error .exit) s' := by
  intro h
  cases f with
  | suspended => cases (ends_pure.mp h).1
  | finished => cases (ends_pure.mp h).1
  | done value rf =>
      rw [finishAction, ends_update_bind] at h
      rcases ends_bind.mp h with ⟨_, s₁, _, h₂⟩ | ⟨e, h₁, _⟩
      · cases (ends_pure.mp h₂).1
      · rw [processStoreBuffer, ends_state_bind] at h₁
        cases (ends_update.mp h₁).1

/-! ### The place in `Model::action` -/

namespace Model

@[simp] theorem prepared_toScheduler (s : Model) (a : ModelAction) :
    (s.prepared a).toScheduler = s.toScheduler := by
  unfold prepared
  split <;> rfl

theorem prepared_threadId (s : Model) (a : ModelAction) : (s.prepared a).threadId = s.threadId := by
  rw [threadId, s.prepared_toScheduler]
  rfl

theorem prepared_memory (s : Model) (a : ModelAction) :
    (s.prepared a).crashes = s.crashes ∧ (s.prepared a).threadMemory = s.threadMemory := by
  unfold prepared
  split <;> exact ⟨rfl, rfl⟩

theorem prepared_stays (s : Model) (a : ModelAction) : s.Stays (s.prepared a) := by
  apply Stays.of_eq (s.prepared_toScheduler a)
  unfold prepared
  split <;> rfl

theorem prepared_stamp (s : Model) (a : ModelAction) : (s.prepared a).stamp a = s.stamp a := by
  unfold prepared
  split <;> rfl

theorem prepared_of_not_access (s : Model) (ha : (a.isRead || a.isWrite) = false) :
    s.prepared a = s := by
  rw [prepared, if_neg]
  rw [ha]
  exact fun h => Bool.noConfusion h.1

theorem stamp_type (s : Model) (a : ModelAction) : (s.stamp a).type = a.type := by
  unfold stamp
  split <;> rfl

theorem stamp_tid (s : Model) (a : ModelAction) : (s.stamp a).tid = a.tid := by
  unfold stamp
  split <;> rfl

theorem stamp_order (s : Model) (a : ModelAction) : (s.stamp a).order = a.order := by
  unfold stamp
  split <;> rfl

theorem stamp_size (s : Model) (a : ModelAction) : (s.stamp a).size = a.size := by
  unfold stamp
  split <;> rfl

/-- The store buffer never sees the stamp. -/
theorem stamp_copy (s : Model) (a : ModelAction) : (s.stamp a).copy = a.copy := by
  unfold stamp
  split <;> rfl

theorem stamp_of_isControl (s : Model) (ha : a.isControl = true) : s.stamp a = a := by
  rw [stamp, if_neg]
  intro htype
  simp [ModelAction.isControl, ModelAction.isBuffered, htype] at ha

end Model

theorem not_access_of_isControl (ha : a.isControl = true) : (a.isRead || a.isWrite) = false := by
  rw [Bool.eq_false_iff]
  intro hacc
  simp only [ModelAction.isRead, ModelAction.isWrite, Bool.or_eq_true, decide_eq_true_eq] at hacc
  rcases hacc with (((h | h) | h) | h) | ((h | h) | h) | h <;>
    simp [ModelAction.isControl, ModelAction.isLoad, ModelAction.isBuffered, h] at ha

theorem size_pos_of_isLoad (hissued : Issued s.threadId a ret) (hload : (s.stamp a).isLoad = true) :
    0 < (s.stamp a).size := by
  rw [s.stamp_size]
  apply hissued.size_pos
  left
  simp only [ModelAction.isLoad, s.stamp_type, Bool.or_eq_true, decide_eq_true_eq] at hload
  rcases hload with (h | h) | h <;> simp [ModelAction.isRead, h]

/-- `execute` in the place where `Model::action` calls it. -/
theorem ends_prepared (hlt : s.activeThread < s.threadCount) (hissued : Issued s.threadId a ret)
    {r : Except Stop Event} (h : (actionBody cfg a ret i).Ends s r s') :
    (s.stamp a).tid = (s.prepared a).threadId ∧
      (s.prepared a).activeThread < (s.prepared a).threadCount ∧
      (execute cfg (s.stamp a) ret >>= finishAction (s.stamp a) ret i).Ends (s.prepared a) r s' := by
  rw [actionBody] at h
  have hrest : (do
      let s ← state
      let flow ← execute cfg (s.stamp a) ret
      finishAction (s.stamp a) ret i flow : M Event).Ends (s.prepared a) r s' := by
    split at h
    · next hacc =>
        rcases ends_bind.mp h with ⟨_, s₁, h₁, h₂⟩ | ⟨e, h₁, _⟩
        · have hs₁ : s₁ = s.prepared a := by
            apply ends_prepare
            rw [if_pos hacc]
            exact h₁
          rw [← hs₁]
          exact h₂
        · cases (ends_update.mp h₁).1
    · next hacc =>
        rw [s.prepared_of_not_access (Bool.eq_false_iff.mpr hacc)]
        exact h
  rw [ends_state_bind, s.prepared_stamp] at hrest
  refine ⟨?_, ?_, hrest⟩
  · rw [s.prepared_threadId, s.stamp_tid]
    exact hissued.tid_eq.1
  · rw [s.prepared_toScheduler]
    exact hlt

theorem ends_actionBody (hcfg : cfg.memPoison = false) (hplaced : s.Placed)
    (hissued : Issued s.threadId a ret) {r : Except Stop Event}
    (h : (actionBody cfg a ret i).Ends s r s') :
    (∃ e, r = .error e ∧ e ≠ .exit) ∨
      ∃ r₁ s₁, ExecuteEnds cfg (s.stamp a) ret (s.prepared a) r₁ s₁ ∧
        (r₁ = .error .exit ∧ r = .error .exit ∧ s' = s₁ ∨
          ∃ flow, r₁ = .ok flow ∧ (finishAction (s.stamp a) ret i flow).Ends s₁ r s') := by
  obtain ⟨htid, hlt', hrest⟩ := ends_prepared hplaced.active hissued h
  have hfresh : (s.stamp a).tick = 0 := by
    unfold Model.stamp
    split <;> exact hissued.tid_eq.2.1
  have hseq : (s.prepared a).Unclocked (s.prepared a).threadId := by
    intro b hb
    rw [(s.prepared_memory a).2] at hb
    exact hplaced.unclocked _ b hb
  rcases ends_bind.mp hrest with ⟨flow, s₁, h₁, h₂⟩ | ⟨e, h₁, rfl⟩
  · exact .inr ⟨_, s₁, execute_ends hcfg htid hfresh hseq hlt' (size_pos_of_isLoad hissued) h₁,
      .inr ⟨flow, rfl, h₂⟩⟩
  · by_cases he : e = .exit
    · subst he
      exact .inr ⟨_, s', execute_ends hcfg htid hfresh hseq hlt' (size_pos_of_isLoad hissued) h₁,
        .inl ⟨rfl, rfl, rfl⟩⟩
    · exact .inl ⟨e, rfl, he⟩

theorem stepCase_ready (hcfg : cfg.memPoison = false) (hplaced : s.Placed)
    (hissued : Issued s.threadId a ret) (hctx : s.contextOf s.threadId = .ready a ret) {e : Event}
    (h : (actionBody cfg a ret i).Ends s (.ok e) s') : StepCase cfg s e s' := by
  obtain ⟨e', he, _⟩ | ⟨r₁, s₁, hends, ⟨_, hr, _⟩ | ⟨flow, rfl, hfin⟩⟩ :=
    ends_actionBody hcfg hplaced hissued h
  · cases he
  · cases hr
  cases hends with
  | done hexec =>
      obtain ⟨rfl, t, n, hmoves⟩ := ends_finishAction hfin
      exact .executed hctx hexec hmoves
  | suspended htype hsus =>
      obtain ⟨he, rfl⟩ := ends_pure.mp hfin
      cases he
      have hsync : a.isSync = true := by
        simp only [ModelAction.isSync, s.stamp_type] at htype
        exact htype
      have hcontrol := ModelAction.isControl_of_isSync hsync
      rw [s.stamp_of_isControl hcontrol] at hsus ⊢
      rw [s.prepared_of_not_access (not_access_of_isControl hcontrol)] at hsus
      exact .blocked (.inl hctx) hsync hsus
  | finished htype hsus =>
      obtain ⟨he, rfl⟩ := ends_pure.mp hfin
      cases he
      have hcontrol : a.isControl = true := by
        simp only [ModelAction.isControl, ModelAction.isLoad, ModelAction.isBuffered,
          s.stamp_type] at htype
        exact htype
      rw [s.stamp_of_isControl hcontrol]
      rw [s.prepared_of_not_access (not_access_of_isControl hcontrol)] at hsus
      exact .finished hctx hsus

theorem exitPath_ready (hcfg : cfg.memPoison = false) (hplaced : s.Placed)
    (hissued : Issued s.threadId a ret) (hctx : s.contextOf s.threadId = .ready a ret)
    (h : (actionBody cfg a ret i).Ends s (.error .exit) s') : ExitPath cfg s s' := by
  obtain ⟨e', he, hne⟩ | ⟨r₁, s₁, hends, ⟨rfl, _, rfl⟩ | ⟨flow, rfl, hfin⟩⟩ :=
    ends_actionBody hcfg hplaced hissued h
  · cases he
    exact absurd rfl hne
  · have hself := s.prepared_threadId a
    cases hends with
    | crashed hfence hpush hgoes hcrash =>
        have hfence : a.isFence = true := by
          simp only [ModelAction.isFence, ModelAction.isWrite, ModelAction.isSeqCst, s.stamp_type,
            s.stamp_order] at hfence
          exact hfence
        rw [hself, s.stamp_copy, ModelAction.isBuffered, s.stamp_type] at hpush
        rw [hself] at hgoes
        exact .execute hctx hfence hpush hgoes hcrash
    | stopped he => exact absurd rfl he
  · exact absurd hfin finishAction_exit

theorem stepCase_waiting (hsync : a.isSync = true)
    (hctx : s.contextOf s.threadId = .waiting a ret) {e : Event}
    (h : (resumeExecute a ret >>= finishAction a ret i).Ends s (.ok e) s') : StepCase cfg s e s' := by
  obtain ⟨flow, s₁, h₁, h₂⟩ := ends_bind_ok.mp h
  have hends := resumeExecute_ends cfg hsync h₁
  have hcontrol := ModelAction.isControl_of_isSync hsync
  cases hends with
  | done hexec =>
      obtain ⟨rfl, hidle⟩ := hexec.idle hcontrol
      obtain ⟨rfl, t, n, hmoves⟩ := ends_finishAction h₂
      exact .resumed hctx (hidle.movesTo hmoves)
  | suspended _ hsus =>
      obtain ⟨he, rfl⟩ := ends_pure.mp h₂
      cases he
      exact .blocked (.inr hctx) hsync hsus
  | finished _ _ =>
      -- no waiting action ends its thread
      unfold resumeExecute at h₁
      split at h₁
      · cases lockLoop_blocks h₁
      · cases (ends_pure.mp h₁).1

theorem not_exit_waiting :
    ¬ (resumeExecute a ret >>= finishAction a ret i).Ends s (.error .exit) s' := by
  intro h
  rcases ends_bind.mp h with ⟨flow, s₁, _, h₂⟩ | ⟨e, h₁, he⟩
  · exact finishAction_exit h₂
  · cases he
    unfold resumeExecute at h₁
    split at h₁
    · cases lockLoop_blocks h₁ with
      | stopped hne => exact hne rfl
    · cases (ends_pure.mp h₁).1

/-! ### The place in the program -/

variable (cfg) in
/-- `insert_crash` of the running process goes on or exits. -/
theorem ends_insertCrash {r : Except Stop Unit} (hlt : s.activeThread < s.threadCount)
    (h : (insertCrash s.processId).Ends s r s') :
    r = .ok () ∧ s.Idle s' ∨ r = .error .exit ∧ ∃ s₁, s.Idle s₁ ∧ SelfCrash cfg s₁ s' := by
  rw [insertCrash] at h
  rcases ends_bind.mp h with ⟨b, s₁, h₁, h₂⟩ | ⟨e, h₁, _⟩
  swap
  · exact absurd h₁ shouldCrash_error
  obtain ⟨hidle, hcond⟩ := ends_shouldCrash h₁
  cases b with
  | false =>
      obtain ⟨rfl, rfl⟩ := ends_pure.mp h₂
      exact .inl ⟨rfl, hidle⟩
  | true =>
      obtain ⟨hfirst, hmany⟩ := hcond rfl
      rw [if_pos rfl, ends_state_bind, if_pos (hidle.ownProcess hlt).symm, ends_update_bind,
        ends_update_bind, Model.crash_eq_insert hfirst, ← hidle.ownProcess hlt] at h₂
      obtain ⟨rfl, rfl⟩ := ends_stop.mp h₂
      exact .inr ⟨rfl, s₁, hidle, _, .crashSelf hfirst hmany, .processCrash _⟩

/-- No call asks for the second half of a read-modify-write. -/
theorem request_isFirstPart {tid : ThreadId} {c : Call} {req : Request}
    (h : c.request tid = some req) : req.action.isSecondPartOfRmw = false := by
  cases c <;> simp only [Call.request, Option.some.injEq, reduceCtorEq] at h <;> subst h <;> rfl

/-- A call up to the point where the thread is suspended. -/
theorem stepCase_user {c : Call} (hlt : s.activeThread < s.threadCount)
    (hctx : s.contextOf s.threadId = .user) {e : Event}
    (h : (callApi c).Ends s (.ok e) s') : StepCase cfg s e s' := by
  have hstay : s.Idle s' → StepCase cfg s .noAction s' := fun hidle =>
    .noAction hctx (.inl rfl) (hidle.stays_at hlt hctx).toSuspends
  rw [callApi, ends_state_bind] at h
  split at h
  · next req hreq =>
      obtain ⟨_, s₁, h₁, h₂⟩ := ends_bind_ok.mp h
      obtain ⟨rfl, _⟩ := ends_require.mp h₁
      obtain ⟨_, s₂, h₃, h₄⟩ := ends_bind_ok.mp h₂
      obtain ⟨he, rfl⟩ := ends_pure.mp h₄
      cases he
      obtain ⟨hr, _⟩ | hr | ⟨_, hlive, hsus, _⟩ := ends_actionHead h₃
      · cases hr
      · cases hr
      · exact .called hctx (.call hreq) hlive (request_isFirstPart hreq) hsus
  · split at h
    · obtain ⟨_, s₁, h₁, h₂⟩ := ends_bind_ok.mp h
      obtain ⟨he, rfl⟩ := ends_pure.mp h₂
      cases he
      obtain ⟨_, hidle⟩ | ⟨hr, _⟩ := ends_insertCrash cfg hlt h₁
      · exact hstay hidle
      · cases hr
    · rw [ends_update_bind] at h
      obtain ⟨he, rfl⟩ := ends_pure.mp h
      cases he
      exact hstay (.of_eq rfl rfl rfl)
    · rw [ends_update_bind] at h
      obtain ⟨he, rfl⟩ := ends_pure.mp h
      cases he
      exact hstay (.of_eq rfl rfl rfl)
    · rw [ends_update_bind] at h
      obtain ⟨_, s₁, h₁, h₂⟩ := ends_bind_ok.mp h
      obtain ⟨he, rfl⟩ := ends_pure.mp h₂
      cases he
      obtain hr | ⟨_, t, ht, rfl⟩ := ends_schedulerYield h₁
      · cases hr
      · exact .noAction hctx (.inr rfl) (.of_setContext s .shutdown ht)
    · cases (ends_stop.mp h).1

theorem exitPath_user {c : Call} (hlt : s.activeThread < s.threadCount)
    (hctx : s.contextOf s.threadId = .user)
    (h : (callApi c).Ends s (.error .exit) s') : ExitPath cfg s s' := by
  have hquiet : s.Idle s' → ExitPath cfg s s' := fun hidle =>
    .quiet (.inl hctx) (hidle.stays_at hlt hctx)
  rw [callApi, ends_state_bind] at h
  split at h
  · next req hreq =>
      rcases ends_bind.mp h with ⟨_, s₁, h₁, h₂⟩ | ⟨e, h₁, he⟩
      · obtain ⟨rfl, _⟩ := ends_require.mp h₁
        rcases ends_bind.mp h₂ with ⟨_, s₂, _, h₄⟩ | ⟨e, h₃, he⟩
        · cases (ends_pure.mp h₄).1
        · cases he
          obtain ⟨_, hidle⟩ | hr | ⟨hr, _⟩ := ends_actionHead h₃
          · exact hquiet hidle
          · cases hr
          · cases hr
      · cases he
        obtain ⟨_, ⟨_, hr⟩ | ⟨_, hr⟩⟩ := ends_require.mp h₁ <;> cases hr
  · split at h
    · rcases ends_bind.mp h with ⟨_, s₁, _, h₂⟩ | ⟨e, h₁, he⟩
      · cases (ends_pure.mp h₂).1
      · cases he
        obtain ⟨hr, _⟩ | ⟨_, s₁, hidle, hcrash⟩ := ends_insertCrash cfg hlt h₁
        · cases hr
        · exact .insertCrash hctx hidle hcrash
    · rw [ends_update_bind] at h
      cases (ends_pure.mp h).1
    · rw [ends_update_bind] at h
      cases (ends_pure.mp h).1
    · rw [ends_update_bind] at h
      rcases ends_bind.mp h with ⟨_, s₁, _, h₂⟩ | ⟨e, h₁, he⟩
      · cases (ends_pure.mp h₂).1
      · cases he
        obtain hr | ⟨hr, _⟩ := ends_schedulerYield h₁ <;> cases hr
    · obtain ⟨_, rfl⟩ := ends_stop.mp h
      exact hquiet (.refl _)

/-! ### The return to the program -/

theorem ends_returnFrom {v : Nat} {r : Except Stop Event}
    (h : (returnFrom v ret).Ends s r s') :
    (ret = .toUser ∧ r = .ok (.returned v) ∧ s' = s.setContext s.threadId .user) ∨
    (∃ loc size val, ret = .rawStore loc size val ∧ r = .ok (.returned v) ∧
      s' = { s.setContext s.threadId .user with memory := Model.writeRaw s.memory loc size val }) ∨
    (∃ a ret', ((∃ rmw, ret = .rmw rmw ∧ rmw.secondHalf s.threadId (toUint rmw.size v) = (a, ret')) ∨
        ∃ m, ret = .lock m ∧ a = { tid := s.threadId, type := .atomicLock, location := m } ∧
          ret' = .toUser) ∧
      (actionHead a true ret' >>= fun _ => (return .called a : M Event)).Ends
        (s.setContext s.threadId .user) r s') := by
  cases ret with
  | toUser =>
      obtain ⟨rfl, rfl⟩ := ends_pure.mp h
      exact .inl ⟨rfl, rfl, rfl⟩
  | rawStore loc size val =>
      obtain ⟨rfl, rfl⟩ := ends_pure.mp h
      exact .inr (.inl ⟨_, _, _, rfl, rfl, rfl⟩)
  | rmw rmw => exact .inr (.inr ⟨_, _, .inl ⟨rmw, rfl, rfl⟩, h⟩)
  | lock m => exact .inr (.inr ⟨_, _, .inr ⟨m, rfl, rfl, rfl⟩, h⟩)

/-- Back in the program, the running thread may hand in the next action at once. -/
theorem Model.MovesTo.suspends {s s₁ s' : Model} {c c' : Context} (h : s.MovesTo s₁ c)
    (h' : s₁.Suspends s' c') : s.Suspends s' c' := by
  have hself : s₁.threadId = s.threadId := h.token
  refine ⟨h.toControl.trans h'.toControl, hself ▸ h'.context, ?_⟩
  intro t ht
  rcases h'.others t (hself ▸ ht) with h₂ | ⟨hle, h₂⟩
  · rw [h₂]
    exact h.others t ht
  · exact .inr ⟨Nat.le_trans h.threadCount hle, h₂⟩

theorem secondHalf_isSecondPart (r : Rmw) (tid : ThreadId) (old : Nat) :
    (r.secondHalf tid old).1.isSecondPartOfRmw = true := by
  unfold Rmw.secondHalf
  split <;> rfl

theorem stepCase_popping {mem : ThreadId} {v : Nat} (hholds : ∃ a, Issued s.threadId a ret)
    (hlt : s.activeThread < s.threadCount)
    (hctx : s.contextOf s.threadId = .popping mem 0 v ret) {e : Event}
    (h : (returnFrom v ret).Ends s (.ok e) s') : StepCase cfg s e s' := by
  have hback := Model.MovesTo.setContext s .user
  have hpid : (s.setContext s.threadId .user).processId = s.processId :=
    hback.processId _ hlt
  obtain ⟨rfl, he, rfl⟩ | ⟨loc, size, val, rfl, he, rfl⟩ | ⟨a, ret', hnext, h⟩ := ends_returnFrom h
  · cases he
    exact .returned hctx hback
  · cases he
    exact .wrote hctx
  obtain ⟨_, s₁, h₁, h₂⟩ := ends_bind_ok.mp h
  obtain ⟨he, rfl⟩ := ends_pure.mp h₂
  cases he
  obtain ⟨hr, _⟩ | hr | ⟨_, hlive, hsus, htoken⟩ := ends_actionHead h₁
  · cases hr
  · cases hr
  rw [hpid] at hlive
  obtain ⟨r, rfl, hsecond⟩ | ⟨m, rfl, rfl, rfl⟩ := hnext
  · obtain ⟨b, hb⟩ := hholds
    have hissued := Issued.secondHalf (toUint r.size v) hb
    have hpart := secondHalf_isSecondPart r s.threadId (toUint r.size v)
    rw [hsecond] at hissued hpart
    exact .secondHalf hctx hsecond hissued hlive ⟨hback.suspends hsus, htoken hpart⟩
  · exact .lockAgain hctx (.lock m) hlive rfl (hback.suspends hsus)

theorem exitPath_popping {mem : ThreadId} {v : Nat} (hlt : s.activeThread < s.threadCount)
    (hctx : s.contextOf s.threadId = .popping mem 0 v ret)
    (h : (returnFrom v ret).Ends s (.error .exit) s') : ExitPath cfg s s' := by
  have hback := Model.MovesTo.setContext s .user
  obtain ⟨rfl, he, _⟩ | ⟨loc, size, val, rfl, he, _⟩ | ⟨a, ret', _, h⟩ := ends_returnFrom h
  · cases he
  · cases he
  rcases ends_bind.mp h with ⟨_, s₁, _, h₂⟩ | ⟨e, h₁, he⟩
  · cases (ends_pure.mp h₂).1
  cases he
  obtain ⟨_, hidle⟩ | hr | ⟨hr, _⟩ := ends_actionHead h₁
  · have hmoves : s.MovesTo s' .user := by
      have hstay := hidle.stays_at (c := .user) hlt hback.context
      exact ⟨hback.suspends hstay.toSuspends, hstay.token⟩
    exact .quiet (.inr ⟨_, _, _, hctx⟩) hmoves
  · cases hr
  · cases hr

/-! ### `process_shutdown` -/

theorem shutdownLoop_does (hcfg : cfg.memPoison = false) (ts : List ThreadId)
    (hlt : s.activeThread < s.threadCount) (hts : ∀ t ∈ ts, t < s.threadCount) (hstay : s.Stays s₁)
    (hseq : ∀ t, s₁.Unclocked t) :
    Performs cfg (Effect.ShutsDown s) (shutdownLoop ts) s₁ := by
  induction ts generalizing s₁ with
  | nil => exact .pure _
  | cons t ts ih =>
      have ht := hts t (by simp)
      have htail : ∀ {s₂}, s.Stays s₂ → (∀ t, s₂.Unclocked t) →
          Performs cfg (Effect.ShutsDown s) (shutdownLoop ts) s₂ :=
        fun h hseq => ih (fun u hu => hts u (by simp [hu])) h hseq
      unfold shutdownLoop
      apply Does.state_bind
      rw [hstay.processId t ht, hstay.ownProcess hlt]
      split
      · next hown =>
          have hdrain : ∀ {s₂}, s.Stays s₂ → (∀ t, s₂.Unclocked t) →
              Performs cfg (Effect.ShutsDown s) (drain t >>= fun _ => shutdownLoop ts) s₂ := by
            intro s₂ hs₂ hseq₂
            have hdoes : Performs cfg (Effect.ShutsDown s) (drain t) s₂ :=
              (drain_does cfg (hseq₂ t)).mono fun e he => ⟨t, ht, hown, he⟩
            apply Does.bind hdoes
            intro _ s₃ h₃
            have hgoes := hdoes.returns h₃
            exact htail (hs₂.trans (Goes.stays hcfg (fun ⟨_, _, _, h⟩ => h) hgoes))
              (Goes.unclocked hcfg hgoes hseq₂)
          split
          · exact hdrain hstay hseq
          · have hidle : s₁.Idle (s₁.setState t .completed) := .setThread s₁ t rfl rfl
            exact Performs.update_idle_bind hidle ⟨t, ht, hown, trivial⟩
              (hdrain (hstay.trans hidle.toStays) hseq)
      · exact htail hstay hseq

theorem exitPath_shutdown (hcfg : cfg.memPoison = false) (hplaced : s.Placed)
    (hctx : s.contextOf s.threadId = .shutdown) (h : shutdownRest.Ends s (.error .exit) s') :
    ExitPath cfg s s' := by
  rw [shutdownRest, ends_state_bind] at h
  have hdoes := shutdownLoop_does hcfg (List.range s.threadCount) hplaced.active
    (fun t ht => List.mem_range.mp ht) (.refl s) hplaced.unclocked
  rcases ends_bind.mp h with ⟨_, s₁, h₁, h₂⟩ | ⟨e, h₁, he⟩
  · rw [ends_update_bind] at h₂
    obtain ⟨_, rfl⟩ := ends_stop.mp h₂
    exact .shutdown hctx (hdoes.returns h₁) (.inl (.of_eq rfl rfl rfl))
  · cases he
    obtain ⟨s₁, hgoes, hcrash⟩ := hdoes.leaves h₁
    exact .shutdown hctx hgoes (.inr hcrash)

theorem not_returns_shutdown {e : Event} : ¬ shutdownRest.Ends s (.ok e) s' := by
  intro h
  rw [shutdownRest, ends_state_bind] at h
  obtain ⟨_, s₁, _, h₂⟩ := ends_bind_ok.mp h
  rw [ends_update_bind] at h₂
  cases (ends_stop.mp h₂).1

/-! ### The step -/

theorem stepCase_of_resume (hcfg : cfg.memPoison = false) (hplaced : s.Placed) {e : Event}
    (h : (resume cfg i).Ends s (.ok e) s') : StepCase cfg s e s' := by
  have hholds : (s.threads s.threadId).context.Holds s.threadId := hplaced.holds s.threadId
  rw [resume, ends_state_bind] at h
  cases hctx : (s.threads s.threadId).context with
  | user =>
      rw [hctx] at h
      exact stepCase_user hplaced.active hctx h
  | ready a ret =>
      rw [hctx] at h hholds
      exact stepCase_ready hcfg hplaced hholds hctx h
  | waiting a ret =>
      rw [hctx] at h hholds
      exact stepCase_waiting hholds.1 hctx h
  | popping mem n v ret =>
      rw [hctx] at h hholds
      cases n with
      | zero => exact stepCase_popping hholds hplaced.active hctx h
      | succ n =>
          rw [ends_update_bind] at h
          obtain ⟨_, s₁, h₁, h₂⟩ := ends_bind_ok.mp h
          obtain ⟨he, rfl⟩ := ends_pure.mp h₂
          cases he
          exact .popped hctx h₁
  | shutdown =>
      rw [hctx] at h
      exact absurd h not_returns_shutdown
  | exited =>
      rw [hctx] at h
      cases (ends_stop.mp h).1

theorem exitPath_of_resume (hcfg : cfg.memPoison = false) (hplaced : s.Placed)
    (h : (resume cfg i).Ends s (.error .exit) s') : ExitPath cfg s s' := by
  have hholds : (s.threads s.threadId).context.Holds s.threadId := hplaced.holds s.threadId
  rw [resume, ends_state_bind] at h
  cases hctx : (s.threads s.threadId).context with
  | user =>
      rw [hctx] at h
      exact exitPath_user hplaced.active hctx h
  | ready a ret =>
      rw [hctx] at h hholds
      exact exitPath_ready hcfg hplaced hholds hctx h
  | waiting a ret =>
      rw [hctx] at h
      exact absurd h not_exit_waiting
  | popping mem n v ret =>
      rw [hctx] at h
      cases n with
      | zero => exact exitPath_popping hplaced.active hctx h
      | succ n =>
          rw [ends_update_bind] at h
          rcases ends_bind.mp h with ⟨_, s₁, _, h₂⟩ | ⟨e, h₁, he⟩
          · cases (ends_pure.mp h₂).1
          · cases he
            exact .pop hctx h₁
  | shutdown =>
      rw [hctx] at h
      exact exitPath_shutdown hcfg hplaced hctx h
  | exited =>
      rw [hctx] at h
      cases (ends_stop.mp h).1

/-- Up to the exit only the running thread has moved, and it keeps the token. -/
theorem ExitPath.moves (hcfg : cfg.memPoison = false) (hplaced : s.Placed)
    (h : ExitPath cfg s s') :
    ∃ s₀ c, s.MovesTo s₀ c ∧ s₀.Stays s' ∧
      ((s.contextOf s.threadId).Holds s.threadId → c.Holds s.threadId) := by
  have hhere : s.MovesTo s (s.contextOf s.threadId) := (Model.Idle.refl s).stays_at hplaced.active rfl
  cases h with
  | quiet _ h => exact ⟨_, _, h, .refl _, fun _ => trivial⟩
  | insertCrash _ h hcrash => exact ⟨_, _, hhere, h.toStays.trans (hcrash.stays hcfg), id⟩
  | @execute a ret s₁ s₂ s₃ _ _ hpush h hcrash =>
      have hprepared := s.prepared_stays a
      have hpushed : s.Stays s₁ := by
        rcases hpush with rfl | ⟨_, rfl⟩
        · exact hprepared
        · exact hprepared.trans (.of_eq rfl rfl)
      have hafter := (Goes.stays hcfg (fun h => h) h).trans (hcrash.stays hcfg)
      exact ⟨_, _, hhere, hpushed.trans hafter, id⟩
  | @pop mem n v ret s₁ hctx h =>
      obtain ⟨s₂, h, hcrash⟩ := (hplaced.pop_does cfg _ mem).leaves h
      have hafter := (Goes.stays hcfg (fun h => h) h).trans (hcrash.stays hcfg)
      refine ⟨_, _, .setContext s (.popping mem n v ret), hafter, ?_⟩
      rw [hctx]
      exact id
  | shutdown _ h hend =>
      have hloop := Goes.stays hcfg (fun ⟨_, _, _, h⟩ => h) h
      rcases hend with hidle | hcrash
      · exact ⟨_, _, hhere, hloop.trans hidle.toStays, id⟩
      · exact ⟨_, _, hhere, hloop.trans (hcrash.stays hcfg), id⟩

/-- A step of the checker is one of the cases. -/
theorem stepCase_of_sysStep {l : Label} (hcfg : cfg.memPoison = false) (hplaced : s.Placed)
    (h : SysStep cfg s l s') : l.tid = s.threadId ∧ StepCase cfg s l.event s' := by
  obtain ⟨htid, i, h⟩ := h
  refine ⟨htid, ?_⟩
  rcases ends_onStop.mp h with ⟨h, _⟩ | ⟨s₁, h₁, h₂⟩
  · exact stepCase_of_resume hcfg hplaced h
  · have hpath := exitPath_of_resume hcfg hplaced h₁
    obtain ⟨s₀, c, hmoves, hstays, _⟩ := hpath.moves hcfg hplaced
    have hlt : s₁.activeThread < s₁.threadCount := by
      rw [hstays.activeThread]
      exact Nat.lt_of_lt_of_le (hmoves.activeThread hplaced.active) hstays.threadCount
    obtain ⟨he, hexits⟩ := ends_finishExecution hlt h₂
    rw [he]
    exact .exited hpath hexits

end

end Cxlmc
