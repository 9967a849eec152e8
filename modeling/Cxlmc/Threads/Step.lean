import Cxlmc.Threads.Execute
import Cxlmc.System.Step

/-!
# What one step does to threads and mutexes

`ThreadCase` says what a step of the checker does to threads, mutexes and processes, also where it
ends in a `DEADLOCK`; `threadCase_of_step` is the inversion lemma.
-/

namespace Cxlmc

open Stateful

/-! ## What a step can do -/

/-- The code before an `exit`, and the state in which the exit handler is called. -/
inductive ThreadExit (s : Model) : Model → Prop where
  /-- The program calls `exit`. -/
  | quit (hctx : s.contextOf s.threadId = .user) : ThreadExit s s
  /-- The head of `Model::action` finds that the process has crashed. -/
  | late (hctx : s.contextOf s.threadId = .user) (hcrashed : s.isCrashed s.processId = true) :
      ThreadExit s s.processCrash
  | lateBack {mem : ThreadId} {v : Nat} {ret : Ret}
      (hctx : s.contextOf s.threadId = .popping mem 0 v ret)
      (hcrashed : s.isCrashed s.processId = true) :
      ThreadExit s (s.setContext s.threadId .user).processCrash
  | died {s₁ s₂ s' : Model}
      (h : s₁ = s ∨ ∃ mem n v ret, s.contextOf s.threadId = .popping mem (n + 1) v ret ∧
        s₁ = s.setContext s.threadId (.popping mem n v ret))
      (hworks : s₁.Works s₂) (hdies : s₂.Dies s') : ThreadExit s s'
  | shutdown {s₁ : Model} (hctx : s.contextOf s.threadId = .shutdown) (hworks : s.Works s₁) :
      ThreadExit s
        { s₁.terminated (List.range s₁.threadCount) with
          completedProcs := insert s₁.processId s₁.completedProcs }
  | shutdownDied {s₁ s' : Model} (ts : List ThreadId)
      (hctx : s.contextOf s.threadId = .shutdown) (hworks : s.Works s₁)
      (hts : ∀ t ∈ ts, t < s₁.threadCount) (hdies : (s₁.terminated ts).Dies s') : ThreadExit s s'

/-- Past the head of `Model::action`, the second half of a read-modify-write without a `yield`. -/
inductive Calls (a : ModelAction) (ret : Ret) (s : Model) : Except Stop Event → Model → Prop where
  | stays : Calls a ret s (.ok (.called a)) (s.called a ret)
  | yields {r : Except Stop Event} {s' : Model}
      (h : (s.called a ret).Yields (Event.called a) r s') : Calls a ret s r s'

/-- What a step does to threads and mutexes. -/
inductive ThreadCase (s : Model) : Except Stop Event → Model → Prop where
  | called {a : ModelAction} {ret : Ret} {r : Except Stop Event} {s' : Model}
      (hctx : s.contextOf s.threadId = .user) (hissued : Issued s.threadId a ret)
      (hlive : s.isCrashed s.processId = false) (h : Calls a ret s r s') : ThreadCase s r s'
  | secondHalf {mem : ThreadId} {v : Nat} {rmw : Rmw} {a : ModelAction} {ret : Ret}
      {r : Except Stop Event} {s' : Model}
      (hctx : s.contextOf s.threadId = .popping mem 0 v (.rmw rmw))
      (ha : rmw.secondHalf s.threadId (toUint rmw.size v) = (a, ret))
      (hlive : s.isCrashed s.processId = false) (h : Calls a ret s r s') : ThreadCase s r s'
  | lockAgain {mem : ThreadId} {v : Nat} {m : MutexId} {r : Except Stop Event} {s' : Model}
      (hctx : s.contextOf s.threadId = .popping mem 0 v (.lock m))
      (hlive : s.isCrashed s.processId = false)
      (h : Calls { tid := s.threadId, type := .atomicLock, location := m } .toUser s r s') :
      ThreadCase s r s'
  | executed {a : ModelAction} {ret : Ret} {v n : Nat} {rf : Slots} {t : ThreadId} {s₁ : Model}
      (hctx : s.contextOf s.threadId = .ready a ret) (hgive : ¬ s.MustGive a)
      (hacts : Acts (s.stamp a) s s₁) :
      ThreadCase s (.ok (.executed (s.stamp a) v rf)) (s₁.backAt (.popping t n v ret))
  | resumed {a : ModelAction} {ret : Ret} {v n : Nat} {rf : Slots} {t : ThreadId} {s₁ : Model}
      (hctx : s.contextOf s.threadId = .waiting a ret) (hsync : a.isSync = true)
      (hacts : Acts a s s₁) :
      ThreadCase s (.ok (.executed a v rf)) (s₁.backAt (.popping t n v ret))
  | blocked {a : ModelAction} {ret : Ret} {r : Except Stop Flow} {s₁ s' : Model}
      (hctx : s.contextOf s.threadId = .ready a ret ∨ s.contextOf s.threadId = .waiting a ret)
      (hwaits : Waits a s s₁) (h : (s₁.waits a ret).Yields Flow.suspended r s') :
      ThreadCase s (r.map fun _ => .blocked a) s'
  | finished {a : ModelAction} {ret : Ret} {v : Nat} {b : Except Stop Bool} {s' : Model}
      (hctx : s.contextOf s.threadId = .ready a ret)
      (htype : a.type = .threadFinish ∨ a.type = .threadonlyFinish)
      (h : (s.finishes v).LastYields b s') :
      ThreadCase s (b.map fun _ => .finished a) s'
  | relocks : ThreadCase s (.error .deadlock) s
  | popped {mem : ThreadId} {n v : Nat} {ret : Ret} {s' : Model}
      (hctx : s.contextOf s.threadId = .popping mem (n + 1) v ret)
      (h : (s.setContext s.threadId (.popping mem n v ret)).Works s') :
      ThreadCase s (.ok (.popped mem)) s'
  | returned {mem : ThreadId} {v : Nat} {ret : Ret} {s' : Model}
      (hctx : s.contextOf s.threadId = .popping mem 0 v ret)
      (hret : (∀ m, ret ≠ .lock m) ∧ ∀ rmw, ret ≠ .rmw rmw)
      (h : (s.setContext s.threadId .user).Works s') : ThreadCase s (.ok (.returned v)) s'
  | noAction {s' : Model} (hctx : s.contextOf s.threadId = .user) (h : s.Works s') :
      ThreadCase s (.ok .noAction) s'
  | userDone {r : Except Stop Event} {s' : Model} (hctx : s.contextOf s.threadId = .user)
      (h : (s.setContext s.threadId .shutdown).Yields Event.noAction r s') : ThreadCase s r s'
  | exited {s₁ : Model} {t : ThreadId} (hexit : ThreadExit s s₁)
      (hnext : s₁.gone.nextRunning = some t) : ThreadCase s (.ok .exited) (s₁.gone.passed t)
  | exitStuck {s₁ : Model} (hexit : ThreadExit s s₁) (hnext : s₁.gone.nextRunning = none) :
      ThreadCase s (.error .deadlock) s₁.gone

/-- How `resume` ends, before an exit handler. -/
inductive ThreadEnds (s : Model) : Except Stop Event → Model → Prop where
  | step {r : Except Stop Event} {s' : Model} (h : ThreadCase s r s') : ThreadEnds s r s'
  | exits {s' : Model} (h : ThreadExit s s') : ThreadEnds s (.error .exit) s'
  | failed {e : Stop} {s' : Model} (hexit : e ≠ .exit) (hdead : e ≠ .deadlock) :
      ThreadEnds s (.error e) s'

/-! ## The code does these steps -/

section

variable {cfg : Config} {s s' s₁ : Model} {a : ModelAction} {ret : Ret} {i : Input}
  {r : Except Stop Event}

theorem calls_of_ends {yields : Bool}
    (h : (actionHead a yields ret >>= fun _ => (pure (.called a) : M Event)).Ends s r s') :
    r = .error .exit ∧ s.isCrashed s.processId = true ∧ s' = s.processCrash ∨
      s.isCrashed s.processId = false ∧ Calls a ret s r s' := by
  rw [actionHead, ends_bind_assoc, ends_state_bind] at h
  split at h
  · next hcrashed =>
      rw [ends_bind_assoc, ends_update_bind] at h
      rcases ends_bind.mp h with ⟨_, s₁, h₁, _⟩ | ⟨e, h₁, rfl⟩
      · cases (ends_stop.mp h₁).1
      · obtain ⟨he, rfl⟩ := ends_stop.mp h₁
        cases he
        exact .inl ⟨rfl, hcrashed, rfl⟩
  · next hlive =>
      have hlive : s.isCrashed s.processId = false := Bool.eq_false_iff.mpr hlive
      rw [ends_bind_assoc, ends_update_bind] at h
      split at h
      · exact .inr ⟨hlive, .yields (.of_bind h)⟩
      · obtain ⟨rfl, rfl⟩ := ends_pure.mp h
        exact .inr ⟨hlive, .stays⟩

theorem Model.prepared_works (hlt : s.activeThread < s.threadCount) (a : ModelAction) :
    s.Works (s.prepared a) := by
  unfold Model.prepared
  split
  · exact .initialized _ hlt
  · exact .refl s

theorem Acts.of_prepared (hlt : s.activeThread < s.threadCount)
    (h : Acts (s.stamp a) (s.prepared a) s₁) : Acts (s.stamp a) s s₁ := by
  by_cases hacc : (a.isRead || a.isWrite) = false
  · rw [s.prepared_of_not_access hacc] at h
    exact h
  · have hcontrol : (s.stamp a).isControl = false := by
      rw [Bool.eq_false_iff]
      intro hcontrol
      apply hacc
      have hnot := not_access_of_isControl hcontrol
      simp only [ModelAction.isRead, ModelAction.isWrite, s.stamp_type] at hnot ⊢
      exact hnot
    have hworks := s.prepared_works hlt a
    cases h with
    | work _ h => exact .work hcontrol (hworks.trans h)
    | idle _ _ _ => exact .work hcontrol hworks
    | create htype _ =>
        rw [s.stamp_type] at htype
        simp [ModelAction.isRead, ModelAction.isWrite, htype] at hacc
    | acquire htype _ _ =>
        rcases htype with h | h <;>
          simp [ModelAction.isControl, ModelAction.isLoad, ModelAction.isBuffered, h] at hcontrol
    | relock _ htype _ =>
        simp [ModelAction.isControl, ModelAction.isLoad, ModelAction.isBuffered, htype] at hcontrol
    | unlockOnce _ _ hsync _ _ => simp [ModelAction.isControl_of_isSync hsync] at hcontrol
    | unlock _ hsync _ _ => simp [ModelAction.isControl_of_isSync hsync] at hcontrol
    | notifyOne htype =>
        simp [ModelAction.isControl, ModelAction.isLoad, ModelAction.isBuffered, htype] at hcontrol
    | notifyAll htype =>
        simp [ModelAction.isControl, ModelAction.isLoad, ModelAction.isBuffered, htype] at hcontrol

/-! ### In the program -/

theorem ends_user {c : Call} (hctx : s.contextOf s.threadId = .user)
    (h : (callApi c).Ends s r s') : ThreadEnds s r s' := by
  rw [callApi, ends_state_bind] at h
  split at h
  · next req hreq =>
      rcases ends_bind.mp h with ⟨_, s₁, h₁, h₂⟩ | ⟨e, h₁, rfl⟩
      · obtain ⟨rfl, _⟩ := ends_require.mp h₁
        obtain ⟨rfl, hcrashed, rfl⟩ | ⟨hlive, hcalls⟩ := calls_of_ends h₂
        · exact .exits (.late hctx hcrashed)
        · exact .step (.called hctx (.call hreq) hlive hcalls)
      · obtain ⟨_, ⟨_, hr⟩ | ⟨_, hr⟩⟩ := ends_require.mp h₁
        · cases hr
        · cases hr
          exact .failed (by simp) (by simp)
  · split at h
    · -- `insert_crash` of the running process
      have hcrash : Labours (insertCrash s.processId) s := insertCrash_labours fun hne => absurd rfl hne
      rcases ends_bind.mp h with ⟨_, s₁, h₁, h₂⟩ | ⟨e, h₁, rfl⟩
      · obtain ⟨rfl, rfl⟩ := ends_pure.mp h₂
        exact .step (.noAction hctx (hcrash.works h₁))
      · by_cases hexit : e = .exit
        · subst hexit
          obtain ⟨s₁, hworks, hdies⟩ := hcrash.dies h₁
          exact .exits (.died (.inl rfl) hworks hdies)
        · refine .failed hexit ?_
          rintro rfl
          exact insertCrash_avoids _ s s' h₁
    · rw [ends_update_bind] at h
      obtain ⟨rfl, rfl⟩ := ends_pure.mp h
      exact .step (.noAction hctx (.of_eq rfl rfl rfl rfl rfl fun _ _ h => h))
    · rw [ends_update_bind] at h
      obtain ⟨rfl, rfl⟩ := ends_pure.mp h
      exact .step (.noAction hctx (.of_eq rfl rfl rfl rfl rfl fun _ _ h => h))
    · rw [ends_update_bind] at h
      exact .step (.userDone hctx (.of_bind h))
    · obtain ⟨rfl, rfl⟩ := ends_stop.mp h
      exact .exits (.quit hctx)

/-! ### In `execute` -/

theorem ends_done {a' : ModelAction} {value : Nat} {rf : Slots}
    (h : (finishAction a' ret i (.done value rf)).Ends s₁ r s') :
    r = .ok (.executed a' value rf) ∧ ∃ t n, s' = s₁.backAt (.popping t n value ret) := by
  rw [finishAction, ends_update_bind] at h
  rcases ends_bind.mp h with ⟨_, s₂, h₁, h₂⟩ | ⟨e, h₁, _⟩
  · obtain ⟨rfl, rfl⟩ := ends_pure.mp h₂
    rw [processStoreBuffer, ends_state_bind] at h₁
    obtain ⟨_, rfl⟩ := ends_update.mp h₁
    exact ⟨rfl, _, _, rfl⟩
  · rw [processStoreBuffer, ends_state_bind] at h₁
    cases (ends_update.mp h₁).1

theorem Waits.isControl (h : Waits a s s₁) : a.isControl = true := by
  cases h with
  | stays _ hmust =>
      cases hmust <;> simp [ModelAction.isControl, ModelAction.isLoad, ModelAction.isBuffered, *]
  | gives hgive =>
      simp [ModelAction.isControl, ModelAction.isLoad, ModelAction.isBuffered, hgive.type]

theorem Model.stamp_isControl (s : Model) (a : ModelAction) : (s.stamp a).isControl = a.isControl := by
  simp only [ModelAction.isControl, ModelAction.isLoad, ModelAction.isBuffered, s.stamp_type]

/-- An action on threads and mutexes finds the state as it was. -/
theorem Model.stamp_of_executed {b : ModelAction} (hcontrol : (s.stamp b).isControl = true) :
    s.stamp b = b ∧ s.prepared b = s := by
  rw [s.stamp_isControl] at hcontrol
  exact ⟨s.stamp_of_isControl hcontrol, s.prepared_of_not_access (not_access_of_isControl hcontrol)⟩

theorem ModelAction.isControl_of_finish {a : ModelAction}
    (htype : a.type = .threadFinish ∨ a.type = .threadonlyFinish) : a.isControl = true := by
  rcases htype with h | h <;>
    simp [ModelAction.isControl, ModelAction.isLoad, ModelAction.isBuffered, h]

theorem ends_ready (hcfg : cfg.memPoison = false) (hlt : s.activeThread < s.threadCount)
    (hissued : Issued s.threadId a ret) (hrun : s.Runs) (hs : s.Attributed)
    (hctx : s.contextOf s.threadId = .ready a ret) (h : (actionBody cfg a ret i).Ends s r s') :
    ThreadEnds s r s' := by
  obtain ⟨htid, hlt', hrest⟩ := ends_prepared hlt hissued h
  have hprepared := s.prepared_works hlt a
  have hrun' : (s.prepared a).Runs := by
    rw [Model.Runs, hprepared.threads, hprepared.threadId]
    exact hrun
  have hexecute : ∀ {q : Except Stop Flow} {y : Model},
      (execute cfg (s.stamp a) ret).Ends (s.prepared a) q y →
      Outcome (s.stamp a) ret (s.prepared a) q y := fun hends =>
    outcome_of_execute hcfg htid hlt' (size_pos_of_isLoad hissued) hrun' (hprepared.attributed hs) hends
  -- either `execute` has come back, or it was left by a stop
  rcases ends_bind.mp hrest with ⟨flow, s₁, h₁, h₂⟩ | ⟨e, h₁, rfl⟩
  · generalize hq : (Except.ok flow : Except Stop Flow) = q at h₁
    cases hexecute h₁ with
    | failed _ _ => cases hq
    | died _ _ => cases hq
    | relocks _ _ => cases hq
    | @done v rf _ hacts =>
        cases hq
        obtain ⟨rfl, t, n, rfl⟩ := ends_done h₂
        refine .step (.executed hctx (fun hgive => ?_) (hacts.of_prepared hlt))
        -- a wait is no access: it gets no number, and the list of its word no entry
        have hcontrol : (s.stamp a).isControl = true := by
          rw [s.stamp_isControl]
          simp [ModelAction.isControl, ModelAction.isLoad, ModelAction.isBuffered, hgive.type]
        obtain ⟨hstamp, hprep⟩ := Model.stamp_of_executed hcontrol
        rw [hstamp, hprep] at h₁
        exact not_mustGive_of_done h₁ hgive
    | waits hwaits h =>
        obtain ⟨hstamp, hprep⟩ := Model.stamp_of_executed hwaits.isControl
        subst hq
        rw [hstamp] at hwaits h h₂
        rw [hprep] at hwaits
        have hflow : flow = .suspended := by
          cases h <;> rfl
        rw [hflow] at h h₂
        obtain ⟨rfl, rfl⟩ := ends_pure.mp h₂
        exact .step (.blocked (.inl hctx) hwaits h)
    | @finished b v _ htype hlast =>
        obtain ⟨hstamp, hprep⟩ := Model.stamp_of_executed (ModelAction.isControl_of_finish htype)
        rw [hprep] at hlast
        rw [hstamp] at h₂
        cases b with
        | error e => cases hq
        | ok b =>
            cases hq
            obtain ⟨rfl, rfl⟩ := ends_pure.mp h₂
            exact .step (.finished hctx (s.stamp_type a ▸ htype) hlast)
  · generalize hq : (Except.error e : Except Stop Flow) = q at h₁
    cases hexecute h₁ with
    | failed hexit hdead =>
        cases hq
        exact .failed hexit hdead
    | died hworks hdies =>
        cases hq
        exact .exits (.died (.inl rfl) (hprepared.trans hworks) hdies)
    | relocks htype _ =>
        cases hq
        have hcontrol : (s.stamp a).isControl = true := by
          simp [ModelAction.isControl, ModelAction.isLoad, ModelAction.isBuffered, htype]
        rw [(Model.stamp_of_executed hcontrol).2]
        exact .step .relocks
    | done _ => cases hq
    | waits hwaits h =>
        obtain ⟨hstamp, hprep⟩ := Model.stamp_of_executed hwaits.isControl
        subst hq
        rw [hstamp] at hwaits h
        rw [hprep] at hwaits
        exact .step (.blocked (.inl hctx) hwaits h)
    | @finished b v _ htype hlast =>
        obtain ⟨hstamp, hprep⟩ := Model.stamp_of_executed (ModelAction.isControl_of_finish htype)
        rw [hprep] at hlast
        cases b with
        | ok b => cases hq
        | error e =>
            cases hq
            exact .step (.finished hctx (s.stamp_type a ▸ htype) hlast)

theorem ends_waiting (hsync : a.isSync = true) (hctx : s.contextOf s.threadId = .waiting a ret)
    (h : (resumeExecute a ret >>= finishAction a ret i).Ends s r s') : ThreadEnds s r s' := by
  rcases ends_bind.mp h with ⟨flow, s₁, h₁, h₂⟩ | ⟨e, h₁, rfl⟩
  · generalize hq : (Except.ok flow : Except Stop Flow) = q at h₁
    cases outcome_of_resumeExecute hsync h₁ with
    | failed _ _ => cases hq
    | died _ _ => cases hq
    | relocks _ _ => cases hq
    | done hacts =>
        cases hq
        obtain ⟨rfl, t, n, rfl⟩ := ends_done h₂
        exact .step (.resumed hctx hsync hacts)
    | waits hwaits h =>
        subst hq
        have hflow : flow = .suspended := by
          cases h <;> rfl
        rw [hflow] at h h₂
        obtain ⟨rfl, rfl⟩ := ends_pure.mp h₂
        exact .step (.blocked (.inr hctx) hwaits h)
    | finished htype _ => rcases htype with h | h <;> simp [ModelAction.isSync, h] at hsync
  · generalize hq : (Except.error e : Except Stop Flow) = q at h₁
    cases outcome_of_resumeExecute hsync h₁ with
    | failed hexit hdead =>
        cases hq
        exact .failed hexit hdead
    | died hworks hdies =>
        cases hq
        exact .exits (.died (.inl rfl) hworks hdies)
    | relocks _ _ =>
        cases hq
        exact .step .relocks
    | done _ => cases hq
    | waits hwaits h =>
        subst hq
        exact .step (.blocked (.inr hctx) hwaits h)
    | finished htype _ => rcases htype with h | h <;> simp [ModelAction.isSync, h] at hsync

/-! ### Popping and the return to the program -/

theorem ends_popping {mem : ThreadId} {n v : Nat} (hs : s.Attributed)
    (hctx : s.contextOf s.threadId = .popping mem (n + 1) v ret)
    (h : (popFromStoreBuffer mem >>= fun _ => (pure (.popped mem) : M Event)).Ends
      (s.setContext s.threadId (.popping mem n v ret)) r s') : ThreadEnds s r s' := by
  have hpop : Labours (popFromStoreBuffer mem) (s.setContext s.threadId (.popping mem n v ret)) :=
    popFromStoreBuffer_labours ⟨hs.listed, hs.buffered⟩
  rcases ends_bind.mp h with ⟨_, s₁, h₁, h₂⟩ | ⟨e, h₁, rfl⟩
  · obtain ⟨rfl, rfl⟩ := ends_pure.mp h₂
    exact .step (.popped hctx (hpop.works h₁))
  · by_cases hexit : e = .exit
    · subst hexit
      obtain ⟨s₁, hworks, hdies⟩ := hpop.dies h₁
      exact .exits (.died (.inr ⟨mem, n, v, ret, hctx, rfl⟩) hworks hdies)
    · refine .failed hexit ?_
      rintro rfl
      exact popFromStoreBuffer_avoids _ _ h₁

/-- The next action overwrites the place in the program. -/
theorem Model.called_setContext_user (s : Model) :
    (s.setContext s.threadId .user).called a ret = s.called a ret := by
  simp only [Model.called, Model.setContext, Model.setPending, Model.setThread, Model.threadId,
    Function.update_self, Function.update_idem]

theorem Calls.of_user (h : Calls a ret (s.setContext s.threadId .user) r s') : Calls a ret s r s' := by
  generalize hs : s.setContext s.threadId .user = s₀ at h
  have hcalled : s₀.called a ret = s.called a ret := by
    rw [← hs, s.called_setContext_user]
  cases h with
  | stays =>
      rw [hcalled]
      exact .stays
  | yields h =>
      rw [hcalled] at h
      exact .yields h

theorem ends_returning {mem : ThreadId} {v : Nat}
    (hctx : s.contextOf s.threadId = .popping mem 0 v ret) (h : (returnFrom v ret).Ends s r s') :
    ThreadEnds s r s' := by
  have hpid : (s.setContext s.threadId .user).processId = s.processId := by
    show (Function.update s.threads s.threadId _ s.threadId).processId = _
    rw [Function.update_self]
    rfl
  have hcall : ∀ (b : ModelAction) (ret' : Ret),
      (actionHead b true ret' >>= fun _ => (pure (.called b) : M Event)).Ends
        (s.setContext s.threadId .user) r s' →
      (s.isCrashed s.processId = false → Calls b ret' s r s' → ThreadEnds s r s') →
      ThreadEnds s r s' := by
    intro b ret' h hnext
    obtain ⟨rfl, hcrashed, rfl⟩ | ⟨hlive, hcalls⟩ := calls_of_ends h
    · rw [hpid] at hcrashed
      exact .exits (.lateBack hctx hcrashed)
    · rw [hpid] at hlive
      exact hnext hlive hcalls.of_user
  cases ret with
  | toUser =>
      obtain ⟨rfl, rfl⟩ := ends_pure.mp h
      exact .step (.returned hctx ⟨nofun, nofun⟩ (.refl _))
  | rawStore loc size val =>
      obtain ⟨rfl, rfl⟩ := ends_pure.mp h
      refine .step (.returned hctx ⟨nofun, nofun⟩ ?_)
      exact .of_eq rfl rfl rfl rfl rfl fun _ _ h => h
  | rmw rmw =>
      exact hcall (rmw.secondHalf s.threadId (toUint rmw.size v)).1
        (rmw.secondHalf s.threadId (toUint rmw.size v)).2 h
        fun hlive hcalls => .step (.secondHalf hctx rfl hlive hcalls)
  | lock m => exact hcall _ _ h fun hlive hcalls => .step (.lockAgain hctx hlive hcalls)

/-! ### `process_shutdown` -/

/-- Working on the memory and ending threads are independent. -/
theorem Model.Works.of_terminated {x y : Model} {ts : List ThreadId} (h : (x.terminated ts).Works y) :
    ∃ x', x.Works x' ∧ y = x'.terminated ts := by
  obtain ⟨hsched, hmutexes, hcompleted, hcrashes, hattributed⟩ := h
  rcases y with ⟨sched, mem, points, completed, mutexes, backtrack, mapping⟩
  obtain rfl : sched = (x.terminated ts).toScheduler := hsched
  have hpid : ∀ t, ((x.terminated ts).threads t).processId = (x.threads t).processId := by
    intro t
    show (if _ then _ else _ : Thread).processId = _
    split <;> rfl
  refine ⟨⟨x.toScheduler, mem, points, completed, mutexes, backtrack, mapping⟩, ?_, rfl⟩
  refine ⟨rfl, hmutexes, hcompleted, ?_, ?_⟩
  · change (x.terminated ts).Loses mem.crashes at hcrashes
    show x.Loses mem.crashes
    generalize mem.crashes = c at hcrashes
    cases hcrashes with
    | none => exact .none
    | one clock hfirst hpid' =>
        obtain ⟨⟨t, ht, hproc⟩, hother, hnot⟩ := hpid'
        rw [hpid] at hproc
        have hown : (x.terminated ts).processId = x.processId := hpid x.threadId
        rw [hown] at hother
        exact .one clock hfirst ⟨⟨t, ht, hproc⟩, hother, hnot⟩
  · intro hx
    have hy := hattributed ⟨hx.listed, hx.buffered⟩
    exact ⟨hy.listed, hy.buffered⟩

theorem Model.terminated_nil (s : Model) : s.terminated [] = s := by
  simp [Model.terminated]

@[simp] theorem Model.terminated_processId (s : Model) (ts : List ThreadId) :
    (s.terminated ts).processId = s.processId := by
  show (if _ then _ else _ : Thread).processId = _
  split <;> rfl

/-- One round of the loop before the buffers are emptied. -/
theorem Model.terminated_concat (s : Model) (ts : List ThreadId) (t : ThreadId) :
    s.terminated (ts ++ [t]) =
      if ((s.terminated ts).threads t).processId = (s.terminated ts).processId ∧
          ((s.terminated ts).threads t).isCompleted = false then
        (s.terminated ts).setState t .completed
      else s.terminated ts := by
  have hext : ∀ {x y : Model}, x = { y with threads := x.threads } →
      (∀ u, x.threads u = y.threads u) → x = y := by
    intro x y hx hu
    rw [hx, show x.threads = y.threads from funext hu]
  split
  · next h =>
      refine hext rfl fun u => ?_
      show _ = Function.update (s.terminated ts).threads t _ u
      rw [Function.update_apply]
      simp only [terminated_threads, terminated_processId] at h ⊢
      grind [Thread.isCompleted]
  · next h =>
      refine hext rfl fun u => ?_
      simp only [terminated_threads, terminated_processId] at h ⊢
      grind [Thread.isCompleted]

/-- The loop of `process_shutdown` ends the threads and works on the memory; where a flush crashes the
running process, the threads before it have been ended. -/
theorem ends_shutdownLoop (ts done : List ThreadId) {x : Model} (hs : s.Attributed)
    (hworks : s.Works x) (hlt : ∀ t ∈ done ++ ts, t < s.threadCount) {q : Except Stop Unit}
    (h : (shutdownLoop ts).Ends (x.terminated done) q s') :
    (q = .ok () ∧ ∃ x', s.Works x' ∧ s' = x'.terminated (done ++ ts)) ∨
      (q = .error .exit ∧ ∃ x' ts', s.Works x' ∧ (∀ t ∈ ts', t < x'.threadCount) ∧
        (x'.terminated ts').Dies s') ∨
      ∃ e, q = .error e ∧ e ≠ .exit ∧ e ≠ .deadlock := by
  induction ts generalizing done x with
  | nil =>
      obtain ⟨rfl, rfl⟩ := ends_pure.mp h
      rw [List.append_nil]
      exact .inl ⟨rfl, x, hworks, rfl⟩
  | cons t ts ih =>
      have happend : done ++ t :: ts = (done ++ [t]) ++ ts := by simp
      rw [happend] at hlt ⊢
      -- the buffers of a thread of the process are emptied
      have hdrain : ∀ {y : Model}, y = x.terminated (done ++ [t]) →
          (drain t >>= fun _ => shutdownLoop ts).Ends y q s' →
          (q = .ok () ∧ ∃ x', s.Works x' ∧ s' = x'.terminated ((done ++ [t]) ++ ts)) ∨
            (q = .error .exit ∧ ∃ x' ts', s.Works x' ∧ (∀ t ∈ ts', t < x'.threadCount) ∧
              (x'.terminated ts').Dies s') ∨
            ∃ e, q = .error e ∧ e ≠ .exit ∧ e ≠ .deadlock := by
        intro y hy h
        subst hy
        have hx := hworks.attributed hs
        have hlabours : Labours (drain t) (x.terminated (done ++ [t])) :=
          drain_labours ⟨hx.listed, hx.buffered⟩
        rcases ends_bind.mp h with ⟨_, y, h₁, h₂⟩ | ⟨e, h₁, rfl⟩
        · obtain ⟨x', hx', rfl⟩ := (hlabours.works h₁).of_terminated
          exact ih _ (hworks.trans hx') hlt h₂
        · by_cases hexit : e = .exit
          · subst hexit
            obtain ⟨y, hy, hdies⟩ := hlabours.dies h₁
            obtain ⟨x', hx', rfl⟩ := hy.of_terminated
            refine .inr (.inl ⟨rfl, x', done ++ [t], hworks.trans hx', ?_, hdies⟩)
            intro u hu
            rw [(hworks.trans hx').scheduler]
            exact hlt u (List.mem_append_left _ hu)
          · refine .inr (.inr ⟨e, rfl, hexit, ?_⟩)
            rintro rfl
            exact drain_avoids _ _ h₁
      have hconcat := x.terminated_concat done t
      rw [shutdownLoop, ends_state_bind] at h
      split at h
      · next hown =>
          by_cases hdone : ((x.terminated done).threads t).isCompleted = true
          · rw [if_pos hdone] at h
            rw [if_neg fun h => Bool.noConfusion (hdone.symm.trans h.2)] at hconcat
            exact hdrain hconcat.symm h
          · rw [if_neg hdone] at h
            rw [if_pos ⟨hown, Bool.eq_false_iff.mpr hdone⟩] at hconcat
            rw [ends_update_bind] at h
            exact hdrain hconcat.symm h
      · next hother =>
          rw [if_neg fun h => hother h.1] at hconcat
          rw [← hconcat] at h
          exact ih _ hworks hlt h

theorem ends_shutdown (hs : s.Attributed) (hctx : s.contextOf s.threadId = .shutdown)
    (h : shutdownRest.Ends s r s') : ThreadEnds s r s' := by
  rw [shutdownRest, ends_state_bind] at h
  have hloop : ∀ {q : Except Stop Unit} {y : Model},
      (shutdownLoop (List.range s.threadCount)).Ends s q y → _ := fun {q y} hends =>
    ends_shutdownLoop (List.range s.threadCount) [] hs (.refl s) (by simp) (by rw [s.terminated_nil]; exact hends)
  rcases ends_bind.mp h with ⟨_, s₁, h₁, h₂⟩ | ⟨e, h₁, rfl⟩
  · rw [ends_update_bind] at h₂
    obtain ⟨rfl, rfl⟩ := ends_stop.mp h₂
    obtain ⟨_, x', hx', rfl⟩ | ⟨he, _⟩ | ⟨_, he, _⟩ := hloop h₁
    · have hcount : x'.threadCount = s.threadCount := by rw [hx'.scheduler]
      rw [List.nil_append, ← hcount, x'.terminated_processId]
      exact .exits (.shutdown hctx hx')
    · cases he
    · cases he
  · obtain ⟨he, _⟩ | ⟨he, x', ts', hx', hts, hdies⟩ | ⟨_, he, hexit, hdead⟩ := hloop h₁
    · cases he
    · cases he
      exact .exits (.shutdownDied ts' hctx hx' hts hdies)
    · cases he
      exact .failed hexit hdead

/-! ### The exit handler and the whole step -/

/-- The exit handler up to `last_yield`. -/
theorem Model.gone_of_finalize (s x : Model)
    (hx : x = { s with
        threads := fun t =>
          if (s.threads t).processId = s.processId then { s.threads t with context := .exited }
          else s.threads t }) :
    (if (x.threads x.threadId).isCompleted then x else x.setState x.threadId .completed) =
      s.gone := by
  have hself : x.threads x.threadId = { s.threads s.threadId with context := .exited } := by
    rw [hx]
    exact if_pos rfl
  have hext : ∀ {y : Model}, y = { s with threads := y.threads } →
      (∀ u, y.threads u = s.gone.threads u) → y = s.gone := by
    intro y hy hu
    rw [hy, show y.threads = s.gone.threads from funext hu]
    rfl
  have hgone : ∀ u, s.gone.threads u =
      if (s.threads u).processId = s.processId then
        { s.threads u with
          context := .exited
          state :=
            if u = s.threadId ∧ (s.threads u).isCompleted = false then .completed
            else (s.threads u).state }
      else s.threads u := fun _ => rfl
  have hxu : ∀ u, x.threads u =
      if (s.threads u).processId = s.processId then { s.threads u with context := .exited }
      else s.threads u := by
    intro u
    rw [hx]
  have hown : (s.threads s.threadId).processId = s.processId := rfl
  rw [hself]
  split
  · next hdone =>
      refine hext (by rw [hx]) fun u => ?_
      rw [hgone, hxu]
      grind [Thread.isCompleted]
  · next hnot =>
      refine hext (by rw [hx]; rfl) fun u => ?_
      show Function.update x.threads x.threadId _ u = _
      have hid : x.threadId = s.threadId := by rw [hx]; rfl
      rw [Function.update_apply, hgone, hxu, hid, hxu]
      grind [Thread.isCompleted]

theorem ends_exit (h : finishExecution.Ends s r s') :
    (∃ t, s.gone.nextRunning = some t ∧ r = .ok .exited ∧ s' = s.gone.passed t) ∨
      (s.gone.nextRunning = none ∧ r = .error .deadlock ∧ s' = s.gone) ∨
      r = .error .executionOver := by
  rw [finishExecution, ends_update_bind] at h
  have hfinal : ∀ {q : Except Stop Bool} {y : Model}, finalize.Ends { s with
      threads := fun t =>
        if (s.threads t).processId = s.processId then { s.threads t with context := .exited }
        else s.threads t } q y → s.gone.LastYields q y := by
    intro q y h
    rw [finalize, ends_update_bind, s.gone_of_finalize _ rfl] at h
    exact lastYields_of_ends h
  rcases ends_bind.mp h with ⟨b, y, h₁, h₂⟩ | ⟨e, h₁, rfl⟩
  · cases hfinal h₁ with
    | @next t hnext =>
        obtain ⟨rfl, rfl⟩ := ends_pure.mp h₂
        exact .inl ⟨t, hnext, rfl, rfl⟩
    | last _ =>
        obtain ⟨rfl, _⟩ := ends_stop.mp h₂
        exact .inr (.inr rfl)
  · cases hfinal h₁ with
    | stuck hnext => exact .inr (.inl ⟨hnext, rfl, rfl⟩)

theorem ends_resume (hcfg : cfg.memPoison = false) (hplaced : s.Placed) (hs : s.Attributed)
    (hrun : s.contextOf s.threadId ≠ .exited → s.Runs) (h : (resume cfg i).Ends s r s') :
    ThreadEnds s r s' := by
  have hholds : (s.threads s.threadId).context.Holds s.threadId := hplaced.holds s.threadId
  have hctx : (s.threads s.threadId).context = s.contextOf s.threadId := rfl
  rw [resume, ends_state_bind] at h
  rw [hctx] at h hholds
  cases hplace : s.contextOf s.threadId with
  | user =>
      rw [hplace] at h
      exact ends_user hplace h
  | ready a ret =>
      rw [hplace] at h hholds
      exact ends_ready hcfg hplaced.active hholds (hrun (by simp [hplace])) hs hplace h
  | waiting a ret =>
      rw [hplace] at h hholds
      exact ends_waiting hholds.1 hplace h
  | popping mem n v ret =>
      rw [hplace] at h
      cases n with
      | zero => exact ends_returning hplace h
      | succ n =>
          rw [ends_update_bind] at h
          exact ends_popping hs hplace h
  | shutdown =>
      rw [hplace] at h
      exact ends_shutdown hs hplace h
  | exited =>
      rw [hplace] at h
      obtain ⟨rfl, _⟩ := ends_stop.mp h
      exact .failed (by simp) (by simp)

theorem Model.Yields.not_exit {α : Type} {x : α} : ¬ s.Yields x (.error .exit) s' := nofun

/-- `ThreadCase` is about what follows an `exit`, too. -/
theorem ThreadCase.not_exit : ¬ ThreadCase s (.error .exit) s' := by
  intro h
  have hcalls : ∀ {b : ModelAction} {ret' : Ret}, ¬ Calls b ret' s (.error .exit) s' := by
    intro b ret' h
    cases h with
    | yields h => exact Model.Yields.not_exit h
  generalize hq : (Except.error Stop.exit : Except Stop Event) = q at h
  cases h with
  | called _ _ _ h => exact hcalls (hq ▸ h)
  | secondHalf _ _ _ h => exact hcalls (hq ▸ h)
  | lockAgain _ _ h => exact hcalls (hq ▸ h)
  | @blocked _ _ q _ _ _ _ h =>
      cases q with
      | ok _ => cases hq
      | error e =>
          cases hq
          exact Model.Yields.not_exit h
  | finished _ _ h => cases h <;> cases hq
  | userDone _ h => exact Model.Yields.not_exit (hq ▸ h)
  | _ => cases hq

/-- A step of the checker that comes back, or ends in a `DEADLOCK`, is one of the cases. -/
theorem threadCase_of_step (hcfg : cfg.memPoison = false) (hplaced : s.Placed) (hs : s.Attributed)
    (hrun : s.contextOf s.threadId ≠ .exited → s.Runs) (h : (step cfg i).Ends s r s')
    (hr : (∃ e, r = .ok e) ∨ r = .error .deadlock) : s.Runs ∧ ThreadCase s r s' := by
  have hplace : s.contextOf s.threadId ≠ .exited := by
    intro hplace
    have hfails : ∀ {q : Except Stop Event} {y : Model}, (resume cfg i).Ends s q y →
        q = .error .assertFailed := by
      intro q y h
      change (s.threads s.threadId).context = .exited at hplace
      rw [resume, ends_state_bind, hplace] at h
      exact (ends_stop.mp h).1
    rcases ends_onStop.mp h with ⟨h, _⟩ | ⟨s₁, h₁, _⟩
    · rw [hfails h] at hr
      rcases hr with ⟨e, he⟩ | he <;> cases he
    · cases hfails h₁
  refine ⟨hrun hplace, ?_⟩
  rcases ends_onStop.mp h with ⟨h, hne⟩ | ⟨s₁, h₁, h₂⟩
  · cases ends_resume hcfg hplaced hs hrun h with
    | step h => exact h
    | exits _ => exact absurd rfl hne
    | failed _ hdead =>
        rcases hr with ⟨e, he⟩ | he
        · cases he
        · cases he
          exact absurd rfl hdead
  · generalize hq : (Except.error Stop.exit : Except Stop Event) = q at h₁
    cases ends_resume hcfg hplaced hs hrun h₁ with
    | step h =>
        subst hq
        exact absurd h ThreadCase.not_exit
    | exits hexit =>
        obtain ⟨t, hnext, rfl, rfl⟩ | ⟨hnext, rfl, rfl⟩ | rfl := ends_exit h₂
        · exact .exited hexit hnext
        · exact .exitStuck hexit hnext
        · rcases hr with ⟨e, he⟩ | he <;> cases he
    | failed hexit _ =>
        cases hq
        exact absurd rfl hexit

end

end Cxlmc
