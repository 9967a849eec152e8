import Cxlmc.System.Run

/-!
# Where the threads go

A step moves the running thread from the place where it is suspended to the next one, and leaves the
others where they are, unless their process exits (`StepCase.leads`).
-/

namespace Cxlmc

open Stateful

/-- The places that a step with this event may lead thread `t` to. -/
inductive Model.Leads (s : Model) (t : ThreadId) : Event → Context → Prop where
  | stays (e : Event) : Leads s t e (s.contextOf t)
  | user (e : Event) : Leads s t e .user
  | shutdown (e : Event) (ht : t = s.threadId) : Leads s t e .shutdown
  | exited (e : Event) : Leads s t e .exited
  | ready {a : ModelAction} {ret : Ret} (ht : t = s.threadId) (hissued : Issued t a ret) :
      Leads s t (.called a) (.ready a ret)
  | waiting {a : ModelAction} {ret : Ret} (ht : t = s.threadId)
      (hctx : s.contextOf t = .ready a ret ∨ s.contextOf t = .waiting a ret) :
      Leads s t (.blocked a) (.waiting a ret)
  | popping {a : ModelAction} {ret : Ret} {v n : Nat} {rf : Slots} {mem : ThreadId}
      (ht : t = s.threadId)
      (hctx : s.contextOf t = .ready a ret ∨ s.contextOf t = .waiting a ret ∧ a.isSync = true) :
      Leads s t (.executed (s.stamp a) v rf) (.popping mem n v ret)
  | popped {mem : ThreadId} {n v : Nat} {ret : Ret} (ht : t = s.threadId)
      (hctx : s.contextOf t = .popping mem (n + 1) v ret) :
      Leads s t (.popped mem) (.popping mem n v ret)

section

variable {cfg : Config} {s s' s₁ : Model} {e : Event} {t : ThreadId} {c : Context} {b : ModelAction}

theorem Model.Stays.leads (h : s.Stays s') (h' : s.Leads t e (s.contextOf t)) :
    s.Leads t e (s'.contextOf t) := by
  rcases h.context t with hc | ⟨_, hc⟩
  · rw [hc]
    exact h'
  · rw [hc]
    exact .user e

/-- Only the running thread moves. -/
theorem Model.Suspends.leads (h : s.Suspends s' c) (hc : s.Leads s.threadId e c) :
    s.Leads t e (s'.contextOf t) := by
  by_cases ht : t = s.threadId
  · rw [ht, h.context]
    exact hc
  · rcases h.others t ht with hc' | ⟨_, hc'⟩
    · rw [hc']
      exact .stays e
    · rw [hc']
      exact .user e

/-- The same after a part of the step in which every thread stays where it is. -/
theorem Model.Stays.suspends_leads (h : s.Stays s₁) (h' : s₁.Suspends s' c)
    (hc : s.Leads s.threadId e c) : s.Leads t e (s'.contextOf t) := by
  have hself : s₁.threadId = s.threadId := h.activeThread
  by_cases ht : t = s.threadId
  · rw [ht, ← hself, h'.context, hself]
    exact hc
  · rcases h'.others t (hself ▸ ht) with hc' | ⟨_, hc'⟩
    · rw [hc']
      exact h.leads (.stays e)
    · rw [hc']
      exact .user e

/-- A thread that is not running stays where it is, or is put back into the program, or is gone. -/
theorem Model.Leads.other (h : s.Leads t e c) (ht : t ≠ s.threadId) :
    c = s.contextOf t ∨ c = .user ∨ c = .exited := by
  cases h with
  | stays _ => exact .inl rfl
  | user _ => exact .inr (.inl rfl)
  | exited _ => exact .inr (.inr rfl)
  | shutdown _ htid => exact absurd htid ht
  | ready htid _ => exact absurd htid ht
  | waiting htid _ => exact absurd htid ht
  | popping htid _ => exact absurd htid ht
  | popped htid _ => exact absurd htid ht

/-- Where a step leads the threads. -/
theorem StepCase.leads (hcfg : cfg.memPoison = false) (hplaced : s.Placed)
    (h : StepCase cfg s e s') (t : ThreadId) : s.Leads t e (s'.contextOf t) := by
  have hholds := hplaced.holds s.threadId
  cases h with
  | called _ hissued _ _ h => exact h.leads (.ready rfl hissued)
  | secondHalf _ _ hissued _ h => exact h.toSuspends.leads (.ready rfl hissued)
  | lockAgain _ hissued _ _ h => exact h.leads (.ready rfl hissued)
  | @executed b ret v n rf t' s₁ _ hctx h h' =>
      have hstays := hplaced.executed_stays hcfg hctx h
      exact hstays.suspends_leads h'.toSuspends (.popping rfl (.inl hctx))
  | @resumed b ret v n t' _ hctx h =>
      rw [hctx] at hholds
      have hb := s.stamp_of_isControl (ModelAction.isControl_of_isSync hholds.1)
      have hleads : s.Leads s.threadId (.executed (s.stamp b) v []) (.popping t' n v ret) :=
        .popping rfl (.inr ⟨hctx, hholds.1⟩)
      rw [hb] at hleads
      exact h.toSuspends.leads hleads
  | blocked hctx _ h => exact h.leads (.waiting rfl hctx)
  | finished _ h => exact h.leads (.exited _)
  | @popped mem n v ret _ hctx h =>
      -- a crash during the pop puts the threads of the process back into the program
      have hstays := hplaced.popped_stays hcfg h
      have hset := (Model.MovesTo.setContext s (.popping mem n v ret)).toSuspends
      rcases hstays.context t with hc | ⟨_, hc⟩
      · rw [hc]
        exact hset.leads (.popped rfl hctx)
      · rw [hc]
        exact .user _
  | returned _ h => exact h.toSuspends.leads (.user _)
  | wrote _ => exact (Model.MovesTo.setContext s .user).toSuspends.leads (.user _)
  | noAction _ hc h =>
      refine h.leads ?_
      rcases hc with rfl | rfl
      · exact .user _
      · exact .shutdown _ rfl
  | @exited s₁ _ hpath h =>
      obtain ⟨s₀, c, hmoves, hstays, _⟩ := hpath.moves hcfg hplaced
      have hself : s₁.threadId = s.threadId := hstays.activeThread.trans hmoves.token
      -- the thread that exits, and the others, which a crash or the shutdown may have taken along
      by_cases ht : t = s.threadId
      · rw [ht, ← hself, h.gone]
        exact .exited _
      · rcases h.others t with hc | hc | hc
        · rw [hc]
          exact .exited _
        · rw [hc]
          rcases hstays.context t with hc' | ⟨_, hc'⟩
          · rw [hc']
            rcases hmoves.others t ht with hc₀ | ⟨_, hc₀⟩
            · rw [hc₀]
              exact .stays _
            · rw [hc₀]
              exact .user _
          · rw [hc']
            exact .user _
        · rw [hc]
          exact .user _

/-- An action that is about to be executed was called before. -/
theorem StepCase.ready (hcfg : cfg.memPoison = false) (hplaced : s.Placed)
    (h : StepCase cfg s e s') {a : ModelAction} {ret : Ret} (hctx : s'.contextOf t = .ready a ret) :
    s.contextOf t = .ready a ret ∨ t = s.threadId ∧ Issued t a ret ∧ e = .called a := by
  have hleads := h.leads hcfg hplaced t
  generalize s'.contextOf t = c at hleads hctx
  cases hleads with
  | stays _ => exact .inl hctx
  | ready ht hissued =>
      cases hctx
      exact .inr ⟨ht, hissued, rfl⟩
  | _ => cases hctx

/-- The place of a thread in the popping loop. -/
def Context.isPopping (mem : ThreadId) (v : Nat) (ret : Ret) (c : Context) : Prop :=
  ∃ n, c = .popping mem n v ret

/-- A thread comes to the popping loop when `execute` returns. -/
theorem StepCase.popping (hcfg : cfg.memPoison = false) (hplaced : s.Placed)
    (h : StepCase cfg s e s') {mem : ThreadId} {v : Nat} {ret : Ret}
    (hpop : (s'.contextOf t).isPopping mem v ret) :
    (s.contextOf t).isPopping mem v ret ∨
      t = s.threadId ∧ ∃ b, Issued t b ret ∧ ∃ rf, e = .executed (s.stamp b) v rf := by
  have hleads := h.leads hcfg hplaced t
  have hholds := hplaced.holds t
  obtain ⟨n, hctx⟩ := hpop
  generalize s'.contextOf t = c at hleads hctx
  cases hleads with
  | stays _ => exact .inl ⟨n, hctx⟩
  | @popping b ret' _ _ rf _ ht hb =>
      cases hctx
      refine .inr ⟨ht, b, ?_, rf, rfl⟩
      rcases hb with hb | ⟨hb, _⟩ <;> rw [hb] at hholds
      · exact hholds
      · exact hholds.2
  | popped _ hbefore =>
      cases hctx
      exact .inl ⟨_, hbefore⟩
  | _ => cases hctx

/-! ## What is pushed -/

/-- What a step pushes is an entry of the running thread. -/
theorem StepCase.push_tid (hplaced : s.Placed) (h : StepCase cfg s e s')
    (hpush : Event.Allows s s' e (.push b)) : b.tid = s.threadId := by
  have hholds := hplaced.holds s.threadId
  cases hpush with
  | executes hexecutes =>
      cases h with
      | executed hctx _ _ =>
          rw [hctx] at hholds
          cases hexecutes with
          | push _ => exact (Issued.stamped (s := s) hholds).1.trans (s.prepared_threadId _)
          | drains _ hdrains => exact hdrains.elim
          | createPush _ _ => rfl
      | resumed hctx _ =>
          rw [hctx] at hholds
          cases hexecutes with
          | push _ => exact hholds.2.tid_eq.1
          | drains _ hdrains => exact hdrains.elim
          | createPush _ _ => rfl
  | pops hdrains => exact hdrains.elim
  | exitPush hctx _ _ =>
      rw [hctx] at hholds
      exact hholds.tid_eq.1
  | exitDrains _ _ _ hdrains => exact hdrains.elim
  | exitPops _ _ hdrains => exact hdrains.elim
  | exitShutdown _ hdrains =>
      obtain ⟨_, _, _, hdrains⟩ := hdrains
      exact hdrains.elim

/-- What is pushed was waiting to be executed. -/
theorem StepCase.pushed_cases (hplaced : s.Placed) (h : StepCase cfg s e s')
    (hpush : Event.Allows s s' e (.push b)) :
    ∃ a ret, s.contextOf s.threadId = .ready a ret ∧ (e = .exited ∨ ∃ v rf, e = .executed (s.stamp a) v rf) ∧
      (b = a.copy ∨ a.type = .pthreadCreate ∧ b.location = a.location ∧ b.size = 4) := by
  have hholds := hplaced.holds s.threadId
  cases hpush with
  | executes hexecutes =>
      cases h with
      | @executed a ret _ _ _ _ _ _ hctx _ _ =>
          cases hexecutes with
          | push _ => exact ⟨a, ret, hctx, .inr ⟨_, _, rfl⟩, .inl (s.stamp_copy a)⟩
          | drains _ hdrains => exact hdrains.elim
          | createPush htype _ =>
              have hloc : (s.stamp a).location = a.location := by
                unfold Model.stamp
                split <;> rfl
              rw [s.stamp_type] at htype
              exact ⟨a, ret, hctx, .inr ⟨_, _, rfl⟩, .inr ⟨htype, hloc, rfl⟩⟩
      | resumed hctx _ =>
          rw [hctx] at hholds
          have hcontrol := ModelAction.isControl_of_isSync hholds.1
          cases hexecutes with
          | push hbuf => simp [ModelAction.isControl, hbuf] at hcontrol
          | drains _ hdrains => exact hdrains.elim
          | createPush htype _ => simp [ModelAction.isControl, htype] at hcontrol
  | pops hdrains => exact hdrains.elim
  | exitPush hctx _ _ => exact ⟨_, _, hctx, .inl rfl, .inl rfl⟩
  | exitDrains _ _ _ hdrains => exact hdrains.elim
  | exitPops _ _ hdrains => exact hdrains.elim
  | exitShutdown _ hdrains =>
      obtain ⟨_, _, _, hdrains⟩ := hdrains
      exact hdrains.elim

/-- An entry of a buffer was there before, or the running thread has pushed it. -/
theorem StepCase.mem_storeBuffer (hcfg : cfg.memPoison = false) (hplaced : s.Placed)
    (h : StepCase cfg s e s') (hb : b ∈ (s'.threadMemory t).storeBuffer) :
    b ∈ (s.threadMemory t).storeBuffer ∨ t = s.threadId ∧ Event.Allows s s' e (.push b) := by
  suffices hall : ∀ u, ∀ d ∈ (s'.threadMemory u).storeBuffer,
      d ∈ (s.threadMemory u).storeBuffer ∨ u = s.threadId ∧ Event.Allows s s' e (.push d) from hall t b hb
  apply (h.goes hplaced).invariant (I := fun x => ∀ u, ∀ d ∈ (x.threadMemory u).storeBuffer,
    d ∈ (s.threadMemory u).storeBuffer ∨ u = s.threadId ∧ Event.Allows s s' e (.push d)) _
    fun _ _ hd => .inl hd
  intro x f y hf hx hstep u d hd
  rcases hstep.mem_storeBuffer hcfg hd with hd | ⟨rfl, hu⟩
  · exact hx u d hd
  · have hself : d.tid = x.threadId := by
      cases hstep with
      | push _ htid _ _ _ => exact htid
    exact .inr ⟨hu.trans (hself.symm.trans (h.push_tid hplaced hf)), hf⟩

end

end Cxlmc
