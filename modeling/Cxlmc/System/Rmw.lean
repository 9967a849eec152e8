import Cxlmc.System.Places

/-!
# Between the halves of a read-modify-write

From its `ATOMIC_RMWR` to its second half a thread keeps the token, and both its buffers stay empty
(`Model.RmwHeld`): no other thread runs, and only the thread itself could fill them.
-/

namespace Cxlmc

open Stateful

/-- The thread has read, and has not executed the second half yet. -/
def Context.isMidRmw : Context → Bool
  | .ready a _ => a.isSecondPartOfRmw
  | .popping _ _ _ (.rmw _) => true
  | _ => false

namespace Model

/-- A thread between the two halves has the token and nothing in its buffers. -/
def RmwHeld (s : Model) : Prop :=
  ∀ t, (s.contextOf t).isMidRmw = true → t = s.threadId ∧ s.Emptied t

theorem rmwHeld_init {n cxlMapping : Nat} {memory : Nat → Nat} {mutexType : MutexId → MutexType} :
    (Model.init n cxlMapping memory mutexType).RmwHeld := by
  intro t hmid
  cases hmid

theorem Emptied.of_memory {s s' : Model} {t : ThreadId} (h : s.Emptied t)
    (hmem : s'.toMemory = s.toMemory) : s'.Emptied t := by
  constructor
  · rw [hmem]
    exact h.storeBuffer
  · rw [hmem]
    exact h.flushBuffer

end Model

section

variable {cfg : Config} {s s' s₁ : Model} {a : ModelAction} {v : Nat} {rf : Slots} {e : Event}

/-- A thread that is not running does not get between the halves. -/
theorem Model.Leads.not_midRmw {t : ThreadId} {c : Context} (h : s.Leads t e c)
    (ht : t ≠ s.threadId) (hmid : c.isMidRmw = true) : (s.contextOf t).isMidRmw = true := by
  rcases h.other ht with rfl | rfl | rfl
  · exact hmid
  · cases hmid
  · cases hmid

/-- An `ATOMIC_RMWR` leaves the buffers empty. -/
theorem Executed.emptied_of_rmwr (hcfg : cfg.memPoison = false) (htype : a.type = .atomicRmwr)
    (h : Executed cfg a s v rf s') : s'.Emptied s.threadId := by
  have hload : a.isLoad = true := by simp [ModelAction.isLoad, htype]
  obtain ⟨s₁, s₂, s₃, hdrain, hidle, hread, hidle', _⟩ := h.load_parts hload
  rw [if_pos htype] at hdrain
  have hfirst : s₁.Emptied s.threadId := ⟨hdrain.storeBuffer, hdrain.flushBuffer⟩
  have hafter := hread.emptied hcfg (by simp) (hfirst.of_memory hidle.memory)
  exact hafter.of_memory hidle'.memory

/-- Every action that is a fence leaves the buffers empty. -/
theorem Executed.emptied (hcfg : cfg.memPoison = false) (hfence : a.isFence = true)
    (h : Executed cfg a s v rf s') : s'.Emptied s.threadId := by
  simp only [ModelAction.isFence, Bool.or_eq_true, Bool.and_eq_true, decide_eq_true_eq] at hfence
  by_cases htype : a.type = .atomicRmwr
  · exact h.emptied_of_rmwr hcfg htype
  cases h with
  | control _ hcontrol _ =>
      have hacc := not_access_of_isControl hcontrol
      rcases hfence with ((h | h) | h) | ⟨h, _⟩
      · exact absurd h htype
      · simp [ModelAction.isWrite, h] at hacc
      · simp [ModelAction.isControl, h] at hcontrol
      · rw [h, Bool.or_true] at hacc
        cases hacc
  | load hload _ _ _ _ _ =>
      simp only [ModelAction.isLoad, Bool.or_eq_true, decide_eq_true_eq] at hload
      rcases hload with (hl | hl) | hl <;> simp [ModelAction.isWrite, hl] at hfence htype
  | store hwrite hdrain =>
      have hcond : a.type = .atomicRmw ∨ a.isSeqCst = true := by
        rcases hfence with ((h | h) | h) | ⟨_, h⟩
        · exact absurd h htype
        · exact .inl h
        · simp [ModelAction.isWrite, h] at hwrite
        · exact .inr h
      rw [if_pos hcond] at hdrain
      exact ⟨hdrain.storeBuffer, hdrain.flushBuffer⟩
  | flush hbuf hwrite =>
      rcases hfence with ((h | h) | h) | ⟨h, _⟩
      · exact absurd h htype
      · simp [ModelAction.isWrite, h] at hwrite
      · simp [ModelAction.isBuffered, h] at hbuf
      · rw [h] at hwrite
        cases hwrite
  | mfence _ hdrain => exact ⟨hdrain.storeBuffer, hdrain.flushBuffer⟩
  | create hcreate _ => simp [ModelAction.isWrite, hcreate] at hfence

/-! ## Steps -/

/-- The steps that leave the running thread between the halves of a read-modify-write. -/
inductive MidStep (cfg : Config) (s : Model) : Event → Model → Prop where
  | read {a : ModelAction} {r : Rmw} {v n : Nat} {rf : Slots} {mem : ThreadId} {s₁ s' : Model}
      (hctx : s.contextOf s.threadId = .ready a (.rmw r)) (htype : a.type = .atomicRmwr)
      (h : Executed cfg (s.stamp a) (s.prepared a) v rf s₁)
      (hself : s₁.threadId = s.threadId) (h' : s₁.MovesTo s' (.popping mem n v (.rmw r))) :
      MidStep cfg s (.executed (s.stamp a) v rf) s'
  | popped {mem : ThreadId} {n v : Nat} {r : Rmw} {s' : Model}
      (hctx : s.contextOf s.threadId = .popping mem (n + 1) v (.rmw r))
      (h : (popFromStoreBuffer mem).Ends (s.setContext s.threadId (.popping mem n v (.rmw r)))
        (.ok ()) s')
      (hctx' : s'.contextOf s.threadId = .popping mem n v (.rmw r)) : MidStep cfg s (.popped mem) s'
  | secondHalf {mem : ThreadId} {v : Nat} {r : Rmw} {a : ModelAction} {ret : Ret} {s' : Model}
      (hctx : s.contextOf s.threadId = .popping mem 0 v (.rmw r))
      (ha : r.secondHalf s.threadId (toUint r.size v) = (a, ret))
      (h : s.MovesTo s' (.ready a ret)) : MidStep cfg s (.called a) s'

theorem StepCase.midStep (hcfg : cfg.memPoison = false) (hplaced : s.Placed)
    (h : StepCase cfg s e s') (hmid : (s'.contextOf s.threadId).isMidRmw = true) :
    MidStep cfg s e s' := by
  have hholds := hplaced.holds s.threadId
  cases h with
  | called _ _ _ hfirst h =>
      rw [h.context] at hmid
      exact absurd hmid (Bool.eq_false_iff.mp hfirst)
  | secondHalf hctx ha _ _ h => exact .secondHalf hctx ha h
  | lockAgain _ _ _ hfirst h =>
      rw [h.context] at hmid
      exact absurd hmid (Bool.eq_false_iff.mp hfirst)
  | @executed b ret v n rf t s₁ _ hctx h h' =>
      rw [hctx] at hholds
      -- of the calls only an RMW goes on behind its load
      have hself : s₁.threadId = s.threadId := (hplaced.executed_stays hcfg hctx h).activeThread
      rw [← hself, h'.context] at hmid
      cases ret with
      | rmw r => exact .read hctx hholds.rmwr.1 h hself h'
      | _ => cases hmid
  | @resumed b ret v n t _ hctx h =>
      rw [hctx] at hholds
      rw [h.context] at hmid
      cases ret with
      | rmw r =>
          have hsync := hholds.1
          simp [ModelAction.isSync, hholds.2.rmwr.1] at hsync
      | _ => cases hmid
  | blocked _ _ h => rw [h.context] at hmid; cases hmid
  | finished _ h => rw [h.context] at hmid; cases hmid
  | @popped mem n v ret _ hctx h =>
      -- a crash during the pop leaves no thread in an RMW
      have hset := Model.MovesTo.setContext s (.popping mem n v ret)
      have hstays := hplaced.popped_stays hcfg h
      rcases hstays.context s.threadId with hc | ⟨_, hc⟩
      · rw [hset.context] at hc
        rw [hc] at hmid
        cases ret with
        | rmw r => exact .popped hctx h hc
        | _ => cases hmid
      · rw [hc] at hmid
        cases hmid
  | returned _ h => rw [h.context] at hmid; cases hmid
  | wrote _ =>
      have hback := (Model.MovesTo.setContext s .user).context
      have hmid' : ((s.setContext s.threadId .user).contextOf s.threadId).isMidRmw = true := hmid
      rw [hback] at hmid'
      cases hmid'
  | noAction _ hc h =>
      rw [h.context] at hmid
      rcases hc with rfl | rfl <;> cases hmid
  | @exited s₁ _ hpath h =>
      obtain ⟨s₀, c, hmoves, hstays, _⟩ := hpath.moves hcfg hplaced
      have hself : s₁.threadId = s.threadId := hstays.activeThread.trans hmoves.token
      rw [← hself, h.gone] at hmid
      cases hmid

theorem StepCase.rmwHeld (hcfg : cfg.memPoison = false) (hplaced : s.Placed)
    (h : StepCase cfg s e s') (hheld : s.RmwHeld) : s'.RmwHeld := by
  intro t hmid
  by_cases ht : t = s.threadId
  swap
  · -- another thread would have been between the halves already
    exact absurd (hheld t ((h.leads hcfg hplaced t).not_midRmw ht hmid)).1 ht
  subst ht
  have hstep := h.midStep hcfg hplaced hmid
  clear hmid h
  cases hstep with
  | @read b r v n rf mem s₁ _ hctx htype h hself h' =>
      have hempty := h.emptied_of_rmwr hcfg ((s.stamp_type b).trans htype)
      rw [s.prepared_threadId] at hempty
      exact ⟨(h'.token.trans hself).symm, hempty.of_memory h'.memory⟩
  | @popped mem n v r _ hctx h _ =>
      have hbefore : (s.contextOf s.threadId).isMidRmw = true := by rw [hctx]; rfl
      have hset := Model.MovesTo.setContext s (.popping mem n v (.rmw r))
      have hgoes := (hplaced.pop_does cfg _ mem).returns h
      have hstays := Goes.stays hcfg (fun h => h) hgoes
      refine ⟨(hstays.activeThread.trans hset.token).symm, ?_⟩
      exact Goes.emptied hcfg hgoes (fun _ => id) ((hheld _ hbefore).2.of_memory hset.memory)
  | secondHalf hctx _ h =>
      have hbefore : (s.contextOf s.threadId).isMidRmw = true := by rw [hctx]; rfl
      exact ⟨h.token.symm, (hheld _ hbefore).2.of_memory h.memory⟩

/-- After a fence, or a comparison that fails, the buffers of the thread are empty. -/
theorem StepCase.emptied (hcfg : cfg.memPoison = false) (hplaced : s.Placed)
    (h : StepCase cfg s (.executed a v rf) s') (hheld : s.RmwHeld)
    (hfence : a.isFence = true ∨ a.type = .atomicCasFailed) : s'.Emptied s.threadId := by
  have hholds := hplaced.holds s.threadId
  cases h with
  | @executed b ret _ n _ t s₁ _ hctx h h' =>
      refine Model.Emptied.of_memory ?_ h'.memory
      rcases hfence with hfence | htype
      · have hempty := h.emptied hcfg hfence
        rw [s.prepared_threadId] at hempty
        exact hempty
      · -- a failed comparison is a second half
        rw [s.stamp_type] at htype
        have hmid : (s.contextOf s.threadId).isMidRmw = true := by
          rw [hctx]
          simp [Context.isMidRmw, ModelAction.isSecondPartOfRmw, htype]
        have hcontrol : b.isControl = true := by
          simp [ModelAction.isControl, ModelAction.isLoad, ModelAction.isBuffered, htype]
        rw [s.stamp_of_isControl hcontrol,
          s.prepared_of_not_access (not_access_of_isControl hcontrol)] at h
        exact (hheld _ hmid).2.of_memory (h.idle hcontrol).2.memory
  | resumed hctx _ =>
      rw [hctx] at hholds
      have hsync := hholds.1
      simp only [ModelAction.isSync, Bool.or_eq_true, decide_eq_true_eq] at hsync
      rcases hsync with ((((h | h) | h) | h) | h) | h <;>
        simp [ModelAction.isFence, ModelAction.isWrite, h] at hfence

end

end Cxlmc
