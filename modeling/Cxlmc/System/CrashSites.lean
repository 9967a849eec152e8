import Cxlmc.System.CrashedThreads
import Cxlmc.Threads.Serve
import Cxlmc.Threads.Shutdown

/-!
# Where the stores of a crashed process are left

The checker looks at `crashes` at the head of `Model::action` and where `process_store_buffer` chooses a
buffer. A thread behind the last of these tests pops the stores in front of it, whatever has happened to
their process meanwhile (`Model.leavesStores`). If none stands there after the steps that can bring it about
(`Model.crashSite`), then none ever does, and no step pops a store of a crashed process (`IsRun.spares`).
-/

namespace Cxlmc

open Stateful

namespace Model

/-- A store waits in the store buffer of `t`. -/
def holdsStore (s : Model) (t : ThreadId) : Bool := (s.threadMemory t).storeBuffer.any (·.isWrite)

/-- A store of the process waits in a buffer. -/
def hasStores (s : Model) (pid : ProcessId) : Bool :=
  (List.range s.threadCount).any fun t => decide ((s.threads t).processId = pid) && s.holdsStore t

/-- `t` is behind the last test of `crashes` with stores of the process in front of it: those that a fence
pops, those that `process_shutdown` pops, or those that are left to the loop of `process_store_buffer`. -/
def popsLater (s : Model) (pid : ProcessId) (t : ThreadId) : Bool :=
  match s.contextOf t with
  | .ready a _ =>
      decide ((s.threads t).processId = pid) && a.isFence && (a.isWrite || s.holdsStore t)
  | .shutdown => decide ((s.threads t).processId = pid) && s.hasStores pid
  | .popping mem n _ _ =>
      decide ((s.threads mem).processId = pid) &&
        ((s.threadMemory mem).storeBuffer.take n).any (·.isWrite)
  | _ => false

/-- Some thread will pop stores of the process without another test of `crashes`. -/
def leavesStores (s : Model) (pid : ProcessId) : Bool :=
  (List.range s.threadCount).any (s.popsLater pid)

/-- The steps after which stores of `pid` may be left: another process has put it in `crashes`, or the
running thread, of a process that is in `crashes` already, has gone through `execute` or called
`user_done`. -/
def crashSite (s s' : Model) (pid : ProcessId) : Bool :=
  decide (pid ∉ s.crashes) && decide (pid ≠ s.processId) ||
    s.isCrashed s.processId && (s.executes ||
      decide (s.contextOf s.threadId = .user) && decide (s'.contextOf s.threadId = .shutdown))

/-- The next step pops a store of a crashed process: a fence or `process_shutdown` in a process that
crashed during its `yield`, or a round of `process_store_buffer` after the process of the buffer has
crashed. -/
def popsCrashed (s : Model) : Bool :=
  match s.contextOf s.threadId with
  | .ready a _ =>
      s.isCrashed s.processId && a.isFence && (a.isWrite || s.holdsStore s.threadId)
  | .shutdown =>
      s.isCrashed s.processId && (List.range s.threadCount).any fun t =>
        decide ((s.threads t).processId = s.processId) && s.holdsStore t
  | .popping mem (_ + 1) _ _ =>
      s.isCrashed (s.threads mem).processId && (s.threadMemory mem).storeBuffer.head?.any (·.isWrite)
  | _ => false

/-- No stores of crashed processes are left. Only the running thread is in the loop of
`process_store_buffer`. -/
structure Spared (s : Model) : Prop where
  running : ∀ t mem n v ret, s.contextOf t = .popping mem n v ret → t = s.threadId
  none_left : ∀ p ∈ s.crashes, ∀ t, t < s.threadCount → s.popsLater p t = false

end Model

section

variable {cfg : Config} {s s' s₁ : Model} {e : Event} {t : ThreadId} {p : ProcessId}

theorem Model.popsLater_ready {a : ModelAction} {ret : Ret} (hctx : s.contextOf t = .ready a ret) :
    s.popsLater p t =
      (decide ((s.threads t).processId = p) && a.isFence && (a.isWrite || s.holdsStore t)) := by
  rw [Model.popsLater, hctx]

theorem Model.popsLater_shutdown (hctx : s.contextOf t = .shutdown) :
    s.popsLater p t = (decide ((s.threads t).processId = p) && s.hasStores p) := by
  rw [Model.popsLater, hctx]

theorem Model.popsLater_popping {mem : ThreadId} {n v : Nat} {ret : Ret}
    (hctx : s.contextOf t = .popping mem n v ret) :
    s.popsLater p t = (decide ((s.threads mem).processId = p) &&
      ((s.threadMemory mem).storeBuffer.take n).any (·.isWrite)) := by
  rw [Model.popsLater, hctx]

/-! ## The buffer that `process_store_buffer` chooses -/

/-- Where the loop over the threads ends at a process that is not live, none of those it has passed is. -/
theorem Model.not_live_of_threadToPop {n : Nat} (ht : t < s.threadCount)
    (h : s.isLive (s.threads (s.threadToPop n t)).processId = false) {k : Nat} (hk : k < n) :
    s.isLive (s.threads ((t + k) % s.threadCount)).processId = false := by
  induction n generalizing t k with
  | zero => cases hk
  | succ n ih =>
      rw [Model.threadToPop] at h
      by_cases hlive : s.isLive (s.threads t).processId = true
      · rw [if_pos hlive, hlive] at h
        cases h
      · rw [if_neg hlive] at h
        cases k with
        | zero =>
            rw [Nat.add_zero, Nat.mod_eq_of_lt ht]
            exact Bool.eq_false_iff.mpr hlive
        | succ k =>
            have hnext := ih (Nat.mod_lt _ (Nat.zero_lt_of_lt ht)) h (Nat.lt_of_succ_lt_succ hk)
            rw [Nat.mod_add_mod, Nat.add_assoc, Nat.add_comm 1 k] at hnext
            exact hnext

/-- With one live thread the loop finds one. -/
theorem Model.threadToPop_live {u : ThreadId} (hu : u < s.threadCount)
    (hlive : s.isLive (s.threads u).processId = true) (ht : t < s.threadCount) :
    s.isLive (s.threads (s.threadToPop s.threadCount t)).processId = true := by
  by_contra hnot
  have hall : ∀ k, k < s.threadCount →
      s.isLive (s.threads ((t + k) % s.threadCount)).processId = false :=
    fun _ hk => Model.not_live_of_threadToPop ht (Bool.eq_false_iff.mpr hnot) hk
  have hpassed : ∃ k, k < s.threadCount ∧ (t + k) % s.threadCount = u := by
    by_cases hut : u = t
    · exact ⟨0, Nat.zero_lt_of_lt hu, by rw [hut, Nat.add_zero, Nat.mod_eq_of_lt ht]⟩
    · obtain ⟨k, hk, hround⟩ := Model.exists_round hu ht hut
      exact ⟨k + 1, Nat.add_lt_of_lt_sub hk, hround⟩
  obtain ⟨k, hk, hku⟩ := hpassed
  have hnot := hall k hk
  rw [hku, hlive] at hnot
  cases hnot

/-- The buffer that a live process starts to pop is one of a live process. -/
theorem ends_finishAction_live {a : ModelAction} {ret : Ret} {i : Input} {v : Nat} {rf : Slots}
    {r : Except Stop Event} (h : (finishAction a ret i (.done v rf)).Ends s r s')
    (hlt : s'.activeThread < s'.threadCount) (hlive : s'.isLive s'.processId = true) :
    ∃ mem n w ret', s'.contextOf s'.threadId = .popping mem n w ret' ∧
      s'.isLive (s'.threads mem).processId = true := by
  rw [finishAction, ends_update_bind] at h
  generalize s.setPending s.threadId none = x at h
  rcases ends_bind.mp h with ⟨_, s₂, h₁, h₂⟩ | ⟨_, h₁, _⟩
  swap
  · rw [processStoreBuffer, ends_state_bind] at h₁
    cases (ends_update.mp h₁).1
  obtain ⟨_, rfl⟩ := ends_pure.mp h₂
  rw [processStoreBuffer, ends_state_bind] at h₁
  obtain ⟨_, rfl⟩ := ends_update.mp h₁
  have hpid : ∀ c u, ((x.setContext x.threadId c).threads u).processId = (x.threads u).processId := by
    intro c u
    rw [Model.setContext, Model.setThread_threads]
    split <;> rfl
  refine ⟨_, _, _, _, (Model.MovesTo.setContext x _).context, ?_⟩
  rw [hpid]
  rw [Model.processId, hpid] at hlive
  have hstart : i.rand % x.threadCount < x.threadCount := Nat.mod_lt _ (Nat.zero_lt_of_lt hlt)
  exact x.threadToPop_live hlt hlive hstart

/-! ## One step -/

theorem Model.holdsStore_iff : s.holdsStore t = true ↔
    ∃ b ∈ (s.threadMemory t).storeBuffer, b.isWrite = true := List.any_eq_true

/-- A store that waits after a step waited before, or the running thread has gone through `execute`. -/
theorem StepCase.holdsStore_cases (hcfg : cfg.memPoison = false) (hplaced : s.Placed)
    (h : StepCase cfg s e s') (hst : s'.holdsStore t = true) :
    s.holdsStore t = true ∨ t = s.threadId ∧ s.executes = true := by
  obtain ⟨b, hb, hw⟩ := Model.holdsStore_iff.mp hst
  rcases h.mem_storeBuffer hcfg hplaced hb with hb | ⟨ht, hpush⟩
  · exact .inl (Model.holdsStore_iff.mpr ⟨b, hb, hw⟩)
  · obtain ⟨a, ret, hctx, _⟩ := h.pushed_cases hplaced hpush
    refine .inr ⟨ht, ?_⟩
    rw [Model.executes, hctx]

theorem StepCase.hasStores_of (hcfg : cfg.memPoison = false) (hplaced : s.Placed) (hr : s.Recorded)
    (h : StepCase cfg s e s') (hquiet : s.processId = p → s.executes = false)
    (hst : s'.hasStores p = true) : s.hasStores p = true := by
  have hprocess : ∀ u, u < s.threadCount → (s'.threads u).processId = (s.threads u).processId :=
    fun u hu => (Goes.keepsProcess hcfg (h.goes hplaced) hu).2.2
  simp only [Model.hasStores, List.any_eq_true, List.mem_range, Bool.and_eq_true, decide_eq_true_eq]
    at hst ⊢
  obtain ⟨u, _, hpid, hholds⟩ := hst
  rcases h.holdsStore_cases hcfg hplaced hholds with hold | ⟨rfl, hexec⟩
  · obtain ⟨b, hb, _⟩ := Model.holdsStore_iff.mp hold
    obtain ⟨_, hu, _⟩ := hr.buffered u b hb
    exact ⟨u, hu, (hprocess u hu).symm.trans hpid, hold⟩
  · rw [hquiet ((hprocess _ hplaced.active).symm.trans hpid)] at hexec
    cases hexec

/-- A thread that stays where it is does not get more stores in front of it. -/
theorem StepCase.popsLater_of (hcfg : cfg.memPoison = false) (hplaced : s.Placed) (hr : s.Recorded)
    (h : StepCase cfg s e s') (hspared : s.Spared) (ht : t < s.threadCount) (hother : t ≠ s.threadId)
    (hctx : s'.contextOf t = s.contextOf t) (hquiet : s.processId = p → s.executes = false)
    (hpops : s'.popsLater p t = true) : s.popsLater p t = true := by
  have hprocess := (Goes.keepsProcess hcfg (h.goes hplaced) ht).2.2
  cases hc : s.contextOf t with
  | ready a ret =>
      rw [Model.popsLater_ready (hctx.trans hc), hprocess] at hpops
      rw [Model.popsLater_ready hc]
      simp only [Bool.and_eq_true, Bool.or_eq_true] at hpops ⊢
      obtain ⟨hfence, hst⟩ := hpops
      refine ⟨hfence, hst.imp id fun hholds => ?_⟩
      exact (h.holdsStore_cases hcfg hplaced hholds).resolve_right fun h => hother h.1
  | shutdown =>
      rw [Model.popsLater_shutdown (hctx.trans hc), hprocess, Bool.and_eq_true] at hpops
      rw [Model.popsLater_shutdown hc, Bool.and_eq_true]
      exact ⟨hpops.1, h.hasStores_of hcfg hplaced hr hquiet hpops.2⟩
  | popping mem n v ret => exact absurd (hspared.running t mem n v ret hc) hother
  | _ =>
      rw [Model.popsLater, hctx, hc] at hpops
      cases hpops

/-- The place of the running thread after a step with this event. -/
inductive Model.Arrives (s s' : Model) : Event → Context → Prop where
  | ready {a : ModelAction} {ret : Ret} (hlive : s.isCrashed s.processId = false) :
      Arrives s s' (.called a) (.ready a ret)
  | shutdown (hctx : s.contextOf s.threadId = .user) : Arrives s s' .noAction .shutdown
  | popping {a : ModelAction} {v w n : Nat} {rf : Slots} {mem : ThreadId} {ret : Ret}
      (hexec : s.executes = true) (htoken : s'.threadId = s.threadId) :
      Arrives s s' (.executed a v rf) (.popping mem n w ret)
  | popped {mem : ThreadId} {n v : Nat} {ret : Ret}
      (hctx : s.contextOf s.threadId = .popping mem (n + 1) v ret) (htoken : s'.threadId = s.threadId)
      (hbuf : (s'.threadMemory mem).storeBuffer = (s.threadMemory mem).storeBuffer.tail) :
      Arrives s s' (.popped mem) (.popping mem n v ret)
  | user {e : Event} : Arrives s s' e .user
  | waiting {e : Event} {a : ModelAction} {ret : Ret} : Arrives s s' e (.waiting a ret)
  | exited {e : Event} : Arrives s s' e .exited

theorem StepCase.arrives (hcfg : cfg.memPoison = false) (hplaced : s.Placed) (h : StepCase cfg s e s') :
    s.Arrives s' e (s'.contextOf s.threadId) := by
  cases h with
  | called _ _ hlive _ h => exact h.context ▸ .ready hlive
  | secondHalf _ _ _ hlive h => exact h.context ▸ .ready hlive
  | lockAgain _ _ hlive _ h => exact h.context ▸ .ready hlive
  | @executed b ret v n rf mem s₁ _ hctx h h' =>
      have hself : s₁.threadId = s.threadId := (hplaced.executed_stays hcfg hctx h).activeThread
      rw [← hself, h'.context]
      exact .popping (by rw [Model.executes, hctx]) (h'.token.trans hself)
  | resumed hctx h => exact h.context ▸ .popping (by rw [Model.executes, hctx]) h.token
  | blocked _ _ h => exact h.context ▸ .waiting
  | finished _ h => exact h.context ▸ .exited
  | @popped mem n v ret _ hctx h =>
      have hset := Model.MovesTo.setContext s (.popping mem n v ret)
      have hstays := hplaced.popped_stays hcfg h
      rcases hstays.context s.threadId with hc | ⟨_, hc⟩
      · rw [hc, hset.context]
        refine .popped hctx hstays.activeThread ?_
        have hseq : (s.setContext s.threadId (.popping mem n v ret)).Unclocked mem := hplaced.unclocked mem
        rw [popFromStoreBuffer_storeBuffer hseq h mem, if_pos rfl]
        rfl
      · rw [hc]
        exact .user
  | returned _ h => exact h.context ▸ .user
  | wrote _ =>
      have hset := (Model.MovesTo.setContext s .user).context
      show Model.Arrives _ _ _ ((s.setContext s.threadId .user).contextOf s.threadId)
      rw [hset]
      exact .user
  | noAction hctx hc h =>
      rw [h.context]
      rcases hc with rfl | rfl
      · exact .user
      · exact .shutdown hctx
  | exited hpath h =>
      obtain ⟨s₀, c, hmoves, hstays, _⟩ := hpath.moves hcfg hplaced
      have hself : _ = s.threadId := hstays.activeThread.trans hmoves.token
      rw [← hself]
      exact h.gone ▸ .exited

/-- The loop of `process_store_buffer` has nothing left of a process of which it had nothing left before. -/
theorem Model.popsLater_tail {mem : ThreadId} {n v : Nat} {ret : Ret} (hr : s.Recorded)
    (hprocess : ∀ u, u < s.threadCount → (s'.threads u).processId = (s.threads u).processId)
    (hctx : s.contextOf t = .popping mem (n + 1) v ret) (hc : s'.contextOf t = .popping mem n v ret)
    (hbuf : (s'.threadMemory mem).storeBuffer = (s.threadMemory mem).storeBuffer.tail)
    (hnone : s.popsLater p t = false) : s'.popsLater p t = false := by
  rw [Model.popsLater_popping hctx] at hnone
  rw [Model.popsLater_popping hc, hbuf]
  by_contra hpops
  simp only [Bool.not_eq_false, Bool.and_eq_true, decide_eq_true_eq, List.any_eq_true] at hpops
  obtain ⟨hpid, b, hb, hw⟩ := hpops
  -- the entries that are left now were left before
  have hbuf' : b ∈ (s.threadMemory mem).storeBuffer.take (n + 1) := by
    cases hbuf₀ : (s.threadMemory mem).storeBuffer with
    | nil =>
        rw [hbuf₀, List.tail_nil, List.take_nil] at hb
        cases hb
    | cons c rest =>
        rw [hbuf₀] at hb
        exact List.mem_cons_of_mem c hb
  obtain ⟨_, hmem, _⟩ := hr.buffered mem b (List.mem_of_mem_take hbuf')
  rw [hprocess mem hmem] at hpid
  have hany : ((s.threadMemory mem).storeBuffer.take (n + 1)).any (·.isWrite) = true :=
    List.any_eq_true.mpr ⟨b, hbuf', hw⟩
  rw [hany, decide_eq_true hpid] at hnone
  cases hnone

/-- The running thread comes to no place with stores of a crashed process in front of it, but at the
sites. -/
theorem SysStep.running_spared {l : Label} (hcfg : cfg.memPoison = false) (hs : s.Underway)
    (hended : s'.Ended) (hspared : s.Spared) (h : SysStep cfg s l s') (hp : p ∈ s'.crashes)
    (hsite : s.crashSite s' p = false) : s'.popsLater p s.threadId = false := by
  obtain ⟨_, _, _, hs'⟩ := hs.sysStep hcfg h
  obtain ⟨_, hcase⟩ := stepCase_of_sysStep hcfg hs.placed h
  have hprocess : ∀ u, u < s.threadCount → (s'.threads u).processId = (s.threads u).processId :=
    fun u hu => (Goes.keepsProcess hcfg (hcase.goes hs.placed) hu).2.2
  have hown : (s'.threads s.threadId).processId = s.processId := hprocess _ hs.placed.active
  simp only [Model.crashSite, Bool.or_eq_false_iff, Bool.and_eq_false_iff, decide_eq_false_iff_not,
    not_not] at hsite
  obtain ⟨hold, hquiet⟩ := hsite
  have harrives := hcase.arrives hcfg hs.placed
  generalize he : l.event = ev at harrives hcase
  -- a process that goes on has not crashed in this step
  have hbefore : ev ≠ .exited → p ∈ s.crashes := by
    intro hev
    rcases hold with hold | rfl
    · exact hold
    · rw [← Model.isCrashed_iff, ← hcase.spares_own hcfg hs.placed hev]
      exact Model.isCrashed_iff.mpr hp
  have hlives : ev ≠ .exited → s.isCrashed s.processId = false → s.processId ≠ p := by
    rintro hev hlive rfl
    rw [Model.isCrashed_iff.mpr (hbefore hev)] at hlive
    cases hlive
  generalize hc : s'.contextOf s.threadId = c at harrives
  cases harrives with
  | ready hlive =>
      rw [Model.popsLater_ready hc, hown, decide_eq_false (hlives (by simp) hlive)]
      rfl
  | shutdown hctx =>
      have hlive : s.isCrashed s.processId = false := by
        simpa [hctx, hc] using hquiet
      rw [Model.popsLater_shutdown hc, hown, decide_eq_false (hlives (by simp) hlive)]
      rfl
  | @popping a v w n rf mem ret hexec htoken =>
      have hlive : s.isCrashed s.processId = false := by
        simpa [hexec] using hquiet
      have hself : s'.processId = s.processId := by
        rw [Model.processId, ← Model.threadId, htoken, hown]
      have hruns' : s'.Runs := hs'.awake (by rw [htoken, hc]; simp)
      have hlive' : s'.isLive s'.processId = true := by
        have hsame := hcase.spares_own hcfg hs.placed (by simp)
        have hcompleted := hended.live hs'.peopled hruns'
        rw [hself] at hcompleted ⊢
        simp [Model.isLive, Model.isCompleted, hsame, hlive, hcompleted]
      obtain ⟨_, i, s₁, hfinish, _⟩ := h.executes hcfg hs.placed he
      obtain ⟨mem', n', w', ret', hc', hmem⟩ := ends_finishAction_live hfinish hs'.placed.active hlive'
      rw [htoken, hc] at hc'
      cases hc'
      have hne : (s'.threads mem).processId ≠ p := by
        rintro rfl
        rw [Model.isLive, Model.isCrashed_iff.mpr hp] at hmem
        cases hmem
      rw [Model.popsLater_popping hc, decide_eq_false hne]
      rfl
  | @popped mem n v ret hctx htoken hbuf =>
      exact Model.popsLater_tail hs.recorded hprocess hctx hc hbuf
        (hspared.none_left p (hbefore (by simp)) s.threadId hs.placed.active)
  | user => rw [Model.popsLater, hc]
  | waiting => rw [Model.popsLater, hc]
  | exited => rw [Model.popsLater, hc]

/-- A process that crashes itself takes its threads along. -/
theorem StepCase.popsLater_own (hcfg : cfg.memPoison = false) (hplaced : s.Placed) (hspared : s.Spared)
    (h : StepCase cfg s .exited s') (ht : t < s.threadCount) (hother : t ≠ s.threadId)
    (hctx : s'.contextOf t = s.contextOf t) : s'.popsLater s.processId t = false := by
  have hprocess := (Goes.keepsProcess hcfg (h.goes hplaced) ht).2.2
  by_cases hpid : (s.threads t).processId = s.processId
  · rw [Model.popsLater, h.exited_own hcfg hplaced ht hpid]
  · rw [Model.popsLater, hctx, hprocess, decide_eq_false hpid]
    cases hc : s.contextOf t with
    | popping mem n v ret => exact absurd (hspared.running t mem n v ret hc) hother
    | _ => rfl

/-- The threads that are not running have no more stores of crashed processes in front of them, but at the
sites. -/
theorem SysStep.others_spared {l : Label} (hcfg : cfg.memPoison = false) (hs : s.Underway)
    (hspared : s.Spared) (h : SysStep cfg s l s') (hp : p ∈ s'.crashes)
    (hsite : s.crashSite s' p = false) (hother : t ≠ s.threadId) : s'.popsLater p t = false := by
  obtain ⟨_, hcase⟩ := stepCase_of_sysStep hcfg hs.placed h
  simp only [Model.crashSite, Bool.or_eq_false_iff, Bool.and_eq_false_iff, decide_eq_false_iff_not,
    not_not] at hsite
  obtain ⟨hold, hquiet⟩ := hsite
  obtain hplace | hplace | hplace := (hcase.leads hcfg hs.placed t).other hother
  swap
  · rw [Model.popsLater, hplace]
  swap
  · rw [Model.popsLater, hplace]
  by_cases ht : t < s.threadCount
  swap
  · have hfresh : s.contextOf t = .user := by
      rw [Model.contextOf, hs.peopled.fresh t (Nat.le_of_not_lt ht)]
      rfl
    rw [Model.popsLater, hplace, hfresh]
  by_cases hbefore : p ∈ s.crashes
  · have hnone := hspared.none_left p hbefore t ht
    rw [← Bool.not_eq_true]
    intro hpops
    rw [hcase.popsLater_of hcfg hs.placed hs.recorded hspared ht hother hplace _ hpops] at hnone
    · cases hnone
    · rintro rfl
      rw [Model.isCrashed_iff.mpr hbefore] at hquiet
      exact (hquiet.resolve_left (by simp)).1
  · obtain rfl := hold.resolve_left hbefore
    by_cases he : l.event = .exited
    · rw [he] at hcase
      exact hcase.popsLater_own hcfg hs.placed hspared ht hother hplace
    · rw [← Model.isCrashed_iff, ← hcase.spares_own hcfg hs.placed he] at hbefore
      exact absurd (Model.isCrashed_iff.mpr hp) hbefore

/-- A step leaves no store of a crashed process, but at the sites. -/
theorem SysStep.spared {l : Label} (hcfg : cfg.memPoison = false) (hs : s.Underway) (hended : s'.Ended)
    (hspared : s.Spared)
    (hsites : ∀ p, p ∈ s'.crashes → s.crashSite s' p = true → s'.leavesStores p = false)
    (h : SysStep cfg s l s') : s'.Spared := by
  obtain ⟨_, _, _, hs'⟩ := hs.sysStep hcfg h
  obtain ⟨_, hcase⟩ := stepCase_of_sysStep hcfg hs.placed h
  constructor
  case running =>
    intro t mem n v ret hc
    have hself : t = s.threadId := by
      by_contra hother
      obtain hplace | hplace | hplace := (hcase.leads hcfg hs.placed t).other hother
      · exact hother (hspared.running t mem n v ret (hplace.symm.trans hc))
      · cases hplace.symm.trans hc
      · cases hplace.symm.trans hc
    subst hself
    have harrives := hcase.arrives hcfg hs.placed
    rw [hc] at harrives
    generalize l.event = e at harrives
    cases harrives with
    | popping _ htoken => exact htoken.symm
    | popped _ htoken _ => exact htoken.symm
  case none_left =>
    intro p hp t ht
    cases hsite : s.crashSite s' p with
    | true =>
        have hnone := hsites p hp hsite
        rw [Model.leavesStores, List.any_eq_false] at hnone
        exact Bool.eq_false_iff.mpr (hnone t (List.mem_range.mpr ht))
    | false =>
        by_cases hself : t = s.threadId
        · subst hself
          exact h.running_spared hcfg hs hended hspared hp hsite
        · exact h.others_spared hcfg hs hspared hp hsite hself

/-- Where no stores of crashed processes are left, the next step pops none. -/
theorem Model.Spared.popsCrashed (h : s.Spared) (hlt : s.activeThread < s.threadCount) :
    s.popsCrashed = false := by
  rw [Model.popsCrashed]
  cases hc : s.contextOf s.threadId with
  | ready a ret =>
      rw [← Bool.not_eq_true]
      simp only [Bool.and_eq_true]
      rintro ⟨⟨hcrashed, hfence⟩, hst⟩
      have hnone := h.none_left _ (Model.isCrashed_iff.mp hcrashed) s.threadId hlt
      have hown : (s.threads s.threadId).processId = s.processId := rfl
      rw [Model.popsLater_ready hc] at hnone
      simp [hown, hfence, hst] at hnone
  | shutdown =>
      rw [← Bool.not_eq_true, Bool.and_eq_true]
      rintro ⟨hcrashed, hst⟩
      have hnone := h.none_left _ (Model.isCrashed_iff.mp hcrashed) s.threadId hlt
      have hown : (s.threads s.threadId).processId = s.processId := rfl
      have hst' : s.hasStores s.processId = true := hst
      rw [Model.popsLater_shutdown hc] at hnone
      simp [hown, hst'] at hnone
  | popping mem n v ret =>
      cases n with
      | zero => rfl
      | succ n =>
          rw [← Bool.not_eq_true]
          simp only [Bool.and_eq_true]
          rintro ⟨hcrashed, hst⟩
          have hnone := h.none_left _ (Model.isCrashed_iff.mp hcrashed) s.threadId hlt
          rw [Model.popsLater_popping hc] at hnone
          cases hbuf : (s.threadMemory mem).storeBuffer with
          | nil =>
              rw [hbuf] at hst
              cases hst
          | cons b rest =>
              rw [hbuf] at hst hnone
              have hb : b.isWrite = true := hst
              simp [hb] at hnone
  | _ => rfl

/-! ## Runs -/

theorem Model.spared_init {n cxlMapping : Nat} {memory : Nat → Nat} {mutexType : MutexId → MutexType} :
    (Model.init n cxlMapping memory mutexType).Spared := by
  constructor
  · intro t mem n v ret hc
    cases hc
  · intro p hp
    exact absurd hp (AList.notMem_empty p)

/-- If no site of a run leaves stores of a crashed process, no step of the run pops one. -/
theorem IsRun.spares {n cxlMapping : Nat} {memory : Nat → Nat} {mutexType : MutexId → MutexType}
    {tr : List (Model × Label)} (hcfg : cfg.memPoison = false)
    (hrun : IsRun cfg n cxlMapping memory mutexType tr s')
    (hsites : ∀ x ∈ stepsOf tr s', ∀ p, p ∈ x.2.2.crashes → x.1.crashSite x.2.2 p = true →
      x.2.2.leavesStores p = false) :
    ∀ x ∈ stepsOf tr s', x.1.popsCrashed = false := by
  obtain ⟨hn, hrun⟩ := hrun
  obtain ⟨hall, _⟩ := hrun.invariant_stepsOf (P := fun s => s.Underway ∧ s.Counted ∧ s.Spared) (by
    intro s l s₁ hmem hp hs
    obtain ⟨hunderway, hcounted, hspared⟩ := hp
    obtain ⟨_, hruns, hcase, hunderway₁⟩ := hunderway.sysStep hcfg hs
    have hcounted₁ := hcase.counted hruns hunderway.peopled hcounted
    exact ⟨hunderway₁, hcounted₁, hs.spared hcfg hunderway hcounted₁.ended hspared (hsites _ hmem)⟩)
    ⟨Model.underway_init hn, Model.counted_init.1, Model.spared_init⟩
  intro x hx
  obtain ⟨⟨hunderway, _, hspared⟩, _⟩ := hall x hx
  exact hspared.popsCrashed hunderway.placed.active

end

end Cxlmc
