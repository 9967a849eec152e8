import Cxlmc.Threads.Run
import Mathlib.Data.Finset.Card

/-!
# The status of the processes

A process is live, or it has crashed, or it has completed. `process_shutdown` yields before it
completes its process and does not look at `crashes` afterwards, so a process can do both;
`statuses_partition` says that this is the only way in which the counts go wrong.
-/

namespace Cxlmc

open Stateful

/-! ## Completed processes are done -/

namespace Model

/-- No thread of a completed process goes on. -/
def Ended (s : Model) : Prop :=
  ∀ pid ∈ s.completedProcs, ∀ t, t < s.threadCount → (s.threads t).processId = pid →
    (s.threads t).isCompleted = true

/-- The crashes after a step: at most one process more, the first one, that has not completed. -/
inductive Gains (s : Model) : Crashes → Prop where
  | none : Gains s s.crashes
  | one {pid : ProcessId} (clock : Nat) (hfirst : s.crashes = ∅) (hlt : pid < s.processCount)
      (hnot : pid ∉ s.completedProcs) : Gains s (s.crashes.emplace pid clock)

end Model

/-- The thread keeps its process, and if it is done it stays as it is. -/
structure Thread.GoesOn (th th' : Thread) : Prop where
  processId : th'.processId = th.processId
  state : th.isCompleted = true → th'.state = th.state

theorem Thread.GoesOn.refl (th : Thread) : th.GoesOn th := ⟨rfl, fun _ => rfl⟩

theorem Thread.GoesOn.isCompleted {th th' : Thread} (h : th.GoesOn th')
    (hdone : th.isCompleted = true) : th'.isCompleted = true := by
  rw [Thread.isCompleted, h.state hdone]
  exact hdone

theorem Thread.GoesOn.trans {th th' th'' : Thread} (h : th.GoesOn th') (h' : th'.GoesOn th'') :
    th.GoesOn th'' :=
  ⟨h'.processId.trans h.processId,
    fun hdone => (h'.state (h.isCompleted hdone)).trans (h.state hdone)⟩

theorem Thread.AfterCrash.goesOn {pid : ProcessId} {th th' : Thread} (h : th.AfterCrash pid th') :
    th.GoesOn th' := by
  cases h with
  | same => exact .refl th
  | woken hblocked => exact ⟨rfl, by simp [Thread.isCompleted, hblocked]⟩
  | crashed _ hgoes => exact ⟨rfl, fun hdone => absurd (hgoes.symm.trans hdone) (by decide)⟩

section

variable {s s' s₁ : Model} {a : ModelAction} {ret : Ret} {α : Type}

theorem Model.Runs.goes (h : s.Runs) : (s.threads s.threadId).isCompleted = false := by
  rw [Thread.isCompleted, h]
  rfl

/-- A running thread is not done, whatever it does next. -/
theorem Model.Runs.goesOn (h : s.Runs) {t : ThreadId} {th : Thread} (hself : t = s.threadId)
    (hprocess : th.processId = (s.threads t).processId) : (s.threads t).GoesOn th := by
  subst hself
  refine ⟨hprocess, fun hdone => ?_⟩
  rw [h.goes] at hdone
  cases hdone

theorem Model.Turns.goesOn {t : ThreadId} {th : Thread} (h : s.Turns t th) :
    (s.threads t).GoesOn th := by
  cases h with
  | same => exact .refl _
  | goes hself hrun hprocess _ => exact hrun.goesOn hself hprocess
  | woken hblocked hprocess _ => exact ⟨hprocess, by simp [Thread.isCompleted, hblocked]⟩

theorem Model.terminated_goesOn (s : Model) (ts : List ThreadId) (t : ThreadId) :
    (s.threads t).GoesOn ((s.terminated ts).threads t) := by
  rw [s.terminated_threads]
  split
  · next hends => exact ⟨rfl, fun hdone => absurd (hends.2.2.symm.trans hdone) nofun⟩
  · exact .refl _

theorem Model.gone_goesOn (s : Model) (t : ThreadId) : (s.threads t).GoesOn (s.gone.threads t) := by
  rw [s.gone_threads]
  split
  · refine ⟨rfl, fun hdone => if_neg ?_⟩
    rw [hdone]
    exact fun hends => absurd hends.2 nofun
  · exact .refl _

/-- What a move does to the threads that there were. -/
theorem ThreadStep.goesOn (h : ThreadStep s s') (t : ThreadId) (ht : t < s.threadCount) :
    (s.threads t).GoesOn (s'.threads t) := by
  cases h with
  | work h =>
      rw [h.threads]
      exact .refl _
  | place c hrun _ => exact (hrun.setContext_turns c t).goesOn
  | call a ret hrun => exact (hrun.called_turns a ret t).goesOn
  | back c hrun _ => exact (hrun.backAt_turns c t).goesOn
  | pass _ _ _ => exact .refl _
  | acquire m hrun _ _ => exact (hrun.acquired_turns m t).goesOn
  | recount _ _ _ => exact .refl _
  | release m hrun _ => exact (hrun.released_turns m t).goesOn
  | create _ =>
      rw [s.newThread_threads, if_neg (Nat.ne_of_lt ht)]
      exact .refl _
  | notifyOne c => exact (s.wakeOne_turns (.cond c) t).goesOn
  | notifyAll c => exact (s.wakeAll_turns _ t).goesOn
  | wait a ret hrun _ _ =>
      rw [s.waits_threads]
      split
      · next hu => exact hrun.goesOn hu rfl
      · exact .refl _
  | finish v hrun =>
      rw [s.finishes_threads]
      split
      · next hu => exact hrun.goesOn hu rfl
      · exact (s.wakeAll_turns _ t).goesOn
  | shutdown _ _ => exact s.terminated_goesOn (List.range s.threadCount) t
  | die _ h =>
      rw [h.state]
      exact ((s.crash s.processId).processCrash_afterCrash t).goesOn
  | dieLate _ _ => exact (s.processCrash_afterCrash t).goesOn
  | dieInShutdown ts _ _ _ h =>
      rw [h.state]
      exact (s.terminated_goesOn ts t).trans
        (((s.terminated ts).crash (s.terminated ts).processId).processCrash_afterCrash t).goesOn
  | leave _ => exact s.gone_goesOn t

/-- What has crashed stays crashed. -/
theorem ThreadStep.crashed (h : ThreadStep s s') (hp : s.Peopled) {t : ThreadId}
    (ht : (s.threads t).state = .crashed) : (s'.threads t).state = .crashed := by
  have hlt : t < s.threadCount := by
    by_contra hle
    rw [hp.fresh t (Nat.le_of_not_lt hle)] at ht
    cases ht
  rw [(h.goesOn t hlt).state (by simp [Thread.isCompleted, ht]), ht]

/-! ## The two sets after a step -/

/-- Nobody has crashed and nobody has completed. -/
structure Model.SameStatus (s s' : Model) : Prop where
  crashes : s'.crashes = s.crashes
  completedProcs : s'.completedProcs = s.completedProcs

theorem Model.SameStatus.trans {s'' : Model} (h : s.SameStatus s') (h' : s'.SameStatus s'') :
    s.SameStatus s'' :=
  ⟨h'.crashes.trans h.crashes, h'.completedProcs.trans h.completedProcs⟩

theorem Model.Yields.sameStatus {x : α} {q : Except Stop α} (h : s.Yields x q s') :
    s.SameStatus s' := by
  cases h with
  | next _ => exact ⟨rfl, rfl⟩
  | alone _ _ => exact ⟨rfl, rfl⟩
  | stuck _ _ => exact ⟨rfl, rfl⟩

theorem Model.LastYields.sameStatus {q : Except Stop Bool} (h : s.LastYields q s') :
    s.SameStatus s' := by
  cases h with
  | next _ => exact ⟨rfl, rfl⟩
  | last _ => exact ⟨rfl, rfl⟩
  | stuck _ => exact ⟨rfl, rfl⟩

theorem Calls.sameStatus {r : Except Stop Event} (h : Calls a ret s r s') : s.SameStatus s' := by
  have hcalled : s.SameStatus (s.called a ret) := ⟨rfl, rfl⟩
  cases h with
  | stays => exact hcalled
  | yields h => exact hcalled.trans h.sameStatus

theorem Waits.sameStatus (h : Waits a s s₁) : s.SameStatus s₁ := by
  cases h with
  | stays _ _ => exact ⟨rfl, rfl⟩
  | gives _ => exact ⟨rfl, rfl⟩

theorem Model.processCrash_sameStatus (s : Model) : s.SameStatus s.processCrash := by
  refine Model.processCrash_induction (P := fun x => s.SameStatus x) ⟨rfl, rfl⟩ ?_
  intro x i _ _ hx
  unfold Model.crashThread
  split
  · exact hx.trans ⟨rfl, rfl⟩
  · exact hx

/-- Code that may crash one other process and completes none. -/
structure Model.Risks (s s' : Model) : Prop where
  crashes : s.Gains s'.crashes
  completedProcs : s'.completedProcs = s.completedProcs

theorem Model.SameStatus.risks (h : s.SameStatus s') : s.Risks s' := by
  refine ⟨?_, h.completedProcs⟩
  rw [h.crashes]
  exact .none

theorem Model.Risks.of_same (h : s₁.Risks s') (hsame : s.SameStatus s₁)
    (hcount : s₁.processCount = s.processCount) : s.Risks s' := by
  refine ⟨?_, h.completedProcs.trans hsame.completedProcs⟩
  have hgains := h.crashes
  generalize s'.crashes = c at hgains
  cases hgains with
  | none =>
      rw [hsame.crashes]
      exact .none
  | one clock hfirst hlt hnot =>
      rw [hsame.crashes] at hfirst ⊢
      rw [hcount] at hlt
      rw [hsame.completedProcs] at hnot
      exact .one clock hfirst hlt hnot

theorem Model.Risks.same {s'' : Model} (h : s.Risks s') (h' : s'.SameStatus s'') : s.Risks s'' := by
  refine ⟨?_, h'.completedProcs.trans h.completedProcs⟩
  rw [h'.crashes]
  exact h.crashes

theorem Model.Works.risks (h : s.Works s') (hp : s.Peopled) : s.Risks s' := by
  refine ⟨?_, h.completedProcs⟩
  have hloses := h.crashes
  generalize s'.crashes = c at hloses
  cases hloses with
  | none => exact .none
  | one clock hfirst hpid =>
      obtain ⟨⟨t, ht, rfl⟩, _, hnot⟩ := hpid
      refine .one clock hfirst (hp.process t ht) ?_
      simpa [Model.isCompleted] using hnot

theorem Acts.risks (h : Acts a s s₁) (hp : s.Peopled) : s.Risks s₁ := by
  have hsame : ∀ {x : Model}, x.crashes = s.crashes → x.completedProcs = s.completedProcs →
      s.Risks x := fun hcrashes hcompleted => Model.SameStatus.risks ⟨hcrashes, hcompleted⟩
  cases h with
  | work _ h => exact h.risks hp
  | create _ h =>
      have hnew := h.risks hp.newThread
      refine ⟨?_, hnew.completedProcs⟩
      have hgains := hnew.crashes
      generalize s₁.crashes = c at hgains
      cases hgains with
      | none => exact .none
      | one clock hfirst hlt hnot => exact .one clock hfirst hlt hnot
  | notifyOne _ =>
      have heq := s.wakeThreadWaitingOn_eq (.cond a.location)
      exact hsame (congrArg (·.crashes) heq) (congrArg (·.completedProcs) heq)
  | _ => exact hsame rfl rfl

/-- A process that is crashed by its own thread has not completed. -/
theorem Model.Risks.dies (h : s.Risks s₁) (hdies : s₁.Dies s') (hprocess : s₁.processId = s.processId)
    (hp : s.Peopled) (hlive : s.processId ∉ s.completedProcs) : s.Risks s' := by
  rw [hdies.state]
  suffices hrisks : s.Risks (s₁.crash s₁.processId) from hrisks.same (Model.processCrash_sameStatus _)
  refine ⟨?_, h.completedProcs⟩
  have hnone : s.crashes = ∅ := by
    have hgains := h.crashes
    rw [hdies.first] at hgains
    generalize hc : (∅ : Crashes) = c at hgains
    cases hgains with
    | none => rfl
    | one clock _ _ _ => exact absurd hc.symm (emplace_ne_empty _ _ _)
  show s.Gains (s₁.crashes.emplace s₁.processId s₁.nextSequenceNum)
  rw [hdies.first, ← hnone, hprocess]
  exact .one _ hnone hp.processId_lt hlive

/-- The two sets after a step: a process completes only where it goes on in `process_shutdown`. -/
inductive Model.Statuses (s s' : Model) : Prop where
  | risks (h : s.Risks s')
  | completes (hctx : s.contextOf s.threadId = .shutdown) (hcrashes : s.Gains s'.crashes)
      (hown : s'.isCrashed s.processId = s.isCrashed s.processId)
      (hcompleted : s'.completedProcs = insert s.processId s.completedProcs)

theorem ThreadExit.statuses (h : ThreadExit s s₁) (hp : s.Peopled)
    (hlive : s.processId ∉ s.completedProcs) : s.Statuses s₁ := by
  cases h with
  | quit _ => exact .risks (Model.SameStatus.risks ⟨rfl, rfl⟩)
  | late _ _ => exact .risks s.processCrash_sameStatus.risks
  | lateBack _ _ =>
      have hset : s.SameStatus (s.setContext s.threadId .user) := ⟨rfl, rfl⟩
      exact .risks (hset.trans (Model.processCrash_sameStatus _)).risks
  | @died s₀ s₂ _ h hworks hdies =>
      have hfirst : s.SameStatus s₀ ∧ s₀.processCount = s.processCount ∧
          s₀.processId = s.processId ∧ s₀.Peopled := by
        rcases h with rfl | ⟨mem, n, v, ret, _, rfl⟩
        · exact ⟨⟨rfl, rfl⟩, rfl, rfl, hp⟩
        · exact ⟨⟨rfl, rfl⟩, rfl, s.setContext_processId _, hp.setThread hp.active rfl⟩
      obtain ⟨hsame, hcount, hprocess, hp₀⟩ := hfirst
      have hrisks := (hworks.risks hp₀).of_same hsame hcount
      exact .risks (hrisks.dies hdies (hworks.processId.trans hprocess) hp hlive)
  | @shutdown s₂ hctx hworks =>
      have hrisks := hworks.risks hp
      refine .completes hctx hrisks.crashes ?_ ?_
      · -- the flushes crash another process, if any
        show s₂.isCrashed s.processId = s.isCrashed s.processId
        have hloses := hworks.crashes
        rw [Model.isCrashed, Model.isCrashed]
        generalize s₂.crashes = c at hloses
        cases hloses with
        | none => rfl
        | one clock _ hpid =>
            have hother : s.processId ≠ _ := hpid.other.symm
            simp [Crashes.mem_emplace, hother]
      · show insert s₂.processId s₂.completedProcs = _
        rw [hworks.processId, hworks.completedProcs]
  | @shutdownDied s₂ _ ts hctx hworks hts hdies =>
      have hsame : s₂.SameStatus (s₂.terminated ts) := ⟨rfl, rfl⟩
      have hrisks := (hworks.risks hp).same hsame
      exact .risks (hrisks.dies hdies ((s₂.terminated_processId ts).trans hworks.processId) hp hlive)

theorem Model.Statuses.same {s'' : Model} (h : s.Statuses s') (h' : s'.SameStatus s'') :
    s.Statuses s'' := by
  cases h with
  | risks h => exact .risks (h.same h')
  | completes hctx hcrashes hown hcompleted =>
      refine .completes hctx ?_ ?_ (h'.completedProcs.trans hcompleted)
      · rw [h'.crashes]
        exact hcrashes
      · rw [← hown, Model.isCrashed, Model.isCrashed, h'.crashes]

/-- What a step does to the status of the processes. -/
theorem ThreadCase.statuses {r : Except Stop Event} (h : ThreadCase s r s') (hp : s.Peopled)
    (hlive : s.processId ∉ s.completedProcs) : s.Statuses s' := by
  have hset : ∀ c, s.SameStatus (s.setContext s.threadId c) := fun c => ⟨rfl, rfl⟩
  have hworks : ∀ {c : Context}, (s.setContext s.threadId c).Works s' → s.Statuses s' := by
    intro c h
    have hp₀ : (s.setContext s.threadId c).Peopled := hp.setThread hp.active rfl
    exact .risks ((h.risks hp₀).of_same (hset c) rfl)
  cases h with
  | called _ _ _ h => exact .risks h.sameStatus.risks
  | secondHalf _ _ _ h => exact .risks h.sameStatus.risks
  | lockAgain _ _ h => exact .risks h.sameStatus.risks
  | executed _ _ hacts => exact .risks ((hacts.risks hp).same ⟨rfl, rfl⟩)
  | resumed _ _ hacts => exact .risks ((hacts.risks hp).same ⟨rfl, rfl⟩)
  | @blocked a ret _ s₁ _ _ hwaits h =>
      have hwait : s₁.SameStatus (s₁.waits a ret) := ⟨rfl, rfl⟩
      exact .risks ((hwaits.sameStatus.trans hwait).trans h.sameStatus).risks
  | @finished _ _ v _ _ _ _ h =>
      have hfinish : s.SameStatus (s.finishes v) := ⟨rfl, rfl⟩
      exact .risks (hfinish.trans h.sameStatus).risks
  | relocks => exact .risks (Model.SameStatus.risks ⟨rfl, rfl⟩)
  | popped _ h => exact hworks h
  | returned _ _ h => exact hworks h
  | noAction _ h => exact .risks (h.risks hp)
  | userDone _ h => exact .risks ((hset _).trans h.sameStatus).risks
  | exited hexit _ => exact (hexit.statuses hp hlive).same ⟨rfl, rfl⟩
  | exitStuck hexit _ => exact (hexit.statuses hp hlive).same ⟨rfl, rfl⟩

/-! ## Completed processes stay done -/

theorem Model.Ended.kept (h : s.Ended) (hcompleted : s'.completedProcs = s.completedProcs)
    (hcount : s'.threadCount = s.threadCount)
    (hthreads : ∀ t, t < s.threadCount → (s.threads t).GoesOn (s'.threads t)) : s'.Ended := by
  intro pid hpid t ht hproc
  rw [hcompleted] at hpid
  rw [hcount] at ht
  have hgoes := hthreads t ht
  exact hgoes.isCompleted (h pid hpid t ht (hgoes.processId ▸ hproc))

/-- The process of a running thread has not completed. -/
theorem Model.Ended.live (h : s.Ended) (hp : s.Peopled) (hrun : s.Runs) :
    s.processId ∉ s.completedProcs := by
  intro hmem
  have hdone := h _ hmem s.threadId hp.active rfl
  rw [hrun.goes] at hdone
  cases hdone

theorem Model.Ended.terminated (h : s.Ended) (ts : List ThreadId) : (s.terminated ts).Ended :=
  h.kept rfl rfl fun t _ => s.terminated_goesOn ts t

theorem Model.Ended.processCrash (h : s.Ended) : s.processCrash.Ended :=
  h.kept s.processCrash_sameStatus.completedProcs s.processCrash_threadCount
    fun t _ => (s.processCrash_afterCrash t).goesOn

theorem Model.Ended.dies (h : s.Ended) (hdies : s.Dies s') : s'.Ended := by
  rw [hdies.state]
  exact Model.Ended.processCrash (s := s.crash s.processId) h

theorem Model.Ended.gone (h : s.Ended) : s.gone.Ended :=
  h.kept rfl rfl fun t _ => s.gone_goesOn t

theorem ThreadStep.ended (h : ThreadStep s s') (hp : s.Peopled) (hs : s.Ended) : s'.Ended := by
  have hgoes := h.goesOn
  cases h with
  | work h => exact hs.kept h.completedProcs (by rw [h.scheduler]) hgoes
  | create hrun =>
      intro pid hpid t ht hproc
      rw [s.newThread_threads] at hproc ⊢
      split at hproc
      · -- a running thread makes threads for its own process, which has not completed
        have hown : s.processId = pid := hproc
        rw [← hown] at hpid
        exact absurd hpid (hs.live hp hrun)
      · next hne =>
          rw [if_neg hne]
          exact hs pid hpid t (Nat.lt_of_le_of_ne (Nat.lt_succ_iff.mp ht) hne) hproc
  | notifyOne c =>
      have heq := s.wakeThreadWaitingOn_eq (.cond c)
      exact hs.kept (congrArg (·.completedProcs) heq) (congrArg (·.threadCount) heq) hgoes
  | shutdown _ _ =>
      intro pid hpid t ht hproc
      have hstate := s.terminated_threads t (List.range s.threadCount)
      change ((s.terminated (List.range s.threadCount)).threads t).processId = pid at hproc
      show ((s.terminated (List.range s.threadCount)).threads t).isCompleted = true
      rcases Finset.mem_insert.mp hpid with rfl | hpid
      · rw [hstate] at hproc ⊢
        split
        · rfl
        · next hnot =>
            rw [if_neg hnot] at hproc
            by_contra hgo
            exact hnot ⟨List.mem_range.mpr ht, hproc, Bool.eq_false_iff.mpr hgo⟩
      · exact hs.terminated _ pid hpid t ht hproc
  | die _ h => exact hs.dies h
  | dieLate _ _ => exact hs.processCrash
  | dieInShutdown ts _ _ _ h => exact (hs.terminated ts).dies h
  | _ => exact hs.kept rfl rfl hgoes

theorem Model.Quits.ended (h : s.Quits s') (hs : s.Ended) : s'.Ended := by
  obtain ⟨t, _, rfl⟩ | ⟨_, rfl⟩ := h.passes
  · exact hs.gone
  · exact hs.gone

end

/-! ## The counts -/

namespace Model

/-- No process has both crashed and completed, and `get_live_process_count()` is the number of the
processes that are live. -/
def Partitioned (s : Model) : Prop :=
  (∀ pid, s.isCrashed pid = true → s.isCompleted pid = false) ∧
    s.getLiveProcessCount = ((Finset.range s.processCount).filter fun pid => s.isLive pid).card

/-- The crashed and the completed are processes, and the completed ones are done. -/
structure Counted (s : Model) : Prop where
  crashed : ∀ pid ∈ s.crashes, pid < s.processCount
  completed : ∀ pid ∈ s.completedProcs, pid < s.processCount
  ended : s.Ended

section

variable {s s' : Model}

/-- The count is right where the two sets are disjoint. -/
theorem Counted.partitioned (h : s.Counted)
    (hdisjoint : ∀ pid, s.isCrashed pid = true → s.isCompleted pid = false) : s.Partitioned := by
  refine ⟨hdisjoint, ?_⟩
  let crashed : Finset ProcessId := s.crashes.keys.toFinset
  have hcrashed : crashed.card = s.crashes.size :=
    List.toFinset_card_of_nodup s.crashes.keys_nodup
  have hmem : ∀ pid, pid ∈ crashed ↔ pid ∈ s.crashes := by
    intro pid
    rw [List.mem_toFinset]
    exact AList.mem_keys.symm
  have hdisj : Disjoint crashed s.completedProcs := by
    rw [Finset.disjoint_left]
    intro pid hpid hdone
    have hnot := hdisjoint pid (by simpa [isCrashed] using (hmem pid).mp hpid)
    simp [isCompleted, hdone] at hnot
  have hsub : crashed ∪ s.completedProcs ⊆ Finset.range s.processCount := by
    intro pid hpid
    rw [Finset.mem_range]
    rcases Finset.mem_union.mp hpid with hpid | hpid
    · exact h.crashed pid ((hmem pid).mp hpid)
    · exact h.completed pid hpid
  have hlive : ((Finset.range s.processCount).filter fun pid => s.isLive pid) =
      Finset.range s.processCount \ (crashed ∪ s.completedProcs) := by
    ext pid
    simp [isLive, isCrashed, isCompleted, hmem, Finset.mem_sdiff, Finset.mem_filter]
  have hcard := Finset.card_sdiff_of_subset hsub
  have hle := Finset.card_le_card hsub
  rw [Finset.card_union_of_disjoint hdisj, Finset.card_range, hcrashed] at hcard hle
  rw [hlive, getLiveProcessCount, getCrashedProcessCount, getCompletedProcessCount, hcard]
  omega

theorem Gains.mem {c : Crashes} (h : s.Gains c) {pid : ProcessId} (hpid : pid ∈ c) :
    pid ∈ s.crashes ∨ pid < s.processCount ∧ pid ∉ s.completedProcs := by
  cases h with
  | none => exact .inl hpid
  | one clock _ hlt hnot =>
      rcases Crashes.mem_emplace.mp hpid with rfl | hpid
      · exact .inr ⟨hlt, hnot⟩
      · exact .inl hpid

end

end Model

/-! ## Runs -/

section

variable {s s' : Model}

theorem Model.processCrash_processCount (s : Model) :
    s.processCrash.processCount = s.processCount := by
  refine Model.processCrash_induction (P := fun x => x.processCount = s.processCount) rfl ?_
  intro x i _ _ hx
  unfold Model.crashThread
  split
  · exact hx
  · exact hx

theorem ThreadStep.processCount (h : ThreadStep s s') : s'.processCount = s.processCount := by
  cases h with
  | work h => rw [h.scheduler]
  | notifyOne c => exact congrArg (·.processCount) (s.wakeThreadWaitingOn_eq _)
  | die _ h =>
      rw [h.state]
      exact (s.crash s.processId).processCrash_processCount
  | dieLate _ _ => exact s.processCrash_processCount
  | dieInShutdown ts _ _ _ h =>
      rw [h.state]
      exact ((s.terminated ts).crash (s.terminated ts).processId).processCrash_processCount
  | _ => rfl

theorem Model.Quits.processCount (h : s.Quits s') : s'.processCount = s.processCount := by
  obtain ⟨t, _, rfl⟩ | ⟨_, rfl⟩ := h.passes <;> rfl

theorem ThreadCase.counted {e : Event} (h : ThreadCase s (.ok e) s') (hrun : s.Runs)
    (hp : s.Peopled) (hs : s.Counted) : s'.Counted := by
  have hcount : s'.processCount = s.processCount :=
    h.invariant (P := fun x => x.processCount = s.processCount)
      (fun _ hx hmove => hmove.processCount.trans hx) (fun h hx => h.processCount.trans hx) hrun hp rfl
  have hended : s'.Ended :=
    h.invariant (fun hx hs hmove => hmove.ended hx hs) (fun h hs => h.ended hs) hrun hp hs.ended
  have hcrashed : s.Gains s'.crashes → ∀ pid ∈ s'.crashes, pid < s'.processCount := by
    intro hgains pid hpid
    rw [hcount]
    rcases hgains.mem hpid with hpid | ⟨hlt, _⟩
    · exact hs.crashed pid hpid
    · exact hlt
  cases h.statuses hp (hs.ended.live hp hrun) with
  | risks h =>
      refine ⟨hcrashed h.crashes, ?_, hended⟩
      rw [h.completedProcs, hcount]
      exact hs.completed
  | completes _ hcrashes _ hcompleted =>
      refine ⟨hcrashed hcrashes, ?_, hended⟩
      rw [hcompleted, hcount]
      intro pid hpid
      rcases Finset.mem_insert.mp hpid with rfl | hpid
      · exact hp.processId_lt
      · exact hs.completed pid hpid

/-- A step keeps the two sets disjoint unless its process has crashed and goes on in
`process_shutdown`. -/
theorem ThreadCase.disjoint {e : Event} (h : ThreadCase s (.ok e) s') (hrun : s.Runs)
    (hp : s.Peopled) (hs : s.Counted)
    (hguard : s.contextOf s.threadId = .shutdown → s.isCrashed s.processId = false)
    (hdisjoint : ∀ pid, s.isCrashed pid = true → s.isCompleted pid = false) :
    ∀ pid, s'.isCrashed pid = true → s'.isCompleted pid = false := by
  intro pid hpid
  have hmem : pid ∈ s'.crashes := by simpa [Model.isCrashed] using hpid
  have hold : s.Gains s'.crashes → s.isCompleted pid = false := by
    intro hgains
    rcases hgains.mem hmem with hold | ⟨_, hnot⟩
    · exact hdisjoint pid (by simpa [Model.isCrashed] using hold)
    · simpa [Model.isCompleted] using hnot
  cases h.statuses hp (hs.ended.live hp hrun) with
  | risks h =>
      rw [Model.isCompleted, h.completedProcs]
      exact hold h.crashes
  | completes hctx hcrashes hown hcompleted =>
      have hne : pid ≠ s.processId := by
        rintro rfl
        rw [hown, hguard hctx] at hpid
        cases hpid
      have hnot := hold hcrashes
      simp only [Model.isCompleted, decide_eq_false_iff_not] at hnot ⊢
      rw [hcompleted, Finset.mem_insert]
      rintro (heq | hdone)
      · exact hne heq
      · exact hnot hdone

/-- A process that has crashed and goes on in `process_shutdown` completes. -/
theorem ThreadCase.completes_crashed {e : Event} (h : ThreadCase s (.ok e) s')
    (hctx : s.contextOf s.threadId = .shutdown) (hcrashed : s.isCrashed s.processId = true) :
    s'.isCrashed s.processId = true ∧ s'.isCompleted s.processId = true := by
  have hne : s.crashes ≠ ∅ := by
    intro hnone
    simp [Model.isCrashed, hnone] at hcrashed
  -- the process is not crashed a second time
  have hlives : ∀ {s₁ s₂ : Model}, s.Works s₁ → s₁.crashes ≠ ∅ → s₁.Dies s₂ → False :=
    fun _ hne hdies => hne hdies.first
  have hkept : ∀ {s₁ : Model}, s.Works s₁ → s₁.crashes = s.crashes := by
    intro s₁ hworks
    have hloses := hworks.crashes
    generalize s₁.crashes = c at hloses
    cases hloses with
    | none => rfl
    | one _ hfirst _ => exact absurd hfirst hne
  generalize hr : (Except.ok e : Except Stop Event) = r at h
  cases h with
  | exited hexit hnext =>
      cases hexit with
      | quit hplace => rw [hctx] at hplace; cases hplace
      | late hplace _ => rw [hctx] at hplace; cases hplace
      | lateBack hplace _ => rw [hctx] at hplace; cases hplace
      | died hplace hworks hdies =>
          rcases hplace with rfl | ⟨_, _, _, _, hplace, _⟩
          · exact absurd hdies.first (hkept hworks ▸ hne)
          · rw [hctx] at hplace
            cases hplace
      | @shutdown s₂ _ hworks =>
          constructor
          · show s₂.isCrashed s.processId = true
            rw [Model.isCrashed, hkept hworks]
            exact hcrashed
          · show decide (s.processId ∈ insert s₂.processId s₂.completedProcs) = true
            simp [hworks.processId]
      | @shutdownDied s₂ _ ts _ hworks _ hdies =>
          have hfirst : s₂.crashes = ∅ := hdies.first
          exact absurd hfirst (hkept hworks ▸ hne)
  | called hplace _ _ _ => rw [hctx] at hplace; cases hplace
  | secondHalf hplace _ _ _ => rw [hctx] at hplace; cases hplace
  | lockAgain hplace _ _ => rw [hctx] at hplace; cases hplace
  | executed hplace _ _ => rw [hctx] at hplace; cases hplace
  | resumed hplace _ _ => rw [hctx] at hplace; cases hplace
  | blocked hplace _ _ => rcases hplace with hplace | hplace <;> rw [hctx] at hplace <;> cases hplace
  | finished hplace _ _ => rw [hctx] at hplace; cases hplace
  | relocks => cases hr
  | popped hplace _ => rw [hctx] at hplace; cases hplace
  | returned hplace _ _ => rw [hctx] at hplace; cases hplace
  | noAction hplace _ => rw [hctx] at hplace; cases hplace
  | userDone hplace _ => rw [hctx] at hplace; cases hplace
  | exitStuck _ _ => cases hr

end

section

variable {cfg : Config} {n cxlMapping : Nat} {memory : Nat → Nat} {mutexType : MutexId → MutexType}
  {tr : List (Model × Label)} {s' : Model}

theorem Model.counted_init :
    (Model.init n cxlMapping memory mutexType).Counted ∧
      ∀ pid, (Model.init n cxlMapping memory mutexType).isCrashed pid = true →
        (Model.init n cxlMapping memory mutexType).isCompleted pid = false := by
  refine ⟨⟨?_, ?_, ?_⟩, ?_⟩
  · exact fun pid hpid => absurd hpid (AList.notMem_empty pid)
  · exact fun pid hpid => absurd hpid (Finset.notMem_empty pid)
  · exact fun pid hpid => absurd hpid (Finset.notMem_empty pid)
  · exact fun _ _ => rfl

/-- The status of the processes is a partition in every state of a run if and only if no process that
has crashed goes on in `process_shutdown`. -/
theorem statuses_partition (hcfg : cfg.memPoison = false)
    (hrun : IsRun cfg n cxlMapping memory mutexType tr s') :
    ((∀ x ∈ stepsOf tr s', x.1.Partitioned ∧ x.2.2.Partitioned) ∧ s'.Partitioned) ↔
      ∀ x ∈ stepsOf tr s', x.1.contextOf x.1.threadId = .shutdown →
        x.1.isCrashed x.1.processId = false := by
  constructor
  · rintro ⟨hall, _⟩ x hx hctx
    obtain ⟨_, _, _, _, hcase⟩ :=
      (hrun.threads hcfg (P := fun _ => True) trivial fun _ _ _ _ _ _ _ _ => trivial).1 x hx
    by_contra hcrashed
    obtain ⟨hboth, hdone⟩ := hcase.completes_crashed hctx (by simpa using hcrashed)
    rw [(hall x hx).2.1 _ hboth] at hdone
    cases hdone
  · intro hguard
    obtain ⟨hall, _, hcounted, hdisjoint⟩ := hrun.threads hcfg
      (P := fun s => s.Counted ∧ ∀ pid, s.isCrashed pid = true → s.isCompleted pid = false)
      Model.counted_init (by
      intro s l s₁ hmem hs hruns hinv hcase
      exact ⟨hcase.counted hruns hs.peopled hinv.1,
        hcase.disjoint hruns hs.peopled hinv.1 (hguard _ hmem) hinv.2⟩)
    refine ⟨?_, hcounted.partitioned hdisjoint⟩
    intro x hx
    obtain ⟨hs, hinv, _, hruns, hcase⟩ := hall x hx
    refine ⟨hinv.1.partitioned hinv.2, ?_⟩
    exact (hcase.counted hruns hs.peopled hinv.1).partitioned
      (hcase.disjoint hruns hs.peopled hinv.1 (hguard x hx) hinv.2)

end

/-- Process 1 writes to a word three times and is suspended in `process_shutdown`; process 0 reads the
word, which crashes process 1, and passes the token back. -/
def shutdownAfterCrash : List (Input × List Nat) :=
  [({ call := .schedYield }, []),
   ({ call := .store 4096 .w64 1 }, []), ({}, []), ({}, []),
   ({ call := .store 4096 .w64 2 }, []), ({}, []), ({}, []),
   ({ call := .store 4096 .w64 3 }, []), ({ rand := 1, random := 2 }, []), ({}, []), ({}, []),
   ({}, []),
   ({ call := .userDone }, []),
   ({}, []), ({}, []),
   ({ call := .load 4096 .w64 }, []), ({}, [0, 1]), ({}, []),
   ({ call := .schedYield }, []),
   ({}, [])]

/-- At the end of `shutdownAfterCrash` process 1 has crashed and completed, and no process is counted
as live, though process 0 is. -/
theorem statuses_overlap : ∃ tr s,
    IsRun .asBuilt 2 4096 (fun _ => 0) (fun _ => .default) tr s ∧
    s.isCrashed 1 = true ∧ s.isCompleted 1 = true ∧ s.getLiveProcessCount = 0 ∧
    ((Finset.range s.processCount).filter fun pid => s.isLive pid).card = 1 := by
  obtain ⟨tr, s, hrun, hcheck⟩ := exists_run_of_replay .asBuilt
    (Model.init 2 4096 (fun _ => 0) (fun _ => .default)) shutdownAfterCrash
    (fun _ s => s.isCrashed 1 && s.isCompleted 1 && decide (s.getLiveProcessCount = 0) &&
      decide (((Finset.range s.processCount).filter fun pid => s.isLive pid).card = 1))
    (by decide +kernel)
  simp only [Bool.and_eq_true, decide_eq_true_eq] at hcheck
  obtain ⟨⟨⟨hcrashed, hcompleted⟩, hcount⟩, hlive⟩ := hcheck
  exact ⟨tr, s, ⟨by decide, hrun⟩, hcrashed, hcompleted, hcount, hlive⟩

/-- Three processes. Process 1 writes to a word three times and passes the token; process 0 reads the word, which
crashes process 1, and completes. -/
def completesAfterCrash : List (Input × List Nat) :=
  [({ call := .schedYield }, []),
   ({ call := .store 4096 .w64 1 }, []), ({}, []), ({}, []),
   ({ call := .store 4096 .w64 2 }, []), ({}, []), ({}, []),
   ({ call := .store 4096 .w64 3 }, []), ({ rand := 1, random := 2 }, []), ({}, []), ({}, []), ({}, []),
   ({ call := .schedYield }, []), ({ call := .schedYield }, []),
   ({}, []), ({}, []),
   ({ call := .load 4096 .w64 }, []), ({}, [0, 1]), ({}, []),
   ({ call := .userDone }, []),
   ({}, []), ({}, []), ({ call := .schedYield }, []),
   ({}, []), ({}, []), ({ call := .schedYield }, []),
   ({}, [])]

/-- `statuses_partition` on the run of `completesAfterCrash`. -/
theorem statuses_partition_completed : ∃ tr s,
    IsRun .asBuilt 3 4096 (fun _ => 0) (fun _ => .default) tr s ∧
    s.isCompleted 0 = true ∧ s.isCrashed 1 = true ∧
    (∀ x ∈ stepsOf tr s, x.1.Partitioned ∧ x.2.2.Partitioned) ∧ s.Partitioned := by
  obtain ⟨tr, s, hrun, hcheck⟩ := exists_run_of_replay .asBuilt
    (Model.init 3 4096 (fun _ => 0) (fun _ => .default)) completesAfterCrash
    (fun tr s => s.isCompleted 0 && s.isCrashed 1 && (stepsOf tr s).all fun x =>
      !decide (x.1.contextOf x.1.threadId = .shutdown) || !x.1.isCrashed x.1.processId)
    (by decide +kernel)
  simp only [Bool.and_eq_true, Bool.or_eq_true, List.all_eq_true, Bool.not_eq_true',
    decide_eq_false_iff_not] at hcheck
  obtain ⟨⟨hcompleted, hcrashed⟩, hguard⟩ := hcheck
  have hrun' : IsRun .asBuilt 3 4096 (fun _ => 0) (fun _ => .default) tr s := ⟨by decide, hrun⟩
  have hall := (statuses_partition rfl hrun').mpr fun x hx hctx => (hguard x hx).resolve_left fun h => h hctx
  exact ⟨tr, s, hrun', hcompleted, hcrashed, hall⟩

end Cxlmc
