import Cxlmc.Lib.Questions
import Cxlmc.Model.Snapshot

/-!
# What the checker asks

Every decision point of the checker has two choices; only a build with `MEM_POISON` stops with poison;
only a call can be a direct access; and nothing changes the number of processes. One pass over the code
shows all four.
-/

namespace Cxlmc

open Stateful

/-- The exits of the code inside `Model::action`. -/
structure Stop.Inner (cfg : Config) (e : Stop) : Prop where
  notCxl : e ≠ .notCxl
  poison : e = .poison → cfg.memPoison = true

theorem Stop.Inner.of_ne {cfg : Config} {e : Stop} (h : e ≠ .notCxl) (h' : e ≠ .poison) : e.Inner cfg :=
  ⟨h, fun he => absurd he h'⟩

theorem Stop.inner_assertFailed (cfg : Config) : Stop.Inner cfg .assertFailed :=
  .of_ne (by decide) (by decide)

theorem Stop.inner_deadlock (cfg : Config) : Stop.Inner cfg .deadlock := .of_ne (by decide) (by decide)

theorem Stop.inner_exit (cfg : Config) : Stop.Inner cfg .exit := .of_ne (by decide) (by decide)

/-- Decision points of two choices, inner exits, and the same processes. -/
abbrev TwoWay {α : Type} (cfg : Config) (m : M α) : Prop :=
  Asks (· = 2) (Stop.Inner cfg) (fun s : Model => s.processCount) m

section

variable {cfg : Config} {t : ThreadId}

/-! ## Stores and flushes -/

theorem decisionPoint_twoWay : TwoWay cfg (decisionPoint 2) := .choose rfl

theorem crashThread_processCount (pid : ProcessId) (s : Model) (i : ThreadId) :
    (Model.crashThread pid s i).processCount = s.processCount := by
  unfold Model.crashThread
  split <;> rfl

theorem processCrash_processCount (s : Model) : s.processCrash.processCount = s.processCount := by
  unfold Model.processCrash
  generalize s.processId = pid
  generalize List.range s.threadCount = ts
  induction ts generalizing s with
  | nil => rfl
  | cons i ts ih => exact (ih _).trans (crashThread_processCount pid s i)

theorem processCrash_twoWay : TwoWay cfg (update Model.processCrash) :=
  .update processCrash_processCount

theorem insertCrash_twoWay (pid : ProcessId) : TwoWay cfg (insertCrash pid) := by
  apply Asks.bind
  case hm =>
    apply Asks.bind .state
    intro s
    split
    · exact .bind (.update fun _ => rfl) fun _ => .bind decisionPoint_twoWay fun c => .pure _
    · exact .pure _
  case hk =>
    intro crash
    split
    · apply Asks.bind .state
      intro s
      split
      · exact .bind (.update fun _ => rfl) fun _ => .bind processCrash_twoWay fun _ =>
          .stop (Stop.inner_exit cfg)
      · exact .update fun _ => rfl
    · exact .pure _

theorem getNextSequenceNum_twoWay : TwoWay cfg getNextSequenceNum :=
  .bind .state fun _ => .bind (.update fun _ => rfl) fun _ => .pure _

theorem flushCrashLoop_twoWay (min : Nat) (stores : List ModelAction) :
    TwoWay cfg (flushCrashLoop min stores) := by
  induction stores with
  | nil => exact .pure _
  | cons store older ih =>
      apply Asks.bind .state
      intro s
      split
      · exact .pure _
      · split
        · exact insertCrash_twoWay _
        · exact ih

theorem evictClflush_twoWay (a : ModelAction) : TwoWay cfg (evictClflush a) := by
  apply Asks.bind (.require _ (Stop.inner_assertFailed cfg))
  intro _
  apply Asks.ite_join
  case hk =>
    intro b
    apply Asks.bind .state
    intro s
    exact .bind (.update fun _ => rfl) fun _ => .bind (flushCrashLoop_twoWay _ _) fun _ => .pure _
  case hm => exact .pure _
  case hm' => exact fun hk => .bind getNextSequenceNum_twoWay fun _ => .bind (.pure _) hk

theorem emptyFlushLoop_twoWay (actions : List ModelAction) : TwoWay cfg (emptyFlushLoop t actions) := by
  induction actions with
  | nil => exact .pure _
  | cons a rest ih =>
      exact .bind (.update fun _ => rfl) fun _ =>
        .bind (.require _ (Stop.inner_assertFailed cfg)) fun _ =>
          .bind (evictClflush_twoWay a) fun _ => ih

theorem emptyFlushBuffer_twoWay : TwoWay cfg (emptyFlushBuffer t) :=
  .bind .state fun _ => emptyFlushLoop_twoWay _

theorem popFromStoreBuffer_twoWay : TwoWay cfg (popFromStoreBuffer t) := by
  have hstore : ∀ a : ModelAction, TwoWay cfg (evictStore a >>= noteWrClf t) := by
    intro a
    apply Asks.bind
    case hm =>
      exact .bind (.require _ (Stop.inner_assertFailed cfg)) fun _ =>
        .bind getNextSequenceNum_twoWay fun _ => .bind (.update fun _ => rfl) fun _ => .pure _
    case hk => exact fun _ => .update fun _ => rfl
  apply Asks.bind .state
  intro s
  split
  · exact .pure _
  · next a rest _ =>
      refine Asks.bind (.update fun _ => rfl) ?_
      intro _
      unfold popAction
      split
      case h_1 | h_2 | h_3 | h_4 => exact hstore a
      case h_5 => exact .bind (evictClflush_twoWay a) fun _ => .update fun _ => rfl
      case h_6 => exact .update fun _ => rfl
      case h_7 => exact .bind emptyFlushBuffer_twoWay fun _ => .update fun _ => rfl
      case h_8 => exact .stop (Stop.inner_assertFailed cfg)

theorem emptyStoreLoop_twoWay (n : Nat) : TwoWay cfg (emptyStoreLoop t n) := by
  induction n with
  | zero => exact .pure _
  | succ n ih => exact .bind popFromStoreBuffer_twoWay fun _ => ih

theorem drain_twoWay : TwoWay cfg (drain t) :=
  .bind (.bind .state fun _ => emptyStoreLoop_twoWay _) fun _ => emptyFlushBuffer_twoWay

theorem addToStoreBuffer_twoWay (a : ModelAction) : TwoWay cfg (addToStoreBuffer t a) :=
  .bind (.require _ (Stop.inner_assertFailed cfg)) fun _ => .update fun _ => rfl

/-! ## Reads -/

variable {read : ModelAction}

theorem checkPoisonLoop_twoWay (hcfg : cfg.memPoison = true) (is : List Nat)
    (acc : Nat × ProcessId) : TwoWay cfg (checkPoisonLoop read is acc) := by
  induction is generalizing acc with
  | nil => exact .pure _
  | cons i is ih =>
      apply Asks.bind .state
      intro s
      split
      · exact ih _
      · dsimp only
        split
        · split
          · exact .stop ⟨by decide, fun _ => hcfg⟩
          · split
            · exact ih _
            · exact ih _
        · exact ih _

theorem checkMemoryPoisoning_twoWay (hcfg : cfg.memPoison = true) :
    TwoWay cfg (checkMemoryPoisoning read) := by
  apply Asks.bind (checkPoisonLoop_twoWay hcfg _ _)
  intro acc
  dsimp only
  split
  · apply Asks.bind decisionPoint_twoWay
    intro c
    split
    · exact .bind (.update fun _ => rfl) fun _ => .stop ⟨by decide, fun _ => hcfg⟩
    · exact .update fun _ => rfl
  · exact .pure _

theorem readRunning_twoWay (rpid : ProcessId) (store : ModelAction) (rf : Slots) (left : Nat) :
    TwoWay cfg (readRunning read rpid store rf left) := by
  unfold readRunning
  split
  · exact .pure _
  · apply Asks.bind .state
    intro s
    dsimp only
    split
    · apply Asks.ite_join
      case hk =>
        intro crash
        split
        · exact .bind (.update fun _ => rfl) fun _ => .pure _
        · split
          · exact .bind (.update fun _ => rfl) fun _ => .pure _
          · exact .pure _
      case hm => exact .pure _
      case hm' =>
        exact fun hk => .bind (.update fun _ => rfl) fun _ => .bind decisionPoint_twoWay fun c =>
          .bind (.pure _) hk
    · exact .pure _

theorem readCrashed_twoWay (store : ModelAction) (older : List ModelAction) (rf : Slots)
    (left : Nat) : TwoWay cfg (readCrashed cfg read store older rf left) := by
  apply Asks.bind .state
  intro s
  dsimp only
  split
  · exact .pure _
  · split
    · split
      · exact .pure _
      · split
        · exact .pure _
        · apply Asks.ite_join
          case hk =>
            intro lost
            split
            · exact .bind (.update fun _ => rfl) fun _ => .pure _
            · exact .bind (.update fun _ => rfl) fun _ => .pure _
          case hm => exact .pure _
          case hm' => exact fun hk => .bind decisionPoint_twoWay fun c => .bind (.pure _) hk
    · exact .pure _

theorem readLoop_twoWay (rpid : ProcessId) (stores : List ModelAction) (rf : Slots) (left : Nat) :
    TwoWay cfg (readLoop cfg read rpid stores rf left) := by
  induction stores generalizing rf left with
  | nil => exact .stop (Stop.inner_assertFailed cfg)
  | cons store older ih =>
      apply Asks.bind .state
      intro s
      apply Asks.ite_join
      case hk =>
        intro x
        apply Asks.bind .state
        intro s
        apply Asks.ite_join
        case hk =>
          intro next
          dsimp only
          split
          · exact ih _ _
          · split
            · exact .pure _
            · exact ih _ _
        case hm => exact .pure _
        case hm' => exact fun hk => .bind (readCrashed_twoWay store older _ _) hk
      case hm => exact readRunning_twoWay rpid store rf left
      case hm' => exact fun hk => .bind (.pure _) hk

theorem buildReadFromSlots_twoWay : TwoWay cfg (buildReadFromSlots cfg read) := by
  apply Asks.bind .state
  intro s
  dsimp only
  split
  · exact .pure _
  · apply Asks.bind (.require _ (Stop.inner_assertFailed cfg))
    intro _
    have hloop (s : Model) (rf : Slots) (left : Nat) : TwoWay cfg
        (readLoop cfg read (s.getProcessId read) (s.getStorelist read.location).reverse rf left) :=
      readLoop_twoWay _ _ rf left
    split
    · next hcfg => exact .bind (checkMemoryPoisoning_twoWay hcfg) fun _ => .bind .state fun s => hloop s _ _
    · exact .bind .state fun s => hloop s _ _

/-! ## Threads -/

theorem schedulerYield_twoWay : TwoWay cfg schedulerYield := by
  apply Asks.bind .state
  intro s
  split
  · exact .update fun _ => rfl
  · split
    · exact .stop (Stop.inner_deadlock cfg)
    · exact .pure _

theorem finalize_twoWay : TwoWay cfg finalize := by
  apply Asks.bind
  case hm =>
    apply Asks.update
    intro s
    split <;> rfl
  case hk =>
    intro _
    apply Asks.bind .state
    intro s
    split
    · exact .bind (.update fun _ => rfl) fun _ => .pure _
    · split
      · exact .stop (Stop.inner_deadlock cfg)
      · exact .pure _

/-- The second half of `set_owner` for a new owner. -/
theorem newOwner_twoWay (m : MutexId) (t : ThreadId) :
    TwoWay cfg (do
      let s ← state
      require (m ∉ (s.threads t).ownedMutexes) .assertFailed
      update fun s => s.setThread t fun th => { th with ownedMutexes := insert m th.ownedMutexes }
      update fun s : Model =>
        { s with
          mutexes := Function.update s.mutexes m
            { s.mutexes m with owner := some t, recursiveLockCount := 0 } } : M Unit) :=
  .bind .state fun _ => .bind (.require _ (Stop.inner_assertFailed cfg)) fun _ =>
    .bind (.update fun _ => rfl) fun _ => .update fun _ => rfl

theorem setOwner_twoWay (m : MutexId) (thr : Option ThreadId) : TwoWay cfg (setOwner m thr) := by
  apply Asks.bind .state
  intro s
  cases thr with
  | none =>
      dsimp only
      split
      · exact .update fun _ => rfl
      · split
        · exact .update fun _ => rfl
        · exact .bind (.require _ (Stop.inner_assertFailed cfg)) fun _ => .bind (.update fun _ => rfl) fun _ =>
            .update fun _ => rfl
  | some t =>
      dsimp only
      split
      · exact newOwner_twoWay m t
      · split
        · exact newOwner_twoWay m t
        · exact .bind (.require _ (Stop.inner_assertFailed cfg)) fun _ => .bind (.update fun _ => rfl) fun _ =>
            newOwner_twoWay m t

variable {action : ModelAction} {ret : Ret}

theorem threadWait_twoWay : TwoWay cfg (threadWait action ret) :=
  .bind (.update fun _ => rfl) fun _ => schedulerYield_twoWay

/-! ## Executing an action -/

theorem lockLoop_twoWay : TwoWay cfg (lockLoop action ret) := by
  apply Asks.bind .state
  intro s
  dsimp only
  split
  · split
    · exact .bind (setOwner_twoWay _ _) fun _ => .pure _
    · exact .bind threadWait_twoWay fun _ => .pure _
  · exact .bind (setOwner_twoWay _ _) fun _ => .pure _

theorem executeLock_twoWay : TwoWay cfg (executeLock action ret) := by
  apply Asks.bind .state
  intro s
  dsimp only
  split
  · exact .bind (setOwner_twoWay _ _) fun _ => .pure _
  · split
    · split
      · exact .bind (.update fun _ => rfl) fun _ => .pure _
      · exact .pure _
      · exact .stop (Stop.inner_deadlock cfg)
    · exact lockLoop_twoWay

theorem executeTrylock_twoWay : TwoWay cfg (executeTrylock action) := by
  apply Asks.bind .state
  intro s
  dsimp only
  split
  · exact .bind (setOwner_twoWay _ _) fun _ => .pure _
  · split
    · exact .bind (setOwner_twoWay _ _) fun _ => .pure _
    · exact .pure _

theorem executeUnlock_twoWay : TwoWay cfg (executeUnlock action ret) := by
  unfold executeUnlock
  split
  · exact .stop (Stop.inner_assertFailed cfg)
  · apply Asks.bind .state
    intro s
    split
    · exact .pure _
    · split
      · exact .bind (.update fun _ => rfl) fun _ => .pure _
      · apply Asks.bind (setOwner_twoWay _ _)
        intro _
        refine Asks.bind (.update fun _ => rfl) ?_
        intro _
        split
        · exact .bind threadWait_twoWay fun _ => .pure _
        · exact .pure _

theorem executeFinish_twoWay : TwoWay cfg (executeFinish action) := by
  apply Asks.bind .state
  intro s
  apply Asks.ite_join'
  case hk =>
    intro _
    refine Asks.bind (.update fun _ => rfl) ?_
    intro _
    apply Asks.bind
    case hm => exact .bind (.update fun _ => rfl) fun _ => .bind finalize_twoWay fun _ => .pure _
    case hk => exact fun _ => .pure _
  case hm => exact .update fun _ => rfl
  case hm' => exact fun hk => hk ()

theorem executeCreate_twoWay : TwoWay cfg (executeCreate action) :=
  .bind .state fun _ => .bind (.update fun _ => rfl) fun _ => .bind (addToStoreBuffer_twoWay _) fun _ =>
    .bind (.update fun _ => rfl) fun _ => .pure _

theorem executeJoin_twoWay : TwoWay cfg (executeJoin action ret) := by
  apply Asks.bind .state
  intro s
  apply Asks.bind (.require _ (Stop.inner_assertFailed cfg))
  intro _
  split
  · exact .bind threadWait_twoWay fun _ => .pure _
  · exact .pure _

theorem executeStore_twoWay : TwoWay cfg (executeStore action) := by
  apply Asks.bind (addToStoreBuffer_twoWay _)
  intro _
  apply Asks.ite_join'
  case hk => exact fun _ => .pure _
  case hm => exact drain_twoWay
  case hm' => exact fun hk => hk ()

theorem executeLoad_twoWay : TwoWay cfg (executeLoad cfg action) := by
  apply Asks.ite_join'
  case hk =>
    intro _
    apply Asks.bind .state
    intro s
    apply Asks.ite_join'
    case hk =>
      intro _
      apply Asks.bind buildReadFromSlots_twoWay
      intro rf
      apply Asks.ite_join'
      case hk => exact fun _ => .pure _
      case hm => exact .update fun _ => rfl
      case hm' => exact fun hk => hk ()
    case hm => exact .update fun _ => rfl
    case hm' => exact fun hk => hk ()
  case hm => exact drain_twoWay
  case hm' => exact fun hk => hk ()

theorem wakeThreadWaitingOn_processCount (s : Model) (v : WaitTarget) :
    (s.wakeThreadWaitingOn v).processCount = s.processCount := by
  unfold Model.wakeThreadWaitingOn
  split <;> rfl

theorem execute_twoWay : TwoWay cfg (execute cfg action ret) := by
  unfold execute
  split
  case h_1 | h_2 | h_3 => exact .pure _
  case h_4 | h_5 => exact executeFinish_twoWay
  case h_6 => exact executeCreate_twoWay
  case h_7 => exact executeJoin_twoWay
  case h_8 => exact executeTrylock_twoWay
  case h_9 => exact executeLock_twoWay
  case h_10 | h_11 | h_12 => exact executeUnlock_twoWay
  case h_13 =>
    exact .bind (.update fun s => wakeThreadWaitingOn_processCount s _) fun _ => .pure _
  case h_14 => exact .bind (.update fun _ => rfl) fun _ => .pure _
  case h_15 | h_16 | h_17 | h_18 => exact executeStore_twoWay
  case h_19 | h_20 | h_21 => exact executeLoad_twoWay
  case h_22 | h_23 | h_24 => exact .bind (addToStoreBuffer_twoWay _) fun _ => .pure _
  case h_25 => exact .bind drain_twoWay fun _ => .pure _

/-! ## Steps -/

theorem actionHead_twoWay (yields : Bool) : TwoWay cfg (actionHead action yields ret) := by
  apply Asks.bind .state
  intro s
  split
  · exact .bind processCrash_twoWay fun _ => .stop (Stop.inner_exit cfg)
  · refine Asks.bind (.update fun _ => rfl) ?_
    intro _
    split
    · exact schedulerYield_twoWay
    · exact .pure _

theorem finishAction_twoWay (i : Input) (flow : Flow) : TwoWay cfg (finishAction action ret i flow) := by
  unfold finishAction
  split
  · exact .pure _
  · exact .pure _
  · exact .bind (.update fun _ => rfl) fun _ => .bind (.bind .state fun s => .update fun _ => rfl) fun _ =>
      .pure _

theorem actionBody_twoWay (i : Input) : TwoWay cfg (actionBody cfg action ret i) := by
  apply Asks.ite_join'
  case hk =>
    exact fun _ => .bind .state fun s => .bind execute_twoWay fun flow => finishAction_twoWay i flow
  case hm =>
    apply Asks.update
    intro s
    split <;> rfl
  case hm' => exact fun hk => hk ()

theorem returnFrom_twoWay (value : Nat) : TwoWay cfg (returnFrom value ret) := by
  refine Asks.bind (.update fun _ => rfl) ?_
  intro _
  split
  · exact .pure _
  · exact .bind (.update fun _ => rfl) fun _ => .pure _
  · exact .bind .state fun s => .bind (actionHead_twoWay _) fun _ => .pure _
  · exact .bind .state fun s => .bind (actionHead_twoWay _) fun _ => .pure _

theorem shutdownLoop_twoWay (ts : List ThreadId) : TwoWay cfg (shutdownLoop ts) := by
  induction ts with
  | nil => exact .pure _
  | cons t ts ih =>
      apply Asks.bind .state
      intro s
      split
      · apply Asks.ite_join
        case hk => exact fun _ => .bind drain_twoWay fun _ => ih
        case hm => exact .update fun _ => rfl
        case hm' => exact fun hk => hk ()
      · exact ih

theorem shutdownRest_twoWay : TwoWay cfg shutdownRest :=
  .bind .state fun _ => .bind (shutdownLoop_twoWay _) fun _ => .bind (.update fun _ => rfl) fun _ =>
    .stop (Stop.inner_exit cfg)

theorem finishExecution_twoWay : TwoWay cfg finishExecution := by
  refine Asks.bind (.update fun _ => rfl) ?_
  intro _
  apply Asks.bind finalize_twoWay
  intro passed
  split
  · exact .pure _
  · exact .stop (.of_ne (by decide) (by decide))

/-- A call can be a direct access as well. -/
theorem callApi_asks (c : Call) :
    Asks (· = 2) (fun e => e.Inner cfg ∨ e = .notCxl) (fun s : Model => s.processCount) (callApi c) := by
  have hinner : ∀ {α : Type} {m : M α}, TwoWay cfg m →
      Asks (· = 2) (fun e => e.Inner cfg ∨ e = .notCxl) (fun s : Model => s.processCount) m :=
    fun h => h.mono fun _ he => .inl he
  apply Asks.bind .state
  intro s
  split
  · apply Asks.bind (.require _ (.inr rfl))
    intro _
    exact .bind (hinner (actionHead_twoWay _)) fun _ => .pure _
  · split
    · exact .bind (hinner (insertCrash_twoWay _)) fun _ => .pure _
    · exact .bind (.update fun _ => rfl) fun _ => .pure _
    · exact .bind (.update fun _ => rfl) fun _ => .pure _
    · exact .bind (.update fun _ => rfl) fun _ => .bind (hinner schedulerYield_twoWay) fun _ => .pure _
    · exact .stop (.inl (Stop.inner_exit cfg))

theorem resume_asks (i : Input) :
    Asks (· = 2) (fun e => e.Inner cfg ∨ e = .notCxl) (fun s : Model => s.processCount)
      (resume cfg i) := by
  have hinner : ∀ {m : M Event}, TwoWay cfg m →
      Asks (· = 2) (fun e => e.Inner cfg ∨ e = .notCxl) (fun s : Model => s.processCount) m :=
    fun h => h.mono fun _ he => .inl he
  apply Asks.bind .state
  intro s
  split
  · exact callApi_asks i.call
  · exact hinner (actionBody_twoWay i)
  · apply hinner
    apply Asks.bind
    case hm =>
      unfold resumeExecute
      split
      · exact lockLoop_twoWay
      · exact .pure _
    case hk => exact fun flow => finishAction_twoWay i flow
  · exact hinner (.bind (.update fun _ => rfl) fun _ => .bind popFromStoreBuffer_twoWay fun _ => .pure _)
  · exact hinner (returnFrom_twoWay _)
  · exact hinner shutdownRest_twoWay
  · exact .stop (.inl (Stop.inner_assertFailed cfg))

theorem step_asks (i : Input) :
    Asks (· = 2) (fun e => e.Inner cfg ∨ e = .notCxl) (fun s : Model => s.processCount)
      (step cfg i) :=
  (resume_asks i).onStop (fun _ => finishExecution_twoWay.mono fun _ he => .inl he) fun _ _ he => he

/-- A direct access leaves the state as it is. -/
theorem step_notCxl {i : Input} {s s' : Model} (h : (step cfg i).Ends s (.error .notCxl) s') : s' = s := by
  have hinner : ∀ {α : Type} {m : M α} {s s' : Model}, TwoWay cfg m → ¬ m.Ends s (.error .notCxl) s' :=
    fun hm hends => (hm.exit hends).notCxl rfl
  rcases ends_onStop.mp h with ⟨hresume, _⟩ | ⟨s₁, _, hfinish⟩
  · replace hresume := ends_state_bind.mp hresume
    split at hresume
    · replace hresume := ends_state_bind.mp hresume
      split at hresume
      · rcases ends_require_bind.mp hresume with ⟨_, hhead⟩ | ⟨_, _, hs⟩
        · exact absurd hhead (hinner (.bind (actionHead_twoWay _) fun _ => .pure _))
        · exact hs
      · split at hresume
        · exact absurd hresume (hinner (.bind (insertCrash_twoWay _) fun _ => .pure _))
        · exact absurd hresume (hinner (.bind (.update fun _ => rfl) fun _ => .pure _))
        · exact absurd hresume (hinner (.bind (.update fun _ => rfl) fun _ => .pure _))
        · exact absurd hresume
            (hinner (.bind (.update fun _ => rfl) fun _ => .bind schedulerYield_twoWay fun _ => .pure _))
        · exact absurd hresume (hinner (.stop (Stop.inner_exit cfg)))
    · exact absurd hresume (hinner (actionBody_twoWay i))
    · apply absurd hresume
      apply hinner
      apply Asks.bind
      case hm =>
        unfold resumeExecute
        split
        · exact lockLoop_twoWay
        · exact .pure _
      case hk => exact fun flow => finishAction_twoWay i flow
    · exact absurd hresume
        (hinner (.bind (.update fun _ => rfl) fun _ => .bind popFromStoreBuffer_twoWay fun _ => .pure _))
    · exact absurd hresume (hinner (returnFrom_twoWay _))
    · exact absurd hresume (hinner shutdownRest_twoWay)
    · exact absurd hresume (hinner (.stop (Stop.inner_assertFailed cfg)))
  · exact absurd hfinish (hinner finishExecution_twoWay)

theorem turn_asks (i : Input) :
    Asks (· = 2) (Stop.Inner cfg) (fun s : Model => s.processCount) (turn cfg i) := by
  apply Asks.onStop
  case hm =>
    exact (step_asks i).onStop (fun _ => finishExecution_twoWay.mono fun _ he => .inl he)
      fun _ _ he => he
  case hh => exact fun _ => .pure _
  case hq => exact fun e hne he => he.resolve_right hne

end

end Cxlmc
