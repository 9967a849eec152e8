import Cxlmc.Effect.Buffers
import Cxlmc.Effect.Reads

/-!
# The memory leaves threads and mutexes alone

Code that works on buffers, store lists and intervals keeps every thread, every mutex and the
completed processes as they are; all it may do besides is to crash the writer of a store
(`Model.Works`). It leaves through `exit` only where it has crashed the running process (`Dies`).
-/

namespace Cxlmc

open Stateful Fill

/-! ## What the memory may do -/

namespace Model

/-- The stores in lists and buffers are those of threads that exist. -/
structure Attributed (s : Model) : Prop where
  listed : ∀ w, ∀ a ∈ s.objToWr w, a.tid < s.threadCount
  buffered : ∀ t, ∀ a ∈ (s.threadMemory t).storeBuffer, a.tid < s.threadCount

/-- `pid` is the process of a thread that exists, and it may be crashed by the running one. -/
structure MayLose (s : Model) (pid : ProcessId) : Prop where
  exists_thread : ∃ t, t < s.threadCount ∧ (s.threads t).processId = pid
  other : pid ≠ s.processId
  notCompleted : s.isCompleted pid = false

/-- The crashes after code that may crash one other process. -/
inductive Loses (s : Model) : Crashes → Prop where
  | none : Loses s s.crashes
  | one {pid : ProcessId} (clock : Nat) (hfirst : s.crashes = ∅) (hpid : s.MayLose pid) :
      Loses s (s.crashes.emplace pid clock)

/-- The memory has been worked on. -/
structure Works (s s' : Model) : Prop where
  scheduler : s'.toScheduler = s.toScheduler
  mutexes : s'.mutexes = s.mutexes
  completedProcs : s'.completedProcs = s.completedProcs
  crashes : s.Loses s'.crashes
  attributed : s.Attributed → s'.Attributed

/-- The running process has put itself in `crashes` and run `process_crash`. -/
structure Dies (s s' : Model) : Prop where
  first : s.crashes = ∅
  state : s' = (s.crash s.processId).processCrash

theorem Works.refl (s : Model) : Works s s := ⟨rfl, rfl, rfl, .none, id⟩

theorem Works.threads {s s' : Model} (h : Works s s') : s'.threads = s.threads := by
  rw [h.scheduler]

theorem Works.threadId {s s' : Model} (h : Works s s') : s'.threadId = s.threadId := by
  rw [Model.threadId, Model.threadId, h.scheduler]

theorem Works.processId {s s' : Model} (h : Works s s') : s'.processId = s.processId := by
  rw [Model.processId, Model.processId, h.scheduler]

theorem Works.isCompleted {s s' : Model} (h : Works s s') (pid : ProcessId) :
    s'.isCompleted pid = s.isCompleted pid := by
  rw [Model.isCompleted, Model.isCompleted, h.completedProcs]

theorem MayLose.of_works {s s' : Model} (h : Works s s') {pid : ProcessId} (hpid : s'.MayLose pid) :
    s.MayLose pid := by
  obtain ⟨hthread, hother, hcompleted⟩ := hpid
  rw [h.scheduler] at hthread
  rw [h.processId] at hother
  rw [h.isCompleted] at hcompleted
  exact ⟨hthread, hother, hcompleted⟩

theorem emplace_ne_empty (c : Crashes) (pid : ProcessId) (clock : Nat) :
    c.emplace pid clock ≠ ∅ := by
  intro h
  have hmem : pid ∈ c.emplace pid clock := by
    unfold Crashes.emplace
    split
    · next hmem => exact hmem
    · exact AList.mem_insert _ |>.mpr (.inl rfl)
  rw [h] at hmem
  exact AList.notMem_empty pid hmem

theorem Works.trans {s s' s'' : Model} (h : Works s s') (h' : Works s' s'') : Works s s'' := by
  refine ⟨h'.scheduler.trans h.scheduler, h'.mutexes.trans h.mutexes,
    h'.completedProcs.trans h.completedProcs, ?_, fun hs => h'.attributed (h.attributed hs)⟩
  have hsecond := h'.crashes
  generalize s''.crashes = c at hsecond ⊢
  cases hsecond with
  | none => exact h.crashes
  | one clock hfirst hpid =>
      -- nobody had crashed before the second part, so nobody was crashed in the first
      have hsame : s'.crashes = s.crashes := by
        have hone := h.crashes
        generalize s'.crashes = c at hone hfirst ⊢
        cases hone with
        | none => rfl
        | one clock' _ _ => exact absurd hfirst (emplace_ne_empty _ _ _)
      rw [hsame]
      exact .one clock (hsame ▸ hfirst) (.of_works h hpid)

/-- Code that does not concern threads, mutexes, stores or crashes. -/
theorem Works.of_eq {s s' : Model} (hsched : s'.toScheduler = s.toScheduler)
    (hmutexes : s'.mutexes = s.mutexes) (hcompleted : s'.completedProcs = s.completedProcs)
    (hcrashes : s'.crashes = s.crashes) (hlists : s'.objToWr = s.objToWr)
    (hbuffers : ∀ t, ∀ a ∈ (s'.threadMemory t).storeBuffer, a ∈ (s.threadMemory t).storeBuffer) :
    Works s s' := by
  refine ⟨hsched, hmutexes, hcompleted, ?_, ?_⟩
  · rw [hcrashes]
    exact .none
  · rintro ⟨hlisted, hbuffered⟩
    constructor
    · rw [hlists, hsched]
      exact hlisted
    · intro t a ha
      rw [hsched]
      exact hbuffered t a (hbuffers t a ha)

/-- Another process is crashed. -/
theorem Works.crash {s : Model} {pid : ProcessId} (hfirst : s.crashes = ∅) (hpid : s.MayLose pid) :
    Works s (s.crash pid) :=
  ⟨rfl, rfl, rfl, .one _ hfirst hpid, fun h => ⟨h.listed, h.buffered⟩⟩

/-- The memory of one thread changes, its store buffer only by what leaves it. -/
theorem Works.setThreadMemory (s : Model) (t : ThreadId) {f : ThreadMemory → ThreadMemory}
    (hf : ∀ a ∈ (f (s.threadMemory t)).storeBuffer, a ∈ (s.threadMemory t).storeBuffer) :
    Works s (s.setThreadMemory t f) := by
  apply Works.of_eq <;> try rfl
  intro u a ha
  rw [threadMemory_setThreadMemory] at ha
  split at ha
  · next hu =>
      rw [hu] at ha ⊢
      exact hf a ha
  · exact ha

theorem Works.evicted {s : Model} {a : ModelAction} (ha : a.tid < s.threadCount) :
    Works s (s.evicted a) := by
  refine ⟨rfl, rfl, rfl, .none, ?_⟩
  rintro ⟨hlisted, hbuffered⟩
  refine ⟨?_, hbuffered⟩
  intro w b hb
  change b ∈ Function.update s.objToWr a.word _ w at hb
  rw [Function.update_apply] at hb
  split at hb
  · rcases List.mem_append.mp hb with hb | hb
    · exact hlisted _ b hb
    · rw [List.mem_singleton.mp hb]
      exact ha
  · exact hlisted w b hb

theorem Works.pushed {s : Model} {t : ThreadId} {a : ModelAction} (ha : a.tid < s.threadCount) :
    Works s (s.pushed t a) := by
  refine ⟨rfl, rfl, rfl, .none, ?_⟩
  rintro ⟨hlisted, hbuffered⟩
  refine ⟨hlisted, ?_⟩
  intro u b hb
  rw [Model.pushed, threadMemory_setThreadMemory] at hb
  split at hb
  · rcases List.mem_append.mp hb with hb | hb
    · exact hbuffered u b hb
    · rw [List.mem_singleton.mp hb]
      exact ha
  · exact hbuffered u b hb

theorem Works.initialized {s : Model} (word : Nat) (hlt : s.activeThread < s.threadCount) :
    Works s (s.initialized word) := by
  refine ⟨rfl, rfl, rfl, .none, ?_⟩
  rintro ⟨hlisted, hbuffered⟩
  refine ⟨?_, hbuffered⟩
  intro w b hb
  change b ∈ Function.update s.objToWr word _ w at hb
  rw [Function.update_apply] at hb
  split at hb
  · rw [List.mem_singleton.mp hb]
    exact hlt
  · exact hlisted w b hb

end Model

/-- Code that works on the memory. -/
abbrev Labours {α : Type} (m : M α) (s : Model) : Prop :=
  Does (fun (s : Model) (_ : Unit) s' => s.Works s') (fun _ => True) Stop.exit Model.Dies m s

section

variable {s s' s₁ : Model} {α : Type} {t : ThreadId} {m : M α}

theorem Labours.works {a : α} (h : Labours m s) (hm : m.Ends s (.ok a) s') : s.Works s' :=
  (h.returns hm).preorder .refl .trans fun _ _ _ _ h => h

theorem Labours.dies (h : Labours m s) (hm : m.Ends s (.error .exit) s') :
    ∃ s₁, s.Works s₁ ∧ s₁.Dies s' := by
  obtain ⟨s₁, hgoes, hdies⟩ := h.leaves hm
  exact ⟨s₁, hgoes.preorder .refl .trans fun _ _ _ _ h => h, hdies⟩

theorem Labours.update {f : Model → Model} (h : s.Works (f s)) :
    Labours (update f : M Unit) s :=
  Does.update (l := ()) h trivial

theorem Labours.update_bind {f : Model → Model} {k : Unit → M α} (h : s.Works (f s))
    (hk : Labours (k ()) (f s)) : Labours ((Stateful.update f : M Unit) >>= k) s :=
  Does.update_bind (l := ()) h trivial hk

/-! ## Crashes -/

theorem shouldCrash_labours : Labours shouldCrash s := by
  unfold shouldCrash
  apply Does.state_bind
  split
  · apply Labours.update_bind (.of_eq rfl rfl rfl rfl rfl fun _ _ h => h)
    exact Does.choose_bind fun c => .pure _
  · exact .pure _

theorem insertCrash_labours {pid : ProcessId} (hpid : pid ≠ s.processId → s.MayLose pid) :
    Labours (insertCrash pid) s := by
  unfold insertCrash
  apply Does.bind shouldCrash_labours
  intro b s₁ hb
  have hworks := shouldCrash_labours.works hb
  obtain ⟨_, hcond⟩ := ends_shouldCrash hb
  cases b with
  | false => exact .pure _
  | true =>
      obtain ⟨hfirst, _⟩ := hcond rfl
      rw [if_pos rfl]
      apply Does.state_bind
      split
      · next hown =>
          -- the crash of the running process, which never returns
          intro r s' h
          rw [ends_update_bind, ends_update_bind, Model.crash_eq_insert hfirst, hown] at h
          obtain ⟨rfl, rfl⟩ := ends_stop.mp h
          exact ⟨nofun, fun _ => ⟨s₁, .refl _, hfirst, rfl⟩⟩
      · next hother =>
          have hlose := hpid (hworks.processId ▸ hother)
          refine Labours.update (.crash hfirst ⟨?_, hother, ?_⟩)
          · rw [hworks.scheduler]
            exact hlose.exists_thread
          · rw [hworks.isCompleted]
            exact hlose.notCompleted

theorem flushCrashLoop_labours (min : Nat) {stores : List ModelAction}
    (hstores : ∀ store ∈ stores, store.tid < s.threadCount) :
    Labours (flushCrashLoop min stores) s := by
  induction stores with
  | nil => exact .pure _
  | cons store older ih =>
      unfold flushCrashLoop
      apply Does.state_bind
      split
      · exact .pure _
      · split
        · next hlive =>
            apply insertCrash_labours
            intro hother
            refine ⟨⟨store.tid, hstores store List.mem_cons_self, rfl⟩, hother, ?_⟩
            rw [Model.isLive, Bool.and_eq_true, Bool.not_eq_true', Bool.not_eq_true'] at hlive
            exact hlive.2
        · exact ih fun b hb => hstores b (List.mem_cons_of_mem _ hb)

/-! ## Flushes -/

theorem Model.Works.flushed (s : Model) (seqNum line : Nat) : s.Works (s.flushed seqNum line) :=
  .of_eq rfl rfl rfl rfl rfl fun _ _ h => h

theorem Model.Attributed.reverse (h : s.Attributed) (addr : Nat) :
    ∀ store ∈ (s.getStorelist addr).reverse, store.tid < s.threadCount :=
  fun store hstore => h.listed _ store (List.mem_reverse.mp hstore)

theorem evictClflush_labours (hs : s.Attributed) (a : ModelAction) :
    Labours (evictClflush a) s := by
  intro r s' h
  by_cases hexit : r = .error .assertFailed
  · subst hexit
    exact ⟨nofun, nofun⟩
  have hloop : ∀ {s₁ : Model} {min : Nat} {b : ModelAction}, s.Works s₁ →
      (flushCrashLoop min (s.getStorelist a.location).reverse >>=
        fun _ => (pure b : M ModelAction)).Ends s₁ r s' →
      (∀ c, r = .ok c → Goes (fun (s : Model) (_ : Unit) s' => s.Works s') (fun _ => True) s s') ∧
        (r = .error .exit →
          ∃ s₂, Goes (fun (s : Model) (_ : Unit) s' => s.Works s') (fun _ => True) s s₂ ∧
            s₂.Dies s') := by
    intro s₁ min b hworks hends
    apply Does.of_goes (.single (l := ()) hworks trivial)
    have hstores : ∀ store ∈ (s.getStorelist a.location).reverse, store.tid < s₁.threadCount := by
      rw [hworks.scheduler]
      exact hs.reverse _
    exact Does.bind (flushCrashLoop_labours min hstores) (fun _ _ _ => .pure b) r s' hends
  obtain ⟨min, ⟨_, hends⟩ | ⟨_, hends⟩⟩ := ends_evictClflush h hexit
  · have htick : s.Works s.tick := .of_eq rfl rfl rfl rfl rfl fun _ _ h => h
    exact hloop (htick.trans (.flushed _ _ _)) hends
  · exact hloop (.flushed _ _ _) hends

theorem emptyFlushLoop_labours (hs : s.Attributed) (actions : List ModelAction) :
    Labours (emptyFlushLoop t actions) s := by
  induction actions generalizing s with
  | nil => exact .pure _
  | cons a rest ih =>
      have hunqueued : s.Works (s.unqueued t rest) := .setThreadMemory s t fun _ h => h
      unfold emptyFlushLoop
      apply Labours.update_bind hunqueued
      apply Does.require_bind (fun h => Stop.noConfusion h)
      intro _
      have hflush := evictClflush_labours (hunqueued.attributed hs) a
      apply Does.bind hflush
      intro b s₁ h₁
      exact ih ((hflush.works h₁).attributed (hunqueued.attributed hs))

theorem emptyFlushBuffer_labours (hs : s.Attributed) : Labours (emptyFlushBuffer t) s :=
  Does.state_bind (emptyFlushLoop_labours hs _)

/-! ## The store buffer -/

theorem noteWrClf_labours (a : ModelAction) : Labours (noteWrClf t a) s :=
  Labours.update (.setThreadMemory s t fun _ h => h)

theorem popAction_labours (hs : s.Attributed) {a : ModelAction} (ha : a.tid < s.threadCount) :
    Labours (popAction t a) s := by
  have hstore : a.isWrite = true → Labours (evictStore a >>= noteWrClf t) s := by
    intro hw
    apply Does.bind
    · intro r s' h
      obtain ⟨rfl, rfl⟩ := (ends_evictStore hw).mp h
      exact ⟨fun _ _ => .single (l := ()) (.evicted ha) trivial, by simp⟩
    · intro b s₁ _
      exact noteWrClf_labours b
  unfold popAction
  split
  case h_1 htype => exact hstore (by simp [ModelAction.isWrite, htype])
  case h_2 htype => exact hstore (by simp [ModelAction.isWrite, htype])
  case h_3 htype => exact hstore (by simp [ModelAction.isWrite, htype])
  case h_4 htype => exact hstore (by simp [ModelAction.isWrite, htype])
  case h_5 => exact Does.bind (evictClflush_labours hs a) fun b _ _ => noteWrClf_labours b
  case h_6 => exact Labours.update (.setThreadMemory s t fun _ h => h)
  case h_7 =>
      apply Does.bind (emptyFlushBuffer_labours hs)
      intro _ s₁ _
      have hworks : s₁.Works (s₁.setThreadMemory t fun mem => { mem with lastSfence := a.seqNum }) :=
        .setThreadMemory s₁ t fun _ h => h
      exact Labours.update hworks
  case h_8 => exact Does.stop (by simp)

theorem popFromStoreBuffer_labours (hs : s.Attributed) : Labours (popFromStoreBuffer t) s := by
  unfold popFromStoreBuffer
  apply Does.state_bind
  split
  · exact .pure _
  · next a rest hbuf =>
      have hpopped : s.Works (s.popped t rest) := by
        apply Model.Works.setThreadMemory
        intro b hb
        rw [hbuf]
        exact List.mem_cons_of_mem a hb
      apply Labours.update_bind hpopped
      have ha : a.tid < s.threadCount := by
        apply hs.buffered t
        rw [hbuf]
        exact List.mem_cons_self
      exact popAction_labours (hpopped.attributed hs) ha

theorem emptyStoreLoop_labours (hs : s.Attributed) (n : Nat) : Labours (emptyStoreLoop t n) s := by
  induction n generalizing s with
  | zero => exact .pure _
  | succ n ih =>
      have hpop := popFromStoreBuffer_labours (t := t) hs
      unfold emptyStoreLoop
      apply Does.bind hpop
      intro _ s₁ h₁
      exact ih ((hpop.works h₁).attributed hs)

theorem drain_labours (hs : s.Attributed) : Labours (drain t) s := by
  have hstore : Labours (emptyStoreBuffer t) s := Does.state_bind (emptyStoreLoop_labours hs _)
  unfold drain
  apply Does.bind hstore
  intro _ s₁ h₁
  exact emptyFlushBuffer_labours ((hstore.works h₁).attributed hs)

end

/-! ## Reads -/

section

variable {cfg : Config} {read store : ModelAction} {older ws : List ModelAction} {s s' s₁ : Model}
  {rf rf₁ rf' : Slots}

theorem Model.Works.of_marks {line : Nat} (h : Model.Marks line s s') : s.Works s' := by
  obtain ⟨cls, n, rfl, _⟩ := h
  exact .of_eq rfl rfl rfl rfl rfl fun _ _ h => h

theorem Visit.works (h : Visit cfg read s.processId store older s rf s₁ rf₁)
    (hstore : store.tid < s.threadCount) : s.Works s₁ := by
  cases h with
  | running _ h => exact .of_marks h.marks
  | @crash s₀ _ _ _ h h' =>
      have hcount : s.Works s.countCrashPoint := .of_eq rfl rfl rfl rfl rfl fun _ _ h => h
      have hcrash : s.Works s₀ := by
        obtain ⟨_, hsize, _, hcompleted, _⟩ := h.may
        rw [h.state]
        refine hcount.trans (.crash (Crashes.eq_empty_of_size hsize) ⟨⟨store.tid, hstore, rfl⟩, ?_, ?_⟩)
        · exact h.other
        · exact Bool.eq_false_iff.mpr hcompleted
      exact hcrash.trans (.of_marks h'.marks)
  | crashed _ h => exact .of_marks h.marks

theorem readLoop_works (hlen : rf.length = read.size) (hfree : countFree rf ≠ 0)
    (hws : ∀ w ∈ ws, w.tid < s.threadCount)
    (h : (readLoop cfg read s.processId ws rf (countFree rf)).Ends s (.ok rf') s') : s.Works s' := by
  induction ws generalizing s rf with
  | nil => cases (ends_stop.mp h).1
  | cons store older ih =>
      obtain ⟨s₁, rf₁, hv, hrest⟩ := (ends_readLoop_cons hlen hfree).mp h
      have hworks := hv.works (hws store List.mem_cons_self)
      unfold LoopRest at hrest
      split at hrest
      · rw [hrest.2]
        exact hworks
      · next hfull =>
          rw [← hworks.processId] at hrest
          refine hworks.trans (ih (hv.length_eq.trans hlen) hfull ?_ hrest)
          intro w hw
          rw [hworks.scheduler]
          exact hws w (List.mem_cons_of_mem _ hw)

theorem buildReadFromSlots_labours (hpos : 0 < read.size) (hcfg : cfg.memPoison = false)
    (htid : read.tid = s.threadId) (hs : s.Attributed) : Labours (buildReadFromSlots cfg read) s := by
  intro r s' h
  constructor
  · rintro rf' rfl
    refine Goes.single (l := ()) ?_ trivial
    rw [ends_buildReadFromSlots hpos hcfg, LoopRest, Model.getProcessId, htid] at h
    split at h
    · rw [h.2]
      exact .refl s
    · next hfull => exact readLoop_works (length_bypassed s read) hfull (hs.reverse _) h
  · rintro rfl
    have he := buildReadFromSlots_error hpos hcfg h
    cases he

end

/-! ## No `DEADLOCK` -/

section

variable {t : ThreadId}

theorem insertCrash_avoids (pid : ProcessId) : Avoids Stop.deadlock (insertCrash pid) := by
  have hshould : Avoids Stop.deadlock shouldCrash := by
    apply Avoids.state_bind
    intro s
    split
    · exact .bind (.update _) fun _ => .choose_bind fun c => .pure _
    · exact .pure _
  apply Avoids.bind hshould
  intro b
  split
  · apply Avoids.state_bind
    intro s
    split
    · exact .bind (.update _) fun _ => .bind (.update _) fun _ => .stop (by decide)
    · exact .update _
  · exact .pure _

theorem flushCrashLoop_avoids (min : Nat) (stores : List ModelAction) :
    Avoids Stop.deadlock (flushCrashLoop min stores) := by
  induction stores with
  | nil => exact .pure _
  | cons store older ih =>
      apply Avoids.state_bind
      intro s
      split
      · exact .pure _
      · split
        · exact insertCrash_avoids _
        · exact ih

theorem getNextSequenceNum_avoids : Avoids Stop.deadlock getNextSequenceNum :=
  .state_bind fun _ => .bind (.update _) fun _ => .pure _

theorem evictClflush_avoids (a : ModelAction) : Avoids Stop.deadlock (evictClflush a) := by
  have hrest : ∀ b : ModelAction, Avoids Stop.deadlock (do
      let seqNum := if b.type = .cacheClflush then b.seqNum else b.earliestEffect
      let s ← state
      let mc := flushIntervals seqNum b.line (List.range s.processCount) (seqNum, s.objToCl)
      update fun s => { s with objToCl := mc.2 }
      flushCrashLoop mc.1 (s.getStorelist b.location).reverse
      return b : M ModelAction) := by
    intro b
    apply Avoids.state_bind
    intro s
    exact .bind (.update _) fun _ => .bind (flushCrashLoop_avoids _ _) fun _ => .pure _
  unfold evictClflush
  apply Avoids.bind (.require _ (by decide))
  intro _
  split
  · exact .bind getNextSequenceNum_avoids fun _ => .bind (.pure _) hrest
  · exact .bind (.pure _) hrest

theorem emptyFlushLoop_avoids (actions : List ModelAction) :
    Avoids Stop.deadlock (emptyFlushLoop t actions) := by
  induction actions with
  | nil => exact .pure _
  | cons a rest ih =>
      exact .bind (.update _) fun _ => .bind (.require _ (by decide)) fun _ =>
        .bind (evictClflush_avoids a) fun _ => ih

theorem popFromStoreBuffer_avoids : Avoids Stop.deadlock (popFromStoreBuffer t) := by
  have hstore : ∀ a : ModelAction, Avoids Stop.deadlock (evictStore a >>= noteWrClf t) := by
    intro a
    refine .bind (.bind (.require _ ?_) fun _ => ?_) fun _ => .update _
    · decide
    · exact .bind getNextSequenceNum_avoids fun _ => .bind (.update _) fun _ => .pure _
  apply Avoids.state_bind
  intro s
  split
  · exact .pure _
  · next a rest _ =>
      apply Avoids.bind (.update _)
      intro _
      unfold popAction
      split
      case h_1 | h_2 | h_3 | h_4 => exact hstore a
      case h_5 => exact .bind (evictClflush_avoids a) fun _ => .update _
      case h_6 => exact .update _
      case h_7 => exact .bind (.state_bind fun s => emptyFlushLoop_avoids _) fun _ => .update _
      case h_8 => exact .stop (by decide)

theorem drain_avoids : Avoids Stop.deadlock (drain t) := by
  have hloop : ∀ n, Avoids Stop.deadlock (emptyStoreLoop t n) := by
    intro n
    induction n with
    | zero => exact .pure _
    | succ n ih => exact .bind popFromStoreBuffer_avoids fun _ => ih
  exact .bind (.state_bind fun s => hloop _) fun _ => .state_bind fun s => emptyFlushLoop_avoids _

theorem addToStoreBuffer_avoids (a : ModelAction) : Avoids Stop.deadlock (addToStoreBuffer t a) :=
  .bind (.require _ (by decide)) fun _ => .update _

end

end Cxlmc
