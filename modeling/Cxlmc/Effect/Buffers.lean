import Cxlmc.Effect.Basic

/-!
# What popping and draining a buffer does

`popFromStoreBuffer_does` is the effect of one `pop_from_store_buffer`: the first entry leaves the
store buffer, and what it sets off (flushes, crashes, bookkeeping) leaves the store buffers alone.
`drain_does` is the effect of `empty_store_buffer` and `empty_flush_buffer`, which end with both
buffers empty (`drain_empty`).
-/

namespace Cxlmc

open Stateful

namespace Effect

/-- What a flush may set off. -/
def Crashes : Effect → Prop
  | idle | crash _ => True
  | _ => False

/-- What the entry of thread `t` that has left the store buffer may set off. -/
def Settles (t : ThreadId) : Effect → Prop
  | idle | crash _ => True
  | flush u _ | note u _ | sfenceDone u _ => u = t
  | _ => False

/-- The entry leaves the store buffer of `t`. -/
def Pops (t : ThreadId) (entry : ModelAction) : Effect → Prop
  | popStore u a | popClflush u a | popClflushopt u a | popSfence u a => u = t ∧ a = entry
  | _ => False

/-- What emptying the buffers of `t` may do. -/
def Drains (t : ThreadId) : Effect → Prop
  | idle | crash _ => True
  | popStore u _ | popClflush u _ | popClflushopt u _ | popSfence u _ => u = t
  | flush u _ | note u _ | sfenceDone u _ => u = t
  | _ => False

theorem Crashes.settles {e : Effect} (t : ThreadId) (h : e.Crashes) : e.Settles t := by
  cases e <;> trivial

theorem Settles.drains {t : ThreadId} {e : Effect} (h : e.Settles t) : e.Drains t := by
  cases e <;> first | exact h | exact h.elim

theorem Pops.drains {t : ThreadId} {entry : ModelAction} {e : Effect} (h : e.Pops t entry) :
    e.Drains t := by
  cases e <;> first | exact h.1 | exact h.elim

end Effect

/-- The running process has crashed itself and is about to exit. -/
def SelfCrash (cfg : Config) (s s' : Model) : Prop :=
  ∃ s₁, MemStep cfg s .crashSelf s₁ ∧ s₁.Idle s'

/-- What code of the checker does to the memory. It leaves through `exit` only by a crash of the
running process. -/
abbrev Performs (cfg : Config) (P : Effect → Prop) {α : Type} (m : M α) (s : Model) : Prop :=
  Does (MemStep cfg) P Stop.exit (SelfCrash cfg) m s

section

variable {cfg : Config} {s s' s₁ : Model} {t : ThreadId} {α : Type} {P : Effect → Prop}

theorem Performs.update_idle_bind {f : Model → Model} {k : Unit → M α} (h : s.Idle (f s))
    (hP : P .idle) (hk : Performs cfg P (k ()) (f s)) :
    Performs cfg P ((update f : M Unit) >>= k) s :=
  Does.update_bind (MemStep.idle h) hP hk

/-! ## Crashes -/

theorem Crashes.eq_empty_of_size {c : Crashes} (h : c.size < maxCrashesPerExecution) : c = ∅ := by
  have hlen : c.keys.length = 0 := Nat.lt_one_iff.mp h
  have hentries : c.entries = [] := by
    have := List.length_eq_zero_iff.mp hlen
    simpa [AList.keys, List.keys] using this
  exact AList.ext hentries

theorem Model.crash_eq_insert (h : s.crashes = ∅) (pid : ProcessId) :
    { s with crashes := AList.insert pid s.nextSequenceNum s.crashes } = s.crash pid := by
  have hnot : pid ∉ s.crashes := by
    rw [h]
    exact AList.notMem_empty pid
  rw [Model.crash, Crashes.emplace, if_neg hnot]

theorem Model.Idle.countCrashPoint (s : Model) : s.Idle s.countCrashPoint := by
  exact ⟨⟨rfl, rfl, Nat.le_refl _, fun _ _ => rfl, rfl, fun _ => .inl rfl⟩, rfl⟩

theorem ends_shouldCrash {b : Bool} (h : shouldCrash.Ends s (.ok b) s') :
    s.Idle s' ∧ (b = true → s'.crashes = ∅ ∧ 1 < s'.processCount) := by
  rw [shouldCrash, ends_state_bind] at h
  split at h
  · next hcond =>
      rw [ends_update_bind, decisionPoint, ends_choose_bind] at h
      obtain ⟨c, _, hc⟩ := h
      obtain ⟨_, rfl⟩ := ends_pure.mp hc
      refine ⟨.countCrashPoint s, fun _ => ⟨Crashes.eq_empty_of_size hcond.2.1, ?_⟩⟩
      exact Nat.lt_of_le_of_lt (Nat.le_add_left 1 _) hcond.2.2
  · obtain ⟨hb, rfl⟩ := ends_pure.mp h
    refine ⟨.refl s', ?_⟩
    rintro rfl
    cases hb

theorem shouldCrash_error {e : Stop} : ¬ shouldCrash.Ends s (.error e) s' := by
  intro h
  rw [shouldCrash, ends_state_bind] at h
  split at h
  · rw [ends_update_bind, decisionPoint, ends_choose_bind] at h
    obtain ⟨c, _, hc⟩ := h
    cases (ends_pure.mp hc).1
  · cases (ends_pure.mp h).1

theorem shouldCrash_does : Performs cfg Effect.Crashes shouldCrash s := by
  unfold shouldCrash
  apply Does.state_bind
  split
  · apply Performs.update_idle_bind (.countCrashPoint s) trivial
    exact Does.choose_bind fun c => .pure _
  · exact .pure _

theorem insertCrash_does (pid : ProcessId) : Performs cfg Effect.Crashes (insertCrash pid) s := by
  unfold insertCrash
  apply Does.bind shouldCrash_does
  intro b s₁ hb
  obtain ⟨_, hcond⟩ := ends_shouldCrash hb
  cases b with
  | false => exact .pure _
  | true =>
      obtain ⟨hfirst, hmany⟩ := hcond rfl
      rw [if_pos rfl]
      apply Does.state_bind
      split
      · next hown =>
          -- the crash of the running process, which never returns
          intro r s' h
          rw [ends_update_bind, ends_update_bind, Model.crash_eq_insert hfirst, hown] at h
          obtain ⟨rfl, rfl⟩ := ends_stop.mp h
          refine ⟨nofun, fun _ => ⟨s₁, .refl _, _, .crashSelf hfirst hmany, ?_⟩⟩
          exact .processCrash _
      · next hother => exact Does.update (MemStep.crash pid hother hfirst hmany) trivial

variable (cfg) in
theorem flushCrashLoop_does (min : Nat) (stores : List ModelAction) :
    Performs cfg Effect.Crashes (flushCrashLoop min stores) s := by
  induction stores with
  | nil => exact .pure _
  | cons store older ih =>
      unfold flushCrashLoop
      apply Does.state_bind
      split
      · exact .pure _
      · split
        · exact insertCrash_does _
        · exact ih

/-! ## Flushes -/

theorem flushIntervals_apply (seqNum addr : Nat) (is : List ProcessId) (min : Nat)
    (cls : CacheLineStore) (q : ProcessId) (a : Nat) :
    (flushIntervals seqNum addr is (min, cls)).2 q a =
      if a = addr ∧ q ∈ is ∧ (cls q a).getBegin < seqNum then (cls q a).setBegin seqNum
      else cls q a := by
  induction is generalizing min cls with
  | nil => simp [flushIntervals]
  | cons i is ih =>
      unfold flushIntervals
      dsimp only
      split
      · next hle =>
          rw [ih]
          by_cases h : a = addr ∧ q = i
          · obtain ⟨rfl, rfl⟩ := h
            have hlt : ¬ (cls q a).getBegin < seqNum := Nat.not_lt_of_le hle
            simp [hlt]
          · have hmem : a = addr ∧ q ∈ i :: is ∧ (cls q a).getBegin < seqNum ↔
                a = addr ∧ q ∈ is ∧ (cls q a).getBegin < seqNum := by
              rw [List.mem_cons]
              tauto
            simp only [hmem]
      · next hgt =>
          rw [ih, CacheLineStore.setCacheline_apply]
          by_cases h : q = i ∧ a = addr
          · obtain ⟨rfl, rfl⟩ := h
            have hlt : (cls q a).getBegin < seqNum := Nat.lt_of_not_le hgt
            simp [hlt]
          · rw [if_neg h]
            have hmem : a = addr ∧ q ∈ i :: is ∧ (cls q a).getBegin < seqNum ↔
                a = addr ∧ q ∈ is ∧ (cls q a).getBegin < seqNum := by
              rw [List.mem_cons]
              tauto
            simp only [hmem]

theorem flushIntervals_flushed (s : Model) (seqNum line min : Nat) :
    (flushIntervals seqNum line (List.range s.processCount) (min, s.objToCl)).2 =
      (s.flushed seqNum line).objToCl := by
  funext q a
  rw [flushIntervals_apply]
  simp only [List.mem_range]
  rfl

/-- The part of `evict_clflush` from the loop over the processes on. -/
theorem ends_flushFrom {a : ModelAction} (seqNum : Nat) {r : Except Stop ModelAction}
    (h : (do
      let s ← state
      let (min, cls) := flushIntervals seqNum a.line (List.range s.processCount) (seqNum, s.objToCl)
      update fun s => { s with objToCl := cls }
      flushCrashLoop min (s.getStorelist a.location).reverse
      return a : M ModelAction).Ends s r s') :
    ∃ min, (flushCrashLoop min (s.getStorelist a.location).reverse >>=
      fun _ => (pure a : M ModelAction)).Ends (s.flushed seqNum a.line) r s' := by
  rw [ends_state_bind] at h
  refine ⟨(flushIntervals seqNum a.line (List.range s.processCount) (seqNum, s.objToCl)).1, ?_⟩
  have hcls := flushIntervals_flushed s seqNum a.line seqNum
  generalize flushIntervals seqNum a.line (List.range s.processCount) (seqNum, s.objToCl) = mc at h hcls
  obtain ⟨min, cls⟩ := mc
  obtain rfl : cls = (s.flushed seqNum a.line).objToCl := hcls
  exact h

/-- A flush changes the intervals of its line and may then crash a process. -/
theorem ends_evictClflush {a : ModelAction} {r : Except Stop ModelAction}
    (h : (evictClflush a).Ends s r s') (hexit : r ≠ .error .assertFailed) :
    ∃ min, (a.type = .cacheClflush ∧
        (flushCrashLoop min (s.getStorelist a.location).reverse >>=
          fun _ => (pure { a with tick := s.ticks } : M ModelAction)).Ends
            (s.tick.flushed s.nextSequenceNum a.line) r s') ∨
      (a.type = .cacheClflushopt ∧
        (flushCrashLoop min (s.getStorelist a.location).reverse >>=
          fun _ => (pure a : M ModelAction)).Ends (s.flushed a.earliestEffect a.line) r s') := by
  unfold evictClflush at h
  obtain ⟨htype, h⟩ | ⟨_, he, _⟩ := ends_require_bind.mp h
  · by_cases hclflush : a.type = .cacheClflush
    · rw [if_pos hclflush] at h
      obtain ⟨min, hmin⟩ := ends_flushFrom (if a.type = .cacheClflush then s.nextSequenceNum
        else a.earliestEffect) (s := s.tick) (a := { a with tick := s.ticks }) h
      rw [if_pos hclflush] at hmin
      exact ⟨min, .inl ⟨hclflush, hmin⟩⟩
    · rw [if_neg hclflush] at h
      obtain ⟨min, hmin⟩ := ends_flushFrom (if a.type = .cacheClflush then a.seqNum else a.earliestEffect)
        (s := s) (a := a) h
      rw [if_neg hclflush] at hmin
      exact ⟨min, .inr ⟨htype.resolve_left hclflush, hmin⟩⟩
  · exact absurd he hexit

/-- A path of crashes changes nothing else in the memory. -/
theorem Goes.memory_of_crashes (h : Goes (MemStep cfg) Effect.Crashes s s') :
    s'.toMemory = { s.toMemory with crashes := s'.crashes } := by
  apply h.invariant (I := fun s₁ => s₁.toMemory = { s.toMemory with crashes := s₁.crashes }) _ rfl
  intro a e b he ha hstep
  cases hstep with
  | idle hi => rw [hi.memory, ha]
  | crash pid _ _ _ =>
      have hcrash : (a.crash pid).toMemory = { a.toMemory with crashes := (a.crash pid).crashes } :=
        rfl
      rw [hcrash, ha]
  | _ => exact he.elim

variable (cfg) in
/-- The rest of a flush after the intervals were set. -/
theorem crashLoop_returns {min : Nat} {stores : List ModelAction} {a : ModelAction}
    {r : Except Stop ModelAction}
    (h : (flushCrashLoop min stores >>= fun _ => (pure a : M ModelAction)).Ends s r s') :
    (∃ e, r = .error e) ∨ r = .ok a ∧ Goes (MemStep cfg) Effect.Crashes s s' := by
  rcases ends_bind.mp h with ⟨_, s₁, h₁, h₂⟩ | ⟨e, _, rfl⟩
  · obtain ⟨rfl, rfl⟩ := ends_pure.mp h₂
    exact .inr ⟨rfl, (flushCrashLoop_does _ min stores).returns h₁⟩
  · exact .inl ⟨e, rfl⟩

theorem crashLoop_does (min : Nat) (stores : List ModelAction) (a : ModelAction) :
    Performs cfg Effect.Crashes
      (flushCrashLoop min stores >>= fun _ => (pure a : M ModelAction)) s :=
  Does.bind (flushCrashLoop_does _ min stores) fun _ _ _ => .pure a

/-! ## The flush buffer -/

/-- One round of the loop of `empty_flush_buffer`. -/
theorem emptyFlushLoop_round {a : ModelAction} {rest : List ModelAction}
    {r : Except Stop Unit} (hexit : r ≠ .error .assertFailed)
    (h : (emptyFlushLoop t (a :: rest)).Ends s r s') :
    a.type = .cacheClflushopt ∧ ∃ min,
      (flushCrashLoop min (s.getStorelist a.location).reverse >>= fun _ =>
        emptyFlushLoop t rest).Ends ((s.unqueued t rest).flushed a.earliestEffect a.line) r s' := by
  rw [emptyFlushLoop, ends_update_bind] at h
  obtain ⟨htype, h⟩ | ⟨_, he, _⟩ := ends_require_bind.mp h
  swap
  · exact absurd he hexit
  refine ⟨htype, ?_⟩
  have hnot : ¬ a.type = .cacheClflush := by
    rw [htype]
    simp
  rcases ends_bind.mp h with ⟨b, s₁, h₁, h₂⟩ | ⟨e, h₁, rfl⟩
  · obtain ⟨min, ⟨hc, _⟩ | ⟨_, hmin⟩⟩ := ends_evictClflush h₁ (by simp)
    · exact absurd hc hnot
    · obtain ⟨_, s₂, h₃, h₄⟩ := ends_bind_ok.mp hmin
      obtain ⟨_, rfl⟩ := ends_pure.mp h₄
      exact ⟨min, ends_bind.mpr (.inl ⟨_, s₁, h₃, h₂⟩)⟩
  · obtain ⟨min, ⟨hc, _⟩ | ⟨_, hmin⟩⟩ := ends_evictClflush h₁ (by
      intro he
      cases he
      exact hexit rfl)
    · exact absurd hc hnot
    · rcases ends_bind.mp hmin with ⟨_, _, _, h₄⟩ | ⟨e', h₃, he⟩
      · simp at h₄
      · cases he
        exact ⟨min, ends_bind.mpr (.inr ⟨_, h₃, rfl⟩)⟩

theorem emptyFlushLoop_does {actions : List ModelAction}
    (hbuf : (s.threadMemory t).flushBuffer = actions) :
    Performs cfg (Effect.Settles t) (emptyFlushLoop t actions) s := by
  induction actions generalizing s with
  | nil => exact .pure _
  | cons a rest ih =>
      intro r s' h
      by_cases hexit : r = .error .assertFailed
      · subst hexit
        exact ⟨nofun, nofun⟩
      obtain ⟨htype, min, h⟩ := emptyFlushLoop_round hexit h
      have hflush : Goes (MemStep cfg) (Effect.Settles t) s _ :=
        .single (MemStep.flush t a rest hbuf htype) rfl
      refine Does.of_goes hflush ?_
      refine Does.bind ?_ ?_ r s' h
      · exact (flushCrashLoop_does _ _ _).mono fun _ he => he.settles t
      · intro _ s₁ h₁
        apply ih
        have hmem := Goes.memory_of_crashes ((flushCrashLoop_does cfg _ _).returns h₁)
        show (s₁.toMemory.threadMemory t).flushBuffer = rest
        rw [hmem]
        show (Function.update s.threadMemory t _ t).flushBuffer = rest
        rw [Function.update_self]

theorem emptyFlushLoop_empty {actions : List ModelAction}
    (hbuf : (s.threadMemory t).flushBuffer = actions)
    (h : (emptyFlushLoop t actions).Ends s (.ok ()) s') :
    (s'.threadMemory t).flushBuffer = [] := by
  induction actions generalizing s with
  | nil =>
      obtain ⟨_, rfl⟩ := ends_pure.mp h
      exact hbuf
  | cons a rest ih =>
      obtain ⟨_, min, h⟩ := emptyFlushLoop_round (by nofun) h
      obtain ⟨_, s₁, h₁, h₂⟩ := ends_bind_ok.mp h
      apply ih _ h₂
      have hmem := Goes.memory_of_crashes ((flushCrashLoop_does .asBuilt _ _).returns h₁)
      show (s₁.toMemory.threadMemory t).flushBuffer = rest
      rw [hmem]
      show (Function.update s.threadMemory t _ t).flushBuffer = rest
      rw [Function.update_self]

variable (cfg) in
theorem emptyFlushBuffer_does : Performs cfg (Effect.Settles t) (emptyFlushBuffer t) s :=
  Does.state_bind (emptyFlushLoop_does rfl)

theorem emptyFlushBuffer_empty (h : (emptyFlushBuffer t).Ends s (.ok ()) s') :
    (s'.threadMemory t).flushBuffer = [] :=
  emptyFlushLoop_empty rfl h

/-! ## The store buffer -/

/-- The entry `a` leaves the store buffer of `t` in a step to `s₁`, and `k` is the rest of the code. -/
structure PopStep (cfg : Config) (t : ThreadId) (a : ModelAction) (s : Model) (k : M Unit)
    (s₁ : Model) : Prop where
  pops : ∃ e : Effect, e.Pops t a ∧ MemStep cfg s e s₁
  rest : Performs cfg (Effect.Settles t) k s₁

variable (cfg) in
/-- `pop_from_store_buffer` takes the first entry out and does what that sets off. -/
theorem ends_popFromStoreBuffer {a : ModelAction} {rest : List ModelAction} {r : Except Stop Unit}
    (hseq : s.Unclocked t) (hbuf : (s.threadMemory t).storeBuffer = a :: rest)
    (hexit : r ≠ .error .assertFailed)
    (h : (popFromStoreBuffer t).Ends s r s') :
    ∃ k s₁, PopStep cfg t a s k s₁ ∧ k.Ends s₁ r s' := by
  rw [popFromStoreBuffer, ends_state_bind, hbuf] at h
  change (popAction t a).Ends (s.popped t rest) r s' at h
  unfold popAction at h
  -- a store: `evict_store` and `cl_to_last_wr_clf`
  have hstore : a.isWrite = true →
      (evictStore a >>= noteWrClf t).Ends (s.popped t rest) r s' →
      ∃ k s₁, PopStep cfg t a s k s₁ ∧ k.Ends s₁ r s' := by
    intro hw h
    have hr : r = .ok () ∧
        s' = ((s.popped t rest).evicted a).noted t a.line s.nextSequenceNum := by
      rcases ends_bind.mp h with ⟨b, s₁, h₁, h₂⟩ | ⟨e, h₁, rfl⟩
      · obtain ⟨hb, rfl⟩ := (ends_evictStore hw).mp h₁
        cases hb
        exact ends_update.mp h₂
      · have he := ((ends_evictStore hw).mp h₁).1
        cases he
    obtain ⟨rfl, rfl⟩ := hr
    refine ⟨pure (), _, ⟨⟨.popStore t a, ⟨rfl, rfl⟩, .popStore t a rest hbuf hw⟩, .pure _⟩, ?_⟩
    exact ends_pure.mpr ⟨rfl, rfl⟩
  split at h
  case h_1 htype => exact hstore (by simp [ModelAction.isWrite, htype]) h
  case h_2 htype => exact hstore (by simp [ModelAction.isWrite, htype]) h
  case h_3 htype => exact hstore (by simp [ModelAction.isWrite, htype]) h
  case h_4 htype => exact hstore (by simp [ModelAction.isWrite, htype]) h
  case h_5 htype =>
      -- a `CLFLUSH`: the intervals, the crash loop, `cl_to_last_wr_clf`
      have hk : ∃ min, ((flushCrashLoop min (s.getStorelist a.location).reverse >>= fun _ =>
          (pure { a with tick := s.ticks } : M ModelAction)) >>= noteWrClf t).Ends
            ((s.popped t rest).tick.flushed s.nextSequenceNum a.line) r s' := by
        rcases ends_bind.mp h with ⟨b, s₁, h₁, h₂⟩ | ⟨e, h₁, rfl⟩
        · obtain ⟨min, ⟨_, hmin⟩ | ⟨hc, _⟩⟩ := ends_evictClflush h₁ (by nofun)
          · exact ⟨min, ends_bind.mpr (.inl ⟨b, s₁, hmin, h₂⟩)⟩
          · rw [htype] at hc
            cases hc
        · obtain ⟨min, ⟨_, hmin⟩ | ⟨hc, _⟩⟩ := ends_evictClflush h₁ (by
            intro he
            cases he
            exact hexit rfl)
          · exact ⟨min, ends_bind.mpr (.inr ⟨e, hmin, rfl⟩)⟩
          · rw [htype] at hc
            cases hc
      obtain ⟨min, hmin⟩ := hk
      refine ⟨_, _, ⟨⟨.popClflush t a, ⟨rfl, rfl⟩, .popClflush t a rest hbuf htype⟩, ?_⟩, hmin⟩
      apply Does.bind
      · exact (crashLoop_does _ _ _).mono fun _ he => he.settles t
      · intro b s₁ h₁
        obtain ⟨e, he⟩ | ⟨hb, hgoes⟩ := crashLoop_returns cfg h₁
        · cases he
        · cases hb
          have hclock : s₁.ticks = s.ticks + 1 :=
            congrArg Memory.ticks (Goes.memory_of_crashes hgoes)
          exact Does.update (MemStep.note t _ hclock.symm) rfl
  case h_6 htype =>
      obtain ⟨rfl, rfl⟩ := ends_update.mp h
      refine ⟨pure (), _, ⟨⟨.popClflushopt t a, ⟨rfl, rfl⟩, .popClflushopt t a rest hbuf htype⟩, .pure _⟩, ?_⟩
      exact ends_pure.mpr ⟨rfl, rfl⟩
  case h_7 htype =>
      refine ⟨_, _, ⟨⟨.popSfence t a, ⟨rfl, rfl⟩, .popSfence t a rest hbuf htype⟩, ?_⟩, h⟩
      apply Does.bind (emptyFlushBuffer_does _)
      intro _ s₁ _
      exact Does.update (MemStep.sfenceDone t a (hseq a (by rw [hbuf]; exact List.mem_cons_self))) rfl
  case h_8 =>
      obtain ⟨rfl, _⟩ := ends_stop.mp h
      exact absurd rfl hexit

variable (cfg) in
theorem popFromStoreBuffer_does (hseq : s.Unclocked t) :
    Performs cfg (Effect.Drains t) (popFromStoreBuffer t) s := by
  intro r s' h
  by_cases hexit : r = .error .assertFailed
  · subst hexit
    exact ⟨nofun, nofun⟩
  cases hbuf : (s.threadMemory t).storeBuffer with
  | nil =>
      rw [popFromStoreBuffer, ends_state_bind, hbuf] at h
      obtain ⟨rfl, rfl⟩ := ends_pure.mp h
      exact ⟨fun _ _ => .refl _, nofun⟩
  | cons a rest =>
      obtain ⟨k, s₁, ⟨⟨e, he, hstep⟩, hk⟩, hends⟩ := ends_popFromStoreBuffer cfg hseq hbuf hexit h
      have hpop : Goes (MemStep cfg) (Effect.Drains t) s s₁ := .single hstep he.drains
      exact Does.of_goes hpop (hk.mono (fun _ => Effect.Settles.drains) r s' hends)

/-! ## Nothing is left behind -/

theorem Model.threadMemory_setThreadMemory (s : Model) (t u : ThreadId)
    (f : ThreadMemory → ThreadMemory) :
    (s.setThreadMemory t f).threadMemory u =
      if u = t then f (s.threadMemory u) else s.threadMemory u := by
  show Function.update s.threadMemory t (f (s.threadMemory t)) u = _
  rw [Function.update_apply]
  split
  · next h => rw [h]
  · rfl

/-- A change of a thread's memory keeps the parts that it does not touch. -/
theorem Model.setThreadMemory_keeps {α : Type} {f : ThreadMemory → ThreadMemory} (s : Model)
    (t u : ThreadId) (part : ThreadMemory → α) (hf : ∀ mem, part (f mem) = part mem) :
    part ((s.setThreadMemory t f).threadMemory u) = part (s.threadMemory u) := by
  rw [Model.threadMemory_setThreadMemory]
  split
  · exact hf _
  · rfl

/-- The store buffers after an entry has left one of them. -/
theorem MemStep.storeBuffer_of_pops {a : ModelAction} {rest : List ModelAction} {e : Effect}
    (h : MemStep cfg s e s₁) (he : e.Pops t a)
    (hbuf : (s.threadMemory t).storeBuffer = a :: rest) (u : ThreadId) :
    (s₁.threadMemory u).storeBuffer =
      if u = t then rest else (s.threadMemory u).storeBuffer := by
  have hpopped : ∀ rest', (s.threadMemory t).storeBuffer = a :: rest' →
      ((s.popped t rest').threadMemory u).storeBuffer =
        if u = t then rest else (s.threadMemory u).storeBuffer := by
    intro rest' hbuf'
    rw [hbuf'] at hbuf
    cases hbuf
    rw [Model.popped, Model.threadMemory_setThreadMemory]
    split <;> rfl
  cases h with
  | popStore v b rest' hbuf' hw =>
      obtain ⟨rfl, rfl⟩ := he
      rw [← hpopped rest' hbuf', Model.noted, Model.threadMemory_setThreadMemory]
      split <;> rfl
  | popClflush v b rest' hbuf' htype =>
      obtain ⟨rfl, rfl⟩ := he
      exact hpopped rest' hbuf'
  | popClflushopt v b rest' hbuf' htype =>
      obtain ⟨rfl, rfl⟩ := he
      rw [← hpopped rest' hbuf', Model.queued, Model.threadMemory_setThreadMemory]
      split <;> rfl
  | popSfence v b rest' hbuf' htype =>
      obtain ⟨rfl, rfl⟩ := he
      exact hpopped rest' hbuf'
  | _ => exact he.elim

theorem MemStep.storeBuffer_of_settles {e : Effect} (h : MemStep cfg s e s₁) (he : e.Settles t)
    (u : ThreadId) : (s₁.threadMemory u).storeBuffer = (s.threadMemory u).storeBuffer := by
  cases h with
  | idle hi => rw [hi.memory]
  | crash pid _ _ _ => rfl
  | flush v b rest hbuf htype =>
      show ((s.unqueued v rest).threadMemory u).storeBuffer = _
      rw [Model.unqueued, Model.threadMemory_setThreadMemory]
      split <;> rfl
  | note v b hclock =>
      rw [Model.noted, Model.threadMemory_setThreadMemory]
      split <;> rfl
  | sfenceDone v b hseq =>
      rw [Model.threadMemory_setThreadMemory]
      split <;> rfl
  | _ => exact he.elim

theorem Goes.storeBuffer_of_settles (h : Goes (MemStep cfg) (Effect.Settles t) s s')
    (u : ThreadId) : (s'.threadMemory u).storeBuffer = (s.threadMemory u).storeBuffer := by
  apply h.invariant (I := fun s₁ => (s₁.threadMemory u).storeBuffer = (s.threadMemory u).storeBuffer) _ rfl
  intro a e b he ha hstep
  rw [hstep.storeBuffer_of_settles he, ha]

theorem popFromStoreBuffer_storeBuffer (hseq : s.Unclocked t)
    (h : (popFromStoreBuffer t).Ends s (.ok ()) s') (u : ThreadId) :
    (s'.threadMemory u).storeBuffer =
      if u = t then (s.threadMemory t).storeBuffer.tail else (s.threadMemory u).storeBuffer := by
  cases hbuf : (s.threadMemory t).storeBuffer with
  | nil =>
      rw [popFromStoreBuffer, ends_state_bind, hbuf] at h
      obtain ⟨_, rfl⟩ := ends_pure.mp h
      split
      · next hu => rw [hu, hbuf, List.tail_nil]
      · rfl
  | cons a rest =>
      obtain ⟨k, s₁, ⟨⟨e, he, hstep⟩, hk⟩, hends⟩ :=
        ends_popFromStoreBuffer .asBuilt hseq hbuf (by nofun) h
      rw [Goes.storeBuffer_of_settles (hk.returns hends), hstep.storeBuffer_of_pops he hbuf]
      rfl

/-- What is left of a store buffer is unclocked as well. -/
theorem popFromStoreBuffer_unclocked (hseq : s.Unclocked t)
    (h : (popFromStoreBuffer t).Ends s (.ok ()) s') : s'.Unclocked t := by
  intro a ha
  rw [popFromStoreBuffer_storeBuffer hseq h, if_pos rfl] at ha
  exact hseq a (List.mem_of_mem_tail ha)

theorem emptyStoreLoop_storeBuffer (n : Nat) (hseq : s.Unclocked t)
    (h : (emptyStoreLoop t n).Ends s (.ok ()) s') (u : ThreadId) :
    (s'.threadMemory u).storeBuffer =
      if u = t then (s.threadMemory t).storeBuffer.drop n else (s.threadMemory u).storeBuffer := by
  induction n generalizing s with
  | zero =>
      obtain ⟨_, rfl⟩ := ends_pure.mp h
      split
      · next hu => rw [hu, List.drop_zero]
      · rfl
  | succ n ih =>
      obtain ⟨_, s₁, h₁, h₂⟩ := ends_bind_ok.mp h
      rw [ih (popFromStoreBuffer_unclocked hseq h₁) h₂, popFromStoreBuffer_storeBuffer hseq h₁,
        popFromStoreBuffer_storeBuffer hseq h₁]
      split
      · rw [if_pos rfl, List.drop_tail]
      · rfl

/-! ## Draining -/

theorem emptyStoreLoop_does (n : Nat) (hseq : s.Unclocked t) :
    Performs cfg (Effect.Drains t) (emptyStoreLoop t n) s := by
  induction n generalizing s with
  | zero => exact .pure _
  | succ n ih =>
      apply Does.bind (popFromStoreBuffer_does _ hseq)
      intro _ s₁ h₁
      exact ih (popFromStoreBuffer_unclocked hseq h₁)

variable (cfg) in
theorem drain_does (hseq : s.Unclocked t) : Performs cfg (Effect.Drains t) (drain t) s := by
  have hempty : Performs cfg (Effect.Drains t) (emptyStoreBuffer t) s :=
    Does.state_bind (emptyStoreLoop_does _ hseq)
  apply Does.bind hempty
  intro _ s₁ _
  exact (emptyFlushBuffer_does _).mono fun _ => Effect.Settles.drains

/-- A drained thread has nothing left in its buffers. -/
theorem drain_empty (hseq : s.Unclocked t) (h : (drain t).Ends s (.ok ()) s') :
    (s'.threadMemory t).storeBuffer = [] ∧ (s'.threadMemory t).flushBuffer = [] := by
  obtain ⟨_, s₁, h₁, h₂⟩ := ends_bind_ok.mp h
  refine ⟨?_, emptyFlushBuffer_empty h₂⟩
  rw [Goes.storeBuffer_of_settles ((emptyFlushBuffer_does .asBuilt).returns h₂),
    emptyStoreLoop_storeBuffer _ hseq h₁, if_pos rfl, List.drop_length]

end

end Cxlmc
