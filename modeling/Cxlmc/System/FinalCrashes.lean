import Cxlmc.System.CrashSites

/-!
# The stores of a crashed process

A crash has the clock of the moment, so every store that was evicted before has an older one. What
is evicted later is from a live process, unless the buffers of a crashed process are popped:
`process_store_buffer` looks at `crashes` once before its loop, and `execute` and
`process_shutdown` do not look at it after their `yield` (`crashes_final`).
-/

namespace Cxlmc

open Stateful

namespace Model

/-- Every store of a crashed process is older than its crash. -/
def CrashesFinal (s : Model) : Prop :=
  ∀ p n, s.crashes.lookup p = some n → ∀ w, ∀ a ∈ s.storesOf w, s.getProcessId a = p → a.seqNum < n

/-- The crashes are final unless the clock has wrapped around, and no store of a process that had crashed in
`s₀` has been added to a list since. -/
structure FinalSince (s s₀ : Model) : Prop where
  older : s.ticks < 2 ^ 32 → s.CrashesFinal
  added : ∀ p ∈ s₀.crashes, p ∈ s.crashes ∧
    ∀ w, ∀ a ∈ s.storesOf w, s.getProcessId a = p → a ∈ s₀.storesOf w

end Model

section

variable {cfg : Config} {s s' s₀ s₁ : Model} {e : Effect} {ev : Event} {P : Effect → Prop}

/-! ## One effect -/

theorem Model.not_write_of_not_holdsStore {t : ThreadId} (h : s.holdsStore t = false)
    {a : ModelAction} (ha : a ∈ (s.threadMemory t).storeBuffer) : a.isWrite = false := by
  rw [Model.holdsStore, List.any_eq_false] at h
  exact Bool.eq_false_iff.mpr (h a ha)

/-- A crash that was not there before has the clock of the moment. -/
theorem MemStep.lookup_crashes (hcfg : cfg.memPoison = false) (h : MemStep cfg s e s')
    {p : ProcessId} {n : Nat} (hn : s'.crashes.lookup p = some n) :
    s.crashes.lookup p = some n ∨ n = s.nextSequenceNum := by
  by_cases he : e = .crashSelf
  · subst he
    cases h with
    | crashSelf hfirst hmany =>
        have hlookup := @Crashes.Extends.emplace (s.processId + 1) s.processId
          (Nat.ne_of_lt (Nat.lt_succ_self _)) s.nextSequenceNum s.crashes
        rcases hlookup.new p n hn with hold | ⟨_, hnew⟩
        · exact .inl hold
        · exact .inr hnew
  · rcases (h.crashes hcfg he).new p n hn with hold | ⟨_, hnew⟩
    · exact .inl hold
    · exact .inr hnew

/-- An effect keeps the crashes final unless it pops a store of a crashed process. -/
theorem MemStep.crashesFinal (hcfg : cfg.memPoison = false) (h : MemStep cfg s e s')
    (hr : s.Recorded) (hf : s.FinalSince s₀)
    (hpop : ∀ t a, e = .popStore t a → (s.threads t).processId ∉ s.crashes) : s'.FinalSince s₀ := by
  obtain ⟨_, _, hpid⟩ := h.threadCount hcfg
  -- a store of a crashed process was there before
  have hthere : ∀ p w, p ∈ s'.crashes → (∀ t b, e = .popStore t b → p ∈ s.crashes) →
      ∀ a ∈ s'.storesOf w, s'.getProcessId a = p → a ∈ s.storesOf w ∧ s.getProcessId a = p := by
    intro p w _ hbefore a ha hp
    rcases h.mem_storesOf hcfg ha with ha | ⟨t, b, rest, rfl, hbuf, rfl, rfl⟩
    · refine ⟨ha, ?_⟩
      rw [Model.getProcessId, hpid _ (hr.listed w a (mem_of_mem_evictedStores ha)).1] at hp
      exact hp
    · obtain ⟨htid, hlt, _⟩ := hr.buffered t b (by rw [hbuf]; exact List.mem_cons_self)
      have hpt : (s.threads t).processId = p := by
        rw [← hp, Model.getProcessId, htid]
        exact (hpid t hlt).symm
      have hmem := hbefore t b rfl
      rw [← hpt] at hmem
      exact absurd hmem (hpop t b rfl)
  constructor
  case older =>
    intro hticks p n hn w a ha hp
    have hbefore : s.ticks < 2 ^ 32 := Nat.lt_of_le_of_lt (h.ticks_le hcfg) hticks
    have hcrashed : p ∈ s'.crashes := AList.lookup_isSome.mp (by rw [hn]; rfl)
    have hpops : ∀ t b, e = .popStore t b → p ∈ s.crashes := by
      rintro t b rfl
      have hcrashes : s'.crashes = s.crashes := by
        cases h
        rfl
      rw [← hcrashes]
      exact hcrashed
    obtain ⟨ha, hp⟩ := hthere p w hcrashed hpops a ha hp
    rcases h.lookup_crashes hcfg hn with hold | rfl
    · exact hf.older hbefore p n hold w a ha hp
    · rw [Memory.nextSequenceNum_of_lt hbefore]
      exact Nat.lt_of_le_of_lt a.seqNum_le (hr.clock w a ha)
  case added =>
    intro p hp
    obtain ⟨hcrashed, hlisted⟩ := hf.added p hp
    have hstays := h.mem_crashes hcfg hcrashed
    refine ⟨hstays, ?_⟩
    intro w a ha hpa
    obtain ⟨ha, hpa⟩ := hthere p w hstays (fun _ _ _ => hcrashed) a ha hpa
    exact hlisted w a ha hpa

/-! ## A path of effects -/

/-- Along a path of the running thread that pops stores of its own process only: the process is live,
or the buffers hold no store. -/
theorem Goes.crashesFinal (hcfg : cfg.memPoison = false) (hyield : ¬ P .yield) (hself : ¬ P .crashSelf)
    (hpops : ∀ t b, P (.popStore t b) → t < s.threadCount ∧ (s.threads t).processId = s.processId ∧
      (s.processId ∉ s.crashes ∨ s.holdsStore t = false ∧ ∀ x, P (.push x) → x.isWrite = false))
    (hr : s.Recorded) (hf : s.FinalSince s₀) (h : Goes (MemStep cfg) P s s') : s'.FinalSince s₀ := by
  -- what the path does not change: the processes, a live process, and a buffer without stores
  suffices hinv : s.Stays s' ∧ s'.Recorded ∧ s'.FinalSince s₀ ∧
      (s.processId ∉ s.crashes → s.processId ∉ s'.crashes) ∧
      ∀ t, s.holdsStore t = false → (∀ x, P (.push x) → x.isWrite = false) →
        s'.holdsStore t = false from hinv.2.2.1
  apply h.invariant (I := fun a => s.Stays a ∧ a.Recorded ∧ a.FinalSince s₀ ∧
      (s.processId ∉ s.crashes → s.processId ∉ a.crashes) ∧
      ∀ t, s.holdsStore t = false → (∀ x, P (.push x) → x.isWrite = false) →
        a.holdsStore t = false) _ ⟨.refl s, hr, hf, id, fun _ h _ => h⟩
  intro a f b hP ⟨hstays, hra, hfa, hlive, hnone⟩ hstep
  have hne : ∀ f', f = f' → P f' := fun _ h => h ▸ hP
  refine ⟨hstays.trans (hstep.stays hcfg fun h => hyield (hne _ h)), hstep.recorded hcfg hra, ?_, ?_, ?_⟩
  · apply hstep.crashesFinal hcfg hra hfa
    intro t x hpop
    obtain ⟨hlt, hown, hcase⟩ := hpops t x (hne _ hpop)
    rw [hstays.processId t hlt, hown]
    rcases hcase with hl | ⟨hbuf, hpush⟩
    · exact hlive hl
    · subst hpop
      have hnot := hnone t hbuf hpush
      cases hstep with
      | popStore _ _ rest hmem hw =>
          have hx := Model.not_write_of_not_holdsStore hnot (a := x) (by
            rw [hmem]
            exact List.mem_cons_self)
          rw [hw] at hx
          cases hx
  · intro hl
    have hext := hstep.crashes hcfg fun h => hself (hne _ h)
    rw [hstays.ownProcess hr.active] at hext
    exact fun hmem => hlive hl (hext.own_mem hmem)
  · intro t hbuf hpush
    have hnot := hnone t hbuf hpush
    rw [Model.holdsStore, List.any_eq_false]
    intro x hx
    rw [Bool.not_eq_true]
    rcases hstep.mem_storeBuffer hcfg hx with hx | ⟨rfl, _⟩
    · exact Model.not_write_of_not_holdsStore hnot hx
    · exact hpush x hP

/-- The running process crashes itself. -/
theorem SelfCrash.crashesFinal (hcfg : cfg.memPoison = false) (hr : s.Recorded) (hf : s.FinalSince s₀)
    (h : SelfCrash cfg s s') : s'.FinalSince s₀ := by
  obtain ⟨s₁, hstep, hidle⟩ := h
  have hf₁ := hstep.crashesFinal hcfg hr hf nofun
  have hlast : MemStep cfg s₁ .idle s' := .idle hidle
  exact hlast.crashesFinal hcfg (hstep.recorded hcfg hr) hf₁ nofun

theorem Model.Control.crashesFinal (h : s.Control s') (hr : s.Recorded) (hf : s.FinalSince s₀) :
    s'.FinalSince s₀ := by
  have hstep : MemStep .asBuilt s .yield s' := .yield h
  exact hstep.crashesFinal rfl hr hf nofun

theorem Model.Control.recorded (h : s.Control s') (hr : s.Recorded) : s'.Recorded := by
  have hstep : MemStep .asBuilt s .yield s' := .yield h
  exact hstep.recorded rfl hr

theorem Model.prepared_recorded (a : ModelAction) (hr : s.Recorded) : (s.prepared a).Recorded := by
  have hgoes : Goes (MemStep .asBuilt) (fun _ => True) s (s.prepared a) :=
    s.prepared_goes fun _ => trivial
  exact Goes.recorded rfl hgoes hr

theorem Model.prepared_crashesFinal (a : ModelAction) (hr : s.Recorded) (hf : s.FinalSince s₀) :
    (s.prepared a).FinalSince s₀ := by
  unfold Model.prepared
  split
  · next h =>
      have hinit : MemStep .asBuilt s (.initial a.word) (s.initialized a.word) :=
        .initial a.word (alignAddress_alignAddress _) h.2
      exact hinit.crashesFinal rfl hr hf nofun
  · exact hf

/-! ## One step -/

/-- The prologue of an action and its fence: the stores that wait are popped only if the process is
live. -/
theorem Model.fence_spares {a : ModelAction} {ret : Ret} (hctx : s.contextOf s.threadId = .ready a ret)
    (hfence : a.isFence = true) (hspare : s.popsCrashed = false) :
    s.processId ∉ s.crashes ∨ a.isWrite = false ∧ s.holdsStore s.threadId = false := by
  rw [Model.popsCrashed, hctx] at hspare
  simp only [hfence, Bool.and_true, Bool.and_eq_false_iff, Bool.or_eq_false_iff] at hspare
  rw [← Model.isCrashed_iff, Bool.not_eq_true]
  exact hspare

/-- A round of the popping loop. -/
theorem PopStep.crashesFinal (hcfg : cfg.memPoison = false) {mem : ThreadId} {a : ModelAction}
    {k : M Unit} {rest : List ModelAction} (h : PopStep cfg mem a s k s₁) (hr : s.Recorded)
    (hf : s.FinalSince s₀) (hbuf : (s.threadMemory mem).storeBuffer = a :: rest)
    (hspare : (s.threads mem).processId ∉ s.crashes ∨ a.isWrite = false) :
    s₁.Recorded ∧ s₁.FinalSince s₀ := by
  obtain ⟨⟨f, hpops, hstep⟩, _⟩ := h
  refine ⟨hstep.recorded hcfg hr, hstep.crashesFinal hcfg hr hf ?_⟩
  intro t b hpop
  subst hpop
  obtain ⟨rfl, rfl⟩ := hpops
  cases hstep with
  | popStore _ _ _ _ hw =>
      rcases hspare with hlive | hnot
      · exact hlive
      · rw [hw] at hnot
        cases hnot

/-- What an entry that was popped sets off pops no store. -/
theorem Goes.settles_crashesFinal (hcfg : cfg.memPoison = false) {mem : ThreadId}
    (h : Goes (MemStep cfg) (Effect.Settles mem) s s') (hr : s.Recorded) (hf : s.FinalSince s₀) :
    s'.FinalSince s₀ :=
  Goes.crashesFinal hcfg (fun h => h) (fun h => h) (fun _ _ h => h.elim) hr hf h

/-- `pop_from_store_buffer` of a buffer of a live process, or of one whose first entry is no store. -/
theorem popFromStoreBuffer_crashesFinal (hcfg : cfg.memPoison = false) {mem : ThreadId}
    {r : Except Stop Unit} (h : (popFromStoreBuffer mem).Ends s r s') (hr : s.Recorded)
    (hf : s.FinalSince s₀) (hend : r = .ok () ∨ r = .error .exit)
    (hspare : (s.threads mem).processId ∉ s.crashes ∨
      (s.threadMemory mem).storeBuffer.head?.any (·.isWrite) = false) : s'.FinalSince s₀ := by
  cases hbuf : (s.threadMemory mem).storeBuffer with
  | nil =>
      rw [popFromStoreBuffer, ends_state_bind, hbuf] at h
      obtain ⟨_, rfl⟩ := ends_pure.mp h
      exact hf
  | cons a rest =>
      rw [hbuf] at hspare
      have hexit : r ≠ .error .assertFailed := by
        rcases hend with rfl | rfl <;> simp
      obtain ⟨k, s₁, hpop, hk⟩ := ends_popFromStoreBuffer cfg (hr.unclocked mem) hbuf hexit h
      obtain ⟨hr₁, hf₁⟩ := hpop.crashesFinal hcfg hr hf hbuf hspare
      rcases hend with rfl | rfl
      · exact Goes.settles_crashesFinal hcfg (hpop.rest.returns hk) hr₁ hf₁
      · obtain ⟨s₂, hgoes, hcrash⟩ := hpop.rest.leaves hk
        exact hcrash.crashesFinal hcfg (Goes.recorded hcfg hgoes hr₁)
          (Goes.settles_crashesFinal hcfg hgoes hr₁ hf₁)

/-- The popping loop, in the state that the round has set. -/
theorem Model.popping_crashesFinal (hcfg : cfg.memPoison = false) {mem : ThreadId} {n v : Nat}
    {ret : Ret} {r : Except Stop Unit} (hr : s.Recorded) (hf : s.FinalSince s₀)
    (hspare : s.popsCrashed = false) (hctx : s.contextOf s.threadId = .popping mem (n + 1) v ret)
    (hend : r = .ok () ∨ r = .error .exit)
    (h : (popFromStoreBuffer mem).Ends (s.setContext s.threadId (.popping mem n v ret)) r s') :
    s'.FinalSince s₀ := by
  have hset := (Model.MovesTo.setContext s (.popping mem n v ret)).toControl
  apply popFromStoreBuffer_crashesFinal hcfg h (hset.recorded hr) (hset.crashesFinal hr hf) hend
  rw [Model.popsCrashed, hctx] at hspare
  simp only [Bool.and_eq_false_iff] at hspare
  have hpid : ((s.setContext s.threadId (.popping mem n v ret)).threads mem).processId =
      (s.threads mem).processId := by
    show (Function.update s.threads s.threadId _ mem).processId = _
    rw [Function.update_apply]
    split
    · next hself => rw [hself]
    · rfl
  rw [hpid, ← Model.isCrashed_iff, Bool.not_eq_true]
  exact hspare

/-- `execute` in the state after `ensureInitialValue`. -/
theorem Executed.crashesFinal (hcfg : cfg.memPoison = false) {a : ModelAction} {v : Nat} {rf : Slots}
    (hr : s.Recorded) (hf : s.FinalSince s₀) (htid : a.tid = s.threadId) (hseq : a.tick = 0)
    (hspare : a.isFence = true →
      s.processId ∉ s.crashes ∨ a.isWrite = false ∧ s.holdsStore s.threadId = false)
    (h : Executed cfg a s v rf s') : s'.FinalSince s₀ := by
  refine Goes.crashesFinal hcfg ?_ ?_ ?_ hr hf (h.goes htid hseq)
  · intro hyield
    cases hyield with
    | drains _ h => exact h
  · intro hself
    cases hself with
    | drains _ h => exact h
  · intro t b hpop
    cases hpop with
    | drains hfence ht =>
        cases ht
        refine ⟨hr.active, rfl, ?_⟩
        rcases hspare hfence with hlive | ⟨hw, hbuf⟩
        · exact .inl hlive
        · refine .inr ⟨hbuf, ?_⟩
          intro x hx
          cases hx with
          | push _ => exact hw
          | drains _ h => exact h.elim
          | createPush htype _ =>
              simp [ModelAction.isFence, ModelAction.isWrite, htype] at hfence

/-- The fence of a process that crashes in it, after the action itself was added to the buffer. -/
theorem Model.fence_crashesFinal {a : ModelAction} {ret : Ret} {s₂ s₃ : Model} (hcfg : cfg.memPoison = false)
    (hplaced : s.Placed) (hr : s.Recorded) (hf : s.FinalSince s₀) (hspare : s.popsCrashed = false)
    (hctx : s.contextOf s.threadId = .ready a ret) (hfence : a.isFence = true)
    (hpush : s₂ = s.prepared a ∨ a.isBuffered = true ∧ s₂ = (s.prepared a).pushed s.threadId a.copy)
    (h : Goes (MemStep cfg) (Effect.Drains s.threadId) s₂ s₃) : s₃.Recorded ∧ s₃.FinalSince s₀ := by
  have hholds := hplaced.holds s.threadId
  rw [hctx] at hholds
  have hself := s.prepared_threadId a
  have hr₁ := Model.prepared_recorded a hr
  have hf₁ := Model.prepared_crashesFinal a hr hf
  obtain ⟨hcr, hmem⟩ := s.prepared_memory a
  have hpid : (s.prepared a).processId = s.processId := (s.prepared_stays a).ownProcess hr.active
  have hgoes : Goes (MemStep cfg) (fun f => f.Drains s.threadId ∨ a.isBuffered = true ∧ f = .push a.copy)
      (s.prepared a) s₃ := by
    have hdrains := h.mono (fun f hf => (.inl hf :
      f.Drains s.threadId ∨ a.isBuffered = true ∧ f = .push a.copy))
    rcases hpush with rfl | ⟨hbuf, rfl⟩
    · exact hdrains
    · have hstep : MemStep cfg (s.prepared a) (.push a.copy)
          ((s.prepared a).pushed (s.prepared a).threadId a.copy) :=
        .push a.copy (hholds.tid_eq.1.trans hself.symm) hholds.tid_eq.2.1 hbuf rfl
      rw [hself] at hstep
      exact (Goes.single hstep (.inr ⟨hbuf, rfl⟩)).trans hdrains
  refine ⟨Goes.recorded hcfg hgoes hr₁, Goes.crashesFinal hcfg ?_ ?_ ?_ hr₁ hf₁ hgoes⟩
  · rintro (h | ⟨_, h⟩)
    · exact h
    · cases h
  · rintro (h | ⟨_, h⟩)
    · exact h
    · cases h
  · rintro t b (ht | ⟨_, ht⟩)
    swap
    · cases ht
    cases ht
    refine ⟨hself ▸ hr₁.active, by rw [← hself]; rfl, ?_⟩
    rw [hpid, hcr, Model.holdsStore, hmem]
    rcases Model.fence_spares hctx hfence hspare with hlive | ⟨hw, hbuf⟩
    · exact .inl hlive
    · refine .inr ⟨hbuf, ?_⟩
      rintro x (hx | ⟨_, hx⟩)
      · exact hx.elim
      · cases hx
        exact hw

/-- The loop of `process_shutdown` over the threads of the process. -/
theorem Model.shutdown_crashesFinal {s₂ : Model} (hcfg : cfg.memPoison = false) (hr : s.Recorded)
    (hf : s.FinalSince s₀) (hspare : s.popsCrashed = false) (hctx : s.contextOf s.threadId = .shutdown)
    (h : Goes (MemStep cfg) (Effect.ShutsDown s) s s₂) : s₂.FinalSince s₀ := by
  refine Goes.crashesFinal hcfg ?_ ?_ ?_ hr hf h
  · rintro ⟨t, _, _, h⟩
    exact h
  · rintro ⟨t, _, _, h⟩
    exact h
  · rintro t b ⟨u, hlt, hpid, ht⟩
    cases ht
    refine ⟨hlt, hpid, ?_⟩
    rw [Model.popsCrashed, hctx] at hspare
    simp only [Bool.and_eq_false_iff, List.any_eq_false, List.mem_range, Bool.not_eq_true,
      decide_eq_false_iff_not] at hspare
    rcases hspare with hlive | hbuf
    · left
      rw [← Model.isCrashed_iff, Bool.not_eq_true]
      exact hlive
    · right
      refine ⟨(hbuf t hlt).resolve_left fun h => h hpid, ?_⟩
      rintro x ⟨_, _, _, hx⟩
      exact hx.elim

/-- What happens before an `exit`. -/
theorem ExitPath.crashesFinal (hcfg : cfg.memPoison = false) (hplaced : s.Placed) (hr : s.Recorded)
    (hf : s.FinalSince s₀) (hspare : s.popsCrashed = false) (h : ExitPath cfg s s₁) :
    s₁.FinalSince s₀ := by
  cases h with
  | quiet _ h => exact h.toControl.crashesFinal hr hf
  | insertCrash _ h hcrash =>
      exact hcrash.crashesFinal hcfg (h.control.recorded hr) (h.control.crashesFinal hr hf)
  | @execute a ret s₂ s₃ _ hctx hfence hpush h hcrash =>
      obtain ⟨hr₃, hf₃⟩ := Model.fence_crashesFinal hcfg hplaced hr hf hspare hctx hfence hpush h
      exact hcrash.crashesFinal hcfg hr₃ hf₃
  | pop hctx h => exact Model.popping_crashesFinal hcfg hr hf hspare hctx (.inr rfl) h
  | @shutdown s₂ _ hctx h hend =>
      have hf₂ := Model.shutdown_crashesFinal hcfg hr hf hspare hctx h
      have hr₂ := Goes.recorded hcfg h hr
      rcases hend with hidle | hcrash
      · exact hidle.control.crashesFinal hr₂ hf₂
      · exact hcrash.crashesFinal hcfg hr₂ hf₂

/-- A step keeps the crashes final unless it pops a store of a crashed process. -/
theorem StepCase.crashesFinal (hcfg : cfg.memPoison = false) (hplaced : s.Placed) (hr : s.Recorded)
    (hf : s.FinalSince s₀) (hspare : s.popsCrashed = false) (h : StepCase cfg s ev s') :
    s'.FinalSince s₀ := by
  cases h with
  | called _ _ _ _ h => exact h.toControl.crashesFinal hr hf
  | secondHalf _ _ _ _ h => exact h.toControl.crashesFinal hr hf
  | lockAgain _ _ _ _ h => exact h.toControl.crashesFinal hr hf
  | @executed a ret v n rf t s₁ _ hctx h h' =>
      have hholds := hplaced.holds s.threadId
      rw [hctx] at hholds
      obtain ⟨htid, hseq⟩ := Issued.stamped (s := s) hholds
      have hr₁ := Model.prepared_recorded a hr
      have hf₁ := Model.prepared_crashesFinal a hr hf
      have hself := s.prepared_threadId a
      obtain ⟨hcr, hmem⟩ := s.prepared_memory a
      have hpid : (s.prepared a).processId = s.processId :=
        (s.prepared_stays a).ownProcess hr.active
      have hexec : s₁.FinalSince s₀ := by
        apply h.crashesFinal hcfg hr₁ hf₁ htid hseq
        intro hfence
        rw [hpid, hcr, hself, Model.holdsStore, hmem, ModelAction.isWrite, s.stamp_type]
        simp only [ModelAction.isFence, ModelAction.isWrite, ModelAction.isSeqCst, s.stamp_type,
          s.stamp_order] at hfence
        exact Model.fence_spares hctx hfence hspare
      exact h'.toControl.crashesFinal (Goes.recorded hcfg (h.goes htid hseq) hr₁) hexec
  | resumed _ h => exact h.toControl.crashesFinal hr hf
  | blocked _ _ h => exact h.toControl.crashesFinal hr hf
  | finished _ h => exact h.toControl.crashesFinal hr hf
  | popped hctx h => exact Model.popping_crashesFinal hcfg hr hf hspare hctx (.inl rfl) h
  | returned _ h => exact h.toControl.crashesFinal hr hf
  | @wrote mem v loc size val _ =>
      have hset := (Model.MovesTo.setContext s .user).toControl
      have hwrite : MemStep cfg (s.setContext s.threadId .user) (.write loc size) _ :=
        .write loc size val
      exact hwrite.crashesFinal hcfg (hset.recorded hr) (hset.crashesFinal hr hf) (by simp)
  | noAction _ _ h => exact h.toControl.crashesFinal hr hf
  | exited hpath h =>
      exact h.toControl.crashesFinal (Goes.recorded hcfg (hpath.goes hplaced rfl) hr)
        (hpath.crashesFinal hcfg hplaced hr hf hspare)

/-! ## Runs -/

/-- In a run no site of which leaves stores of a crashed process to be popped later, no store of a process
in `crashes` is added to a list, and until the clock wraps around every store of such a process is older
than its crash. -/
theorem crashes_final {n cxlMapping : Nat} {memory : Nat → Nat} {mutexType : MutexId → MutexType}
    {tr : List (Model × Label)} (hrun : IsRun .asBuilt n cxlMapping memory mutexType tr s')
    (hsites : ∀ x ∈ stepsOf tr s', ∀ p, p ∈ x.2.2.crashes → x.1.crashSite x.2.2 p = true →
      x.2.2.leavesStores p = false) :
    (∀ x ∈ stepsOf tr s', ∀ p ∈ x.1.crashes, ∀ w, ∀ a ∈ x.2.2.storesOf w, x.2.2.getProcessId a = p →
      a ∈ x.1.storesOf w) ∧
    (s'.ticks < 2 ^ 32 → (∀ x ∈ stepsOf tr s', x.1.CrashesFinal) ∧ s'.CrashesFinal) := by
  have hspare := hrun.spares rfl hsites
  have hinit : (Model.init n cxlMapping memory mutexType).Recorded ∧
      ((Model.init n cxlMapping memory mutexType).ticks < 2 ^ 32 →
        (Model.init n cxlMapping memory mutexType).CrashesFinal) :=
    ⟨Model.recorded_init hrun.1, fun _ => nofun⟩
  -- a step from a state in which the crashes are final
  have hsince : ∀ {s l s₁}, (s, l, s₁) ∈ stepsOf tr s' → s.Placed → s.Recorded →
      (s.ticks < 2 ^ 32 → s.CrashesFinal) → StepCase .asBuilt s l.event s₁ → s₁.FinalSince s := by
    intro s l s₁ hmem hplaced hr hf hcase
    exact hcase.crashesFinal rfl hplaced hr ⟨hf, fun p hp => ⟨hp, fun w a ha _ => ha⟩⟩ (hspare _ hmem)
  obtain ⟨hall, _, _, hlast⟩ := hrun.invariant
    (P := fun s => s.Recorded ∧ (s.ticks < 2 ^ 32 → s.CrashesFinal)) rfl hinit (by
    intro s l s₁ hmem hplaced hp _ hcase
    exact ⟨hcase.recorded rfl hplaced hp.1, (hsince hmem hplaced hp.1 hp.2 hcase).older⟩)
  constructor
  · intro x hx p hp w a ha hpa
    obtain ⟨hplaced, ⟨hr, hf⟩, _, hcase⟩ := hall x hx
    exact ((hsince hx hplaced hr hf hcase).added p hp).2 w a ha hpa
  · intro hticks
    refine ⟨fun x hx => ?_, hlast hticks⟩
    exact (hall x hx).2.1.2 (Nat.lt_of_le_of_lt (hrun.ticks_le rfl hx) hticks)

end

/-! ## A crashed process evicts its stores -/

/-- Process 1 writes to a word three times and is suspended in the `yield` of a sequentially
consistent store; process 0 reads the word, which crashes process 1, and passes the token back. -/
def storeAfterCrash : List (Input × List Nat) :=
  [({ call := .schedYield }, []),
   ({ call := .store 4096 .w64 1 }, []), ({}, []), ({}, []),
   ({ call := .store 4096 .w64 2 }, []), ({}, []), ({}, []),
   ({ call := .store 4096 .w64 3 }, []), ({ rand := 1, random := 2 }, []), ({}, []), ({}, []),
   ({}, []),
   ({ call := .atomicStore 4096 .w64 4 5 }, []),
   ({}, []), ({}, []),
   ({ call := .load 4096 .w64 }, []), ({}, [0, 1]), ({}, []),
   ({ call := .schedYield }, []),
   ({}, [])]

/-- The run of `storeAfterCrash` evicts a store of process 1 after its crash. -/
theorem crashes_not_final : ∃ tr s,
    IsRun .asBuilt 2 4096 (fun _ => 0) (fun _ => .default) tr s ∧ ¬ s.CrashesFinal := by
  obtain ⟨tr, s, hrun, hcheck⟩ := exists_run_of_replay .asBuilt
    (Model.init 2 4096 (fun _ => 0) (fun _ => .default)) storeAfterCrash
    (fun _ s =>
      decide (s.crashes.lookup 1 = some 2) &&
      (s.storesOf 4096).any fun a => decide (s.getProcessId a = 1) && decide (2 ≤ a.seqNum))
    (by decide +kernel)
  simp only [Bool.and_eq_true, List.any_eq_true, decide_eq_true_eq] at hcheck
  obtain ⟨hcrash, a, ha, hpid, hseq⟩ := hcheck
  refine ⟨tr, s, ⟨by decide, hrun⟩, ?_⟩
  intro hfinal
  exact absurd (hfinal 1 2 hcrash 4096 a ha hpid) (Nat.not_lt_of_le hseq)

/-- The thread of process 1 is suspended in a `sched_yield` instead. When it has the token again, it goes
back to the program and notices the crash at its next call, and process 0 goes on with a store. -/
def yieldsAfterCrash : List (Input × List Nat) :=
  yieldAfterCrash.append
    [({}, []), ({ call := .load 4096 .w64 }, []), ({}, []), ({}, []),
      ({ call := .store 4096 .w64 4 }, []), ({}, []), ({}, []),
      ({ call := .mfence 4096 }, []), ({}, []), ({}, [])]

/-- `crashes_final` on the run of `yieldsAfterCrash`: a store of process 1 is still in its buffer. -/
theorem crashes_final_readCrash : ∃ tr s,
    IsRun .asBuilt 2 4096 (fun _ => 0) (fun _ => .default) tr s ∧ s.crashes.lookup 1 = some 2 ∧
    (s.storesOf 4096).length = 3 ∧ s.holdsStore 1 = true ∧
    (∀ x ∈ stepsOf tr s, ∀ p ∈ x.1.crashes, ∀ w, ∀ a ∈ x.2.2.storesOf w, x.2.2.getProcessId a = p →
      a ∈ x.1.storesOf w) ∧
    (∀ x ∈ stepsOf tr s, x.1.CrashesFinal) ∧ s.CrashesFinal := by
  obtain ⟨tr, s, hrun, hcheck⟩ := exists_run_of_replay .asBuilt
    (Model.init 2 4096 (fun _ => 0) (fun _ => .default)) yieldsAfterCrash
    (fun tr s =>
      (stepsOf tr s).all (fun x => x.2.2.crashes.keys.all fun p =>
        !x.1.crashSite x.2.2 p || !x.2.2.leavesStores p) &&
      decide (s.crashes.lookup 1 = some 2 ∧ (s.storesOf 4096).length = 3) &&
      s.holdsStore 1 && decide (s.ticks < 2 ^ 32))
    (by decide +kernel)
  simp only [Bool.and_eq_true, List.all_eq_true, Bool.or_eq_true, Bool.not_eq_true', decide_eq_true_eq]
    at hcheck
  obtain ⟨⟨⟨hsites, hcrash, hlength⟩, hholds⟩, hticks⟩ := hcheck
  have hrun' : IsRun .asBuilt 2 4096 (fun _ => 0) (fun _ => .default) tr s := ⟨by decide, hrun⟩
  obtain ⟨hnone, hfinal⟩ := crashes_final hrun' (by
    intro x hx p hp hsite
    have h := hsites x hx p (AList.mem_keys.mp hp)
    rw [hsite] at h
    exact h.resolve_left nofun)
  exact ⟨tr, s, hrun', hcrash, hlength, hholds, hnone, hfinal hticks⟩

end Cxlmc
