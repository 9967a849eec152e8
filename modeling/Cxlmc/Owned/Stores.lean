import Cxlmc.System.ProgramOrder
import Cxlmc.Threads.Shutdown

/-!
# One store at a time

A step pushes the stores of its event to the buffer of its thread, and moves entries on besides. What is
known about the stores that the thread has executed so far is carried through a step by two facts: effects
that push no store keep it, and a push adds its store (`StepCase.logged`). The stores of a thread that does
not run the step can only move on (`StepCase.others`).
-/

namespace Cxlmc

open Stateful

/-- The effect adds no store to a buffer. -/
def Effect.StoresNone (e : Effect) : Prop := ∀ b, e = .push b → b.isWrite = false

section

variable {cfg : Config} {s s' s₁ : Model} {e : Effect} {P : Effect → Prop} {t : ThreadId}
  {a b : ModelAction} {v : Nat} {rf : Slots} {ev : Event} {I : List ModelAction → Model → Prop}
  {l : List ModelAction}

/-! ## Effects -/

theorem Effect.Drains.storesNone (h : e.Drains t) : e.StoresNone := by
  rintro b rfl
  exact h.elim

theorem MemStep.opened_of_storesNone (hcfg : cfg.memPoison = false) (h : MemStep cfg s e s')
    (he : e.StoresNone) (ho : s.Opened) : s'.Opened := by
  apply h.opened hcfg _ ho
  intro b hb htype
  have hnot := he b hb
  simp [ModelAction.isWrite, htype] at hnot

/-- Effects that push no store keep what is known. -/
theorem Goes.keeps {J : Model → Prop} (hcfg : cfg.memPoison = false)
    (hkeep : ∀ {x e y}, x.Recorded → x.Opened → J x → MemStep cfg x e y → e.StoresNone → J y)
    (h : Goes (MemStep cfg) P s s') (hP : ∀ e, P e → e.StoresNone) (hr : s.Recorded) (ho : s.Opened)
    (hJ : J s) : s'.Recorded ∧ s'.Opened ∧ J s' := by
  apply h.invariant (I := fun x => x.Recorded ∧ x.Opened ∧ J x) _ ⟨hr, ho, hJ⟩
  intro x e y he hx hstep
  obtain ⟨hrx, hox, hJx⟩ := hx
  exact ⟨hstep.recorded hcfg hrx, hstep.opened_of_storesNone hcfg (hP e he) hox,
    hkeep hrx hox hJx hstep (hP e he)⟩

/-! ## Executing an action -/

/-- An action that stores nothing. -/
theorem Event.stores_eq_nil (hwrite : a.isWrite = false) (hcreate : a.type ≠ .pthreadCreate) :
    (Event.executed a v rf).stores s = [] := by
  rw [Event.stores, if_neg (by simp [hwrite]), if_neg hcreate]

theorem Event.stores_of_isWrite (hwrite : a.isWrite = true) :
    (Event.executed a v rf).stores s = [a.copy] := if_pos hwrite

theorem Event.stores_of_create (hcreate : a.type = .pthreadCreate) :
    (Event.executed a v rf).stores s = [s.createEntry a] := by
  rw [Event.stores, if_neg (by simp [ModelAction.isWrite, hcreate]), if_pos hcreate]

theorem Event.isWrite_of_mem_stores (hb : b ∈ ev.stores s) : b.isWrite = true := by
  cases ev with
  | executed a v rf =>
      rw [Event.stores] at hb
      split at hb
      · next hwrite =>
          rw [List.mem_singleton.mp hb]
          exact hwrite
      · split at hb
        · rw [List.mem_singleton.mp hb]
          rfl
        · cases hb
  | _ => cases hb

theorem Event.allows_push (hb : b ∈ ev.stores s) : Event.Allows s s' ev (.push b) := by
  cases ev with
  | executed a v rf =>
      rw [Event.stores] at hb
      split at hb
      · next hwrite =>
          rw [List.mem_singleton.mp hb]
          exact .executes (.push (isBuffered_of_isWrite hwrite))
      · split at hb
        · next hcreate =>
            rw [List.mem_singleton.mp hb]
            exact .executes (.createPush hcreate s.threadCount)
        · cases hb
  | _ => cases hb

theorem ModelAction.isWrite_of_isLoad (h : a.isLoad = true) :
    a.isWrite = false ∧ a.type ≠ .pthreadCreate := by
  simp only [isLoad, Bool.or_eq_true, decide_eq_true_eq] at h
  rcases h with (h | h) | h <;> simp [isWrite, h]

theorem ModelAction.isWrite_of_isControl (h : a.isControl = true) :
    a.isWrite = false ∧ a.type ≠ .pthreadCreate := by
  simp only [isControl, Bool.and_eq_true, Bool.not_eq_true', decide_eq_true_eq] at h
  exact ⟨not_isWrite_of_not_isBuffered h.1.1.2, h.2⟩

/-- An execution adds the stores of its event, one push each. -/
theorem Executed.logged (hcfg : cfg.memPoison = false)
    (hkeep : ∀ {l x e y}, x.Recorded → x.Opened → I l x → MemStep cfg x e y → e.StoresNone → I l y)
    (hpush : ∀ {l x b y}, x.Recorded → x.Opened → I l x → MemStep cfg x (.push b) y →
      b ∈ (Event.executed a v rf).stores s → I (l ++ [b]) y)
    (h : Executed cfg a s v rf s') (htid : a.tid = s.threadId) (hseq : a.tick = 0) (hr : s.Recorded)
    (ho : s.Opened) (hlist : a.type = .atomicInit → s.objToWr a.word ≠ []) (hI : I l s) :
    s'.Recorded ∧ s'.Opened ∧ I (l ++ (Event.executed a v rf).stores s) s' := by
  have hgoes := h.goes htid hseq
  -- where nothing is stored, all effects keep what is known
  have hquiet : (Event.executed a v rf).stores s = [] →
      (∀ b, Effect.Executes s.threadId a rf (.push b) → b.isWrite = false) →
      s'.Recorded ∧ s'.Opened ∧ I (l ++ (Event.executed a v rf).stores s) s' := by
    intro hnone hP
    rw [hnone, List.append_nil]
    apply Goes.keeps hcfg hkeep hgoes _ hr ho hI
    rintro e he b rfl
    exact hP b he
  have hnopush : a.isWrite = false → a.type ≠ .pthreadCreate →
      ∀ b, Effect.Executes s.threadId a rf (.push b) → b.isWrite = false := by
    intro hwrite hcreate b hb
    cases hb with
    | push _ => exact hwrite
    | drains _ hfalse => exact hfalse.elim
    | createPush htype _ => exact absurd htype hcreate
  cases h with
  | control _ hcontrol _ =>
      obtain ⟨hwrite, hcreate⟩ := ModelAction.isWrite_of_isControl hcontrol
      exact hquiet (Event.stores_eq_nil hwrite hcreate) (hnopush hwrite hcreate)
  | load hload _ _ _ _ _ =>
      obtain ⟨hwrite, hcreate⟩ := ModelAction.isWrite_of_isLoad hload
      exact hquiet (Event.stores_eq_nil hwrite hcreate) (hnopush hwrite hcreate)
  | flush hbuf hwrite =>
      have hcreate : a.type ≠ .pthreadCreate := by
        intro htype
        simp [ModelAction.isBuffered, htype] at hbuf
      exact hquiet (Event.stores_eq_nil hwrite hcreate) (hnopush hwrite hcreate)
  | mfence htype _ =>
      have hwrite : a.isWrite = false := by simp [ModelAction.isWrite, htype]
      have hcreate : a.type ≠ .pthreadCreate := by simp [htype]
      exact hquiet (Event.stores_eq_nil hwrite hcreate) (hnopush hwrite hcreate)
  | store hwrite hdrain =>
      have hstep : MemStep cfg s (.push a.copy) (s.pushed s.threadId a.copy) :=
        .push a.copy htid hseq (isBuffered_of_isWrite hwrite) rfl
      have hstores : (Event.executed a a.value []).stores s = [a.copy] := Event.stores_of_isWrite hwrite
      have ho₁ : (s.pushed s.threadId a.copy).Opened := by
        apply hstep.opened hcfg _ ho
        intro b hb htype
        cases hb
        exact hlist htype
      have hI₁ := hpush hr ho hI hstep (by rw [hstores]; exact List.mem_singleton_self _)
      rw [hstores]
      split at hdrain
      · exact Goes.keeps hcfg hkeep hdrain.goes (fun _ he => he.storesNone) (hstep.recorded hcfg hr) ho₁ hI₁
      · rw [hdrain]
        exact ⟨hstep.recorded hcfg hr, ho₁, hI₁⟩
  | create hcreate hs' =>
      -- `pthread_create` stores the identifier of the new thread, and writes it to the mapping
      have hnew : MemStep cfg s .idle s.newThread := .idle (.newThread s)
      have hstep : MemStep cfg s.newThread (.push (s.createEntry a))
          (s.newThread.pushed s.threadId (s.createEntry a)) := .push _ rfl rfl rfl rfl
      have hwrite : MemStep cfg (s.newThread.pushed s.threadId (s.createEntry a)) (.write a.location 4) s' := by
        rw [hs']
        exact .write a.location 4 s.threadCount
      have hnone : Effect.StoresNone .idle := fun _ hb => by cases hb
      have hnone' : Effect.StoresNone (.write a.location 4) := fun _ hb => by cases hb
      have hstores : (Event.executed a a.value []).stores s = [s.createEntry a] :=
        Event.stores_of_create hcreate
      have hr₁ := hnew.recorded hcfg hr
      have ho₁ := hnew.opened_of_storesNone hcfg hnone ho
      have hI₁ := hpush hr₁ ho₁ (hkeep hr ho hI hnew hnone) hstep
        (by rw [hstores]; exact List.mem_singleton_self _)
      have hr₂ := hstep.recorded hcfg hr₁
      have ho₂ : (s.newThread.pushed s.threadId (s.createEntry a)).Opened := by
        apply hstep.opened hcfg _ ho₁
        intro b hb htype
        cases hb
        cases htype
      rw [hstores]
      exact ⟨hwrite.recorded hcfg hr₂, hwrite.opened_of_storesNone hcfg hnone' ho₂,
        hkeep hr₂ ho₂ hI₁ hwrite hnone'⟩

/-! ## Steps -/

/-- A thread that was about to execute an action and exits has crashed its process. -/
theorem StepCase.crashed_of_exited {ret : Ret} (hcfg : cfg.memPoison = false) (hplaced : s.Placed)
    (h : StepCase cfg s .exited s') (hctx : s.contextOf s.threadId = .ready a ret) :
    s'.isCrashed s.processId = true := by
  cases h with
  | @exited s₁ _ hpath hexits =>
      have hcrashes : s'.crashes = s₁.crashes := congrArg Memory.crashes hexits.memory
      rw [Model.isCrashed, hcrashes]
      show s₁.isCrashed s.processId = true
      cases hpath with
      | quiet hctx' _ =>
          rw [hctx] at hctx'
          rcases hctx' with h | ⟨_, _, _, h⟩ <;> cases h
      | insertCrash hctx' _ _ =>
          rw [hctx] at hctx'
          cases hctx'
      | pop hctx' _ =>
          rw [hctx] at hctx'
          cases hctx'
      | shutdown hctx' _ _ =>
          rw [hctx] at hctx'
          cases hctx'
      | @execute b ret' s₂ s₃ _ hctx' hfence hpush hdrains hcrash =>
          have hpushed : s.Stays s₂ := by
            rcases hpush with rfl | ⟨_, rfl⟩
            · exact s.prepared_stays b
            · exact (s.prepared_stays b).trans (.of_eq rfl rfl)
          have hown := (hpushed.trans (Goes.stays hcfg (fun h => h) hdrains)).ownProcess hplaced.active
          obtain ⟨s₄, hstep, hidle⟩ := hcrash
          have hcrashes : s₁.crashes = s₄.crashes := congrArg Memory.crashes hidle.memory
          rw [Model.isCrashed, hcrashes, ← hown]
          cases hstep with
          | crashSelf _ _ => exact Model.isCrashed_iff.mpr (Crashes.mem_emplace.mpr (.inl rfl))

/-- A step adds the stores of its event, unless it crashes its own process. -/
theorem StepCase.logged (hcfg : cfg.memPoison = false) (hplaced : s.Placed)
    (hkeep : ∀ {l x e y}, x.Recorded → x.Opened → I l x → MemStep cfg x e y → e.StoresNone → I l y)
    (hpush : ∀ {l x b y}, x.Recorded → x.Opened → I l x → MemStep cfg x (.push b) y →
      b ∈ ev.stores s → I (l ++ [b]) y)
    (h : StepCase cfg s ev s') (hlive : ev = .exited → s'.isCrashed s.processId = false) (hl : s.Listed)
    (hI : I l s) : I (l ++ ev.stores s) s' := by
  have hgoes := h.goes hplaced
  have hquiet : ev.stores s = [] → (∀ b, ¬ Event.Allows s s' ev (.push b)) → I (l ++ ev.stores s) s' := by
    intro hnone hno
    rw [hnone, List.append_nil]
    refine (Goes.keeps hcfg hkeep hgoes ?_ hl.recorded hl.opened hI).2.2
    rintro e he b rfl
    exact absurd he (hno b)
  have hholds := hplaced.holds s.threadId
  cases h with
  | @executed b ret v n rf u s₁ _ hctx h h' =>
      rw [hctx] at hholds
      obtain ⟨htid, hseq⟩ := Issued.stamped (s := s) hholds
      have hinit : Goes (MemStep cfg) (fun e => e = .initial b.word) s (s.prepared b) :=
        s.prepared_goes fun _ => rfl
      obtain ⟨hr₁, ho₁, hI₁⟩ := Goes.keeps hcfg hkeep hinit (by rintro e rfl c hc; cases hc) hl.recorded
        hl.opened hI
      have hlist : (s.stamp b).type = .atomicInit → (s.prepared b).objToWr (s.stamp b).word ≠ [] := by
        intro htype
        rw [s.stamp_word b]
        rw [s.stamp_type] at htype
        exact s.prepared_objToWr_ne_nil (isAccess_of_atomicInit htype)
      have hstores := s.stamp_stores b v rf
      have hpush₁ : ∀ {l x c y}, x.Recorded → x.Opened → I l x → MemStep cfg x (.push c) y →
          c ∈ (Event.executed (s.stamp b) v rf).stores (s.prepared b) → I (l ++ [c]) y := by
        intro l x c y hr ho hI hstep hmem
        rw [hstores] at hmem
        exact hpush hr ho hI hstep hmem
      obtain ⟨hr₂, ho₂, hI₂⟩ :=
        h.logged (I := I) hcfg hkeep hpush₁ htid hseq hr₁ ho₁ hlist hI₁
      rw [hstores] at hI₂
      have hyield : MemStep cfg s₁ .yield s' := .yield h'.toControl
      exact hkeep hr₂ ho₂ hI₂ hyield fun _ hb => by cases hb
  | @resumed b ret v n u _ hctx h =>
      rw [hctx] at hholds
      obtain ⟨hwrite, hcreate⟩ := ModelAction.isWrite_of_isControl (ModelAction.isControl_of_isSync hholds.1)
      have hyield : MemStep cfg s .yield s' := .yield h.toControl
      rw [Event.stores_eq_nil hwrite hcreate, List.append_nil]
      exact hkeep hl.recorded hl.opened hI hyield fun _ hb => by cases hb
  | exited hpath hexits =>
      refine hquiet rfl ?_
      intro b hb
      have hexit : StepCase cfg s .exited s' := .exited hpath hexits
      obtain ⟨a, ret, hctx, _⟩ := hexit.pushed_cases hplaced hb
      rw [hexit.crashed_of_exited hcfg hplaced hctx] at hlive
      cases hlive rfl
  | popped _ _ =>
      refine hquiet rfl ?_
      intro b hb
      cases hb with
      | pops hfalse => exact hfalse
  | _ =>
      refine hquiet rfl ?_
      intro b hb
      cases hb

/-- A step of another thread pushes entries of that thread, which was waiting to execute an action. -/
theorem StepCase.others {J : Model → Prop} (hcfg : cfg.memPoison = false) (hplaced : s.Placed)
    (hkeep : ∀ {x e y}, x.Recorded → x.Opened → J x → MemStep cfg x e y →
      (∀ b, e = .push b → b.tid = s.threadId ∧ Event.Allows s s' ev (.push b)) → J y)
    (h : StepCase cfg s ev s') (hl : s.Listed) (hJ : J s) : J s' := by
  have hall : s'.Recorded ∧ s'.Opened ∧ J s' := by
    apply (h.begun_init hcfg hplaced).invariant (I := fun x => x.Recorded ∧ x.Opened ∧ J x) _
      ⟨hl.recorded, hl.opened, hJ⟩
    intro x e y he hx hstep
    obtain ⟨hrx, hox, hJx⟩ := hx
    obtain ⟨hstep, hbegun⟩ := hstep
    refine ⟨hstep.recorded hcfg hrx, hstep.opened hcfg hbegun hox, hkeep hrx hox hJx hstep ?_⟩
    rintro b rfl
    exact ⟨h.push_tid hplaced he, he⟩
  exact hall.2.2

end

end Cxlmc
