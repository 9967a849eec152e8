import Cxlmc.System.ByteCoherence
import Cxlmc.System.Rmw
import Cxlmc.System.Wrap

/-!
# Program order

The stores that a thread has executed are those of it that were evicted, in the order in which they took
their numbers from the clock, and then those in its store buffer (`Model.InOrder`). Each effect moves at
most one store from the buffer to the end of the evicted ones, and only the thread itself adds to the
buffer. Until the clock wraps around, the numbers themselves are in this order (`program_order`); the store
that takes the number after `2 ^ 32 - 1` gets clock `0` again (`program_not_ordered`).
-/

namespace Cxlmc

open Stateful Fill

/-! ## What a thread has stored -/

/-- A store as it was before its eviction gave it a clock. -/
def ModelAction.unsequenced (a : ModelAction) : ModelAction := { a with tick := 0 }

/-- The stores that the running thread adds to its store buffer; `pthread_create` stores the id of the
new thread. -/
def Event.stores (s : Model) : Event → List ModelAction
  | .executed a _ _ =>
      if a.isWrite = true then [a.copy]
      else if a.type = .pthreadCreate then [s.createEntry a]
      else []
  | _ => []

/-- The stores that a thread has executed in these steps, in program order. -/
def executedStores (t : ThreadId) (steps : List (Model × Label × Model)) : List ModelAction :=
  steps.flatMap fun x => if x.2.1.tid = t then x.2.1.event.stores x.1 else []

namespace Model

/-- The stores that wait in the store buffer of a thread. -/
def bufferedStores (s : Model) (t : ThreadId) : List ModelAction :=
  (s.threadMemory t).storeBuffer.filter fun a => a.isWrite

/-- The stores that `t` has executed are its evicted stores and then those in its buffer. -/
structure InOrder (s : Model) (t : ThreadId) (evicted executed : List ModelAction) : Prop where
  executed_eq : executed = evicted.map (·.unsequenced) ++ s.bufferedStores t
  sorted : evicted.Pairwise fun a b => a.tick < b.tick
  mem_evicted : ∀ a, a ∈ evicted ↔ a.tid = t ∧ ∃ w, a ∈ s.storesOf w

theorem InOrder.of_eq {s s' : Model} {t : ThreadId} {evicted executed : List ModelAction}
    (h : s.InOrder t evicted executed) (hbuf : s'.bufferedStores t = s.bufferedStores t)
    (hstores : ∀ w, s'.storesOf w = s.storesOf w) : s'.InOrder t evicted executed := by
  refine ⟨?_, h.sorted, ?_⟩
  · rw [hbuf]
    exact h.executed_eq
  · intro a
    simp only [hstores]
    exact h.mem_evicted a

theorem inOrder_init {n cxlMapping : Nat} {memory : Nat → Nat} {mutexType : MutexId → MutexType}
    (t : ThreadId) : (Model.init n cxlMapping memory mutexType).InOrder t [] [] := by
  refine ⟨rfl, .nil, ?_⟩
  intro a
  constructor
  · intro ha
    cases ha
  · rintro ⟨_, w, ha⟩
    cases ha

end Model

section

variable {cfg : Config} {s s' s₁ : Model} {e : Effect} {P : Effect → Prop} {t : ThreadId}
  {evicted executed : List ModelAction}

/-! ## Effects -/

/-- An entry that is no store leaves the stores of the buffers as they are. -/
theorem MemStep.bufferedStores_of_taken (hcfg : cfg.memPoison = false) (h : MemStep cfg s e s')
    {u : ThreadId} {b : ModelAction} (he : e.taken = some (u, b)) (hb : b.isWrite = false) :
    s'.bufferedStores t = s.bufferedStores t := by
  unfold Model.bufferedStores
  by_cases ht : t = u
  · subst ht
    rw [h.storeBuffer_taken hcfg he, List.filter_cons_of_neg (by simp [hb])]
  · rw [h.storeBuffer_kept hcfg]
    · intro a ha
      rw [he] at ha
      cases ha
      exact ht rfl
    · rintro b rfl
      cases he

/-- The stores after an eviction. -/
theorem MemStep.mem_storesOf_popStore {u : ThreadId} {b : ModelAction} (hcfg : cfg.memPoison = false)
    (h : MemStep cfg s (.popStore u b) s') (ho : s.Opened) (a : ModelAction) :
    (∃ w, a ∈ s'.storesOf w) ↔
      (∃ w, a ∈ s.storesOf w) ∨ a = { b with tick := s.ticks } := by
  have hstores := h.storesOf hcfg ho
  constructor
  · rintro ⟨w, ha⟩
    rw [hstores w, Effect.storesOf] at ha
    split at ha
    · rcases List.mem_append.mp ha with ha | ha
      · exact .inl ⟨w, ha⟩
      · exact .inr (List.mem_singleton.mp ha)
    · exact .inl ⟨w, ha⟩
  · intro ha
    rcases ha with ⟨w, ha⟩ | rfl
    · refine ⟨w, ?_⟩
      rw [hstores w, Effect.storesOf]
      split
      · exact List.mem_append_left _ ha
      · exact ha
    · refine ⟨b.word, ?_⟩
      rw [hstores, Effect.storesOf, if_pos rfl]
      exact List.mem_append_right _ (List.mem_singleton_self _)

/-- A store that is evicted goes from the buffer of its thread to the end of its evicted stores. -/
theorem MemStep.inOrder_popStore {u : ThreadId} {b : ModelAction} (hcfg : cfg.memPoison = false)
    (h : MemStep cfg s (.popStore u b) s') (hr : s.Recorded) (ho : s.Opened)
    (hi : s.InOrder t evicted executed) : ∃ evicted', s'.InOrder t evicted' executed := by
  obtain ⟨rest, hrest⟩ := h.taken rfl
  have hw : b.isWrite = true := by
    cases h with
    | popStore _ _ _ _ hw => exact hw
  obtain ⟨htid, _, hseq⟩ := hr.buffered u b (by rw [hrest]; exact List.mem_cons_self)
  have hbuf := h.storeBuffer hcfg t
  generalize hb' : ({ b with tick := s.ticks } : ModelAction) = b'
  have hmem := h.mem_storesOf_popStore hcfg ho
  rw [hb'] at hmem
  have htid' : b'.tid = u := by
    rw [← hb']
    exact htid
  by_cases ht : t = u
  · -- the store is one of this thread
    subst ht
    refine ⟨evicted ++ [b'], ⟨?_, ?_, ?_⟩⟩
    · have hsame : b'.unsequenced = b := by
        rw [← hb', ModelAction.unsequenced, ← hseq]
      have hafter : s.bufferedStores t = b :: s'.bufferedStores t := by
        unfold Model.bufferedStores
        rw [hbuf, Effect.storeBuffer, if_pos rfl, hrest, List.filter_cons_of_pos hw, List.tail_cons]
      rw [hi.executed_eq, hafter, List.map_append, List.append_assoc]
      simp [hsame]
    · refine List.pairwise_append.mpr ⟨hi.sorted, List.pairwise_singleton _ _, ?_⟩
      intro x hx y hy
      obtain ⟨_, w, hw⟩ := (hi.mem_evicted x).mp hx
      rw [List.mem_singleton.mp hy, ← hb']
      exact hr.clock w x hw
    · intro a
      rw [List.mem_append, List.mem_singleton, hi.mem_evicted a, hmem a]
      constructor
      · rintro (⟨htid, hw⟩ | rfl)
        · exact ⟨htid, .inl hw⟩
        · exact ⟨htid', .inr rfl⟩
      · rintro ⟨htid, hw | rfl⟩
        · exact .inl ⟨htid, hw⟩
        · exact .inr rfl
  · refine ⟨evicted, ⟨?_, hi.sorted, ?_⟩⟩
    · have hafter : s'.bufferedStores t = s.bufferedStores t := by
        unfold Model.bufferedStores
        rw [hbuf, Effect.storeBuffer, if_neg ht]
      rw [hafter]
      exact hi.executed_eq
    · intro a
      rw [hi.mem_evicted a, hmem a]
      constructor
      · rintro ⟨htid, hw⟩
        exact ⟨htid, .inl hw⟩
      · rintro ⟨htid, hw | rfl⟩
        · exact ⟨htid, hw⟩
        · exact absurd (htid.symm.trans htid') ht

/-- An effect that is no push keeps what a thread has executed. -/
theorem MemStep.inOrder (hcfg : cfg.memPoison = false) (h : MemStep cfg s e s')
    (hpush : ∀ b, e ≠ .push b) (hr : s.Recorded) (ho : s.Opened)
    (hi : s.InOrder t evicted executed) : ∃ evicted', s'.InOrder t evicted' executed := by
  have hbuf := h.storeBuffer hcfg t
  have hstores := h.storesOf hcfg ho
  have hnot : ∀ {b : ModelAction} {type : ActionType}, b.type = type →
      ({ b with type := type }).isWrite = false → b.isWrite = false := by
    rintro b type rfl hb
    exact hb
  cases e with
  | popStore u b => exact h.inOrder_popStore hcfg hr ho hi
  | push b => exact absurd rfl (hpush b)
  | popClflush u b =>
      have hb : b.isWrite = false := by
        cases h with
        | popClflush _ _ _ _ htype => exact hnot htype rfl
      exact ⟨evicted, hi.of_eq (h.bufferedStores_of_taken hcfg rfl hb) hstores⟩
  | popClflushopt u b =>
      have hb : b.isWrite = false := by
        cases h with
        | popClflushopt _ _ _ _ htype => exact hnot htype rfl
      exact ⟨evicted, hi.of_eq (h.bufferedStores_of_taken hcfg rfl hb) hstores⟩
  | popSfence u b =>
      have hb : b.isWrite = false := by
        cases h with
        | popSfence _ _ _ _ htype => exact hnot htype rfl
      exact ⟨evicted, hi.of_eq (h.bufferedStores_of_taken hcfg rfl hb) hstores⟩
  | _ =>
      refine ⟨evicted, hi.of_eq ?_ hstores⟩
      unfold Model.bufferedStores
      rw [hbuf]
      rfl

/-- A push adds to what the running thread has executed. -/
theorem MemStep.inOrder_push {b : ModelAction} (hcfg : cfg.memPoison = false)
    (h : MemStep cfg s (.push b) s') (ho : s.Opened) (hi : s.InOrder t evicted executed) :
    s'.InOrder t evicted
      (executed ++ if s.threadId = t then (if b.isWrite = true then [b] else []) else []) := by
  have hbuf : s'.bufferedStores t = s.bufferedStores t ++
      if s.threadId = t then (if b.isWrite = true then [b] else []) else [] := by
    unfold Model.bufferedStores
    rw [h.storeBuffer hcfg, Effect.storeBuffer]
    by_cases ht : t = s.threadId
    · rw [if_pos ht, if_pos ht.symm, List.filter_append, List.filter_singleton]
      by_cases hb : b.isWrite = true
      · rw [if_pos hb, hb, cond_true]
      · rw [if_neg hb, Bool.eq_false_iff.mpr hb, cond_false]
    · rw [if_neg ht, if_neg (Ne.symm ht), List.append_nil]
  refine ⟨?_, hi.sorted, ?_⟩
  · rw [hbuf, ← List.append_assoc, ← hi.executed_eq]
  · intro a
    simp only [h.storesOf hcfg ho]
    exact hi.mem_evicted a

theorem Goes.inOrder (hcfg : cfg.memPoison = false) (h : Goes (MemStep cfg) P s s')
    (hpush : ∀ b, ¬ P (.push b)) (hr : s.Recorded) (ho : s.Opened)
    (hi : s.InOrder t evicted executed) : ∃ evicted', s'.InOrder t evicted' executed := by
  have hall : s'.Recorded ∧ s'.Opened ∧ ∃ evicted', s'.InOrder t evicted' executed := by
    apply h.invariant
      (I := fun x => x.Recorded ∧ x.Opened ∧ ∃ evicted', x.InOrder t evicted' executed) _
      ⟨hr, ho, evicted, hi⟩
    rintro x e y he ⟨hrx, hox, evicted', hix⟩ hstep
    have hnot : ∀ b, e ≠ .push b := fun b hb => hpush b (hb ▸ he)
    exact ⟨hstep.recorded hcfg hrx, hstep.opened hcfg (fun b hb => absurd hb (hnot b)) hox,
      hstep.inOrder hcfg hnot hrx hox hix⟩
  exact hall.2.2

/-! ## Steps -/

variable {a : ModelAction} {v : Nat} {rf : Slots} {ev : Event}

/-- An action that adds nothing to the store buffer. -/
theorem Executed.inOrder_of_not_buffered (hcfg : cfg.memPoison = false)
    (h : Executed cfg a s v rf s') (htid : a.tid = s.threadId) (hseq : a.tick = 0)
    (hbuf : a.isBuffered = false) (hcreate : a.type ≠ .pthreadCreate) (hr : s.Recorded)
    (ho : s.Opened) (hi : s.InOrder t evicted executed) :
    ∃ evicted', s'.InOrder t evicted' executed := by
  refine Goes.inOrder hcfg (h.goes htid hseq) ?_ hr ho hi
  intro b hpush
  cases hpush with
  | push hb =>
      rw [hb] at hbuf
      cases hbuf
  | drains _ hfalse => exact hfalse
  | createPush htype _ => exact hcreate htype

/-- What `execute` adds to the stores of the running thread. -/
theorem Executed.inOrder (hcfg : cfg.memPoison = false) (h : Executed cfg a s v rf s')
    (htid : a.tid = s.threadId) (hseq : a.tick = 0) (hr : s.Recorded) (ho : s.Opened)
    (hlist : a.type = .atomicInit → s.objToWr a.word ≠ []) (hi : s.InOrder t evicted executed) :
    ∃ evicted', s'.InOrder t evicted'
      (executed ++ if s.threadId = t then (Event.executed a v rf).stores s else []) := by
  by_cases hbuf : a.isBuffered = true
  · -- the action is pushed, and then the buffer is drained where it has to be
    have hpush : MemStep cfg s (.push a.copy) (s.pushed s.threadId a.copy) :=
      .push a.copy htid hseq hbuf rfl
    have hpushed := hpush.inOrder_push hcfg ho hi
    have ho₁ : (s.pushed s.threadId a.copy).Opened := by
      apply hpush.opened hcfg _ ho
      rintro b hb htype
      cases hb
      exact hlist htype
    have hr₁ := hpush.recorded hcfg hr
    have hstores : (Event.executed a v rf).stores s =
        if a.copy.isWrite = true then [a.copy] else [] := by
      have hcreate : a.type ≠ .pthreadCreate := by
        intro htype
        simp [ModelAction.isBuffered, htype] at hbuf
      rw [Event.stores, if_neg hcreate]
      rfl
    rw [← hstores] at hpushed
    cases h with
    | control _ hcontrol _ => simp [ModelAction.isControl, hbuf] at hcontrol
    | load hload _ _ _ _ _ =>
        simp only [ModelAction.isLoad, Bool.or_eq_true, decide_eq_true_eq] at hload
        rcases hload with (hl | hl) | hl <;> simp [ModelAction.isBuffered, hl] at hbuf
    | store hwrite hdrain =>
        split at hdrain
        · exact Goes.inOrder hcfg hdrain.goes (fun _ hfalse => hfalse) hr₁ ho₁ hpushed
        · rw [hdrain]
          exact ⟨evicted, hpushed⟩
    | flush _ _ => exact ⟨evicted, hpushed⟩
    | mfence htype _ => simp [ModelAction.isBuffered, htype] at hbuf
    | create htype _ => simp [ModelAction.isBuffered, htype] at hbuf
  · have hbuf : a.isBuffered = false := Bool.eq_false_iff.mpr hbuf
    have hwrite : ¬ a.isWrite = true := by
      rw [not_isWrite_of_not_isBuffered hbuf]
      exact Bool.false_ne_true
    rw [Event.stores, if_neg hwrite]
    -- `pthread_create` pushes a store of its own, to the handle of the new thread
    by_cases hcreate : a.type = .pthreadCreate
    · rw [if_pos hcreate]
      cases h with
      | control _ hcontrol _ => simp [ModelAction.isControl, hcreate] at hcontrol
      | load hload _ _ _ _ _ => simp [ModelAction.isLoad, hcreate] at hload
      | store hw _ => exact absurd hw hwrite
      | flush hb _ => rw [hbuf] at hb; cases hb
      | mfence htype _ => simp [htype] at hcreate
      | create _ hs' =>
          have hnew : MemStep cfg s .idle s.newThread := .idle (.newThread s)
          have hpush : MemStep cfg s.newThread (.push (s.createEntry a))
              (s.newThread.pushed s.threadId (s.createEntry a)) := .push _ rfl rfl rfl rfl
          have hwr : MemStep cfg (s.newThread.pushed s.threadId (s.createEntry a))
              (.write a.location 4) s' := by
            rw [hs']
            exact .write a.location 4 s.threadCount
          have ho₁ := hnew.opened hcfg (by simp) ho
          have hr₁ := hnew.recorded hcfg hr
          obtain ⟨evicted₁, hi₁⟩ := hnew.inOrder hcfg (by simp) hr ho hi
          have hi₂ := hpush.inOrder_push hcfg ho₁ hi₁
          have ho₂ := hpush.opened hcfg (by rintro b hb htype; cases hb; cases htype) ho₁
          exact hwr.inOrder hcfg (by simp) (hpush.recorded hcfg hr₁) ho₂ hi₂
    · rw [if_neg hcreate, ite_self, List.append_nil]
      exact h.inOrder_of_not_buffered hcfg htid hseq hbuf hcreate hr ho hi

theorem Model.stamp_stores (s : Model) (a : ModelAction) (v : Nat) (rf : Slots) :
    (Event.executed (s.stamp a) v rf).stores (s.prepared a) =
      (Event.executed (s.stamp a) v rf).stores s := by
  have hentry : (s.prepared a).createEntry (s.stamp a) = s.createEntry (s.stamp a) := by
    rw [Model.createEntry, Model.createEntry, s.prepared_threadId, s.prepared_toScheduler]
  rw [Event.stores, Event.stores, hentry]

/-- A step keeps what a thread has executed, with the stores of its event. -/
theorem StepCase.inOrder (hcfg : cfg.memPoison = false) (hplaced : s.Placed)
    (h : StepCase cfg s ev s') (hcrash : s'.crashes = ∅) (hl : s.Listed)
    (hi : s.InOrder t evicted executed) :
    ∃ evicted', s'.InOrder t evicted'
      (executed ++ if s.threadId = t then ev.stores s else []) := by
  have hholds := hplaced.holds s.threadId
  have hgoes := h.goes hplaced
  have hquiet : ev.stores s = [] → (∀ b, ¬ Event.Allows s s' ev (.push b)) →
      ∃ evicted', s'.InOrder t evicted'
        (executed ++ if s.threadId = t then ev.stores s else []) := by
    intro hnone hpush
    rw [hnone, ite_self, List.append_nil]
    exact Goes.inOrder hcfg hgoes hpush hl.recorded hl.opened hi
  -- only an execution pushes; for the other cases `hquiet` is enough
  cases h with
  | @executed b ret v n rf u s₁ _ hctx h h' =>
      rw [hctx] at hholds
      obtain ⟨htid, hseq⟩ := Issued.stamped (s := s) hholds
      -- the list of the word may get its first entry before the action is executed
      have hinit : Goes (MemStep cfg) (fun e => e = .initial b.word) s (s.prepared b) :=
        s.prepared_goes fun _ => rfl
      have hpush : ∀ c : ModelAction, ¬ (Effect.push c = .initial b.word) := (by simp)
      have hr₁ := Goes.recorded hcfg hinit hl.recorded
      have ho₁ : (s.prepared b).Opened := by
        apply hinit.invariant (I := Model.Opened) _ hl.opened
        rintro x e y rfl hx hstep
        exact hstep.opened hcfg (by simp) hx
      obtain ⟨evicted₁, hi₁⟩ := Goes.inOrder hcfg hinit hpush hl.recorded hl.opened hi
      have hlist : (s.stamp b).type = .atomicInit →
          (s.prepared b).objToWr (s.stamp b).word ≠ [] := by
        intro htype
        rw [s.stamp_word b]
        rw [s.stamp_type] at htype
        exact s.prepared_objToWr_ne_nil (isAccess_of_atomicInit htype)
      obtain ⟨evicted₂, hi₂⟩ := h.inOrder hcfg htid hseq hr₁ ho₁ hlist hi₁
      rw [s.prepared_threadId, s.stamp_stores] at hi₂
      refine ⟨evicted₂, hi₂.of_eq ?_ ?_⟩
      · unfold Model.bufferedStores
        rw [h'.memory]
      · intro w
        show evictedStores (s'.objToWr w) = evictedStores (s₁.objToWr w)
        rw [h'.memory]
  | @resumed b ret v n u _ hctx h =>
      rw [hctx] at hholds
      -- an action that has been waiting is no access
      have hcontrol := ModelAction.isControl_of_isSync hholds.1
      have hacc := not_access_of_isControl hcontrol
      have hwrite : ¬ b.isWrite = true := by
        intro hw
        rw [hw, Bool.or_true] at hacc
        cases hacc
      have hcreate : b.type ≠ .pthreadCreate := by
        intro htype
        simp [ModelAction.isControl, htype] at hcontrol
      have hnone : (Event.executed b v []).stores s = [] := by
        rw [Event.stores, if_neg hwrite, if_neg hcreate]
      have hyield : Goes (MemStep cfg) (fun e => e = .yield) s s' :=
        .single (MemStep.yield h.toControl) rfl
      rw [hnone, ite_self, List.append_nil]
      exact Goes.inOrder hcfg hyield (by simp) hl.recorded hl.opened hi
  | popped _ _ =>
      refine hquiet rfl ?_
      intro b hpush
      cases hpush with
      | pops hfalse => exact hfalse
  | exited _ _ =>
      refine hquiet rfl ?_
      intro b hpush
      cases hpush with
      -- a store is pushed on the way out only when the process crashes
      | exitPush _ hne _ => exact hne hcrash
      | exitDrains _ _ _ hfalse => exact hfalse
      | exitPops _ _ hfalse => exact hfalse
      | exitShutdown _ hfalse =>
          obtain ⟨_, _, _, hfalse⟩ := hfalse
          exact hfalse
  | _ =>
      refine hquiet rfl ?_
      intro b hpush
      cases hpush

/-! ## Loads -/

/-- A fence puts only stores of its own thread into the lists. -/
theorem MemStep.mem_objToWr_of_drains (hcfg : cfg.memPoison = false) (h : MemStep cfg s e s')
    (he : e.Drains t) (hr : s.Recorded) {w : Nat} {b : ModelAction} (hb : b ∈ s'.objToWr w) :
    b ∈ s.objToWr w ∨ b.tid = t := by
  cases h.list hcfg w with
  | kept heq => exact .inl (heq ▸ hb)
  | evicted u c rest heffect hbuf _ _ heq =>
      subst heffect
      obtain rfl : u = t := he
      rw [heq] at hb
      rcases List.mem_append.mp hb with hb | hb
      · exact .inl hb
      · rw [List.mem_singleton.mp hb]
        exact .inr (hr.buffered u c (by rw [hbuf]; exact List.mem_cons_self)).1
  | initial heffect _ _ _ =>
      subst heffect
      exact he.elim

theorem Goes.mem_objToWr_of_drains (hcfg : cfg.memPoison = false)
    (h : Goes (MemStep cfg) (Effect.Drains t) s s') (hr : s.Recorded) {w : Nat} {b : ModelAction}
    (hb : b ∈ s'.objToWr w) : b ∈ s.objToWr w ∨ b.tid = t := by
  have hall : s'.Recorded ∧ ∀ b ∈ s'.objToWr w, b ∈ s.objToWr w ∨ b.tid = t := by
    apply h.invariant (I := fun x => x.Recorded ∧ ∀ b ∈ x.objToWr w, b ∈ s.objToWr w ∨ b.tid = t) _
      ⟨hr, fun _ hb => .inl hb⟩
    rintro x e y he ⟨hrx, hx⟩ hstep
    refine ⟨hstep.recorded hcfg hrx, ?_⟩
    intro c hc
    rcases hstep.mem_objToWr_of_drains hcfg he hrx hc with hc | hc
    · exact hx c hc
    · exact .inr hc
  exact hall.2 b hb

/-- The initial value of a word that an access records is that of the running thread. -/
theorem Model.mem_prepared_objToWr {s : Model} {a b : ModelAction} {w : Nat}
    (hb : b ∈ (s.prepared a).objToWr w) : b ∈ s.objToWr w ∨ b.tid = s.threadId := by
  unfold Model.prepared at hb
  split at hb
  · by_cases hw : w = a.word
    · have hlist : (s.initialized a.word).objToWr w = [s.initialValue a.word] := by
        rw [hw]
        exact Function.update_self _ _ _
      rw [hlist] at hb
      rw [List.mem_singleton.mp hb]
      exact .inr rfl
    · have hlist : (s.initialized a.word).objToWr w = s.objToWr w := Function.update_of_ne hw _ _
      rw [hlist] at hb
      exact .inl hb
  · exact .inl hb

/-- What a load reads from another thread is in the list of its word. -/
theorem StepCase.load_reads (hcfg : cfg.memPoison = false) (hplaced : s.Placed)
    (h : StepCase cfg s (.executed a v rf) s') (hload : a.isLoad = true) (hcrash : s'.crashes = ∅)
    (hl : s.Listed) {b : ModelAction} (hb : some b ∈ rf) (htid : b.tid ≠ s.threadId) :
    b ∈ s.objToWr a.word := by
  obtain ⟨s₁, hself, hpos, hexec, hctrl⟩ := h.load hplaced hload
  obtain ⟨s₂, s₃, s₄, hdrain, hidle, hread, hidle', _⟩ := hexec.load_parts hload
  rw [s.prepared_threadId] at hdrain
  have hinit : Goes (MemStep cfg) (fun e => e = .initial a.word) s (s.prepared a) :=
    s.prepared_goes fun _ => rfl
  have hr := Goes.recorded hcfg hinit hl.recorded
  have hfirst : s₂.Recorded ∧
      (b ∈ s₂.objToWr a.word → b ∈ (s.prepared a).objToWr a.word ∨ b.tid = s.threadId) := by
    split at hdrain
    · exact ⟨Goes.recorded hcfg hdrain.goes hr,
        fun hb => Goes.mem_objToWr_of_drains hcfg hdrain.goes hr hb⟩
    · rw [hdrain]
      exact ⟨hr, .inl⟩
  have hstep : MemStep cfg s₂ .idle s₃ := .idle hidle
  have hrecorded : s₃.Recorded := hstep.recorded hcfg hfirst.1
  have hlist : s₃.objToWr = s₂.objToWr := congrArg Memory.objToWr hidle.memory
  have hcrash₄ : s₄.crashes = ∅ := by
    rw [← hcrash, hctrl.memory, hidle'.memory]
  cases hread with
  | read _ _ _ _ hends =>
      obtain ⟨hrf, hfull⟩ := buildReadFromSlots_crashFree hpos hcfg hcrash₄ hends
      rw [bypassed, ← fillAll_append] at hrf
      obtain ⟨i, hi, hget⟩ := List.mem_iff_getElem.mp hb
      have hsize : i < a.size := by
        rw [hrf, length_fillAll, Slots.free, List.length_replicate] at hi
        exact hi
      obtain ⟨x, hfind, hslot⟩ := getElem?_filled hrf hfull hsize
      have hx : x = b := by
        rw [List.getElem?_eq_getElem hi, hget] at hslot
        exact (Option.some.inj (Option.some.inj hslot)).symm
      rw [hx] at hfind
      rcases List.mem_append.mp (List.mem_of_find?_eq_some hfind) with hbuf | hmem
      · -- the buffer is that of the reader
        have hown := List.mem_reverse.mp (List.mem_of_mem_filter hbuf)
        rw [hself] at hown
        exact absurd (hrecorded.buffered _ b hown).1 htid
      · rw [hlist, List.mem_reverse] at hmem
        rcases hfirst.2 hmem with hmem | hmem
        · rcases Model.mem_prepared_objToWr hmem with hmem | hmem
          · exact hmem
          · exact absurd hmem htid
        · exact absurd hmem htid

end

/-! ## Runs -/

/-- A store of a list was evicted after every store that its thread executed before it. -/
def Model.FollowsEarlier (s : Model) (b : ModelAction) (executed : List ModelAction) : Prop :=
  ∃ earlier later, s.InOrder b.tid (earlier ++ b :: later) executed ∧
    ∀ c ∈ earlier, c.seqNum < b.seqNum

section

variable {cfg : Config} {s : Model} {t : ThreadId} {evicted executed : List ModelAction}

/-- Until the clock wraps around, the stores of a thread are evicted by rising clocks. -/
theorem Model.InOrder.rising (h : s.InOrder t evicted executed) (hr : s.Recorded)
    (hticks : s.ticks < 2 ^ 32) : evicted.Pairwise fun a b => a.seqNum < b.seqNum := by
  have hclock : ∀ a ∈ evicted, a.seqNum = a.tick := by
    intro a ha
    obtain ⟨_, w, hw⟩ := (h.mem_evicted a).mp ha
    exact ModelAction.seqNum_of_lt (Nat.lt_trans (hr.clock w a hw) hticks)
  refine h.sorted.imp_of_mem ?_
  intro a b ha hb hlt
  rw [hclock a ha, hclock b hb]
  exact hlt

theorem Model.InOrder.followsEarlier {b : ModelAction} {w : Nat} (h : s.InOrder b.tid evicted executed)
    (hr : s.Recorded) (hticks : s.ticks < 2 ^ 32) (hb : b ∈ s.storesOf w) :
    s.FollowsEarlier b executed := by
  obtain ⟨earlier, later, rfl⟩ := List.append_of_mem ((h.mem_evicted b).mpr ⟨rfl, w, hb⟩)
  refine ⟨earlier, later, h, ?_⟩
  intro c hc
  exact (List.pairwise_append.mp (h.rising hr hticks)).2.2 c hc b List.mem_cons_self

/-- An evicted store is in one list, once. -/
theorem Model.Listed.count_storesOf (hl : s.Listed) {a : ModelAction} {w : Nat}
    (ha : a ∈ s.storesOf w) (w' : Nat) :
    (s.storesOf w').count a = if w' = a.word then 1 else 0 := by
  have hword := (hl.recorded.listed w a (mem_of_mem_evictedStores ha)).2
  split
  · next hw =>
      rw [hw, hword]
      refine List.count_eq_one_of_mem (List.Pairwise.imp ?_ (hl.sorted w)) ha
      intro b c hlt heq
      rw [heq] at hlt
      exact Nat.lt_irrefl _ hlt
  · next hw =>
      apply List.count_eq_zero_of_not_mem
      intro ha'
      exact hw (hl.recorded.listed w' a (mem_of_mem_evictedStores ha')).2.symm

variable {n cxlMapping : Nat} {memory : Nat → Nat} {mutexType : MutexId → MutexType}
  {tr : List (Model × Label)} {s' : Model}

theorem IsRun.rmwHeld (hcfg : cfg.memPoison = false)
    (hrun : IsRun cfg n cxlMapping memory mutexType tr s') :
    ∀ x ∈ stepsOf tr s', x.1.RmwHeld := by
  intro x hx
  have hall := (hrun.invariant hcfg (P := Model.RmwHeld) Model.rmwHeld_init
    fun _ _ _ _ hplaced hheld _ hcase => hcase.rmwHeld hcfg hplaced hheld).1
  exact (hall x hx).2.1

/-- What each thread has executed, before each step of a run without a crash and at its end. -/
theorem IsRun.inOrder (hcfg : cfg.memPoison = false)
    (hrun : IsRun cfg n cxlMapping memory mutexType tr s') (hfree : CrashFree tr s') :
    (∀ pre x post, stepsOf tr s' = pre ++ x :: post → ∀ t, ∃ evicted,
      x.1.InOrder t evicted (executedStores t pre)) ∧
    ∀ t, ∃ evicted, s'.InOrder t evicted (executedStores t (stepsOf tr s')) := by
  have hlisted := (hrun.listed hcfg).1
  obtain ⟨hbefore, hlast⟩ := hrun.2.history []
    (P := fun done s => ∀ t, ∃ evicted, s.InOrder t evicted (executedStores t done)) (by
    intro done x hx hi t
    obtain ⟨hplaced, hl, htid, hcase⟩ := hlisted x hx
    obtain ⟨evicted, hi⟩ := hi t
    obtain ⟨evicted', hi'⟩ := hcase.inOrder hcfg hplaced (hfree x hx) hl hi
    refine ⟨evicted', ?_⟩
    rw [← htid] at hi'
    rw [executedStores, List.flatMap_append, List.flatMap_singleton]
    exact hi') (fun t => ⟨[], Model.inOrder_init t⟩)
  exact ⟨hbefore, hlast⟩

/-- In a run without a crash that takes fewer than `2 ^ 32` numbers from the clock, the stores of each thread
are evicted in program order, by rising clocks, each to one list and once; a load that reads a store of
another thread finds every earlier store of it evicted before it; and a fence leaves both buffers of its
thread empty. -/
theorem program_order (hcfg : cfg.memPoison = false)
    (hrun : IsRun cfg n cxlMapping memory mutexType tr s') (hfree : CrashFree tr s')
    (hticks : s'.ticks < 2 ^ 32) :
    (∀ t, ∃ evicted, s'.InOrder t evicted (executedStores t (stepsOf tr s')) ∧
      (evicted.Pairwise fun a b => a.seqNum < b.seqNum) ∧
      ∀ a ∈ evicted, ∀ w, (s'.storesOf w).count a = if w = a.word then 1 else 0) ∧
    ∀ pre x post a v rf, stepsOf tr s' = pre ++ x :: post → x.2.1.event = .executed a v rf →
      (a.isLoad = true → ∀ b, some b ∈ rf → b.tid ≠ x.2.1.tid →
        x.1.FollowsEarlier b (executedStores b.tid pre) ∨
          x.1.objToWr a.word = b :: x.1.storesOf a.word ∧ b.type = .atomicInit) ∧
      (a.isFence = true ∨ a.type = .atomicCasFailed → x.2.2.Emptied x.2.1.tid) := by
  obtain ⟨hlisted, _, hlast⟩ := hrun.listed hcfg
  obtain ⟨hbefore, hend⟩ := hrun.inOrder hcfg hfree
  constructor
  · intro t
    obtain ⟨evicted, hi⟩ := hend t
    refine ⟨evicted, hi, hi.rising hlast.recorded hticks, ?_⟩
    intro a ha
    obtain ⟨_, w, hw⟩ := (hi.mem_evicted a).mp ha
    exact hlast.count_storesOf hw
  · intro pre x post a v rf heq hev
    have hx : x ∈ stepsOf tr s' := by simp [heq]
    obtain ⟨hplaced, hl, htid, hcase⟩ := hlisted x hx
    rw [hev] at hcase
    constructor
    · intro hload b hb hother
      have hbelow : x.1.ticks < 2 ^ 32 := Nat.lt_of_le_of_lt (hrun.ticks_le hcfg hx) hticks
      rw [htid] at hother
      have hmem := hcase.load_reads hcfg hplaced hload (hfree x hx) hl hb hother
      obtain ⟨evicted, hi⟩ := hbefore pre x post heq b.tid
      rcases eq_or_cons_evictedStores (x.1.objToWr a.word) with hlist | ⟨c, htype, hlist⟩
      · rw [hlist] at hmem
        exact .inl (hi.followsEarlier hl.recorded hbelow hmem)
      · rw [hlist] at hmem
        rcases List.mem_cons.mp hmem with rfl | hmem
        · exact .inr ⟨hlist, htype⟩
        · exact .inl (hi.followsEarlier hl.recorded hbelow hmem)
    · intro hfence
      rw [htid]
      exact hcase.emptied hcfg hplaced (hrun.rmwHeld hcfg x hx) hfence

end

/-- Two stores take the numbers `2 ^ 32 - 1` and `2 ^ 32`: the second one has the clock `0`. -/
theorem program_not_ordered : ∃ tr s, IsRun .asBuilt 1 4096 (fun _ => 0) (fun _ => .default) tr s ∧
    CrashFree tr s ∧ (∃ evicted, s.InOrder 0 evicted (executedStores 0 (stepsOf tr s))) ∧
    ∀ evicted, s.InOrder 0 evicted (executedStores 0 (stepsOf tr s)) →
      ¬ evicted.Pairwise fun a b => a.seqNum < b.seqNum := by
  obtain ⟨tr, s, hrun, hfree, hlist⟩ := exists_run_twoStores (2 ^ 32 - 1)
  refine ⟨tr, s, hrun, hfree, (hrun.inOrder rfl hfree).2 0, ?_⟩
  intro evicted hi hrising
  let b : ModelAction := { loneStore.action with tick := 2 ^ 32 - 1 }
  let c : ModelAction := { loneStore.action with tick := 2 ^ 32 - 1 + 1 }
  have hfirst : b ∈ evicted := (hi.mem_evicted b).mpr ⟨rfl, 4096, by simp [hlist, b]⟩
  have hsecond : c ∈ evicted := (hi.mem_evicted c).mpr ⟨rfl, 4096, by simp [hlist, c]⟩
  -- the second one comes later, and would have to have the greater clock
  obtain ⟨i, hi₁, hget₁⟩ := List.mem_iff_getElem.mp hfirst
  obtain ⟨j, hj₁, hget₂⟩ := List.mem_iff_getElem.mp hsecond
  have hboth := List.pairwise_iff_getElem.mp (hi.sorted.and hrising)
  rcases Nat.lt_trichotomy i j with hlt | heq | hgt
  · have hclocks := (hboth i j hi₁ hj₁ hlt).2
    rw [hget₁, hget₂] at hclocks
    exact absurd hclocks (by decide)
  · subst heq
    rw [hget₁] at hget₂
    exact absurd (congrArg ModelAction.tick hget₂) (by decide)
  · have hticks := (hboth j i hj₁ hi₁ hgt).1
    rw [hget₁, hget₂] at hticks
    exact absurd hticks (by decide)

/-- Thread 0 stores to three words, two of the stores are evicted, and thread 1 reads the second. -/
def storesAndLoad : List (Input × List Nat) :=
  [({ call := .store 4096 .w8 1 }, []), ({}, []), ({}, []),
    ({ call := .store 4104 .w8 2 }, []), ({}, []), ({}, []),
    ({ call := .store 4112 .w8 3 }, []), ({ random := 2 }, []), ({}, []), ({}, []), ({}, []),
    ({ call := .schedYield }, []), ({ call := .load 4104 .w8 }, []), ({}, [1])]

/-- The last step reads the byte of the store with the clock 1 of another thread. -/
def lastReads (steps : List (Model × Label × Model)) : Bool :=
  match steps.reverse with
  | x :: _ =>
      match x.2.1.event with
      | .executed a _ [some b] =>
          a.isLoad && decide (b.tid = 0 ∧ x.2.1.tid = 1 ∧ b.seqNum = 1 ∧ b.type ≠ .atomicInit)
      | _ => false
  | [] => false

/-- `program_order` on a run in which two of three stores were evicted. -/
theorem program_order_two_evicted : ∃ tr s,
    IsRun .asBuilt 2 4096 (fun _ => 0) (fun _ => .default) tr s ∧ CrashFree tr s ∧
    (∃ evicted, s.InOrder 0 evicted (executedStores 0 (stepsOf tr s))) ∧
    (executedStores 0 (stepsOf tr s)).length = 3 ∧ (s.bufferedStores 0).length = 1 ∧
    ∃ pre x b, stepsOf tr s = pre ++ [x] ∧ x.2.1.tid = 1 ∧ b.tid = 0 ∧ b.seqNum = 1 ∧
      x.1.FollowsEarlier b (executedStores b.tid pre) := by
  obtain ⟨tr, s, hrun, hcheck⟩ := exists_run_of_replay .asBuilt
    (Model.init 2 4096 (fun _ => 0) (fun _ => .default)) storesAndLoad
    (fun tr s => crashFree tr s && decide (s.ticks < 2 ^ 32) &&
      decide ((executedStores 0 (stepsOf tr s)).length = 3 ∧ (s.bufferedStores 0).length = 1) &&
      lastReads (stepsOf tr s)) (by decide +kernel)
  simp only [Bool.and_eq_true, decide_eq_true_eq] at hcheck
  obtain ⟨⟨⟨hfree, hticks⟩, hthree, hone⟩, hlast⟩ := hcheck
  have hrun' : IsRun .asBuilt 2 4096 (fun _ => 0) (fun _ => .default) tr s := ⟨by decide, hrun⟩
  obtain ⟨hstored, hsteps⟩ := program_order rfl hrun' (crashFree_iff hfree) hticks
  obtain ⟨evicted, hi, _, _⟩ := hstored 0
  refine ⟨tr, s, hrun', crashFree_iff hfree, ⟨evicted, hi⟩, hthree, hone, ?_⟩
  unfold lastReads at hlast
  split at hlast
  case h_2 => cases hlast
  case h_1 x pre hrev =>
    split at hlast
    case h_2 => cases hlast
    case h_1 a v b hev =>
      simp only [Bool.and_eq_true, decide_eq_true_eq] at hlast
      obtain ⟨hload, htid, hself, hseq, htype⟩ := hlast
      have hwhole : stepsOf tr s = pre.reverse ++ [x] := by
        rw [← List.reverse_reverse (stepsOf tr s), hrev, List.reverse_cons]
      refine ⟨pre.reverse, x, b, hwhole, hself, htid, hseq, ?_⟩
      have hother : b.tid ≠ x.2.1.tid := by
        rw [htid, hself]
        decide
      rcases (hsteps _ x [] a v _ hwhole hev).1 hload b List.mem_cons_self hother with h | ⟨_, h⟩
      · exact h
      · exact absurd h htype

end Cxlmc
