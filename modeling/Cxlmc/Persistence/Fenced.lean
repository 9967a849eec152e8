import Cxlmc.Persistence.Durable

/-!
# A store, a `CLFLUSHOPT` and a fence

A thread stores, later executes a `CLFLUSHOPT` of the line, and later a fence. The store may still be in the
store buffer when the `CLFLUSHOPT` is added behind it, or may have left it long before; either way it leaves
the buffer first, its clock is noted for the line, and the `CLFLUSHOPT` takes effect at this clock or later
(`Model.Flushing`). So the store is durable when the fence is over, and is not lost in any crash after that
(`fenced_durable`).
-/

namespace Cxlmc

open Stateful Fill

/-- The store `c` has been added to the store buffer of `t`, at a time when `start` numbers had been taken from
the clock. It is still there, or it is in memory, has taken a later number, and its thread has noted for the
line a clock that is no earlier. -/
inductive Model.Sent (s : Model) (t : ThreadId) (c : ModelAction) (start : Nat) : Prop where
  | buffered (front back : List ModelAction) (hstart : start ≤ s.ticks)
      (hbuf : (s.threadMemory t).storeBuffer = front ++ c :: back)
  | evicted (place tick : Nat) (hstart : start ≤ tick) (hlt : tick < s.ticks)
      (hlisted : s.ListedAt c.word place { c with tick := tick })
      (hnoted : s.ticks < 2 ^ 32 → tick ≤ ((s.threadMemory t).clToLastWrClf c.line).getD 0)

/-- A `CLFLUSHOPT` of the line follows the store, and `k` entries follow the `CLFLUSHOPT`. -/
inductive Model.Flushing (s : Model) (t : ThreadId) (c : ModelAction) (start k : Nat) : Prop where
  | buffered (front mid : List ModelAction) (a : ModelAction) (back : List ModelAction)
      (hstart : start ≤ s.ticks)
      (hbuf : (s.threadMemory t).storeBuffer = front ++ c :: (mid ++ a :: back)) (hlen : back.length = k)
      (htype : a.type = .cacheClflushopt) (hline : a.line = c.line)
  | evicted (place tick : Nat) (hstart : start ≤ tick)
      (hlisted : s.ListedAt c.word place { c with tick := tick }) (hfollows : s.Follows t c.line tick k)

section

variable {cfg : Config} {s s' s₁ s₂ s₃ s₄ s₅ s₆ : Model} {e : Effect} {t : ThreadId}
  {a b c read : ModelAction} {front rest : List ModelAction} {rf : Slots} {i k start : Nat}

/-! ## One effect on the store buffer -/

/-- The state after the eviction of `c`, which was the first entry of the store buffer of `t`. -/
structure Evicts (s : Model) (t : ThreadId) (c : ModelAction) (rest : List ModelAction) (s' : Model) :
    Prop where
  storeBuffer : (s'.threadMemory t).storeBuffer = rest
  listed : s'.ListedAt c.word (s.objToWr c.word).length { c with tick := s.ticks }
  noted : ((s'.threadMemory t).clToLastWrClf c.line).getD 0 = s.nextSequenceNum
  ticks : s.ticks < s'.ticks

theorem MemStep.evicts (hcfg : cfg.memPoison = false) (h : MemStep cfg s e s')
    (hbuf : (s.threadMemory t).storeBuffer = c :: rest) (hwrite : c.isWrite = true)
    (he : e.taken = some (t, b)) : Evicts s t c rest s' := by
  have hhead := h.storeBuffer_taken hcfg he
  rw [hbuf] at hhead
  obtain ⟨rfl, hrest⟩ := List.cons.inj hhead
  rcases h.taken_cases he with ⟨rfl, _⟩ | ⟨_, htype⟩ | ⟨_, htype⟩ | ⟨_, htype⟩
  · constructor
    · exact hrest.symm
    · rw [Model.ListedAt, h.objToWr hcfg, Effect.objToWr, Function.update_self]
      exact List.getElem?_concat_length
    · rw [h.clToLastWrClf hcfg, Effect.clToLastWrClf, if_pos rfl, Function.update_self, Option.getD_some]
    · rw [h.ticks hcfg]
      exact Nat.lt_succ_self _
  · simp [ModelAction.isWrite, htype] at hwrite
  · simp [ModelAction.isWrite, htype] at hwrite
  · simp [ModelAction.isWrite, htype] at hwrite

/-- Until the clock wraps around, the clock that is noted is the number that the store has taken. -/
theorem Evicts.le_noted (h : Evicts s t c rest s') (hticks : s'.ticks < 2 ^ 32) :
    s.ticks ≤ ((s'.threadMemory t).clToLastWrClf c.line).getD 0 := by
  rw [h.noted, Memory.nextSequenceNum_of_lt (Nat.lt_trans h.ticks hticks)]

/-- An entry in the buffer moves towards the head, or it is taken; new entries come after it. -/
theorem MemStep.storeBuffer_moves (hcfg : cfg.memPoison = false) (h : MemStep cfg s e s')
    (hbuf : (s.threadMemory t).storeBuffer = front ++ c :: rest) :
    (∃ front', (s'.threadMemory t).storeBuffer = front' ++ c :: rest) ∨
      (front = [] ∧ e.taken = some (t, c)) ∨ ∃ b, e = .push b ∧ s.threadId = t ∧
        (s'.threadMemory t).storeBuffer = front ++ c :: (rest ++ [b]) := by
  by_cases htaken : ∃ b, e.taken = some (t, b)
  · obtain ⟨b, he⟩ := htaken
    have hhead := h.storeBuffer_taken hcfg he
    rw [hbuf] at hhead
    cases front with
    | nil =>
        rw [← (List.cons.inj hhead).1] at he
        exact .inr (.inl ⟨rfl, he⟩)
    | cons d front => exact .inl ⟨front, (List.cons.inj hhead).2.symm⟩
  · by_cases hpush : ∃ b, e = .push b ∧ s.threadId = t
    · obtain ⟨b, rfl, hself⟩ := hpush
      refine .inr (.inr ⟨b, rfl, hself, ?_⟩)
      rw [h.storeBuffer hcfg, Effect.storeBuffer, if_pos hself.symm, hbuf, List.append_assoc, List.cons_append]
    · refine .inl ⟨front, ?_⟩
      rw [h.storeBuffer_kept hcfg (fun b he => htaken ⟨b, he⟩) fun b he hself => hpush ⟨b, he, hself.symm⟩, hbuf]

/-- A store that is taken is evicted. -/
theorem MemStep.storeBuffer_cases (hcfg : cfg.memPoison = false) (h : MemStep cfg s e s')
    (hbuf : (s.threadMemory t).storeBuffer = front ++ c :: rest) (hwrite : c.isWrite = true) :
    (∃ front', (s'.threadMemory t).storeBuffer = front' ++ c :: rest) ∨ Evicts s t c rest s' ∨
      ∃ b, e = .push b ∧ s.threadId = t ∧
        (s'.threadMemory t).storeBuffer = front ++ c :: (rest ++ [b]) := by
  refine (h.storeBuffer_moves hcfg hbuf).imp_right fun hmoves => hmoves.imp_left ?_
  rintro ⟨rfl, he⟩
  exact h.evicts hcfg hbuf hwrite he

/-! ## Before the `CLFLUSHOPT` -/

theorem MemStep.sent_push (hcfg : cfg.memPoison = false) (h : MemStep cfg s (.push c) s') :
    s'.Sent s.threadId c s.ticks := by
  refine .buffered (s.threadMemory s.threadId).storeBuffer [] (h.ticks_le hcfg) ?_
  rw [h.storeBuffer hcfg, Effect.storeBuffer, if_pos rfl]

/-- A noted clock is not taken back. -/
theorem MemStep.keeps_noted (hcfg : cfg.memPoison = false) (h : MemStep cfg s e s') {tick line : Nat}
    (hlt : tick < s.ticks) (hnoted : s.ticks < 2 ^ 32 → tick ≤ ((s.threadMemory t).clToLastWrClf line).getD 0)
    (hticks : s'.ticks < 2 ^ 32) : tick ≤ ((s'.threadMemory t).clToLastWrClf line).getD 0 := by
  have hbefore : s.ticks < 2 ^ 32 := Nat.lt_of_le_of_lt (h.ticks_le hcfg) hticks
  apply h.le_clToLastWrClf hcfg _ (hnoted hbefore)
  rw [Memory.nextSequenceNum_of_lt hbefore]
  exact hlt

theorem MemStep.sent (hcfg : cfg.memPoison = false) (h : MemStep cfg s e s') (hwrite : c.isWrite = true)
    (hs : s.Sent t c start) : s'.Sent t c start := by
  have hle := h.ticks_le hcfg
  cases hs with
  | buffered front back hstart hbuf =>
      have hstart' := Nat.le_trans hstart hle
      rcases h.storeBuffer_cases hcfg hbuf hwrite with ⟨front', hbuf'⟩ | hevicts | ⟨b, _, _, hbuf'⟩
      · exact .buffered front' back hstart' hbuf'
      · exact .evicted _ s.ticks hstart hevicts.ticks hevicts.listed hevicts.le_noted
      · exact .buffered front (back ++ [b]) hstart' hbuf'
  | evicted place tick hstart hlt hlisted hnoted =>
      exact .evicted place tick hstart (Nat.lt_of_lt_of_le hlt hle) (h.listedAt hcfg hlisted)
        (h.keeps_noted hcfg hlt hnoted)

theorem Goes.sent {P : Effect → Prop} (hcfg : cfg.memPoison = false) (h : Goes (MemStep cfg) P s s')
    (hwrite : c.isWrite = true) (hs : s.Sent t c start) : s'.Sent t c start := by
  apply h.invariant (I := fun x => x.Sent t c start) _ hs
  intro x e y _ hx hstep
  exact hstep.sent hcfg hwrite hx

/-! ## After it -/

/-- The `CLFLUSHOPT` itself. -/
theorem MemStep.flushing_issue (hcfg : cfg.memPoison = false) (h : MemStep cfg s (.push a) s')
    (hself : s.threadId = t) (htype : a.type = .cacheClflushopt) (hline : a.line = c.line) (hclocked : s.Clocked)
    (hs : s.Sent t c start) : s'.Flushing t c start 0 := by
  have hle := h.ticks_le hcfg
  have hbuf' : (s'.threadMemory t).storeBuffer = (s.threadMemory t).storeBuffer ++ [a] := by
    rw [h.storeBuffer hcfg, Effect.storeBuffer, if_pos hself.symm]
  cases hs with
  | buffered front back hstart hbuf =>
      refine .buffered front back a [] (Nat.le_trans hstart hle) ?_ rfl htype hline
      rw [hbuf', hbuf, List.append_assoc, List.cons_append]
  | evicted place tick hstart hlt hlisted hnoted =>
      refine .evicted place tick hstart (h.listedAt hcfg hlisted) ⟨h.clocked hcfg hclocked,
        Nat.lt_of_lt_of_le hlt hle, ?_⟩
      intro hticks
      exact .inr (.buffered _ a [] hbuf' rfl htype hline (.inl (h.keeps_noted hcfg hlt hnoted hticks)))

theorem MemStep.flushing_push (hcfg : cfg.memPoison = false) (h : MemStep cfg s (.push b) s')
    (hself : s.threadId = t) (hf : s.Flushing t c start k) : s'.Flushing t c start (k + 1) := by
  cases hf with
  | buffered front mid a back hstart hbuf hlen htype hline =>
      refine .buffered front mid a (back ++ [b]) (Nat.le_trans hstart (h.ticks_le hcfg)) ?_ ?_ htype
        hline
      · rw [h.storeBuffer hcfg, Effect.storeBuffer, if_pos hself.symm, hbuf]
        simp
      · rw [List.length_append, hlen]
        rfl
  | evicted place tick hstart hlisted hfollows =>
      exact .evicted place tick hstart (h.listedAt hcfg hlisted) (h.follows_push hcfg hself hfollows)

theorem MemStep.flushing (hcfg : cfg.memPoison = false) (h : MemStep cfg s e s')
    (he : ∀ b, e = .push b → s.threadId ≠ t) (hwrite : c.isWrite = true) (hclocked : s.Clocked)
    (hf : s.Flushing t c start k) : s'.Flushing t c start k := by
  cases hf with
  | buffered front mid a back hstart hbuf hlen htype hline =>
      rcases h.storeBuffer_cases hcfg hbuf hwrite with ⟨front', hbuf'⟩ | hevicts | ⟨b, hb, hself, _⟩
      · exact .buffered front' mid a back (Nat.le_trans hstart (h.ticks_le hcfg)) hbuf' hlen htype hline
      · -- the store takes its clock, and the flush is behind it
        refine .evicted _ s.ticks hstart hevicts.listed ⟨h.clocked hcfg hclocked, hevicts.ticks, ?_⟩
        intro hticks
        exact .inr (.buffered mid a back hevicts.storeBuffer hlen htype hline (.inl (hevicts.le_noted hticks)))
      · exact absurd hself (he b hb)
  | evicted place tick hstart hlisted hfollows =>
      exact .evicted place tick hstart (h.listedAt hcfg hlisted) (h.follows hcfg he hfollows)

theorem Pushes.flushing {j : Nat} (hcfg : cfg.memPoison = false) (h : Pushes cfg t s j s')
    (hwrite : c.isWrite = true) (hclocked : s.Clocked) (hf : s.Flushing t c start k) :
    s'.Clocked ∧ s'.Flushing t c start (k + j) := by
  induction h with
  | refl => exact ⟨hclocked, hf⟩
  | push _ hself hstep ih => exact ⟨hstep.clocked hcfg ih.1, hstep.flushing_push hcfg hself ih.2⟩
  | other _ he hstep ih => exact ⟨hstep.clocked hcfg ih.1, hstep.flushing hcfg he hwrite ih.1 ih.2⟩

theorem Goes.flushing (hcfg : cfg.memPoison = false) (h : Goes (MemStep cfg) (Effect.Drains t) s s')
    (hwrite : c.isWrite = true) (hclocked : s.Clocked) (hf : s.Flushing t c start k) :
    s'.Flushing t c start k := by
  have hinv : s'.Clocked ∧ s'.Flushing t c start k := by
    apply h.invariant (I := fun x => x.Clocked ∧ x.Flushing t c start k) _ ⟨hclocked, hf⟩
    intro x e y he hx hstep
    refine ⟨hstep.clocked hcfg hx.1, hstep.flushing hcfg ?_ hwrite hx.1 hx.2⟩
    intro b hb
    subst hb
    exact he.elim
  exact hinv.2

/-! ## The fence -/

theorem Fence.goes (h : Fence t k s s') (hseq : s.Unclocked t) :
    Goes (MemStep cfg) (Effect.Drains t) s s' := by
  cases h with
  | sfence _ _ _ _ _ h => exact (popFromStoreBuffer_does cfg hseq).returns h
  | drain h => exact (drain_does cfg hseq).returns h

/-- After the fence no more than the later entries are left, and the flush buffer is empty. -/
theorem Fence.empties (h : Fence t k s s') (hseq : s.Unclocked t) :
    (s'.threadMemory t).storeBuffer.length ≤ k ∧ (s'.threadMemory t).flushBuffer = [] := by
  cases h with
  | sfence entry rest hbuf htype hlater h =>
      rw [popFromStoreBuffer_storeBuffer hseq h, if_pos rfl, hbuf]
      exact ⟨Nat.le_of_lt hlater, popSfence_flushBuffer hbuf htype h⟩
  | drain h =>
      obtain ⟨hstores, hflushes⟩ := drain_empty hseq h
      rw [hstores]
      exact ⟨Nat.zero_le k, hflushes⟩

/-- The store is in memory by then, and it is durable unless its process has crashed. -/
theorem Fence.durable (hcfg : cfg.memPoison = false) (h : Fence t k s s') (hseq : s.Unclocked t)
    (hwrite : c.isWrite = true) (hclocked : s.Clocked) (hf : s.Flushing t c start k)
    (hticks : s'.ticks < 2 ^ 32) :
    ∃ place tick, start ≤ tick ∧ s'.ListedAt c.word place { c with tick := tick } ∧
      s'.PersistedTo c.line tick := by
  obtain ⟨hstores, hflushes⟩ := h.empties hseq
  cases Goes.flushing hcfg (h.goes hseq) hwrite hclocked hf with
  | buffered front mid a back _ hbuf hlen _ _ =>
      rw [hbuf] at hstores
      simp only [List.length_append, List.length_cons] at hstores
      omega
  | evicted place tick hstart hlisted hfollows =>
      exact ⟨place, tick, hstart, hlisted, hfollows.persistedTo hticks hstores hflushes⟩

/-- **Store, flush, fence.** A thread stores, later executes a `CLFLUSHOPT` of the line, later a fence, its
process is still alive when the fence is over, and fewer than `2 ^ 32` numbers were taken from the clock until
then. Then the store is in memory, and each byte of it that is read from then on comes from it or a later
store, whoever crashes. -/
theorem fenced_durable {n cxlMapping : Nat} {memory : Nat → Nat} {mutexType : MutexId → MutexType}
    (hcfg : cfg.memPoison = false) (hn : 1 ≤ n)
    (h₀ : Goes (MemStep cfg) (fun _ => True) (Model.init n cxlMapping memory mutexType) s)
    (hstore : MemStep cfg s (.push c) s₁) (hwrite : c.isWrite = true)
    (h₁ : Goes (MemStep cfg) (fun _ => True) s₁ s₂)
    (hflush : MemStep cfg s₂ (.push a) s₃) (hself : s₂.threadId = s.threadId)
    (htype : a.type = .cacheClflushopt) (hline : a.line = c.line)
    (h₂ : Pushes cfg s.threadId s₃ k s₄) (hfence : Fence s.threadId k s₄ s₅)
    (hwriter : s.processId < s.processCount) (hlive : s₅.isCrashed s.processId = false)
    (hticks : s₅.ticks < 2 ^ 32) (h₃ : Goes (MemStep cfg) (fun _ => True) s₅ s₆)
    (hread : MemStep cfg s₆ (.read read rf) s')
    (hword : read.word = c.word) (hi : i < read.size) (hwants : wants read c i = true) :
    ∃ place tick, s.ticks ≤ tick ∧ s₆.ListedAt c.word place { c with tick := tick } ∧
      s₆.ReadsFrom read rf i place := by
  have hstored : Goes (MemStep cfg) (fun _ => True) s s₁ := .single hstore trivial
  have hflushed : Goes (MemStep cfg) (fun _ => True) s₂ s₃ := .single hflush trivial
  have hto₂ := h₀.trans (hstored.trans h₁)
  have hto₄ := hto₂.trans (hflushed.trans h₂.goes)
  have hr₄ : s₄.Recorded := Goes.recorded hcfg hto₄ (Model.recorded_init hn)
  have hclocked₂ : s₂.Clocked := Goes.clocked hcfg hto₂ Model.clocked_init
  -- the store is sent, the flush follows, the fence completes both
  have hsent : s₂.Sent s.threadId c s.ticks := Goes.sent hcfg h₁ hwrite (hstore.sent_push hcfg)
  have hissued := hflush.flushing_issue hcfg hself htype hline hclocked₂ hsent
  obtain ⟨hclocked₄, hflushing⟩ := h₂.flushing hcfg hwrite (hflush.clocked hcfg hclocked₂) hissued
  rw [Nat.zero_add] at hflushing
  obtain ⟨place, tick, hstart, hlisted, hpersisted⟩ :=
    hfence.durable hcfg (hr₄.unclocked _) hwrite hclocked₄ hflushing hticks
  have hto₅ : Goes (MemStep cfg) (fun _ => True) s₄ s₅ := (hfence.goes (hr₄.unclocked _)).mono fun _ _ => trivial
  have hfrom : Goes (MemStep cfg) (fun _ => True) s s₅ :=
    (hstored.trans h₁).trans ((hflushed.trans h₂.goes).trans hto₅)
  have hdurable : s₅.Durable { c with tick := tick } := by
    obtain ⟨_, hcount, hprocess⟩ :=
      Goes.keepsProcess hcfg hfrom (Goes.recorded hcfg h₀ (Model.recorded_init hn)).active
    have hpid : s₅.getProcessId { c with tick := tick } = s.processId := by
      cases hstore with
      | push _ htid _ _ _ =>
          rw [Model.getProcessId, htid]
          exact hprocess
    rw [Model.Durable, hpid]
    refine Nat.le_trans (ModelAction.seqNum_le _) (hpersisted _ ?_ ?_)
    · rw [hcount]
      exact hwriter
    · rw [← Model.isCrashed_iff, hlive]
      exact Bool.false_ne_true
  refine ⟨place, tick, hstart, (Goes.durable hcfg h₃ (Goes.recorded hcfg hto₅ hr₄) hlisted hdurable).2.1, ?_⟩
  rw [← hword] at hlisted
  exact Goes.readsFrom hcfg h₃ (Goes.recorded hcfg hto₅ hr₄) hlisted hdurable hread hi hwants

end

/-! ## A crash after the fence -/

/-- `fenced_durable` for the second store of process 0, which is still in the store buffer when the fence, an
`MFENCE`, begins. Process 0 crashes after the fence. -/
theorem fenced_durable_afterCrash : ∃ (s s₅ s' : Model) (a : ModelAction) (rf : Slots),
    Goes (MemStep .asBuilt) (fun _ => True) (Model.init 2 4096 (fun _ => 0) (fun _ => .default)) s ∧
    MemStep .asBuilt s (.push (lossStore 2)) (s.pushed 0 (lossStore 2)) ∧
    MemStep .asBuilt (s.pushed 0 (lossStore 2)) (.push a) ((s.pushed 0 (lossStore 2)).pushed 0 a) ∧
    Fence 0 0 ((s.pushed 0 (lossStore 2)).pushed 0 a) s₅ ∧ s₅.lostTo.isCrashed 0 = true ∧
    MemStep .asBuilt s₅.lostTo (.read lossRead rf) s' ∧
    ∃ place tick, s.ticks ≤ tick ∧ s₅.lostTo.ListedAt 4096 place { lossStore 2 with tick := tick } ∧
      s₅.lostTo.ReadsFrom lossRead rf 0 place := by
  let a : ModelAction := { tid := 0, type := .cacheClflushopt, location := 4096 }
  let s₀ := (Model.init 2 4096 (fun _ => 0) (fun _ => .default)).initialized 4096
  let s := (((s₀.pushed 0 (lossStore 1)).popped 0 []).evicted (lossStore 1)).noted 0 4096 0
  let s₁ := s.pushed 0 (lossStore 2)
  let s₃ := s₁.pushed 0 a
  have hbefore : Goes (MemStep .asBuilt) (fun _ => True)
      (Model.init 2 4096 (fun _ => 0) (fun _ => .default)) s := by
    refine (Goes.single (MemStep.initial 4096 rfl rfl) trivial).trans ?_
    refine (Goes.single (MemStep.push (lossStore 1) rfl rfl rfl rfl) trivial).trans ?_
    exact Goes.single (MemStep.popStore 0 (lossStore 1) [] rfl rfl) trivial
  have hstore : MemStep .asBuilt s (.push (lossStore 2)) s₁ := .push _ rfl rfl rfl rfl
  have hflush : MemStep .asBuilt s₁ (.push a) s₃ := .push a rfl rfl rfl rfl
  obtain ⟨⟨rf, s₅⟩, s', hends, hcheck⟩ := exists_ends_of_runWith
    (do
      drain 0
      let s ← state
      update Model.lostTo
      let rf ← buildReadFromSlots .asBuilt lossRead
      return (rf, s)) s₃ [1]
    (fun x _ => decide (x.2.crashes.size < maxCrashesPerExecution) && !x.2.isCrashed 0 &&
      x.2.lostTo.isCrashed 0 && decide (x.2.ticks < 2 ^ 32)) (by decide +kernel)
  simp only [Bool.and_eq_true, Bool.not_eq_true', decide_eq_true_eq] at hcheck
  obtain ⟨⟨⟨hnone, hlive⟩, hcrashed⟩, hticks⟩ := hcheck
  obtain ⟨_, s₄, hdrain, hrest⟩ := ends_bind_ok.mp hends
  obtain ⟨rf₂, s₆, hends', hpure⟩ := ends_bind_ok.mp (ends_update_bind.mp (ends_state_bind.mp hrest))
  obtain ⟨hresult, rfl⟩ := ends_pure.mp hpure
  cases hresult
  have hfence : Fence 0 0 s₃ s₅ := .drain hdrain
  have hread : MemStep .asBuilt s₅.lostTo (.read lossRead rf) s' := .read lossRead rf rfl (by decide) hends'
  have hissued : Goes (MemStep .asBuilt) (fun _ => True) s s₃ :=
    (Goes.single hstore trivial).trans (.single hflush trivial)
  have hr : s₃.Recorded := Goes.recorded rfl (hbefore.trans hissued) (Model.recorded_init (by decide))
  have hfenced : Goes (MemStep .asBuilt) (fun _ => True) s₃ s₅ :=
    (hfence.goes (hr.unclocked 0)).mono fun _ _ => trivial
  obtain ⟨hthreads, hcount, hpid⟩ := Goes.keepsProcess rfl (hissued.trans hfenced) (t := 1) (by decide)
  have hcrash : Goes (MemStep .asBuilt) (fun _ => True) s₅ s₅.lostTo :=
    goes_lostTo (Crashes.eq_empty_of_size hnone) (hcount ▸ by decide) hthreads hpid
  exact ⟨s, s₅, s', a, rf, hbefore, hstore, hflush, hfence, hcrashed, hread, fenced_durable rfl (by decide)
    hbefore hstore rfl (.refl s₁) hflush rfl rfl rfl (.refl s₃) hfence (by decide) hlive hticks hcrash hread rfl
    (by decide) (by decide)⟩

end Cxlmc
