import Cxlmc.Flush.Exact

/-!
# What a `CLFLUSHOPT` and a fence make persistent

`Model::action` stamps a `CLFLUSHOPT` with the clock, and the copy of it that goes into the store buffer
has lost the stamp. When the copy leaves the store buffer it gets the clock of the last store or flush
that its own thread has sent to the line, and that is where it takes effect at the fence. Stores of
others that came after it are not covered; all stores are covered if there are none, or if the thread
has a store or a `CLFLUSH` of the line in its buffer, in front of the `CLFLUSHOPT` (`clflushopt_persists`).
-/

namespace Cxlmc

open Stateful Fill

/-- A store or a `CLFLUSH` on the line. -/
def ModelAction.Notes (line : Nat) (b : ModelAction) : Prop :=
  (b.isWrite = true ∨ b.type = .cacheClflush) ∧ b.line = line

/-- Each store on the line is as old as the last store or flush that `t` has sent to it, or a later one is
in the store buffer of `t`, or the store must have persisted already. -/
def Model.KeepsStamp (s : Model) (t : ThreadId) (line : Nat) : Prop :=
  ∀ w, ∀ b ∈ s.storesOf w, b.line = line →
    b.seqNum ≤ ((s.threadMemory t).clToLastWrClf line).getD 0 ∨
      (∃ c ∈ (s.threadMemory t).storeBuffer, c.Notes line) ∨
      ∀ i, i < s.processCount → s.isCrashed i = false → b.seqNum ≤ (s.objToCl i line).getBegin

/-- A path of effects on which `t` adds `k` entries to its store buffer. -/
inductive Pushes (cfg : Config) (t : ThreadId) : Model → Nat → Model → Prop where
  | refl (s : Model) : Pushes cfg t s 0 s
  | push {s s₁ s₂ : Model} {k : Nat} {b : ModelAction} (h : Pushes cfg t s k s₁)
      (hself : s₁.threadId = t) (hstep : MemStep cfg s₁ (.push b) s₂) : Pushes cfg t s (k + 1) s₂
  | other {s s₁ s₂ : Model} {k : Nat} {e : Effect} (h : Pushes cfg t s k s₁)
      (he : ∀ b, e = .push b → s₁.threadId ≠ t) (hstep : MemStep cfg s₁ e s₂) : Pushes cfg t s k s₂

/-- The fences of `t`, where `k` entries of its store buffer are later than the `CLFLUSHOPT`: one of them
is an `SFENCE` and leaves the buffer, or both buffers are drained, as for an `MFENCE` and an atomic
read-modify-write. -/
inductive Fence (t : ThreadId) (k : Nat) (s s' : Model) : Prop where
  | sfence (entry : ModelAction) (rest : List ModelAction)
      (hbuf : (s.threadMemory t).storeBuffer = entry :: rest) (htype : entry.type = .cacheSfence)
      (hlater : rest.length < k) (h : (popFromStoreBuffer t).Ends s (.ok ()) s')
  | drain (h : (drain t).Ends s (.ok ()) s')

/-- Stores on the line up to the clock `m` must have persisted, unless their process has crashed. -/
def Model.PersistedTo (s : Model) (line m : Nat) : Prop :=
  ∀ i, i < s.processCount → i ∉ s.crashes → m ≤ (s.objToCl i line).getBegin

/-- A `CLFLUSHOPT` of `t`, with no more than `k` entries behind it in the store buffer, will take effect
at the clock `m` or later. -/
inductive Model.Awaits (s : Model) (t : ThreadId) (line m k : Nat) : Prop where
  | buffered (front : List ModelAction) (a : ModelAction) (back : List ModelAction)
      (hbuf : (s.threadMemory t).storeBuffer = front ++ a :: back) (hlen : back.length = k)
      (htype : a.type = .cacheClflushopt) (hline : a.line = line)
      (hclock : m ≤ ((s.threadMemory t).clToLastWrClf line).getD 0 ∨ ∃ c ∈ front, c.Notes line)
  | queued (a : ModelAction) (hmem : a ∈ (s.threadMemory t).flushBuffer) (hline : a.line = line)
      (hclock : m ≤ a.earliestEffect) (hlen : (s.threadMemory t).storeBuffer.length ≤ k)

section

variable {cfg : Config} {s s' s₁ s₂ s₃ s₄ : Model} {e : Effect} {t : ThreadId} {line m k : Nat}
  {a : ModelAction}

/-! ## One effect -/

theorem ThreadMemory.line_raiseEarliestEffect (mem : ThreadMemory) (a : ModelAction) :
    (mem.raiseEarliestEffect a).line = a.line := by
  unfold raiseEarliestEffect
  dsimp only
  split
  · split_ifs <;> rfl
  · split_ifs <;> rfl

theorem MemStep.persistedTo (hcfg : cfg.memPoison = false) (h : MemStep cfg s e s')
    (hp : s.PersistedTo line m) : s'.PersistedTo line m := by
  intro i hi hlive
  rw [h.processCount hcfg] at hi
  have hlive' : i ∉ s.crashes := fun hmem => hlive (h.mem_crashes hcfg hmem)
  exact Nat.le_trans (hp i hi hlive') (h.getBegin_le hcfg i line)

theorem Model.flushed_persistedTo {x : Model} {clock : Nat} (hle : m ≤ clock) :
    (x.flushed clock line).PersistedTo line m := by
  intro i hi _
  rw [Model.flushed_objToCl]
  split
  · exact hle
  · next hnot =>
      refine Nat.le_trans hle (Nat.le_of_not_lt fun hlt => hnot ⟨rfl, ?_, hlt⟩)
      exact hi

theorem Model.clToLastWrClf_noted (s : Model) (t : ThreadId) (line clock : Nat) :
    ((s.noted t line clock).threadMemory t).clToLastWrClf line = some clock := by
  rw [Model.noted, Model.threadMemory_setThreadMemory, if_pos rfl]
  dsimp only
  rw [Function.update_self]

/-- What a thread has noted for a line is not taken back to before an earlier clock. -/
theorem MemStep.le_clToLastWrClf (hcfg : cfg.memPoison = false) (h : MemStep cfg s e s')
    (hm : m < s.nextSequenceNum)
    (hclock : m ≤ ((s.threadMemory t).clToLastWrClf line).getD 0) :
    m ≤ ((s'.threadMemory t).clToLastWrClf line).getD 0 := by
  have hupdate : ∀ {u : ThreadId} {l c : Nat}, m ≤ c →
      m ≤ ((if t = u then Function.update (s.threadMemory t).clToLastWrClf l (some c)
        else (s.threadMemory t).clToLastWrClf) line).getD 0 := by
    intro u l c hc
    split
    · by_cases hl : line = l
      · rw [hl, Function.update_self]
        exact hc
      · rw [Function.update_of_ne hl]
        exact hclock
    · exact hclock
  rw [h.clToLastWrClf hcfg]
  cases h with
  | popStore u b rest _ _ => exact hupdate (Nat.le_of_lt hm)
  | note u b hb =>
      apply hupdate
      rw [Memory.nextSequenceNum, ← hb] at hm
      exact le_modelclock_of_lt hm
  | _ => exact hclock

/-- A `CLFLUSHOPT` that leaves the store buffer goes into the flush buffer. -/
theorem MemStep.queues_flushopt (hcfg : cfg.memPoison = false) (h : MemStep cfg s e s')
    (he : e.taken = some (t, a)) (htype : a.type = .cacheClflushopt) :
    (s.threadMemory t).raiseEarliestEffect a ∈ (s'.threadMemory t).flushBuffer := by
  rcases h.taken_cases he with ⟨_, hw⟩ | ⟨_, htype'⟩ | ⟨rfl, _⟩ | ⟨_, htype'⟩
  · simp [ModelAction.isWrite, htype] at hw
  · simp [htype] at htype'
  · rw [h.flushBuffer hcfg, Effect.flushBuffer, if_pos rfl]
    exact List.mem_append_right _ (List.mem_singleton_self _)
  · simp [htype] at htype'

/-- An entry that leaves the store buffer takes none out of the flush buffer. -/
theorem MemStep.mem_flushBuffer_of_taken (hcfg : cfg.memPoison = false) (h : MemStep cfg s e s')
    {u : ThreadId} {b c : ModelAction} (he : e.taken = some (u, c))
    (hb : b ∈ (s.threadMemory t).flushBuffer) : b ∈ (s'.threadMemory t).flushBuffer := by
  rw [h.flushBuffer hcfg]
  rcases h.taken_cases he with ⟨rfl, _⟩ | ⟨rfl, _⟩ | ⟨rfl, _⟩ | ⟨rfl, _⟩
  · exact hb
  · exact hb
  · rw [Effect.flushBuffer]
    split
    · exact List.mem_append_left _ hb
    · exact hb
  · exact hb

/-- A store or a `CLFLUSH` of the line leaves the store buffer: it makes what is older persistent, or its
thread notes it. -/
theorem MemStep.notes_taken (h : MemStep cfg s e s') (hm : m < s.nextSequenceNum)
    (he : e.taken = some (t, a)) (hnotes : a.Notes line) :
    s'.PersistedTo line m ∨ m ≤ ((s'.threadMemory t).clToLastWrClf line).getD 0 := by
  obtain ⟨hkind, rfl⟩ := hnotes
  have hle := Nat.le_of_lt hm
  rcases h.taken_cases he with ⟨rfl, _⟩ | ⟨rfl, _⟩ | ⟨_, htype⟩ | ⟨_, htype⟩
  · cases h with
    | popStore _ _ _ _ _ =>
        right
        rw [Model.clToLastWrClf_noted, Option.getD_some]
        exact hle
  · cases h with
    | popClflush _ _ _ _ _ => exact .inl (Model.flushed_persistedTo hle)
  · simp [ModelAction.isWrite, htype] at hkind
  · simp [ModelAction.isWrite, htype] at hkind

/-- The entry at the head of the store buffer of `t` leaves it. -/
theorem MemStep.awaits_taken (hcfg : cfg.memPoison = false) (h : MemStep cfg s e s') (hs : s.Clocked)
    (hm : m < s.nextSequenceNum) {c : ModelAction} (he : e.taken = some (t, c))
    (ha : s.Awaits t line m k) : s'.PersistedTo line m ∨ s'.Awaits t line m k := by
  have hhead := h.storeBuffer_taken hcfg he
  cases ha with
  | buffered front a back hbuf hlen htype hline hclock =>
      rw [hhead] at hbuf
      cases front with
      | nil =>
          -- the flush itself: it gets the clock that its thread has noted
          obtain ⟨rfl, hback⟩ := List.cons.inj hbuf
          right
          have hmem : c ∈ (s.threadMemory t).storeBuffer := by
            rw [hhead]
            exact List.mem_cons_self
          have heffect : ((s.threadMemory t).raiseEarliestEffect c).earliestEffect =
              ((s.threadMemory t).clToLastWrClf line).getD 0 := by
            rw [← hline]
            exact ThreadMemory.earliestEffect_raiseEarliestEffect (hs.sfence t) (hs.buffered t c hmem)
          refine .queued _ (h.queues_flushopt hcfg he htype) ?_ ?_ ?_
          · rw [ThreadMemory.line_raiseEarliestEffect]
            exact hline
          · rw [heffect]
            exact hclock.resolve_right fun ⟨_, hmem, _⟩ => List.not_mem_nil hmem
          · rw [hback, hlen]
      | cons c' front =>
          obtain ⟨rfl, hrest⟩ := List.cons.inj hbuf
          have hbuffered : (m ≤ ((s'.threadMemory t).clToLastWrClf line).getD 0 ∨
              ∃ d ∈ front, d.Notes line) → s'.Awaits t line m k :=
            .buffered front a back hrest hlen htype hline
          rcases hclock with hclock | ⟨d, hd, hnotes⟩
          · exact .inr (hbuffered (.inl (h.le_clToLastWrClf hcfg hm hclock)))
          · rcases List.mem_cons.mp hd with rfl | hd
            · -- the store or `CLFLUSH` in front takes effect now
              exact (h.notes_taken hm he hnotes).imp_right fun hnoted => hbuffered (.inl hnoted)
            · exact .inr (hbuffered (.inr ⟨d, hd, hnotes⟩))
  | queued a hmem hline hclock hlen =>
      right
      refine .queued a (h.mem_flushBuffer_of_taken hcfg he hmem) hline hclock ?_
      rw [hhead, List.length_cons] at hlen
      exact Nat.le_of_succ_le hlen

/-- An effect that takes nothing out of the store buffer of `t`, and has added `j` entries to it. -/
theorem MemStep.awaits_of_append (hcfg : cfg.memPoison = false) (h : MemStep cfg s e s')
    (hm : m < s.nextSequenceNum) {more : List ModelAction}
    (hbuf' : (s'.threadMemory t).storeBuffer = (s.threadMemory t).storeBuffer ++ more)
    (ha : s.Awaits t line m k) :
    s'.PersistedTo line m ∨ s'.Awaits t line m (k + more.length) := by
  cases ha with
  | buffered front a back hbuf hlen htype hline hclock =>
      right
      refine .buffered front a (back ++ more) ?_ ?_ htype hline ?_
      · rw [hbuf', hbuf, List.append_assoc, List.cons_append]
      · rw [List.length_append, hlen]
      · exact hclock.imp_left (h.le_clToLastWrClf hcfg hm)
  | queued a hmem hline hclock hlen =>
      have hlen' : (s'.threadMemory t).storeBuffer.length ≤ k + more.length := by
        rw [hbuf', List.length_append]
        omega
      -- the flush stays in the flush buffer, unless it is the one that takes effect
      have hkept : a ∈ (s'.threadMemory t).flushBuffer → s'.Awaits t line m (k + more.length) :=
        fun hmem' => .queued a hmem' hline hclock hlen'
      have hflush := h.flushBuffer hcfg t
      cases h with
      | flush u b rest hrest _ =>
          rw [Effect.flushBuffer] at hflush
          split at hflush
          · next hu =>
              subst hu
              rw [hrest] at hmem
              rcases List.mem_cons.mp hmem with rfl | hmem
              · -- the flush takes effect
                subst hline
                exact .inl (Model.flushed_persistedTo hclock)
              · right
                apply hkept
                rw [hflush, hrest]
                exact hmem
          · right
            apply hkept
            rw [hflush]
            exact hmem
      | popClflushopt u b rest _ _ =>
          right
          apply hkept
          rw [hflush, Effect.flushBuffer]
          split
          · exact List.mem_append_left _ hmem
          · exact hmem
      | _ =>
          right
          apply hkept
          rw [hflush]
          exact hmem

/-- Where the flush is, as long as the clock has not wrapped around: it has taken effect, or it will. -/
def Model.Follows (s : Model) (t : ThreadId) (line m k : Nat) : Prop :=
  s.Clocked ∧ m < s.ticks ∧ (s.ticks < 2 ^ 32 → s.PersistedTo line m ∨ s.Awaits t line m k)

theorem MemStep.follows_of_awaits (hcfg : cfg.memPoison = false) (h : MemStep cfg s e s') {k' : Nat}
    (hf : s.Follows t line m k)
    (hstep : m < s.nextSequenceNum → s.Awaits t line m k →
      s'.PersistedTo line m ∨ s'.Awaits t line m k') :
    s'.Follows t line m k' := by
  obtain ⟨hs, hm, hp⟩ := hf
  have hle : s.ticks ≤ s'.ticks := h.ticks_le hcfg
  refine ⟨h.clocked hcfg hs, Nat.lt_of_lt_of_le hm hle, ?_⟩
  intro hticks
  have hbefore : s.ticks < 2 ^ 32 := Nat.lt_of_le_of_lt hle hticks
  rcases hp hbefore with hp | ha
  · exact .inl (h.persistedTo hcfg hp)
  · refine hstep ?_ ha
    rw [Memory.nextSequenceNum_of_lt hbefore]
    exact hm

theorem MemStep.follows_push {b : ModelAction} (hcfg : cfg.memPoison = false)
    (h : MemStep cfg s (.push b) s') (hself : s.threadId = t) (hf : s.Follows t line m k) :
    s'.Follows t line m (k + 1) := by
  apply h.follows_of_awaits hcfg hf
  intro hm ha
  have hbuf : (s'.threadMemory t).storeBuffer = (s.threadMemory t).storeBuffer ++ [b] := by
    rw [h.storeBuffer hcfg, Effect.storeBuffer, if_pos hself.symm]
  exact h.awaits_of_append hcfg hm hbuf ha

theorem MemStep.follows (hcfg : cfg.memPoison = false) (h : MemStep cfg s e s')
    (he : ∀ b, e = .push b → s.threadId ≠ t) (hf : s.Follows t line m k) :
    s'.Follows t line m k := by
  apply h.follows_of_awaits hcfg hf
  intro hm ha
  by_cases htaken : ∃ c, e.taken = some (t, c)
  · obtain ⟨c, hc⟩ := htaken
    exact h.awaits_taken hcfg hf.1 hm hc ha
  · have hbuf : (s'.threadMemory t).storeBuffer = (s.threadMemory t).storeBuffer ++ [] := by
      rw [List.append_nil]
      exact h.storeBuffer_kept hcfg (fun c hc => htaken ⟨c, hc⟩) fun b hb => (he b hb).symm
    exact h.awaits_of_append hcfg hm hbuf ha

theorem Pushes.follows {j : Nat} (hcfg : cfg.memPoison = false) (h : Pushes cfg t s j s')
    (hf : s.Follows t line m k) : s'.Follows t line m (k + j) := by
  induction h with
  | refl => exact hf
  | push _ hself hstep ih => exact hstep.follows_push hcfg hself ih
  | other _ he hstep ih => exact hstep.follows hcfg he ih

theorem Goes.follows (hcfg : cfg.memPoison = false) (h : Goes (MemStep cfg) (Effect.Drains t) s s')
    (hf : s.Follows t line m k) : s'.Follows t line m k := by
  apply h.invariant (I := fun x => x.Follows t line m k) _ hf
  intro x e y he hx hstep
  apply hstep.follows hcfg _ hx
  rintro b rfl
  exact he.elim

/-! ## The fences -/

/-- With the flush buffer empty and no more than the later entries in the store buffer, the flush has
taken effect. -/
theorem Model.Follows.persistedTo (hf : s.Follows t line m k) (hticks : s.ticks < 2 ^ 32)
    (hstores : (s.threadMemory t).storeBuffer.length ≤ k)
    (hflushes : (s.threadMemory t).flushBuffer = []) : s.PersistedTo line m := by
  rcases hf.2.2 hticks with hp | ha
  · exact hp
  · cases ha with
    | buffered front a back hbuf hlen _ _ _ =>
        rw [hbuf, List.length_append, List.length_cons] at hstores
        omega
    | queued a hmem _ _ _ =>
        rw [hflushes] at hmem
        cases hmem

/-- An `SFENCE` that leaves the store buffer empties the flush buffer. -/
theorem popSfence_flushBuffer {entry : ModelAction} {rest : List ModelAction}
    (hbuf : (s.threadMemory t).storeBuffer = entry :: rest) (htype : entry.type = .cacheSfence)
    (h : (popFromStoreBuffer t).Ends s (.ok ()) s') : (s'.threadMemory t).flushBuffer = [] := by
  rw [popFromStoreBuffer, ends_state_bind, hbuf] at h
  dsimp only at h
  rw [ends_update_bind, popAction, htype] at h
  dsimp only at h
  obtain ⟨_, s₁, h₁, h₂⟩ := ends_bind_ok.mp h
  obtain ⟨_, rfl⟩ := ends_update.mp h₂
  rw [Model.threadMemory_setThreadMemory, if_pos rfl]
  exact emptyFlushBuffer_empty h₁

theorem Fence.persistedTo (hcfg : cfg.memPoison = false) (hseq : s.Unclocked t) (h : Fence t k s s')
    (hf : s.Follows t line m k) (hticks : s'.ticks < 2 ^ 32) : s'.PersistedTo line m := by
  cases h with
  | sfence entry rest hbuf htype hlater h =>
      have hgoes := (popFromStoreBuffer_does cfg hseq).returns h
      apply (Goes.follows hcfg hgoes hf).persistedTo hticks
      · rw [popFromStoreBuffer_storeBuffer hseq h, if_pos rfl, hbuf]
        exact Nat.le_of_lt hlater
      · exact popSfence_flushBuffer hbuf htype h
  | drain h =>
      obtain ⟨hstores, hflushes⟩ := drain_empty hseq h
      apply (Goes.follows hcfg ((drain_does cfg hseq).returns h) hf).persistedTo hticks
      · rw [hstores]
        exact Nat.zero_le k
      · exact hflushes

/-! ## Runs -/

theorem Pushes.goes (h : Pushes cfg t s k s') : Goes (MemStep cfg) (fun _ => True) s s' := by
  induction h with
  | refl => exact .refl s
  | push _ _ hstep ih => exact ih.trans (.single hstep trivial)
  | other _ _ hstep ih => exact ih.trans (.single hstep trivial)

/-- A store that took an earlier number was in its list before. -/
theorem Goes.mem_storesOf_of_lt {P : Effect → Prop} (hcfg : cfg.memPoison = false)
    (h : Goes (MemStep cfg) P s s') {w : Nat} {b : ModelAction} (hb : b ∈ s'.storesOf w)
    (hlt : b.tick < s.ticks) : b ∈ s.storesOf w := by
  have hall : s.ticks ≤ s'.ticks ∧ ∀ b ∈ s'.storesOf w, b.tick < s.ticks → b ∈ s.storesOf w := by
    apply h.invariant (I := fun x => s.ticks ≤ x.ticks ∧
      ∀ b ∈ x.storesOf w, b.tick < s.ticks → b ∈ s.storesOf w) _ ⟨Nat.le_refl _, fun _ hb _ => hb⟩
    intro x e y _ ⟨hle, hx⟩ hstep
    refine ⟨Nat.le_trans hle (hstep.ticks_le hcfg), ?_⟩
    intro b hb hlt
    rcases hstep.mem_storesOf hcfg hb with hb | ⟨_, c, _, _, _, _, rfl⟩
    · exact hx b hb hlt
    · exact absurd hlt (Nat.not_lt_of_le hle)
  exact hall.2 b hb hlt

/-- The `CLFLUSHOPT` itself. -/
theorem MemStep.follows_issue (hcfg : cfg.memPoison = false) (h : MemStep cfg s (.push a) s₁)
    (htype : a.type = .cacheClflushopt) (hs : s.Clocked) (hkeeps : s.KeepsStamp s.threadId a.line)
    {w : Nat} {b : ModelAction} (hb : b ∈ s.storesOf w) (hline : b.line = a.line)
    (htick : b.tick < s.ticks) : s₁.Follows s.threadId a.line b.seqNum 0 := by
  have hle : s.ticks ≤ s₁.ticks := h.ticks_le hcfg
  refine ⟨h.clocked hcfg hs, Nat.lt_of_le_of_lt b.seqNum_le (Nat.lt_of_lt_of_le htick hle), ?_⟩
  intro hticks
  have hm : b.seqNum < s.nextSequenceNum := by
    rw [Memory.nextSequenceNum_of_lt (Nat.lt_of_le_of_lt hle hticks)]
    exact Nat.lt_of_le_of_lt b.seqNum_le htick
  have hbuf : (s₁.threadMemory s.threadId).storeBuffer =
      (s.threadMemory s.threadId).storeBuffer ++ [a] := by
    rw [h.storeBuffer hcfg, Effect.storeBuffer, if_pos rfl]
  rcases hkeeps w b hb hline with hclock | hfront | hbegins
  · exact .inr (.buffered _ a [] hbuf rfl htype rfl (.inl (h.le_clToLastWrClf hcfg hm hclock)))
  · exact .inr (.buffered _ a [] hbuf rfl htype rfl (.inr hfront))
  · left
    apply h.persistedTo hcfg
    intro i hi hlive
    apply hbegins i hi
    rw [← Bool.not_eq_true, Model.isCrashed_iff]
    exact hlive

/-- After a `CLFLUSHOPT` of a thread and a later fence of it, every store on the line that was evicted
before the `CLFLUSHOPT` must have persisted, for every process that has not crashed, if the stamp that
the `CLFLUSHOPT` has lost makes no difference to it and fewer than `2 ^ 32` numbers have been taken from the
clock. -/
theorem clflushopt_persists {n cxlMapping : Nat} {memory : Nat → Nat} {mutexType : MutexId → MutexType}
    (hcfg : cfg.memPoison = false) (hn : 1 ≤ n)
    (h₁ : Goes (MemStep cfg) (fun _ => True) (Model.init n cxlMapping memory mutexType) s)
    (hissue : MemStep cfg s (.push a) s₁) (htype : a.type = .cacheClflushopt)
    (hkeeps : s.KeepsStamp s.threadId a.line)
    (h₂ : Pushes cfg s.threadId s₁ k s₂) (hfence : Fence s.threadId k s₂ s₃)
    (h₃ : Goes (MemStep cfg) (fun _ => True) s₃ s₄) {i : ProcessId} (hi : i < s₄.processCount)
    (hlive : s₄.isCrashed i = false) (hticks : s₄.ticks < 2 ^ 32) {w : Nat} {b : ModelAction}
    (hb : b ∈ s₄.storesOf w) (hline : b.line = a.line) (hseq : b.seqNum < s.nextSequenceNum) :
    b.seqNum ≤ (s₄.objToCl i a.line).getBegin := by
  have hclocked : s.Clocked := Goes.clocked hcfg h₁ Model.clocked_init
  have hr : s.Recorded := Goes.recorded hcfg h₁ (Model.recorded_init hn)
  have hissued : Goes (MemStep cfg) (fun _ => True) s s₁ := .single hissue trivial
  have hbefore : Goes (MemStep cfg) (fun _ => True) s s₂ := hissued.trans h₂.goes
  have hunclocked : s₂.Unclocked s.threadId := (Goes.recorded hcfg hbefore hr).unclocked _
  have hfenced : Goes (MemStep cfg) (fun _ => True) s₂ s₃ := by
    cases hfence with
    | sfence _ _ _ _ _ h =>
        exact ((popFromStoreBuffer_does cfg hunclocked).returns h).mono fun _ _ => trivial
    | drain h => exact ((drain_does cfg hunclocked).returns h).mono fun _ _ => trivial
  have hwhole : Goes (MemStep cfg) (fun _ => True) s s₄ := (hbefore.trans hfenced).trans h₃
  have hlater : s₄.Recorded := Goes.recorded hcfg hwhole hr
  have htick : b.tick < s.ticks := by
    have hclock : b.seqNum = b.tick := ModelAction.seqNum_of_lt (Nat.lt_trans (hlater.clock w b hb) hticks)
    rw [← hclock]
    exact Nat.lt_of_lt_of_le hseq (modelclock_le _)
  have hold : b ∈ s.storesOf w := Goes.mem_storesOf_of_lt hcfg hwhole hb htick
  have hissue := hissue.follows_issue hcfg htype hclocked hkeeps hold hline htick
  have hfollows := h₂.follows hcfg hissue
  rw [Nat.zero_add] at hfollows
  have hpersisted : s₄.PersistedTo a.line b.seqNum := by
    apply h₃.invariant (I := fun x => x.PersistedTo a.line b.seqNum)
    · intro x e y _ hx hstep
      exact hstep.persistedTo hcfg hx
    · have hafter : s₃.ticks < 2 ^ 32 := Nat.lt_of_le_of_lt (Goes.ticks_le hcfg h₃) hticks
      exact hfence.persistedTo hcfg hunclocked hfollows hafter
  apply hpersisted i hi
  rw [← Model.isCrashed_iff, hlive]
  nofun

end

/-! ## Stores of the thread itself and of another -/

/-- `clflushopt_persists` for two stores of the flushing thread itself. -/
theorem clflushopt_persists_ownStores : ∃ (s s₃ : Model) (a b : ModelAction),
    Goes (MemStep .asBuilt) (fun _ => True) (Model.init 2 4096 (fun _ => 0) (fun _ => .default)) s ∧
    a.type = .cacheClflushopt ∧ MemStep .asBuilt s (.push a) (s.pushed 0 a) ∧
    Fence 0 0 (s.pushed 0 a) s₃ ∧ b ∈ s₃.storesOf 4096 ∧ b.seqNum = 1 ∧
    b.seqNum ≤ (s₃.objToCl 0 (getCacheID 4096)).getBegin := by
  let s₁ := (Model.init 2 4096 (fun _ => 0) (fun _ => .default)).initialized 4096
  let s₂ := (((s₁.pushed 0 (flushedStore 1)).popped 0 []).evicted (flushedStore 1)).noted 0 4096 0
  let s₃ := ((s₂.pushed 0 (flushedStore 2)).popped 0 []).evicted (flushedStore 2)
  let s := s₃.noted 0 4096 1
  let a : ModelAction := { tid := 0, type := .cacheClflushopt, location := 4096 }
  have hbefore : Goes (MemStep .asBuilt) (fun _ => True)
      (Model.init 2 4096 (fun _ => 0) (fun _ => .default)) s := by
    refine (Goes.single (MemStep.initial 4096 rfl rfl) trivial).trans ?_
    refine (Goes.single (MemStep.push (flushedStore 1) rfl rfl rfl rfl) trivial).trans ?_
    refine (Goes.single (MemStep.popStore 0 (flushedStore 1) [] rfl rfl) trivial).trans ?_
    refine (Goes.single (MemStep.push (flushedStore 2) rfl rfl rfl rfl) trivial).trans ?_
    exact Goes.single (MemStep.popStore 0 (flushedStore 2) [] rfl rfl) trivial
  have hissue : MemStep .asBuilt s (.push a) (s.pushed 0 a) := .push a rfl rfl rfl rfl
  let second : ModelAction := { flushedStore 2 with tick := 1 }
  obtain ⟨_, s₄, hdrain, hcheck⟩ := exists_ends_of_runWith (drain 0) (s.pushed 0 a) [1]
    (fun _ x => decide (second ∈ x.storesOf 4096) && decide (0 < x.processCount) && !x.isCrashed 0 &&
      decide (x.ticks < 2 ^ 32)) (by decide +kernel)
  simp only [Bool.and_eq_true, Bool.not_eq_true', decide_eq_true_eq] at hcheck
  obtain ⟨⟨⟨hmem, hcount⟩, hlive⟩, hticks⟩ := hcheck
  have hkeeps : s.KeepsStamp 0 a.line := by
    intro w b hb _
    have hlt : b.tick < 2 := (Goes.recorded rfl hbefore (Model.recorded_init (by decide))).clock w b hb
    have hnoted : (s.threadMemory 0).clToLastWrClf a.line = some 1 := by
      have hline : getCacheID 4096 = 4096 := by decide
      show (s.threadMemory 0).clToLastWrClf (getCacheID 4096) = some 1
      rw [hline]
      exact Model.clToLastWrClf_noted s₃ 0 4096 1
    rw [hnoted]
    exact .inl (Nat.le_trans b.seqNum_le (Nat.le_of_lt_succ hlt))
  refine ⟨s, s₄, a, second, hbefore, rfl, hissue, .drain hdrain, hmem, rfl, ?_⟩
  exact clflushopt_persists rfl (by decide) hbefore hissue rfl hkeeps (.refl _) (.drain hdrain)
    (.refl _) hcount hlive hticks hmem rfl (by decide)

/-- Process 0 stores twice to a word, and an `MFENCE` evicts both stores. Then process 1 executes a
`CLFLUSHOPT` of the line and an `MFENCE`. -/
def flushOfOthers : List (Input × List Nat) :=
  [({ call := .store 4096 .w64 1 }, []), ({}, []), ({}, []),
   ({ call := .store 4096 .w64 2 }, []), ({}, []), ({}, []),
   ({ call := .mfence 4096 }, []), ({ call := .clflushopt 4096 }, []), ({}, []), ({}, []),
   ({ call := .schedYield }, []), ({}, []), ({}, []), ({ call := .mfence 4096 }, []), ({}, []), ({}, []),
   ({ call := .schedYield }, []), ({}, [1])]

/-- The step is one of thread 1 that executes an action of this type. -/
def executesType (type : ActionType) (x : Model × Label × Model) : Bool :=
  decide (x.2.1.tid = 1) &&
    match x.2.1.event with
    | .executed a _ _ => decide (a.type = type ∧ a.location = 4096)
    | _ => false

theorem executesType_iff {type : ActionType} {x : Model × Label × Model} :
    executesType type x = true ↔ x.2.1.tid = 1 ∧
      ∃ a v rf, x.2.1.event = .executed a v rf ∧ a.type = type ∧ a.location = 4096 := by
  unfold executesType
  rw [Bool.and_eq_true, decide_eq_true_eq]
  constructor
  · rintro ⟨htid, h⟩
    split at h
    · next a v rf hev => exact ⟨htid, a, v, rf, hev, (of_decide_eq_true h).1, (of_decide_eq_true h).2⟩
    · cases h
  · rintro ⟨htid, a, v, rf, hev, htype, hloc⟩
    simp [htid, hev, htype, hloc]

/-- After the `CLFLUSHOPT` and the `MFENCE` of process 1 the second store of process 0 can still be
lost. -/
theorem clflushopt_not_persists : ∃ tr s, IsRun .asBuilt 2 4096 (fun _ => 0) (fun _ => .default) tr s ∧
    ∃ (i j : Nat) (x y : Model × Label × Model), i < j ∧ (stepsOf tr s)[i]? = some x ∧
      (stepsOf tr s)[j]? = some y ∧ x.2.1.tid = 1 ∧
      (∃ a v rf, x.2.1.event = .executed a v rf ∧ a.type = .cacheClflushopt ∧ a.location = 4096) ∧
      y.2.1.tid = 1 ∧ (∃ a v rf, y.2.1.event = .executed a v rf ∧ a.type = .cacheMfence ∧
        a.location = 4096) ∧
      y.2.2.isCrashed 0 = false ∧ ∃ b ∈ y.2.2.storesOf 4096, b.seqNum < x.1.nextSequenceNum ∧
        ¬ b.seqNum ≤ (y.2.2.objToCl 0 (getCacheID 4096)).getBegin := by
  obtain ⟨tr, s, hrun, hcheck⟩ := exists_run_of_replay .asBuilt
    (Model.init 2 4096 (fun _ => 0) (fun _ => .default)) flushOfOthers
    (fun tr s => ((stepsOf tr s)[11]?).any fun x => ((stepsOf tr s)[17]?).any fun y =>
      executesType .cacheClflushopt x && executesType .cacheMfence y && !y.2.2.isCrashed 0 &&
      (y.2.2.storesOf 4096).any fun b => decide (b.seqNum < x.1.nextSequenceNum) &&
        !decide (b.seqNum ≤ (y.2.2.objToCl 0 (getCacheID 4096)).getBegin))
    (by decide +kernel)
  simp only [Option.any_eq_true, Bool.and_eq_true, Bool.not_eq_true', List.any_eq_true,
    decide_eq_true_eq, decide_eq_false_iff_not, executesType_iff] at hcheck
  obtain ⟨x, hx, y, hy, ⟨⟨⟨hself, hissue⟩, hself', hfence⟩, hlive⟩, b, hb, hlt, hnot⟩ := hcheck
  exact ⟨tr, s, ⟨by decide, hrun⟩, 11, 17, x, y, by decide, hx, hy, hself, hissue, hself', hfence,
    hlive, b, hb, hlt, hnot⟩

end Cxlmc
