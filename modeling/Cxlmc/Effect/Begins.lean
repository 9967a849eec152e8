import Cxlmc.Effect.Clocks
import Cxlmc.Effect.Intervals

/-!
# No interval begins in the future

`begin` of a line is set to the clock of a store that a read has found, to the clock of a `CLFLUSH` or
to `earliest_effect` of a `CLFLUSHOPT`, which comes from `last_sfence` and `cl_to_last_wr_clf`. None of
these is past the clock (`Model.Clocked`), and none takes `begin` back (`MemStep.getBegin_le`).
-/

namespace Cxlmc

open Stateful Fill

/-! ## What a read does to `begin` -/

/-- A read of the line has set `begin` of `p` to the clock of `a`, one of the stores it returns. -/
structure Raised (read : ModelAction) (rpid : ProcessId) (rf : Slots) (s s' : Model) (p : ProcessId)
    (line : Nat) (a : ModelAction) : Prop where
  returned : some a ∈ rf
  writer : s.getProcessId a = p
  onLine : read.line = line
  clock : (s'.objToCl p line).getBegin = a.seqNum
  cause : p ∈ s'.crashes ∨ a.type ≠ .atomicInit ∧ p ≠ rpid

section

variable {cfg : Config} {read : ModelAction} {rpid p : ProcessId} {store : ModelAction}
  {older ws : List ModelAction} {s s' s₁ : Model} {rf rf₁ rf' : Slots} {line : Nat}

theorem Model.getBegin_raiseBegin (s : Model) (p q : ProcessId) (line l seqNum : Nat) :
    ((s.raiseBegin q l seqNum).objToCl p line).getBegin = (s.objToCl p line).getBegin ∨
      p = q ∧ line = l ∧ ((s.raiseBegin q l seqNum).objToCl p line).getBegin = seqNum := by
  have hcl : (s.raiseBegin q l seqNum).objToCl p line =
      if p = q ∧ line = l then (s.objToCl q l).setBegin seqNum else s.objToCl p line := rfl
  rw [hcl]
  split
  · next h => exact .inr ⟨h.1, h.2, rfl⟩
  · exact .inl rfl

theorem Model.getBegin_lowerEnd (q : ProcessId) (l seqNum : Nat) :
    ((s.lowerEnd q l seqNum).objToCl p line).getBegin = (s.objToCl p line).getBegin := by
  have hcl : (s.lowerEnd q l seqNum).objToCl p line =
      if p = q ∧ line = l then (s.objToCl q l).setEnd seqNum else s.objToCl p line := rfl
  rw [hcl]
  split
  · next h =>
      obtain ⟨rfl, rfl⟩ := h
      rfl
  · rfl

theorem Model.getBegin_declineCrash (s : Model) (store : ModelAction) (p : ProcessId) (line l : Nat) :
    ((s.declineCrash store l).objToCl p line).getBegin = (s.objToCl p line).getBegin ∨
      p = s.getProcessId store ∧ line = l ∧
        ((s.declineCrash store l).objToCl p line).getBegin = store.seqNum := by
  unfold Model.declineCrash
  split
  · exact s.getBegin_raiseBegin _ _ _ _ _
  · exact .inl rfl

/-- The only store a round for a running process can raise `begin` to is the one it is for. -/
theorem Running.getBegin (h : Running read rpid store s rf s₁ rf₁) (p : ProcessId) (line : Nat) :
    (s₁.objToCl p line).getBegin = (s.objToCl p line).getBegin ∨
      fill (wants read) store rf ≠ rf ∧ store.type ≠ .atomicInit ∧ s.getProcessId store ≠ rpid ∧
        p = s.getProcessId store ∧ line = read.line ∧
        (s₁.objToCl p line).getBegin = store.seqNum := by
  cases h with
  | shadowed _ => exact .inl rfl
  | own _ _ => exact .inl rfl
  | declined hf hinit hpid _ =>
      rcases s.countCrashPoint.getBegin_declineCrash store p line read.line with heq | ⟨hp, hline, heq⟩
      · exact .inl heq
      · exact .inr ⟨hf, hinit, hpid, hp, hline, heq⟩
  | notOffered hf hinit hpid _ =>
      rcases s.getBegin_declineCrash store p line read.line with heq | ⟨hp, hline, heq⟩
      · exact .inl heq
      · exact .inr ⟨hf, hinit, hpid, hp, hline, heq⟩

theorem Persist.getBegin (h : Persist cfg read store older s rf s₁ rf₁) (p : ProcessId) (line : Nat) :
    (s₁.objToCl p line).getBegin = (s.objToCl p line).getBegin ∨
      fill (wants read) store rf ≠ rf ∧ rf₁ = fill (wants read) store rf ∧
        p = s.getProcessId store ∧ line = read.line ∧
        (s₁.objToCl p line).getBegin = store.seqNum := by
  cases h with
  | kept _ _ hf =>
      rcases s.getBegin_raiseBegin p (s.getProcessId store) line read.line store.seqNum with heq | ⟨hp, hline, heq⟩
      · exact .inl heq
      · exact .inr ⟨hf, rfl, hp, hline, heq⟩
  | lost _ _ _ _ _ => exact .inl (Model.getBegin_lowerEnd _ _ _)
  | _ => exact .inl rfl

/-- A round raises `begin` only to its store, which it then returns. -/
theorem Visit.getBegin (h : Visit cfg read rpid store older s rf s₁ rf₁) (p : ProcessId) (line : Nat) :
    (s₁.objToCl p line).getBegin = (s.objToCl p line).getBegin ∨
      Raised read rpid rf₁ s s₁ p line store := by
  have hcrashes : ∀ {x : Model} {rf₂ : Slots}, Persist cfg read store older x rf s₁ rf₂ →
      p ∈ x.crashes → p ∈ s₁.crashes := by
    intro x rf₂ hp hmem
    obtain ⟨cls, n, rfl, _⟩ := hp.marks
    exact hmem
  cases h with
  | running _ h =>
      rcases h.getBegin p line with heq | ⟨hf, hinit, hpid, rfl, rfl, heq⟩
      · exact .inl heq
      · rw [h.slots_eq]
        exact .inr ⟨mem_fill_of_ne _ hf, rfl, rfl, heq, .inr ⟨hinit, hpid⟩⟩
  | @crash x _ _ _ h h' =>
      have hcl : x.objToCl = s.objToCl := by rw [h.state]; rfl
      have hpids : x.getProcessId store = s.getProcessId store := by rw [h.state]; rfl
      rcases h'.getBegin p line with heq | ⟨hf, rfl, rfl, rfl, heq⟩
      · rw [hcl] at heq
        exact .inl heq
      · have hmem := hcrashes h' (Model.isCrashed_iff.mp h.isCrashed)
        exact .inr ⟨mem_fill_of_ne _ hf, hpids.symm, rfl, heq, .inl hmem⟩
  | crashed hcrashed h =>
      rcases h.getBegin p line with heq | ⟨hf, rfl, rfl, rfl, heq⟩
      · exact .inl heq
      · have hmem := hcrashes h (Model.isCrashed_iff.mp hcrashed)
        exact .inr ⟨mem_fill_of_ne _ hf, rfl, rfl, heq, .inl hmem⟩

/-- A filled slot keeps its store. -/
theorem Visit.mem_slots {a : ModelAction} (h : Visit cfg read rpid store older s rf s₁ rf₁)
    (ha : some a ∈ rf) : some a ∈ rf₁ := by
  rcases h.slots with rfl | rfl
  · exact mem_fill_of_mem _ _ ha
  · exact ha

/-- What is left of the loop keeps the filled slots and the crashes. -/
theorem readLoop_mem_slots {a : ModelAction} (hlen : rf.length = read.size) (hfree : countFree rf ≠ 0)
    (h : (readLoop cfg read rpid ws rf (countFree rf)).Ends s (.ok rf') s') (ha : some a ∈ rf) :
    some a ∈ rf' := by
  induction ws generalizing s rf with
  | nil => cases (ends_stop.mp h).1
  | cons store older ih =>
      obtain ⟨s₁, rf₁, hv, hrest⟩ := (ends_readLoop_cons hlen hfree).mp h
      unfold LoopRest at hrest
      split at hrest
      · obtain ⟨hrf, _⟩ := hrest
        cases hrf
        exact hv.mem_slots ha
      · next hfull => exact ih (hv.length_eq.trans hlen) hfull hrest (hv.mem_slots ha)

/-- The loop leaves `begin` alone, or raises it to one of the stores it returns. -/
theorem readLoop_getBegin (hlen : rf.length = read.size) (hfree : countFree rf ≠ 0)
    (h : (readLoop cfg read rpid ws rf (countFree rf)).Ends s (.ok rf') s') :
    (s'.objToCl p line).getBegin = (s.objToCl p line).getBegin ∨
      ∃ a ∈ ws, Raised read rpid rf' s s' p line a := by
  induction ws generalizing s rf with
  | nil => cases (ends_stop.mp h).1
  | cons store older ih =>
      obtain ⟨s₁, rf₁, hv, hrest⟩ := (ends_readLoop_cons hlen hfree).mp h
      have hsched := hv.observes.toScheduler
      have hpids : ∀ a, s₁.getProcessId a = s.getProcessId a := by
        intro a
        rw [Model.getProcessId, Model.getProcessId, hsched]
      have hhead := hv.getBegin p line
      unfold LoopRest at hrest
      split at hrest
      · obtain ⟨hrf, rfl⟩ := hrest
        cases hrf
        rcases hhead with heq | hraised
        · exact .inl heq
        · exact .inr ⟨store, List.mem_cons_self, hraised⟩
      · next hfull =>
          have hlen₁ := hv.length_eq.trans hlen
          rcases ih hlen₁ hfull hrest with heq | ⟨a, ha, hraised⟩
          · rcases hhead with heq₁ | hraised
            · exact .inl (heq.trans heq₁)
            · have hcause := hraised.cause.imp_left (readLoop_observes hlen₁ hfull hrest).crashes.mem
              exact .inr ⟨store, List.mem_cons_self,
                readLoop_mem_slots hlen₁ hfull hrest hraised.returned, hraised.writer, hraised.onLine,
                heq.trans hraised.clock, hcause⟩
          · exact .inr ⟨a, List.mem_cons_of_mem _ ha, hraised.returned,
              (hpids a).symm.trans hraised.writer, hraised.onLine, hraised.clock, hraised.cause⟩

theorem buildReadFromSlots_getBegin (hpos : 0 < read.size) (hcfg : cfg.memPoison = false)
    (h : (buildReadFromSlots cfg read).Ends s (.ok rf) s') (p : ProcessId) (line : Nat) :
    (s'.objToCl p line).getBegin = (s.objToCl p line).getBegin ∨
      ∃ a ∈ s.objToWr read.word, Raised read (s.getProcessId read) rf s s' p line a := by
  rw [ends_buildReadFromSlots hpos hcfg, LoopRest] at h
  split at h
  · rw [h.2]
    exact .inl rfl
  · next hfull =>
      rcases readLoop_getBegin (length_bypassed s read) hfull h with heq | ⟨a, ha, hraised⟩
      · exact .inl heq
      · exact .inr ⟨a, List.mem_reverse.mp ha, hraised⟩

/-! ## `begin` never goes back -/

theorem Model.getBegin_le_declineCrash (l : Nat) :
    (s.objToCl p line).getBegin ≤ ((s.declineCrash store l).objToCl p line).getBegin := by
  unfold Model.declineCrash
  split
  · next hlt =>
      rcases s.getBegin_raiseBegin p (s.getProcessId store) line l store.seqNum with heq | ⟨rfl, rfl, heq⟩
      · exact Nat.le_of_eq heq.symm
      · rw [heq]
        exact Nat.le_of_lt hlt
  · exact Nat.le_refl _

theorem Persist.getBegin_le (h : Persist cfg read store older s rf s₁ rf₁) :
    (s.objToCl p line).getBegin ≤ (s₁.objToCl p line).getBegin := by
  cases h with
  | kept hmay _ _ =>
      rcases s.getBegin_raiseBegin p (s.getProcessId store) line read.line store.seqNum with heq | ⟨rfl, rfl, heq⟩
      · exact Nat.le_of_eq heq.symm
      · rw [heq]
        exact Nat.le_of_lt hmay.1
  | lost _ _ _ _ _ => exact Nat.le_of_eq (Model.getBegin_lowerEnd _ _ _).symm
  | _ => exact Nat.le_refl _

theorem Visit.getBegin_le (h : Visit cfg read rpid store older s rf s₁ rf₁) :
    (s.objToCl p line).getBegin ≤ (s₁.objToCl p line).getBegin := by
  cases h with
  | running _ h =>
      cases h with
      | declined _ _ _ _ => exact Model.getBegin_le_declineCrash (s := s.countCrashPoint) read.line
      | notOffered _ _ _ _ => exact Model.getBegin_le_declineCrash read.line
      | _ => exact Nat.le_refl _
  | @crash x _ _ _ h h' =>
      have hle : (x.objToCl p line).getBegin ≤ (s₁.objToCl p line).getBegin := h'.getBegin_le
      rw [h.state] at hle
      exact hle
  | crashed _ h => exact h.getBegin_le

theorem readLoop_getBegin_le (hlen : rf.length = read.size) (hfree : countFree rf ≠ 0)
    (h : (readLoop cfg read rpid ws rf (countFree rf)).Ends s (.ok rf') s') :
    (s.objToCl p line).getBegin ≤ (s'.objToCl p line).getBegin := by
  induction ws generalizing s rf with
  | nil => cases (ends_stop.mp h).1
  | cons store older ih =>
      obtain ⟨s₁, rf₁, hv, hrest⟩ := (ends_readLoop_cons hlen hfree).mp h
      have hhead : (s.objToCl p line).getBegin ≤ (s₁.objToCl p line).getBegin := hv.getBegin_le
      unfold LoopRest at hrest
      split at hrest
      · rw [hrest.2]
        exact hhead
      · next hfull => exact Nat.le_trans hhead (ih (hv.length_eq.trans hlen) hfull hrest)

theorem buildReadFromSlots_getBegin_le (hpos : 0 < read.size) (hcfg : cfg.memPoison = false)
    (h : (buildReadFromSlots cfg read).Ends s (.ok rf) s') (p : ProcessId) (line : Nat) :
    (s.objToCl p line).getBegin ≤ (s'.objToCl p line).getBegin := by
  rw [ends_buildReadFromSlots hpos hcfg, LoopRest] at h
  split at h
  · rw [h.2]
  · next hfull => exact readLoop_getBegin_le (length_bypassed s read) hfull h

end

/-! ## The invariant -/

/-- Nothing that `begin` is set from is past the number of ticks. -/
structure Model.Clocked (s : Model) : Prop where
  ticked : s.Ticked
  buffered : ∀ t, ∀ a ∈ (s.threadMemory t).storeBuffer, a.earliestEffect = 0
  queued : ∀ t, ∀ a ∈ (s.threadMemory t).flushBuffer, a.earliestEffect ≤ s.ticks
  sfence : ∀ t, (s.threadMemory t).lastSfence = 0
  noted : ∀ t line clock, (s.threadMemory t).clToLastWrClf line = some clock →
    clock ≤ s.ticks
  begins : ∀ p line, (s.objToCl p line).getBegin ≤ s.ticks

namespace Effect

/-- The lines a thread has stored to or flushed, after an effect. -/
def clToLastWrClf (s : Model) (u : ThreadId) : Effect → Nat → Option Nat
  | popStore t a =>
      if u = t then
        Function.update (s.threadMemory u).clToLastWrClf a.line (some s.nextSequenceNum)
      else (s.threadMemory u).clToLastWrClf
  | note t a =>
      if u = t then Function.update (s.threadMemory u).clToLastWrClf a.line (some a.seqNum)
      else (s.threadMemory u).clToLastWrClf
  | _ => (s.threadMemory u).clToLastWrClf

/-- The effects that move `begin` of `p` on a line, and where to. -/
inductive Begins (s s' : Model) (p : ProcessId) (line : Nat) : Effect → Prop where
  | clflush (t : ThreadId) (a : ModelAction) (hline : a.line = line)
      (hclock : (s'.objToCl p line).getBegin = s.nextSequenceNum) : Begins s s' p line (popClflush t a)
  | clflushopt (t : ThreadId) (a : ModelAction) (hline : a.line = line)
      (hclock : (s'.objToCl p line).getBegin = a.earliestEffect) : Begins s s' p line (flush t a)
  | read (action : ModelAction) (rf : Slots) (a : ModelAction) (ha : a ∈ s.objToWr action.word)
      (h : Raised action (s.getProcessId action) rf s s' p line a) :
      Begins s s' p line (read action rf)

end Effect

section

variable {cfg : Config} {s s' : Model} {e : Effect}

/-- `earliest_effect` of a queued flush is the clock of a store or flush of its thread, or `0`. -/
theorem ThreadMemory.earliestEffect_raiseEarliestEffect {mem : ThreadMemory} {a : ModelAction}
    (hsfence : mem.lastSfence = 0) (heffect : a.earliestEffect = 0) :
    (mem.raiseEarliestEffect a).earliestEffect = (mem.clToLastWrClf a.line).getD 0 := by
  unfold raiseEarliestEffect
  rw [hsfence, if_neg (Nat.not_lt_zero _)]
  dsimp only
  cases hclock : mem.clToLastWrClf a.line with
  | none => exact heffect
  | some c =>
      dsimp only
      rw [heffect]
      split
      · rfl
      · next hc => exact (Nat.eq_zero_of_not_pos hc).symm ▸ heffect

theorem MemStep.clToLastWrClf (hcfg : cfg.memPoison = false) (h : MemStep cfg s e s')
    (u : ThreadId) : (s'.threadMemory u).clToLastWrClf = e.clToLastWrClf s u := by
  have hset : ∀ (m : Model) (t : ThreadId) (f : ThreadMemory → ThreadMemory),
      (∀ mem, (f mem).clToLastWrClf = mem.clToLastWrClf) →
      ((m.setThreadMemory t f).threadMemory u).clToLastWrClf = (m.threadMemory u).clToLastWrClf :=
    fun m t _ hf => m.setThreadMemory_keeps t u ThreadMemory.clToLastWrClf hf
  have hpopped : ∀ t rest,
      ((s.popped t rest).threadMemory u).clToLastWrClf = (s.threadMemory u).clToLastWrClf :=
    fun t rest => hset s t _ fun _ => rfl
  cases h with
  | idle h => rw [h.memory]; rfl
  | yield h => rw [h.memory]; rfl
  | read action rf htid hpos hread =>
      rw [(buildReadFromSlots_observes hpos hcfg hread).memory]
      rfl
  | push a _ _ _ _ => exact hset s s.threadId _ fun _ => rfl
  | popStore t a rest _ _ =>
      have hevicted : (((s.popped t rest).evicted a).threadMemory u).clToLastWrClf =
          (s.threadMemory u).clToLastWrClf := hpopped t rest
      rw [Model.noted, Model.threadMemory_setThreadMemory, Effect.clToLastWrClf]
      split
      · rw [hevicted]
      · exact hevicted
  | popClflush t a rest _ _ => exact hpopped t rest
  | popClflushopt t a rest _ _ =>
      rw [Model.queued, hset]
      · exact hpopped t rest
      · exact fun _ => rfl
  | popSfence t a rest _ _ => exact hpopped t rest
  | flush t a rest _ _ =>
      show ((s.unqueued t rest).threadMemory u).clToLastWrClf = _
      exact hset s t _ fun _ => rfl
  | note t a _ =>
      rw [Model.noted, Model.threadMemory_setThreadMemory, Effect.clToLastWrClf]
      split <;> rfl
  | sfenceDone t a _ => exact hset s t _ fun _ => rfl
  | _ => rfl

/-- `last_sfence` is set from an entry that has no clock. -/
theorem MemStep.lastSfence (hcfg : cfg.memPoison = false) (h : MemStep cfg s e s')
    (hs : ∀ t, (s.threadMemory t).lastSfence = 0) (u : ThreadId) :
    (s'.threadMemory u).lastSfence = 0 := by
  have hset : ∀ (m : Model) (t : ThreadId) (f : ThreadMemory → ThreadMemory),
      (m.threadMemory u).lastSfence = 0 → (∀ mem, mem.lastSfence = 0 → (f mem).lastSfence = 0) →
      ((m.setThreadMemory t f).threadMemory u).lastSfence = 0 := by
    intro m t f hm hf
    rw [Model.threadMemory_setThreadMemory]
    split
    · exact hf _ hm
    · exact hm
  have hpopped : ∀ t rest, ((s.popped t rest).threadMemory u).lastSfence = 0 :=
    fun t rest => hset s t _ (hs u) fun _ h => h
  cases h with
  | idle h => rw [h.memory]; exact hs u
  | yield h => rw [h.memory]; exact hs u
  | read action rf htid hpos hread =>
      rw [(buildReadFromSlots_observes hpos hcfg hread).memory]
      exact hs u
  | push a _ _ _ _ => exact hset s s.threadId _ (hs u) fun _ h => h
  | popStore t a rest _ _ =>
      exact hset ((s.popped t rest).evicted a) t _ (hpopped t rest) fun _ h => h
  | popClflush t a rest _ _ => exact hpopped t rest
  | popClflushopt t a rest _ _ => exact hset (s.popped t rest) t _ (hpopped t rest) fun _ h => h
  | popSfence t a rest _ _ => exact hpopped t rest
  | flush t a rest _ _ =>
      show ((s.unqueued t rest).threadMemory u).lastSfence = 0
      exact hset s t _ (hs u) fun _ h => h
  | note t a _ => exact hset s t _ (hs u) fun _ h => h
  | sfenceDone t a hseq => exact hset s t _ (hs u) fun _ _ => ModelAction.seqNum_eq_zero hseq
  | _ => exact hs u

/-- Only flushes and reads move `begin`. -/
theorem MemStep.getBegin (hcfg : cfg.memPoison = false) (h : MemStep cfg s e s') (p : ProcessId)
    (line : Nat) :
    (s'.objToCl p line).getBegin = (s.objToCl p line).getBegin ∨ e.Begins s s' p line := by
  have hflushed : ∀ (m : Model) (clock l : Nat), m.objToCl = s.objToCl →
      ((m.flushed clock l).objToCl p line).getBegin = (s.objToCl p line).getBegin ∨
        l = line ∧ ((m.flushed clock l).objToCl p line).getBegin = clock := by
    intro m clock l hm
    rw [m.flushed_objToCl, hm]
    split
    · next h => exact .inr ⟨h.1.symm, rfl⟩
    · exact .inl rfl
  cases h with
  | idle h => rw [h.memory]; exact .inl rfl
  | yield h => rw [h.memory]; exact .inl rfl
  | popClflush t a rest _ _ =>
      rcases hflushed (s.popped t rest).tick s.nextSequenceNum a.line rfl with heq | ⟨hline, heq⟩
      · exact .inl heq
      · exact .inr (.clflush t a hline heq)
  | flush t a rest _ _ =>
      rcases hflushed (s.unqueued t rest) a.earliestEffect a.line rfl with heq | ⟨hline, heq⟩
      · exact .inl heq
      · exact .inr (.clflushopt t a hline heq)
  | read action rf _ hpos hread =>
      rcases buildReadFromSlots_getBegin hpos hcfg hread p line with heq | ⟨a, ha, hraised⟩
      · exact .inl heq
      · exact .inr (.read action rf a ha hraised)
  | _ => exact .inl rfl

theorem MemStep.getBegin_le (hcfg : cfg.memPoison = false) (h : MemStep cfg s e s') (p : ProcessId)
    (line : Nat) : (s.objToCl p line).getBegin ≤ (s'.objToCl p line).getBegin := by
  have hflushed : ∀ (m : Model) (clock l : Nat), m.objToCl = s.objToCl →
      (s.objToCl p line).getBegin ≤ ((m.flushed clock l).objToCl p line).getBegin := by
    intro m clock l hm
    rw [m.flushed_objToCl, hm]
    split
    · next h => exact Nat.le_of_lt h.2.2
    · exact Nat.le_refl _
  cases h with
  | idle h => rw [h.memory]
  | yield h => rw [h.memory]
  | popClflush t a rest _ _ => exact hflushed (s.popped t rest).tick _ _ rfl
  | flush t a rest _ _ => exact hflushed (s.unqueued t rest) _ _ rfl
  | read action rf _ hpos hread => exact buildReadFromSlots_getBegin_le hpos hcfg hread p line
  | _ => exact Nat.le_refl _

/-- What is noted for a line is the clock of the eviction that is noted. -/
theorem MemStep.noted_le (hcfg : cfg.memPoison = false) (h : MemStep cfg s e s') (hs : s.Clocked)
    {u : ThreadId} {line clock : Nat} (hc : (s'.threadMemory u).clToLastWrClf line = some clock) :
    clock ≤ s'.ticks := by
  have hmono := h.ticks_le hcfg
  have hold : (s.threadMemory u).clToLastWrClf line = some clock → clock ≤ s'.ticks :=
    fun hc => Nat.le_trans (hs.noted u line clock hc) hmono
  have hupdate : ∀ {t : ThreadId} {l c : Nat}, c ≤ s.ticks →
      (if u = t then Function.update (s.threadMemory u).clToLastWrClf l (some c)
        else (s.threadMemory u).clToLastWrClf) line = some clock → clock ≤ s'.ticks := by
    intro t l c hle hc
    split at hc
    · by_cases hl : line = l
      · subst hl
        rw [Function.update_self] at hc
        cases hc
        exact Nat.le_trans hle hmono
      · rw [Function.update_of_ne hl] at hc
        exact hold hc
    · exact hold hc
  rw [h.clToLastWrClf hcfg] at hc
  cases h with
  | popStore t a rest _ _ => exact hupdate (modelclock_le _) hc
  | note t a hclock =>
      exact hupdate (Nat.le_trans (modelclock_le _) (Nat.le_of_succ_le (Nat.le_of_eq hclock))) hc
  | _ => exact hold hc

/-- An entry of a flush buffer was there before, or is a `CLFLUSHOPT` of its store buffer. -/
theorem MemStep.mem_flushBuffer (hcfg : cfg.memPoison = false) (h : MemStep cfg s e s')
    {u : ThreadId} {a : ModelAction} (ha : a ∈ (s'.threadMemory u).flushBuffer) :
    a ∈ (s.threadMemory u).flushBuffer ∨ ∃ b ∈ (s.threadMemory u).storeBuffer,
      e = .popClflushopt u b ∧ a = (s.threadMemory u).raiseEarliestEffect b := by
  rw [h.flushBuffer hcfg] at ha
  cases h with
  | popClflushopt t b rest hbuf _ =>
      rw [Effect.flushBuffer] at ha
      split at ha
      · next hu =>
          subst hu
          rcases List.mem_append.mp ha with ha | ha
          · exact .inl ha
          · refine .inr ⟨b, ?_, rfl, List.mem_singleton.mp ha⟩
            rw [hbuf]
            exact List.mem_cons_self
      · exact .inl ha
  | flush t b rest _ _ =>
      rw [Effect.flushBuffer] at ha
      split at ha
      · exact .inl (List.mem_of_mem_tail ha)
      · exact .inl ha
  | _ => exact .inl ha

theorem MemStep.clocked (hcfg : cfg.memPoison = false) (h : MemStep cfg s e s') (hs : s.Clocked) :
    s'.Clocked := by
  have hmono := h.ticks_le hcfg
  constructor
  case ticked => exact h.ticked hcfg hs.ticked
  case buffered =>
    intro t a ha
    rcases h.mem_storeBuffer hcfg ha with ha | ⟨rfl, _⟩
    · exact hs.buffered t a ha
    · cases h with
      | push _ _ _ _ heffect => exact heffect
  case queued =>
    intro t a ha
    rcases h.mem_flushBuffer hcfg ha with ha | ⟨b, hb, _, rfl⟩
    · exact Nat.le_trans (hs.queued t a ha) hmono
    · rw [ThreadMemory.earliestEffect_raiseEarliestEffect (hs.sfence t) (hs.buffered t b hb)]
      cases hclock : (s.threadMemory t).clToLastWrClf b.line with
      | none => exact Nat.zero_le _
      | some c => exact Nat.le_trans (hs.noted t _ c hclock) hmono
  case sfence => exact h.lastSfence hcfg hs.sfence
  case noted =>
    intro t line clock hclock
    exact h.noted_le hcfg hs hclock
  case begins =>
    intro p line
    rcases h.getBegin hcfg p line with heq | hbegins
    · rw [heq]
      exact Nat.le_trans (hs.begins p line) hmono
    · cases hbegins with
      | clflush t a _ hclock =>
          rw [hclock]
          exact Nat.le_trans (modelclock_le _) hmono
      | clflushopt t a _ hclock =>
          rw [hclock]
          cases h with
          | flush _ _ rest hbuf _ =>
              have hmem : a ∈ (s.threadMemory t).flushBuffer := by
                rw [hbuf]
                exact List.mem_cons_self
              exact hs.queued t a hmem
      | read action rf a ha hraised =>
          rw [hraised.clock]
          apply Nat.le_trans (modelclock_le _)
          rcases hs.ticked _ a ha with hzero | hlt
          · rw [hzero]
            exact Nat.zero_le _
          · exact Nat.le_trans (Nat.le_of_lt hlt) hmono

theorem Goes.clocked {P : Effect → Prop} (hcfg : cfg.memPoison = false)
    (h : Goes (MemStep cfg) P s s') (hs : s.Clocked) : s'.Clocked :=
  h.invariant (fun _ _ _ _ hs hstep => hstep.clocked hcfg hs) hs

theorem Model.clocked_init {n cxlMapping : Nat} {memory : Nat → Nat}
    {mutexType : MutexId → MutexType} : (Model.init n cxlMapping memory mutexType).Clocked where
  ticked _ _ ha := absurd ha List.not_mem_nil
  buffered _ _ ha := absurd ha List.not_mem_nil
  queued _ _ ha := absurd ha List.not_mem_nil
  sfence _ := rfl
  noted _ _ _ h := nomatch h
  begins _ _ := Nat.le_refl _

end

end Cxlmc
