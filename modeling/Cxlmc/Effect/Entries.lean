import Cxlmc.Effect.Frame

/-!
# The entries of buffers and store lists

Every entry of a store buffer is one of its thread and has no clock yet; every store of a list that is
not a recorded initial value has a clock in the past (`Model.Recorded`). Each effect keeps this.
-/

namespace Cxlmc

open Stateful

/-- The stores of a list, without the initial value that `ensureInitialValue` has put at its head. -/
def evictedStores : List ModelAction → List ModelAction
  | [] => []
  | a :: rest => if a.type = .atomicInit then rest else a :: rest

namespace Model

/-- The stores of a word that were evicted. -/
def storesOf (s : Model) (w : Nat) : List ModelAction := evictedStores (s.objToWr w)

structure Recorded (s : Model) : Prop where
  active : s.activeThread < s.threadCount
  buffered : ∀ t, ∀ a ∈ (s.threadMemory t).storeBuffer,
    a.tid = t ∧ t < s.threadCount ∧ a.tick = 0
  listed : ∀ w, ∀ a ∈ s.objToWr w, a.tid < s.threadCount ∧ a.word = w
  clock : ∀ w, ∀ a ∈ s.storesOf w, a.tick < s.ticks

theorem Recorded.unclocked {s : Model} (hr : s.Recorded) (t : ThreadId) : s.Unclocked t :=
  fun a ha => (hr.buffered t a ha).2.2

theorem recorded_init {n cxlMapping : Nat} {memory : Nat → Nat} {mutexType : MutexId → MutexType}
    (hn : 1 ≤ n) : (Model.init n cxlMapping memory mutexType).Recorded := by
  refine ⟨hn, ?_, ?_, ?_⟩
  · intro t a ha
    cases ha
  · intro w a ha
    cases ha
  · intro w a ha
    cases ha

end Model

theorem mem_of_mem_evictedStores {l : List ModelAction} {a : ModelAction}
    (h : a ∈ evictedStores l) : a ∈ l := by
  cases l with
  | nil => exact h
  | cons b rest =>
      rw [evictedStores] at h
      split at h
      · exact List.mem_cons_of_mem b h
      · exact h

theorem mem_evictedStores_concat {l : List ModelAction} {a b : ModelAction}
    (h : a ∈ evictedStores (l ++ [b])) : a ∈ evictedStores l ∨ a = b := by
  cases l with
  | nil =>
      rw [List.nil_append, evictedStores] at h
      split at h
      · cases h
      · exact .inr (List.mem_singleton.mp h)
  | cons c rest =>
      rw [List.cons_append, evictedStores] at h
      rw [evictedStores]
      split
      · next hc =>
          rw [if_pos hc] at h
          rcases List.mem_append.mp h with h | h
          · exact .inl h
          · exact .inr (List.mem_singleton.mp h)
      · next hc =>
          rw [if_neg hc, ← List.cons_append] at h
          rcases List.mem_append.mp h with h | h
          · exact .inl h
          · exact .inr (List.mem_singleton.mp h)

/-- Where a list is not empty, what is evicted to it is one of its stores. -/
theorem mem_evictedStores_of_concat {l : List ModelAction} {a b : ModelAction}
    (h : a ∈ evictedStores l) : a ∈ evictedStores (l ++ [b]) := by
  cases l with
  | nil => cases h
  | cons c rest =>
      rw [List.cons_append, evictedStores]
      rw [evictedStores] at h
      split
      · next hc =>
          rw [if_pos hc] at h
          exact List.mem_append_left _ h
      · next hc =>
          rw [if_neg hc] at h
          rw [← List.cons_append]
          exact List.mem_append_left _ h

section

variable {cfg : Config} {s s' : Model} {e : Effect} {P : Effect → Prop}

theorem MemStep.threadCount (hcfg : cfg.memPoison = false) (h : MemStep cfg s e s') :
    s.threadCount ≤ s'.threadCount ∧
      (s.activeThread < s.threadCount → s'.activeThread < s'.threadCount) ∧
      ∀ t, t < s.threadCount → (s'.threads t).processId = (s.threads t).processId := by
  by_cases he : e = .yield
  · subst he
    cases h with
    | yield h => exact ⟨h.threadCount, h.activeThread, h.processId⟩
  · have hstays := h.stays hcfg he
    refine ⟨hstays.threadCount, ?_, hstays.processId⟩
    intro hlt
    rw [hstays.activeThread]
    exact Nat.lt_of_lt_of_le hlt hstays.threadCount

theorem MemStep.processCount (hcfg : cfg.memPoison = false) (h : MemStep cfg s e s') :
    s'.processCount = s.processCount := by
  by_cases he : e = .yield
  · subst he
    cases h with
    | yield h => exact h.processCount
  · exact (h.stays hcfg he).processCount

/-- A store of a list was there before, or it was evicted just now. -/
theorem MemStep.mem_storesOf (hcfg : cfg.memPoison = false) (h : MemStep cfg s e s') {w : Nat}
    {a : ModelAction} (ha : a ∈ s'.storesOf w) :
    a ∈ s.storesOf w ∨ ∃ t b rest, e = .popStore t b ∧
      (s.threadMemory t).storeBuffer = b :: rest ∧ w = b.word ∧
      a = { b with tick := s.ticks } := by
  rw [Model.storesOf] at ha
  cases h.list hcfg w with
  | kept heq =>
      rw [heq] at ha
      exact .inl ha
  | evicted t b rest he hbuf _ hword heq =>
      rw [heq] at ha
      rcases mem_evictedStores_concat ha with ha | ha
      · exact .inl ha
      · exact .inr ⟨t, b, rest, he, hbuf, hword, ha⟩
  | initial _ _ _ heq =>
      rw [heq] at ha
      cases ha

theorem MemStep.mem_objToWr (hcfg : cfg.memPoison = false) (h : MemStep cfg s e s') {w : Nat}
    {a : ModelAction} (ha : a ∈ s'.objToWr w) :
    a ∈ s.objToWr w ∨ a.tid = s.threadId ∧ a.word = w ∨
      ∃ t b, b ∈ (s.threadMemory t).storeBuffer ∧ w = b.word ∧
        a = { b with tick := s.ticks } := by
  cases h.list hcfg w with
  | kept heq => exact .inl (heq ▸ ha)
  | evicted t b rest _ hbuf _ hword heq =>
      rw [heq] at ha
      rcases List.mem_append.mp ha with ha | ha
      · exact .inl ha
      · refine .inr (.inr ⟨t, b, ?_, hword, List.mem_singleton.mp ha⟩)
        rw [hbuf]
        exact List.mem_cons_self
  | initial _ haligned _ heq =>
      rw [heq] at ha
      rw [List.mem_singleton.mp ha]
      exact .inr (.inl ⟨rfl, haligned⟩)

theorem MemStep.mem_storeBuffer (hcfg : cfg.memPoison = false) (h : MemStep cfg s e s')
    {t : ThreadId} {a : ModelAction} (ha : a ∈ (s'.threadMemory t).storeBuffer) :
    a ∈ (s.threadMemory t).storeBuffer ∨ e = .push a ∧ t = s.threadId := by
  rw [h.storeBuffer hcfg] at ha
  have htail : ∀ {u}, a ∈ (if t = u then (s.threadMemory t).storeBuffer.tail
      else (s.threadMemory t).storeBuffer) → a ∈ (s.threadMemory t).storeBuffer := by
    intro u h
    split at h
    · exact List.mem_of_mem_tail h
    · exact h
  cases h with
  | push b _ _ _ _ =>
      rw [Effect.storeBuffer] at ha
      split at ha
      · next ht =>
          rcases List.mem_append.mp ha with ha | ha
          · exact .inl ha
          · rw [List.mem_singleton.mp ha]
            exact .inr ⟨rfl, ht⟩
      · exact .inl ha
  | popStore u b rest hbuf hw => exact .inl (htail ha)
  | popClflush u b rest hbuf htype => exact .inl (htail ha)
  | popClflushopt u b rest hbuf htype => exact .inl (htail ha)
  | popSfence u b rest hbuf htype => exact .inl (htail ha)
  | _ => exact .inl ha

/-- No effect puts a clocked entry into a store buffer. -/
theorem MemStep.unclocked (hcfg : cfg.memPoison = false) (h : MemStep cfg s e s')
    (hseq : ∀ t, s.Unclocked t) (t : ThreadId) : s'.Unclocked t := by
  intro a ha
  rcases h.mem_storeBuffer hcfg ha with ha | ⟨rfl, rfl⟩
  · exact hseq t a ha
  · cases h with
    | push _ _ hfresh _ _ => exact hfresh

theorem Goes.unclocked (hcfg : cfg.memPoison = false) (h : Goes (MemStep cfg) P s s')
    (hseq : ∀ t, s.Unclocked t) : ∀ t, s'.Unclocked t :=
  h.invariant (I := fun a => ∀ t, a.Unclocked t) (fun _ _ _ _ ha hstep => hstep.unclocked hcfg ha) hseq

/-- Every effect keeps the entries as they should be. -/
theorem MemStep.recorded (hcfg : cfg.memPoison = false) (h : MemStep cfg s e s')
    (hr : s.Recorded) : s'.Recorded := by
  obtain ⟨hcount, hactive, _⟩ := h.threadCount hcfg
  refine ⟨hactive hr.active, ?_, ?_, ?_⟩
  · intro t a ha
    rcases h.mem_storeBuffer hcfg ha with ha | ⟨rfl, rfl⟩
    · obtain ⟨htid, hlt, hseq⟩ := hr.buffered t a ha
      exact ⟨htid, Nat.lt_of_lt_of_le hlt hcount, hseq⟩
    · cases h with
      | push _ htid hseq _ _ => exact ⟨htid, Nat.lt_of_lt_of_le hr.active hcount, hseq⟩
  · intro w a ha
    rcases h.mem_objToWr hcfg ha with ha | ⟨htid, hword⟩ | ⟨t, b, hb, rfl, rfl⟩
    · obtain ⟨hlt, hword⟩ := hr.listed w a ha
      exact ⟨Nat.lt_of_lt_of_le hlt hcount, hword⟩
    · rw [htid]
      exact ⟨Nat.lt_of_lt_of_le hr.active hcount, hword⟩
    · obtain ⟨htid, hlt, _⟩ := hr.buffered t b hb
      refine ⟨?_, rfl⟩
      show b.tid < s'.threadCount
      rw [htid]
      exact Nat.lt_of_lt_of_le hlt hcount
  · intro w a ha
    rw [h.ticks hcfg]
    rcases h.mem_storesOf hcfg ha with ha | ⟨t, b, rest, rfl, _, _, rfl⟩
    · have hlt := hr.clock w a ha
      cases e <;> first | exact hlt | exact Nat.lt_succ_of_lt hlt
    · exact Nat.lt_succ_self _

theorem Goes.recorded (hcfg : cfg.memPoison = false) (h : Goes (MemStep cfg) P s s')
    (hr : s.Recorded) : s'.Recorded :=
  h.invariant (fun _ _ _ _ hr hstep => hstep.recorded hcfg hr) hr

end

end Cxlmc
