import Cxlmc.Effect.Clocks

/-!
# What `evict_clflush` does

A flush moves the intervals of its line and then looks for one process to crash: it walks the stores of the
flushed word from the newest on, as long as the flush makes them persistent, up to the first one whose
process is live (`Model.flushVictim`). `evictClflush_eq` says so as an equation between decision trees.
-/

namespace Cxlmc

open Stateful

namespace Model

/-- `should_crash` comes to its decision point. -/
def AsksCrash (s : Model) : Prop :=
  s.backtrack s.processId = true ∧ s.crashes.size < maxCrashesPerExecution ∧
    s.crashes.size + 1 < s.processCount

instance (s : Model) : Decidable s.AsksCrash := inferInstanceAs (Decidable (_ ∧ _))

/-- Where the intervals of a line begin before a flush at this clock, at the earliest. -/
def firstBegin (s : Model) (line : Nat) : Nat :=
  (List.range s.processCount).foldl (fun least q => Nat.min least (s.objToCl q line).getBegin) s.nextSequenceNum

/-- From the newest store on, the writer of the first one whose process is live, unless a store that has
persisted comes before it. -/
def unpersistedWriter (s : Model) (least : Nat) : List ModelAction → Option ProcessId
  | [] => none
  | store :: older =>
      if store.seqNum ≤ least then none
      else if s.isLive (s.getProcessId store) then some (s.getProcessId store)
      else s.unpersistedWriter least older

/-- Whom a flush of `a` may crash. -/
def flushVictim (s : Model) (a : ModelAction) : Option ProcessId :=
  s.unpersistedWriter (s.firstBegin a.line) (s.objToWr a.word).reverse

end Model

/-- The crash at the end of a flush. -/
def crashVictim : Option ProcessId → M Unit
  | none => pure ()
  | some pid => insertCrash pid

section

variable {cfg : Config} {s s' : Model} {e : Effect} {P : Effect → Prop}

/-! ## The crash loop -/

theorem insertCrash_of_not_asks (h : ¬ s.AsksCrash) (pid : ProcessId) :
    insertCrash pid s = .done (.ok (), s) := by
  have hshould : shouldCrash s = .done (.ok false, s) := by
    show (if s.AsksCrash then _ else _ : M Bool) s = _
    rw [if_neg h]
    rfl
  show (shouldCrash s).bind _ = _
  rw [hshould]
  rfl

/-- The loop crashes the writer that the walk finds. -/
theorem flushCrashLoop_eq {least : Nat} {stores : List ModelAction} :
    flushCrashLoop least stores s =
      crashVictim (if s.AsksCrash then s.unpersistedWriter least stores else none) s := by
  by_cases hasks : s.AsksCrash
  swap
  · rw [if_neg hasks]
    -- the limit on crashes is reached, so that nothing is asked
    induction stores with
    | nil => rfl
    | cons store older ih =>
        show (if _ then pure () else _ : M Unit) s = _
        split
        · rfl
        · split
          · exact insertCrash_of_not_asks hasks _
          · exact ih
  · rw [if_pos hasks]
    obtain ⟨_, hmost, hmany⟩ := hasks
    induction stores with
    | nil => rfl
    | cons store older ih =>
        show (if store.seqNum ≤ least ∨ maxCrashesPerExecution ≤ s.crashes.size ∨
          s.processCount - 1 ≤ s.crashes.size then pure () else _ : M Unit) s = _
        rw [Model.unpersistedWriter]
        by_cases hmin : store.seqNum ≤ least
        · rw [if_pos (.inl hmin), if_pos hmin]
          rfl
        · rw [if_neg (by omega), if_neg hmin]
          -- the first store of a live process decides
          by_cases hlive : s.isLive (s.getProcessId store) = true
          · rw [if_pos hlive, if_pos hlive]
            rfl
          · rw [if_neg hlive, if_neg hlive]
            exact ih

theorem insertCrash_frame {pid : ProcessId} (h : (insertCrash pid).Ends s (.ok ()) s') :
    ∃ n cr, s' = { s with crashPoints := n, crashes := cr } := by
  obtain ⟨b, s₁, h₁, h₂⟩ := ends_bind_ok.mp h
  have hs₁ : ∃ n, s₁ = { s with crashPoints := n } := by
    rw [shouldCrash, ends_state_bind] at h₁
    split at h₁
    · rw [ends_update_bind, decisionPoint, ends_choose_bind] at h₁
      obtain ⟨c, _, hc⟩ := h₁
      exact ⟨_, (ends_pure.mp hc).2⟩
    · exact ⟨_, (ends_pure.mp h₁).2⟩
  obtain ⟨n, rfl⟩ := hs₁
  cases b with
  | false =>
      obtain ⟨_, rfl⟩ := ends_pure.mp h₂
      exact ⟨_, _, rfl⟩
  | true =>
      rw [if_pos rfl, ends_state_bind] at h₂
      split at h₂
      · rw [ends_update_bind, ends_update_bind] at h₂
        cases (ends_stop.mp h₂).1
      · obtain ⟨_, rfl⟩ := ends_update.mp h₂
        exact ⟨_, _, rfl⟩

/-- A crash loop that returns has at most crashed another process. -/
theorem flushCrashLoop_frame {min : Nat} {stores : List ModelAction}
    (h : (flushCrashLoop min stores).Ends s (.ok ()) s') :
    ∃ n cr, s' = { s with crashPoints := n, crashes := cr } := by
  induction stores with
  | nil =>
      obtain ⟨_, rfl⟩ := ends_pure.mp h
      exact ⟨_, _, rfl⟩
  | cons store older ih =>
      rw [flushCrashLoop, ends_state_bind] at h
      split at h
      · obtain ⟨_, rfl⟩ := ends_pure.mp h
        exact ⟨_, _, rfl⟩
      split at h
      · exact insertCrash_frame h
      · exact ih h

/-! ## The intervals -/

/-- `min` is the least of the clock and of the `begin`s that the loop comes to. -/
theorem flushIntervals_min {seqNum addr : Nat} {is : List ProcessId} (hnodup : is.Nodup) {min : Nat}
    (hmin : min ≤ seqNum) (cls : CacheLineStore) :
    (flushIntervals seqNum addr is (min, cls)).1 =
      is.foldl (fun least i => Nat.min least (cls i addr).getBegin) min := by
  induction is generalizing min cls with
  | nil => rfl
  | cons i is ih =>
      obtain ⟨hnot, hrest⟩ := List.nodup_cons.mp hnodup
      unfold flushIntervals
      dsimp only
      rw [List.foldl_cons]
      split
      · next hle =>
          have hleast : Nat.min min (cls i addr).getBegin = min := Nat.min_eq_left (Nat.le_trans hmin hle)
          rw [ih hrest hmin, hleast]
      · next hgt =>
          have hleast : (if (cls i addr).getBegin < min then (cls i addr).getBegin else min) =
              Nat.min min (cls i addr).getBegin := by
            show _ = min ⊓ (cls i addr).getBegin
            split <;> omega
          rw [hleast, ih hrest (Nat.le_trans (Nat.min_le_left _ _) hmin)]
          -- the interval of a later process has not moved
          apply List.foldl_ext
          intro least j hj
          have hne : j ≠ i := fun heq => hnot (heq ▸ hj)
          rw [CacheLineStore.setCacheline_apply, if_neg fun h => hne h.1]

/-! ## The flush -/

/-- `min` after the loop of a `CLFLUSH` over the processes. -/
theorem Model.flushIntervals_firstBegin (s : Model) (line : Nat) :
    (flushIntervals s.nextSequenceNum line (List.range s.processCount) (s.nextSequenceNum, s.objToCl)).1 =
      s.firstBegin line :=
  flushIntervals_min List.nodup_range (Nat.le_refl _) s.objToCl

/-- Up to the crash loop a `CLFLUSH` asks nothing. -/
theorem evictClflush_start {a : ModelAction} (htype : a.type = .cacheClflush) :
    evictClflush a s =
      (flushCrashLoop (s.firstBegin a.line) (s.objToWr a.word).reverse >>= fun _ =>
        (pure { a with tick := s.ticks } : M ModelAction))
        (s.tick.flushed s.nextSequenceNum a.line) := by
  have hcls := flushIntervals_flushed s s.nextSequenceNum a.line s.nextSequenceNum
  rw [evictClflush, require, if_pos (.inl htype), if_pos htype]
  show (do
    let s₁ ← state
    let mc := flushIntervals (if a.type = .cacheClflush then s.nextSequenceNum
      else a.earliestEffect) a.line (List.range s₁.processCount)
      (if a.type = .cacheClflush then s.nextSequenceNum else a.earliestEffect, s₁.objToCl)
    update fun s₁ => { s₁ with objToCl := mc.2 }
    flushCrashLoop mc.1 (s₁.getStorelist a.location).reverse
    return { a with tick := s.ticks } : M ModelAction) s.tick = _
  rw [if_pos htype]
  show (do
    update fun s₁ => { s₁ with
      objToCl := (flushIntervals s.nextSequenceNum a.line (List.range s.processCount)
        (s.nextSequenceNum, s.objToCl)).2 }
    flushCrashLoop (flushIntervals s.nextSequenceNum a.line (List.range s.processCount)
      (s.nextSequenceNum, s.objToCl)).1 (s.objToWr a.word).reverse
    return { a with tick := s.ticks } : M ModelAction) s.tick = _
  rw [hcls, s.flushIntervals_firstBegin]
  rfl

/-- The walk does not look at the clock or the intervals. -/
theorem Model.unpersistedWriter_flushed (s : Model) (clock line least : Nat) (stores : List ModelAction) :
    (s.tick.flushed clock line).unpersistedWriter least stores = s.unpersistedWriter least stores := by
  induction stores with
  | nil => rfl
  | cons store older ih =>
      rw [unpersistedWriter, unpersistedWriter, ih]
      rfl

/-- A `CLFLUSH` ticks, flushes its line and may crash its victim. -/
theorem evictClflush_eq {a : ModelAction} (htype : a.type = .cacheClflush) :
    evictClflush a s =
      (crashVictim (if s.AsksCrash then s.flushVictim a else none) >>= fun _ =>
        (pure { a with tick := s.ticks } : M ModelAction))
        (s.tick.flushed s.nextSequenceNum a.line) := by
  rw [evictClflush_start htype]
  show (flushCrashLoop _ _ _).bind _ = (crashVictim _ _).bind _
  rw [flushCrashLoop_eq, Model.unpersistedWriter_flushed]
  rfl

end

end Cxlmc
