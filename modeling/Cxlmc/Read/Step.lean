import Cxlmc.Overlap.Spec
import Cxlmc.Model.ReadFrom

/-!
# One store of a read

What one round of the loop of `build_read_from` can do, said once: `Running` for a store whose
process is running and stays so, `Persist` for a store of a crashed process, and `Visit` for the
whole round, in which the writer may crash between the two. `ends_readLoop_cons` is the inversion
lemma that every property of reads is proved from.
-/

namespace Cxlmc

open Stateful Fill

namespace Model

/-- `++crash_points`. -/
def countCrashPoint (s : Model) : Model := { s with crashPoints := s.crashPoints + 1 }

def raiseBegin (s : Model) (pid : ProcessId) (line seqNum : Nat) : Model :=
  s.setCacheline pid line ((s.objToCl pid line).setBegin seqNum)

def lowerEnd (s : Model) (pid : ProcessId) (line seqNum : Nat) : Model :=
  s.setCacheline pid line ((s.objToCl pid line).setEnd seqNum)

/-- `crashes.emplace(pid, next_sequence_num)`. -/
def crash (s : Model) (pid : ProcessId) : Model :=
  { s with crashes := s.crashes.emplace pid s.nextSequenceNum }

/-- The condition under which a read may crash the writer of a store. -/
def MayCrash (s : Model) (store : ModelAction) (line : Nat) : Prop :=
  s.backtrack s.processId ∧ s.crashes.size < maxCrashesPerExecution ∧
    s.crashes.size + 1 < s.processCount ∧ ¬ s.isCompleted (s.getProcessId store) ∧
    store.seqNum > (s.objToCl (s.getProcessId store) line).getBegin

/-- The state after the crash of the writer was considered and declined. -/
def declineCrash (s : Model) (store : ModelAction) (line : Nat) : Model :=
  if store.seqNum > (s.objToCl (s.getProcessId store) line).getBegin then
    s.raiseBegin (s.getProcessId store) line store.seqNum
  else s

end Model

namespace Cacheline

/-- A store with this clock may have persisted, or not. -/
def MayPersist (cl : Cacheline) (seqNum : Nat) : Prop :=
  cl.getBegin < seqNum ∧ (cl.getEnd = 0 ∨ seqNum < cl.getEnd)

end Cacheline

/-! ## The steps -/

section

variable (cfg : Config) (read : ModelAction) (rpid : ProcessId) (store : ModelAction)
  (older : List ModelAction)

/-- A store of a running process that does not crash. -/
inductive Running (s : Model) (rf : Slots) : Model → Slots → Prop where
  | shadowed (h : fill (wants read) store rf = rf) : Running s rf s rf
  | own (h : fill (wants read) store rf ≠ rf)
      (hown : store.type = .atomicInit ∨ s.getProcessId store = rpid) :
      Running s rf s (fill (wants read) store rf)
  | declined (h : fill (wants read) store rf ≠ rf) (hinit : store.type ≠ .atomicInit)
      (hpid : s.getProcessId store ≠ rpid) (hmay : s.MayCrash store read.line) :
      Running s rf (s.countCrashPoint.declineCrash store read.line) (fill (wants read) store rf)
  | notOffered (h : fill (wants read) store rf ≠ rf) (hinit : store.type ≠ .atomicInit)
      (hpid : s.getProcessId store ≠ rpid) (hmay : ¬ s.MayCrash store read.line) :
      Running s rf (s.declineCrash store read.line) (fill (wants read) store rf)

/-- The crash of the writer of a store. -/
structure Crashes.Injected (s : Model) (rf : Slots) (s₁ : Model) : Prop where
  changes : fill (wants read) store rf ≠ rf
  notInit : store.type ≠ .atomicInit
  other : s.getProcessId store ≠ rpid
  may : s.MayCrash store read.line
  state : s₁ = s.countCrashPoint.crash (s.getProcessId store)

/-- `EQUIV_STORE_SKIP`: a store that may have persisted is passed over for an equivalent older one. -/
def Skips (s : Model) : Prop :=
  (s.objToCl (s.getProcessId store) read.line).MayPersist store.seqNum ∧
    cfg.equivStoreSkip = true ∧ older.head?.any store.equivalent = true

/-- A store of a crashed process. -/
inductive Persist (s : Model) (rf : Slots) : Model → Slots → Prop where
  | persisted (h : store.seqNum ≤ (s.objToCl (s.getProcessId store) read.line).getBegin) :
      Persist s rf s (fill (wants read) store rf)
  | lostBefore (hlt : (s.objToCl (s.getProcessId store) read.line).getBegin < store.seqNum)
      (h : ¬ (s.objToCl (s.getProcessId store) read.line).MayPersist store.seqNum) :
      Persist s rf s rf
  | skipped (h : Skips cfg read store older s) : Persist s rf s rf
  | shadowed (h : (s.objToCl (s.getProcessId store) read.line).MayPersist store.seqNum)
      (hskip : ¬ Skips cfg read store older s) (hf : fill (wants read) store rf = rf) :
      Persist s rf s rf
  | kept (h : (s.objToCl (s.getProcessId store) read.line).MayPersist store.seqNum)
      (hskip : ¬ Skips cfg read store older s) (hf : fill (wants read) store rf ≠ rf) :
      Persist s rf (s.raiseBegin (s.getProcessId store) read.line store.seqNum)
        (fill (wants read) store rf)
  | lost (h : (s.objToCl (s.getProcessId store) read.line).MayPersist store.seqNum)
      (hskip : ¬ Skips cfg read store older s) (hf : fill (wants read) store rf ≠ rf)
      (hinit : store.type ≠ .atomicInit) (hback : s.backtrack s.processId = true) :
      Persist s rf (s.lowerEnd (s.getProcessId store) read.line store.seqNum) rf

/-- One round of the loop. -/
inductive Visit (s : Model) (rf : Slots) : Model → Slots → Prop where
  | running {s₁ : Model} {rf₁ : Slots} (hlive : s.isCrashed (s.getProcessId store) = false)
      (h : Running read rpid store s rf s₁ rf₁) : Visit s rf s₁ rf₁
  | crash {s₁ s₂ : Model} {rf₂ : Slots} (hlive : s.isCrashed (s.getProcessId store) = false)
      (h : Crashes.Injected read rpid store s rf s₁) (h' : Persist cfg read store older s₁ rf s₂ rf₂) :
      Visit s rf s₂ rf₂
  | crashed {s₁ : Model} {rf₁ : Slots} (hcrashed : s.isCrashed (s.getProcessId store) = true)
      (h : Persist cfg read store older s rf s₁ rf₁) : Visit s rf s₁ rf₁

end

/-! ## The code does these steps -/

section

variable {cfg : Config} {read : ModelAction} {rpid : ProcessId} {store : ModelAction}
  {older : List ModelAction} {s s' : Model} {rf : Slots}

/-- The end of the round for a writer that was not crashed. -/
theorem ends_declineCrash {x : Slots × Nat} {r : Except Stop (Slots × Nat)} :
    (if store.seqNum > (s.objToCl (s.getProcessId store) read.line).getBegin then do
        update fun s₁ => s₁.setCacheline (s.getProcessId store) read.line
          ((s.objToCl (s.getProcessId store) read.line).setBegin store.seqNum)
        return x
      else (return x : M (Slots × Nat))).Ends s r s' ↔
      r = .ok x ∧ s' = s.declineCrash store read.line := by
  unfold Model.declineCrash
  split
  · rw [ends_update_bind, ends_pure]
    rfl
  · rw [ends_pure]

theorem ends_readRunning (hlen : rf.length = read.size) {r : Except Stop (Slots × Nat)} :
    (readRunning read rpid store rf (countFree rf)).Ends s r s' ↔
      ∃ rf₁, r = .ok (rf₁, countFree rf₁) ∧
        (Running read rpid store s rf s' rf₁ ∨
          Crashes.Injected read rpid store s rf s' ∧ rf₁ = rf) := by
  unfold readRunning
  rw [getOverlapsSaveOld_eq hlen]
  -- the branches of the code: the store fills nothing, it is the reader's own, or its writer may crash
  by_cases hf : fill (wants read) store rf = rf
  · simp only [hf, if_true, ends_pure]
    constructor
    · rintro ⟨rfl, rfl⟩
      exact ⟨rf, rfl, .inl (.shadowed hf)⟩
    · rintro ⟨rf₁, rfl, h | h⟩
      · cases h <;> simp_all
      · exact absurd hf h.1.changes
  · simp only [hf, if_false, ends_state_bind]
    by_cases hown : store.type ≠ .atomicInit ∧ s.getProcessId store ≠ rpid
    · rw [if_pos hown]
      by_cases hmay : s.MayCrash store read.line
      · have hcond := hmay
        unfold Model.MayCrash at hcond
        rw [if_pos hcond, ends_update_bind, decisionPoint, ends_choose_two]
        simp only [if_true, Bool.false_eq_true, if_false]
        rw [ends_update_bind, ends_pure]
        have hdecline := @ends_declineCrash read store s.countCrashPoint s'
          (fill (wants read) store rf, countFree (fill (wants read) store rf)) r
        constructor
        · rintro (⟨rfl, rfl⟩ | h)
          · exact ⟨rf, rfl, .inr ⟨⟨hf, hown.1, hown.2, hmay, rfl⟩, rfl⟩⟩
          · obtain ⟨rfl, rfl⟩ := hdecline.mp h
            exact ⟨_, rfl, .inl (.declined hf hown.1 hown.2 hmay)⟩
        · rintro ⟨rf₁, rfl, h | ⟨h, rfl⟩⟩
          · cases h with
            | shadowed h => exact absurd h hf
            | own _ h => exact absurd hown (by tauto)
            | declined _ _ _ _ => exact .inr (hdecline.mpr ⟨rfl, rfl⟩)
            | notOffered _ _ _ h => exact absurd hmay h
          · exact .inl ⟨rfl, h.state⟩
      · have hcond := hmay
        unfold Model.MayCrash at hcond
        rw [if_neg hcond, ends_pure_bind]
        simp only [Bool.false_eq_true, if_false]
        rw [ends_declineCrash]
        constructor
        · rintro ⟨rfl, rfl⟩
          exact ⟨_, rfl, .inl (.notOffered hf hown.1 hown.2 hmay)⟩
        · rintro ⟨rf₁, rfl, h | ⟨h, rfl⟩⟩
          · cases h with
            | shadowed h => exact absurd h hf
            | own _ h => exact absurd hown (by tauto)
            | declined _ _ _ h => exact absurd h hmay
            | notOffered _ _ _ _ => exact ⟨rfl, rfl⟩
          · exact absurd h.may hmay
    · rw [if_neg hown, ends_pure]
      constructor
      · rintro ⟨rfl, rfl⟩
        exact ⟨_, rfl, .inl (.own hf (by tauto))⟩
      · rintro ⟨rf₁, rfl, h | h⟩
        · cases h with
          | shadowed h => exact absurd h hf
          | own h _ => exact ⟨rfl, rfl⟩
          | declined h hinit hpid _ => exact absurd ⟨hinit, hpid⟩ hown
          | notOffered h hinit hpid _ => exact absurd ⟨hinit, hpid⟩ hown
        · exact absurd ⟨h.1.notInit, h.1.other⟩ hown

theorem Persist.eq_of_skips {s₁ : Model} {rf₁ : Slots} (h : Persist cfg read store older s rf s₁ rf₁)
    (hskip : Skips cfg read store older s) : s₁ = s ∧ rf₁ = rf := by
  cases h with
  | persisted h => exact absurd h (Nat.not_le_of_lt hskip.1.1)
  | lostBefore _ h => exact absurd hskip.1 h
  | skipped _ => exact ⟨rfl, rfl⟩
  | shadowed _ h _ => exact absurd hskip h
  | kept _ h _ => exact absurd hskip h
  | lost _ h _ _ _ => exact absurd hskip h

/-- A store that must have persisted. -/
theorem persist_persisted {s₁ : Model} {rf₁ : Slots}
    (hpers : store.seqNum ≤ (s.objToCl (s.getProcessId store) read.line).getBegin) :
    Persist cfg read store older s rf s₁ rf₁ ↔ s₁ = s ∧ rf₁ = fill (wants read) store rf := by
  constructor
  · intro h
    cases h with
    | persisted _ => exact ⟨rfl, rfl⟩
    | lostBefore hlt _ => exact absurd hpers (Nat.not_le_of_lt hlt)
    | skipped h => exact absurd hpers (Nat.not_le_of_lt h.1.1)
    | shadowed h _ _ => exact absurd hpers (Nat.not_le_of_lt h.1)
    | kept h _ _ => exact absurd hpers (Nat.not_le_of_lt h.1)
    | lost h _ _ _ _ => exact absurd hpers (Nat.not_le_of_lt h.1)
  · rintro ⟨rfl, rfl⟩
    exact .persisted hpers

/-- A store that has not persisted. -/
theorem persist_lostBefore {s₁ : Model} {rf₁ : Slots}
    (hlt : (s.objToCl (s.getProcessId store) read.line).getBegin < store.seqNum)
    (hmay : ¬ (s.objToCl (s.getProcessId store) read.line).MayPersist store.seqNum) :
    Persist cfg read store older s rf s₁ rf₁ ↔ s₁ = s ∧ rf₁ = rf := by
  constructor
  · intro h
    cases h with
    | persisted h => exact absurd hlt (Nat.not_lt_of_le h)
    | lostBefore _ _ => exact ⟨rfl, rfl⟩
    | skipped h => exact absurd h.1 hmay
    | shadowed h _ _ => exact absurd h hmay
    | kept h _ _ => exact absurd h hmay
    | lost h _ _ _ _ => exact absurd h hmay
  · rintro ⟨rfl, rfl⟩
    exact .lostBefore hlt hmay

/-- A store that may have persisted and is not skipped. -/
theorem persist_undecided {s₁ : Model} {rf₁ : Slots}
    (hmay : (s.objToCl (s.getProcessId store) read.line).MayPersist store.seqNum)
    (hskip : ¬ Skips cfg read store older s) :
    Persist cfg read store older s rf s₁ rf₁ ↔
      if fill (wants read) store rf = rf then s₁ = s ∧ rf₁ = rf
      else s₁ = s.raiseBegin (s.getProcessId store) read.line store.seqNum ∧ rf₁ = fill (wants read) store rf ∨
        (store.type ≠ .atomicInit ∧ s.backtrack s.processId = true) ∧
          s₁ = s.lowerEnd (s.getProcessId store) read.line store.seqNum ∧ rf₁ = rf := by
  constructor
  · intro h
    cases h with
    | persisted h => exact absurd hmay.1 (Nat.not_lt_of_le h)
    | lostBefore _ h => exact absurd hmay h
    | skipped h => exact absurd h hskip
    | shadowed _ _ hf => exact (if_pos hf).mpr ⟨rfl, rfl⟩
    | kept _ _ hf => exact (if_neg hf).mpr (.inl ⟨rfl, rfl⟩)
    | lost _ _ hf hinit hback => exact (if_neg hf).mpr (.inr ⟨⟨hinit, hback⟩, rfl, rfl⟩)
  · intro h
    split at h
    · next hf =>
        obtain ⟨rfl, rfl⟩ := h
        exact .shadowed hmay hskip hf
    · next hf =>
        rcases h with ⟨rfl, rfl⟩ | ⟨⟨hinit, hback⟩, rfl, rfl⟩
        · exact .kept hmay hskip hf
        · exact .lost hmay hskip hf hinit hback

/-- The slots of a store that is not skipped are handed on. -/
theorem persist_handsOn {r : Except Stop (Option (Slots × Nat))} (hskip : ¬ Skips cfg read store older s) :
    (∃ rf₁, Persist cfg read store older s rf s' rf₁ ∧
      (¬ Skips cfg read store older s ∧ r = .ok (some (rf₁, countFree rf₁)) ∨
        Skips cfg read store older s ∧ r = .ok none)) ↔
      ∃ rf₁, Persist cfg read store older s rf s' rf₁ ∧ r = .ok (some (rf₁, countFree rf₁)) := by
  simp only [hskip, not_false_eq_true, true_and, false_and, or_false]

theorem ends_readCrashed (hlen : rf.length = read.size) {r : Except Stop (Option (Slots × Nat))} :
    (readCrashed cfg read store older rf (countFree rf)).Ends s r s' ↔
      ∃ rf₁, Persist cfg read store older s rf s' rf₁ ∧
        (¬ Skips cfg read store older s ∧ r = .ok (some (rf₁, countFree rf₁)) ∨
          Skips cfg read store older s ∧ r = .ok none) := by
  unfold readCrashed
  rw [ends_state_bind]
  simp only []
  by_cases hpers : store.seqNum ≤ (s.objToCl (s.getProcessId store) read.line).getBegin
  · have hskip : ¬ Skips cfg read store older s := by
      intro h
      exact absurd hpers (Nat.not_le_of_lt h.1.1)
    rw [if_pos hpers, getOverlaps_eq hlen, ends_pure, persist_handsOn hskip]
    simp only [persist_persisted hpers]
    constructor
    · rintro ⟨rfl, rfl⟩
      exact ⟨_, ⟨rfl, rfl⟩, rfl⟩
    · rintro ⟨rf₁, ⟨rfl, rfl⟩, rfl⟩
      exact ⟨rfl, rfl⟩
  have hlt := Nat.lt_of_not_le hpers
  rw [if_neg hpers]
  by_cases hmay : (s.objToCl (s.getProcessId store) read.line).MayPersist store.seqNum
  swap
  · have hskip : ¬ Skips cfg read store older s := fun h => hmay h.1
    have hcond : ¬ ((s.objToCl (s.getProcessId store) read.line).getEnd = 0 ∨
        store.seqNum < (s.objToCl (s.getProcessId store) read.line).getEnd) := fun h => hmay ⟨hlt, h⟩
    rw [if_neg hcond, ends_pure, persist_handsOn hskip]
    simp only [persist_lostBefore hlt hmay]
    constructor
    · rintro ⟨rfl, rfl⟩
      exact ⟨_, ⟨rfl, rfl⟩, rfl⟩
    · rintro ⟨rf₁, ⟨rfl, rfl⟩, rfl⟩
      exact ⟨rfl, rfl⟩
  rw [if_pos hmay.2]
  by_cases hequiv : cfg.equivStoreSkip = true ∧ older.head?.any store.equivalent = true
  · have hskip : Skips cfg read store older s := ⟨hmay, hequiv⟩
    rw [if_pos hequiv, ends_pure]
    constructor
    · rintro ⟨rfl, rfl⟩
      exact ⟨rf, .skipped hskip, .inr ⟨hskip, rfl⟩⟩
    · rintro ⟨rf₁, h, ⟨h', _⟩ | ⟨_, rfl⟩⟩
      · exact absurd hskip h'
      · exact ⟨rfl, (h.eq_of_skips hskip).1⟩
  have hskip : ¬ Skips cfg read store older s := fun h => hequiv h.2
  rw [if_neg hequiv, getOverlapsSaveOld_eq hlen, persist_handsOn hskip]
  simp only [persist_undecided hmay hskip]
  by_cases hf : fill (wants read) store rf = rf
  · simp only [hf, if_true, ends_pure]
    constructor
    · rintro ⟨rfl, rfl⟩
      exact ⟨_, ⟨rfl, rfl⟩, rfl⟩
    · rintro ⟨rf₁, ⟨rfl, rfl⟩, rfl⟩
      exact ⟨rfl, rfl⟩
  simp only [hf, if_false]
  -- the store is lost only where there is something to decide
  by_cases hlose : store.type ≠ .atomicInit ∧ s.backtrack s.processId = true
  · rw [if_pos hlose, decisionPoint, ends_choose_two]
    simp only [if_true, Bool.false_eq_true, if_false, ends_update_bind, ends_pure]
    constructor
    · rintro (⟨rfl, rfl⟩ | ⟨rfl, rfl⟩)
      · exact ⟨rf, .inr ⟨hlose, rfl, rfl⟩, rfl⟩
      · exact ⟨_, .inl ⟨rfl, rfl⟩, rfl⟩
    · rintro ⟨rf₁, ⟨rfl, rfl⟩ | ⟨_, rfl, rfl⟩, rfl⟩
      · exact .inr ⟨rfl, rfl⟩
      · exact .inl ⟨rfl, rfl⟩
  · rw [if_neg hlose, ends_pure_bind]
    simp only [Bool.false_eq_true, if_false, ends_update_bind, ends_pure]
    constructor
    · rintro ⟨rfl, rfl⟩
      exact ⟨_, .inl ⟨rfl, rfl⟩, rfl⟩
    · rintro ⟨rf₁, ⟨rfl, rfl⟩ | ⟨h, _⟩, rfl⟩
      · exact ⟨rfl, rfl⟩
      · exact absurd h hlose

end

/-! ## The loop -/

section

variable {cfg : Config} {read : ModelAction} {rpid : ProcessId} {store : ModelAction}
  {older : List ModelAction} {s s' s₁ : Model} {rf rf₁ : Slots}

theorem Running.crashes_eq (h : Running read rpid store s rf s₁ rf₁) : s₁.crashes = s.crashes := by
  cases h with
  | shadowed _ => rfl
  | own _ _ => rfl
  | declined _ _ _ _ => unfold Model.declineCrash; split <;> rfl
  | notOffered _ _ _ _ => unfold Model.declineCrash; split <;> rfl

theorem Running.getProcessId_eq (h : Running read rpid store s rf s₁ rf₁) (a : ModelAction) :
    s₁.getProcessId a = s.getProcessId a := by
  cases h with
  | shadowed _ => rfl
  | own _ _ => rfl
  | declined _ _ _ _ => unfold Model.declineCrash; split <;> rfl
  | notOffered _ _ _ _ => unfold Model.declineCrash; split <;> rfl

theorem Running.slots_eq (h : Running read rpid store s rf s₁ rf₁) :
    rf₁ = fill (wants read) store rf := by
  cases h with
  | shadowed h => exact h.symm
  | own _ _ => rfl
  | declined _ _ _ _ => rfl
  | notOffered _ _ _ _ => rfl

theorem Persist.slots (h : Persist cfg read store older s rf s₁ rf₁) :
    rf₁ = fill (wants read) store rf ∨ rf₁ = rf := by
  cases h with
  | persisted _ => exact .inl rfl
  | lostBefore _ _ => exact .inr rfl
  | skipped _ => exact .inr rfl
  | shadowed _ _ _ => exact .inr rfl
  | kept _ _ _ => exact .inl rfl
  | lost _ _ _ _ _ => exact .inr rfl

theorem Visit.slots (h : Visit cfg read rpid store older s rf s₁ rf₁) :
    rf₁ = fill (wants read) store rf ∨ rf₁ = rf := by
  cases h with
  | running _ h => exact .inl h.slots_eq
  | crash _ _ h => exact h.slots
  | crashed _ h => exact h.slots

theorem Visit.length_eq (h : Visit cfg read rpid store older s rf s₁ rf₁) :
    rf₁.length = rf.length := by
  rcases h.slots with rfl | rfl
  · exact length_fill _ _ _
  · rfl

theorem Crashes.mem_emplace {c : Crashes} {pid q : ProcessId} {clock : Nat} :
    q ∈ c.emplace pid clock ↔ q = pid ∨ q ∈ c := by
  unfold Crashes.emplace
  split
  · next h =>
      constructor
      · exact .inr
      · rintro (rfl | h')
        · exact h
        · exact h'
  · exact AList.mem_insert c

theorem Crashes.Injected.isCrashed (h : Crashes.Injected read rpid store s rf s₁) :
    s₁.isCrashed (s₁.getProcessId store) = true := by
  rw [h.state]
  simp only [Model.isCrashed, decide_eq_true_iff]
  exact Crashes.mem_emplace.mpr (.inl rfl)

/-- What is left of the loop after a round. -/
def LoopRest (cfg : Config) (read : ModelAction) (rpid : ProcessId) (older : List ModelAction)
    (s : Model) (rf : Slots) (r : Except Stop Slots) (s' : Model) : Prop :=
  if countFree rf = 0 then r = .ok rf ∧ s' = s
  else (readLoop cfg read rpid older rf (countFree rf)).Ends s r s'

theorem ends_loopRest {r : Except Stop Slots} :
    (if countFree rf = 0 then (return rf : M Slots)
      else readLoop cfg read rpid older rf (countFree rf)).Ends s r s' ↔
      LoopRest cfg read rpid older s rf r s' := by
  unfold LoopRest
  split
  · rw [ends_pure]
  · rfl

/-- The second half of a round, for a store of a crashed process. -/
theorem ends_readCrashed_bind (hlen : rf.length = read.size) (hfree : countFree rf ≠ 0)
    {k : Option (Slots × Nat) → M Slots}
    (hnone : k none = readLoop cfg read rpid older rf (countFree rf))
    (hsome : ∀ rf left, k (some (rf, left)) =
      if left = 0 then return rf else readLoop cfg read rpid older rf left)
    {r : Except Stop Slots} :
    (readCrashed cfg read store older rf (countFree rf) >>= k).Ends s r s' ↔
      ∃ s₁ rf₁, Persist cfg read store older s rf s₁ rf₁ ∧
        LoopRest cfg read rpid older s₁ rf₁ r s' := by
  have hnext : ∀ {s₁ : Model} {rf₁ : Slots}, (k (some (rf₁, countFree rf₁))).Ends s₁ r s' ↔
      LoopRest cfg read rpid older s₁ rf₁ r s' := by
    intro s₁ rf₁
    rw [hsome]
    exact ends_loopRest
  rw [ends_bind]
  constructor
  · rintro (⟨next, s₁, h₁, h₂⟩ | ⟨e, h₁, _⟩)
    · obtain ⟨rf₁, hp, ⟨_, hr⟩ | ⟨hskip, hr⟩⟩ := (ends_readCrashed hlen).mp h₁
      · cases hr
        exact ⟨s₁, rf₁, hp, hnext.mp h₂⟩
      · cases hr
        refine ⟨s₁, rf₁, hp, ?_⟩
        rw [(hp.eq_of_skips hskip).2, LoopRest, if_neg hfree, ← hnone]
        exact h₂
    · obtain ⟨_, _, ⟨_, hr⟩ | ⟨_, hr⟩⟩ := (ends_readCrashed hlen).mp h₁ <;> cases hr
  · rintro ⟨s₁, rf₁, hp, hrest⟩
    left
    by_cases hskip : Skips cfg read store older s
    · refine ⟨none, s₁, (ends_readCrashed hlen).mpr ⟨rf₁, hp, .inr ⟨hskip, rfl⟩⟩, ?_⟩
      rw [(hp.eq_of_skips hskip).2, LoopRest, if_neg hfree, ← hnone] at hrest
      exact hrest
    · exact ⟨some (rf₁, countFree rf₁), s₁,
        (ends_readCrashed hlen).mpr ⟨rf₁, hp, .inl ⟨hskip, rfl⟩⟩, hnext.mpr hrest⟩

/-- One round of the loop of `build_read_from`. -/
theorem ends_readLoop_cons (hlen : rf.length = read.size) (hfree : countFree rf ≠ 0)
    {r : Except Stop Slots} :
    (readLoop cfg read rpid (store :: older) rf (countFree rf)).Ends s r s' ↔
      ∃ s₁ rf₁, Visit cfg read rpid store older s rf s₁ rf₁ ∧
        LoopRest cfg read rpid older s₁ rf₁ r s' := by
  rw [readLoop, ends_state_bind]
  by_cases hc : s.isCrashed (s.getProcessId store) = true
  · rw [if_pos hc]
    simp only [ends_pure_bind, ends_state_bind]
    rw [if_pos hc]
    refine (ends_readCrashed_bind hlen hfree rfl fun _ _ => rfl).trans ?_
    constructor
    · rintro ⟨s₁, rf₁, h, hrest⟩
      exact ⟨s₁, rf₁, .crashed hc h, hrest⟩
    · rintro ⟨s₁, rf₁, h, hrest⟩
      cases h with
      | running h _ => simp [hc] at h
      | crash h _ _ => simp [hc] at h
      | crashed _ h => exact ⟨s₁, rf₁, h, hrest⟩
  · have hlive : s.isCrashed (s.getProcessId store) = false := by simpa using hc
    have hrunning : ∀ {s₁ rf₁}, Running read rpid store s rf s₁ rf₁ →
        ¬ s₁.isCrashed (s₁.getProcessId store) = true := by
      intro s₁ rf₁ h
      rw [h.getProcessId_eq, Model.isCrashed, h.crashes_eq]
      exact hc
    rw [if_neg hc, ends_bind]
    constructor
    · rintro (⟨⟨rf₁, left⟩, s₁, h₁, h₂⟩ | ⟨e, h₁, _⟩)
      · obtain ⟨rf₁, hr, h | ⟨h, hrf⟩⟩ := (ends_readRunning hlen).mp h₁
        · cases hr
          simp only [ends_state_bind] at h₂
          rw [if_neg (hrunning h), ends_pure_bind] at h₂
          exact ⟨s₁, rf₁, .running hlive h, ends_loopRest.mp h₂⟩
        · cases hr
          subst hrf
          simp only [ends_state_bind] at h₂
          rw [if_pos h.isCrashed] at h₂
          obtain ⟨s₂, rf₂, hp, hrest⟩ :=
            (ends_readCrashed_bind hlen hfree rfl fun _ _ => rfl).mp h₂
          exact ⟨s₂, rf₂, .crash hlive h hp, hrest⟩
      · obtain ⟨_, hr, _⟩ := (ends_readRunning hlen).mp h₁
        cases hr
    · rintro ⟨s₂, rf₂, h, hrest⟩
      left
      cases h with
      | running _ h =>
          refine ⟨(rf₂, countFree rf₂), s₂, (ends_readRunning hlen).mpr ⟨_, rfl, .inl h⟩, ?_⟩
          simp only [ends_state_bind]
          rw [if_neg (hrunning h), ends_pure_bind]
          exact ends_loopRest.mpr hrest
      | crash _ h hp =>
          refine ⟨(rf, countFree rf), _, (ends_readRunning hlen).mpr ⟨_, rfl, .inr ⟨h, rfl⟩⟩, ?_⟩
          simp only [ends_state_bind]
          rw [if_pos h.isCrashed]
          exact (ends_readCrashed_bind hlen hfree rfl fun _ _ => rfl).mpr ⟨s₂, rf₂, hp, hrest⟩
      | crashed h _ => exact absurd h hc

/-! ## The whole read -/

/-- The slots after `local_bypassing`: only the `NONATOMIC_STORE` entries of the reader's own store
buffer are looked at. -/
def bypassed (s : Model) (read : ModelAction) : Slots :=
  fillAll (wants read)
    ((s.threadMemory read.tid).storeBuffer.reverse.filter fun w => w.type = .nonatomicStore)
    (Slots.free read.size)

theorem bypassLoop_eq (ws : List ModelAction) (hlen : rf.length = read.size)
    (hfree : countFree rf ≠ 0) :
    bypassLoop read ws rf (countFree rf) =
      (decide (countFree (fillAll (wants read) (ws.filter fun w => w.type = .nonatomicStore) rf) = 0),
        fillAll (wants read) (ws.filter fun w => w.type = .nonatomicStore) rf,
        countFree (fillAll (wants read) (ws.filter fun w => w.type = .nonatomicStore) rf)) := by
  induction ws generalizing rf with
  | nil => simp [bypassLoop, hfree]
  | cons w ws ih =>
      rw [bypassLoop]
      by_cases hw : w.type = .nonatomicStore
      · rw [if_pos hw, getOverlaps_eq hlen, List.filter_cons_of_pos (by simpa using hw), fillAll_cons]
        dsimp only
        by_cases hfull : countFree (fill (wants read) w rf) = 0
        · rw [if_pos hfull, fillAll_of_full _ _ hfull, decide_eq_true hfull]
        · rw [if_neg hfull, ih (by simpa using hlen) hfull]
      · rw [if_neg hw, List.filter_cons_of_neg (by simpa using hw), ih hlen hfree]

theorem length_bypassed (s : Model) (read : ModelAction) :
    (bypassed s read).length = read.size := by
  rw [bypassed, length_fillAll, length_free]

theorem localBypassing_eq (s : Model) (hpos : 0 < read.size) :
    (s.threadMemory read.tid).localBypassing read (Slots.free read.size) read.size =
      (decide (countFree (bypassed s read) = 0), bypassed s read, countFree (bypassed s read)) := by
  have h := @bypassLoop_eq read (Slots.free read.size)
    (s.threadMemory read.tid).storeBuffer.reverse (length_free _) (by rw [countFree_free]; omega)
  rw [countFree_free] at h
  exact h

/-- A read goes through its own store buffer and then through the store list of its word. -/
theorem ends_buildReadFromSlots (hpos : 0 < read.size) (hcfg : cfg.memPoison = false)
    {r : Except Stop Slots} :
    (buildReadFromSlots cfg read).Ends s r s' ↔
      LoopRest cfg read (s.getProcessId read) (s.getStorelist read.location).reverse s
        (bypassed s read) r s' := by
  unfold buildReadFromSlots LoopRest
  rw [ends_state_bind, localBypassing_eq s hpos]
  by_cases hfull : countFree (bypassed s read) = 0
  · simp only [hfull, decide_true, if_true]
    rw [ends_pure]
  · simp only [hfull, decide_false, Bool.false_eq_true, if_false, hcfg]
    rw [ends_bind]
    simp only [ends_require, ends_state_bind]
    by_cases hlist : s.getStorelist read.location = []
    · rw [hlist, List.reverse_nil, readLoop, ends_stop]
      simp [and_comm]
    · simp [hlist, and_comm]

/-- The result of a read is the value of its slots. -/
theorem ends_buildReadFrom {r : Except Stop Nat} :
    (buildReadFrom cfg read).Ends s r s' ↔
      ∃ r', (buildReadFromSlots cfg read).Ends s r' s' ∧ r = r'.map (getReadValue read.location) := by
  unfold buildReadFrom
  simp only [ends_bind, ends_pure]
  constructor
  · rintro (⟨rf, s₁, h, rfl, rfl⟩ | ⟨e, h, rfl⟩)
    · exact ⟨.ok rf, h, rfl⟩
    · exact ⟨.error e, h, rfl⟩
  · rintro ⟨r', h, rfl⟩
    cases r' with
    | ok rf => exact .inl ⟨rf, s', h, rfl, rfl⟩
    | error e => exact .inr ⟨e, h, rfl⟩

/-- With an empty store buffer a read is the loop over the store list. -/
theorem ends_buildReadFromSlots_of_empty (hpos : 0 < read.size) (hcfg : cfg.memPoison = false)
    (hbuf : (s.threadMemory read.tid).storeBuffer = []) {r : Except Stop Slots} :
    (buildReadFromSlots cfg read).Ends s r s' ↔
      (readLoop cfg read (s.getProcessId read) (s.objToWr read.word).reverse (Slots.free read.size)
        (countFree (Slots.free read.size))).Ends s r s' := by
  have hb : bypassed s read = Slots.free read.size := by
    rw [bypassed, hbuf]
    rfl
  rw [ends_buildReadFromSlots hpos hcfg, hb, LoopRest, countFree_free, if_neg (by omega)]
  rfl

end

end Cxlmc
