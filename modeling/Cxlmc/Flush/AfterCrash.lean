import Cxlmc.Effect.Intervals
import Cxlmc.Flush.Basic

/-!
# A flush after a crash

`evict_clflush` moves `begin` of every process, also of one that has crashed before the flush. The
interval of such a process stays as it was, and later reads may find the same of its stores lost or
persisted, exactly where the clock of the flush is not past `begin` (`flush_after_crash`).
-/

namespace Cxlmc

open Stateful Fill

/-- The clock with which a flush of `a` reaches its line. -/
def Model.flushClock (s : Model) (a : ModelAction) : Nat :=
  if a.type = .cacheClflush then s.nextSequenceNum else a.earliestEffect

/-- One round of a read for a store, with the older stores of its list and the slots before and after
the round. -/
structure ReadRound where
  read : ModelAction
  store : ModelAction
  older : List ModelAction
  rf : Slots
  rf' : Slots

/-- Reads that go through stores of the crashed process `p`, round after round. -/
inductive Rounds (cfg : Config) (p : ProcessId) : Model → List ReadRound → Model → Prop where
  | nil (s : Model) : Rounds cfg p s [] s
  | cons {s s₁ s₂ : Model} {r : ReadRound} {rs : List ReadRound} (hpid : s.getProcessId r.store = p)
      (h : Persist cfg r.read r.store r.older s r.rf s₁ r.rf') (hrest : Rounds cfg p s₁ rs s₂) :
      Rounds cfg p s (r :: rs) s₂

/-- The intervals of `p` are the same, and later reads may find the same of its stores lost or
persisted. -/
structure Model.SameFor (cfg : Config) (p : ProcessId) (s s' : Model) : Prop where
  interval : ∀ line, s'.objToCl p line = s.objToCl p line
  reads : ∀ rs, (∃ s₁, Rounds cfg p s rs s₁) ↔ ∃ s₁, Rounds cfg p s' rs s₁

/-- What a round for a store of `p` looks at. -/
structure Model.Agrees (p : ProcessId) (s s' : Model) : Prop where
  interval : ∀ line, s'.objToCl p line = s.objToCl p line
  processId : ∀ a, s'.getProcessId a = s.getProcessId a
  backtrack : s'.backtrack s'.processId = s.backtrack s.processId

/-- The flush reaches its line no later than `begin` of `p`; every other effect. -/
def Effect.SparesProcess (p : ProcessId) (s : Model) : Effect → Prop
  | .popClflush _ a => s.nextSequenceNum ≤ (s.objToCl p a.line).getBegin
  | .flush _ a => a.earliestEffect ≤ (s.objToCl p a.line).getBegin
  | _ => True

section

variable {cfg : Config} {p : ProcessId} {s s' s₁ t : Model} {a : ModelAction}

namespace Model.Agrees

theorem symm (h : s.Agrees p t) : t.Agrees p s :=
  ⟨fun line => (h.interval line).symm, fun a => (h.processId a).symm, h.backtrack.symm⟩

/-- The same change of the interval on both sides. -/
theorem setCacheline (h : s.Agrees p t) (line : Nat) (cl : Cacheline) :
    (s.setCacheline p line cl).Agrees p (t.setCacheline p line cl) := by
  refine ⟨?_, h.processId, h.backtrack⟩
  intro a
  show t.objToCl.setCacheline p line cl p a = s.objToCl.setCacheline p line cl p a
  rw [CacheLineStore.setCacheline_apply, CacheLineStore.setCacheline_apply, h.interval]

/-- A round for a store of `p` can do the same on both sides. -/
theorem persist (h : s.Agrees p t) {read store : ModelAction} {older : List ModelAction}
    {rf rf₁ : Slots} (hpid : s.getProcessId store = p)
    (hp : Persist cfg read store older s rf s₁ rf₁) :
    ∃ t₁, Persist cfg read store older t rf t₁ rf₁ ∧ s₁.Agrees p t₁ := by
  have hpid' : t.getProcessId store = p := (h.processId store).trans hpid
  have hcl : t.objToCl (t.getProcessId store) read.line =
      s.objToCl (s.getProcessId store) read.line := by
    rw [hpid, hpid']
    exact h.interval read.line
  have hskips : Skips cfg read store older t ↔ Skips cfg read store older s := by
    rw [Skips, Skips, hcl]
  cases hp with
  | persisted hle => exact ⟨t, .persisted (by rw [hcl]; exact hle), h⟩
  | lostBefore hlt hnot => exact ⟨t, .lostBefore (by rw [hcl]; exact hlt) (by rw [hcl]; exact hnot), h⟩
  | skipped hskip => exact ⟨t, .skipped (hskips.mpr hskip), h⟩
  | shadowed hmay hskip hf =>
      exact ⟨t, .shadowed (by rw [hcl]; exact hmay) (fun hs => hskip (hskips.mp hs)) hf, h⟩
  | kept hmay hskip hf =>
      refine ⟨_, .kept (by rw [hcl]; exact hmay) (fun hs => hskip (hskips.mp hs)) hf, ?_⟩
      rw [Model.raiseBegin, Model.raiseBegin, hcl, hpid, hpid']
      exact h.setCacheline _ _
  | lost hmay hskip hf hinit hback =>
      refine ⟨_, .lost (by rw [hcl]; exact hmay) (fun hs => hskip (hskips.mp hs)) hf hinit
        (h.backtrack.trans hback), ?_⟩
      rw [Model.lowerEnd, Model.lowerEnd, hcl, hpid, hpid']
      exact h.setCacheline _ _

/-- Any number of rounds can do the same on both sides. -/
theorem rounds (h : s.Agrees p t) {rs : List ReadRound} (hs : Rounds cfg p s rs s₁) :
    ∃ t₁, Rounds cfg p t rs t₁ := by
  induction hs generalizing t with
  | nil s => exact ⟨t, .nil t⟩
  | cons hpid hp _ ih =>
      obtain ⟨t₁, hp', hagrees⟩ := h.persist hpid hp
      obtain ⟨t₂, hrest⟩ := ih hagrees
      exact ⟨t₂, .cons ((h.processId _).trans hpid) hp' hrest⟩

theorem sameFor (h : s.Agrees p t) : s.SameFor cfg p t where
  interval := h.interval
  reads _ := ⟨fun ⟨_, hs⟩ => h.rounds hs, fun ⟨_, ht⟩ => h.symm.rounds ht⟩

end Model.Agrees

/-! ## Flushes -/

/-- A flush that returns has moved the intervals, and may have crashed another process. -/
theorem evictClflush_frame {b : ModelAction} (h : (evictClflush a).Ends s (.ok b) s') :
    ∃ clock n cr, s' = { s.flushed (s.flushClock a) a.line with
      ticks := clock, crashPoints := n, crashes := cr } := by
  obtain ⟨min, ⟨htype, hloop⟩ | ⟨htype, hloop⟩⟩ := ends_evictClflush h (by nofun)
  · obtain ⟨_, s₁, h₁, h₂⟩ := ends_bind_ok.mp hloop
    obtain ⟨_, rfl⟩ := ends_pure.mp h₂
    obtain ⟨n, cr, rfl⟩ := flushCrashLoop_frame h₁
    rw [Model.flushClock, if_pos htype]
    exact ⟨_, n, cr, rfl⟩
  · obtain ⟨_, s₁, h₁, h₂⟩ := ends_bind_ok.mp hloop
    obtain ⟨_, rfl⟩ := ends_pure.mp h₂
    obtain ⟨n, cr, rfl⟩ := flushCrashLoop_frame h₁
    rw [Model.flushClock, if_neg (by rw [htype]; nofun)]
    exact ⟨_, n, cr, rfl⟩

/-- A flush keeps the intervals of a process exactly if it is not past `begin`. -/
theorem Model.flushed_same_iff (hp : p < s.processCount) (clock line : Nat) :
    (∀ a, (s.flushed clock line).objToCl p a = s.objToCl p a) ↔
      clock ≤ (s.objToCl p line).getBegin := by
  constructor
  · intro hsame
    by_contra hlt
    have hline := hsame line
    rw [s.flushed_objToCl, if_pos ⟨rfl, hp, Nat.lt_of_not_le hlt⟩] at hline
    have hbegin := congrArg Cacheline.getBegin hline
    rw [Cacheline.getBegin_setBegin] at hbegin
    exact hlt (Nat.le_of_eq hbegin)
  · intro hle a
    rw [s.flushed_objToCl, if_neg]
    rintro ⟨rfl, _, hlt⟩
    exact Nat.not_lt_of_le hle hlt

theorem Model.flushed_sameFor_iff {b : ModelAction} (hp : p < s.processCount)
    (h : (evictClflush a).Ends s (.ok b) s') :
    s.SameFor cfg p s' ↔ s.flushClock a ≤ (s.objToCl p a.line).getBegin := by
  obtain ⟨clock, n, cr, rfl⟩ := evictClflush_frame h
  rw [← s.flushed_same_iff hp]
  constructor
  · intro hsame
    exact hsame.interval
  · intro hsame
    exact Model.Agrees.sameFor ⟨hsame, fun _ => rfl, rfl⟩

/-- Effects other than reads move an interval only where a flush is past its `begin`. -/
theorem MemStep.interval_of_spares {e : Effect} (h : MemStep cfg s e s')
    (hread : ∀ action rf, e ≠ .read action rf) (hspare : e.SparesProcess p s) (line : Nat) :
    s'.objToCl p line = s.objToCl p line := by
  have hflushed : ∀ (s : Model) (clock line' : Nat), clock ≤ (s.objToCl p line').getBegin →
      (s.flushed clock line').objToCl p line = s.objToCl p line := by
    intro s clock line' hle
    rw [s.flushed_objToCl, if_neg]
    rintro ⟨rfl, _, hlt⟩
    exact Nat.not_lt_of_le hle hlt
  cases h with
  | idle h => rw [h.memory]
  | yield h => rw [h.memory]
  | popClflush t a rest _ _ => exact hflushed (s.popped t rest).tick _ _ hspare
  | flush t a rest _ _ => exact hflushed (s.unqueued t rest) _ _ hspare
  | read action rf _ _ _ => exact absurd rfl (hread action rf)
  | _ => rfl

/-- In every state and for every process, also one that has crashed: a flush leaves the intervals and
the outcomes of later reads alone if and only if it is not past `begin` of the process on its line. In
a run in which that holds of every flush, only reads move the intervals of the process. -/
theorem flush_after_crash (s : Model) (hp : p < s.processCount) :
    (∀ a b s', (evictClflush a).Ends s (.ok b) s' →
      (s.SameFor cfg p s' ↔ s.flushClock a ≤ (s.objToCl p a.line).getBegin)) ∧
    ∀ s', Goes (fun s e s' => MemStep cfg s e s' ∧ e.SparesProcess p s)
        (fun e => ∀ action rf, e ≠ .read action rf) s s' →
      ∀ line, s'.objToCl p line = s.objToCl p line := by
  refine ⟨fun a b s' h => Model.flushed_sameFor_iff hp h, ?_⟩
  intro s' hgoes
  apply hgoes.invariant (I := fun x => ∀ line, x.objToCl p line = s.objToCl p line) _ fun _ => rfl
  intro x e y hread hx ⟨hstep, hspare⟩ line
  rw [hstep.interval_of_spares hread hspare]
  exact hx line

end

/-! ## A store that could be lost -/

/-- Process 0 stores to a line twice and then to another, three stores are evicted, and it passes the
token. Process 1 reads the other line, which crashes process 0, and flushes the first. -/
def flushAfterCrash : List (Input × List Nat) :=
  [({ call := .store 4096 .w64 1 }, []), ({}, []), ({}, []),
   ({ call := .store 4096 .w64 2 }, []), ({}, []), ({}, []),
   ({ call := .store 4160 .w64 3 }, []), ({}, []), ({}, []),
   ({ call := .store 4160 .w64 4 }, []), ({ random := 3 }, []), ({}, []), ({}, []), ({}, []), ({}, []),
   ({ call := .schedYield }, []),
   ({ call := .load 4160 .w64 }, []), ({}, [0, 0]), ({}, []),
   ({ call := .clflush 4096 }, []), ({}, []), ({}, []), ({}, []), ({}, []), ({}, []),
   ({ call := .mfence 4096 }, []), ({}, [])]

/-- Process 0 stores to a line and flushes it, stores to another line and passes the token. Process 1 reads
the other line, which crashes process 0. -/
def crashAfterFlush : List (Input × List Nat) :=
  [({ call := .store 4096 .w64 1 }, []), ({}, []), ({}, []),
   ({ call := .clflush 4096 }, []), ({}, []), ({}, []), ({}, []),
   ({ call := .store 4160 .w64 3 }, []), ({}, []), ({}, []),
   ({ call := .store 4160 .w64 4 }, []), ({ random := 3 }, []), ({}, []), ({}, []), ({}, []), ({}, []),
   ({ call := .schedYield }, []), ({}, []), ({}, []),
   ({ call := .load 4160 .w64 }, []), ({}, [0, 0]), ({}, [])]

/-- `flush_after_crash` for a flush whose clock is the `begin` that an earlier flush has left to the crashed
process. -/
theorem flush_after_crash_notPast : ∃ tr s,
    IsRun .asBuilt 2 4096 (fun _ => 0) (fun _ => .default) tr s ∧ s.isCrashed 0 = true ∧
    (s.objToCl 0 4096).getBegin = 1 ∧
    ∀ b s', (evictClflush { tid := 1, type := .cacheClflushopt, location := 4096, earliestEffect := 1 }).Ends
      s (.ok b) s' → s.SameFor .asBuilt 0 s' := by
  obtain ⟨tr, s, hrun, hcheck⟩ := exists_run_of_replay .asBuilt
    (Model.init 2 4096 (fun _ => 0) (fun _ => .default)) crashAfterFlush
    (fun _ s => s.isCrashed 0 && decide (0 < s.processCount ∧ (s.objToCl 0 4096).getBegin = 1))
    (by decide +kernel)
  simp only [Bool.and_eq_true, decide_eq_true_eq] at hcheck
  obtain ⟨hcrashed, hp, hbegin⟩ := hcheck
  refine ⟨tr, s, ⟨by decide, hrun⟩, hcrashed, hbegin, ?_⟩
  intro b s' h
  refine ((flush_after_crash s hp).1 _ b s' h).mpr ?_
  show 1 ≤ (s.objToCl 0 4096).getBegin
  rw [hbegin]

/-- Before the last step of the run of `flushAfterCrash` the second store may have been lost or not,
and after it, it has persisted. -/
theorem flush_narrows_crashed : ∃ tr s,
    IsRun .asBuilt 2 4096 (fun _ => 0) (fun _ => .default) tr s ∧
    ∃ x ∈ stepsOf tr s, x.1.isCrashed 0 = true ∧ x.1.isLive x.1.processId = true ∧
      x.1.objToCl 0 4096 ≠ x.2.2.objToCl 0 4096 ∧
      ∃ a ∈ x.1.storesOf 4096, x.1.getProcessId a = 0 ∧
        (x.1.objToCl 0 4096).MayPersist a.seqNum ∧
        ¬ (x.2.2.objToCl 0 4096).MayPersist a.seqNum := by
  obtain ⟨tr, s, hrun, hcheck⟩ := exists_run_of_replay .asBuilt
    (Model.init 2 4096 (fun _ => 0) (fun _ => .default)) flushAfterCrash
    (fun tr s => (stepsOf tr s).any fun x =>
      x.1.isCrashed 0 && x.1.isLive x.1.processId &&
      decide (x.1.objToCl 0 4096 ≠ x.2.2.objToCl 0 4096) &&
      (x.1.storesOf 4096).any fun a => decide (x.1.getProcessId a = 0) &&
        decide ((x.1.objToCl 0 4096).MayPersist a.seqNum) &&
        !decide ((x.2.2.objToCl 0 4096).MayPersist a.seqNum))
    (by decide +kernel)
  simp only [List.any_eq_true, Bool.and_eq_true, Bool.not_eq_true', decide_eq_true_eq,
    decide_eq_false_iff_not] at hcheck
  obtain ⟨x, hx, ⟨⟨hcrashed, hlive⟩, hne⟩, a, ha, ⟨hpid, hmay⟩, hnot⟩ := hcheck
  exact ⟨tr, s, ⟨by decide, hrun⟩, x, hx, hcrashed, hlive, hne, a, ha, hpid, hmay, hnot⟩

end Cxlmc
