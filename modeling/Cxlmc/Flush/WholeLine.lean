import Cxlmc.Flush.Basic

/-!
# A flush and the other words of its line

The intervals are kept for a line, but the crash loop of `evict_clflush` walks the store list of one
word. Two flushes of one line show the same exactly where they have the same victim, or where no
process may crash any more (`flush_whole_line`).
-/

namespace Cxlmc

open Stateful

/-- What can be seen of a computation: its decision points and, at the end of each path, the crashes,
the clock and the intervals. -/
def seen {α : Type} (m : M α) (s : Model) : Decision (Crashes × Nat × CacheLineStore) :=
  (m s).bind fun x => .done (x.2.crashes, x.2.nextSequenceNum, x.2.objToCl)

section

variable {s s' : Model} {a b : ModelAction}

/-- The value that a computation returns is not seen. -/
theorem seen_bind_pure {α β : Type} (m : M α) (f : α → β) (s : Model) :
    seen (m >>= fun x => (pure (f x) : M β)) s = seen m s := by
  show ((m s).bind _).bind _ = (m s).bind _
  generalize m s = t
  induction t with
  | done x =>
      obtain ⟨r, s'⟩ := x
      cases r <;> rfl
  | choose n k ih => exact congrArg (Decision.choose n) (funext ih)

/-- The decision point of a victim, and what is seen where the crash is taken. -/
theorem seen_insertCrash (hasks : s.AsksCrash) (pid : ProcessId) :
    ∃ k, seen (insertCrash pid) s = .choose 2 k ∧
      k 0 = .done ((s.crash pid).crashes, s.nextSequenceNum, s.objToCl) := by
  have hfirst : s.crashes = ∅ := Crashes.eq_empty_of_size hasks.2.1
  have hshould : shouldCrash s = .choose 2 fun c => .done (.ok (decide (c = 0)), s.countCrashPoint) := by
    show (if s.AsksCrash then _ else _ : M Bool) s = _
    rw [if_pos hasks]
    rfl
  have hinsert : insertCrash pid s = (shouldCrash s).bind _ := rfl
  rw [seen, hinsert, hshould]
  refine ⟨_, rfl, ?_⟩
  show seen (if pid = s.countCrashPoint.processId then do
      update fun s => { s with crashes := AList.insert pid s.nextSequenceNum s.crashes }
      update Model.processCrash
      stop .exit
    else update fun s => { s with crashes := s.crashes.emplace pid s.nextSequenceNum } : M Unit)
      s.countCrashPoint = _
  split
  · have hexit : ∀ s₁, s₁ = s.countCrashPoint.crash pid →
        Decision.done (s₁.processCrash.crashes, s₁.processCrash.nextSequenceNum,
          s₁.processCrash.objToCl) =
        Decision.done ((s.crash pid).crashes, s.nextSequenceNum, s.objToCl) := by
      rintro s₁ rfl
      rw [(Model.Idle.processCrash (s.countCrashPoint.crash pid)).memory]
      rfl
    exact hexit _ (Model.crash_eq_insert (s := s.countCrashPoint) hfirst pid)
  · rfl

/-- The victim can be seen. -/
theorem seen_crashVictim_inj (hasks : s.AsksCrash) {v v' : Option ProcessId}
    (h : seen (crashVictim v) s = seen (crashVictim v') s) : v = v' := by
  have hnone : seen (crashVictim none) s = .done (s.crashes, s.nextSequenceNum, s.objToCl) := rfl
  cases v with
  | none =>
      cases v' with
      | none => rfl
      | some pid =>
          obtain ⟨k, hk, _⟩ := seen_insertCrash hasks pid
          rw [hnone] at h
          exact absurd (h.trans hk) nofun
  | some pid =>
      obtain ⟨k, hk, hcrash⟩ := seen_insertCrash hasks pid
      cases v' with
      | none =>
          rw [hnone] at h
          exact absurd (hk.symm.trans h) nofun
      | some pid' =>
          obtain ⟨k', hk', hcrash'⟩ := seen_insertCrash hasks pid'
          have hkk : k = k' := by
            have heq := hk.symm.trans (h.trans hk')
            injection heq
          rw [← hkk, hcrash] at hcrash'
          have hcrashes : (s.crash pid).crashes = (s.crash pid').crashes := by
            injection hcrash' with hpair
            exact congrArg Prod.fst hpair
          -- before the first crash no process has crashed
          have hmem : pid ∈ (s.crash pid').crashes := by
            rw [← hcrashes]
            exact Crashes.mem_emplace.mpr (.inl rfl)
          rcases Crashes.mem_emplace.mp hmem with heq | hold
          · rw [heq]
          · rw [Crashes.eq_empty_of_size hasks.2.1] at hold
            exact absurd hold (AList.notMem_empty pid)

/-- In every state, two flushes of one line offer the same decision points and lead to the same crashes,
clock and intervals, if and only if no process may crash or both have the same victim. -/
theorem flush_whole_line (ha : a.type = .cacheClflush) (hb : b.type = .cacheClflush)
    (hline : getCacheID a.location = getCacheID b.location) :
    seen (evictClflush a) s = seen (evictClflush b) s ↔
      (s.AsksCrash → s.flushVictim a = s.flushVictim b) := by
  have hseen : ∀ c : ModelAction, c.type = .cacheClflush → seen (evictClflush c) s =
      seen (crashVictim (if s.AsksCrash then s.flushVictim c else none))
        (s.tick.flushed s.nextSequenceNum c.line) := by
    intro c hc
    show (evictClflush c s).bind _ = _
    rw [evictClflush_eq hc]
    exact seen_bind_pure _ (fun _ => { c with tick := s.ticks }) _
  have hsame : a.line = b.line := hline
  rw [hseen a ha, hseen b hb, hsame]
  by_cases hasks : s.AsksCrash
  · rw [if_pos hasks, if_pos hasks]
    constructor
    · intro heq _
      exact seen_crashVictim_inj (s := s.tick.flushed s.nextSequenceNum b.line) hasks heq
    · intro h
      rw [h hasks]
  · rw [if_neg hasks, if_neg hasks]
    exact ⟨fun _ h => absurd h hasks, fun _ => rfl⟩

end

/-! ## Two words of a line -/

def flushOf (location : Nat) : ModelAction := { tid := 1, type := .cacheClflush, location := location }

/-- Process 0 stores to two words of a line, to the first of them twice, and everything is evicted;
process 1 has the token. -/
def twoWordsOfLine : List (Input × List Nat) :=
  [({ call := .store 4096 .w64 1 }, []), ({}, []), ({}, []),
   ({ call := .store 4104 .w64 2 }, []), ({}, []), ({}, []),
   ({ call := .store 4096 .w64 3 }, []), ({}, []), ({}, []),
   ({ call := .mfence 4096 }, []), ({}, []), ({}, []),
   ({ call := .schedYield }, [])]

/-- `flush_whole_line` where both words have a store of process 0 that is not persistent. -/
theorem flush_whole_line_bothWords : ∃ tr s,
    IsRun .asBuilt 2 4096 (fun _ => 0) (fun _ => .default) tr s ∧ s.AsksCrash ∧
    s.flushVictim (flushOf 4096) = some 0 ∧
    seen (evictClflush (flushOf 4096)) s = seen (evictClflush (flushOf 4104)) s := by
  obtain ⟨tr, s, hrun, hcheck⟩ := exists_run_of_replay .asBuilt
    (Model.init 2 4096 (fun _ => 0) (fun _ => .default)) twoWordsOfLine
    (fun _ s => decide s.AsksCrash && decide (s.flushVictim (flushOf 4096) = some 0) &&
      decide (s.flushVictim (flushOf 4104) = some 0))
    (by decide +kernel)
  simp only [Bool.and_eq_true, decide_eq_true_eq] at hcheck
  obtain ⟨⟨hasks, hfirst⟩, hsecond⟩ := hcheck
  have hrun' : IsRun .asBuilt 2 4096 (fun _ => 0) (fun _ => .default) tr s := ⟨by decide, hrun⟩
  refine ⟨tr, s, hrun', hasks, hfirst, ?_⟩
  exact (flush_whole_line rfl rfl (by decide)).mpr fun _ => hfirst.trans hsecond.symm

/-- After two stores to a word, a flush of the word has a decision point, and a flush of the next word
of the line has none. -/
theorem flush_not_whole_line : ∃ tr s,
    IsRun .asBuilt 2 4096 (fun _ => 0) (fun _ => .default) tr s ∧
    getCacheID (flushOf 4096).location = getCacheID (flushOf 4120).location ∧
    seen (evictClflush (flushOf 4096)) s ≠ seen (evictClflush (flushOf 4120)) s := by
  obtain ⟨tr, s, hrun, hcheck⟩ := exists_run_of_replay .asBuilt
    (Model.init 2 4096 (fun _ => 0) (fun _ => .default)) twoWordsOfLine
    (fun _ s => ((seen (evictClflush (flushOf 4096)) s).runWith []).isNone &&
      ((seen (evictClflush (flushOf 4120)) s).runWith []).isSome)
    (by decide +kernel)
  simp only [Bool.and_eq_true] at hcheck
  refine ⟨tr, s, ⟨by decide, hrun⟩, by decide, ?_⟩
  intro heq
  rw [heq] at hcheck
  cases hdone : (seen (evictClflush (flushOf 4120)) s).runWith [] with
  | none =>
      rw [hdone] at hcheck
      cases hcheck.2
  | some x =>
      rw [hdone] at hcheck
      cases hcheck.1

end Cxlmc
